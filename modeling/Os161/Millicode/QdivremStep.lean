import Os161.Millicode.Qdivrem

/-!
# One digit of the quotient

The loop of `__qdivrem` at a divisor of two digits or more. A digit of the quotient is guessed from
the first two digits of the divisor and three of the dividend; the guess is right or one too large
(`Leading.guess_spec`). The multiple of the divisor is then taken off the dividend, and where the
guess was too large, the divisor is added back.

`Leading` relates the leading digits to the numbers they begin, so that the guess is a matter of
inequalities, without arrays; `leading` reads it off the arrays. The divisor is normalized here: its
first digit is at least half of the base.

## Main results

* `Millicode.Leading.guess_spec` — the guess
* `Millicode.divideStep_spec` — one digit of the quotient
* `Millicode.divided_divideLoop` — all of them
-/

namespace Os161

namespace Millicode

/-! ### The guess -/

section Guess

variable {v1 v2 uj0 uj1 uj2 qhat rhat : UInt32} {c U V : ℕ}

/-- What the leading digits say: `v1 v2` are those of `V`, and `uj0 uj1 uj2` those of `U`, whose
quotient has one digit. -/
structure Leading (v1 v2 uj0 uj1 uj2 : UInt32) (U V c : ℕ) : Prop where
  v1_pos : 0 < v1.toNat
  v1_lt : v1.toNat < 65536
  v2_lt : v2.toNat < 65536
  uj0_lt : uj0.toNat < 65536
  uj1_lt : uj1.toNat < 65536
  uj2_lt : uj2.toNat < 65536
  c_pos : 0 < c
  le_V : (v1.toNat * 65536 + v2.toNat) * c ≤ V
  V_lt : V < (v1.toNat * 65536 + v2.toNat + 1) * c
  le_U : ((uj0.toNat * 65536 + uj1.toNat) * 65536 + uj2.toNat) * c ≤ U
  U_lt : U < ((uj0.toNat * 65536 + uj1.toNat) * 65536 + uj2.toNat + 1) * c
  quot_lt : U / V < 65536

/-- A guess and what it leaves of the first two digits. -/
structure Guessed (v1 uj0 uj1 qhat rhat : UInt32) (U V : ℕ) : Prop where
  lead : v1.toNat * qhat.toNat + rhat.toNat = uj0.toNat * 65536 + uj1.toNat
  lt : qhat.toNat < 65536
  le : U / V ≤ qhat.toNat

variable (H : Leading v1 v2 uj0 uj1 uj2 U V c)
include H

theorem Leading.V_pos : 0 < V := by
  refine Nat.lt_of_lt_of_le (Nat.mul_pos ?_ H.c_pos) H.le_V
  have := H.v1_pos
  omega

/-- The two leading digits of `U`. -/
theorem Leading.U_two : U < (uj0.toNat * 65536 + uj1.toNat + 1) * (65536 * c) := by
  refine Nat.lt_of_lt_of_le H.U_lt ?_
  have huj2 : uj2.toNat + 1 ≤ 65536 := H.uj2_lt
  calc ((uj0.toNat * 65536 + uj1.toNat) * 65536 + uj2.toNat + 1) * c
      ≤ ((uj0.toNat * 65536 + uj1.toNat) * 65536 + 65536) * c :=
        Nat.mul_le_mul_right c (by omega)
    _ = _ := by ring

/-- The leading digit of `V`. -/
theorem Leading.V_one : v1.toNat * (65536 * c) ≤ V := by
  refine le_trans ?_ H.le_V
  calc v1.toNat * (65536 * c) = v1.toNat * 65536 * c := (Nat.mul_assoc _ _ _).symm
    _ ≤ (v1.toNat * 65536 + v2.toNat) * c := Nat.mul_le_mul_right c (Nat.le_add_right _ _)

/-- The quotient has one digit, so `U` does not begin with more than `V` does. -/
theorem Leading.uj0_le : uj0.toNat ≤ v1.toNat := by
  have hv2 := H.v2_lt
  have hU : U < 65536 * V := (Nat.div_lt_iff_lt_mul H.V_pos).mp H.quot_lt
  have hV : V ≤ (v1.toNat + 1) * 65536 * c :=
    (Nat.le_of_lt H.V_lt).trans (Nat.mul_le_mul_right c (by omega))
  have hle : uj0.toNat * (65536 * 65536 * c) ≤ U := by
    refine le_trans ?_ H.le_U
    calc uj0.toNat * (65536 * 65536 * c) = uj0.toNat * 65536 * 65536 * c := by ring
      _ ≤ _ := Nat.mul_le_mul_right c (by omega)
  refine Nat.le_of_lt_succ (Nat.lt_of_mul_lt_mul_right (a := 65536 * 65536 * c) ?_)
  calc uj0.toNat * (65536 * 65536 * c) ≤ U := hle
    _ < 65536 * V := hU
    _ ≤ 65536 * ((v1.toNat + 1) * 65536 * c) := Nat.mul_le_mul_left _ hV
    _ = (v1.toNat + 1) * (65536 * 65536 * c) := by ring

/-- A remainder of two digits ends the loop: the guess passes the test. -/
theorem Leading.guess_le_of_large (hG : Guessed v1 uj0 uj1 qhat rhat U V)
    (hrhat : 65536 ≤ rhat.toNat) : qhat.toNat ≤ U / V + 1 := by
  have hv1 := H.v1_pos
  refine guess_le_succ H.le_U H.V_lt H.le_V H.V_pos (by have := hG.lt; omega) ?_
  have hmul : v2.toNat * qhat.toNat ≤ 65536 * 65536 :=
    Nat.mul_le_mul (Nat.le_of_lt H.v2_lt) (Nat.le_of_lt hG.lt)
  have hlead := hG.lead
  calc (v1.toNat * 65536 + v2.toNat) * qhat.toNat
      = v1.toNat * qhat.toNat * 65536 + v2.toNat * qhat.toNat := by ring
    _ ≤ (uj0.toNat * 65536 + uj1.toNat) * 65536 + uj2.toNat := by omega

/-- A guess that fails the test is too large, and the next one is at hand. -/
theorem Leading.next (hG : Guessed v1 uj0 uj1 qhat rhat U V) (hless : U / V < qhat.toNat)
    (hrhat : rhat.toNat < 65536) :
    Guessed v1 uj0 uj1 (qhat - 1) (rhat + v1) U V := by
  have hv1 := H.v1_lt
  have hlt := hG.lt
  have hlead := hG.lead
  have hq : (qhat - 1).toNat = qhat.toNat - 1 :=
    UInt32.toNat_sub_of_le qhat 1 (Nat.succ_le_of_lt (Nat.zero_lt_of_lt hless))
  have hr : (rhat + v1).toNat = rhat.toNat + v1.toNat := by
    rw [UInt32.toNat_add]
    omega
  refine ⟨?_, by omega, by omega⟩
  have hle : v1.toNat ≤ v1.toNat * qhat.toNat :=
    Nat.le_mul_of_pos_right _ (Nat.zero_lt_of_lt hless)
  rw [hq, hr, Nat.mul_sub, Nat.mul_one]
  omega

/-- **The loop of D3** ends with a guess that is too large by one at most. -/
theorem Leading.qhatLoop_spec (hG : Guessed v1 uj0 uj1 qhat rhat U V)
    (hrhat : rhat.toNat < 65536) :
    U / V ≤ (qhatLoop v1 v2 uj2 qhat rhat).toNat ∧
      (qhatLoop v1 v2 uj2 qhat rhat).toNat ≤ U / V + 1 ∧
      (qhatLoop v1 v2 uj2 qhat rhat).toNat < 65536 := by
  have htest {qhat rhat : UInt32} (hG : Guessed v1 uj0 uj1 qhat rhat U V)
      (hrhat : rhat.toNat < 65536) : combine rhat uj2 < v2 * qhat ↔
        (uj0.toNat * 65536 + uj1.toNat) * 65536 + uj2.toNat <
          (v1.toNat * 65536 + v2.toNat) * qhat.toNat := by
    have hle : v2.toNat * qhat.toNat ≤ 65535 * 65535 :=
      Nat.mul_le_mul (Nat.le_of_lt_succ H.v2_lt) (Nat.le_of_lt_succ hG.lt)
    have hlead := hG.lead
    have hexp : (v1.toNat * 65536 + v2.toNat) * qhat.toNat =
        v1.toNat * qhat.toNat * 65536 + v2.toNat * qhat.toNat := by ring
    rw [UInt32.lt_iff_toNat_lt, UInt32.toNat_mul, toNat_combine hrhat H.uj2_lt]
    omega
  induction qhat, rhat using qhatLoop.induct v1 v2 uj2 with
  | case1 qhat rhat hfails hbig =>
    have hless := lt_of_guess_fails H.U_lt H.le_V H.V_pos ((htest hG hrhat).mp hfails)
    have hnext := H.next hG hless hrhat
    rw [qhatLoop, dif_pos hfails, if_pos hbig]
    exact ⟨hnext.le, H.guess_le_of_large hnext hbig, hnext.lt⟩
  | case2 qhat rhat hfails hbig ih =>
    have hless := lt_of_guess_fails H.U_lt H.le_V H.V_pos ((htest hG hrhat).mp hfails)
    rw [qhatLoop, dif_pos hfails, if_neg hbig]
    exact ih (H.next hG hless hrhat) (Nat.lt_of_not_le hbig)
  | case3 qhat rhat hpasses =>
    have hv1 := H.v1_pos
    have hlt := hG.lt
    rw [htest hG hrhat, Nat.not_lt] at hpasses
    rw [qhatLoop, dif_neg (by rwa [htest hG hrhat, Nat.not_lt])]
    exact ⟨hG.le, guess_le_succ H.le_U H.V_lt H.le_V H.V_pos (by omega) hpasses, hlt⟩

/-- **D3** guesses a digit that is too large by one at most. -/
theorem Leading.guess_spec : U / V ≤ (guess v1 v2 uj0 uj1 uj2).toNat ∧
    (guess v1 v2 uj0 uj1 uj2).toNat ≤ U / V + 1 ∧
    (guess v1 v2 uj0 uj1 uj2).toNat < 65536 := by
  have hv1 := H.v1_lt
  have hpos := H.v1_pos
  have huj1 := H.uj1_lt
  have hquot := H.quot_lt
  rw [guess]
  split
  · next heq =>
    -- the jump into the loop: 65535 is the largest digit, whatever the test says
    have h1 : (65536 - 1 : UInt32).toNat = 65535 := rfl
    have hr : (uj1 + v1).toNat = uj1.toNat + v1.toNat := by
      rw [UInt32.toNat_add]
      omega
    have hG : Guessed v1 uj0 uj1 (65536 - 1) (uj1 + v1) U V := by
      refine ⟨?_, by omega, by omega⟩
      rw [h1, hr, heq]
      omega
    split
    · next hbig => exact ⟨hG.le, H.guess_le_of_large hG hbig, hG.lt⟩
    · next hbig => exact H.qhatLoop_spec hG (Nat.lt_of_not_le hbig)
  · next hne =>
    have hne' : uj0.toNat ≠ v1.toNat := fun h => hne (UInt32.toNat_inj.mp h)
    have hcomb : (combine uj0 uj1).toNat = uj0.toNat * 65536 + uj1.toNat :=
      toNat_combine H.uj0_lt huj1
    have hq : (combine uj0 uj1 / v1).toNat = (uj0.toNat * 65536 + uj1.toNat) / v1.toNat := by
      rw [UInt32.toNat_div, hcomb]
    have hr : (combine uj0 uj1 % v1).toNat = (uj0.toNat * 65536 + uj1.toNat) % v1.toNat := by
      rw [UInt32.toNat_mod, hcomb]
    have hless : uj0.toNat < v1.toNat := Nat.lt_of_le_of_ne H.uj0_le hne'
    refine H.qhatLoop_spec ⟨?_, ?_, ?_⟩ ?_
    · rw [hq, hr]
      exact Nat.div_add_mod _ _
    · rw [hq, Nat.div_lt_iff_lt_mul hpos]
      omega
    · rw [hq]
      exact div_le_div_lead H.U_two H.V_one hpos (Nat.mul_pos (by decide) H.c_pos)
    · rw [hr]
      exact (Nat.mod_lt _ hpos).trans hv1

end Guess

/-! ### One digit of the quotient -/

section Step

variable {v u : Digits} {pv o i n : ℕ} {qhat t : UInt32}

theorem nums_update_self (u : Digits) (i : ℕ) (d : UInt16) :
    nums (Function.update u i d) i = d.toNat := by
  rw [nums, Function.update_self]

theorem nums_update_of_ne (u : Digits) {i j : ℕ} (h : j ≠ i) (d : UInt16) :
    nums (Function.update u i d) j = nums u j := by
  rw [nums, Function.update_of_ne h, nums]

theorem rowVal_update_head (u : Digits) (o n : ℕ) (d : UInt16) :
    rowVal 65536 (nums (Function.update u o d)) o (n + 1) =
      d.toNat * 65536 ^ n + rowVal 65536 (nums u) (o + 1) n := by
  rw [rowVal_cons, nums_update_self]
  exact congrArg _ (rowVal_congr fun k _ => nums_update_of_ne u (by omega) d)

theorem rowVal_update_before (u : Digits) (o n : ℕ) (d : UInt16) :
    rowVal 65536 (nums (Function.update u o d)) (o + 1) n = rowVal 65536 (nums u) (o + 1) n :=
  rowVal_congr fun k _ => nums_update_of_ne u (by omega) d

/-- **D4**: the multiple is subtracted, and what is borrowed in the end is left in `t`. -/
theorem mulSub_spec (v : Digits) (pv o i : ℕ) (u : Digits) (hq : qhat.toNat < 65536)
    (ht : t.toNat < 65536) :
    (mulSub v pv qhat o i u t).2.toNat < 65536 ∧
      (∀ k, k ≤ o ∨ o + i < k → (mulSub v pv qhat o i u t).1 k = u k) ∧
      rowVal 65536 (nums u) (o + 1) i + (mulSub v pv qhat o i u t).2.toNat * 65536 ^ i =
        rowVal 65536 (nums (mulSub v pv qhat o i u t).1) (o + 1) i +
          rowVal 65536 (nums v) (pv + 1) i * qhat.toNat + t.toNat := by
  induction i generalizing u t with
  | zero => exact ⟨ht, fun _ _ => rfl, by simp [mulSub]⟩
  | succ i ih =>
    rw [mulSub]
    generalize hx : (u (o + 1 + i)).toUInt32 - (v (pv + 1 + i)).toUInt32 * qhat - t = x
    have hb : ((65536 - hhalf x) &&& 65535).toNat = (65536 - x.toNat / 65536) % 65536 := by
      have hlt := x.toNat_lt
      have hle : hhalf x ≤ 65536 := by
        rw [UInt32.le_iff_toNat_le, toNat_hhalf]
        exact Nat.le_of_lt (Nat.div_lt_of_lt_mul hlt)
      rw [UInt32.toNat_and, UInt32.toNat_sub_of_le _ _ hle, toNat_hhalf]
      exact Nat.and_two_pow_sub_one_eq_mod _ 16
    have hblt : ((65536 - hhalf x) &&& 65535).toNat < 65536 := by
      rw [hb]
      exact Nat.mod_lt _ (by decide)
    obtain ⟨hlt, hkeep, hrow⟩ := ih (Function.update u (o + 1 + i) (lhalf x).toUInt16) hblt
    refine ⟨hlt, fun k hk => ?_, ?_⟩
    · rw [hkeep k (by omega), Function.update_of_ne (by omega)]
    · have hsame :
          rowVal 65536 (nums (Function.update u (o + 1 + i) (lhalf x).toUInt16)) (o + 1) i =
            rowVal 65536 (nums u) (o + 1) i :=
        rowVal_congr fun k hk => nums_update_of_ne u (by omega) _
      rw [hsame] at hrow
      refine rowVal_sub_mul_succ hrow ?_
      -- the digit: what is borrowed for it comes back as the high half
      have hdigit : nums (mulSub v pv qhat o i (Function.update u (o + 1 + i) (lhalf x).toUInt16)
          ((65536 - hhalf x) &&& 65535)).1 (o + 1 + i) = x.toNat % 65536 := by
        rw [nums, hkeep _ (by omega), Function.update_self, toNat_lhalf_digit]
      have hu := nums_lt u (o + 1 + i)
      have hmul : nums v (pv + 1 + i) * qhat.toNat ≤ 65535 * 65535 :=
        Nat.mul_le_mul (Nat.le_of_lt_succ (nums_lt v _)) (Nat.le_of_lt_succ hq)
      rw [hdigit, hb, ← hx, UInt32.toNat_sub, UInt32.toNat_sub, UInt32.toNat_mul, toNat_digit,
        toNat_digit]
      generalize nums v (pv + 1 + i) * qhat.toNat = p at hmul ⊢
      omega

/-- **D6**: the divisor is added back, and what is carried in the end is left in `t`. -/
theorem addBack_spec (v : Digits) (pv o i : ℕ) (u : Digits) (ht : t.toNat < 65536) :
    (addBack v pv o i u t).2.toNat < 65536 ∧
      (∀ k, k ≤ o ∨ o + i < k → (addBack v pv o i u t).1 k = u k) ∧
      rowVal 65536 (nums (addBack v pv o i u t).1) (o + 1) i +
          (addBack v pv o i u t).2.toNat * 65536 ^ i =
        rowVal 65536 (nums u) (o + 1) i + rowVal 65536 (nums v) (pv + 1) i + t.toNat := by
  induction i generalizing u t with
  | zero => exact ⟨ht, fun _ _ => rfl, by simp [addBack]⟩
  | succ i ih =>
    rw [addBack]
    generalize hx : t + ((u (o + 1 + i)).toUInt32 + (v (pv + 1 + i)).toUInt32) = x
    have hxlt := x.toNat_lt
    have hhlt : (hhalf x).toNat < 65536 := by
      rw [toNat_hhalf]
      omega
    obtain ⟨hlt, hkeep, hrow⟩ := ih (Function.update u (o + 1 + i) (lhalf x).toUInt16) hhlt
    refine ⟨hlt, fun k hk => ?_, ?_⟩
    · rw [hkeep k (by omega), Function.update_of_ne (by omega)]
    · have hsame :
          rowVal 65536 (nums (Function.update u (o + 1 + i) (lhalf x).toUInt16)) (o + 1) i =
            rowVal 65536 (nums u) (o + 1) i :=
        rowVal_congr fun k hk => nums_update_of_ne u (by omega) _
      rw [hsame] at hrow
      refine rowVal_add_succ hrow ?_
      have hdigit : nums (addBack v pv o i (Function.update u (o + 1 + i) (lhalf x).toUInt16)
          (hhalf x)).1 (o + 1 + i) = x.toNat % 65536 := by
        rw [nums, hkeep _ (by omega), Function.update_self, toNat_lhalf_digit]
      have hu := nums_lt u (o + 1 + i)
      have hv := nums_lt v (pv + 1 + i)
      rw [hdigit, toNat_hhalf, ← hx, UInt32.toNat_add, UInt32.toNat_add, toNat_digit, toNat_digit]
      omega

/-- The leading digits of a divisor of at least two digits, and of what is divided by it. -/
theorem leading (hn : 2 ≤ n) (hv : v (pv + 1) ≠ 0)
    (hlt : rowVal 65536 (nums u) o n < rowVal 65536 (nums v) (pv + 1) n) :
    Leading (v (pv + 1)).toUInt32 (v (pv + 2)).toUInt32 (u o).toUInt32 (u (o + 1)).toUInt32
      (u (o + 2)).toUInt32 (rowVal 65536 (nums u) o (n + 1)) (rowVal 65536 (nums v) (pv + 1) n)
      (65536 ^ (n - 2)) := by
  obtain ⟨k, rfl⟩ : ∃ k, n = 2 + k := ⟨n - 2, by omega⟩
  have hV := rowVal_append 65536 (nums v) (pv + 1) 2 k
  have hU := rowVal_append 65536 (nums u) o 3 k
  have hvrest := rowVal_nums_lt v (pv + 1 + 2) k
  have hurest := rowVal_nums_lt u (o + 3) k
  have hv2 : rowVal 65536 (nums v) (pv + 1) 2 =
      (v (pv + 1)).toUInt32.toNat * 65536 + (v (pv + 2)).toUInt32.toNat := by
    rw [rowVal_succ, rowVal_succ, rowVal_zero, Nat.zero_mul, Nat.zero_add]
    rfl
  have hu3 : rowVal 65536 (nums u) o 3 = ((u o).toUInt32.toNat * 65536 +
      (u (o + 1)).toUInt32.toNat) * 65536 + (u (o + 2)).toUInt32.toNat := by
    rw [rowVal_succ, rowVal_succ, rowVal_succ, rowVal_zero, Nat.zero_mul, Nat.zero_add]
    rfl
  rw [hv2] at hV
  rw [hu3, show 3 + k = 2 + k + 1 by omega] at hU
  have hpos : 0 < (v (pv + 1)).toUInt32.toNat :=
    Nat.pos_of_ne_zero fun h0 => hv (UInt16.toNat_inj.mp h0)
  rw [show 2 + k - 2 = k by omega]
  refine ⟨hpos, nums_lt v _, nums_lt v _, nums_lt u _, nums_lt u _, nums_lt u _,
    Nat.pow_pos (by decide), ?_, ?_, ?_, ?_, ?_⟩
  · rw [hV]
    exact Nat.le_add_right _ _
  · rw [hV, Nat.add_mul _ 1, Nat.one_mul]
    exact Nat.add_lt_add_left hvrest _
  · rw [hU]
    exact Nat.le_add_right _ _
  · rw [hU, Nat.add_mul _ 1, Nat.one_mul]
    exact Nat.add_lt_add_left hurest _
  · have hlast := nums_lt u (o + (2 + k))
    rw [Nat.div_lt_iff_lt_mul (Nat.zero_lt_of_lt hlt), rowVal_succ]
    calc rowVal 65536 (nums u) o (2 + k) * 65536 + nums u (o + (2 + k))
        < (rowVal 65536 (nums u) o (2 + k) + 1) * 65536 := by omega
      _ ≤ rowVal 65536 (nums v) (pv + 1) (2 + k) * 65536 := Nat.mul_le_mul_right _ hlt
      _ = _ := Nat.mul_comm _ _

/-- **One digit of the quotient**, and what is left in its place. -/
theorem divideStep_spec (hn : 2 ≤ n) (hv : v (pv + 1) ≠ 0)
    (hlt : rowVal 65536 (nums u) o n < rowVal 65536 (nums v) (pv + 1) n) :
    (divideStep v pv n u o).2.toNat =
        rowVal 65536 (nums u) o (n + 1) / rowVal 65536 (nums v) (pv + 1) n ∧
      rowVal 65536 (nums (divideStep v pv n u o).1) o (n + 1) =
        rowVal 65536 (nums u) o (n + 1) % rowVal 65536 (nums v) (pv + 1) n ∧
      ∀ k, k < o ∨ o + n < k → (divideStep v pv n u o).1 k = u k := by
  have hVpos := Nat.zero_lt_of_lt hlt
  obtain ⟨hle, hle', hg⟩ := (leading hn hv hlt).guess_spec
  rw [divideStep]
  generalize guess (v (pv + 1)).toUInt32 (v (pv + 2)).toUInt32 (u o).toUInt32
    (u (o + 1)).toUInt32 (u (o + 2)).toUInt32 = qhat at hle hle' hg ⊢
  obtain ⟨htlt, hkeep, hrow⟩ := mulSub_spec v pv o n u hg (t := 0) (by decide)
  generalize mulSub v pv qhat o n u 0 = ms at htlt hkeep hrow
  obtain ⟨u', t⟩ := ms
  have hVlt := rowVal_nums_lt v (pv + 1) n
  have hlow := rowVal_nums_lt u' (o + 1) n
  have hhead := nums_lt u o
  have ho : u' o = u o := hkeep o (Or.inl le_rfl)
  rw [rowVal_cons 65536 (nums u) o n] at hle hle' ⊢
  dsimp only at htlt hrow hlow ⊢
  rw [show (0 : UInt32).toNat = 0 from rfl, Nat.add_zero] at hrow
  by_cases hborrow : t.toNat ≤ nums u o
  · -- the guess was right
    obtain ⟨hquot, hrem⟩ := guess_eq hrow hle hborrow hVpos
    have hx : ((u' o).toUInt32 - t).toNat = nums u o - t.toNat := by
      rw [ho]
      exact UInt32.toNat_sub_of_le _ _ hborrow
    have hzero : hhalf ((u' o).toUInt32 - t) = 0 := by
      rw [← UInt32.toNat_inj, toNat_hhalf, hx]
      exact Nat.div_eq_of_lt (by omega)
    rw [if_pos hzero]
    refine ⟨(toNat_toUInt16_of_lt hg).trans hquot, ?_, fun k hk => ?_⟩
    · rw [rowVal_update_head, toNat_lhalf_digit, hx, Nat.mod_eq_of_lt (by omega)]
      exact hrem
    · exact (Function.update_of_ne (by omega) _ _).trans (hkeep k (by omega))
  · -- it was too large, and the divisor is added back
    obtain ⟨hquot, ht, hrem⟩ :=
      guess_eq_succ hrow hle' (Nat.lt_of_not_le hborrow) hlow hVlt hVpos
    have hx : ((u' o).toUInt32 - t).toNat = 2 ^ 32 - 1 := by
      rw [ho, UInt32.toNat_sub, ht, toNat_digit]
      omega
    have hborrowed : hhalf ((u' o).toUInt32 - t) ≠ 0 := by
      rw [← UInt32.toNat_inj.ne, toNat_hhalf, hx]
      decide
    rw [if_neg hborrowed]
    obtain ⟨-, hkeep', hrow'⟩ := addBack_spec v pv o n
      (Function.update u' o (lhalf ((u' o).toUInt32 - t)).toUInt16) (t := 0) (by decide)
    generalize addBack v pv o n (Function.update u' o (lhalf ((u' o).toUInt32 - t)).toUInt16) 0 = ab
      at hkeep' hrow' ⊢
    obtain ⟨u'', t''⟩ := ab
    have hlow' := rowVal_nums_lt u'' (o + 1) n
    have hmod := Nat.mod_lt (nums u o * 65536 ^ n + rowVal 65536 (nums u) (o + 1) n) hVpos
    dsimp only at hkeep' hrow' ⊢
    rw [rowVal_update_before, show (0 : UInt32).toNat = 0 from rfl, Nat.add_zero, hrem] at hrow'
    obtain ⟨ht'', hlast⟩ := carry_eq_one hrow' hlow' (hmod.trans hVlt)
    have ho' : (u'' o).toUInt32.toNat = 65535 := by
      rw [hkeep' o (Or.inl le_rfl), Function.update_self]
      change (lhalf ((u' o).toUInt32 - t)).toUInt16.toNat = _
      rw [toNat_lhalf_digit, hx]
      rfl
    refine ⟨?_, ?_, fun k hk => ?_⟩
    · have hq : (qhat - 1).toNat = qhat.toNat - 1 :=
        UInt32.toNat_sub_of_le qhat 1
          (by rw [UInt32.le_iff_toNat_le, hquot]; exact Nat.le_add_left _ _)
      rw [toNat_toUInt16_of_lt (by omega), hq, hquot]
      rfl
    · rw [rowVal_update_head, toNat_lhalf_digit, UInt32.toNat_add, ho', ht'', hlast,
        show (65535 + 1) % 2 ^ 32 % 65536 = 0 from rfl, Nat.zero_mul, Nat.zero_add]
    · exact (Function.update_of_ne (by omega) _ _).trans ((hkeep' k (by omega)).trans
        ((Function.update_of_ne (by omega) _ _).trans (hkeep k (by omega))))

end Step

/-! ### The digits of the quotient, one after the other -/

section Loop

variable {v u : Digits} {pv pu pq n j m : ℕ}

/-- After `j` digits of the quotient, from the digits `u` of the dividend. -/
structure Divided (v : Digits) (pv n pu pq : ℕ) (u : Digits) (j : ℕ) (r : Digits × Digits) :
    Prop where
  zeros : ∀ k < j, r.1 (pu + k) = 0
  lt : rowVal 65536 (nums r.1) (pu + j) n < rowVal 65536 (nums v) (pv + 1) n
  eq : rowVal 65536 (nums u) pu (j + n) =
    rowVal 65536 (nums r.2) pq j * rowVal 65536 (nums v) (pv + 1) n +
      rowVal 65536 (nums r.1) (pu + j) n
  rest : ∀ k, k < pu ∨ pu + j + n ≤ k → r.1 k = u k
  quot : ∀ k, k < pq ∨ pq + j ≤ k → r.2 k = 0

theorem Divided.succ {r : Digits × Digits} (hn : 2 ≤ n) (hv : v (pv + 1) ≠ 0)
    (h : Divided v pv n pu pq u j r) :
    Divided v pv n pu pq u (j + 1) ((divideStep v pv n r.1 (pu + j)).1,
      Function.update r.2 (pq + j) (divideStep v pv n r.1 (pu + j)).2) := by
  obtain ⟨hquot, hrem, hkeep⟩ := divideStep_spec hn hv h.lt
  generalize divideStep v pv n r.1 (pu + j) = s at hquot hrem hkeep ⊢
  obtain ⟨u', qhat⟩ := s
  dsimp only at hquot hrem hkeep ⊢
  have hVpos := Nat.zero_lt_of_lt h.lt
  have hlt : rowVal 65536 (nums u') (pu + j) (n + 1) < rowVal 65536 (nums v) (pv + 1) n := by
    rw [hrem]
    exact Nat.mod_lt _ hVpos
  have hzero : nums u' (pu + j) = 0 := head_eq_zero (hlt.trans (rowVal_nums_lt v _ n))
  have hrow : rowVal 65536 (nums u') (pu + (j + 1)) n =
      rowVal 65536 (nums r.1) (pu + j) (n + 1) % rowVal 65536 (nums v) (pv + 1) n := by
    rw [← hrem, rowVal_cons, hzero, Nat.zero_mul, Nat.zero_add, Nat.add_assoc]
  have hq : rowVal 65536 (nums (Function.update r.2 (pq + j) qhat)) pq (j + 1) =
      rowVal 65536 (nums r.2) pq j * 65536 + qhat.toNat := by
    rw [rowVal_succ, nums_update_self]
    refine congrArg (· * 65536 + qhat.toNat) (rowVal_congr fun k hk => ?_)
    exact nums_update_of_ne _ (by omega) _
  refine ⟨fun k hk => ?_, ?_, ?_, fun k hk => ?_, fun k hk => ?_⟩
  · rcases Nat.lt_succ_iff_lt_or_eq.mp hk with hlt' | rfl
    · exact (hkeep (pu + k) (by omega)).trans (h.zeros k hlt')
    · exact UInt16.toNat_inj.mp hzero
  · rw [hrow]
    exact Nat.mod_lt _ hVpos
  · have hlast : nums u (pu + (j + n)) = nums r.1 (pu + j + n) := by
      rw [nums, nums, h.rest _ (by omega), Nat.add_assoc]
    rw [show j + 1 + n = j + n + 1 by omega, rowVal_succ, hq, hrow]
    refine divide_digit h.eq ?_
    rw [hlast, ← rowVal_succ, hquot]
    exact (Nat.div_add_mod' _ _).symm
  · exact (hkeep k (by omega)).trans (h.rest k (by omega))
  · exact (Function.update_of_ne (by omega) _ _).trans (h.quot k (by omega))

/-- **D7**: the digits of the quotient are found one after the other. -/
theorem divided_divideLoop (pq : ℕ) (hn : 2 ≤ n) (hv : v (pv + 1) ≠ 0)
    (hlt : rowVal 65536 (nums u) pu n < rowVal 65536 (nums v) (pv + 1) n) (j : ℕ) :
    Divided v pv n pu pq u j (divideLoop v pv n pu pq u j) := by
  induction j with
  | zero =>
    refine ⟨fun k hk => absurd hk (Nat.not_lt_zero k), hlt, ?_, fun _ _ => rfl, fun _ _ => rfl⟩
    rw [rowVal_zero, Nat.zero_mul, Nat.zero_add, Nat.zero_add]
    rfl
  | succ j ih => exact ih.succ hn hv

end Loop

end Millicode

end Os161
