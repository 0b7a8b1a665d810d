import Os161.Millicode.QdivremStep

/-!
# `__qdivrem` divides

What is done before and after the loop: leading zeros are skipped, divisor and dividend are shifted
left until the divisor is normalized, and the remainder is shifted back. The shifts go through the
arrays digit by digit, and multiply and divide the numbers in them by a power of two.

## Main results

* `Millicode.rowVal_shl`, `rowVal_shrLoop` — the shifts
* `Millicode.longDivide_spec` — a divisor of two digits or more
* `Millicode.qdivrem_eq` — `__qdivrem` divides
-/

namespace Os161

namespace Millicode

/-! ### Shifting the digits -/

section Shift

variable {p u v : Digits} {o i n len d k : ℕ} {sh t : UInt32}

/-- The base is the weight of the bits that stay times that of the bits that move. -/
theorem two_pow_mul_sub (hd : d ≤ 16) : 2 ^ d * 2 ^ (16 - d) = 65536 := by
  rw [← Nat.pow_add, Nat.add_sub_cancel' hd]

theorem toNat_ofNat_sub (hd : d < 16) :
    (UInt32.ofNat d).toNat = d ∧ (16 - UInt32.ofNat d).toNat = 16 - d := by
  have h : (UInt32.ofNat d).toNat = d := UInt32.toNat_ofNat_of_lt' (by change _ < 2 ^ 32; omega)
  refine ⟨h, ?_⟩
  rw [UInt32.toNat_sub_of_le _ _ (by rw [UInt32.le_iff_toNat_le, h]; exact Nat.le_of_lt hd), h]
  rfl

/-- A digit shifted up, with the bits that come in from the next one. -/
def upDigit (d x y : ℕ) : ℕ := x * 2 ^ d % 65536 + y / 2 ^ (16 - d)

theorem toNat_shiftLeft_digit (x : UInt16) (hd : d < 16) :
    (lhalf (x.toUInt32 <<< UInt32.ofNat d)).toNat = x.toNat * 2 ^ d % 65536 := by
  have hx := x.toNat_lt
  have hpow : 2 ^ d ≤ 2 ^ 15 := Nat.pow_le_pow_right (by decide) (by omega)
  have hmul : x.toNat * 2 ^ d ≤ 2 ^ 16 * 2 ^ 15 := Nat.mul_le_mul (Nat.le_of_lt hx) hpow
  rw [toNat_lhalf, UInt32.toNat_shiftLeft, (toNat_ofNat_sub hd).1,
    Nat.mod_eq_of_lt (a := d) (b := 32) (by omega), Nat.shiftLeft_eq, UInt16.toNat_toUInt32,
    Nat.mod_eq_of_lt (b := 2 ^ 32) (by omega)]

theorem mod_eq_mul (x : ℕ) (hd : d ≤ 16) :
    x * 2 ^ d % 65536 = 2 ^ d * (x % 2 ^ (16 - d)) := by
  rw [← two_pow_mul_sub hd, Nat.mul_comm x, Nat.mul_mod_mul_left]

theorem toNat_upDigit (x y : UInt16) (hd : d < 16) :
    (lhalf (x.toUInt32 <<< UInt32.ofNat d) |||
      y.toUInt32 >>> (16 - UInt32.ofNat d)).toUInt16.toNat = upDigit d x.toNat y.toNat := by
  have hy := y.toNat_lt
  have hlow : y.toNat / 2 ^ (16 - d) < 2 ^ d := by
    rw [Nat.div_lt_iff_lt_mul (Nat.two_pow_pos _), two_pow_mul_sub (Nat.le_of_lt hd)]
    exact hy
  have hnat : (lhalf (x.toUInt32 <<< UInt32.ofNat d) |||
      y.toUInt32 >>> (16 - UInt32.ofNat d)).toNat = upDigit d x.toNat y.toNat := by
    rw [UInt32.toNat_or, toNat_shiftLeft_digit x hd, UInt32.toNat_shiftRight,
      (toNat_ofNat_sub hd).2, Nat.mod_eq_of_lt (a := 16 - d) (b := 32) (by omega),
      Nat.shiftRight_eq_div_pow,
      UInt16.toNat_toUInt32, upDigit, mod_eq_mul _ (Nat.le_of_lt hd),
      ← Nat.two_pow_add_eq_or_of_lt hlow]
  refine (toNat_toUInt16_of_lt ?_).trans hnat
  rw [hnat, upDigit, mod_eq_mul _ (Nat.le_of_lt hd)]
  have hmod : x.toNat % 2 ^ (16 - d) + 1 ≤ 2 ^ (16 - d) := Nat.mod_lt _ (Nat.two_pow_pos _)
  calc 2 ^ d * (x.toNat % 2 ^ (16 - d)) + y.toNat / 2 ^ (16 - d)
      < 2 ^ d * (x.toNat % 2 ^ (16 - d)) + 2 ^ d := Nat.add_lt_add_left hlow _
    _ = 2 ^ d * (x.toNat % 2 ^ (16 - d) + 1) := (Nat.mul_succ _ _).symm
    _ ≤ 2 ^ d * 2 ^ (16 - d) := Nat.mul_le_mul_left _ hmod
    _ = 65536 := two_pow_mul_sub (Nat.le_of_lt hd)

theorem shlLoop_spec (p : Digits) (o : ℕ) (hd : d < 16) (i : ℕ) :
    (∀ k < i, nums (shlLoop p o (UInt32.ofNat d) i) (o + k) =
      upDigit d (nums p (o + k)) (nums p (o + (k + 1)))) ∧
    ∀ k, k < o ∨ o + i ≤ k → shlLoop p o (UInt32.ofNat d) i k = p k := by
  induction i with
  | zero => exact ⟨fun k hk => absurd hk (Nat.not_lt_zero k), fun _ _ => rfl⟩
  | succ i ih =>
    obtain ⟨hdone, hkeep⟩ := ih
    rw [shlLoop]
    refine ⟨fun k hk => ?_, fun k hk => ?_⟩
    · rcases Nat.lt_succ_iff_lt_or_eq.mp hk with hlt | rfl
      · rw [nums_update_of_ne _ (by omega)]
        exact hdone k hlt
      · rw [nums_update_self, toNat_upDigit _ _ hd, hkeep _ (by omega), hkeep _ (by omega)]
        rfl
    · rw [Function.update_of_ne (by omega)]
      exact hkeep k (by omega)

/-- The row is multiplied by a power of two, if nothing falls out. -/
theorem rowVal_shl (p : Digits) (o len : ℕ) (hd : d < 16)
    (hfit : nums p o / 2 ^ (16 - d) = 0) :
    rowVal 65536 (nums (shl p o len (UInt32.ofNat d))) o (len + 1) =
        rowVal 65536 (nums p) o (len + 1) * 2 ^ d ∧
      ∀ k, k < o ∨ o + len < k → shl p o len (UInt32.ofNat d) k = p k := by
  obtain ⟨hdone, hkeep⟩ := shlLoop_spec p o hd len
  rw [shl]
  refine ⟨?_, fun k hk => ?_⟩
  · have hdigit (x y : ℕ) : upDigit d x y + x / 2 ^ (16 - d) * 65536 =
        x * 2 ^ d + y / 2 ^ (16 - d) := by
      have hdiv : x * 2 ^ d / 65536 = x / 2 ^ (16 - d) := by
        rw [← two_pow_mul_sub (Nat.le_of_lt hd), Nat.mul_comm x,
          Nat.mul_div_mul_left _ _ (Nat.two_pow_pos d)]
      have hdm := Nat.div_add_mod' (x * 2 ^ d) 65536
      rw [hdiv] at hdm
      rw [upDigit]
      omega
    -- what comes into a digit is what the next one gives up; the last one takes in nothing
    have hcarry := rowVal_carry (b := 65536) (i := o) (j := o) (n := len + 1)
      (x := nums (Function.update (shlLoop p o (UInt32.ofNat d) len) (o + len)
        (lhalf ((shlLoop p o (UInt32.ofNat d) len (o + len)).toUInt32 <<<
          UInt32.ofNat d)).toUInt16))
      (y := fun k => nums p k * 2 ^ d)
      (f := fun k => if k ≤ len then nums p (o + k) / 2 ^ (16 - d) else 0) fun k hk => by
        rw [if_pos (Nat.le_of_lt_succ hk)]
        rcases Nat.lt_succ_iff_lt_or_eq.mp hk with hlt | rfl
        · rw [nums_update_of_ne _ (by omega), hdone k hlt, if_pos (Nat.succ_le_of_lt hlt)]
          exact hdigit _ _
        · rw [nums_update_self, if_neg (by omega), hkeep _ (by omega),
            toNat_toUInt16_of_lt (lhalf_lt _), toNat_shiftLeft_digit _ hd]
          have := hdigit (nums p (o + k)) 0
          rw [upDigit, Nat.zero_div] at this
          exact this
    rw [if_pos (Nat.zero_le _), if_neg (by omega),
      show nums p (o + 0) / 2 ^ (16 - d) = 0 from hfit, Nat.zero_mul, Nat.add_zero, Nat.add_zero,
      rowVal_mul] at hcarry
    exact hcarry
  · rw [Function.update_of_ne (by omega)]
    exact hkeep k (by omega)

/-- A digit shifted down, with the bits that come in from the one before. -/
def downDigit (d x y : ℕ) : ℕ := x / 2 ^ d + y % 2 ^ d * 2 ^ (16 - d)

theorem toNat_downDigit (x y : UInt16) (hd0 : 0 < d) (hd : d < 16) :
    (x.toUInt32 >>> UInt32.ofNat d |||
      lhalf (y.toUInt32 <<< (16 - UInt32.ofNat d))).toUInt16.toNat =
        downDigit d x.toNat y.toNat := by
  have hx := x.toNat_lt
  have hhigh : x.toNat / 2 ^ d < 2 ^ (16 - d) := by
    rw [Nat.div_lt_iff_lt_mul (Nat.two_pow_pos _), Nat.mul_comm,
      two_pow_mul_sub (Nat.le_of_lt hd)]
    exact hx
  have hshift : (16 - UInt32.ofNat d) = UInt32.ofNat (16 - d) := by
    rw [← UInt32.toNat_inj, (toNat_ofNat_sub hd).2, (toNat_ofNat_sub (d := 16 - d) (by omega)).1]
  have hmod := mod_eq_mul (d := 16 - d) y.toNat (by omega)
  rw [show 16 - (16 - d) = d by omega] at hmod
  have hnat : (x.toUInt32 >>> UInt32.ofNat d |||
      lhalf (y.toUInt32 <<< (16 - UInt32.ofNat d))).toNat = downDigit d x.toNat y.toNat := by
    rw [UInt32.toNat_or, hshift, toNat_shiftLeft_digit y (by omega), UInt32.toNat_shiftRight,
      (toNat_ofNat_sub hd).1, Nat.mod_eq_of_lt (a := d) (b := 32) (by omega),
      Nat.shiftRight_eq_div_pow, UInt16.toNat_toUInt32, hmod, Nat.lor_comm,
      ← Nat.two_pow_add_eq_or_of_lt hhigh, downDigit, Nat.mul_comm, Nat.add_comm]
  refine (toNat_toUInt16_of_lt ?_).trans hnat
  rw [hnat, downDigit]
  have hlt : y.toNat % 2 ^ d + 1 ≤ 2 ^ d := Nat.mod_lt _ (Nat.two_pow_pos _)
  calc x.toNat / 2 ^ d + y.toNat % 2 ^ d * 2 ^ (16 - d)
      < 2 ^ (16 - d) + y.toNat % 2 ^ d * 2 ^ (16 - d) := Nat.add_lt_add_right hhigh _
    _ = (y.toNat % 2 ^ d + 1) * 2 ^ (16 - d) := by ring
    _ ≤ 2 ^ d * 2 ^ (16 - d) := Nat.mul_le_mul_right _ hlt
    _ = 65536 := two_pow_mul_sub (Nat.le_of_lt hd)

theorem shrLoop_spec (o : ℕ) (hd0 : 0 < d) (hd : d < 16) (i : ℕ) (u : Digits) :
    (∀ k < i, nums (shrLoop o (UInt32.ofNat d) i u) (o + 1 + k) =
      downDigit d (nums u (o + 1 + k)) (nums u (o + k))) ∧
    ∀ k, k ≤ o ∨ o + i < k → shrLoop o (UInt32.ofNat d) i u k = u k := by
  induction i generalizing u with
  | zero => exact ⟨fun k hk => absurd hk (Nat.not_lt_zero k), fun _ _ => rfl⟩
  | succ i ih =>
    rw [shrLoop]
    generalize hw : ((u (o + i + 1)).toUInt32 >>> UInt32.ofNat d |||
      lhalf ((u (o + i)).toUInt32 <<< (16 - UInt32.ofNat d))).toUInt16 = w
    obtain ⟨hdone, hkeep⟩ := ih (Function.update u (o + i + 1) w)
    refine ⟨fun k hk => ?_, fun k hk => ?_⟩
    · rcases Nat.lt_succ_iff_lt_or_eq.mp hk with hlt | rfl
      · rw [hdone k hlt, nums_update_of_ne _ (by omega), nums_update_of_ne _ (by omega)]
      · rw [nums, hkeep _ (by omega), show o + 1 + k = o + k + 1 by omega, Function.update_self,
          ← hw, toNat_downDigit _ _ hd0 hd]
        rfl
    · rw [hkeep k (by omega), Function.update_of_ne (by omega)]

/-- The row is divided by a power of two. -/
theorem rowVal_shrLoop (o : ℕ) (hd0 : 0 < d) (hd : d < 16) (u : Digits) (ho : u o = 0) (n : ℕ) :
    rowVal 65536 (nums (shrLoop o (UInt32.ofNat d) n u)) (o + 1) n =
      rowVal 65536 (nums u) (o + 1) n / 2 ^ d := by
  obtain ⟨hdone, -⟩ := shrLoop_spec o hd0 hd n u
  have hdigit (x y : ℕ) : x + y % 2 ^ d * 65536 = downDigit d x y * 2 ^ d + x % 2 ^ d := by
    have hdm := Nat.div_add_mod' x (2 ^ d)
    rw [downDigit, Nat.add_mul, Nat.mul_assoc, Nat.mul_comm (2 ^ (16 - d)),
      two_pow_mul_sub (Nat.le_of_lt hd)]
    omega
  have hcarry := rowVal_carry (b := 65536) (i := o + 1) (j := o + 1) (n := n) (x := nums u)
    (y := fun k => nums (shrLoop o (UInt32.ofNat d) n u) k * 2 ^ d)
    (f := fun k => nums u (o + k) % 2 ^ d) fun k hk => by
      rw [hdone k hk, hdigit, show o + (k + 1) = o + 1 + k by omega]
  rw [show nums u (o + 0) = 0 from congrArg UInt16.toNat ho, Nat.zero_mod, Nat.zero_mul,
    Nat.add_zero, rowVal_mul] at hcarry
  exact (div_mod_of_eq hcarry (Nat.mod_lt _ (Nat.two_pow_pos d))).1.symm

end Shift

/-! ### The function divides -/

section Divide

variable {u v : Digits} {n m pu pv d k : ℕ} {t : UInt32} {ull vll : UInt64}

theorem countShifts_spec (ht0 : 0 < t.toNat) (ht : t.toNat < 65536) (k : ℕ) :
    t.toNat * 2 ^ countShifts k t < 65536 := by
  induction k generalizing t with
  | zero => rwa [countShifts, Nat.pow_zero, Nat.mul_one]
  | succ k ih =>
    rw [countShifts]
    split
    · next hlow =>
      have hlow' : t.toNat < 32768 := hlow
      have hdouble : (t <<< 1).toNat = t.toNat * 2 := by
        rw [UInt32.toNat_shiftLeft, Nat.shiftLeft_eq]
        exact Nat.mod_eq_of_lt (by change t.toNat * 2 < 2 ^ 32; omega)
      have := ih (t := t <<< 1) (by omega) (by omega)
      rw [hdouble, Nat.mul_assoc] at this
      rwa [Nat.pow_succ, Nat.mul_comm (2 ^ _) 2]
    · rwa [Nat.pow_zero, Nat.mul_one]

/-- The first digit of the divisor that is not zero has at least one behind it. -/
theorem skipV_some (h : skipV v n pv = some (m, k)) (hn : 2 ≤ n) :
    2 ≤ m ∧ m + k = n + pv ∧ v (k + 1) ≠ 0 ∧ ∀ i, pv < i → i ≤ k → v i = 0 := by
  induction n generalizing pv with
  | zero => cases h
  | succ n ih =>
    rw [skipV] at h
    split at h
    · next hzero =>
      split at h
      · cases h
      · obtain ⟨hm, hsum, hne, hzeros⟩ := ih h (by omega)
        refine ⟨hm, by omega, hne, fun i hi hik => ?_⟩
        rcases Nat.lt_or_eq_of_le (Nat.succ_le_of_lt hi) with hlt | heq
        · exact hzeros i hlt hik
        · rwa [← heq]
    · next hne =>
      cases h
      exact ⟨hn, rfl, hne, fun i hi hik => absurd hik (Nat.not_le_of_lt hi)⟩

/-- The divisor has one digit. -/
theorem skipV_none (h : skipV v n pv = none) (hn : 2 ≤ n) :
    ∀ i, pv < i → i < pv + n → v i = 0 := by
  induction n generalizing pv with
  | zero => omega
  | succ n ih =>
    rw [skipV] at h
    split at h
    · next hzero =>
      intro i hi hin
      rcases Nat.lt_or_eq_of_le (Nat.succ_le_of_lt hi) with hlt | heq
      · split at h
        · omega
        · exact ih h (by omega) i hlt (by omega)
      · rwa [← heq]
    · cases h

theorem skipU_spec (u : Digits) (m pu : ℕ) :
    (skipU u m pu).1 + (skipU u m pu).2 = m + pu ∧
      ∀ i, pu < i → i ≤ (skipU u m pu).2 → u i = 0 := by
  induction m generalizing pu with
  | zero => exact ⟨rfl, fun i hi hik => absurd hik (Nat.not_le_of_lt hi)⟩
  | succ m ih =>
    rw [skipU]
    split
    · next hzero =>
      obtain ⟨hsum, hzeros⟩ := ih (pu + 1)
      refine ⟨by omega, fun i hi hik => ?_⟩
      rcases Nat.lt_or_eq_of_le (Nat.succ_le_of_lt hi) with hlt | heq
      · exact hzeros i hlt hik
      · rwa [← heq]
    · exact ⟨rfl, fun i hi hik => absurd hik (Nat.not_le_of_lt hi)⟩

/-- The number again, without leading zeros and with one zero in front. -/
theorem rowVal_digitsOf_skip (x : UInt64) (hk : pu + k = 4)
    (hzeros : ∀ i, 0 < i → i ≤ pu → digitsOf x i = 0) :
    digitsOf x pu = 0 ∧ rowVal 65536 (nums (digitsOf x)) (pu + 1) k = x.toNat ∧
      rowVal 65536 (nums (digitsOf x)) pu (k + 1) = x.toNat := by
  have hpu : digitsOf x pu = 0 := by
    rcases Nat.eq_zero_or_pos pu with rfl | hpos
    · rfl
    · exact hzeros pu hpos le_rfl
  have hrow : rowVal 65536 (nums (digitsOf x)) (pu + 1) k = x.toNat := by
    have hskip := rowVal_skip (b := 65536) (a := nums (digitsOf x)) (i := 1) (m := pu) (n := k)
      fun i hi => congrArg UInt16.toNat (hzeros (1 + i) (by omega) (by omega))
    rw [hk, rowVal_digitsOf, Nat.add_comm] at hskip
    exact hskip.symm
  refine ⟨hpu, hrow, ?_⟩
  rw [rowVal_cons, hrow, nums, hpu]
  exact (congrArg (· + x.toNat) (Nat.zero_mul _)).trans (Nat.zero_add _)

/-- The shift of D1, or none. -/
theorem rowVal_shl_or (p : Digits) (o len : ℕ) (hd : d < 16)
    (hfit : nums p o / 2 ^ (16 - d) = 0) :
    rowVal 65536 (nums (if 0 < d then shl p o len (UInt32.ofNat d) else p)) o (len + 1) =
        rowVal 65536 (nums p) o (len + 1) * 2 ^ d ∧
      ∀ k, k < o ∨ o + len < k →
        (if 0 < d then shl p o len (UInt32.ofNat d) else p) k = p k := by
  split
  · exact rowVal_shl p o len hd hfit
  · next hzero =>
    obtain rfl : d = 0 := by omega
    exact ⟨by rw [Nat.pow_zero, Nat.mul_one], fun _ _ => rfl⟩

/-- Only so many shifts that nothing falls out. -/
theorem shift_fits {x : ℕ} (hx : 0 < x) (h : x * 2 ^ d < 65536) :
    d < 16 ∧ x / 2 ^ (16 - d) = 0 := by
  have hd : d < 16 := by
    by_contra hge
    have hpow : 2 ^ 16 ≤ 2 ^ d := Nat.pow_le_pow_right (by decide) (Nat.le_of_not_lt hge)
    have := Nat.le_mul_of_pos_left (2 ^ d) hx
    omega
  refine ⟨hd, Nat.div_eq_of_lt (Nat.lt_of_mul_lt_mul_right (a := 2 ^ d) ?_)⟩
  rwa [Nat.mul_comm (2 ^ (16 - d)), two_pow_mul_sub (Nat.le_of_lt hd)]

/-- The quotient is in the last digits. -/
theorem toNat_wordOf_quot {q : Digits} (hm : m ≤ 3) (hzeros : ∀ k < 4 - m, q k = 0) :
    (wordOf q).toNat = rowVal 65536 (nums q) (4 - m) (m + 1) := by
  have hskip := rowVal_skip (b := 65536) (a := nums q) (i := 1) (m := 3 - m) (n := m + 1)
    fun k hk => congrArg UInt16.toNat (hzeros (1 + k) (by omega))
  rw [show 3 - m + (m + 1) = 4 by omega, show 1 + (3 - m) = 4 - m by omega] at hskip
  rw [toNat_wordOf, hskip]

/-- The remainder is what is left in the last digits, shifted back. -/
theorem toNat_wordOf_rem {o : ℕ} (hd : d < 16) (ho : o + n = 4) (hzeros : ∀ k ≤ o, u k = 0) :
    (wordOf (if d = 0 then u
      else Function.update (shrLoop o (UInt32.ofNat d) n u) o 0)).toNat =
      rowVal 65536 (nums u) (o + 1) n / 2 ^ d := by
  have hskip {p : Digits} (hp : ∀ k, 0 < k → k ≤ o → p k = 0) :
      (wordOf p).toNat = rowVal 65536 (nums p) (o + 1) n := by
    have hrow := rowVal_skip (b := 65536) (a := nums p) (i := 1) (m := o) (n := n)
      fun k hk => congrArg UInt16.toNat (hp (1 + k) (by omega) (by omega))
    rw [ho, Nat.add_comm 1] at hrow
    rw [toNat_wordOf, hrow]
  split
  · next hzero =>
    rw [hskip fun k _ hk => hzeros k hk, hzero, Nat.pow_zero, Nat.div_one]
  · next hne =>
    have hpos : 0 < d := Nat.pos_of_ne_zero hne
    rw [hskip, rowVal_update_before, rowVal_shrLoop o hpos hd u (hzeros o le_rfl)]
    intro k _ hk
    rcases Nat.lt_or_eq_of_le hk with hlt | rfl
    · rw [Function.update_of_ne (by omega), (shrLoop_spec o hpos hd n u).2 k (Or.inl hk)]
      exact hzeros k hk
    · rw [Function.update_self]

/-- **Program D** divides by a number of at least two digits. -/
theorem longDivide_spec (hvll : 2 ≤ n) (hsum : n + pv = 4) (hlead : digitsOf vll (pv + 1) ≠ 0)
    (hzeros : ∀ i, 0 < i → i ≤ pv → digitsOf vll i = 0) :
    longDivide (digitsOf ull) (digitsOf vll) n pv = (ull / vll, ull % vll) := by
  obtain ⟨hpu, huzeros⟩ := skipU_spec (digitsOf ull) (4 - n) 0
  rw [longDivide]
  generalize skipU (digitsOf ull) (4 - n) 0 = s at hpu huzeros
  obtain ⟨m, pu⟩ := s
  dsimp only at hpu huzeros ⊢
  obtain ⟨hu0, hUrow, hU⟩ := rowVal_digitsOf_skip ull (k := m + n) (by omega) huzeros
  obtain ⟨-, hV, -⟩ := rowVal_digitsOf_skip vll (k := n) (by omega) hzeros
  have hv1 : 0 < nums (digitsOf vll) (pv + 1) :=
    Nat.pos_of_ne_zero fun h0 => hlead (UInt16.toNat_inj.mp h0)
  have hshift := countShifts_spec (t := (digitsOf vll (pv + 1)).toUInt32) hv1 (nums_lt _ _) 16
  generalize countShifts 16 (digitsOf vll (pv + 1)).toUInt32 = d at hshift ⊢
  obtain ⟨hd, hfit⟩ := shift_fits hv1 hshift
  -- D1: both rows are multiplied by the same power of two
  obtain ⟨hU1, hkeepU⟩ := rowVal_shl_or (digitsOf ull) pu (m + n) hd
    (by rw [nums, hu0]; exact Nat.zero_div _)
  obtain ⟨hV1, -⟩ := rowVal_shl_or (digitsOf vll) (pv + 1) (n - 1) hd hfit
  rw [show n - 1 + 1 = n by omega, hV] at hV1
  rw [hU] at hU1
  generalize (if 0 < d then shl (digitsOf ull) pu (m + n) (UInt32.ofNat d) else digitsOf ull) = u
    at hU1 hkeepU ⊢
  generalize (if 0 < d then shl (digitsOf vll) (pv + 1) (n - 1) (UInt32.ofNat d)
    else digitsOf vll) = v at hV1 ⊢
  have hpow : 0 < 2 ^ d := Nat.two_pow_pos d
  have hvll' : 65536 ^ (n - 1) ≤ vll.toNat := by
    have hle := pow_le_of_head (b := 65536) (n := n - 1) (Nat.ne_of_gt hv1)
    rwa [show n - 1 + 1 = n by omega, hV] at hle
  have hVpow : 65536 ^ (n - 1) ≤ rowVal 65536 (nums v) (pv + 1) n := by
    rw [hV1]
    exact hvll'.trans (Nat.le_mul_of_pos_right _ hpow)
  have hv : v (pv + 1) ≠ 0 := by
    intro h0
    have hrow := rowVal_cons 65536 (nums v) (pv + 1) (n - 1)
    rw [show n - 1 + 1 = n by omega, nums, h0] at hrow
    have hlt := rowVal_nums_lt v (pv + 1 + 1) (n - 1)
    rw [show (0 : UInt16).toNat = 0 from rfl, Nat.zero_mul, Nat.zero_add] at hrow
    exact absurd hVpow (Nat.not_le_of_lt (hrow ▸ hlt))
  have hlt : rowVal 65536 (nums u) pu n < rowVal 65536 (nums v) (pv + 1) n := by
    have hull : ull.toNat < 65536 ^ (m + n) := by
      rw [← hUrow]
      exact rowVal_nums_lt _ _ _
    have happ := rowVal_append 65536 (nums u) pu n (m + 1)
    rw [show n + (m + 1) = m + n + 1 by omega, hU1] at happ
    rw [hV1]
    refine Nat.lt_of_mul_lt_mul_right (a := 65536 ^ (m + 1)) ?_
    calc rowVal 65536 (nums u) pu n * 65536 ^ (m + 1) ≤ ull.toNat * 2 ^ d := by
          rw [happ]
          exact Nat.le_add_right _ _
      _ < 65536 ^ (m + n) * 2 ^ d := Nat.mul_lt_mul_of_pos_right hull hpow
      _ = 65536 ^ (n - 1) * 65536 ^ (m + 1) * 2 ^ d := by
          rw [← Nat.pow_add, show n - 1 + (m + 1) = m + n by omega]
      _ ≤ vll.toNat * 65536 ^ (m + 1) * 2 ^ d :=
          Nat.mul_le_mul_right _ (Nat.mul_le_mul_right _ hvll')
      _ = vll.toNat * 2 ^ d * 65536 ^ (m + 1) := Nat.mul_right_comm _ _ _
  have D := divided_divideLoop (4 - m) hvll hv hlt (m + 1)
  generalize divideLoop v pv n pu (4 - m) u (m + 1) = r at D ⊢
  have hrem := D.lt
  have heq := D.eq
  rw [show m + 1 + n = m + n + 1 by omega, hU1] at heq
  rw [hV1] at heq hrem
  obtain ⟨hdiv, hmod⟩ := div_mod_of_eq heq hrem
  rw [Nat.mul_div_mul_right _ _ hpow] at hdiv
  rw [Nat.mul_mod_mul_right] at hmod
  have hlead0 : ∀ k ≤ pu + m, r.1 k = 0 := by
    intro k hk
    rcases Nat.lt_or_ge k pu with hless | hge
    · rw [D.rest k (Or.inl hless), hkeepU k (Or.inl hless)]
      rcases Nat.eq_zero_or_pos k with rfl | hpos
      · rfl
      · exact huzeros k hpos (Nat.le_of_lt hless)
    · obtain ⟨i, rfl⟩ := Nat.exists_eq_add_of_le hge
      exact D.zeros i (by omega)
  rw [Prod.ext_iff, ← UInt64.toNat_inj, ← UInt64.toNat_inj, UInt64.toNat_div, UInt64.toNat_mod]
  dsimp only
  rw [toNat_wordOf_quot (by omega) fun k hk => D.quot k (Or.inl hk),
    toNat_wordOf_rem hd (by omega) hlead0, hdiv, Nat.add_assoc, ← hmod,
    Nat.mul_div_cancel _ hpow]
  exact ⟨rfl, rfl⟩

/-- **`__qdivrem`** gives the quotient and the remainder of any two numbers, the second not zero. -/
theorem qdivrem_eq (ull vll : UInt64) (hv : vll ≠ 0) :
    qdivrem ull vll = some (ull / vll, ull % vll) := by
  have hpos : 0 < vll.toNat := Nat.pos_of_ne_zero fun h => hv (UInt64.toNat_inj.mp h)
  rw [qdivrem, if_neg hv]
  split
  · next hless =>
    have hlt : ull.toNat < vll.toNat := hless
    rw [Option.some.injEq, Prod.mk.injEq]
    constructor <;> rw [← UInt64.toNat_inj]
    · rw [UInt64.toNat_div, Nat.div_eq_of_lt hlt]
      rfl
    · rw [UInt64.toNat_mod, Nat.mod_eq_of_lt hlt]
  · dsimp only
    cases hskip : skipV (digitsOf vll) 4 0 with
    | none =>
      have hzeros := skipV_none hskip (by decide)
      obtain ⟨-, hrow, -⟩ := @rowVal_digitsOf_skip 3 1 vll rfl fun i hi hi3 =>
        hzeros i hi (by omega)
      have ht : (digitsOf vll 4).toUInt32.toNat = vll.toNat := by
        rw [← hrow, rowVal_succ, rowVal_zero, Nat.zero_mul, Nat.zero_add]
        rfl
      obtain ⟨hq, hr⟩ := shortDivide_spec (digitsOf ull) (t := (digitsOf vll 4).toUInt32)
        (by rwa [ht]) (nums_lt (digitsOf vll) 4)
      rw [ht, rowVal_digitsOf] at hq hr
      dsimp only
      rw [Option.some.injEq, Prod.ext_iff, ← UInt64.toNat_inj, ← UInt64.toNat_inj, hq, hr,
        UInt64.toNat_div, UInt64.toNat_mod]
      exact ⟨rfl, rfl⟩
    | some r =>
      obtain ⟨n, pv⟩ := r
      obtain ⟨hn, hsum, hlead, hzeros⟩ := skipV_some hskip (by decide)
      dsimp only
      rw [longDivide_spec hn hsum hlead fun i hi hik => hzeros i hi hik]

end Divide

end Millicode

end Os161
