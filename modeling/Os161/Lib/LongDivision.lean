import Mathlib.Tactic.Ring

/-!
# Long division

Rows of digits in a base `b`, the most significant digit first, and the division of one row by
another as it is done by hand: the digits of the quotient are found one after the other, each by a
guess from the leading digits, and a guess that is too large by one is made good by adding the
divisor back.

The guess is tested against the two leading digits of the divisor and the three leading digits of
what is divided. `W` and `T` stand for these in what follows, and `c` for the weight of the last of
them.

## Main definitions

* `rowVal` — the number a row of digits stands for

## Main results

* `rowVal_carry`, `rowVal_sub_mul_succ`, `rowVal_add_succ` — digit by digit, with what is carried
  or borrowed
* `div_le_div_lead`, `lt_of_guess_fails`, `guess_le_succ` — how far a guess can be off
* `guess_eq`, `guess_eq_succ` — what the borrow says about the guess
* `divide_digit` — one digit more of the quotient
-/

namespace Os161

/-- The number of the `n` digits of `a` from place `i` on, in base `b`. -/
def rowVal (b : ℕ) (a : ℕ → ℕ) (i : ℕ) : ℕ → ℕ
  | 0 => 0
  | n + 1 => rowVal b a i n * b + a (i + n)

section Row

variable {b i j k m n : ℕ} {a a' : ℕ → ℕ}

@[simp]
theorem rowVal_zero (b : ℕ) (a : ℕ → ℕ) (i : ℕ) : rowVal b a i 0 = 0 := rfl

theorem rowVal_succ (b : ℕ) (a : ℕ → ℕ) (i n : ℕ) :
    rowVal b a i (n + 1) = rowVal b a i n * b + a (i + n) := rfl

theorem rowVal_congr (h : ∀ k < n, a (i + k) = a' (j + k)) : rowVal b a i n = rowVal b a' j n := by
  induction n with
  | zero => rfl
  | succ n ih =>
    rw [rowVal_succ, rowVal_succ, ih fun k hk => h k (Nat.lt_succ_of_lt hk),
      h n (Nat.lt_succ_self n)]

theorem rowVal_append (b : ℕ) (a : ℕ → ℕ) (i m n : ℕ) :
    rowVal b a i (m + n) = rowVal b a i m * b ^ n + rowVal b a (i + m) n := by
  induction n with
  | zero => simp
  | succ n ih =>
    rw [← Nat.add_assoc, rowVal_succ, ih, rowVal_succ, Nat.pow_succ, Nat.add_assoc i]
    ring

theorem rowVal_cons (b : ℕ) (a : ℕ → ℕ) (i n : ℕ) :
    rowVal b a i (n + 1) = a i * b ^ n + rowVal b a (i + 1) n := by
  rw [Nat.add_comm n 1, rowVal_append, rowVal_succ, rowVal_zero, Nat.zero_mul, Nat.zero_add,
    Nat.add_zero]

theorem rowVal_lt (h : ∀ k < n, a (i + k) < b) : rowVal b a i n < b ^ n := by
  induction n with
  | zero => exact Nat.one_pos
  | succ n ih =>
    have hlt := ih fun k hk => h k (Nat.lt_succ_of_lt hk)
    have hdigit := h n (Nat.lt_succ_self n)
    rw [rowVal_succ, Nat.pow_succ]
    calc rowVal b a i n * b + a (i + n) < rowVal b a i n * b + b := Nat.add_lt_add_left hdigit _
      _ = (rowVal b a i n + 1) * b := (Nat.succ_mul _ _).symm
      _ ≤ b ^ n * b := Nat.mul_le_mul_right b hlt

theorem rowVal_eq_zero (h : ∀ k < n, a (i + k) = 0) : rowVal b a i n = 0 := by
  induction n with
  | zero => rfl
  | succ n ih =>
    rw [rowVal_succ, ih fun k hk => h k (Nat.lt_succ_of_lt hk), h n (Nat.lt_succ_self n),
      Nat.zero_mul]

/-- Zeros in front do not count. -/
theorem rowVal_skip (h : ∀ k < m, a (i + k) = 0) :
    rowVal b a i (m + n) = rowVal b a (i + m) n := by
  rw [rowVal_append, rowVal_eq_zero h, Nat.zero_mul, Nat.zero_add]

/-- A small number has a leading zero. -/
theorem head_eq_zero (h : rowVal b a i (n + 1) < b ^ n) : a i = 0 := by
  by_contra hne
  rw [rowVal_cons] at h
  have := Nat.le_mul_of_pos_left (b ^ n) (Nat.pos_of_ne_zero hne)
  omega

theorem pow_le_of_head (h : a i ≠ 0) : b ^ n ≤ rowVal b a i (n + 1) := by
  rw [rowVal_cons]
  exact (Nat.le_mul_of_pos_left _ (Nat.pos_of_ne_zero h)).trans (Nat.le_add_right _ _)

end Row

/-! ### Digit by digit -/

section Digits

variable {b c i j n q s t t' : ℕ} {x y a a' v f : ℕ → ℕ}

theorem rowVal_mul (b : ℕ) (a : ℕ → ℕ) (i n c : ℕ) :
    rowVal b (fun k => a k * c) i n = rowVal b a i n * c := by
  induction n with
  | zero => simp
  | succ n ih =>
    rw [rowVal_succ, rowVal_succ, ih]
    ring

/-- Two rows that are made of each other with `f` carried from every place to the one before. -/
theorem rowVal_carry (h : ∀ k < n, x (i + k) + f k * b = y (j + k) + f (k + 1)) :
    rowVal b x i n + f 0 * b ^ n = rowVal b y j n + f n := by
  induction n with
  | zero => simp
  | succ n ih =>
    have hrow := ih fun k hk => h k (Nat.lt_succ_of_lt hk)
    have hlast := h n (Nat.lt_succ_self n)
    rw [rowVal_succ, rowVal_succ, Nat.pow_succ]
    calc rowVal b x i n * b + x (i + n) + f 0 * (b ^ n * b)
        = (rowVal b x i n + f 0 * b ^ n) * b + x (i + n) := by ring
      _ = rowVal b y j n * b + (x (i + n) + f n * b) := by
        rw [hrow]
        ring
      _ = _ := by
        rw [hlast]
        ring

/-- A multiple is subtracted from a row, from the last digit on, with `t` to be borrowed from the
digits that are left. -/
theorem rowVal_sub_mul_succ
    (hrow : rowVal b a i n + t' * b ^ n = rowVal b a' i n + rowVal b v j n * q + t)
    (hdigit : a (i + n) + t * b = a' (i + n) + v (j + n) * q + s) :
    rowVal b a i (n + 1) + t' * b ^ (n + 1) =
      rowVal b a' i (n + 1) + rowVal b v j (n + 1) * q + s := by
  rw [rowVal_succ, rowVal_succ, rowVal_succ, Nat.pow_succ]
  calc rowVal b a i n * b + a (i + n) + t' * (b ^ n * b)
      = (rowVal b a i n + t' * b ^ n) * b + a (i + n) := by ring
    _ = (rowVal b a' i n + rowVal b v j n * q) * b + (a (i + n) + t * b) := by
      rw [hrow]
      ring
    _ = _ := by
      rw [hdigit]
      ring

/-- A row is added, from the last digit on, with `t` carried to the digits that are left. -/
theorem rowVal_add_succ (hrow : rowVal b a' i n + t' * b ^ n = rowVal b a i n + rowVal b v j n + t)
    (hdigit : a' (i + n) + t * b = a (i + n) + v (j + n) + s) :
    rowVal b a' i (n + 1) + t' * b ^ (n + 1) =
      rowVal b a i (n + 1) + rowVal b v j (n + 1) + s := by
  have hsub := @rowVal_sub_mul_succ b i j n 1 s t t' a' a v
  simp only [Nat.mul_one] at hsub
  exact hsub hrow hdigit

end Digits

/-! ### The guess -/

section Guess

variable {c g n q r T U V W x y : ℕ}

/-- The guess from leading digits is not too small. -/
theorem div_le_div_lead (hU : U < (T + 1) * c) (hV : W * c ≤ V) (hW : 0 < W) (hc : 0 < c) :
    U / V ≤ T / W := by
  have hVpos : 0 < V := Nat.lt_of_lt_of_le (Nat.mul_pos hW hc) hV
  rw [Nat.le_div_iff_mul_le hW]
  refine Nat.le_of_lt_succ (Nat.lt_of_mul_lt_mul_right (a := c) ?_)
  calc U / V * W * c = U / V * (W * c) := Nat.mul_assoc _ _ _
    _ ≤ U / V * V := Nat.mul_le_mul_left _ hV
    _ ≤ U := Nat.div_mul_le_self U V
    _ < (T + 1) * c := hU

/-- A guess that fails the test is too large. -/
theorem lt_of_guess_fails (hU : U < (T + 1) * c) (hV : W * c ≤ V) (hVpos : 0 < V)
    (htest : T < W * g) : U / V < g := by
  rw [Nat.div_lt_iff_lt_mul hVpos]
  calc U < (T + 1) * c := hU
    _ ≤ W * g * c := Nat.mul_le_mul_right c htest
    _ = g * (W * c) := by ring
    _ ≤ g * V := Nat.mul_le_mul_left g hV

/-- A guess that passes the test is too large by one at most. -/
theorem guess_le_succ (hU : T * c ≤ U) (hV : V < (W + 1) * c) (hlead : W * c ≤ V) (hVpos : 0 < V)
    (hg : g ≤ W) (htest : W * g ≤ T) : g ≤ U / V + 1 := by
  rcases Nat.eq_zero_or_pos g with rfl | hpos
  · exact Nat.zero_le _
  refine Nat.le_succ_of_pred_le ?_
  rw [Nat.pred_eq_sub_one, Nat.le_div_iff_mul_le hVpos, Nat.sub_mul, Nat.one_mul]
  have hmul : g * V ≤ U + V := by
    calc g * V ≤ g * ((W + 1) * c) := Nat.mul_le_mul_left g (Nat.le_of_lt hV)
      _ = W * g * c + g * c := by ring
      _ ≤ T * c + W * c := Nat.add_le_add (Nat.mul_le_mul_right c htest) (Nat.mul_le_mul_right c hg)
      _ ≤ U + V := Nat.add_le_add hU hlead
  omega

/-- A multiple was subtracted from `h` digits of weight `P` and the row `l`, with `t` to be borrowed
from `h`: without a borrow past the first digit the guess was right. -/
theorem guess_eq {h l l' t P : ℕ} (hrow : l + t * P = l' + V * g) (hle : (h * P + l) / V ≤ g)
    (ht : t ≤ h) (hV : 0 < V) :
    g = (h * P + l) / V ∧ (h - t) * P + l' = (h * P + l) % V := by
  obtain ⟨e, rfl⟩ : ∃ e, h = t + e := ⟨h - t, by omega⟩
  have hU : (t + e) * P + l = e * P + l' + V * g := by
    rw [Nat.add_mul]
    omega
  have hg : g = ((t + e) * P + l) / V := by
    refine le_antisymm ((Nat.le_div_iff_mul_le hV).mpr ?_) hle
    rw [hU, Nat.mul_comm]
    exact Nat.le_add_left _ _
  have hdm := Nat.div_add_mod ((t + e) * P + l) V
  rw [← hg] at hdm
  refine ⟨hg, ?_⟩
  rw [Nat.add_sub_cancel_left]
  omega

/-- With a borrow the guess was too large by one, and the divisor has to be added back. -/
theorem guess_eq_succ {h l l' t P : ℕ} (hrow : l + t * P = l' + V * g)
    (hle : g ≤ (h * P + l) / V + 1) (ht : h < t) (hl' : l' < P) (hV : V < P) (hVpos : 0 < V) :
    g = (h * P + l) / V + 1 ∧ t = h + 1 ∧ l' + V = P + (h * P + l) % V := by
  obtain ⟨e, rfl⟩ : ∃ e, t = h + (e + 1) := ⟨t - h - 1, by omega⟩
  have hmod := Nat.mod_lt (h * P + l) hVpos
  have hdm := Nat.div_add_mod (h * P + l) V
  have hU : h * P + l + e * P + P = l' + V * g := by
    rw [← hrow]
    ring
  have hless : (h * P + l) / V < g := by
    rw [Nat.div_lt_iff_lt_mul hVpos, Nat.mul_comm g]
    omega
  have hg : g = (h * P + l) / V + 1 := le_antisymm hle hless
  have hmul : V * g = V * ((h * P + l) / V) + V := by
    rw [hg, Nat.mul_succ]
  have he : e = 0 := by
    by_contra hne
    have := Nat.le_mul_of_pos_left P (Nat.pos_of_ne_zero hne)
    omega
  subst he
  exact ⟨hg, rfl, by omega⟩

/-- What is carried when the divisor is added back. -/
theorem carry_eq_one {l t P : ℕ} (h : l + t * P = P + r) (hl : l < P) (hr : r < P) :
    t = 1 ∧ l = r := by
  have ht : t = 1 := by
    rcases Nat.lt_trichotomy t 1 with hlt | heq | hgt
    · obtain rfl : t = 0 := Nat.lt_one_iff.mp hlt
      omega
    · exact heq
    · have := Nat.mul_le_mul_right P hgt
      omega
  subst ht
  exact ⟨rfl, by omega⟩

/-- One digit more: what was divided so far is `N`, with quotient `q` and remainder `r`. -/
theorem divide_digit {N b d q' r' : ℕ} (hN : N = q * V + r) (hr : r * b + d = q' * V + r') :
    N * b + d = (q * b + q') * V + r' := by
  calc N * b + d = q * b * V + (r * b + d) := by
        rw [hN]
        ring
    _ = _ := by
      rw [hr]
      ring

end Guess

end Os161
