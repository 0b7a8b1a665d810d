import Mathlib.Data.Nat.Bitwise

/-!
# The bytes of a number

Byte 0 is the least significant one. A number below 2^(8w) is known by its first `w` bytes, and a
term that masks one byte and shifts it by whole bytes moves that byte and nothing else.

## Main results

* `octet_ext` — numbers with the same bytes are equal
* `octet_shiftLeft_mask`, `octet_shiftRight_mask` — one byte moved
-/

namespace Os161

/-- Byte `j` of a number. -/
def octet (n j : ℕ) : UInt8 := UInt8.ofNat (n >>> (8 * j))

variable {m n i j k w : ℕ}

theorem testBit_octet (n j k : ℕ) :
    (octet n j).toNat.testBit k = (decide (k < 8) && n.testBit (8 * j + k)) := by
  rw [octet, UInt8.toNat_ofNat', Nat.testBit_mod_two_pow, Nat.testBit_shiftRight]

theorem uint8_ext {a b : UInt8} (h : ∀ k, a.toNat.testBit k = b.toNat.testBit k) : a = b :=
  UInt8.toNat_inj.mp (Nat.eq_of_testBit_eq h)

theorem octet_ext (hm : m < 2 ^ (8 * w)) (hn : n < 2 ^ (8 * w))
    (h : ∀ j < w, octet m j = octet n j) : m = n := by
  refine Nat.eq_of_testBit_eq fun b => ?_
  by_cases hb : b < 8 * w
  · have hbyte := congrArg (fun a => a.toNat.testBit (b % 8)) (h (b / 8) (by omega))
    have hlt : b % 8 < 8 := Nat.mod_lt _ (by decide)
    simpa [testBit_octet, hlt, Nat.div_add_mod] using hbyte
  · have hle : 2 ^ (8 * w) ≤ 2 ^ b := Nat.pow_le_pow_right (by decide) (Nat.le_of_not_lt hb)
    rw [Nat.testBit_lt_two_pow (Nat.lt_of_lt_of_le hm hle),
      Nat.testBit_lt_two_pow (Nat.lt_of_lt_of_le hn hle)]

@[simp]
theorem octet_or (m n j : ℕ) : octet (m ||| n) j = octet m j ||| octet n j := by
  refine uint8_ext fun k => ?_
  rw [UInt8.toNat_or, Nat.testBit_or, testBit_octet, testBit_octet, testBit_octet, Nat.testBit_or,
    Bool.and_or_distrib_left]

theorem octet_mod (hj : j < w) (n : ℕ) : octet (n % 2 ^ (8 * w)) j = octet n j := by
  refine uint8_ext fun k => ?_
  rw [testBit_octet, testBit_octet, Nat.testBit_mod_two_pow]
  by_cases hk : k < 8
  · have hlt : 8 * j + k < 8 * w := by omega
    simp [hlt]
  · simp [hk]

theorem octet_eq_zero (hn : n < 2 ^ (8 * j)) : octet n j = 0 := by
  rw [octet, Nat.shiftRight_eq_div_pow, Nat.div_eq_of_lt hn]
  rfl

theorem octet_shiftLeft (n k j : ℕ) :
    octet (n <<< (8 * k)) j = if k ≤ j then octet n (j - k) else 0 := by
  refine uint8_ext fun b => ?_
  rw [testBit_octet, Nat.testBit_shiftLeft]
  by_cases hb : b < 8
  · split
    · next hkj =>
      rw [testBit_octet, show 8 * j + b - 8 * k = 8 * (j - k) + b by omega]
      simp [hb, show 8 * k ≤ 8 * j + b by omega]
    · next hkj => simp [show ¬ 8 * k ≤ 8 * j + b by omega]
  · split <;> simp [hb, testBit_octet]

theorem octet_shiftRight (n k j : ℕ) : octet (n >>> (8 * k)) j = octet n (j + k) := by
  rw [octet, octet, ← Nat.shiftRight_add, show 8 * k + 8 * j = 8 * (j + k) by omega]

/-- One byte masked. -/
theorem octet_mask (n i j : ℕ) :
    octet (n &&& 255 <<< (8 * i)) j = if j = i then octet n i else 0 := by
  refine uint8_ext fun b => ?_
  have hmask : ∀ b, (255 : ℕ).testBit b = decide (b < 8) := Nat.testBit_two_pow_sub_one 8
  rw [testBit_octet, Nat.testBit_and, Nat.testBit_shiftLeft, hmask]
  by_cases hb : b < 8
  · split
    · next hji =>
      subst hji
      rw [testBit_octet]
      simp [hb]
    · next hji =>
      have hout : ¬ (8 * i ≤ 8 * j + b ∧ 8 * j + b - 8 * i < 8) := by omega
      simp only [hb, decide_true, Bool.true_and]
      rw [← Bool.decide_and, decide_eq_false hout]
      simp
  · split <;> simp [hb, testBit_octet]

/-- One byte moved up. -/
theorem octet_shiftLeft_mask (n i k j : ℕ) :
    octet ((n &&& 255 <<< (8 * i)) <<< (8 * k)) j = if j = i + k then octet n i else 0 := by
  rw [octet_shiftLeft, octet_mask]
  by_cases hj : j = i + k
  · rw [if_pos hj, if_pos (by omega), if_pos (by omega)]
  · rw [if_neg hj]
    split
    · rw [if_neg (by omega)]
    · rfl

/-- One byte moved down. -/
theorem octet_shiftRight_mask (n i k j : ℕ) :
    octet ((n &&& 255 <<< (8 * i)) >>> (8 * k)) j = if j + k = i then octet n i else 0 := by
  rw [octet_shiftRight, octet_mask]

end Os161
