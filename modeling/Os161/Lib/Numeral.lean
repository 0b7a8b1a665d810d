import Mathlib.Data.List.TakeWhile
import Mathlib.Data.Nat.Digits.Lemmas

/-!
# Numerals

Texts that stand for numbers, in a base up to sixteen. `numeral b k` is the shortest such text of
`k`, without leading zeros. `numVal b s` is the number a text of digits stands for; it is `none`
where a character is no digit of the base.

Digits are read from the left, so `readFrom b k` reads on from a value `k` of what stands before.
Zeros in front of a text change nothing. Zeros behind it multiply by powers of the base.

## Main results

* `numeral_of_lt`, `numeral_step` — a numeral is built up by its last digit
* `numVal_numeral` — the numeral stands for its number
* `length_numeral_le` — how long it is
* `head_numeral` — only the numeral of zero starts with a zero
* `numVal_zeros_append`, `numVal_append_zeros`
-/

namespace Os161

/-- The characters that stand for digits, in order. -/
def digitChars : List UInt8 :=
  [48, 49, 50, 51, 52, 53, 54, 55, 56, 57, 97, 98, 99, 100, 101, 102]

/-- The character of the digit `d`. -/
def digitChar (d : ℕ) : UInt8 := digitChars.getD d 0

/-- The digit a character stands for in base `b`. -/
def digitVal (b : ℕ) (c : UInt8) : Option ℕ :=
  if digitChars.idxOf c < b ∧ c ∈ digitChars then some (digitChars.idxOf c) else none

/-- Reading the digits `s` after digits of the value `k`. -/
def readFrom (b k : ℕ) (s : List UInt8) : Option ℕ :=
  s.foldlM (fun k c => (digitVal b c).map (k * b + ·)) k

/-- The number a text of digits stands for. -/
def numVal (b : ℕ) (s : List UInt8) : Option ℕ := readFrom b 0 s

/-- The text of `k` in base `b`, without leading zeros. -/
def numeral (b k : ℕ) : List UInt8 :=
  if k = 0 then [digitChar 0] else ((Nat.digits b k).map digitChar).reverse

variable {b k n d : ℕ} {s t : List UInt8}

/-! ### Digits -/

private theorem digitVal_table : ∀ d < 16, digitChar d ∈ digitChars ∧
    digitChars.idxOf (digitChar d) = d := by decide

theorem digitVal_digitChar (hd : d < b) (hb : b ≤ 16) : digitVal b (digitChar d) = some d := by
  obtain ⟨hmem, hidx⟩ := digitVal_table d (by omega)
  rw [digitVal, hidx, if_pos ⟨hd, hmem⟩]

theorem digitChar_eq_zero (hd : d < 16) : digitChar d = 48 ↔ d = 0 := by
  have h : ∀ d < 16, digitChar d = 48 ↔ d = 0 := by decide
  exact h d hd

/-- A digit is the character of its value. -/
theorem eq_digitChar_of_digitVal {c : UInt8} (h : digitVal b c = some d) :
    c = digitChar d ∧ d < b := by
  rw [digitVal] at h
  split at h
  · next hc =>
    obtain rfl := Option.some.inj h
    refine ⟨?_, hc.1⟩
    have hlt := List.idxOf_lt_length_of_mem hc.2
    rw [digitChar, List.getD_eq_getElem?_getD, List.getElem?_eq_getElem hlt, List.getElem_idxOf]
    rfl
  · cases h

theorem digitVal_zero (hb : 0 < b) : digitVal b 48 = some 0 := by
  have h : digitChars.idxOf 48 = 0 := by decide
  rw [digitVal, h, if_pos ⟨hb, by decide⟩]

/-! ### Reading -/

theorem readFrom_append : readFrom b k (s ++ t) = (readFrom b k s).bind (readFrom b · t) := by
  rw [readFrom, List.foldlM_append]
  rfl

theorem readFrom_cons (c : UInt8) :
    readFrom b k (c :: s) = (digitVal b c).bind fun d => readFrom b (k * b + d) s := by
  rw [readFrom, List.foldlM_cons]
  cases digitVal b c <;> rfl

theorem readFrom_zeros (hb : 0 < b) :
    readFrom b k (List.replicate n 48) = some (k * b ^ n) := by
  induction n generalizing k with
  | zero => simp [readFrom]
  | succ n ih =>
    rw [List.replicate_succ, readFrom_cons, digitVal_zero hb, Option.bind_some, ih, pow_succ,
      Nat.add_zero, Nat.mul_assoc, Nat.mul_comm b]

theorem numVal_zeros_append (hb : 0 < b) : numVal b (List.replicate n 48 ++ s) = numVal b s := by
  rw [numVal, readFrom_append, readFrom_zeros hb, Option.bind_some, Nat.zero_mul, numVal]

theorem numVal_append_zeros (hb : 0 < b) :
    numVal b (s ++ List.replicate n 48) = (numVal b s).map (· * b ^ n) := by
  rw [numVal, readFrom_append, ← numVal]
  cases numVal b s with
  | none => rfl
  | some v => exact readFrom_zeros hb

/-- What can be read has digits only. -/
theorem digitVal_of_readFrom {v : ℕ} (h : readFrom b k s = some v) {c : UInt8} (hc : c ∈ s) :
    ∃ d, digitVal b c = some d := by
  induction s generalizing k with
  | nil => cases hc
  | cons c' s ih =>
    rw [readFrom_cons, Option.bind_eq_some_iff] at h
    obtain ⟨d, hd, h⟩ := h
    rcases List.mem_cons.mp hc with rfl | hc
    · exact ⟨d, hd⟩
    · exact ih h hc

theorem le_of_readFrom {v : ℕ} (hb : 0 < b) (h : readFrom b k s = some v) : k ≤ v := by
  induction s generalizing k with
  | nil => exact (Option.some.inj h).le
  | cons c s ih =>
    rw [readFrom_cons, Option.bind_eq_some_iff] at h
    obtain ⟨d, -, h⟩ := h
    calc k ≤ k * b := Nat.le_mul_of_pos_right k hb
      _ ≤ k * b + d := Nat.le_add_right _ _
      _ ≤ v := ih h

/-- A text of the value zero starts with a zero. -/
theorem head_of_numVal_zero {c : UInt8} (hb : 0 < b) (h : numVal b (c :: s) = some 0) :
    c = 48 := by
  rw [numVal, readFrom_cons, Option.bind_eq_some_iff] at h
  obtain ⟨d, hd, h⟩ := h
  have hd0 : d = 0 := by
    have := le_of_readFrom hb h
    omega
  rw [(eq_digitChar_of_digitVal hd).1, hd0]
  rfl

/-! ### Numerals -/

theorem numeral_of_lt (hk : k < b) : numeral b k = [digitChar k] := by
  rw [numeral]
  split
  · next h => rw [h]
  · next h => rw [Nat.digits_of_lt b k h hk]; rfl

theorem numeral_step (hb : 1 < b) (hk : b ≤ k) :
    numeral b k = numeral b (k / b) ++ [digitChar (k % b)] := by
  have hk0 : k ≠ 0 := by omega
  have hq : k / b ≠ 0 := (Nat.div_pos hk (by omega)).ne'
  rw [numeral, if_neg hk0, numeral, if_neg hq, Nat.digits_eq_cons_digits_div hb hk0,
    List.map_cons, List.reverse_cons]

theorem numeral_ne_nil (hb : 1 < b) : numeral b k ≠ [] := by
  by_cases hk : k < b
  · rw [numeral_of_lt hk]
    exact List.cons_ne_nil _ _
  · rw [numeral_step hb (by omega)]
    exact List.append_ne_nil_of_right_ne_nil _ (List.cons_ne_nil _ _)

theorem numVal_numeral (hb : 1 < b) (hb16 : b ≤ 16) : numVal b (numeral b k) = some k := by
  induction k using Nat.strongRecOn with
  | ind k ih =>
    by_cases hk : k < b
    · rw [numeral_of_lt hk, numVal, readFrom_cons, digitVal_digitChar hk hb16, Option.bind_some,
        Nat.zero_mul, Nat.zero_add]
      rfl
    · have hlt : k / b < k := Nat.div_lt_self (by omega) hb
      have hmod : k % b < b := Nat.mod_lt _ (by omega)
      rw [numeral_step hb (by omega), numVal, readFrom_append, ← numVal, ih _ hlt,
        Option.bind_some, readFrom_cons, digitVal_digitChar hmod hb16, Option.bind_some,
        Nat.div_add_mod']
      rfl

theorem length_numeral_le (hb : 1 < b) (hn : 0 < n) (hk : k < b ^ n) :
    (numeral b k).length ≤ n := by
  rw [numeral]
  split
  · exact hn
  · rw [List.length_reverse, List.length_map]
    exact (Nat.digits_length_le_iff hb k).mpr hk

/-- Only the numeral of zero starts with a zero. -/
theorem head_numeral (hb : 1 < b) (hb16 : b ≤ 16) (h : (numeral b k).head? = some 48) : k = 0 := by
  by_contra hk
  rw [numeral, if_neg hk, List.head?_reverse, List.getLast?_map,
    List.getLast?_eq_some_getLast (Nat.digits_ne_nil_iff_ne_zero.mpr hk), Option.map_some,
    Option.some_inj] at h
  have hlt := Nat.digits_lt_base hb (List.getLast_mem (Nat.digits_ne_nil_iff_ne_zero.mpr hk))
  exact Nat.getLast_digit_ne_zero b hk ((digitChar_eq_zero (by omega)).mp h)

end Os161
