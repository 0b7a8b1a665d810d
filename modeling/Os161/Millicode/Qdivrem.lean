import Os161.Lib.LongDivision
import Os161.Millicode.Longlong
import Mathlib.Logic.Function.Basic
import Mathlib.Tactic.Linarith

/-!
# Division of `long long`

`common/gcc-millicode/qdivrem.c`: the division of one unsigned `long long` by another, in digits of
16 bits so that all products fit into a word. A divisor of one digit is divided by digit by digit.
Otherwise divisor and dividend are shifted until the first digit of the divisor is at least half of
the base, and every digit of the quotient is guessed from the leading digits.

The arrays are indexed as in the source, from the pointers into them on: `u`, `v` and `q` in the
source are `pu`, `pv` and `pq` places into the arrays. Nothing is read from `vspace[0]`, nor from
`qspace[0]`. The return value and what is stored through `arq` are given together. Division by zero
traps.

## How it composes

This module has the function, its digits seen as numbers, and the short division.
`Millicode.QdivremStep` has one digit of the quotient, from the guess to the correction, and the
loop over them; `Millicode.QdivremDivide` has the shifts before and after, and the whole function.
Long division itself is in `Lib.LongDivision`.

## Main definitions

* `Millicode.qdivrem`

## Main results

* `Millicode.shortDivide_spec` — division by one digit
-/

namespace Os161

namespace Millicode

/-- An array of digits. -/
abbrev Digits := ℕ → UInt16

/-! ### The function -/

/-- `u[0]` to `u[4]`, and `v[1]` to `v[4]`. -/
def digitsOf (x : UInt64) : Digits
  | 1 => (hhalf (uiH x)).toUInt16
  | 2 => (lhalf (uiH x)).toUInt16
  | 3 => (hhalf (uiL x)).toUInt16
  | 4 => (lhalf (uiL x)).toUInt16
  | _ => 0

/-- The division by one digit `t`. -/
def shortDivide (u : Digits) (t : UInt32) : UInt64 × UInt64 :=
  let q1 := (u 1).toUInt32 / t
  let rbj := combine ((u 1).toUInt32 % t) (u 2).toUInt32
  let q2 := rbj / t
  let rbj := combine (rbj % t) (u 3).toUInt32
  let q3 := rbj / t
  let rbj := combine (rbj % t) (u 4).toUInt32
  let q4 := rbj / t
  (ofUi (combine q1.toUInt16.toUInt32 q2.toUInt16.toUInt32)
    (combine q3.toUInt16.toUInt32 q4.toUInt16.toUInt32), (rbj % t).toUInt64)

/-- The loop over `v` that counts `n` down; `none` when `n` comes to 1. -/
def skipV (v : Digits) : ℕ → ℕ → Option (ℕ × ℕ)
  | 0, _ => none
  | n + 1, pv =>
      if v (pv + 1) = 0 then
        if n = 1 then none else skipV v n (pv + 1)
      else some (n + 1, pv)

/-- The loop over `u` that counts `m` down. -/
def skipU (u : Digits) : ℕ → ℕ → ℕ × ℕ
  | 0, pu => (0, pu)
  | m + 1, pu => if u (pu + 1) = 0 then skipU u m (pu + 1) else (m + 1, pu)

/-- The loop of D1, for a `t` that needs at most `k` shifts. -/
def countShifts : ℕ → UInt32 → ℕ
  | 0, _ => 0
  | k + 1, t => if t < 65536 / 2 then countShifts k (t <<< 1) + 1 else 0

/-- The loop of `shl`. -/
def shlLoop (p : Digits) (o : ℕ) (sh : UInt32) : ℕ → Digits
  | 0 => p
  | i + 1 =>
      let p' := shlLoop p o sh i
      Function.update p' (o + i) (lhalf ((p' (o + i)).toUInt32 <<< sh) |||
        (p' (o + i + 1)).toUInt32 >>> (16 - sh)).toUInt16

/-- `shl`, on the array from place `o` on. -/
def shl (p : Digits) (o len : ℕ) (sh : UInt32) : Digits :=
  let p' := shlLoop p o sh len
  Function.update p' (o + len) (lhalf ((p' (o + len)).toUInt32 <<< sh)).toUInt16

/-- The loop of D3. -/
def qhatLoop (v1 v2 uj2 qhat rhat : UInt32) : UInt32 :=
  if _h : combine rhat uj2 < v2 * qhat then
    if 65536 ≤ rhat + v1 then qhat - 1
    else qhatLoop v1 v2 uj2 (qhat - 1) (rhat + v1)
  else qhat
termination_by qhat.toNat
decreasing_by
  have hpos : 0 < qhat.toNat := by
    rcases Nat.eq_zero_or_pos qhat.toNat with h0 | hpos
    · rw [UInt32.lt_iff_toNat_lt, UInt32.toNat_mul, h0, Nat.mul_zero] at _h
      exact absurd _h (Nat.not_lt_zero _)
    · exact hpos
  rw [UInt32.toNat_sub_of_le qhat 1 hpos]
  exact Nat.sub_lt hpos Nat.one_pos

/-- D3. Where the leading digits agree the source jumps to `qhat_too_big`. -/
def guess (v1 v2 uj0 uj1 uj2 : UInt32) : UInt32 :=
  if uj0 = v1 then
    if 65536 ≤ uj1 + v1 then 65536 - 1
    else qhatLoop v1 v2 uj2 (65536 - 1) (uj1 + v1)
  else qhatLoop v1 v2 uj2 (combine uj0 uj1 / v1) (combine uj0 uj1 % v1)

/-- The loop of D4 for the digits up to `i`; `o` is where `u[j]` is. -/
def mulSub (v : Digits) (pv : ℕ) (qhat : UInt32) (o : ℕ) : ℕ → Digits → UInt32 → Digits × UInt32
  | 0, u, t => (u, t)
  | i + 1, u, t =>
      let t := (u (o + 1 + i)).toUInt32 - (v (pv + 1 + i)).toUInt32 * qhat - t
      mulSub v pv qhat o i (Function.update u (o + 1 + i) (lhalf t).toUInt16)
        ((65536 - hhalf t) &&& 65535)

/-- The loop of D6. -/
def addBack (v : Digits) (pv o : ℕ) : ℕ → Digits → UInt32 → Digits × UInt32
  | 0, u, t => (u, t)
  | i + 1, u, t =>
      let t := t + ((u (o + 1 + i)).toUInt32 + (v (pv + 1 + i)).toUInt32)
      addBack v pv o i (Function.update u (o + 1 + i) (lhalf t).toUInt16) (hhalf t)

/-- D3 to D6: what becomes of `u`, and the digit of the quotient. -/
def divideStep (v : Digits) (pv n : ℕ) (u : Digits) (o : ℕ) : Digits × UInt16 :=
  let qhat := guess (v (pv + 1)).toUInt32 (v (pv + 2)).toUInt32 (u o).toUInt32
    (u (o + 1)).toUInt32 (u (o + 2)).toUInt32
  let (u, t) := mulSub v pv qhat o n u 0
  let t := (u o).toUInt32 - t
  let u := Function.update u o (lhalf t).toUInt16
  if hhalf t = 0 then (u, qhat.toUInt16)
  else
    let (u, t) := addBack v pv o n u 0
    (Function.update u o (lhalf ((u o).toUInt32 + t)).toUInt16, (qhat - 1).toUInt16)

/-- The loop of D7, for the first `j` digits of the quotient. -/
def divideLoop (v : Digits) (pv n pu pq : ℕ) (u : Digits) : ℕ → Digits × Digits
  | 0 => (u, fun _ => 0)
  | j + 1 =>
      let (u, q) := divideLoop v pv n pu pq u j
      let (u, qhat) := divideStep v pv n u (pu + j)
      (u, Function.update q (pq + j) qhat)

/-- The loop that shifts the remainder down, for the digits up to `o + i`. -/
def shrLoop (o : ℕ) (d : UInt32) : ℕ → Digits → Digits
  | 0, u => u
  | i + 1, u => shrLoop o d i (Function.update u (o + i + 1)
      ((u (o + i + 1)).toUInt32 >>> d ||| lhalf ((u (o + i)).toUInt32 <<< (16 - d))).toUInt16)

/-- `tmp.ull` put together from four digits. -/
def wordOf (p : Digits) : UInt64 :=
  ofUi (combine (p 1).toUInt32 (p 2).toUInt32) (combine (p 3).toUInt32 (p 4).toUInt32)

/-- Program D, with the dividend and the divisor in `u` and `v`. -/
def longDivide (u v : Digits) (n pv : ℕ) : UInt64 × UInt64 :=
  let (m, pu) := skipU u (4 - n) 0
  let d := countShifts 16 (v (pv + 1)).toUInt32
  let sh := UInt32.ofNat d
  let u := if 0 < d then shl u pu (m + n) sh else u
  let v := if 0 < d then shl v (pv + 1) (n - 1) sh else v
  let (u, q) := divideLoop v pv n pu (4 - m) u (m + 1)
  let u := if d = 0 then u else Function.update (shrLoop (pu + m) sh n u) (pu + m) 0
  (wordOf q, wordOf u)

/-- `__qdivrem`. -/
def qdivrem (ull vll : UInt64) : Option (UInt64 × UInt64) :=
  if vll = 0 then none
  else if ull < vll then some (0, ull)
  else
    let u := digitsOf ull
    let v := digitsOf vll
    match skipV v 4 0 with
    | none => some (shortDivide u (v 4).toUInt32)
    | some (n, pv) => some (longDivide u v n pv)

/-! ### Digits -/

/-- The digits as numbers. -/
def nums (p : Digits) : ℕ → ℕ := fun i => (p i).toNat

section Nums

variable {p p' : Digits} {i j n : ℕ} {x : UInt32}

theorem nums_lt (p : Digits) (i : ℕ) : nums p i < 65536 := (p i).toNat_lt

theorem toNat_digit (p : Digits) (i : ℕ) : (p i).toUInt32.toNat = nums p i := rfl

theorem rowVal_nums_lt (p : Digits) (i n : ℕ) : rowVal 65536 (nums p) i n < 65536 ^ n :=
  rowVal_lt fun _ _ => nums_lt p _

theorem toNat_toUInt16_of_lt (h : x.toNat < 65536) : x.toUInt16.toNat = x.toNat := by
  rw [UInt32.toNat_toUInt16]
  exact Nat.mod_eq_of_lt h

theorem toNat_lhalf_digit (x : UInt32) : (lhalf x).toUInt16.toNat = x.toNat % 65536 := by
  rw [toNat_toUInt16_of_lt (lhalf_lt x), toNat_lhalf]

theorem toNat_wordOf (p : Digits) : (wordOf p).toNat = rowVal 65536 (nums p) 1 4 := by
  have h (i : ℕ) : (p i).toUInt32.toNat < 65536 := nums_lt p i
  rw [wordOf, toNat_ofUi, toNat_combine (h 1) (h 2), toNat_combine (h 3) (h 4)]
  simp only [toNat_digit, rowVal_succ, rowVal_zero, Nat.reduceAdd]
  omega

/-- The number is the one in the digits. -/
theorem rowVal_digitsOf (x : UInt64) : rowVal 65536 (nums (digitsOf x)) 1 4 = x.toNat := by
  have hlt := x.toNat_lt
  have h1 : nums (digitsOf x) 1 = x.toNat / 2 ^ 32 / 65536 := by
    change (hhalf (uiH x)).toUInt16.toNat = _
    rw [toNat_toUInt16_of_lt] <;> rw [toNat_hhalf, toNat_uiH]
    omega
  have h2 : nums (digitsOf x) 2 = x.toNat / 2 ^ 32 % 65536 := by
    change (lhalf (uiH x)).toUInt16.toNat = _
    rw [toNat_lhalf_digit, toNat_uiH]
  have h3 : nums (digitsOf x) 3 = x.toNat % 2 ^ 32 / 65536 := by
    change (hhalf (uiL x)).toUInt16.toNat = _
    rw [toNat_toUInt16_of_lt] <;> rw [toNat_hhalf, toNat_uiL]
    omega
  have h4 : nums (digitsOf x) 4 = x.toNat % 2 ^ 32 % 65536 := by
    change (lhalf (uiL x)).toUInt16.toNat = _
    rw [toNat_lhalf_digit, toNat_uiL]
  simp only [rowVal_succ, rowVal_zero, h1, h2, h3, h4, Nat.reduceAdd]
  omega

end Nums

/-! ### A divisor of one digit -/

section Short

variable {r w t : UInt32} {u : Digits}

/-- A quotient and a remainder, from what they have to satisfy. -/
theorem div_mod_of_eq {a b q r : ℕ} (h : a = q * b + r) (hr : r < b) : a / b = q ∧ a % b = r := by
  subst h
  rw [Nat.mul_comm, Nat.mul_add_div (Nat.zero_lt_of_lt hr), Nat.mul_add_mod, Nat.div_eq_of_lt hr,
    Nat.mod_eq_of_lt hr]
  exact ⟨rfl, rfl⟩

/-- One digit of the quotient, with `r` left over from the digits before. -/
theorem shortDivide_digit (ht0 : 0 < t.toNat) (ht : t.toNat < 65536) (hr : r.toNat < t.toNat)
    (hw : w.toNat < 65536) :
    r.toNat * 65536 + w.toNat =
        (combine r w / t).toUInt16.toUInt32.toNat * t.toNat + (combine r w % t).toNat ∧
      (combine r w % t).toNat < t.toNat := by
  have hcomb : (combine r w).toNat = r.toNat * 65536 + w.toNat := toNat_combine (by omega) hw
  have hdiv : (combine r w / t).toNat < 65536 := by
    rw [UInt32.toNat_div, hcomb, Nat.div_lt_iff_lt_mul ht0]
    nlinarith
  have hq : (combine r w / t).toUInt16.toUInt32.toNat = (combine r w / t).toNat :=
    toNat_toUInt16_of_lt hdiv
  rw [hq, UInt32.toNat_div, UInt32.toNat_mod, hcomb]
  exact ⟨(Nat.div_add_mod' _ _).symm, Nat.mod_lt _ ht0⟩

theorem shortDivide_spec (u : Digits) (ht0 : 0 < t.toNat) (ht : t.toNat < 65536) :
    (shortDivide u t).1.toNat = rowVal 65536 (nums u) 1 4 / t.toNat ∧
      (shortDivide u t).2.toNat = rowVal 65536 (nums u) 1 4 % t.toNat := by
  have hu (i : ℕ) : (u i).toUInt32.toNat < 65536 := nums_lt u i
  have hq (x : UInt32) : x.toUInt16.toUInt32.toNat < 65536 := x.toUInt16.toNat_lt
  have hN1 : (u 1).toUInt32.toNat =
      ((u 1).toUInt32 / t).toUInt16.toUInt32.toNat * t.toNat + ((u 1).toUInt32 % t).toNat := by
    have hle : ((u 1).toUInt32 / t).toNat ≤ (u 1).toUInt32.toNat := by
      rw [UInt32.toNat_div]
      exact Nat.div_le_self _ _
    have hq1 : ((u 1).toUInt32 / t).toUInt16.toUInt32.toNat = ((u 1).toUInt32 / t).toNat :=
      toNat_toUInt16_of_lt (Nat.lt_of_le_of_lt hle (hu 1))
    rw [hq1, UInt32.toNat_div, UInt32.toNat_mod]
    exact (Nat.div_add_mod' _ _).symm
  have hr1 : ((u 1).toUInt32 % t).toNat < t.toNat := by
    rw [UInt32.toNat_mod]
    exact Nat.mod_lt _ ht0
  obtain ⟨h2, hr2⟩ := shortDivide_digit ht0 ht hr1 (hu 2)
  have hN2 := divide_digit hN1 h2
  obtain ⟨h3, hr3⟩ := shortDivide_digit ht0 ht hr2 (hu 3)
  have hN3 := divide_digit hN2 h3
  obtain ⟨h4, hr4⟩ := shortDivide_digit ht0 ht hr3 (hu 4)
  obtain ⟨hdiv, hmod⟩ := div_mod_of_eq (divide_digit hN3 h4) hr4
  have hrow : rowVal 65536 (nums u) 1 4 = (((u 1).toUInt32.toNat * 65536 +
      (u 2).toUInt32.toNat) * 65536 + (u 3).toUInt32.toNat) * 65536 + (u 4).toUInt32.toNat := by
    simp only [rowVal_succ, rowVal_zero, Nat.reduceAdd, Nat.zero_mul, Nat.zero_add]
    rfl
  rw [hrow, hdiv, hmod]
  refine ⟨?_, rfl⟩
  simp only [shortDivide, toNat_ofUi, toNat_combine (hq _) (hq _)]
  ring

end Short

end Millicode

end Os161
