import Os161.Millicode.QdivremDivide

/-!
# Division of signed `long long`

`common/gcc-millicode/divdi3.c` and `moddi3.c`, with `udivdi3.c` and `umoddi3.c`: what is divided
are the absolute values, as unsigned numbers. The quotient is negative when one of the numbers is,
and the remainder when the dividend is. `none` is the trap of a division by zero.

## Main results

* `Millicode.udivdi3_umoddi3`, `Millicode.divdi3_moddi3`
-/

namespace Os161

namespace Millicode

/-! ### The functions -/

/-- `__udivdi3`. -/
def udivdi3 (a b : UInt64) : Option UInt64 := (qdivrem a b).map Prod.fst

/-- `__umoddi3`. -/
def umoddi3 (a b : UInt64) : Option UInt64 := (qdivrem a b).map Prod.snd

/-- `__divdi3`. -/
def divdi3 (a b : Int64) : Option Int64 :=
  let ua := a.toUInt64
  let ub := b.toUInt64
  let (ua, neg) := if a < 0 then (-ua, true) else (ua, false)
  let (ub, neg) := if b < 0 then (-ub, !neg) else (ub, neg)
  (qdivrem ua ub).map fun r => (if neg then -r.1 else r.1).toInt64

/-- `__moddi3`. -/
def moddi3 (a b : Int64) : Option Int64 :=
  let ua := a.toUInt64
  let ub := b.toUInt64
  let (ua, neg) := if a < 0 then (-ua, true) else (ua, false)
  let ub := if b < 0 then -ub else ub
  (qdivrem ua ub).map fun r => (if neg then -r.2 else r.2).toInt64

/-! ### Absolute values -/

section Abs

variable {a b : Int64}

/-- The absolute value as an unsigned number. -/
def uabs (a : Int64) : UInt64 := if a < 0 then -a.toUInt64 else a.toUInt64

theorem toNat_uabs (a : Int64) : (uabs a).toNat = a.toInt.natAbs := by
  have hlt := a.toUInt64.toNat_lt
  have ha : a.toInt = (a.toUInt64.toNat : ℤ).bmod (2 ^ 64) := BitVec.toInt_eq_toNat_bmod _
  rw [Int.bmod_def] at ha
  rw [uabs]
  split
  · next hneg =>
    have hneg' : a.toInt < 0 := Int64.lt_iff_toInt_lt.mp hneg
    rw [UInt64.toNat_neg, show UInt64.size = 2 ^ 64 from rfl]
    omega
  · next hnn =>
    have hnn' : ¬ a.toInt < 0 := fun h => hnn (Int64.lt_iff_toInt_lt.mpr h)
    omega

theorem uabs_ne_zero (hb : b ≠ 0) : uabs b ≠ 0 := by
  intro h
  have h0 := toNat_uabs b
  rw [h] at h0
  exact hb (Int64.toInt_inj.mp (Int.natAbs_eq_zero.mp h0.symm))

/-- A number from its absolute value. -/
theorem toInt_eq_uabs (a : Int64) :
    a.toInt = if a < 0 then -((uabs a).toNat : ℤ) else (uabs a).toNat := by
  rw [toNat_uabs]
  split
  · next hneg =>
    have hneg' : a.toInt < 0 := Int64.lt_iff_toInt_lt.mp hneg
    omega
  · next hnn =>
    have hnn' : ¬ a.toInt < 0 := fun h => hnn (Int64.lt_iff_toInt_lt.mpr h)
    omega

theorem toInt_toInt64 (x : UInt64) : x.toInt64.toInt = (x.toNat : ℤ).bmod (2 ^ 64) :=
  BitVec.toInt_eq_toNat_bmod _

/-- A sign put before an unsigned number. -/
theorem toInt_toInt64_ite (c : Bool) (x : UInt64) : (if c then -x else x).toInt64.toInt =
    (if c then -(x.toNat : ℤ) else x.toNat).bmod (2 ^ 64) := by
  have hlt := x.toNat_lt
  cases c with
  | false => exact toInt_toInt64 x
  | true =>
    simp only [if_true]
    rw [toInt_toInt64, UInt64.toNat_neg, show UInt64.size = 2 ^ 64 from rfl, Int.bmod_def,
      Int.bmod_def]
    omega

/-- The quotient of the absolute values, with the sign. -/
theorem toInt64_div (a b : Int64) :
    (if decide (a < 0) ^^ decide (b < 0) then -(uabs a / uabs b) else uabs a / uabs b).toInt64 =
      a / b := by
  rw [← Int64.toInt_inj, toInt_toInt64_ite, Int64.toInt_div, toInt_eq_uabs a, toInt_eq_uabs b]
  by_cases ha : a < 0 <;> by_cases hb : b < 0 <;>
    simp only [ha, hb, decide_true, decide_false, Bool.xor_true, Bool.xor_false, Bool.not_true,
      Bool.not_false, if_true, if_false, Bool.false_eq_true, UInt64.toNat_div, Int.neg_tdiv,
      Int.tdiv_neg, Int.neg_neg, Int.ofNat_tdiv]

/-- The remainder of the absolute values, with the sign of the dividend. -/
theorem toInt64_mod (a b : Int64) :
    (if decide (a < 0) then -(uabs a % uabs b) else uabs a % uabs b).toInt64 = a % b := by
  rw [← Int64.toInt_inj, toInt_toInt64_ite, ← Int64.toInt_bmod (a % b), Int64.toInt_mod,
    toInt_eq_uabs a, toInt_eq_uabs b]
  by_cases ha : a < 0 <;> by_cases hb : b < 0 <;>
    simp only [ha, hb, decide_true, decide_false, if_true, if_false, Bool.false_eq_true,
      UInt64.toNat_mod, Int.neg_tmod, Int.tmod_neg, Int.ofNat_tmod] <;>
    rfl

end Abs

/-! ### The functions divide -/

section Divide

variable {a b : Int64}

theorem divdi3_eq (a : Int64) (hb : b ≠ 0) : divdi3 a b = some (a / b) := by
  have hq := qdivrem_eq (uabs a) (uabs b) (uabs_ne_zero hb)
  rw [← toInt64_div, divdi3]
  by_cases ha : a < 0 <;> by_cases hb : b < 0 <;>
    simp only [uabs, ha, hb, if_true, if_false] at hq ⊢ <;> rw [hq] <;> rfl

theorem moddi3_eq (a : Int64) (hb : b ≠ 0) : moddi3 a b = some (a % b) := by
  have hq := qdivrem_eq (uabs a) (uabs b) (uabs_ne_zero hb)
  rw [← toInt64_mod, moddi3]
  by_cases ha : a < 0 <;> by_cases hb : b < 0 <;>
    simp only [uabs, ha, hb, if_true, if_false] at hq ⊢ <;> rw [hq] <;> rfl

/-- **`__udivdi3`** and **`__umoddi3`** divide. -/
theorem udivdi3_umoddi3 (a b : UInt64) (hb : b ≠ 0) :
    udivdi3 a b = some (a / b) ∧ umoddi3 a b = some (a % b) := by
  rw [udivdi3, umoddi3, qdivrem_eq a b hb]
  exact ⟨rfl, rfl⟩

/-- Divided by a number of more than one digit. -/
theorem udivdi3_umoddi3_max :
    udivdi3 18446744073709551615 4294967298 = some 4294967294 ∧
      umoddi3 18446744073709551615 4294967298 = some 3 :=
  udivdi3_umoddi3 18446744073709551615 4294967298 (by decide)

/-- **`__divdi3`** rounds towards zero, and **`__moddi3`** gives what is left, so that it has the
sign of what was divided. -/
theorem divdi3_moddi3 (a b : Int64) (hb : b ≠ 0) :
    divdi3 a b = some (a / b) ∧ moddi3 a b = some (a % b) :=
  ⟨divdi3_eq a hb, moddi3_eq a hb⟩

theorem divdi3_moddi3_neg :
    divdi3 (-9223372036854775807) 4294967299 = some (-2147483646) ∧
      moddi3 (-9223372036854775807) 4294967299 = some (-2147483653) :=
  divdi3_moddi3 (-9223372036854775807) 4294967299 (by decide)

end Divide

end Millicode

end Os161
