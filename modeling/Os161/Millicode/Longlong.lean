import Mathlib.Tactic.Ring
import Mathlib.Data.Nat.Bitwise

/-!
# Two words

`common/gcc-millicode/longlong.h`. A `long long` is seen as two words through a union, and a word as
two halves through the macros. What is read from the machine is the same on either byte order: `H`
and `L` name the more and the less significant word.

A C comparison is 0 or 1 where its value is added or subtracted.

## Main definitions

* `uiH`, `uiL`, `ofUi` — the union `uu`
* `hhalf`, `lhalf`, `lhup`, `combine` — the macros
-/

namespace Os161

namespace Millicode

/-! ### The union -/

/-- `tmp.ui[H]`, after `tmp.ull = x`. -/
def uiH (x : UInt64) : UInt32 := (x >>> 32).toUInt32

/-- `tmp.ui[L]`, after `tmp.ull = x`. -/
def uiL (x : UInt64) : UInt32 := x.toUInt32

/-- `tmp.ull`, after `tmp.ui[H] = h` and `tmp.ui[L] = l`. -/
def ofUi (h l : UInt32) : UInt64 := h.toUInt64 <<< 32 ||| l.toUInt64

/-! ### The macros -/

/-- `HHALF(x)`. -/
def hhalf (x : UInt32) : UInt32 := x >>> 16

/-- `LHALF(x)`. -/
def lhalf (x : UInt32) : UInt32 := x &&& 0xffff

/-- `LHUP(x)`. -/
def lhup (x : UInt32) : UInt32 := x <<< 16

/-- `COMBINE(a, b)`, in `qdivrem.c`. -/
def combine (a b : UInt32) : UInt32 := a <<< 16 ||| b

/-- A comparison as a number. -/
def ofBool (c : Bool) : UInt32 := if c then 1 else 0

/-! ### Their values -/

section Values

variable {a b h l x y : UInt32} {u v : UInt64}

/-- A number put together from two that do not overlap. -/
theorem shiftLeft_or {m n k : ℕ} (hn : n < 2 ^ k) : m <<< k ||| n = m <<< k + n := by
  rw [Nat.shiftLeft_eq, Nat.mul_comm, Nat.two_pow_add_eq_or_of_lt hn]

@[simp]
theorem toNat_uiH (u : UInt64) : (uiH u).toNat = u.toNat / 2 ^ 32 := by
  have hlt := u.toNat_lt
  rw [uiH, UInt64.toNat_toUInt32, UInt64.toNat_shiftRight, Nat.shiftRight_eq_div_pow]
  exact Nat.mod_eq_of_lt (Nat.div_lt_of_lt_mul hlt)

@[simp]
theorem toNat_uiL (u : UInt64) : (uiL u).toNat = u.toNat % 2 ^ 32 := UInt64.toNat_toUInt32 u

@[simp]
theorem toNat_ofUi (h l : UInt32) : (ofUi h l).toNat = h.toNat * 2 ^ 32 + l.toNat := by
  have hh := h.toNat_lt
  have hl := l.toNat_lt
  rw [ofUi, UInt64.toNat_or, UInt64.toNat_shiftLeft, UInt32.toNat_toUInt64, UInt32.toNat_toUInt64,
    show (32 : UInt64).toNat % 64 = 32 from rfl, Nat.shiftLeft_eq, Nat.mod_eq_of_lt (by omega),
    ← Nat.shiftLeft_eq, shiftLeft_or hl, Nat.shiftLeft_eq]

@[simp]
theorem toNat_hhalf (x : UInt32) : (hhalf x).toNat = x.toNat / 65536 := by
  rw [hhalf, UInt32.toNat_shiftRight, Nat.shiftRight_eq_div_pow]
  rfl

@[simp]
theorem toNat_lhalf (x : UInt32) : (lhalf x).toNat = x.toNat % 65536 := by
  rw [lhalf, UInt32.toNat_and]
  exact Nat.and_two_pow_sub_one_eq_mod x.toNat 16

theorem hhalf_lt (x : UInt32) : (hhalf x).toNat < 65536 := by
  rw [toNat_hhalf]
  exact Nat.div_lt_of_lt_mul x.toNat_lt

theorem lhalf_lt (x : UInt32) : (lhalf x).toNat < 65536 := by
  rw [toNat_lhalf]
  exact Nat.mod_lt _ (by decide)

@[simp]
theorem toNat_lhup (x : UInt32) : (lhup x).toNat = x.toNat * 65536 % 2 ^ 32 := by
  rw [lhup, UInt32.toNat_shiftLeft, Nat.shiftLeft_eq]
  rfl

theorem toNat_combine (ha : a.toNat < 65536) (hb : b.toNat < 65536) :
    (combine a b).toNat = a.toNat * 65536 + b.toNat := by
  have hshift : (a <<< 16).toNat = a.toNat <<< 16 := by
    rw [UInt32.toNat_shiftLeft, show (16 : UInt32).toNat % 32 = 16 from rfl, Nat.shiftLeft_eq]
    exact Nat.mod_eq_of_lt (by omega)
  rw [combine, UInt32.toNat_or, hshift, shiftLeft_or (k := 16) hb, Nat.shiftLeft_eq]

theorem ofUi_uiH_uiL (u : UInt64) : ofUi (uiH u) (uiL u) = u := by
  rw [← UInt64.toNat_inj, toNat_ofUi, toNat_uiH, toNat_uiL]
  exact Nat.div_add_mod' u.toNat (2 ^ 32)

theorem toNat_ofBool (c : Bool) : (ofBool c).toNat = if c then 1 else 0 := by
  cases c <;> rfl

end Values

end Millicode

end Os161
