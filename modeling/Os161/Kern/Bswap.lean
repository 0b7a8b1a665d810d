import Os161.Lib.ByteOrder
import Os161.Lib.Octets
import Mathlib.Tactic.IntervalCases

/-!
# Swapping bytes

`kern/lib/bswap.c`. Each of the eight terms of `bswap64` masks a byte and moves it. Those for bytes
4 and 5 move it up, as if it were in the lower half: byte 4 comes to where byte 2 goes, and byte 5
is shifted out. So the function reverses the bytes of a number only if these two are zero.

The kernel runs on a machine for which it is not used.

## Main definitions

* `Bswap.bswap32`, `Bswap.bswap64`
* `Bswap.join32to64`, `Bswap.split64to32`

## Main results

* `Bswap.octet_bswap32`, `Bswap.octet_bswap64` — where each byte goes
* `Bswap.consistent_iff` — when the functions are consistent with each other
-/

namespace Os161

namespace Bswap

def bswap32 (val : UInt32) : UInt32 :=
  (val &&& 0x000000ff) <<< 24 |||
  (val &&& 0x0000ff00) <<< 8 |||
  (val &&& 0x00ff0000) >>> 8 |||
  (val &&& 0xff000000) >>> 24

def bswap64 (val : UInt64) : UInt64 :=
  (val &&& 0x00000000000000ff) <<< 56 |||
  (val &&& 0x000000000000ff00) <<< 40 |||
  (val &&& 0x0000000000ff0000) <<< 24 |||
  (val &&& 0x00000000ff000000) <<< 8 |||
  (val &&& 0x000000ff00000000) <<< 8 |||
  (val &&& 0x0000ff0000000000) <<< 24 |||
  (val &&& 0x00ff000000000000) >>> 40 |||
  (val &&& 0xff00000000000000) >>> 56

/-- `join32to64`, and what it writes to `*y2`. -/
def join32to64 (o : ByteOrder) (x1 x2 : UInt32) : UInt64 :=
  match o with
  | .big => x1.toUInt64 <<< 32 ||| x2.toUInt64
  | .little => x1.toUInt64 ||| x2.toUInt64 <<< 32

/-- `split64to32`, and what it writes to `*y1` and `*y2`. -/
def split64to32 (o : ByteOrder) (x : UInt64) : UInt32 × UInt32 :=
  match o with
  | .big => ((x >>> 32).toUInt32, (x &&& 0xffffffff).toUInt32)
  | .little => ((x &&& 0xffffffff).toUInt32, (x >>> 32).toUInt32)

variable {x y : UInt64} {a b : UInt32} {i j k : ℕ}

/-! ### Bytes -/

theorem ext64 (h : ∀ j < 8, octet x.toNat j = octet y.toNat j) : x = y :=
  UInt64.toNat_inj.mp (octet_ext (w := 8) x.toNat_lt y.toNat_lt h)

theorem ext32 (h : ∀ j < 4, octet a.toNat j = octet b.toNat j) : a = b :=
  UInt32.toNat_inj.mp (octet_ext (w := 4) a.toNat_lt b.toNat_lt h)

/-- A term that moves a byte up. -/
theorem octet_up64 {mask shift : UInt64} (hmask : mask.toNat = 255 <<< (8 * i))
    (hshift : shift.toNat % 64 = 8 * k) (hj : j < 8) :
    octet ((x &&& mask) <<< shift).toNat j = if j = i + k then octet x.toNat i else 0 := by
  rw [UInt64.toNat_shiftLeft, UInt64.toNat_and, hmask, hshift, octet_mod (w := 8) hj,
    octet_shiftLeft_mask]

/-- A term that moves a byte down. -/
theorem octet_down64 {mask shift : UInt64} (hmask : mask.toNat = 255 <<< (8 * i))
    (hshift : shift.toNat % 64 = 8 * k) :
    octet ((x &&& mask) >>> shift).toNat j = if j + k = i then octet x.toNat i else 0 := by
  rw [UInt64.toNat_shiftRight, UInt64.toNat_and, hmask, hshift, octet_shiftRight_mask]

theorem octet_up32 {mask shift : UInt32} (hmask : mask.toNat = 255 <<< (8 * i))
    (hshift : shift.toNat % 32 = 8 * k) (hj : j < 4) :
    octet ((a &&& mask) <<< shift).toNat j = if j = i + k then octet a.toNat i else 0 := by
  rw [UInt32.toNat_shiftLeft, UInt32.toNat_and, hmask, hshift, octet_mod (w := 4) hj,
    octet_shiftLeft_mask]

theorem octet_down32 {mask shift : UInt32} (hmask : mask.toNat = 255 <<< (8 * i))
    (hshift : shift.toNat % 32 = 8 * k) :
    octet ((a &&& mask) >>> shift).toNat j = if j + k = i then octet a.toNat i else 0 := by
  rw [UInt32.toNat_shiftRight, UInt32.toNat_and, hmask, hshift, octet_shiftRight_mask]

/-- **`bswap32`** reverses the bytes. -/
theorem octet_bswap32 (a : UInt32) (hj : j < 4) :
    octet (bswap32 a).toNat j = octet a.toNat (3 - j) := by
  unfold bswap32
  simp only [UInt32.toNat_or, octet_or]
  rw [octet_up32 (i := 0) (k := 3) (by decide) (by decide) hj,
    octet_up32 (i := 1) (k := 1) (by decide) (by decide) hj,
    octet_down32 (i := 2) (k := 1) (by decide) (by decide),
    octet_down32 (i := 3) (k := 3) (by decide) (by decide)]
  interval_cases j <;> simp

/-- Where `bswap64` puts the bytes. -/
def swapped (f : ℕ → UInt8) : ℕ → UInt8
  | 0 => f 7
  | 1 => f 6
  | 4 => f 3
  | 5 => f 2 ||| f 4
  | 6 => f 1
  | 7 => f 0
  | _ => 0

/-- **`bswap64`** reverses six of the bytes. -/
theorem octet_bswap64 (x : UInt64) (hj : j < 8) :
    octet (bswap64 x).toNat j = swapped (octet x.toNat) j := by
  unfold bswap64
  simp only [UInt64.toNat_or, octet_or]
  rw [octet_up64 (i := 0) (k := 7) (by decide) (by decide) hj,
    octet_up64 (i := 1) (k := 5) (by decide) (by decide) hj,
    octet_up64 (i := 2) (k := 3) (by decide) (by decide) hj,
    octet_up64 (i := 3) (k := 1) (by decide) (by decide) hj,
    octet_up64 (i := 4) (k := 1) (by decide) (by decide) hj,
    octet_up64 (i := 5) (k := 3) (by decide) (by decide) hj,
    octet_down64 (i := 6) (k := 5) (by decide) (by decide),
    octet_down64 (i := 7) (k := 7) (by decide) (by decide)]
  interval_cases j <;> simp [swapped]

/-! ### Words and their halves -/

/-- The more significant one of two adjoining words. -/
def high (o : ByteOrder) (x1 x2 : UInt32) : UInt32 :=
  match o with
  | .big => x1
  | .little => x2

/-- The less significant one. -/
def low (o : ByteOrder) (x1 x2 : UInt32) : UInt32 :=
  match o with
  | .big => x2
  | .little => x1

theorem join32to64_eq (o : ByteOrder) (a b : UInt32) :
    join32to64 o a b = (high o a b).toUInt64 <<< 32 ||| (low o a b).toUInt64 := by
  cases o with
  | big => rfl
  | little => exact UInt64.or_comm ..

theorem octet_join32to64 (o : ByteOrder) (a b : UInt32) (hj : j < 8) :
    octet (join32to64 o a b).toNat j =
      if j < 4 then octet (low o a b).toNat j else octet (high o a b).toNat (j - 4) := by
  have hshift : (32 : UInt64).toNat % 64 = 8 * 4 := rfl
  rw [join32to64_eq, UInt64.toNat_or, octet_or, UInt64.toNat_shiftLeft, hshift,
    octet_mod (w := 8) hj, octet_shiftLeft, UInt32.toNat_toUInt64, UInt32.toNat_toUInt64]
  split
  · next hle =>
    have hlow : octet (low o a b).toNat j = 0 :=
      octet_eq_zero (Nat.lt_of_lt_of_le (low o a b).toNat_lt
        (Nat.pow_le_pow_right (by decide) (by omega)))
    rw [hlow, if_neg (by omega), UInt8.or_zero]
  · next hlt => rw [if_pos (by omega), UInt8.zero_or]

theorem octet_upper (x : UInt64) (hj : j < 4) :
    octet (x >>> 32).toUInt32.toNat j = octet x.toNat (j + 4) := by
  have hshift : (32 : UInt64).toNat % 64 = 8 * 4 := rfl
  rw [UInt64.toNat_toUInt32, octet_mod (w := 4) hj, UInt64.toNat_shiftRight, hshift,
    octet_shiftRight]

theorem octet_lower (x : UInt64) (hj : j < 4) :
    octet (x &&& 0xffffffff).toUInt32.toNat j = octet x.toNat j := by
  have hmask : (0xffffffff : UInt64).toNat = 2 ^ (8 * 4) - 1 := rfl
  rw [UInt64.toNat_toUInt32, octet_mod (w := 4) hj, UInt64.toNat_and, hmask,
    Nat.and_two_pow_sub_one_eq_mod, octet_mod hj]

theorem high_split (o : ByteOrder) (x : UInt64) :
    high o (split64to32 o x).1 (split64to32 o x).2 = (x >>> 32).toUInt32 := by
  cases o <;> rfl

theorem low_split (o : ByteOrder) (x : UInt64) :
    low o (split64to32 o x).1 (split64to32 o x).2 = (x &&& 0xffffffff).toUInt32 := by
  cases o <;> rfl

theorem join_split (o : ByteOrder) (x : UInt64) :
    join32to64 o (split64to32 o x).1 (split64to32 o x).2 = x := by
  refine ext64 fun j hj => ?_
  rw [octet_join32to64 _ _ _ hj, high_split, low_split]
  split
  · next hlt => exact octet_lower x hlt
  · next hge => rw [octet_upper x (by omega), Nat.sub_add_cancel (Nat.le_of_not_lt hge)]

theorem split_join (o : ByteOrder) (a b : UInt32) : split64to32 o (join32to64 o a b) = (a, b) := by
  have hupper : (join32to64 o a b >>> 32).toUInt32 = high o a b := by
    refine ext32 fun j hj => ?_
    rw [octet_upper _ hj, octet_join32to64 _ _ _ (by omega), if_neg (by omega),
      Nat.add_sub_cancel]
  have hlower : (join32to64 o a b &&& 0xffffffff).toUInt32 = low o a b := by
    refine ext32 fun j hj => ?_
    rw [octet_lower _ hj, octet_join32to64 _ _ _ (by omega), if_pos hj]
  cases o with
  | big => exact Prod.ext hupper hlower
  | little => exact Prod.ext hlower hupper

/-! ### Consistency -/

/-- `bswap64` reverses the bytes of its argument, which makes it its own inverse, and agrees with
`bswap32` on the halves, and the halves are what a number is put together from. -/
structure Consistent (o : ByteOrder) (x : UInt64) (a b : UInt32) : Prop where
  reverses : ∀ j < 8, octet (bswap64 x).toNat j = octet x.toNat (7 - j)
  involutive : bswap64 (bswap64 x) = x
  join : bswap64 (join32to64 o a b) = join32to64 o (bswap32 b) (bswap32 a)
  split_join : split64to32 o (join32to64 o a b) = (a, b)
  join_split : join32to64 o (split64to32 o x).1 (split64to32 o x).2 = x

theorem reverses_iff (x : UInt64) :
    (∀ j < 8, octet (bswap64 x).toNat j = octet x.toNat (7 - j)) ↔
      octet x.toNat 4 = 0 ∧ octet x.toNat 5 = 0 := by
  constructor
  · intro h
    have h3 := h 3 (by decide)
    have h2 := h 2 (by decide)
    rw [octet_bswap64 x (by decide)] at h3 h2
    exact ⟨h3.symm, h2.symm⟩
  · rintro ⟨h4, h5⟩ j hj
    rw [octet_bswap64 x hj]
    interval_cases j <;> simp [swapped, h4, h5]

theorem octet_bswap64_twice (x : UInt64) (hj : j < 8) :
    octet (bswap64 (bswap64 x)).toNat j = swapped (swapped (octet x.toNat)) j := by
  rw [octet_bswap64 _ hj]
  interval_cases j <;> simp [swapped, octet_bswap64]

theorem involutive_iff (x : UInt64) :
    bswap64 (bswap64 x) = x ↔ ∀ j, 2 ≤ j → j ≤ 5 → octet x.toNat j = 0 := by
  constructor
  · intro h j h2 h5
    have hbyte : ∀ i < 8, octet x.toNat i = swapped (swapped (octet x.toNat)) i := by
      intro i hi
      rw [← octet_bswap64_twice x hi, h]
    have h3 : octet x.toNat 3 = 0 := hbyte 3 (by decide)
    interval_cases j
    · exact hbyte 2 (by decide)
    · exact h3
    · exact hbyte 4 (by decide)
    · have h5 := hbyte 5 (by decide)
      simpa [swapped, h3] using h5
  · intro h
    have h2 := h 2 (by decide) (by decide)
    have h3 := h 3 (by decide) (by decide)
    have h4 := h 4 (by decide) (by decide)
    have h5 := h 5 (by decide) (by decide)
    refine ext64 fun j hj => ?_
    rw [octet_bswap64_twice x hj]
    interval_cases j <;> simp [swapped, h2, h3, h4, h5]

theorem high_bswap32 (o : ByteOrder) (a b : UInt32) :
    high o (bswap32 b) (bswap32 a) = bswap32 (low o a b) := by
  cases o <;> rfl

theorem low_bswap32 (o : ByteOrder) (a b : UInt32) :
    low o (bswap32 b) (bswap32 a) = bswap32 (high o a b) := by
  cases o <;> rfl

theorem join_iff (o : ByteOrder) (a b : UInt32) :
    bswap64 (join32to64 o a b) = join32to64 o (bswap32 b) (bswap32 a) ↔
      octet (high o a b).toNat 0 = 0 ∧ octet (high o a b).toNat 1 = 0 := by
  have hleft : ∀ j < 8, octet (bswap64 (join32to64 o a b)).toNat j =
      swapped (octet (join32to64 o a b).toNat) j := fun j hj => octet_bswap64 _ hj
  have hright : ∀ j < 8, octet (join32to64 o (bswap32 b) (bswap32 a)).toNat j =
      if j < 4 then octet (high o a b).toNat (3 - j) else octet (low o a b).toNat (7 - j) := by
    intro j hj
    rw [octet_join32to64 _ _ _ hj, high_bswap32, low_bswap32]
    split
    · next hlt => exact octet_bswap32 _ hlt
    · next hge => rw [octet_bswap32 _ (by omega), show 3 - (j - 4) = 7 - j by omega]
  constructor
  · intro h
    have h3 := hleft 3 (by decide)
    have h2 := hleft 2 (by decide)
    rw [h, hright _ (by decide)] at h3 h2
    exact ⟨h3, h2⟩
  · rintro ⟨h0, h1⟩
    refine ext64 fun j hj => ?_
    rw [hleft j hj, hright j hj]
    interval_cases j <;> simp [swapped, octet_join32to64, h0, h1]

/-- **The functions are consistent** for exactly the numbers whose four bytes in the middle are
zero, and the words whose upper one has no other than its upper half. -/
theorem consistent_iff (o : ByteOrder) (x : UInt64) (a b : UInt32) :
    Consistent o x a b ↔ (∀ j, 2 ≤ j → j ≤ 5 → octet x.toNat j = 0) ∧
      octet (high o a b).toNat 0 = 0 ∧ octet (high o a b).toNat 1 = 0 := by
  constructor
  · intro h
    exact ⟨(involutive_iff x).mp h.involutive, (join_iff o a b).mp h.join⟩
  · rintro ⟨hx, hhigh⟩
    exact
      { reverses := (reverses_iff x).mpr
          ⟨hx 4 (by decide) (by decide), hx 5 (by decide) (by decide)⟩
        involutive := (involutive_iff x).mpr hx
        join := (join_iff o a b).mpr hhigh
        split_join := split_join o a b
        join_split := join_split o x }

/-- **Not for all numbers**: a byte in the upper half is lost. -/
theorem not_consistent : ¬ ∀ o x a b, Consistent o x a b := by
  intro h
  have hbyte := (h .big 0x0000010000000000 0 0).reverses 2 (by decide)
  exact absurd hbyte (by decide)

end Bswap

end Os161
