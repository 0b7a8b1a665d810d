import Mathlib.Data.Nat.Bitwise
import Mathlib.Data.List.Range
import Mathlib.Data.Nat.Find
import Mathlib.Logic.Function.Basic
import Mathlib.Tactic.IntervalCases

/-!
# Bitmaps

`kern/lib/bitmap.c`: a fixed number of bits kept in bytes, used to hand out numbered things. A bit
that is set is in use. `bitmap_alloc` looks for a byte that is not full and takes the lowest clear
bit in it, so it hands out the lowest number that is not in use.

The bytes are `v`; storage past them is never touched. A bitmap is `Padded` when the bits between
its last one and the end of its last byte are set, as `bitmap_create` leaves them.

## Main results

* `Bitmap.alloc_of_free`, `alloc_of_full` — what `bitmap_alloc` finds
* `Bitmap.bit_set`, `bit_unset` — one bit changes
-/

namespace Os161

/-- `struct bitmap`. -/
structure Bitmap where
  /-- `nbits`. -/
  nbits : UInt32
  /-- `v`. -/
  v : ℕ → UInt8

namespace Bitmap

/-- Why an allocation did not come about. -/
inductive Stop where
  /-- `ENOSPC` -/
  | enospc
  /-- A failed `KASSERT`. -/
  | kassert
  deriving DecidableEq

/-- `((WORD_TYPE)1) << offset`. -/
def mask (offset : ℕ) : UInt8 := 1 <<< UInt8.ofNat offset

/-- `DIVROUNDUP(nbits, BITS_PER_WORD)`. -/
def words (nbits : UInt32) : UInt32 := (nbits + 8 - 1) / 8

/-- `bitmap_create`, for which there is memory; `none` is a failed `KASSERT`. -/
def create (nbits : UInt32) : Option Bitmap :=
  if nbits / 8 < words nbits then
    let ix := words nbits - 1
    let overbits := nbits - ix * 8
    if nbits / 8 = ix ∧ 0 < overbits ∧ overbits < 8 then
      some ⟨nbits, Function.update (fun _ => 0) ix.toNat
        ((List.range' overbits.toNat (8 - overbits.toNat)).foldl (fun w j => w ||| mask j) 0)⟩
    else none
  else some ⟨nbits, fun _ => 0⟩

/-- `bitmap_alloc`. -/
def alloc (b : Bitmap) : Except Stop (UInt32 × Bitmap) :=
  match (List.range (words b.nbits).toNat).find? fun ix => b.v ix ≠ 0xff with
  | none => .error .enospc
  | some ix =>
    match (List.range 8).find? fun offset => b.v ix &&& mask offset = 0 with
    | none => .error .kassert
    | some offset =>
      let index := UInt32.ofNat ix * 8 + UInt32.ofNat offset
      if index < b.nbits then
        .ok (index, { b with v := Function.update b.v ix (b.v ix ||| mask offset) })
      else .error .kassert

/-- `bitmap_isset`. -/
def isset (b : Bitmap) (index : UInt32) : Bool :=
  b.v (index.toNat / 8) &&& mask (index.toNat % 8) ≠ 0

/-- The bitmap with one more bit set. -/
def set (b : Bitmap) (index : UInt32) : Bitmap :=
  { b with
    v := Function.update b.v (index.toNat / 8)
      (b.v (index.toNat / 8) ||| mask (index.toNat % 8)) }

/-- The bitmap with one bit cleared. -/
def unset (b : Bitmap) (index : UInt32) : Bitmap :=
  { b with
    v := Function.update b.v (index.toNat / 8)
      (b.v (index.toNat / 8) &&& ~~~mask (index.toNat % 8)) }

/-- `bitmap_mark`; `none` is a failed `KASSERT`. -/
def mark (b : Bitmap) (index : UInt32) : Option Bitmap :=
  if index < b.nbits ∧ b.isset index = false then some (b.set index) else none

/-- `bitmap_unmark`; `none` is a failed `KASSERT`. -/
def unmark (b : Bitmap) (index : UInt32) : Option Bitmap :=
  if index < b.nbits ∧ b.isset index = true then some (b.unset index) else none

/-! ### Bits -/

/-- Bit `i`. -/
def bit (b : Bitmap) (i : ℕ) : Bool := (b.v (i / 8)).toNat.testBit (i % 8)

/-- The bits that are in the last byte but past the end are set. -/
def Padded (b : Bitmap) : Prop :=
  ∀ i, b.nbits.toNat ≤ i → i < 8 * (words b.nbits).toNat → b.bit i = true

section

variable {b : Bitmap} {i j : ℕ} {w : UInt8}

theorem toNat_mask (hj : j < 8) : (mask j).toNat = 2 ^ j := by
  interval_cases j <;> rfl

theorem and_mask_eq_zero (hj : j < 8) : w &&& mask j = 0 ↔ w.toNat.testBit j = false := by
  rw [← UInt8.toNat_inj, UInt8.toNat_and, toNat_mask hj, Nat.and_two_pow]
  cases w.toNat.testBit j <;> simp

theorem testBit_or_mask (hj : j < 8) (k : ℕ) :
    (w ||| mask j).toNat.testBit k = (w.toNat.testBit k || decide (j = k)) := by
  rw [UInt8.toNat_or, toNat_mask hj, Nat.testBit_or, Nat.testBit_two_pow]

theorem testBit_and_not_mask (hj : j < 8) {k : ℕ} (hk : k < 8) :
    (w &&& ~~~mask j).toNat.testBit k = (w.toNat.testBit k && decide (j ≠ k)) := by
  have hmask : (~~~mask j).toNat.testBit k = decide (j ≠ k) := by
    interval_cases j <;> interval_cases k <;> rfl
  rw [UInt8.toNat_and, Nat.testBit_and, hmask]

/-- A byte that is not full has a clear bit. -/
theorem exists_clear (h : w ≠ 0xff) : ∃ j < 8, w.toNat.testBit j = false := by
  by_contra hc
  push Not at hc
  refine h (UInt8.toNat_inj.mp (Nat.eq_of_testBit_eq fun j => ?_))
  have h255 : (0xff : UInt8).toNat = 2 ^ 8 - 1 := rfl
  rw [h255, Nat.testBit_two_pow_sub_one]
  by_cases hj : j < 8
  · rw [decide_eq_true hj]
    exact Bool.eq_true_of_not_eq_false (hc j hj)
  · rw [decide_eq_false hj]
    exact Nat.testBit_lt_two_pow (w.toNat_lt.trans_le (Nat.pow_le_pow_right (by omega) (by omega)))

theorem isset_eq_bit (b : Bitmap) (index : UInt32) : b.isset index = b.bit index.toNat := by
  have := and_mask_eq_zero (w := b.v (index.toNat / 8)) (Nat.mod_lt index.toNat (by omega : 0 < 8))
  rw [isset, bit]
  cases h : (b.v (index.toNat / 8)).toNat.testBit (index.toNat % 8)
  · simp [this.mpr h]
  · have : b.v (index.toNat / 8) &&& mask (index.toNat % 8) ≠ 0 := fun h0 => by
      rw [this.mp h0] at h
      cases h
    simp [this]

/-- Setting a bit sets that bit. -/
theorem bit_set (b : Bitmap) (index : UInt32) :
    (b.set index).bit i = (b.bit i || decide (i = index.toNat)) := by
  rw [bit, bit]
  dsimp only [set]
  by_cases hi : i / 8 = index.toNat / 8
  · rw [hi, Function.update_self, testBit_or_mask (Nat.mod_lt _ (by omega)), ← hi]
    congr 1
    refine decide_eq_decide.mpr ⟨fun h => ?_, fun h => by rw [h]⟩
    omega
  · rw [Function.update_of_ne hi]
    have : i ≠ index.toNat := fun h => hi (by rw [h])
    simp [this]

/-- Clearing a bit clears that bit. -/
theorem bit_unset (b : Bitmap) (index : UInt32) :
    (b.unset index).bit i = (b.bit i && decide (i ≠ index.toNat)) := by
  rw [bit, bit]
  dsimp only [unset]
  by_cases hi : i / 8 = index.toNat / 8
  · rw [hi, Function.update_self,
      testBit_and_not_mask (Nat.mod_lt _ (by omega)) (Nat.mod_lt _ (by omega)), ← hi]
    congr 1
    refine decide_eq_decide.mpr (not_congr ⟨fun h => ?_, fun h => by rw [h]⟩)
    omega
  · rw [Function.update_of_ne hi]
    have : i ≠ index.toNat := fun h => hi (by rw [h])
    simp [this]

theorem toNat_words (h : b.nbits.toNat + 7 < 2 ^ 32) :
    (words b.nbits).toNat = (b.nbits.toNat + 7) / 8 := by
  have h8 : (8 : UInt32).toNat = 8 := rfl
  have h1 : (1 : UInt32).toNat = 1 := rfl
  rw [words, UInt32.toNat_div, UInt32.toNat_sub, UInt32.toNat_add, h8, h1]
  omega

/-- A bitmap of whole bytes starts out clear. -/
theorem create_of_dvd {nbits : UInt32} (hn : nbits.toNat + 7 < 2 ^ 32) (h8 : nbits.toNat % 8 = 0) :
    create nbits = some ⟨nbits, fun _ => 0⟩ := by
  have hwords := toNat_words (b := ⟨nbits, fun _ => 0⟩) hn
  rw [create, if_neg]
  rw [UInt32.lt_iff_toNat_lt, hwords, UInt32.toNat_div, show (8 : UInt32).toNat = 8 from rfl]
  dsimp only
  omega

/-- The first byte that is not full holds the first clear bit. -/
theorem find_byte {m k : ℕ} (hk : k < 8 * m) (hclear : b.bit k = false)
    (hbelow : ∀ i < k, b.bit i = true) :
    ((List.range m).find? fun ix => b.v ix ≠ 0xff) = some (k / 8) := by
  rw [List.find?_range_eq_some]
  refine ⟨?_, by simpa using (by omega : k / 8 < m), fun ix hix => ?_⟩
  · rw [decide_eq_true_eq]
    intro hfull
    rw [bit, hfull] at hclear
    have h255 : (0xff : UInt8).toNat = 2 ^ 8 - 1 := rfl
    rw [h255, Nat.testBit_two_pow_sub_one] at hclear
    simp at hclear
    omega
  · rw [Bool.not_eq_true', decide_eq_false_iff_not, not_not]
    by_contra hne
    obtain ⟨j, hj, hbit⟩ := exists_clear hne
    have := hbelow (8 * ix + j) (by omega)
    rw [bit, show (8 * ix + j) / 8 = ix by omega, show (8 * ix + j) % 8 = j by omega, hbit] at this
    cases this

/-- The first clear bit of that byte. -/
theorem find_offset {k : ℕ} (hclear : b.bit k = false) (hbelow : ∀ i < k, b.bit i = true) :
    ((List.range 8).find? fun offset => b.v (k / 8) &&& mask offset = 0) = some (k % 8) := by
  rw [List.find?_range_eq_some]
  refine ⟨?_, by simpa using Nat.mod_lt k (by omega : 0 < 8), fun j hj => ?_⟩
  · rw [decide_eq_true_eq, and_mask_eq_zero (Nat.mod_lt k (by omega))]
    exact hclear
  · rw [Bool.not_eq_true', decide_eq_false_iff_not, and_mask_eq_zero (by omega)]
    have := hbelow (8 * (k / 8) + j) (by omega)
    rw [bit, show (8 * (k / 8) + j) / 8 = k / 8 by omega, show (8 * (k / 8) + j) % 8 = j by omega]
      at this
    rw [this]
    simp

/-- **Allocation.** `bitmap_alloc` takes the lowest clear bit. -/
theorem alloc_of_free (index : UInt32) (hn : b.nbits.toNat + 7 < 2 ^ 32) (hi : index < b.nbits)
    (hclear : b.bit index.toNat = false) (hbelow : ∀ i < index.toNat, b.bit i = true) :
    b.alloc = .ok (index, b.set index) := by
  have hlt : index.toNat < b.nbits.toNat := hi
  have hbyte := find_byte (m := (words b.nbits).toNat) (by rw [toNat_words hn]; omega) hclear hbelow
  have hindex : UInt32.ofNat (index.toNat / 8) * 8 + UInt32.ofNat (index.toNat % 8) = index := by
    have h8 : (8 : UInt32).toNat = 8 := rfl
    rw [← UInt32.toNat_inj, UInt32.toNat_add, UInt32.toNat_mul, UInt32.toNat_ofNat',
      UInt32.toNat_ofNat', h8]
    omega
  rw [alloc, hbyte]
  dsimp only
  rw [find_offset hclear hbelow]
  dsimp only
  rw [hindex, if_pos hi]
  rfl

/-- What `bitmap_alloc` hands out was not in use. -/
theorem alloc_ok {index : UInt32} {map : Bitmap} (h : b.alloc = .ok (index, map)) :
    map = b.set index ∧ b.bit index.toNat = false ∧ index < b.nbits := by
  rw [alloc] at h
  split at h
  · cases h
  · rename_i ix hix
    split at h
    · cases h
    · rename_i offset hoffset
      dsimp only at h
      split at h
      · rename_i hlt
        obtain ⟨rfl, rfl⟩ := Prod.mk.inj (Except.ok.inj h)
        have hoff : offset < 8 := List.mem_range.mp (List.mem_of_find?_eq_some hoffset)
        have hbyte : ix < (words b.nbits).toNat := List.mem_range.mp (List.mem_of_find?_eq_some hix)
        have hindex : (UInt32.ofNat ix * 8 + UInt32.ofNat offset).toNat = 8 * ix + offset := by
          have h8 : (8 : UInt32).toNat = 8 := rfl
          have hw := (b.nbits + 8 - 1).toNat_lt
          rw [words, UInt32.toNat_div, h8] at hbyte
          rw [UInt32.toNat_add, UInt32.toNat_mul, UInt32.toNat_ofNat', UInt32.toNat_ofNat', h8]
          omega
        have hclear := List.find?_some hoffset
        rw [decide_eq_true_eq, and_mask_eq_zero hoff] at hclear
        have hdiv : (8 * ix + offset) / 8 = ix := by omega
        have hmod : (8 * ix + offset) % 8 = offset := by omega
        refine ⟨?_, ?_, hlt⟩
        · rw [set, hindex, hdiv, hmod]
        · rw [bit, hindex, hdiv, hmod]
          exact hclear
      · cases h

/-- `bitmap_alloc` where no bit is clear. -/
theorem alloc_of_full (hpad : b.Padded)
    (hfull : ∀ i < b.nbits.toNat, b.bit i = true) : b.alloc = .error .enospc := by
  have hnone : ((List.range (words b.nbits).toNat).find? fun ix => b.v ix ≠ 0xff) = none := by
    rw [List.find?_eq_none]
    intro ix hix
    rw [List.mem_range] at hix
    rw [decide_eq_true_eq, not_not]
    by_contra hne
    obtain ⟨j, hj, hbit⟩ := exists_clear hne
    have : b.bit (8 * ix + j) = true := by
      by_cases hlt : 8 * ix + j < b.nbits.toNat
      · exact hfull _ hlt
      · exact hpad _ (by omega) (by omega)
    rw [bit, show (8 * ix + j) / 8 = ix by omega, show (8 * ix + j) % 8 = j by omega, hbit] at this
    cases this
  rw [alloc, hnone]

/-- What `bitmap_alloc` can do to a padded bitmap. -/
theorem alloc_cases (hn : b.nbits.toNat + 7 < 2 ^ 32) (hpad : b.Padded) :
    (b.alloc = .error .enospc ∧ ∀ i < b.nbits.toNat, b.bit i = true) ∨
      ∃ index, b.alloc = .ok (index, b.set index) ∧ index < b.nbits ∧
        b.bit index.toNat = false ∧ ∀ i < index.toNat, b.bit i = true := by
  by_cases hfull : ∀ i < b.nbits.toNat, b.bit i = true
  · exact Or.inl ⟨alloc_of_full hpad hfull, hfull⟩
  · have hex : ∃ i, i < b.nbits.toNat ∧ b.bit i = false := by
      push Not at hfull
      obtain ⟨i, hi, hb⟩ := hfull
      exact ⟨i, hi, Bool.eq_false_of_not_eq_true hb⟩
    -- the least such bit is the one found
    obtain ⟨hlt, hclear⟩ := Nat.find_spec hex
    have hbelow : ∀ i < Nat.find hex, b.bit i = true := by
      intro i hi
      by_contra hb
      exact Nat.find_min hex hi ⟨by omega, Bool.eq_false_of_not_eq_true hb⟩
    have h32 : Nat.find hex < 2 ^ 32 := hlt.trans b.nbits.toNat_lt
    have hnat : (UInt32.ofNat (Nat.find hex)).toNat = Nat.find hex := by
      rw [UInt32.toNat_ofNat']
      exact Nat.mod_eq_of_lt h32
    rw [← hnat] at hlt hclear hbelow
    exact Or.inr ⟨UInt32.ofNat (Nat.find hex), alloc_of_free _ hn hlt hclear hbelow, hlt, hclear,
      hbelow⟩

/-! ### Giving back -/

/-- `bitmap_unmark` on one number after the other. -/
def unmarkAll (b : Bitmap) (l : List UInt32) : Option Bitmap := l.foldlM unmark b

@[simp] theorem unmarkAll_nil (b : Bitmap) : b.unmarkAll [] = some b := rfl

theorem unmarkAll_cons (b : Bitmap) (index : UInt32) (l : List UInt32) :
    b.unmarkAll (index :: l) = (b.unmark index).bind fun m => m.unmarkAll l := List.foldlM_cons

theorem unmarkAll_append (b : Bitmap) (l l' : List UInt32) :
    b.unmarkAll (l ++ l') = (b.unmarkAll l).bind fun m => m.unmarkAll l' := List.foldlM_append

theorem isset_unset_iff {index : UInt32} (i : UInt32) :
    (b.unset index).isset i = true ↔ b.isset i = true ∧ i ≠ index := by
  rw [isset_eq_bit, isset_eq_bit, bit_unset, Bool.and_eq_true, decide_eq_true_eq, ne_eq, ne_eq,
    UInt32.toNat_inj]

/-- All of them can be given back if they are in use and none of them is named twice. -/
theorem unmarkAll_eq_some_iff {l : List UInt32} : (∃ m, b.unmarkAll l = some m) ↔
    l.Nodup ∧ ∀ index ∈ l, index < b.nbits ∧ b.isset index = true := by
  induction l generalizing b with
  | nil => simp
  | cons index l ih =>
    rw [unmarkAll_cons, unmark]
    by_cases h : index < b.nbits ∧ b.isset index = true
    · rw [if_pos h, Option.bind_some, ih, List.nodup_cons, List.forall_mem_cons]
      simp only [isset_unset_iff]
      constructor
      · rintro ⟨hnd, hall⟩
        exact ⟨⟨fun hmem => (hall index hmem).2.2 rfl, hnd⟩, h,
          fun i hi => ⟨(hall i hi).1, (hall i hi).2.1⟩⟩
      · rintro ⟨⟨hnot, hnd⟩, -, hall⟩
        exact ⟨hnd, fun i hi => ⟨(hall i hi).1, (hall i hi).2, fun heq => hnot (heq ▸ hi)⟩⟩
    · rw [if_neg h, Option.bind_none, List.forall_mem_cons]
      constructor
      · rintro ⟨m, hm⟩
        cases hm
      · rintro ⟨-, hindex, -⟩
        exact absurd hindex h

/-- What is left in use. -/
theorem isset_unmarkAll_iff {l : List UInt32} {m : Bitmap} (h : b.unmarkAll l = some m)
    (i : UInt32) : m.isset i = true ↔ b.isset i = true ∧ i ∉ l := by
  induction l generalizing b with
  | nil =>
    obtain rfl := Option.some.inj h
    simp
  | cons index l ih =>
    rw [unmarkAll_cons, unmark] at h
    split at h
    · rw [Option.bind_some] at h
      rw [ih h, isset_unset_iff, and_assoc, List.mem_cons, not_or]
    · cases h

/-- The other bits are as before. -/
theorem bit_unmarkAll_of_ne {l : List UInt32} {m : Bitmap} (h : b.unmarkAll l = some m) :
    m.nbits = b.nbits ∧ ∀ i, (∀ index ∈ l, index.toNat ≠ i) → m.bit i = b.bit i := by
  induction l generalizing b with
  | nil =>
    obtain rfl := Option.some.inj h
    exact ⟨rfl, fun _ _ => rfl⟩
  | cons index l ih =>
    rw [unmarkAll_cons, unmark] at h
    split at h
    · rw [Option.bind_some] at h
      obtain ⟨hnbits, hbit⟩ := ih h
      refine ⟨hnbits, fun i hi => ?_⟩
      have hne : i ≠ index.toNat := fun heq => hi index List.mem_cons_self heq.symm
      rw [hbit i fun j hj => hi j (List.mem_cons_of_mem _ hj), bit_unset, decide_eq_true hne,
        Bool.and_true]
    · cases h

end

end Bitmap

end Os161
