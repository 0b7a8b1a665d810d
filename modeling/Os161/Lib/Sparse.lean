import Mathlib.Data.List.GetD
import Mathlib.Logic.Function.Basic
import Os161.Lib.Bytes

/-!
# Sparse files

A file kept in blocks of `B` bytes, where a block may be missing; a missing block reads as zeros. A
file is given by its blocks rather than by its bytes, because which blocks are there is part of what
is said about it: writing makes present exactly the blocks that the written range meets.

## Main definitions

* `Sparse`, `Sparse.byte`, `Sparse.read` — blocks and bytes
* `Sparse.Meets`, `Sparse.touch`, `Sparse.put` — making a block present, writing a range

## Main results

* `Sparse.ext_byte` — the bytes, and which blocks there are, determine the file
* `Sparse.byte_put`, `isSome_put`, `put_append` — a write by byte, by block, and in two parts
* `Sparse.put_block` — a write inside one block
-/

namespace Os161

/-- A file in blocks of `B` bytes; `none` is a missing block. -/
abbrev Sparse (B : ℕ) := ℕ → Option (Bytes B)

namespace Sparse

variable {B : ℕ}

/-- What block `k` reads as. -/
def block (f : Sparse B) (k : ℕ) : Bytes B := (f k).getD Bytes.zero

/-- The byte at position `p`. -/
def byte (f : Sparse B) (p : ℕ) : UInt8 := (f.block (p / B)).get (p % B)

/-- The `len` bytes from position `off` on. -/
def read (f : Sparse B) (off len : ℕ) : List UInt8 := (List.range len).map fun i => f.byte (off + i)

/-- The range of `len` bytes from `off` on has a byte in block `k`. -/
def Meets (B off len k : ℕ) : Prop := 0 < len ∧ B * k < off + len ∧ off < B * k + B

instance (off len k : ℕ) : Decidable (Meets B off len k) :=
  inferInstanceAs (Decidable (_ ∧ _ ∧ _))

/-- The file with block `k` made present. -/
def touch (f : Sparse B) (k : ℕ) : Sparse B := Function.update f k (some (f.block k))

/-- The file with `data` written at `off`. -/
def put (f : Sparse B) (off : ℕ) (data : List UInt8) : Sparse B := fun k =>
  if Meets B off data.length k then
    some (Bytes.ofFn fun i =>
      if off ≤ B * k + i ∧ B * k + i < off + data.length then data.getD (B * k + i - off) 0
      else (f.block k).get i)
  else f k

variable {f g : Sparse B} {off k p : ℕ} {data : List UInt8}

/-! ### Blocks and bytes -/

theorem byte_block (f : Sparse B) (k : ℕ) {i : ℕ} (hi : i < B) :
    f.byte (B * k + i) = (f.block k).get i := by
  rw [byte, Nat.mul_add_div (Nat.zero_lt_of_lt hi), Nat.div_eq_of_lt hi, Nat.add_zero,
    Nat.mul_add_mod, Nat.mod_eq_of_lt hi]

theorem ext_byte (hsome : ∀ k, (f k).isSome = (g k).isSome)
    (hbyte : ∀ p, f.byte p = g.byte p) : f = g := by
  funext k
  have hblock : f.block k = g.block k := by
    refine Bytes.ext_get fun i hi => ?_
    rw [← byte_block f k hi, ← byte_block g k hi]
    exact hbyte _
  rw [block, block] at hblock
  have hk := hsome k
  cases hf : f k with
  | none =>
    rw [hf] at hk
    exact (Option.isNone_iff_eq_none.mp (Option.isSome_eq_false_iff.mp hk.symm)).symm
  | some b =>
    rw [hf] at hk hblock
    obtain ⟨c, hc⟩ := Option.isSome_iff_exists.mp hk.symm
    rw [hc] at hblock ⊢
    exact congrArg some hblock

/-! ### Making a block present -/

theorem block_touch (f : Sparse B) (k j : ℕ) : (f.touch k).block j = f.block j := by
  rw [block, touch]
  by_cases hj : j = k
  · rw [hj, Function.update_self, Option.getD_some]
  · rw [Function.update_of_ne hj, block]

theorem byte_touch (f : Sparse B) (k p : ℕ) : (f.touch k).byte p = f.byte p := by
  rw [byte, block_touch, byte]

theorem isSome_touch (f : Sparse B) (k j : ℕ) :
    ((f.touch k) j).isSome = ((f j).isSome || decide (j = k)) := by
  rw [touch]
  by_cases hj : j = k
  · rw [hj, Function.update_self, decide_eq_true rfl, Bool.or_true, Option.isSome_some]
  · rw [Function.update_of_ne hj, decide_eq_false hj, Bool.or_false]

theorem touch_of_isSome (h : (f k).isSome = true) : f.touch k = f := by
  obtain ⟨b, hb⟩ := Option.isSome_iff_exists.mp h
  rw [touch, block, hb, Option.getD_some, ← hb, Function.update_eq_self]

/-! ### Writing -/

theorem byte_put (hB : 0 < B) (f : Sparse B) (off p : ℕ) (data : List UInt8) :
    (f.put off data).byte p =
      if off ≤ p ∧ p < off + data.length then data.getD (p - off) 0 else f.byte p := by
  have hmod := Nat.mod_lt p hB
  have hp := Nat.div_add_mod p B
  generalize p / B = k at hp
  generalize p % B = i at hmod hp
  subst hp
  rw [byte_block _ _ hmod, byte_block _ _ hmod, block, put]
  by_cases hmeets : Meets B off data.length k
  · rw [if_pos hmeets, Option.getD_some, Bytes.get_ofFn _ hmod]
  · rw [if_neg hmeets, if_neg (fun h => hmeets ⟨by omega, by omega, by omega⟩), block]

theorem isSome_put (f : Sparse B) (off : ℕ) (data : List UInt8) (k : ℕ) :
    ((f.put off data) k).isSome = ((f k).isSome || decide (Meets B off data.length k)) := by
  rw [put]
  by_cases hmeets : Meets B off data.length k
  · rw [if_pos hmeets, decide_eq_true hmeets, Bool.or_true, Option.isSome_some]
  · rw [if_neg hmeets, decide_eq_false hmeets, Bool.or_false]

theorem not_meets_zero (off k : ℕ) : ¬Meets B off 0 k := fun h => Nat.lt_irrefl 0 h.1

@[simp] theorem put_nil (f : Sparse B) (off : ℕ) : f.put off [] = f :=
  funext fun k => if_neg (not_meets_zero off k)

theorem Meets.mono {m n : ℕ} (hmn : m ≤ n) (h : Meets B off m k) : Meets B off n k :=
  ⟨Nat.lt_of_lt_of_le h.1 hmn, Nat.lt_of_lt_of_le h.2.1 (Nat.add_le_add_left hmn off), h.2.2⟩

theorem meets_add (hB : 0 < B) {m n : ℕ} :
    Meets B off (m + n) k ↔ Meets B off m k ∨ Meets B (off + m) n k := by
  rw [Meets, Meets, Meets]
  omega

/-- Writing one part after the other. -/
theorem put_append (hB : 0 < B) (f : Sparse B) (off : ℕ) (a b : List UInt8) :
    (f.put off a).put (off + a.length) b = f.put off (a ++ b) := by
  refine ext_byte (fun k => ?_) fun p => ?_
  · rw [isSome_put, isSome_put, isSome_put, List.length_append, Bool.or_assoc]
    congr 1
    rw [Bool.eq_iff_iff, Bool.or_eq_true, decide_eq_true_eq, decide_eq_true_eq, decide_eq_true_eq]
    exact (meets_add hB).symm
  · rw [byte_put hB, byte_put hB, byte_put hB, List.length_append]
    by_cases hb : off + a.length ≤ p ∧ p < off + a.length + b.length
    · rw [if_pos hb, if_pos (by omega), List.getD_append_right _ _ _ _ (by omega)]
      congr 1
      omega
    · rw [if_neg hb]
      by_cases ha : off ≤ p ∧ p < off + a.length
      · rw [if_pos ha, if_pos (by omega), List.getD_append _ _ _ _ (by omega)]
      · rw [if_neg ha, if_neg (by omega)]

/-- A range inside block `k` meets that block alone. -/
theorem meets_block {skip len : ℕ} (hlen : 0 < len) (hfit : skip + len ≤ B) (j : ℕ) :
    Meets B (B * k + skip) len j ↔ j = k := by
  constructor
  · rintro ⟨-, h1, h2⟩
    have hj : j < k + 1 := by
      refine Nat.lt_of_mul_lt_mul_left (a := B) ?_
      rw [Nat.mul_add, Nat.mul_one]
      omega
    have hk : k < j + 1 := by
      refine Nat.lt_of_mul_lt_mul_left (a := B) ?_
      rw [Nat.mul_add, Nat.mul_one]
      omega
    omega
  · rintro rfl
    exact ⟨hlen, by omega, by omega⟩

/-- A write inside one block changes that block alone. -/
theorem put_block {skip : ℕ} (hdata : data ≠ []) (hfit : skip + data.length ≤ B) {c : Bytes B}
    (hc : ∀ i < B, c.get i =
      if skip ≤ i ∧ i < skip + data.length then data.getD (i - skip) 0 else (f.block k).get i) :
    f.put (B * k + skip) data = Function.update f k (some c) := by
  funext j
  rw [put]
  by_cases hj : j = k
  · subst hj
    rw [if_pos ((meets_block (List.length_pos_iff.mpr hdata) hfit j).mpr rfl), Function.update_self]
    congr 1
    refine Bytes.ext_get fun i hi => ?_
    rw [Bytes.get_ofFn _ hi, hc i hi]
    by_cases hin : skip ≤ i ∧ i < skip + data.length
    · rw [if_pos hin, if_pos (by omega)]
      congr 1
      omega
    · rw [if_neg hin, if_neg (by omega)]
  · rw [if_neg (fun h => hj ((meets_block (List.length_pos_iff.mpr hdata) hfit j).mp h)),
      Function.update_of_ne hj]

/-- A block that is written to need not be made present before. -/
theorem put_touch (hB : 0 < B) (h : Meets B off data.length k) :
    (f.touch k).put off data = f.put off data := by
  refine ext_byte (fun j => ?_) fun p => ?_
  · rw [isSome_put, isSome_put, isSome_touch]
    by_cases hj : j = k
    · rw [hj, decide_eq_true h, Bool.or_true, Bool.or_true]
    · rw [decide_eq_false hj, Bool.or_false]
  · rw [byte_put hB, byte_put hB, byte_touch]

/-! ### Reading -/

@[simp] theorem length_read (f : Sparse B) (off len : ℕ) : (f.read off len).length = len := by
  rw [read, List.length_map, List.length_range]

@[simp] theorem read_zero (f : Sparse B) (off : ℕ) : f.read off 0 = [] := rfl

/-- Reading one part after the other. -/
theorem read_add (f : Sparse B) (off m n : ℕ) :
    f.read off (m + n) = f.read off m ++ f.read (off + m) n := by
  rw [read, read, read, List.range_add, List.map_append, List.map_map]
  congr 1
  refine List.map_congr_left fun i _ => ?_
  rw [Function.comp_apply, Nat.add_assoc]

/-- Reading inside one block. -/
theorem read_block (f : Sparse B) (k : ℕ) {skip len : ℕ} (hfit : skip + len ≤ B) :
    f.read (B * k + skip) len = ((List.ofFn (f.block k)).drop skip).take len := by
  refine List.ext_getElem ?_ fun i h1 h2 => ?_
  · rw [length_read, List.length_take, List.length_drop, List.length_ofFn]
    omega
  · rw [length_read] at h1
    have hi : skip + i < B := by omega
    rw [List.getElem_take, List.getElem_drop, List.getElem_ofFn]
    simp only [read, List.getElem_map, List.getElem_range]
    rw [Nat.add_assoc, byte_block _ _ hi, Bytes.get_of_lt _ hi]

theorem take_read (f : Sparse B) (off : ℕ) {c len : ℕ} (h : c ≤ len) :
    (f.read off len).take c = f.read off c := by
  obtain ⟨n, rfl⟩ := Nat.exists_eq_add_of_le h
  rw [read_add, List.take_left' (length_read _ _ _)]

end Sparse

end Os161
