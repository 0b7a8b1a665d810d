import Os161.Kern.Bitmap
import Os161.Lib.Refinement
import Mathlib.Data.Set.Basic
import Mathlib.Order.Bounds.Basic

/-!
# A bitmap is a set of numbers

The numbers below `nbits` that are in use. `bitmap_alloc` adds the least number that is not in use.
It goes over the bytes that are full, and the bits after the last one are set so that it does not
find them.

How many bytes there are is computed with `unsigned` numbers. For the last seven values of `nbits`
the sum wraps around, and then there are no bytes.

## Main results

* `Bitmap.create_spec` — a new bitmap is empty
* `Bitmap.bitmap_refines_iff` — a bitmap is a set exactly if its bytes can be counted
-/

namespace Os161

namespace Bitmap

/-- The operations. -/
inductive Op where
  | alloc
  | mark (index : UInt32)
  | unmark (index : UInt32)
  | isset (index : UInt32)

/-- What an operation returns. -/
inductive Result where
  /-- `bitmap_alloc` has found a number. -/
  | index (index : UInt32)
  | enospc
  | done
  /-- Whether the result is not zero. -/
  | bit (isset : Bool)
  /-- A `KASSERT` has failed. -/
  | kassert

/-- One operation. -/
def apply (b : Bitmap) : Op → Bitmap × Result
  | .alloc =>
      match b.alloc with
      | .ok (index, b) => (b, .index index)
      | .error .enospc => (b, .enospc)
      | .error .kassert => (b, .kassert)
  | .mark index =>
      match b.mark index with
      | some b => (b, .done)
      | none => (b, .kassert)
  | .unmark index =>
      match b.unmark index with
      | some b => (b, .done)
      | none => (b, .kassert)
  | .isset index => (b, .bit (b.isset index))

/-- The numbers below `n` that are not in use. -/
def unused (n : ℕ) (s : Set ℕ) : Set ℕ := {i | i < n ∧ i ∉ s}

/-- A set of numbers below `n`. -/
def numbers (n : ℕ) : Spec (Set ℕ) Op Result where
  pre s
    | .alloc => True
    | .mark index => index.toNat < n ∧ index.toNat ∉ s
    | .unmark index => index.toNat < n ∧ index.toNat ∈ s
    | .isset index => index.toNat < n
  post s
    | .alloc, .index index => IsLeast (unused n s) index.toNat
    | .alloc, .enospc => unused n s = ∅
    | .mark _, .done => True
    | .unmark _, .done => True
    | .isset index, .bit isset => isset = true ↔ index.toNat ∈ s
    | _, _ => False
  next s
    | .alloc, .index index => insert index.toNat s
    | .mark index, _ => insert index.toNat s
    | .unmark index, _ => s \ {index.toNat}
    | _, _ => s

/-- The bits of `b` are the numbers in use, and the bits after them are set. -/
structure Represents (nbits : UInt32) (b : Bitmap) (s : Set ℕ) : Prop where
  size : b.nbits = nbits
  subset : ∀ i ∈ s, i < nbits.toNat
  mem : ∀ i < nbits.toNat, b.bit i = true ↔ i ∈ s
  padded : b.Padded

section

variable {nbits : UInt32} {b : Bitmap} {s : Set ℕ}

/-! ### A new bitmap -/

theorem testBit_foldl_mask {l : List ℕ} (hl : ∀ j ∈ l, j < 8) (w : UInt8) (k : ℕ) :
    (l.foldl (fun w j => w ||| mask j) w).toNat.testBit k =
      (w.toNat.testBit k || decide (k ∈ l)) := by
  induction l generalizing w with
  | nil => simp
  | cons j l ih =>
    rw [List.foldl_cons, ih fun i hi => hl i (List.mem_cons_of_mem _ hi),
      testBit_or_mask (hl j List.mem_cons_self), Bool.or_assoc]
    congr 1
    rw [← Bool.decide_or]
    exact decide_eq_decide.mpr (by rw [List.mem_cons, eq_comm])

/-- **A new bitmap** has no bit set, up to those at the end. -/
theorem create_spec (hn : nbits.toNat + 7 < 2 ^ 32) :
    ∃ b, create nbits = some b ∧ Represents nbits b ∅ := by
  have h8 : (8 : UInt32).toNat = 8 := rfl
  have hwords : (words nbits).toNat = (nbits.toNat + 7) / 8 :=
    toNat_words (b := ⟨nbits, fun _ => 0⟩) hn
  by_cases hdvd : nbits.toNat % 8 = 0
  · refine ⟨_, create_of_dvd hn hdvd, rfl, by simp, fun i _ => ?_, fun i hi hlt => ?_⟩
    · simp [bit]
    · rw [hwords] at hlt
      dsimp only at hi
      omega
  · have hlt : nbits / 8 < words nbits := by
      rw [UInt32.lt_iff_toNat_lt, hwords, UInt32.toNat_div, h8]
      omega
    have hix : (words nbits - 1).toNat = nbits.toNat / 8 := by
      have h1 : (1 : UInt32).toNat = 1 := rfl
      rw [UInt32.toNat_sub, hwords, h1]
      omega
    have hover : (nbits - (words nbits - 1) * 8).toNat = nbits.toNat % 8 := by
      have := nbits.toNat_lt
      rw [UInt32.toNat_sub, UInt32.toNat_mul, hix, h8]
      omega
    have hasserts : nbits / 8 = words nbits - 1 ∧ 0 < nbits - (words nbits - 1) * 8 ∧
        nbits - (words nbits - 1) * 8 < 8 := by
      refine ⟨UInt32.toNat_inj.mp ?_, UInt32.lt_iff_toNat_lt.mpr ?_, UInt32.lt_iff_toNat_lt.mpr ?_⟩
      · rw [UInt32.toNat_div, hix, h8]
      · rw [hover]
        exact Nat.pos_of_ne_zero hdvd
      · rw [hover, h8]
        omega
    rw [create, if_pos hlt]
    dsimp only
    rw [if_pos hasserts, hix, hover]
    refine ⟨_, rfl, ?_⟩
    -- the last byte has the bits from the end on
    have hbit : ∀ i, (⟨nbits, Function.update (fun _ => 0) (nbits.toNat / 8)
        ((List.range' (nbits.toNat % 8) (8 - nbits.toNat % 8)).foldl (fun w j => w ||| mask j) 0)⟩ :
          Bitmap).bit i = decide (i / 8 = nbits.toNat / 8 ∧ nbits.toNat % 8 ≤ i % 8) := by
      intro i
      have hmod : i % 8 < 8 := Nat.mod_lt _ (by omega)
      have hall : ∀ j ∈ List.range' (nbits.toNat % 8) (8 - nbits.toNat % 8), j < 8 := by
        intro j hj
        rw [List.mem_range'_1] at hj
        omega
      rw [bit]
      dsimp only
      by_cases hi : i / 8 = nbits.toNat / 8
      · rw [hi, Function.update_self, testBit_foldl_mask hall]
        have hzero : (0 : UInt8).toNat.testBit (i % 8) = false := Nat.zero_testBit _
        rw [hzero, Bool.false_or]
        refine decide_eq_decide.mpr ?_
        rw [List.mem_range'_1]
        omega
      · rw [Function.update_of_ne hi, decide_eq_false fun h => hi h.1]
        exact Nat.zero_testBit _
    refine ⟨rfl, by simp, fun i hi => ?_, fun i hi hlt => ?_⟩
    · rw [hbit, decide_eq_true_eq]
      have hnot : ¬(i / 8 = nbits.toNat / 8 ∧ nbits.toNat % 8 ≤ i % 8) := by omega
      simp [hnot]
    · dsimp only at hi hlt
      rw [hwords] at hlt
      rw [hbit, decide_eq_true_eq]
      omega

/-! ### One operation -/

theorem Padded.set (h : b.Padded) (index : UInt32) : (b.set index).Padded := fun i hi hlt => by
  rw [bit_set, h i hi hlt, Bool.true_or]

theorem Padded.unset (h : b.Padded) {index : UInt32} (hindex : index < b.nbits) :
    (b.unset index).Padded := fun i hi hlt => by
  have hne : i ≠ index.toNat := by
    have hindex : index.toNat < b.nbits.toNat := hindex
    have hi : b.nbits.toNat ≤ i := hi
    omega
  rw [bit_unset, h i hi hlt, decide_eq_true hne, Bool.true_and]

theorem Represents.set (h : Represents nbits b s) {index : UInt32} (hindex : index < nbits) :
    Represents nbits (b.set index) (insert index.toNat s) where
  size := h.size
  subset := by
    rintro i (rfl | hi)
    · exact hindex
    · exact h.subset i hi
  mem i hi := by
    rw [bit_set, Bool.or_eq_true, h.mem i hi, decide_eq_true_eq, Set.mem_insert_iff, or_comm]
  padded := h.padded.set index

theorem Represents.unset (h : Represents nbits b s) {index : UInt32} (hindex : index < nbits) :
    Represents nbits (b.unset index) (s \ {index.toNat}) where
  size := h.size
  subset i hi := h.subset i hi.1
  mem i hi := by
    rw [bit_unset, Bool.and_eq_true, h.mem i hi, decide_eq_true_eq, Set.mem_sdiff,
      Set.mem_singleton_iff]
  padded := h.padded.unset (by rwa [h.size])

/-- **One operation** does what it does to the set. -/
theorem apply_refines (hn : nbits.toNat + 7 < 2 ^ 32) (h : Represents nbits b s) {op : Op}
    (hpre : (numbers nbits.toNat).pre s op) :
    (numbers nbits.toNat).post s op (b.apply op).2 ∧
      Represents nbits (b.apply op).1 ((numbers nbits.toNat).next s op (b.apply op).2) := by
  obtain rfl := h.size
  cases op with
  | alloc =>
    rcases alloc_cases hn h.padded with ⟨halloc, hfull⟩ | ⟨index, halloc, hlt, hclear, hbelow⟩
    · rw [apply, halloc]
      refine ⟨?_, h⟩
      refine Set.eq_empty_iff_forall_notMem.mpr fun i hi => hi.2 ?_
      exact (h.mem i hi.1).mp (hfull i hi.1)
    · rw [apply, halloc]
      refine ⟨⟨⟨hlt, fun hmem => ?_⟩, fun i hi => ?_⟩, h.set hlt⟩
      · have hset : b.bit index.toNat = true := (h.mem _ hlt).mpr hmem
        rw [hclear] at hset
        cases hset
      · by_contra hnot
        exact hi.2 ((h.mem i hi.1).mp (hbelow i (Nat.not_le.mp hnot)))
  | mark index =>
    obtain ⟨hlt, hnot⟩ := hpre
    have hisset : b.isset index = false := by
      rw [isset_eq_bit]
      exact Bool.eq_false_of_not_eq_true fun hb => hnot ((h.mem _ hlt).mp hb)
    have hmark : b.mark index = some (b.set index) := if_pos ⟨hlt, hisset⟩
    rw [apply, hmark]
    exact ⟨trivial, h.set hlt⟩
  | unmark index =>
    obtain ⟨hlt, hmem⟩ := hpre
    have hisset : b.isset index = true := by
      rw [isset_eq_bit]
      exact (h.mem _ hlt).mpr hmem
    have hunmark : b.unmark index = some (b.unset index) := if_pos ⟨hlt, hisset⟩
    rw [apply, hunmark]
    exact ⟨trivial, h.unset hlt⟩
  | isset index =>
    refine ⟨?_, h⟩
    change b.isset index = true ↔ _
    rw [isset_eq_bit]
    exact h.mem _ hpre

end

/-! ### Sequences of operations -/

/-- A bitmap whose bytes cannot be counted has none. -/
theorem words_of_wrap {nbits : UInt32} (hn : ¬ nbits.toNat + 7 < 2 ^ 32) : words nbits = 0 := by
  have h8 : (8 : UInt32).toNat = 8 := rfl
  have h1 : (1 : UInt32).toNat = 1 := rfl
  have hlt := nbits.toNat_lt
  refine UInt32.toNat_inj.mp ?_
  rw [words, UInt32.toNat_div, UInt32.toNat_sub, UInt32.toNat_add, h8, h1]
  change _ = 0
  omega

/-- Then no number is found, though none is in use. -/
theorem not_conforms_of_wrap {nbits : UInt32} (hpos : 1 ≤ nbits)
    (hn : ¬ nbits.toNat + 7 < 2 ^ 32) : ¬ ∃ b, create nbits = some b ∧
      ∀ ops, Conforms apply (numbers nbits.toNat) (Represents nbits) b ∅ ops := by
  rintro ⟨b, -, hops⟩
  have hwords := words_of_wrap hn
  obtain ⟨hrep, hgo⟩ := hops [.alloc]
  have hfull : b.alloc = .error .enospc := by
    rw [alloc, hrep.size, hwords]
    rfl
  obtain ⟨hpost, -⟩ := hgo trivial
  rw [apply, hfull] at hpost
  have hempty : unused nbits.toNat ∅ = ∅ := hpost
  have hzero : 0 ∈ unused nbits.toNat ∅ := ⟨hpos, Set.notMem_empty 0⟩
  rw [hempty] at hzero
  exact hzero

/-- **A bitmap is a set.** The new bitmap is the empty set, and it goes on as a set through every
sequence of operations, if and only if rounding up the number of its bits does not wrap around. -/
theorem bitmap_refines_iff {nbits : UInt32} (hpos : 1 ≤ nbits) :
    (∃ b, create nbits = some b ∧
      ∀ ops, Conforms apply (numbers nbits.toNat) (Represents nbits) b ∅ ops) ↔
      nbits.toNat + 7 < 2 ^ 32 := by
  constructor
  · intro h
    by_contra hn
    exact not_conforms_of_wrap hpos hn h
  · intro hn
    obtain ⟨b, hb, hrep⟩ := create_spec hn
    exact ⟨b, hb, conforms_of_step (fun b s op h hpre => apply_refines hn h hpre) hrep⟩

/-- The size in the test of the kernel. -/
theorem bitmap_refines_iff_test : ∃ b, create 533 = some b ∧
    ∀ ops, Conforms apply (numbers 533) (Represents 533) b ∅ ops :=
  (bitmap_refines_iff (show (1 : UInt32) ≤ 533 by decide)).mpr (by decide)

/-- The largest number of bits. -/
theorem not_bitmap_refines : ¬ ∃ b, create 0xffffffff = some b ∧
    ∀ ops, Conforms apply (numbers 0xffffffff) (Represents 0xffffffff) b ∅ ops :=
  not_conforms_of_wrap (by decide) (by decide)

end Bitmap

end Os161
