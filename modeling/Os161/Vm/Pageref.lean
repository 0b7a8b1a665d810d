import Os161.Vm.Kmalloc
import Mathlib.Data.Finset.Card
import Mathlib.Data.Finset.Range
import Mathlib.Tactic.IntervalCases

/-!
# The pagerefs in use

`allocpageref` and `freepageref` on the bit maps of the roots. The invariant is `Counted`: the
number a root keeps is the number of its bits that are set. With it `allocpageref` finds a clear bit
whenever its test of the number lets it look for one, so the `KASSERT(0)` after the search is not
reached.

## Main results

* `allocpageref_spec` — it takes a pageref that is not in use, or all are
* `freepageref_spec` — it finds the root a pageref belongs to
-/

namespace Os161

namespace Kmalloc

@[simp] theorem kassert_pos {c : Prop} [Decidable c] {e : Trap} (h : c) :
    kassert c e = .ok () := if_pos h

@[simp] theorem ok_bind {α β : Type} (a : α) (f : α → Except Trap β) :
    (Except.ok a >>= f) = f a := rfl

theorem sub32_of_le {a b : ℕ} (h : b ≤ a) (ha : a < 2 ^ 32) : sub32 a b = a - b := by
  unfold sub32
  omega

/-- `numinuse` is the number of bits set. -/
def KheapRoot.Counted (root : KheapRoot) : Prop :=
  root.numinuse = ((Finset.range npagerefsPerPage).filter fun b => root.inuse b = true).card

theorem KheapRoot.inuse_take (root : KheapRoot) (b b' : ℕ) :
    (root.take b).inuse b' = (decide (b' = b) || root.inuse b') := by
  unfold inuse take
  simp only [Function.update_apply]
  by_cases hw : b' / 32 = b / 32
  · rw [if_pos hw, BitVec.getLsbD_or, hw, BitVec.getLsbD_shiftLeft, BitVec.getLsbD_one]
    have hb : b' % 32 < 32 := Nat.mod_lt _ (by decide)
    by_cases hbb : b' = b
    · subst hbb
      simp [hb]
    · have hne : b' % 32 ≠ b % 32 := fun hm => hbb (by omega)
      by_cases hlt : b' % 32 < b % 32
      · simp [hbb, hlt]
      · have : b' % 32 - b % 32 ≠ 0 := by omega
        simp [hbb, this]
  · have hbb : b' ≠ b := fun h => hw (by rw [h])
    simp [hw, hbb]

theorem KheapRoot.inuse_drop (root : KheapRoot) (b b' : ℕ) :
    (root.drop b).inuse b' = (!decide (b' = b) && root.inuse b') := by
  unfold inuse drop
  simp only [Function.update_apply]
  have hb : b' % 32 < 32 := Nat.mod_lt _ (by decide)
  by_cases hw : b' / 32 = b / 32
  · rw [if_pos hw, BitVec.getLsbD_and, BitVec.getLsbD_not, hw, BitVec.getLsbD_shiftLeft,
      BitVec.getLsbD_one]
    by_cases hbb : b' = b
    · subst hbb
      simp [hb]
    · have hne : b' % 32 ≠ b % 32 := fun hm => hbb (by omega)
      by_cases hlt : b' % 32 < b % 32
      · simp [hbb, hlt, hb]
      · have : b' % 32 - b % 32 ≠ 0 := by omega
        simp [hbb, this, hb]
  · have hbb : b' ≠ b := fun h => hw (by rw [h])
    simp [hw, hbb]

theorem KheapRoot.Counted.take {root : KheapRoot} {b : ℕ} (h : root.Counted)
    (hb : b < npagerefsPerPage) (hc : root.inuse b = false) : (root.take b).Counted := by
  have hset : ((Finset.range npagerefsPerPage).filter fun b' => (root.take b).inuse b' = true) =
      insert b ((Finset.range npagerefsPerPage).filter fun b' => root.inuse b' = true) := by
    ext b'
    simp only [Finset.mem_filter, Finset.mem_insert, inuse_take, Bool.or_eq_true,
      decide_eq_true_eq, Finset.mem_range]
    constructor
    · rintro ⟨hlt, hbb | hin⟩
      · exact .inl hbb
      · exact .inr ⟨hlt, hin⟩
    · rintro (rfl | ⟨hlt, hin⟩)
      · exact ⟨hb, .inl rfl⟩
      · exact ⟨hlt, .inr hin⟩
  unfold Counted
  rw [hset, Finset.card_insert_of_notMem (by simp [hc]), ← h]
  rfl

theorem KheapRoot.Counted.drop {root : KheapRoot} {b : ℕ} (h : root.Counted)
    (hb : b < npagerefsPerPage) (hs : root.inuse b = true) : (root.drop b).Counted := by
  have hset : ((Finset.range npagerefsPerPage).filter fun b' => (root.drop b).inuse b' = true) =
      ((Finset.range npagerefsPerPage).filter fun b' => root.inuse b' = true).erase b := by
    ext b'
    simp only [Finset.mem_filter, Finset.mem_erase, inuse_drop, Bool.and_eq_true,
      Bool.not_eq_true', decide_eq_false_iff_not, Finset.mem_range]
    constructor
    · rintro ⟨hlt, hbb, hin⟩
      exact ⟨hbb, hlt, hin⟩
    · rintro ⟨hbb, hlt, hin⟩
      exact ⟨hlt, hbb, hin⟩
  unfold Counted
  rw [hset, Finset.card_erase_of_mem (by simp [hb, hs]), ← h]
  rfl

theorem KheapRoot.Counted.pos {root : KheapRoot} {b : ℕ} (h : root.Counted)
    (hb : b < npagerefsPerPage) (hs : root.inuse b = true) : 0 < root.numinuse := by
  rw [h]
  exact Finset.card_pos.mpr ⟨b, by simp [hb, hs]⟩

/-- A root that has not counted all of its pagerefs has one that is not in use. -/
theorem KheapRoot.Counted.exists_clear {root : KheapRoot} (h : root.Counted)
    (hn : root.numinuse < npagerefsPerPage) : ∃ b < npagerefsPerPage, root.inuse b = false := by
  by_contra hall
  push Not at hall
  have hset : ((Finset.range npagerefsPerPage).filter fun b => root.inuse b = true) =
      Finset.range npagerefsPerPage := by
    refine Finset.filter_true_of_mem fun b hb => ?_
    simpa using hall b (Finset.mem_range.mp hb)
  rw [h, hset, Finset.card_range] at hn
  exact lt_irrefl _ hn

/-- A word other than `0xffffffff` has a clear bit. -/
theorem clearBit_of_ne {w : BitVec 32} (h : w ≠ 0xffffffff) :
    ∃ j < 32, clearBit w = some j ∧ w.getLsbD j = false := by
  unfold clearBit
  cases hf : (List.range 32).find? fun j => !w.getLsbD j with
  | some j =>
    have hj : j < 32 := List.mem_range.mp (List.mem_of_find?_eq_some hf)
    exact ⟨j, hj, rfl, by simpa using List.find?_some hf⟩
  | none =>
    refine absurd (BitVec.eq_of_getLsbD_eq fun j hj => ?_) h
    have := List.find?_eq_none.mp hf j (List.mem_range.mpr hj)
    have hw : w.getLsbD j = true := by simpa using this
    rw [hw, show (0xffffffff : BitVec 32) = BitVec.allOnes 32 from rfl, BitVec.getLsbD_allOnes]
    simpa using hj

theorem KheapRoot.findClear_spec {root : KheapRoot} {b : ℕ} (hb : b < npagerefsPerPage)
    (hc : root.inuse b = false) :
    ∃ b' < npagerefsPerPage, root.findClear = some (.ok b') ∧ root.inuse b' = false := by
  have hword : root.pagerefsInuse (b / 32) ≠ 0xffffffff := by
    intro hw
    have hlt : b % 32 < 32 := Nat.mod_lt _ (by decide)
    unfold inuse at hc
    rw [hw, show (0xffffffff : BitVec 32) = BitVec.allOnes 32 from rfl,
      BitVec.getLsbD_allOnes] at hc
    simp [hlt] at hc
  have hmem : b / 32 ∈ List.range (npagerefsPerPage / 32) := by
    unfold npagerefsPerPage at *
    exact List.mem_range.mpr (by omega)
  obtain ⟨j, hj, hcl, hget⟩ := clearBit_of_ne hword
  cases hf : root.findClear with
  | none =>
    have := List.findSome?_eq_none_iff.mp hf _ hmem
    rw [if_neg hword, hcl] at this
    simp at this
  | some x =>
    obtain ⟨i, hi, hx⟩ := List.exists_of_findSome?_eq_some hf
    have hw : root.pagerefsInuse i ≠ 0xffffffff := fun hw => by simp [hw] at hx
    obtain ⟨j', hj', hcl', hget'⟩ := clearBit_of_ne hw
    rw [if_neg hw, hcl'] at hx
    obtain rfl : Except.ok (i * 32 + j') = x := by simpa using hx
    have hi' : i < 8 := List.mem_range.mp hi
    refine ⟨i * 32 + j', by unfold npagerefsPerPage; omega, rfl, ?_⟩
    unfold inuse
    rw [show (i * 32 + j') / 32 = i by omega, show (i * 32 + j') % 32 = j' by omega]
    exact hget'

/-! ### The two functions -/

/-- Every root counts its bits. -/
def Counted (h : Heap) : Prop := ∀ r < numPagerefpages, (h.kheaproots r).Counted

theorem findSlot_spec {h : Heap} (hc : Counted h) :
    (findSlot h = none) ∨ ∃ r < numPagerefpages, ∃ b < npagerefsPerPage,
      findSlot h = some (.ok (r, b)) ∧ (h.kheaproots r).inuse b = false := by
  unfold findSlot
  cases hf : (List.range numPagerefpages).findSome? fun r =>
      if npagerefsPerPage ≤ (h.kheaproots r).numinuse then none
      else (h.kheaproots r).findClear.map fun found => found.map fun b => (r, b) with
  | none => exact .inl rfl
  | some x =>
    refine .inr ?_
    obtain ⟨r, hr, hx⟩ := List.exists_of_findSome?_eq_some hf
    have hr' : r < numPagerefpages := List.mem_range.mp hr
    by_cases hn : npagerefsPerPage ≤ (h.kheaproots r).numinuse
    · simp [hn] at hx
    · obtain ⟨b₀, hb₀, hc₀⟩ := (hc r hr').exists_clear (not_le.mp hn)
      obtain ⟨b, hb, hfc, hcb⟩ := KheapRoot.findClear_spec hb₀ hc₀
      rw [if_neg hn, hfc] at hx
      obtain rfl : Except.ok (r, b) = x := by simpa [Except.map] using hx
      exact ⟨r, hr', b, hb, rfl, hcb⟩

/-- `allocpageref` takes a pageref that is not in use, if there is one. -/
theorem allocpageref_spec {h : Heap} (hc : Counted h) :
    (allocpageref h = .ok (h, .ranOut)) ∨ ∃ r < numPagerefpages, ∃ b < npagerefsPerPage,
      (h.kheaproots r).inuse b = false ∧
      allocpageref h = .ok (h.setRoot r ((h.kheaproots r).take b),
        if (h.kheaproots r).page = 0 then .needsPage r b else .ready r b) := by
  rcases findSlot_spec hc with hf | ⟨r, hr, b, hb, hf, hcb⟩
  · exact .inl (by rw [allocpageref, hf])
  · refine .inr ⟨r, hr, b, hb, hcb, ?_⟩
    rw [allocpageref, hf]
    rfl

theorem Counted.setRoot {h : Heap} (hc : Counted h) (r : ℕ) {root : KheapRoot}
    (hroot : root.Counted) : Counted (h.setRoot r root) := by
  intro r' hr'
  by_cases hrr : r' = r
  · subst hrr
    simpa [Heap.setRoot] using hroot
  · simpa [Heap.setRoot, hrr] using hc r' hr'

/-- The pageref at `pr` is number `b` of root `r`. -/
def IsRef (h : Heap) (pr r b : ℕ) : Prop :=
  r < numPagerefpages ∧ b < npagerefsPerPage ∧ (h.kheaproots r).page ≠ 0 ∧ pr = h.refAddr r b

/-- The pageref pages are inside the address space and do not meet. -/
def Apart (h : Heap) : Prop :=
  (∀ r < numPagerefpages, (h.kheaproots r).page + pageSize < 2 ^ 32) ∧
    ∀ r < numPagerefpages, ∀ r' < numPagerefpages, r ≠ r' → (h.kheaproots r).page ≠ 0 →
      (h.kheaproots r').page ≠ 0 → (h.kheaproots r).page + pageSize ≤ (h.kheaproots r').page ∨
        (h.kheaproots r').page + pageSize ≤ (h.kheaproots r).page

/-- Which root the index computed from an address belongs to. -/
theorem index_lt_iff {h : Heap} (hap : Apart h) {pr r b r' : ℕ} (hpr : IsRef h pr r b)
    (hr' : r' < numPagerefpages) (hp : (h.kheaproots r').page ≠ 0) :
    sub32 pr (h.kheaproots r').page / sizeofPageref < npagerefsPerPage ↔ r' = r := by
  obtain ⟨hr, hb, hpage, rfl⟩ := hpr
  have hfit := hap.1 r hr
  have hfit' := hap.1 r' hr'
  unfold sub32 Heap.refAddr sizeofPageref npagerefsPerPage pageSize at *
  constructor
  · intro hlt
    by_contra hne
    have hsep := hap.2 r' hr' r hr hne hp hpage
    unfold pageSize at hsep
    omega
  · rintro rfl
    omega

theorem freeIn_spec {h : Heap} {pr r b : ℕ} (hap : Apart h) (hpr : IsRef h pr r b)
    (hc : Counted h) (hin : (h.kheaproots r).inuse b = true) (rs : List ℕ) (hmem : r ∈ rs)
    (hrs : ∀ r' ∈ rs, r' < numPagerefpages) :
    freeIn h pr rs = .ok (h.setRoot r ((h.kheaproots r).drop b)) ∨
      freeIn h pr rs = .error .rootInUse ∧
        ∃ r' < numPagerefpages, (h.kheaproots r').page = 0 ∧ (h.kheaproots r').numinuse ≠ 0 := by
  induction rs with
  | nil => simp at hmem
  | cons r' rs ih =>
    have hr' := hrs r' List.mem_cons_self
    have ihr := fun hne : r' ≠ r => ih ((List.mem_cons.mp hmem).resolve_left (Ne.symm hne))
      fun x hx => hrs x (List.mem_cons_of_mem _ hx)
    rw [freeIn]
    by_cases hp : (h.kheaproots r').page = 0
    · have hne : r' ≠ r := fun he => hpr.2.2.1 (he ▸ hp)
      by_cases hn : (h.kheaproots r').numinuse = 0
      · simpa [hp, hn] using ihr hne
      · exact .inr ⟨by simp only [hp, if_true, kassert, if_neg hn]; rfl, r', hr', hp, hn⟩
    · by_cases hrr : r' = r
      · left
        subst hrr
        have hidx : sub32 pr (h.kheaproots r').page / sizeofPageref = b := by
          obtain ⟨_, hb, _, rfl⟩ := hpr
          have hfit := hap.1 r' hr'
          unfold Heap.refAddr sizeofPageref npagerefsPerPage pageSize sub32 at *
          omega
        simp only [hp, if_false, hidx, if_pos hpr.2.1, kassert_pos hin,
          kassert_pos ((hc r' hr').pos hpr.2.1 hin), ok_bind]
        rfl
      · have hout := (index_lt_iff hap hpr hr' hp).not.mpr hrr
        simpa [hp, hout] using ihr hrr

/-- `freepageref` clears the bit of a pageref in use, unless a root without a page has a count. -/
theorem freepageref_spec {h : Heap} {pr r b : ℕ} (hap : Apart h) (hpr : IsRef h pr r b)
    (hc : Counted h) (hin : (h.kheaproots r).inuse b = true) :
    freepageref h pr = .ok (h.setRoot r ((h.kheaproots r).drop b)) ∨
      freepageref h pr = .error .rootInUse ∧
        ∃ r' < numPagerefpages, (h.kheaproots r').page = 0 ∧ (h.kheaproots r').numinuse ≠ 0 :=
  freeIn_spec hap hpr hc hin _ (List.mem_range.mpr hpr.1) fun _ hx => List.mem_range.mp hx

end Kmalloc

end Os161
