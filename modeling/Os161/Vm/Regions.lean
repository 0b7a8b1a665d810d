import Os161.Vm.Dumbvm
import Mathlib.Data.List.Induction
import Mathlib.Order.Interval.Set.LinearOrder

/-!
# Defining regions

`as_define_region` of `kern/arch/mips/vm/dumbvm.c`, called with the addresses and sizes of an
executable, which may be any. Two things can go wrong. The length is rounded up modulo 2^32, so a
length close to 2^32 becomes one page at most. And a slot is free as long as its base is 0,
so a region that starts in page 0 is overwritten by the next one.

## Main definitions

* `Dumbvm.Faithful` — what a sequence of calls is expected to do
* `Dumbvm.Proper` — when it does

## Main results

* `Dumbvm.toNat_regionPages` — the number of pages, as a number
* `Dumbvm.define_faithful_iff`
-/

namespace Os161

namespace Dumbvm

open Ram (pageSize)

/-! ### The ranges recorded -/

/-- The two regions of an address space. -/
inductive Slot where
  | first
  | second
  deriving DecidableEq

/-- The base and the number of pages of a region. -/
structure Range where
  base : UInt32
  npages : UInt32
  deriving DecidableEq

/-- One past the last byte. -/
def Range.fin (g : Range) : ℕ := g.base.toNat + g.npages.toNat * 4096

/-- What is recorded of a region. -/
def Addrspace.range (as : Addrspace) : Slot → Range
  | .first => ⟨as.asVbase1, as.asNpages1⟩
  | .second => ⟨as.asVbase2, as.asNpages2⟩

/-- Record a region. -/
def Addrspace.record (as : Addrspace) (slot : Slot) (g : Range) : Addrspace :=
  match slot with
  | .first => { as with asVbase1 := g.base, asNpages1 := g.npages }
  | .second => { as with asVbase2 := g.base, asNpages2 := g.npages }

/-- The slot `as_define_region` takes. -/
def Addrspace.free (as : Addrspace) : Option Slot :=
  if as.asVbase1 = 0 then some .first else if as.asVbase2 = 0 then some .second else none

/-- The arguments of a call of `as_define_region`. -/
structure Call where
  vaddr : UInt32
  sz : UInt32
  deriving DecidableEq

/-- The range `as_define_region` makes of its arguments. -/
def Call.range (c : Call) : Range := ⟨c.vaddr &&& pageFrame, regionPages c.vaddr c.sz⟩

/-- Call `as_define_region`. -/
def Call.run (c : Call) (as : Addrspace) : Option Stop × Addrspace := asDefineRegion as c.vaddr c.sz

/-- The calls of a list, one after another. -/
def defineAll (as : Addrspace) (calls : List Call) : Addrspace :=
  calls.foldl (fun as c => (c.run as).2) as

/-- The range is a part of the address space and has all the bytes of the call. -/
def Range.Covers (g : Range) (c : Call) : Prop :=
  Set.Ico c.vaddr.toNat (c.vaddr.toNat + c.sz.toNat) ⊆ Set.Ico g.base.toNat g.fin ∧ g.fin ≤ 2 ^ 32

/-- What a sequence of calls is expected to do. A call that returns 0 has recorded a range that
covers its arguments, in some slot, and after every later call that returns 0 the range is the same.
-/
def Faithful (as : Addrspace) (calls : List Call) : Prop :=
  ∀ pre c post, calls = pre ++ c :: post → ∀ as₁, c.run (defineAll as pre) = (none, as₁) →
    ∃ slot, (defineAll as pre).free = some slot ∧ (as₁.range slot).Covers c ∧
      ∀ mid d post', post = mid ++ d :: post' → (d.run (defineAll as₁ mid)).1 = none →
        (d.run (defineAll as₁ mid)).2.range slot = as₁.range slot

/-- The bytes of a call end in the address space, and rounding its length up does not wrap. -/
def Call.Fits (c : Call) : Prop :=
  c.vaddr.toNat + c.sz.toNat ≤ 2 ^ 32 ∧ c.vaddr.toNat % 4096 + c.sz.toNat + 4095 < 2 ^ 32

/-- The number of pages from address 0 to the last byte of a call. -/
def Call.pages (c : Call) : ℕ := (c.vaddr.toNat + c.sz.toNat + 4095) / 4096

/-- Every call that finds a free slot fits. If it is in page 0, all later calls are there too, and
ask for as many pages. -/
def Proper (as : Addrspace) (calls : List Call) : Prop :=
  ∀ pre c post, calls = pre ++ c :: post → (defineAll as pre).free ≠ none →
    c.Fits ∧ (c.vaddr.toNat < 4096 → ∀ d ∈ post, d.vaddr.toNat < 4096 ∧ d.pages = c.pages)

/-! ### The arithmetic -/

theorem toNat_and_pageFrame (x : UInt32) : (x &&& pageFrame).toNat = x.toNat / 4096 * 4096 := by
  rw [UInt32.toNat_and]
  refine Nat.eq_of_testBit_eq fun i => ?_
  rw [Nat.testBit_and, show x.toNat / 4096 * 4096 = (x.toNat >>> 12) <<< 12 by
    rw [Nat.shiftLeft_eq, Nat.shiftRight_eq_div_pow], Nat.testBit_shiftLeft, Nat.testBit_shiftRight]
  by_cases hi : i < 32
  · rw [testBit_pageFrame hi]
    by_cases hlow : 12 ≤ i
    · simp [hlow]
    · simp [hlow]
  · have hz : x.toNat.testBit i = false :=
      Nat.testBit_lt_two_pow (x.toNat_lt.trans_le (Nat.pow_le_pow_right (by decide) (not_lt.mp hi)))
    have hlow : 12 ≤ i := by omega
    simp [hz, hlow]

theorem toNat_and_not_pageFrame (x : UInt32) : (x &&& ~~~pageFrame).toNat = x.toNat % 4096 := by
  rw [UInt32.toNat_and, show (~~~pageFrame).toNat = 2 ^ 12 - 1 by decide,
    Nat.and_two_pow_sub_one_eq_mod]

/-- Both roundings are done modulo 2^32. -/
theorem toNat_regionPages (vaddr sz : UInt32) :
    (regionPages vaddr sz).toNat = (vaddr.toNat % 4096 + sz.toNat + 4095) % 2 ^ 32 / 4096 := by
  unfold regionPages
  dsimp only
  rw [UInt32.toNat_div, toNat_and_pageFrame, show pageSize.toNat = 4096 from rfl,
    Nat.mul_div_cancel _ (by decide), UInt32.toNat_sub, UInt32.toNat_add, UInt32.toNat_add,
    toNat_and_not_pageFrame, show pageSize.toNat = 4096 from rfl,
    show (1 : UInt32).toNat = 1 from rfl]
  omega

theorem Call.toNat_base (c : Call) : c.range.base.toNat = c.vaddr.toNat / 4096 * 4096 :=
  toNat_and_pageFrame c.vaddr

theorem Call.toNat_npages (c : Call) :
    c.range.npages.toNat = (c.vaddr.toNat % 4096 + c.sz.toNat + 4095) % 2 ^ 32 / 4096 :=
  toNat_regionPages c.vaddr c.sz

/-- The range made of a call covers it exactly if the call fits. -/
theorem Call.covers_iff (c : Call) : c.range.Covers c ↔ c.Fits := by
  unfold Range.Covers Range.fin Call.Fits
  rw [c.toNat_base, c.toNat_npages]
  have hv := c.vaddr.toNat_lt
  have hs := c.sz.toNat_lt
  generalize c.vaddr.toNat = v at *
  generalize c.sz.toNat = s at *
  constructor
  · rintro ⟨hsub, hfin⟩
    rcases Nat.eq_zero_or_pos s with rfl | hpos
    · omega
    · rw [Set.Ico_subset_Ico_iff (by omega)] at hsub
      omega
  · rintro ⟨hend, hround⟩
    rw [Nat.mod_eq_of_lt hround]
    exact ⟨Set.Ico_subset_Ico (by omega) (by omega), by omega⟩

theorem Call.base_eq_zero_iff (c : Call) : c.range.base = 0 ↔ c.vaddr.toNat < 4096 := by
  rw [← UInt32.toNat_inj, c.toNat_base, UInt32.toNat_zero]
  omega

/-- In page 0 the number of pages decides the range. -/
theorem Call.range_eq_iff {c d : Call} (hc : c.Fits) (hd : d.Fits) (hzero : c.vaddr.toNat < 4096) :
    d.range = c.range ↔ d.vaddr.toNat < 4096 ∧ d.pages = c.pages := by
  have hbase : d.range = c.range ↔
      d.range.base = c.range.base ∧ d.range.npages = c.range.npages := by
    cases d.range
    cases c.range
    exact Range.mk.injEq .. ▸ Iff.rfl
  have hmod : ∀ x : Call, x.vaddr.toNat < 4096 → x.Fits → x.range.npages.toNat = x.pages := by
    intro x hx hfits
    rw [x.toNat_npages, Nat.mod_eq_of_lt hx, Nat.mod_eq_of_lt]
    · rfl
    · have := hfits.2
      rwa [Nat.mod_eq_of_lt hx] at this
  rw [hbase, c.base_eq_zero_iff.mpr hzero, d.base_eq_zero_iff]
  refine and_congr_right fun hd0 => ?_
  rw [← UInt32.toNat_inj, hmod d hd0 hd, hmod c hzero hc]

/-! ### One call -/

theorem Call.run_eq (c : Call) (as : Addrspace) : c.run as = match as.free with
    | some slot => (none, as.record slot c.range)
    | none => (some (.errno .enosys), as) := by
  unfold Call.run asDefineRegion Addrspace.free
  by_cases h1 : as.asVbase1 = 0
  · simp only [h1, if_true]
    rfl
  · by_cases h2 : as.asVbase2 = 0
    · simp only [h1, h2, if_true, if_false]
      rfl
    · simp only [h1, h2, if_false]

theorem Call.run_of_free {as : Addrspace} {slot : Slot} (h : as.free = some slot) (c : Call) :
    c.run as = (none, as.record slot c.range) := by
  rw [c.run_eq, h]

theorem Call.free_of_run {c : Call} {as : Addrspace} (h : (c.run as).1 = none) :
    ∃ slot, as.free = some slot ∧ (c.run as).2 = as.record slot c.range := by
  rw [c.run_eq] at h ⊢
  cases hfree : as.free with
  | none => simp [hfree] at h
  | some slot => exact ⟨slot, rfl, rfl⟩

@[simp] theorem Addrspace.range_record_self (as : Addrspace) (slot : Slot) (g : Range) :
    (as.record slot g).range slot = g := by
  cases slot <;> rfl

theorem Addrspace.range_record_of_ne (as : Addrspace) {slot slot' : Slot} (h : slot' ≠ slot)
    (g : Range) : (as.record slot g).range slot' = as.range slot' := by
  cases slot <;> cases slot' <;> first | rfl | exact absurd rfl h

theorem Addrspace.record_range (as : Addrspace) (slot : Slot) :
    as.record slot (as.range slot) = as := by
  cases slot <;> rfl

theorem Addrspace.base_of_free {as : Addrspace} {slot : Slot} (h : as.free = some slot) :
    (as.range slot).base = 0 := by
  unfold Addrspace.free at h
  split at h
  · next h1 =>
    cases h
    exact h1
  · split at h
    · next h2 =>
      cases h
      exact h2
    · exact nomatch h

/-- A slot that is filled with base 0 stays the one that is taken. -/
theorem Addrspace.free_record {as : Addrspace} {slot : Slot} (h : as.free = some slot) {g : Range}
    (hg : g.base = 0) : (as.record slot g).free = some slot := by
  unfold Addrspace.free at h
  split at h
  · cases h
    exact if_pos hg
  · next h1 =>
    split at h
    · cases h
      exact (if_neg h1).trans (if_pos hg)
    · exact nomatch h

/-- A range with another base stays. -/
theorem Call.range_kept (c : Call) {as : Addrspace} {slot : Slot} (h : (as.range slot).base ≠ 0) :
    (c.run as).2.range slot = as.range slot := by
  rw [c.run_eq]
  cases hfree : as.free with
  | none => rfl
  | some slot' =>
    have hne : slot ≠ slot' := by
      rintro rfl
      exact h (Addrspace.base_of_free hfree)
    exact as.range_record_of_ne hne _

/-! ### Sequences of calls -/

theorem defineAll_cons (as : Addrspace) (c : Call) (calls : List Call) :
    defineAll as (c :: calls) = defineAll (c.run as).2 calls := rfl

theorem defineAll_append (as : Addrspace) (l l' : List Call) :
    defineAll as (l ++ l') = defineAll (defineAll as l) l' := List.foldl_append ..

theorem range_defineAll {as : Addrspace} {slot : Slot} (h : (as.range slot).base ≠ 0)
    (calls : List Call) : (defineAll as calls).range slot = as.range slot := by
  induction calls generalizing as with
  | nil => rfl
  | cons c calls ih =>
    have hkept := c.range_kept h
    rw [defineAll_cons, ih (hkept ▸ h), hkept]

/-- Calls that record what is there already do nothing. -/
theorem defineAll_eq_self {as : Addrspace} {slot : Slot} (hfree : as.free = some slot)
    {calls : List Call} (h : ∀ d ∈ calls, d.range = as.range slot) : defineAll as calls = as := by
  induction calls with
  | nil => rfl
  | cons d calls ih =>
    rw [defineAll_cons, Call.run_of_free hfree, h d List.mem_cons_self, as.record_range]
    exact ih fun e he => h e (List.mem_cons_of_mem _ he)

/-- What holds of each element if it holds of those before it holds of all. -/
theorem forall_of_before {α : Type} {P : α → Prop} {l : List α}
    (h : ∀ before x after, l = before ++ x :: after → (∀ y ∈ before, P y) → P x) :
    ∀ x ∈ l, P x := by
  induction l using List.reverseRecOn with
  | nil => exact fun x hx => nomatch hx
  | append_singleton l x ih =>
    have hl : ∀ y ∈ l, P y := by
      refine ih fun before y after hl => h before y (after ++ [x]) ?_
      rw [hl, List.append_assoc]
      rfl
    intro y hy
    rcases List.mem_append.mp hy with hmem | hlast
    · exact hl y hmem
    · rw [List.mem_singleton.mp hlast]
      exact h l x [] rfl hl

section Sequence

variable {as as₁ : Addrspace} {pre post : List Call} {c : Call} {slot : Slot}

/-- After a call in page 0, and others that record the same range, the state is the one it left. -/
theorem defineAll_same (hfree : (defineAll as pre).free = some slot) (hzero : c.range.base = 0)
    (mid : List Call) (hmid : ∀ d ∈ mid, d.range = c.range) :
    defineAll ((defineAll as pre).record slot c.range) mid =
        (defineAll as pre).record slot c.range ∧
      defineAll as (pre ++ c :: mid) = (defineAll as pre).record slot c.range ∧
      ((defineAll as pre).record slot c.range).free = some slot := by
  have hfree₁ := Addrspace.free_record hfree hzero
  have hself : defineAll ((defineAll as pre).record slot c.range) mid =
      (defineAll as pre).record slot c.range :=
    defineAll_eq_self hfree₁ fun d hd => (hmid d hd).trans (Addrspace.range_record_self _ _ _).symm
  refine ⟨hself, ?_, hfree₁⟩
  rw [defineAll_append, defineAll_cons, Call.run_of_free hfree]
  exact hself

theorem Faithful.fits (h : Faithful as (pre ++ c :: post))
    (hfree : (defineAll as pre).free = some slot) : c.Fits := by
  obtain ⟨slot', hslot', hcovers, -⟩ := h pre c post rfl _ (Call.run_of_free hfree c)
  obtain rfl : slot = slot' := Option.some.inj (hfree.symm.trans hslot')
  rw [Addrspace.range_record_self] at hcovers
  exact c.covers_iff.mp hcovers

/-- After a call in page 0 the later ones have to record the same range. -/
theorem Faithful.same (h : Faithful as (pre ++ c :: post))
    (hfree : (defineAll as pre).free = some slot) (hzero : c.range.base = 0) :
    ∀ d ∈ post, d.range = c.range := by
  obtain ⟨slot', hslot', -, hlater⟩ := h pre c post rfl _ (Call.run_of_free hfree c)
  obtain rfl : slot = slot' := Option.some.inj (hfree.symm.trans hslot')
  refine forall_of_before fun mid d post' hpost hmid => ?_
  obtain ⟨hself, -, hfree₁⟩ := defineAll_same hfree hzero mid hmid
  have hnow := hlater mid d post' hpost
  rw [hself, Call.run_of_free hfree₁, Addrspace.range_record_self,
    Addrspace.range_record_self] at hnow
  exact hnow rfl

theorem Proper.same (h : Proper as (pre ++ c :: post))
    (hfree : (defineAll as pre).free = some slot) (hzero : c.vaddr.toNat < 4096) :
    ∀ d ∈ post, d.range = c.range := by
  obtain ⟨hfits, hlater⟩ := h pre c post rfl (hfree ▸ Option.some_ne_none slot)
  refine forall_of_before fun mid d post' hpost hmid => ?_
  obtain ⟨-, hstate, hfree₁⟩ := defineAll_same hfree (c.base_eq_zero_iff.mpr hzero) mid hmid
  have hd : d.Fits := by
    refine (h (pre ++ c :: mid) d post' ?_ ?_).1
    · rw [hpost, List.append_assoc]
      rfl
    · rw [hstate, hfree₁]
      exact Option.some_ne_none slot
  refine (Call.range_eq_iff hfits hd hzero).mpr (hlater hzero d ?_)
  rw [hpost]
  exact List.mem_append_right mid List.mem_cons_self

end Sequence

/-- **Regions are recorded faithfully** by a sequence of calls if and only if every call that finds
a slot fits, and none follows one in page 0 except for the same range. -/
theorem define_faithful_iff (as : Addrspace) (calls : List Call) :
    Faithful as calls ↔ Proper as calls := by
  constructor
  · rintro h pre c post rfl hfree
    obtain ⟨slot, hslot⟩ := Option.ne_none_iff_exists'.mp hfree
    refine ⟨h.fits hslot, fun hzero d hd => ?_⟩
    have hsame := h.same hslot (c.base_eq_zero_iff.mpr hzero)
    obtain ⟨mid, post', rfl⟩ := List.append_of_mem hd
    obtain ⟨-, hstate, hfree₁⟩ := defineAll_same hslot (c.base_eq_zero_iff.mpr hzero)
      mid fun e he => hsame e (List.mem_append_left _ he)
    have hd : d.Fits := by
      have hrest : Faithful as ((pre ++ c :: mid) ++ d :: post') := by
        rwa [List.append_assoc]
      exact hrest.fits (hstate ▸ hfree₁)
    exact (Call.range_eq_iff (h.fits hslot) hd hzero).mp
      (hsame d (List.mem_append_right mid List.mem_cons_self))
  · rintro h pre c post rfl as₁ hrun
    obtain ⟨slot, hslot, hrecord⟩ := Call.free_of_run (congrArg Prod.fst hrun)
    obtain rfl : as₁ = (defineAll as pre).record slot c.range := by
      rw [← hrecord, hrun]
    have hfits := (h pre c post rfl (hslot ▸ Option.some_ne_none slot)).1
    refine ⟨slot, hslot, ?_, fun mid d post' hpost hd => ?_⟩
    · rw [Addrspace.range_record_self]
      exact c.covers_iff.mpr hfits
    · by_cases hzero : c.vaddr.toNat < 4096
      · -- the slot stays free, and is filled with the same range each time
        have hsame := h.same hslot hzero
        subst hpost
        obtain ⟨hself, -, hfree₁⟩ := defineAll_same hslot (c.base_eq_zero_iff.mpr hzero)
          mid fun e he => hsame e (List.mem_append_left _ he)
        rw [hself, Call.run_of_free hfree₁, Addrspace.range_record_self,
          Addrspace.range_record_self]
        exact hsame d (List.mem_append_right mid List.mem_cons_self)
      · have hbase : (((defineAll as pre).record slot c.range).range slot).base ≠ 0 := by
          rw [Addrspace.range_record_self]
          exact c.base_eq_zero_iff.not.mpr hzero
        have hmid := range_defineAll hbase mid
        rw [d.range_kept (hmid ▸ hbase), hmid]

/-- A region with a length close to 2^32 is recorded with no page at all. A region in page 0 is lost
when the next one is defined. -/
theorem not_define_faithful : ¬ Faithful asCreate [⟨0x400000, 0xffffffff⟩] ∧
    ¬ Faithful asCreate [⟨0, 4096⟩, ⟨0x400000, 4096⟩] := by
  constructor
  · intro h
    have hfree : (defineAll asCreate []).free = some .first := rfl
    have hfits : Call.Fits ⟨0x400000, 0xffffffff⟩ := Faithful.fits h hfree
    exact absurd hfits.1 (by decide)
  · intro h
    have hfree : (defineAll asCreate []).free = some .first := rfl
    have hsame := Faithful.same h hfree (by decide)
    exact absurd (hsame _ List.mem_cons_self) (by decide)

end Dumbvm

end Os161
