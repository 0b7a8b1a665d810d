import Os161.Vm.KmallocFrame
import Mathlib.Data.Set.Card

/-!
# Pagerefs that are lost

`allocpageref` sets the bit of a pageref and counts it before it is known that there is a page for
it. When `allocpagerefpage` gets no page, `allocpageref` returns `NULL` and the bit stays set.
Nobody has that pageref then, and nobody can give it back.

After 256 such failures a root has all of its pagerefs in use and no page, and `allocpageref` goes
on to the next root. A pageref of that next root cannot be given back any more: `freepageref`
asserts, of every root without a page that it comes by, that none of its pagerefs is in use.

## Main definitions

* `Kmalloc.allocpagerefAlone` — `allocpageref` with nobody in between
* `Kmalloc.TakesInVain` — the roots are such that a failing `alloc_kpages` loses a pageref
* `Kmalloc.Tame` — a step in which no pageref is lost, and no root is full of pagerefs that threads
  are still waiting to use

## Main results

* `Kmalloc.leads_alone` — a thread that is not interrupted does what `allocpagerefAlone` says
* `Kmalloc.pageref_failures_iff` — exactly when a failure is harmless, and that the assertion holds
  in runs without the others
-/

namespace Os161

namespace Kmalloc

variable {T : Type}

/-! ### One call, uninterrupted -/

/-- `allocpagerefpage`, if `alloc_kpages` answers `va` and nobody else comes in between. -/
def allocpagerefpage (h : Heap) (r va : ℕ) : Except Trap Heap := do
  kassert ((h.kheaproots r).page = 0) .pagePresent
  if va = 0 then return h
  else
    kassert (va % pageSize = 0) .refpageAlign
    return h.setRoot r { h.kheaproots r with page := va }

/-- `allocpageref`, if `alloc_kpages` answers `va` and nobody else comes in between: the pageref, or
`NULL`. -/
def allocpagerefAlone (h : Heap) (va : ℕ) : Except Trap (Heap × Option ℕ) := do
  let (h, slot) ← allocpageref h
  match slot with
  | .ranOut => return (h, none)
  | .ready r b => return (h, some (h.refAddr r b))
  | .needsPage r b =>
    let h ← allocpagerefpage h r va
    if (h.kheaproots r).page = 0 then return (h, none) else return (h, some (h.refAddr r b))

/-- If the call returns `NULL`, the bit maps and the counters are what they were. -/
def HarmlessFailure (h : Heap) (va : ℕ) : Prop :=
  ∀ h', allocpagerefAlone h va = .ok (h', none) → ∀ r < numPagerefpages,
    (h'.kheaproots r).pagerefsInuse = (h.kheaproots r).pagerefsInuse ∧
      (h'.kheaproots r).numinuse = (h.kheaproots r).numinuse

/-- A root `allocpageref` does not pass over. -/
def KheapRoot.HasRoom (root : KheapRoot) : Prop :=
  root.numinuse < npagerefsPerPage ∧ ∃ i < npagerefsPerPage / 32, root.pagerefsInuse i ≠ 0xffffffff

/-- `alloc_kpages` fails, and the first root with room has no page. -/
def TakesInVain (h : Heap) (va : ℕ) : Prop :=
  va = 0 ∧ ∃ r < numPagerefpages, (h.kheaproots r).HasRoom ∧ (h.kheaproots r).page = 0 ∧
    ∀ r' < r, ¬ (h.kheaproots r').HasRoom

/-- A search through the first numbers stops at the first that gives something. -/
theorem findSome_range {α : Type} {f : ℕ → Option α} {x : α} {n : ℕ} :
    (List.range n).findSome? f = some x ↔ ∃ k < n, f k = some x ∧ ∀ j < k, f j = none := by
  induction n with
  | zero => simp
  | succ n ih =>
    rw [List.range_succ, List.findSome?_append, Option.or_eq_some_iff, ih]
    constructor
    · rintro (⟨k, hk, hx, hbefore⟩ | ⟨hnone, hx⟩)
      · exact ⟨k, hk.trans (Nat.lt_succ_self n), hx, hbefore⟩
      · refine ⟨n, Nat.lt_succ_self n, by simpa using hx, fun j hj => ?_⟩
        exact List.findSome?_eq_none_iff.mp hnone j (List.mem_range.mpr hj)
    · rintro ⟨k, hk, hx, hbefore⟩
      rcases Nat.lt_succ_iff_lt_or_eq.mp hk with hlt | rfl
      · exact .inl ⟨k, hlt, hx, hbefore⟩
      · refine .inr ⟨List.findSome?_eq_none_iff.mpr fun j hj => ?_, by simpa using hx⟩
        exact hbefore j (List.mem_range.mp hj)

/-- The search in a root with room finds something. -/
theorem KheapRoot.findClear_isSome {root : KheapRoot} :
    (∃ i < npagerefsPerPage / 32, root.pagerefsInuse i ≠ 0xffffffff) ↔
      ∃ b, root.findClear = some (.ok b) := by
  constructor
  · rintro ⟨i, hi, hw⟩
    obtain ⟨j, hj, -, hclear⟩ := clearBit_of_ne hw
    have hin : root.inuse (i * 32 + j) = false := by
      unfold KheapRoot.inuse
      rw [show (i * 32 + j) / 32 = i by omega, show (i * 32 + j) % 32 = j by omega]
      exact hclear
    have hlt : i * 32 + j < npagerefsPerPage := by
      unfold npagerefsPerPage at *
      omega
    obtain ⟨b, -, hfind, -⟩ := KheapRoot.findClear_spec hlt hin
    exact ⟨b, hfind⟩
  · rintro ⟨b, hfind⟩
    obtain ⟨i, hi, hx, -⟩ := findSome_range.mp hfind
    refine ⟨i, hi, fun hw => ?_⟩
    rw [if_pos hw] at hx
    exact nomatch hx

/-- The search passes over a root without room. -/
theorem KheapRoot.findClear_eq_none {root : KheapRoot}
    (h : ¬ ∃ i < npagerefsPerPage / 32, root.pagerefsInuse i ≠ 0xffffffff) :
    root.findClear = none := by
  refine List.findSome?_eq_none_iff.mpr fun i hi => if_pos ?_
  by_contra hw
  exact h ⟨i, List.mem_range.mp hi, hw⟩

/-- `allocpageref` takes a pageref of the first root with room. -/
theorem findSlot_iff {h : Heap} {r : ℕ} :
    (∃ b, findSlot h = some (.ok (r, b))) ↔
      r < numPagerefpages ∧ (h.kheaproots r).HasRoom ∧ ∀ r' < r, ¬ (h.kheaproots r').HasRoom := by
  constructor
  · rintro ⟨b, hfind⟩
    obtain ⟨k, hk, hx, hbefore⟩ := findSome_range.mp hfind
    split at hx
    · exact nomatch hx
    · next hn =>
      obtain ⟨found, hfound, hmap⟩ := Option.map_eq_some_iff.mp hx
      cases found with
      | error e => exact nomatch hmap
      | ok b' =>
        obtain ⟨rfl, rfl⟩ := Prod.mk.inj (Except.ok.inj hmap)
        refine ⟨hk, ⟨not_le.mp hn, KheapRoot.findClear_isSome.mpr ⟨_, hfound⟩⟩, ?_⟩
        intro r' hr' hroom
        obtain ⟨b₁, hb₁⟩ := KheapRoot.findClear_isSome.mp hroom.2
        have := hbefore r' hr'
        rw [if_neg (not_le.mpr hroom.1), hb₁] at this
        exact nomatch this
  · rintro ⟨hr, hroom, hbefore⟩
    obtain ⟨b, hb⟩ := KheapRoot.findClear_isSome.mp hroom.2
    refine ⟨b, findSome_range.mpr ⟨r, hr, ?_, fun r' hr' => ?_⟩⟩
    · rw [if_neg (not_le.mpr hroom.1), hb]
      rfl
    · by_cases hn : npagerefsPerPage ≤ (h.kheaproots r').numinuse
      · exact if_pos hn
      · rw [if_neg hn, KheapRoot.findClear_eq_none fun hi => hbefore r' hr' ⟨not_le.mp hn, hi⟩]
        rfl

theorem setRoot_self (h : Heap) (r : ℕ) (root : KheapRoot) :
    (h.setRoot r root).kheaproots r = root :=
  Function.update_self _ _ _

/-- A pageref taken for a root without a page is lost if there is no page to be had. -/
theorem alone_inVain {h : Heap} {r b : ℕ} (hfind : findSlot h = some (.ok (r, b)))
    (hpage : (h.kheaproots r).page = 0) :
    allocpagerefAlone h 0 = .ok (h.setRoot r ((h.kheaproots r).take b), none) := by
  have htake : ((h.kheaproots r).take b).page = 0 := hpage
  rw [allocpagerefAlone, allocpageref, hfind]
  simp only [if_pos htake, ok_bind, allocpagerefpage, setRoot_self, kassert_pos htake, if_true]
  change (if ((h.setRoot r ((h.kheaproots r).take b)).kheaproots r).page = 0 then _ else _) = _
  rw [setRoot_self, if_pos htake]
  rfl

/-- A failure is harmless unless a pageref is taken in vain. -/
theorem harmlessFailure_iff (h : Heap) (va : ℕ) : HarmlessFailure h va ↔ ¬ TakesInVain h va := by
  constructor
  · rintro hharm ⟨rfl, r, hr, hroom, hpage, hbefore⟩
    obtain ⟨b, hfind⟩ := findSlot_iff.mpr ⟨hr, hroom, hbefore⟩
    have hrun := alone_inVain hfind hpage
    have hcount := (hharm _ hrun r hr).2
    rw [setRoot_self] at hcount
    exact Nat.succ_ne_self _ hcount
  · intro hvain h' hrun r _
    obtain ⟨⟨h₁, slot⟩, halloc, hrun⟩ := bind_eq_ok hrun
    unfold allocpageref at halloc
    split at halloc
    · cases halloc
      cases hrun
      exact ⟨rfl, rfl⟩
    · cases halloc
    · next r₀ b hfind =>
      obtain ⟨hheap, hslot⟩ := Prod.mk.inj (Except.ok.inj halloc)
      split at hslot
      · next hpage =>
        subst hslot
        obtain ⟨h₂, hgot, hrun⟩ := bind_eq_ok hrun
        obtain ⟨-, -, hgot⟩ := bind_eq_ok hgot
        split at hgot
        · next hva =>
          obtain ⟨hr, hroom, hbefore⟩ := findSlot_iff.mp ⟨b, hfind⟩
          exact absurd ⟨hva, r₀, hr, hroom, hpage, hbefore⟩ hvain
        · next hva =>
          obtain ⟨-, -, hgot⟩ := bind_eq_ok hgot
          cases hgot
          rw [setRoot_self, if_neg hva] at hrun
          cases hrun
      · subst hslot
        cases hrun

theorem kassert_ok {c : Prop} [Decidable c] {e : Trap} {u : Unit} (h : kassert c e = .ok u) :
    c := by
  by_contra hc
  rw [kassert, if_neg hc] at h
  cases h

variable [DecidableEq T] {s s' : State T} {t : T}

theorem goto_goto (s : State T) (t : T) (p q : Pc) : (s.goto t p).goto t q = s.goto t q := by
  unfold State.goto
  rw [Function.update_idem]

theorem leads_next {u : State T} (hask : s.asking t = none) (hpc : s.pc t ≠ .idle)
    (hnext : s.next t = .ok u) : (system T).step (.running s) (.run t 0) = some (.running u) := by
  simp only [system, State.step, hask, if_neg hpc, hnext, Option.map_some]

theorem leads_answer {u : State T} {n va : ℕ} {k : ℕ → State T → Except Trap (State T)}
    (hask : s.asking t = some (n, k)) (hva : va ≠ 0) (hgive : s.pager.MayGive ⟨va, n⟩)
    (hk : k va { s with pager := s.pager.give ⟨va, n⟩ } = .ok u) :
    (system T).step (.running s) (.run t va) = some (.running u) := by
  simp only [system, State.step, hask, if_neg hva, if_pos hgive, hk, Option.map_some]

/-- A thread that is not interrupted, and gets no page for pagerefs, leaves what `allocpagerefAlone`
says. -/
theorem leads_alone {sz blktype prpage : ℕ} {h' : Heap} (hpc : s.pc t = .havePage sz blktype prpage)
    (hal : prpage % pageSize = 0) (hrun : allocpagerefAlone s.heap 0 = .ok (h', none)) :
    Leads T (.running s) (.running ({ s with heap := h' }.goto t (.giveUp prpage))) := by
  have hask : s.asking t = none := by
    unfold State.asking
    rw [hpc]
  have hbusy : s.pc t ≠ .idle := by
    rw [hpc]
    exact Pc.noConfusion
  have hnext : s.next t = s.withPage t sz blktype prpage := by
    unfold State.next
    rw [hpc]
    simp only [kassert_pos hal, ok_bind]
  obtain ⟨⟨h₁, slot⟩, halloc, hrun⟩ := bind_eq_ok hrun
  cases slot with
  | ranOut =>
    cases hrun
    refine .single ⟨.run t 0, leads_next hask hbusy ?_⟩
    rw [hnext, State.withPage, halloc]
    rfl
  | ready r b => cases hrun
  | needsPage r b =>
    obtain ⟨h₂, hgot, hrun⟩ := bind_eq_ok hrun
    obtain ⟨_, hassert, hgot⟩ := bind_eq_ok hgot
    cases hgot
    have hpage : (h₁.kheaproots r).page = 0 := kassert_ok hassert
    rw [if_pos hpage] at hrun
    cases hrun
    -- the three steps: up to `alloc_kpages`, its answer, and the return of `NULL`
    have hstep₁ : (system T).step (.running s) (.run t 0) =
        some (.running ({ s with heap := h' }.goto t (.wantRefpage sz blktype prpage r b))) := by
      refine leads_next hask hbusy ?_
      rw [hnext, State.withPage, halloc]
      simp only [ok_bind, kassert_pos hpage]
      rfl
    have hstep₂ : (system T).step
        (.running ({ s with heap := h' }.goto t (.wantRefpage sz blktype prpage r b))) (.run t 0) =
        some (.running ({ s with heap := h' }.goto t (.gotRefpage sz blktype prpage r b 0))) := by
      simp only [system, State.step, State.asking, goto_self, if_true, goto_goto, Option.map_some]
    have hstep₃ : (system T).step
        (.running ({ s with heap := h' }.goto t (.gotRefpage sz blktype prpage r b 0))) (.run t 0) =
        some (.running ({ s with heap := h' }.goto t (.giveUp prpage))) := by
      refine leads_next ?_ ?_ ?_
      · simp only [State.asking, goto_self]
      · rw [goto_self]
        exact Pc.noConfusion
      · simp only [State.next, goto_self, State.withRefpage, if_true]
        rw [if_pos (show ((State.goto { s with heap := h' } t
          (.gotRefpage sz blktype prpage r b 0)).heap.kheaproots r).page = 0 from hpage)]
        simp only [goto_goto]
        rfl
    exact ((Relation.ReflTransGen.single ⟨_, hstep₁⟩).tail ⟨_, hstep₂⟩).tail ⟨_, hstep₃⟩

/-! ### Where `freepageref` stops -/

theorem kassert_error {c : Prop} [Decidable c] {e e' : Trap} (h : kassert c e = .error e') :
    e' = e := by
  unfold kassert at h
  split at h
  · exact nomatch h
  · exact (Except.error.inj h).symm

theorem bind_eq_error {α β : Type} {x : Except Trap α} {f : α → Except Trap β} {e : Trap}
    (h : (x >>= f) = .error e) : x = .error e ∨ ∃ a, x = .ok a ∧ f a = .error e := by
  cases x with
  | error e' =>
    have he : (.error e' : Except Trap β) = .error e := h
    exact .inl (congrArg _ (Except.error.inj he))
  | ok a => exact .inr ⟨a, rfl, h⟩

/-- The roots are looked at in order, so the one the assertion fails of comes before the one the
pageref belongs to. -/
theorem freeIn_stuck {h : Heap} {p r b : ℕ} (hap : Apart h) (hp : IsRef h p r b) {rs : List ℕ}
    (hsorted : rs.Pairwise (· < ·)) (hmem : r ∈ rs) (hrs : ∀ r' ∈ rs, r' < numPagerefpages)
    (hrun : freeIn h p rs = .error .rootInUse) :
    ∃ r' < r, (h.kheaproots r').page = 0 ∧ (h.kheaproots r').numinuse ≠ 0 := by
  induction rs with
  | nil => cases hmem
  | cons r₀ rs ih =>
    obtain ⟨hfirst, hsorted⟩ := List.pairwise_cons.mp hsorted
    have hnext : r₀ ≠ r → freeIn h p rs = .error .rootInUse →
        ∃ r' < r, (h.kheaproots r').page = 0 ∧ (h.kheaproots r').numinuse ≠ 0 := fun hne =>
      ih hsorted ((List.mem_cons.mp hmem).resolve_left (Ne.symm hne)) fun r' hr' =>
        hrs r' (List.mem_cons_of_mem _ hr')
    rw [freeIn] at hrun
    by_cases hpage : (h.kheaproots r₀).page = 0
    · have hne : r₀ ≠ r := fun he => hp.2.2.1 (he ▸ hpage)
      have hlt := hfirst r ((List.mem_cons.mp hmem).resolve_left (Ne.symm hne))
      rw [if_pos hpage] at hrun
      by_cases hnone : (h.kheaproots r₀).numinuse = 0
      · rw [kassert_pos hnone, ok_bind] at hrun
        exact hnext hne hrun
      · exact ⟨r₀, hlt, hpage, hnone⟩
    · rw [if_neg hpage] at hrun
      dsimp only at hrun
      split at hrun
      · rcases bind_eq_error hrun with he | ⟨_, -, hrun⟩
        · cases kassert_error he
        · rcases bind_eq_error hrun with he | ⟨_, -, hrun⟩
          · cases kassert_error he
          · cases hrun
      · next hout =>
        have hr₀ := hrs r₀ List.mem_cons_self
        exact hnext (fun he => hout ((index_lt_iff hap hp hr₀ hpage).mpr he)) hrun

theorem freeBlock_ne {h : Heap} {pr a : ℕ} : Kmalloc.freeBlock h pr a ≠ .error .rootInUse := by
  intro hrun
  rcases bind_eq_error hrun with he | ⟨_, -, hrun⟩
  · exact nomatch kassert_error he
  · rcases bind_eq_error hrun with he | ⟨_, -, hrun⟩
    · exact nomatch kassert_error he
    · rcases bind_eq_error hrun with he | ⟨_, -, hrun⟩
      · exact nomatch kassert_error he
      · exact nomatch hrun

theorem removeLists_ne {h : Heap} {pr blktype : ℕ} :
    removeLists h pr blktype ≠ .error .rootInUse := by
  intro hrun
  rcases bind_eq_error hrun with he | ⟨_, -, hrun⟩
  · exact nomatch kassert_error he
  · rcases bind_eq_error hrun with he | ⟨h₁, -, hrun⟩
    · unfold removeSamesize at he
      split at he <;> exact nomatch he
    · unfold removeAll at hrun
      split at hrun <;> exact nomatch hrun

/-- `kfree` stops at the assertion only if a root with a page comes after one that has pagerefs in
use and no page. -/
theorem Inv.kfree_stuck {all : List ℕ} {free : ℕ → List ℕ} (h : Inv s all free) {ptr : ℕ}
    (hrun : s.kfree t ptr = .error .rootInUse) : ∃ r < numPagerefpages,
      (s.heap.kheaproots r).page ≠ 0 ∧ ∃ r' < r, (s.heap.kheaproots r').page = 0 ∧
        (s.heap.kheaproots r').numinuse ≠ 0 := by
  unfold State.kfree at hrun
  split at hrun
  · cases hrun
  rcases bind_eq_error hrun with hrun | ⟨⟨h₁, freed⟩, -, hrun⟩
  swap
  · cases freed with
    | done => cases hrun
    | page prpage => cases hrun
    | notOurs =>
      rcases bind_eq_error hrun with he | ⟨_, -, hrun⟩
      · cases kassert_error he
      · cases hrun
  rcases findAddr_spec (a := ptr) h.blocks.lists h.length_lt
    (fun q hq => ⟨(h.blocks.page q hq).blocktype, (h.blocks.page q hq).fits⟩) with
    ⟨hfind, -⟩ | ⟨pr, hpr, -, -, hfind⟩
  · rw [subpageKfree, hfind] at hrun
    cases hrun
  · rw [subpageKfree, hfind, ok_bind] at hrun
    rcases bind_eq_error hrun with he | ⟨h₁, hrun₁, hrun⟩
    · exact absurd he freeBlock_ne
    dsimp only at hrun
    split at hrun
    swap
    · cases hrun
    rcases bind_eq_error hrun with he | ⟨h₂, hrun₂, hrun⟩
    · exact absurd he removeLists_ne
    rcases bind_eq_error hrun with hrun | ⟨h₃, -, hrun⟩
    swap
    · cases hrun
    have hroots : h₂.kheaproots = s.heap.kheaproots :=
      (removeLists_roots hrun₂).trans (freeBlock_roots hrun₁)
    have hap : Apart h₂ := by
      unfold Apart
      rw [hroots]
      exact h.regions.rootsApart
    obtain ⟨r, b, href, -⟩ := h.slots.ref pr hpr
    have href₂ : IsRef h₂ pr r b := by
      unfold IsRef Heap.refAddr at *
      rw [hroots]
      exact href
    have hstuck := freeIn_stuck hap href₂ List.pairwise_lt_range (List.mem_range.mpr href.1)
      (fun r' hr' => List.mem_range.mp hr') hrun
    rw [hroots] at hstuck
    exact ⟨r, href.1, href.2.2.1, hstuck⟩

/-! ### Runs in which no pageref is lost -/

omit [DecidableEq T] in
/-- The pagerefs of root `r` that threads hold which wait for the page of it. -/
def waiting (s : State T) (r : ℕ) : Set ℕ := {b | ∃ u, (s.pc u).slot = some (r, b)}

/-- The step loses no pageref: a thread that got no page for the root of its pageref finds one
there. And a `kfree` is made at a time when in each root without a page some pageref is not held by
a waiting thread. -/
def Tame : Config T → Action T → Prop
  | .running s, .run t _ => ∀ sz blktype prpage r b, s.pc t = .gotRefpage sz blktype prpage r b 0 →
      (s.heap.kheaproots r).page ≠ 0
  | .running s, .kfree _ _ => ∀ r < numPagerefpages, (s.heap.kheaproots r).page = 0 →
      ∃ b < npagerefsPerPage, b ∉ waiting s r
  | _, _ => True

/-- The pagerefs in use of a root without a page are the waiting ones. -/
def CountsWaiting (s : State T) : Prop := ∀ r < numPagerefpages, (s.heap.kheaproots r).page = 0 →
  (s.heap.kheaproots r).numinuse = (waiting s r).ncard

/-- A root without a page, before one that is used, is full. -/
def FilledInOrder (h : Heap) : Prop := ∀ r < numPagerefpages,
  (h.kheaproots r).page ≠ 0 ∨ (h.kheaproots r).numinuse ≠ 0 → ∀ r' < r,
    (h.kheaproots r').page = 0 → npagerefsPerPage ≤ (h.kheaproots r').numinuse

/-- What holds between the steps of a run without losses. -/
structure Tended (s : State T) : Prop where
  inv : ∃ all free, Inv s all free
  counts : CountsWaiting s
  filled : FilledInOrder s.heap

section Waiting

variable {all : List ℕ} {free : ℕ → List ℕ}

omit [DecidableEq T] in
theorem waiting_congr (hothers : ∀ u, u ≠ t → s'.pc u = s.pc u) {r : ℕ}
    (hslot : ∀ b, (s'.pc t).slot = some (r, b) ↔ (s.pc t).slot = some (r, b)) :
    waiting s' r = waiting s r := by
  ext b
  refine exists_congr fun u => ?_
  by_cases hu : u = t
  · rw [hu]
    exact hslot b
  · rw [hothers u hu]

omit [DecidableEq T] in
theorem waiting_of_idle (h : ∀ u, s.pc u = .idle) {r : ℕ} : waiting s r = ∅ := by
  refine Set.eq_empty_of_forall_notMem fun b => ?_
  rintro ⟨u, hu⟩
  rw [h u] at hu
  exact nomatch hu

omit [DecidableEq T] in
theorem waiting_insert (hothers : ∀ u, u ≠ t → s'.pc u = s.pc u) {r b : ℕ}
    (hnone : (s.pc t).slot = none) (hslot : (s'.pc t).slot = some (r, b)) :
    waiting s' r = insert b (waiting s r) := by
  ext b'
  rw [Set.mem_insert_iff]
  constructor
  · rintro ⟨u, hu⟩
    by_cases hut : u = t
    · rw [hut, hslot] at hu
      exact .inl (Prod.mk.inj (Option.some.inj hu)).2.symm
    · exact .inr ⟨u, hothers u hut ▸ hu⟩
  · rintro (rfl | ⟨u, hu⟩)
    · exact ⟨t, hslot⟩
    · have hut : u ≠ t := by
        rintro rfl
        exact nomatch hnone.symm.trans hu
      exact ⟨u, (hothers u hut).symm ▸ hu⟩

omit [DecidableEq T] in
theorem Inv.waiting_subset (h : Inv s all free) (r : ℕ) :
    waiting s r ⊆ Finset.range npagerefsPerPage := by
  rintro b ⟨u, hu⟩
  exact Finset.mem_coe.mpr (Finset.mem_range.mpr (h.slots.taken u r b hu).2.1)

omit [DecidableEq T] in
theorem Inv.waiting_finite (h : Inv s all free) (r : ℕ) : (waiting s r).Finite :=
  (Finset.finite_toSet _).subset (h.waiting_subset r)

omit [DecidableEq T] in
theorem CountsWaiting.kept (h : CountsWaiting s) (hroots : RootsKept s.heap s'.heap)
    (hwaiting : ∀ r, (s.heap.kheaproots r).page = 0 → waiting s' r = waiting s r) :
    CountsWaiting s' := by
  intro r hr hpage
  have hpage₀ : (s.heap.kheaproots r).page = 0 := (hroots r).1.symm.trans hpage
  rw [(hroots r).2 hpage₀, hwaiting r hpage₀]
  exact h r hr hpage₀

theorem FilledInOrder.kept {h h' : Heap} (hf : FilledInOrder h) (hroots : RootsKept h h') :
    FilledInOrder h' := by
  intro r hr hused r' hlt hpage
  have hpage₀ : (h.kheaproots r').page = 0 := (hroots r').1.symm.trans hpage
  rw [(hroots r').2 hpage₀]
  refine hf r hr ?_ r' hlt hpage₀
  by_cases hp : (h.kheaproots r).page = 0
  · rw [(hroots r).1, (hroots r).2 hp] at hused
    exact hused
  · exact .inl hp

/-- A root that counts its bits and has no room is full. -/
theorem KheapRoot.Counted.full {root : KheapRoot} (h : root.Counted) (hroom : ¬ root.HasRoom) :
    npagerefsPerPage ≤ root.numinuse := by
  by_contra hn
  obtain ⟨b, hb, hclear⟩ := h.exists_clear (not_le.mp hn)
  obtain ⟨b', -, hfind, -⟩ := KheapRoot.findClear_spec hb hclear
  exact hroom ⟨not_le.mp hn, KheapRoot.findClear_isSome.mpr ⟨b', hfind⟩⟩

theorem FilledInOrder.take {h h' : Heap} {r b : ℕ} (hf : FilledInOrder h) (hc : Counted h)
    (htake : Takes h h' r b) : FilledInOrder h' := by
  obtain ⟨hfind, hpage, rfl⟩ := htake
  obtain ⟨hr, -, hbefore⟩ := findSlot_iff.mp ⟨b, hfind⟩
  have hother : ∀ q, q ≠ r → (h.setRoot r ((h.kheaproots r).take b)).kheaproots q =
      h.kheaproots q := fun q hq => Function.update_of_ne hq _ _
  intro q hq hused q' hlt hpage'
  by_cases hqr : q' = r
  · subst hqr
    rw [hother q hlt.ne'] at hused
    rw [setRoot_self]
    exact (hf q hq hused q' hlt hpage).trans (Nat.le_succ _)
  · rw [hother q' hqr] at hpage' ⊢
    by_cases hqr' : q = r
    · subst hqr'
      exact (hc q' (hlt.trans hq)).full (hbefore q' hlt)
    · rw [hother q hqr'] at hused
      exact hf q hq hused q' hlt hpage'

omit [DecidableEq T] in
theorem CountsWaiting.take {r b : ℕ} {all : List ℕ} {free : ℕ → List ℕ} (h : CountsWaiting s)
    (hinv : Inv s all free) (hothers : ∀ u, u ≠ t → s'.pc u = s.pc u)
    (hnone : (s.pc t).slot = none) (hslot : (s'.pc t).slot = some (r, b))
    (htake : Takes s.heap s'.heap r b) : CountsWaiting s' := by
  obtain ⟨hfind, hpage, hheap⟩ := htake
  intro q hq hpage'
  by_cases hqr : q = r
  · subst hqr
    have hnew : b ∉ waiting s q := by
      rintro ⟨u, hu⟩
      obtain ⟨r₁, hr₁, b₁, hb₁, hfind₁, hclear⟩ :=
        (findSlot_spec hinv.slots.counted).resolve_left (by rw [hfind]; exact Option.some_ne_none _)
      obtain ⟨rfl, rfl⟩ := Prod.mk.inj (Except.ok.inj (Option.some.inj (hfind.symm.trans hfind₁)))
      exact absurd (hinv.slots.taken u q b hu).2.2.1 (by rw [hclear]; decide)
    rw [waiting_insert hothers hnone hslot, Set.ncard_insert_of_notMem hnew (hinv.waiting_finite q),
      ← h q hq hpage, hheap, setRoot_self]
    rfl
  · have hsame : s'.heap.kheaproots q = s.heap.kheaproots q := by
      rw [hheap]
      exact Function.update_of_ne hqr _ _
    have hwaiting : waiting s' q = waiting s q := by
      refine waiting_congr hothers fun b' => ?_
      rw [hnone, hslot]
      refine ⟨fun he => absurd (Prod.mk.inj (Option.some.inj he)).1.symm hqr, fun he => nomatch he⟩
    rw [hsame] at hpage' ⊢
    rw [hwaiting]
    exact h q hq hpage'

end Waiting

omit [DecidableEq T] in
/-- A step that loses no pageref, by the thread `t`. -/
theorem tended_of_rootsStep {all : List ℕ} {free : ℕ → List ℕ} (h : RootsStep s s' t)
    (hs : Tended s) (hinv : Inv s all free) (hothers : ∀ u, u ≠ t → s'.pc u = s.pc u)
    (htaken : ∀ r b, (s.pc t).slot = none → (s'.pc t).slot = some (r, b) →
      Takes s.heap s'.heap r b)
    (htame : ∀ sz blktype prpage r b, s.pc t = .gotRefpage sz blktype prpage r b 0 →
      (s.heap.kheaproots r).page ≠ 0) :
    CountsWaiting s' ∧ FilledInOrder s'.heap := by
  -- a thread that lets go of a pageref of a root with a page is not missed
  have hdone : RootsKept s.heap s'.heap → (s'.pc t).slot = none →
      (∀ r b, (s.pc t).slot = some (r, b) → (s.heap.kheaproots r).page ≠ 0) →
      CountsWaiting s' ∧ FilledInOrder s'.heap := by
    intro hkept hslot hpage
    refine ⟨hs.counts.kept hkept fun r hp => waiting_congr hothers fun b => ?_,
      hs.filled.kept hkept⟩
    rw [hslot]
    exact ⟨(fun he => nomatch he), fun he => absurd hp (hpage r b he)⟩
  cases h with
  | kept hkept hslot =>
    refine ⟨hs.counts.kept hkept fun r _ => waiting_congr hothers fun b => ?_, hs.filled.kept hkept⟩
    rw [hslot]
  | done hkept hslot hpage => exact hdone hkept hslot hpage
  | failed hkept hslot hva =>
    obtain ⟨sz, blktype, prpage, r, b, hpc⟩ := hva
    refine hdone hkept hslot fun r' b' he => ?_
    rw [hpc] at he
    obtain ⟨rfl, rfl⟩ := Prod.mk.inj (Option.some.inj he)
    exact htame sz blktype prpage r b hpc
  | take r b hslot _ hnone =>
    have htake := htaken r b hnone hslot
    exact ⟨hs.counts.take hinv hothers hnone hslot htake, hs.filled.take hinv.slots.counted htake⟩
  | install r b va hva hslot hslot' hp hp' hsame =>
    obtain ⟨hr, hb, hin, -⟩ := hinv.slots.taken t r b hslot
    have hne : ∀ q, (s'.heap.kheaproots q).page = 0 → q ≠ r := by
      rintro q hq rfl
      exact hva (hp'.symm.trans hq)
    refine ⟨fun q hq hpage => ?_, fun q hq hused q' hlt hpage => ?_⟩
    · have hqr := hne q hpage
      have hwaiting : waiting s' q = waiting s q := by
        refine waiting_congr hothers fun b' => ?_
        rw [hslot, hslot']
        exact ⟨(fun he => nomatch he),
          fun he => absurd (Prod.mk.inj (Option.some.inj he)).1.symm hqr⟩
      rw [hsame q hqr] at hpage ⊢
      rw [hwaiting]
      exact hs.counts q hq hpage
    · have hqr' := hne q' hpage
      rw [hsame q' hqr'] at hpage ⊢
      refine hs.filled q hq ?_ q' hlt hpage
      by_cases hqr : q = r
      · subst hqr
        exact .inr ((hinv.slots.counted q hq).pos hb hin).ne'
      · rwa [hsame q hqr] at hused

/-- The step lemma: no pageref is lost and the machine does not stop. -/
theorem Tended.step {a : Action T} {c : Config T} (h : Tended s) (htame : Tame (.running s) a)
    (hstep : (system T).step (.running s) a = some c) : ∃ s', c = .running s' ∧ Tended s' := by
  obtain ⟨all, free, hinv⟩ := h.inv
  obtain ⟨res, hres, rfl⟩ := step_running hstep
  rcases hinv.step hres with ⟨s', all', free', rfl, hinv'⟩ | ⟨⟨t, ptr, rfl, hpc⟩, rfl, -⟩
  · have hroots := (step_rootsStep hinv hres).1
    have hkeeps : CountsWaiting s' ∧ FilledInOrder s'.heap := by
      cases ha : a.thread with
      | none =>
        rw [ha] at hroots
        have hkept := rootsKept_of_eq hroots.1
        refine ⟨h.counts.kept hkept fun r _ => ?_, h.filled.kept hkept⟩
        unfold waiting
        rw [hroots.2]
      | some t =>
        rw [ha] at hroots
        refine tended_of_rootsStep hroots h hinv (fun u hu => step_others hres ?_)
          (fun r b hnone hslot => step_taken hres hnone hslot) fun sz blktype prpage r b hpc => ?_
        · rw [ha]
          exact fun he => hu (Option.some.inj he).symm
        · cases a with
          | run u va =>
            obtain rfl := Option.some.inj ha
            exact htame sz blktype prpage r b hpc
          | store addr val => cases ha
          | _ =>
            -- a thread that calls is in no call
            obtain rfl := Option.some.inj ha
            simp only [State.step] at hres
            split at hres
            · next hc => cases hc.1.symm.trans hpc
            · cases hres
    exact ⟨s', rfl, ⟨all', free', hinv'⟩, hkeeps.1, hkeeps.2⟩
  · exfalso
    simp only [State.step] at hres
    split at hres
    swap
    · cases hres
    -- all the pagerefs of the root before would be waited with
    obtain ⟨r, hr, hpage, r', hlt, hpage', -⟩ := hinv.kfree_stuck (Option.some.inj hres)
    have hfull := h.filled r hr (.inl hpage) r' hlt hpage'
    rw [h.counts r' (hlt.trans hr) hpage'] at hfull
    have hall : waiting s r' = ↑(Finset.range npagerefsPerPage) := by
      refine Set.eq_of_subset_of_ncard_le (hinv.waiting_subset r') ?_ (Finset.finite_toSet _)
      rwa [Set.ncard_coe_finset, Finset.card_range]
    obtain ⟨b, hb, hfree⟩ := htame r' (hlt.trans hr) hpage'
    rw [hall] at hfree
    exact hfree (Finset.mem_coe.mpr (Finset.mem_range.mpr hb))

/-- **Failures of `allocpageref` are harmless, except those that lose a pageref.** The bit maps and
counters are what they were if and only if no pageref was taken for a root that does not get its
page. And the assertion of `freepageref` holds in every run in which none is lost and every `kfree`
finds the roots without a page not full of waiting threads. -/
theorem pageref_failures_iff (T : Type) [DecidableEq T] :
    (∀ h va, HarmlessFailure h va ↔ ¬ TakesInVain h va) ∧
      ∀ c, (system T).ReachableWhile Tame c → c ≠ .trapped .rootInUse := by
  refine ⟨harmlessFailure_iff, fun c hreach => ?_⟩
  have htended : ∃ s, c = .running s ∧ Tended s := by
    refine hreach.invariant (P := fun c => ∃ s, c = .running s ∧ Tended s) ?_ ?_
    · rintro c ⟨mem, refs, region, frees, rfl⟩
      refine ⟨_, rfl, ⟨_, _, inv_init mem refs region frees⟩, fun r _ _ => ?_, fun r _ hused => ?_⟩
      · rw [waiting_of_idle fun _ => rfl, Set.ncard_empty]
      · rcases hused with hp | hn
        · exact absurd rfl hp
        · exact absurd rfl hn
    · rintro c a c' ⟨s, rfl, hs⟩ htame hstep
      exact hs.step htame hstep
  obtain ⟨s, rfl, -⟩ := htended
  exact fun he => nomatch he

/-- A test for `Tame`, of one thread. -/
def tame : Config Unit → Action Unit → Bool
  | .running s, .run t _ => match s.pc t with
    | .gotRefpage _ _ _ r _ 0 => decide ((s.heap.kheaproots r).page ≠ 0)
    | _ => true
  | .running s, .kfree _ _ => decide (s.pc () = .idle)
  | _, _ => true

theorem tame_of_test (c : Config Unit) (a : Action Unit) (h : tame c a = true) : Tame c a := by
  cases c with
  | trapped e => trivial
  | running s =>
    cases a with
    | run t va =>
      intro sz blktype prpage r b hpc
      simp only [tame, hpc, decide_eq_true_eq] at h
      exact h
    | kfree t ptr =>
      intro r _ _
      refine ⟨0, by decide, ?_⟩
      rw [waiting_of_idle fun _ => of_decide_eq_true h]
      exact Set.notMem_empty 0
    | _ => trivial

theorem pageref_failures_oneByOne :
    HarmlessFailure (start Unit).heap 0x80001000 ∧ ∃ s : State Unit,
      s.live = [⟨0x80003000, 2048⟩] ∧ (system Unit).ReachableWhile Tame (.running s) ∧
        Config.running s ≠ .trapped .rootInUse := by
  refine ⟨((pageref_failures_iff Unit).1 _ _).mpr fun h => absurd h.1 (by decide), ?_⟩
  have hrun : (oneByOne.foldlM (fun c a => if tame c a then (system Unit).step c a
      else none) (.running (start Unit))).any
        (Config.test fun s => s.live == [⟨0x80003000, 2048⟩]) = true := by
    decide +kernel
  obtain ⟨s, hs, hlive⟩ := exists_of_test hrun
  have hreach := TransitionSystem.reachableWhile_of_run tame_of_test oneByOne (.init init_start) hs
  exact ⟨s, by simpa using hlive, hreach, (pageref_failures_iff Unit).2 _ hreach⟩

/-! ### A root full of lost pagerefs -/

/-- Root 0 after `n` failures. -/
def lostRoot : ℕ → KheapRoot
  | 0 => ⟨0, fun _ => 0, 0⟩
  | n + 1 => (lostRoot n).take n

/-- The heap after `n` failures. -/
def lostHeap (n : ℕ) : Heap := (start Unit).heap.setRoot 0 (lostRoot n)

/-- The page allocator after `n` pages were given and given back. -/
def lostPager (n : ℕ) : Pager where
  count := n
  region k := if k < n then ⟨0x80001000, 1⟩ else ⟨0, 0⟩
  frees k := if k < n then 1 else 0

/-- The page allocator when it has given one more page. -/
def lentPager (n : ℕ) : Pager := (lostPager n).give ⟨0x80001000, 1⟩

/-- The only thread is at `pc`, and no block is live. -/
def only (h : Heap) (p : Pager) (pc : Pc) : State Unit :=
  { start Unit with heap := h, pager := p, pc := fun _ => pc }

theorem only_goto (h : Heap) (p : Pager) (pc q : Pc) : (only h p pc).goto () q = only h p q := by
  unfold State.goto only
  congr 1

theorem only_releasing {h : Heap} {p p' : Pager} {pc q : Pc} {a : ℕ}
    (hfree : p.freeKpages a = .ok p') : (only h p pc).releasing () a q = .ok (only h p' q) := by
  change (p.freeKpages a >>= _) = _
  rw [hfree]
  exact congrArg Except.ok (only_goto h p' pc q)

theorem lostRoot_page (n : ℕ) : (lostRoot n).page = 0 := by
  induction n with
  | zero => rfl
  | succ n ih => exact ih

theorem lostRoot_numinuse (n : ℕ) : (lostRoot n).numinuse = n := by
  induction n with
  | zero => rfl
  | succ n ih => exact congrArg (· + 1) ih

theorem lostRoot_inuse (n b : ℕ) : (lostRoot n).inuse b = decide (b < n) := by
  induction n with
  | zero => simp [lostRoot, KheapRoot.inuse]
  | succ n ih =>
    rw [lostRoot, KheapRoot.inuse_take, ih, ← Bool.decide_or]
    exact decide_eq_decide.mpr (by omega)

theorem lostRoot_findClear {n : ℕ} (hn : n < npagerefsPerPage) :
    (lostRoot n).findClear = some (.ok n) := by
  have hword : ∀ i j, j < 32 →
      ((lostRoot n).pagerefsInuse i).getLsbD j = decide (i * 32 + j < n) := by
    intro i j hj
    have h := lostRoot_inuse n (i * 32 + j)
    unfold KheapRoot.inuse at h
    rwa [show (i * 32 + j) / 32 = i by omega, show (i * 32 + j) % 32 = j by omega] at h
  have hfull : ∀ i < n / 32, (lostRoot n).pagerefsInuse i = 0xffffffff := by
    intro i hi
    refine BitVec.eq_of_getLsbD_eq fun j hj => ?_
    rw [hword i j hj, show (0xffffffff : BitVec 32) = BitVec.allOnes 32 from rfl,
      BitVec.getLsbD_allOnes]
    exact decide_eq_decide.mpr (by omega)
  have hbit : clearBit ((lostRoot n).pagerefsInuse (n / 32)) = some (n % 32) := by
    unfold clearBit
    rw [List.find?_range_eq_some]
    have hlt : n % 32 < 32 := Nat.mod_lt _ (by decide)
    refine ⟨?_, List.mem_range.mpr hlt, fun j hj => ?_⟩
    · rw [hword _ _ hlt, decide_eq_false (by omega)]
      rfl
    · rw [hword _ _ (hj.trans hlt), decide_eq_true (by omega)]
      rfl
  have hne : (lostRoot n).pagerefsInuse (n / 32) ≠ 0xffffffff := by
    intro hw
    rw [hw, show clearBit 0xffffffff = none by decide] at hbit
    exact nomatch hbit
  have hlt : n / 32 < npagerefsPerPage / 32 := by
    unfold npagerefsPerPage at *
    omega
  refine findSome_range.mpr ⟨n / 32, hlt, ?_, fun i hi => if_pos (hfull i hi)⟩
  rw [if_neg hne, hbit]
  dsimp only
  rw [show n / 32 * 32 + n % 32 = n by omega]

theorem lostPager_frees {n k : ℕ} (hk : k < n) : (lostPager n).frees k = 1 := if_pos hk

theorem lostPager_free (n : ℕ) :
    (lentPager n).freeKpages 0x80001000 = .ok (lostPager (n + 1)) := by
  have hfind : (lentPager n).find 0x80001000 = some n := by
    unfold Pager.find
    rw [List.find?_range_eq_some]
    refine ⟨?_, List.mem_range.mpr (Nat.lt_succ_self n), fun k hk => ?_⟩
    · simp [lentPager, Pager.give, lostPager]
    · have hfreed : (lentPager n).frees k = 1 :=
        (Function.update_of_ne hk.ne _ _).trans (lostPager_frees hk)
      rw [hfreed]
      rfl
  rw [Pager.freeKpages, hfind]
  refine congrArg Except.ok (congrArg₂ (Pager.mk (n + 1)) ?_ ?_)
  · funext k
    simp only [lentPager, Pager.give, lostPager, Function.update_apply]
    split_ifs <;> first | rfl | omega
  · funext k
    simp only [lentPager, Pager.give, lostPager, Function.update_apply]
    split_ifs <;> first | rfl | omega

/-- One more `kmalloc` that gets a page for the heap and none for pagerefs. -/
theorem lost_round {n : ℕ} (hn : n < npagerefsPerPage) :
    Leads Unit (.running (only (lostHeap n) (lostPager n) .idle))
      (.running (only (lostHeap (n + 1)) (lostPager (n + 1)) .idle)) := by
  have hcall : (system Unit).step (.running (only (lostHeap n) (lostPager n) .idle))
      (.kmalloc () 1500) =
        some (.running (only (lostHeap n) (lostPager n) (.wantPage 1500 7))) := by
    rw [← only_goto (lostHeap n) (lostPager n) .idle]
    rfl
  have hgive : (lostPager n).MayGive ⟨0x80001000, 1⟩ := by
    refine ⟨by decide, by decide, by decide, fun k hk hfree => ?_⟩
    exact absurd hfree (by rw [lostPager_frees (n := n) hk]; decide)
  have hpage : (system Unit).step (.running (only (lostHeap n) (lostPager n) (.wantPage 1500 7)))
      (.run () 0x80001000) = some (.running
        (only (lostHeap n) (lentPager n) (.havePage 1500 7 0x80001000))) := by
    refine leads_answer (n := 1) rfl (by decide) hgive ?_
    rw [if_neg (by decide)]
    exact congrArg _ (only_goto _ _ _ _)
  have hfind : findSlot (lostHeap n) = some (.ok (0, n)) := by
    refine findSome_range.mpr ⟨0, by decide, ?_, fun j hj => absurd hj (Nat.not_lt_zero j)⟩
    rw [lostHeap, setRoot_self, lostRoot_numinuse, if_neg (not_le.mpr hn), lostRoot_findClear hn]
    rfl
  have hheap : (lostHeap n).setRoot 0 (((lostHeap n).kheaproots 0).take n) = lostHeap (n + 1) := by
    unfold lostHeap
    rw [setRoot_self]
    unfold Heap.setRoot
    rw [Function.update_idem]
    rfl
  have halone : allocpagerefAlone (lostHeap n) 0 = .ok (lostHeap (n + 1), none) :=
    (alone_inVain hfind (lostRoot_page n)).trans (by rw [hheap])
  have hlose : Leads Unit
      (.running (only (lostHeap n) (lentPager n) (.havePage 1500 7 0x80001000)))
      (.running
        (only (lostHeap (n + 1)) (lentPager n) (.giveUp 0x80001000))) := by
    have hgoto := only_goto (lostHeap (n + 1)) (lentPager n)
      (.havePage 1500 7 0x80001000) (.giveUp 0x80001000)
    exact (congrArg (fun s => Leads Unit _ (.running s)) hgoto).mp
      (leads_alone (t := ()) rfl (by decide) halone)
  have hback : (system Unit).step
      (.running (only (lostHeap (n + 1)) (lentPager n) (.giveUp 0x80001000)))
      (.run () 0) = some (.running (only (lostHeap (n + 1)) (lostPager (n + 1)) .idle)) := by
    refine leads_next rfl Pc.noConfusion ?_
    exact only_releasing (lostPager_free n)
  exact ((Relation.ReflTransGen.single ⟨_, hcall⟩).tail ⟨_, hpage⟩).trans (hlose.tail ⟨_, hback⟩)

theorem lost_rounds {n : ℕ} (hn : n ≤ npagerefsPerPage) :
    Leads Unit (.running (only (lostHeap 0) (lostPager 0) .idle))
      (.running (only (lostHeap n) (lostPager n) .idle)) := by
  induction n with
  | zero => exact .refl
  | succ n ih => exact (ih (Nat.le_of_succ_le hn)).trans (lost_round hn)

theorem reachable_of_leads {c c' : Config T} (h : (system T).Reachable c) (hlead : Leads T c c') :
    (system T).Reachable c' := by
  induction hlead with
  | refl => exact h
  | tail _ hstep ih =>
    obtain ⟨a, hstep⟩ := hstep
    exact ih.step a hstep

/-- One block, the pageref of which is in root 1, allocated and freed. -/
def lastBlock : List (Action Unit) :=
  [.kmalloc () 1500, .run () 0x80001000, .run () 0, .run () 0x80002000, .run () 0,
   .kfree () 0x80001800]

/-- The machine stopped at this assertion. -/
def Config.stuck (e : Trap) : Config T → Bool
  | .running _ => false
  | .trapped e' => e' == e

omit [DecidableEq T] in
theorem eq_trapped_of_stuck {e : Trap} {x : Option (Config T)}
    (h : x.any (Config.stuck e) = true) : x = some (.trapped e) := by
  obtain ⟨c, rfl, hc⟩ := (Option.any_eq_true _ _).mp h
  cases c with
  | running s => cases hc
  | trapped e' => rw [eq_of_beq hc]

/-- A failure on the empty heap loses a pageref. After 256 of them a block is allocated, and freeing
it stops the machine. -/
theorem not_pageref_failures : ¬ (∀ h va, HarmlessFailure h va) ∧
    ¬ ∀ c, (system Unit).Reachable c → c ≠ .trapped .rootInUse := by
  constructor
  · intro hall
    refine (harmlessFailure_iff _ _).mp (hall (start Unit).heap 0)
      ⟨rfl, 0, by decide, ⟨?_, ?_⟩, rfl, ?_⟩
    · exact (by decide : 0 < npagerefsPerPage)
    · exact ⟨0, by decide, (by decide : (0 : BitVec 32) ≠ 0xffffffff)⟩
    · exact fun r hr => absurd hr (Nat.not_lt_zero r)
  · intro hall
    have hinit : (system Unit).init (.running (only (lostHeap 0) (lostPager 0) .idle)) := by
      refine ⟨fun _ => 0, fun _ => ⟨0, 0, 0, 0, 0⟩, (lostPager 0).region, (lostPager 0).frees, ?_⟩
      have hroots : (lostHeap 0).kheaproots = fun _ => ⟨0, fun _ => 0, 0⟩ :=
        Function.update_eq_self 0 (fun _ : ℕ => (⟨0, fun _ => 0, 0⟩ : KheapRoot))
      exact congrArg (fun roots => Config.running { start Unit with
        heap := { (start Unit).heap with kheaproots := roots }, pager := lostPager 0 }) hroots
    have hreach := reachable_of_leads (.init hinit) (lost_rounds le_rfl)
    have hrun : (lastBlock.foldlM (system Unit).step
        (.running (only (lostHeap npagerefsPerPage) (lostPager npagerefsPerPage) .idle))).any
          (Config.stuck .rootInUse) = true := by
      decide +kernel
    exact hall _ (TransitionSystem.reachable_of_run lastBlock hreach (eq_trapped_of_stuck hrun)) rfl

end Kmalloc

end Os161
