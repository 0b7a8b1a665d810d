import Os161.Vm.KmallocSound

/-!
# What a step of the heap leaves alone

A thread that goes on in `kmalloc` or `kfree` moves no other thread, and it does not change where
the regions are that `alloc_kpages` handed out: it gives some back at most. A pageref is taken in
one place only, and the roots before the one it is taken from are full then.

## What the two halves are for

The first half is about threads and regions, and ends with `step_others`. `Vm.Machine` needs it for
a kernel in which the heap shares its memory with the rest: what the heap does not touch it may rely
on.

The second half is about pagerefs. `Vm.Refpage` asks which root a pageref is taken from, and whether
that root had a page. The answer is in the code of `allocpageref`: the loop over the roots stops at
the first that has a free pageref, and `allocpagerefpage` is called if its page is missing. So a
thread that has no pageref before a step and has one after it has gone through that loop in this
step.

## What is deliberately absent

That the invariant is kept is not said again; nothing here assumes it. These are facts about the
code alone, for any state, also one that cannot be reached.

## How it composes

Each piece of code that runs between two releases of the spinlock has a lemma in each half, under
its own name. The lemma about a step only looks at which piece it runs.

## Main definitions

* `Kmalloc.Frame` — what a step of a thread leaves alone
* `Kmalloc.Takes` — a pageref taken from a root without a page

## Main results

* `Kmalloc.next_frame`, `answer_frame`, `kfree_frame`, `subpageKmalloc_frame` — one for each piece
  of the code between two releases of the spinlock
* `Kmalloc.step_others` — the same for the threads, for every step
* `Kmalloc.step_taken` — where a pageref is taken
-/

namespace Os161

namespace Kmalloc

variable {T : Type}

/-- A step of thread `t`: the regions are where they were, and so are the other threads. -/
structure Frame (s s' : State T) (t : T) : Prop where
  count : s'.pager.count = s.pager.count
  region : s'.pager.region = s.pager.region
  others : ∀ u, u ≠ t → s'.pc u = s.pc u

variable {s s' : State T} {t : T}

/-- What the page allocator has handed out is where it was. -/
theorem Frame.pager (h : Frame s s' t) :
    s'.pager.count = s.pager.count ∧ s'.pager.region = s.pager.region :=
  ⟨h.count, h.region⟩

/-- A step that does nothing. -/
theorem frame_refl (s : State T) (t : T) : Frame s s t := ⟨rfl, rfl, fun _ _ => rfl⟩

variable [DecidableEq T]

/-- A step that moves the thread and nothing else. -/
theorem frame_goto (s : State T) (t : T) (p : Pc) : Frame s (s.goto t p) t :=
  ⟨rfl, rfl, fun _ hu => Function.update_of_ne hu _ _⟩

/-- The return from `kmalloc`: the block becomes live. -/
theorem frame_ret (s : State T) (t : T) (sz a : ℕ) : Frame s (s.ret t sz a) t :=
  ⟨rfl, rfl, fun _ hu => Function.update_of_ne hu _ _⟩

/-- `subpage_kmalloc` with its page and its pageref. -/
theorem withPageref_frame {sz blktype prpage pr : ℕ}
    (hrun : s.withPageref t sz blktype prpage pr = .ok s') : Frame s s' t := by
  obtain ⟨h₁, -, hrun⟩ := bind_eq_ok hrun
  obtain ⟨⟨h₂, a⟩, -, hrun⟩ := bind_eq_ok hrun
  cases hrun
  exact ⟨rfl, rfl, fun _ hu => Function.update_of_ne hu _ _⟩

/-- `subpage_kmalloc` up to its first release of the spinlock. -/
theorem subpageKmalloc_frame {sz : ℕ} (hrun : s.subpageKmalloc t sz = .ok s') : Frame s s' t := by
  obtain ⟨blktype, -, hrun⟩ := bind_eq_ok hrun
  obtain ⟨found, -, hrun⟩ := bind_eq_ok hrun
  cases found with
  | none =>
    cases hrun
    exact frame_goto s t _
  | some pr =>
    obtain ⟨⟨h₁, a⟩, -, hrun⟩ := bind_eq_ok hrun
    cases hrun
    exact ⟨rfl, rfl, fun _ hu => Function.update_of_ne hu _ _⟩

/-- `kfree` up to the call of `free_kpages`, if it makes one. -/
theorem kfree_frame {ptr : ℕ} (hrun : s.kfree t ptr = .ok s') : Frame s s' t := by
  unfold State.kfree at hrun
  split at hrun
  · cases hrun
    exact frame_refl s t
  · obtain ⟨⟨h₁, freed⟩, -, hrun⟩ := bind_eq_ok hrun
    cases freed with
    | done =>
      cases hrun
      exact ⟨rfl, rfl, fun _ _ => rfl⟩
    | page prpage =>
      cases hrun
      exact ⟨rfl, rfl, fun _ hu => Function.update_of_ne hu _ _⟩
    | notOurs =>
      obtain ⟨-, -, hrun⟩ := bind_eq_ok hrun
      cases hrun
      exact ⟨rfl, rfl, fun _ hu => Function.update_of_ne hu _ _⟩

/-- What follows the answer of `alloc_kpages`, in the state `u` after it. -/
theorem answer_frame {n va : ℕ} {k : ℕ → State T → Except Trap (State T)} {u : State T}
    (hk : s.asking t = some (n, k)) (hrun : k va u = .ok s') : Frame u s' t := by
  unfold State.asking at hk
  split at hk
  · obtain ⟨rfl, rfl⟩ := Prod.mk.inj (Option.some.inj hk)
    dsimp only at hrun
    split at hrun
    · cases hrun
      exact frame_goto u t _
    · cases hrun
      exact frame_goto u t _
  · obtain ⟨rfl, rfl⟩ := Prod.mk.inj (Option.some.inj hk)
    cases hrun
    exact frame_goto u t _
  · obtain ⟨rfl, rfl⟩ := Prod.mk.inj (Option.some.inj hk)
    dsimp only at hrun
    split at hrun
    · cases hrun
      exact frame_ret u t _ _
    · obtain ⟨-, -, hrun⟩ := bind_eq_ok hrun
      cases hrun
      exact frame_ret u t _ _
  · cases hk

/-- `free_kpages`: a region is marked as given back, but its place is kept. -/
theorem releasing_frame {a : ℕ} {p : Pc} (hrun : s.releasing t a p = .ok s') : Frame s s' t := by
  obtain ⟨pager, hfree, hrun⟩ := bind_eq_ok hrun
  cases hrun
  unfold Pager.freeKpages at hfree
  split at hfree
  · cases hfree
  · cases hfree
    exact ⟨rfl, rfl, fun _ hu => Function.update_of_ne hu _ _⟩

/-- `subpage_kmalloc` with its page, up to the next release of the spinlock. -/
theorem withPage_frame {sz blktype prpage : ℕ} (hrun : s.withPage t sz blktype prpage = .ok s') :
    Frame s s' t := by
  obtain ⟨⟨h, slot⟩, -, hrun⟩ := bind_eq_ok hrun
  cases slot with
  | ranOut =>
    cases hrun
    exact ⟨rfl, rfl, fun _ hu => Function.update_of_ne hu _ _⟩
  | ready r b =>
    obtain ⟨hcount, hregion, hothers⟩ := withPageref_frame (s := { s with heap := h }) hrun
    exact ⟨hcount, hregion, hothers⟩
  | needsPage r b =>
    obtain ⟨-, -, hrun⟩ := bind_eq_ok hrun
    cases hrun
    exact ⟨rfl, rfl, fun _ hu => Function.update_of_ne hu _ _⟩

/-- The same from the return of `alloc_kpages` in `allocpagerefpage` on. -/
theorem withRefpage_frame {sz blktype prpage r b va : ℕ}
    (hrun : s.withRefpage t sz blktype prpage r b va = .ok s') : Frame s s' t := by
  unfold State.withRefpage at hrun
  dsimp only at hrun
  split at hrun
  · split at hrun
    · cases hrun
      exact frame_goto s t _
    · exact withPageref_frame hrun
  · obtain ⟨-, -, hrun⟩ := bind_eq_ok hrun
    split at hrun
    · cases hrun
      exact ⟨rfl, rfl, fun _ hu => Function.update_of_ne hu _ _⟩
    · obtain ⟨hcount, hregion, hothers⟩ := withPageref_frame hrun
      exact ⟨hcount, hregion, hothers⟩

/-- A step that a thread takes by itself. -/
theorem next_frame (hrun : s.next t = .ok s') : Frame s s' t := by
  unfold State.next at hrun
  split at hrun
  · obtain ⟨-, -, hrun⟩ := bind_eq_ok hrun
    exact withPage_frame hrun
  · exact withRefpage_frame hrun
  · exact releasing_frame hrun
  · obtain ⟨-, -, hrun⟩ := bind_eq_ok hrun
    exact withPageref_frame hrun
  · exact releasing_frame hrun
  · exact releasing_frame hrun
  · cases hrun
    exact frame_refl s t

/-- **A step moves no other thread.** A write to memory is nobody's step, and moves none at all. -/
theorem step_others {a : Action T} (hstep : s.step a = some (.ok s')) {u : T}
    (hu : a.thread ≠ some u) : s'.pc u = s.pc u := by
  cases a with
  | kmalloc t sz =>
    have hne : u ≠ t := fun he => hu (congrArg some he.symm)
    simp only [State.step] at hstep
    split at hstep
    · split at hstep
      · cases hstep
        exact (frame_goto s t _).others u hne
      · exact (subpageKmalloc_frame (Option.some.inj hstep)).others u hne
    · cases hstep
  | kfree t ptr =>
    have hne : u ≠ t := fun he => hu (congrArg some he.symm)
    simp only [State.step] at hstep
    split at hstep
    · exact (kfree_frame (Option.some.inj hstep)).others u hne
    · cases hstep
  | run t va =>
    have hne : u ≠ t := fun he => hu (congrArg some he.symm)
    simp only [State.step] at hstep
    split at hstep
    · next n k hk =>
      split at hstep
      · exact (answer_frame hk (Option.some.inj hstep)).others u hne
      · split at hstep
        · exact (answer_frame hk (Option.some.inj hstep)).others u hne
        · cases hstep
    · split at hstep
      · cases hstep
      · exact (next_frame (Option.some.inj hstep)).others u hne
  | store addr val =>
    simp only [State.step] at hstep
    split at hstep
    · cases hstep
      rfl
    · cases hstep

/-! ### Where a pageref is taken -/

/-- `allocpageref` needs a page for pageref `b` of root `r`, and has taken that pageref. -/
def Takes (h h' : Heap) (r b : ℕ) : Prop :=
  findSlot h = some (.ok (r, b)) ∧ (h.kheaproots r).page = 0 ∧
    h' = h.setRoot r ((h.kheaproots r).take b)

/-- The result of `allocpageref` says what it did. -/
theorem takes_of_needsPage {h h' : Heap} {r b : ℕ}
    (hrun : allocpageref h = .ok (h', .needsPage r b)) : Takes h h' r b := by
  unfold allocpageref at hrun
  split at hrun
  · exact nomatch hrun
  · exact nomatch hrun
  · next r' b' hfind =>
    obtain ⟨hheap, hslot⟩ := Prod.mk.inj (Except.ok.inj hrun)
    split at hslot
    · next hp =>
      cases hslot
      exact ⟨hfind, hp, hheap.symm⟩
    · exact nomatch hslot

/-- The pageref of a thread that has moved. -/
theorem update_slot (pc : T → Pc) (p : Pc) : (Function.update pc t p t).slot = p.slot := by
  rw [Function.update_self]

/-- A page taken from the lists, or the place at which one is asked for: no pageref is needed yet.
-/
theorem subpageKmalloc_slot {sz : ℕ} (hrun : s.subpageKmalloc t sz = .ok s') :
    (s'.pc t).slot = none := by
  obtain ⟨blktype, -, hrun⟩ := bind_eq_ok hrun
  obtain ⟨found, -, hrun⟩ := bind_eq_ok hrun
  cases found with
  | none =>
    cases hrun
    exact update_slot _ _
  | some pr =>
    obtain ⟨⟨h₁, x⟩, -, hrun⟩ := bind_eq_ok hrun
    cases hrun
    exact update_slot _ _

/-- `kfree` takes no pageref. -/
theorem kfree_slot {ptr : ℕ} (hrun : s.kfree t ptr = .ok s') (hnone : (s.pc t).slot = none) :
    (s'.pc t).slot = none := by
  unfold State.kfree at hrun
  split at hrun
  · cases hrun
    exact hnone
  · obtain ⟨⟨h₁, freed⟩, -, hrun⟩ := bind_eq_ok hrun
    cases freed with
    | done =>
      cases hrun
      exact hnone
    | page prpage =>
      cases hrun
      exact update_slot _ _
    | notOurs =>
      obtain ⟨-, -, hrun⟩ := bind_eq_ok hrun
      cases hrun
      exact update_slot _ _

/-- Neither does the answer of `alloc_kpages`. A thread that asks for the page of a root has its
pageref already. -/
theorem answer_slot {n va : ℕ} {k : ℕ → State T → Except Trap (State T)} {u : State T}
    (hk : s.asking t = some (n, k)) (hrun : k va u = .ok s') (hnone : (s.pc t).slot = none) :
    (s'.pc t).slot = none := by
  unfold State.asking at hk
  split at hk
  · obtain ⟨rfl, rfl⟩ := Prod.mk.inj (Option.some.inj hk)
    dsimp only at hrun
    split at hrun
    · cases hrun
      exact update_slot _ _
    · cases hrun
      exact update_slot _ _
  · next hpc =>
    rw [hpc] at hnone
    cases hnone
  · obtain ⟨rfl, rfl⟩ := Prod.mk.inj (Option.some.inj hk)
    dsimp only at hrun
    split at hrun
    · cases hrun
      exact update_slot _ _
    · obtain ⟨-, -, hrun⟩ := bind_eq_ok hrun
      cases hrun
      exact update_slot _ _
  · cases hk

/-- `subpage_kmalloc` with its page: here is the call of `allocpageref`. -/
theorem withPage_taken {sz blktype prpage r b : ℕ}
    (hrun : s.withPage t sz blktype prpage = .ok s') (hslot : (s'.pc t).slot = some (r, b)) :
    Takes s.heap s'.heap r b := by
  obtain ⟨⟨h, found⟩, halloc, hrun⟩ := bind_eq_ok hrun
  cases found with
  | ranOut =>
    cases hrun
    exact nomatch (update_slot _ _).symm.trans hslot
  | ready r' b' =>
    -- the root has a page, so that the pageref is used for a heap page in the same step
    obtain ⟨-, hpcs⟩ := withPageref_roots (s := { s with heap := h }) hrun
    rw [hpcs] at hslot
    exact nomatch (update_slot _ _).symm.trans hslot
  | needsPage r' b' =>
    obtain ⟨-, -, hrun⟩ := bind_eq_ok hrun
    cases hrun
    rw [goto_self] at hslot
    obtain ⟨rfl, rfl⟩ := Prod.mk.inj (Option.some.inj hslot)
    exact takes_of_needsPage halloc

/-- A step that a thread takes by itself. -/
theorem next_taken {r b : ℕ} (hrun : s.next t = .ok s') (hnone : (s.pc t).slot = none)
    (hslot : (s'.pc t).slot = some (r, b)) : Takes s.heap s'.heap r b := by
  -- a thread that waits for the page of a root, or has got it, has its pageref already
  have hwait : ∀ {p : Pc}, s.pc t = p → p.slot ≠ none → Takes s.heap s'.heap r b :=
    fun hpc hp => absurd (hpc ▸ hnone) hp
  -- a thread that gives a page back has none and takes none
  have hgive : ∀ {a : ℕ}, s.releasing t a .idle = .ok s' → Takes s.heap s'.heap r b := by
    intro a hrun
    obtain ⟨pager, -, hrun⟩ := bind_eq_ok hrun
    cases hrun
    exact nomatch (update_slot _ _).symm.trans hslot
  unfold State.next at hrun
  split at hrun
  · obtain ⟨-, -, hrun⟩ := bind_eq_ok hrun
    exact withPage_taken hrun hslot
  · next hpc => exact hwait hpc nofun
  · next hpc => exact hwait hpc nofun
  · next hpc => exact hwait hpc nofun
  · exact hgive hrun
  · exact hgive hrun
  · cases hrun
    exact nomatch hnone.symm.trans hslot

/-- **Where a pageref is taken.** A thread comes to have a pageref in `subpage_kmalloc`, with a page
in its hands. -/
theorem step_taken {a : Action T} (hstep : s.step a = some (.ok s')) {r b : ℕ}
    (hnone : (s.pc t).slot = none) (hslot : (s'.pc t).slot = some (r, b)) :
    Takes s.heap s'.heap r b := by
  by_cases hthread : a.thread = some t
  swap
  · rw [step_others hstep hthread, hnone] at hslot
    cases hslot
  -- all pieces of code but one leave the thread without a pageref
  have hwithout : (s'.pc t).slot = none → Takes s.heap s'.heap r b :=
    fun h => nomatch h.symm.trans hslot
  cases a with
  | kmalloc u sz =>
    obtain rfl := Option.some.inj hthread
    simp only [State.step] at hstep
    split at hstep
    · split at hstep
      · cases hstep
        exact hwithout (update_slot _ _)
      · exact hwithout (subpageKmalloc_slot (Option.some.inj hstep))
    · cases hstep
  | kfree u ptr =>
    obtain rfl := Option.some.inj hthread
    simp only [State.step] at hstep
    split at hstep
    · exact hwithout (kfree_slot (Option.some.inj hstep) hnone)
    · cases hstep
  | store addr val => cases hthread
  | run u va =>
    obtain rfl := Option.some.inj hthread
    simp only [State.step] at hstep
    split at hstep
    · next n k hk =>
      split at hstep
      · exact hwithout (answer_slot hk (Option.some.inj hstep) hnone)
      · split at hstep
        · exact hwithout (answer_slot hk (Option.some.inj hstep) hnone)
        · cases hstep
    · split at hstep
      · cases hstep
      · exact next_taken (Option.some.inj hstep) hnone hslot

end Kmalloc

end Os161
