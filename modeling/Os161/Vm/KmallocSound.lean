import Os161.Vm.KmallocStep
import Mathlib.Logic.Relation

/-!
# The kernel heap is sound

The two results about `kern/vm/kmalloc.c`. With any number of threads, the pagerefs are handed out
properly: `pagerefs_sound`. With one thread, and if the pages for pagerefs are there when they are
asked for, nothing goes wrong at all: `heap_sound`.

The difference between the two is one assertion. A thread that is waiting for the page of a root
leaves the root with a pageref in use and without a page, and while it does so (or for good, if it
gets no page) `freepageref` of a pageref of a later root stops at `KASSERT(root->numinuse == 0)`.
A single thread does not free anything while it waits.

## Main results

* `inv_of_reachable` — the invariant holds in every state reached
* `pagerefs_sound`, `heap_sound`
-/

namespace Os161

namespace Kmalloc

variable {T : Type} [DecidableEq T] {s s' : State T} {t : T}

/-! ### Runs -/

omit [DecidableEq T] in
theorem inv_init (mem : ℕ → ℕ) (refs : ℕ → Pageref) (region : ℕ → Region) (frees : ℕ → ℕ) :
    Inv ({ heap := { mem, refs, kheaproots := fun _ => ⟨0, fun _ => 0, 0⟩, sizebases := fun _ => 0,
                     allbase := 0 }
           pager := ⟨0, region, frees⟩
           pc := fun _ => .idle
           live := []
           lost := [] } : State T) [] fun _ => [] where
  blocks := ⟨⟨rfl, fun _ _ => rfl⟩, by simp, by simp, by simp⟩
  once := List.nodup_nil
  slots := by
    refine ⟨fun r _ => ?_, by simp, (fun u r b hx => nomatch hx), (fun u u' x hx => nomatch hx)⟩
    simp [KheapRoot.Counted, KheapRoot.inuse]
  regions := by
    refine ⟨⟨?_, ?_, ?_⟩, ⟨fun a => ?_, ?_⟩, by simp⟩
    · exact fun n hn => absurd hn.1 (Nat.not_lt_zero n)
    · exact fun n m hn => absurd hn.1 (Nat.not_lt_zero n)
    · exact fun n hn => absurd hn (Nat.not_lt_zero n)
    · constructor
      · rintro ⟨n, hn, -⟩
        exact absurd hn.1 (Nat.not_lt_zero n)
      · rintro ⟨w, hw⟩
        cases w with
        | root r => exact absurd hw.2.2.symm hw.2.1
        | _ => simp [Owns, Pc.page, Pc.refpage] at hw
    · intro w w' a hw
      cases w with
      | root r => exact absurd hw.2.2.symm hw.2.1
      | _ => simp [Owns, Pc.page, Pc.refpage] at hw
  lost := ⟨by simp, (fun u va hu => nomatch hu)⟩
  sane := fun _ => trivial
  ready := fun u r hr => nomatch hr
  nonempty := by simp [NoEmptyPage]

/-- The invariant, of a machine that may have stopped. -/
def Config.Ok : Config T → Prop
  | .running s => ∃ all free, Inv s all free
  | .trapped _ => True

theorem step_running {a : Action T} {c : Config T}
    (hstep : (system T).step (.running s) a = some c) :
    ∃ res, s.step a = some res ∧ c = match res with
      | .ok s => .running s
      | .error e => .trapped e := by
  obtain ⟨res, hres, hc⟩ := Option.map_eq_some_iff.mp hstep
  exact ⟨res, hres, hc.symm⟩

/-- The invariant holds in every state reached. -/
theorem inv_of_reachable {c : Config T} (h : (system T).Reachable c) : c.Ok := by
  refine h.invariant ?_ ?_
  · rintro c ⟨mem, refs, region, frees, rfl⟩
    exact ⟨_, _, inv_init mem refs region frees⟩
  · rintro (s | e) a c ⟨all, free, hinv⟩ hstep
    · obtain ⟨res, hres, rfl⟩ := step_running hstep
      rcases hinv.step hres with ⟨s', all', free', rfl, hinv'⟩ | ⟨-, rfl, -⟩
      · exact ⟨all', free', hinv'⟩
      · trivial
    · exact nomatch hstep

/-! ### What the steps do to the roots -/

theorem goto_self (s : State T) (t : T) (p : Pc) : (s.goto t p).pc t = p :=
  Function.update_self _ _ _

theorem ret_self (s : State T) (t : T) (sz a : ℕ) : (s.ret t sz a).pc t = .idle :=
  Function.update_self _ _ _

theorem bind_eq_ok {α β : Type} {x : Except Trap α} {f : α → Except Trap β} {b : β}
    (h : (x >>= f) = .ok b) : ∃ a, x = .ok a ∧ f a = .ok b := by
  cases x with
  | error e => exact nomatch h
  | ok a => exact ⟨a, rfl, h⟩

/-- The roots have the pages they had, and those without a page the number of pagerefs in use. -/
def RootsKept (h h' : Heap) : Prop :=
  ∀ r, (h'.kheaproots r).page = (h.kheaproots r).page ∧
    ((h.kheaproots r).page = 0 → (h'.kheaproots r).numinuse = (h.kheaproots r).numinuse)

theorem rootsKept_of_eq {h h' : Heap} (he : h'.kheaproots = h.kheaproots) : RootsKept h h' :=
  fun r => by rw [he]; exact ⟨rfl, fun _ => rfl⟩

theorem doalloc_roots {h h' : Heap} {pr a : ℕ} (hrun : doalloc h pr = .ok (h', a)) :
    h'.kheaproots = h.kheaproots := by
  obtain ⟨-, -, hrun⟩ := bind_eq_ok hrun
  dsimp only at hrun
  split at hrun
  · obtain ⟨-, -, hrun⟩ := bind_eq_ok hrun
    obtain ⟨-, -, hrun⟩ := bind_eq_ok hrun
    cases hrun
    rfl
  · obtain ⟨-, -, hrun⟩ := bind_eq_ok hrun
    cases hrun
    rfl

theorem setupPage_roots {h h' : Heap} {pr prpage blktype : ℕ}
    (hrun : setupPage h pr prpage blktype = .ok h') : h'.kheaproots = h.kheaproots := by
  unfold setupPage at hrun
  dsimp only at hrun
  obtain ⟨x, -, hrun₁⟩ := bind_eq_ok hrun
  obtain ⟨-, -, hrun₂⟩ := bind_eq_ok hrun₁
  cases hrun₂
  rfl

theorem freeBlock_roots {h h' : Heap} {pr a : ℕ} (hrun : Kmalloc.freeBlock h pr a = .ok h') :
    h'.kheaproots = h.kheaproots := by
  obtain ⟨-, -, hrun⟩ := bind_eq_ok hrun
  obtain ⟨-, -, hrun⟩ := bind_eq_ok hrun
  obtain ⟨-, -, hrun⟩ := bind_eq_ok hrun
  cases hrun
  rfl

theorem removeLists_roots {h h' : Heap} {pr blktype : ℕ}
    (hrun : removeLists h pr blktype = .ok h') : h'.kheaproots = h.kheaproots := by
  obtain ⟨-, -, hrun⟩ := bind_eq_ok hrun
  obtain ⟨h₁, hrun₁, hrun₂⟩ := bind_eq_ok hrun
  have e₁ : h₁.kheaproots = h.kheaproots := by
    unfold removeSamesize at hrun₁
    split at hrun₁
    · exact nomatch hrun₁
    · cases hrun₁
      rfl
    · cases hrun₁
      exact (storeSamesize_spec _ _ _ _).2.2.2.2.2.1
  have e₂ : h'.kheaproots = h₁.kheaproots := by
    unfold removeAll at hrun₂
    split at hrun₂
    · exact nomatch hrun₂
    · cases hrun₂
      rfl
    · cases hrun₂
      exact (storeAll_spec _ _ _).2.2.2.2.2.1
  exact e₂.trans e₁

theorem freeIn_roots {h h' : Heap} {p : ℕ} {rs : List ℕ} (hrun : freeIn h p rs = .ok h') :
    RootsKept h h' := by
  induction rs with
  | nil => exact nomatch hrun
  | cons r rs ih =>
    rw [freeIn] at hrun
    split at hrun
    · obtain ⟨-, -, hrun⟩ := bind_eq_ok hrun
      exact ih hrun
    · next hp =>
      dsimp only at hrun
      split at hrun
      · obtain ⟨-, -, hrun⟩ := bind_eq_ok hrun
        obtain ⟨-, -, hrun⟩ := bind_eq_ok hrun
        cases hrun
        intro r'
        by_cases hrr : r' = r
        · subst hrr
          simp [Heap.setRoot, KheapRoot.drop, hp]
        · simp [Heap.setRoot, hrr]
      · exact ih hrun

theorem subpageKfree_roots {h h' : Heap} {a : ℕ} {f : Freed}
    (hrun : subpageKfree h a = .ok (h', f)) : RootsKept h h' := by
  obtain ⟨found, -, hrun⟩ := bind_eq_ok hrun
  cases found with
  | none =>
    cases hrun
    exact rootsKept_of_eq rfl
  | some pr =>
    obtain ⟨h₁, hrun₁, hrun⟩ := bind_eq_ok hrun
    have e₁ := freeBlock_roots hrun₁
    dsimp only at hrun
    split at hrun
    · obtain ⟨h₂, hrun₂, hrun⟩ := bind_eq_ok hrun
      obtain ⟨h₃, hrun₃, hrun⟩ := bind_eq_ok hrun
      cases hrun
      have e₂ := (removeLists_roots hrun₂).trans e₁
      have := freeIn_roots hrun₃
      unfold RootsKept at this
      rwa [e₂] at this
    · cases hrun
      exact rootsKept_of_eq e₁

theorem withPageref_roots {sz blktype prpage pr : ℕ}
    (hrun : s.withPageref t sz blktype prpage pr = .ok s') :
    s'.heap.kheaproots = s.heap.kheaproots ∧ s'.pc = Function.update s.pc t .idle := by
  obtain ⟨h₁, hrun₁, hrun⟩ := bind_eq_ok hrun
  obtain ⟨⟨h₂, a⟩, hrun₂, hrun⟩ := bind_eq_ok hrun
  cases hrun
  exact ⟨(doalloc_roots hrun₂).trans (setupPage_roots hrun₁), rfl⟩

/-- What a step does to the roots and to the pageref of the thread that makes it. -/
inductive RootsStep (s s' : State T) (t : T) : Prop
  /-- It leaves them alone, and the thread has the pageref it had. -/
  | kept (h : RootsKept s.heap s'.heap) (hslot : (s'.pc t).slot = (s.pc t).slot)
  /-- It leaves them alone, and the thread lets its pageref go; the root of it has a page. -/
  | done (h : RootsKept s.heap s'.heap) (hslot : (s'.pc t).slot = none)
      (hpage : ∀ r b, (s.pc t).slot = some (r, b) → (s.heap.kheaproots r).page ≠ 0)
  /-- It leaves them alone, and the thread has no page for its root. -/
  | failed (h : RootsKept s.heap s'.heap) (hslot : (s'.pc t).slot = none)
      (hva : ∃ sz blktype prpage r b, s.pc t = .gotRefpage sz blktype prpage r b 0)
  /-- It takes a pageref of a root without a page. -/
  | take (r b : ℕ) (hslot : (s'.pc t).slot = some (r, b))
      (h : ∀ r', (s'.heap.kheaproots r').page = (s.heap.kheaproots r').page ∧
        (r' ≠ r → (s'.heap.kheaproots r').numinuse = (s.heap.kheaproots r').numinuse))
      (hnone : (s.pc t).slot = none)
  /-- It gives the root its page. -/
  | install (r b va : ℕ) (hva : va ≠ 0) (hslot : (s.pc t).slot = some (r, b))
      (hslot' : (s'.pc t).slot = none)
      (hp : (s.heap.kheaproots r).page = 0) (hp' : (s'.heap.kheaproots r).page = va)
      (h : ∀ r', r' ≠ r → s'.heap.kheaproots r' = s.heap.kheaproots r')

/-- The thread asked for a page for pagerefs, and got none. -/
def Pc.failed : Pc → Bool
  | .gotRefpage _ _ _ _ _ va => va = 0
  | _ => false

/-- The thread is asking for a page for pagerefs. -/
def Pc.wantsRefpage : Pc → Bool
  | .wantRefpage _ _ _ _ _ => true
  | _ => false

/-- No thread came to be without a page for pagerefs. -/
def NoneFailed (s s' : State T) : Prop := ∀ u, (s'.pc u).failed = true → (s.pc u).failed = true

theorem update_failed {pc : T → Pc} {p : Pc} (hp : p.failed = false) (u : T)
    (h : (Function.update pc t p u).failed = true) : (pc u).failed = true := by
  by_cases hu : u = t
  · subst hu
    rw [Function.update_self, hp] at h
    exact absurd h (by decide)
  · rwa [Function.update_of_ne hu] at h

theorem failed_of_eq (hpcs : s'.pc = Function.update s.pc t .idle) : NoneFailed s s' :=
  fun u h => update_failed rfl u (hpcs ▸ h)

/-- The thread an action is of. -/
def Action.thread : Action T → Option T
  | .kmalloc t _ => some t
  | .kfree t _ => some t
  | .run t _ => some t
  | .store _ _ => none

theorem kfree_rootsStep {ptr : ℕ} (hpc : s.pc t = .idle) (hrun : s.kfree t ptr = .ok s') :
    RootsStep s s' t ∧ NoneFailed s s' := by
  have hnone : (s.pc t).slot = none := by rw [hpc]; rfl
  unfold State.kfree at hrun
  split at hrun
  · cases hrun
    exact ⟨.kept (rootsKept_of_eq rfl) rfl, fun _ h => h⟩
  · obtain ⟨⟨h₁, f⟩, hrun₁, hrun⟩ := bind_eq_ok hrun
    have hkept := subpageKfree_roots hrun₁
    cases f with
    | done =>
      cases hrun
      exact ⟨.kept hkept rfl, fun _ h => h⟩
    | page prpage =>
      cases hrun
      exact ⟨.kept hkept (by rw [goto_self, hnone]; rfl),
        update_failed rfl⟩
    | notOurs =>
      obtain ⟨-, -, hrun⟩ := bind_eq_ok hrun
      cases hrun
      exact ⟨.kept hkept (by rw [goto_self, hnone]; rfl),
        update_failed rfl⟩

theorem subpageKmalloc_rootsStep {sz : ℕ} (hpc : s.pc t = .idle)
    (hrun : s.subpageKmalloc t sz = .ok s') :
    RootsStep s s' t ∧ NoneFailed s s' := by
  have hnone : (s.pc t).slot = none := by rw [hpc]; rfl
  obtain ⟨blktype, -, hrun⟩ := bind_eq_ok hrun
  obtain ⟨found, -, hrun⟩ := bind_eq_ok hrun
  cases found with
  | none =>
    cases hrun
    exact ⟨.kept (rootsKept_of_eq rfl) (by rw [goto_self, hnone]; rfl),
      update_failed rfl⟩
  | some pr =>
    obtain ⟨⟨h₁, a⟩, hrun₁, hrun⟩ := bind_eq_ok hrun
    cases hrun
    exact ⟨.kept (rootsKept_of_eq (doalloc_roots hrun₁))
      (by rw [ret_self, hnone]; rfl),
      update_failed rfl⟩

theorem withPage_rootsStep {sz blktype prpage : ℕ} (hcount : Counted s.heap)
    (hpc : s.pc t = .havePage sz blktype prpage)
    (hrun : s.withPage t sz blktype prpage = .ok s') :
    RootsStep s s' t ∧ NoneFailed s s' := by
  have hnone : (s.pc t).slot = none := by rw [hpc]; rfl
  rcases allocpageref_spec hcount with halloc | ⟨r, hr, b, hb, hc, halloc⟩
  · rw [State.withPage, halloc] at hrun
    cases hrun
    exact ⟨.kept (rootsKept_of_eq rfl) (by rw [goto_self, hnone]; rfl),
      update_failed rfl⟩
  · by_cases hp : (s.heap.kheaproots r).page = 0
    · rw [State.withPage, halloc, ok_bind, if_pos hp] at hrun
      obtain ⟨-, -, hrun⟩ := bind_eq_ok hrun
      cases hrun
      refine ⟨.take r b (by simp [State.goto, Pc.slot]) (fun r' => ?_) hnone,
        update_failed rfl⟩
      by_cases hrr : r' = r
      · subst hrr
        simp [State.goto, Heap.setRoot, KheapRoot.take]
      · simp [State.goto, Heap.setRoot, hrr]
    · rw [State.withPage, halloc, ok_bind, if_neg hp] at hrun
      obtain ⟨hroots, hpcs⟩ := withPageref_roots hrun
      refine ⟨.kept (fun r' => ?_) ?_, failed_of_eq hpcs⟩
      · rw [hroots]
        by_cases hrr : r' = r
        · subst hrr
          simp [Heap.setRoot, KheapRoot.take, hp]
        · simp [Heap.setRoot, hrr]
      · rw [hpcs, hnone]
        simp [Pc.slot]

theorem withRefpage_rootsStep {sz blktype prpage r b va : ℕ}
    (hpc : s.pc t = .gotRefpage sz blktype prpage r b va)
    (hrun : s.withRefpage t sz blktype prpage r b va = .ok s') :
    RootsStep s s' t ∧ NoneFailed s s' := by
  have hslot : (s.pc t).slot = some (r, b) := by rw [hpc]; rfl
  have hready : (s.heap.kheaproots r).page ≠ 0 → ∀ r' b', (s.pc t).slot = some (r', b') →
      (s.heap.kheaproots r').page ≠ 0 := by
    intro hp r' b' hx
    rw [hslot] at hx
    obtain ⟨rfl, rfl⟩ := Prod.mk.inj (Option.some.inj hx)
    exact hp
  unfold State.withRefpage at hrun
  dsimp only at hrun
  split at hrun
  · next hva =>
    subst hva
    split at hrun
    · cases hrun
      exact ⟨.failed (rootsKept_of_eq rfl) (by simp [State.goto, Pc.slot]) ⟨_, _, _, _, _, hpc⟩,
        update_failed rfl⟩
    · next hp =>
      obtain ⟨hroots, hpcs⟩ := withPageref_roots hrun
      exact ⟨.done (rootsKept_of_eq hroots) (by rw [hpcs]; simp [Pc.slot]) (hready hp),
        failed_of_eq hpcs⟩
  · next hva =>
    obtain ⟨-, -, hrun⟩ := bind_eq_ok hrun
    split at hrun
    · cases hrun
      exact ⟨.kept (rootsKept_of_eq rfl) (by rw [goto_self, hslot]; rfl),
        update_failed rfl⟩
    · next hp =>
      obtain ⟨hroots, hpcs⟩ := withPageref_roots hrun
      refine ⟨.install r b va hva hslot (by rw [hpcs]; simp [Pc.slot]) (by simpa using hp) ?_ ?_,
        failed_of_eq hpcs⟩
      · rw [hroots]
        simp [Heap.setRoot]
      · intro r' hrr
        rw [hroots]
        simp [Heap.setRoot, hrr]

theorem releasing_rootsStep {a : ℕ} {p : Pc} (hslot : p.slot = (s.pc t).slot)
    (hfailed : p.failed = false)
    (hrun : s.releasing t a p = .ok s') : RootsStep s s' t ∧ NoneFailed s s' := by
  obtain ⟨pager, -, hrun⟩ := bind_eq_ok hrun
  cases hrun
  exact ⟨.kept (rootsKept_of_eq rfl) (by rw [goto_self]; exact hslot),
    update_failed hfailed⟩

theorem next_rootsStep {all : List ℕ} {free : ℕ → List ℕ} (hinv : Inv s all free)
    (hrun : s.next t = .ok s') : RootsStep s s' t ∧ NoneFailed s s' := by
  unfold State.next at hrun
  split at hrun
  · next hpc =>
    obtain ⟨-, -, hrun⟩ := bind_eq_ok hrun
    exact withPage_rootsStep hinv.slots.counted hpc hrun
  · next hpc => exact withRefpage_rootsStep hpc hrun
  · next hpc => exact releasing_rootsStep (by rw [hpc]; rfl) rfl hrun
  · next sz blktype prpage r b hpc =>
    obtain ⟨-, -, hrun⟩ := bind_eq_ok hrun
    obtain ⟨hroots, hpcs⟩ := withPageref_roots hrun
    refine ⟨.done (rootsKept_of_eq hroots) (by rw [hpcs, Function.update_self]; rfl) ?_,
      failed_of_eq hpcs⟩
    intro r' b' hx
    rw [hpc] at hx
    obtain ⟨rfl, rfl⟩ := Prod.mk.inj (Option.some.inj hx)
    exact hinv.ready t r (by rw [hpc]; rfl)
  · next hpc => exact releasing_rootsStep (by rw [hpc]; rfl) rfl hrun
  · next hpc => exact releasing_rootsStep (by rw [hpc]; rfl) rfl hrun
  · cases hrun
    exact ⟨.kept (rootsKept_of_eq rfl) rfl, fun _ h => h⟩

theorem answer_rootsStep {n va : ℕ} {k : ℕ → State T → Except Trap (State T)} (pager : Pager)
    (hk : s.asking t = some (n, k)) (hrun : k va { s with pager := pager } = .ok s') :
    RootsStep s s' t ∧ (((s.pc t).wantsRefpage = true → va ≠ 0) → NoneFailed s s') := by
  unfold State.asking at hk
  split at hk
  · next hpc =>
    obtain ⟨rfl, rfl⟩ := Prod.mk.inj (Option.some.inj hk)
    dsimp only at hrun
    split at hrun
    · cases hrun
      exact ⟨.kept (rootsKept_of_eq rfl) (by rw [goto_self, hpc]; rfl),
        fun _ => update_failed rfl⟩
    · cases hrun
      exact ⟨.kept (rootsKept_of_eq rfl) (by rw [goto_self, hpc]; rfl),
        fun _ => update_failed rfl⟩
  · next hpc =>
    obtain ⟨rfl, rfl⟩ := Prod.mk.inj (Option.some.inj hk)
    cases hrun
    refine ⟨.kept (rootsKept_of_eq rfl) (by rw [goto_self, hpc]; rfl), fun hva =>
      update_failed ?_⟩
    simpa [Pc.failed] using hva (by rw [hpc]; rfl)
  · next hpc =>
    obtain ⟨rfl, rfl⟩ := Prod.mk.inj (Option.some.inj hk)
    dsimp only at hrun
    split at hrun
    · cases hrun
      exact ⟨.kept (rootsKept_of_eq rfl) (by rw [ret_self, hpc]; rfl),
        fun _ => update_failed rfl⟩
    · obtain ⟨-, -, hrun⟩ := bind_eq_ok hrun
      cases hrun
      exact ⟨.kept (rootsKept_of_eq rfl) (by rw [ret_self, hpc]; rfl),
        fun _ => update_failed rfl⟩
  · cases hk

/-- What a step does to the roots, for every action. -/
theorem step_rootsStep {all : List ℕ} {free : ℕ → List ℕ} {a : Action T} (hinv : Inv s all free)
    (hstep : s.step a = some (.ok s')) :
    (match a.thread with
    | some t => RootsStep s s' t
    | none => s'.heap.kheaproots = s.heap.kheaproots ∧ s'.pc = s.pc) ∧
    ((∀ t, a = .run t 0 → (s.pc t).wantsRefpage = false) → NoneFailed s s') := by
  cases a with
  | kmalloc t sz =>
    simp only [State.step] at hstep
    split at hstep
    · next hc =>
      split at hstep
      · cases hstep
        exact ⟨.kept (rootsKept_of_eq rfl) (by rw [goto_self, hc.1]; rfl),
          fun _ => update_failed rfl⟩
      · exact (subpageKmalloc_rootsStep hc.1 (Option.some.inj hstep)).imp_right fun h _ => h
    · cases hstep
  | kfree t ptr =>
    simp only [State.step] at hstep
    split at hstep
    · next hc => exact (kfree_rootsStep hc.1 (Option.some.inj hstep)).imp_right fun h _ => h
    · cases hstep
  | run t va =>
    simp only [State.step] at hstep
    split at hstep
    · next n k hk =>
      split at hstep
      · next hva =>
        subst hva
        refine (answer_rootsStep s.pager hk (Option.some.inj hstep)).imp_right
          fun h hvain => h fun hw => ?_
        exact absurd (hvain t rfl) (by simp [hw])
      · next hva =>
        split at hstep
        · exact (answer_rootsStep _ hk (Option.some.inj hstep)).imp_right fun h _ => h fun _ => hva
        · cases hstep
    · split at hstep
      · cases hstep
      · exact (next_rootsStep hinv (Option.some.inj hstep)).imp_right fun h _ => h
  | store addr val =>
    simp only [State.step] at hstep
    split at hstep
    · cases hstep
      exact ⟨⟨rfl, rfl⟩, fun _ _ h => h⟩
    · cases hstep

/-! ### Any number of threads -/

omit [DecidableEq T] in
/-- A root that has a page keeps it. -/
theorem RootsStep.page_kept (h : RootsStep s s' t) {r : ℕ} (hp : (s.heap.kheaproots r).page ≠ 0) :
    (s'.heap.kheaproots r).page = (s.heap.kheaproots r).page := by
  cases h with
  | kept h _ => exact (h r).1
  | done h _ _ => exact (h r).1
  | failed h _ _ => exact (h r).1
  | take r' b _ h _ => exact (h r).1
  | install r' b va _ _ _ hp' _ h =>
    have hrr : r ≠ r' := by
      rintro rfl
      exact hp hp'
    rw [h r hrr]

/-- A run from one configuration to another. -/
def Leads (T : Type) [DecidableEq T] : Config T → Config T → Prop :=
  Relation.ReflTransGen fun c c' => ∃ a, (system T).step c a = some c'

theorem page_kept_of_leads {c c' : Config T} (hreach : (system T).Reachable c)
    (hlead : Leads T c c') (hc' : c' = .running s') :
    ∃ s, c = .running s ∧ ∀ r, (s.heap.kheaproots r).page ≠ 0 →
      (s'.heap.kheaproots r).page = (s.heap.kheaproots r).page := by
  induction hlead using Relation.ReflTransGen.head_induction_on with
  | refl => exact ⟨s', hc', fun _ _ => rfl⟩
  | head hstep hrest ih =>
    obtain ⟨a, hstep⟩ := hstep
    obtain ⟨s₁, rfl, hkeep⟩ := ih (hreach.step a hstep)
    rename_i c
    cases c with
    | trapped e => exact nomatch hstep
    | running s =>
      obtain ⟨all, free, hinv⟩ := inv_of_reachable hreach
      obtain ⟨res, hres, hc⟩ := step_running hstep
      cases res with
      | error e => exact nomatch hc
      | ok s₂ =>
        obtain rfl : s₁ = s₂ := by simpa using hc
        refine ⟨s, rfl, fun r hp => ?_⟩
        have hroots := (step_rootsStep hinv hres).1
        have h₁ : (s₁.heap.kheaproots r).page = (s.heap.kheaproots r).page := by
          cases ha : a.thread with
          | some t =>
            rw [ha] at hroots
            exact hroots.page_kept hp
          | none =>
            rw [ha] at hroots
            rw [hroots.1]
        rw [hkeep r (by rw [h₁]; exact hp), h₁]

/-- Pageref `b` of root `r` is handed to the page at `page`: it is the pageref of a heap page, or a
thread that wants to make one has taken it. -/
def Handed (s : State T) (r b page : ℕ) : Prop :=
  (∃ prs pr, Chain s.heap.nextAll s.heap.allbase prs ∧ pr ∈ prs ∧ IsRef s.heap pr r b ∧
    (s.heap.refs pr).pageaddr = page) ∨
  ∃ t, (s.pc t).slot = some (r, b) ∧ (s.pc t).page = some page

omit [DecidableEq T] in
theorem Inv.handed_unique {all : List ℕ} {free : ℕ → List ℕ} (h : Inv s all free) {r b p q : ℕ}
    (hp : Handed s r b p) (hq : Handed s r b q) : p = q := by
  rcases hp with ⟨prs, pr, hch, hpr, href, rfl⟩ | ⟨t, hslot, hpage⟩
  · obtain rfl := hch.unique h.blocks.lists.all
    rcases hq with ⟨prs', pr', hch', -, href', rfl⟩ | ⟨t, hslot, -⟩
    · rw [href.2.2.2, href'.2.2.2]
    · exact absurd href ((h.slots.taken t r b hslot).2.2.2 pr hpr)
  · rcases hq with ⟨prs', pr', hch', hpr', href', rfl⟩ | ⟨t', hslot', hpage'⟩
    · obtain rfl := hch'.unique h.blocks.lists.all
      exact absurd href' ((h.slots.taken t r b hslot).2.2.2 pr' hpr')
    · obtain rfl := h.slots.once t t' _ hslot hslot'
      exact Option.some.inj (hpage.symm.trans hpage')

omit [DecidableEq T] in
/-- A page that came too late is still to be freed by one thread, or was freed once. -/
theorem Inv.lost_once {all : List ℕ} {free : ℕ → List ℕ} (h : Inv s all free) {n : ℕ}
    (hn : n ∈ s.lost) :
    (s.pager.frees n = 0 ∧ ∃! t, (s.pc t).spare = some (s.pager.region n).addr) ∨
      s.pager.frees n = 1 := by
  obtain ⟨hlt, hex⟩ := h.lost.lost n hn
  have hle := h.regions.pager.frees n hlt
  by_cases h0 : s.pager.frees n = 0
  · left
    obtain ⟨t, ht⟩ := hex h0
    refine ⟨h0, t, ht, fun t' ht' => ?_⟩
    have := h.regions.ledger.unique (.refpage t') (.refpage t) _ (Pc.refpage_of_spare ht')
      (Pc.refpage_of_spare ht)
    exact Owner.refpage.inj this
  · right
    omega

/-- **Pagerefs are handed out properly**, by any number of threads and whatever the page allocator
answers: no pageref is handed to two pages at a time; a root that has a page keeps it; a page for
pagerefs that came too late is given back once, by the thread that obtained it; and each root counts
its pagerefs in use. -/
theorem pagerefs_sound (T : Type) [DecidableEq T] (s : State T)
    (h : (system T).Reachable (.running s)) :
    (∀ r b p q, Handed s r b p → Handed s r b q → p = q) ∧
    (∀ s', Leads T (.running s) (.running s') → ∀ r, (s.heap.kheaproots r).page ≠ 0 →
      (s'.heap.kheaproots r).page = (s.heap.kheaproots r).page) ∧
    (∀ n ∈ s.lost, (s.pager.frees n = 0 ∧ ∃! t, (s.pc t).spare = some (s.pager.region n).addr) ∨
      s.pager.frees n = 1) ∧
    (∀ t va, (s.pc t).spare = some va →
      ∃ n ∈ s.lost, s.pager.Unreleased n ∧ (s.pager.region n).addr = va) ∧
    ∀ r < numPagerefpages, (s.heap.kheaproots r).numinuse =
      ((Finset.range npagerefsPerPage).filter
        fun b => (s.heap.kheaproots r).inuse b = true).card := by
  obtain ⟨all, free, hinv⟩ := inv_of_reachable h
  refine ⟨fun r b p q => hinv.handed_unique, fun s' hlead r hp => ?_, fun n hn => hinv.lost_once hn,
    hinv.lost.spare, hinv.slots.counted⟩
  obtain ⟨s₀, hs₀, hkeep⟩ := page_kept_of_leads h hlead rfl
  obtain rfl : s = s₀ := by simpa using hs₀
  exact hkeep r hp

/-- The start, with all memory zero. -/
def start (T : Type) : State T where
  heap := { mem := fun _ => 0, refs := fun _ => ⟨0, 0, 0, 0, 0⟩,
            kheaproots := fun _ => ⟨0, fun _ => 0, 0⟩, sizebases := fun _ => 0, allbase := 0 }
  pager := ⟨0, fun _ => ⟨0, 0⟩, fun _ => 0⟩
  pc := fun _ => .idle
  live := []
  lost := []

theorem init_start : (system T).init (.running (start T)) := ⟨_, _, _, _, rfl⟩

/-- A machine that runs, in a state that passes the test. -/
def Config.test (p : State T → Bool) : Config T → Bool
  | .running s => p s
  | .trapped _ => false

omit [DecidableEq T] in
theorem exists_of_test {p : State T → Bool} {x : Option (Config T)}
    (h : x.any (Config.test p) = true) : ∃ s, x = some (.running s) ∧ p s = true := by
  obtain ⟨c, rfl, hc⟩ := (Option.any_eq_true _ _).mp h
  cases c with
  | running s => exact ⟨s, rfl, hc⟩
  | trapped e => cases hc

/-- Two threads that both need the page of the first root: the second one comes too late. -/
def race : List (Action Bool) :=
  [.kmalloc false 1500, .run false 0x80001000, .run false 0,
   .kmalloc true 1500, .run true 0x80002000, .run true 0,
   .run false 0x80003000, .run true 0x80004000, .run false 0, .run true 0,
   .run true 0, .run true 0]

/-- After the race the page that came too late was given back once, and both threads have a block.
-/
theorem pagerefs_sound_race : ∃ s : State Bool, s.lost = [3] ∧ s.pager.frees 3 = 1 ∧
    s.live.length = 2 ∧ (system Bool).Reachable (.running s) ∧
    ∀ r b p q, Handed s r b p → Handed s r b q → p = q := by
  have hrun : (race.foldlM (system Bool).step (.running (start Bool))).any (Config.test fun s =>
      s.lost == [3] && s.pager.frees 3 == 1 && s.live.length == 2) = true := by
    decide +kernel
  obtain ⟨s, hs, htest⟩ := exists_of_test hrun
  simp only [Bool.and_eq_true, beq_iff_eq] at htest
  have hreach := TransitionSystem.reachable_of_run race (.init init_start) hs
  exact ⟨s, htest.1.1, htest.1.2, htest.2, hreach, (pagerefs_sound Bool s hreach).1⟩

/-! ### One thread -/

/-- The page allocations of `allocpagerefpage` succeed. -/
def RefpagesGiven : Config Unit → Action Unit → Prop
  | .running s, .run t va => (s.pc t).wantsRefpage = true → va ≠ 0
  | _, _ => True

/-- Between the steps of a single thread that is given its pages for pagerefs: only the root the
thread is waiting for can have pagerefs in use and no page. -/
structure Tidy (s : State Unit) : Prop where
  inv : ∃ all free, Inv s all free
  waiting : ∀ r < numPagerefpages, (s.heap.kheaproots r).page = 0 →
    (s.heap.kheaproots r).numinuse ≠ 0 → ∃ b, (s.pc ()).slot = some (r, b)
  given : (s.pc ()).failed = false

theorem RootsStep.waiting {s s' : State Unit} (h : RootsStep s s' ()) (hs : Tidy s) :
    ∀ r < numPagerefpages, (s'.heap.kheaproots r).page = 0 →
      (s'.heap.kheaproots r).numinuse ≠ 0 → ∃ b, (s'.pc ()).slot = some (r, b) := by
  intro r hr hp hn
  have hold : RootsKept s.heap s'.heap → ∃ b, (s.pc ()).slot = some (r, b) := by
    intro hk
    have hp₀ : (s.heap.kheaproots r).page = 0 := (hk r).1.symm.trans hp
    exact hs.waiting r hr hp₀ ((hk r).2 hp₀ ▸ hn)
  cases h with
  | kept hk hslot =>
    rw [hslot]
    exact hold hk
  | done hk _ hpage =>
    obtain ⟨b, hb⟩ := hold hk
    exact absurd ((hk r).1.symm.trans hp) (hpage r b hb)
  | failed hk _ hva =>
    obtain ⟨_, _, _, _, _, hpc⟩ := hva
    have := hs.given
    rw [hpc] at this
    exact absurd this (by simp [Pc.failed])
  | take r' b hslot hk hnone =>
    by_cases hrr : r = r'
    · exact ⟨b, by rw [hslot, hrr]⟩
    · obtain ⟨b', hb'⟩ := hs.waiting r hr ((hk r).1.symm.trans hp) ((hk r).2 hrr ▸ hn)
      exact absurd (hnone.symm.trans hb') (by simp)
  | install r' b va hva hslot _ hp' hpva hk =>
    by_cases hrr : r = r'
    · subst hrr
      exact absurd (hpva.symm.trans hp) hva
    · rw [hk r hrr] at hp hn
      obtain ⟨b', hb'⟩ := hs.waiting r hr hp hn
      rw [hslot] at hb'
      exact absurd (Prod.mk.inj (Option.some.inj hb')).1.symm hrr

/-- The step lemma for one thread: it does not stop. -/
theorem Tidy.step {s : State Unit} {a : Action Unit} {c : Config Unit} (h : Tidy s)
    (hgiven : RefpagesGiven (.running s) a) (hstep : (system Unit).step (.running s) a = some c) :
    ∃ s', c = .running s' ∧ Tidy s' := by
  obtain ⟨all, free, hinv⟩ := h.inv
  obtain ⟨res, hres, rfl⟩ := step_running hstep
  rcases hinv.step hres with ⟨s', all', free', rfl, hinv'⟩ | ⟨⟨t, ptr, rfl, hpc⟩, -, hbad⟩
  · obtain ⟨hroots, hfailed⟩ := step_rootsStep hinv hres
    refine ⟨s', rfl, ⟨all', free', hinv'⟩, ?_, ?_⟩
    · cases ha : a.thread with
      | some t =>
        rw [ha] at hroots
        exact hroots.waiting h
      | none =>
        rw [ha] at hroots
        rw [hroots.1, hroots.2]
        exact h.waiting
    · by_contra hf
      have hvain : ∀ t, a = .run t 0 → (s.pc t).wantsRefpage = false := by
        rintro t rfl
        by_contra hw
        exact hgiven (by simpa using hw) rfl
      have := hfailed hvain () (by simpa using hf)
      rw [h.given] at this
      exact absurd this (by decide)
  · obtain ⟨r, hr, hp, hn⟩ := hbad
    obtain ⟨b, hb⟩ := h.waiting r hr hp hn
    rw [show s.pc () = .idle from hpc] at hb
    exact nomatch hb

/-- What the heap looks like, whenever the spinlock is free: the pagerefs `prs` are those of the
heap pages, and `free pr` the free blocks of the page of `pr`. -/
structure Sound (s : State T) (prs : List ℕ) (free : ℕ → List ℕ) : Prop where
  /-- What `kmalloc` answered has room for what was asked for, on a heap page or in a region of its
  own. -/
  room : ∀ x ∈ s.live, (∃ pr ∈ prs, (s.heap.refs pr).pageaddr ≤ x.addr ∧
      x.addr + x.size ≤ (s.heap.refs pr).pageaddr + pageSize) ∨
    ∃ n, s.pager.Unreleased n ∧ (s.pager.region n).addr = x.addr ∧
      x.addr + x.size ≤ (s.pager.region n).fin
  /-- No block is live twice: what `kmalloc` answers was not live. -/
  once : (s.live.map Block.addr).Nodup
  /-- Live blocks do not meet. -/
  apart : ∀ x ∈ s.live, ∀ y ∈ s.live, x ≠ y → x.addr ≠ y.addr ∧
    (x.addr + x.size ≤ y.addr ∨ y.addr + y.size ≤ x.addr)
  /-- Live blocks do not meet the pagerefs. -/
  storage : ∀ x ∈ s.live, ∀ r < numPagerefpages, (s.heap.kheaproots r).page ≠ 0 →
    x.addr + x.size ≤ (s.heap.kheaproots r).page ∨
      (s.heap.kheaproots r).page + pageSize ≤ x.addr
  /-- Live blocks do not meet free ones. -/
  unused : ∀ x ∈ s.live, ∀ pr ∈ prs, ∀ a ∈ free pr,
    x.addr + x.size ≤ a ∨ a + blocksize (s.heap.refs pr).blocktype ≤ x.addr
  /-- The free list of a page visits `nfree` blocks of the page, no block twice, none of them
  live. -/
  freelist : ∀ pr ∈ prs, Chain s.heap.mem (s.heap.refs pr).freelist (free pr) ∧
    (free pr).length = (s.heap.refs pr).nfree ∧ (free pr).Nodup ∧
    ∀ a ∈ free pr, a ∈ blocksOf (s.heap.refs pr).pageaddr (s.heap.refs pr).blocktype ∧
      ∀ x ∈ s.live, x.addr ≠ a
  /-- Each heap page is once on the list of all pages. -/
  all : Chain s.heap.nextAll s.heap.allbase prs ∧ prs.Nodup ∧
    ∀ pr ∈ prs, ∀ pr' ∈ prs, (s.heap.refs pr).pageaddr = (s.heap.refs pr').pageaddr → pr = pr'
  /-- Each heap page is once on the list of its block type, and on no other. -/
  samesize : (∀ pr ∈ prs, (s.heap.refs pr).blocktype < nsizes) ∧ ∀ t < nsizes,
    ∃ l, Chain s.heap.nextSamesize (s.heap.sizebases t) l ∧ l.Nodup ∧
      ∀ pr, pr ∈ l ↔ pr ∈ prs ∧ (s.heap.refs pr).blocktype = t
  /-- A page is in the heap if and only if one of its blocks is live. -/
  kept : ∀ page, (∃ pr ∈ prs, (s.heap.refs pr).pageaddr = page) ↔ page % pageSize = 0 ∧
    ∃ x ∈ s.live, x.size < largestSubpageSize ∧ page ≤ x.addr ∧ x.addr < page + pageSize

section Sound

omit [DecidableEq T]

variable {all : List ℕ} {free : ℕ → List ℕ}

/-- A large block does not meet the page of another owner. -/
theorem Inv.big_fin (h : Inv s all free) {x : Block} (hx : x ∈ s.live)
    (hbig : largestSubpageSize ≤ x.size) {w : Owner T} {a : ℕ}
    (hw : Owns s.heap s.live all s.pc w a) (hne : w ≠ .big) :
    x.addr + x.size ≤ a ∨ a + pageSize ≤ x.addr := by
  obtain ⟨n, hn, hreg⟩ := h.regions.big x hx hbig
  obtain ⟨m, hm, hma⟩ := h.regions.ledger.used_of_holds hw
  have hnm : n ≠ m := by
    rintro rfl
    refine hne (h.regions.ledger.unique w .big a hw ⟨x, hx, hbig, ?_⟩)
    rw [← hma, hreg]
  have hap := h.regions.pager.apart n m hn hm hnm
  have hfin := Region.lt_fin (h.regions.pager.region m hm).2.2.1
  have hle := le_npages x.size
  rw [hma] at hap hfin
  rw [hreg] at hap
  unfold Region.fin at hap hfin
  dsimp only at hap
  omega

theorem Inv.live_apart (h : Inv s all free) {x y : Block} (hx : x ∈ s.live) (hy : y ∈ s.live)
    (hne : x.addr ≠ y.addr) : x.addr + x.size ≤ y.addr ∨ y.addr + y.size ≤ x.addr := by
  by_cases hxs : x.size < largestSubpageSize
  · obtain ⟨p, hp, hxp, -, hxb⟩ := h.blocks.small x hx hxs
    obtain ⟨hlo, hhi, -⟩ := h.blocks.bounds hp hxp
    by_cases hys : y.size < largestSubpageSize
    · obtain ⟨q, hq, hyq, -, hyb⟩ := h.blocks.small y hy hys
      obtain ⟨hlo', hhi', -⟩ := h.blocks.bounds hq hyq
      by_cases hpq : p = q
      · subst hpq
        have := blocksOf_apart hxp hyq hne
        omega
      · have := h.regions.pagesApart p hp q hq hpq
        omega
    · have := h.big_fin hy (not_lt.mp hys) (w := .heapPage p) ⟨hp, rfl⟩ (by simp)
      omega
  · by_cases hys : y.size < largestSubpageSize
    · obtain ⟨q, hq, hyq, -, hyb⟩ := h.blocks.small y hy hys
      obtain ⟨hlo', hhi', -⟩ := h.blocks.bounds hq hyq
      have := h.big_fin hx (not_lt.mp hxs) (w := .heapPage q) ⟨hq, rfl⟩ (by simp)
      omega
    · obtain ⟨n, hn, hnx⟩ := h.regions.big x hx (not_lt.mp hxs)
      obtain ⟨m, hm, hmy⟩ := h.regions.big y hy (not_lt.mp hys)
      have hnm : n ≠ m := by
        rintro rfl
        exact hne (Region.mk.inj (hnx.symm.trans hmy)).1
      have hap := h.regions.pager.apart n m hn hm hnm
      have hlx := le_npages x.size
      have hly := le_npages y.size
      rw [hnx, hmy] at hap
      unfold Region.fin at hap
      dsimp only at hap
      omega

theorem Inv.live_unused (h : Inv s all free) {x : Block} (hx : x ∈ s.live) {pr a : ℕ}
    (hpr : pr ∈ all) (ha : a ∈ free pr) :
    x.addr ≠ a ∧ (x.addr + x.size ≤ a ∨ a + blocksize (s.heap.refs pr).blocktype ≤ x.addr) := by
  have hblk := (h.blocks.page pr hpr).blocks a ha
  obtain ⟨hlo, hhi, h16⟩ := h.blocks.bounds hpr hblk
  by_cases hxs : x.size < largestSubpageSize
  · obtain ⟨q, hq, hxq, hxf, hxb⟩ := h.blocks.small x hx hxs
    obtain ⟨hlo', hhi', h16'⟩ := h.blocks.bounds hq hxq
    by_cases hpq : q = pr
    · subst hpq
      have hne : x.addr ≠ a := fun he => hxf (he ▸ ha)
      have := blocksOf_apart hxq hblk hne
      exact ⟨hne, by omega⟩
    · have := h.regions.pagesApart q hq pr hpr hpq
      exact ⟨by omega, by omega⟩
  · have := h.big_fin hx (not_lt.mp hxs) (w := .heapPage pr) ⟨hpr, rfl⟩ (by simp)
    have hpos : 0 < x.size := lt_of_lt_of_le (by decide) (not_lt.mp hxs)
    exact ⟨by omega, by omega⟩

/-- The invariant says all of it. -/
theorem Inv.sound (h : Inv s all free) : Sound s all free where
  room := by
    intro x hx
    by_cases hxs : x.size < largestSubpageSize
    · obtain ⟨q, hq, hxq, -, hxb⟩ := h.blocks.small x hx hxs
      obtain ⟨hlo', hhi', -⟩ := h.blocks.bounds hq hxq
      exact .inl ⟨q, hq, hlo', by omega⟩
    · obtain ⟨n, hn, hreg⟩ := h.regions.big x hx (not_lt.mp hxs)
      have hle := le_npages x.size
      refine .inr ⟨n, hn, by rw [hreg], ?_⟩
      rw [hreg]
      unfold Region.fin
      dsimp only
      omega
  once := h.once
  apart := by
    intro x hx y hy hne
    have hne' : x.addr ≠ y.addr := fun he => hne (List.inj_on_of_nodup_map h.once hx hy he)
    exact ⟨hne', h.live_apart hx hy hne'⟩
  storage := by
    intro x hx r hr hp
    have hroot : Owns s.heap s.live all s.pc (.root r) (s.heap.kheaproots r).page := ⟨hr, hp, rfl⟩
    by_cases hxs : x.size < largestSubpageSize
    · obtain ⟨q, hq, hxq, -, hxb⟩ := h.blocks.small x hx hxs
      obtain ⟨hlo', hhi', -⟩ := h.blocks.bounds hq hxq
      have := h.regions.apart (w := .heapPage q) ⟨hq, rfl⟩ hroot (by simp)
      omega
    · exact h.big_fin hx (not_lt.mp hxs) hroot (by simp)
  unused := fun x hx pr hpr a ha => (h.live_unused hx hpr ha).2
  freelist := by
    intro pr hpr
    have hpage := h.blocks.page pr hpr
    exact ⟨hpage.chain, hpage.nfree.symm, hpage.chain.nodup, fun a ha =>
      ⟨hpage.blocks a ha, fun x hx => (h.live_unused hx hpr ha).1⟩⟩
  all := by
    refine ⟨h.blocks.lists.all, h.blocks.lists.all.nodup, fun pr hpr pr' hpr' he => ?_⟩
    by_contra hne
    have := h.regions.pagesApart pr hpr pr' hpr' hne
    unfold pageSize at this
    omega
  samesize := by
    refine ⟨fun pr hpr => (h.blocks.page pr hpr).blocktype, fun t ht => ?_⟩
    have hchain := h.blocks.lists.samesize t ht
    exact ⟨_, hchain, hchain.nodup, fun pr => by simp⟩
  kept := by
    intro page
    constructor
    · rintro ⟨pr, hpr, rfl⟩
      obtain ⟨a, ha, hf⟩ := h.nonempty pr hpr
      obtain ⟨x, hx, rfl, hxs⟩ := h.blocks.used pr hpr a ha hf
      obtain ⟨hlo, hhi, h16⟩ := h.blocks.bounds hpr ha
      obtain ⟨-, -, -, -, hal, -⟩ := h.regions.owned (w := .heapPage pr) ⟨hpr, rfl⟩
      exact ⟨hal, x, hx, hxs, hlo, by omega⟩
    · rintro ⟨hal, x, hx, hxs, hlo, hhi⟩
      obtain ⟨q, hq, hxq, -, -⟩ := h.blocks.small x hx hxs
      obtain ⟨hlo', hhi', h16'⟩ := h.blocks.bounds hq hxq
      obtain ⟨-, -, -, -, hal', -⟩ := h.regions.owned (w := .heapPage q) ⟨hq, rfl⟩
      refine ⟨q, hq, ?_⟩
      unfold pageSize at *
      omega

end Sound

/-- **The heap is sound.** One thread calls `kmalloc` and `kfree` in any order, and is given the
pages it asks for as pageref pages; others may fail. It does not stop, and in every state it comes
through the heap is as described. -/
theorem heap_sound (c : Config Unit) (h : (system Unit).ReachableWhile RefpagesGiven c) :
    ∃ s prs free, c = .running s ∧ Sound s prs free := by
  have htidy : ∃ s, c = .running s ∧ Tidy s := by
    refine h.invariant (P := fun c => ∃ s, c = .running s ∧ Tidy s) ?_ ?_
    · rintro c ⟨mem, refs, region, frees, rfl⟩
      exact ⟨_, rfl, ⟨_, _, inv_init mem refs region frees⟩, fun r _ _ hn => absurd rfl hn, rfl⟩
    · rintro c a c' ⟨s, rfl, hs⟩ hgiven hstep
      exact hs.step hgiven hstep
  obtain ⟨s, rfl, hs⟩ := htidy
  obtain ⟨all, free, hinv⟩ := hs.inv
  exact ⟨s, all, free, rfl, hinv.sound⟩

/-- A heap page is made, a second page cannot be had, and the first one is given back. -/
def oneByOne : List (Action Unit) :=
  [.kmalloc () 1500, .run () 0x80001000, .run () 0, .run () 0x80002000, .run () 0,
   .kmalloc () 2000, .kmalloc () 2047, .run () 0, .kmalloc () 2048, .run () 0x80003000,
   .kfree () 0x80001800, .kfree () 0x80001000, .run () 0]

/-- A test for `RefpagesGiven`. -/
def refpagesGiven : Config Unit → Action Unit → Bool
  | .running s, .run t va => !(s.pc t).wantsRefpage || va ≠ 0
  | _, _ => true

theorem refpagesGiven_of_test (c : Config Unit) (a : Action Unit) (h : refpagesGiven c a = true) :
    RefpagesGiven c a := by
  cases c with
  | trapped e => trivial
  | running s =>
    cases a with
    | run t va =>
      intro hw
      simpa [refpagesGiven, hw] using h
    | _ => trivial

theorem heap_sound_oneByOne : ∃ s : State Unit, s.live = [⟨0x80003000, 2048⟩] ∧
    (system Unit).ReachableWhile RefpagesGiven (.running s) ∧
    ∃ s' prs free, Config.running s = .running s' ∧ Sound s' prs free := by
  have hrun : (oneByOne.foldlM (fun c a => if refpagesGiven c a then (system Unit).step c a
      else none) (.running (start Unit))).any
        (Config.test fun s => s.live == [⟨0x80003000, 2048⟩]) = true := by
    decide +kernel
  obtain ⟨s, hs, hlive⟩ := exists_of_test hrun
  have hreach := TransitionSystem.reachableWhile_of_run refpagesGiven_of_test oneByOne
    (.init init_start) hs
  exact ⟨s, by simpa using hlive, hreach, heap_sound _ hreach⟩

end Kmalloc

end Os161
