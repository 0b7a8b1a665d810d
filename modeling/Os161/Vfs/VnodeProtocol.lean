import Os161.Vfs.VnodeLife
import Mathlib.Data.Set.Card

/-!
# The reference protocol of vnodes

Every step keeps the invariant, and so it holds in every state that any number of threads can bring
about. What it says of the counts, of vnodes that are gone and of inode numbers is the protocol that
callers of `VOP_INCREF` and `VOP_DECREF` rely on.

## Main results

* `Vnode.inv_step`, `Vnode.inv_of_reachable`
* `Vnode.reference_protocol`
-/

namespace Os161

namespace Vnode

variable {T V I : Type*} [DecidableEq T] [DecidableEq V] [DecidableEq I]

section Steps

variable {s s' : State T V I} {r : V → Option T} {t u : T} {v : V} {p : Pc V I}

/-! ### Assembling the step lemma -/

/-- What one thread does inside `sfs_loadvnode` and `sfs_reclaim` keeps the invariant. -/
theorem inv_runStep {mem : Option V} (h : Inv s r) (hs : runStep s t mem = some s') :
    ∃ r', Inv s' r' := by
  have hl := h.locals t
  unfold runStep at hs
  cases hpc : s.pc t <;> rw [hpc] at hs hl <;> dsimp only at hs
  case out => cases hs
  case loadFind ino =>
    obtain rfl := Option.some.inj hs
    exact ⟨r, h.find hpc⟩
  case loadIncref v =>
    obtain rfl := Option.some.inj hs
    exact ⟨r, h.incref (h.table v hl.2) (Or.inr ⟨hpc, hl.1⟩)⟩
  case loadCreate ino =>
    cases mem with
    | none =>
      obtain rfl := Option.some.inj hs
      exact ⟨r, h.goto trivial (by rw [hpc]; rfl) (by simp [hpc])⟩
    | some v =>
      simp only [loadCreate, Option.ite_none_right_eq_some, Option.some.injEq] at hs
      obtain ⟨hv, rfl⟩ := hs
      exact ⟨r, h.create hpc hv⟩
  case reclaimEnter v =>
    rw [if_pos (show s.svIno v ≠ none from hl)] at hs
    obtain rfl := Option.some.inj hs
    exact ⟨r, h.goto hl (by rw [hpc]; rfl) (by simp [hpc])⟩
  case reclaimLock v =>
    simp only [Option.ite_none_right_eq_some, Option.some.injEq] at hs
    obtain ⟨hfree, rfl⟩ := hs
    have hpc' : (s.biglockAcquire t).pc t = .reclaimLock v := hpc
    exact ⟨r, (h.biglockAcquire hfree).goto ⟨rfl, hl⟩ (by rw [hpc']; rfl) (by simp [hpc'])⟩
  case reclaimCheck v =>
    obtain rfl := Option.some.inj hs
    exact h.reclaimCheck hpc
  case reclaimBusy =>
    obtain rfl := Option.some.inj hs
    have hgo : Inv (s.goto t .out) r := h.goto trivial (by rw [hpc]; rfl) (by simp [hpc])
    rw [← biglockRelease_goto]
    refine ⟨r, hgo.biglockRelease hl fun s' _ => ?_⟩
    rw [goto_pc_self]
    trivial
  case reclaimRemove v =>
    obtain rfl := Option.some.inj hs
    exact ⟨r, h.remove hpc⟩
  case reclaimCleanup v =>
    obtain rfl := Option.some.inj hs
    exact ⟨r, h.cleanup hpc⟩
  case reclaimUnlock v =>
    obtain rfl := Option.some.inj hs
    have hgo : Inv (s.goto t (.reclaimFree v)) r :=
      h.goto hl.2 (by rw [hpc]; rfl) (by simp [hpc])
    rw [← biglockRelease_goto]
    refine ⟨r, hgo.biglockRelease hl.1 fun s' hslot => ?_⟩
    rw [goto_pc_self, Local, hslot]
    exact hl.2
  case reclaimFree v =>
    rw [if_pos (show s.slot v = .cleaned from hl)] at hs
    obtain rfl := Option.some.inj hs
    exact ⟨_, h.free hpc⟩

theorem inv_step {a : Action T V I} (h : Inv s r) (hs : step s a = some s') :
    ∃ r', Inv s' r' := by
  cases a with
  | biglockAcquire t =>
    simp only [step, Option.ite_none_right_eq_some, Option.some.injEq] at hs
    obtain ⟨⟨-, hfree⟩, rfl⟩ := hs
    exact ⟨r, h.biglockAcquire hfree⟩
  | biglockRelease t =>
    simp only [step, Option.ite_none_right_eq_some, Option.some.injEq] at hs
    obtain ⟨⟨hpc, hlock⟩, rfl⟩ := hs
    refine ⟨r, h.biglockRelease hlock fun s' _ => ?_⟩
    rw [hpc]
    trivial
  | load t ino =>
    simp only [step, Option.ite_none_right_eq_some, Option.some.injEq] at hs
    obtain ⟨⟨hpc, hlock⟩, rfl⟩ := hs
    exact ⟨r, h.goto hlock (by rw [hpc]; rfl) (by simp [hpc])⟩
  | incref t v =>
    simp only [step, Option.ite_none_right_eq_some, Option.some.injEq] at hs
    obtain ⟨⟨hpc, hm⟩, rfl⟩ := hs
    have hinv := h.incref (h.held t v hm) (Or.inl ⟨hpc, outstanding_pos hm⟩)
    have hpc' : (vnodeIncref s t v).pc t = .out := by
      rw [← hpc, vnodeIncref]
      cases s.slot v <;> rfl
    have hstay : (vnodeIncref s t v).goto t .out = vnodeIncref s t v := by
      rw [State.goto, ← hpc', Function.update_eq_self]
    rw [hstay] at hinv
    exact ⟨r, hinv⟩
  | give t u v =>
    simp only [step, Option.ite_none_right_eq_some, Option.some.injEq] at hs
    obtain ⟨hm, rfl⟩ := hs
    exact ⟨r, h.give hm⟩
  | decref t v =>
    simp only [step, Option.ite_none_right_eq_some, Option.some.injEq] at hs
    obtain ⟨⟨hpc, hm⟩, rfl⟩ := hs
    exact h.decref hpc hm
  | run t mem => exact inv_runStep h hs

end Steps

theorem inv_of_reachable {s : State T V I} (h : (system T V I).Reachable s) : ∃ r, Inv s r := by
  refine h.invariant (P := fun s => ∃ r, Inv s r) ?_ fun s a s' hi hs => ?_
  · rintro s rfl
    exact ⟨_, inv_init⟩
  · obtain ⟨r, hr⟩ := hi
    exact inv_step hr hs

/-! ### The protocol -/

/-- The vnode a thread uses in its next step, if that is inside the vnode code. -/
def Pc.uses? : Pc V I → Option V
  | .loadIncref v | .reclaimEnter v | .reclaimLock v | .reclaimCheck v | .reclaimRemove v
  | .reclaimCleanup v => some v
  | _ => none

/-- The threads with a pending reclaim of a vnode. -/
def State.pending (s : State T V I) (v : V) : Set T := {t | (s.pc t).pending? = some v}

section

variable {s : State T V I} {r : V → Option T} {t : T} {v : V}

omit [DecidableEq V] [DecidableEq I] in
theorem Pc.target_of_pending {p : Pc V I} (h : p.pending? = some v) : p.target? = some v := by
  cases p <;> cases h <;> rfl

omit [DecidableEq T] [DecidableEq I] in
/-- A thread that reclaims a vnode that is still there has a pending reclaim. -/
theorem Inv.pending_of_live (h : Inv s r) (hv : s.Live v) (hr : r v = some t) :
    (s.pc t).pending? = some v := by
  have ht := (h.owner t v).mpr hr
  have hl := h.locals t
  obtain ⟨ino, n, hslot⟩ := State.live_iff.mp hv
  cases hp : s.pc t <;> rw [hp] at ht hl <;> cases ht
  case reclaimUnlock =>
    have hc := hl.2
    rw [hslot] at hc
    cases hc
  case reclaimFree =>
    rw [Local, hslot] at hl
    cases hl
  all_goals rfl

omit [DecidableEq I] [DecidableEq T] in
theorem Inv.owner_of_pending (h : Inv s r) (ht : t ∈ s.pending v) : r v = some t :=
  (h.owner t v).mp (Pc.target_of_pending ht)

omit [DecidableEq I] [DecidableEq T] in
/-- At most one reclaim of a vnode is pending. -/
theorem Inv.pending_subsingleton (h : Inv s r) : (s.pending v).Subsingleton := by
  intro t ht u hu
  have hr := h.owner_of_pending ht
  rw [h.owner_of_pending hu] at hr
  exact (Option.some.inj hr).symm

omit [DecidableEq T] [DecidableEq I] in
theorem Inv.ncard_pending (h : Inv s r) (hv : s.Live v) :
    Set.ncard (s.pending v) = if (r v).isSome then 1 else 0 := by
  cases hr : r v with
  | none =>
    have hempty : s.pending v = ∅ := by
      ext t
      constructor
      · intro ht
        have hown := h.owner_of_pending ht
        rw [hr] at hown
        cases hown
      · exact False.elim
    rw [hempty, Set.ncard_empty]
    rfl
  | some t =>
    have hone : s.pending v = {t} := by
      ext u
      constructor
      · intro hu
        have hown := h.owner_of_pending hu
        rw [hr] at hown
        exact (Option.some.inj hown).symm
      · rintro rfl
        exact h.pending_of_live hv hr
    rw [hone, Set.ncard_singleton]
    rfl

omit [DecidableEq T] [DecidableEq I] in
/-- The vnode a thread is about to use is there. -/
theorem Inv.live_of_uses (h : Inv s r) (hu : (s.pc t).uses? = some v) : s.Live v := by
  have hl := h.locals t
  cases hp : s.pc t <;> rw [hp] at hu hl <;> cases hu
  case loadIncref => exact h.table v hl.2
  case reclaimEnter => exact hl
  case reclaimLock => exact hl
  case reclaimCheck => exact hl.2
  case reclaimRemove => exact hl.2.1
  case reclaimCleanup => exact hl.2.1

end

/-- **The reference protocol of vnodes.** For any number of threads, in every reachable state:

* `vn_refcount` of a vnode is the number of references outstanding plus the number of pending
  reclaims, of which there is at most one;
* a vnode has been destroyed once if it is gone and never if it is not, no reference to a destroyed
  one is outstanding, and none is when a thread is about to destroy one;
* nobody has used a vnode that is not there, and every reference and every thread's next step is to
  one that is;
* no two vnodes have the same inode number. -/
theorem reference_protocol {s : State T V I} (h : (system T V I).Reachable s) :
    (∀ v ino n, s.slot v = .live ino n →
      n = s.outstanding v + Set.ncard (s.pending v) ∧ (s.pending v).Subsingleton) ∧
      (∀ v, s.destroyed v = if s.slot v = .cleaned ∨ s.slot v = .freed then 1 else 0) ∧
      (∀ v, s.destroyed v ≠ 0 → s.outstanding v = 0) ∧
      (∀ t v, s.pc t = .reclaimCleanup v → s.outstanding v = 0) ∧
      s.fault = false ∧
      (∀ t v, (t, v) ∈ s.refs ∨ (s.pc t).uses? = some v → s.Live v) ∧
      ∀ v w ino, s.svIno v = some ino → s.svIno w = some ino → v = w := by
  obtain ⟨r, hinv⟩ := inv_of_reachable h
  refine ⟨?_, ?_, ?_, ?_, hinv.noFault, ?_, hinv.unique⟩
  · intro v ino n hv
    rw [hinv.ncard_pending (State.live_iff.mpr ⟨ino, n, hv⟩)]
    exact ⟨hinv.count v ino n hv, hinv.pending_subsingleton⟩
  · intro v
    by_cases hd : s.slot v = .cleaned ∨ s.slot v = .freed
    · rw [if_pos hd]
      exact hinv.destroyed v hd
    · rw [if_neg hd]
      push Not at hd
      exact hinv.undestroyed v hd.1 hd.2
  · intro v hd
    refine outstanding_eq_zero fun t ht => hd ?_
    obtain ⟨ino, n, hslot⟩ := State.live_iff.mp (hinv.held t v ht)
    exact hinv.undestroyed v (by simp [hslot]) (by simp [hslot])
  · intro t v hpc
    have hl := hinv.locals t
    rw [hpc] at hl
    exact hl.2.2.1
  · rintro t v (hr | hu)
    · exact hinv.held t v hr
    · exact hinv.live_of_uses hu

/-- Thread `0` makes a vnode for inode `7` and drops its only reference; before it gets to look
again, thread `1` finds the vnode in the table. -/
def revived : List (Action (Fin 2) (Fin 2) ℕ) :=
  [.biglockAcquire 0, .load 0 7, .run 0 none, .run 0 (some 1), .biglockRelease 0, .decref 0 1,
    .run 0 none, .biglockAcquire 1, .load 1 7, .run 1 none, .run 1 none]

theorem revived_runs :
    (revived.foldlM (system (Fin 2) (Fin 2) ℕ).step Vnode.init).isSome := by
  decide

theorem reference_protocol_revived : ∃ s : State (Fin 2) (Fin 2) ℕ,
    (system (Fin 2) (Fin 2) ℕ).Reachable s ∧ s.slot 1 = .live 7 2 ∧ s.outstanding 1 = 1 ∧
      2 = s.outstanding 1 + Set.ncard (s.pending 1) := by
  have hreach := TransitionSystem.reachable_of_run revived (.init rfl)
    (Option.some_get revived_runs).symm
  exact ⟨_, hreach, by decide, by decide,
    ((reference_protocol hreach).1 1 7 2 (by decide)).1⟩

end Vnode

end Os161
