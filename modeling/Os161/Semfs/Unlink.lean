import Os161.Lib.Transition
import Mathlib.Tactic.Basic

/-!
# Removing a semaphore while its vnode is reclaimed

`semfs_remove` and `semfs_reclaim` of `kern/fs/semfs/semfs_vnops.c`, one call of each on the same
semaphore, interleaved at every access of `sems_linked`, `sems_hasvnode` and the slot in
`semfs_sems`. Each side clears its own flag and then tests the other's; the one that finds both
clear destroys the semaphore.

The flags are protected by different locks: `semfs_remove` works under `sems_lock`, and
`semfs_reclaim` under `semfs_tablelock`, which `semfs_remove` takes only to clear the slot. So
`semfs_reclaim` may find `sems_linked` clear while `semfs_remove` is not done with the semaphore. It
then destroys the semaphore together with the lock, and `lock_destroy` does not let that pass:
`KASSERT(lock->lk_thread == NULL)` fails, and the kernel panics.

## What is deliberately absent

Other users of the semaphore, and of the directory: `semfs_dirlock` is held throughout by
`semfs_remove`, and nothing else here takes it. The reference count that `semfs_reclaim` looks at
first is that of a last reference.

## Main results

* `destroyed_once` — what holds in runs in which `semfs_reclaim` keeps away (`Apart`)
* `destroyed_held` — a run in which it does not
-/

namespace Os161

namespace Semfs

namespace Unlink

/-- The two threads. -/
inductive Party where
  | remove
  | reclaim
  deriving DecidableEq

/-- Where `semfs_remove` is, from the entry of the semaphore on. -/
inductive RemovePc where
  /-- In `semfs_getsembynum`. -/
  | getsem
  /-- At `lock_acquire(sem->sems_lock)`. -/
  | lockSem
  /-- At `KASSERT(sem->sems_linked)`. -/
  | assertLinked
  /-- At `sem->sems_linked = false`. -/
  | clearLinked
  /-- At the test of `sems_hasvnode`. -/
  | testVnode
  /-- At `lock_acquire(semfs->semfs_tablelock)`. -/
  | lockTable
  /-- At `semfs_semarray_set(.., NULL)`. -/
  | clearSlot
  /-- At `lock_release(semfs->semfs_tablelock)`. -/
  | unlockTable
  /-- At `lock_release(sem->sems_lock)`, to destroy the semaphore next or not. -/
  | unlockSem (destroy : Bool)
  /-- At `semfs_sem_destroy`. -/
  | destroy
  /-- Done with the semaphore, having destroyed it or not. -/
  | done (destroyed : Bool)
  deriving DecidableEq

/-- Where `semfs_reclaim` is, the vnode being the last reference. -/
inductive ReclaimPc where
  /-- At `lock_acquire(semfs->semfs_tablelock)`. -/
  | lockTable
  /-- At `semfs_semarray_get`. -/
  | getsem
  /-- At `KASSERT(sem->sems_hasvnode)`. -/
  | assertVnode
  /-- At `sem->sems_hasvnode = false`. -/
  | clearVnode
  /-- At the test of `sems_linked`. -/
  | testLinked
  /-- At `semfs_semarray_set(.., NULL)`. -/
  | clearSlot
  /-- At `semfs_sem_destroy`. -/
  | destroy
  /-- At `lock_release(semfs->semfs_tablelock)`, having destroyed the semaphore or not. -/
  | unlockTable (destroyed : Bool)
  /-- Done with the semaphore. -/
  | done (destroyed : Bool)
  deriving DecidableEq

/-- The semaphore, the locks, and the two threads. -/
structure State where
  semsLinked : Bool
  semsHasvnode : Bool
  /-- The slot of `semfs_sems` is not `NULL`. -/
  slot : Bool
  semsLock : Option Party
  semfsTablelock : Option Party
  removePc : RemovePc
  reclaimPc : ReclaimPc
  /-- How often the semaphore has been destroyed. -/
  destroys : ℕ
  /-- Its destruction was begun while the other side held `sems_lock`. -/
  destroyedHeld : Bool
  /-- It was touched after it had been destroyed. -/
  touchedLate : Bool
  /-- A `KASSERT` failed, or there was no semaphore in the slot. Then nobody goes on. -/
  panicked : Bool
  deriving DecidableEq

/-- A semaphore that is in the directory and has a vnode, before both calls. -/
def init : State where
  semsLinked := true
  semsHasvnode := true
  slot := true
  semsLock := none
  semfsTablelock := none
  removePc := .getsem
  reclaimPc := .lockTable
  destroys := 0
  destroyedHeld := false
  touchedLate := false
  panicked := false

/-- The semaphore is touched. -/
def State.touch (s : State) : State := { s with touchedLate := s.touchedLate || 0 < s.destroys }

/-- `semfs_sem_destroy`. The lock is destroyed with the semaphore, and `lock_destroy` asserts that
it is free. -/
def State.semfsSemDestroy (s : State) (p : Party) : State :=
  if s.semsLock = none then { s.touch with destroys := s.destroys + 1 }
  else
    { s.touch with
      destroyedHeld := s.destroyedHeld || s.semsLock ≠ some p
      panicked := true }

/-- The next step of `semfs_remove`. -/
def removeStep (s : State) : Option State :=
  match s.removePc with
  | .getsem =>
      if s.semfsTablelock = none then
        if s.slot then some { s with removePc := .lockSem } else some { s with panicked := true }
      else none
  | .lockSem =>
      if s.semsLock = none then
        some { s.touch with semsLock := some .remove, removePc := .assertLinked }
      else none
  | .assertLinked =>
      if s.semsLinked then some { s.touch with removePc := .clearLinked }
      else some { s.touch with panicked := true }
  | .clearLinked => some { s.touch with semsLinked := false, removePc := .testVnode }
  | .testVnode =>
      if s.semsHasvnode = false then some { s.touch with removePc := .lockTable }
      else some { s.touch with removePc := .unlockSem false }
  | .lockTable =>
      if s.semfsTablelock = none then
        some { s with semfsTablelock := some .remove, removePc := .clearSlot }
      else none
  | .clearSlot => some { s with slot := false, removePc := .unlockTable }
  | .unlockTable => some { s with semfsTablelock := none, removePc := .unlockSem true }
  | .unlockSem destroy =>
      some { s.touch with
        semsLock := none, removePc := if destroy then .destroy else .done false }
  | .destroy =>
      let s := s.semfsSemDestroy .remove
      if s.panicked then some s else some { s with removePc := .done true }
  | .done _ => none

/-- The next step of `semfs_reclaim`. -/
def reclaimStep (s : State) : Option State :=
  match s.reclaimPc with
  | .lockTable =>
      if s.semfsTablelock = none then
        some { s with semfsTablelock := some .reclaim, reclaimPc := .getsem }
      else none
  | .getsem =>
      if s.slot then some { s with reclaimPc := .assertVnode } else some { s with panicked := true }
  | .assertVnode =>
      if s.semsHasvnode then some { s.touch with reclaimPc := .clearVnode }
      else some { s.touch with panicked := true }
  | .clearVnode => some { s.touch with semsHasvnode := false, reclaimPc := .testLinked }
  | .testLinked =>
      if s.semsLinked = false then some { s.touch with reclaimPc := .clearSlot }
      else some { s.touch with reclaimPc := .unlockTable false }
  | .clearSlot => some { s with slot := false, reclaimPc := .destroy }
  | .destroy =>
      let s := s.semfsSemDestroy .reclaim
      if s.panicked then some s else some { s with reclaimPc := .unlockTable true }
  | .unlockTable destroyed =>
      some { s with semfsTablelock := none, reclaimPc := .done destroyed }
  | .done _ => none

/-- One step of either thread. -/
def step (s : State) (p : Party) : Option State :=
  if s.panicked then none
  else
    match p with
    | .remove => removeStep s
    | .reclaim => reclaimStep s

/-- One `semfs_remove` and one `semfs_reclaim`. -/
def system : TransitionSystem State Party where
  init s := s = init
  step := step

/-- What the two calls together should do. -/
structure Sound (s : State) : Prop where
  once : s.destroys ≤ 1
  atEnd : (∃ d, s.removePc = .done d) → (∃ d, s.reclaimPc = .done d) → s.destroys = 1
  unheld : s.destroyedHeld = false
  intact : s.touchedLate = false
  noPanic : s.panicked = false

/-- `semfs_reclaim` does not test `sems_linked` while `semfs_remove`, having cleared it, holds
`sems_lock`, unless `semfs_remove` has found `sems_hasvnode` set and is about to release the lock;
and in that case it does not go on to destroy the semaphore before the lock is released. -/
def Apart (s : State) : Party → Prop
  | .remove => True
  | .reclaim =>
      (s.reclaimPc = .testLinked →
        s.semsLinked = true ∨ s.semsLock = none ∨ s.removePc = .unlockSem false) ∧
      (s.reclaimPc = .destroy → s.removePc ≠ .unlockSem false)

instance (s : State) : (p : Party) → Decidable (Apart s p)
  | .remove => inferInstanceAs (Decidable True)
  | .reclaim => inferInstanceAs (Decidable (_ ∧ _))

/-! ### The invariant -/

/-- `semfs_remove` has cleared `sems_linked`. -/
def RemovePc.cleared : RemovePc → Bool
  | .getsem | .lockSem | .assertLinked | .clearLinked => false
  | _ => true

/-- `semfs_remove` holds `sems_lock`. -/
def RemovePc.locked : RemovePc → Bool
  | .getsem | .lockSem | .destroy | .done _ => false
  | _ => true

/-- `semfs_remove` has found that it has to destroy the semaphore. -/
def RemovePc.destroys : RemovePc → Bool
  | .lockTable | .clearSlot | .unlockTable | .unlockSem true | .destroy | .done true => true
  | _ => false

/-- `semfs_remove` holds `semfs_tablelock`. -/
def RemovePc.inTable : RemovePc → Bool
  | .clearSlot | .unlockTable => true
  | _ => false

/-- `semfs_reclaim` holds `semfs_tablelock`. -/
def ReclaimPc.inTable : ReclaimPc → Bool
  | .lockTable | .done _ => false
  | _ => true

/-- `semfs_reclaim` has cleared `sems_hasvnode`. -/
def ReclaimPc.cleared : ReclaimPc → Bool
  | .lockTable | .getsem | .assertVnode | .clearVnode => false
  | _ => true

/-- `semfs_reclaim` has found that it has to destroy the semaphore. -/
def ReclaimPc.destroys : ReclaimPc → Bool
  | .clearSlot | .destroy | .unlockTable true | .done true => true
  | _ => false

/-- `semfs_reclaim` has destroyed the semaphore. -/
def ReclaimPc.destroyed : ReclaimPc → Bool
  | .unlockTable true | .done true => true
  | _ => false

/-- `semfs_reclaim` has found that it has not to destroy it. -/
def ReclaimPc.keeps : ReclaimPc → Bool
  | .unlockTable false | .done false => true
  | _ => false

/-- The invariant of runs in which the two stay apart: everything follows from the two places, and
the places rule out that both sides destroy the semaphore. -/
structure Inv (s : State) : Prop where
  linked : s.semsLinked = !s.removePc.cleared
  hasvnode : s.semsHasvnode = !s.reclaimPc.cleared
  lock : s.semsLock = if s.removePc.locked then some .remove else none
  /-- Whoever holds `semfs_tablelock` is in its section, and the other is not. -/
  table : s.semfsTablelock =
    if s.removePc.inTable then some .remove else if s.reclaimPc.inTable then some .reclaim else none
  alone : s.removePc.inTable = true → s.reclaimPc.inTable = false
  /-- Only one of them clears the slot. -/
  slot : s.slot = false → s.removePc.destroys = true ∨ s.reclaimPc.destroys = true
  /-- `semfs_remove` destroys the semaphore only if `semfs_reclaim` has left it. Otherwise it waits
  for `semfs_tablelock`, and `semfs_reclaim` for it. -/
  keeps : s.removePc.destroys = true →
    s.reclaimPc.keeps = true ∨ s.removePc = .lockTable ∧ s.reclaimPc = .testLinked
  /-- `semfs_reclaim` left it before `semfs_remove` found the vnode gone. -/
  kept : s.reclaimPc.keeps = true → s.removePc ≠ .unlockSem false ∧ s.removePc ≠ .done false
  /-- `semfs_reclaim` destroys the semaphore only after `semfs_remove` is done with it. -/
  last : s.reclaimPc.destroys = true → s.removePc = .done false ∨
    s.removePc = .unlockSem false ∧ s.reclaimPc.destroyed = false
  count : s.destroys = (if s.removePc = .done true then 1 else 0) +
    if s.reclaimPc.destroyed then 1 else 0
  unheld : s.destroyedHeld = false
  intact : s.touchedLate = false
  noPanic : s.panicked = false

theorem inv_init : Inv init := by
  constructor <;> decide

/-- After the test of `sems_linked` the matter is decided. -/
theorem ReclaimPc.destroys_or_keeps {c : ReclaimPc} (h : c.cleared = true) (ht : c ≠ .testLinked) :
    c.destroys = true ∨ c.keeps = true := by
  cases c with
  | unlockTable d => cases d <;> simp [ReclaimPc.destroys, ReclaimPc.keeps]
  | done d => cases d <;> simp [ReclaimPc.destroys, ReclaimPc.keeps]
  | _ => simp_all [ReclaimPc.cleared, ReclaimPc.destroys]

theorem ReclaimPc.cleared_of_keeps {c : ReclaimPc} (h : c.keeps = true) : c.cleared = true := by
  cases c <;> simp_all [ReclaimPc.keeps, ReclaimPc.cleared]

/-- Having released the lock, `semfs_remove` is done or has to destroy the semaphore. -/
theorem RemovePc.done_or_destroys {c : RemovePc} (h : c.cleared = true) (hl : c.locked = false) :
    c = .done false ∨ c.destroys = true := by
  cases c with
  | done d => cases d <;> simp [RemovePc.destroys]
  | _ => simp_all [RemovePc.cleared, RemovePc.locked, RemovePc.destroys]

section Steps

variable {s s' : State}

/-- Until one of them has destroyed the semaphore, it is there. -/
theorem Inv.alive (h : Inv s) (hr : s.removePc ≠ .done true) (hc : s.reclaimPc.destroyed = false) :
    s.destroys = 0 := by
  rw [h.count, if_neg hr, hc]
  rfl

/-- Touching a semaphore that is there changes nothing. -/
theorem touch_of_alive (h : s.destroys = 0) : s.touch = s := by
  cases s
  simp_all [State.touch]

/-- A semaphore that is there, and whose lock is free, can be destroyed. -/
theorem semfsSemDestroy_of_free {p : Party} (hfree : s.semsLock = none) (halive : s.destroys = 0) :
    s.semfsSemDestroy p = { s with destroys := s.destroys + 1 } := by
  rw [State.semfsSemDestroy, if_pos hfree, touch_of_alive halive]

theorem ReclaimPc.destroys_of_destroyed {c : ReclaimPc} (h : c.destroyed = true) :
    c.destroys = true := by
  cases c with
  | unlockTable d => cases d <;> simp_all [ReclaimPc.destroyed, ReclaimPc.destroys]
  | done d => cases d <;> simp_all [ReclaimPc.destroyed, ReclaimPc.destroys]
  | _ => simp_all [ReclaimPc.destroyed]

/-- While `semfs_remove` is on its way, `semfs_reclaim` has not destroyed the semaphore. -/
theorem Inv.reclaim_waits (h : Inv s) (hr : s.removePc ≠ .done false) :
    s.reclaimPc.destroyed = false := by
  by_contra hd
  have hd : s.reclaimPc.destroyed = true := by simpa using hd
  rcases h.last (ReclaimPc.destroys_of_destroyed hd) with hdone | ⟨-, hnot⟩
  · exact hr hdone
  · rw [hd] at hnot
    cases hnot

/-- While `semfs_remove` is on its way, the semaphore is there. -/
theorem Inv.touch_remove (h : Inv s) (hr : ∀ d, s.removePc ≠ .done d) : s.touch = s :=
  touch_of_alive (h.alive (hr true) (h.reclaim_waits (hr false)))

/-- Until it releases `sems_lock`, `semfs_remove` has the semaphore to itself. -/
theorem Inv.reclaim_keeps_off (h : Inv s)
    (hr : s.removePc ≠ .done false ∧ s.removePc ≠ .unlockSem false) :
    s.reclaimPc.destroys = false := by
  by_contra hd
  rcases h.last (by simpa using hd) with hdone | ⟨hunlock, -⟩
  · exact hr.1 hdone
  · exact hr.2 hunlock

/-- A step of `semfs_remove` keeps the invariant. -/
theorem inv_removeStep (h : Inv s) (hs : removeStep s = some s') : Inv s' := by
  unfold removeStep at hs
  split at hs
  case h_1 hpc =>
    have hd := h.reclaim_keeps_off (by simp [hpc])
    have hslot : s.slot = true := by
      by_contra hslot
      have := h.slot (by simpa using hslot)
      simp [hpc, RemovePc.destroys, hd] at this
    obtain ⟨h1, h2, h3, h4, h5, h6, h7, h8, h9, h10, h11, h12, h13⟩ := h
    rw [hslot] at hs
    split at hs
    · obtain rfl := Option.some.inj hs
      constructor <;>
        simp_all [RemovePc.cleared, RemovePc.locked, RemovePc.destroys, RemovePc.inTable]
    · cases hs
  case h_2 hpc =>
    rw [h.touch_remove (by simp [hpc])] at hs
    obtain ⟨h1, h2, h3, h4, h5, h6, h7, h8, h9, h10, h11, h12, h13⟩ := h
    split at hs
    · obtain rfl := Option.some.inj hs
      constructor <;>
        simp_all [RemovePc.cleared, RemovePc.locked, RemovePc.destroys, RemovePc.inTable]
    · cases hs
  case h_3 hpc =>
    rw [h.touch_remove (by simp [hpc])] at hs
    obtain ⟨h1, h2, h3, h4, h5, h6, h7, h8, h9, h10, h11, h12, h13⟩ := h
    rw [h1, hpc] at hs
    obtain rfl := Option.some.inj hs
    constructor <;>
      simp_all [RemovePc.cleared, RemovePc.locked, RemovePc.destroys, RemovePc.inTable]
  case h_4 hpc =>
    rw [h.touch_remove (by simp [hpc])] at hs
    obtain ⟨h1, h2, h3, h4, h5, h6, h7, h8, h9, h10, h11, h12, h13⟩ := h
    obtain rfl := Option.some.inj hs
    constructor <;>
      simp_all [RemovePc.cleared, RemovePc.locked, RemovePc.destroys, RemovePc.inTable]
  case h_5 hpc =>
    have hd := h.reclaim_keeps_off (by simp [hpc])
    rw [h.touch_remove (by simp [hpc])] at hs
    -- the vnode is gone if `semfs_reclaim` has left the semaphore to us, or will test `sems_linked`
    have hgone : s.semsHasvnode = false ↔
        s.reclaimPc.keeps = true ∨ s.reclaimPc = .testLinked := by
      rw [h.hasvnode, Bool.not_eq_false']
      constructor
      · intro hc
        by_cases ht : s.reclaimPc = .testLinked
        · exact Or.inr ht
        · exact Or.inl ((ReclaimPc.destroys_or_keeps hc ht).resolve_left (by simp [hd]))
      · rintro (hk | ht)
        · exact ReclaimPc.cleared_of_keeps hk
        · rw [ht]
          rfl
    obtain ⟨h1, h2, h3, h4, h5, h6, h7, h8, h9, h10, h11, h12, h13⟩ := h
    split at hs
    · rename_i hv
      have hk := hgone.mp hv
      obtain rfl := Option.some.inj hs
      constructor <;>
        simp_all [RemovePc.cleared, RemovePc.locked, RemovePc.destroys, RemovePc.inTable]
    · rename_i hv
      have hk : s.reclaimPc.keeps = false := by
        by_contra hk
        exact hv (hgone.mpr (Or.inl (by simpa using hk)))
      obtain rfl := Option.some.inj hs
      constructor <;>
        simp_all [RemovePc.cleared, RemovePc.locked, RemovePc.destroys, RemovePc.inTable]
  case h_6 hpc =>
    split at hs
    · rename_i hfree
      have hkeeps : s.reclaimPc.keeps = true := by
        rcases h.keeps (by rw [hpc]; rfl) with hk | ⟨-, ht⟩
        · exact hk
        · -- `semfs_reclaim` would hold `semfs_tablelock`
          have htable := h.table
          rw [hfree, hpc, ht] at htable
          cases htable
      obtain ⟨h1, h2, h3, h4, h5, h6, h7, h8, h9, h10, h11, h12, h13⟩ := h
      obtain rfl := Option.some.inj hs
      constructor <;>
        simp_all [RemovePc.cleared, RemovePc.locked, RemovePc.destroys, RemovePc.inTable]
    · cases hs
  case h_7 hpc =>
    obtain ⟨h1, h2, h3, h4, h5, h6, h7, h8, h9, h10, h11, h12, h13⟩ := h
    obtain rfl := Option.some.inj hs
    constructor <;>
      simp_all [RemovePc.cleared, RemovePc.locked, RemovePc.destroys, RemovePc.inTable]
  case h_8 hpc =>
    obtain ⟨h1, h2, h3, h4, h5, h6, h7, h8, h9, h10, h11, h12, h13⟩ := h
    obtain rfl := Option.some.inj hs
    constructor <;>
      simp_all [RemovePc.cleared, RemovePc.locked, RemovePc.destroys, RemovePc.inTable]
  case h_9 destroy hpc =>
    have hd := h.reclaim_waits (by simp [hpc])
    rw [h.touch_remove (by simp [hpc])] at hs
    obtain ⟨h1, h2, h3, h4, h5, h6, h7, h8, h9, h10, h11, h12, h13⟩ := h
    obtain rfl := Option.some.inj hs
    cases destroy with
    | true =>
      constructor <;>
        simp_all [RemovePc.cleared, RemovePc.locked, RemovePc.destroys, RemovePc.inTable]
    | false =>
      constructor <;>
        simp_all [RemovePc.cleared, RemovePc.locked, RemovePc.destroys, RemovePc.inTable]
  case h_10 hpc =>
    have hd := h.reclaim_keeps_off (by simp [hpc])
    have halive : s.destroys = 0 := h.alive (by simp [hpc]) (h.reclaim_waits (by simp [hpc]))
    obtain ⟨h1, h2, h3, h4, h5, h6, h7, h8, h9, h10, h11, h12, h13⟩ := h
    have hfree : s.semsLock = none := by simp [h3, hpc, RemovePc.locked]
    rw [semfsSemDestroy_of_free hfree halive] at hs
    dsimp only at hs
    rw [if_neg (by simp [h13])] at hs
    obtain rfl := Option.some.inj hs
    constructor <;>
      simp_all [RemovePc.cleared, RemovePc.locked, RemovePc.destroys, RemovePc.inTable]
  case h_11 => cases hs

/-- Before `semfs_reclaim` has tested `sems_linked`, the matter is open. -/
theorem Inv.open_reclaim (h : Inv s) (hk : s.reclaimPc.keeps = false)
    (ht : s.reclaimPc ≠ .testLinked) : s.removePc.destroys = false := by
  by_contra hd
  rcases h.keeps (by simpa using hd) with hkeeps | ⟨-, htest⟩
  · rw [hk] at hkeeps
    cases hkeeps
  · exact ht htest

/-- While `semfs_reclaim` is on its way, the semaphore is there. -/
theorem Inv.touch_reclaim (h : Inv s) (hk : s.reclaimPc.keeps = false)
    (hd : s.reclaimPc.destroyed = false) : s.touch = s := by
  refine touch_of_alive (h.alive (fun hr => ?_) hd)
  rcases h.keeps (by rw [hr]; rfl) with hkeeps | ⟨hlock, -⟩
  · rw [hk] at hkeeps
    cases hkeeps
  · rw [hr] at hlock
    cases hlock

/-- If `semfs_reclaim` may test `sems_linked` and finds it clear, `semfs_remove` is done with the
semaphore, or will be when it has released the lock. -/
theorem Inv.done_of_clear (h : Inv s) (ha : Apart s .reclaim) (hpc : s.reclaimPc = .testLinked)
    (hl : s.semsLinked = false) : s.removePc = .done false ∨ s.removePc = .unlockSem false := by
  rcases ha.1 hpc with hset | hfree | hunlock
  · rw [hl] at hset
    cases hset
  · have hcleared : s.removePc.cleared = true := by simpa [hl] using h.linked
    have hlocked : s.removePc.locked = false := by
      by_contra hlocked
      have hlock := h.lock
      rw [hfree, if_pos (by simpa using hlocked)] at hlock
      cases hlock
    rcases RemovePc.done_or_destroys hcleared hlocked with hdone | hd
    · exact Or.inl hdone
    · rcases h.keeps hd with hk | ⟨hr, -⟩
      · rw [hpc] at hk
        cases hk
      · rw [hr] at hlocked
        cases hlocked
  · exact Or.inr hunlock

/-- A step of `semfs_reclaim` keeps the invariant. -/
theorem inv_reclaimStep (h : Inv s) (ha : Apart s .reclaim) (hs : reclaimStep s = some s') :
    Inv s' := by
  unfold reclaimStep at hs
  split at hs
  case h_1 hpc =>
    have hd := h.open_reclaim (by rw [hpc]; rfl) (by simp [hpc])
    obtain ⟨h1, h2, h3, h4, h5, h6, h7, h8, h9, h10, h11, h12, h13⟩ := h
    split at hs
    · obtain rfl := Option.some.inj hs
      constructor <;> simp_all [ReclaimPc.cleared, ReclaimPc.inTable, ReclaimPc.destroys,
        ReclaimPc.destroyed, ReclaimPc.keeps]
    · cases hs
  case h_2 hpc =>
    have hd := h.open_reclaim (by rw [hpc]; rfl) (by simp [hpc])
    have hslot : s.slot = true := by
      by_contra hslot
      rcases h.slot (by simpa using hslot) with hr | hc
      · rw [hd] at hr
        cases hr
      · simp [hpc, ReclaimPc.destroys] at hc
    obtain ⟨h1, h2, h3, h4, h5, h6, h7, h8, h9, h10, h11, h12, h13⟩ := h
    rw [hslot] at hs
    obtain rfl := Option.some.inj hs
    constructor <;> simp_all [ReclaimPc.cleared, ReclaimPc.inTable, ReclaimPc.destroys,
        ReclaimPc.destroyed, ReclaimPc.keeps]
  case h_3 hpc =>
    have hd := h.open_reclaim (by rw [hpc]; rfl) (by simp [hpc])
    rw [h.touch_reclaim (by rw [hpc]; rfl) (by rw [hpc]; rfl)] at hs
    obtain ⟨h1, h2, h3, h4, h5, h6, h7, h8, h9, h10, h11, h12, h13⟩ := h
    rw [h2, hpc] at hs
    obtain rfl := Option.some.inj hs
    constructor <;> simp_all [ReclaimPc.cleared, ReclaimPc.inTable, ReclaimPc.destroys,
        ReclaimPc.destroyed, ReclaimPc.keeps]
  case h_4 hpc =>
    have hd := h.open_reclaim (by rw [hpc]; rfl) (by simp [hpc])
    rw [h.touch_reclaim (by rw [hpc]; rfl) (by rw [hpc]; rfl)] at hs
    obtain ⟨h1, h2, h3, h4, h5, h6, h7, h8, h9, h10, h11, h12, h13⟩ := h
    obtain rfl := Option.some.inj hs
    constructor <;> simp_all [ReclaimPc.cleared, ReclaimPc.inTable, ReclaimPc.destroys,
        ReclaimPc.destroyed, ReclaimPc.keeps]
  case h_5 hpc =>
    rw [h.touch_reclaim (by rw [hpc]; rfl) (by rw [hpc]; rfl)] at hs
    split at hs
    · rename_i hl
      have hdone := h.done_of_clear ha hpc hl
      obtain ⟨h1, h2, h3, h4, h5, h6, h7, h8, h9, h10, h11, h12, h13⟩ := h
      obtain rfl := Option.some.inj hs
      rcases hdone with hr | hr
      · constructor <;> simp_all [ReclaimPc.cleared, ReclaimPc.inTable, ReclaimPc.destroys,
          ReclaimPc.destroyed, ReclaimPc.keeps]
      · constructor <;> simp_all [ReclaimPc.cleared, ReclaimPc.inTable, ReclaimPc.destroys,
          ReclaimPc.destroyed, ReclaimPc.keeps]
    · rename_i hl
      have hbefore : s.removePc.cleared = false := by
        have hlinked := h.linked
        simp_all
      have hnot : s.removePc ≠ .unlockSem false ∧ s.removePc ≠ .done false := by
        constructor <;> intro hr <;> rw [hr] at hbefore <;> cases hbefore
      have hd : s.removePc.destroys = false := by
        cases hr : s.removePc with
        | unlockSem d => rw [hr] at hbefore; cases hbefore
        | done d => rw [hr] at hbefore; cases hbefore
        | _ => rw [hr] at hbefore; first | rfl | cases hbefore
      obtain ⟨h1, h2, h3, h4, h5, h6, h7, h8, h9, h10, h11, h12, h13⟩ := h
      obtain rfl := Option.some.inj hs
      constructor <;> simp_all [ReclaimPc.cleared, ReclaimPc.inTable, ReclaimPc.destroys,
        ReclaimPc.destroyed, ReclaimPc.keeps]
  case h_6 hpc =>
    have hd := h.open_reclaim (by rw [hpc]; rfl) (by simp [hpc])
    obtain ⟨h1, h2, h3, h4, h5, h6, h7, h8, h9, h10, h11, h12, h13⟩ := h
    obtain rfl := Option.some.inj hs
    constructor <;> simp_all [ReclaimPc.cleared, ReclaimPc.inTable, ReclaimPc.destroys,
        ReclaimPc.destroyed, ReclaimPc.keeps]
  case h_7 hpc =>
    have hr : s.removePc = .done false :=
      (h.last (by rw [hpc]; rfl)).resolve_right fun hu => ha.2 hpc hu.1
    have halive : s.destroys = 0 := h.alive (by simp [hr]) (by rw [hpc]; rfl)
    obtain ⟨h1, h2, h3, h4, h5, h6, h7, h8, h9, h10, h11, h12, h13⟩ := h
    have hfree : s.semsLock = none := by simp [h3, hr, RemovePc.locked]
    rw [semfsSemDestroy_of_free hfree halive] at hs
    dsimp only at hs
    rw [if_neg (by simp [h13])] at hs
    obtain rfl := Option.some.inj hs
    constructor <;> simp_all [ReclaimPc.cleared, ReclaimPc.inTable, ReclaimPc.keeps,
      ReclaimPc.destroys, ReclaimPc.destroyed, RemovePc.locked]
  case h_8 destroyed hpc =>
    obtain ⟨h1, h2, h3, h4, h5, h6, h7, h8, h9, h10, h11, h12, h13⟩ := h
    obtain rfl := Option.some.inj hs
    cases destroyed with
    | true =>
      constructor <;> simp_all [ReclaimPc.cleared, ReclaimPc.inTable, ReclaimPc.destroys,
        ReclaimPc.destroyed, ReclaimPc.keeps]
    | false =>
      constructor <;> simp_all [ReclaimPc.cleared, ReclaimPc.inTable, ReclaimPc.destroys,
        ReclaimPc.destroyed, ReclaimPc.keeps]
  case h_9 => cases hs

theorem inv_step {p : Party} (h : Inv s) (ha : Apart s p) (hs : step s p = some s') : Inv s' := by
  unfold step at hs
  rw [if_neg (by simp [h.noPanic])] at hs
  cases p with
  | remove => exact inv_removeStep h hs
  | reclaim => exact inv_reclaimStep h ha hs

end Steps

/-! ### The semaphore is destroyed once -/

/-- **One destroys it.** In every state reached by a `semfs_remove` and a `semfs_reclaim` of one
semaphore that stay apart, the semaphore has been destroyed at most once, and exactly once when both
are done; it was not destroyed while the other side held its lock, and nobody touched it
afterwards. -/
theorem destroyed_once {s : State} (h : system.ReachableWhile Apart s) : Sound s := by
  have hinv : Inv s := by
    refine h.invariant (P := Inv) ?_ fun s p s' hi ha hs => inv_step hi ha hs
    rintro s rfl
    exact inv_init
  refine ⟨?_, ?_, hinv.unheld, hinv.intact, hinv.noPanic⟩
  · by_cases hr : s.removePc = .done true
    · have hd : s.reclaimPc.destroyed = false := hinv.reclaim_waits (by simp [hr])
      rw [hinv.count, if_pos hr, hd]
      decide
    · rw [hinv.count, if_neg hr]
      split <;> decide
  · rintro ⟨d, hr⟩ ⟨d', hc⟩
    cases d with
    | true =>
      have hd : s.reclaimPc.destroyed = false := hinv.reclaim_waits (by simp [hr])
      rw [hinv.count, if_pos hr, hd]
      rfl
    | false =>
      -- `semfs_remove` has left the semaphore, so `semfs_reclaim` has not
      cases d' with
      | true => rw [hinv.count, hr, hc]; rfl
      | false => exact absurd hr (hinv.kept (by rw [hc]; rfl)).2

/-- `semfs_remove` finds the vnode in use and is done; then the vnode is reclaimed. -/
def oneByOne : List Party :=
  [.remove, .remove, .remove, .remove, .remove, .remove,
    .reclaim, .reclaim, .reclaim, .reclaim, .reclaim, .reclaim, .reclaim, .reclaim]

theorem oneByOne_runs : (oneByOne.foldlM
    (fun s p => if decide (Apart s p) then system.step s p else none) init).isSome := by
  decide

theorem destroyed_once_oneByOne : ∃ s, system.ReachableWhile Apart s ∧ s.removePc = .done false ∧
    s.reclaimPc = .done true ∧ s.destroys = 1 := by
  have hreach := TransitionSystem.reachableWhile_of_run (fun _ _ => of_decide_eq_true) oneByOne
    (.init rfl) (Option.some_get oneByOne_runs).symm
  exact ⟨_, hreach, by decide, by decide,
    (destroyed_once hreach).atEnd ⟨false, by decide⟩ ⟨true, by decide⟩⟩

/-- `semfs_remove` clears `sems_linked`; `semfs_reclaim` clears `sems_hasvnode`, finds
`sems_linked` clear and goes on to destroy the semaphore, whose lock `semfs_remove` holds. -/
def overlapping : List Party :=
  [.remove, .remove, .remove, .remove,
    .reclaim, .reclaim, .reclaim, .reclaim, .reclaim, .reclaim, .reclaim]

theorem overlapping_runs : (overlapping.foldlM system.step init).isSome := by
  decide

/-- The assertion of `lock_destroy` fails, and neither thread goes on. -/
theorem destroyed_held : ∃ s, system.Reachable s ∧ s.reclaimPc = .destroy ∧
    s.destroyedHeld = true ∧ s.panicked = true ∧ s.destroys = 0 ∧ (∀ p, system.step s p = none) ∧
    ¬ Sound s := by
  have hreach := TransitionSystem.reachable_of_run overlapping (.init rfl)
    (Option.some_get overlapping_runs).symm
  refine ⟨_, hreach, by decide, by decide, by decide, by decide, fun p => ?_, fun h => ?_⟩
  · cases p <;> decide
  · exact absurd h.unheld (by decide)

end Unlink

end Semfs

end Os161
