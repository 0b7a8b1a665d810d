import Os161.Semfs.Tables

/-!
# Taking the semaphore file system down

`semfs_unmount` and `semfs_destroy` of `kern/fs/semfs/semfs_fsops.c`. `semfs_destroy` goes through
the arrays of semaphores and of directory entries and destroys what is in each slot. A removed
semaphore leaves an empty slot behind, and `semfs_sem_destroy` and `semfs_direntry_destroy` look
into what they are given, so one hole is enough to bring the kernel down.

## Main results

* `Semfs.Tables.destroyLoop_eq_some_iff`
* `Semfs.Tables.unmount_safe_iff`
-/

namespace Os161

namespace Semfs

namespace Tables

/-- A loop of `semfs_destroy`, over the places of an array: which were destroyed, in order. `none`
where the `NULL` of an empty slot is dereferenced. -/
def destroyLoop {α : Type} (l : List (Option α)) : Option (List ℕ) :=
  (List.range l.length).foldlM (fun destroyed i =>
    match Slots.get l i with
    | none => none
    | some _ => some (destroyed ++ [i])) []

/-- How `semfs_unmount` ends. -/
inductive Unmounted where
  /-- `EBUSY`: there are vnodes. -/
  | ebusy
  /-- A `NULL` was dereferenced, or an array was not empty when it was freed. -/
  | crashed
  /-- 0: the places of the semaphores and of the entries that were destroyed; the arrays, the two
  locks and `struct semfs` have been freed. -/
  | done (sems dents : List ℕ)
  deriving DecidableEq

/-- `semfs_destroy`. The first two arrays have been cut to size 0 when they are freed. -/
def semfsDestroy (s : State) : Unmounted :=
  match destroyLoop s.semfsSems with
  | none => .crashed
  | some sems =>
      match destroyLoop s.semfsDents with
      | none => .crashed
      | some dents => if s.semfsVnodes.length = 0 then .done sems dents else .crashed

/-- `semfs_unmount`. -/
def semfsUnmount (s : State) : Unmounted :=
  if 0 < s.semfsVnodes.length then .ebusy else semfsDestroy s

/-- Exactly the places that hold something have been destroyed, once each. -/
def DestroyedOnce {α : Type} (l : List (Option α)) (destroyed : List ℕ) : Prop :=
  destroyed.Nodup ∧ ∀ i, i ∈ destroyed ↔ ∃ a, Slots.get l i = some a

/-- Unmounting destroys every semaphore and every directory entry once and frees the tables. -/
def State.UnmountsSafely (s : State) : Prop :=
  ∃ sems dents, semfsUnmount s = .done sems dents ∧ DestroyedOnce s.semfsSems sems ∧
    DestroyedOnce s.semfsDents dents

/-- No slot is empty. -/
def NoHole {α : Type} (l : List (Option α)) : Prop := ∀ i < l.length, ∃ a, Slots.get l i = some a

section Destroy

variable {α : Type} {l : List (Option α)}

/-- The first rounds of the loop. -/
theorem destroyLoop_rounds (l : List (Option α)) (n : ℕ) :
    (List.range n).foldlM (fun destroyed i =>
        match Slots.get l i with
        | none => none
        | some _ => some (destroyed ++ [i])) ([] : List ℕ) =
      if ∀ i < n, (Slots.get l i).isSome then some (List.range n) else none := by
  induction n with
  | zero => rfl
  | succ n ih =>
    rw [List.range_succ, List.foldlM_append, ih]
    by_cases hall : ∀ i < n, (Slots.get l i).isSome
    · rw [if_pos hall]
      cases hn : Slots.get l n with
      | none =>
        rw [if_neg fun h => by have := h n (Nat.lt_succ_self n); rw [hn] at this; cases this]
        simp [hn]
      | some a =>
        rw [if_pos fun i hi => ?_]
        · simp [hn]
        · rcases Nat.lt_succ_iff_lt_or_eq.mp hi with hi | rfl
          · exact hall i hi
          · rw [hn]
            rfl
    · rw [if_neg hall, if_neg fun h => hall fun i hi => h i (Nat.lt_succ_of_lt hi)]
      rfl

/-- The loop gets to its end exactly if no slot is empty, and then it has been to every place. -/
theorem destroyLoop_eq_some_iff {destroyed : List ℕ} : destroyLoop l = some destroyed ↔
    NoHole l ∧ destroyed = List.range l.length := by
  have hiff : (∀ i < l.length, (Slots.get l i).isSome) ↔ NoHole l :=
    forall₂_congr fun i _ => Option.isSome_iff_exists
  rw [destroyLoop, destroyLoop_rounds]
  by_cases h : ∀ i < l.length, (Slots.get l i).isSome
  · rw [if_pos h]
    exact ⟨fun he => ⟨hiff.mp h, (Option.some.inj he).symm⟩, fun he => by rw [he.2]⟩
  · rw [if_neg h]
    exact ⟨nofun, fun he => absurd (hiff.mpr he.1) h⟩

theorem destroyedOnce_range (h : NoHole l) : DestroyedOnce l (List.range l.length) := by
  refine ⟨List.nodup_range, fun i => ?_⟩
  rw [List.mem_range]
  exact ⟨h i, fun ⟨a, ha⟩ => Slots.lt_of_get ha⟩

end Destroy

theorem unmountsSafely_iff {s : State} (hvnodes : s.semfsVnodes = []) :
    s.UnmountsSafely ↔ NoHole s.semfsSems ∧ NoHole s.semfsDents := by
  have hrun : semfsUnmount s = semfsDestroy s := by
    rw [semfsUnmount, hvnodes]
    rfl
  rw [State.UnmountsSafely, hrun, semfsDestroy, hvnodes]
  constructor
  · rintro ⟨sems, dents, hdone, -⟩
    cases hsems : destroyLoop s.semfsSems with
    | none =>
      rw [hsems] at hdone
      cases hdone
    | some sems' =>
      cases hdents : destroyLoop s.semfsDents with
      | none =>
        rw [hsems, hdents] at hdone
        cases hdone
      | some dents' =>
        exact ⟨(destroyLoop_eq_some_iff.mp hsems).1, (destroyLoop_eq_some_iff.mp hdents).1⟩
  · rintro ⟨hsems, hdents⟩
    refine ⟨_, _, ?_, destroyedOnce_range hsems, destroyedOnce_range hdents⟩
    rw [destroyLoop_eq_some_iff.mpr ⟨hsems, rfl⟩, destroyLoop_eq_some_iff.mpr ⟨hdents, rfl⟩]
    rfl

/-- **When unmounting is safe**: after any history that leaves no vnode loaded, exactly if no slot
of the two arrays is empty. -/
theorem unmount_safe_iff {s : State} (_h : system.Reachable (.running s))
    (hvnodes : s.semfsVnodes = []) :
    s.UnmountsSafely ↔ NoHole s.semfsSems ∧ NoHole s.semfsDents :=
  unmountsSafely_iff hvnodes

/-- A semaphore has been created and released. -/
def oneLeft : State where
  semfsSems := [some ⟨false, true⟩]
  semfsDents := [some ⟨[97], 0⟩]
  semfsVnodes := []
  nextAddr := 1

theorem unmount_safe_iff_oneLeft :
    oneLeft.UnmountsSafely ↔ NoHole oneLeft.semfsSems ∧ NoHole oneLeft.semfsDents :=
  unmount_safe_iff (TransitionSystem.reachable_of_run [.creat plenty [97] true, .release 0]
    (.init rfl) (by decide)) rfl

/-- The same semaphore has been removed. -/
def noneLeft : State where
  semfsSems := [none]
  semfsDents := [none]
  semfsVnodes := []
  nextAddr := 1

theorem unmount_crashes : system.Reachable (.running noneLeft) ∧ noneLeft.semfsVnodes = [] ∧
    semfsUnmount noneLeft = .crashed ∧ ¬noneLeft.UnmountsSafely := by
  refine ⟨TransitionSystem.reachable_of_run [.creat plenty [97] true, .release 0, .remove [97]]
    (.init rfl) (by decide), rfl, by decide, fun h => ?_⟩
  obtain ⟨a, ha⟩ := ((unmountsSafely_iff rfl).mp h).1 0 (by decide)
  cases ha

end Tables

end Semfs

end Os161
