import Os161.Kern.Errno
import Os161.Lib.Slots
import Os161.Lib.Transition
import Mathlib.Data.List.InsertIdx
import Mathlib.Data.List.Nodup
import Mathlib.Tactic.Basic
import Mathlib.Algebra.GroupWithZero.Nat

/-!
# The tables of the semaphore file system

`semfs_creat`, `semfs_lookup`, `semfs_remove`, `semfs_getvnode` and `semfs_reclaim` of
`kern/fs/semfs/semfs_vnops.c`, with `semfs_sem_insert` of `semfs_obj.c`, one call at a time. Three
tables have to stay in step: the semaphores, the directory, and the vnodes. The first two are arrays
with empty slots; a semaphore is known by its place in the first.

`Mem` says which allocations of a call fail. Addresses of vnodes are numbers, given out one after
another. The count, the lock and the condition variable of a semaphore play no part here.

## The abstract view

What the tables say is a partial function from numbers to semaphores, a partial function from places
to directory entries, and the list of the numbers that have a vnode. `Consistent` relates the three,
and the operations are updates of them under which it is kept (`Consistent.create` and so on).

`semfs_creat` rolls back what it has done when a later allocation fails, and returns the code of the
failed step — except when the directory entry cannot be allocated: then the code is still that of
the step before, which succeeded, and 0 is returned without a vnode.

## Main results

* `Semfs.Tables.Consistent.create`, `unlink`, `addVnode`, `dropVnode` — the abstract operations
* `Semfs.Tables.tables_in_step` — the tables in every reachable state
-/

namespace Os161

namespace Semfs

namespace Tables

/-- A name, as its bytes. -/
abbrev Name : Type := List UInt8

/-- `"."` -/
def dot : Name := [46]

/-- `".."` -/
def dotdot : Name := [46, 46]

/-- `struct semfs_sem`. -/
structure Sem where
  semsHasvnode : Bool
  semsLinked : Bool
  deriving DecidableEq

/-- `struct semfs_direntry`. -/
structure Direntry where
  semdName : Name
  semdSemnum : ℕ
  deriving DecidableEq

/-- `struct semfs_vnode`. -/
structure Vnode where
  addr : ℕ
  semvSemnum : ℕ
  /-- An `int` in C, with room for `2 ^ 31 - 1` references; it is counted without a bound here. -/
  vnRefcount : ℕ
  deriving DecidableEq

/-- `SEMFS_ROOTDIR`. -/
def semfsRootdir : ℕ := 0xffffffff

/-- `struct semfs`. -/
structure State where
  semfsSems : List (Option Sem)
  semfsDents : List (Option Direntry)
  semfsVnodes : List Vnode
  /-- The address of the next vnode. -/
  nextAddr : ℕ
  deriving DecidableEq

/-- Which allocations fail. -/
structure Mem where
  /-- In `semfs_sem_create`. -/
  semCreate : Bool
  /-- In `semfs_semarray_add`. -/
  semAdd : Bool
  /-- In `semfs_direntry_create`. -/
  direntryCreate : Bool
  /-- In `semfs_direntryarray_add`. -/
  direntryAdd : Bool
  /-- In `semfs_vnode_create`. -/
  vnodeCreate : Bool
  /-- In `vnodearray_add`. -/
  vnodeAdd : Bool

/-- How a call ends. -/
inductive Outcome where
  /-- A `KASSERT` failed, or there was no semaphore where one was expected. -/
  | panic
  /-- It returned a code, `none` for 0, and a vnode. -/
  | done (result : Option Errno) (vn : Option ℕ) (s : State)

/-- `VOP_INCREF` on the vnode at place `i` of the table. -/
def State.incref (s : State) (i : ℕ) : State :=
  { s with
    semfsVnodes := s.semfsVnodes.modify i fun v => { v with vnRefcount := v.vnRefcount + 1 } }

/-- `semfs_getvnode`. -/
def semfsGetvnode (m : Mem) (s : State) (semnum : ℕ) : Outcome :=
  match s.semfsVnodes.findIdx? fun v => v.semvSemnum = semnum with
  | some i => .done none (s.semfsVnodes[i]?.map Vnode.addr) (s.incref i)
  | none =>
    if m.vnodeCreate then .done (some .enomem) none s
    else if m.vnodeAdd then .done (some .enomem) none s
    else
      let s' := { s with
        semfsVnodes := s.semfsVnodes ++ [⟨s.nextAddr, semnum, 1⟩], nextAddr := s.nextAddr + 1 }
      if semnum ≠ semfsRootdir then
        match Slots.get s.semfsSems semnum with
        | none => .panic
        | some sem =>
          if sem.semsHasvnode = false then
            .done none (some s.nextAddr) { s' with
              semfsSems := s.semfsSems.set semnum (some { sem with semsHasvnode := true }) }
          else .panic
      else .done none (some s.nextAddr) s'

/-- `semfs_sem_insert`: the place taken, or an error. -/
def semfsSemInsert (m : Mem) (s : State) : Except Errno ℕ :=
  if s.semfsSems.length = semfsRootdir then .error .enospc
  else if Slots.free s.semfsSems < s.semfsSems.length then .ok (Slots.free s.semfsSems)
  else if m.semAdd then .error .enomem else .ok s.semfsSems.length

/-- The test for a name. -/
def hasName (name : Name) (d : Direntry) : Bool := d.semdName = name

/-- `semfs_creat`. -/
def semfsCreat (m : Mem) (s : State) (name : Name) (excl : Bool) : Outcome :=
  if name = dot ∨ name = dotdot then .done (some .eexist) none s
  else
    match (Slots.find (hasName name) s.semfsDents).bind (Slots.get s.semfsDents) with
    | some dent => if excl then .done (some .eexist) none s else semfsGetvnode m s dent.semdSemnum
    | none =>
      if m.semCreate then .done (some .enomem) none s
      else
        match semfsSemInsert m s with
        | .error e => .done (some e) none s
        | .ok semnum =>
          let sems := Slots.put s.semfsSems semnum ⟨false, false⟩
          -- fail_uninsert
          let uninsert := sems.set semnum none
          -- `result` is still that of the insertion
          if m.direntryCreate then .done none none { s with semfsSems := uninsert }
          else
            let empty := Slots.free s.semfsDents
            if empty = s.semfsDents.length ∧ m.direntryAdd then
              -- fail_undent
              .done (some .enomem) none { s with semfsSems := uninsert }
            else
              let dents := Slots.put s.semfsDents empty ⟨name, semnum⟩
              match semfsGetvnode m { s with semfsSems := sems, semfsDents := dents } semnum with
              | .panic => .panic
              | .done (some e) _ s' =>
                -- fail_undir
                .done (some e) none { s' with
                  semfsSems := s'.semfsSems.set semnum none
                  semfsDents := s'.semfsDents.set empty none }
              | .done none vn s' =>
                .done none vn { s' with
                  semfsSems := s'.semfsSems.modify semnum
                    (Option.map fun sem => { sem with semsLinked := true }) }

/-- `semfs_remove`. -/
def semfsRemove (s : State) (name : Name) : Outcome :=
  if name = dot ∨ name = dotdot then .done (some .einval) none s
  else
    match Slots.find (hasName name) s.semfsDents with
    | none => .done (some .enoent) none s
    | some i =>
      match Slots.get s.semfsDents i with
      | none => .done (some .enoent) none s
      | some dent =>
        match Slots.get s.semfsSems dent.semdSemnum with
        | none => .panic
        | some sem =>
          if sem.semsLinked then
            .done none none { s with
              semfsSems := s.semfsSems.set dent.semdSemnum
                (if sem.semsHasvnode = false then none else some { sem with semsLinked := false })
              semfsDents := s.semfsDents.set i none }
          else .panic

/-- `semfs_lookup`, in the directory whose vnode is at place `dirvn` of the table. -/
def semfsLookup (m : Mem) (s : State) (dirvn : ℕ) (path : Name) : Outcome :=
  if path = dot ∨ path = dotdot then
    .done none (s.semfsVnodes[dirvn]?.map Vnode.addr) (s.incref dirvn)
  else
    match (Slots.find (hasName path) s.semfsDents).bind (Slots.get s.semfsDents) with
    | some dent => semfsGetvnode m s dent.semdSemnum
    | none => .done (some .enoent) none s

/-- `semfs_reclaim` of the vnode at place `i` of the table. -/
def semfsReclaim (s : State) (i : ℕ) (vn : Vnode) : Outcome :=
  if 1 < vn.vnRefcount then
    .done (some .ebusy) none { s with
      semfsVnodes := s.semfsVnodes.modify i fun v => { v with vnRefcount := v.vnRefcount - 1 } }
  else
    let s' := { s with semfsVnodes := s.semfsVnodes.eraseIdx i }
    if vn.semvSemnum ≠ semfsRootdir then
      match Slots.get s.semfsSems vn.semvSemnum with
      | none => .panic
      | some sem =>
        if sem.semsHasvnode then
          .done none none { s' with
            semfsSems := s.semfsSems.set vn.semvSemnum
              (if sem.semsLinked = false then none else some { sem with semsHasvnode := false }) }
        else .panic
    else .done none none s'

/-- `VOP_DECREF` on the vnode at place `i` of the table: `semfs_reclaim` is called with the last
reference. -/
def vopDecref (s : State) (i : ℕ) (vn : Vnode) : Outcome :=
  if 1 < vn.vnRefcount then
    .done none none { s with
      semfsVnodes := s.semfsVnodes.modify i fun v => { v with vnRefcount := v.vnRefcount - 1 } }
  else semfsReclaim s i vn

/-- What can happen next. -/
inductive Action where
  | creat (m : Mem) (name : Name) (excl : Bool)
  /-- In the directory with the vnode at place `dirvn` of the table. -/
  | lookup (m : Mem) (dirvn : ℕ) (path : Name)
  | remove (name : Name)
  /-- For the root, or for the number in a directory entry. -/
  | getvnode (m : Mem) (semnum : ℕ)
  /-- Release a reference to the vnode at place `i` of the table. -/
  | release (i : ℕ)
  /-- Call `semfs_reclaim` on the vnode at place `i` of the table. -/
  | reclaim (i : ℕ)

/-- A file system that runs, or a kernel that has panicked. -/
inductive Status where
  | running (s : State)
  | panicked
  deriving DecidableEq

/-- The state after a call. -/
def Outcome.status : Outcome → Status
  | .panic => .panicked
  | .done _ _ s => .running s

/-- One call. -/
def call (s : State) : Action → Option Outcome
  | .creat m name excl => some (semfsCreat m s name excl)
  | .lookup m dirvn path =>
      if dirvn < s.semfsVnodes.length then some (semfsLookup m s dirvn path) else none
  | .remove name => some (semfsRemove s name)
  | .getvnode m semnum =>
      if semnum = semfsRootdir ∨ ∃ d ∈ s.semfsDents, d.any (·.semdSemnum = semnum) then
        some (semfsGetvnode m s semnum)
      else none
  | .release i => s.semfsVnodes[i]?.map (vopDecref s i)
  | .reclaim i => s.semfsVnodes[i]?.map (semfsReclaim s i)

/-- The semaphore file system, from `semfs_create` on. -/
def system : TransitionSystem Status Action where
  init st := st = .running ⟨[], [], [], 0⟩
  step st a :=
    match st with
    | .running s => (call s a).map Outcome.status
    | .panicked => none

/-! ### The abstract view -/

/-- The three tables are in step. -/
structure Consistent (sem : ℕ → Option Sem) (dent : ℕ → Option Direntry) (nums : List ℕ) :
    Prop where
  /-- A semaphore is in the table for a reason. -/
  used : ∀ i m, sem i = some m → m.semsLinked = true ∨ m.semsHasvnode = true
  /-- A directory entry names a semaphore that is linked, -/
  dentSem : ∀ k d, dent k = some d → ∃ m, sem d.semdSemnum = some m ∧ m.semsLinked = true
  /-- no two name the same, -/
  dentOnce : ∀ k k' d d', dent k = some d → dent k' = some d' →
    d.semdSemnum = d'.semdSemnum → k = k'
  /-- and none is missing. -/
  linkedDent : ∀ i m, sem i = some m → m.semsLinked = true →
    ∃ k d, dent k = some d ∧ d.semdSemnum = i
  nameOnce : ∀ k k' d d', dent k = some d → dent k' = some d' → d.semdName = d'.semdName → k = k'
  /-- A vnode is that of the root or of a semaphore that knows it, -/
  vnodeSem : ∀ i ∈ nums, i ≠ semfsRootdir → ∃ m, sem i = some m ∧ m.semsHasvnode = true
  /-- no two are of the same, -/
  vnodeOnce : nums.Nodup
  /-- and none is missing. -/
  semVnode : ∀ i m, sem i = some m → m.semsHasvnode = true → i ∈ nums

section Abstract

variable {sem : ℕ → Option Sem} {dent : ℕ → Option Direntry} {nums nums' : List ℕ} {i k : ℕ}

/-- A new semaphore with a name that is not in the directory. -/
theorem Consistent.create (h : Consistent sem dent nums) {name : Name} (hi : sem i = none)
    (hroot : i ≠ semfsRootdir) (hk : dent k = none)
    (hname : ∀ k d, dent k = some d → d.semdName ≠ name) :
    Consistent (Function.update sem i (some ⟨true, true⟩))
      (Function.update dent k (some ⟨name, i⟩)) (nums ++ [i]) := by
  have hnew : ∀ k' d, dent k' = some d → d.semdSemnum ≠ i := by
    rintro k' d hd rfl
    obtain ⟨m, hm, -⟩ := h.dentSem k' d hd
    rw [hi] at hm
    cases hm
  have hnum : i ∉ nums := by
    intro hmem
    obtain ⟨m, hm, -⟩ := h.vnodeSem i hmem hroot
    rw [hi] at hm
    cases hm
  refine ⟨fun j m hm => ?_, fun k' d hd => ?_, fun k₁ k₂ d₁ d₂ h₁ h₂ he => ?_, fun j m hm hl => ?_,
    fun k₁ k₂ d₁ d₂ h₁ h₂ he => ?_, fun j hj hne => ?_, ?_, fun j m hm hv => ?_⟩
  · rcases eq_or_ne j i with rfl | hj
    · rw [Function.update_self] at hm
      cases hm
      exact Or.inl rfl
    · rw [Function.update_of_ne hj] at hm
      exact h.used j m hm
  · rcases eq_or_ne k' k with rfl | hk'
    · rw [Function.update_self] at hd
      cases hd
      exact ⟨_, Function.update_self .., rfl⟩
    · rw [Function.update_of_ne hk'] at hd
      rw [Function.update_of_ne (hnew k' d hd)]
      exact h.dentSem k' d hd
  · by_cases hk₁ : k₁ = k <;> by_cases hk₂ : k₂ = k
    · exact hk₁.trans hk₂.symm
    · rw [hk₁, Function.update_self] at h₁
      rw [Function.update_of_ne hk₂] at h₂
      cases h₁
      exact absurd he.symm (hnew k₂ d₂ h₂)
    · rw [hk₂, Function.update_self] at h₂
      rw [Function.update_of_ne hk₁] at h₁
      cases h₂
      exact absurd he (hnew k₁ d₁ h₁)
    · rw [Function.update_of_ne hk₁] at h₁
      rw [Function.update_of_ne hk₂] at h₂
      exact h.dentOnce k₁ k₂ d₁ d₂ h₁ h₂ he
  · rcases eq_or_ne j i with rfl | hj
    · exact ⟨k, _, Function.update_self .., rfl⟩
    · rw [Function.update_of_ne hj] at hm
      obtain ⟨k', d, hd, he⟩ := h.linkedDent j m hm hl
      have hne : k' ≠ k := by
        rintro rfl
        rw [hk] at hd
        cases hd
      exact ⟨k', d, (Function.update_of_ne hne ..).trans hd, he⟩
  · by_cases hk₁ : k₁ = k <;> by_cases hk₂ : k₂ = k
    · exact hk₁.trans hk₂.symm
    · rw [hk₁, Function.update_self] at h₁
      rw [Function.update_of_ne hk₂] at h₂
      cases h₁
      exact absurd he.symm (hname k₂ d₂ h₂)
    · rw [hk₂, Function.update_self] at h₂
      rw [Function.update_of_ne hk₁] at h₁
      cases h₂
      exact absurd he (hname k₁ d₁ h₁)
    · rw [Function.update_of_ne hk₁] at h₁
      rw [Function.update_of_ne hk₂] at h₂
      exact h.nameOnce k₁ k₂ d₁ d₂ h₁ h₂ he
  · rcases eq_or_ne j i with rfl | hji
    · exact ⟨_, Function.update_self .., rfl⟩
    · rw [Function.update_of_ne hji]
      have hmem : j ∈ nums := by simpa [hji] using hj
      exact h.vnodeSem j hmem hne
  · rw [List.nodup_append_comm, List.singleton_append, List.nodup_cons]
    exact ⟨hnum, h.vnodeOnce⟩
  · rcases eq_or_ne j i with rfl | hj
    · simp
    · rw [Function.update_of_ne hj] at hm
      exact List.mem_append_left _ (h.semVnode j m hm hv)

/-- The vnode of one semaphore comes or goes; the semaphore stays linked if it was, and goes if it
is neither linked nor has a vnode. -/
theorem Consistent.revnode (h : Consistent sem dent nums) {m : Sem} (hi : sem i = some m)
    {x : Option Sem} (hsome : ∀ m', x = some m' → m'.semsLinked = m.semsLinked ∧
      (m'.semsLinked = true ∨ m'.semsHasvnode = true) ∧ (m'.semsHasvnode = true ↔ i ∈ nums'))
    (hnone : x = none → m.semsLinked = false ∧ i ∉ nums')
    (hnums : ∀ j, j ≠ i → (j ∈ nums' ↔ j ∈ nums)) (hnodup : nums'.Nodup) :
    Consistent (Function.update sem i x) dent nums' := by
  refine ⟨fun j m' hm => ?_, fun k d hd => ?_, h.dentOnce, fun j m' hm hl => ?_, h.nameOnce,
    fun j hj hne => ?_, hnodup, fun j m' hm hv => ?_⟩
  · rcases eq_or_ne j i with rfl | hj
    · rw [Function.update_self] at hm
      exact (hsome m' hm).2.1
    · rw [Function.update_of_ne hj] at hm
      exact h.used j m' hm
  · obtain ⟨m', hm', hl⟩ := h.dentSem k d hd
    rcases eq_or_ne d.semdSemnum i with hdi | hdi
    · rw [hdi, hi] at hm'
      obtain rfl := Option.some.inj hm'
      rw [hdi, Function.update_self]
      cases hx : x with
      | none =>
        rw [(hnone hx).1] at hl
        cases hl
      | some m'' => exact ⟨m'', rfl, (hsome m'' hx).1.trans hl⟩
    · rw [Function.update_of_ne hdi]
      exact ⟨m', hm', hl⟩
  · rcases eq_or_ne j i with rfl | hj
    · rw [Function.update_self] at hm
      exact h.linkedDent j m hi ((hsome m' hm).1.symm.trans hl)
    · rw [Function.update_of_ne hj] at hm
      exact h.linkedDent j m' hm hl
  · rcases eq_or_ne j i with rfl | hji
    · rw [Function.update_self]
      cases hx : x with
      | none => exact absurd hj (hnone hx).2
      | some m' => exact ⟨m', rfl, (hsome m' hx).2.2.mpr hj⟩
    · rw [Function.update_of_ne hji]
      exact h.vnodeSem j ((hnums j hji).mp hj) hne
  · rcases eq_or_ne j i with rfl | hj
    · rw [Function.update_self] at hm
      exact (hsome m' hm).2.2.mp hv
    · rw [Function.update_of_ne hj] at hm
      exact (hnums j hj).mpr (h.semVnode j m' hm hv)

/-- A vnode for a semaphore that has none. -/
theorem Consistent.addVnode (h : Consistent sem dent nums) {m : Sem} (hi : sem i = some m)
    (hnum : i ∉ nums) :
    Consistent (Function.update sem i (some { m with semsHasvnode := true })) dent
      (nums ++ [i]) := by
  refine h.revnode hi (fun m' hm' => ?_) nofun (fun j hj => ?_) ?_
  · cases hm'
    exact ⟨rfl, Or.inr rfl, by simp⟩
  · simp [hj]
  · rw [List.nodup_append_comm, List.singleton_append, List.nodup_cons]
    exact ⟨hnum, h.vnodeOnce⟩

/-- The vnode of a semaphore goes, and the semaphore too if it is not linked. -/
theorem Consistent.dropVnode (h : Consistent sem dent nums) {m : Sem} (hi : sem i = some m)
    (hnums : ∀ j, j ∈ nums' ↔ j ∈ nums ∧ j ≠ i) (hnodup : nums'.Nodup) :
    Consistent (Function.update sem i
      (if m.semsLinked = false then none else some { m with semsHasvnode := false })) dent
      nums' := by
  have hnot : i ∉ nums' := fun hi' => ((hnums i).mp hi').2 rfl
  refine h.revnode hi (fun m' hm' => ?_) (fun hx => ?_) (fun j hj => ?_) hnodup
  · split at hm'
    · cases hm'
    · rename_i hl
      cases hm'
      exact ⟨rfl, Or.inl (by simpa using hl), by simpa using hnot⟩
  · split at hx
    · rename_i hl
      exact ⟨hl, hnot⟩
    · cases hx
  · rw [hnums j]
    exact and_iff_left hj

/-- The vnode of the root comes or goes. -/
theorem Consistent.reroot (h : Consistent sem dent nums) (hroot : sem semfsRootdir = none)
    (hnums : ∀ j, j ≠ semfsRootdir → (j ∈ nums' ↔ j ∈ nums)) (hnodup : nums'.Nodup) :
    Consistent sem dent nums' := by
  refine ⟨h.used, h.dentSem, h.dentOnce, h.linkedDent, h.nameOnce, fun j hj hne => ?_, hnodup,
    fun j m hm hv => ?_⟩
  · exact h.vnodeSem j ((hnums j hne).mp hj) hne
  · have hne : j ≠ semfsRootdir := by
      rintro rfl
      rw [hroot] at hm
      cases hm
    exact (hnums j hne).mpr (h.semVnode j m hm hv)

/-- A name goes, and the semaphore too if it has no vnode. -/
theorem Consistent.unlink (h : Consistent sem dent nums) {d : Direntry} {m : Sem}
    (hd : dent k = some d) (hm : sem d.semdSemnum = some m) :
    Consistent (Function.update sem d.semdSemnum
        (if m.semsHasvnode = false then none else some { m with semsLinked := false }))
      (Function.update dent k none) nums := by
  have hold : ∀ k' d', Function.update dent k none k' = some d' → k' ≠ k ∧ dent k' = some d' := by
    intro k' d' hd'
    rcases eq_or_ne k' k with rfl | hk'
    · rw [Function.update_self] at hd'
      cases hd'
    · rw [Function.update_of_ne hk'] at hd'
      exact ⟨hk', hd'⟩
  refine ⟨fun j m' hm' => ?_, fun k' d' hd' => ?_, fun k₁ k₂ d₁ d₂ h₁ h₂ he => ?_,
    fun j m' hm' hl => ?_, fun k₁ k₂ d₁ d₂ h₁ h₂ he => ?_, fun j hj hne => ?_, h.vnodeOnce,
    fun j m' hm' hv => ?_⟩
  · rcases eq_or_ne j d.semdSemnum with rfl | hj
    · rw [Function.update_self] at hm'
      split at hm'
      · cases hm'
      · rename_i hv
        cases hm'
        exact Or.inr (by simpa using hv)
    · rw [Function.update_of_ne hj] at hm'
      exact h.used j m' hm'
  · obtain ⟨hk', hd''⟩ := hold k' d' hd'
    have hne : d'.semdSemnum ≠ d.semdSemnum := fun he => hk' (h.dentOnce k' k d' d hd'' hd he)
    rw [Function.update_of_ne hne]
    exact h.dentSem k' d' hd''
  · exact h.dentOnce k₁ k₂ d₁ d₂ (hold k₁ d₁ h₁).2 (hold k₂ d₂ h₂).2 he
  · rcases eq_or_ne j d.semdSemnum with rfl | hj
    · rw [Function.update_self] at hm'
      split at hm'
      · cases hm'
      · cases hm'
        cases hl
    · rw [Function.update_of_ne hj] at hm'
      obtain ⟨k', d', hd', rfl⟩ := h.linkedDent j m' hm' hl
      have hne : k' ≠ k := by
        rintro rfl
        rw [hd] at hd'
        obtain rfl := Option.some.inj hd'
        exact hj rfl
      exact ⟨k', d', (Function.update_of_ne hne ..).trans hd', rfl⟩
  · exact h.nameOnce k₁ k₂ d₁ d₂ (hold k₁ d₁ h₁).2 (hold k₂ d₂ h₂).2 he
  · obtain ⟨m', hm', hv⟩ := h.vnodeSem j hj hne
    rcases eq_or_ne j d.semdSemnum with rfl | hjd
    · rw [hm] at hm'
      obtain rfl := Option.some.inj hm'
      rw [Function.update_self, if_neg (by simp [hv])]
      exact ⟨_, rfl, hv⟩
    · rw [Function.update_of_ne hjd]
      exact ⟨m', hm', hv⟩
  · rcases eq_or_ne j d.semdSemnum with rfl | hj
    · rw [Function.update_self] at hm'
      split at hm'
      · cases hm'
      · cases hm'
        exact h.semVnode _ m hm hv
    · rw [Function.update_of_ne hj] at hm'
      exact h.semVnode j m' hm' hv

end Abstract

/-! ### The operations keep the tables in step -/

/-- The numbers that have a vnode. -/
def State.nums (s : State) : List ℕ := s.semfsVnodes.map Vnode.semvSemnum

/-- The invariant of the file system. -/
structure Inv (s : State) : Prop where
  tables : Consistent (Slots.get s.semfsSems) (Slots.get s.semfsDents) s.nums
  /-- No semaphore has the number of the root. -/
  bound : s.semfsSems.length ≤ semfsRootdir

/-- The call ended without a panic, in a state with the invariant. -/
def Outcome.Keeps : Outcome → Prop
  | .panic => False
  | .done _ _ s => Inv s

theorem Inv.root_free {s : State} (h : Inv s) : Slots.get s.semfsSems semfsRootdir = none :=
  Slots.get_of_length_le h.bound

theorem Inv.ne_root {s : State} (h : Inv s) {i : ℕ} (hi : i < s.semfsSems.length) :
    i ≠ semfsRootdir := (hi.trans_le h.bound).ne

theorem nums_modify (s : State) (i : ℕ) (f : Vnode → Vnode)
    (hf : ∀ v, (f v).semvSemnum = v.semvSemnum) :
    (s.semfsVnodes.modify i f).map Vnode.semvSemnum = s.nums := by
  rw [State.nums]
  induction s.semfsVnodes generalizing i with
  | nil => simp
  | cons v l ih =>
    cases i with
    | zero => simp [hf]
    | succ i => simpa using ih i

/-- Counting references does not show in the tables. -/
theorem Inv.recount {s : State} (h : Inv s) (i : ℕ) (f : Vnode → Vnode)
    (hf : ∀ v, (f v).semvSemnum = v.semvSemnum) :
    Inv { s with semfsVnodes := s.semfsVnodes.modify i f } := by
  refine ⟨?_, h.bound⟩
  have hnums : State.nums { s with semfsVnodes := s.semfsVnodes.modify i f } = s.nums :=
    nums_modify s i f hf
  rw [hnums]
  exact h.tables

/-! ### The vnodes -/

/-- A number without a vnode is found in no vnode. -/
theorem notMem_nums_of_findIdx {s : State} {semnum : ℕ}
    (h : (s.semfsVnodes.findIdx? fun v => v.semvSemnum = semnum) = none) : semnum ∉ s.nums := by
  intro hmem
  obtain ⟨v, hv, hn⟩ := List.mem_map.mp hmem
  have hno := List.findIdx?_eq_none_iff.mp h v hv
  simp [hn] at hno

theorem findIdx_of_notMem_nums {s : State} {semnum : ℕ} (h : semnum ∉ s.nums) :
    (s.semfsVnodes.findIdx? fun v => v.semvSemnum = semnum) = none := by
  rw [List.findIdx?_eq_none_iff]
  intro v hv
  simp only [decide_eq_false_iff_not]
  rintro rfl
  exact h (List.mem_map_of_mem hv)

/-- `semfs_getvnode` for the root, or for a semaphore that is in the directory. -/
theorem semfsGetvnode_keeps {s : State} (h : Inv s) (m : Mem) {semnum : ℕ}
    (hnum : semnum = semfsRootdir ∨ ∃ k d, Slots.get s.semfsDents k = some d ∧
      d.semdSemnum = semnum) : (semfsGetvnode m s semnum).Keeps := by
  unfold semfsGetvnode
  split
  · exact h.recount _ _ fun _ => rfl
  · rename_i hfind
    have hnot := notMem_nums_of_findIdx hfind
    have hnums : ∀ (sems : List (Option Sem)) (v : Vnode), State.nums
        { s with semfsSems := sems, semfsVnodes := s.semfsVnodes ++ [v],
                 nextAddr := s.nextAddr + 1 } = s.nums ++ [v.semvSemnum] := by
      intro sems v
      simp [State.nums]
    split
    · exact h
    · split
      · exact h
      · split
        · rename_i hroot
          obtain ⟨k, d, hd, rfl⟩ := hnum.resolve_left hroot
          obtain ⟨sem, hsem, hl⟩ := h.tables.dentSem k d hd
          have hv : sem.semsHasvnode = false := by
            cases hv : sem.semsHasvnode with
            | false => rfl
            | true => exact absurd (h.tables.semVnode _ sem hsem hv) hnot
          simp only [hsem, hv, if_true]
          refine ⟨?_, by simpa using h.bound⟩
          rw [hnums, Slots.get_set (Slots.lt_of_get hsem)]
          exact h.tables.addVnode hsem hnot
        · rename_i hroot
          obtain rfl := not_not.mp hroot
          refine ⟨?_, h.bound⟩
          rw [hnums s.semfsSems]
          refine h.tables.reroot h.root_free (fun j hj => by simp [hj]) ?_
          rw [List.nodup_append_comm, List.singleton_append, List.nodup_cons]
          exact ⟨hnot, h.tables.vnodeOnce⟩

/-- `semfs_getvnode` for a semaphore that has just been made. -/
theorem semfsGetvnode_new {s : State} (m : Mem) {semnum : ℕ} {l : Bool} (hnot : semnum ∉ s.nums)
    (hroot : semnum ≠ semfsRootdir) (hsem : Slots.get s.semfsSems semnum = some ⟨false, l⟩) :
    semfsGetvnode m s semnum = .done (some .enomem) none s ∨
      semfsGetvnode m s semnum = .done none (some s.nextAddr) { s with
        semfsSems := s.semfsSems.set semnum (some ⟨true, l⟩)
        semfsVnodes := s.semfsVnodes ++ [⟨s.nextAddr, semnum, 1⟩]
        nextAddr := s.nextAddr + 1 } := by
  simp only [semfsGetvnode, findIdx_of_notMem_nums hnot, hroot, hsem, ne_eq, not_false_eq_true,
    if_true]
  split
  · exact Or.inl rfl
  · split
    · exact Or.inl rfl
    · exact Or.inr rfl

/-- `semfs_reclaim`. -/
theorem semfsReclaim_keeps {s : State} (h : Inv s) {i : ℕ} {vn : Vnode}
    (hvn : s.semfsVnodes[i]? = some vn) : (semfsReclaim s i vn).Keeps := by
  unfold semfsReclaim
  split
  · exact h.recount _ _ fun _ => rfl
  · -- without the vnode at place `i` the numbers are those that were there less its own
    have hmem : vn.semvSemnum ∈ s.nums := List.mem_map_of_mem (List.mem_of_getElem? hvn)
    have herase : (s.semfsVnodes.eraseIdx i).map Vnode.semvSemnum =
        s.nums.erase vn.semvSemnum := by
      obtain ⟨hlt, hget⟩ := List.getElem?_eq_some_iff.mp hvn
      have hlt' : i < s.nums.length := by simpa [State.nums] using hlt
      have hgetn : s.nums[i] = vn.semvSemnum := by simp [State.nums, hget]
      rw [← List.eraseIdx_map, ← hgetn, h.tables.vnodeOnce.erase_getElem]
      rfl
    have hnums : ∀ j, j ∈ s.nums.erase vn.semvSemnum ↔ j ∈ s.nums ∧ j ≠ vn.semvSemnum := by
      intro j
      rw [h.tables.vnodeOnce.mem_erase_iff]
      exact and_comm
    have hnodup := h.tables.vnodeOnce.erase vn.semvSemnum
    dsimp only
    split
    · rename_i hroot
      obtain ⟨sem, hsem, hv⟩ := h.tables.vnodeSem _ hmem hroot
      simp only [hsem, hv, if_true]
      refine ⟨?_, by simpa using h.bound⟩
      rw [State.nums, Slots.get_set (Slots.lt_of_get hsem)]
      dsimp only
      rw [herase]
      exact h.tables.dropVnode hsem hnums hnodup
    · rename_i hroot
      have hroot := not_not.mp hroot
      refine ⟨?_, h.bound⟩
      rw [State.nums]
      dsimp only
      rw [herase]
      refine h.tables.reroot h.root_free (fun j hj => ?_) hnodup
      rw [hnums j]
      exact and_iff_left (hroot ▸ hj)

theorem vopDecref_keeps {s : State} (h : Inv s) {i : ℕ} {vn : Vnode}
    (hvn : s.semfsVnodes[i]? = some vn) : (vopDecref s i vn).Keeps := by
  unfold vopDecref
  split
  · exact h.recount _ _ fun _ => rfl
  · exact semfsReclaim_keeps h hvn

/-! ### The directory -/

theorem semfsRemove_keeps {s : State} (h : Inv s) (name : Name) : (semfsRemove s name).Keeps := by
  unfold semfsRemove
  split
  · exact h
  · split
    · exact h
    · split
      · exact h
      · rename_i i hfind hdot dent hd
        obtain ⟨sem, hsem, hl⟩ := h.tables.dentSem i dent hd
        simp only [hsem, hl, if_true]
        refine ⟨?_, by simpa using h.bound⟩
        dsimp only
        rw [Slots.get_set (Slots.lt_of_get hsem), Slots.get_set (Slots.lt_of_get hd)]
        exact h.tables.unlink hd hsem

theorem semfsLookup_keeps {s : State} (h : Inv s) (m : Mem) (dirvn : ℕ) (path : Name) :
    (semfsLookup m s dirvn path).Keeps := by
  unfold semfsLookup
  split
  · exact h.recount _ _ fun _ => rfl
  · split
    · rename_i dent hd
      obtain ⟨k, -, hk⟩ := Option.bind_eq_some_iff.mp hd
      exact semfsGetvnode_keeps h m (Or.inr ⟨k, dent, hk, rfl⟩)
    · exact h

/-- `semfs_sem_insert` finds a free place below the number of the root. -/
theorem semfsSemInsert_spec {s : State} (h : Inv s) {m : Mem} {semnum : ℕ}
    (hs : semfsSemInsert m s = .ok semnum) :
    semnum ≤ s.semfsSems.length ∧ Slots.get s.semfsSems semnum = none ∧
      s.semfsSems.length < semfsRootdir := by
  unfold semfsSemInsert at hs
  split at hs
  · cases hs
  · rename_i hfull
    have hlt : s.semfsSems.length < semfsRootdir := lt_of_le_of_ne h.bound hfull
    split at hs
    · cases hs
      exact ⟨(Slots.free_spec _).1, (Slots.free_spec _).2, hlt⟩
    · split at hs
      · cases hs
      · cases hs
        exact ⟨le_rfl, Slots.get_of_length_le le_rfl, hlt⟩

/-- A state in which the tables say what they said. -/
theorem Inv.congr {s s' : State} (h : Inv s)
    (hsems : Slots.get s'.semfsSems = Slots.get s.semfsSems)
    (hdents : Slots.get s'.semfsDents = Slots.get s.semfsDents)
    (hvnodes : s'.semfsVnodes = s.semfsVnodes) (hbound : s'.semfsSems.length ≤ semfsRootdir) :
    Inv s' := by
  refine ⟨?_, hbound⟩
  rw [hsems, hdents, State.nums, hvnodes]
  exact h.tables

theorem semfsCreat_keeps {s : State} (h : Inv s) (m : Mem) (name : Name) (excl : Bool) :
    (semfsCreat m s name excl).Keeps := by
  unfold semfsCreat
  split
  · exact h
  · split
    · rename_i dent hd
      split
      · exact h
      · obtain ⟨k, -, hk⟩ := Option.bind_eq_some_iff.mp hd
        exact semfsGetvnode_keeps h m (Or.inr ⟨k, dent, hk, rfl⟩)
    · rename_i hd
      have hname : ∀ k d, Slots.get s.semfsDents k = some d → d.semdName ≠ name := by
        intro k d hk
        have hfind : Slots.find (hasName name) s.semfsDents = none := by
          cases hfind : Slots.find (hasName name) s.semfsDents with
          | none => rfl
          | some k' =>
            obtain ⟨a, ha, -⟩ := Slots.find_eq_some hfind
            rw [hfind, Option.bind_some, ha] at hd
            cases hd
        exact of_decide_eq_false (Slots.find_eq_none hfind hk)
      split
      · exact h
      · split
        · exact h
        · rename_i semnum hins
          obtain ⟨hle, hfree, hlt⟩ := semfsSemInsert_spec h hins
          obtain ⟨hele, hefree⟩ := Slots.free_spec s.semfsDents
          have hlen := Slots.length_put_le s.semfsSems semnum ⟨false, false⟩
          have hundo := Slots.get_set_put hle hfree ⟨false, false⟩
          have hroot : semnum ≠ semfsRootdir := (hle.trans_lt hlt).ne
          have hnot : semnum ∉ s.nums := by
            intro hmem
            obtain ⟨sem, hsem, -⟩ := h.tables.vnodeSem semnum hmem hroot
            rw [hfree] at hsem
            cases hsem
          have hrollback : Inv { s with
              semfsSems := (Slots.put s.semfsSems semnum ⟨false, false⟩).set semnum none } :=
            h.congr hundo rfl rfl (by rw [List.length_set]; exact hlen.trans hlt)
          dsimp only
          split
          · exact hrollback
          · split
            · exact hrollback
            · -- the semaphore is in its slot and the name in the directory; the vnode is next
              have hput := Slots.get_put hle (⟨false, false⟩ : Sem)
              have hsem : Slots.get (Slots.put s.semfsSems semnum ⟨false, false⟩) semnum =
                  some ⟨false, false⟩ := by rw [hput, Function.update_self]
              have hltp := Slots.lt_length_put hle (⟨false, false⟩ : Sem)
              rcases semfsGetvnode_new (s := { s with
                  semfsSems := Slots.put s.semfsSems semnum ⟨false, false⟩
                  semfsDents := Slots.put s.semfsDents (Slots.free s.semfsDents)
                    ⟨name, semnum⟩ }) m hnot hroot hsem with hget | hget
              · rw [hget]
                refine h.congr hundo ?_ rfl ?_
                · exact Slots.get_set_put hele hefree _
                · rw [List.length_set]
                  exact hlen.trans hlt
              · rw [hget]
                refine ⟨?_, ?_⟩
                · have hset : Slots.get ((Slots.put s.semfsSems semnum ⟨false, false⟩).set semnum
                      (some ⟨true, false⟩)) semnum = some ⟨true, false⟩ := by
                    rw [Slots.get_set hltp, Function.update_self]
                  dsimp only
                  rw [Slots.get_modify hset, Slots.get_set hltp, hput, Slots.get_put hele,
                    Function.update_idem, Function.update_idem]
                  have hnums : State.nums { s with
                      semfsVnodes := s.semfsVnodes ++ [⟨s.nextAddr, semnum, 1⟩] } =
                        s.nums ++ [semnum] := by simp [State.nums]
                  exact hnums ▸ h.tables.create hfree hroot hefree hname
                · simpa using hlen.trans hlt

/-! ### Every run -/

theorem call_keeps {s : State} (h : Inv s) {a : Action} {o : Outcome} (hs : call s a = some o) :
    o.Keeps := by
  cases a with
  | creat m name excl =>
    obtain rfl := Option.some.inj hs
    exact semfsCreat_keeps h m name excl
  | lookup m dirvn path =>
    simp only [call, Option.ite_none_right_eq_some, Option.some.injEq] at hs
    obtain ⟨-, rfl⟩ := hs
    exact semfsLookup_keeps h m dirvn path
  | remove name =>
    obtain rfl := Option.some.inj hs
    exact semfsRemove_keeps h name
  | getvnode m semnum =>
    simp only [call, Option.ite_none_right_eq_some, Option.some.injEq] at hs
    obtain ⟨hnum, rfl⟩ := hs
    refine semfsGetvnode_keeps h m (hnum.imp_right ?_)
    rintro ⟨d, hd, hany⟩
    obtain ⟨dent, rfl, hn⟩ := (Option.any_eq_true _ _).mp hany
    obtain ⟨k, hk⟩ := List.getElem?_of_mem hd
    exact ⟨k, dent, Slots.get_eq_some.mpr hk, of_decide_eq_true hn⟩
  | release i =>
    obtain ⟨vn, hvn, rfl⟩ := Option.map_eq_some_iff.mp hs
    exact vopDecref_keeps h hvn
  | reclaim i =>
    obtain ⟨vn, hvn, rfl⟩ := Option.map_eq_some_iff.mp hs
    exact semfsReclaim_keeps h hvn

/-- The kernel runs and the tables are in step. -/
def Status.Ok : Status → Prop
  | .running s => Inv s
  | .panicked => False

theorem ok_of_reachable {st : Status} (h : system.Reachable st) : st.Ok := by
  refine h.invariant (P := Status.Ok) ?_ ?_
  · rintro st rfl
    exact ⟨⟨by simp, by simp, by simp, by simp, by simp, by simp [State.nums], List.nodup_nil,
      by simp⟩, Nat.zero_le _⟩
  · intro st a st' hok hs
    cases st with
    | panicked => exact hok.elim
    | running s =>
      obtain ⟨o, ho, rfl⟩ := Option.map_eq_some_iff.mp hs
      have hkeep := call_keeps hok ho
      cases o with
      | panic => exact hkeep
      | done result vn s' => exact hkeep

/-- **The tables stay in step.** After any sequence of calls, whichever allocations fail: no
`KASSERT` has failed; a slot holds a semaphore exactly if one that is linked or has a vnode is
there, and a number in a directory entry or in a vnode other than the root's has one; `sems_linked`
is set exactly if one directory entry carries the number, and `sems_hasvnode` exactly if one vnode
does; and neither names nor numbers of vnodes occur twice. -/
theorem tables_in_step {st : Status} (h : system.Reachable st) :
    ∃ s, st = .running s ∧
      (∀ i, Slots.get s.semfsSems i ≠ none ↔
        ∃ m, Slots.get s.semfsSems i = some m ∧ (m.semsLinked = true ∨ m.semsHasvnode = true)) ∧
      (∀ i, Slots.get s.semfsSems i = none → (∀ k d, Slots.get s.semfsDents k = some d →
        d.semdSemnum ≠ i) ∧ ∀ v ∈ s.semfsVnodes, v.semvSemnum = i → i = semfsRootdir) ∧
      (∀ i m, Slots.get s.semfsSems i = some m → (m.semsLinked = true ↔
        ∃! k, ∃ d, Slots.get s.semfsDents k = some d ∧ d.semdSemnum = i)) ∧
      (∀ i m, Slots.get s.semfsSems i = some m → (m.semsHasvnode = true ↔
        ∃! k : ℕ, ∃ v : Vnode, s.semfsVnodes[k]? = some v ∧ v.semvSemnum = i)) ∧
      (∀ k k' d d', Slots.get s.semfsDents k = some d → Slots.get s.semfsDents k' = some d' →
        d.semdName = d'.semdName → k = k') ∧
      (s.semfsVnodes.map Vnode.semvSemnum).Nodup := by
  have hok := ok_of_reachable h
  cases st with
  | panicked => exact hok.elim
  | running s =>
    obtain ⟨ht, hbound⟩ := hok
    have hnum : ∀ (k : ℕ) (v : Vnode),
        s.semfsVnodes[k]? = some v → s.nums[k]? = some v.semvSemnum := by
      intro k v hk
      rw [State.nums, List.getElem?_map, hk]
      rfl
    refine ⟨s, rfl, fun i => ⟨fun hne => ?_, fun ⟨m, hm, _⟩ => by simp [hm]⟩,
      fun i hi => ⟨?_, ?_⟩, fun i m hm => ⟨fun hl => ?_, ?_⟩, fun i m hm => ⟨fun hv => ?_, ?_⟩,
      ht.nameOnce, ht.vnodeOnce⟩
    · obtain ⟨m, hm⟩ := Option.ne_none_iff_exists'.mp hne
      exact ⟨m, hm, ht.used i m hm⟩
    · rintro k d hd rfl
      obtain ⟨m, hm, -⟩ := ht.dentSem k d hd
      rw [hi] at hm
      cases hm
    · rintro v hv rfl
      by_contra hroot
      obtain ⟨m, hm, -⟩ := ht.vnodeSem _ (List.mem_map_of_mem hv) hroot
      rw [hi] at hm
      cases hm
    · obtain ⟨k, d, hd, rfl⟩ := ht.linkedDent i m hm hl
      refine ⟨k, ⟨d, hd, rfl⟩, ?_⟩
      rintro k' ⟨d', hd', he⟩
      exact ht.dentOnce k' k d' d hd' hd he
    · rintro ⟨k, ⟨d, hd, rfl⟩, -⟩
      obtain ⟨m', hm', hl⟩ := ht.dentSem k d hd
      rw [hm] at hm'
      obtain rfl := Option.some.inj hm'
      exact hl
    · obtain ⟨v, hv, rfl⟩ := List.mem_map.mp (ht.semVnode i m hm hv)
      obtain ⟨k, hk⟩ := List.getElem?_of_mem hv
      refine ⟨k, ⟨v, hk, rfl⟩, ?_⟩
      rintro k' ⟨v', hk', he⟩
      have hlt : k' < s.nums.length := by
        rw [State.nums, List.length_map]
        exact (List.getElem?_eq_some_iff.mp hk').1
      refine (List.getElem?_inj hlt ht.vnodeOnce).mp ?_
      rw [hnum k' v' hk', hnum k v hk, he]
    · rintro ⟨k, ⟨v, hk, rfl⟩, -⟩
      have hlt : v.semvSemnum ≠ semfsRootdir := ((Slots.lt_of_get hm).trans_le hbound).ne
      obtain ⟨m', hm', hv⟩ :=
        ht.vnodeSem v.semvSemnum (List.mem_map_of_mem (List.mem_of_getElem? hk)) hlt
      rw [hm] at hm'
      obtain rfl := Option.some.inj hm'
      exact hv

/-- No allocation fails. -/
def plenty : Mem := ⟨false, false, false, false, false, false⟩

/-- `a` is created, removed while open, and created again; the second time there is no memory for
the vnode, the third time there is. -/
def recreate : List Action :=
  [.getvnode plenty semfsRootdir, .creat plenty [97] true, .remove [97],
    .creat { plenty with vnodeAdd := true } [97] true, .creat plenty [97] true,
    .lookup plenty 0 [97]]

/-- The state `recreate` ends in. -/
def recreated : State where
  semfsSems := [some ⟨true, false⟩, some ⟨true, true⟩]
  semfsDents := [some ⟨[97], 1⟩]
  semfsVnodes := [⟨0, semfsRootdir, 1⟩, ⟨1, 0, 1⟩, ⟨2, 1, 2⟩]
  nextAddr := 3

theorem recreate_runs : recreate.foldlM system.step (.running ⟨[], [], [], 0⟩) =
    some (.running recreated) := by
  decide

theorem tables_in_step_recreated : ∃ s, Status.running recreated = .running s ∧
    (∃! k, ∃ d, Slots.get s.semfsDents k = some d ∧ d.semdSemnum = 1) ∧
    ∃! k : ℕ, ∃ v : Vnode, s.semfsVnodes[k]? = some v ∧ v.semvSemnum = 0 := by
  have hreach := TransitionSystem.reachable_of_run recreate (.init rfl) recreate_runs
  obtain ⟨s, hs, -, -, hlinked, hvnode, -⟩ := tables_in_step hreach
  obtain rfl := Status.running.inj hs
  exact ⟨_, rfl, (hlinked 1 ⟨true, true⟩ rfl).mp rfl, (hvnode 0 ⟨true, false⟩ rfl).mp rfl⟩

end Tables

end Semfs

end Os161
