import Os161.Lib.Transition
import Mathlib.Logic.Function.Basic
import Mathlib.Tactic.DefEqTransformations

/-!
# References to vnodes

Who may use a vnode, and when it goes away: `vnode_incref` and `vnode_decref` of `kern/vfs/vnode.c`,
`sfs_loadvnode` and `sfs_reclaim` of `kern/fs/sfs/sfs_inode.c`, run by any number of threads.

`vnode_decref` decides under `vn_countlock` whether the caller's reference is the last one. If it
is, the reference is not counted down but passed on to `sfs_reclaim`, which takes `vfs_biglock` and
looks again; in between anybody may find the vnode in the table and take a new reference. A thread
between the two has a *pending* reclaim.

## Granularity

A step is one section of `vn_countlock`, taking or giving back `vfs_biglock`, one search of the
table, or one access to a vnode outside these. `vfs_biglock` is recursive, and callers may hold it
around a `VOP_DECREF`. `sfs_loadvnode` is called with it held.

References are handed out and passed around freely: `refs` lists who holds which, and any holder may
take another reference, give one away to another thread, or drop one. `vn_refcount` is an `int` in
C, with room for `2 ^ 31 - 1` references, and is counted without a bound here: each reference is a
pointer that is stored somewhere, and the 32-bit memory of the machine does not hold `2 ^ 31` of
them. Vnodes are told apart by the storage they were made in, `V`; storage that has been freed is
not used again under the same name.

A step that touches a vnode that is not there, or fails a `KASSERT`, sets `fault`. Device I/O works,
so `sfs_itrunc` and `sfs_sync_inode` succeed; memory may be refused.

## The invariant

This module ends with the invariant, `Inv`. Its second argument says which thread is reclaiming a
vnode, and at most one is; that is what makes `vn_refcount` the number of references held plus one
for a pending reclaim. `VnodeRefs` has the steps that take and drop references, `VnodeLife` those
that make and destroy vnodes, and `VnodeProtocol` what follows for every run.

## Main definitions

* `State`, `Action`, `step`, `system` — the threads and the vnodes of one volume
* `Local` — what a thread relies on where it is
* `Inv` — the invariant
-/

namespace Os161

namespace Vnode

variable {T V I : Type*}

/-- What the storage of a vnode holds. -/
inductive Slot (I : Type*) where
  /-- Not yet allocated. -/
  | unborn
  /-- A vnode, its inode number and its `vn_refcount`. -/
  | live (svIno : I) (vnRefcount : ℕ)
  /-- `vnode_cleanup` has run. -/
  | cleaned
  /-- Freed. -/
  | freed
  deriving DecidableEq

/-- Where a thread is. -/
inductive Pc (V I : Type*) where
  /-- Outside. -/
  | out
  /-- `sfs_loadvnode`, at the search of the table. -/
  | loadFind (ino : I)
  /-- `sfs_loadvnode`, at `VOP_INCREF`. -/
  | loadIncref (v : V)
  /-- `sfs_loadvnode`, at `kmalloc`. -/
  | loadCreate (ino : I)
  /-- `vnode_decref` has decided to destroy; at the head of `sfs_reclaim`. -/
  | reclaimEnter (v : V)
  /-- `sfs_reclaim`, at `vfs_biglock_acquire`. -/
  | reclaimLock (v : V)
  /-- `sfs_reclaim`, at the second look at `vn_refcount`. -/
  | reclaimCheck (v : V)
  /-- `sfs_reclaim`, at the `vfs_biglock_release` before `EBUSY` is returned. -/
  | reclaimBusy
  /-- `sfs_reclaim`, at the search of the table. -/
  | reclaimRemove (v : V)
  /-- `sfs_reclaim`, at `vnode_cleanup`. -/
  | reclaimCleanup (v : V)
  /-- `sfs_reclaim`, at the last `vfs_biglock_release`. -/
  | reclaimUnlock (v : V)
  /-- `sfs_reclaim`, at `kfree`. -/
  | reclaimFree (v : V)
  deriving DecidableEq

/-- The vnodes of a volume and the threads using them. -/
structure State (T V I : Type*) where
  /-- The storage of each vnode. -/
  slot : V → Slot I
  /-- `sfs_vnodes`. -/
  sfsVnodes : List V
  /-- The holder of `vfs_biglock`. -/
  vfsBiglock : Option T
  /-- `vfs_biglock_depth`. -/
  vfsBiglockDepth : ℕ
  /-- Where each thread is. -/
  pc : T → Pc V I
  /-- The references outstanding, with their holders. -/
  refs : List (T × V)
  /-- How often each vnode has been through `vnode_cleanup`. -/
  destroyed : V → ℕ
  /-- A vnode was used that is not there, or a `KASSERT` failed. -/
  fault : Bool

/-- What can happen next. -/
inductive Action (T V I : Type*) where
  /-- Thread `t` takes `vfs_biglock`. -/
  | biglockAcquire (t : T)
  /-- Thread `t` gives `vfs_biglock` back. -/
  | biglockRelease (t : T)
  /-- Thread `t` calls `sfs_loadvnode`. -/
  | load (t : T) (ino : I)
  /-- Thread `t` calls `VOP_INCREF` on a vnode it holds a reference to. -/
  | incref (t : T) (v : V)
  /-- Thread `t` gives a reference away to thread `u`. -/
  | give (t u : T) (v : V)
  /-- Thread `t` calls `VOP_DECREF` on a vnode it holds a reference to. -/
  | decref (t : T) (v : V)
  /-- Thread `t` takes its next step; `mem` is the storage `kmalloc` grants, if that is the step. -/
  | run (t : T) (mem : Option V)

/-- A volume without vnodes. -/
def init : State T V I where
  slot _ := .unborn
  sfsVnodes := []
  vfsBiglock := none
  vfsBiglockDepth := 0
  pc _ := .out
  refs := []
  destroyed _ := 0
  fault := false

variable [DecidableEq T] [DecidableEq V] [DecidableEq I]

/-- Move thread `t` to `p`. -/
def State.goto (s : State T V I) (t : T) (p : Pc V I) : State T V I :=
  { s with pc := Function.update s.pc t p }

/-- Something went wrong. -/
def State.fail (s : State T V I) : State T V I := { s with fault := true }

/-- The inode number of a vnode, if it is one. -/
def State.svIno (s : State T V I) (v : V) : Option I :=
  match s.slot v with
  | .live ino _ => some ino
  | _ => none

/-- `vfs_biglock_acquire`, where it does not block. -/
def State.biglockAcquire (s : State T V I) (t : T) : State T V I :=
  { s with vfsBiglock := some t, vfsBiglockDepth := s.vfsBiglockDepth + 1 }

/-- `vfs_biglock_release`. -/
def State.biglockRelease (s : State T V I) (t : T) : State T V I :=
  if s.vfsBiglock = some t ∧ 0 < s.vfsBiglockDepth then
    { s with
      vfsBiglock := if s.vfsBiglockDepth = 1 then none else some t
      vfsBiglockDepth := s.vfsBiglockDepth - 1 }
  else s.fail

/-- `vnode_incref`, whose caller then has a reference. -/
def vnodeIncref (s : State T V I) (t : T) (v : V) : State T V I :=
  match s.slot v with
  | .live ino count =>
      { s with slot := Function.update s.slot v (.live ino (count + 1)), refs := (t, v) :: s.refs }
  | _ => s.fail

/-- `vnode_decref` up to the end of its section; the caller's reference is gone, or passed on. -/
def vnodeDecref (s : State T V I) (t : T) (v : V) : State T V I :=
  match s.slot v with
  | .live ino count =>
      if 1 < count then
        { s with
          slot := Function.update s.slot v (.live ino (count - 1))
          refs := s.refs.erase (t, v) }
      else if count = 1 then { s with refs := s.refs.erase (t, v) }.goto t (.reclaimEnter v)
      else s.fail
  | _ => s.fail

/-- The search of `sfs_loadvnode`, which looks at every vnode up to the one it finds. -/
def loadFind (s : State T V I) (t : T) (ino : I) : State T V I :=
  if ∀ v ∈ s.sfsVnodes, s.svIno v ≠ none then
    match s.sfsVnodes.find? fun v => s.svIno v = some ino with
    | some v => s.goto t (.loadIncref v)
    | none => s.goto t (.loadCreate ino)
  else s.fail

/-- The rest of `sfs_loadvnode` when the vnode is not in the table: `ENOMEM`, or a new vnode with
one reference. -/
def loadCreate (s : State T V I) (t : T) (ino : I) : Option V → Option (State T V I)
  | none => some (s.goto t .out)
  | some v =>
      if s.slot v = .unborn then
        some ({ s with
          slot := Function.update s.slot v (.live ino 1)
          sfsVnodes := s.sfsVnodes ++ [v]
          refs := (t, v) :: s.refs }.goto t .out)
      else none

/-- The second look of `sfs_reclaim` at `vn_refcount`. -/
def reclaimCheck (s : State T V I) (t : T) (v : V) : State T V I :=
  match s.slot v with
  | .live ino count =>
      if count = 1 then s.goto t (.reclaimRemove v)
      else if 1 < count then
        { s with slot := Function.update s.slot v (.live ino (count - 1)) }.goto t .reclaimBusy
      else s.fail
  | _ => s.fail

/-- `sfs_reclaim` takes the vnode off the table. -/
def reclaimRemove (s : State T V I) (t : T) (v : V) : State T V I :=
  if (∀ w ∈ s.sfsVnodes, s.svIno w ≠ none) ∧ v ∈ s.sfsVnodes then
    { s with sfsVnodes := s.sfsVnodes.erase v }.goto t (.reclaimCleanup v)
  else s.fail

/-- `vnode_cleanup`. -/
def vnodeCleanup (s : State T V I) (t : T) (v : V) : State T V I :=
  match s.slot v with
  | .live _ count =>
      if count = 1 then
        { s with
          slot := Function.update s.slot v .cleaned
          destroyed := Function.update s.destroyed v (s.destroyed v + 1) }.goto t
            (.reclaimUnlock v)
      else s.fail
  | _ => s.fail

/-- The next step of thread `t`. It is not enabled while `vfs_biglock` is wanted and somebody else
has it. -/
def runStep (s : State T V I) (t : T) (mem : Option V) : Option (State T V I) :=
  match s.pc t with
  | .out => none
  | .loadFind ino => some (loadFind s t ino)
  | .loadIncref v => some ((vnodeIncref s t v).goto t .out)
  | .loadCreate ino => loadCreate s t ino mem
  | .reclaimEnter v => some (if s.svIno v ≠ none then s.goto t (.reclaimLock v) else s.fail)
  | .reclaimLock v =>
      if s.vfsBiglock = none ∨ s.vfsBiglock = some t then
        some ((s.biglockAcquire t).goto t (.reclaimCheck v))
      else none
  | .reclaimCheck v => some (reclaimCheck s t v)
  | .reclaimBusy => some ((s.biglockRelease t).goto t .out)
  | .reclaimRemove v => some (reclaimRemove s t v)
  | .reclaimCleanup v => some (vnodeCleanup s t v)
  | .reclaimUnlock v => some ((s.biglockRelease t).goto t (.reclaimFree v))
  | .reclaimFree v =>
      some (if s.slot v = .cleaned then
          { s with slot := Function.update s.slot v .freed }.goto t .out
        else s.fail)

/-- One step of the system. -/
def step (s : State T V I) : Action T V I → Option (State T V I)
  | .biglockAcquire t =>
      if s.pc t = .out ∧ (s.vfsBiglock = none ∨ s.vfsBiglock = some t) then
        some (s.biglockAcquire t)
      else none
  | .biglockRelease t =>
      if s.pc t = .out ∧ s.vfsBiglock = some t then some (s.biglockRelease t) else none
  | .load t ino =>
      if s.pc t = .out ∧ s.vfsBiglock = some t then some (s.goto t (.loadFind ino)) else none
  | .incref t v =>
      if s.pc t = .out ∧ (t, v) ∈ s.refs then some (vnodeIncref s t v) else none
  | .give t u v =>
      if (t, v) ∈ s.refs then some { s with refs := (u, v) :: s.refs.erase (t, v) } else none
  | .decref t v =>
      if s.pc t = .out ∧ (t, v) ∈ s.refs then some (vnodeDecref s t v) else none
  | .run t mem => runStep s t mem

/-- Any number of threads using the vnodes of one volume. -/
def system (T V I : Type*) [DecidableEq T] [DecidableEq V] [DecidableEq I] :
    TransitionSystem (State T V I) (Action T V I) where
  init s := s = Vnode.init
  step := step

/-! ### The invariant -/

/-- The vnode a thread has a pending reclaim for. -/
def Pc.pending? : Pc V I → Option V
  | .reclaimEnter v | .reclaimLock v | .reclaimCheck v | .reclaimRemove v | .reclaimCleanup v =>
      some v
  | _ => none

/-- The vnode a thread is reclaiming: pending, or destroyed and not yet freed. -/
def Pc.target? : Pc V I → Option V
  | .reclaimEnter v | .reclaimLock v | .reclaimCheck v | .reclaimRemove v | .reclaimCleanup v
  | .reclaimUnlock v | .reclaimFree v => some v
  | _ => none

/-- The number of references to a vnode that are held. -/
def State.outstanding (s : State T V I) (v : V) : ℕ := s.refs.countP fun r => r.2 = v

/-- A vnode that has not been destroyed. -/
def State.Live (s : State T V I) (v : V) : Prop := s.svIno v ≠ none

/-- What a thread relies on where it is. -/
def Local (s : State T V I) (t : T) : Pc V I → Prop
  | .out => True
  | .loadFind _ | .reclaimBusy => s.vfsBiglock = some t
  | .loadIncref v => s.vfsBiglock = some t ∧ v ∈ s.sfsVnodes
  | .loadCreate ino => s.vfsBiglock = some t ∧ ∀ v, s.svIno v ≠ some ino
  | .reclaimEnter v | .reclaimLock v => s.Live v
  | .reclaimCheck v => s.vfsBiglock = some t ∧ s.Live v
  | .reclaimRemove v => s.vfsBiglock = some t ∧ s.Live v ∧ s.outstanding v = 0
  | .reclaimCleanup v => s.vfsBiglock = some t ∧ s.Live v ∧ s.outstanding v = 0 ∧ v ∉ s.sfsVnodes
  | .reclaimUnlock v => s.vfsBiglock = some t ∧ s.slot v = .cleaned
  | .reclaimFree v => s.slot v = .cleaned

/-- The invariant of the reference protocol; `r` tells which thread is reclaiming a vnode. -/
structure Inv (s : State T V I) (r : V → Option T) : Prop where
  /-- What each thread relies on holds. -/
  locals : ∀ t, Local s t (s.pc t)
  /-- At most one thread reclaims a vnode. -/
  owner : ∀ t v, (s.pc t).target? = some v ↔ r v = some t
  /-- `vfs_biglock` is held to a positive depth. -/
  depth : ∀ t, s.vfsBiglock = some t → 0 < s.vfsBiglockDepth
  /-- The table lists the vnodes there are, but for the one being taken apart. -/
  nodup : s.sfsVnodes.Nodup
  table : ∀ v ∈ s.sfsVnodes, s.Live v
  listed : ∀ v, s.Live v → v ∉ s.sfsVnodes → ∃ t, s.pc t = .reclaimCleanup v
  /-- Inode numbers differ. -/
  unique : ∀ v w ino, s.svIno v = some ino → s.svIno w = some ino → v = w
  /-- References are to vnodes that are there, and with a pending reclaim make up the count. -/
  held : ∀ t v, (t, v) ∈ s.refs → s.Live v
  count : ∀ v ino n, s.slot v = .live ino n → n = s.outstanding v + if (r v).isSome then 1 else 0
  /-- A vnode is destroyed once. -/
  undestroyed : ∀ v, s.slot v ≠ .cleaned → s.slot v ≠ .freed → s.destroyed v = 0
  destroyed : ∀ v, s.slot v = .cleaned ∨ s.slot v = .freed → s.destroyed v = 1
  noFault : s.fault = false

omit [DecidableEq T] [DecidableEq I] in
theorem inv_init : Inv (init : State T V I) fun _ => none := by
  constructor <;> simp [init, Local, Pc.target?, State.Live, State.svIno]

end Vnode

end Os161
