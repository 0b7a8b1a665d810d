import Os161.Kern.Uio
import Os161.Lib.Prog
import Os161.Vfs.Names
import Mathlib.Data.Multiset.AddSub

/-!
# References taken and given back by the VFS layer

The path operations of `kern/vfs/vfspath.c`, the name translation of `kern/vfs/vfslookup.c` and the
current directory of `kern/vfs/vfscwd.c`, seen by the references they take: to the root of a
device, the boot filesystem, the current directory, the parent and the target.

## What the filesystems promise

`World` holds the outcome of every operation of a filesystem. An outcome may depend on how many
operations came before it, so it is an arbitrary one each time. A `VOP_LOOKUP`, `VOP_LOOKPARENT`,
`VOP_CREAT` or `FSOP_GETROOT` that succeeds takes one reference to the vnode it returns; nothing
else a filesystem does changes a count, and `VOP_RECLAIM` uses up the reference it is passed.

`vn_refcount` is an `int` in C, with room for `2 ^ 31 - 1` references; it is counted without a bound
here, and the check of `vnode_check` for counts above `0x100000`, which only warns, is left out.

## How it composes

A failed `KASSERT` and the checks of `vnode_check` halt the run. This module has the functions and
nothing about them: `Vfs.RefsHeld` says of each which references it leaves to whom, and
`Vfs.RefsBalance` what that comes to for a caller.

## Main definitions

* `World` — what the filesystems and devices answer
* `State` — the references, the two slots and the depth of the big lock
* `getdevice`, `vfsLookup`, `vfsOpen`, `vfsSetcurdir`, `vfsSetbootfs`, … — the functions
-/

namespace Os161

namespace Vfs

namespace Refs

open Prog

variable {V α β : Type}

/-! ### Filesystems and devices -/

/-- What `VOP_GETTYPE` reports. -/
inductive Vtype where
  /-- `S_IFREG` -/
  | reg
  /-- `S_IFDIR` -/
  | dir
  /-- `S_IFLNK` -/
  | lnk
  /-- `S_IFIFO` -/
  | fifo
  /-- `S_IFSOCK` -/
  | sock
  /-- `S_IFCHR` -/
  | chr
  /-- `S_IFBLK` -/
  | blk
  deriving DecidableEq

/-- The operations on vnodes that return only a code. -/
inductive Vop (V : Type) where
  | eachopen (vn : V) (openflags : BitVec 32)
  | truncate (vn : V) (len : ℕ)
  | remove (dir : V) (name : Name)
  | rename (olddir : V) (oldname : Name) (newdir : V) (newname : Name)
  | link (newdir : V) (newname : Name) (oldfile : V)
  | symlink (newdir : V) (newname contents : Name)
  | readlink (vn : V)
  | mkdir (parent : V) (name : Name) (mode : ℕ)
  | rmdir (parent : V) (name : Name)
  | namefile (cwd : V)

/-- The vnode an operation is called through. -/
def Vop.vn : Vop V → V
  | eachopen vn _ => vn
  | truncate vn _ => vn
  | remove dir _ => dir
  | rename olddir _ _ _ => olddir
  | link newdir _ _ => newdir
  | symlink newdir _ _ => newdir
  | readlink vn => vn
  | mkdir parent _ _ => parent
  | rmdir parent _ => parent
  | namefile cwd => cwd

/-- What lies below the VFS layer. The first argument of each operation counts the operations made
so far. -/
structure World (V : Type) where
  /-- `knowndevs`. -/
  knowndevs : Table
  /-- `kd_vnode` of the entry with this device. -/
  kdVnode : ℕ → V
  /-- `vn_fs`; a filesystem goes by the name of the device it is on, and a device has none. -/
  vnFs : V → Option Name
  /-- `FSOP_GETVOLNAME`. -/
  getvolname : Name → Option Name
  /-- `FSOP_GETROOT`. -/
  getroot : ℕ → Name → Except Errno V
  /-- `VOP_LOOKUP`. -/
  lookup : ℕ → V → Name → Except Errno V
  /-- `VOP_LOOKPARENT`. -/
  lookparent : ℕ → V → Name → Except Errno (V × Name)
  /-- `VOP_CREAT`. -/
  creat : ℕ → V → Name → Bool → ℕ → Except Errno V
  /-- `VOP_GETTYPE`. -/
  gettype : ℕ → V → Except Errno Vtype
  /-- The other operations. -/
  vop : ℕ → Vop V → Option Errno
  /-- `uiomove`. -/
  uiomove : ℕ → Name → Option Errno

/-! ### The state of the VFS layer -/

/-- Why a run halts. -/
inductive Panic where
  /-- A vnode without references is used. -/
  | refcount
  /-- `vfs_biglock` is not held. -/
  | biglock
  /-- The current directory has no filesystem. -/
  | vnFs
  /-- The filesystem of the current directory has no name. -/
  | name
  /-- An entry of `knowndevs` is not as `vfs_getroot` expects. -/
  | knowndev
  /-- A transfer in the wrong direction. -/
  | uioRw
  deriving DecidableEq

structure State (V : Type) where
  /-- `vn_refcount`, 0 for what is no vnode any more. -/
  refs : V → ℕ
  /-- `p_cwd` of the current process. -/
  pCwd : Option V
  /-- `bootfs_vnode`. -/
  bootfsVnode : Option V
  /-- `vfs_biglock_depth`, as far as the current thread is concerned. -/
  biglockDepth : ℕ
  /-- The number of operations made so far. -/
  tick : ℕ

abbrev M (V α : Type) := Prog (Growth.any (State V)) Panic α

/-- Change the state. -/
def modify (f : State V → State V) : M V Unit := update f fun _ => trivial

/-- `KASSERT`. -/
def kassert (p : Prop) [Decidable p] (e : Panic) : M V Unit := if p then pure () else halt e

/-- `vfs_biglock_acquire`. -/
def vfsBiglockAcquire : M V Unit := modify fun s => { s with biglockDepth := s.biglockDepth + 1 }

/-- `vfs_biglock_release`. -/
def vfsBiglockRelease : M V Unit := do
  let s ← get
  kassert (0 < s.biglockDepth) .biglock
  modify fun s => { s with biglockDepth := s.biglockDepth - 1 }

/-- `KASSERT(vfs_biglock_do_i_hold())`. -/
def biglockHeld : M V Unit := do
  let s ← get
  kassert (0 < s.biglockDepth) .biglock

/-- The number of the next operation. -/
def tick : M V ℕ := do
  let s ← get
  modify fun s => { s with tick := s.tick + 1 }
  pure s.tick

section Operations

variable [DecidableEq V]

/-- `vnode_incref`. -/
def vnodeIncref (vn : V) : M V Unit :=
  modify fun s => { s with refs := Function.update s.refs vn (s.refs vn + 1) }

/-- `VOP_RECLAIM`: the reference it is passed goes away with the vnode. -/
def vopReclaim (vn : V) : M V Unit :=
  modify fun s => { s with refs := Function.update s.refs vn 0 }

/-- `vnode_decref`. -/
def vnodeDecref (vn : V) : M V Unit := do
  let s ← get
  kassert (0 < s.refs vn) .refcount
  if 1 < s.refs vn then
    modify fun s => { s with refs := Function.update s.refs vn (s.refs vn - 1) }
  else vopReclaim vn

/-- `vnode_check`. -/
def vnodeCheck (vn : V) : M V Unit := do
  let s ← get
  kassert (0 < s.refs vn) .refcount

/-- An operation that returns a vnode: a new reference, if it succeeds. -/
def giving (f : ℕ → Except Errno α) (node : α → V) : M V (Except Errno α) := do
  let n ← tick
  match f n with
  | .ok a => do
      vnodeIncref (node a)
      pure (.ok a)
  | .error e => pure (.error e)

def fsopGetroot (w : World V) (fs : Name) : M V (Except Errno V) :=
  giving (fun n => w.getroot n fs) id

def vopLookup (w : World V) (vn : V) (path : Name) : M V (Except Errno V) := do
  vnodeCheck vn
  giving (fun n => w.lookup n vn path) id

def vopLookparent (w : World V) (vn : V) (path : Name) : M V (Except Errno (V × Name)) := do
  vnodeCheck vn
  giving (fun n => w.lookparent n vn path) Prod.fst

def vopCreat (w : World V) (dir : V) (name : Name) (excl : Bool) (mode : ℕ) :
    M V (Except Errno V) := do
  vnodeCheck dir
  giving (fun n => w.creat n dir name excl mode) id

def vopGettype (w : World V) (vn : V) : M V (Except Errno Vtype) := do
  vnodeCheck vn
  let n ← tick
  pure (w.gettype n vn)

/-- The other operations. -/
def vop (w : World V) (op : Vop V) : M V (Option Errno) := do
  vnodeCheck op.vn
  let n ← tick
  pure (w.vop n op)

def uiomove (w : World V) (ptr : Name) : M V (Option Errno) := do
  let n ← tick
  pure (w.uiomove n ptr)

/-! ### `vfslist.c` -/

/-- `vfs_getroot`. -/
def vfsGetrootRef (w : World V) (devname : Name) : M V (Except Errno V) := do
  biglockHeld
  match vfsGetroot w.knowndevs devname with
  | none => pure (.error .enodev)
  | some (.fsroot fs) => fsopGetroot w fs
  | some (.device dev) => do
      vnodeIncref (w.kdVnode dev)
      pure (.ok (w.kdVnode dev))
  | some .enxio => pure (.error .enxio)
  | some .panicked => halt .knowndev

/-- `vfs_getdevname`. -/
def vfsGetdevname (w : World V) (fs : Name) : M V (Option Name) := do
  biglockHeld
  pure ((w.knowndevs.find? fun kd => kd.kdName = fs ∧ kd.kdFs ≠ .null ∧ kd.kdFs ≠ .swap).map
    (·.kdName))

/-! ### `vfscwd.c`, first part -/

/-- `vfs_getcurdir`. -/
def vfsGetcurdir : M V (Except Errno V) := do
  let s ← get
  match s.pCwd with
  | some cwd => do
      vnodeIncref cwd
      pure (.ok cwd)
  | none => pure (.error .enoent)

/-- Give back the reference of a slot, if it had one. -/
def decrefOld : Option V → M V Unit
  | some old => vnodeDecref old
  | none => pure ()

/-- `vfs_setcurdir`. -/
def vfsSetcurdir (w : World V) (dir : V) : M V (Option Errno) := do
  match ← vopGettype w dir with
  | .error e => pure (some e)
  | .ok vtype =>
      if vtype ≠ .dir then pure (some .enotdir)
      else do
        vnodeIncref dir
        let old := (← get).pCwd
        modify fun s => { s with pCwd := some dir }
        decrefOld old
        pure none

/-- `vfs_clearcurdir`. -/
def vfsClearcurdir : M V (Option Errno) := do
  let old := (← get).pCwd
  modify fun s => { s with pCwd := none }
  decrefOld old
  pure none

/-! ### `vfslookup.c` -/

/-- `change_bootfs`. -/
def changeBootfs (newvn : Option V) : M V Unit := do
  let oldvn := (← get).bootfsVnode
  modify fun s => { s with bootfsVnode := newvn }
  decrefOld oldvn

/-- `:`. -/
def colonChar : UInt8 := 58

/-- `/`. -/
def slashChar : UInt8 := 47

/-- `getdevice`: the vnode to start from and the rest of the path. -/
def getdevice (w : World V) (path : Name) : M V (Except Errno (V × Name)) := do
  biglockHeld
  if path = [] then pure (.error .einval)
  else
    -- the first colon or slash
    match path.findIdx? (fun ch => ch = colonChar ∨ ch = slashChar) with
    | none => relative
    | some i =>
        if path[i]? = some colonChar ∧ 0 < i then do
          match ← vfsGetrootRef w (path.take i) with
          | .error e => pure (.error e)
          | .ok startvn => pure (.ok (startvn, (path.drop (i + 1)).dropWhile (· = slashChar)))
        else if path[i]? = some slashChar ∧ i ≠ 0 then relative
        else if path[i]? = some slashChar then do
          match (← get).bootfsVnode with
          | none => pure (.error .enoent)
          | some bootfsVnode => do
              vnodeIncref bootfsVnode
              pure (.ok (bootfsVnode, (path.drop 1).dropWhile (· = slashChar)))
        else do
          match ← vfsGetcurdir with
          | .error e => pure (.error e)
          | .ok vn =>
              match w.vnFs vn with
              | none => halt .vnFs
              | some fs => do
                  let result ← fsopGetroot w fs
                  vnodeDecref vn
                  match result with
                  | .error e => pure (.error e)
                  | .ok startvn =>
                      pure (.ok (startvn, (path.drop 1).dropWhile (· = slashChar)))
where
  /-- A relative path, or just a bare filename. -/
  relative : M V (Except Errno (V × Name)) := do
    match ← vfsGetcurdir with
    | .error e => pure (.error e)
    | .ok startvn => pure (.ok (startvn, path))

/-- The lookup of `vfs_lookparent`; just a device name makes no sense there. -/
def lookparentFrom (w : World V) (startvn : V) (path : Name) : M V (Except Errno (V × Name)) :=
  if path.length = 0 then pure (.error .einval) else vopLookparent w startvn path

/-- `vfs_lookparent`. -/
def vfsLookparent (w : World V) (path : Name) : M V (Except Errno (V × Name)) := do
  vfsBiglockAcquire
  match ← getdevice w path with
  | .error e => do
      vfsBiglockRelease
      pure (.error e)
  | .ok (startvn, path) => do
      let result ← lookparentFrom w startvn path
      vnodeDecref startvn
      vfsBiglockRelease
      pure result

/-- `vfs_lookup`. -/
def vfsLookup (w : World V) (path : Name) : M V (Except Errno V) := do
  vfsBiglockAcquire
  match ← getdevice w path with
  | .error e => do
      vfsBiglockRelease
      pure (.error e)
  | .ok (startvn, path) =>
      if path.length = 0 then do
        vfsBiglockRelease
        pure (.ok startvn)
      else do
        let result ← vopLookup w startvn path
        vnodeDecref startvn
        vfsBiglockRelease
        pure result

/-! ### `vfscwd.c`, second part -/

/-- `vfs_chdir`. -/
def vfsChdir (w : World V) (path : Name) : M V (Option Errno) := do
  match ← vfsLookup w path with
  | .error e => pure (some e)
  | .ok vn => do
      let result ← vfsSetcurdir w vn
      vnodeDecref vn
      pure result

/-- The name `vfs_getcwd` prints before the colon. -/
def cwdVolname (w : World V) (fs : Name) : M V (Option Name) :=
  match w.getvolname fs with
  | some name => pure (some name)
  | none => do
      vfsBiglockAcquire
      let name ← vfsGetdevname w fs
      vfsBiglockRelease
      pure name

/-- The transfers of `vfs_getcwd`. -/
def cwdMove (w : World V) (cwd : V) (name : Name) : M V (Option Errno) := do
  match ← uiomove w name with
  | some e => pure (some e)
  | none =>
      match ← uiomove w [colonChar] with
      | some e => pure (some e)
      | none => vop w (.namefile cwd)

/-- `vfs_getcwd`. -/
def vfsGetcwd (w : World V) (uioRw : UioRw) : M V (Option Errno) := do
  kassert (uioRw = .read) .uioRw
  match ← vfsGetcurdir with
  | .error e => pure (some e)
  | .ok cwd =>
      match w.vnFs cwd with
      | none => halt .vnFs
      | some fs => do
          match ← cwdVolname w fs with
          | none => halt .name
          | some name => do
              let result ← cwdMove w cwd name
              vnodeDecref cwd
              pure result

/-- `NAME_MAX`. -/
def nameMax : ℕ := 255

/-- `vfs_setbootfs`: the copy of the name has room for `NAME_MAX - 1` bytes. -/
def vfsSetbootfs (w : World V) (fsname : Name) : M V (Option Errno) := do
  vfsBiglockAcquire
  let tmp := fsname.take (nameMax - 1)
  if colonChar ∈ tmp then do
    vfsBiglockRelease
    pure (some .einval)
  else do
    match ← vfsChdir w (tmp ++ [colonChar]) with
    | some e => do
        vfsBiglockRelease
        pure (some e)
    | none => do
        match ← vfsGetcurdir with
        | .error e => do
            vfsBiglockRelease
            pure (some e)
        | .ok newguy => do
            changeBootfs (some newguy)
            vfsBiglockRelease
            pure none

/-- `vfs_clearbootfs`. -/
def vfsClearbootfs : M V Unit := do
  vfsBiglockAcquire
  changeBootfs none
  vfsBiglockRelease

/-! ### `vfspath.c` -/

/-- `O_ACCMODE`. -/
def oAccmode : BitVec 32 := 3

/-- `O_CREAT`. -/
def oCreat : BitVec 32 := 4

/-- `O_EXCL`. -/
def oExcl : BitVec 32 := 8

/-- `O_TRUNC`. -/
def oTrunc : BitVec 32 := 16

/-- `canwrite`, if the access mode is one of `O_RDONLY`, `O_WRONLY` and `O_RDWR`. -/
def canwrite (openflags : BitVec 32) : Option Bool :=
  if openflags &&& oAccmode = 0 then some false
  else if openflags &&& oAccmode = 1 ∨ openflags &&& oAccmode = 2 then some true
  else none

/-- The vnode `vfs_open` opens. -/
def openVnode (w : World V) (path : Name) (openflags : BitVec 32) (mode : ℕ) :
    M V (Except Errno V) :=
  if openflags &&& oCreat ≠ 0 then do
    let excl : Bool := openflags &&& oExcl ≠ 0
    match ← vfsLookparent w path with
    | .error e => pure (.error e)
    | .ok (dir, name) => do
        let result ← vopCreat w dir name excl mode
        vnodeDecref dir
        pure result
  else vfsLookup w path

/-- What `O_TRUNC` asks for. -/
def openTruncate (w : World V) (vn : V) (openflags : BitVec 32) (canwrite : Bool) :
    M V (Option Errno) :=
  if openflags &&& oTrunc ≠ 0 then
    if canwrite = false then pure (some .einval) else vop w (.truncate vn 0)
  else pure none

/-- `vfs_open`. -/
def vfsOpen (w : World V) (path : Name) (openflags : BitVec 32) (mode : ℕ) :
    M V (Except Errno V) :=
  match canwrite openflags with
  | none => pure (.error .einval)
  | some canwrite => do
      match ← openVnode w path openflags mode with
      | .error e => pure (.error e)
      | .ok vn => do
          match ← vop w (.eachopen vn openflags) with
          | some e => do
              vnodeDecref vn
              pure (.error e)
          | none => do
              match ← openTruncate w vn openflags canwrite with
              | some e => do
                  vnodeDecref vn
                  pure (.error e)
              | none => pure (.ok vn)

/-- The operations on a name in its parent directory. -/
def inParent (w : World V) (path : Name) (op : V → Name → Vop V) : M V (Option Errno) := do
  match ← vfsLookparent w path with
  | .error e => pure (some e)
  | .ok (dir, name) => do
      let result ← vop w (op dir name)
      vnodeDecref dir
      pure result

/-- `vfs_remove`. -/
def vfsRemove (w : World V) (path : Name) : M V (Option Errno) := inParent w path .remove

/-- `vfs_symlink`. -/
def vfsSymlink (w : World V) (contents path : Name) : M V (Option Errno) :=
  inParent w path fun newdir newname => .symlink newdir newname contents

/-- `vfs_mkdir`. -/
def vfsMkdir (w : World V) (path : Name) (mode : ℕ) : M V (Option Errno) :=
  inParent w path fun parent name => .mkdir parent name mode

/-- `vfs_rmdir`. -/
def vfsRmdir (w : World V) (path : Name) : M V (Option Errno) := inParent w path .rmdir

/-- The second half of `vfs_rename` and `vfs_link`: the operation on two vnodes, if they are in one
filesystem. -/
def acrossFs (w : World V) (old newdir : V) (op : Vop V) : M V (Option Errno) := do
  if w.vnFs old = none ∨ w.vnFs newdir = none ∨ w.vnFs old ≠ w.vnFs newdir then do
    vnodeDecref newdir
    vnodeDecref old
    pure (some .exdev)
  else do
    let result ← vop w op
    vnodeDecref newdir
    vnodeDecref old
    pure result

/-- `vfs_rename`. -/
def vfsRename (w : World V) (oldpath newpath : Name) : M V (Option Errno) := do
  match ← vfsLookparent w oldpath with
  | .error e => pure (some e)
  | .ok (olddir, oldname) => do
      match ← vfsLookparent w newpath with
      | .error e => do
          vnodeDecref olddir
          pure (some e)
      | .ok (newdir, newname) =>
          acrossFs w olddir newdir (.rename olddir oldname newdir newname)

/-- `vfs_link`. -/
def vfsLink (w : World V) (oldpath newpath : Name) : M V (Option Errno) := do
  match ← vfsLookup w oldpath with
  | .error e => pure (some e)
  | .ok oldfile => do
      match ← vfsLookparent w newpath with
      | .error e => do
          vnodeDecref oldfile
          pure (some e)
      | .ok (newdir, newname) =>
          acrossFs w oldfile newdir (.link newdir newname oldfile)

/-- `vfs_readlink`. -/
def vfsReadlink (w : World V) (path : Name) : M V (Option Errno) := do
  match ← vfsLookup w path with
  | .error e => pure (some e)
  | .ok vn => do
      let result ← vop w (.readlink vn)
      vnodeDecref vn
      pure result

end Operations

end Refs

end Vfs

end Os161
