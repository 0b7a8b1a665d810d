import Os161.Dev.Emu
import Os161.Sfs.Paths

/-!
# Biglock balance

The functions of `kern/vfs/vfslist.c`, `kern/vfs/vfslookup.c` and `kern/vfs/vfscwd.c` that take
`vfs_biglock`, path by path, on top of SFS and emufs. The operations of a vnode or a file system are
chosen by its kind, as the operations tables do; those of devices and of semfs touch neither lock.

## Main results

* `nets_vopReclaim`, `nets_vopLookup`, `nets_fsopSync` and the rest — each function gives back what
  it takes, whatever the operations table
* `Entry.nets` — so does every entry point
* `biglock_balance` — an entry point returns with the depth it was called with exactly when no
  `kmalloc` of `emufs_loadvnode` fails on the way
* `biglock_kept` — one that fails
-/

namespace Os161

namespace Balance

variable {k : ℕ}

/-! ### The operations tables -/

/-- `VOP_RECLAIM`. -/
def vopReclaim : Vnode → Lk (Option Errno)
  | .sfs _ => sfsReclaim
  | .emufs sc _ => emufsReclaim sc
  | .other => call .otherReclaim

theorem nets_vopReclaim (v : Vnode) : Nets 0 ⟨k, none⟩ ⟨k, none⟩ (vopReclaim v) := by
  cases v with
  | sfs isdir => exact nets_sfsReclaim
  | emufs sc isdir => exact nets_emufsReclaim
  | other => exact nets_call_last

/-- `VOP_DECREF`. -/
def vopDecref (v : Vnode) : Lk Unit := vnodeDecref (vopReclaim v)

theorem nets_vopDecref {l : ℕ} {q : Held} {β : Type} {v : Vnode} {f : Unit → Lk β}
    (hf : Nets l ⟨k, none⟩ q (f ())) : Nets l ⟨k, none⟩ q (vopDecref v >>= f) :=
  nets_decref (nets_vopReclaim v) hf

/-- `VOP_GETTYPE`: whether the vnode is a directory's. -/
def vopGettype : Vnode → Lk (Except Errno Bool)
  | .sfs _ => sfsGettype
  | .emufs _ isdir => return .ok isdir
  | .other => do
      match ← call .otherGettype with
      | some e => return .error e
      | none => return .ok (← test .isDir)

theorem nets_vopGettype (v : Vnode) : Nets 0 ⟨k, none⟩ ⟨k, none⟩ (vopGettype v) := by
  cases v with
  | sfs isdir => exact nets_sfsGettype
  | emufs sc isdir => exact nets_pure
  | other =>
    refine nets_call fun r => ?_
    cases r with
    | some e => exact nets_pure
    | none => exact nets_test fun _ => nets_pure

/-- An operation of a vnode that is neither SFS's nor emufs's, handing back one of the same kind. -/
def otherOp (c : Callee) : Lk (Except Errno Vnode) := do
  match ← call c with
  | some e => return .error e
  | none => return .ok .other

theorem nets_otherOp {p : Held} {c : Callee} : Nets 0 p p (otherOp c) := by
  refine nets_call fun r => ?_
  cases r with
  | some e => exact nets_pure
  | none => exact nets_pure

/-- `VOP_LOOKUP`. -/
def vopLookup : Vnode → Lk (Except Errno Vnode)
  | .sfs true => sfsLookup
  | .sfs false => return .error .enotdir
  | .emufs sc true => emufsLookup sc
  | .emufs _ false => return .error .enotdir
  | .other => otherOp .otherLookup

theorem nets_vopLookup (v : Vnode) : Nets 1 ⟨k, none⟩ ⟨k, none⟩ (vopLookup v) := by
  match v with
  | .sfs true => exact nets_sfsLookup.mono (Nat.zero_le 1)
  | .sfs false => exact nets_pure
  | .emufs sc true => exact nets_emufsOpen
  | .emufs _ false => exact nets_pure
  | .other => exact nets_otherOp.mono (Nat.zero_le 1)

/-- `VOP_LOOKPARENT`. -/
def vopLookparent : Vnode → Lk (Except Errno Vnode)
  | .sfs true => sfsLookparent
  | .sfs false => return .error .enotdir
  | .emufs sc true => emufsLookparent sc
  | .emufs _ false => return .error .enotdir
  | .other => otherOp .otherLookparent

theorem nets_vopLookparent (v : Vnode) : Nets 1 ⟨k, none⟩ ⟨k, none⟩ (vopLookparent v) := by
  match v with
  | .sfs true => exact nets_sfsLookparent.mono (Nat.zero_le 1)
  | .sfs false => exact nets_pure
  | .emufs sc true => exact nets_emufsLookparent
  | .emufs _ false => exact nets_pure
  | .other => exact nets_otherOp.mono (Nat.zero_le 1)

/-- `FSOP_SYNC`. -/
def fsopSync : Fs → Lk (Option Errno)
  | .sfs => sfsSync
  | .emufs _ => return none
  | .other => call .otherSync

theorem nets_fsopSync {p : Held} (f : Fs) : Nets 0 p p (fsopSync f) := by
  cases f with
  | sfs => exact nets_sfsSync
  | emufs sc => exact nets_pure
  | other => exact nets_call_last

/-- `FSOP_GETVOLNAME`. -/
def fsopGetvolname : Fs → Lk Unit
  | .sfs => sfsGetvolname
  | .emufs _ => return ()
  | .other => return ()

theorem nets_fsopGetvolname {p : Held} (f : Fs) : Nets 0 p p (fsopGetvolname f) := by
  cases f with
  | sfs => exact nets_sfsGetvolname
  | emufs sc => exact nets_pure
  | other => exact nets_pure

/-- `FSOP_GETROOT`. -/
def fsopGetroot : Fs → Lk (Except Errno Vnode)
  | .sfs => sfsGetroot
  | .emufs sc => return .ok (.emufs sc true)
  | .other => otherOp .otherGetroot

theorem nets_fsopGetroot {p : Held} (f : Fs) : Nets 0 p p (fsopGetroot f) := by
  cases f with
  | sfs => exact nets_sfsGetroot
  | emufs sc => exact nets_pure
  | other => exact nets_otherOp

/-- `FSOP_UNMOUNT`. -/
def fsopUnmount : Fs → Lk (Option Errno)
  | .sfs => sfsUnmount
  | .emufs _ => return some .ebusy
  | .other => call .otherUnmount

theorem nets_fsopUnmount {p : Held} (f : Fs) : Nets 0 p p (fsopUnmount f) := by
  cases f with
  | sfs => exact nets_sfsUnmount
  | emufs sc => exact nets_pure
  | other => exact nets_call_last

/-! ### `vfslist.c` -/

variable {p : Held}

/-- `kd_fs` of a known device. -/
def kdFs : Lk KdFs := ask fun e => e.kdFs

/-- The number of known devices. -/
def knowndevs : Lk ℕ := ask fun e => e.length

/-- One round of the loop of `vfs_sync`. -/
def syncRound : Lk Unit := do
  match ← kdFs with
  | .fs f =>
      let _ ← fsopSync f
  | _ => return ()

theorem nets_syncRound : Nets 0 p p syncRound := by
  refine nets_ask fun fs => ?_
  cases fs with
  | fs f => exact nets_seq (nets_fsopSync f) fun _ => nets_pure
  | null => exact nets_pure
  | swap => exact nets_pure

/-- `vfs_sync`. -/
def vfsSync : Lk (Option Errno) := do
  vfsBiglockAcquire
  let num ← knowndevs
  rounds num syncRound
  vfsBiglockRelease
  return none

theorem nets_vfsSync : Nets 0 p p vfsSync :=
  nets_acquire (nets_ask fun _ => nets_rounds nets_syncRound (nets_release nets_pure))

/-- One round of the loop of `vfs_getroot`, for one device. -/
def getrootRound : Lk (Option (Except Errno Vnode)) := do
  let fs ← kdFs
  match fs with
  | .fs f =>
      fsopGetvolname f
      if ← test .nameMatches then
        return some (← fsopGetroot f)
  | _ =>
      if ← test .nameMatches then
        return some (.error .enxio)
  if ← test .deviceName then
    assert .deviceSet
    return some (.ok .other)
  if ← test .rawnameMatches then
    assert .deviceSet
    return some (.ok .other)
  return none

theorem nets_getrootRound : Nets 0 p p getrootRound := by
  refine nets_ask fun fs => ?_
  have hdevice : Nets 0 p p (do
      if ← test .deviceName then
        assert .deviceSet
        return some (.ok .other)
      if ← test .rawnameMatches then
        assert .deviceSet
        return some (.ok .other)
      return (none : Option (Except Errno Vnode))) := by
    refine nets_test fun _ => nets_ite (nets_assert nets_pure) ?_
    exact nets_test fun _ => nets_ite (nets_assert nets_pure) nets_pure
  cases fs with
  | fs f =>
    refine nets_seq (nets_fsopGetvolname f) fun _ => nets_test fun _ => nets_ite ?_ hdevice
    exact nets_seq (nets_fsopGetroot f) fun _ => nets_pure
  | null => exact nets_test fun _ => nets_ite nets_pure hdevice
  | swap => exact nets_test fun _ => nets_ite nets_pure hdevice

/-- `vfs_getroot`. -/
def vfsGetroot : Lk (Except Errno Vnode) := do
  assertBiglock
  let num ← knowndevs
  match ← search num getrootRound with
  | some r => return r
  | none => return .error .enodev

theorem nets_vfsGetroot : Nets 0 p p vfsGetroot := by
  refine nets_assertBiglock (nets_ask fun _ => nets_search nets_getrootRound fun r => ?_)
  cases r with
  | some r => exact nets_pure
  | none => exact nets_pure

/-- One round of the loop of `badnames`. -/
def badnamesRound : Lk (Option Unit) := do
  if let .fs f := ← kdFs then
    fsopGetvolname f
    if ← test .nameMatches then
      return some ()
  if ← test .rawnameMatches then
    return some ()
  return none

theorem nets_badnamesRound : Nets 0 p p badnamesRound := by
  refine nets_ask fun fs => ?_
  cases fs with
  | fs f =>
    refine nets_seq (nets_fsopGetvolname f) fun _ => nets_test fun _ => nets_ite nets_pure ?_
    exact nets_test fun _ => nets_ite nets_pure nets_pure
  | null => exact nets_test fun _ => nets_ite nets_pure nets_pure
  | swap => exact nets_test fun _ => nets_ite nets_pure nets_pure

/-- `badnames`. -/
def badnames : Lk Bool := do
  assertBiglock
  let num ← knowndevs
  let found ← search num badnamesRound
  return found.isSome

theorem nets_badnames : Nets 0 p p badnames :=
  nets_assertBiglock (nets_ask fun _ => nets_search nets_badnamesRound fun _ => nets_pure)

/-- The label `fail` of `vfs_doadd`; `vnode` once there is one. -/
def vfsDoaddFail (vnode : Bool) (result : Errno) : Lk (Option Errno) := do
  if vnode then
    exec .devUncreateVnode
  vfsBiglockRelease
  return some result

theorem nets_vfsDoaddFail {k : ℕ} {m : Option ℕ} {vnode : Bool} {result : Errno} :
    Nets 0 ⟨k + 1, m⟩ ⟨k, m⟩ (vfsDoaddFail vnode result) :=
  nets_ite (nets_exec (nets_release nets_pure)) (nets_release nets_pure)

/-- `vfs_doadd`. The first allocation is `kstrdup`'s, the others are `mkrawname`'s,
`dev_create_vnode`'s and the one of the `struct knowndev`. -/
def vfsDoadd (mountable : Bool) (fs : Option Fs) : Lk (Option Errno) := do
  vfsBiglockAcquire
  if ← test .noMemory then
    return ← vfsDoaddFail false .enomem
  if mountable then
    if ← test .noMemory then
      return ← vfsDoaddFail false .enomem
  if ← test .noMemory then
    return ← vfsDoaddFail false .enomem
  if ← test .noMemory then
    return ← vfsDoaddFail true .enomem
  if let some f := fs then
    fsopGetvolname f
  if ← badnames then
    return ← vfsDoaddFail true .eexist
  if let some e := ← call .knowndevarrayAdd then
    return ← vfsDoaddFail true e
  vfsBiglockRelease
  return none

theorem nets_vfsDoadd {mountable : Bool} {fs : Option Fs} :
    Nets 0 p p (vfsDoadd mountable fs) := by
  -- what follows the volume name
  have hadd : Nets 0 ⟨p.depth + 1, p.eLock⟩ p (do
      if ← badnames then
        return ← vfsDoaddFail true .eexist
      if let some e := ← call .knowndevarrayAdd then
        return ← vfsDoaddFail true e
      vfsBiglockRelease
      return none) := by
    refine nets_seq nets_badnames fun _ => nets_ite nets_vfsDoaddFail (nets_call fun r => ?_)
    cases r with
    | some e => exact nets_vfsDoaddFail
    | none => exact nets_release nets_pure
  refine nets_acquire (nets_test fun _ => nets_ite nets_vfsDoaddFail ?_)
  refine nets_ite (nets_test fun _ => nets_ite nets_vfsDoaddFail ?_) ?_
  all_goals
    refine nets_test fun _ => nets_ite nets_vfsDoaddFail ?_
    refine nets_test fun _ => nets_ite nets_vfsDoaddFail ?_
    cases fs with
    | some f => exact nets_seq (nets_fsopGetvolname f) fun _ => hadd
    | none => exact hadd

/-- One round of the loop of `findmount`. -/
def findmountRound : Lk (Option KdFs) := do
  if ← test .rawnameNull then
    return none
  if ← test .nameMatches then
    return some (← kdFs)
  return none

theorem nets_findmountRound : Nets 0 p p findmountRound := by
  refine nets_test fun _ => nets_ite nets_pure (nets_test fun _ => nets_ite ?_ nets_pure)
  exact nets_ask fun _ => nets_pure

/-- `findmount`: the `kd_fs` of the device. -/
def findmount : Lk (Except Errno KdFs) := do
  assertBiglock
  let num ← knowndevs
  match ← search num findmountRound with
  | some fs => return .ok fs
  | none => return .error .enodev

theorem nets_findmount : Nets 0 p p findmount := by
  refine nets_assertBiglock (nets_ask fun _ => nets_search nets_findmountRound fun r => ?_)
  cases r with
  | some fs => exact nets_pure
  | none => exact nets_pure

/-- `vfs_mount`. -/
def vfsMount (mountfunc : Lk (Except Errno Fs)) : Lk (Option Errno) := do
  vfsBiglockAcquire
  match ← findmount with
  | .error e =>
      vfsBiglockRelease
      return some e
  | .ok .null =>
      assert .deviceSet
      match ← mountfunc with
      | .error e =>
          vfsBiglockRelease
          return some e
      | .ok fs =>
          fsopGetvolname fs
          vfsBiglockRelease
          return none
  | .ok _ =>
      vfsBiglockRelease
      return some .ebusy

/-- `vfs_mount` gives back what it takes if the mount routine does. -/
theorem nets_vfsMount {mountfunc : Lk (Except Errno Fs)} (hmount : ∀ p, Nets 0 p p mountfunc) :
    Nets 0 p p (vfsMount mountfunc) := by
  refine nets_acquire (nets_seq nets_findmount fun r => ?_)
  match r with
  | .error e => exact nets_release nets_pure
  | .ok .null =>
    refine nets_assert (nets_seq (hmount _) fun r => ?_)
    cases r with
    | error e => exact nets_release nets_pure
    | ok fs => exact nets_seq (nets_fsopGetvolname fs) fun _ => nets_release nets_pure
  | .ok .swap => exact nets_release nets_pure
  | .ok (.fs f) => exact nets_release nets_pure

/-- The mount routine of a file system other than SFS. -/
def otherMount : Lk (Except Errno Fs) := do
  match ← call .otherMount with
  | some e => return .error e
  | none => return .ok .other

theorem nets_otherMount : Nets 0 p p otherMount := by
  refine nets_call fun r => ?_
  cases r with
  | some e => exact nets_pure
  | none => exact nets_pure

/-- `vfs_swapon`. The allocation is `kstrdup`'s, for a name with a colon at its end. -/
def vfsSwapon : Lk (Except Errno Vnode) := do
  if ← test .colonAtEnd then
    if ← test .noMemory then
      return .error .enomem
  vfsBiglockAcquire
  match ← findmount with
  | .error e =>
      vfsBiglockRelease
      return .error e
  | .ok .null =>
      assert .deviceSet
      vfsBiglockRelease
      return .ok .other
  | .ok _ =>
      vfsBiglockRelease
      return .error .ebusy

theorem nets_vfsSwapon : Nets 0 p p vfsSwapon := by
  have hattach : Nets 0 p p (do
      vfsBiglockAcquire
      match ← findmount with
      | .error e =>
          vfsBiglockRelease
          return .error e
      | .ok .null =>
          assert .deviceSet
          vfsBiglockRelease
          return .ok .other
      | .ok _ =>
          vfsBiglockRelease
          return (.error .ebusy : Except Errno Vnode)) := by
    refine nets_acquire (nets_seq nets_findmount fun r => ?_)
    match r with
    | .error e => exact nets_release nets_pure
    | .ok .null => exact nets_assert (nets_release nets_pure)
    | .ok .swap => exact nets_release nets_pure
    | .ok (.fs f) => exact nets_release nets_pure
  refine nets_test fun _ => nets_ite ?_ hattach
  exact nets_test fun _ => nets_ite nets_pure hattach

/-- `vfs_unmount`. -/
def vfsUnmount : Lk (Option Errno) := do
  vfsBiglockAcquire
  match ← findmount with
  | .error e =>
      vfsBiglockRelease
      return some e
  | .ok (.fs f) =>
      assert .deviceSet
      let result ← fsopSync f
      if result ≠ none then
        vfsBiglockRelease
        return result
      let result ← fsopUnmount f
      if result ≠ none then
        vfsBiglockRelease
        return result
      vfsBiglockRelease
      return none
  | .ok _ =>
      vfsBiglockRelease
      return some .einval

theorem nets_vfsUnmount : Nets 0 p p vfsUnmount := by
  refine nets_acquire (nets_seq nets_findmount fun r => ?_)
  match r with
  | .error e => exact nets_release nets_pure
  | .ok (.fs f) =>
    refine nets_assert (nets_seq (nets_fsopSync f) fun _ => nets_ite (nets_release nets_pure) ?_)
    refine nets_seq (nets_fsopUnmount f) fun _ => nets_ite (nets_release nets_pure) ?_
    exact nets_release nets_pure
  | .ok .null => exact nets_release nets_pure
  | .ok .swap => exact nets_release nets_pure

/-- `vfs_swapoff`. -/
def vfsSwapoff : Lk (Option Errno) := do
  vfsBiglockAcquire
  match ← findmount with
  | .error e =>
      vfsBiglockRelease
      return some e
  | .ok .swap =>
      vfsBiglockRelease
      return none
  | .ok _ =>
      vfsBiglockRelease
      return some .einval

theorem nets_vfsSwapoff : Nets 0 p p vfsSwapoff := by
  refine nets_acquire (nets_seq nets_findmount fun r => ?_)
  match r with
  | .error e => exact nets_release nets_pure
  | .ok .swap => exact nets_release nets_pure
  | .ok .null => exact nets_release nets_pure
  | .ok (.fs f) => exact nets_release nets_pure

/-- One round of the loop of `vfs_unmountall`. -/
def unmountallRound : Lk Unit := do
  if ← test .rawnameNull then
    return ()
  if let .fs f := ← kdFs then
    let result ← fsopSync f
    if result ≠ none then
      let result ← fsopSync f
      if result ≠ none then
        return ()
    let _ ← fsopUnmount f

theorem nets_unmountallRound : Nets 0 p p unmountallRound := by
  refine nets_test fun _ => nets_ite nets_pure (nets_ask fun fs => ?_)
  cases fs with
  | fs f =>
    have hunmount : Nets 0 p p (do let _ ← fsopUnmount f) :=
      nets_seq (nets_fsopUnmount f) fun _ => nets_pure
    refine nets_seq (nets_fsopSync f) fun _ => nets_ite ?_ hunmount
    exact nets_seq (nets_fsopSync f) fun _ => nets_ite nets_pure hunmount
  | null => exact nets_pure
  | swap => exact nets_pure

/-- `vfs_unmountall`. -/
def vfsUnmountall : Lk (Option Errno) := do
  vfsBiglockAcquire
  let num ← knowndevs
  rounds num unmountallRound
  vfsBiglockRelease
  return none

theorem nets_vfsUnmountall : Nets 0 p p vfsUnmountall :=
  nets_acquire (nets_ask fun _ => nets_rounds nets_unmountallRound (nets_release nets_pure))

/-! ### `vfscwd.c` and `vfslookup.c` -/

/-- `vfs_getcurdir`. -/
def vfsGetcurdir : Lk (Except Errno Vnode) := do
  match ← ask fun e => e.vnode with
  | some cwd => return .ok cwd
  | none => return .error .enoent

theorem nets_vfsGetcurdir : Nets 0 p p vfsGetcurdir := by
  refine nets_ask fun v => ?_
  cases v with
  | some cwd => exact nets_pure
  | none => exact nets_pure

/-- `VOP_DECREF` of a pointer that may be `NULL`. -/
def decrefIfSet : Option Vnode → Lk Unit
  | some old => vopDecref old
  | none => return ()

theorem nets_decrefIfSet {l : ℕ} {q : Held} {β : Type} {v : Option Vnode} {f : Unit → Lk β}
    (hf : Nets l ⟨k, none⟩ q (f ())) : Nets l ⟨k, none⟩ q (decrefIfSet v >>= f) := by
  cases v with
  | some old => exact nets_vopDecref hf
  | none => exact hf

/-- `vfs_setcurdir`. -/
def vfsSetcurdir (dir : Vnode) : Lk (Option Errno) := do
  match ← vopGettype dir with
  | .error e => return some e
  | .ok false => return some .enotdir
  | .ok true =>
      let old ← ask fun e => e.vnode
      decrefIfSet old
      return none

theorem nets_vfsSetcurdir (dir : Vnode) : Nets 0 ⟨k, none⟩ ⟨k, none⟩ (vfsSetcurdir dir) := by
  refine nets_seq (nets_vopGettype dir) fun r => ?_
  match r with
  | .error e => exact nets_pure
  | .ok false => exact nets_pure
  | .ok true => exact nets_ask fun _ => nets_decrefIfSet nets_pure

/-- `vn_fs`. -/
def Vnode.fs : Vnode → Fs
  | .sfs _ => .sfs
  | .emufs sc _ => .emufs sc
  | .other => .other

/-- `getdevice`. -/
def getdevice : Lk (Except Errno Vnode) := do
  assertBiglock
  if ← test .emptyPath then
    return .error .einval
  if ← test .relativePath then
    return ← vfsGetcurdir
  if ← test .colonAfterName then
    return ← vfsGetroot
  if ← test .leadingSlash then
    match ← ask fun e => e.vnode with
    | some bootfs => return .ok bootfs
    | none => return .error .enoent
  else
    match ← vfsGetcurdir with
    | .error e => return .error e
    | .ok vn =>
        assert .fsSet
        let root ← fsopGetroot vn.fs
        vopDecref vn
        return root

theorem nets_getdevice : Nets 0 ⟨k, none⟩ ⟨k, none⟩ getdevice := by
  refine nets_assertBiglock (nets_test fun _ => nets_ite nets_pure ?_)
  refine nets_test fun _ => nets_ite nets_vfsGetcurdir ?_
  refine nets_test fun _ => nets_ite nets_vfsGetroot (nets_test fun _ => nets_ite ?_ ?_)
  · -- from the boot file system
    refine nets_ask fun v => ?_
    cases v with
    | some bootfs => exact nets_pure
    | none => exact nets_pure
  · -- from the file system of the current directory
    refine nets_seq nets_vfsGetcurdir fun r => ?_
    cases r with
    | error e => exact nets_pure
    | ok vn => exact nets_assert (nets_seq (nets_fsopGetroot _) fun _ => nets_vopDecref nets_pure)

/-- `vfs_lookparent`. -/
def vfsLookparent : Lk (Except Errno Vnode) := do
  vfsBiglockAcquire
  match ← getdevice with
  | .error e =>
      vfsBiglockRelease
      return .error e
  | .ok startvn =>
      if ← test .emptyPath then
        vopDecref startvn
        vfsBiglockRelease
        return .error .einval
      let result ← vopLookparent startvn
      vopDecref startvn
      vfsBiglockRelease
      return result

theorem nets_vfsLookparent : Nets 1 ⟨k, none⟩ ⟨k, none⟩ vfsLookparent := by
  refine nets_acquire (nets_seq nets_getdevice fun r => ?_)
  cases r with
  | error e => exact nets_release nets_pure
  | ok startvn =>
    refine nets_test fun _ => nets_ite (nets_vopDecref (nets_release nets_pure)) ?_
    refine nets_seq_load (nets_vopLookparent startvn) fun _ => ?_
    exact nets_vopDecref (nets_release nets_pure)

/-- `vfs_lookup`. -/
def vfsLookup : Lk (Except Errno Vnode) := do
  vfsBiglockAcquire
  match ← getdevice with
  | .error e =>
      vfsBiglockRelease
      return .error e
  | .ok startvn =>
      if ← test .emptyPath then
        vfsBiglockRelease
        return .ok startvn
      let result ← vopLookup startvn
      vopDecref startvn
      vfsBiglockRelease
      return result

theorem nets_vfsLookup : Nets 1 ⟨k, none⟩ ⟨k, none⟩ vfsLookup := by
  refine nets_acquire (nets_seq nets_getdevice fun r => ?_)
  cases r with
  | error e => exact nets_release nets_pure
  | ok startvn =>
    refine nets_test fun _ => nets_ite (nets_release nets_pure) ?_
    refine nets_seq_load (nets_vopLookup startvn) fun _ => ?_
    exact nets_vopDecref (nets_release nets_pure)

/-- `vfs_chdir`. -/
def vfsChdir : Lk (Option Errno) := do
  match ← vfsLookup with
  | .error e => return some e
  | .ok vn =>
      let result ← vfsSetcurdir vn
      vopDecref vn
      return result

theorem nets_vfsChdir : Nets 1 ⟨k, none⟩ ⟨k, none⟩ vfsChdir := by
  refine nets_seq_load nets_vfsLookup fun r => ?_
  cases r with
  | error e => exact nets_pure
  | ok vn => exact nets_seq (nets_vfsSetcurdir vn) fun _ => nets_vopDecref nets_pure

/-- `change_bootfs`. -/
def changeBootfs : Lk Unit := do
  let oldvn ← ask fun e => e.vnode
  decrefIfSet oldvn
  return ()

theorem nets_changeBootfs : Nets 0 ⟨k, none⟩ ⟨k, none⟩ changeBootfs :=
  nets_ask fun _ => nets_decrefIfSet nets_pure

/-- `vfs_setbootfs`. A colon in the name is refused: what `strchr` finds begins with it, so it is
never empty. -/
def vfsSetbootfs : Lk (Option Errno) := do
  vfsBiglockAcquire
  if ← test .colon then
    vfsBiglockRelease
    return some .einval
  if let some e := ← vfsChdir then
    vfsBiglockRelease
    return some e
  match ← vfsGetcurdir with
  | .error e =>
      vfsBiglockRelease
      return some e
  | .ok _ =>
      changeBootfs
      vfsBiglockRelease
      return none

theorem nets_vfsSetbootfs : Nets 1 ⟨k, none⟩ ⟨k, none⟩ vfsSetbootfs := by
  refine nets_acquire (nets_test fun _ => nets_ite (nets_release nets_pure) ?_)
  refine nets_seq_load nets_vfsChdir fun r => ?_
  cases r with
  | some e => exact nets_release nets_pure
  | none =>
    refine nets_seq nets_vfsGetcurdir fun r => ?_
    cases r with
    | error e => exact nets_release nets_pure
    | ok newguy => exact nets_seq nets_changeBootfs fun _ => nets_release nets_pure

/-- `vfs_clearbootfs`. -/
def vfsClearbootfs : Lk Unit := do
  vfsBiglockAcquire
  changeBootfs
  vfsBiglockRelease
  return ()

theorem nets_vfsClearbootfs : Nets 0 ⟨k, none⟩ ⟨k, none⟩ vfsClearbootfs :=
  nets_acquire (nets_seq nets_changeBootfs fun _ => nets_release nets_pure)

/-! ### The entry points -/

/-- `emufs_addtovfs` (`kern/dev/lamebus/emu.c`). -/
def emufsAddtovfs (sc : ℕ) : Lk (Option Errno) := do
  if ← test .noMemory then
    return some .enomem
  -- `vnodearray_create`
  if ← test .noMemory then
    return some .enomem
  match ← emufsLoadvnode sc true with
  | .error e => return some e
  | .ok root =>
      let result ← vfsDoadd false (some (.emufs sc))
      if result ≠ none then
        vopDecref root
      return result

theorem nets_emufsAddtovfs {sc : ℕ} : Nets 1 ⟨k, none⟩ ⟨k, none⟩ (emufsAddtovfs sc) := by
  refine nets_test fun _ => nets_ite nets_pure (nets_test fun _ => nets_ite nets_pure ?_)
  refine nets_seq_load nets_emufsLoadvnode fun r => ?_
  cases r with
  | error e => exact nets_pure
  | ok root =>
    exact nets_seq nets_vfsDoadd fun _ => nets_ite (nets_vopDecref nets_pure) nets_pure

/-- The entry points. -/
inductive Entry where
  | vfsSync | vfsDoadd (mountable : Bool) (fs : Option Fs) | sfsMount | otherMount | vfsUnmount
  | vfsUnmountall | vfsSwapon | vfsSwapoff | vfsSetbootfs | vfsClearbootfs | vfsLookup
  | vfsLookparent | vfsSetcurdir (dir : Vnode) | vfsChdir
  | sfsEachopen | sfsEachopendir | sfsRead | sfsWrite | sfsIoctl | sfsStat | sfsGettype
  | sfsIsseekable | sfsFsync | sfsMmap | sfsTruncate | sfsNamefile | sfsCreat (excl : Bool)
  | sfsLink | sfsRemove | sfsRename | sfsLookparent | sfsLookup | sfsReclaim
  | sfsSync | sfsGetvolname | sfsGetroot | sfsUnmount | sfsDomount
  | emufsCreat (sc : ℕ) | emufsLookup (sc : ℕ) | emufsLookparent (sc : ℕ)
  | emufsLoadvnode (sc : ℕ) (isdir : Bool) | emufsReclaim (sc : ℕ) | emufsAddtovfs (sc : ℕ)

/-- A call made for its effect on the locks. -/
def void {α : Type} (x : Lk α) : Lk Unit := do
  let _ ← x

/-- The call. -/
def Entry.call : Entry → Lk Unit
  | vfsSync => void Balance.vfsSync
  | vfsDoadd mountable fs => void (Balance.vfsDoadd mountable fs)
  | sfsMount => void (vfsMount Balance.sfsDomount)
  | otherMount => void (vfsMount Balance.otherMount)
  | vfsUnmount => void Balance.vfsUnmount
  | vfsUnmountall => void Balance.vfsUnmountall
  | vfsSwapon => void Balance.vfsSwapon
  | vfsSwapoff => void Balance.vfsSwapoff
  | vfsSetbootfs => void Balance.vfsSetbootfs
  | vfsClearbootfs => void Balance.vfsClearbootfs
  | vfsLookup => void Balance.vfsLookup
  | vfsLookparent => void Balance.vfsLookparent
  | vfsSetcurdir dir => void (Balance.vfsSetcurdir dir)
  | vfsChdir => void Balance.vfsChdir
  | sfsEachopen => void Balance.sfsEachopen
  | sfsEachopendir => void Balance.sfsEachopendir
  | sfsRead => void Balance.sfsRead
  | sfsWrite => void Balance.sfsWrite
  | sfsIoctl => void Balance.sfsIoctl
  | sfsStat => void Balance.sfsStat
  | sfsGettype => void Balance.sfsGettype
  | sfsIsseekable => void Balance.sfsIsseekable
  | sfsFsync => void Balance.sfsFsync
  | sfsMmap => void Balance.sfsMmap
  | sfsTruncate => void Balance.sfsTruncate
  | sfsNamefile => void Balance.sfsNamefile
  | sfsCreat excl => void (Balance.sfsCreat excl)
  | sfsLink => void Balance.sfsLink
  | sfsRemove => void Balance.sfsRemove
  | sfsRename => void Balance.sfsRename
  | sfsLookparent => void Balance.sfsLookparent
  | sfsLookup => void Balance.sfsLookup
  | sfsReclaim => void Balance.sfsReclaim
  | sfsSync => void Balance.sfsSync
  | sfsGetvolname => void Balance.sfsGetvolname
  | sfsGetroot => void Balance.sfsGetroot
  | sfsUnmount => void Balance.sfsUnmount
  | sfsDomount => void Balance.sfsDomount
  | emufsCreat sc => void (Balance.emufsCreat sc)
  | emufsLookup sc => void (Balance.emufsLookup sc)
  | emufsLookparent sc => void (Balance.emufsLookparent sc)
  | emufsLoadvnode sc isdir => void (Balance.emufsLoadvnode sc isdir)
  | emufsReclaim sc => void (Balance.emufsReclaim sc)
  | emufsAddtovfs sc => void (Balance.emufsAddtovfs sc)

theorem nets_void {l : ℕ} {q : Held} {α : Type} {x : Lk α} (hx : Nets l p q x) :
    Nets l p q (void x) :=
  nets_seq_load hx fun _ => nets_pure

/-- **Every entry point** gives back what it takes, the acquire of a failed `kmalloc` apart. -/
theorem Entry.nets (e : Entry) : Nets 1 .nothing .nothing e.call := by
  have quiet {α : Type} {x : Lk α} (hx : Nets 0 .nothing .nothing x) :
      Nets 1 .nothing .nothing (void x) :=
    nets_void (hx.mono (Nat.zero_le 1))
  cases e with
  | vfsSync => exact quiet nets_vfsSync
  | vfsDoadd mountable fs => exact quiet nets_vfsDoadd
  | sfsMount => exact quiet (nets_vfsMount fun _ => nets_sfsDomount)
  | otherMount => exact quiet (nets_vfsMount fun _ => nets_otherMount)
  | vfsUnmount => exact quiet nets_vfsUnmount
  | vfsUnmountall => exact quiet nets_vfsUnmountall
  | vfsSwapon => exact quiet nets_vfsSwapon
  | vfsSwapoff => exact quiet nets_vfsSwapoff
  | vfsSetbootfs => exact nets_void nets_vfsSetbootfs
  | vfsClearbootfs => exact quiet nets_vfsClearbootfs
  | vfsLookup => exact nets_void nets_vfsLookup
  | vfsLookparent => exact nets_void nets_vfsLookparent
  | vfsSetcurdir dir => exact quiet (nets_vfsSetcurdir dir)
  | vfsChdir => exact nets_void nets_vfsChdir
  | sfsEachopen => exact quiet nets_pure
  | sfsEachopendir => exact quiet nets_sfsEachopendir
  | sfsRead => exact quiet nets_sfsReadWrite
  | sfsWrite => exact quiet nets_sfsReadWrite
  | sfsIoctl => exact quiet nets_pure
  | sfsStat => exact quiet nets_sfsStat
  | sfsGettype => exact quiet nets_sfsGettype
  | sfsIsseekable => exact quiet nets_pure
  | sfsFsync => exact quiet nets_sfsFsync
  | sfsMmap => exact quiet nets_pure
  | sfsTruncate => exact quiet nets_sfsItrunc
  | sfsNamefile => exact quiet (nets_assert nets_pure)
  | sfsCreat excl => exact quiet nets_sfsCreat
  | sfsLink => exact quiet nets_sfsLink
  | sfsRemove => exact quiet nets_sfsRemove
  | sfsRename => exact quiet nets_sfsRename
  | sfsLookparent => exact quiet nets_sfsLookparent
  | sfsLookup => exact quiet nets_sfsLookup
  | sfsReclaim => exact quiet nets_sfsReclaim
  | sfsSync => exact quiet nets_sfsSync
  | sfsGetvolname => exact quiet nets_sfsGetvolname
  | sfsGetroot => exact quiet nets_sfsGetroot
  | sfsUnmount => exact quiet nets_sfsUnmount
  | sfsDomount => exact quiet nets_sfsDomount
  | emufsCreat sc => exact nets_void nets_emufsOpen
  | emufsLookup sc => exact nets_void nets_emufsOpen
  | emufsLookparent sc => exact nets_void nets_emufsLookparent
  | emufsLoadvnode sc isdir => exact nets_void nets_emufsLoadvnode
  | emufsReclaim sc => exact quiet nets_emufsReclaim
  | emufsAddtovfs sc => exact nets_void nets_emufsAddtovfs

/-- The locks are as they were: the depth, and every `e_lock`. A caller of emufs comes without the
`e_lock` of the device, so it leaves without it. -/
def SameLocks (s t : State) : Prop := t.depth = s.depth ∧ t.eLock = s.eLock

/-- No `kmalloc` that `emufs_loadvnode` made between two states failed. -/
def NoFailedLoad (s t : State) : Prop :=
  ∀ n, s.loads ≤ n → n < t.loads → s.env.evKmalloc n = true

/-- An environment in which every call succeeds and every condition is false; there is memory for a
`struct emufs_vnode` if `memory`. -/
def plainEnv (memory : Bool) : Env where
  result _ _ := some none
  test _ _ := false
  length _ := 0
  type _ := none
  vnode _ := none
  kdFs _ := .null
  evKmalloc _ := memory

/-- A thread that has no lock. -/
def free (memory : Bool) : State where
  depth := 0
  held := false
  eLock _ := false
  asked := 0
  loads := 0
  env := plainEnv memory

/-- **Biglock balance.** Whatever the environment answers and whatever the depth on entry, an entry
point that returns leaves the locks as they were exactly when no `kmalloc` of `emufs_loadvnode`
failed on the way. -/
theorem biglock_balance {e : Entry} {s t : State} (h : e.call.run s = .done () t) :
    SameLocks s t ↔ NoFailedLoad s t := by
  obtain ⟨-, heLock, -⟩ := e.nets.at_end h
  rw [NoFailedLoad, ← e.nets.depth_eq_iff h, SameLocks, and_iff_left heLock]

/-- A lookup in emufs that finds memory. -/
theorem biglock_balance_lookup : ∃ t, (Entry.emufsLookup 0).call.run (free true) = .done () t ∧
    SameLocks (free true) t :=
  ⟨_, rfl, (biglock_balance (e := .emufsLookup 0) rfl).mpr fun _ _ _ => rfl⟩

/-- **A lookup that finds none** keeps `vfs_biglock`. -/
theorem biglock_kept : ¬∀ (e : Entry) (s t : State), e.call.run s = .done () t → SameLocks s t := by
  intro hall
  have hdepth : (1 : UInt32) = 0 := (hall (.emufsLookup 0) (free false) _ rfl).1
  exact absurd hdepth (by decide)

end Balance

end Os161
