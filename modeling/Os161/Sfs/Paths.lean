import Os161.Vfs.Held

/-!
# The paths of SFS through its locks

The functions of `kern/fs/sfs` that take `vfs_biglock`, path by path, with all they do to the lock
written out. What they call below (`sfs_io`, the directory routines, the block allocator) takes no
lock and is answered by the environment; so is what they find in their data. Text put out by
`kprintf`, and calls that return nothing and stop nothing, are left out.

Each function is followed by the lemma that it gives back what it takes.
-/

namespace Os161

namespace Balance

variable {p : Held}

/-! ### `sfs_bmap.c` and `sfs_inode.c` -/

/-- `sfs_itrunc`. -/
def sfsItrunc : Lk (Option Errno) := do
  vfsBiglockAcquire
  rounds 15 do
    if ← test .directPast then
      exec .sfsBfree
  if ← test .indirectPast then
    let result ← call .sfsReadblock
    if result ≠ none then
      vfsBiglockRelease
      return result
    rounds 128 do
      if ← test .entryPast then
        exec .sfsBfree
    if !(← test .hasnonzero) then
      exec .sfsBfree
    else if ← test .iddirty then
      let result ← call .sfsWriteblock
      if result ≠ none then
        vfsBiglockRelease
        return result
  vfsBiglockRelease
  return none

theorem nets_freeIf {c : Test} : Nets 0 p p (do if ← test c then exec .sfsBfree) :=
  nets_test fun _ => nets_ite nets_exec_last nets_pure

theorem nets_sfsItrunc : Nets 0 p p sfsItrunc := by
  refine nets_acquire (nets_rounds nets_freeIf ?_)
  refine nets_test fun _ => nets_ite ?_ (nets_release nets_pure)
  refine nets_call fun _ => nets_ite (nets_release nets_pure) ?_
  refine nets_rounds nets_freeIf (nets_test fun _ => nets_ite ?_ ?_)
  · exact nets_exec (nets_release nets_pure)
  · refine nets_test fun _ => nets_ite ?_ (nets_release nets_pure)
    exact nets_call fun _ => nets_ite (nets_release nets_pure) (nets_release nets_pure)

/-- `sfs_reclaim`. -/
def sfsReclaim : Lk (Option Errno) := do
  vfsBiglockAcquire
  if !(← test .refcountIsOne) then
    assert .refcountAboveOne
    vfsBiglockRelease
    return some .ebusy
  let unlinked ← test .linkcountZero
  if unlinked then
    let result ← sfsItrunc
    if result ≠ none then
      vfsBiglockRelease
      return result
  let result ← call .sfsSyncInode
  if result ≠ none then
    vfsBiglockRelease
    return result
  if unlinked then
    exec .sfsBfree
  if !(← test .inPool) then
    Prog.halt .panic
  exec .vnodearrayRemove
  exec .vnodeCleanup
  vfsBiglockRelease
  return none

theorem nets_sfsReclaim : Nets 0 p p sfsReclaim := by
  refine nets_acquire (nets_test fun _ => nets_ite ?_ (nets_test fun unlinked => ?_))
  · exact nets_assert (nets_release nets_pure)
  -- with the truncation and without it, the rest is the same
  refine nets_ite (nets_seq nets_sfsItrunc fun _ => nets_ite (nets_release nets_pure) ?_) ?_
  all_goals
    refine nets_call fun _ => nets_ite (nets_release nets_pure) (nets_ite (nets_exec ?_) ?_)
    all_goals
      refine nets_test fun _ => nets_ite nets_panic ?_
      exact nets_exec (nets_exec (nets_release nets_pure))

/-- `sfs_getroot`. -/
def sfsGetroot : Lk (Except Errno Vnode) := do
  vfsBiglockAcquire
  match ← load .sfsLoadvnode with
  | .error e =>
      vfsBiglockRelease
      return .error e
  | .ok sv =>
      if !(← test .isDir) then
        vfsBiglockRelease
        return .error .einval
      vfsBiglockRelease
      return .ok sv

theorem nets_sfsGetroot : Nets 0 p p sfsGetroot := by
  refine nets_acquire (nets_load fun r => ?_)
  cases r with
  | error e => exact nets_release nets_pure
  | ok sv => exact nets_test fun _ => nets_ite (nets_release nets_pure) (nets_release nets_pure)

/-! ### `sfs_fsops.c` -/

/-- `sfs_fsync`. -/
def sfsFsync : Lk (Option Errno) := do
  vfsBiglockAcquire
  let result ← call .sfsSyncInode
  vfsBiglockRelease
  return result

theorem nets_sfsFsync : Nets 0 p p sfsFsync :=
  nets_acquire (nets_call fun _ => nets_release nets_pure)

/-- `sfs_sync_vnodes`. The vnodes are SFS's own. -/
def sfsSyncVnodes : Lk (Option Errno) := do
  let num ← ask fun e => e.length
  rounds num do
    let _ ← sfsFsync
  return none

theorem nets_sfsSyncVnodes : Nets 0 p p sfsSyncVnodes :=
  nets_ask fun _ => nets_rounds (nets_seq nets_sfsFsync fun _ => nets_pure) nets_pure

/-- `sfs_sync_freemap`. -/
def sfsSyncFreemap : Lk (Option Errno) := do
  if ← test .freemapDirty then
    let result ← call .sfsFreemapio
    if result ≠ none then
      return result
  return none

theorem nets_sfsSyncFreemap : Nets 0 p p sfsSyncFreemap :=
  nets_test fun _ => nets_ite (nets_call fun _ => nets_ite nets_pure nets_pure) nets_pure

/-- `sfs_sync_superblock`. -/
def sfsSyncSuperblock : Lk (Option Errno) := do
  if ← test .superDirty then
    let result ← call .sfsWriteblock
    if result ≠ none then
      return result
  return none

theorem nets_sfsSyncSuperblock : Nets 0 p p sfsSyncSuperblock :=
  nets_test fun _ => nets_ite (nets_call fun _ => nets_ite nets_pure nets_pure) nets_pure

/-- `sfs_sync`. -/
def sfsSync : Lk (Option Errno) := do
  vfsBiglockAcquire
  let result ← sfsSyncVnodes
  if result ≠ none then
    vfsBiglockRelease
    return result
  let result ← sfsSyncFreemap
  if result ≠ none then
    vfsBiglockRelease
    return result
  let result ← sfsSyncSuperblock
  if result ≠ none then
    vfsBiglockRelease
    return result
  vfsBiglockRelease
  return none

theorem nets_sfsSync : Nets 0 p p sfsSync := by
  refine nets_acquire (nets_seq nets_sfsSyncVnodes fun _ => nets_ite (nets_release nets_pure) ?_)
  refine nets_seq nets_sfsSyncFreemap fun _ => nets_ite (nets_release nets_pure) ?_
  refine nets_seq nets_sfsSyncSuperblock fun _ => nets_ite (nets_release nets_pure) ?_
  exact nets_release nets_pure

/-- `sfs_getvolname`. -/
def sfsGetvolname : Lk Unit := do
  vfsBiglockAcquire
  vfsBiglockRelease
  return ()

theorem nets_sfsGetvolname : Nets 0 p p sfsGetvolname := nets_acquire (nets_release nets_pure)

/-- `sfs_unmount`. -/
def sfsUnmount : Lk (Option Errno) := do
  vfsBiglockAcquire
  if !(← test .poolEmpty) then
    vfsBiglockRelease
    return some .ebusy
  assert .superClean
  assert .freemapClean
  exec .sfsFsDestroy
  vfsBiglockRelease
  return none

theorem nets_sfsUnmount : Nets 0 p p sfsUnmount := by
  refine nets_acquire (nets_test fun _ => nets_ite (nets_release nets_pure) ?_)
  exact nets_assert (nets_assert (nets_exec (nets_release nets_pure)))

/-- `sfs_domount`. -/
def sfsDomount : Lk (Except Errno Fs) := do
  vfsBiglockAcquire
  if ← test .wrongBlocksize then
    vfsBiglockRelease
    return .error .enxio
  -- `sfs_fs_create`
  if ← test .noMemory then
    vfsBiglockRelease
    return .error .enomem
  if let some e := ← call .sfsReadblock then
    exec .sfsFsDestroy
    vfsBiglockRelease
    return .error e
  if ← test .wrongMagic then
    exec .sfsFsDestroy
    vfsBiglockRelease
    return .error .einval
  -- `bitmap_create`
  if ← test .noMemory then
    exec .sfsFsDestroy
    vfsBiglockRelease
    return .error .enomem
  if let some e := ← call .sfsFreemapio then
    exec .sfsFsDestroy
    vfsBiglockRelease
    return .error e
  vfsBiglockRelease
  return .ok .sfs

theorem nets_sfsDomount : Nets 0 p p sfsDomount := by
  refine nets_acquire (nets_test fun _ => nets_ite (nets_release nets_pure) ?_)
  refine nets_test fun _ => nets_ite (nets_release nets_pure) (nets_call fun r => ?_)
  cases r with
  | some e => exact nets_exec (nets_release nets_pure)
  | none =>
    refine nets_test fun _ => nets_ite (nets_exec (nets_release nets_pure)) ?_
    refine nets_test fun _ => nets_ite (nets_exec (nets_release nets_pure)) ?_
    refine nets_call fun r => ?_
    cases r with
    | some e => exact nets_exec (nets_release nets_pure)
    | none => exact nets_release nets_pure

/-! ### `sfs_vnops.c` -/

/-- `sfs_eachopen`. -/
def sfsEachopen : Lk (Option Errno) := return none

/-- `sfs_eachopendir`. -/
def sfsEachopendir : Lk (Option Errno) := do
  if !(← test .readOnly) then
    return some .eisdir
  if ← test .append then
    return some .eisdir
  return none

theorem nets_sfsEachopendir : Nets 0 p p sfsEachopendir :=
  nets_test fun _ => nets_ite nets_pure (nets_test fun _ => nets_ite nets_pure nets_pure)

/-- `sfs_read` and `sfs_write`, which differ in what they assert about the uio. -/
def sfsReadWrite (rw : Test) : Lk (Option Errno) := do
  assert rw
  vfsBiglockAcquire
  let result ← call .sfsIo
  vfsBiglockRelease
  return result

theorem nets_sfsReadWrite {rw : Test} : Nets 0 p p (sfsReadWrite rw) :=
  nets_assert (nets_acquire (nets_call fun _ => nets_release nets_pure))

/-- `sfs_read`. -/
def sfsRead : Lk (Option Errno) := sfsReadWrite .uioRead

/-- `sfs_write`. -/
def sfsWrite : Lk (Option Errno) := sfsReadWrite .uioWrite

/-- `sfs_ioctl`. -/
def sfsIoctl : Lk (Option Errno) := return some .einval

/-- `sfs_gettype`: whether the type is a directory's. -/
def sfsGettype : Lk (Except Errno Bool) := do
  vfsBiglockAcquire
  match ← ask fun e => e.type with
  | some false =>
      vfsBiglockRelease
      return .ok false
  | some true =>
      vfsBiglockRelease
      return .ok true
  | none => Prog.halt .panic

theorem nets_sfsGettype : Nets 0 p p sfsGettype := by
  refine nets_acquire (nets_ask fun type => ?_)
  match type with
  | some false => exact nets_release nets_pure
  | some true => exact nets_release nets_pure
  | none => exact nets_halt

/-- `sfs_stat`. -/
def sfsStat : Lk (Option Errno) := do
  match ← sfsGettype with
  | .error e => return some e
  | .ok _ => return none

theorem nets_sfsStat : Nets 0 p p sfsStat := by
  refine nets_seq nets_sfsGettype fun r => ?_
  cases r with
  | error e => exact nets_pure
  | ok isdir => exact nets_pure

/-- `sfs_isseekable`. -/
def sfsIsseekable : Lk Bool := return true

/-- `sfs_mmap`. -/
def sfsMmap : Lk (Option Errno) := return some .enosys

/-- `sfs_truncate`. -/
def sfsTruncate : Lk (Option Errno) := sfsItrunc

/-- `sfs_namefile`. -/
def sfsNamefile : Lk (Option Errno) := do
  assert .isRoot
  return none

/-- `sfs_creat`. -/
def sfsCreat (excl : Bool) : Lk (Except Errno Vnode) := do
  vfsBiglockAcquire
  match ← call .sfsDirFindname with
  | none =>
      if excl then
        vfsBiglockRelease
        return .error .eexist
      match ← load .sfsLoadvnode with
      | .error e =>
          vfsBiglockRelease
          return .error e
      | .ok newguy =>
          vfsBiglockRelease
          return .ok newguy
  | some .enoent =>
      match ← load .sfsMakeobj with
      | .error e =>
          vfsBiglockRelease
          return .error e
      | .ok newguy =>
          if let some e := ← call .sfsDirLink then
            vnodeDecref sfsReclaim
            vfsBiglockRelease
            return .error e
          vfsBiglockRelease
          return .ok newguy
  | some e =>
      vfsBiglockRelease
      return .error e

theorem nets_sfsCreat {excl : Bool} : Nets 0 p p (sfsCreat excl) := by
  refine nets_acquire (nets_call fun r => ?_)
  split
  · -- the name exists
    refine nets_ite (nets_release nets_pure) (nets_load fun r => ?_)
    cases r with
    | error e => exact nets_release nets_pure
    | ok newguy => exact nets_release nets_pure
  · -- it does not
    refine nets_load fun r => ?_
    cases r with
    | error e => exact nets_release nets_pure
    | ok newguy =>
      refine nets_call fun r => ?_
      cases r with
      | none => exact nets_release nets_pure
      | some e => exact nets_decref nets_sfsReclaim (nets_release nets_pure)
  · exact nets_release nets_pure

/-- `sfs_link`. -/
def sfsLink : Lk (Option Errno) := do
  assert .sameFs
  vfsBiglockAcquire
  if ← test .isDir then
    vfsBiglockRelease
    return some .einval
  let result ← call .sfsDirLink
  if result ≠ none then
    vfsBiglockRelease
    return result
  vfsBiglockRelease
  return none

theorem nets_sfsLink : Nets 0 p p sfsLink := by
  refine nets_assert (nets_acquire (nets_test fun _ => nets_ite (nets_release nets_pure) ?_))
  exact nets_call fun _ => nets_ite (nets_release nets_pure) (nets_release nets_pure)

/-- `sfs_remove`. -/
def sfsRemove : Lk (Option Errno) := do
  vfsBiglockAcquire
  let result ← call .sfsLookonce
  if result ≠ none then
    vfsBiglockRelease
    return result
  let result ← call .sfsDirUnlink
  if result = none then
    assert .linkcountPositive
  vnodeDecref sfsReclaim
  vfsBiglockRelease
  return result

theorem nets_sfsRemove : Nets 0 p p sfsRemove := by
  refine nets_acquire (nets_call fun _ => nets_ite (nets_release nets_pure) ?_)
  have hend : ∀ r : Option Errno, Nets 0 ⟨p.depth + 1, p.eLock⟩ p (do
      vnodeDecref sfsReclaim
      vfsBiglockRelease
      return r) :=
    fun r => nets_decref nets_sfsReclaim (nets_release nets_pure)
  exact nets_call fun _ => nets_ite (nets_assert (hend _)) (hend _)

/-- `sfs_rename`. -/
def sfsRename : Lk (Option Errno) := do
  vfsBiglockAcquire
  assert .sameDir
  assert .isRoot
  let result ← call .sfsLookonce
  if result ≠ none then
    vfsBiglockRelease
    return result
  assert .isFile
  let result ← call .sfsDirLink
  if result ≠ none then
    -- `puke`
    vnodeDecref sfsReclaim
    vfsBiglockRelease
    return result
  let result ← call .sfsDirUnlink
  if result ≠ none then
    -- `puke_harder`
    let result2 ← call .sfsDirUnlink
    if result2 ≠ none then
      Prog.halt .panic
    vnodeDecref sfsReclaim
    vfsBiglockRelease
    return result
  assert .linkcountPositive
  vnodeDecref sfsReclaim
  vfsBiglockRelease
  return none

theorem nets_sfsRename : Nets 0 p p sfsRename := by
  refine nets_acquire (nets_assert (nets_assert (nets_call fun _ => ?_)))
  refine nets_ite (nets_release nets_pure) (nets_assert (nets_call fun _ => ?_))
  refine nets_ite (nets_decref nets_sfsReclaim (nets_release nets_pure)) (nets_call fun _ => ?_)
  refine nets_ite (nets_call fun _ => nets_ite nets_panic ?_) (nets_assert ?_)
  all_goals exact nets_decref nets_sfsReclaim (nets_release nets_pure)

/-- `sfs_lookparent`. -/
def sfsLookparent : Lk (Except Errno Vnode) := do
  vfsBiglockAcquire
  if !(← test .isDir) then
    vfsBiglockRelease
    return .error .enotdir
  if ← test .tooLong then
    vfsBiglockRelease
    return .error .enametoolong
  vfsBiglockRelease
  return .ok (.sfs true)

theorem nets_sfsLookparent : Nets 0 p p sfsLookparent := by
  refine nets_acquire (nets_test fun _ => nets_ite (nets_release nets_pure) ?_)
  exact nets_test fun _ => nets_ite (nets_release nets_pure) (nets_release nets_pure)

/-- `sfs_lookup`. -/
def sfsLookup : Lk (Except Errno Vnode) := do
  vfsBiglockAcquire
  if !(← test .isDir) then
    vfsBiglockRelease
    return .error .enotdir
  match ← load .sfsLookonce with
  | .error e =>
      vfsBiglockRelease
      return .error e
  | .ok final =>
      vfsBiglockRelease
      return .ok final

theorem nets_sfsLookup : Nets 0 p p sfsLookup := by
  refine nets_acquire (nets_test fun _ => nets_ite (nets_release nets_pure) (nets_load fun r => ?_))
  cases r with
  | error e => exact nets_release nets_pure
  | ok final => exact nets_release nets_pure

end Balance

end Os161
