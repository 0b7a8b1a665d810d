import Os161.Vfs.Held

/-!
# The paths of emufs through its locks

The functions of `kern/dev/lamebus/emu.c` that open and load a vnode of emufs or let go of one, path
by path, with all they do to `vfs_biglock` and to the `e_lock` of their device written out. `sc`
is the device.

`emufs_loadvnode` takes both locks and gives both back on every path but one: where `kmalloc` finds
no memory it gives back `e_lock` alone. `nets_emufsLoadvnode` has room for that one acquire.
-/

namespace Os161

namespace Balance

variable {p : Held} {k sc : ℕ}

/-- `emu_open`: whether the handle is a directory's. -/
def emuOpen (sc : ℕ) : Lk (Except Errno Bool) := do
  if ← test .tooLong then
    return .error .enametoolong
  lockAcquire sc
  match ← call .emuWaitdone with
  | none =>
      let isdir ← test .isDir
      lockRelease sc
      return .ok isdir
  | some e =>
      lockRelease sc
      return .error e

theorem nets_emuOpen : Nets 0 ⟨k, none⟩ ⟨k, none⟩ (emuOpen sc) := by
  refine nets_test fun _ => nets_ite nets_pure (nets_eAcquire (nets_call fun r => ?_))
  cases r with
  | none => exact nets_test fun _ => nets_eRelease nets_pure
  | some e => exact nets_eRelease nets_pure

/-- The loop of `emu_close`, with `retries` left. -/
def emuCloseLoop : ℕ → Lk (Option Errno)
  | 0 => call .emuWaitdone
  | retries + 1 => do
      let result ← call .emuWaitdone
      if result = some .eio then
        emuCloseLoop retries
      else
        return result

theorem nets_emuCloseLoop (retries : ℕ) : Nets 0 p p (emuCloseLoop retries) := by
  induction retries with
  | zero => exact nets_call_last
  | succ retries ih => exact nets_call fun _ => nets_ite ih nets_pure

/-- `emu_close`. -/
def emuClose (sc : ℕ) : Lk (Option Errno) := do
  let mine ← lockDoIHold sc
  if !mine then
    lockAcquire sc
  let result ← emuCloseLoop 10
  if !mine then
    lockRelease sc
  return result

/-- Called without the lock, `emu_close` takes it and gives it back. -/
theorem nets_emuClose : Nets 0 ⟨k, none⟩ ⟨k, none⟩ (emuClose sc) := by
  refine nets_get fun s => ?_
  change Nets _ _ _ (do
    if !s.eLock sc then
      lockAcquire sc
    let result ← emuCloseLoop 10
    if !s.eLock sc then
      lockRelease sc
    return result)
  cases s.eLock sc with
  | false =>
    exact nets_eAcquire (nets_seq (nets_emuCloseLoop 10) fun _ => nets_eRelease nets_pure)
  | true => exact nets_seq (nets_emuCloseLoop 10) fun _ => nets_pure

/-- Called with it, `emu_close` leaves it with the caller. -/
theorem nets_emuClose_mine : Nets 0 ⟨k, some sc⟩ ⟨k, some sc⟩ (emuClose sc) :=
  nets_mine (nets_seq (nets_emuCloseLoop 10) fun _ => nets_pure)

/-- `emufs_reclaim`. -/
def emufsReclaim (sc : ℕ) : Lk (Option Errno) := do
  vfsBiglockAcquire
  lockAcquire sc
  if ← test .refcountAboveOne then
    lockRelease sc
    vfsBiglockRelease
    return some .ebusy
  assert .refcountIsOne
  let result ← emuClose sc
  if result ≠ none then
    lockRelease sc
    vfsBiglockRelease
    return result
  if !(← test .inPool) then
    Prog.halt .panic
  exec .vnodearrayRemove
  exec .vnodeCleanup
  lockRelease sc
  vfsBiglockRelease
  return none

theorem nets_emufsReclaim : Nets 0 ⟨k, none⟩ ⟨k, none⟩ (emufsReclaim sc) := by
  refine nets_acquire (nets_eAcquire (nets_test fun _ => nets_ite ?_ (nets_assert ?_)))
  · exact nets_eRelease (nets_release nets_pure)
  refine nets_seq nets_emuClose_mine fun _ => nets_ite ?_ ?_
  · exact nets_eRelease (nets_release nets_pure)
  refine nets_test fun _ => nets_ite nets_panic (nets_exec (nets_exec ?_))
  exact nets_eRelease (nets_release nets_pure)

/-- `emufs_loadvnode`. -/
def emufsLoadvnode (sc : ℕ) (isdir : Bool) : Lk (Except Errno Vnode) := do
  vfsBiglockAcquire
  lockAcquire sc
  if ← test .inPool then
    let found ← test .isDir
    lockRelease sc
    vfsBiglockRelease
    return .ok (.emufs sc found)
  if !(← evKmalloc) then
    -- `vfs_biglock` is not released here
    lockRelease sc
    return .error .enomem
  if let some e := ← call .vnodeInit then
    lockRelease sc
    vfsBiglockRelease
    return .error e
  if let some e := ← call .vnodearrayAdd then
    exec .vnodeCleanup
    lockRelease sc
    vfsBiglockRelease
    return .error e
  lockRelease sc
  vfsBiglockRelease
  return .ok (.emufs sc isdir)

theorem nets_emufsLoadvnode {isdir : Bool} :
    Nets 1 ⟨k, none⟩ ⟨k, none⟩ (emufsLoadvnode sc isdir) := by
  refine nets_acquire (nets_eAcquire (nets_test fun _ => nets_ite ?_ ?_))
  · exact nets_test fun _ => nets_eRelease (nets_release nets_pure)
  refine nets_evKmalloc (nets_call fun r => ?_) (nets_eRelease nets_pure)
  cases r with
  | some e => exact nets_eRelease (nets_release nets_pure)
  | none =>
    refine nets_call fun r => ?_
    cases r with
    | some e => exact nets_exec (nets_eRelease (nets_release nets_pure))
    | none => exact nets_eRelease (nets_release nets_pure)

/-- `emufs_creat` and `emufs_lookup`, which differ in what they tell the device. -/
def emufsOpen (sc : ℕ) : Lk (Except Errno Vnode) := do
  match ← emuOpen sc with
  | .error e => return .error e
  | .ok isdir =>
      match ← emufsLoadvnode sc isdir with
      | .error e => do
          let _ ← emuClose sc
          return .error e
      | .ok newguy => return .ok newguy

theorem nets_emufsOpen : Nets 1 ⟨k, none⟩ ⟨k, none⟩ (emufsOpen sc) := by
  refine nets_seq nets_emuOpen fun r => ?_
  cases r with
  | error e => exact nets_pure
  | ok isdir =>
    refine nets_seq_load nets_emufsLoadvnode fun r => ?_
    cases r with
    | error e => exact nets_seq nets_emuClose fun _ => nets_pure
    | ok newguy => exact nets_pure

/-- `emufs_creat`. -/
def emufsCreat (sc : ℕ) : Lk (Except Errno Vnode) := emufsOpen sc

/-- `emufs_lookup`. -/
def emufsLookup (sc : ℕ) : Lk (Except Errno Vnode) := emufsOpen sc

/-- `emufs_lookparent`. -/
def emufsLookparent (sc : ℕ) : Lk (Except Errno Vnode) := do
  if !(← test .hasSlash) then
    if ← test .tooLong then
      return .error .enametoolong
    return .ok (.emufs sc true)
  if ← test .tooLong then
    return .error .enametoolong
  emufsLookup sc

theorem nets_emufsLookparent : Nets 1 ⟨k, none⟩ ⟨k, none⟩ (emufsLookparent sc) := by
  refine nets_test fun _ => nets_ite ?_ ?_
  · exact nets_test fun _ => nets_ite nets_pure nets_pure
  · exact nets_test fun _ => nets_ite nets_pure nets_emufsOpen

end Balance

end Os161
