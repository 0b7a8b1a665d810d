import Mathlib.Tactic.Basic

/-!
# Kernel error codes

The codes of `kern/include/kern/errno.h` that the modelled parts of the kernel return or test. A C
function that returns `0` or a code is modelled by an `Option`, `none` being success.
-/

namespace Os161

/-- `kern/errno.h`. -/
inductive Errno where
  /-- Function not implemented -/
  | enosys
  /-- Out of memory -/
  | enomem
  /-- Operation would block -/
  | eagain
  /-- Bad memory reference -/
  | efault
  /-- String too long -/
  | enametoolong
  /-- Invalid argument -/
  | einval
  /-- File is not executable -/
  | enoexec
  /-- Not a directory -/
  | enotdir
  /-- Is a directory -/
  | eisdir
  /-- No such file or directory -/
  | enoent
  /-- File or object exists -/
  | eexist
  /-- Too many hard links -/
  | emlink
  /-- Cross-device link -/
  | exdev
  /-- No such device -/
  | enodev
  /-- Device not available -/
  | enxio
  /-- Directory not empty -/
  | enotempty
  /-- Device or resource busy -/
  | ebusy
  /-- Input/output error -/
  | eio
  /-- Too many open files in system -/
  | enfile
  /-- No space left on device -/
  | enospc
  /-- File too large -/
  | efbig
  deriving DecidableEq

end Os161
