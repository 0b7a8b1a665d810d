import Os161.Sfsck.Pass2

/-!
# The whole checker

`userland/sbin/sfsck/main.c` and `sb.c`: the superblock is loaded and checked, and the three phases
run one after the other. The exit code is `badness`.
-/

namespace Os161

namespace Sfsck

open Sfs

/-- `sb_load`. -/
def sbLoad : Ck Unit := do
  let sb ← sfsReadsb sfsSuperBlock
  modify fun c => { c with sb := sb }
  if sb.sbMagic ≠ sfsMagic then Prog.halt (.errx exitFatal .notSfs)
  else do
    assert (0 < sb.sbNblocks)
    assert (0 < sfsFreemapblocks sb.sbNblocks)

/-- `sb_check`. -/
def sbCheck : Ck Unit := do
  let s ← Prog.get
  let ended := checknullstring s.sb.sbVolname
  Prog.when (ended.2 = true) (do
    warnx .volnameNotTerminated
    setbadness exitRecov)
  let good := checkbadstring ended.1
  Prog.when (good.2 = true) (do
    warnx .volnameIllegal
    setbadness exitRecov)
  let reserved := checkzeroed s.sb.reserved
  Prog.when (reserved.2 = true) (do
    warnx .reservedNotZeroed
    setbadness exitRecov)
  let sb := { s.sb with sbVolname := good.1, reserved := reserved.1 }
  modify fun c => { c with sb := sb }
  Prog.when ((ended.2 || good.2 || reserved.2) = true) (sfsWritesb sfsSuperBlock sb)

/-- A bound on the depth of either recursion: the number of inodes there can be. -/
def depth : Ck ℕ := do
  let s ← Prog.get
  pure (s.sb.sbNblocks.toNat + 2)

/-- Phase 1, as `main` runs it. -/
def phase1 (env : Env) : Ck Unit := do
  let fuel ← depth
  pass1Rootdir env fuel
  freemapCheck

/-- Phase 2, as `main` runs it. -/
def phase2 (env : Env) : Ck Unit := do
  inodeSorttable
  let fuel ← depth
  let _ ← pass2Dir env fuel sfsRootdirIno sfsRootdirIno
  pure ()

/-- `main`. -/
def main (env : Env) : Ck Unit := do
  sbLoad
  sbCheck
  freemapSetup env
  phase1 env
  phase2 env
  inodeAdjustFilelinks
  let s ← Prog.get
  assert (s.badness ≤ exitUnrecov)

/-- The state in which `main` starts. -/
def start (img : Disk) : State where
  disk := img
  sb := Superblock.ofBlock Bytes.zero
  blocksinuse := 0
  freemapdata _ := false
  tofreedata _ := false
  inodes := []
  maxinodes := 0
  inodesSorted := false
  uniquecounter := 0
  countDirs := 0
  countFiles := 0
  nmalloc := 0
  badness := 0
  log := []

/-- The run ends with `main` returning `code`, and leaves `out` on the disk. -/
def Finishes (env : Env) (img : Disk) (code : ℕ) (out : Disk) : Prop :=
  ∃ t, (main env).run (start img) = .done () t ∧ t.badness = code ∧ t.disk = out

end Sfsck

end Os161
