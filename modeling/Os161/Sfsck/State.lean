import Os161.Lib.Prog
import Os161.Sfs.Volume
import Mathlib.Logic.Function.Basic

/-!
# What sfsck works on

The global state of `userland/sbin/sfsck`: the disk, the two bitmaps of `freemap.c`, the inode
table of `inode.c`, the counters, and the badness code of `main.c`. The checker is the program that
runs under OS/161 itself (no `HOST`), so the `SWAP` macros do nothing and `size_t` has 32 bits.

Everything the checker prints goes to a log, newest first, together with a mark for each entry to a
traversal function. Two things only ever grow along a run: the log, and `badness`. `ckGrowth` says
so, together with the facts that whoever reports a block already in use also raises `badness` to
`EXIT_UNRECOV`, and that nothing raises it further; programs carry the proof (`Os161.Prog`).

## What is left out

Paths are only printed, so they are neither built nor passed along. Device reads and writes
succeed.
-/

namespace Os161

namespace Sfsck

open Sfs

/-! ### Exit codes and messages -/

/-- `EXIT_CLEAN`. -/
def exitClean : ℕ := 0

/-- `EXIT_RECOV`. -/
def exitRecov : ℕ := 1

/-- `EXIT_UNRECOV`. -/
def exitUnrecov : ℕ := 2

/-- `EXIT_FATAL`. -/
def exitFatal : ℕ := 3

theorem exitRecov_le : exitRecov ≤ exitUnrecov := by decide

theorem exitUnrecov_le : exitUnrecov ≤ exitUnrecov := le_rfl

/-- `blockusage_t`: how a block was found to be in use. -/
inductive Usage where
  | superblock
  | freemapblock
  | inode
  | iblock
  | dirdata
  | data
  | pastend
  deriving DecidableEq

/-- The messages of `warnx`, without the paths in them. -/
inductive Warning where
  /-- "Volume name not null-terminated (fixed)" -/
  | volnameNotTerminated
  /-- "Volume name contains illegal characters (fixed)" -/
  | volnameIllegal
  /-- "Reserved section of superblock not zeroed (fixed)" -/
  | reservedNotZeroed
  /-- "Block %lu (used as %s) already in use! (NOT FIXED)" -/
  | alreadyInUse (block : UInt32) (how : Usage) (howdesc : UInt32)
  /-- "Block %lu erroneously shown %s in freemap" -/
  | shownWrong (block : ℕ) (free : Bool)
  /-- "%lu blocks erroneously shown free in freemap (fixed)" -/
  | shownFree (count : ℕ)
  /-- "%lu blocks erroneously shown used in freemap (fixed)" -/
  | shownUsed (count : ℕ)
  /-- "Inode %lu: indirect block pointer (level %d) for block %lu outside of volume" -/
  | indirectOutside (ino : UInt32) (level : ℕ) (fileblock block : UInt32)
  /-- "Inode %lu: direct block pointer for block %lu outside of volume" -/
  | directOutside (ino fileblock block : UInt32)
  /-- "Inode %lu: %u blocks after EOF (freed)" -/
  | blocksAfterEof (ino : UInt32) (count : ℕ)
  /-- "Inode %lu: sfi_waste section not zeroed (fixed)" -/
  | wasteNotZeroed (ino : UInt32)
  /-- "Directory %s entry %lu has name but no file" -/
  | nameButNoFile (index : ℕ)
  /-- "Directory %s entry %lu has out of range inode (cleared)" -/
  | inodeOutOfRange (index : ℕ)
  /-- "Directory %s entry %lu has file but no name (fixed: %s)" -/
  | fileButNoName (index : ℕ)
  /-- "Directory %s entry %lu not null-terminated (fixed)" -/
  | nameNotTerminated (index : ℕ)
  /-- "Directory %s entry %lu contains invalid characters (fixed)" -/
  | nameIllegal (index : ℕ)
  /-- "Directory %s has illegal size %lu (fixed)" -/
  | illegalSize (size : UInt32)
  /-- "Object %s: Invalid inode type %u (removed)" -/
  | invalidType (type : UInt16)
  /-- "Root directory inode is a regular file (fixed)" -/
  | rootIsFile
  /-- "Root directory inode has invalid type %lu (fixed)" -/
  | rootInvalidType (type : UInt16)
  /-- "Warning: sparse directory found" -/
  | sparseDirectory
  /-- "Cannot write to missing block in sparse directory (ERROR)" -/
  | sparseWrite
  /-- "Directory %s: Duplicate entries for %s (merged)" -/
  | duplicateMerged
  /-- "Directory %s: Duplicate names %s (one renamed: %s)" -/
  | duplicateRenamed
  /-- "Directory %s: Incorrect `.' entry (fixed)" -/
  | dotIncorrect
  /-- "Directory %s: Incorrect `..' entry (fixed)" -/
  | dotdotIncorrect
  /-- "Directory %s: No `.' entry (added)" -/
  | dotAdded
  /-- "Directory %s: No `.' entry (NOT FIXED)" -/
  | dotNotFixed
  /-- "Directory %s: No `..' entry (added)" -/
  | dotdotAdded
  /-- "Directory %s: No `..' entry (NOT FIXED)" -/
  | dotdotNotFixed
  /-- "Directory %s: Crosslink to other directory (removed)" -/
  | crosslink
  /-- "Directory %s: Link count %lu should be %lu (fixed)" -/
  | dirLinkcount (found expected : UInt32)
  /-- "File %lu link count %lu should be %lu (fixed)" -/
  | fileLinkcount (ino : UInt32) (found : UInt16) (expected : UInt32)
  deriving DecidableEq

/-- What the log records: a message, or a mark that a traversal function was entered. `scan1 ino n`
and `scan2 ino n` mark that the entries of directory `ino`, `n` of them, are about to be gone
through. -/
inductive Event where
  | warn (w : Warning)
  | pass1Dir (ino : UInt32)
  | pass1Inode (ino : UInt32)
  | scan1 (ino : UInt32) (n : ℕ)
  | pass2Dir (ino : UInt32)
  | scan2 (ino : UInt32) (n : ℕ)
  deriving DecidableEq

/-- A report that a block is claimed a second time. -/
def Event.isDup : Event → Bool
  | .warn (.alreadyInUse ..) => true
  | _ => false

/-- Why `errx` was called. -/
inductive Reason where
  /-- "Not an sfs filesystem" -/
  | notSfs
  /-- "Out of memory" -/
  | outOfMemory
  /-- "FATAL: inode %u wasn't found in my inode table" -/
  | inodeNotFound (ino : UInt32)
  deriving DecidableEq

/-- How a run may stop before the end of `main`. -/
inductive Halt where
  /-- `errx(code, ..)`. -/
  | errx (code : ℕ) (why : Reason)
  /-- A failed `assert`. -/
  | abort
  /-- A write that runs off the end of the process's memory, which kills the process. -/
  | fault
  /-- The model's recursion budget ran out. -/
  | fuel
  deriving DecidableEq

/-! ### The state -/

/-- `struct inodeinfo`. -/
structure Inodeinfo where
  ino : UInt32
  /-- Files only. -/
  linkcount : UInt32
  /-- Directories only. -/
  visited : Bool
  type : UInt16
  deriving DecidableEq

/-- The variables the checker overwrites freely. -/
structure Core where
  /-- The disk by sector; a sector holds one block. -/
  disk : Disk
  /-- `sb` of `sb.c`. -/
  sb : Superblock
  /-- `blocksinuse`. -/
  blocksinuse : ℕ
  /-- `freemapdata`, one bit for each block. -/
  freemapdata : UInt32 → Bool
  /-- `tofreedata`, one bit for each block. -/
  tofreedata : UInt32 → Bool
  /-- The first `ninodes` entries of `inodes`. -/
  inodes : List Inodeinfo
  /-- `maxinodes`. -/
  maxinodes : UInt32
  /-- `inodes_sorted`. -/
  inodesSorted : Bool
  /-- `uniquecounter`, before its reduction to 32 bits. -/
  uniquecounter : ℕ
  /-- `count_dirs`. -/
  countDirs : ℕ
  /-- `count_files`. -/
  countFiles : ℕ
  /-- How often `malloc` has been called. -/
  nmalloc : ℕ

/-- The state of a run of sfsck. -/
structure State extends Core where
  /-- `badness`. -/
  badness : ℕ
  /-- What has been printed and entered, newest first. -/
  log : List Event

/-- Some block was reported as already in use. -/
def State.Dup (s : State) : Prop := ∃ e ∈ s.log, e.isDup = true

/-- The log and `badness` grow, a new report of a doubly used block raises `badness`, and nothing
raises it beyond `EXIT_UNRECOV`. -/
def ckGrowth : Growth State where
  le s t := s.log <:+ t.log ∧ s.badness ≤ t.badness ∧ (t.Dup → s.Dup ∨ exitUnrecov ≤ t.badness) ∧
    t.badness ≤ max s.badness exitUnrecov
  refl s := ⟨List.suffix_rfl, le_rfl, Or.inl, le_max_left _ _⟩
  trans := by
    rintro s t u ⟨h1, h2, h3, hs⟩ ⟨h4, h5, h6, ht⟩
    refine ⟨h1.trans h4, h2.trans h5, fun hu => ?_, by omega⟩
    rcases h6 hu with ht | hb
    · rcases h3 ht with hs | hb
      · exact Or.inl hs
      · exact Or.inr (hb.trans h5)
    · exact Or.inr hb

/-- A part of sfsck. -/
abbrev Ck (α : Type) := Prog ckGrowth Halt α

/-- The memory allocator the checker runs with. Which requests it grants may depend on how many
came before; a granted block lies in user space, which ends at `0x80000000`. -/
structure Env where
  malloc : ℕ → UInt32 → Bool
  bounded : ∀ k n, malloc k n = true → n.toNat < 2147483648

/-- What an allocator that refuses only huge requests promises. -/
theorem lt_of_granted {n : UInt32} (h : decide (n.toNat < 2147483648) = true) :
    n.toNat < 2147483648 := of_decide_eq_true h

/-! ### Primitive steps -/

/-- Overwrite variables. -/
def modify (f : Core → Core) : Ck Unit :=
  Prog.update (fun s => { s with toCore := f s.toCore }) fun s => ckGrowth.refl s

/-- `setbadness`; `EXIT_FATAL` is only ever passed to `errx`. -/
def setbadness (code : ℕ)
    (h : code ≤ exitUnrecov := by first | exact exitRecov_le | exact exitUnrecov_le) : Ck Unit :=
  Prog.update (fun s => { s with badness := max s.badness code }) fun _ =>
    ⟨List.suffix_rfl, le_max_left _ _, Or.inl, max_le_max_left _ h⟩

/-- Put an event other than a doubly-used-block report into the log. -/
def record (e : Event) (h : e.isDup = false) : Ck Unit :=
  Prog.update (fun s => { s with log := e :: s.log }) fun s => by
    refine ⟨List.suffix_cons e s.log, le_rfl, ?_, le_max_left _ _⟩
    rintro ⟨e', he', hd⟩
    rcases List.mem_cons.mp he' with rfl | he'
    · simp [h] at hd
    · exact Or.inl ⟨e', he', hd⟩

/-- `warnx`. -/
def warnx (w : Warning) (h : (Event.warn w).isDup = false := by exact Eq.refl false) : Ck Unit :=
  record (.warn w) h

/-- The report of a doubly used block: `warnx` and `setbadness(EXIT_UNRECOV)`. -/
def reportInUse (block : UInt32) (how : Usage) (howdesc : UInt32) : Ck Unit :=
  Prog.update (fun s => { s with
      badness := max s.badness exitUnrecov
      log := .warn (.alreadyInUse block how howdesc) :: s.log }) fun s =>
    ⟨List.suffix_cons _ s.log, le_max_left _ _, fun _ => Or.inr (le_max_right _ _), le_rfl⟩

/-- `assert`. -/
def assert (p : Prop) [Decidable p] : Ck Unit := if p then pure () else Prog.halt .abort

/-- `domalloc`. -/
def domalloc (env : Env) (len : UInt32) : Ck Unit := do
  let s ← Prog.get
  modify fun c => { c with nmalloc := c.nmalloc + 1 }
  if env.malloc s.nmalloc len then pure () else Prog.halt (.errx exitFatal .outOfMemory)

/-- `uniqueid`. -/
def uniqueid : Ck UInt32 := do
  let s ← Prog.get
  modify fun c => { c with uniquecounter := c.uniquecounter + 1 }
  pure (UInt32.ofNat s.uniquecounter)

/-! ### String checks of `utils.c`

Each returns the buffer it leaves behind and whether it changed anything. -/

/-- `checknullstring`. -/
def checknullstring {n : ℕ} (buf : Bytes n) : Bytes n × Bool :=
  if hasNul buf then (buf, false) else (fun i => if i + 1 = n then 0 else buf i, true)

/-- A character `checkbadstring` does not allow: `:` or `/`. -/
def badchar (c : UInt8) : Bool := c = 58 || c = 47

/-- `checkbadstring`: stomp the illegal characters before the first `NUL`. -/
def checkbadstring {n : ℕ} (buf : Bytes n) : Bytes n × Bool :=
  (fun i => if i < (cstr buf).length ∧ badchar (buf i) then 95 else buf i, (cstr buf).any badchar)

/-- `checkzeroed`, on an array of words. -/
def checkzeroed {n : ℕ} (buf : Fin n → UInt32) : (Fin n → UInt32) × Bool :=
  (fun _ => 0, decide (∃ i, buf i ≠ 0))

end Sfsck

end Os161
