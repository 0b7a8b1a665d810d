import Os161.Sfsck.Main

/-!
# What phase 1 makes of an image

Phase 1 decides what to keep of an inode from the inode, its indirect block and the size of the
volume alone, so its decisions can be read off the image it started from: which block pointers
survive, what the inode and the indirect block become, which blocks are marked in use, and which
entries a directory has. `Reach` is the set of objects phase 1 finds that way.

The numbers that matter for addressing are those the checker seeks to: `Addressable` says that they
are below `2^23`, where `block*BLOCKSIZE` does not wrap around.

## Main definitions

* `keepPtr`, `cleanInode`, `cleanEntries`, `claims`, `Leaks` — an inode after phase 1
* `rawEntries`, `EntryRel` — the entries phase 1 reads, and what it makes of them
* `Reach`, `Sure`, `Addressable`
* `watch` — the runs considered: no block found in use twice
-/

namespace Os161

namespace Sfsck

open Sfs

/-! ### Inodes -/

/-- The size phase 1 gives a directory. -/
def dirSize (size : UInt32) : UInt32 := if size % 64 ≠ 0 then sfsRoundup size 64 else size

/-- An inode with its size corrected, if it is a directory's. -/
def sized (sfi : Dinode) : Dinode :=
  if sfi.sfiType = sfsTypeDir then { sfi with sfiSize := dirSize sfi.sfiSize } else sfi

/-- The number of blocks `check_inode_blocks` lets a file have; the rounding may wrap around. -/
def fileblocks (sfi : Dinode) : UInt32 := sfsRoundup sfi.sfiSize 512 / 512

/-- What becomes of a pointer to block `k` of a file: it is dropped outside the volume and past the
end of the file. -/
def keepPtr (n fileblocks : UInt32) (k : ℕ) (b : UInt32) : UInt32 :=
  if n ≤ b then 0 else if UInt32.ofNat k < fileblocks then b else 0

/-- The nonzero values of an array of pointers, in order. -/
def pointers {m : ℕ} (f : Fin m → UInt32) : List UInt32 := (List.ofFn f).filter (· ≠ 0)

section Inode

variable (n : UInt32) (d : Disk) (ino : UInt32)

/-- The inode as `pass1_inode` is given it. -/
def found : Dinode := sized (dinodeAt d ino)

/-- The direct pointers after phase 1. -/
def cleanDirect : Fin 15 → UInt32 := fun i =>
  keepPtr n (fileblocks (found d ino)) i ((found d ino).sfiDirect i)

/-- The inode names an indirect block inside the volume. -/
def HasIndirect : Prop := (found d ino).sfiIndirect ≠ 0 ∧ (found d ino).sfiIndirect < n

instance : Decidable (HasIndirect n d ino) :=
  inferInstanceAs (Decidable ((found d ino).sfiIndirect ≠ 0 ∧ (found d ino).sfiIndirect < n))

/-- The entries of the indirect block after phase 1. -/
def cleanEntries : Fin 128 → UInt32 := fun j =>
  if HasIndirect n d ino then
    keepPtr n (fileblocks (found d ino)) (15 + j) (indirectOf (d (found d ino).sfiIndirect) j)
  else 0

/-- The inode after phase 1. -/
def cleanInode : Dinode :=
  { found d ino with
    sfiDirect := cleanDirect n d ino
    sfiIndirect := if ∀ j, cleanEntries n d ino j = 0 then 0 else (found d ino).sfiIndirect
    sfiWaste := fun _ => 0 }

/-- The blocks phase 1 marks in use for the inode, in order. -/
def claims : List UInt32 :=
  ino :: (pointers (cleanDirect n d ino) ++
    if HasIndirect n d ino then (found d ino).sfiIndirect :: pointers (cleanEntries n d ino)
    else [])

/-- Block `b` is marked in use for the inode, but phase 1 drops the pointer to it: the indirect
block has become empty. -/
def Leaks (b : UInt32) : Prop :=
  HasIndirect n d ino ∧ b = (found d ino).sfiIndirect ∧ ∀ j, cleanEntries n d ino j = 0

/-- The disk block that holds block `k` of the file after phase 1. -/
def cleanBlock (k : ℕ) : UInt32 :=
  if h : k < 15 then cleanDirect n d ino ⟨k, h⟩
  else if h : k - 15 < 128 then cleanEntries n d ino ⟨k - 15, h⟩
  else 0

/-- Entry `j` of the directory, as phase 1 reads it. -/
def rawEntry (j : ℕ) : Direntry :=
  if cleanBlock n d ino (j / 8) = 0 then Direntry.empty
  else direntryOf (d (cleanBlock n d ino (j / 8))) (j % 8)

/-- The entries of the directory, as phase 1 reads them. -/
def rawEntries : List Direntry :=
  (List.range ((found d ino).sfiSize.toNat / 64)).map (rawEntry n d ino)

end Inode

/-! ### The volume -/

/-- The blocks that are in use whatever the volume holds: the superblock, the bitmap, and what the
bitmap has room for past the end of the volume. -/
def Reserved (n b : UInt32) : Prop :=
  b = 0 ∨ (2 ≤ b.toNat ∧ b.toNat < 2 + (sfsFreemapblocks n).toNat) ∨
    (n ≤ b ∧ b.toNat < (sfsFreemapblocks n).toNat * 4096)

/-! ### Directory entries -/

/-- An entry as far as it counts: the inode number and the name. -/
def view (e : Direntry) : UInt32 × List UInt8 := (e.sfdIno, e.name)

/-- `checkbadstring` on one character. -/
def stomp (c : UInt8) : UInt8 := if badchar c then 95 else c

/-- The name phase 1 makes of one that is not empty. -/
def sanitize (name : List UInt8) : List UInt8 := (name.take 59).map stomp

/-- The entry names a block of the volume. -/
def InRange (n : UInt32) (e : Direntry) : Prop := e.sfdIno ≠ 0 ∧ e.sfdIno < n

instance (n : UInt32) (e : Direntry) : Decidable (InRange n e) :=
  inferInstanceAs (Decidable (e.sfdIno ≠ 0 ∧ e.sfdIno < n))

/-- A type of inode that exists. -/
def ValidType (type : UInt16) : Prop := type = sfsTypeFile ∨ type = sfsTypeDir

instance (type : UInt16) : Decidable (ValidType type) :=
  inferInstanceAs (Decidable (type = sfsTypeFile ∨ type = sfsTypeDir))

/-- A name phase 1 may give an entry, if it has used fewer than `u` unique numbers. -/
def MayName (u : ℕ) (e : Direntry) (name : List UInt8) : Prop :=
  e.name ≠ [] ∧ name = sanitize e.name ∨
    e.name = [] ∧ ∃ m < u, name = fsckName e.sfdIno (UInt32.ofNat m)

/-- Phase 1 keeps the entry: it is in range, and it is a dot entry or names a file or directory. -/
def Kept (n : UInt32) (d : Disk) (e : Direntry) : Prop :=
  InRange n e ∧ (e.Ordinary → ValidType (dinodeAt d e.sfdIno).sfiType)

/-- Once the inodes `T` are registered, block `b` will not be registered as an inode: it is not one
by its type, or it belongs to an object of `T`. In the second case its content may have been changed
before an entry that names it is looked at, and then the entry is removed on account of what the
block contains by that time. -/
def Barred (n : UInt32) (d : Disk) (T : List UInt32) (b : UInt32) : Prop :=
  ¬ValidType (dinodeAt d b).sfiType ∨ ∃ i ∈ T, b ≠ i ∧ b ∈ claims n d i

/-- What phase 1 makes of an entry, if it registers the inodes `T` and uses fewer than `u` unique
numbers: the entry is removed, or it is kept under one of the names `MayName` lists. -/
inductive EntryRel (n : UInt32) (d : Disk) (T : List UInt32) (u : ℕ) (e : Direntry) :
    UInt32 × List UInt8 → Prop where
  | removed (h : InRange n e → e.Ordinary ∧ Barred n d T e.sfdIno) : EntryRel n d T u e (0, [])
  | kept {name : List UInt8} (hin : InRange n e) (hreg : e.Ordinary → e.sfdIno ∈ T)
      (hname : MayName u e name) : EntryRel n d T u e (e.sfdIno, name)

/-! ### The objects phase 1 finds -/

/-- The objects phase 1 finds: the root, and what entries other than `.` and `..` of directories
found name, if it is inside the volume and a file or a directory. -/
inductive Reach (n : UInt32) (d : Disk) : UInt32 → Prop where
  | root : Reach n d sfsRootdirIno
  | entry {dir : UInt32} {e : Direntry} (hdir : Reach n d dir)
      (htype : (dinodeAt d dir).sfiType = sfsTypeDir) (he : e ∈ rawEntries n d dir)
      (hin : InRange n e) (hord : e.Ordinary)
      (hvalid : ValidType (dinodeAt d e.sfdIno).sfiType) : Reach n d e.sfdIno

/-- The objects phase 1 finds for sure: their blocks do not belong to another object as well. -/
inductive Sure (n : UInt32) (d : Disk) : UInt32 → Prop where
  | root : Sure n d sfsRootdirIno
  | entry {dir : UInt32} {e : Direntry} (hdir : Sure n d dir)
      (htype : (dinodeAt d dir).sfiType = sfsTypeDir) (he : e ∈ rawEntries n d dir)
      (hin : InRange n e) (hord : e.Ordinary) (hvalid : ValidType (dinodeAt d e.sfdIno).sfiType)
      (halone : ∀ i, Reach n d i → e.sfdIno ≠ i → e.sfdIno ∉ claims n d i) : Sure n d e.sfdIno

/-- Every block the checker seeks to has a number below `2^23`: the inodes that entries of the
directories found name, indirect blocks, and the blocks of directories. -/
structure Addressable (n : UInt32) (d : Disk) : Prop where
  inode : ∀ dir e, Reach n d dir → (dinodeAt d dir).sfiType = sfsTypeDir →
    e ∈ rawEntries n d dir → InRange n e → e.sfdIno.toNat < 8388608
  indirect : ∀ i, Reach n d i → HasIndirect n d i → (found d i).sfiIndirect.toNat < 8388608
  block : ∀ i k, Reach n d i → (dinodeAt d i).sfiType = sfsTypeDir →
    (cleanBlock n d i k).toNat < 8388608

theorem Addressable.reach {n : UInt32} {d : Disk} (h : Addressable n d) {i : UInt32}
    (hi : Reach n d i) : i.toNat < 8388608 := by
  cases hi with
  | root => decide
  | entry hdir htype he hin _ _ => exact h.inode _ _ hdir htype he hin

/-! ### The runs considered -/

/-- Runs in which no block is reported in use twice, and, if `B` holds, nothing is reported that
cannot be repaired. -/
def watch (B : Prop) : Watch ckGrowth where
  ok s := ¬s.Dup ∧ (B → s.badness ≤ exitRecov)
  stable := by
    rintro s t ⟨hlog, hbad, -⟩ ⟨hdup, hB⟩
    refine ⟨fun ⟨e, he, hd⟩ => hdup ⟨e, hlog.subset he, hd⟩, fun hb => hbad.trans (hB hb)⟩

end Sfsck

end Os161
