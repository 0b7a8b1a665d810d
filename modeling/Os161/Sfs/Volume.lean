import Os161.Sfs.Format

/-!
# Reading an SFS volume

What the blocks of a volume mean, independently of the programs that work on it: which disk block
holds a given block of a file, which entries a directory has, which objects can be reached from the
root directory, and which blocks they own.

A hole in a directory reads as empty entries, and a file maps no block at or past index `143`.

## Main definitions

* `Disk` — a volume by block number
* `dinodeAt`, `fileBlock`, `entryAt`, `entriesAt` — inodes, block mapping, directory contents
* `Reachable`, `Owns`, `freemapBit`
-/

namespace Os161

namespace Sfs

/-- A volume by block number. -/
abbrev Disk := UInt32 → Block

/-- The inode with number `ino`. -/
def dinodeAt (d : Disk) (ino : UInt32) : Dinode := Dinode.ofBlock (d ino)

/-- The entries of an inode's indirect block; all zero when it has none. -/
def indirectAt (d : Disk) (sfi : Dinode) : Fin 128 → UInt32 :=
  if sfi.sfiIndirect = 0 then fun _ => 0 else indirectOf (d sfi.sfiIndirect)

/-- The disk block that holds block `k` of a file, `0` for a hole. -/
def fileBlock (d : Disk) (sfi : Dinode) (k : ℕ) : UInt32 :=
  if h : k < 15 then sfi.sfiDirect ⟨k, h⟩
  else if h : k - 15 < 128 then indirectAt d sfi ⟨k - 15, h⟩
  else 0

/-- Entry `j` of a directory. -/
def entryAt (d : Disk) (sfi : Dinode) (j : ℕ) : Direntry :=
  if fileBlock d sfi (j / 8) = 0 then Direntry.empty
  else direntryOf (d (fileBlock d sfi (j / 8))) (j % 8)

/-- The entries of a directory. -/
def entriesAt (d : Disk) (sfi : Dinode) : List Direntry :=
  (List.range (sfi.sfiSize.toNat / 64)).map (entryAt d sfi)

/-- The name `.`. -/
def dot : List UInt8 := [46]

/-- The name `..`. -/
def dotdot : List UInt8 := [46, 46]

/-- An entry that names a file. -/
def Direntry.Occupied (e : Direntry) : Prop := e.sfdIno ≠ 0

instance (e : Direntry) : Decidable e.Occupied := inferInstanceAs (Decidable (e.sfdIno ≠ 0))

/-- An entry called neither `.` nor `..`. -/
def Direntry.Ordinary (e : Direntry) : Prop := e.name ≠ dot ∧ e.name ≠ dotdot

instance (e : Direntry) : Decidable e.Ordinary :=
  inferInstanceAs (Decidable (e.name ≠ dot ∧ e.name ≠ dotdot))

/-- The objects that can be reached from the root directory. -/
inductive Reachable (d : Disk) : UInt32 → Prop where
  | root : Reachable d sfsRootdirIno
  | entry {dir : UInt32} {e : Direntry} (hdir : Reachable d dir)
      (htype : (dinodeAt d dir).sfiType = sfsTypeDir)
      (he : e ∈ entriesAt d (dinodeAt d dir)) (hocc : e.Occupied) : Reachable d e.sfdIno

/-- Block `b` belongs to the object `ino`: it holds the inode, a block of the file, or the indirect
block. -/
def Owns (d : Disk) (ino b : UInt32) : Prop :=
  b = ino ∨ (b ≠ 0 ∧ (b = (dinodeAt d ino).sfiIndirect ∨ ∃ k, b = fileBlock d (dinodeAt d ino) k))

/-- Bit `b` of the free block bitmap. -/
def freemapBit (d : Disk) (b : UInt32) : Bool :=
  ((d (sfsFreemapStart + b / 4096)).get (b.toNat % 4096 / 8)).toNat.testBit (b.toNat % 8)

/-- Byte `j` of block `i` of the bitmap with the given bits. -/
def mapByte (bits : UInt32 → Bool) (i j : ℕ) : UInt8 :=
  UInt8.ofNat (((List.range 8).map fun y =>
    if bits (UInt32.ofNat (i * 4096 + j * 8 + y)) then 2 ^ y else 0).sum)

/-! ### What the readings depend on -/

/-- A block of the file that the indirect block holds. -/
theorem fileBlock_entry (d : Disk) (sfi : Dinode) (k : Fin 128) :
    fileBlock d sfi (15 + k) = indirectAt d sfi k := by
  have hk := k.isLt
  have hsub : 15 + (k : ℕ) - 15 = k := Nat.add_sub_cancel_left 15 k
  rw [fileBlock, dif_neg (by omega), dif_pos (by omega)]
  congr 1
  exact Fin.ext hsub

theorem indirectAt_congr {d d' : Disk} {sfi : Dinode}
    (h : sfi.sfiIndirect ≠ 0 → d sfi.sfiIndirect = d' sfi.sfiIndirect) :
    indirectAt d sfi = indirectAt d' sfi := by
  rw [indirectAt, indirectAt]
  split
  · rfl
  · rw [h ‹_›]

theorem fileBlock_congr {d d' : Disk} {sfi : Dinode}
    (h : sfi.sfiIndirect ≠ 0 → d sfi.sfiIndirect = d' sfi.sfiIndirect) (k : ℕ) :
    fileBlock d sfi k = fileBlock d' sfi k := by
  rw [fileBlock, fileBlock, indirectAt_congr h]

theorem entryAt_congr {d d' : Disk} {sfi : Dinode} {j : ℕ}
    (h : sfi.sfiIndirect ≠ 0 → d sfi.sfiIndirect = d' sfi.sfiIndirect)
    (hb : fileBlock d sfi (j / 8) ≠ 0 →
      d (fileBlock d sfi (j / 8)) = d' (fileBlock d sfi (j / 8))) :
    entryAt d sfi j = entryAt d' sfi j := by
  rw [entryAt, entryAt, ← fileBlock_congr h]
  split
  · rfl
  · rw [hb ‹_›]

theorem entriesAt_congr {d d' : Disk} {sfi : Dinode}
    (h : sfi.sfiIndirect ≠ 0 → d sfi.sfiIndirect = d' sfi.sfiIndirect)
    (hb : ∀ k, fileBlock d sfi k ≠ 0 → d (fileBlock d sfi k) = d' (fileBlock d sfi k)) :
    entriesAt d sfi = entriesAt d' sfi := by
  rw [entriesAt, entriesAt]
  exact List.map_congr_left fun j _ => entryAt_congr h (hb (j / 8))

@[simp] theorem length_entriesAt (d : Disk) (sfi : Dinode) :
    (entriesAt d sfi).length = sfi.sfiSize.toNat / 64 := by
  rw [entriesAt, List.length_map, List.length_range]

end Sfs

end Os161
