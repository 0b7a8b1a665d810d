import Os161.Sfs.Inode

/-!
# Directories

`sfs_metaio` of `kern/fs/sfs/sfs_io.c` and `kern/fs/sfs/sfs_dir.c`: reading and writing entries,
searching, linking and unlinking names, and looking a name up.

Names are C strings without their terminating `NUL`, so they hold no zero byte.
-/

namespace Os161

namespace Sfs

open Prog

/-- `len` bytes of a block, from `off` on. -/
def slice (b : Block) (off len : ℕ) : Bytes len := fun i => b.get (off + i)

/-- The block with `data` put at `off`. -/
def splice {len : ℕ} (b : Block) (off : ℕ) (data : Bytes len) : Block :=
  Bytes.ofFn fun i => if off ≤ i ∧ i < off + len then data.get (i - off) else b.get i

/-- `sfs_metaio`, reading. -/
def metaioRead (ino : UInt32) (actualpos len : ℕ) : Sk (Bytes len) := do
  let diskblock ← bmap ino (UInt32.ofNat (actualpos / 512)) false
  if diskblock = 0 then pure Bytes.zero
  else do
    let metaiobuf ← readblock diskblock
    pure (slice metaiobuf (actualpos % 512) len)

/-- `sfs_metaio`, writing. -/
def metaioWrite (ino : UInt32) (actualpos : ℕ) {len : ℕ} (data : Bytes len) : Sk Unit := do
  let diskblock ← bmap ino (UInt32.ofNat (actualpos / 512)) true
  if diskblock = 0 then panic (.kassert .writeHole)
  else do
    let metaiobuf ← readblock diskblock
    writeblock diskblock (splice metaiobuf (actualpos % 512) data)
    let sv ← getVnode ino
    when (sv.svI.sfiSize.toNat < actualpos + len)
      (modifyInode ino fun d => { d with sfiSize := UInt32.ofNat (actualpos + len) })

/-- The entry stored in 64 bytes. -/
def Direntry.ofBytes (b : Bytes 64) : Direntry := ⟨b.word 0, fun i => b.get (4 + i)⟩

/-- The 64 bytes an entry is stored as. -/
def Direntry.toBytes (d : Direntry) : Bytes 64 :=
  Bytes.ofFn fun i => if i < 4 then byteOf d.sfdIno i else d.sfdName.get (i - 4)

/-- `sfs_readdir`. -/
def readdir (ino : UInt32) (slot : ℕ) : Sk Direntry := do
  let b ← metaioRead ino (slot * 64) 64
  pure (Direntry.ofBytes b)

/-- `sfs_writedir`. -/
def writedir (ino : UInt32) (slot : ℕ) (sd : Direntry) : Sk Unit :=
  metaioWrite ino (slot * 64) sd.toBytes

/-- `sfs_dir_nentries`. -/
def dirNentries (ino : UInt32) : Sk ℕ := do
  let sv ← getVnode ino
  kassert (sv.svI.sfiType = sfsTypeDir) .notDirectory
  if sv.svI.sfiSize % 64 ≠ 0 then panic (.dirSize ino sv.svI.sfiSize)
  else pure (sv.svI.sfiSize / 64).toNat

/-- The entry with its name cut off at the end of the field. -/
def Direntry.terminated (d : Direntry) : Direntry :=
  { d with sfdName := Function.update d.sfdName 59 0 }

/-- What `sfs_dir_findname` has found so far. -/
structure Found where
  /-- `*ino` and `*slot`, once the name has been found. -/
  entry : Option (UInt32 × ℕ)
  /-- `*emptyslot`. -/
  emptyslot : Option ℕ

/-- `sfs_dir_findname`; `ENOENT` is returned as no entry. -/
def dirFindname (ino : UInt32) (name : List UInt8) : Sk Found := do
  let nentries ← dirNentries ino
  (List.range nentries).foldlM (fun acc i => do
    let tsd ← readdir ino i
    if tsd.sfdIno = 0 then pure { acc with emptyslot := some i }
    else if tsd.terminated.name = name then do
      kassert (acc.entry = none) .foundTwice
      pure { acc with entry := some (tsd.sfdIno, i) }
    else pure acc) ⟨none, none⟩

/-- `sfs_dir_link`, which hands back the slot. -/
def dirLink (dir : UInt32) (name : List UInt8) (ino : UInt32) : Sk ℕ := do
  let r ← dirFindname dir name
  if r.entry.isSome then fail .eexist
  else if 60 < name.length + 1 then fail .enametoolong
  else do
    let slot ← match r.emptyslot with
      | some slot => pure slot
      | none => dirNentries dir
    writedir dir slot ⟨ino, setCstr Bytes.zero name⟩
    pure slot

/-- `sfs_dir_unlink`. -/
def dirUnlink (dir : UInt32) (slot : ℕ) : Sk Unit := writedir dir slot Direntry.empty

/-- `sfs_lookonce`. -/
def lookonce (dir : UInt32) (name : List UInt8) : Sk (UInt32 × ℕ) := do
  let r ← dirFindname dir name
  match r.entry with
  | none => fail .enoent
  | some (ino, slot) => do
      let ino ← loadvnode ino sfsTypeInval
      let sv ← getVnode ino
      if sv.svI.sfiLinkcount = 0 then panic (.linkcountZero name ino dir)
      else pure (ino, slot)

end Sfs

end Os161
