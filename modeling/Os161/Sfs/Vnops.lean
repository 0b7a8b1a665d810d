import Os161.Sfs.Dir
import Os161.Sfs.FileIo

/-!
# The operations of a mounted volume

`kern/fs/sfs/sfs_vnops.c` and `kern/fs/sfs/sfs_fsops.c`: what can be done with a vnode, syncing, and
mounting.

The function table of a vnode is chosen when it is loaded: a directory has no `read`, `write` and
`truncate`, a file has nothing that takes a name. `Op` lists the calls and `Op.run` dispatches them.
`creat`, `lookup` and `getroot` hand a reference to their caller.
-/

namespace Os161

namespace Sfs

open Prog

/-! ### `sfs_vnops.c` -/

/-- `sfs_creat`. -/
def creat (dir : UInt32) (name : List UInt8) (excl : Bool) : Sk UInt32 := do
  let r ← dirFindname dir name
  match r.entry with
  | some (ino, _) => if excl then fail .eexist else loadvnode ino sfsTypeInval
  | none => do
      let newguy ← makeobj sfsTypeFile
      let r ← trying (dirLink dir name newguy)
      match r with
      | .error e => do
          vopDecref newguy
          fail e
      | .ok _ => do
          modifyInode newguy fun d => { d with sfiLinkcount := d.sfiLinkcount + 1 }
          pure newguy

/-- `sfs_link`. -/
def link (dir : UInt32) (name : List UInt8) (file : UInt32) : Sk Unit := do
  let f ← getVnode file
  if f.svI.sfiType = sfsTypeDir then fail .einval
  else do
    let _ ← dirLink dir name file
    modifyInode file fun d => { d with sfiLinkcount := d.sfiLinkcount + 1 }

/-- `sfs_remove`. -/
def remove (dir : UInt32) (name : List UInt8) : Sk Unit := do
  let (victim, slot) ← lookonce dir name
  let r ← trying (dirUnlink dir slot)
  match r with
  | .ok () => do
      let sv ← getVnode victim
      kassert (0 < sv.svI.sfiLinkcount) .linkcount
      modifyInode victim fun d => { d with sfiLinkcount := d.sfiLinkcount - 1 }
      vopDecref victim
  | .error e => do
      vopDecref victim
      fail e

/-- `sfs_rename`. -/
def rename (d1 : UInt32) (n1 : List UInt8) (d2 : UInt32) (n2 : List UInt8) : Sk Unit := do
  kassert (d1 = d2) .renameDir
  kassert (d1 = sfsRootdirIno) .renameDir
  let (g1, slot1) ← lookonce d1 n1
  let sv ← getVnode g1
  kassert (sv.svI.sfiType = sfsTypeFile) .renameType
  let r ← trying (dirLink d1 n2 g1)
  match r with
  | .error e => do
      vopDecref g1
      fail e
  | .ok slot2 => do
      modifyInode g1 fun d => { d with sfiLinkcount := d.sfiLinkcount + 1 }
      let r ← trying (dirUnlink d1 slot1)
      match r with
      | .ok () => do
          let sv ← getVnode g1
          kassert (0 < sv.svI.sfiLinkcount) .linkcount
          modifyInode g1 fun d => { d with sfiLinkcount := d.sfiLinkcount - 1 }
          vopDecref g1
      | .error e => do
          let r ← trying (dirUnlink d1 slot2)
          match r with
          | .error _ => panic .cannotRecover
          | .ok () => do
              -- the count goes back without marking the inode dirty
              modify fun c => c.setVnode g1 fun sv =>
                { sv with svI := { sv.svI with sfiLinkcount := sv.svI.sfiLinkcount - 1 } }
              vopDecref g1
              fail e

/-- `sfs_lookup`. -/
def lookup (dir : UInt32) (path : List UInt8) : Sk UInt32 := do
  let sv ← getVnode dir
  if sv.svI.sfiType ≠ sfsTypeDir then fail .enotdir
  else do
    let (final, _) ← lookonce dir path
    pure final

/-- The file types of `kern/stattypes.h` that SFS has. -/
inductive Mode where
  /-- `S_IFREG` -/
  | ifreg
  /-- `S_IFDIR` -/
  | ifdir
  deriving DecidableEq

/-- `struct stat`, as far as `sfs_stat` fills it in; the other fields are zero. -/
structure Stat where
  /-- `st_size`. -/
  stSize : ℤ
  /-- `st_mode`. -/
  stMode : Mode
  /-- `st_nlink`. -/
  stNlink : UInt16
  /-- `st_blocks`. -/
  stBlocks : UInt32

/-- `sfs_gettype`. -/
def gettype (ino : UInt32) : Sk Mode := do
  let sv ← getVnode ino
  if sv.svI.sfiType = sfsTypeFile then pure .ifreg
  else if sv.svI.sfiType = sfsTypeDir then pure .ifdir
  else panic (.gettype sv.svIno sv.svI.sfiType)

/-- `sfs_stat`. -/
def stat (ino : UInt32) : Sk Stat := do
  let mode ← gettype ino
  let sv ← getVnode ino
  pure ⟨sv.svI.sfiSize.toNat, mode, sv.svI.sfiLinkcount, 0⟩

/-- `sfs_fsync`. -/
def fsync (ino : UInt32) : Sk Unit := syncInode ino

/-- `sfs_truncate`. -/
def truncate (ino : UInt32) (len : ℤ) : Sk Unit := itrunc ino len

/-! ### `sfs_fsops.c` -/

/-- Block `j` of the freemap in memory. -/
def freemapBlock (map : Bitmap) (j : ℕ) : Block := Bytes.ofFn fun i => map.v (512 * j + i)

/-- `sfs_freemapio`, writing. -/
def freemapWrite : Sk Unit := do
  let s ← get
  (List.range (sfsFreemapblocks s.mount.sfsSb.sbNblocks).toNat).foldlM (fun _ j =>
    writeblock (sfsFreemapStart + UInt32.ofNat j) (freemapBlock s.sfsFreemap j)) ()

/-- The bitmap with block `j` of the freemap read in. -/
def loadFreemapBlock (map : Bitmap) (j : ℕ) (b : Block) : Bitmap :=
  { map with v := fun ix => if ix / 512 = j then b.get (ix % 512) else map.v ix }

/-- `sfs_freemapio`, reading. -/
def freemapRead : Sk Unit := do
  let s ← get
  (List.range (sfsFreemapblocks s.mount.sfsSb.sbNblocks).toNat).foldlM (fun _ j => do
    let b ← readblock (sfsFreemapStart + UInt32.ofNat j)
    modify fun c => { c with sfsFreemap := loadFreemapBlock c.sfsFreemap j b }) ()

/-- `sfs_sync_vnodes`, which does not look at what `VOP_FSYNC` returns. -/
def syncVnodes : Sk Unit := do
  let s ← get
  s.sfsVnodes.foldlM (fun _ sv => do
    let _ ← trying (fsync sv.svIno)
    pure ()) ()

/-- `sfs_sync_freemap`. -/
def syncFreemap : Sk Unit := do
  let s ← get
  if s.sfsFreemapdirty then do
    freemapWrite
    modify fun c => { c with sfsFreemapdirty := false }
  else pure ()

/-- `sfs_sync_superblock`. -/
def syncSuperblock : Sk Unit := do
  let s ← get
  if s.sfsSuperdirty then do
    writeblock sfsSuperBlock s.mount.sfsSb.toBlock
    modify fun c => { c with sfsSuperdirty := false }
  else pure ()

/-- `sfs_sync`. -/
def sync : Sk Unit := do
  syncVnodes
  syncFreemap
  syncSuperblock

/-- `struct sfs_fs` as `sfs_fs_create` leaves it, with the superblock and an empty freemap. -/
def fsCreate (world : World) (dBlocks : UInt32) (disk : Disk) (sb : Superblock) (map : Bitmap)
    (tick : ℕ) : State where
  disk := disk
  sfsVnodes := []
  sfsFreemap := map
  sfsFreemapdirty := false
  sfsSuperdirty := false
  uio := Uio.uioKinit [] 0 0 .read
  tick := tick
  writes := 0
  mount := ⟨world, dBlocks, sb⟩

/-- The superblock with its volume name cut off at the end of the field. -/
def Superblock.terminated (sb : Superblock) : Superblock :=
  { sb with sbVolname := Function.update sb.sbVolname 31 0 }

/-- `sfs_domount`, on a device of `dBlocks` sectors of the right size. -/
def domount (world : World) (dBlocks : UInt32) (disk : Disk) : Except Stop State :=
  -- only the device is used in reading the superblock
  let s0 := fsCreate world dBlocks disk (Superblock.ofBlock Bytes.zero) ⟨0, fun _ => 0⟩ 1
  if world.memory 0 = false then .error (.fail .enomem)
  else match (readblock sfsSuperBlock).run s0 with
  | .halt e _ => .error e
  | .done b s1 =>
    if (Superblock.ofBlock b).sbMagic ≠ sfsMagic then .error (.fail .einval)
    else if world.memory s1.tick = false then .error (.fail .enomem)
    else match Bitmap.create (sfsFreemapbits (Superblock.ofBlock b).sbNblocks) with
    | none => .error (.panic (.kassert .bitmapCreate))
    | some map =>
      match freemapRead.run (fsCreate world dBlocks disk (Superblock.ofBlock b).terminated map
        (s1.tick + 1)) with
      | .halt e _ => .error e
      | .done () s => .ok s

/-! ### Calls -/

/-- The calls on a mounted volume. -/
inductive Op where
  /-- `FS_GETROOT` -/
  | getroot
  /-- `VOP_LOOKUP` -/
  | lookup (dir : UInt32) (path : List UInt8)
  /-- `VOP_CREAT` -/
  | creat (dir : UInt32) (name : List UInt8) (excl : Bool)
  /-- `VOP_LINK` -/
  | link (dir : UInt32) (name : List UInt8) (file : UInt32)
  /-- `VOP_REMOVE` -/
  | remove (dir : UInt32) (name : List UInt8)
  /-- `VOP_RENAME` -/
  | rename (d1 : UInt32) (n1 : List UInt8) (d2 : UInt32) (n2 : List UInt8)
  /-- `VOP_READ` or `VOP_WRITE`, by the direction of the `uio` -/
  | io (v : UInt32) (uio : Uio)
  /-- `VOP_TRUNCATE` -/
  | truncate (v : UInt32) (len : ℤ)
  /-- `VOP_INCREF` -/
  | incref (v : UInt32)
  /-- `VOP_DECREF` -/
  | decref (v : UInt32)
  /-- `VOP_FSYNC` -/
  | fsync (v : UInt32)
  /-- `FS_SYNC` -/
  | sync

/-- The vnodes a call is given. -/
def Op.args : Op → List UInt32
  | .getroot | .sync => []
  | .lookup dir _ | .creat dir _ _ | .remove dir _ => [dir]
  | .link dir _ file => [dir, file]
  | .rename d1 _ d2 _ => [d1, d2]
  | .io v _ | .truncate v _ | .incref v | .decref v | .fsync v => [v]

/-- An entry of `sfs_dirops`; `sfs_fileops` has `vopfail_*_notdir` in its place. -/
def dirop {α : Type} (v : UInt32) (x : Sk α) : Sk α := do
  let sv ← getVnode v
  if sv.svI.sfiType = sfsTypeDir then x else fail .enotdir

/-- An entry of `sfs_fileops`; `sfs_dirops` has `vopfail_*_isdir` in its place. -/
def fileop {α : Type} (v : UInt32) (x : Sk α) : Sk α := do
  let sv ← getVnode v
  if sv.svI.sfiType = sfsTypeDir then fail .eisdir else x

/-- A call; the value is the vnode handed back, if there is one. -/
def Op.run : Op → Sk (Option UInt32)
  | .getroot => some <$> Sfs.getroot
  | .lookup dir path => some <$> dirop dir (Sfs.lookup dir path)
  | .creat dir name excl => some <$> dirop dir (Sfs.creat dir name excl)
  | .link dir name file => (fun _ => none) <$> dirop dir (Sfs.link dir name file)
  | .remove dir name => (fun _ => none) <$> dirop dir (Sfs.remove dir name)
  | .rename d1 n1 d2 n2 => (fun _ => none) <$> dirop d1 (Sfs.rename d1 n1 d2 n2)
  | .io v uio => (fun _ => none) <$> fileop v (do
      modify fun c => { c with uio := uio }
      Sfs.io v)
  | .truncate v len => (fun _ => none) <$> fileop v (Sfs.truncate v len)
  | .incref v => (fun _ => none) <$> vopIncref v
  | .decref v => (fun _ => none) <$> vopDecref v
  | .fsync v => (fun _ => none) <$> Sfs.fsync v
  | .sync => (fun _ => none) <$> Sfs.sync

end Sfs

end Os161
