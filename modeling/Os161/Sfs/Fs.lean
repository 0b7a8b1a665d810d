import Os161.Lib.Prog
import Os161.Kern.Bitmap
import Os161.Kern.Errno
import Os161.Kern.Uio
import Os161.Sfs.Volume

/-!
# A mounted SFS volume

What the kernel keeps of a mounted volume (`struct sfs_fs`, `struct sfs_vnode`), the disk
underneath, and block I/O: `sfs_rwblock`, `sfs_readblock` and `sfs_writeblock` of
`kern/fs/sfs/sfs_io.c` over `lhd_io` of `kern/dev/lamebus/lhd.c`, the only device with sectors of
the right size.

Operations run one at a time, under `vfs_biglock`. A pointer to a vnode is modelled by the vnode's
inode number, since the table never has two vnodes of one number; using a pointer whose vnode is
gone is a stop of its own, `Panic.stale`.

## The outside world

`World` says which commands the disk carries out, which requests for memory are granted and which
copies to and from user space work. Commands to write are numbered on their own, `writes`; all else
is asked with a running number, `tick`. A sector that a failed command was to write keeps its
contents. So the commands to write that a call gives the disk are those from `writes` before it to
`writes` after it.

## Retries

`sfs_rwblock` repeats a request that failed, with the same `uio`. For a read this is as intended.
For a write `lhd_io` has by then taken the data out of the `uio`, so the repeated request is for no
sectors at all and succeeds: `run_writeblock` shows that `sfs_writeblock` reports success whether or
not the disk has carried the command out.

## Main results

* `run_writeblock`, `wp_readblock`
-/

namespace Os161

namespace Sfs

/-! ### Stopping -/

/-- The `KASSERT`s of the modelled code that depend on data. -/
inductive Kassert where
  /-- `bitmap_create` -/
  | bitmapCreate
  /-- `bitmap_alloc` -/
  | bitmapAlloc
  /-- `bitmap_unmark` -/
  | bitmapUnmark
  /-- `sfs_loadvnode`: `forcetype==SFS_TYPE_INVAL` for an inode that is loaded -/
  | forcetypeLoaded
  /-- `sfs_loadvnode`: `sfi_type == SFS_TYPE_INVAL` for a new object -/
  | forcetypeFresh
  /-- `sfs_dir_nentries`: the object is a directory -/
  | notDirectory
  /-- `sfs_dir_findname`: `found==0` -/
  | foundTwice
  /-- `sfs_metaio`, `sfs_partialio`, `sfs_blockio`: only a read finds no block -/
  | writeHole
  /-- `sfs_partialio`: `skipstart + len <= SFS_BLOCKSIZE` -/
  | partialRange
  /-- `sfs_blockio`: `uio_resid >= SFS_BLOCKSIZE` -/
  | blockResid
  /-- `sfs_io`: `uio_resid > extraresid` -/
  | extraResid
  /-- `sfs_io`: `uio_offset % SFS_BLOCKSIZE == 0` -/
  | unaligned
  /-- `sfs_io`: `uio_resid < SFS_BLOCKSIZE` -/
  | restResid
  /-- `sfs_remove`, `sfs_rename`: `sfi_linkcount > 0` -/
  | linkcount
  /-- `sfs_rename`: `d1==d2`, and it is the root directory -/
  | renameDir
  /-- `sfs_rename`: the object is a file -/
  | renameType
  /-- `vnode_decref`, `sfs_reclaim`, `vnode_cleanup`: the reference count -/
  | refcount
  deriving DecidableEq

/-- Why the kernel panicked. -/
inductive Panic where
  /-- "sfs: %s: DEVOP_IO returned EINVAL" -/
  | devopEinval
  /-- "sfs: %s: balloc: invalid block %u" -/
  | invalidBlock (block : UInt32)
  /-- "sfs: %s: sfs_bused called on out of range block %u" -/
  | busedRange (block : UInt32)
  /-- "sfs: %s: Data block %u (block %u of file %u) marked free" -/
  | markedFree (block fileblock ino : UInt32)
  /-- "sfs: %s: directory %u: Invalid size %llu" -/
  | dirSize (ino size : UInt32)
  /-- "sfs: %s: Found inode %u in unallocated block" -/
  | foundUnallocated (ino : UInt32)
  /-- "sfs: %s: Tried to load inode %u from unallocated block" -/
  | loadUnallocated (ino : UInt32)
  /-- "sfs: %s: loadvnode: Invalid inode type (inode %u, type %u)" -/
  | invalidType (ino : UInt32) (type : UInt16)
  /-- "sfs: %s: gettype: Invalid inode type (inode %u, type %u)" -/
  | gettype (ino : UInt32) (type : UInt16)
  /-- "sfs: %s: reclaim vnode %u not in vnode pool" -/
  | notInPool (ino : UInt32)
  /-- "sfs: %s: name %s (inode %u) in dir %u has linkcount 0" -/
  | linkcountZero (name : List UInt8) (ino dir : UInt32)
  /-- "sfs: %s: rename: Cannot recover" -/
  | cannotRecover
  /-- "uiomove: ran out of buffers" -/
  | ranOut
  /-- A failed `KASSERT`. -/
  | kassert (which : Kassert)
  /-- A vnode was used that is not there. -/
  | stale (ino : UInt32)
  deriving DecidableEq

/-- Why a function did not return `0`. -/
inductive Stop where
  /-- It returned an error code. -/
  | fail (e : Errno)
  /-- It did not return. -/
  | panic (p : Panic)
  deriving DecidableEq

/-! ### State -/

/-- `struct sfs_vnode`. -/
structure SfsVnode where
  /-- `sv_ino`. -/
  svIno : UInt32
  /-- `sv_i`. -/
  svI : Dinode
  /-- `sv_dirty`. -/
  svDirty : Bool
  /-- `vn_refcount`, an `int` in C, with room for `2 ^ 31 - 1` references; it is counted without a
  bound here. -/
  vnRefcount : ℕ

/-- What is decided outside the code. -/
structure World where
  /-- The disk carries out the command to read or to write. -/
  media : UioRw → ℕ → Bool
  /-- `kmalloc` grants the request. -/
  memory : ℕ → Bool
  /-- The copy to or from user space works. -/
  copy : ℕ → Bool

/-- What stays the same while a volume is mounted. -/
structure Mount where
  /-- The outside world. -/
  world : World
  /-- `d_blocks` of the device. -/
  dBlocks : UInt32
  /-- `sfs_sb`. -/
  sfsSb : Superblock

/-- What changes while a volume is mounted. -/
structure Core where
  /-- The sectors of the device. -/
  disk : Disk
  /-- `sfs_vnodes`. -/
  sfsVnodes : List SfsVnode
  /-- `sfs_freemap`. -/
  sfsFreemap : Bitmap
  /-- `sfs_freemapdirty`. -/
  sfsFreemapdirty : Bool
  /-- `sfs_superdirty`. -/
  sfsSuperdirty : Bool
  /-- The `uio` being worked on. -/
  uio : Uio
  /-- How often the outside world has been asked, but for the commands to write. -/
  tick : ℕ

/-- A mounted volume. -/
structure State extends Core where
  /-- What stays the same. -/
  mount : Mount
  /-- How many commands to write the disk has been given. -/
  writes : ℕ

/-- What every operation keeps: the mount, and that a command that was given has been given. -/
def fsGrowth : Growth State where
  le s t := s.mount = t.mount ∧ s.writes ≤ t.writes
  refl _ := ⟨rfl, Nat.le_refl _⟩
  trans h h' := ⟨h.1.trans h'.1, h.2.trans h'.2⟩

/-- Programs on a mounted volume. -/
abbrev Sk (α : Type) := Prog fsGrowth Stop α

open Prog

/-- Change the part of the state that may change. -/
def modify (f : Core → Core) : Sk Unit :=
  update (fun s => { s with toCore := f s.toCore }) fun _ => ⟨rfl, Nat.le_refl _⟩

/-- `return e`. -/
def fail {α : Type} (e : Errno) : Sk α := halt (.fail e)

/-- `panic`. -/
def panic {α : Type} (p : Panic) : Sk α := halt (.panic p)

/-- `KASSERT`. -/
def kassert (p : Prop) [Decidable p] (which : Kassert) : Sk Unit :=
  if p then pure () else panic (.kassert which)

/-- Run `x` and look at the code it returns. A panic is not looked at. -/
def trying {α : Type} (x : Sk α) : Sk (Except Errno α) where
  run s := match x.run s with
    | .done a t => .done (.ok a) t
    | .halt (.fail e) t => .done (.error e) t
    | .halt (.panic p) t => .halt (.panic p) t
  grows s := by
    have hx := x.grows s
    cases h : x.run s with
    | done a t =>
      rw [h] at hx
      exact hx
    | halt e t =>
      rw [h] at hx
      cases e <;> exact hx

/-! ### The device -/

/-- Whether the next command to read, request or copy works. -/
def ask (which : World → ℕ → Bool) : Sk Bool := do
  let s ← get
  modify fun c => { c with tick := c.tick + 1 }
  pure (which s.mount.world s.tick)

/-- Give the disk a command to write. -/
def askWrite : Sk Bool := do
  let s ← get
  update (fun s => { s with writes := s.writes + 1 }) fun _ => ⟨rfl, Nat.le_succ _⟩
  pure (s.mount.world.media .write s.writes)

/-- The block with the given bytes. -/
def blockOfList (l : List UInt8) : Block := Bytes.ofFn fun i => l.getD i 0

/-- `uiomove`, on the `uio` being worked on. -/
def uiomove (buf : List UInt8) : Sk (List UInt8) := do
  let s ← get
  let r := s.uio.uiomove s.mount.world.copy buf s.tick
  modify fun c => { c with uio := r.uio, tick := r.tick }
  match r.stop with
  | none => pure r.buf
  | some .efault => fail .efault
  | some .ranOut => panic .ranOut

/-- `uiomovezeros`. -/
def uiomovezeros (n : ℕ) : Sk Unit := do
  let s ← get
  let r := s.uio.uiomovezeros s.mount.world.copy n s.tick
  modify fun c => { c with uio := r.uio, tick := r.tick }
  match r.stop with
  | none => pure ()
  | some .efault => fail .efault
  | some .ranOut => panic .ranOut

/-- One round of the loop of `lhd_io`. -/
def lhdSector (rw : UioRw) (sector : UInt32) : Sk Unit :=
  match rw with
  | .write => do
      let buf ← uiomove (List.replicate 512 0)
      let ok ← askWrite
      if ok then modify fun c => { c with disk := Function.update c.disk sector (blockOfList buf) }
      else fail .eio
  | .read => do
      let ok ← ask fun w => w.media .read
      if ok then do
        let s ← get
        let _ ← uiomove (List.ofFn (s.disk sector))
        pure ()
      else fail .eio

/-- `lhd_io`. -/
def lhdIo : Sk Unit := do
  let s ← get
  let sector := UInt32.ofNat (s.uio.uioOffset / 512)
  let sectoff := UInt32.ofNat (s.uio.uioOffset % 512)
  let len := s.uio.uioResid / 512
  let lenoff := s.uio.uioResid % 512
  if sectoff ≠ 0 ∨ lenoff ≠ 0 then fail .einval
  else if s.mount.dBlocks < sector + len then fail .einval
  else (List.range len.toNat).foldlM (fun _ i =>
    lhdSector s.uio.uioRw (sector + UInt32.ofNat i)) ()

/-- One round of `sfs_rwblock`; `again` is what happens after an I/O error. -/
def rwblockTry (again : Sk Unit) : Sk Unit := do
  let r ← trying lhdIo
  match r with
  | .ok () => pure ()
  | .error .einval => panic .devopEinval
  | .error .eio => again
  | .error e => fail e

/-- `sfs_rwblock` with a number of retries left. -/
def rwblockLoop : ℕ → Sk Unit
  | 0 => rwblockTry (fail .eio)
  | retries + 1 => rwblockTry (rwblockLoop retries)

/-- `sfs_rwblock`. -/
def rwblock : Sk Unit := rwblockLoop 10

/-- A request on a `uio` of the kernel's own; the caller's is put aside meanwhile. -/
def withUio (ku : Uio) : Sk Uio := do
  let s ← get
  modify fun c => { c with uio := ku }
  let r ← trying rwblock
  let t ← get
  modify fun c => { c with uio := s.uio }
  match r with
  | .ok () => pure t.uio
  | .error e => fail e

/-- `sfs_readblock`. -/
def readblock (block : UInt32) : Sk Block := do
  let ku ← withUio (Uio.uioKinit [] 512 (block.toNat * 512) .read)
  pure (blockOfList ku.dst)

/-- `sfs_writeblock`. -/
def writeblock (block : UInt32) (data : Block) : Sk Unit := do
  let _ ← withUio (Uio.uioKinit (List.ofFn data) 512 (block.toNat * 512) .write)
  pure ()

/-! ### Vnodes -/

/-- The vnode with a given inode number, if it is loaded. -/
def Core.vnode? (c : Core) (ino : UInt32) : Option SfsVnode :=
  c.sfsVnodes.find? fun sv => sv.svIno = ino

/-- The vnode a pointer leads to. -/
def getVnode (ino : UInt32) : Sk SfsVnode := do
  let s ← get
  match s.vnode? ino with
  | some sv => pure sv
  | none => panic (.stale ino)

/-- Change the vnode a pointer leads to. -/
def Core.setVnode (c : Core) (ino : UInt32) (f : SfsVnode → SfsVnode) : Core :=
  { c with sfsVnodes := c.sfsVnodes.map fun sv => if sv.svIno = ino then f sv else sv }

/-- Change the in-memory inode and mark it dirty. -/
def SfsVnode.dirtied (f : Dinode → Dinode) (sv : SfsVnode) : SfsVnode :=
  { sv with svI := f sv.svI, svDirty := true }

/-- Change the in-memory inode of a vnode and mark it dirty. -/
def modifyInode (ino : UInt32) (f : Dinode → Dinode) : Sk Unit :=
  modify fun c => c.setVnode ino (SfsVnode.dirtied f)

/-! ### Running the parts -/

section Run

variable {α : Type} {s : State}

@[simp] theorem run_modify (f : Core → Core) :
    (modify f).run s = .done () { s with toCore := f s.toCore } := rfl

@[simp] theorem run_fail (e : Errno) : (fail e : Sk α).run s = .halt (.fail e) s := rfl

@[simp] theorem run_panic (p : Panic) : (panic p : Sk α).run s = .halt (.panic p) s := rfl

@[simp] theorem run_ask (which : World → ℕ → Bool) :
    (ask which).run s = .done (which s.mount.world s.tick) { s with tick := s.tick + 1 } := rfl

@[simp] theorem run_askWrite : askWrite.run s =
    .done (s.mount.world.media .write s.writes) { s with writes := s.writes + 1 } := rfl

theorem run_trying (x : Sk α) : (trying x).run s = match x.run s with
    | .done a t => .done (.ok a) t
    | .halt (.fail e) t => .done (.error e) t
    | .halt (.panic p) t => .halt (.panic p) t := rfl

theorem blockOfList_ofFn (b : Block) : blockOfList (List.ofFn b) = b := by
  funext i
  have hi : (i : ℕ) < (List.ofFn b).length := i.isLt.trans_eq List.length_ofFn.symm
  rw [blockOfList, Bytes.ofFn, List.getD_eq_getElem _ _ hi, List.getElem_ofFn]

/-- The request of `sfs_writeblock`. -/
def writeUio (block : UInt32) (l : List UInt8) : Uio :=
  Uio.uioKinit l 512 (block.toNat * 512) .write

/-- The same, once the device has taken the data out of it. -/
def spentUio (block : UInt32) : Uio where
  uioIov := [0]
  uioOffset := block.toNat * 512 + 512
  uioResid := 0
  uioSegflg := .sysspace
  uioRw := .write
  src := []
  dst := []

/-- The request of `sfs_readblock`. -/
def readUio (block : UInt32) : Uio := Uio.uioKinit [] 512 (block.toNat * 512) .read

/-- The same, once the device has put the data into it. -/
def filledUio (block : UInt32) (l : List UInt8) : Uio where
  uioIov := [0]
  uioOffset := block.toNat * 512 + 512
  uioResid := 0
  uioSegflg := .sysspace
  uioRw := .read
  src := []
  dst := l

theorem uiomove_writeUio (copy : ℕ → Bool) (block : UInt32) {l : List UInt8} (hl : l.length = 512)
    {buf : List UInt8} (hbuf : buf.length = 512) (k : ℕ) :
    (writeUio block l).uiomove copy buf k = ⟨spentUio block, l, k, none⟩ := by
  rw [Uio.uiomove_kernel copy rfl (by rw [hbuf]; rfl) (by rw [hbuf]; rfl)
    (List.ne_nil_of_length_eq_add_one hbuf), hbuf]
  simp [writeUio, Uio.uioKinit, Uio.chunk, spentUio, List.drop_eq_nil_of_le hl.le,
    List.take_of_length_le hl.le]

theorem uiomove_readUio (copy : ℕ → Bool) (block : UInt32) {l : List UInt8} (hl : l.length = 512)
    (k : ℕ) : (readUio block).uiomove copy l k = ⟨filledUio block l, l, k, none⟩ := by
  rw [Uio.uiomove_kernel copy rfl (by rw [hl]; rfl) (by rw [hl]; rfl)
    (List.ne_nil_of_length_eq_add_one hl), hl]
  simp [readUio, Uio.uioKinit, Uio.chunk, filledUio, List.take_of_length_le hl.le]

/-- The check of `lhd_io` passes for a sector of the disk. -/
theorem fits_of_lt {sector d : UInt32} (h : sector < d) : ¬d < sector + 1 := by
  have hlt : sector.toNat < d.toNat := h
  have hd := d.toNat_lt
  have h1 : (1 : UInt32).toNat = 1 := rfl
  rw [UInt32.lt_iff_toNat_lt, UInt32.toNat_add]
  omega

/-- A request for one sector. -/
theorem run_lhdIo (sector : UInt32) (hoff : s.uio.uioOffset = sector.toNat * 512)
    (hres : s.uio.uioResid = 512) : lhdIo.run s =
      if s.mount.dBlocks < sector + 1 then .halt (.fail .einval) s
      else (lhdSector s.uio.uioRw sector).run s := by
  have hsector : UInt32.ofNat (s.uio.uioOffset / 512) = sector := by
    rw [hoff, Nat.mul_div_cancel _ (by omega)]
    exact UInt32.ofNat_toNat
  have hsectoff : UInt32.ofNat (s.uio.uioOffset % 512) = 0 := by
    rw [hoff, Nat.mul_mod_left]
    rfl
  rw [lhdIo, run_bind_of_done (run_get s)]
  dsimp only
  rw [hsector, hsectoff, hres, show (512 : UInt32) / 512 = 1 from rfl,
    show (512 : UInt32) % 512 = 0 from rfl, if_neg (by decide)]
  by_cases hnext : s.mount.dBlocks < sector + 1
  · rw [if_pos hnext, if_pos hnext]
    rfl
  · rw [if_neg hnext, if_neg hnext, show (1 : UInt32).toNat = 1 from rfl, List.range_one,
      List.foldlM_cons, show sector + UInt32.ofNat 0 = sector from UInt32.add_zero sector]
    exact congrArg (fun x : Sk Unit => x.run s) (bind_pure _)

/-- A request for nothing. -/
theorem run_lhdIo_zero {q : ℕ} (hoff : s.uio.uioOffset = q * 512) (hres : s.uio.uioResid = 0)
    (hd : ¬s.mount.dBlocks < UInt32.ofNat q) : lhdIo.run s = .done () s := by
  have hsectoff : UInt32.ofNat (s.uio.uioOffset % 512) = 0 := by
    rw [hoff, Nat.mul_mod_left]
    rfl
  have hnext : ¬s.mount.dBlocks < UInt32.ofNat (s.uio.uioOffset / 512) + 0 := by
    rwa [UInt32.add_zero, hoff, Nat.mul_div_cancel _ (by omega)]
  rw [lhdIo, run_bind_of_done (run_get s)]
  dsimp only
  rw [hsectoff, hres, show (0 : UInt32) / 512 = 0 from rfl, show (0 : UInt32) % 512 = 0 from rfl,
    if_neg (by decide), if_neg hnext]
  rfl

/-- The state after the device has taken the data of a block out of the request. -/
theorem run_lhdSector_write {block sector : UInt32} {l : List UInt8} (hl : l.length = 512)
    (hu : s.uio = writeUio block l) : (lhdSector .write sector).run s =
      if s.mount.world.media .write s.writes then
        .done () { s with
          uio := spentUio block, writes := s.writes + 1
          disk := Function.update s.disk sector (blockOfList l) }
      else .halt (.fail .eio) { s with uio := spentUio block, writes := s.writes + 1 } := by
  have hmove : (uiomove (List.replicate 512 0)).run s =
      .done l { s with uio := spentUio block } := by
    rw [uiomove, run_bind_of_done (run_get s), hu,
      uiomove_writeUio _ _ hl List.length_replicate]
    rfl
  rw [lhdSector, run_bind_of_done hmove, run_bind_of_done run_askWrite]
  by_cases hm : s.mount.world.media .write s.writes = true
  · rw [if_pos hm, if_pos hm]
    rfl
  · rw [if_neg hm, if_neg hm]
    rfl

theorem run_lhdSector_read {block sector : UInt32} (hu : s.uio = readUio block) :
    (lhdSector .read sector).run s =
      if s.mount.world.media .read s.tick then
        .done () { s with
          uio := filledUio block (List.ofFn (s.disk sector)), tick := s.tick + 1 }
      else .halt (.fail .eio) { s with tick := s.tick + 1 } := by
  rw [lhdSector, run_bind_of_done (run_ask _)]
  by_cases hm : s.mount.world.media .read s.tick = true
  · have hmove : ∀ l : List UInt8, l.length = 512 →
        (uiomove l).run { s with tick := s.tick + 1 } =
          .done l { s with uio := filledUio block l, tick := s.tick + 1 } := by
      intro l hl
      rw [uiomove, run_bind_of_done (run_get _)]
      dsimp only
      rw [hu, uiomove_readUio _ _ hl]
      rfl
    rw [if_pos hm, if_pos hm, run_bind_of_done (run_get _),
      run_bind_of_done (hmove _ List.length_ofFn)]
    rfl
  · rw [if_neg hm, if_neg hm]
    rfl

/-- A round of `sfs_rwblock` that ends it. -/
theorem run_rwblockTry_done {again : Sk Unit} {t : State} (h : lhdIo.run s = .done () t) :
    (rwblockTry again).run s = .done () t := by
  have htry : (trying lhdIo).run s = .done (.ok ()) t := by rw [run_trying, h]
  rw [rwblockTry, run_bind_of_done htry]
  rfl

/-- A round of `sfs_rwblock` with an I/O error. -/
theorem run_rwblockTry_eio {again : Sk Unit} {t : State} (h : lhdIo.run s = .halt (.fail .eio) t) :
    (rwblockTry again).run s = again.run t := by
  have htry : (trying lhdIo).run s = .done (.error .eio) t := by rw [run_trying, h]
  rw [rwblockTry, run_bind_of_done htry]

/-- The disk after a request to write a block. -/
def State.written (s : State) (block : UInt32) (data : Block) : Disk :=
  if s.mount.world.media .write s.writes then Function.update s.disk block data else s.disk

/-- `sfs_rwblock` writing. Where the device fails, the second round is for no sectors. -/
theorem run_rwblock_write {block : UInt32} (hd : ¬s.mount.dBlocks < block + 1) {l : List UInt8}
    (hl : l.length = 512) (hu : s.uio = writeUio block l) :
    rwblock.run s = .done () { s with
      uio := spentUio block, writes := s.writes + 1, disk := s.written block (blockOfList l) } := by
  have hfirst : lhdIo.run s = (lhdSector .write block).run s := by
    have h := run_lhdIo (s := s) block (by rw [hu]; rfl) (by rw [hu]; rfl)
    rwa [if_neg hd, hu] at h
  rw [run_lhdSector_write hl hu] at hfirst
  rw [rwblock, rwblockLoop, State.written]
  by_cases hm : s.mount.world.media .write s.writes = true
  · rw [if_pos hm] at hfirst ⊢
    exact run_rwblockTry_done hfirst
  · rw [if_neg hm] at hfirst ⊢
    rw [run_rwblockTry_eio hfirst, rwblockLoop]
    refine run_rwblockTry_done (run_lhdIo_zero (q := block.toNat + 1) ?_ rfl ?_)
    · change block.toNat * 512 + 512 = _
      omega
    · rwa [UInt32.ofNat_add, UInt32.ofNat_toNat]

/-- **A write is reported as done whether or not it was.** -/
theorem run_writeblock_fits {block : UInt32} (hd : ¬s.mount.dBlocks < block + 1) (data : Block) :
    (writeblock block data).run s =
      .done () { s with disk := s.written block data, writes := s.writes + 1 } := by
  have hrw := run_rwblock_write (s := { s with uio := writeUio block (List.ofFn data) }) hd
    List.length_ofFn rfl
  rw [blockOfList_ofFn] at hrw
  have hwith : (withUio (writeUio block (List.ofFn data))).run s =
      .done (spentUio block) { s with disk := s.written block data, writes := s.writes + 1 } := by
    have htry : (trying rwblock).run { s with uio := writeUio block (List.ofFn data) } =
        .done (.ok ()) { s with
          uio := spentUio block, writes := s.writes + 1, disk := s.written block data } := by
      rw [run_trying, hrw]
      rfl
    rw [withUio, run_bind_of_done (run_get s), run_bind_of_done (run_modify _),
      run_bind_of_done htry]
    rfl
  rw [writeblock, ← writeUio, run_bind_of_done hwith]
  rfl

theorem run_writeblock {block : UInt32} (hd : block < s.mount.dBlocks) (data : Block) :
    (writeblock block data).run s =
      .done () { s with disk := s.written block data, writes := s.writes + 1 } :=
  run_writeblock_fits (fits_of_lt hd) data

/-- A request past the end of the disk. -/
theorem run_withUio_past {block : UInt32} (hd : s.mount.dBlocks < block + 1) {ku : Uio}
    (hoff : ku.uioOffset = block.toNat * 512) (hres : ku.uioResid = 512) :
    (withUio ku).run s = .halt (.panic .devopEinval) { s with uio := ku } := by
  have hrw : rwblock.run { s with uio := ku } =
      .halt (.panic .devopEinval) { s with uio := ku } := by
    have htry : (trying lhdIo).run { s with uio := ku } =
        .done (.error .einval) { s with uio := ku } := by
      rw [run_trying, run_lhdIo (s := { s with uio := ku }) block hoff hres, if_pos hd]
    rw [rwblock, rwblockLoop, rwblockTry, run_bind_of_done htry]
    rfl
  have htry : (trying rwblock).run { s with uio := ku } =
      .halt (.panic .devopEinval) { s with uio := ku } := by rw [run_trying, hrw]
  rw [withUio, run_bind_of_done (run_get s), run_bind_of_done (run_modify _),
    run_bind_of_halt htry]

/-- A write never returns an error. -/
theorem run_writeblock_cases (block : UInt32) (data : Block) :
    (writeblock block data).run s =
      .done () { s with disk := s.written block data, writes := s.writes + 1 } ∨
    (writeblock block data).run s = .halt (.panic .devopEinval)
      { s with uio := writeUio block (List.ofFn data) } := by
  by_cases hd : s.mount.dBlocks < block + 1
  · refine Or.inr ?_
    rw [writeblock, ← writeUio, run_bind_of_halt (run_withUio_past hd rfl rfl)]
  · exact Or.inl (run_writeblock_fits hd data)

theorem run_lhdIo_read {block : UInt32} (hd : ¬s.mount.dBlocks < block + 1)
    (hu : s.uio = readUio block) : lhdIo.run s =
      if s.mount.world.media .read s.tick then
        .done () { s with
          uio := filledUio block (List.ofFn (s.disk block)), tick := s.tick + 1 }
      else .halt (.fail .eio) { s with tick := s.tick + 1 } := by
  rw [run_lhdIo block (by rw [hu]; rfl) (by rw [hu]; rfl), if_neg hd, ← run_lhdSector_read hu, hu]
  rfl

/-- The disk carries out none of the next `n + 1` commands to read. -/
def State.Unread (s : State) (n : ℕ) : Prop :=
  ∀ i ≤ n, s.mount.world.media .read (s.tick + i) = false

/-- The disk carries out no command to read as often as `sfs_rwblock` tries. -/
def State.ReadFails (s : State) : Prop := s.Unread 10

theorem State.Unread.first {n : ℕ} (h : s.Unread n) : s.mount.world.media .read s.tick = false :=
  h 0 (Nat.zero_le n)

theorem State.unread_succ_iff (n : ℕ) : s.Unread (n + 1) ↔
    s.mount.world.media .read s.tick = false ∧ State.Unread { s with tick := s.tick + 1 } n := by
  constructor
  · intro h
    refine ⟨h.first, fun i hi => ?_⟩
    have := h (i + 1) (Nat.succ_le_succ hi)
    rwa [← Nat.add_assoc, Nat.add_right_comm] at this
  · rintro ⟨h0, h⟩ i hi
    cases i with
    | zero => exact h0
    | succ i =>
      have := h i (Nat.le_of_succ_le_succ hi)
      rwa [Nat.add_right_comm, Nat.add_assoc] at this

/-- `sfs_rwblock` reading, with any number of retries. -/
theorem run_rwblockLoop_read {block : UInt32} (hd : ¬s.mount.dBlocks < block + 1)
    (hu : s.uio = readUio block) (retries : ℕ) :
    (∃ k, (rwblockLoop retries).run s = .done () { s with
      uio := filledUio block (List.ofFn (s.disk block)), tick := k } ∧ ¬s.Unread retries) ∨
    ∃ k, (rwblockLoop retries).run s = .halt (.fail .eio) { s with tick := k } ∧
      s.Unread retries := by
  induction retries generalizing s with
  | zero =>
    have hround := run_lhdIo_read hd hu
    rw [rwblockLoop]
    by_cases hm : s.mount.world.media .read s.tick = true
    · rw [if_pos hm] at hround
      exact Or.inl ⟨_, run_rwblockTry_done hround,
        fun h => Bool.noConfusion (hm.symm.trans h.first)⟩
    · rw [if_neg hm] at hround
      refine Or.inr ⟨_, run_rwblockTry_eio hround, fun i hi => ?_⟩
      obtain rfl := Nat.le_zero.mp hi
      exact Bool.eq_false_of_not_eq_true hm
  | succ retries ih =>
    have hround := run_lhdIo_read hd hu
    rw [rwblockLoop]
    by_cases hm : s.mount.world.media .read s.tick = true
    · rw [if_pos hm] at hround
      exact Or.inl ⟨_, run_rwblockTry_done hround,
        fun h => Bool.noConfusion (hm.symm.trans h.first)⟩
    · rw [if_neg hm] at hround
      rw [run_rwblockTry_eio hround]
      have hm := Bool.eq_false_of_not_eq_true hm
      rcases ih (s := { s with tick := s.tick + 1 }) hd hu with ⟨k, hk, hread⟩ | ⟨k, hk, hunread⟩
      · exact Or.inl ⟨k, hk, fun h => hread ((State.unread_succ_iff retries).mp h).2⟩
      · exact Or.inr ⟨k, hk, (State.unread_succ_iff retries).mpr ⟨hm, hunread⟩⟩

/-- The tick after `sfs_rwblock` has read or given up. -/
def readEnd (media : ℕ → Bool) : ℕ → ℕ → ℕ
  | 0, k => k + 1
  | retries + 1, k => if media k then k + 1 else readEnd media retries (k + 1)

theorem tick_rwblockLoop_read {block : UInt32} (hd : ¬s.mount.dBlocks < block + 1)
    (hu : s.uio = readUio block) (retries : ℕ) : ((rwblockLoop retries).run s).state.tick =
      readEnd (s.mount.world.media .read) retries s.tick := by
  induction retries generalizing s with
  | zero =>
    have hround := run_lhdIo_read hd hu
    rw [rwblockLoop, readEnd]
    by_cases hm : s.mount.world.media .read s.tick = true
    · rw [if_pos hm] at hround
      rw [run_rwblockTry_done hround]
      rfl
    · rw [if_neg hm] at hround
      rw [run_rwblockTry_eio hround]
      rfl
  | succ retries ih =>
    have hround := run_lhdIo_read hd hu
    rw [rwblockLoop, readEnd]
    by_cases hm : s.mount.world.media .read s.tick = true
    · rw [if_pos hm] at hround
      rw [run_rwblockTry_done hround, if_pos hm]
      rfl
    · rw [if_neg hm] at hround
      rw [run_rwblockTry_eio hround, if_neg hm]
      exact ih (s := { s with tick := s.tick + 1 }) hd hu

/-- The state after a request to read a block. -/
def State.readAt (s : State) : State :=
  { s with tick := readEnd (s.mount.world.media .read) 10 s.tick }

/-- A read delivers the block, or fails because the disk did. -/
theorem run_readblock_end {block : UInt32} (hd : ¬s.mount.dBlocks < block + 1) :
    (readblock block).run s = .done (s.disk block) s.readAt ∧ ¬s.ReadFails ∨
      (readblock block).run s = .halt (.fail .eio) s.readAt ∧ s.ReadFails := by
  have hwith : ∀ r t, (trying rwblock).run { s with uio := readUio block } = .done r t →
      (withUio (readUio block)).run s =
        (match r with
          | .ok () => (pure t.uio : Sk Uio)
          | .error e => fail e).run { t with uio := s.uio } := by
    intro r t h
    rw [withUio, run_bind_of_done (run_get s), run_bind_of_done (run_modify _), run_bind_of_done h]
    rfl
  have htick := tick_rwblockLoop_read (s := { s with uio := readUio block }) hd rfl 10
  rcases run_rwblockLoop_read (s := { s with uio := readUio block }) hd rfl 10 with
    ⟨k, hk, hread⟩ | ⟨k, hk, hunread⟩
  · have h := hwith (.ok ()) _ (by rw [run_trying, rwblock, hk])
    rw [hk] at htick
    obtain rfl : k = _ := htick
    refine Or.inl ⟨?_, hread⟩
    rw [readblock, ← readUio, run_bind_of_done h, run_pure]
    dsimp only [filledUio]
    rw [blockOfList_ofFn]
    rfl
  · have h := hwith (.error .eio) _ (by rw [run_trying, rwblock, hk])
    rw [hk] at htick
    obtain rfl : k = _ := htick
    refine Or.inr ⟨?_, hunread⟩
    rw [readblock, ← readUio, run_bind_of_halt h]
    rfl

theorem run_readblock_fits {block : UInt32} (hd : ¬s.mount.dBlocks < block + 1) :
    (∃ k, (readblock block).run s = .done (s.disk block) { s with tick := k } ∧ ¬s.ReadFails) ∨
      ∃ k, (readblock block).run s = .halt (.fail .eio) { s with tick := k } ∧ s.ReadFails :=
  (run_readblock_end hd).imp (fun h => ⟨_, h⟩) fun h => ⟨_, h⟩

theorem run_readblock (block : UInt32) (hd : block < s.mount.dBlocks) :
    (∃ k, (readblock block).run s = .done (s.disk block) { s with tick := k }) ∨
      ∃ k, (readblock block).run s = .halt (.fail .eio) { s with tick := k } ∧
        s.mount.world.media .read s.tick = false := by
  rcases run_readblock_fits (fits_of_lt hd) with ⟨k, hk, -⟩ | ⟨k, hk, hunread⟩
  · exact Or.inl ⟨k, hk⟩
  · exact Or.inr ⟨k, hk, hunread.first⟩

theorem run_readblock_past {block : UInt32} (hd : s.mount.dBlocks < block + 1) :
    (readblock block).run s = .halt (.panic .devopEinval) { s with uio := readUio block } := by
  rw [readblock, ← readUio, run_bind_of_halt (run_withUio_past hd rfl rfl)]

/-- A read of any block, also past the end of the disk. -/
theorem run_readblock_cases (block : UInt32) :
    (∃ k, (readblock block).run s = .done (s.disk block) { s with tick := k } ∧ ¬s.ReadFails ∧
      ¬s.mount.dBlocks < block + 1) ∨
    (∃ k, (readblock block).run s = .halt (.fail .eio) { s with tick := k } ∧ s.ReadFails) ∨
    (readblock block).run s = .halt (.panic .devopEinval) { s with uio := readUio block } ∧
      s.mount.dBlocks < block + 1 := by
  by_cases hd : s.mount.dBlocks < block + 1
  · exact Or.inr (Or.inr ⟨run_readblock_past hd, hd⟩)
  · rcases run_readblock_fits hd with ⟨k, hk, hread⟩ | h
    · exact Or.inl ⟨k, hk, hread, hd⟩
    · exact Or.inr (Or.inl h)

end Run

/-! ### Weakest preconditions -/

section Wp

variable {α β : Type} {W : Watch fsGrowth} {Q : α → State → Prop} {E : Stop → State → Prop}
  {s : State}

theorem wp_of_run_done {x : Sk α} {a : α} {t : State} (hx : x.run s = .done a t) (h : Q a t) :
    wp W x Q E s := by
  refine ⟨fun _ => ?_⟩
  rw [hx]
  exact h

theorem wp_of_run_halt {x : Sk α} {e : Stop} {t : State} (hx : x.run s = .halt e t) (h : E e t) :
    wp W x Q E s := by
  refine ⟨fun _ => ?_⟩
  rw [hx]
  exact h

/-- A run that cannot stop finishes. -/
theorem done_of_wp {x : Sk α} (h : wp (Watch.any fsGrowth) x Q (fun _ _ => False) s) :
    ∃ a t, x.run s = .done a t ∧ Q a t ∧ t.mount = s.mount := by
  have hsat := sat_of_wp h
  have hgrow := x.grows s
  cases hx : x.run s with
  | done a t =>
    rw [hx] at hsat hgrow
    exact ⟨a, t, rfl, hsat, hgrow.1.symm⟩
  | halt e t =>
    rw [hx] at hsat
    exact hsat.elim

theorem wp_fail {e : Errno} (h : E (.fail e) s) : wp W (fail e : Sk α) Q E s :=
  wp_halt fun _ => h

theorem wp_panic {p : Panic} (h : E (.panic p) s) : wp W (panic p : Sk α) Q E s :=
  wp_halt fun _ => h

theorem wp_modify {f : Core → Core} {R : Unit → State → Prop}
    (h : R () { s with toCore := f s.toCore }) : wp W (modify f) R E s :=
  wp_update fun _ => h

theorem wp_kassert {p : Prop} [Decidable p] {which : Kassert} {R : Unit → State → Prop} (hp : p)
    (h : R () s) : wp W (kassert p which) R E s := by
  rw [kassert, if_pos hp]
  exact wp_pure fun _ => h

theorem wp_askWrite {R : Bool → State → Prop}
    (h : R (s.mount.world.media .write s.writes) { s with writes := s.writes + 1 }) :
    wp W askWrite R E s :=
  wp_of_run_done run_askWrite h

theorem wp_ask {which : World → ℕ → Bool} {R : Bool → State → Prop}
    (h : R (which s.mount.world s.tick) { s with tick := s.tick + 1 }) : wp W (ask which) R E s :=
  wp_of_run_done (run_ask which) h

/-- A caller that looks at the code returned. -/
theorem wp_trying {x : Sk α} {R : Except Errno α → State → Prop}
    (h : wp W x (fun a t => R (.ok a) t)
      (fun e t => match e with
        | .fail e => R (.error e) t
        | .panic p => E (.panic p) t) s) : wp W (trying x) R E s := by
  refine ⟨fun hok => ?_⟩
  rw [run_trying] at hok ⊢
  cases hx : x.run s with
  | done a t =>
    rw [hx] at hok
    have := h.sat (by rw [hx]; exact hok)
    rwa [hx] at this
  | halt e t =>
    cases e with
    | fail e =>
      rw [hx] at hok
      have := h.sat (by rw [hx]; exact hok)
      rwa [hx] at this
    | panic p =>
      rw [hx] at hok
      have := h.sat (by rw [hx]; exact hok)
      rwa [hx] at this

theorem wp_readblock {block : UInt32} {R : Block → State → Prop} (hd : block < s.mount.dBlocks)
    (hok : ∀ k, R (s.disk block) { s with tick := k })
    (hfail : s.mount.world.media .read s.tick = false → ∀ k, E (.fail .eio) { s with tick := k }) :
    wp W (readblock block) R E s := by
  rcases run_readblock _ hd with ⟨k, hk⟩ | ⟨k, hk, hm⟩
  · exact wp_of_run_done hk (hok k)
  · exact wp_of_run_halt hk (hfail hm k)

theorem wp_writeblock {block : UInt32} {data : Block} {R : Unit → State → Prop}
    (hd : block < s.mount.dBlocks)
    (h : R () { s with disk := s.written block data, writes := s.writes + 1 }) :
    wp W (writeblock block data) R E s :=
  wp_of_run_done (run_writeblock hd data) h

end Wp

end Sfs

end Os161
