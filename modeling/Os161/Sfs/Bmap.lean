import Os161.Sfs.Fs

/-!
# Block allocation and block mapping

`kern/fs/sfs/sfs_balloc.c` and `kern/fs/sfs/sfs_bmap.c`: handing out and taking back disk blocks,
the disk block that holds a given block of a file, and truncation.

`sfs_itrunc` keeps one block too many in the indirect block: it compares `blocklen < baseblock + j`
where the direct blocks are compared with `i >= blocklen`.
-/

namespace Os161

namespace Sfs

open Prog

/-! ### `sfs_balloc.c` -/

/-- `sfs_clearblock`. -/
def clearblock (block : UInt32) : Sk Unit := writeblock block Bytes.zero

/-- `bitmap_unmark` on the freemap. -/
def unmark (block : UInt32) : Sk Unit := do
  let s ← get
  match s.sfsFreemap.unmark block with
  | some map => modify fun c => { c with sfsFreemap := map }
  | none => panic (.kassert .bitmapUnmark)

/-- `sfs_balloc`. -/
def balloc : Sk UInt32 := do
  let s ← get
  match s.sfsFreemap.alloc with
  | .error .enospc => fail .enospc
  | .error .kassert => panic (.kassert .bitmapAlloc)
  | .ok (diskblock, map) => do
      modify fun c => { c with sfsFreemap := map, sfsFreemapdirty := true }
      if s.mount.sfsSb.sbNblocks ≤ diskblock then panic (.invalidBlock diskblock)
      else do
        let r ← trying (clearblock diskblock)
        match r with
        | .ok () => pure diskblock
        | .error e => do
            unmark diskblock
            fail e

/-- `sfs_bfree`. -/
def bfree (diskblock : UInt32) : Sk Unit := do
  unmark diskblock
  modify fun c => { c with sfsFreemapdirty := true }

/-- `sfs_bused`. -/
def bused (diskblock : UInt32) : Sk Bool := do
  let s ← get
  if s.mount.sfsSb.sbNblocks ≤ diskblock then panic (.busedRange diskblock)
  else pure (s.sfsFreemap.isset diskblock)

theorem run_balloc_full {s : State} (h : s.sfsFreemap.alloc = .error .enospc) :
    balloc.run s = .halt (.fail .enospc) s := by
  rw [balloc, run_bind_of_done (run_get s), h]
  rfl

theorem run_balloc {s : State} {diskblock : UInt32} {map : Bitmap}
    (h : s.sfsFreemap.alloc = .ok (diskblock, map))
    (hn : diskblock < s.mount.sfsSb.sbNblocks) (hd : diskblock < s.mount.dBlocks) :
    balloc.run s = .done diskblock { s with
      sfsFreemap := map, sfsFreemapdirty := true
      disk := s.written diskblock Bytes.zero, writes := s.writes + 1 } := by
  have hclear : (trying (clearblock diskblock)).run
      { s with sfsFreemap := map, sfsFreemapdirty := true } = .done (.ok ()) { s with
        sfsFreemap := map, sfsFreemapdirty := true
        disk := s.written diskblock Bytes.zero, writes := s.writes + 1 } := by
    rw [run_trying, clearblock, run_writeblock
      (s := { s with sfsFreemap := map, sfsFreemapdirty := true }) hd]
    rfl
  rw [balloc, run_bind_of_done (run_get s), h]
  dsimp only
  rw [run_bind_of_done (run_modify _), if_neg (UInt32.not_le.mpr hn), run_bind_of_done hclear]
  rfl

/-! ### `sfs_bmap.c` -/

/-- The inode with a direct block pointer set. -/
def Dinode.setDirect (d : Dinode) (i : Fin 15) (block : UInt32) : Dinode :=
  { d with sfiDirect := Function.update d.sfiDirect i block }

/-- "Data block %u (block %u of file %u) marked free", or hand the block back. -/
def handBack (ino fileblock block : UInt32) : Sk UInt32 := do
  if block = 0 then pure block
  else do
    let used ← bused block
    if used then pure block else panic (.markedFree block fileblock ino)

/-- `sfs_bmap` for a block in the inode. -/
def bmapDirect (ino : UInt32) (i : Fin 15) (doalloc : Bool) : Sk UInt32 := do
  let sv ← getVnode ino
  let block := sv.svI.sfiDirect i
  if block = 0 ∧ doalloc then do
    let block ← balloc
    modifyInode ino fun d => d.setDirect i block
    handBack ino (UInt32.ofNat i) block
  else handBack ino (UInt32.ofNat i) block

/-- `sfs_bmap` for a block in the indirect block, which is `idblock` and has been read. -/
def bmapIndirect (ino idblock : UInt32) (idbuf : Fin 128 → UInt32) (idoff : Fin 128)
    (doalloc : Bool) : Sk UInt32 := do
  let block := idbuf idoff
  if block = 0 ∧ doalloc then do
    let block ← balloc
    writeblock idblock (indirectBlock (Function.update idbuf idoff block))
    handBack ino (UInt32.ofNat idoff) block
  else handBack ino (UInt32.ofNat idoff) block

/-- `sfs_bmap`. -/
def bmap (ino fileblock : UInt32) (doalloc : Bool) : Sk UInt32 :=
  if h : fileblock.toNat < 15 then bmapDirect ino ⟨fileblock.toNat, h⟩ doalloc
  else if h : fileblock.toNat - 15 < 128 then do
    let idoff : Fin 128 := ⟨fileblock.toNat - 15, h⟩
    let sv ← getVnode ino
    let idblock := sv.svI.sfiIndirect
    if idblock = 0 ∧ doalloc = false then pure 0
    else if idblock = 0 then do
      let idblock ← balloc
      modifyInode ino fun d => { d with sfiIndirect := idblock }
      bmapIndirect ino idblock (fun _ => 0) idoff doalloc
    else do
      let b ← readblock idblock
      bmapIndirect ino idblock (indirectOf b) idoff doalloc
  else fail .efbig

/-- `DIVROUNDUP(len, SFS_BLOCKSIZE)` on a signed 64-bit length, cut to 32 bits. -/
def blocklen (len : ℤ) : UInt32 := UInt32.ofInt ((len + 512 - 1).tdiv 512)

/-- The loop of `sfs_itrunc` over the direct blocks. -/
def truncDirect (ino blocklen : UInt32) : Sk Unit :=
  (List.finRange 15).foldlM (fun _ i => do
    let sv ← getVnode ino
    let block := sv.svI.sfiDirect i
    if blocklen.toNat ≤ i ∧ block ≠ 0 then do
      bfree block
      modifyInode ino fun d => d.setDirect i 0
    else pure ()) ()

/-- What the loop of `sfs_itrunc` over the indirect block keeps track of. -/
structure Trunc where
  /-- `idbuf`. -/
  idbuf : Fin 128 → UInt32
  /-- `hasnonzero`. -/
  hasnonzero : Bool
  /-- `iddirty`. -/
  iddirty : Bool

/-- The loop of `sfs_itrunc` over the indirect block. -/
def truncIndirect (blocklen : UInt32) (idbuf : Fin 128 → UInt32) : Sk Trunc :=
  (List.finRange 128).foldlM (fun acc (j : Fin 128) => do
    let acc ← if blocklen.toNat < 15 + j ∧ acc.idbuf j ≠ 0 then do
        bfree (acc.idbuf j)
        pure { acc with idbuf := Function.update acc.idbuf j 0, iddirty := true }
      else pure acc
    pure { acc with hasnonzero := acc.hasnonzero || acc.idbuf j ≠ 0 }) ⟨idbuf, false, false⟩

/-- `sfs_itrunc`. -/
def itrunc (ino : UInt32) (len : ℤ) : Sk Unit := do
  let blocklen := blocklen len
  truncDirect ino blocklen
  let sv ← getVnode ino
  let idblock := sv.svI.sfiIndirect
  if blocklen.toNat < 15 + 128 - 1 ∧ idblock ≠ 0 then do
    let b ← readblock idblock
    let r ← truncIndirect blocklen (indirectOf b)
    if r.hasnonzero = false then do
      bfree idblock
      modifyInode ino fun d => { d with sfiIndirect := 0 }
    else when (r.iddirty = true) (writeblock idblock (indirectBlock r.idbuf))
  else pure ()
  modifyInode ino fun d => { d with sfiSize := UInt32.ofInt len }

end Sfs

end Os161
