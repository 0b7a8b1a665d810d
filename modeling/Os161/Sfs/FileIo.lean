import Os161.Sfs.Inode

/-!
# File I/O

The file-level part of `kern/fs/sfs/sfs_io.c`: a transfer is cut into a leading partial block, whole
blocks that go straight between the device and the caller's buffers, and a trailing partial block.

`sfs_blockio` computes the position on the device in 32 bits, `diskblock * SFS_BLOCKSIZE`, so for a
block number from `2^23` on it addresses another block. `sfs_readblock` and `sfs_writeblock` widen
the number first.
-/

namespace Os161

namespace Sfs

open Prog

/-- `sfs_partialio`. -/
def partialio (ino skipstart len : UInt32) : Sk Unit := do
  let s ← get
  let doalloc : Bool := s.uio.uioRw = .write
  kassert (skipstart + len ≤ 512) .partialRange
  let diskblock ← bmap ino (UInt32.ofNat (s.uio.uioOffset / 512)) doalloc
  let iobuf ← if diskblock = 0 then do
      kassert (s.uio.uioRw = .read) .writeHole
      pure (List.replicate 512 0)
    else do
      let b ← readblock diskblock
      pure (List.ofFn b)
  let moved ← uiomove ((iobuf.drop skipstart.toNat).take len.toNat)
  let iobuf := iobuf.take skipstart.toNat ++ moved ++ iobuf.drop (skipstart.toNat + len.toNat)
  when (s.uio.uioRw = .write) (writeblock diskblock (blockOfList iobuf))

/-- `sfs_blockio`. -/
def blockio (ino : UInt32) : Sk Unit := do
  let s ← get
  let doalloc : Bool := s.uio.uioRw = .write
  let diskblock ← bmap ino (UInt32.ofNat (s.uio.uioOffset / 512)) doalloc
  if diskblock = 0 then do
    kassert (s.uio.uioRw = .read) .writeHole
    uiomovezeros 512
  else do
    let saveoff := s.uio.uioOffset
    let diskoff := (diskblock * 512).toNat
    kassert (512 ≤ s.uio.uioResid) .blockResid
    let saveres := s.uio.uioResid
    let diskres : UInt32 := 512
    modify fun c => { c with uio := { c.uio with uioOffset := diskoff, uioResid := diskres } }
    let r ← trying rwblock
    modify fun c => { c with uio := { c.uio with
      uioOffset := (c.uio.uioOffset - diskoff) + saveoff
      uioResid := (c.uio.uioResid - diskres) + saveres } }
    match r with
    | .ok () => pure ()
    | .error e => fail e

/-- `sfs_io`, up to the label `out`, once the end of the file has been dealt with. -/
def ioBody (ino : UInt32) : Sk Unit := do
  let s ← get
  let blkoff := UInt32.ofNat (s.uio.uioOffset % 512)
  when (blkoff ≠ 0) do
    let len := 512 - blkoff
    partialio ino blkoff (if s.uio.uioResid < len then s.uio.uioResid else len)
  let s ← get
  if s.uio.uioResid = 0 then pure ()
  else do
    kassert (s.uio.uioOffset % 512 = 0) .unaligned
    (List.range (s.uio.uioResid / 512).toNat).foldlM (fun _ _ => blockio ino) ()
    let s ← get
    kassert (s.uio.uioResid < 512) .restResid
    when (0 < s.uio.uioResid) (partialio ino 0 s.uio.uioResid)

/-- `sfs_io` from the label `out` on. -/
def ioOut (ino origresid extraresid : UInt32) : Sk Unit := do
  let s ← get
  let sv ← getVnode ino
  when (s.uio.uioResid ≠ origresid ∧ s.uio.uioRw = .write ∧
      sv.svI.sfiSize.toNat < s.uio.uioOffset)
    (modifyInode ino fun d => { d with sfiSize := UInt32.ofNat s.uio.uioOffset })
  modify fun c => { c with uio := { c.uio with uioResid := c.uio.uioResid + extraresid } }

/-- `sfs_io`, on the `uio` being worked on. -/
def io (ino : UInt32) : Sk Unit := do
  let s ← get
  let sv ← getVnode ino
  let origresid := s.uio.uioResid
  let size := sv.svI.sfiSize.toNat
  let endpos := s.uio.uioOffset + s.uio.uioResid.toNat
  if s.uio.uioRw = .read ∧ size ≤ s.uio.uioOffset then pure ()
  else do
    let extraresid ← if s.uio.uioRw = .read ∧ size < endpos then do
        let extraresid := UInt32.ofNat (endpos - size)
        kassert (extraresid < s.uio.uioResid) .extraResid
        modify fun c => { c with uio := { c.uio with uioResid := c.uio.uioResid - extraresid } }
        pure extraresid
      else pure 0
    let r ← trying (ioBody ino)
    ioOut ino origresid extraresid
    match r with
    | .ok () => pure ()
    | .error e => fail e

end Sfs

end Os161
