import Os161.Sfsck.State
import Os161.Libc.Qsort

/-!
# Disk access and directories

`userland/sbin/mksfs/disk.c` and `userland/sbin/sfsck/sfs.c`.

`diskread` and `diskwrite` compute the byte offset `block*BLOCKSIZE` in 32 bits, so the sector they
reach is the block number modulo `2^23`; `sector` is that number.

The numbers of doubly and triply indirect blocks in an inode are `0`, so of `bmap` and `ibmap` the
first two levels remain.
-/

namespace Os161

namespace Sfsck

open Sfs

/-! ### `disk.c` -/

/-- The sector at byte offset `block*BLOCKSIZE`, a 32-bit product. -/
def sector (block : UInt32) : UInt32 := block * 512 / 512

theorem sector_of_lt {b : UInt32} (h : b.toNat < 8388608) : sector b = b := by
  rw [← UInt32.toNat_inj, sector, UInt32.toNat_div, UInt32.toNat_mul]
  change b.toNat * 512 % 4294967296 / 512 = b.toNat
  omega

/-- The disk as the checker's block numbers see it. -/
def seen (d : Disk) : Disk := fun block => d (sector block)

/-- `diskread`. -/
def diskread (block : UInt32) : Ck Block := do
  let s ← Prog.get
  pure (s.disk (sector block))

/-- `diskwrite`. -/
def diskwrite (data : Block) (block : UInt32) : Ck Unit :=
  modify fun c => { c with disk := Function.update c.disk (sector block) data }

/-! ### Inodes, indirect blocks, freemap blocks -/

/-- `sfs_readsb`. -/
def sfsReadsb (blocknum : UInt32) : Ck Superblock := do
  let b ← diskread blocknum
  pure (Superblock.ofBlock b)

/-- `sfs_writesb`. -/
def sfsWritesb (blocknum : UInt32) (sb : Superblock) : Ck Unit := diskwrite sb.toBlock blocknum

/-- `sfs_readfreemapblock`. -/
def sfsReadfreemapblock (whichblock : UInt32) : Ck Block := diskread (sfsFreemapStart + whichblock)

/-- `sfs_writefreemapblock`. -/
def sfsWritefreemapblock (whichblock : UInt32) (bits : Block) : Ck Unit :=
  diskwrite bits (sfsFreemapStart + whichblock)

/-- `sfs_readinode`. -/
def sfsReadinode (ino : UInt32) : Ck Dinode := do
  let b ← diskread ino
  pure (Dinode.ofBlock b)

/-- `sfs_writeinode`. -/
def sfsWriteinode (ino : UInt32) (sfi : Dinode) : Ck Unit := diskwrite sfi.toBlock ino

/-- `sfs_readindirect`. -/
def sfsReadindirect (blocknum : UInt32) : Ck (Fin 128 → UInt32) := do
  let b ← diskread blocknum
  pure (indirectOf b)

/-- `sfs_writeindirect`. -/
def sfsWriteindirect (blocknum : UInt32) (entries : Fin 128 → UInt32) : Ck Unit :=
  diskwrite (indirectBlock entries) blocknum

/-! ### Block mapping -/

/-- `ibmap`, at the one level of indirection there is. -/
def ibmap (iblock : UInt32) (offset : ℕ) : Ck UInt32 :=
  if iblock = 0 then pure 0
  else do
    let entries ← sfsReadindirect iblock
    if h : offset < 128 then pure (entries ⟨offset, h⟩) else Prog.halt .abort

/-- `bmap`. -/
def bmap (sfi : Dinode) (fileblock : ℕ) : Ck UInt32 :=
  if h : fileblock < 15 then pure (sfi.sfiDirect ⟨fileblock, h⟩)
  else if fileblock < 143 then ibmap sfi.sfiIndirect ((fileblock - 15) % 128)
  else pure 0

/-! ### Directory I/O -/

/-- `sfs_readdirblock`. -/
def sfsReaddirblock (diskblock : UInt32) : Ck (List Direntry) :=
  if diskblock ≠ 0 then do
    let b ← diskread diskblock
    pure (direntriesOf b)
  else do
    warnx .sparseDirectory
    pure (direntriesOf Bytes.zero)

/-- `sfs_readdir`: the first `nd` entries. -/
def sfsReaddir (sfi : Dinode) (nd : UInt32) : Ck (List Direntry) := do
  let nblocks := sfsRoundup nd 8 / 8
  let d ← (List.range nblocks.toNat).foldlM (fun (d : List Direntry) i => do
    let diskblock ← bmap sfi i
    let buffer ← sfsReaddirblock diskblock
    -- as many as are left, and all eight of them if there are that many
    pure (d ++ buffer.take (nd.toNat - d.length))) []
  assert (d.length = nd.toNat)
  pure d

/-- An entry that `sfs_writedirblock` cannot leave out. -/
def badEntry (e : Direntry) : Bool := e.sfdIno ≠ 0 || e.sfdName.get 0 ≠ 0

/-- `sfs_writedirblock`. -/
def sfsWritedirblock (d : List Direntry) (diskblock : UInt32) : Ck Unit :=
  if diskblock ≠ 0 then diskwrite (dirBlock d) diskblock
  else if d.any badEntry then do
    warnx .sparseWrite
    setbadness exitUnrecov
  else pure ()

/-- `sfs_writedir`: the first `nd` entries of `d`, the last block filled up with zeros. -/
def sfsWritedir (sfi : Dinode) (d : List Direntry) (nd : UInt32) : Ck Unit := do
  let nblocks := sfsRoundup nd 8 / 8
  (List.range nblocks.toNat).foldlM (fun (_ : Unit) i => do
    let diskblock ← bmap sfi i
    sfsWritedirblock (((d.take nd.toNat).drop (8 * i)).take 8) diskblock) ()
  assert (nd.toNat ≤ 8 * nblocks.toNat)

/-! ### Directory utilities -/

/-- `strcmp`, on the bytes before the first `NUL`. -/
def strcmp : List UInt8 → List UInt8 → ℤ
  | [], [] => 0
  | [], _ :: _ => -1
  | _ :: _, [] => 1
  | a :: as, b :: bs => if b < a then 1 else if a < b then -1 else strcmp as bs

/-- `dirsortfunc`. -/
def dirsortfunc (ad bd : Direntry) : ℤ :=
  if ad.sfdIno = 0 ∧ bd.sfdIno = 0 then 0
  else if ad.sfdIno = 0 then 1
  else if bd.sfdIno = 0 then -1
  else strcmp ad.name bd.name

/-- `sfsdir_sort`: the permutation vector. -/
def sfsdirSort (d : List Direntry) : Ck (List ℕ) :=
  match qsort (fun a b => some (dirsortfunc (d.getD a Direntry.empty) (d.getD b Direntry.empty)))
      (List.range d.length) with
  | some vector => pure vector
  | none => Prog.halt .abort

/-- `sfsdir_tryadd`: the directory with the entry added, if one of the first `nd` slots is free. -/
def sfsdirTryadd (d : List Direntry) (nd : ℕ) (name : List UInt8) (ino : UInt32) :
    Option (List Direntry) :=
  ((List.range nd).find? fun i => (d.getD i Direntry.empty).sfdIno = 0).map fun i =>
    d.set i ⟨ino, setCstr (d.getD i Direntry.empty).sfdName name⟩

end Sfsck

end Os161
