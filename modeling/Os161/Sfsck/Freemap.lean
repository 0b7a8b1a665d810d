import Os161.Sfsck.Io

/-!
# The free block bitmap

`userland/sbin/sfsck/freemap.c`. Two bitmaps are filled while the volume is traversed: the blocks
found in use, and the blocks whose last reference was dropped. `freemap_check` compares the first
with what is on disk, byte by byte, and writes it there.
-/

namespace Os161

namespace Sfsck

open Sfs

/-- `sb_totalblocks`. -/
def sbTotalblocks : Ck UInt32 := do
  let s ← Prog.get
  pure s.sb.sbNblocks

/-- `sb_freemapblocks`. -/
def sbFreemapblocks : Ck UInt32 := do
  let s ← Prog.get
  pure (sfsFreemapblocks s.sb.sbNblocks)

/-- `freemap_blockinuse`. -/
def freemapBlockinuse (block : UInt32) (how : Usage) (howdesc : UInt32) : Ck Unit := do
  let s ← Prog.get
  modify fun c => { c with tofreedata := Function.update c.tofreedata block false }
  Prog.when (s.freemapdata block = true) (reportInUse block how howdesc)
  modify fun c => { c with
    freemapdata := Function.update c.freemapdata block true
    blocksinuse := if how = .pastend then c.blocksinuse else c.blocksinuse + 1 }

/-- `freemap_blockfree`: a block found in use stays in use. -/
def freemapBlockfree (block : UInt32) : Ck Unit :=
  modify fun c =>
    if c.tofreedata block || c.freemapdata block then c
    else { c with tofreedata := Function.update c.tofreedata block true }

/-- `freemap_setup`. -/
def freemapSetup (env : Env) : Ck Unit := do
  let fsblocks ← sbTotalblocks
  let mapblocks ← sbFreemapblocks
  domalloc env (mapblocks * 512)
  domalloc env (mapblocks * 512)
  modify fun c => { c with freemapdata := fun _ => false, tofreedata := fun _ => false }
  (List.range ((mapblocks * 4096).toNat - fsblocks.toNat)).foldlM (fun _ i =>
    freemapBlockinuse (fsblocks + UInt32.ofNat i) .pastend 0) ()
  freemapBlockinuse sfsSuperBlock .superblock 0
  (List.range mapblocks.toNat).foldlM (fun _ i =>
    freemapBlockinuse (sfsFreemapStart + UInt32.ofNat i) .freemapblock (UInt32.ofNat i)) ()

/-! ### Checking -/

/-- `countbits`. -/
def countbits (val : UInt8) : ℕ := (List.range 8).countP fun y => val.toNat.testBit y

/-- `reportfreemap`. -/
def reportfreemap (mapblock byte : ℕ) (val : UInt8) (free : Bool) : Ck Unit :=
  (List.range 8).foldlM (fun _ y =>
    Prog.when (val.toNat.testBit y = true)
      (warnx (.shownWrong (mapblock * 4096 + byte * 8 + y) free))) ()

/-- What `freemap_check` carries through the bytes of one block. -/
structure MapScan where
  actual : Block
  bchanged : Bool
  alloccount : ℕ
  freecount : ℕ

/-- The body of `freemap_check` for byte `j` of block `i`. The two reports are made only where a
bit differs, and then `actual` becomes what it should be. -/
def checkByte (i : ℕ) (m : MapScan) (j : Fin 512) : Ck MapScan := do
  let s ← Prog.get
  let expected := mapByte s.freemapdata i j
  let tofree := mapByte s.tofreedata i j
  assert (expected &&& tofree = 0)
  if m.actual j = expected then pure m
  else if m.actual j = expected ||| tofree then
    pure { m with actual := Function.update m.actual j expected, bchanged := true }
  else do
    let kept := m.actual j &&& ~~~tofree
    reportfreemap i j (expected &&& ~~~kept) true
    reportfreemap i j (kept &&& ~~~expected) false
    pure
      { actual := Function.update m.actual j expected
        bchanged := true
        alloccount := m.alloccount + countbits (expected &&& ~~~kept)
        freecount := m.freecount + countbits (kept &&& ~~~expected) }

/-- The body of `freemap_check` for block `i` of the bitmap. -/
def checkMapblock (count : ℕ × ℕ) (i : ℕ) : Ck (ℕ × ℕ) := do
  let actual ← sfsReadfreemapblock (UInt32.ofNat i)
  let m ← (List.finRange 512).foldlM (checkByte i) ⟨actual, false, count.1, count.2⟩
  Prog.when (m.bchanged = true) (sfsWritefreemapblock (UInt32.ofNat i) m.actual)
  pure (m.alloccount, m.freecount)

/-- `freemap_check`. -/
def freemapCheck : Ck Unit := do
  let bitblocks ← sbFreemapblocks
  let count ← (List.range bitblocks.toNat).foldlM checkMapblock (0, 0)
  Prog.when (0 < count.1) (do
    warnx (.shownFree count.1)
    setbadness exitRecov)
  Prog.when (0 < count.2) (do
    warnx (.shownUsed count.2)
    setbadness exitRecov)

end Sfsck

end Os161
