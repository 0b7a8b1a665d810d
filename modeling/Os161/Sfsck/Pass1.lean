import Os161.Sfsck.Freemap
import Os161.Sfsck.Inode

/-!
# Phase 1: blocks and sizes

`userland/sbin/sfsck/pass1.c`. Starting at the root directory, every inode is entered in the table
once, its blocks are marked in use, pointers outside the volume or past the end of the file are
dropped, and the entries of a directory are checked before it recurses into them.

The C functions change structures in place and return whether they did; here they return the
structure along with the flag. The recursion of `pass1_dir` is bounded by its first argument.
-/

namespace Os161

namespace Sfsck

open Sfs

/-! ### The blocks of an inode -/

/-- `struct ibstate`. -/
structure Ibstate where
  ino : UInt32
  curfileblock : UInt32
  fileblocks : UInt32
  volblocks : UInt32
  pasteofcount : ℕ
  usagetype : Usage

/-- The test both loops over block pointers make: what becomes of the pointer to block
`curfileblock` of the file, and whether it was changed. -/
def checkPointer (ibs : Ibstate) (block : UInt32) : Ck (Ibstate × UInt32 × Bool) :=
  if ibs.volblocks ≤ block then do
    setbadness exitRecov
    warnx (.directOutside ibs.ino ibs.curfileblock block)
    pure (ibs, 0, true)
  else if block ≠ 0 then
    if ibs.curfileblock < ibs.fileblocks then do
      freemapBlockinuse block ibs.usagetype ibs.ino
      pure (ibs, block, false)
    else do
      setbadness exitRecov
      freemapBlockfree block
      pure ({ ibs with pasteofcount := ibs.pasteofcount + 1 }, 0, true)
  else pure (ibs, block, false)

/-- A loop over `n` block pointers; `curfileblock` counts along. -/
def checkPointers {n : ℕ} (ibs : Ibstate) (ptrs : Fin n → UInt32) :
    Ck (Ibstate × (Fin n → UInt32) × Bool) :=
  (List.finRange n).foldlM (fun (acc : Ibstate × (Fin n → UInt32) × Bool) i => do
    let (ibs, block, changed) ← checkPointer acc.1 (acc.2.1 i)
    pure ({ ibs with curfileblock := ibs.curfileblock + 1 },
      if changed then Function.update acc.2.1 i block else acc.2.1, acc.2.2 || changed))
    (ibs, ptrs, false)

/-- `check_indirect_block` at level `indirection`; the inode's own indirect block is at level `1`.
Returns the entry that names the block, and whether that entry was changed. -/
def checkIndirectBlock : ℕ → Ibstate → UInt32 → Ck (Ibstate × UInt32 × Bool)
  | indirection, ibs, ientry =>
    if ¬(0 < ientry ∧ ientry < ibs.volblocks) then do
      let covered := UInt32.ofNat (128 ^ indirection)
      if ibs.volblocks ≤ ientry then do
        setbadness exitRecov
        warnx (.indirectOutside ibs.ino indirection ibs.curfileblock ientry)
        pure ({ ibs with curfileblock := ibs.curfileblock + covered }, 0, true)
      else pure ({ ibs with curfileblock := ibs.curfileblock + covered }, ientry, false)
    else do
      let entries ← sfsReadindirect ientry
      freemapBlockinuse ientry .iblock ibs.ino
      let (ibs, entries, localchanged) ← (match indirection with
        | 0 => Prog.halt .abort
        | 1 => checkPointers ibs entries
        | level + 2 =>
          (List.finRange 128).foldlM (fun (acc : Ibstate × (Fin 128 → UInt32) × Bool) i => do
            let (ibs, entry, changed) ← checkIndirectBlock (level + 1) acc.1 (acc.2.1 i)
            pure (ibs, Function.update acc.2.1 i entry, acc.2.2 || changed))
            (ibs, entries, false) : Ck (Ibstate × (Fin 128 → UInt32) × Bool))
      if ∀ i, entries i = 0 then do
        setbadness exitRecov
        freemapBlockfree ientry
        pure (ibs, 0, true)
      else do
        Prog.when (localchanged = true) (sfsWriteindirect ientry entries)
        pure (ibs, ientry, false)

/-- `check_inode_blocks`. -/
def checkInodeBlocks (ino : UInt32) (sfi : Dinode) (isdir : Bool) : Ck (Dinode × Bool) := do
  let volblocks ← sbTotalblocks
  let ibs : Ibstate :=
    { ino := ino
      curfileblock := 0
      fileblocks := sfsRoundup sfi.sfiSize 512 / 512
      volblocks := volblocks
      pasteofcount := 0
      usagetype := if isdir then .dirdata else .data }
  let (ibs, direct, dchanged) ← checkPointers ibs sfi.sfiDirect
  let (ibs, indirect, ichanged) ← checkIndirectBlock 1 ibs sfi.sfiIndirect
  Prog.when (0 < ibs.pasteofcount) (do
    warnx (.blocksAfterEof ino ibs.pasteofcount)
    setbadness exitRecov)
  pure ({ sfi with sfiDirect := direct, sfiIndirect := indirect }, dchanged || ichanged)

/-- `pass1_inode`: the inode as changed, and `true` if it has already been seen. -/
def pass1Inode (env : Env) (ino : UInt32) (sfi : Dinode) (alreadychanged : Bool) :
    Ck (Dinode × Bool) := do
  record (.pass1Inode ino) rfl
  let been ← inodeAdd env ino sfi.sfiType
  if been then do
    assert (alreadychanged = false)
    pure (sfi, true)
  else do
    freemapBlockinuse ino .inode ino
    let waste := checkzeroed sfi.sfiWaste
    Prog.when (waste.2 = true) (do
      warnx (.wasteNotZeroed ino)
      setbadness exitRecov)
    let (sfi, bchanged) ← checkInodeBlocks ino { sfi with sfiWaste := waste.1 }
      (sfi.sfiType = sfsTypeDir)
    Prog.when ((alreadychanged || waste.2 || bchanged) = true) (sfsWriteinode ino sfi)
    pure (sfi, false)

/-! ### Directory entries -/

/-- The name `FSCK.n.m`. -/
def fsckName (ino m : UInt32) : List UInt8 :=
  [70, 83, 67, 75, 46] ++ decimal ino.toNat ++ [46] ++ decimal m.toNat

/-- An entry with its inode number and the first byte of its name zeroed. -/
def clearEntry (sfd : Direntry) : Direntry := ⟨0, setCstr sfd.sfdName []⟩

/-- `pass1_direntry`: the entry as changed, and whether it was. -/
def pass1Direntry (index : ℕ) (sfd : Direntry) : Ck (Direntry × Bool) := do
  let nblocks ← sbTotalblocks
  if sfd.sfdIno = 0 then
    if sfd.sfdName.get 0 ≠ 0 then do
      setbadness exitRecov
      warnx (.nameButNoFile index)
      pure (clearEntry sfd, true)
    else pure (sfd, false)
  else if nblocks ≤ sfd.sfdIno then do
    setbadness exitRecov
    warnx (.inodeOutOfRange index)
    pure (clearEntry sfd, true)
  else do
    let named ← (if sfd.sfdName.get 0 = 0 then do
        let m ← uniqueid
        setbadness exitRecov
        warnx (.fileButNoName index)
        pure (setCstr sfd.sfdName (fsckName sfd.sfdIno m), true)
      else pure (sfd.sfdName, false) : Ck (Bytes 60 × Bool))
    let ended := checknullstring named.1
    Prog.when (ended.2 = true) (do
      setbadness exitRecov
      warnx (.nameNotTerminated index))
    let good := checkbadstring ended.1
    Prog.when (good.2 = true) (do
      setbadness exitRecov
      warnx (.nameIllegal index))
    pure (⟨sfd.sfdIno, good.1⟩, named.2 || ended.2 || good.2)

/-- A loop over the entries of a directory that may change each of them and carries a value
along. -/
def mapEntries {β : Type} (f : β → ℕ → Direntry → Ck (Direntry × β)) :
    ℕ → β → List Direntry → Ck (List Direntry × β)
  | _, b, [] => pure ([], b)
  | i, b, e :: es => do
    let (e, b) ← f b i e
    let (es, b) ← mapEntries f (i + 1) b es
    pure (e :: es, b)

/-- The body of the second loop of `pass1_dir`, given the recursive call. -/
def pass1Subobject (env : Env) (recurse : UInt32 → Ck Unit) (dchanged : Bool) (_ : ℕ)
    (sfd : Direntry) : Ck (Direntry × Bool) :=
  if sfd.sfdIno = 0 then pure (sfd, dchanged)
  else if sfd.name = dot then pure (sfd, dchanged)
  else if sfd.name = dotdot then pure (sfd, dchanged)
  else do
    let subsfi ← sfsReadinode sfd.sfdIno
    if subsfi.sfiType = sfsTypeFile then do
      let (_, been) ← pass1Inode env sfd.sfdIno subsfi false
      Prog.when (been = false) (modify fun c => { c with countFiles := c.countFiles + 1 })
      pure (sfd, dchanged)
    else if subsfi.sfiType = sfsTypeDir then do
      recurse sfd.sfdIno
      pure (sfd, dchanged)
    else do
      setbadness exitRecov
      warnx (.invalidType subsfi.sfiType)
      pure (clearEntry sfd, true)

/-- The first step of `pass1_dir`: the size becomes a multiple of the entry size. -/
def fixSize (sfi : Dinode) : Ck (Dinode × Bool) :=
  if sfi.sfiSize % 64 ≠ 0 then do
    setbadness exitRecov
    warnx (.illegalSize sfi.sfiSize)
    pure ({ sfi with sfiSize := sfsRoundup sfi.sfiSize 64 }, true)
  else pure (sfi, false)

/-- `pass1_dir`. -/
def pass1Dir (env : Env) : ℕ → UInt32 → Ck Unit
  | 0, _ => Prog.halt .fuel
  | k + 1, ino => do
    record (.pass1Dir ino) rfl
    let sfi ← sfsReadinode ino
    let (sfi, ichanged) ← fixSize sfi
    modify fun c => { c with countDirs := c.countDirs + 1 }
    let (sfi, been) ← pass1Inode env ino sfi ichanged
    if been then pure ()
    else do
      let ndirentries := sfi.sfiSize / 64
      domalloc env sfi.sfiSize
      let direntries ← sfsReaddir sfi ndirentries
      record (.scan1 ino direntries.length) rfl
      let (direntries, dchanged) ← mapEntries (fun dchanged i sfd => do
        let (sfd, changed) ← pass1Direntry i sfd
        pure (sfd, dchanged || changed)) 0 false direntries
      let (direntries, dchanged) ←
        mapEntries (pass1Subobject env (pass1Dir env k)) 0 dchanged direntries
      Prog.when (dchanged = true) (sfsWritedir sfi direntries ndirentries)

/-- `pass1_rootdir`. -/
def pass1Rootdir (env : Env) (fuel : ℕ) : Ck Unit := do
  let sfi ← sfsReadinode sfsRootdirIno
  Prog.when (sfi.sfiType ≠ sfsTypeDir) (do
    warnx (if sfi.sfiType = sfsTypeFile then .rootIsFile else .rootInvalidType sfi.sfiType)
      (by split <;> rfl)
    setbadness exitRecov
    sfsWriteinode sfsRootdirIno { sfi with sfiType := sfsTypeDir })
  pass1Dir env fuel sfsRootdirIno

end Sfsck

end Os161
