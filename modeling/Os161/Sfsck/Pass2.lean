import Os161.Sfsck.Pass1

/-!
# Phase 2: the directory tree

`userland/sbin/sfsck/pass2.c`. A directory is sorted by name to find duplicate names, its `.` and
`..` entries are corrected or added, its subdirectories are visited, and its link count is
corrected. A directory visited before is a crosslink: the caller removes the entry.
-/

namespace Os161

namespace Sfsck

open Sfs

/-- The body of the loop over neighbours in the sort vector. Of two entries with one name the first
is dropped if they name the same inode, and renamed if they do not. -/
def checkNeighbours (sortvector : List ℕ) (acc : List Direntry × Bool) (i : ℕ) :
    Ck (List Direntry × Bool) := do
  let p1 := sortvector.getD i 0
  let p2 := sortvector.getD (i + 1) 0
  assert (p1 ≠ p2)
  let d1 := acc.1.getD p1 Direntry.empty
  let d2 := acc.1.getD p2 Direntry.empty
  if d1.sfdIno = 0 ∨ d2.sfdIno = 0 then pure acc
  else if d1.name = d2.name then
    if d1.sfdIno = d2.sfdIno then do
      setbadness exitRecov
      warnx .duplicateMerged
      pure (acc.1.set p1 (clearEntry d1), true)
    else do
      let m ← uniqueid
      setbadness exitRecov
      warnx .duplicateRenamed
      pure (acc.1.set p1 ⟨d1.sfdIno, setCstr d1.sfdName (fsckName d1.sfdIno m)⟩, true)
  else pure acc

/-- The flags `pass2_dir` keeps while it looks for the dot entries. -/
structure DotScan where
  dchanged : Bool
  dotseen : Bool
  dotdotseen : Bool

/-- The body of the loop that looks for the `.` and `..` entries. -/
def checkDots (ino parentino : UInt32) (acc : DotScan) (_ : ℕ) (sfd : Direntry) :
    Ck (Direntry × DotScan) :=
  if sfd.name = dot then do
    Prog.when (sfd.sfdIno ≠ ino) (do
      setbadness exitRecov
      warnx .dotIncorrect)
    assert (acc.dotseen = false)
    pure ({ sfd with sfdIno := ino },
      { acc with dchanged := acc.dchanged || (sfd.sfdIno ≠ ino : Bool), dotseen := true })
  else if sfd.name = dotdot then do
    Prog.when (sfd.sfdIno ≠ parentino) (do
      setbadness exitRecov
      warnx .dotdotIncorrect)
    assert (acc.dotdotseen = false)
    pure ({ sfd with sfdIno := parentino },
      { acc with dchanged := acc.dchanged || (sfd.sfdIno ≠ parentino : Bool), dotdotseen := true })
  else pure (sfd, acc)

/-- A directory held in memory: all its slots, how many count, and the size in its inode. -/
structure DirBuf where
  direntries : List Direntry
  ndirentries : UInt32
  size : UInt32
  ichanged : Bool
  dchanged : Bool

/-- Inserting a missing dot entry: into a free slot of the directory, else into the room left in
its last block. -/
def addDot (maxdirentries : UInt32) (name : List UInt8) (ino : UInt32) (added notFixed : Warning)
    (ha : (Event.warn added).isDup = false) (hn : (Event.warn notFixed).isDup = false)
    (b : DirBuf) : Ck DirBuf :=
  match sfsdirTryadd b.direntries b.ndirentries.toNat name ino with
  | some direntries => do
    setbadness exitRecov
    warnx added ha
    pure { b with direntries := direntries, dchanged := true }
  | none =>
    match sfsdirTryadd b.direntries maxdirentries.toNat name ino with
    | some direntries => do
      setbadness exitRecov
      warnx added ha
      pure
        { direntries := direntries
          ndirentries := b.ndirentries + 1
          size := b.size + 64
          ichanged := true
          dchanged := true }
    | none => do
      setbadness exitUnrecov
      warnx notFixed hn
      pure b

/-- What `pass2_dir` counts while it goes through the entries. -/
structure SubScan where
  dchanged : Bool
  subdircount : UInt32

/-- The body of the loop over the objects in a directory, given the recursive call. -/
def pass2Subobject (recurse : UInt32 → Ck Bool) (acc : SubScan) (_ : ℕ) (sfd : Direntry) :
    Ck (Direntry × SubScan) :=
  if sfd.sfdIno = 0 then pure (sfd, acc)
  else if sfd.name = dot then pure (sfd, acc)
  else if sfd.name = dotdot then pure (sfd, acc)
  else do
    let subsfi ← sfsReadinode sfd.sfdIno
    if subsfi.sfiType = sfsTypeFile then do
      inodeAddlink sfd.sfdIno
      pure (sfd, acc)
    else if subsfi.sfiType = sfsTypeDir then do
      let crosslinked ← recurse sfd.sfdIno
      if crosslinked then do
        setbadness exitRecov
        warnx .crosslink
        pure (clearEntry sfd, { acc with dchanged := true })
      else pure (sfd, { acc with subdircount := acc.subdircount + 1 })
    else do
      setbadness exitRecov
      warnx (.invalidType subsfi.sfiType)
      pure (clearEntry sfd, { acc with dchanged := true })

/-- The part of `pass2_dir` between loading the directory and going through its objects. -/
def pass2Names (ino parentino : UInt32) (sfi : Dinode) (maxdirentries : UInt32)
    (direntries : List Direntry) : Ck DirBuf := do
  let sortvector ← sfsdirSort direntries
  let (direntries, dchanged) ← (List.range (direntries.length - 1)).foldlM
    (checkNeighbours sortvector) (direntries, false)
  let (direntries, scan) ← mapEntries (checkDots ino parentino) 0 ⟨dchanged, false, false⟩
    direntries
  let b : DirBuf :=
    { direntries := direntries ++
        List.replicate (maxdirentries.toNat - direntries.length) Direntry.empty
      ndirentries := sfi.sfiSize / 64
      size := sfi.sfiSize
      ichanged := false
      dchanged := scan.dchanged }
  let b ← (if scan.dotseen then pure b
    else addDot maxdirentries dot ino .dotAdded .dotNotFixed rfl rfl b : Ck DirBuf)
  (if scan.dotdotseen then pure b
    else addDot maxdirentries dotdot parentino .dotdotAdded .dotdotNotFixed rfl rfl b : Ck DirBuf)

/-- `pass2_dir`: `true` if the directory has already been visited. -/
def pass2Dir (env : Env) : ℕ → UInt32 → UInt32 → Ck Bool
  | 0, _, _ => Prog.halt .fuel
  | k + 1, ino, parentino => do
    record (.pass2Dir ino) rfl
    let been ← inodeVisitdir ino
    if been then pure true
    else do
      let sfi ← sfsReadinode ino
      let ndirentries := sfi.sfiSize / 64
      let maxdirentries := sfsRoundup ndirentries 8
      let dirsize := maxdirentries * 64
      domalloc env dirsize
      domalloc env (ndirentries * 4)
      -- the last block may wrap the size of the buffer around; reading 4 GB into it is fatal
      Prog.when (dirsize.toNat < maxdirentries.toNat * 64) (Prog.halt .fault)
      let direntries ← sfsReaddir sfi ndirentries
      let b ← pass2Names ino parentino sfi maxdirentries direntries
      let direntries := b.direntries.take b.ndirentries.toNat
      record (.scan2 ino direntries.length) rfl
      let (direntries, scan) ← mapEntries
        (pass2Subobject fun subino => pass2Dir env k subino ino) 0 ⟨b.dchanged, 0⟩ direntries
      let lchanged : Bool := sfi.sfiLinkcount.toUInt32 ≠ scan.subdircount + 2
      Prog.when (lchanged = true) (do
        setbadness exitRecov
        warnx (.dirLinkcount sfi.sfiLinkcount.toUInt32 (scan.subdircount + 2)))
      let sfi := { sfi with
        sfiSize := b.size
        sfiLinkcount := if lchanged then (scan.subdircount + 2).toUInt16 else sfi.sfiLinkcount }
      Prog.when (scan.dchanged = true) (sfsWritedir sfi direntries b.ndirentries)
      Prog.when ((b.ichanged || lchanged) = true) (sfsWriteinode ino sfi)
      pure false

end Sfsck

end Os161
