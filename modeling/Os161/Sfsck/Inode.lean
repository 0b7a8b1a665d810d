import Os161.Sfsck.Io

/-!
# The inode table

`userland/sbin/sfsck/inode.c`. Phase 1 appends every inode it finds and looks for it by a linear
search; then the table is sorted, and phases 2 and 3 find inodes in it by binary search.
-/

namespace Os161

namespace Sfsck

open Sfs

/-- `inode_addtable`. The table's buffer doubles; a request for `2^31` bytes is never granted, so
its size does not wrap around. -/
def inodeAddtable (env : Env) (ino : UInt32) (type : UInt16) : Ck Unit := do
  let s ← Prog.get
  assert (s.inodes.length ≤ s.maxinodes.toNat)
  Prog.when (s.inodes.length = s.maxinodes.toNat) (do
    let newmax := if s.maxinodes ≠ 0 then s.maxinodes * 2 else 4
    domalloc env (newmax * 16)
    modify fun c => { c with maxinodes := newmax })
  modify fun c => { c with
    inodes := c.inodes ++ [⟨ino, 0, false, type⟩]
    inodesSorted := false }

/-- `inode_compare`. Two positions of the table with the same inode number fail its assertion. -/
def inodeCompare (a b : Inodeinfo) : Option ℤ :=
  if a.ino < b.ino then some (-1)
  else if b.ino < a.ino then some 1
  else none

/-- `inode_sorttable`. -/
def inodeSorttable : Ck Unit := do
  let s ← Prog.get
  match qsort inodeCompare s.inodes with
  | some inodes => modify fun c => { c with inodes := inodes, inodesSorted := true }
  | none => Prog.halt .abort

/-- The loop of `inode_find`, for at most `k` rounds: the position of `ino` in the table. -/
def findLoop (inodes : List Inodeinfo) (ino : UInt32) : ℕ → ℕ → ℕ → Option ℕ
  | 0, _, _ => none
  | k + 1, min, max =>
    if min = max then none
    else
      let i := min + (max - min) / 2
      match inodes[i]? with
      | none => none
      | some inf =>
        if inf.ino < ino then findLoop inodes ino k (i + 1) max
        else if ino < inf.ino then findLoop inodes ino k min i
        else some i

/-- `inode_find`: the position and the entry found there. -/
def inodeFind (ino : UInt32) : Ck (ℕ × Inodeinfo) := do
  let s ← Prog.get
  assert (s.inodesSorted = true)
  assert (0 < s.inodes.length)
  match findLoop s.inodes ino (s.inodes.length + 1) 0 s.inodes.length with
  | none => Prog.halt (.errx exitUnrecov (.inodeNotFound ino))
  | some i =>
    match s.inodes[i]? with
    | none => Prog.halt .abort
    | some inf => pure (i, inf)

/-- `inode_add`: `true` if the inode has already been seen. -/
def inodeAdd (env : Env) (ino : UInt32) (type : UInt16) : Ck Bool := do
  let s ← Prog.get
  match s.inodes.find? fun inf => inf.ino = ino with
  | some inf => do
    assert (inf.linkcount = 0)
    assert (inf.type = type)
    pure true
  | none => do
    inodeAddtable env ino type
    pure false

/-- `inode_visitdir`: `true` if the directory has already been visited. -/
def inodeVisitdir (ino : UInt32) : Ck Bool := do
  let (i, inf) ← inodeFind ino
  assert (inf.type = sfsTypeDir)
  assert (inf.linkcount = 0)
  if inf.visited then pure true
  else do
    modify fun c => { c with inodes := c.inodes.set i { inf with visited := true } }
    pure false

/-- `inode_addlink`. -/
def inodeAddlink (ino : UInt32) : Ck Unit := do
  let (i, inf) ← inodeFind ino
  assert (inf.type = sfsTypeFile)
  assert (inf.visited = false)
  modify fun c => { c with inodes := c.inodes.set i { inf with linkcount := inf.linkcount + 1 } }

/-- The body of `inode_adjust_filelinks` for one table entry. -/
def adjustFilelink (inf : Inodeinfo) : Ck Unit :=
  if inf.type = sfsTypeDir then pure ()
  else do
    assert (inf.type = sfsTypeFile)
    assert (0 < inf.linkcount)
    let sfi ← sfsReadinode inf.ino
    assert (sfi.sfiType = sfsTypeFile)
    Prog.when (sfi.sfiLinkcount.toUInt32 ≠ inf.linkcount) (do
      warnx (.fileLinkcount inf.ino sfi.sfiLinkcount inf.linkcount)
      setbadness exitRecov
      sfsWriteinode inf.ino { sfi with sfiLinkcount := inf.linkcount.toUInt16 })

/-- `inode_adjust_filelinks`, which is phase 3. -/
def inodeAdjustFilelinks : Ck Unit := do
  let s ← Prog.get
  s.inodes.foldlM (fun _ inf => adjustFilelink inf) ()

end Sfsck

end Os161
