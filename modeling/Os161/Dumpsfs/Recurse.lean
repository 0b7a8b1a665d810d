import Os161.Dumpsfs
import Os161.Sfsck.Spotless

/-!
# Dumping recursively

`dumpinode` of `userland/sbin/dumpsfs/dumpsfs.c` and what it calls. With `-r` it goes through the
blocks of a directory and calls itself for every inode an entry names. No entry is passed over for
its name, and nothing remembers which inodes have been dumped.

The checker wants a `.` entry in the root directory. On a volume it accepts, a dump of the root
contains a dump of the root, so none ever returns.

The result of a dump is the inodes dumped, in order; what else is printed is left out. The nesting
of calls is bounded by an argument, and a dump returns if it does for some bound.

## Main results

* `Dumpsfs.traverseDump_ok` — what a walk that returned has done
* `Dumpsfs.dumpinode_entry` — a dump contains those of the entries
* `Dumpsfs.not_returns_of_clean` — no volume the checker accepts can be dumped recursively
-/

namespace Os161

namespace Dumpsfs

open Sfs

/-- The options of the command line that decide which blocks `dumpinode` goes through. -/
structure Options where
  dofiles : Bool
  dodirs : Bool
  recurse : Bool

/-- Why a dump does not return. -/
inductive Halt where
  /-- The assertion of `traverse` fails. -/
  | abort
  /-- More calls are nested than are allowed. -/
  | depth
  deriving DecidableEq

/-- A part of a dump, given the inodes dumped before. -/
abbrev Dump := List UInt32 → Except Halt (List UInt32)

/-- `traverse`, with a `doblock` that need not return. -/
def traverseDump (d : Disk) (sfi : Dinode) (doblock : UInt32 → UInt32 → Dump) : Dump := fun log =>
  match traverse d sfi (fun acc fileblock diskblock => acc >>= doblock fileblock diskblock)
      (.ok log) with
  | .ok r => r
  | .error r => r >>= fun _ => .error .abort

/-- `dumpdirblock` and `dumpfileblock`, which only print. -/
def printblock (_fileblock _diskblock : UInt32) : Dump := .ok

/-- `dumpdir`. -/
def dumpdir (d : Disk) (sfi : Dinode) : Dump := traverseDump d sfi printblock

/-- `dumpfile`. -/
def dumpfile (d : Disk) (sfi : Dinode) : Dump := traverseDump d sfi printblock

/-- `recursedirblock`, given `dumpinode`. -/
def recursedirblock (d : Disk) (dumpinode : UInt32 → Dump) (_fileblock diskblock : UInt32) :
    Dump := fun log =>
  if diskblock = 0 then .ok log
  else (direntriesOf (diskread d diskblock)).foldlM (fun log sd =>
    if sd.sfdIno = 0 then .ok log else dumpinode sd.sfdIno log) log

/-- `recursedir`, given `dumpinode`. -/
def recursedir (d : Disk) (dumpinode : UInt32 → Dump) (sfi : Dinode) : Dump :=
  traverseDump d sfi (recursedirblock d dumpinode)

/-- `dumpinode`, with at most `k` calls nested. -/
def dumpinode (d : Disk) (o : Options) : ℕ → UInt32 → Dump
  | 0, _, _ => .error .depth
  | k + 1, ino, log => do
    let sfi := Dinode.ofBlock (diskread d ino)
    let log := log ++ [ino]
    let log ← (if sfi.sfiType = sfsTypeDir ∧ o.dodirs = true then dumpdir d sfi log
      else .ok log : Except Halt (List UInt32))
    let log ← (if sfi.sfiType = sfsTypeFile ∧ o.dofiles = true then dumpfile d sfi log
      else .ok log : Except Halt (List UInt32))
    if sfi.sfiType = sfsTypeDir ∧ o.recurse = true then recursedir d (dumpinode d o k) sfi log
    else .ok log

/-- The dump of the root returns. It has then dumped finitely many inodes, those in `log`. -/
def Returns (d : Disk) (o : Options) : Prop := ∃ k log, dumpinode d o k sfsRootdirIno [] = .ok log

/-! ### Loops that may end early -/

section Loops

variable {α β ε : Type} {f : α → β → Except ε α}

theorem exists_of_bind_ok {x : Except ε α} {g : α → Except ε β} {b : β} (h : x >>= g = .ok b) :
    ∃ a, x = .ok a ∧ g a = .ok b := by
  cases x with
  | error e => exact nomatch h
  | ok a => exact ⟨a, rfl, h⟩

/-- In a loop that came to its end, every round did. -/
theorem ok_of_foldlM_ok {l : List β} {a r : α} (h : l.foldlM f a = .ok r) {b : β} (hb : b ∈ l) :
    ∃ a' r', f a' b = .ok r' := by
  induction l generalizing a with
  | nil => exact nomatch hb
  | cons c l ih =>
    rw [List.foldlM_cons] at h
    obtain ⟨a', ha', hrest⟩ := exists_of_bind_ok h
    rcases List.mem_cons.mp hb with rfl | hb
    · exact ⟨a, a', ha'⟩
    · exact ih hrest hb

theorem foldl_bind (l : List β) (x : Except ε α) :
    l.foldl (fun acc b => acc >>= fun a => f a b) x = x >>= fun a => l.foldlM f a := by
  induction l generalizing x with
  | nil => exact (bind_pure x).symm
  | cons b l ih =>
    rw [List.foldl_cons, ih, bind_assoc]
    rfl

end Loops

/-! ### A dump that returns -/

/-- **A walk that returned** has gone through the blocks of the file, and `doblock` has returned for
each of them. -/
theorem traverseDump_ok {d : Disk} {sfi : Dinode} {doblock : UInt32 → UInt32 → Dump}
    {log out : List UInt32} (h : traverseDump d sfi doblock log = .ok out) :
    (numblocks sfi).toNat ≤ 143 ∧
      (List.range (numblocks sfi).toNat).foldlM (fun log b =>
        doblock (UInt32.ofNat b) (Sfsck.Build.os161.blockAt d sfi b) log) log = .ok out := by
  rw [traverseDump, traverse_of_ptr (Sfsck.Build.os161.blockAt d sfi)] at h
  · dsimp only at h
    rw [foldl_bind (f := fun log b => doblock (UInt32.ofNat b)
      (Sfsck.Build.os161.blockAt d sfi b) log)] at h
    by_cases hn : (numblocks sfi).toNat ≤ 143
    · rw [if_pos hn, min_eq_right hn] at h
      exact ⟨hn, h⟩
    · rw [if_neg hn] at h
      obtain ⟨_, -, hout⟩ := exists_of_bind_ok h
      exact nomatch hout
  · intro i
    rw [Sfsck.Build.blockAt, dif_pos i.isLt]
  · intro i
    rw [Sfsck.Build.blockAt, dif_neg (by omega), dif_pos (by omega)]
    by_cases h0 : sfi.sfiIndirect = 0
    · rw [if_pos h0, if_pos h0]
    · rw [if_neg h0, if_neg h0]
      congr 1
      exact Fin.ext (by simp)

/-- **A dump of a directory contains those of its entries.** -/
theorem dumpinode_entry {d : Disk} {o : Options} {k : ℕ} {ino : UInt32} {log out : List UInt32}
    (h : dumpinode d o (k + 1) ino log = .ok out) (hrecurse : o.recurse = true)
    {sfi : Dinode} (hsfi : Dinode.ofBlock (diskread d ino) = sfi) (htype : sfi.sfiType = sfsTypeDir)
    (hsize : sfi.sfiSize.toNat + 511 < 4294967296) {x : ℕ} (hx : 64 * (x + 1) ≤ sfi.sfiSize.toNat)
    (hino : (Sfsck.Build.entryAt .os161 d sfi x).sfdIno ≠ 0) :
    ∃ log' out', dumpinode d o k (Sfsck.Build.entryAt .os161 d sfi x).sfdIno log' = .ok out' := by
  rw [dumpinode, hsfi] at h
  obtain ⟨log1, -, h⟩ := exists_of_bind_ok h
  obtain ⟨log2, -, h⟩ := exists_of_bind_ok h
  rw [if_pos ⟨htype, hrecurse⟩] at h
  obtain ⟨-, hblocks⟩ := traverseDump_ok h
  -- the block the entry is in
  have hmem : x / 8 ∈ List.range (numblocks sfi).toNat := by
    rw [List.mem_range, toNat_numblocks hsize]
    omega
  obtain ⟨log3, out3, hblock⟩ := ok_of_foldlM_ok hblocks hmem
  have hmapped : Sfsck.Build.os161.blockAt d sfi (x / 8) ≠ 0 := by
    intro h0
    rw [Sfsck.Build.entryAt, if_pos h0] at hino
    exact hino rfl
  rw [Sfsck.Build.entryAt, if_neg hmapped] at hino ⊢
  rw [recursedirblock, if_neg hmapped] at hblock
  -- the entry in the block
  have hentry : direntryOf (d (Sfsck.Build.os161.place (Sfsck.Build.os161.blockAt d sfi (x / 8))))
      (x % 8) ∈ direntriesOf (diskread d (Sfsck.Build.os161.blockAt d sfi (x / 8))) :=
    List.mem_map_of_mem (List.mem_range.mpr (Nat.mod_lt x (by decide)))
  obtain ⟨log4, out4, hdump⟩ := ok_of_foldlM_ok hblock hentry
  rw [if_neg hino] at hdump
  exact ⟨log4, out4, hdump⟩

/-- A directory with a `.` entry cannot be dumped recursively: the dump contains another one. -/
theorem not_dumped_of_dotted {d : Disk} {o : Options} {ino : UInt32} (hrecurse : o.recurse = true)
    (hino : ino ≠ 0)
    (htype : (Dinode.ofBlock (d (Sfsck.sector ino))).sfiType = sfsTypeDir)
    (hdot : Sfsck.Dotted d ino) (k : ℕ) :
    ∀ log out, dumpinode d o k ino log ≠ .ok out := by
  obtain ⟨x, hx, -, hself⟩ := hdot.dot
  induction k with
  | zero =>
    intro log out h
    exact nomatch h
  | succ k ih =>
    intro log out h
    have hsize := hdot.size
    have hread : Dinode.ofBlock (diskread d ino) = Dinode.ofBlock (d (Sfsck.sector ino)) := rfl
    obtain ⟨log', out', hdump⟩ := dumpinode_entry h hrecurse hread htype (by omega) hx
      (hself.trans_ne hino)
    rw [hself] at hdump
    exact ih log' out' hdump

theorem not_returns_of_dotted {d : Disk} {o : Options} (hrecurse : o.recurse = true)
    (h : (Dinode.ofBlock (d (Sfsck.sector sfsRootdirIno))).sfiType = sfsTypeDir ∧
      Sfsck.Dotted d sfsRootdirIno) : ¬Returns d o := by
  rintro ⟨k, log, hdump⟩
  exact not_dumped_of_dotted hrecurse (by decide) h.1 h.2 k [] log hdump

/-- **The recursion never ends.** On no volume on which a run of the checker ends with `EXIT_CLEAN`
does the recursive dump of the root return. -/
theorem not_returns_of_clean {env : Sfsck.Env} {img out : Disk}
    (h : Sfsck.Finishes env img Sfsck.exitClean out) {o : Options} (hrecurse : o.recurse = true) :
    ¬Returns img o :=
  not_returns_of_dotted hrecurse (Sfsck.root_of_clean h)

theorem not_returns_tidyVolume : ¬Returns Sfsck.tidyVolume ⟨true, true, true⟩ := by
  obtain ⟨out, hclean⟩ := Sfsck.finishes_tidyVolume
  exact not_returns_of_clean hclean rfl

/-- On the clean volume: the checker accepts it, and the recursive dump of the root does not
return. -/
theorem tidyVolume_not_dumped : ¬∀ (env : Sfsck.Env) (img out : Disk) (o : Options),
    Sfsck.Finishes env img Sfsck.exitClean out → o.recurse = true → Returns img o := by
  intro hclaim
  obtain ⟨out, hclean⟩ := Sfsck.finishes_tidyVolume
  have hreturns := hclaim Sfsck.ampleEnv Sfsck.tidyVolume out ⟨true, true, true⟩ hclean rfl
  exact not_returns_of_dotted rfl (Sfsck.root_of_clean hclean) hreturns

end Dumpsfs

end Os161
