import Os161.Sfs.Files
import Os161.Sfs.Refs

/-!
# The dirty flags

An inode in memory, and the freemap in memory, may be newer than their copies on the disk; the flags
`sv_dirty` and `sfs_freemapdirty` say so. This module shows that they can be relied on: whoever
changes an inode or the freemap in memory sets the flag, and nobody but `sfs_sync` clears it.

## How it is stated

`cleanSame` relates a state to a later one: what is clean in the later one was clean before, and has
not been changed. It is reflexive and transitive, a `Growth` in the sense of `Lib.Prog`, so that it
is enough to show that each primitive keeps it; `Keeps` then passes it on through sequences,
branches and loops. It is kept whether a call succeeds, fails or panics, and the flag need not be
known anywhere.

## What is deliberately absent

Nothing is said of the disk. That blocks of files and indirect blocks are written through, so that
no flag is needed for them, is a matter of `Sfs.Durable`, as is `sfs_sync`. Directories and the
other calls on vnodes have their own part in `Sfs.Directories`.

## How it composes

The lemmas follow the code from the device up: one `cleans_` lemma for each function, under its
name. `cleans_io` and `cleans_itrunc` are what `Sfs.Durable` uses.

## Main definitions

* `cleanSame` — what is clean in memory has not been changed

## Main results

* `cleans_modifyInode`, `cleans_balloc`, `cleans_bfree` — the writers, which set a flag
* `cleans_io`, `cleans_itrunc` — reading, writing and truncating
-/

namespace Os161

namespace Sfs

open Prog

/-! ### What the flags say -/

/-- An inode that is clean is as it was, and so is the freemap where it is clean; the objects have
the types they had. -/
def cleanSame : Growth State where
  le s t := (∀ j, (t.vnode? j).map (fun sv => sv.svI.sfiType) =
      (s.vnode? j).map fun sv => sv.svI.sfiType) ∧
    (∀ j sv, t.vnode? j = some sv → sv.svDirty = false → s.vnode? j = some sv) ∧
    (t.sfsFreemapdirty = false → s.sfsFreemapdirty = false ∧ t.sfsFreemap = s.sfsFreemap)
  refl _ := ⟨fun _ => rfl, fun _ _ hv _ => hv, fun h => ⟨h, rfl⟩⟩
  trans h1 h2 := ⟨fun j => (h2.1 j).trans (h1.1 j),
    fun j sv hv hc => h1.2.1 j sv (h2.2.1 j sv hv hc) hc,
    fun h => ⟨(h1.2.2 (h2.2.2 h).1).1, (h2.2.2 h).2.trans (h1.2.2 (h2.2.2 h).1).2⟩⟩

section Flags

variable {v : UInt32} {α : Type} {s t : State}

/-- Inodes and freemap are as they were. -/
theorem cleanSame_of_eq (hv : t.sfsVnodes = s.sfsVnodes) (hmap : t.sfsFreemap = s.sfsFreemap)
    (hdirty : t.sfsFreemapdirty = s.sfsFreemapdirty) : cleanSame.le s t := by
  have hvnode (j : UInt32) : t.vnode? j = s.vnode? j := by
    rw [Core.vnode?, Core.vnode?, hv]
  exact ⟨fun j => by rw [hvnode], fun j sv h _ => (hvnode j).symm.trans h,
    fun h => ⟨hdirty.symm.trans h, hmap⟩⟩

/-- The freemap may have been changed, as its flag is set. -/
theorem cleanSame_of_map (hv : t.sfsVnodes = s.sfsVnodes) (hdirty : t.sfsFreemapdirty = true) :
    cleanSame.le s t := by
  have hvnode (j : UInt32) : t.vnode? j = s.vnode? j := by
    rw [Core.vnode?, Core.vnode?, hv]
  refine ⟨fun j => by rw [hvnode], fun j sv h _ => (hvnode j).symm.trans h, fun h => ?_⟩
  rw [hdirty] at h
  cases h

/-- A change of anything else. -/
theorem cleans_modify {f : Core → Core} (hf : ∀ c, (f c).sfsVnodes = c.sfsVnodes ∧
    (f c).sfsFreemap = c.sfsFreemap ∧ (f c).sfsFreemapdirty = c.sfsFreemapdirty) :
    Keeps cleanSame anyStop (modify f) :=
  ⟨fun s => cleanSame_of_eq (hf s.toCore).1 (hf s.toCore).2.1 (hf s.toCore).2.2⟩

/-- The vnodes after one of them has been changed. -/
theorem vnode?_setVnode_eq {c : Core} {f : SfsVnode → SfsVnode} (hf : ∀ sv, (f sv).svIno = sv.svIno)
    (j : UInt32) : (c.setVnode v f).vnode? j =
      (c.vnode? j).map fun sv => if j = v then f sv else sv := by
  rw [Core.vnode?, Core.vnode?, Core.setVnode, List.find?_map]
  have hsame : ((fun sv : SfsVnode => decide (sv.svIno = j)) ∘
      fun sv => if sv.svIno = v then f sv else sv) = fun sv => decide (sv.svIno = j) := by
    funext sv
    rw [Function.comp_apply]
    split
    · rw [hf]
    · rfl
  rw [hsame]
  refine Option.map_congr fun sv hsv => ?_
  rw [svIno_of_vnode? (c := c) hsv]

/-- The flag is set with every change. -/
theorem cleans_modifyInode {f : Dinode → Dinode} (hf : ∀ d, (f d).sfiType = d.sfiType) :
    Keeps cleanSame anyStop (modifyInode v f) := by
  refine ⟨fun s => ?_⟩
  have hvnode (j : UInt32) := vnode?_setVnode_eq (v := v) (c := s.toCore)
    (f := SfsVnode.dirtied f) (fun _ => rfl) j
  refine ⟨fun j => ?_, fun j sv hv hclean => ?_, fun h => ⟨h, rfl⟩⟩
  · change ((s.toCore.setVnode v (SfsVnode.dirtied f)).vnode? j).map _ = _
    rw [hvnode, Option.map_map]
    refine Option.map_congr fun sv _ => ?_
    rw [Function.comp_apply]
    split
    · exact hf sv.svI
    · rfl
  · change (s.toCore.setVnode v (SfsVnode.dirtied f)).vnode? j = some sv at hv
    rw [hvnode, Option.map_eq_some_iff] at hv
    obtain ⟨sv', hv', rfl⟩ := hv
    by_cases hj : j = v
    · rw [if_pos hj] at hclean
      cases hclean
    · rwa [if_neg hj]

theorem cleans_fail (e : Errno) : Keeps cleanSame anyStop (fail e : Sk α) := keeps_halt trivial

theorem cleans_panic (p : Panic) : Keeps cleanSame anyStop (panic p : Sk α) := keeps_halt trivial

theorem cleans_kassert (p : Prop) [Decidable p] (which : Kassert) :
    Keeps cleanSame anyStop (kassert p which) :=
  keeps_ite (keeps_pure ()) (cleans_panic _)

/-- An error that is caught leaves what has been done. -/
theorem cleans_trying {x : Sk α} (hx : Keeps cleanSame anyStop x) :
    Keeps cleanSame anyStop (trying x) := by
  refine ⟨fun s => ?_⟩
  have h := hx.sat s
  rw [run_trying]
  cases hrun : x.run s with
  | done a t =>
    rw [hrun] at h
    exact h
  | halt e t =>
    rw [hrun] at h
    cases e with
    | fail e => exact h.1
    | panic p => exact ⟨h.1, trivial⟩

theorem cleans_getVnode (j : UInt32) : Keeps cleanSame anyStop (getVnode j) := by
  refine keeps_bind keeps_get fun s => ?_
  split
  · exact keeps_pure _
  · exact cleans_panic _

/-! ### The device

None of this looks at an inode or at the freemap.
-/

/-- What the device answers, or whether there is memory. -/
theorem cleans_ask (which : World → ℕ → Bool) : Keeps cleanSame anyStop (ask which) :=
  keeps_bind keeps_get fun _ => keeps_bind (cleans_modify fun _ => ⟨rfl, rfl, rfl⟩) fun _ =>
    keeps_pure _

/-- A command to write has its own number. -/
theorem cleans_askWrite : Keeps cleanSame anyStop askWrite :=
  keeps_bind keeps_get fun _ =>
    keeps_bind ⟨fun _ => cleanSame_of_eq rfl rfl rfl⟩ fun _ => keeps_pure _

theorem cleans_uiomove (buf : List UInt8) : Keeps cleanSame anyStop (uiomove buf) := by
  refine keeps_bind keeps_get fun s => ?_
  refine keeps_bind (cleans_modify fun _ => ⟨rfl, rfl, rfl⟩) fun _ => ?_
  split
  · exact keeps_pure _
  · exact cleans_fail _
  · exact cleans_panic _

theorem cleans_uiomovezeros (n : ℕ) : Keeps cleanSame anyStop (uiomovezeros n) := by
  refine keeps_bind keeps_get fun s => ?_
  refine keeps_bind (cleans_modify fun _ => ⟨rfl, rfl, rfl⟩) fun _ => ?_
  split
  · exact keeps_pure _
  · exact cleans_fail _
  · exact cleans_panic _

theorem cleans_lhdSector (rw : UioRw) (sector : UInt32) :
    Keeps cleanSame anyStop (lhdSector rw sector) := by
  cases rw with
  | write =>
    refine keeps_bind (cleans_uiomove _) fun buf => keeps_bind cleans_askWrite fun ok => ?_
    exact keeps_ite (cleans_modify fun _ => ⟨rfl, rfl, rfl⟩) (cleans_fail _)
  | read =>
    refine keeps_bind (cleans_ask _) fun ok => keeps_ite ?_ (cleans_fail _)
    exact keeps_bind keeps_get fun s => keeps_bind (cleans_uiomove _) fun _ => keeps_pure _

/-- `lhd_io` -/
theorem cleans_lhdIo : Keeps cleanSame anyStop lhdIo := by
  refine keeps_bind keeps_get fun s => keeps_ite (cleans_fail _) (keeps_ite (cleans_fail _) ?_)
  exact keeps_foldlM (fun _ _ => cleans_lhdSector _ _) ()

/-- `sfs_rwblock`, with all its repetitions. -/
theorem cleans_rwblock : Keeps cleanSame anyStop rwblock := by
  have htry : ∀ again, Keeps cleanSame anyStop again →
      Keeps cleanSame anyStop (rwblockTry again) := by
    intro again hagain
    refine keeps_bind (cleans_trying cleans_lhdIo) fun r => ?_
    split
    · exact keeps_pure _
    · exact cleans_panic _
    · exact hagain
    · exact cleans_fail _
  have hloop : ∀ n, Keeps cleanSame anyStop (rwblockLoop n) := by
    intro n
    induction n with
    | zero => exact htry _ (cleans_fail _)
    | succ n ih => exact htry _ ih
  exact hloop 10

/-- A transfer by a `uio` of the kernel. -/
theorem cleans_withUio (ku : Uio) : Keeps cleanSame anyStop (withUio ku) := by
  refine keeps_bind keeps_get fun s => ?_
  refine keeps_bind (cleans_modify fun _ => ⟨rfl, rfl, rfl⟩) fun _ => ?_
  refine keeps_bind (cleans_trying cleans_rwblock) fun r => keeps_bind keeps_get fun t => ?_
  refine keeps_bind (cleans_modify fun _ => ⟨rfl, rfl, rfl⟩) fun _ => ?_
  split
  · exact keeps_pure _
  · exact cleans_fail _

theorem cleans_readblock (block : UInt32) : Keeps cleanSame anyStop (readblock block) :=
  keeps_bind (cleans_withUio _) fun _ => keeps_pure _

theorem cleans_writeblock (block : UInt32) (data : Block) :
    Keeps cleanSame anyStop (writeblock block data) :=
  keeps_bind (cleans_withUio _) fun _ => keeps_pure _

/-! ### Blocks

The freemap is changed by `sfs_balloc` and `sfs_bfree` only, and an inode in `sfs_bmap` only where a
block has been allocated for it.
-/

/-- `sfs_balloc` marks the block and sets the flag, and keeps both if the block cannot be cleared.
-/
theorem cleans_balloc : Keeps cleanSame anyStop balloc := by
  refine ⟨fun s => ?_⟩
  rw [balloc, run_bind_of_done (run_get s)]
  cases s.sfsFreemap.alloc with
  | error e => cases e <;> exact ⟨cleanSame.refl s, trivial⟩
  | ok r =>
    dsimp only
    rw [run_bind_of_done (run_modify _)]
    have hmark (t : State) (hv : t.sfsVnodes = s.sfsVnodes) (hd : t.sfsFreemapdirty = true) :
        cleanSame.le s t := cleanSame_of_map hv hd
    split
    · exact ⟨hmark _ rfl rfl, trivial⟩
    · -- clearing the block reports no error
      rcases run_writeblock_cases (s := { s with sfsFreemap := r.2, sfsFreemapdirty := true }) r.1
        Bytes.zero with hrun | hrun
      · rw [run_bind, run_trying, clearblock, hrun]
        exact hmark _ rfl rfl
      · rw [run_bind, run_trying, clearblock, hrun]
        exact ⟨hmark _ rfl rfl, trivial⟩

/-- `sfs_bfree` -/
theorem cleans_bfree (block : UInt32) : Keeps cleanSame anyStop (bfree block) := by
  refine ⟨fun s => ?_⟩
  cases hmap : s.sfsFreemap.unmark block with
  | none =>
    rw [run_bfree_none hmap]
    exact ⟨cleanSame.refl s, trivial⟩
  | some map =>
    rw [run_bfree hmap]
    exact cleanSame_of_map rfl rfl

/-- The end of `sfs_bmap`: the block has to be in use. -/
theorem cleans_handBack (ino fileblock block : UInt32) :
    Keeps cleanSame anyStop (handBack ino fileblock block) := by
  refine keeps_ite (keeps_pure _) (keeps_bind ?_ fun _ => keeps_ite (keeps_pure _) (cleans_panic _))
  exact keeps_bind keeps_get fun _ => keeps_ite (cleans_panic _) (keeps_pure _)

/-- `sfs_bmap` for an entry of an indirect block, which is written through. -/
theorem cleans_bmapIndirect (idblock : UInt32) (idbuf : Fin 128 → UInt32) (idoff : Fin 128)
    (doalloc : Bool) : Keeps cleanSame anyStop (bmapIndirect v idblock idbuf idoff doalloc) := by
  refine keeps_ite (keeps_bind cleans_balloc fun block => ?_) (cleans_handBack _ _ _)
  exact keeps_bind (cleans_writeblock _ _) fun _ => cleans_handBack _ _ _

/-- `sfs_bmap` -/
theorem cleans_bmap (fileblock : UInt32) (doalloc : Bool) :
    Keeps cleanSame anyStop (bmap v fileblock doalloc) := by
  rw [bmap]
  split
  · refine keeps_bind (cleans_getVnode v) fun sv => keeps_ite ?_ (cleans_handBack _ _ _)
    refine keeps_bind cleans_balloc fun block => ?_
    exact keeps_bind (cleans_modifyInode fun _ => rfl) fun _ => cleans_handBack _ _ _
  split
  · refine keeps_bind (cleans_getVnode v) fun sv => keeps_ite (keeps_pure _) (keeps_ite ?_ ?_)
    · refine keeps_bind cleans_balloc fun idblock => ?_
      exact keeps_bind (cleans_modifyInode fun _ => rfl) fun _ => cleans_bmapIndirect _ _ _ _
    · exact keeps_bind (cleans_readblock _) fun b => cleans_bmapIndirect _ _ _ _
  · exact cleans_fail _

/-! ### Requests -/

/-- `sfs_itrunc`. It changes the inode whenever it has freed a block of it, and sets the size last.
-/
theorem cleans_itrunc (len : ℤ) : Keeps cleanSame anyStop (itrunc v len) := by
  have hround : ∀ u i, Keeps cleanSame anyStop ((fun _ i => truncDirectRound v (blocklen len) i :
      Unit → Fin 15 → Sk Unit) u i) := by
    intro u i
    refine keeps_bind (cleans_getVnode v) fun sv => keeps_ite ?_ (keeps_pure ())
    exact keeps_bind (cleans_bfree _) fun _ => cleans_modifyInode fun _ => rfl
  have hsize : Keeps cleanSame anyStop (setSize v len) := cleans_modifyInode fun _ => rfl
  have hscan : ∀ acc j, Keeps cleanSame anyStop (truncIndirectRound (blocklen len) acc j) := by
    intro acc j
    unfold truncIndirectRound
    split
    · exact keeps_bind (cleans_bfree _) fun _ => keeps_bind (keeps_pure _) fun _ => keeps_pure _
    · exact keeps_bind (keeps_pure _) fun _ => keeps_pure _
  rw [itrunc_eq]
  refine keeps_bind (keeps_foldlM hround ()) fun _ => keeps_bind (cleans_getVnode v) fun sv => ?_
  refine keeps_ite (keeps_bind (cleans_readblock _) fun b => ?_) hsize
  rw [truncScan, truncIndirect_eq]
  refine keeps_bind (keeps_foldlM hscan _) fun r => keeps_ite ?_ ?_
  · exact keeps_bind (cleans_bfree _) fun _ =>
      keeps_bind (cleans_modifyInode fun _ => rfl) fun _ => hsize
  · exact keeps_bind (keeps_when (cleans_writeblock _ _)) fun _ => hsize

/-- `sfs_partialio` -/
theorem cleans_partialio (skipstart len : UInt32) :
    Keeps cleanSame anyStop (partialio v skipstart len) := by
  refine keeps_bind keeps_get fun s => keeps_bind (cleans_kassert _ _) fun _ => ?_
  refine keeps_bind (cleans_bmap _ _) fun diskblock => ?_
  have hrest (iobuf : List UInt8) : Keeps cleanSame anyStop (do
      let moved ← uiomove ((iobuf.drop skipstart.toNat).take len.toNat)
      let iobuf := iobuf.take skipstart.toNat ++ moved ++ iobuf.drop (skipstart.toNat + len.toNat)
      when (s.uio.uioRw = .write) (writeblock diskblock (blockOfList iobuf))) :=
    keeps_bind (cleans_uiomove _) fun _ => keeps_when (cleans_writeblock _ _)
  dsimp only
  split
  · exact keeps_bind (cleans_kassert _ _) fun _ => keeps_bind (keeps_pure _) hrest
  · exact keeps_bind (cleans_readblock _) fun _ => keeps_bind (keeps_pure _) hrest

/-- `sfs_blockio` -/
theorem cleans_blockio : Keeps cleanSame anyStop (blockio v) := by
  refine keeps_bind keeps_get fun s => keeps_bind (cleans_bmap _ _) fun diskblock => ?_
  refine keeps_ite (keeps_bind (cleans_kassert _ _) fun _ => cleans_uiomovezeros _) ?_
  refine keeps_bind (cleans_kassert _ _) fun _ => ?_
  refine keeps_bind (cleans_modify fun _ => ⟨rfl, rfl, rfl⟩) fun _ => ?_
  refine keeps_bind (cleans_trying cleans_rwblock) fun r => ?_
  refine keeps_bind (cleans_modify fun _ => ⟨rfl, rfl, rfl⟩) fun _ => ?_
  split
  · exact keeps_pure _
  · exact cleans_fail _

/-- `sfs_io` between the cut at the end of the file and the new size. -/
theorem cleans_ioBody : Keeps cleanSame anyStop (ioBody v) := by
  refine keeps_bind keeps_get fun s => keeps_bind (keeps_when (cleans_partialio _ _)) fun _ => ?_
  refine keeps_bind keeps_get fun t => keeps_ite (keeps_pure _) ?_
  refine keeps_bind (cleans_kassert _ _) fun _ => ?_
  refine keeps_bind (keeps_foldlM (fun _ _ => cleans_blockio) ()) fun _ => ?_
  refine keeps_bind keeps_get fun u => keeps_bind (cleans_kassert _ _) fun _ => ?_
  exact keeps_when (cleans_partialio _ _)

/-- The end of `sfs_io`: a write past the end of the file changes the size in the inode. -/
theorem cleans_ioOut (origresid extraresid : UInt32) :
    Keeps cleanSame anyStop (ioOut v origresid extraresid) := by
  refine keeps_bind keeps_get fun s => keeps_bind (cleans_getVnode v) fun sv => ?_
  refine keeps_bind (keeps_when (cleans_modifyInode fun _ => rfl)) fun _ => ?_
  exact cleans_modify fun _ => ⟨rfl, rfl, rfl⟩

/-- `sfs_io` -/
theorem cleans_io : Keeps cleanSame anyStop (io v) := by
  refine keeps_bind keeps_get fun s => keeps_bind (cleans_getVnode v) fun sv => ?_
  refine keeps_ite (keeps_pure _) ?_
  have hrest {f : Except Errno Unit → Sk Unit} (hok : Keeps cleanSame anyStop (f (.ok ())))
      (herror : ∀ e, Keeps cleanSame anyStop (f (.error e))) (extraresid : UInt32) :
      Keeps cleanSame anyStop (do
        let r ← trying (ioBody v)
        ioOut v s.uio.uioResid extraresid
        f r) := by
    refine keeps_bind (cleans_trying cleans_ioBody) fun r => ?_
    refine keeps_bind (cleans_ioOut _ _) fun _ => ?_
    cases r with
    | ok => exact hok
    | error e => exact herror e
  dsimp only
  split
  · refine keeps_bind (cleans_kassert _ _) fun _ => ?_
    refine keeps_bind (cleans_modify fun _ => ⟨rfl, rfl, rfl⟩) fun _ => ?_
    exact keeps_bind (keeps_pure _) (hrest (keeps_pure _) fun _ => cleans_fail _)
  · exact keeps_bind (keeps_pure _) (hrest (keeps_pure _) fun _ => cleans_fail _)

end Flags

end Sfs

end Os161
