import Os161.Sfs.Bmap

/-!
# Block mapping and allocation

What `sfs_bmap` does to a file, whatever the disk does: which block it hands back, what it changes,
and what a call that fails leaves behind.

A file keeps its block numbers in three places: the direct pointers and the indirect pointer of the
in-memory inode, and the entries of the indirect block on the disk. `Ptr` names a place and
`Dinode.pointer` reads it.

The clearing write and the write of the indirect block never fail, since `sfs_writeblock` does not,
so `sfs_bmap` fails in four ways only: the block is past the last entry, there is no space for the
data block or for the indirect block, or the indirect block cannot be read. In the first of them and
the last nothing has been allocated; where space runs out between the two allocations, the indirect
block is in the inode already.

## Main results

* `bmap_lookup` — what `sfs_bmap` finds, and that it changes nothing
* `bmap_failure` — a failed call leaks no block and loses no pointer
-/

namespace Os161

namespace Sfs

open Prog

/-! ### The vnode table -/

section Vnode

variable {s : State} {ino : UInt32} {sv : SfsVnode}

theorem svIno_of_vnode? {c : Core} (h : c.vnode? ino = some sv) : sv.svIno = ino := by
  have := List.find?_some h
  rwa [decide_eq_true_eq] at this

/-- The vnode that was changed. -/
theorem vnode?_setVnode {c : Core} {f : SfsVnode → SfsVnode} (hf : ∀ sv, (f sv).svIno = sv.svIno)
    (h : c.vnode? ino = some sv) : (c.setVnode ino f).vnode? ino = some (f sv) := by
  rw [Core.vnode?] at h ⊢
  rw [Core.setVnode, List.find?_map]
  have hsame : ((fun sv : SfsVnode => decide (sv.svIno = ino)) ∘
      fun sv => if sv.svIno = ino then f sv else sv) = fun sv => decide (sv.svIno = ino) := by
    funext sv
    by_cases hsv : sv.svIno = ino
    · simp [hsv, hf]
    · simp [hsv]
  rw [hsame, h, Option.map_some, if_pos (svIno_of_vnode? h)]

/-- The other vnodes. -/
theorem vnode?_setVnode_of_ne {c : Core} {f : SfsVnode → SfsVnode} {j : UInt32} (hj : j ≠ ino)
    (hf : ∀ sv, (f sv).svIno = sv.svIno) : (c.setVnode ino f).vnode? j = c.vnode? j := by
  rw [Core.vnode?, Core.vnode?, Core.setVnode, List.find?_map]
  have hsame : ((fun sv : SfsVnode => decide (sv.svIno = j)) ∘
      fun sv => if sv.svIno = ino then f sv else sv) = fun sv => decide (sv.svIno = j) := by
    funext sv
    by_cases hsv : sv.svIno = ino
    · simp [hsv, hf]
    · simp [hsv]
  rw [hsame]
  cases hfind : c.sfsVnodes.find? fun sv => decide (sv.svIno = j) with
  | none => rfl
  | some sv =>
    have hsv := svIno_of_vnode? (c := c) hfind
    rw [Option.map_some, if_neg (by rw [hsv]; exact hj)]

theorem run_getVnode (h : s.vnode? ino = some sv) : (getVnode ino).run s = .done sv s := by
  rw [getVnode, run_bind_of_done (run_get s), h]
  rfl

/-- An inode that was changed. -/
theorem vnode?_dirtied {c : Core} (f : Dinode → Dinode) (h : c.vnode? ino = some sv) :
    (c.setVnode ino (SfsVnode.dirtied f)).vnode? ino = some (sv.dirtied f) :=
  vnode?_setVnode (fun _ => rfl) h

theorem vnode?_dirtied_of_ne {c : Core} (f : Dinode → Dinode) {j : UInt32} (hj : j ≠ ino) :
    (c.setVnode ino (SfsVnode.dirtied f)).vnode? j = c.vnode? j :=
  vnode?_setVnode_of_ne hj fun _ => rfl

end Vnode

/-! ### Pointers -/

/-- A place where a file keeps a block number. -/
inductive Ptr where
  /-- `sfi_direct[i]` -/
  | direct (i : Fin 15)
  /-- `sfi_indirect` -/
  | indirect
  /-- Entry `k` of the indirect block. -/
  | entry (k : Fin 128)
  deriving DecidableEq

/-- The block number in a place, `0` if there is none. -/
def Dinode.pointer (d : Dinode) (disk : Disk) : Ptr → UInt32
  | .direct i => d.sfiDirect i
  | .indirect => d.sfiIndirect
  | .entry k => indirectAt disk d k

@[simp] theorem Dinode.pointer_direct (d : Dinode) (disk : Disk) (i : Fin 15) :
    d.pointer disk (.direct i) = d.sfiDirect i := rfl

@[simp] theorem Dinode.pointer_indirect (d : Dinode) (disk : Disk) :
    d.pointer disk .indirect = d.sfiIndirect := rfl

@[simp] theorem Dinode.pointer_entry (d : Dinode) (disk : Disk) (k : Fin 128) :
    d.pointer disk (.entry k) = indirectAt disk d k := rfl

/-! ### The parts of `sfs_bmap` -/

section Parts

variable {W : Watch fsGrowth} {E : Stop → State → Prop} {s : State}

theorem wp_getVnode {ino : UInt32} {sv : SfsVnode} {R : SfsVnode → State → Prop}
    (hv : s.vnode? ino = some sv) (h : R sv s) : wp W (getVnode ino) R E s :=
  wp_of_run_done (run_getVnode hv) h

theorem wp_modifyInode {ino : UInt32} {f : Dinode → Dinode} {R : Unit → State → Prop}
    (h : R () { s with toCore := s.toCore.setVnode ino (SfsVnode.dirtied f) }) :
    wp W (modifyInode ino f) R E s :=
  wp_modify h

/-- The state after `sfs_balloc` has handed out a block. -/
def State.allocated (s : State) (block : UInt32) : State :=
  { s with
    sfsFreemap := s.sfsFreemap.set block
    sfsFreemapdirty := true
    disk := s.written block Bytes.zero
    writes := s.writes + 1 }

/-- `sfs_balloc` hands out the first block that is not in use, or there is none. -/
theorem wp_balloc_alloc {R : UInt32 → State → Prop} (hpanic : ∀ p t, E (.panic p) t)
    (hfull : s.sfsFreemap.alloc = .error .enospc → E (.fail .enospc) s)
    (hok : ∀ block, s.sfsFreemap.alloc = .ok (block, s.sfsFreemap.set block) →
      block < s.mount.sfsSb.sbNblocks → R block (s.allocated block)) : wp W balloc R E s := by
  cases halloc : s.sfsFreemap.alloc with
  | error e =>
    cases e with
    | enospc => exact wp_of_run_halt (run_balloc_full halloc) (hfull halloc)
    | kassert =>
      refine wp_of_run_halt (e := .panic (.kassert .bitmapAlloc)) (t := s) ?_ (hpanic _ _)
      rw [balloc, run_bind_of_done (run_get s), halloc]
      rfl
  | ok r =>
    obtain ⟨block, map⟩ := r
    obtain ⟨rfl, -, -⟩ := Bitmap.alloc_ok halloc
    rw [balloc]
    refine wp_bind (wp_get fun _ => ?_)
    rw [halloc]
    dsimp only
    refine wp_bind (wp_modify ?_)
    refine wp_ite (fun _ => wp_panic (hpanic _ _)) fun hlt => ?_
    refine wp_bind (wp_trying ?_)
    rw [clearblock]
    rcases run_writeblock_cases block Bytes.zero with hrun | hrun
    · exact wp_of_run_done hrun (wp_pure fun _ => hok block halloc (UInt32.not_le.mp hlt))
    · exact wp_of_run_halt hrun (hpanic _ _)

/-- `sfs_balloc` hands out a block that was not in use, or there is none. -/
theorem wp_balloc {R : UInt32 → State → Prop} (hpanic : ∀ p t, E (.panic p) t)
    (hfull : E (.fail .enospc) s)
    (hok : ∀ block, s.sfsFreemap.bit block.toNat = false → block < s.mount.sfsSb.sbNblocks →
      R block (s.allocated block)) : wp W balloc R E s :=
  wp_balloc_alloc hpanic (fun _ => hfull) fun block halloc hlt =>
    hok block (Bitmap.alloc_ok halloc).2.1 hlt

/-- Handing a block back stops only in a panic. -/
theorem wp_handBack {ino fileblock block : UInt32} {R : UInt32 → State → Prop}
    (hpanic : ∀ p t, E (.panic p) t) (h : R block s) :
    wp W (handBack ino fileblock block) R E s := by
  rw [handBack]
  refine wp_ite (fun _ => wp_pure fun _ => h) fun _ => wp_bind ?_
  rw [bused]
  refine wp_bind (wp_get fun _ => wp_ite (fun _ => wp_panic (hpanic _ _)) fun _ => ?_)
  exact wp_pure fun _ => wp_ite (fun _ => wp_pure fun _ => h) fun _ => wp_panic (hpanic _ _)

theorem wp_writeblock_any {block : UInt32} {data : Block} {R : Unit → State → Prop}
    (hpanic : ∀ p t, E (.panic p) t)
    (h : R () { s with disk := s.written block data, writes := s.writes + 1 }) :
    wp W (writeblock block data) R E s := by
  rcases run_writeblock_cases block data with hrun | hrun
  · exact wp_of_run_done hrun h
  · exact wp_of_run_halt hrun (hpanic _ _)

theorem wp_readblock_any {block : UInt32} {R : Block → State → Prop}
    (hpanic : ∀ p t, E (.panic p) t) (hok : ∀ k, R (s.disk block) { s with tick := k })
    (hfail : ∀ k, E (.fail .eio) { s with tick := k }) : wp W (readblock block) R E s := by
  rcases run_readblock_cases block with ⟨k, hk, -⟩ | ⟨k, hk, -⟩ | ⟨hk, -⟩
  · exact wp_of_run_done hk (hok k)
  · exact wp_of_run_halt hk (hfail k)
  · exact wp_of_run_halt hk (hpanic _ _)

/-- The block is on the volume and marked in the freemap. -/
def State.InUse (s : State) (block : UInt32) : Prop :=
  block < s.mount.sfsSb.sbNblocks ∧ s.sfsFreemap.isset block = true

instance (block : UInt32) : Decidable (s.InUse block) :=
  inferInstanceAs (Decidable (_ ∧ _))

theorem run_bused {block : UInt32} (hn : block < s.mount.sfsSb.sbNblocks) :
    (bused block).run s = .done (s.sfsFreemap.isset block) s := by
  rw [bused, run_bind_of_done (run_get s), if_neg (UInt32.not_le.mpr hn)]
  rfl

/-- A block of the volume that is not marked. -/
theorem run_handBack_free (ino fileblock : UInt32) {block : UInt32} (h0 : block ≠ 0)
    (hn : block < s.mount.sfsSb.sbNblocks) (hclear : ¬s.sfsFreemap.isset block = true) :
    (handBack ino fileblock block).run s = .halt (.panic (.markedFree block fileblock ino)) s := by
  rw [handBack, if_neg h0, run_bind_of_done (run_bused hn), if_neg hclear]
  rfl

/-- What happens to the block that was found. -/
theorem run_handBack (ino fileblock block : UInt32) :
    (block = 0 ∨ s.InUse block → (handBack ino fileblock block).run s = .done block s) ∧
      (¬(block = 0 ∨ s.InUse block) →
        ∃ p, (handBack ino fileblock block).run s = .halt (.panic p) s) := by
  constructor
  · intro h
    rw [handBack]
    by_cases h0 : block = 0
    · rw [if_pos h0]
      rfl
    · obtain ⟨hn, hset⟩ := h.resolve_left h0
      rw [if_neg h0, run_bind_of_done (run_bused hn), if_pos hset]
      rfl
  · intro h
    rw [not_or] at h
    by_cases hn : block < s.mount.sfsSb.sbNblocks
    · exact ⟨_, run_handBack_free ino fileblock h.1 hn fun hset => h.2 ⟨hn, hset⟩⟩
    · have hbused : (bused block).run s = .halt (.panic (.busedRange block)) s := by
        rw [bused, run_bind_of_done (run_get s), if_pos (UInt32.not_lt.mp hn)]
        rfl
      rw [handBack, if_neg h.1]
      exact ⟨_, run_bind_of_halt hbused⟩

end Parts

/-! ### Looking a block up -/

section Lookup

variable {s : State} {ino : UInt32} {sv : SfsVnode}

/-- `sfs_bmap` at a hole among the direct blocks. -/
theorem run_bmap_direct_alloc (hv : s.vnode? ino = some sv) {fileblock : UInt32} (i : Fin 15)
    (hi : fileblock.toNat = i) (h0 : sv.svI.sfiDirect i = 0) : (bmap ino fileblock true).run s =
      (balloc >>= fun block => modifyInode ino (fun d => d.setDirect i block) >>= fun _ =>
        handBack ino (UInt32.ofNat i) block).run s := by
  have hlt : fileblock.toNat < 15 := hi ▸ i.isLt
  have hfin : (⟨fileblock.toNat, hlt⟩ : Fin 15) = i := Fin.ext hi
  rw [bmap, dif_pos hlt, hfin, bmapDirect]
  exact run_bind_eq (run_getVnode hv) (if_pos ⟨h0, rfl⟩)

/-- `sfs_bmap` in the indirect block, when there is none. -/
theorem run_bmap_hole (hv : s.vnode? ino = some sv) {fileblock : UInt32} (idoff : Fin 128)
    (hoff : fileblock.toNat = 15 + idoff) (h0 : sv.svI.sfiIndirect = 0) :
    (bmap ino fileblock false).run s = .done 0 s := by
  have hidoff := idoff.isLt
  rw [bmap, dif_neg (by omega), dif_pos (by omega)]
  refine (run_bind_of_done (run_getVnode hv)).trans ?_
  rw [if_pos ⟨h0, rfl⟩]
  rfl

/-- `sfs_bmap` in the indirect block, when there is one. -/
theorem run_bmap_entry (hv : s.vnode? ino = some sv) {fileblock : UInt32} (idoff : Fin 128)
    (hoff : fileblock.toNat = 15 + idoff) (h0 : sv.svI.sfiIndirect ≠ 0) (doalloc : Bool) :
    (bmap ino fileblock doalloc).run s =
      (readblock sv.svI.sfiIndirect >>= fun b =>
        bmapIndirect ino sv.svI.sfiIndirect (indirectOf b) idoff doalloc).run s := by
  have hidoff := idoff.isLt
  have hlt : fileblock.toNat - 15 < 128 := by omega
  have hfin : (⟨fileblock.toNat - 15, hlt⟩ : Fin 128) = idoff := Fin.ext (by
    change fileblock.toNat - 15 = idoff
    omega)
  rw [bmap, dif_neg (by omega), dif_pos hlt, hfin]
  refine (run_bind_of_done (run_getVnode hv)).trans ?_
  rw [if_neg (fun h => h0 h.1), if_neg h0]

/-- The same, once the indirect block has been read. -/
theorem run_bmap_entry_of_done (hv : s.vnode? ino = some sv) {fileblock : UInt32} (idoff : Fin 128)
    (hoff : fileblock.toNat = 15 + idoff) (h0 : sv.svI.sfiIndirect ≠ 0) (doalloc : Bool)
    {b : Block} {t : State} (hread : (readblock sv.svI.sfiIndirect).run s = .done b t) :
    (bmap ino fileblock doalloc).run s =
      (bmapIndirect ino sv.svI.sfiIndirect (indirectOf b) idoff doalloc).run t :=
  (run_bmap_entry hv idoff hoff h0 doalloc).trans (run_bind_eq hread rfl)

theorem bmapDirect_lookup (ino : UInt32) (i : Fin 15) : bmapDirect ino i false =
    getVnode ino >>= fun sv => handBack ino (UInt32.ofNat i) (sv.svI.sfiDirect i) := by
  rw [bmapDirect]
  refine congrArg _ (funext fun sv => ?_)
  exact if_neg fun h => Bool.noConfusion h.2

theorem bmapIndirect_lookup (ino idblock : UInt32) (idbuf : Fin 128 → UInt32) (idoff : Fin 128) :
    bmapIndirect ino idblock idbuf idoff false =
      handBack ino (UInt32.ofNat idoff) (idbuf idoff) := by
  rw [bmapIndirect]
  exact if_neg fun h => Bool.noConfusion h.2

/-- `sfs_bmap` without allocation comes down to handing a block back. -/
theorem run_bmap_lookup_eq (hv : s.vnode? ino = some sv) {fileblock : UInt32}
    (hb : fileblock.toNat < 143) (hmedia : ∀ k, s.mount.world.media .read k = true)
    (hind : 15 ≤ fileblock.toNat → sv.svI.sfiIndirect ≠ 0 →
      sv.svI.sfiIndirect < s.mount.dBlocks) :
    ∃ fb k, (bmap ino fileblock false).run s =
      (handBack ino fb (fileBlock s.disk sv.svI fileblock.toNat)).run { s with tick := k } := by
  by_cases hdirect : fileblock.toNat < 15
  · refine ⟨UInt32.ofNat fileblock.toNat, s.tick, ?_⟩
    rw [bmap, dif_pos hdirect, bmapDirect_lookup, run_bind_of_done (run_getVnode hv), fileBlock,
      dif_pos hdirect]
  obtain ⟨idoff, hoff⟩ : ∃ idoff : Fin 128, fileblock.toNat = 15 + idoff :=
    ⟨⟨fileblock.toNat - 15, by omega⟩, by dsimp only; omega⟩
  have hblock := fileBlock_entry s.disk sv.svI idoff
  rw [hoff, hblock, indirectAt]
  by_cases h0 : sv.svI.sfiIndirect = 0
  · refine ⟨0, s.tick, ?_⟩
    rw [run_bmap_hole hv idoff hoff h0, if_pos h0, handBack, if_pos rfl]
    rfl
  · rw [if_neg h0]
    rcases run_readblock _ (hind (by omega) h0) with ⟨k, hk⟩ | ⟨k, -, hbad⟩
    · refine ⟨UInt32.ofNat idoff, k, ?_⟩
      rw [run_bmap_entry_of_done hv idoff hoff h0 false hk, bmapIndirect_lookup]
    · rw [hmedia] at hbad
      cases hbad

/-- **Looking a block up** finds the block the volume has for it, and changes nothing; a block that
is not in use is a panic. -/
theorem bmap_lookup (hv : s.vnode? ino = some sv) {fileblock : UInt32}
    (hb : fileblock.toNat < 143) (hmedia : ∀ k, s.mount.world.media .read k = true)
    (hind : 15 ≤ fileblock.toNat → sv.svI.sfiIndirect ≠ 0 →
      sv.svI.sfiIndirect < s.mount.dBlocks) {block : UInt32}
    (hblock : fileBlock s.disk sv.svI fileblock.toNat = block) :
    ∃ k, (block = 0 ∨ s.InUse block →
        (bmap ino fileblock false).run s = .done block { s with tick := k }) ∧
      (¬(block = 0 ∨ s.InUse block) →
        ∃ p, (bmap ino fileblock false).run s = .halt (.panic p) { s with tick := k }) := by
  obtain ⟨fb, k, hrun⟩ := run_bmap_lookup_eq hv hb hmedia hind
  obtain ⟨hdone, hpanic⟩ := run_handBack (s := { s with tick := k }) ino fb block
  rw [hrun, hblock]
  exact ⟨k, hdone, hpanic⟩

end Lookup

/-! ### A call that fails -/

section Failure

variable {s t : State} {ino : UInt32} {sv : SfsVnode}

/-- From `s` to `t` the file `ino` has kept its pointers, and what has been marked in the freemap is
in one of its pointers; no block that was in use has been written, and no other vnode has changed.
-/
def Unleaked (s t : State) (ino : UInt32) (sv : SfsVnode) : Prop :=
  (∃ sv', t.vnode? ino = some sv' ∧
    (∀ i, t.sfsFreemap.bit i = true → s.sfsFreemap.bit i = false →
      ∃ p, (sv'.svI.pointer t.disk p).toNat = i) ∧
    ∀ p, sv.svI.pointer s.disk p ≠ 0 → sv'.svI.pointer t.disk p = sv.svI.pointer s.disk p) ∧
  (∀ block, s.sfsFreemap.isset block = true → t.disk block = s.disk block) ∧
  ∀ j, j ≠ ino → t.vnode? j = s.vnode? j

/-- Only the tick has moved. -/
theorem Unleaked.tick (hv : s.vnode? ino = some sv) (k : ℕ) :
    Unleaked s { s with tick := k } ino sv :=
  ⟨⟨sv, hv, fun _ h1 h0 => absurd (h1.symm.trans h0) Bool.noConfusion, fun _ _ => rfl⟩,
    fun _ _ => rfl, fun _ _ => rfl⟩

/-- The indirect block has been allocated, and nothing else. -/
theorem Unleaked.indirect (hv : s.vnode? ino = some sv) {block : UInt32}
    (h0 : sv.svI.sfiIndirect = 0) (hclear : s.sfsFreemap.bit block.toNat = false) :
    Unleaked s { s.allocated block with
      toCore := (s.allocated block).setVnode ino
        (SfsVnode.dirtied fun d => { d with sfiIndirect := block }) } ino sv := by
  refine ⟨⟨_, vnode?_dirtied (c := (s.allocated block).toCore) _ hv,
    fun i h1 hi => ?_, fun p hp => ?_⟩,
    fun b hb => ?_, fun j hj => vnode?_dirtied_of_ne (c := (s.allocated block).toCore) _ hj⟩
  · refine ⟨.indirect, ?_⟩
    have h1 : (s.sfsFreemap.set block).bit i = true := h1
    rw [Bitmap.bit_set, hi, Bool.false_or, decide_eq_true_eq] at h1
    exact h1.symm
  · cases p with
    | direct i => rfl
    | indirect => exact absurd h0 hp
    | entry k =>
      rw [Dinode.pointer_entry, indirectAt, if_pos h0] at hp
      exact absurd rfl hp
  · change s.written block Bytes.zero b = s.disk b
    have hne : b ≠ block := by
      rintro rfl
      rw [Bitmap.isset_eq_bit, hclear] at hb
      cases hb
    rw [State.written]
    split
    · rw [Function.update_of_ne hne]
    · rfl

/-- What a stop of `sfs_bmap` leaves behind. -/
def Unleaked.stop (s : State) (ino : UInt32) (sv : SfsVnode) : Stop → State → Prop
  | .fail _, t => Unleaked s t ino sv
  | .panic _, _ => True

theorem wp_bmapDirect_stop (hv : s.vnode? ino = some sv) (i : Fin 15) :
    wp (Watch.any fsGrowth) (bmapDirect ino i true) (fun _ _ => True)
      (Unleaked.stop s ino sv) s := by
  rw [bmapDirect]
  refine wp_bind (wp_getVnode hv (wp_ite (fun _ => wp_bind ?_) fun _ => ?_))
  · refine wp_balloc (fun _ _ => trivial) (Unleaked.tick hv s.tick) fun block _ _ => ?_
    exact wp_bind (wp_modifyInode (wp_handBack (fun _ _ => trivial) trivial))
  · exact wp_handBack (fun _ _ => trivial) trivial

/-- The last part of `sfs_bmap`, reached in a state `t` with nothing leaked. -/
theorem wp_bmapIndirect_stop (ht : Unleaked s t ino sv) (idblock : UInt32)
    (idbuf : Fin 128 → UInt32) (idoff : Fin 128) :
    wp (Watch.any fsGrowth) (bmapIndirect ino idblock idbuf idoff true) (fun _ _ => True)
      (Unleaked.stop s ino sv) t := by
  rw [bmapIndirect]
  refine wp_ite (fun _ => wp_bind ?_) fun _ => wp_handBack (fun _ _ => trivial) trivial
  refine wp_balloc (fun _ _ => trivial) ht fun block _ _ => wp_bind ?_
  exact wp_writeblock_any (fun _ _ => trivial) (wp_handBack (fun _ _ => trivial) trivial)

theorem wp_bmap_stop (hv : s.vnode? ino = some sv) (fileblock : UInt32) :
    wp (Watch.any fsGrowth) (bmap ino fileblock true) (fun _ _ => True)
      (Unleaked.stop s ino sv) s := by
  rw [bmap]
  split
  · exact wp_bmapDirect_stop hv _
  · split
    · refine wp_bind (wp_getVnode hv ?_)
      dsimp only
      refine wp_ite (fun h => absurd h.2 Bool.noConfusion) fun _ => ?_
      refine wp_ite (fun h0 => wp_bind ?_) fun _ => wp_bind ?_
      · refine wp_balloc (fun _ _ => trivial) (Unleaked.tick hv s.tick) fun block hclear _ => ?_
        refine wp_bind (wp_modifyInode ?_)
        exact wp_bmapIndirect_stop (Unleaked.indirect hv h0 hclear) _ _ _
      · exact wp_readblock_any (fun _ _ => trivial)
          (fun k => wp_bmapIndirect_stop (Unleaked.tick hv k) _ _ _) fun k => Unleaked.tick hv k
    · exact wp_fail (Unleaked.tick hv s.tick)

/-- **A call of `sfs_bmap` that fails** leaks no block: what it has marked in the freemap is in the
inode. It loses no pointer. -/
theorem bmap_failure (hv : s.vnode? ino = some sv) (fileblock : UInt32) {e : Errno}
    (hrun : (bmap ino fileblock true).run s = .halt (.fail e) t) : Unleaked s t ino sv := by
  have hsat := sat_of_wp (wp_bmap_stop hv fileblock)
  rwa [hrun] at hsat

/-- A file of the given size with the given direct and indirect pointers. -/
def sampleFile (size : UInt32) (direct : Fin 15 → UInt32) (indirect : UInt32) : Dinode where
  sfiSize := size
  sfiType := sfsTypeFile
  sfiLinkcount := 1
  sfiDirect := direct
  sfiIndirect := indirect
  sfiWaste _ := 0

/-- A volume of eight blocks with the file `d` in block `3`; `bits` are the eight bits of the
freemap, and `ok` says whether the disk works. -/
def sampleVolume (ok : Bool) (disk : Disk) (d : Dinode) (bits : UInt8) : State where
  disk := disk
  sfsVnodes := [⟨3, d, false, 1⟩]
  sfsFreemap := ⟨8, fun _ => bits⟩
  sfsFreemapdirty := false
  sfsSuperdirty := false
  uio := Uio.uioKinit [] 0 0 .read
  tick := 0
  writes := 0
  mount := ⟨⟨fun _ _ => ok, fun _ => true, fun _ => true⟩, 8, ⟨sfsMagic, 8, Bytes.zero, fun _ => 0⟩⟩

/-- An empty file on a volume whose only free block is `4`. -/
def tightVolume : State :=
  sampleVolume true (fun _ => Bytes.zero) (sampleFile 0 (fun _ => 0) 0) 0xef

/-- File block `15` needs two blocks: the first becomes the indirect block, and there is no second.
-/
theorem bmap_failure_full : ∃ t, (bmap 3 15 true).run tightVolume = .halt (.fail .enospc) t ∧
    (t.vnode? 3).map (fun sv => sv.svI.sfiIndirect) = some 4 ∧
    Unleaked tightVolume t 3 ⟨3, sampleFile 0 (fun _ => 0) 0, false, 1⟩ := by
  have hstop : ((bmap 3 15 true).run tightVolume).stopped = some (.fail .enospc) := by
    decide +kernel
  have hkept : (((bmap 3 15 true).run tightVolume).state.vnode? 3).map
      (fun sv => sv.svI.sfiIndirect) = some 4 := by decide +kernel
  obtain ⟨t, hrun⟩ := Outcome.exists_of_stopped hstop
  rw [hrun] at hkept
  exact ⟨t, hrun, hkept, bmap_failure rfl 15 hrun⟩

end Failure

end Sfs

end Os161
