import Os161.Lib.Sparse
import Os161.Sfs.Mapping

/-!
# What a file contains

The contents of a file as a sparse file, and what `sfs_bmap` does to it when it allocates: the block
asked for becomes present and is zero, everything else stays.

A file is `Tidy` when its blocks are in use and each is in one place. What is handed out by
`sfs_balloc` was not in use, so a tidy file stays tidy, and what belongs to anything else on the
volume is left alone. `Grown` says so without naming the anything else: a block that was in use and
is not the file's keeps its contents.

Writes are taken to be carried out by the disk; without that the contents are not what they are said
to be, whatever the codes returned (`run_writeblock`). Reads may fail.

## Main definitions

* `image` — the contents of a file
* `State.Tidy`, `State.VolumeOk` — the file and the volume are consistent
* `Grown` — what giving a file blocks and writing to them may change

## Main results

* `wp_bmap_mapped`, `wp_bmap_alloc` — `sfs_bmap` at a block that is there, and in general
* `Grown.write` — writing a block of the file
-/

namespace Os161

namespace Sfs

open Prog

/-! ### Contents -/

/-- The contents of a file. -/
def image (disk : Disk) (d : Dinode) : Sparse 512 := fun k =>
  if fileBlock disk d k = 0 then none else some (disk (fileBlock disk d k))

/-- The place of block `k` of a file. -/
def Ptr.ofBlock (k : ℕ) : Option Ptr :=
  if h : k < 15 then some (.direct ⟨k, h⟩)
  else if h : k - 15 < 128 then some (.entry ⟨k - 15, h⟩)
  else none

/-- The block `b` is in a place of the file. -/
def Dinode.Has (d : Dinode) (disk : Disk) (b : UInt32) : Prop := b ≠ 0 ∧ ∃ p, d.pointer disk p = b

section Image

variable {disk disk' : Disk} {d d' : Dinode} {j k : ℕ} {p : Ptr}

theorem fileBlock_of_ofBlock (disk : Disk) (d : Dinode) (h : Ptr.ofBlock k = some p) :
    fileBlock disk d k = d.pointer disk p := by
  rw [Ptr.ofBlock] at h
  rw [fileBlock]
  by_cases hdirect : k < 15
  · rw [dif_pos hdirect] at h ⊢
    obtain rfl := Option.some.inj h
    rfl
  · rw [dif_neg hdirect] at h ⊢
    by_cases hentry : k - 15 < 128
    · rw [dif_pos hentry] at h ⊢
      obtain rfl := Option.some.inj h
      rfl
    · rw [dif_neg hentry] at h
      cases h

theorem fileBlock_of_ofBlock_none (disk : Disk) (d : Dinode) (h : Ptr.ofBlock k = none) :
    fileBlock disk d k = 0 := by
  rw [Ptr.ofBlock] at h
  rw [fileBlock]
  by_cases hdirect : k < 15
  · rw [dif_pos hdirect] at h
    cases h
  · rw [dif_neg hdirect] at h ⊢
    by_cases hentry : k - 15 < 128
    · rw [dif_pos hentry] at h
      cases h
    · exact dif_neg hentry

theorem Ptr.ofBlock_direct (i : Fin 15) : Ptr.ofBlock i = some (.direct i) := dif_pos i.isLt

theorem Ptr.ofBlock_entry (i : Fin 128) : Ptr.ofBlock (15 + i) = some (.entry i) := by
  have hi := i.isLt
  have hsub : 15 + (i : ℕ) - 15 = i := Nat.add_sub_cancel_left 15 i
  rw [ofBlock, dif_neg (by omega), dif_pos (by omega)]
  exact congrArg (fun k => some (Ptr.entry k)) (Fin.ext hsub)

/-- The place of a block says which block it is. -/
theorem Ptr.eq_of_ofBlock (h : Ptr.ofBlock k = some p) :
    (∃ i : Fin 15, p = .direct i ∧ k = i) ∨ ∃ i : Fin 128, p = .entry i ∧ k = 15 + i := by
  rw [ofBlock] at h
  by_cases hdirect : k < 15
  · rw [dif_pos hdirect] at h
    exact Or.inl ⟨⟨k, hdirect⟩, (Option.some.inj h).symm, rfl⟩
  · rw [dif_neg hdirect] at h
    by_cases hentry : k - 15 < 128
    · rw [dif_pos hentry] at h
      refine Or.inr ⟨⟨k - 15, hentry⟩, (Option.some.inj h).symm, ?_⟩
      dsimp only
      omega
    · rw [dif_neg hentry] at h
      cases h

theorem Ptr.ofBlock_inj (hk : Ptr.ofBlock k = some p) (hj : Ptr.ofBlock j = some p) : k = j := by
  rcases eq_of_ofBlock hk with ⟨i, rfl, rfl⟩ | ⟨i, rfl, rfl⟩ <;>
    rcases eq_of_ofBlock hj with ⟨i', h, rfl⟩ | ⟨i', h, rfl⟩ <;> cases h <;> rfl

theorem Ptr.ne_indirect_of_ofBlock (h : Ptr.ofBlock k = some p) : p ≠ .indirect := by
  rcases eq_of_ofBlock h with ⟨i, rfl, -⟩ | ⟨i, rfl, -⟩ <;> exact fun hc => by cases hc

theorem exists_ofBlock (h : fileBlock disk d k ≠ 0) :
    ∃ p, Ptr.ofBlock k = some p ∧ p ≠ .indirect ∧ fileBlock disk d k = d.pointer disk p := by
  cases hp : Ptr.ofBlock k with
  | none => exact absurd (fileBlock_of_ofBlock_none disk d hp) h
  | some p =>
    exact ⟨p, rfl, Ptr.ne_indirect_of_ofBlock hp, fileBlock_of_ofBlock disk d hp⟩

theorem lt_of_fileBlock_ne (h : fileBlock disk d k ≠ 0) : k < 143 := by
  obtain ⟨p, hp, -⟩ := exists_ofBlock h
  rcases Ptr.eq_of_ofBlock hp with ⟨i, -, hi⟩ | ⟨i, -, hi⟩ <;> have := i.isLt <;> omega

theorem image_of_zero (h : fileBlock disk d k = 0) : image disk d k = none := if_pos h

theorem image_of_ne (h : fileBlock disk d k ≠ 0) :
    image disk d k = some (disk (fileBlock disk d k)) := if_neg h

theorem isSome_image (disk : Disk) (d : Dinode) (k : ℕ) :
    (image disk d k).isSome = true ↔ fileBlock disk d k ≠ 0 := by
  by_cases h : fileBlock disk d k = 0
  · simp [image_of_zero h, h]
  · simp [image_of_ne h, h]

/-- One block of the file, on two disks. -/
theorem image_congr (hptr : fileBlock disk' d' k = fileBlock disk d k)
    (hdisk : fileBlock disk d k ≠ 0 →
      disk' (fileBlock disk d k) = disk (fileBlock disk d k)) :
    image disk' d' k = image disk d k := by
  rw [image, image, hptr]
  split
  · rfl
  · rw [hdisk ‹_›]

end Image

/-! ### Consistency -/

/-- The blocks of a file are in use, and each of them is in one place only. -/
structure State.Tidy (s : State) (d : Dinode) : Prop where
  inUse : ∀ p, d.pointer s.disk p ≠ 0 → s.InUse (d.pointer s.disk p)
  inj : ∀ p q, d.pointer s.disk p ≠ 0 → d.pointer s.disk p = d.pointer s.disk q → p = q

/-- The volume fits on its device, and the freemap marks the superblock and all that is past the end
of the volume. -/
structure State.VolumeOk (s : State) : Prop where
  fits : s.mount.sfsSb.sbNblocks ≤ s.mount.dBlocks
  nbits : s.sfsFreemap.nbits.toNat + 7 < 2 ^ 32
  padded : s.sfsFreemap.Padded
  past : ∀ i, s.mount.sfsSb.sbNblocks.toNat ≤ i → i < s.sfsFreemap.nbits.toNat →
    s.sfsFreemap.bit i = true
  super : s.sfsFreemap.bit 0 = true

/-- No block is free. -/
def State.Full (s : State) : Prop := ∀ i < s.sfsFreemap.nbits.toNat, s.sfsFreemap.bit i = true

/-- The disk carries out every command to write. -/
def State.WritesWork (s : State) : Prop := ∀ k, s.mount.world.media .write k = true

theorem State.WritesWork.written {s : State} (h : s.WritesWork) (block : UInt32) (data : Block) :
    s.written block data = Function.update s.disk block data := if_pos (h s.writes)

/-- It carries out the commands to write given between `s` and `t`. -/
def State.WritesTo (s t : State) : Prop :=
  ∀ k, s.writes ≤ k → k < t.writes → s.mount.world.media .write k = true

theorem State.WritesTo.written {s t : State} (h : s.WritesTo t) (hlt : s.writes < t.writes)
    (block : UInt32) (data : Block) :
    s.written block data = Function.update s.disk block data := if_pos (h _ (Nat.le_refl _) hlt)

/-- It carries out those that are given in the runs that are watched. -/
def State.Writable (s : State) (W : Watch fsGrowth) : Prop := ∀ t, W.ok t → s.WritesTo t

theorem State.WritesWork.writable {s : State} (h : s.WritesWork) (W : Watch fsGrowth) :
    s.Writable W := fun _ _ k _ _ => h k

theorem State.Writable.later {s t : State} {W : Watch fsGrowth} (h : s.Writable W)
    (hgrows : fsGrowth.le s t) : t.Writable W := fun u hu k hk hlt => by
  rw [← hgrows.1]
  exact h u hu k (hgrows.2.trans hk) hlt

/-- From `s` to `t` the file `ino` may have been given blocks that were free, and its blocks may
have been written; the rest of the volume is as before. -/
structure Grown (s t : State) (ino : UInt32) (sv sv' : SfsVnode) : Prop where
  mount : t.mount = s.mount
  writes : s.writes ≤ t.writes
  vnode : t.vnode? ino = some sv'
  others : ∀ j, j ≠ ino → t.vnode? j = s.vnode? j
  type : sv'.svI.sfiType = sv.svI.sfiType
  links : sv'.svI.sfiLinkcount = sv.svI.sfiLinkcount
  nbits : t.sfsFreemap.nbits = s.sfsFreemap.nbits
  marked : ∀ i, s.sfsFreemap.bit i = true → t.sfsFreemap.bit i = true
  kept : ∀ p, sv.svI.pointer s.disk p ≠ 0 → sv'.svI.pointer t.disk p = sv.svI.pointer s.disk p
  fresh : ∀ p, sv'.svI.pointer t.disk p ≠ 0 → sv'.svI.pointer t.disk p = sv.svI.pointer s.disk p ∨
    s.sfsFreemap.isset (sv'.svI.pointer t.disk p) = false
  disk : ∀ b, s.sfsFreemap.isset b = true → ¬sv.svI.Has s.disk b → t.disk b = s.disk b
  tidy : t.Tidy sv'.svI

section Grown

variable {s t u : State} {ino : UInt32} {sv sv' sv'' : SfsVnode}

theorem State.InUse.bit {block : UInt32} (h : s.InUse block) :
    s.sfsFreemap.bit block.toNat = true := by
  rw [← Bitmap.isset_eq_bit]
  exact h.2

/-- Only the tick and the `uio` have moved. -/
theorem Grown.same (hv : s.vnode? ino = some sv) (htidy : s.Tidy sv.svI) (u : Uio) (k : ℕ) :
    Grown s { s with uio := u, tick := k } ino sv sv where
  mount := rfl
  writes := Nat.le_refl _
  vnode := hv
  others _ _ := rfl
  type := rfl
  links := rfl
  nbits := rfl
  marked _ h := h
  kept _ _ := rfl
  fresh _ _ := Or.inl rfl
  disk _ _ _ := rfl
  tidy := ⟨htidy.inUse, htidy.inj⟩

/-- A block in use that is not the file's stays in use, does not become the file's, and holds what
it held. -/
theorem Grown.aside (h : Grown s t ino sv sv') {b : UInt32} (hb : s.sfsFreemap.isset b = true)
    (hnot : ¬sv.svI.Has s.disk b) :
    t.sfsFreemap.isset b = true ∧ ¬sv'.svI.Has t.disk b ∧ t.disk b = s.disk b := by
  refine ⟨?_, ?_, h.disk b hb hnot⟩
  · rw [Bitmap.isset_eq_bit] at hb ⊢
    exact h.marked _ hb
  · rintro ⟨h0, p, hp⟩
    rcases h.fresh p (by rwa [hp]) with hsame | hfree
    · exact hnot ⟨h0, p, hsame.symm.trans hp⟩
    · rw [hp, hb] at hfree
      cases hfree

theorem Grown.trans (h : Grown s t ino sv sv') (h' : Grown t u ino sv' sv'') :
    Grown s u ino sv sv'' where
  mount := h'.mount.trans h.mount
  writes := h.writes.trans h'.writes
  vnode := h'.vnode
  others j hj := (h'.others j hj).trans (h.others j hj)
  type := h'.type.trans h.type
  links := h'.links.trans h.links
  nbits := h'.nbits.trans h.nbits
  marked i hi := h'.marked i (h.marked i hi)
  kept p hp := by
    have hpt := h.kept p hp
    rw [h'.kept p (by rwa [hpt]), hpt]
  fresh p hp := by
    rcases h'.fresh p hp with hsame | hfree
    · rw [hsame] at hp ⊢
      exact h.fresh p hp
    · refine Or.inr ?_
      rw [Bitmap.isset_eq_bit] at hfree ⊢
      exact Bool.eq_false_of_not_eq_true fun hc => by
        rw [h.marked _ hc] at hfree
        cases hfree
  disk b hb hnot := by
    obtain ⟨hbt, hnott, hsame⟩ := h.aside hb hnot
    exact (h'.disk b hbt hnott).trans hsame
  tidy := h'.tidy

theorem Grown.volumeOk (h : Grown s t ino sv sv') (hvol : s.VolumeOk) : t.VolumeOk where
  fits := by
    rw [h.mount]
    exact hvol.fits
  nbits := by
    rw [h.nbits]
    exact hvol.nbits
  padded i hlo hhi := by
    rw [h.nbits] at hlo hhi
    exact h.marked i (hvol.padded i hlo hhi)
  past i hlo hhi := by
    rw [h.mount] at hlo
    rw [h.nbits] at hhi
    exact h.marked i (hvol.past i hlo hhi)
  super := h.marked 0 hvol.super

theorem Grown.writable (h : Grown s t ino sv sv') {W : Watch fsGrowth} (hw : s.Writable W) :
    t.Writable W := hw.later ⟨h.mount.symm, h.writes⟩

/-- The blocks of the file that were there are where they were. -/
theorem Grown.fileBlock_eq (h : Grown s t ino sv sv') {k : ℕ} (hk : fileBlock s.disk sv.svI k ≠ 0) :
    fileBlock t.disk sv'.svI k = fileBlock s.disk sv.svI k := by
  obtain ⟨p, hp, -, heq⟩ := exists_ofBlock hk
  rw [heq] at hk ⊢
  rw [fileBlock_of_ofBlock _ _ hp]
  exact h.kept p hk

end Grown

/-! ### Giving a file a block -/

/-- From `s` to `t` the block `block`, which was free, has been put into the place `p` of the file
`ino`, where there was none, whatever it holds. -/
structure Given (s t : State) (ino : UInt32) (sv sv' : SfsVnode) (p : Ptr) (block : UInt32) :
    Prop where
  mount : t.mount = s.mount
  writes : s.writes ≤ t.writes
  vnode : t.vnode? ino = some sv'
  others : ∀ j, j ≠ ino → t.vnode? j = s.vnode? j
  type : sv'.svI.sfiType = sv.svI.sfiType
  links : sv'.svI.sfiLinkcount = sv.svI.sfiLinkcount
  map : t.sfsFreemap = s.sfsFreemap.set block
  free : s.sfsFreemap.bit block.toNat = false
  lt : block < s.mount.sfsSb.sbNblocks
  pos : block ≠ 0
  empty : sv.svI.pointer s.disk p = 0
  pointer : ∀ q, sv'.svI.pointer t.disk q = if q = p then block else sv.svI.pointer s.disk q
  disk : ∀ x, x ≠ block → (x ≠ 0 → x ≠ sv.svI.sfiIndirect) → t.disk x = s.disk x

/-- The block is zero besides. -/
structure Placed (s t : State) (ino : UInt32) (sv sv' : SfsVnode) (p : Ptr) (block : UInt32) : Prop
    extends Given s t ino sv sv' p block where
  zeroed : t.disk block = Bytes.zero

section Placed

variable {s t : State} {ino : UInt32} {sv sv' : SfsVnode} {p : Ptr} {block : UInt32}

theorem State.Tidy.ne_of_free (htidy : s.Tidy sv.svI) {q : Ptr} {b : UInt32}
    (hfree : s.sfsFreemap.bit b.toNat = false) (hq : sv.svI.pointer s.disk q ≠ 0) :
    sv.svI.pointer s.disk q ≠ b := by
  rintro rfl
  rw [(htidy.inUse q hq).bit] at hfree
  cases hfree

theorem Given.marked (h : Given s t ino sv sv' p block) {i : ℕ}
    (hi : s.sfsFreemap.bit i = true) : t.sfsFreemap.bit i = true := by
  rw [h.map, Bitmap.bit_set, hi, Bool.true_or]

theorem Given.isset_block (h : Given s t ino sv sv' p block) :
    t.sfsFreemap.isset block = true := by
  rw [Bitmap.isset_eq_bit, h.map, Bitmap.bit_set, decide_eq_true rfl, Bool.or_true]

theorem Given.tidy (h : Given s t ino sv sv' p block) (htidy : s.Tidy sv.svI) :
    t.Tidy sv'.svI where
  inUse q hq := by
    rw [h.pointer] at hq ⊢
    by_cases hqp : q = p
    · rw [if_pos hqp]
      exact ⟨h.mount.symm ▸ h.lt, h.isset_block⟩
    · rw [if_neg hqp] at hq ⊢
      have huse := htidy.inUse q hq
      refine ⟨h.mount.symm ▸ huse.1, ?_⟩
      rw [Bitmap.isset_eq_bit]
      exact h.marked huse.bit
  inj q r hq heq := by
    rw [h.pointer] at hq
    rw [h.pointer, h.pointer] at heq
    by_cases hqp : q = p
    · by_cases hrp : r = p
      · rw [hqp, hrp]
      · rw [if_pos hqp, if_neg hrp] at heq
        exact absurd heq.symm (htidy.ne_of_free h.free (heq ▸ h.pos))
    · rw [if_neg hqp] at hq heq
      by_cases hrp : r = p
      · rw [if_pos hrp] at heq
        exact absurd heq (htidy.ne_of_free h.free hq)
      · rw [if_neg hrp] at heq
        exact htidy.inj q r hq heq

theorem Given.grown (h : Given s t ino sv sv' p block) (htidy : s.Tidy sv.svI) :
    Grown s t ino sv sv' where
  mount := h.mount
  writes := h.writes
  vnode := h.vnode
  others := h.others
  type := h.type
  links := h.links
  nbits := by
    rw [h.map]
    rfl
  marked _ := h.marked
  kept q hq := by
    rw [h.pointer, if_neg]
    rintro rfl
    exact hq h.empty
  fresh q _ := by
    rw [h.pointer]
    by_cases hqp : q = p
    · rw [if_pos hqp, Bitmap.isset_eq_bit]
      exact Or.inr h.free
    · rw [if_neg hqp]
      exact Or.inl rfl
  disk b hb hnot := by
    refine h.disk b ?_ fun h0 hind => hnot ⟨h0, .indirect, hind.symm⟩
    rintro rfl
    rw [Bitmap.isset_eq_bit, h.free] at hb
    cases hb
  tidy := h.tidy htidy

/-- The other blocks of the file. -/
theorem Given.image_other (h : Given s t ino sv sv' p block) (htidy : s.Tidy sv.svI) {k : ℕ}
    (hk : Ptr.ofBlock k ≠ some p) : image t.disk sv'.svI k = image s.disk sv.svI k := by
  cases hq : Ptr.ofBlock k with
  | none =>
    rw [image_of_zero (fileBlock_of_ofBlock_none _ _ hq),
      image_of_zero (fileBlock_of_ofBlock_none _ _ hq)]
  | some q =>
    have hqp : q ≠ p := fun hc => hk (by rw [hq, hc])
    have hblock := fileBlock_of_ofBlock s.disk sv.svI hq
    refine image_congr ?_ fun hne => ?_
    · rw [fileBlock_of_ofBlock _ _ hq, h.pointer, if_neg hqp, hblock]
    · rw [hblock] at hne ⊢
      refine h.disk _ (htidy.ne_of_free h.free hne) fun _ hind => ?_
      exact Ptr.ne_indirect_of_ofBlock hq (htidy.inj q .indirect hne hind)

theorem Given.fileBlock_eq (h : Given s t ino sv sv' p block) {k : ℕ}
    (hk : Ptr.ofBlock k = some p) : fileBlock t.disk sv'.svI k = block := by
  rw [fileBlock_of_ofBlock _ _ hk, h.pointer, if_pos rfl]

/-- A data block has come, and is zero. -/
theorem Placed.image_touch (h : Placed s t ino sv sv' p block) (htidy : s.Tidy sv.svI) {k : ℕ}
    (hk : Ptr.ofBlock k = some p) :
    fileBlock t.disk sv'.svI k = block ∧
      image t.disk sv'.svI = (image s.disk sv.svI).touch k := by
  have hblock := h.fileBlock_eq hk
  refine ⟨hblock, funext fun j => ?_⟩
  rw [Sparse.touch]
  by_cases hj : j = k
  · subst hj
    have hnone := image_of_zero ((fileBlock_of_ofBlock s.disk sv.svI hk).trans h.empty)
    rw [Function.update_self, image_of_ne (by rw [hblock]; exact h.pos), hblock, h.zeroed,
      Sparse.block, hnone]
    rfl
  · rw [Function.update_of_ne hj]
    exact h.image_other htidy fun hc => hj (Ptr.ofBlock_inj hc hk)

/-- The indirect block has come. -/
theorem Placed.image_indirect (h : Placed s t ino sv sv' .indirect block) (htidy : s.Tidy sv.svI) :
    image t.disk sv'.svI = image s.disk sv.svI :=
  funext fun _ => h.image_other htidy fun hc => Ptr.ne_indirect_of_ofBlock hc rfl

end Placed

section Allocated

variable {s : State} {ino : UInt32} {sv : SfsVnode} {block : UInt32}

/-- A command to write, carried out or not, leaves the other blocks. -/
theorem State.written_of_ne {x : UInt32} (hx : x ≠ block) (data : Block) :
    s.written block data x = s.disk x := by
  rw [State.written]
  split
  · exact Function.update_of_ne hx _ _
  · rfl

theorem State.WritesTo.allocated_disk (hw : s.WritesTo (s.allocated block)) :
    (s.allocated block).disk = Function.update s.disk block Bytes.zero :=
  hw.written (Nat.lt_succ_self _) block _

/-- The state after an allocation whose block has been noted in the inode. -/
def State.noted (s : State) (ino block : UInt32) (f : Dinode → Dinode) : State :=
  { s.allocated block with
    toCore := (s.allocated block).setVnode ino (SfsVnode.dirtied f) }

theorem State.WritesTo.noted_disk (hw : s.WritesTo (s.allocated block)) (ino : UInt32)
    (f : Dinode → Dinode) : (s.noted ino block f).disk = Function.update s.disk block Bytes.zero :=
  hw.allocated_disk

/-- The indirect block of a tidy file is not a free block. -/
theorem State.Tidy.indirect_ne (htidy : s.Tidy sv.svI)
    (hfree : s.sfsFreemap.bit block.toNat = false) (h0 : sv.svI.sfiIndirect ≠ 0) :
    sv.svI.sfiIndirect ≠ block := htidy.ne_of_free (q := .indirect) hfree h0

/-- A block for a place in the inode, which `sfs_clearblock` has or has not cleared. -/
theorem given_direct (hv : s.vnode? ino = some sv) (htidy : s.Tidy sv.svI)
    (hfree : s.sfsFreemap.bit block.toNat = false) (hlt : block < s.mount.sfsSb.sbNblocks)
    (hpos : block ≠ 0) (i : Fin 15) (h0 : sv.svI.sfiDirect i = 0) :
    Given s (s.noted ino block fun d => d.setDirect i block) ino sv
      (sv.dirtied fun d => d.setDirect i block) (.direct i) block where
  mount := rfl
  writes := Nat.le_succ _
  vnode := vnode?_dirtied (c := (s.allocated block).toCore) _ hv
  others j hj := vnode?_dirtied_of_ne (c := (s.allocated block).toCore) _ hj
  type := rfl
  links := rfl
  map := rfl
  free := hfree
  lt := hlt
  pos := hpos
  empty := h0
  pointer q := by
    cases q with
    | direct j =>
      change Function.update sv.svI.sfiDirect i block j = _
      by_cases hj : j = i
      · rw [hj, Function.update_self, if_pos rfl]
      · rw [Function.update_of_ne hj, if_neg fun hc => hj (Ptr.direct.inj hc)]
        rfl
    | indirect => exact (if_neg fun hc => by cases hc).symm
    | entry k =>
      rw [if_neg (fun hc => by cases hc)]
      refine congrFun (indirectAt_congr (d := (s.noted ino block _).disk) fun hne => ?_) k
      exact State.written_of_ne (htidy.indirect_ne hfree hne) _
  disk x hx _ := State.written_of_ne hx _

theorem placed_direct (hv : s.vnode? ino = some sv) (htidy : s.Tidy sv.svI)
    (hw : s.WritesTo (s.allocated block)) (hfree : s.sfsFreemap.bit block.toNat = false)
    (hlt : block < s.mount.sfsSb.sbNblocks) (hpos : block ≠ 0) (i : Fin 15)
    (h0 : sv.svI.sfiDirect i = 0) :
    Placed s (s.noted ino block fun d => d.setDirect i block) ino sv
      (sv.dirtied fun d => d.setDirect i block) (.direct i) block :=
  ⟨given_direct hv htidy hfree hlt hpos i h0, by rw [hw.noted_disk, Function.update_self]⟩

theorem placed_indirect (hv : s.vnode? ino = some sv) (hw : s.WritesTo (s.allocated block))
    (hfree : s.sfsFreemap.bit block.toNat = false) (hlt : block < s.mount.sfsSb.sbNblocks)
    (hpos : block ≠ 0) (h0 : sv.svI.sfiIndirect = 0) :
    Placed s (s.noted ino block fun d => { d with sfiIndirect := block }) ino sv
      (sv.dirtied fun d => { d with sfiIndirect := block }) .indirect block where
  mount := rfl
  writes := Nat.le_succ _
  vnode := vnode?_dirtied (c := (s.allocated block).toCore) _ hv
  others j hj := vnode?_dirtied_of_ne (c := (s.allocated block).toCore) _ hj
  type := rfl
  links := rfl
  map := rfl
  free := hfree
  lt := hlt
  pos := hpos
  empty := h0
  pointer q := by
    cases q with
    | direct j => exact (if_neg fun hc => by cases hc).symm
    | indirect => exact (if_pos rfl).symm
    | entry k =>
      have hbefore : sv.svI.pointer s.disk (.entry k) = 0 := by
        rw [Dinode.pointer_entry, indirectAt, if_pos h0]
      rw [if_neg (fun hc => by cases hc), hbefore]
      change (if block = 0 then fun _ => 0 else indirectOf ((s.noted ino block _).disk block)) k = 0
      rw [if_neg hpos, hw.noted_disk, Function.update_self, indirectOf_zero]
  zeroed := by rw [hw.noted_disk, Function.update_self]
  disk x hx _ := by rw [hw.noted_disk, Function.update_of_ne hx]

/-- The state after an allocation whose block has been noted in the indirect block. -/
def State.entered (s : State) (idblock block : UInt32) (idbuf : Fin 128 → UInt32) (k : Fin 128) :
    State :=
  { s.allocated block with
    disk := (s.allocated block).written idblock (indirectBlock (Function.update idbuf k block))
    writes := (s.allocated block).writes + 1 }

theorem State.WritesTo.entered_disk {idblock : UInt32} {idbuf : Fin 128 → UInt32} {k : Fin 128}
    (hw : s.WritesTo (s.entered idblock block idbuf k)) : (s.entered idblock block idbuf k).disk =
      Function.update (Function.update s.disk block Bytes.zero) idblock
        (indirectBlock (Function.update idbuf k block)) := by
  have hfirst : s.WritesTo (s.allocated block) := fun i hi hlt => hw i hi (Nat.lt_succ_of_lt hlt)
  have hsecond : State.WritesTo (s.allocated block) (s.entered idblock block idbuf k) :=
    fun i hi hlt => hw i (Nat.le_of_succ_le hi) hlt
  change (s.allocated block).written idblock _ = _
  rw [hsecond.written (Nat.lt_succ_self _), hfirst.allocated_disk]

theorem placed_entry (hv : s.vnode? ino = some sv) (htidy : s.Tidy sv.svI) (k : Fin 128)
    (hw : s.WritesTo (s.entered sv.svI.sfiIndirect block (indirectAt s.disk sv.svI) k))
    (hfree : s.sfsFreemap.bit block.toNat = false) (hlt : block < s.mount.sfsSb.sbNblocks)
    (hpos : block ≠ 0) (h0 : sv.svI.sfiIndirect ≠ 0)
    (hk : indirectAt s.disk sv.svI k = 0) :
    Placed s (s.entered sv.svI.sfiIndirect block (indirectAt s.disk sv.svI) k) ino sv sv (.entry k)
      block where
  mount := rfl
  writes := Nat.le_add_right _ 2
  vnode := hv
  others _ _ := rfl
  type := rfl
  links := rfl
  map := rfl
  free := hfree
  lt := hlt
  pos := hpos
  empty := hk
  pointer q := by
    cases q with
    | direct j => exact (if_neg fun hc => by cases hc).symm
    | indirect => exact (if_neg fun hc => by cases hc).symm
    | entry j =>
      rw [Dinode.pointer_entry, Dinode.pointer_entry, indirectAt, if_neg h0, hw.entered_disk,
        Function.update_self, indirectOf_indirectBlock]
      by_cases hj : j = k
      · rw [hj, Function.update_self, if_pos rfl]
      · rw [Function.update_of_ne hj, if_neg fun hc => hj (Ptr.entry.inj hc)]
  zeroed := by
    rw [hw.entered_disk, Function.update_of_ne (htidy.indirect_ne hfree h0).symm,
      Function.update_self]
  disk x hx hind := by
    rw [hw.entered_disk]
    by_cases hx0 : x = 0
    · rw [Function.update_of_ne (by rw [hx0]; exact h0.symm), Function.update_of_ne hx]
    · rw [Function.update_of_ne (hind hx0), Function.update_of_ne hx]

end Allocated

/-! ### `sfs_bmap` -/

/-- What `sfs_bmap` may change when it allocates. -/
structure Mapped (s t : State) (ino : UInt32) (sv sv' : SfsVnode) : Prop
    extends Grown s t ino sv sv' where
  uio : t.uio = s.uio
  size : sv'.svI.sfiSize = sv.svI.sfiSize

section Bmap

variable {W : Watch fsGrowth} {E : Stop → State → Prop} {s t : State} {ino : UInt32}
  {sv sv' : SfsVnode}

theorem Mapped.same (hv : s.vnode? ino = some sv) (htidy : s.Tidy sv.svI) (k : ℕ) :
    Mapped s { s with tick := k } ino sv sv where
  toGrown := Grown.same hv htidy s.uio k
  uio := rfl
  size := rfl

theorem wp_balloc_volume {R : UInt32 → State → Prop} (hvol : s.VolumeOk)
    (hfull : s.Full → E (.fail .enospc) s)
    (hok : ∀ block, ¬s.Full → s.sfsFreemap.bit block.toNat = false →
      block < s.mount.sfsSb.sbNblocks → block ≠ 0 → R block (s.allocated block)) :
    wp W balloc R E s := by
  rcases Bitmap.alloc_cases hvol.nbits hvol.padded with
    ⟨halloc, hall⟩ | ⟨block, halloc, hlt, hfree, -⟩
  · exact wp_of_run_halt (run_balloc_full halloc) (hfull hall)
  · have hn : block < s.mount.sfsSb.sbNblocks := by
      by_contra hc
      have := hvol.past block.toNat (Nat.le_of_not_lt hc) hlt
      rw [hfree] at this
      cases this
    have hpos : block ≠ 0 := by
      rintro rfl
      have := hvol.super
      rw [show (0 : UInt32).toNat = 0 from rfl, this] at hfree
      cases hfree
    exact wp_of_run_done (run_balloc halloc hn (UInt32.lt_of_lt_of_le hn hvol.fits))
      (hok block (fun hall => Bool.noConfusion (hfree.symm.trans (hall _ hlt))) hfree hn hpos)

theorem wp_handBack_inUse {fileblock block : UInt32} {R : UInt32 → State → Prop}
    (huse : s.InUse block) (h : R block s) : wp W (handBack ino fileblock block) R E s :=
  wp_of_run_done ((run_handBack ino fileblock block).1 (Or.inr huse)) h

/-- `sfs_bmap` at a block of the inode that is there. -/
theorem run_bmap_direct (hv : s.vnode? ino = some sv) {fileblock : UInt32} (i : Fin 15)
    (hi : fileblock.toNat = i) (h0 : sv.svI.sfiDirect i ≠ 0) (huse : s.InUse (sv.svI.sfiDirect i))
    (doalloc : Bool) : (bmap ino fileblock doalloc).run s = .done (sv.svI.sfiDirect i) s := by
  have hlt : fileblock.toNat < 15 := hi ▸ i.isLt
  have hfin : (⟨fileblock.toNat, hlt⟩ : Fin 15) = i := Fin.ext hi
  rw [bmap, dif_pos hlt, hfin, bmapDirect, run_bind_of_done (run_getVnode hv),
    if_neg fun hc => h0 hc.1]
  exact (run_handBack _ _ _).1 (Or.inr huse)

/-- **`sfs_bmap` at a block that is there** finds it and changes nothing. -/
theorem wp_bmap_present {R : UInt32 → State → Prop} (hv : s.vnode? ino = some sv)
    {fileblock block : UInt32} (hblock : fileBlock s.disk sv.svI fileblock.toNat = block)
    (h0 : block ≠ 0) (huse : s.InUse block)
    (hptr : 15 ≤ fileblock.toNat → sv.svI.sfiIndirect < s.mount.dBlocks) (doalloc : Bool)
    (hdone : ∀ k, R block { s with tick := k })
    (hfail : s.mount.world.media .read s.tick = false → ∀ k, E (.fail .eio) { s with tick := k }) :
    wp W (bmap ino fileblock doalloc) R E s := by
  obtain ⟨p, hp, -, hplace⟩ := exists_ofBlock (hblock ▸ h0)
  rw [hblock] at hplace
  rcases Ptr.eq_of_ofBlock hp with ⟨i, rfl, hi⟩ | ⟨i, rfl, hi⟩
  · have hdirect : sv.svI.sfiDirect i = block := hplace.symm
    subst hdirect
    exact wp_of_run_done (run_bmap_direct hv i hi h0 huse doalloc) (hdone s.tick)
  · have hentry : indirectAt s.disk sv.svI i = block := hplace.symm
    have hind : sv.svI.sfiIndirect ≠ 0 := by
      intro hc
      rw [indirectAt, if_pos hc] at hentry
      exact h0 hentry.symm
    refine wp_of_run_eq (run_bmap_entry hv i hi hind doalloc) (wp_bind ?_)
    refine wp_readblock (hptr (by omega)) (fun k => ?_) hfail
    rw [indirectAt, if_neg hind] at hentry
    rw [bmapIndirect]
    rw [hentry, if_neg fun hc => h0 hc.1]
    exact wp_handBack_inUse huse (hdone k)

/-- The same for a file whose blocks are in use. -/
theorem wp_bmap_mapped {R : UInt32 → State → Prop} (hv : s.vnode? ino = some sv)
    (htidy : s.Tidy sv.svI) (hvol : s.VolumeOk) {fileblock block : UInt32}
    (hblock : fileBlock s.disk sv.svI fileblock.toNat = block) (h0 : block ≠ 0) (doalloc : Bool)
    (hdone : ∀ k, R block { s with tick := k })
    (hfail : s.mount.world.media .read s.tick = false → ∀ k, E (.fail .eio) { s with tick := k }) :
    wp W (bmap ino fileblock doalloc) R E s := by
  obtain ⟨p, hp, -, hplace⟩ := exists_ofBlock (hblock ▸ h0)
  rw [hblock] at hplace
  have huse : s.InUse block := hplace ▸ htidy.inUse p (hplace ▸ h0)
  refine wp_bmap_present hv hblock h0 huse (fun hge => ?_) doalloc hdone hfail
  rcases Ptr.eq_of_ofBlock hp with ⟨i, -, hi⟩ | ⟨i, rfl, -⟩
  · exact absurd hi (by omega)
  · have hind : sv.svI.sfiIndirect ≠ 0 := by
      intro hc
      have hentry : indirectAt s.disk sv.svI i = block := hplace.symm
      rw [indirectAt, if_pos hc] at hentry
      exact h0 hentry.symm
    exact UInt32.lt_of_lt_of_le (htidy.inUse .indirect hind).1 hvol.fits

/-- The last part of `sfs_bmap`, at a hole. -/
theorem wp_bmapIndirect_hole {R : UInt32 → State → Prop} (hv : s.vnode? ino = some sv)
    (htidy : s.Tidy sv.svI) (hvol : s.VolumeOk) (hw : s.Writable W)
    (hind : sv.svI.sfiIndirect ≠ 0) (k : Fin 128) (hk : indirectAt s.disk sv.svI k = 0)
    (hfull : s.Full → E (.fail .enospc) s)
    (hdone : ∀ block t, ¬s.Full → Placed s t ino sv sv (.entry k) block → t.uio = s.uio →
      R block t) :
    wp W (bmapIndirect ino sv.svI.sfiIndirect (indirectAt s.disk sv.svI) k true) R E s := by
  rw [bmapIndirect]
  refine wp_ite (fun _ => wp_bind ?_) fun hc => absurd ⟨hk, rfl⟩ hc
  refine wp_balloc_volume hvol hfull fun block hroom hfree hlt hpos => wp_bind ?_
  refine wp_writeblock (UInt32.lt_of_lt_of_le (htidy.inUse .indirect hind).1 hvol.fits) ?_
  refine wp_watched fun hok => ?_
  have hplaced := placed_entry hv htidy k (hw _ hok) hfree hlt hpos hind hk
  exact wp_handBack_inUse ⟨hlt, hplaced.isset_block⟩ (hdone block _ hroom hplaced rfl)

/-- **`sfs_bmap` allocating.** The block asked for is there afterwards, a new one zero, and nothing
else of the contents has changed. Where there is no space, the contents are unchanged. -/
theorem wp_bmap_alloc {R : UInt32 → State → Prop} (hv : s.vnode? ino = some sv)
    (htidy : s.Tidy sv.svI) (hvol : s.VolumeOk) (hw : s.Writable W) (fileblock : UInt32)
    (hdone : ∀ t sv' block, Mapped s t ino sv sv' →
      fileBlock t.disk sv'.svI fileblock.toNat = block → block ≠ 0 →
      image t.disk sv'.svI = (image s.disk sv.svI).touch fileblock.toNat →
      (fileBlock s.disk sv.svI fileblock.toNat = 0 → ¬s.Full) → R block t)
    (hfull : ∀ t sv', Mapped s t ino sv sv' → t.Full → (s.Full → ∃ k, t = { s with tick := k }) →
      image t.disk sv'.svI = image s.disk sv.svI → E (.fail .enospc) t)
    (hbig : 143 ≤ fileblock.toNat → E (.fail .efbig) s)
    (hfail : s.mount.world.media .read s.tick = false → ∀ k, E (.fail .eio) { s with tick := k }) :
    wp W (bmap ino fileblock true) R E s := by
  by_cases h0 : fileBlock s.disk sv.svI fileblock.toNat ≠ 0
  · -- the block is there
    refine wp_bmap_mapped hv htidy hvol rfl h0 true (fun k => ?_) hfail
    refine hdone _ sv _ (Mapped.same hv htidy k) rfl h0 (Eq.symm ?_) fun hc => absurd hc h0
    exact Sparse.touch_of_isSome ((isSome_image _ _ _).mpr h0)
  rw [not_not] at h0
  by_cases hdirect : fileblock.toNat < 15
  · obtain ⟨i, hi⟩ : ∃ i : Fin 15, fileblock.toNat = i := ⟨⟨_, hdirect⟩, rfl⟩
    have hplace : Ptr.ofBlock fileblock.toNat = some (.direct i) := hi ▸ Ptr.ofBlock_direct i
    have hhole : sv.svI.sfiDirect i = 0 := (fileBlock_of_ofBlock s.disk _ hplace).symm.trans h0
    refine wp_of_run_eq (run_bmap_direct_alloc hv i hi hhole) (wp_bind ?_)
    refine wp_balloc_volume hvol (fun hfree => ?_) fun block hroom hfree hlt hpos => ?_
    · exact hfull s sv (Mapped.same hv htidy s.tick) hfree (fun _ => ⟨s.tick, rfl⟩) rfl
    refine wp_watched fun hok => ?_
    have hplaced := placed_direct hv htidy (hw _ hok) hfree hlt hpos i hhole
    obtain ⟨hblock, himage⟩ := hplaced.image_touch htidy hplace
    refine wp_bind (wp_modifyInode (wp_handBack_inUse ⟨hlt, hplaced.isset_block⟩ ?_))
    exact hdone _ _ block ⟨hplaced.grown htidy, rfl, rfl⟩ hblock hpos himage fun _ => hroom
  by_cases hentry : fileblock.toNat - 15 < 128
  · obtain ⟨i, hi⟩ : ∃ i : Fin 128, fileblock.toNat = 15 + i :=
      ⟨⟨fileblock.toNat - 15, hentry⟩, by dsimp only; omega⟩
    have hplace : Ptr.ofBlock fileblock.toNat = some (.entry i) := hi ▸ Ptr.ofBlock_entry i
    have hhole : indirectAt s.disk sv.svI i = 0 :=
      (fileBlock_of_ofBlock s.disk _ hplace).symm.trans h0
    by_cases hind : sv.svI.sfiIndirect = 0
    · -- the indirect block first
      have hfin : (⟨fileblock.toNat - 15, hentry⟩ : Fin 128) = i := Fin.ext (by
        change fileblock.toNat - 15 = i
        omega)
      rw [bmap, dif_neg hdirect, dif_pos hentry, hfin]
      refine wp_bind (wp_getVnode hv ?_)
      dsimp only
      rw [if_neg (fun hc => Bool.noConfusion hc.2), if_pos hind]
      refine wp_bind (wp_balloc_volume hvol (fun hfree => ?_)
        fun idblock hroom hfree hlt hpos => ?_)
      · exact hfull s sv (Mapped.same hv htidy s.tick) hfree (fun _ => ⟨s.tick, rfl⟩) rfl
      refine wp_watched fun hok => ?_
      have hfirst := placed_indirect hv (hw _ hok) hfree hlt hpos hind
      have htidy' := hfirst.tidy htidy
      have hgrown := hfirst.grown htidy
      refine wp_bind (wp_modifyInode ?_)
      have hempty : indirectAt (s.noted ino idblock _).disk (sv.dirtied _).svI = fun _ => 0 :=
        funext fun k => by
          have := hfirst.pointer (.entry k)
          rw [if_neg (fun hc => by cases hc), Dinode.pointer_entry, Dinode.pointer_entry] at this
          rw [this, indirectAt, if_pos hind]
      have hlast := wp_bmapIndirect_hole (W := W) (E := E) (R := R) hgrown.vnode htidy'
        (hgrown.volumeOk hvol) (hgrown.writable hw) hpos i (congrFun hempty i)
        (fun hall => hfull _ _ ⟨hgrown, rfl, rfl⟩ hall (fun hs => absurd hs hroom)
          (hfirst.image_indirect htidy))
        fun block t _ hplaced huio => by
          obtain ⟨hblock, himage⟩ := hplaced.image_touch htidy' hplace
          refine hdone t _ block ⟨hgrown.trans (hplaced.grown htidy'), huio, rfl⟩ hblock
            hplaced.pos ?_ fun _ => hroom
          rw [himage, hfirst.image_indirect htidy]
      rwa [hempty] at hlast
    · refine wp_of_run_eq (run_bmap_entry hv i hi hind true) (wp_bind ?_)
      refine wp_readblock (UInt32.lt_of_lt_of_le (htidy.inUse .indirect hind).1 hvol.fits)
        (fun k => ?_) hfail
      have hsame := Mapped.same hv htidy k
      have hread : indirectOf (s.disk sv.svI.sfiIndirect) = indirectAt s.disk sv.svI := by
        rw [indirectAt, if_neg hind]
      rw [hread]
      refine wp_bmapIndirect_hole (s := { s with tick := k }) hv hsame.tidy
        (hsame.volumeOk hvol) (hsame.writable hw) hind i hhole
        (fun hall => hfull _ sv hsame hall (fun _ => ⟨k, rfl⟩) rfl)
        fun block t hroom hplaced huio => ?_
      obtain ⟨hblock, himage⟩ := hplaced.image_touch hsame.tidy hplace
      exact hdone t sv block ⟨hsame.trans (hplaced.grown hsame.tidy), huio, rfl⟩ hblock
        hplaced.pos himage fun _ => hroom
  · rw [bmap, dif_neg hdirect, dif_neg hentry]
    exact wp_fail (hbig (by omega))

/-- **Writing a block of the file.** -/
theorem Grown.write (hv : s.vnode? ino = some sv) (htidy : s.Tidy sv.svI) {k : ℕ} {block : UInt32}
    (hblock : fileBlock s.disk sv.svI k = block) (h0 : block ≠ 0) (data : Block)
    (ht : t = { s with
      disk := Function.update s.disk block data, uio := t.uio, tick := t.tick, writes := t.writes })
    (hle : s.writes ≤ t.writes) :
    Grown s t ino sv sv ∧
      image t.disk sv.svI = Function.update (image s.disk sv.svI) k (some data) := by
  obtain ⟨p, hp, hne, hptr⟩ := exists_ofBlock (hblock ▸ h0)
  rw [hblock] at hptr
  have hdisk : t.disk = Function.update s.disk block data := by rw [ht]
  have hpointer : ∀ q, sv.svI.pointer t.disk q = sv.svI.pointer s.disk q := by
    intro q
    cases q with
    | direct i => rfl
    | indirect => rfl
    | entry j =>
      refine congrFun (indirectAt_congr fun hind => ?_) j
      rw [hdisk, Function.update_of_ne]
      intro hc
      have hc : sv.svI.pointer s.disk .indirect = sv.svI.pointer s.disk p := hc.trans hptr
      exact hne (htidy.inj .indirect p hind hc).symm
  refine ⟨⟨?_, hle, ?_, ?_, rfl, rfl, ?_, ?_, ?_, ?_, ?_, ?_, ?_⟩, ?_⟩
  · rw [ht]
  · rw [ht]
    exact hv
  · intro j _
    rw [ht]
    rfl
  · rw [ht]
  · intro i hi
    rw [ht]
    exact hi
  · exact fun q _ => hpointer q
  · exact fun q _ => Or.inl (hpointer q)
  · intro b _ hnot
    rw [hdisk, Function.update_of_ne]
    rintro rfl
    exact hnot ⟨h0, p, hptr.symm⟩
  · intro q hq
    rw [hpointer] at hq ⊢
    rw [ht]
    exact htidy.inUse q hq
  · intro q r hq heq
    rw [hpointer] at hq
    rw [hpointer, hpointer] at heq
    exact htidy.inj q r hq heq
  · have hfile : ∀ j, fileBlock t.disk sv.svI j = fileBlock s.disk sv.svI j := by
      intro j
      cases hj : Ptr.ofBlock j with
      | none => rw [fileBlock_of_ofBlock_none _ _ hj, fileBlock_of_ofBlock_none _ _ hj]
      | some q => rw [fileBlock_of_ofBlock _ _ hj, fileBlock_of_ofBlock _ _ hj, hpointer]
    funext j
    by_cases hj : j = k
    · rw [hj, Function.update_self, image_of_ne (by rwa [hfile, hblock]), hfile, hblock, hdisk,
        Function.update_self]
    · rw [Function.update_of_ne hj]
      refine image_congr (hfile j) fun hne' => ?_
      rw [hdisk, Function.update_of_ne]
      intro hc
      obtain ⟨q, hq, -, hqptr⟩ := exists_ofBlock hne'
      rw [hqptr] at hne' hc
      have hqp := htidy.inj q p hne' (hc.trans hptr)
      rw [hqp] at hq
      exact hj (Ptr.ofBlock_inj hq hp)

end Bmap

end Sfs

end Os161
