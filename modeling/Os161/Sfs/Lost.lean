import Os161.Sfs.Entries

/-!
# An entry that the disk may lose

What `sfs_writedir` and `sfs_dir_link` do on a disk that may fail to read and may lose what it is
given to write. `sfs_rwblock` reports a lost write as done, so that the caller goes on as if the
entry were there.

What the slot reads as then is known before the call: it is what lies there on the disk or, if the
directory is given a block for the slot, what the first free block holds, unless the disk carries
out the command that clears it. This is only so where a lost write loses nothing but an entry. A
block whose number goes into the indirect block is therefore left out here: were that number lost,
the directory would go on in whatever block the old bytes name. So is a block for a hole between two
entries, which would bring up to eight entries at once.

## Main definitions

* `State.entryWrite` — which command to write is the one for the entry
* `State.prior` — what the slot reads as if that command is lost
* `SfsVnode.Near` — the new entry needs no more than a block of the inode's own

## Main results

* `wp_writedir_there`, `wp_writedir_first` — writing an entry into a block that is there, and the
  first entry of a block
* `wp_dirLink_near` — linking a name
-/

namespace Os161

namespace Sfs

open Prog

/-- The number of the command to write that is for the entry: a block that the directory does not
have is cleared first. -/
def State.entryWrite (s : State) (sv : SfsVnode) (slot : ℕ) : ℕ :=
  if fileBlock s.disk sv.svI (slot / 8) = 0 then s.writes + 1 else s.writes

/-- What the slot reads as if the command for the entry is lost. -/
def State.prior (s : State) (sv : SfsVnode) (slot : ℕ) : Direntry :=
  if fileBlock s.disk sv.svI (slot / 8) = 0 then
    match s.sfsFreemap.alloc with
    | .ok (block, _) => direntryOf (s.written block Bytes.zero block) (slot % 8)
    | .error _ => Direntry.empty
  else entryIn (image s.disk sv.svI) slot

/-- The slot for a new entry lies in a block of the directory, or it is the one after the last entry
and its block is one that the inode points to itself. -/
def SfsVnode.Near (sv : SfsVnode) (disk : Disk) : Prop :=
  ∀ slot, sv.Vacant disk slot →
    fileBlock disk sv.svI (slot / 8) ≠ 0 ∨ slot = sv.nentries ∧ slot / 8 < 15

/-- From `s` to `t` the entry `e` has been given to the disk for the slot, after the block for it.
-/
structure Filed (s t : State) (ino : UInt32) (sv sv' : SfsVnode) (slot : ℕ) (e : Direntry) : Prop
    extends Grown s t ino sv sv' where
  put : Put s.disk t.disk sv sv' slot
    (if s.mount.world.media .write (s.entryWrite sv slot) = true then e else s.prior sv slot)
  mapped : fileBlock t.disk sv'.svI (slot / 8) ≠ 0
  count : t.writes = s.entryWrite sv slot + 1

section Lost

variable {W : Watch fsGrowth} {s t : State} {ino block : UInt32} {sv sv' : SfsVnode} {slot : ℕ}
  {e : Direntry} {P : Errno → State → Prop}

theorem State.writes_le_entryWrite (s : State) (sv : SfsVnode) (slot : ℕ) :
    s.writes ≤ s.entryWrite sv slot := by
  rw [State.entryWrite]
  split <;> omega

theorem Written.of_tick {k : ℕ} (hv : s.vnode? ino = some sv) (htidy : s.Tidy sv.svI)
    (h : Written { s with tick := k } t ino sv sv' slot e) : Written s t ino sv sv' slot e :=
  ⟨(Grown.same hv htidy s.uio k).trans h.toGrown, h.size, h.once, h.mapped, h.entry⟩

theorem entryIn_of_block {f g : Sparse 512} {j : ℕ} (h : f (j / 8) = g (j / 8)) :
    entryIn f j = entryIn g j := by
  refine entryIn_congr fun i hi => ?_
  rw [show 64 * j + i = 512 * (j / 8) + (64 * (j % 8) + i) by omega,
    Sparse.byte_block _ _ (by omega), Sparse.byte_block _ _ (by omega), Sparse.block, Sparse.block,
    h]

/-- A slot that is not empty lies in a block of the directory. -/
theorem fileBlock_of_occupied {disk : Disk} {d : Dinode} {j : ℕ}
    (h : (entryIn (image disk d) j).Occupied) : fileBlock disk d (j / 8) ≠ 0 := by
  intro h0
  rw [← entryAt_eq, entryAt, if_pos h0] at h
  exact h rfl

/-- A slot outside the blocks of the directory is the first of its block. -/
theorem SfsVnode.Vacant.first {disk : Disk} (h : sv.Vacant disk slot) (hlast : slot = sv.nentries)
    (h0 : fileBlock disk sv.svI (slot / 8) = 0) : slot % 8 = 0 := by
  by_contra hne
  refine fileBlock_of_occupied (h.last (slot - 1) (by omega) (Or.inr hlast)) ?_
  rw [show (slot - 1) / 8 = slot / 8 by omega]
  exact h0

theorem toNat_entryBlock (hslot : slot < 2 ^ 32) :
    (UInt32.ofNat (slot * 64 / 512)).toNat = slot / 8 := by
  rw [show slot * 64 / 512 = slot / 8 by omega]
  exact UInt32.toNat_ofNat_of_lt' (show slot / 8 < 2 ^ 32 by omega)

/-- An entry for a slot in a block that the directory has. -/
theorem wp_writedir_there {R : Unit → State → Prop} (hv : s.vnode? ino = some sv)
    (htidy : s.Tidy sv.svI) (hvol : s.VolumeOk) (hslot : slot < 2 ^ 32)
    (h0 : fileBlock s.disk sv.svI (slot / 8) ≠ 0) (e : Direntry)
    (hdone : ∀ t sv', Written s t ino sv sv' slot e → R () t)
    (hfail : ∀ k, P .eio { s with tick := k }) : wp W (writedir ino slot e) R (onFail P) s := by
  have hnat := toNat_entryBlock hslot
  refine wp_metaio_end (C := fun m sv' => sv' = sv ∧ ∃ k, m = { s with tick := k }) hslot e ?_ ?_ ?_
  · refine wp_bmap_mapped hv htidy hvol rfl (by rwa [hnat]) true (fun k => ?_) fun _ => hfail
    rw [hnat]
    exact ⟨sv, ⟨rfl, k, rfl⟩, hv, ⟨htidy.inUse, htidy.inj⟩,
      ⟨hvol.fits, hvol.nbits, hvol.padded, hvol.past, hvol.super⟩, rfl, h0⟩
  · rintro _ _ t sv' ⟨rfl, k, rfl⟩ ht
    exact hdone t sv' (ht.of_tick hv htidy)
  · rintro _ _ ⟨-, k, rfl⟩ - k'
    exact hfail k'

/-- From `s` to `m` the directory has been given a block behind its last entry. -/
structure Begun (s m : State) (ino : UInt32) (sv sv' : SfsVnode) (slot : ℕ) : Prop
    extends Grown s m ino sv sv' where
  entries : Kept s.disk m.disk sv sv'
  here : entryIn (image m.disk sv'.svI) slot = s.prior sv slot
  mapped : fileBlock m.disk sv'.svI (slot / 8) ≠ 0
  once : m.writes = s.writes + 1

/-- `sfs_balloc` for a place in the inode. -/
theorem begun_noted (hv : s.vnode? ino = some sv) (htidy : s.Tidy sv.svI) (hvol : s.VolumeOk)
    (halloc : s.sfsFreemap.alloc = .ok (block, s.sfsFreemap.set block))
    (hlt : block < s.mount.sfsSb.sbNblocks) {i : Fin 15} (hi : slot / 8 = i)
    (h0 : fileBlock s.disk sv.svI (slot / 8) = 0) (hfirst : slot % 8 = 0)
    (hlast : slot = sv.nentries) :
    Begun s (s.noted ino block fun d => d.setDirect i block) ino sv
      (sv.dirtied fun d => d.setDirect i block) slot ∧
      fileBlock (s.noted ino block fun d => d.setDirect i block).disk
        (sv.dirtied fun d => d.setDirect i block).svI (slot / 8) = block ∧ block ≠ 0 := by
  have hfree := (Bitmap.alloc_ok halloc).2.1
  have hpos : block ≠ 0 := by
    rintro rfl
    have := hvol.super
    rw [show s.sfsFreemap.bit 0 = false from hfree] at this
    cases this
  have hplace : Ptr.ofBlock (slot / 8) = some (.direct i) := hi ▸ Ptr.ofBlock_direct i
  have hhole : sv.svI.sfiDirect i = 0 := (fileBlock_of_ofBlock s.disk _ hplace).symm.trans h0
  have hgiven := given_direct hv htidy hfree hlt hpos i hhole
  have hblock := hgiven.fileBlock_eq hplace
  refine ⟨⟨hgiven.grown htidy, ⟨rfl, fun j hj => ?_⟩, ?_, by rwa [hblock], rfl⟩, hblock, hpos⟩
  · refine entryIn_of_block (hgiven.image_other htidy fun hc => ?_)
    have := Ptr.ofBlock_inj hc hplace
    omega
  · rw [← entryAt_eq, entryAt, hblock, if_neg hpos, State.prior, if_pos h0, halloc]
    rfl

/-- The first entry of a block, for which there is a place in the inode. -/
theorem wp_writedir_first {R : Unit → State → Prop} (hv : s.vnode? ino = some sv)
    (htidy : s.Tidy sv.svI) (hvol : s.VolumeOk) (hslot : slot < 2 ^ 32) (hdirect : slot / 8 < 15)
    (h0 : fileBlock s.disk sv.svI (slot / 8) = 0) (hfirst : slot % 8 = 0)
    (hlast : slot = sv.nentries) (e : Direntry)
    (hdone : ∀ m sv' t sv'', Begun s m ino sv sv' slot → Written m t ino sv' sv'' slot e → R () t)
    (hfull : P .enospc s)
    (hfail : ∀ m sv' k, Begun s m ino sv sv' slot → P .eio { m with tick := k }) :
    wp W (writedir ino slot e) R (onFail P) s := by
  have hnat := toNat_entryBlock hslot
  refine wp_metaio_end (C := fun m sv' => Begun s m ino sv sv' slot) hslot e ?_ hdone
    fun m sv' hm _ k => hfail m sv' k hm
  obtain ⟨i, hi⟩ : ∃ i : Fin 15, slot / 8 = i := ⟨⟨_, hdirect⟩, rfl⟩
  have hplace : Ptr.ofBlock (slot / 8) = some (.direct i) := hi ▸ Ptr.ofBlock_direct i
  have hhole : sv.svI.sfiDirect i = 0 := (fileBlock_of_ofBlock s.disk _ hplace).symm.trans h0
  refine wp_of_run_eq (run_bmap_direct_alloc hv i (hnat.trans hi) hhole) (wp_bind ?_)
  refine wp_balloc_alloc (fun _ _ => trivial) (fun _ => hfull) fun block halloc hlt => ?_
  obtain ⟨hbegun, hblock, hpos⟩ := begun_noted hv htidy hvol halloc hlt hi h0 hfirst hlast
  have hinuse := hbegun.tidy.inUse_fileBlock hbegun.mapped
  rw [hblock] at hinuse
  refine wp_bind (wp_modifyInode (wp_handBack_inUse hinuse ?_))
  exact ⟨_, hbegun, hbegun.vnode, hbegun.tidy, hbegun.toGrown.volumeOk hvol, hblock, hpos⟩

theorem Written.filed (h : Written s t ino sv sv' slot e)
    (h0 : fileBlock s.disk sv.svI (slot / 8) ≠ 0) : Filed s t ino sv sv' slot e := by
  refine ⟨h.toGrown, ?_, h.mapped, ?_⟩
  · rw [State.entryWrite, if_neg h0, State.prior, if_neg h0]
    exact h.put
  · rw [State.entryWrite, if_neg h0]
    exact h.once

theorem Begun.filed {m : State} {sv'' : SfsVnode} (hm : Begun s m ino sv sv' slot)
    (h : Written m t ino sv' sv'' slot e) (h0 : fileBlock s.disk sv.svI (slot / 8) = 0) :
    Filed s t ino sv sv'' slot e := by
  refine ⟨hm.toGrown.trans h.toGrown, ?_, h.mapped, ?_⟩
  · have hput := hm.entries.put h.put
    rw [hm.mount, hm.once, hm.here] at hput
    rw [State.entryWrite, if_pos h0]
    exact hput
  · rw [State.entryWrite, if_pos h0, ← hm.once]
    exact h.once

/-- Writing an entry into the slot for a new one. -/
theorem wp_writedir_near {R : Unit → State → Prop} (hv : s.vnode? ino = some sv)
    (htidy : s.Tidy sv.svI) (hvol : s.VolumeOk) (hnear : sv.Near s.disk)
    (hvacant : sv.Vacant s.disk slot) (hslot : slot < 2 ^ 32) (e : Direntry)
    (hdone : ∀ t sv', Filed s t ino sv sv' slot e → R () t)
    (hfail : ∀ e t sv', Grown s t ino sv sv' → Kept s.disk t.disk sv sv' →
      t.writes ≤ s.entryWrite sv slot → P e t) : wp W (writedir ino slot e) R (onFail P) s := by
  have hsame : ∀ k, Grown s { s with tick := k } ino sv sv := Grown.same hv htidy s.uio
  have hkept : Kept s.disk s.disk sv sv := ⟨rfl, fun _ _ => rfl⟩
  have hle := s.writes_le_entryWrite sv slot
  by_cases h0 : fileBlock s.disk sv.svI (slot / 8) = 0
  · obtain ⟨hlast, hdirect⟩ := (hnear slot hvacant).resolve_left fun hc => hc h0
    have hfirst := hvacant.first hlast h0
    refine wp_writedir_first hv htidy hvol hslot hdirect h0 hfirst hlast e
      (fun m sv' t sv'' hm ht => hdone t sv'' (hm.filed ht h0))
      (hfail _ s sv (hsame s.tick) hkept hle) fun m sv' k hm => ?_
    refine hfail _ _ sv' (hm.toGrown.trans (Grown.same hm.vnode hm.tidy m.uio k)) hm.entries ?_
    rw [State.entryWrite, if_pos h0]
    exact hm.once.le
  · exact wp_writedir_there hv htidy hvol hslot h0 e (fun t sv' ht => hdone t sv' (ht.filed h0))
      fun k => hfail _ _ sv (hsame k) hkept hle

/-- **`sfs_dir_link`** on a disk that may lose what it writes. -/
theorem wp_dirLink_near {R : ℕ → State → Prop} (hv : s.vnode? ino = some sv)
    (htidy : s.Tidy sv.svI) (hvol : s.VolumeOk) (hnear : sv.Near s.disk) (name : List UInt8)
    (file : UInt32)
    (hdone : ∀ slot t sv', sv.Vacant s.disk slot → sv.Lacks s.disk name → name.length < 60 →
      Filed s t ino sv sv' slot ⟨file, setCstr Bytes.zero name⟩ → R slot t)
    (hfail : ∀ e t sv', Grown s t ino sv sv' → Kept s.disk t.disk sv sv' →
      (∀ slot, sv.Vacant s.disk slot → t.writes ≤ s.entryWrite sv slot) → P e t) :
    wp W (dirLink ino name file) R (onFail P) s := by
  refine wp_dirLink_place hv htidy hvol name file (fun slot k hvacant hslot hlacks hlen => ?_)
    fun e k => hfail e _ sv (Grown.same hv htidy s.uio k) ⟨rfl, fun _ _ => rfl⟩
      fun slot _ => s.writes_le_entryWrite sv slot
  have hsame := Grown.same hv htidy s.uio k
  refine wp_writedir_near (s := { s with tick := k }) hv ⟨htidy.inUse, htidy.inj⟩
    ⟨hvol.fits, hvol.nbits, hvol.padded, hvol.past, hvol.super⟩ hnear hvacant hslot _
    (fun t sv' ht => hdone slot t sv' hvacant hlacks hlen ?_) fun e t sv' hgrown hkept hle =>
      hfail e t sv' (hsame.trans hgrown) hkept fun slot' h' => ?_
  · exact ⟨hsame.trans ht.toGrown, ht.put, ht.mapped, ht.count⟩
  · obtain rfl := hvacant.unique h'
    exact hle

end Lost

end Sfs

end Os161
