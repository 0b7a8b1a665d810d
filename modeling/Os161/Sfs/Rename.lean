import Os161.Sfs.Lost
import Os161.Sfs.Returns

/-!
# Renaming

What `sfs_rename` leaves behind where it returns an error: it links the new name, raises the link
count, unlinks the old name and lowers the count again, and undoes what it has done when a step
fails.

The second step back, unlinking the new name, is a write like any other. `sfs_rwblock` does not see
that a write has failed (its second try has no bytes left to write, and succeeds), so that this step
may appear to have worked and the new name stays.

## Two conditions

That the disk carries out every command to write it is given is enough, for every directory and
wherever reads fail. It asks more than is needed: the entry for the new name may be lost as well,
and then there is nothing to take back. Which losses show can be said before the call as long as
they lose one entry and no block number (`SfsVnode.Near`, in `Sfs.Lost`); there the condition is
exact.

Both come from one walk through the call, `State.Orderly.wp_rename`, which takes what `sfs_dir_link`
does as an assumption. Unlinking needs none, since the slots that are unlinked lie in blocks the
directory has.

## Main definitions

* `State.Restored` — the names and the link counts are as they were
* `State.Leaves` — the slot of the new entry has been left occupied

## Main results

* `rename_restores` — an error restores the directory if no command to write is lost, and where the
  new entry is near, if and only if none is left
-/

namespace Os161

namespace Sfs

open Prog

/-! ### A vnode for the length of a call -/

/-- The state with the vnode of the inode `g` changed. -/
def State.altered (s : State) (g : UInt32) (f : SfsVnode → SfsVnode) : State :=
  { s with toCore := s.toCore.setVnode g f }

/-- From `s` to `t` the vnode of the inode `g` has been picked up: it was loaded and has a reference
more, or it has come from the disk. -/
structure PickedUp (s t : State) (g : UInt32) (svg : SfsVnode) : Prop where
  mount : t.mount = s.mount
  writes : t.writes = s.writes
  disk : t.disk = s.disk
  freemap : t.sfsFreemap = s.sfsFreemap
  others : ∀ j, j ≠ g → t.vnode? j = s.vnode? j
  vnode : t.vnode? g = some svg
  origin : (∃ sv, s.vnode? g = some sv ∧ svg = { sv with vnRefcount := sv.vnRefcount + 1 }) ∨
    s.vnode? g = none ∧ s.InUse g ∧ svg = ⟨g, dinodeAt s.disk g, false, 1⟩

section Load

variable {W : Watch fsGrowth} {s t : State} {g : UInt32} {svg : SfsVnode} {P : Errno → State → Prop}

theorem PickedUp.svI (h : PickedUp s t g svg) : svg.svI = s.inodeOf g := by
  rcases h.origin with ⟨sv, hv, rfl⟩ | ⟨hnone, -, rfl⟩
  · rw [State.inodeOf, hv]
  · rw [State.inodeOf, hnone]

theorem PickedUp.one_lt (h : PickedUp s t g svg) (hheld : s.Held) {sv : SfsVnode}
    (hv : s.vnode? g = some sv) : 1 < svg.vnRefcount := by
  rcases h.origin with ⟨sv', hv', rfl⟩ | ⟨hnone, -⟩
  · have hpos : 0 < sv'.vnRefcount := hheld _ (mem_refs_of_vnode? hv')
    exact Nat.succ_lt_succ hpos
  · cases hnone.symm.trans hv

/-- `sfs_loadvnode` for a new vnode. -/
theorem wp_readVnode_pick {R : UInt32 → State → Prop} (hnone : s.vnode? g = none)
    (hdone : ∀ t, PickedUp s t g ⟨g, dinodeAt s.disk g, false, 1⟩ → R g t)
    (hfail : ∀ e k, P e { s with tick := k }) :
    wp W (readVnode g sfsTypeInval) R (onFail P) s := by
  rw [readVnode]
  refine wp_bind (wp_ask (wp_ite (fun _ => wp_bind ?_) fun _ => wp_fail (hfail _ _)))
  rw [bused]
  refine wp_bind (wp_get fun _ => wp_ite (fun _ => wp_panic trivial) fun hblock => ?_)
  refine wp_pure fun _ => wp_ite (fun hused => wp_bind ?_) fun _ => wp_panic trivial
  refine wp_readblock_any (fun _ _ => trivial) (fun k => ?_) fun k => hfail _ k
  rw [if_neg (not_not_intro rfl)]
  refine wp_bind (wp_pure fun _ => wp_ite (fun _ => wp_bind (wp_ask ?_)) fun _ => wp_panic trivial)
  refine wp_ite (fun _ => wp_bind (wp_modify (wp_pure fun _ => hdone _ ?_))) fun _ =>
    wp_fail (hfail _ _)
  have hfind : s.sfsVnodes.find? (fun sv => decide (sv.svIno = g)) = none := hnone
  refine ⟨rfl, rfl, rfl, rfl, fun j hj => ?_, ?_,
    Or.inr ⟨hnone, ⟨UInt32.not_le.mp hblock, hused⟩, rfl⟩⟩
  · change (s.sfsVnodes ++ [_]).find? (fun sv : SfsVnode => decide (sv.svIno = j)) = s.vnode? j
    rw [List.find?_append, List.find?_singleton, if_neg (by simpa using Ne.symm hj), Option.or_none]
    rfl
  · change (s.sfsVnodes ++ [_]).find? (fun sv : SfsVnode => decide (sv.svIno = g)) = some _
    rw [List.find?_append, hfind, List.find?_singleton, if_pos (decide_eq_true rfl)]
    rfl

/-- `sfs_loadvnode` for a vnode that is loaded. -/
theorem wp_loadvnode_loaded {R : UInt32 → State → Prop} (hv : s.vnode? g = some svg)
    (h : R g (s.altered g fun sv => { sv with vnRefcount := sv.vnRefcount + 1 })) :
    wp W (loadvnode g sfsTypeInval) R (onFail P) s := by
  rw [loadvnode]
  refine wp_get_bind (wp_bind ?_)
  refine wp_mono (wp_findVnode (P := fun _ _ => False) s.sfsVnodes) ?_ ?_
  · rintro found s - - ⟨rfl, hfound⟩
    have hloaded : found = true := by
      have hmem := exists_vnode?_iff.mp ⟨svg, hv⟩
      rw [Core.refs, List.map_map] at hmem
      exact hfound.mpr hmem
    rw [if_pos hloaded]
    refine wp_bind (wp_kassert_any fun _ => wp_bind (wp_bind (wp_getVnode hv (wp_modify ?_))))
    exact wp_pure fun _ => h
  · rintro (e | p) t - - h
    · exact absurd h id
    · trivial

/-- `sfs_loadvnode` for a vnode that is not loaded. -/
theorem wp_loadvnode_new {R : UInt32 → State → Prop} (hnone : s.vnode? g = none)
    (h : wp W (readVnode g sfsTypeInval) R (onFail P) s) :
    wp W (loadvnode g sfsTypeInval) R (onFail P) s := by
  rw [loadvnode]
  refine wp_get_bind (wp_bind ?_)
  refine wp_mono (wp_findVnode (P := fun _ _ => False) s.sfsVnodes) ?_ ?_
  · rintro found s - - ⟨rfl, hfound⟩
    have hnew : ¬found = true := by
      intro hc
      have hmem := hfound.mp hc
      obtain ⟨sv, hv⟩ := (exists_vnode?_iff (c := s.toCore)).mpr (show g ∈ s.refs.map Prod.fst by
        rw [Core.refs, List.map_map]
        exact hmem)
      cases hnone.symm.trans hv
    rw [if_neg hnew]
    exact h
  · rintro (e | p) t - - h
    · exact absurd h id
    · trivial

theorem wp_loadvnode_pick {R : UInt32 → State → Prop}
    (hdone : ∀ t svg, PickedUp s t g svg → R g t) (hfail : ∀ e k, P e { s with tick := k }) :
    wp W (loadvnode g sfsTypeInval) R (onFail P) s := by
  cases hv : s.vnode? g with
  | some sv =>
    refine wp_loadvnode_loaded hv (hdone _ { sv with vnRefcount := sv.vnRefcount + 1 } ?_)
    exact ⟨rfl, rfl, rfl, rfl, fun j hj => vnode?_setVnode_of_ne hj fun _ => rfl,
      vnode?_setVnode (fun _ => rfl) hv, Or.inl ⟨sv, hv, rfl⟩⟩
  | none => exact wp_loadvnode_new hv (wp_readVnode_pick hv (fun t ht => hdone t _ ht) hfail)

end Load

/-- From `u` to `t` the vnode of the inode `g`, which has links, has been let go: it is still
loaded, or it has gone to the disk if it was dirty, unless the disk has lost it. -/
structure LetGo (u t : State) (g : UInt32) (svg : SfsVnode) : Prop where
  le : u.writes ≤ t.writes
  lt : t.writes ≤ u.writes + 1
  others : ∀ j, j ≠ g → t.vnode? j = u.vnode? j
  kept : 1 < svg.vnRefcount → t.disk = u.disk ∧ ∃ sv, t.vnode? g = some sv ∧ sv.svI = svg.svI
  stored : ¬1 < svg.vnRefcount →
    t.disk = u.disk ∨ t.disk = Function.update u.disk g svg.svI.toBlock

section LetGo

variable {W : Watch fsGrowth} {u : State} {g : UInt32} {svg : SfsVnode} {P : Errno → State → Prop}

theorem vnode?_eraseP {l : List SfsVnode} {j : UInt32} (hj : j ≠ g) :
    (l.eraseP fun sv => sv.svIno = g).find? (fun sv => decide (sv.svIno = j)) =
      l.find? fun sv => decide (sv.svIno = j) := by
  induction l with
  | nil => rfl
  | cons sv l ih =>
    by_cases hg : sv.svIno = g
    · have hne : ¬sv.svIno = j := fun hc => hj (hc.symm.trans hg)
      rw [List.eraseP_cons, decide_eq_true hg, cond_true, List.find?_cons, decide_eq_false hne]
    · rw [List.eraseP_cons, decide_eq_false hg, cond_false, List.find?_cons, List.find?_cons, ih]

theorem wp_syncInode_linked {R : Unit → State → Prop} (hv : u.vnode? g = some svg)
    (hdone : ∀ t sv, u.writes ≤ t.writes → t.writes ≤ u.writes + 1 →
      (∀ j, j ≠ g → t.vnode? j = u.vnode? j) → t.vnode? g = some sv → sv.svI = svg.svI →
      (t.disk = u.disk ∨ t.disk = Function.update u.disk g svg.svI.toBlock) → R () t) :
    wp W (syncInode g) R (onFail P) u := by
  rw [syncInode]
  refine wp_bind (wp_getVnode hv (wp_ite (fun _ => wp_bind ?_) fun _ => wp_pure fun _ => ?_))
  · refine wp_writeblock_any (fun _ _ => trivial) (wp_modify ?_)
    refine hdone _ { svg with svDirty := false } (Nat.le_succ _) le_rfl (fun j hj => ?_) ?_ rfl ?_
    · exact vnode?_setVnode_of_ne (c := u.toCore) hj fun _ => rfl
    · exact vnode?_setVnode (c := u.toCore) (fun _ => rfl) hv
    · change u.written svg.svIno svg.svI.toBlock = _ ∨ u.written svg.svIno svg.svI.toBlock = _
      rw [State.written, svIno_of_vnode? hv]
      split
      · exact Or.inr rfl
      · exact Or.inl rfl
  · exact hdone u svg le_rfl (Nat.le_succ _) (fun _ _ => rfl) hv rfl (Or.inl rfl)

theorem wp_vopDecref_linked {R : Unit → State → Prop} (hv : u.vnode? g = some svg)
    (hlinks : svg.svI.sfiLinkcount ≠ 0) (hdone : ∀ t, LetGo u t g svg → R () t) :
    wp W (vopDecref g) R (onFail P) u := by
  rw [vopDecref]
  refine wp_bind (wp_getVnode hv (wp_bind (wp_kassert_any fun hpos => ?_)))
  refine wp_ite (fun hmany => wp_modify ?_) fun hone => wp_bind (wp_trying ?_)
  · refine hdone _ ⟨le_rfl, Nat.le_succ _, fun j hj => vnode?_setVnode_of_ne hj fun _ => rfl,
      fun _ => ⟨rfl, ?_⟩, fun hc => absurd hmany hc⟩
    exact ⟨_, vnode?_setVnode (fun _ => rfl) hv, rfl⟩
  · have hcount : svg.vnRefcount = 1 := by omega
    have hreclaim : wp W (reclaim g) (fun _ t => LetGo u t g svg) (onFail fun _ _ => False) u := by
      rw [reclaim]
      refine wp_bind (wp_getVnode hv ?_)
      rw [if_neg (not_not_intro hcount), when, if_neg hlinks, pure_bind]
      refine wp_bind (wp_syncInode_linked hv fun t sv hle hlt hothers hsv hsame hdisk => ?_)
      refine wp_bind (wp_getVnode hsv ?_)
      rw [hsame, when, if_neg hlinks, pure_bind]
      refine wp_get_bind (wp_ite (fun _ => wp_bind (wp_modify (wp_kassert_any fun _ => ?_)))
        fun _ => wp_panic trivial)
      exact ⟨hle, hlt, fun j hj => (vnode?_eraseP hj).trans (hothers j hj),
        fun hc => absurd hc hone, fun _ => hdisk⟩
    refine wp_mono hreclaim (fun _ t _ _ ht => wp_pure fun _ => hdone t ht) ?_
    rintro (e | p) t - - h
    · exact absurd h id
    · trivial

end LetGo

/-! ### What an error leaves behind -/

/-- From `s` to `t` the names of the directory `dir` are the same, and so is the link count of every
file, that is of every inode in a block in use that is not the directory's. -/
def State.Restored (s t : State) (dir : UInt32) : Prop :=
  names t.disk (t.inodeOf dir) = names s.disk (s.inodeOf dir) ∧
    ∀ j, s.InUse j → ¬(s.inodeOf dir).Has s.disk j →
      (t.inodeOf j).sfiLinkcount = (s.inodeOf j).sfiLinkcount

/-- A directory on a consistent volume: it is loaded, its blocks are in use, each in one place, and
no file it names has its inode in one of them. Somebody has each vnode that is loaded. -/
structure State.Orderly (s : State) (dir : UInt32) (sv : SfsVnode) : Prop where
  vnode : s.vnode? dir = some sv
  tidy : s.Tidy sv.svI
  volume : s.VolumeOk
  held : s.Held
  apart : ∀ e ∈ entriesAt s.disk sv.svI, e.Occupied → ¬sv.svI.Has s.disk e.sfdIno

/-- From `s` to `u` the file `g` has been picked up, and all is as it was for the files, and for the
directory `dir` but for its blocks. -/
structure Around (s u : State) (dir g : UInt32) (sv sv' svg : SfsVnode) : Prop where
  vnode : u.vnode? dir = some sv'
  links : sv'.svI.sfiLinkcount = sv.svI.sfiLinkcount
  others : ∀ j, j ≠ dir → j ≠ g → u.vnode? j = s.vnode? j
  disk : ∀ b, s.InUse b → ¬sv.svI.Has s.disk b → u.disk b = s.disk b
  file : u.vnode? g = some svg
  ne : g ≠ dir
  file_links : svg.svI.sfiLinkcount = (s.inodeOf g).sfiLinkcount
  held : ∀ svs, s.vnode? g = some svs → 1 < svg.vnRefcount
  fresh : s.vnode? g = none → s.InUse g ∧ ¬sv.svI.Has s.disk g ∧ ¬sv'.svI.Has u.disk g

section Undo

variable {W : Watch fsGrowth} {s t u : State} {dir g : UInt32} {sv sv' svg : SfsVnode}

theorem names_of_blocks {disk disk' : Disk} {d : Dinode}
    (h : ∀ b, d.Has disk b → disk' b = disk b) : names disk' d = names disk d := by
  have hsame : entriesAt disk' d = entriesAt disk d := by
    refine (entriesAt_congr (fun hind => (h _ ⟨hind, .indirect, rfl⟩).symm) fun k hk => ?_).symm
    obtain ⟨p, -, -, hp⟩ := exists_ofBlock hk
    exact (h _ ⟨hk, p, hp.symm⟩).symm
  rw [names, names, hsame]

theorem State.inodeOf_of_vnode? {j : UInt32} (hv : s.vnode? j = some sv) :
    s.inodeOf j = sv.svI := by
  rw [State.inodeOf, hv]

theorem State.inodeOf_of_none {j : UInt32} (hv : s.vnode? j = none) :
    s.inodeOf j = dinodeAt s.disk j := by
  rw [State.inodeOf, hv]

theorem vnode?_none_of_refs (h : t.refs = s.refs) {j : UInt32} (hv : s.vnode? j = none) :
    t.vnode? j = none := by
  refine Option.eq_none_iff_forall_ne_some.mpr fun sv' hsv => ?_
  have hmem := exists_vnode?_iff.mp ⟨sv', hsv⟩
  rw [h] at hmem
  obtain ⟨sv, hsv⟩ := exists_vnode?_iff.mpr hmem
  cases hv.symm.trans hsv

/-- Letting the file go writes to no block of the directory, and to no file but this one. -/
theorem LetGo.disk_of_ne (h : LetGo u t g svg) {b : UInt32} (hb : b ≠ g) : t.disk b = u.disk b := by
  by_cases hmany : 1 < svg.vnRefcount
  · rw [(h.kept hmany).1]
  · rcases h.stored hmany with hdisk | hdisk <;> rw [hdisk]
    exact Function.update_of_ne hb _ _

theorem Around.names_eq (h : Around s u dir g sv sv' svg) (ht : LetGo u t g svg) :
    names t.disk (t.inodeOf dir) = names u.disk sv'.svI := by
  rw [State.inodeOf_of_vnode? ((ht.others dir (Ne.symm h.ne)).trans h.vnode)]
  refine names_of_blocks fun b hb => ?_
  by_cases hbg : b = g
  · subst hbg
    cases hs : s.vnode? b with
    | some svs => rw [(ht.kept (h.held svs hs)).1]
    | none => exact absurd hb (h.fresh hs).2.2
  · exact ht.disk_of_ne hbg

/-- The link count of a file that was not loaded is on the disk again. -/
theorem Around.file_links_eq (h : Around s u dir g sv sv' svg) (ht : LetGo u t g svg)
    (hrefs : t.refs = s.refs) (hs : s.vnode? g = none) :
    (t.inodeOf g).sfiLinkcount = (s.inodeOf g).sfiLinkcount := by
  have hgone := vnode?_none_of_refs hrefs hs
  have hone : ¬1 < svg.vnRefcount := fun hmany => by
    obtain ⟨-, svt, hsvt, -⟩ := ht.kept hmany
    cases hgone.symm.trans hsvt
  obtain ⟨huse, hnot, -⟩ := h.fresh hs
  rw [State.inodeOf_of_none hgone, dinodeAt]
  rcases ht.stored hone with hdisk | hdisk
  · rw [hdisk, h.disk g huse hnot, State.inodeOf_of_none hs, dinodeAt]
  · rw [hdisk, Function.update_self, Dinode.ofBlock_toBlock, h.file_links]

/-- Letting the file go restores the link counts, once the references are as they were. -/
theorem Around.links_eq (h : Around s u dir g sv sv' svg) (hv : s.vnode? dir = some sv)
    (ht : LetGo u t g svg) (hrefs : t.refs = s.refs) {j : UInt32} (huse : s.InUse j)
    (hnot : ¬sv.svI.Has s.disk j) : (t.inodeOf j).sfiLinkcount = (s.inodeOf j).sfiLinkcount := by
  by_cases hjd : j = dir
  · rw [hjd, State.inodeOf_of_vnode? ((ht.others dir (Ne.symm h.ne)).trans h.vnode),
      State.inodeOf_of_vnode? hv, h.links]
  by_cases hjg : j = g
  · rw [hjg]
    cases hs : s.vnode? g with
    | some svs =>
      obtain ⟨-, svt, hsvt, hsame⟩ := ht.kept (h.held svs hs)
      rw [State.inodeOf_of_vnode? hsvt, hsame, h.file_links]
    | none => exact h.file_links_eq ht hrefs hs
  have hjt := (ht.others j hjg).trans (h.others j hjd hjg)
  cases hs : s.vnode? j with
  | some svs => rw [State.inodeOf_of_vnode? (hjt.trans hs), State.inodeOf_of_vnode? hs]
  | none =>
    rw [State.inodeOf_of_none (hjt.trans hs), State.inodeOf_of_none hs, dinodeAt, dinodeAt,
      ht.disk_of_ne hjg, h.disk j huse hnot]

/-- Letting the file go restores the state if the directory has its names. -/
theorem Around.restored_iff (h : Around s u dir g sv sv' svg) (hv : s.vnode? dir = some sv)
    (ht : LetGo u t g svg) (hrefs : t.refs = s.refs) :
    s.Restored t dir ↔ names u.disk sv'.svI = names s.disk sv.svI := by
  rw [State.Restored, h.names_eq ht, State.inodeOf_of_vnode? hv]
  exact and_iff_left fun j huse hnot => h.links_eq hv ht hrefs huse hnot

theorem Around.wp_giveBack {α : Type} {R : α → State → Prop} {P : Errno → State → Prop}
    (h : Around s u dir g sv sv' svg) (hv : s.vnode? dir = some sv)
    (hlinks : svg.svI.sfiLinkcount ≠ 0) (e : Errno)
    (hdone : ∀ t, u.writes ≤ t.writes → t.writes ≤ u.writes + 1 →
      (t.refs = s.refs → (s.Restored t dir ↔ names u.disk sv'.svI = names s.disk sv.svI)) →
      P e t) :
    wp W (vopDecref g >>= fun _ => (fail e : Sk α)) R (onFail P) u :=
  wp_bind (wp_vopDecref_linked h.file hlinks fun t ht => wp_fail
    (hdone t ht.le ht.lt fun hrefs => h.restored_iff hv ht hrefs))

/-- Nothing but the tick has moved. -/
theorem State.restored_tick (s : State) (k : ℕ) (dir : UInt32) :
    s.Restored { s with tick := k } dir :=
  ⟨rfl, fun _ _ _ => rfl⟩

end Undo

/-! ### The call -/

section Rename

variable {W : Watch fsGrowth} {s t u m : State} {dir g : UInt32} {sv sv' sv'' svg : SfsVnode}
  {slot : ℕ} {x : Direntry} {n2 : List UInt8}

theorem PickedUp.tidy (h : PickedUp s t g svg) (htidy : s.Tidy sv.svI) : t.Tidy sv.svI := by
  have hpointer : ∀ p, sv.svI.pointer t.disk p = sv.svI.pointer s.disk p := fun p => by rw [h.disk]
  refine ⟨fun p hp => ?_, fun p q hp hpq => ?_⟩
  · rw [hpointer] at hp ⊢
    rw [State.InUse, h.mount, h.freemap]
    exact htidy.inUse p hp
  · rw [hpointer] at hp
    rw [hpointer, hpointer] at hpq
    exact htidy.inj p q hp hpq

theorem PickedUp.volume (h : PickedUp s t g svg) (hvol : s.VolumeOk) : t.VolumeOk := by
  refine ⟨?_, ?_, ?_, ?_, ?_⟩
  · rw [h.mount]
    exact hvol.fits
  · rw [h.freemap]
    exact hvol.nbits
  · rw [h.freemap]
    exact hvol.padded
  · rw [h.mount, h.freemap]
    exact hvol.past
  · rw [h.freemap]
    exact hvol.super

/-- A block in use that is not the directory's is so when a file has been picked up. -/
theorem PickedUp.aside (h : PickedUp s m g svg) {b : UInt32} (hb : s.InUse b)
    (hnot : ¬sv.svI.Has s.disk b) : m.sfsFreemap.isset b = true ∧ ¬sv.svI.Has m.disk b := by
  rw [h.freemap, h.disk]
  exact ⟨hb.2, hnot⟩

/-- A file that has come from the disk is not in a block of the directory. -/
theorem PickedUp.fresh (h : PickedUp s m g svg) (hapart : ¬sv.svI.Has s.disk g)
    (hnone : s.vnode? g = none) : s.InUse g ∧ ¬sv.svI.Has s.disk g := by
  rcases h.origin with ⟨svs, hsvs, -⟩ | ⟨-, huse, -⟩
  · cases hnone.symm.trans hsvs
  · exact ⟨huse, hapart⟩

/-- A link that could not be made. -/
theorem PickedUp.around (h : PickedUp s m g svg) (hheld : s.Held) (hne : g ≠ dir)
    (hapart : ¬sv.svI.Has s.disk g) (hu : Grown m u dir sv sv') :
    Around s u dir g sv sv' svg where
  vnode := hu.vnode
  links := hu.links
  others j hjd hjg := (hu.others j hjd).trans (h.others j hjg)
  disk b hb hnot := by
    obtain ⟨hbm, hnotm⟩ := h.aside hb hnot
    rw [hu.disk b hbm hnotm, h.disk]
  file := (hu.others g hne).trans h.vnode
  ne := hne
  file_links := by rw [h.svI]
  held _ hv := h.one_lt hheld hv
  fresh hnone := by
    obtain ⟨huse, hnot⟩ := h.fresh hapart hnone
    obtain ⟨hbm, hnotm⟩ := h.aside huse hnot
    exact ⟨huse, hnot, (hu.aside hbm hnotm).2.1⟩

/-- One link more. -/
def SfsVnode.linked (sv : SfsVnode) : SfsVnode :=
  sv.dirtied fun d => { d with sfiLinkcount := d.sfiLinkcount + 1 }

/-- A link that was made and has been taken back, as far as `sfs_rename` can tell. -/
theorem PickedUp.around_undone (h : PickedUp s m g svg) (hheld : s.Held) (hne : g ≠ dir)
    (hapart : ¬sv.svI.Has s.disk g) (hu : Grown m u dir sv sv')
    (ht : Grown (u.altered g SfsVnode.linked) t dir sv' sv'') :
    Around s (t.altered g SfsVnode.unlinked) dir g sv sv'' svg.linked.unlinked := by
  have hdisk : ∀ b, s.InUse b → ¬sv.svI.Has s.disk b →
      t.disk b = s.disk b ∧ ¬sv''.svI.Has t.disk b := by
    intro b hb hnot
    obtain ⟨hbm, hnotm⟩ := h.aside hb hnot
    obtain ⟨hbu, hnotu, hsame⟩ := hu.aside hbm hnotm
    obtain ⟨-, hnott, hsame'⟩ := ht.aside (s := u.altered g SfsVnode.linked) hbu hnotu
    exact ⟨hsame'.trans (hsame.trans (by rw [h.disk])), hnott⟩
  refine ⟨?_, ht.links.trans hu.links, fun j hjd hjg => ?_, fun b hb hnot => (hdisk b hb hnot).1,
    ?_, hne, ?_, fun svs hv => h.one_lt hheld hv, fun hnone => ?_⟩
  · exact (vnode?_setVnode_of_ne (f := SfsVnode.unlinked) (Ne.symm hne) fun _ => rfl).trans ht.vnode
  · calc (t.altered g SfsVnode.unlinked).vnode? j
        = t.vnode? j := vnode?_setVnode_of_ne hjg fun _ => rfl
      _ = (u.altered g SfsVnode.linked).vnode? j := ht.others j hjd
      _ = u.vnode? j := vnode?_setVnode_of_ne hjg fun _ => rfl
      _ = m.vnode? j := hu.others j hjd
      _ = s.vnode? j := h.others j hjg
  · have hfile : (u.altered g SfsVnode.linked).vnode? g = some svg.linked :=
      vnode?_setVnode (fun _ => rfl) ((hu.others g hne).trans h.vnode)
    exact vnode?_setVnode (fun _ => rfl) ((ht.others g hne).trans hfile)
  · have hback : svg.svI.sfiLinkcount + 1 - 1 = svg.svI.sfiLinkcount := by simp
    exact hback.trans (by rw [h.svI])
  · obtain ⟨huse, hnot⟩ := h.fresh hapart hnone
    exact ⟨huse, hnot, (hdisk g huse hnot).2⟩

/-- `sfs_lookonce`. -/
theorem State.Orderly.wp_lookonce {R : UInt32 × ℕ → State → Prop} {P : Errno → State → Prop}
    (h : s.Orderly dir sv) (name : List UInt8)
    (hdone : ∀ m g svg slot, PickedUp s m g svg → g ≠ 0 → svg.svI.sfiLinkcount ≠ 0 →
      slot < 2 ^ 32 → (entryIn (image s.disk sv.svI) slot).Occupied →
      sv.svI.sfiType = sfsTypeDir → ¬sv.svI.Has s.disk g → R (g, slot) m)
    (hfail : ∀ e k, P e { s with tick := k }) : wp W (lookonce dir name) R (onFail P) s := by
  rw [lookonce]
  refine wp_bind (wp_dirFindname h.vnode h.tidy h.volume name (fun r k htype hsize hr => ?_) hfail)
  split
  · exact wp_fail (hfail _ k)
  · rename_i g slot hentry
    obtain ⟨hslot, hino, h0, -⟩ := hr.entry g slot hentry
    have hocc : (entryIn (image s.disk sv.svI) slot).Occupied := by
      rw [Direntry.Occupied, hino]
      exact h0
    have hnot : ¬sv.svI.Has s.disk g := by
      rw [← hino]
      exact h.apart _ (mem_entriesAt.mpr ⟨slot, hslot, rfl⟩) hocc
    have hlt : slot < 2 ^ 32 := by
      have := sv.svI.sfiSize.toNat_lt
      omega
    refine wp_bind (wp_loadvnode_pick (s := { s with tick := k }) (fun m svg hm => ?_)
      fun e k' => hfail e k')
    have hpick : PickedUp s m g svg :=
      ⟨hm.mount, hm.writes, hm.disk, hm.freemap, hm.others, hm.vnode, hm.origin⟩
    refine wp_bind (wp_getVnode hm.vnode (wp_ite (fun _ => wp_panic trivial) fun hlinks => ?_))
    exact wp_pure fun _ => hdone m g svg slot hpick h0 hlinks hlt hocc htype hnot

/-- From `s` to `t` the directory has been given an entry, as far as `sfs_dir_link` can tell: the
slot for it holds `x`. -/
structure Linked (s t : State) (ino : UInt32) (sv sv' : SfsVnode) (slot : ℕ) (x : Direntry) : Prop
    extends Grown s t ino sv sv' where
  vacant : sv.Vacant s.disk slot
  put : Put s.disk t.disk sv sv' slot x
  mapped : fileBlock t.disk sv'.svI (slot / 8) ≠ 0

/-- What an error leaves. Either there was no link, or the slot held `x` after it, and the command
to write number `k` was to empty the slot again. `Q` and `F` are what is known of the two cases. -/
inductive State.After (s t : State) (dir : UInt32) (sv : SfsVnode)
    (Q : UInt32 → ℕ → Direntry → ℕ → Prop) (F : ℕ → Prop) : Prop
  | unlinked (k : ℕ) (hq : F k) (hle : t.writes ≤ k + 1) (h : s.Restored t dir)
  | recovered (g : UInt32) (slot : ℕ) (x : Direntry) (k : ℕ) (h0 : g ≠ 0)
      (hslot : sv.Vacant s.disk slot) (hq : Q g slot x k) (hlt : k < t.writes)
      (h : s.Restored t dir ↔ (s.mount.world.media .write k = false → x.Occupied →
        (x.terminated.name, x.sfdIno) ∈ names s.disk sv.svI))

/-- What there is in the slot when it should have been emptied. -/
theorem Linked.recovered (hm : PickedUp s m g svg) (hu : Linked m u dir sv sv' slot x)
    (ht : Put u.disk t.disk sv' sv'' slot (if s.mount.world.media .write u.writes = true then
      Direntry.empty else entryIn (image u.disk sv'.svI) slot)) :
    names t.disk sv''.svI = names s.disk sv.svI ↔ (s.mount.world.media .write u.writes = false →
      x.Occupied → (x.terminated.name, x.sfdIno) ∈ names s.disk sv.svI) := by
  rw [hu.put.here] at ht
  have hput := hu.put.trans ht
  rw [hm.disk] at hput
  refine (hput.names_iff (hm.disk ▸ hu.vacant)).trans ?_
  cases s.mount.world.media .write u.writes with
  | true =>
    refine iff_of_true (fun hocc => ?_) (fun hc => by cases hc)
    rw [if_pos rfl] at hocc
    exact absurd rfl hocc
  | false => simp only [Bool.false_eq_true, if_false, true_implies]

/-- The run of `sfs_rename` up to an error, given what `sfs_dir_link` does. -/
theorem State.Orderly.wp_rename (h : s.Orderly dir sv) (n1 : List UInt8) (d2 : UInt32)
    (n2 : List UInt8) {Q : UInt32 → ℕ → Direntry → ℕ → Prop} {F : ℕ → Prop} (hstart : F s.writes)
    (hlink : ∀ m g svg, PickedUp s m g svg → g ≠ 0 → m.vnode? dir = some sv →
      wp W (dirLink dir n2 g)
        (fun slot u => ∃ sv' x, Linked m u dir sv sv' slot x ∧ Q g slot x u.writes)
        (onFail fun _ u => ∃ sv', Grown m u dir sv sv' ∧ Kept m.disk u.disk sv sv' ∧ F u.writes)
        m) :
    wp W (rename dir n1 d2 n2) (fun _ _ => True)
      (onFail fun _ t => t.refs = s.refs → s.After t dir sv Q F) s := by
  rw [rename]
  refine wp_bind (wp_kassert_any fun _ => wp_bind (wp_kassert_any fun _ => wp_bind ?_))
  refine h.wp_lookonce n1 (fun m g svg slot1 hm h0 hlinks hslot1 hocc htype hapart => ?_)
    fun _ k _ => .unlinked _ hstart (Nat.le_succ _) (s.restored_tick k dir)
  refine wp_bind (wp_getVnode hm.vnode (wp_bind (wp_kassert_any fun hfile => wp_bind ?_)))
  have hne : g ≠ dir := by
    rintro rfl
    rw [hm.svI, State.inodeOf_of_vnode? h.vnode, htype] at hfile
    exact absurd hfile (by decide)
  have hvm : m.vnode? dir = some sv := (hm.others dir (Ne.symm hne)).trans h.vnode
  refine wp_trying (wp_mono (hlink m g svg hm h0 hvm) ?_ ?_)
  · -- the link has been made
    rintro slot u - - ⟨sv', x, hu, hq⟩
    refine wp_bind (wp_modify ?_)
    have hvol := hu.volumeOk (hm.volume h.volume)
    have hv : (u.altered g SfsVnode.linked).vnode? dir = some sv' :=
      (vnode?_setVnode_of_ne (f := SfsVnode.linked) (Ne.symm hne) fun _ => rfl).trans hu.vnode
    have hthere : fileBlock u.disk sv'.svI (slot1 / 8) ≠ 0 := by
      have hm0 : fileBlock m.disk sv.svI (slot1 / 8) ≠ 0 := hm.disk ▸ fileBlock_of_occupied hocc
      rw [hu.fileBlock_eq hm0]
      exact hm0
    refine wp_bind (wp_trying (wp_mono (wp_writedir_there (s := u.altered g SfsVnode.linked)
      (P := fun _ w => ∃ k, w = { u.altered g SfsVnode.linked with tick := k })
      (R := fun _ _ => True) hv ⟨hu.tidy.inUse, hu.tidy.inj⟩
      ⟨hvol.fits, hvol.nbits, hvol.padded, hvol.past, hvol.super⟩ hslot1 hthere _
      (fun _ _ _ => trivial) fun k => ⟨k, rfl⟩) ?_ ?_))
    · exact fun _ w _ _ _ => wp_bind (wp_getVnode_any fun sv _ => wp_bind (wp_kassert_any fun _ =>
        wp_bind (wp_modify (wp_vopDecref_any fun _ => trivial))))
    · rintro (e | p) w - - hunw
      · -- the old name could not be unlinked, so the new one goes
        obtain ⟨k, rfl⟩ := hunw
        have hslot : slot < 2 ^ 32 := by
          have hle := hu.vacant.le
          have hsize := sv.svI.sfiSize.toNat_lt
          rw [SfsVnode.nentries] at hle
          omega
        refine wp_bind (wp_trying (wp_mono (wp_writedir_there (P := fun _ _ => True)
          (s := { u.altered g SfsVnode.linked with tick := k })
          (R := fun _ t => ∃ svt, Written (u.altered g SfsVnode.linked) t dir sv' svt slot
            Direntry.empty) hv ⟨hu.tidy.inUse, hu.tidy.inj⟩
          ⟨hvol.fits, hvol.nbits, hvol.padded, hvol.past, hvol.super⟩ hslot hu.mapped _
          (fun t svt ht => ⟨svt, ht.of_tick hv ⟨hu.tidy.inUse, hu.tidy.inj⟩⟩)
          fun _ => trivial) ?_ ?_))
        · rintro _ t - - ⟨svt, ht⟩
          refine wp_bind (wp_modify ?_)
          have hround := hm.around_undone h.held hne hapart hu.toGrown ht.toGrown
          have hput := ht.put
          have hmount : (u.altered g SfsVnode.linked).mount = s.mount := hu.mount.trans hm.mount
          rw [hmount] at hput
          refine hround.wp_giveBack h.vnode (by rwa [hround.file_links, ← hm.svI]) e
            fun t' hle _ hrestored hrefs => ?_
          have honce : t.writes = u.writes + 1 := ht.once
          have hle : t.writes ≤ t'.writes := hle
          refine .recovered g slot x u.writes h0 (hm.disk ▸ hu.vacant) hq (by omega) ?_
          exact (hrestored hrefs).trans (hu.recovered hm hput)
        · rintro (e' | p) t - - -
          · exact wp_panic trivial
          · trivial
      · trivial
  · rintro (e | p) u - - hu
    · obtain ⟨sv', hu, hkept, hqf⟩ := hu
      refine (hm.around h.held hne hapart hu).wp_giveBack h.vnode hlinks e
        fun t _ hlt hrestored hrefs => .unlinked u.writes hqf hlt ((hrestored hrefs).mpr ?_)
      rw [hkept.names, hm.disk]
    · trivial

/-- What is watched for in a run from `s`: the disk carries out the commands to write. -/
def State.watchWrites (s : State) : Watch fsGrowth where
  ok t := s.WritesTo t
  stable hgrows hok k hk hlt := hok k hk (hlt.trans_le hgrows.2)

/-- If the disk carries out the commands to write that the call gives it, an error leaves the names
and the link counts as they were. -/
theorem State.Orderly.restored_of_writes (h : s.Orderly dir sv) {n1 n2 : List UInt8} {d2 : UInt32}
    {e : Errno} (hrun : (rename dir n1 d2 n2).run s = .halt (.fail e) t) (hw : s.WritesTo t) :
    s.Restored t dir := by
  have hwp := h.wp_rename (W := s.watchWrites) n1 d2 n2 (Q := fun _ _ _ k => s.writes ≤ k)
    (F := fun _ => True) trivial fun m g svg hm h0 hvm => ?_
  · have hsat := hwp.sat (by rwa [hrun])
    rw [hrun] at hsat
    cases hsat (returns_rename h.held dir n1 d2 n2 e t hrun) with
    | unlinked k _ _ hrestored => exact hrestored
    | recovered g slot x k _ _ hk hlt hrestored =>
      refine hrestored.mpr fun hlost => ?_
      cases hlost.symm.trans (hw k hk hlt)
  · have hworks : m.Writable s.watchWrites :=
      State.Writable.later (fun _ hok => hok) ⟨hm.mount.symm, hm.writes.ge⟩
    refine wp_dirLink hvm (hm.tidy h.tidy) (hm.volume h.volume) hworks n2 g
      (fun slot u sv' hslot hu => ⟨sv', _, ⟨hu.toGrown, hslot, hu.put, ?_⟩, ?_⟩)
      fun _ u sv' hu => ⟨sv', hu.toGrown, hu.toKept, trivial⟩
    · refine fileBlock_of_occupied ?_
      rw [hu.entry, if_pos rfl]
      exact h0
    · exact hm.writes.ge.trans hu.writes

theorem PickedUp.entryWrite_eq (h : PickedUp s m g svg) (sv : SfsVnode) (slot : ℕ) :
    m.entryWrite sv slot = s.entryWrite sv slot := by
  rw [State.entryWrite, State.entryWrite, h.disk, h.writes]

theorem PickedUp.prior_eq (h : PickedUp s m g svg) (sv : SfsVnode) (slot : ℕ) :
    m.prior sv slot = s.prior sv slot := by
  have hwritten : ∀ block, m.written block Bytes.zero = s.written block Bytes.zero := by
    intro block
    rw [State.written, State.written, h.mount, h.writes, h.disk]
  simp only [State.prior, hwritten, h.disk, h.freemap]

theorem SfsVnode.Lacks.not_mem {disk : Disk} {name : List UInt8} (h : sv.Lacks disk name)
    (ino : UInt32) : (name, ino) ∉ names disk sv.svI := by
  rintro ⟨e, he, hocc, hname, -⟩
  obtain ⟨j, hj, rfl⟩ := mem_entriesAt.mp he
  exact h j hj hocc hname

/-- The call from `s` to `t` has not emptied the slot of the new entry again, although it went on as
if it had: the command to write that should have done it has failed. The slot shows the new entry,
or what was there before if the disk had lost the new entry as well. -/
def State.Leaves (s t : State) (sv : SfsVnode) : Prop :=
  ∃ slot, sv.Vacant s.disk slot ∧ s.entryWrite sv slot + 1 < t.writes ∧
    s.mount.world.media .write (s.entryWrite sv slot + 1) = false ∧
    (s.mount.world.media .write (s.entryWrite sv slot) = true ∨
      (s.prior sv slot).Occupied ∧
        ((s.prior sv slot).terminated.name, (s.prior sv slot).sfdIno) ∉ names s.disk sv.svI)

theorem leaves_iff (hslot : sv.Vacant s.disk slot) (hlacks : sv.Lacks s.disk n2)
    (hlen : n2.length < 60) (hz : (0 : UInt8) ∉ n2) (h0 : g ≠ 0)
    (hx : x = if s.mount.world.media .write (s.entryWrite sv slot) = true then
      ⟨g, setCstr Bytes.zero n2⟩ else s.prior sv slot)
    (hlt : s.entryWrite sv slot + 1 < t.writes) :
    s.Leaves t sv ↔ s.mount.world.media .write (s.entryWrite sv slot + 1) = false ∧
      x.Occupied ∧ (x.terminated.name, x.sfdIno) ∉ names s.disk sv.svI := by
  have hentry : s.mount.world.media .write (s.entryWrite sv slot) = true ∨
      (s.prior sv slot).Occupied ∧
        ((s.prior sv slot).terminated.name, (s.prior sv slot).sfdIno) ∉ names s.disk sv.svI ↔
      x.Occupied ∧ (x.terminated.name, x.sfdIno) ∉ names s.disk sv.svI := by
    cases hmedia : s.mount.world.media .write (s.entryWrite sv slot) with
    | true =>
      rw [hmedia, if_pos rfl] at hx
      subst hx
      refine iff_of_true (Or.inl rfl) ⟨h0, ?_⟩
      rw [name_setCstr hlen hz]
      exact hlacks.not_mem g
    | false =>
      rw [hmedia, if_neg Bool.false_ne_true] at hx
      rw [hx]
      exact or_iff_right Bool.false_ne_true
  rw [← hentry]
  constructor
  · rintro ⟨slot', hslot', -, hlost, hshows⟩
    obtain rfl := hslot.unique hslot'
    exact ⟨hlost, hshows⟩
  · rintro ⟨hlost, hshows⟩
    exact ⟨slot, hslot, hlt, hlost, hshows⟩

/-- Where the new entry needs no more than a block of the inode's own, an error leaves the names and
the link counts as they were unless it leaves the slot of the new entry occupied. -/
theorem State.Orderly.restored_iff (h : s.Orderly dir sv) {n1 n2 : List UInt8} {d2 : UInt32}
    {e : Errno} (hrun : (rename dir n1 d2 n2).run s = .halt (.fail e) t) (hnear : sv.Near s.disk)
    (hz : (0 : UInt8) ∉ n2) : s.Restored t dir ↔ ¬s.Leaves t sv := by
  have hwp := h.wp_rename (W := Watch.any fsGrowth) n1 d2 n2
    (Q := fun g slot x k => sv.Lacks s.disk n2 ∧ n2.length < 60 ∧ k = s.entryWrite sv slot + 1 ∧
      x = if s.mount.world.media .write (s.entryWrite sv slot) = true then
        ⟨g, setCstr Bytes.zero n2⟩ else s.prior sv slot)
    (F := fun k => ∀ slot, sv.Vacant s.disk slot → k ≤ s.entryWrite sv slot)
    (fun slot _ => s.writes_le_entryWrite sv slot) fun m g svg hm h0 hvm => ?_
  · have hsat := sat_of_wp hwp
    rw [hrun] at hsat
    cases hsat (returns_rename h.held dir n1 d2 n2 e t hrun) with
    | unlinked k hk hle hrestored =>
      refine iff_of_true hrestored ?_
      rintro ⟨slot, hslot, hlt, -⟩
      have := hk slot hslot
      omega
    | recovered g slot x k h0 hslot hq hlt hrestored =>
      obtain ⟨hlacks, hlen, rfl, hx⟩ := hq
      rw [hrestored, leaves_iff hslot hlacks hlen hz h0 hx hlt]
      simp only [not_and, not_not]
  · refine wp_dirLink_near hvm (hm.tidy h.tidy) (hm.volume h.volume) (by rwa [hm.disk]) n2 g
      (fun slot u sv' hslot hlacks hlen hu =>
        ⟨sv', _, ⟨hu.toGrown, hslot, hu.put, hu.mapped⟩, ?_⟩)
      fun _ u sv' hu hkept hle => ⟨sv', hu, hkept, fun slot hslot => ?_⟩
    · rw [hm.disk] at hlacks
      rw [hu.count, hm.entryWrite_eq, hm.prior_eq, hm.mount]
      exact ⟨hlacks, hlen, rfl, rfl⟩
    · rw [← hm.entryWrite_eq]
      exact hle slot (by rwa [hm.disk])

/-- **An error leaves the names and the link counts as they were**, whatever reads fail, if the disk
carries out the commands to write that the call gives it. Where the new entry needs no more than a
block of the inode's own, it does so unless it leaves the slot of the new entry occupied. -/
theorem rename_restores (h : s.Orderly dir sv) {n1 n2 : List UInt8} {d2 : UInt32} {e : Errno}
    (hrun : (rename dir n1 d2 n2).run s = .halt (.fail e) t) :
    (s.WritesTo t → s.Restored t dir) ∧
      (sv.Near s.disk → (0 : UInt8) ∉ n2 → (s.Restored t dir ↔ ¬s.Leaves t sv)) :=
  ⟨h.restored_of_writes hrun, h.restored_iff hrun⟩

end Rename

/-! ### A write that is lost -/

/-- The root directory with one entry. -/
def rootVnode : SfsVnode :=
  ⟨1, ⟨64, sfsTypeDir, 1, fun i => if i = 0 then 5 else 0, 0, fun _ => 0⟩, false, 1⟩

/-- Its entry, named `a`, is for the file `3`. -/
def rootDisk : Disk :=
  Function.update (fun _ => Bytes.zero) 5 (dirBlock [⟨3, setCstr Bytes.zero [97]⟩])

theorem rootDisk_five : rootDisk 5 = dirBlock [⟨3, setCstr Bytes.zero [97]⟩] :=
  Function.update_self ..

/-- A volume of eight blocks with this directory and this file, both loaded. -/
def rootVolume (media : UioRw → ℕ → Bool) : State where
  disk := rootDisk
  sfsVnodes := [rootVnode, ⟨3, ⟨0, sfsTypeFile, 1, fun _ => 0, 0, fun _ => 0⟩, false, 1⟩]
  sfsFreemap := ⟨8, fun _ => 0xff⟩
  sfsFreemapdirty := false
  sfsSuperdirty := false
  uio := Uio.uioKinit [] 0 0 .read
  tick := 0
  writes := 0
  mount := ⟨⟨media, fun _ => true, fun _ => true⟩, 8, ⟨sfsMagic, 8, Bytes.zero, fun _ => 0⟩⟩

/-- A disk that fails to read at the ticks from `3` to `13`. -/
def unreadable : UioRw → ℕ → Bool
  | .read, k => decide (k < 3 ∨ 13 < k)
  | .write, _ => true

/-- A disk that does so too, and carries out the first command to write but not the second. -/
def flaky : UioRw → ℕ → Bool
  | .read, k => decide (k < 3 ∨ 13 < k)
  | .write, k => decide (k ≠ 1)

/-- The error that a run ends in, and how many commands to write have been given by then. -/
def Outcome.failure {α : Type} : Outcome Stop State α → Option (Errno × ℕ)
  | .halt (.fail e) t => some (e, t.writes)
  | _ => none

theorem Outcome.failure_eq_some {α : Type} {o : Outcome Stop State α} {e : Errno} {k : ℕ}
    (h : Outcome.failure o = some (e, k)) : ∃ t, o = .halt (.fail e) t ∧ t.writes = k := by
  match o, h with
  | .halt (.fail e) t, rfl => exact ⟨t, rfl, rfl⟩

section Volume

variable {media : UioRw → ℕ → Bool}

theorem allUsed : ∀ i < 8, (⟨8, fun _ => 0xff⟩ : Bitmap).isset (UInt32.ofNat i) = true := by
  decide

theorem fileBlock_rootVolume : fileBlock (rootVolume media).disk rootVnode.svI 0 = 5 := rfl

theorem entry_rootVolume : entryIn (image (rootVolume media).disk rootVnode.svI) 0 =
    ⟨3, setCstr Bytes.zero [97]⟩ := by
  have hdisk : (rootVolume media).disk 5 = dirBlock [⟨3, setCstr Bytes.zero [97]⟩] :=
    rootDisk_five
  rw [← entryAt_eq, entryAt, Nat.zero_div, fileBlock_rootVolume, if_neg (by decide), hdisk,
    direntryOf_dirBlock _ (by decide), Nat.zero_mod, List.getD_cons_zero]

theorem orderly_rootVolume : (rootVolume media).Orderly sfsRootdirIno rootVnode where
  vnode := rfl
  tidy := by
    have hdirect : ∀ p, rootVnode.svI.pointer (rootVolume media).disk p ≠ 0 → p = .direct 0 := by
      intro p hp
      cases p with
      | direct i =>
        by_cases hi : i = 0
        · rw [hi]
        · exact absurd (if_neg hi) hp
      | indirect => exact absurd rfl hp
      | entry i => exact absurd rfl hp
    refine ⟨fun p hp => ?_, fun p q hp hpq => ?_⟩
    · rw [hdirect p hp]
      exact ⟨(by decide : (5 : UInt32) < 8), allUsed 5 (by decide)⟩
    · rw [hdirect p hp, hdirect q (hpq ▸ hp)]
  volume := by
    have hwords : 8 * (Bitmap.words 8).toNat = 8 := by decide
    refine ⟨UInt32.le_refl 8, (by decide : (8 : UInt32).toNat + 7 < 2 ^ 32), fun i hlo hhi => ?_,
      fun i hlo hhi => absurd hlo (Nat.not_le.mpr hhi),
      (by decide : (⟨8, fun _ => 0xff⟩ : Bitmap).bit 0 = true)⟩
    change i < 8 * (Bitmap.words 8).toNat at hhi
    rw [hwords] at hhi
    exact absurd hlo (Nat.not_le.mpr hhi)
  held := by
    intro p hp
    rcases List.mem_cons.mp hp with rfl | hp
    · exact Nat.one_pos
    · rw [List.mem_singleton.mp hp]
      exact Nat.one_pos
  apart := by
    intro e he _
    obtain ⟨j, hj, rfl⟩ := mem_entriesAt.mp he
    have hsize : rootVnode.svI.sfiSize.toNat / 64 = 1 := rfl
    obtain rfl : j = 0 := by omega
    rw [entry_rootVolume]
    rintro ⟨-, p, hp⟩
    cases p with
    | direct i =>
      change (if i = 0 then (5 : UInt32) else 0) = 3 at hp
      split at hp <;> exact absurd hp (by decide)
    | indirect => exact absurd hp (by decide : ¬(0 : UInt32) = 3)
    | entry i => exact absurd hp (by decide : ¬(0 : UInt32) = 3)

theorem vacant_rootVolume : rootVnode.Vacant (rootVolume media).disk 1 where
  whole := rfl
  le := le_rfl
  empty hlt := absurd hlt (Nat.lt_irrefl 1)
  last j hj _ := by
    have hone : rootVnode.nentries = 1 := rfl
    obtain rfl : j = 0 := by omega
    rw [entry_rootVolume]
    exact (by decide : (3 : UInt32) ≠ 0)

theorem near_rootVolume : rootVnode.Near (rootVolume media).disk := by
  intro slot hslot
  obtain rfl := hslot.unique vacant_rootVolume
  exact Or.inl (by decide : (5 : UInt32) ≠ 0)

/-- Reads fail, so that the old name cannot be unlinked, and the new one is taken back. -/
theorem rename_restores_unreadable : ∃ t,
    (rename sfsRootdirIno [97] sfsRootdirIno [98]).run (rootVolume unreadable) =
      .halt (.fail .eio) t ∧ t.writes = 2 ∧ (rootVolume unreadable).Restored t sfsRootdirIno ∧
      ¬(rootVolume unreadable).Leaves t rootVnode := by
  obtain ⟨t, hrun, hwrites⟩ := Outcome.failure_eq_some (k := 2) (e := .eio)
    (by decide +kernel : Outcome.failure ((rename sfsRootdirIno [97] sfsRootdirIno [98]).run
      (rootVolume unreadable)) = some (.eio, 2))
  obtain ⟨hrestores, hexact⟩ := rename_restores orderly_rootVolume hrun
  have hrestored := hrestores fun _ _ _ => rfl
  exact ⟨t, hrun, hwrites, hrestored, (hexact near_rootVolume (by decide)).mp hrestored⟩

/-- The command that should have taken the new name back fails too: the call returns an error, and
the new name has stayed. -/
theorem not_restored_flaky : (rootVolume flaky).Orderly sfsRootdirIno rootVnode ∧
    ∃ t, (rename sfsRootdirIno [97] sfsRootdirIno [98]).run (rootVolume flaky) =
      .halt (.fail .eio) t ∧ ¬(rootVolume flaky).Restored t sfsRootdirIno := by
  obtain ⟨t, hrun, hwrites⟩ := Outcome.failure_eq_some (k := 2) (e := .eio)
    (by decide +kernel : Outcome.failure ((rename sfsRootdirIno [97] sfsRootdirIno [98]).run
      (rootVolume flaky)) = some (.eio, 2))
  refine ⟨orderly_rootVolume, t, hrun, fun hrestored => ?_⟩
  refine (orderly_rootVolume.restored_iff hrun near_rootVolume (by decide)).mp hrestored
    ⟨1, vacant_rootVolume, ?_, rfl, Or.inl rfl⟩
  rw [hwrites]
  exact Nat.lt_succ_self 1

end Volume

end Sfs

end Os161
