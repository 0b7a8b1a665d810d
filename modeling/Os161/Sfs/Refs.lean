import Os161.Sfs.Vnops
import Os161.Sfs.Truncate

/-!
# Vnode references

What the calls that hand out or look up vnodes do to the references in `sfs_vnodes`, in particular
where they return an error. A vnode that is loaded for the length of a call is given back by
`VOP_DECREF`, which unloads it if nobody else has it; that `sfs_reclaim` does not fail there is part
of what has to be shown.

`sfs_lookparent` is here because nothing else needs it.

## Main definitions

* `State.refs` — the vnodes that are loaded, and how often each is referred to
* `withRef` — the same with one reference more

## Main results

* `wp_loadvnode`, `wp_vopDecref`
-/

namespace Os161

namespace Sfs

open Prog

/-! ### What a call on one vnode leaves alone -/

/-- The vnodes that are loaded, with their reference counts and link counts. -/
def Core.roster (c : Core) : List (UInt32 × ℕ × UInt16) :=
  c.sfsVnodes.map fun sv => (sv.svIno, sv.vnRefcount, sv.svI.sfiLinkcount)

/-- The same, and everything about the vnodes other than `v`. -/
def Core.seen (v : UInt32) (c : Core) :
    List (UInt32 × ℕ × UInt16) × (UInt32 → Option SfsVnode) :=
  (c.roster, fun j => if j = v then none else c.vnode? j)

/-- What keeps it. -/
def seenSame (v : UInt32) : Growth State := Growth.same fun s => s.seen v

/-- Nothing about how a run stops. -/
abbrev anyStop : Stop → Prop := fun _ => True

section Keeps

variable {v : UInt32} {α : Type}

theorem seenSame_of_sfsVnodes {s t : State} (h : t.sfsVnodes = s.sfsVnodes) :
    (seenSame v).le s t := by
  change s.seen v = t.seen v
  rw [Core.seen, Core.seen, Core.roster, Core.roster]
  simp only [Core.vnode?, h]

theorem roster_setVnode {c : Core} {f : SfsVnode → SfsVnode}
    (hf : ∀ sv, (f sv).svIno = sv.svIno ∧ (f sv).vnRefcount = sv.vnRefcount ∧
      (f sv).svI.sfiLinkcount = sv.svI.sfiLinkcount) : (c.setVnode v f).roster = c.roster := by
  rw [Core.roster, Core.setVnode, Core.roster, List.map_map]
  refine List.map_congr_left fun sv _ => ?_
  rw [Function.comp_apply]
  split
  · rw [(hf sv).1, (hf sv).2.1, (hf sv).2.2]
  · rfl

theorem keeps_setVnode {f : SfsVnode → SfsVnode}
    (hf : ∀ sv, (f sv).svIno = sv.svIno ∧ (f sv).vnRefcount = sv.vnRefcount ∧
      (f sv).svI.sfiLinkcount = sv.svI.sfiLinkcount) :
    Keeps (seenSame v) anyStop (modify fun c => c.setVnode v f) := by
  refine ⟨fun s => ?_⟩
  change s.seen v = (s.toCore.setVnode v f).seen v
  rw [Core.seen, Core.seen, roster_setVnode hf]
  refine Prod.ext rfl (funext fun j => ?_)
  dsimp only
  split
  · rfl
  · rename_i hj
    exact (vnode?_setVnode_of_ne hj fun sv => (hf sv).1).symm

theorem keeps_modifyInode {f : Dinode → Dinode} (hf : ∀ d, (f d).sfiLinkcount = d.sfiLinkcount) :
    Keeps (seenSame v) anyStop (modifyInode v f) :=
  keeps_setVnode fun sv => ⟨rfl, rfl, hf sv.svI⟩

theorem keeps_modify {f : Core → Core} (hf : ∀ c, (f c).sfsVnodes = c.sfsVnodes) :
    Keeps (seenSame v) anyStop (modify f) :=
  ⟨fun s => seenSame_of_sfsVnodes (hf s.toCore)⟩

theorem keeps_fail (e : Errno) : Keeps (seenSame v) anyStop (fail e : Sk α) := keeps_halt trivial

theorem keeps_panic (p : Panic) : Keeps (seenSame v) anyStop (panic p : Sk α) := keeps_halt trivial

theorem keeps_kassert (p : Prop) [Decidable p] (which : Kassert) :
    Keeps (seenSame v) anyStop (kassert p which) :=
  keeps_ite (keeps_pure ()) (keeps_panic _)

theorem keeps_trying {x : Sk α} (hx : Keeps (seenSame v) anyStop x) :
    Keeps (seenSame v) anyStop (trying x) := by
  refine ⟨fun s => ?_⟩
  have h := hx.sat s
  rw [run_trying]
  cases hrun : x.run s with
  | done a t =>
    rw [hrun] at h
    exact h
  | halt e t =>
    rw [hrun] at h
    cases e with
    | fail e => exact h.1
    | panic p => exact ⟨h.1, trivial⟩

theorem keeps_getVnode (j : UInt32) : Keeps (seenSame v) anyStop (getVnode j) := by
  refine keeps_bind keeps_get fun s => ?_
  split
  · exact keeps_pure _
  · exact keeps_panic _

theorem keeps_readblock (block : UInt32) : Keeps (seenSame v) anyStop (readblock block) := by
  refine ⟨fun s => ?_⟩
  rcases run_readblock_cases (s := s) block with ⟨k, hk, -⟩ | ⟨k, hk, -⟩ | ⟨hk, -⟩ <;> rw [hk]
  · exact seenSame_of_sfsVnodes rfl
  · exact ⟨seenSame_of_sfsVnodes rfl, trivial⟩
  · exact ⟨seenSame_of_sfsVnodes rfl, trivial⟩

theorem keeps_writeblock (block : UInt32) (data : Block) :
    Keeps (seenSame v) anyStop (writeblock block data) := by
  refine ⟨fun s => ?_⟩
  rcases run_writeblock_cases (s := s) block data with hk | hk <;> rw [hk]
  · exact seenSame_of_sfsVnodes rfl
  · exact ⟨seenSame_of_sfsVnodes rfl, trivial⟩

theorem keeps_unmark (block : UInt32) : Keeps (seenSame v) anyStop (unmark block) := by
  refine keeps_bind keeps_get fun s => ?_
  split
  · exact keeps_modify fun _ => rfl
  · exact keeps_panic _

theorem keeps_bfree (block : UInt32) : Keeps (seenSame v) anyStop (bfree block) :=
  keeps_bind (keeps_unmark block) fun _ => keeps_modify fun _ => rfl

theorem keeps_balloc : Keeps (seenSame v) anyStop balloc := by
  refine keeps_bind keeps_get fun s => ?_
  split
  · exact keeps_fail _
  · exact keeps_panic _
  · refine keeps_bind (keeps_modify fun _ => rfl) fun _ => keeps_ite (keeps_panic _) ?_
    refine keeps_bind (keeps_trying (keeps_writeblock _ _)) fun r => ?_
    split
    · exact keeps_pure _
    · exact keeps_bind (keeps_unmark _) fun _ => keeps_fail _

theorem keeps_bused (block : UInt32) : Keeps (seenSame v) anyStop (bused block) :=
  keeps_bind keeps_get fun _ => keeps_ite (keeps_panic _) (keeps_pure _)

theorem keeps_handBack (ino fileblock block : UInt32) :
    Keeps (seenSame v) anyStop (handBack ino fileblock block) :=
  keeps_ite (keeps_pure _) (keeps_bind (keeps_bused block) fun _ =>
    keeps_ite (keeps_pure _) (keeps_panic _))

theorem keeps_bmapDirect (i : Fin 15) (doalloc : Bool) :
    Keeps (seenSame v) anyStop (bmapDirect v i doalloc) := by
  refine keeps_bind (keeps_getVnode v) fun sv => keeps_ite ?_ (keeps_handBack _ _ _)
  refine keeps_bind keeps_balloc fun block => ?_
  exact keeps_bind (keeps_modifyInode fun _ => rfl) fun _ => keeps_handBack _ _ _

theorem keeps_bmapIndirect (idblock : UInt32) (idbuf : Fin 128 → UInt32) (idoff : Fin 128)
    (doalloc : Bool) : Keeps (seenSame v) anyStop (bmapIndirect v idblock idbuf idoff doalloc) := by
  refine keeps_ite (keeps_bind keeps_balloc fun block => ?_) (keeps_handBack _ _ _)
  exact keeps_bind (keeps_writeblock _ _) fun _ => keeps_handBack _ _ _

theorem keeps_bmap (fileblock : UInt32) (doalloc : Bool) :
    Keeps (seenSame v) anyStop (bmap v fileblock doalloc) := by
  rw [bmap]
  split
  · exact keeps_bmapDirect _ _
  split
  · refine keeps_bind (keeps_getVnode v) fun sv => keeps_ite (keeps_pure _) (keeps_ite ?_ ?_)
    · refine keeps_bind keeps_balloc fun idblock => ?_
      exact keeps_bind (keeps_modifyInode fun _ => rfl) fun _ => keeps_bmapIndirect _ _ _ _
    · exact keeps_bind (keeps_readblock _) fun b => keeps_bmapIndirect _ _ _ _
  · exact keeps_fail _

theorem keeps_itrunc (len : ℤ) : Keeps (seenSame v) anyStop (itrunc v len) := by
  have hround : ∀ u i, Keeps (seenSame v) anyStop ((fun _ i => truncDirectRound v (blocklen len) i :
      Unit → Fin 15 → Sk Unit) u i) := by
    intro u i
    refine keeps_bind (keeps_getVnode v) fun sv => keeps_ite ?_ (keeps_pure ())
    exact keeps_bind (keeps_bfree _) fun _ => keeps_modifyInode fun _ => rfl
  have hsize : Keeps (seenSame v) anyStop (setSize v len) := keeps_modifyInode fun _ => rfl
  rw [itrunc_eq]
  refine keeps_bind (keeps_foldlM hround ()) fun _ => keeps_bind (keeps_getVnode v) fun sv => ?_
  refine keeps_ite (keeps_bind (keeps_readblock _) fun b => ?_) hsize
  have hscan : ∀ acc j, Keeps (seenSame v) anyStop (truncIndirectRound (blocklen len) acc j) := by
    intro acc j
    unfold truncIndirectRound
    split
    · exact keeps_bind (keeps_bfree _) fun _ => keeps_bind (keeps_pure _) fun _ => keeps_pure _
    · exact keeps_bind (keeps_pure _) fun _ => keeps_pure _
  rw [truncScan, truncIndirect_eq]
  refine keeps_bind (keeps_foldlM hscan _) fun r => keeps_ite ?_ ?_
  · exact keeps_bind (keeps_bfree _) fun _ =>
      keeps_bind (keeps_modifyInode fun _ => rfl) fun _ => hsize
  · exact keeps_bind (keeps_when (keeps_writeblock _ _)) fun _ => hsize

theorem keeps_syncInode : Keeps (seenSame v) anyStop (syncInode v) := by
  refine keeps_bind (keeps_getVnode v) fun sv => keeps_ite ?_ (keeps_pure ())
  exact keeps_bind (keeps_writeblock _ _) fun _ => keeps_setVnode fun _ => ⟨rfl, rfl, rfl⟩

/-! ### Directories -/

theorem keeps_metaioRead (pos len : ℕ) : Keeps (seenSame v) anyStop (metaioRead v pos len) :=
  keeps_bind (keeps_bmap _ _) fun _ => keeps_ite (keeps_pure _)
    (keeps_bind (keeps_readblock _) fun _ => keeps_pure _)

theorem keeps_metaioWrite (pos : ℕ) {len : ℕ} (data : Bytes len) :
    Keeps (seenSame v) anyStop (metaioWrite v pos data) := by
  refine keeps_bind (keeps_bmap _ _) fun _ => keeps_ite (keeps_panic _) ?_
  refine keeps_bind (keeps_readblock _) fun _ => keeps_bind (keeps_writeblock _ _) fun _ => ?_
  exact keeps_bind (keeps_getVnode v) fun sv => keeps_when (keeps_modifyInode fun _ => rfl)

theorem keeps_writedir (slot : ℕ) (sd : Direntry) :
    Keeps (seenSame v) anyStop (writedir v slot sd) := keeps_metaioWrite _ _

theorem keeps_dirNentries : Keeps (seenSame v) anyStop (dirNentries v) :=
  keeps_bind (keeps_getVnode v) fun _ => keeps_bind (keeps_kassert _ _) fun _ =>
    keeps_ite (keeps_panic _) (keeps_pure _)

theorem keeps_dirFindname (name : List UInt8) :
    Keeps (seenSame v) anyStop (dirFindname v name) := by
  refine keeps_bind keeps_dirNentries fun n => keeps_foldlM (fun acc i => ?_) _
  refine keeps_bind (keeps_bind (keeps_metaioRead _ _) fun _ => keeps_pure _) fun tsd => ?_
  refine keeps_ite (keeps_pure _) (keeps_ite ?_ (keeps_pure _))
  exact keeps_bind (keeps_kassert _ _) fun _ => keeps_pure _

theorem keeps_dirLink (name : List UInt8) (ino : UInt32) :
    Keeps (seenSame v) anyStop (dirLink v name ino) := by
  have hwrite : ∀ slot, Keeps (seenSame v) anyStop (do
      writedir v slot ⟨ino, setCstr Bytes.zero name⟩
      pure slot) := fun slot => keeps_bind (keeps_writedir slot _) fun _ => keeps_pure slot
  refine keeps_bind (keeps_dirFindname name) fun r => keeps_ite (keeps_fail _) ?_
  refine keeps_ite (keeps_fail _) ?_
  dsimp only
  split
  · exact keeps_bind (keeps_pure _) hwrite
  · exact keeps_bind keeps_dirNentries hwrite

theorem keeps_dirUnlink (slot : ℕ) : Keeps (seenSame v) anyStop (dirUnlink v slot) :=
  keeps_writedir _ _

end Keeps

/-! ### What looking a name up leaves alone -/

/-- The disk, the vnodes and the freemap stay, and no command to write is given. -/
def lookSame : Growth State := Growth.same fun s => (s.disk, s.sfsVnodes, s.sfsFreemap, s.writes)

section Look

variable {α : Type}

theorem looks_panic (p : Panic) : Keeps lookSame anyStop (panic p : Sk α) := keeps_halt trivial

theorem looks_getVnode (j : UInt32) : Keeps lookSame anyStop (getVnode j) := by
  refine keeps_bind keeps_get fun s => ?_
  split
  · exact keeps_pure _
  · exact looks_panic _

theorem looks_readblock (block : UInt32) : Keeps lookSame anyStop (readblock block) := by
  refine ⟨fun s => ?_⟩
  rcases run_readblock_cases (s := s) block with ⟨k, hk, -⟩ | ⟨k, hk, -⟩ | ⟨hk, -⟩ <;> rw [hk]
  · exact Eq.refl _
  · exact ⟨Eq.refl _, trivial⟩
  · exact ⟨Eq.refl _, trivial⟩

theorem looks_handBack (ino fileblock block : UInt32) :
    Keeps lookSame anyStop (handBack ino fileblock block) := by
  refine keeps_ite (keeps_pure _) (keeps_bind ?_ fun _ => keeps_ite (keeps_pure _) (looks_panic _))
  exact keeps_bind keeps_get fun _ => keeps_ite (looks_panic _) (keeps_pure _)

theorem looks_bmap (ino fileblock : UInt32) :
    Keeps lookSame anyStop (bmap ino fileblock false) := by
  rw [bmap]
  split
  · rw [bmapDirect_lookup]
    exact keeps_bind (looks_getVnode ino) fun _ => looks_handBack _ _ _
  split
  · refine keeps_bind (looks_getVnode ino) fun sv => ?_
    dsimp only
    by_cases h0 : sv.svI.sfiIndirect = 0
    · rw [if_pos ⟨h0, rfl⟩]
      exact keeps_pure _
    · rw [if_neg fun h => h0 h.1, if_neg h0]
      refine keeps_bind (looks_readblock _) fun b => ?_
      rw [bmapIndirect_lookup]
      exact looks_handBack _ _ _
  · exact keeps_halt trivial

theorem looks_metaioRead (ino : UInt32) (pos len : ℕ) :
    Keeps lookSame anyStop (metaioRead ino pos len) :=
  keeps_bind (looks_bmap _ _) fun _ => keeps_ite (keeps_pure _)
    (keeps_bind (looks_readblock _) fun _ => keeps_pure _)

theorem looks_dirNentries (dir : UInt32) : Keeps lookSame anyStop (dirNentries dir) :=
  keeps_bind (looks_getVnode dir) fun _ => keeps_bind (keeps_ite (keeps_pure _) (looks_panic _))
    fun _ => keeps_ite (looks_panic _) (keeps_pure _)

theorem looks_dirFindname (dir : UInt32) (name : List UInt8) :
    Keeps lookSame anyStop (dirFindname dir name) := by
  refine keeps_bind (looks_dirNentries dir) fun n => keeps_foldlM (fun acc i => ?_) _
  refine keeps_bind (keeps_bind (looks_metaioRead _ _ _) fun _ => keeps_pure _) fun tsd => ?_
  refine keeps_ite (keeps_pure _) (keeps_ite ?_ (keeps_pure _))
  exact keeps_bind (keeps_ite (keeps_pure _) (looks_panic _)) fun _ => keeps_pure _

end Look

/-! ### References -/

/-- The vnodes that are loaded, and how often each is referred to. -/
def Core.refs (c : Core) : List (UInt32 × ℕ) := c.sfsVnodes.map fun sv => (sv.svIno, sv.vnRefcount)

/-- Somebody has each vnode that is loaded. -/
def Core.Held (c : Core) : Prop := ∀ p ∈ c.refs, 0 < p.2

/-- The same with one reference more. -/
def withRef (l : List (UInt32 × ℕ)) (ino : UInt32) : List (UInt32 × ℕ) :=
  if ino ∈ l.map Prod.fst then l.map fun p => if p.1 = ino then (p.1, p.2 + 1) else p
  else l ++ [(ino, 1)]

/-- What holds where a call returns an error; nothing is said about a panic. -/
def onFail (P : Errno → State → Prop) : Stop → State → Prop
  | .fail e, t => P e t
  | .panic _, _ => True

section Refs

variable {W : Watch fsGrowth} {α β : Type} {s t : State} {ino v : UInt32} {sv : SfsVnode}
  {P : Errno → State → Prop} {l : List (UInt32 × ℕ)} {links forcetype : UInt16}

theorem refs_of_roster {c c' : Core} (h : c'.roster = c.roster) : c'.refs = c.refs := by
  have hrefs : ∀ c : Core, c.refs = c.roster.map fun p => (p.1, p.2.1) := by
    intro c
    rw [Core.refs, Core.roster, List.map_map]
    rfl
  rw [hrefs, hrefs, h]

theorem refs_of_seenSame (h : (seenSame v).le s t) : t.refs = s.refs :=
  refs_of_roster (congrArg Prod.fst (Eq.symm h))

theorem vnode?_of_seenSame (h : (seenSame v).le s t) {j : UInt32} (hj : j ≠ v) :
    t.vnode? j = s.vnode? j := by
  have := congrFun (congrArg Prod.snd (Eq.symm h)) j
  dsimp only [Core.seen] at this
  rwa [if_neg hj, if_neg hj] at this

/-- The vnode a pointer leads to, in the table. -/
theorem mem_refs_of_vnode? {c : Core} (h : c.vnode? ino = some sv) :
    (ino, sv.vnRefcount) ∈ c.refs := by
  refine List.mem_map.mpr ⟨sv, List.mem_of_find?_eq_some h, ?_⟩
  rw [svIno_of_vnode? h]

theorem exists_vnode?_iff {c : Core} :
    (∃ sv, c.vnode? ino = some sv) ↔ ino ∈ c.refs.map Prod.fst := by
  rw [Core.refs, List.map_map, List.mem_map]
  constructor
  · rintro ⟨sv, hsv⟩
    exact ⟨sv, List.mem_of_find?_eq_some hsv, svIno_of_vnode? hsv⟩
  · rintro ⟨sv, hmem, hsv⟩
    have hsome : (c.sfsVnodes.find? fun sv => decide (sv.svIno = ino)).isSome = true :=
      List.find?_isSome.mpr ⟨sv, hmem, decide_eq_true hsv⟩
    exact Option.isSome_iff_exists.mp hsome

/-- The vnode is loaded, and the inode has so many links. -/
def Core.Linked (c : Core) (ino : UInt32) (links : UInt16) : Prop :=
  ∃ sv, c.vnode? ino = some sv ∧ sv.svI.sfiLinkcount = links

theorem linked_iff_roster {c : Core} : c.Linked ino links ↔
    ∃ p, c.roster.find? (fun p => decide (p.1 = ino)) = some p ∧ p.2.2 = links := by
  have hfind : c.roster.find? (fun p => decide (p.1 = ino)) =
      (c.vnode? ino).map fun sv => (sv.svIno, sv.vnRefcount, sv.svI.sfiLinkcount) := by
    rw [Core.roster, List.find?_map]
    rfl
  rw [hfind]
  constructor
  · rintro ⟨sv, hv, rfl⟩
    exact ⟨_, by rw [hv]; rfl, rfl⟩
  · rintro ⟨p, hp, rfl⟩
    obtain ⟨sv, hv, rfl⟩ := Option.map_eq_some_iff.mp hp
    exact ⟨sv, hv, rfl⟩

theorem linked_of_seenSame (h : (seenSame v).le s t) (hs : s.Linked ino links) :
    t.Linked ino links := by
  rw [linked_iff_roster] at hs ⊢
  rwa [show t.roster = s.roster from congrArg Prod.fst (Eq.symm h)]

theorem linked_setVnode {c : Core} {f : SfsVnode → SfsVnode} (hf : ∀ sv, (f sv).svIno = sv.svIno)
    {links' : UInt16}
    (hlinks : ∀ sv : SfsVnode, sv.svI.sfiLinkcount = links → (f sv).svI.sfiLinkcount = links')
    (h : c.Linked ino links) : (c.setVnode ino f).Linked ino links' := by
  obtain ⟨sv, hv, hl⟩ := h
  exact ⟨f sv, vnode?_setVnode hf hv, hlinks sv hl⟩

theorem Core.Linked.quiet {c : Core} (h : c.Linked ino links) (h0 : links ≠ 0) {sv : SfsVnode}
    (hv : c.vnode? ino = some sv) : sv.svI.sfiLinkcount ≠ 0 := by
  obtain ⟨sv', hv', rfl⟩ := h
  obtain rfl := Option.some.inj (hv'.symm.trans hv)
  exact h0

/-- Changes that leave the count alone. -/
theorem refs_setVnode {c : Core} {f : SfsVnode → SfsVnode}
    (hf : ∀ sv, (f sv).svIno = sv.svIno ∧ (f sv).vnRefcount = sv.vnRefcount) :
    (c.setVnode ino f).refs = c.refs := by
  rw [Core.refs, Core.setVnode, Core.refs, List.map_map]
  refine List.map_congr_left fun sv _ => ?_
  rw [Function.comp_apply]
  split
  · rw [(hf sv).1, (hf sv).2]
  · rfl

/-! ### Rules -/

theorem wp_getVnode_any {R : SfsVnode → State → Prop} (h : ∀ sv, s.vnode? ino = some sv → R sv s) :
    wp W (getVnode ino) R (onFail P) s := by
  cases hv : s.vnode? ino with
  | some sv => exact wp_getVnode hv (h sv hv)
  | none =>
    refine wp_of_run_halt (e := .panic (.stale ino)) (t := s) ?_ trivial
    rw [getVnode, run_bind_of_done (run_get s), hv]
    rfl

theorem wp_kassert_any {p : Prop} [Decidable p] {which : Kassert} {R : Unit → State → Prop}
    (h : p → R () s) : wp W (kassert p which) R (onFail P) s :=
  wp_ite (fun hp => wp_pure fun _ => h hp) fun _ => wp_panic trivial

/-! ### Loading -/

/-- The search of `sfs_loadvnode` changes nothing. -/
theorem wp_findVnode (svs : List SfsVnode) : wp W (findVnode ino svs)
    (fun found t => t = s ∧ (found = true ↔ ino ∈ svs.map SfsVnode.svIno)) (onFail P) s := by
  induction svs with
  | nil => exact wp_pure fun _ => ⟨rfl, by simp⟩
  | cons sv svs ih =>
    rw [findVnode, bused]
    refine wp_bind (wp_bind (wp_get fun _ => wp_ite (fun _ => wp_panic trivial) fun _ => ?_))
    refine wp_pure fun _ => wp_ite (fun _ => ?_) fun _ => wp_panic trivial
    refine wp_ite (fun hsv => wp_pure fun _ => ⟨rfl, by simp [hsv]⟩) fun hsv => ?_
    refine wp_post ih fun found t _ _ h => ⟨h.1, ?_⟩
    rw [h.2, List.map_cons, List.mem_cons]
    exact ⟨Or.inr, fun h => h.resolve_left fun h => hsv h.symm⟩

/-- Loading an inode that is not loaded yet: the vnode comes to the end of the table, with what the
disk says about links and the indirect block. -/
theorem wp_readVnode (forcetype : UInt16) : wp W (readVnode ino forcetype)
    (fun r t => r = ino ∧ ∃ svI dirty, t.sfsVnodes = s.sfsVnodes ++ [⟨ino, svI, dirty, 1⟩] ∧
      svI.sfiLinkcount = (dinodeAt s.disk ino).sfiLinkcount ∧
      svI.sfiIndirect = (dinodeAt s.disk ino).sfiIndirect ∧
      (forcetype = sfsTypeInval → svI = dinodeAt s.disk ino))
    (onFail fun _ t => t.sfsVnodes = s.sfsVnodes) s := by
  rw [readVnode]
  refine wp_bind (wp_ask ?_)
  refine wp_ite (fun _ => wp_bind ?_) fun _ => wp_fail rfl
  rw [bused]
  refine wp_bind (wp_get fun _ => wp_ite (fun _ => wp_panic trivial) fun _ => ?_)
  refine wp_pure fun _ => wp_ite (fun _ => wp_bind ?_) fun _ => wp_panic trivial
  refine wp_readblock_any (fun _ _ => trivial) (fun k => ?_) fun k => rfl
  have hrest : ∀ svI : Dinode, svI.sfiLinkcount = (dinodeAt s.disk ino).sfiLinkcount →
      svI.sfiIndirect = (dinodeAt s.disk ino).sfiIndirect →
      (forcetype = sfsTypeInval → svI = dinodeAt s.disk ino) →
      wp W (if svI.sfiType = sfsTypeFile ∨ svI.sfiType = sfsTypeDir then do
          let ok ← ask World.memory
          if ok then do
            modify fun c => { c with
              sfsVnodes := c.sfsVnodes ++ [⟨ino, svI, forcetype ≠ sfsTypeInval, 1⟩] }
            pure ino
          else fail .enomem
        else panic (.invalidType ino svI.sfiType))
        (fun r t => r = ino ∧ ∃ svI dirty, t.sfsVnodes = s.sfsVnodes ++ [⟨ino, svI, dirty, 1⟩] ∧
          svI.sfiLinkcount = (dinodeAt s.disk ino).sfiLinkcount ∧
          svI.sfiIndirect = (dinodeAt s.disk ino).sfiIndirect ∧
          (forcetype = sfsTypeInval → svI = dinodeAt s.disk ino))
        (onFail fun _ t => t.sfsVnodes = s.sfsVnodes) { s with tick := k } := by
    intro svI hlink hind hsame
    refine wp_ite (fun _ => wp_bind (wp_ask ?_)) fun _ => wp_panic trivial
    refine wp_ite (fun _ => wp_bind (wp_modify ?_)) fun _ => wp_fail rfl
    exact wp_pure fun _ => ⟨rfl, svI, _, rfl, hlink, hind, hsame⟩
  dsimp only
  split
  · rename_i hforce
    refine wp_bind (wp_kassert_any fun _ => wp_bind (wp_pure fun _ => ?_))
    exact hrest _ rfl rfl fun h => absurd h hforce
  · exact wp_bind (wp_pure fun _ => hrest _ rfl rfl fun _ => rfl)

/-- One reference more, on a vnode that is loaded. -/
theorem refs_incref (hmem : ino ∈ s.refs.map Prod.fst) :
    (s.setVnode ino fun sv => { sv with vnRefcount := sv.vnRefcount + 1 }).refs =
      withRef s.refs ino := by
  rw [withRef, if_pos hmem, Core.refs, Core.setVnode, Core.refs, List.map_map, List.map_map]
  refine List.map_congr_left fun sv _ => ?_
  simp only [Function.comp_apply]
  split <;> rfl

/-- `sfs_loadvnode`, without a type to force. -/
theorem wp_loadvnode : wp W (loadvnode ino sfsTypeInval)
    (fun r t => r = ino ∧ t.refs = withRef s.refs ino)
    (onFail fun _ t => t.refs = s.refs) s := by
  rw [loadvnode]
  refine wp_bind (wp_get fun _ => wp_bind ?_)
  refine wp_mono (wp_findVnode (P := fun _ _ => False) s.sfsVnodes) ?_ ?_
  · rintro found s - - ⟨rfl, hfound⟩
    have hrefs : s.refs.map Prod.fst = s.sfsVnodes.map SfsVnode.svIno := by
      rw [Core.refs, List.map_map]
      rfl
    refine wp_ite (fun h => ?_) fun h => ?_
    · have hmem : ino ∈ s.refs.map Prod.fst := by
        rw [hrefs]
        exact hfound.mp h
      refine wp_bind (wp_kassert_any fun _ => wp_bind (wp_bind ?_))
      refine wp_getVnode_any fun sv hv => wp_modify (wp_pure fun _ => ⟨rfl, ?_⟩)
      exact refs_incref hmem
    · refine wp_mono (wp_readVnode sfsTypeInval) ?_ ?_
      · rintro r t - - ⟨rfl, svI, dirty, hvnodes, -⟩
        refine ⟨rfl, ?_⟩
        rw [withRef, if_neg (by rw [hrefs]; exact fun hmem => h (hfound.mpr hmem)), Core.refs,
          hvnodes, List.map_append]
        rfl
      · rintro (e | p) t - - he
        · change t.refs = s.refs
          rw [Core.refs, Core.refs, show t.sfsVnodes = s.sfsVnodes from he]
        · trivial
  · rintro (e | p) t - - he
    · exact absurd he id
    · trivial

/-! ### Letting go -/

/-- A rule for a part, with what the part keeps besides. -/
theorem wp_seen {x : Sk α} {Q : α → State → Prop} {E : Stop → State → Prop}
    (hx : Keeps (seenSame v) anyStop x) (h : wp W x Q E s) :
    wp W x (fun a t => Q a t ∧ (seenSame v).le s t) (fun e t => E e t ∧ (seenSame v).le s t) s := by
  exact wp_and h (wp_of_keeps hx (fun _ _ h => h) fun _ _ h _ => h)

/-- Writing an inode back does not fail. -/
theorem wp_syncInode_any : wp W (syncInode v) (fun _ t => (seenSame v).le s t)
    (onFail fun _ _ => False) s := by
  have hrun : wp W (syncInode v) (fun _ _ => True) (onFail fun _ _ => False) s := by
    rw [syncInode]
    refine wp_bind (wp_getVnode_any fun sv _ => wp_ite (fun _ => wp_bind ?_) fun _ => ?_)
    · exact wp_writeblock_any (fun _ _ => trivial) (wp_modify trivial)
    · exact wp_pure fun _ => trivial
  refine wp_mono (wp_seen keeps_syncInode hrun) (fun _ t _ _ h => h.2) ?_
  rintro (e | p) t - - h
  · exact h.1
  · trivial

/-- The file is to be erased, and the indirect block that takes cannot be read. -/
def State.Stuck (s : State) (sv : SfsVnode) : Prop :=
  sv.svI.sfiLinkcount = 0 ∧ sv.svI.sfiIndirect ≠ 0 ∧ s.ReadFails

/-- Unloading the vnode. -/
theorem wp_reclaim (hv : s.vnode? ino = some sv) (hcount : sv.vnRefcount = 1)
    (hfree : ¬s.Stuck sv) :
    wp W (reclaim ino) (fun _ t => t.refs = s.refs.eraseP fun p => p.1 = ino)
      (onFail fun _ _ => False) s := by
  rw [reclaim]
  refine wp_bind (wp_getVnode hv ?_)
  rw [if_neg (not_not_intro hcount)]
  -- the truncation keeps what is seen, and cannot fail
  have htrunc : wp W (when (sv.svI.sfiLinkcount = 0) (itrunc ino 0))
      (fun _ t => (seenSame ino).le s t) (onFail fun _ _ => False) s := by
    refine wp_when (fun hlink => ?_) fun _ _ => Eq.refl _
    refine ⟨fun _ => ?_⟩
    have hkeep := (keeps_itrunc (v := ino) 0).sat s
    have hend := itrunc_cases hv 0
    generalize (itrunc ino 0).run s = r at hkeep hend
    cases hend with
    | done k hscan hmap h => exact hkeep
    | failed hscan hd hread hmap h => exact hfree ⟨hlink, hscan.2, hread⟩
    | past hscan hd => trivial
    | direct hmap => trivial
    | indirect hread hmap => trivial
  refine wp_bind (wp_post htrunc fun _ t _ _ ht => wp_bind ?_)
  refine wp_post wp_syncInode_any fun _ u _ _ hu => ?_
  have hsu : u.refs = s.refs := (refs_of_seenSame hu).trans (refs_of_seenSame ht)
  refine wp_bind (wp_getVnode_any fun sv' _ => ?_)
  have hfree : wp W (when (sv'.svI.sfiLinkcount = 0) (bfree sv'.svIno))
      (fun _ t => t.refs = s.refs) (onFail fun _ _ => False) u := by
    refine wp_when (fun _ => ?_) fun _ _ => hsu
    rw [bfree, unmark]
    refine wp_bind (wp_bind (wp_get fun _ => ?_))
    split
    · exact wp_modify (wp_modify hsu)
    · exact wp_panic trivial
  refine wp_bind (wp_post hfree fun _ w _ _ hw => wp_bind (wp_get fun _ => ?_))
  refine wp_ite (fun _ => wp_bind (wp_modify (wp_kassert_any fun _ => ?_)))
    fun _ => wp_panic trivial
  rw [← hw, Core.refs, Core.refs, List.eraseP_map]
  rfl

/-- Giving back a reference that was taken. -/
theorem wp_vopDecref (hpos : ∀ p ∈ l, 0 < p.2)
    (hs : s.refs = withRef l ino) (hfree : ∀ sv, s.vnode? ino = some sv → ¬s.Stuck sv) :
    wp W (vopDecref ino) (fun _ t => t.refs = l) (onFail fun _ _ => False) s := by
  rw [vopDecref]
  refine wp_bind (wp_getVnode_any fun sv hv => wp_bind (wp_kassert_any fun _ => ?_))
  have hmem := mem_refs_of_vnode? hv
  rw [hs, withRef] at hmem
  by_cases hin : ino ∈ l.map Prod.fst
  · -- it was loaded before
    rw [if_pos hin] at hmem
    obtain ⟨⟨j, r⟩, hp, heq⟩ := List.mem_map.mp hmem
    dsimp only at heq
    have hj : j = ino := by
      split at heq <;> exact (Prod.mk.inj heq).1
    subst hj
    rw [if_pos rfl] at heq
    have hr := hpos _ hp
    have hcount : 1 < sv.vnRefcount := by
      rw [← (Prod.mk.inj heq).2]
      exact Nat.succ_lt_succ hr
    rw [if_pos hcount]
    refine wp_modify ?_
    change (s.setVnode j _).refs = l
    have hmap : (s.setVnode j fun sv => { sv with vnRefcount := sv.vnRefcount - 1 }).refs =
        s.refs.map fun p => if p.1 = j then (p.1, p.2 - 1) else p := by
      rw [Core.refs, Core.setVnode, Core.refs, List.map_map, List.map_map]
      refine List.map_congr_left fun sv _ => ?_
      simp only [Function.comp_apply]
      split <;> rfl
    rw [hmap, hs, withRef, if_pos hin, List.map_map]
    conv_rhs => rw [← List.map_id l]
    refine List.map_congr_left fun p _ => ?_
    simp only [Function.comp_apply, id_eq]
    split <;> rfl
  · -- it has been loaded for the call
    rw [if_neg hin] at hmem
    have hcount : sv.vnRefcount = 1 := by
      rcases List.mem_append.mp hmem with h | h
      · exact absurd (List.mem_map_of_mem h) hin
      · exact (Prod.mk.inj (List.mem_singleton.mp h)).2
    rw [if_neg (by omega)]
    refine wp_bind (wp_trying ?_)
    refine wp_mono (wp_reclaim hv hcount (hfree sv hv)) (fun _ t _ _ ht => wp_pure fun _ => ?_) ?_
    · rw [ht, hs, withRef, if_neg hin, List.eraseP_append_right]
      · simp
      · intro p hp
        rw [decide_eq_true_eq]
        rintro rfl
        exact hin (List.mem_map_of_mem hp)
    · rintro (e | p) t - - h
      · exact absurd h id
      · trivial

/-- A vnode that cannot be erased stays, with the last reference: `sfs_reclaim` fails, and
`vnode_decref` only warns about it. -/
theorem wp_vopDecref_stuck (hv : s.vnode? ino = some sv) (hcount : sv.vnRefcount = 1)
    (hstuck : s.Stuck sv) : wp W (vopDecref ino) (fun _ t => t.refs = s.refs)
      (onFail fun _ _ => False) s := by
  obtain ⟨hlink, hind, hread⟩ := hstuck
  have hscans : sv.svI.Scans (blocklen 0).toNat := ⟨by decide, hind⟩
  rw [vopDecref]
  refine wp_bind (wp_getVnode hv (wp_bind (wp_kassert_any fun _ => ?_)))
  rw [if_neg (by omega)]
  refine wp_bind (wp_trying ?_)
  rw [reclaim]
  refine wp_bind (wp_getVnode hv ?_)
  rw [if_neg (not_not_intro hcount)]
  refine wp_bind (wp_when (fun _ => ?_) fun h => absurd hlink h)
  refine ⟨fun _ => ?_⟩
  have hkeep := (keeps_itrunc (v := ino) 0).sat s
  have hend := itrunc_cases hv 0
  generalize (itrunc ino 0).run s = r at hkeep hend
  cases hend with
  | done k hscan hmap h => exact absurd hread (hscan hscans).2
  | failed hscan hd hread hmap h => exact wp_pure fun _ => refs_of_seenSame hkeep.1
  | past hscan hd => trivial
  | direct hmap => trivial
  | indirect hnot hmap => exact absurd hread hnot

/-- Letting go of a vnode never returns an error: what `sfs_reclaim` returns is not passed on. -/
theorem wp_vopDecref_any {R : Unit → State → Prop} (hR : ∀ t, R () t) :
    wp W (vopDecref ino) R (onFail P) s := by
  rw [vopDecref]
  refine wp_bind (wp_getVnode_any fun sv _ => wp_bind (wp_kassert_any fun _ => ?_))
  refine wp_ite (fun _ => wp_modify (hR _)) fun _ => wp_bind (wp_trying ?_)
  refine ⟨fun _ => ?_⟩
  cases (reclaim ino).run s with
  | done a t => exact wp_pure fun _ => hR t
  | halt e t =>
    cases e with
    | fail e => exact wp_pure fun _ => hR t
    | panic p => trivial

theorem wp_seen_fail {x : Sk α} {R : α → State → Prop} (hx : Keeps (seenSame v) anyStop x)
    (hR : ∀ a t, (seenSame v).le s t → R a t) :
    wp W x R (onFail fun _ t => t.refs = s.refs) s := by
  refine wp_of_keeps hx hR ?_
  rintro (e | p) t h -
  · exact refs_of_seenSame h
  · trivial

end Refs

end Sfs

end Os161
