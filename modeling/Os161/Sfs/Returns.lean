import Os161.Sfs.Refs

/-!
# References on failure

`sfs_getroot`, `sfs_lookup`, `sfs_lookparent`, `sfs_creat`, `sfs_link`, `sfs_remove` and
`sfs_rename` where they return an error: what becomes of the references they took on the way.
`sfs_lookparent` is here because nothing else needs it.

## Two ways to keep a reference

`sfs_getroot` does not give the root back when it finds that the root is no directory.

`sfs_creat` gives the new vnode back when the entry cannot be made, but `sfs_reclaim` fails if it
has to erase the object and cannot read its indirect block. A new object has an indirect block only
if the command that was to clear its block is lost, which `sfs_rwblock` reports as success, and the
block holds an old inode.

## What is deliberately absent

`Core.Held`, that somebody has each loaded vnode, is a hypothesis: it is what `vnode_decref`
asserts. Calls that panic are not judged in the direction from the references to the condition.

## Main definitions

* `State.Returns` — where the call fails, the references are what they were
* `State.RootSafe`, `State.Strands` — the two ways, before the call
* `Taking` — the calls

## Main results

* `returns_getroot_iff`, `returns_creat`, `strands_of_returns`
* `State.CreatesClean.not_strands` — what the disk has to hold, and to do, for the second
* `sfs_failure_returns`
-/

namespace Os161

namespace Sfs

open Prog

section Returns

variable {W : Watch fsGrowth} {α : Type} {s t : State} {ino v : UInt32} {sv : SfsVnode}
  {P : Errno → State → Prop} {forcetype : UInt16}

/-! ### The calls -/

/-- `sfs_lookonce`. -/
theorem wp_lookonce (dir : UInt32) (name : List UInt8) : wp W (lookonce dir name)
    (fun r t => t.refs = withRef s.refs r.1 ∧ ∃ links, links ≠ 0 ∧ t.Linked r.1 links)
    (onFail fun _ t => t.refs = s.refs) s := by
  rw [lookonce]
  refine wp_bind (wp_seen_fail (v := dir) (keeps_dirFindname name) fun r t ht => ?_)
  have hrefs := refs_of_seenSame ht
  split
  · exact wp_fail hrefs
  · rename_i ino slot _
    refine wp_bind (wp_mono wp_loadvnode ?_ ?_)
    · rintro r u - - ⟨rfl, hu⟩
      refine wp_bind (wp_getVnode_any fun sv hv => wp_ite (fun _ => wp_panic trivial) fun hl => ?_)
      refine wp_pure fun _ => ⟨hrefs ▸ hu, sv.svI.sfiLinkcount, hl, sv, hv, rfl⟩
    · rintro (e | p) u - - hu
      · exact Eq.trans hu hrefs
      · trivial

/-- Where a call returns an error, the references are what they were. -/
def State.Returns (s : State) (x : Sk α) : Prop :=
  ∀ e t, x.run s = .halt (.fail e) t → t.refs = s.refs

theorem returns_of_wp {x : Sk α} {R : α → State → Prop}
    (h : wp (Watch.any fsGrowth) x R (onFail fun _ t => t.refs = s.refs) s) : s.Returns x := by
  intro e t hrun
  have := sat_of_wp h
  rwa [hrun] at this

theorem returns_lookup (dir : UInt32) (path : List UInt8) : s.Returns (lookup dir path) := by
  refine returns_of_wp (R := fun _ _ => True) ?_
  rw [lookup]
  refine wp_bind (wp_getVnode_any fun sv _ => wp_ite (fun _ => wp_fail rfl) fun _ => wp_bind ?_)
  exact wp_post (wp_lookonce dir path) fun _ _ _ _ _ => wp_pure fun _ => trivial

theorem returns_link (dir : UInt32) (name : List UInt8) (file : UInt32) :
    s.Returns (link dir name file) := by
  refine returns_of_wp (R := fun _ _ => True) ?_
  rw [link]
  refine wp_bind (wp_getVnode_any fun sv _ => wp_ite (fun _ => wp_fail rfl) fun _ => wp_bind ?_)
  exact wp_seen_fail (v := dir) (keeps_dirLink name file) fun _ _ _ => wp_modify trivial

/-- The reference `sfs_lookonce` got is given back. -/
theorem wp_giveBack (hheld : s.Held) {u : State} (hu : u.refs = withRef s.refs ino)
    (hlinks : ∃ links, links ≠ 0 ∧ u.Linked ino links) (e : Errno) {R : α → State → Prop} :
    wp W (vopDecref ino >>= fun _ => (fail e : Sk α)) R (onFail fun _ t => t.refs = s.refs) u := by
  obtain ⟨links, h0, hl⟩ := hlinks
  refine wp_bind (wp_mono (wp_vopDecref hheld hu fun sv hv hstuck =>
    hl.quiet h0 hv hstuck.1) ?_ ?_)
  · exact fun _ t _ _ ht => wp_fail ht
  · rintro (e | p) t - - h
    · exact absurd h id
    · trivial

theorem returns_remove (hheld : s.Held) (dir : UInt32) (name : List UInt8) :
    s.Returns (remove dir name) := by
  refine returns_of_wp (R := fun _ _ => True) ?_
  rw [remove]
  refine wp_bind (wp_post (wp_lookonce dir name) ?_)
  rintro ⟨victim, slot⟩ t - - ⟨hrefs, links, h0, hl⟩
  refine wp_bind (wp_trying (wp_of_keeps (H := seenSame dir) (keeps_dirUnlink slot) ?_ ?_))
  · intro _ u hu
    refine wp_bind (wp_getVnode_any fun sv _ => wp_bind (wp_kassert_any fun _ => ?_))
    exact wp_bind (wp_modify (wp_vopDecref_any fun _ => trivial))
  · rintro (e | p) u hu -
    · exact wp_giveBack hheld ((refs_of_seenSame hu).trans hrefs)
        ⟨links, h0, linked_of_seenSame hu hl⟩ e
    · trivial

/-- The link count goes back without a mark on the inode. -/
def SfsVnode.unlinked (sv : SfsVnode) : SfsVnode :=
  { sv with svI := { sv.svI with sfiLinkcount := sv.svI.sfiLinkcount - 1 } }

theorem returns_rename (hheld : s.Held) (d1 : UInt32) (n1 : List UInt8) (d2 : UInt32)
    (n2 : List UInt8) : s.Returns (rename d1 n1 d2 n2) := by
  refine returns_of_wp (R := fun _ _ => True) ?_
  rw [rename]
  refine wp_bind (wp_kassert_any fun _ => wp_bind (wp_kassert_any fun _ => wp_bind ?_))
  refine wp_post (wp_lookonce d1 n1) ?_
  rintro ⟨g1, slot1⟩ t - - ⟨hrefs, links, h0, hl⟩
  refine wp_bind (wp_getVnode_any fun sv _ => wp_bind (wp_kassert_any fun _ => wp_bind ?_))
  refine wp_trying (wp_of_keeps (H := seenSame d1) (keeps_dirLink n2 g1) ?_ ?_)
  · intro slot2 u hu
    refine wp_bind (wp_modify ?_)
    have hlinked : (u.setVnode g1 (SfsVnode.dirtied fun d =>
        { d with sfiLinkcount := d.sfiLinkcount + 1 })).Linked g1 (links + 1) := by
      refine linked_setVnode (f := SfsVnode.dirtied _) (fun _ => rfl) (fun sv hsv => ?_)
        (linked_of_seenSame hu hl)
      exact congrArg (· + 1) hsv
    have hcount : (u.setVnode g1 (SfsVnode.dirtied fun d =>
        { d with sfiLinkcount := d.sfiLinkcount + 1 })).refs = withRef s.refs g1 :=
      (refs_setVnode (f := SfsVnode.dirtied _) fun _ => ⟨rfl, rfl⟩).trans
        ((refs_of_seenSame hu).trans hrefs)
    refine wp_bind (wp_trying (wp_of_keeps (H := seenSame d1) (keeps_dirUnlink slot1) ?_ ?_))
    · intro _ w hw
      refine wp_bind (wp_getVnode_any fun sv _ => wp_bind (wp_kassert_any fun _ => ?_))
      exact wp_bind (wp_modify (wp_vopDecref_any fun _ => trivial))
    · rintro (e | p) w hw -
      · refine wp_bind (wp_trying (wp_of_keeps (H := seenSame d1) (keeps_dirUnlink slot2) ?_ ?_))
        · -- the link goes, and the count is back where it was
          intro _ x hx
          refine wp_bind (wp_modify ?_)
          have hback : (x.setVnode g1 SfsVnode.unlinked).Linked g1 links := by
            refine linked_setVnode (f := SfsVnode.unlinked) (fun _ => rfl) (fun sv hsv => ?_)
              (linked_of_seenSame hx (linked_of_seenSame hw hlinked))
            exact (congrArg (· - 1) hsv).trans (by simp)
          refine wp_giveBack hheld ?_ ⟨links, h0, hback⟩ e
          refine (refs_setVnode (f := SfsVnode.unlinked) fun _ => ⟨rfl, rfl⟩).trans ?_
          exact (refs_of_seenSame hx).trans ((refs_of_seenSame hw).trans hcount)
        · rintro (e' | p) x hx -
          · exact wp_panic trivial
          · trivial
      · trivial
  · rintro (e | p) u hu -
    · exact wp_giveBack hheld ((refs_of_seenSame hu).trans hrefs)
        ⟨links, h0, linked_of_seenSame hu hl⟩ e
    · trivial

theorem withRef_ne (l : List (UInt32 × ℕ)) (ino : UInt32) : withRef l ino ≠ l := by
  intro h
  rw [withRef] at h
  split at h
  · rename_i hmem
    obtain ⟨p, hp, hpi⟩ := List.mem_map.mp hmem
    have hsame := List.map_inj_left.mp (h.trans (List.map_id l).symm) p hp
    rw [if_pos hpi] at hsame
    exact Nat.succ_ne_self p.2 (congrArg Prod.snd hsame)
  · simp at h

/-! ### A new object -/

/-- `sfs_loadvnode` for a new object. -/
theorem wp_loadNew (hforce : forcetype ≠ sfsTypeInval) : wp W (loadvnode ino forcetype)
    (fun r t => r = ino ∧ ino ∉ s.refs.map Prod.fst ∧ t.refs = withRef s.refs ino ∧
      ∀ sv, t.vnode? ino = some sv →
        sv.svI.sfiLinkcount = (dinodeAt s.disk ino).sfiLinkcount ∧
        sv.svI.sfiIndirect = (dinodeAt s.disk ino).sfiIndirect)
    (onFail fun _ t => t.refs = s.refs) s := by
  rw [loadvnode]
  refine wp_bind (wp_get fun _ => wp_bind ?_)
  refine wp_mono (wp_findVnode (P := fun _ _ => False) s.sfsVnodes) ?_ ?_
  · rintro found s - - ⟨rfl, hfound⟩
    refine wp_ite (fun _ => wp_bind (wp_kassert_any fun h => absurd h hforce)) fun hnot => ?_
    have hnew : ino ∉ s.refs.map Prod.fst := by
      rw [Core.refs, List.map_map]
      exact fun hmem => hnot (hfound.mpr hmem)
    refine wp_mono (wp_readVnode forcetype) ?_ ?_
    · rintro r t - - ⟨rfl, svI, dirty, hvnodes, hlink, hind, -⟩
      refine ⟨rfl, hnew, ?_, fun sv hv => ?_⟩
      · rw [withRef, if_neg hnew, Core.refs, hvnodes, List.map_append]
        rfl
      · have hmem : sv ∈ s.sfsVnodes ++ [⟨r, svI, dirty, 1⟩] :=
          hvnodes ▸ List.mem_of_find?_eq_some hv
        rcases List.mem_append.mp hmem with h | h
        · refine absurd ?_ hnew
          rw [Core.refs, List.map_map]
          exact svIno_of_vnode? hv ▸ List.mem_map_of_mem h
        · obtain rfl := List.mem_singleton.mp h
          exact ⟨hlink, hind⟩
    · rintro (e | p) t - - ht
      · change t.refs = s.refs
        rw [Core.refs, Core.refs, show t.sfsVnodes = s.sfsVnodes from ht]
      · trivial
  · rintro (e | p) t - - h
    · exact absurd h id
    · trivial

/-- `sfs_makeobj`: the new vnode is not one that was loaded before. -/
theorem wp_makeobj : wp W (makeobj sfsTypeFile)
    (fun ino t => t.refs = withRef s.refs ino ∧ ino ∉ s.refs.map Prod.fst ∧
      ∃ map, s.sfsFreemap.alloc = .ok (ino, map) ∧ ∀ sv, t.vnode? ino = some sv →
        sv.svI.sfiLinkcount = (dinodeAt (s.written ino Bytes.zero) ino).sfiLinkcount ∧
        sv.svI.sfiIndirect = (dinodeAt (s.written ino Bytes.zero) ino).sfiIndirect)
    (onFail fun _ t => t.refs = s.refs) s := by
  rw [makeobj]
  refine wp_bind (wp_balloc_alloc (fun _ _ => trivial) (fun _ => rfl) fun ino halloc _ => ?_)
  refine wp_bind (wp_trying (wp_mono (wp_loadNew (s := s.allocated ino) (by decide)) ?_ ?_))
  · rintro r t - - ⟨rfl, hnew, hrefs, hdisk⟩
    exact wp_pure fun _ => ⟨hrefs, hnew, _, halloc, hdisk⟩
  · rintro (e | p) t - - ht
    · refine wp_bind (wp_mono (wp_seen_fail (v := ino) (keeps_bfree ino) fun _ u hu => hu) ?_ ?_)
      · exact fun _ u _ _ hu => wp_fail ((refs_of_seenSame hu).trans ht)
      · rintro (e' | p) u - - hu
        · exact Eq.trans hu ht
        · trivial
    · trivial

theorem refs_of_lookSame (h : lookSame.le s t) : t.refs = s.refs := by
  have hvnodes : s.sfsVnodes = t.sfsVnodes := congrArg (fun p => p.2.1) h
  rw [Core.refs, Core.refs, hvnodes]

/-- **The way that goes wrong.** The name is new and an object is made for it, but `sfs_dir_link`
fails; and then the object, whose block has kept an old inode with no links, cannot be erased. -/
def State.Strands (s : State) (dir : UInt32) (name : List UInt8) : Prop :=
  ∃ r a ino m e u sv, (dirFindname dir name).run s = .done r a ∧ r.entry = none ∧
    (makeobj sfsTypeFile).run a = .done ino m ∧
    (dirLink dir name ino).run m = .halt (.fail e) u ∧ u.vnode? ino = some sv ∧ u.Stuck sv

theorem dir_loaded {dir : UInt32} {name : List UInt8} {r : Found} {a : State}
    (h : (dirFindname dir name).run s = .done r a) : dir ∈ s.refs.map Prod.fst := by
  by_contra hdir
  have hnone : s.vnode? dir = none := by
    rw [← exists_vnode?_iff] at hdir
    exact Option.eq_none_iff_forall_ne_some.mpr fun sv hsv => hdir ⟨sv, hsv⟩
  have hget : (getVnode dir).run s = .halt (.panic (.stale dir)) s := by
    rw [getVnode, run_bind_of_done (run_get s), hnone]
    rfl
  rw [dirFindname, dirNentries, run_bind_of_halt (run_bind_of_halt hget)] at h
  cases h

/-- `sfs_creat`, unless it goes that way. -/
theorem returns_creat (hheld : s.Held) {dir : UInt32} {name : List UInt8}
    (hsafe : ¬s.Strands dir name) (excl : Bool) : s.Returns (creat dir name excl) := by
  refine returns_of_wp (R := fun _ _ => True) ?_
  rw [creat]
  have hlook : wp (Watch.any fsGrowth) (dirFindname dir name)
      (fun r a => lookSame.le s a ∧ (dirFindname dir name).run s = .done r a)
      (onFail fun _ t => t.refs = s.refs) s := by
    refine wp_mono (wp_and (wp_of_keeps (looks_dirFindname dir name) (fun _ _ h => h)
      fun _ _ h _ => h) (wp_ran _ _ s)) (fun _ _ _ _ h => h) ?_
    rintro (e | p) t - - h
    · exact refs_of_lookSame h.1
    · trivial
  refine wp_seq hlook fun r a _ _ ⟨ha, hfind⟩ => ?_
  have hrefs := refs_of_lookSame ha
  have hdir := dir_loaded hfind
  split
  · -- the name exists
    refine wp_ite (fun _ => wp_fail hrefs) fun _ => ?_
    refine wp_mono wp_loadvnode (fun _ _ _ _ _ => trivial) ?_
    rintro (e | p) u - - hu
    · exact Eq.trans hu hrefs
    · trivial
  · rename_i hnone
    refine wp_bind (wp_mono (wp_and wp_makeobj (wp_ran _ _ a)) ?_ ?_)
    · rintro newguy m - - ⟨⟨hm, hnew, -⟩, hmake⟩
      rw [hrefs] at hm hnew
      refine wp_bind (wp_trying (wp_mono (wp_and (wp_of_keeps (H := seenSame dir)
        (keeps_dirLink name newguy) (fun _ _ h => h) fun _ _ h _ => h) (wp_ran _ _ m)) ?_ ?_))
      · exact fun _ u _ _ _ => wp_bind (wp_modify (wp_pure fun _ => trivial))
      · rintro (e | p) u - - ⟨hu, hlink⟩
        · have hfree : ∀ sv, u.vnode? newguy = some sv → ¬u.Stuck sv := fun sv hv hstuck =>
            hsafe ⟨r, a, newguy, m, e, u, sv, hfind, hnone, hmake, hlink, hv, hstuck⟩
          refine wp_bind (wp_mono (wp_vopDecref hheld ((refs_of_seenSame hu).trans hm) hfree) ?_ ?_)
          · exact fun _ x _ _ hx => wp_fail hx
          · rintro (e' | p) x - - hx
            · exact absurd hx id
            · trivial
        · trivial
    · rintro (e | p) u - - ⟨hu, -⟩
      · exact Eq.trans hu hrefs
      · trivial

/-- The other direction: a call that goes that way fails, and the new vnode stays. -/
theorem strands_of_returns {dir : UInt32} {name : List UInt8} {excl : Bool}
    (hcalm : ∀ p t, (creat dir name excl).run s ≠ .halt (.panic p) t)
    (hreturns : s.Returns (creat dir name excl)) : ¬s.Strands dir name := by
  rintro ⟨r, a, ino, m, e, u, sv, hfind, hnone, hmake, hlink, hv, hstuck⟩
  have ha : a.refs = s.refs := by
    have h := (looks_dirFindname dir name).sat s
    rw [hfind] at h
    exact refs_of_lookSame h
  have hm := sat_of_wp (wp_makeobj (W := Watch.any fsGrowth) (s := a))
  rw [hmake] at hm
  obtain ⟨hm, hnew, -⟩ := hm
  have hu : u.refs = withRef a.refs ino := by
    have h := (keeps_dirLink (v := dir) name ino).sat m
    rw [hlink] at h
    exact (refs_of_seenSame h.1).trans hm
  have hcount : sv.vnRefcount = 1 := by
    have hmem := mem_refs_of_vnode? hv
    rw [hu, withRef, if_neg hnew] at hmem
    rcases List.mem_append.mp hmem with h | h
    · exact absurd (List.mem_map_of_mem h) hnew
    · exact (Prod.mk.inj (List.mem_singleton.mp h)).2
  -- the call runs as far as `VOP_DECREF`
  have htry : (trying (dirLink dir name ino)).run m = .done (.error e) u := by
    rw [run_trying, hlink]
  have hcreat : (creat dir name excl).run s =
      (vopDecref ino >>= fun _ => (fail e : Sk UInt32)).run u := by
    rw [creat, run_bind_of_done hfind, hnone]
    dsimp only
    rw [run_bind_of_done hmake, run_bind_of_done htry]
  have hdecref := sat_of_wp (wp_vopDecref_stuck (W := Watch.any fsGrowth) hv hcount hstuck)
  cases hrun : (vopDecref ino).run u with
  | done _ x =>
    rw [hrun] at hdecref
    have hfail : (creat dir name excl).run s = .halt (.fail e) x := by
      rw [hcreat, run_bind_of_done hrun, run_fail]
    have hkept : x.refs = withRef s.refs ino := by rw [← ha, ← hu, ← hdecref]
    exact withRef_ne s.refs ino (hkept.symm.trans (hreturns e x hfail))
  | halt stop x =>
    rw [hrun] at hdecref
    cases stop with
    | fail e' => exact hdecref
    | panic p => exact hcalm p x (by rw [hcreat, run_bind_of_halt hrun])

/-- The inode `sfs_makeobj` is going to find in the block it gets is one that `sfs_reclaim` can
discard: the first command to write, which clears the block, is carried out, or what the block holds
from before has links or no indirect block. -/
def State.CreatesClean (s : State) : Prop :=
  ∀ block map, s.sfsFreemap.alloc = .ok (block, map) →
    s.mount.world.media .write s.writes = true ∨
      ((dinodeAt s.disk block).sfiLinkcount = 0 → (dinodeAt s.disk block).sfiIndirect = 0)

theorem sfiIndirect_zero : (Dinode.ofBlock Bytes.zero).sfiIndirect = 0 := by decide

/-- What the block holds once `sfs_balloc` has tried to clear it. -/
theorem State.CreatesClean.written (hclean : s.CreatesClean) {block : UInt32} {map : Bitmap}
    (halloc : s.sfsFreemap.alloc = .ok (block, map))
    (h0 : (dinodeAt (s.written block Bytes.zero) block).sfiLinkcount = 0) :
    (dinodeAt (s.written block Bytes.zero) block).sfiIndirect = 0 := by
  have hzero : dinodeAt (Function.update s.disk block Bytes.zero) block =
      Dinode.ofBlock Bytes.zero := congrArg Dinode.ofBlock (Function.update_self ..)
  rw [State.written] at h0 ⊢
  by_cases hm : s.mount.world.media .write s.writes = true
  · rw [if_pos hm, hzero]
    exact sfiIndirect_zero
  · rw [if_neg hm] at h0 ⊢
    exact (hclean block _ halloc).resolve_left hm h0

theorem State.CreatesClean.of_look (hclean : s.CreatesClean) (h : lookSame.le s t)
    (hmount : fsGrowth.le s t) : t.CreatesClean := by
  have hdisk : s.disk = t.disk := congrArg Prod.fst h
  have hmap : s.sfsFreemap = t.sfsFreemap := congrArg (fun p => p.2.2.1) h
  have hwrites : s.writes = t.writes := congrArg (fun p => p.2.2.2) h
  rwa [State.CreatesClean, hdisk, hmap, hwrites, hmount.1] at hclean

/-- **What it takes to go that way**: the first command to write is lost, and the first free block
holds an inode without links that has an indirect block. -/
theorem State.CreatesClean.not_strands (hclean : s.CreatesClean) (dir : UInt32)
    (name : List UInt8) : ¬s.Strands dir name := by
  rintro ⟨r, a, ino, m, e, u, sv, hfind, -, hmake, hlink, hv, hlinks, hind, -⟩
  have hgrow : fsGrowth.le s a := by
    have h := (dirFindname dir name).grows s
    rwa [hfind] at h
  have hlook : lookSame.le s a := by
    have h := (looks_dirFindname dir name).sat s
    rwa [hfind] at h
  have hm := sat_of_wp (wp_makeobj (W := Watch.any fsGrowth) (s := a))
  rw [hmake] at hm
  obtain ⟨-, hnew, map, halloc, hdisk⟩ := hm
  have hseen : (seenSame dir).le m u := by
    have h := (keeps_dirLink (v := dir) name ino).sat m
    rw [hlink] at h
    exact h.1
  have hne : ino ≠ dir := by
    rintro rfl
    exact hnew (refs_of_lookSame hlook ▸ dir_loaded hfind)
  rw [vnode?_of_seenSame hseen hne] at hv
  obtain ⟨h1, h2⟩ := hdisk sv hv
  exact hind (h2.trans ((hclean.of_look hlook hgrow).written halloc (h1.symm.trans hlinks)))

/-! ### The root -/

/-- The inode `sfs_loadvnode` finds: in memory if it is loaded, and else on the disk. -/
def State.inodeOf (s : State) (ino : UInt32) : Dinode :=
  match s.vnode? ino with
  | some sv => sv.svI
  | none => dinodeAt s.disk ino

/-- There is memory for a vnode, and the disk delivers the inode, unless it is loaded. -/
def State.Loads (s : State) (ino : UInt32) : Prop :=
  (∃ sv, s.vnode? ino = some sv) ∨
    s.mount.world.memory s.tick = true ∧ ¬State.ReadFails { s with tick := s.tick + 1 } ∧
      s.mount.world.memory (readEnd (s.mount.world.media .read) 10 (s.tick + 1)) = true

/-- Which inode is loaded, and when that fails. -/
theorem wp_loadvnode_inode : wp W (loadvnode ino sfsTypeInval)
    (fun r t => r = ino ∧ s.Loads ino ∧ ∃ sv, t.vnode? ino = some sv ∧ sv.svI = s.inodeOf ino)
    (onFail fun _ _ => ¬s.Loads ino) s := by
  rw [loadvnode]
  refine wp_bind (wp_get fun _ => wp_bind ?_)
  refine wp_mono (wp_findVnode (P := fun _ _ => False) s.sfsVnodes) ?_ ?_
  · rintro found s - - ⟨rfl, hfound⟩
    have hloaded : found = true ↔ ∃ sv, s.vnode? ino = some sv := by
      rw [hfound, exists_vnode?_iff, Core.refs, List.map_map]
      rfl
    refine wp_ite (fun h => ?_) fun h => ?_
    · obtain ⟨sv, hv⟩ := hloaded.mp h
      refine wp_bind (wp_kassert_any fun _ => wp_bind (wp_bind (wp_getVnode hv (wp_modify ?_))))
      refine wp_pure fun _ =>
        ⟨rfl, Or.inl ⟨sv, hv⟩, { sv with vnRefcount := sv.vnRefcount + 1 }, ?_, ?_⟩
      · exact vnode?_setVnode (fun _ => rfl) hv
      · rw [State.inodeOf, hv]
    · have hnone : s.vnode? ino = none :=
        Option.eq_none_iff_forall_ne_some.mpr fun sv hv => h (hloaded.mpr ⟨sv, hv⟩)
      have hinode : s.inodeOf ino = dinodeAt s.disk ino := by rw [State.inodeOf, hnone]
      have hloads : s.Loads ino → s.mount.world.memory s.tick = true ∧
          ¬State.ReadFails { s with tick := s.tick + 1 } ∧
          s.mount.world.memory (readEnd (s.mount.world.media .read) 10 (s.tick + 1)) = true := by
        intro hl
        refine hl.resolve_left ?_
        rintro ⟨sv, hv⟩
        cases hnone.symm.trans hv
      rw [readVnode]
      refine wp_bind (wp_ask (wp_ite (fun hmem => wp_bind ?_) fun hm => wp_fail fun hl =>
        hm (hloads hl).1))
      rw [bused]
      refine wp_bind (wp_get fun _ => wp_ite (fun _ => wp_panic trivial) fun _ => ?_)
      refine wp_pure fun _ => wp_ite (fun _ => wp_bind ?_) fun _ => wp_panic trivial
      by_cases hd : s.mount.dBlocks < ino + 1
      · exact wp_of_run_halt (run_readblock_past (s := { s with tick := s.tick + 1 }) hd) trivial
      rcases run_readblock_end (s := { s with tick := s.tick + 1 }) hd with
        ⟨hrun, hread⟩ | ⟨hrun, hfail⟩
      · refine wp_of_run_done hrun ?_
        rw [if_neg (not_not_intro rfl)]
        refine wp_bind (wp_pure fun _ => wp_ite (fun _ => wp_bind (wp_ask ?_)) fun _ =>
          wp_panic trivial)
        refine wp_ite (fun hmem' => wp_bind (wp_modify (wp_pure fun _ => ⟨rfl, ?_⟩))) fun hm =>
          wp_fail fun hl => hm (hloads hl).2.2
        refine ⟨Or.inr ⟨hmem, hread, hmem'⟩,
          ⟨ino, dinodeAt s.disk ino, decide (sfsTypeInval ≠ sfsTypeInval), 1⟩, ?_, hinode.symm⟩
        have hfind : s.sfsVnodes.find? (fun sv => decide (sv.svIno = ino)) = none := hnone
        change (s.sfsVnodes ++ [_]).find? (fun sv : SfsVnode => decide (sv.svIno = ino)) = some _
        rw [List.find?_append, hfind]
        simp [dinodeAt]
      · exact wp_of_run_halt hrun fun hl => (hloads hl).2.1 hfail
  · rintro (e | p) t - - h
    · exact absurd h id
    · trivial

/-- The root inode is a directory, or it cannot be loaded. -/
def State.RootSafe (s : State) : Prop :=
  s.Loads sfsRootdirIno → (s.inodeOf sfsRootdirIno).sfiType = sfsTypeDir

theorem wp_getroot : wp W getroot (fun _ _ => (s.inodeOf sfsRootdirIno).sfiType = sfsTypeDir)
    (onFail fun _ t => ¬s.Loads sfsRootdirIno ∧ t.refs = s.refs ∨
      s.Loads sfsRootdirIno ∧ (s.inodeOf sfsRootdirIno).sfiType ≠ sfsTypeDir ∧
        t.refs = withRef s.refs sfsRootdirIno) s := by
  rw [getroot]
  refine wp_bind (wp_mono (wp_and wp_loadvnode wp_loadvnode_inode) ?_ ?_)
  · rintro r t - - ⟨⟨rfl, hrefs⟩, -, hloads, sv, hv, hinode⟩
    rw [← hinode]
    refine wp_bind (wp_getVnode hv (wp_ite (fun htype => wp_fail ?_) fun htype => ?_))
    · exact Or.inr ⟨hloads, htype, hrefs⟩
    · exact wp_pure fun _ => not_not.mp htype
  · rintro (e | p) t - - ⟨hrefs, hloads⟩
    · exact Or.inl ⟨hloads, hrefs⟩
    · trivial

/-- **`sfs_getroot`** keeps a reference exactly where it finds a root that is no directory. -/
theorem returns_getroot_iff (hcalm : ∀ p t, getroot.run s ≠ .halt (.panic p) t) :
    s.Returns getroot ↔ s.RootSafe := by
  have hsat := sat_of_wp (wp_getroot (W := Watch.any fsGrowth) (s := s))
  constructor
  · intro hreturns hloads
    by_contra htype
    cases hrun : getroot.run s with
    | done a t =>
      rw [hrun] at hsat
      exact htype hsat
    | halt e t =>
      cases e with
      | fail e =>
        rw [hrun] at hsat
        rcases hsat with ⟨hnot, -⟩ | ⟨-, -, hrefs⟩
        · exact hnot hloads
        · exact withRef_ne s.refs sfsRootdirIno (hrefs.symm.trans (hreturns e t hrun))
      | panic p => exact hcalm p t hrun
  · intro hsafe e t hrun
    rw [hrun] at hsat
    rcases hsat with ⟨-, hrefs⟩ | ⟨hloads, htype, -⟩
    · exact hrefs
    · exact absurd (hsafe hloads) htype

/-! ### All of them -/

/-- `sfs_lookparent`, with what it copies to `buf`. -/
def lookparent (v : UInt32) (path : List UInt8) (buflen : ℕ) : Sk (UInt32 × List UInt8) := do
  let sv ← getVnode v
  if sv.svI.sfiType ≠ sfsTypeDir then fail .enotdir
  else if buflen < path.length + 1 then fail .enametoolong
  else do
    vopIncref v
    pure (v, path)

theorem returns_lookparent (v : UInt32) (path : List UInt8) (buflen : ℕ) :
    s.Returns (lookparent v path buflen) := by
  refine returns_of_wp (R := fun _ _ => True) ?_
  rw [lookparent]
  refine wp_bind (wp_getVnode_any fun sv hv => wp_ite (fun _ => wp_fail rfl) fun _ => ?_)
  refine wp_ite (fun _ => wp_fail rfl) fun _ => wp_bind (wp_bind ?_)
  exact wp_getVnode hv (wp_modify (wp_pure fun _ => trivial))

/-- The calls that take references. -/
inductive Taking where
  | getroot
  | lookup (dir : UInt32) (path : List UInt8)
  | lookparent (dir : UInt32) (path : List UInt8) (buflen : ℕ)
  | creat (dir : UInt32) (name : List UInt8) (excl : Bool)
  | link (dir : UInt32) (name : List UInt8) (file : UInt32)
  | remove (dir : UInt32) (name : List UInt8)
  | rename (d1 : UInt32) (n1 : List UInt8) (d2 : UInt32) (n2 : List UInt8)

/-- The call, whatever it hands back. -/
def Taking.run : Taking → Sk Unit
  | getroot => Sfs.getroot >>= fun _ => pure ()
  | lookup dir path => Sfs.lookup dir path >>= fun _ => pure ()
  | lookparent dir path buflen => Sfs.lookparent dir path buflen >>= fun _ => pure ()
  | creat dir name excl => Sfs.creat dir name excl >>= fun _ => pure ()
  | link dir name file => Sfs.link dir name file
  | remove dir name => Sfs.remove dir name
  | rename d1 n1 d2 n2 => Sfs.rename d1 n1 d2 n2

/-- Where nothing goes wrong with the references. -/
def Taking.Safe (s : State) : Taking → Prop
  | getroot => s.RootSafe
  | creat dir name _ => ¬s.Strands dir name
  | _ => True

/-- Throwing a value away changes nothing about failure. -/
theorem returns_discard_iff {x : Sk α} :
    s.Returns (x >>= fun _ => (pure () : Sk Unit)) ↔ s.Returns x := by
  have hiff : ∀ e t, (x >>= fun _ => (pure () : Sk Unit)).run s = .halt (.fail e) t ↔
      x.run s = .halt (.fail e) t := by
    intro e t
    rw [run_bind]
    cases x.run s with
    | done a u => simp
    | halt e' u => simp
  simp only [State.Returns, hiff]

/-- **References on failure**, in every state in which somebody has each vnode, whatever the disk
holds and whatever the device and `kmalloc` do: they are given back where the call is safe, and, of
the calls that do not panic, only there. -/
theorem sfs_failure_returns (hheld : s.Held) (c : Taking) :
    (c.Safe s → s.Returns c.run) ∧
      ((∀ p t, c.run.run s ≠ .halt (.panic p) t) → s.Returns c.run → c.Safe s) := by
  constructor
  · intro hsafe
    cases c with
    | getroot =>
      refine returns_discard_iff.mpr fun e t hrun => ?_
      have hsat := sat_of_wp (wp_getroot (W := Watch.any fsGrowth) (s := s))
      rw [hrun] at hsat
      rcases hsat with ⟨-, hrefs⟩ | ⟨hloads, htype, -⟩
      · exact hrefs
      · exact absurd (hsafe hloads) htype
    | lookup dir path => exact returns_discard_iff.mpr (returns_lookup dir path)
    | lookparent dir path buflen =>
      exact returns_discard_iff.mpr (returns_lookparent dir path buflen)
    | creat dir name excl => exact returns_discard_iff.mpr (returns_creat hheld hsafe excl)
    | link dir name file => exact returns_link dir name file
    | remove dir name => exact returns_remove hheld dir name
    | rename d1 n1 d2 n2 => exact returns_rename hheld d1 n1 d2 n2
  · intro hcalm hreturns
    cases c with
    | getroot =>
      refine (returns_getroot_iff fun p t hrun => hcalm p t ?_).mp (returns_discard_iff.mp hreturns)
      exact run_bind_of_halt hrun
    | creat dir name excl =>
      have hcreat : ∀ p t, (creat dir name excl).run s ≠ .halt (.panic p) t := fun p t hrun =>
        hcalm p t (run_bind_of_halt hrun)
      exact strands_of_returns hcreat (returns_discard_iff.mp hreturns)
    | _ => trivial

/-- A volume of eight blocks with an empty root directory, which is loaded. -/
def emptyRoot : State :=
  { sampleVolume true (fun _ => Bytes.zero) (sampleFile 0 (fun _ => 0) 0) 0x0b with
    sfsVnodes := [⟨1, ⟨0, sfsTypeDir, 1, fun _ => 0, 0, fun _ => 0⟩, false, 1⟩] }

/-- The object is made and has to be given back, for the name is too long. -/
theorem sfs_failure_returns_longName : ∃ t,
    (Taking.creat 1 (List.replicate 60 97) true).run.run emptyRoot =
      .halt (.fail .enametoolong) t ∧ t.refs = emptyRoot.refs := by
  have hheld : emptyRoot.Held := List.forall_mem_singleton.mpr Nat.one_pos
  have hsafe : (Taking.creat 1 (List.replicate 60 97) true).Safe emptyRoot :=
    State.CreatesClean.not_strands (fun _ _ _ => Or.inl rfl) 1 _
  have htest : ((Taking.creat 1 (List.replicate 60 97) true).run.run emptyRoot).stopped =
      some (.fail .enametoolong) := by decide +kernel
  obtain ⟨t, hrun⟩ := Outcome.exists_of_stopped htest
  exact ⟨t, hrun, (sfs_failure_returns hheld _).1 hsafe _ t hrun⟩

/-- A volume of eight blocks with nothing loaded, whose root inode is a file. -/
def misrooted : State :=
  { sampleVolume true (fun _ => (sampleFile 0 (fun _ => 0) 0).toBlock) (sampleFile 0 (fun _ => 0) 0)
      0xff with sfsVnodes := [] }

/-- Where there is nothing loaded, and all goes well. -/
theorem wp_loadvnode_fresh (hempty : s.sfsVnodes = []) (hmem : ∀ k, s.mount.world.memory k = true)
    (hread : ∀ k, s.mount.world.media .read k = true) (hused : s.InUse ino)
    (hd : ino < s.mount.dBlocks) (htype : (dinodeAt s.disk ino).sfiType = sfsTypeFile ∨
      (dinodeAt s.disk ino).sfiType = sfsTypeDir) :
    wp W (loadvnode ino sfsTypeInval)
      (fun r t => r = ino ∧ t.sfsVnodes = [⟨ino, dinodeAt s.disk ino, false, 1⟩])
      (fun _ _ => False) s := by
  rw [loadvnode]
  refine wp_bind (wp_get fun _ => ?_)
  rw [hempty, findVnode, pure_bind, if_neg Bool.false_ne_true, readVnode]
  refine wp_bind (wp_ask (wp_ite (fun _ => wp_bind ?_) fun h => absurd (hmem _) h))
  refine wp_of_run_done (run_bused (s := { s with tick := s.tick + 1 }) hused.1) ?_
  refine wp_ite (fun _ => wp_bind ?_) fun h => absurd hused.2 h
  refine wp_readblock hd (fun k => ?_) fun h => by cases (hread _).symm.trans h
  rw [if_neg (not_not_intro rfl)]
  refine wp_bind (wp_pure fun _ => wp_ite (fun _ => ?_) fun h => absurd htype h)
  refine wp_bind (wp_ask (wp_ite (fun _ => ?_) fun h => absurd (hmem _) h))
  refine wp_bind (wp_modify (wp_pure fun _ => ⟨rfl, ?_⟩))
  change s.sfsVnodes ++ _ = _
  rw [hempty]
  rfl

/-- The call fails, and the root stays loaded. -/
theorem not_returns_misrooted : misrooted.Held ∧
    (∃ t, Taking.getroot.run.run misrooted = .halt (.fail .einval) t ∧
      t.refs = [(sfsRootdirIno, 1)]) ∧ ¬misrooted.Returns Taking.getroot.run := by
  have hinode : dinodeAt misrooted.disk sfsRootdirIno = sampleFile 0 (fun _ => 0) 0 :=
    Dinode.ofBlock_toBlock _
  obtain ⟨_, t, hload, ⟨rfl, hvnodes⟩, -⟩ := done_of_wp (wp_loadvnode_fresh (s := misrooted) rfl
    (fun _ => rfl) (fun _ => rfl) (show misrooted.InUse sfsRootdirIno by decide) (by decide)
    (Or.inl (by rw [hinode]; rfl)))
  have hv : t.vnode? sfsRootdirIno =
      some ⟨sfsRootdirIno, sampleFile 0 (fun _ => 0) 0, false, 1⟩ := by
    rw [Core.vnode?, hvnodes, hinode]
    rfl
  have hget : getroot.run misrooted = .halt (.fail .einval) t := by
    rw [getroot, run_bind_of_done hload, run_bind_of_done (run_getVnode hv), if_pos (by decide),
      run_fail]
  have hrun : Taking.getroot.run.run misrooted = .halt (.fail .einval) t := by
    rw [Taking.run, run_bind_of_halt hget]
  have hrefs : t.refs = [(sfsRootdirIno, 1)] := by
    rw [Core.refs, hvnodes]
    rfl
  refine ⟨fun _ hp => (by cases hp), ⟨_, hrun, hrefs⟩, fun hreturns => ?_⟩
  cases hrefs.symm.trans (hreturns _ _ hrun)

end Returns

end Sfs

end Os161
