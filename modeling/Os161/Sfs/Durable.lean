import Os161.Sfs.Flags
import Os161.Sfs.Freemap

/-!
# What a sync puts on the disk

Blocks of files and indirect blocks are written through. Inodes and the freemap stay in memory until
`sfs_sync`, and the flags of `Sfs.Flags` say which of them are newer than their copies. So after
`sfs_sync` the disk has everything.

## Blocks of the volume itself

The superblock, the freemap and the inodes that are loaded are blocks nobody's file may have
(`State.Own`, and `apart` in `Durable`). Without that a write to a file could overwrite an inode,
and a sync could overwrite a file. `Durable` asks for it of the files in `inos`; a request for one
of them gives it only blocks that were free, so it stays true.

## What is deliberately absent

The device works: all that is written arrives. A volume on which a write is lost is no subject here,
nor is one that goes down between two writes of a sync, as nothing orders these. What is said of
failing calls is in `Sfs.Contract` and `Sfs.Returns`.

## How it composes

`durable_serve` carries `Durable` over a request, by `Changes` of `Sfs.Files` and `cleanSame` of
`Sfs.Flags`. `wp_sync` runs `sfs_sync`: first the inodes (`Flushed`), then the freemap, last the
superblock. `Synced.holds` says that the files are the same after it. `Sfs.Reboot` goes on from
there.

## Main definitions

* `State.Own`, `State.MapSaved`
* `Durable` — what is clean in memory is on the disk
* `Flushed`, `Synced` — what a sync has done so far, and in the end

## Main results

* `durable_serve` — a request keeps it
* `wp_sync`, `Synced.holds`
-/

namespace Os161

namespace Sfs

open Prog Freemap

/-! ### What is on the disk -/

/-- The blocks of the volume itself: the superblock, the freemap, and the inodes that are loaded. -/
def State.Own (s : State) (b : UInt32) : Prop :=
  b = sfsSuperBlock ∨ (2 ≤ b.toNat ∧ b.toNat < 2 + mapBlocks s.mount.sfsSb.sbNblocks) ∨
    ∃ sv, s.vnode? b = some sv

/-- No inode is in the superblock or in the freemap. -/
def State.InodeBlock (s : State) (b : UInt32) : Prop :=
  b ≠ sfsSuperBlock ∧ ¬(2 ≤ b.toNat ∧ b.toNat < 2 + mapBlocks s.mount.sfsSb.sbNblocks)

/-- Block by block the freemap is on the disk. -/
def State.MapSaved (s : State) : Prop :=
  ∀ ix < 512 * mapBlocks s.mount.sfsSb.sbNblocks,
    s.sfsFreemap.v ix = (s.disk (homeOf ix)).get (ix % 512)

/-- What is clean in memory is on the disk, and no file has a block of the volume itself. -/
structure Durable (inos : Set UInt32) (s : State) : Prop where
  /-- The freemap has whole blocks, and the volume has room for them. -/
  nbits : s.sfsFreemap.nbits = sfsFreemapbits s.mount.sfsSb.sbNblocks
  room : 2 + mapBlocks s.mount.sfsSb.sbNblocks ≤ s.mount.dBlocks.toNat
  /-- The superblock is never changed after the mount. -/
  magic : s.mount.sfsSb.sbMagic = sfsMagic
  super : (Superblock.ofBlock (s.disk sfsSuperBlock)).terminated = s.mount.sfsSb
  /-- What the volume has for itself is in use, and no file has a block of it. -/
  inode : ∀ j sv, s.vnode? j = some sv → s.InodeBlock j
  own : ∀ b, s.Own b → s.InUse b
  apart : ∀ b, s.Own b → ∀ ino ∈ inos, ∀ sv, s.vnode? ino = some sv → ¬sv.svI.Has s.disk b
  /-- `sfs_loadvnode` loads files and directories only. -/
  type : ∀ ino ∈ inos, ∀ sv, s.vnode? ino = some sv →
    sv.svI.sfiType = sfsTypeFile ∨ sv.svI.sfiType = sfsTypeDir
  /-- What the flags call clean is on the disk. -/
  clean : ∀ j sv, s.vnode? j = some sv → sv.svDirty = false → dinodeAt s.disk j = sv.svI
  cleanMap : s.sfsFreemapdirty = false → s.MapSaved

section Durable

variable {inos : Set UInt32} {s t : State} {fs : Files} {ino : UInt32} {sv sv' : SfsVnode}

/-- Which blocks the volume has for itself depends on what is loaded, not on the contents. -/
theorem own_iff (hmount : t.mount = s.mount)
    (hv : ∀ j, (t.vnode? j).isSome = (s.vnode? j).isSome) (b : UInt32) : t.Own b ↔ s.Own b := by
  rw [State.Own, State.Own, hmount]
  simp only [← Option.isSome_iff_exists, hv]

/-- No inode is loaded or given up. -/
theorem isSome_of_cleanSame (h : cleanSame.le s t) (j : UInt32) :
    (t.vnode? j).isSome = (s.vnode? j).isSome := by
  have := congrArg Option.isSome (h.1 j)
  rwa [Option.isSome_map, Option.isSome_map] at this

/-- A block of the freemap belongs to the volume. -/
theorem State.own_homeOf {ix : ℕ} (h : ix < 512 * mapBlocks s.mount.sfsSb.sbNblocks) :
    s.Own (homeOf ix) := by
  have hm := toNat_sfsFreemapblocks_le s.mount.sfsSb.sbNblocks
  refine Or.inr (Or.inl ?_)
  rw [toNat_homeOf hm h]
  omega

/-- A request keeps it. -/
theorem Durable.changed (h : Durable inos s) (hfiles : Holds inos s fs) (hino : ino ∈ inos)
    (hv : s.vnode? ino = some sv) (hc : Changes s t ino sv sv') (hclean : cleanSame.le s t) :
    Durable inos t := by
  have hown (b : UInt32) : t.Own b ↔ s.Own b := own_iff hc.mount (isSome_of_cleanSame hclean) b
  -- a request writes only to blocks of its file, and those are not the volume's own
  have haside {b : UInt32} (hb : s.Own b) : t.InUse b ∧ ¬sv'.svI.Has t.disk b ∧
      t.disk b = s.disk b := hc.aside b (h.own b hb) (h.apart b hb ino hino sv hv)
  have hsuper : s.Own sfsSuperBlock := Or.inl rfl
  refine ⟨?_, ?_, ?_, ?_, fun j svj hj => ?_, fun b hb => ?_, fun b hb i hi svi hvi => ?_,
    fun i hi svi hvi => ?_, fun j svj hj hcl => ?_, fun hcl ix hix => ?_⟩
  · rw [hc.nbits, hc.mount, h.nbits]
  · rw [hc.mount]
    exact h.room
  · rw [hc.mount]
    exact h.magic
  · rw [(haside hsuper).2.2, hc.mount]
    exact h.super
  · obtain ⟨svs, hs⟩ := Option.isSome_iff_exists.mp
      ((isSome_of_cleanSame hclean j).symm.trans (by rw [hj]; rfl))
    rw [State.InodeBlock, hc.mount]
    exact h.inode j svs hs
  · exact (haside ((hown b).mp hb)).1
  · -- the file of the request, and the others, which have the blocks they had
    have hbs := (hown b).mp hb
    by_cases hne : i = ino
    · subst hne
      obtain rfl := Option.some.inj (hc.vnode.symm.trans hvi)
      exact (haside hbs).2.1
    · rw [hc.others i hne] at hvi
      obtain ⟨svi', hk⟩ := hfiles.file i hi
      obtain rfl := Option.some.inj (hk.vnode.symm.trans hvi)
      rw [Dinode.has_congr fun b hb => (hc.aside b (hk.tidy.has_inUse hb)
        (hfiles.apart i hi ino hino hne _ _ b hvi hv hb)).2.2]
      exact h.apart b hbs i hi _ hvi
  · have htype := hclean.1 i
    rw [hvi] at htype
    obtain ⟨svs, hs, heq⟩ := Option.map_eq_some_iff.mp htype.symm
    rw [← show svs.svI.sfiType = svi.svI.sfiType from heq]
    exact h.type i hi svs hs
  · -- what is clean after the request was clean before it
    have hs := hclean.2.1 j svj hj hcl
    rw [dinodeAt, (haside (Or.inr (Or.inr ⟨svj, hs⟩))).2.2]
    exact h.clean j svj hs hcl
  · obtain ⟨hcs, hmap⟩ := hclean.2.2 hcl
    rw [hc.mount] at hix
    rw [hmap, (haside (State.own_homeOf hix)).2.2]
    exact h.cleanMap hcs ix hix

/-- What a call keeps however it ends, it keeps from the state it starts from. -/
theorem cleanSame_run {α : Type} {x : Sk α} (hx : Keeps cleanSame anyStop x) (s : State) :
    cleanSame.le s (x.run s).state := by
  have h := hx.sat s
  cases hrun : x.run s with
  | done a t =>
    rw [hrun] at h
    exact h
  | halt e t =>
    rw [hrun] at h
    exact h.1

/-- A request leaves clean inodes and a clean freemap alone. -/
theorem cleanSame_serve (s : State) (r : Request) : cleanSame.le s (s.serve r).1 := by
  have hstate (o : Outcome Stop State Unit) : (answer o).1 = o.state := by
    cases o <;> rfl
  cases r with
  | transfer ino u =>
    rw [State.serve, hstate]
    exact cleanSame.trans (cleanSame_of_eq rfl rfl rfl)
      (cleanSame_run cleans_io { s with uio := u })
  | truncate ino len =>
    rw [State.serve, hstate]
    exact cleanSame_run (cleans_itrunc len) s

/-- **A request keeps what is durable.** -/
theorem durable_serve (h : Durable inos s) (hfiles : Holds inos s fs) {r : Request}
    (hino : r.ino ∈ inos) (hr : r.Proper) : Durable inos (s.serve r).1 := by
  obtain ⟨-, -, -, sv, sv', hv, hc⟩ := holds_serve hfiles hino hr
  exact h.changed hfiles hino hv hc (cleanSame_serve s r)

end Durable

/-! ### Syncing

`sfs_sync` goes over the table of vnodes and writes out each that is dirty, then the freemap and the
superblock if they are. It ignores what `sfs_sync_inode` reports; on a device that works there is
nothing to report.
-/

/-- From `s` to `t` inodes have been written out. -/
structure Flushed (s t : State) : Prop where
  mount : t.mount = s.mount
  map : t.sfsFreemap = s.sfsFreemap
  mapDirty : t.sfsFreemapdirty = s.sfsFreemapdirty
  superDirty : t.sfsSuperdirty = s.sfsSuperdirty
  inode : ∀ j, (t.vnode? j).map (fun sv => sv.svI) = (s.vnode? j).map fun sv => sv.svI
  disk : ∀ b, s.vnode? b = none → t.disk b = s.disk b
  clean : ∀ j sv, t.vnode? j = some sv → sv.svDirty = false → dinodeAt t.disk j = sv.svI

/-- From `s` to `t` everything has been written out. -/
structure Synced (s t : State) : Prop where
  mount : t.mount = s.mount
  map : t.sfsFreemap = s.sfsFreemap
  inode : ∀ j, (t.vnode? j).map (fun sv => sv.svI) = (s.vnode? j).map fun sv => sv.svI
  disk : ∀ b, ¬s.Own b → t.disk b = s.disk b
  clean : ∀ j sv, t.vnode? j = some sv → dinodeAt t.disk j = sv.svI
  saved : t.MapSaved
  super : (Superblock.ofBlock (t.disk sfsSuperBlock)).terminated = t.mount.sfsSb

section Sync

variable {W : Watch fsGrowth} {inos : Set UInt32} {s t u : State} {fs : Files} {j : UInt32}
  {sv : SfsVnode}

/-- The same inodes are loaded. -/
theorem isSome_of_inode (h : ∀ j, (t.vnode? j).map (fun sv => sv.svI) =
    (s.vnode? j).map fun sv => sv.svI) (j : UInt32) :
    (t.vnode? j).isSome = (s.vnode? j).isSome := by
  have := congrArg Option.isSome (h j)
  rwa [Option.isSome_map, Option.isSome_map] at this

/-- What is loaded in `t` is loaded in `s`, as an object of the same type. -/
def State.SameTypes (s t : State) : Prop :=
  ∀ j sv, t.vnode? j = some sv → ∃ sv', s.vnode? j = some sv' ∧ sv.svI.sfiType = sv'.svI.sfiType

/-- A sync does not change the type of an object. -/
theorem sameTypes_of_inode (h : ∀ j, (t.vnode? j).map (fun sv => sv.svI) =
    (s.vnode? j).map fun sv => sv.svI) : s.SameTypes t := by
  intro j sv hv
  have hj := h j
  rw [hv] at hj
  obtain ⟨sv', hv', heq⟩ := Option.map_eq_some_iff.mp hj.symm
  exact ⟨sv', hv', congrArg Dinode.sfiType heq.symm⟩

/-- Neither does a request. -/
theorem sameTypes_of_cleanSame (h : cleanSame.le s t) : s.SameTypes t := by
  intro j sv hv
  have hj := h.1 j
  rw [hv] at hj
  obtain ⟨sv', hv', heq⟩ := Option.map_eq_some_iff.mp hj.symm
  exact ⟨sv', hv', heq.symm⟩

/-- The vnode with its flag cleared. -/
def SfsVnode.cleaned (sv : SfsVnode) : SfsVnode := { sv with svDirty := false }

/-- The vnode `j` is written out. -/
theorem Flushed.saved (h : Flushed s t) (hv : t.vnode? j = some sv) (k : ℕ) :
    Flushed s { t with
      disk := Function.update t.disk j sv.svI.toBlock, writes := k
      sfsVnodes := (t.toCore.setVnode j SfsVnode.cleaned).sfsVnodes } := by
  have hvnode (i : UInt32) := vnode?_setVnode_eq (v := j) (c := t.toCore)
    (f := SfsVnode.cleaned) (fun _ => rfl) i
  refine ⟨h.mount, h.map, h.mapDirty, h.superDirty, fun i => ?_, fun b hb => ?_,
    fun i svi hvi hcl => ?_⟩
  · change ((t.toCore.setVnode j SfsVnode.cleaned).vnode? i).map _ = _
    rw [hvnode, Option.map_map, ← h.inode]
    refine Option.map_congr fun sv _ => ?_
    rw [Function.comp_apply]
    split <;> rfl
  · have hne : b ≠ j := fun heq => by
      have := isSome_of_inode h.inode j
      rw [hv, ← heq, hb] at this
      cases this
    exact (Function.update_of_ne hne _ _).trans (h.disk b hb)
  · change (t.toCore.setVnode j SfsVnode.cleaned).vnode? i = some svi at hvi
    rw [hvnode, Option.map_eq_some_iff] at hvi
    obtain ⟨svi', hvi', rfl⟩ := hvi
    change Dinode.ofBlock (Function.update t.disk j sv.svI.toBlock i) = _
    by_cases hi : i = j
    · subst hi
      obtain rfl := Option.some.inj (hv.symm.trans hvi')
      rw [Function.update_self, if_pos rfl, Dinode.ofBlock_toBlock]
      rfl
    · rw [Function.update_of_ne hi]
      rw [if_neg hi] at hcl ⊢
      exact h.clean i svi' hvi' hcl

/-- `sfs_sync_vnodes` leaves no inode dirty. -/
theorem wp_syncVnodes (hw : s.WritesWork)
    (hfits : ∀ j sv, s.vnode? j = some sv → j < s.mount.dBlocks)
    (hclean : ∀ j sv, s.vnode? j = some sv → sv.svDirty = false → dinodeAt s.disk j = sv.svI) :
    wp W syncVnodes (fun _ t => Flushed s t ∧ ∀ j sv, t.vnode? j = some sv → sv.svDirty = false)
      (fun _ _ => False) s := by
  refine wp_get_bind (wp_post (wp_foldlM (fun pre _ t => Flushed s t ∧
    ∀ sv₀ ∈ pre, ∀ sv, t.vnode? sv₀.svIno = some sv → sv.svDirty = false)
    ⟨⟨rfl, rfl, rfl, rfl, fun _ => rfl, fun _ _ => rfl, hclean⟩, fun _ h => by cases h⟩ ?_)
    fun _ t _ _ ⟨hflush, hdone⟩ => ⟨hflush, fun j sv hv => ?_⟩)
  · rintro pre sv₀ post - t hl - ⟨hflush, hdone⟩
    have hloaded : (s.vnode? sv₀.svIno).isSome = true := by
      refine List.find?_isSome.mpr ⟨sv₀, ?_, decide_eq_true rfl⟩
      rw [hl]
      exact List.mem_append_right _ List.mem_cons_self
    obtain ⟨sv, hv⟩ := Option.isSome_iff_exists.mp
      ((isSome_of_inode hflush.inode _).trans hloaded)
    obtain ⟨svs, hvs⟩ := Option.isSome_iff_exists.mp hloaded
    have hkept (sv₁ : SfsVnode) (hmem : sv₁ ∈ pre ++ [sv₀]) (sv' : SfsVnode)
        (hv' : (t.toCore.setVnode sv₀.svIno SfsVnode.cleaned).vnode?
          sv₁.svIno = some sv') : sv'.svDirty = false := by
      rw [vnode?_setVnode_eq (f := SfsVnode.cleaned) fun _ => rfl, Option.map_eq_some_iff] at hv'
      obtain ⟨sv'', hv'', rfl⟩ := hv'
      by_cases heq : sv₁.svIno = sv₀.svIno
      · rw [if_pos heq]
        rfl
      · rw [if_neg heq]
        rcases List.mem_append.mp hmem with hpre | hlast
        · exact hdone sv₁ hpre sv'' hv''
        · rw [List.mem_singleton.mp hlast] at heq
          exact absurd rfl heq
    -- one round of the loop: the inode is dirty and written, or clean and on the disk already
    refine wp_bind (wp_trying (wp_bind (wp_getVnode hv ?_)))
    refine wp_ite (fun hdirty => ?_) fun hclean => ?_
    · rw [svIno_of_vnode? hv]
      refine wp_bind (wp_writeblock (by rw [hflush.mount]; exact hfits _ _ hvs) ?_)
      have hwt : t.WritesWork := by
        rw [State.WritesWork, hflush.mount]
        exact hw
      rw [hwt.written]
      have hsaved := hflush.saved hv (t.writes + 1)
      exact wp_modify (wp_pure fun _ => ⟨hsaved, hkept⟩)
    · refine wp_pure fun _ => wp_pure fun _ => ⟨hflush, fun sv₁ hmem sv' hv' => ?_⟩
      rcases List.mem_append.mp hmem with hpre | hlast
      · exact hdone sv₁ hpre sv' hv'
      · rw [List.mem_singleton.mp hlast, hv] at hv'
        obtain rfl := Option.some.inj hv'
        exact Bool.eq_false_of_not_eq_true hclean
  · -- every vnode is among those the loop goes over
    obtain ⟨svs, hvs⟩ := Option.isSome_iff_exists.mp
      ((isSome_of_inode hflush.inode j).symm.trans (by rw [hv]; rfl))
    refine hdone svs (List.mem_of_find?_eq_some hvs) sv ?_
    rw [svIno_of_vnode? hvs]
    exact hv

/-- `sfs_sync_freemap` leaves the freemap on the disk. -/
theorem wp_syncFreemap (hworks : s.Works)
    (hroom : 2 + mapBlocks s.mount.sfsSb.sbNblocks ≤ s.mount.dBlocks.toNat)
    (hclean : s.sfsFreemapdirty = false → s.MapSaved) :
    wp (Watch.any fsGrowth) syncFreemap (fun _ t => (∃ k disk dirty,
      t = { s with disk := disk, writes := k, sfsFreemapdirty := dirty }) ∧ t.MapSaved ∧
      ∀ b : UInt32, ¬(2 ≤ b.toNat ∧ b.toNat < 2 + mapBlocks s.mount.sfsSb.sbNblocks) →
        t.disk b = s.disk b) (fun _ _ => False) s := by
  refine wp_get_bind (wp_ite (fun _ => ?_) fun hdirty => ?_)
  · refine wp_seq (wp_freemapWrite hworks hroom) fun _ t _ _ ⟨k, disk, ht, hdisk⟩ => ?_
    subst ht
    refine wp_modify ⟨⟨k, disk, false, rfl⟩, fun ix hix => ?_, fun b hb => ?_⟩
    · have hm := toNat_sfsFreemapblocks_le s.mount.sfsSb.sbNblocks
      change ix < 512 * mapBlocks s.mount.sfsSb.sbNblocks at hix
      change s.sfsFreemap.v ix = (disk (homeOf ix)).get (ix % 512)
      rw [hdisk, toNat_homeOf hm hix, if_pos (by omega), Nat.add_sub_cancel_left, freemapBlock,
        Bytes.get_ofFn _ (Nat.mod_lt _ (by omega)), Nat.div_add_mod]
    · exact (hdisk b).trans (if_neg hb)
  · exact wp_pure fun _ => ⟨⟨s.writes, s.disk, s.sfsFreemapdirty, rfl⟩,
      hclean (Bool.eq_false_of_not_eq_true hdirty), fun _ _ => rfl⟩

/-- The name of the volume is cut off once only. -/
theorem Superblock.terminated_of_eq {sb sb' : Superblock} (h : sb.terminated = sb') :
    sb'.terminated = sb' := by
  subst h
  rw [Superblock.terminated, Superblock.terminated]
  dsimp only
  rw [Function.update_idem]

/-- **Syncing** puts everything on the disk, and nothing over a file. -/
theorem wp_sync (hworks : s.Works) (hfits : s.mount.sfsSb.sbNblocks ≤ s.mount.dBlocks)
    (h : Durable inos s) :
    wp (Watch.any fsGrowth) sync (fun _ t => Synced s t) (fun _ _ => False) s := by
  have hown {b : UInt32} (hb : s.Own b) : b < s.mount.dBlocks :=
    Nat.lt_of_lt_of_le (h.own b hb).1 hfits
  refine wp_seq (wp_syncVnodes (hworks .write) (fun j sv hv => hown (Or.inr (Or.inr ⟨sv, hv⟩)))
    h.clean) fun _ t _ _ ⟨hflush, hclean⟩ => ?_
  -- writing inodes out has changed no other block, so the freemap on the disk is as it was
  have hloaded (b : UInt32) (hb : ∀ sv, s.vnode? b ≠ some sv) : t.disk b = s.disk b :=
    hflush.disk b (Option.eq_none_iff_forall_ne_some.mpr hb)
  have hmeta {b : UInt32} (hb : ¬s.InodeBlock b) : t.disk b = s.disk b :=
    hloaded b fun sv hv => hb (h.inode b sv hv)
  refine wp_seq (wp_syncFreemap (s := t) ?_ ?_ ?_) ?_
  · rw [State.Works, hflush.mount]
    exact hworks
  · rw [hflush.mount]
    exact h.room
  · intro hdirty ix hix
    rw [hflush.mount] at hix
    have hm := toNat_sfsFreemapblocks_le s.mount.sfsSb.sbNblocks
    have hhome := toNat_homeOf hm hix
    rw [hflush.map, hmeta fun hc => hc.2 (by rw [hhome]; omega)]
    exact h.cleanMap (hflush.mapDirty.symm.trans hdirty) ix hix
  rintro - u - - ⟨⟨k, disk, dirty, rfl⟩, hsaved, hdisk⟩
  rw [hflush.mount] at hdisk
  change ∀ b, _ → disk b = t.disk b at hdisk
  -- what is left is the superblock, whether it is written or not
  have hsynced (disk' : Disk) (k' : ℕ) (dirty' : Bool)
      (hsame : ∀ b, b ≠ sfsSuperBlock → disk' b = disk b)
      (hsuper : (Superblock.ofBlock (disk' sfsSuperBlock)).terminated = s.mount.sfsSb) :
      Synced s { t with
        disk := disk', writes := k', sfsFreemapdirty := dirty, sfsSuperdirty := dirty' } := by
    refine ⟨hflush.mount, hflush.map, hflush.inode, fun b hb => ?_, fun j sv hv => ?_,
      fun ix hix => ?_, hsuper.trans (congrArg Mount.sfsSb hflush.mount.symm)⟩
    · rw [State.Own, not_or, not_or] at hb
      change disk' b = s.disk b
      rw [hsame b hb.1, hdisk b hb.2.1]
      exact hloaded b fun sv hv => hb.2.2 ⟨sv, hv⟩
    · obtain ⟨svs, hvs⟩ := Option.isSome_iff_exists.mp
        ((isSome_of_inode hflush.inode j).symm.trans
          (Option.isSome_iff_exists.mpr ⟨sv, hv⟩))
      obtain ⟨hne, hmap⟩ := h.inode j svs hvs
      change dinodeAt disk' j = sv.svI
      rw [dinodeAt, hsame j hne, hdisk j hmap]
      exact hflush.clean j sv hv (hclean j sv hv)
    · have hm := toNat_sfsFreemapblocks_le t.mount.sfsSb.sbNblocks
      have hne : homeOf ix ≠ sfsSuperBlock := fun heq => by
        have := toNat_homeOf hm hix
        rw [heq] at this
        change 0 = _ at this
        omega
      change t.sfsFreemap.v ix = (disk' (homeOf ix)).get (ix % 512)
      rw [hsame _ hne]
      exact hsaved ix hix
  refine wp_get_bind (wp_ite (fun _ => ?_) fun _ => ?_)
  · refine wp_bind (wp_writeblock ?_ (wp_modify ?_))
    · change sfsSuperBlock < t.mount.dBlocks
      rw [hflush.mount]
      exact hown (Or.inl rfl)
    · have hwrites : ∀ k, t.mount.world.media .write k = true := by
        rw [hflush.mount]
        exact hworks .write
      refine hsynced _ (k + 1) false (fun b hb => ?_) ?_
      · rw [State.written, if_pos (hwrites _)]
        exact Function.update_of_ne hb _ _
      rw [State.written, if_pos (hwrites _)]
      change (Superblock.ofBlock (Function.update disk sfsSuperBlock t.mount.sfsSb.toBlock
        sfsSuperBlock)).terminated = s.mount.sfsSb
      rw [Function.update_self, Superblock.ofBlock_toBlock, hflush.mount]
      exact Superblock.terminated_of_eq h.super
  · refine wp_pure fun _ => hsynced disk k t.sfsSuperdirty (fun _ _ => rfl) ?_
    rw [hdisk sfsSuperBlock fun hc => absurd hc.1 (by decide), hmeta fun hc => hc.1 rfl]
    exact h.super

/-- The same files, with the same inodes, on a volume whose freemap and device are as good. -/
theorem Holds.carried (h : Holds inos s fs) (hsb : t.mount.sfsSb = s.mount.sfsSb)
    (hvol : t.VolumeOk) (hbits : t.sfsFreemap.nbits = s.sfsFreemap.nbits) (hworks : t.Works)
    (huse : ∀ b, s.InUse b → t.InUse b)
    (hinode : ∀ ino ∈ inos, (t.vnode? ino).map (fun sv => sv.svI) =
      (s.vnode? ino).map fun sv => sv.svI)
    (hdisk : ∀ ino ∈ inos, ∀ sv, s.vnode? ino = some sv → ∀ b, sv.svI.Has s.disk b →
      t.disk b = s.disk b) : Holds inos t fs := by
  have hsame {ino : UInt32} (hino : ino ∈ inos) {svt : SfsVnode} (hv : t.vnode? ino = some svt) :
      ∃ sv, s.vnode? ino = some sv ∧ svt.svI = sv.svI := by
    have := hinode ino hino
    rw [hv] at this
    obtain ⟨sv, hsv, heq⟩ := Option.map_eq_some_iff.mp this.symm
    exact ⟨sv, hsv, heq.symm⟩
  refine ⟨hvol, ?_, ?_, hworks, fun ino hino => ?_, fun i hi j hj hij svi svj b hvi hvj hb => ?_⟩
  · rw [hsb]
    exact h.small
  · rw [hsb, hbits]
    exact h.mapped
  · obtain ⟨sv, hk⟩ := h.file ino hino
    have := hinode ino hino
    rw [hk.vnode] at this
    obtain ⟨svt, hvt, heq⟩ := Option.map_eq_some_iff.mp this
    exact ⟨svt, hk.beside hvt heq fun b hb =>
      ⟨huse b (hk.tidy.has_inUse hb), hdisk ino hino sv hk.vnode b hb⟩⟩
  · obtain ⟨svi', hvi', heqi⟩ := hsame hi hvi
    obtain ⟨svj', hvj', heqj⟩ := hsame hj hvj
    rw [heqi, Dinode.has_congr (hdisk i hi svi' hvi')] at hb
    rw [heqj, Dinode.has_congr (hdisk j hj svj' hvj')]
    exact h.apart i hi j hj hij svi' svj' b hvi' hvj' hb

/-- After a sync the files are the same, and all is on the disk still. -/
theorem Synced.holds (h : Synced s t) (hd : Durable inos s) (hfiles : Holds inos s fs) :
    Holds inos t fs ∧ Durable inos t := by
  have hown (b : UInt32) : t.Own b ↔ s.Own b := own_iff h.mount (isSome_of_inode h.inode) b
  have huse (b : UInt32) : t.InUse b ↔ s.InUse b := by
    rw [State.InUse, State.InUse, h.mount, h.map]
  have hblock {ino : UInt32} (hino : ino ∈ inos) {sv : SfsVnode} (hv : s.vnode? ino = some sv)
      (b : UInt32) (hb : sv.svI.Has s.disk b) : t.disk b = s.disk b :=
    h.disk b fun hb' => hd.apart b hb' ino hino sv hv hb
  have hsame {j : UInt32} {svt : SfsVnode} (hv : t.vnode? j = some svt) :
      ∃ sv, s.vnode? j = some sv ∧ svt.svI = sv.svI := by
    have := h.inode j
    rw [hv] at this
    obtain ⟨sv, hsv, heq⟩ := Option.map_eq_some_iff.mp this.symm
    exact ⟨sv, hsv, heq.symm⟩
  -- a sync has written to the volume's own blocks only, and no file has one of them
  refine ⟨hfiles.carried (congrArg Mount.sfsSb h.mount) ⟨?_, ?_, ?_, ?_, ?_⟩ (by rw [h.map]) ?_
    (fun b => (huse b).mpr) (fun ino _ => h.inode ino) fun ino hino sv hv => hblock hino hv,
    ⟨?_, ?_, ?_, ?_, fun j svt hv => ?_, fun b hb => ?_, fun b hb ino hino svt hv => ?_,
    fun ino hino svt hv => ?_, fun j svt hv _ => h.clean j svt hv, fun _ => h.saved⟩⟩
  · rw [h.mount]
    exact hfiles.volume.fits
  · rw [h.map]
    exact hfiles.volume.nbits
  · rw [h.map]
    exact hfiles.volume.padded
  · rw [h.mount, h.map]
    exact hfiles.volume.past
  · rw [h.map]
    exact hfiles.volume.super
  · rw [State.Works, h.mount]
    exact hfiles.works
  · rw [h.map, h.mount, hd.nbits]
  · rw [h.mount]
    exact hd.room
  · rw [h.mount]
    exact hd.magic
  · exact h.super
  · obtain ⟨sv, hvs, -⟩ := hsame hv
    rw [State.InodeBlock, h.mount]
    exact hd.inode j sv hvs
  · exact (huse b).mpr (hd.own b ((hown b).mp hb))
  · obtain ⟨sv, hvs, heq⟩ := hsame hv
    rw [heq, Dinode.has_congr (hblock hino hvs)]
    exact hd.apart b ((hown b).mp hb) ino hino sv hvs
  · obtain ⟨sv, hvs, heq⟩ := hsame hv
    rw [heq]
    exact hd.type ino hino sv hvs

end Sync

end Sfs

end Os161
