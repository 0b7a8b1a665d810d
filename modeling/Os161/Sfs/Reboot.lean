import Os161.Sfs.Durable

/-!
# Going down and coming up again

A machine that goes down after `sfs_sync` finds the same files when it comes up: the volume can be
mounted, its inodes can be loaded, and each file has the bytes it had.

## What coming up is

`sfs_domount` reads the superblock and the freemap, and `sfs_loadvnode` an inode for each file that
is to be open again. Nothing else is read. `comeUp` runs them, and has no state if one of them
fails; `Durable.comeUp` says that none does, on a device that works and with memory for each object.

## What is deliberately absent

Only a machine that has just synced goes down. What is lost otherwise is not said: inodes and
freemap on the disk are then from different times. Which files are open again is given, as a list of
inodes; who opens them, and under which names, is in `Sfs.Directories`.

## How it composes

`State.live` takes a machine through events: requests, syncs and reboots. `live_step` is one of
them, and `live_files` all of them in any order, with the answers of plain files (`Outlives`).

## Main definitions

* `comeUp` — mounting and loading
* `Event`, `Report`, `State.live`
* `Outlives` — what may be seen

## Main results

* `wp_loadAll`, `Durable.comeUp`
* `live_files` — any sequence of requests and reboots
-/

namespace Os161

namespace Sfs

open Prog Freemap

/-! ### Loading inodes -/

/-- Load the inodes of `l`, one after the other. -/
def loadAll (l : List UInt32) : Sk Unit :=
  l.foldlM (fun _ ino => do
    let _ ← loadvnode ino sfsTypeInval
    pure ()) ()

/-- The machine comes up with the given disk in the world `w`: the volume is mounted, and the inodes
of `l` are loaded. -/
def comeUp (w : World) (l : List UInt32) (dBlocks : UInt32) (disk : Disk) : Option State :=
  match domount w dBlocks disk with
  | .error _ => none
  | .ok u =>
    match (loadAll l).run u with
    | .done () v => some v
    | .halt _ _ => none

/-- From the volume `u`, which has nothing loaded, the inodes of `l` have been loaded. -/
structure Loaded (u : State) (l : List UInt32) (x : State) : Prop where
  state : ∃ vnodes k, x = { u with sfsVnodes := vnodes, tick := k }
  vnode : ∀ j sv, x.vnode? j = some sv → j ∈ l ∧ sv.svDirty = false ∧ sv.svI = dinodeAt u.disk j
  all : ∀ j ∈ l, ∃ sv, x.vnode? j = some sv

section Load

variable {W : Watch fsGrowth} {s u x : State} {l : List UInt32} {ino : UInt32}

/-- The search of `sfs_loadvnode`, where every inode that is loaded is in use. -/
theorem run_findVnode {svs : List SfsVnode} (h : ∀ sv ∈ svs, s.InUse sv.svIno) :
    (findVnode ino svs).run s = .done (decide (∃ sv ∈ svs, sv.svIno = ino)) s := by
  induction svs with
  | nil => rfl
  | cons sv svs ih =>
    have huse := h sv List.mem_cons_self
    rw [findVnode, run_bind_of_done (run_bused huse.1), if_pos huse.2]
    by_cases hsv : sv.svIno = ino
    · rw [if_pos hsv, decide_eq_true ⟨sv, List.mem_cons_self, hsv⟩]
      rfl
    · rw [if_neg hsv, ih fun sv' hsv' => h sv' (List.mem_cons_of_mem sv hsv')]
      congr 1
      refine decide_eq_decide.mpr ?_
      rw [List.exists_mem_cons_iff]
      exact ⟨Or.inr, fun h => h.resolve_left hsv⟩

/-- A vnode gets another reference. -/
theorem Loaded.again (h : Loaded u l x) {sv : SfsVnode} (hv : x.vnode? ino = some sv)
    {f : SfsVnode → SfsVnode}
    (hf : ∀ sv, (f sv).svIno = sv.svIno ∧ (f sv).svI = sv.svI ∧ (f sv).svDirty = sv.svDirty) :
    Loaded u (l ++ [ino]) { x with toCore := x.toCore.setVnode ino f } := by
  have hvnode (j : UInt32) := vnode?_setVnode_eq (v := ino) (c := x.toCore) (fun sv => (hf sv).1) j
  refine ⟨?_, fun j svj hj => ?_, fun j hj => ?_⟩
  · obtain ⟨vnodes, k, rfl⟩ := h.state
    exact ⟨_, k, rfl⟩
  · change (x.toCore.setVnode ino f).vnode? j = some svj at hj
    rw [hvnode, Option.map_eq_some_iff] at hj
    obtain ⟨sv', hsv', rfl⟩ := hj
    obtain ⟨hmem, hclean, hinode⟩ := h.vnode j sv' hsv'
    refine ⟨List.mem_append_left _ hmem, ?_⟩
    split
    · rw [(hf sv').2.1, (hf sv').2.2]
      exact ⟨hclean, hinode⟩
    · exact ⟨hclean, hinode⟩
  · have hold : ∃ svj, x.vnode? j = some svj := by
      rcases List.mem_append.mp hj with hj | hj
      · exact h.all j hj
      · rw [List.mem_singleton.mp hj]
        exact ⟨sv, hv⟩
    obtain ⟨svj, hsvj⟩ := hold
    refine Option.isSome_iff_exists.mp ?_
    change ((x.toCore.setVnode ino f).vnode? j).isSome = true
    rw [hvnode, hsvj]
    rfl

/-- A vnode comes to the end of the table. -/
theorem Loaded.next {vnodes : List SfsVnode} {k : ℕ}
    (h : Loaded u l { u with sfsVnodes := vnodes, tick := k })
    (hnone : ∀ sv ∈ vnodes, sv.svIno ≠ ino) (k' : ℕ) : Loaded u (l ++ [ino]) { u with
      sfsVnodes := vnodes ++ [⟨ino, dinodeAt u.disk ino, false, 1⟩], tick := k' } := by
  have hvnode (j : UInt32) : Core.vnode? { u.toCore with
      sfsVnodes := vnodes ++ [⟨ino, dinodeAt u.disk ino, false, 1⟩], tick := k' } j =
      (Core.vnode? { u.toCore with sfsVnodes := vnodes, tick := k } j).or
        (if ino = j then some ⟨ino, dinodeAt u.disk ino, false, 1⟩ else none) := by
    rw [Core.vnode?, Core.vnode?, List.find?_append, List.find?_singleton]
    simp only [decide_eq_true_eq]
  refine ⟨⟨_, k', rfl⟩, fun j sv hj => ?_, fun j hj => ?_⟩
  · rw [hvnode, Option.or_eq_some_iff] at hj
    rcases hj with hj | ⟨-, hj⟩
    · obtain ⟨hmem, hold⟩ := h.vnode j sv hj
      exact ⟨List.mem_append_left _ hmem, hold⟩
    · rw [Option.ite_none_right_eq_some] at hj
      obtain ⟨rfl, hj⟩ := hj
      obtain rfl := Option.some.inj hj
      exact ⟨List.mem_append_right _ List.mem_cons_self, rfl, rfl⟩
  · rcases List.mem_append.mp hj with hj | hj
    · obtain ⟨sv, hsv⟩ := h.all j hj
      refine ⟨sv, (hvnode j).trans ?_⟩
      rw [hsv]
      rfl
    · obtain rfl := List.mem_singleton.mp hj
      refine ⟨⟨j, dinodeAt u.disk j, false, 1⟩, (hvnode j).trans ?_⟩
      have hold : Core.vnode? { u.toCore with sfsVnodes := vnodes, tick := k } j = none :=
        List.find?_eq_none.mpr fun sv hsv => by simpa using hnone sv hsv
      rw [hold, if_pos rfl]
      rfl

/-- One more is loaded. -/
theorem wp_loadvnode_next (h : Loaded u l x) (hmem : ∀ k, u.mount.world.memory k = true)
    (hread : ∀ k, u.mount.world.media .read k = true) (huse : ∀ j ∈ l ++ [ino], u.InUse j)
    (hd : ino < u.mount.dBlocks) (htype : (dinodeAt u.disk ino).sfiType = sfsTypeFile ∨
      (dinodeAt u.disk ino).sfiType = sfsTypeDir) :
    wp W (loadvnode ino sfsTypeInval) (fun _ t => Loaded u (l ++ [ino]) t)
      (fun _ _ => False) x := by
  obtain ⟨vnodes, k, rfl⟩ := h.state
  have hloaded (sv : SfsVnode) (hsv : sv ∈ vnodes) : ∃ sv', Core.vnode?
      { u.toCore with sfsVnodes := vnodes, tick := k } sv.svIno = some sv' :=
    Option.isSome_iff_exists.mp (List.find?_isSome.mpr ⟨sv, hsv, decide_eq_true rfl⟩)
  refine wp_get_bind (wp_bind (wp_of_run_done (run_findVnode fun sv hsv => ?_) ?_))
  · obtain ⟨sv', hsv'⟩ := hloaded sv hsv
    exact huse _ (List.mem_append_left _ (h.vnode _ sv' hsv').1)
  dsimp only
  refine wp_ite (fun hfound => ?_) fun hnew => ?_
  · -- it is loaded already, and gets one more reference
    obtain ⟨sv, hsv, rfl⟩ := of_decide_eq_true hfound
    obtain ⟨sv', hsv'⟩ := hloaded sv hsv
    refine wp_bind (wp_kassert rfl (wp_bind (wp_bind (wp_getVnode hsv' (wp_modify ?_)))))
    exact wp_pure fun _ => h.again hsv' (f := fun sv => { sv with vnRefcount := sv.vnRefcount + 1 })
      fun _ => ⟨rfl, rfl, rfl⟩
  · -- memory for it, its block, its type, and memory for the vnode
    have hnone : ∀ sv ∈ vnodes, sv.svIno ≠ ino := fun sv hsv heq =>
      hnew (decide_eq_true ⟨sv, hsv, heq⟩)
    have hino := huse ino (List.mem_append_right _ List.mem_cons_self)
    refine wp_bind (wp_ask (wp_ite (fun _ => wp_bind ?_) fun hno => absurd (hmem _) hno))
    refine wp_of_run_done (run_bused hino.1) ?_
    refine wp_ite (fun _ => wp_bind ?_) fun hno => absurd hino.2 hno
    refine wp_readblock hd (fun k' => ?_) fun hno => by cases (hread _).symm.trans hno
    rw [if_neg (not_not_intro rfl)]
    refine wp_bind (wp_pure fun _ => wp_ite (fun _ => ?_) fun hno => absurd htype hno)
    refine wp_bind (wp_ask (wp_ite (fun _ => ?_) fun hno => absurd (hmem _) hno))
    exact wp_bind (wp_modify (wp_pure fun _ => h.next hnone _))

/-- All of them, on a device that works and with memory for each. -/
theorem wp_loadAll (hempty : s.sfsVnodes = []) (hmem : ∀ k, s.mount.world.memory k = true)
    (hread : ∀ k, s.mount.world.media .read k = true)
    (huse : ∀ j ∈ l, s.InUse j ∧ j < s.mount.dBlocks)
    (htype : ∀ j ∈ l, (dinodeAt s.disk j).sfiType = sfsTypeFile ∨
      (dinodeAt s.disk j).sfiType = sfsTypeDir) :
    wp W (loadAll l) (fun _ t => Loaded s l t) (fun _ _ => False) s := by
  refine wp_foldlM (fun pre _ t => Loaded s pre t) ?_ fun pre ino post _ t hl _ ht => ?_
  · have hnone (j : UInt32) : s.vnode? j = none := by
      rw [Core.vnode?, hempty]
      rfl
    refine ⟨⟨[], s.tick, by rw [← hempty]⟩, fun j sv hj => ?_, fun j hj => by cases hj⟩
    rw [hnone] at hj
    cases hj
  · have hmem' : ∀ j ∈ pre ++ [ino], j ∈ l := by
      intro j hj
      rw [hl]
      rcases List.mem_append.mp hj with hj | hj
      · exact List.mem_append_left _ hj
      · rw [List.mem_singleton.mp hj]
        exact List.mem_append_right _ List.mem_cons_self
    have hino := hmem' ino (List.mem_append_right _ List.mem_cons_self)
    exact wp_seq (wp_loadvnode_next ht hmem hread (fun j hj => (huse j (hmem' j hj)).1)
      (huse ino hino).2 (htype ino hino)) fun _ t' _ _ ht' => wp_pure fun _ => ht'

end Load

/-! ### Going down and coming up -/

section Reboot

variable {inos : Set UInt32} {s t u : State} {fs : Files} {l : List UInt32} {w : World}

/-- What is used of the freemap is on the disk. -/
theorem bit_of_saved {map : Bitmap} {n : UInt32} (hmap : ∀ ix < 512 * mapBlocks n,
    map.v ix = (s.disk (homeOf ix)).get (ix % 512)) (hn : s.mount.sfsSb.sbNblocks = n)
    (h : s.MapSaved) {i : ℕ} (hi : i < mapBlocks n * 4096) : map.bit i = s.sfsFreemap.bit i := by
  rw [Bitmap.bit, Bitmap.bit, hmap _ (by omega), h _ (by rw [hn]; omega)]

/-- **Down and up again.** With everything on the disk, the volume can be mounted and its inodes
loaded, and the files are the same. -/
theorem Durable.comeUp (h : Durable {ino | ino ∈ l} s) (hfiles : Holds {ino | ino ∈ l} s fs)
    (hsync : Synced s t) (hmedia : ∀ rw k, w.media rw k = true) (hmemory : ∀ k, w.memory k = true) :
    ∃ v, comeUp w l t.mount.dBlocks t.disk = some v ∧ Holds {ino | ino ∈ l} v fs ∧
      Durable {ino | ino ∈ l} v ∧ s.SameTypes v := by
  obtain ⟨hfiles', h'⟩ := hsync.holds h hfiles
  have hmagic : (Superblock.ofBlock (t.disk sfsSuperBlock)).sbMagic = sfsMagic :=
    (congrArg Superblock.sbMagic h'.super).trans h'.magic
  have hn : t.mount.sfsSb.sbNblocks = (Superblock.ofBlock (t.disk sfsSuperBlock)).sbNblocks :=
    (congrArg Superblock.sbNblocks h'.super).symm
  have hroom : 2 + mapBlocks (Superblock.ofBlock (t.disk sfsSuperBlock)).sbNblocks ≤
      t.mount.dBlocks.toNat := hn ▸ h'.room
  -- the volume is mounted, with a freemap that agrees with the one in memory before
  obtain ⟨map, k, hmount, hnbits, hmap⟩ := domount_spec hmedia hmemory rfl hmagic hroom
  rw [h'.super] at hmount
  rw [← hn] at hnbits hmap
  have hbits : map.nbits = t.sfsFreemap.nbits := hnbits.trans h'.nbits.symm
  have hbit {i : ℕ} (hi : i < t.sfsFreemap.nbits.toNat) : map.bit i = t.sfsFreemap.bit i := by
    rw [h'.nbits, toNat_freemapbits] at hi
    exact bit_of_saved hmap rfl hsync.saved hi
  generalize hu : fsCreate w t.mount.dBlocks t.disk t.mount.sfsSb map k = u at hmount
  have hudisk : u.disk = t.disk := by rw [← hu, fsCreate]
  have husb : u.mount.sfsSb = t.mount.sfsSb := by rw [← hu, fsCreate]
  have hublocks : u.mount.dBlocks = t.mount.dBlocks := by rw [← hu, fsCreate]
  have huworld : u.mount.world = w := by rw [← hu, fsCreate]
  have humap : u.sfsFreemap = map := by rw [← hu, fsCreate]
  -- so the blocks that were in use are in use
  have huse (b : UInt32) (hb : t.InUse b) : u.InUse b := by
    have hlt : b.toNat < t.sfsFreemap.nbits.toNat := Nat.lt_of_lt_of_le hb.1 hfiles'.mapped
    refine ⟨by rw [husb]; exact hb.1, ?_⟩
    rw [humap, Bitmap.isset_eq_bit, hbit hlt, ← Bitmap.isset_eq_bit]
    exact hb.2
  -- and the inodes on the disk are those that were loaded
  have hloaded (ino : UInt32) (hino : ino ∈ l) : ∃ sv, t.vnode? ino = some sv ∧ t.Own ino ∧
      dinodeAt u.disk ino = sv.svI := by
    obtain ⟨sv, hk⟩ := hfiles'.file ino hino
    exact ⟨sv, hk.vnode, Or.inr (Or.inr ⟨sv, hk.vnode⟩), hudisk ▸ hsync.clean ino sv hk.vnode⟩
  have hluse (ino : UInt32) (hino : ino ∈ l) : u.InUse ino ∧ ino < u.mount.dBlocks := by
    obtain ⟨sv, -, hown, -⟩ := hloaded ino hino
    refine ⟨huse ino (h'.own ino hown), ?_⟩
    rw [hublocks]
    exact Nat.lt_of_lt_of_le (h'.own ino hown).1 hfiles'.volume.fits
  have hltype (ino : UInt32) (hino : ino ∈ l) : (dinodeAt u.disk ino).sfiType = sfsTypeFile ∨
      (dinodeAt u.disk ino).sfiType = sfsTypeDir := by
    obtain ⟨sv, hv, -, hinode⟩ := hloaded ino hino
    rw [hinode]
    exact h'.type ino hino sv hv
  -- they are loaded again, into a state with the same disk and freemap
  obtain ⟨_, v, hrun, hv, hvm⟩ := done_of_wp (wp_loadAll (by rw [← hu, fsCreate])
    (by rw [huworld]; exact hmemory) (by rw [huworld]; exact hmedia .read) hluse hltype)
  obtain ⟨vnodes, k', hvstate⟩ := hv.state
  have hvdisk : v.disk = t.disk := by rw [hvstate]; exact hudisk
  have hvmap : v.sfsFreemap = map := by rw [hvstate]; exact humap
  have hvsb : v.mount.sfsSb = t.mount.sfsSb := by rw [hvm]; exact husb
  have hvuse (b : UInt32) (hb : t.InUse b) : v.InUse b := by
    rw [State.InUse, hvm, hvmap, ← humap]
    exact huse b hb
  have hvnode {j : UInt32} {svv : SfsVnode} (hj : v.vnode? j = some svv) :
      j ∈ l ∧ ∃ svt, t.vnode? j = some svt ∧ svv.svI = svt.svI := by
    obtain ⟨hmem, -, hinode⟩ := hv.vnode j svv hj
    obtain ⟨svt, hvt, -, heq⟩ := hloaded j hmem
    exact ⟨hmem, svt, hvt, hinode.trans heq⟩
  have hown (b : UInt32) (hb : v.Own b) : t.Own b := by
    rw [State.Own, hvsb] at hb
    rcases hb with hb | hb | ⟨svv, hb⟩
    · exact Or.inl hb
    · exact Or.inr (Or.inl hb)
    · obtain ⟨-, svt, hvt, -⟩ := hvnode hb
      exact Or.inr (Or.inr ⟨svt, hvt⟩)
  refine ⟨v, ?_, ?_, ⟨?_, ?_, ?_, ?_, fun j svv hj => ?_,
    fun b hb => hvuse b (h'.own b (hown b hb)), fun b hb ino hino svv hvv => ?_,
    fun ino hino svv hvv => ?_, fun j svv hj _ => ?_, fun _ ix hix => ?_⟩, fun j svv hj => ?_⟩
  · rw [Sfs.comeUp, hmount]
    dsimp only
    rw [hrun]
  · refine hfiles'.carried hvsb ⟨?_, ?_, ?_, ?_, ?_⟩ (hvmap ▸ hbits) ?_ hvuse (fun ino hino => ?_)
      fun ino hino sv _ b _ => by rw [hvdisk]
    · rw [hvm, husb, hublocks]
      exact hfiles'.volume.fits
    · rw [hvmap, hbits]
      exact hfiles'.volume.nbits
    · intro i hlo hhi
      -- the freemap is made of whole blocks
      rw [hvmap, hbits] at hlo hhi
      rw [Bitmap.toNat_words hfiles'.volume.nbits] at hhi
      have := toNat_freemapbits t.mount.sfsSb.sbNblocks
      rw [← h'.nbits] at this
      omega
    · intro i hlo hhi
      rw [hvsb] at hlo
      rw [hvmap, hbits] at hhi
      rw [hvmap, hbit hhi]
      exact hfiles'.volume.past i hlo hhi
    · have hpos : 0 < t.sfsFreemap.nbits.toNat :=
        Nat.lt_of_lt_of_le (Nat.zero_lt_of_lt (h'.own sfsSuperBlock (Or.inl rfl)).1) hfiles'.mapped
      rw [hvmap, hbit hpos]
      exact hfiles'.volume.super
    · rw [State.Works, hvm, huworld]
      exact hmedia
    · obtain ⟨svv, hvv⟩ := hv.all ino hino
      obtain ⟨-, svt, hvt, heq⟩ := hvnode hvv
      rw [hvv, hvt, Option.map_some, Option.map_some, heq]
  · rw [hvmap, hvsb, hnbits]
  · rw [hvm, husb, hublocks]
    exact h'.room
  · rw [hvsb]
    exact h'.magic
  · rw [hvdisk, hvsb]
    exact h'.super
  · obtain ⟨-, svt, hvt, -⟩ := hvnode hj
    rw [State.InodeBlock, hvsb]
    exact h'.inode j svt hvt
  · obtain ⟨-, svt, hvt, heq⟩ := hvnode hvv
    rw [heq, hvdisk]
    exact h'.apart b (hown b hb) ino hino svt hvt
  · obtain ⟨-, svt, hvt, heq⟩ := hvnode hvv
    rw [heq]
    exact h'.type ino hino svt hvt
  · rw [hvdisk, ← hudisk]
    exact (hv.vnode j svv hj).2.2.symm
  · rw [hvsb] at hix
    rw [hvmap, hvdisk]
    exact hmap ix hix
  · obtain ⟨-, svt, hvt, heq⟩ := hvnode hj
    rw [heq]
    exact sameTypes_of_inode hsync.inode j svt hvt

end Reboot

/-! ### Requests, syncs and reboots in any order

The machine as its users see it. `State.live` is the code; `Outlives` says what they may see.
-/

/-- What happens to the machine. -/
inductive Event where
  /-- A request comes in. -/
  | request (r : Request)
  /-- `sfs_sync` -/
  | sync
  /-- The machine goes down right after `sfs_sync`, and comes up again in the world `w`. -/
  | reboot (w : World)

/-- What is seen of it. -/
inductive Report where
  /-- The answer to the request. -/
  | answer (a : Answer)
  /-- It worked. -/
  | done
  /-- It did not work. -/
  | failed

/-- What happens, on a machine on which the files of `l` are open. -/
def State.live (l : List UInt32) (s : State) : Event → State × Report
  | .request r => ((s.serve r).1, .answer (s.serve r).2)
  | .sync =>
    match sync.run s with
    | .done () t => (t, .done)
    | .halt _ t => (t, .failed)
  | .reboot w =>
    match sync.run s with
    | .done () t =>
      match comeUp w l t.mount.dBlocks t.disk with
      | some v => (v, .done)
      | none => (t, .failed)
    | .halt _ t => (t, .failed)

/-- The request is for a file of `l`, and the world the machine comes up in works. -/
def Event.Proper (l : List UInt32) : Event → Prop
  | .request r => r.ino ∈ l ∧ r.Proper
  | .sync => True
  | .reboot w => (∀ rw k, w.media rw k = true) ∧ ∀ k, w.memory k = true

/-- What may be seen, and what becomes of the files. -/
inductive Outlives (fs : Files) : Event → Report → Files → Prop
  | request {r : Request} {a : Answer} {fs' : Files} (h : Serves fs r a fs') :
      Outlives fs (.request r) (.answer a) fs'
  | sync : Outlives fs .sync .done fs
  | reboot (w : World) : Outlives fs (.reboot w) .done fs

section Live

variable {s : State} {fs : Files} {l : List UInt32}

/-- `sfs_sync` returns, with everything on the disk. -/
theorem run_sync (h : Durable {ino | ino ∈ l} s) (hfiles : Holds {ino | ino ∈ l} s fs) :
    ∃ t, sync.run s = .done () t ∧ Synced s t := by
  obtain ⟨_, t, hrun, hsync, -⟩ := done_of_wp (wp_sync hfiles.works hfiles.volume.fits h)
  exact ⟨t, hrun, hsync⟩

/-- One event. -/
theorem live_step (h : Holds {ino | ino ∈ l} s fs ∧ Durable {ino | ino ∈ l} s) {e : Event}
    (he : e.Proper l) : ∃ fs', Outlives fs e (s.live l e).2 fs' ∧
      Holds {ino | ino ∈ l} (s.live l e).1 fs' ∧ Durable {ino | ino ∈ l} (s.live l e).1 ∧
      s.SameTypes (s.live l e).1 := by
  cases e with
  | request r =>
    obtain ⟨fs', hserves, hholds, -⟩ := holds_serve h.1 (r := r) he.1 he.2
    exact ⟨fs', .request hserves, hholds, durable_serve h.2 h.1 he.1 he.2,
      sameTypes_of_cleanSame (cleanSame_serve s r)⟩
  | sync =>
    obtain ⟨t, hrun, hsync⟩ := run_sync h.2 h.1
    rw [State.live, hrun]
    obtain ⟨hholds, hdurable⟩ := hsync.holds h.2 h.1
    exact ⟨fs, .sync, hholds, hdurable, sameTypes_of_inode hsync.inode⟩
  | reboot w =>
    obtain ⟨t, hrun, hsync⟩ := run_sync h.2 h.1
    obtain ⟨v, hup, hholds, hdurable, htypes⟩ := h.2.comeUp h.1 hsync he.1 he.2
    rw [State.live, hrun]
    dsimp only
    rw [hup]
    exact ⟨fs, .reboot w, hholds, hdurable, htypes⟩

/-- **Nothing is lost.** However requests, syncs and reboots follow one another, the answers are
those of the plain files, which a reboot right after a sync does not change; syncing, mounting and
loading never fail. -/
theorem live_files (h : Holds {ino | ino ∈ l} s fs) (hd : Durable {ino | ino ∈ l} s)
    (es : List Event) (hes : ∀ e ∈ es, e.Proper l) :
    ∃ fs', Traces Outlives fs (answers (State.live l) s es).1 fs' ∧
      Holds {ino | ino ∈ l} (answers (State.live l) s es).2 fs' ∧
      Durable {ino | ino ∈ l} (answers (State.live l) s es).2 := by
  refine traces_answers (R := fun s fs => Holds {ino | ino ∈ l} s fs ∧ Durable {ino | ino ∈ l} s)
    (P := Event.Proper l) (fun s fs e h he => ?_) ⟨h, hd⟩ hes
  obtain ⟨fs', hout, hholds, hdurable, -⟩ := live_step h he
  exact ⟨fs', hout, hholds, hdurable⟩

/-- A volume as `mksfs` makes it, with files that have no blocks yet. -/
theorem durable_newVolume {type : UInt32 → UInt16}
    (htype : ∀ ino, type ino = sfsTypeFile ∨ type ino = sfsTypeDir) :
    Durable {3, 4} (newVolume type) := by
  have hn : (newVolume type).mount.sfsSb.sbNblocks = 8 := rfl
  have hown {b : UInt32} (hb : (newVolume type).Own b) : b.toNat < 5 := by
    rw [State.Own, hn] at hb
    rcases hb with rfl | ⟨-, hb⟩ | ⟨sv, hb⟩
    · decide
    · exact Nat.lt_of_lt_of_le hb (by decide)
    · rcases (vnode?_newVolume hb).1 with rfl | rfl <;> decide
  refine ⟨show newMap.nbits = sfsFreemapbits 8 by decide,
    show 2 + mapBlocks 8 ≤ UInt32.toNat 8 by decide, rfl, ?_, fun j sv hv => ?_, fun b hb => ?_,
    fun b _ ino _ sv hv => ?_, fun ino _ sv hv => ?_, fun j sv hv hclean => ?_,
    fun hclean => by cases hclean⟩
  · change (Superblock.ofBlock (Superblock.toBlock _)).terminated = _
    rw [Superblock.ofBlock_toBlock, Superblock.terminated]
    refine congrArg (fun name => Superblock.mk sfsMagic 8 name fun _ => 0) (funext fun i => ?_)
    rw [Function.update_apply]
    split <;> rfl
  · rw [State.InodeBlock, hn]
    rcases (vnode?_newVolume hv).1 with rfl | rfl <;> exact ⟨by decide, by decide⟩
  · have hlt := hown hb
    refine ⟨?_, ?_⟩
    · rw [hn, UInt32.lt_iff_toNat_lt]
      exact Nat.lt_trans hlt (by decide)
    · have hbits : ∀ i < 5, newMap.bit i = true := by decide
      rw [Bitmap.isset_eq_bit]
      exact hbits _ hlt
  · obtain ⟨-, rfl⟩ := vnode?_newVolume hv
    rintro ⟨h0, p, hp⟩
    exact h0 (hp.symm.trans (pointer_newVnode _ ino p))
  · obtain ⟨-, rfl⟩ := vnode?_newVolume hv
    exact htype ino
  · obtain ⟨-, rfl⟩ := vnode?_newVolume hv
    cases hclean

/-- The requests of `twoRequests`, and the machine goes down after each of them. -/
def twoEvents : List Event :=
  .sync :: twoRequests.flatMap fun r => [.request r, .reboot working]

/-- Two requests for two files, with a reboot after each. -/
theorem live_files_two : ∃ fs', Traces Outlives (fun _ => ⟨0, fun _ => 0⟩)
    (answers (State.live [3, 4]) twoFiles twoEvents).1 fs' ∧
    Holds {ino | ino ∈ [3, 4]} (answers (State.live [3, 4]) twoFiles twoEvents).2 fs' ∧
    Durable {ino | ino ∈ [3, 4]} (answers (State.live [3, 4]) twoFiles twoEvents).2 := by
  have hset : {ino : UInt32 | ino ∈ [3, 4]} = {3, 4} := by
    ext ino
    simp
  refine live_files (s := twoFiles) (hset ▸ holds_newVolume)
    (hset ▸ durable_newVolume fun _ => Or.inl rfl) twoEvents fun e he => ?_
  rcases List.mem_cons.mp he with rfl | he
  · trivial
  · obtain ⟨r, hr, he⟩ := List.mem_flatMap.mp he
    rcases List.mem_cons.mp he with rfl | he
    · exact proper_twoRequests r hr
    · obtain rfl := List.mem_singleton.mp he
      exact ⟨fun _ _ => rfl, fun _ => rfl⟩

end Live

end Sfs

end Os161
