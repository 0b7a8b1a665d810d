import Os161.Sfs.Mapping

/-!
# Truncation

What `sfs_itrunc` does to a file, to the freemap and to the disk, for every length and whatever the
disk does.

## Main results

* `itrunc_cases` — how a run ends
-/

namespace Os161

namespace Sfs

open Prog

section Truncate

variable {s t : State} {ino : UInt32} {sv sv' : SfsVnode} {map : Bitmap}

theorem run_bfree {block : UInt32} (h : s.sfsFreemap.unmark block = some map) :
    (bfree block).run s =
      .done () { s with sfsFreemap := map, sfsFreemapdirty := true } := by
  have hunmark : (unmark block).run s = .done () { s with sfsFreemap := map } := by
    rw [unmark, run_bind_of_done (run_get s), h]
    rfl
  rw [bfree, run_bind_of_done hunmark]
  rfl

theorem run_bfree_none {block : UInt32} (h : s.sfsFreemap.unmark block = none) :
    (bfree block).run s = .halt (.panic (.kassert .bitmapUnmark)) s := by
  have hunmark : (unmark block).run s = .halt (.panic (.kassert .bitmapUnmark)) s := by
    rw [unmark, run_bind_of_done (run_get s), h]
    rfl
  rw [bfree, run_bind_of_halt hunmark]

/-- From `s` to `t` only the vnode `ino` and the freemap have changed. -/
structure Cut (s t : State) (ino : UInt32) (sv' : SfsVnode) (map : Bitmap) : Prop where
  vnode : t.vnode? ino = some sv'
  others : ∀ j, j ≠ ino → t.vnode? j = s.vnode? j
  freemap : t.sfsFreemap = map
  disk : t.disk = s.disk
  tick : t.tick = s.tick
  mount : t.mount = s.mount

theorem Cut.refl (hv : s.vnode? ino = some sv) : Cut s s ino sv s.sfsFreemap :=
  ⟨hv, fun _ _ => rfl, rfl, rfl, rfl, rfl⟩

theorem Cut.trans {u : State} {sv'' : SfsVnode} {map' : Bitmap} (h : Cut s t ino sv' map)
    (h' : Cut t u ino sv'' map') : Cut s u ino sv'' map' where
  vnode := h'.vnode
  others j hj := (h'.others j hj).trans (h.others j hj)
  freemap := h'.freemap
  disk := h'.disk.trans h.disk
  tick := h'.tick.trans h.tick
  mount := h'.mount.trans h.mount

/-- The freemap has changed. -/
theorem Cut.freed (hv : s.vnode? ino = some sv) (map : Bitmap) :
    Cut s { s with sfsFreemap := map, sfsFreemapdirty := true } ino sv map :=
  ⟨hv, fun _ _ => rfl, rfl, rfl, rfl, rfl⟩

/-- The inode has changed. -/
theorem Cut.dirtied (hv : s.vnode? ino = some sv) (f : Dinode → Dinode) :
    Cut s { s with toCore := s.toCore.setVnode ino (SfsVnode.dirtied f) } ino (sv.dirtied f)
      s.sfsFreemap :=
  ⟨vnode?_dirtied f hv, fun _ hj => vnode?_dirtied_of_ne f hj, rfl, rfl, rfl, rfl⟩

/-! ### The direct blocks -/

/-- The inode without the direct blocks among `l` from block `n` on. -/
def Dinode.cutDirect (d : Dinode) (n : ℕ) (l : List (Fin 15)) : Dinode :=
  { d with sfiDirect := fun i => if i ∈ l ∧ n ≤ i then 0 else d.sfiDirect i }

/-- Those blocks. -/
def Dinode.freedDirect (d : Dinode) (n : ℕ) (l : List (Fin 15)) : List UInt32 :=
  (l.filter fun i : Fin 15 => n ≤ i ∧ d.sfiDirect i ≠ 0).map d.sfiDirect

/-- One round of the loop over the direct blocks. -/
def truncDirectRound (ino blocklen : UInt32) (i : Fin 15) : Sk Unit := do
  let sv ← getVnode ino
  let block := sv.svI.sfiDirect i
  if blocklen.toNat ≤ i ∧ block ≠ 0 then do
    bfree block
    modifyInode ino fun d => d.setDirect i 0
  else pure ()

theorem run_truncDirectRound_keep (hv : s.vnode? ino = some sv) {n : UInt32} {i : Fin 15}
    (h : ¬(n.toNat ≤ i ∧ sv.svI.sfiDirect i ≠ 0)) :
    (truncDirectRound ino n i).run s = .done () s := by
  rw [truncDirectRound, run_bind_eq (run_getVnode hv) (if_neg h)]
  rfl

theorem run_truncDirectRound_free (hv : s.vnode? ino = some sv) {n : UInt32} {i : Fin 15}
    (h : n.toNat ≤ i ∧ sv.svI.sfiDirect i ≠ 0) :
    (∀ map, s.sfsFreemap.unmark (sv.svI.sfiDirect i) = some map →
      ∃ t, (truncDirectRound ino n i).run s = .done () t ∧
        Cut s t ino (sv.dirtied fun d => d.setDirect i 0) map) ∧
      (s.sfsFreemap.unmark (sv.svI.sfiDirect i) = none →
        ∃ p t, (truncDirectRound ino n i).run s = .halt (.panic p) t) := by
  rw [truncDirectRound, run_bind_eq (run_getVnode hv) (if_pos h)]
  constructor
  · intro map hmap
    rw [run_bind_of_done (run_bfree hmap)]
    exact ⟨_, rfl, (Cut.freed hv map).trans (Cut.dirtied (Cut.freed hv map).vnode _)⟩
  · intro hnone
    exact ⟨_, _, run_bind_of_halt (run_bfree_none hnone)⟩

theorem Dinode.cutDirect_cons_of_keep {d : Dinode} {n : ℕ} {i : Fin 15} (l : List (Fin 15))
    (h : ¬(n ≤ i ∧ d.sfiDirect i ≠ 0)) : d.cutDirect n (i :: l) = d.cutDirect n l := by
  refine Dinode.ext rfl rfl rfl (funext fun k => ?_) rfl rfl
  change (if _ then _ else _) = if _ then _ else _
  by_cases hk : k = i
  · subst hk
    by_cases hn : n ≤ k
    · have h0 : d.sfiDirect k = 0 := by
        by_contra h0
        exact h ⟨hn, h0⟩
      rw [h0, ite_self, ite_self]
    · rw [if_neg (fun hc => hn hc.2), if_neg (fun hc => hn hc.2)]
  · simp [hk]

theorem Dinode.cutDirect_cons_of_free {d : Dinode} {n : ℕ} {i : Fin 15} (l : List (Fin 15))
    (h : n ≤ i) : d.cutDirect n (i :: l) = (d.setDirect i 0).cutDirect n l := by
  refine Dinode.ext rfl rfl rfl (funext fun k => ?_) rfl rfl
  change (if _ then _ else _) = if _ then _ else Function.update d.sfiDirect i 0 k
  by_cases hk : k = i
  · subst hk
    rw [if_pos ⟨List.mem_cons_self, h⟩, Function.update_self, ite_self]
  · rw [Function.update_of_ne hk]
    simp [hk]

theorem Dinode.freedDirect_setDirect {d : Dinode} {n : ℕ} {i : Fin 15} {l : List (Fin 15)}
    (h : i ∉ l) : (d.setDirect i 0).freedDirect n l = d.freedDirect n l := by
  have hsame : ∀ k ∈ l, (d.setDirect i 0).sfiDirect k = d.sfiDirect k := fun k hk =>
    Function.update_of_ne (fun heq : k = i => h (heq ▸ hk)) _ _
  rw [freedDirect, freedDirect, List.filter_congr (q := fun k : Fin 15 => n ≤ k ∧ d.sfiDirect k ≠ 0)
    fun k hk => by rw [hsame k hk]]
  exact List.map_congr_left fun k hk => hsame k (List.mem_of_mem_filter hk)

/-- The loop over the direct blocks ends, unless a block to be freed cannot be given back. -/
theorem run_truncDirect_loop (n : UInt32) {l : List (Fin 15)} (hl : l.Nodup)
    (hv : s.vnode? ino = some sv) :
    (∀ map, s.sfsFreemap.unmarkAll (sv.svI.freedDirect n.toNat l) = some map →
      ∃ t sv', (l.foldlM (fun _ i => truncDirectRound ino n i) ()).run s = .done () t ∧
        Cut s t ino sv' map ∧ sv'.svI = sv.svI.cutDirect n.toNat l) ∧
      (s.sfsFreemap.unmarkAll (sv.svI.freedDirect n.toNat l) = none →
        ∃ p t, (l.foldlM (fun _ i => truncDirectRound ino n i) ()).run s = .halt (.panic p) t) := by
  induction l generalizing s sv with
  | nil =>
    refine ⟨fun map hmap => ?_, fun hnone => (by cases hnone)⟩
    obtain rfl := Option.some.inj hmap
    refine ⟨s, sv, rfl, Cut.refl hv, ?_⟩
    simp [Dinode.cutDirect]
  | cons i l ih =>
    obtain ⟨hi, hl⟩ := List.nodup_cons.mp hl
    rw [List.foldlM_cons]
    by_cases h : n.toNat ≤ i ∧ sv.svI.sfiDirect i ≠ 0
    · have hfreed : sv.svI.freedDirect n.toNat (i :: l) =
          sv.svI.sfiDirect i :: sv.svI.freedDirect n.toNat l := by
        rw [Dinode.freedDirect, List.filter_cons_of_pos (by simpa using h)]
        rfl
      obtain ⟨hsome, hnone⟩ := run_truncDirectRound_free hv h
      rw [hfreed, Bitmap.unmarkAll_cons, Dinode.cutDirect_cons_of_free l h.1]
      cases hmap : s.sfsFreemap.unmark (sv.svI.sfiDirect i) with
      | none =>
        obtain ⟨p, t, hrun⟩ := hnone hmap
        exact ⟨fun map hc => (by cases hc), fun _ => ⟨p, t, run_bind_of_halt hrun⟩⟩
      | some map1 =>
        obtain ⟨t, hrun, hcut⟩ := hsome map1 hmap
        have hrest := ih hl hcut.vnode
        change (∀ map, t.sfsFreemap.unmarkAll ((sv.svI.setDirect i 0).freedDirect n.toNat l) =
          some map → _) ∧ (t.sfsFreemap.unmarkAll ((sv.svI.setDirect i 0).freedDirect n.toNat l) =
          none → _) at hrest
        rw [Dinode.freedDirect_setDirect hi, hcut.freemap] at hrest
        rw [Option.bind_some, run_bind_of_done hrun]
        refine ⟨fun map hc => ?_, hrest.2⟩
        obtain ⟨u, sv', hrun', hcut', hinode⟩ := hrest.1 map hc
        exact ⟨u, sv', hrun', hcut.trans hcut', hinode⟩
    · have hfreed : sv.svI.freedDirect n.toNat (i :: l) = sv.svI.freedDirect n.toNat l := by
        rw [Dinode.freedDirect, List.filter_cons_of_neg (by simpa using h)]
        rfl
      rw [hfreed, Dinode.cutDirect_cons_of_keep l h,
        run_bind_of_done (run_truncDirectRound_keep hv h)]
      exact ih hl hv

/-! ### The indirect block -/

/-- The block numbers among the entries `l` that are past block `n`. -/
def freedEntries (n : ℕ) (e : Fin 128 → UInt32) (l : List (Fin 128)) : List UInt32 :=
  (l.filter fun j : Fin 128 => n < 15 + j ∧ e j ≠ 0).map e

/-- One round of the loop over the indirect block. -/
def truncIndirectRound (blocklen : UInt32) (acc : Trunc) (j : Fin 128) : Sk Trunc := do
  let acc ← if blocklen.toNat < 15 + j ∧ acc.idbuf j ≠ 0 then do
      bfree (acc.idbuf j)
      pure { acc with idbuf := Function.update acc.idbuf j 0, iddirty := true }
    else pure acc
  pure { acc with hasnonzero := acc.hasnonzero || acc.idbuf j ≠ 0 }

/-- What the loop over the entries `l` has done to what it keeps track of. -/
structure Scanned (n : ℕ) (l : List (Fin 128)) (acc acc' : Trunc) : Prop where
  idbuf : ∀ j, acc'.idbuf j = if j ∈ l ∧ n < 15 + j then 0 else acc.idbuf j
  hasnonzero : acc'.hasnonzero = true ↔ acc.hasnonzero = true ∨ ∃ j ∈ l, acc'.idbuf j ≠ 0
  iddirty : acc'.iddirty = true ↔ acc.iddirty = true ∨ freedEntries n acc.idbuf l ≠ []

theorem run_truncIndirectRound_keep {n : UInt32} {acc : Trunc} {j : Fin 128}
    (h : ¬(n.toNat < 15 + j ∧ acc.idbuf j ≠ 0)) : (truncIndirectRound n acc j).run s =
      .done { acc with hasnonzero := acc.hasnonzero || acc.idbuf j ≠ 0 } s := by
  rw [truncIndirectRound, if_neg h]
  rfl

theorem run_truncIndirectRound_free {n : UInt32} {acc : Trunc} {j : Fin 128}
    (h : n.toNat < 15 + j ∧ acc.idbuf j ≠ 0) :
    (∀ map, s.sfsFreemap.unmark (acc.idbuf j) = some map →
      (truncIndirectRound n acc j).run s =
        .done { acc with idbuf := Function.update acc.idbuf j 0, iddirty := true }
          { s with sfsFreemap := map, sfsFreemapdirty := true }) ∧
      (s.sfsFreemap.unmark (acc.idbuf j) = none →
        ∃ p t, (truncIndirectRound n acc j).run s = .halt (.panic p) t) := by
  rw [truncIndirectRound, if_pos h]
  constructor
  · intro map hmap
    refine (run_bind_of_done (run_bfree hmap)).trans ?_
    rw [pure_bind, run_pure]
    simp
  · intro hnone
    exact ⟨_, _, run_bind_of_halt (run_bfree_none hnone)⟩

/-- One more entry, which stays as it is. -/
theorem Scanned.cons_keep {n : ℕ} {j : Fin 128} {l : List (Fin 128)} {acc acc' : Trunc}
    (hj : j ∉ l) (h : ¬(n < 15 + j ∧ acc.idbuf j ≠ 0))
    (hrest : Scanned n l { acc with hasnonzero := acc.hasnonzero || acc.idbuf j ≠ 0 } acc') :
    Scanned n (j :: l) acc acc' := by
  have hsame : acc'.idbuf j = acc.idbuf j := by
    rw [hrest.idbuf j, if_neg fun hc => hj hc.1]
  refine ⟨fun k => ?_, ?_, ?_⟩
  · by_cases hk : k = j
    · subst hk
      rw [hsame]
      by_cases hn : n < 15 + k
      · have h0 : acc.idbuf k = 0 := by
          by_contra h0
          exact h ⟨hn, h0⟩
        rw [h0, ite_self]
      · rw [if_neg fun hc => hn hc.2]
    · rw [hrest.idbuf k]
      simp [hk]
  · rw [hrest.hasnonzero, List.exists_mem_cons_iff, hsame]
    simp [or_assoc]
  · have hfreed : freedEntries n acc.idbuf (j :: l) = freedEntries n acc.idbuf l := by
      rw [freedEntries, List.filter_cons_of_neg (by simpa using h)]
      rfl
    rw [hfreed]
    exact hrest.iddirty

theorem freedEntries_update {n : ℕ} {e : Fin 128 → UInt32} {j : Fin 128} {l : List (Fin 128)}
    (h : j ∉ l) : freedEntries n (Function.update e j 0) l = freedEntries n e l := by
  have hsame : ∀ k ∈ l, Function.update e j 0 k = e k := fun k hk =>
    Function.update_of_ne (fun heq : k = j => h (heq ▸ hk)) _ _
  rw [freedEntries, freedEntries, List.filter_congr (q := fun k : Fin 128 => n < 15 + k ∧ e k ≠ 0)
    fun k hk => by rw [hsame k hk]]
  exact List.map_congr_left fun k hk => hsame k (List.mem_of_mem_filter hk)

theorem freedEntries_cons_of_free {n : ℕ} {e : Fin 128 → UInt32} {j : Fin 128} (l : List (Fin 128))
    (h : n < 15 + j ∧ e j ≠ 0) : freedEntries n e (j :: l) = e j :: freedEntries n e l := by
  rw [freedEntries, List.filter_cons_of_pos (by simpa using h)]
  rfl

/-- One more entry, which is freed. -/
theorem Scanned.cons_free {n : ℕ} {j : Fin 128} {l : List (Fin 128)} {acc acc' : Trunc}
    (hj : j ∉ l) (h : n < 15 + j ∧ acc.idbuf j ≠ 0)
    (hrest : Scanned n l
      { acc with idbuf := Function.update acc.idbuf j 0, iddirty := true } acc') :
    Scanned n (j :: l) acc acc' := by
  have hzero : acc'.idbuf j = 0 := by
    rw [hrest.idbuf j, if_neg fun hc => hj hc.1]
    exact Function.update_self j 0 acc.idbuf
  refine ⟨fun k => ?_, ?_, ?_⟩
  · by_cases hk : k = j
    · subst hk
      rw [hzero, if_pos ⟨List.mem_cons_self, h.1⟩]
    · rw [hrest.idbuf k]
      dsimp only
      rw [Function.update_of_ne hk]
      simp [hk]
  · rw [hrest.hasnonzero, List.exists_mem_cons_iff, hzero]
    simp
  · rw [hrest.iddirty, freedEntries_cons_of_free l h]
    simp

/-- The loop over the indirect block ends, unless a block to be freed cannot be given back. -/
theorem run_truncIndirect_loop (n : UInt32) {l : List (Fin 128)} (hl : l.Nodup) (acc : Trunc)
    (hv : s.vnode? ino = some sv) :
    (∀ map, s.sfsFreemap.unmarkAll (freedEntries n.toNat acc.idbuf l) = some map →
      ∃ t acc', (l.foldlM (truncIndirectRound n) acc).run s = .done acc' t ∧
        Cut s t ino sv map ∧ Scanned n.toNat l acc acc') ∧
      (s.sfsFreemap.unmarkAll (freedEntries n.toNat acc.idbuf l) = none →
        ∃ p t, (l.foldlM (truncIndirectRound n) acc).run s = .halt (.panic p) t) := by
  induction l generalizing s acc with
  | nil =>
    refine ⟨fun map hmap => ?_, fun hnone => (by cases hnone)⟩
    obtain rfl := Option.some.inj hmap
    exact ⟨s, acc, rfl, Cut.refl hv, by simp, by simp, by simp [freedEntries]⟩
  | cons j l ih =>
    obtain ⟨hj, hl⟩ := List.nodup_cons.mp hl
    rw [List.foldlM_cons]
    by_cases h : n.toNat < 15 + j ∧ acc.idbuf j ≠ 0
    · obtain ⟨hsome, hnone⟩ := run_truncIndirectRound_free (s := s) h
      rw [freedEntries_cons_of_free l h, Bitmap.unmarkAll_cons]
      cases hmap : s.sfsFreemap.unmark (acc.idbuf j) with
      | none =>
        obtain ⟨p, t, hrun⟩ := hnone hmap
        exact ⟨fun map hc => (by cases hc), fun _ => ⟨p, t, run_bind_of_halt hrun⟩⟩
      | some map1 =>
        have hcut := Cut.freed hv map1
        have hrest := ih (s := { s with sfsFreemap := map1, sfsFreemapdirty := true }) hl
          ⟨Function.update acc.idbuf j 0, acc.hasnonzero, true⟩ hv
        rw [freedEntries_update hj] at hrest
        rw [Option.bind_some, run_bind_of_done (hsome map1 hmap)]
        refine ⟨fun map hc => ?_, hrest.2⟩
        obtain ⟨u, acc', hrun', hcut', hscan⟩ := hrest.1 map hc
        exact ⟨u, acc', hrun', hcut.trans hcut', hscan.cons_free hj h⟩
    · have hfreed : freedEntries n.toNat acc.idbuf (j :: l) = freedEntries n.toNat acc.idbuf l := by
        rw [freedEntries, List.filter_cons_of_neg (by simpa using h)]
        rfl
      rw [hfreed, run_bind_of_done (run_truncIndirectRound_keep h)]
      obtain ⟨hsome, hnone⟩ := ih hl
        ⟨acc.idbuf, acc.hasnonzero || acc.idbuf j ≠ 0, acc.iddirty⟩ hv
      refine ⟨fun map hmap => ?_, hnone⟩
      obtain ⟨u, acc', hrun', hcut', hscan⟩ := hsome map hmap
      exact ⟨u, acc', hrun', hcut', hscan.cons_keep hj h⟩

/-! ### The whole of it -/

/-- The entries of an indirect block that are kept. -/
def keptEntries (n : ℕ) (e : Fin 128 → UInt32) : Fin 128 → UInt32 :=
  fun j => if n < 15 + j then 0 else e j

/-- The blocks that are freed on behalf of the indirect block `idblock` with entries `e`. -/
def freedIndirect (n : ℕ) (idblock : UInt32) (e : Fin 128 → UInt32) : List UInt32 :=
  freedEntries n e (List.finRange 128) ++ if ∀ j, keptEntries n e j = 0 then [idblock] else []

/-- The end of `sfs_itrunc`. -/
def setSize (ino : UInt32) (len : ℤ) : Sk Unit :=
  modifyInode ino fun d => { d with sfiSize := UInt32.ofInt len }

/-- `sfs_itrunc` from the loop over the indirect block on. -/
def truncScan (ino idblock : UInt32) (len : ℤ) (b : Block) : Sk Unit :=
  truncIndirect (blocklen len) (indirectOf b) >>= fun r =>
    if r.hasnonzero = false then
      bfree idblock >>= fun _ => modifyInode ino (fun d => { d with sfiIndirect := 0 }) >>= fun _ =>
        setSize ino len
    else when (r.iddirty = true) (writeblock idblock (indirectBlock r.idbuf)) >>= fun _ =>
      setSize ino len

theorem itrunc_eq (ino : UInt32) (len : ℤ) : itrunc ino len =
    (List.finRange 15).foldlM (fun _ i => truncDirectRound ino (blocklen len) i) () >>= fun _ =>
      getVnode ino >>= fun sv =>
        if (blocklen len).toNat < 142 ∧ sv.svI.sfiIndirect ≠ 0 then
          readblock sv.svI.sfiIndirect >>= fun b => truncScan ino sv.svI.sfiIndirect len b
        else setSize ino len := rfl

theorem truncIndirect_eq (n : UInt32) (idbuf : Fin 128 → UInt32) : truncIndirect n idbuf =
    (List.finRange 128).foldlM (truncIndirectRound n) ⟨idbuf, false, false⟩ := rfl

/-- From `s` to `t` the inode has become `d'`, the freemap `map`, and the disk `disk`. -/
structure Shortened (s t : State) (ino : UInt32) (d' : Dinode) (map : Bitmap) (disk : Disk) :
    Prop where
  vnode : ∃ sv', t.vnode? ino = some sv' ∧ sv'.svI = d'
  others : ∀ j, j ≠ ino → t.vnode? j = s.vnode? j
  freemap : t.sfsFreemap = map
  disk : t.disk = disk
  mount : t.mount = s.mount

/-- The indirect block has been written back, if it had to be and the disk has done so. -/
def writtenBack (n : ℕ) (idblock : UInt32) (e : Fin 128 → UInt32) (ok : Bool) (disk : Disk) :
    Disk :=
  if (∃ j, keptEntries n e j ≠ 0) ∧ freedEntries n e (List.finRange 128) ≠ [] ∧ ok = true then
    Function.update disk idblock (indirectBlock (keptEntries n e))
  else disk

/-- The indirect pointer once the entries past block `n` are gone. -/
def keptIndirect (n : ℕ) (idblock : UInt32) (e : Fin 128 → UInt32) : UInt32 :=
  if ∀ j, keptEntries n e j = 0 then 0 else idblock

theorem Scanned.all {n : ℕ} {e : Fin 128 → UInt32} {r : Trunc}
    (h : Scanned n (List.finRange 128) ⟨e, false, false⟩ r) : r.idbuf = keptEntries n e ∧
      (r.hasnonzero = false ↔ ∀ j, keptEntries n e j = 0) ∧
      (r.iddirty = true ↔ freedEntries n e (List.finRange 128) ≠ []) := by
  have hbuf : r.idbuf = keptEntries n e := by
    funext j
    rw [h.idbuf j, keptEntries]
    simp
  refine ⟨hbuf, ?_, ?_⟩
  · have hnonzero := h.hasnonzero
    rw [hbuf] at hnonzero
    rw [← Bool.not_eq_true, hnonzero]
    simp
  · rw [h.iddirty]
    simp

/-- The end of a run that scans the indirect block. -/
theorem run_truncScan (hv : s.vnode? ino = some sv) {idblock : UInt32}
    (hd : ¬s.mount.dBlocks < idblock + 1) (hind : sv.svI.sfiIndirect = idblock) (len : ℤ)
    (b : Block) :
    (∀ map, s.sfsFreemap.unmarkAll (freedIndirect (blocklen len).toNat idblock (indirectOf b)) =
      some map → ∃ t k, (truncScan ino idblock len b).run s = .done () t ∧
        Shortened s t ino { sv.svI with
            sfiIndirect := keptIndirect (blocklen len).toNat idblock (indirectOf b)
            sfiSize := UInt32.ofInt len } map
          (writtenBack (blocklen len).toNat idblock (indirectOf b)
            (s.mount.world.media .write k) s.disk)) ∧
      (s.sfsFreemap.unmarkAll (freedIndirect (blocklen len).toNat idblock (indirectOf b)) = none →
        ∃ p t, (truncScan ino idblock len b).run s = .halt (.panic p) t) := by
  obtain ⟨hsome, hnone⟩ := run_truncIndirect_loop (blocklen len) (List.nodup_finRange 128)
    ⟨indirectOf b, false, false⟩ hv
  dsimp only at hsome hnone
  rw [truncScan, truncIndirect_eq, freedIndirect, Bitmap.unmarkAll_append]
  cases hmap : s.sfsFreemap.unmarkAll
      (freedEntries (blocklen len).toNat (indirectOf b) (List.finRange 128)) with
  | none =>
    obtain ⟨p, t, hrun⟩ := hnone hmap
    exact ⟨fun map hc => (by cases hc), fun _ => ⟨p, t, run_bind_of_halt hrun⟩⟩
  | some map1 =>
    obtain ⟨t, r, hrun, hcut, hscan⟩ := hsome map1 hmap
    obtain ⟨hbuf, hzero, hdirty⟩ := hscan.all
    rw [Option.bind_some]
    by_cases hall : ∀ j, keptEntries (blocklen len).toNat (indirectOf b) j = 0
    · -- the indirect block is empty now and goes as well
      rw [if_pos hall, Bitmap.unmarkAll_cons, run_bind_eq hrun (if_pos (hzero.mpr hall)),
        keptIndirect, if_pos hall]
      cases hfree : map1.unmark idblock with
      | none =>
        rw [← hcut.freemap] at hfree
        exact ⟨fun map hc => (by cases hc), fun _ =>
          ⟨_, _, run_bind_of_halt (run_bfree_none hfree)⟩⟩
      | some map2 =>
        rw [← hcut.freemap] at hfree
        refine ⟨fun map hc => ?_, fun hc => (by cases hc)⟩
        obtain rfl := Option.some.inj hc
        have hfreed := hcut.trans (Cut.freed hcut.vnode map2)
        have hcleared := hfreed.trans
          (Cut.dirtied hfreed.vnode fun d => { d with sfiIndirect := 0 })
        have hsized := hcleared.trans
          (Cut.dirtied hcleared.vnode fun d => { d with sfiSize := UInt32.ofInt len })
        refine ⟨_, 0, run_bind_of_done (run_bfree hfree), ⟨_, hsized.vnode, rfl⟩, hsized.others,
          hsized.freemap, ?_, hsized.mount⟩
        rw [writtenBack, if_neg fun hc => hc.1.elim fun j hj => hj (hall j)]
        exact hsized.disk
    · rw [if_neg hall, Bitmap.unmarkAll_nil, keptIndirect, if_neg hall,
        run_bind_eq hrun (if_neg fun hc => hall (hzero.mp hc))]
      refine ⟨fun map hc => ?_, fun hc => (by cases hc)⟩
      obtain rfl := Option.some.inj hc
      have hex : ∃ j, keptEntries (blocklen len).toNat (indirectOf b) j ≠ 0 := by
        push Not at hall
        exact hall
      have hinode : { sv.svI with sfiIndirect := idblock, sfiSize := UInt32.ofInt len } =
          { sv.svI with sfiSize := UInt32.ofInt len } := by rw [← hind]
      rw [hinode]
      by_cases hwrite : freedEntries (blocklen len).toNat (indirectOf b) (List.finRange 128) = []
      · rw [when, if_neg fun hc => hdirty.mp hc hwrite]
        have hsized := hcut.trans
          (Cut.dirtied hcut.vnode fun d => { d with sfiSize := UInt32.ofInt len })
        refine ⟨_, 0, rfl, ⟨_, hsized.vnode, rfl⟩, hsized.others,
          hsized.freemap.trans hcut.freemap, ?_, hsized.mount⟩
        rw [writtenBack, if_neg fun hc => hc.2.1 hwrite]
        exact hsized.disk
      · have hd' : ¬t.mount.dBlocks < idblock + 1 := by rwa [hcut.mount]
        rw [when, if_pos (hdirty.mpr hwrite), run_bind_of_done (run_writeblock_fits hd' _)]
        refine ⟨_, t.writes, rfl, ⟨_, vnode?_dirtied _ hcut.vnode, rfl⟩,
          fun j hj => (vnode?_dirtied_of_ne _ hj).trans (hcut.others j hj), hcut.freemap, ?_,
          hcut.mount⟩
        change t.written idblock (indirectBlock r.idbuf) = _
        rw [State.written, writtenBack, hbuf, hcut.disk, hcut.mount]
        simp only [hex, hwrite, ne_eq, not_false_eq_true, true_and]

/-- `sfs_itrunc` to `n` blocks looks at the indirect block. -/
def Dinode.Scans (d : Dinode) (n : ℕ) : Prop := n < 142 ∧ d.sfiIndirect ≠ 0

instance (d : Dinode) (n : ℕ) : Decidable (d.Scans n) := inferInstanceAs (Decidable (_ ∧ _))

/-- The blocks `sfs_itrunc` to `n` blocks frees, in order. -/
def Dinode.freed (d : Dinode) (disk : Disk) (n : ℕ) : List UInt32 :=
  d.freedDirect n (List.finRange 15) ++
    if d.Scans n then freedIndirect n d.sfiIndirect (indirectOf (disk d.sfiIndirect)) else []

/-- The inode `sfs_itrunc` leaves. -/
def Dinode.shortened (d : Dinode) (disk : Disk) (n : ℕ) (size : UInt32) : Dinode :=
  { d.cutDirect n (List.finRange 15) with
    sfiIndirect :=
      if d.Scans n then keptIndirect n d.sfiIndirect (indirectOf (disk d.sfiIndirect))
      else d.sfiIndirect
    sfiSize := size }

/-- The disk `sfs_itrunc` leaves, if `ok` says whether it carries out the write. -/
def Dinode.shortenedDisk (d : Dinode) (n : ℕ) (ok : Bool) (disk : Disk) : Disk :=
  if d.Scans n then writtenBack n d.sfiIndirect (indirectOf (disk d.sfiIndirect)) ok disk else disk

/-- How a run of `sfs_itrunc` ends. -/
inductive TruncEnd (s : State) (ino : UInt32) (d : Dinode) (len : ℤ) :
    Outcome Stop State Unit → Prop
  /-- The file has been shortened. -/
  | done {t : State} {map : Bitmap} (k : ℕ)
      (hscan : d.Scans (blocklen len).toNat →
        ¬s.mount.dBlocks < d.sfiIndirect + 1 ∧ ¬s.ReadFails)
      (hmap : s.sfsFreemap.unmarkAll (d.freed s.disk (blocklen len).toNat) = some map)
      (h : Shortened s t ino (d.shortened s.disk (blocklen len).toNat (UInt32.ofInt len)) map
        (d.shortenedDisk (blocklen len).toNat (s.mount.world.media .write k) s.disk)) :
      TruncEnd s ino d len (.done () t)
  /-- The indirect block cannot be read; the direct blocks have been freed. -/
  | failed {t : State} {map : Bitmap} (hscan : d.Scans (blocklen len).toNat)
      (hd : ¬s.mount.dBlocks < d.sfiIndirect + 1) (hread : s.ReadFails)
      (hmap : s.sfsFreemap.unmarkAll (d.freedDirect (blocklen len).toNat (List.finRange 15)) =
        some map)
      (h : Shortened s t ino (d.cutDirect (blocklen len).toNat (List.finRange 15)) map s.disk) :
      TruncEnd s ino d len (.halt (.fail .eio) t)
  /-- The indirect block is past the end of the disk. -/
  | past {p : Panic} {t : State} (hscan : d.Scans (blocklen len).toNat)
      (hd : s.mount.dBlocks < d.sfiIndirect + 1) : TruncEnd s ino d len (.halt (.panic p) t)
  /-- One of the direct blocks cannot be given back. -/
  | direct {p : Panic} {t : State}
      (hmap : s.sfsFreemap.unmarkAll (d.freedDirect (blocklen len).toNat (List.finRange 15)) =
        none) : TruncEnd s ino d len (.halt (.panic p) t)
  /-- One of the other blocks cannot be given back. -/
  | indirect {p : Panic} {t : State} (hread : ¬s.ReadFails)
      (hmap : s.sfsFreemap.unmarkAll (d.freed s.disk (blocklen len).toNat) = none) :
      TruncEnd s ino d len (.halt (.panic p) t)

/-- The part from the loop over the indirect block on, run from a state `u` in which the direct
blocks have been freed. -/
theorem TruncEnd.of_scan {d : Dinode} {len : ℤ} {map1 : Bitmap} {u : State}
    (hscan : d.Scans (blocklen len).toNat) (hd : ¬s.mount.dBlocks < d.sfiIndirect + 1)
    (hread : ¬s.ReadFails)
    (hmap : s.sfsFreemap.unmarkAll (d.freedDirect (blocklen len).toNat (List.finRange 15)) =
      some map1)
    (hu : Shortened s u ino (d.cutDirect (blocklen len).toNat (List.finRange 15)) map1 s.disk) :
    TruncEnd s ino d len
      ((truncScan ino d.sfiIndirect len (s.disk d.sfiIndirect)).run u) := by
  obtain ⟨sv', hvnode, hinode⟩ := hu.vnode
  have hind : sv'.svI.sfiIndirect = d.sfiIndirect := by
    rw [hinode]
    rfl
  obtain ⟨hsome, hnone⟩ := run_truncScan hvnode (by rwa [hu.mount]) hind len (s.disk d.sfiIndirect)
  have hfreed : s.sfsFreemap.unmarkAll (d.freed s.disk (blocklen len).toNat) =
      u.sfsFreemap.unmarkAll (freedIndirect (blocklen len).toNat d.sfiIndirect
        (indirectOf (s.disk d.sfiIndirect))) := by
    rw [Dinode.freed, if_pos hscan, Bitmap.unmarkAll_append, hmap, Option.bind_some, hu.freemap]
  cases hall : s.sfsFreemap.unmarkAll (d.freed s.disk (blocklen len).toNat) with
  | none =>
    obtain ⟨p, t, hrun⟩ := hnone (hfreed.symm.trans hall)
    rw [hrun]
    exact .indirect hread hall
  | some map =>
    obtain ⟨t, k, hrun, ht⟩ := hsome map (hfreed.symm.trans hall)
    obtain ⟨sv'', hvnode', hinode'⟩ := ht.vnode
    rw [hrun]
    refine .done k (fun _ => ⟨hd, hread⟩) hall ⟨⟨sv'', hvnode', ?_⟩,
      fun j hj => (ht.others j hj).trans (hu.others j hj), ht.freemap, ?_, ht.mount.trans hu.mount⟩
    · rw [hinode', Dinode.shortened, if_pos hscan, hinode]
    · rw [ht.disk, Dinode.shortenedDisk, if_pos hscan, hu.disk, hu.mount]

/-- **How `sfs_itrunc` ends**, for every file and every length. -/
theorem itrunc_cases (hv : s.vnode? ino = some sv) (len : ℤ) :
    TruncEnd s ino sv.svI len ((itrunc ino len).run s) := by
  obtain ⟨hsome, hnone⟩ := run_truncDirect_loop (blocklen len) (List.nodup_finRange 15) hv
  rw [itrunc_eq]
  cases hmap : s.sfsFreemap.unmarkAll
      (sv.svI.freedDirect (blocklen len).toNat (List.finRange 15)) with
  | none =>
    obtain ⟨p, t, hrun⟩ := hnone hmap
    rw [run_bind_of_halt hrun]
    exact .direct hmap
  | some map1 =>
    obtain ⟨t, sv', hrun, hcut, hinode⟩ := hsome map1 hmap
    have hind : sv'.svI.sfiIndirect = sv.svI.sfiIndirect := by
      rw [hinode]
      rfl
    rw [run_bind_of_done hrun]
    by_cases hscan : sv.svI.Scans (blocklen len).toNat
    · rw [run_bind_eq (run_getVnode hcut.vnode) (if_pos (by rw [hind]; exact hscan)), hind]
      by_cases hd : s.mount.dBlocks < sv.svI.sfiIndirect + 1
      · have hread := run_readblock_past
          (show t.mount.dBlocks < sv.svI.sfiIndirect + 1 by rwa [hcut.mount])
        rw [run_bind_of_halt hread]
        exact .past hscan hd
      · have hfails : t.ReadFails ↔ s.ReadFails := by
          rw [State.ReadFails, State.ReadFails, State.Unread, State.Unread, hcut.tick, hcut.mount]
        rcases run_readblock_fits
            (show ¬t.mount.dBlocks < sv.svI.sfiIndirect + 1 by rwa [hcut.mount]) with
          ⟨k, hk, hread⟩ | ⟨k, hk, hread⟩
        · rw [hfails] at hread
          rw [run_bind_eq hk rfl, hcut.disk]
          exact .of_scan hscan hd hread hmap
            ⟨⟨sv', hcut.vnode, hinode⟩, hcut.others, hcut.freemap, rfl, hcut.mount⟩
        · rw [hfails] at hread
          rw [run_bind_of_halt hk]
          exact .failed hscan hd hread hmap
            ⟨⟨sv', hcut.vnode, hinode⟩, hcut.others, hcut.freemap, hcut.disk, hcut.mount⟩
    · rw [run_bind_eq (run_getVnode hcut.vnode) (if_neg (by rw [hind]; exact hscan))]
      have hsized := hcut.trans
        (Cut.dirtied hcut.vnode fun d => { d with sfiSize := UInt32.ofInt len })
      refine .done 0 (fun hc => absurd hc hscan) ?_
        ⟨⟨_, hsized.vnode, ?_⟩, hsized.others, hcut.freemap, ?_, hsized.mount⟩
      · rw [Dinode.freed, if_neg hscan, List.append_nil, hmap]
      · rw [Dinode.shortened, if_neg hscan]
        change { sv'.svI with sfiSize := UInt32.ofInt len } = _
        rw [hinode]
        rfl
      · rw [Dinode.shortenedDisk, if_neg hscan]
        exact hsized.disk

/-! ### What is freed, place by place -/

/-- The place `p` is one that `sfs_itrunc` to `n` blocks gives up. -/
def Dinode.Cuts (d : Dinode) (disk : Disk) (n : ℕ) : Ptr → Prop
  | .direct i => n ≤ i ∧ d.sfiDirect i ≠ 0
  | .indirect => d.Scans n ∧ ∀ j, keptEntries n (indirectAt disk d) j = 0
  | .entry j => d.Scans n ∧ n < 15 + j ∧ indirectAt disk d j ≠ 0

/-- The places `sfs_itrunc` to `n` blocks gives up, in order. -/
def Dinode.cutPtrs (d : Dinode) (disk : Disk) (n : ℕ) : List Ptr :=
  ((List.finRange 15).filter fun i : Fin 15 => n ≤ i ∧ d.sfiDirect i ≠ 0).map .direct ++
    if d.Scans n then
      ((List.finRange 128).filter fun j : Fin 128 => n < 15 + j ∧ indirectAt disk d j ≠ 0).map
          .entry ++
        if ∀ j, keptEntries n (indirectAt disk d) j = 0 then [.indirect] else []
    else []

theorem Dinode.Scans.indirectAt {d : Dinode} {n : ℕ} (h : d.Scans n) (disk : Disk) :
    indirectAt disk d = indirectOf (disk d.sfiIndirect) := if_neg h.2

theorem Dinode.mem_cutPtrs_iff {d : Dinode} {disk : Disk} {n : ℕ} {p : Ptr} :
    p ∈ d.cutPtrs disk n ↔ d.Cuts disk n p := by
  rw [cutPtrs, List.mem_append]
  by_cases hscan : d.Scans n
  · rw [if_pos hscan, List.mem_append]
    cases p with
    | direct i => by_cases hall : ∀ j, keptEntries n (indirectAt disk d) j = 0 <;> simp [Cuts, hall]
    | indirect =>
      by_cases hall : ∀ j, keptEntries n (indirectAt disk d) j = 0 <;> simp [Cuts, hscan, hall]
    | entry j =>
      by_cases hall : ∀ j, keptEntries n (indirectAt disk d) j = 0 <;> simp [Cuts, hscan, hall]
  · rw [if_neg hscan]
    cases p <;> simp [Cuts, hscan]

theorem Dinode.nodup_cutPtrs (d : Dinode) (disk : Disk) (n : ℕ) : (d.cutPtrs disk n).Nodup := by
  have hdirect : (((List.finRange 15).filter fun i : Fin 15 => n ≤ i ∧ d.sfiDirect i ≠ 0).map
      Ptr.direct).Nodup :=
    ((List.nodup_finRange 15).filter _).map fun _ _ h => Ptr.direct.inj h
  have hentry : (((List.finRange 128).filter fun j : Fin 128 =>
      n < 15 + j ∧ indirectAt disk d j ≠ 0).map Ptr.entry).Nodup :=
    ((List.nodup_finRange 128).filter _).map fun _ _ h => Ptr.entry.inj h
  rw [cutPtrs]
  refine hdirect.append ?_ ?_
  · split
    · refine hentry.append ?_ ?_
      · split <;> simp
      · intro p hp hp'
        obtain ⟨j, -, rfl⟩ := List.mem_map.mp hp
        split at hp' <;> simp at hp'
    · exact List.nodup_nil
  · intro p hp hp'
    obtain ⟨i, -, rfl⟩ := List.mem_map.mp hp
    split at hp'
    · rcases List.mem_append.mp hp' with h | h
      · simp at h
      · split at h <;> simp at h
    · cases hp'

theorem Dinode.freed_eq (d : Dinode) (disk : Disk) (n : ℕ) :
    d.freed disk n = (d.cutPtrs disk n).map (d.pointer disk) := by
  rw [freed, cutPtrs, List.map_append, List.map_map]
  congr 1
  by_cases hscan : d.Scans n
  · rw [if_pos hscan, if_pos hscan, freedIndirect, List.map_append, List.map_map,
      hscan.indirectAt disk]
    congr 1
    · exact congrArg (fun e => List.map e _) (hscan.indirectAt disk).symm
    · split <;> rfl
  · rw [if_neg hscan, if_neg hscan]
    rfl

/-- The freed blocks are in different places of the file, and all of them are in use. -/
def State.GivesBack (s : State) (d : Dinode) (n : ℕ) : Prop :=
  (∀ p q, d.Cuts s.disk n p → d.Cuts s.disk n q → d.pointer s.disk p = d.pointer s.disk q → p = q) ∧
    ∀ p, d.Cuts s.disk n p → d.pointer s.disk p < s.sfsFreemap.nbits ∧
      s.sfsFreemap.isset (d.pointer s.disk p) = true

/-- The blocks can be freed. -/
theorem State.givesBack_iff (s : State) (d : Dinode) (n : ℕ) :
    s.GivesBack d n ↔ ∃ map, s.sfsFreemap.unmarkAll (d.freed s.disk n) = some map := by
  rw [Bitmap.unmarkAll_eq_some_iff, Dinode.freed_eq,
    List.nodup_map_iff_inj_on (d.nodup_cutPtrs s.disk n), List.forall_mem_map, GivesBack]
  simp only [Dinode.mem_cutPtrs_iff]
  constructor
  · rintro ⟨hinj, hall⟩
    exact ⟨fun p hp q hq => hinj p q hp hq, hall⟩
  · rintro ⟨hinj, hall⟩
    exact ⟨fun p q hp hq => hinj p hp q hq, hall⟩

/-- What is in use afterwards. -/
theorem isset_of_freed {d : Dinode} {n : ℕ}
    (h : s.sfsFreemap.unmarkAll (d.freed s.disk n) = some map) (block : UInt32) :
    map.isset block = true ↔ s.sfsFreemap.isset block = true ∧
      ∀ p, d.Cuts s.disk n p → d.pointer s.disk p ≠ block := by
  rw [Bitmap.isset_unmarkAll_iff h, Dinode.freed_eq, List.mem_map]
  simp only [Dinode.mem_cutPtrs_iff, not_exists, not_and]

end Truncate

end Sfs

end Os161
