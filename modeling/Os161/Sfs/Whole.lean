import Os161.Sfs.Transfer

/-!
# `sfs_io`

A whole transfer: a leading part up to a block boundary, whole blocks, and a trailing part. `Parts`
is what has to be known about the parts, and `Parts.wp_ioBody` puts them together once for both
directions.

A write of no bytes into the middle of a block makes that block present (`State.lead`); any other
write makes present only what it writes to.

## Main results

* `Parts.wp_ioBody` — a transfer is its parts one after the other
* `wp_io_write`, `wp_io_read` — what `sfs_io` moves, and the size of the file
-/

namespace Os161

namespace Sfs

open Prog

/-! ### A transfer in parts -/

/-- The second part of `sfs_io`, from a block boundary on. -/
def ioRest (ino : UInt32) : Sk Unit := do
  let s ← get
  if s.uio.uioResid = 0 then pure ()
  else do
    kassert (s.uio.uioOffset % 512 = 0) .unaligned
    (List.range (s.uio.uioResid / 512).toNat).foldlM (fun _ _ => blockio ino) ()
    let s ← get
    kassert (s.uio.uioResid < 512) .restResid
    when (0 < s.uio.uioResid) (partialio ino 0 s.uio.uioResid)

theorem ioBody_eq (ino : UInt32) : ioBody ino = (do
    let s ← get
    let blkoff := UInt32.ofNat (s.uio.uioOffset % 512)
    when (blkoff ≠ 0) (partialio ino blkoff
      (if s.uio.uioResid < 512 - blkoff then s.uio.uioResid else 512 - blkoff))
    ioRest ino) := rfl

/-- The first part of `sfs_io`, and the first `n` whole blocks. -/
def ioUpTo (ino : UInt32) (n : ℕ) : Sk Unit := do
  let s ← get
  let blkoff := UInt32.ofNat (s.uio.uioOffset % 512)
  when (blkoff ≠ 0) (partialio ino blkoff
    (if s.uio.uioResid < 512 - blkoff then s.uio.uioResid else 512 - blkoff))
  (List.range n).foldlM (fun _ _ => blockio ino) ()

/-- Where a transfer from `s` comes to a whole block, `N` holds. -/
def State.AtBlocks (s : State) (ino : UInt32) (N : State → Prop) : Prop :=
  ∀ n < s.uio.uioResid.toNat / 512, ∀ t, (ioUpTo ino n).run s = .done () t →
    512 ≤ t.uio.uioResid.toNat → N t

/-- What is known about the parts a transfer is cut into. `P` is what they need, and a whole block
needs `N` as well; `Ok s t c` says that `c` bytes have been moved from `s` to `t`, and `Bad s` how a
part that starts in `s` may stop. -/
structure Parts (W : Watch fsGrowth) (ino : UInt32) (P N : State → Prop)
    (Ok : State → State → ℕ → Prop) (Bad : State → Stop → State → Prop) : Prop where
  zero : ∀ {s}, P s → Ok s s 0
  trans : ∀ {s m t c c'}, P s → Ok s m c → Ok m t c' → Ok s t (c + c')
  uio : ∀ {s t c}, Ok s t c → Uio.Advanced s.uio t.uio c
  keep : ∀ {s t c}, P s → Ok s t c → P t
  after : ∀ {s m e t c}, P s → Ok s m c → Bad m e t → Bad s e t
  part : ∀ {s} {skipstart len : UInt32}, P s → skipstart.toNat = s.uio.uioOffset % 512 →
    skipstart.toNat + len.toNat ≤ 512 → len.toNat ≤ s.uio.uioResid.toNat → 0 < len.toNat →
    wp W (partialio ino skipstart len) (fun _ t => Ok s t len.toNat) (Bad s) s
  block : ∀ {s}, P s → N s → s.uio.uioOffset % 512 = 0 → 512 ≤ s.uio.uioResid.toNat →
    wp W (blockio ino) (fun _ t => Ok s t 512) (Bad s) s

section Parts

variable {W : Watch fsGrowth} {E : Stop → State → Prop} {s : State} {ino : UInt32}
  {P N : State → Prop} {Ok : State → State → ℕ → Prop} {Bad : State → Stop → State → Prop}

/-- The whole blocks. -/
theorem Parts.wp_blocks (H : Parts W ino P N Ok Bad) (h : P s)
    (halign : s.uio.uioOffset % 512 = 0) {n : ℕ} (hn : 512 * n ≤ s.uio.uioResid.toNat)
    (hblocks : ∀ i < n, ∀ t, ((List.range i).foldlM (fun _ _ => blockio ino) ()).run s =
      .done () t → 512 ≤ t.uio.uioResid.toNat → N t) :
    wp W ((List.range n).foldlM (fun _ _ => blockio ino) ()) (fun _ t => Ok s t (512 * n))
      (Bad s) s := by
  refine wp_foldlM_range_ran (fun i _ t => Ok s t (512 * i)) (H.zero h) fun i _ t hi hrun hok => ?_
  have hoff := (H.uio hok).uioOffset
  have hres := (H.uio hok).uioResid
  exact wp_mono (H.block (H.keep h hok) (hblocks i hi t hrun (by omega)) (by omega) (by omega))
    (fun _ u _ _ hok' => H.trans h hok hok') fun e u _ _ hbad => H.after h hok hbad

theorem wp_ioRest_zero {R : Unit → State → Prop} (hres : s.uio.uioResid = 0) (hR : R () s) :
    wp W (ioRest ino) R E s := by
  rw [ioRest]
  exact wp_get_bind (wp_ite (fun _ => wp_pure fun _ => hR) fun hc => absurd hres hc)

theorem Parts.wp_ioRest (H : Parts W ino P N Ok Bad) (h : P s)
    (halign : s.uio.uioOffset % 512 = 0)
    (hblocks : ∀ i < s.uio.uioResid.toNat / 512, ∀ t,
      ((List.range i).foldlM (fun _ _ => blockio ino) ()).run s = .done () t →
        512 ≤ t.uio.uioResid.toNat → N t) :
    wp W (ioRest ino) (fun _ t => Ok s t s.uio.uioResid.toNat) (Bad s) s := by
  have h512 : (512 : UInt32).toNat = 512 := rfl
  rw [ioRest]
  refine wp_get_bind (wp_ite (fun h0 => wp_pure fun _ => ?_) fun h0 => ?_)
  · rw [h0]
    exact H.zero h
  have hn : (s.uio.uioResid / 512).toNat = s.uio.uioResid.toNat / 512 := UInt32.toNat_div _ _
  rw [hn]
  refine wp_bind (wp_kassert halign (wp_seq (H.wp_blocks h halign (Nat.mul_div_le _ _) hblocks)
    fun _ t _ _ hok => ?_))
  have hres := (H.uio hok).uioResid
  have hoff := (H.uio hok).uioOffset
  have hle := Nat.mul_div_le s.uio.uioResid.toNat 512
  have hlt : t.uio.uioResid < 512 := by
    rw [UInt32.lt_iff_toNat_lt, h512]
    omega
  refine wp_get_bind (wp_bind (wp_kassert hlt (wp_when (fun hmore => ?_) fun hnone _ => ?_)))
  · have hzero : (0 : UInt32).toNat = 0 := rfl
    refine wp_mono (H.part (H.keep h hok) (by rw [hzero]; omega)
      (by rw [hzero, Nat.zero_add]; exact Nat.le_of_lt hlt) le_rfl hmore)
      (fun _ u _ _ hok' => ?_) fun e u _ _ hbad => H.after h hok hbad
    have hall := H.trans h hok hok'
    rwa [hres, Nat.add_sub_cancel' hle] at hall
  · have hnone : ¬0 < t.uio.uioResid.toNat := hnone
    rwa [show s.uio.uioResid.toNat = 512 * (s.uio.uioResid.toNat / 512) by omega]

theorem toNat_blkoff (off : ℕ) : (UInt32.ofNat (off % 512)).toNat = off % 512 :=
  UInt32.toNat_ofNat_of_lt' (Nat.lt_trans (Nat.mod_lt _ (by omega)) (by decide : 512 < 2 ^ 32))

theorem blkoff_eq_zero_iff (off : ℕ) : UInt32.ofNat (off % 512) = 0 ↔ off % 512 = 0 := by
  rw [← UInt32.toNat_inj, toNat_blkoff]
  rfl

/-- The length of the leading part. -/
theorem toNat_leading (off : ℕ) (resid : UInt32) :
    (if resid < 512 - UInt32.ofNat (off % 512) then resid
      else 512 - UInt32.ofNat (off % 512)).toNat = min resid.toNat (512 - off % 512) := by
  have h512 : (512 : UInt32).toNat = 512 := rfl
  have hroom : (512 - UInt32.ofNat (off % 512)).toNat = 512 - off % 512 := by
    rw [UInt32.toNat_sub_of_le, toNat_blkoff, h512]
    rw [UInt32.le_iff_toNat_le, toNat_blkoff, h512]
    omega
  by_cases hlt : resid < 512 - UInt32.ofNat (off % 512)
  · rw [if_pos hlt]
    rw [UInt32.lt_iff_toNat_lt, hroom] at hlt
    omega
  · rw [if_neg hlt, hroom]
    rw [UInt32.lt_iff_toNat_lt, hroom] at hlt
    omega

/-- **A transfer of at least one byte** is its parts one after the other. -/
theorem Parts.wp_ioBody (H : Parts W ino P N Ok Bad) (h : P s) (hblocks : s.AtBlocks ino N)
    (hpos : 0 < s.uio.uioResid.toNat) :
    wp W (ioBody ino) (fun _ t => Ok s t s.uio.uioResid.toNat) (Bad s) s := by
  rw [ioBody_eq]
  refine wp_get_bind ?_
  dsimp only
  by_cases halign : s.uio.uioOffset % 512 = 0
  · rw [when, if_neg (not_not.mpr ((blkoff_eq_zero_iff _).mpr halign)), pure_bind]
    refine H.wp_ioRest h halign fun i hi t hrun hres => hblocks i hi t ?_ hres
    rw [ioUpTo, run_bind_of_done (run_get s)]
    dsimp only
    rwa [when, if_neg (not_not.mpr ((blkoff_eq_zero_iff _).mpr halign)), pure_bind]
  rw [when, if_pos fun hc => halign ((blkoff_eq_zero_iff _).mp hc)]
  have hlen := toNat_leading s.uio.uioOffset s.uio.uioResid
  have hskip := toNat_blkoff s.uio.uioOffset
  have hupto : ∀ i m t, (partialio ino (UInt32.ofNat (s.uio.uioOffset % 512))
      (if s.uio.uioResid < 512 - UInt32.ofNat (s.uio.uioOffset % 512) then s.uio.uioResid
        else 512 - UInt32.ofNat (s.uio.uioOffset % 512))).run s = .done () m →
      ((List.range i).foldlM (fun _ _ => blockio ino) ()).run m = .done () t →
      (ioUpTo ino i).run s = .done () t := by
    intro i m t hm ht
    rw [ioUpTo, run_bind_of_done (run_get s)]
    dsimp only
    rw [when, if_pos fun hc => halign ((blkoff_eq_zero_iff _).mp hc), run_bind_of_done hm]
    exact ht
  generalize (if s.uio.uioResid < 512 - UInt32.ofNat (s.uio.uioOffset % 512) then s.uio.uioResid
    else 512 - UInt32.ofNat (s.uio.uioOffset % 512)) = len at hlen hupto ⊢
  have hpart := H.part h hskip (show _ ≤ 512 by omega) (show len.toNat ≤ _ by omega) (by omega)
  refine wp_bind (wp_mono (wp_and (wp_ran W _ s) hpart) ?_ fun e m _ _ he => he.2)
  rintro ⟨⟩ m - - ⟨hran, hok⟩
  have hres := (H.uio hok).uioResid
  have hoff := (H.uio hok).uioOffset
  by_cases hdone : m.uio.uioResid = 0
  · have h0 : m.uio.uioResid.toNat = 0 := congrArg UInt32.toNat hdone
    refine wp_ioRest_zero hdone ?_
    rwa [show s.uio.uioResid.toNat = len.toNat by omega]
  · have hmore : m.uio.uioResid.toNat ≠ 0 := fun hc => hdone (UInt32.toNat_inj.mp hc)
    refine wp_mono (H.wp_ioRest (H.keep h hok) (by omega) fun i hi t hrun ht =>
      hblocks i (by omega) t (hupto i m t hran hrun) ht) (fun _ t _ _ hok' => ?_)
      fun e t _ _ hbad => H.after h hok hbad
    have hall := H.trans h hok hok'
    rwa [hres, Nat.add_sub_cancel' (by omega)] at hall

/-- A transfer of no bytes. -/
theorem wp_ioBody_zero {R : Unit → State → Prop} (hres : s.uio.uioResid = 0)
    (halign : s.uio.uioOffset % 512 = 0 → R () s)
    (hpart : s.uio.uioOffset % 512 ≠ 0 → wp W
      (partialio ino (UInt32.ofNat (s.uio.uioOffset % 512)) 0)
      (fun _ t => t.uio.uioResid = 0 ∧ R () t) E s) : wp W (ioBody ino) R E s := by
  rw [ioBody_eq]
  refine wp_get_bind ?_
  dsimp only
  by_cases h0 : s.uio.uioOffset % 512 = 0
  · rw [when, if_neg (not_not.mpr ((blkoff_eq_zero_iff _).mpr h0)), pure_bind]
    exact wp_ioRest_zero hres (halign h0)
  have hlen := toNat_leading s.uio.uioOffset s.uio.uioResid
  rw [when, if_pos fun hc => h0 ((blkoff_eq_zero_iff _).mp hc)]
  generalize (if s.uio.uioResid < 512 - UInt32.ofNat (s.uio.uioOffset % 512) then s.uio.uioResid
    else 512 - UInt32.ofNat (s.uio.uioOffset % 512)) = len at hlen ⊢
  have hlen0 : len = 0 := by
    rw [← UInt32.toNat_inj, hlen, hres]
    exact Nat.zero_min _
  rw [hlen0]
  exact wp_seq (hpart h0) fun _ t _ _ ht => wp_ioRest_zero ht.1 ht.2

end Parts

/-! ### Writing -/

/-- A file and a `uio` that can be written. -/
def WriteReady (ino : UInt32) (s : State) : Prop :=
  ∃ sv, s.Steady ino sv ∧ s.uio.uioRw = .write ∧ s.uio.uioOffset / 512 < 2 ^ 32

/-- `Wrote`, from what the file contains. -/
def WriteOk (ino : UInt32) (s t : State) (c : ℕ) : Prop :=
  ∃ sv sv', s.vnode? ino = some sv ∧ Wrote (image s.disk sv.svI) s t ino sv sv' c

/-- `WriteStop`, for the file there is. -/
def WriteBad (ino : UInt32) (s : State) (e : Stop) (t : State) : Prop :=
  ∃ sv, s.vnode? ino = some sv ∧ WriteStop s ino sv e t

/-- The contents a write of the `uio` starts from: a write from within a block makes that block
present, even if it has no bytes. -/
def State.lead (s : State) (d : Dinode) : Sparse 512 :=
  if s.uio.uioOffset % 512 = 0 then image s.disk d
  else (image s.disk d).touch (s.uio.uioOffset / 512)

section Write

variable {W : Watch fsGrowth} {E : Stop → State → Prop} {s m t : State} {ino : UInt32}
  {sv sv' sv'' : SfsVnode} {f : Sparse 512} {c c' : ℕ}

/-- In a write from `s`, `sfs_blockio` addresses every block it is given as it should. -/
def State.NearBlocks (s : State) (ino : UInt32) : Prop := s.AtBlocks ino fun t => t.Near ino

/-- What `sfs_bmap` finds or hands out is a block of the volume. -/
theorem wp_bmap_range (fileblock : UInt32) (doalloc : Bool) :
    wp W (bmap ino fileblock doalloc)
      (fun block t => block = 0 ∨ block < t.mount.sfsSb.sbNblocks) (fun _ _ => True) s := by
  have hany {α : Type} {x : Sk α} {s : State} : wp W x (fun _ _ => True) (fun _ _ => True) s :=
    wp_of_grows (fun _ _ _ => trivial) fun _ _ _ => trivial
  have hback (fb block : UInt32) (s : State) : wp W (handBack ino fb block)
      (fun block t => block = 0 ∨ block < t.mount.sfsSb.sbNblocks) (fun _ _ => True) s := by
    obtain ⟨hdone, hpanic⟩ := run_handBack (s := s) ino fb block
    by_cases hin : block = 0 ∨ s.InUse block
    · exact wp_of_run_done (hdone hin) (hin.imp_right fun huse => huse.1)
    · obtain ⟨p, hp⟩ := hpanic hin
      exact wp_of_run_halt hp trivial
  have hentry (idblock : UInt32) (idbuf : Fin 128 → UInt32) (k : Fin 128) (s : State) :
      wp W (bmapIndirect ino idblock idbuf k doalloc)
        (fun block t => block = 0 ∨ block < t.mount.sfsSb.sbNblocks) (fun _ _ => True) s := by
    rw [bmapIndirect]
    refine wp_ite (fun _ => ?_) fun _ => hback _ _ _
    exact wp_seq hany fun _ _ _ _ _ => wp_seq hany fun _ _ _ _ _ => hback _ _ _
  rw [bmap]
  split
  · rw [bmapDirect]
    refine wp_seq hany fun _ _ _ _ _ => wp_ite (fun _ => ?_) fun _ => hback _ _ _
    exact wp_seq hany fun _ _ _ _ _ => wp_seq hany fun _ _ _ _ _ => hback _ _ _
  split
  · refine wp_seq hany fun _ _ _ _ _ => wp_ite (fun _ => wp_pure fun _ => Or.inl rfl) fun _ => ?_
    refine wp_ite (fun _ => ?_) fun _ => wp_seq hany fun _ _ _ _ _ => hentry _ _ _ _
    exact wp_seq hany fun _ _ _ _ _ => wp_seq hany fun _ _ _ _ _ => hentry _ _ _ _
  · exact wp_fail trivial

/-- A write of less than a block is given none. -/
theorem State.nearBlocks_of_lt (h : s.uio.uioResid.toNat < 512) : s.NearBlocks ino :=
  fun n hn => absurd hn (by omega)

/-- On a volume of at most `2^23` blocks no position wraps. -/
theorem State.Ready.nearBlocks (h : s.Ready ino sv) : s.NearBlocks ino := by
  intro n _ t hrun _ block u hblock
  have hupto := (ioUpTo ino n).grows s
  rw [hrun] at hupto
  have hbmap := (bmap ino (UInt32.ofNat (t.uio.uioOffset / 512)) true).grows t
  rw [hblock] at hbmap
  have hmount : s.mount = u.mount := hupto.1.trans hbmap.1
  have hsmall := h.small
  rcases post_of_wp (wp_bmap_range (W := Watch.any fsGrowth) _ true) hblock trivial with rfl | hlt
  · exact (by decide : (0 : UInt32).toNat < 2 ^ 23)
  · rw [← hmount] at hlt
    exact Nat.lt_of_lt_of_le hlt hsmall

/-- A write makes the blocks it writes to present anyway. -/
theorem Wrote.of_touch {k : ℕ} (h : Wrote ((image s.disk sv.svI).touch k) s t ino sv sv' c)
    (hu : s.uio.Ample) (hrw : s.uio.uioRw = .write)
    (hmeets : Sparse.Meets 512 s.uio.uioOffset c k) :
    Wrote (image s.disk sv.svI) s t ino sv sv' c where
  toGrown := h.toGrown
  size := h.size
  uio := h.uio
  contents := by
    rw [h.contents, Sparse.put_touch (by omega)]
    rwa [h.uio.length_take hu hrw]

/-- A write that has bytes does not show what it starts from. -/
theorem State.put_lead (s : State) (d : Dinode) {l : List UInt8} (hl : l ≠ []) :
    (s.lead d).put s.uio.uioOffset l = (image s.disk d).put s.uio.uioOffset l := by
  rw [State.lead]
  split
  · rfl
  · have := List.length_pos_iff.mpr hl
    exact Sparse.put_touch (by omega) ⟨by omega, by omega, by omega⟩

theorem Wrote.lead (h : Wrote (image s.disk sv.svI) s t ino sv sv' c) (hu : s.uio.Ample)
    (hrw : s.uio.uioRw = .write) (hc : 0 < c) : Wrote (s.lead sv.svI) s t ino sv sv' c where
  toGrown := h.toGrown
  size := h.size
  uio := h.uio
  contents := by
    have hlen := h.uio.length_take hu hrw
    rw [h.contents, s.put_lead]
    exact List.ne_nil_of_length_pos (by omega)

/-- The parts of a write. -/
theorem writeParts (W : Watch fsGrowth) (ino : UInt32) :
    Parts W ino (WriteReady ino) (fun s => s.Near ino) (WriteOk ino) (WriteBad ino) where
  zero := by
    rintro s ⟨sv, h, -⟩
    exact ⟨sv, sv, h.vnode, (Mapped.same h.vnode h.tidy s.tick).wrote rfl⟩
  trans := by
    rintro s m t c c' ⟨sv, h, hrw, -⟩ ⟨sv1, sv2, hv, hw⟩ ⟨sv3, sv4, hv', hw'⟩
    obtain rfl := Option.some.inj (hw.vnode.symm.trans hv')
    exact ⟨sv1, sv4, hv, hw.trans h.ample hrw hw'⟩
  uio := by
    rintro s t c ⟨sv, sv', -, hw⟩
    exact hw.uio
  keep := by
    rintro s t c ⟨sv, h, hrw, hoff⟩ ⟨sv1, sv', hv, hw⟩
    obtain rfl := Option.some.inj (h.vnode.symm.trans hv)
    refine ⟨sv', h.wrote hw, hw.uio.uioRw.trans hrw, ?_⟩
    have hoff' := hw.uio.uioOffset
    by_cases hc : c = 0
    · rwa [hoff', hc]
    · have := hw.bound h.ample hrw (Nat.pos_of_ne_zero hc)
      omega
  after := by
    rintro s m e t c ⟨sv, h, hrw, -⟩ ⟨sv1, sv2, hv, hw⟩ ⟨sv3, hv', he⟩
    obtain rfl := Option.some.inj (hw.vnode.symm.trans hv')
    exact ⟨sv1, hv, he.after h.ample hrw hw⟩
  part := by
    rintro s skipstart len ⟨sv, h, hrw, hoff⟩ hskip hfit hlen hpos
    exact wp_partialio_write h hrw hskip hfit hlen hoff
      (fun t sv' hw => ⟨sv, sv', h.vnode,
        hw.of_touch h.ample hrw ⟨hpos, by omega, by omega⟩⟩)
      fun e t he => ⟨sv, h.vnode, he⟩
  block := by
    rintro s ⟨sv, h, hrw, hoff⟩ hnear halign hres
    exact wp_blockio_write h hnear hrw halign hres hoff (fun t sv' hw => ⟨sv, sv', h.vnode, hw⟩)
      fun e t he => ⟨sv, h.vnode, he⟩

/-- **What a write moves.** All of it, unless the device is full, the file cannot be any longer, or
the caller's buffers fail. -/
theorem wp_ioBody_write {R : Unit → State → Prop} (h : s.Steady ino sv) (hnear : s.NearBlocks ino)
    (hrw : s.uio.uioRw = .write) (hoff : s.uio.uioOffset / 512 < 2 ^ 32)
    (hdone : ∀ t sv', Wrote (s.lead sv.svI) s t ino sv sv' s.uio.uioResid.toNat → R () t)
    (hstop : ∀ e t, WriteStop s ino sv e t → E e t) : wp W (ioBody ino) R E s := by
  by_cases hres : s.uio.uioResid = 0
  · rw [hres] at hdone
    refine wp_ioBody_zero hres (fun halign => hdone s sv ?_) fun hun => ?_
    · rw [State.lead, if_pos halign]
      exact (Mapped.same h.vnode h.tidy s.tick).wrote rfl
    · refine wp_partialio_write h hrw (toNat_blkoff _) ?_ (Nat.zero_le _) hoff
        (fun t sv' hw => ⟨?_, hdone t sv' ?_⟩) hstop
      · rw [toNat_blkoff]
        exact Nat.le_of_lt (Nat.mod_lt _ (by omega))
      · rw [← UInt32.toNat_inj, hw.uio.uioResid, hres]
        rfl
      · rwa [State.lead, if_neg hun]
  · have hpos : 0 < s.uio.uioResid.toNat := Nat.pos_of_ne_zero fun hc =>
      hres (UInt32.toNat_inj.mp hc)
    refine wp_mono ((writeParts W ino).wp_ioBody ⟨sv, h, hrw, hoff⟩ hnear hpos) ?_ ?_
    · rintro _ t _ _ ⟨sv1, sv', hv, hw⟩
      obtain rfl := Option.some.inj (h.vnode.symm.trans hv)
      exact hdone t sv' (hw.lead h.ample hrw hpos)
    · rintro e t _ _ ⟨sv1, hv, he⟩
      obtain rfl := Option.some.inj (h.vnode.symm.trans hv)
      exact hstop e t he

/-! ### The size of the file -/

/-- From `s` to `t` a write has taken `c` bytes, and the size is what it has to be. -/
structure Stored (s t : State) (ino : UInt32) (sv sv' : SfsVnode) (c : ℕ) : Prop
    extends Grown s t ino sv sv' where
  uio : Uio.Advanced s.uio t.uio c
  size : sv'.svI.sfiSize.toNat =
    if c = 0 then sv.svI.sfiSize.toNat else max sv.svI.sfiSize.toNat (s.uio.uioOffset + c)

/-- How `sfs_io` can stop early when it writes. -/
def StoreStop (s : State) (ino : UInt32) (sv : SfsVnode) : Stop → State → Prop
  | .fail .enospc, t => t.Full ∧ ∃ sv' c, Stored s t ino sv sv' c ∧
      image t.disk sv'.svI =
        (image s.disk sv.svI).put s.uio.uioOffset (s.uio.src.take c)
  | .fail .efbig, t => 143 * 512 ≤ t.uio.uioOffset ∧ ∃ sv' c, Stored s t ino sv sv' c ∧
      image t.disk sv'.svI =
        (image s.disk sv.svI).put s.uio.uioOffset (s.uio.src.take c)
  | .fail .efault, t => s.MayFault ∧ ∃ sv' c0 c k, Stored s t ino sv sv' c ∧ c0 ≤ c ∧
      Sparse.Meets 512 s.uio.uioOffset s.uio.uioResid.toNat k ∧
      image t.disk sv'.svI =
        ((image s.disk sv.svI).put s.uio.uioOffset (s.uio.src.take c0)).touch k
  | _, _ => False

theorem pointer_resized (d : Dinode) (disk : Disk) (size : UInt32) (p : Ptr) :
    ({ d with sfiSize := size } : Dinode).pointer disk p = d.pointer disk p := by
  cases p <;> rfl

theorem Grown.resize (h : Grown s m ino sv sv') (size : UInt32) :
    Grown s { m with
      toCore := m.toCore.setVnode ino (SfsVnode.dirtied fun d => { d with sfiSize := size }) } ino
      sv (sv'.dirtied fun d => { d with sfiSize := size }) where
  mount := h.mount
  writes := h.writes
  vnode := vnode?_dirtied _ h.vnode
  others j hj := (vnode?_dirtied_of_ne _ hj).trans (h.others j hj)
  type := h.type
  links := h.links
  nbits := h.nbits
  marked := h.marked
  kept p hp := (pointer_resized _ _ _ p).trans (h.kept p hp)
  fresh p hp := by
    have hsame := pointer_resized sv'.svI m.disk size p
    exact hsame.symm ▸ h.fresh p (hsame ▸ hp)
  disk := h.disk
  tidy := by
    have hsame := pointer_resized sv'.svI m.disk size
    refine ⟨fun p hp => ?_, fun p q hp hpq => ?_⟩
    · exact (hsame p).symm ▸ h.tidy.inUse p (hsame p ▸ hp)
    · exact h.tidy.inj p q (hsame p ▸ hp) ((hsame p).symm.trans (hpq.trans (hsame q)))

theorem wp_ioOut_write {R : Unit → State → Prop} (hg : Grown s m ino sv sv')
    (hsize : sv'.svI.sfiSize = sv.svI.sfiSize) (hadv : Uio.Advanced s.uio m.uio c)
    (hrw : s.uio.uioRw = .write) (hbound : 0 < c → m.uio.uioOffset ≤ 143 * 512)
    (hR : ∀ u sv'', Stored s u ino sv sv'' c → image u.disk sv''.svI = image m.disk sv'.svI →
      u.uio = m.uio → u.sfsFreemap = m.sfsFreemap → R () u) :
    wp W (ioOut ino s.uio.uioResid 0) R E m := by
  have hres := hadv.uioResid
  have hle := hadv.le
  have hoff := hadv.uioOffset
  have hmoved : m.uio.uioResid ≠ s.uio.uioResid ↔ c ≠ 0 := by
    rw [ne_eq, ← UInt32.toNat_inj]
    omega
  rw [ioOut]
  refine wp_get_bind (wp_bind (wp_getVnode hg.vnode ?_))
  refine wp_bind (wp_when (fun hgrow => wp_modifyInode (wp_modify ?_)) fun hkeep _ => wp_modify ?_)
  · dsimp only
    rw [UInt32.add_zero]
    obtain ⟨hc, -, hlt⟩ := hgrow
    rw [hmoved] at hc
    have hbound := hbound (Nat.pos_of_ne_zero hc)
    refine hR _ _ ⟨hg.resize (UInt32.ofNat m.uio.uioOffset), hadv, ?_⟩ rfl rfl rfl
    rw [if_neg hc]
    change (UInt32.ofNat m.uio.uioOffset).toNat = _
    rw [UInt32.toNat_ofNat_of_lt' (Nat.lt_of_le_of_lt hbound (by decide : 143 * 512 < 2 ^ 32)),
      ← hsize]
    omega
  · dsimp only
    rw [UInt32.add_zero]
    refine hR m sv' ⟨hg, hadv, ?_⟩ rfl rfl rfl
    rw [hmoved, hadv.uioRw, hsize] at hkeep
    rw [hsize]
    by_cases hc : c = 0
    · rw [if_pos hc]
    · have : ¬sv.svI.sfiSize.toNat < m.uio.uioOffset := fun hlt => hkeep ⟨hc, hrw, hlt⟩
      rw [if_neg hc]
      omega

/-- **What `sfs_io` writes.** -/
theorem wp_io_write {R : Unit → State → Prop} (h : s.Steady ino sv) (hnear : s.NearBlocks ino)
    (hrw : s.uio.uioRw = .write) (hoff : s.uio.uioOffset / 512 < 2 ^ 32)
    (hdone : ∀ t sv', Stored s t ino sv sv' s.uio.uioResid.toNat →
      image t.disk sv'.svI =
        (s.lead sv.svI).put s.uio.uioOffset (s.uio.src.take s.uio.uioResid.toNat) → R () t)
    (hstop : ∀ e t, StoreStop s ino sv e t → E e t) : wp W (io ino) R E s := by
  have hread : ∀ p : Prop, ¬(s.uio.uioRw = .read ∧ p) := fun p hc => by
    rw [hrw] at hc
    cases hc.1
  rw [io]
  refine wp_get_bind (wp_bind (wp_getVnode h.vnode ?_))
  dsimp only
  rw [if_neg (hread _), if_neg (hread _), pure_bind]
  refine wp_bind (wp_trying (wp_ioBody_write h hnear hrw hoff (fun m sv' hw => ?_)
    fun e m he => ?_))
  · refine wp_bind (wp_ioOut_write hw.toGrown hw.size hw.uio hrw (hw.bound h.ample hrw)
      fun u sv'' hu himage _ _ => wp_pure fun _ => hdone u sv'' hu ?_)
    rw [himage, hw.contents]
  · cases e with
    | panic p => exact he.elim
    | fail e =>
      cases e <;> try exact he.elim
      case enospc =>
        obtain ⟨hfull, sv', c, hw⟩ := he
        refine wp_bind (wp_ioOut_write hw.toGrown hw.size hw.uio hrw (hw.bound h.ample hrw)
          fun u sv'' hu himage huio hmap => wp_fail (hstop _ u ⟨?_, sv'', c, hu, ?_⟩))
        · rw [State.Full, hmap]
          exact hfull
        · rw [himage, hw.contents]
      case efbig =>
        obtain ⟨hbig, sv', c, hw⟩ := he
        refine wp_bind (wp_ioOut_write hw.toGrown hw.size hw.uio hrw (hw.bound h.ample hrw)
          fun u sv'' hu himage huio hmap => wp_fail (hstop _ u ⟨?_, sv'', c, hu, ?_⟩))
        · rwa [huio]
        · rw [himage, hw.contents]
      case efault =>
        obtain ⟨hmay, sv', c0, c, k, hf⟩ := he
        refine wp_bind (wp_ioOut_write hf.toGrown hf.size hf.uio hrw (fun _ => hf.bound)
          fun u sv'' hu himage huio hmap => wp_fail (hstop _ u ⟨hmay, sv'', c0, c, k, hu, hf.le,
            hf.meets, ?_⟩))
        rw [himage, hf.contents]

end Write

/-! ### Reading -/

/-- A file that reads as `f`, and a `uio` that can be read into. -/
def ReadReady (ino : UInt32) (f : Sparse 512) (s : State) : Prop :=
  ∃ sv, s.Ready ino sv ∧ image s.disk sv.svI = f ∧ s.uio.uioRw = .read ∧
    s.uio.uioOffset + s.uio.uioResid.toNat < 2 ^ 41

section Read

variable {W : Watch fsGrowth} {E : Stop → State → Prop} {s m t : State} {ino : UInt32}
  {sv : SfsVnode} {f : Sparse 512} {c : ℕ}

/-- The parts of a read. -/
theorem readParts (W : Watch fsGrowth) (ino : UInt32) (f : Sparse 512) :
    Parts W ino (ReadReady ino f) (fun _ => True) (Got f) (ReadStop f) where
  zero := fun {s} _ => Got.zero f s s.tick
  trans := fun _ h h' => h.trans h'
  uio := fun h => h.uio
  keep := by
    rintro s t c ⟨sv, h, himage, hrw, hoff⟩ hg
    have hoff' := hg.uio.uioOffset
    have hres := hg.uio.uioResid
    have hle := hg.uio.le
    exact ⟨sv, h.got hg, hg.image.trans himage, hg.uio.uioRw.trans hrw, by omega⟩
  after := fun _ h h' => h'.after h
  part := by
    rintro s skipstart len ⟨sv, h, rfl, hrw, hoff⟩ hskip hfit hlen hpos
    exact wp_partialio_read h hrw hskip hfit hlen (by omega) (fun t hg => hg) fun e t he => he
  block := by
    rintro s ⟨sv, h, rfl, hrw, hoff⟩ - halign hres
    exact wp_blockio_read h hrw halign hres (by omega) (fun t hg => hg) fun e t he => he

theorem wp_ioBody_read (h : s.Ready ino sv) (hrw : s.uio.uioRw = .read)
    (hoff : s.uio.uioOffset + s.uio.uioResid.toNat < 2 ^ 41) :
    wp W (ioBody ino) (fun _ t => Got (image s.disk sv.svI) s t s.uio.uioResid.toNat)
      (ReadStop (image s.disk sv.svI) s) s := by
  by_cases hres : s.uio.uioResid = 0
  · refine wp_ioBody_zero hres (fun _ => ?_) fun hun => ?_
    · rw [hres]
      exact Got.zero _ s s.tick
    · refine wp_partialio_read h hrw (toNat_blkoff _) ?_ (Nat.zero_le _) (by omega)
        (fun t hg => ⟨?_, ?_⟩) fun e t he => he
      · rw [toNat_blkoff]
        exact Nat.le_of_lt (Nat.mod_lt _ (by omega))
      · rw [← UInt32.toNat_inj, hg.uio.uioResid, hres]
        rfl
      · rwa [hres]
  · exact (readParts W ino _).wp_ioBody ⟨sv, h, rfl, hrw, hoff⟩ (fun _ _ _ _ _ => trivial)
      (Nat.pos_of_ne_zero fun hc => hres (UInt32.toNat_inj.mp hc))

/-- What was left out because the file ends before is added to the residue. -/
theorem Got.extra {extraresid : UInt32} (hle : extraresid ≤ s.uio.uioResid)
    (h : Got f { s with uio := { s.uio with uioResid := s.uio.uioResid - extraresid } } t c) :
    Got f s { t with uio := { t.uio with uioResid := t.uio.uioResid + extraresid } } c where
  state := by
    rw [h.state]
  uio := by
    have hsub : (s.uio.uioResid - extraresid).toNat = s.uio.uioResid.toNat - extraresid.toNat :=
      UInt32.toNat_sub_of_le _ _ hle
    have hle' : extraresid.toNat ≤ s.uio.uioResid.toNat := hle
    have hc : c ≤ (s.uio.uioResid - extraresid).toNat := h.uio.le
    have hres : t.uio.uioResid.toNat = (s.uio.uioResid - extraresid).toNat - c := h.uio.uioResid
    have hlt := s.uio.uioResid.toNat_lt
    refine ⟨by omega, h.uio.iov, h.uio.uioOffset, ?_, h.uio.uioRw, h.uio.uioSegflg, h.uio.src⟩
    change (t.uio.uioResid + extraresid).toNat = _
    rw [UInt32.toNat_add]
    omega
  dst := h.dst

/-- `sfs_io` from the label `out` on, reading. -/
theorem wp_ioOut_read {R : Unit → State → Prop} (hv : s.vnode? ino = some sv)
    (hrw : s.uio.uioRw = .read) (origresid extraresid : UInt32)
    (hR : R () { s with uio := { s.uio with uioResid := s.uio.uioResid + extraresid } }) :
    wp W (ioOut ino origresid extraresid) R E s := by
  rw [ioOut]
  refine wp_get_bind (wp_bind (wp_getVnode hv (wp_bind (wp_when (fun hc => ?_) fun _ _ => ?_))))
  · rw [hrw] at hc
    cases hc.2.1
  · exact wp_modify hR

theorem ReadStop.extra {extraresid : UInt32} (hle : extraresid ≤ s.uio.uioResid) {e : Stop}
    (h : ReadStop f { s with uio := { s.uio with uioResid := s.uio.uioResid - extraresid } } e t) :
    ReadStop f s e { t with uio := { t.uio with uioResid := t.uio.uioResid + extraresid } } := by
  cases e with
  | panic p => exact h.elim
  | fail e =>
    cases e <;> try exact h.elim
    case efault =>
      obtain ⟨hmay, c, hg⟩ := h
      exact ⟨hmay, c, hg.extra hle⟩
    case efbig =>
      obtain ⟨hbig, c, hg⟩ := h
      exact ⟨hbig, c, hg.extra hle⟩

theorem ReadStop.got {e : Stop} (h : ReadStop f s e t) : ∃ e' c, e = .fail e' ∧ Got f s t c := by
  cases e with
  | panic p => exact h.elim
  | fail e =>
    cases e <;> try exact h.elim
    case efault =>
      obtain ⟨-, c, hg⟩ := h
      exact ⟨_, c, rfl, hg⟩
    case efbig =>
      obtain ⟨-, c, hg⟩ := h
      exact ⟨_, c, rfl, hg⟩

/-- The read itself, once the end of the file has been dealt with. -/
theorem wp_io_clamped {R : Unit → State → Prop} (h : s.Ready ino sv) (hrw : s.uio.uioRw = .read)
    (origresid extraresid : UInt32) (hle : extraresid ≤ s.uio.uioResid)
    (hoff : s.uio.uioOffset + (s.uio.uioResid.toNat - extraresid.toNat) < 2 ^ 41)
    (hdone : ∀ t, Got (image s.disk sv.svI) s t (s.uio.uioResid.toNat - extraresid.toNat) → R () t)
    (hstop : ∀ e t, ReadStop (image s.disk sv.svI) s e t → E e t) :
    wp W (do
      let r ← trying (ioBody ino)
      ioOut ino origresid extraresid
      match r with
      | .ok () => pure ()
      | .error e => fail e) R E
      { s with uio := { s.uio with uioResid := s.uio.uioResid - extraresid } } := by
  have hsub : (s.uio.uioResid - extraresid).toNat = s.uio.uioResid.toNat - extraresid.toNat :=
    UInt32.toNat_sub_of_le _ _ hle
  have hready : State.Ready { s with
      uio := { s.uio with uioResid := s.uio.uioResid - extraresid } } ino sv :=
    ⟨⟨h.vnode, ⟨h.tidy.inUse, h.tidy.inj⟩, ⟨h.volume.fits, h.volume.nbits, h.volume.padded,
      h.volume.past, h.volume.super⟩, h.works,
      ⟨(hsub.trans_le (Nat.sub_le _ _)).trans h.ample.resid, h.ample.src⟩⟩, h.small⟩
  have hbody := wp_ioBody_read (W := W) hready hrw (by
    change s.uio.uioOffset + (s.uio.uioResid - extraresid).toNat < 2 ^ 41
    rwa [hsub])
  refine wp_bind (wp_trying (wp_mono hbody (fun _ m _ _ hg => ?_) fun e m _ _ he => ?_))
  · change Got _ _ m (s.uio.uioResid - extraresid).toNat at hg
    rw [hsub] at hg
    exact wp_bind (wp_ioOut_read (hready.got hg).vnode (hg.uio.uioRw.trans hrw) _ _
      (wp_pure fun _ => hdone _ (hg.extra hle)))
  · obtain ⟨e', c, rfl, hg⟩ := he.got
    exact wp_bind (wp_ioOut_read (hready.got hg).vnode (hg.uio.uioRw.trans hrw) _ _
      (wp_fail (hstop _ _ (he.extra hle))))

/-- **What `sfs_io` reads.** -/
theorem wp_io_read {R : Unit → State → Prop} (h : s.Ready ino sv) (hrw : s.uio.uioRw = .read)
    (hdone : ∀ t, Got (image s.disk sv.svI) s t
      (min s.uio.uioResid.toNat (sv.svI.sfiSize.toNat - s.uio.uioOffset)) → R () t)
    (hstop : ∀ e t, ReadStop (image s.disk sv.svI) s e t → E e t) : wp W (io ino) R E s := by
  have hsize := sv.svI.sfiSize.toNat_lt
  have hres := s.uio.uioResid.toNat_lt
  rw [io]
  refine wp_get_bind (wp_bind (wp_getVnode h.vnode ?_))
  dsimp only
  by_cases hend : sv.svI.sfiSize.toNat ≤ s.uio.uioOffset
  · rw [if_pos ⟨hrw, hend⟩]
    refine wp_pure fun _ => hdone s ?_
    rw [Nat.sub_eq_zero_of_le hend, Nat.min_zero]
    exact Got.zero _ s s.tick
  rw [if_neg fun hc => hend hc.2]
  by_cases hpast : sv.svI.sfiSize.toNat < s.uio.uioOffset + s.uio.uioResid.toNat
  · rw [if_pos ⟨hrw, hpast⟩]
    have hextra : (UInt32.ofNat (s.uio.uioOffset + s.uio.uioResid.toNat -
        sv.svI.sfiSize.toNat)).toNat =
        s.uio.uioOffset + s.uio.uioResid.toNat - sv.svI.sfiSize.toNat :=
      UInt32.toNat_ofNat_of_lt' (by change _ < 2 ^ 32; omega)
    generalize UInt32.ofNat (s.uio.uioOffset + s.uio.uioResid.toNat - sv.svI.sfiSize.toNat) = extra
      at hextra ⊢
    have hlt : extra < s.uio.uioResid := by
      rw [UInt32.lt_iff_toNat_lt, hextra]
      omega
    refine wp_bind (wp_kassert hlt (wp_bind (wp_modify ?_)))
    rw [pure_bind]
    refine wp_io_clamped h hrw _ extra (UInt32.le_of_lt hlt) (by omega) (fun t hg => hdone t ?_)
      hstop
    rwa [show min s.uio.uioResid.toNat (sv.svI.sfiSize.toNat - s.uio.uioOffset) =
      s.uio.uioResid.toNat - extra.toNat by omega]
  · rw [if_neg fun hc => hpast hc.2, pure_bind]
    have hzero : (0 : UInt32).toNat = 0 := rfl
    have hsame : s.uio.uioResid - 0 = s.uio.uioResid := UInt32.sub_zero _
    have hclamped := wp_io_clamped (W := W) (R := R) (E := E) h hrw s.uio.uioResid 0
      UInt32.zero_le (by omega) (fun t hg => hdone t ?_) hstop
    · rwa [hsame] at hclamped
    · rwa [show min s.uio.uioResid.toNat (sv.svI.sfiSize.toNat - s.uio.uioOffset) =
        s.uio.uioResid.toNat - (0 : UInt32).toNat by rw [hzero]; omega]

end Read

end Sfs

end Os161
