import Os161.Sfs.Whole

/-!
# What `sfs_io` promises

Reading and writing a file as a sequence of bytes, what a write that stops early leaves behind, and
what a write gives the file blocks for.

A write of no bytes is not a write of nothing: it looks its block up as any other does, and so maps
it. What a write with bytes maps is said for every write that addresses its whole blocks as it
should (`State.NearBlocks`); a part of a block goes through a buffer and is addressed as it should
anyway.

## Main results

* `write_maps_iff` — when a write maps only what it writes
* `short_write` — what is accounted for when space runs out or the file gets too long
-/

namespace Os161

namespace Sfs

open Prog

section Contract

variable {W : Watch fsGrowth} {E : Stop → State → Prop} {s t : State} {ino : UInt32}
  {sv sv' : SfsVnode} {c : ℕ}

/-! ### What a write maps -/

/-- Only the `uio` and what the outside world has been asked differ, and no bytes have been moved.
-/
def State.Idle (s t : State) : Prop :=
  ∃ u k n, u.uioResid = s.uio.uioResid ∧ t = { s with uio := u, tick := k, writes := n }

/-- A write of no bytes into a block that is there, or that cannot be had. -/
theorem wp_partialio_nothing (h : s.Steady ino sv) (hrw : s.uio.uioRw = .write)
    {skipstart : UInt32} (hskip : skipstart.toNat = s.uio.uioOffset % 512)
    (hoff : s.uio.uioOffset / 512 < 2 ^ 32)
    (hkeep : fileBlock s.disk sv.svI (s.uio.uioOffset / 512) = 0 → s.Full) :
    wp W (partialio ino skipstart 0) (fun _ t => s.Idle t)
      (fun e t => (∃ e', e = .fail e') ∧ s.Idle t) s := by
  have hnat : (UInt32.ofNat (s.uio.uioOffset / 512)).toNat = s.uio.uioOffset / 512 :=
    UInt32.toNat_ofNat_of_lt' hoff
  have hzero : (0 : UInt32).toNat = 0 := rfl
  have hrange : skipstart + 0 ≤ 512 := by
    have h512 : (512 : UInt32).toNat = 512 := rfl
    rw [UInt32.add_zero, UInt32.le_iff_toNat_le, h512]
    omega
  rw [partialio]
  refine wp_get_bind (wp_bind (wp_kassert hrange ?_))
  rw [decide_eq_true hrw]
  by_cases h0 : fileBlock s.disk sv.svI (s.uio.uioOffset / 512) = 0
  · refine wp_bind (wp_bmap_alloc h.vnode h.tidy h.volume (h.works.writable W) _
      (fun m sv' block hm hblock _ himage hroom => ?_) (fun m sv' hm _ hsame _ => ?_)
      (fun hbig => ⟨⟨_, rfl⟩, s.uio, s.tick, s.writes, rfl, rfl⟩) fun hm => h.works.absurd hm)
    · rw [hnat] at hroom
      exact absurd (hkeep h0) (hroom h0)
    · obtain ⟨k, rfl⟩ := hsame (hkeep h0)
      exact ⟨⟨_, rfl⟩, s.uio, k, s.writes, rfl, rfl⟩
  · have huse := h.tidy.inUse_fileBlock h0
    generalize hblock : fileBlock s.disk sv.svI (s.uio.uioOffset / 512) = block at h0 huse
    refine wp_bind (wp_bmap_mapped h.vnode h.tidy h.volume (hnat.symm ▸ hblock) h0 true
      (fun k => ?_) fun hm => h.works.absurd hm)
    dsimp only
    rw [if_neg h0]
    refine wp_bind (wp_readblock (h.lt_dBlocks huse) (fun k' => ?_)
      fun hm => State.Works.absurd (s := { s with tick := k }) h.works hm)
    rw [pure_bind]
    refine wp_bind (wp_uiomove (s := { s with tick := k' }) h.ample ?_ (fun r hr => ?_)
      fun hne => absurd (List.take_zero) hne)
    · rw [hzero, List.take_zero]
      exact Nat.zero_le _
    · have hbuf : r.buf = [] := by
        have := hr.buf_write hrw
        rwa [hzero, List.take_zero, List.length_nil, List.take_zero, List.drop_nil] at this
      refine wp_when (fun _ => wp_writeblock (h.lt_dBlocks huse) ?_) fun hc => absurd hrw hc
      have hdata : blockOfList ((List.ofFn (s.disk block)).take skipstart.toNat ++ r.buf ++
          (List.ofFn (s.disk block)).drop (skipstart.toNat + (0 : UInt32).toNat)) =
          s.disk block := by
        rw [hbuf, hzero, Nat.add_zero, List.append_nil, List.take_append_drop, blockOfList_ofFn]
      have hdisk : State.written { s with uio := r.uio, tick := r.tick } block (s.disk block) =
          s.disk := by
        rw [State.WritesWork.written (s := { s with uio := r.uio, tick := r.tick })
          h.works.writesWork]
        exact Function.update_eq_self block s.disk
      refine ⟨r.uio, r.tick, s.writes + 1, UInt32.toNat_inj.mp (hr.uioResid (Nat.zero_le _)), ?_⟩
      dsimp only
      rw [hdata, hdisk]

/-- From `s` to `t` the file has kept the blocks it maps and maps more only where it was to be
written; a write of no bytes has left inode, freemap and disk as they were. -/
def State.MapsWritten (s : State) (ino : UInt32) (sv : SfsVnode) (t : State) : Prop :=
  ∃ sv', t.vnode? ino = some sv' ∧
    (∀ k, fileBlock s.disk sv.svI k ≠ 0 → fileBlock t.disk sv'.svI k ≠ 0) ∧
    (∀ k, fileBlock t.disk sv'.svI k ≠ 0 → fileBlock s.disk sv.svI k ≠ 0 ∨
      Sparse.Meets 512 s.uio.uioOffset s.uio.uioResid.toNat k) ∧
    (s.uio.uioResid = 0 → sv' = sv ∧ t.sfsFreemap = s.sfsFreemap ∧ t.disk = s.disk)

/-- A file whose contents are as before but for some bytes written in the range maps no more than
what was to be written. -/
theorem mapped_of_put (hle : c ≤ s.uio.uioResid.toNat) {k : ℕ}
    (hk : ((image s.disk sv.svI).put s.uio.uioOffset (s.uio.src.take c) k).isSome = true) :
    fileBlock s.disk sv.svI k ≠ 0 ∨
      Sparse.Meets 512 s.uio.uioOffset s.uio.uioResid.toNat k := by
  have hlen : (s.uio.src.take c).length ≤ c := List.length_take_le c _
  rw [Sparse.isSome_put, Bool.or_eq_true, decide_eq_true_eq, isSome_image] at hk
  exact hk.imp_right fun hmeets => hmeets.mono (hlen.trans hle)

/-- A write that has bytes. -/
theorem mapsWritten_of_pos (h : s.Steady ino sv) (hnear : s.NearBlocks ino)
    (hrw : s.uio.uioRw = .write)
    (hoff : s.uio.uioOffset / 512 < 2 ^ 32) (hpos : s.uio.uioResid ≠ 0) :
    s.MapsWritten ino sv ((io ino).run s).state := by
  have hgrown : ∀ {t sv'}, Grown s t ino sv sv' → ∀ k, fileBlock s.disk sv.svI k ≠ 0 →
      fileBlock t.disk sv'.svI k ≠ 0 := fun hg k hk => by rwa [hg.fileBlock_eq hk]
  have hmapped : ∀ {t : State} {sv' : SfsVnode} {c : ℕ}, c ≤ s.uio.uioResid.toNat →
      image t.disk sv'.svI = (image s.disk sv.svI).put s.uio.uioOffset (s.uio.src.take c) →
      ∀ k, fileBlock t.disk sv'.svI k ≠ 0 → fileBlock s.disk sv.svI k ≠ 0 ∨
        Sparse.Meets 512 s.uio.uioOffset s.uio.uioResid.toNat k := fun hle himage k hk => by
    rw [← isSome_image, himage] at hk
    exact mapped_of_put hle hk
  refine state_of_wp (P := s.MapsWritten ino sv) ?_
  refine wp_io_write h hnear hrw hoff (fun t sv' hs himage => ?_) fun e t he => ?_
  · have hne : s.uio.src.take s.uio.uioResid.toNat ≠ [] := by
      refine List.ne_nil_of_length_pos ?_
      rw [hs.uio.length_take h.ample hrw]
      exact Nat.pos_of_ne_zero fun hc => hpos (UInt32.toNat_inj.mp hc)
    rw [s.put_lead _ hne] at himage
    exact ⟨sv', hs.vnode, hgrown hs.toGrown, hmapped le_rfl himage, fun hc => absurd hc hpos⟩
  · cases e with
    | panic p => exact he.elim
    | fail e =>
      cases e <;> try exact he.elim
      case enospc =>
        obtain ⟨-, sv', c, hs, himage⟩ := he
        exact ⟨sv', hs.vnode, hgrown hs.toGrown, hmapped hs.uio.le himage,
          fun hc => absurd hc hpos⟩
      case efbig =>
        obtain ⟨-, sv', c, hs, himage⟩ := he
        exact ⟨sv', hs.vnode, hgrown hs.toGrown, hmapped hs.uio.le himage,
          fun hc => absurd hc hpos⟩
      case efault =>
        obtain ⟨-, sv', c0, c, k0, hs, hle, hmeets, himage⟩ := he
        refine ⟨sv', hs.vnode, hgrown hs.toGrown, fun k hk => ?_, fun hc => absurd hc hpos⟩
        rw [← isSome_image, himage, Sparse.isSome_touch, Bool.or_eq_true, decide_eq_true_eq] at hk
        rcases hk with hk | rfl
        · exact mapped_of_put (hle.trans hs.uio.le) hk
        · exact Or.inr hmeets

/-- A write whose transfer has moved nothing. -/
theorem wp_io_idle {Q : Prop} {P : Errno → Prop} (hv : s.vnode? ino = some sv)
    (hrw : s.uio.uioRw = .write)
    (hbody : wp W (ioBody ino) (fun _ t => Q ∧ s.Idle t)
      (fun e t => (∃ e', e = .fail e' ∧ P e') ∧ s.Idle t) s) :
    wp W (io ino) (fun _ t => Q ∧ s.Idle t)
      (fun e t => (∃ e', e = .fail e' ∧ P e') ∧ s.Idle t) s := by
  have hread : ∀ p : Prop, ¬(s.uio.uioRw = .read ∧ p) := fun p hc => by
    rw [hrw] at hc
    cases hc.1
  have hout : ∀ {t : State} {x : Sk Unit} {R : Unit → State → Prop} {E : Stop → State → Prop},
      s.Idle t → (∀ t, s.Idle t → wp W x R E t) →
      wp W (ioOut ino s.uio.uioResid 0 >>= fun _ => x) R E t := by
    rintro t x R E ⟨u, k, n, hres, rfl⟩ hx
    rw [ioOut]
    refine wp_bind (wp_get_bind (wp_bind (wp_getVnode hv (wp_bind ?_))))
    refine wp_when (fun hc => absurd hres hc.1) fun _ _ => wp_modify (hx _ ?_)
    exact ⟨_, k, n, (UInt32.add_zero _).trans hres, rfl⟩
  rw [io]
  refine wp_get_bind (wp_bind (wp_getVnode hv ?_))
  dsimp only
  rw [if_neg (hread _), if_neg (hread _), pure_bind]
  refine wp_bind (wp_trying (wp_mono hbody (fun _ t _ _ ht => ?_) fun e t _ _ ht => ?_))
  · exact hout ht.2 fun u hu => wp_pure fun _ => ⟨ht.1, hu⟩
  · obtain ⟨⟨e', rfl, hp⟩, ht⟩ := ht
    exact hout ht fun u hu => wp_fail ⟨⟨e', rfl, hp⟩, hu⟩

/-- A write of no bytes that finds its block, or no space for it. -/
theorem wp_io_nothing (h : s.Steady ino sv) (hrw : s.uio.uioRw = .write)
    (hoff : s.uio.uioOffset / 512 < 2 ^ 32) (hzero : s.uio.uioResid = 0)
    (hkeep : s.uio.uioOffset % 512 ≠ 0 → fileBlock s.disk sv.svI (s.uio.uioOffset / 512) = 0 →
      s.Full) : wp W (io ino) (fun _ t => s.Idle t) (fun _ t => s.Idle t) s := by
  refine wp_mono (wp_io_idle (Q := True) (P := fun _ => True) h.vnode hrw ?_)
    (fun _ t _ _ ht => ht.2) fun e t _ _ ht => ht.2
  refine wp_ioBody_zero hzero (fun _ => ⟨trivial, s.uio, s.tick, s.writes, rfl, rfl⟩) fun hun => ?_
  refine wp_mono (wp_partialio_nothing h hrw (toNat_blkoff _) hoff (hkeep hun))
    (fun _ t _ _ ht => ⟨?_, trivial, ht⟩) fun e t _ _ ht => ?_
  · obtain ⟨u, k, n, hres, rfl⟩ := ht
    exact hres.trans hzero
  · obtain ⟨⟨e', rfl⟩, ht⟩ := ht
    exact ⟨⟨e', rfl, trivial⟩, ht⟩

/-- A write of no bytes that starts within a block that is not there, when there is space for it. -/
theorem not_mapsWritten_of_zero (h : s.Steady ino sv) (hrw : s.uio.uioRw = .write)
    (hrange : s.uio.uioOffset ≤ 143 * 512) (hzero : s.uio.uioResid = 0)
    (hun : s.uio.uioOffset % 512 ≠ 0)
    (hhole : fileBlock s.disk sv.svI (s.uio.uioOffset / 512) = 0) (hroom : ¬s.Full) :
    ¬s.MapsWritten ino sv ((io ino).run s).state := by
  have hres : s.uio.uioResid.toNat = 0 := congrArg UInt32.toNat hzero
  refine state_of_wp (P := fun t => ¬s.MapsWritten ino sv t)
    (wp_io_write h (State.nearBlocks_of_lt (by omega)) hrw (by omega)
      (fun t sv' hs himage => ?_) fun e t he => ?_)
  · rintro ⟨sv1, hv, -, hmore, -⟩
    obtain rfl := Option.some.inj (hs.vnode.symm.trans hv)
    have hmapped : (image t.disk sv'.svI (s.uio.uioOffset / 512)).isSome = true := by
      rw [himage, hres, List.take_zero, Sparse.put_nil, State.lead, if_neg hun,
        Sparse.isSome_touch, decide_eq_true rfl, Bool.or_true]
    rcases hmore _ ((isSome_image _ _ _).mp hmapped) with hbefore | hmeets
    · exact hbefore hhole
    · rw [hres] at hmeets
      exact Sparse.not_meets_zero _ _ hmeets
  · rintro ⟨sv1, hv, -, -, hsame⟩
    cases e with
    | panic p => exact he.elim
    | fail e =>
      cases e <;> try exact he.elim
      case enospc =>
        refine hroom ?_
        rw [State.Full, ← (hsame hzero).2.1]
        exact he.1
      case efbig =>
        obtain ⟨hbig, sv', c, hs, -⟩ := he
        have hle := hs.uio.le
        rw [hs.uio.uioOffset] at hbig
        omega
      case efault =>
        obtain ⟨-, sv', c0, c, k, -, -, hmeets, -⟩ := he
        rw [hres] at hmeets
        exact Sparse.not_meets_zero _ _ hmeets

/-- **When a write maps only what it writes**, if it addresses its whole blocks as it should:
always, but for a write of no bytes that starts within a block that is not there, when there is
space for that block. -/
theorem write_maps_iff (h : s.Steady ino sv) (hnear : s.NearBlocks ino) (hrw : s.uio.uioRw = .write)
    (hrange : s.uio.uioOffset + s.uio.uioResid.toNat ≤ 143 * 512) :
    s.MapsWritten ino sv ((io ino).run s).state ↔
      ¬(s.uio.uioResid = 0 ∧ s.uio.uioOffset % 512 ≠ 0 ∧
        fileBlock s.disk sv.svI (s.uio.uioOffset / 512) = 0 ∧ ¬s.Full) := by
  constructor
  · rintro hmaps ⟨hzero, hun, hhole, hroom⟩
    exact not_mapsWritten_of_zero h hrw (by omega) hzero hun hhole hroom hmaps
  · intro hnot
    by_cases hzero : s.uio.uioResid = 0
    · refine state_of_wp (P := s.MapsWritten ino sv) ?_
      have hidle : ∀ t, s.Idle t → s.MapsWritten ino sv t := by
        rintro t ⟨u, k, n, -, rfl⟩
        exact ⟨sv, h.vnode, fun _ hk => hk, fun _ hk => Or.inl hk, fun _ => ⟨rfl, rfl, rfl⟩⟩
      refine wp_mono (wp_io_nothing h hrw (by omega) hzero fun hun hhole => ?_)
        (fun _ t _ _ => hidle t) fun _ t _ _ => hidle t
      by_contra hroom
      exact hnot ⟨hzero, hun, hhole, hroom⟩
    · exact mapsWritten_of_pos h hnear hrw (by omega) hzero

/-- An empty file on a volume with four free blocks, and a write of `resid` bytes at `pos`. -/
def emptyVolume (pos : ℕ) (resid : UInt32) : State :=
  { sampleVolume true (fun _ => Bytes.zero) (sampleFile 0 (fun _ => 0) 0) 0x0f with
    uio := Uio.uioKinit (List.replicate resid.toNat 7) resid pos .write }

/-- The file there. -/
def emptyVnode : SfsVnode := ⟨3, sampleFile 0 (fun _ => 0) 0, false, 1⟩

theorem ready_emptyVolume (pos : ℕ) (resid : UInt32) :
    (emptyVolume pos resid).Ready 3 emptyVnode where
  vnode := rfl
  tidy := by
    have hzero : ∀ p, emptyVnode.svI.pointer (emptyVolume pos resid).disk p = 0 := by
      intro p
      cases p <;> rfl
    exact ⟨fun p hp => absurd (hzero p) hp, fun p q hp => absurd (hzero p) hp⟩
  volume := by
    have hmap : (⟨8, fun _ => 0x0f⟩ : Bitmap).bit 0 = true := by decide
    have hwords : 8 * (Bitmap.words 8).toNat = 8 := by decide
    refine ⟨UInt32.le_refl 8, (by decide : (8 : UInt32).toNat + 7 < 2 ^ 32),
      fun i hlo hhi => ?_, fun i hlo hhi => ?_, hmap⟩
    · change i < 8 * (Bitmap.words 8).toNat at hhi
      rw [hwords] at hhi
      exact absurd hlo (Nat.not_le.mpr hhi)
    · exact absurd hlo (Nat.not_le.mpr hhi)
  small := (by decide : (8 : UInt32).toNat ≤ 2 ^ 23)
  works _ _ := rfl
  ample := by
    refine ⟨?_, fun _ => ?_⟩
    · exact Nat.le_refl _
    · change [resid.toNat].sum ≤ (List.replicate resid.toNat 7).length
      rw [List.sum_singleton, List.length_replicate]

theorem write_maps_iff_empty :
    (emptyVolume 1 1).MapsWritten 3 emptyVnode ((io 3).run (emptyVolume 1 1)).state ↔
      ¬((emptyVolume 1 1).uio.uioResid = 0 ∧ (emptyVolume 1 1).uio.uioOffset % 512 ≠ 0 ∧
        fileBlock (emptyVolume 1 1).disk emptyVnode.svI
          ((emptyVolume 1 1).uio.uioOffset / 512) = 0 ∧
        ¬(emptyVolume 1 1).Full) :=
  write_maps_iff (ready_emptyVolume 1 1).toSteady (ready_emptyVolume 1 1).nearBlocks rfl (by decide)

/-- A write of no bytes at position `1` gives the empty file a block. -/
theorem not_mapsWritten_empty :
    ¬(emptyVolume 1 0).MapsWritten 3 emptyVnode ((io 3).run (emptyVolume 1 0)).state :=
  not_mapsWritten_of_zero (ready_emptyVolume 1 0).toSteady rfl (by decide) rfl (by decide) rfl
    fun hfull =>
    Bool.noConfusion (hfull 5 (by decide))

/-! ### Short writes -/

/-- The byte of a file at a position. -/
def fileByte (disk : Disk) (d : Dinode) (p : ℕ) : UInt8 := (image disk d).byte p

/-- From `s` to `t` the first `c` bytes of the caller have been consumed, the file reads as before
with these bytes at the caller's position, and its size goes with them. -/
def State.Accounted (s : State) (ino : UInt32) (sv : SfsVnode) (t : State) : Prop :=
  ∃ sv' c, t.vnode? ino = some sv' ∧ t.uio.uioResid.toNat + c = s.uio.uioResid.toNat ∧
    t.uio.uioOffset = s.uio.uioOffset + c ∧
    (∀ p, fileByte t.disk sv'.svI p =
      if s.uio.uioOffset ≤ p ∧ p < s.uio.uioOffset + c then
        s.uio.src.getD (p - s.uio.uioOffset) 0
      else fileByte s.disk sv.svI p) ∧
    sv'.svI.sfiSize.toNat =
      if c = 0 then sv.svI.sfiSize.toNat
      else max sv.svI.sfiSize.toNat (s.uio.uioOffset + c)

/-- The bytes after a write of the first `c` bytes. -/
theorem byte_put_take (f : Sparse 512) {u : Uio} {c : ℕ} (hlen : (u.src.take c).length = c)
    (p : ℕ) : (f.put u.uioOffset (u.src.take c)).byte p =
      if u.uioOffset ≤ p ∧ p < u.uioOffset + c then u.src.getD (p - u.uioOffset) 0
      else f.byte p := by
  rw [Sparse.byte_put (by omega), hlen]
  by_cases hp : u.uioOffset ≤ p ∧ p < u.uioOffset + c
  · rw [if_pos hp, if_pos hp, List.getD_eq_getElem?_getD, List.getD_eq_getElem?_getD,
      List.getElem?_take_of_lt (by omega)]
  · rw [if_neg hp, if_neg hp]

theorem Stored.accounted (h : Stored s t ino sv sv' c) (hu : s.uio.Ample)
    (hrw : s.uio.uioRw = .write)
    (himage : image t.disk sv'.svI =
      (image s.disk sv.svI).put s.uio.uioOffset (s.uio.src.take c)) : s.Accounted ino sv t := by
  refine ⟨sv', c, h.vnode, ?_, h.uio.uioOffset, fun p => ?_, h.size⟩
  · rw [h.uio.uioResid]
    exact Nat.sub_add_cancel h.uio.le
  · rw [fileByte, himage]
    exact byte_put_take _ (h.uio.length_take hu hrw) p

/-- **A write that stops because there is no space, or because the file would get too long,** has
written what it has consumed and nothing else. -/
theorem short_write (h : s.Ready ino sv) (hrw : s.uio.uioRw = .write)
    (hoff : s.uio.uioOffset < 2 ^ 40) {e : Errno} (he : e = .enospc ∨ e = .efbig)
    (hrun : (io ino).run s = .halt (.fail e) t) : s.Accounted ino sv t := by
  have hstop : StoreStop s ino sv (.fail e) t := by
    have hsat := sat_of_wp (wp_io_write (R := fun _ _ => True) h.toSteady h.nearBlocks hrw
      (by omega)
      (fun _ _ _ _ => trivial) fun e t he => he)
    rwa [hrun] at hsat
  rcases he with rfl | rfl
  · obtain ⟨-, sv', c, hs, himage⟩ := hstop
    exact hs.accounted h.ample hrw himage
  · obtain ⟨-, sv', c, hs, himage⟩ := hstop
    exact hs.accounted h.ample hrw himage

/-- A write that needs six blocks, of which there are four. -/
theorem short_write_filled : ∃ t, (io 3).run (emptyVolume 100 2500) = .halt (.fail .enospc) t ∧
    t.uio.uioResid = 552 ∧ (emptyVolume 100 2500).Accounted 3 emptyVnode t := by
  have hstop : ((io 3).run (emptyVolume 100 2500)).stopped = some (.fail .enospc) := by
    decide +kernel
  have hleft : ((io 3).run (emptyVolume 100 2500)).state.uio.uioResid = 552 := by decide +kernel
  obtain ⟨t, hrun⟩ := Outcome.exists_of_stopped hstop
  rw [hrun] at hleft
  exact ⟨t, hrun, hleft,
    short_write (ready_emptyVolume 100 2500) rfl (by decide) (Or.inl rfl) hrun⟩

theorem wp_blockio_direct {R : Unit → State → Prop} (hv : s.vnode? ino = some sv)
    (hworks : s.Works) (hu : s.uio.Ample) (hrw : s.uio.uioRw = .write)
    (hseg : s.uio.uioSegflg = .sysspace) (hres : 512 ≤ s.uio.uioResid.toNat) (i : Fin 15)
    (hoff : s.uio.uioOffset = 512 * i) (h0 : sv.svI.sfiDirect i ≠ 0)
    (huse : s.InUse (sv.svI.sfiDirect i)) (hd : sv.svI.sfiDirect i < s.mount.dBlocks)
    (hlt : (sv.svI.sfiDirect i).toNat < 2 ^ 23)
    (hdone : ∀ v k, Uio.Advanced s.uio v 512 → R () { s with
      uio := v, tick := k, writes := s.writes + 1
      disk := Function.update s.disk (sv.svI.sfiDirect i) (blockOfList (s.uio.src.take 512)) }) :
    wp W (blockio ino) R E s := by
  have hi := i.isLt
  have hnat : (UInt32.ofNat (s.uio.uioOffset / 512)).toNat = i := by
    rw [hoff, Nat.mul_div_cancel_left _ (by omega)]
    exact UInt32.toNat_ofNat_of_lt' (Nat.lt_trans hi (by decide : 15 < 2 ^ 32))
  have hblock := run_bmap_direct hv i hnat h0 huse true
  have hsector := ioSector_of_lt hlt
  rw [blockio_eq]
  refine wp_get_bind ?_
  rw [decide_eq_true hrw]
  refine wp_bind (wp_of_run_done hblock ?_)
  rw [if_neg h0]
  refine wp_directIo_write hworks hu hrw hres (by rwa [hsector]) (fun v k hadv => ?_)
    fun v k c _ _ hmay => absurd hseg hmay.1
  rw [hsector]
  exact hdone v k hadv

theorem run_blockio_full (hv : s.vnode? ino = some sv) (hrw : s.uio.uioRw = .write) (i : Fin 15)
    (hoff : s.uio.uioOffset = 512 * i) (hhole : sv.svI.sfiDirect i = 0)
    (hfull : s.sfsFreemap.alloc = .error .enospc) :
    (blockio ino).run s = .halt (.fail .enospc) s := by
  have hi := i.isLt
  have hnat : (UInt32.ofNat (s.uio.uioOffset / 512)).toNat = i := by
    rw [hoff, Nat.mul_div_cancel_left _ (by omega)]
    exact UInt32.toNat_ofNat_of_lt' (Nat.lt_trans hi (by decide : 15 < 2 ^ 32))
  have hblock : (bmap ino (UInt32.ofNat (s.uio.uioOffset / 512)) true).run s =
      .halt (.fail .enospc) s := by
    rw [run_bmap_direct_alloc hv i hnat hhole]
    exact run_bind_of_halt (run_balloc_full hfull)
  rw [blockio_eq, run_bind_of_done (run_get s), decide_eq_true hrw]
  exact run_bind_of_halt hblock

/-- A write of two blocks, the first of which is there and the second cannot be had. -/
theorem wp_ioBody_two (hv : s.vnode? ino = some sv) (hworks : s.Works) (hu : s.uio.Ample)
    (hrw : s.uio.uioRw = .write) (hseg : s.uio.uioSegflg = .sysspace)
    (hoff : s.uio.uioOffset = 0) (hres : s.uio.uioResid = 1024)
    (h0 : sv.svI.sfiDirect 0 ≠ 0) (huse : s.InUse (sv.svI.sfiDirect 0))
    (hd : sv.svI.sfiDirect 0 < s.mount.dBlocks) (hlt : (sv.svI.sfiDirect 0).toNat < 2 ^ 23)
    (hhole : sv.svI.sfiDirect 1 = 0) (hfull : s.sfsFreemap.alloc = .error .enospc) :
    wp W (ioBody ino) (fun _ _ => False) (fun e t => e = .fail .enospc ∧ ∃ v k,
      Uio.Advanced s.uio v 512 ∧ t = { s with
        uio := v, tick := k, writes := s.writes + 1
        disk := Function.update s.disk (sv.svI.sfiDirect 0)
          (blockOfList (s.uio.src.take 512)) }) s := by
  have hblocks : ((1024 : UInt32) / 512).toNat = 2 := by decide
  have hnat : s.uio.uioResid.toNat = 1024 := congrArg UInt32.toNat hres
  rw [ioBody_eq]
  refine wp_get_bind ?_
  dsimp only
  rw [hoff, when, if_neg (by decide), pure_bind, ioRest]
  refine wp_get_bind ?_
  rw [hres, if_neg (by decide), hoff]
  refine wp_bind (wp_kassert rfl (wp_bind ?_))
  rw [hblocks, show List.range 2 = [0, 1] from rfl, List.foldlM_cons]
  refine wp_bind (wp_blockio_direct hv hworks hu hrw hseg (by omega) 0 hoff h0 huse hd hlt
    fun v k hadv => ?_)
  rw [List.foldlM_cons]
  refine wp_bind (wp_of_run_halt (run_blockio_full hv (hadv.uioRw.trans hrw) 1 ?_ hhole
    hfull) ⟨rfl, v, k, hadv, rfl⟩)
  change v.uioOffset = 512
  rw [hadv.uioOffset, hoff]

theorem wp_io_two (hv : s.vnode? ino = some sv) (hworks : s.Works) (hu : s.uio.Ample)
    (hrw : s.uio.uioRw = .write) (hseg : s.uio.uioSegflg = .sysspace)
    (hoff : s.uio.uioOffset = 0) (hres : s.uio.uioResid = 1024)
    (h0 : sv.svI.sfiDirect 0 ≠ 0) (huse : s.InUse (sv.svI.sfiDirect 0))
    (hd : sv.svI.sfiDirect 0 < s.mount.dBlocks) (hlt : (sv.svI.sfiDirect 0).toNat < 2 ^ 23)
    (hhole : sv.svI.sfiDirect 1 = 0) (hfull : s.sfsFreemap.alloc = .error .enospc)
    (hsize : 512 ≤ sv.svI.sfiSize.toNat) :
    wp W (io ino) (fun _ _ => False) (fun e t => e = .fail .enospc ∧
      t.uio.uioOffset = 512 ∧ t.vnode? ino = some sv ∧
        t.disk (sv.svI.sfiDirect 0) = blockOfList (s.uio.src.take 512)) s := by
  rw [io]
  refine wp_get_bind (wp_bind (wp_getVnode hv ?_))
  dsimp only
  rw [if_neg (fun hc => by rw [hrw] at hc; cases hc.1),
    if_neg (fun hc => by rw [hrw] at hc; cases hc.1), pure_bind]
  refine wp_bind (wp_trying (wp_mono (wp_ioBody_two hv hworks hu hrw hseg hoff hres h0 huse hd hlt
    hhole hfull) (fun _ _ _ _ hc => hc.elim) fun e m _ _ he => ?_))
  obtain ⟨rfl, v, k, hadv, rfl⟩ := he
  have hto : v.uioOffset = 512 := by rw [hadv.uioOffset, hoff]
  rw [ioOut]
  refine wp_bind (wp_get_bind (wp_bind (wp_getVnode hv (wp_bind ?_))))
  refine wp_when (fun hc => absurd hc.2.2 ?_) fun _ _ =>
    wp_modify (wp_fail ⟨rfl, hto, hv, Function.update_self ..⟩)
  dsimp only
  omega

/-- Such a write of a file whose third block is the first one: bytes outside the range change. -/
theorem not_accounted_of_two (hv : s.vnode? ino = some sv) (hworks : s.Works) (hu : s.uio.Ample)
    (hrw : s.uio.uioRw = .write) (hseg : s.uio.uioSegflg = .sysspace)
    (hoff : s.uio.uioOffset = 0) (hres : s.uio.uioResid = 1024)
    (h0 : sv.svI.sfiDirect 0 ≠ 0) (huse : s.InUse (sv.svI.sfiDirect 0))
    (hd : sv.svI.sfiDirect 0 < s.mount.dBlocks) (hlt : (sv.svI.sfiDirect 0).toNat < 2 ^ 23)
    (hhole : sv.svI.sfiDirect 1 = 0) (hfull : s.sfsFreemap.alloc = .error .enospc)
    (hsize : 512 ≤ sv.svI.sfiSize.toNat) (htwice : sv.svI.sfiDirect 2 = sv.svI.sfiDirect 0)
    (hbyte : (blockOfList (s.uio.src.take 512)).get 0 ≠ (s.disk (sv.svI.sfiDirect 0)).get 0) :
    ∃ t, (io ino).run s = .halt (.fail .enospc) t ∧ ¬s.Accounted ino sv t := by
  have hsat := sat_of_wp (wp_io_two hv hworks hu hrw hseg hoff hres h0 huse hd hlt hhole hfull
    hsize)
  cases hrun : (io ino).run s with
  | done a t =>
    rw [hrun] at hsat
    exact hsat.elim
  | halt e t =>
    rw [hrun] at hsat
    obtain ⟨rfl, htoff, hvt, hdisk⟩ := hsat
    refine ⟨t, rfl, ?_⟩
    rintro ⟨sv', c, hv', -, hc, hbytes, -⟩
    obtain rfl := Option.some.inj (hvt.symm.trans hv')
    have hblock : ∀ disk : Disk, fileBlock disk sv.svI 2 = sv.svI.sfiDirect 0 := fun disk => by
      rw [fileBlock, dif_pos (by decide)]
      exact htwice
    have hthird : ∀ disk : Disk,
        fileByte disk sv.svI 1024 = (disk (sv.svI.sfiDirect 0)).get 0 := fun disk => by
      rw [fileByte, show 1024 = 512 * 2 + 0 from rfl, Sparse.byte_block _ _ (by decide),
        Sparse.block, image_of_ne (by rwa [hblock]), hblock]
      rfl
    have hsame := hbytes 1024
    rw [if_neg (by omega), hthird, hthird, hdisk] at hsame
    exact hbyte hsame

/-- A file with block `5` in two places on a full volume, and a write of two blocks at its start. -/
def doubledVolume : State :=
  { sampleVolume true (fun _ => Bytes.zero)
      (sampleFile 1536 (fun i => if i = 1 ∨ 3 ≤ i.val then 0 else 5) 0) 0xff with
    uio := Uio.uioKinit (List.replicate 1024 7) 1024 0 .write }

/-- The file there. -/
def doubledVnode : SfsVnode :=
  ⟨3, sampleFile 1536 (fun i => if i = 1 ∨ 3 ≤ i.val then 0 else 5) 0, false, 1⟩

/-- The second block of the write cannot be had; the third block of the file, which is not in the
range, has changed with the first. -/
theorem not_accounted_doubled : ∃ t, (io 3).run doubledVolume = .halt (.fail .enospc) t ∧
    ¬doubledVolume.Accounted 3 doubledVnode t := by
  have hv : doubledVolume.vnode? 3 = some doubledVnode := rfl
  have hu : doubledVolume.uio.Ample := ⟨le_rfl, fun _ => by
    change [1024].sum ≤ (List.replicate 1024 (7 : UInt8)).length
    rw [List.length_replicate, List.sum_singleton]⟩
  have hfull : doubledVolume.sfsFreemap.alloc = .error .enospc := by rfl
  exact not_accounted_of_two hv (fun _ _ => rfl) hu rfl rfl rfl rfl (by decide) (by decide)
    (by decide) (by decide) rfl hfull (by decide) rfl (by decide)

end Contract

end Sfs

end Os161
