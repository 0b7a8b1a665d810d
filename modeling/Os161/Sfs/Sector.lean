import Os161.Sfs.Transfer

/-!
# The sector of a block

`sfs_io` moves the blocks of a file in two ways: part of a block through a buffer, with
`sfs_readblock` and `sfs_writeblock`, and a whole block directly between the device and the caller.
The buffered way computes the position on the device in 64 bits. The direct way computes it in the
32 bits of a block number, so that it wraps from block `2^23` on.

## Main results

* `sameSector_iff` — the blocks for which the two ways address the same sector
-/

namespace Os161

namespace Sfs

open Prog

/-- Block `k` of a file is block `d` of the disk, and the call finds it: it is in use, it is not the
block of pointers itself, and the disk works. -/
structure State.Places (s : State) (ino : UInt32) (sv : SfsVnode) (k : ℕ) (d : UInt32) : Prop where
  vnode : s.vnode? ino = some sv
  block : fileBlock s.disk sv.svI k = d
  ne : d ≠ 0
  inUse : s.InUse d
  within : d < s.mount.dBlocks
  pointers : 15 ≤ k → sv.svI.sfiIndirect < s.mount.dBlocks
  apart : 15 ≤ k → sv.svI.sfiIndirect ≠ d
  works : s.Works

/-- A caller who asks for block `k` of a file, with room for it and buffers that do not fail. -/
structure State.Asks (s : State) (k : ℕ) (rw : UioRw) : Prop where
  ample : s.uio.Ample
  uioRw : s.uio.uioRw = rw
  uioOffset : s.uio.uioOffset = 512 * k
  uioResid : 512 ≤ s.uio.uioResid.toNat
  safe : ¬s.MayFault

/-- What the first call writes to block `k` is what the second call reads there. -/
def State.ReadsBack (s : State) (k : ℕ) (first second : Sk Unit) : Prop :=
  ∀ u v, State.Asks { s with uio := u } k .write → State.Asks { s with uio := v } k .read →
    ∃ m t, first.run { s with uio := u } = .done () m ∧
      second.run { m with uio := v } = .done () t ∧ t.uio.dst = v.dst ++ u.src.take 512

/-- `sfs_blockio` gives the device the position for block `d` that `SFSUIO` does, and each of the
two ways to move block `k` of the file reads what the other has written. -/
structure State.SameSector (s : State) (ino : UInt32) (k : ℕ) (d : UInt32) : Prop where
  read : ∀ u : Uio, (u.aimed (d * 512).toNat 512).uioOffset = (readUio d).uioOffset
  write : ∀ (u : Uio) (data : Block),
    (u.aimed (d * 512).toNat 512).uioOffset = (writeUio d (List.ofFn data)).uioOffset
  direct : s.ReadsBack k (blockio ino) (partialio ino 0 512)
  buffered : s.ReadsBack k (partialio ino 0 512) (blockio ino)

section Sector

variable {W : Watch fsGrowth} {E : Stop → State → Prop} {s : State} {ino d : UInt32}
  {sv : SfsVnode} {k : ℕ}

theorem State.Places.lt (h : s.Places ino sv k d) : k < 143 :=
  lt_of_fileBlock_ne (show fileBlock s.disk sv.svI k ≠ 0 from h.block ▸ h.ne)

theorem State.Places.same (h : s.Places ino sv k d) (u : Uio) (n : ℕ) :
    State.Places { s with uio := u, tick := n } ino sv k d :=
  ⟨h.vnode, h.block, h.ne, h.inUse, h.within, h.pointers, h.apart, h.works⟩

/-- After a write to the block. -/
theorem State.Places.written (h : s.Places ino sv k d) (u : Uio) (n : ℕ) (b : Block) :
    State.Places { s with
      uio := u, tick := n, writes := s.writes + 1, disk := Function.update s.disk d b }
      ino sv k d where
  vnode := h.vnode
  block := by
    by_cases hk : k < 15
    · rw [← h.block, fileBlock, fileBlock, dif_pos hk, dif_pos hk]
    · have hptr : s.disk sv.svI.sfiIndirect = Function.update s.disk d b sv.svI.sfiIndirect :=
        (Function.update_of_ne (h.apart (by omega)) b s.disk).symm
      exact (fileBlock_congr (fun _ => hptr) k).symm.trans h.block
  ne := h.ne
  inUse := h.inUse
  within := h.within
  pointers := h.pointers
  apart := h.apart
  works := h.works

theorem toNat_ofNat_block (hk : k < 143) (hoff : s.uio.uioOffset = 512 * k) :
    (UInt32.ofNat (s.uio.uioOffset / 512)).toNat = k := by
  rw [hoff, Nat.mul_div_cancel_left k (by omega)]
  exact UInt32.toNat_ofNat_of_lt' (Nat.lt_trans hk (by decide : 143 < 2 ^ 32))

/-- The block is found. -/
theorem State.Places.wp_bmap {R : UInt32 → State → Prop} (h : s.Places ino sv k d)
    (hoff : s.uio.uioOffset = 512 * k) (doalloc : Bool)
    (hdone : ∀ n, R d { s with tick := n }) :
    wp W (bmap ino (UInt32.ofNat (s.uio.uioOffset / 512)) doalloc) R E s := by
  have hnat := toNat_ofNat_block h.lt hoff
  refine wp_bmap_present h.vnode (hnat.symm ▸ h.block) h.ne h.inUse (fun hge => ?_) doalloc hdone
    fun hm => h.works.absurd hm
  exact h.pointers (hnat ▸ hge)

theorem State.Places.ioSector_lt (h : s.Places ino sv k d) : ioSector d < s.mount.dBlocks := by
  have hlt : d.toNat < s.mount.dBlocks.toNat := h.within
  rw [UInt32.lt_iff_toNat_lt, toNat_ioSector]
  omega

/-- Writing the block directly. -/
theorem wp_blockio_placed_write {R : Unit → State → Prop} (h : s.Places ino sv k d)
    (hask : s.Asks k .write)
    (hdone : ∀ v n, R () { s with
      uio := v, tick := n, writes := s.writes + 1
      disk := Function.update s.disk (ioSector d) (blockOfList (s.uio.src.take 512)) }) :
    wp W (blockio ino) R E s := by
  rw [blockio_eq]
  refine wp_get_bind (wp_bind (h.wp_bmap hask.uioOffset _ fun n => ?_))
  rw [if_neg h.ne]
  exact wp_directIo_write (s := { s with tick := n }) h.works hask.ample hask.uioRw hask.uioResid
    h.ioSector_lt (fun v m _ => hdone v m) fun _ _ _ _ _ hmay => absurd hmay hask.safe

/-- Reading the block directly. -/
theorem wp_blockio_placed_read {R : Unit → State → Prop} (h : s.Places ino sv k d)
    (hask : s.Asks k .read)
    (hdone : ∀ v n, v.dst = s.uio.dst ++ List.ofFn (s.disk (ioSector d)) →
      R () { s with uio := v, tick := n }) : wp W (blockio ino) R E s := by
  rw [blockio_eq]
  refine wp_get_bind (wp_bind (h.wp_bmap hask.uioOffset _ fun n => ?_))
  rw [if_neg h.ne]
  exact wp_directIo_read (s := { s with tick := n }) h.works hask.ample hask.uioRw hask.uioResid
    h.ioSector_lt (fun v m _ => hdone v m) fun _ _ _ _ _ _ hmay => absurd hmay hask.safe

/-- All of a block. -/
theorem whole_block (b : Block) :
    ((List.ofFn b).drop (0 : UInt32).toNat).take (512 : UInt32).toNat = List.ofFn b := by
  rw [show (0 : UInt32).toNat = 0 from rfl, show (512 : UInt32).toNat = 512 from rfl,
    List.drop_zero, List.take_of_length_le List.length_ofFn.le]

/-- Writing the block through a buffer. -/
theorem wp_partialio_placed_write {R : Unit → State → Prop} (h : s.Places ino sv k d)
    (hask : s.Asks k .write)
    (hdone : ∀ v n, R () { s with
      uio := v, tick := n, writes := s.writes + 1
      disk := Function.update s.disk d (blockOfList (s.uio.src.take 512)) }) :
    wp W (partialio ino 0 512) R E s := by
  have hlen : ∀ b : Block, (List.ofFn b).length = 512 := fun b => List.length_ofFn
  rw [partialio]
  refine wp_get_bind (wp_bind (wp_kassert (by decide) ?_))
  refine wp_bind (h.wp_bmap hask.uioOffset _ fun n => ?_)
  dsimp only
  rw [if_neg h.ne]
  refine wp_bind (wp_readblock (s := { s with tick := n }) h.within (fun m => ?_)
    fun hm => State.Works.absurd (s := { s with tick := n }) h.works hm)
  rw [pure_bind]
  dsimp only
  rw [whole_block]
  refine wp_bind (wp_uiomove (s := { s with tick := m }) hask.ample ?_ (fun r hr => ?_)
    fun _ _ _ _ hmay => absurd hmay hask.safe)
  · rw [hlen]
    exact hask.uioResid
  · have hbuf : r.buf = s.uio.src.take 512 := by
      have hmoved := hr.buf_write hask.uioRw
      rwa [List.drop_length, List.append_nil, hlen] at hmoved
    refine wp_when (fun _ => wp_writeblock h.within ?_) fun hc => absurd hask.uioRw hc
    have hdata : (List.ofFn (s.disk d)).take (0 : UInt32).toNat ++ r.buf ++
        (List.ofFn (s.disk d)).drop ((0 : UInt32).toNat + (512 : UInt32).toNat) =
        s.uio.src.take 512 := by
      rw [hbuf, show (0 : UInt32).toNat = 0 from rfl, show (512 : UInt32).toNat = 512 from rfl,
        List.take_zero, List.nil_append, Nat.zero_add, List.drop_eq_nil_of_le (hlen _).le,
        List.append_nil]
    rw [hdata, State.WritesWork.written (s := { s with uio := r.uio, tick := r.tick })
      h.works.writesWork]
    exact hdone _ _

/-- Reading the block through a buffer. -/
theorem wp_partialio_placed_read {R : Unit → State → Prop} (h : s.Places ino sv k d)
    (hask : s.Asks k .read)
    (hdone : ∀ v n, v.dst = s.uio.dst ++ List.ofFn (s.disk d) →
      R () { s with uio := v, tick := n }) : wp W (partialio ino 0 512) R E s := by
  have hlen : ∀ b : Block, (List.ofFn b).length = 512 := fun b => List.length_ofFn
  rw [partialio]
  refine wp_get_bind (wp_bind (wp_kassert (by decide) ?_))
  refine wp_bind (h.wp_bmap hask.uioOffset _ fun n => ?_)
  dsimp only
  rw [if_neg h.ne]
  refine wp_bind (wp_readblock (s := { s with tick := n }) h.within (fun m => ?_)
    fun hm => State.Works.absurd (s := { s with tick := n }) h.works hm)
  rw [pure_bind]
  dsimp only
  rw [whole_block]
  refine wp_bind (wp_uiomove (s := { s with tick := m }) hask.ample ?_ (fun r hr => ?_)
    fun _ _ _ _ hmay => absurd hmay hask.safe)
  · rw [hlen]
    exact hask.uioResid
  · have hdst := hr.dst hask.uioRw
    rw [List.take_of_length_le le_rfl] at hdst
    refine wp_when (fun hc => ?_) fun _ _ => hdone _ _ hdst
    rw [hask.uioRw] at hc
    cases hc

/-- What is in a block after the caller's bytes have been written there. -/
theorem ofFn_blockOfList_take {u : Uio} (hu : u.Ample) (hrw : u.uioRw = .write)
    (hres : 512 ≤ u.uioResid.toNat) :
    List.ofFn (blockOfList (u.src.take 512)) = u.src.take 512 := by
  have hlen : (u.src.take 512).length = 512 := by
    have hsrc := hu.src hrw
    have hresid := hu.resid
    rw [List.length_take]
    omega
  generalize u.src.take 512 = l at hlen ⊢
  have hfn : (List.ofFn (blockOfList l)).length = 512 := List.length_ofFn
  refine List.ext_getElem (hfn.trans hlen.symm) fun i hi hi' => ?_
  rw [List.getElem_ofFn]
  exact List.getD_eq_getElem l 0 hi'

/-- From a block that is addressed as it should be, what was written directly is read through the
buffer. -/
theorem State.Places.readsBack_direct (h : s.Places ino sv k d) (hd : ioSector d = d) :
    s.ReadsBack k (blockio ino) (partialio ino 0 512) := by
  intro u v hu hv
  obtain ⟨a, m, hm, ⟨w, n, rfl⟩, -⟩ := done_of_wp (wp_blockio_placed_write
    (R := fun _ m => ∃ w n, m = { s with
      uio := w, tick := n, writes := s.writes + 1
      disk := Function.update s.disk d (blockOfList (u.src.take 512)) })
    (s := { s with uio := u }) (h.same u s.tick) hu fun w n => ⟨w, n, by rw [hd]⟩)
  obtain ⟨b, t, ht, hdst, -⟩ := done_of_wp (wp_partialio_placed_read
    (R := fun _ t => t.uio.dst = v.dst ++ u.src.take 512)
    (s := { s with
      uio := v, tick := n, writes := s.writes + 1
      disk := Function.update s.disk d (blockOfList (u.src.take 512)) })
    (h.written v n _) ⟨hv.ample, hv.uioRw, hv.uioOffset, hv.uioResid, hv.safe⟩ fun w n hdst => by
      dsimp only at hdst ⊢
      rw [hdst, Function.update_self, ofFn_blockOfList_take hu.ample hu.uioRw hu.uioResid])
  exact ⟨_, t, hm, ht, hdst⟩

/-- What was written through the buffer, read directly. -/
theorem State.Places.run_buffered (h : s.Places ino sv k d) {u v : Uio}
    (hu : State.Asks { s with uio := u } k .write) (hv : State.Asks { s with uio := v } k .read) :
    ∃ m t, (partialio ino 0 512).run { s with uio := u } = .done () m ∧
      (blockio ino).run { m with uio := v } = .done () t ∧ t.uio.dst = v.dst ++
        List.ofFn (Function.update s.disk d (blockOfList (u.src.take 512)) (ioSector d)) := by
  obtain ⟨a, m, hm, ⟨w, n, rfl⟩, -⟩ := done_of_wp (wp_partialio_placed_write
    (R := fun _ m => ∃ w n, m = { s with
      uio := w, tick := n, writes := s.writes + 1
      disk := Function.update s.disk d (blockOfList (u.src.take 512)) })
    (s := { s with uio := u }) (h.same u s.tick) hu fun w n => ⟨w, n, rfl⟩)
  obtain ⟨b, t, ht, hdst, -⟩ := done_of_wp (wp_blockio_placed_read
    (R := fun _ t => t.uio.dst = v.dst ++
      List.ofFn (Function.update s.disk d (blockOfList (u.src.take 512)) (ioSector d)))
    (s := { s with
      uio := v, tick := n, writes := s.writes + 1
      disk := Function.update s.disk d (blockOfList (u.src.take 512)) })
    (h.written v n _) ⟨hv.ample, hv.uioRw, hv.uioOffset, hv.uioResid, hv.safe⟩
    fun w n hdst => hdst)
  exact ⟨_, t, hm, ht, hdst⟩

theorem State.Places.readsBack_buffered (h : s.Places ino sv k d) (hd : ioSector d = d) :
    s.ReadsBack k (partialio ino 0 512) (blockio ino) := by
  intro u v hu hv
  obtain ⟨m, t, hm, ht, hdst⟩ := h.run_buffered hu hv
  rw [hd, Function.update_self, ofFn_blockOfList_take hu.ample hu.uioRw hu.uioResid] at hdst
  exact ⟨m, t, hm, ht, hdst⟩

/-- From a block that is addressed elsewhere, what was written through the buffer is not read: there
is what was there before. -/
theorem State.Places.not_readsBack (h : s.Places ino sv k d) (hd : ioSector d ≠ d) {u v : Uio}
    (hu : State.Asks { s with uio := u } k .write) (hv : State.Asks { s with uio := v } k .read)
    (hdata : u.src.take 512 ≠ List.ofFn (s.disk (ioSector d))) :
    ¬s.ReadsBack k (partialio ino 0 512) (blockio ino) := by
  intro hback
  obtain ⟨m, t, hm, ht, hdst⟩ := h.run_buffered hu hv
  obtain ⟨m', t', hm', ht', hdst'⟩ := hback u v hu hv
  obtain rfl : m' = m := by
    rw [hm] at hm'
    cases hm'
    rfl
  obtain rfl : t' = t := by
    rw [ht] at ht'
    cases ht'
    rfl
  rw [Function.update_of_ne hd] at hdst
  exact hdata (List.append_cancel_left (hdst'.symm.trans hdst))

/-- **Where the two ways to a block agree**: below block `2^23`. -/
theorem sameSector_iff (h : s.Places ino sv k d) :
    s.SameSector ino k d ↔ d.toNat < 2 ^ 23 := by
  constructor
  · intro hsame
    have hoff : (d * 512).toNat = d.toNat * 512 := hsame.read s.uio
    rw [toNat_mul_512, toNat_ioSector] at hoff
    have hmod := Nat.mod_lt d.toNat (by decide : 0 < 2 ^ 23)
    omega
  · intro hlt
    have hd := ioSector_of_lt hlt
    have hoff : (d * 512).toNat = d.toNat * 512 := by rw [toNat_mul_512, hd]
    exact ⟨fun _ => hoff, fun _ _ => hoff, h.readsBack_direct hd, h.readsBack_buffered hd⟩

end Sector

/-- A volume of `2^23 + 8` blocks and a file with one block, `d`. -/
def bigVolume (d : UInt32) : State :=
  { sampleVolume true (fun _ => Bytes.zero) (sampleFile 512 (fun _ => d) 0) 0xff with
    mount := ⟨⟨fun _ _ => true, fun _ => true, fun _ => true⟩, 8388616,
      ⟨sfsMagic, 8388616, Bytes.zero, fun _ => 0⟩⟩ }

theorem places_bigVolume {d : UInt32} (h0 : d ≠ 0) (hd : d < 8388616) :
    (bigVolume d).Places 3 ⟨3, sampleFile 512 (fun _ => d) 0, false, 1⟩ 0 d where
  vnode := rfl
  block := rfl
  ne := h0
  inUse := ⟨hd, by
    have hmask : ∀ i < 8, (0xff : UInt8) &&& Bitmap.mask i ≠ 0 := by decide
    exact decide_eq_true (hmask _ (Nat.mod_lt _ (by omega)))⟩
  within := hd
  pointers h := absurd h (by omega)
  apart h := absurd h (by omega)
  works _ _ := rfl

theorem sameSector_iff_big : (bigVolume 8388613).SameSector 3 0 8388613 ↔
    (8388613 : UInt32).toNat < 2 ^ 23 :=
  sameSector_iff (places_bigVolume (by decide) (by decide))

/-- What is written to block `2^23 + 5` through a buffer is not what is read directly. -/
theorem not_sameSector_big : ¬(bigVolume 8388613).SameSector 3 0 8388613 := by
  intro h
  refine (places_bigVolume (d := 8388613) (by decide) (by decide)).not_readsBack
    (u := Uio.uioKinit (List.replicate 512 7) 512 0 .write) (v := Uio.uioKinit [] 512 0 .read)
    (by decide) ⟨⟨le_rfl, fun _ => ?_⟩, rfl, rfl, le_rfl, fun hc => hc.1 rfl⟩
    ⟨⟨le_rfl, fun hc => by cases hc⟩, rfl, rfl, le_rfl, fun hc => hc.1 rfl⟩ (fun hdata => ?_)
    h.buffered
  · change [512].sum ≤ (List.replicate 512 (7 : UInt8)).length
    rw [List.length_replicate, List.sum_singleton]
  · have hmem : (7 : UInt8) ∈ List.ofFn (Bytes.zero : Block) := by
      refine hdata ▸ ?_
      change (7 : UInt8) ∈ (List.replicate 512 7).take 512
      rw [List.take_of_length_le List.length_replicate.le]
      exact List.mem_replicate.mpr ⟨by decide, rfl⟩
    obtain ⟨i, hi⟩ := List.mem_ofFn.mp hmem
    have hi : (0 : UInt8) = 7 := hi
    exact absurd hi (by decide)

end Sfs

end Os161
