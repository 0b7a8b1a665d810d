import Os161.Sfs.Content
import Os161.Sfs.FileIo

/-!
# Transfers between a file and a `uio`

What `sfs_partialio` and `sfs_blockio` move on a disk that works, for any `uio` with enough room in
its buffers, in whatever pieces.

A write has come some way when the file reads as before with the bytes taken so far written at the
position where the transfer began (`Wrote`); a read, when the caller has the bytes the file has
there (`Got`). Both add up, so what a part of the transfer does is said about the state it starts
from, and a whole transfer is its parts one after the other. `WriteStop` and `ReadStop` say the same
about a call that stops early.

The volume has at most `2^23` blocks: past that `sfs_blockio` addresses another sector.

## Main results

* `wp_partialio_write`, `wp_blockio_write`, `wp_partialio_read`, `wp_blockio_read`
-/

namespace Os161

namespace Sfs

open Prog

/-! ### Moving bytes -/

/-- A copy to or from the caller's buffers can fail. -/
def State.MayFault (s : State) : Prop :=
  s.uio.uioSegflg ≠ .sysspace ∧ ∃ i, s.mount.world.copy i = false

section Move

variable {W : Watch fsGrowth} {E : Stop → State → Prop} {s : State}

theorem wp_uiomove {buf : List UInt8} {R : List UInt8 → State → Prop} (hu : s.uio.Ample)
    (hbuf : buf.length ≤ s.uio.uioResid.toNat)
    (hdone : ∀ r, Uio.Transfer s.mount.world.copy s.uio buf buf.length r →
      R r.buf { s with uio := r.uio, tick := r.tick })
    (hfault : buf ≠ [] → ∀ r c, Uio.Transfer s.mount.world.copy s.uio buf c r → s.MayFault →
      E (.fail .efault) { s with uio := r.uio, tick := r.tick }) : wp W (uiomove buf) R E s := by
  obtain ⟨c, hr⟩ := Uio.uiomove_transfer s.mount.world.copy s.tick hu hbuf
  rw [uiomove]
  refine wp_get_bind (wp_bind (wp_modify ?_))
  dsimp only
  rcases hr.stop with ⟨hstop, hc⟩ | ⟨hstop, hbad⟩
  · rw [hstop]
    exact wp_pure fun _ => hdone _ (hc ▸ hr)
  · have hne : buf ≠ [] := by
      rintro rfl
      rw [Uio.stop_uiomove_nil] at hstop
      cases hstop
    rw [hstop]
    exact wp_fail (hfault hne _ c hr hbad)

theorem wp_uiomovezeros {n : ℕ} {R : Unit → State → Prop} (hu : s.uio.Ample)
    (hn : n ≤ s.uio.uioResid.toNat)
    (hdone : ∀ r, Uio.Zeroed s.mount.world.copy s.uio n n r →
      R () { s with uio := r.uio, tick := r.tick })
    (hfault : ∀ r c, Uio.Zeroed s.mount.world.copy s.uio n c r → s.MayFault →
      E (.fail .efault) { s with uio := r.uio, tick := r.tick }) :
    wp W (uiomovezeros n) R E s := by
  obtain ⟨c, hr⟩ := Uio.uiomovezeros_zeroed s.mount.world.copy s.tick hu hn
  rw [uiomovezeros]
  refine wp_get_bind (wp_bind (wp_modify ?_))
  dsimp only
  rcases hr.stop with ⟨hstop, hc⟩ | ⟨hstop, hbad⟩
  · rw [hstop]
    exact wp_pure fun _ => hdone _ (hc ▸ hr)
  · rw [hstop]
    exact wp_fail (hfault _ c hr hbad)

/-! ### The device -/

/-- The disk carries out every command. -/
def State.Works (s : State) : Prop := ∀ rw k, s.mount.world.media rw k = true

/-- A request that the device answers at the first try, or not with an I/O error. -/
theorem wp_rwblock {R : Unit → State → Prop}
    (h : wp W lhdIo R (fun e t => match e with
      | .fail .einval => False
      | .fail .eio => False
      | .fail e => E (.fail e) t
      | .panic p => E (.panic p) t) s) : wp W rwblock R E s := by
  rw [rwblock, rwblockLoop, rwblockTry]
  refine wp_bind (wp_trying (wp_mono h (fun a t _ _ hR => wp_pure fun _ => hR) ?_))
  intro e t _ _ he
  cases e with
  | fail e =>
    cases e <;> first | exact he.elim | exact wp_fail he
  | panic p => exact he

/-- A request for one sector of the device. -/
theorem wp_rwblock_sector {R : Unit → State → Prop} (sector : UInt32)
    (hoff : s.uio.uioOffset = sector.toNat * 512) (hres : s.uio.uioResid = 512)
    (hd : sector < s.mount.dBlocks)
    (h : wp W (lhdSector s.uio.uioRw sector) R (fun e t => match e with
      | .fail .einval => False
      | .fail .eio => False
      | .fail e => E (.fail e) t
      | .panic p => E (.panic p) t) s) : wp W rwblock R E s := by
  refine wp_rwblock (wp_of_run_eq ?_ h)
  rw [run_lhdIo sector hoff hres, if_neg (fits_of_lt hd)]

theorem wp_lhdSector_write {R : Unit → State → Prop} (sector : UInt32) (hworks : s.Works)
    (hu : s.uio.Ample) (hres : 512 ≤ s.uio.uioResid.toNat)
    (hdone : ∀ r, Uio.Transfer s.mount.world.copy s.uio (List.replicate 512 0) 512 r →
      R () { s with
        uio := r.uio, tick := r.tick, writes := s.writes + 1
        disk := Function.update s.disk sector (blockOfList r.buf) })
    (hfault : ∀ r c, Uio.Transfer s.mount.world.copy s.uio (List.replicate 512 0) c r →
      s.MayFault → E (.fail .efault) { s with uio := r.uio, tick := r.tick }) :
    wp W (lhdSector .write sector) R E s := by
  rw [lhdSector]
  refine wp_bind (wp_uiomove hu (by rwa [List.length_replicate]) (fun r hr => ?_) fun _ => hfault)
  rw [List.length_replicate] at hr
  refine wp_bind (wp_askWrite ?_)
  refine wp_ite (fun _ => wp_modify (hdone r hr)) fun hc => absurd (hworks .write _) hc

theorem wp_lhdSector_read {R : Unit → State → Prop} (sector : UInt32) (hworks : s.Works)
    (hu : s.uio.Ample) (hres : 512 ≤ s.uio.uioResid.toNat)
    (hdone : ∀ r, Uio.Transfer s.mount.world.copy s.uio (List.ofFn (s.disk sector)) 512 r →
      R () { s with uio := r.uio, tick := r.tick })
    (hfault : ∀ r c, Uio.Transfer s.mount.world.copy s.uio (List.ofFn (s.disk sector)) c r →
      s.MayFault → E (.fail .efault) { s with uio := r.uio, tick := r.tick }) :
    wp W (lhdSector .read sector) R E s := by
  rw [lhdSector]
  refine wp_bind (wp_ask (wp_ite (fun _ => ?_) fun hc => absurd (hworks .read _) hc))
  refine wp_get_bind (wp_bind ?_)
  refine wp_uiomove (s := { s with tick := s.tick + 1 }) hu (by rwa [List.length_ofFn])
    (fun r hr => ?_) fun _ => hfault
  rw [List.length_ofFn] at hr
  exact wp_pure fun _ => hdone r hr

/-- `sfs_blockio` from the point where it has found a disk block; `u` is the caller's `uio`. -/
def directIo (u : Uio) (diskblock : UInt32) : Sk Unit := do
  kassert (512 ≤ u.uioResid) .blockResid
  modify fun c => { c with uio := c.uio.aimed (diskblock * 512).toNat 512 }
  let r ← trying rwblock
  modify fun c => { c with uio := u.restored c.uio (diskblock * 512).toNat 512 }
  match r with
  | .ok () => pure ()
  | .error e => fail e

theorem blockio_eq (ino : UInt32) : blockio ino = (do
    let s ← get
    let diskblock ← bmap ino (UInt32.ofNat (s.uio.uioOffset / 512)) (s.uio.uioRw = .write)
    if diskblock = 0 then do
      kassert (s.uio.uioRw = .read) .writeHole
      uiomovezeros 512
    else directIo s.uio diskblock) := rfl

/-- The sector `sfs_blockio` addresses for a disk block. -/
def ioSector (diskblock : UInt32) : UInt32 := diskblock * 512 / 512

theorem toNat_ioSector (diskblock : UInt32) :
    (ioSector diskblock).toNat = diskblock.toNat % 2 ^ 23 := by
  have h512 : (512 : UInt32).toNat = 512 := rfl
  rw [ioSector, UInt32.toNat_div, UInt32.toNat_mul, h512]
  omega

theorem ioSector_of_lt {diskblock : UInt32} (h : diskblock.toNat < 2 ^ 23) :
    ioSector diskblock = diskblock := by
  rw [← UInt32.toNat_inj, toNat_ioSector, Nat.mod_eq_of_lt h]

theorem toNat_mul_512 (diskblock : UInt32) :
    (diskblock * 512).toNat = (ioSector diskblock).toNat * 512 := by
  have h512 : (512 : UInt32).toNat = 512 := rfl
  rw [toNat_ioSector, UInt32.toNat_mul, h512]
  omega

/-- The direct transfer of a block, once the device's part is known. -/
theorem wp_directIo {R : Unit → State → Prop} {diskblock : UInt32}
    (hres : 512 ≤ s.uio.uioResid) (hd : ioSector diskblock < s.mount.dBlocks)
    (h : wp W (lhdSector s.uio.uioRw (ioSector diskblock))
      (fun _ t => R () { t with uio := s.uio.restored t.uio (diskblock * 512).toNat 512 })
      (fun e t => e = .fail .efault ∧
        E e { t with uio := s.uio.restored t.uio (diskblock * 512).toNat 512 })
      { s with uio := s.uio.aimed (diskblock * 512).toNat 512 }) :
    wp W (directIo s.uio diskblock) R E s := by
  rw [directIo]
  refine wp_bind (wp_kassert hres (wp_bind (wp_modify (wp_bind (wp_trying ?_)))))
  refine wp_rwblock_sector (ioSector diskblock) (toNat_mul_512 diskblock) rfl hd ?_
  refine wp_mono h (fun a t _ _ hR => ?_) fun e t _ _ hE => ?_
  · exact wp_bind (wp_modify (wp_pure fun _ => hR))
  · obtain ⟨rfl, hE⟩ := hE
    exact wp_bind (wp_modify (wp_fail hE))

theorem wp_directIo_write {R : Unit → State → Prop} {diskblock : UInt32} (hworks : s.Works)
    (hu : s.uio.Ample) (hrw : s.uio.uioRw = .write) (hres : 512 ≤ s.uio.uioResid.toNat)
    (hd : ioSector diskblock < s.mount.dBlocks)
    (hdone : ∀ v k, Uio.Advanced s.uio v 512 → R () { s with
      uio := v, tick := k, writes := s.writes + 1
      disk := Function.update s.disk (ioSector diskblock) (blockOfList (s.uio.src.take 512)) })
    (hfault : ∀ v k c, Uio.Advanced s.uio v c → c ≤ 512 → s.MayFault →
      E (.fail .efault) { s with uio := v, tick := k }) :
    wp W (directIo s.uio diskblock) R E s := by
  have hle : (512 : UInt32) ≤ s.uio.uioResid := hres
  refine wp_directIo hle hd ?_
  rw [hrw]
  have hlen : ∀ n, (List.replicate n (0 : UInt8)).length ≤ n := fun n =>
    List.length_replicate.le
  refine wp_lhdSector_write (s := { s with uio := s.uio.aimed _ 512 }) _ hworks (hu.aimed hle)
    le_rfl (fun r hr => ?_) fun r c hr hmay => ⟨rfl, ?_⟩
  · have hbuf : r.buf = s.uio.src.take 512 := by
      rw [hr.buf_write hrw, List.drop_eq_nil_of_le (hlen 512), List.append_nil]
      rfl
    rw [hbuf]
    exact hdone _ _ ((hr.advanced (hlen 512)).restored hle)
  · exact hfault _ _ c ((hr.advanced (hlen 512)).restored hle)
      (hr.le.trans (hlen 512)) hmay

theorem wp_directIo_read {R : Unit → State → Prop} {diskblock : UInt32} (hworks : s.Works)
    (hu : s.uio.Ample) (hrw : s.uio.uioRw = .read) (hres : 512 ≤ s.uio.uioResid.toNat)
    (hd : ioSector diskblock < s.mount.dBlocks)
    (hdone : ∀ v k, Uio.Advanced s.uio v 512 →
      v.dst = s.uio.dst ++ List.ofFn (s.disk (ioSector diskblock)) →
      R () { s with uio := v, tick := k })
    (hfault : ∀ v k c, Uio.Advanced s.uio v c → c ≤ 512 →
      v.dst = s.uio.dst ++ (List.ofFn (s.disk (ioSector diskblock))).take c → s.MayFault →
      E (.fail .efault) { s with uio := v, tick := k }) :
    wp W (directIo s.uio diskblock) R E s := by
  have hle : (512 : UInt32) ≤ s.uio.uioResid := hres
  refine wp_directIo hle hd ?_
  rw [hrw]
  have hlen : ∀ b : Block, (List.ofFn b).length ≤ 512 := fun b => List.length_ofFn.le
  refine wp_lhdSector_read (s := { s with uio := s.uio.aimed _ 512 }) _ hworks (hu.aimed hle)
    le_rfl (fun r hr => ?_) fun r c hr hmay => ⟨rfl, ?_⟩
  · refine hdone _ _ ((hr.advanced (hlen _)).restored hle) ?_
    have hdst := hr.dst hrw
    rwa [List.take_of_length_le (hlen _)] at hdst
  · exact hfault _ _ c ((hr.advanced (hlen _)).restored hle) (hr.le.trans (hlen _))
      (hr.dst hrw) hmay

end Move

/-! ### Writing -/

/-- A file on a consistent volume, a disk that works, and a `uio` with room in its buffers. -/
structure State.Steady (s : State) (ino : UInt32) (sv : SfsVnode) : Prop where
  vnode : s.vnode? ino = some sv
  tidy : s.Tidy sv.svI
  volume : s.VolumeOk
  works : s.Works
  ample : s.uio.Ample

/-- The same on a volume of at most `2^23` blocks. -/
structure State.Ready (s : State) (ino : UInt32) (sv : SfsVnode) : Prop
    extends s.Steady ino sv where
  small : s.mount.sfsSb.sbNblocks.toNat ≤ 2 ^ 23

/-- A block that `sfs_blockio` is given here to write to is one it addresses as it should. -/
def State.Near (s : State) (ino : UInt32) : Prop :=
  ∀ diskblock t, (bmap ino (UInt32.ofNat (s.uio.uioOffset / 512)) true).run s = .done diskblock t →
    diskblock.toNat < 2 ^ 23

/-- From `s` to `t` the next `c` bytes of the caller have been written to the file, which read as
`f`. -/
structure Wrote (f : Sparse 512) (s t : State) (ino : UInt32) (sv sv' : SfsVnode) (c : ℕ) : Prop
    extends Grown s t ino sv sv' where
  size : sv'.svI.sfiSize = sv.svI.sfiSize
  uio : Uio.Advanced s.uio t.uio c
  contents : image t.disk sv'.svI = f.put s.uio.uioOffset (s.uio.src.take c)

/-- From `s` to `t` the caller's buffers failed after `c` bytes: the first `c0` of them have been
written, and block `k` is there. -/
structure Faulted (s t : State) (ino : UInt32) (sv sv' : SfsVnode) (c0 c k : ℕ) : Prop
    extends Grown s t ino sv sv' where
  size : sv'.svI.sfiSize = sv.svI.sfiSize
  uio : Uio.Advanced s.uio t.uio c
  le : c0 ≤ c
  meets : Sparse.Meets 512 s.uio.uioOffset s.uio.uioResid.toNat k
  inside : s.uio.uioOffset + c ≤ 512 * k + 512
  contents : image t.disk sv'.svI =
    ((image s.disk sv.svI).put s.uio.uioOffset (s.uio.src.take c0)).touch k

/-- How a write to a file can stop early. -/
def WriteStop (s : State) (ino : UInt32) (sv : SfsVnode) : Stop → State → Prop
  | .fail .enospc, t => t.Full ∧ ∃ sv' c, Wrote (image s.disk sv.svI) s t ino sv sv' c
  | .fail .efbig, t =>
      143 * 512 ≤ t.uio.uioOffset ∧ ∃ sv' c, Wrote (image s.disk sv.svI) s t ino sv sv' c
  | .fail .efault, t => s.MayFault ∧ ∃ sv' c0 c k, Faulted s t ino sv sv' c0 c k
  | _, _ => False

section Write

variable {W : Watch fsGrowth} {E : Stop → State → Prop} {s m t : State} {ino : UInt32}
  {sv sv' sv'' : SfsVnode} {f : Sparse 512} {c c' : ℕ}

theorem State.Works.writesWork (h : s.Works) : s.WritesWork := h .write

theorem State.Works.writable (h : s.Works) (W : Watch fsGrowth) : s.Writable W :=
  h.writesWork.writable W

theorem State.Steady.step (h : s.Steady ino sv) (hg : Grown s t ino sv sv')
    (ha : Uio.Advanced s.uio t.uio c) : t.Steady ino sv' where
  vnode := hg.vnode
  tidy := hg.tidy
  volume := hg.volumeOk h.volume
  works := by
    rw [State.Works, hg.mount]
    exact h.works
  ample := ha.ample h.ample

theorem State.Ready.step (h : s.Ready ino sv) (hg : Grown s t ino sv sv')
    (ha : Uio.Advanced s.uio t.uio c) : t.Ready ino sv' where
  toSteady := h.toSteady.step hg ha
  small := by
    rw [hg.mount]
    exact h.small

theorem State.Tidy.inUse_fileBlock {d : Dinode} (h : s.Tidy d) {k : ℕ}
    (hk : fileBlock s.disk d k ≠ 0) : s.InUse (fileBlock s.disk d k) := by
  obtain ⟨p, -, -, hp⟩ := exists_ofBlock hk
  rw [hp] at hk ⊢
  exact h.inUse p hk

theorem State.Steady.lt_dBlocks (h : s.Steady ino sv) {block : UInt32} (huse : s.InUse block) :
    block < s.mount.dBlocks :=
  UInt32.lt_of_lt_of_le huse.1 h.volume.fits

theorem State.MayFault.before (h : t.MayFault) (hg : Grown s t ino sv sv')
    (ha : Uio.Advanced s.uio t.uio c) : s.MayFault := by
  rw [State.MayFault, hg.mount, ha.uioSegflg] at h
  exact h

/-- A read that failed has no place on a disk that works. -/
theorem State.Works.absurd (h : s.Works) {P : Prop}
    (hm : s.mount.world.media .read s.tick = false) : P :=
  Bool.noConfusion (hm.symm.trans (h .read s.tick))

theorem Wrote.trans (hu : s.uio.Ample) (hrw : s.uio.uioRw = .write)
    (h : Wrote f s m ino sv sv' c) (h' : Wrote (image m.disk sv'.svI) m t ino sv' sv'' c') :
    Wrote f s t ino sv sv'' (c + c') where
  toGrown := h.toGrown.trans h'.toGrown
  size := h'.size.trans h.size
  uio := h.uio.trans h'.uio
  contents := by
    have hlen := h.uio.length_take hu hrw
    have hoff : m.uio.uioOffset = s.uio.uioOffset + (s.uio.src.take c).length := by
      rw [hlen, h.uio.uioOffset]
    rw [h'.contents, h.contents, hoff, Sparse.put_append (by omega), h.uio.src hrw, List.take_add]

theorem Faulted.after (hu : s.uio.Ample) (hrw : s.uio.uioRw = .write)
    (h : Wrote (image s.disk sv.svI) s m ino sv sv' c) {c0 k : ℕ}
    (h' : Faulted m t ino sv' sv'' c0 c' k) : Faulted s t ino sv sv'' (c + c0) (c + c') k where
  toGrown := h.toGrown.trans h'.toGrown
  size := h'.size.trans h.size
  uio := h.uio.trans h'.uio
  le := Nat.add_le_add_left h'.le c
  meets := by
    have hmeets := h'.meets
    have hle := h.uio.le
    rw [h.uio.uioOffset, h.uio.uioResid] at hmeets
    obtain ⟨h1, h2, h3⟩ := hmeets
    exact ⟨by omega, by omega, by omega⟩
  inside := by
    have hin := h'.inside
    rw [h.uio.uioOffset] at hin
    omega
  contents := by
    have hlen := h.uio.length_take hu hrw
    have hoff : m.uio.uioOffset = s.uio.uioOffset + (s.uio.src.take c).length := by
      rw [hlen, h.uio.uioOffset]
    rw [h'.contents, h.contents, hoff, Sparse.put_append (by omega), h.uio.src hrw, List.take_add]

/-- A write that stops after a part that did not. -/
theorem WriteStop.after (hu : s.uio.Ample) (hrw : s.uio.uioRw = .write)
    (h : Wrote (image s.disk sv.svI) s m ino sv sv' c) {e : Stop}
    (h' : WriteStop m ino sv' e t) : WriteStop s ino sv e t := by
  cases e with
  | panic p => exact h'.elim
  | fail e =>
    cases e <;> try exact h'.elim
    case enospc =>
      obtain ⟨hfull, sv'', c', hw⟩ := h'
      exact ⟨hfull, sv'', _, h.trans hu hrw hw⟩
    case efbig =>
      obtain ⟨hbig, sv'', c', hw⟩ := h'
      exact ⟨hbig, sv'', _, h.trans hu hrw hw⟩
    case efault =>
      obtain ⟨hmay, sv'', c0, c', k, hf⟩ := h'
      exact ⟨hmay.before h.toGrown h.uio, sv'', _, _, k, hf.after hu hrw h⟩

/-- A block with some of its bytes replaced. -/
theorem get_blockOfList_splice (b : Block) (l : List UInt8) {skip : ℕ}
    (hfit : skip + l.length ≤ 512) {i : ℕ} (hi : i < 512) :
    (blockOfList ((List.ofFn b).take skip ++ l ++ (List.ofFn b).drop (skip + l.length))).get i =
      if skip ≤ i ∧ i < skip + l.length then l.getD (i - skip) 0 else b.get i := by
  have hskip : ((List.ofFn b).take skip).length = skip := by
    rw [List.length_take, List.length_ofFn]
    omega
  rw [blockOfList, Bytes.get_ofFn _ hi, List.append_assoc]
  by_cases hlo : i < skip
  · rw [if_neg (by omega), List.getD_append _ _ _ _ (by omega), List.getD_eq_getElem _ _ (by omega),
      List.getElem_take, List.getElem_ofFn, Bytes.get_of_lt _ hi]
  · rw [List.getD_append_right _ _ _ _ (by omega), hskip]
    by_cases hmid : i < skip + l.length
    · rw [if_pos (by omega), List.getD_append _ _ _ _ (by omega)]
    · have hrest : i - skip - l.length < ((List.ofFn b).drop (skip + l.length)).length := by
        rw [List.length_drop, List.length_ofFn]
        omega
      rw [if_neg (by omega), List.getD_append_right _ _ _ _ (by omega),
        List.getD_eq_getElem _ _ hrest, List.getElem_drop, List.getElem_ofFn, Bytes.get_of_lt _ hi]
      congr 1
      exact Fin.ext (by dsimp only; omega)

/-- Replacing bytes in a block of the file is writing them there. -/
theorem update_splice {f : Sparse 512} {k : ℕ} {b : Block} (hb : f k = some b) (skip : ℕ)
    (l : List UInt8) (hfit : skip + l.length ≤ 512) :
    Function.update f k (some (blockOfList
      ((List.ofFn b).take skip ++ l ++ (List.ofFn b).drop (skip + l.length)))) =
      f.put (512 * k + skip) l := by
  by_cases hl : l = []
  · subst hl
    have hsame : blockOfList ((List.ofFn b).take skip ++ [] ++
        (List.ofFn b).drop (skip + ([] : List UInt8).length)) = b := by
      rw [List.append_nil, List.length_nil, Nat.add_zero, List.take_append_drop,
        blockOfList_ofFn]
    rw [hsame, Sparse.put_nil, ← hb, Function.update_eq_self]
  · refine (Sparse.put_block hl hfit fun i hi => ?_).symm
    rw [get_blockOfList_splice b l hfit hi, Sparse.block, hb, Option.getD_some]

theorem Mapped.advanced (h : Mapped s t ino sv sv') : Uio.Advanced s.uio t.uio 0 := by
  rw [h.uio]
  exact Uio.Advanced.zero _

/-- Nothing has been written yet. -/
theorem Mapped.wrote (h : Mapped s t ino sv sv')
    (himage : image t.disk sv'.svI = image s.disk sv.svI) :
    Wrote (image s.disk sv.svI) s t ino sv sv' 0 where
  toGrown := h.toGrown
  size := h.size
  uio := h.advanced
  contents := by rw [himage, List.take_zero, Sparse.put_nil]

theorem wp_partialio_write {R : Unit → State → Prop} (h : s.Steady ino sv)
    (hrw : s.uio.uioRw = .write) {skipstart len : UInt32}
    (hskip : skipstart.toNat = s.uio.uioOffset % 512) (hfit : skipstart.toNat + len.toNat ≤ 512)
    (hlen : len.toNat ≤ s.uio.uioResid.toNat) (hoff : s.uio.uioOffset / 512 < 2 ^ 32)
    (hdone : ∀ t sv', Wrote ((image s.disk sv.svI).touch (s.uio.uioOffset / 512)) s t ino sv sv'
      len.toNat → R () t)
    (hstop : ∀ e t, WriteStop s ino sv e t → E e t) :
    wp W (partialio ino skipstart len) R E s := by
  have hnat : (UInt32.ofNat (s.uio.uioOffset / 512)).toNat = s.uio.uioOffset / 512 :=
    UInt32.toNat_ofNat_of_lt' hoff
  rw [partialio]
  refine wp_get_bind (wp_bind (wp_kassert ?_ ?_))
  · have h512 : (512 : UInt32).toNat = 512 := rfl
    rw [UInt32.le_iff_toNat_le, UInt32.toNat_add, h512]
    omega
  rw [decide_eq_true hrw]
  refine wp_bind (wp_bmap_alloc h.vnode h.tidy h.volume (h.works.writable W) _
    (fun m sv' block hm hblock h0 himage _ => ?_) (fun m sv' hm hfull hsame himage => ?_)
    (fun hbig => ?_)
    fun hm => h.works.absurd hm)
  · rw [hnat] at hblock himage
    have hready := h.step hm.toGrown hm.advanced
    have huse : m.InUse block := hblock ▸ hready.tidy.inUse_fileBlock (hblock ▸ h0)
    have hbuf : (((List.ofFn (m.disk block)).drop skipstart.toNat).take len.toNat).length =
        len.toNat := by
      rw [List.length_take, List.length_drop, List.length_ofFn]
      omega
    dsimp only
    rw [if_neg h0]
    refine wp_bind (wp_readblock (hready.lt_dBlocks huse) (fun k => ?_)
      fun hm => hready.works.absurd hm)
    rw [pure_bind]
    refine wp_bind (wp_uiomove (s := { m with tick := k }) hready.ample ?_ (fun r hr => ?_)
      fun hne r c hr hmay => ?_)
    · rw [hbuf]
      exact hm.uio ▸ hlen
    · change Uio.Transfer _ m.uio _ _ r at hr
      rw [hbuf, hm.uio] at hr
      have hadv := hr.advanced (hbuf.trans_le hlen)
      have hsrc := hadv.length_take h.ample hrw
      have hmoved : r.buf = s.uio.src.take len.toNat := by
        rw [hr.buf_write hrw, List.drop_eq_nil_of_le hbuf.le, List.append_nil]
      have hwritten : ∀ data, State.written { m with uio := r.uio, tick := r.tick } block data =
          Function.update m.disk block data := fun data =>
          State.WritesWork.written (s := { m with uio := r.uio, tick := r.tick })
            hready.works.writesWork block data
      refine wp_when (fun _ => wp_writeblock (hready.lt_dBlocks huse) ?_) fun hc => absurd hrw hc
      rw [hwritten, hmoved]
      obtain ⟨hgrown, hcontents⟩ := Grown.write (t := { m with
          uio := r.uio, tick := r.tick, writes := m.writes + 1
          disk := Function.update m.disk block (blockOfList
            ((List.ofFn (m.disk block)).take skipstart.toNat ++ s.uio.src.take len.toNat ++
              (List.ofFn (m.disk block)).drop (skipstart.toNat + len.toNat))) })
        hready.vnode hready.tidy hblock h0 _ rfl (Nat.le_succ _)
      refine hdone _ sv' ⟨hm.toGrown.trans hgrown, hm.size, hadv, ?_⟩
      have hpresent : image m.disk sv'.svI (s.uio.uioOffset / 512) = some (m.disk block) := by
        rw [image_of_ne (hblock ▸ h0), hblock]
      have hsplice := update_splice hpresent skipstart.toNat (s.uio.src.take len.toNat)
        (by rw [hsrc]; exact hfit)
      rw [hsrc, hskip, Nat.div_add_mod] at hsplice
      rw [hcontents, ← himage, ← hsplice, hskip]
    · change Uio.Transfer _ m.uio _ _ r at hr
      rw [hm.uio] at hr
      have hadv := hr.advanced (hbuf.trans_le hlen)
      have hpos : 0 < len.toNat := by
        rw [← hbuf]
        exact List.length_pos_iff.mpr hne
      have hc := hr.le
      rw [hbuf] at hc
      have hgrown : Grown m { m with uio := r.uio, tick := r.tick } ino sv' sv' :=
        Grown.same hready.vnode hready.tidy _ _
      refine hstop _ _ ⟨State.MayFault.before (t := m) hmay hm.toGrown hm.advanced,
        sv', 0, c, s.uio.uioOffset / 512,
        hm.toGrown.trans hgrown, hm.size, hadv, Nat.zero_le c, ⟨by omega, by omega, by omega⟩,
        by omega, ?_⟩
      rw [List.take_zero, Sparse.put_nil]
      exact himage
  · exact hstop _ _ ⟨hfull, sv', 0, hm.wrote himage⟩
  · refine hstop _ _ ⟨?_, sv, 0, (Mapped.same h.vnode h.tidy s.tick).wrote rfl⟩
    rw [hnat] at hbig
    omega

theorem State.Ready.lt_small (h : s.Ready ino sv) {block : UInt32} (huse : s.InUse block) :
    block.toNat < 2 ^ 23 :=
  Nat.lt_of_lt_of_le huse.1 h.small

theorem wp_blockio_write {R : Unit → State → Prop} (h : s.Steady ino sv) (hnear : s.Near ino)
    (hrw : s.uio.uioRw = .write) (halign : s.uio.uioOffset % 512 = 0)
    (hres : 512 ≤ s.uio.uioResid.toNat) (hoff : s.uio.uioOffset / 512 < 2 ^ 32)
    (hdone : ∀ t sv', Wrote (image s.disk sv.svI) s t ino sv sv' 512 → R () t)
    (hstop : ∀ e t, WriteStop s ino sv e t → E e t) : wp W (blockio ino) R E s := by
  have hnat : (UInt32.ofNat (s.uio.uioOffset / 512)).toNat = s.uio.uioOffset / 512 :=
    UInt32.toNat_ofNat_of_lt' hoff
  rw [blockio_eq]
  refine wp_get_bind ?_
  rw [decide_eq_true hrw]
  refine wp_bind (wp_mono (wp_and (wp_ran W _ s) (wp_bmap_alloc
    (R := fun block m => ∃ sv', Mapped s m ino sv sv' ∧
      fileBlock m.disk sv'.svI (UInt32.ofNat (s.uio.uioOffset / 512)).toNat = block ∧ block ≠ 0 ∧
      image m.disk sv'.svI =
        (image s.disk sv.svI).touch (UInt32.ofNat (s.uio.uioOffset / 512)).toNat)
    h.vnode h.tidy h.volume (h.works.writable W) _
    (fun m sv' block hm hblock h0 himage _ => ⟨sv', hm, hblock, h0, himage⟩)
    (fun m sv' hm hfull hsame himage => ?_) (fun hbig => ?_) fun hm => h.works.absurd hm))
    (fun block m _ _ hrun => ?_) fun _ _ _ _ he => he.2)
  rotate_left 2
  · obtain ⟨hrun, sv', hm, hblock, h0, himage⟩ := hrun
    rw [hnat] at hblock himage
    have hready := h.step hm.toGrown hm.advanced
    have huse : m.InUse block := hblock ▸ hready.tidy.inUse_fileBlock (hblock ▸ h0)
    have hsector : ioSector block = block := ioSector_of_lt (hnear block m hrun)
    rw [if_neg h0, ← hm.uio]
    refine wp_directIo_write hready.works hready.ample (hm.uio ▸ hrw) (hm.uio ▸ hres)
      (by rw [hsector]; exact hready.lt_dBlocks huse) (fun v k hadv => ?_)
      fun v k c hadv hc hmay => ?_
    · rw [hsector]
      rw [hm.uio] at hadv ⊢
      have hsrc := hadv.length_take h.ample hrw
      obtain ⟨hgrown, hcontents⟩ := Grown.write (t := { m with
          uio := v, tick := k, writes := m.writes + 1
          disk := Function.update m.disk block (blockOfList (s.uio.src.take 512)) })
        hready.vnode hready.tidy hblock h0 _ rfl (Nat.le_succ _)
      refine hdone _ sv' ⟨hm.toGrown.trans hgrown, hm.size, hadv, ?_⟩
      have hpresent : image m.disk sv'.svI (s.uio.uioOffset / 512) = some (m.disk block) := by
        rw [image_of_ne (hblock ▸ h0), hblock]
      have hsplice := update_splice hpresent 0 (s.uio.src.take 512) (by omega)
      have hmeets : Sparse.Meets 512 s.uio.uioOffset (s.uio.src.take 512).length
          (s.uio.uioOffset / 512) := by
        rw [hsrc]
        exact ⟨by omega, by omega, by omega⟩
      rw [List.take_zero, List.nil_append, List.drop_eq_nil_of_le
        (by rw [List.length_ofFn]; omega), List.append_nil,
        show 512 * (s.uio.uioOffset / 512) + 0 = s.uio.uioOffset by omega] at hsplice
      rw [hcontents, hsplice, himage, Sparse.put_touch (by omega) hmeets]
    · rw [hm.uio] at hadv
      have hgrown : Grown m { m with uio := v, tick := k } ino sv' sv' :=
        Grown.same hready.vnode hready.tidy _ _
      refine hstop _ _ ⟨hmay.before hm.toGrown hm.advanced, sv', 0, c, s.uio.uioOffset / 512,
        hm.toGrown.trans hgrown, hm.size, hadv, Nat.zero_le c, ⟨by omega, by omega, by omega⟩,
        by omega, ?_⟩
      rw [List.take_zero, Sparse.put_nil]
      exact himage
  · exact hstop _ _ ⟨hfull, sv', 0, hm.wrote himage⟩
  · refine hstop _ _ ⟨?_, sv, 0, (Mapped.same h.vnode h.tidy s.tick).wrote rfl⟩
    rw [hnat] at hbig
    omega

/-- What has been written is at mappable positions. -/
theorem Wrote.bound (h : Wrote f s t ino sv sv' c) (hu : s.uio.Ample)
    (hrw : s.uio.uioRw = .write) (hc : 0 < c) : t.uio.uioOffset ≤ 143 * 512 := by
  have hlen := h.uio.length_take hu hrw
  have hsome : (image t.disk sv'.svI ((s.uio.uioOffset + c - 1) / 512)).isSome = true := by
    rw [h.contents, Sparse.isSome_put, hlen, decide_eq_true, Bool.or_true]
    exact ⟨by omega, by omega, by omega⟩
  have hlt := lt_of_fileBlock_ne ((isSome_image _ _ _).mp hsome)
  rw [h.uio.uioOffset]
  omega

theorem Faulted.bound {c0 k : ℕ} (h : Faulted s t ino sv sv' c0 c k) :
    t.uio.uioOffset ≤ 143 * 512 := by
  have hsome : (image t.disk sv'.svI k).isSome = true := by
    rw [h.contents, Sparse.isSome_touch, decide_eq_true rfl, Bool.or_true]
  have hlt := lt_of_fileBlock_ne ((isSome_image _ _ _).mp hsome)
  have hin := h.inside
  rw [h.uio.uioOffset]
  omega

/-- A write that has begun and goes on. -/
theorem State.Steady.wrote (h : s.Steady ino sv) (hw : Wrote f s t ino sv sv' c) :
    t.Steady ino sv' := h.step hw.toGrown hw.uio

end Write

/-! ### Reading -/

/-- From `s` to `t` the caller has been given the next `c` bytes of a file that reads as `f`, and
nothing else has changed. -/
structure Got (f : Sparse 512) (s t : State) (c : ℕ) : Prop where
  state : t = { s with uio := t.uio, tick := t.tick }
  uio : Uio.Advanced s.uio t.uio c
  dst : t.uio.dst = s.uio.dst ++ f.read s.uio.uioOffset c

/-- How a read can stop early. -/
def ReadStop (f : Sparse 512) (s : State) : Stop → State → Prop
  | .fail .efault, t => s.MayFault ∧ ∃ c, Got f s t c
  | .fail .efbig, t => 143 * 512 ≤ t.uio.uioOffset ∧ ∃ c, Got f s t c
  | _, _ => False

section Read

variable {W : Watch fsGrowth} {E : Stop → State → Prop} {s m t : State} {ino : UInt32}
  {sv : SfsVnode} {f : Sparse 512} {c c' : ℕ}

theorem Got.zero (f : Sparse 512) (s : State) (k : ℕ) : Got f s { s with tick := k } 0 where
  state := rfl
  uio := Uio.Advanced.zero _
  dst := by rw [Sparse.read_zero, List.append_nil]

theorem Got.trans (h : Got f s m c) (h' : Got f m t c') : Got f s t (c + c') where
  state := by
    rw [h'.state, h.state]
  uio := h.uio.trans h'.uio
  dst := by rw [h'.dst, h.dst, h.uio.uioOffset, Sparse.read_add, List.append_assoc]

theorem ReadStop.after (h : Got f s m c) {e : Stop} (h' : ReadStop f m e t) :
    ReadStop f s e t := by
  cases e with
  | panic p => exact h'.elim
  | fail e =>
    cases e <;> try exact h'.elim
    case efault =>
      obtain ⟨hmay, c', hg⟩ := h'
      rw [h.state, State.MayFault] at hmay
      dsimp only at hmay
      rw [h.uio.uioSegflg] at hmay
      exact ⟨hmay, _, h.trans hg⟩
    case efbig =>
      obtain ⟨hbig, c', hg⟩ := h'
      exact ⟨hbig, _, h.trans hg⟩

theorem Got.image (h : Got f s t c) : image t.disk sv.svI = image s.disk sv.svI := by
  rw [h.state]

theorem State.Ready.got (h : s.Ready ino sv) (hg : Got f s t c) : t.Ready ino sv := by
  have hgrown := Grown.same h.vnode h.tidy t.uio t.tick
  rw [← hg.state] at hgrown
  exact h.step hgrown hg.uio

theorem wp_bmap_lookup {R : UInt32 → State → Prop} (h : s.Ready ino sv) (fileblock : UInt32)
    (hdone : ∀ k, R (fileBlock s.disk sv.svI fileblock.toNat) { s with tick := k })
    (hbig : 143 ≤ fileblock.toNat → E (.fail .efbig) s) :
    wp W (bmap ino fileblock false) R E s := by
  by_cases hlt : fileblock.toNat < 143
  · obtain ⟨k, hrun, -⟩ := bmap_lookup h.vnode hlt (h.works .read)
      (fun _ hind => h.lt_dBlocks (h.tidy.inUse .indirect hind)) rfl
    refine wp_of_run_done (hrun ?_) (hdone k)
    by_cases h0 : fileBlock s.disk sv.svI fileblock.toNat = 0
    · exact Or.inl h0
    · exact Or.inr (h.tidy.inUse_fileBlock h0)
  · rw [bmap, dif_neg (by omega), dif_neg (by omega)]
    exact wp_fail (hbig (by omega))

theorem wp_partialio_read {R : Unit → State → Prop} (h : s.Ready ino sv)
    (hrw : s.uio.uioRw = .read) {skipstart len : UInt32}
    (hskip : skipstart.toNat = s.uio.uioOffset % 512) (hfit : skipstart.toNat + len.toNat ≤ 512)
    (hlen : len.toNat ≤ s.uio.uioResid.toNat) (hoff : s.uio.uioOffset / 512 < 2 ^ 32)
    (hdone : ∀ t, Got (image s.disk sv.svI) s t len.toNat → R () t)
    (hstop : ∀ e t, ReadStop (image s.disk sv.svI) s e t → E e t) :
    wp W (partialio ino skipstart len) R E s := by
  have hnat : (UInt32.ofNat (s.uio.uioOffset / 512)).toNat = s.uio.uioOffset / 512 :=
    UInt32.toNat_ofNat_of_lt' hoff
  have hrange : skipstart + len ≤ 512 := by
    have h512 : (512 : UInt32).toNat = 512 := rfl
    rw [UInt32.le_iff_toNat_le, UInt32.toNat_add, h512]
    omega
  have hnot : ¬s.uio.uioRw = .write := by
    rw [hrw]
    exact fun hc => by cases hc
  -- the part after the block has been found, with what it reads as
  have hmove : ∀ (k : ℕ) (g : List UInt8 → Sk Unit), wp W (uiomove (((List.ofFn
      ((image s.disk sv.svI).block (s.uio.uioOffset / 512))).drop
        skipstart.toNat).take len.toNat) >>=
        fun moved => when (s.uio.uioRw = .write) (g moved)) R E { s with tick := k } := by
    intro k g
    have hbuf := Sparse.read_block (image s.disk sv.svI) (s.uio.uioOffset / 512) hfit
    rw [hskip, Nat.div_add_mod, ← hskip] at hbuf
    rw [← hbuf]
    have hlength := Sparse.length_read (image s.disk sv.svI) s.uio.uioOffset len.toNat
    refine wp_bind (wp_uiomove (s := { s with tick := k }) h.ample (by rwa [hlength])
      (fun r hr => wp_when (fun hc => absurd hc hnot) fun _ _ => hdone _ ⟨rfl, ?_, ?_⟩)
      fun _ r c hr hmay => hstop _ _ ⟨hmay, c, rfl, ?_, ?_⟩)
    · rw [hlength] at hr
      exact hr.advanced (hlength.trans_le hlen)
    · rw [hr.dst hrw, List.take_length]
    · exact hr.advanced (hlength.trans_le hlen)
    · rw [hr.dst hrw, Sparse.take_read _ _ (hlength ▸ hr.le)]
  rw [partialio]
  refine wp_get_bind (wp_bind (wp_kassert hrange ?_))
  rw [decide_eq_false hnot]
  refine wp_bind (wp_bmap_lookup h _ (fun k => ?_) fun hbig => ?_)
  · rw [hnat]
    dsimp only
    by_cases h0 : fileBlock s.disk sv.svI (s.uio.uioOffset / 512) = 0
    · have hblock : List.ofFn ((image s.disk sv.svI).block (s.uio.uioOffset / 512)) =
          List.replicate 512 0 := by
        rw [Sparse.block, image_of_zero h0]
        exact List.ofFn_const 512 0
      rw [if_pos h0]
      refine wp_bind (wp_kassert hrw ?_)
      rw [pure_bind, ← hblock]
      exact hmove k _
    · have hblock : (image s.disk sv.svI).block (s.uio.uioOffset / 512) =
          s.disk (fileBlock s.disk sv.svI (s.uio.uioOffset / 512)) := by
        rw [Sparse.block, image_of_ne h0, Option.getD_some]
      rw [if_neg h0]
      refine wp_bind (wp_readblock (h.lt_dBlocks (h.tidy.inUse_fileBlock h0)) (fun k' => ?_)
        fun hm => State.Works.absurd (s := { s with tick := k }) h.works hm)
      rw [pure_bind]
      dsimp only
      rw [← hblock]
      exact hmove k' _
  · rw [hnat] at hbig
    exact hstop _ _ ⟨by omega, 0, Got.zero _ s s.tick⟩

theorem wp_blockio_read {R : Unit → State → Prop} (h : s.Ready ino sv)
    (hrw : s.uio.uioRw = .read) (halign : s.uio.uioOffset % 512 = 0)
    (hres : 512 ≤ s.uio.uioResid.toNat) (hoff : s.uio.uioOffset / 512 < 2 ^ 32)
    (hdone : ∀ t, Got (image s.disk sv.svI) s t 512 → R () t)
    (hstop : ∀ e t, ReadStop (image s.disk sv.svI) s e t → E e t) :
    wp W (blockio ino) R E s := by
  have hnat : (UInt32.ofNat (s.uio.uioOffset / 512)).toNat = s.uio.uioOffset / 512 :=
    UInt32.toNat_ofNat_of_lt' hoff
  have hnot : ¬s.uio.uioRw = .write := by
    rw [hrw]
    exact fun hc => by cases hc
  have hread := Sparse.read_block (image s.disk sv.svI) (s.uio.uioOffset / 512)
    (show 0 + 512 ≤ 512 from le_rfl)
  rw [List.drop_zero, List.take_of_length_le (List.length_ofFn.le),
    show 512 * (s.uio.uioOffset / 512) + 0 = s.uio.uioOffset by omega] at hread
  rw [blockio_eq]
  refine wp_get_bind ?_
  rw [decide_eq_false hnot]
  refine wp_bind (wp_bmap_lookup h _ (fun k => ?_) fun hbig => ?_)
  · rw [hnat]
    by_cases h0 : fileBlock s.disk sv.svI (s.uio.uioOffset / 512) = 0
    · have hblock : (image s.disk sv.svI).read s.uio.uioOffset 512 = List.replicate 512 0 := by
        rw [hread, Sparse.block, image_of_zero h0]
        exact List.ofFn_const 512 0
      rw [if_pos h0]
      refine wp_bind (wp_kassert hrw (wp_uiomovezeros (s := { s with tick := k }) h.ample hres
        (fun r hr => hdone _ ⟨rfl, hr.advanced hres, ?_⟩)
        fun r c hr hmay => hstop _ _ ⟨hmay, c, rfl, hr.advanced hres, ?_⟩))
      · rw [hr.dst hrw, hblock, List.take_of_length_le List.length_replicate.le]
      · rw [hr.dst hrw, ← hblock, Sparse.take_read _ _ hr.le]
    · have huse := h.tidy.inUse_fileBlock h0
      have hsector := ioSector_of_lt (h.lt_small huse)
      have hblock : (image s.disk sv.svI).read s.uio.uioOffset 512 =
          List.ofFn (s.disk (fileBlock s.disk sv.svI (s.uio.uioOffset / 512))) := by
        rw [hread, Sparse.block, image_of_ne h0, Option.getD_some]
      rw [if_neg h0]
      refine wp_directIo_read (s := { s with tick := k }) h.works h.ample hrw hres
        (by rw [hsector]; exact h.lt_dBlocks huse) (fun v k hadv hdst => hdone _ ⟨rfl, hadv, ?_⟩)
        fun v k c hadv hc hdst hmay => hstop _ _ ⟨hmay, c, rfl, hadv, ?_⟩
      · rw [hdst, hsector, hblock]
      · rw [hdst, hsector, ← hblock, Sparse.take_read _ _ hc]
  · rw [hnat] at hbig
    exact hstop _ _ ⟨by omega, 0, Got.zero _ s s.tick⟩

end Read

end Sfs

end Os161
