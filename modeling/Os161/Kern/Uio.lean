import Mathlib.Data.List.Basic
import Mathlib.Logic.Function.Basic
import Mathlib.Order.Basic
import Mathlib.Order.Lattice
import Mathlib.Algebra.GroupWithZero.Nat

/-!
# Transfers described by a `uio`

`kern/lib/uio.c`. A `uio` describes the caller's side of a transfer: its buffers, how much is left
to move, where in the object the transfer is, and in which direction it goes. `uiomove` moves bytes
between a kernel buffer and the caller's buffers, taking them one after the other.

The buffers of the caller are pairwise disjoint, so only the order of their bytes matters: `src`
holds the bytes that a write still has to fetch from them and `dst` the bytes that a read has put
into them, while `uioIov` keeps their remaining lengths. Copies to and from user space may fail;
`copy k` tells whether the `k`-th one works. File positions are not negative.

## Main definitions

* `Uio`, `Uio.Moved`
* `Uio.uiomove`, `Uio.uiomovezeros`
-/

namespace Os161

/-- `enum uio_rw`. -/
inductive UioRw where
  /-- `UIO_READ` -/
  | read
  /-- `UIO_WRITE` -/
  | write
  deriving DecidableEq

/-- `enum uio_seg`. -/
inductive UioSeg where
  /-- `UIO_USERISPACE` -/
  | userispace
  /-- `UIO_USERSPACE` -/
  | userspace
  /-- `UIO_SYSSPACE` -/
  | sysspace
  deriving DecidableEq

/-- `struct uio`. -/
structure Uio where
  /-- `uio_iov`: the lengths of the buffers, from the current one on. -/
  uioIov : List ℕ
  /-- `uio_offset`. -/
  uioOffset : ℕ
  /-- `uio_resid`. -/
  uioResid : UInt32
  /-- `uio_segflg`. -/
  uioSegflg : UioSeg
  /-- `uio_rw`. -/
  uioRw : UioRw
  /-- What the buffers hold from the current place on, when writing. -/
  src : List UInt8
  /-- What has been put into the buffers, when reading. -/
  dst : List UInt8

namespace Uio

/-- Why a transfer ended early. -/
inductive Stop where
  /-- `EFAULT` -/
  | efault
  /-- "uiomove: ran out of buffers" -/
  | ranOut
  deriving DecidableEq

/-- What a transfer leaves behind. -/
structure Moved where
  /-- The `uio`. -/
  uio : Uio
  /-- The kernel buffer. -/
  buf : List UInt8
  /-- The number of copies attempted so far. -/
  tick : ℕ
  /-- `none` when the transfer returned `0`. -/
  stop : Option Stop

/-- `uio_kinit`. -/
def uioKinit (kbuf : List UInt8) (len : UInt32) (pos : ℕ) (rw : UioRw) : Uio where
  uioIov := [len.toNat]
  uioOffset := pos
  uioResid := len
  uioSegflg := .sysspace
  uioRw := rw
  src := kbuf
  dst := []

/-- The bookkeeping for `size` bytes moved, and what is in the kernel buffer for them. -/
def chunk (u : Uio) (size : ℕ) (left : List UInt8) : Uio × List UInt8 :=
  let u' := { u with
    uioResid := u.uioResid - UInt32.ofNat size, uioOffset := u.uioOffset + size }
  match u.uioRw with
  | .read => ({ u' with dst := u.dst ++ left.take size }, left.take size)
  | .write => ({ u' with src := u.src.drop size }, u.src.take size)

/-- The loop of `uiomove`, over the buffers of the caller; `left` is the part of the kernel buffer
still to be moved. -/
def moveLoop (copy : ℕ → Bool) : List ℕ → List UInt8 → Uio → ℕ → Moved
  | [], left, u, k =>
      ⟨{ u with uioIov := [] }, left, k, if left = [] ∨ u.uioResid = 0 then none else some .ranOut⟩
  | len :: iov, left, u, k =>
      if left = [] ∨ u.uioResid = 0 then ⟨{ u with uioIov := len :: iov }, left, k, none⟩
      else if len = 0 then
        -- move to the next buffer and try again
        if iov = [] then ⟨{ u with uioIov := [] }, left, k, some .ranOut⟩
        else moveLoop copy iov left u k
      else
        let size := min len left.length
        if u.uioSegflg ≠ .sysspace ∧ copy k = false then
          ⟨{ u with uioIov := len :: iov }, left, k + 1, some .efault⟩
        else
          let k' := if u.uioSegflg = .sysspace then k else k + 1
          let rest := left.drop size
          let u' := (u.chunk size left).1
          let moved := (u.chunk size left).2
          if rest = [] ∨ u'.uioResid = 0 then
            ⟨{ u' with uioIov := (len - size) :: iov }, moved ++ rest, k', none⟩
          else if iov = [] then ⟨{ u' with uioIov := [] }, moved ++ rest, k', some .ranOut⟩
          else
            let r := moveLoop copy iov rest u' k'
            { r with buf := moved ++ r.buf }

/-- `uiomove`, between the kernel buffer `buf` and the buffers of `u`. -/
def uiomove (copy : ℕ → Bool) (buf : List UInt8) (u : Uio) (k : ℕ) : Moved :=
  moveLoop copy u.uioIov buf u k

/-- The pieces `uiomovezeros` moves. -/
def zeroChunks (n : ℕ) : List ℕ :=
  List.replicate (n / 16) 16 ++ if n % 16 = 0 then [] else [n % 16]

/-- The loop of `uiomovezeros`. -/
def zerosLoop (copy : ℕ → Bool) : List ℕ → Uio → ℕ → Moved
  | [], u, k => ⟨u, [], k, none⟩
  | amt :: amts, u, k =>
      let r := uiomove copy (List.replicate amt 0) u k
      match r.stop with
      | some e => ⟨r.uio, [], r.tick, some e⟩
      | none => zerosLoop copy amts r.uio r.tick

/-- `uiomovezeros`. -/
def uiomovezeros (copy : ℕ → Bool) (n : ℕ) (u : Uio) (k : ℕ) : Moved :=
  zerosLoop copy (zeroChunks n) u k

/-! ### Transfers within the kernel -/

variable {u : Uio} {buf : List UInt8} {k : ℕ}

/-- A transfer from or to a single kernel buffer, all of it. -/
theorem uiomove_kernel (copy : ℕ → Bool) (hseg : u.uioSegflg = .sysspace)
    (hiov : u.uioIov = [buf.length]) (hres : u.uioResid.toNat = buf.length) (hne : buf ≠ []) :
    u.uiomove copy buf k =
      ⟨{ (u.chunk buf.length buf).1 with uioIov := [0] }, (u.chunk buf.length buf).2, k, none⟩ := by
  have hpos : buf.length ≠ 0 := fun h => hne (List.length_eq_zero_iff.mp h)
  have hres0 : u.uioResid ≠ 0 := by
    intro h
    rw [h] at hres
    exact hpos hres.symm
  rw [uiomove, hiov, moveLoop, if_neg (by simp [hne, hres0]), if_neg hpos,
    if_neg (by simp [hseg])]
  dsimp only
  rw [Nat.min_self, List.drop_length, if_pos (Or.inl rfl), List.append_nil, Nat.sub_self,
    if_pos hseg]

/-! ### Transfers in general -/

/-- The buffers are at least as long as `uio_resid` says, and when writing they hold their bytes. -/
structure Ample (u : Uio) : Prop where
  resid : u.uioResid.toNat ≤ u.uioIov.sum
  src : u.uioRw = .write → u.uioIov.sum ≤ u.src.length

/-- The same with other buffers. -/
def withIov (u : Uio) (iov : List ℕ) : Uio := { u with uioIov := iov }

@[simp] theorem uioIov_withIov (u : Uio) (iov : List ℕ) : (u.withIov iov).uioIov = iov := rfl

@[simp] theorem uioResid_withIov (u : Uio) (iov : List ℕ) :
    (u.withIov iov).uioResid = u.uioResid := rfl

@[simp] theorem uioSegflg_withIov (u : Uio) (iov : List ℕ) :
    (u.withIov iov).uioSegflg = u.uioSegflg := rfl

@[simp] theorem uioRw_withIov (u : Uio) (iov : List ℕ) : (u.withIov iov).uioRw = u.uioRw := rfl

@[simp] theorem uioOffset_withIov (u : Uio) (iov : List ℕ) :
    (u.withIov iov).uioOffset = u.uioOffset := rfl

@[simp] theorem dst_withIov (u : Uio) (iov : List ℕ) : (u.withIov iov).dst = u.dst := rfl

@[simp] theorem src_withIov (u : Uio) (iov : List ℕ) : (u.withIov iov).src = u.src := rfl

@[simp] theorem withIov_withIov (u : Uio) (iov iov' : List ℕ) :
    (u.withIov iov).withIov iov' = u.withIov iov' := rfl

/-- The transfer of `buf` moved `c` bytes: all of them, or fewer because a copy failed. -/
structure Transfer (copy : ℕ → Bool) (u : Uio) (buf : List UInt8) (c : ℕ) (r : Moved) : Prop where
  le : c ≤ buf.length
  uio : r.uio = (u.chunk c buf).1.withIov r.uio.uioIov
  iov : r.uio.uioIov.sum + c = u.uioIov.sum
  left : r.buf = (u.chunk c buf).2 ++ buf.drop c
  stop : r.stop = none ∧ c = buf.length ∨
    r.stop = some .efault ∧ u.uioSegflg ≠ .sysspace ∧ ∃ i, copy i = false

variable {copy : ℕ → Bool} {left : List UInt8} {m n : ℕ}

/-- The bookkeeping does not look at the buffers left. -/
theorem chunk_withIov (u : Uio) (iov : List ℕ) (n : ℕ) (left : List UInt8) :
    (u.withIov iov).chunk n left = ((u.chunk n left).1.withIov iov, (u.chunk n left).2) := by
  cases hrw : u.uioRw <;> simp [chunk, withIov, hrw]

@[simp] theorem chunk_uioRw (u : Uio) (n : ℕ) (left : List UInt8) :
    (u.chunk n left).1.uioRw = u.uioRw := by
  cases hrw : u.uioRw <;> simp [chunk, hrw]

@[simp] theorem chunk_uioSegflg (u : Uio) (n : ℕ) (left : List UInt8) :
    (u.chunk n left).1.uioSegflg = u.uioSegflg := by
  cases hrw : u.uioRw <;> simp [chunk, hrw]

@[simp] theorem chunk_uioIov (u : Uio) (n : ℕ) (left : List UInt8) :
    (u.chunk n left).1.uioIov = u.uioIov := by
  cases hrw : u.uioRw <;> simp [chunk, hrw]

@[simp] theorem chunk_uioOffset (u : Uio) (n : ℕ) (left : List UInt8) :
    (u.chunk n left).1.uioOffset = u.uioOffset + n := by
  cases hrw : u.uioRw <;> simp [chunk, hrw]

@[simp] theorem chunk_uioResid (u : Uio) (n : ℕ) (left : List UInt8) :
    (u.chunk n left).1.uioResid = u.uioResid - UInt32.ofNat n := by
  cases hrw : u.uioRw <;> simp [chunk, hrw]

theorem chunk_src (u : Uio) (n : ℕ) (left : List UInt8) (hrw : u.uioRw = .write) :
    (u.chunk n left).1.src = u.src.drop n := by
  simp [chunk, hrw]

@[simp] theorem chunk_zero (u : Uio) (left : List UInt8) : u.chunk 0 left = (u, []) := by
  obtain ⟨iov, off, resid, seg, rw, src, dst⟩ := u
  cases rw <;> simp [chunk]

/-- Bytes moved one after the other. -/
theorem chunk_add (u : Uio) (m n : ℕ) (left : List UInt8) :
    (u.chunk (m + n) left).1 = ((u.chunk m left).1.chunk n (left.drop m)).1 ∧
      (u.chunk (m + n) left).2 =
        (u.chunk m left).2 ++ ((u.chunk m left).1.chunk n (left.drop m)).2 := by
  have hres : u.uioResid - UInt32.ofNat (m + n) =
      u.uioResid - UInt32.ofNat m - UInt32.ofNat n := by
    refine UInt32.sub_eq_iff_eq_add.mpr ?_
    rw [UInt32.ofNat_add, UInt32.add_comm (UInt32.ofNat m), ← UInt32.add_assoc,
      UInt32.sub_add_cancel, UInt32.sub_add_cancel]
  obtain ⟨iov, off, resid, seg, rw, src, dst⟩ := u
  dsimp only at hres
  cases rw
  · simp only [chunk, hres, Nat.add_assoc, List.take_add, List.append_assoc, and_self]
  · simp only [chunk, hres, Nat.add_assoc, List.take_add, List.drop_drop, and_self]

theorem toNat_sub_ofNat {x : UInt32} (h : n ≤ x.toNat) :
    (x - UInt32.ofNat n).toNat = x.toNat - n := by
  have hx := x.toNat_lt
  have hn : (UInt32.ofNat n).toNat = n := UInt32.toNat_ofNat_of_lt' (Nat.lt_of_le_of_lt h hx)
  rw [UInt32.toNat_sub_of_le _ _ (by rw [UInt32.le_iff_toNat_le, hn]; exact h), hn]

/-- Nothing was moved. -/
theorem Transfer.zero {r : Moved} (huio : r.uio = u.withIov r.uio.uioIov)
    (hiov : r.uio.uioIov.sum = u.uioIov.sum) (hbuf : r.buf = buf)
    (hstop : r.stop = none ∧ buf = [] ∨
      r.stop = some .efault ∧ u.uioSegflg ≠ .sysspace ∧ ∃ i, copy i = false) :
    Transfer copy u buf 0 r where
  le := Nat.zero_le _
  uio := by rwa [chunk_zero]
  iov := hiov
  left := by rw [hbuf, chunk_zero, List.nil_append, List.drop_zero]
  stop := hstop.imp_left fun h => ⟨h.1, by rw [h.2]; rfl⟩

/-- The loop of `uiomove`, when there is room for what is left. -/
theorem moveLoop_transfer {iov : List ℕ} (hres : u.uioResid.toNat ≤ iov.sum)
    (hleft : left.length ≤ u.uioResid.toNat) :
    ∃ c, Transfer copy (u.withIov iov) left c (moveLoop copy iov left u k) := by
  induction iov generalizing left u k with
  | nil =>
    obtain rfl : left = [] := List.eq_nil_of_length_eq_zero (by simp at hres; omega)
    exact ⟨0, .zero rfl rfl rfl (Or.inl ⟨by simp [moveLoop], rfl⟩)⟩
  | cons len iov ih =>
    rw [List.sum_cons] at hres
    rw [moveLoop]
    have hresid : u.uioResid = 0 → left = [] := by
      intro h
      rw [h] at hleft
      exact List.eq_nil_of_length_eq_zero (Nat.le_zero.mp hleft)
    by_cases hdone : left = [] ∨ u.uioResid = 0
    · rw [if_pos hdone]
      exact ⟨0, .zero rfl rfl rfl (Or.inl ⟨rfl, hdone.elim id hresid⟩)⟩
    rw [if_neg hdone]
    have hmore : 0 < left.length := List.length_pos_iff.mpr fun h => hdone (Or.inl h)
    by_cases hlen : len = 0
    · -- an empty buffer
      have hiov : iov ≠ [] := by
        rintro rfl
        rw [List.sum_nil] at hres
        omega
      rw [if_pos hlen, if_neg hiov]
      obtain ⟨c, h⟩ := ih (u := u) (k := k) (by omega) hleft
      refine ⟨c, h.le, ?_, ?_, ?_, h.stop⟩
      · have := h.uio
        rwa [chunk_withIov] at this ⊢
      · have := h.iov
        rw [uioIov_withIov] at this ⊢
        rw [this, List.sum_cons, hlen, Nat.zero_add]
      · have := h.left
        rwa [chunk_withIov] at this ⊢
    rw [if_neg hlen]
    by_cases hcopy : u.uioSegflg ≠ .sysspace ∧ copy k = false
    · rw [if_pos hcopy]
      exact ⟨0, .zero rfl rfl rfl (Or.inr ⟨rfl, hcopy.1, k, hcopy.2⟩)⟩
    rw [if_neg hcopy]
    dsimp only
    set size := min len left.length with hsize
    set u' := (u.chunk size left).1 with hu'
    have hsl : size ≤ left.length := Nat.min_le_right ..
    have hresid' : u'.uioResid.toNat = u.uioResid.toNat - size := by
      rw [hu', chunk_uioResid, toNat_sub_ofNat (Nat.le_trans hsl hleft)]
    by_cases hend : left.drop size = [] ∨ u'.uioResid = 0
    · have hall : size = left.length := by
        rcases hend with h | h
        · exact Nat.le_antisymm hsl (List.drop_eq_nil_iff.mp h)
        · rw [h] at hresid'
          have h0 : (0 : UInt32).toNat = 0 := rfl
          omega
      rw [if_pos hend]
      refine ⟨size, hsl, ?_, ?_, ?_, Or.inl ⟨rfl, hall⟩⟩
      · rw [chunk_withIov]
        rfl
      · have hmin : size ≤ len := Nat.min_le_left ..
        simp only [uioIov_withIov, List.sum_cons]
        omega
      · rw [chunk_withIov]
    rw [if_neg hend]
    -- this buffer is full, and there are more
    have hlt : size < left.length := by
      by_contra hc
      exact hend (Or.inl (List.drop_eq_nil_of_le (Nat.le_of_not_lt hc)))
    have hfull : size = len := by omega
    have hiov : iov ≠ [] := by
      rintro rfl
      rw [List.sum_nil] at hres
      omega
    rw [if_neg hiov]
    obtain ⟨c, h⟩ := ih (u := u') (k := if u.uioSegflg = .sysspace then k else k + 1) (by omega)
      (show (left.drop size).length ≤ _ by rw [List.length_drop, hresid']; omega)
    have hc := h.le
    rw [List.length_drop] at hc
    obtain ⟨hadd1, hadd2⟩ := chunk_add u size c left
    refine ⟨size + c, by omega, ?_, ?_, ?_, ?_⟩
    · have := h.uio
      rw [chunk_withIov] at this ⊢
      rw [hadd1]
      exact this
    · have := h.iov
      rw [uioIov_withIov] at this ⊢
      rw [List.sum_cons, ← this]
      dsimp only
      omega
    · have := h.left
      rw [chunk_withIov] at this ⊢
      dsimp only at this ⊢
      rw [this, hadd2, List.drop_drop, List.append_assoc]
    · rcases h.stop with ⟨hstop, hcl⟩ | ⟨hstop, hseg, hbad⟩
      · rw [List.length_drop] at hcl
        exact Or.inl ⟨hstop, by omega⟩
      · exact Or.inr ⟨hstop, by simpa [hu'] using hseg, hbad⟩

/-- **A transfer that fits in the buffers** moves everything, unless a copy fails. -/
theorem uiomove_transfer (copy : ℕ → Bool) (k : ℕ) (hu : u.Ample)
    (hbuf : buf.length ≤ u.uioResid.toNat) :
    ∃ c, Transfer copy u buf c (u.uiomove copy buf k) :=
  moveLoop_transfer hu.resid hbuf

/-- Nothing to move is nothing to fail. -/
theorem stop_uiomove_nil (copy : ℕ → Bool) (u : Uio) (k : ℕ) :
    (u.uiomove copy [] k).stop = none := by
  rw [uiomove]
  cases u.uioIov with
  | nil => rw [moveLoop, if_pos (Or.inl rfl)]
  | cons len iov => rw [moveLoop, if_pos (Or.inl rfl)]

theorem Transfer.ample {c : ℕ} {r : Moved} (hu : u.Ample) (h : Transfer copy u buf c r)
    (hbuf : buf.length ≤ u.uioResid.toNat) : r.uio.Ample := by
  have hle := h.le
  have hiov := h.iov
  have hres := hu.resid
  refine ⟨?_, fun hrw => ?_⟩
  · rw [h.uio, uioResid_withIov, uioIov_withIov, chunk_uioResid,
      toNat_sub_ofNat (Nat.le_trans hle hbuf)]
    omega
  · have hrw' : u.uioRw = .write := by
      rw [h.uio] at hrw
      simpa using hrw
    have hsrc := hu.src hrw'
    rw [h.uio, uioIov_withIov, src_withIov, chunk_src u c buf hrw', List.length_drop]
    omega

theorem Transfer.uioRw {c : ℕ} {r : Moved} (h : Transfer copy u buf c r) :
    r.uio.uioRw = u.uioRw := by
  rw [h.uio, uioRw_withIov, chunk_uioRw]

theorem Transfer.uioSegflg {c : ℕ} {r : Moved} (h : Transfer copy u buf c r) :
    r.uio.uioSegflg = u.uioSegflg := by
  rw [h.uio, uioSegflg_withIov, chunk_uioSegflg]

theorem Transfer.uioOffset {c : ℕ} {r : Moved} (h : Transfer copy u buf c r) :
    r.uio.uioOffset = u.uioOffset + c := by
  rw [h.uio, uioOffset_withIov, chunk_uioOffset]

theorem Transfer.uioResid {c : ℕ} {r : Moved} (h : Transfer copy u buf c r)
    (hbuf : buf.length ≤ u.uioResid.toNat) : r.uio.uioResid.toNat = u.uioResid.toNat - c := by
  rw [h.uio, uioResid_withIov, chunk_uioResid, toNat_sub_ofNat (Nat.le_trans h.le hbuf)]

/-- Reading: the bytes go to the end of what the caller has. -/
theorem Transfer.dst {c : ℕ} {r : Moved} (h : Transfer copy u buf c r) (hrw : u.uioRw = .read) :
    r.uio.dst = u.dst ++ buf.take c := by
  rw [h.uio, dst_withIov, chunk, hrw]

/-- Writing: the bytes are taken from the front of what the caller has. -/
theorem Transfer.src {c : ℕ} {r : Moved} (h : Transfer copy u buf c r) (hrw : u.uioRw = .write) :
    r.uio.src = u.src.drop c := by
  rw [h.uio, src_withIov, chunk_src u c buf hrw]

theorem Transfer.buf_write {c : ℕ} {r : Moved} (h : Transfer copy u buf c r)
    (hrw : u.uioRw = .write) : r.buf = u.src.take c ++ buf.drop c := by
  rw [h.left, chunk, hrw]

theorem Transfer.done {c : ℕ} {r : Moved} (h : Transfer copy u buf c r) (hstop : r.stop = none) :
    c = buf.length := by
  rcases h.stop with ⟨-, hc⟩ | ⟨hbad, -⟩
  · exact hc
  · rw [hstop] at hbad
    cases hbad

/-- What the loop of `uiomovezeros` has moved, up to `c` bytes of `n`. -/
structure Zeroed (copy : ℕ → Bool) (u : Uio) (n c : ℕ) (r : Moved) : Prop where
  le : c ≤ n
  uio : r.uio = (u.chunk c (List.replicate n 0)).1.withIov r.uio.uioIov
  iov : r.uio.uioIov.sum + c = u.uioIov.sum
  stop : r.stop = none ∧ c = n ∨
    r.stop = some .efault ∧ u.uioSegflg ≠ .sysspace ∧ ∃ i, copy i = false

theorem sum_zeroChunks (n : ℕ) : (zeroChunks n).sum = n := by
  have h := Nat.div_add_mod n 16
  rw [zeroChunks]
  split <;> simp <;> omega

theorem zerosLoop_zeroed (copy : ℕ → Bool) (k : ℕ) (hu : u.Ample) (amts : List ℕ)
    (hn : amts.sum ≤ u.uioResid.toNat) :
    ∃ c, Zeroed copy u amts.sum c (zerosLoop copy amts u k) := by
  induction amts generalizing u k with
  | nil => exact ⟨0, le_rfl, by rw [chunk_zero]; rfl, rfl, Or.inl ⟨rfl, rfl⟩⟩
  | cons amt amts ih =>
    rw [List.sum_cons] at hn ⊢
    have hlen : (List.replicate amt (0 : UInt8)).length ≤ u.uioResid.toNat := by
      rw [List.length_replicate]
      omega
    obtain ⟨c, h⟩ := uiomove_transfer copy k hu hlen
    have hc := h.le
    rw [List.length_replicate] at hc
    rw [zerosLoop]
    set r := u.uiomove copy (List.replicate amt 0) k with hr
    -- the bytes moved do not depend on how many zeros there are after them
    have hmore : ∀ m,
        u.chunk c (List.replicate (amt + m) 0) = u.chunk c (List.replicate amt 0) := by
      intro m
      have htake : (List.replicate amt (0 : UInt8) ++ List.replicate m 0).take c =
          (List.replicate amt 0).take c :=
        List.take_append_of_le_length (by rwa [List.length_replicate])
      rw [List.replicate_add]
      cases hrw : u.uioRw <;> simp only [chunk, hrw, htake]
    rcases h.stop with ⟨hstop, hall⟩ | ⟨hstop, hbad⟩
    · rw [List.length_replicate] at hall
      subst hall
      rw [hstop]
      dsimp only
      obtain ⟨c', h'⟩ := ih (u := r.uio) (k := r.tick) (h.ample hu hlen) (by
        rw [h.uioResid hlen]
        omega)
      obtain ⟨hadd, -⟩ := chunk_add u c c' (List.replicate (c + amts.sum) 0)
      refine ⟨c + c', Nat.add_le_add_left h'.le c, ?_, ?_, ?_⟩
      · have := h'.uio
        have hsame : (r.uio.chunk c' (List.replicate amts.sum 0)).1 =
            ((u.chunk c (List.replicate c 0)).1.chunk c' (List.replicate amts.sum 0)).1.withIov
              r.uio.uioIov := by
          rw [congrArg (fun v => (chunk v c' (List.replicate amts.sum 0)).1) h.uio, chunk_withIov]
        rw [hsame, withIov_withIov] at this
        rw [hadd, hmore, List.drop_replicate, Nat.add_sub_cancel_left]
        exact this
      · have h1 := h.iov
        have h2 := h'.iov
        omega
      · rcases h'.stop with ⟨hs, hc'⟩ | ⟨hs, hseg, hbad⟩
        · exact Or.inl ⟨hs, by rw [hc']⟩
        · exact Or.inr ⟨hs, by rwa [h.uioSegflg] at hseg, hbad⟩
    · rw [hstop]
      exact ⟨c, by omega, by rw [hmore]; exact h.uio, h.iov, Or.inr ⟨rfl, hbad⟩⟩

/-- **Zeros that fit in the buffers** are all moved, unless a copy fails. -/
theorem uiomovezeros_zeroed (copy : ℕ → Bool) (k : ℕ) (hu : u.Ample) (hn : n ≤ u.uioResid.toNat) :
    ∃ c, Zeroed copy u n c (u.uiomovezeros copy n k) := by
  have h := zerosLoop_zeroed copy k hu (zeroChunks n) (by rwa [sum_zeroChunks])
  rwa [sum_zeroChunks] at h

/-! ### Progress -/

/-- `v` is `u` after `c` bytes of the transfer. -/
structure Advanced (u v : Uio) (c : ℕ) : Prop where
  le : c ≤ u.uioResid.toNat
  iov : v.uioIov.sum + c = u.uioIov.sum
  uioOffset : v.uioOffset = u.uioOffset + c
  uioResid : v.uioResid.toNat = u.uioResid.toNat - c
  uioRw : v.uioRw = u.uioRw
  uioSegflg : v.uioSegflg = u.uioSegflg
  src : u.uioRw = .write → v.src = u.src.drop c

theorem Advanced.zero (u : Uio) : Advanced u u 0 :=
  ⟨Nat.zero_le _, rfl, rfl, rfl, rfl, rfl, fun _ => rfl⟩

theorem Advanced.trans {v w : Uio} {c d : ℕ} (h : Advanced u v c) (h' : Advanced v w d) :
    Advanced u w (c + d) where
  le := by
    have h1 := h.le
    have h2 := h'.le
    rw [h.uioResid] at h2
    omega
  iov := by
    have h1 := h.iov
    have h2 := h'.iov
    omega
  uioOffset := by rw [h'.uioOffset, h.uioOffset, Nat.add_assoc]
  uioResid := by rw [h'.uioResid, h.uioResid, Nat.sub_sub]
  uioRw := h'.uioRw.trans h.uioRw
  uioSegflg := h'.uioSegflg.trans h.uioSegflg
  src hrw := by rw [h'.src (h.uioRw.trans hrw), h.src hrw, List.drop_drop]

theorem Advanced.ample {v : Uio} {c : ℕ} (h : Advanced u v c) (hu : u.Ample) : v.Ample where
  resid := by
    have h1 := h.iov
    have h2 := h.uioResid
    have h3 := hu.resid
    omega
  src hrw := by
    have hrw := h.uioRw.symm.trans hrw
    have h1 := h.iov
    have h2 := hu.src hrw
    rw [h.src hrw, List.length_drop]
    omega

/-- The bytes a write has taken so far. -/
theorem Advanced.length_take {v : Uio} {c : ℕ} (h : Advanced u v c) (hu : u.Ample)
    (hrw : u.uioRw = .write) : (u.src.take c).length = c := by
  have h1 := h.le
  have h2 := hu.resid
  have h3 := hu.src hrw
  rw [List.length_take]
  omega

theorem Transfer.advanced {c : ℕ} {r : Moved} (h : Transfer copy u buf c r)
    (hbuf : buf.length ≤ u.uioResid.toNat) : Advanced u r.uio c :=
  ⟨Nat.le_trans h.le hbuf, h.iov, h.uioOffset, h.uioResid hbuf, h.uioRw, h.uioSegflg, h.src⟩

theorem Zeroed.advanced {c : ℕ} {r : Moved} (h : Zeroed copy u n c r)
    (hn : n ≤ u.uioResid.toNat) : Advanced u r.uio c where
  le := Nat.le_trans h.le hn
  iov := h.iov
  uioOffset := by rw [h.uio, uioOffset_withIov, chunk_uioOffset]
  uioResid := by
    rw [h.uio, uioResid_withIov, chunk_uioResid, toNat_sub_ofNat (Nat.le_trans h.le hn)]
  uioRw := by rw [h.uio, uioRw_withIov, chunk_uioRw]
  uioSegflg := by rw [h.uio, uioSegflg_withIov, chunk_uioSegflg]
  src hrw := by rw [h.uio, src_withIov, chunk_src u c _ hrw]

theorem Zeroed.dst {c : ℕ} {r : Moved} (h : Zeroed copy u n c r) (hrw : u.uioRw = .read) :
    r.uio.dst = u.dst ++ (List.replicate n 0).take c := by
  rw [h.uio, dst_withIov, chunk, hrw]

/-- `u` with another position and another residue. -/
def aimed (u : Uio) (pos : ℕ) (resid : UInt32) : Uio :=
  { u with uioOffset := pos, uioResid := resid }

theorem Ample.aimed (hu : u.Ample) {pos : ℕ} {resid : UInt32} (hle : resid ≤ u.uioResid) :
    (u.aimed pos resid).Ample where
  resid := Nat.le_trans hle hu.resid
  src := hu.src

/-- `v`, which was aimed at another position, with position and residue of `u` put back and moved on
by what has been done. -/
def restored (u v : Uio) (pos : ℕ) (resid : UInt32) : Uio :=
  v.aimed (v.uioOffset - pos + u.uioOffset) (v.uioResid - resid + u.uioResid)

theorem Advanced.restored {v : Uio} {c pos : ℕ} {resid : UInt32} (hle : resid ≤ u.uioResid)
    (h : Advanced (u.aimed pos resid) v c) : Advanced u (u.restored v pos resid) c where
  le := Nat.le_trans h.le hle
  iov := h.iov
  uioOffset := by
    change v.uioOffset - pos + u.uioOffset = _
    have : v.uioOffset = pos + c := h.uioOffset
    omega
  uioResid := by
    change (v.uioResid - resid + u.uioResid).toNat = _
    have h1 : v.uioResid.toNat = resid.toNat - c := h.uioResid
    have h2 : c ≤ resid.toNat := h.le
    have h3 : resid.toNat ≤ u.uioResid.toNat := hle
    have h4 := u.uioResid.toNat_lt
    rw [UInt32.toNat_add, UInt32.toNat_sub]
    omega
  uioRw := h.uioRw
  uioSegflg := h.uioSegflg
  src hrw := h.src hrw

end Uio

end Os161
