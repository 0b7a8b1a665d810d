import Os161.Kern.Uio

/-!
# What `uiomove` moves

A transfer of `n` bytes stops when `uio_resid` is used up, but only between one buffer and the next:
how much is moved at a time is bounded by `n` and by the length of the buffer, not by `uio_resid`.
So exactly as much is moved as there is to be moved if `n` is not more than `uio_resid`, or if
`uio_resid` is used up at the end of a buffer.

The space left in the buffers is given by `places`. A byte is named by the buffer it is in, counted
from the last one, and by how many bytes of the buffer are behind it.

## Main results

* `Uio.uiomove_exact` — one call, and `Uio.moveAll_exact` — a sequence of calls
* `Uio.uiomove_exact_iff` — when exactly as much is moved as is to be moved
-/

namespace Os161

namespace Uio

/-- The bytes of the buffers, by the buffers after theirs and the bytes behind them. -/
def places : List ℕ → List (ℕ × ℕ)
  | [] => []
  | len :: iov => (List.range len).reverse.map (fun d => (iov.length, d)) ++ places iov

/-- `n` is the length of the first few buffers. -/
def Aligned (iov : List ℕ) (n : ℕ) : Prop := ∃ j, (iov.take j).sum = n

/-- Calls of `uiomove`, one after the other. -/
def moveAll (copy : ℕ → Bool) : List (List UInt8) → Uio → ℕ → Moved
  | [], u, k => ⟨u, [], k, none⟩
  | buf :: bufs, u, k =>
      let r := uiomove copy buf u k
      match r.stop with
      | some e => ⟨r.uio, r.buf ++ bufs.flatten, r.tick, some e⟩
      | none =>
          let r' := moveAll copy bufs r.uio r.tick
          { r' with buf := r.buf ++ r'.buf }

section

variable {copy : ℕ → Bool} {u : Uio} {iov : List ℕ} {left buf : List UInt8} {k m n len : ℕ}

/-- The first bytes of a buffer are gone. -/
theorem places_sub (hm : m ≤ len) (iov : List ℕ) :
    places ((len - m) :: iov) = (places (len :: iov)).drop m := by
  have hdrop : (List.range len).reverse.drop m = (List.range (len - m)).reverse := by
    rw [List.drop_reverse, List.length_range, List.take_range, Nat.min_eq_left (Nat.sub_le _ _)]
  rw [places, places, List.drop_append_of_le_length (by simpa using hm), ← List.map_drop, hdrop]

/-- A buffer is used up, and some of the bytes after it. -/
theorem places_drop_cons (len m : ℕ) (iov : List ℕ) :
    (places (len :: iov)).drop (len + m) = (places iov).drop m := by
  have hlen : ((List.range len).reverse.map fun d => (iov.length, d)).length = len := by simp
  rw [places, List.drop_append, hlen, Nat.add_sub_cancel_left,
    List.drop_eq_nil_of_le (by rw [hlen]; exact Nat.le_add_right _ _), List.nil_append]

theorem aligned_zero (iov : List ℕ) : Aligned iov 0 := ⟨0, rfl⟩

/-- Either nothing is left, or the first buffer is within it. -/
theorem aligned_cons_iff : Aligned (len :: iov) n ↔ n = 0 ∨ len ≤ n ∧ Aligned iov (n - len) := by
  constructor
  · rintro ⟨j, hj⟩
    cases j with
    | zero => exact .inl hj.symm
    | succ j =>
      rw [List.take_succ_cons, List.sum_cons] at hj
      exact .inr ⟨by omega, j, by omega⟩
  · rintro (rfl | ⟨hle, j, hj⟩)
    · exact aligned_zero _
    · refine ⟨j + 1, ?_⟩
      rw [List.take_succ_cons, List.sum_cons]
      omega

/-- The transfer of `buf` moved its first `m` bytes and returned. -/
structure Moves (u : Uio) (buf : List UInt8) (m : ℕ) (r : Moved) : Prop where
  stop : r.stop = none
  uio : r.uio = (u.chunk m buf).1.withIov r.uio.uioIov
  left : r.buf = (u.chunk m buf).2 ++ buf.drop m
  space : places r.uio.uioIov = (places u.uioIov).drop m
  aligned : ∀ t, Aligned u.uioIov (m + t) → Aligned r.uio.uioIov t

/-- `uio_resid` is not used up within a buffer. -/
def Fits (iov : List ℕ) (resid n : ℕ) : Prop := n ≤ resid ∨ Aligned iov resid

theorem Moves.zero {r : Moved} (hstop : r.stop = none)
    (huio : r.uio = u.withIov r.uio.uioIov) (hbuf : r.buf = buf)
    (hspace : places r.uio.uioIov = places u.uioIov)
    (haligned : ∀ t, Aligned u.uioIov t → Aligned r.uio.uioIov t) : Moves u buf 0 r where
  stop := hstop
  uio := by rwa [chunk_zero]
  left := by rw [hbuf, chunk_zero, List.nil_append, List.drop_zero]
  space := hspace
  aligned := fun t ht => haligned t (by rwa [Nat.zero_add] at ht)

/-- The loop of `uiomove`, if all copies succeed. -/
theorem moveLoop_moves (hcopy : ∀ k, copy k = true) (hres : u.uioResid.toNat ≤ iov.sum)
    (hfits : Fits iov u.uioResid.toNat left.length) :
    Moves (u.withIov iov) left (min left.length u.uioResid.toNat)
      (moveLoop copy iov left u k) := by
  induction iov generalizing left u k with
  | nil =>
    have hzero : u.uioResid = 0 := UInt32.toNat_inj.mp (Nat.le_zero.mp hres)
    have hmin : min left.length u.uioResid.toNat = 0 := by
      rw [hzero]
      exact Nat.min_zero _
    rw [moveLoop, if_pos (Or.inr hzero), hmin]
    exact .zero rfl rfl rfl rfl fun _ ht => ht
  | cons len iov ih =>
    rw [List.sum_cons] at hres
    rw [moveLoop]
    by_cases hdone : left = [] ∨ u.uioResid = 0
    · have hmin : min left.length u.uioResid.toNat = 0 := by
        rcases hdone with h | h
        · rw [h, List.length_nil, Nat.zero_min]
        · rw [h]
          exact Nat.min_zero _
      rw [if_pos hdone, hmin]
      exact .zero rfl rfl rfl rfl fun _ ht => ht
    rw [if_neg hdone]
    have hmore : 0 < left.length := List.length_pos_iff.mpr fun h => hdone (Or.inl h)
    have hpos : 0 < u.uioResid.toNat :=
      Nat.pos_of_ne_zero fun h => hdone (Or.inr (UInt32.toNat_inj.mp h))
    by_cases hlen : len = 0
    · -- an empty buffer
      subst hlen
      have hiov : iov ≠ [] := by
        rintro rfl
        rw [List.sum_nil] at hres
        omega
      rw [if_pos rfl, if_neg hiov]
      have hfits' : Fits iov u.uioResid.toNat left.length := by
        refine hfits.imp_right fun h => ?_
        rcases aligned_cons_iff.mp h with h | ⟨-, h⟩
        · omega
        · exact h
      have h := ih (u := u) (k := k) (by omega) hfits'
      refine ⟨h.stop, ?_, ?_, h.space, fun t ht => h.aligned t ?_⟩
      · have := h.uio
        rwa [chunk_withIov] at this ⊢
      · have := h.left
        rwa [chunk_withIov] at this ⊢
      · rw [uioIov_withIov] at ht ⊢
        rcases aligned_cons_iff.mp ht with h0 | ⟨-, h⟩
        · rw [h0]
          exact aligned_zero _
        · exact h
    rw [if_neg hlen, if_neg (by simp [hcopy])]
    dsimp only
    set size := min len left.length with hsize
    set u' := (u.chunk size left).1 with hu'
    have hsl : size ≤ left.length := Nat.min_le_right ..
    have hslen : size ≤ len := Nat.min_le_left ..
    -- what is moved at a time is within the residue
    have hsres : size ≤ u.uioResid.toNat := by
      rcases hfits with h | h
      · exact hsl.trans h
      · rcases aligned_cons_iff.mp h with h | ⟨h, -⟩
        · omega
        · exact hslen.trans h
    have hresid' : u'.uioResid.toNat = u.uioResid.toNat - size := by
      rw [hu', chunk_uioResid, toNat_sub_ofNat hsres]
    by_cases hend : left.drop size = [] ∨ u'.uioResid = 0
    · have hall : min left.length u.uioResid.toNat = size := by
        rcases hend with h | h
        · rw [List.drop_eq_nil_iff] at h
          omega
        · have h0 : (0 : UInt32).toNat = 0 := rfl
          rw [h, h0] at hresid'
          omega
      rw [if_pos hend, hall]
      refine ⟨rfl, ?_, ?_, places_sub hslen iov, fun t ht => ?_⟩
      · rw [chunk_withIov]
        rfl
      · rw [chunk_withIov]
      · dsimp only [withIov] at ht ⊢
        rw [aligned_cons_iff] at ht ⊢
        rcases ht with h | ⟨hle, h⟩
        · exact .inl (by omega)
        · refine .inr ⟨by omega, ?_⟩
          rwa [show t - (len - size) = size + t - len by omega]
    rw [if_neg hend]
    -- this buffer is full, and there are more
    have hlt : size < left.length := by
      by_contra hc
      exact hend (Or.inl (List.drop_eq_nil_of_le (Nat.le_of_not_lt hc)))
    have hfull : size = len := by omega
    have hltres : size < u.uioResid.toNat := by
      by_contra hc
      refine hend (Or.inr (UInt32.toNat_inj.mp ?_))
      rw [hresid']
      exact Nat.sub_eq_zero_of_le (Nat.le_of_not_lt hc)
    have hiov : iov ≠ [] := by
      rintro rfl
      rw [List.sum_nil] at hres
      omega
    rw [if_neg hiov]
    have hfits' : Fits iov u'.uioResid.toNat (left.drop size).length := by
      rw [List.length_drop, hresid']
      rcases hfits with h | h
      · exact .inl (by omega)
      · rcases aligned_cons_iff.mp h with h | ⟨-, h⟩
        · omega
        · rw [hfull]
          exact .inr h
    have h := ih (u := u') (k := if u.uioSegflg = .sysspace then k else k + 1) (by omega) hfits'
    rw [List.length_drop, hresid'] at h
    obtain ⟨c, hc⟩ : ∃ c, min (left.length - size) (u.uioResid.toNat - size) = c := ⟨_, rfl⟩
    have hsum : min left.length u.uioResid.toNat = size + c := by omega
    rw [hc] at h
    rw [hsum]
    obtain ⟨hadd1, hadd2⟩ := chunk_add u size c left
    refine ⟨h.stop, ?_, ?_, ?_, fun t ht => h.aligned t ?_⟩
    · have := h.uio
      rw [chunk_withIov] at this ⊢
      rw [hadd1]
      exact this
    · have := h.left
      rw [chunk_withIov] at this ⊢
      dsimp only at this ⊢
      rw [this, hadd2, List.drop_drop, List.append_assoc]
    · have := h.space
      rw [uioIov_withIov] at this ⊢
      rw [show size + c = len + c by omega, places_drop_cons]
      exact this
    · rw [uioIov_withIov] at ht ⊢
      rcases aligned_cons_iff.mp ht with h0 | ⟨-, h⟩
      · rw [show c + t = 0 by omega]
        exact aligned_zero _
      · rwa [show size + c + t - len = c + t by omega] at h

/-- **One call**, if all copies succeed. -/
theorem uiomove_moves (hcopy : ∀ k, copy k = true) (hres : u.uioResid.toNat ≤ u.uioIov.sum)
    (hfits : Fits u.uioIov u.uioResid.toNat buf.length) (k : ℕ) :
    Moves u buf (min buf.length u.uioResid.toNat) (u.uiomove copy buf k) :=
  moveLoop_moves hcopy hres hfits

/-! ### What the caller sees -/

theorem Moves.uioResid {r : Moved} (h : Moves u buf m r) (hm : m ≤ u.uioResid.toNat) :
    r.uio.uioResid.toNat = u.uioResid.toNat - m := by
  rw [h.uio, uioResid_withIov, chunk_uioResid, toNat_sub_ofNat hm]

theorem length_places (iov : List ℕ) : (places iov).length = iov.sum := by
  induction iov with
  | nil => rfl
  | cons len iov ih =>
    rw [places, List.length_append, ih, List.sum_cons]
    simp

theorem Moves.sum {r : Moved} (h : Moves u buf m r) : r.uio.uioIov.sum = u.uioIov.sum - m := by
  rw [← length_places, h.space, List.length_drop, length_places]

/-- Only bytes that are there can be moved. -/
theorem chunk_append (u : Uio) (hm : m ≤ buf.length) (rest : List UInt8) :
    u.chunk m (buf ++ rest) = u.chunk m buf := by
  cases hrw : u.uioRw <;> simp only [chunk, hrw, List.take_append_of_le_length hm]

theorem Moves.trans {r r' : Moved} {rest : List UInt8} {m' : ℕ} (h : Moves u buf m r)
    (h' : Moves r.uio rest m' r') (hm : m ≤ buf.length) (hall : m = buf.length ∨ m' = 0) :
    Moves u (buf ++ rest) (m + m') { r' with buf := r.buf ++ r'.buf } := by
  obtain ⟨hadd1, hadd2⟩ := chunk_add u m m' (buf ++ rest)
  have hchunk := chunk_withIov (u.chunk m buf).1 r.uio.uioIov m' rest
  rw [← h.uio] at hchunk
  have huio := h'.uio
  have hleft := h'.left
  rw [hchunk] at huio hleft
  rw [chunk_append u hm] at hadd1 hadd2
  refine ⟨h'.stop, ?_, ?_, ?_, fun t ht => h'.aligned t (h.aligned (m' + t) ?_)⟩
  · rcases hall with rfl | rfl
    · rw [hadd1, List.drop_left]
      exact huio
    · rw [Nat.add_zero, chunk_append u hm]
      rw [chunk_zero] at huio
      exact huio
  · dsimp only
    rw [h.left, hleft]
    rcases hall with rfl | rfl
    · rw [hadd2, List.drop_left, List.drop_length, List.append_nil, List.append_assoc,
        ← List.drop_drop, List.drop_left]
    · rw [Nat.add_zero, chunk_append u hm, chunk_zero, List.nil_append, List.drop_zero,
        List.drop_append_of_le_length hm, List.append_assoc]
  · dsimp only
    rw [h'.space, h.space, List.drop_drop]
  · rwa [← Nat.add_assoc]

/-- **A sequence of calls.** -/
theorem moveAll_moves (hcopy : ∀ k, copy k = true) (bufs : List (List UInt8))
    (hres : u.uioResid.toNat ≤ u.uioIov.sum)
    (hfits : Fits u.uioIov u.uioResid.toNat bufs.flatten.length) (k : ℕ) :
    Moves u bufs.flatten (min bufs.flatten.length u.uioResid.toNat) (moveAll copy bufs u k) := by
  induction bufs generalizing u k with
  | nil =>
    rw [List.flatten_nil, List.length_nil, Nat.zero_min]
    exact .zero rfl rfl rfl rfl fun _ ht => ht
  | cons buf bufs ih =>
    rw [List.flatten_cons, List.length_append] at hfits ⊢
    have hfirst : Fits u.uioIov u.uioResid.toNat buf.length :=
      hfits.imp_left fun h => (Nat.le_add_right _ _).trans h
    have h := uiomove_moves hcopy hres hfirst k
    have hle : min buf.length u.uioResid.toNat ≤ u.uioResid.toNat := Nat.min_le_right ..
    have hresid := h.uioResid hle
    have hsum := h.sum
    have hrest : Fits (u.uiomove copy buf k).uio.uioIov (u.uiomove copy buf k).uio.uioResid.toNat
        bufs.flatten.length := by
      rw [hresid]
      rcases hfits with hall | hall
      · exact .inl (by omega)
      · refine .inr (h.aligned _ ?_)
        rwa [Nat.add_sub_cancel' hle]
    have h' := ih (by omega) hrest (u.uiomove copy buf k).tick
    have htotal : min (buf.length + bufs.flatten.length) u.uioResid.toNat =
        min buf.length u.uioResid.toNat +
          min bufs.flatten.length (u.uiomove copy buf k).uio.uioResid.toNat := by omega
    rw [moveAll]
    dsimp only
    rw [h.stop, htotal]
    exact h.trans h' (Nat.min_le_left ..) (by omega)

/-- `uiomovezeros` as a sequence of calls. -/
theorem zerosLoop_eq (copy : ℕ → Bool) (amts : List ℕ) (u : Uio) (k : ℕ) :
    zerosLoop copy amts u k =
      { moveAll copy (amts.map fun amt => List.replicate amt 0) u k with buf := [] } := by
  induction amts generalizing u k with
  | nil => rfl
  | cons amt amts ih =>
    rw [zerosLoop, List.map_cons, moveAll]
    dsimp only
    cases (u.uiomove copy (List.replicate amt 0) k).stop with
    | some e => rfl
    | none => exact ih ..

theorem flatten_zeros (amts : List ℕ) :
    (amts.map fun amt => List.replicate amt (0 : UInt8)).flatten = List.replicate amts.sum 0 := by
  induction amts with
  | nil => rfl
  | cons amt amts ih =>
    rw [List.map_cons, List.flatten_cons, ih, List.sum_cons, List.replicate_add]

/-! ### Exactly as much as there is to be moved -/

/-- `n` bytes are to be moved, and as many of them were as there is something left to be moved. -/
structure Exactly (u : Uio) (n : ℕ) (r : Moved) : Prop where
  stop : r.stop = none
  uioResid : r.uio.uioResid.toNat = u.uioResid.toNat - min n u.uioResid.toNat
  uioOffset : r.uio.uioOffset = u.uioOffset + min n u.uioResid.toNat
  space : places r.uio.uioIov = (places u.uioIov).drop (min n u.uioResid.toNat)

/-- And they were moved between the front of the kernel buffer and that of the space. -/
structure Exact (u : Uio) (buf : List UInt8) (r : Moved) : Prop
    extends Exactly u buf.length r where
  read : u.uioRw = .read →
    r.uio.dst = u.dst ++ buf.take (min buf.length u.uioResid.toNat) ∧ r.buf = buf
  write : u.uioRw = .write →
    r.uio.src = u.src.drop (min buf.length u.uioResid.toNat) ∧
      r.buf = u.src.take (min buf.length u.uioResid.toNat) ++
        buf.drop (min buf.length u.uioResid.toNat)

theorem Moves.exact {r : Moved} (h : Moves u buf (min buf.length u.uioResid.toNat) r) :
    Exact u buf r where
  stop := h.stop
  uioResid := h.uioResid (Nat.min_le_right ..)
  uioOffset := by rw [h.uio, uioOffset_withIov, chunk_uioOffset]
  space := h.space
  read hrw := by
    constructor
    · rw [h.uio, dst_withIov, chunk, hrw]
    · rw [h.left, chunk, hrw]
      exact List.take_append_drop _ buf
  write hrw := by
    constructor
    · rw [h.uio, src_withIov, chunk_src u _ buf hrw]
    · rw [h.left, chunk, hrw]

/-- Zeros are moved to the space. -/
theorem uiomovezeros_exactly (hcopy : ∀ k, copy k = true)
    (hres : u.uioResid.toNat ≤ u.uioIov.sum) (hfits : Fits u.uioIov u.uioResid.toNat n) (k : ℕ)
    (hrw : u.uioRw = .read) : Exactly u n (u.uiomovezeros copy n k) ∧
      (u.uiomovezeros copy n k).uio.dst =
        u.dst ++ List.replicate (min n u.uioResid.toNat) 0 := by
  have hflat := flatten_zeros (zeroChunks n)
  rw [sum_zeroChunks] at hflat
  have hlen : (List.replicate n (0 : UInt8)).length = n := List.length_replicate
  have h := moveAll_moves hcopy ((zeroChunks n).map fun amt => List.replicate amt 0) hres
    (by rwa [hflat, hlen]) k
  have hexact := h.exact
  rw [hflat] at hexact
  have hdst := (hexact.read hrw).1
  have hexactly := hexact.toExactly
  rw [hlen] at hexactly hdst
  rw [List.take_replicate, Nat.min_eq_left (Nat.min_le_left ..)] at hdst
  rw [uiomovezeros, zerosLoop_eq]
  exact ⟨⟨hexactly.stop, hexactly.uioResid, hexactly.uioOffset, hexactly.space⟩, hdst⟩

/-! ### More than there is to be moved -/

theorem uioOffset_le_moveLoop (copy : ℕ → Bool) (iov : List ℕ) (left : List UInt8) (u : Uio)
    (k : ℕ) : u.uioOffset ≤ (moveLoop copy iov left u k).uio.uioOffset := by
  induction iov generalizing left u k with
  | nil => exact Nat.le_refl _
  | cons len iov ih =>
    rw [moveLoop]
    dsimp only
    split
    · exact Nat.le_refl _
    · split
      · split
        · exact Nat.le_refl _
        · exact ih left u k
      · split
        · exact Nat.le_refl _
        · have hadv : u.uioOffset ≤ (u.chunk (min len left.length) left).1.uioOffset := by
            rw [chunk_uioOffset]
            exact Nat.le_add_right _ _
          split
          · exact hadv
          · split
            · exact hadv
            · exact hadv.trans (ih ..)

/-- `uio_resid` is used up within a buffer, and the rest of the buffer is moved as well. -/
theorem moveLoop_over (hcopy : ∀ k, copy k = true) (hres : u.uioResid.toNat ≤ iov.sum)
    (hnot : ¬ Aligned iov u.uioResid.toNat) (hmore : u.uioResid.toNat < left.length) :
    u.uioOffset + u.uioResid.toNat < (moveLoop copy iov left u k).uio.uioOffset := by
  induction iov generalizing left u k with
  | nil => exact absurd ⟨0, (Nat.le_zero.mp hres).symm⟩ hnot
  | cons len iov ih =>
    rw [List.sum_cons] at hres
    have hpos : 0 < u.uioResid.toNat :=
      Nat.pos_of_ne_zero fun h => hnot (h ▸ aligned_zero _)
    have hresid : u.uioResid ≠ 0 := by
      intro h
      rw [h] at hpos
      exact absurd hpos (by decide)
    have hleft : left ≠ [] := by
      rintro rfl
      exact absurd hmore (Nat.not_lt_zero _)
    rw [moveLoop, if_neg (by simp [hleft, hresid])]
    by_cases hlen : len = 0
    · subst hlen
      have hiov : iov ≠ [] := by
        rintro rfl
        rw [List.sum_nil] at hres
        omega
      rw [if_pos rfl, if_neg hiov]
      refine ih (by omega) (fun h => hnot (aligned_cons_iff.mpr (.inr ⟨Nat.zero_le _, ?_⟩))) hmore
      exact h
    rw [if_neg hlen, if_neg (by simp [hcopy])]
    dsimp only
    by_cases hover : u.uioResid.toNat < min len left.length
    · -- the residue wraps around, and what is moved is moved
      have hadv : u.uioOffset + u.uioResid.toNat <
          (u.chunk (min len left.length) left).1.uioOffset := by
        rw [chunk_uioOffset]
        omega
      split
      · exact hadv
      · split
        · exact hadv
        · exact hadv.trans_le (uioOffset_le_moveLoop ..)
    · have hne : len ≠ u.uioResid.toNat := by
        intro h
        refine hnot (aligned_cons_iff.mpr (.inr ⟨Nat.le_of_eq h, ?_⟩))
        rw [h, Nat.sub_self]
        exact aligned_zero _
      have hlt : len < u.uioResid.toNat := by omega
      have hmin : min len left.length = len := Nat.min_eq_left (by omega)
      have hiov : iov ≠ [] := by
        rintro rfl
        rw [List.sum_nil] at hres
        omega
      rw [hmin]
      set u' := (u.chunk len left).1 with hu'
      have hresid' : u'.uioResid.toNat = u.uioResid.toNat - len := by
        rw [hu', chunk_uioResid, toNat_sub_ofNat hlt.le]
      have hgo : ¬ (left.drop len = [] ∨ u'.uioResid = 0) := by
        rintro (h | h)
        · rw [List.drop_eq_nil_iff] at h
          omega
        · have h0 : (0 : UInt32).toNat = 0 := rfl
          rw [h, h0] at hresid'
          omega
      rw [if_neg hgo, if_neg hiov]
      dsimp only
      have hnot' : ¬ Aligned iov u'.uioResid.toNat := by
        rw [hresid']
        exact fun h => hnot (aligned_cons_iff.mpr (.inr ⟨hlt.le, h⟩))
      have hmore' : u'.uioResid.toNat < (left.drop len).length := by
        rw [List.length_drop]
        omega
      have h := ih (k := if u.uioSegflg = .sysspace then k else k + 1) (by omega) hnot' hmore'
      have hoff : u'.uioOffset = u.uioOffset + len := chunk_uioOffset ..
      omega

end

/-- **As much as there is to be moved.** `uiomove`, in one call or in several, and `uiomovezeros`
move exactly the smaller of what is asked for and `uio_resid` if and only if `uio_resid` is not used
up within a buffer. -/
theorem uiomove_exact_iff {copy : ℕ → Bool} (hcopy : ∀ k, copy k = true) {u : Uio}
    (hres : u.uioResid.toNat ≤ u.uioIov.sum) (bufs : List (List UInt8)) (k : ℕ) :
    (Exact u bufs.flatten (u.uiomove copy bufs.flatten k) ∧
      Exact u bufs.flatten (moveAll copy bufs u k) ∧
      (u.uioRw = .read →
        Exactly u bufs.flatten.length (u.uiomovezeros copy bufs.flatten.length k) ∧
        (u.uiomovezeros copy bufs.flatten.length k).uio.dst = u.dst ++
          List.replicate (min bufs.flatten.length u.uioResid.toNat) 0)) ↔
      Fits u.uioIov u.uioResid.toNat bufs.flatten.length := by
  constructor
  · rintro ⟨hone, -, -⟩
    by_contra hnot
    obtain ⟨hmore, hnot⟩ := not_or.mp hnot
    have hover := moveLoop_over (k := k) hcopy hres hnot (Nat.not_le.mp hmore)
    have hoff := hone.uioOffset
    rw [uiomove] at hoff
    omega
  · intro hfits
    exact ⟨(uiomove_moves hcopy hres hfits k).exact, (moveAll_moves hcopy bufs hres hfits k).exact,
      uiomovezeros_exactly hcopy hres hfits k⟩

/-- What `load_segment` sets up for a segment of 6 bytes of which the file has 4. -/
def segment : Uio where
  uioIov := [6]
  uioOffset := 0
  uioResid := 4
  uioSegflg := .userispace
  uioRw := .read
  src := []
  dst := []

/-- Reading what the file has, in two calls. -/
theorem uiomove_exact_iff_segment :
    Exact segment [1, 2, 3, 4] (moveAll (fun _ => true) [[1, 2, 3], [4]] segment 0) :=
  ((uiomove_exact_iff (fun _ => rfl) (u := segment) (by decide) [[1, 2, 3], [4]] 0).mpr
    (.inl (by decide))).2.1

/-- A call for 6 bytes moves them all. -/
theorem not_uiomove_exact :
    ¬ Exact segment [1, 2, 3, 4, 5, 6] (segment.uiomove (fun _ => true) [1, 2, 3, 4, 5, 6] 0) := by
  intro h
  have hoff := h.uioOffset
  exact absurd hoff (by decide)

end Uio

end Os161
