import Os161.Lib.Simulation
import Os161.Sfs.Shorten
import Os161.Sfs.Contract

/-!
# The files of a volume

Requests to read, to write and to truncate any of the files that are open, in any order. A file is
seen from outside as a size and a row of bytes. Every request is answered as it may be by such
files: a read delivers the bytes of its file, a write puts bytes into its file, of which there can
be fewer than were asked for, and no request shows in another file, even though blocks that one
file has given back are handed out to others.

The bytes past the end of a file are there too, since they show when the file grows over them. What
a truncation leaves of them is not determined: `sfs_itrunc` gives back whole blocks, and not all of
them.

Requests come in one at a time, under `vfs_biglock`.

## Main definitions

* `Holds` — the volume has these files
* `Serves` — how files may answer a request

## Main results

* `holds_serve` — one request
* `serve_files` — any sequence of requests
-/

namespace Os161

namespace Sfs

open Prog

/-! ### Files seen from outside -/

/-- A file as its users see it. -/
structure PlainFile where
  /-- How long the file is. -/
  size : ℕ
  /-- What is in it, and what was past its end. -/
  byte : ℕ → UInt8

namespace PlainFile

/-- `len` bytes from `off` on. -/
def read (f : PlainFile) (off len : ℕ) : List UInt8 :=
  (List.range len).map fun i => f.byte (off + i)

/-- With `data` at `off`, and as long as after `c` bytes have been written there. -/
def put (f : PlainFile) (off : ℕ) (data : List UInt8) (c : ℕ) : PlainFile where
  size := if c = 0 then f.size else max f.size (off + c)
  byte p := if off ≤ p ∧ p < off + data.length then data.getD (p - off) 0 else f.byte p

/-- The file `g` is what a truncation to `len` may leave of `f`. -/
structure Truncated (f g : PlainFile) (len : ℕ) : Prop where
  size : g.size = len
  kept : ∀ p < 512 * ((len + 511) / 512), g.byte p = f.byte p
  past : ∀ p, g.byte p = f.byte p ∨ g.byte p = 0

end PlainFile

/-- The files, by their inode numbers. -/
abbrev Files := UInt32 → PlainFile

/-- A request. -/
inductive Request where
  /-- `sfs_read`, `sfs_write` -/
  | transfer (ino : UInt32) (u : Uio)
  /-- `sfs_truncate` -/
  | truncate (ino : UInt32) (len : ℤ)

/-- The code that is returned, if it is not `0`, and what has become of the `uio`. -/
abbrev Answer := Option Stop × Uio

/-- The file a request is for. -/
def Request.ino : Request → UInt32
  | .transfer ino _ => ino
  | .truncate ino _ => ino

/-- The buffers of a transfer have room, and positions can be told apart. -/
def Request.Proper : Request → Prop
  | .transfer _ u => u.Ample ∧ (u.uioRw = .write → u.uioOffset / 512 < 2 ^ 32)
  | .truncate _ len => 0 ≤ len ∧ len < 2 ^ 32

/-- How files may answer a request, and what becomes of them. -/
inductive Serves (fs : Files) : Request → Answer → Files → Prop
  /-- All is read that there is. -/
  | read {ino : UInt32} {u v : Uio} (hrw : u.uioRw = .read)
      (hadv : Uio.Advanced u v (min u.uioResid.toNat ((fs ino).size - u.uioOffset)))
      (hdst : v.dst = u.dst ++ (fs ino).read u.uioOffset
        (min u.uioResid.toNat ((fs ino).size - u.uioOffset))) :
      Serves fs (.transfer ino u) (none, v) fs
  /-- The caller's buffers fail, or the file is too long to be mapped. -/
  | readStop {ino : UInt32} {u v : Uio} {e : Errno} (c : ℕ) (hrw : u.uioRw = .read)
      (hadv : Uio.Advanced u v c) (hdst : v.dst = u.dst ++ (fs ino).read u.uioOffset c)
      (he : e = .efault ∧ u.uioSegflg ≠ .sysspace ∨ e = .efbig ∧ 143 * 512 ≤ v.uioOffset) :
      Serves fs (.transfer ino u) (some (.fail e), v) fs
  /-- All is written. -/
  | write {ino : UInt32} {u v : Uio} (hrw : u.uioRw = .write)
      (hadv : Uio.Advanced u v u.uioResid.toNat) :
      Serves fs (.transfer ino u) (none, v) (Function.update fs ino
        ((fs ino).put u.uioOffset (u.src.take u.uioResid.toNat) u.uioResid.toNat))
  /-- The device is full, the file cannot be longer, or the caller's buffers fail. -/
  | writeStop {ino : UInt32} {u v : Uio} {e : Errno} (c₀ c : ℕ) (hrw : u.uioRw = .write)
      (hadv : Uio.Advanced u v c) (hle : c₀ ≤ c)
      (he : e = .enospc ∧ c₀ = c ∨ e = .efbig ∧ c₀ = c ∧ 143 * 512 ≤ v.uioOffset ∨
        e = .efault ∧ u.uioSegflg ≠ .sysspace) :
      Serves fs (.transfer ino u) (some (.fail e), v) (Function.update fs ino
        ((fs ino).put u.uioOffset (u.src.take c₀) c))
  /-- The file is cut off, or made longer. -/
  | truncate {ino : UInt32} {len : ℤ} {v : Uio} {f : PlainFile}
      (h : (fs ino).Truncated f len.toNat) :
      Serves fs (.truncate ino len) (none, v) (Function.update fs ino f)

/-! ### The code -/

/-- What is returned to the caller. -/
def answer : Outcome Stop State Unit → State × Answer
  | .done _ t => (t, none, t.uio)
  | .halt e t => (t, some e, t.uio)

/-- A request, carried out. -/
def State.serve (s : State) : Request → State × Answer
  | .transfer ino u => answer ((io ino).run { s with uio := u })
  | .truncate ino len => answer ((itrunc ino len).run s)

/-! ### The files on a volume -/

/-- The file `f` is what is kept under `sv`. -/
structure State.Keeps (s : State) (ino : UInt32) (sv : SfsVnode) (f : PlainFile) : Prop where
  vnode : s.vnode? ino = some sv
  tidy : s.Tidy sv.svI
  size : f.size = sv.svI.sfiSize.toNat
  byte : ∀ p, f.byte p = (image s.disk sv.svI).byte p

/-- The volume is in order, the files of `inos` on it are `fs`, and none of them has a block of
another. -/
structure Holds (inos : Set UInt32) (s : State) (fs : Files) : Prop where
  volume : s.VolumeOk
  small : s.mount.sfsSb.sbNblocks.toNat ≤ 2 ^ 23
  mapped : s.mount.sfsSb.sbNblocks.toNat ≤ s.sfsFreemap.nbits.toNat
  works : s.Works
  file : ∀ ino ∈ inos, ∃ sv, s.Keeps ino sv (fs ino)
  apart : ∀ i ∈ inos, ∀ j ∈ inos, i ≠ j → ∀ sv sv' b, s.vnode? i = some sv →
    s.vnode? j = some sv' → sv.svI.Has s.disk b → ¬sv'.svI.Has s.disk b

section Frame

variable {s t : State} {d : Dinode} {disk disk' : Disk} {b : UInt32}

/-- The pointers of a file are where its blocks are as they were. -/
theorem Dinode.pointer_congr (h : ∀ b, d.Has disk b → disk' b = disk b) (p : Ptr) :
    d.pointer disk' p = d.pointer disk p := by
  cases p with
  | direct i => rfl
  | indirect => rfl
  | entry k =>
    change indirectAt disk' d k = indirectAt disk d k
    rw [indirectAt, indirectAt]
    split
    · rfl
    · next hind => rw [h d.sfiIndirect ⟨hind, .indirect, rfl⟩]

theorem Dinode.has_congr (h : ∀ b, d.Has disk b → disk' b = disk b) (b : UInt32) :
    d.Has disk' b ↔ d.Has disk b := by
  simp only [Dinode.Has, Dinode.pointer_congr h]

theorem State.Tidy.has_inUse (h : s.Tidy d) (hb : d.Has s.disk b) : s.InUse b := by
  obtain ⟨h0, p, rfl⟩ := hb
  exact h.inUse p h0

/-- A file whose inode is as it was, and whose blocks are in use and as they were, is as it was. -/
theorem State.Keeps.beside {ino : UInt32} {sv sv' : SfsVnode} {f : PlainFile}
    (h : s.Keeps ino sv f) (hv : t.vnode? ino = some sv') (hd : sv'.svI = sv.svI)
    (hblock : ∀ b, sv.svI.Has s.disk b → t.InUse b ∧ t.disk b = s.disk b) :
    t.Keeps ino sv' f := by
  have hptr := Dinode.pointer_congr fun b hb => (hblock b hb).2
  have himage : image t.disk sv.svI = image s.disk sv.svI := by
    funext k
    refine image_congr ?_ fun hne => ?_
    · cases hp : Ptr.ofBlock k with
      | none => rw [fileBlock_of_ofBlock_none _ _ hp, fileBlock_of_ofBlock_none _ _ hp]
      | some p => rw [fileBlock_of_ofBlock _ _ hp, fileBlock_of_ofBlock _ _ hp, hptr]
    · obtain ⟨p, -, -, hp⟩ := exists_ofBlock hne
      exact (hblock _ ⟨hne, p, hp.symm⟩).2
  refine ⟨hv, ⟨fun p hp => ?_, fun p q hp hpq => ?_⟩, ?_, fun p => ?_⟩
  · rw [hd, hptr] at hp ⊢
    exact (hblock _ ⟨hp, p, rfl⟩).1
  · rw [hd, hptr] at hp
    rw [hd, hptr, hptr] at hpq
    exact h.tidy.inj p q hp hpq
  · rw [hd]
    exact h.size
  · rw [hd, himage]
    exact h.byte p

end Frame

/-! ### One file changes -/

/-- From `s` to `t` the file `ino` has changed, and it has touched no block in use but its own. -/
structure Changes (s t : State) (ino : UInt32) (sv sv' : SfsVnode) : Prop where
  mount : t.mount = s.mount
  vnode : t.vnode? ino = some sv'
  others : ∀ j, j ≠ ino → t.vnode? j = s.vnode? j
  nbits : t.sfsFreemap.nbits = s.sfsFreemap.nbits
  volume : t.VolumeOk
  tidy : t.Tidy sv'.svI
  aside : ∀ b, s.InUse b → ¬sv.svI.Has s.disk b →
    t.InUse b ∧ ¬sv'.svI.Has t.disk b ∧ t.disk b = s.disk b

section Change

variable {inos : Set UInt32} {s t : State} {fs : Files} {ino : UInt32} {sv sv' : SfsVnode}
  {f : PlainFile}

theorem Grown.changes (h : Grown s t ino sv sv') (hvol : s.VolumeOk) : Changes s t ino sv sv' where
  mount := h.mount
  vnode := h.vnode
  others := h.others
  nbits := h.nbits
  volume := h.volumeOk hvol
  tidy := h.tidy
  aside b hb hnot := by
    obtain ⟨hset, hnot', hsame⟩ := h.aside hb.2 hnot
    exact ⟨⟨by rw [h.mount]; exact hb.1, hset⟩, hnot', hsame⟩

/-- The other files are as before. -/
theorem Holds.changed (h : Holds inos s fs) (hino : ino ∈ inos) (hv : s.vnode? ino = some sv)
    (hc : Changes s t ino sv sv') (hsize : f.size = sv'.svI.sfiSize.toNat)
    (hbyte : ∀ p, f.byte p = (image t.disk sv'.svI).byte p) :
    Holds inos t (Function.update fs ino f) := by
  have hblock {j : UInt32} {svj : SfsVnode} (hj : j ∈ inos) (hne : j ≠ ino)
      (hk : s.Keeps j svj (fs j)) (b : UInt32) (hb : svj.svI.Has s.disk b) :
      t.InUse b ∧ ¬sv'.svI.Has t.disk b ∧ t.disk b = s.disk b :=
    hc.aside b (hk.tidy.has_inUse hb)
      (h.apart j hj ino hino hne svj sv b hk.vnode hv hb)
  have hother {j : UInt32} (hj : j ∈ inos) (hne : j ≠ ino) : ∃ svj, s.Keeps j svj (fs j) ∧
      t.Keeps j svj (fs j) ∧ (∀ b, svj.svI.Has t.disk b ↔ svj.svI.Has s.disk b) := by
    obtain ⟨svj, hk⟩ := h.file j hj
    refine ⟨svj, hk, hk.beside ((hc.others j hne).trans hk.vnode) rfl fun b hb => ?_,
      Dinode.has_congr fun b hb => ?_⟩
    · exact ⟨(hblock hj hne hk b hb).1, (hblock hj hne hk b hb).2.2⟩
    · exact (hblock hj hne hk b hb).2.2
  refine ⟨hc.volume, ?_, ?_, ?_, fun j hj => ?_, fun i hi j hj hij svi svj b hvi hvj hb => ?_⟩
  · rw [hc.mount]
    exact h.small
  · rw [hc.mount, hc.nbits]
    exact h.mapped
  · rw [State.Works, hc.mount]
    exact h.works
  · by_cases hne : j = ino
    · subst hne
      rw [Function.update_self]
      exact ⟨sv', hc.vnode, hc.tidy, hsize, hbyte⟩
    · rw [Function.update_of_ne hne]
      obtain ⟨svj, -, hk, -⟩ := hother hj hne
      exact ⟨svj, hk⟩
  · by_cases hine : i = ino
    · subst hine
      obtain rfl := Option.some.inj (hc.vnode.symm.trans hvi)
      obtain ⟨svj', hk, hk', hhas⟩ := hother hj (Ne.symm hij)
      obtain rfl := Option.some.inj (hk'.vnode.symm.trans hvj)
      rw [hhas]
      exact fun hb' => (hblock hj (Ne.symm hij) hk b hb').2.1 hb
    · obtain ⟨svi', hk, hk', hhas⟩ := hother hi hine
      obtain rfl := Option.some.inj (hk'.vnode.symm.trans hvi)
      rw [hhas] at hb
      by_cases hjne : j = ino
      · subst hjne
        obtain rfl := Option.some.inj (hc.vnode.symm.trans hvj)
        exact (hblock hi hine hk b hb).2.1
      · obtain ⟨svj', hkj, hkj', hhasj⟩ := hother hj hjne
        obtain rfl := Option.some.inj (hkj'.vnode.symm.trans hvj)
        rw [hhasj]
        exact h.apart i hi j hj hij svi' svj' b hk.vnode hkj.vnode hb

/-- Nothing has changed but the `uio` and the tick. -/
theorem Holds.moved (h : Holds inos s fs) (u : Uio) (k : ℕ) :
    Holds inos { s with uio := u, tick := k } fs :=
  ⟨⟨h.volume.fits, h.volume.nbits, h.volume.padded, h.volume.past, h.volume.super⟩, h.small,
    h.mapped, h.works, fun j hj => by
      obtain ⟨sv, hk⟩ := h.file j hj
      exact ⟨sv, hk.vnode, ⟨hk.tidy.inUse, hk.tidy.inj⟩, hk.size, hk.byte⟩, h.apart⟩

theorem Holds.ready (h : Holds inos s fs) {u : Uio} (hu : u.Ample) (hino : ino ∈ inos) :
    ∃ sv, s.Keeps ino sv (fs ino) ∧ State.Ready { s with uio := u } ino sv := by
  obtain ⟨sv, hk⟩ := h.file ino hino
  exact ⟨sv, hk, ⟨hk.vnode, ⟨hk.tidy.inUse, hk.tidy.inj⟩, ⟨h.volume.fits, h.volume.nbits,
    h.volume.padded, h.volume.past, h.volume.super⟩, h.works, hu⟩, h.small⟩

end Change

/-! ### Transfers -/

section Transfer

variable {inos : Set UInt32} {s t : State} {fs : Files} {ino : UInt32} {sv sv' : SfsVnode}
  {u : Uio} {c : ℕ}

theorem State.Keeps.read {f : PlainFile} (h : s.Keeps ino sv f) (off len : ℕ) :
    (image s.disk sv.svI).read off len = f.read off len := by
  rw [Sparse.read, PlainFile.read]
  simp only [h.byte]

/-- How a run from `s` may end that answers the request `r`. -/
def Answered (inos : Set UInt32) (s : State) (fs : Files) (r : Request)
    (o : Outcome Stop State Unit) : Prop :=
  ∃ fs', Serves fs r (answer o).2 fs' ∧ Holds inos (answer o).1 fs' ∧
    ∃ sv sv', s.vnode? r.ino = some sv ∧ Changes s (answer o).1 r.ino sv sv'

/-- From how a transfer may finish and stop. -/
theorem answered_of_wp {r : Request} {m : State}
    (h : wp (Watch.any fsGrowth) (io ino) (fun _ t => Answered inos s fs r (.done () t))
      (fun e t => Answered inos s fs r (.halt e t)) m) : Answered inos s fs r ((io ino).run m) := by
  have hsat := sat_of_wp h
  cases hrun : (io ino).run m with
  | done a t =>
    rw [hrun] at hsat
    exact hsat
  | halt e t =>
    rw [hrun] at hsat
    exact hsat

theorem Changes.of_moved (h : Changes { s with uio := u } t ino sv sv') : Changes s t ino sv sv' :=
  ⟨h.mount, h.vnode, h.others, h.nbits, h.volume, h.tidy, h.aside⟩

theorem Holds.got (h : Holds inos s fs) (hk : s.Keeps ino sv (fs ino)) {f : Sparse 512}
    (hg : Got f { s with uio := u } t c) : Holds inos t fs ∧
      ∃ sv sv', s.vnode? ino = some sv ∧ Changes s t ino sv sv' := by
  have hgrown := Grown.same hk.vnode hk.tidy t.uio t.tick
  have hstate : t = { s with uio := t.uio, tick := t.tick } := hg.state
  rw [← hstate] at hgrown
  refine ⟨?_, sv, sv, hk.vnode, hgrown.changes h.volume⟩
  rw [hstate]
  exact h.moved t.uio t.tick

theorem answered_read (h : Holds inos s fs) (hino : ino ∈ inos) (hu : u.Ample)
    (hrw : u.uioRw = .read) :
    Answered inos s fs (.transfer ino u) ((io ino).run { s with uio := u }) := by
  obtain ⟨sv, hk, hready⟩ := h.ready hu hino
  refine answered_of_wp (wp_io_read hready hrw (fun t hg => ?_) fun e t he => ?_)
  · have hadv := hg.uio
    have hdst := hg.dst
    rw [hk.read] at hdst
    rw [← hk.size] at hadv hdst
    exact ⟨fs, .read hrw hadv hdst, h.got hk hg⟩
  · cases e with
    | panic p => exact he.elim
    | fail e =>
      cases e <;> try exact he.elim
      case efault =>
        obtain ⟨⟨hseg, -⟩, c, hg⟩ := he
        have hdst := hg.dst
        rw [hk.read] at hdst
        exact ⟨fs, .readStop c hrw hg.uio hdst (Or.inl ⟨rfl, hseg⟩), h.got hk hg⟩
      case efbig =>
        obtain ⟨hbig, c, hg⟩ := he
        have hdst := hg.dst
        rw [hk.read] at hdst
        exact ⟨fs, .readStop c hrw hg.uio hdst (Or.inr ⟨rfl, hbig⟩), h.got hk hg⟩

/-- What has been stored shows in its file. -/
theorem Holds.stored (h : Holds inos s fs) (hino : ino ∈ inos) (hk : s.Keeps ino sv (fs ino))
    (hs : Stored { s with uio := u } t ino sv sv' c) {c₀ : ℕ}
    (hbyte : ∀ p, (image t.disk sv'.svI).byte p =
      ((image s.disk sv.svI).put u.uioOffset (u.src.take c₀)).byte p) :
    Holds inos t (Function.update fs ino ((fs ino).put u.uioOffset (u.src.take c₀) c)) ∧
      ∃ sv sv', s.vnode? ino = some sv ∧ Changes s t ino sv sv' := by
  have hmoved := h.moved u s.tick
  have hc := hs.toGrown.changes hmoved.volume
  refine ⟨hmoved.changed hino hk.vnode hc ?_ fun p => ?_, sv, sv', hk.vnode, hc.of_moved⟩
  · have hsize := hs.size
    rw [hsize, PlainFile.put]
    dsimp only
    rw [hk.size]
  · rw [hbyte, Sparse.byte_put (by decide), PlainFile.put]
    dsimp only
    rw [hk.byte]

theorem byte_lead (s : State) (d : Dinode) (p : ℕ) :
    (s.lead d).byte p = (image s.disk d).byte p := by
  rw [State.lead]
  split
  · rfl
  · exact Sparse.byte_touch _ _ p

theorem answered_write (h : Holds inos s fs) (hino : ino ∈ inos) (hu : u.Ample)
    (hrw : u.uioRw = .write) (hoff : u.uioOffset / 512 < 2 ^ 32) :
    Answered inos s fs (.transfer ino u) ((io ino).run { s with uio := u }) := by
  obtain ⟨sv, hk, hready⟩ := h.ready hu hino
  refine answered_of_wp (wp_io_write hready.toSteady hready.nearBlocks hrw hoff
    (fun t sv' hs himage => ?_) fun e t he => ?_)
  · refine ⟨_, .write hrw hs.uio, h.stored hino hk hs fun p => ?_⟩
    rw [himage, Sparse.byte_put (by decide), Sparse.byte_put (by decide), byte_lead]
  · cases e with
    | panic p => exact he.elim
    | fail e =>
      cases e <;> try exact he.elim
      case enospc =>
        obtain ⟨-, sv', c, hs, himage⟩ := he
        exact ⟨_, .writeStop c c hrw hs.uio le_rfl (Or.inl ⟨rfl, rfl⟩),
          h.stored hino hk hs fun p => by rw [himage]⟩
      case efbig =>
        obtain ⟨hbig, sv', c, hs, himage⟩ := he
        exact ⟨_, .writeStop c c hrw hs.uio le_rfl (Or.inr (Or.inl ⟨rfl, rfl, hbig⟩)),
          h.stored hino hk hs fun p => by rw [himage]⟩
      case efault =>
        obtain ⟨⟨hseg, -⟩, sv', c₀, c, k, hs, hle, -, himage⟩ := he
        exact ⟨_, .writeStop c₀ c hrw hs.uio hle (Or.inr (Or.inr ⟨rfl, hseg⟩)),
          h.stored hino hk hs fun p => by rw [himage, Sparse.byte_touch]⟩

end Transfer

/-! ### Truncation -/

section Truncate

variable {inos : Set UInt32} {s t : State} {fs : Files} {ino : UInt32} {sv sv' : SfsVnode}
  {len : ℤ} {n : ℕ} {d : Dinode} {map : Bitmap}

/-- The length in blocks, of any length there is a size for. -/
theorem toNat_blocklen_of_lt (h0 : 0 ≤ len) (h1 : len < 2 ^ 32) :
    (blocklen len).toNat = (len.toNat + 511) / 512 := by
  have hdiv : (len + 512 - 1).tdiv 512 = (len + 511) / 512 := by
    rw [Int.tdiv_eq_ediv_of_nonneg (by omega)]
    congr 1
    omega
  have hcut := toNat_ofInt ((len + 511) / 512)
  rw [blocklen, hdiv]
  omega

/-- What is left in a place: what was there, or nothing. -/
theorem pointer_shortened (d : Dinode) (disk : Disk) (n : ℕ) (size : UInt32) (p : Ptr) :
    (d.shortened disk n size).pointer (d.shortenedDisk n true disk) p = 0 ∨
      (d.shortened disk n size).pointer (d.shortenedDisk n true disk) p = d.pointer disk p ∧
        ¬d.Cuts disk n p := by
  cases p with
  | direct i =>
    change (if i ∈ List.finRange 15 ∧ n ≤ i then 0 else d.sfiDirect i) = 0 ∨
      (if i ∈ List.finRange 15 ∧ n ≤ i then 0 else d.sfiDirect i) = d.sfiDirect i ∧ _
    split
    · exact Or.inl rfl
    · next hnot => exact Or.inr ⟨rfl, fun hc => hnot ⟨List.mem_finRange i, hc.1⟩⟩
  | indirect =>
    change (if d.Scans n then _ else _) = 0 ∨ (if d.Scans n then _ else _) = d.sfiIndirect ∧ _
    by_cases hscan : d.Scans n
    · rw [if_pos hscan, keptIndirect, ← hscan.indirectAt disk]
      split
      · exact Or.inl rfl
      · next hsome => exact Or.inr ⟨rfl, fun hc => hsome hc.2⟩
    · rw [if_neg hscan]
      exact Or.inr ⟨rfl, fun hc => hscan hc.1⟩
  | entry j =>
    change indirectAt _ _ j = 0 ∨ indirectAt _ _ j = indirectAt disk d j ∧ _
    rw [indirectAt_shortened]
    split
    · rw [keptEntries]
      split
      · exact Or.inl rfl
      · next hnot => exact Or.inr ⟨rfl, fun hc => hnot hc.2.1⟩
    · next hscan => exact Or.inr ⟨rfl, fun hc => hscan hc.1⟩

/-- A place before the new end is left as it was. -/
theorem pointer_shortened_of_lt (d : Dinode) (disk : Disk) {n k : ℕ} (size : UInt32) {p : Ptr}
    (hp : Ptr.ofBlock k = some p) (hk : k < n) :
    (d.shortened disk n size).pointer (d.shortenedDisk n true disk) p = d.pointer disk p := by
  rcases Ptr.eq_of_ofBlock hp with ⟨i, rfl, rfl⟩ | ⟨j, rfl, rfl⟩
  · change (if i ∈ List.finRange 15 ∧ n ≤ i then 0 else d.sfiDirect i) = d.sfiDirect i
    rw [if_neg fun hc => absurd hk (Nat.not_lt_of_le hc.2)]
  · change indirectAt _ _ j = indirectAt disk d j
    rw [indirectAt_shortened]
    split
    · rw [keptEntries, if_neg (by omega)]
    · rfl

/-- The only block that is written is the indirect block. -/
theorem shortenedDisk_of_ne (d : Dinode) (disk : Disk) (n : ℕ) {b : UInt32}
    (h : b ≠ d.sfiIndirect ∨ d.sfiIndirect = 0) : d.shortenedDisk n true disk b = disk b := by
  rw [Dinode.shortenedDisk]
  split
  · next hscan =>
    rw [writtenBack]
    split
    · exact Function.update_of_ne (h.resolve_right hscan.2) _ _
    · rfl
  · rfl

theorem Dinode.Cuts.ne_zero {disk : Disk} {p : Ptr} (h : d.Cuts disk n p) :
    d.pointer disk p ≠ 0 := by
  cases p with
  | direct i => exact h.2
  | indirect => exact h.1.2
  | entry j => exact h.2.2

/-- A truncation of a tidy file touches its own blocks only. -/
theorem changes_shortened (hvol : s.VolumeOk)
    (hmapped : s.mount.sfsSb.sbNblocks.toNat ≤ s.sfsFreemap.nbits.toNat) (htidy : s.Tidy sv.svI)
    {size : UInt32}
    (hmap : s.sfsFreemap.unmarkAll (sv.svI.freed s.disk n) = some map)
    (h : Shortened s t ino (sv.svI.shortened s.disk n size) map
      (sv.svI.shortenedDisk n true s.disk)) :
    ∃ sv', sv'.svI = sv.svI.shortened s.disk n size ∧ Changes s t ino sv sv' := by
  obtain ⟨sv', hv, hd⟩ := h.vnode
  have hptr (p : Ptr) : sv'.svI.pointer t.disk p = 0 ∨
      sv'.svI.pointer t.disk p = sv.svI.pointer s.disk p ∧ ¬sv.svI.Cuts s.disk n p := by
    rw [hd, h.disk]
    exact pointer_shortened _ _ _ _ p
  have hfreed : ∀ b ∈ sv.svI.freed s.disk n, sv.svI.Has s.disk b := by
    intro b hb
    rw [Dinode.freed_eq, List.mem_map] at hb
    obtain ⟨p, hp, rfl⟩ := hb
    exact ⟨(Dinode.mem_cutPtrs_iff.mp hp).ne_zero, p, rfl⟩
  obtain ⟨hnbits, hbit⟩ := Bitmap.bit_unmarkAll_of_ne hmap
  have hbits (i : ℕ) (hi : i = 0 ∨ s.mount.sfsSb.sbNblocks.toNat ≤ i) :
      map.bit i = s.sfsFreemap.bit i := by
    refine hbit i fun b hb heq => ?_
    have hb' := hfreed b hb
    have hlt : b.toNat < s.mount.sfsSb.sbNblocks.toNat := (htidy.has_inUse hb').1
    rcases hi with rfl | hi
    · exact hb'.1 (UInt32.toNat_inj.mp heq)
    · omega
  have hset (b : UInt32) : map.isset b = true ↔ s.sfsFreemap.isset b = true ∧
      ∀ p, sv.svI.Cuts s.disk n p → sv.svI.pointer s.disk p ≠ b := isset_of_freed hmap b
  refine ⟨sv', hd, h.mount, hv, h.others, ?_, ⟨?_, ?_, ?_, ?_, ?_⟩, ⟨fun p hp => ?_,
    fun p q hp hpq => ?_⟩, fun b hb hnot => ⟨⟨?_, ?_⟩, ?_, ?_⟩⟩
  · rw [h.freemap, hnbits]
  · rw [h.mount]
    exact hvol.fits
  · rw [h.freemap, hnbits]
    exact hvol.nbits
  · intro i hlo hhi
    rw [h.freemap] at hlo hhi ⊢
    rw [hnbits] at hlo hhi
    rw [hbits i (Or.inr (hmapped.trans hlo))]
    exact hvol.padded i hlo hhi
  · intro i hlo hhi
    rw [h.mount] at hlo
    rw [h.freemap, hnbits] at hhi
    rw [h.freemap, hbits i (Or.inr hlo)]
    exact hvol.past i hlo hhi
  · rw [h.freemap, hbits 0 (Or.inl rfl)]
    exact hvol.super
  · have hp' := (hptr p).resolve_left hp
    rw [hp'.1] at hp ⊢
    refine ⟨?_, ?_⟩
    · rw [h.mount]
      exact (htidy.inUse p hp).1
    · rw [h.freemap, hset]
      refine ⟨(htidy.inUse p hp).2, fun q hq heq => hp'.2 ?_⟩
      rwa [← htidy.inj q p hq.ne_zero heq]
  · have hp' := (hptr p).resolve_left hp
    have hq' := (hptr q).resolve_left (hpq ▸ hp)
    rw [hp'.1] at hp
    rw [hp'.1, hq'.1] at hpq
    exact htidy.inj p q hp hpq
  · rw [h.mount]
    exact hb.1
  · rw [h.freemap, hset]
    exact ⟨hb.2, fun p hp heq => hnot ⟨heq ▸ hp.ne_zero, p, heq⟩⟩
  · rintro ⟨h0, p, hp⟩
    rcases hptr p with hzero | ⟨hsame, -⟩
    · exact h0 (hp.symm.trans hzero)
    · exact hnot ⟨h0, p, hsame.symm.trans hp⟩
  · rw [h.disk]
    refine shortenedDisk_of_ne _ _ _ ?_
    by_cases hind : sv.svI.sfiIndirect = 0
    · exact Or.inr hind
    · exact Or.inl fun heq => hnot ⟨heq ▸ hind, .indirect, heq.symm⟩

/-- A block of the file after a truncation: what it was, or none from the new end on. -/
theorem image_shortened (disk : Disk) (d : Dinode) (n : ℕ) (size : UInt32) (k : ℕ)
    (hinj : ∀ p q, d.pointer disk p ≠ 0 → d.pointer disk p = d.pointer disk q → p = q) :
    image (d.shortenedDisk n true disk) (d.shortened disk n size) k = image disk d k ∨
      n ≤ k ∧ image (d.shortenedDisk n true disk) (d.shortened disk n size) k = none := by
  cases hp : Ptr.ofBlock k with
  | none =>
    rw [image_of_zero (fileBlock_of_ofBlock_none _ _ hp),
      image_of_zero (fileBlock_of_ofBlock_none _ _ hp)]
    exact Or.inl rfl
  | some p =>
    by_cases hsame : (d.shortened disk n size).pointer (d.shortenedDisk n true disk) p =
        d.pointer disk p
    · refine Or.inl (image_congr ?_ fun hne => shortenedDisk_of_ne _ _ _ ?_)
      · rw [fileBlock_of_ofBlock _ _ hp, fileBlock_of_ofBlock _ _ hp, hsame]
      · rw [fileBlock_of_ofBlock _ _ hp] at hne ⊢
        -- the indirect block is in a place of its own
        exact Or.inl fun heq => Ptr.ne_indirect_of_ofBlock hp (hinj p .indirect hne heq)
    · have hzero := (pointer_shortened d disk n size p).resolve_right fun h => hsame h.1
      refine Or.inr ⟨Nat.le_of_not_lt fun hk => hsame (pointer_shortened_of_lt d disk size hp hk),
        image_of_zero ?_⟩
      rw [fileBlock_of_ofBlock _ _ hp, hzero]

/-- What the file reads as after a truncation. -/
theorem truncated_shortened (disk : Disk) (d : Dinode) (size : UInt32) {len : ℕ}
    (hn : n = (len + 511) / 512) {f g : PlainFile} (hf : ∀ p, f.byte p = (image disk d).byte p)
    (hg : ∀ p, g.byte p = (image (d.shortenedDisk n true disk) (d.shortened disk n size)).byte p)
    (hinj : ∀ p q, d.pointer disk p ≠ 0 → d.pointer disk p = d.pointer disk q → p = q)
    (hsize : g.size = len) : f.Truncated g len := by
  have hbyte (p : ℕ) : g.byte p = f.byte p ∨ n ≤ p / 512 ∧ g.byte p = 0 := by
    rw [hf, hg, Sparse.byte, Sparse.byte, Sparse.block, Sparse.block]
    rcases image_shortened disk d n size (p / 512) hinj with hsame | ⟨hpast, hnone⟩
    · rw [hsame]
      exact Or.inl rfl
    · rw [hnone, Option.getD_none, Bytes.get_zero]
      exact Or.inr ⟨hpast, rfl⟩
  refine ⟨hsize, fun p hp => (hbyte p).resolve_right fun h => ?_, fun p => ?_⟩
  · have := h.1
    omega
  · exact (hbyte p).imp id fun h => h.2

theorem answered_truncate (h : Holds inos s fs) (hino : ino ∈ inos) (h0 : 0 ≤ len)
    (h1 : len < 2 ^ 32) : Answered inos s fs (.truncate ino len) ((itrunc ino len).run s) := by
  obtain ⟨sv, hk⟩ := h.file ino hino
  obtain ⟨map', hmap'⟩ : ∃ map, s.sfsFreemap.unmarkAll
      (sv.svI.freed s.disk (blocklen len).toNat) = some map := by
    refine (s.givesBack_iff _ _).mp ⟨fun p q hp _ hpq => hk.tidy.inj p q hp.ne_zero hpq,
      fun p hp => ?_⟩
    obtain ⟨hlt, hset⟩ := hk.tidy.inUse p hp.ne_zero
    exact ⟨Nat.lt_of_lt_of_le hlt h.mapped, hset⟩
  have hdirect : s.sfsFreemap.unmarkAll
      (sv.svI.freedDirect (blocklen len).toNat (List.finRange 15)) ≠ none := by
    intro hnone
    rw [Dinode.freed, Bitmap.unmarkAll_append, hnone] at hmap'
    cases hmap'
  have hread := readFails_false h.works
  have hends := itrunc_cases hk.vnode len
  generalize (itrunc ino len).run s = o at hends ⊢
  cases hends with
  | @done t map k hscan hmap hs =>
    rw [h.works] at hs
    obtain ⟨sv', hd, hc⟩ := changes_shortened h.volume h.mapped hk.tidy hmap hs
    have hsize : (sv'.svI.sfiSize.toNat : ℤ) = len := by
      rw [hd, Dinode.shortened, toNat_ofInt]
      omega
    refine ⟨_, .truncate (f := ⟨len.toNat, (image t.disk sv'.svI).byte⟩) ?_,
      h.changed hino hk.vnode hc (by dsimp only; omega) fun p => rfl, sv, sv', hk.vnode, hc⟩
    refine truncated_shortened s.disk sv.svI (UInt32.ofInt len) (toNat_blocklen_of_lt h0 h1)
      hk.byte (fun p => ?_) hk.tidy.inj rfl
    rw [hd, hs.disk]
  | failed _ _ hfails => exact absurd hfails (readFails_false h.works)
  | past hscan hd =>
    have hlt := (hk.tidy.inUse .indirect hscan.2).1
    exact absurd hd (fits_of_lt (Nat.lt_of_lt_of_le hlt h.volume.fits))
  | direct hmap => exact absurd hmap hdirect
  | indirect _ hmap =>
    rw [hmap] at hmap'
    cases hmap'

end Truncate

/-! ### Requests in any order -/

section Serve

variable {inos : Set UInt32} {s : State} {fs : Files}

/-- **One request** is answered as the files may answer it. -/
theorem holds_serve (h : Holds inos s fs) {r : Request} (hino : r.ino ∈ inos) (hr : r.Proper) :
    ∃ fs', Serves fs r (s.serve r).2 fs' ∧ Holds inos (s.serve r).1 fs' ∧
      ∃ sv sv', s.vnode? r.ino = some sv ∧ Changes s (s.serve r).1 r.ino sv sv' := by
  cases r with
  | transfer ino u =>
    cases hrw : u.uioRw with
    | read => exact answered_read h hino hr.1 hrw
    | write => exact answered_write h hino hr.1 hrw (hr.2 hrw)
  | truncate ino len => exact answered_truncate h hino hr.1 hr.2

/-- A file the request is not for. -/
theorem Serves.other {fs' : Files} {r : Request} {a : Answer} (h : Serves fs r a fs') {ino : UInt32}
    (hr : r.ino ≠ ino) : fs' ino = fs ino := by
  cases h with
  | read => rfl
  | readStop => rfl
  | write => exact Function.update_of_ne (Ne.symm hr) _ _
  | writeStop => exact Function.update_of_ne (Ne.symm hr) _ _
  | truncate => exact Function.update_of_ne (Ne.symm hr) _ _

/-- **Any sequence of requests** is answered as the files may answer it, each request seeing what
the ones before it have left, and a file that none of them is for is as it was. -/
theorem serve_files (h : Holds inos s fs) (rs : List Request)
    (hrs : ∀ r ∈ rs, r.ino ∈ inos ∧ r.Proper) :
    ∃ fs', Traces Serves fs (answers State.serve s rs).1 fs' ∧
      Holds inos (answers State.serve s rs).2 fs' ∧
      ∀ ino, (∀ r ∈ rs, r.ino ≠ ino) → fs' ino = fs ino := by
  obtain ⟨fs', htrace, hholds⟩ := traces_answers (R := Holds inos)
    (P := fun r : Request => r.ino ∈ inos ∧ r.Proper) (fun s fs r h hr => by
      obtain ⟨fs', hS, hR, -⟩ := holds_serve h hr.1 hr.2
      exact ⟨fs', hS, hR⟩) h hrs
  refine ⟨fs', htrace, hholds, fun ino hother => ?_⟩
  refine htrace.keeps (P := fun fs'' => fs'' ino = fs ino) (Q := fun r : Request => r.ino ≠ ino)
    (fun a i r b ha hne hS => (hS.other hne).trans ha) (fun x hx => hother x.1 ?_) rfl
  rw [← map_fst_answers State.serve s rs]
  exact List.mem_map_of_mem hx

/-- An empty object of which nothing is on the disk yet. -/
def newVnode (type : UInt32 → UInt16) (ino : UInt32) : SfsVnode :=
  ⟨ino, { sampleFile 0 (fun _ => 0) 0 with sfiType := type ino }, true, 1⟩

/-- Only the blocks `5` to `7` are free. -/
def newMap : Bitmap := ⟨4096, fun ix => if ix = 0 then 0x1f else 0xff⟩

/-- Two empty objects on a volume with three free blocks. Only the superblock has been written. -/
def newVolume (type : UInt32 → UInt16) : State where
  disk := Function.update (fun _ => Bytes.zero) 0
    (Superblock.toBlock ⟨sfsMagic, 8, Bytes.zero, fun _ => 0⟩)
  sfsVnodes := [newVnode type 3, newVnode type 4]
  sfsFreemap := newMap
  sfsFreemapdirty := true
  sfsSuperdirty := false
  uio := Uio.uioKinit [] 0 0 .read
  tick := 0
  writes := 0
  mount := ⟨⟨fun _ _ => true, fun _ => true, fun _ => true⟩, 8,
    ⟨sfsMagic, 8, Bytes.zero, fun _ => 0⟩⟩

section NewVolume

variable {type : UInt32 → UInt16}

theorem pointer_newVnode (disk : Disk) (ino : UInt32) (p : Ptr) :
    (newVnode type ino).svI.pointer disk p = 0 := by
  cases p <;> rfl

theorem vnode?_newVolume {ino : UInt32} {sv : SfsVnode}
    (h : (newVolume type).vnode? ino = some sv) :
    (ino = 3 ∨ ino = 4) ∧ sv = newVnode type ino := by
  have hmem : sv ∈ [newVnode type 3, newVnode type 4] := List.mem_of_find?_eq_some h
  have hino := svIno_of_vnode? h
  rcases List.mem_cons.mp hmem with rfl | hmem
  · exact ⟨Or.inl hino.symm, congrArg (newVnode type) hino⟩
  · obtain rfl := List.mem_singleton.mp hmem
    exact ⟨Or.inr hino.symm, congrArg (newVnode type) hino⟩

theorem volumeOk_newVolume : (newVolume type).VolumeOk where
  fits := Nat.le_refl 8
  nbits := show newMap.nbits.toNat + 7 < 2 ^ 32 by decide
  padded i hlo hhi := by
    change newMap.nbits.toNat ≤ i at hlo
    change i < 8 * (Bitmap.words newMap.nbits).toNat at hhi
    exact absurd hhi (Nat.not_lt_of_le hlo)
  past i hlo _ := by
    change 8 ≤ i at hlo
    change newMap.bit i = true
    have h255 : (0xff : UInt8).toNat = 2 ^ 8 - 1 := rfl
    rw [Bitmap.bit, newMap]
    dsimp only
    rw [if_neg (by omega), h255, Nat.testBit_two_pow_sub_one]
    exact decide_eq_true (Nat.mod_lt i (by omega))
  super := show newMap.bit 0 = true by decide

theorem holds_newVolume : Holds {3, 4} (newVolume type) fun _ => ⟨0, fun _ => 0⟩ := by
  have hkeeps (ino : UInt32) (hv : (newVolume type).vnode? ino = some (newVnode type ino)) :
      (newVolume type).Keeps ino (newVnode type ino) ⟨0, fun _ => 0⟩ := by
    refine ⟨hv, ⟨fun p hp => absurd (pointer_newVnode _ ino p) hp,
      fun p q hp => absurd (pointer_newVnode _ ino p) hp⟩, rfl, fun p => ?_⟩
    rw [Sparse.byte, Sparse.block, image_of_zero, Option.getD_none, Bytes.get_zero]
    cases hp : Ptr.ofBlock (p / 512) with
    | none => exact fileBlock_of_ofBlock_none _ _ hp
    | some q => exact (fileBlock_of_ofBlock _ _ hp).trans (pointer_newVnode _ ino q)
  refine ⟨volumeOk_newVolume, Nat.le_of_ble_eq_true rfl, Nat.le_of_ble_eq_true rfl,
    fun _ _ => rfl, ?_, ?_⟩
  · rintro ino (rfl | rfl)
    · exact ⟨_, hkeeps 3 rfl⟩
    · exact ⟨_, hkeeps 4 rfl⟩
  · rintro i - j - - sv sv' b hv - ⟨h0, p, hp⟩
    obtain ⟨-, rfl⟩ := vnode?_newVolume hv
    rw [pointer_newVnode] at hp
    exact absurd hp.symm h0

end NewVolume

/-- Two empty files. -/
def twoFiles : State := newVolume fun _ => sfsTypeFile

/-- A block goes from one file to the other. -/
def twoRequests : List Request :=
  [.transfer 3 (Uio.uioKinit (List.replicate 700 7) 700 0 .write), .truncate 3 0,
    .transfer 4 (Uio.uioKinit (List.replicate 3 5) 3 1 .write),
    .transfer 4 (Uio.uioKinit [] 600 0 .read)]

theorem proper_twoRequests (r : Request) (hr : r ∈ twoRequests) : r.ino ∈ [3, 4] ∧ r.Proper := by
  have hkinit (l : List UInt8) (n : UInt32) (pos : ℕ) (rw : UioRw) (hl : rw = .write →
      n.toNat ≤ l.length) : (Uio.uioKinit l n pos rw).Ample :=
    ⟨Nat.le_refl _, hl⟩
  rcases List.mem_cons.mp hr with rfl | hr
  · exact ⟨by decide, hkinit _ _ _ _ fun _ => (List.length_replicate (a := (7 : UInt8))).ge,
      fun _ => by decide⟩
  rcases List.mem_cons.mp hr with rfl | hr
  · exact ⟨by decide, by decide, by decide⟩
  rcases List.mem_cons.mp hr with rfl | hr
  · exact ⟨by decide, hkinit _ _ _ _ fun _ => (List.length_replicate (a := (5 : UInt8))).ge,
      fun _ => by decide⟩
  obtain rfl := List.mem_singleton.mp hr
  exact ⟨by decide, hkinit [] 600 0 .read (fun hc => by cases hc), fun hc => by cases hc⟩

theorem serve_files_two : ∃ fs', Traces Serves (fun _ => ⟨0, fun _ => 0⟩)
    (answers State.serve twoFiles twoRequests).1 fs' ∧
    Holds {3, 4} (answers State.serve twoFiles twoRequests).2 fs' ∧
    ∀ ino, (∀ r ∈ twoRequests, r.ino ≠ ino) → fs' ino = ⟨0, fun _ => 0⟩ := by
  refine serve_files (s := twoFiles) holds_newVolume twoRequests fun r hr => ?_
  obtain ⟨hino, hproper⟩ := proper_twoRequests r hr
  refine ⟨?_, hproper⟩
  rcases List.mem_cons.mp hino with hino | hino
  · exact Or.inl hino
  · exact Or.inr (List.mem_singleton.mp hino)

end Serve

end Sfs

end Os161
