import Os161.Sfs.Refs
import Os161.Sfs.Whole

/-!
# The entries of a directory

What `sfs_metaio` and the functions of `kern/fs/sfs/sfs_dir.c` do to the contents of a directory, on
a disk that may fail to read.

A directory is a file of entries of 64 bytes, so that the contents of a file (`image`) say what its
entries are. Linking and unlinking change one entry; a call that fails changes none, although it may
have given the directory a block.

Getting that block takes commands to write, and this module has the disk carry them out. Once the
block is there it does not have to: `wp_metaio_end` says what becomes of the entry either way, and
`Sfs.Lost` goes on from it.

## Main results

* `wp_dirFindname` — where a name and an empty slot are found
* `wp_metaio_end` — the entry has been written, or lost
* `wp_writedir` — what writing an entry changes, and that it changes nothing when it fails
* `Put.names_iff` — when the names are as before although the slot for a new entry has been written
-/

namespace Os161

namespace Sfs

open Prog

/-! ### Entries as bytes -/

/-- Entry `j` of a directory that reads as `f`. -/
def entryIn (f : Sparse 512) (j : ℕ) : Direntry := Direntry.ofBytes fun i => f.byte (64 * j + i)

section Entry

variable {f g : Sparse 512} {disk : Disk} {d : Dinode} {j k : ℕ}

theorem Direntry.ofBytes_congr {b c : Bytes 64} (h : ∀ i < 64, b.get i = c.get i) :
    Direntry.ofBytes b = Direntry.ofBytes c := congrArg Direntry.ofBytes (Bytes.ext_get h)

theorem entryIn_congr (h : ∀ i < 64, f.byte (64 * j + i) = g.byte (64 * j + i)) :
    entryIn f j = entryIn g j := by
  refine Direntry.ofBytes_congr fun i hi => ?_
  rw [Bytes.get_of_lt _ hi, Bytes.get_of_lt _ hi]
  exact h i hi

/-- The entries of a directory are those of its contents. -/
theorem entryAt_eq (disk : Disk) (d : Dinode) (j : ℕ) :
    entryAt disk d j = entryIn (image disk d) j := by
  -- the 64 bytes lie in one block
  have hbyte : ∀ i < 64, (image disk d).byte (64 * j + i) =
      ((image disk d).block (j / 8)).get (64 * (j % 8) + i) := by
    intro i hi
    rw [← Sparse.byte_block _ _ (by omega)]
    congr 1
    omega
  have hget : ∀ b : Block, (image disk d).block (j / 8) = b →
      entryIn (image disk d) j = direntryOf b (j % 8) := by
    rintro b rfl
    have hword : ∀ i < 64, Bytes.get (n := 64) (fun i => (image disk d).byte (64 * j + i)) i =
        ((image disk d).block (j / 8)).get (64 * (j % 8) + i) := by
      intro i hi
      rw [Bytes.get_of_lt _ hi]
      exact hbyte i hi
    refine Direntry.ext ?_ (funext fun i => ?_)
    · have h0 := hword 0 (by omega)
      rw [Nat.add_zero] at h0
      change Bytes.word _ 0 = Bytes.word _ (16 * (j % 8))
      rw [Bytes.word, Bytes.word, show 4 * (16 * (j % 8)) = 64 * (j % 8) by omega, Nat.mul_zero,
        Nat.zero_add, Nat.zero_add, Nat.zero_add, h0, hword 1 (by omega), hword 2 (by omega),
        hword 3 (by omega)]
    · have hi := i.isLt
      have h4 := hword (4 + i) (by omega)
      rw [← Nat.add_assoc] at h4
      exact h4
  rw [entryAt]
  by_cases h0 : fileBlock disk d (j / 8) = 0
  · rw [if_pos h0, hget Bytes.zero (by rw [Sparse.block, image_of_zero h0]; rfl),
      direntryOf_zero]
  · rw [if_neg h0]
    refine (hget _ ?_).symm
    rw [Sparse.block, image_of_ne h0, Option.getD_some]

theorem Direntry.ofBytes_toBytes (e : Direntry) : Direntry.ofBytes e.toBytes = e := by
  have hget : ∀ i < 64, e.toBytes.get i =
      if i < 4 then byteOf e.sfdIno i else e.sfdName.get (i - 4) := fun i hi =>
    Bytes.get_ofFn _ hi
  refine Direntry.ext ?_ (funext fun i => ?_)
  · change Bytes.word _ 0 = _
    rw [Bytes.word, Nat.mul_zero, Nat.zero_add, Nat.zero_add, Nat.zero_add, hget 0 (by omega),
      hget 1 (by omega), hget 2 (by omega), hget 3 (by omega), if_pos (by omega),
      if_pos (by omega), if_pos (by omega), if_pos (by omega), beWord_byteOf]
  · have hi := i.isLt
    change e.toBytes.get (4 + i) = _
    rw [hget _ (by omega), if_neg (by omega), Nat.add_sub_cancel_left, Bytes.get_val]

/-- The entry that is written for a name reads as that name. -/
theorem name_setCstr {name : List UInt8} (hlen : name.length < 60) (hz : (0 : UInt8) ∉ name)
    (ino : UInt32) : Direntry.name (Direntry.terminated ⟨ino, setCstr Bytes.zero name⟩) = name := by
  change cstr (Function.update (setCstr Bytes.zero name) 59 0) = name
  have hget {i : ℕ} (hi : i < 60) :
      Bytes.get (n := 60) (Function.update (setCstr Bytes.zero name) 59 0) i =
        if i = 59 then 0 else (setCstr (Bytes.zero : Bytes 60) name).get i := by
    rw [Bytes.get_of_lt _ hi, Bytes.get_of_lt _ hi, Function.update_apply]
    simp only [Fin.ext_iff]
    rfl
  refine cstr_eq_of_prefix hlen (fun i hi => ?_) ?_ hz
  · rw [hget (by omega), if_neg (by omega), setCstr, Bytes.get_ofFn _ (by omega), dif_pos hi]
  · rw [hget hlen]
    split
    · rfl
    · rw [setCstr, Bytes.get_ofFn _ hlen, dif_neg (Nat.lt_irrefl _), if_pos rfl]

end Entry

/-! ### Reading -/

section Read

variable {W : Watch fsGrowth} {E : Stop → State → Prop} {s : State} {ino : UInt32}
  {sv : SfsVnode}

/-- `sfs_bmap` without allocation, on a disk that may fail to read. -/
theorem wp_bmap_find {R : UInt32 → State → Prop} (hv : s.vnode? ino = some sv)
    (htidy : s.Tidy sv.svI) (hvol : s.VolumeOk) (fileblock : UInt32)
    (hdone : ∀ k, R (fileBlock s.disk sv.svI fileblock.toNat) { s with tick := k })
    (hfail : ∀ e k, E (.fail e) { s with tick := k }) :
    wp W (bmap ino fileblock false) R E s := by
  by_cases h0 : fileBlock s.disk sv.svI fileblock.toNat ≠ 0
  · exact wp_bmap_mapped hv htidy hvol rfl h0 false hdone fun _ k => hfail .eio k
  rw [not_not] at h0
  have hzero : ∀ fb block k, block = 0 → wp W (handBack ino fb block) R E { s with tick := k } := by
    rintro fb _ k rfl
    refine wp_of_run_done ((run_handBack (s := { s with tick := k }) ino fb 0).1 (Or.inl rfl)) ?_
    exact h0 ▸ hdone k
  by_cases hdirect : fileblock.toNat < 15
  · rw [bmap, dif_pos hdirect, bmapDirect_lookup]
    refine wp_bind (wp_getVnode hv (hzero _ _ s.tick ?_))
    rw [fileBlock, dif_pos hdirect] at h0
    exact h0
  by_cases hentry : fileblock.toNat < 143
  · obtain ⟨i, hi⟩ : ∃ i : Fin 128, fileblock.toNat = 15 + i :=
      ⟨⟨fileblock.toNat - 15, by omega⟩, by dsimp only; omega⟩
    have hat : indirectAt s.disk sv.svI i = 0 := by
      rw [hi, fileBlock_entry] at h0
      exact h0
    by_cases hind : sv.svI.sfiIndirect = 0
    · exact wp_of_run_done (run_bmap_hole hv i hi hind) (h0 ▸ hdone s.tick)
    · refine wp_of_run_eq (run_bmap_entry hv i hi hind false) (wp_bind ?_)
      refine wp_readblock (UInt32.lt_of_lt_of_le (htidy.inUse .indirect hind).1 hvol.fits)
        (fun k => ?_) fun _ k => hfail .eio k
      rw [indirectAt, if_neg hind] at hat
      rw [bmapIndirect_lookup]
      exact hzero _ _ k hat
  · rw [bmap, dif_neg hdirect, dif_neg (by omega)]
    exact wp_fail (hfail .efbig s.tick)

/-- `sfs_metaio` reads the bytes of the file. -/
theorem wp_metaioRead {len : ℕ} {R : Bytes len → State → Prop} (hv : s.vnode? ino = some sv)
    (htidy : s.Tidy sv.svI) (hvol : s.VolumeOk) {pos : ℕ} (hfit : pos % 512 + len ≤ 512)
    (hpos : pos / 512 < 2 ^ 32)
    (hdone : ∀ k, R (fun i => (image s.disk sv.svI).byte (pos + i)) { s with tick := k })
    (hfail : ∀ e k, E (.fail e) { s with tick := k }) : wp W (metaioRead ino pos len) R E s := by
  have hnat : (UInt32.ofNat (pos / 512)).toNat = pos / 512 := UInt32.toNat_ofNat_of_lt' hpos
  have hbyte : ∀ i : Fin len, (image s.disk sv.svI).byte (pos + i) =
      ((image s.disk sv.svI).block (pos / 512)).get (pos % 512 + i) := by
    intro i
    have hi := i.isLt
    rw [← Sparse.byte_block _ _ (by omega), ← Nat.add_assoc, Nat.div_add_mod]
  simp only [hbyte] at hdone
  rw [metaioRead]
  refine wp_bind (wp_bmap_find hv htidy hvol _ (fun k => ?_) hfail)
  rw [hnat]
  by_cases h0 : fileBlock s.disk sv.svI (pos / 512) = 0
  · rw [if_pos h0]
    refine wp_pure fun _ => ?_
    have hblock : (image s.disk sv.svI).block (pos / 512) = Bytes.zero := by
      rw [Sparse.block, image_of_zero h0]
      rfl
    have hk := hdone k
    simp only [hblock, Bytes.get_zero] at hk
    exact hk
  · rw [if_neg h0]
    have huse := htidy.inUse_fileBlock h0
    refine wp_bind (wp_readblock (UInt32.lt_of_lt_of_le huse.1 hvol.fits)
      (fun k' => wp_pure fun _ => ?_) fun _ k' => hfail .eio k')
    have hblock : (image s.disk sv.svI).block (pos / 512) =
        s.disk (fileBlock s.disk sv.svI (pos / 512)) := by
      rw [Sparse.block, image_of_ne h0, Option.getD_some]
    have hk := hdone k'
    rw [hblock] at hk
    exact hk

theorem wp_readdir {R : Direntry → State → Prop} (hv : s.vnode? ino = some sv)
    (htidy : s.Tidy sv.svI) (hvol : s.VolumeOk) {slot : ℕ} (hslot : slot < 2 ^ 32)
    (hdone : ∀ k, R (entryIn (image s.disk sv.svI) slot) { s with tick := k })
    (hfail : ∀ e k, E (.fail e) { s with tick := k }) : wp W (readdir ino slot) R E s := by
  rw [readdir]
  refine wp_bind (wp_metaioRead hv htidy hvol (by omega) (by omega) (fun k => ?_) hfail)
  refine wp_pure fun _ => ?_
  rw [Nat.mul_comm slot 64]
  exact hdone k

/-- How many entries the directory has. -/
def SfsVnode.nentries (sv : SfsVnode) : ℕ := sv.svI.sfiSize.toNat / 64

theorem wp_dirNentries {R : ℕ → State → Prop} {P : Errno → State → Prop}
    (hv : s.vnode? ino = some sv)
    (hdone : sv.svI.sfiType = sfsTypeDir → 64 * sv.nentries = sv.svI.sfiSize.toNat →
      R sv.nentries s) : wp W (dirNentries ino) R (onFail P) s := by
  have h64 : (64 : UInt32).toNat = 64 := rfl
  rw [dirNentries]
  refine wp_bind (wp_getVnode hv (wp_bind (wp_kassert_any fun htype => ?_)))
  refine wp_ite (fun _ => wp_panic trivial) fun hsize => wp_pure fun _ => ?_
  have hmod : sv.svI.sfiSize.toNat % 64 = 0 := by
    have := congrArg UInt32.toNat (not_not.mp hsize)
    rwa [UInt32.toNat_mod, h64] at this
  rw [UInt32.toNat_div, h64]
  exact hdone htype (Nat.mul_div_cancel' (Nat.dvd_of_mod_eq_zero hmod))

/-- What `sfs_dir_findname` has found in a directory with the entries `e`. -/
structure Found.Right (r : Found) (e : ℕ → Direntry) (n : ℕ) (name : List UInt8) : Prop where
  entry : ∀ ino slot, r.entry = some (ino, slot) →
    slot < n ∧ (e slot).sfdIno = ino ∧ ino ≠ 0 ∧ (e slot).terminated.name = name
  lacks : r.entry = none → ∀ j < n, (e j).Occupied → (e j).terminated.name ≠ name
  emptyslot : ∀ slot, r.emptyslot = some slot → slot < n ∧ (e slot).sfdIno = 0
  last : ∀ j < n, (∀ slot, r.emptyslot = some slot → slot < j) → (e j).Occupied

section Right

variable {r : Found} {e : ℕ → Direntry} {n : ℕ} {name : List UInt8}

theorem Found.Right.zero (e : ℕ → Direntry) (name : List UInt8) :
    Found.Right ⟨none, none⟩ e 0 name where
  entry _ _ h := by cases h
  lacks _ _ hj := absurd hj (Nat.not_lt_zero _)
  emptyslot _ h := by cases h
  last _ hj := absurd hj (Nat.not_lt_zero _)

/-- An empty slot. -/
theorem Found.Right.empty (h : r.Right e n name) (hn : (e n).sfdIno = 0) :
    Found.Right { r with emptyslot := some n } e (n + 1) name where
  entry ino slot hr := ⟨Nat.lt_succ_of_lt (h.entry ino slot hr).1, (h.entry ino slot hr).2⟩
  lacks hr j hj hocc := by
    rcases Nat.lt_or_eq_of_le (Nat.le_of_lt_succ hj) with hlt | rfl
    · exact h.lacks hr j hlt hocc
    · exact absurd hn hocc
  emptyslot slot hr := by
    obtain rfl := Option.some.inj hr
    exact ⟨Nat.lt_succ_self _, hn⟩
  last j hj hlater := absurd (hlater n rfl) (Nat.not_lt.mpr (Nat.le_of_lt_succ hj))

/-- An occupied slot, whatever is said about its name. -/
theorem Found.Right.occupied (h : r.Right e n name) (hn : (e n).Occupied) (j : ℕ) (hj : j < n + 1)
    (hlater : ∀ slot, r.emptyslot = some slot → slot < j) : (e j).Occupied := by
  rcases Nat.lt_or_eq_of_le (Nat.le_of_lt_succ hj) with hlt | rfl
  · exact h.last j hlt hlater
  · exact hn

/-- A slot with another name. -/
theorem Found.Right.other (h : r.Right e n name) (hn : (e n).Occupied)
    (hname : (e n).terminated.name ≠ name) : r.Right e (n + 1) name where
  entry ino slot hr := ⟨Nat.lt_succ_of_lt (h.entry ino slot hr).1, (h.entry ino slot hr).2⟩
  lacks hr j hj hocc := by
    rcases Nat.lt_or_eq_of_le (Nat.le_of_lt_succ hj) with hlt | rfl
    · exact h.lacks hr j hlt hocc
    · exact hname
  emptyslot slot hr := ⟨Nat.lt_succ_of_lt (h.emptyslot slot hr).1, (h.emptyslot slot hr).2⟩
  last := h.occupied hn

/-- The slot with the name. -/
theorem Found.Right.here (h : r.Right e n name) (hn : (e n).Occupied)
    (hname : (e n).terminated.name = name) :
    Found.Right { r with entry := some ((e n).sfdIno, n) } e (n + 1) name where
  entry ino slot hr := by
    obtain ⟨rfl, rfl⟩ := Prod.mk.inj (Option.some.inj hr)
    exact ⟨Nat.lt_succ_self _, rfl, hn, hname⟩
  lacks hr := by cases hr
  emptyslot slot hr := ⟨Nat.lt_succ_of_lt (h.emptyslot slot hr).1, (h.emptyslot slot hr).2⟩
  last := h.occupied hn

end Right

/-- **`sfs_dir_findname`** finds an entry of that name, and an empty one, and changes nothing. -/
theorem wp_dirFindname {R : Found → State → Prop} {P : Errno → State → Prop}
    (hv : s.vnode? ino = some sv) (htidy : s.Tidy sv.svI) (hvol : s.VolumeOk)
    (name : List UInt8)
    (hdone : ∀ r k, sv.svI.sfiType = sfsTypeDir → 64 * sv.nentries = sv.svI.sfiSize.toNat →
      r.Right (entryIn (image s.disk sv.svI)) sv.nentries name → R r { s with tick := k })
    (hfail : ∀ e k, P e { s with tick := k }) : wp W (dirFindname ino name) R (onFail P) s := by
  rw [dirFindname]
  refine wp_bind (wp_dirNentries hv fun htype hsize => ?_)
  have hlt : sv.nentries < 2 ^ 32 := by
    have := sv.svI.sfiSize.toNat_lt
    omega
  refine wp_post (wp_foldlM_range (fun i (acc : Found) t =>
    acc.Right (entryIn (image s.disk sv.svI)) i name ∧ ∃ k, t = { s with tick := k })
    ⟨Found.Right.zero _ name, s.tick, rfl⟩ ?_) ?_
  swap
  · rintro r t - - ⟨hr, k, rfl⟩
    exact hdone r k htype hsize hr
  rintro i acc _ hi - ⟨hacc, k, rfl⟩
  refine wp_bind (wp_readdir (s := { s with tick := k }) hv ⟨htidy.inUse, htidy.inj⟩
    ⟨hvol.fits, hvol.nbits, hvol.padded, hvol.past, hvol.super⟩ (by omega) (fun k' => ?_)
    fun e k' => hfail e k')
  dsimp only
  refine wp_ite (fun hzero => wp_pure fun _ => ⟨hacc.empty hzero, k', rfl⟩) fun hne => ?_
  refine wp_ite (fun hname => wp_bind (wp_kassert_any fun _ => wp_pure fun _ => ?_)) fun hname =>
    wp_pure fun _ => ⟨hacc.other hne hname, k', rfl⟩
  exact ⟨hacc.here hne hname, k', rfl⟩

end Read

/-! ### Writing -/

/-- Bytes put into a block of a file. -/
theorem byte_update_splice {len : ℕ} (f : Sparse 512) (k off : ℕ) (data : Bytes len)
    (hfit : off + len ≤ 512) (p : ℕ) :
    Sparse.byte (Function.update f k (some (splice (f.block k) off data))) p =
      if 512 * k + off ≤ p ∧ p < 512 * k + off + len then data.get (p - (512 * k + off))
      else f.byte p := by
  have hmod := Nat.mod_lt p (by decide : 0 < 512)
  have hp := Nat.div_add_mod p 512
  generalize p / 512 = q at hp
  generalize p % 512 = i at hmod hp
  subst hp
  rw [Sparse.byte_block _ _ hmod, Sparse.byte_block _ _ hmod, Sparse.block]
  by_cases hq : q = k
  · subst hq
    rw [Function.update_self, Option.getD_some, splice, Bytes.get_ofFn _ hmod]
    by_cases hin : off ≤ i ∧ i < off + len
    · rw [if_pos hin, if_pos (by omega)]
      congr 1
      omega
    · rw [if_neg hin, if_neg (by omega)]
  · rw [Function.update_of_ne hq, if_neg (by omega), Sparse.block]

/-- From `s` to `t` the file `ino` may have been given blocks, and reads as before. -/
structure Unwritten (s t : State) (ino : UInt32) (sv sv' : SfsVnode) : Prop
    extends Grown s t ino sv sv' where
  size : sv'.svI.sfiSize = sv.svI.sfiSize
  byte : ∀ p, (image t.disk sv'.svI).byte p = (image s.disk sv.svI).byte p

/-- From `s` to `t` the entry `slot` of the directory `ino` has become `e`, and the others are as
before. -/
structure Entered (s t : State) (ino : UInt32) (sv sv' : SfsVnode) (slot : ℕ) (e : Direntry) : Prop
    extends Grown s t ino sv sv' where
  size : sv'.svI.sfiSize.toNat = max sv.svI.sfiSize.toNat (64 * slot + 64)
  entry : ∀ j, entryIn (image t.disk sv'.svI) j =
    if j = slot then e else entryIn (image s.disk sv.svI) j

/-- From `s` to `t` the entry `e` has been given to the disk for the slot `slot`; if the disk has
lost it, the slot reads as before. -/
structure Written (s t : State) (ino : UInt32) (sv sv' : SfsVnode) (slot : ℕ) (e : Direntry) : Prop
    extends Grown s t ino sv sv' where
  size : sv'.svI.sfiSize.toNat = max sv.svI.sfiSize.toNat (64 * slot + 64)
  once : t.writes = s.writes + 1
  mapped : fileBlock t.disk sv'.svI (slot / 8) ≠ 0
  entry : ∀ j, entryIn (image t.disk sv'.svI) j =
    if j = slot ∧ s.mount.world.media .write s.writes = true then e
    else entryIn (image s.disk sv.svI) j

section Write

variable {W : Watch fsGrowth} {s t m : State} {ino : UInt32} {sv sv' : SfsVnode}
  {P : Errno → State → Prop}

theorem Unwritten.entry (h : Unwritten s t ino sv sv') (j : ℕ) :
    entryIn (image t.disk sv'.svI) j = entryIn (image s.disk sv.svI) j :=
  entryIn_congr fun _ _ => h.byte _

theorem Mapped.unwritten (h : Mapped s t ino sv sv')
    (hbyte : ∀ p, (image t.disk sv'.svI).byte p = (image s.disk sv.svI).byte p) :
    Unwritten s t ino sv sv' :=
  ⟨h.toGrown, h.size, hbyte⟩

/-- The entries of a directory one of whose entries has been written. -/
theorem entryIn_update (f : Sparse 512) (slot : ℕ) (e : Direntry) (j : ℕ) :
    entryIn (Function.update f (slot / 8)
      (some (splice (f.block (slot / 8)) (slot * 64 % 512) e.toBytes))) j =
      if j = slot then e else entryIn f j := by
  have hbyte := byte_update_splice f (slot / 8) (slot * 64 % 512) e.toBytes (by omega)
  by_cases hj : j = slot
  · rw [if_pos hj]
    refine Eq.trans (Direntry.ofBytes_congr fun i hi => ?_) (Direntry.ofBytes_toBytes e)
    rw [Bytes.get_of_lt _ hi, hbyte, if_pos (by dsimp only; omega)]
    congr 1
    dsimp only
    omega
  · rw [if_neg hj]
    refine entryIn_congr fun i hi => ?_
    rw [hbyte, if_neg (by omega)]

/-- `sfs_metaio` once the directory has the block. -/
theorem wp_metaio_end {E : Stop → State → Prop} {R : Unit → State → Prop}
    {C : State → SfsVnode → Prop} {slot : ℕ} (hslot : slot < 2 ^ 32) (e : Direntry)
    (hbmap : wp W (bmap ino (UInt32.ofNat (slot * 64 / 512)) true) (fun block m => ∃ sv',
      C m sv' ∧ m.vnode? ino = some sv' ∧ m.Tidy sv'.svI ∧ m.VolumeOk ∧
        fileBlock m.disk sv'.svI (slot / 8) = block ∧ block ≠ 0) E s)
    (hdone : ∀ m sv' t sv'', C m sv' → Written m t ino sv' sv'' slot e → R () t)
    (hbad : ∀ m sv', C m sv' → m.mount.world.media .read m.tick = false →
      ∀ k, E (.fail .eio) { m with tick := k }) :
    wp W (writedir ino slot e) R E s := by
  rw [writedir, metaioWrite]
  refine wp_bind (wp_post hbmap ?_)
  rintro block m - - ⟨sv', hc, hv, htidy, hvol, hblock, h0⟩
  rw [if_neg h0]
  have hlt : block < m.mount.dBlocks :=
    UInt32.lt_of_lt_of_le (hblock ▸ htidy.inUse_fileBlock (hblock ▸ h0)).1 hvol.fits
  refine wp_bind (wp_readblock hlt (fun k => ?_) fun hmedia k => hbad m sv' hc hmedia k)
  refine wp_bind (wp_writeblock hlt ?_)
  -- what lies in the block now, whether the command was carried out or not
  obtain ⟨data, hdata, hwritten⟩ : ∃ data, (data = if m.mount.world.media .write m.writes = true
      then splice (m.disk block) (slot * 64 % 512) e.toBytes else m.disk block) ∧
      State.written { m with tick := k } block (splice (m.disk block) (slot * 64 % 512) e.toBytes) =
        Function.update m.disk block data := by
    refine ⟨_, rfl, ?_⟩
    rw [State.written]
    split
    · rfl
    · exact (Function.update_eq_self block m.disk).symm
  rw [hwritten]
  obtain ⟨hgrown, hcontents⟩ := Grown.write (t := { m with
      tick := k, writes := m.writes + 1, disk := Function.update m.disk block data })
    hv htidy hblock h0 data rfl (Nat.le_succ _)
  have hpresent : m.disk block = (image m.disk sv'.svI).block (slot / 8) := by
    rw [Sparse.block, image_of_ne (hblock ▸ h0), hblock, Option.getD_some]
  have hentry : ∀ j, entryIn (image (Function.update m.disk block data) sv'.svI) j =
      if j = slot ∧ m.mount.world.media .write m.writes = true then e
      else entryIn (image m.disk sv'.svI) j := by
    intro j
    rw [hcontents, hdata]
    split
    · next hmedia =>
      rw [hpresent, entryIn_update]
      simp only [hmedia, and_true]
    · next hmedia =>
      have hsome : image m.disk sv'.svI (slot / 8) = some (m.disk block) := by
        rw [image_of_ne (hblock ▸ h0), hblock]
      rw [if_neg fun h => hmedia h.2, ← hsome, Function.update_eq_self]
  have hmapped : fileBlock (Function.update m.disk block data) sv'.svI (slot / 8) ≠ 0 := by
    rw [hgrown.fileBlock_eq (hblock ▸ h0), hblock]
    exact h0
  have hfar : slot / 8 < 143 := lt_of_fileBlock_ne (hblock ▸ h0)
  refine wp_bind (wp_getVnode hgrown.vnode (wp_when (fun hsize => ?_) fun hsize _ => ?_))
  · have hofNat : (UInt32.ofNat (slot * 64 + 64)).toNat = slot * 64 + 64 :=
      UInt32.toNat_ofNat_of_lt' (show slot * 64 + 64 < 2 ^ 32 by omega)
    refine wp_modify (hdone m sv' _ _ hc ⟨hgrown.resize _, hofNat.trans ?_, rfl, hmapped, hentry⟩)
    omega
  · refine hdone m sv' _ sv' hc ⟨hgrown, ?_, rfl, hmapped, hentry⟩
    omega

/-- Writing an entry, and why it may fail. -/
theorem wp_writedir_stop {E : Stop → State → Prop} {R : Unit → State → Prop}
    (hv : s.vnode? ino = some sv) (htidy : s.Tidy sv.svI) (hvol : s.VolumeOk) (hw : s.Writable W)
    {slot : ℕ} (hslot : slot < 2 ^ 32) (e : Direntry)
    (hdone : ∀ t sv', slot < 1144 → Entered s t ino sv sv' slot e → R () t)
    (hfull : ∀ t sv', Unwritten s t ino sv sv' → E (.fail .enospc) t)
    (hbig : 1144 ≤ slot → Unwritten s s ino sv sv → E (.fail .efbig) s)
    (hbad : ∀ k, s.mount.world.media .read k = false → ∀ t sv', Unwritten s t ino sv sv' →
      E (.fail .eio) t) :
    wp W (writedir ino slot e) R E s := by
  have hnat : (UInt32.ofNat (slot * 64 / 512)).toNat = slot / 8 := by
    rw [show slot * 64 / 512 = slot / 8 by omega]
    exact UInt32.toNat_ofNat_of_lt' (show slot / 8 < 2 ^ 32 by omega)
  -- the contents of the directory are as they were when it has the block
  refine wp_post (wp_metaio_end (R := fun _ t => ∃ m sv' sv'', Mapped s m ino sv sv' ∧
      image m.disk sv'.svI = (image s.disk sv.svI).touch (slot / 8) ∧
      Written m t ino sv' sv'' slot e)
    (C := fun m sv' => Mapped s m ino sv sv' ∧
      image m.disk sv'.svI = (image s.disk sv.svI).touch (slot / 8)) hslot e ?_
    (fun m sv' t sv'' hc ht => ⟨m, sv', sv'', hc.1, hc.2, ht⟩) fun m sv' hc hmedia k => ?_) ?_
  · refine wp_bmap_alloc hv htidy hvol hw _ (fun m sv' block hm hblock h0 himage _ => ?_)
      (fun m sv' hm _ _ himage => hfull m sv' (hm.unwritten fun _ => by rw [himage]))
      (fun hfar => hbig (by omega) ((Mapped.same hv htidy s.tick).unwritten fun _ => rfl))
      fun hm k => hbad _ hm _ sv ((Mapped.same hv htidy k).unwritten fun _ => rfl)
    rw [hnat] at hblock himage
    exact ⟨sv', ⟨hm, himage⟩, hm.vnode, hm.tidy, hm.toGrown.volumeOk hvol, hblock, h0⟩
  · obtain ⟨hm, himage⟩ := hc
    rw [hm.mount] at hmedia
    refine hbad _ hmedia _ sv'
      ⟨hm.toGrown.trans (Grown.same hm.vnode hm.tidy m.uio k), hm.size, fun p => ?_⟩
    change (image m.disk sv'.svI).byte p = _
    rw [himage, Sparse.byte_touch]
  · rintro _ t hok - ⟨m, sv', sv'', hm, himage, ht⟩
    have hmedia : m.mount.world.media .write m.writes = true :=
      hm.toGrown.writable hw t hok m.writes (Nat.le_refl _)
        (by rw [ht.once]; exact Nat.lt_succ_self _)
    refine hdone t sv'' ?_ ⟨hm.toGrown.trans ht.toGrown, ?_, fun j => ?_⟩
    · have := lt_of_fileBlock_ne ht.mapped
      omega
    · rw [ht.size, hm.size]
    · rw [ht.entry]
      simp only [hmedia, and_true]
      split
      · rfl
      · exact entryIn_congr fun _ _ => by rw [himage, Sparse.byte_touch]

/-- **Writing an entry.** It is there afterwards and the others are as before, or nothing is
different but for blocks the directory may have got. -/
theorem wp_writedir {R : Unit → State → Prop} (hv : s.vnode? ino = some sv)
    (htidy : s.Tidy sv.svI) (hvol : s.VolumeOk) (hw : s.Writable W) {slot : ℕ}
    (hslot : slot < 2 ^ 32) (e : Direntry)
    (hdone : ∀ t sv', Entered s t ino sv sv' slot e → R () t)
    (hfail : ∀ e t sv', Unwritten s t ino sv sv' → P e t) :
    wp W (writedir ino slot e) R (onFail P) s :=
  wp_writedir_stop hv htidy hvol hw hslot e (fun t sv' _ ht => hdone t sv' ht)
    (fun t sv' ht => hfail _ t sv' ht) (fun _ ht => hfail _ s sv ht)
    fun _ _ t sv' ht => hfail _ t sv' ht

theorem Unwritten.of_tick {k : ℕ} (hv : s.vnode? ino = some sv) (htidy : s.Tidy sv.svI)
    (h : Unwritten { s with tick := k } t ino sv sv') : Unwritten s t ino sv sv' :=
  ⟨(Grown.same hv htidy s.uio k).trans h.toGrown, h.size, h.byte⟩

theorem Entered.of_tick {k slot : ℕ} {e : Direntry} (hv : s.vnode? ino = some sv)
    (htidy : s.Tidy sv.svI) (h : Entered { s with tick := k } t ino sv sv' slot e) :
    Entered s t ino sv sv' slot e :=
  ⟨(Grown.same hv htidy s.uio k).trans h.toGrown, h.size, h.entry⟩

/-- The slot of a directory for a new entry: the last one that is empty, or the one after the last
where all are occupied. -/
structure SfsVnode.Vacant (sv : SfsVnode) (disk : Disk) (slot : ℕ) : Prop where
  whole : 64 * sv.nentries = sv.svI.sfiSize.toNat
  le : slot ≤ sv.nentries
  empty : slot < sv.nentries → (entryIn (image disk sv.svI) slot).sfdIno = 0
  last : ∀ j < sv.nentries, slot < j ∨ slot = sv.nentries →
    (entryIn (image disk sv.svI) j).Occupied

/-- The directory has no entry of that name. -/
def SfsVnode.Lacks (sv : SfsVnode) (disk : Disk) (name : List UInt8) : Prop :=
  ∀ j < sv.nentries, (entryIn (image disk sv.svI) j).Occupied →
    (entryIn (image disk sv.svI) j).terminated.name ≠ name

/-- **`sfs_dir_link`** writes an entry into the slot that is vacant, where the name is new and not
too long, and nothing else. -/
theorem wp_dirLink_place {R : ℕ → State → Prop} (hv : s.vnode? ino = some sv)
    (htidy : s.Tidy sv.svI) (hvol : s.VolumeOk) (name : List UInt8) (file : UInt32)
    (hwrite : ∀ slot k, sv.Vacant s.disk slot → slot < 2 ^ 32 → sv.Lacks s.disk name →
      name.length < 60 → wp W (writedir ino slot ⟨file, setCstr Bytes.zero name⟩) (fun _ => R slot)
        (onFail P) { s with tick := k })
    (hfail : ∀ e k, P e { s with tick := k }) :
    wp W (dirLink ino name file) R (onFail P) s := by
  have hlt : sv.nentries < 2 ^ 32 - 1 := by
    have hsize := sv.svI.sfiSize.toNat_lt
    rw [SfsVnode.nentries]
    omega
  rw [dirLink]
  refine wp_bind (wp_dirFindname hv htidy hvol name (fun r k htype hsize hr => ?_) hfail)
  refine wp_ite (fun _ => wp_fail (hfail _ k)) fun hnew => ?_
  refine wp_ite (fun _ => wp_fail (hfail _ k)) fun hshort => ?_
  have hlacks := hr.lacks (Option.not_isSome_iff_eq_none.mp hnew)
  have hplace : ∀ slot, sv.Vacant s.disk slot →
      wp W (writedir ino slot ⟨file, setCstr Bytes.zero name⟩ >>= fun _ => pure slot) R (onFail P)
        { s with tick := k } := fun slot hslot =>
    wp_bind (wp_post (hwrite slot k hslot (by have := hslot.le; omega) hlacks (by omega))
      fun _ t _ _ ht => wp_pure fun _ => ht)
  dsimp only
  cases hslot : r.emptyslot with
  | some slot =>
    obtain ⟨hlt', hempty⟩ := hr.emptyslot slot hslot
    refine wp_bind (wp_pure fun _ =>
      hplace slot ⟨hsize, hlt'.le, fun _ => hempty, fun j hj h => ?_⟩)
    refine hr.last j hj fun slot' h' => ?_
    obtain rfl := Option.some.inj (hslot.symm.trans h')
    exact h.resolve_right hlt'.ne
  | none =>
    refine wp_bind (wp_dirNentries (s := { s with tick := k }) hv fun _ _ => ?_)
    refine hplace _ ⟨hsize, le_rfl, fun hc => absurd hc (Nat.lt_irrefl _), fun j hj _ => ?_⟩
    refine hr.last j hj fun slot' h' => ?_
    cases hslot.symm.trans h'

/-- `sfs_dir_link` on a disk that carries out the commands to write. -/
theorem wp_dirLink {R : ℕ → State → Prop} (hv : s.vnode? ino = some sv) (htidy : s.Tidy sv.svI)
    (hvol : s.VolumeOk) (hw : s.Writable W) (name : List UInt8) (file : UInt32)
    (hdone : ∀ slot t sv', sv.Vacant s.disk slot →
      Entered s t ino sv sv' slot ⟨file, setCstr Bytes.zero name⟩ → R slot t)
    (hfail : ∀ e t sv', Unwritten s t ino sv sv' → P e t) :
    wp W (dirLink ino name file) R (onFail P) s :=
  wp_dirLink_place hv htidy hvol name file
    (fun slot k hslot hlt _ _ => wp_writedir (s := { s with tick := k }) hv
      ⟨htidy.inUse, htidy.inj⟩ ⟨hvol.fits, hvol.nbits, hvol.padded, hvol.past, hvol.super⟩ hw hlt _
      (fun t sv' ht => hdone slot t sv' hslot (ht.of_tick hv htidy))
      fun e t sv' ht => hfail e t sv' (ht.of_tick hv htidy))
    fun e k => hfail e _ sv ((Mapped.same hv htidy k).unwritten fun _ => rfl)

end Write

/-! ### Names -/

/-- The names of a directory, with the inode each one stands for. -/
def names (disk : Disk) (d : Dinode) : Set (List UInt8 × UInt32) :=
  { p | ∃ e ∈ entriesAt disk d, e.Occupied ∧ e.terminated.name = p.1 ∧ e.sfdIno = p.2 }

section Names

variable {disk disk' : Disk} {d d' : Dinode}

theorem mem_entriesAt {e : Direntry} :
    e ∈ entriesAt disk d ↔ ∃ j < d.sfiSize.toNat / 64, entryIn (image disk d) j = e := by
  rw [entriesAt, List.mem_map]
  constructor
  · rintro ⟨j, hj, rfl⟩
    exact ⟨j, List.mem_range.mp hj, (entryAt_eq disk d j).symm⟩
  · rintro ⟨j, hj, rfl⟩
    exact ⟨j, List.mem_range.mpr hj, entryAt_eq disk d j⟩

/-- Directories with the same occupied entries have the same names. -/
theorem names_congr
    (h : ∀ j, j < d.sfiSize.toNat / 64 ∧ (entryIn (image disk d) j).Occupied ∨
      j < d'.sfiSize.toNat / 64 ∧ (entryIn (image disk' d') j).Occupied →
      j < d.sfiSize.toNat / 64 ∧ j < d'.sfiSize.toNat / 64 ∧
        entryIn (image disk' d') j = entryIn (image disk d) j) :
    names disk' d' = names disk d := by
  refine Set.ext fun p => ⟨?_, ?_⟩
  · rintro ⟨e, he, hocc, hp⟩
    obtain ⟨j, hj, rfl⟩ := mem_entriesAt.mp he
    obtain ⟨hlt, -, hsame⟩ := h j (Or.inr ⟨hj, hocc⟩)
    exact ⟨_, mem_entriesAt.mpr ⟨j, hlt, hsame.symm⟩, hocc, hp⟩
  · rintro ⟨e, he, hocc, hp⟩
    obtain ⟨j, hj, rfl⟩ := mem_entriesAt.mp he
    obtain ⟨-, hlt, hsame⟩ := h j (Or.inl ⟨hj, hocc⟩)
    exact ⟨_, mem_entriesAt.mpr ⟨j, hlt, hsame⟩, hocc, hp⟩

/-- The entries of the directory are as before. -/
structure Kept (disk disk' : Disk) (sv sv' : SfsVnode) : Prop where
  size : sv'.svI.sfiSize = sv.svI.sfiSize
  entry : ∀ j < sv.nentries, entryIn (image disk' sv'.svI) j = entryIn (image disk sv.svI) j

/-- The slot `slot` of the directory now holds `x`, and the entries beside it are as before. -/
structure Put (disk disk' : Disk) (sv sv' : SfsVnode) (slot : ℕ) (x : Direntry) : Prop where
  size : sv'.svI.sfiSize.toNat = max sv.svI.sfiSize.toNat (64 * slot + 64)
  here : entryIn (image disk' sv'.svI) slot = x
  entry : ∀ j < sv.nentries, j ≠ slot →
    entryIn (image disk' sv'.svI) j = entryIn (image disk sv.svI) j

variable {disk'' : Disk} {s t : State} {ino : UInt32} {sv sv' sv'' : SfsVnode} {slot : ℕ}
  {e x y : Direntry}

theorem Unwritten.toKept (h : Unwritten s t ino sv sv') : Kept s.disk t.disk sv sv' :=
  ⟨h.size, fun j _ => h.entry j⟩

theorem Entered.put (h : Entered s t ino sv sv' slot e) : Put s.disk t.disk sv sv' slot e where
  size := h.size
  here := (h.entry slot).trans (if_pos rfl)
  entry j _ hj := (h.entry j).trans (if_neg hj)

theorem Written.put (h : Written s t ino sv sv' slot e) : Put s.disk t.disk sv sv' slot
    (if s.mount.world.media .write s.writes = true then e
      else entryIn (image s.disk sv.svI) slot) where
  size := h.size
  here := by
    rw [h.entry]
    simp only [true_and]
  entry j _ hj := (h.entry j).trans (if_neg fun hc => hj hc.1)

theorem Kept.put (h : Kept disk disk' sv sv') (h' : Put disk' disk'' sv' sv'' slot x) :
    Put disk disk'' sv sv'' slot x where
  size := by rw [h'.size, h.size]
  here := h'.here
  entry j hlt hj := by
    rw [h'.entry j (by rwa [SfsVnode.nentries, h.size]) hj, h.entry j hlt]

/-- What is written last into the slot is what stays there. -/
theorem Put.trans (h : Put disk disk' sv sv' slot x) (h' : Put disk' disk'' sv' sv'' slot y) :
    Put disk disk'' sv sv'' slot y where
  size := by
    rw [h'.size, h.size, max_assoc, max_self]
  here := h'.here
  entry j hlt hj := by
    have hle : sv.nentries ≤ sv'.nentries := by
      rw [SfsVnode.nentries, SfsVnode.nentries, h.size]
      omega
    rw [h'.entry j (hlt.trans_le hle) hj, h.entry j hlt hj]

theorem Kept.names (h : Kept disk disk' sv sv') : names disk' sv'.svI = names disk sv.svI := by
  refine names_congr fun j hj => ?_
  rw [h.size] at hj ⊢
  have hlt : j < sv.nentries := hj.elim And.left And.left
  exact ⟨hlt, hlt, h.entry j hlt⟩

/-- When something has been written into the vacant slot, the names are as before, and one more if
what is there now is occupied. -/
theorem Put.names_iff (h : Put disk disk' sv sv' slot x) (hslot : sv.Vacant disk slot) :
    names disk' sv'.svI = names disk sv.svI ↔
      (x.Occupied → (x.terminated.name, x.sfdIno) ∈ names disk sv.svI) := by
  have hsize := h.size
  have hwhole := hslot.whole
  have hle := hslot.le
  have hmem : ∀ p, p ∈ names disk' sv'.svI ↔
      p ∈ names disk sv.svI ∨ x.Occupied ∧ p = (x.terminated.name, x.sfdIno) := by
    refine fun p => ⟨?_, ?_⟩
    · rintro ⟨e, he, hocc, hname, hino⟩
      obtain ⟨j, hj, rfl⟩ := mem_entriesAt.mp he
      by_cases hjs : j = slot
      · rw [hjs, h.here] at hocc hname hino
        exact Or.inr ⟨hocc, Prod.ext hname.symm hino.symm⟩
      · have hlt : j < sv.nentries := by omega
        rw [h.entry j hlt hjs] at hocc hname hino
        exact Or.inl ⟨_, mem_entriesAt.mpr ⟨j, hlt, rfl⟩, hocc, hname, hino⟩
    · rintro (⟨e, he, hocc, hp⟩ | ⟨hocc, rfl⟩)
      · obtain ⟨j, hj, rfl⟩ := mem_entriesAt.mp he
        have hjs : j ≠ slot := by
          rintro rfl
          exact hocc (hslot.empty hj)
        have hlt : j < sv.nentries := hj
        exact ⟨_, mem_entriesAt.mpr ⟨j, by omega, h.entry j hlt hjs⟩, hocc, hp⟩
      · exact ⟨x, mem_entriesAt.mpr ⟨slot, by omega, h.here⟩, hocc, rfl, rfl⟩
  constructor
  · intro heq hocc
    rw [← heq]
    exact (hmem _).mpr (Or.inr ⟨hocc, rfl⟩)
  · intro hx
    refine Set.ext fun p => (hmem p).trans (or_iff_left_of_imp ?_)
    rintro ⟨hocc, rfl⟩
    exact hx hocc

/-- There is one slot for a new entry. -/
theorem SfsVnode.Vacant.unique {slot' : ℕ} (h : sv.Vacant disk slot) (h' : sv.Vacant disk slot') :
    slot = slot' := by
  have hnot : ∀ {i j : ℕ}, sv.Vacant disk i → sv.Vacant disk j → ¬i < j := by
    intro i j hi hj hlt
    have hle := hj.le
    rcases Nat.lt_or_eq_of_le hle with hj' | hj'
    · exact hi.last j hj' (Or.inl hlt) (hj.empty hj')
    · exact hj.last i (by omega) (Or.inr hj') (hi.empty (by omega))
  exact Nat.le_antisymm (Nat.not_lt.mp (hnot h' h)) (Nat.not_lt.mp (hnot h h'))

end Names

end Sfs

end Os161
