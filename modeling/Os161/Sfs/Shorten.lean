import Os161.Sfs.Truncate
import Os161.Sfs.Vnops

/-!
# What truncation promises

Truncating a file to `len` bytes should leave it the blocks below the new end, free the others, and
take back the indirect block when nothing is left in it. `sfs_itrunc` does so with two exceptions,
both from its comparisons for the indirect block: the block right at the new end is kept there, and
an indirect block is not looked at when the new end is at the last block of the file or after it.

## Main results

* `itrunc_exact_iff` — when exactly the right blocks are freed
* `itrunc_failure` — what a failed truncation has freed
-/

namespace Os161

namespace Sfs

open Prog

section Shorten

variable {s t : State} {ino : UInt32} {sv sv' : SfsVnode} {len : ℤ}

/-- A number cut to 32 bits. -/
theorem toNat_ofInt (x : ℤ) : ((UInt32.ofInt x).toNat : ℤ) = x % 4294967296 := by
  have hlo := Int.emod_nonneg x (show (4294967296 : ℤ) ≠ 0 by omega)
  have hhi := Int.emod_lt_of_pos x (show (0 : ℤ) < 4294967296 by omega)
  rw [UInt32.ofInt, UInt32.toNat_ofNat', show (2 : ℤ) ^ 32 = 4294967296 by norm_num]
  omega

/-- The length in blocks. -/
theorem toNat_blocklen (h0 : 0 ≤ len) (h1 : len ≤ 143 * 512) :
    (blocklen len).toNat = (len.toNat + 511) / 512 := by
  have hdiv : (len + 512 - 1).tdiv 512 = (len + 511) / 512 := by
    rw [Int.tdiv_eq_ediv_of_nonneg (by omega)]
    congr 1
    omega
  have hcut := toNat_ofInt ((len + 511) / 512)
  rw [blocklen, hdiv]
  omega

/-! ### Failure -/

/-- The blocks of a file are in use, and each of them is in one place only. -/
def State.Sound (s : State) (d : Dinode) : Prop :=
  (∀ p, d.pointer s.disk p ≠ 0 → s.sfsFreemap.isset (d.pointer s.disk p) = true) ∧
    ∀ p q, d.pointer s.disk p ≠ 0 → d.pointer s.disk p = d.pointer s.disk q → p = q

theorem Dinode.mem_freedDirect_iff {d : Dinode} {n : ℕ} {block : UInt32} (h0 : block ≠ 0) :
    block ∈ d.freedDirect n (List.finRange 15) ↔ ∃ i : Fin 15, n ≤ i ∧ d.sfiDirect i = block := by
  rw [freedDirect, List.mem_map]
  constructor
  · rintro ⟨i, hi, rfl⟩
    have hi := (List.mem_filter.mp hi).2
    rw [decide_eq_true_eq] at hi
    exact ⟨i, hi.1, rfl⟩
  · rintro ⟨i, hi, rfl⟩
    exact ⟨i, List.mem_filter.mpr ⟨List.mem_finRange i, by simp [hi, h0]⟩, rfl⟩

/-- The places of an inode whose direct blocks from block `n` on are gone. -/
theorem Dinode.pointer_cutDirect (d : Dinode) (disk : Disk) (n : ℕ) (p : Ptr) :
    (d.cutDirect n (List.finRange 15)).pointer disk p =
      match p with
      | .direct i => if n ≤ i then 0 else d.sfiDirect i
      | .indirect => d.sfiIndirect
      | .entry j => indirectAt disk d j := by
  cases p with
  | direct i =>
    change (if i ∈ List.finRange 15 ∧ n ≤ i then 0 else d.sfiDirect i) = _
    simp
  | indirect => rfl
  | entry j => rfl

theorem Dinode.pointer_of_cutDirect {d : Dinode} {disk : Disk} {n : ℕ} {p : Ptr}
    (h : (d.cutDirect n (List.finRange 15)).pointer disk p ≠ 0) :
    (d.cutDirect n (List.finRange 15)).pointer disk p = d.pointer disk p ∧
      ∀ i : Fin 15, n ≤ i → p ≠ .direct i := by
  rw [pointer_cutDirect] at h ⊢
  cases p with
  | direct i =>
    dsimp only at h ⊢
    by_cases hi : n ≤ i
    · rw [if_pos hi] at h
      exact absurd rfl h
    · rw [if_neg hi]
      exact ⟨rfl, fun k hk heq => hi (Ptr.direct.inj heq ▸ hk)⟩
  | indirect => exact ⟨rfl, fun _ _ heq => by cases heq⟩
  | entry j => exact ⟨rfl, fun _ _ heq => by cases heq⟩

/-- **A truncation that fails** has taken nothing from the freemap but the direct blocks past the
new end. A block that is still in a place of the file, and was in none of theirs, is still in use,
and cannot be handed out; if each block was in one place only, that is every block of the file. -/
theorem itrunc_failure (hv : s.vnode? ino = some sv) {e : Errno}
    (hrun : (itrunc ino len).run s = .halt (.fail e) t) :
    ∃ sv', t.vnode? ino = some sv' ∧
      (∀ p, sv'.svI.pointer t.disk p ≠ 0 →
        (t.sfsFreemap.isset (sv'.svI.pointer t.disk p) = true ↔
          s.sfsFreemap.isset (sv'.svI.pointer t.disk p) = true ∧
            ∀ i : Fin 15, (blocklen len).toNat ≤ i →
              sv.svI.sfiDirect i ≠ sv'.svI.pointer t.disk p)) ∧
      (s.Sound sv.svI → ∀ p, sv'.svI.pointer t.disk p ≠ 0 →
        t.sfsFreemap.isset (sv'.svI.pointer t.disk p) = true ∧
          ∀ map, t.sfsFreemap.alloc ≠ .ok (sv'.svI.pointer t.disk p, map)) := by
  have hend := itrunc_cases hv len
  rw [hrun] at hend
  cases hend with
  | failed hscan hd hread hmap h =>
    obtain ⟨sv', hvnode, hinode⟩ := h.vnode
    have hmarked : ∀ p, sv'.svI.pointer t.disk p ≠ 0 →
        (t.sfsFreemap.isset (sv'.svI.pointer t.disk p) = true ↔
          s.sfsFreemap.isset (sv'.svI.pointer t.disk p) = true ∧
            ∀ i : Fin 15, (blocklen len).toNat ≤ i →
              sv.svI.sfiDirect i ≠ sv'.svI.pointer t.disk p) := by
      intro p hp
      rw [h.freemap, Bitmap.isset_unmarkAll_iff hmap, Dinode.mem_freedDirect_iff hp, not_exists]
      simp only [not_and]
    refine ⟨sv', hvnode, hmarked, fun hsound p hp => ?_⟩
    have hplace := hp
    rw [hinode, h.disk] at hplace
    obtain ⟨heq, hnot⟩ := Dinode.pointer_of_cutDirect hplace
    rw [← h.disk, ← hinode, h.disk] at heq
    have hin : t.sfsFreemap.isset (sv'.svI.pointer t.disk p) = true := by
      refine (hmarked p hp).mpr ⟨?_, fun i hi hsame => ?_⟩
      · rw [h.disk] at hp ⊢
        rw [heq] at hp ⊢
        exact hsound.1 p hp
      · rw [h.disk] at hp hsame
        rw [heq] at hp hsame
        exact hnot i hi (hsound.2 p (.direct i) hp hsame.symm)
    refine ⟨hin, fun map halloc => ?_⟩
    rw [Bitmap.isset_eq_bit, (Bitmap.alloc_ok halloc).2.1] at hin
    cases hin

/-- A file with block `5` in two places, on a disk that does not work. -/
def twiceFile : Dinode := sampleFile 1024 (fun i => if i.val < 2 then 5 else 0) 6

/-- All eight blocks are marked. -/
def twiceVolume : State := sampleVolume false (fun _ => Bytes.zero) twiceFile 0xff

theorem run_twiceVolume : ∃ t sv', (itrunc 3 512).run twiceVolume = .halt (.fail .eio) t ∧
    t.vnode? 3 = some sv' ∧ sv'.svI = twiceFile.cutDirect 1 (List.finRange 15) ∧
    t.disk = twiceVolume.disk ∧ t.sfsFreemap.isset 5 = false := by
  have hv : twiceVolume.vnode? 3 = some ⟨3, twiceFile, false, 1⟩ := rfl
  have hend := itrunc_cases hv 512
  have hbl : (blocklen 512).toNat = 1 := toNat_blocklen (by omega) (by omega)
  have hreadFails : twiceVolume.ReadFails := fun _ _ => rfl
  have hfreed : twiceFile.freedDirect 1 (List.finRange 15) = [5] := by decide +kernel
  have hmap5 : twiceVolume.sfsFreemap.unmarkAll [5] = some (twiceVolume.sfsFreemap.unset 5) := by
    rfl
  generalize hrun : (itrunc 3 512).run twiceVolume = r at hend
  cases hend with
  | done k hscan hmap h =>
    rw [hbl] at hscan
    exact absurd hreadFails (hscan (by decide)).2
  | failed hscan hd hread hmap h =>
    rw [hbl] at hmap h
    rw [hfreed, hmap5] at hmap
    obtain ⟨sv', hvnode, hinode⟩ := h.vnode
    refine ⟨_, sv', rfl, hvnode, hinode, h.disk, ?_⟩
    rw [h.freemap, ← Option.some.inj hmap]
    decide
  | past hscan hd => exact absurd hd (by decide)
  | direct hmap =>
    rw [hbl, hfreed, hmap5] at hmap
    cases hmap
  | indirect hread hmap => exact absurd hreadFails hread

theorem itrunc_failure_twice : ∃ t, (itrunc 3 512).run twiceVolume = .halt (.fail .eio) t ∧
    ∃ sv', t.vnode? 3 = some sv' ∧
      (∀ p, sv'.svI.pointer t.disk p ≠ 0 →
        (t.sfsFreemap.isset (sv'.svI.pointer t.disk p) = true ↔
          twiceVolume.sfsFreemap.isset (sv'.svI.pointer t.disk p) = true ∧
            ∀ i : Fin 15, (blocklen 512).toNat ≤ i →
              twiceFile.sfiDirect i ≠ sv'.svI.pointer t.disk p)) ∧
      (twiceVolume.Sound twiceFile → ∀ p, sv'.svI.pointer t.disk p ≠ 0 →
        t.sfsFreemap.isset (sv'.svI.pointer t.disk p) = true ∧
          ∀ map, t.sfsFreemap.alloc ≠ .ok (sv'.svI.pointer t.disk p, map)) := by
  obtain ⟨t, -, hrun, -⟩ := run_twiceVolume
  have hv : twiceVolume.vnode? 3 = some ⟨3, twiceFile, false, 1⟩ := rfl
  exact ⟨t, hrun, itrunc_failure hv hrun⟩

/-- Block `5` is still the first block of the file, and free. -/
theorem itrunc_failure_dangling : ∃ t sv', (itrunc 3 512).run twiceVolume = .halt (.fail .eio) t ∧
    t.vnode? 3 = some sv' ∧ sv'.svI.pointer t.disk (.direct 0) = 5 ∧
    t.sfsFreemap.isset 5 = false := by
  obtain ⟨t, sv', hrun, hvnode, hinode, -, hfree⟩ := run_twiceVolume
  refine ⟨t, sv', hrun, hvnode, ?_, hfree⟩
  rw [hinode]
  rfl

/-! ### Success -/

/-- The place `p` holds a block of the file from block `n` on, or the indirect block with no entry
before block `n`. -/
def Dinode.Past (d : Dinode) (disk : Disk) (n : ℕ) : Ptr → Prop
  | .direct i => n ≤ i ∧ d.sfiDirect i ≠ 0
  | .indirect => d.sfiIndirect ≠ 0 ∧ ∀ j : Fin 128, 15 + j < n → indirectAt disk d j = 0
  | .entry j => n ≤ 15 + j ∧ indirectAt disk d j ≠ 0

/-- `sfs_itrunc` succeeds, the file maps the blocks it mapped before the new end, what is past the
new end is free and nothing else, and the size is `len`. -/
def State.TruncExact (s : State) (ino : UInt32) (d : Dinode) (len : ℤ) : Prop :=
  ∃ t sv', (itrunc ino len).run s = .done () t ∧ t.vnode? ino = some sv' ∧
    (∀ k, fileBlock t.disk sv'.svI k =
      if k < (len.toNat + 511) / 512 then fileBlock s.disk d k else 0) ∧
    (∀ block, s.sfsFreemap.isset block = true ∧ t.sfsFreemap.isset block = false ↔
      ∃ p, d.Past s.disk ((len.toNat + 511) / 512) p ∧ d.pointer s.disk p = block) ∧
    (∀ block, (¬∃ p, d.Past s.disk ((len.toNat + 511) / 512) p ∧ d.pointer s.disk p = block) →
      t.sfsFreemap.isset block = s.sfsFreemap.isset block) ∧
    (sv'.svI.sfiSize.toNat : ℤ) = len

/-- The two comparisons for the indirect block do not matter: there is no block right at the new
end, and an indirect block that is not looked at keeps an entry. -/
def Dinode.Compares (d : Dinode) (disk : Disk) (n : ℕ) : Prop :=
  (∀ j : Fin 128, 15 + j = n → indirectAt disk d j = 0) ∧
    (142 ≤ n → d.sfiIndirect ≠ 0 → ∃ j : Fin 128, 15 + j < n ∧ indirectAt disk d j ≠ 0)

/-- What is to be freed is in different places, and in use. -/
def State.PastFreeable (s : State) (d : Dinode) (n : ℕ) : Prop :=
  (∀ p q, d.Past s.disk n p → d.Past s.disk n q → d.pointer s.disk p = d.pointer s.disk q → p = q) ∧
    ∀ p, d.Past s.disk n p → d.pointer s.disk p < s.sfsFreemap.nbits ∧
      s.sfsFreemap.isset (d.pointer s.disk p) = true

theorem indirectAt_ne_zero {disk : Disk} {d : Dinode} {j : Fin 128} (h : indirectAt disk d j ≠ 0) :
    d.sfiIndirect ≠ 0 := by
  intro h0
  rw [indirectAt, if_pos h0] at h
  exact h rfl

/-- Where the comparisons do not matter, the code frees what is to be freed. -/
theorem Dinode.Compares.cuts_iff {d : Dinode} {disk : Disk} {n : ℕ} (h : d.Compares disk n)
    (p : Ptr) : d.Cuts disk n p ↔ d.Past disk n p := by
  cases p with
  | direct i => exact Iff.rfl
  | indirect =>
    constructor
    · rintro ⟨hscan, hall⟩
      refine ⟨hscan.2, fun j hj => ?_⟩
      have := hall j
      rwa [keptEntries, if_neg (by omega)] at this
    · rintro ⟨h0, hall⟩
      refine ⟨⟨?_, h0⟩, fun j => ?_⟩
      · by_contra hn
        obtain ⟨j, hj, hne⟩ := h.2 (Nat.le_of_not_lt hn) h0
        exact hne (hall j hj)
      · rw [keptEntries]
        by_cases hj : n < 15 + j
        · rw [if_pos hj]
        · rw [if_neg hj]
          by_cases heq : 15 + (j : ℕ) = n
          · exact h.1 j heq
          · exact hall j (by omega)
  | entry j =>
    constructor
    · rintro ⟨-, hj, hne⟩
      exact ⟨hj.le, hne⟩
    · rintro ⟨hj, hne⟩
      have hlt : n < 15 + j := lt_of_le_of_ne hj fun heq => hne (h.1 j heq.symm)
      have hj128 := j.isLt
      exact ⟨⟨by omega, indirectAt_ne_zero hne⟩, hlt, hne⟩

theorem State.givesBack_iff_pastFreeable {d : Dinode} {n : ℕ} (h : d.Compares s.disk n) :
    s.GivesBack d n ↔ s.PastFreeable d n := by
  rw [GivesBack, PastFreeable]
  simp only [h.cuts_iff]

/-- The entries after a truncation on a working disk. -/
theorem indirectAt_shortened (d : Dinode) (disk : Disk) (n : ℕ) (size : UInt32) (j : Fin 128) :
    indirectAt (d.shortenedDisk n true disk) (d.shortened disk n size) j =
      if d.Scans n then keptEntries n (indirectAt disk d) j else indirectAt disk d j := by
  by_cases hscan : d.Scans n
  · rw [if_pos hscan, hscan.indirectAt disk]
    rw [indirectAt, Dinode.shortenedDisk, Dinode.shortened, if_pos hscan, if_pos hscan,
      keptIndirect]
    dsimp only
    by_cases hall : ∀ j, keptEntries n (indirectOf (disk d.sfiIndirect)) j = 0
    · rw [if_pos hall, if_pos rfl, hall j]
    · rw [if_neg hall, if_neg hscan.2, writtenBack]
      have hex : ∃ j, keptEntries n (indirectOf (disk d.sfiIndirect)) j ≠ 0 := by
        push Not at hall
        exact hall
      by_cases hfree : freedEntries n (indirectOf (disk d.sfiIndirect)) (List.finRange 128) = []
      · rw [if_neg fun hc => hc.2.1 hfree, keptEntries]
        by_cases hj : n < 15 + j
        · rw [if_pos hj]
          by_contra hne
          refine List.ne_nil_of_mem (List.mem_map_of_mem (List.mem_filter.mpr
            ⟨List.mem_finRange j, ?_⟩)) hfree
          simpa using ⟨hj, hne⟩
        · rw [if_neg hj]
      · rw [if_pos ⟨hex, hfree, rfl⟩, Function.update_self, indirectOf_indirectBlock]
  · rw [if_neg hscan]
    rw [indirectAt, indirectAt, Dinode.shortenedDisk, Dinode.shortened, if_neg hscan, if_neg hscan]

/-- The blocks of the file after a truncation on a working disk. -/
theorem fileBlock_shortened {d : Dinode} {disk : Disk} {n : ℕ} (h : d.Compares disk n)
    (hn : n ≤ 143) (size : UInt32) (k : ℕ) :
    fileBlock (d.shortenedDisk n true disk) (d.shortened disk n size) k =
      if k < n then fileBlock disk d k else 0 := by
  rw [fileBlock, fileBlock]
  by_cases hdirect : k < 15
  · rw [dif_pos hdirect, dif_pos hdirect]
    change (if (⟨k, hdirect⟩ : Fin 15) ∈ List.finRange 15 ∧ n ≤ k then 0 else _) = _
    by_cases hk : n ≤ k
    · rw [if_pos ⟨List.mem_finRange _, hk⟩, if_neg (Nat.not_lt.mpr hk)]
    · rw [if_neg fun hc => hk hc.2, if_pos (Nat.lt_of_not_le hk)]
  · rw [dif_neg hdirect, dif_neg hdirect]
    by_cases hoff : k - 15 < 128
    · rw [dif_pos hoff, dif_pos hoff, indirectAt_shortened]
      have hat : 15 + (k - 15) = n → indirectAt disk d ⟨k - 15, hoff⟩ = 0 := h.1 ⟨k - 15, hoff⟩
      by_cases hscan : d.Scans n
      · rw [if_pos hscan, keptEntries]
        dsimp only
        by_cases hk : n < 15 + (k - 15)
        · rw [if_pos hk, if_neg (by omega)]
        · rw [if_neg hk]
          by_cases heq : 15 + (k - 15) = n
          · rw [hat heq, ite_self]
          · rw [if_pos (by omega)]
      · rw [if_neg hscan]
        by_cases hk : k < n
        · rw [if_pos hk]
        · rw [if_neg hk]
          by_cases hind : d.sfiIndirect = 0
          · rw [indirectAt, if_pos hind]
          · have h142 : 142 ≤ n := by
              by_contra hc
              exact hscan ⟨Nat.lt_of_not_le hc, hind⟩
            exact hat (by omega)
    · rw [dif_neg hoff, dif_neg hoff, ite_self]

theorem readFails_false (hmedia : ∀ rw k, s.mount.world.media rw k = true) : ¬s.ReadFails :=
  fun h =>
  Bool.noConfusion ((hmedia .read s.tick).symm.trans h.first)

/-- A truncation that succeeds on a working disk. -/
theorem done_of_truncExact {d : Dinode} (hv : s.vnode? ino = some sv) (hd : sv.svI = d)
    (hmedia : ∀ rw k, s.mount.world.media rw k = true) (h0 : 0 ≤ len) (h1 : len ≤ 143 * 512)
    (hrun : (itrunc ino len).run s = .done () t) (hv' : t.vnode? ino = some sv') :
    ∃ map, (d.Scans ((len.toNat + 511) / 512) → ¬s.mount.dBlocks < d.sfiIndirect + 1) ∧
      s.sfsFreemap.unmarkAll (d.freed s.disk ((len.toNat + 511) / 512)) = some map ∧
      t.sfsFreemap = map ∧
      sv'.svI = d.shortened s.disk ((len.toNat + 511) / 512) (UInt32.ofInt len) ∧
      t.disk = d.shortenedDisk ((len.toNat + 511) / 512) true s.disk := by
  have hend := itrunc_cases hv len
  rw [hrun, hd] at hend
  rw [← toNat_blocklen h0 h1]
  cases hend with
  | done k hscan hmap h =>
    obtain ⟨sv'', hvnode, hinode⟩ := h.vnode
    obtain rfl := Option.some.inj (hv'.symm.trans hvnode)
    refine ⟨_, fun hc => (hscan hc).1, hmap, h.freemap, hinode, ?_⟩
    rw [h.disk, hmedia]

/-- The comparisons have to not matter. -/
theorem compares_of_truncExact (hv : s.vnode? ino = some sv)
    (hmedia : ∀ rw k, s.mount.world.media rw k = true) (h0 : 0 ≤ len) (h1 : len ≤ 143 * 512)
    (h : s.TruncExact ino sv.svI len) : sv.svI.Compares s.disk ((len.toNat + 511) / 512) := by
  obtain ⟨t, sv', hrun, hv', hblocks, hfreed, -, -⟩ := h
  obtain ⟨map, -, hmap, hfreemap, hinode, hdisk⟩ :=
    done_of_truncExact hv rfl hmedia h0 h1 hrun hv'
  constructor
  · intro j hj
    have hgone := hblocks (15 + j)
    rw [if_neg (by omega), fileBlock_entry, hinode, hdisk, indirectAt_shortened] at hgone
    by_cases hscan : sv.svI.Scans ((len.toNat + 511) / 512)
    · rwa [if_pos hscan, keptEntries, if_neg (by omega)] at hgone
    · rwa [if_neg hscan] at hgone
  · intro h142 hind
    by_contra hc
    push Not at hc
    obtain ⟨hin, hout⟩ := (hfreed sv.svI.sfiIndirect).mpr ⟨.indirect, ⟨hind, hc⟩, rfl⟩
    rw [hfreemap, ← Bool.not_eq_true, isset_of_freed hmap] at hout
    refine hout ⟨hin, fun p hp => ?_⟩
    -- nothing is freed so far out
    cases p with
    | direct i =>
      have hi := i.isLt
      have := hp.1
      omega
    | indirect => exact absurd hp.1.1 (Nat.not_lt.mpr h142)
    | entry j => exact absurd hp.1.1 (Nat.not_lt.mpr h142)

/-- **When `sfs_itrunc` frees exactly the right blocks**, on a working disk: the two comparisons for
the indirect block do not matter, the blocks to be freed are in use and in one place each, and an
indirect block that is looked at is on the disk. -/
theorem itrunc_exact_iff (hv : s.vnode? ino = some sv)
    (hmedia : ∀ rw k, s.mount.world.media rw k = true) (h0 : 0 ≤ len) (h1 : len ≤ 143 * 512) :
    s.TruncExact ino sv.svI len ↔
      sv.svI.Compares s.disk ((len.toNat + 511) / 512) ∧
        s.PastFreeable sv.svI ((len.toNat + 511) / 512) ∧
        (sv.svI.Scans ((len.toNat + 511) / 512) → ¬s.mount.dBlocks < sv.svI.sfiIndirect + 1) := by
  constructor
  · intro h
    have hcomp := compares_of_truncExact hv hmedia h0 h1 h
    obtain ⟨t, sv', hrun, hv', -⟩ := h
    obtain ⟨map, hpast, hmap, -⟩ := done_of_truncExact hv rfl hmedia h0 h1 hrun hv'
    exact ⟨hcomp,
      (State.givesBack_iff_pastFreeable hcomp).mp ((s.givesBack_iff _ _).mpr ⟨map, hmap⟩),
      hpast⟩
  · rintro ⟨hcomp, hfreeable, hpast⟩
    obtain ⟨map, hmap⟩ := (s.givesBack_iff _ _).mp
      ((State.givesBack_iff_pastFreeable hcomp).mpr hfreeable)
    have hend := itrunc_cases hv len
    have hbl := toNat_blocklen h0 h1
    generalize hrun : (itrunc ino len).run s = r at hend
    cases hend with
    | done k hscan hmap' h =>
      rename_i t map'
      rw [hbl] at hmap' h
      obtain rfl := Option.some.inj (hmap.symm.trans hmap')
      obtain ⟨sv', hvnode, hinode⟩ := h.vnode
      have hdisk := h.disk
      rw [hmedia] at hdisk
      have hleft : ∀ block, t.sfsFreemap.isset block = true ↔ s.sfsFreemap.isset block = true ∧
          ¬∃ p, sv.svI.Past s.disk ((len.toNat + 511) / 512) p ∧
            sv.svI.pointer s.disk p = block := by
        intro block
        rw [h.freemap, isset_of_freed hmap]
        simp only [hcomp.cuts_iff, not_exists, not_and]
      refine ⟨t, sv', hrun, hvnode, fun k => ?_, fun block => ?_, fun block hnot => ?_, ?_⟩
      · rw [hinode, hdisk]
        exact fileBlock_shortened hcomp (by omega) _ k
      · rw [← Bool.not_eq_true, hleft]
        constructor
        · rintro ⟨hin, hout⟩
          by_contra hc
          exact hout ⟨hin, hc⟩
        · rintro ⟨p, hp, rfl⟩
          exact ⟨(hfreeable.2 p hp).2, fun hc => hc.2 ⟨p, hp, rfl⟩⟩
      · rw [Bool.eq_iff_iff, hleft]
        exact ⟨And.left, fun hin => ⟨hin, hnot⟩⟩
      · rw [hinode]
        change ((UInt32.ofInt len).toNat : ℤ) = len
        have := toNat_ofInt len
        omega
    | failed hscan hd hread hmap' h => exact absurd hread (readFails_false hmedia)
    | past hscan hd =>
      rw [hbl] at hscan
      exact absurd hd (hpast hscan)
    | direct hmap' =>
      rw [hbl] at hmap'
      rw [Dinode.freed, Bitmap.unmarkAll_append, hmap'] at hmap
      cases hmap
    | indirect hread hmap' =>
      rw [hbl] at hmap'
      cases hmap.symm.trans hmap'

/-- A file whose only block is the first one in the indirect block. -/
def edgeFile : Dinode := sampleFile 8192 (fun _ => 0) 6

/-- Its indirect block `6` has block `5` in it, and all eight blocks are marked. -/
def edgeVolume : State :=
  sampleVolume true (fun b => if b = 6 then indirectBlock fun j => if j = 0 then 5 else 0
    else Bytes.zero) edgeFile 0xff

theorem itrunc_exact_iff_edge : edgeVolume.TruncExact 3 edgeFile 0 ↔
    edgeFile.Compares edgeVolume.disk (((0 : ℤ).toNat + 511) / 512) ∧
      edgeVolume.PastFreeable edgeFile (((0 : ℤ).toNat + 511) / 512) ∧
      (edgeFile.Scans (((0 : ℤ).toNat + 511) / 512) →
        ¬edgeVolume.mount.dBlocks < edgeFile.sfiIndirect + 1) :=
  itrunc_exact_iff (show edgeVolume.vnode? 3 = some ⟨3, edgeFile, false, 1⟩ from rfl)
    (fun _ _ => rfl) (by omega) (by omega)

/-- Cut to `15` blocks, the file keeps block `15`. -/
theorem not_truncExact_edge : ¬edgeVolume.TruncExact 3 edgeFile (15 * 512) := by
  intro h
  have hv : edgeVolume.vnode? 3 = some ⟨3, edgeFile, false, 1⟩ := rfl
  have hcomp := compares_of_truncExact hv (fun _ _ => rfl)
    (by omega) (by omega) h
  have h5 := hcomp.1 0 rfl
  have hread : indirectAt edgeVolume.disk edgeFile 0 = 5 := by
    change (indirectOf (indirectBlock fun j => if j = 0 then 5 else 0)) 0 = 5
    rw [indirectOf_indirectBlock]
    rfl
  rw [hread] at h5
  cases h5

/-! ### Every length -/

theorem run_stat (hv : s.vnode? ino = some sv) (htype : sv.svI.sfiType = sfsTypeFile) :
    (stat ino).run s =
      .done ⟨sv.svI.sfiSize.toNat, .ifreg, sv.svI.sfiLinkcount, 0⟩ s := by
  have hmode : (gettype ino).run s = .done .ifreg s := by
    rw [gettype, run_bind_eq (run_getVnode hv) (if_pos htype)]
    rfl
  rw [stat, run_bind_of_done hmode, run_bind_of_done (run_getVnode hv)]
  rfl

/-- `sfs_truncate` fails and leaves inode and freemap as they are, or it succeeds and `sfs_stat`
then reports the length as the size. -/
def State.TruncatesRight (s : State) (ino : UInt32) (d : Dinode) (len : ℤ) : Prop :=
  (∃ e t sv', (truncate ino len).run s = .halt (.fail e) t ∧ t.vnode? ino = some sv' ∧
    sv'.svI = d ∧ t.sfsFreemap = s.sfsFreemap) ∨
  ∃ t st u, (truncate ino len).run s = .done () t ∧ (stat ino).run t = .done st u ∧ st.stSize = len

/-- A truncation that fails leaves the inode as it is only if it has no direct block to free. -/
theorem direct_of_cutDirect_eq {d : Dinode} {n : ℕ} (h : d.cutDirect n (List.finRange 15) = d)
    {i : Fin 15} (hi : n ≤ i) : d.sfiDirect i = 0 := by
  rw [← h]
  exact if_pos ⟨List.mem_finRange i, hi⟩

theorem cutDirect_eq {d : Dinode} {n : ℕ} (h : ∀ i : Fin 15, n ≤ i → d.sfiDirect i = 0) :
    d.cutDirect n (List.finRange 15) = d := by
  refine Dinode.ext rfl rfl rfl (funext fun i => ?_) rfl rfl
  change (if i ∈ List.finRange 15 ∧ n ≤ i then 0 else d.sfiDirect i) = _
  by_cases hi : n ≤ i
  · rw [if_pos ⟨List.mem_finRange i, hi⟩, h i hi]
  · rw [if_neg fun hc => hi hc.2]

theorem freedDirect_eq_nil {d : Dinode} {n : ℕ} (h : ∀ i : Fin 15, n ≤ i → d.sfiDirect i = 0) :
    d.freedDirect n (List.finRange 15) = [] := by
  rw [Dinode.freedDirect, List.map_eq_nil_iff, List.filter_eq_nil_iff]
  intro i _
  rw [decide_eq_true_eq]
  exact fun hi => hi.2 (h i hi.1)

/-- The size a truncation that succeeds leaves. -/
theorem stat_of_done (hv : s.vnode? ino = some sv) (htype : sv.svI.sfiType = sfsTypeFile)
    (hrun : (truncate ino len).run s = .done () t) :
    ∃ st, (stat ino).run t = .done st t ∧ st.stSize = len % 4294967296 := by
  have hend := itrunc_cases hv len
  rw [truncate] at hrun
  rw [hrun] at hend
  cases hend with
  | done k hscan hmap h =>
    obtain ⟨sv', hvnode, hinode⟩ := h.vnode
    have htype' : sv'.svI.sfiType = sfsTypeFile := by
      rw [hinode]
      exact htype
    refine ⟨_, run_stat hvnode htype', ?_⟩
    rw [hinode]
    exact toNat_ofInt len

/-- **When `sfs_truncate` is right about a length.** Where the indirect block cannot be read, there
has to be no direct block to free; where it can, or need not be, the length has to fit in 32 bits
and the blocks to be freed have to be in use, in one place each. -/
theorem truncate_right_iff (hv : s.vnode? ino = some sv) (htype : sv.svI.sfiType = sfsTypeFile)
    (len : ℤ) : s.TruncatesRight ino sv.svI len ↔
      (sv.svI.Scans (blocklen len).toNat → ¬s.mount.dBlocks < sv.svI.sfiIndirect + 1) ∧
      (sv.svI.Scans (blocklen len).toNat ∧ s.ReadFails →
        ∀ i : Fin 15, (blocklen len).toNat ≤ i → sv.svI.sfiDirect i = 0) ∧
      (¬(sv.svI.Scans (blocklen len).toNat ∧ s.ReadFails) →
        0 ≤ len ∧ len < 4294967296 ∧ s.GivesBack sv.svI (blocklen len).toNat) := by
  have hend := itrunc_cases hv len
  rw [State.TruncatesRight]
  constructor
  · rintro (⟨e, t, sv', hrun, hv', hinode, -⟩ | ⟨t, st, u, hrun, hst, hsize⟩)
    · rw [truncate] at hrun
      rw [hrun] at hend
      cases hend with
      | failed hscan hd hread hmap h =>
        obtain ⟨sv'', hvnode, hcut⟩ := h.vnode
        obtain rfl := Option.some.inj (hv'.symm.trans hvnode)
        exact ⟨fun _ => hd, fun _ i hi => direct_of_cutDirect_eq (hcut.symm.trans hinode) hi,
          fun hc => absurd ⟨hscan, hread⟩ hc⟩
    · obtain ⟨st', hst', hsize'⟩ := stat_of_done hv htype hrun
      rw [hst'] at hst
      obtain ⟨rfl, rfl⟩ := Outcome.done.inj hst
      rw [truncate] at hrun
      rw [hrun] at hend
      cases hend with
      | done k hscan hmap h =>
        refine ⟨fun hc => (hscan hc).1, fun hc => absurd hc.2 (hscan hc.1).2, fun _ => ?_⟩
        refine ⟨?_, ?_, (s.givesBack_iff _ _).mpr ⟨_, hmap⟩⟩ <;> omega
  · rintro ⟨hpast, hfail, hok⟩
    generalize hrun : (itrunc ino len).run s = r at hend
    cases hend with
    | done k hscan hmap h =>
      obtain ⟨st, hst, hsize⟩ := stat_of_done hv htype hrun
      obtain ⟨h0, h1, -⟩ := hok fun hc => (hscan hc.1).2 hc.2
      exact Or.inr ⟨_, st, _, hrun, hst, by omega⟩
    | failed hscan hd hread hmap h =>
      have hzero := hfail ⟨hscan, hread⟩
      obtain ⟨sv', hvnode, hinode⟩ := h.vnode
      rw [freedDirect_eq_nil hzero, Bitmap.unmarkAll_nil] at hmap
      rw [cutDirect_eq hzero] at hinode
      exact Or.inl ⟨_, _, sv', hrun, hvnode, hinode, h.freemap.trans (Option.some.inj hmap).symm⟩
    | past hscan hd => exact absurd hd (hpast hscan)
    | direct hmap =>
      by_cases hc : sv.svI.Scans (blocklen len).toNat ∧ s.ReadFails
      · rw [freedDirect_eq_nil (hfail hc)] at hmap
        cases hmap
      · obtain ⟨map, hmap'⟩ := (s.givesBack_iff _ _).mp (hok hc).2.2
        rw [Dinode.freed, Bitmap.unmarkAll_append, hmap] at hmap'
        cases hmap'
    | indirect hread hmap =>
      obtain ⟨map, hmap'⟩ := (s.givesBack_iff _ _).mp (hok fun hc => hread hc.2).2.2
      cases hmap.symm.trans hmap'

theorem truncate_right_iff_edge : edgeVolume.TruncatesRight 3 edgeFile 512 ↔
    (edgeFile.Scans (blocklen 512).toNat →
        ¬edgeVolume.mount.dBlocks < edgeFile.sfiIndirect + 1) ∧
      (edgeFile.Scans (blocklen 512).toNat ∧ edgeVolume.ReadFails →
        ∀ i : Fin 15, (blocklen 512).toNat ≤ i → edgeFile.sfiDirect i = 0) ∧
      (¬(edgeFile.Scans (blocklen 512).toNat ∧ edgeVolume.ReadFails) →
        (0 : ℤ) ≤ 512 ∧ (512 : ℤ) < 4294967296 ∧
          edgeVolume.GivesBack edgeFile (blocklen 512).toNat) :=
  truncate_right_iff (show edgeVolume.vnode? 3 = some ⟨3, edgeFile, false, 1⟩ from rfl) rfl 512

/-- An empty file on a volume without a free block. -/
def fullVolume : State := sampleVolume true (fun _ => Bytes.zero) (sampleFile 0 (fun _ => 0) 0) 0xff

/-- Truncating an empty file to `-1` bytes succeeds, and makes it one of `4294967295` bytes. -/
theorem not_truncatesRight_negative :
    ¬fullVolume.TruncatesRight 3 (sampleFile 0 (fun _ => 0) 0) (-1) := by
  have hv : fullVolume.vnode? 3 = some ⟨3, sampleFile 0 (fun _ => 0) 0, false, 1⟩ := rfl
  rintro (⟨e, t, sv', hrun, -⟩ | ⟨t, st, u, hrun, hst, hsize⟩)
  · have hend := itrunc_cases hv (-1)
    rw [truncate] at hrun
    rw [hrun] at hend
    cases hend with
    | failed hscan hd hread hmap h => exact hscan.2 rfl
  · obtain ⟨st', hst', hsize'⟩ := stat_of_done hv rfl hrun
    rw [hst'] at hst
    obtain ⟨rfl, rfl⟩ := Outcome.done.inj hst
    omega

end Shorten

end Sfs

end Os161
