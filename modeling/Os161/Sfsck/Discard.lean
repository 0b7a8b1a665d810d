import Os161.Sfsck.Blocks

/-!
# What sfsck discards

`check_inode_blocks` (`userland/sbin/sfsck/pass1.c`) drops block pointers that lie outside the
volume, or past the end of the file. Where the file ends it computes with `SFS_ROUNDUP`, in 32 bits:
if `sfi_size + 511` wraps around, the file has no blocks at all, and every pointer lies past its
end.

## Main results

* `toNat_fileblocks` — the number of blocks the checker lets a file have
* `keepsLive_iff` — it discards nothing but what is past the end of the file, unless the rounding
  wraps around
-/

namespace Os161

namespace Sfsck

open Sfs Prog

/-! ### What may be discarded -/

/-- The number of blocks of a file, without overflow. -/
def blocksOf (size : UInt32) : ℕ := (size.toNat + 511) / 512

/-- A pointer to block `k` of a file that may be cleared. -/
def Dead (n size : UInt32) (k : ℕ) (b : UInt32) : Prop := n ≤ b ∨ blocksOf size ≤ k

/-- A pointer was left unchanged, or it was cleared and there was a reason. -/
def Clears (reason : Prop) (before after : UInt32) : Prop :=
  after = before ∨ (after = 0 ∧ reason)

/-- From `sfi` on disk `d` to `sfi'` on disk `d'` no pointer to a block of the file was cleared. -/
structure KeepsLive (n : UInt32) (d d' : Disk) (sfi sfi' : Dinode) : Prop where
  direct : ∀ i : Fin 15,
    Clears (Dead n sfi.sfiSize i (sfi.sfiDirect i)) (sfi.sfiDirect i) (sfi'.sfiDirect i)
  indirect : Clears (n ≤ sfi.sfiIndirect ∨ ∀ j : Fin 128,
      indirectOf (d (sector sfi.sfiIndirect)) j = 0 ∨
        Dead n sfi.sfiSize (15 + j) (indirectOf (d (sector sfi.sfiIndirect)) j))
    sfi.sfiIndirect sfi'.sfiIndirect
  entries : sfi'.sfiIndirect ≠ 0 → ∀ j : Fin 128,
    Clears (Dead n sfi.sfiSize (15 + j) (indirectOf (d (sector sfi.sfiIndirect)) j))
      (indirectOf (d (sector sfi.sfiIndirect)) j) (indirectOf (d' (sector sfi.sfiIndirect)) j)
  others : ∀ b, b ≠ sector sfi.sfiIndirect ∨ sfi'.sfiIndirect = 0 → d' b = d b
  rest : sfi' = { sfi with sfiDirect := sfi'.sfiDirect, sfiIndirect := sfi'.sfiIndirect }

/-- The inode has a pointer to a data block inside the volume. -/
def HasData (n : UInt32) (d : Disk) (sfi : Dinode) : Prop :=
  (∃ i, sfi.sfiDirect i ≠ 0 ∧ sfi.sfiDirect i < n) ∨
    ((sfi.sfiIndirect ≠ 0 ∧ sfi.sfiIndirect < n) ∧
      ∃ j, indirectOf (d (sector sfi.sfiIndirect)) j ≠ 0 ∧
        indirectOf (d (sector sfi.sfiIndirect)) j < n)

/-! ### The end of the file -/

section Size

variable {n b : UInt32} {sfi : Dinode} {k : ℕ}

theorem toNat_fileblocks (sfi : Dinode) : (fileblocks sfi).toNat =
    if sfi.sfiSize.toNat + 511 < 2 ^ 32 then blocksOf sfi.sfiSize else 0 := by
  have hlt := sfi.sfiSize.toNat_lt
  have h512 : (512 : UInt32).toNat = 512 := rfl
  have h511 : (sfi.sfiSize + 512 - 1).toNat = (sfi.sfiSize.toNat + 511) % 2 ^ 32 := by
    rw [UInt32.toNat_sub, UInt32.toNat_add, UInt32.toNat_one, h512]
    omega
  rw [fileblocks, sfsRoundup, UInt32.toNat_div, UInt32.toNat_mul, UInt32.toNat_div, h511, h512,
    blocksOf]
  split <;> omega

theorem ofNat_lt_fileblocks (hk : k < 2 ^ 32) : UInt32.ofNat k < fileblocks sfi ↔
    sfi.sfiSize.toNat + 511 < 2 ^ 32 ∧ k < blocksOf sfi.sfiSize := by
  rw [UInt32.lt_iff_toNat_lt, toNat_fileblocks, UInt32.toNat_ofNat', Nat.mod_eq_of_lt hk]
  split
  · next h => exact ⟨fun hk => ⟨h, hk⟩, fun hk => hk.2⟩
  · next h => exact ⟨fun hk => absurd hk (Nat.not_lt_zero k), fun hk => absurd hk.1 h⟩

/-- A file whose size wraps around when it is rounded up goes on for as long as the inode has
pointers. -/
theorem lt_blocksOf_of_wraps (h : ¬ sfi.sfiSize.toNat + 511 < 2 ^ 32) (hk : k < 143) :
    k < blocksOf sfi.sfiSize := by
  rw [blocksOf]
  omega

theorem keepPtr_of_wraps (h : ¬ sfi.sfiSize.toNat + 511 < 2 ^ 32) (hk : k < 143) :
    keepPtr n (fileblocks sfi) k b = 0 := by
  have hout : ¬ UInt32.ofNat k < fileblocks sfi :=
    fun hlt => h ((ofNat_lt_fileblocks (hk.trans (by decide))).mp hlt).1
  rw [keepPtr, if_neg hout, ite_self]

/-- What becomes of a pointer is right, if the end of the file is, or there is nothing to lose. -/
theorem clears_keepPtr (hk : k < 143)
    (h : sfi.sfiSize.toNat + 511 < 2 ^ 32 ∨ ¬ (b ≠ 0 ∧ b < n)) :
    Clears (Dead n sfi.sfiSize k b) b (keepPtr n (fileblocks sfi) k b) := by
  rw [keepPtr]
  by_cases hn : n ≤ b
  · rw [if_pos hn]
    exact .inr ⟨rfl, .inl hn⟩
  rw [if_neg hn]
  by_cases hlt : UInt32.ofNat k < fileblocks sfi
  · rw [if_pos hlt]
    exact .inl rfl
  rw [if_neg hlt]
  rcases h with hsize | hnone
  · refine .inr ⟨rfl, .inr (not_lt.mp fun hb => hlt ?_)⟩
    exact (ofNat_lt_fileblocks (hk.trans (by decide))).mpr ⟨hsize, hb⟩
  · left
    by_contra hb
    exact hnone ⟨fun h0 => hb h0.symm, UInt32.not_le.mp hn⟩

/-- Where the size wraps around, a pointer into the volume is lost. -/
theorem not_clears_zero (h : ¬ sfi.sfiSize.toNat + 511 < 2 ^ 32) (hk : k < 143)
    (hb : b ≠ 0 ∧ b < n) : ¬ Clears (Dead n sfi.sfiSize k b) b 0 := by
  rintro (h0 | ⟨-, hn | hend⟩)
  · exact hb.1 h0.symm
  · exact UInt32.not_le.mpr hb.2 hn
  · exact not_lt.mpr hend (lt_blocksOf_of_wraps h hk)

end Size

/-! ### The walk -/

section Walk

variable {n : UInt32} {d d' : Disk} {sfi sfi' : Dinode}

/-- What `check_inode_blocks` leaves of the entries of the indirect block. -/
def keptEntries (n : UInt32) (d : Disk) (sfi : Dinode) : Fin 128 → UInt32 := fun j =>
  keepPtr n (fileblocks sfi) (15 + j) (indirectOf (d (sector sfi.sfiIndirect)) j)

/-- What `check_inode_blocks` does: the pointers it keeps are those `keepPtr` keeps. -/
structure Kepts (n : UInt32) (d d' : Disk) (sfi sfi' : Dinode) : Prop where
  direct : ∀ i : Fin 15, sfi'.sfiDirect i = keepPtr n (fileblocks sfi) i (sfi.sfiDirect i)
  indirect : sfi'.sfiIndirect =
    if (sfi.sfiIndirect ≠ 0 ∧ sfi.sfiIndirect < n) ∧ ∃ j, keptEntries n d sfi j ≠ 0 then
      sfi.sfiIndirect
    else 0
  entries : sfi'.sfiIndirect ≠ 0 → indirectOf (d' (sector sfi.sfiIndirect)) = keptEntries n d sfi
  others : ∀ b, b ≠ sector sfi.sfiIndirect ∨ sfi'.sfiIndirect = 0 → d' b = d b
  rest : sfi' = { sfi with sfiDirect := sfi'.sfiDirect, sfiIndirect := sfi'.sfiIndirect }

theorem wp_checkInodeBlocks_kepts {s : State} {ino : UInt32} {isdir : Bool} :
    wp (Watch.any ckGrowth) (checkInodeBlocks ino sfi isdir)
      (fun r t => Kepts s.sb.sbNblocks s.disk t.disk sfi r.1) (fun _ _ => False) s := by
  rw [checkInodeBlocks]
  refine wp_seq wp_sbTotalblocks fun volblocks s0 _ _ h0 => ?_
  obtain ⟨rfl, rfl⟩ := h0
  refine wp_seq (wp_checkPointers marking_any (k := 0) rfl) fun r s1 _ _ h1 => ?_
  obtain ⟨ibs, direct, dchanged⟩ := r
  dsimp only [Ibstate.Same] at h1
  obtain ⟨hdirect, -, ⟨hfb, hvol⟩, hcur, -, hd1⟩ := h1
  rw [Nat.zero_add] at hcur
  have hdirect : ∀ i : Fin 15, direct i = keepPtr s0.sb.sbNblocks (fileblocks sfi) i
      (sfi.sfiDirect i) := by
    intro i
    rw [hdirect]
    dsimp only
    rw [Nat.zero_add]
    rfl
  by_cases hhas : sfi.sfiIndirect ≠ 0 ∧ sfi.sfiIndirect < s0.sb.sbNblocks
  · have hkeep : keptEntries s0.sb.sbNblocks s0.disk sfi = fun j : Fin 128 =>
        keepPtr ibs.volblocks ibs.fileblocks (15 + j)
          (indirectOf (s1.disk (sector sfi.sfiIndirect)) j) := by
      rw [hvol, hfb, hd1]
      rfl
    refine wp_seq (wp_checkIndirectBlock_in marking_any hcur (by rwa [hvol]) hkeep)
      fun r s2 _ _ h2 => ?_
    obtain ⟨ibs2, indirect, ichanged⟩ := r
    obtain ⟨hind, -, -, hothers, hentries⟩ := h2
    refine wp_prints (keeps_when (prints_complain' _ _ _)) fun _ t ht => wp_pure fun _ => ?_
    dsimp only at hind
    have hdisk : t.disk = s2.disk := congrArg Core.disk ht
    by_cases hall : ∀ j, keptEntries s0.sb.sbNblocks s0.disk sfi j = 0
    · rw [if_pos hall] at hind
      refine ⟨hdirect, ?_, fun hne => absurd hind hne, fun b _ => ?_, rfl⟩
      · rw [if_neg fun h => not_exists_not.mpr hall h.2]
        exact hind
      · rw [hdisk, hothers b (.inr hall), hd1]
    · rw [if_neg hall] at hind
      have hsome := not_forall.mp hall
      refine ⟨hdirect, ?_, fun _ => ?_, fun b hb => ?_, rfl⟩
      · rw [if_pos ⟨hhas, hsome⟩]
        exact hind
      · rw [hdisk, hentries hsome]
      · have hne : indirect ≠ 0 := hind ▸ hhas.1
        rw [hdisk, hothers b (.inl (hb.resolve_right hne)), hd1]
  · refine wp_seq (wp_checkIndirectBlock_out (by rwa [hvol])) fun r s2 _ _ h2 => ?_
    obtain ⟨ibs2, indirect, ichanged⟩ := r
    obtain ⟨hind, -, hcore⟩ := h2
    refine wp_prints (keeps_when (prints_complain' _ _ _)) fun _ t ht => wp_pure fun _ => ?_
    dsimp only at hind
    refine ⟨hdirect, ?_, fun hne => absurd hind hne, fun b _ => ?_, rfl⟩
    · rw [if_neg fun h => hhas h.1]
      exact hind
    · rw [congrArg Core.disk ht, congrArg Core.disk hcore, hd1]

/-- The entries of the indirect block are treated right, if the end of the file is, or there is
nothing to lose. -/
theorem clears_keptEntries (hsize : sfi.sfiSize.toNat + 511 < 2 ^ 32 ∨ ¬ HasData n d sfi)
    (hhas : sfi.sfiIndirect ≠ 0 ∧ sfi.sfiIndirect < n) (j : Fin 128) :
    Clears (Dead n sfi.sfiSize (15 + j) (indirectOf (d (sector sfi.sfiIndirect)) j))
      (indirectOf (d (sector sfi.sfiIndirect)) j) (keptEntries n d sfi j) :=
  clears_keepPtr (by omega) (hsize.imp_right fun hno hj => hno (.inr ⟨hhas, j, hj⟩))

theorem Kepts.keepsLive (h : Kepts n d d' sfi sfi')
    (hsize : sfi.sfiSize.toNat + 511 < 2 ^ 32 ∨ ¬ HasData n d sfi) :
    KeepsLive n d d' sfi sfi' := by
  refine ⟨fun i => ?_, ?_, fun hne j => ?_, h.others, h.rest⟩
  · rw [h.direct]
    exact clears_keepPtr (by omega) (hsize.imp_right fun hno hi => hno (.inl ⟨i, hi⟩))
  · rw [h.indirect]
    split
    · exact .inl rfl
    · next hcleared =>
      by_cases h0 : sfi.sfiIndirect = 0
      · exact .inl h0.symm
      by_cases hn : n ≤ sfi.sfiIndirect
      · exact .inr ⟨rfl, .inl hn⟩
      -- an indirect block of the volume, with no entry left
      have hhas : sfi.sfiIndirect ≠ 0 ∧ sfi.sfiIndirect < n := ⟨h0, UInt32.not_le.mp hn⟩
      have hnone : ∀ j, keptEntries n d sfi j = 0 :=
        not_exists_not.mp fun hsome => hcleared ⟨hhas, hsome⟩
      refine .inr ⟨rfl, .inr fun j => ?_⟩
      rcases clears_keptEntries hsize hhas j with hj | ⟨-, hdead⟩
      · exact .inl (hj.symm.trans (hnone j))
      · exact .inr hdead
  · have hhas : sfi.sfiIndirect ≠ 0 ∧ sfi.sfiIndirect < n := by
      by_contra hno
      exact hne (h.indirect.trans (if_neg fun h => hno h.1))
    rw [h.entries hne]
    exact clears_keptEntries hsize hhas j

/-- Where the rounding wraps around, the walk loses what there is. -/
theorem Kepts.not_keepsLive (h : Kepts n d d' sfi sfi')
    (hsize : ¬ sfi.sfiSize.toNat + 511 < 2 ^ 32) (hdata : HasData n d sfi) :
    ¬ KeepsLive n d d' sfi sfi' := by
  intro hlive
  rcases hdata with ⟨i, hi⟩ | ⟨hhas, j, hj⟩
  · have hclears := hlive.direct i
    rw [h.direct, keepPtr_of_wraps hsize (by omega)] at hclears
    exact not_clears_zero hsize (by omega) hi hclears
  · have hnone : ¬ ∃ j, keptEntries n d sfi j ≠ 0 :=
      fun ⟨j, hj⟩ => hj (keepPtr_of_wraps hsize (by omega))
    have hclears := hlive.indirect
    rw [h.indirect, if_neg fun h => hnone h.2] at hclears
    rcases hclears with h0 | ⟨-, hn | hall⟩
    · exact hhas.1 h0.symm
    · exact UInt32.not_le.mpr hhas.2 hn
    · rcases hall j with h0 | hdead
      · exact hj.1 h0
      · exact not_clears_zero hsize (by omega) hj (.inr ⟨rfl, hdead⟩)

theorem run_checkInodeBlocks (s : State) (ino : UInt32) (sfi : Dinode) (isdir : Bool) :
    ∃ r t, (checkInodeBlocks ino sfi isdir).run s = .done r t ∧
      Kepts s.sb.sbNblocks s.disk t.disk sfi r.1 :=
  finishes_of_wp wp_checkInodeBlocks_kepts

end Walk

/-- **What the checker discards.** `check_inode_blocks` always ends, and it clears no pointer but
those out of the volume, those past the end of the file, and those to indirect blocks with nothing
left in them, if and only if rounding up the size does not wrap around, or the inode has no
data. -/
theorem keepsLive_iff (s : State) (ino : UInt32) (sfi : Dinode) (isdir : Bool) :
    ∃ r t, (checkInodeBlocks ino sfi isdir).run s = .done r t ∧
      (KeepsLive s.sb.sbNblocks s.disk t.disk sfi r.1 ↔
        sfi.sfiSize.toNat + 511 < 2 ^ 32 ∨ ¬ HasData s.sb.sbNblocks s.disk sfi) := by
  obtain ⟨r, t, hrun, hkept⟩ := run_checkInodeBlocks s ino sfi isdir
  refine ⟨r, t, hrun, fun hlive => ?_, hkept.keepsLive⟩
  by_contra hno
  obtain ⟨hsize, hdata⟩ := not_or.mp hno
  exact hkept.not_keepsLive hsize (not_not.mp hdata) hlive

/-- A file that is as long as possible, with one block. -/
def longInode : Dinode where
  sfiSize := 0xffffffff
  sfiType := sfsTypeFile
  sfiLinkcount := 1
  sfiDirect i := if i = 0 then 50 else 0
  sfiIndirect := 0
  sfiWaste _ := 0

/-- A volume of 100 blocks. -/
def hundredBlocks : State :=
  { start (fun _ => Bytes.zero) with sb := { Superblock.ofBlock Bytes.zero with sbNblocks := 100 } }

/-- The block of a file that is as long as possible is lost. -/
theorem not_keepsLive : ∃ r t, (checkInodeBlocks 5 longInode false).run hundredBlocks = .done r t ∧
    ¬ KeepsLive 100 hundredBlocks.disk t.disk longInode r.1 := by
  obtain ⟨r, t, hrun, hkept⟩ := run_checkInodeBlocks hundredBlocks 5 longInode false
  exact ⟨r, t, hrun, hkept.not_keepsLive (by decide) (.inl ⟨0, by decide, by decide⟩)⟩

end Sfsck

end Os161
