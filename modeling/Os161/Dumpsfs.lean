import Os161.Sfs.Mapping
import Os161.Sfsck.Main

/-!
# Dumping a file

The walk of `userland/sbin/dumpsfs/dumpsfs.c` over the blocks of a file, and block mapping as three
programs have it: `sfs_bmap` in the kernel, `bmap` in `sfsck` and `traverse` in `dumpsfs`. The
kernel computes where in the inode a block number is, `sfsck` does so by ranges, and `dumpsfs`
counts blocks while it goes through all of them.

`traverse` calls `doblock` for each block up to the size of the file. A file with more blocks than
can be mapped makes its last assertion fail, after the blocks that can be mapped have been passed.
The size is rounded up in 32 bits, so of a file of more than `2^32 - 512` bytes nothing is passed.

## Main results

* `Dumpsfs.traverse_eq` — the blocks `traverse` passes
* `Dumpsfs.bmap_agreement` — the three programs agree
-/

namespace Os161

namespace Dumpsfs

open Sfs

/-- `diskread`, of the same `disk.c` as the checker's. -/
def diskread (d : Disk) (block : UInt32) : Block := d (Sfsck.sector block)

variable {σ : Type}

/-- Where a walk is. -/
structure Walk (σ : Type) where
  /-- `fileblock`. -/
  fileblock : UInt32
  /-- What the calls of `doblock` have done. -/
  done : σ

/-- One round of a loop with the guard `fileblock < numblocks`, which stays false once it is. -/
def round (numblocks : UInt32) (doblock : σ → UInt32 → UInt32 → σ) (w : Walk σ) (block : UInt32) :
    Walk σ :=
  if w.fileblock < numblocks then ⟨w.fileblock + 1, doblock w.done w.fileblock block⟩ else w

/-- `traverse_ib`. -/
def traverseIb (d : Disk) (numblocks block : UInt32) (doblock : σ → UInt32 → UInt32 → σ)
    (w : Walk σ) : Walk σ :=
  let ib := if block = 0 then fun _ => 0 else indirectOf (diskread d block)
  (List.finRange 128).foldl (fun w i => round numblocks doblock w (ib i)) w

/-- `DIVROUNDUP(sfi_size, SFS_BLOCKSIZE)`. -/
def numblocks (sfi : Dinode) : UInt32 := (sfi.sfiSize + 512 - 1) / 512

/-- `traverse`; the error is a failed assertion. -/
def traverse (d : Disk) (sfi : Dinode) (doblock : σ → UInt32 → UInt32 → σ) (a : σ) : Except σ σ :=
  let numblocks := numblocks sfi
  let w := (List.finRange 15).foldl (fun w i => round numblocks doblock w (sfi.sfiDirect i)) ⟨0, a⟩
  let w := if w.fileblock < numblocks then traverseIb d numblocks sfi.sfiIndirect doblock w else w
  if w.fileblock = numblocks then .ok w.done else .error w.done

/-- The blocks `traverse` passes to `doblock`, in order. -/
def passed (d : Disk) (sfi : Dinode) : List (UInt32 × UInt32) :=
  match traverse d sfi (fun l fileblock diskblock => l ++ [(fileblock, diskblock)]) [] with
  | .ok l => l
  | .error l => l

section Traverse

variable (doblock : σ → UInt32 → UInt32 → σ) (ptr : ℕ → UInt32) {n : UInt32} (a : σ)

/-- The walk once the first `k` block numbers `ptr` have been gone through. -/
def walked (n : UInt32) (k : ℕ) : Walk σ where
  fileblock := UInt32.ofNat (min k n.toNat)
  done := (List.range (min k n.toNat)).foldl (fun a b => doblock a (UInt32.ofNat b) (ptr b)) a

theorem toNat_ofNat_min (k : ℕ) (n : UInt32) :
    (UInt32.ofNat (min k n.toNat)).toNat = min k n.toNat := by
  rw [UInt32.toNat_ofNat']
  exact Nat.mod_eq_of_lt (lt_of_le_of_lt (Nat.min_le_right _ _) n.toNat_lt)

theorem round_walked (k : ℕ) :
    round n doblock (walked doblock ptr a n k) (ptr k) = walked doblock ptr a n (k + 1) := by
  rw [round]
  by_cases hk : k < n.toNat
  · have hmin : min k n.toNat = k := by omega
    have hmin' : min (k + 1) n.toNat = k + 1 := by omega
    have hnat := toNat_ofNat_min k n
    rw [hmin] at hnat
    rw [walked, walked, hmin, hmin']
    dsimp only
    rw [if_pos (by rwa [UInt32.lt_iff_toNat_lt, hnat]), List.range_succ, List.foldl_append,
      List.foldl_cons, List.foldl_nil, UInt32.ofNat_add]
    rfl
  · have hmin : min k n.toNat = n.toNat := by omega
    have hmin' : min (k + 1) n.toNat = n.toNat := by omega
    rw [walked, walked, hmin, hmin']
    dsimp only
    rw [UInt32.ofNat_toNat, if_neg (UInt32.lt_irrefl n)]

/-- A loop over a table of block numbers. -/
theorem foldl_round {m : ℕ} {e : Fin m → UInt32} {k : ℕ} (he : ∀ i, e i = ptr (k + i)) :
    (List.finRange m).foldl (fun w i => round n doblock w (e i)) (walked doblock ptr a n k) =
      walked doblock ptr a n (k + m) := by
  have hrange : ∀ m, (List.range m).foldl (fun w i => round n doblock w (ptr (k + i)))
      (walked doblock ptr a n k) = walked doblock ptr a n (k + m) := by
    intro m
    induction m with
    | zero => rfl
    | succ m ih =>
      rw [List.range_succ, List.foldl_append, ih, List.foldl_cons, List.foldl_nil, round_walked]
      rfl
  simp only [he]
  rw [← hrange m, ← List.map_coe_finRange_eq_range, List.foldl_map]

end Traverse

theorem toNat_numblocks {sfi : Dinode} (hsize : sfi.sfiSize.toNat + 511 < 4294967296) :
    (numblocks sfi).toNat = (sfi.sfiSize.toNat + 511) / 512 := by
  have h512 : (512 : UInt32).toNat = 512 := rfl
  have h1 : (1 : UInt32).toNat = 1 := rfl
  rw [numblocks, UInt32.toNat_div, UInt32.toNat_sub, UInt32.toNat_add, h512, h1]
  omega

/-- What `traverse` passes, for the block numbers `ptr` of the file. -/
theorem traverse_of_ptr {d : Disk} {sfi : Dinode} (ptr : ℕ → UInt32)
    (doblock : σ → UInt32 → UInt32 → σ) (a : σ) (hdirect : ∀ i : Fin 15, sfi.sfiDirect i = ptr i)
    (hindirect : ∀ i : Fin 128, (if sfi.sfiIndirect = 0 then fun _ => 0
      else indirectOf (diskread d sfi.sfiIndirect)) i = ptr (15 + i)) :
    traverse d sfi doblock a =
      let w := (List.range (min 143 (numblocks sfi).toNat)).foldl
        (fun a b => doblock a (UInt32.ofNat b) (ptr b)) a
      if (numblocks sfi).toNat ≤ 143 then .ok w else .error w := by
  have hstart : (⟨0, a⟩ : Walk σ) = walked doblock ptr a (numblocks sfi) 0 := by
    rw [walked, Nat.zero_min]
    rfl
  have hdir : (List.finRange 15).foldl
      (fun w i => round (numblocks sfi) doblock w (sfi.sfiDirect i)) ⟨0, a⟩ =
        walked doblock ptr a (numblocks sfi) 15 := by
    rw [hstart]
    refine foldl_round doblock ptr a (k := 0) fun i => ?_
    rw [Nat.zero_add, hdirect]
  have hib : traverseIb d (numblocks sfi) sfi.sfiIndirect doblock
      (walked doblock ptr a (numblocks sfi) 15) = walked doblock ptr a (numblocks sfi) 143 :=
    foldl_round doblock ptr a (k := 15) hindirect
  have hnat := toNat_ofNat_min 143 (numblocks sfi)
  have hall : (if (walked doblock ptr a (numblocks sfi) 15).fileblock < numblocks sfi
      then traverseIb d (numblocks sfi) sfi.sfiIndirect doblock
        (walked doblock ptr a (numblocks sfi) 15)
      else walked doblock ptr a (numblocks sfi) 15) = walked doblock ptr a (numblocks sfi) 143 := by
    by_cases hlt : 15 < (numblocks sfi).toNat
    · rw [hib, ite_eq_left_iff]
      intro hc
      refine absurd ?_ hc
      rw [UInt32.lt_iff_toNat_lt]
      change (UInt32.ofNat (min 15 _)).toNat < _
      rw [toNat_ofNat_min]
      omega
    · have h15 : min 15 (numblocks sfi).toNat = min 143 (numblocks sfi).toNat := by omega
      have hsame : walked doblock ptr a (numblocks sfi) 15 =
          walked doblock ptr a (numblocks sfi) 143 := by
        rw [walked, walked, h15]
      rw [hib, hsame, ite_self]
  rw [traverse]
  dsimp only
  rw [hdir, hall]
  have hend : (walked doblock ptr a (numblocks sfi) 143).fileblock = numblocks sfi ↔
      (numblocks sfi).toNat ≤ 143 := by
    rw [← UInt32.toNat_inj]
    change (UInt32.ofNat (min 143 _)).toNat = _ ↔ _
    rw [hnat]
    omega
  by_cases h143 : (numblocks sfi).toNat ≤ 143
  · rw [if_pos (hend.mpr h143), if_pos h143]
    rfl
  · rw [if_neg (fun h => h143 (hend.mp h)), if_neg h143]
    rfl

/-- **What `traverse` passes**: every block that can be mapped and that the file reaches, in order.
The assertion holds if the file has no more blocks than that. -/
theorem traverse_eq (d : Disk) (sfi : Dinode) (doblock : σ → UInt32 → UInt32 → σ) (a : σ)
    (hind : sfi.sfiIndirect.toNat < 8388608) :
    traverse d sfi doblock a =
      let w := (List.range (min 143 (numblocks sfi).toNat)).foldl
        (fun a b => doblock a (UInt32.ofNat b) (fileBlock d sfi b)) a
      if (numblocks sfi).toNat ≤ 143 then .ok w else .error w := by
  refine traverse_of_ptr (fileBlock d sfi) doblock a (fun i => ?_) fun i => ?_
  · rw [fileBlock, dif_pos i.isLt]
  · rw [fileBlock_entry, indirectAt, diskread, Sfsck.sector_of_lt hind]

theorem foldl_concat {α β : Type} (f : α → β) (l : List α) (acc : List β) :
    l.foldl (fun acc b => acc ++ [f b]) acc = acc ++ l.map f := by
  induction l generalizing acc with
  | nil => exact (List.append_nil acc).symm
  | cons b l ih => rw [List.foldl_cons, ih, List.map_cons, List.append_assoc, List.singleton_append]

/-- The blocks passed, as a list. -/
theorem passed_eq (d : Disk) (sfi : Dinode) (hind : sfi.sfiIndirect.toNat < 8388608) :
    passed d sfi = (List.range (min 143 (numblocks sfi).toNat)).map fun b =>
      (UInt32.ofNat b, fileBlock d sfi b) := by
  rw [passed, traverse_eq d sfi _ _ hind]
  dsimp only
  rw [foldl_concat (fun b => (UInt32.ofNat b, fileBlock d sfi b)), List.nil_append]
  by_cases h : (numblocks sfi).toNat ≤ 143
  · rw [if_pos h]
  · rw [if_neg h]

/-- The only block passed for index `b`. -/
theorem mem_passed_iff {d : Disk} {sfi : Dinode} (hind : sfi.sfiIndirect.toNat < 8388608)
    {b : UInt32} (hb : b.toNat < 143) (hlt : b.toNat < (numblocks sfi).toNat) (block : UInt32) :
    (b, block) ∈ passed d sfi ↔ block = fileBlock d sfi b.toNat := by
  rw [passed_eq d sfi hind, List.mem_map]
  constructor
  · rintro ⟨i, hi, heq⟩
    obtain ⟨hib, rfl⟩ := Prod.mk.inj heq
    rw [List.mem_range] at hi
    have hnat : b.toNat = i := by
      rw [← hib, UInt32.toNat_ofNat']
      exact Nat.mod_eq_of_lt (by omega)
    rw [hnat]
  · rintro rfl
    refine ⟨b.toNat, List.mem_range.mpr (lt_min hb hlt), ?_⟩
    rw [UInt32.ofNat_toNat]

/-! ### The checker -/

/-- `bmap` of `sfsck` reads the block number off the volume and changes nothing. -/
theorem run_bmap {c : Sfsck.State} (sfi : Dinode) (hind : sfi.sfiIndirect.toNat < 8388608) {k : ℕ}
    (hk : k < 143) : (Sfsck.bmap sfi k).run c = .done (fileBlock c.disk sfi k) c := by
  rw [Sfsck.bmap]
  by_cases hdirect : k < 15
  · rw [dif_pos hdirect, fileBlock, dif_pos hdirect]
    rfl
  · obtain ⟨idoff, rfl⟩ : ∃ idoff : Fin 128, k = 15 + idoff :=
      ⟨⟨k - 15, by omega⟩, (Nat.add_sub_cancel' (Nat.not_lt.mp hdirect)).symm⟩
    have hoff : (15 + (idoff : ℕ) - 15) % 128 = idoff := by
      rw [Nat.add_sub_cancel_left]
      exact Nat.mod_eq_of_lt idoff.isLt
    rw [dif_neg hdirect, if_pos hk, fileBlock_entry, indirectAt, hoff, Sfsck.ibmap]
    by_cases h0 : sfi.sfiIndirect = 0
    · rw [if_pos h0, if_pos h0]
      rfl
    · have hread : (Sfsck.sfsReadindirect sfi.sfiIndirect).run c =
          .done (indirectOf (c.disk sfi.sfiIndirect)) c := by
        rw [← Sfsck.sector_of_lt hind]
        exact congrArg (fun b => Outcome.done (indirectOf (c.disk b)) c)
          (Sfsck.sector_of_lt (by rwa [Sfsck.sector_of_lt hind]))
      rw [if_neg h0, if_neg h0, Prog.run_bind_eq hread (dif_pos idoff.isLt)]
      rfl

/-- **Block mapping agreement.** For a block of the file, `sfsck` and `dumpsfs` have the block
number the volume has, and so has the kernel if the block is in use; if it is not, the kernel stops.
None of the three changes anything. -/
theorem bmap_agreement {s : State} {c : Sfsck.State} {ino : UInt32} {sv : SfsVnode}
    (hv : s.vnode? ino = some sv) (hdisk : c.disk = s.disk)
    (hmedia : ∀ k, s.mount.world.media .read k = true) (hd : s.mount.dBlocks.toNat ≤ 8388608)
    (hind : sv.svI.sfiIndirect < s.mount.dBlocks) (hsize : sv.svI.sfiSize.toNat + 511 < 4294967296)
    {b : UInt32} (hb : b.toNat < min 143 ((sv.svI.sfiSize.toNat + 511) / 512)) :
    ∃ block, (Sfsck.bmap sv.svI b.toNat).run c = .done block c ∧
      (∀ x, (b, x) ∈ passed s.disk sv.svI ↔ x = block) ∧
      ∃ k, (block = 0 ∨ s.InUse block →
          (bmap ino b false).run s = .done block { s with tick := k }) ∧
        (¬(block = 0 ∨ s.InUse block) →
          ∃ p, (bmap ino b false).run s = .halt (.panic p) { s with tick := k }) := by
  have h143 : b.toNat < 143 := lt_of_lt_of_le hb (Nat.min_le_left _ _)
  have hn := toNat_numblocks hsize
  have hlt : b.toNat < (numblocks sv.svI).toNat := hn ▸ lt_of_lt_of_le hb (Nat.min_le_right _ _)
  have hind' : sv.svI.sfiIndirect.toNat < 8388608 :=
    lt_of_lt_of_le (UInt32.lt_iff_toNat_lt.mp hind) hd
  refine ⟨fileBlock s.disk sv.svI b.toNat, ?_, mem_passed_iff hind' h143 hlt, ?_⟩
  · rw [← hdisk]
    exact run_bmap sv.svI hind' h143
  · exact bmap_lookup hv h143 hmedia (fun _ _ => hind) rfl

/-- A file of one block, block `5`. -/
def strayInode : Dinode := sampleFile 512 (fun i => if i = 0 then 5 else 0) 0

/-- A volume with that file, and the given bits in its freemap. -/
def strayVolume (bits : UInt8) : State := sampleVolume true (fun _ => Bytes.zero) strayInode bits

/-- All blocks are marked: the three programs find block `5`. -/
theorem bmap_agreement_marked : ∃ block,
    (Sfsck.bmap strayInode (0 : UInt32).toNat).run (Sfsck.start (strayVolume 0xff).disk) =
      .done block (Sfsck.start (strayVolume 0xff).disk) ∧
    (∀ x, (0, x) ∈ passed (strayVolume 0xff).disk strayInode ↔ x = block) ∧
    ∃ k, (block = 0 ∨ (strayVolume 0xff).InUse block → (bmap 3 0 false).run (strayVolume 0xff) =
        .done block { strayVolume 0xff with tick := k }) ∧
      (¬(block = 0 ∨ (strayVolume 0xff).InUse block) →
        ∃ p, (bmap 3 0 false).run (strayVolume 0xff) =
        .halt (.panic p) { strayVolume 0xff with tick := k }) :=
  bmap_agreement (show (strayVolume 0xff).vnode? 3 = some ⟨3, strayInode, false, 1⟩ from rfl) rfl
    (fun _ => rfl) (by decide) (by decide) (by decide) (by decide)

/-- No block is marked: the two programs find block `5`, and the kernel panics. -/
theorem bmap_stray :
    (Sfsck.bmap strayInode 0).run (Sfsck.start (strayVolume 0).disk) =
      .done 5 (Sfsck.start (strayVolume 0).disk) ∧
    (0, 5) ∈ passed (strayVolume 0).disk strayInode ∧
    (bmap 3 0 false).run (strayVolume 0) = .halt (.panic (.markedFree 5 0 3)) (strayVolume 0) := by
  have hv : (strayVolume 0).vnode? 3 = some ⟨3, strayInode, false, 1⟩ := rfl
  have hlt : (0 : UInt32).toNat < 15 := by decide
  refine ⟨run_bmap strayInode (by decide) (by decide),
    (mem_passed_iff (by decide) (by decide) (by decide) 5).mpr rfl, ?_⟩
  rw [bmap, dif_pos hlt, bmapDirect_lookup, Prog.run_bind_eq (run_getVnode hv) rfl]
  exact run_handBack_free (s := strayVolume 0) 3 0 (show (5 : UInt32) ≠ 0 by decide)
    (show (5 : UInt32) < 8 by decide) (show ¬(strayVolume 0).sfsFreemap.isset 5 = true by decide)

end Dumpsfs

end Os161
