import Os161.Sfsck.Io

/-!
# Other inode layouts

`ibmacros.h` promises that `sfsck` builds and runs for any number of direct, indirect, doubly and
triply indirect block pointers in an inode. Here those numbers are parameters. `bmap` (`sfs.c`)
finds the disk block of a file block by range arithmetic; `check_inode_blocks` (`pass1.c`) comes
past the file blocks in order, with a running counter, repairing as it goes.

The walk is that of `check_inode_blocks` with what it does to the inode, the indirect blocks and
the counter; the marks in the freemap, the messages and the exit code, which it does not look at
again, are left out. It notes each block pointer it examines, and each stretch of file blocks it
steps over for want of an indirect block, along with the inode and the disk at that moment.

## Main results

* `supported_iff` — `bmap` agrees with the walk for exactly the layouts without doubly and triply
  indirect blocks: `INOMAX_II` and `INOMAX_III` count 128 file blocks for each of these
* `bmap_shipped` — for the layout of the shipped `kern/sfs.h` this `bmap` is that of `Os161.Sfsck`
-/

namespace Os161

namespace Sfsck

open Sfs

/-- `SFS_NDIRECT`, `SFS_NINDIRECT`, `SFS_NDINDIRECT` and `SFS_NTINDIRECT`. -/
structure Layout where
  numD : ℕ
  numI : ℕ
  numII : ℕ
  numIII : ℕ

namespace Layout

/-! ### `ibmacros.h` -/

/-- `INOMAX_D`. -/
def inomaxD (L : Layout) : ℕ := L.numD

/-- `INOMAX_I`. -/
def inomaxI (L : Layout) : ℕ := L.inomaxD + 128 * L.numI

/-- `INOMAX_II`. The factor is `SFS_DBPERIDB`, not `RANGE_II`. -/
def inomaxII (L : Layout) : ℕ := L.inomaxI + 128 * L.numII

/-- `INOMAX_III`. The factor is `SFS_DBPERIDB`, not `RANGE_III`. -/
def inomaxIII (L : Layout) : ℕ := L.inomaxII + 128 * L.numIII

/-- The number of file blocks an inode can map. -/
def total (L : Layout) : ℕ := L.numD + 128 * L.numI + 128 ^ 2 * L.numII + 128 ^ 3 * L.numIII

/-- `struct sfs_dinode`, as far as its block pointers are concerned. -/
structure Inode (L : Layout) where
  size : UInt32
  direct : Fin L.numD → UInt32
  indirect : Fin L.numI → UInt32
  dindirect : Fin L.numII → UInt32
  tindirect : Fin L.numIII → UInt32

/-- `GET_x`. -/
def get {n : ℕ} (f : Fin n → UInt32) (i : ℕ) : UInt32 := if h : i < n then f ⟨i, h⟩ else 0

theorem get_val {n : ℕ} (f : Fin n → UInt32) (i : Fin n) : get f i = f i := dif_pos i.isLt

/-! ### `bmap` -/

/-- The entries of an indirect block. -/
def entriesOf (d : Disk) (block : UInt32) : Fin 128 → UInt32 := indirectOf (d (sector block))

/-- `ibmap`, an entry of `iblock` describing `128 ^ level` file blocks. `none` is the failed
assertion. -/
def ibmap (d : Disk) : ℕ → UInt32 → ℕ → Option UInt32
  | 0, iblock, offset =>
    if iblock = 0 then some 0
    else if h : offset < 128 then some (entriesOf d iblock ⟨offset, h⟩) else none
  | level + 1, iblock, offset =>
    if iblock = 0 then some 0
    else
      ibmap d level (get (entriesOf d iblock) (offset / 128 ^ (level + 1)))
        (offset % 128 ^ (level + 1))

/-- `bmap`. -/
def bmap (L : Layout) (sfi : Inode L) (d : Disk) (fileblock : ℕ) : Option UInt32 :=
  if fileblock < L.inomaxD then some (get sfi.direct fileblock)
  else if fileblock < L.inomaxI then
    ibmap d 0 (get sfi.indirect ((fileblock - L.inomaxD) / 128)) ((fileblock - L.inomaxD) % 128)
  else if fileblock < L.inomaxII then
    ibmap d 1 (get sfi.dindirect ((fileblock - L.inomaxI) / 128 ^ 2))
      ((fileblock - L.inomaxI) % 128 ^ 2)
  else if fileblock < L.inomaxIII then
    ibmap d 2 (get sfi.tindirect ((fileblock - L.inomaxII) / 128 ^ 3))
      ((fileblock - L.inomaxII) % 128 ^ 3)
  else some 0

/-! ### `check_inode_blocks` -/

/-- What the walk comes past. -/
inductive Event where
  /-- A block pointer, for file block `b`. -/
  | visit (b block : UInt32)
  /-- `count` file blocks from `start` on, whose indirect block is missing. -/
  | skip (start : UInt32) (count : ℕ)

/-- The event is about file block `b`. -/
def Event.Covers : Event → UInt32 → Prop
  | .visit b' _, b => b = b'
  | .skip start count, b => start.toNat ≤ b.toNat ∧ b.toNat < start.toNat + count

/-- The disk block it finds there; 0 for none. -/
def Event.block : Event → UInt32
  | .visit _ block => block
  | .skip _ _ => 0

/-- An event, with the inode and the disk at that moment. -/
structure Snapshot (L : Layout) where
  event : Event
  sfi : Inode L
  disk : Disk

/-- The walk: the inode, the disk, `curfileblock`, and what has been seen, latest first. -/
structure Walk (L : Layout) where
  sfi : Inode L
  disk : Disk
  curfileblock : UInt32
  seen : List (Snapshot L)

variable {L : Layout}

/-- Note an event. -/
def Walk.note (w : Walk L) (e : Event) : Walk L := { w with seen := ⟨e, w.sfi, w.disk⟩ :: w.seen }

/-- `curfileblock += n`. -/
def Walk.advance (w : Walk L) (n : ℕ) : Walk L :=
  { w with curfileblock := w.curfileblock + UInt32.ofNat n }

/-- What becomes of a block pointer, and whether it was changed. -/
def kept (volblocks fileblocks curfileblock block : UInt32) : UInt32 × Bool :=
  if volblocks ≤ block then (0, true)
  else if block ≠ 0 then
    if curfileblock < fileblocks then (block, false) else (0, true)
  else (block, false)

/-- A round of the loop over the direct blocks. -/
def checkDirect (volblocks fileblocks : UInt32) (w : Walk L) (i : Fin L.numD) : Walk L :=
  let block := w.sfi.direct i
  let w := w.note (.visit w.curfileblock block)
  let direct := Function.update w.sfi.direct i (kept volblocks fileblocks w.curfileblock block).1
  { w with sfi := { w.sfi with direct := direct } }.advance 1

/-- A walk inside an indirect block: the walk, the entries as changed, and `localchanged`. -/
abbrev Inside (L : Layout) := Walk L × (Fin 128 → UInt32) × Bool

/-- A round of the loop over the entries of a singly indirect block. -/
def checkEntry (volblocks fileblocks : UInt32) (acc : Inside L) (i : Fin 128) : Inside L :=
  let (w, entries, localchanged) := acc
  let (block, changed) := kept volblocks fileblocks w.curfileblock (entries i)
  ((w.note (.visit w.curfileblock (entries i))).advance 1, Function.update entries i block,
    localchanged || changed)

/-- What `check_indirect_block` does when it has no block to read: `put` stores to `*ientry`. -/
def skipBlock (volblocks : UInt32) (count : ℕ) (put : UInt32 → Inode L → Inode L) (w : Walk L)
    (ientry : UInt32) : Walk L × UInt32 × Bool :=
  if volblocks ≤ ientry then
    let w := { w with sfi := put 0 w.sfi }
    ((w.note (.skip w.curfileblock count)).advance count, 0, true)
  else ((w.note (.skip w.curfileblock count)).advance count, ientry, false)

/-- The end of `check_indirect_block`: an empty block is dropped, a changed one written back. -/
def finishBlock (put : UInt32 → Inode L → Inode L) (ientry : UInt32) (acc : Inside L) :
    Walk L × UInt32 × Bool :=
  let (w, entries, localchanged) := acc
  if ∀ i, entries i = 0 then ({ w with sfi := put 0 w.sfi }, 0, true)
  else if localchanged then
    ({ w with disk := Function.update w.disk (sector ientry) (indirectBlock entries) }, ientry,
      false)
  else (w, ientry, false)

/-- `check_indirect_block`, `indirection` being `level + 1`. `ientry` is `*ientry`, and `put` stores
to it if it is a pointer of the inode; an entry of another indirect block is stored by the caller.
The result has `*ientry` and whether it was changed. -/
def checkIndirectBlock (volblocks fileblocks : UInt32) :
    ℕ → (UInt32 → Inode L → Inode L) → Walk L → UInt32 → Walk L × UInt32 × Bool
  | 0, put, w, ientry =>
    if 0 < ientry ∧ ientry < volblocks then
      finishBlock put ientry ((List.finRange 128).foldl (checkEntry volblocks fileblocks)
        (w, entriesOf w.disk ientry, false))
    else skipBlock volblocks 128 put w ientry
  | level + 1, put, w, ientry =>
    if 0 < ientry ∧ ientry < volblocks then
      finishBlock put ientry ((List.finRange 128).foldl (fun acc i =>
        let (w, block, changed) :=
          checkIndirectBlock volblocks fileblocks level (fun _ => id) acc.1 (acc.2.1 i)
        (w, Function.update acc.2.1 i block, acc.2.2 || changed))
        (w, entriesOf w.disk ientry, false))
    else skipBlock volblocks (128 ^ (level + 2)) put w ientry

/-- `check_inode_blocks` on a volume of `volblocks` blocks. -/
def checkInodeBlocks (L : Layout) (volblocks : UInt32) (sfi : Inode L) (d : Disk) : Walk L :=
  let fileblocks := sfsRoundup sfi.size 512 / 512
  let w : Walk L := ⟨sfi, d, 0, []⟩
  let w := (List.finRange L.numD).foldl (checkDirect volblocks fileblocks) w
  let w := (List.finRange L.numI).foldl (fun w i =>
    (checkIndirectBlock volblocks fileblocks 0
      (fun block sfi => { sfi with indirect := Function.update sfi.indirect i block })
      w (w.sfi.indirect i)).1) w
  let w := (List.finRange L.numII).foldl (fun w i =>
    (checkIndirectBlock volblocks fileblocks 1
      (fun block sfi => { sfi with dindirect := Function.update sfi.dindirect i block })
      w (w.sfi.dindirect i)).1) w
  (List.finRange L.numIII).foldl (fun w i =>
    (checkIndirectBlock volblocks fileblocks 2
      (fun block sfi => { sfi with tindirect := Function.update sfi.tindirect i block })
      w (w.sfi.tindirect i)).1) w

/-! ### Where `bmap` is right -/

/-- `bmap` finds the disk block that `check_inode_blocks` comes past, for every file block an inode
can map, and nothing beyond these. -/
def Supported (L : Layout) : Prop :=
  ∀ (volblocks : UInt32) (sfi : Inode L) (d : Disk),
    (∀ b : UInt32, b.toNat < L.total →
      ∃ snap ∈ (L.checkInodeBlocks volblocks sfi d).seen, snap.event.Covers b) ∧
    (∀ snap ∈ (L.checkInodeBlocks volblocks sfi d).seen, ∀ b, snap.event.Covers b →
      L.bmap snap.sfi snap.disk b.toNat = some snap.event.block) ∧
    ∀ b : UInt32, L.total ≤ b.toNat → L.bmap sfi d b.toNat = some 0

/-- The loop rule for a loop over `Fin n`. -/
theorem foldl_finRange {β : Type} {n : ℕ} {f : β → Fin n → β} {b : β} (P : ℕ → β → Prop)
    (h0 : P 0 b) (hstep : ∀ (i : Fin n) b, P i b → P (i + 1) (f b i)) :
    P n ((List.finRange n).foldl f b) := by
  induction n with
  | zero => exact h0
  | succ n ih =>
    rw [List.finRange_succ_last, List.foldl_append, List.foldl_map]
    exact hstep (Fin.last n) _ (ih fun i b hb => hstep i.castSucc b hb)

/-- The first `k` file blocks have been come past, and `bmap` agreed each time. -/
structure Walk.Agrees (k : ℕ) (w : Walk L) : Prop where
  cur : w.curfileblock.toNat = k
  covered : ∀ b : UInt32, b.toNat < k → ∃ snap ∈ w.seen, snap.event.Covers b
  agree : ∀ snap ∈ w.seen, ∀ b, snap.event.Covers b →
    L.bmap snap.sfi snap.disk b.toNat = some snap.event.block

theorem Walk.toNat_advance {w : Walk L} {k n : ℕ} (hcur : w.curfileblock.toNat = k)
    (hn : k + n < 4294967296) : (w.advance n).curfileblock.toNat = k + n := by
  change (w.curfileblock + UInt32.ofNat n).toNat = k + n
  rw [UInt32.toNat_add, hcur, UInt32.toNat_ofNat_of_lt' (show n < 4294967296 by omega)]
  exact Nat.mod_eq_of_lt hn

/-- Repairs do not concern what has been seen. -/
theorem Walk.Agrees.congr {k : ℕ} {w w' : Walk L} (h : w.Agrees k)
    (hcur : w'.curfileblock = w.curfileblock) (hseen : w'.seen = w.seen) : w'.Agrees k where
  cur := by rw [hcur, h.cur]
  covered := by rw [hseen]; exact h.covered
  agree := by rw [hseen]; exact h.agree

theorem Walk.Agrees.visit {k : ℕ} {w : Walk L} {block : UInt32} (h : w.Agrees k)
    (hk : k + 1 < 4294967296) (hb : L.bmap w.sfi w.disk k = some block) :
    ((w.note (.visit w.curfileblock block)).advance 1).Agrees (k + 1) where
  cur := Walk.toNat_advance h.cur hk
  covered := by
    intro b hlt
    rcases Nat.lt_succ_iff_lt_or_eq.mp hlt with hlt | heq
    · obtain ⟨snap, hmem, hcov⟩ := h.covered b hlt
      exact ⟨snap, List.mem_cons_of_mem _ hmem, hcov⟩
    · exact ⟨_, List.mem_cons_self, UInt32.toNat_inj.mp (heq.trans h.cur.symm)⟩
  agree := by
    intro snap hmem b hcov
    rcases List.mem_cons.mp hmem with rfl | hmem
    · obtain rfl : b = w.curfileblock := hcov
      change L.bmap w.sfi w.disk w.curfileblock.toNat = some block
      rw [h.cur, hb]
    · exact h.agree snap hmem b hcov

theorem Walk.Agrees.skip {k count : ℕ} {w : Walk L} (h : w.Agrees k)
    (hk : k + count < 4294967296)
    (hb : ∀ b, k ≤ b → b < k + count → L.bmap w.sfi w.disk b = some 0) :
    ((w.note (.skip w.curfileblock count)).advance count).Agrees (k + count) where
  cur := Walk.toNat_advance h.cur hk
  covered := by
    intro b hlt
    by_cases hold : b.toNat < k
    · obtain ⟨snap, hmem, hcov⟩ := h.covered b hold
      exact ⟨snap, List.mem_cons_of_mem _ hmem, hcov⟩
    · refine ⟨_, List.mem_cons_self, ?_⟩
      change w.curfileblock.toNat ≤ b.toNat ∧ b.toNat < w.curfileblock.toNat + count
      rw [h.cur]
      omega
  agree := by
    intro snap hmem b hcov
    rcases List.mem_cons.mp hmem with rfl | hmem
    · obtain ⟨hle, hlt⟩ : w.curfileblock.toNat ≤ b.toNat ∧
          b.toNat < w.curfileblock.toNat + count := hcov
      rw [h.cur] at hle hlt
      exact hb b.toNat hle hlt
    · exact h.agree snap hmem b hcov

theorem bmap_direct (sfi : Inode L) (d : Disk) (i : Fin L.numD) :
    L.bmap sfi d i = some (sfi.direct i) := by
  rw [bmap, if_pos (show (i : ℕ) < L.inomaxD from i.isLt), get_val]

theorem bmap_indirect (sfi : Inode L) (d : Disk) (i : Fin L.numI) {j : ℕ} (hj : j < 128) :
    L.bmap sfi d (L.numD + 128 * i + j) = ibmap d 0 (sfi.indirect i) j := by
  have hi := i.isLt
  have hoff : L.numD + 128 * i + j - L.inomaxD = 128 * i + j := by
    rw [inomaxD]
    omega
  have hdiv : (128 * (i : ℕ) + j) / 128 = i := by omega
  have hmod : (128 * (i : ℕ) + j) % 128 = j := by omega
  rw [bmap, if_neg (by rw [inomaxD]; omega), if_pos (by rw [inomaxI, inomaxD]; omega), hoff, hdiv,
    hmod, get_val]

/-- Beyond the last block number `bmap` reckons with, it finds nothing. -/
theorem bmap_beyond (sfi : Inode L) (d : Disk) {k : ℕ} (hk : L.inomaxIII ≤ k) :
    L.bmap sfi d k = some 0 := by
  have hII : L.inomaxII ≤ k := le_trans (Nat.le_add_right _ _) hk
  have hI : L.inomaxI ≤ k := le_trans (Nat.le_add_right _ _) hII
  have hD : L.inomaxD ≤ k := le_trans (Nat.le_add_right _ _) hI
  rw [bmap, if_neg (Nat.not_lt.mpr hD), if_neg (Nat.not_lt.mpr hI), if_neg (Nat.not_lt.mpr hII),
    if_neg (Nat.not_lt.mpr hk)]

theorem ibmap_zero (d : Disk) (level offset : ℕ) : ibmap d level 0 offset = some 0 := by
  cases level <;> exact if_pos rfl

/-- A direct block. -/
theorem Walk.Agrees.checkDirect {volblocks fileblocks : UInt32} {w : Walk L} {i : Fin L.numD}
    (h : w.Agrees i) (hi : L.numD < 4294967296) :
    (checkDirect volblocks fileblocks w i).Agrees (i + 1) :=
  (h.visit (by omega) (bmap_direct w.sfi w.disk i)).congr rfl rfl

/-- The end of an indirect block changes nothing that has been seen. -/
theorem Walk.Agrees.finishBlock {k : ℕ} {put : UInt32 → Inode L → Inode L} {ientry : UInt32}
    {acc : Inside L} (h : acc.1.Agrees k) : (finishBlock put ientry acc).1.Agrees k := by
  obtain ⟨w, entries, localchanged⟩ := acc
  simp only [Layout.finishBlock]
  split_ifs
  · exact h.congr rfl rfl
  · exact h.congr rfl rfl
  · exact h

/-- The entries of a singly indirect block, from the first on. -/
theorem Walk.Agrees.checkEntries {volblocks fileblocks : UInt32} {w : Walk L} {i : Fin L.numI}
    (h : w.Agrees (L.numD + 128 * i)) (hi : L.inomaxI < 4294967296) (h0 : w.sfi.indirect i ≠ 0) :
    ((List.finRange 128).foldl (checkEntry volblocks fileblocks)
      (w, entriesOf w.disk (w.sfi.indirect i), false)).1.Agrees (L.numD + 128 * i + 128) := by
  have hlt := i.isLt
  -- the inode and the disk stay, and so do the entries not yet reached
  have hloop := foldl_finRange (f := checkEntry volblocks fileblocks)
    (b := (w, entriesOf w.disk (w.sfi.indirect i), false))
    (fun j acc => acc.1.Agrees (L.numD + 128 * i + j) ∧ acc.1.sfi = w.sfi ∧ acc.1.disk = w.disk ∧
      ∀ m : Fin 128, j ≤ m → acc.2.1 m = entriesOf w.disk (w.sfi.indirect i) m)
    ⟨h, rfl, rfl, fun _ _ => rfl⟩ ?_
  · exact hloop.1
  · rintro j ⟨w', entries, localchanged⟩ ⟨hagrees, hsfi, hdisk, hentries⟩
    have hentry : entries j = entriesOf w.disk (w.sfi.indirect i) j := hentries j (Nat.le_refl _)
    refine ⟨Walk.Agrees.visit (k := L.numD + 128 * i + j) hagrees ?_ ?_, hsfi, hdisk,
      fun m hm => ?_⟩
    · rw [inomaxI, inomaxD] at hi
      omega
    · have hsfi' : w'.sfi = w.sfi := hsfi
      have hdisk' : w'.disk = w.disk := hdisk
      rw [hsfi', hdisk', bmap_indirect _ _ _ j.isLt, ibmap, if_neg h0, dif_pos j.isLt, hentry]
    · have hne : m ≠ j := by
        rintro rfl
        omega
      exact (Function.update_of_ne hne _ _).trans (hentries m (by omega))

/-- A singly indirect block. -/
theorem Walk.Agrees.checkIndirect {volblocks fileblocks : UInt32} {w : Walk L} {i : Fin L.numI}
    (h : w.Agrees (L.numD + 128 * i)) (hi : L.inomaxI < 4294967296) :
    (checkIndirectBlock volblocks fileblocks 0
      (fun block sfi => { sfi with indirect := Function.update sfi.indirect i block })
      w (w.sfi.indirect i)).1.Agrees (L.numD + 128 * (i + 1)) := by
  have hlt := i.isLt
  have hend : L.numD + 128 * ((i : ℕ) + 1) = L.numD + 128 * i + 128 := by omega
  have hk : L.numD + 128 * (i : ℕ) + 128 < 4294967296 := by
    rw [inomaxI, inomaxD] at hi
    omega
  -- a missing block maps nothing
  have hhole : ∀ (sfi : Inode L) (d : Disk), sfi.indirect i = 0 → ∀ b, L.numD + 128 * (i : ℕ) ≤ b →
      b < L.numD + 128 * i + 128 → L.bmap sfi d b = some 0 := by
    intro sfi d hzero b hle hlt
    obtain ⟨j, rfl⟩ := Nat.exists_eq_add_of_le hle
    rw [bmap_indirect sfi d i (by omega), hzero, ibmap_zero]
  rw [hend, checkIndirectBlock]
  split_ifs with hvol
  · have h0 : w.sfi.indirect i ≠ 0 := by
      rintro heq
      rw [heq] at hvol
      exact absurd hvol.1 (by decide)
    exact (h.checkEntries hi h0).finishBlock
  · rw [skipBlock]
    split_ifs with hout
    · have hput : Walk.Agrees (L.numD + 128 * i) { w with
          sfi := { w.sfi with indirect := Function.update w.sfi.indirect i 0 } } := h.congr rfl rfl
      exact hput.skip hk (hhole _ _ (Function.update_self _ _ _))
    · have hzero : w.sfi.indirect i = 0 := by
        by_contra hne
        refine hvol ⟨?_, UInt32.not_le.mp hout⟩
        rw [UInt32.lt_iff_toNat_lt]
        exact Nat.pos_of_ne_zero fun h0 => hne (UInt32.toNat_inj.mp h0)
      exact h.skip hk (hhole _ _ hzero)

/-- **Without doubly and triply indirect blocks** `bmap` agrees with the walk. -/
theorem supported_of_indirect {L : Layout} (htotal : L.total < 4294967296) (hII : L.numII = 0)
    (hIII : L.numIII = 0) : L.Supported := by
  obtain ⟨numD, numI, numII, numIII⟩ := L
  obtain rfl : numII = 0 := hII
  obtain rfl : numIII = 0 := hIII
  intro volblocks sfi d
  have hmax : numD + 128 * numI < 4294967296 := by simpa [total] using htotal
  have hdirect : Walk.Agrees numD ((List.finRange numD).foldl
      (checkDirect (L := ⟨numD, numI, 0, 0⟩) volblocks (sfsRoundup sfi.size 512 / 512))
      ⟨sfi, d, 0, []⟩) :=
    foldl_finRange (fun i w => Walk.Agrees i w)
      ⟨rfl, fun b hb => absurd hb (Nat.not_lt_zero _), fun _ h => absurd h List.not_mem_nil⟩
      fun i w h => h.checkDirect (by dsimp only; omega)
  have hwalk : Walk.Agrees (numD + 128 * numI)
      (checkInodeBlocks ⟨numD, numI, 0, 0⟩ volblocks sfi d) :=
    foldl_finRange (fun i w => Walk.Agrees (numD + 128 * i) w) hdirect
      fun i w h => h.checkIndirect hmax
  refine ⟨fun b hb => hwalk.covered b ?_, hwalk.agree, fun b hb => ?_⟩
  · simpa [total] using hb
  · refine bmap_beyond sfi d ?_
    have hle : numD + 128 * numI ≤ b.toNat := by simpa [total] using hb
    exact hle

/-! ### Where it is not -/

/-- A disk on which every entry of every indirect block is block 5. -/
def fives : Disk := fun _ => indirectBlock fun _ => 5

/-- An empty file all of whose block pointers are block 5. -/
def fiveInode (L : Layout) : Inode L where
  size := 0
  direct _ := 5
  indirect _ := 5
  dindirect _ := 5
  tindirect _ := 5

theorem entriesOf_fives (block : UInt32) : entriesOf fives block = fun _ => 5 :=
  indirectOf_indirectBlock _

/-- Every pointer the walk has come past was block 5, and nothing has been written. -/
structure Walk.Fives (w : Walk L) : Prop where
  disk : w.disk = fives
  seen : ∀ snap ∈ w.seen, snap.event.block = 5

theorem Walk.Fives.visit {w : Walk L} {b : UInt32} {n : ℕ} (h : w.Fives) :
    ((w.note (.visit b 5)).advance n).Fives where
  disk := h.disk
  seen := by
    intro snap hmem
    rcases List.mem_cons.mp hmem with rfl | hmem
    · rfl
    · exact h.seen snap hmem

/-- Past the end of the file every pointer is dropped. -/
theorem kept_eof {volblocks curfileblock block : UInt32} :
    (kept volblocks 0 curfileblock block).1 = 0 := by
  unfold kept
  split_ifs with hvol hzero hcur
  · rfl
  · exact absurd hcur (UInt32.not_lt.mpr (UInt32.zero_le))
  · rfl
  · exact not_not.mp hzero

/-- A round over an entry that is block 5: the walk goes on and the entry is dropped. -/
def DropsFives (f : Inside L → Fin 128 → Inside L) : Prop :=
  ∀ acc i, acc.1.Fives → acc.2.1 i = 5 → (f acc i).1.Fives ∧ (f acc i).1.sfi = acc.1.sfi ∧
    (f acc i).2.1 = Function.update acc.2.1 i 0

theorem dropsFives_checkEntry {volblocks : UInt32} :
    DropsFives (L := L) (checkEntry volblocks 0) := by
  rintro ⟨w, entries, localchanged⟩ i h hentry
  have hfive : entries i = 5 := hentry
  refine ⟨?_, rfl, ?_⟩
  · change ((w.note (.visit w.curfileblock (entries i))).advance 1).Fives
    rw [hfive]
    exact h.visit
  · change Function.update entries i (kept _ _ _ _).1 = _
    rw [kept_eof]

/-- An indirect block of fives is found empty in the end, and dropped. -/
theorem finishBlock_fives {f : Inside L → Fin 128 → Inside L} (hf : DropsFives f)
    {put : UInt32 → Inode L → Inode L} {w : Walk L} (h : w.Fives) (ientry : UInt32) :
    let r := finishBlock put ientry
      ((List.finRange 128).foldl f (w, entriesOf w.disk ientry, false))
    r.1.Fives ∧ r.1.sfi = put 0 w.sfi ∧ r.2.1 = 0 := by
  have hloop := foldl_finRange (f := f) (b := (w, entriesOf w.disk ientry, false))
    (fun j acc => acc.1.Fives ∧ acc.1.sfi = w.sfi ∧
      ∀ m : Fin 128, acc.2.1 m = if (m : ℕ) < j then 0 else 5) ⟨h, rfl, ?_⟩ ?_
  · generalize (List.finRange 128).foldl f (w, entriesOf w.disk ientry, false) = acc at hloop
    obtain ⟨w', entries, localchanged⟩ := acc
    obtain ⟨hfives, hsfi, hentries⟩ := hloop
    have hempty : ∀ i, entries i = 0 := fun i => (hentries i).trans (if_pos i.isLt)
    have hsfi' : w'.sfi = w.sfi := hsfi
    simp only [finishBlock, if_pos hempty, hsfi', and_true]
    exact ⟨hfives.disk, hfives.seen⟩
  · intro m
    rw [h.disk, entriesOf_fives, if_neg (Nat.not_lt_zero _)]
  · rintro j acc ⟨hfives, hsfi, hentries⟩
    obtain ⟨hfives', hsfi', hupdate⟩ := hf acc j hfives ((hentries j).trans (if_neg (lt_irrefl _)))
    refine ⟨hfives', hsfi'.trans hsfi, fun m => ?_⟩
    rw [hupdate]
    by_cases hm : m = j
    · subst hm
      rw [Function.update_self, if_pos (Nat.lt_succ_self _)]
    · have hval : (m : ℕ) ≠ j := fun heq => hm (Fin.ext heq)
      rw [Function.update_of_ne hm, hentries m]
      exact if_congr (by omega) rfl rfl

theorem checkIndirectBlock_fives {w : Walk L} (h : w.Fives) (level : ℕ)
    (put : UInt32 → Inode L → Inode L) :
    let r := checkIndirectBlock 6 0 level put w 5
    r.1.Fives ∧ r.1.sfi = put 0 w.sfi ∧ r.2.1 = 0 := by
  have hvol : (0 : UInt32) < 5 ∧ (5 : UInt32) < 6 := by decide
  induction level generalizing w put with
  | zero =>
    rw [checkIndirectBlock, if_pos hvol]
    exact finishBlock_fives dropsFives_checkEntry h 5
  | succ level ih =>
    rw [checkIndirectBlock, if_pos hvol]
    refine finishBlock_fives (fun acc i hfives hfive => ?_) h 5
    obtain ⟨hfives', hsfi, hzero⟩ := ih hfives fun _ => id
    dsimp only
    rw [hfive, hzero]
    exact ⟨hfives', hsfi, rfl⟩

/-- The loop over the direct blocks. -/
theorem fives_direct {w : Walk L} (h : w.Fives) {Q : Inode L → Prop} (hQ : Q w.sfi)
    (hput : ∀ direct sfi, Q sfi → Q { sfi with direct := direct })
    (hfive : ∀ i, w.sfi.direct i = 5) :
    ((List.finRange L.numD).foldl (checkDirect 6 0) w).Fives ∧
      Q ((List.finRange L.numD).foldl (checkDirect 6 0) w).sfi := by
  have hloop := foldl_finRange (b := w) (f := checkDirect 6 0)
    (fun j w => w.Fives ∧ Q w.sfi ∧ ∀ i : Fin L.numD, j ≤ i → w.sfi.direct i = 5)
    ⟨h, hQ, fun i _ => hfive i⟩ ?_
  · exact ⟨hloop.1, hloop.2.1⟩
  · rintro j w' ⟨hfives, hQ', hrest⟩
    have hj : w'.sfi.direct j = 5 := hrest j (Nat.le_refl _)
    have hvisit : ((w'.note (.visit w'.curfileblock (w'.sfi.direct j))).advance 1).Fives := by
      rw [hj]
      exact hfives.visit
    refine ⟨⟨hvisit.disk, hvisit.seen⟩, hput _ _ hQ', fun i hi => ?_⟩
    exact (Function.update_of_ne (by rintro rfl; omega) _ _).trans (hrest i (by omega))

/-- A loop over the indirect blocks of one level: `field` reads their pointers and `put` stores
one. -/
theorem fives_indirect {n : ℕ} (level : ℕ) (field : Inode L → Fin n → UInt32)
    (put : Fin n → UInt32 → Inode L → Inode L) {w : Walk L} (h : w.Fives)
    (hfield : ∀ i block sfi, field (put i block sfi) = Function.update (field sfi) i block)
    {Q : Inode L → Prop} (hQ : Q w.sfi) (hput : ∀ i block sfi, Q sfi → Q (put i block sfi))
    (hfive : ∀ i, field w.sfi i = 5) :
    ((List.finRange n).foldl (fun w i =>
        (checkIndirectBlock 6 0 level (put i) w (field w.sfi i)).1) w).Fives ∧
      Q ((List.finRange n).foldl (fun w i =>
        (checkIndirectBlock 6 0 level (put i) w (field w.sfi i)).1) w).sfi := by
  have hloop := foldl_finRange (b := w) (f := fun w i =>
      (checkIndirectBlock 6 0 level (put i) w (field w.sfi i)).1)
    (fun j w => w.Fives ∧ Q w.sfi ∧ ∀ i : Fin n, j ≤ i → field w.sfi i = 5)
    ⟨h, hQ, fun i _ => hfive i⟩ ?_
  · exact ⟨hloop.1, hloop.2.1⟩
  · rintro j w' ⟨hfives, hQ', hrest⟩
    obtain ⟨hfives', hsfi, -⟩ := checkIndirectBlock_fives hfives level (put j)
    rw [hrest j (Nat.le_refl _)]
    refine ⟨hfives', ?_, fun i hi => ?_⟩
    · rw [hsfi]
      exact hput j 0 _ hQ'
    · rw [hsfi, hfield, Function.update_of_ne (by rintro rfl; omega)]
      exact hrest i (by omega)

/-- The whole walk comes past block 5 only. -/
theorem fives_checkInodeBlocks (L : Layout) : (L.checkInodeBlocks 6 L.fiveInode fives).Fives := by
  have hstart : Walk.Fives (⟨L.fiveInode, fives, 0, []⟩ : Walk L) :=
    ⟨rfl, fun _ hmem => absurd hmem List.not_mem_nil⟩
  have hfileblocks : sfsRoundup L.fiveInode.size 512 / 512 = 0 := by
    change sfsRoundup 0 512 / 512 = 0
    decide
  simp only [checkInodeBlocks, hfileblocks]
  obtain ⟨hD, hI, hII, hIII⟩ := fives_direct hstart
    (Q := fun sfi => (∀ i, sfi.indirect i = 5) ∧ (∀ i, sfi.dindirect i = 5) ∧
      ∀ i, sfi.tindirect i = 5)
    ⟨fun _ => rfl, fun _ => rfl, fun _ => rfl⟩ (fun _ _ h => h) fun _ => rfl
  obtain ⟨hD, hII, hIII⟩ := fives_indirect 0 Inode.indirect
    (fun i block sfi => { sfi with indirect := Function.update sfi.indirect i block }) hD
    (fun _ _ _ => rfl)
    (Q := fun sfi => (∀ i, sfi.dindirect i = 5) ∧ ∀ i, sfi.tindirect i = 5)
    ⟨hII, hIII⟩ (fun _ _ _ h => h) hI
  obtain ⟨hD, hIII⟩ := fives_indirect 1 Inode.dindirect
    (fun i block sfi => { sfi with dindirect := Function.update sfi.dindirect i block }) hD
    (fun _ _ _ => rfl) (Q := fun sfi => ∀ i, sfi.tindirect i = 5) hIII (fun _ _ _ h => h) hII
  exact (fives_indirect 2 Inode.tindirect
    (fun i block sfi => { sfi with tindirect := Function.update sfi.tindirect i block }) hD
    (fun _ _ _ => rfl) (Q := fun _ => True) trivial (fun _ _ _ _ => trivial) hIII).1

/-- The walk goes further than `bmap` where there are doubly or triply indirect blocks. -/
theorem inomaxIII_lt_total {L : Layout} (h : L.numII ≠ 0 ∨ L.numIII ≠ 0) :
    L.inomaxIII < L.total := by
  rw [inomaxIII, inomaxII, inomaxI, inomaxD, total]
  omega

/-- **With doubly or triply indirect blocks** `bmap` misses what the walk comes past. -/
theorem not_supported {L : Layout} (htotal : L.total < 4294967296)
    (h : L.numII ≠ 0 ∨ L.numIII ≠ 0) : ¬L.Supported := by
  intro hsupported
  have hlt := inomaxIII_lt_total h
  obtain ⟨hcovered, hagree, -⟩ := hsupported 6 L.fiveInode fives
  have hb : (UInt32.ofNat L.inomaxIII).toNat = L.inomaxIII :=
    UInt32.toNat_ofNat_of_lt' (show L.inomaxIII < 4294967296 by omega)
  obtain ⟨snap, hmem, hcov⟩ := hcovered (UInt32.ofNat L.inomaxIII) (by rw [hb]; exact hlt)
  have hbmap := hagree snap hmem _ hcov
  rw [hb, bmap_beyond _ _ (Nat.le_refl _), (fives_checkInodeBlocks L).seen snap hmem] at hbmap
  exact absurd (Option.some.inj hbmap) (by decide)

/-- **The layouts `sfsck` supports.** Of the layouts whose file block numbers fit in 32 bits,
exactly those without doubly and triply indirect blocks. -/
theorem supported_iff {L : Layout} (htotal : L.total < 4294967296) :
    L.Supported ↔ L.numII = 0 ∧ L.numIII = 0 := by
  constructor
  · intro hsupported
    by_contra hne
    exact not_supported htotal (by omega) hsupported
  · rintro ⟨hII, hIII⟩
    exact supported_of_indirect htotal hII hIII

/-- The layout of the shipped `kern/sfs.h`. -/
def shipped : Layout := ⟨15, 1, 0, 0⟩

theorem supported_shipped : shipped.Supported := 
  (supported_iff (by simp [total, shipped])).mpr ⟨rfl, rfl⟩

/-- One doubly indirect block more, and the promise is broken. -/
theorem not_supported_doubly : ¬Supported ⟨15, 1, 1, 0⟩ :=
  not_supported (by simp [total]) (.inl one_ne_zero)

/-- The shipped inode, as an inode of its layout. -/
def ofDinode (sfi : Dinode) : Inode shipped where
  size := sfi.sfiSize
  direct := sfi.sfiDirect
  indirect _ := sfi.sfiIndirect
  dindirect := Fin.elim0
  tindirect := Fin.elim0

/-- For the shipped layout this is the `bmap` of the checker. -/
theorem bmap_shipped (sfi : Dinode) (fileblock : ℕ) (s : State) :
    ∃ block, (Sfsck.bmap sfi fileblock).run s = .done block s ∧
      shipped.bmap (ofDinode sfi) s.disk fileblock = some block := by
  by_cases hdirect : fileblock < 15
  · refine ⟨sfi.sfiDirect ⟨fileblock, hdirect⟩, ?_, bmap_direct (L := shipped) _ _ ⟨_, hdirect⟩⟩
    rw [Sfsck.bmap, dif_pos hdirect]
    rfl
  · by_cases hindirect : fileblock < 143
    · obtain ⟨j, rfl⟩ := Nat.exists_eq_add_of_le (Nat.not_lt.mp hdirect)
      have hj : j < 128 := by omega
      have hoff : (15 + j - 15) % 128 = j := by omega
      have hbmap := bmap_indirect (ofDinode sfi) s.disk (0 : Fin 1) hj
      change shipped.bmap _ _ (15 + 128 * 0 + j) = ibmap s.disk 0 sfi.sfiIndirect j at hbmap
      rw [Nat.mul_zero, Nat.add_zero] at hbmap
      rw [Sfsck.bmap, dif_neg hdirect, if_pos hindirect, hoff, hbmap, Sfsck.ibmap, ibmap]
      split
      · exact ⟨0, rfl, rfl⟩
      · exact ⟨_, rfl, rfl⟩
    · refine ⟨0, ?_, bmap_beyond (L := shipped) _ _ (Nat.not_lt.mp hindirect)⟩
      rw [Sfsck.bmap, dif_neg hdirect, if_neg hindirect]
      rfl

end Layout

end Sfsck

end Os161
