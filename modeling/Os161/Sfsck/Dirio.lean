import Os161.Lib.ByteOrder
import Os161.Sfsck.Discard

/-!
# Directory I/O on any host

`userland/sbin/sfsck/sfs.c` again, for directories, as it runs under OS/161 and as it runs on a host
of either byte order. On a host the `SWAP` macros are `ntohl`, and block numbers are shifted by one,
past the header of the disk image (`HOST` in `userland/sbin/mksfs/disk.c`).

An entry in memory has the inode number that the machine reads there. `swapdir` turns it into the
number as it is on disk, or back, in place: `sfs_writedir` leaves the caller's array swapped, except
for the entries of a last block that is not full, which it writes from a buffer.

## Main results

* `Build.readdir_writedir` — entries written are read back, what is on disk does not depend on the
  host, and entries are lost without an error only if they are empty
-/

namespace Os161

namespace Sfsck

open Sfs Prog

/-- What the checker is compiled for. -/
inductive Build where
  | os161
  /-- `HOST`. -/
  | host (order : ByteOrder)

namespace Build

variable (b : Build)

/-- The byte order of the machine. OS/161 runs on a big-endian one. -/
def order : Build → ByteOrder
  | os161 => .big
  | host order => order

/-- `SWAP32`. -/
def swap32 : Build → UInt32 → UInt32
  | os161, w => w
  | host order, w => order.ntohl w

/-- The sector of the disk, or of the disk image, that `diskread` and `diskwrite` seek to. -/
def place : Build → UInt32 → UInt32
  | os161, block => sector block
  | host _, block => sector (block + 1)

/-- `diskread`. -/
def diskread (block : UInt32) : Ck Block := do
  let s ← Prog.get
  pure (s.disk (b.place block))

/-- `diskwrite`. -/
def diskwrite (data : Block) (block : UInt32) : Ck Unit :=
  modify fun c => { c with disk := Function.update c.disk (b.place block) data }

/-! ### Memory -/

/-- The word at offset `i` of a block in memory. -/
def wordAt (data : Block) (i : ℕ) : UInt32 :=
  b.order.word (data.get i) (data.get (i + 1)) (data.get (i + 2)) (data.get (i + 3))

/-- The entries in a block of memory. -/
def load (data : Block) : ℕ → Direntry := fun j =>
  ⟨b.wordAt data (64 * j), fun i => data.get (64 * j + 4 + i)⟩

/-- The block of memory that holds eight entries. -/
def store (d : ℕ → Direntry) : Block := Bytes.ofFn fun i =>
  if i % 64 < 4 then b.order.byteOf (d (i / 64)).sfdIno (i % 64)
  else (d (i / 64)).sfdName.get (i % 64 - 4)

/-- `swapdir`. -/
def swapdir (sfd : Direntry) : Direntry := { sfd with sfdIno := b.swap32 sfd.sfdIno }

/-- The slots from `k` on overwritten with `n` others. -/
def overwrite (d : ℕ → Direntry) (k n : ℕ) (e : ℕ → Direntry) : ℕ → Direntry := fun x =>
  if k ≤ x ∧ x < k + n then e (x - k) else d x

/-! ### Block mapping -/

/-- `ibmap`, with `swapindir` of the entry it picks. -/
def ibmap (iblock : UInt32) (offset : ℕ) : Ck UInt32 :=
  if iblock = 0 then pure 0
  else do
    let entries ← b.diskread iblock
    assert (offset < 128)
    pure (b.swap32 (b.wordAt entries (4 * offset)))

/-- `bmap`. -/
def bmap (sfi : Dinode) (fileblock : ℕ) : Ck UInt32 :=
  if h : fileblock < 15 then pure (sfi.sfiDirect ⟨fileblock, h⟩)
  else if fileblock < 143 then b.ibmap sfi.sfiIndirect ((fileblock - 15) % 128)
  else pure 0

/-! ### Directory I/O -/

/-- `sfs_readdirblock`. -/
def sfsReaddirblock (diskblock : UInt32) : Ck (ℕ → Direntry) :=
  if diskblock ≠ 0 then do
    let data ← b.diskread diskblock
    pure fun j => b.swapdir (b.load data j)
  else do
    warnx .sparseDirectory
    pure fun _ => Direntry.empty

/-- A round of the loop of `sfs_readdir`: the array, and `left`. -/
def readRound (sfi : Dinode) (acc : (ℕ → Direntry) × UInt32) (i : ℕ) :
    Ck ((ℕ → Direntry) × UInt32) := do
  let (d, left) := acc
  let diskblock ← b.bmap sfi i
  if left < 8 then do
    let buffer ← b.sfsReaddirblock diskblock
    pure (overwrite d (8 * i) left.toNat buffer, left - left)
  else do
    let entries ← b.sfsReaddirblock diskblock
    pure (overwrite d (8 * i) 8 entries, left - 8)

/-- `sfs_readdir` into the array `d`. -/
def sfsReaddir (sfi : Dinode) (d : ℕ → Direntry) (nd : UInt32) : Ck (ℕ → Direntry) := do
  let nblocks := sfsRoundup nd 8 / 8
  let (d, left) ← (List.range nblocks.toNat).foldlM (b.readRound sfi) (d, nd)
  assert (left = 0)
  pure d

/-- `sfs_writedirblock`: the eight entries as it leaves them. -/
def sfsWritedirblock (d : ℕ → Direntry) (diskblock : UInt32) : Ck (ℕ → Direntry) :=
  if diskblock ≠ 0 then do
    let swapped := fun j => b.swapdir (d j)
    b.diskwrite (b.store swapped) diskblock
    pure swapped
  else do
    Prog.when (((List.range 8).any fun j => badEntry (d j)) = true) (do
      warnx .sparseWrite
      setbadness exitUnrecov)
    pure d

/-- A round of the loop of `sfs_writedir`. -/
def writeRound (sfi : Dinode) (acc : (ℕ → Direntry) × UInt32) (i : ℕ) :
    Ck ((ℕ → Direntry) × UInt32) := do
  let (d, left) := acc
  let diskblock ← b.bmap sfi i
  if left < 8 then do
    let buffer := fun j => if j < left.toNat then d (8 * i + j) else Direntry.empty
    let _ ← b.sfsWritedirblock buffer diskblock
    pure (d, left - left)
  else do
    let entries ← b.sfsWritedirblock (fun j => d (8 * i + j)) diskblock
    pure (overwrite d (8 * i) 8 entries, left - 8)

/-- `sfs_writedir`: the array `d` as it leaves it. -/
def sfsWritedir (sfi : Dinode) (d : ℕ → Direntry) (nd : UInt32) : Ck (ℕ → Direntry) := do
  let nblocks := sfsRoundup nd 8 / 8
  let (d, left) ← (List.range nblocks.toNat).foldlM (b.writeRound sfi) (d, nd)
  assert (left = 0)
  pure d

/-! ### What the blocks of a directory are to hold -/

/-- The disk block of block `k` of a file, `0` for none. -/
def blockAt (disk : Disk) (sfi : Dinode) (k : ℕ) : UInt32 :=
  if h : k < 15 then sfi.sfiDirect ⟨k, h⟩
  else if h : k - 15 < 128 then
    if sfi.sfiIndirect = 0 then 0
    else indirectOf (disk (b.place sfi.sfiIndirect)) ⟨k - 15, h⟩
  else 0

/-- The first `n` blocks of a file are on different disk blocks, and none of them is the indirect
block that leads to them. -/
structure Apart (disk : Disk) (sfi : Dinode) (n : ℕ) : Prop where
  distinct : ∀ k < n, ∀ l < n, b.blockAt disk sfi k ≠ 0 → b.blockAt disk sfi l ≠ 0 →
    b.place (b.blockAt disk sfi k) = b.place (b.blockAt disk sfi l) → k = l
  indirect : 15 < n → sfi.sfiIndirect ≠ 0 → ∀ k < n, b.blockAt disk sfi k ≠ 0 →
    b.place (b.blockAt disk sfi k) ≠ b.place sfi.sfiIndirect

/-- Eight entries as they are on disk, whatever the host. -/
def onDisk (d : ℕ → Direntry) : Block := Bytes.ofFn fun i =>
  if i % 64 < 4 then byteOf (d (i / 64)).sfdIno (i % 64)
  else (d (i / 64)).sfdName.get (i % 64 - 4)

/-- Slot `j` of block `k` of a directory with the first `nd` entries of `d`. -/
def slot (d : ℕ → Direntry) (nd k j : ℕ) : Direntry :=
  if 8 * k + j < nd then d (8 * k + j) else Direntry.empty

/-- Some of the entries that have no place on disk is not empty. -/
def Loses (disk : Disk) (sfi : Dinode) (d : ℕ → Direntry) (nd n : ℕ) : Prop :=
  ∃ k < n, b.blockAt disk sfi k = 0 ∧ ∃ j < 8, badEntry (slot d nd k j) = true

/-- The first `n` blocks of the directory have been written, where there are any, and nothing
else. -/
structure Wrote (sfi : Dinode) (d : ℕ → Direntry) (nd n : ℕ) (disk disk' : Disk) : Prop where
  blocks : ∀ k < n, b.blockAt disk sfi k ≠ 0 →
    disk' (b.place (b.blockAt disk sfi k)) = onDisk (slot d nd k)
  others : ∀ x, (∀ k < n, b.blockAt disk sfi k ≠ 0 → x ≠ b.place (b.blockAt disk sfi k)) →
    disk' x = disk x

/-- The number of blocks of a directory. -/
def needed (nd : UInt32) : ℕ := (nd.toNat + 7) / 8

/-- The entries are on disk, in the order of the network, where there are blocks for them. The last
block is filled up with zeros, and nothing else has been written. -/
structure Stored (sfi : Dinode) (d : ℕ → Direntry) (nd : UInt32) (disk disk' : Disk) : Prop where
  ino : ∀ j < nd.toNat, b.blockAt disk sfi (j / 8) ≠ 0 → ∀ i < 4,
    (disk' (b.place (b.blockAt disk sfi (j / 8)))).get (64 * (j % 8) + i) = byteOf (d j).sfdIno i
  name : ∀ j < nd.toNat, b.blockAt disk sfi (j / 8) ≠ 0 → ∀ i : Fin 60,
    (disk' (b.place (b.blockAt disk sfi (j / 8)))).get (64 * (j % 8) + 4 + i) = (d j).sfdName i
  zeros : ∀ j, nd.toNat ≤ j → j < 8 * needed nd → b.blockAt disk sfi (j / 8) ≠ 0 → ∀ i < 64,
    (disk' (b.place (b.blockAt disk sfi (j / 8)))).get (64 * (j % 8) + i) = 0
  others : ∀ x, (∀ k < needed nd, b.blockAt disk sfi k ≠ 0 → x ≠ b.place (b.blockAt disk sfi k)) →
    disk' x = disk x

/-! ### Byte order -/

section Order

variable {b}

theorem byteOf_swap32 (w : UInt32) {i : ℕ} (hi : i < 4) :
    b.order.byteOf (b.swap32 w) i = byteOf w i := by
  cases b with
  | os161 => rfl
  | host order => exact order.byteOf_ntohl w hi

theorem swap32_wordAt (data : Block) (k : ℕ) : b.swap32 (b.wordAt data (4 * k)) = data.word k := by
  cases b with
  | os161 => rfl
  | host order => exact order.ntohl_word _ _ _ _

/-- Entries are read in the order of the network, -/
theorem swapdir_load (data : Block) (j : ℕ) : b.swapdir (b.load data j) = direntryOf data j := by
  refine Direntry.ext ?_ rfl
  change b.swap32 (b.wordAt data (64 * j)) = data.word (16 * j)
  rw [← swap32_wordAt, ← Nat.mul_assoc]

/-- and written in the order of the network. -/
theorem store_swapdir (d : ℕ → Direntry) : b.store (fun j => b.swapdir (d j)) = onDisk d := by
  refine Bytes.ext_get fun i hi => ?_
  rw [store, onDisk, Bytes.get_ofFn _ hi, Bytes.get_ofFn _ hi]
  by_cases h4 : i % 64 < 4
  · rw [if_pos h4, if_pos h4]
    exact byteOf_swap32 _ h4
  · rw [if_neg h4, if_neg h4]
    rfl

theorem byteOf_zero (i : ℕ) : byteOf 0 i = 0 := by
  rw [byteOf, UInt32.toNat_zero, Nat.zero_div]
  rfl

theorem onDisk_congr {d e : ℕ → Direntry} (h : ∀ j < 8, d j = e j) : onDisk d = onDisk e := by
  refine Bytes.ext_get fun i hi => ?_
  rw [onDisk, onDisk, Bytes.get_ofFn _ hi, Bytes.get_ofFn _ hi, h (i / 64) (by omega)]

theorem onDisk_eq_dirBlock (d : ℕ → Direntry) : onDisk d = dirBlock ((List.range 8).map d) := by
  refine Bytes.ext_get fun i hi => ?_
  have hslot : ((List.range 8).map d).getD (i / 64) Direntry.empty = d (i / 64) := by
    have hlen : i / 64 < ((List.range 8).map d).length := by
      rw [List.length_map, List.length_range]
      omega
    rw [List.getD_eq_getElem?_getD, List.getElem?_eq_getElem hlen, List.getElem_map,
      List.getElem_range, Option.getD_some]
  rw [onDisk, dirBlock, Bytes.get_ofFn _ hi, Bytes.get_ofFn _ hi, hslot]

theorem direntryOf_onDisk (d : ℕ → Direntry) {j : ℕ} (hj : j < 8) :
    direntryOf (onDisk d) j = d j := by
  rw [onDisk_eq_dirBlock, direntryOf_dirBlock _ hj, List.getD_eq_getElem?_getD]
  have hlen : j < ((List.range 8).map d).length := by
    rwa [List.length_map, List.length_range]
  rw [List.getElem?_eq_getElem hlen, List.getElem_map, List.getElem_range, Option.getD_some]

end Order

/-! ### Block mapping -/

section Run

variable {b} {W : Watch ckGrowth} {E : Halt → State → Prop} {s : State} {sfi : Dinode}
  {d : ℕ → Direntry} {disk disk' : Disk} {nd n k : ℕ}

theorem wp_diskread {block : UInt32} :
    wp W (b.diskread block) (fun r t => r = s.disk (b.place block) ∧ t = s) E s :=
  wp_bind (wp_get fun _ => wp_pure fun _ => ⟨rfl, rfl⟩)

theorem wp_bmap : wp W (b.bmap sfi k) (fun r t => r = b.blockAt s.disk sfi k ∧ t = s) E s := by
  rw [bmap, blockAt]
  split
  · exact wp_pure fun _ => ⟨rfl, rfl⟩
  · next hdirect =>
    refine wp_ite (fun hk => ?_) fun hk => ?_
    · rw [dif_pos (by omega), ibmap]
      refine wp_ite (fun h0 => ?_) fun h0 => ?_
      · rw [if_pos h0]
        exact wp_pure fun _ => ⟨rfl, rfl⟩
      · rw [if_neg h0]
        refine wp_seq wp_diskread fun r t _ _ ⟨hr, ht⟩ => ?_
        have hoffset : (k - 15) % 128 = k - 15 := Nat.mod_eq_of_lt (by omega)
        refine wp_bind (wp_assert (by omega) (wp_pure fun _ => ⟨?_, ht⟩))
        rw [swap32_wordAt, hr, hoffset]
        rfl
    · rw [dif_neg (by omega)]
      exact wp_pure fun _ => ⟨rfl, rfl⟩

/-- Writing blocks of the directory does not change where the blocks are. -/
theorem Wrote.blockAt_eq (h : Wrote b sfi d nd n disk disk') {m : ℕ} (hap : Apart b disk sfi m)
    (hn : n ≤ m) (hk : k < m) : b.blockAt disk' sfi k = b.blockAt disk sfi k := by
  rw [blockAt, blockAt]
  split
  · rfl
  · split
    · split
      · rfl
      · next hind =>
        rw [h.others]
        intro l hl hmapped
        exact (hap.indirect (by omega) hind l (by omega) hmapped).symm
    · rfl

theorem Wrote.zero (sfi : Dinode) (d : ℕ → Direntry) (nd : ℕ) (disk : Disk) :
    Wrote b sfi d nd 0 disk disk :=
  ⟨fun k hk => absurd hk (Nat.not_lt_zero k), fun _ _ => rfl⟩

/-- A block that is not there is skipped. -/
theorem Wrote.skip (h : Wrote b sfi d nd n disk disk') (h0 : b.blockAt disk sfi n = 0) :
    Wrote b sfi d nd (n + 1) disk disk' := by
  refine ⟨fun k hk hmapped => ?_, fun x hx => h.others x fun k hk => hx k (by omega)⟩
  refine h.blocks k (Nat.lt_of_le_of_ne (by omega) ?_) hmapped
  rintro rfl
  exact hmapped h0

/-- The next block is written. -/
theorem Wrote.step (h : Wrote b sfi d nd n disk disk') (hap : Apart b disk sfi (n + 1))
    (h0 : b.blockAt disk sfi n ≠ 0) :
    Wrote b sfi d nd (n + 1) disk
      (Function.update disk' (b.place (b.blockAt disk sfi n)) (onDisk (slot d nd n))) := by
  refine ⟨fun k hk hmapped => ?_, fun x hx => ?_⟩
  · rcases Nat.lt_or_eq_of_le (Nat.le_of_lt_succ hk) with hlt | rfl
    · rw [Function.update_of_ne, h.blocks k hlt hmapped]
      intro he
      exact absurd (hap.distinct k hk n n.lt_succ_self hmapped h0 he) (Nat.ne_of_lt hlt)
    · exact Function.update_self _ _ _
  · rw [Function.update_of_ne (hx n n.lt_succ_self h0)]
    exact h.others x fun k hk => hx k (by omega)

/-! ### Writing -/

theorem wp_sfsWritedirblock {blk : UInt32} :
    wp W (b.sfsWritedirblock d blk) (fun _ t =>
      (blk ≠ 0 → t.disk = Function.update s.disk (b.place blk) (onDisk d) ∧
        t.badness = s.badness) ∧
      (blk = 0 → t.disk = s.disk ∧
        ((∃ j < 8, badEntry (d j) = true) → t.badness = max s.badness exitUnrecov) ∧
        ((¬ ∃ j < 8, badEntry (d j) = true) → t.badness = s.badness))) E s := by
  have hany : ((List.range 8).any fun j => badEntry (d j)) = true ↔
      ∃ j < 8, badEntry (d j) = true := by
    simp only [List.any_eq_true, List.mem_range]
  rw [sfsWritedirblock]
  refine wp_ite (fun hblk => ?_) fun hblk => ?_
  · refine wp_bind (wp_update fun _ => wp_pure fun _ => ?_)
    refine ⟨fun _ => ⟨?_, rfl⟩, fun h => absurd h hblk⟩
    rw [store_swapdir]
  · refine wp_bind (wp_when (fun hbad => ?_) fun hbad _ => ?_)
    · refine wp_bind (wp_update fun _ => wp_update fun _ => wp_pure fun _ => ?_)
      refine ⟨fun h => absurd h hblk, fun _ => ⟨rfl, fun _ => rfl, fun h => ?_⟩⟩
      exact absurd (hany.mp hbad) h
    · refine wp_pure fun _ => ⟨fun h => absurd h hblk, fun _ => ⟨rfl, fun h => ?_, fun _ => rfl⟩⟩
      exact absurd (hany.mpr h) hbad

theorem loses_succ : Loses b disk sfi d nd (n + 1) ↔ Loses b disk sfi d nd n ∨
    (b.blockAt disk sfi n = 0 ∧ ∃ j < 8, badEntry (slot d nd n j) = true) := by
  constructor
  · rintro ⟨k, hk, hlost⟩
    rcases Nat.lt_or_eq_of_le (Nat.le_of_lt_succ hk) with hlt | rfl
    · exact .inl ⟨k, hlt, hlost⟩
    · exact .inr hlost
  · rintro (⟨k, hk, hlost⟩ | hlost)
    · exact ⟨k, by omega, hlost⟩
    · exact ⟨n, n.lt_succ_self, hlost⟩

/-- What the loop of `sfs_writedir` has done to the disk and to `badness` after `n` rounds. -/
structure Progress (b : Build) (sfi : Dinode) (d : ℕ → Direntry) (nd n : ℕ) (s t : State) :
    Prop where
  wrote : Wrote b sfi d nd n s.disk t.disk
  lost : Loses b s.disk sfi d nd n → t.badness = max s.badness exitUnrecov
  kept : ¬ Loses b s.disk sfi d nd n → t.badness = s.badness

theorem Progress.zero (sfi : Dinode) (d : ℕ → Direntry) (nd : ℕ) (s : State) :
    Progress b sfi d nd 0 s s :=
  ⟨Wrote.zero sfi d nd s.disk, fun ⟨_, hk, _⟩ => absurd hk (Nat.not_lt_zero _), fun _ => rfl⟩

/-- The next block, as `sfs_writedirblock` writes it. -/
theorem wp_writeBlock {buf : ℕ → Direntry} {t : State} (h : Progress b sfi d nd n s t)
    (hap : Apart b s.disk sfi (n + 1)) (hbuf : ∀ j < 8, buf j = slot d nd n j) :
    wp W (b.sfsWritedirblock buf (b.blockAt s.disk sfi n))
      (fun _ u => Progress b sfi d nd (n + 1) s u) E t := by
  have hbad : (∃ j < 8, badEntry (buf j) = true) ↔ ∃ j < 8, badEntry (slot d nd n j) = true := by
    refine exists_congr fun j => and_congr_right fun hj => ?_
    rw [hbuf j hj]
  refine wp_post wp_sfsWritedirblock fun _ u _ _ ⟨hmapped, hsparse⟩ => ?_
  by_cases h0 : b.blockAt s.disk sfi n = 0
  · obtain ⟨hdisk, hlost, hkept⟩ := hsparse h0
    refine ⟨?_, fun hloses => ?_, fun hloses => ?_⟩
    · rw [hdisk]
      exact h.wrote.skip h0
    · by_cases hnow : ∃ j < 8, badEntry (slot d nd n j) = true
      · rw [hlost (hbad.mpr hnow)]
        by_cases hbefore : Loses b s.disk sfi d nd n
        · rw [h.lost hbefore, max_assoc, max_self]
        · rw [h.kept hbefore]
      · rw [hkept fun h => hnow (hbad.mp h)]
        exact h.lost ((loses_succ.mp hloses).resolve_right fun h => hnow h.2)
    · rw [hkept fun h => hloses (loses_succ.mpr (.inr ⟨h0, hbad.mp h⟩))]
      exact h.kept fun h => hloses (loses_succ.mpr (.inl h))
  · obtain ⟨hdisk, hsame⟩ := hmapped h0
    have hloses : Loses b s.disk sfi d nd (n + 1) ↔ Loses b s.disk sfi d nd n :=
      loses_succ.trans (or_iff_left fun h => h0 h.1)
    refine ⟨?_, fun hl => ?_, fun hl => ?_⟩
    · rw [hdisk, onDisk_congr hbuf]
      exact h.wrote.step hap h0
    · rw [hsame]
      exact h.lost (hloses.mp hl)
    · rw [hsame]
      exact h.kept fun h => hl (hloses.mpr h)

/-- The array and `left` before round `n`: the entries from there on are as they were. -/
def Ahead (d : ℕ → Direntry) (nd n : ℕ) (acc : (ℕ → Direntry) × UInt32) : Prop :=
  acc.2.toNat = nd - 8 * n ∧ ∀ x, 8 * n ≤ x → acc.1 x = d x

theorem wp_writeRound {acc : (ℕ → Direntry) × UInt32} {t : State} (h : Progress b sfi d nd n s t)
    (hap : Apart b s.disk sfi (n + 1)) (hahead : Ahead d nd n acc) :
    wp W (b.writeRound sfi acc n)
      (fun acc' u => Ahead d nd (n + 1) acc' ∧ Progress b sfi d nd (n + 1) s u) E t := by
  obtain ⟨d', left⟩ := acc
  obtain ⟨hleft, hrest⟩ := hahead
  dsimp only at hleft hrest
  have h8 : (8 : UInt32).toNat = 8 := rfl
  refine wp_seq wp_bmap fun blk t' _ _ ⟨hblk, ht⟩ => ?_
  subst hblk ht
  rw [h.wrote.blockAt_eq hap n.le_succ n.lt_succ_self]
  refine wp_ite (fun hlt => ?_) fun hlt => ?_
  · rw [UInt32.lt_iff_toNat_lt, h8] at hlt
    -- the last block, filled up with empty entries
    refine wp_seq (wp_writeBlock h hap fun j hj => ?_) fun _ u _ _ hu =>
      wp_pure fun _ => ⟨⟨?_, fun x hx => hrest x (by omega)⟩, hu⟩
    · rw [slot]
      by_cases hj : 8 * n + j < nd
      · rw [if_pos (by omega), if_pos hj]
        exact hrest _ (by omega)
      · rw [if_neg (by omega), if_neg hj]
    · rw [UInt32.sub_self]
      exact (Nat.sub_eq_zero_of_le (by omega)).symm
  · rw [UInt32.lt_iff_toNat_lt, h8] at hlt
    refine wp_seq (wp_writeBlock h hap fun j hj => ?_) fun e u _ _ hu =>
      wp_pure fun _ => ⟨⟨?_, fun x hx => ?_⟩, hu⟩
    · rw [slot, if_pos (by omega)]
      exact hrest _ (by omega)
    · dsimp only
      rw [UInt32.toNat_sub_of_le _ _ (UInt32.le_iff_toNat_le.mpr (by omega)), h8]
      omega
    · dsimp only
      rw [overwrite, if_neg (by omega)]
      exact hrest x (by omega)

/-- The first rounds of the loop of `sfs_writedir`. -/
theorem wp_writeRounds {m : ℕ} {nd : UInt32} (hap : Apart b s.disk sfi m) :
    wp W ((List.range m).foldlM (b.writeRound sfi) (d, nd))
      (fun acc t => Ahead d nd.toNat m acc ∧ Progress b sfi d nd.toNat m s t) E s := by
  refine wp_foldlM_range (fun n acc t => Ahead d nd.toNat n acc ∧ Progress b sfi d nd.toNat n s t)
    ⟨⟨rfl, fun _ _ => rfl⟩, Progress.zero sfi d nd.toNat s⟩ fun n acc t hn _ ⟨hahead, h⟩ => ?_
  refine wp_writeRound h ⟨fun k hk l hl => ?_, fun h15 hind k hk => ?_⟩ hahead
  · exact hap.distinct k (by omega) l (by omega)
  · exact hap.indirect (by omega) hind k (by omega)

theorem toNat_nblocks {nd : UInt32} (hnd : nd.toNat + 7 < 2 ^ 32) :
    (sfsRoundup nd 8 / 8).toNat = needed nd := by
  have h8 : (8 : UInt32).toNat = 8 := rfl
  have h7 : (nd + 8 - 1).toNat = nd.toNat + 7 := by
    rw [UInt32.toNat_sub, UInt32.toNat_add, UInt32.toNat_one, h8]
    omega
  rw [sfsRoundup, UInt32.toNat_div, UInt32.toNat_mul, UInt32.toNat_div, h7, h8, needed]
  omega

theorem wp_sfsWritedir {nd : UInt32} (hnd : nd.toNat + 7 < 2 ^ 32)
    (hap : Apart b s.disk sfi (needed nd)) :
    wp W (b.sfsWritedir sfi d nd) (fun _ t => Progress b sfi d nd.toNat (needed nd) s t) E s := by
  rw [sfsWritedir, toNat_nblocks hnd]
  refine wp_seq (wp_writeRounds hap) fun acc t _ _ ⟨hahead, h⟩ => ?_
  refine wp_bind (wp_assert ?_ (wp_pure fun _ => h))
  rw [← UInt32.toNat_inj, hahead.1, needed]
  exact Nat.sub_eq_zero_of_le (by omega)

/-! ### Reading -/

/-- Entry `x` of the directory, empty if there is no block for it. -/
def entryAt (b : Build) (disk : Disk) (sfi : Dinode) (x : ℕ) : Direntry :=
  if b.blockAt disk sfi (x / 8) = 0 then Direntry.empty
  else direntryOf (disk (b.place (b.blockAt disk sfi (x / 8)))) (x % 8)

theorem wp_sfsReaddirblock :
    wp W (b.sfsReaddirblock (b.blockAt s.disk sfi k)) (fun e t =>
      t.toCore = s.toCore ∧ ∀ j < 8, e j = entryAt b s.disk sfi (8 * k + j)) E s := by
  rw [sfsReaddirblock]
  refine wp_ite (fun hblk => ?_) fun hblk => ?_
  · refine wp_seq wp_diskread fun data t _ _ ⟨hdata, ht⟩ => wp_pure fun _ => ?_
    subst hdata ht
    refine ⟨rfl, fun j hj => ?_⟩
    rw [entryAt, show (8 * k + j) / 8 = k by omega, show (8 * k + j) % 8 = j by omega, if_neg hblk]
    exact swapdir_load _ _
  · refine wp_prints (prints_warnx _ _) fun _ t ht => wp_pure fun _ => ⟨ht, fun j hj => ?_⟩
    rw [entryAt, show (8 * k + j) / 8 = k by omega, if_pos (not_not.mp hblk)]

/-- The array and `left` before round `n`: the entries up to there have been read. -/
def Behind (b : Build) (disk : Disk) (sfi : Dinode) (nd n : ℕ) (acc : (ℕ → Direntry) × UInt32) :
    Prop :=
  acc.2.toNat = nd - 8 * n ∧ ∀ x < nd, x < 8 * n → acc.1 x = entryAt b disk sfi x

theorem wp_readRound {acc : (ℕ → Direntry) × UInt32} (h : Behind b s.disk sfi nd n acc) :
    wp W (b.readRound sfi acc n)
      (fun acc' t => t.toCore = s.toCore ∧ Behind b s.disk sfi nd (n + 1) acc') E s := by
  obtain ⟨d, left⟩ := acc
  obtain ⟨hleft, hread⟩ := h
  dsimp only at hleft hread
  have h8 : (8 : UInt32).toNat = 8 := rfl
  refine wp_seq wp_bmap fun blk s' _ _ ⟨hblk, hs⟩ => ?_
  subst hblk hs
  refine wp_ite (fun hlt => ?_) fun hlt => ?_
  · rw [UInt32.lt_iff_toNat_lt, h8] at hlt
    refine wp_seq wp_sfsReaddirblock fun e t _ _ ⟨ht, he⟩ => wp_pure fun _ => ⟨ht, ?_, ?_⟩
    · rw [UInt32.sub_self]
      exact (Nat.sub_eq_zero_of_le (by omega)).symm
    · intro x hx hxn
      dsimp only
      rw [overwrite]
      by_cases hold : x < 8 * n
      · rw [if_neg (by omega)]
        exact hread x hx hold
      · rw [if_pos (by omega), he _ (by omega), Nat.add_sub_cancel' (not_lt.mp hold)]
  · rw [UInt32.lt_iff_toNat_lt, h8] at hlt
    refine wp_seq wp_sfsReaddirblock fun e t _ _ ⟨ht, he⟩ => wp_pure fun _ => ⟨ht, ?_, ?_⟩
    · dsimp only
      rw [UInt32.toNat_sub_of_le _ _ (UInt32.le_iff_toNat_le.mpr (by omega)), h8]
      omega
    · intro x hx hxn
      dsimp only
      rw [overwrite]
      by_cases hold : x < 8 * n
      · rw [if_neg (by omega)]
        exact hread x hx hold
      · rw [if_pos (by omega), he _ (by omega), Nat.add_sub_cancel' (not_lt.mp hold)]

theorem wp_sfsReaddir {nd : UInt32} (hnd : nd.toNat + 7 < 2 ^ 32) :
    wp W (b.sfsReaddir sfi d nd)
      (fun e _ => ∀ x < nd.toNat, e x = entryAt b s.disk sfi x) E s := by
  rw [sfsReaddir, toNat_nblocks hnd]
  refine wp_seq (wp_foldlM_range
    (fun n acc t => t.toCore = s.toCore ∧ Behind b s.disk sfi nd.toNat n acc)
    ⟨rfl, rfl, fun x _ hx => absurd hx (Nat.not_lt_zero x)⟩ fun n acc t _ _ ⟨ht, h⟩ => ?_)
    fun acc t _ _ ⟨_, h⟩ => ?_
  · have hdisk : t.disk = s.disk := congrArg Core.disk ht
    refine wp_post (wp_readRound (hdisk ▸ h)) fun acc' u _ _ ⟨hu, h'⟩ => ⟨hu.trans ht, ?_⟩
    rwa [hdisk] at h'
  · refine wp_bind (wp_assert ?_ (wp_pure fun _ x hx => h.2 x hx ?_))
    · rw [← UInt32.toNat_inj, h.1, needed]
      exact Nat.sub_eq_zero_of_le (by omega)
    · rw [needed]
      omega

/-! ### The checker under OS/161 -/

theorem wp_bmap_os161 :
    wp W (Sfsck.bmap sfi k) (fun r t => r = os161.blockAt s.disk sfi k ∧ t = s) E s := by
  rw [Sfsck.bmap, blockAt]
  split
  · exact wp_pure fun _ => ⟨rfl, rfl⟩
  · refine wp_ite (fun hk => ?_) fun hk => ?_
    · have hentry : k - 15 < 128 := by omega
      rw [dif_pos hentry, Sfsck.ibmap, Nat.mod_eq_of_lt hentry]
      refine wp_ite (fun h0 => ?_) fun h0 => ?_
      · rw [if_pos h0]
        exact wp_pure fun _ => ⟨rfl, rfl⟩
      · rw [if_neg h0]
        refine wp_bind (wp_bind (wp_bind (wp_get fun _ => wp_pure fun _ => wp_pure fun _ => ?_)))
        rw [dif_pos hentry]
        exact wp_pure fun _ => ⟨rfl, rfl⟩
    · rw [dif_neg (by omega)]
      exact wp_pure fun _ => ⟨rfl, rfl⟩

theorem wp_sfsReaddirblock_os161 :
    wp W (Sfsck.sfsReaddirblock (os161.blockAt s.disk sfi k)) (fun l t =>
      l = (List.range 8).map (fun j => entryAt os161 s.disk sfi (8 * k + j)) ∧
        t.toCore = s.toCore) E s := by
  have hentry : ∀ j < 8, entryAt os161 s.disk sfi (8 * k + j) =
      if os161.blockAt s.disk sfi k = 0 then Direntry.empty
      else direntryOf (s.disk (sector (os161.blockAt s.disk sfi k))) j := by
    intro j hj
    rw [entryAt, show (8 * k + j) / 8 = k by omega, show (8 * k + j) % 8 = j by omega]
    rfl
  rw [Sfsck.sfsReaddirblock]
  refine wp_ite (fun hblk => ?_) fun hblk => ?_
  · refine wp_bind (wp_bind (wp_get fun _ => wp_pure fun _ => wp_pure fun _ => ⟨?_, rfl⟩))
    refine List.map_congr_left fun j hj => ?_
    rw [hentry j (List.mem_range.mp hj), if_neg hblk]
  · refine wp_prints (prints_warnx _ _) fun _ t ht => wp_pure fun _ => ⟨?_, ht⟩
    refine List.map_congr_left fun j hj => ?_
    rw [hentry j (List.mem_range.mp hj), if_pos (not_not.mp hblk), direntryOf_zero]

/-- What `sfs_readdir` reads under OS/161. -/
theorem wp_sfsReaddir_os161 {nd : UInt32} :
    wp W (Sfsck.sfsReaddir sfi nd) (fun l t =>
      l = (List.range nd.toNat).map (entryAt os161 s.disk sfi) ∧ t.toCore = s.toCore)
      (fun _ _ => True) s := by
  rw [Sfsck.sfsReaddir]
  refine wp_seq (wp_foldlM_range (fun n l t =>
    l = (List.range (min (8 * n) nd.toNat)).map (entryAt os161 s.disk sfi) ∧ t.toCore = s.toCore)
    ⟨by rw [Nat.mul_zero, Nat.zero_min]; rfl, rfl⟩ fun n l t _ _ ⟨hl, ht⟩ => ?_)
    fun l t _ _ ⟨hl, ht⟩ => ?_
  · have hdisk : t.disk = s.disk := congrArg Core.disk ht
    refine wp_seq wp_bmap_os161 fun blk t' _ _ ⟨hblk, ht'⟩ => ?_
    subst hblk ht'
    refine wp_seq wp_sfsReaddirblock_os161 fun buffer u _ _ ⟨hbuffer, hu⟩ => wp_pure fun _ =>
      ⟨?_, hu.trans ht⟩
    have hlen : l.length = min (8 * n) nd.toNat := by
      rw [hl, List.length_map, List.length_range]
    rw [hlen, hbuffer, hl, hdisk, ← List.map_take, List.take_range]
    by_cases hlast : 8 * n < nd.toNat
    · rw [show min (8 * (n + 1)) nd.toNat = 8 * n + min (nd.toNat - 8 * n) 8 by omega,
        List.range_add, List.map_append, List.map_map, show min (8 * n) nd.toNat = 8 * n by omega]
      rfl
    · rw [show min (8 * (n + 1)) nd.toNat = nd.toNat by omega,
        show min (8 * n) nd.toNat = nd.toNat by omega, Nat.sub_self, Nat.zero_min]
      exact List.append_nil _
  · rw [assert]
    refine wp_bind (wp_ite (fun hlen => wp_pure fun _ => wp_pure fun _ => ⟨?_, ht⟩)
      fun _ => wp_halt fun _ => trivial)
    rw [hl, List.length_map, List.length_range] at hlen
    rw [hl, hlen]

/-! ### The round trip -/

/-- Entry `j` of a directory that has been written. -/
theorem Wrote.entryAt_eq {nd : UInt32} (h : Wrote b sfi d nd.toNat (needed nd) disk disk')
    (hap : Apart b disk sfi (needed nd)) {j : ℕ} (hj : j < nd.toNat)
    (hmapped : b.blockAt disk sfi (j / 8) ≠ 0) : entryAt b disk' sfi j = d j := by
  have hk : j / 8 < needed nd := by
    rw [needed]
    omega
  rw [entryAt, h.blockAt_eq hap le_rfl hk, if_neg hmapped, h.blocks _ hk hmapped,
    direntryOf_onDisk _ (Nat.mod_lt _ (by decide)), slot, Nat.div_add_mod, if_pos hj]

theorem Wrote.stored {nd : UInt32} (h : Wrote b sfi d nd.toNat (needed nd) disk disk') :
    Stored b sfi d nd disk disk' := by
  have hblock : ∀ j, j < 8 * needed nd → b.blockAt disk sfi (j / 8) ≠ 0 → ∀ i < 64,
      (disk' (b.place (b.blockAt disk sfi (j / 8)))).get (64 * (j % 8) + i) =
        if i < 4 then byteOf (slot d nd.toNat (j / 8) (j % 8)).sfdIno i
        else (slot d nd.toNat (j / 8) (j % 8)).sfdName.get (i - 4) := by
    intro j hj hmapped i hi
    have hlt : 64 * (j % 8) + i < 512 := by omega
    rw [h.blocks _ (by omega) hmapped, onDisk, Bytes.get_ofFn _ hlt,
      show (64 * (j % 8) + i) / 64 = j % 8 by omega, show (64 * (j % 8) + i) % 64 = i by omega]
  have hslot : ∀ j < nd.toNat, slot d nd.toNat (j / 8) (j % 8) = d j := by
    intro j hj
    rw [slot, Nat.div_add_mod, if_pos hj]
  have hneeded : nd.toNat ≤ 8 * needed nd := by
    rw [needed]
    omega
  refine ⟨fun j hj hmapped i hi => ?_, fun j hj hmapped i => ?_, fun j hj hlast hmapped i hi => ?_,
    h.others⟩
  · rw [hblock j (by omega) hmapped i (by omega), if_pos hi, hslot j hj]
  · have hi := i.isLt
    rw [Nat.add_assoc, hblock j (by omega) hmapped (4 + i) (by omega), if_neg (by omega),
      hslot j hj, Nat.add_sub_cancel_left, Bytes.get_val]
  · rw [hblock j hlast hmapped i hi, slot, Nat.div_add_mod, if_neg (not_lt.mpr hj)]
    split
    · exact byteOf_zero i
    · exact Bytes.get_zero _

end Run

/-- **The round trip.** `sfs_writedir` stores the entries where the directory has blocks, the same
way on any host, and `sfs_readdir` reads them back. What there is no block for is lost; if any of it
was not empty, the checker exits with `EXIT_UNRECOV`. -/
theorem readdir_writedir (s : State) (sfi : Dinode) (d : ℕ → Direntry) (nd : UInt32)
    (hnd : nd.toNat + 7 < 2 ^ 32) (hap : Apart b s.disk sfi (needed nd)) :
    ∃ d' t, (b.sfsWritedir sfi d nd).run s = .done d' t ∧ Stored b sfi d nd s.disk t.disk ∧
      (t.badness = max s.badness exitUnrecov ∨
        t.badness = s.badness ∧ ∀ j < nd.toNat, b.blockAt s.disk sfi (j / 8) = 0 →
          (d j).sfdIno = 0 ∧ (d j).sfdName.get 0 = 0) ∧
      ((∀ k < needed nd, b.blockAt s.disk sfi k ≠ 0) → ∀ e, ∃ d'' u,
        (b.sfsReaddir sfi e nd).run t = .done d'' u ∧ ∀ j < nd.toNat, d'' j = d j) := by
  obtain ⟨d', t, hrun, h⟩ := finishes_of_wp
    (wp_sfsWritedir (b := b) (s := s) (d := d) hnd hap)
  have hblock : ∀ {j}, j < nd.toNat → j / 8 < needed nd := by
    intro j hj
    rw [needed]
    omega
  refine ⟨d', t, hrun, h.wrote.stored, ?_, fun hmapped e => ?_⟩
  · by_cases hloses : Loses b s.disk sfi d nd.toNat (needed nd)
    · exact .inl (h.lost hloses)
    · refine .inr ⟨h.kept hloses, fun j hj h0 => ?_⟩
      have hgood : ¬ badEntry (d j) = true := by
        intro hbad
        refine hloses ⟨j / 8, hblock hj, h0, j % 8, Nat.mod_lt _ (by decide), ?_⟩
        rwa [slot, Nat.div_add_mod, if_pos hj]
      simpa [badEntry] using hgood
  · obtain ⟨d'', u, hread, h'⟩ := finishes_of_wp (x := b.sfsReaddir sfi e nd) (s := t)
      (wp_sfsReaddir hnd)
    refine ⟨d'', u, hread, fun j hj => ?_⟩
    rw [h' j hj]
    exact h.wrote.entryAt_eq hap hj (hmapped _ (hblock hj))

/-- A directory in blocks 10 and 11. -/
def twoBlocks : Dinode where
  sfiSize := 576
  sfiType := sfsTypeDir
  sfiLinkcount := 2
  sfiDirect i := if i = 0 then 10 else if i = 1 then 11 else 0
  sfiIndirect := 0
  sfiWaste _ := 0

theorem readdir_writedir_twoBlocks : ∃ d t,
    ((host .little).sfsWritedir twoBlocks (fun j => ⟨UInt32.ofNat (j + 1), fun _ => 97⟩) 9).run
      (start fun _ => Bytes.zero) = .done d t ∧
    ∀ e, ∃ d' u, ((host .little).sfsReaddir twoBlocks e 9).run t = .done d' u ∧
      ∀ j < 9, d' j = ⟨UInt32.ofNat (j + 1), fun _ => 97⟩ := by
  obtain ⟨d, t, hwrite, -, -, hread⟩ := readdir_writedir (host .little) (start fun _ => Bytes.zero)
    twoBlocks (fun j => ⟨UInt32.ofNat (j + 1), fun _ => 97⟩) 9 (by decide) (by
      refine ⟨fun k hk l hl _ _ h => ?_, fun h15 => absurd h15 (by decide)⟩
      obtain rfl | rfl : k = 0 ∨ k = 1 := Nat.le_one_iff_eq_zero_or_eq_one.mp (Nat.le_of_lt_succ hk)
      all_goals
        obtain rfl | rfl : l = 0 ∨ l = 1 :=
          Nat.le_one_iff_eq_zero_or_eq_one.mp (Nat.le_of_lt_succ hl)
      · rfl
      · exact absurd h (by decide)
      · exact absurd h (by decide)
      · rfl)
  refine ⟨d, t, hwrite, hread fun k hk => ?_⟩
  obtain rfl | rfl : k = 0 ∨ k = 1 := Nat.le_one_iff_eq_zero_or_eq_one.mp (Nat.le_of_lt_succ hk)
  · decide
  · decide

/-- A directory in blocks 10 to 24 and one more, with block 10 for its indirect block too. -/
def ownIndirect : Dinode where
  sfiSize := 8192
  sfiType := sfsTypeDir
  sfiLinkcount := 2
  sfiDirect i := UInt32.ofNat (10 + i)
  sfiIndirect := 10
  sfiWaste _ := 0

/-- What the directory is to hold: names for inode 7. -/
def sevens : ℕ → Direntry := fun _ => ⟨7, fun _ => 97⟩

/-- As an indirect block, block 10 says that the last block is block 30. -/
def ownDisk : Disk := fun x =>
  if x = 10 then indirectBlock fun j => if j = 0 then 30 else 0 else Bytes.zero

theorem toNat_blockAt_ownIndirect {k : ℕ} (hk : k < 16) :
    (os161.blockAt ownDisk ownIndirect k).toNat = if k = 15 then 30 else 10 + k := by
  rw [blockAt]
  split
  · rw [if_neg (by omega)]
    change (UInt32.ofNat (10 + k)).toNat = 10 + k
    rw [UInt32.toNat_ofNat']
    omega
  · obtain rfl : k = 15 := by omega
    change (indirectOf (indirectBlock fun j => if j = 0 then 30 else 0) 0).toNat = 30
    rw [indirectOf_indirectBlock]
    rfl

theorem place_blockAt_ownIndirect {k : ℕ} (hk : k < 16) :
    (os161.place (os161.blockAt ownDisk ownIndirect k)).toNat = if k = 15 then 30 else 10 + k := by
  have hblock := toNat_blockAt_ownIndirect hk
  change (sector _).toNat = _
  rw [sector_of_lt, hblock]
  rw [hblock]
  split <;> omega

theorem place_ownIndirect_inj {k l : ℕ} (hk : k < 16) (hl : l < 16)
    (h : os161.place (os161.blockAt ownDisk ownIndirect k) =
      os161.place (os161.blockAt ownDisk ownIndirect l)) : k = l := by
  have hplace := congrArg UInt32.toNat h
  rw [place_blockAt_ownIndirect hk, place_blockAt_ownIndirect hl] at hplace
  split at hplace <;> split at hplace <;> omega

theorem ownIndirect_apart : Apart os161 ownDisk ownIndirect 15 :=
  ⟨fun k hk l hl _ _ h => place_ownIndirect_inj (by omega) (by omega) h,
    fun h15 => absurd h15 (lt_irrefl 15)⟩

/-- When the first block has been written, the indirect block is full of directory entries, and the
last block is written to block 7, which is not one of the directory's. -/
theorem wp_writedir_ownIndirect :
    wp (Watch.any ckGrowth) (os161.sfsWritedir ownIndirect sevens 128)
      (fun _ t => t.disk 7 = onDisk sevens) (fun _ _ => False) (start ownDisk) := by
  rw [sfsWritedir, show (sfsRoundup 128 8 / 8).toNat = 15 + 1 from rfl, List.range_succ,
    List.foldlM_append]
  refine wp_bind (wp_seq (wp_writeRounds (s := start ownDisk) ownIndirect_apart)
    fun acc t _ _ ⟨hahead, h⟩ => ?_)
  obtain ⟨d, left⟩ := acc
  obtain ⟨hleft, hrest⟩ := hahead
  have hfirst : t.disk 10 = onDisk (slot sevens 128 0) := h.wrote.blocks 0 (by decide) (by decide)
  have hlast : os161.blockAt t.disk ownIndirect 15 = 7 := by
    have hentry := congrArg Direntry.sfdIno
      (direntryOf_onDisk (slot sevens 128 0) (j := 0) (by decide))
    change indirectOf (t.disk 10) ⟨0, _⟩ = 7
    rw [hfirst]
    exact hentry
  have hleft : left = 8 := UInt32.toNat_inj.mp hleft
  subst hleft
  rw [List.foldlM_cons]
  refine wp_bind (wp_seq wp_bmap fun blk u _ _ ⟨hblk, hu⟩ => ?_)
  subst hblk hu
  rw [hlast]
  refine wp_seq wp_sfsWritedirblock fun e v _ _ ⟨hwritten, _⟩ => wp_pure fun _ => ?_
  obtain ⟨hdisk, -⟩ := hwritten (by decide)
  refine wp_pure fun _ => wp_bind (wp_assert rfl (wp_pure fun _ => ?_))
  rw [hdisk, show os161.place 7 = 7 from rfl, Function.update_self]
  exact onDisk_congr fun j _ => hrest _ (Nat.le_add_right _ _)

/-- The directory that is its own indirect block has its blocks on different disk blocks, and yet a
block that is none of them is written. And for more entries than can be rounded up nothing is
written, and the assertion fails. -/
theorem not_readdir_writedir :
    ((∀ k < 16, os161.blockAt ownDisk ownIndirect k ≠ 0) ∧
      (∀ k < 16, ∀ l < 16, os161.place (os161.blockAt ownDisk ownIndirect k) =
        os161.place (os161.blockAt ownDisk ownIndirect l) → k = l) ∧
      (∀ k < 16, os161.place (os161.blockAt ownDisk ownIndirect k) ≠ 7) ∧
      ∃ d t, (os161.sfsWritedir ownIndirect sevens 128).run (start ownDisk) = .done d t ∧
        t.disk 7 ≠ ownDisk 7) ∧
    (os161.sfsWritedir twoBlocks sevens 0xfffffff9).run (start ownDisk) =
      .halt .abort (start ownDisk) := by
  refine ⟨⟨fun k hk h0 => ?_, fun k hk l hl => place_ownIndirect_inj hk hl, fun k hk h7 => ?_, ?_⟩,
    ?_⟩
  · have hblock := toNat_blockAt_ownIndirect hk
    rw [h0, UInt32.toNat_zero] at hblock
    split at hblock <;> omega
  · have hplace := place_blockAt_ownIndirect hk
    rw [h7, show (7 : UInt32).toNat = 7 from rfl] at hplace
    split at hplace <;> omega
  · obtain ⟨d, t, hrun, h7⟩ := finishes_of_wp wp_writedir_ownIndirect
    refine ⟨d, t, hrun, fun h => ?_⟩
    have hblank : onDisk sevens = Bytes.zero := h7.symm.trans h
    have hentry := direntryOf_onDisk sevens (j := 0) (by decide)
    rw [hblank, direntryOf_zero] at hentry
    exact absurd (congrArg Direntry.sfdIno hentry) (by decide)
  · rw [sfsWritedir, show (sfsRoundup 0xfffffff9 8 / 8).toNat = 0 from rfl]
    rfl

end Build

end Sfsck

end Os161
