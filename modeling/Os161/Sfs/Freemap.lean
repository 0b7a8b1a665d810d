import Os161.Mksfs
import Os161.Sfs.Vnops

/-!
# The free block bitmap, from `mksfs` to the kernel

`mksfs` writes the bitmap bit by bit into a buffer of its own; the kernel reads the blocks into a
`struct bitmap` and allocates from that. Both take bit `y` of byte `x` for block `8 * x + y`, and
the rounding to whole blocks is the same on both sides, so a fresh volume has exactly the blocks
after the bitmap to give, lowest first.

## Main results

* `Freemap.domount_spec` — what mounting reads
* `Freemap.freemap_agreement` — allocation on a fresh volume, block by block
-/

namespace Os161

namespace Sfs

namespace Freemap

open Prog

/-! ### What `mksfs` writes -/

theorem exists_of_bind {ε α β : Type} {x : Except ε α} {f : α → Except ε β} {b : β}
    (h : x >>= f = .ok b) : ∃ a, x = .ok a ∧ f a = .ok b := by
  cases x with
  | error e => cases h
  | ok a => exact ⟨a, rfl, h⟩

theorem bit_allocblock {bits bits' : Mksfs.Bits} {block : UInt32}
    (h : Mksfs.allocblock bits block = .ok bits') (b : UInt32) :
    bits' b = (bits b || decide (b = block)) := by
  rw [Mksfs.allocblock] at h
  split at h
  · cases h
  · obtain rfl := Except.ok.inj h
    by_cases hb : b = block
    · subst hb
      simp
    · simp [hb]

/-- A loop of `allocblock`. -/
theorem bit_allocblocks {l : List ℕ} {f : ℕ → UInt32} {bits bits' : Mksfs.Bits}
    (h : l.foldlM (fun bits i => Mksfs.allocblock bits (f i)) bits = .ok bits') (b : UInt32) :
    bits' b = (bits b || decide (∃ i ∈ l, b = f i)) := by
  induction l generalizing bits with
  | nil =>
    obtain rfl := Except.ok.inj h
    simp
  | cons i l ih =>
    rw [List.foldlM_cons] at h
    cases hi : Mksfs.allocblock bits (f i) with
    | error e =>
      rw [hi] at h
      cases h
    | ok bits1 =>
      rw [hi] at h
      rw [ih h, bit_allocblock hi]
      simp [Bool.or_assoc]

/-- The number of blocks of the bitmap. -/
def mapBlocks (n : UInt32) : ℕ := (sfsFreemapblocks n).toNat

theorem toNat_freemapbits (n : UInt32) :
    (sfsFreemapbits n).toNat = mapBlocks n * 4096 := by
  have h4096 : (4096 : UInt32).toNat = 4096 := rfl
  have h1 : (1 : UInt32).toNat = 1 := rfl
  rw [mapBlocks, sfsFreemapblocks, sfsFreemapbits, sfsRoundup]
  simp only [UInt32.toNat_div, UInt32.toNat_mul, UInt32.toNat_sub, UInt32.toNat_add, h4096, h1]
  omega

theorem mapBlocks_eq {n : UInt32} (hn : n.toNat ≤ 131072) :
    mapBlocks n = (n.toNat + 4095) / 4096 := by
  have h4096 : (4096 : UInt32).toNat = 4096 := rfl
  have h1 : (1 : UInt32).toNat = 1 := rfl
  rw [mapBlocks, sfsFreemapblocks, sfsFreemapbits, sfsRoundup]
  simp only [UInt32.toNat_div, UInt32.toNat_mul, UInt32.toNat_sub, UInt32.toNat_add, h4096, h1]
  omega

theorem toNat_ofNat_of_lt {i : ℕ} (h : i < 2 ^ 32) : (UInt32.ofNat i).toNat = i := by
  rw [UInt32.toNat_ofNat']
  exact Nat.mod_eq_of_lt h

theorem toNat_add_ofNat {b : UInt32} {i : ℕ} (h : b.toNat + i < 2 ^ 32) :
    (b + UInt32.ofNat i).toNat = b.toNat + i := by
  rw [UInt32.toNat_add, toNat_ofNat_of_lt (by omega)]
  exact Nat.mod_eq_of_lt h

/-- **The bits `mksfs` sets**: the superblock, the root directory, the bitmap itself, and what lies
past the end of the disk. -/
theorem bit_initfreemap {n : UInt32} {bits : Mksfs.Bits} (hn : n.toNat ≤ 131072)
    (h : Mksfs.initfreemap n = .ok bits) {i : ℕ} (hi : i < mapBlocks n * 4096) :
    bits (UInt32.ofNat i) = decide (i < 2 + mapBlocks n ∨ n.toNat ≤ i) := by
  have hF := mapBlocks_eq hn
  have hbits := toNat_freemapbits n
  rw [Mksfs.initfreemap] at h
  split at h
  · cases h
  obtain ⟨bits1, h1, h⟩ := exists_of_bind h
  obtain ⟨bits2, h2, h⟩ := exists_of_bind h
  obtain ⟨bits3, h3, h⟩ := exists_of_bind h
  have hnat : ∀ b : UInt32, UInt32.ofNat i = b ↔ i = b.toNat := by
    intro b
    rw [← UInt32.toNat_inj, toNat_ofNat_of_lt (by omega)]
  have hstart : sfsFreemapStart.toNat = 2 := rfl
  rw [bit_allocblocks h, bit_allocblocks h3, bit_allocblock h2, bit_allocblock h1,
    Bool.eq_iff_iff]
  simp only [Bool.or_eq_true, decide_eq_true_eq, hnat, List.mem_range, Bool.false_eq_true,
    false_or]
  constructor
  · rintro (((h0 | h0) | ⟨j, hj, h0⟩) | ⟨j, hj, h0⟩)
    · exact Or.inl (by rw [h0]; exact Nat.lt_of_lt_of_le Nat.zero_lt_two (Nat.le_add_right _ _))
    · exact Or.inl (by rw [h0]; exact Nat.lt_of_lt_of_le Nat.one_lt_two (Nat.le_add_right _ _))
    · rw [toNat_add_ofNat (by rw [hstart]; change j < mapBlocks n at hj; omega), hstart] at h0
      exact Or.inl (by change j < mapBlocks n at hj; omega)
    · rw [toNat_add_ofNat (by omega)] at h0
      exact Or.inr (by omega)
  · rintro (h0 | h0)
    · by_cases hi0 : i = 0
      · exact Or.inl (Or.inl (Or.inl hi0))
      · by_cases hi1 : i = 1
        · exact Or.inl (Or.inl (Or.inr hi1))
        · refine Or.inl (Or.inr ⟨i - 2, ?_, ?_⟩)
          · change i - 2 < mapBlocks n
            omega
          · rw [toNat_add_ofNat (by rw [hstart]; omega), hstart]
            omega
    · refine Or.inr ⟨i - n.toNat, by omega, ?_⟩
      rw [toNat_add_ofNat (by omega)]
      omega

/-- A byte of the bitmap, bit by bit. -/
theorem testBit_byte : ∀ (c : Fin 8 → Bool) (y : Fin 8),
    (UInt8.ofNat
      (((List.finRange 8).map fun y => if c y then 2 ^ (y : ℕ) else 0).sum)).toNat.testBit
      y = c y := by
  decide +kernel

theorem testBit_mapByte (bits : Mksfs.Bits) (i j : ℕ) {y : ℕ} (hy : y < 8) :
    (mapByte bits i j).toNat.testBit y = bits (UInt32.ofNat (i * 4096 + j * 8 + y)) :=
  testBit_byte (fun y => bits (UInt32.ofNat (i * 4096 + j * 8 + y))) ⟨y, hy⟩

/-- Block `i` of the bitmap with the given bits. -/
def mapBlock (bits : Mksfs.Bits) (i : ℕ) : Block := fun j => mapByte bits i j

/-- The blocks `writefreemap` has written after `m` rounds. -/
theorem writefreemap_rounds (bits : Mksfs.Bits) (d : Disk) {m : ℕ} (hm : m ≤ 1048576) (b : UInt32) :
    (List.range m).foldl (fun d i => Mksfs.diskwrite d (mapBlock bits i)
      (sfsFreemapStart + UInt32.ofNat i)) d b =
      if 2 ≤ b.toNat ∧ b.toNat < 2 + m then mapBlock bits (b.toNat - 2) else d b := by
  induction m with
  | zero =>
    rw [if_neg (by omega)]
    rfl
  | succ m ih =>
    have hstart : sfsFreemapStart.toNat = 2 := rfl
    have hnat : (sfsFreemapStart + UInt32.ofNat m).toNat = 2 + m :=
      toNat_add_ofNat (by rw [hstart]; omega)
    rw [List.range_succ, List.foldl_append, List.foldl_cons, List.foldl_nil, Mksfs.diskwrite,
      Sfsck.sector_of_lt (by rw [hnat]; omega)]
    by_cases hb : b = sfsFreemapStart + UInt32.ofNat m
    · subst hb
      rw [Function.update_self, if_pos (by omega), hnat, Nat.add_sub_cancel_left]
    · have hne : b.toNat ≠ 2 + m := fun h => hb (UInt32.toNat_inj.mp (h.trans hnat.symm))
      rw [Function.update_of_ne hb, ih (by omega)]
      by_cases hlt : 2 ≤ b.toNat ∧ b.toNat < 2 + m
      · rw [if_pos hlt, if_pos (by omega)]
      · rw [if_neg hlt, if_neg (by omega)]

/-- **What `mksfs` leaves on the disk** of the superblock and the bitmap. -/
theorem mksfs_blocks {volname : List UInt8} {n : UInt32} {d img : Disk}
    (h : Mksfs.mksfs volname n d = .ok img) :
    ∃ bits, Mksfs.initfreemap n = .ok bits ∧
      (Superblock.ofBlock (img sfsSuperBlock)).sbMagic = sfsMagic ∧
      (Superblock.ofBlock (img sfsSuperBlock)).sbNblocks = n ∧
      ∀ j < mapBlocks n, img (sfsFreemapStart + UInt32.ofNat j) = mapBlock bits j := by
  rw [Mksfs.mksfs] at h
  obtain ⟨name, hname, h⟩ := exists_of_bind h
  obtain ⟨bits, hbits, h⟩ := exists_of_bind h
  obtain ⟨d1, hd1, h⟩ := exists_of_bind h
  obtain rfl := Except.ok.inj h
  have hm := toNat_sfsFreemapblocks_le n
  have hrounds : ∀ b, Mksfs.writefreemap d1 bits n b = _ := writefreemap_rounds bits d1 hm
  have hsuper : d1 sfsSuperBlock = Superblock.toBlock
      ⟨sfsMagic, n, setCstr Bytes.zero name, fun _ => 0⟩ := by
    rw [Mksfs.writesuper] at hd1
    split at hd1
    · cases hd1
    · obtain rfl := Except.ok.inj hd1
      rw [Mksfs.diskwrite, Sfsck.sector_of_lt (by decide), Function.update_self]
  have hroot : ∀ b, b ≠ sfsRootdirIno → Mksfs.writerootdir (Mksfs.writefreemap d1 bits n) b =
      Mksfs.writefreemap d1 bits n b := by
    intro b hb
    rw [Mksfs.writerootdir, Mksfs.diskwrite, Sfsck.sector_of_lt (by decide),
      Function.update_of_ne hb]
  have h0 : Mksfs.writerootdir (Mksfs.writefreemap d1 bits n) sfsSuperBlock = d1 sfsSuperBlock := by
    rw [hroot _ (by decide), hrounds, if_neg]
    exact fun hc => absurd hc.1 (by decide)
  refine ⟨bits, hbits, ?_, ?_, fun j hj => ?_⟩
  · rw [h0, hsuper, Superblock.ofBlock_toBlock]
  · rw [h0, hsuper, Superblock.ofBlock_toBlock]
  · change j < (sfsFreemapblocks n).toNat at hj
    have hstart : sfsFreemapStart.toNat = 2 := rfl
    have hnat : (sfsFreemapStart + UInt32.ofNat j).toNat = 2 + j :=
      toNat_add_ofNat (by rw [hstart]; omega)
    have hne : sfsFreemapStart + UInt32.ofNat j ≠ sfsRootdirIno := by
      intro hc
      rw [hc] at hnat
      change 1 = 2 + j at hnat
      omega
    rw [hroot _ hne, hrounds, if_pos (by omega), hnat, Nat.add_sub_cancel_left]

/-! ### What mounting reads -/

/-- The block that holds byte `ix` of the bitmap. -/
def homeOf (ix : ℕ) : UInt32 := sfsFreemapStart + UInt32.ofNat (ix / 512)

theorem toNat_homeOf {ix m : ℕ} (hm : m ≤ 1048576) (h : ix < 512 * m) :
    (homeOf ix).toNat = 2 + ix / 512 :=
  toNat_add_ofNat (by change 2 + ix / 512 < 2 ^ 32; omega)

/-- `sfs_freemapio` reads every byte of the bitmap. -/
theorem wp_freemapRead {s : State} (hmedia : ∀ rw k, s.mount.world.media rw k = true)
    (hd : 2 + mapBlocks s.mount.sfsSb.sbNblocks ≤ s.mount.dBlocks.toNat) :
    wp (Watch.any fsGrowth) freemapRead (fun _ t => ∃ k map,
      t = { s with sfsFreemap := map, tick := k } ∧ map.nbits = s.sfsFreemap.nbits ∧
        ∀ ix < 512 * mapBlocks s.mount.sfsSb.sbNblocks,
          map.v ix = (s.disk (homeOf ix)).get (ix % 512)) (fun _ _ => False) s := by
  have hm := toNat_sfsFreemapblocks_le s.mount.sfsSb.sbNblocks
  refine wp_bind (wp_get fun _ => ?_)
  refine wp_foldlM_range (fun j _ t => ∃ k map,
    t = { s with sfsFreemap := map, tick := k } ∧ map.nbits = s.sfsFreemap.nbits ∧
      ∀ ix < 512 * j, map.v ix = (s.disk (homeOf ix)).get (ix % 512))
    ⟨s.tick, s.sfsFreemap, rfl, rfl, fun ix h => absurd h (by omega)⟩ ?_
  rintro j - t hj - ⟨k, map, rfl, hbits, hv⟩
  change j < mapBlocks s.mount.sfsSb.sbNblocks at hj
  have hnat : (sfsFreemapStart + UInt32.ofNat j).toNat = 2 + j :=
    toNat_add_ofNat (by change 2 + j < 2 ^ 32; change mapBlocks _ ≤ _ at hm; omega)
  refine wp_bind (wp_readblock ?_ (fun k' => ?_) fun hbad => ?_)
  · rw [UInt32.lt_iff_toNat_lt, hnat]
    exact Nat.lt_of_lt_of_le (by omega) hd
  · refine wp_modify ⟨k', _, rfl, hbits, fun ix hix => ?_⟩
    change (if ix / 512 = j then (s.disk _).get (ix % 512) else map.v ix) = _
    by_cases hblk : ix / 512 = j
    · rw [if_pos hblk, homeOf, hblk]
    · rw [if_neg hblk]
      exact hv ix (by omega)
  · rw [hmedia] at hbad
    cases hbad

/-- Reading the superblock needs nothing but the device. -/
theorem run_readSuper {world : World} {dBlocks : UInt32} (disk : Disk) (sb : Superblock)
    (map : Bitmap) (tick : ℕ) (hmedia : ∀ rw k, world.media rw k = true) (hd : 0 < dBlocks) :
    ∃ k, (readblock sfsSuperBlock).run (fsCreate world dBlocks disk sb map tick) =
      .done (disk sfsSuperBlock) (fsCreate world dBlocks disk sb map k) := by
  rcases run_readblock sfsSuperBlock (s := fsCreate world dBlocks disk sb map tick) hd
    with ⟨k, hk⟩ | ⟨k, -, hbad⟩
  · exact ⟨k, hk⟩
  · change world.media .read tick = false at hbad
    rw [hmedia] at hbad
    cases hbad

/-- Reading the bitmap, right after the superblock. -/
theorem run_freemapRead {world : World} {dBlocks : UInt32} (disk : Disk) (sb : Superblock)
    (map : Bitmap) (tick : ℕ) (hmedia : ∀ rw k, world.media rw k = true)
    (hd : 2 + mapBlocks sb.sbNblocks ≤ dBlocks.toNat) :
    ∃ k map', freemapRead.run (fsCreate world dBlocks disk sb map tick) =
        .done () (fsCreate world dBlocks disk sb map' k) ∧ map'.nbits = map.nbits ∧
      ∀ ix < 512 * mapBlocks sb.sbNblocks, map'.v ix = (disk (homeOf ix)).get (ix % 512) := by
  obtain ⟨_, t, hrun, ⟨k, map', rfl, hnbits, hv⟩, -⟩ := done_of_wp
    (wp_freemapRead (s := fsCreate world dBlocks disk sb map tick) hmedia hd)
  exact ⟨k, map', hrun, hnbits, hv⟩

/-- **Mounting** a volume on a working device. -/
theorem domount_spec {world : World} {dBlocks : UInt32} {disk : Disk} {sb : Superblock}
    (hmedia : ∀ rw k, world.media rw k = true) (hmem : ∀ k, world.memory k = true)
    (hsb : Superblock.ofBlock (disk sfsSuperBlock) = sb) (hmagic : sb.sbMagic = sfsMagic)
    (hd : 2 + mapBlocks sb.sbNblocks ≤ dBlocks.toNat) :
    ∃ map k, domount world dBlocks disk = .ok (fsCreate world dBlocks disk sb.terminated map k) ∧
      map.nbits = sfsFreemapbits sb.sbNblocks ∧
      ∀ ix < 512 * mapBlocks sb.sbNblocks, map.v ix = (disk (homeOf ix)).get (ix % 512) := by
  have hbits := toNat_freemapbits sb.sbNblocks
  have hcreate : Bitmap.create (sfsFreemapbits sb.sbNblocks) =
      some ⟨sfsFreemapbits sb.sbNblocks, fun _ => 0⟩ := by
    have := (sfsFreemapbits sb.sbNblocks).toNat_lt
    exact Bitmap.create_of_dvd (by omega) (by omega)
  have hpos : 0 < dBlocks := by
    rw [UInt32.lt_iff_toNat_lt]
    change 0 < dBlocks.toNat
    omega
  obtain ⟨k, hk⟩ := run_readSuper disk (Superblock.ofBlock Bytes.zero) ⟨0, fun _ => 0⟩ 1 hmedia hpos
  obtain ⟨k', map, hrun, hnbits, hv⟩ := run_freemapRead disk sb.terminated
    ⟨sfsFreemapbits sb.sbNblocks, fun _ => 0⟩ (k + 1) hmedia hd
  refine ⟨map, k', ?_, hnbits, hv⟩
  rw [domount, hmem 0, if_neg Bool.noConfusion, hk]
  dsimp only
  rw [hsb, if_neg (not_not.mpr hmagic), hmem, if_neg Bool.noConfusion, hcreate]
  dsimp only
  rw [show (fsCreate world dBlocks disk (Superblock.ofBlock Bytes.zero) ⟨0, fun _ => 0⟩ k).tick
    = k from rfl, hrun]

/-! ### Allocating -/

/-- The blocks below `c` are taken and those from `c` on are free; the superblock is on the disk,
and so is the bitmap unless it is dirty. -/
structure Taken (n : UInt32) (c : ℕ) (s : State) : Prop where
  nblocks : s.mount.sfsSb.sbNblocks = n
  nbits : s.sfsFreemap.nbits = sfsFreemapbits n
  bit : ∀ i < mapBlocks n * 4096, s.sfsFreemap.bit i = decide (i < c ∨ n.toNat ≤ i)
  magic : (Superblock.ofBlock (s.disk sfsSuperBlock)).sbMagic = sfsMagic
  super : (Superblock.ofBlock (s.disk sfsSuperBlock)).sbNblocks = n
  clean : s.sfsFreemapdirty = false →
    ∀ ix < 512 * mapBlocks n, s.sfsFreemap.v ix = (s.disk (homeOf ix)).get (ix % 512)

section Taken

variable {n : UInt32} {c : ℕ} {s : State}

/-- The next block is handed out. -/
theorem Taken.next (h : Taken n c s) (hn : n.toNat ≤ 131072) (hlow : 2 + mapBlocks n ≤ c)
    (hc : c < n.toNat) (hmedia : ∀ rw k, s.mount.world.media rw k = true)
    (hd : n.toNat ≤ s.mount.dBlocks.toNat) :
    ∃ t, balloc.run s = .done (UInt32.ofNat c) t ∧ Taken n (c + 1) t ∧ t.mount = s.mount := by
  have hF := mapBlocks_eq hn
  have hbits := toNat_freemapbits n
  have hcnat : (UInt32.ofNat c).toNat = c := toNat_ofNat_of_lt (by omega)
  have hlt : UInt32.ofNat c < s.sfsFreemap.nbits := by
    rw [UInt32.lt_iff_toNat_lt, hcnat, h.nbits, hbits]
    omega
  have halloc := Bitmap.alloc_of_free (b := s.sfsFreemap) (UInt32.ofNat c)
    (by rw [h.nbits, hbits]; omega) hlt
    (by rw [hcnat, h.bit c (by omega)]; exact decide_eq_false (by omega))
    (fun i hi => by rw [hcnat] at hi; rw [h.bit i (by omega)]; exact decide_eq_true (by omega))
  have hrun := run_balloc halloc (by rw [h.nblocks, UInt32.lt_iff_toNat_lt, hcnat]; exact hc)
    (by rw [UInt32.lt_iff_toNat_lt, hcnat]; omega)
  have hdisk : s.written (UInt32.ofNat c) Bytes.zero =
      Function.update s.disk (UInt32.ofNat c) Bytes.zero := by
    rw [State.written, if_pos (hmedia _ _)]
  have hsuper : s.written (UInt32.ofNat c) Bytes.zero sfsSuperBlock = s.disk sfsSuperBlock := by
    rw [hdisk, Function.update_of_ne]
    intro he
    rw [← UInt32.toNat_inj, hcnat] at he
    change 0 = c at he
    omega
  refine ⟨_, hrun, ⟨h.nblocks, h.nbits, fun i hi => ?_, ?_, ?_, fun h => by cases h⟩, rfl⟩
  · change (s.sfsFreemap.set (UInt32.ofNat c)).bit i = _
    rw [Bitmap.bit_set, h.bit i hi, hcnat, Bool.eq_iff_iff]
    simp only [Bool.or_eq_true, decide_eq_true_eq]
    omega
  · change (Superblock.ofBlock (s.written (UInt32.ofNat c) Bytes.zero sfsSuperBlock)).sbMagic = _
    rw [hsuper, h.magic]
  · change (Superblock.ofBlock (s.written (UInt32.ofNat c) Bytes.zero sfsSuperBlock)).sbNblocks = _
    rw [hsuper, h.super]

/-- When no block is left, `ENOSPC`. -/
theorem Taken.full (h : Taken n n.toNat s) : balloc.run s = .halt (.fail .enospc) s := by
  have hbits := toNat_freemapbits n
  have hwords : 8 * (Bitmap.words s.sfsFreemap.nbits).toNat = mapBlocks n * 4096 := by
    have := s.sfsFreemap.nbits.toNat_lt
    rw [Bitmap.toNat_words (by rw [h.nbits] at this ⊢; omega), h.nbits, hbits]
    omega
  refine run_balloc_full (Bitmap.alloc_of_full (fun i h1 h2 => ?_) fun i hi => ?_)
  · rw [h.nbits, hbits] at h1
    omega
  · rw [h.nbits, hbits] at hi
    rw [h.bit i hi]
    exact decide_eq_true (by omega)

/-- Calls of `sfs_balloc`, one after the other. -/
def ballocs : ℕ → Sk (List (Except Errno UInt32))
  | 0 => pure []
  | k + 1 => do
      let r ← trying balloc
      let rs ← ballocs k
      pure (r :: rs)

/-- What `k` calls return when the blocks from `c` on are free: these blocks, lowest first, and then
`ENOSPC`. -/
def handedOut (n : UInt32) (c k : ℕ) : List (Except Errno UInt32) :=
  (List.range' c (min k (n.toNat - c))).map (fun i => .ok (UInt32.ofNat i)) ++
    List.replicate (k - (n.toNat - c)) (.error .enospc)

theorem handedOut_succ (k : ℕ) (hc : c < n.toNat) :
    handedOut n c (k + 1) = .ok (UInt32.ofNat c) :: handedOut n (c + 1) k := by
  rw [handedOut, handedOut, show min (k + 1) (n.toNat - c) = min k (n.toNat - (c + 1)) + 1 by omega,
    List.range'_succ, List.map_cons, List.cons_append,
    show k + 1 - (n.toNat - c) = k - (n.toNat - (c + 1)) by omega]

theorem handedOut_full (k : ℕ) : handedOut n n.toNat k = List.replicate k (.error .enospc) := by
  rw [handedOut, Nat.sub_self, Nat.min_zero, Nat.sub_zero]
  rfl

/-- Any number of calls. -/
theorem Taken.calls (hn : n.toNat ≤ 131072) (k : ℕ) (h : Taken n c s)
    (hlow : 2 + mapBlocks n ≤ c) (hc : c ≤ n.toNat)
    (hmedia : ∀ rw k, s.mount.world.media rw k = true)
    (hd : n.toNat ≤ s.mount.dBlocks.toNat) :
    ∃ t, (ballocs k).run s = .done (handedOut n c k) t ∧ Taken n (min (c + k) n.toNat) t ∧
      t.mount = s.mount := by
  induction k generalizing c s with
  | zero =>
    refine ⟨s, ?_, ?_, rfl⟩
    · rw [ballocs, handedOut, Nat.zero_min, Nat.zero_sub]
      rfl
    · rwa [Nat.add_zero, Nat.min_eq_left hc]
  | succ k ih =>
    rcases Nat.lt_or_eq_of_le hc with hlt | rfl
    · obtain ⟨t, hrun, ht, hmount⟩ := h.next hn hlow hlt hmedia hd
      have htry : (trying balloc).run s = .done (.ok (UInt32.ofNat c)) t := by
        rw [run_trying, hrun]
      obtain ⟨u, hruns, hu, humount⟩ := ih ht (by omega) hlt (by rwa [hmount]) (by rwa [hmount])
      refine ⟨u, ?_, ?_, humount.trans hmount⟩
      · rw [ballocs, run_bind_of_done htry, run_bind_of_done hruns, handedOut_succ k hlt]
        rfl
      · rwa [show c + 1 + k = c + (k + 1) by omega] at hu
    · have htry : (trying balloc).run s = .done (.error .enospc) s := by
        rw [run_trying, h.full]
      obtain ⟨u, hruns, hu, humount⟩ := ih h hlow le_rfl hmedia hd
      refine ⟨u, ?_, ?_, humount⟩
      · rw [handedOut_full] at hruns ⊢
        rw [ballocs, run_bind_of_done htry, run_bind_of_done hruns, List.replicate_succ]
        rfl
      · rwa [Nat.min_eq_right (by omega)] at hu ⊢

/-- `sfs_freemapio` writes every block of the bitmap. -/
theorem wp_freemapWrite (hmedia : ∀ rw k, s.mount.world.media rw k = true)
    (hd : 2 + mapBlocks s.mount.sfsSb.sbNblocks ≤ s.mount.dBlocks.toNat) :
    wp (Watch.any fsGrowth) freemapWrite (fun _ t => ∃ k disk,
      t = { s with disk := disk, writes := k } ∧
      ∀ b : UInt32, disk b =
        if 2 ≤ b.toNat ∧ b.toNat < 2 + mapBlocks s.mount.sfsSb.sbNblocks then
          freemapBlock s.sfsFreemap (b.toNat - 2)
        else s.disk b) (fun _ _ => False) s := by
  have hm := toNat_sfsFreemapblocks_le s.mount.sfsSb.sbNblocks
  refine wp_bind (wp_get fun _ => ?_)
  refine wp_foldlM_range (fun j _ t => ∃ k disk, t = { s with disk := disk, writes := k } ∧
    ∀ b : UInt32, disk b = if 2 ≤ b.toNat ∧ b.toNat < 2 + j then
      freemapBlock s.sfsFreemap (b.toNat - 2) else s.disk b)
    ⟨s.writes, s.disk, rfl, fun b => (if_neg (by omega)).symm⟩ ?_
  rintro j - t hj - ⟨k, disk, rfl, hdisk⟩
  change j < mapBlocks s.mount.sfsSb.sbNblocks at hj
  have hnat : (sfsFreemapStart + UInt32.ofNat j).toNat = 2 + j :=
    toNat_add_ofNat (by change 2 + j < 2 ^ 32; change mapBlocks _ ≤ _ at hm; omega)
  refine wp_writeblock (UInt32.lt_iff_toNat_lt.mpr ?_) ?_
  · rw [hnat]
    exact Nat.lt_of_lt_of_le (by omega) hd
  · refine ⟨k + 1, _, rfl, fun b => ?_⟩
    rw [State.written, if_pos (hmedia _ _)]
    by_cases hb : b = sfsFreemapStart + UInt32.ofNat j
    · subst hb
      rw [Function.update_self, hnat, if_pos (by omega), Nat.add_sub_cancel_left]
    · have hne : b.toNat ≠ 2 + j := fun he => hb (UInt32.toNat_inj.mp (he.trans hnat.symm))
      rw [Function.update_of_ne hb]
      change disk b = _
      rw [hdisk]
      by_cases hlt : 2 ≤ b.toNat ∧ b.toNat < 2 + j
      · rw [if_pos hlt, if_pos (by omega)]
      · rw [if_neg hlt, if_neg (by omega)]

/-- The bitmap is written back where it is dirty. -/
theorem Taken.sync (h : Taken n c s) (hmedia : ∀ rw k, s.mount.world.media rw k = true)
    (hd : 2 + mapBlocks n ≤ s.mount.dBlocks.toNat) :
    ∃ t, syncFreemap.run s = .done () t ∧ t.sfsFreemap = s.sfsFreemap ∧ t.mount = s.mount ∧
      t.disk sfsSuperBlock = s.disk sfsSuperBlock ∧
      ∀ ix < 512 * mapBlocks n, s.sfsFreemap.v ix = (t.disk (homeOf ix)).get (ix % 512) := by
  by_cases hdirty : s.sfsFreemapdirty = true
  · have hm := toNat_sfsFreemapblocks_le n
    obtain ⟨_, t, hrun, ⟨k, disk, rfl, hdisk⟩, -⟩ := done_of_wp
      (wp_freemapWrite hmedia (by rw [h.nblocks]; exact hd))
    rw [h.nblocks] at hdisk
    refine ⟨{ s with disk := disk, writes := k, sfsFreemapdirty := false }, ?_, rfl, rfl, ?_,
      fun ix hix => ?_⟩
    · rw [syncFreemap, run_bind_of_done (run_get s), if_pos hdirty, run_bind_of_done hrun]
      rfl
    · change disk sfsSuperBlock = _
      rw [hdisk, if_neg]
      exact fun hc => absurd hc.1 (by decide)
    · change _ = (disk (homeOf ix)).get (ix % 512)
      rw [hdisk, toNat_homeOf hm hix, if_pos (by omega),
        Nat.add_sub_cancel_left, freemapBlock, Bytes.get_ofFn _ (Nat.mod_lt _ (by omega)),
        Nat.div_add_mod]
  · refine ⟨s, ?_, rfl, rfl, rfl, h.clean (Bool.eq_false_of_not_eq_true hdirty)⟩
    rw [syncFreemap, run_bind_of_done (run_get s), if_neg hdirty]
    rfl

end Taken

/-- Two bitmaps in the same allocation state. -/
def SameBits (a b : Bitmap) : Prop := a.nbits = b.nbits ∧ ∀ i < a.nbits.toNat, a.bit i = b.bit i

/-- Writing the bitmap back and mounting again leads to the same allocation state. -/
theorem Taken.reload {n : UInt32} {c : ℕ} {s : State} (h : Taken n c s)
    (hmedia : ∀ rw k, s.mount.world.media rw k = true) (hmem : ∀ k, s.mount.world.memory k = true)
    (hd : 2 + mapBlocks n ≤ s.mount.dBlocks.toNat) :
    ∃ t s', syncFreemap.run s = .done () t ∧
      domount s.mount.world s.mount.dBlocks t.disk = .ok s' ∧
      SameBits s'.sfsFreemap s.sfsFreemap := by
  obtain ⟨t, hrun, -, -, hsuper, hv⟩ := h.sync hmedia hd
  have hnb : (Superblock.ofBlock (t.disk sfsSuperBlock)).sbNblocks = n := by rw [hsuper, h.super]
  have hmagic : (Superblock.ofBlock (t.disk sfsSuperBlock)).sbMagic = sfsMagic := by
    rw [hsuper, h.magic]
  obtain ⟨map, k, hmount, hnbits, hmap⟩ := domount_spec hmedia hmem rfl hmagic
    (by rw [hnb]; exact hd)
  rw [hnb] at hnbits hmap
  refine ⟨t, _, hrun, hmount, hnbits.trans h.nbits.symm, fun i hi => ?_⟩
  change map.bit i = s.sfsFreemap.bit i
  change i < map.nbits.toNat at hi
  rw [hnbits, toNat_freemapbits] at hi
  rw [Bitmap.bit, Bitmap.bit, hmap _ (by omega), hv _ (by omega)]

/-- A fresh volume, mounted. -/
theorem taken_of_mksfs {volname : List UInt8} {n : UInt32} {d img : Disk} {world : World}
    {dBlocks : UInt32} (hn : n.toNat ≤ 131072) (h : Mksfs.mksfs volname n d = .ok img)
    (hmedia : ∀ rw k, world.media rw k = true) (hmem : ∀ k, world.memory k = true)
    (hd : 2 + mapBlocks n ≤ dBlocks.toNat) :
    ∃ s, domount world dBlocks img = .ok s ∧ Taken n (2 + mapBlocks n) s ∧
      s.mount.world = world ∧ s.mount.dBlocks = dBlocks := by
  obtain ⟨bits, hbits, hmagic, hnb, hblocks⟩ := mksfs_blocks h
  obtain ⟨map, k, hmount, hnbits, hv⟩ := domount_spec hmedia hmem rfl hmagic (by rw [hnb]; exact hd)
  rw [hnb] at hnbits hv
  refine ⟨_, hmount, ⟨hnb, hnbits, fun i hi => ?_, hmagic, hnb, fun _ => hv⟩, rfl, rfl⟩
  change map.bit i = _
  rw [Bitmap.bit, hv _ (by omega), ← bit_initfreemap hn hbits hi, homeOf, hblocks _ (by omega),
    Bytes.get_of_lt _ (Nat.mod_lt _ (by omega)), mapBlock, testBit_mapByte _ _ _ (by omega)]
  congr 2
  dsimp only
  omega

/-- **The two programs agree on the free block bitmap.** For every disk size that `mksfs` accepts, a
fresh volume mounts, and any number of calls of `sfs_balloc` return the blocks from the end of the
bitmap to the end of the disk, each once and lowest first, and from then on `ENOSPC`; no panic or
`KASSERT` is reached. At every point, writing the bitmap back and mounting again leads to the same
allocation state. -/
theorem freemap_agreement (volname : List UInt8) (n : UInt32) (d img : Disk) (world : World)
    (dBlocks : UInt32) (h3 : 3 ≤ n.toNat) (hn : n.toNat ≤ 32 * 4096)
    (himg : Mksfs.mksfs volname n d = .ok img) (hd : n ≤ dBlocks)
    (hmedia : ∀ rw k, world.media rw k = true) (hmem : ∀ k, world.memory k = true) :
    ∃ s, domount world dBlocks img = .ok s ∧ ∀ k, ∃ t,
      (ballocs k).run s = .done (handedOut n (2 + (sfsFreemapblocks n).toNat) k) t ∧
      ∃ u s', syncFreemap.run t = .done () u ∧ domount world dBlocks u.disk = .ok s' ∧
        SameBits s'.sfsFreemap t.sfsFreemap := by
  have hF := mapBlocks_eq hn
  have hle : n.toNat ≤ dBlocks.toNat := hd
  have hroom : 2 + mapBlocks n ≤ dBlocks.toNat := by omega
  obtain ⟨s, hmount, htaken, rfl, rfl⟩ := taken_of_mksfs hn himg hmedia hmem hroom
  refine ⟨s, hmount, fun k => ?_⟩
  obtain ⟨t, hrun, ht, htm⟩ := htaken.calls hn k le_rfl (by omega) hmedia hle
  rw [← htm] at hmedia hmem hroom ⊢
  obtain ⟨u, s', hsync, hagain, hsame⟩ := ht.reload hmedia hmem hroom
  exact ⟨t, hrun, u, s', hsync, hagain, hsame⟩

/-- A world in which everything works. -/
def working : World := ⟨fun _ _ => true, fun _ => true, fun _ => true⟩

theorem freemap_agreement_blank : ∃ img, Mksfs.mksfs [118] 4096 Mksfs.blank = .ok img ∧
    ∃ s, domount working 4096 img = .ok s ∧
      ∃ t, (ballocs 2).run s = .done [.ok 3, .ok 4] t := by
  obtain ⟨img, himg⟩ := Mksfs.mksfs_blank
  obtain ⟨s, hmount, h⟩ := freemap_agreement [118] 4096 Mksfs.blank img working 4096 (by decide)
    (by decide) himg (by decide) (fun _ _ => rfl) fun _ => rfl
  obtain ⟨t, ht, -⟩ := h 2
  exact ⟨img, himg, s, hmount, t, ht⟩

end Freemap

end Sfs

end Os161
