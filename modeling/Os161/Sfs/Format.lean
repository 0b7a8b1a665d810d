import Os161.Lib.CString

/-!
# The on-disk format of SFS

`kern/include/kern/sfs.h`. A volume is an array of 512-byte blocks. Block `0` is the superblock,
block `1` the inode of the root directory, and the free block bitmap starts at block `2`; an inode
occupies a whole block and is named by that block's number. A directory is a file of 64-byte
entries, eight to a block.

| source                | here                                  |
|-----------------------|---------------------------------------|
| `SFS_BLOCKSIZE`       | `512`                                 |
| `SFS_BITSPERBLOCK`    | `4096`                                |
| `SFS_NDIRECT`         | `15`                                  |
| `SFS_DBPERIDB`        | `128`                                 |
| `SFS_NAMELEN`         | `60`                                  |
| `SFS_VOLNAME_SIZE`    | `32`                                  |
| `SFS_NOINO`           | `0`                                   |
| `sizeof(sfs_direntry)`| `64`                                  |

The structures are read from and written to blocks most significant byte first. On the native,
big-endian machine the `SWAP` macros are the identity, and on a host they convert to and from this
same layout.

## Main results

* `Dinode.ofBlock_toBlock`, `direntriesOf_dirBlock`, `indirectOf_indirectBlock`,
  `Superblock.ofBlock_toBlock` — what is written is what is read
-/

namespace Os161

namespace Sfs

/-- A disk block. -/
abbrev Block := Bytes 512

/-- `SFS_MAGIC`. -/
def sfsMagic : UInt32 := 0xabadf001

/-- `SFS_SUPER_BLOCK`. -/
def sfsSuperBlock : UInt32 := 0

/-- `SFS_ROOTDIR_INO`. -/
def sfsRootdirIno : UInt32 := 1

/-- `SFS_FREEMAP_START`. -/
def sfsFreemapStart : UInt32 := 2

/-- `SFS_TYPE_INVAL`. -/
def sfsTypeInval : UInt16 := 0

/-- `SFS_TYPE_FILE`. -/
def sfsTypeFile : UInt16 := 1

/-- `SFS_TYPE_DIR`. -/
def sfsTypeDir : UInt16 := 2

/-- `SFS_ROUNDUP(a, b)` on 32-bit operands; the addition may wrap around. -/
def sfsRoundup (a b : UInt32) : UInt32 := (a + b - 1) / b * b

/-- `SFS_FREEMAPBITS(nblocks)`. -/
def sfsFreemapbits (nblocks : UInt32) : UInt32 := sfsRoundup nblocks 4096

/-- `SFS_FREEMAPBLOCKS(nblocks)`. -/
def sfsFreemapblocks (nblocks : UInt32) : UInt32 := sfsFreemapbits nblocks / 4096

theorem toNat_sfsFreemapblocks_le (n : UInt32) : (sfsFreemapblocks n).toNat ≤ 1048576 := by
  rw [sfsFreemapblocks, UInt32.toNat_div]
  have := (sfsFreemapbits n).toNat_lt
  change _ / 4096 ≤ _
  omega

/-! ### The superblock -/

/-- `struct sfs_superblock`. -/
@[ext]
structure Superblock where
  /-- `sb_magic`. -/
  sbMagic : UInt32
  /-- `sb_nblocks`. -/
  sbNblocks : UInt32
  /-- `sb_volname`. -/
  sbVolname : Bytes 32
  /-- `reserved`. -/
  reserved : Fin 118 → UInt32

namespace Superblock

/-- The superblock stored in a block. -/
def ofBlock (b : Block) : Superblock where
  sbMagic := b.word 0
  sbNblocks := b.word 1
  sbVolname i := b.get (8 + i)
  reserved i := b.word (10 + i)

/-- The block a superblock is stored as. -/
def toBlock (sb : Superblock) : Block :=
  Bytes.ofFn fun i =>
    if i < 4 then byteOf sb.sbMagic i
    else if i < 8 then byteOf sb.sbNblocks (i - 4)
    else if i < 40 then sb.sbVolname.get (i - 8)
    else (Bytes.ofWords (fun k => if h : k < 118 then sb.reserved ⟨k, h⟩ else 0) : Bytes 472).get
      (i - 40)

theorem get_toBlock_word (sb : Superblock) (w : UInt32) {k : ℕ}
    (h : ∀ i < 4, sb.toBlock.get (4 * k + i) = byteOf w i) : sb.toBlock.word k = w := by
  have h0 := h 0 (by omega)
  rw [Nat.add_zero] at h0
  rw [Bytes.word, h0, h 1 (by omega), h 2 (by omega), h 3 (by omega), beWord_byteOf]

theorem ofBlock_toBlock (sb : Superblock) : ofBlock sb.toBlock = sb := by
  have hget : ∀ i < 512, sb.toBlock.get i = _ := fun i hi => Bytes.get_ofFn _ hi
  refine Superblock.ext ?_ ?_ ?_ ?_
  · refine sb.get_toBlock_word _ fun i hi => ?_
    rw [hget _ (by omega), if_pos (by omega)]
    simp
  · refine sb.get_toBlock_word _ fun i hi => ?_
    rw [hget _ (by omega), if_neg (by omega), if_pos (by omega)]
    congr 1
    omega
  · funext i
    have hi := i.isLt
    change sb.toBlock.get (8 + i) = _
    rw [hget _ (by omega), if_neg (by omega), if_neg (by omega), if_pos (by omega),
      Nat.add_sub_cancel_left, Bytes.get_val]
  · funext k
    have hk := k.isLt
    refine sb.get_toBlock_word _ fun i hi => ?_
    rw [hget _ (by omega), if_neg (by omega), if_neg (by omega), if_neg (by omega),
      Bytes.get_ofWords _ (by omega), show (4 * (10 + (k : ℕ)) + i - 40) / 4 = k by omega,
      show (4 * (10 + (k : ℕ)) + i - 40) % 4 = i by omega, dif_pos hk]

end Superblock

/-! ### Inodes -/

/-- The direct pointers are named by numerals. -/
instance neZeroFifteen : NeZero 15 := ⟨by decide⟩

/-- So are the entries of an indirect block. -/
instance neZeroOneTwentyEight : NeZero 128 := ⟨by decide⟩

/-- `struct sfs_dinode`. -/
@[ext]
structure Dinode where
  /-- `sfi_size`, in bytes. -/
  sfiSize : UInt32
  /-- `sfi_type`. -/
  sfiType : UInt16
  /-- `sfi_linkcount`. -/
  sfiLinkcount : UInt16
  /-- `sfi_direct`. -/
  sfiDirect : Fin 15 → UInt32
  /-- `sfi_indirect`. -/
  sfiIndirect : UInt32
  /-- `sfi_waste`. -/
  sfiWaste : Fin 110 → UInt32

namespace Dinode

/-- The inode stored in a block. -/
def ofBlock (b : Block) : Dinode where
  sfiSize := b.word 0
  sfiType := hiHalf (b.word 1)
  sfiLinkcount := loHalf (b.word 1)
  sfiDirect i := b.word (2 + i)
  sfiIndirect := b.word 17
  sfiWaste i := b.word (18 + i)

/-- The words of an inode. -/
def words (d : Dinode) (k : ℕ) : UInt32 :=
  if k = 0 then d.sfiSize
  else if k = 1 then joinHalves d.sfiType d.sfiLinkcount
  else if h : k - 2 < 15 then d.sfiDirect ⟨k - 2, h⟩
  else if k = 17 then d.sfiIndirect
  else if h : k - 18 < 110 then d.sfiWaste ⟨k - 18, h⟩
  else 0

/-- The block an inode is stored as. -/
def toBlock (d : Dinode) : Block := Bytes.ofWords d.words

theorem word_toBlock (d : Dinode) {k : ℕ} (hk : k < 128) : d.toBlock.word k = d.words k :=
  Bytes.word_ofWords _ (by omega)

@[simp] theorem ofBlock_toBlock (d : Dinode) : ofBlock d.toBlock = d := by
  refine Dinode.ext ?_ ?_ ?_ ?_ ?_ ?_
  · exact d.word_toBlock (by omega)
  · change hiHalf (d.toBlock.word 1) = _
    rw [d.word_toBlock (by omega), words, if_neg (by omega), if_pos rfl, hiHalf_joinHalves]
  · change loHalf (d.toBlock.word 1) = _
    rw [d.word_toBlock (by omega), words, if_neg (by omega), if_pos rfl, loHalf_joinHalves]
  · funext i
    have hi := i.isLt
    change d.toBlock.word (2 + i) = _
    rw [d.word_toBlock (by omega), words, if_neg (by omega), if_neg (by omega),
      dif_pos (by omega)]
    simp
  · change d.toBlock.word 17 = _
    rw [d.word_toBlock (by omega), words, if_neg (by omega), if_neg (by omega),
      dif_neg (by omega), if_pos rfl]
  · funext i
    have hi := i.isLt
    change d.toBlock.word (18 + i) = _
    rw [d.word_toBlock (by omega), words, if_neg (by omega), if_neg (by omega),
      dif_neg (by omega), if_neg (by omega), dif_pos (by omega)]
    simp

/-- What `sfs_balloc` leaves in a fresh inode block. -/
def zero : Dinode := ofBlock Bytes.zero

end Dinode

/-! ### Indirect blocks -/

/-- The pointers stored in an indirect block. -/
def indirectOf (b : Block) : Fin 128 → UInt32 := fun i => b.word i

/-- The block an array of pointers is stored as. -/
def indirectBlock (e : Fin 128 → UInt32) : Block :=
  Bytes.ofWords fun k => if h : k < 128 then e ⟨k, h⟩ else 0

@[simp] theorem indirectOf_indirectBlock (e : Fin 128 → UInt32) :
    indirectOf (indirectBlock e) = e := by
  funext i
  have hi := i.isLt
  change (indirectBlock e).word i = _
  rw [indirectBlock, Bytes.word_ofWords _ (by omega), dif_pos hi]

@[simp] theorem indirectOf_zero : indirectOf Bytes.zero = fun _ => 0 := by
  funext i
  exact Bytes.word_zero _

/-! ### Directory entries -/

/-- `struct sfs_direntry`. -/
@[ext]
structure Direntry where
  /-- `sfd_ino`. -/
  sfdIno : UInt32
  /-- `sfd_name`. -/
  sfdName : Bytes 60

instance : DecidableEq Direntry := fun d e =>
  decidable_of_iff (d.sfdIno = e.sfdIno ∧ d.sfdName = e.sfdName)
    ⟨fun h => Direntry.ext h.1 h.2, fun h => by rw [h]; exact ⟨rfl, rfl⟩⟩

namespace Direntry

/-- The entry `bzero` makes: no file, no name. -/
def empty : Direntry := ⟨0, Bytes.zero⟩

/-- The name of an entry, as a C string. -/
def name (d : Direntry) : List UInt8 := cstr d.sfdName

end Direntry

/-- Entry `j` of a directory block. -/
def direntryOf (b : Block) (j : ℕ) : Direntry where
  sfdIno := b.word (16 * j)
  sfdName i := b.get (64 * j + 4 + i)

/-- The eight entries of a directory block. -/
def direntriesOf (b : Block) : List Direntry := (List.range 8).map (direntryOf b)

/-- The block eight entries are stored as; missing ones are stored as zeros. -/
def dirBlock (es : List Direntry) : Block :=
  Bytes.ofFn fun i =>
    let e := es.getD (i / 64) Direntry.empty
    if i % 64 < 4 then byteOf e.sfdIno (i % 64) else e.sfdName.get (i % 64 - 4)

@[simp] theorem length_direntriesOf (b : Block) : (direntriesOf b).length = 8 := by
  simp [direntriesOf]

theorem direntryOf_dirBlock (es : List Direntry) {j : ℕ} (hj : j < 8) :
    direntryOf (dirBlock es) j = es.getD j Direntry.empty := by
  have hget : ∀ i < 512, (dirBlock es).get i = _ := fun i hi => Bytes.get_ofFn _ hi
  have hbyte : ∀ i < 4, (dirBlock es).get (4 * (16 * j) + i) =
      byteOf (es.getD j Direntry.empty).sfdIno i := by
    intro i hi
    rw [hget _ (by omega)]
    simp only
    rw [if_pos (by omega), show (4 * (16 * j) + i) / 64 = j by omega,
      show (4 * (16 * j) + i) % 64 = i by omega]
  have h0 := hbyte 0 (by omega)
  rw [Nat.add_zero] at h0
  refine Direntry.ext ?_ ?_
  · change (dirBlock es).word (16 * j) = _
    rw [Bytes.word, h0, hbyte 1 (by omega), hbyte 2 (by omega), hbyte 3 (by omega),
      beWord_byteOf]
  · funext i
    have hi := i.isLt
    change (dirBlock es).get (64 * j + 4 + i) = _
    rw [hget _ (by omega)]
    simp only
    rw [if_neg (by omega), show (64 * j + 4 + (i : ℕ)) / 64 = j by omega,
      show (64 * j + 4 + (i : ℕ)) % 64 - 4 = i by omega, Bytes.get_val]

theorem direntriesOf_dirBlock {es : List Direntry} (h : es.length = 8) :
    direntriesOf (dirBlock es) = es := by
  refine List.ext_getElem (by simp [h]) fun j h1 h2 => ?_
  rw [length_direntriesOf] at h1
  simp only [direntriesOf, List.getElem_map, List.getElem_range]
  rw [direntryOf_dirBlock es h1, List.getD_eq_getElem?_getD, List.getElem?_eq_getElem h2,
    Option.getD_some]

theorem direntryOf_zero (j : ℕ) : direntryOf Bytes.zero j = Direntry.empty := by
  refine Direntry.ext ?_ ?_
  · exact Bytes.word_zero _
  · funext i
    exact Bytes.get_zero _

end Sfs

end Os161
