import Os161.Sfsck.Termination

/-!
# Making a volume

`userland/sbin/mksfs/mksfs.c`: the superblock, the free block bitmap and an empty root directory are
written to a disk of a given size.

The root directory it writes is empty in the strict sense: size `0`, no `.` and no `..`, link count
`1`. `sfsck` wants both entries in every directory, can only insert them into room left in the
directory's last block, and finds no such room here.

## Main results

* `mksfs_not_clean` — no volume `mksfs` makes is clean to `sfsck`
-/

namespace Os161

namespace Mksfs

open Sfs

/-- Why `mksfs` gave up. -/
inductive Error where
  /-- "Illegal volume name %s" -/
  | illegalName
  /-- "Filesystem too large -- increase MAXFREEMAPBLOCKS and recompile" -/
  | tooLarge
  /-- "Volume name %s too long" -/
  | nameTooLong
  /-- A failed assertion. -/
  | abort
  deriving DecidableEq

/-- `MAXFREEMAPBLOCKS`. -/
def maxfreemapblocks : UInt32 := 32

/-- `freemapbuf`, by bit. -/
abbrev Bits := UInt32 → Bool

/-- `allocblock`. -/
def allocblock (bits : Bits) (block : UInt32) : Except Error Bits :=
  if bits block then .error .abort else .ok (Function.update bits block true)

/-- `initfreemap`. -/
def initfreemap (fsblocks : UInt32) : Except Error Bits := do
  let freemapbits := sfsFreemapbits fsblocks
  let freemapblocks := sfsFreemapblocks fsblocks
  if maxfreemapblocks < freemapblocks then .error .tooLarge
  else do
    let bits ← allocblock (fun _ => false) sfsSuperBlock
    let bits ← allocblock bits sfsRootdirIno
    let bits ← (List.range freemapblocks.toNat).foldlM (fun bits i =>
      allocblock bits (sfsFreemapStart + UInt32.ofNat i)) bits
    (List.range (freemapbits.toNat - fsblocks.toNat)).foldlM (fun bits i =>
      allocblock bits (fsblocks + UInt32.ofNat i)) bits

/-- `diskwrite`, of the same `disk.c` as the checker's. -/
def diskwrite (d : Disk) (data : Block) (block : UInt32) : Disk :=
  Function.update d (Sfsck.sector block) data

/-- `writesuper`. -/
def writesuper (d : Disk) (volname : List UInt8) (nblocks : UInt32) : Except Error Disk :=
  if 32 ≤ volname.length then .error .nameTooLong
  else .ok (diskwrite d
    (Superblock.toBlock ⟨sfsMagic, nblocks, setCstr Bytes.zero volname, fun _ => 0⟩) sfsSuperBlock)

/-- `writefreemap`. -/
def writefreemap (d : Disk) (bits : Bits) (fsblocks : UInt32) : Disk :=
  (List.range (sfsFreemapblocks fsblocks).toNat).foldl (fun d i =>
    diskwrite d (fun j => mapByte bits i j) (sfsFreemapStart + UInt32.ofNat i)) d

/-- The inode `writerootdir` writes. -/
def rootdir : Dinode where
  sfiSize := 0
  sfiType := sfsTypeDir
  sfiLinkcount := 1
  sfiDirect _ := 0
  sfiIndirect := 0
  sfiWaste _ := 0

/-- `writerootdir`. -/
def writerootdir (d : Disk) : Disk := diskwrite d rootdir.toBlock sfsRootdirIno

/-- The checks of `main` on the volume name: one trailing colon is removed, and neither another
colon nor a slash is allowed. -/
def checkVolname (volname : List UInt8) : Except Error (List UInt8) :=
  match volname.dropWhile (· ≠ 58) with
  | [] => if 47 ∈ volname then .error .illegalName else .ok volname
  | [_] => if 47 ∈ volname.dropLast then .error .illegalName else .ok volname.dropLast
  | _ => .error .illegalName

/-- `main`, for a disk of `size` blocks that holds `d`. -/
def mksfs (volname : List UInt8) (size : UInt32) (d : Disk) : Except Error Disk := do
  let volname ← checkVolname volname
  let bits ← initfreemap size
  let d ← writesuper d volname size
  .ok (writerootdir (writefreemap d bits size))

/-! ### The checker on an empty root directory -/

open Sfsck Prog

/-- What `f` sees of the root directory's inode, and the inode table. -/
def rootView {τ : Type} (f : Block → τ) (s : Sfsck.State) : τ × List Inodeinfo :=
  (f (s.disk sfsRootdirIno), s.inodes)

/-- The size in an inode. -/
def sizeOf (b : Block) : UInt32 := (Dinode.ofBlock b).sfiSize

variable {τ : Type} {f : Block → τ}

/-- A program that keeps both. -/
abbrev KeepsRoot {α : Type} (f : Block → τ) (x : Ck α) : Prop :=
  Keeps (Growth.same (rootView f)) (fun _ => True) x

theorem keepsRoot_modify {g : Sfsck.Core → Sfsck.Core} (h1 : ∀ c, (g c).disk = c.disk)
    (h2 : ∀ c, (g c).inodes = c.inodes) : KeepsRoot f (modify g) := by
  refine keeps_update fun s => ?_
  change (f (s.disk _), s.inodes) = (f ((g s.toCore).disk _), (g s.toCore).inodes)
  rw [h1, h2]

theorem keepsRoot_diskwrite {data : Block} {block : UInt32}
    (h : sector block ≠ sfsRootdirIno) : KeepsRoot f (Sfsck.diskwrite data block) := by
  refine keeps_update fun s => ?_
  change (f (s.disk _), s.inodes) = (f (Function.update s.disk (sector block) data _), s.inodes)
  rw [Function.update_of_ne h.symm]

theorem keepsRoot_warnx (w : Warning) (h : (Event.warn w).isDup = false) :
    KeepsRoot f (warnx w h) :=
  keeps_update fun _ => rfl

theorem keepsRoot_setbadness (code : ℕ) {hc : code ≤ exitUnrecov} :
    KeepsRoot f (setbadness code hc) :=
  keeps_update fun _ => rfl

theorem keepsRoot_domalloc (env : Env) (len : UInt32) : KeepsRoot f (domalloc env len) :=
  keeps_bind keeps_get fun _ => keeps_bind (keepsRoot_modify (fun _ => rfl) fun _ => rfl) fun _ =>
    keeps_ite (keeps_pure ()) (keeps_halt trivial)

theorem keepsRoot_blockinuse (block : UInt32) (how : Usage) (howdesc : UInt32) :
    KeepsRoot f (freemapBlockinuse block how howdesc) :=
  keeps_bind keeps_get fun _ => keeps_bind (keepsRoot_modify (fun _ => rfl) fun _ => rfl) fun _ =>
    keeps_bind (keeps_when (keeps_update fun _ => rfl)) fun _ =>
      keepsRoot_modify (fun _ => rfl) fun _ => rfl

theorem keepsRoot_complain (w : Warning) (h : (Event.warn w).isDup = false) (code : ℕ)
    {hc : code ≤ exitUnrecov} : KeepsRoot f (do warnx w h; setbadness code hc) :=
  keeps_bind (keepsRoot_warnx w h) fun _ => keepsRoot_setbadness _

theorem keepsRoot_assert (p : Prop) [Decidable p] : KeepsRoot f (assert p) :=
  keeps_ite (keeps_pure ()) (keeps_halt trivial)

theorem keepsRoot_sbLoad : KeepsRoot f sbLoad := by
  refine keeps_bind (keeps_bind (keeps_bind keeps_get fun _ => keeps_pure _) fun _ =>
    keeps_pure _) fun sb => ?_
  refine keeps_bind (keepsRoot_modify (fun _ => rfl) fun _ => rfl) fun _ => ?_
  exact keeps_ite (keeps_halt trivial) (keeps_bind (keepsRoot_assert _) fun _ => keepsRoot_assert _)

theorem keepsRoot_sbCheck : KeepsRoot f sbCheck := by
  refine keeps_bind keeps_get fun s => ?_
  refine keeps_bind (keeps_when (keepsRoot_complain _ _ _)) fun _ => ?_
  refine keeps_bind (keeps_when (keepsRoot_complain _ _ _)) fun _ => ?_
  refine keeps_bind (keeps_when (keepsRoot_complain _ _ _)) fun _ => ?_
  refine keeps_bind (keepsRoot_modify (fun _ => rfl) fun _ => rfl) fun _ => ?_
  exact keeps_when (keepsRoot_diskwrite (by decide))

theorem keepsRoot_freemapSetup (env : Env) : KeepsRoot f (freemapSetup env) := by
  refine keeps_bind (keeps_bind keeps_get fun _ => keeps_pure _) fun fsblocks => ?_
  refine keeps_bind (keeps_bind keeps_get fun _ => keeps_pure _) fun mapblocks => ?_
  refine keeps_bind (keepsRoot_domalloc env _) fun _ => ?_
  refine keeps_bind (keepsRoot_domalloc env _) fun _ => ?_
  refine keeps_bind (keepsRoot_modify (fun _ => rfl) fun _ => rfl) fun _ => ?_
  refine keeps_bind (keeps_foldlM (fun _ _ => keepsRoot_blockinuse _ _ _) ()) fun _ => ?_
  exact keeps_bind (keepsRoot_blockinuse _ _ _) fun _ =>
    keeps_foldlM (fun _ _ => keepsRoot_blockinuse _ _ _) ()

theorem keepsRoot_checkPointers {n : ℕ} (ibs : Ibstate) (ptrs : Fin n → UInt32) :
    KeepsRoot f (checkPointers ibs ptrs) := by
  refine keeps_foldlM (fun acc i => keeps_bind ?_ fun _ => keeps_pure _) _
  refine keeps_ite ?_ (keeps_ite (keeps_ite ?_ ?_) (keeps_pure _))
  · exact keeps_bind (keepsRoot_setbadness _) fun _ =>
      keeps_bind (keepsRoot_warnx _ _) fun _ => keeps_pure _
  · exact keeps_bind (keepsRoot_blockinuse _ _ _) fun _ => keeps_pure _
  · refine keeps_bind (keepsRoot_setbadness _) fun _ => keeps_bind ?_ fun _ => keeps_pure _
    refine keepsRoot_modify (fun c => ?_) fun c => ?_ <;> split <;> rfl

/-- The blocks of the bitmap are not the root's. -/
theorem sector_freemap_ne {n : UInt32} {i : ℕ} (h : i < (sfsFreemapblocks n).toNat) :
    sector (sfsFreemapStart + UInt32.ofNat i) ≠ sfsRootdirIno := by
  have hi := toNat_sfsFreemapblocks_le n
  have hnat : (sfsFreemapStart + UInt32.ofNat i).toNat = 2 + i := by
    rw [UInt32.toNat_add, UInt32.toNat_ofNat']
    change (2 + i % 4294967296) % 4294967296 = _
    omega
  rw [sector_of_lt (by omega), ne_eq, ← UInt32.toNat_inj, hnat]
  change ¬2 + i = 1
  omega

theorem wp_freemapCheck_root {W : Watch ckGrowth} {v : τ × List Inodeinfo} {s : Sfsck.State}
    (h : rootView f s = v) :
    wp W freemapCheck (fun _ t => rootView f t = v) (fun _ _ => True) s := by
  refine wp_bind (wp_bind (wp_get fun _ => wp_pure fun _ => ?_))
  have hloop : KeepsRoot f ((List.range (sfsFreemapblocks s.sb.sbNblocks).toNat).foldlM
      checkMapblock (0, 0)) := by
    refine keeps_foldlM_of_mem (fun count i hi => ?_) _
    rw [checkMapblock]
    refine keeps_bind (keeps_bind keeps_get fun _ => keeps_pure _) fun actual => ?_
    refine keeps_bind (keeps_foldlM (fun m j => ?_) _) fun m => ?_
    · have hreport : ∀ val free, KeepsRoot f (reportfreemap i j val free) := fun val free =>
        keeps_foldlM (fun _ _ => keeps_when (keepsRoot_warnx _ _)) ()
      refine keeps_bind keeps_get fun u => ?_
      refine keeps_bind (keeps_ite (keeps_pure ()) (keeps_halt trivial)) fun _ => ?_
      refine keeps_ite (keeps_pure _) (keeps_ite (keeps_pure _) ?_)
      exact keeps_bind (hreport _ _) fun _ => keeps_bind (hreport _ _) fun _ => keeps_pure _
    · refine keeps_bind (keeps_when ?_) fun _ => keeps_pure _
      exact keepsRoot_diskwrite (sector_freemap_ne (List.mem_range.mp hi))
  have hend : ∀ count : ℕ × ℕ, KeepsRoot f (do
      when (0 < count.1) (do
        warnx (.shownFree count.1)
        setbadness exitRecov)
      when (0 < count.2) (do
        warnx (.shownUsed count.2)
        setbadness exitRecov)) := fun count =>
    keeps_bind (keeps_when (keeps_bind (keepsRoot_warnx _ _) fun _ => keepsRoot_setbadness _))
      fun _ => keeps_when (keeps_bind (keepsRoot_warnx _ _) fun _ => keepsRoot_setbadness _)
  exact wp_of_keeps (keeps_bind hloop hend) (fun _ t ht => Eq.trans (Eq.symm ht) h)
    fun _ _ _ _ => trivial

/-- What a program keeps, as a step of a proof. -/
theorem wp_root {W : Watch ckGrowth} {α : Type} {x : Ck α} {v : τ × List Inodeinfo}
    {s : Sfsck.State}
    (hx : KeepsRoot f x) (h : rootView f s = v) :
    wp W x (fun _ t => rootView f t = v) (fun _ _ => True) s :=
  wp_of_keeps hx (fun _ _ ht => Eq.trans (Eq.symm ht) h) fun _ _ _ _ => trivial

theorem wp_inodeAdd_root {env : Env} {ino : UInt32} {type : UInt16} {x : τ} {s : Sfsck.State}
    (h : rootView f s = (x, [])) :
    wp (Watch.any ckGrowth) (inodeAdd env ino type)
      (fun been t => been = false ∧ rootView f t = (x, [⟨ino, 0, false, type⟩]))
      (fun _ _ => True) s := by
  have hins : s.inodes = [] := congrArg Prod.snd h
  refine wp_bind (wp_get fun _ => ?_)
  rw [hins]
  refine wp_bind (wp_bind (wp_get fun _ => ?_))
  refine wp_seq (wp_root (keeps_ite (keeps_pure ()) (keeps_halt trivial)) h) fun _ t _ _ ht => ?_
  refine wp_seq (wp_root (keeps_when (keeps_bind (keepsRoot_domalloc env _) fun _ =>
    keepsRoot_modify (fun _ => rfl) fun _ => rfl)) ht) fun _ u _ _ hu => ?_
  refine wp_update fun _ => wp_pure fun _ => ⟨rfl, ?_⟩
  obtain ⟨hx, hins'⟩ := Prod.mk.inj hu
  change (f (u.disk sfsRootdirIno), u.inodes ++ [_]) = _
  rw [hx, hins']
  rfl

/-- The checks on the blocks of an inode without an indirect block keep its size. -/
theorem wp_checkInodeBlocks_root {W : Watch ckGrowth} {ino : UInt32} {sfi : Dinode} {isdir : Bool}
    {v : τ × List Inodeinfo} {s : Sfsck.State} (hind : sfi.sfiIndirect = 0) (h : rootView f s = v) :
    wp W (checkInodeBlocks ino sfi isdir) (fun r t => r.1.sfiSize = sfi.sfiSize ∧ rootView f t = v)
      (fun _ _ => True) s := by
  have hindirect : ∀ ibs, KeepsRoot f (checkIndirectBlock 1 ibs 0) := by
    intro ibs
    rw [checkIndirectBlock, if_pos (by simp)]
    exact keeps_ite (keeps_bind (keepsRoot_setbadness _) fun _ =>
      keeps_bind (keepsRoot_warnx _ _) fun _ => keeps_pure _) (keeps_pure _)
  rw [checkInodeBlocks, hind]
  refine wp_bind (wp_bind (wp_get fun _ => wp_pure fun _ => ?_))
  refine wp_seq (wp_root (keepsRoot_checkPointers _ _) h) fun r t _ _ ht => ?_
  refine wp_seq (wp_root (hindirect _) ht) fun r' u _ _ hu => ?_
  refine wp_seq (wp_root (keeps_when (keeps_bind (keepsRoot_warnx _ _) fun _ =>
    keepsRoot_setbadness _)) hu) fun _ w _ _ hw => ?_
  exact wp_pure fun _ => ⟨rfl, hw⟩

theorem sfsReaddir_zero (sfi : Dinode) : sfsReaddir sfi 0 = pure [] := rfl

/-- Phase 1 leaves an empty root directory empty, and enters it in the table. -/
theorem wp_pass1Rootdir_root {env : Env} {k : ℕ} {s : Sfsck.State}
    (hroot : s.disk sfsRootdirIno = rootdir.toBlock) (hins : s.inodes = []) :
    wp (Watch.any ckGrowth) (pass1Rootdir env (k + 1))
      (fun _ t => rootView sizeOf t = (0, [⟨sfsRootdirIno, 0, false, sfsTypeDir⟩]))
      (fun _ _ => True) s := by
  have hsector : sector sfsRootdirIno = sfsRootdirIno := sector_of_lt (by decide)
  have hread : Dinode.ofBlock (s.disk (sector sfsRootdirIno)) = rootdir := by
    rw [hsector, hroot, Dinode.ofBlock_toBlock]
  refine wp_bind (wp_bind (wp_bind (wp_get fun _ => wp_pure fun _ => wp_pure fun _ => ?_)))
  rw [hread]
  refine wp_bind (wp_when (fun h => absurd rfl h) fun _ _ => ?_)
  rw [pass1Dir]
  refine wp_bind (wp_update fun _ => ?_)
  refine wp_bind (wp_bind (wp_bind (wp_get fun _ => wp_pure fun _ => wp_pure fun _ => ?_)))
  rw [hread, fixSize, if_neg (by decide)]
  refine wp_bind (wp_pure fun _ => wp_bind (wp_update fun _ => ?_))
  refine wp_bind (wp_bind (wp_update fun _ => ?_))
  refine wp_seq (wp_inodeAdd_root (f := sizeOf) (x := 0) ?_) fun been s1 _ _ hadd => ?_
  · change (sizeOf (s.disk sfsRootdirIno), s.inodes) = _
    rw [sizeOf, hroot, Dinode.ofBlock_toBlock, hins]
    rfl
  obtain ⟨hbeen, h1⟩ := hadd
  rw [hbeen]
  refine wp_seq (wp_root (keepsRoot_blockinuse _ _ _) h1) fun _ s2 _ _ h2 => ?_
  refine wp_seq (wp_root (keeps_when (keeps_bind (keepsRoot_warnx _ _) fun _ =>
    keepsRoot_setbadness _)) h2) fun _ s3 _ _ h3 => ?_
  refine wp_seq (wp_checkInodeBlocks_root rfl h3) fun r s4 _ _ hblocks => ?_
  obtain ⟨hr, h4⟩ := hblocks
  refine wp_seq (Q := fun _ t => rootView sizeOf t = (0, [⟨sfsRootdirIno, 0, false, sfsTypeDir⟩]))
    (wp_when (fun _ => wp_update fun _ => ?_) fun _ _ => h4) fun _ s5 _ _ h5 => ?_
  · obtain ⟨-, hins4⟩ := Prod.mk.inj h4
    change (sizeOf (Function.update s4.disk (sector sfsRootdirIno) r.1.toBlock sfsRootdirIno),
      s4.inodes) = _
    rw [hsector, sizeOf, Function.update_self, Dinode.ofBlock_toBlock, hr, hins4]
    rfl
  refine wp_pure fun _ => ?_
  obtain ⟨sfi, bchanged⟩ := r
  change sfi.sfiSize = 0 at hr
  refine wp_seq (wp_root (keepsRoot_domalloc _ _) h5) fun _ s6 _ _ h6 => ?_
  -- no entries: the two loops have nothing to do
  rw [hr, show (0 : UInt32) / 64 = 0 from rfl, sfsReaddir_zero]
  refine wp_bind (wp_pure fun _ => wp_bind (wp_update fun _ => ?_))
  exact wp_bind (wp_pure fun _ => wp_bind (wp_pure fun _ => wp_pure fun _ => h6))

/-! ### Phase 2 on an empty root directory -/

theorem wp_unrecov {W : Watch ckGrowth} {α : Type} {x : Ck α} {s : Sfsck.State}
    (h : exitUnrecov ≤ s.badness) :
    wp W x (fun _ t => exitUnrecov ≤ t.badness) (fun _ _ => True) s :=
  wp_of_grows (fun _ _ hle => h.trans hle.2.1) fun _ _ _ => trivial

/-- There is no room for the dot entries in a directory of size `0`. -/
theorem wp_pass2Names_empty {W : Watch ckGrowth} {ino parentino : UInt32} {sfi : Dinode}
    {s : Sfsck.State}
    (hsize : sfi.sfiSize = 0) :
    wp W (pass2Names ino parentino sfi 0 []) (fun _ t => exitUnrecov ≤ t.badness)
      (fun _ _ => True) s := by
  rw [pass2Names, hsize]
  refine wp_bind (wp_pure fun _ => wp_bind (wp_pure fun _ => wp_bind (wp_pure fun _ => ?_)))
  refine wp_bind (wp_bind (wp_update fun _ => wp_bind (wp_update fun _ => wp_pure fun _ => ?_)))
  refine wp_unrecov ?_
  change exitUnrecov ≤ max s.badness exitUnrecov
  exact le_max_right _ _

theorem wp_pass2Dir_root {env : Env} {k : ℕ} {s : Sfsck.State} (hsorted : s.inodesSorted = true)
    (h : rootView sizeOf s = (0, [⟨sfsRootdirIno, 0, false, sfsTypeDir⟩])) :
    wp (Watch.any ckGrowth) (pass2Dir env (k + 1) sfsRootdirIno sfsRootdirIno)
      (fun _ t => exitUnrecov ≤ t.badness) (fun _ _ => True) s := by
  obtain ⟨hsize, hins⟩ := Prod.mk.inj h
  have hread : (Dinode.ofBlock (s.disk (sector sfsRootdirIno))).sfiSize = 0 := by
    rw [sector_of_lt (by decide)]
    exact hsize
  have hfind : findLoop s.inodes sfsRootdirIno (s.inodes.length + 1) 0 s.inodes.length =
      some 0 := by
    rw [hins]
    decide
  rw [pass2Dir]
  refine wp_bind (wp_update fun _ => ?_)
  refine wp_bind (wp_bind (wp_bind (wp_get fun _ => ?_)))
  refine wp_bind (wp_ite (fun _ => wp_pure fun _ => ?_) fun hn => absurd hsorted hn)
  refine wp_bind (wp_ite (fun _ => wp_pure fun _ => ?_) fun _ => wp_halt fun _ => trivial)
  dsimp only
  rw [hfind, hins]
  refine wp_pure fun _ => ?_
  refine wp_bind (wp_ite (fun _ => wp_pure fun _ => ?_) fun hn => absurd rfl hn)
  refine wp_bind (wp_ite (fun _ => wp_pure fun _ => ?_) fun hn => absurd rfl hn)
  refine wp_bind (wp_update fun _ => wp_pure fun _ => ?_)
  refine wp_bind (wp_bind (wp_bind (wp_get fun _ => wp_pure fun _ => wp_pure fun _ => ?_)))
  dsimp only
  generalize hsfi : Dinode.ofBlock (s.disk (sector sfsRootdirIno)) = sfi at hread
  rw [hread, show (0 : UInt32) / 64 = 0 from rfl, show sfsRoundup 0 8 = 0 from rfl,
    sfsReaddir_zero]
  refine wp_seq (wp_of_grows (Q := fun _ _ => True) (fun _ _ _ => trivial) fun _ _ _ => trivial)
    fun _ s1 _ _ _ => ?_
  refine wp_seq (wp_of_grows (Q := fun _ _ => True) (fun _ _ _ => trivial) fun _ _ _ => trivial)
    fun _ s2 _ _ _ => ?_
  refine wp_bind (wp_when (fun hn => absurd hn (by decide)) fun _ _ => ?_)
  refine wp_bind (wp_pure fun _ => ?_)
  exact wp_seq (wp_pass2Names_empty hread) fun b s3 _ _ h3 => wp_unrecov h3

/-- The checker does not find a volume with an empty root directory clean. -/
theorem wp_main_empty {env : Env} {img : Disk} (hroot : img sfsRootdirIno = rootdir.toBlock) :
    wp (Watch.any ckGrowth) (main env) (fun _ t => exitUnrecov ≤ t.badness) (fun _ _ => True)
      (start img) := by
  have h0 : rootView id (start img) = (rootdir.toBlock, []) := by
    rw [← hroot]
    rfl
  refine wp_seq (wp_root keepsRoot_sbLoad h0) fun _ s1 _ _ h1 => ?_
  refine wp_seq (wp_root keepsRoot_sbCheck h1) fun _ s2 _ _ h2 => ?_
  refine wp_seq (wp_root (keepsRoot_freemapSetup env) h2) fun _ s3 _ _ h3 => ?_
  obtain ⟨hroot3, hins3⟩ := Prod.mk.inj h3
  refine wp_bind (wp_bind (wp_bind (wp_get fun _ => wp_pure fun _ => ?_)))
  refine wp_bind (wp_post (wp_pass1Rootdir_root hroot3 hins3) fun _ s4 _ _ h4 => ?_)
  refine wp_post (wp_freemapCheck_root h4) fun _ s5 _ _ h5 => ?_
  obtain ⟨hsize5, hins5⟩ := Prod.mk.inj h5
  refine wp_bind (wp_bind (wp_bind (wp_get fun _ => ?_)))
  rw [hins5]
  refine wp_update fun _ => ?_
  refine wp_bind (wp_bind (wp_get fun _ => wp_pure fun _ => ?_))
  refine wp_seq (wp_pass2Dir_root rfl ?_) fun _ s6 _ _ h6 => wp_pure fun _ => wp_unrecov h6
  change (sizeOf (s5.disk sfsRootdirIno), _) = _
  rw [hsize5]

/-- Whatever else it writes, `mksfs` ends by writing the root directory. -/
theorem root_of_mksfs {volname : List UInt8} {size : UInt32} {d img : Disk}
    (h : mksfs volname size d = .ok img) : img sfsRootdirIno = rootdir.toBlock := by
  unfold mksfs at h
  cases hname : checkVolname volname with
  | error e =>
    rw [hname] at h
    cases h
  | ok name =>
    rw [hname] at h
    cases hbits : initfreemap size with
    | error e =>
      rw [hbits] at h
      cases h
    | ok bits =>
      rw [hbits] at h
      cases hsuper : writesuper d name size with
      | error e =>
        change (writesuper d name size >>= _) = _ at h
        rw [hsuper] at h
        cases h
      | ok d' =>
        change (writesuper d name size >>= _) = _ at h
        rw [hsuper] at h
        obtain rfl := Except.ok.inj h
        rw [writerootdir, diskwrite, sector_of_lt (by decide), Function.update_self]

theorem unrecov_of_root {env : Env} {img out : Disk} {code : ℕ}
    (hroot : img sfsRootdirIno = rootdir.toBlock) (h : Finishes env img code out) :
    exitUnrecov ≤ code := by
  obtain ⟨t, hrun, rfl, -⟩ := h
  have hpost := post_of_wp (wp_main_empty hroot) hrun trivial
  exact hpost

/-- **`mksfs` and `sfsck` disagree.** For every disk size and volume name that `mksfs` accepts, a
run of `sfsck` on the volume it makes does not end with `EXIT_CLEAN`. -/
theorem mksfs_not_clean (env : Env) (volname : List UInt8) (size : UInt32) (d img : Disk)
    (h : mksfs volname size d = .ok img) : ∀ out, ¬Finishes env img exitClean out := by
  intro out hfin
  have := unrecov_of_root (root_of_mksfs h) hfin
  exact absurd this (by decide)

/-- An allocator that grants whatever fits below the end of user space. -/
def granting : Env where
  malloc _ n := n.toNat < 2147483648
  bounded _ _ h := lt_of_granted h

/-- A disk of zeros. -/
def blank : Disk := fun _ => Bytes.zero

theorem mksfs_blank : ∃ img, mksfs [118] 4096 blank = .ok img := ⟨_, rfl⟩

theorem mksfs_not_clean_blank :
    ∃ img, mksfs [118] 4096 blank = .ok img ∧ ∀ out, ¬Finishes granting img exitClean out := by
  obtain ⟨img, himg⟩ := mksfs_blank
  exact ⟨img, himg, mksfs_not_clean granting [118] 4096 blank img himg⟩

/-- On a blank disk of 4096 blocks: `mksfs` accepts it, and `sfsck` does not find the result clean
and unchanged. -/
theorem mksfs_blank_rejected :
    ¬∀ img, mksfs [118] 4096 blank = .ok img → Finishes granting img exitClean img := by
  intro hclean
  obtain ⟨img, himg⟩ := mksfs_blank
  have := unrecov_of_root (root_of_mksfs himg) (hclean img himg)
  exact absurd this (by decide)

end Mksfs

end Os161
