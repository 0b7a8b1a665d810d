import Os161.Sfs.Reboot
import Os161.Sfs.Entries

/-!
# The directories of a volume

Requests to `kern/fs/sfs/sfs_dir.c`, and to the files beside the directories, in any order, with
syncs and reboots among them. A directory is seen from outside as slots that hold a name and an
inode number, no name twice; looking up, linking and erasing names do what they should to such
slots, whatever happens to the files in between. The `KASSERT` that a name is found at most once,
and the panic on an odd size, are never reached.

A directory is a file, so its slots are a reading of the plain file behind it, and what one request
changes of the volume is said by `Changes` once more.

## Main definitions

* `Directory`, `Consults` — a directory seen from outside, and how it may answer
* `Reads` — a plain file read as a directory
* `Lists` — the volume has these files and directories

## Main results

* `lists_consult` — one request to a directory
* `meet_calls` — any sequence of requests, syncs and reboots
-/

namespace Os161

namespace Sfs

open Prog

/-! ### Directories seen from outside -/

/-- A directory as its users see it: slots with a name and an inode number. -/
structure Directory where
  /-- What is in the slots. -/
  slot : ℕ → Option (List UInt8 × UInt32)
  /-- How many slots there are. -/
  count : ℕ
  /-- A directory has at most `143` blocks of eight entries. -/
  bound : count ≤ 1144
  past : ∀ j, count ≤ j → slot j = none
  distinct : ∀ i j p q, slot i = some p → slot j = some q → p.1 = q.1 → i = j

namespace Directory

/-- The slot `i` is the last one that is empty. -/
def Vacant (d : Directory) (i : ℕ) : Prop :=
  i < d.count ∧ d.slot i = none ∧ ∀ j, i < j → j < d.count → d.slot j ≠ none

/-- Where `sfs_dir_link` puts an entry: into the last slot that is empty, or after the last slot. -/
def Place (d : Directory) (i : ℕ) : Prop :=
  d.Vacant i ∨ i = d.count ∧ ∀ j < d.count, d.slot j ≠ none

/-- The name is in no slot. -/
def Lacks (d : Directory) (name : List UInt8) : Prop := ∀ j p, d.slot j = some p → p.1 ≠ name

/-- The directory `d'` is `d` with the slot `i` set to `p`. -/
structure Put (d d' : Directory) (i : ℕ) (p : Option (List UInt8 × UInt32)) : Prop where
  slot : d'.slot = Function.update d.slot i p
  count : d'.count = max d.count (i + 1)

end Directory

/-- A request to a directory. -/
inductive Inquiry where
  /-- `sfs_dir_findname` -/
  | find (name : List UInt8)
  /-- `sfs_dir_link` -/
  | link (name : List UInt8) (ino : UInt32)
  /-- `sfs_dir_findname`, and `sfs_dir_unlink` on the slot found -/
  | erase (name : List UInt8)

/-- What a directory answers. -/
inductive Reply where
  /-- `*ino`, `*slot` and `*emptyslot` -/
  | found (r : Found)
  /-- `*slot` -/
  | linked (slot : ℕ)
  /-- The name is gone. -/
  | erased
  /-- No answer. -/
  | stopped (e : Stop)

/-- A name to be linked is a C string, and it is linked to an inode. -/
def Inquiry.Proper : Inquiry → Prop
  | .link name ino => (0 : UInt8) ∉ name ∧ ino ≠ 0
  | _ => True

/-- How a directory may answer, and what becomes of it. -/
inductive Consults (d : Directory) : Inquiry → Reply → Directory → Prop
  /-- The name and its slot, if there is one, and the last slot that is empty. -/
  | find {name : List UInt8} {r : Found}
      (hentry : ∀ ino i, r.entry = some (ino, i) ↔ d.slot i = some (name, ino))
      (hempty : ∀ i, r.emptyslot = some i ↔ d.Vacant i) :
      Consults d (.find name) (.found r) d
  /-- The name is there now. -/
  | link {name : List UInt8} {ino : UInt32} {i : ℕ} {d' : Directory} (hnew : d.Lacks name)
      (hlen : name.length < 60) (hi : d.Place i) (hput : d.Put d' i (some (name, ino))) :
      Consults d (.link name ino) (.linked i) d'
  | taken {name : List UInt8} {ino ino' : UInt32} {i : ℕ} (h : d.slot i = some (name, ino')) :
      Consults d (.link name ino) (.stopped (.fail .eexist)) d
  | tooLong {name : List UInt8} {ino : UInt32} (hnew : d.Lacks name) (hlen : 60 ≤ name.length) :
      Consults d (.link name ino) (.stopped (.fail .enametoolong)) d
  /-- There is no block for a new entry. -/
  | linkFull {name : List UInt8} {ino : UInt32} (hnew : d.Lacks name) :
      Consults d (.link name ino) (.stopped (.fail .enospc)) d
  /-- The directory cannot have another slot. -/
  | linkBig {name : List UInt8} {ino : UInt32} (hnew : d.Lacks name) (hi : d.count = 1144)
      (hfull : ∀ j < d.count, d.slot j ≠ none) :
      Consults d (.link name ino) (.stopped (.fail .efbig)) d
  /-- The name is gone. -/
  | erase {name : List UInt8} {ino : UInt32} {i : ℕ} {d' : Directory}
      (hi : d.slot i = some (name, ino)) (hput : d.Put d' i none) :
      Consults d (.erase name) .erased d'
  | missing {name : List UInt8} (h : d.Lacks name) :
      Consults d (.erase name) (.stopped (.fail .enoent)) d
  /-- The entry is in a hole, which cannot be filled. -/
  | eraseFull {name : List UInt8} {ino : UInt32} {i : ℕ} (hi : d.slot i = some (name, ino)) :
      Consults d (.erase name) (.stopped (.fail .enospc)) d

/-! ### The code -/

/-- The slot is looked up, and its entry erased. -/
def eraseEntry (dir : UInt32) (name : List UInt8) : Sk Unit := do
  let r ← dirFindname dir name
  match r.entry with
  | none => fail .enoent
  | some (_, slot) => dirUnlink dir slot

/-- What is replied to the caller. -/
def reply {α : Type} (f : α → Reply) : Outcome Stop State α → State × Reply
  | .done a t => (t, f a)
  | .halt e t => (t, .stopped e)

/-- A request to the directory `dir`, carried out. -/
def State.consult (s : State) (dir : UInt32) : Inquiry → State × Reply
  | .find name => reply Reply.found ((dirFindname dir name).run s)
  | .link name ino => reply Reply.linked ((dirLink dir name ino).run s)
  | .erase name => reply (fun _ => Reply.erased) ((eraseEntry dir name).run s)

/-! ### A file read as a directory -/

/-- The entry in a slot, if it is occupied. -/
def Direntry.listed (e : Direntry) : Option (List UInt8 × UInt32) :=
  if e.sfdIno = 0 then none else some (e.terminated.name, e.sfdIno)

/-- Slot `j` of a file. -/
def PlainFile.direntry (f : PlainFile) (j : ℕ) : Direntry :=
  Direntry.ofBytes fun i => f.byte (64 * j + i)

/-- The file `f`, read as a directory, is `d`. -/
structure Reads (f : PlainFile) (d : Directory) : Prop where
  size : f.size = 64 * d.count
  slot : ∀ j < d.count, (f.direntry j).listed = d.slot j

theorem Direntry.listed_eq_none {e : Direntry} : e.listed = none ↔ e.sfdIno = 0 := by
  rw [listed]
  split <;> simp_all

theorem Direntry.listed_eq_some {e : Direntry} {name : List UInt8} {ino : UInt32} :
    e.listed = some (name, ino) ↔ e.sfdIno ≠ 0 ∧ e.terminated.name = name ∧ e.sfdIno = ino := by
  rw [listed]
  split <;> simp_all

/-- The entry that is written for a name reads as that name. -/
theorem listed_link {name : List UInt8} {ino : UInt32} (hlen : name.length < 60)
    (hz : (0 : UInt8) ∉ name) (hino : ino ≠ 0) :
    Direntry.listed ⟨ino, setCstr Bytes.zero name⟩ = some (name, ino) :=
  Direntry.listed_eq_some.mpr ⟨hino, name_setCstr hlen hz ino, rfl⟩

/-! ### Searching -/

/-- What `sfs_dir_findname` finds among the first `n` slots of `e`. -/
structure Located (r : Found) (e : ℕ → Option (List UInt8 × UInt32)) (n : ℕ) (name : List UInt8) :
    Prop where
  entry : ∀ ino i, r.entry = some (ino, i) ↔ i < n ∧ e i = some (name, ino)
  emptyslot : ∀ i, r.emptyslot = some i ↔ i < n ∧ e i = none ∧ ∀ j, i < j → j < n → e j ≠ none

section Search

variable {W : Watch fsGrowth} {E : Stop → State → Prop} {s : State} {dir : UInt32} {sv : SfsVnode}
  {d : Directory} {name : List UInt8} {r : Found} {e : ℕ → Option (List UInt8 × UInt32)} {n : ℕ}

theorem Located.zero (e : ℕ → Option (List UInt8 × UInt32)) (name : List UInt8) :
    Located ⟨none, none⟩ e 0 name where
  entry _ _ := iff_of_false (fun h => by cases h) fun h => Nat.not_lt_zero _ h.1
  emptyslot _ := iff_of_false (fun h => by cases h) fun h => Nat.not_lt_zero _ h.1

/-- An empty slot. -/
theorem Located.empty (h : Located r e n name) (hn : e n = none) :
    Located { r with emptyslot := some n } e (n + 1) name where
  entry ino i := by
    rw [h.entry]
    refine ⟨fun hi => ⟨Nat.lt_succ_of_lt hi.1, hi.2⟩, fun hi => ⟨?_, hi.2⟩⟩
    refine Nat.lt_of_le_of_ne (Nat.le_of_lt_succ hi.1) fun heq => ?_
    rw [heq, hn] at hi
    cases hi.2
  emptyslot i := by
    constructor
    · rintro h'
      obtain rfl := Option.some.inj h'
      exact ⟨Nat.lt_succ_self _, hn, fun j hlt hle => absurd hlt (Nat.not_lt_of_le
        (Nat.le_of_lt_succ hle))⟩
    · rintro ⟨hlt, -, hlater⟩
      by_contra hne
      exact hlater n (Nat.lt_of_le_of_ne (Nat.le_of_lt_succ hlt) fun heq => hne (by rw [heq]))
        (Nat.lt_succ_self n) hn

/-- An occupied slot. -/
theorem Located.emptyslot_succ (h : Located r e n name) (hn : e n ≠ none) (i : ℕ) :
    r.emptyslot = some i ↔
      i < n + 1 ∧ e i = none ∧ ∀ j, i < j → j < n + 1 → e j ≠ none := by
  rw [h.emptyslot]
  constructor
  · rintro ⟨hlt, hi, hlater⟩
    refine ⟨Nat.lt_succ_of_lt hlt, hi, fun j hj hle => ?_⟩
    rcases Nat.lt_or_eq_of_le (Nat.le_of_lt_succ hle) with hlt' | rfl
    · exact hlater j hj hlt'
    · exact hn
  · rintro ⟨hlt, hi, hlater⟩
    refine ⟨Nat.lt_of_le_of_ne (Nat.le_of_lt_succ hlt) fun heq => hn (heq ▸ hi), hi,
      fun j hj hle => hlater j hj (Nat.lt_succ_of_lt hle)⟩

/-- A slot with another name. -/
theorem Located.other (h : Located r e n name) (hn : e n ≠ none)
    (hname : ∀ ino, e n ≠ some (name, ino)) :
    Located r e (n + 1) name where
  entry ino i := by
    rw [h.entry]
    refine ⟨fun hi => ⟨Nat.lt_succ_of_lt hi.1, hi.2⟩, fun hi => ⟨?_, hi.2⟩⟩
    refine Nat.lt_of_le_of_ne (Nat.le_of_lt_succ hi.1) fun heq => hname ino ?_
    rw [← heq]
    exact hi.2
  emptyslot := h.emptyslot_succ hn

/-- The slot with the name. -/
theorem Located.here (h : Located r e n name) {ino : UInt32} (hn : e n = some (name, ino))
    (hnew : ∀ i ino', i < n → e i ≠ some (name, ino')) :
    Located { r with entry := some (ino, n) } e (n + 1) name where
  entry ino' i := by
    constructor
    · rintro h'
      obtain ⟨rfl, rfl⟩ := Prod.mk.inj (Option.some.inj h')
      exact ⟨Nat.lt_succ_self _, hn⟩
    · rintro ⟨hlt, hi⟩
      rcases Nat.lt_or_eq_of_le (Nat.le_of_lt_succ hlt) with hlt' | rfl
      · exact absurd hi (hnew i ino' hlt')
      · rw [hn] at hi
        obtain ⟨-, rfl⟩ := Prod.mk.inj (Option.some.inj hi)
        rfl
  emptyslot := h.emptyslot_succ fun h0 => by
    rw [hn] at h0
    cases h0

/-- Reading an entry on a disk that works. -/
theorem wp_readdir_works {R : Direntry → State → Prop} (hv : s.vnode? dir = some sv)
    (htidy : s.Tidy sv.svI) (hvol : s.VolumeOk) (hworks : s.Works) {slot : ℕ} (hslot : slot < 1144)
    (hdone : ∀ k, R (entryIn (image s.disk sv.svI) slot) { s with tick := k }) :
    wp W (readdir dir slot) R E s := by
  have hnat : (UInt32.ofNat (slot * 64 / 512)).toNat = slot / 8 := by
    rw [show slot * 64 / 512 = slot / 8 by omega]
    exact UInt32.toNat_ofNat_of_lt' (show slot / 8 < 2 ^ 32 by omega)
  have hentry (b : Block) (h : (image s.disk sv.svI).block (slot / 8) = b) :
      Direntry.ofBytes (slice b (slot * 64 % 512) 64) = entryIn (image s.disk sv.svI) slot := by
    subst h
    refine Direntry.ofBytes_congr fun i hi => ?_
    rw [Bytes.get_of_lt _ hi, Bytes.get_of_lt _ hi, slice, show 64 * slot + i =
      512 * (slot / 8) + (slot * 64 % 512 + i) by omega]
    exact (Sparse.byte_block _ _ (by omega)).symm
  have hlt : (UInt32.ofNat (slot * 64 / 512)).toNat < 143 := by omega
  obtain ⟨k, hrun, -⟩ := bmap_lookup hv hlt (hworks .read)
    (fun _ hind => UInt32.lt_of_lt_of_le (htidy.inUse .indirect hind).1 hvol.fits) rfl
  rw [hnat] at hrun
  rw [readdir, metaioRead]
  by_cases h0 : fileBlock s.disk sv.svI (slot / 8) = 0
  · refine wp_bind (wp_bind (wp_of_run_done (hrun (Or.inl h0)) ?_))
    rw [if_pos h0]
    refine wp_pure fun _ => wp_pure fun _ => ?_
    have hzero : (image s.disk sv.svI).block (slot / 8) = Bytes.zero := by
      rw [Sparse.block, image_of_zero h0]
      rfl
    have hslice : slice Bytes.zero (slot * 64 % 512) 64 = Bytes.zero :=
      funext fun i => Bytes.get_zero _
    rw [← hentry Bytes.zero hzero, hslice] at hdone
    exact hdone k
  · have huse := htidy.inUse_fileBlock h0
    refine wp_bind (wp_bind (wp_of_run_done (hrun (Or.inr huse)) ?_))
    rw [if_neg h0]
    refine wp_bind (wp_readblock (UInt32.lt_of_lt_of_le huse.1 hvol.fits) (fun k' => ?_)
      fun hbad => ?_)
    · refine wp_pure fun _ => wp_pure fun _ => ?_
      rw [← hentry (s.disk (fileBlock s.disk sv.svI (slot / 8)))
        (by rw [Sparse.block, image_of_ne h0, Option.getD_some])] at hdone
      exact hdone k'
    · cases (hworks .read _).symm.trans hbad

theorem run_dirNentries (hv : s.vnode? dir = some sv) (htype : sv.svI.sfiType = sfsTypeDir)
    (hsize : sv.svI.sfiSize.toNat = 64 * n) : (dirNentries dir).run s = .done n s := by
  have h64 : (64 : UInt32).toNat = 64 := rfl
  have hmod : sv.svI.sfiSize % 64 = 0 := by
    rw [← UInt32.toNat_inj, UInt32.toNat_mod, hsize, h64, Nat.mul_mod_right]
    rfl
  rw [dirNentries, run_bind_of_done (run_getVnode hv), kassert, if_pos htype]
  change (if sv.svI.sfiSize % 64 ≠ 0 then panic _ else pure _ : Sk ℕ).run s = _
  rw [if_neg (not_not_intro hmod), run_pure, UInt32.toNat_div, hsize, h64,
    Nat.mul_div_cancel_left _ (by omega)]

/-- **`sfs_dir_findname`** on a directory without a name twice. -/
theorem wp_dirFindname_all {R : Found → State → Prop} (hv : s.vnode? dir = some sv)
    (htidy : s.Tidy sv.svI) (hvol : s.VolumeOk) (hworks : s.Works)
    (htype : sv.svI.sfiType = sfsTypeDir) (hsize : sv.svI.sfiSize.toNat = 64 * d.count)
    (hslot : ∀ j < d.count, (entryIn (image s.disk sv.svI) j).listed = d.slot j)
    (name : List UInt8) (hdone : ∀ r k, Located r d.slot d.count name → R r { s with tick := k }) :
    wp W (dirFindname dir name) R E s := by
  have hbound := d.bound
  rw [dirFindname]
  refine wp_bind (wp_of_run_done (run_dirNentries hv htype hsize) ?_)
  refine wp_post (wp_foldlM_range (fun i (acc : Found) t => Located acc d.slot i name ∧
    ∃ k, t = { s with tick := k }) ⟨Located.zero _ _, s.tick, rfl⟩ ?_) fun r t _ _ hr => ?_
  · rintro i acc _ hi - ⟨hacc, k, rfl⟩
    refine wp_bind (wp_readdir_works (s := { s with tick := k }) hv ⟨htidy.inUse, htidy.inj⟩
      ⟨hvol.fits, hvol.nbits, hvol.padded, hvol.past, hvol.super⟩ hworks (by omega) fun k' => ?_)
    have hlisted := hslot i hi
    dsimp only
    refine wp_ite (fun hzero => wp_pure fun _ => ⟨hacc.empty ?_, k', rfl⟩) fun hne => ?_
    · exact hlisted.symm.trans (Direntry.listed_eq_none.mpr hzero)
    refine wp_ite (fun hname => ?_) fun hname =>
      wp_pure fun _ => ⟨hacc.other ?_ fun ino hi' => ?_, k', rfl⟩
    · have hhere := hlisted.symm.trans (Direntry.listed_eq_some.mpr ⟨hne, hname, rfl⟩)
      have hnew (j : ℕ) (ino' : UInt32) (hj : j < i) : d.slot j ≠ some (name, ino') := fun hj' =>
        absurd (d.distinct j i _ _ hj' hhere rfl) (Nat.ne_of_lt hj)
      refine wp_bind (wp_kassert ?_ (wp_pure fun _ => ⟨hacc.here hhere hnew, k', rfl⟩))
      -- the name has not been met before
      cases hentry : acc.entry with
      | none => rfl
      | some p =>
        obtain ⟨hlt, hp⟩ := (hacc.entry p.1 p.2).mp hentry
        exact absurd hp (hnew p.2 p.1 hlt)
    · rw [← hlisted]
      exact fun h0 => hne (Direntry.listed_eq_none.mp h0)
    · rw [← hlisted] at hi'
      exact hname (Direntry.listed_eq_some.mp hi').2.1
  · obtain ⟨hr, k, rfl⟩ := hr
    exact hdone r k hr

end Search

/-! ### The directories on a volume -/

/-- The files of `inos` on the volume are `fs`, and those of `dirs` among them are the directories
`ds`. -/
structure Lists (inos dirs : Set UInt32) (s : State) (fs : Files) (ds : UInt32 → Directory) :
    Prop where
  holds : Holds inos s fs
  sub : dirs ⊆ inos
  type : ∀ dir ∈ dirs, ∀ sv, s.vnode? dir = some sv → sv.svI.sfiType = sfsTypeDir
  reads : ∀ dir ∈ dirs, Reads (fs dir) (ds dir)

/-- The directory with the slot `i` set, to a name that it did not have. -/
def Directory.set (d : Directory) (i : ℕ) (p : Option (List UInt8 × UInt32)) (hi : i ≤ d.count)
    (hlt : i < 1144) (hnew : ∀ q, p = some q → d.Lacks q.1) : Directory where
  slot := Function.update d.slot i p
  count := max d.count (i + 1)
  bound := Nat.max_le.mpr ⟨d.bound, hlt⟩
  past j hj := by
    rw [Function.update_of_ne (by omega)]
    exact d.past j (by omega)
  distinct j k q r hq hr heq := by
    rw [Function.update_apply] at hq hr
    by_cases hj : j = i <;> by_cases hk : k = i
    · rw [hj, hk]
    · rw [if_pos hj] at hq
      rw [if_neg hk] at hr
      exact absurd heq.symm (hnew q hq k r hr)
    · rw [if_neg hj] at hq
      rw [if_pos hk] at hr
      exact absurd heq (hnew r hr j q hq)
    · rw [if_neg hj] at hq
      rw [if_neg hk] at hr
      exact d.distinct j k q r hq hr heq

/-- How a request to the directory `dir` may have ended in the state `t`. -/
def Replied (inos dirs : Set UInt32) (s : State) (fs : Files) (ds : UInt32 → Directory)
    (dir : UInt32) (q : Inquiry) (t : State) (a : Reply) : Prop :=
  ∃ f d', Consults (ds dir) q a d' ∧
    Lists inos dirs t (Function.update fs dir f) (Function.update ds dir d') ∧
    ∃ sv sv', s.vnode? dir = some sv ∧ Changes s t dir sv sv'

section Consult

variable {inos dirs : Set UInt32} {s t : State} {fs : Files} {ds : UInt32 → Directory}
  {dir : UInt32} {sv sv' : SfsVnode} {q : Inquiry} {a : Reply} {d' : Directory} {f : PlainFile}
  {name : List UInt8}

theorem State.Keeps.entry (h : s.Keeps dir sv f) (j : ℕ) :
    entryIn (image s.disk sv.svI) j = f.direntry j :=
  Direntry.ofBytes_congr fun i hi => by
    rw [Bytes.get_of_lt _ hi, Bytes.get_of_lt _ hi]
    exact (h.byte _).symm

/-- The directory `dir` has changed, and nothing else. -/
theorem Lists.changed (h : Lists inos dirs s fs ds) (hdir : dir ∈ dirs)
    (hv : s.vnode? dir = some sv) (hg : Grown s t dir sv sv')
    (hsize : f.size = sv'.svI.sfiSize.toNat)
    (hbyte : ∀ p, f.byte p = (image t.disk sv'.svI).byte p) (hreads : Reads f d')
    (hc : Consults (ds dir) q a d') : Replied inos dirs s fs ds dir q t a := by
  have hchanges := hg.changes h.holds.volume
  refine ⟨f, d', hc, ⟨h.holds.changed (h.sub hdir) hv hchanges hsize hbyte, h.sub,
    fun i hi svi hvi => ?_, fun i hi => ?_⟩, sv, sv', hv, hchanges⟩
  · by_cases hne : i = dir
    · subst hne
      obtain rfl := Option.some.inj (hg.vnode.symm.trans hvi)
      rw [hg.type]
      exact h.type i hi sv hv
    · rw [hg.others i hne] at hvi
      exact h.type i hi svi hvi
  · by_cases hne : i = dir
    · subst hne
      rwa [Function.update_self, Function.update_self]
    · rw [Function.update_of_ne hne, Function.update_of_ne hne]
      exact h.reads i hi

/-- No entry has changed. -/
theorem Lists.unwritten (h : Lists inos dirs s fs ds) (hdir : dir ∈ dirs)
    (hk : s.Keeps dir sv (fs dir)) (hu : Unwritten s t dir sv sv')
    (hc : Consults (ds dir) q a (ds dir)) : Replied inos dirs s fs ds dir q t a :=
  h.changed hdir hk.vnode hu.toGrown (hk.size.trans (congrArg UInt32.toNat hu.size.symm))
    (fun p => (hk.byte p).trans (hu.byte p).symm) (h.reads dir hdir) hc

/-- One entry has changed. -/
theorem Lists.entered (h : Lists inos dirs s fs ds) (hdir : dir ∈ dirs)
    (hk : s.Keeps dir sv (fs dir)) {i : ℕ} {e : Direntry} (he : Entered s t dir sv sv' i e)
    (hi : i ≤ (ds dir).count) (hlt : i < 1144)
    (hnew : ∀ p, e.listed = some p → (ds dir).Lacks p.1)
    (hc : ∀ d', (ds dir).Put d' i e.listed → Consults (ds dir) q a d') :
    Replied inos dirs s fs ds dir q t a := by
  have hreads := h.reads dir hdir
  refine h.changed hdir hk.vnode he.toGrown (f := ⟨sv'.svI.sfiSize.toNat,
    (image t.disk sv'.svI).byte⟩) rfl (fun _ => rfl) ⟨?_, fun j hj => ?_⟩
    (hc ((ds dir).set i e.listed hi hlt hnew) ⟨rfl, rfl⟩)
  · change sv'.svI.sfiSize.toNat = 64 * max (ds dir).count (i + 1)
    rw [he.size, ← hk.size, hreads.size]
    omega
  · change j < max (ds dir).count (i + 1) at hj
    change (entryIn (image t.disk sv'.svI) j).listed = Function.update (ds dir).slot i e.listed j
    rw [he.entry, Function.update_apply]
    split
    · rfl
    · rw [hk.entry]
      exact hreads.slot j (by omega)

/-- What the search finds. -/
theorem Lists.wp_find {W : Watch fsGrowth} {E : Stop → State → Prop} {R : Found → State → Prop}
    (h : Lists inos dirs s fs ds) (hdir : dir ∈ dirs) (hk : s.Keeps dir sv (fs dir))
    (name : List UInt8)
    (hdone : ∀ r k, Located r (ds dir).slot (ds dir).count name → R r { s with tick := k }) :
    wp W (dirFindname dir name) R E s := by
  have hreads := h.reads dir hdir
  refine wp_dirFindname_all hk.vnode hk.tidy h.holds.volume h.holds.works
    (h.type dir hdir sv hk.vnode) (by rw [← hk.size, hreads.size]) (fun j hj => ?_) name hdone
  rw [hk.entry]
  exact hreads.slot j hj

theorem Located.lacks {d : Directory} {r : Found} (hr : Located r d.slot d.count name)
    (h : r.entry = none) : d.Lacks name := by
  rintro j ⟨name', ino⟩ hj rfl
  have hlt : j < d.count := by
    by_contra hge
    rw [d.past j (Nat.le_of_not_lt hge)] at hj
    cases hj
  rw [(hr.entry ino j).mpr ⟨hlt, hj⟩] at h
  cases h

/-- The freemap and the vnodes do not show how often the world has been asked. -/
theorem State.Keeps.unwritten_tick (hk : s.Keeps dir sv f) (k : ℕ) :
    Unwritten s { s with tick := k } dir sv sv :=
  (Mapped.same hk.vnode hk.tidy k).unwritten fun _ => rfl

theorem replied_find (h : Lists inos dirs s fs ds) (hdir : dir ∈ dirs) (name : List UInt8) :
    Replied inos dirs s fs ds dir (.find name) (s.consult dir (.find name)).1
      (s.consult dir (.find name)).2 := by
  obtain ⟨sv, hk⟩ := h.holds.file dir (h.sub hdir)
  have hsat := sat_of_wp (h.wp_find (E := fun _ _ => False) (R := fun r t =>
    Replied inos dirs s fs ds dir (.find name) t (.found r)) hdir hk name fun r k hr => ?_)
  · rw [State.consult]
    generalize (dirFindname dir name).run s = o at hsat ⊢
    cases o with
    | done r t => exact hsat
    | halt e t => exact hsat.elim
  · refine h.unwritten hdir hk (hk.unwritten_tick k)
      (.find (fun ino i => ?_) fun i => hr.emptyslot i)
    rw [hr.entry]
    refine ⟨fun hi => hi.2, fun hi => ⟨?_, hi⟩⟩
    by_contra hge
    rw [(ds dir).past i (Nat.le_of_not_lt hge)] at hi
    cases hi

theorem Located.place {d : Directory} {r : Found} (hr : Located r d.slot d.count name) :
    (∀ i, r.emptyslot = some i → d.Place i) ∧ (r.emptyslot = none → d.Place d.count) := by
  classical
  refine ⟨fun i hi => Or.inl ((hr.emptyslot i).mp hi),
    fun hnone => Or.inr ⟨rfl, fun j hj hj0 => ?_⟩⟩
  -- the last of the empty slots would have been found
  have hspec := Nat.findGreatest_spec (P := fun i => i < d.count ∧ d.slot i = none)
    (Nat.le_of_lt hj) ⟨hj, hj0⟩
  have hlast := (hr.emptyslot _).mpr ⟨hspec.1, hspec.2, fun i hi hlt hi0 =>
    Nat.findGreatest_is_greatest hi (Nat.le_of_lt hlt) ⟨hlt, hi0⟩⟩
  rw [hnone] at hlast
  cases hlast

/-- Writing an entry of a directory. -/
theorem Lists.wp_enter {W : Watch fsGrowth} {E : Stop → State → Prop} {R : Unit → State → Prop}
    (h : Lists inos dirs s fs ds) (hk : s.Keeps dir sv (fs dir)) (k : ℕ) {i : ℕ} (hi : i < 2 ^ 32)
    (e : Direntry) (hdone : ∀ t sv', i < 1144 → Entered s t dir sv sv' i e → R () t)
    (hfull : ∀ t sv', Unwritten s t dir sv sv' → E (.fail .enospc) t)
    (hbig : 1144 ≤ i → E (.fail .efbig) { s with tick := k }) :
    wp W (writedir dir i e) R E { s with tick := k } := by
  have hvol := h.holds.volume
  refine wp_writedir_stop (s := { s with tick := k }) hk.vnode ⟨hk.tidy.inUse, hk.tidy.inj⟩
    ⟨hvol.fits, hvol.nbits, hvol.padded, hvol.past, hvol.super⟩ (h.holds.works.writable W) hi e
    (fun t sv' hlt ht => hdone t sv' hlt (ht.of_tick hk.vnode hk.tidy))
    (fun t sv' ht => hfull t sv' (ht.of_tick hk.vnode hk.tidy)) (fun hge _ => hbig hge) ?_
  intro k' hbad
  cases (h.holds.works .read k').symm.trans hbad

theorem replied_link (h : Lists inos dirs s fs ds) (hdir : dir ∈ dirs) {name : List UInt8}
    {ino : UInt32} (hz : (0 : UInt8) ∉ name) (hino : ino ≠ 0) :
    Replied inos dirs s fs ds dir (.link name ino) (s.consult dir (.link name ino)).1
      (s.consult dir (.link name ino)).2 := by
  obtain ⟨sv, hk⟩ := h.holds.file dir (h.sub hdir)
  have hbound := (ds dir).bound
  have hwp : wp (Watch.any fsGrowth) (dirLink dir name ino)
      (fun i t => Replied inos dirs s fs ds dir (.link name ino) t (.linked i))
      (fun e t => Replied inos dirs s fs ds dir (.link name ino) t (.stopped e)) s := by
    refine wp_bind (h.wp_find hdir hk name fun r k hr => ?_)
    have hsame := hk.unwritten_tick k
    refine wp_ite (fun hsome => ?_) fun hnone => ?_
    · obtain ⟨p, hp⟩ := Option.isSome_iff_exists.mp hsome
      exact wp_fail (h.unwritten hdir hk hsame (.taken ((hr.entry p.1 p.2).mp hp).2))
    have hnew : (ds dir).Lacks name := hr.lacks (Option.not_isSome_iff_eq_none.mp hnone)
    refine wp_ite (fun hlong => ?_) fun hshort => ?_
    · exact wp_fail (h.unwritten hdir hk hsame (.tooLong hnew (by omega)))
    have hlisted : Direntry.listed ⟨ino, setCstr Bytes.zero name⟩ = some (name, ino) :=
      listed_link (by omega) hz hino
    have hwrite (i : ℕ) (hi : (ds dir).Place i) : wp (Watch.any fsGrowth) (do
        writedir dir i ⟨ino, setCstr Bytes.zero name⟩
        pure i) (fun i t => Replied inos dirs s fs ds dir (.link name ino) t (.linked i))
        (fun e t => Replied inos dirs s fs ds dir (.link name ino) t (.stopped e))
        { s with tick := k } := by
      have hle : i ≤ (ds dir).count := by
        rcases hi with hi | hi
        · exact Nat.le_of_lt hi.1
        · exact Nat.le_of_eq hi.1
      refine wp_bind (h.wp_enter hk k (by omega) _ (fun t sv' hlt ht => wp_pure fun _ => ?_)
        (fun t sv' ht => h.unwritten hdir hk ht (.linkFull hnew)) fun hge => ?_)
      · refine h.entered hdir hk ht hle hlt (fun p hp => ?_) fun d' hput => ?_
        · rw [hlisted] at hp
          rwa [← Option.some.inj hp]
        · rw [hlisted] at hput
          exact .link hnew (by omega) hi hput
      · -- only the slot after the last can be so far out
        rcases hi with hi | hi
        · have := hi.1
          omega
        · exact h.unwritten hdir hk hsame (.linkBig hnew (by omega) hi.2)
    dsimp only
    split
    · next slot hslot => exact wp_bind (wp_pure fun _ => hwrite slot (hr.place.1 slot hslot))
    · next hslot =>
      refine wp_bind (wp_of_run_done (run_dirNentries (s := { s with tick := k }) hk.vnode
        (h.type dir hdir sv hk.vnode) (by rw [← hk.size, (h.reads dir hdir).size])) ?_)
      exact hwrite _ (hr.place.2 hslot)
  have hsat := sat_of_wp hwp
  rw [State.consult]
  generalize (dirLink dir name ino).run s = o at hsat ⊢
  cases o <;> exact hsat

theorem replied_erase (h : Lists inos dirs s fs ds) (hdir : dir ∈ dirs) (name : List UInt8) :
    Replied inos dirs s fs ds dir (.erase name) (s.consult dir (.erase name)).1
      (s.consult dir (.erase name)).2 := by
  obtain ⟨sv, hk⟩ := h.holds.file dir (h.sub hdir)
  have hbound := (ds dir).bound
  have hwp : wp (Watch.any fsGrowth) (eraseEntry dir name)
      (fun _ t => Replied inos dirs s fs ds dir (.erase name) t .erased)
      (fun e t => Replied inos dirs s fs ds dir (.erase name) t (.stopped e)) s := by
    refine wp_bind (h.wp_find hdir hk name fun r k hr => ?_)
    have hsame := hk.unwritten_tick k
    split
    · next hnone => exact wp_fail (h.unwritten hdir hk hsame (.missing (hr.lacks hnone)))
    · next ino slot hsome =>
      obtain ⟨hlt, hslot⟩ := (hr.entry ino slot).mp hsome
      refine h.wp_enter hk k (by omega) _ (fun t sv' hfar ht => ?_)
        (fun t sv' ht => h.unwritten hdir hk ht (.eraseFull hslot)) fun hge => absurd hge (by omega)
      exact h.entered hdir hk ht (Nat.le_of_lt hlt) hfar (fun p hp => by cases hp)
        fun d' hput => .erase hslot hput
  have hsat := sat_of_wp hwp
  rw [State.consult]
  generalize (eraseEntry dir name).run s = o at hsat ⊢
  cases o <;> exact hsat

/-- **One request to a directory** is answered as the directory may answer it. -/
theorem lists_consult (h : Lists inos dirs s fs ds) (hdir : dir ∈ dirs) (hq : q.Proper) :
    Replied inos dirs s fs ds dir q (s.consult dir q).1 (s.consult dir q).2 := by
  cases q with
  | find name => exact replied_find h hdir name
  | link name ino => exact replied_link h hdir hq.1 hq.2
  | erase name => exact replied_erase h hdir name

end Consult

/-! ### What the flags say -/

section Flags

variable {dir : UInt32}

theorem cleans_readdir (slot : ℕ) : Keeps cleanSame anyStop (readdir dir slot) := by
  refine keeps_bind (keeps_bind (cleans_bmap _ _) fun _ => keeps_ite (keeps_pure _) ?_)
    fun _ => keeps_pure _
  exact keeps_bind (cleans_readblock _) fun _ => keeps_pure _

theorem cleans_writedir (slot : ℕ) (sd : Direntry) :
    Keeps cleanSame anyStop (writedir dir slot sd) := by
  refine keeps_bind (cleans_bmap _ _) fun _ => keeps_ite (cleans_panic _) ?_
  refine keeps_bind (cleans_readblock _) fun _ => keeps_bind (cleans_writeblock _ _) fun _ => ?_
  exact keeps_bind (cleans_getVnode _) fun _ => keeps_when (cleans_modifyInode fun _ => rfl)

theorem cleans_dirNentries : Keeps cleanSame anyStop (dirNentries dir) :=
  keeps_bind (cleans_getVnode _) fun _ => keeps_bind (cleans_kassert _ _) fun _ =>
    keeps_ite (cleans_panic _) (keeps_pure _)

theorem cleans_dirFindname (name : List UInt8) :
    Keeps cleanSame anyStop (dirFindname dir name) := by
  refine keeps_bind cleans_dirNentries fun _ => keeps_foldlM (fun acc i => ?_) _
  refine keeps_bind (cleans_readdir i) fun _ => keeps_ite (keeps_pure _) (keeps_ite ?_ ?_)
  · exact keeps_bind (cleans_kassert _ _) fun _ => keeps_pure _
  · exact keeps_pure _

theorem cleans_dirLink (name : List UInt8) (ino : UInt32) :
    Keeps cleanSame anyStop (dirLink dir name ino) := by
  refine keeps_bind (cleans_dirFindname name) fun r => keeps_ite (cleans_fail _) ?_
  refine keeps_ite (cleans_fail _) ?_
  dsimp only
  split
  · exact keeps_bind (keeps_pure _) fun _ => keeps_bind (cleans_writedir _ _) fun _ => keeps_pure _
  · exact keeps_bind cleans_dirNentries fun _ =>
      keeps_bind (cleans_writedir _ _) fun _ => keeps_pure _

theorem cleans_eraseEntry (name : List UInt8) :
    Keeps cleanSame anyStop (eraseEntry dir name) := by
  refine keeps_bind (cleans_dirFindname name) fun r => ?_
  split
  · exact cleans_fail _
  · exact cleans_writedir _ _

theorem cleanSame_consult (s : State) (q : Inquiry) : cleanSame.le s (s.consult dir q).1 := by
  have hstate {α : Type} (f : α → Reply) (o : Outcome Stop State α) : (reply f o).1 = o.state := by
    cases o <;> rfl
  cases q with
  | find name =>
    rw [State.consult, hstate]
    exact cleanSame_run (cleans_dirFindname name) s
  | link name ino =>
    rw [State.consult, hstate]
    exact cleanSame_run (cleans_dirLink name ino) s
  | erase name =>
    rw [State.consult, hstate]
    exact cleanSame_run (cleans_eraseEntry name) s

end Flags

/-! ### Files and directories together -/

/-- What a volume holds, as its users see it. -/
structure Contents where
  /-- The files, by their inode numbers. -/
  file : Files
  /-- The directories. -/
  directory : UInt32 → Directory

/-- What happens to the machine. -/
inductive Call where
  /-- A request to a file, a sync, or a reboot. -/
  | event (e : Event)
  /-- A request to a directory. -/
  | consult (dir : UInt32) (q : Inquiry)

/-- What is seen of it. -/
inductive Response where
  | report (r : Report)
  | reply (r : Reply)

/-- What happens, on a machine on which the objects of `l` are open. -/
def State.meet (l : List UInt32) (s : State) : Call → State × Response
  | .event e => ((s.live l e).1, .report (s.live l e).2)
  | .consult dir q => ((s.consult dir q).1, .reply (s.consult dir q).2)

/-- Directories are not read, written or truncated as if they were files, and only directories are
consulted. -/
def Call.Proper (l : List UInt32) (dirs : Set UInt32) : Call → Prop
  | .event e => e.Proper l ∧ ∀ r, e = .request r → r.ino ∉ dirs
  | .consult dir q => dir ∈ dirs ∧ q.Proper

/-- What may be seen, and what becomes of the contents. -/
inductive Meets (c : Contents) : Call → Response → Contents → Prop
  | event {e : Event} {r : Report} {fs : Files} (h : Outlives c.file e r fs) :
      Meets c (.event e) (.report r) { c with file := fs }
  | consult {dir : UInt32} {q : Inquiry} {a : Reply} {d : Directory}
      (h : Consults (c.directory dir) q a d) :
      Meets c (.consult dir q) (.reply a) { c with directory := Function.update c.directory dir d }

/-- The volume has these contents, and what is clean in memory is on the disk. -/
structure Stocks (l : List UInt32) (dirs : Set UInt32) (s : State) (c : Contents) : Prop where
  durable : Durable {ino | ino ∈ l} s
  lists : ∃ fs, Lists {ino | ino ∈ l} dirs s fs c.directory ∧ ∀ ino ∉ dirs, fs ino = c.file ino

section Meet

variable {l : List UInt32} {dirs : Set UInt32} {s : State} {c : Contents} {fs gs fs' : Files}

/-- Only the file that a request is for matters to it. -/
theorem Serves.congr {r : Request} {a : Answer} (h : Serves fs r a fs')
    (heq : gs r.ino = fs r.ino) :
    ∃ gs', Serves gs r a gs' ∧ gs' r.ino = fs' r.ino := by
  cases h with
  | @read ino u v hrw hadv hdst =>
    change gs ino = fs ino at heq
    rw [← heq] at hadv hdst
    exact ⟨gs, .read hrw hadv hdst, heq⟩
  | @readStop ino u v e n hrw hadv hdst he =>
    change gs ino = fs ino at heq
    rw [← heq] at hdst
    exact ⟨gs, .readStop n hrw hadv hdst he, heq⟩
  | @write ino u v hrw hadv =>
    change gs ino = fs ino at heq
    refine ⟨_, .write hrw hadv, ?_⟩
    change Function.update gs ino _ ino = Function.update fs ino _ ino
    rw [Function.update_self, Function.update_self, heq]
  | @writeStop ino u v e n₀ n hrw hadv hle he =>
    change gs ino = fs ino at heq
    refine ⟨_, .writeStop n₀ n hrw hadv hle he, ?_⟩
    change Function.update gs ino _ ino = Function.update fs ino _ ino
    rw [Function.update_self, Function.update_self, heq]
  | @truncate ino len v f h =>
    change gs ino = fs ino at heq
    rw [← heq] at h
    refine ⟨_, .truncate h, ?_⟩
    change Function.update gs ino f ino = Function.update fs ino f ino
    rw [Function.update_self, Function.update_self]

/-- The files may have been something else where they are directories. -/
theorem Outlives.beside {e : Event} {a : Report} (h : Outlives fs e a fs')
    (hfile : ∀ r, e = .request r → r.ino ∉ dirs) (heq : ∀ ino ∉ dirs, fs ino = gs ino) :
    (∀ dir ∈ dirs, fs' dir = fs dir) ∧
      ∃ gs', Outlives gs e a gs' ∧ ∀ ino ∉ dirs, fs' ino = gs' ino := by
  cases h with
  | @request r a _ h =>
    have hr := hfile r rfl
    obtain ⟨gs', hgs, hsame⟩ := h.congr (heq r.ino hr).symm
    refine ⟨fun dir hdir => h.other fun hne => hr (hne ▸ hdir), gs', .request hgs,
      fun ino hino => ?_⟩
    by_cases hne : r.ino = ino
    · rw [← hne, hsame]
    · rw [h.other hne, hgs.other hne]
      exact heq ino hino
  | sync => exact ⟨fun _ _ => rfl, gs, .sync, heq⟩
  | reboot w => exact ⟨fun _ _ => rfl, gs, .reboot w, heq⟩

/-- One call. -/
theorem meet_step (h : Stocks l dirs s c) {call : Call} (hcall : call.Proper l dirs) :
    ∃ c', Meets c call (s.meet l call).2 c' ∧ Stocks l dirs (s.meet l call).1 c' := by
  obtain ⟨hdurable, fs, hlists, hsame⟩ := h
  cases call with
  | event e =>
    obtain ⟨fs', hout, hholds, hdurable', htypes⟩ := live_step ⟨hlists.holds, hdurable⟩ hcall.1
    obtain ⟨hdirs, gs', hgs, hsame'⟩ := hout.beside hcall.2 hsame
    refine ⟨_, .event hgs, hdurable', fs', ⟨hholds, hlists.sub, fun dir hdir sv hv => ?_,
      fun dir hdir => ?_⟩, hsame'⟩
    · obtain ⟨sv', hv', htype⟩ := htypes dir sv hv
      exact htype.trans (hlists.type dir hdir sv' hv')
    · rw [hdirs dir hdir]
      exact hlists.reads dir hdir
  | consult dir q =>
    obtain ⟨f, d, hcons, hlists', sv, sv', hv, hc⟩ := lists_consult hlists hcall.1 hcall.2
    refine ⟨_, .consult hcons, hdurable.changed hlists.holds (hlists.sub hcall.1) hv hc
      (cleanSame_consult s q), _, hlists', fun ino hino => ?_⟩
    have hne : ino ≠ dir := fun heq => hino (heq ▸ hcall.1)
    rw [Function.update_of_ne hne]
    exact hsame ino hino

/-- **Files and directories.** However requests to files, requests to directories, syncs and reboots
follow one another, each is answered as the files and the directories may answer it, and the code
stops nowhere else. -/
theorem meet_calls (h : Stocks l dirs s c) (calls : List Call)
    (hcalls : ∀ call ∈ calls, call.Proper l dirs) :
    ∃ c', Traces Meets c (answers (State.meet l) s calls).1 c' ∧
      Stocks l dirs (answers (State.meet l) s calls).2 c' := by
  refine traces_answers (R := Stocks l dirs) (P := Call.Proper l dirs)
    (fun s c call h hcall => ?_) h hcalls
  exact meet_step h hcall

/-- A directory without slots. -/
def Directory.empty : Directory where
  slot _ := none
  count := 0
  bound := Nat.zero_le _
  past _ _ := rfl
  distinct _ _ _ _ h := by cases h

/-- An empty file, and an empty directory. -/
def fileAndDirectory : State := newVolume fun ino => if ino = 4 then sfsTypeDir else sfsTypeFile

theorem stocks_fileAndDirectory : Stocks [3, 4] {4} fileAndDirectory
    ⟨fun _ => ⟨0, fun _ => 0⟩, fun _ => Directory.empty⟩ := by
  have hset : {ino : UInt32 | ino ∈ [3, 4]} = {3, 4} := by
    ext ino
    simp
  rw [← Set.singleton_union] at hset
  refine ⟨?_, _, ⟨?_, ?_, fun dir hdir sv hv => ?_, fun dir _ => ⟨rfl, fun j hj => ?_⟩⟩,
    fun _ _ => rfl⟩
  · rw [hset]
    refine durable_newVolume fun ino => ?_
    by_cases h : ino = 4
    · exact Or.inr (if_pos h)
    · exact Or.inl (if_neg h)
  · rw [hset]
    exact holds_newVolume
  · rw [hset]
    exact Set.subset_union_right
  · obtain rfl := hdir
    obtain ⟨-, rfl⟩ := vnode?_newVolume hv
    rfl
  · exact absurd hj (Nat.not_lt_zero j)

/-- A name is linked, looked up after a reboot while the file has grown, and erased. -/
def someCalls : List Call :=
  [.consult 4 (.link [97] 3), .event (.request (.truncate 3 700)), .event (.reboot Freemap.working),
    .consult 4 (.find [97]), .consult 4 (.erase [97]), .event (.reboot Freemap.working),
    .consult 4 (.find [97])]

theorem meet_calls_some : ∃ c',
    Traces Meets ⟨fun _ => ⟨0, fun _ => 0⟩, fun _ => Directory.empty⟩
      (answers (State.meet [3, 4]) fileAndDirectory someCalls).1 c' ∧
    Stocks [3, 4] {4} (answers (State.meet [3, 4]) fileAndDirectory someCalls).2 c' := by
  refine meet_calls stocks_fileAndDirectory someCalls ?_
  have hreboot : Call.Proper [3, 4] {4} (.event (.reboot Freemap.working)) :=
    ⟨⟨fun _ _ => rfl, fun _ => rfl⟩, fun r hr => by cases hr⟩
  simp only [someCalls, List.forall_mem_cons]
  refine ⟨⟨rfl, by decide, by decide⟩, ⟨⟨by decide, by decide, by decide⟩, ?_⟩, hreboot,
    ⟨rfl, trivial⟩, ⟨rfl, trivial⟩, hreboot, ⟨rfl, trivial⟩, ?_⟩
  · intro r hr
    cases hr
    exact show (3 : UInt32) ≠ 4 by decide
  · exact fun call hcall => by cases hcall

end Meet

end Sfs

end Os161
