import Os161.Sfsck.Dirio
import Os161.Sfsck.Table

/-!
# Runs that end with EXIT_CLEAN

In a run of `sfsck` that ends with `EXIT_CLEAN` nothing raises `badness`. Whatever the checker
changes it reports, so such a run leaves the disk as it was, up to the end of phase 1 at least.
Phase 2 then reads the root directory of the image itself, and it has found the `.` entry there: had
it not, it would have reported that.

`Stays x R` says that a part of the checker leaves the disk alone in such a run, frees no block,
marks no directory as visited, and ends with a value in `R`. A part that raises `badness` ends with
no value at all, which is how the branches that repair something drop out.

## Main results

* `wp_pass1Dir_stays` — all of phase 1 on a directory
* `root_of_clean` — what the root directory of a volume the checker accepts looks like
-/

namespace Os161

namespace Sfsck

open Sfs Prog

/-! ### What stays -/

/-- The runs in which nothing is reported that would have to be repaired. -/
def spotless : Watch ckGrowth where
  ok s := s.badness = exitClean
  stable := by
    rintro s t ⟨-, hbad, -⟩ ht
    exact Nat.eq_zero_of_le_zero (hbad.trans (le_of_eq ht))

/-- No directory has been visited, and no inode is in the table twice. -/
structure Unseen (s : State) : Prop where
  unvisited : ∀ inf ∈ s.inodes, inf.visited = false
  nodup : (s.inodes.map Inodeinfo.ino).Nodup

/-- What the parts of phase 1 leave alone. -/
structure Still (s t : State) : Prop where
  disk : t.disk = s.disk
  tofree : (∀ b, s.tofreedata b = false) → ∀ b, t.tofreedata b = false
  unseen : Unseen s → Unseen t

theorem Still.refl (s : State) : Still s s := ⟨rfl, id, id⟩

theorem Still.trans {s t u : State} (h : Still s t) (h' : Still t u) : Still s u :=
  ⟨h'.disk.trans h.disk, h'.tofree ∘ h.tofree, h'.unseen ∘ h.unseen⟩

theorem Still.of_eq {s t : State} (h1 : t.disk = s.disk) (h2 : t.tofreedata = s.tofreedata)
    (h3 : t.inodes = s.inodes) : Still s t := by
  refine ⟨h1, fun h => by rwa [h2], fun h => ⟨?_, ?_⟩⟩
  · rw [h3]
    exact h.unvisited
  · rw [h3]
    exact h.nodup

variable {α β : Type} {R R' : α → Prop} {T : β → Prop}

/-- In a run without a report, `x` leaves things alone and ends with a value in `R`. -/
def Stays (x : Ck α) (R : α → Prop) : Prop :=
  ∀ s, wp spotless x (fun a t => Still s t ∧ R a) (fun _ _ => True) s

theorem stays_pure {a : α} (h : R a) : Stays (pure a) R := fun s => wp_pure fun _ => ⟨.refl s, h⟩

theorem stays_halt {e : Halt} : Stays (Prog.halt e) R := fun _ => wp_halt fun _ => trivial

theorem stays_bind {x : Ck α} {f : α → Ck β} (hx : Stays x R) (hf : ∀ a, R a → Stays (f a) T) :
    Stays (x >>= f) T := by
  intro s
  refine wp_seq (hx s) fun a t _ _ ⟨ht, ha⟩ => ?_
  exact wp_post (hf a ha t) fun b u _ _ ⟨hu, hb⟩ => ⟨ht.trans hu, hb⟩

/-- Something that is not looked at again, followed by something else. -/
theorem stays_seq {x : Ck α} {f : α → Ck β} (hx : Stays x fun _ => True)
    (hf : ∀ a, Stays (f a) T) : Stays (x >>= f) T :=
  stays_bind hx fun a _ => hf a

theorem stays_get_bind {f : State → Ck β} (hf : ∀ s, Stays (f s) T) : Stays (Prog.get >>= f) T :=
  fun s => wp_bind (wp_get fun _ => hf s s)

theorem stays_mono {x : Ck α} (hx : Stays x R) (h : ∀ a, R a → R' a) : Stays x R' :=
  fun s => wp_post (hx s) fun a _ _ _ ⟨ht, ha⟩ => ⟨ht, h a ha⟩

theorem stays_ite {c : Prop} [Decidable c] {x y : Ck α} (hx : c → Stays x R)
    (hy : ¬c → Stays y R) : Stays (if c then x else y) R := by
  split
  · exact hx ‹_›
  · exact hy ‹_›

/-- A part that is run only if there is something to report: there was nothing. -/
theorem stays_when {c : Prop} [Decidable c] {x : Ck Unit} (hx : Stays x fun _ => False) :
    Stays (Prog.when c x) fun _ => ¬c :=
  stays_ite (fun _ => stays_mono hx fun _ => False.elim) fun hc => stays_pure hc

theorem stays_foldlM {l : List β} {f : α → β → Ck α} {a : α} (h0 : R a)
    (hf : ∀ a b, R a → Stays (f a b) R) : Stays (l.foldlM f a) R := by
  induction l generalizing a with
  | nil => exact stays_pure h0
  | cons b l ih =>
    rw [List.foldlM_cons]
    exact stays_bind (hf a b h0) fun a' h' => ih h'

theorem stays_mapEntries {f : β → ℕ → Direntry → Ck (Direntry × β)} {es : List Direntry} {i : ℕ}
    {b : β} (h0 : T b)
    (hf : ∀ b i, ∀ e ∈ es, T b → Stays (f b i e) fun r => T r.2) :
    Stays (mapEntries f i b es) fun r => T r.2 := by
  induction es generalizing i b with
  | nil => exact stays_pure h0
  | cons e es ih =>
    rw [mapEntries]
    refine stays_bind (hf b i e List.mem_cons_self h0) fun r hr => ?_
    refine stays_bind (ih hr fun b' i' e' he' => hf b' i' e' (List.mem_cons_of_mem _ he'))
      fun r' hr' => stays_pure hr'

/-! ### Primitive steps -/

theorem stays_modify {f : Core → Core} (h1 : ∀ c, (f c).disk = c.disk)
    (h2 : ∀ c, (f c).tofreedata = c.tofreedata) (h3 : ∀ c, (f c).inodes = c.inodes) :
    Stays (modify f) fun _ => True :=
  fun _ => wp_update fun _ => ⟨.of_eq (h1 _) (h2 _) (h3 _), trivial⟩

theorem stays_record (e : Event) (h : e.isDup = false) : Stays (record e h) fun _ => True :=
  fun _ => wp_update fun _ => ⟨.of_eq rfl rfl rfl, trivial⟩

theorem stays_warnx (w : Warning) (h : (Event.warn w).isDup = false) :
    Stays (warnx w h) fun _ => True :=
  stays_record _ h

/-- A report: not in such a run. -/
theorem stays_setbadness {code : ℕ} {hc : code ≤ exitUnrecov} (h : 0 < code) :
    Stays (setbadness code hc) fun _ => False := by
  refine fun s => wp_update fun hok => ?_
  have hle : code ≤ max s.badness code := le_max_right _ _
  exact absurd (hle.trans (le_of_eq hok)) (not_le.mpr h)

theorem stays_complain {code : ℕ} {hc : code ≤ exitUnrecov} {f : Unit → Ck α} (hpos : 0 < code) :
    Stays (setbadness code hc >>= f) R :=
  stays_bind (stays_setbadness hpos) fun _ => False.elim

theorem stays_complain' {code : ℕ} {w : Warning} {h : (Event.warn w).isDup = false}
    {hc : code ≤ exitUnrecov} (hpos : 0 < code) :
    Stays (do warnx w h; setbadness code hc) fun _ => False :=
  stays_seq (stays_warnx w h) fun _ => stays_setbadness hpos

theorem stays_assert {p : Prop} [Decidable p] : Stays (assert p) fun _ => p :=
  stays_ite (fun h => stays_pure h) fun _ => stays_halt

theorem stays_domalloc (env : Env) (len : UInt32) :
    Stays (domalloc env len) fun _ => len.toNat < 2147483648 := by
  refine stays_get_bind fun s => stays_seq (stays_modify (fun _ => rfl) (fun _ => rfl) fun _ => rfl)
    fun _ => stays_ite (fun hgranted => stays_pure (env.bounded _ _ hgranted)) fun _ => stays_halt

theorem stays_uniqueid : Stays uniqueid fun _ => True :=
  stays_get_bind fun _ => stays_seq (stays_modify (fun _ => rfl) (fun _ => rfl) fun _ => rfl)
    fun _ => stays_pure trivial

theorem stays_diskread (block : UInt32) : Stays (diskread block) fun _ => True :=
  stays_get_bind fun _ => stays_pure trivial

theorem stays_sfsReadinode (ino : UInt32) : Stays (sfsReadinode ino) fun _ => True :=
  stays_seq (stays_diskread ino) fun _ => stays_pure trivial

theorem stays_sfsReaddir (sfi : Dinode) (nd : UInt32) : Stays (sfsReaddir sfi nd) fun _ => True :=
  fun _ => wp_post Build.wp_sfsReaddir_os161 fun _ _ _ _ ⟨_, ht⟩ =>
    ⟨.of_eq (congrArg Core.disk ht) (congrArg Core.tofreedata ht) (congrArg Core.inodes ht),
      trivial⟩

theorem stays_freemapBlockinuse (block : UInt32) (how : Usage) (howdesc : UInt32) :
    Stays (freemapBlockinuse block how howdesc) fun _ => True := by
  have htofree : Stays (modify fun c =>
      { c with tofreedata := Function.update c.tofreedata block false }) fun _ => True := by
    refine fun s => wp_update fun _ =>
      ⟨⟨rfl, fun h b => ?_, fun h => ⟨h.unvisited, h.nodup⟩⟩, trivial⟩
    change Function.update s.tofreedata block false b = false
    by_cases hb : b = block
    · rw [hb, Function.update_self]
    · rw [Function.update_of_ne hb, h b]
  refine stays_get_bind fun s => stays_seq htofree fun _ => stays_seq ?_ fun _ =>
    stays_modify (fun _ => rfl) (fun _ => rfl) fun _ => rfl
  exact stays_ite (fun _ _ => wp_update fun _ => ⟨.of_eq rfl rfl rfl, trivial⟩)
    fun _ => stays_pure trivial

/-! ### Phase 1 -/

theorem exitRecov_pos : 0 < exitRecov := by decide

theorem exitUnrecov_pos : 0 < exitUnrecov := by decide

/-- A pointer is as it was. -/
theorem stays_checkPointer (ibs : Ibstate) (block : UInt32) :
    Stays (checkPointer ibs block) fun r => r.2.1 = block ∧ r.2.2 = false := by
  refine stays_ite (fun _ => stays_complain exitRecov_pos) fun _ => stays_ite (fun _ => ?_)
    fun _ => stays_pure ⟨rfl, rfl⟩
  refine stays_ite (fun _ => ?_) fun _ => stays_complain exitRecov_pos
  exact stays_seq (stays_freemapBlockinuse _ _ _) fun _ => stays_pure ⟨rfl, rfl⟩

theorem stays_checkPointers {n : ℕ} (ibs : Ibstate) (ptrs : Fin n → UInt32) :
    Stays (checkPointers ibs ptrs) fun r => r.2.1 = ptrs ∧ r.2.2 = false := by
  refine stays_foldlM ⟨rfl, rfl⟩ fun acc i ⟨hptrs, hchanged⟩ => ?_
  refine stays_bind (stays_checkPointer _ _) fun r ⟨_, hr⟩ => stays_pure ?_
  obtain ⟨ibs', block, changed⟩ := r
  obtain rfl : changed = false := hr
  exact ⟨hptrs, by rw [hchanged]; rfl⟩

theorem stays_checkIndirectBlock (ibs : Ibstate) (ientry : UInt32) :
    Stays (checkIndirectBlock 1 ibs ientry) fun r => r.2.1 = ientry ∧ r.2.2 = false := by
  rw [checkIndirectBlock]
  refine stays_ite (fun _ => stays_ite (fun _ => stays_complain exitRecov_pos)
    fun _ => stays_pure ⟨rfl, rfl⟩) fun _ => ?_
  refine stays_seq (stays_seq (stays_diskread _) fun _ => stays_pure trivial) fun entries => ?_
  refine stays_seq (stays_freemapBlockinuse _ _ _) fun _ => ?_
  refine stays_bind (stays_checkPointers ibs entries) fun r hr => ?_
  obtain ⟨ibs', entries', localchanged⟩ := r
  obtain rfl : localchanged = false := hr.2
  refine stays_ite (fun _ => stays_complain exitRecov_pos) fun _ => ?_
  exact stays_seq (stays_ite (fun h => by cases h) fun _ => stays_pure trivial)
    fun _ => stays_pure ⟨rfl, rfl⟩

theorem stays_checkInodeBlocks (ino : UInt32) (sfi : Dinode) (isdir : Bool) :
    Stays (checkInodeBlocks ino sfi isdir) fun r => r.2 = false := by
  refine stays_seq (stays_get_bind fun _ => stays_pure trivial) fun volblocks => ?_
  refine stays_bind (stays_checkPointers _ _) fun r ⟨_, hr⟩ => ?_
  obtain ⟨ibs, direct, dchanged⟩ := r
  refine stays_bind (stays_checkIndirectBlock _ _) fun r' ⟨_, hr'⟩ => ?_
  obtain ⟨ibs', indirect, ichanged⟩ := r'
  obtain rfl : dchanged = false := hr
  obtain rfl : ichanged = false := hr'
  exact stays_bind (stays_when (stays_complain' exitRecov_pos)) fun _ _ => stays_pure rfl

/-- A new inode is entered in the table once, and as not visited. -/
theorem Unseen.append {s : State} (h : Unseen s) {ino : UInt32} (type : UInt16)
    (hnew : ino ∉ s.inodes.map Inodeinfo.ino) (c : Core)
    (hc : c.inodes = s.inodes ++ [⟨ino, 0, false, type⟩]) : Unseen { s with toCore := c } := by
  refine ⟨fun inf hinf => ?_, ?_⟩
  · change inf ∈ c.inodes at hinf
    rw [hc] at hinf
    rcases List.mem_append.mp hinf with hold | hnew
    · exact h.unvisited inf hold
    · rw [List.mem_singleton.mp hnew]
  · change (c.inodes.map Inodeinfo.ino).Nodup
    rw [hc, List.map_append]
    refine List.nodup_append.mpr ⟨h.nodup, List.nodup_singleton _, ?_⟩
    rintro a ha b hb rfl
    obtain rfl : a = ino := List.mem_singleton.mp hb
    exact hnew ha

theorem stays_inodeAdd (env : Env) (ino : UInt32) (type : UInt16) :
    Stays (inodeAdd env ino type) fun _ => True := by
  intro s
  refine wp_bind (wp_get fun _ => ?_)
  split
  · exact stays_bind stays_assert (fun _ _ => stays_bind stays_assert fun _ _ => stays_pure trivial)
      s
  · next hfind =>
    have hnew : ino ∉ s.inodes.map Inodeinfo.ino := by
      rw [List.find?_eq_none] at hfind
      intro hmem
      obtain ⟨inf, hinf, rfl⟩ := List.mem_map.mp hmem
      exact hfind inf hinf (decide_eq_true rfl)
    refine wp_bind (wp_bind (wp_get fun _ => ?_))
    refine wp_bind (wp_ite (fun _ => wp_pure fun _ => ?_) fun _ => wp_halt fun _ => trivial)
    refine wp_bind (wp_when (fun _ => ?_) fun _ _ => ?_)
    · refine wp_bind (wp_bind (wp_get fun _ => wp_bind (wp_update fun _ => ?_)))
      refine wp_ite (fun _ => wp_pure fun _ => ?_) fun _ => wp_halt fun _ => trivial
      refine wp_update fun _ => wp_update fun _ => wp_pure fun _ =>
        ⟨⟨rfl, id, fun h => ?_⟩, trivial⟩
      exact h.append type hnew _ rfl
    · refine wp_update fun _ => wp_pure fun _ => ⟨⟨rfl, id, fun h => ?_⟩, trivial⟩
      exact h.append type hnew _ rfl

theorem stays_pass1Inode (env : Env) (ino : UInt32) (sfi : Dinode) :
    Stays (pass1Inode env ino sfi false) fun _ => True := by
  refine stays_seq (stays_record _ _) fun _ => stays_seq (stays_inodeAdd env ino _) fun been => ?_
  refine stays_ite (fun _ => stays_seq (stays_mono stays_assert fun _ _ => trivial) fun _ =>
    stays_pure trivial) fun _ => ?_
  refine stays_seq (stays_freemapBlockinuse _ _ _) fun _ => ?_
  refine stays_bind (stays_when (stays_complain' exitRecov_pos)) fun _ hwaste => ?_
  refine stays_bind (stays_checkInodeBlocks _ _ _) fun r hr => ?_
  refine stays_seq (stays_ite (fun hchanged => ?_) fun _ => stays_pure trivial) fun _ =>
    stays_pure trivial
  rw [hr, Bool.false_or, Bool.or_false] at hchanged
  exact absurd hchanged hwaste

theorem stays_pass1Direntry (index : ℕ) (sfd : Direntry) :
    Stays (pass1Direntry index sfd) fun r => r.2 = false := by
  refine stays_seq (stays_get_bind fun _ => stays_pure trivial) fun nblocks => ?_
  refine stays_ite (fun _ => stays_ite (fun _ => stays_complain exitRecov_pos)
    fun _ => stays_pure rfl) fun _ => stays_ite (fun _ => stays_complain exitRecov_pos) fun _ => ?_
  refine stays_bind (R := fun named => named.2 = false) (stays_ite (fun _ => ?_)
    fun _ => stays_pure rfl) fun named hnamed => ?_
  · exact stays_seq stays_uniqueid fun _ => stays_complain exitRecov_pos
  refine stays_bind (stays_when (stays_complain exitRecov_pos)) fun _ hended => ?_
  refine stays_bind (stays_when (stays_complain exitRecov_pos)) fun _ hgood => stays_pure ?_
  rw [hnamed, Bool.not_eq_true] at *
  rw [hended, hgood]
  rfl

theorem stays_pass1Subobject {env : Env} {recurse : UInt32 → Ck Unit}
    (hrec : ∀ ino, Stays (recurse ino) fun _ => True) (i : ℕ) (sfd : Direntry) :
    Stays (pass1Subobject env recurse false i sfd) fun r => r.2 = false := by
  refine stays_ite (fun _ => stays_pure rfl) fun _ => stays_ite (fun _ => stays_pure rfl) fun _ =>
    stays_ite (fun _ => stays_pure rfl) fun _ => ?_
  refine stays_seq (stays_sfsReadinode _) fun subsfi => stays_ite (fun _ => ?_) fun _ =>
    stays_ite (fun _ => ?_) fun _ => stays_complain exitRecov_pos
  · refine stays_seq (stays_pass1Inode env _ _) fun r => ?_
    refine stays_seq (stays_ite (fun _ => ?_) fun _ => stays_pure trivial) fun _ => stays_pure rfl
    exact stays_modify (fun _ => rfl) (fun _ => rfl) fun _ => rfl
  · exact stays_seq (hrec _) fun _ => stays_pure rfl

theorem stays_fixSize (sfi : Dinode) : Stays (fixSize sfi) fun r => r.2 = false :=
  stays_ite (fun _ => stays_complain exitRecov_pos) fun _ => stays_pure rfl

/-- Phase 1 on a directory, and all that is below it. -/
theorem stays_pass1Dir (env : Env) (k : ℕ) (ino : UInt32) :
    Stays (pass1Dir env k ino) fun _ => True := by
  induction k generalizing ino with
  | zero => exact stays_halt
  | succ k ih =>
    rw [pass1Dir]
    refine stays_seq (stays_record _ _) fun _ => stays_seq (stays_sfsReadinode ino) fun sfi => ?_
    refine stays_bind (stays_fixSize sfi) fun r hr => ?_
    obtain ⟨sfi, ichanged⟩ := r
    obtain rfl : ichanged = false := hr
    refine stays_seq (stays_modify (fun _ => rfl) (fun _ => rfl) fun _ => rfl) fun _ => ?_
    refine stays_seq (stays_pass1Inode env ino sfi) fun r => ?_
    refine stays_ite (fun _ => stays_pure trivial) fun _ => ?_
    refine stays_seq (stays_mono (stays_domalloc env _) fun _ _ => trivial) fun _ => ?_
    refine stays_seq (stays_sfsReaddir _ _) fun entries => ?_
    refine stays_seq (stays_record _ _) fun _ => ?_
    refine stays_bind (stays_mapEntries (T := fun dchanged => dchanged = false) rfl ?_)
      fun r hr => ?_
    · rintro _ i e - rfl
      refine stays_bind (stays_pass1Direntry i e) fun r hr => stays_pure ?_
      dsimp only
      rw [hr]
      rfl
    obtain ⟨entries', dchanged⟩ := r
    obtain rfl : dchanged = false := hr
    refine stays_bind (stays_mapEntries (T := fun dchanged => dchanged = false) rfl ?_)
      fun r hr => ?_
    · rintro _ i e - rfl
      exact stays_pass1Subobject ih i e
    refine stays_ite (fun hwrite => ?_) fun _ => stays_pure trivial
    rw [hr] at hwrite
    exact nomatch hwrite

/-- Phase 1 as a whole: the root is a directory. -/
theorem wp_pass1Rootdir_stays {env : Env} {k : ℕ} {s : State} :
    wp spotless (pass1Rootdir env k) (fun _ t => Still s t ∧
      (Dinode.ofBlock (s.disk (sector sfsRootdirIno))).sfiType = sfsTypeDir)
      (fun _ _ => True) s := by
  refine wp_bind (wp_bind (wp_bind (wp_get fun _ => wp_pure fun _ => wp_pure fun _ => ?_)))
  refine stays_bind (stays_when ?_) (fun _ htype => stays_mono (stays_pass1Dir env k _)
    fun _ _ => not_not.mp htype) s
  exact stays_seq (stays_warnx _ _) fun _ => stays_complain exitRecov_pos

/-! ### The bitmap -/

theorem eq_of_countbits {a e : UInt8} (h1 : countbits (e &&& ~~~a) = 0)
    (h2 : countbits (a &&& ~~~e) = 0) : a = e := by
  have hbit : ∀ {v w : UInt8}, countbits (v &&& ~~~w) = 0 → ∀ y < 8,
      v.toBitVec.getLsbD y = true → w.toBitVec.getLsbD y = true := by
    intro v w h y hy hv
    have hy' := List.countP_eq_zero.mp h y (List.mem_range.mpr hy)
    by_contra hw
    refine hy' ?_
    change ((v.toBitVec &&& ~~~w.toBitVec).toNat).testBit y = true
    rw [BitVec.testBit_toNat, BitVec.getLsbD_and, BitVec.getLsbD_not, hv,
      Bool.eq_false_iff.mpr hw, decide_eq_true hy]
    rfl
  refine UInt8.toBitVec_inj.mp (BitVec.eq_of_getLsbD_eq fun y hy => ?_)
  rw [Bool.eq_iff_iff]
  exact ⟨hbit h2 y hy, hbit h1 y hy⟩

/-- How many bits have been found wrong. -/
def MapScan.wrong (m : MapScan) : ℕ := m.alloccount + m.freecount

theorem stays_reportfreemap (i j : ℕ) (val : UInt8) (free : Bool) :
    Stays (reportfreemap i j val free) fun _ => True :=
  stays_foldlM trivial fun _ _ _ => stays_ite (fun _ => stays_warnx _ _) fun _ => stays_pure trivial

/-- Bits found wrong are counted. -/
theorem stays_checkByte (i : ℕ) (m : MapScan) (j : Fin 512) :
    Stays (checkByte i m j) fun r => m.wrong ≤ r.wrong := by
  refine stays_get_bind fun s => stays_bind stays_assert fun _ _ => stays_ite
    (fun _ => stays_pure le_rfl) fun _ => stays_ite (fun _ => stays_pure le_rfl) fun _ => ?_
  refine stays_seq (stays_reportfreemap _ _ _ _) fun _ => stays_seq (stays_reportfreemap _ _ _ _)
    fun _ => stays_pure ?_
  change m.alloccount + m.freecount ≤ m.alloccount + _ + (m.freecount + _)
  omega

theorem wp_checkMapblock_wrong {i : ℕ} {count : ℕ × ℕ} {s : State} :
    wp spotless (checkMapblock count i) (fun r _ => count.1 + count.2 ≤ r.1 + r.2)
      (fun _ _ => True) s := by
  rw [checkMapblock]
  refine wp_seq (stays_diskread _ s) fun actual s1 _ _ _ => ?_
  refine wp_seq (wp_foldlM (fun _ m _ => count.1 + count.2 ≤ m.wrong) le_rfl ?_)
    fun m s2 _ _ hle => ?_
  · rintro _ j _ m t - - hle
    exact wp_post (stays_checkByte i m j t) fun m' _ _ _ ⟨_, hm⟩ => hle.trans hm
  · exact wp_bind (wp_when (fun _ => wp_update fun _ => wp_pure fun _ => hle) fun _ _ =>
      wp_pure fun _ => hle)

/-- A byte is changed only if some of its bits are wrong, once nothing is to be freed. -/
theorem wp_checkByte_stays {i : ℕ} {m : MapScan} {j : Fin 512} {s : State}
    (hfree : ∀ b, s.tofreedata b = false) :
    wp spotless (checkByte i m j) (fun r t => Still s t ∧
      (r.bchanged = true → m.bchanged = true ∨ 0 < r.wrong)) (fun _ _ => True) s := by
  have hzero : mapByte s.tofreedata i j = 0 := by
    have hnone : (List.range 8).map (fun y =>
        if s.tofreedata (UInt32.ofNat (i * 4096 + j * 8 + y)) then 2 ^ y else 0) =
          (List.range 8).map fun _ => 0 := by
      refine List.map_congr_left fun y _ => ?_
      rw [hfree]
      rfl
    rw [mapByte, hnone]
    rfl
  refine wp_bind (wp_get fun _ => ?_)
  dsimp only
  rw [hzero]
  refine stays_bind stays_assert (fun _ _ => stays_ite (fun _ => stays_pure .inl)
    fun hne => stays_ite (fun heq => ?_) fun _ => ?_) s
  · rw [UInt8.or_zero] at heq
    exact absurd heq hne
  · refine stays_seq (stays_reportfreemap _ _ _ _) fun _ => stays_seq (stays_reportfreemap _ _ _ _)
      fun _ => stays_pure ?_
    have hkept : ∀ a : UInt8, a &&& ~~~0 = a := by
      intro a
      rw [UInt8.not_zero, UInt8.and_neg_one]
    rw [hkept]
    refine fun _ => .inr ?_
    change 0 < m.alloccount + countbits _ + (m.freecount + countbits _)
    by_contra hnone
    exact hne (eq_of_countbits (by omega) (by omega))

/-- A block of the bitmap is written only if some of its bits are wrong. -/
theorem wp_checkMapblock_stays {i : ℕ} {count : ℕ × ℕ} {s : State}
    (hfree : ∀ b, s.tofreedata b = false) :
    wp spotless (checkMapblock count i) (fun r t => Still s t ∨ 0 < r.1 + r.2)
      (fun _ _ => True) s := by
  rw [checkMapblock]
  refine wp_seq (stays_diskread _ s) fun actual s1 _ _ ⟨h1, _⟩ => ?_
  refine wp_seq (wp_foldlM (fun _ m t => Still s t ∧ (m.bchanged = true → 0 < m.wrong))
    ⟨h1, fun h => nomatch h⟩ ?_) fun m s2 _ _ ⟨h2, hchanged⟩ => ?_
  · rintro _ j _ m t - - ⟨ht, hchanged⟩
    have hbyte := wp_and (wp_checkByte_stays (i := i) (m := m) (j := j) (ht.tofree hfree))
      (stays_checkByte i m j t)
    refine wp_mono hbyte (fun m' u _ _ ⟨⟨hu, hchanged'⟩, _, hle⟩ => ⟨ht.trans hu, fun h => ?_⟩)
      fun _ _ _ _ _ => trivial
    rcases hchanged' h with hm | hpos
    · exact lt_of_lt_of_le (hchanged hm) hle
    · exact hpos
  · refine wp_bind (wp_when (fun h => wp_update fun _ => wp_pure fun _ => ?_) fun _ _ =>
      wp_pure fun _ => .inl h2)
    exact .inr (hchanged h)

theorem wp_freemapCheck_stays {s : State} (hfree : ∀ b, s.tofreedata b = false) :
    wp spotless freemapCheck (fun _ t => Still s t) (fun _ _ => True) s := by
  refine wp_bind (wp_bind (wp_get fun _ => wp_pure fun _ => ?_))
  refine wp_seq (wp_foldlM (fun _ (count : ℕ × ℕ) t => Still s t ∨ 0 < count.1 + count.2)
    (.inl (.refl s)) ?_) fun count s1 _ _ h1 => ?_
  · rintro _ i _ count t - - (ht | hpos)
    · refine wp_post (wp_checkMapblock_stays (ht.tofree hfree)) fun r u _ _ hu => ?_
      exact hu.imp_left ht.trans
    · exact wp_post wp_checkMapblock_wrong fun r u _ _ hle => .inr (lt_of_lt_of_le hpos hle)
  · refine wp_seq (stays_when (stays_complain' exitRecov_pos) s1) fun _ s2 _ _ ⟨h2, hn1⟩ => ?_
    refine wp_post (stays_when (stays_complain' exitRecov_pos) s2) fun _ t _ _ ⟨ht, hn2⟩ => ?_
    exact ((h1.resolve_right (by omega)).trans h2).trans ht

/-! ### Before phase 1 -/

theorem stays_sbLoad : Stays sbLoad fun _ => True := by
  refine stays_seq (stays_seq (stays_diskread _) fun _ => stays_pure trivial) fun sb => ?_
  refine stays_seq (stays_modify (fun _ => rfl) (fun _ => rfl) fun _ => rfl) fun _ => ?_
  refine stays_ite (fun _ => stays_halt) fun _ => ?_
  exact stays_bind stays_assert fun _ _ => stays_mono stays_assert fun _ _ => trivial

theorem stays_sbCheck : Stays sbCheck fun _ => True := by
  refine stays_get_bind fun s => ?_
  refine stays_bind (stays_when (stays_complain' exitRecov_pos)) fun _ hended => ?_
  refine stays_bind (stays_when (stays_complain' exitRecov_pos)) fun _ hgood => ?_
  refine stays_bind (stays_when (stays_complain' exitRecov_pos)) fun _ hzeroed => ?_
  refine stays_seq (stays_modify (fun _ => rfl) (fun _ => rfl) fun _ => rfl) fun _ => ?_
  refine stays_ite (fun hwrite => ?_) fun _ => stays_pure trivial
  rw [Bool.eq_false_iff.mpr hended, Bool.eq_false_iff.mpr hgood, Bool.eq_false_iff.mpr hzeroed]
    at hwrite
  exact nomatch hwrite

theorem wp_freemapSetup_stays {env : Env} {s : State} :
    wp spotless (freemapSetup env) (fun _ t => Still s t ∧ ∀ b, t.tofreedata b = false)
      (fun _ _ => True) s := by
  refine wp_bind (wp_bind (wp_get fun _ => wp_pure fun _ => ?_))
  refine wp_bind (wp_bind (wp_get fun _ => wp_pure fun _ => ?_))
  refine wp_seq (stays_domalloc env _ s) fun _ s1 _ _ ⟨h1, _⟩ => ?_
  refine wp_seq (stays_domalloc env _ s1) fun _ s2 _ _ ⟨h2, _⟩ => ?_
  refine wp_bind (wp_update fun _ => ?_)
  have hcleared : Still s2 { s2 with toCore :=
      { s2.toCore with freemapdata := fun _ => false, tofreedata := fun _ => false } } :=
    ⟨rfl, fun _ _ => rfl, fun h => ⟨h.unvisited, h.nodup⟩⟩
  refine wp_post (stays_seq (T := fun _ => True) (stays_foldlM trivial fun _ _ _ =>
    stays_freemapBlockinuse _ _ _) (fun _ => stays_seq (stays_freemapBlockinuse _ _ _) fun _ =>
      stays_foldlM trivial fun _ _ _ => stays_freemapBlockinuse _ _ _) _) fun _ t _ _ ⟨ht, _⟩ => ?_
  exact ⟨((h1.trans h2).trans hcleared).trans ht, ht.tofree fun _ => rfl⟩

/-! ### Phase 2 on the root directory -/

theorem wp_inodeSorttable_stays {s : State} (h : Unseen s) :
    wp spotless inodeSorttable (fun _ t => t.disk = s.disk ∧ Unseen t) (fun _ _ => True) s := by
  refine wp_bind (wp_get fun _ => ?_)
  obtain ⟨out, hrun, hperm, -⟩ := qsort_inodes h.nodup
  rw [hrun]
  refine wp_update fun _ => ⟨rfl, fun inf hinf => h.unvisited inf (hperm.mem_iff.mp hinf), ?_⟩
  exact (hperm.map Inodeinfo.ino).nodup_iff.mpr h.nodup

/-- A directory that has not been visited is visited now. -/
theorem wp_inodeVisitdir_stays {ino : UInt32} {s : State} (h : Unseen s) :
    wp spotless (inodeVisitdir ino) (fun been t => been = false ∧ t.disk = s.disk)
      (fun _ _ => True) s := by
  refine wp_bind (wp_bind (wp_get fun _ => ?_))
  refine wp_bind (wp_ite (fun _ => wp_pure fun _ => ?_) fun _ => wp_halt fun _ => trivial)
  refine wp_bind (wp_ite (fun _ => wp_pure fun _ => ?_) fun _ => wp_halt fun _ => trivial)
  split
  · exact wp_halt fun _ => trivial
  · next i hfind =>
    split
    · exact wp_halt fun _ => trivial
    · next inf hinf =>
      refine wp_pure fun _ => ?_
      refine wp_bind (wp_ite (fun _ => wp_pure fun _ => ?_) fun _ => wp_halt fun _ => trivial)
      refine wp_bind (wp_ite (fun _ => wp_pure fun _ => ?_) fun _ => wp_halt fun _ => trivial)
      refine wp_ite (fun hvisited => ?_) fun _ => wp_bind (wp_update fun _ => wp_pure fun _ =>
        ⟨rfl, rfl⟩)
      rw [h.unvisited inf (List.mem_of_getElem? hinf)] at hvisited
      cases hvisited

theorem stays_checkNeighbours (v : List ℕ) (es : List Direntry) (acc : List Direntry × Bool)
    (i : ℕ) (h : acc.1 = es) : Stays (checkNeighbours v acc i) fun r => r.1 = es := by
  refine stays_bind stays_assert fun _ _ => stays_ite (fun _ => stays_pure h) fun _ =>
    stays_ite (fun _ => ?_) fun _ => stays_pure h
  exact stays_ite (fun _ => stays_complain exitRecov_pos) fun _ =>
    stays_seq stays_uniqueid fun _ => stays_complain exitRecov_pos

theorem stays_addDot (m : UInt32) (name : List UInt8) (ino : UInt32) (added notFixed : Warning)
    (ha : (Event.warn added).isDup = false) (hn : (Event.warn notFixed).isDup = false)
    (b : DirBuf) : Stays (addDot m name ino added notFixed ha hn b) fun _ => False := by
  rw [addDot]
  split
  · exact stays_complain exitRecov_pos
  · split
    · exact stays_complain exitRecov_pos
    · exact stays_complain exitUnrecov_pos

/-- Among the entries there is a `.`, and it names the directory. -/
theorem stays_pass2Names (ino parentino : UInt32) (sfi : Dinode) (m : UInt32)
    (es : List Direntry) : Stays (pass2Names ino parentino sfi m es)
      fun _ => ∃ e ∈ es, e.name = dot ∧ e.sfdIno = ino := by
  refine stays_seq ?_ fun v => ?_
  · rw [sfsdirSort]
    split
    · exact stays_pure trivial
    · exact stays_halt
  refine stays_bind (stays_foldlM (R := fun acc => acc.1 = es) rfl fun acc i h =>
    stays_checkNeighbours v es acc i h) fun r hr => ?_
  obtain ⟨es', dchanged⟩ := r
  obtain rfl : es' = es := hr
  refine stays_bind (stays_mapEntries (T := fun scan : DotScan =>
    scan.dotseen = true → ∃ e ∈ es', e.name = dot ∧ e.sfdIno = ino) (fun h => nomatch h) ?_)
    fun r hr => ?_
  · rintro scan i e he hscan
    refine stays_ite (fun hname => ?_) fun _ => stays_ite (fun _ => ?_) fun _ => stays_pure hscan
    · refine stays_bind (stays_when (stays_complain exitRecov_pos)) fun _ hino => ?_
      exact stays_bind stays_assert fun _ _ => stays_pure fun _ =>
        ⟨e, he, hname, not_not.mp hino⟩
    · refine stays_bind (stays_when (stays_complain exitRecov_pos)) fun _ _ => ?_
      exact stays_bind stays_assert fun _ _ => stays_pure hscan
  obtain ⟨es'', scan⟩ := r
  refine stays_bind (R := fun _ => ∃ e ∈ es', e.name = dot ∧ e.sfdIno = ino)
    (stays_ite (fun hseen => stays_pure (hr hseen)) fun _ => ?_) fun b hb => ?_
  · exact stays_mono (stays_addDot _ _ _ _ _ _ _ _) fun _ => False.elim
  · refine stays_ite (fun _ => stays_pure hb) fun _ => ?_
    exact stays_mono (stays_addDot _ _ _ _ _ _ _ _) fun _ => False.elim

/-- A directory whose size is no larger than what fits in memory, with a `.` entry. -/
structure Dotted (d : Disk) (ino : UInt32) : Prop where
  size : (Dinode.ofBlock (d (sector ino))).sfiSize.toNat < 2147483648 + 64
  dot : ∃ x, 64 * (x + 1) ≤ (Dinode.ofBlock (d (sector ino))).sfiSize.toNat ∧
    (Build.entryAt .os161 d (Dinode.ofBlock (d (sector ino))) x).name = dot ∧
    (Build.entryAt .os161 d (Dinode.ofBlock (d (sector ino))) x).sfdIno = ino

theorem toNat_div_64 (size : UInt32) : (size / 64).toNat = size.toNat / 64 := UInt32.toNat_div _ _

/-- There is room for the entries of a directory in its blocks. -/
theorem le_sfsRoundup (size : UInt32) : size.toNat / 64 ≤ (sfsRoundup (size / 64) 8).toNat := by
  have h8 : (8 : UInt32).toNat = 8 := rfl
  have hlt := size.toNat_lt
  have h7 : (size / 64 + 8 - 1).toNat = size.toNat / 64 + 7 := by
    rw [UInt32.toNat_sub, UInt32.toNat_add, UInt32.toNat_one, h8, toNat_div_64]
    omega
  rw [sfsRoundup, UInt32.toNat_mul, UInt32.toNat_div, h7, h8]
  omega

/-- Phase 2 on a directory that has not been visited finds a `.` entry in it. -/
theorem wp_pass2Dir_dotted {env : Env} {k : ℕ} {ino parentino : UInt32} {s : State}
    (h : Unseen s) :
    wp spotless (pass2Dir env k ino parentino) (fun _ _ => Dotted s.disk ino)
      (fun _ _ => True) s := by
  cases k with
  | zero => exact wp_halt fun _ => trivial
  | succ k =>
    rw [pass2Dir]
    refine wp_bind (wp_update fun _ => ?_)
    refine wp_seq (wp_inodeVisitdir_stays ⟨h.unvisited, h.nodup⟩)
      fun been s1 _ _ ⟨hbeen, h1⟩ => ?_
    subst hbeen
    change s1.disk = s.disk at h1
    refine wp_bind (wp_bind (wp_bind (wp_get fun _ => wp_pure fun _ => wp_pure fun _ => ?_)))
    rw [h1]
    generalize hsfi : Dinode.ofBlock (s.disk (sector ino)) = sfi
    refine wp_seq (stays_domalloc env _ s1) fun _ s2 _ _ ⟨h2, hgranted⟩ => ?_
    refine wp_seq (stays_domalloc env _ s2) fun _ s3 _ _ ⟨h3, _⟩ => ?_
    refine wp_bind (wp_when (fun _ => wp_halt fun _ => trivial) fun hfits _ => ?_)
    refine wp_seq Build.wp_sfsReaddir_os161 fun es s4 _ _ ⟨hes, h4⟩ => ?_
    refine wp_seq (stays_pass2Names ino parentino sfi _ es s4)
      fun b s5 _ _ ⟨_, e, he, hname, hino⟩ => ?_
    have hdisk : s3.disk = s.disk := (h3.disk.trans h2.disk).trans h1
    rw [hes, hdisk] at he
    obtain ⟨x, hx, rfl⟩ := List.mem_map.mp he
    have hdotted : Dotted s.disk ino := by
      have hsize := le_sfsRoundup sfi.sfiSize
      rw [List.mem_range, toNat_div_64] at hx
      refine ⟨?_, x, ?_, ?_, ?_⟩
      · rw [hsfi]
        omega
      · rw [hsfi]
        omega
      · rw [hsfi]
        exact hname
      · rw [hsfi]
        exact hino
    exact wp_of_grows (fun _ _ _ => hdotted) fun _ _ _ => trivial

/-- **What the checker accepts.** In a volume on which a run ends with `EXIT_CLEAN`, the root is a
directory with a `.` entry. -/
theorem root_of_clean {env : Env} {img out : Disk} (h : Finishes env img exitClean out) :
    (Dinode.ofBlock (img (sector sfsRootdirIno))).sfiType = sfsTypeDir ∧
      Dotted img sfsRootdirIno := by
  obtain ⟨t, hrun, hbadness, -⟩ := h
  have hmain : wp spotless (main env) (fun _ _ =>
      (Dinode.ofBlock (img (sector sfsRootdirIno))).sfiType = sfsTypeDir ∧
        Dotted img sfsRootdirIno) (fun _ _ => True) (start img) := by
    refine wp_seq (stays_sbLoad (start img)) fun _ s1 _ _ ⟨h1, _⟩ => ?_
    refine wp_seq (stays_sbCheck s1) fun _ s2 _ _ ⟨h2, _⟩ => ?_
    refine wp_seq wp_freemapSetup_stays fun _ s3 _ _ ⟨h3, hfree⟩ => ?_
    -- phase 1
    refine wp_bind (wp_bind (wp_bind (wp_get fun _ => wp_pure fun _ => ?_)))
    refine wp_seq wp_pass1Rootdir_stays fun _ s4 _ _ ⟨h4, htype⟩ => ?_
    refine wp_post (wp_freemapCheck_stays (h4.tofree hfree)) fun _ s5 _ _ h5 => ?_
    have hstill : Still (start img) s5 := (((h1.trans h2).trans h3).trans h4).trans h5
    have hunseen : Unseen s5 := hstill.unseen ⟨(fun _ h => nomatch h), List.nodup_nil⟩
    -- phase 2
    refine wp_bind (wp_seq (wp_inodeSorttable_stays hunseen) fun _ s6 _ _ ⟨hdisk, h6⟩ => ?_)
    refine wp_bind (wp_bind (wp_get fun _ => wp_pure fun _ => ?_))
    refine wp_seq (wp_pass2Dir_dotted h6) fun _ s7 _ _ hdotted => wp_pure fun _ => ?_
    have himg : s6.disk = img := hdisk.trans hstill.disk
    have himg3 : s3.disk = img := ((h1.trans h2).trans h3).disk
    rw [himg] at hdotted
    rw [himg3] at htype
    exact wp_of_grows (fun _ _ _ => ⟨htype, hdotted⟩) fun _ _ _ => trivial
  have hroot := post_of_wp hmain hrun hbadness
  exact hroot

/-! ### A clean volume -/

/-- A root directory of two entries. -/
def tidyRoot : Dinode where
  sfiSize := 128
  sfiType := sfsTypeDir
  sfiLinkcount := 2
  sfiDirect i := if i = 0 then 3 else 0
  sfiIndirect := 0
  sfiWaste _ := 0

/-- A volume of 4096 blocks: the superblock, the root directory with `.` and `..` in block `3`, and
a bitmap in which these blocks are marked. -/
def tidyVolume : Disk := fun block =>
  if block = 0 then Superblock.toBlock ⟨sfsMagic, 4096, setCstr Bytes.zero [118], fun _ => 0⟩
  else if block = 1 then tidyRoot.toBlock
  else if block = 2 then fun j => if j = 0 then 15 else 0
  else if block = 3 then dirBlock [⟨1, setCstr Bytes.zero dot⟩, ⟨1, setCstr Bytes.zero dotdot⟩]
  else Bytes.zero

/-- An allocator that grants whatever fits below the end of user space. -/
def ampleEnv : Env where
  malloc _ n := n.toNat < 2147483648
  bounded _ _ h := lt_of_granted h

theorem finishes_tidyVolume : ∃ out, Finishes ampleEnv tidyVolume exitClean out := by
  have hclean : ((main ampleEnv).run (start tidyVolume)).test (fun t => t.badness = exitClean) :=
    by decide +kernel
  obtain ⟨_, t, hrun, hbadness⟩ := Outcome.exists_of_test hclean
  exact ⟨t.disk, t, hrun, of_decide_eq_true hbadness, rfl⟩

end Sfsck

end Os161
