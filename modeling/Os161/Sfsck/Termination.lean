import Os161.Sfsck.Calm
import Os161.Sfsck.Table
import Mathlib.Data.Finset.Card
import Mathlib.Data.List.Nodup
import Mathlib.Data.Finset.Range

/-!
# The two recursions end

`pass1_dir` recurses only into a directory it has just entered in the inode table, `pass2_dir` only
into one it has just marked visited. Inode numbers in the table are pairwise different and below
the volume's size (or the root's), so both recursions are bounded, whatever the directory graph
looks like and however it changes on the way.

The number of calls is counted against the number of directory entries: every call after the first
is made for one entry of a directory that is being gone through, and no directory is gone through
twice. `debt` is the difference; a call raises it by at most one.

## Main results

* `wp_pass1Dir`, `wp_pass2Dir` — one call, from any state
* `sfsck_returns` — a whole run does not exhaust its budget, and how many calls it makes
-/

namespace Os161

namespace Sfsck

open Sfs Prog

/-! ### Counting -/

/-- The directories gone through in phase 1. -/
def scans1 (l : List Event) : List UInt32 :=
  l.filterMap fun | .scan1 ino _ => some ino | _ => none

/-- The directories gone through in phase 2. -/
def scans2 (l : List Event) : List UInt32 :=
  l.filterMap fun | .scan2 ino _ => some ino | _ => none

/-- The number of entries of the directories gone through in phase 1. -/
def entries1 (l : List Event) : ℕ := (l.map fun | .scan1 _ n => n | _ => 0).sum

/-- The number of entries of the directories gone through in phase 2. -/
def entries2 (l : List Event) : ℕ := (l.map fun | .scan2 _ n => n | _ => 0).sum

/-- The number of calls of `pass1_dir`. -/
def dirCalls1 (l : List Event) : ℕ := (l.map fun | .pass1Dir _ => 1 | _ => 0).sum

/-- The number of calls of `pass1_inode`. -/
def inodeCalls1 (l : List Event) : ℕ := (l.map fun | .pass1Inode _ => 1 | _ => 0).sum

/-- The number of calls of `pass2_dir`. -/
def dirCalls2 (l : List Event) : ℕ := (l.map fun | .pass2Dir _ => 1 | _ => 0).sum

/-- The calls stay within the entries gone through plus `k`, and no directory is gone through
twice. -/
structure Within (k : ℕ) (n : UInt32) (l : List Event) : Prop where
  dirs1 : dirCalls1 l ≤ k + entries1 l
  inodes1 : inodeCalls1 l ≤ k + entries1 l
  nodup1 : (scans1 l).Nodup
  range1 : ∀ i ∈ scans1 l, i < n ∨ i = sfsRootdirIno
  dirs2 : dirCalls2 l ≤ k + entries2 l
  nodup2 : (scans2 l).Nodup
  range2 : ∀ i ∈ scans2 l, i < n ∨ i = sfsRootdirIno

/-- A stop that is not the budget's, with the calls still within bounds. -/
def Stop (n : UInt32) (e : Halt) (t : State) : Prop := e ≠ .fuel ∧ Within 1 n t.marks

theorem Within.mono {k m : ℕ} {n : UInt32} {l : List Event} (h : Within k n l) (hkm : k ≤ m) :
    Within m n l :=
  ⟨by have := h.dirs1; omega, by have := h.inodes1; omega, h.nodup1, h.range1,
    by have := h.dirs2; omega, h.nodup2, h.range2⟩

variable {n : UInt32}

theorem marks_record {e : Event} (hw : e.isWarn = false) (s : State) :
    State.marks { s with log := e :: s.log } = e :: s.marks := by
  rw [State.marks, State.marks, List.filter_cons_of_pos (by rw [hw]; rfl)]

/-! ### Phase 1 -/

/-- The inode numbers in the table. -/
def State.inos (s : State) : List UInt32 := s.inodes.map Inodeinfo.ino

/-- What phase 1 keeps true of the table and the calls. -/
structure Sane1 (n : UInt32) (s : State) : Prop where
  pos : 0 < n
  nblocks : s.sb.sbNblocks = n
  nodup : s.inos.Nodup
  range : ∀ i ∈ s.inos, i < n ∨ i = sfsRootdirIno
  scanned : (scans1 s.marks).Nodup ∧ ∀ i ∈ scans1 s.marks, i ∈ s.inos
  fresh2 : scans2 s.marks = [] ∧ dirCalls2 s.marks = 0

/-- The table never holds more than one entry for each block, and the root's. -/
theorem Sane1.length_le {s : State} (h : Sane1 n s) : s.inodes.length ≤ n.toNat + 1 := by
  have hpos : 0 < n.toNat := by
    have := h.pos
    rwa [UInt32.lt_iff_toNat_lt] at this
  have hsub : (s.inos.map UInt32.toNat).toFinset ⊆ Finset.range (n.toNat + 1) := by
    intro x hx
    obtain ⟨i, hi, rfl⟩ := List.mem_map.mp (List.mem_toFinset.mp hx)
    rw [Finset.mem_range]
    rcases h.range i hi with hlt | rfl
    · rw [UInt32.lt_iff_toNat_lt] at hlt
      omega
    · change 1 < _
      omega
  have hnodup : (s.inos.map UInt32.toNat).Nodup :=
    h.nodup.map fun _ _ hab => UInt32.toNat_inj.mp hab
  calc s.inodes.length = (s.inos.map UInt32.toNat).length := by
        rw [List.length_map, State.inos, List.length_map]
    _ = (s.inos.map UInt32.toNat).toFinset.card := (List.toFinset_card_of_nodup hnodup).symm
    _ ≤ (Finset.range (n.toNat + 1)).card := Finset.card_le_card hsub
    _ = n.toNat + 1 := Finset.card_range _

theorem Sane1.of_calm {s t : State} (h : Sane1 n s) (hc : calm s = calm t) : Sane1 n t := by
  obtain ⟨h1, h2, -, h4⟩ : s.inodes = t.inodes ∧ s.sb = t.sb ∧ s.inodesSorted = t.inodesSorted ∧
      s.marks = t.marks := by simpa [calm] using hc
  obtain ⟨hp, hn, hd, hr, hs, hf⟩ := h
  rw [State.inos, h1] at hd hr hs
  rw [h4] at hs hf
  exact ⟨hp, h2 ▸ hn, hd, hr, hs, hf⟩

theorem marks_of_calm {s t : State} (hc : calm s = calm t) : s.marks = t.marks :=
  congrArg (fun c => c.2.2.2) hc

theorem inodes_of_calm {s t : State} (hc : calm s = calm t) : s.inodes = t.inodes :=
  congrArg (fun c => c.1) hc

/-- The calls made so far are within `k` of the entries gone through. -/
theorem Sane1.within {s : State} {k : ℕ} (h : Sane1 n s)
    (h1 : dirCalls1 s.marks ≤ k + entries1 s.marks)
    (h2 : inodeCalls1 s.marks ≤ k + entries1 s.marks) : Within k n s.marks := by
  refine ⟨h1, h2, h.scanned.1, fun i hi => h.range i (h.scanned.2 i hi), ?_, ?_, ?_⟩
  · rw [h.fresh2.2]
    exact Nat.zero_le _
  · rw [h.fresh2.1]
    exact List.nodup_nil
  · rw [h.fresh2.1]
    intro i hi
    exact absurd hi (List.not_mem_nil)

/-- The debts of phase 1: how many more calls than entries. -/
def debt1 (l : List Event) : ℤ × ℤ :=
  (dirCalls1 l - entries1 l, inodeCalls1 l - entries1 l)

/-- A sane state with this table and these marks, with no more than one call to spare. -/
structure At1 (n : UInt32) (ins : List Inodeinfo) (l : List Event) (s : State) : Prop where
  sane : Sane1 n s
  inodes : s.inodes = ins
  marks : s.marks = l
  debt : (debt1 l).1 ≤ 1 ∧ (debt1 l).2 ≤ 1

variable {ins : List Inodeinfo} {l : List Event} {s : State}

theorem At1.stop {e : Halt} (h : At1 n ins l s) (he : e ≠ .fuel) : Stop n e s := by
  obtain ⟨hs, -, rfl, hd1, hd2⟩ := h
  change (dirCalls1 s.marks : ℤ) - entries1 s.marks ≤ 1 at hd1
  change (inodeCalls1 s.marks : ℤ) - entries1 s.marks ≤ 1 at hd2
  exact ⟨he, hs.within (by omega) (by omega)⟩

theorem At1.of_calm {t : State} (h : At1 n ins l s) (hc : calm s = calm t) : At1 n ins l t :=
  ⟨h.sane.of_calm hc, (inodes_of_calm hc).symm.trans h.inodes,
    (marks_of_calm hc).symm.trans h.marks, h.debt⟩

/-- A calm part of phase 1. -/
theorem wp_calm1 {α : Type} {x : Ck α} (hx : Calm x) (h : At1 n ins l s) :
    wp (Watch.any ckGrowth) x (fun _ t => At1 n ins l t) (Stop n) s :=
  wp_of_keeps hx (fun _ _ ht => h.of_calm ht) fun _ _ ht he => (h.of_calm ht).stop he

/-- The step that enters a mark of phase 1 in the log. -/
theorem wp_record1 {e : Event} {hd : e.isDup = false} (hw : e.isWarn = false) (h : At1 n ins l s)
    (hdebt : (debt1 (e :: l)).1 ≤ 1 ∧ (debt1 (e :: l)).2 ≤ 1)
    (hscan : (scans1 (e :: l)).Nodup ∧ ∀ i ∈ scans1 (e :: l), i ∈ ins.map Inodeinfo.ino)
    (hfresh : scans2 (e :: l) = scans2 l ∧ dirCalls2 (e :: l) = dirCalls2 l) :
    wp (Watch.any ckGrowth) (record e hd) (fun _ t => At1 n ins (e :: l) t) (Stop n) s := by
  obtain ⟨hs, rfl, rfl, -⟩ := h
  refine wp_update fun _ => ⟨⟨hs.pos, hs.nblocks, hs.nodup, hs.range, ?_, ?_⟩, rfl,
    marks_record hw s, hdebt⟩
  · rw [marks_record hw s]
    exact hscan
  · rw [marks_record hw s, hfresh.1, hfresh.2]
    exact hs.fresh2

/-- `inode_add` either finds the inode or appends it. -/
theorem wp_inodeAdd1 {env : Env} {ino : UInt32} {type : UInt16} (h : At1 n ins l s)
    (hino : ino < n ∨ ino = sfsRootdirIno) :
    wp (Watch.any ckGrowth) (inodeAdd env ino type) (fun been t =>
      been = true ∧ At1 n ins l t ∨ been = false ∧ ino ∉ ins.map Inodeinfo.ino ∧
        At1 n (ins ++ [⟨ino, 0, false, type⟩]) l t) (Stop n) s := by
  refine wp_bind (wp_get fun _ => ?_)
  split
  · refine wp_seq (wp_calm1 (calm_assert _) h) fun _ t _ _ ht => ?_
    refine wp_seq (wp_calm1 (calm_assert _) ht) fun _ u _ _ hu => ?_
    exact wp_pure fun _ => Or.inl ⟨rfl, hu⟩
  · next hfind =>
    have hnew : ino ∉ ins.map Inodeinfo.ino := by
      rw [h.inodes, List.find?_eq_none] at hfind
      intro hmem
      obtain ⟨inf, hinf, rfl⟩ := List.mem_map.mp hmem
      simpa using hfind inf hinf
    refine wp_bind (wp_bind (wp_get fun _ => ?_))
    refine wp_seq (wp_calm1 (calm_assert _) h) fun _ t _ _ ht => ?_
    refine wp_seq (wp_calm1 (keeps_when (keeps_bind (calm_domalloc env _) fun _ =>
      calm_modify (fun _ => rfl) (fun _ => rfl) fun _ => rfl)) ht) fun _ u _ _ hu => ?_
    obtain ⟨hsane, rfl, rfl, hdebt⟩ := hu
    refine wp_update fun _ => wp_pure fun _ => Or.inr ⟨rfl, hnew, ?_⟩
    refine ⟨⟨hsane.pos, hsane.nblocks, ?_, ?_, ?_, hsane.fresh2⟩, rfl, rfl, hdebt⟩
    · change (List.map Inodeinfo.ino (u.inodes ++ [⟨ino, 0, false, type⟩])).Nodup
      rw [List.map_append]
      refine List.nodup_append.mpr ⟨hsane.nodup, by simp, ?_⟩
      rintro a ha b hb rfl
      rw [List.map_singleton, List.mem_singleton] at hb
      rw [hb] at ha
      exact hnew ha
    · change ∀ i ∈ List.map Inodeinfo.ino (u.inodes ++ [⟨ino, 0, false, type⟩]), _
      intro i hmem
      rw [List.map_append, List.mem_append, List.map_singleton, List.mem_singleton] at hmem
      rcases hmem with hmem | rfl
      · exact hsane.range i hmem
      · exact hino
    · refine ⟨hsane.scanned.1, fun i hmem => ?_⟩
      change i ∈ List.map Inodeinfo.ino (u.inodes ++ [⟨ino, 0, false, type⟩])
      rw [List.map_append, List.mem_append]
      exact Or.inl (hsane.scanned.2 i hmem)

/-- A call of `pass1_inode` adds the inode to the table if it was not there. -/
theorem wp_pass1Inode1 {env : Env} {ino : UInt32} {sfi : Dinode} {ch : Bool} (h : At1 n ins l s)
    (hino : ino < n ∨ ino = sfsRootdirIno) (hd : (debt1 l).2 ≤ 0) :
    wp (Watch.any ckGrowth) (pass1Inode env ino sfi ch) (fun r t =>
      r.2 = true ∧ At1 n ins (.pass1Inode ino :: l) t ∨
      r.2 = false ∧ ino ∉ ins.map Inodeinfo.ino ∧
        ∃ type, At1 n (ins ++ [⟨ino, 0, false, type⟩]) (.pass1Inode ino :: l) t) (Stop n) s := by
  have hdebt : (debt1 (.pass1Inode ino :: l)).1 ≤ 1 ∧ (debt1 (.pass1Inode ino :: l)).2 ≤ 1 := by
    have hd1 := h.debt.1
    simp only [debt1, dirCalls1, inodeCalls1, entries1, List.map_cons, List.sum_cons] at hd hd1 ⊢
    omega
  have hscan : (scans1 l).Nodup ∧ ∀ i ∈ scans1 l, i ∈ ins.map Inodeinfo.ino := by
    rw [← h.marks, ← h.inodes]
    exact h.sane.scanned
  have hcalls : dirCalls2 (.pass1Inode ino :: l) = dirCalls2 l := by simp [dirCalls2]
  refine wp_seq (wp_record1 rfl h hdebt hscan ⟨rfl, hcalls⟩) fun _ s1 _ _ h1 => ?_
  refine wp_seq (wp_inodeAdd1 h1 hino) fun been s2 _ _ hadd => ?_
  rcases hadd with ⟨rfl, h2⟩ | ⟨rfl, hnew, h2⟩
  · refine wp_seq (wp_calm1 (calm_assert _) h2) fun _ s3 _ _ h3 => ?_
    exact wp_pure fun _ => Or.inl ⟨rfl, h3⟩
  · refine wp_seq (wp_calm1 (calm_freemapBlockinuse _ _ _) h2) fun _ s3 _ _ h3 => ?_
    refine wp_seq (wp_calm1 (keeps_when (calm_complain' _ _ _)) h3) fun _ s4 _ _ h4 => ?_
    refine wp_seq (wp_calm1 (calm_checkInodeBlocks _ _ _) h4) fun r s5 _ _ h5 => ?_
    refine wp_seq (wp_calm1 (keeps_when (calm_diskwrite _ _)) h5) fun _ s6 _ _ h6 => ?_
    exact wp_pure fun _ => Or.inr ⟨rfl, hnew, _, h6⟩

/-- A step of phase 1 that made calls for at most `c` more entries than it went through, whatever
it added to the table. -/
def Advance1 (n : UInt32) (c : ℤ) (s t : State) : Prop :=
  Sane1 n t ∧ s.inodes.length ≤ t.inodes.length ∧
    (debt1 t.marks).1 ≤ (debt1 s.marks).1 + c ∧ (debt1 t.marks).2 ≤ (debt1 s.marks).2 + c

theorem Advance1.trans {c d : ℤ} {t u : State} (h1 : Advance1 n c s t) (h2 : Advance1 n d t u) :
    Advance1 n (c + d) s u := by
  obtain ⟨-, hl1, ha1, hb1⟩ := h1
  obtain ⟨hs, hl2, ha2, hb2⟩ := h2
  exact ⟨hs, by omega, by omega, by omega⟩

theorem At1.advance {t : State} {c : ℤ} (h : At1 n ins l t) (hlen : s.inodes.length ≤ ins.length)
    (hd : (debt1 l).1 ≤ (debt1 s.marks).1 + c ∧ (debt1 l).2 ≤ (debt1 s.marks).2 + c) :
    Advance1 n c s t := by
  obtain ⟨hs, rfl, rfl, -⟩ := h
  exact ⟨hs, hlen, hd.1, hd.2⟩

theorem Sane1.at1 (h : Sane1 n s) (hd : (debt1 s.marks).1 ≤ 1 ∧ (debt1 s.marks).2 ≤ 1) :
    At1 n s.inodes s.marks s :=
  ⟨h, rfl, rfl, hd⟩

/-- `pass1_direntry` leaves no entry with an inode number outside the volume. -/
theorem wp_pass1Direntry1 {i : ℕ} {sfd : Direntry} (h : At1 n ins l s) :
    wp (Watch.any ckGrowth) (pass1Direntry i sfd) (fun r t =>
      At1 n ins l t ∧ (r.1.sfdIno = 0 ∨ r.1.sfdIno < n)) (Stop n) s := by
  refine wp_bind (wp_bind (wp_get fun _ => wp_pure fun _ => ?_))
  rw [h.sane.nblocks]
  refine wp_ite (fun h0 => wp_ite (fun _ => ?_) fun _ => ?_) fun h0 =>
    wp_ite (fun _ => ?_) fun hlt => ?_
  · refine wp_seq (wp_calm1 (calm_setbadness _) h) fun _ t _ _ ht => ?_
    refine wp_seq (wp_calm1 (calm_warnx _ _) ht) fun _ u _ _ hu => ?_
    exact wp_pure fun _ => ⟨hu, Or.inl rfl⟩
  · exact wp_pure fun _ => ⟨h, Or.inl h0⟩
  · refine wp_seq (wp_calm1 (calm_setbadness _) h) fun _ t _ _ ht => ?_
    refine wp_seq (wp_calm1 (calm_warnx _ _) ht) fun _ u _ _ hu => ?_
    exact wp_pure fun _ => ⟨hu, Or.inl rfl⟩
  · have hname : Calm (if sfd.sfdName.get 0 = 0 then do
          let m ← uniqueid
          setbadness exitRecov
          warnx (.fileButNoName i)
          pure (setCstr sfd.sfdName (fsckName sfd.sfdIno m), true)
        else pure (sfd.sfdName, false) : Ck (Bytes 60 × Bool)) :=
      keeps_ite (keeps_bind calm_uniqueid fun _ => keeps_bind (calm_setbadness _) fun _ =>
        keeps_bind (calm_warnx _ _) fun _ => keeps_pure _) (keeps_pure _)
    refine wp_seq (wp_calm1 hname h) fun named t _ _ ht => ?_
    refine wp_seq (wp_calm1 (keeps_when (calm_complain _ _ _)) ht) fun _ u _ _ hu => ?_
    refine wp_seq (wp_calm1 (keeps_when (calm_complain _ _ _)) hu) fun _ v _ _ hv => ?_
    refine wp_pure fun _ => ⟨hv, Or.inr ?_⟩
    change sfd.sfdIno < n
    rw [UInt32.lt_iff_toNat_lt]
    rw [UInt32.le_iff_toNat_le] at hlt
    omega

/-- One object of a directory costs one call, given that the recursive call costs one. -/
theorem wp_pass1Subobject1 {env : Env} {recurse : UInt32 → Ck Unit} {dchanged : Bool} {i : ℕ}
    {sfd : Direntry} (h : Sane1 n s) (hsfd : sfd.sfdIno = 0 ∨ sfd.sfdIno < n)
    (hd : (debt1 s.marks).1 ≤ 0 ∧ (debt1 s.marks).2 ≤ 0)
    (hrec : ∀ ino t, Sane1 n t → ino < n → t.inodes.length = s.inodes.length →
      (debt1 t.marks).1 ≤ 0 ∧ (debt1 t.marks).2 ≤ 0 →
      wp (Watch.any ckGrowth) (recurse ino) (fun _ u => Advance1 n 1 t u) (Stop n) t) :
    wp (Watch.any ckGrowth) (pass1Subobject env recurse dchanged i sfd)
      (fun _ t => Advance1 n 1 s t) (Stop n) s := by
  have hskip : Advance1 n 1 s s := ⟨h, le_rfl, by omega, by omega⟩
  have hat : At1 n s.inodes s.marks s := h.at1 (by omega)
  refine wp_ite (fun _ => wp_pure fun _ => hskip) fun h0 => ?_
  refine wp_ite (fun _ => wp_pure fun _ => hskip) fun _ => ?_
  refine wp_ite (fun _ => wp_pure fun _ => hskip) fun _ => ?_
  have hlt : sfd.sfdIno < n := hsfd.resolve_left h0
  refine wp_seq (wp_calm1 (calm_sfsReadinode _) hat) fun subsfi t _ _ ht => ?_
  have hdt : (debt1 t.marks).1 ≤ 0 ∧ (debt1 t.marks).2 ≤ 0 := by
    rw [ht.marks]
    exact hd
  refine wp_ite (fun _ => ?_) fun _ => wp_ite (fun _ => ?_) fun _ => ?_
  · have hcost : (debt1 (.pass1Inode sfd.sfdIno :: s.marks)).1 ≤ (debt1 s.marks).1 + 1 ∧
        (debt1 (.pass1Inode sfd.sfdIno :: s.marks)).2 ≤ (debt1 s.marks).2 + 1 := by
      simp only [debt1, dirCalls1, inodeCalls1, entries1, List.map_cons, List.sum_cons]
      omega
    have hcount : ∀ been : Bool, Calm (when (been = false)
        (modify fun c => { c with countFiles := c.countFiles + 1 })) := fun _ =>
      keeps_when (calm_modify (fun _ => rfl) (fun _ => rfl) fun _ => rfl)
    refine wp_seq (wp_pass1Inode1 ht (Or.inl hlt) hd.2) fun r u _ _ hr => ?_
    rcases hr with ⟨-, hu⟩ | ⟨-, -, type, hu⟩
    · refine wp_seq (wp_calm1 (hcount r.2) hu) fun _ v _ _ hv => wp_pure fun _ => ?_
      exact hv.advance le_rfl hcost
    · refine wp_seq (wp_calm1 (hcount r.2) hu) fun _ v _ _ hv => wp_pure fun _ => ?_
      exact hv.advance (by rw [List.length_append]; omega) hcost
  · refine wp_seq (hrec _ t ht.sane hlt (by rw [ht.inodes]) hdt) fun _ u _ _ hu => ?_
    refine wp_pure fun _ => ?_
    obtain ⟨h1, h2, h3, h4⟩ := hu
    rw [ht.marks] at h3 h4
    rw [ht.inodes] at h2
    exact ⟨h1, h2, h3, h4⟩
  · refine wp_seq (wp_calm1 (calm_setbadness _) ht) fun _ u _ _ hu => ?_
    refine wp_seq (wp_calm1 (calm_warnx _ _) hu) fun _ v _ _ hv => wp_pure fun _ => ?_
    exact hv.advance le_rfl (by omega)

/-- **Phase 1.** A call of `pass1_dir` with as much budget as the table can still grow does not run
out of it, and costs at most one call more than it goes through entries. -/
theorem wp_pass1Dir1 {env : Env} : ∀ (k : ℕ) (ino : UInt32) (s : State), Sane1 n s →
    (ino < n ∨ ino = sfsRootdirIno) → n.toNat + 2 ≤ k + s.inodes.length →
    (debt1 s.marks).1 ≤ 0 ∧ (debt1 s.marks).2 ≤ 0 →
    wp (Watch.any ckGrowth) (pass1Dir env k ino) (fun _ t => Advance1 n 1 s t) (Stop n) s := by
  intro k
  induction k with
  | zero =>
    intro ino s h _ hk _
    have := h.length_le
    omega
  | succ k ih =>
    intro ino s h hino hk hd
    have hat : At1 n s.inodes s.marks s := h.at1 (by omega)
    have hcost : (debt1 (.pass1Dir ino :: s.marks)).1 ≤ (debt1 s.marks).1 + 1 ∧
        (debt1 (.pass1Dir ino :: s.marks)).2 = (debt1 s.marks).2 := by
      simp only [debt1, dirCalls1, inodeCalls1, entries1, List.map_cons, List.sum_cons]
      omega
    have hcost' : (debt1 (.pass1Inode ino :: .pass1Dir ino :: s.marks)).1 ≤ (debt1 s.marks).1 + 1 ∧
        (debt1 (.pass1Inode ino :: .pass1Dir ino :: s.marks)).2 ≤ (debt1 s.marks).2 + 1 := by
      simp only [debt1, dirCalls1, inodeCalls1, entries1, List.map_cons, List.sum_cons]
      omega
    rw [pass1Dir]
    refine wp_seq (wp_record1 rfl hat (by omega) h.scanned ⟨rfl, by simp [dirCalls2]⟩)
      fun _ s1 _ _ h1 => ?_
    refine wp_seq (wp_calm1 (calm_sfsReadinode _) h1) fun sfi s2 _ _ h2 => ?_
    refine wp_seq (wp_calm1 (calm_fixSize _) h2) fun fixed s3 _ _ h3 => ?_
    refine wp_seq (wp_calm1 (calm_modify (fun _ => rfl) (fun _ => rfl) fun _ => rfl) h3)
      fun _ s4 _ _ h4 => ?_
    refine wp_seq (wp_pass1Inode1 h4 hino (by omega)) fun r s5 _ _ h5 => ?_
    obtain ⟨sfi', been⟩ := r
    rcases h5 with ⟨rfl, h5⟩ | ⟨rfl, hnew, type, h5⟩
    · exact wp_pure fun _ => h5.advance le_rfl hcost'
    refine wp_seq (wp_calm1 (calm_domalloc _ _) h5) fun _ s6 _ _ h6 => ?_
    refine wp_seq (wp_calm1 (calm_sfsReaddir _ _) h6) fun es s7 _ _ h7 => ?_
    -- the directory is gone through: its entries pay for the calls that follow
    have hdebt : ∀ m : ℕ, (debt1 (.scan1 ino m :: .pass1Inode ino :: .pass1Dir ino :: s.marks)).1 ≤
          (debt1 s.marks).1 + 1 - m ∧
        (debt1 (.scan1 ino m :: .pass1Inode ino :: .pass1Dir ino :: s.marks)).2 ≤
          (debt1 s.marks).2 + 1 - m := by
      intro m
      simp only [debt1, dirCalls1, inodeCalls1, entries1, List.map_cons, List.sum_cons]
      omega
    refine wp_seq (wp_record1 (e := .scan1 ino es.length) rfl h7 ?_ ?_ ⟨rfl, by simp [dirCalls2]⟩)
      fun _ s8 _ _ h8 => ?_
    · have := hdebt es.length
      omega
    · have hsub : ∀ i ∈ scans1 s.marks, i ∈ s.inodes.map Inodeinfo.ino := h.scanned.2
      refine ⟨List.nodup_cons.mpr ⟨fun hmem => hnew (hsub ino hmem), h.scanned.1⟩, ?_⟩
      intro i hi
      rw [List.map_append, List.mem_append]
      rcases List.mem_cons.mp hi with rfl | hi
      · exact Or.inr (by simp)
      · exact Or.inl (hsub i hi)
    refine wp_seq (wp_mapEntries (fun pre out _ t =>
        At1 n (s.inodes ++ [⟨ino, 0, false, type⟩])
          (.scan1 ino es.length :: .pass1Inode ino :: .pass1Dir ino :: s.marks) t ∧
        out.length = pre.length ∧ ∀ e ∈ out, e.sfdIno = 0 ∨ e.sfdIno < n)
        ⟨h8, rfl, by simp⟩ ?_) fun checked s9 _ _ h9 => ?_
    · rintro pre e post out b t - - ⟨ht, hlen, hout⟩
      refine wp_seq (wp_pass1Direntry1 ht) fun r u _ _ hu => wp_pure fun _ => ⟨hu.1, ?_, ?_⟩
      · rw [List.length_append, List.length_append, hlen]
        rfl
      · intro e' he'
        rcases List.mem_append.mp he' with he' | he'
        · exact hout e' he'
        · rw [List.mem_singleton.mp he']
          exact hu.2
    obtain ⟨h9, hlen9, hrange⟩ := h9
    refine wp_seq (wp_mapEntries (fun pre _ _ t => Advance1 n pre.length s9 t)
      ⟨h9.sane, le_rfl, by simp, by simp⟩ ?_) fun done s10 _ _ h10 => ?_
    · intro pre e post out b t hes _ ht
      have hpre : pre.length < es.length := by
        rw [← hlen9, hes, List.length_append, List.length_cons]
        omega
      have hcur : (debt1 t.marks).1 ≤ 0 ∧ (debt1 t.marks).2 ≤ 0 := by
        obtain ⟨-, -, ha, hb⟩ := ht
        have := hdebt es.length
        rw [h9.marks] at ha hb
        omega
      have hlen : s.inodes.length + 1 ≤ t.inodes.length := by
        have h1 := ht.2.1
        rw [h9.inodes, List.length_append, List.length_singleton] at h1
        exact h1
      refine wp_post (wp_pass1Subobject1 ht.1 (hrange e (by rw [hes]; simp)) hcur ?_)
        fun r u _ _ hu => ?_
      · intro sub u hu hsub hul hud
        exact ih sub u hu (Or.inl hsub) (by omega) hud
      · rw [List.length_append, List.length_singleton]
        push_cast
        exact ht.trans hu
    · have hend : (debt1 s10.marks).1 ≤ (debt1 s.marks).1 + 1 ∧
          (debt1 s10.marks).2 ≤ (debt1 s.marks).2 + 1 := by
        obtain ⟨-, -, ha, hb⟩ := h10
        have := hdebt es.length
        rw [h9.marks, hlen9] at ha hb
        omega
      have hlen : s.inodes.length ≤ s10.inodes.length := by
        have h1 := h10.2.1
        rw [h9.inodes, List.length_append] at h1
        omega
      exact wp_post (wp_calm1 (keeps_when (calm_sfsWritedir _ _ _)) (h10.1.at1 (by omega)))
        fun _ t _ _ ht => ht.advance hlen hend

/-! ### Phase 2 -/

/-- The number of directories phase 2 can still visit. -/
def unvisited (ins : List Inodeinfo) : ℕ := ins.countP fun inf => !inf.visited

/-- Changing an entry of the table other than its number: what happens to the numbers and to the
count of unvisited entries. -/
theorem map_ino_set {ins : List Inodeinfo} {i : ℕ} {inf : Inodeinfo} (h : ins[i]? = some inf)
    (inf' : Inodeinfo) (hino : inf'.ino = inf.ino) :
    (ins.set i inf').map Inodeinfo.ino = ins.map Inodeinfo.ino := by
  rw [List.map_set, hino]
  refine List.ext_getElem? fun j => ?_
  rw [List.getElem?_set]
  split
  · next hij =>
    subst hij
    obtain ⟨hlt, rfl⟩ := List.getElem?_eq_some_iff.mp h
    simp [hlt]
  · rfl

theorem unvisited_set {ins : List Inodeinfo} {i : ℕ} {inf : Inodeinfo} (h : ins[i]? = some inf)
    (inf' : Inodeinfo) :
    unvisited (ins.set i inf') + (if inf.visited then 0 else 1) =
      unvisited ins + (if inf'.visited then 0 else 1) := by
  obtain ⟨hlt, rfl⟩ := List.getElem?_eq_some_iff.mp h
  rw [unvisited, unvisited, List.countP_set hlt]
  have hpos : ins[i].visited = false → 0 < ins.countP fun inf => !inf.visited := by
    intro hv
    exact List.countP_pos_iff.mpr ⟨ins[i], List.getElem_mem hlt, by simp [hv]⟩
  generalize (ins.countP fun inf => !inf.visited) = c at hpos ⊢
  cases hv : ins[i].visited with
  | true => cases inf'.visited <;> rfl
  | false =>
    have := hpos hv
    cases inf'.visited <;> simp <;> omega

/-- The entry `ino` of the table has been visited. -/
def Visited (ins : List Inodeinfo) (ino : UInt32) : Prop :=
  ∃ inf ∈ ins, inf.ino = ino ∧ inf.visited = true

/-- What phase 2 keeps true of the table and the calls. -/
structure Sane2 (n : UInt32) (s : State) : Prop where
  nodup : s.inos.Nodup
  range : ∀ i ∈ s.inos, i < n ∨ i = sfsRootdirIno
  scanned : (scans2 s.marks).Nodup ∧ ∀ i ∈ scans2 s.marks, Visited s.inodes i
  phase1 : dirCalls1 s.marks ≤ 1 + entries1 s.marks ∧ inodeCalls1 s.marks ≤ 1 + entries1 s.marks ∧
    (scans1 s.marks).Nodup ∧ ∀ i ∈ scans1 s.marks, i < n ∨ i = sfsRootdirIno

/-- How many more calls than entries in phase 2. -/
def debt2 (l : List Event) : ℤ := dirCalls2 l - entries2 l

/-- A sane state with this table and these marks, with no more than one call to spare. -/
structure At2 (n : UInt32) (ins : List Inodeinfo) (l : List Event) (s : State) : Prop where
  sane : Sane2 n s
  inodes : s.inodes = ins
  marks : s.marks = l
  debt : debt2 l ≤ 1

theorem At2.stop {e : Halt} (h : At2 n ins l s) (he : e ≠ .fuel) : Stop n e s := by
  obtain ⟨hs, -, rfl, hd⟩ := h
  change (dirCalls2 s.marks : ℤ) - entries2 s.marks ≤ 1 at hd
  refine ⟨he, hs.phase1.1, hs.phase1.2.1, hs.phase1.2.2.1, hs.phase1.2.2.2, by omega,
    hs.scanned.1, fun i hi => ?_⟩
  obtain ⟨inf, hinf, rfl, -⟩ := hs.scanned.2 i hi
  exact hs.range inf.ino (List.mem_map_of_mem hinf)

theorem At2.of_calm {t : State} (h : At2 n ins l s) (hc : calm s = calm t) : At2 n ins l t := by
  have h1 := inodes_of_calm hc
  have h2 := marks_of_calm hc
  obtain ⟨⟨hd, hr, hs, hp⟩, rfl, rfl, hdebt⟩ := h
  rw [State.inos, h1] at hd hr
  rw [h1, h2] at hs
  rw [h2] at hp
  exact ⟨⟨hd, hr, hs, hp⟩, h1.symm, h2.symm, hdebt⟩

/-- A calm part of phase 2. -/
theorem wp_calm2 {α : Type} {x : Ck α} (hx : Calm x) (h : At2 n ins l s) :
    wp (Watch.any ckGrowth) x (fun _ t => At2 n ins l t) (Stop n) s :=
  wp_of_keeps hx (fun _ _ ht => h.of_calm ht) fun _ _ ht he => (h.of_calm ht).stop he

/-- The step that enters a mark of phase 2 in the log. -/
theorem wp_record2 {e : Event} {hd : e.isDup = false} (hw : e.isWarn = false) (h : At2 n ins l s)
    (hdebt : debt2 (e :: l) ≤ 1)
    (hscan : (scans2 (e :: l)).Nodup ∧ ∀ i ∈ scans2 (e :: l), Visited ins i)
    (h1 : dirCalls1 (e :: l) = dirCalls1 l ∧ inodeCalls1 (e :: l) = inodeCalls1 l ∧
      entries1 (e :: l) = entries1 l ∧ scans1 (e :: l) = scans1 l) :
    wp (Watch.any ckGrowth) (record e hd) (fun _ t => At2 n ins (e :: l) t) (Stop n) s := by
  obtain ⟨hs, rfl, rfl, -⟩ := h
  refine wp_update fun _ => ⟨⟨hs.nodup, hs.range, ?_, ?_⟩, rfl, marks_record hw s, hdebt⟩
  · rw [marks_record hw s]
    exact hscan
  · rw [marks_record hw s, h1.1, h1.2.1, h1.2.2.1, h1.2.2.2]
    exact hs.phase1

/-- `inode_find` changes nothing, and what it finds is there. -/
theorem wp_inodeFind2 {ino : UInt32} (h : At2 n ins l s) :
    wp (Watch.any ckGrowth) (inodeFind ino) (fun r t => At2 n ins l t ∧ ins[r.1]? = some r.2 ∧
      r.2.ino = ino) (Stop n) s := by
  refine wp_bind (wp_get fun _ => ?_)
  refine wp_seq (wp_calm2 (calm_assert _) h) fun _ t _ _ ht => ?_
  refine wp_seq (wp_calm2 (calm_assert _) ht) fun _ u _ _ hu => ?_
  split
  · exact wp_halt fun _ => hu.stop (by simp)
  · next i hfind =>
    obtain ⟨inf, hinf, hino⟩ := findLoop_some _ _ _ i hfind
    split
    · next hnone =>
      rw [hnone] at hinf
      cases hinf
    · next inf' hinf' =>
      rw [hinf'] at hinf
      obtain rfl := Option.some.inj hinf
      exact wp_pure fun _ => ⟨hu, h.inodes ▸ hinf', hino⟩

/-- Changing an entry of the table without its number, and without unmarking it. -/
theorem At2.set {i : ℕ} {inf : Inodeinfo} (h : At2 n ins l s) (hinf : ins[i]? = some inf)
    (inf' : Inodeinfo) (hino : inf'.ino = inf.ino)
    (hvis : inf.visited = true → inf'.visited = true) :
    At2 n (ins.set i inf') l
      { s with toCore := { s.toCore with inodes := s.inodes.set i inf' } } := by
  obtain ⟨⟨hd, hr, hs, hp⟩, rfl, rfl, hdebt⟩ := h
  have hinos := map_ino_set hinf inf' hino
  refine ⟨⟨?_, ?_, ⟨hs.1, fun j hj => ?_⟩, hp⟩, rfl, rfl, hdebt⟩
  · change ((s.inodes.set i inf').map Inodeinfo.ino).Nodup
    rw [hinos]
    exact hd
  · change ∀ j ∈ (s.inodes.set i inf').map Inodeinfo.ino, _
    rw [hinos]
    exact hr
  · obtain ⟨g, hg, rfl, hgv⟩ := hs.2 j hj
    obtain ⟨m, hm, rfl⟩ := List.mem_iff_getElem.mp hg
    obtain ⟨hlt, rfl⟩ := List.getElem?_eq_some_iff.mp hinf
    by_cases him : i = m
    · subst him
      exact ⟨inf', List.mem_set hlt inf', hino, hvis hgv⟩
    · refine ⟨s.inodes[m], ?_, rfl, hgv⟩
      refine List.mem_iff_getElem.mpr ⟨m, by rw [List.length_set]; exact hm, ?_⟩
      rw [List.getElem_set_ne him]

/-- `inode_visitdir` either finds the directory visited, or makes it so. -/
theorem wp_inodeVisitdir2 {ino : UInt32} (h : At2 n ins l s) :
    wp (Watch.any ckGrowth) (inodeVisitdir ino) (fun been t =>
      been = true ∧ At2 n ins l t ∨ been = false ∧ ∃ ins', At2 n ins' l t ∧ ¬Visited ins ino ∧
        Visited ins' ino ∧ unvisited ins' + 1 = unvisited ins) (Stop n) s := by
  refine wp_seq (wp_inodeFind2 h) fun r t _ _ ⟨ht, hr, hino⟩ => ?_
  obtain ⟨i, inf⟩ := r
  refine wp_seq (wp_calm2 (calm_assert _) ht) fun _ u _ _ hu => ?_
  refine wp_seq (wp_calm2 (calm_assert _) hu) fun _ v _ _ hv => ?_
  refine wp_ite (fun _ => wp_pure fun _ => Or.inl ⟨rfl, hv⟩) fun hnv => ?_
  refine wp_bind (wp_update fun _ => wp_pure fun _ => Or.inr ⟨rfl, ?_⟩)
  refine ⟨_, hv.set hr { inf with visited := true } rfl fun _ => rfl, ?_, ?_, ?_⟩
  · rintro ⟨g, hg, hgino, hgv⟩
    -- numbers are pairwise different, so that entry is this one
    have hnd : (ins.map Inodeinfo.ino).Nodup := by
      rw [← hv.inodes]
      exact hv.sane.nodup
    have heq : g = inf := List.inj_on_of_nodup_map hnd hg (List.mem_of_getElem? hr)
      (hgino.trans hino.symm)
    exact hnv (heq ▸ hgv)
  · obtain ⟨hlt, -⟩ := List.getElem?_eq_some_iff.mp hr
    exact ⟨{ inf with visited := true }, List.mem_set hlt _, hino, rfl⟩
  · have := unvisited_set hr { inf with visited := true }
    simpa [hnv] using this

/-- A step of phase 2 that made at most `c` calls more than it went through entries. -/
def Advance2 (n : UInt32) (c : ℤ) (s t : State) : Prop :=
  Sane2 n t ∧ unvisited t.inodes ≤ unvisited s.inodes ∧ debt2 t.marks ≤ debt2 s.marks + c

theorem Advance2.trans {c d : ℤ} {t u : State} (h1 : Advance2 n c s t) (h2 : Advance2 n d t u) :
    Advance2 n (c + d) s u := by
  obtain ⟨-, hl1, ha1⟩ := h1
  obtain ⟨hs, hl2, ha2⟩ := h2
  exact ⟨hs, by omega, by omega⟩

theorem At2.advance {t : State} {c : ℤ} (h : At2 n ins l t)
    (hv : unvisited ins ≤ unvisited s.inodes) (hd : debt2 l ≤ debt2 s.marks + c) :
    Advance2 n c s t := by
  obtain ⟨hs, rfl, rfl, -⟩ := h
  exact ⟨hs, hv, hd⟩

/-- One object of a directory costs one call, given that the recursive call costs one. -/
theorem wp_pass2Subobject2 {recurse : UInt32 → Ck Bool} {acc : SubScan} {i : ℕ} {sfd : Direntry}
    (h : Sane2 n s) (hd : debt2 s.marks ≤ 0)
    (hrec : ∀ ino t, Sane2 n t → unvisited t.inodes ≤ unvisited s.inodes → debt2 t.marks ≤ 0 →
      wp (Watch.any ckGrowth) (recurse ino) (fun _ u => Advance2 n 1 t u) (Stop n) t) :
    wp (Watch.any ckGrowth) (pass2Subobject recurse acc i sfd)
      (fun _ t => Advance2 n 1 s t) (Stop n) s := by
  have hskip : Advance2 n 1 s s := ⟨h, le_rfl, by omega⟩
  have hat : At2 n s.inodes s.marks s := ⟨h, rfl, rfl, by omega⟩
  refine wp_ite (fun _ => wp_pure fun _ => hskip) fun _ => ?_
  refine wp_ite (fun _ => wp_pure fun _ => hskip) fun _ => ?_
  refine wp_ite (fun _ => wp_pure fun _ => hskip) fun _ => ?_
  refine wp_seq (wp_calm2 (calm_sfsReadinode _) hat) fun subsfi t _ _ ht => ?_
  refine wp_ite (fun _ => ?_) fun _ => wp_ite (fun _ => ?_) fun _ => ?_
  · refine wp_bind (wp_seq (wp_inodeFind2 ht) fun r u _ _ ⟨hu, hr, _⟩ => ?_)
    obtain ⟨j, inf⟩ := r
    change s.inodes[j]? = some inf at hr
    refine wp_seq (wp_calm2 (calm_assert _) hu) fun _ v _ _ hv => ?_
    refine wp_seq (wp_calm2 (calm_assert _) hv) fun _ w _ _ hw => ?_
    refine wp_update fun _ => wp_pure fun _ => ?_
    have hset := hw.set hr { inf with linkcount := inf.linkcount + 1 } rfl id
    refine hset.advance ?_ (by omega)
    have := unvisited_set hr { inf with linkcount := inf.linkcount + 1 }
    dsimp only at this
    omega
  · refine wp_seq (hrec _ t ht.sane (by rw [ht.inodes]) (by rw [ht.marks]; exact hd))
      fun crosslinked u _ _ hu => ?_
    have hadv : Advance2 n 1 s u := by
      obtain ⟨h1, h2, h3⟩ := hu
      rw [ht.inodes] at h2
      rw [ht.marks] at h3
      exact ⟨h1, h2, h3⟩
    refine wp_ite (fun _ => ?_) fun _ => wp_pure fun _ => hadv
    have hu' : At2 n u.inodes u.marks u := ⟨hadv.1, rfl, rfl, by have := hadv.2.2; omega⟩
    refine wp_seq (wp_calm2 (calm_setbadness _) hu') fun _ v _ _ hv => ?_
    refine wp_seq (wp_calm2 (calm_warnx _ _) hv) fun _ w _ _ hw => wp_pure fun _ => ?_
    exact hw.advance hadv.2.1 hadv.2.2
  · refine wp_seq (wp_calm2 (calm_setbadness _) ht) fun _ u _ _ hu => ?_
    refine wp_seq (wp_calm2 (calm_warnx _ _) hu) fun _ v _ _ hv => wp_pure fun _ => ?_
    exact hv.advance le_rfl (by omega)

/-- **Phase 2.** A call of `pass2_dir` with as much budget as there are directories left to visit
does not run out of it, and costs at most one call more than it goes through entries. -/
theorem wp_pass2Dir2 {env : Env} : ∀ (k : ℕ) (ino parentino : UInt32) (s : State), Sane2 n s →
    unvisited s.inodes < k → debt2 s.marks ≤ 0 →
    wp (Watch.any ckGrowth) (pass2Dir env k ino parentino) (fun _ t => Advance2 n 1 s t)
      (Stop n) s := by
  intro k
  induction k with
  | zero =>
    intro ino parentino s _ hk _
    exact absurd hk (Nat.not_lt_zero _)
  | succ k ih =>
    intro ino parentino s h hk hd
    have hat : At2 n s.inodes s.marks s := ⟨h, rfl, rfl, by omega⟩
    have hcost : ∀ m : ℕ, debt2 (.pass2Dir ino :: s.marks) = debt2 s.marks + 1 ∧
        debt2 (.scan2 ino m :: .pass2Dir ino :: s.marks) = debt2 s.marks + 1 - m := by
      intro m
      simp only [debt2, dirCalls2, entries2, List.map_cons, List.sum_cons]
      push_cast
      constructor <;> ring
    rw [pass2Dir]
    refine wp_seq (wp_record2 rfl hat (by rw [(hcost 0).1]; omega) h.scanned ?_)
      fun _ s1 _ _ h1 => ?_
    · exact ⟨by simp [dirCalls1], by simp [inodeCalls1], by simp [entries1], rfl⟩
    refine wp_seq (wp_inodeVisitdir2 h1) fun been s2 _ _ h2 => ?_
    rcases h2 with ⟨rfl, h2⟩ | ⟨rfl, ins', h2, hnot, hvis, hcount⟩
    · exact wp_pure fun _ => h2.advance le_rfl (by rw [(hcost 0).1])
    refine wp_seq (wp_calm2 (calm_sfsReadinode _) h2) fun sfi s3 _ _ h3 => ?_
    refine wp_seq (wp_calm2 (calm_domalloc _ _) h3) fun _ s4 _ _ h4 => ?_
    refine wp_seq (wp_calm2 (calm_domalloc _ _) h4) fun _ s5 _ _ h5 => ?_
    refine wp_seq (wp_calm2 (keeps_when (keeps_halt (by decide))) h5) fun _ s6 _ _ h6 => ?_
    refine wp_seq (wp_calm2 (calm_sfsReaddir _ _) h6) fun read s7 _ _ h7 => ?_
    refine wp_seq (wp_calm2 (calm_pass2Names _ _ _ _ _) h7) fun b s8 _ _ h8 => ?_
    generalize b.direntries.take b.ndirentries.toNat = es
    refine wp_seq (wp_record2 (e := .scan2 ino es.length) rfl h8 ?_ ?_ ?_) fun _ s9 _ _ h9 => ?_
    · rw [(hcost es.length).2]
      omega
    · refine ⟨List.nodup_cons.mpr ⟨fun hmem => hnot (h.scanned.2 ino hmem), h.scanned.1⟩, ?_⟩
      intro i hi
      rcases List.mem_cons.mp hi with rfl | hi
      · exact hvis
      · rw [← h8.inodes]
        refine h8.sane.scanned.2 i ?_
        rw [h8.marks]
        exact hi
    · exact ⟨by simp [dirCalls1], by simp [inodeCalls1], by simp [entries1], rfl⟩
    have hd9 : debt2 s9.marks = debt2 s.marks + 1 - es.length := by
      rw [h9.marks]
      exact (hcost es.length).2
    refine wp_seq (wp_mapEntries (fun pre _ _ t => Advance2 n pre.length s9 t)
      ⟨h9.sane, le_rfl, by simp⟩ ?_) fun r s10 _ _ h10 => ?_
    · intro pre e post out acc t hes _ ht
      have hpre : pre.length < es.length := by
        rw [hes, List.length_append, List.length_cons]
        omega
      have hleft : unvisited t.inodes < k := by
        have := ht.2.1
        rw [h9.inodes] at this
        omega
      refine wp_post (wp_pass2Subobject2 ht.1 (by have := ht.2.2; omega) ?_)
        fun r u _ _ hu => ?_
      · intro sub u hu huv hud
        exact ih sub ino u hu (by omega) hud
      · rw [List.length_append, List.length_singleton]
        push_cast
        exact ht.trans hu
    have h10' : At2 n s10.inodes s10.marks s10 := ⟨h10.1, rfl, rfl, by have := h10.2.2; omega⟩
    refine wp_seq (wp_calm2 (keeps_when (calm_complain _ _ _)) h10') fun _ s11 _ _ h11 => ?_
    refine wp_seq (wp_calm2 (keeps_when (calm_sfsWritedir _ _ _)) h11) fun _ s12 _ _ h12 => ?_
    refine wp_seq (wp_calm2 (keeps_when (calm_diskwrite _ _)) h12) fun _ s13 _ _ h13 => ?_
    refine wp_pure fun _ => h13.advance ?_ ?_
    · have := h10.2.1
      rw [h9.inodes] at this
      omega
    · have := h10.2.2
      omega

/-! ### A whole run -/

/-- Nothing has been entered in the table, and no traversal function called. -/
structure Fresh (n : UInt32) (s : State) : Prop where
  inodes : s.inodes = []
  marks : s.marks = []
  nblocks : s.sb.sbNblocks = n

theorem Fresh.of_calm {t : State} (h : Fresh n s) (hc : calm s = calm t) : Fresh n t := by
  refine ⟨(inodes_of_calm hc).symm.trans h.inodes, (marks_of_calm hc).symm.trans h.marks, ?_⟩
  rw [← h.nblocks]
  exact congrArg (fun c => c.2.1.sbNblocks) hc.symm

theorem within_nil {k : ℕ} : Within k n [] :=
  ⟨Nat.zero_le _, Nat.zero_le _, List.nodup_nil, by simp [scans1], Nat.zero_le _, List.nodup_nil,
    by simp [scans2]⟩

theorem Fresh.stop {e : Halt} (h : Fresh n s) (he : e ≠ .fuel) : Stop n e s := by
  refine ⟨he, ?_⟩
  rw [h.marks]
  exact within_nil

theorem wp_fresh {α : Type} {x : Ck α} (hx : Calm x) (h : Fresh n s) :
    wp (Watch.any ckGrowth) x (fun _ t => Fresh n t) (Stop n) s :=
  wp_of_keeps hx (fun _ _ ht => h.of_calm ht) fun _ _ ht he => (h.of_calm ht).stop he

theorem Fresh.at1 (h : Fresh n s) (hn : 0 < n) : At1 n [] [] s := by
  refine ⟨⟨hn, h.nblocks, ?_, ?_, ?_, ?_⟩, h.inodes, h.marks, by decide⟩
  · rw [State.inos, h.inodes]
    exact List.nodup_nil
  · rw [State.inos, h.inodes]
    simp
  · rw [h.marks]
    exact ⟨List.nodup_nil, by simp [scans1]⟩
  · rw [h.marks]
    exact ⟨rfl, rfl⟩

/-- Loading the superblock. -/
theorem wp_sbLoad_fresh (hi : s.inodes = []) (hm : s.marks = []) {sb : Superblock}
    (hsb : Superblock.ofBlock (s.disk (sector sfsSuperBlock)) = sb) :
    wp (Watch.any ckGrowth) sbLoad (fun _ t => Fresh sb.sbNblocks t ∧ 0 < sb.sbNblocks)
      (Stop sb.sbNblocks) s := by
  have h : Fresh sb.sbNblocks { s with sb := sb } := ⟨hi, hm, rfl⟩
  refine wp_bind (wp_bind (wp_bind (wp_get fun _ => wp_pure fun _ => wp_pure fun _ => ?_)))
  rw [hsb]
  refine wp_bind (wp_update fun _ => ?_)
  refine wp_ite (fun _ => wp_halt fun _ => h.stop (by simp)) fun _ => ?_
  refine wp_bind (wp_ite (fun hpos => wp_pure fun _ => ?_) fun _ =>
    wp_halt fun _ => h.stop (by simp))
  exact wp_ite (fun _ => wp_pure fun _ => ⟨h, hpos⟩) fun _ => wp_halt fun _ => h.stop (by simp)

/-- Checking the superblock leaves the number of blocks as it is. -/
theorem wp_sbCheck_fresh (h : Fresh n s) :
    wp (Watch.any ckGrowth) sbCheck (fun _ t => Fresh n t) (Stop n) s := by
  refine wp_bind (wp_get fun _ => ?_)
  refine wp_seq (wp_fresh (keeps_when (calm_complain' _ _ _)) h) fun _ s1 _ _ h1 => ?_
  refine wp_seq (wp_fresh (keeps_when (calm_complain' _ _ _)) h1) fun _ s2 _ _ h2 => ?_
  refine wp_seq (wp_fresh (keeps_when (calm_complain' _ _ _)) h2) fun _ s3 _ _ h3 => ?_
  refine wp_bind (wp_update fun _ => ?_)
  exact wp_fresh (keeps_when (calm_diskwrite _ _)) ⟨h3.inodes, h3.marks, h.nblocks⟩

/-- Sorting the table ends phase 1 and starts phase 2. -/
theorem wp_inodeSorttable2 (h : At1 n ins l s) :
    wp (Watch.any ckGrowth) inodeSorttable
      (fun _ t => Sane2 n t ∧ debt2 t.marks ≤ 0 ∧ unvisited t.inodes ≤ n.toNat + 1 ∧
        t.sb.sbNblocks = n) (Stop n) s := by
  refine wp_bind (wp_get fun _ => ?_)
  obtain ⟨out, hrun, hperm, -⟩ := qsort_inodes h.sane.nodup
  rw [hrun]
  refine wp_update fun _ => ?_
  have hlen : unvisited out ≤ n.toNat + 1 :=
    (List.countP_le_length).trans (hperm.length_eq ▸ h.sane.length_le)
  have hphase := h.stop (e := .abort) (by decide)
  have hinos := hperm.map Inodeinfo.ino
  have hdebt : debt2 s.marks ≤ 0 := by
    rw [debt2, h.sane.fresh2.2]
    omega
  refine ⟨⟨?_, ?_, ?_, ?_⟩, hdebt, hlen, h.sane.nblocks⟩
  · change (out.map Inodeinfo.ino).Nodup
    rw [hinos.nodup_iff]
    exact h.sane.nodup
  · change ∀ i ∈ out.map Inodeinfo.ino, _
    intro i hi
    exact h.sane.range i (hinos.mem_iff.mp hi)
  · change (scans2 s.marks).Nodup ∧ ∀ i ∈ scans2 s.marks, _
    rw [h.sane.fresh2.1]
    exact ⟨List.nodup_nil, by simp⟩
  · exact ⟨hphase.2.dirs1, hphase.2.inodes1, hphase.2.nodup1, hphase.2.range1⟩

theorem wp_main_within (env : Env) (img : Disk) :
    wp (Watch.any ckGrowth) (main env)
      (fun _ t => Within 1 (Superblock.ofBlock (img 0)).sbNblocks t.marks)
      (Stop (Superblock.ofBlock (img 0)).sbNblocks) (start img) := by
  generalize hsb : Superblock.ofBlock (img 0) = sb
  have hstart : Superblock.ofBlock ((start img).disk (sector sfsSuperBlock)) = sb := hsb
  refine wp_seq (wp_sbLoad_fresh rfl rfl hstart) fun _ s1 _ _ ⟨h1, hpos⟩ => ?_
  generalize sb.sbNblocks = n at h1 hpos ⊢
  refine wp_seq (wp_sbCheck_fresh h1) fun _ s2 _ _ h2 => ?_
  refine wp_seq (wp_fresh (calm_freemapSetup env) h2) fun _ s3 _ _ h3 => ?_
  -- phase 1
  refine wp_bind (wp_bind (wp_bind (wp_get fun _ => wp_pure fun _ => ?_)))
  refine wp_bind (wp_seq (wp_calm1 (calm_sfsReadinode _) (h3.at1 hpos)) fun sfi s4 _ _ h4 => ?_)
  refine wp_seq (wp_calm1 (keeps_when (keeps_bind (calm_warnx _ _) fun _ =>
    keeps_bind (calm_setbadness _) fun _ => calm_diskwrite _ _)) h4) fun _ s5 _ _ h5 => ?_
  have hfuel : n.toNat + 2 ≤ s3.sb.sbNblocks.toNat + 2 + s5.inodes.length := by
    rw [h3.nblocks]
    omega
  refine wp_post (wp_pass1Dir1 _ _ s5 h5.sane (Or.inr rfl) hfuel (by rw [h5.marks]; decide))
    fun _ s6 _ _ h6 => ?_
  have hd6 : (debt1 s6.marks).1 ≤ 1 ∧ (debt1 s6.marks).2 ≤ 1 := by
    obtain ⟨-, -, ha, hb⟩ := h6
    rw [h5.marks] at ha hb
    exact ⟨ha, hb⟩
  refine wp_post (wp_calm1 calm_freemapCheck (h6.1.at1 hd6)) fun _ s7 _ _ h7 => ?_
  -- phase 2
  refine wp_bind (wp_seq (wp_inodeSorttable2 h7) fun _ s8 _ _ ⟨h8, hd8, hu8, hn8⟩ => ?_)
  refine wp_bind (wp_bind (wp_get fun _ => wp_pure fun _ => ?_))
  rw [hn8]
  refine wp_seq (wp_pass2Dir2 _ _ _ s8 h8 (by omega) hd8) fun _ s9 _ _ h9 => wp_pure fun _ => ?_
  have h9' : At2 n s9.inodes s9.marks s9 := ⟨h9.1, rfl, rfl, by have := h9.2.2; omega⟩
  refine wp_seq (wp_calm2 calm_inodeAdjustFilelinks h9') fun _ s10 _ _ h10 => ?_
  refine wp_bind (wp_get fun _ => ?_)
  refine wp_post (wp_calm2 (calm_assert _) h10) fun _ t _ _ ht => ?_
  exact (ht.stop (e := .abort) (by decide)).2

theorem returns_of_sat {o : Outcome Halt State Unit}
    (h : o.Sat (fun _ t => Within 1 n t.marks) (Stop n)) :
    (∀ t, o ≠ .halt .fuel t) ∧ Within 1 n o.state.marks := by
  cases o with
  | done a t => exact ⟨fun u hu => Outcome.noConfusion rfl rfl rfl (heq_of_eq hu), h⟩
  | halt e t =>
    refine ⟨fun u hu => ?_, h.2⟩
    cases hu
    exact h.1 rfl

/-- **Termination.** On every image the checker returns or exits: neither recursion exhausts a
budget of two more levels than the volume has blocks. It goes through no directory twice, every
directory it goes through is a block of the volume, and each of `pass1_dir`, `pass1_inode` and
`pass2_dir` is called at most once for each entry of the directories gone through, and once for
the root. -/
theorem sfsck_returns (env : Env) (img : Disk) :
    (∀ t, (main env).run (start img) ≠ .halt .fuel t) ∧
      Within 1 (Superblock.ofBlock (img 0)).sbNblocks ((main env).run (start img)).state.marks :=
  returns_of_sat (sat_of_wp (wp_main_within env img))

end Sfsck

end Os161
