import Os161.Sfsck.Clean
import Mathlib.Data.List.FinRange

/-!
# The blocks of an inode in phase 1

What `check_inode_blocks` and `pass1_inode` do to the state: they mark the blocks `claims` lists,
none of which was marked before (or the run is not one of those watched), and they leave behind the
inode and the indirect block that `cleanInode` and `cleanEntries` say.

Specifications are about the variables that are overwritten, `Core`; printing leaves them alone
(`Prints`).

## Main results

* `wp_checkPointers`, `wp_checkIndirectBlock`, `wp_checkInodeBlocks`
-/

namespace Os161

namespace Sfsck

open Sfs Prog

variable {α : Type} {B : Prop} {E : Halt → State → Prop} {s : State}

/-! ### Printing -/

/-- A program that only prints and raises `badness`. -/
abbrev Prints (x : Ck α) : Prop := Keeps (Growth.same State.toCore) (fun _ => False) x

theorem prints_setbadness (code : ℕ) {hc : code ≤ exitUnrecov} : Prints (setbadness code hc) :=
  keeps_update fun _ => rfl

theorem prints_warnx (w : Warning) (h : (Event.warn w).isDup = false) : Prints (warnx w h) :=
  keeps_update fun _ => rfl

theorem prints_complain' (code : ℕ) (w : Warning) (h : (Event.warn w).isDup = false)
    {hc : code ≤ exitUnrecov} : Prints (do warnx w h; setbadness code hc) :=
  keeps_bind (prints_warnx w h) fun _ => prints_setbadness code

/-- Printing, followed by something else. -/
theorem wp_prints {W : Watch ckGrowth} {β : Type} {x : Ck α} {f : α → Ck β}
    {R : β → State → Prop} (hx : Prints x)
    (h : ∀ a t, t.toCore = s.toCore → wp W (f a) R E t) : wp W (x >>= f) R E s :=
  wp_seq (wp_of_keeps hx (Q := fun _ t => t.toCore = s.toCore) (fun _ _ ht => ht.symm)
    fun _ _ _ hf => hf.elim) fun a t _ _ ht => h a t ht

/-- A run that cannot stop finishes. -/
theorem finishes_of_wp {x : Ck α} {R : α → State → Prop}
    (h : wp (Watch.any ckGrowth) x R (fun _ _ => False) s) :
    ∃ a t, x.run s = .done a t ∧ R a t := by
  have hsat := sat_of_wp h
  cases hx : x.run s with
  | done a t =>
    rw [hx] at hsat
    exact ⟨a, t, rfl, hsat⟩
  | halt e t =>
    rw [hx] at hsat
    exact hsat.elim

theorem wp_assert {W : Watch ckGrowth} {p : Prop} [Decidable p] (hp : p) {R : Unit → State → Prop}
    (h : R () s) : wp W (assert p) R E s := by
  rw [assert, if_pos hp]
  exact wp_pure fun _ => h

/-! ### Marking -/

/-- What marking blocks leaves alone, besides the disk. -/
def aside (c : Core) : Superblock × List Inodeinfo × UInt32 × Bool × ℕ :=
  (c.sb, c.inodes, c.maxinodes, c.inodesSorted, c.uniquecounter)

/-- From `c` to `c'` exactly the blocks `l` were newly marked in use, each once. No block is ever
both marked in use and to be freed. -/
structure Claimed (l : List UInt32) (c c' : Core) : Prop where
  nodup : l.Nodup
  fresh : ∀ b ∈ l, c.freemapdata b = false
  marks : ∀ b, c'.freemapdata b = true ↔ c.freemapdata b = true ∨ b ∈ l
  tofree : (∀ b, c.tofreedata b = true → c.freemapdata b = false) →
    ∀ b, c'.tofreedata b = true → c'.freemapdata b = false
  aside : aside c' = aside c

theorem Claimed.nil_of_eq {c c' : Core} (h1 : c'.freemapdata = c.freemapdata)
    (h2 : (∀ b, c.tofreedata b = true → c.freemapdata b = false) →
      ∀ b, c'.tofreedata b = true → c'.freemapdata b = false)
    (h3 : Sfsck.aside c' = Sfsck.aside c) :
    Claimed [] c c' :=
  ⟨List.nodup_nil, by simp, by simp [h1], h2, h3⟩

theorem Claimed.refl (c : Core) : Claimed [] c c := Claimed.nil_of_eq rfl id rfl

theorem Claimed.trans {l l' : List UInt32} {c c' c'' : Core} (h : Claimed l c c')
    (h' : Claimed l' c' c'') : Claimed (l ++ l') c c'' := by
  refine ⟨List.nodup_append.mpr ⟨h.nodup, h'.nodup, ?_⟩, ?_, ?_, fun ht => h'.tofree (h.tofree ht),
    h'.aside.trans h.aside⟩
  · rintro a ha b hb rfl
    have h1 := (h.marks a).mpr (Or.inr ha)
    rw [h'.fresh a hb] at h1
    cases h1
  · intro b hb
    rcases List.mem_append.mp hb with hb | hb
    · exact h.fresh b hb
    · have h1 := h'.fresh b hb
      by_contra hc
      have := (h.marks b).mpr (Or.inl (by simpa using hc))
      rw [h1] at this
      cases this
  · intro b
    rw [h'.marks, h.marks, List.mem_append, or_assoc]

theorem Claimed.of_disk {l : List UInt32} {c c' c'' : Core} (h : Claimed l c c')
    (h1 : c''.freemapdata = c'.freemapdata) (h2 : c''.tofreedata = c'.tofreedata)
    (h3 : Sfsck.aside c'' = Sfsck.aside c') : Claimed l c c'' := by
  refine ⟨h.nodup, h.fresh, fun b => ?_, fun ht b => ?_, h3.trans h.aside⟩
  · rw [h1, h.marks]
  · rw [h1, h2]
    exact h.tofree ht b

theorem Claimed.sb {l : List UInt32} {c c' : Core} (h : Claimed l c c') : c'.sb = c.sb :=
  congrArg (fun a => a.1) h.aside

theorem wp_freemapBlockinuse {b : UInt32} {how : Usage} {howdesc : UInt32} :
    wp (watch B) (freemapBlockinuse b how howdesc)
      (fun _ t => Claimed [b] s.toCore t.toCore ∧ t.disk = s.disk) E s := by
  refine wp_bind (wp_get fun _ => wp_bind (wp_update fun _ => wp_bind (wp_when ?_ ?_)))
  · -- a report of a block in use twice: not one of the runs watched
    intro _
    refine wp_update fun hok => absurd ?_ hok.1
    exact ⟨_, List.mem_cons_self, rfl⟩
  · intro hnew _
    refine wp_update fun _ => ⟨⟨List.nodup_singleton b, ?_, ?_, ?_, rfl⟩, rfl⟩
    · intro b' hb'
      rw [List.mem_singleton.mp hb']
      simpa using hnew
    · intro b'
      change Function.update s.freemapdata b true b' = true ↔ _
      by_cases hb : b' = b
      · subst hb
        simp
      · simp [hb]
    · intro htf b'
      change Function.update s.tofreedata b false b' = true →
        Function.update s.freemapdata b true b' = false
      by_cases hb : b' = b
      · subst hb
        simp
      · rw [Function.update_of_ne hb, Function.update_of_ne hb]
        exact htf b'

theorem wp_freemapBlockfree {W : Watch ckGrowth} {b : UInt32} :
    wp W (freemapBlockfree b) (fun _ t => Claimed [] s.toCore t.toCore ∧ t.disk = s.disk) E s := by
  refine wp_update fun _ => ?_
  dsimp only
  split
  · exact ⟨Claimed.refl _, rfl⟩
  · next hb =>
    refine ⟨Claimed.nil_of_eq rfl (fun htf b' => ?_) rfl, rfl⟩
    change Function.update s.tofreedata b true b' = true → s.freemapdata b' = false
    by_cases hbb : b' = b
    · subst hbb
      intro _
      have hb' : s.tofreedata b' = false ∧ s.freemapdata b' = false := by simpa using hb
      exact hb'.2
    · rw [Function.update_of_ne hbb]
      exact htf b'

/-- What the walk over the block pointers does to the state besides the disk, in the runs `W`
watches: `M l` relates the states before and after the blocks `l` were found in use. -/
structure Marking (W : Watch ckGrowth) (M : List UInt32 → Core → Core → Prop) : Prop where
  refl : ∀ c, M [] c c
  trans : ∀ {l l' c c' c''}, M l c c' → M l' c' c'' → M (l ++ l') c c''
  disk : ∀ {l c c'} d, M l c c' → M l c { c' with disk := d }
  inuse : ∀ {E : Halt → State → Prop} {s b how howdesc}, wp W (freemapBlockinuse b how howdesc)
    (fun _ t => M [b] s.toCore t.toCore ∧ t.disk = s.disk) E s
  free : ∀ {E : Halt → State → Prop} {s b}, wp W (freemapBlockfree b)
    (fun _ t => M [] s.toCore t.toCore ∧ t.disk = s.disk) E s

theorem marking_claimed : Marking (watch B) Claimed where
  refl := Claimed.refl
  trans := Claimed.trans
  disk _ h := h.of_disk rfl rfl rfl
  inuse := wp_freemapBlockinuse
  free := wp_freemapBlockfree

/-- All runs, and nothing said of the marks. -/
theorem marking_any : Marking (Watch.any ckGrowth) fun _ _ _ => True where
  refl _ := trivial
  trans _ _ := trivial
  disk _ _ := trivial
  inuse := by
    refine wp_bind (wp_get fun _ => wp_bind (wp_update fun _ => wp_bind (wp_when ?_ ?_)))
    · exact fun _ => wp_update fun _ => wp_update fun _ => ⟨trivial, rfl⟩
    · exact fun _ _ => wp_update fun _ => ⟨trivial, rfl⟩
  free := wp_post wp_freemapBlockfree fun _ _ _ _ h => ⟨trivial, h.2⟩

/-! ### Block pointers -/

/-- Two states of the traversal of block pointers that differ in counters only. -/
def Ibstate.Same (ibs ibs' : Ibstate) : Prop :=
  ibs'.fileblocks = ibs.fileblocks ∧ ibs'.volblocks = ibs.volblocks

section Marking

variable {W : Watch ckGrowth} {M : List UInt32 → Core → Core → Prop} (hM : Marking W M)

include hM

theorem wp_checkPointer {ibs : Ibstate} {b : UInt32} {k : ℕ}
    (hk : ibs.curfileblock = UInt32.ofNat k) :
    wp W (checkPointer ibs b) (fun r t =>
      r.2.1 = keepPtr ibs.volblocks ibs.fileblocks k b ∧ (r.2.2 = false → r.2.1 = b) ∧
      ibs.Same r.1 ∧ r.1.curfileblock = ibs.curfileblock ∧
      M ([r.2.1].filter (· ≠ 0)) s.toCore t.toCore ∧ t.disk = s.disk) E s := by
  rw [keepPtr, checkPointer]
  refine wp_ite (fun hn => ?_) fun hn => wp_ite (fun h0 => ?_) fun h0 => ?_
  · rw [if_pos hn]
    refine wp_prints (prints_setbadness _) fun _ s1 h1 => ?_
    refine wp_prints (prints_warnx _ _) fun _ s2 h2 => wp_pure fun _ => ?_
    rw [h2, h1]
    exact ⟨rfl, nofun, ⟨rfl, rfl⟩, rfl, hM.refl _, rfl⟩
  · rw [if_neg hn, ← hk]
    refine wp_ite (fun hlt => ?_) fun hlt => ?_
    · rw [if_pos hlt]
      refine wp_seq hM.inuse fun _ t _ _ ⟨ht, hd⟩ => wp_pure fun _ => ?_
      refine ⟨rfl, fun _ => rfl, ⟨rfl, rfl⟩, rfl, ?_, hd⟩
      rw [List.filter_cons_of_pos (by simpa using h0)]
      exact ht
    · rw [if_neg hlt]
      refine wp_prints (prints_setbadness _) fun _ s1 h1 => ?_
      refine wp_seq hM.free fun _ t _ _ ⟨ht, hd⟩ => wp_pure fun _ => ?_
      rw [h1] at ht
      refine ⟨rfl, nofun, ⟨rfl, rfl⟩, rfl, ht, ?_⟩
      rw [hd]
      exact congrArg Core.disk h1
  · have hb : b = 0 := by simpa using h0
    refine wp_pure fun _ => ⟨?_, fun _ => rfl, ⟨rfl, rfl⟩, rfl, ?_, rfl⟩
    · rw [if_neg hn, hb]
      split <;> rfl
    · rw [hb]
      exact hM.refl _

omit hM in
/-- Position `i` of the loop over an array of `m` pointers is number `i`. -/
theorem val_of_finRange_eq {m : ℕ} {pre post : List (Fin m)} {i : Fin m}
    (h : List.finRange m = pre ++ i :: post) : i.val = pre.length := by
  have hlen : pre.length < (List.finRange m).length := by
    rw [h, List.length_append, List.length_cons]
    omega
  have hget : (List.finRange m)[pre.length] = i := by
    simp only [h]
    rw [List.getElem_append_right le_rfl]
    simp
  rw [List.getElem_finRange] at hget
  rw [← hget]
  rfl

/-- A loop over pointers keeps each as `keepPtr` says and marks those it keeps. -/
theorem wp_checkPointers {m k : ℕ} {ibs : Ibstate} {ptrs : Fin m → UInt32}
    (hk : ibs.curfileblock = UInt32.ofNat k) :
    wp W (checkPointers ibs ptrs) (fun r t =>
      r.2.1 = (fun i : Fin m => keepPtr ibs.volblocks ibs.fileblocks (k + i) (ptrs i)) ∧
      (r.2.2 = false → r.2.1 = ptrs) ∧ ibs.Same r.1 ∧
      r.1.curfileblock = UInt32.ofNat (k + m) ∧
      M (pointers r.2.1) s.toCore t.toCore ∧ t.disk = s.disk) E s := by
  let keep : Fin m → UInt32 := fun i => keepPtr ibs.volblocks ibs.fileblocks (k + i) (ptrs i)
  refine wp_post (wp_foldlM (fun pre acc (t : State) =>
      (∀ i, acc.2.1 i = if i ∈ pre then keep i else ptrs i) ∧ (acc.2.2 = false → acc.2.1 = ptrs) ∧
      ibs.Same acc.1 ∧ acc.1.curfileblock = UInt32.ofNat (k + pre.length) ∧
      M ((pre.map keep).filter (· ≠ 0)) s.toCore t.toCore ∧ t.disk = s.disk)
      ⟨fun i => by simp, fun _ => rfl, ⟨rfl, rfl⟩, hk, hM.refl _, rfl⟩ ?_) ?_
  · rintro pre i post acc t hsplit - ⟨hptr, hch, hsame, hcur, hcl, hdisk⟩
    have hi := val_of_finRange_eq hsplit
    have hnot : i ∉ pre := by
      have hnd := List.nodup_finRange m
      rw [hsplit] at hnd
      intro hmem
      exact (List.nodup_append.mp hnd).2.2 i hmem i List.mem_cons_self rfl
    have hold : acc.2.1 i = ptrs i := by rw [hptr, if_neg hnot]
    refine wp_seq (wp_checkPointer hM hcur) fun r u _ _ ⟨hr, hrch, hrs, hrc, hrcl, hrd⟩ =>
      wp_pure fun _ => ?_
    obtain ⟨ibs', b', ch⟩ := r
    simp only at hr hrch hrs hrc hrcl hrd
    have hb' : b' = keep i := by
      rw [hr, hold, hsame.1, hsame.2, ← hi]
    have hupd : (if ch = true then Function.update acc.2.1 i b' else acc.2.1) =
        Function.update acc.2.1 i b' := by
      cases ch with
      | true => rfl
      | false =>
        rw [if_neg (by simp), hrch rfl, Function.update_eq_self]
    dsimp only
    rw [hupd]
    refine ⟨fun j => ?_, fun hor => ?_, ?_, ?_, ?_, hrd.trans hdisk⟩
    · by_cases hj : j = i
      · subst hj
        rw [Function.update_self, if_pos (by simp), hb']
      · rw [Function.update_of_ne hj, hptr]
        simp [hj]
    · obtain ⟨h1, h2⟩ := Bool.or_eq_false_iff.mp hor
      rw [hrch h2, Function.update_eq_self]
      exact hch h1
    · exact ⟨hrs.1.trans hsame.1, hrs.2.trans hsame.2⟩
    · rw [hrc, hcur, List.length_append, List.length_singleton, ← Nat.add_assoc]
      exact (UInt32.ofNat_add _ 1).symm
    · rw [List.map_append, List.filter_append]
      rw [hb'] at hrcl
      exact hM.trans hcl hrcl
  · rintro ⟨ibs', ptrs', ch⟩ t - - ⟨hptr, hch, hsame, hcur, hcl, hdisk⟩
    have hall : ptrs' = keep := by
      funext i
      exact (hptr i).trans (if_pos (List.mem_finRange i))
    refine ⟨hall, hch, hsame, ?_, ?_, hdisk⟩
    · rw [List.length_finRange] at hcur
      exact hcur
    · rw [hall, pointers, List.ofFn_eq_map]
      exact hcl

/-! ### The indirect block -/

omit hM in
/-- What `check_indirect_block` leaves of an entry that names no block of the volume. -/
theorem wp_checkIndirectBlock_out {ibs : Ibstate} {ientry : UInt32}
    (h : ¬(ientry ≠ 0 ∧ ientry < ibs.volblocks)) :
    wp W (checkIndirectBlock 1 ibs ientry) (fun r t =>
      r.2.1 = 0 ∧ (r.2.2 = false → r.2.1 = ientry) ∧ t.toCore = s.toCore) E s := by
  have hcond : ¬(0 < ientry ∧ ientry < ibs.volblocks) := by
    rintro ⟨hpos, hlt⟩
    exact h ⟨UInt32.pos_iff_ne_zero.mp hpos, hlt⟩
  rw [checkIndirectBlock, if_pos hcond]
  refine wp_ite (fun hout => ?_) fun hin => ?_
  · refine wp_prints (prints_setbadness _) fun _ s1 h1 => ?_
    refine wp_prints (prints_warnx _ _) fun _ s2 h2 => wp_pure fun _ => ?_
    exact ⟨rfl, nofun, h2.trans h1⟩
  · have h0 : ientry = 0 := by
      by_contra hne
      exact h ⟨hne, UInt32.not_le.mp hin⟩
    exact wp_pure fun _ => ⟨h0, fun _ => rfl, rfl⟩

/-- The indirect block of an inode: its entries are kept as `keepPtr` says, it is marked with them,
and the block on disk becomes what is kept, unless nothing is. -/
theorem wp_checkIndirectBlock_in {ibs : Ibstate} {ientry : UInt32} {k : ℕ}
    {keep : Fin 128 → UInt32} (hk : ibs.curfileblock = UInt32.ofNat k)
    (h : ientry ≠ 0 ∧ ientry < ibs.volblocks) (hkeep : keep = fun i : Fin 128 =>
      keepPtr ibs.volblocks ibs.fileblocks (k + i) (indirectOf (s.disk (sector ientry)) i)) :
    wp W (checkIndirectBlock 1 ibs ientry) (fun r t =>
      r.2.1 = (if ∀ i, keep i = 0 then 0 else ientry) ∧ (r.2.2 = false → r.2.1 = ientry) ∧
      M (ientry :: pointers keep) s.toCore t.toCore ∧
      (∀ b, b ≠ sector ientry ∨ (∀ i, keep i = 0) → t.disk b = s.disk b) ∧
      ((∃ i, keep i ≠ 0) → indirectOf (t.disk (sector ientry)) = keep)) E s := by
  have hcond : ¬¬(0 < ientry ∧ ientry < ibs.volblocks) :=
    not_not.mpr ⟨UInt32.pos_iff_ne_zero.mpr h.1, h.2⟩
  rw [checkIndirectBlock, if_neg hcond]
  refine wp_bind (wp_bind (wp_bind (wp_get fun _ => wp_pure fun _ => wp_pure fun _ => ?_)))
  refine wp_seq hM.inuse fun _ s1 _ _ ⟨h1, hd1⟩ => ?_
  refine wp_seq (wp_checkPointers hM hk) fun r s2 _ _ ⟨hr, hch, _, _, h2, hd2⟩ => ?_
  obtain ⟨ibs', entries, localchanged⟩ := r
  simp only at hr hch h2 hd2
  rw [← hkeep] at hr
  subst hr
  have hcl : M (ientry :: pointers entries) s.toCore s2.toCore := hM.trans h1 h2
  have hdisk : s2.disk = s.disk := hd2.trans hd1
  refine wp_ite (fun hall => ?_) fun hsome => ?_
  · refine wp_prints (prints_setbadness _) fun _ s3 h3 => ?_
    refine wp_seq hM.free fun _ s4 _ _ ⟨h4, hd4⟩ => wp_pure fun _ => ?_
    rw [h3] at h4
    have hd4' : s4.disk = s.disk := (hd4.trans (congrArg Core.disk h3)).trans hdisk
    refine ⟨by rw [if_pos hall], nofun, ?_, fun b _ => by rw [hd4'], ?_⟩
    · have := hM.trans hcl h4
      rwa [List.append_nil] at this
    · rintro ⟨i, hi⟩
      exact absurd (hall i) hi
  · refine wp_bind (wp_when (fun _ => wp_update fun _ => wp_pure fun _ => ?_) fun hsame _ =>
      wp_pure fun _ => ?_)
    · refine ⟨by rw [if_neg hsome], fun _ => rfl, hM.disk _ hcl, fun b hb => ?_, ?_⟩
      · change Function.update s2.disk (sector ientry) _ b = _
        rw [Function.update_of_ne (hb.resolve_right hsome), hdisk]
      · intro _
        change indirectOf (Function.update s2.disk (sector ientry) _ (sector ientry)) = _
        rw [Function.update_self, indirectOf_indirectBlock]
    · refine ⟨by rw [if_neg hsome], fun _ => rfl, hcl, fun b _ => by rw [hdisk], ?_⟩
      intro _
      rw [hdisk]
      exact (hch (by simpa using hsame)).symm

end Marking

/-! ### The blocks of an inode -/

section Inode

variable {n : UInt32} {d : Disk} {ino : UInt32}

theorem cleanEntries_of_not (h : ¬HasIndirect n d ino) : cleanEntries n d ino = fun _ => 0 := by
  funext j
  rw [cleanEntries, if_neg h]

theorem cleanEntries_of_has (h : HasIndirect n d ino) :
    cleanEntries n d ino = fun j : Fin 128 => keepPtr n (fileblocks (found d ino)) (15 + j)
      (indirectOf (d (found d ino).sfiIndirect) j) := by
  funext j
  rw [cleanEntries, if_pos h]

theorem tail_claims : (claims n d ino).tail = pointers (cleanDirect n d ino) ++
    if HasIndirect n d ino then (found d ino).sfiIndirect :: pointers (cleanEntries n d ino)
    else [] := by
  rw [claims, List.tail_cons]

theorem cleanInode_sfiIndirect : (cleanInode n d ino).sfiIndirect =
    if ∀ j, cleanEntries n d ino j = 0 then 0 else (found d ino).sfiIndirect := by
  rw [cleanInode]

/-- What `check_indirect_block` does with the indirect block of an inode, inside the volume or
not. The blocks that are not marked yet are as they were in `d`. -/
theorem wp_checkIndirectBlock {ibs : Ibstate} (hcur : ibs.curfileblock = UInt32.ofNat 15)
    (hvol : ibs.volblocks = n) (hfb : ibs.fileblocks = fileblocks (found d ino))
    (hframe : ∀ b, s.freemapdata b = false → s.disk b = d b)
    (haddr : HasIndirect n d ino → (found d ino).sfiIndirect.toNat < 8388608) :
    wp (watch B) (checkIndirectBlock 1 ibs (found d ino).sfiIndirect) (fun r t =>
      r.2.1 = (cleanInode n d ino).sfiIndirect ∧
      (r.2.2 = false → r.2.1 = (found d ino).sfiIndirect) ∧
      Claimed (if HasIndirect n d ino then
        (found d ino).sfiIndirect :: pointers (cleanEntries n d ino) else []) s.toCore t.toCore ∧
      (∀ b, (HasIndirect n d ino → b ≠ (found d ino).sfiIndirect) → t.disk b = s.disk b) ∧
      ((∃ j, cleanEntries n d ino j ≠ 0) →
        indirectOf (t.disk (found d ino).sfiIndirect) = cleanEntries n d ino)) E s := by
  rw [cleanInode_sfiIndirect]
  by_cases hhas : HasIndirect n d ino
  · rw [if_pos hhas]
    have hcond : (found d ino).sfiIndirect ≠ 0 ∧ (found d ino).sfiIndirect < ibs.volblocks := by
      rw [hvol]
      exact hhas
    obtain ⟨keep, hkeep⟩ : ∃ keep : Fin 128 → UInt32, keep = fun i : Fin 128 =>
      keepPtr ibs.volblocks ibs.fileblocks (15 + i)
        (indirectOf (s.disk (found d ino).sfiIndirect) i) := ⟨_, rfl⟩
    have hsector := sector_of_lt (haddr hhas)
    refine wp_post (wp_checkIndirectBlock_in marking_claimed hcur hcond (hsector ▸ hkeep)) ?_
    rintro ⟨ibs', indirect, ichanged⟩ t - - ⟨hval, hich, hcl, hdisk, hent⟩
    rw [hsector] at hdisk hent
    -- the block was not marked before, so its content is the one in `d`
    have hclean : keep = cleanEntries n d ino := by
      rw [cleanEntries_of_has hhas, hkeep, hframe _ (hcl.fresh _ List.mem_cons_self), hvol, hfb]
    subst hclean
    exact ⟨hval, hich, hcl, fun b hb => hdisk b (.inl (hb hhas)), hent⟩
  · rw [if_neg hhas]
    have hzero : ∀ j, cleanEntries n d ino j = 0 := congrFun (cleanEntries_of_not hhas)
    rw [if_pos hzero]
    refine wp_post (wp_checkIndirectBlock_out (by rw [hvol]; exact hhas)) ?_
    rintro ⟨ibs', indirect, ichanged⟩ t - - ⟨hval, hich, hcore⟩
    rw [hcore]
    refine ⟨hval, hich, Claimed.refl _, fun _ _ => rfl, ?_⟩
    rintro ⟨j, hj⟩
    exact absurd (hzero j) hj

theorem wp_sbTotalblocks {W : Watch ckGrowth} :
    wp W sbTotalblocks (fun r t => r = s.sb.sbNblocks ∧ t = s) E s :=
  wp_bind (wp_get fun _ => wp_pure fun _ => ⟨rfl, rfl⟩)

/-- `check_inode_blocks`, on an inode whose size has been corrected. -/
theorem wp_checkInodeBlocks {sfi : Dinode} {isdir : Bool}
    (hsize : fileblocks sfi = fileblocks (found d ino))
    (hdir : sfi.sfiDirect = (found d ino).sfiDirect)
    (hind : sfi.sfiIndirect = (found d ino).sfiIndirect) (hn : s.sb.sbNblocks = n)
    (hframe : ∀ b, s.freemapdata b = false → s.disk b = d b)
    (haddr : HasIndirect n d ino → (found d ino).sfiIndirect.toNat < 8388608) :
    wp (watch B) (checkInodeBlocks ino sfi isdir) (fun r t =>
      r.1 = { sfi with
        sfiDirect := cleanDirect n d ino, sfiIndirect := (cleanInode n d ino).sfiIndirect } ∧
      (r.2 = false → r.1 = sfi) ∧ Claimed (claims n d ino).tail s.toCore t.toCore ∧
      (∀ b, (HasIndirect n d ino → b ≠ (found d ino).sfiIndirect) → t.disk b = s.disk b) ∧
      ((∃ j, cleanEntries n d ino j ≠ 0) →
        indirectOf (t.disk (found d ino).sfiIndirect) = cleanEntries n d ino)) E s := by
  rw [checkInodeBlocks, tail_claims]
  refine wp_seq wp_sbTotalblocks fun volblocks s0 _ _ h0 => ?_
  obtain ⟨h0, rfl⟩ := h0
  obtain rfl : n = volblocks := hn.symm.trans h0.symm
  refine wp_seq (wp_checkPointers marking_claimed (k := 0) rfl) fun r s1 _ _ h1 => ?_
  obtain ⟨ibs1, direct, dchanged⟩ := r
  dsimp only [Ibstate.Same] at h1
  obtain ⟨hptr, hdch, ⟨hfb, hvol⟩, hcur, hcl1, hd1⟩ := h1
  have hdirect : direct = cleanDirect n d ino := by
    rw [hptr]
    funext i
    rw [cleanDirect, ← hsize, fileblocks, Nat.zero_add, hdir]
  subst hdirect
  have hframe1 : ∀ b, s1.freemapdata b = false → s1.disk b = d b := by
    intro b hb
    rw [hd1]
    refine hframe b ?_
    by_contra hc
    have := (hcl1.marks b).mpr (Or.inl (by simpa using hc))
    rw [hb] at this
    cases this
  rw [Nat.zero_add] at hcur
  rw [hind]
  refine wp_seq (wp_checkIndirectBlock hcur hvol (hfb.trans hsize) hframe1 haddr)
    fun r s2 _ _ h2 => ?_
  obtain ⟨ibs2, indirect, ichanged⟩ := r
  obtain ⟨hval, hich, hcl2, hdisk, hent⟩ := h2
  refine wp_prints (keeps_when (prints_complain' _ _ _)) fun _ t ht => wp_pure fun _ => ?_
  dsimp only at hval hich
  rw [ht]
  refine ⟨by rw [hval], fun hor => ?_, hcl1.trans hcl2, fun b hb => ?_, hent⟩
  · obtain ⟨h2, h3⟩ := Bool.or_eq_false_iff.mp hor
    dsimp only
    rw [hich h3, hdch h2, ← hind]
  · rw [hdisk b hb, hd1]

end Inode

end Sfsck

end Os161
