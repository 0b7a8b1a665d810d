import Os161.Sfsck.Main

/-!
# What the helpers of the checker leave alone

Below `pass1_dir` and `pass2_dir` there are many functions that read and write blocks, mark bits and
print. None of them touches the inode table or enters a traversal function: they keep what `calm`
observes. They may fail an assertion or run out of memory, but the budget of the two recursions is
not theirs.

## Main definitions

* `State.marks` — the log without its messages
* `Calm` — a program that keeps the inode table and the marks
-/

namespace Os161

namespace Sfsck

open Sfs Prog

/-- A message, as opposed to a mark. -/
def Event.isWarn : Event → Bool
  | .warn _ => true
  | _ => false

/-- The calls of traversal functions made so far, latest first. -/
def State.marks (s : State) : List Event := s.log.filter fun e => !e.isWarn

/-- What the helpers leave alone. -/
def calm (s : State) : List Inodeinfo × Superblock × Bool × List Event :=
  (s.inodes, s.sb, s.inodesSorted, s.marks)

/-- The program keeps the inode table, the superblock and the marks, and does not run out of
budget. -/
abbrev Calm {α : Type} (x : Ck α) : Prop := Keeps (Growth.same calm) (fun e => e ≠ Halt.fuel) x

variable {α : Type}

/-! ### Primitive steps -/

theorem calm_modify {f : Core → Core} (h1 : ∀ c, (f c).inodes = c.inodes)
    (h2 : ∀ c, (f c).sb = c.sb) (h3 : ∀ c, (f c).inodesSorted = c.inodesSorted) :
    Calm (modify f) := by
  refine keeps_update fun s => ?_
  change (s.inodes, s.sb, s.inodesSorted, s.marks) =
    ((f s.toCore).inodes, (f s.toCore).sb, (f s.toCore).inodesSorted, s.marks)
  rw [h1, h2, h3]

theorem calm_setbadness (code : ℕ) {hc : code ≤ exitUnrecov} : Calm (setbadness code hc) :=
  keeps_update fun _ => rfl

theorem calm_warnx (w : Warning) (h : (Event.warn w).isDup = false) : Calm (warnx w h) :=
  keeps_update fun _ => rfl

theorem calm_reportInUse (block : UInt32) (how : Usage) (howdesc : UInt32) :
    Calm (reportInUse block how howdesc) :=
  keeps_update fun _ => rfl

theorem calm_assert (p : Prop) [Decidable p] : Calm (assert p) :=
  keeps_ite (keeps_pure ()) (keeps_halt (by decide))

theorem calm_domalloc (env : Env) (len : UInt32) : Calm (domalloc env len) :=
  keeps_bind keeps_get fun _ =>
    keeps_bind (calm_modify (fun _ => rfl) (fun _ => rfl) fun _ => rfl) fun _ =>
      keeps_ite (keeps_pure ()) (keeps_halt (by decide))

theorem calm_uniqueid : Calm uniqueid :=
  keeps_bind keeps_get fun _ =>
    keeps_bind (calm_modify (fun _ => rfl) (fun _ => rfl) fun _ => rfl) fun _ => keeps_pure _

/-- A message together with a change of badness, in either order. -/
theorem calm_complain (code : ℕ) (w : Warning) (h : (Event.warn w).isDup = false)
    {hc : code ≤ exitUnrecov} : Calm (do setbadness code hc; warnx w h) :=
  keeps_bind (calm_setbadness code) fun _ => calm_warnx w h

theorem calm_complain' (code : ℕ) (w : Warning) (h : (Event.warn w).isDup = false)
    {hc : code ≤ exitUnrecov} : Calm (do warnx w h; setbadness code hc) :=
  keeps_bind (calm_warnx w h) fun _ => calm_setbadness code

/-! ### Disk access -/

theorem calm_diskread (block : UInt32) : Calm (diskread block) :=
  keeps_bind keeps_get fun _ => keeps_pure _

theorem calm_diskwrite (data : Block) (block : UInt32) : Calm (diskwrite data block) :=
  calm_modify (fun _ => rfl) (fun _ => rfl) fun _ => rfl

theorem calm_sfsReadinode (ino : UInt32) : Calm (sfsReadinode ino) :=
  keeps_bind (calm_diskread ino) fun _ => keeps_pure _

theorem calm_sfsReadfreemapblock (whichblock : UInt32) : Calm (sfsReadfreemapblock whichblock) :=
  calm_diskread _

theorem calm_sfsWritefreemapblock (whichblock : UInt32) (bits : Block) :
    Calm (sfsWritefreemapblock whichblock bits) :=
  calm_diskwrite _ _

theorem calm_sfsReadindirect (blocknum : UInt32) : Calm (sfsReadindirect blocknum) :=
  keeps_bind (calm_diskread blocknum) fun _ => keeps_pure _

theorem calm_bmap (sfi : Dinode) (fileblock : ℕ) : Calm (bmap sfi fileblock) := by
  rw [bmap]
  split
  · exact keeps_pure _
  · refine keeps_ite (keeps_ite (keeps_pure _) ?_) (keeps_pure _)
    refine keeps_bind (calm_sfsReadindirect _) fun entries => ?_
    split
    · exact keeps_pure _
    · exact keeps_halt (by decide)

theorem calm_sfsReaddir (sfi : Dinode) (nd : UInt32) : Calm (sfsReaddir sfi nd) := by
  refine keeps_bind (keeps_foldlM (fun d i => ?_) []) fun d =>
    keeps_bind (calm_assert _) fun _ => keeps_pure _
  refine keeps_bind (calm_bmap sfi i) fun b => keeps_bind ?_ fun _ => keeps_pure _
  exact keeps_ite (keeps_bind (calm_diskread b) fun _ => keeps_pure _)
    (keeps_bind (calm_warnx _ _) fun _ => keeps_pure _)

theorem calm_sfsWritedir (sfi : Dinode) (d : List Direntry) (nd : UInt32) :
    Calm (sfsWritedir sfi d nd) := by
  refine keeps_bind (keeps_foldlM (fun _ i => ?_) ()) fun _ => calm_assert _
  refine keeps_bind (calm_bmap sfi i) fun b => ?_
  exact keeps_ite (calm_diskwrite _ b) (keeps_ite (calm_complain' _ _ _) (keeps_pure ()))

theorem calm_sfsdirSort (d : List Direntry) : Calm (sfsdirSort d) := by
  rw [sfsdirSort]
  split
  · exact keeps_pure _
  · exact keeps_halt (by decide)

/-! ### The free block bitmap -/

theorem calm_freemapBlockinuse (block : UInt32) (how : Usage) (howdesc : UInt32) :
    Calm (freemapBlockinuse block how howdesc) :=
  keeps_bind keeps_get fun _ =>
    keeps_bind (calm_modify (fun _ => rfl) (fun _ => rfl) fun _ => rfl) fun _ =>
      keeps_bind (keeps_when (calm_reportInUse block how howdesc)) fun _ =>
        calm_modify (fun _ => rfl) (fun _ => rfl) fun _ => rfl

theorem calm_freemapBlockfree (block : UInt32) : Calm (freemapBlockfree block) := by
  refine calm_modify (fun c => ?_) (fun c => ?_) fun c => ?_ <;> split <;> rfl

theorem calm_freemapSetup (env : Env) : Calm (freemapSetup env) := by
  refine keeps_bind (keeps_bind keeps_get fun _ => keeps_pure _) fun fsblocks => ?_
  refine keeps_bind (keeps_bind keeps_get fun _ => keeps_pure _) fun mapblocks => ?_
  refine keeps_bind (calm_domalloc env _) fun _ => keeps_bind (calm_domalloc env _) fun _ => ?_
  refine keeps_bind (calm_modify (fun _ => rfl) (fun _ => rfl) fun _ => rfl) fun _ => ?_
  refine keeps_bind (keeps_foldlM (fun _ _ => calm_freemapBlockinuse _ _ _) ()) fun _ => ?_
  exact keeps_bind (calm_freemapBlockinuse _ _ _) fun _ =>
    keeps_foldlM (fun _ _ => calm_freemapBlockinuse _ _ _) ()

theorem calm_checkByte (i : ℕ) (m : MapScan) (j : Fin 512) : Calm (checkByte i m j) := by
  have hreport : ∀ val free, Calm (reportfreemap i j val free) := fun val free =>
    keeps_foldlM (fun _ _ => keeps_when (calm_warnx _ _)) ()
  refine keeps_bind keeps_get fun s => keeps_bind (calm_assert _) fun _ => ?_
  refine keeps_ite (keeps_pure _) (keeps_ite (keeps_pure _) ?_)
  exact keeps_bind (hreport _ _) fun _ => keeps_bind (hreport _ _) fun _ => keeps_pure _

theorem calm_freemapCheck : Calm freemapCheck := by
  refine keeps_bind (keeps_bind keeps_get fun _ => keeps_pure _) fun bitblocks => ?_
  refine keeps_bind (keeps_foldlM (fun count i => ?_) (0, 0)) fun count => ?_
  · rw [checkMapblock]
    refine keeps_bind (calm_sfsReadfreemapblock _) fun actual => ?_
    refine keeps_bind (keeps_foldlM (calm_checkByte i) _) fun m => ?_
    exact keeps_bind (keeps_when (calm_sfsWritefreemapblock _ _)) fun _ => keeps_pure _
  · exact keeps_bind (keeps_when (calm_complain' _ _ _)) fun _ =>
      keeps_when (calm_complain' _ _ _)

/-! ### Phase 1 -/

theorem calm_checkPointer (ibs : Ibstate) (block : UInt32) : Calm (checkPointer ibs block) := by
  refine keeps_ite ?_ (keeps_ite (keeps_ite ?_ ?_) (keeps_pure _))
  · exact keeps_bind (calm_setbadness _) fun _ =>
      keeps_bind (calm_warnx _ _) fun _ => keeps_pure _
  · exact keeps_bind (calm_freemapBlockinuse _ _ _) fun _ => keeps_pure _
  · exact keeps_bind (calm_setbadness _) fun _ =>
      keeps_bind (calm_freemapBlockfree _) fun _ => keeps_pure _

theorem calm_checkPointers {n : ℕ} (ibs : Ibstate) (ptrs : Fin n → UInt32) :
    Calm (checkPointers ibs ptrs) :=
  keeps_foldlM (fun _ _ => keeps_bind (calm_checkPointer _ _) fun _ => keeps_pure _) _

theorem calm_checkIndirectBlock (level : ℕ) (ibs : Ibstate) (ientry : UInt32) :
    Calm (checkIndirectBlock level ibs ientry) := by
  induction level using Nat.strong_induction_on generalizing ibs ientry with
  | _ level ih =>
    rw [checkIndirectBlock]
    refine keeps_ite (keeps_ite ?_ (keeps_pure _)) ?_
    · exact keeps_bind (calm_setbadness _) fun _ =>
        keeps_bind (calm_warnx _ _) fun _ => keeps_pure _
    refine keeps_bind (calm_sfsReadindirect _) fun entries => ?_
    refine keeps_bind (calm_freemapBlockinuse _ _ _) fun _ => keeps_bind ?_ fun r => ?_
    · split
      · exact keeps_halt (by decide)
      · exact calm_checkPointers _ _
      · next m =>
        exact keeps_foldlM (fun _ _ => keeps_bind (ih (m + 1) (by omega) _ _) fun _ =>
          keeps_pure _) _
    · refine keeps_ite ?_ ?_
      · exact keeps_bind (calm_setbadness _) fun _ =>
          keeps_bind (calm_freemapBlockfree _) fun _ => keeps_pure _
      · exact keeps_bind (keeps_when (calm_diskwrite _ _)) fun _ => keeps_pure _

theorem calm_checkInodeBlocks (ino : UInt32) (sfi : Dinode) (isdir : Bool) :
    Calm (checkInodeBlocks ino sfi isdir) := by
  refine keeps_bind (keeps_bind keeps_get fun _ => keeps_pure _) fun volblocks => ?_
  refine keeps_bind (calm_checkPointers _ _) fun r => ?_
  refine keeps_bind (calm_checkIndirectBlock _ _ _) fun r' => ?_
  exact keeps_bind (keeps_when (calm_complain' _ _ _)) fun _ => keeps_pure _

theorem keeps_mapEntries {H : Growth State} {P : Halt → Prop} {β : Type}
    {f : β → ℕ → Direntry → Ck (Direntry × β)} (hf : ∀ b i e, Keeps H P (f b i e)) (i : ℕ) (b : β)
    (es : List Direntry) : Keeps H P (mapEntries f i b es) := by
  induction es generalizing i b with
  | nil => exact keeps_pure _
  | cons e es ih =>
    rw [mapEntries]
    exact keeps_bind (hf b i e) fun r => keeps_bind (ih _ _) fun _ => keeps_pure _

/-- The invariant rule for a loop over entries: `I pre out b t` holds when the entries `pre` have
become `out`. -/
theorem wp_mapEntries {W : Watch ckGrowth} {β : Type} {f : β → ℕ → Direntry → Ck (Direntry × β)}
    {E : Halt → State → Prop} {es : List Direntry} {i : ℕ} {b : β} {s : State}
    (I : List Direntry → List Direntry → β → State → Prop) (h0 : I [] [] b s)
    (hstep : ∀ pre e post out b t, es = pre ++ e :: post → ckGrowth.le s t → I pre out b t →
      wp W (f b (i + pre.length) e) (fun r u => I (pre ++ [e]) (out ++ [r.1]) r.2 u) E t) :
    wp W (mapEntries f i b es) (fun r t => I es r.1 r.2 t) E s := by
  -- generalised to the entries that remain after `pre`
  have key : ∀ (post pre out : List Direntry) (b : β) (t : State), es = pre ++ post →
      ckGrowth.le s t → I pre out b t →
      wp W (mapEntries f (i + pre.length) b post) (fun r u => I es (out ++ r.1) r.2 u) E t := by
    intro post
    induction post with
    | nil =>
      intro pre out b t hes _ hI
      refine wp_pure fun _ => ?_
      rw [List.append_nil] at hes
      rw [hes, List.append_nil]
      exact hI
    | cons e post ih =>
      intro pre out b t hes hle hI
      rw [mapEntries]
      refine wp_seq (hstep pre e post out b t hes hle hI) fun r u _ hle' hI' => ?_
      have hnext := ih (pre ++ [e]) (out ++ [r.1]) r.2 u (by rw [hes, List.append_assoc]; rfl)
        (ckGrowth.trans hle hle') hI'
      rw [List.length_append, List.length_singleton, ← Nat.add_assoc] at hnext
      refine wp_seq hnext fun r' v _ _ hv => wp_pure fun _ => ?_
      rw [List.append_assoc] at hv
      exact hv
  have := key es [] [] b s rfl (ckGrowth.refl s) h0
  simpa using this

theorem calm_fixSize (sfi : Dinode) : Calm (fixSize sfi) :=
  keeps_ite (keeps_bind (calm_setbadness _) fun _ =>
    keeps_bind (calm_warnx _ _) fun _ => keeps_pure _) (keeps_pure _)

/-! ### Phase 2 -/

theorem calm_checkNeighbours (v : List ℕ) (acc : List Direntry × Bool) (i : ℕ) :
    Calm (checkNeighbours v acc i) := by
  refine keeps_bind (calm_assert _) fun _ => ?_
  refine keeps_ite (keeps_pure _) (keeps_ite (keeps_ite ?_ ?_) (keeps_pure _))
  · exact keeps_bind (calm_setbadness _) fun _ =>
      keeps_bind (calm_warnx _ _) fun _ => keeps_pure _
  · exact keeps_bind calm_uniqueid fun _ => keeps_bind (calm_setbadness _) fun _ =>
      keeps_bind (calm_warnx _ _) fun _ => keeps_pure _

theorem calm_checkDots (ino parentino : UInt32) (acc : DotScan) (i : ℕ) (sfd : Direntry) :
    Calm (checkDots ino parentino acc i sfd) := by
  refine keeps_ite ?_ (keeps_ite ?_ (keeps_pure _)) <;>
    exact keeps_bind (keeps_when (calm_complain _ _ _)) fun _ =>
      keeps_bind (calm_assert _) fun _ => keeps_pure _

theorem calm_addDot (m : UInt32) (name : List UInt8) (ino : UInt32) (added notFixed : Warning)
    (ha : (Event.warn added).isDup = false) (hn : (Event.warn notFixed).isDup = false)
    (b : DirBuf) : Calm (addDot m name ino added notFixed ha hn b) := by
  rw [addDot]
  split
  · exact keeps_bind (calm_setbadness _) fun _ =>
      keeps_bind (calm_warnx _ _) fun _ => keeps_pure _
  · split <;> exact keeps_bind (calm_setbadness _) fun _ =>
      keeps_bind (calm_warnx _ _) fun _ => keeps_pure _

theorem calm_pass2Names (ino parentino : UInt32) (sfi : Dinode) (m : UInt32)
    (es : List Direntry) : Calm (pass2Names ino parentino sfi m es) := by
  refine keeps_bind (calm_sfsdirSort es) fun v => ?_
  refine keeps_bind (keeps_foldlM (calm_checkNeighbours v) _) fun r => ?_
  refine keeps_bind (keeps_mapEntries (calm_checkDots ino parentino) _ _ _) fun r' => ?_
  refine keeps_bind (keeps_ite (keeps_pure _) (calm_addDot _ _ _ _ _ _ _ _)) fun b => ?_
  exact keeps_ite (keeps_pure _) (calm_addDot _ _ _ _ _ _ _ _)

/-! ### Phase 3 -/

theorem calm_adjustFilelink (inf : Inodeinfo) : Calm (adjustFilelink inf) := by
  refine keeps_ite (keeps_pure _) ?_
  refine keeps_bind (calm_assert _) fun _ => keeps_bind (calm_assert _) fun _ => ?_
  refine keeps_bind (calm_sfsReadinode _) fun sfi => keeps_bind (calm_assert _) fun _ => ?_
  exact keeps_when (keeps_bind (calm_warnx _ _) fun _ =>
    keeps_bind (calm_setbadness _) fun _ => calm_diskwrite _ _)

theorem calm_inodeAdjustFilelinks : Calm inodeAdjustFilelinks :=
  keeps_bind keeps_get fun _ => keeps_foldlM (fun _ _ => calm_adjustFilelink _) ()

end Sfsck

end Os161
