import Os161.Kern.Errno
import Os161.Semfs.Wakeup

/-!
# The count of a semaphore file

What `semfs_read` and `semfs_write` do to the count and to their callers' `uio`s, over whole runs.
`Semfs.State` of `Os161.Semfs.Wakeup` has the semaphore and the places of the threads; here every
call ever made is kept as well, with its `uio` as the caller sees it, so that what the calls have
taken and given can be summed up. The steps are those of `Semfs.step`.

## Main results

* `Semfs.Audit.inv_step` — the step lemma
* `Semfs.Audit.count_conserved` — the count is the initial count, plus what the writes gave, minus
  what the reads took, in natural numbers; reads return having taken all they wanted; a write that
  would overflow gives nothing
-/

namespace Os161

namespace Semfs

namespace Audit

variable {T : Type*}

/-- A call, and what it has done so far. -/
structure Call where
  /-- `semfs_write` rather than `semfs_read`. -/
  isWrite : Bool
  /-- `uio_resid` at the call. -/
  requested : UInt32
  /-- `uio_offset` at the call. -/
  start : ℕ
  uioOffset : ℕ
  uioResid : UInt32
  /-- Units taken from the count. -/
  taken : ℕ
  /-- Units added to the count. -/
  given : ℕ
  /-- The code to be returned, `none` for 0. -/
  result : Option Errno
  /-- The call is over. -/
  returned : Bool

/-- A call that has just been made. -/
def Call.new (isWrite : Bool) (resid : UInt32) (offset : ℕ) : Call where
  isWrite := isWrite
  requested := resid
  start := offset
  uioOffset := offset
  uioResid := resid
  taken := 0
  given := 0
  result := none
  returned := false

/-- A semaphore file, and all calls made on it. -/
structure State (T : Type*) where
  sem : Semfs.State T
  /-- The count before the first call. -/
  initial : UInt32
  /-- The number of calls made. -/
  next : ℕ
  /-- The calls, in the order they were made. -/
  calls : ℕ → Call
  /-- The last call of each thread. -/
  cur : T → ℕ

/-- What can happen next. -/
inductive Action (T : Type*) where
  /-- Thread `t` calls `semfs_read` or `semfs_write`. -/
  | call (t : T) (isWrite : Bool) (resid : UInt32) (offset : ℕ)
  /-- Thread `t` takes its next step. -/
  | run (t : T) (target : Option T)

/-- What the loop of `semfs_read` consumes in one round. -/
def consume (count resid : UInt32) : UInt32 :=
  if 0 < count then (if count < resid then count else resid) else 0

/-- What a step of a thread that is at `p` does to the `uio` and the result of its call. -/
def Call.advance (c : Call) (count : UInt32) (p : Pc) : Call :=
  match p with
  | .readLoop resid _ =>
      if 0 < resid then
        { c with
          uioOffset := c.uioOffset + (consume count resid).toNat
          uioResid := c.uioResid - consume count resid
          taken := c.taken + (consume count resid).toNat }
      else c
  | .writeLoop resid =>
      if 0 < resid then
        if count + resid < count then { c with result := some .efbig }
        else
          { c with
            uioOffset := c.uioOffset + resid.toNat, uioResid := 0, given := c.given + resid.toNat }
      else c
  | .readUnlock | .writeUnlock => { c with returned := true }
  | _ => c

variable [DecidableEq T]

/-- One step of the semaphore file, with what it does to the calls. -/
def step (s : State T) : Action T → Option (State T)
  | .call t isWrite resid offset =>
      (Semfs.step s.sem (if isWrite then .callWrite t resid else .callRead t resid)).map fun sem =>
        { s with
          sem := sem
          next := s.next + 1
          calls := Function.update s.calls s.next (.new isWrite resid offset)
          cur := Function.update s.cur t s.next }
  | .run t target =>
      (Semfs.step s.sem (.run t target)).map fun sem =>
        { s with
          sem := sem
          calls := Function.update s.calls (s.cur t)
            ((s.calls (s.cur t)).advance s.sem.semsCount (s.sem.pc t)) }

/-- A semaphore file with any initial count, used by any number of threads. -/
def system (T : Type*) [DecidableEq T] : TransitionSystem (State T) (Action T) where
  init s := s.sem = { Semfs.init with semsCount := s.initial } ∧ s.next = 0
  step := step

omit [DecidableEq T] in
/-- Units taken by all calls. -/
def State.taken (s : State T) : ℕ := ∑ i ∈ Finset.range s.next, (s.calls i).taken

omit [DecidableEq T] in
/-- Units given by all calls. -/
def State.given (s : State T) : ℕ := ∑ i ∈ Finset.range s.next, (s.calls i).given

/-! ### The invariant -/

/-- A call's own books are in order. -/
def Call.Fine (c : Call) : Prop :=
  if c.isWrite then
    c.taken = 0 ∧
      ((c.given = 0 ∧ c.uioResid = c.requested ∧ c.uioOffset = c.start) ∨
        (c.given = c.requested.toNat ∧ c.uioResid = 0 ∧
          c.uioOffset = c.start + c.requested.toNat ∧ c.result = none)) ∧
      (c.result = none ∨ c.result = some .efbig) ∧
      (c.returned = true → c.result = none → c.given = c.requested.toNat)
  else
    c.given = 0 ∧ c.taken + c.uioResid.toNat = c.requested.toNat ∧
      c.uioOffset = c.start + c.taken ∧ c.result = none ∧ (c.returned = true → c.uioResid = 0)

/-- How far the call of a thread at `p` is. -/
def Call.At (c : Call) : Pc → Prop
  | .out => True
  | .readLock r | .readLoop r _ | .readWait r | .asleep r =>
      c.isWrite = false ∧ c.uioResid = r ∧ c.returned = false
  | .readUnlock => c.isWrite = false ∧ c.uioResid = 0 ∧ c.returned = false
  | .writeLock r | .writeLoop r =>
      c.isWrite = true ∧ c.uioResid = r ∧ c.returned = false ∧ c.given = 0 ∧ c.result = none ∧
        c.requested = r
  | .writeUnlock =>
      c.isWrite = true ∧ c.returned = false ∧ (c.result = none → c.given = c.requested.toNat)

omit [DecidableEq T] in
/-- The invariant of the books. -/
structure Inv (s : State T) : Prop where
  /-- The count is what was there and came in, less what went out. -/
  books : s.initial.toNat + s.given = s.sem.semsCount.toNat + s.taken
  fine : ∀ i < s.next, (s.calls i).Fine
  /-- A thread that is inside works on its last call. -/
  live : ∀ t, s.sem.pc t ≠ .out → s.cur t < s.next ∧ (s.calls (s.cur t)).At (s.sem.pc t)
  /-- No two threads work on one call. -/
  apart : ∀ t u, s.sem.pc t ≠ .out → s.sem.pc u ≠ .out → s.cur t = s.cur u → t = u

omit [DecidableEq T] in
theorem inv_init {s : State T} (hsem : s.sem = { Semfs.init with semsCount := s.initial })
    (hnext : s.next = 0) : Inv s := by
  refine ⟨?_, ?_, ?_, ?_⟩
  · simp [State.given, State.taken, hnext, hsem]
  · simp [hnext]
  · simp [hsem, Semfs.init]
  · simp [hsem, Semfs.init]

/-! ### One step of a thread that is inside -/

theorem consume_le_count (count resid : UInt32) : (consume count resid).toNat ≤ count.toNat := by
  unfold consume
  split
  · split
    · exact le_rfl
    · rename_i h
      exact UInt32.le_iff_toNat_le.mp (UInt32.not_lt.mp h)
  · exact Nat.zero_le _

theorem consume_le_resid (count resid : UInt32) : (consume count resid).toNat ≤ resid.toNat := by
  unfold consume
  split
  · split
    · rename_i h
      exact (UInt32.lt_iff_toNat_lt.mp h).le
    · exact le_rfl
  · exact Nat.zero_le _

/-- One round of the loop of `semfs_read` that has something to read. -/
theorem readLoop_of_pos (s : Semfs.State T) (t : T) {resid : UInt32} (h : 0 < resid) :
    ∃ p, readLoop s t resid =
        { s with semsCount := s.semsCount - consume s.semsCount resid }.goto t p ∧
      ((p = .readUnlock ∧ resid - consume s.semsCount resid = 0) ∨
        p = .readWait (resid - consume s.semsCount resid) ∨
        p = .readLoop (resid - consume s.semsCount resid) false) := by
  have hloop : readLoop s t resid =
      if resid - consume s.semsCount resid = 0 then
        { s with semsCount := s.semsCount - consume s.semsCount resid }.goto t .readUnlock
      else if s.semsCount - consume s.semsCount resid = 0 then
        { s with semsCount := s.semsCount - consume s.semsCount resid }.goto t
          (.readWait (resid - consume s.semsCount resid))
      else
        { s with semsCount := s.semsCount - consume s.semsCount resid }.goto t
          (.readLoop (resid - consume s.semsCount resid) false) := if_pos h
  rw [hloop]
  split
  · rename_i h0
    exact ⟨_, rfl, Or.inl ⟨rfl, h0⟩⟩
  · split
    · exact ⟨_, rfl, Or.inr (Or.inl rfl)⟩
    · exact ⟨_, rfl, Or.inr (Or.inr rfl)⟩

/-- `semfs_wakeup` touches neither the count nor anybody's place. -/
theorem semfsWakeup_frame {s s' : Semfs.State T} {newcount : UInt32} {target : Option T}
    (h : semfsWakeup s newcount target = some s') :
    s'.pc = s.pc ∧ s'.semsCount = s.semsCount := by
  unfold semfsWakeup at h
  split at h
  · obtain rfl := Option.some.inj h
    exact ⟨rfl, rfl⟩
  · split at h
    · unfold cvSignal at h
      split at h <;> split at h
      all_goals cases h
      all_goals exact ⟨rfl, rfl⟩
    · obtain rfl := Option.some.inj h
      exact ⟨rfl, rfl⟩

/-- The overflow test of `semfs_write`. -/
theorem add_lt_self_iff (count resid : UInt32) :
    count + resid < count ↔ 2 ^ 32 ≤ count.toNat + resid.toNat := by
  have h1 := count.toNat_lt
  have h2 := resid.toNat_lt
  rw [UInt32.lt_iff_toNat_lt, UInt32.toNat_add]
  constructor
  · intro h
    by_contra hlt
    rw [Nat.mod_eq_of_lt (by omega)] at h
    omega
  · intro h
    rw [Nat.mod_eq_sub_mod h, Nat.mod_eq_of_lt (by omega)]
    omega

/-- What the loop of `semfs_write` does, in its three cases. -/
theorem writeLoop_cases {s s' : Semfs.State T} {t : T} {resid : UInt32} {target : Option T}
    (h : writeLoop s t resid target = some s') :
    s'.pc = Function.update s.pc t .writeUnlock ∧
      ((resid = 0 ∧ s'.semsCount = s.semsCount) ∨
        (0 < resid ∧ s.semsCount + resid < s.semsCount ∧ s'.semsCount = s.semsCount) ∨
        (0 < resid ∧ ¬ s.semsCount + resid < s.semsCount ∧
          s'.semsCount = s.semsCount + resid)) := by
  unfold writeLoop at h
  by_cases hr : 0 < resid
  · rw [if_pos hr] at h
    dsimp only at h
    by_cases hover : s.semsCount + resid < s.semsCount
    · rw [if_pos hover] at h
      obtain rfl := Option.some.inj h
      exact ⟨rfl, Or.inr (Or.inl ⟨hr, hover, rfl⟩)⟩
    · rw [if_neg hover] at h
      obtain ⟨s₁, hs₁, rfl⟩ := Option.map_eq_some_iff.mp h
      obtain ⟨hpc, -⟩ := semfsWakeup_frame hs₁
      exact ⟨by simp [State.goto, hpc], Or.inr (Or.inr ⟨hr, hover, rfl⟩)⟩
  · rw [if_neg hr] at h
    obtain rfl := Option.some.inj h
    refine ⟨rfl, Or.inl ⟨?_, rfl⟩⟩
    by_contra hne
    exact hr (UInt32.pos_iff_ne_zero.mpr hne)

omit [DecidableEq T] in
/-- What a step of thread `t` of the semaphore file does to the others, to its call `c`, and to the
count. -/
structure Moves (s s' : Semfs.State T) (t : T) (c : Call) : Prop where
  other : ∀ u, u ≠ t → s'.pc u = s.pc u
  fine : (c.advance s.semsCount (s.pc t)).Fine
  place : (c.advance s.semsCount (s.pc t)).At (s'.pc t)
  books : s.semsCount.toNat + (c.advance s.semsCount (s.pc t)).given + c.taken =
    s'.semsCount.toNat + c.given + (c.advance s.semsCount (s.pc t)).taken

section Moves

variable {s s' : Semfs.State T} {t : T} {c : Call}

omit [DecidableEq T] in
/-- A step that changes only the thread's place and the lock. -/
theorem Moves.still (hf : c.Fine) (hadv : c.advance s.semsCount (s.pc t) = c)
    (hother : ∀ u, u ≠ t → s'.pc u = s.pc u) (hplace : c.At (s'.pc t))
    (hcount : s'.semsCount = s.semsCount) : Moves s s' t c := by
  refine ⟨hother, ?_, ?_, ?_⟩
  · rwa [hadv]
  · rwa [hadv]
  · rw [hadv, hcount]

omit [DecidableEq T] in
/-- The end of a call. -/
theorem Moves.unlock (hf : c.Fine)
    (hadv : c.advance s.semsCount (s.pc t) = { c with returned := true })
    (hother : ∀ u, u ≠ t → s'.pc u = s.pc u) (hout : s'.pc t = .out)
    (hread : c.isWrite = false → c.uioResid = 0)
    (hwrite : c.isWrite = true → c.result = none → c.given = c.requested.toNat)
    (hcount : s'.semsCount = s.semsCount) : Moves s s' t c := by
  refine ⟨hother, ?_, ?_, ?_⟩
  · rw [hadv]
    unfold Call.Fine at hf ⊢
    cases hw : c.isWrite with
    | true =>
      rw [if_pos hw] at hf
      simp only [if_true]
      exact ⟨hf.1, hf.2.1, hf.2.2.1, fun _ => hwrite hw⟩
    | false =>
      rw [if_neg (by simp [hw])] at hf
      simp only [Bool.false_eq_true, if_false]
      exact ⟨hf.1, hf.2.1, hf.2.2.1, hf.2.2.2.1, fun _ => hread hw⟩
  · rw [hout]
    trivial
  · rw [hadv, hcount]

/-- One round of `semfs_read`. -/
theorem Moves.read {resid : UInt32} {woken : Bool} (hf : c.Fine)
    (hpc : s.pc t = .readLoop resid woken) (ha : c.At (.readLoop resid woken)) :
    Moves s (readLoop s t resid) t c := by
  obtain ⟨hkind, hresid, hret⟩ := ha
  unfold Call.Fine at hf
  rw [if_neg (by simp [hkind])] at hf
  obtain ⟨hgiven, htaken, hoff, hres, -⟩ := hf
  by_cases hr : 0 < resid
  · obtain ⟨p, hloop, hp⟩ := readLoop_of_pos s t hr
    have hadv : c.advance s.semsCount (s.pc t) =
        { c with
          uioOffset := c.uioOffset + (consume s.semsCount resid).toNat
          uioResid := c.uioResid - consume s.semsCount resid
          taken := c.taken + (consume s.semsCount resid).toNat } := by
      rw [hpc]
      exact if_pos hr
    have hle := consume_le_resid s.semsCount resid
    have hsub : (c.uioResid - consume s.semsCount resid).toNat =
        resid.toNat - (consume s.semsCount resid).toNat := by
      rw [hresid]
      exact UInt32.toNat_sub_of_le _ _ (UInt32.le_iff_toNat_le.mpr hle)
    have hcount : (s.semsCount - consume s.semsCount resid).toNat =
        s.semsCount.toNat - (consume s.semsCount resid).toNat :=
      UInt32.toNat_sub_of_le _ _ (UInt32.le_iff_toNat_le.mpr (consume_le_count _ _))
    have hlec := consume_le_count s.semsCount resid
    rw [hresid] at htaken
    refine ⟨fun u hu => ?_, ?_, ?_, ?_⟩
    · rw [hloop]
      simp [State.goto, hu]
    · rw [hadv, Call.Fine]
      simp only [hkind, Bool.false_eq_true, if_false, hgiven, hres, hret, hsub, hoff, true_and,
        false_implies, and_true]
      omega
    · have hpt : (readLoop s t resid).pc t = p := by
        rw [hloop]
        simp [State.goto]
      rw [hadv, hpt]
      rcases hp with ⟨rfl, h0⟩ | rfl | rfl
      · exact ⟨hkind, by rw [← h0, ← hresid], hret⟩
      · exact ⟨hkind, by rw [hresid], hret⟩
      · exact ⟨hkind, by rw [hresid], hret⟩
    · rw [hadv, hloop]
      change s.semsCount.toNat + c.given + c.taken =
        (s.semsCount - consume s.semsCount resid).toNat + c.given +
          (c.taken + (consume s.semsCount resid).toNat)
      rw [hcount]
      omega
  · have hloop : readLoop s t resid = s.goto t .readUnlock := if_neg hr
    have h0 : resid = 0 := by
      by_contra hne
      exact hr (UInt32.pos_iff_ne_zero.mpr hne)
    rw [hloop]
    refine Moves.still ?_ ?_ (fun u hu => by simp [State.goto, hu]) ?_ rfl
    · rw [Call.Fine, if_neg (by simp [hkind])]
      exact ⟨hgiven, htaken, hoff, hres, fun h => by rw [hret] at h; cases h⟩
    · rw [hpc]
      exact if_neg hr
    · simp only [State.goto, Function.update_self]
      exact ⟨hkind, hresid.trans h0, hret⟩

/-- The loop of `semfs_write`. -/
theorem Moves.write {resid : UInt32} {target : Option T} (hf : c.Fine)
    (hpc : s.pc t = .writeLoop resid) (ha : c.At (.writeLoop resid))
    (hs : writeLoop s t resid target = some s') : Moves s s' t c := by
  obtain ⟨hkind, hresid, hret, hgiven, hresult, hreq⟩ := ha
  have hfine := hf
  unfold Call.Fine at hfine
  rw [if_pos hkind] at hfine
  obtain ⟨htaken, hbooks, -, -⟩ := hfine
  obtain ⟨hpcs, hcases⟩ := writeLoop_cases hs
  have hother : ∀ u, u ≠ t → s'.pc u = s.pc u := fun u hu => by rw [hpcs, Function.update_of_ne hu]
  have hpt : s'.pc t = .writeUnlock := by rw [hpcs, Function.update_self]
  rcases hcases with ⟨h0, hcount⟩ | ⟨hr, hover, hcount⟩ | ⟨hr, hover, hcount⟩
  · refine Moves.still hf ?_ hother ?_ hcount
    · rw [hpc, h0]
      rfl
    · rw [hpt]
      refine ⟨hkind, hret, fun _ => ?_⟩
      rw [hgiven, hreq, h0]
      rfl
  · -- the sum is too large: `EFBIG`
    have hadv : c.advance s.semsCount (s.pc t) = { c with result := some .efbig } := by
      rw [hpc]
      exact (if_pos hr).trans (if_pos hover)
    have hsame : c.uioOffset = c.start := by
      rcases hbooks with ⟨-, -, h⟩ | ⟨hg, -, -, -⟩
      · exact h
      · have hpos := UInt32.lt_iff_toNat_lt.mp hr
        rw [hgiven, hreq] at hg
        exact absurd hg.symm (Nat.ne_of_gt hpos)
    refine ⟨hother, ?_, ?_, ?_⟩
    · rw [hadv, Call.Fine, if_pos hkind]
      refine ⟨htaken, Or.inl ⟨hgiven, hresid.trans hreq.symm, hsame⟩, Or.inr rfl, fun _ h => ?_⟩
      cases h
    · rw [hadv, hpt]
      exact ⟨hkind, hret, fun h => by cases h⟩
    · rw [hadv, hcount]
  · have hadv : c.advance s.semsCount (s.pc t) =
        { c with
          uioOffset := c.uioOffset + resid.toNat, uioResid := 0,
          given := c.given + resid.toNat } := by
      rw [hpc]
      exact (if_pos hr).trans (if_neg hover)
    have hsame : c.uioOffset = c.start := by
      rcases hbooks with ⟨-, -, h⟩ | ⟨hg, -, -, -⟩
      · exact h
      · have hpos := UInt32.lt_iff_toNat_lt.mp hr
        rw [hgiven, hreq] at hg
        exact absurd hg.symm (Nat.ne_of_gt hpos)
    have hadd : (s.semsCount + resid).toNat = s.semsCount.toNat + resid.toNat := by
      rw [add_lt_self_iff, not_le] at hover
      rw [UInt32.toNat_add, Nat.mod_eq_of_lt hover]
    have hall : c.given + resid.toNat = c.requested.toNat := by rw [hgiven, hreq, Nat.zero_add]
    refine ⟨hother, ?_, ?_, ?_⟩
    · rw [hadv, Call.Fine, if_pos hkind]
      exact ⟨htaken, Or.inr ⟨hall, rfl, by rw [hsame, hreq], hresult⟩, Or.inl hresult,
        fun _ _ => hall⟩
    · rw [hadv, hpt]
      exact ⟨hkind, hret, fun _ => hall⟩
    · rw [hadv, hcount, hadd]
      change s.semsCount.toNat + (c.given + resid.toNat) + c.taken =
        s.semsCount.toNat + resid.toNat + c.given + c.taken
      omega

/-- Every step of a thread that is inside. -/
theorem moves_run {target : Option T} (hf : c.Fine) (ha : c.At (s.pc t))
    (hs : Semfs.runStep s t target = some s') : Moves s s' t c := by
  unfold Semfs.runStep at hs
  split at hs
  case h_1 => cases hs
  case h_2 resid hpc =>
    rw [hpc] at ha
    split at hs
    · obtain rfl := Option.some.inj hs
      refine Moves.still hf (by rw [hpc]; rfl) (fun u hu => by simp [State.goto, hu]) ?_ rfl
      simp only [State.goto, Function.update_self]
      exact ha
    · cases hs
  case h_3 resid woken hpc =>
    rw [hpc] at ha
    obtain rfl := Option.some.inj hs
    exact Moves.read hf hpc ha
  case h_4 resid hpc =>
    rw [hpc] at ha
    obtain rfl := Option.some.inj hs
    refine Moves.still hf (by rw [hpc]; rfl) (fun u hu => by simp [State.goto, hu]) ?_ rfl
    simp only [State.goto, Function.update_self]
    exact ha
  case h_5 resid hpc =>
    rw [hpc] at ha
    split at hs
    · obtain rfl := Option.some.inj hs
      refine Moves.still hf (by rw [hpc]; rfl) (fun u hu => by simp [State.goto, hu]) ?_ rfl
      simp only [State.goto, Function.update_self]
      exact ha
    · cases hs
  case h_6 hpc =>
    rw [hpc] at ha
    obtain ⟨hkind, hresid, -⟩ := ha
    obtain rfl := Option.some.inj hs
    exact Moves.unlock hf (by rw [hpc]; rfl) (fun u hu => by simp [State.goto, hu])
      (by simp [State.goto]) (fun _ => hresid) (fun h => by rw [hkind] at h; cases h) rfl
  case h_7 resid hpc =>
    rw [hpc] at ha
    split at hs
    · obtain rfl := Option.some.inj hs
      refine Moves.still hf (by rw [hpc]; rfl) (fun u hu => by simp [State.goto, hu]) ?_ rfl
      simp only [State.goto, Function.update_self]
      exact ha
    · cases hs
  case h_8 resid hpc =>
    rw [hpc] at ha
    exact Moves.write hf hpc ha hs
  case h_9 hpc =>
    rw [hpc] at ha
    obtain ⟨hkind, -, hall⟩ := ha
    obtain rfl := Option.some.inj hs
    exact Moves.unlock hf (by rw [hpc]; rfl) (fun u hu => by simp [State.goto, hu])
      (by simp [State.goto]) (fun h => by rw [hkind] at h; cases h) (fun _ => hall) rfl

end Moves

/-! ### What each step of the system preserves -/

section Steps

variable {s s' : State T} {t : T}

/-- A new call takes and gives nothing. -/
theorem Inv.call (h : Inv s) {isWrite : Bool} {resid : UInt32} {offset : ℕ} {sem : Semfs.State T}
    (hs : Semfs.step s.sem (if isWrite then .callWrite t resid else .callRead t resid) = some sem) :
    Inv { s with
      sem := sem
      next := s.next + 1
      calls := Function.update s.calls s.next (.new isWrite resid offset)
      cur := Function.update s.cur t s.next } := by
  have hstep : s.sem.pc t = .out ∧
      sem = s.sem.goto t (if isWrite then .writeLock resid else .readLock resid) := by
    cases isWrite <;>
      simpa [Semfs.step, Option.ite_none_right_eq_some, eq_comm] using hs
  obtain ⟨hpc, rfl⟩ := hstep
  have hold : ∀ i < s.next,
      Function.update s.calls s.next (Call.new isWrite resid offset) i = s.calls i :=
    fun i hi => Function.update_of_ne hi.ne _ _
  refine ⟨?_, ?_, ?_, ?_⟩
  all_goals dsimp only
  · have hsame : ∀ g : Call → ℕ, ∑ i ∈ Finset.range s.next,
        g (Function.update s.calls s.next (Call.new isWrite resid offset) i) =
          ∑ i ∈ Finset.range s.next, g (s.calls i) :=
      fun g => Finset.sum_congr rfl fun i hi => by rw [hold i (Finset.mem_range.mp hi)]
    have hbooks := h.books
    simp only [State.given, State.taken] at hbooks
    simp only [State.given, State.taken, Finset.sum_range_succ, Function.update_self]
    rw [hsame Call.given, hsame Call.taken]
    exact hbooks
  · intro i hi
    rcases Nat.lt_succ_iff_lt_or_eq.mp hi with hi | rfl
    · rw [hold i hi]
      exact h.fine i hi
    · rw [Function.update_self]
      cases isWrite <;> simp [Call.Fine, Call.new]
  · intro u hu
    rcases eq_or_ne u t with rfl | hne
    · simp only [Function.update_self, Semfs.State.goto]
      refine ⟨Nat.lt_succ_self _, ?_⟩
      cases isWrite <;> simp [Call.At, Call.new]
    · simp only [Semfs.State.goto, Function.update_of_ne hne] at hu ⊢
      obtain ⟨hlt, hat⟩ := h.live u hu
      rw [hold _ hlt]
      exact ⟨Nat.lt_succ_of_lt hlt, hat⟩
  · have hpos : ∀ u, u ≠ t → (s.sem.goto t
        (if isWrite then Pc.writeLock resid else Pc.readLock resid)).pc u ≠ .out →
          s.sem.pc u ≠ .out := by
      intro u hu hout
      simpa [Semfs.State.goto, hu] using hout
    intro u v hu hv huv
    by_cases hut : u = t
    · by_cases hvt : v = t
      · exact hut.trans hvt.symm
      · rw [hut, Function.update_self, Function.update_of_ne hvt] at huv
        exact absurd huv.symm (h.live v (hpos v hvt hv)).1.ne
    · by_cases hvt : v = t
      · rw [hvt, Function.update_self, Function.update_of_ne hut] at huv
        exact absurd huv (h.live u (hpos u hut hu)).1.ne
      · rw [Function.update_of_ne hut, Function.update_of_ne hvt] at huv
        exact h.apart u v (hpos u hut hu) (hpos v hvt hv) huv

/-- A step of a thread that is inside changes one call and keeps the books. -/
theorem Inv.run (h : Inv s) {target : Option T} {sem : Semfs.State T}
    (hs : Semfs.runStep s.sem t target = some sem) :
    Inv { s with
      sem := sem
      calls := Function.update s.calls (s.cur t)
        ((s.calls (s.cur t)).advance s.sem.semsCount (s.sem.pc t)) } := by
  have hin : s.sem.pc t ≠ .out := by
    intro hout
    simp [Semfs.runStep, hout] at hs
  obtain ⟨hlt, hat⟩ := h.live t hin
  obtain ⟨hother, hfine, hplace, hbooks⟩ := moves_run (h.fine _ hlt) hat hs
  have hmem : s.cur t ∈ Finset.range s.next := Finset.mem_range.mpr hlt
  refine ⟨?_, ?_, ?_, ?_⟩
  all_goals dsimp only
  · have hsum := h.books
    simp only [State.given, State.taken] at hsum ⊢
    have hsplit : ∀ g : Call → ℕ, ∀ c : Call,
        ∑ i ∈ Finset.range s.next, g (Function.update s.calls (s.cur t) c i) + g (s.calls (s.cur t))
          = ∑ i ∈ Finset.range s.next, g (s.calls i) + g c := by
      intro g c
      rw [← Finset.add_sum_erase _ _ hmem, ← Finset.add_sum_erase _ (fun i => g (s.calls i)) hmem,
        Function.update_self]
      rw [Finset.sum_congr rfl fun i hi => by
        rw [Function.update_of_ne (Finset.ne_of_mem_erase hi)]]
      omega
    have hg := hsplit Call.given ((s.calls (s.cur t)).advance s.sem.semsCount (s.sem.pc t))
    have ht := hsplit Call.taken ((s.calls (s.cur t)).advance s.sem.semsCount (s.sem.pc t))
    omega
  · intro i hi
    rcases eq_or_ne i (s.cur t) with rfl | hne
    · rwa [Function.update_self]
    · rw [Function.update_of_ne hne]
      exact h.fine i hi
  · intro u hu
    rcases eq_or_ne u t with rfl | hne
    · rw [Function.update_self]
      exact ⟨hlt, hplace⟩
    · change sem.pc u ≠ .out at hu
      rw [hother u hne] at hu ⊢
      obtain ⟨hltu, hatu⟩ := h.live u hu
      refine ⟨hltu, ?_⟩
      rwa [Function.update_of_ne fun he => hne (h.apart u t hu hin he)]
  · intro u v hu hv huv
    have hback : ∀ w, sem.pc w ≠ .out → s.sem.pc w ≠ .out := by
      intro w hw
      rcases eq_or_ne w t with rfl | hne
      · exact hin
      · rwa [hother w hne] at hw
    exact h.apart u v (hback u hu) (hback v hv) huv

theorem inv_step {a : Action T} (h : Inv s) (hs : step s a = some s') : Inv s' := by
  cases a with
  | call t isWrite resid offset =>
    obtain ⟨sem, hsem, rfl⟩ := Option.map_eq_some_iff.mp hs
    exact h.call hsem
  | run t target =>
    obtain ⟨sem, hsem, rfl⟩ := Option.map_eq_some_iff.mp hs
    exact h.run hsem

end Steps

theorem inv_of_reachable {s : State T} (h : (system T).Reachable s) : Inv s := by
  refine h.invariant (P := Inv) ?_ fun s a s' hi hs => inv_step hi hs
  rintro s ⟨hsem, hnext⟩
  exact inv_init hsem hnext

/-! ### The count -/

/-- **The count of a semaphore file.** In every state that any number of threads reach from any
initial count, by any interleaving of reads and writes of any sizes: the initial count and what the
writes gave are the count and what the reads took; a read that has returned has taken what it
wanted; a write that has returned has given all it had, or nothing, with its `uio` as it was, and
then its result is `EFBIG`. And the write that is about to test the sum gets `EFBIG`, without effect
on the count or its `uio`, exactly if the sum is 2^32 or more; else the count becomes the sum. -/
theorem count_conserved {s : State T} (h : (system T).Reachable s) :
    (s.initial.toNat + s.given = s.sem.semsCount.toNat + s.taken) ∧
      (∀ i < s.next, (s.calls i).isWrite = false → (s.calls i).returned = true →
        (s.calls i).taken = (s.calls i).requested.toNat ∧ (s.calls i).uioResid = 0 ∧
          (s.calls i).result = none) ∧
      (∀ i < s.next, (s.calls i).isWrite = true → (s.calls i).returned = true →
        ((s.calls i).result = none ∧ (s.calls i).given = (s.calls i).requested.toNat) ∨
          ((s.calls i).result = some .efbig ∧ (s.calls i).given = 0 ∧
            (s.calls i).uioOffset = (s.calls i).start ∧
            (s.calls i).uioResid = (s.calls i).requested)) ∧
      ∀ t target resid s', s.sem.pc t = .writeLoop resid → step s (.run t target) = some s' →
        s'.sem.pc t = .writeUnlock ∧
          if 2 ^ 32 ≤ s.sem.semsCount.toNat + resid.toNat then
            s'.sem.semsCount = s.sem.semsCount ∧
              s'.calls (s.cur t) = { s.calls (s.cur t) with result := some .efbig }
          else s'.sem.semsCount.toNat = s.sem.semsCount.toNat + resid.toNat ∧
            (s'.calls (s.cur t)).result = none := by
  have hinv := inv_of_reachable h
  refine ⟨hinv.books, fun i hi hkind hret => ?_, fun i hi hkind hret => ?_,
    fun t target resid s' hpc hs => ?_⟩
  · have hf := hinv.fine i hi
    rw [Call.Fine, if_neg (by simp [hkind])] at hf
    obtain ⟨-, htaken, -, hres, hdone⟩ := hf
    have h0 := hdone hret
    rw [h0] at htaken
    exact ⟨htaken, h0, hres⟩
  · have hf := hinv.fine i hi
    rw [Call.Fine, if_pos hkind] at hf
    obtain ⟨-, hbooks, hres, hdone⟩ := hf
    rcases hres with hres | hres
    · exact Or.inl ⟨hres, hdone hret hres⟩
    · rcases hbooks with ⟨hg, hr, ho⟩ | ⟨-, -, -, hnone⟩
      · exact Or.inr ⟨hres, hg, ho, hr⟩
      · rw [hres] at hnone
        cases hnone
  · obtain ⟨-, hat⟩ := hinv.live t (by rw [hpc]; nofun)
    rw [hpc] at hat
    obtain ⟨-, -, -, -, hresult, -⟩ := hat
    obtain ⟨sem, hsem, rfl⟩ := Option.map_eq_some_iff.mp hs
    have hwrite : writeLoop s.sem t resid target = some sem := by
      simpa [Semfs.step, Semfs.runStep, hpc] using hsem
    obtain ⟨hpcs, hcases⟩ := writeLoop_cases hwrite
    refine ⟨by simp [hpcs], ?_⟩
    dsimp only
    rw [Function.update_self, hpc]
    have hlt := s.sem.semsCount.toNat_lt
    rcases hcases with ⟨h0, hcount⟩ | ⟨hr, hover, hcount⟩ | ⟨hr, hover, hcount⟩
    · subst h0
      rw [if_neg (by simpa using hlt)]
      exact ⟨by simp [hcount], hresult⟩
    · rw [if_pos ((add_lt_self_iff _ _).mp hover)]
      exact ⟨hcount, (if_pos hr).trans (if_pos hover)⟩
    · have hfit := hover
      rw [add_lt_self_iff] at hfit
      rw [if_neg hfit, hcount, UInt32.toNat_add, Nat.mod_eq_of_lt (not_le.mp hfit)]
      refine ⟨rfl, ?_⟩
      have hadv : ((s.calls (s.cur t)).advance s.sem.semsCount (.writeLoop resid)).result =
          (s.calls (s.cur t)).result := by
        change Call.result (if 0 < resid then if _ then _ else _ else _) = _
        rw [if_pos hr, if_neg hover]
      exact hadv.trans hresult

/-- A semaphore file with the count at `c`, before any call. -/
def fresh (T : Type*) (c : UInt32) : State T where
  sem := { Semfs.init with semsCount := c }
  initial := c
  next := 0
  calls _ := .new false 0 0
  cur _ := 0

/-- From a count of 5, thread `0` reads 7 and sleeps with 2 to go; thread `1` writes 1, which wakes
thread `0`, and then 2^32 - 1, which is too much. -/
def shared : List (Action (Fin 2)) :=
  [.call 0 false 7 0, .run 0 none, .run 0 none, .run 0 none,
    .call 1 true 1 0, .run 1 none, .run 1 (some 0), .run 1 none,
    .call 1 true 0xffffffff 0, .run 1 none, .run 1 none, .run 1 none]

theorem shared_runs : (shared.foldlM (system (Fin 2)).step (fresh (Fin 2) 5)).isSome := by
  decide

theorem count_conserved_shared : ∃ s : State (Fin 2), (system (Fin 2)).Reachable s ∧
    s.initial.toNat + s.given = s.sem.semsCount.toNat + s.taken ∧ s.given = 1 ∧ s.taken = 5 ∧
      (s.calls 2).returned = true ∧ (s.calls 2).result = some .efbig ∧
      (s.calls 2).uioResid = (s.calls 2).requested := by
  have hinit : (system (Fin 2)).init (fresh (Fin 2) 5) := ⟨rfl, rfl⟩
  have hreach := TransitionSystem.reachable_of_run shared (.init hinit)
    (Option.some_get shared_runs).symm
  refine ⟨_, hreach, (count_conserved hreach).1, by decide, by decide, by decide, by decide, ?_⟩
  rcases (count_conserved hreach).2.2.1 2 (by decide) (by decide) (by decide) with h | h
  · exact absurd h.1 (by decide)
  · exact h.2.2.2

end Audit

end Semfs

end Os161
