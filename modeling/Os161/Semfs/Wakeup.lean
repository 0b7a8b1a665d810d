import Os161.Lib.Transition
import Mathlib.Algebra.BigOperators.Group.Finset.Basic
import Mathlib.Algebra.Order.BigOperators.Group.Finset
import Mathlib.Logic.Function.Basic
import Mathlib.Tactic.DefEqTransformations

/-!
# Semaphore files

`semfs_read`, `semfs_write` and `semfs_wakeup` of `kern/fs/semfs/semfs_vnops.c`, for any number of
threads using one semaphore file. A read takes units, as many as are there, until it has all it
wants; a write gives units.

The condition variable is the one `kern/include/synch.h` documents: `cv_wait` releases the lock and
goes to sleep in one step, `cv_signal` wakes one sleeper, any of them, and `cv_broadcast` all.
The lock is a mutual exclusion lock. Finding the semaphore in the table (`semfs_getsem`) has no
effect on it and is left out.

## What goes wrong

`semfs_wakeup` wakes somebody only if the old count is zero, on the assumption that otherwise
nobody sleeps. But a sleeper that was signalled keeps the count positive until it gets the lock, and
what is written in the meantime wakes nobody: `lost_wakeup` is such a run. It cannot happen while
the readers already woken want, together, at least the new count. `Covered` says so of a write, and
`no_lost_wakeup` that runs all of whose writes are covered lose no wake-up.

## Main results

* `Semfs.inv_step` — the step lemma, for covered writes
* `Semfs.no_lost_wakeup`, `Semfs.lost_wakeup`
-/

namespace Os161

namespace Semfs

variable {T : Type*}

/-- Where a thread is. The number is the `uio_resid` of its call. -/
inductive Pc where
  /-- Outside `semfs_read` and `semfs_write`. -/
  | out
  /-- `semfs_read`, at `lock_acquire`. -/
  | readLock (resid : UInt32)
  /-- `semfs_read`, at the head of the `while` loop; `woken` if it has just been woken. -/
  | readLoop (resid : UInt32) (woken : Bool)
  /-- `semfs_read`, at `cv_wait`. -/
  | readWait (resid : UInt32)
  /-- Inside `cv_wait`: asleep, or woken and about to take the lock again. -/
  | asleep (resid : UInt32)
  /-- `semfs_read`, at `lock_release`. -/
  | readUnlock
  /-- `semfs_write`, at `lock_acquire`. -/
  | writeLock (resid : UInt32)
  /-- `semfs_write`, at the head of the `while` loop. -/
  | writeLoop (resid : UInt32)
  /-- `semfs_write`, at `lock_release`. -/
  | writeUnlock
  deriving DecidableEq

/-- A semaphore file and the threads using it. -/
structure State (T : Type*) where
  /-- `sems_count`. -/
  semsCount : UInt32
  /-- The holder of `sems_lock`. -/
  semsLock : Option T
  /-- The threads sleeping on `sems_cv`. -/
  semsCv : List T
  /-- Where each thread is. -/
  pc : T → Pc

/-- What can happen next. -/
inductive Action (T : Type*) where
  /-- Thread `t` calls `semfs_read` for `resid` units. -/
  | callRead (t : T) (resid : UInt32)
  /-- Thread `t` calls `semfs_write` with `resid` units. -/
  | callWrite (t : T) (resid : UInt32)
  /-- Thread `t` takes its next step; if that is a `cv_signal`, `target` is the sleeper woken. -/
  | run (t : T) (target : Option T)

/-- The state after `semfs_sem_create`. -/
def init : State T where
  semsCount := 0
  semsLock := none
  semsCv := []
  pc _ := .out

variable [DecidableEq T]

/-- Move thread `t` to `p`. -/
def State.goto (s : State T) (t : T) (p : Pc) : State T :=
  { s with pc := Function.update s.pc t p }

/-- `cv_signal`, waking `target`; not possible if that is not a sleeper while there are some. -/
def cvSignal (s : State T) (target : Option T) : Option (State T) :=
  match target with
  | none => if s.semsCv = [] then some s else none
  | some u => if u ∈ s.semsCv then some { s with semsCv := s.semsCv.erase u } else none

/-- `cv_broadcast`. -/
def cvBroadcast (s : State T) : State T := { s with semsCv := [] }

/-- `semfs_wakeup`. -/
def semfsWakeup (s : State T) (newcount : UInt32) (target : Option T) : Option (State T) :=
  if 0 < s.semsCount ∨ newcount = 0 then some s
  else if newcount = 1 then cvSignal s target
  else some (cvBroadcast s)

/-- One round of the loop of `semfs_read`, up to its end, the `cv_wait` or the next round. -/
def readLoop (s : State T) (t : T) (resid : UInt32) : State T :=
  if 0 < resid then
    let consume := if 0 < s.semsCount then
      (if s.semsCount < resid then s.semsCount else resid) else 0
    let s := { s with semsCount := s.semsCount - consume }
    let resid := resid - consume
    if resid = 0 then s.goto t .readUnlock
    else if s.semsCount = 0 then s.goto t (.readWait resid)
    else s.goto t (.readLoop resid false)
  else s.goto t .readUnlock

/-- The loop of `semfs_write`, whose body leaves nothing to write. -/
def writeLoop (s : State T) (t : T) (resid : UInt32) (target : Option T) : Option (State T) :=
  if 0 < resid then
    let newcount := s.semsCount + resid
    -- overflow: EFBIG
    if newcount < s.semsCount then some (s.goto t .writeUnlock)
    else (semfsWakeup s newcount target).map fun s =>
      { s with semsCount := newcount }.goto t .writeUnlock
  else some (s.goto t .writeUnlock)

/-- The next step of thread `t`. It is not enabled while the lock it wants is taken, and not while
the thread is asleep. -/
def runStep (s : State T) (t : T) (target : Option T) : Option (State T) :=
  match s.pc t with
  | .out => none
  | .readLock resid =>
      if s.semsLock = none then some ({ s with semsLock := some t }.goto t (.readLoop resid false))
      else none
  | .readLoop resid _ => some (readLoop s t resid)
  | .readWait resid =>
      some ({ s with semsLock := none, semsCv := t :: s.semsCv }.goto t (.asleep resid))
  | .asleep resid =>
      if t ∉ s.semsCv ∧ s.semsLock = none then
        some ({ s with semsLock := some t }.goto t (.readLoop resid true))
      else none
  | .readUnlock => some ({ s with semsLock := none }.goto t .out)
  | .writeLock resid =>
      if s.semsLock = none then some ({ s with semsLock := some t }.goto t (.writeLoop resid))
      else none
  | .writeLoop resid => writeLoop s t resid target
  | .writeUnlock => some ({ s with semsLock := none }.goto t .out)

/-- One step of the system. -/
def step (s : State T) : Action T → Option (State T)
  | .callRead t resid => if s.pc t = .out then some (s.goto t (.readLock resid)) else none
  | .callWrite t resid => if s.pc t = .out then some (s.goto t (.writeLock resid)) else none
  | .run t target => runStep s t target

/-- Any number of threads using one semaphore file. -/
def system (T : Type*) [DecidableEq T] : TransitionSystem (State T) (Action T) where
  init s := s = Semfs.init
  step := step

/-! ### Readers on their way -/

/-- What a thread still wants. -/
def Pc.resid : Pc → UInt32
  | .readLock resid | .readLoop resid _ | .readWait resid | .asleep resid => resid
  | .writeLock resid | .writeLoop resid => resid
  | .out | .readUnlock | .writeUnlock => 0

/-- Inside `cv_wait`. -/
def Pc.isAsleep : Pc → Bool
  | .asleep _ => true
  | _ => false

/-- Woken, with the lock, and about to test the count again. -/
def Pc.isRetest : Pc → Bool
  | .readLoop _ woken => woken
  | _ => false

/-- The thread holds `sems_lock`. -/
def Pc.inSection : Pc → Bool
  | .readLoop .. | .readWait _ | .readUnlock | .writeLoop _ | .writeUnlock => true
  | .out | .readLock _ | .asleep _ | .writeLock _ => false

omit [DecidableEq T] in
/-- Woken, and the count not yet tested again. -/
def InFlight (s : State T) (t : T) : Prop :=
  (s.pc t).isAsleep = true ∧ t ∉ s.semsCv ∨ (s.pc t).isRetest = true

instance (s : State T) (t : T) : Decidable (InFlight s t) :=
  inferInstanceAs (Decidable ((s.pc t).isAsleep = true ∧ t ∉ s.semsCv ∨ (s.pc t).isRetest = true))

/-- The step, if it is a write that adds to a positive count while readers are asleep, brings the
count to no more than the readers already woken want together. -/
def Covered (s : State T) : Action T → Prop
  | .run t _ => ∀ resid, s.pc t = .writeLoop resid → 0 < s.semsCount →
      s.semsCount ≤ s.semsCount + resid → s.semsCv ≠ [] →
      ∃ A : Finset T, (∀ u ∈ A, InFlight s u) ∧
        (s.semsCount + resid).toNat ≤ ∑ u ∈ A, (s.pc u).resid.toNat
  | _ => True

/-! ### The invariant -/

omit [DecidableEq T] in
/-- The invariant of covered runs. -/
structure Inv (s : State T) : Prop where
  /-- The lock is held exactly by the thread in its section. -/
  lock : ∀ t, s.semsLock = some t ↔ (s.pc t).inSection = true
  /-- Whoever sleeps is inside `cv_wait`. -/
  queued : ∀ t ∈ s.semsCv, (s.pc t).isAsleep = true
  nodup : s.semsCv.Nodup
  /-- Nobody sleeps for nothing, and whoever is about to sleep saw the count at zero. -/
  wants : ∀ t resid, s.pc t = .asleep resid ∨ s.pc t = .readWait resid → 0 < resid
  empty : ∀ t resid, s.pc t = .readWait resid → s.semsCount = 0
  /-- While somebody sleeps, the readers woken want at least what is there. -/
  flight : s.semsCv ≠ [] → ∃ A : Finset T, (∀ t ∈ A, InFlight s t) ∧
    s.semsCount.toNat ≤ ∑ t ∈ A, (s.pc t).resid.toNat

omit [DecidableEq T] in
theorem inv_init : Inv (init : State T) := by
  refine ⟨?_, ?_, ?_, ?_, ?_, ?_⟩ <;> simp [init, Pc.inSection]

section Steps

variable {s s' : State T} {t : T} {p : Pc}

omit [DecidableEq T] in
/-- No two threads are inside the section. -/
theorem Inv.alone (h : Inv s) (ht : (s.pc t).inSection = true) {u : T} (hu : u ≠ t) :
    (s.pc u).inSection = false := by
  by_contra hc
  have h1 := (h.lock u).mpr (by simpa using hc)
  rw [(h.lock t).mpr ht] at h1
  exact hu (Option.some.inj h1).symm

/-- The readers in flight other than `t`, when only `t` moves. Without `t` they want less by what
`t` wanted. -/
theorem flight_erase (s' : State T) {A : Finset T} (hA : ∀ u ∈ A, InFlight s u)
    (hmove : ∀ u, u ≠ t → s'.pc u = s.pc u) (hcv : ∀ u, u ≠ t → u ∈ s'.semsCv → u ∈ s.semsCv) :
    (∀ u ∈ A.erase t, InFlight s' u) ∧ ∑ u ∈ A, (s.pc u).resid.toNat ≤
      ∑ u ∈ A.erase t, (s'.pc u).resid.toNat + (s.pc t).resid.toNat := by
  constructor
  · intro u hu
    obtain ⟨hne, hmem⟩ := Finset.mem_erase.mp hu
    have := hA u hmem
    rw [InFlight, hmove u hne]
    rcases this with ⟨h1, h2⟩ | h1
    · exact Or.inl ⟨h1, fun hc => h2 (hcv u hne hc)⟩
    · exact Or.inr h1
  · have hsum : ∑ u ∈ A.erase t, (s'.pc u).resid.toNat = ∑ u ∈ A.erase t, (s.pc u).resid.toNat :=
      Finset.sum_congr rfl fun u hu => by rw [hmove u (Finset.ne_of_mem_erase hu)]
    rw [hsum]
    by_cases ht : t ∈ A
    · rw [Finset.sum_erase_add A _ ht]
    · rw [Finset.erase_eq_of_notMem ht]
      exact Nat.le_add_right _ _

omit [DecidableEq T] in
/-- A step of a thread that is not in flight and takes or gives no unit. -/
theorem flight_same (s' : State T) (h : Inv s) (hcount : s'.semsCount = s.semsCount)
    (hcv : s'.semsCv = s.semsCv) (ht : ¬InFlight s t) (hmove : ∀ u, u ≠ t → s'.pc u = s.pc u)
    (hne : s'.semsCv ≠ []) :
    ∃ A : Finset T, (∀ u ∈ A, InFlight s' u) ∧
      s'.semsCount.toNat ≤ ∑ u ∈ A, (s'.pc u).resid.toNat := by
  rw [hcv] at hne
  obtain ⟨A, hA, hle⟩ := h.flight hne
  have hnot : ∀ u ∈ A, u ≠ t := fun u hu he => ht (he ▸ hA u hu)
  refine ⟨A, fun u hu => ?_, ?_⟩
  · have := hA u hu
    rwa [InFlight, hmove u (hnot u hu), hcv]
  · rw [hcount]
    refine hle.trans (le_of_eq (Finset.sum_congr rfl fun u hu => ?_))
    rw [hmove u (hnot u hu)]

/-- A step that changes neither the count nor the sleepers, by a thread that is neither asleep nor
about to test the count again. -/
theorem Inv.goto (h : Inv s) (lock : Option T) (hoff : ¬InFlight s t) (hcv : t ∉ s.semsCv)
    (hlock : ∀ u, lock = some u ↔
      if u = t then p.inSection = true else (s.pc u).inSection = true)
    (hp : ∀ resid, p ≠ .asleep resid ∧ p ≠ .readWait resid) :
    Inv ({ s with semsLock := lock }.goto t p) := by
  have hflight := flight_same ({ s with semsLock := lock }.goto t p) h rfl rfl hoff
    fun u hu => by simp [State.goto, hu]
  obtain ⟨h1, h2, h3, h4, h5, h6⟩ := h
  refine ⟨fun u => ?_, fun u hu => ?_, h3, fun u r hu => ?_, fun u r hu => ?_, hflight⟩
  · simp only [State.goto, Function.update_apply]
    have := hlock u
    grind
  · have hne : u ≠ t := fun he => hcv (he ▸ hu)
    simp only [State.goto, Function.update_apply, hne, if_false]
    exact h2 u hu
  · simp only [State.goto, Function.update_apply] at hu
    grind
  · simp only [State.goto, Function.update_apply] at hu
    change s.semsCount = 0
    grind

/-- `lock_acquire` on the way in. -/
theorem Inv.lockAcquire (h : Inv s) (hfree : s.semsLock = none) (hoff : ¬InFlight s t)
    (hcv : t ∉ s.semsCv) (hp : p.inSection = true) (hw : ∀ resid, p ≠ .readWait resid) :
    Inv ({ s with semsLock := some t }.goto t p) := by
  refine h.goto _ hoff hcv (fun u => ?_) fun resid => ⟨?_, hw resid⟩
  · have hnone : (s.pc u).inSection = false := by
      have := h.lock u
      rw [hfree] at this
      simpa using this
    by_cases hu : u = t
    · simp [hu, hp]
    · simp [hu, hnone, Ne.symm hu]
  · rintro rfl
    cases hp

/-- `lock_release`. -/
theorem Inv.lockRelease (h : Inv s) (ht : (s.pc t).inSection = true) (hoff : ¬InFlight s t)
    (hcv : t ∉ s.semsCv) : Inv ({ s with semsLock := none }.goto t .out) := by
  refine h.goto _ hoff hcv (fun u => ?_) fun resid => ⟨nofun, nofun⟩
  by_cases hu : u = t
  · simp [hu, Pc.inSection]
  · simp [hu, h.alone ht hu]

omit [DecidableEq T] in
/-- A thread that is not inside `cv_wait` is not among the sleepers. -/
theorem Inv.not_queued (h : Inv s) (ht : (s.pc t).isAsleep = false) : t ∉ s.semsCv := by
  intro hm
  rw [h.queued t hm] at ht
  cases ht

/-- A woken reader takes the lock again. -/
theorem Inv.rewake {resid : UInt32} (h : Inv s) (hpc : s.pc t = .asleep resid)
    (hcv : t ∉ s.semsCv) (hfree : s.semsLock = none) :
    Inv ({ s with semsLock := some t }.goto t (.readLoop resid true)) := by
  obtain ⟨h1, h2, h3, h4, h5, h6⟩ := h
  refine ⟨fun u => ?_, fun u hu => ?_, h3, fun u r hu => ?_, fun u r hu => ?_, fun hne => ?_⟩
  · have hnone : (s.pc u).inSection = false := by
      have := h1 u
      rw [hfree] at this
      simpa using this
    simp only [State.goto, Function.update_apply]
    grind [Pc.inSection]
  · have hne : u ≠ t := fun he => hcv (he ▸ hu)
    simp only [State.goto, Function.update_apply, hne, if_false]
    exact h2 u hu
  · simp only [State.goto, Function.update_apply] at hu
    grind
  · simp only [State.goto, Function.update_apply] at hu
    change s.semsCount = 0
    grind
  · obtain ⟨A, hA, hle⟩ := h6 hne
    refine ⟨A, fun u hu => ?_, hle.trans (le_of_eq (Finset.sum_congr rfl fun u _ => ?_))⟩
    · by_cases hut : u = t
      · right
        simp [State.goto, hut, Pc.isRetest]
      · have := hA u hu
        simpa [InFlight, State.goto, hut] using this
    · by_cases hut : u = t
      · simp [State.goto, hut, hpc, Pc.resid]
      · simp [State.goto, hut]

/-- `cv_wait`. -/
theorem Inv.wait {resid : UInt32} (h : Inv s) (hpc : s.pc t = .readWait resid) :
    Inv ({ s with semsLock := none, semsCv := t :: s.semsCv }.goto t (.asleep resid)) := by
  have hother := fun u => h.alone (t := t) (by rw [hpc]; rfl) (u := u)
  have hcv : t ∉ s.semsCv := h.not_queued (by rw [hpc]; rfl)
  obtain ⟨h1, h2, h3, h4, h5, h6⟩ := h
  have hzero := h5 t resid hpc
  refine ⟨fun u => ?_, fun u hu => ?_, List.nodup_cons.mpr ⟨hcv, h3⟩, fun u r hu => ?_,
    fun u r hu => hzero, fun _ => ⟨∅, by simp, ?_⟩⟩
  · have := hother u
    simp only [State.goto, Function.update_apply]
    grind [Pc.inSection]
  · simp only [State.goto, Function.update_apply]
    rcases List.mem_cons.mp hu with rfl | hu
    · rw [if_pos rfl]
      rfl
    · have hne : u ≠ t := fun he => hcv (he ▸ hu)
      rw [if_neg hne]
      exact h2 u hu
  · simp only [State.goto, Function.update_apply] at hu
    have := h4 t resid (Or.inr hpc)
    grind
  · change s.semsCount.toNat ≤ _
    rw [hzero]
    exact Nat.zero_le _

/-- One round of the loop of `semfs_read`: the reader takes what it wants and is done, or all there
is and goes on to `cv_wait`. -/
theorem readLoop_eq (s : State T) (t : T) (resid : UInt32) : ∃ (c : UInt32) (p : Pc),
    readLoop s t resid = { s with semsCount := c }.goto t p ∧
    (p = .readUnlock ∨ ∃ r, p = .readWait r ∧ 0 < r ∧ c = 0) ∧
    c.toNat = s.semsCount.toNat - resid.toNat := by
  unfold readLoop
  by_cases hr : 0 < resid
  · rw [if_pos hr]
    have hresid : resid ≠ 0 := UInt32.pos_iff_ne_zero.mp hr
    by_cases hc : 0 < s.semsCount
    · by_cases hlt : s.semsCount < resid
      · have hlt' := UInt32.lt_iff_toNat_lt.mp hlt
        have hne : resid - s.semsCount ≠ 0 := by
          intro h0
          have h1 := congrArg UInt32.toNat h0
          rw [UInt32.toNat_sub_of_le _ _ (UInt32.le_of_lt hlt)] at h1
          change _ = 0 at h1
          omega
        refine ⟨0, .readWait (resid - s.semsCount), ?_,
          Or.inr ⟨_, rfl, UInt32.pos_iff_ne_zero.mpr hne, rfl⟩, ?_⟩
        · simp only [if_pos hc, if_pos hlt, UInt32.sub_self, if_neg hne, if_true]
        · change 0 = _
          omega
      · have hle : resid ≤ s.semsCount := UInt32.not_lt.mp hlt
        refine ⟨s.semsCount - resid, .readUnlock, ?_, Or.inl rfl, UInt32.toNat_sub_of_le _ _ hle⟩
        simp only [if_pos hc, if_neg hlt, UInt32.sub_self, if_true]
    · have hzero : s.semsCount = 0 := by
        by_contra hne
        exact hc (UInt32.pos_iff_ne_zero.mpr hne)
      refine ⟨0, .readWait resid, ?_, Or.inr ⟨resid, rfl, hr, rfl⟩, ?_⟩
      · simp only [if_neg hc, UInt32.sub_zero, if_neg hresid, if_pos hzero]
        rw [hzero]
      · rw [hzero]
        exact (Nat.zero_sub _).symm
  · have hzero : resid = 0 := by
      by_contra hne
      exact hr (UInt32.pos_iff_ne_zero.mpr hne)
    refine ⟨s.semsCount, .readUnlock, by rw [if_neg hr], Or.inl rfl, ?_⟩
    rw [hzero]
    rfl

theorem Inv.read {resid : UInt32} {woken : Bool} (h : Inv s)
    (hpc : s.pc t = .readLoop resid woken) :
    Inv (readLoop s t resid) := by
  have hother := fun u => h.alone (t := t) (by rw [hpc]; rfl) (u := u)
  have hcv : t ∉ s.semsCv := h.not_queued (by rw [hpc]; rfl)
  obtain ⟨c, p, hround, hp, htake⟩ := readLoop_eq s t resid
  rw [hround]
  obtain ⟨h1, h2, h3, h4, h5, h6⟩ := h
  refine ⟨fun u => ?_, fun u hu => ?_, h3, fun u r hu => ?_, fun u r hu => ?_, fun hne => ?_⟩
  · have := hother u
    simp only [State.goto, Function.update_apply]
    grind [Pc.inSection]
  · have hne : u ≠ t := fun he => hcv (he ▸ hu)
    simp only [State.goto, Function.update_apply, hne, if_false]
    exact h2 u hu
  · simp only [State.goto, Function.update_apply] at hu
    grind
  · simp only [State.goto, Function.update_apply] at hu
    change c = 0
    by_cases hut : u = t
    · grind
    · have := hother u hut
      rw [if_neg hut] at hu
      simp [hu, Pc.inSection] at this
  · obtain ⟨A, hA, hle⟩ := h6 hne
    obtain ⟨hA', hsum⟩ := flight_erase ({ s with semsCount := c }.goto t p) (t := t) hA
      (fun u hu => by simp [State.goto, hu]) fun u _ hu => hu
    refine ⟨A.erase t, hA', ?_⟩
    change c.toNat ≤ _
    rw [hpc, Pc.resid] at hsum
    omega

/-- A covered write. -/
theorem Inv.write {resid : UInt32} {target : Option T} (h : Inv s)
    (hpc : s.pc t = .writeLoop resid) (hcov : Covered s (.run t target))
    (hs : writeLoop s t resid target = some s') : Inv s' := by
  have hsec : (s.pc t).inSection = true := by rw [hpc]; rfl
  have hother := fun u => h.alone hsec (u := u)
  have hcv : t ∉ s.semsCv := h.not_queued (by rw [hpc]; rfl)
  have hoff : ¬InFlight s t := by simp [InFlight, hpc, Pc.isAsleep, Pc.isRetest]
  have hlock : s.semsLock = some t := (h.lock t).mpr hsec
  have hskip : Inv (s.goto t .writeUnlock) := by
    refine h.goto s.semsLock hoff hcv (fun u => ?_) fun r => ⟨nofun, nofun⟩
    rw [h.lock u]
    by_cases hu : u = t
    · rw [if_pos hu, hu, hsec]
      rfl
    · simp [hu]
  -- what is left once the sleepers have been dealt with
  have hadd : ∀ (cv : List T) (c : UInt32), (∀ u ∈ cv, u ∈ s.semsCv) → cv.Nodup →
      (cv ≠ [] → ∃ A : Finset T, (∀ u ∈ A, InFlight { s with semsCv := cv } u) ∧
        c.toNat ≤ ∑ u ∈ A, (s.pc u).resid.toNat) →
      Inv ({ s with semsCv := cv, semsCount := c }.goto t .writeUnlock) := by
    intro cv c hsub hnd hfl
    obtain ⟨h1, h2, h3, h4, h5, h6⟩ := h
    refine ⟨fun u => ?_, fun u hu => ?_, hnd, fun u r hu => ?_, fun u r hu => ?_, fun hne => ?_⟩
    · simp only [State.goto, Function.update_apply]
      grind [Pc.inSection]
    · have hne : u ≠ t := fun he => hcv (he ▸ hsub u hu)
      simp only [State.goto, Function.update_apply, hne, if_false]
      exact h2 u (hsub u hu)
    · simp only [State.goto, Function.update_apply] at hu
      grind
    · simp only [State.goto, Function.update_apply] at hu
      by_cases hut : u = t
      · grind
      · have := hother u hut
        rw [if_neg hut] at hu
        simp [hu, Pc.inSection] at this
    · obtain ⟨A, hA, hle⟩ := hfl hne
      have hnot : ∀ u ∈ A, u ≠ t := by
        rintro u hu rfl
        have := hA u hu
        simp [InFlight, hpc, Pc.isAsleep, Pc.isRetest] at this
      refine ⟨A, fun u hu => ?_, hle.trans (le_of_eq (Finset.sum_congr rfl fun u hu => ?_))⟩
      · have := hA u hu
        simpa [InFlight, State.goto, hnot u hu] using this
      · simp [State.goto, hnot u hu]
  unfold writeLoop at hs
  by_cases hr : 0 < resid
  · rw [if_pos hr] at hs
    dsimp only at hs
    by_cases hover : s.semsCount + resid < s.semsCount
    · rw [if_pos hover] at hs
      obtain rfl := Option.some.inj hs
      exact hskip
    · rw [if_neg hover] at hs
      have hle : s.semsCount ≤ s.semsCount + resid := UInt32.not_lt.mp hover
      unfold semfsWakeup at hs
      by_cases hpos : 0 < s.semsCount
      · rw [if_pos (Or.inl hpos), Option.map_some] at hs
        obtain rfl := Option.some.inj hs
        exact hadd s.semsCv _ (fun _ => id) h.nodup fun hne => hcov resid hpc hpos hle hne
      · have hzero : s.semsCount = 0 := by
          by_contra hne
          exact hpos (UInt32.pos_iff_ne_zero.mpr hne)
        have hnew : s.semsCount + resid = resid := by rw [hzero, UInt32.zero_add]
        have hresid : resid ≠ 0 := UInt32.pos_iff_ne_zero.mp hr
        rw [hnew, if_neg (by simp [hpos, hresid])] at hs
        split at hs
        · next hone =>
          unfold cvSignal at hs
          split at hs
          · split at hs
            · next hnil =>
              rw [Option.map_some] at hs
              obtain rfl := Option.some.inj hs
              exact hadd s.semsCv _ (fun _ => id) h.nodup fun hne => absurd hnil hne
            · cases hs
          · next u =>
            split at hs
            · next hu =>
              rw [Option.map_some] at hs
              obtain rfl := Option.some.inj hs
              refine hadd (s.semsCv.erase u) _ (fun v => List.mem_of_mem_erase) (h.nodup.erase u)
                fun _ => ⟨{u}, fun v hv => ?_, ?_⟩
              · rw [Finset.mem_singleton] at hv
                subst hv
                exact Or.inl ⟨h.queued v hu, h.nodup.not_mem_erase⟩
              · have hw : 0 < (s.pc u).resid := by
                  have hasleep := h.queued u hu
                  cases hpu : s.pc u with
                  | asleep r => exact h.wants u r (Or.inl hpu)
                  | _ => simp [hpu, Pc.isAsleep] at hasleep
                rw [Finset.sum_singleton, hone]
                exact Nat.succ_le_of_lt (UInt32.lt_iff_toNat_lt.mp hw)
            · cases hs
        · rw [Option.map_some] at hs
          obtain rfl := Option.some.inj hs
          exact hadd [] _ (by simp) List.nodup_nil fun hne => absurd rfl hne
  · rw [if_neg hr] at hs
    obtain rfl := Option.some.inj hs
    exact hskip

/-! ### Assembling the step lemma -/

theorem inv_runStep {target : Option T} (h : Inv s) (hcov : Covered s (.run t target))
    (hs : runStep s t target = some s') : Inv s' := by
  unfold runStep at hs
  split at hs
  case h_1 => simp at hs
  case h_2 resid hpc =>
    split at hs
    · obtain rfl := Option.some.inj hs
      exact h.lockAcquire ‹_› (by simp [InFlight, hpc, Pc.isAsleep, Pc.isRetest])
        (h.not_queued (by rw [hpc]; rfl)) rfl nofun
    · simp at hs
  case h_3 resid woken hpc =>
    obtain rfl := Option.some.inj hs
    exact h.read hpc
  case h_4 resid hpc =>
    obtain rfl := Option.some.inj hs
    exact h.wait hpc
  case h_5 resid hpc =>
    split at hs
    · next hg =>
      obtain rfl := Option.some.inj hs
      exact h.rewake hpc hg.1 hg.2
    · simp at hs
  case h_6 hpc =>
    obtain rfl := Option.some.inj hs
    exact h.lockRelease (by rw [hpc]; rfl) (by simp [InFlight, hpc, Pc.isAsleep, Pc.isRetest])
      (h.not_queued (by rw [hpc]; rfl))
  case h_7 resid hpc =>
    split at hs
    · obtain rfl := Option.some.inj hs
      exact h.lockAcquire ‹_› (by simp [InFlight, hpc, Pc.isAsleep, Pc.isRetest])
        (h.not_queued (by rw [hpc]; rfl)) rfl nofun
    · simp at hs
  case h_8 resid hpc => exact h.write hpc hcov hs
  case h_9 hpc =>
    obtain rfl := Option.some.inj hs
    exact h.lockRelease (by rw [hpc]; rfl) (by simp [InFlight, hpc, Pc.isAsleep, Pc.isRetest])
      (h.not_queued (by rw [hpc]; rfl))

/-- A call, by a thread that was outside. -/
theorem Inv.call (h : Inv s) (hpc : s.pc t = .out) (hp : p.inSection = false)
    (hw : ∀ resid, p ≠ .asleep resid) : Inv (s.goto t p) := by
  refine h.goto s.semsLock (by simp [InFlight, hpc, Pc.isAsleep, Pc.isRetest])
    (h.not_queued (by rw [hpc]; rfl)) (fun u => ?_) fun r => ⟨hw r, ?_⟩
  · rw [h.lock u]
    by_cases hu : u = t
    · rw [if_pos hu, hu, hpc, hp]
      rfl
    · simp [hu]
  · rintro rfl
    cases hp

theorem inv_step {a : Action T} (h : Inv s) (hcov : Covered s a) (hs : step s a = some s') :
    Inv s' := by
  cases a with
  | callRead t resid =>
    simp only [step, Option.ite_none_right_eq_some, Option.some.injEq] at hs
    obtain ⟨hpc, rfl⟩ := hs
    exact h.call hpc rfl nofun
  | callWrite t resid =>
    simp only [step, Option.ite_none_right_eq_some, Option.some.injEq] at hs
    obtain ⟨hpc, rfl⟩ := hs
    exact h.call hpc rfl nofun
  | run t target => exact inv_runStep h hcov hs

end Steps

/-! ### Wake-ups -/

/-- **No lost wake-up, if writes are covered.** In every state a run of covered steps reaches in
which no woken reader has yet to test the count again, a positive count means that nobody sleeps. -/
theorem no_lost_wakeup {s : State T} (h : (system T).ReachableWhile Covered s)
    (hdone : ∀ t, ¬InFlight s t) (hpos : 0 < s.semsCount) : s.semsCv = [] := by
  have hinv : Inv s := by
    refine h.invariant (P := Inv) ?_ fun s a s' hi hc hs => inv_step hi hc hs
    rintro s rfl
    exact inv_init
  by_contra hne
  obtain ⟨A, hA, hle⟩ := hinv.flight hne
  have hempty : A = ∅ := Finset.eq_empty_of_forall_notMem fun t ht => hdone t (hA t ht)
  rw [hempty, Finset.sum_empty] at hle
  have := UInt32.lt_iff_toNat_lt.mp hpos
  change 0 < _ at this
  omega

/-- A reader sleeps and is woken by a write of one unit, which it takes; then one more unit is
written. -/
def served : List (Action (Fin 2)) :=
  [.callRead 0 1, .run 0 none, .run 0 none, .run 0 none,
    .callWrite 1 1, .run 1 none, .run 1 (some 0), .run 1 none,
    .run 0 none, .run 0 none, .run 0 none,
    .callWrite 1 1, .run 1 none, .run 1 none, .run 1 none]

/-- A test for `Covered` that looks at the count and the sleepers only. -/
def quiet (s : State T) (_ : Action T) : Bool := s.semsCount = 0 || s.semsCv.isEmpty

omit [DecidableEq T] in
theorem covered_of_quiet (s : State T) (a : Action T) (h : quiet s a = true) : Covered s a := by
  cases a with
  | run t target =>
    intro resid _ hpos _ hne
    rcases Bool.or_eq_true_iff.mp h with h | h
    · rw [of_decide_eq_true h] at hpos
      exact absurd hpos (by decide)
    · exact absurd (List.isEmpty_iff.mp h) hne
  | _ => trivial

theorem served_runs :
    (served.foldlM (fun s a => if quiet s a then (system (Fin 2)).step s a else none)
    Semfs.init).isSome := by
  decide

theorem no_lost_wakeup_served : ∃ s : State (Fin 2), (system (Fin 2)).ReachableWhile Covered s ∧
    (∀ t, ¬InFlight s t) ∧ 0 < s.semsCount ∧ s.semsCv = [] := by
  have hreach := TransitionSystem.reachableWhile_of_run covered_of_quiet served (.init rfl)
    (Option.some_get served_runs).symm
  exact ⟨_, hreach, by decide, by decide, no_lost_wakeup hreach (by decide) (by decide)⟩

/-- Readers `0` and `1` want one unit each and go to sleep. Writer `2` writes one unit, which wakes
`0`, and before `0` gets the lock writes another, which wakes nobody. Reader `0` takes its unit and
leaves. -/
def lost : List (Action (Fin 3)) :=
  [.callRead 0 1, .run 0 none, .run 0 none, .run 0 none,
    .callRead 1 1, .run 1 none, .run 1 none, .run 1 none,
    .callWrite 2 1, .run 2 none, .run 2 (some 0), .run 2 none,
    .callWrite 2 1, .run 2 none, .run 2 none, .run 2 none,
    .run 0 none, .run 0 none, .run 0 none]

theorem lost_runs : (lost.foldlM (system (Fin 3)).step Semfs.init).isSome := by
  decide

/-- A unit is there, nobody is on the way, and reader `1` sleeps. -/
theorem lost_wakeup : ∃ s : State (Fin 3), (system (Fin 3)).Reachable s ∧ (∀ t, ¬InFlight s t) ∧
    0 < s.semsCount ∧ s.semsCv = [1] := by
  have hreach := TransitionSystem.reachable_of_run lost (.init rfl)
    (Option.some_get lost_runs).symm
  exact ⟨_, hreach, by decide, by decide, by decide⟩

end Semfs

end Os161
