import Os161.Lib.Transition
import Mathlib.Data.Finset.Card
import Mathlib.Data.Set.Card
import Mathlib.Logic.Function.Basic
import Mathlib.Tactic.DefEqTransformations

/-!
# The semaphore of `kern/thread/synch.c`

`P` and `V`, together with the parts of `wchan_sleep`, `thread_switch` and `wchan_wakeone`
(`kern/thread/thread.c`) they run, for any number of threads and any initial count.

## Granularity

As for the sleep lock, a step is one spinlock-protected action of one thread. The test that finds a
positive count and the decrement after it are one step, and so are the increment of `V`, its
`KASSERT` and the `wchan_wakeone`: no other thread can look at the count in between. `completedP`
and `completedV` count these two steps, from which on a `P` has its unit and a `V` has given its
own.

## The counting argument

A thread is *in flight* between its removal from the channel and its next test of the count. While
somebody is on the channel the count is at most the number of threads in flight: a `V` adds one to
both, a thread in flight that tests the count leaves the one and takes a unit from the other (or
finds it zero), and a newcomer that overtakes only lowers the count.

## Main results

* `Semaphore.inv_step`, `Semaphore.inv_of_reachable` — the invariant and its two lemmas
* `Semaphore.semaphore_protocol` — the count, and no available unit without somebody on the way
-/

namespace Os161

namespace Semaphore

variable {T : Type*}

/-- Where a thread is in the semaphore code. -/
inductive Pc where
  /-- Outside `P` and `V`. -/
  | out
  /-- `P`, at `spinlock_acquire`. -/
  | pSpin
  /-- `P`, at the test of the `while` loop; `woken` once the thread has slept. -/
  | pTest (woken : Bool)
  /-- `thread_switch(S_SLEEP)`, at `threadlist_addtail`. -/
  | sleepEnqueue
  /-- `thread_switch(S_SLEEP)`, at the `spinlock_release` after the enqueue. -/
  | sleepUnlock
  /-- Switched out, or taken off the channel and at the `spinlock_acquire` of `wchan_sleep`. -/
  | asleep
  /-- `P`, at `spinlock_release`. -/
  | pUnlock
  /-- `V`, at `spinlock_acquire`. -/
  | vSpin
  /-- `V`, at `sem_count++`. -/
  | vCount
  /-- `V`, at `spinlock_release`. -/
  | vUnlock
  /-- A `KASSERT` failed. -/
  | panicked
  deriving DecidableEq

/-- A semaphore and the threads using it. -/
structure State (T : Type*) where
  /-- `sem_count`. -/
  semCount : UInt32
  /-- The thread whose CPU is `splk_holder` of `sem_lock`. -/
  semLock : Option T
  /-- `wc_threads` of `sem_wchan`, head first. -/
  semWchan : List T
  /-- `c_spinlocks` of the CPU the thread runs on. -/
  cSpinlocks : T → ℕ
  /-- Where each thread is. -/
  pc : T → Pc
  /-- How many `P`s have got their unit. -/
  completedP : ℕ
  /-- How many `V`s have given theirs. -/
  completedV : ℕ

/-- What can happen next. -/
inductive Action (T : Type*) where
  /-- Thread `t` calls `P`. -/
  | callP (t : T)
  /-- Thread `t` calls `V`. -/
  | callV (t : T)
  /-- Thread `t` takes its next step inside the semaphore code. -/
  | run (t : T)

/-- The state after `sem_create`. -/
def init (initialCount : UInt32) : State T where
  semCount := initialCount
  semLock := none
  semWchan := []
  cSpinlocks _ := 0
  pc _ := .out
  completedP := 0
  completedV := 0

/-- Taken off the channel, and the test of the `while` loop not yet repeated. -/
def InFlight (s : State T) (t : T) : Prop :=
  (s.pc t = .asleep ∧ t ∉ s.semWchan) ∨ s.pc t = .pTest true

variable [DecidableEq T]

/-- Move thread `t` to `p`. -/
def State.goto (s : State T) (t : T) (p : Pc) : State T :=
  { s with pc := Function.update s.pc t p }

/-- The end of `spinlock_acquire`: thread `t` owns `sem_lock`. -/
def State.spinlockAcquire (s : State T) (t : T) : State T :=
  { s with
    semLock := some t
    cSpinlocks := Function.update s.cSpinlocks t (s.cSpinlocks t + 1) }

/-- `spinlock_release`. -/
def State.spinlockRelease (s : State T) (t : T) : State T :=
  { s with
    semLock := none
    cSpinlocks := Function.update s.cSpinlocks t (s.cSpinlocks t - 1) }

/-- `spinlock_do_i_hold`. -/
def spinlockDoIHold (s : State T) (t : T) : Bool := s.semLock = some t

/-- The test of the `while` loop in `P`. A thread that finds a unit takes it; otherwise it enters
`wchan_sleep`, whose `KASSERT`s are checked here. -/
def pTest (s : State T) (t : T) : State T :=
  if s.semCount = 0 then
    if spinlockDoIHold s t ∧ s.cSpinlocks t = 1 then s.goto t .sleepEnqueue
    else s.goto t .panicked
  else
    { s with semCount := s.semCount - 1, completedP := s.completedP + 1 }.goto t .pUnlock

/-- `wchan_wakeone`: take the first thread off the channel. -/
def wchanWakeone (s : State T) : State T := { s with semWchan := s.semWchan.tail }

/-- The body of `V`, with its `KASSERT` and the one of `wchan_wakeone`. -/
def vCount (s : State T) (t : T) : State T :=
  if 0 < s.semCount + 1 then
    if spinlockDoIHold s t then
      (wchanWakeone { s with
        semCount := s.semCount + 1, completedV := s.completedV + 1 }).goto t .vUnlock
    else s.goto t .panicked
  else { s with semCount := s.semCount + 1 }.goto t .panicked

/-- The next step of thread `t` inside the semaphore code. It is not enabled while the spinlock it
wants is taken, and not while the thread is on the channel. -/
def runStep (s : State T) (t : T) : Option (State T) :=
  match s.pc t with
  | .out => none
  | .pSpin =>
      if s.semLock = none then some ((s.spinlockAcquire t).goto t (.pTest false)) else none
  | .pTest _ => some (pTest s t)
  | .sleepEnqueue => some ({ s with semWchan := s.semWchan ++ [t] }.goto t .sleepUnlock)
  | .sleepUnlock => some ((s.spinlockRelease t).goto t .asleep)
  | .asleep =>
      if t ∉ s.semWchan ∧ s.semLock = none then
        some ((s.spinlockAcquire t).goto t (.pTest true))
      else none
  | .pUnlock => some ((s.spinlockRelease t).goto t .out)
  | .vSpin => if s.semLock = none then some ((s.spinlockAcquire t).goto t .vCount) else none
  | .vCount => some (vCount s t)
  | .vUnlock => some ((s.spinlockRelease t).goto t .out)
  | .panicked => none

/-- One step of the system. -/
def step (s : State T) : Action T → Option (State T)
  | .callP t => if s.pc t = .out then some (s.goto t .pSpin) else none
  | .callV t => if s.pc t = .out then some (s.goto t .vSpin) else none
  | .run t => runStep s t

/-- The semaphore code run by any number of threads, from a given initial count. -/
def system (T : Type*) [DecidableEq T] (initialCount : UInt32) :
    TransitionSystem (State T) (Action T) where
  init s := s = init initialCount
  step := step

/-! ### The invariant -/

/-- The thread owns `sem_lock`. -/
def Pc.inSection : Pc → Bool
  | .pTest _ | .sleepEnqueue | .sleepUnlock | .pUnlock | .vCount | .vUnlock | .panicked => true
  | _ => false

omit [DecidableEq T] in
/-- The invariant of the semaphore code, for a semaphore created with count `c`. -/
structure Inv (c : UInt32) (s : State T) : Prop where
  /-- The spinlock is owned exactly by the thread inside the section. -/
  spin : ∀ t, s.semLock = some t ↔ (s.pc t).inSection = true
  /-- A thread owns one spinlock inside the section and none outside. -/
  spinlocks : ∀ t, s.cSpinlocks t = if (s.pc t).inSection then 1 else 0
  /-- Whoever is on the channel went to sleep. -/
  queued : ∀ t ∈ s.semWchan, s.pc t = .sleepUnlock ∨ s.pc t = .asleep
  /-- Nobody takes a thread off the channel before it has unlocked. -/
  enqueued : ∀ t, s.pc t = .sleepUnlock → t ∈ s.semWchan
  /-- Nobody is on the channel twice. -/
  nodup : s.semWchan.Nodup
  /-- A thread on its way to sleep saw the count at zero, and it still is. -/
  empty : ∀ t, s.pc t = .sleepEnqueue ∨ s.pc t = .sleepUnlock → s.semCount = 0
  /-- Behind every unit a sleeper could take there is a thread in flight. -/
  flight : ∃ A : Finset T, (∀ t, t ∈ A ↔ InFlight s t) ∧
    (s.semWchan ≠ [] → s.semCount.toNat ≤ A.card)
  /-- The count is what was there and given, less what was taken. -/
  count : (∀ t, s.pc t ≠ .panicked) → s.semCount.toNat + s.completedP = c.toNat + s.completedV
  /-- Only a `V` on a full semaphore fails a `KASSERT`. -/
  full : ∀ t, s.pc t = .panicked →
    s.semCount = 0 ∧ c.toNat + s.completedV = s.completedP + 4294967295

omit [DecidableEq T] in
theorem inv_init (c : UInt32) : Inv c (init c : State T) := by
  refine ⟨?_, ?_, ?_, ?_, ?_, ?_, ⟨∅, ?_, ?_⟩, ?_, ?_⟩ <;> simp [init, Pc.inSection, InFlight]

section Steps

variable {c : UInt32} {s : State T} {t : T} {p : Pc}

omit [DecidableEq T] in
/-- A thread that has not gone to sleep is not on the channel. -/
theorem Inv.not_queued (h : Inv c s) (h1 : s.pc t ≠ .sleepUnlock) (h2 : s.pc t ≠ .asleep) :
    t ∉ s.semWchan := by
  intro hm
  rcases h.queued t hm with hq | hq
  · exact h1 hq
  · exact h2 hq

omit [DecidableEq T] in
/-- No two threads are inside the section. -/
theorem Inv.alone (h : Inv c s) (ht : (s.pc t).inSection = true) {u : T} (hu : u ≠ t) :
    (s.pc u).inSection = false := by
  by_contra hc
  have h1 := (h.spin u).mpr (by simpa using hc)
  rw [(h.spin t).mpr ht] at h1
  exact hu (Option.some.inj h1).symm

/-- The threads in flight when `t` has moved on and is not in flight afterwards. -/
theorem flight_erase {s' : State T} {A : Finset T} (hA : ∀ u, u ∈ A ↔ InFlight s u)
    (hoff : ¬InFlight s' t) (hsame : ∀ u, u ≠ t → (InFlight s' u ↔ InFlight s u)) (u : T) :
    u ∈ A.erase t ↔ InFlight s' u := by
  by_cases hu : u = t
  · subst hu
    simp [hoff]
  · simp [hu, hA, hsame u hu]

/-- The threads in flight when `t` was not in flight before and is not afterwards. -/
theorem flight_same {s' : State T} {A : Finset T} (hA : ∀ u, u ∈ A ↔ InFlight s u)
    (ht : InFlight s' t ↔ InFlight s t) (hsame : ∀ u, u ≠ t → (InFlight s' u ↔ InFlight s u))
    (u : T) : u ∈ A ↔ InFlight s' u := by
  by_cases hu : u = t
  · subst hu
    rw [hA, ht]
  · rw [hA, hsame u hu]

/-- Calling `P` or `V`. -/
theorem Inv.call (h : Inv c s) (hpc : s.pc t = .out) (hp : p = .pSpin ∨ p = .vSpin) :
    Inv c (s.goto t p) := by
  obtain ⟨h1, h2, h3, h4, h5, h6, ⟨A, hA, h7⟩, h8, h9⟩ := h
  refine ⟨fun u => ?_, fun u => ?_, fun u hu => ?_, fun u hu => ?_, h5, fun u hu => ?_,
    ⟨A, flight_same (t := t) hA ?_ fun u hu => ?_, h7⟩, fun hn => h8 fun u => ?_,
    fun u hu => ?_⟩
  · simp only [State.goto, Function.update_apply]
    grind [Pc.inSection]
  · simp only [State.goto, Function.update_apply]
    grind [Pc.inSection]
  · have := h3 u hu
    simp only [State.goto, Function.update_apply]
    grind
  · simp only [State.goto, Function.update_apply] at hu ⊢
    grind
  · simp only [State.goto, Function.update_apply] at hu ⊢
    grind
  · simp only [InFlight, State.goto, Function.update_apply]
    grind
  · simp only [InFlight, State.goto, Function.update_apply]
    grind
  · have := hn u
    simp only [State.goto, Function.update_apply] at this
    grind
  · simp only [State.goto, Function.update_apply] at hu ⊢
    grind

/-- `spinlock_acquire` on the free spinlock, on the way in or after a wake-up. -/
theorem Inv.spinlockAcquire (h : Inv c s) (hfree : s.semLock = none)
    (hsec : (s.pc t).inSection = false) (hw : t ∉ s.semWchan)
    (hp : p = .pTest true ∧ s.pc t = .asleep ∨
      (p = .pTest false ∨ p = .vCount) ∧ s.pc t ≠ .asleep) :
    Inv c ((s.spinlockAcquire t).goto t p) := by
  obtain ⟨h1, h2, h3, h4, h5, h6, ⟨A, hA, h7⟩, h8, h9⟩ := h
  have hp' : p.inSection = true := by
    rcases hp with ⟨rfl, -⟩ | ⟨rfl | rfl, -⟩ <;> rfl
  have hnone : ∀ u, (s.pc u).inSection = false := by
    intro u
    have := h1 u
    rw [hfree] at this
    simpa using this
  refine ⟨fun u => ?_, fun u => ?_, fun u hu => ?_, fun u hu => ?_, h5, fun u hu => ?_,
    ⟨A, flight_same (t := t) hA ?_ fun u hu => ?_, h7⟩, fun hn => h8 fun u => ?_,
    fun u hu => ?_⟩
  · simp only [State.goto, State.spinlockAcquire, Function.update_apply]
    grind
  · simp only [State.goto, State.spinlockAcquire, Function.update_apply]
    grind
  · have := h3 u hu
    have : u ≠ t := fun he => hw (he ▸ hu)
    simp only [State.goto, State.spinlockAcquire, Function.update_apply]
    grind
  · simp only [State.goto, State.spinlockAcquire, Function.update_apply] at hu ⊢
    grind
  · simp only [State.goto, State.spinlockAcquire, Function.update_apply] at hu ⊢
    grind
  · simp only [InFlight, State.goto, State.spinlockAcquire, Function.update_apply]
    grind [Pc.inSection]
  · simp only [InFlight, State.goto, State.spinlockAcquire, Function.update_apply]
    grind
  · have := hnone u
    intro hc
    simp [hc, Pc.inSection] at this
  · simp only [State.goto, State.spinlockAcquire, Function.update_apply] at hu ⊢
    grind

/-- `spinlock_release` at the end of a section. -/
theorem Inv.spinlockRelease (h : Inv c s) (hp : p = .asleep ∧ s.pc t = .sleepUnlock ∨
    p = .out ∧ (s.pc t = .pUnlock ∨ s.pc t = .vUnlock)) :
    Inv c ((s.spinlockRelease t).goto t p) := by
  have hsec : (s.pc t).inSection = true := by
    rcases hp with ⟨-, hpc⟩ | ⟨-, hpc | hpc⟩ <;> rw [hpc] <;> rfl
  have hother := fun u => h.alone hsec (u := u)
  obtain ⟨h1, h2, h3, h4, h5, h6, ⟨A, hA, h7⟩, h8, h9⟩ := h
  have hspin : s.semLock = some t := (h1 t).mpr hsec
  refine ⟨fun u => ?_, fun u => ?_, fun u hu => ?_, fun u hu => ?_, h5, fun u hu => ?_,
    ⟨A, flight_same (t := t) hA ?_ fun u hu => ?_, h7⟩, fun hn => h8 fun u => ?_,
    fun u hu => ?_⟩
  · simp only [State.goto, State.spinlockRelease, Function.update_apply]
    grind [Pc.inSection]
  · simp only [State.goto, State.spinlockRelease, Function.update_apply]
    grind [Pc.inSection]
  · have := h3 u hu
    simp only [State.goto, State.spinlockRelease, Function.update_apply]
    grind
  · simp only [State.goto, State.spinlockRelease, Function.update_apply] at hu ⊢
    grind
  · simp only [State.goto, State.spinlockRelease, Function.update_apply] at hu ⊢
    grind
  · simp only [InFlight, State.goto, State.spinlockRelease, Function.update_apply]
    grind
  · simp only [InFlight, State.goto, State.spinlockRelease, Function.update_apply]
    grind
  · have := hother u
    grind [Pc.inSection]
  · simp only [State.goto, State.spinlockRelease, Function.update_apply] at hu ⊢
    grind

/-- The test that finds a unit. -/
theorem Inv.take {w : Bool} (h : Inv c s) (hpc : s.pc t = .pTest w) (hpos : s.semCount ≠ 0) :
    Inv c ({ s with semCount := s.semCount - 1, completedP := s.completedP + 1 }.goto t
      .pUnlock) := by
  have hother := fun u => h.alone (t := t) (by rw [hpc]; rfl) (u := u)
  obtain ⟨h1, h2, h3, h4, h5, h6, ⟨A, hA, h7⟩, h8, h9⟩ := h
  have hsub : (s.semCount - 1).toNat + 1 = s.semCount.toNat := by
    have hne : s.semCount.toNat ≠ 0 := fun h0 => hpos (UInt32.toNat_inj.mp h0)
    have hle : (1 : UInt32) ≤ s.semCount := UInt32.le_iff_toNat_le.mpr (by change 1 ≤ _; omega)
    rw [UInt32.toNat_sub_of_le _ _ hle]
    change s.semCount.toNat - 1 + 1 = _
    omega
  have hcard : A.card - 1 ≤ (A.erase t).card := Finset.pred_card_le_card_erase
  refine ⟨fun u => ?_, fun u => ?_, fun u hu => ?_, fun u hu => ?_, h5, fun u hu => ?_,
    ⟨A.erase t, flight_erase hA ?_ fun u hu => ?_, fun hne => ?_⟩, fun hn => ?_,
    fun u hu => ?_⟩
  · simp only [State.goto, Function.update_apply]
    grind [Pc.inSection]
  · simp only [State.goto, Function.update_apply]
    grind [Pc.inSection]
  · have := h3 u hu
    simp only [State.goto, Function.update_apply]
    grind
  · simp only [State.goto, Function.update_apply] at hu ⊢
    grind
  · simp only [State.goto, Function.update_apply] at hu
    grind [Pc.inSection]
  · simp [InFlight, State.goto]
  · simp only [InFlight, State.goto, Function.update_apply]
    grind
  · have := h7 hne
    change (s.semCount - 1).toNat ≤ _
    omega
  · have hcount := h8 fun v hv => by
      have := hn v
      simp only [State.goto, Function.update_apply] at this
      grind
    change (s.semCount - 1).toNat + (s.completedP + 1) = c.toNat + s.completedV
    omega
  · simp only [State.goto, Function.update_apply] at hu
    grind [Pc.inSection]

/-- The test that finds the count at zero. -/
theorem Inv.sleep {w : Bool} (h : Inv c s) (hpc : s.pc t = .pTest w) (hzero : s.semCount = 0) :
    Inv c (s.goto t .sleepEnqueue) := by
  have hother := fun u => h.alone (t := t) (by rw [hpc]; rfl) (u := u)
  obtain ⟨h1, h2, h3, h4, h5, h6, ⟨A, hA, h7⟩, h8, h9⟩ := h
  refine ⟨fun u => ?_, fun u => ?_, fun u hu => ?_, fun u hu => ?_, h5, fun u hu => hzero,
    ⟨A.erase t, flight_erase hA ?_ fun u hu => ?_, fun _ => ?_⟩, fun hn => h8 fun u hu => ?_,
    fun u hu => ?_⟩
  · simp only [State.goto, Function.update_apply]
    grind [Pc.inSection]
  · simp only [State.goto, Function.update_apply]
    grind [Pc.inSection]
  · have := h3 u hu
    simp only [State.goto, Function.update_apply]
    grind
  · simp only [State.goto, Function.update_apply] at hu ⊢
    grind
  · simp [InFlight, State.goto]
  · simp only [InFlight, State.goto, Function.update_apply]
    grind
  · change s.semCount.toNat ≤ _
    rw [hzero]
    exact Nat.zero_le _
  · have := hn u
    simp only [State.goto, Function.update_apply] at this
    grind
  · simp only [State.goto, Function.update_apply] at hu ⊢
    grind

/-- The enqueue of `thread_switch`, with the spinlock still held. -/
theorem Inv.enqueue (h : Inv c s) (hpc : s.pc t = .sleepEnqueue) :
    Inv c ({ s with semWchan := s.semWchan ++ [t] }.goto t .sleepUnlock) := by
  have hw : t ∉ s.semWchan := h.not_queued (by simp [hpc]) (by simp [hpc])
  have hother := fun u => h.alone (t := t) (by rw [hpc]; rfl) (u := u)
  obtain ⟨h1, h2, h3, h4, h5, h6, ⟨A, hA, h7⟩, h8, h9⟩ := h
  have hzero : s.semCount = 0 := h6 t (Or.inl hpc)
  refine ⟨fun u => ?_, fun u => ?_, fun u hu => ?_, fun u hu => ?_, ?_, fun u hu => hzero,
    ⟨A, flight_same (t := t) hA ?_ fun u hu => ?_, fun _ => ?_⟩, fun hn => h8 fun u hu => ?_,
    fun u hu => ?_⟩
  · simp only [State.goto, Function.update_apply]
    grind [Pc.inSection]
  · simp only [State.goto, Function.update_apply]
    grind [Pc.inSection]
  · simp only [State.goto, Function.update_apply] at hu ⊢
    grind
  · simp only [State.goto, Function.update_apply] at hu ⊢
    grind
  · exact List.nodup_append.mpr ⟨h5, List.nodup_singleton t, by grind⟩
  · simp [InFlight, State.goto, hpc]
  · simp only [InFlight, State.goto, Function.update_apply]
    grind
  · change s.semCount.toNat ≤ _
    rw [hzero]
    exact Nat.zero_le _
  · have := hn u
    simp only [State.goto, Function.update_apply] at this
    grind
  · simp only [State.goto, Function.update_apply] at hu ⊢
    grind

/-- The section of `V`: one more unit, and the first sleeper, if any, is in flight from here on. -/
theorem Inv.give (h : Inv c s) (hpc : s.pc t = .vCount) (hroom : 0 < s.semCount + 1) :
    Inv c ((wchanWakeone { s with
      semCount := s.semCount + 1, completedV := s.completedV + 1 }).goto t .vUnlock) := by
  have hother := fun u => h.alone (t := t) (by rw [hpc]; rfl) (u := u)
  have hadd : (s.semCount + 1).toNat = s.semCount.toNat + 1 := by
    have h1 := UInt32.toNat_add s.semCount 1
    have h2 := UInt32.lt_iff_toNat_lt.mp hroom
    have h3 := s.semCount.toNat_lt
    change (s.semCount + 1).toNat = (s.semCount.toNat + 1) % 4294967296 at h1
    change 0 < (s.semCount + 1).toNat at h2
    omega
  obtain ⟨h1, h2, h3, h4, h5, h6, ⟨A, hA, h7⟩, h8, h9⟩ := h
  have hflight : ∃ A' : Finset T, (∀ u, u ∈ A' ↔ InFlight ((wchanWakeone { s with
      semCount := s.semCount + 1, completedV := s.completedV + 1 }).goto t .vUnlock) u) ∧
      (s.semWchan.tail ≠ [] → s.semCount.toNat + 1 ≤ A'.card) := by
    cases hq : s.semWchan with
    | nil =>
      refine ⟨A, flight_same (t := t) hA ?_ fun u hu => ?_, fun hne => absurd rfl hne⟩
      · simp [InFlight, State.goto, hpc]
      · simp [InFlight, State.goto, wchanWakeone, hu, hq]
    | cons u rest =>
      -- `u` is past its unlock, since `t` owns the spinlock
      have hmem : u ∈ s.semWchan := by rw [hq]; exact List.mem_cons_self
      have hut : u ≠ t := by
        rintro rfl
        rcases h3 u hmem with hu | hu <;> simp [hpc] at hu
      have hu : s.pc u = .asleep := by
        rcases h3 u hmem with hu | hu
        · have := hother u hut
          simp [hu, Pc.inSection] at this
        · exact hu
      have hfresh : u ∉ A := by simp [hA, InFlight, hu, hmem]
      have hrest : u ∉ rest := by
        rw [hq] at h5
        exact (List.nodup_cons.mp h5).1
      refine ⟨insert u A, fun v => ?_, fun _ => ?_⟩
      · rw [Finset.mem_insert, hA]
        simp only [InFlight, State.goto, wchanWakeone, Function.update_apply, hq, List.tail_cons,
          List.mem_cons]
        by_cases hvu : v = u
        · subst hvu
          simp [hut, hu, hrest]
        · by_cases hvt : v = t
          · subst hvt
            simp [hvu, hpc]
          · simp [hvu, hvt]
      · rw [Finset.card_insert_of_notMem hfresh]
        exact Nat.succ_le_succ (h7 (by simp [hq]))
  obtain ⟨A', hA', hle⟩ := hflight
  refine ⟨fun u => ?_, fun u => ?_, fun u hu => ?_, fun u hu => ?_, ?_, fun u hu => ?_,
    ⟨A', hA', fun hne => ?_⟩, fun hn => ?_, fun u hu => ?_⟩
  · simp only [State.goto, wchanWakeone, Function.update_apply]
    grind [Pc.inSection]
  · simp only [State.goto, wchanWakeone, Function.update_apply]
    grind [Pc.inSection]
  · have := h3 u (List.mem_of_mem_tail hu)
    simp only [State.goto, wchanWakeone, Function.update_apply]
    grind
  · simp only [State.goto, wchanWakeone, Function.update_apply] at hu
    grind [Pc.inSection]
  · exact h5.tail
  · simp only [State.goto, wchanWakeone, Function.update_apply] at hu
    grind [Pc.inSection]
  · change (s.semCount + 1).toNat ≤ _
    rw [hadd]
    exact hle hne
  · have hcount := h8 fun v hv => by
      have := hn v
      simp only [State.goto, wchanWakeone, Function.update_apply] at this
      grind
    change (s.semCount + 1).toNat + s.completedP = c.toNat + (s.completedV + 1)
    omega
  · simp only [State.goto, wchanWakeone, Function.update_apply] at hu
    grind [Pc.inSection]

/-- A `V` on a semaphore that holds `2^32 - 1` units. -/
theorem Inv.overflow (h : Inv c s) (hpc : s.pc t = .vCount) (hfull : ¬0 < s.semCount + 1) :
    Inv c ({ s with semCount := s.semCount + 1 }.goto t .panicked) := by
  have hother := fun u => h.alone (t := t) (by rw [hpc]; rfl) (u := u)
  obtain ⟨h1, h2, h3, h4, h5, h6, ⟨A, hA, h7⟩, h8, h9⟩ := h
  have hzero : s.semCount + 1 = 0 := by
    by_contra hne
    exact hfull (UInt32.pos_iff_ne_zero.mpr hne)
  have hmax : s.semCount.toNat = 4294967295 := by
    have h1 := congrArg UInt32.toNat hzero
    have h3 := s.semCount.toNat_lt
    rw [UInt32.toNat_add] at h1
    change (s.semCount.toNat + 1) % 4294967296 = 0 at h1
    omega
  refine ⟨fun u => ?_, fun u => ?_, fun u hu => ?_, fun u hu => ?_, h5, fun u hu => hzero,
    ⟨A, flight_same (t := t) hA ?_ fun u hu => ?_, fun _ => ?_⟩, fun hn => ?_, fun u hu => ?_⟩
  · simp only [State.goto, Function.update_apply]
    grind [Pc.inSection]
  · simp only [State.goto, Function.update_apply]
    grind [Pc.inSection]
  · have := h3 u hu
    simp only [State.goto, Function.update_apply]
    grind
  · simp only [State.goto, Function.update_apply] at hu ⊢
    grind
  · simp [InFlight, State.goto, hpc]
  · simp only [InFlight, State.goto, Function.update_apply]
    grind
  · change (s.semCount + 1).toNat ≤ _
    rw [hzero]
    exact Nat.zero_le _
  · exact absurd (by simp [State.goto]) (hn t)
  · have hcount := h8 fun v hv => by
      by_cases hvt : v = t
      · rw [hvt, hpc] at hv
        cases hv
      · have := hother v hvt
        simp [hv, Pc.inSection] at this
    refine ⟨hzero, ?_⟩
    change c.toNat + s.completedV = s.completedP + 4294967295
    omega

/-! ### Assembling the step lemma -/

/-- What one thread does inside the semaphore code keeps the invariant. -/
theorem inv_runStep {s' : State T} (h : Inv c s) (hs : runStep s t = some s') : Inv c s' := by
  unfold runStep at hs
  split at hs
  case h_1 => simp at hs
  case h_2 hpc =>
    split at hs
    · obtain rfl := Option.some.inj hs
      exact h.spinlockAcquire ‹_› (by rw [hpc]; rfl) (h.not_queued (by simp [hpc]) (by simp [hpc]))
        (Or.inr ⟨Or.inl rfl, by simp [hpc]⟩)
    · simp at hs
  case h_3 w hpc =>
    obtain rfl := Option.some.inj hs
    have hspin : s.semLock = some t := (h.spin t).mpr (by rw [hpc]; rfl)
    have hcnt : s.cSpinlocks t = 1 := by rw [h.spinlocks t, hpc]; rfl
    unfold pTest
    by_cases hzero : s.semCount = 0
    · rw [if_pos hzero, if_pos ⟨by simp [spinlockDoIHold, hspin], hcnt⟩]
      exact h.sleep hpc hzero
    · rw [if_neg hzero]
      exact h.take hpc hzero
  case h_4 hpc =>
    obtain rfl := Option.some.inj hs
    exact h.enqueue hpc
  case h_5 hpc =>
    obtain rfl := Option.some.inj hs
    exact h.spinlockRelease (Or.inl ⟨rfl, hpc⟩)
  case h_6 hpc =>
    split at hs
    · rename_i hg
      obtain rfl := Option.some.inj hs
      exact h.spinlockAcquire hg.2 (by rw [hpc]; rfl) hg.1 (Or.inl ⟨rfl, hpc⟩)
    · simp at hs
  case h_7 hpc =>
    obtain rfl := Option.some.inj hs
    exact h.spinlockRelease (Or.inr ⟨rfl, Or.inl hpc⟩)
  case h_8 hpc =>
    split at hs
    · obtain rfl := Option.some.inj hs
      exact h.spinlockAcquire ‹_› (by rw [hpc]; rfl) (h.not_queued (by simp [hpc]) (by simp [hpc]))
        (Or.inr ⟨Or.inr rfl, by simp [hpc]⟩)
    · simp at hs
  case h_9 hpc =>
    obtain rfl := Option.some.inj hs
    have hspin : s.semLock = some t := (h.spin t).mpr (by rw [hpc]; rfl)
    unfold vCount
    by_cases hroom : 0 < s.semCount + 1
    · rw [if_pos hroom, if_pos (by simp [spinlockDoIHold, hspin])]
      exact h.give hpc hroom
    · rw [if_neg hroom]
      exact h.overflow hpc hroom
  case h_10 hpc =>
    obtain rfl := Option.some.inj hs
    exact h.spinlockRelease (Or.inr ⟨rfl, Or.inr hpc⟩)
  case h_11 => simp at hs

theorem inv_step {s' : State T} {a : Action T} (h : Inv c s) (hs : step s a = some s') :
    Inv c s' := by
  cases a with
  | callP t =>
    simp only [step, Option.ite_none_right_eq_some, Option.some.injEq] at hs
    obtain ⟨hpc, rfl⟩ := hs
    exact h.call hpc (Or.inl rfl)
  | callV t =>
    simp only [step, Option.ite_none_right_eq_some, Option.some.injEq] at hs
    obtain ⟨hpc, rfl⟩ := hs
    exact h.call hpc (Or.inr rfl)
  | run t => exact inv_runStep h hs

end Steps

theorem inv_of_reachable {c : UInt32} {s : State T} (h : (system T c).Reachable s) : Inv c s := by
  refine h.invariant (P := Inv c) ?_ fun s a s' hi hs => inv_step hi hs
  rintro s rfl
  exact inv_init c

/-! ### The protocol -/

/-- **The semaphore protocol.** For every initial count, in every reachable state of any number of
threads: unless a `KASSERT` has stopped the system, `sem_count` is the initial count plus the
completed `V`s minus the completed `P`s; no more `P`s have completed than that leaves room for; a
`KASSERT` fails only in a `V` that would bring the total past `2^32 - 1`; and while threads sleep on
the channel, the count is at most the number of threads in flight. -/
theorem semaphore_protocol {c : UInt32} {s : State T} (h : (system T c).Reachable s) :
    ((∀ t, s.pc t ≠ .panicked) →
      s.semCount.toNat + s.completedP = c.toNat + s.completedV) ∧
      s.completedP ≤ c.toNat + s.completedV ∧
      (∀ t, s.pc t = .panicked → c.toNat + s.completedV - s.completedP = 2 ^ 32 - 1) ∧
      (s.semWchan ≠ [] → Set.Finite {t | InFlight s t} ∧
        s.semCount.toNat ≤ Set.ncard {t | InFlight s t}) := by
  have hinv := inv_of_reachable h
  refine ⟨hinv.count, ?_, fun t ht => ?_, fun hne => ?_⟩
  · by_cases hn : ∀ t, s.pc t ≠ .panicked
    · have := hinv.count hn
      omega
    · push Not at hn
      obtain ⟨t, ht⟩ := hn
      have := (hinv.full t ht).2
      omega
  · have := (hinv.full t ht).2
    omega
  · obtain ⟨A, hA, hle⟩ := hinv.flight
    have hset : {t | InFlight s t} = (A : Set T) := by
      ext t
      exact (hA t).symm
    rw [hset, Set.ncard_coe_finset]
    exact ⟨A.finite_toSet, hle hne⟩

/-- Threads `0` and `1` go to sleep on an empty semaphore and thread `2` gives one unit: `1` is
still on the channel and `0` is on its way. -/
def overtaken : List (Action (Fin 4)) :=
  [.callP 0, .run 0, .run 0, .run 0, .run 0, .callP 1, .run 1, .run 1, .run 1, .run 1,
    .callV 2, .run 2, .run 2, .run 2]

theorem overtaken_runs : (overtaken.foldlM (system (Fin 4) 0).step (init 0)).isSome := by
  decide

theorem semaphore_protocol_overtaken : ∃ s : State (Fin 4), (system (Fin 4) 0).Reachable s ∧
    s.semWchan = [1] ∧ s.semCount = 1 ∧ s.semCount.toNat ≤ Set.ncard {t | InFlight s t} := by
  have hreach := TransitionSystem.reachable_of_run overtaken (.init rfl)
    (Option.some_get overtaken_runs).symm
  exact ⟨_, hreach, by decide, by decide,
    ((semaphore_protocol hreach).2.2.2 (by decide)).2⟩

end Semaphore

end Os161
