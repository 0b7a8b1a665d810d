import Os161.Lib.Transition
import Mathlib.Logic.Function.Basic

/-!
# The sleep lock of `kern/thread/synch.c`

`lock_acquire`, `lock_release` and `lock_do_i_hold`, together with the parts of `wchan_sleep`,
`thread_switch` and `wchan_wakeone` (`kern/thread/thread.c`) they run. Threads and locks are
arbitrary types, so any number of either is covered, and a thread may hold several locks while it
works on another.

## Granularity

A step is one spinlock-protected action of one thread: taking or giving back a spinlock, testing
`lk_thread`, putting the caller on the channel, `wchan_wakeone`. Two accesses of one spinlock
section are one step where nobody outside the section can see a state in between that differs
from both ends:

* the test of the `while` loop that finds the lock free, and `lk_thread = curthread`;
* `lk_thread = NULL` and the `wchan_wakeone` after it.

The accesses made *without* the spinlock — the `KASSERT` at the head of `lock_release` and
`lock_do_i_hold` — are steps, respectively reads, of their own, and may fall anywhere.

## What the callers promise

`held t l` is the caller's view: set when `lock_acquire` returns, cleared when `lock_release` is
called. `callAcquire` is enabled only on a lock the thread does not hold and `callRelease` only on
one it does; nothing else is assumed.
-/

namespace Os161

namespace Lock

variable {T L : Type*}

/-- Where a thread is in the lock code. -/
inductive Pc (L : Type*) where
  /-- Outside `lock_acquire` and `lock_release`. -/
  | out
  /-- `lock_acquire`, at `spinlock_acquire`. -/
  | acquireSpin (l : L)
  /-- `lock_acquire`, at the test of the `while` loop; `woken` once the thread has slept. -/
  | acquireTest (l : L) (woken : Bool)
  /-- `thread_switch(S_SLEEP)`, at `threadlist_addtail`. -/
  | sleepEnqueue (l : L)
  /-- `thread_switch(S_SLEEP)`, at the `spinlock_release` after the enqueue. -/
  | sleepUnlock (l : L)
  /-- Switched out, or taken off the channel and at the `spinlock_acquire` of `wchan_sleep`. -/
  | asleep (l : L)
  /-- `lock_acquire`, at the final `spinlock_release`. -/
  | acquireUnlock (l : L)
  /-- `lock_release`, at `KASSERT(lock->lk_thread == curthread)`. -/
  | releaseAssert (l : L)
  /-- `lock_release`, at `spinlock_acquire`. -/
  | releaseSpin (l : L)
  /-- `lock_release`, at `lk_thread = NULL; wchan_wakeone(..)`. -/
  | releaseWake (l : L)
  /-- `lock_release`, at `spinlock_release`. -/
  | releaseUnlock (l : L)
  /-- A `KASSERT` failed. -/
  | panicked
  deriving DecidableEq

/-- The locks of the system and the threads using them. -/
structure State (T L : Type*) where
  /-- `lk_thread`. -/
  lkThread : L → Option T
  /-- The thread whose CPU is `splk_holder` of `lk_spinlock`. -/
  lkSpinlock : L → Option T
  /-- `wc_threads` of `lk_wchan`, head first. -/
  lkWchan : L → List T
  /-- `c_spinlocks` of the CPU the thread runs on; a thread that holds a spinlock has interrupts
  off and stays on its CPU. -/
  cSpinlocks : T → ℕ
  /-- Where each thread is. -/
  pc : T → Pc L
  /-- Between the return of `lock_acquire` and the call of `lock_release`. -/
  held : T → L → Bool

/-- What can happen next. -/
inductive Action (T L : Type*) where
  /-- Thread `t` calls `lock_acquire(l)`. -/
  | callAcquire (t : T) (l : L)
  /-- Thread `t` calls `lock_release(l)`. -/
  | callRelease (t : T) (l : L)
  /-- Thread `t` takes its next step inside the lock code. -/
  | run (t : T)

/-- No thread holds or wants a lock: the state after the `lock_create`s. -/
def init : State T L where
  lkThread _ := none
  lkSpinlock _ := none
  lkWchan _ := []
  cSpinlocks _ := 0
  pc _ := .out
  held _ _ := false

variable [DecidableEq T] [DecidableEq L]

/-- Move thread `t` to `p`. -/
def State.goto (s : State T L) (t : T) (p : Pc L) : State T L :=
  { s with pc := Function.update s.pc t p }

/-- The end of `spinlock_acquire`: thread `t` owns the spinlock of `l`. -/
def State.spinlockAcquire (s : State T L) (t : T) (l : L) : State T L :=
  { s with
    lkSpinlock := Function.update s.lkSpinlock l (some t)
    cSpinlocks := Function.update s.cSpinlocks t (s.cSpinlocks t + 1) }

/-- `spinlock_release`. -/
def State.spinlockRelease (s : State T L) (t : T) (l : L) : State T L :=
  { s with
    lkSpinlock := Function.update s.lkSpinlock l none
    cSpinlocks := Function.update s.cSpinlocks t (s.cSpinlocks t - 1) }

/-- `spinlock_do_i_hold`. -/
def spinlockDoIHold (s : State T L) (t : T) (l : L) : Bool := s.lkSpinlock l = some t

/-- `lock_do_i_hold`, one unprotected read. -/
def lockDoIHold (s : State T L) (t : T) (l : L) : Bool := s.lkThread l = some t

/-- The test of the `while` loop in `lock_acquire`. When it finds the lock free the thread takes
it; otherwise it enters `wchan_sleep`, whose `KASSERT`s are checked here. -/
def lockAcquireTest (s : State T L) (t : T) (l : L) : State T L :=
  if s.lkThread l ≠ none then
    if spinlockDoIHold s t l ∧ s.cSpinlocks t = 1 then s.goto t (.sleepEnqueue l)
    else s.goto t .panicked
  else { s with lkThread := Function.update s.lkThread l (some t) }.goto t (.acquireUnlock l)

/-- `threadlist_addtail(&wc->wc_threads, cur)`. -/
def wchanEnqueue (s : State T L) (t : T) (l : L) : State T L :=
  { s with lkWchan := Function.update s.lkWchan l (s.lkWchan l ++ [t]) }

/-- `wchan_wakeone`: take the first thread off the channel. A thread that is off the channel is
runnable, so `thread_make_runnable` needs no further effect. -/
def wchanWakeone (s : State T L) (l : L) : State T L :=
  { s with lkWchan := Function.update s.lkWchan l (s.lkWchan l).tail }

/-- The body of `lock_release`, with the `KASSERT` of `wchan_wakeone`. -/
def lockReleaseWake (s : State T L) (t : T) (l : L) : State T L :=
  if spinlockDoIHold s t l then
    (wchanWakeone { s with lkThread := Function.update s.lkThread l none } l).goto t
      (.releaseUnlock l)
  else s.goto t .panicked

/-- The next step of thread `t` inside the lock code. It is not enabled while the spinlock it wants
is taken, and not while the thread is on a wait channel. -/
def runStep (s : State T L) (t : T) : Option (State T L) :=
  match s.pc t with
  | .out => none
  | .acquireSpin l =>
      if s.lkSpinlock l = none then some ((s.spinlockAcquire t l).goto t (.acquireTest l false))
      else none
  | .acquireTest l _ => some (lockAcquireTest s t l)
  | .sleepEnqueue l => some ((wchanEnqueue s t l).goto t (.sleepUnlock l))
  | .sleepUnlock l => some ((s.spinlockRelease t l).goto t (.asleep l))
  | .asleep l =>
      if t ∉ s.lkWchan l ∧ s.lkSpinlock l = none then
        some ((s.spinlockAcquire t l).goto t (.acquireTest l true))
      else none
  | .acquireUnlock l =>
      some ({ (s.spinlockRelease t l).goto t .out with
        held := Function.update s.held t (Function.update (s.held t) l true) })
  | .releaseAssert l =>
      if s.lkThread l = some t then some (s.goto t (.releaseSpin l)) else some (s.goto t .panicked)
  | .releaseSpin l =>
      if s.lkSpinlock l = none then some ((s.spinlockAcquire t l).goto t (.releaseWake l))
      else none
  | .releaseWake l => some (lockReleaseWake s t l)
  | .releaseUnlock l => some ((s.spinlockRelease t l).goto t .out)
  | .panicked => none

/-- One step of the system. -/
def step (s : State T L) : Action T L → Option (State T L)
  | .callAcquire t l =>
      if s.pc t = .out ∧ s.held t l = false then some (s.goto t (.acquireSpin l)) else none
  | .callRelease t l =>
      if s.pc t = .out ∧ s.held t l = true then
        some ({ s.goto t (.releaseAssert l) with
          held := Function.update s.held t (Function.update (s.held t) l false) })
      else none
  | .run t => runStep s t

/-- The lock code run by any number of threads on any number of locks. -/
def system (T L : Type*) [DecidableEq T] [DecidableEq L] :
    TransitionSystem (State T L) (Action T L) where
  init s := s = Lock.init
  step := step

end Lock

end Os161
