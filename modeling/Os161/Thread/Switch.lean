import Os161.Lib.Transition
import Mathlib.Data.Fintype.Basic
import Mathlib.Logic.Function.Basic

/-!
# Thread switching

The scheduler of `kern/thread/thread.c` on any number of CPUs: `thread_fork`, `thread_switch` with
its three ways of giving up the CPU, `exorcise`, `wchan_wakeone`, `wchan_wakeall` and
`thread_consider_migration`.

## Granularity

A step is one section of a run queue's lock or of a wait channel's lock, cut where the two overlap:
`thread_switch` takes its run queue's lock, puts the current thread on the wait channel and gives
back the channel's lock before it is done with the run queue (`Pc.switching`), and from there on
another CPU may take the thread off the channel again. Only a CPU itself holds its run queue's lock
from one step to the next, so the lock is held exactly at the places `Pc.locked` names. A channel's
lock is held while threads taken off it are made runnable.

`thread_switch`, `exorcise`, wakeups and migration run with interrupts off. A CPU that is at
`Pc.run` executes its current thread, an interrupt handler on top of it, or, if `isidle`, the idle
loop and handlers on top of that.

A failed `KASSERT`, and a `NULL` taken from an empty list, set `fault`.

## Main definitions

* `Thread.Pc`, `Thread.State`
* `Thread.State.threadMakeRunnable`, `Thread.State.next`, `Thread.State.migrate`
* `Thread.step`, `Thread.system`
-/

namespace Os161

namespace Thread

variable {n : ℕ} {T W : Type}

/-- `threadstate_t`. -/
inductive Threadstate where
  /-- `S_RUN` -/
  | run
  /-- `S_READY` -/
  | ready
  /-- `S_SLEEP` -/
  | sleep
  /-- `S_ZOMBIE` -/
  | zombie
  deriving DecidableEq

/-- What a CPU is doing. -/
inductive Pc (T W : Type) where
  /-- In a thread or an interrupt handler, or in the idle loop. -/
  | run
  /-- `thread_switch`, after the current thread has been put in its place. -/
  | switching (newstate : Threadstate)
  /-- After `switchframe_switch`, or at the head of `thread_startup`. -/
  | resumed
  /-- `exorcise`. -/
  | exorcise
  /-- `wchan_wakeone` and `wchan_wakeall`, with the threads still to be made runnable. -/
  | waking (wc : W) (list : List T)
  /-- `thread_consider_migration`, in the loop that counts. -/
  | count (i totalCount myCount : ℕ)
  /-- `thread_consider_migration`, at the loop that takes the victims. -/
  | take (toSend oneShare : ℕ)
  /-- `thread_consider_migration`, in the loop over the other CPUs. -/
  | send (i toSend oneShare : ℕ) (victims : List T)
  /-- `thread_consider_migration`, with what is left over. -/
  | putBack (victims : List T)

/-- Whether the CPU holds its own run queue's lock. -/
def Pc.locked : Pc T W → Bool
  | switching _ => true
  | resumed => true
  | _ => false

/-- The wait channel whose lock the CPU holds. -/
def Pc.lk : Pc T W → Option W
  | waking wc _ => some wc
  | _ => none

/-- Whether the current thread has been put in its place but the next one not yet picked. -/
def Pc.isSwitching : Pc T W → Bool
  | switching _ => true
  | _ => false

/-- The threads about to be moved to other CPUs. -/
def Pc.victims : Pc T W → List T
  | send _ _ _ victims => victims
  | putBack victims => victims
  | _ => []

/-- The private list of the CPU. -/
def Pc.list : Pc T W → List T
  | waking _ list => list
  | pc => pc.victims

@[simp] theorem Pc.list_run : (run : Pc T W).list = [] := rfl

@[simp] theorem Pc.list_switching (st : Threadstate) : (switching st : Pc T W).list = [] := rfl

@[simp] theorem Pc.list_resumed : (resumed : Pc T W).list = [] := rfl

@[simp] theorem Pc.list_waking (wc : W) (list : List T) : (waking wc list).list = list := rfl

@[simp] theorem Pc.list_take (toSend oneShare : ℕ) :
    (take toSend oneShare : Pc T W).list = [] := rfl

@[simp] theorem Pc.list_send (i toSend oneShare : ℕ) (victims : List T) :
    (send i toSend oneShare victims : Pc T W).list = victims := rfl

@[simp] theorem Pc.list_putBack (victims : List T) :
    (putBack victims : Pc T W).list = victims := rfl

@[simp] theorem Pc.isSwitching_run : (run : Pc T W).isSwitching = false := rfl

@[simp] theorem Pc.isSwitching_switching (st : Threadstate) :
    (switching st : Pc T W).isSwitching = true := rfl

@[simp] theorem Pc.isSwitching_resumed : (resumed : Pc T W).isSwitching = false := rfl

@[simp] theorem Pc.isSwitching_waking (wc : W) (list : List T) :
    (waking wc list).isSwitching = false := rfl

@[simp] theorem Pc.isSwitching_take (toSend oneShare : ℕ) :
    (take toSend oneShare : Pc T W).isSwitching = false := rfl

@[simp] theorem Pc.isSwitching_send (i toSend oneShare : ℕ) (victims : List T) :
    (send i toSend oneShare victims : Pc T W).isSwitching = false := rfl

@[simp] theorem Pc.isSwitching_putBack (victims : List T) :
    (putBack victims : Pc T W).isSwitching = false := rfl

/-- The life of a thread. -/
inductive Life where
  /-- Not yet created. -/
  | unborn
  /-- In `thread_fork`, not yet made runnable. -/
  | created
  /-- Handed to the scheduler. -/
  | live
  /-- `thread_destroy` has run. -/
  | dead
  deriving DecidableEq

structure State (n : ℕ) (T W : Type) where
  /-- `c_curthread`. -/
  curthread : Fin n → T
  /-- `c_isidle`. -/
  isidle : Fin n → Bool
  /-- `c_runqueue`. -/
  runqueue : Fin n → List T
  /-- `c_zombies`. -/
  zombies : Fin n → List T
  /-- `wc_threads`. -/
  wcThreads : W → List T
  /-- `t_cpu`. -/
  tCpu : T → Fin n
  /-- `t_state`. -/
  tState : T → Threadstate
  life : T → Life
  /-- How often `thread_destroy` has been called. -/
  destroyed : T → ℕ
  pc : Fin n → Pc T W
  fault : Bool

inductive Action (n : ℕ) (T W : Type) where
  /-- `thread_fork`, up to the place where the new thread has its CPU. -/
  | create (c : Fin n) (t : T)
  /-- `thread_fork` fails after that. -/
  | forkFail (t : T)
  /-- `thread_fork`, `thread_make_runnable`. -/
  | fork (t : T)
  /-- `thread_yield`. -/
  | yield (c : Fin n)
  /-- `wchan_sleep`. -/
  | sleep (c : Fin n) (wc : W)
  /-- `thread_exit`. -/
  | exit (c : Fin n)
  /-- `thread_switch`: the new state, and the first try at getting the next thread. -/
  | choose (c : Fin n)
  /-- `thread_switch`: another try, after idling. -/
  | unidle (c : Fin n)
  /-- The tail of `thread_switch`, or the head of `thread_startup`. -/
  | resume (c : Fin n)
  /-- A round of the loop of `exorcise`, or its end. -/
  | exorcise (c : Fin n)
  /-- `wchan_wakeone`. -/
  | wakeone (c : Fin n) (wc : W)
  /-- `wchan_wakeall`, the first loop. -/
  | wakeall (c : Fin n) (wc : W)
  /-- `wchan_wakeone` and `wchan_wakeall`: the next thread is made runnable, or the return. -/
  | makeRunnable (c : Fin n)
  /-- `thread_consider_migration`. -/
  | considerMigration (c : Fin n)
  /-- The next section of it. -/
  | migrate (c : Fin n)

section Steps

variable [DecidableEq T] [DecidableEq W]

def State.setPc (s : State n T W) (c : Fin n) (pc : Pc T W) : State n T W :=
  { s with pc := Function.update s.pc c pc }

def State.setState (s : State n T W) (t : T) (st : Threadstate) : State n T W :=
  { s with tState := Function.update s.tState t st }

def State.addRunqueue (s : State n T W) (c : Fin n) (ts : List T) : State n T W :=
  { s with runqueue := Function.update s.runqueue c (s.runqueue c ++ ts) }

/-- The run queue's lock of CPU `c` is free. -/
def State.unlocked (s : State n T W) (c : Fin n) : Bool := !(s.pc c).locked

/-- The lock of a wait channel is free. -/
def State.lkFree (s : State n T W) (wc : W) : Bool := ∀ c, (s.pc c).lk ≠ some wc

/-- `thread_make_runnable`. -/
def State.threadMakeRunnable (s : State n T W) (target : T) : State n T W :=
  (s.setState target .ready).addRunqueue (s.tCpu target) [target]

/-- `thread_destroy`, with the assertions of its caller `exorcise`. -/
def State.threadDestroy (s : State n T W) (t : T) (ok : Bool) : State n T W :=
  { s with
    life := Function.update s.life t .dead
    destroyed := Function.update s.destroyed t (s.destroyed t + 1)
    fault := s.fault || !ok }

/-- The loop of `thread_switch`: the head of the run queue, or the CPU idles. -/
def State.next (s : State n T W) (c : Fin n) : State n T W :=
  match s.runqueue c with
  | [] => { s.setPc c .run with isidle := Function.update s.isidle c true }
  | next :: rest =>
      { s.setPc c .resumed with
        runqueue := Function.update s.runqueue c rest
        isidle := Function.update s.isidle c false
        curthread := Function.update s.curthread c next }

/-- The loop of `thread_consider_migration` that takes threads from the tail of the run queue;
`none` if it runs out. -/
def takeVictims : ℕ → List T → List T → Option (List T × List T)
  | 0, queue, victims => some (queue, victims)
  | i + 1, queue, victims =>
      match queue.getLast? with
      | none => none
      | some t => takeVictims i queue.dropLast (t :: victims)

/-- A thread moves to the run queue of CPU `d`. -/
def State.migrateTo (s : State n T W) (d : Fin n) (t : T) : State n T W :=
  { s.addRunqueue d [t] with tCpu := Function.update s.tCpu t d }

/-- The inner loop of `thread_consider_migration` on CPU `c`, with the lock of CPU `d`, the `i`-th.
The current thread is not sent but shuffled to the end of the list. -/
def sendLoop (c d : Fin n) (i oneShare : ℕ) : ℕ → List T → State n T W → State n T W
  | 0, victims, s => s.setPc c (.send (i + 1) 0 oneShare victims)
  | toSend + 1, victims, s =>
      if (s.runqueue d).length < oneShare then
        match victims with
        | [] => { s with fault := true }
        | t :: victims =>
            if t = s.curthread c then sendLoop c d i oneShare toSend (victims ++ [t]) s
            else sendLoop c d i oneShare toSend victims (s.migrateTo d t)
      else s.setPc c (.send (i + 1) (toSend + 1) oneShare victims)

/-- The loop over the other CPUs stays among them. -/
theorem lt_of_both {n i toSend : ℕ} (h : i < n ∧ 0 < toSend) : i < n := h.1

/-- One section of `thread_consider_migration`. -/
def State.migrate (s : State n T W) (c : Fin n) : Option (State n T W) :=
  match s.pc c with
  | .count i totalCount myCount =>
      if hi : i < n then
        if s.unlocked ⟨i, hi⟩ then
          let count := (s.runqueue ⟨i, hi⟩).length
          some (s.setPc c (.count (i + 1) (totalCount + count)
            (if i = c then count else myCount)))
        else none
      else
        let oneShare := (totalCount + n - 1) / n
        if myCount < oneShare then some (s.setPc c .run)
        else some (s.setPc c (.take (myCount - oneShare) oneShare))
  | .take toSend oneShare =>
      match takeVictims toSend (s.runqueue c) [] with
      | none => some { s with fault := true }
      | some (queue, victims) =>
          some { s.setPc c (.send 0 toSend oneShare victims) with
            runqueue := Function.update s.runqueue c queue }
  | .send i toSend oneShare victims =>
      if hi : i < n ∧ 0 < toSend then
        if i = c then some (s.setPc c (.send (i + 1) toSend oneShare victims))
        else if s.unlocked ⟨i, lt_of_both hi⟩ then
          some (sendLoop c ⟨i, lt_of_both hi⟩ i oneShare toSend victims s)
        else none
      else some (s.setPc c (.putBack victims))
  | .putBack victims => some ((s.setPc c .run).addRunqueue c victims)
  | _ => none

/-- One step. -/
def step (s : State n T W) : Action n T W → Option (State n T W)
  | .create c t =>
      match s.pc c with
      | .run =>
          if s.isidle c = false ∧ s.life t = .unborn then
            some { s.setState t .ready with
              life := Function.update s.life t .created
              tCpu := Function.update s.tCpu t (s.tCpu (s.curthread c)) }
          else none
      | _ => none
  | .forkFail t => if s.life t = .created then some (s.threadDestroy t true) else none
  | .fork t =>
      if s.life t = .created ∧ s.unlocked (s.tCpu t) then
        some { s.threadMakeRunnable t with life := Function.update s.life t .live }
      else none
  | .yield c =>
      match s.pc c with
      | .run =>
          if s.isidle c ∨ s.runqueue c = [] then some s
          else some ((s.threadMakeRunnable (s.curthread c)).setPc c (.switching .ready))
      | _ => none
  | .sleep c wc =>
      match s.pc c with
      | .run =>
          if s.isidle c = false ∧ s.lkFree wc then
            some { s.setPc c (.switching .sleep) with
              wcThreads := Function.update s.wcThreads wc (s.wcThreads wc ++ [s.curthread c]) }
          else none
      | _ => none
  | .exit c =>
      match s.pc c with
      | .run =>
          if s.isidle c = false then
            some { s.setPc c (.switching .zombie) with
              zombies := Function.update s.zombies c (s.zombies c ++ [s.curthread c]) }
          else none
      | _ => none
  | .choose c =>
      match s.pc c with
      | .switching newstate => some ((s.setState (s.curthread c) newstate).next c)
      | _ => none
  | .unidle c =>
      match s.pc c with
      | .run => if s.isidle c then some (s.next c) else none
      | _ => none
  | .resume c =>
      match s.pc c with
      | .resumed => some ((s.setState (s.curthread c) .run).setPc c .exorcise)
      | _ => none
  | .exorcise c =>
      match s.pc c with
      | .exorcise =>
          match s.zombies c with
          | [] => some (s.setPc c .run)
          | z :: zombies =>
              some { s.threadDestroy z (z ≠ s.curthread c ∧ s.tState z = .zombie) with
                zombies := Function.update s.zombies c zombies }
      | _ => none
  | .wakeone c wc =>
      match s.pc c with
      | .run =>
          if s.lkFree wc then
            match s.wcThreads wc with
            | [] => some s
            | target :: rest =>
                some { s.setPc c (.waking wc [target]) with
                  wcThreads := Function.update s.wcThreads wc rest }
          else none
      | _ => none
  | .wakeall c wc =>
      match s.pc c with
      | .run =>
          if s.lkFree wc then
            some { s.setPc c (.waking wc (s.wcThreads wc)) with
              wcThreads := Function.update s.wcThreads wc [] }
          else none
      | _ => none
  | .makeRunnable c =>
      match s.pc c with
      | .waking wc (target :: list) =>
          if s.unlocked (s.tCpu target) then
            some ((s.threadMakeRunnable target).setPc c (.waking wc list))
          else none
      | .waking _ [] => some (s.setPc c .run)
      | _ => none
  | .considerMigration c =>
      match s.pc c with
      | .run => some (s.setPc c (.count 0 0 0))
      | _ => none
  | .migrate c => s.migrate c

/-- Every CPU starts in a thread of its own. -/
def system (n : ℕ) (T W : Type) [DecidableEq T] [DecidableEq W] :
    TransitionSystem (State n T W) (Action n T W) where
  init s := (∀ c, s.tCpu (s.curthread c) = c) ∧ (∀ c, s.isidle c = false) ∧
    (∀ c, s.runqueue c = []) ∧ (∀ c, s.zombies c = []) ∧ (∀ wc, s.wcThreads wc = []) ∧
    (∀ t, s.life t = if ∃ c, s.curthread c = t then .live else .unborn) ∧
    (∀ t, s.destroyed t = 0) ∧ (∀ c, s.pc c = .run) ∧ s.fault = false
  step := step

end Steps

end Thread

end Os161
