import Os161.Synch.LockInvariant
import Mathlib.Algebra.GroupWithZero.Nat

/-!
# The recursive `vfs_biglock` of `kern/vfs/vfslist.c`

`vfs_biglock_acquire`, `vfs_biglock_release` and `vfs_biglock_do_i_hold` on top of the sleep lock
of `kern/thread/synch.c`. The depth counter has no protection of its own: every access of it is a
step here, and so is the unlocked `lock_do_i_hold`, and steps of other threads may fall between
any two of them. `vfs_biglock_depth++` and `vfs_biglock_depth--` are a read and a write.

## What the callers promise

`acquires t` counts the calls of `vfs_biglock_acquire` thread `t` has not yet matched by a call of
`vfs_biglock_release`, and `callRelease` is enabled only while that count is positive. Nothing else
is assumed. The counter of the source is a 32-bit `unsigned`, so a thread that nests 2^32 acquires
brings it back to 0 (`nested_acquires_wrap`); `NoWrap` is the condition that no call does.

## Main results

* `inv_of_reachableWhile` — the invariant that ties the depth to the holder's place in the code
* `biglock_protocol` — the depth counts the holder's unmatched acquires, only the holder touches
  it, and no `KASSERT` fails
* `nested_acquires_wrap` — without the bound the depth is 0 while the lock is held
-/

namespace Os161

namespace Biglock

/-- Where a thread is in the big lock's code. -/
inductive Pc where
  /-- Outside `vfs_biglock_acquire` and `vfs_biglock_release`. -/
  | out
  /-- `vfs_biglock_acquire`, at `lock_do_i_hold`. -/
  | acquireTest
  /-- `vfs_biglock_acquire`, at the test of the depth. -/
  | acquireDepth
  /-- In the `lock_acquire` of `vfs_biglock_acquire`; `zero` in the branch that holds the lock and
  found the depth 0. -/
  | acquireLock (zero : Bool)
  /-- `vfs_biglock_depth++`, at the read. -/
  | incRead
  /-- `vfs_biglock_depth++`, at the write, `v` having been read. -/
  | incWrite (v : UInt32)
  /-- `vfs_biglock_release`, at `KASSERT(lock_do_i_hold(vfs_biglock))`. -/
  | releaseHold
  /-- `vfs_biglock_release`, at `KASSERT(vfs_biglock_depth > 0)`. -/
  | releaseDepth
  /-- `vfs_biglock_depth--`, at the read. -/
  | decRead
  /-- `vfs_biglock_depth--`, at the write, `v` having been read. -/
  | decWrite (v : UInt32)
  /-- `vfs_biglock_release`, at the test of the depth. -/
  | releaseTest
  /-- In the `lock_release` of `vfs_biglock_release`. -/
  | releaseLock
  /-- A `KASSERT` failed. -/
  | panicked
  deriving DecidableEq

/-- The next step of a thread here reads or writes `vfs_biglock_depth`. -/
def Pc.touchesDepth : Pc → Bool
  | .acquireDepth | .incRead | .incWrite _ | .releaseDepth | .decRead | .decWrite _
  | .releaseTest => true
  | _ => false

variable {T : Type*}

/-- The big lock and the threads using it. -/
structure State (T : Type*) where
  /-- `vfs_biglock`. -/
  lock : Lock.State T Unit
  /-- `vfs_biglock_depth`. -/
  depth : UInt32
  /-- Where each thread is. -/
  pc : T → Pc
  /-- Calls of `vfs_biglock_acquire` not yet matched by one of `vfs_biglock_release`. -/
  acquires : T → ℕ

/-- What can happen next. -/
inductive Action (T : Type*) where
  /-- Thread `t` calls `vfs_biglock_acquire`. -/
  | callAcquire (t : T)
  /-- Thread `t` calls `vfs_biglock_release`. -/
  | callRelease (t : T)
  /-- Thread `t` takes its next step inside. -/
  | run (t : T)

/-- The state after `vfs_bootstrap`. -/
def init : State T where
  lock := Lock.init
  depth := 0
  pc _ := .out
  acquires _ := 0

/-- `vfs_biglock_do_i_hold`. -/
def vfsBiglockDoIHold [DecidableEq T] (s : State T) (t : T) : Bool := Lock.lockDoIHold s.lock t ()

variable [DecidableEq T]

/-- Move thread `t` to `p`. -/
def State.goto (s : State T) (t : T) (p : Pc) : State T :=
  { s with pc := Function.update s.pc t p }

/-- Enter `lock_acquire(vfs_biglock)`. -/
def State.lockAcquire (s : State T) (t : T) (zero : Bool) : State T :=
  { s with lock := s.lock.goto t (.acquireSpin ()) }.goto t (.acquireLock zero)

/-- Enter `lock_release(vfs_biglock)`. -/
def State.lockRelease (s : State T) (t : T) : State T :=
  { s with
    lock := { s.lock.goto t (.releaseAssert ()) with
      held := Function.update s.lock.held t (Function.update (s.lock.held t) () false) } }.goto t
    .releaseLock

/-- One step of thread `t` inside the lock code; when that returns the thread goes on to `p`. -/
def State.lockRun (s : State T) (t : T) (p : Pc) : Option (State T) :=
  match Lock.runStep s.lock t with
  | none => none
  | some lk => some ({ s with lock := lk }.goto t (if lk.pc t = Lock.Pc.out then p else s.pc t))

/-- The next step of thread `t`. -/
def runStep (s : State T) (t : T) : Option (State T) :=
  match s.pc t with
  | .out => none
  | .acquireTest =>
      if !vfsBiglockDoIHold s t then some (s.lockAcquire t false)
      else some (s.goto t .acquireDepth)
  | .acquireDepth => if s.depth = 0 then some (s.lockAcquire t true) else some (s.goto t .incRead)
  | .acquireLock _ => s.lockRun t .incRead
  | .incRead => some (s.goto t (.incWrite s.depth))
  | .incWrite v => some ({ s with depth := v + 1 }.goto t .out)
  | .releaseHold =>
      if vfsBiglockDoIHold s t then some (s.goto t .releaseDepth) else some (s.goto t .panicked)
  | .releaseDepth =>
      if 0 < s.depth then some (s.goto t .decRead) else some (s.goto t .panicked)
  | .decRead => some (s.goto t (.decWrite s.depth))
  | .decWrite v => some ({ s with depth := v - 1 }.goto t .releaseTest)
  | .releaseTest => if s.depth = 0 then some (s.lockRelease t) else some (s.goto t .out)
  | .releaseLock => s.lockRun t .out
  | .panicked => none

/-- One step of the system. -/
def step (s : State T) : Action T → Option (State T)
  | .callAcquire t =>
      if s.pc t = .out then
        some ({ s with acquires := Function.update s.acquires t (s.acquires t + 1) }.goto t
          .acquireTest)
      else none
  | .callRelease t =>
      if s.pc t = .out ∧ 0 < s.acquires t then
        some ({ s with acquires := Function.update s.acquires t (s.acquires t - 1) }.goto t
          .releaseHold)
      else none
  | .run t => runStep s t

/-- The big lock used by any number of threads. -/
def system (T : Type*) [DecidableEq T] : TransitionSystem (State T) (Action T) where
  init s := s = Biglock.init
  step := step

/-- The call does not bring a thread to 2^32 unmatched acquires. -/
def NoWrap (s : State T) : Action T → Prop
  | .callAcquire t => s.acquires t + 1 < 2 ^ 32
  | _ => True

instance (s : State T) : (a : Action T) → Decidable (NoWrap s a)
  | .callAcquire t => inferInstanceAs (Decidable (s.acquires t + 1 < 2 ^ 32))
  | .callRelease _ => inferInstanceAs (Decidable True)
  | .run _ => inferInstanceAs (Decidable True)

/-! ### The invariant -/

/-- What a thread's place in the code says about the depth `d` and its own count `c` of unmatched
acquires. Only the holder's clauses speak of the depth. -/
def Pc.Fits (p : Pc) (held : Bool) (d c : ℕ) : Prop :=
  match p with
  | .out => if held then d = c ∧ 0 < c else c = 0
  | .acquireTest => if held then d + 1 = c ∧ 0 < d else c = 1
  | .acquireDepth => held = true ∧ d + 1 = c ∧ 0 < d
  | .acquireLock zero => held = false ∧ zero = false ∧ c = 1
  | .incRead => held = true ∧ d + 1 = c
  | .incWrite v => held = true ∧ v.toNat = d ∧ d + 1 = c
  | .releaseHold | .releaseDepth | .decRead => held = true ∧ d = c + 1
  | .decWrite v => held = true ∧ v.toNat = d ∧ d = c + 1
  | .releaseTest => held = true ∧ d = c
  | .releaseLock => held = false ∧ c = 0
  | .panicked => False

/-- Whoever reads or writes the depth next has the lock. -/
theorem Pc.held_of_touchesDepth {p : Pc} {held : Bool} {d c : ℕ} (hp : p.touchesDepth = true)
    (hfits : p.Fits held d c) : held = true := by
  cases p with
  | acquireDepth | incRead | incWrite | releaseDepth | decRead | decWrite | releaseTest =>
    exact hfits.1
  | out | acquireTest | acquireLock | releaseHold | releaseLock | panicked => cases hp

/-- Which part of the lock code a thread may be in. -/
def Pc.Inside (p : Pc) (q : Lock.Pc Unit) : Prop :=
  match p with
  | .acquireLock _ =>
      q = .acquireSpin () ∨ (∃ w, q = .acquireTest () w) ∨ q = .sleepEnqueue () ∨
        q = .sleepUnlock () ∨ q = .asleep () ∨ q = .acquireUnlock ()
  | .releaseLock =>
      q = .releaseAssert () ∨ q = .releaseSpin () ∨ q = .releaseWake () ∨ q = .releaseUnlock ()
  | _ => q = .out

/-- The invariant of the big lock. -/
structure Inv (s : State T) : Prop where
  /-- The lock underneath is sound. -/
  lock : Lock.Inv s.lock
  /-- A thread is in the lock code only where the big lock's code calls it. -/
  inside : ∀ t, (s.pc t).Inside (s.lock.pc t)
  /-- Each thread's place, the depth and its count fit together. -/
  fits : ∀ t, (s.pc t).Fits (s.lock.held t ()) s.depth.toNat (s.acquires t)
  /-- Between two holders the depth is 0. -/
  free : (∀ t, s.lock.held t () = false) → s.depth = 0
  /-- No thread has nested 2^32 acquires. -/
  bound : ∀ t, s.acquires t < 2 ^ 32

omit [DecidableEq T] in
theorem inv_init : Inv (init : State T) where
  lock := Lock.inv_init
  inside _ := rfl
  fits _ := rfl
  free _ := rfl
  bound _ := by show 0 < 2 ^ 32; decide

/-- Where the lock is not held the depth does not matter. -/
theorem Pc.Fits.depth {p : Pc} {d d' c : ℕ} (h : p.Fits false d c) : p.Fits false d' c := by
  cases p <;> simp_all [Pc.Fits]

omit [DecidableEq T] in
/-- At most one thread is between the return of `lock_acquire` and its call of `lock_release`. -/
theorem Inv.held_unique {s : State T} (h : Inv s) {t u : T} (ht : s.lock.held t () = true)
    (hu : s.lock.held u () = true) : t = u := by
  have hlt : s.lock.lkThread () = some t := (h.lock.owner () t).mpr (Or.inl ht)
  have hlu : s.lock.lkThread () = some u := (h.lock.owner () u).mpr (Or.inl hu)
  exact Option.some.inj (hlt.symm.trans hlu)

/-- Outside the lock code `lock_do_i_hold` says whether the thread holds the lock. -/
theorem Inv.doIHold {s : State T} (h : Inv s) {t : T} (hpc : s.lock.pc t = .out) :
    vfsBiglockDoIHold s t = s.lock.held t () := by
  have hown : (s.lock.pc t).owned? ≠ some () := by simp [hpc, Lock.Pc.owned?]
  have hiff := h.lock.owner () t
  rw [or_iff_left hown] at hiff
  rw [Bool.eq_iff_iff, vfsBiglockDoIHold, Lock.lockDoIHold, decide_eq_true_iff, hiff]

/-- What one thread may do to the state: its own place, its own count, the lock as far as it is the
thread's business, and the depth if it is the holder. -/
theorem Inv.update {s : State T} (h : Inv s) {t : T} {lk : Lock.State T Unit} {d : UInt32} {p : Pc}
    {c : ℕ} (hlk : Lock.Inv lk) (hpc : ∀ u, u ≠ t → lk.pc u = s.lock.pc u)
    (hheld : ∀ u, u ≠ t → lk.held u () = s.lock.held u ())
    (hd : d ≠ s.depth → s.lock.held t () = true) (hin : p.Inside (lk.pc t))
    (hfits : p.Fits (lk.held t ()) d.toNat c)
    (hgive : s.lock.held t () = true → lk.held t () = false → d = 0) (hc : c < 2 ^ 32) :
    Inv { lock := lk, depth := d, pc := Function.update s.pc t p,
          acquires := Function.update s.acquires t c } where
  lock := hlk
  inside u := by
    rcases eq_or_ne u t with rfl | hu
    · simpa using hin
    · simpa [hu, hpc u hu] using h.inside u
  fits u := by
    rcases eq_or_ne u t with rfl | hu
    · simpa using hfits
    · have hfu := h.fits u
      simp only [Function.update_of_ne hu, hheld u hu]
      cases hh : s.lock.held u () with
      | false =>
        rw [hh] at hfu
        exact hfu.depth
      | true =>
        -- two holders would be one, so the depth is as it was
        have hds : d = s.depth := by
          by_contra hne
          exact hu (h.held_unique hh (hd hne))
        rw [hds]
        rwa [hh] at hfu
  free hnone := by
    cases hh : s.lock.held t () with
    | true => exact hgive hh (hnone t)
    | false =>
      have hds : d = s.depth := by
        by_contra hne
        rw [hd hne] at hh
        cases hh
      refine hds.trans (h.free fun u => ?_)
      rcases eq_or_ne u t with rfl | hu
      · exact hh
      · exact (hheld u hu).symm.trans (hnone u)
  bound u := by
    rcases eq_or_ne u t with rfl | hu
    · simpa using hc
    · simpa [hu] using h.bound u

/-! ### The lock code, seen from outside -/

/-- A step of the lock code moves the thread that takes it and nobody else. -/
theorem lock_runStep_frame {s s' : Lock.State T Unit} {t u : T} (hs : Lock.runStep s t = some s')
    (hu : u ≠ t) : s'.pc u = s.pc u ∧ s'.held u = s.held u := by
  unfold Lock.runStep at hs
  split at hs <;> try split at hs
  all_goals cases hs
  all_goals try unfold Lock.lockAcquireTest
  all_goals try unfold Lock.lockReleaseWake
  all_goals repeat' split
  all_goals simp [Lock.State.goto, Lock.State.spinlockAcquire, Lock.State.spinlockRelease,
    Lock.wchanEnqueue, Lock.wchanWakeone, hu]

/-- A step inside `lock_acquire` stays there or returns with the lock held. -/
theorem lock_runStep_acquire {s s' : Lock.State T Unit} {t : T} {zero : Bool}
    (hin : (Pc.acquireLock zero).Inside (s.pc t)) (hs : Lock.runStep s t = some s')
    (hi : Lock.Inv s') :
    ((Pc.acquireLock zero).Inside (s'.pc t) ∧ s'.held t () = s.held t ()) ∨
      (s'.pc t = .out ∧ s'.held t () = true ∧ s.pc t = .acquireUnlock ()) := by
  have hp := hi.noPanic t
  rcases hin with hq | ⟨w, hq⟩ | hq | hq | hq | hq <;> simp only [Lock.runStep, hq] at hs
  case inr.inl =>
    obtain rfl := Option.some.inj hs
    unfold Lock.lockAcquireTest at hp ⊢
    split at hp
    · split at hp
      · simp [Lock.State.goto, Pc.Inside, *]
      · simp [Lock.State.goto] at hp
    · simp [Lock.State.goto, Pc.Inside, *]
  all_goals
    try split at hs
    all_goals cases hs
  all_goals simp [Lock.State.goto, Lock.State.spinlockAcquire, Lock.State.spinlockRelease,
    Lock.wchanEnqueue, Pc.Inside, hq]

/-- A step inside `lock_release` stays there or returns. -/
theorem lock_runStep_release {s s' : Lock.State T Unit} {t : T}
    (hin : Pc.releaseLock.Inside (s.pc t)) (hs : Lock.runStep s t = some s') (hi : Lock.Inv s') :
    (Pc.releaseLock.Inside (s'.pc t) ∨ s'.pc t = .out) ∧ s'.held t () = s.held t () := by
  have hp := hi.noPanic t
  rcases hin with hq | hq | hq | hq <;> simp only [Lock.runStep, hq] at hs
  case inr.inr.inl =>
    obtain rfl := Option.some.inj hs
    unfold Lock.lockReleaseWake at hp ⊢
    split at hp
    · simp [Lock.State.goto, Lock.wchanWakeone, Pc.Inside, *]
    · simp [Lock.State.goto] at hp
  all_goals
    try split at hs
    all_goals cases hs
  all_goals simp_all [Lock.State.goto, Lock.State.spinlockAcquire, Lock.State.spinlockRelease,
    Pc.Inside]

/-! ### What each step preserves -/

section Steps

variable {s s' : State T} {t : T}

/-- A thread that only moves. -/
theorem Inv.goto (h : Inv s) {p : Pc} (hin : p.Inside (s.lock.pc t))
    (hfits : p.Fits (s.lock.held t ()) s.depth.toNat (s.acquires t)) : Inv (s.goto t p) := by
  have hup := h.update (t := t) (d := s.depth) h.lock (fun _ _ => rfl) (fun _ _ => rfl)
    (fun hne => absurd rfl hne) hin hfits (fun h1 h2 => by rw [h1] at h2; cases h2) (h.bound t)
  rwa [Function.update_eq_self] at hup

/-- The holder writes the depth. -/
theorem Inv.write (h : Inv s) {p : Pc} {d : UInt32} (hheld : s.lock.held t () = true)
    (hin : p.Inside (s.lock.pc t)) (hfits : p.Fits true d.toNat (s.acquires t)) :
    Inv ({ s with depth := d }.goto t p) := by
  have hup := h.update (t := t) (d := d) h.lock (fun _ _ => rfl) (fun _ _ => rfl)
    (fun _ => hheld) hin (by rwa [hheld]) (fun h1 h2 => by rw [h1] at h2; cases h2) (h.bound t)
  rwa [Function.update_eq_self] at hup

/-- `lock_acquire`, called by a thread that does not hold the lock. -/
theorem Inv.lockAcquire (h : Inv s) (hpc : s.lock.pc t = .out)
    (hheld : s.lock.held t () = false) (hc : s.acquires t = 1) : Inv (s.lockAcquire t false) := by
  have hlk : Lock.Inv (s.lock.goto t (.acquireSpin ())) :=
    Lock.inv_step (a := .callAcquire t ()) h.lock (by simp [Lock.step, hpc, hheld])
  have hup := h.update (t := t) (d := s.depth) (p := .acquireLock false) (c := 1) hlk
    (fun u hu => by simp [Lock.State.goto, hu]) (fun _ _ => rfl) (fun hne => absurd rfl hne)
    (by simp [Pc.Inside, Lock.State.goto]) ⟨hheld, rfl, rfl⟩
    (fun h1 _ => by rw [hheld] at h1; cases h1) (by decide)
  rwa [← hc, Function.update_eq_self] at hup

/-- `lock_release`, called by the holder at depth 0. -/
theorem Inv.lockRelease (h : Inv s) (hpc : s.lock.pc t = .out) (hheld : s.lock.held t () = true)
    (hd : s.depth = 0) (hc : s.acquires t = 0) : Inv (s.lockRelease t) := by
  have hlk := h.lock.releasing hpc hheld
  have hup := h.update (t := t) (d := s.depth) (p := .releaseLock) (c := 0) hlk
    (fun u hu => by simp [Lock.State.goto, hu]) (fun u hu => by simp [Function.update_of_ne hu])
    (fun hne => absurd rfl hne) (by simp [Pc.Inside, Lock.State.goto])
    (by simp [Pc.Fits]) (fun _ _ => hd) (by decide)
  rwa [← hc, Function.update_eq_self] at hup

/-- A step inside the `lock_acquire` of `vfs_biglock_acquire`. -/
theorem Inv.lockRun_acquire (h : Inv s) {zero : Bool} (hpc : s.pc t = .acquireLock zero)
    (hs : s.lockRun t .incRead = some s') : Inv s' := by
  have hin := h.inside t
  have hfits := h.fits t
  rw [hpc] at hin hfits
  obtain ⟨hheld, rfl, hc⟩ := hfits
  unfold State.lockRun at hs
  split at hs
  · cases hs
  · rename_i lk hlk
    obtain rfl := Option.some.inj hs
    have hlkInv : Lock.Inv lk := Lock.inv_runStep h.lock hlk
    rcases lock_runStep_acquire hin hlk hlkInv with ⟨hin', hh⟩ | ⟨hout, hh, hunl⟩
    · have hne : lk.pc t ≠ Lock.Pc.out := by
        intro heq
        rw [heq] at hin'
        simp [Pc.Inside] at hin'
      rw [if_neg hne, hpc]
      have hup := h.update (t := t) (d := s.depth) (p := .acquireLock false) (c := s.acquires t)
        hlkInv (fun u hu => (lock_runStep_frame hlk hu).1)
        (fun u hu => congrFun (lock_runStep_frame hlk hu).2 ()) (fun hne => absurd rfl hne) hin'
        ⟨hh.trans hheld, rfl, hc⟩ (fun h1 _ => by rw [hheld] at h1; cases h1) (h.bound t)
      rwa [Function.update_eq_self] at hup
    · rw [if_pos hout]
      -- whoever is about to leave `lock_acquire` owns the lock, so nobody holds it and the depth
      -- is 0
      have hown : s.lock.lkThread () = some t :=
        (h.lock.owner () t).mpr (Or.inr (by rw [hunl]; rfl))
      have hzero : s.depth = 0 := by
        refine h.free fun u => ?_
        cases hu : s.lock.held u () with
        | false => rfl
        | true =>
          have howner := (h.lock.owner () u).mpr (Or.inl hu)
          obtain rfl := Option.some.inj (hown.symm.trans howner)
          exact hu.symm.trans hheld
      have hup := h.update (t := t) (d := s.depth) (p := .incRead) (c := s.acquires t) hlkInv
        (fun u hu => (lock_runStep_frame hlk hu).1)
        (fun u hu => congrFun (lock_runStep_frame hlk hu).2 ()) (fun hne => absurd rfl hne) hout
        ⟨hh, by rw [hzero, hc]; rfl⟩ (fun _ _ => hzero) (h.bound t)
      rwa [Function.update_eq_self] at hup

/-- A step inside the `lock_release` of `vfs_biglock_release`. -/
theorem Inv.lockRun_release (h : Inv s) (hpc : s.pc t = .releaseLock)
    (hs : s.lockRun t .out = some s') : Inv s' := by
  have hin := h.inside t
  have hfits := h.fits t
  rw [hpc] at hin hfits
  obtain ⟨hheld, hc⟩ := hfits
  unfold State.lockRun at hs
  split at hs
  · cases hs
  · rename_i lk hlk
    obtain rfl := Option.some.inj hs
    have hlkInv : Lock.Inv lk := Lock.inv_runStep h.lock hlk
    obtain ⟨hin', hh⟩ := lock_runStep_release hin hlk hlkInv
    have hkeep : ∀ p : Pc, p.Inside (lk.pc t) →
        p.Fits (lk.held t ()) s.depth.toNat (s.acquires t) →
        Inv ({ s with lock := lk }.goto t p) := by
      intro p hp hf
      have hup := h.update (t := t) (d := s.depth) hlkInv
        (fun u hu => (lock_runStep_frame hlk hu).1)
        (fun u hu => congrFun (lock_runStep_frame hlk hu).2 ()) (fun hne => absurd rfl hne) hp hf
        (fun h1 _ => by rw [hheld] at h1; cases h1) (h.bound t)
      rwa [Function.update_eq_self] at hup
    split
    · rename_i hout
      exact hkeep .out hout (by rw [hh, hheld]; exact hc)
    · rename_i hne
      rw [hpc]
      refine hkeep .releaseLock (hin'.resolve_right hne) ?_
      exact ⟨hh.trans hheld, hc⟩

/-- What one thread does inside the big lock's code keeps the invariant. -/
theorem inv_runStep (h : Inv s) (hs : runStep s t = some s') : Inv s' := by
  have hin := h.inside t
  have hfits := h.fits t
  have hbound := h.bound t
  unfold runStep at hs
  split at hs
  case h_1 => cases hs
  case h_2 hpc =>
    rw [hpc] at hin hfits
    rw [h.doIHold hin] at hs
    cases hheld : s.lock.held t () with
    | false =>
      rw [hheld] at hs hfits
      obtain rfl := Option.some.inj hs
      exact h.lockAcquire hin hheld hfits
    | true =>
      rw [hheld] at hs hfits
      obtain rfl := Option.some.inj hs
      exact h.goto hin ⟨hheld, hfits⟩
  case h_3 hpc =>
    rw [hpc] at hin hfits
    obtain ⟨hheld, hc, hpos⟩ := hfits
    have hne : s.depth ≠ 0 := by
      rintro h0
      rw [h0] at hpos
      exact absurd hpos (by decide)
    rw [if_neg hne] at hs
    obtain rfl := Option.some.inj hs
    exact h.goto hin ⟨hheld, hc⟩
  case h_4 zero hpc => exact h.lockRun_acquire hpc hs
  case h_5 hpc =>
    rw [hpc] at hin hfits
    obtain rfl := Option.some.inj hs
    exact h.goto hin ⟨hfits.1, rfl, hfits.2⟩
  case h_6 v hpc =>
    rw [hpc] at hin hfits
    obtain ⟨hheld, hv, hc⟩ := hfits
    obtain rfl := Option.some.inj hs
    have hadd : (v + 1).toNat = s.acquires t := by
      rw [UInt32.toNat_add, UInt32.toNat_one]
      omega
    refine h.write hheld hin ⟨hadd, ?_⟩
    omega
  case h_7 hpc =>
    rw [hpc] at hin hfits
    rw [if_pos ((h.doIHold hin).trans hfits.1)] at hs
    obtain rfl := Option.some.inj hs
    exact h.goto hin hfits
  case h_8 hpc =>
    rw [hpc] at hin hfits
    have hpos : 0 < s.depth := by
      rw [UInt32.lt_iff_toNat_lt]
      show 0 < s.depth.toNat
      have hd := hfits.2
      omega
    rw [if_pos hpos] at hs
    obtain rfl := Option.some.inj hs
    exact h.goto hin hfits
  case h_9 hpc =>
    rw [hpc] at hin hfits
    obtain rfl := Option.some.inj hs
    exact h.goto hin ⟨hfits.1, rfl, hfits.2⟩
  case h_10 v hpc =>
    rw [hpc] at hin hfits
    obtain ⟨hheld, hv, hc⟩ := hfits
    obtain rfl := Option.some.inj hs
    have hsub : (v - 1).toNat = s.acquires t := by
      rw [UInt32.toNat_sub_of_le _ _ (by rw [UInt32.le_iff_toNat_le]; show 1 ≤ v.toNat; omega)]
      show v.toNat - 1 = s.acquires t
      omega
    exact h.write hheld hin ⟨rfl, hsub⟩
  case h_11 hpc =>
    rw [hpc] at hin hfits
    obtain ⟨hheld, hc⟩ := hfits
    split at hs
    · rename_i h0
      obtain rfl := Option.some.inj hs
      refine h.lockRelease hin hheld h0 ?_
      rw [← hc, h0]
      rfl
    · rename_i hne
      obtain rfl := Option.some.inj hs
      refine h.goto hin ?_
      rw [hheld]
      refine ⟨hc, hc ▸ Nat.pos_of_ne_zero fun h0 => hne (UInt32.toNat_inj.mp h0)⟩
  case h_12 hpc => exact h.lockRun_release hpc hs
  case h_13 => cases hs

theorem inv_step {a : Action T} (h : Inv s) (hw : NoWrap s a) (hs : step s a = some s') :
    Inv s' := by
  cases a with
  | callAcquire t =>
    simp only [step, Option.ite_none_right_eq_some, Option.some.injEq] at hs
    obtain ⟨hpc, rfl⟩ := hs
    have hin := h.inside t
    have hfits := h.fits t
    rw [hpc] at hin hfits
    refine h.update (d := s.depth) h.lock (fun _ _ => rfl) (fun _ _ => rfl)
      (fun hne => absurd rfl hne) hin ?_ (fun h1 h2 => by rw [h1] at h2; cases h2) hw
    cases hheld : s.lock.held t () with
    | false =>
      rw [hheld] at hfits
      exact congrArg (· + 1) hfits
    | true =>
      rw [hheld] at hfits
      obtain ⟨hd, hpos⟩ := hfits
      exact ⟨congrArg (· + 1) hd, hd ▸ hpos⟩
  | callRelease t =>
    simp only [step, Option.ite_none_right_eq_some, Option.some.injEq] at hs
    obtain ⟨⟨hpc, hpos⟩, rfl⟩ := hs
    have hin := h.inside t
    have hfits := h.fits t
    have hbound := h.bound t
    rw [hpc] at hin hfits
    refine h.update (d := s.depth) h.lock (fun _ _ => rfl) (fun _ _ => rfl)
      (fun hne => absurd rfl hne) hin ?_ (fun h1 h2 => by rw [h1] at h2; cases h2) (by omega)
    -- a thread with an unmatched acquire is the holder
    cases hheld : s.lock.held t () with
    | false =>
      rw [hheld] at hfits
      exact absurd hfits (Nat.ne_of_gt hpos)
    | true =>
      rw [hheld] at hfits
      refine ⟨rfl, ?_⟩
      rw [hfits.1]
      omega
  | run t => exact inv_runStep h hs

end Steps

theorem inv_of_reachableWhile {s : State T} (h : (system T).ReachableWhile NoWrap s) : Inv s := by
  refine h.invariant (P := Inv) ?_ fun s a s' hi hw hs => inv_step hi hw hs
  rintro s rfl
  exact inv_init

/-! ### The protocol -/

/-- **The recursive big lock.** In every state reached by any number of threads none of which nests
2^32 acquires: while the owner, if there is one, is outside the big lock's code, the depth is
positive exactly if there is one and then is its number of unmatched acquires; whoever reads or
writes the depth next is the owner; at most one thread holds the lock; the branch for a lock that
is held at depth 0 is never taken, and no `KASSERT` fails. -/
theorem biglock_protocol {s : State T} (h : (system T).ReachableWhile NoWrap s) :
    ((∀ t, s.lock.lkThread () = some t → s.pc t = .out) →
        (0 < s.depth ↔ ∃ t, s.lock.lkThread () = some t) ∧
          ∀ t, s.lock.lkThread () = some t → s.depth.toNat = s.acquires t) ∧
      (∀ t, (s.pc t).touchesDepth = true → s.lock.lkThread () = some t) ∧
      (∀ t u, s.lock.held t () = true → s.lock.held u () = true → t = u) ∧
      (∀ t, s.pc t = .acquireDepth → s.depth ≠ 0) ∧ (∀ t, s.pc t ≠ .acquireLock true) ∧
      ∀ t, s.pc t ≠ .panicked ∧ s.lock.pc t ≠ .panicked := by
  have hi := inv_of_reachableWhile h
  refine ⟨fun hout => ?_, fun t ht => ?_, fun t u => hi.held_unique, fun t ht => ?_, fun t ht => ?_,
    fun t => ⟨fun ht => ?_, hi.lock.noPanic t⟩⟩
  · have howner : ∀ t, s.lock.lkThread () = some t →
        s.depth.toNat = s.acquires t ∧ 0 < s.acquires t := by
      intro t ht
      have hin := hi.inside t
      have hfits := hi.fits t
      rw [hout t ht] at hin hfits
      have hheld : s.lock.held t () = true := by
        rw [← hi.doIHold hin]
        exact decide_eq_true ht
      rwa [hheld] at hfits
    refine ⟨⟨fun hpos => ?_, fun ⟨t, ht⟩ => ?_⟩, fun t ht => (howner t ht).1⟩
    · by_contra hnone
      have hz : s.depth = 0 := by
        refine hi.free fun t => Bool.eq_false_iff.mpr fun hheld => hnone ⟨t, ?_⟩
        exact (hi.lock.owner () t).mpr (Or.inl hheld)
      rw [hz] at hpos
      exact absurd hpos (by decide)
    · obtain ⟨hd, hpos⟩ := howner t ht
      rw [UInt32.lt_iff_toNat_lt]
      exact hd ▸ hpos
  · refine (hi.lock.owner () t).mpr (Or.inl ?_)
    exact Pc.held_of_touchesDepth ht (hi.fits t)
  · have hfits := hi.fits t
    rw [ht] at hfits
    rintro h0
    rw [h0] at hfits
    exact absurd hfits.2.2 (by decide)
  · have hfits := hi.fits t
    rw [ht] at hfits
    exact Bool.noConfusion hfits.2.1
  · have hfits := hi.fits t
    rw [ht] at hfits
    exact hfits

/-- Thread `0` takes the big lock twice and gives it back once, while thread `1` waits for it. -/
def nested : List (Action (Fin 2)) :=
  [.callAcquire 0, .run 0, .run 0, .run 0, .run 0, .run 0, .run 0,
    .callAcquire 1, .run 1, .run 1, .run 1, .run 1,
    .callAcquire 0, .run 0, .run 0, .run 0, .run 0,
    .callRelease 0, .run 0, .run 0, .run 0, .run 0, .run 0]

theorem nested_runs : (nested.foldlM
    (fun s a => if decide (NoWrap s a) then (system (Fin 2)).step s a else none)
    Biglock.init).isSome := by
  decide

theorem biglock_protocol_nested : ∃ s : State (Fin 2), (system (Fin 2)).ReachableWhile NoWrap s ∧
    s.pc 0 = .out ∧ s.lock.lkThread () = some 0 ∧ s.depth.toNat = s.acquires 0 ∧
      s.acquires 0 = 1 ∧ s.pc 1 = .acquireLock false := by
  have hreach := TransitionSystem.reachableWhile_of_run (fun _ _ => of_decide_eq_true) nested
    (.init rfl)
    (Option.some_get nested_runs).symm
  have howner := ((biglock_protocol hreach).1 (by decide)).2 0 (by decide)
  exact ⟨_, hreach, by decide, by decide, howner, by decide, by decide⟩

/-! ### Without the bound -/

/-- From a state in which `t` is outside and owns the lock at a positive depth, one more acquire
adds 1 to the depth, modulo 2^32. -/
theorem reachable_acquire {s : State T} {t : T} (h : (system T).Reachable s) (hpc : s.pc t = .out)
    (hown : s.lock.lkThread () = some t) (hd : s.depth ≠ 0) :
    ∃ s', (system T).Reachable s' ∧ s'.pc t = .out ∧ s'.lock.lkThread () = some t ∧
      s'.depth = s.depth + 1 ∧ s'.acquires t = s.acquires t + 1 := by
  let s₁ : State T :=
    { s with acquires := Function.update s.acquires t (s.acquires t + 1) }.goto t .acquireTest
  have h₁ : (system T).Reachable s₁ := h.step (.callAcquire t) (by simp [system, step, hpc, s₁])
  have h₂ : (system T).Reachable (s₁.goto t .acquireDepth) :=
    h₁.step (.run t) (by
      simp [system, step, runStep, s₁, State.goto, vfsBiglockDoIHold, Lock.lockDoIHold, hown])
  have h₃ : (system T).Reachable (s₁.goto t .incRead) :=
    h₂.step (.run t) (by simp [system, step, runStep, s₁, State.goto, hd])
  have h₄ : (system T).Reachable (s₁.goto t (.incWrite s.depth)) :=
    h₃.step (.run t) (by simp [system, step, runStep, s₁, State.goto])
  have h₅ : (system T).Reachable ({ s₁ with depth := s.depth + 1 }.goto t .out) :=
    h₄.step (.run t) (by simp [system, step, runStep, s₁, State.goto])
  exact ⟨_, h₅, by simp [State.goto], hown, rfl, by simp [s₁, State.goto]⟩

/-- The first acquire. -/
def first : List (Action Unit) :=
  [.callAcquire (), .run (), .run (), .run (), .run (), .run (), .run ()]

theorem first_runs : (first.foldlM (system Unit).step Biglock.init).isSome := by
  decide

/-- `n + 1` nested acquires leave the depth at `n + 1`, modulo 2^32. -/
theorem reachable_nested (n : ℕ) (hn : n < 2 ^ 32) :
    ∃ s : State Unit, (system Unit).Reachable s ∧ s.pc () = .out ∧
      s.lock.lkThread () = some () ∧ s.depth = UInt32.ofNat (n + 1) ∧ s.acquires () = n + 1 := by
  induction n with
  | zero =>
    have hreach := TransitionSystem.reachable_of_run first (.init rfl)
      (Option.some_get first_runs).symm
    exact ⟨_, hreach, by decide, by decide, by decide, by decide⟩
  | succ n ih =>
    obtain ⟨s, hs, hpc, hown, hd, hc⟩ := ih (by omega)
    have hne : s.depth ≠ 0 := by
      intro h0
      have hval : (UInt32.ofNat (n + 1)).toNat = 0 := by rw [← hd, h0]; rfl
      rw [UInt32.toNat_ofNat', Nat.mod_eq_of_lt hn] at hval
      omega
    obtain ⟨s', hs', hpc', hown', hd', hc'⟩ := reachable_acquire hs hpc hown hne
    refine ⟨s', hs', hpc', hown', ?_, by rw [hc', hc]⟩
    rw [hd', hd, UInt32.ofNat_add (n + 1) 1]
    rfl

/-- After 2^32 nested acquires the lock is held by a thread outside the code and the depth is 0. -/
theorem nested_acquires_wrap :
    ∃ s : State Unit, (system Unit).Reachable s ∧ s.pc () = .out ∧
      s.lock.lkThread () = some () ∧ s.acquires () = 2 ^ 32 ∧ ¬ 0 < s.depth := by
  obtain ⟨s, hs, hpc, hown, hd, hc⟩ := reachable_nested (2 ^ 32 - 1) (by decide)
  refine ⟨s, hs, hpc, hown, hc, ?_⟩
  rw [hd]
  decide

end Biglock

end Os161
