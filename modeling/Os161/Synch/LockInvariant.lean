import Os161.Synch.Lock
import Mathlib.Tactic.DefEqTransformations

/-!
# What every interleaving of the sleep lock preserves

The invariant ties the two fields of a lock, its spinlock and its channel to the program counters
of the threads. The part that carries the no-lost-wake-up argument is `wakeup`: a free lock with a
non-empty channel has a thread *in flight*, one that was taken off the channel and has not tested
`lk_thread` again. A thread in flight leaves that state only through the test, and the test makes
the lock non-free or puts the thread back to sleep behind a lock that is not free; the lock becomes
free only in `lock_release`, which takes a thread off the channel in the same section.

Barging newcomers need no clause of their own: a newcomer that wins makes the lock non-free.

## Main results

* `Lock.inv_step`, `Lock.inv_of_reachable` — the invariant and its two lemmas
* `Lock.lock_protocol` — mutual exclusion, the meaning of `lock_do_i_hold`, the `KASSERT`s, and
  no lost wake-up, in every reachable state
-/

namespace Os161

namespace Lock

variable {T L : Type*}

/-! ### Reading a program counter -/

/-- The lock whose code a thread is running. -/
def Pc.lock? : Pc L → Option L
  | .out | .panicked => none
  | .acquireSpin l | .acquireTest l _ | .sleepEnqueue l | .sleepUnlock l | .asleep l
  | .acquireUnlock l | .releaseAssert l | .releaseSpin l | .releaseWake l | .releaseUnlock l =>
      some l

/-- The lock whose spinlock a thread owns. -/
def Pc.section? : Pc L → Option L
  | .acquireTest l _ | .sleepEnqueue l | .sleepUnlock l | .acquireUnlock l | .releaseWake l
  | .releaseUnlock l => some l
  | _ => none

/-- The lock a thread inside the lock code owns: taken but `lock_acquire` has not returned, or
`lock_release` has not yet given it up. -/
def Pc.owned? : Pc L → Option L
  | .acquireUnlock l | .releaseAssert l | .releaseSpin l | .releaseWake l => some l
  | _ => none

/-- Taken off the channel of `l`, and the test of the `while` loop not yet repeated. -/
def InFlight (s : State T L) (t : T) (l : L) : Prop :=
  (s.pc t = .asleep l ∧ t ∉ s.lkWchan l) ∨ s.pc t = .acquireTest l true

/-- The invariant of the lock code. -/
structure Inv (s : State T L) : Prop where
  /-- A spinlock is owned exactly by the thread inside its section. -/
  spin : ∀ l t, s.lkSpinlock l = some t ↔ (s.pc t).section? = some l
  /-- A thread owns one spinlock inside a section and none outside. -/
  spinlocks : ∀ t, s.cSpinlocks t = if ((s.pc t).section?).isSome then 1 else 0
  /-- `lk_thread` is the holder, or the thread on its way to or from being the holder. -/
  owner : ∀ l t, s.lkThread l = some t ↔ s.held t l = true ∨ (s.pc t).owned? = some l
  /-- A thread runs the code of a lock only while it is not its holder. -/
  apart : ∀ l t, s.held t l = true → (s.pc t).lock? ≠ some l
  /-- Whoever is on a channel went to sleep on that lock. -/
  queued : ∀ l t, t ∈ s.lkWchan l → s.pc t = .sleepUnlock l ∨ s.pc t = .asleep l
  /-- Nobody is on a channel twice. -/
  nodup : ∀ l, (s.lkWchan l).Nodup
  /-- A thread on its way to sleep saw the lock taken, and it still is. -/
  taken : ∀ l t, s.pc t = .sleepEnqueue l ∨ s.pc t = .sleepUnlock l → s.lkThread l ≠ none
  /-- No wake-up is lost. -/
  wakeup : ∀ l, s.lkThread l = none → s.lkWchan l ≠ [] → ∃ t, InFlight s t l
  /-- No `KASSERT` has failed. -/
  noPanic : ∀ t, s.pc t ≠ .panicked

theorem inv_init : Inv (init : State T L) := by
  constructor <;> simp [init, Pc.section?, Pc.owned?]

/-- A thread is not the holder of a lock whose code it runs. -/
theorem Inv.not_held {s : State T L} {t : T} {l : L} (h : Inv s) (hl : (s.pc t).lock? = some l) :
    s.held t l = false := by
  cases hh : s.held t l with
  | false => rfl
  | true => exact absurd hl (h.apart l t hh)

/-- A thread that has not gone to sleep is on no channel. -/
theorem Inv.not_queued {s : State T L} {t : T} (h : Inv s)
    (hpc : ∀ l, s.pc t ≠ .sleepUnlock l ∧ s.pc t ≠ .asleep l) (l : L) : t ∉ s.lkWchan l := by
  intro hm
  rcases h.queued l t hm with hq | hq
  · exact (hpc l).1 hq
  · exact (hpc l).2 hq

/-! ### What each kind of step preserves -/

section Steps

variable [DecidableEq T] {s : State T L} {t : T} {l : L} {p : Pc L}

/-- Moving one thread between two places that own the same things. -/
theorem Inv.goto (h : Inv s) (hsec : p.section? = (s.pc t).section?)
    (hown : p.owned? = (s.pc t).owned?) (hlock : ∀ l, p.lock? = some l → s.held t l = false)
    (hq : ∀ l, s.pc t ≠ .sleepUnlock l ∧ s.pc t ≠ .asleep l)
    (hw : ∀ l, s.pc t = .acquireTest l true ∨ p = .sleepEnqueue l ∨ p = .sleepUnlock l →
      s.lkThread l ≠ none)
    (hn : p ≠ .panicked) : Inv (s.goto t p) := by
  obtain ⟨h1, h2, h3, h4, h5, h6, h7, h8, h9⟩ := h
  constructor
  · intro l u; simp only [State.goto, Function.update_apply]; grind
  · intro u; simp only [State.goto, Function.update_apply]; grind
  · intro l u; simp only [State.goto, Function.update_apply]; grind
  · intro l u; simp only [State.goto, Function.update_apply]; grind
  · intro l u; simp only [State.goto, Function.update_apply]; grind
  · exact h6
  · intro l u; simp only [State.goto, Function.update_apply]; grind
  · intro l hl hne
    obtain ⟨u, hu⟩ := h8 l hl hne
    refine ⟨u, ?_⟩
    simp only [InFlight, State.goto, Function.update_apply] at hl hu ⊢
    grind
  · intro u; simp only [State.goto, Function.update_apply]; grind

variable [DecidableEq L]

/-- `spinlock_acquire` on a free spinlock, on the way in or after a wake-up. -/
theorem Inv.spinlockAcquire (h : Inv s) (hfree : s.lkSpinlock l = none)
    (hsec : (s.pc t).section? = none) (hsec' : p.section? = some l)
    (hown : p.owned? = (s.pc t).owned?) (hlock : p.lock? = (s.pc t).lock?)
    (hw : ∀ l', t ∉ s.lkWchan l') (hwoken : ∀ l, s.pc t = .asleep l → p = .acquireTest l true)
    (hp : ∀ l, p ≠ .sleepEnqueue l ∧ p ≠ .sleepUnlock l) :
    Inv ((s.spinlockAcquire t l).goto t p) := by
  obtain ⟨h1, h2, h3, h4, h5, h6, h7, h8, h9⟩ := h
  constructor
  · intro l' u; simp only [State.goto, State.spinlockAcquire, Function.update_apply]; grind
  · intro u; simp only [State.goto, State.spinlockAcquire, Function.update_apply]; grind
  · intro l' u; simp only [State.goto, State.spinlockAcquire, Function.update_apply]; grind
  · intro l' u; simp only [State.goto, State.spinlockAcquire, Function.update_apply]; grind
  · intro l' u; simp only [State.goto, State.spinlockAcquire, Function.update_apply]; grind
  · exact h6
  · intro l' u; simp only [State.goto, State.spinlockAcquire, Function.update_apply]; grind
  · intro l' hl hne
    obtain ⟨u, hu⟩ := h8 l' hl hne
    refine ⟨u, ?_⟩
    simp only [InFlight, State.goto, State.spinlockAcquire, Function.update_apply] at hu ⊢
    grind [Pc.section?]
  · intro u
    simp only [State.goto, State.spinlockAcquire, Function.update_apply]
    grind [Pc.section?]

/-- `spinlock_release` at the end of a section that owned nothing else. -/
theorem Inv.spinlockRelease (h : Inv s) (hsec : (s.pc t).section? = some l)
    (hsec' : p.section? = none) (hown : p.owned? = (s.pc t).owned?)
    (hlock : ∀ l, p.lock? = some l → s.held t l = false)
    (hq : ∀ l, s.pc t = .sleepUnlock l → p = .asleep l)
    (hw : ∀ l, s.pc t ≠ .acquireTest l true)
    (hp : ∀ l, p ≠ .sleepEnqueue l ∧ p ≠ .sleepUnlock l) (hn : p ≠ .panicked) :
    Inv ((s.spinlockRelease t l).goto t p) := by
  obtain ⟨h1, h2, h3, h4, h5, h6, h7, h8, h9⟩ := h
  have hspin : s.lkSpinlock l = some t := (h1 l t).mpr hsec
  constructor
  · intro l' u; simp only [State.goto, State.spinlockRelease, Function.update_apply]; grind
  · intro u; simp only [State.goto, State.spinlockRelease, Function.update_apply]; grind
  · intro l' u; simp only [State.goto, State.spinlockRelease, Function.update_apply]; grind
  · intro l' u; simp only [State.goto, State.spinlockRelease, Function.update_apply]; grind
  · intro l' u
    simp only [State.goto, State.spinlockRelease, Function.update_apply]
    grind [Pc.section?]
  · exact h6
  · intro l' u; simp only [State.goto, State.spinlockRelease, Function.update_apply]; grind
  · intro l' hl hne
    obtain ⟨u, hu⟩ := h8 l' hl hne
    refine ⟨u, ?_⟩
    simp only [InFlight, State.goto, State.spinlockRelease, Function.update_apply] at hu ⊢
    grind [Pc.section?]
  · intro u; simp only [State.goto, State.spinlockRelease, Function.update_apply]; grind

/-- The test that finds the lock free. -/
theorem Inv.take (h : Inv s) {w : Bool} (hpc : s.pc t = .acquireTest l w)
    (hfree : s.lkThread l = none) :
    Inv ({ s with lkThread := Function.update s.lkThread l (some t) }.goto t
      (.acquireUnlock l)) := by
  obtain ⟨h1, h2, h3, h4, h5, h6, h7, h8, h9⟩ := h
  constructor
  · intro l' u; simp only [State.goto, Function.update_apply]; grind [Pc.section?]
  · intro u; simp only [State.goto, Function.update_apply]; grind [Pc.section?]
  · intro l' u; simp only [State.goto, Function.update_apply]; grind [Pc.owned?]
  · intro l' u; simp only [State.goto, Function.update_apply]; grind [Pc.lock?]
  · intro l' u; simp only [State.goto, Function.update_apply]; grind
  · exact h6
  · intro l' u; simp only [State.goto, Function.update_apply]; grind
  · intro l' hl hne
    simp only [State.goto, Function.update_apply] at hl hne
    obtain ⟨u, hu⟩ := h8 l' (by grind) hne
    refine ⟨u, ?_⟩
    simp only [InFlight, State.goto, Function.update_apply] at hu ⊢
    grind
  · intro u; simp only [State.goto, Function.update_apply]; grind

/-- The enqueue of `thread_switch`, with the spinlock still held. -/
theorem Inv.enqueue (h : Inv s) (hpc : s.pc t = .sleepEnqueue l) :
    Inv ((wchanEnqueue s t l).goto t (.sleepUnlock l)) := by
  obtain ⟨h1, h2, h3, h4, h5, h6, h7, h8, h9⟩ := h
  constructor
  · intro l' u; simp only [State.goto, wchanEnqueue, Function.update_apply]; grind [Pc.section?]
  · intro u; simp only [State.goto, wchanEnqueue, Function.update_apply]; grind [Pc.section?]
  · intro l' u; simp only [State.goto, wchanEnqueue, Function.update_apply]; grind [Pc.owned?]
  · intro l' u; simp only [State.goto, wchanEnqueue, Function.update_apply]; grind [Pc.lock?]
  · intro l' u; simp only [State.goto, wchanEnqueue, Function.update_apply]; grind
  · intro l'
    simp only [State.goto, wchanEnqueue, Function.update_apply]
    have : t ∉ s.lkWchan l := fun hm => by grind
    grind [List.nodup_append]
  · intro l' u; simp only [State.goto, wchanEnqueue, Function.update_apply]; grind
  · intro l' hl hne
    have hll : l' ≠ l := by
      rintro rfl
      exact h7 l' t (Or.inl hpc) hl
    simp only [State.goto, wchanEnqueue, Function.update_apply, hll, if_false] at hl hne
    obtain ⟨u, hu⟩ := h8 l' hl hne
    refine ⟨u, ?_⟩
    simp only [InFlight, State.goto, wchanEnqueue, Function.update_apply] at hu ⊢
    grind
  · intro u; simp only [State.goto, wchanEnqueue, Function.update_apply]; grind

/-- The section of `lock_release`: the lock becomes free and the first sleeper, if any, is in
flight from here on. -/
theorem Inv.wake (h : Inv s) (hpc : s.pc t = .releaseWake l) :
    Inv ((wchanWakeone { s with lkThread := Function.update s.lkThread l none } l).goto t
      (.releaseUnlock l)) := by
  have hheld : s.held t l = false := h.not_held (by simp [hpc, Pc.lock?])
  obtain ⟨h1, h2, h3, h4, h5, h6, h7, h8, h9⟩ := h
  have hspin : s.lkSpinlock l = some t := (h1 l t).mpr (by simp [hpc, Pc.section?])
  constructor
  · intro l' u; simp only [State.goto, wchanWakeone, Function.update_apply]; grind [Pc.section?]
  · intro u; simp only [State.goto, wchanWakeone, Function.update_apply]; grind [Pc.section?]
  · intro l' u
    simp only [State.goto, wchanWakeone, Function.update_apply]
    grind [Pc.owned?, Pc.lock?]
  · intro l' u; simp only [State.goto, wchanWakeone, Function.update_apply]; grind [Pc.lock?]
  · intro l' u
    simp only [State.goto, wchanWakeone, Function.update_apply]
    grind [List.mem_of_mem_tail]
  · intro l'
    simp only [State.goto, wchanWakeone, Function.update_apply]
    split
    · exact (h6 _).tail
    · exact h6 _
  · intro l' u
    simp only [State.goto, wchanWakeone, Function.update_apply]
    grind [Pc.section?]
  · intro l' hl hne
    by_cases hll : l' = l
    · subst hll
      simp only [State.goto, wchanWakeone, Function.update_self] at hne
      obtain ⟨u, rest, hur⟩ : ∃ u rest, s.lkWchan l' = u :: rest := by
        cases hw : s.lkWchan l' with
        | nil => simp [hw] at hne
        | cons u rest => exact ⟨u, rest, rfl⟩
      -- `u` cannot be between its enqueue and its unlock: `t` owns the spinlock
      have hu : s.pc u = .asleep l' := by
        rcases h5 l' u (by simp [hur]) with hu | hu
        · have hu' := (h1 l' u).mpr (by simp [hu, Pc.section?])
          obtain rfl := Option.some.inj (hspin.symm.trans hu')
          simp [hpc] at hu
        · exact hu
      have hnodup := h6 l'
      refine ⟨u, Or.inl ?_⟩
      simp only [State.goto, wchanWakeone, Function.update_apply]
      grind
    · simp only [State.goto, wchanWakeone, Function.update_apply, hll, if_false] at hl hne
      obtain ⟨u, hu⟩ := h8 l' hl hne
      refine ⟨u, ?_⟩
      simp only [InFlight, State.goto, wchanWakeone, Function.update_apply] at hu ⊢
      grind
  · intro u; simp only [State.goto, wchanWakeone, Function.update_apply]; grind

/-- The caller's view changes with `lk_thread` unchanged: `lock_acquire` returns. -/
theorem Inv.acquired (h : Inv s) (hpc : s.pc t = .acquireUnlock l) :
    Inv ({ (s.spinlockRelease t l).goto t .out with
      held := Function.update s.held t (Function.update (s.held t) l true) }) := by
  obtain ⟨h1, h2, h3, h4, h5, h6, h7, h8, h9⟩ := h
  have hspin : s.lkSpinlock l = some t := (h1 l t).mpr (by simp [hpc, Pc.section?])
  constructor
  · intro l' u
    simp only [State.goto, State.spinlockRelease, Function.update_apply]
    grind [Pc.section?]
  · intro u
    simp only [State.goto, State.spinlockRelease, Function.update_apply]
    grind [Pc.section?]
  · intro l' u
    simp only [State.goto, State.spinlockRelease, Function.update_apply]
    grind [Pc.owned?]
  · intro l' u
    simp only [State.goto, State.spinlockRelease, Function.update_apply]
    grind [Pc.lock?]
  · intro l' u; simp only [State.goto, State.spinlockRelease, Function.update_apply]; grind
  · exact h6
  · intro l' u; simp only [State.goto, State.spinlockRelease, Function.update_apply]; grind
  · intro l' hl hne
    obtain ⟨u, hu⟩ := h8 l' hl hne
    refine ⟨u, ?_⟩
    simp only [InFlight, State.goto, State.spinlockRelease, Function.update_apply] at hu ⊢
    grind
  · intro u; simp only [State.goto, State.spinlockRelease, Function.update_apply]; grind

/-- The caller's view changes with `lk_thread` unchanged: `lock_release` is called. -/
theorem Inv.releasing (h : Inv s) (hpc : s.pc t = .out) (hheld : s.held t l = true) :
    Inv ({ s.goto t (.releaseAssert l) with
      held := Function.update s.held t (Function.update (s.held t) l false) }) := by
  obtain ⟨h1, h2, h3, h4, h5, h6, h7, h8, h9⟩ := h
  constructor
  · intro l' u; simp only [State.goto, Function.update_apply]; grind [Pc.section?]
  · intro u; simp only [State.goto, Function.update_apply]; grind [Pc.section?]
  · intro l' u; simp only [State.goto, Function.update_apply]; grind [Pc.owned?]
  · intro l' u; simp only [State.goto, Function.update_apply]; grind [Pc.lock?]
  · intro l' u; simp only [State.goto, Function.update_apply]; grind
  · exact h6
  · intro l' u; simp only [State.goto, Function.update_apply]; grind
  · intro l' hl hne
    obtain ⟨u, hu⟩ := h8 l' hl hne
    refine ⟨u, ?_⟩
    simp only [InFlight, State.goto, Function.update_apply] at hu ⊢
    grind
  · intro u; simp only [State.goto, Function.update_apply]; grind

/-! ### Assembling the step lemma -/

/-- What one thread does inside the lock code keeps the invariant. -/
theorem inv_runStep {s s' : State T L} (h : Inv s) (hs : runStep s t = some s') : Inv s' := by
  unfold runStep at hs
  split at hs
  case h_1 => simp at hs
  case h_2 l hpc =>
    split at hs
    · obtain rfl := Option.some.inj hs
      exact h.spinlockAcquire ‹_› (by simp [hpc, Pc.section?]) rfl (by simp [hpc, Pc.owned?])
        (by simp [hpc, Pc.lock?]) (h.not_queued (by simp [hpc])) (by simp [hpc]) (by simp)
    · simp at hs
  case h_3 l w hpc =>
    obtain rfl := Option.some.inj hs
    have hspin : s.lkSpinlock l = some t := (h.spin l t).mpr (by simp [hpc, Pc.section?])
    have hcnt : s.cSpinlocks t = 1 := by simp [h.spinlocks t, hpc, Pc.section?]
    unfold lockAcquireTest
    by_cases hfree : s.lkThread l = none
    · rw [if_neg (by simp [hfree])]
      exact h.take hpc hfree
    · rw [if_pos hfree, if_pos ⟨by simp [spinlockDoIHold, hspin], hcnt⟩]
      refine h.goto (by simp [hpc, Pc.section?]) (by simp [hpc, Pc.owned?]) ?_ (by simp [hpc]) ?_
        (by simp)
      · intro l' hl'
        exact h.not_held (by simpa [hpc, Pc.lock?] using hl')
      · intro l' hl'
        rcases hl' with hl' | hl' | hl'
        · rw [hpc] at hl'
          cases hl'
          exact hfree
        · cases hl'
          exact hfree
        · cases hl'
  case h_4 l hpc =>
    obtain rfl := Option.some.inj hs
    exact h.enqueue hpc
  case h_5 l hpc =>
    obtain rfl := Option.some.inj hs
    refine h.spinlockRelease (by simp [hpc, Pc.section?]) rfl (by simp [hpc, Pc.owned?]) ?_
      (by simp [hpc]) (by simp [hpc]) (by simp) (by simp)
    intro l' hl'
    exact h.not_held (by simpa [hpc, Pc.lock?] using hl')
  case h_6 l hpc =>
    split at hs
    · rename_i hg
      obtain rfl := Option.some.inj hs
      refine h.spinlockAcquire hg.2 (by simp [hpc, Pc.section?]) rfl (by simp [hpc, Pc.owned?])
        (by simp [hpc, Pc.lock?]) ?_ (by simp [hpc]) (by simp)
      intro l' hm
      rcases h.queued l' t hm with hq | hq
      · simp [hpc] at hq
      · rw [hpc] at hq
        cases hq
        exact hg.1 hm
    · simp at hs
  case h_7 l hpc =>
    obtain rfl := Option.some.inj hs
    exact h.acquired hpc
  case h_8 l hpc =>
    have hown : s.lkThread l = some t := (h.owner l t).mpr (Or.inr (by simp [hpc, Pc.owned?]))
    rw [if_pos hown] at hs
    obtain rfl := Option.some.inj hs
    refine h.goto (by simp [hpc, Pc.section?]) (by simp [hpc, Pc.owned?]) ?_ (by simp [hpc])
      (by simp [hpc]) (by simp)
    intro l' hl'
    exact h.not_held (by simpa [hpc, Pc.lock?] using hl')
  case h_9 l hpc =>
    split at hs
    · obtain rfl := Option.some.inj hs
      exact h.spinlockAcquire ‹_› (by simp [hpc, Pc.section?]) rfl (by simp [hpc, Pc.owned?])
        (by simp [hpc, Pc.lock?]) (h.not_queued (by simp [hpc])) (by simp [hpc]) (by simp)
    · simp at hs
  case h_10 l hpc =>
    obtain rfl := Option.some.inj hs
    have hspin : s.lkSpinlock l = some t := (h.spin l t).mpr (by simp [hpc, Pc.section?])
    unfold lockReleaseWake
    rw [if_pos (by simp [spinlockDoIHold, hspin])]
    exact h.wake hpc
  case h_11 l hpc =>
    obtain rfl := Option.some.inj hs
    exact h.spinlockRelease (by simp [hpc, Pc.section?]) rfl (by simp [hpc, Pc.owned?])
      (by simp [Pc.lock?]) (by simp [hpc]) (by simp [hpc]) (by simp) (by simp)
  case h_12 => simp at hs

theorem inv_step {s s' : State T L} {a : Action T L} (h : Inv s) (hs : step s a = some s') :
    Inv s' := by
  cases a with
  | callAcquire t l =>
    simp only [step, Option.ite_none_right_eq_some, Option.some.injEq] at hs
    obtain ⟨⟨hpc, hfree⟩, rfl⟩ := hs
    refine h.goto (by simp [hpc, Pc.section?]) (by simp [hpc, Pc.owned?]) ?_ (by simp [hpc])
      (by simp [hpc]) (by simp)
    intro l' hl'
    simp only [Pc.lock?, Option.some.injEq] at hl'
    exact hl' ▸ hfree
  | callRelease t l =>
    simp only [step, Option.ite_none_right_eq_some, Option.some.injEq] at hs
    obtain ⟨⟨hpc, hheld⟩, rfl⟩ := hs
    exact h.releasing hpc hheld
  | run t => exact inv_runStep h hs

end Steps

variable [DecidableEq T] [DecidableEq L]

theorem inv_of_reachable {s : State T L} (h : (system T L).Reachable s) : Inv s := by
  refine h.invariant (P := Inv) ?_ fun s a s' hi hs => inv_step hi hs
  rintro s rfl
  exact inv_init

/-! ### The protocol -/

/-- **The lock protocol.** In every reachable state of any number of threads and locks: at most one
thread is between the return of `lock_acquire` and its call of `lock_release`; a thread outside the
lock code is told by `lock_do_i_hold` exactly whether it is that thread; no `KASSERT` has failed;
and a free lock with sleepers has a thread in flight. -/
theorem lock_protocol {s : State T L} (h : (system T L).Reachable s) :
    (∀ l t u, s.held t l = true → s.held u l = true → t = u) ∧
      (∀ l t, s.pc t = .out → (lockDoIHold s t l = true ↔ s.held t l = true)) ∧
      (∀ t, s.pc t ≠ .panicked) ∧
      ∀ l, s.lkThread l = none → s.lkWchan l ≠ [] → ∃ t, InFlight s t l := by
  have hinv := inv_of_reachable h
  refine ⟨fun l t u ht hu => ?_, fun l t hpc => ?_, hinv.noPanic, hinv.wakeup⟩
  · have hlt : s.lkThread l = some t := (hinv.owner l t).mpr (Or.inl ht)
    have hlu : s.lkThread l = some u := (hinv.owner l u).mpr (Or.inl hu)
    exact Option.some.inj (hlt.symm.trans hlu)
  · have hown : (s.pc t).owned? ≠ some l := by simp [hpc, Pc.owned?]
    rw [lockDoIHold, decide_eq_true_iff, hinv.owner l t, or_iff_left hown]

/-- Thread `0` takes the lock, threads `1` and `2` go to sleep behind it, thread `0` gives it back:
the lock is free, `2` is still on the channel and `1` is on its way. -/
def contended : List (Action (Fin 3) Unit) :=
  [.callAcquire 0 (), .run 0, .run 0, .run 0,
    .callAcquire 1 (), .run 1, .run 1, .run 1, .run 1,
    .callAcquire 2 (), .run 2, .run 2, .run 2, .run 2,
    .callRelease 0 (), .run 0, .run 0, .run 0, .run 0]

theorem contended_runs : (contended.foldlM (system (Fin 3) Unit).step Lock.init).isSome := by
  decide

theorem lock_protocol_contended : ∃ s : State (Fin 3) Unit, (system (Fin 3) Unit).Reachable s ∧
    s.lkThread () = none ∧ s.lkWchan () = [2] ∧ ∃ t, InFlight s t () := by
  have hreach := TransitionSystem.reachable_of_run contended (.init rfl)
    (Option.some_get contended_runs).symm
  exact ⟨_, hreach, by decide, by decide,
    (lock_protocol hreach).2.2.2 () (by decide) (by decide)⟩

end Lock

end Os161
