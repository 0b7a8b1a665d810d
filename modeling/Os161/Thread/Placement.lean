import Os161.Thread.Dispatch
import Os161.Thread.Victims

/-!
# Where threads are

Each step of the scheduler keeps the invariant of `Thread.Places`, so it holds in every state that
any number of CPUs reach. `Thread.Dispatch` and `Thread.Victims` have the steps; here they are put
together, with what else the placement of threads needs: when a thread is destroyed.

## How it composes

`inv_step` looks at the guard of each action and hands it to the lemma about it. `inv_init` is about
the state after boot, in which each CPU runs a thread of its own and all lists are empty.
`thread_placement` reads what it says off the invariant, and needs only `destroyed_step` besides:
`thread_destroy` is called by `exorcise`, and by `thread_fork` if it fails.

## Main results

* `inv_step`, `inv_of_reachable` — the invariant
* `thread_placement`
-/

namespace Os161

namespace Thread

variable {n : ℕ} {T W : Type} [DecidableEq T] [DecidableEq W] {s : State n T W} {c d : Fin n}
  {t : T}

/-! ### Every step

One case for each action. What is shown here is only that the guard of the action gives what the
lemma about it asks for. -/

/-- **Every step keeps the invariant.** -/
theorem inv_step {s' : State n T W} {a : Action n T W} (h : Inv s) (hs : step s a = some s') :
    Inv s' := by
  cases a with
  | create c t =>
    simp only [step] at hs
    split at hs
    · split at hs
      · next hc =>
        obtain rfl := Option.some.inj hs
        have hdes : s.destroyed t = 0 := by
          rw [h.destroyed, hc.2]
          rfl
        have := inv_offstage (l := .created) h (by rw [hc.2]; intro hl; cases hl) (by simp)
          (s.tCpu (s.curthread c)) .ready (k := 0) rfl
        rwa [← hdes, Function.update_eq_self] at this
      · cases hs
    · cases hs
  | forkFail t =>
    simp only [step] at hs
    split at hs
    · next ht =>
      obtain rfl := Option.some.inj hs
      have hdes : s.destroyed t + 1 = 1 := by
        rw [h.destroyed, ht]
        rfl
      have := inv_offstage (l := .dead) h (by rw [ht]; intro hl; cases hl) (by simp)
        (s.tCpu t) (s.tState t) (k := s.destroyed t + 1) hdes
      simpa [State.threadDestroy, Function.update_eq_self] using this
    · cases hs
  | fork t =>
    simp only [step] at hs
    split at hs
    · next ht =>
      obtain rfl := Option.some.inj hs
      exact inv_fork h ht.1
    · cases hs
  | yield c =>
    simp only [step] at hs
    split at hs
    · next hpc =>
      split at hs
      · obtain rfl := Option.some.inj hs
        exact h
      · next hgo =>
        obtain rfl := Option.some.inj hs
        exact inv_yield h hpc (Bool.eq_false_iff.mpr fun hidle => hgo (Or.inl hidle))
    · cases hs
  | sleep c wc =>
    simp only [step] at hs
    split at hs
    · next hpc =>
      split at hs
      · next hc =>
        obtain rfl := Option.some.inj hs
        exact inv_sleep h hpc hc.1
      · cases hs
    · cases hs
  | exit c =>
    simp only [step] at hs
    split at hs
    · next hpc =>
      split at hs
      · next hidle =>
        obtain rfl := Option.some.inj hs
        exact inv_exit h hpc hidle
      · cases hs
    · cases hs
  | choose c =>
    simp only [step] at hs
    split at hs
    · next newstate hpc =>
      obtain rfl := Option.some.inj hs
      have hset := inv_setState_switching h hpc
      have hpc' : (s.setState (s.curthread c) newstate).pc c = .switching newstate := hpc
      refine inv_next hset ?_ ?_ fun u hu => ?_
      · rw [Left, hpc']
        exact Bool.or_true _
      · rw [hpc']
        rfl
      · -- the state of a thread that has exited has just been set
        rcases (hset.zombie c u hu).2 with hst | ⟨hz, hcur⟩
        · exact hst
        · rw [hpc'] at hz
          cases hz
          rw [← hcur]
          exact Function.update_self ..
    · cases hs
  | unidle c =>
    simp only [step] at hs
    split at hs
    · next hpc =>
      split at hs
      · next hidle =>
        obtain rfl := Option.some.inj hs
        refine inv_next h ?_ (by rw [hpc]; rfl) fun u hu => ?_
        · rw [Left, hidle]
          rfl
        · refine (h.zombie c u hu).2.resolve_right fun hz => ?_
          rw [hpc] at hz
          cases hz.1
      · cases hs
    · cases hs
  | resume c =>
    simp only [step] at hs
    split at hs
    · next hpc =>
      obtain rfl := Option.some.inj hs
      exact inv_resume h hpc
    · cases hs
  | exorcise c =>
    simp only [step] at hs
    split at hs
    · next hpc =>
      split at hs
      · obtain rfl := Option.some.inj hs
        exact inv_goto h (by rw [hpc]; rfl) (by rw [hpc]; rfl) rfl rfl trivial
      · next z zombies hz =>
        obtain rfl := Option.some.inj hs
        exact inv_exorcise h hpc hz
    · cases hs
  | wakeone c wc =>
    simp only [step] at hs
    split at hs
    · next hpc =>
      split at hs
      · split at hs
        · obtain rfl := Option.some.inj hs
          exact h
        · next target rest hwc =>
          obtain rfl := Option.some.inj hs
          exact inv_wake h hpc hwc
      · cases hs
    · cases hs
  | wakeall c wc =>
    simp only [step] at hs
    split at hs
    · next hpc =>
      split at hs
      · obtain rfl := Option.some.inj hs
        exact inv_wake h hpc (List.append_nil _).symm
      · cases hs
    · cases hs
  | makeRunnable c =>
    simp only [step] at hs
    split at hs
    · next wc target list hpc =>
      split at hs
      · next hlock =>
        obtain rfl := Option.some.inj hs
        exact inv_makeRunnable h hpc hlock
      · cases hs
    · next hpc =>
      obtain rfl := Option.some.inj hs
      exact inv_goto h (by rw [hpc]; rfl) (by rw [hpc]; rfl) rfl rfl trivial
    · cases hs
  | considerMigration c =>
    simp only [step] at hs
    split at hs
    · next hpc =>
      obtain rfl := Option.some.inj hs
      exact inv_goto h (by rw [hpc]; rfl) (by rw [hpc]; rfl) rfl rfl (Nat.zero_le _)
    · cases hs
  | migrate c => exact inv_migrate h hs

/-- After boot each CPU runs its own thread, and there is no other. -/
theorem inv_init (h : (system n T W).init s) : Inv s := by
  obtain ⟨hcpu, hidle, hrq, hz, hwc, hlife, hdes, hpc, hfault⟩ := h
  have hleft : ∀ c, Left s c = false := fun c => left_of_run (hpc c) (hidle c)
  -- the only places anybody is at are the CPUs
  have hheld : ∀ (p : Place n W) (t : T),
      t ∈ held s p ↔ ∃ c, p = .running c ∧ s.curthread c = t := by
    intro p t
    cases p with
    | running c =>
      rw [held, hleft]
      simp [eq_comm]
    | runqueue c => simp [held, hrq]
    | wchan wc => simp [held, hwc]
    | zombies c => simp [held, hz]
    | moving c => simp [held, hpc]
  have hlive : ∀ t, s.life t = .live ↔ ∃ c, s.curthread c = t := by
    intro t
    rw [hlife]
    split <;> simp_all
  refine ⟨⟨fun p => ?_, ?_, fun t => ?_⟩, ?_, ?_, ?_, hcpu, ?_, ?_, ?_, hfault⟩
  · cases p with
    | running c =>
      rw [held, hleft]
      exact List.nodup_singleton _
    | runqueue c => simp [held, hrq]
    | wchan wc => simp [held, hwc]
    | zombies c => simp [held, hz]
    | moving c => simp [held, hpc]
  · intro p q t hp hq
    obtain ⟨c, rfl, hc⟩ := (hheld p t).mp hp
    obtain ⟨d, rfl, hd⟩ := (hheld q t).mp hq
    rw [← hcpu c, ← hcpu d, hc, hd]
  · rw [hlive]
    constructor
    · rintro ⟨c, hc⟩
      exact ⟨.running c, (hheld _ t).mpr ⟨c, rfl, hc⟩⟩
    · rintro ⟨p, hp⟩
      obtain ⟨c, -, hc⟩ := (hheld p t).mp hp
      exact ⟨c, hc⟩
  · intro c t ht
    rw [hrq] at ht
    cases ht
  · intro c t ht
    rw [hpc] at ht
    cases ht
  · intro c t ht
    rw [hz] at ht
    cases ht
  · intro c
    exact (hlive _).mpr ⟨c, rfl⟩
  · intro c
    rw [hpc]
    trivial
  · intro t
    rw [hdes, hlife]
    split <;> rfl

/-- **The invariant** holds in every state that can be reached. -/
theorem inv_of_reachable (h : (system n T W).Reachable s) : Inv s :=
  h.invariant (P := Inv) (fun _ hinit => inv_init hinit) fun _ _ _ hi hs => inv_step hi hs

/-! ### The end of a thread

`destroyed` counts the calls of `thread_destroy` for a thread. All steps but two leave it alone.
-/

omit [DecidableEq T] [DecidableEq W] in
/-- Picking the next thread destroys none. -/
theorem destroyed_next : (s.next c).destroyed = s.destroyed := by
  unfold State.next
  split <;> rfl

omit [DecidableEq W] in
/-- Neither does sending threads away. -/
theorem destroyed_sendLoop (i oneShare toSend : ℕ) (victims : List T) (s : State n T W) :
    (sendLoop c d i oneShare toSend victims s).destroyed = s.destroyed := by
  induction toSend generalizing victims s with
  | zero => rfl
  | succ toSend ih =>
    unfold sendLoop
    split
    · cases victims with
      | nil => rfl
      | cons t victims =>
        dsimp only
        split
        · exact ih _ _
        · exact ih _ _
    · rfl

omit [DecidableEq W] in
/-- Nor the rest of `thread_consider_migration`. -/
theorem destroyed_migrate {s' : State n T W} (hs : s.migrate c = some s') :
    s'.destroyed = s.destroyed := by
  dsimp only [State.migrate] at hs
  repeat' split at hs
  all_goals cases hs
  all_goals first | rfl | exact destroyed_sendLoop ..

/-- A thread is destroyed by `exorcise`, off the CPU's list of zombies, or by `thread_fork`, which
has not yet handed it to anyone. -/
theorem destroyed_step {s' : State n T W} {a : Action n T W} (hs : step s a = some s')
    (ht : s'.destroyed t ≠ s.destroyed t) : s.life t = .created ∧ a = .forkFail t ∨
      ∃ c, a = .exorcise c ∧ s.pc c = .exorcise ∧ t ∈ s.zombies c := by
  have hother : ∀ {u : T} {k : ℕ}, Function.update s.destroyed u k t ≠ s.destroyed t → t = u := by
    intro u k hne
    by_contra htu
    exact hne (Function.update_of_ne htu ..)
  cases a with
  | forkFail u =>
    simp only [step] at hs
    split at hs
    · next hu =>
      obtain rfl := Option.some.inj hs
      obtain rfl := hother ht
      exact Or.inl ⟨hu, rfl⟩
    · cases hs
  | exorcise c =>
    simp only [step] at hs
    split at hs
    · next hpc =>
      split at hs
      · obtain rfl := Option.some.inj hs
        exact absurd rfl ht
      · next z zombies hz =>
        obtain rfl := Option.some.inj hs
        obtain rfl := hother ht
        exact Or.inr ⟨c, rfl, hpc, by rw [hz]; exact List.mem_cons_self⟩
    · cases hs
  | choose c =>
    simp only [step] at hs
    split at hs
    · obtain rfl := Option.some.inj hs
      rw [destroyed_next] at ht
      exact absurd rfl ht
    · cases hs
  | unidle c =>
    simp only [step] at hs
    repeat' split at hs
    · obtain rfl := Option.some.inj hs
      rw [destroyed_next] at ht
      exact absurd rfl ht
    · cases hs
    · cases hs
  | migrate c =>
    rw [destroyed_migrate hs] at ht
    exact absurd rfl ht
  | _ =>
    -- the other actions do not touch it
    simp only [step] at hs
    repeat' split at hs
    all_goals cases hs
    all_goals exact absurd rfl ht

/-- **Placement of threads.** In every state that any number of CPUs reach by any interleaving, each
live thread is at exactly one place, and there once, and nothing else is at any place. Threads on a
run queue belong to that CPU and are ready. The current thread of a CPU is at another place only
while the CPU has left it: when it idles, or is about to look for the next thread. A thread is
destroyed at most once, and a live one only by `exorcise`, as a zombie that is no CPU's current
thread. No assertion fails. -/
theorem thread_placement (h : (system n T W).Reachable s) :
    (∀ t, s.life t = .live → ∃! p, t ∈ held s p) ∧ (∀ p, (held s p).Nodup) ∧
    (∀ p t, t ∈ held s p → s.life t = .live) ∧
    (∀ c t, t ∈ s.runqueue c → s.tCpu t = c ∧ s.tState t = .ready) ∧
    (∀ c p, s.curthread c ∈ held s p → p = .running c ∨ Left s c = true) ∧
    (∀ t, s.destroyed t = if s.life t = .dead then 1 else 0) ∧
    (∀ a s' t, step s a = some s' → s'.destroyed t ≠ s.destroyed t →
      (s.life t = .created ∧ a = .forkFail t) ∨
      (s.life t = .live ∧ ∃ c, a = .exorcise c ∧ t ∈ s.zombies c ∧ ∀ d, s.curthread d ≠ t)) ∧
    s.fault = false := by
  have hi := inv_of_reachable h
  refine ⟨fun t ht => hi.exact.existsUnique ht, hi.exact.nodup, fun p t ht => hi.exact.inUse ht,
    hi.ready, fun c p hp => ?_, hi.destroyed, fun a s' t hs ht => ?_, hi.fault⟩
  · cases hleft : Left s c with
    | true => exact Or.inr rfl
    | false => exact Or.inl (hi.running hleft hp)
  · rcases destroyed_step hs ht with hfail | ⟨c, ha, hpc, hz⟩
    · exact Or.inl hfail
    · have hlive : s.life t = .live := hi.exact.inUse (p := Place.zombies c) hz
      exact Or.inr ⟨hlive, c, ha, hz, hi.cur_ne_zombie hpc hz⟩


/-- Two CPUs, each in its boot thread. -/
def twoCpus : State 2 ℕ Unit where
  curthread c := c
  isidle _ := false
  runqueue _ := []
  zombies _ := []
  wcThreads _ := []
  tCpu t := if t = 0 then 0 else 1
  tState _ := .ready
  life t := if ∃ c : Fin 2, (c : ℕ) = t then .live else .unborn
  destroyed _ := 0
  pc _ := .run
  fault := false

/-- Thread 0 forks thread 2 and goes to sleep. CPU 1 takes it off the channel before CPU 0 has
picked the next thread, and makes it runnable after. -/
def sleepAndWake : List (Action 2 ℕ Unit) :=
  [.create 0 2, .fork 2, .sleep 0 (), .wakeall 1 (), .choose 0, .resume 0, .makeRunnable 1]

/-- All these steps are possible. -/
theorem sleepAndWake_runs : (sleepAndWake.foldlM (system 2 ℕ Unit).step twoCpus).isSome := by
  decide

/-- After them CPU 0 runs thread 2, and thread 0 is on its run queue and nowhere else. -/
theorem thread_placement_sleepAndWake : ∃ s, (system 2 ℕ Unit).Reachable s ∧
    s.curthread 0 = 2 ∧ 0 ∈ s.runqueue 0 ∧ ∃! p, 0 ∈ held s p := by
  have hinit : (system 2 ℕ Unit).init twoCpus := by
    refine ⟨?_, fun _ => rfl, fun _ => rfl, fun _ => rfl, fun _ => rfl, fun _ => rfl,
      fun _ => rfl, fun _ => rfl, rfl⟩
    decide
  have hreach := TransitionSystem.reachable_of_run sleepAndWake (.init hinit)
    (Option.some_get sleepAndWake_runs).symm
  exact ⟨_, hreach, by decide, by decide, (thread_placement hreach).1 0 (by decide)⟩

end Thread

end Os161
