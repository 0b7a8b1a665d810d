import Os161.Thread.Places

/-!
# Giving up the CPU, and getting it back

The steps of `thread_switch`, `thread_fork`, `exorcise`, `wchan_wakeone` and `wchan_wakeall`, each
with the proof that it keeps the invariant of `Thread.Places`.

## Making a thread runnable

`thread_make_runnable` puts a thread on the run queue of its CPU, which may be another one than the
CPU that calls it. It comes from three places: it has just been created, it is the caller itself
(`thread_yield`), or it has been taken off a wait channel. `inv_makeRunnable_setPc` has what they
share.

## Why a woken thread is not run too early

A thread that goes to sleep is on its wait channel before its CPU has picked another, so that
another CPU may wake it while it still runs. The run queue's lock is held from before the sleep
until the next thread is picked, and the waking CPU needs that lock. In the proof of
`inv_makeRunnable` this is the case in which CPU `d` is at `switching .sleep` with the very thread.

## Zombies

A thread that exits puts itself on its CPU's list of zombies, and the next thread on that CPU
destroys it. The state `S_ZOMBIE` is set between the two. `exorcise` asserts both that the thread is
not the current one and that it has that state; `inv_exorcise` shows that neither assertion fails.

## Main results

* `inv_fork`, `inv_yield`, `inv_makeRunnable` — a thread becomes runnable
* `inv_sleep`, `inv_wake`, `inv_exit` — a thread leaves the CPU, or a wait channel
* `inv_next`, `inv_resume`, `inv_exorcise` — the next thread of a CPU
-/

namespace Os161

namespace Thread

variable {n : ℕ} {T W : Type} [DecidableEq T] {s : State n T W} {c d : Fin n} {t : T}

/-! ### Making threads runnable

`State.threadMakeRunnable` sets the state of the thread and appends it to a run queue. First what
that does to lists and states, then the three calls of it. -/

/-- A thread that was ready still is. -/
theorem tState_makeRunnable {u : T} (hu : s.tState u = .ready) :
    (s.threadMakeRunnable t).tState u = .ready := by
  by_cases hut : u = t
  · subst hut
    exact Function.update_self ..
  · exact (Function.update_of_ne hut ..).trans hu

/-- One run queue has one more thread. -/
theorem mem_runqueue_makeRunnable {u : T} (hu : u ∈ (s.threadMakeRunnable t).runqueue d) :
    u ∈ s.runqueue d ∨ u = t ∧ d = s.tCpu t := by
  by_cases hd : d = s.tCpu t
  · subst hd
    have hmem : u ∈ s.runqueue (s.tCpu t) ++ [t] := by
      simpa [State.threadMakeRunnable, State.addRunqueue, State.setState] using hu
    rcases List.mem_append.mp hmem with hu | hu
    · exact Or.inl hu
    · exact Or.inr ⟨List.mem_singleton.mp hu, rfl⟩
  · left
    simpa [State.threadMakeRunnable, State.addRunqueue, State.setState, Function.update_of_ne hd]
      using hu

/-- All threads on run queues are ready, and belong there. -/
theorem ready_makeRunnable (h : Inv s) {u : T} (hu : u ∈ (s.threadMakeRunnable t).runqueue d) :
    s.tCpu u = d ∧ (s.threadMakeRunnable t).tState u = .ready := by
  rcases mem_runqueue_makeRunnable hu with hu | ⟨rfl, rfl⟩
  · exact ⟨(h.ready d u hu).1, tState_makeRunnable (h.ready d u hu).2⟩
  · exact ⟨rfl, Function.update_self ..⟩

/-- Run queues only grow, which other CPUs rely on. -/
theorem runqueue_makeRunnable_grows :
    ∃ l, (s.threadMakeRunnable t).runqueue d = s.runqueue d ++ l := by
  by_cases hd : d = s.tCpu t
  · subst hd
    exact ⟨[t], Function.update_self ..⟩
  · exact ⟨[], (Function.update_of_ne hd ..).trans (List.append_nil _).symm⟩

/-- Another CPU, while `t` is made runnable. -/
theorem At.makeRunnable (h : Inv s) (hlock : s.pc d = .switching .sleep → s.curthread d ≠ t) :
    At (s.threadMakeRunnable t) d (s.pc d) := by
  refine (h.atPc d).frame rfl rfl runqueue_makeRunnable_grows rfl fun hpc e => ?_
  have hat := h.atPc d
  rw [hpc] at hat
  refine ⟨fun hmem => ?_, (hat e).2⟩
  rcases mem_runqueue_makeRunnable hmem with hmem | ⟨heq, -⟩
  · exact (hat e).1 hmem
  · exact hlock hpc heq

/-- `thread_fork`: a created thread comes into the system on the run queue of its CPU. -/
theorem inv_fork (h : Inv s) (ht : s.life t = .created) :
    Inv { s.threadMakeRunnable t with life := Function.update s.life t .live } := by
  have hlive : s.life t ≠ .live := by
    rw [ht]
    simp
  -- a thread that is not live yet is on no list, and is no CPU's current thread
  have hcur : ∀ d, s.curthread d ≠ t := by
    rintro d rfl
    exact hlive (h.curLive d)
  have hne : ∀ (p : Place n W) (u : T), u ∈ held s p → u ≠ t := by
    rintro p u hu rfl
    exact h.not_mem hlive p hu
  refine ⟨?_, fun d u hu => ready_makeRunnable h hu, ?_, ?_, h.cur, ?_, ?_, ?_, h.fault⟩
  · -- one thread more, and it is at the end of that queue
    refine h.exact.add (q := .runqueue (s.tCpu t)) hlive ?_ ?_ fun u => ?_
    · simp [held, State.threadMakeRunnable, State.addRunqueue, State.setState]
    · rintro (d | d | wc | d | d) hd
      · rfl
      · have hd : d ≠ s.tCpu t := fun he => hd (by rw [he])
        simp [held, State.threadMakeRunnable, State.addRunqueue, State.setState,
          Function.update_of_ne hd]
      · rfl
      · rfl
      · rfl
    · by_cases hu : u = t
      · subst hu
        simp
      · simp [hu]
  · intro d u hu
    exact ⟨(h.victims d u hu).1, tState_makeRunnable (h.victims d u hu).2⟩
  · intro d u hu
    have hut := hne (.zombies d) u hu
    have := h.zombie d u hu
    refine ⟨this.1, this.2.imp_left fun hst => ?_⟩
    exact (Function.update_of_ne hut ..).trans hst
  · intro d
    exact (Function.update_of_ne (hcur d) ..).trans (h.curLive d)
  · intro d
    exact (At.makeRunnable h fun _ => hcur d).frame rfl rfl ⟨[], (List.append_nil _).symm⟩ rfl
      fun hpc => by
        have := At.makeRunnable (t := t) h fun _ => hcur d
        rwa [hpc] at this
  · intro u
    by_cases hu : u = t
    · subst hu
      have := h.destroyed u
      rw [ht] at this
      exact this.trans (by simp)
    · exact (h.destroyed u).trans (by simp [hu])

/-- A thread that is nowhere else is put on the run queue of its CPU by CPU `c`, which goes on at
`pc`. -/
theorem inv_makeRunnable_setPc (h : Inv s) {pc : Pc T W}
    (hexact : Places.Exact (held ((s.threadMakeRunnable t).setPc c pc)) fun u => s.life u = .live)
    (hz : ∀ e, t ∉ s.zombies e) (hpcz : s.pc c ≠ .switching .zombie)
    (hvictims : pc.victims = [])
    (hlock : ∀ d, d ≠ c → s.pc d = .switching .sleep → s.curthread d ≠ t)
    (hat : At (s.threadMakeRunnable t) c pc) : Inv ((s.threadMakeRunnable t).setPc c pc) := by
  refine ⟨hexact, fun d u hu => ready_makeRunnable h hu, ?_, ?_, h.cur, h.curLive, ?_,
    h.destroyed, h.fault⟩
  · intro d u hu
    by_cases hd : d = c
    · subst hd
      simp [State.setPc, hvictims] at hu
    · have hu : u ∈ (s.pc d).victims := by
        simpa [State.setPc, State.threadMakeRunnable, State.addRunqueue, State.setState,
          Function.update_of_ne hd] using hu
      exact ⟨(h.victims d u hu).1, tState_makeRunnable (h.victims d u hu).2⟩
  · -- the thread is no zombie, so that all zombies keep their states
    intro d u hu
    have hut : u ≠ t := by
      rintro rfl
      exact hz d hu
    obtain ⟨hcpu, hst⟩ := h.zombie d u hu
    refine ⟨hcpu, ?_⟩
    rcases hst with hst | ⟨hpc, hcur⟩
    · exact Or.inl ((Function.update_of_ne hut ..).trans hst)
    · have hd : d ≠ c := by
        rintro rfl
        exact hpcz hpc
      exact Or.inr ⟨(Function.update_of_ne hd ..).trans hpc, hcur⟩
  · intro d
    by_cases hd : d = c
    · subst hd
      change At _ d (Function.update s.pc d pc d)
      rw [Function.update_self]
      exact hat.frame rfl rfl ⟨[], (List.append_nil _).symm⟩ rfl fun hpc => by
        rwa [hpc] at hat
    · change At _ d (Function.update s.pc c pc d)
      rw [Function.update_of_ne hd]
      have := At.makeRunnable h (hlock d hd)
      exact this.frame rfl rfl ⟨[], (List.append_nil _).symm⟩ rfl fun hpc => by
        rwa [hpc] at this

/-- `thread_yield`: the current thread goes to the end of its own run queue. -/
theorem inv_yield (h : Inv s) (hpc : s.pc c = .run) (hidle : s.isidle c = false) :
    Inv ((s.threadMakeRunnable (s.curthread c)).setPc c (.switching .ready)) := by
  have hleft : Left s c = false := by simp [Left, hidle, hpc]
  have hrun : ∀ p : Place n W, s.curthread c ∈ held s p → p = .running c := fun p hp =>
    h.running hleft hp
  have hcpu := h.cur c
  refine inv_makeRunnable_setPc h ?_ ?_ (by simp [hpc]) rfl ?_ ?_
  · -- from the CPU to its run queue; `Left` is true from here on
    refine h.exact.move (p := .running c) (q := .runqueue c) (l := [s.curthread c]) (by simp)
      ?_ ?_ ?_
    · rw [held, hleft]
      simp [held, Left, State.setPc]
    · simp [held, State.setPc, State.threadMakeRunnable, State.addRunqueue, State.setState, hcpu]
    · rintro (d | d | wc | d | d) hp hq
      · have hd : d ≠ c := fun he => hp (by rw [he])
        simp [held, Left, State.setPc, State.threadMakeRunnable, State.addRunqueue, State.setState,
          Function.update_of_ne hd]
      · have hd : d ≠ c := fun he => hq (by rw [he])
        simp [held, State.setPc, State.threadMakeRunnable, State.addRunqueue, State.setState, hcpu,
          Function.update_of_ne hd]
      · rfl
      · rfl
      · by_cases hd : d = c
        · subst hd
          simp [held, State.setPc, hpc]
        · simp [held, State.setPc, State.threadMakeRunnable, State.addRunqueue, State.setState,
            Function.update_of_ne hd]
  · -- it runs, so it is on no list
    intro e he
    cases hrun (.zombies e) he
  · -- and it is the current thread of this CPU only
    intro d hd _ heq
    exact hd (h.cur_injective heq)
  · change s.curthread c ∈ Function.update s.runqueue (s.tCpu (s.curthread c)) _ c
    rw [hcpu, Function.update_self]
    exact List.mem_append_right _ List.mem_cons_self

/-- A thread off a wait channel is made runnable, by a CPU that gets the lock of its run queue. -/
theorem inv_makeRunnable (h : Inv s) {wc : W} {list : List T}
    (hpc : s.pc c = .waking wc (t :: list))
    (hlock : s.unlocked (s.tCpu t)) : Inv ((s.threadMakeRunnable t).setPc c (.waking wc list)) := by
  have ht : t ∈ held s (.moving c) := by simp [held, hpc]
  refine inv_makeRunnable_setPc h ?_ ?_ (by simp [hpc]) rfl ?_ trivial
  · -- from the private list to a run queue
    refine h.exact.move (p := .moving c) (q := .runqueue (s.tCpu t)) (l := [t]) (by simp) ?_ ?_ ?_
    · simp [held, State.setPc, hpc]
    · simp [held, State.setPc, State.threadMakeRunnable, State.addRunqueue, State.setState]
    · rintro (d | d | wc | d | d) hp hq
      · by_cases hd : d = c
        · subst hd
          simp [held, Left, State.setPc, State.threadMakeRunnable, State.addRunqueue,
            State.setState, hpc]
        · simp [held, Left, State.setPc, State.threadMakeRunnable, State.addRunqueue,
            State.setState, Function.update_of_ne hd]
      · have hd : d ≠ s.tCpu t := fun he => hq (by rw [he])
        simp [held, State.setPc, State.threadMakeRunnable, State.addRunqueue, State.setState,
          Function.update_of_ne hd]
      · rfl
      · rfl
      · have hd : d ≠ c := fun he => hp (by rw [he])
        simp [held, State.setPc, State.threadMakeRunnable, State.addRunqueue, State.setState,
          Function.update_of_ne hd]
  · intro e he
    cases h.exact.unique (p := .zombies e) he ht
  · -- a CPU that is just putting `t` to sleep holds the lock of its run queue
    intro d _ hsleep heq
    subst heq
    rw [h.cur d, State.unlocked, hsleep] at hlock
    cases hlock

/-! ### Leaving the CPU and coming back

The three ways of giving up the CPU put the current thread in its place and go to `switching`. From
there `choose` sets the state of that thread and picks the next one; `resume` is what the next one
does first.
-/

/-- `thread_switch` sets the state of the thread it has put in its place. -/
theorem inv_setState_switching (h : Inv s) {st : Threadstate} (hpc : s.pc c = .switching st) :
    Inv (s.setState (s.curthread c) st) := by
  have hat := h.atPc c
  rw [hpc] at hat
  have hvictims : ∀ d, s.curthread c ∉ (s.pc d).victims := by
    intro d hd
    have hdc : d = c := (h.victims d _ hd).1.symm.trans (h.cur c)
    subst hdc
    rw [hpc] at hd
    exact List.not_mem_nil hd
  -- the list it has been put on is the only one it is on, and wants just this state
  cases st with
  | run => exact hat.elim
  | ready =>
    refine inv_setState h (fun _ _ => rfl) (fun _ _ => rfl) fun d hd => ?_
    cases h.exact.unique (p := .runqueue c) (q := .zombies d) hat hd
  | sleep =>
    refine inv_setState h (fun d hd => ?_) (fun d hd => absurd hd (hvictims d)) fun d hd => ?_
    · exact absurd hd (hat d).1
    · exact absurd hd (hat d).2
  | zombie =>
    refine inv_setState h (fun d hd => ?_) (fun d hd => absurd hd (hvictims d)) fun _ _ => rfl
    cases h.exact.unique (p := .zombies c) (q := .runqueue d) hat hd

omit [DecidableEq T] in
/-- The next thread, or idling. -/
theorem inv_next (h : Inv s) (hleft : Left s c = true) (hlist : (s.pc c).list = [])
    (hz : ∀ u ∈ s.zombies c, s.tState u = .zombie) : Inv (s.next c) := by
  have hrunning : held s (.running c) = [] := by rw [held, hleft, if_pos rfl]
  have hzombie : ∀ (pc : Pc T W) (u' : T), ∀ u ∈ s.zombies c, s.tCpu u = c ∧
      (s.tState u = .zombie ∨ pc = .switching .zombie ∧ u' = u) := fun pc u' u hu =>
    ⟨(h.zombie c u hu).1, Or.inl (hz u hu)⟩
  unfold State.next
  split
  · -- the run queue is empty: the CPU idles, and its current thread stays where it was put
    next hq =>
    -- no list changes; the CPU was at no place and still is, as it idles
    refine inv_move h (c := c) (k := .run) rfl rfl rfl rfl rfl rfl
      (fun d hd => ⟨rfl, Function.update_of_ne hd .., rfl, rfl⟩) ?_ (h.ready c)
      (by simp [Pc.victims])
      (hzombie _ _) ⟨h.cur c, h.curLive c⟩ trivial
    refine h.exact.perm ?_
    rintro (d | d | wc | d | d)
    · rcases eq_or_ne d c with rfl | hd
      · rw [hrunning]
        simp [held, Left]
      · simp [held, Left, State.setPc, Function.update_of_ne hd]
    · exact List.Perm.refl _
    · exact List.Perm.refl _
    · exact List.Perm.refl _
    · rcases eq_or_ne d c with rfl | hd
      · simp [held, State.setPc, hlist]
      · simp [held, State.setPc, Function.update_of_ne hd]
  · -- the first thread of the run queue becomes the current one
    next next rest hq =>
    have hmem : ∀ u ∈ next :: rest, s.tCpu u = c ∧ s.tState u = .ready := by
      intro u hu
      rw [← hq] at hu
      exact h.ready c u hu
    have hnext := hmem next List.mem_cons_self
    have hlive : s.life next = .live :=
      h.exact.inUse (p := .runqueue c) (by rw [held, hq]; exact List.mem_cons_self)
    refine inv_move h (c := c) (k := .resumed) rfl rfl rfl rfl rfl rfl (fun d hd => ?_) ?_
      (fun u hu => ?_) (by simp [Pc.victims]) (hzombie _ _) ?_ (Function.update_self ..)
    · exact ⟨Function.update_of_ne hd .., Function.update_of_ne hd ..,
        Function.update_of_ne hd .., rfl⟩
    · refine h.exact.move (p := .runqueue c) (q := .running c) (l := [next]) (by simp) ?_ ?_ ?_
      · simp [held, hq]
      · rw [hrunning]
        simp [held, Left, State.setPc]
      · rintro (d | d | wc | d | d) hp hq
        · have hd : d ≠ c := fun he => hq (by rw [he])
          simp [held, Left, State.setPc, Function.update_of_ne hd]
        · have hd : d ≠ c := fun he => hp (by rw [he])
          simp [held, Function.update_of_ne hd]
        · rfl
        · rfl
        · rcases eq_or_ne d c with rfl | hd
          · simp [held, State.setPc, hlist]
          · simp [held, State.setPc, Function.update_of_ne hd]
    · refine hmem u (List.mem_cons_of_mem _ ?_)
      simpa using hu
    · simp only [Function.update_self]
      exact ⟨hnext.1, hlive⟩

omit [DecidableEq T] in
/-- `thread_exit`: the current thread goes on the list of zombies. Its state is set in the next
step. -/
theorem inv_exit (h : Inv s) (hpc : s.pc c = .run) (hidle : s.isidle c = false) :
    Inv { s.setPc c (.switching .zombie) with
          zombies := Function.update s.zombies c (s.zombies c ++ [s.curthread c]) } := by
  have hleft := left_of_run hpc hidle
  refine inv_move h (c := c) (k := .switching .zombie) rfl rfl rfl rfl rfl rfl
    (fun d hd => ⟨rfl, rfl, rfl, Function.update_of_ne hd ..⟩) ?_ (h.ready c) (by simp [Pc.victims])
    (fun u hu => ?_) ⟨h.cur c, h.curLive c⟩ ?_
  · refine h.exact.move (p := .running c) (q := .zombies c) (l := [s.curthread c]) (by simp)
      ?_ ?_ ?_
    · rw [held, hleft]
      simp [held, Left, State.setPc]
    · simp [held]
    · rintro (d | d | wc | d | d) hp hq
      · have hd : d ≠ c := fun he => hp (by rw [he])
        simp [held, Left, State.setPc, Function.update_of_ne hd]
      · rfl
      · rfl
      · have hd : d ≠ c := fun he => hq (by rw [he])
        simp [held, Function.update_of_ne hd]
      · rcases eq_or_ne d c with rfl | hd
        · simp [held, State.setPc, hpc]
        · simp [held, State.setPc, Function.update_of_ne hd]
  · -- the new zombie is the one that may still lack its state
    simp only [Function.update_self] at hu
    rcases List.mem_append.mp hu with hu | hu
    · exact h.zombie_of_ne (by simp [hpc]) hu
    · rw [List.mem_singleton.mp hu]
      exact ⟨h.cur c, Or.inr ⟨rfl, rfl⟩⟩
  · change s.curthread c ∈ Function.update s.zombies c _ c
    rw [Function.update_self]
    exact List.mem_append_right _ List.mem_cons_self

/-- The tail of `thread_switch`. -/
theorem inv_resume (h : Inv s) (hpc : s.pc c = .resumed) :
    Inv ((s.setState (s.curthread c) .run).setPc c .exorcise) := by
  have hidle : s.isidle c = false := by
    have := h.atPc c
    rwa [hpc] at this
  have hleft : Left s c = false := by
    rw [Left, hpc, hidle]
    rfl
  -- the thread runs and is on no list, so that none minds its state
  have hrun : Inv (s.setState (s.curthread c) .run) := by
    refine inv_setState h (fun d hd => ?_) (fun d hd => ?_) fun d hd => ?_
    · cases h.running hleft (p := .runqueue d) hd
    · cases h.running hleft (p := .moving d) (Pc.mem_list_of_mem_victims hd)
    · cases h.running hleft (p := .zombies d) hd
  have hpc' : (s.setState (s.curthread c) .run).pc c = .resumed := hpc
  refine inv_setPc hrun ?_ ?_ (by simp [Pc.victims]) ?_ hidle
  · rw [hpc']
    exact List.Perm.refl _
  · rw [hpc']
    rfl
  · rw [hpc']
    simp

omit [DecidableEq T] in
/-- The current thread of no CPU is on the zombie list of a CPU that looks through it. -/
theorem Inv.cur_ne_zombie (h : Inv s) (hpc : s.pc c = .exorcise) (ht : t ∈ s.zombies c)
    (d : Fin n) :
    s.curthread d ≠ t := by
  rintro rfl
  have hd : d = c := (h.cur d).symm.trans (h.zombie c _ ht).1
  subst hd
  have hidle : s.isidle d = false := by
    have := h.atPc d
    rwa [hpc] at this
  have hleft : Left s d = false := by
    rw [Left, hpc, hidle]
    rfl
  cases h.running hleft (p := .zombies d) ht

/-- `exorcise` destroys the first zombie. Both its assertions hold: it is not the current thread,
and it has the state of a zombie. -/
theorem inv_exorcise (h : Inv s) (hpc : s.pc c = .exorcise) {zombies : List T}
    (hz : s.zombies c = t :: zombies) :
    Inv { s.threadDestroy t (t ≠ s.curthread c ∧ s.tState t = .zombie) with
          zombies := Function.update s.zombies c zombies } := by
  have ht : t ∈ s.zombies c := by
    rw [hz]
    exact List.mem_cons_self
  have hlive : s.life t = .live := h.exact.inUse (p := Place.zombies c) ht
  -- the state was set before this CPU came here
  have hst : s.tState t = .zombie :=
    (h.zombie c t ht).2.resolve_right fun hsw => by
      rw [hpc] at hsw
      cases hsw.1
  have hcur := h.cur_ne_zombie hpc ht
  have hsub : ∀ d, ∀ u ∈ Function.update s.zombies c zombies d, u ∈ s.zombies d := by
    intro d u hu
    rcases eq_or_ne d c with rfl | hd
    · rw [Function.update_self] at hu
      rw [hz]
      exact List.mem_cons_of_mem _ hu
    · rwa [Function.update_of_ne hd] at hu
  refine ⟨?_, h.ready, h.victims, fun d u hu => h.zombie d u (hsub d u hu), h.cur, fun d => ?_,
    fun d => ?_, fun u => ?_, ?_⟩
  · -- one thread less, and it was on that list only
    refine h.exact.drop (p := .zombies c) (t := t) ?_ ?_ fun u => ?_
    · simp [held, hz]
    · rintro (d | d | wc | d | d) hd
      · rfl
      · rfl
      · rfl
      · have hd : d ≠ c := fun he => hd (by rw [he])
        simp [held, Function.update_of_ne hd]
      · rfl
    · rcases eq_or_ne u t with rfl | hu
      · simp [State.threadDestroy]
      · simp [State.threadDestroy, hu]
  · exact (Function.update_of_ne (hcur d) ..).trans (h.curLive d)
  · -- other CPUs do not look at this list, except one whose thread goes to sleep: it is not on it
    rcases eq_or_ne d c with rfl | hd
    · have hat := h.atPc d
      change At _ d (s.pc d)
      rw [hpc] at hat ⊢
      exact hat
    · refine (h.atPc d).frame rfl rfl ⟨[], (List.append_nil _).symm⟩ (Function.update_of_ne hd ..)
        fun hsleep e => ?_
      have hat := h.atPc d
      rw [hsleep] at hat
      exact ⟨(hat e).1, fun hmem => (hat e).2 (hsub e _ hmem)⟩
  · rcases eq_or_ne u t with rfl | hu
    · have := h.destroyed u
      rw [hlive] at this
      simp [State.threadDestroy, this]
    · simpa [State.threadDestroy, Function.update_of_ne hu] using h.destroyed u
  · simp [State.threadDestroy, h.fault, hst, (hcur c).symm]

/-! ### Wait channels

A thread on a channel is on no other list, and nobody looks at its state before it is taken off. So
the lemmas about moves between places are all that is needed.
-/

variable [DecidableEq W]

omit [DecidableEq T] in
/-- `wchan_sleep`: the current thread goes to the end of the channel, and the channel is unlocked.
From now on another CPU may take it off again. -/
theorem inv_sleep (h : Inv s) {wc : W} (hpc : s.pc c = .run) (hidle : s.isidle c = false) :
    Inv { s.setPc c (.switching .sleep) with
          wcThreads := Function.update s.wcThreads wc (s.wcThreads wc ++ [s.curthread c]) } := by
  have hleft := left_of_run hpc hidle
  refine inv_move h (c := c) (k := .switching .sleep) rfl rfl rfl rfl rfl rfl
    (fun d hd => ⟨rfl, rfl, rfl, rfl⟩) ?_ (h.ready c) (by simp [Pc.victims])
    (fun u hu => h.zombie_of_ne (by simp [hpc]) hu) ⟨h.cur c, h.curLive c⟩ fun d => ?_
  · refine h.exact.move (p := .running c) (q := .wchan wc) (l := [s.curthread c]) (by simp) ?_ ?_ ?_
    · rw [held, hleft]
      simp [held, Left, State.setPc]
    · simp [held]
    · rintro (d | d | wc' | d | d) hp hq
      · have hd : d ≠ c := fun he => hp (by rw [he])
        simp [held, Left, State.setPc, Function.update_of_ne hd]
      · rfl
      · have hwc : wc' ≠ wc := fun he => hq (by rw [he])
        simp [held, Function.update_of_ne hwc]
      · rfl
      · rcases eq_or_ne d c with rfl | hd
        · simp [held, State.setPc, hpc]
        · simp [held, State.setPc, Function.update_of_ne hd]
  · -- it ran until now, so it was on no run queue and is no zombie
    refine ⟨fun hd => ?_, fun hd => ?_⟩
    · cases h.running hleft (p := .runqueue d) hd
    · cases h.running hleft (p := .zombies d) hd

omit [DecidableEq T] in
/-- The threads `list` are taken off a wait channel. -/
theorem inv_wake (h : Inv s) {wc : W} {list rest : List T} (hpc : s.pc c = .run)
    (hwc : s.wcThreads wc = list ++ rest) :
    Inv { s.setPc c (.waking wc list) with
          wcThreads := Function.update s.wcThreads wc rest } := by
  refine inv_move h (c := c) (k := .waking wc list) rfl rfl rfl rfl rfl rfl
    (fun d hd => ⟨rfl, rfl, rfl, rfl⟩) ?_ (h.ready c) (by simp [Pc.victims])
    (fun u hu => h.zombie_of_ne (by simp [hpc]) hu) ⟨h.cur c, h.curLive c⟩ trivial
  refine h.exact.move (p := .wchan wc) (q := .moving c) (l := list) (by simp) ?_ ?_ ?_
  · simp [held, hwc]
  · simp [held, State.setPc, hpc]
  · rintro (d | d | wc' | d | d) hp hq
    · rcases eq_or_ne d c with rfl | hd
      · simp [held, Left, State.setPc, hpc]
      · simp [held, Left, State.setPc, Function.update_of_ne hd]
    · rfl
    · have hne : wc' ≠ wc := fun he => hp (by rw [he])
      simp [held, Function.update_of_ne hne]
    · rfl
    · have hd : d ≠ c := fun he => hq (by rw [he])
      simp [held, State.setPc, Function.update_of_ne hd]

end Thread

end Os161
