import Os161.Thread.Places

/-!
# Threads sent to other CPUs

`thread_consider_migration` counts the threads on all run queues, takes as many as its CPU has too
many from the end of its own queue, and gives them to CPUs that have fewer. It holds one run queue's
lock at a time, so that all counts are old by the time they are used.

## What could go wrong

The number of threads to take is computed from the length of the queue a while ago. Nobody but the
CPU itself takes threads off its queue, so it has not become shorter since, and `threadlist_remtail`
always finds one: this is what `At` says at `count` and `take`. In the inner loop the number still
to send is at most that of the victims, so that `threadlist_remhead` finds one as well.

The current thread of the CPU can be among the victims. It must not be sent away, as it is still
running here. It goes back to the end of the list instead, which counts as one sent. What is left at
the end is put back on the CPU's own queue.

## What is deliberately absent

How many threads are sent, and whether the load is any better after it: `Thread.Migration` counts
them.

## Main results

* `takeVictims_spec` — the loop that takes the victims splits the run queue
* `inv_sendLoop`, `inv_migrate` — the invariant
-/

namespace Os161

namespace Thread

variable {n : ℕ} {T W : Type} [DecidableEq T] {s : State n T W} {c d : Fin n} {t : T}

omit [DecidableEq T] in
/-- The loop that takes the victims splits the run queue. -/
theorem takeVictims_spec {k : ℕ} {queue : List T} (victims : List T) (h : k ≤ queue.length) :
    ∃ queue' taken, takeVictims k queue victims = some (queue', taken ++ victims) ∧
      queue = queue' ++ taken ∧ taken.length = k := by
  induction k generalizing queue victims with
  | zero => exact ⟨queue, [], rfl, (List.append_nil _).symm, rfl⟩
  | succ k ih =>
    obtain ⟨init, last, rfl⟩ : ∃ init last, queue = init ++ [last] := by
      rcases List.eq_nil_or_concat queue with rfl | ⟨init, last, rfl⟩
      · cases h
      · exact ⟨init, last, List.concat_eq_append⟩
    have hlen : k ≤ init.length := by
      rw [List.length_append, List.length_singleton] at h
      omega
    obtain ⟨queue', taken, htake, rfl, hk⟩ := ih (last :: victims) hlen
    refine ⟨queue', taken ++ [last], ?_, ?_, ?_⟩
    · rw [takeVictims, List.getLast?_concat]
      dsimp only
      rw [List.dropLast_concat, htake, List.append_assoc]
      rfl
    · rw [List.append_assoc]
    · rw [List.length_append, hk]
      rfl

omit [DecidableEq T] in
/-- The victims leave the run queue for the private list. -/
theorem inv_take (h : Inv s) {toSend oneShare : ℕ} (hpc : s.pc c = .take toSend oneShare)
    {queue victims : List T} (hq : s.runqueue c = queue ++ victims)
    (hlen : victims.length = toSend) :
    Inv { s.setPc c (.send 0 toSend oneShare victims) with
          runqueue := Function.update s.runqueue c queue } := by
  have hmem : ∀ u, u ∈ queue ∨ u ∈ victims → s.tCpu u = c ∧ s.tState u = .ready := fun u hu =>
    h.ready c u (by rw [hq]; exact List.mem_append.mpr hu)
  refine inv_move h (c := c) (k := .send 0 toSend oneShare victims) rfl rfl rfl rfl rfl rfl
    (fun d hd => ⟨rfl, rfl, Function.update_of_ne hd .., rfl⟩) ?_ (fun u hu => ?_)
    (fun u hu => hmem u (Or.inr hu)) (fun u hu => h.zombie_of_ne (by simp [hpc]) hu)
    ⟨h.cur c, h.curLive c⟩ (Nat.le_of_eq hlen.symm)
  · refine h.exact.move (p := .runqueue c) (q := .moving c) (l := victims) (by simp) ?_ ?_ ?_
    · simpa [held, hq] using List.perm_append_comm
    · simp [held, State.setPc, hpc]
    · rintro (d | d | wc | d | d) hp hq
      · rcases eq_or_ne d c with rfl | hd
        · simp [held, Left, State.setPc, hpc]
        · simp [held, Left, State.setPc, Function.update_of_ne hd]
      · have hd : d ≠ c := fun he => hp (by rw [he])
        simp [held, Function.update_of_ne hd]
      · rfl
      · rfl
      · have hd : d ≠ c := fun he => hq (by rw [he])
        simp [held, State.setPc, Function.update_of_ne hd]
  · refine hmem u (Or.inl ?_)
    simpa using hu

omit [DecidableEq T] in
/-- What could not be sent goes back on the CPU's own run queue. -/
theorem inv_putBack (h : Inv s) {victims : List T} (hpc : s.pc c = .putBack victims) :
    Inv ((s.setPc c .run).addRunqueue c victims) := by
  refine inv_move h (c := c) (k := .run) rfl rfl rfl rfl rfl rfl
    (fun d hd => ⟨rfl, rfl, Function.update_of_ne hd .., rfl⟩) ?_ (fun u hu => ?_)
    (by simp [Pc.victims])
    (fun u hu => h.zombie_of_ne (by simp [hpc]) hu) ⟨h.cur c, h.curLive c⟩ trivial
  · refine h.exact.move (p := .moving c) (q := .runqueue c) (l := victims) (by simp) ?_ ?_ ?_
    · simp [held, State.setPc, State.addRunqueue, hpc]
    · simp [held, State.setPc, State.addRunqueue]
    · rintro (d | d | wc | d | d) hp hq
      · rcases eq_or_ne d c with rfl | hd
        · simp [held, Left, State.setPc, State.addRunqueue, hpc]
        · simp [held, Left, State.setPc, State.addRunqueue, Function.update_of_ne hd]
      · have hd : d ≠ c := fun he => hq (by rw [he])
        simp [held, State.setPc, State.addRunqueue, Function.update_of_ne hd]
      · rfl
      · rfl
      · have hd : d ≠ c := fun he => hp (by rw [he])
        simp [held, State.setPc, State.addRunqueue, Function.update_of_ne hd]
  · have hmem : u ∈ s.runqueue c ++ victims := by
      simpa [State.setPc, State.addRunqueue] using hu
    rcases List.mem_append.mp hmem with hu | hu
    · exact h.ready c u hu
    · refine h.victims c u ?_
      rw [hpc]
      exact hu

/-- A victim other than the current thread goes to another CPU. -/
theorem inv_migrateTo (h : Inv s) {i toSend oneShare : ℕ} (i' toSend' : ℕ) {victims : List T}
    (hpc : s.pc c = .send i toSend oneShare (t :: victims)) (ht : t ≠ s.curthread c)
    (hlen : toSend' ≤ victims.length) :
    Inv ((s.migrateTo d t).setPc c (.send i' toSend' oneShare victims)) := by
  have hmem : t ∈ (s.pc c).victims := by
    rw [hpc]
    exact List.mem_cons_self
  obtain ⟨hcpu, hready⟩ := h.victims c t hmem
  have hplace : t ∈ held s (.moving c) := Pc.mem_list_of_mem_victims hmem
  -- it is no CPU's current thread: it belongs to this one, whose current thread is another
  have hcur : ∀ e, s.curthread e ≠ t := by
    rintro e rfl
    have hec : e = c := (h.cur e).symm.trans hcpu
    exact ht (by rw [hec])
  -- whoever is on another list, or further down this one, is another thread
  have hnodup : t ∉ victims := by
    have := h.exact.nodup (.moving c)
    rw [held, hpc, Pc.list_send] at this
    exact (List.nodup_cons.mp this).1
  have hne : ∀ {p : Place n W} {u : T}, p ≠ .moving c → u ∈ held s p → u ≠ t := by
    rintro p u hp hu rfl
    exact hp (h.exact.unique hu hplace)
  refine ⟨?_, fun e u hu => ?_, fun e u hu => ?_, fun e u hu => ?_, fun e => ?_, h.curLive,
    fun e => ?_, h.destroyed, h.fault⟩
  -- the places: from the private list to the other CPU's run queue
  · refine h.exact.move (p := .moving c) (q := .runqueue d) (l := [t]) (by simp) ?_ ?_ ?_
    · simp [held, State.setPc, hpc]
    · simp [held, State.setPc, State.migrateTo, State.addRunqueue]
    · rintro (e | e | wc | e | e) hp hq
      · rcases eq_or_ne e c with rfl | he
        · simp [held, Left, State.setPc, State.migrateTo, State.addRunqueue, hpc]
        · simp [held, Left, State.setPc, State.migrateTo, State.addRunqueue,
            Function.update_of_ne he]
      · have he : e ≠ d := fun he => hq (by rw [he])
        simp [held, State.setPc, State.migrateTo, State.addRunqueue, Function.update_of_ne he]
      · rfl
      · rfl
      · have he : e ≠ c := fun he => hp (by rw [he])
        simp [held, State.setPc, State.migrateTo, State.addRunqueue, Function.update_of_ne he]
  -- the run queues: `t_cpu` has been set before the thread is added
  · change Function.update s.tCpu t d u = e ∧ s.tState u = .ready
    have hold : u ∈ s.runqueue e → Function.update s.tCpu t d u = e ∧ s.tState u = .ready := by
      intro hu
      rw [Function.update_of_ne (hne (p := .runqueue e) (by simp) hu)]
      exact h.ready e u hu
    rcases eq_or_ne e d with rfl | he
    · have hu : u ∈ s.runqueue e ++ [t] := by
        simpa [State.setPc, State.migrateTo, State.addRunqueue] using hu
      rcases List.mem_append.mp hu with hu | hu
      · exact hold hu
      · rw [List.mem_singleton.mp hu, Function.update_self]
        exact ⟨rfl, hready⟩
    · refine hold ?_
      simpa [State.setPc, State.migrateTo, State.addRunqueue, Function.update_of_ne he] using hu
  -- the victims left over, and those of other CPUs
  · change Function.update s.tCpu t d u = e ∧ s.tState u = .ready
    have hu' : u ∈ (s.pc e).victims ∧ u ≠ t := by
      rcases eq_or_ne e c with rfl | he
      · have huv : u ∈ victims := by
          simpa [State.setPc, Pc.victims] using hu
        rw [hpc]
        refine ⟨List.mem_cons_of_mem _ huv, ?_⟩
        rintro rfl
        exact hnodup huv
      · have hu : u ∈ (s.pc e).victims := by
          simpa [State.setPc, State.migrateTo, State.addRunqueue, Function.update_of_ne he] using hu
        refine ⟨hu, hne (p := .moving e) ?_ (Pc.mem_list_of_mem_victims hu)⟩
        rintro ⟨⟩
        exact he rfl
    rw [Function.update_of_ne hu'.2]
    exact h.victims e u hu'.1
  -- the zombies
  · have hut : u ≠ t := hne (p := .zombies e) (by simp) hu
    obtain ⟨hcpu, hst⟩ := h.zombie e u hu
    refine ⟨(Function.update_of_ne hut ..).trans hcpu, hst.imp_right ?_⟩
    rintro ⟨hsw, hcure⟩
    have he : e ≠ c := by
      rintro rfl
      rw [hpc] at hsw
      cases hsw
    exact ⟨(Function.update_of_ne he ..).trans hsw, hcure⟩
  · exact (Function.update_of_ne (hcur e) ..).trans (h.cur e)
  -- what the CPUs rely on: the other CPU's run queue has grown
  · rcases eq_or_ne e c with rfl | he
    · change At _ e (Function.update s.pc e _ e)
      rw [Function.update_self]
      exact hlen
    · change At _ e (Function.update s.pc c _ e)
      rw [Function.update_of_ne he]
      refine (h.atPc e).frame rfl rfl ?_ rfl fun hsleep e' => ?_
      · rcases eq_or_ne e d with rfl | hed
        · exact ⟨[t], Function.update_self ..⟩
        · exact ⟨[], (Function.update_of_ne hed ..).trans (List.append_nil _).symm⟩
      · -- a thread that is just going to sleep is the current one of its CPU
        have hat := h.atPc e
        rw [hsleep] at hat
        refine ⟨fun hmem => ?_, (hat e').2⟩
        rcases eq_or_ne e' d with rfl | hed
        · have hmem : s.curthread e ∈ s.runqueue e' ++ [t] := by
            simpa [State.setPc, State.migrateTo, State.addRunqueue] using hmem
          rcases List.mem_append.mp hmem with hmem | hmem
          · exact (hat e').1 hmem
          · exact hcur e (List.mem_singleton.mp hmem)
        · refine (hat e').1 ?_
          simpa [State.setPc, State.migrateTo, State.addRunqueue, Function.update_of_ne hed]
            using hmem

/-- The inner loop of `thread_consider_migration`. There is always a victim to take. The induction
is on the number still to be sent; each turn either sends the first victim or shuffles it to the
end. -/
theorem inv_sendLoop {i oneShare : ℕ} (toSend : ℕ) (victims : List T) (s : State n T W)
    (h : Inv (s.setPc c (.send i toSend oneShare victims))) :
    Inv (sendLoop c d i oneShare toSend victims s) := by
  have hset : ∀ (s : State n T W) (pc pc' : Pc T W),
      (s.setPc c pc).setPc c pc' = s.setPc c pc' := by
    intro s pc pc'
    simp [State.setPc]
  -- from one value of the counters to the next, the victims being the same
  have hnext : ∀ {s : State n T W} {i i' k k' : ℕ} {victims victims' : List T},
      Inv (s.setPc c (.send i k oneShare victims)) → victims'.Perm victims →
      k' ≤ victims'.length → Inv (s.setPc c (.send i' k' oneShare victims')) := by
    intro s i i' k k' victims victims' h hperm hk
    have hpc : (s.setPc c (.send i k oneShare victims)).pc c = .send i k oneShare victims :=
      Function.update_self ..
    rw [← hset s (.send i k oneShare victims)]
    refine inv_setPc h ?_ ?_ (fun u hu => ?_) ?_ hk
    · rw [hpc]
      exact hperm
    · rw [hpc]
      rfl
    · refine h.victims c u ?_
      rw [hpc]
      exact hperm.mem_iff.mp hu
    · rw [hpc]
      simp
  have hlen : ∀ {s : State n T W} {k : ℕ} {victims : List T},
      Inv (s.setPc c (.send i k oneShare victims)) → k ≤ victims.length := by
    intro s k victims h
    have := h.atPc c
    simpa [State.setPc, At] using this
  induction toSend generalizing victims s with
  | zero => exact hnext h (List.Perm.refl _) (Nat.zero_le _)
  | succ toSend ih =>
    have hk := hlen h
    unfold sendLoop
    split
    · cases victims with
      | nil => cases hk
      | cons t victims =>
        rw [List.length_cons] at hk
        dsimp only
        split
        · -- the current thread, shuffled to the end
          refine ih _ _ (hnext h ?_ ?_)
          · exact List.perm_append_singleton t victims
          · rw [List.length_append]
            omega
        · next hne =>
          refine ih _ _ ?_
          have hpc : (s.setPc c (.send i (toSend + 1) oneShare (t :: victims))).pc c =
              .send i (toSend + 1) oneShare (t :: victims) := Function.update_self ..
          have := inv_migrateTo (d := d) h i toSend hpc hne (by omega)
          have hcomm : ((s.setPc c (.send i (toSend + 1) oneShare (t :: victims))).migrateTo d
              t).setPc c (.send i toSend oneShare victims) =
              (s.migrateTo d t).setPc c (.send i toSend oneShare victims) := by
            simp [State.setPc, State.migrateTo, State.addRunqueue]
          rwa [hcomm] at this
    · exact hnext h (List.Perm.refl _) hk

/-- One step of `thread_consider_migration`: counting one CPU, taking the victims, sending to one
CPU, or putting back. -/
theorem inv_migrate (h : Inv s) {s' : State n T W} (hs : s.migrate c = some s') : Inv s' := by
  unfold State.migrate at hs
  split at hs
  · next i totalCount myCount hpc =>
    have hat : myCount ≤ (s.runqueue c).length := by
      have := h.atPc c
      rwa [hpc] at this
    -- counting touches no thread
    have hgo : ∀ {pc : Pc T W}, pc.list = [] → pc.isSwitching = false → At s c pc →
        Inv (s.setPc c pc) := fun hlist hsw hat =>
      inv_goto h (by rw [hpc]; rfl) (by rw [hpc]; rfl) hlist hsw hat
    split at hs
    · next hi =>
      split at hs
      · obtain rfl := Option.some.inj hs
        refine hgo rfl rfl ?_
        change (if i = (c : ℕ) then _ else _) ≤ _
        split
        · next heq =>
          have : (⟨i, hi⟩ : Fin n) = c := Fin.ext heq
          rw [this]
        · exact hat
      · cases hs
    · -- all CPUs are counted: nothing to do, or so many to take
      dsimp only at hs
      split at hs
      · obtain rfl := Option.some.inj hs
        exact hgo rfl rfl trivial
      · obtain rfl := Option.some.inj hs
        exact hgo rfl rfl ((Nat.sub_le _ _).trans hat)
  · next toSend oneShare hpc =>
    have hat : toSend ≤ (s.runqueue c).length := by
      have := h.atPc c
      rwa [hpc] at this
    -- the loop never finds the queue empty
    obtain ⟨queue, victims, htake, hq, hlen⟩ := takeVictims_spec [] hat
    rw [htake] at hs
    obtain rfl := Option.some.inj hs
    have := inv_take h hpc hq hlen
    rwa [← List.append_nil victims] at this
  · next i toSend oneShare victims hpc =>
    have hat : toSend ≤ victims.length := by
      have := h.atPc c
      rwa [hpc] at this
    have hvict : ∀ u ∈ victims, s.tCpu u = c ∧ s.tState u = .ready := by
      have := h.victims c
      rwa [hpc] at this
    split at hs
    · split at hs
      · -- this CPU itself is passed over
        obtain rfl := Option.some.inj hs
        refine inv_setPc h ?_ ?_ hvict ?_ hat
        · rw [hpc]
          exact List.Perm.refl _
        · rw [hpc]
          rfl
        · rw [hpc]
          simp
      · split at hs
        · obtain rfl := Option.some.inj hs
          refine inv_sendLoop toSend victims s ?_
          have : s.setPc c (.send i toSend oneShare victims) = s := by
            rw [State.setPc, ← hpc, Function.update_eq_self]
          rwa [this]
        · cases hs
    · obtain rfl := Option.some.inj hs
      refine inv_setPc h ?_ ?_ hvict ?_ trivial
      · rw [hpc]
        exact List.Perm.refl _
      · rw [hpc]
        rfl
      · rw [hpc]
        simp
  · next victims hpc =>
    obtain rfl := Option.some.inj hs
    exact inv_putBack h hpc
  · cases hs

end Thread

end Os161
