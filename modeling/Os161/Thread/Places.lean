import Os161.Lib.Places
import Os161.Thread.Switch

/-!
# Places, and the invariant

A thread is always on the move between run queues, wait channels, zombie lists and CPUs, under
different locks. `held` lists the threads at each place, and all steps move threads from one place
to another, bring one in or take one out.

## When a CPU has a current thread

`curcpu->c_curthread` is written late: `thread_switch` puts the current thread on a queue first,
looks for the next one, and may idle in between for as long as there is none. All that time the
field still has the old thread, which may meanwhile run on another CPU. So the field alone does not
say who runs. `Left s c` says that CPU `c` has already put its current thread elsewhere and has not
picked the next: it idles, or is about to look at its run queue. Only then is the current thread of
a CPU also somewhere else, and place `running c` is empty.

## The private list of a CPU

`wchan_wakeall` and `thread_consider_migration` take threads off a list into one of their own, on
the stack. Nobody else can see those, and they are at a place of their own, `moving c`.

## The invariant

`Inv` has the threads at exactly one place each (`Places.Exact`, of `Lib.Places`), what is known of
the threads on each kind of list, and, in `atPc`, what a CPU knows at the point of the code it is
at. Another CPU may move in between; `At.frame` says what it may do without making that false.

## What is deliberately absent

No step is taken here. `Thread.Dispatch` and `Thread.Victims` have the steps, and `Thread.Placement`
puts them together.

## Main definitions

* `Place`, `Left`, `held`
* `At`, `Inv` — the invariant

## Main results

* `inv_setPc`, `inv_goto` — a CPU goes on without touching a thread
* `inv_move` — what is left to show where a CPU moves threads between places of its own
* `inv_setState`, `inv_offstage` — writes to fields of a thread
-/

namespace Os161

namespace Thread

variable {n : ℕ} {T W : Type}

/-! ### Places -/

/-- Where a thread can be. -/
inductive Place (n : ℕ) (W : Type) where
  /-- Running on a CPU. -/
  | running (c : Fin n)
  /-- On a run queue. -/
  | runqueue (c : Fin n)
  /-- On a wait channel. -/
  | wchan (wc : W)
  /-- On a zombie list. -/
  | zombies (c : Fin n)
  /-- On the private list of a CPU. -/
  | moving (c : Fin n)

/-- CPU `c` has put its current thread elsewhere and not yet picked the next. -/
def Left (s : State n T W) (c : Fin n) : Bool := s.isidle c || (s.pc c).isSwitching

/-- The threads at a place. -/
def held (s : State n T W) : Place n W → List T
  | .running c => if Left s c then [] else [s.curthread c]
  | .runqueue c => s.runqueue c
  | .wchan wc => s.wcThreads wc
  | .zombies c => s.zombies c
  | .moving c => (s.pc c).list

/-! ### The invariant -/

/-- What holds of CPU `c` at a point of the code. -/
def At (s : State n T W) (c : Fin n) : Pc T W → Prop
  -- `thread_switch` is never called with `S_RUN`
  | .switching .run => False
  | .switching .ready => s.curthread c ∈ s.runqueue c
  | .switching .sleep => ∀ d, s.curthread c ∉ s.runqueue d ∧ s.curthread c ∉ s.zombies d
  | .switching .zombie => s.curthread c ∈ s.zombies c
  -- `c_isidle` has been cleared by whoever picked the thread
  | .resumed => s.isidle c = false
  | .exorcise => s.isidle c = false
  -- the run queue has only grown since it was counted
  | .count _ _ myCount => myCount ≤ (s.runqueue c).length
  | .take toSend _ => toSend ≤ (s.runqueue c).length
  | .send _ toSend _ victims => toSend ≤ victims.length
  | _ => True

/-- Whenever no CPU is inside a section of a lock: each live thread is at one place, and the lists
and the places in the code agree with what the threads themselves have written down. -/
structure Inv (s : State n T W) : Prop where
  exact : Places.Exact (held s) (fun t => s.life t = .live)
  ready : ∀ c t, t ∈ s.runqueue c → s.tCpu t = c ∧ s.tState t = .ready
  victims : ∀ c t, t ∈ (s.pc c).victims → s.tCpu t = c ∧ s.tState t = .ready
  /-- The state of a zombie is set a little after it has been put on the list. -/
  zombie : ∀ c t, t ∈ s.zombies c → s.tCpu t = c ∧
    (s.tState t = .zombie ∨ s.pc c = .switching .zombie ∧ s.curthread c = t)
  /-- Also of a thread the CPU has left: it is sent to another CPU only by
  `thread_consider_migration`, which leaves out the current thread. -/
  cur : ∀ c, s.tCpu (s.curthread c) = c
  curLive : ∀ c, s.life (s.curthread c) = .live
  /-- What a CPU has made sure of it can rely on. -/
  atPc : ∀ c, At s c (s.pc c)
  destroyed : ∀ t, s.destroyed t = if s.life t = .dead then 1 else 0
  fault : s.fault = false

variable {s : State n T W} {c d : Fin n} {t : T}

/-- No thread is the current one of two CPUs, not even of one that has left it. -/
theorem Inv.cur_injective (h : Inv s) (hcd : s.curthread c = s.curthread d) : c = d := by
  rw [← h.cur c, hcd, h.cur d]

/-- The current thread of a CPU that has not left it is nowhere else. -/
theorem Inv.running (h : Inv s) (hleft : Left s c = false) {p : Place n W}
    (hp : s.curthread c ∈ held s p) : p = .running c :=
  h.exact.unique hp (by simp [held, hleft])

/-- The victims of a migration are on the private list. -/
theorem Pc.mem_list_of_mem_victims {pc : Pc T W} (h : t ∈ pc.victims) : t ∈ pc.list := by
  cases pc <;> first | exact h | exact absurd h List.not_mem_nil

/-- A thread that is on none of the lists any more, or not yet, has no place. -/
theorem Inv.not_mem (h : Inv s) (ht : s.life t ≠ .live) (p : Place n W) : t ∉ held s p :=
  fun hp => ht (h.exact.inUse hp)

/-- A CPU goes on without touching a thread. -/
theorem inv_setPc (h : Inv s) {pc : Pc T W} (hlist : pc.list.Perm (s.pc c).list)
    (hsw : pc.isSwitching = (s.pc c).isSwitching)
    (hvictims : ∀ t ∈ pc.victims, s.tCpu t = c ∧ s.tState t = .ready)
    (hz : s.pc c ≠ .switching .zombie) (hat : At s c pc) : Inv (s.setPc c pc) where
  exact := by
    refine h.exact.perm fun p => ?_
    cases p with
    | running d =>
      by_cases hd : d = c
      · subst hd
        simp [held, Left, State.setPc, hsw]
      · simp [held, Left, State.setPc, Function.update_of_ne hd]
    | moving d =>
      by_cases hd : d = c
      · subst hd
        simpa [held, State.setPc] using hlist
      · simp [held, State.setPc, Function.update_of_ne hd]
    | _ => exact List.Perm.refl _
  ready := h.ready
  victims d t ht := by
    by_cases hd : d = c
    · subst hd
      simp only [State.setPc, Function.update_self] at ht
      exact hvictims t ht
    · simp only [State.setPc, Function.update_of_ne hd] at ht
      exact h.victims d t ht
  zombie d t ht := by
    obtain ⟨hcpu, hst⟩ := h.zombie d t ht
    refine ⟨hcpu, hst.imp_right ?_⟩
    rintro ⟨hpc, hcur⟩
    -- it is another CPU whose thread has not got its state yet
    have hd : d ≠ c := by
      rintro rfl
      exact hz hpc
    exact ⟨by simpa [State.setPc, Function.update_of_ne hd] using hpc, hcur⟩
  cur := h.cur
  curLive := h.curLive
  atPc d := by
    by_cases hd : d = c
    · subst hd
      simp only [State.setPc, Function.update_self]
      cases pc <;> exact hat
    · simp only [State.setPc, Function.update_of_ne hd]
      have := h.atPc d
      cases hpc : s.pc d <;> rw [hpc] at this <;> exact this
  destroyed := h.destroyed
  fault := h.fault

/-- Going from one point to another with empty hands. -/
theorem inv_goto (h : Inv s) {pc : Pc T W} (hlist : (s.pc c).list = [])
    (hsw : (s.pc c).isSwitching = false) (hlist' : pc.list = []) (hsw' : pc.isSwitching = false)
    (hat : At s c pc) : Inv (s.setPc c pc) := by
  refine inv_setPc h ?_ (hsw'.trans hsw.symm) (fun u hu => ?_) ?_ hat
  · rw [hlist, hlist']
  · have := Pc.mem_list_of_mem_victims hu
    rw [hlist'] at this
    exact absurd this List.not_mem_nil
  · intro hpc
    rw [hpc] at hsw
    cases hsw

/-- What another CPU relies on: its run queue only grows, and nothing happens to its current
thread. -/
theorem At.frame {s' : State n T W} {pc : Pc T W} (h : At s d pc)
    (hcur : s'.curthread d = s.curthread d) (hidle : s'.isidle d = s.isidle d)
    (hrq : ∃ l, s'.runqueue d = s.runqueue d ++ l) (hz : s'.zombies d = s.zombies d)
    (hsleep : pc = .switching .sleep →
      ∀ e, s.curthread d ∉ s'.runqueue e ∧ s.curthread d ∉ s'.zombies e) : At s' d pc := by
  obtain ⟨l, hl⟩ := hrq
  -- only the places at which the CPU has put a thread somewhere, or has counted, ask for anything
  cases pc with
  | switching newstate =>
    cases newstate with
    | run => exact h
    | ready =>
      change s'.curthread d ∈ s'.runqueue d
      rw [hcur, hl]
      exact List.mem_append_left _ h
    | sleep =>
      change ∀ e, s'.curthread d ∉ s'.runqueue e ∧ s'.curthread d ∉ s'.zombies e
      rw [hcur]
      exact hsleep rfl
    | zombie =>
      change s'.curthread d ∈ s'.zombies d
      rw [hcur, hz]
      exact h
  | resumed => exact hidle.trans h
  | exorcise => exact hidle.trans h
  | count i totalCount myCount =>
    change myCount ≤ (s'.runqueue d).length
    rw [hl, List.length_append]
    exact Nat.le_add_right_of_le h
  | take toSend oneShare =>
    change toSend ≤ (s'.runqueue d).length
    rw [hl, List.length_append]
    exact Nat.le_add_right_of_le h
  | send i toSend oneShare victims => exact h
  | run => trivial
  | waking wc list => trivial
  | putBack victims => trivial

/-! ### Moving threads -/

/-- A CPU that executes a thread has not left it. -/
theorem left_of_run (hpc : s.pc c = .run) (hidle : s.isidle c = false) : Left s c = false := by
  rw [Left, hpc, hidle]
  rfl

/-- CPU `c` moves threads between its own places and wait channels. The other CPUs have what they
had, and the fields of the threads are not written; what remains is about the lists of CPU `c`. -/
theorem inv_move (h : Inv s) {s' : State n T W} {k : Pc T W}
    (hpc : s'.pc = Function.update s.pc c k) (hcpu : s'.tCpu = s.tCpu)
    (hstate : s'.tState = s.tState) (hlife : s'.life = s.life)
    (hdestroyed : s'.destroyed = s.destroyed) (hfault : s'.fault = s.fault)
    (hothers : ∀ d, d ≠ c → s'.curthread d = s.curthread d ∧ s'.isidle d = s.isidle d ∧
      s'.runqueue d = s.runqueue d ∧ s'.zombies d = s.zombies d)
    (hexact : Places.Exact (held s') fun u => s.life u = .live)
    (hready : ∀ u ∈ s'.runqueue c, s.tCpu u = c ∧ s.tState u = .ready)
    (hvictims : ∀ u ∈ k.victims, s.tCpu u = c ∧ s.tState u = .ready)
    (hzombie : ∀ u ∈ s'.zombies c, s.tCpu u = c ∧
      (s.tState u = .zombie ∨ k = .switching .zombie ∧ s'.curthread c = u))
    (hcur : s.tCpu (s'.curthread c) = c ∧ s.life (s'.curthread c) = .live) (hat : At s' c k) :
    Inv s' := by
  have hpcd : ∀ d, d ≠ c → s'.pc d = s.pc d := fun d hd => by rw [hpc, Function.update_of_ne hd]
  have hpcc : s'.pc c = k := by rw [hpc, Function.update_self]
  refine ⟨by rwa [hlife], fun d u hu => ?_, fun d u hu => ?_, fun d u hu => ?_, fun d => ?_,
    fun d => ?_, fun d => ?_, by rw [hdestroyed, hlife]; exact h.destroyed, hfault.trans h.fault⟩
  -- field by field, CPU `c` and the others
  all_goals rcases eq_or_ne d c with rfl | hd
  · rw [hcpu, hstate]
    exact hready u hu
  · rw [(hothers d hd).2.2.1] at hu
    rw [hcpu, hstate]
    exact h.ready d u hu
  · rw [hpcc] at hu
    rw [hcpu, hstate]
    exact hvictims u hu
  · rw [hpcd d hd] at hu
    rw [hcpu, hstate]
    exact h.victims d u hu
  · rw [hcpu, hstate, hpcc]
    exact hzombie u hu
  · rw [(hothers d hd).2.2.2] at hu
    rw [hcpu, hstate, hpcd d hd, (hothers d hd).1]
    exact h.zombie d u hu
  · rw [hcpu]
    exact hcur.1
  · rw [hcpu, (hothers d hd).1]
    exact h.cur d
  · rw [hlife]
    exact hcur.2
  · rw [hlife, (hothers d hd).1]
    exact h.curLive d
  · rw [hpcc]
    exact hat
  · obtain ⟨hc, hi, hq, hz⟩ := hothers d hd
    rw [hpcd d hd]
    refine (h.atPc d).frame hc hi ⟨[], by rw [hq, List.append_nil]⟩ hz fun hsleep e => ?_
    have hatd := h.atPc d
    rw [hsleep] at hatd
    -- the current thread of CPU `d` cannot have come to CPU `c`
    rcases eq_or_ne e c with rfl | he
    · refine ⟨fun hmem => ?_, fun hmem => ?_⟩
      · exact hd ((h.cur d).symm.trans (hready _ hmem).1)
      · exact hd ((h.cur d).symm.trans (hzombie _ hmem).1)
    · rw [(hothers e he).2.2.1, (hothers e he).2.2.2]
      exact hatd e

/-- The zombies of a CPU that is not just making one. -/
theorem Inv.zombie_of_ne (h : Inv s) (hpc : s.pc c ≠ .switching .zombie) {pc : Pc T W} {u u' : T}
    (hu : u ∈ s.zombies c) :
    s.tCpu u = c ∧ (s.tState u = .zombie ∨ pc = .switching .zombie ∧ u' = u) :=
  ⟨(h.zombie c u hu).1, Or.inl ((h.zombie c u hu).2.resolve_right fun hz => hpc hz.1)⟩

/-! ### Fields of a thread -/

variable [DecidableEq T]

/-- A thread that is not live has no part in anything. -/
theorem inv_offstage (h : Inv s) (ht : s.life t ≠ .live) {l : Life} (hl : l ≠ .live) (cpu : Fin n)
    (st : Threadstate) {k : ℕ} (hk : k = if l = .dead then 1 else 0) :
    Inv { s with
          life := Function.update s.life t l
          tCpu := Function.update s.tCpu t cpu
          tState := Function.update s.tState t st
          destroyed := Function.update s.destroyed t k } := by
  have hcur : ∀ d, s.curthread d ≠ t := by
    rintro d rfl
    exact ht (h.curLive d)
  -- so no list has it, and all that is known of lists is about other threads
  have hne : ∀ (p : Place n W) (u : T), u ∈ held s p → u ≠ t := by
    rintro p u hu rfl
    exact h.not_mem ht p hu
  refine ⟨?_, ?_, ?_, ?_, ?_, ?_, ?_, ?_, h.fault⟩
  · have hlive : (fun u => Function.update s.life t l u = .live) = fun u => s.life u = .live := by
      funext u
      by_cases hu : u = t
      · subst hu
        simp [hl, ht]
      · simp [Function.update_of_ne hu]
    have := h.exact
    rwa [← hlive] at this
  · intro d u hu
    have hut := hne (.runqueue d) u hu
    simpa [Function.update_of_ne hut] using h.ready d u hu
  · intro d u hu
    have hut := hne (.moving d) u (Pc.mem_list_of_mem_victims hu)
    simpa [Function.update_of_ne hut] using h.victims d u hu
  · intro d u hu
    have hut := hne (.zombies d) u hu
    simpa [Function.update_of_ne hut] using h.zombie d u hu
  · intro d
    simpa [Function.update_of_ne (hcur d)] using h.cur d
  · intro d
    simpa [Function.update_of_ne (hcur d)] using h.curLive d
  · intro d
    exact (h.atPc d).frame rfl rfl ⟨[], (List.append_nil _).symm⟩ rfl fun hpc => by
      have := h.atPc d
      rwa [hpc] at this
  · intro u
    by_cases hu : u = t
    · subst hu
      simpa using hk
    · simpa [Function.update_of_ne hu] using h.destroyed u

/-- The state of a thread is set where no list it is on minds. -/
theorem inv_setState (h : Inv s) {st : Threadstate} (hrq : ∀ d, t ∈ s.runqueue d → st = .ready)
    (hvictims : ∀ d, t ∈ (s.pc d).victims → st = .ready)
    (hz : ∀ d, t ∈ s.zombies d → st = .zombie) : Inv (s.setState t st) where
  exact := h.exact
  ready d u hu := by
    refine ⟨(h.ready d u hu).1, ?_⟩
    by_cases hut : u = t
    · subst hut
      exact (Function.update_self ..).trans (hrq d hu)
    · exact (Function.update_of_ne hut ..).trans (h.ready d u hu).2
  victims d u hu := by
    refine ⟨(h.victims d u hu).1, ?_⟩
    by_cases hut : u = t
    · subst hut
      exact (Function.update_self ..).trans (hvictims d hu)
    · exact (Function.update_of_ne hut ..).trans (h.victims d u hu).2
  zombie d u hu := by
    refine ⟨(h.zombie d u hu).1, ?_⟩
    by_cases hut : u = t
    · subst hut
      exact Or.inl ((Function.update_self ..).trans (hz d hu))
    · exact (h.zombie d u hu).2.imp_left (Function.update_of_ne hut ..).trans
  cur := h.cur
  curLive := h.curLive
  atPc d := (h.atPc d).frame rfl rfl ⟨[], (List.append_nil _).symm⟩ rfl fun hpc => by
    have := h.atPc d
    rwa [hpc] at this
  destroyed := h.destroyed
  fault := h.fault

end Thread

end Os161
