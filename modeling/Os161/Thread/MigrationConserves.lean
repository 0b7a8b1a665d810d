import Os161.Thread.Migration

/-!
# What a call of `thread_consider_migration` conserves

No thread is lost or doubled, whatever arrives in between: what the call takes off its own run queue
it sends to another CPU or puts back. No count is wrong and no difference below 0, no other run
queue is lengthened beyond a share, the current thread stays, and the call ends.

The call ends since each statement lowers `Pc.rank`, the pair of loops it is in and the rounds left
of each.

## Main definitions

* `Thread.Migration.Conserves` — what should hold at every point of the call

## Main results

* `Thread.Migration.advance_effect` — what one statement does
* `Thread.Migration.thread_consider_migration_conserves`
-/

namespace Os161

namespace Thread

namespace Migration

variable {n : ℕ} {T : Type}

variable [DecidableEq T] {q : Queues n T} {c : Fin n} {curthread : T} {s s' : State n T}

/-! ### What a statement does to the run queues -/

/-- What a statement does to the run queues and to `t_cpu`: nothing, or it takes a victim, or it
sends one, which is not the current thread, or it puts one back. -/
theorem advance_effect (hs : s.advance c curthread = some s') :
    s'.runqueue = s.runqueue ∧ s'.tCpu = s.tCpu ∨
      s'.runqueue = Function.update s.runqueue c (s.runqueue c).dropLast ∧ s'.tCpu = s.tCpu ∨
      (∃ i toSend oneShare t victims, s.pc = .move i toSend oneShare (t :: victims) ∧
        t ≠ curthread ∧ s'.runqueue = (s.addtail i t).runqueue ∧
        s'.tCpu = Function.update s.tCpu t i) ∨
      ∃ t, s'.runqueue = (s.addtail c t).runqueue ∧ s'.tCpu = s.tCpu := by
  cases hpc : s.pc with
  | count i totalCount myCount =>
    simp only [State.advance, hpc] at hs
    split at hs
    · obtain rfl := Option.some.inj hs
      exact Or.inl ⟨rfl, rfl⟩
    · split at hs <;> obtain rfl := Option.some.inj hs <;> exact Or.inl ⟨rfl, rfl⟩
  | take i toSend oneShare victims =>
    simp only [State.advance, hpc] at hs
    split at hs
    · cases hlast : (s.runqueue c).getLast? with
      | none =>
        rw [hlast] at hs
        obtain rfl := Option.some.inj hs
        exact Or.inl ⟨rfl, rfl⟩
      | some t =>
        rw [hlast] at hs
        obtain rfl := Option.some.inj hs
        exact Or.inr (Or.inl ⟨rfl, rfl⟩)
    · obtain rfl := Option.some.inj hs
      exact Or.inl ⟨rfl, rfl⟩
  | next i toSend oneShare victims =>
    simp only [State.advance, hpc] at hs
    split at hs
    · split at hs <;> obtain rfl := Option.some.inj hs <;> exact Or.inl ⟨rfl, rfl⟩
    · obtain rfl := Option.some.inj hs
      exact Or.inl ⟨rfl, rfl⟩
  | send i toSend oneShare victims =>
    simp only [State.advance, hpc] at hs
    split at hs <;> obtain rfl := Option.some.inj hs <;> exact Or.inl ⟨rfl, rfl⟩
  | move i toSend oneShare victims =>
    simp only [State.advance, hpc] at hs
    cases victims with
    | nil =>
      obtain rfl := Option.some.inj hs
      exact Or.inl ⟨rfl, rfl⟩
    | cons t victims =>
      dsimp only at hs
      split at hs
      · obtain rfl := Option.some.inj hs
        exact Or.inl ⟨rfl, rfl⟩
      · rename_i hne
        obtain rfl := Option.some.inj hs
        exact Or.inr (Or.inr (Or.inl ⟨i, toSend, oneShare, t, victims, rfl, hne, rfl, rfl⟩))
  | check victims =>
    simp only [State.advance, hpc] at hs
    split at hs <;> obtain rfl := Option.some.inj hs <;> exact Or.inl ⟨rfl, rfl⟩
  | putBack victims =>
    simp only [State.advance, hpc] at hs
    cases victims with
    | nil =>
      obtain rfl := Option.some.inj hs
      exact Or.inl ⟨rfl, rfl⟩
    | cons t victims =>
      obtain rfl := Option.some.inj hs
      exact Or.inr (Or.inr (Or.inr ⟨t, rfl, rfl⟩))
  | done victims => simp [State.advance, hpc] at hs
  | crashed => simp [State.advance, hpc] at hs

/-- In the body of the loop that fills a run queue, there is room on it. -/
def Room (s : State n T) : Prop :=
  ∀ i toSend oneShare victims, s.pc = .move i toSend oneShare victims →
    tlCount (s.runqueue i) < oneShare

theorem room_of_reachable (h : (system q c curthread).Reachable s) : Room s := by
  refine h.invariant ?_ ?_
  · rintro s rfl i toSend oneShare victims hpc
    cases hpc
  · intro s a s' hroom hs i toSend oneShare victims hpc
    cases a with
    | advance =>
      change s.advance c curthread = some s' at hs
      unfold State.advance at hs
      cases hpc' : s.pc with
      | send j toSend' oneShare' victims' =>
        simp only [hpc'] at hs
        split at hs
        · rename_i hmore
          obtain rfl := Option.some.inj hs
          obtain ⟨rfl, rfl, rfl, rfl⟩ := Pc.move.inj hpc
          exact hmore.1
        · obtain rfl := Option.some.inj hs
          cases hpc
      | _ =>
        simp only [hpc'] at hs
        all_goals repeat' split at hs
        all_goals first | (obtain rfl := Option.some.inj hs; cases hpc) | cases hs
    | arrive d t =>
      change (if s.pc.lock c = some d ∨ s.queued t then none else some _) = some s' at hs
      split at hs
      · cases hs
      · rename_i hfree
        obtain rfl := Option.some.inj hs
        have hne : i ≠ d := by
          rintro rfl
          refine hfree (Or.inl ?_)
          rw [show s.pc = _ from hpc]
          rfl
        have hqueue : (s.addtail d t).runqueue i = s.runqueue i := Function.update_of_ne hne _ _
        change tlCount ((s.addtail d t).runqueue i) < oneShare
        rw [hqueue]
        exact hroom i toSend oneShare victims hpc

/-! ### The end of the call -/

/-- What is left of the call: the phase, the rounds of the outer loop and those of the inner one. -/
def Pc.rank : Pc n T → ℕ ×ₗ ℕ ×ₗ ℕ
  | count i _ _ => toLex (5, toLex (n - i, 0))
  | take i toSend _ _ => toLex (4, toLex (toSend - i, 0))
  | next i toSend _ _ => toLex (3, toLex (n - i, 2 * toSend + 1))
  | send i toSend _ _ => toLex (3, toLex (n - i, 2 * toSend))
  | move i toSend _ _ => toLex (3, toLex (n - i, 2 * toSend - 1))
  | check _ => toLex (2, toLex (0, 0))
  | putBack victims => toLex (1, toLex (victims.length, 0))
  | done _ => toLex (0, toLex (0, 0))
  | crashed => toLex (0, toLex (0, 0))

theorem rank_lt {x y z x' y' z' : ℕ} (h : x < x' ∨ x = x' ∧ (y < y' ∨ y = y' ∧ z < z')) :
    (toLex (x, toLex (y, z)) : ℕ ×ₗ ℕ ×ₗ ℕ) < toLex (x', toLex (y', z')) := by
  simpa only [Prod.Lex.toLex_lt_toLex] using h

/-- Every statement moves the rank down. -/
theorem Inv.rank_advance (h : Inv q c s) (hs : s.advance c curthread = some s') :
    s'.pc.rank < s.pc.rank := by
  have hcounts := h.counts
  cases hpc : s.pc with
  | count i totalCount myCount =>
    simp only [State.advance, hpc] at hs
    split at hs
    · obtain rfl := Option.some.inj hs
      exact rank_lt (by omega)
    · split at hs <;> obtain rfl := Option.some.inj hs <;> exact rank_lt (by omega)
  | take i toSend oneShare victims =>
    simp only [State.advance, hpc] at hs
    split at hs
    · cases hlast : (s.runqueue c).getLast? <;> rw [hlast] at hs <;>
        obtain rfl := Option.some.inj hs <;> exact rank_lt (by omega)
    · obtain rfl := Option.some.inj hs
      exact rank_lt (by omega)
  | next i toSend oneShare victims =>
    simp only [State.advance, hpc] at hs
    split at hs
    · rename_i hi
      split at hs
      · obtain rfl := Option.some.inj hs
        exact rank_lt (by omega)
      · obtain rfl := Option.some.inj hs
        exact rank_lt (Or.inr ⟨rfl, Or.inr ⟨rfl, by omega⟩⟩)
    · obtain rfl := Option.some.inj hs
      exact rank_lt (by omega)
  | send i toSend oneShare victims =>
    have hi := i.isLt
    simp only [State.advance, hpc] at hs
    split at hs
    · obtain rfl := Option.some.inj hs
      exact rank_lt (by omega)
    · obtain rfl := Option.some.inj hs
      exact rank_lt (by omega)
  | move i toSend oneShare victims =>
    rw [hpc] at hcounts
    obtain ⟨hpos, -, hlt⟩ := hcounts
    have hsub : wordSub toSend 1 = toSend - 1 := wordSub_of_le hpos hlt
    simp only [State.advance, hpc] at hs
    cases victims with
    | nil =>
      obtain rfl := Option.some.inj hs
      exact rank_lt (by omega)
    | cons t victims =>
      dsimp only at hs
      split at hs <;> obtain rfl := Option.some.inj hs <;> exact rank_lt (by omega)
  | check victims =>
    simp only [State.advance, hpc] at hs
    split at hs <;> obtain rfl := Option.some.inj hs <;> exact rank_lt (by omega)
  | putBack victims =>
    simp only [State.advance, hpc] at hs
    cases victims with
    | nil =>
      obtain rfl := Option.some.inj hs
      exact rank_lt (by omega)
    | cons t victims =>
      obtain rfl := Option.some.inj hs
      exact rank_lt (by simp)
  | done victims => simp [State.advance, hpc] at hs
  | crashed => simp [State.advance, hpc] at hs

/-- The call is stuck only where it is over. -/
theorem advance_eq_none (hs : s.advance c curthread = none) :
    s.pc = .crashed ∨ ∃ victims, s.pc = .done victims := by
  unfold State.advance at hs
  cases hpc : s.pc with
  | done victims => exact Or.inr ⟨victims, rfl⟩
  | crashed => exact Or.inl rfl
  | _ =>
    simp only [hpc] at hs
    all_goals repeat' split at hs
    all_goals cases hs

/-! ### What a call conserves -/

/-- What should hold at every point of a call on CPU `c` that found the run queues `q`. -/
structure Conserves (q : Queues n T) (c : Fin n) (curthread : T) (s : State n T) : Prop where
  /-- No `NULL` has been taken off a list. -/
  noNull : s.pc ≠ .crashed
  /-- No difference has come out below 0. -/
  noWrap : s.wrapped = false
  /-- No other CPU's run queue is lengthened beyond a share. -/
  share : ∀ s', s.advance c curthread = some s' → ∀ d, d ≠ c →
    (s.runqueue d).length < (s'.runqueue d).length → (s'.runqueue d).length ≤ s.pc.oneShare
  /-- The current thread is not moved to another CPU. -/
  stays : ∀ s', s.advance c curthread = some s' → s'.tCpu curthread = s.tCpu curthread ∧
    ∀ d, d ≠ c → curthread ∈ s'.runqueue d → curthread ∈ s.runqueue d
  /-- There is a next statement until the call is over. -/
  goesOn : s.advance c curthread = none → ∃ victims, s.pc = .done victims
  /-- At the end there are no victims, and each thread that was queued, or has arrived, is on the
  run queue its `t_cpu` names, once, and on no other. -/
  finished : ∀ victims, s.pc = .done victims → victims = [] ∧
    ∀ t, (∃ d, t ∈ q.runqueue d) ∨ t ∈ s.arrived →
      ∀ d, (s.runqueue d).count t = if s.tCpu t = d then 1 else 0

theorem Inv.finished (h : Inv q c s) {victims : List T} (hpc : s.pc = .done victims) {t : T}
    (ht : (∃ d, t ∈ q.runqueue d) ∨ t ∈ s.arrived) (d : Fin n) :
    (s.runqueue d).count t = if s.tCpu t = d then 1 else 0 := by
  have hcounts := h.counts
  rw [hpc] at hcounts
  obtain ⟨p, hp⟩ := (h.exact.cover t).mp ht
  cases p with
  | none =>
    rw [held_none, hpc, show victims = [] from hcounts] at hp
    cases hp
  | some e =>
    have htcpu : s.tCpu t = e := h.home (some e) t hp
    split
    · rename_i hd
      obtain rfl : e = d := htcpu.symm.trans hd
      exact List.count_eq_one_of_mem (h.exact.nodup (some e)) hp
    · rename_i hd
      refine List.count_eq_zero.mpr fun hmem => hd ?_
      exact h.home (some d) t hmem

theorem conserves_of_reachable [Fintype T] (hT : Fintype.card T < 2 ^ 32)
    (h : (system q c curthread).Reachable s) : Conserves q c curthread s := by
  have hinv := inv_of_reachable hT h
  have hcounts := hinv.counts
  have hcrashed : s.pc ≠ .crashed := by
    intro hpc
    rw [hpc] at hcounts
    exact hcounts
  refine ⟨hcrashed, hinv.noWrap, ?_, ?_, ?_, ?_⟩
  · intro s' hs d hd hlonger
    rcases advance_effect hs with ⟨hq, -⟩ | ⟨hq, -⟩ |
      ⟨i, toSend, oneShare, t, victims, hpc, -, hq, -⟩ |
      ⟨t, hq, -⟩
    · rw [hq] at hlonger
      exact absurd hlonger (lt_irrefl _)
    · rw [hq, Function.update_of_ne hd] at hlonger
      exact absurd hlonger (lt_irrefl _)
    · have hroom := room_of_reachable h i toSend oneShare _ hpc
      rw [← held_some, hinv.tlCount_eq hT, held_some] at hroom
      by_cases hdi : d = i
      · subst hdi
        have hlen : s'.runqueue d = s.runqueue d ++ [t] := by
          rw [hq]
          exact Function.update_self ..
        rw [hlen, List.length_append, List.length_singleton, hpc]
        exact hroom
      · have hlen : s'.runqueue d = s.runqueue d := by
          rw [hq]
          exact Function.update_of_ne hdi _ _
        rw [hlen] at hlonger
        exact absurd hlonger (lt_irrefl _)
    · have hlen : s'.runqueue d = s.runqueue d := by
        rw [hq]
        exact Function.update_of_ne hd _ _
      rw [hlen] at hlonger
      exact absurd hlonger (lt_irrefl _)
  · intro s' hs
    rcases advance_effect hs with ⟨hq, htcpu⟩ | ⟨hq, htcpu⟩ |
      ⟨i, toSend, oneShare, t, victims, -, hne, hq, htcpu⟩ | ⟨t, hq, htcpu⟩
    · exact ⟨by rw [htcpu], fun d _ hmem => by rwa [hq] at hmem⟩
    · refine ⟨by rw [htcpu], fun d hd hmem => ?_⟩
      rwa [hq, Function.update_of_ne hd] at hmem
    · refine ⟨by rw [htcpu, Function.update_of_ne hne.symm], fun d _ hmem => ?_⟩
      rw [← held_some, held_addtail hq (Option.some_ne_none d)] at hmem
      split at hmem
      · exact (List.mem_append.mp hmem).resolve_right fun h => hne (List.mem_singleton.mp h).symm
      · exact hmem
    · refine ⟨by rw [htcpu], fun d hd hmem => ?_⟩
      rwa [← held_some, held_addtail hq (Option.some_ne_none d),
        if_neg fun h => hd (Option.some.inj h)] at hmem
  · exact fun hs => (advance_eq_none hs).resolve_left hcrashed
  · intro victims hpc
    refine ⟨?_, fun t ht d => hinv.finished hpc ht d⟩
    rw [hpc] at hcounts
    exact hcounts

/-- A call has only finitely many statements, whatever arrives. -/
theorem finite_of_run [Fintype T] (hT : Fintype.card T < 2 ^ 32) {states : ℕ → State n T}
    {acts : ℕ → Action n T} (h : (system q c curthread).Run states acts) :
    ∃ k, ∀ j, k ≤ j → acts j ≠ .advance := by
  refine h.finite_of_rank (fun s => s.pc.rank) (· = .advance) ?_ ?_
  · rintro s a s' hreach rfl hs
    exact (inv_of_reachable hT hreach).rank_advance hs
  · intro s a s' ha hs
    cases a with
    | advance => exact absurd rfl ha
    | arrive d t =>
      change (if s.pc.lock c = some d ∨ s.queued t then none else some _) = some s' at hs
      split at hs
      · cases hs
      · obtain rfl := Option.some.inj hs
        rfl

/-- A pointer to a thread: a machine word other than `NULL`. -/
abbrev ThreadPtr : Type := {p : Fin (2 ^ 32) // p ≠ 0}

theorem card_threadPtr : Fintype.card ThreadPtr < 2 ^ 32 :=
  lt_of_lt_of_eq (Fintype.card_subtype_lt (x := 0) (fun h => h rfl)) (Fintype.card_fin _)

/-- **A call conserves threads**, on any number of CPUs, whatever their run queues are and whatever
arrives on them meanwhile; and it ends. -/
theorem thread_consider_migration_conserves (q : Queues n ThreadPtr) (c : Fin n)
    (curthread : ThreadPtr) :
    (∀ s, (system q c curthread).Reachable s → Conserves q c curthread s) ∧
      ∀ states acts, (system q c curthread).Run states acts →
        ∃ k, ∀ j, k ≤ j → acts j ≠ .advance :=
  ⟨fun _ h => conserves_of_reachable card_threadPtr h, fun _ _ h => finite_of_run card_threadPtr h⟩

/-- The pointer `k + 1`. -/
def ptr (k : Fin 8) : ThreadPtr := ⟨⟨k + 1, by omega⟩, fun h => by simpa using congrArg Fin.val h⟩

/-- Two CPUs, and five threads on the run queue of the first. -/
def busyPair : Queues 2 ThreadPtr where
  runqueue d := if d = 0 then [ptr 0, ptr 1, ptr 2, ptr 3, ptr 4] else []
  tCpu _ := 0
  nodup d := by
    split
    · decide
    · exact List.nodup_nil
  tCpu_eq d t ht := by
    by_contra hd
    rw [if_neg (Ne.symm hd)] at ht
    cases ht

/-- The call moves two threads to the second CPU, where another one arrives meanwhile. -/
theorem thread_consider_migration_conserves_pair : ∃ s,
    (system busyPair 0 (ptr 6)).Reachable s ∧ s.advance 0 (ptr 6) = none ∧
      s.runqueue 0 = [ptr 0, ptr 1, ptr 2] ∧ s.runqueue 1 = [ptr 5, ptr 3, ptr 4] ∧
      Conserves busyPair 0 (ptr 6) s := by
  let acts : List (Action 2 ThreadPtr) :=
    List.replicate 6 .advance ++ .arrive 1 (ptr 5) :: List.replicate 9 .advance
  have hrun : ((acts.foldlM (system busyPair 0 (ptr 6)).step busyPair.start).any fun s =>
      (s.advance 0 (ptr 6)).isNone && (s.runqueue 0 == [ptr 0, ptr 1, ptr 2] &&
        s.runqueue 1 == [ptr 5, ptr 3, ptr 4])) = true := by decide +kernel
  obtain ⟨s, hs, htest⟩ := (Option.any_eq_true _ _).mp hrun
  obtain ⟨hend, hqueues⟩ := (Bool.and_eq_true _ _).mp htest
  obtain ⟨h0, h1⟩ := (Bool.and_eq_true _ _).mp hqueues
  have hreach := TransitionSystem.reachable_of_run acts (.init rfl) hs
  exact ⟨s, hreach, Option.isNone_iff_eq_none.mp hend, beq_iff_eq.mp h0, beq_iff_eq.mp h1,
    (thread_consider_migration_conserves busyPair 0 (ptr 6)).1 s hreach⟩

end Migration

end Thread

end Os161
