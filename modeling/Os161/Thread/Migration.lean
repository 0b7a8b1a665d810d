import Os161.Lib.Places
import Os161.Lib.Transition
import Mathlib.Data.Fintype.EquivFin
import Mathlib.Data.Prod.Lex
import Mathlib.Algebra.GroupWithZero.Nat

/-!
# One call of `thread_consider_migration`

`thread_consider_migration` of `kern/thread/thread.c`, statement by statement, on one CPU of any
number, while threads arrive on the run queues from the other CPUs. Interrupts are off on the CPU of
the call, so nothing else takes threads off its run queue. `Thread.Switch` has the same function in
larger steps, beside the rest of the scheduler.

A run queue's lock is held by the call exactly at the places `Pc.lock` names, and nothing arrives
there then. Counts are machine words: `tl_count`, and all arithmetic on it, wraps at `2 ^ 32`.

What is deliberately absent is what other CPUs take off their own queues: a thread that another CPU
has begun to run is no longer queued, and nothing is said about it.

## How it composes

This module has the call and the invariant of its runs. `Thread.MigrationConserves` has what a
statement does to the run queues, the end of the call, and what the call conserves.

## Main definitions

* `Thread.Migration.State.advance` — the next statement of the call
* `Thread.Migration.system`

## Main results

* `Thread.Migration.Inv` with `inv_of_reachable`
-/

namespace Os161

namespace Thread

namespace Migration

variable {n : ℕ} {T : Type}

/-! ### The call -/

/-- `tl_count`. -/
def tlCount (tl : List T) : ℕ := tl.length % 2 ^ 32

/-- A difference of two machine words. -/
def wordSub (a b : ℕ) : ℕ := (a + 2 ^ 32 - b) % 2 ^ 32

/-- Where the call is. -/
inductive Pc (n : ℕ) (T : Type) where
  /-- At the head of the loop that counts. -/
  | count (i totalCount myCount : ℕ)
  /-- At the head of the loop that takes the victims. -/
  | take (i toSend oneShare : ℕ) (victims : List T)
  /-- At the head of the loop over the CPUs. -/
  | next (i toSend oneShare : ℕ) (victims : List T)
  /-- At the head of the loop that fills the run queue of CPU `i`. -/
  | send (i : Fin n) (toSend oneShare : ℕ) (victims : List T)
  /-- In its body. -/
  | move (i : Fin n) (toSend oneShare : ℕ) (victims : List T)
  /-- At the test for leftovers. -/
  | check (victims : List T)
  /-- At the head of the loop that puts them back. -/
  | putBack (victims : List T)
  | done (victims : List T)
  /-- A `NULL` has been taken off a list. -/
  | crashed

/-- The private list. -/
def Pc.victims : Pc n T → List T
  | take _ _ _ victims => victims
  | next _ _ _ victims => victims
  | send _ _ _ victims => victims
  | move _ _ _ victims => victims
  | check victims => victims
  | putBack victims => victims
  | done victims => victims
  | _ => []

/-- The run queue whose lock is held, on CPU `c`. -/
def Pc.lock (c : Fin n) : Pc n T → Option (Fin n)
  | take _ _ _ _ => some c
  | send i _ _ _ => some i
  | move i _ _ _ => some i
  | putBack _ => some c
  | _ => none

/-- `one_share`. -/
def Pc.oneShare : Pc n T → ℕ
  | take _ _ oneShare _ => oneShare
  | next _ _ oneShare _ => oneShare
  | send _ _ oneShare _ => oneShare
  | move _ _ oneShare _ => oneShare
  | _ => 0

structure State (n : ℕ) (T : Type) where
  /-- `c_runqueue`. -/
  runqueue : Fin n → List T
  /-- `t_cpu`. -/
  tCpu : T → Fin n
  pc : Pc n T
  /-- A difference of counts has come out below 0. -/
  wrapped : Bool
  /-- The threads that have arrived since the call began. -/
  arrived : List T

def State.setPc (s : State n T) (pc : Pc n T) : State n T := { s with pc := pc }

/-- `to_send` or `my_count` becomes `a - b`. -/
def State.subtracting (s : State n T) (a b : ℕ) : State n T :=
  { s with wrapped := s.wrapped || decide (a < b) }

/-- `threadlist_addtail`, on a run queue. -/
def State.addtail (s : State n T) (d : Fin n) (t : T) : State n T :=
  { s with runqueue := Function.update s.runqueue d (s.runqueue d ++ [t]) }

inductive Action (n : ℕ) (T : Type) where
  /-- The next statement of the call. -/
  | advance
  /-- Another CPU puts thread `t` on the run queue of CPU `d`: `thread_make_runnable`, or a
  migration from there. -/
  | arrive (d : Fin n) (t : T)

section Steps

variable [DecidableEq T]

/-- `thread_consider_migration` on CPU `c`, whose current thread is `curthread`. -/
def State.advance (c : Fin n) (curthread : T) (s : State n T) : Option (State n T) :=
  match s.pc with
  | .count i totalCount myCount =>
      if hi : i < n then
        let count := tlCount (s.runqueue ⟨i, hi⟩)
        some (s.setPc (.count (i + 1) ((totalCount + count) % 2 ^ 32)
          (if i = c then count else myCount)))
      else
        let oneShare := (totalCount + n - 1) % 2 ^ 32 / n
        if myCount < oneShare then some (s.setPc (.done []))
        else
          some ((s.subtracting myCount oneShare).setPc
            (.take 0 (wordSub myCount oneShare) oneShare []))
  | .take i toSend oneShare victims =>
      if i < toSend then
        match (s.runqueue c).getLast? with
        | none => some (s.setPc .crashed)
        | some t =>
            some { s.setPc (.take (i + 1) toSend oneShare (t :: victims)) with
              runqueue := Function.update s.runqueue c (s.runqueue c).dropLast }
      else some (s.setPc (.next 0 toSend oneShare victims))
  | .next i toSend oneShare victims =>
      if hi : i < n ∧ 0 < toSend then
        if i = c then some (s.setPc (.next (i + 1) toSend oneShare victims))
        else some (s.setPc (.send ⟨i, hi.1⟩ toSend oneShare victims))
      else some (s.setPc (.check victims))
  | .send i toSend oneShare victims =>
      if tlCount (s.runqueue i) < oneShare ∧ 0 < toSend then
        some (s.setPc (.move i toSend oneShare victims))
      else some (s.setPc (.next (i + 1) toSend oneShare victims))
  | .move i toSend oneShare victims =>
      match victims with
      | [] => some (s.setPc .crashed)
      | t :: victims =>
          if t = curthread then
            -- shuffled to the end, to be skipped
            some ((s.subtracting toSend 1).setPc
              (.send i (wordSub toSend 1) oneShare (victims ++ [t])))
          else
            some { ((s.addtail i t).subtracting toSend 1).setPc
                (.send i (wordSub toSend 1) oneShare victims) with
              tCpu := Function.update s.tCpu t i }
  | .check victims =>
      if tlCount victims = 0 then some (s.setPc (.done victims))
      else some (s.setPc (.putBack victims))
  | .putBack victims =>
      match victims with
      | [] => some (s.setPc (.done []))
      | t :: victims => some ((s.addtail c t).setPc (.putBack victims))
  | .done _ => none
  | .crashed => none

/-- A thread is on a run queue or among the victims. -/
def State.queued (s : State n T) (t : T) : Bool :=
  decide (∃ d, t ∈ s.runqueue d) || decide (t ∈ s.pc.victims)

def step (c : Fin n) (curthread : T) (s : State n T) : Action n T → Option (State n T)
  | .advance => s.advance c curthread
  | .arrive d t =>
      if s.pc.lock c = some d ∨ s.queued t then none
      else
        some { s.addtail d t with
          tCpu := Function.update s.tCpu t d
          arrived := t :: s.arrived }

end Steps

/-- Run queues as a call may find them: no thread is on one twice, and `t_cpu` names the CPU. -/
structure Queues (n : ℕ) (T : Type) where
  /-- `c_runqueue`. -/
  runqueue : Fin n → List T
  /-- `t_cpu`. -/
  tCpu : T → Fin n
  nodup : ∀ d, (runqueue d).Nodup
  tCpu_eq : ∀ d, ∀ t ∈ runqueue d, tCpu t = d

/-- The start of the call. -/
def Queues.start (q : Queues n T) : State n T := ⟨q.runqueue, q.tCpu, .count 0 0 0, false, []⟩

/-- A call on CPU `c`, and what arrives meanwhile. -/
def system [DecidableEq T] (q : Queues n T) (c : Fin n) (curthread : T) :
    TransitionSystem (State n T) (Action n T) where
  init s := s = q.start
  step := step c curthread

/-! ### What each statement keeps -/

/-- The run queues, and the private list of the call. -/
def held (s : State n T) : Option (Fin n) → List T
  | none => s.pc.victims
  | some d => s.runqueue d

@[simp] theorem held_none (s : State n T) : held s none = s.pc.victims := rfl

@[simp] theorem held_some (s : State n T) (d : Fin n) : held s (some d) = s.runqueue d := rfl

/-- What the counts say, given the run queue of the call's own CPU. -/
def Pc.Counts (queue : List T) : Pc n T → Prop
  | count _ _ myCount => myCount ≤ queue.length ∧ myCount < 2 ^ 32
  | take i toSend _ victims =>
      victims.length = i ∧ i ≤ toSend ∧ toSend ≤ i + queue.length ∧ toSend < 2 ^ 32
  | next _ toSend _ victims => toSend ≤ victims.length ∧ toSend < 2 ^ 32
  | send _ toSend _ victims => toSend ≤ victims.length ∧ toSend < 2 ^ 32
  | move _ toSend _ victims => 0 < toSend ∧ toSend ≤ victims.length ∧ toSend < 2 ^ 32
  | check _ => True
  | putBack _ => True
  | done victims => victims = []
  | crashed => False

/-- The invariant of a call on CPU `c`. -/
structure Inv (q : Queues n T) (c : Fin n) (s : State n T) : Prop where
  exact : Places.Exact (held s) fun t => (∃ d, t ∈ q.runqueue d) ∨ t ∈ s.arrived
  home : ∀ p, ∀ t ∈ held s p, s.tCpu t = p.getD c
  counts : s.pc.Counts (s.runqueue c)
  noWrap : s.wrapped = false

theorem tlCount_le (tl : List T) : tlCount tl ≤ tl.length := Nat.mod_le _ _

theorem tlCount_lt (tl : List T) : tlCount tl < 2 ^ 32 := Nat.mod_lt _ (by decide)

theorem wordSub_of_le {a b : ℕ} (h : b ≤ a) (ha : a < 2 ^ 32) : wordSub a b = a - b := by
  unfold wordSub
  omega

theorem State.subtracting_of_le (s : State n T) {a b : ℕ} (h : b ≤ a) : s.subtracting a b = s := by
  simp [State.subtracting, Nat.not_lt.mpr h]

section Keeps

variable {q : Queues n T} {c : Fin n} {s s' : State n T}

/-- Nothing moves. -/
theorem Inv.setPc (h : Inv q c s) {pc : Pc n T} (hvictims : pc.victims = s.pc.victims)
    (hcounts : pc.Counts (s.runqueue c)) : Inv q c (s.setPc pc) := by
  have hheld : held (s.setPc pc) = held s := by
    funext p
    cases p with
    | none => exact hvictims
    | some d => rfl
  refine ⟨?_, ?_, hcounts, h.noWrap⟩
  · rw [hheld]
    exact h.exact
  · rw [hheld]
    exact h.home

/-- Where the threads are afterwards decides where they belong. -/
theorem Inv.home_of_held (h : Inv q c s)
    (hheld : ∀ p, ∀ t ∈ held s' p,
      t ∈ held s p ∧ s'.tCpu t = s.tCpu t ∨ s'.tCpu t = p.getD c) :
    ∀ p, ∀ t ∈ held s' p, s'.tCpu t = p.getD c := by
  intro p t ht
  rcases hheld p t ht with ⟨ht, htcpu⟩ | htcpu
  · rw [htcpu]
    exact h.home p t ht
  · exact htcpu

/-- The tail of the call's own run queue becomes a victim. -/
theorem Inv.take (h : Inv q c s) {t : T} (ht : (s.runqueue c).getLast? = some t)
    (hqueue : s'.runqueue = Function.update s.runqueue c (s.runqueue c).dropLast)
    (hvictims : s'.pc.victims = t :: s.pc.victims) (htcpu : s'.tCpu = s.tCpu)
    (harrived : s'.arrived = s.arrived) (hcounts : s'.pc.Counts (s'.runqueue c))
    (hwrap : s'.wrapped = false) : Inv q c s' := by
  have hlast : s.runqueue c = (s.runqueue c).dropLast ++ [t] :=
    (List.dropLast_append_getLast? t ht).symm
  have hown : held s' (some c) = (s.runqueue c).dropLast := by
    rw [held_some, hqueue, Function.update_self]
  have hother : ∀ p, p ≠ some c → p ≠ none → held s' p = held s p := by
    intro p hp hnone
    cases p with
    | none => exact absurd rfl hnone
    | some d =>
      rw [held_some, hqueue, Function.update_of_ne fun hd => hp (congrArg some hd)]
      rfl
  refine ⟨?_, ?_, hcounts, hwrap⟩
  · rw [harrived]
    refine h.exact.move (p := some c) (q := none) (l := [t]) (by simp) ?_ ?_ hother
    · rw [hown, held_some]
      conv_lhs => rw [hlast]
      exact List.perm_append_comm
    · rw [held_none, held_none, hvictims]
      exact (List.perm_append_singleton t s.pc.victims).symm
  · refine h.home_of_held fun p u hu => ?_
    have htc : s'.tCpu t = c := by
      rw [htcpu]
      exact h.home (some c) t (by rw [held_some, hlast]; exact List.mem_append_right _ (by simp))
    cases p with
    | none =>
      rw [held_none, hvictims] at hu
      rcases List.mem_cons.mp hu with rfl | hu
      · exact Or.inr htc
      · exact Or.inl ⟨hu, by rw [htcpu]⟩
    | some d =>
      refine Or.inl ⟨?_, by rw [htcpu]⟩
      by_cases hd : d = c
      · subst hd
        rw [hown] at hu
        exact List.mem_of_mem_dropLast hu
      · rwa [hother (some d) (fun h => hd (Option.some.inj h)) (by simp)] at hu

/-- The run queues after `threadlist_addtail`. -/
theorem held_addtail {d : Fin n} {t : T} (hs' : s'.runqueue = (s.addtail d t).runqueue)
    {p : Option (Fin n)} (hnone : p ≠ none) :
    held s' p = if p = some d then held s p ++ [t] else held s p := by
  cases p with
  | none => exact absurd rfl hnone
  | some e =>
    rw [held_some, hs']
    by_cases he : e = d
    · subst he
      rw [if_pos rfl]
      exact Function.update_self ..
    · rw [if_neg fun h => he (Option.some.inj h)]
      exact Function.update_of_ne he _ _

/-- The victims change places. -/
theorem Inv.shuffle (h : Inv q c s) (hqueue : s'.runqueue = s.runqueue)
    (hvictims : s'.pc.victims.Perm s.pc.victims) (htcpu : s'.tCpu = s.tCpu)
    (harrived : s'.arrived = s.arrived) (hcounts : s'.pc.Counts (s'.runqueue c))
    (hwrap : s'.wrapped = false) : Inv q c s' := by
  have hperm : ∀ p, (held s' p).Perm (held s p) := by
    intro p
    cases p with
    | none => exact hvictims
    | some d =>
      rw [held_some, held_some, hqueue]
  refine ⟨?_, ?_, hcounts, hwrap⟩
  · rw [harrived]
    exact h.exact.perm hperm
  · exact h.home_of_held fun p u hu => Or.inl ⟨(hperm p).mem_iff.mp hu, by rw [htcpu]⟩

variable [DecidableEq T]

/-- A victim goes to the tail of a run queue whose CPU its `t_cpu` names. -/
theorem Inv.give (h : Inv q c s) {d : Fin n} {t : T} {victims : List T}
    (hpc : s.pc.victims = t :: victims) (hqueue : s'.runqueue = (s.addtail d t).runqueue)
    (hvictims : s'.pc.victims = victims) (htcpu : s'.tCpu = Function.update s.tCpu t d)
    (harrived : s'.arrived = s.arrived) (hcounts : s'.pc.Counts (s'.runqueue c))
    (hwrap : s'.wrapped = false) : Inv q c s' := by
  have hnodup : t ∉ victims := by
    have hv := h.exact.nodup none
    rw [held_none, hpc, List.nodup_cons] at hv
    exact hv.1
  have htheld : t ∈ held s none := by
    rw [held_none, hpc]
    exact List.mem_cons_self
  refine ⟨?_, ?_, hcounts, hwrap⟩
  · rw [harrived]
    refine h.exact.move (p := none) (q := some d) (l := [t]) (by simp) ?_ ?_ ?_
    · rw [held_none, held_none, hpc, hvictims]
      exact List.Perm.refl _
    · rw [held_addtail hqueue (by simp), if_pos rfl]
    · intro p hp hd
      rw [held_addtail hqueue hp, if_neg hd]
  · refine h.home_of_held fun p u hu => ?_
    by_cases hut : u = t
    · subst hut
      refine Or.inr ?_
      rw [htcpu, Function.update_self]
      cases p with
      | none => exact absurd (hvictims ▸ hu : u ∈ victims) hnodup
      | some e =>
        rw [held_addtail hqueue (by simp)] at hu
        by_cases he : some e = some d
        · exact (Option.some.inj he).symm
        · rw [if_neg he] at hu
          cases h.exact.unique hu htheld
    · refine Or.inl ⟨?_, by rw [htcpu, Function.update_of_ne hut]⟩
      cases p with
      | none =>
        rw [held_none, hpc]
        exact List.mem_cons_of_mem _ (hvictims ▸ hu : u ∈ victims)
      | some e =>
        rw [held_addtail hqueue (by simp)] at hu
        split at hu
        · exact (List.mem_append.mp hu).resolve_right fun h => hut (List.mem_singleton.mp h)
        · exact hu

theorem queued_eq_true (s : State n T) (t : T) : s.queued t = true ↔ ∃ p, t ∈ held s p := by
  simp only [State.queued, Bool.or_eq_true, decide_eq_true_eq]
  constructor
  · rintro (⟨d, hd⟩ | hv)
    · exact ⟨some d, hd⟩
    · exact ⟨none, hv⟩
  · rintro ⟨_ | d, ht⟩
    · exact Or.inr ht
    · exact Or.inl ⟨d, ht⟩

omit [DecidableEq T] in
theorem Pc.Counts.append {pc : Pc n T} {queue : List T} (h : pc.Counts queue) (l : List T) :
    pc.Counts (queue ++ l) := by
  cases pc <;> simp only [Pc.Counts, List.length_append] at h ⊢ <;> omega

/-- A thread arrives. -/
theorem Inv.arrive (h : Inv q c s) {d : Fin n} {t : T} (ht : s.queued t = false) :
    Inv q c { s.addtail d t with
      tCpu := Function.update s.tCpu t d
      arrived := t :: s.arrived } := by
  have hnew : ∀ p, t ∉ held s p := by
    intro p hp
    rw [(queued_eq_true s t).mpr ⟨p, hp⟩] at ht
    cases ht
  have hheld : ∀ p, held { s.addtail d t with
      tCpu := Function.update s.tCpu t d
      arrived := t :: s.arrived } p = if p = some d then held s p ++ [t] else held s p := by
    intro p
    cases p with
    | none => rfl
    | some e => exact held_addtail rfl (Option.some_ne_none e)
  refine ⟨?_, ?_, ?_, h.noWrap⟩
  · refine h.exact.add (q := some d) (t := t) ?_ ?_ ?_ fun u => ?_
    · intro hlive
      obtain ⟨p, hp⟩ := (h.exact.cover t).mp hlive
      exact hnew p hp
    · rw [hheld, if_pos rfl]
    · intro p hp
      rw [hheld, if_neg hp]
    · rw [List.mem_cons, or_assoc, or_comm (a := u = t)]
  · refine h.home_of_held fun p u hu => ?_
    rw [hheld] at hu
    by_cases hut : u = t
    · subst hut
      refine Or.inr (Eq.trans (Function.update_self ..) ?_)
      by_cases hp : p = some d
      · rw [hp]
        rfl
      · rw [if_neg hp] at hu
        exact absurd hu (hnew p)
    · refine Or.inl ⟨?_, Function.update_of_ne hut _ _⟩
      by_cases hp : p = some d
      · rw [if_pos hp] at hu
        exact (List.mem_append.mp hu).resolve_right fun h => hut (List.mem_singleton.mp h)
      · rwa [if_neg hp] at hu
  · have hcounts : (s.addtail d t).pc.Counts ((s.addtail d t).runqueue c) := by
      by_cases hd : c = d
      · subst hd
        have hq : (s.addtail c t).runqueue c = s.runqueue c ++ [t] := Function.update_self ..
        rw [hq]
        exact h.counts.append [t]
      · have hq : (s.addtail d t).runqueue c = s.runqueue c := Function.update_of_ne hd _ _
        rw [hq]
        exact h.counts
    exact hcounts

end Keeps

/-! ### The whole call -/

variable [DecidableEq T] {q : Queues n T} {c : Fin n} {curthread : T} {s s' : State n T}

omit [DecidableEq T] in
/-- The lists are short enough to be counted: no thread is on one twice. -/
theorem Inv.length_lt [Fintype T] (hT : Fintype.card T < 2 ^ 32) (h : Inv q c s)
    (p : Option (Fin n)) : (held s p).length < 2 ^ 32 :=
  lt_of_le_of_lt (h.exact.nodup p).length_le_card hT

omit [DecidableEq T] in
theorem Inv.tlCount_eq [Fintype T] (hT : Fintype.card T < 2 ^ 32) (h : Inv q c s)
    (p : Option (Fin n)) : tlCount (held s p) = (held s p).length :=
  Nat.mod_eq_of_lt (h.length_lt hT p)

/-- Every statement keeps the invariant. -/
theorem Inv.advance [Fintype T] (hT : Fintype.card T < 2 ^ 32) (h : Inv q c s)
    (hs : s.advance c curthread = some s') : Inv q c s' := by
  have hcounts := h.counts
  cases hpc : s.pc with
  | count i totalCount myCount =>
    rw [hpc] at hcounts
    obtain ⟨hle, hlt⟩ := hcounts
    have hvictims : s.pc.victims = [] := by rw [hpc]; rfl
    simp only [State.advance, hpc] at hs
    split at hs
    · rename_i hi
      obtain rfl := Option.some.inj hs
      refine h.setPc hvictims.symm ?_
      by_cases hic : i = c
      · subst hic
        rw [if_pos rfl]
        exact ⟨tlCount_le _, tlCount_lt _⟩
      · rw [if_neg hic]
        exact ⟨hle, hlt⟩
    · split at hs
      · obtain rfl := Option.some.inj hs
        exact h.setPc hvictims.symm rfl
      · rename_i hshare
        obtain rfl := Option.some.inj hs
        generalize (totalCount + n - 1) % 2 ^ 32 / n = oneShare at hshare ⊢
        have hshare := Nat.le_of_not_lt hshare
        rw [s.subtracting_of_le hshare]
        refine h.setPc hvictims.symm ⟨rfl, Nat.zero_le _, ?_, ?_⟩ <;>
          rw [wordSub_of_le hshare hlt] <;> omega
  | take i toSend oneShare victims =>
    rw [hpc] at hcounts
    obtain ⟨hlen, hi, hqueue, hlt⟩ := hcounts
    have hvictims : s.pc.victims = victims := by rw [hpc]; rfl
    simp only [State.advance, hpc] at hs
    split at hs
    · rename_i hmore
      cases hlast : (s.runqueue c).getLast? with
      | none =>
        -- the queue is at least as long as what is still to be taken
        rw [List.getLast?_eq_none_iff.mp hlast, List.length_nil] at hqueue
        omega
      | some t =>
        rw [hlast] at hs
        obtain rfl := Option.some.inj hs
        refine h.take hlast rfl (congrArg (t :: ·) hvictims.symm) rfl rfl ?_ h.noWrap
        have hlength : ((s.runqueue c).dropLast).length + 1 = (s.runqueue c).length := by
          rw [List.length_dropLast]
          omega
        refine ⟨?_, hmore, ?_, hlt⟩
        · rw [List.length_cons, hlen]
        · change toSend ≤ i + 1 + (Function.update s.runqueue c (s.runqueue c).dropLast c).length
          rw [Function.update_self]
          omega
    · obtain rfl := Option.some.inj hs
      exact h.setPc hvictims.symm ⟨by omega, hlt⟩
  | next i toSend oneShare victims =>
    rw [hpc] at hcounts
    have hvictims : s.pc.victims = victims := by rw [hpc]; rfl
    simp only [State.advance, hpc] at hs
    split at hs
    · split at hs <;> obtain rfl := Option.some.inj hs <;> exact h.setPc hvictims.symm hcounts
    · obtain rfl := Option.some.inj hs
      exact h.setPc hvictims.symm trivial
  | send i toSend oneShare victims =>
    rw [hpc] at hcounts
    have hvictims : s.pc.victims = victims := by rw [hpc]; rfl
    simp only [State.advance, hpc] at hs
    split at hs
    · rename_i hmore
      obtain rfl := Option.some.inj hs
      exact h.setPc hvictims.symm ⟨hmore.2, hcounts⟩
    · obtain rfl := Option.some.inj hs
      exact h.setPc hvictims.symm hcounts
  | move i toSend oneShare victims =>
    rw [hpc] at hcounts
    obtain ⟨hpos, hle, hlt⟩ := hcounts
    have hvictims : s.pc.victims = victims := by rw [hpc]; rfl
    have hwrap : (s.subtracting toSend 1).wrapped = false := by
      rw [s.subtracting_of_le hpos]
      exact h.noWrap
    have hsub : wordSub toSend 1 = toSend - 1 := wordSub_of_le hpos hlt
    simp only [State.advance, hpc] at hs
    cases victims with
    | nil => exact absurd hle (Nat.not_le.mpr hpos)
    | cons t victims =>
      rw [List.length_cons] at hle
      dsimp only at hs
      split at hs
      · obtain rfl := Option.some.inj hs
        refine h.shuffle rfl ?_ rfl rfl ?_ hwrap
        · rw [hvictims]
          exact List.perm_append_singleton t victims
        · refine ⟨?_, ?_⟩
          · rw [hsub, List.length_append, List.length_singleton]
            omega
          · omega
      · obtain rfl := Option.some.inj hs
        refine h.give hvictims rfl rfl rfl rfl ⟨?_, ?_⟩ hwrap <;> omega
  | check victims =>
    have hvictims : s.pc.victims = victims := by rw [hpc]; rfl
    simp only [State.advance, hpc] at hs
    split at hs
    · rename_i hempty
      obtain rfl := Option.some.inj hs
      refine h.setPc hvictims.symm (List.length_eq_zero_iff.mp ?_)
      rw [← hempty, ← hvictims]
      exact (h.tlCount_eq hT none).symm
    · obtain rfl := Option.some.inj hs
      exact h.setPc hvictims.symm trivial
  | putBack victims =>
    have hvictims : s.pc.victims = victims := by rw [hpc]; rfl
    simp only [State.advance, hpc] at hs
    cases victims with
    | nil =>
      obtain rfl := Option.some.inj hs
      exact h.setPc hvictims.symm rfl
    | cons t victims =>
      obtain rfl := Option.some.inj hs
      have htc : s.tCpu t = c := h.home none t (by
        rw [held_none, hvictims]
        exact List.mem_cons_self)
      refine h.give hvictims rfl rfl ?_ rfl trivial h.noWrap
      exact (Function.update_eq_self_iff.mpr htc.symm).symm
  | done victims => simp [State.advance, hpc] at hs
  | crashed => simp [State.advance, hpc] at hs

omit [DecidableEq T] in
theorem Inv.start (q : Queues n T) (c : Fin n) : Inv q c q.start where
  exact := by
    refine ⟨?_, ?_, fun t => ?_⟩
    · rintro (_ | d)
      · exact List.nodup_nil
      · exact q.nodup d
    · rintro (_ | d) (_ | e) t ht ht'
      · rfl
      · cases ht
      · cases ht'
      · exact congrArg some ((q.tCpu_eq d t ht).symm.trans (q.tCpu_eq e t ht'))
    · constructor
      · rintro (⟨d, hd⟩ | h)
        · exact ⟨some d, hd⟩
        · cases h
      · rintro ⟨_ | d, ht⟩
        · cases ht
        · exact Or.inl ⟨d, ht⟩
  home := by
    rintro (_ | d) t ht
    · cases ht
    · exact q.tCpu_eq d t ht
  counts := ⟨Nat.zero_le _, by decide⟩
  noWrap := rfl

theorem inv_of_reachable [Fintype T] (hT : Fintype.card T < 2 ^ 32)
    (h : (system q c curthread).Reachable s) : Inv q c s := by
  refine h.invariant ?_ ?_
  · rintro s rfl
    exact Inv.start q c
  · intro s a s' hinv hs
    cases a with
    | advance => exact hinv.advance hT hs
    | arrive d t =>
      change (if s.pc.lock c = some d ∨ s.queued t then none else some _) = some s' at hs
      split at hs
      · cases hs
      · rename_i hfree
        obtain rfl := Option.some.inj hs
        exact hinv.arrive (Bool.eq_false_iff.mpr fun h => hfree (Or.inr h))

end Migration

end Thread

end Os161
