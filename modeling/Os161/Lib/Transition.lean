import Mathlib.Data.List.Basic
import Mathlib.Data.Nat.Find
import Mathlib.Order.RelClasses
import Mathlib.Algebra.GroupWithZero.Nat

/-!
# Guarded transition systems

The shape every concurrent component of the kernel is modelled in: a state, a set of actions, and
a partial step function. An action that is not enabled has no successor; which action fires next
is not determined, so a reachable state is one reached by *some* interleaving.

## Main definitions

* `TransitionSystem` — initial states and a partial step function
* `TransitionSystem.Reachable` — the states some finite sequence of actions leads to
* `TransitionSystem.ReachableWhile` — the same, for sequences all of whose steps meet a condition
* `TransitionSystem.Run` — a run that goes on for ever

## Main results

* `TransitionSystem.Reachable.invariant` — what holds initially and survives every enabled action
  holds in every reachable state
* `TransitionSystem.ReachableWhile.invariant` — the same rule for runs that meet a condition
* `TransitionSystem.reachable_of_run`, `reachableWhile_of_run` — a schedule that runs to its end
  reaches its last state
* `TransitionSystem.Run.finite_of_rank` — what moves a well-founded rank down happens only finitely
  often
-/

namespace Os161

/-- A transition system: which states are initial, and what each action does where it is
enabled. -/
structure TransitionSystem (σ α : Type*) where
  /-- The states a run may start in. -/
  init : σ → Prop
  /-- The successor of a state under an action, or `none` when the action is not enabled. -/
  step : σ → α → Option σ

namespace TransitionSystem

variable {σ α : Type*} (M : TransitionSystem σ α)

/-- The states reached by some finite sequence of enabled actions. -/
inductive Reachable : σ → Prop
  | init {s : σ} : M.init s → Reachable s
  | step {s s' : σ} (a : α) : Reachable s → M.step s a = some s' → Reachable s'

variable {M}

/-- **The invariant rule.** -/
theorem Reachable.invariant {P : σ → Prop} (hinit : ∀ s, M.init s → P s)
    (hstep : ∀ s a s', P s → M.step s a = some s' → P s') {s : σ} (h : M.Reachable s) : P s := by
  induction h with
  | init h => exact hinit _ h
  | step a _ hs ih => exact hstep _ a _ ih hs

variable (M) in
/-- The states reached by some finite sequence of enabled actions, each taken in a state in which
`C` allows it. -/
inductive ReachableWhile (C : σ → α → Prop) : σ → Prop
  | init {s : σ} : M.init s → ReachableWhile C s
  | step {s s' : σ} (a : α) : ReachableWhile C s → C s a → M.step s a = some s' →
      ReachableWhile C s'

/-- The invariant rule for runs that meet a condition. -/
theorem ReachableWhile.invariant {C : σ → α → Prop} {P : σ → Prop} (hinit : ∀ s, M.init s → P s)
    (hstep : ∀ s a s', P s → C s a → M.step s a = some s' → P s') {s : σ}
    (h : M.ReachableWhile C s) : P s := by
  induction h with
  | init h => exact hinit _ h
  | step a _ hc hs ih => exact hstep _ a _ ih hc hs

/-- A schedule that is enabled throughout leads from reachable states to reachable states. -/
theorem reachable_of_run {s s' : σ} (acts : List α) (h : M.Reachable s)
    (hrun : acts.foldlM M.step s = some s') : M.Reachable s' := by
  induction acts generalizing s with
  | nil =>
    obtain rfl : s = s' := by simpa using hrun
    exact h
  | cons a acts ih =>
    rw [List.foldlM_cons] at hrun
    cases ha : M.step s a with
    | none => simp [ha] at hrun
    | some t => exact ih (h.step a ha) (by simpa [ha] using hrun)

/-- A schedule that is enabled throughout, each step passing a test that implies the condition. -/
theorem reachableWhile_of_run {C : σ → α → Prop} {test : σ → α → Bool}
    (htest : ∀ s a, test s a = true → C s a) {s s' : σ} (acts : List α)
    (h : M.ReachableWhile C s)
    (hrun : acts.foldlM (fun s a => if test s a then M.step s a else none) s = some s') :
    M.ReachableWhile C s' := by
  induction acts generalizing s with
  | nil =>
    obtain rfl : s = s' := by simpa using hrun
    exact h
  | cons a acts ih =>
    rw [List.foldlM_cons] at hrun
    by_cases hc : test s a = true
    · rw [if_pos hc] at hrun
      cases ha : M.step s a with
      | none => simp [ha] at hrun
      | some t => exact ih (h.step a (htest s a hc) ha) (by simpa [ha] using hrun)
    · simp [hc] at hrun

variable (M) in
/-- A run without an end: the states it goes through, and the actions it takes there. -/
structure Run (s : ℕ → σ) (a : ℕ → α) : Prop where
  init : M.init (s 0)
  step : ∀ k, M.step (s k) (a k) = some (s (k + 1))

theorem Run.reachable {s : ℕ → σ} {a : ℕ → α} (h : M.Run s a) (k : ℕ) : M.Reachable (s k) := by
  induction k with
  | zero => exact .init h.init
  | succ k ih => exact ih.step (a k) (h.step k)

/-- **The rank rule.** The actions of one kind move the rank down and the others leave it: then a
run takes only finitely many of that kind. -/
theorem Run.finite_of_rank {β : Type*} [Preorder β] [WellFoundedLT β] {s : ℕ → σ} {a : ℕ → α}
    (h : M.Run s a) (rank : σ → β) (mine : α → Prop)
    (hmine : ∀ s a s', M.Reachable s → mine a → M.step s a = some s' → rank s' < rank s)
    (hother : ∀ s a s', ¬mine a → M.step s a = some s' → rank s' = rank s) :
    ∃ k, ∀ j, k ≤ j → ¬mine (a j) := by
  classical
  suffices hall : ∀ b k, rank (s k) = b → ∃ k', ∀ j, k' ≤ j → ¬mine (a j) from hall _ 0 rfl
  intro b
  induction b using WellFoundedLT.induction with
  | ind b ih =>
    intro k hk
    by_cases hex : ∃ j, k ≤ j ∧ mine (a j)
    · -- up to the first of them the rank does not move
      have hfirst := Nat.find_spec hex
      have hkeep : ∀ m, k + m ≤ Nat.find hex → rank (s (k + m)) = rank (s k) := by
        intro m
        induction m with
        | zero => exact fun _ => rfl
        | succ m ihm =>
          intro hm
          rw [← Nat.add_assoc,
            hother _ _ _ (fun hmine => Nat.find_min hex (m := k + m) (by omega)
              ⟨Nat.le_add_right k m, hmine⟩) (h.step (k + m))]
          exact ihm (by omega)
      have hat : rank (s (Nat.find hex)) = b := by
        have hm := hkeep (Nat.find hex - k) (by omega)
        rw [Nat.add_sub_cancel' hfirst.1, hk] at hm
        exact hm
      have hlt := hmine _ _ _ (h.reachable _) hfirst.2 (h.step _)
      rw [hat] at hlt
      exact ih _ hlt _ rfl
    · exact ⟨k, fun j hj hmine => hex ⟨j, hj, hmine⟩⟩

end TransitionSystem

/-! ### Small systems, whose parties are named by numerals -/

instance neZeroTwo : NeZero 2 := ⟨by decide⟩

instance neZeroThree : NeZero 3 := ⟨by decide⟩

instance neZeroFour : NeZero 4 := ⟨by decide⟩

end Os161
