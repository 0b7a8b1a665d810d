import Mathlib.Data.List.Basic

/-!
# Traces

An object that answers requests, one after the other, and a relation that says which answers a
simpler object may give and what becomes of it. Where every single request is answered as the
simpler object may answer it, so is every sequence of them: the object's trace is one of the
simpler object's.

In contrast to a specification by a function, the answer need not determine what becomes of the
simpler object.

## Main definitions

* `answers` — the trace of an object
* `Traces` — the traces that are allowed

## Main results

* `traces_answers` — the simulation rule
-/

namespace Os161

variable {σ τ ι ρ : Type*}

/-- The requests with their answers, and the state in the end. -/
def answers (step : σ → ι → σ × ρ) : σ → List ι → List (ι × ρ) × σ
  | s, [] => ([], s)
  | s, i :: is => ((i, (step s i).2) :: (answers step (step s i).1 is).1,
      (answers step (step s i).1 is).2)

/-- Every request is answered. -/
theorem map_fst_answers (step : σ → ι → σ × ρ) (s : σ) (is : List ι) :
    (answers step s is).1.map Prod.fst = is := by
  induction is generalizing s with
  | nil => rfl
  | cons i is ih => exact congrArg (i :: ·) (ih _)

/-- From `a`, answering as the relation `S` allows leads to `b`. -/
inductive Traces (S : τ → ι → ρ → τ → Prop) : τ → List (ι × ρ) → τ → Prop
  | nil (a : τ) : Traces S a [] a
  | cons {a b c : τ} {i : ι} {r : ρ} {l : List (ι × ρ)} :
      S a i r b → Traces S b l c → Traces S a ((i, r) :: l) c

/-- **The simulation rule.** -/
theorem traces_answers {step : σ → ι → σ × ρ} {S : τ → ι → ρ → τ → Prop} {R : σ → τ → Prop}
    {P : ι → Prop}
    (hstep : ∀ s a i, R s a → P i → ∃ b, S a i (step s i).2 b ∧ R (step s i).1 b)
    {s : σ} {a : τ} (h : R s a) {is : List ι} (hP : ∀ i ∈ is, P i) :
    ∃ b, Traces S a (answers step s is).1 b ∧ R (answers step s is).2 b := by
  induction is generalizing s a with
  | nil => exact ⟨a, .nil a, h⟩
  | cons i is ih =>
    obtain ⟨b, hS, hR⟩ := hstep s a i h (hP i List.mem_cons_self)
    obtain ⟨c, htrace, hR'⟩ := ih hR fun j hj => hP j (List.mem_cons_of_mem i hj)
    exact ⟨c, .cons hS htrace, hR'⟩

/-- What one answer keeps, a trace keeps. -/
theorem Traces.keeps {S : τ → ι → ρ → τ → Prop} {P : τ → Prop} {Q : ι → Prop}
    (hstep : ∀ a i r b, P a → Q i → S a i r b → P b) {a b : τ} {l : List (ι × ρ)}
    (h : Traces S a l b) (hQ : ∀ x ∈ l, Q x.1) (ha : P a) : P b := by
  induction h with
  | nil => exact ha
  | cons hS _ ih =>
    exact ih (fun x hx => hQ x (List.mem_cons_of_mem _ hx))
      (hstep _ _ _ _ ha (hQ _ List.mem_cons_self) hS)

end Os161
