import Mathlib.Data.List.Basic

/-!
# Objects and what they stand for

An object is a state and a step function that gives each operation a result. What it is for is said
by a specification: a simpler state, when an operation may be called, what its results may be, and
what becomes of the simpler state. The result may leave things open, such as whether there is
memory, and then the simpler state follows the result that was given.

## Main definitions

* `Spec`
* `Conforms` — along a sequence of operations, the object does what the specification says

## Main results

* `conforms_of_step` — a relation that each step keeps is kept along every sequence
-/

namespace Os161

/-- What an object with operations `ι` and results `ρ` is for. -/
structure Spec (τ ι ρ : Type*) where
  /-- When an operation may be called. -/
  pre : τ → ι → Prop
  /-- What it may return. -/
  post : τ → ι → ρ → Prop
  /-- What it does, by what it returns. -/
  next : τ → ι → ρ → τ

variable {σ τ ι ρ : Type*}

/-- The object in the state `c` stands for `a`, and goes on to stand for what it should as long as
the operations called are ones that may be called. -/
def Conforms (step : σ → ι → σ × ρ) (S : Spec τ ι ρ) (R : σ → τ → Prop) :
    σ → τ → List ι → Prop
  | c, a, [] => R c a
  | c, a, i :: is => R c a ∧ (S.pre a i → S.post a i (step c i).2 ∧
      Conforms step S R (step c i).1 (S.next a i (step c i).2) is)

/-- **The refinement rule.** -/
theorem conforms_of_step {step : σ → ι → σ × ρ} {S : Spec τ ι ρ} {R : σ → τ → Prop}
    (hstep : ∀ c a i, R c a → S.pre a i →
      S.post a i (step c i).2 ∧ R (step c i).1 (S.next a i (step c i).2))
    {c : σ} {a : τ} (h : R c a) (is : List ι) : Conforms step S R c a is := by
  induction is generalizing c a with
  | nil => exact h
  | cons i is ih =>
    refine ⟨h, fun hpre => ?_⟩
    obtain ⟨hpost, hnext⟩ := hstep c a i h hpre
    exact ⟨hpost, ih hnext⟩

theorem Conforms.mono {step : σ → ι → σ × ρ} {S : Spec τ ι ρ} {R R' : σ → τ → Prop}
    (hR : ∀ c a, R c a → R' c a) {c : σ} {a : τ} {is : List ι} (h : Conforms step S R c a is) :
    Conforms step S R' c a is := by
  induction is generalizing c a with
  | nil => exact hR _ _ h
  | cons i is ih => exact ⟨hR _ _ h.1, fun hpre => ⟨(h.2 hpre).1, ih (h.2 hpre).2⟩⟩

end Os161
