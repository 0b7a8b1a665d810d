import Mathlib.Logic.Relation
import Mathlib.Data.Finset.Card
import Mathlib.Data.Finset.Filter

/-!
# Graphs without cycles

A graph is a relation, and has no cycle if its transitive closure is irreflexive. The rules here say
which changes to the edges keep it so: taking edges away (`mono`), an edge whose ends are not joined
the other way (`edge`), and edges into a node that leads nowhere (`sink`). A graph without cycles,
in which only finitely many nodes have edges, has no infinite path (`acc`).
-/

namespace Os161

open Relation

variable {α : Type*}

/-- No path leads from a node back to it. -/
def Acyclic (R : α → α → Prop) : Prop := ∀ x, ¬ TransGen R x x

namespace Acyclic

variable {R R' : α → α → Prop}

theorem mono (h : Acyclic R) (hR : ∀ x y, R' x y → R x y) : Acyclic R' :=
  fun x hx => h x (TransGen.mono hR x x hx)

/-- A path in the graph with one more edge uses the edge or does not. -/
theorem path_of_edge {a b x y : α} (hR : ∀ x y, R' x y → R x y ∨ x = a ∧ y = b)
    (h : TransGen R' x y) : TransGen R x y ∨ ReflTransGen R x a ∧ ReflTransGen R b y := by
  induction h with
  | single h =>
    rcases hR _ _ h with h | ⟨rfl, rfl⟩
    · exact .inl (.single h)
    · exact .inr ⟨.refl, .refl⟩
  | tail _ h ih =>
    rcases hR _ _ h with h | ⟨rfl, rfl⟩
    · rcases ih with ih | ⟨ih₁, ih₂⟩
      · exact .inl (ih.tail h)
      · exact .inr ⟨ih₁, ih₂.tail h⟩
    · rcases ih with ih | ⟨ih₁, -⟩
      · exact .inr ⟨ih.to_reflTransGen, .refl⟩
      · exact .inr ⟨ih₁, .refl⟩

/-- One more edge, whose end does not lead back to its start. -/
theorem edge {a b : α} (h : Acyclic R) (hR : ∀ x y, R' x y → R x y ∨ x = a ∧ y = b)
    (hba : ¬ ReflTransGen R b a) : Acyclic R' := by
  intro x hx
  rcases path_of_edge hR hx with hx | ⟨hxa, hbx⟩
  · exact h x hx
  · exact hba (hbx.trans hxa)

/-- More edges into a node that leads nowhere. -/
theorem sink {a : α} (h : Acyclic R) (hR : ∀ x y, R' x y → R x y ∨ y = a)
    (ha : ∀ y, ¬ R' a y) : Acyclic R' := by
  have hpath : ∀ x y, TransGen R' x y → TransGen R x y ∨ y = a := by
    intro x y hxy
    induction hxy with
    | single h => exact (hR _ _ h).imp .single id
    | tail _ h ih =>
      rcases ih with ih | rfl
      · exact (hR _ _ h).imp ih.tail id
      · exact absurd h (ha _)
  intro x hx
  rcases hpath x x hx with hx' | rfl
  · exact h x hx'
  · obtain ⟨y, hy, -⟩ := TransGen.head'_iff.mp hx
    exact ha y hy

/-- Where finitely many nodes have edges, every path ends. -/
theorem acc (h : Acyclic R) (W : Finset α) (hW : ∀ x y, R x y → x ∈ W) (x : α) :
    Acc (fun b a => R a b) x := by
  classical
  -- along an edge the set of nodes with edges that can be reached gets smaller
  generalize hn : (W.filter fun y => ReflTransGen R x y).card = n
  induction n using Nat.strong_induction_on generalizing x with
  | _ n ih =>
    refine .intro x fun y hxy => ih _ ?_ y rfl
    rw [← hn]
    refine Finset.card_lt_card ⟨fun z hz => ?_, fun hsub => ?_⟩
    · simp only [Finset.mem_filter] at hz ⊢
      exact ⟨hz.1, .head hxy hz.2⟩
    · have hx : x ∈ W.filter fun z => ReflTransGen R y z :=
        hsub (by simp [hW x y hxy, ReflTransGen.refl])
      exact h x (TransGen.head' hxy (Finset.mem_filter.mp hx).2)

end Acyclic

end Os161
