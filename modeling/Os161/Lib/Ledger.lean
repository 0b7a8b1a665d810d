import Mathlib.Logic.Basic
import Mathlib.Data.Set.Defs

/-!
# Ledgers

An allocator keeps a record of what is in use; the rest of the system holds on to things in many
different ways. A `Ledger` says that the two agree: what is recorded as used is what somebody holds,
and no two hold the same thing. The ways of holding are an arbitrary type, and *how* a thing is held
is an arbitrary relation, usually read off the state of the system.

A step of the system does one of three things to a ledger: it takes something new (`claim`), it
holds what is held in another way (`map`), or it gives things back (`release`).
-/

namespace Os161

variable {β ω ω' : Type*}

/-- What is used is what is held, each by one holder. -/
structure Ledger (used : β → Prop) (holds : ω → β → Prop) : Prop where
  /-- What is used is what is held. -/
  exact : ∀ b, used b ↔ ∃ w, holds w b
  /-- Nothing is held twice. -/
  unique : ∀ w w' b, holds w b → holds w' b → w = w'

namespace Ledger

variable {used used' : β → Prop} {holds : ω → β → Prop} {holds' : ω' → β → Prop}

theorem used_of_holds (h : Ledger used holds) {w : ω} {b : β} (hw : holds w b) : used b :=
  (h.exact b).mpr ⟨w, hw⟩

/-- Nobody holds what is not used. -/
theorem fresh (h : Ledger used holds) {b : β} (hb : ¬ used b) (w : ω) : ¬ holds w b :=
  fun hw => hb (h.used_of_holds hw)

/-- Something is taken that was not used. -/
theorem claim {holds' : ω → β → Prop} (h : Ledger used holds) {b₀ : β} {w₀ : ω}
    (hfresh : ¬ used b₀) (hu : ∀ b, used' b ↔ used b ∨ b = b₀)
    (hh : ∀ w b, holds' w b ↔ holds w b ∨ w = w₀ ∧ b = b₀) : Ledger used' holds' where
  exact := by
    intro b
    rw [hu, h.exact]
    constructor
    · rintro (⟨w, hw⟩ | rfl)
      · exact ⟨w, (hh w b).mpr (.inl hw)⟩
      · exact ⟨w₀, (hh w₀ b).mpr (.inr ⟨rfl, rfl⟩)⟩
    · rintro ⟨w, hw⟩
      rcases (hh w b).mp hw with hw | ⟨-, rfl⟩
      · exact .inl ⟨w, hw⟩
      · exact .inr rfl
  unique := by
    intro w w' b hw hw'
    rcases (hh w b).mp hw with hw | ⟨rfl, rfl⟩ <;> rcases (hh w' b).mp hw' with hw' | ⟨rfl, h'⟩
    · exact h.unique w w' b hw hw'
    · exact absurd (h' ▸ hw) (h.fresh hfresh w)
    · exact absurd hw' (h.fresh hfresh w')
    · rfl

/-- What is held is held in another way. -/
theorem map (h : Ledger used holds) (f : ω → β → ω') (hu : ∀ b, used' b ↔ used b)
    (hh : ∀ w b, holds' w b ↔ ∃ v, f v b = w ∧ holds v b) : Ledger used' holds' where
  exact := by
    intro b
    rw [hu, h.exact]
    constructor
    · rintro ⟨v, hv⟩
      exact ⟨f v b, (hh _ b).mpr ⟨v, rfl, hv⟩⟩
    · rintro ⟨w, hw⟩
      obtain ⟨v, -, hv⟩ := (hh w b).mp hw
      exact ⟨v, hv⟩
  unique := by
    intro w w' b hw hw'
    obtain ⟨v, rfl, hv⟩ := (hh w b).mp hw
    obtain ⟨v', rfl, hv'⟩ := (hh w' b).mp hw'
    rw [h.unique v v' b hv hv']

theorem congr {holds' : ω → β → Prop} (h : Ledger used holds) (hu : ∀ b, used' b ↔ used b)
    (hh : ∀ w b, holds' w b ↔ holds w b) : Ledger used' holds' :=
  h.map (fun w _ => w) hu fun w b => by
    rw [hh]
    exact ⟨fun hw => ⟨w, rfl, hw⟩, fun ⟨v, hv, hh⟩ => hv ▸ hh⟩

/-- What is in `D` is given back, and nobody holds it any longer. -/
theorem release {holds' : ω → β → Prop} (h : Ledger used holds) (D : β → Prop)
    (hu : ∀ b, used' b ↔ used b ∧ ¬ D b) (hh : ∀ w b, holds' w b ↔ holds w b ∧ ¬ D b) :
    Ledger used' holds' where
  exact := by
    intro b
    rw [hu, h.exact]
    constructor
    · rintro ⟨⟨w, hw⟩, hb⟩
      exact ⟨w, (hh w b).mpr ⟨hw, hb⟩⟩
    · rintro ⟨w, hw⟩
      obtain ⟨hw, hb⟩ := (hh w b).mp hw
      exact ⟨⟨w, hw⟩, hb⟩
  unique := by
    intro w w' b hw hw'
    exact h.unique w w' b ((hh w b).mp hw).1 ((hh w' b).mp hw').1

end Ledger

end Os161
