import Mathlib.Data.List.Perm.Lattice
import Mathlib.Data.List.Nodup

/-!
# Things in exactly one place

A family of lists, one for each place, and a set of things that are in use. The family is exact if
each thing in use is in exactly one place, and there once, and nothing else is in any. What keeps it
exact is what queues are used for: moving some things from one place to another, bringing a new one
in, and taking one out for good.

## Main definitions

* `Places.Exact`

## Main results

* `Places.Exact.move`, `Places.Exact.add`, `Places.Exact.drop`, `Places.Exact.perm`
* `Places.Exact.existsUnique`
-/

namespace Os161

namespace Places

variable {P T : Type*} {f f' : P → List T} {live live' : T → Prop} {p q : P} {t : T} {l : List T}

/-- Each thing in use is in exactly one place, once, and nothing else is in any place. -/
structure Exact (f : P → List T) (live : T → Prop) : Prop where
  nodup : ∀ p, (f p).Nodup
  unique : ∀ {p q t}, t ∈ f p → t ∈ f q → p = q
  cover : ∀ t, live t ↔ ∃ p, t ∈ f p

theorem Exact.inUse (h : Exact f live) (ht : t ∈ f p) : live t := (h.cover t).mpr ⟨p, ht⟩

theorem Exact.existsUnique (h : Exact f live) (ht : live t) : ∃! p, t ∈ f p := by
  obtain ⟨p, hp⟩ := (h.cover t).mp ht
  exact ⟨p, hp, fun q hq => h.unique hq hp⟩

/-- Only the order in the lists has changed. -/
theorem Exact.perm (h : Exact f live) (hf : ∀ p, (f' p).Perm (f p)) : Exact f' live where
  nodup p := (hf p).nodup_iff.mpr (h.nodup p)
  unique hp hq := h.unique ((hf _).mem_iff.mp hp) ((hf _).mem_iff.mp hq)
  cover t := (h.cover t).trans (exists_congr fun p => (hf p).mem_iff.symm)

/-- **Moving.** The things in `l` go from `p` to `q`. -/
theorem Exact.move (h : Exact f live) (hpq : p ≠ q) (hp : (f p).Perm (l ++ f' p))
    (hq : (f' q).Perm (f q ++ l)) (hr : ∀ r, r ≠ p → r ≠ q → f' r = f r) : Exact f' live := by
  have hnodup := List.nodup_append'.mp (hp.nodup_iff.mp (h.nodup p))
  have hl : ∀ {t}, t ∈ l → t ∈ f p := fun ht => hp.mem_iff.mpr (List.mem_append_left _ ht)
  -- where a thing is now, in terms of where it was
  have hmem : ∀ {r t}, t ∈ f' r → t ∉ l ∧ t ∈ f r ∨ t ∈ l ∧ r = q := by
    intro r t ht
    by_cases hrp : r = p
    · subst hrp
      exact Or.inl ⟨fun hl => hnodup.2.2 hl ht, hp.mem_iff.mpr (List.mem_append_right _ ht)⟩
    by_cases hrq : r = q
    · subst hrq
      by_cases htl : t ∈ l
      · exact Or.inr ⟨htl, rfl⟩
      · exact Or.inl ⟨htl, (List.mem_append.mp (hq.mem_iff.mp ht)).resolve_right htl⟩
    · rw [hr r hrp hrq] at ht
      exact Or.inl ⟨fun htl => hrp (h.unique ht (hl htl)), ht⟩
  refine ⟨fun r => ?_, ?_, fun t => ?_⟩
  · by_cases hrp : r = p
    · subst hrp
      exact hnodup.2.1
    by_cases hrq : r = q
    · subst hrq
      refine hq.nodup_iff.mpr (List.nodup_append'.mpr ⟨h.nodup r, hnodup.1, ?_⟩)
      intro t ht htl
      exact hrp (h.unique ht (hl htl))
    · rw [hr r hrp hrq]
      exact h.nodup r
  · intro r r' t ht ht'
    rcases hmem ht with ⟨hn, ht⟩ | ⟨htl, rfl⟩
    · rcases hmem ht' with ⟨-, ht'⟩ | ⟨htl, -⟩
      · exact h.unique ht ht'
      · exact absurd htl hn
    · rcases hmem ht' with ⟨hn, -⟩ | ⟨-, rfl⟩
      · exact absurd htl hn
      · rfl
  · refine (h.cover t).trans ⟨?_, ?_⟩
    · rintro ⟨r, ht⟩
      by_cases htl : t ∈ l
      · exact ⟨q, hq.mem_iff.mpr (List.mem_append_right _ htl)⟩
      refine ⟨r, ?_⟩
      by_cases hrp : r = p
      · subst hrp
        exact (List.mem_append.mp (hp.mem_iff.mp ht)).resolve_left htl
      by_cases hrq : r = q
      · subst hrq
        exact hq.mem_iff.mpr (List.mem_append_left _ ht)
      · rwa [hr r hrp hrq]
    · rintro ⟨r, ht⟩
      rcases hmem ht with ⟨-, ht⟩ | ⟨htl, -⟩
      · exact ⟨r, ht⟩
      · exact ⟨p, hl htl⟩

/-- **Coming in.** The new thing `t` is put at `q`. -/
theorem Exact.add (h : Exact f live) (ht : ¬live t) (hq : (f' q).Perm (f q ++ [t]))
    (hr : ∀ r, r ≠ q → f' r = f r) (hlive : ∀ u, live' u ↔ live u ∨ u = t) : Exact f' live' := by
  have hnew : ∀ r, t ∉ f r := fun r hr => ht (h.inUse hr)
  have hmem : ∀ r u, u ∈ f' r ↔ u ∈ f r ∨ u = t ∧ r = q := by
    intro r u
    by_cases hrq : r = q
    · subst hrq
      simp [hq.mem_iff]
    · simp [hr r hrq, hrq]
  refine ⟨fun r => ?_, ?_, fun u => ?_⟩
  · by_cases hrq : r = q
    · subst hrq
      refine hq.nodup_iff.mpr (List.nodup_append'.mpr ⟨h.nodup r, List.nodup_singleton t, ?_⟩)
      intro u hu hut
      rw [List.mem_singleton.mp hut] at hu
      exact hnew r hu
    · rw [hr r hrq]
      exact h.nodup r
  · intro r r' u hu hu'
    rw [hmem] at hu hu'
    rcases hu with hu | ⟨rfl, rfl⟩
    · rcases hu' with hu' | ⟨rfl, -⟩
      · exact h.unique hu hu'
      · exact absurd hu (hnew r)
    · rcases hu' with hu' | ⟨-, rfl⟩
      · exact absurd hu' (hnew r')
      · rfl
  · rw [hlive, h.cover]
    simp only [hmem]
    constructor
    · rintro (⟨r, hu⟩ | rfl)
      · exact ⟨r, Or.inl hu⟩
      · exact ⟨q, Or.inr ⟨rfl, rfl⟩⟩
    · rintro ⟨r, hu | ⟨rfl, -⟩⟩
      · exact Or.inl ⟨r, hu⟩
      · exact Or.inr rfl

/-- **Going away.** `t` is taken out of `p`. -/
theorem Exact.drop (h : Exact f live) (hp : (f p).Perm (t :: f' p))
    (hr : ∀ r, r ≠ p → f' r = f r) (hlive : ∀ u, live' u ↔ live u ∧ u ≠ t) : Exact f' live' := by
  have hnodup := List.nodup_cons.mp (hp.nodup_iff.mp (h.nodup p))
  have ht : t ∈ f p := hp.mem_iff.mpr List.mem_cons_self
  have hmem : ∀ r u, u ∈ f' r ↔ u ∈ f r ∧ u ≠ t := by
    intro r u
    by_cases hrp : r = p
    · subst hrp
      rw [hp.mem_iff, List.mem_cons]
      constructor
      · intro hu
        refine ⟨Or.inr hu, ?_⟩
        rintro rfl
        exact hnodup.1 hu
      · rintro ⟨hu | hu, hne⟩
        · exact absurd hu hne
        · exact hu
    · rw [hr r hrp]
      refine ⟨fun hu => ⟨hu, ?_⟩, And.left⟩
      rintro rfl
      exact hrp (h.unique hu ht)
  refine ⟨fun r => ?_, ?_, fun u => ?_⟩
  · by_cases hrp : r = p
    · subst hrp
      exact hnodup.2
    · rw [hr r hrp]
      exact h.nodup r
  · intro r r' u hu hu'
    exact h.unique ((hmem r u).mp hu).1 ((hmem r' u).mp hu').1
  · rw [hlive, h.cover]
    simp only [hmem]
    constructor
    · rintro ⟨⟨r, hu⟩, hne⟩
      exact ⟨r, hu, hne⟩
    · rintro ⟨r, hu, hne⟩
      exact ⟨⟨r, hu⟩, hne⟩

end Places

end Os161
