import Mathlib.Data.List.Basic
import Mathlib.Logic.Function.Basic
import Mathlib.Order.Nat

/-!
# Arrays with empty slots

An array of pointers some of which are null, kept so that a place once given out stays valid. Such
an array is a list of optional values; what matters of it is the partial function from places to
values, `Slots.get`. Clearing a place, filling one and adding one at the end are updates of that
function.

## Main definitions

* `Slots.get` — the value at a place
* `Slots.find`, `Slots.free` — the first place with a value that passes a test, the first empty one
* `Slots.put` — fill a place of the array, or the one right after its end

## Main results

* `Slots.get_set`, `Slots.get_put`, `Slots.get_modify`
* `Slots.find_eq_some`, `Slots.find_eq_none`, `Slots.free_spec`
-/

namespace Os161

namespace Slots

variable {α : Type*}

/-- The value at place `i`. -/
def get (l : List (Option α)) (i : ℕ) : Option α := l[i]?.join

theorem get_eq_some {l : List (Option α)} {i : ℕ} {a : α} :
    get l i = some a ↔ l[i]? = some (some a) := Option.join_eq_some_iff

theorem lt_of_get {l : List (Option α)} {i : ℕ} {a : α} (h : get l i = some a) : i < l.length := by
  rw [get_eq_some] at h
  exact (List.getElem?_eq_some_iff.mp h).1

theorem get_of_length_le {l : List (Option α)} {i : ℕ} (h : l.length ≤ i) : get l i = none := by
  rw [get, List.getElem?_eq_none h]
  rfl

@[simp] theorem get_nil (i : ℕ) : get ([] : List (Option α)) i = none :=
  get_of_length_le (Nat.zero_le i)

theorem get_set {l : List (Option α)} {i : ℕ} (h : i < l.length) (x : Option α) :
    get (l.set i x) = Function.update (get l) i x := by
  funext j
  rcases eq_or_ne j i with rfl | hj
  · rw [Function.update_self, get, List.getElem?_set_self h]
    rfl
  · rw [Function.update_of_ne hj, get, List.getElem?_set_ne hj.symm]
    rfl

/-- Fill place `i`, which is in the array or right after its end. -/
def put (l : List (Option α)) (i : ℕ) (a : α) : List (Option α) :=
  if i < l.length then l.set i (some a) else l ++ [some a]

theorem get_put {l : List (Option α)} {i : ℕ} (h : i ≤ l.length) (a : α) :
    get (put l i a) = Function.update (get l) i (some a) := by
  rw [put]
  split
  · rename_i hlt
    exact get_set hlt _
  · rename_i hge
    obtain rfl : i = l.length := Nat.le_antisymm h (not_lt.mp hge)
    funext j
    rcases eq_or_ne j l.length with rfl | hj
    · rw [Function.update_self, get, List.getElem?_concat_length]
      rfl
    · rw [Function.update_of_ne hj, get, get]
      rcases lt_or_gt_of_ne hj with hlt | hgt
      · rw [List.getElem?_append_left hlt]
      · rw [List.getElem?_eq_none (by simp; omega), List.getElem?_eq_none (by omega)]

theorem lt_length_put {l : List (Option α)} {i : ℕ} (h : i ≤ l.length) (a : α) :
    i < (put l i a).length := by
  rw [put]
  split
  · rwa [List.length_set]
  · rw [List.length_append, List.length_singleton]
    omega

/-- Filling an empty place and clearing it again changes nothing. -/
theorem get_set_put {l : List (Option α)} {i : ℕ} (h : i ≤ l.length) (hi : get l i = none) (a : α) :
    get ((put l i a).set i none) = get l := by
  rw [get_set (lt_length_put h a), get_put h, Function.update_idem, ← hi, Function.update_eq_self]

theorem length_put_le (l : List (Option α)) (i : ℕ) (a : α) :
    (put l i a).length ≤ l.length + 1 := by
  rw [put]
  split
  · rw [List.length_set]
    exact Nat.le_succ _
  · rw [List.length_append, List.length_singleton]

theorem get_modify {l : List (Option α)} {i : ℕ} {a : α} (h : get l i = some a) (f : α → α) :
    get (l.modify i (Option.map f)) = Function.update (get l) i (some (f a)) := by
  funext j
  rcases eq_or_ne j i with rfl | hj
  · rw [Function.update_self, get, List.getElem?_modify_eq, get_eq_some.mp h]
    rfl
  · rw [Function.update_of_ne hj, get, List.getElem?_modify_ne _ _ hj.symm]
    rfl

/-- The first place whose value passes a test. -/
def find (p : α → Bool) (l : List (Option α)) : Option ℕ := l.findIdx? fun x => x.any p

theorem find_eq_some {p : α → Bool} {l : List (Option α)} {k : ℕ} (h : find p l = some k) :
    ∃ a, get l k = some a ∧ p a = true := by
  obtain ⟨hlt, hp, -⟩ := List.findIdx?_eq_some_iff_getElem.mp h
  obtain ⟨a, ha, hpa⟩ := (Option.any_eq_true _ _).mp hp
  exact ⟨a, get_eq_some.mpr ((List.getElem?_eq_getElem hlt).trans (congrArg some ha)), hpa⟩

theorem find_eq_none {p : α → Bool} {l : List (Option α)} (h : find p l = none) {k : ℕ} {a : α}
    (ha : get l k = some a) : p a = false := by
  have hmem : some a ∈ l := List.mem_of_getElem? (get_eq_some.mp ha)
  exact List.findIdx?_eq_none_iff.mp h _ hmem

/-- The first empty place, which may be the one right after the end. -/
def free (l : List (Option α)) : ℕ := (l.findIdx? fun x => x.isNone).getD l.length

theorem free_spec (l : List (Option α)) : free l ≤ l.length ∧ get l (free l) = none := by
  rw [free]
  cases h : l.findIdx? fun x => x.isNone with
  | none => exact ⟨le_rfl, get_of_length_le le_rfl⟩
  | some k =>
    obtain ⟨hlt, hk, -⟩ := List.findIdx?_eq_some_iff_getElem.mp h
    refine ⟨hlt.le, ?_⟩
    rw [Option.getD_some, get, List.getElem?_eq_getElem hlt, Option.isNone_iff_eq_none.mp hk]
    rfl

end Slots

end Os161
