import Mathlib.Data.List.Chain
import Mathlib.Logic.Function.Basic

/-!
# Doubly linked lists

Nodes that each may point to a next one and to a previous one. A list of nodes is linked if each of
them and the one after it point to each other; what the first one points back to and the last one
points on to is left open, so that the list may have bookends or go around.

## Main definitions

* `Links.Linked`
* `Links.insert`, `Links.unlink`

## Main results

* `Links.isChain_insert`, `Links.isChain_unlink` — the list the node was put in or taken out of
* `Links.isChain_insert_of_not_mem`, `Links.isChain_unlink_of_not_mem` — every other list
-/

namespace Os161

/-- The pointers of each node. -/
@[ext]
structure Links (α : Type*) where
  next : α → Option α
  prev : α → Option α

namespace Links

open Function

variable {α : Type*} {h h' : Links α} {x y t : α} {l A B : List α}

/-- `x` and `y` point to each other. -/
def Linked (h : Links α) (x y : α) : Prop :=
  h.next x = some y ∧ h.prev y = some x

/-- The other way around. -/
def swap (h : Links α) : Links α := ⟨h.prev, h.next⟩

theorem linked_swap : h.swap.Linked x y ↔ h.Linked y x :=
  and_comm

theorem isChain_swap : l.reverse.IsChain h.swap.Linked ↔ l.IsChain h.Linked := by
  rw [List.isChain_reverse]
  simp only [linked_swap]

/-- A list depends on where its nodes point on, up to the last one, and back, from the second. -/
theorem isChain_congr (hl : l.IsChain h.Linked) (hnext : ∀ x ∈ l.dropLast, h'.next x = h.next x)
    (hprev : ∀ x ∈ l.tail, h'.prev x = h.prev x) : l.IsChain h'.Linked := by
  induction l with
  | nil => exact .nil
  | cons x l ih =>
    cases l with
    | nil => exact .singleton x
    | cons y l =>
      obtain ⟨hxy, hl⟩ := List.isChain_cons_cons.mp hl
      refine List.isChain_cons_cons.mpr ⟨⟨?_, ?_⟩, ih hl (fun z hz => hnext z ?_) fun z hz => ?_⟩
      · rw [hnext x (by simp), hxy.1]
      · rw [hprev y (by simp), hxy.2]
      · exact List.mem_cons_of_mem _ hz
      · exact hprev z (List.mem_cons_of_mem _ hz)

/-- The part of the list up to `x` and the part from `y` on, where only `x` has changed what it
points on to and only `y` what it points back to. -/
private theorem isChain_parts (hnd : (A ++ x :: y :: B).Nodup)
    (hA : (A ++ [x]).IsChain h.Linked) (hB : (y :: B).IsChain h.Linked)
    (hnext : ∀ z, z ∈ A ++ x :: y :: B → z ≠ x → h'.next z = h.next z)
    (hprev : ∀ z, z ∈ A ++ x :: y :: B → z ≠ y → h'.prev z = h.prev z) :
    (A ++ [x]).IsChain h'.Linked ∧ (y :: B).IsChain h'.Linked := by
  rw [List.nodup_append, List.nodup_cons, List.nodup_cons] at hnd
  obtain ⟨-, ⟨hx, hy, -⟩, hne⟩ := hnd
  constructor
  · refine isChain_congr hA (fun z hz => ?_) fun z hz => ?_
    · rw [List.dropLast_concat] at hz
      exact hnext z (List.mem_append_left _ hz) (hne z hz x (by simp))
    · have hz := List.mem_of_mem_tail hz
      refine hprev z ?_ ?_
      · simp only [List.mem_append, List.mem_cons] at hz ⊢
        tauto
      · rintro rfl
        rcases List.mem_append.mp hz with hz | hz
        · exact hne z hz z (by simp) rfl
        · exact hx (by simp [List.mem_singleton.mp hz])
  · refine isChain_congr hB (fun z hz => ?_) fun z hz => ?_
    · have hz := List.dropLast_subset _ hz
      refine hnext z ?_ ?_
      · exact List.mem_append_right _ (List.mem_cons_of_mem _ hz)
      · rintro rfl
        exact hx hz
    · refine hprev z ?_ ?_
      · exact List.mem_append_right _ (List.mem_cons_of_mem _ (List.mem_cons_of_mem _ hz))
      · rintro rfl
        exact hy hz

section

variable [DecidableEq α]

/-- Puts `t` between `x` and `y`. -/
def insert (h : Links α) (x t y : α) : Links α where
  next := update (update h.next t (some y)) x (some t)
  prev := update (update h.prev t (some x)) y (some t)

/-- Takes `t` out from between `x` and `y`. -/
def unlink (h : Links α) (x t y : α) : Links α where
  next := update (update h.next x (some y)) t none
  prev := update (update h.prev y (some x)) t none

theorem insert_next_of_ne {z : α} (hx : z ≠ x) (ht : z ≠ t) :
    (h.insert x t y).next z = h.next z := by
  simp only [insert, update_of_ne hx, update_of_ne ht]

theorem insert_prev_of_ne {z : α} (hy : z ≠ y) (ht : z ≠ t) :
    (h.insert x t y).prev z = h.prev z := by
  simp only [insert, update_of_ne hy, update_of_ne ht]

theorem unlink_next_of_ne {z : α} (hx : z ≠ x) (ht : z ≠ t) :
    (h.unlink x t y).next z = h.next z := by
  simp only [unlink, update_of_ne ht, update_of_ne hx]

theorem unlink_prev_of_ne {z : α} (hy : z ≠ y) (ht : z ≠ t) :
    (h.unlink x t y).prev z = h.prev z := by
  simp only [unlink, update_of_ne ht, update_of_ne hy]

theorem linked_insert_left (hyt : y ≠ t) : (h.insert x t y).Linked x t := by
  simp [Linked, insert, hyt.symm]

theorem linked_insert_right (hxt : x ≠ t) : (h.insert x t y).Linked t y := by
  simp [Linked, insert, hxt.symm]

theorem linked_unlink (hxt : x ≠ t) (hyt : y ≠ t) : (h.unlink x t y).Linked x y := by
  simp [Linked, unlink, hxt, hyt]

@[simp]
theorem unlink_next_self : (h.unlink x t y).next t = none :=
  update_self ..

@[simp]
theorem unlink_prev_self : (h.unlink x t y).prev t = none :=
  update_self ..

/-- **The list `t` is put in.** -/
theorem isChain_insert (hnd : (A ++ x :: y :: B).Nodup) (ht : t ∉ A ++ x :: y :: B)
    (hl : (A ++ x :: y :: B).IsChain h.Linked) :
    (A ++ x :: t :: y :: B).IsChain (h.insert x t y).Linked := by
  have hne : ∀ z ∈ A ++ x :: y :: B, z ≠ t := fun z hz => ne_of_mem_of_not_mem hz ht
  have hxt := hne x (by simp)
  have hyt := hne y (by simp)
  obtain ⟨hA, -, hB⟩ := List.isChain_append_cons_cons.mp hl
  obtain ⟨hA, hB⟩ := isChain_parts hnd hA hB
    (fun z hz hx => insert_next_of_ne (y := y) hx (hne z hz))
    (fun z hz hy => insert_prev_of_ne (x := x) hy (hne z hz))
  rw [List.isChain_append_cons_cons, List.isChain_cons_cons]
  exact ⟨hA, linked_insert_left hyt, linked_insert_right hxt, hB⟩

/-- **The list `t` is taken out of.** -/
theorem isChain_unlink (hnd : (A ++ x :: t :: y :: B).Nodup)
    (hl : (A ++ x :: t :: y :: B).IsChain h.Linked) :
    (A ++ x :: y :: B).IsChain (h.unlink x t y).Linked := by
  have hperm : (A ++ x :: t :: y :: B).Perm (t :: (A ++ x :: y :: B)) :=
    ((List.Perm.swap t x _).append_left A).trans List.perm_middle
  obtain ⟨ht, hnd⟩ := List.nodup_cons.mp (hperm.nodup_iff.mp hnd)
  have hne : ∀ z ∈ A ++ x :: y :: B, z ≠ t := fun z hz => ne_of_mem_of_not_mem hz ht
  have hxt := hne x (by simp)
  have hyt := hne y (by simp)
  obtain ⟨hA, -, hB⟩ := List.isChain_append_cons_cons.mp hl
  obtain ⟨hA, hB⟩ := isChain_parts hnd hA (List.isChain_cons_cons.mp hB).2
    (fun z hz hx => unlink_next_of_ne (y := y) hx (hne z hz))
    (fun z hz hy => unlink_prev_of_ne (x := x) hy (hne z hz))
  rw [List.isChain_append_cons_cons]
  exact ⟨hA, linked_unlink hxt hyt, hB⟩

/-- **Every other list.** -/
theorem isChain_insert_of_not_mem (hx : x ∉ l) (ht : t ∉ l) (hy : y ∉ l)
    (hl : l.IsChain h.Linked) : l.IsChain (h.insert x t y).Linked := by
  refine isChain_congr hl (fun z hz => ?_) fun z hz => ?_
  · have hz := List.dropLast_subset _ hz
    exact insert_next_of_ne (ne_of_mem_of_not_mem hz hx) (ne_of_mem_of_not_mem hz ht)
  · have hz := List.mem_of_mem_tail hz
    exact insert_prev_of_ne (ne_of_mem_of_not_mem hz hy) (ne_of_mem_of_not_mem hz ht)

/-- **Every other list.** -/
theorem isChain_unlink_of_not_mem (hx : x ∉ l) (ht : t ∉ l) (hy : y ∉ l)
    (hl : l.IsChain h.Linked) : l.IsChain (h.unlink x t y).Linked := by
  refine isChain_congr hl (fun z hz => ?_) fun z hz => ?_
  · have hz := List.dropLast_subset _ hz
    exact unlink_next_of_ne (ne_of_mem_of_not_mem hz hx) (ne_of_mem_of_not_mem hz ht)
  · have hz := List.mem_of_mem_tail hz
    exact unlink_prev_of_ne (ne_of_mem_of_not_mem hz hy) (ne_of_mem_of_not_mem hz ht)

end

end Links

end Os161
