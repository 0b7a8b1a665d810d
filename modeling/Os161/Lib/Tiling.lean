import Mathlib.Data.List.Basic
import Mathlib.Order.Nat

/-!
# Blocks laid end to end

A stretch of addresses cut into consecutive blocks, each as long as `len` says. `stop` is where the
blocks end and `located` gives each its address. What an allocator does to such a stretch is replace
a few neighbouring blocks by others; the lemmas are about lists that are appended.

## Main definitions

* `Tiling.stop`, `Tiling.located`

## Main results

* `Tiling.stop_append`, `Tiling.located_append`
* `Tiling.eq_or_disjoint` — two blocks are the same or do not overlap
* `Tiling.split_of_mem` — what lies before a block and after it
-/

namespace Os161

namespace Tiling

variable {β : Type*} (len : β → ℕ)

/-- Where the blocks end that start at `a`. -/
def stop (a : ℕ) : List β → ℕ
  | [] => a
  | b :: bs => stop (a + len b) bs

/-- The blocks with their addresses. -/
def located (a : ℕ) : List β → List (ℕ × β)
  | [] => []
  | b :: bs => (a, b) :: located (a + len b) bs

variable {len} {a x y : ℕ} {b c : β} {bs pre post : List β}

@[simp] theorem stop_nil : stop len a [] = a := rfl

@[simp] theorem stop_cons : stop len a (b :: bs) = stop len (a + len b) bs := rfl

@[simp] theorem located_nil : located len a [] = [] := rfl

@[simp] theorem located_cons :
    located len a (b :: bs) = (a, b) :: located len (a + len b) bs := rfl

@[simp] theorem stop_append : stop len a (pre ++ post) = stop len (stop len a pre) post := by
  induction pre generalizing a with
  | nil => rfl
  | cons b pre ih => exact ih

@[simp] theorem located_append :
    located len a (pre ++ post) = located len a pre ++ located len (stop len a pre) post := by
  induction pre generalizing a with
  | nil => rfl
  | cons b pre ih => exact congrArg (List.cons (a, b)) ih

theorem le_stop : a ≤ stop len a bs := by
  induction bs generalizing a with
  | nil => exact Nat.le_refl a
  | cons b bs ih => exact (Nat.le_add_right a (len b)).trans ih

theorem len_le_stop (len : β → ℕ) (a : ℕ) (h : b ∈ bs) : a + len b ≤ stop len a bs := by
  induction bs generalizing a with
  | nil => cases h
  | cons c bs ih =>
    rw [stop_cons]
    rcases List.mem_cons.mp h with rfl | h
    · exact le_stop
    · have := ih (a + len c) h
      omega

/-- A block lies within the stretch. -/
theorem bounds_of_mem (h : (x, b) ∈ located len a bs) : a ≤ x ∧ x + len b ≤ stop len a bs := by
  induction bs generalizing a with
  | nil => cases h
  | cons c bs ih =>
    rcases List.mem_cons.mp h with h | h
    · obtain ⟨rfl, rfl⟩ := Prod.mk.inj h
      exact ⟨Nat.le_refl x, le_stop⟩
    · exact ⟨(Nat.le_add_right a (len c)).trans (ih h).1, (ih h).2⟩

/-- Two blocks are the same or do not overlap. -/
theorem eq_or_disjoint (hx : (x, b) ∈ located len a bs) (hy : (y, c) ∈ located len a bs) :
    (x, b) = (y, c) ∨ x + len b ≤ y ∨ y + len c ≤ x := by
  induction bs generalizing a with
  | nil => cases hx
  | cons d bs ih =>
    rcases List.mem_cons.mp hx with hx | hx
    · rcases List.mem_cons.mp hy with hy | hy
      · exact Or.inl (hx.trans hy.symm)
      · obtain ⟨rfl, rfl⟩ := Prod.mk.inj hx
        exact Or.inr (Or.inl (bounds_of_mem hy).1)
    · rcases List.mem_cons.mp hy with hy | hy
      · obtain ⟨rfl, rfl⟩ := Prod.mk.inj hy
        exact Or.inr (Or.inr (bounds_of_mem hx).1)
      · exact ih hx hy

/-- What lies before a block and after it. -/
theorem split_of_mem (h : (x, b) ∈ located len a bs) :
    ∃ pre post, bs = pre ++ b :: post ∧ x = stop len a pre := by
  induction bs generalizing a with
  | nil => cases h
  | cons c bs ih =>
    rcases List.mem_cons.mp h with h | h
    · obtain ⟨rfl, rfl⟩ := Prod.mk.inj h
      exact ⟨[], bs, rfl, rfl⟩
    · obtain ⟨pre, post, rfl, hx⟩ := ih h
      exact ⟨c :: pre, post, rfl, hx⟩

theorem mem_of_mem_located (h : (x, b) ∈ located len a bs) : b ∈ bs := by
  obtain ⟨pre, post, rfl, -⟩ := split_of_mem h
  exact List.mem_append_right _ List.mem_cons_self

/-- The addresses of blocks that are not empty tell them apart. -/
theorem eq_of_mem (hpos : ∀ b ∈ bs, 0 < len b) (hb : (x, b) ∈ located len a bs)
    (hc : (x, c) ∈ located len a bs) : b = c := by
  rcases eq_or_disjoint hb hc with h | h | h
  · exact (Prod.mk.inj h).2
  · have := hpos b (mem_of_mem_located hb)
    omega
  · have := hpos c (mem_of_mem_located hc)
    omega

end Tiling

end Os161
