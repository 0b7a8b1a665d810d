import Mathlib.Data.Int.ModEq
import Mathlib.Data.Nat.ModEq
import Mathlib.Logic.Function.Basic

/-!
# Rings

A ring buffer of `N` slots with two indices: the producer writes at `head`, the consumer reads at
`tail`, and one slot always stays free, so that equal indices mean an empty ring. The indices are
positions in the whole stream modulo `N`. So a ring is described by the stream `all` of everything
put in and by how much of it was taken out.

## Main results

* `Ring.full_iff`, `Ring.diff` — what the indices say
* `Ring.put`, `Ring.get`, `Ring.advance` — the operations
-/

namespace Os161

variable {α : Type*}

/-- The ring holds what was put in (`all`) after the first `taken`. -/
structure Ring (N : ℕ) (buf : ℕ → α) (head tail : ℕ) (all : List α) (taken : ℕ) : Prop where
  head_eq : head = all.length % N
  tail_eq : tail = taken % N
  le : taken ≤ all.length
  room : all.length < taken + N
  slot : ∀ j (h : j < all.length), taken ≤ j → buf (j % N) = all[j]

namespace Ring

variable {N head tail taken : ℕ} {buf : ℕ → α} {all : List α}

/-- Positions less than a round apart have different slots. -/
theorem slot_ne {i j : ℕ} (hij : i < j) (hji : j < i + N) : i % N ≠ j % N := by
  intro h
  have hdvd : N ∣ j - i := (Nat.modEq_iff_dvd' (Nat.le_of_lt hij)).mp h
  have hle := Nat.le_of_dvd (by omega) hdvd
  omega

theorem empty (hN : 0 < N) : Ring N buf 0 0 [] 0 where
  head_eq := (Nat.zero_mod N).symm
  tail_eq := (Nat.zero_mod N).symm
  le := Nat.le_refl 0
  room := by rw [Nat.zero_add]; exact hN
  slot j h := absurd h (Nat.not_lt_zero j)

theorem succ_head (h : Ring N buf head tail all taken) : (head + 1) % N = (all.length + 1) % N := by
  rw [h.head_eq, Nat.mod_add_mod]

/-- The test of the producer. -/
theorem full_iff (h : Ring N buf head tail all taken) :
    (head + 1) % N = tail ↔ all.length + 1 = taken + N := by
  have hle := h.le
  have hroom := h.room
  rw [h.succ_head, h.tail_eq]
  constructor
  · intro heq
    by_contra hne
    exact slot_ne (i := taken) (j := all.length + 1) (by omega) (by omega) heq.symm
  · intro heq
    rw [heq, Nat.add_mod_right]

/-- How far the indices are apart. -/
theorem diff (h : Ring N buf head tail all taken) :
    ((head : ℤ) - tail) % N = (all.length - taken : ℕ) := by
  have hle := h.le
  have hroom := h.room
  rw [h.head_eq, h.tail_eq, Int.natCast_mod, Int.natCast_mod, ← Int.sub_emod,
    ← Nat.cast_sub hle]
  exact Int.emod_eq_of_lt (by omega) (by omega)

theorem put (h : Ring N buf head tail all taken) (hfree : (head + 1) % N ≠ tail) (c : α) :
    Ring N (Function.update buf head c) ((head + 1) % N) tail (all ++ [c]) taken := by
  have hle := h.le
  have hroom := h.room
  have hne : all.length + 1 ≠ taken + N := fun heq => hfree (h.full_iff.mpr heq)
  have hlen : (all ++ [c]).length = all.length + 1 := by
    rw [List.length_append, List.length_singleton]
  refine ⟨by rw [hlen]; exact h.succ_head, h.tail_eq, by omega, by omega, fun j hj hlow => ?_⟩
  rw [hlen] at hj
  by_cases hlast : j = all.length
  · subst hlast
    rw [← h.head_eq, Function.update_self, List.getElem_concat_length rfl]
  · have hj : j < all.length := by omega
    rw [List.getElem_append_left hj, Function.update_of_ne, h.slot j hj hlow]
    rw [h.head_eq]
    exact slot_ne hj (by omega)

/-- What is read at the tail. -/
theorem get (h : Ring N buf head tail all taken) (hlt : taken < all.length) :
    all[taken]? = some (buf tail) := by
  rw [h.tail_eq, h.slot taken hlt (Nat.le_refl _), List.getElem?_eq_getElem hlt]

theorem advance (h : Ring N buf head tail all taken) (hlt : taken < all.length) :
    Ring N buf head ((tail + 1) % N) all (taken + 1) where
  head_eq := h.head_eq
  tail_eq := by rw [h.tail_eq, Nat.mod_add_mod]
  le := hlt
  room := by have := h.room; omega
  slot j hj hlow := h.slot j hj (by omega)

end Ring

end Os161
