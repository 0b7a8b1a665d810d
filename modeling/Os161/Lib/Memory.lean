import Mathlib.Data.Nat.Notation
import Mathlib.Algebra.GroupWithZero.Nat

/-!
# Memory with 32-bit addresses

A memory is a byte at each address. A run of `n` addresses from `a` on is those whose distance from
`a`, modulo 2^32, is below `n`, so that it may go past the end of the address space and on at 0, as
the C functions would.

## Main definitions

* `Memory.fill`, `Memory.move`, `Memory.copy` — `memset`, `memmove` and `memcpy`

## Main results

* `Memory.sub_lt_iff` — a run that ends in the address space is an interval
* `Memory.move_append_up`, `Memory.move_append_down` — a move in two steps, either one first
* `Memory.moves_of_out`, `Memory.moves_add` — several moves that do not get in each other's way
-/

namespace Os161

/-- A byte at each address. -/
abbrev Memory := UInt32 → UInt8

namespace Memory

variable {a n x k e dst src : UInt32}

/-- `memset(a, v, n)`. -/
def fill (m : Memory) (a n : UInt32) (v : UInt8) : Memory := fun x => if x - a < n then v else m x

/-- `memmove(dst, src, n)`. -/
def move (m : Memory) (dst src n : UInt32) : Memory :=
  fun x => if x - dst < n then m (src + (x - dst)) else m x

/-- `memcpy(dst, src, n)`, from a memory of its own. -/
def copy (m from' : Memory) (dst src n : UInt32) : Memory :=
  fun x => if x - dst < n then from' (src + (x - dst)) else m x

theorem fill_of_out {m : Memory} {v : UInt8} (h : ¬ x - a < n) : m.fill a n v x = m x := if_neg h

theorem move_of_out {m : Memory} (h : ¬ x - dst < n) : m.move dst src n x = m x := if_neg h

theorem copy_of_out {m from' : Memory} (h : ¬ x - dst < n) : m.copy from' dst src n x = m x :=
  if_neg h

theorem add_sub_self (a k : UInt32) : a + k - a = k := by
  rw [UInt32.add_comm, UInt32.add_sub_cancel]

theorem move_add {m : Memory} (h : k < n) : m.move dst src n (dst + k) = m (src + k) := by
  unfold move
  rw [add_sub_self, if_pos h]

theorem copy_add {m from' : Memory} (h : k < n) :
    m.copy from' dst src n (dst + k) = from' (src + k) := by
  unfold copy
  rw [add_sub_self, if_pos h]

/-- A run that ends in the address space is an interval. -/
theorem sub_lt_iff (h : a.toNat + n.toNat ≤ 2 ^ 32) :
    x - a < n ↔ a.toNat ≤ x.toNat ∧ x.toNat < a.toNat + n.toNat := by
  rw [UInt32.lt_iff_toNat_lt, UInt32.toNat_sub]
  have ha := a.toNat_lt
  have hx := x.toNat_lt
  omega

/-! ### A move in steps -/

/-- The first `n` of `n + k` addresses, and the other `k`. -/
theorem lt_add_iff (hnk : n.toNat + k.toNat < 2 ^ 32) : e < n + k ↔ e < n ∨ e - n < k := by
  have hsub := UInt32.toNat_sub e n
  have he := e.toNat_lt
  simp only [UInt32.lt_iff_toNat_lt, UInt32.toNat_add]
  omega

theorem not_sub_lt (hnk : n.toNat + k.toNat < 2 ^ 32) (he : e < n) : ¬ e - n < k := by
  have hsub := UInt32.toNat_sub e n
  simp only [UInt32.lt_iff_toNat_lt] at he ⊢
  omega

/-- A move in two steps, the first part first. -/
theorem move_append_up {m : Memory} (hnk : n.toNat + k.toNat < 2 ^ 32)
    (h : ∀ j < k, ¬ src + n + j - dst < n) :
    m.move dst src (n + k) = (m.move dst src n).move (dst + n) (src + n) k := by
  funext x
  obtain ⟨e, rfl⟩ : ∃ e, x = dst + e := ⟨x - dst, by grind⟩
  have he : dst + e - (dst + n) = e - n := by grind
  by_cases hen : e < n
  · rw [move_add ((lt_add_iff hnk).mpr (.inl hen)), move_of_out (he ▸ not_sub_lt hnk hen),
      move_add hen]
  · by_cases hek : e - n < k
    · have hsrc : src + n + (e - n) = src + e := by grind
      have hdst : dst + n + (e - n) = dst + e := by grind
      rw [move_add ((lt_add_iff hnk).mpr (.inr hek)), ← hdst, move_add hek,
        move_of_out (h _ hek), hsrc]
    · have hout : ¬ e < n + k := fun hlt => ((lt_add_iff hnk).mp hlt).elim hen hek
      rw [move_of_out (by rwa [add_sub_self]), move_of_out (by rwa [he]),
        move_of_out (by rwa [add_sub_self])]

/-- A move in two steps, the second part first. -/
theorem move_append_down {m : Memory} (hnk : n.toNat + k.toNat < 2 ^ 32)
    (h : ∀ j < n, ¬ src + j - (dst + n) < k) :
    m.move dst src (n + k) = (m.move (dst + n) (src + n) k).move dst src n := by
  funext x
  obtain ⟨e, rfl⟩ : ∃ e, x = dst + e := ⟨x - dst, by grind⟩
  have he : dst + e - (dst + n) = e - n := by grind
  by_cases hen : e < n
  · rw [move_add ((lt_add_iff hnk).mpr (.inl hen)), move_add hen, move_of_out (h e hen)]
  · by_cases hek : e - n < k
    · have hsrc : src + n + (e - n) = src + e := by grind
      have hdst : dst + n + (e - n) = dst + e := by grind
      rw [move_add ((lt_add_iff hnk).mpr (.inr hek)), move_of_out (by rwa [add_sub_self]), ← hdst,
        move_add hek, hsrc]
    · have hout : ¬ e < n + k := fun hlt => ((lt_add_iff hnk).mp hlt).elim hen hek
      rw [move_of_out (by rwa [add_sub_self]), move_of_out (by rwa [add_sub_self]),
        move_of_out (by rwa [he])]

/-! ### Several moves -/

/-- The arguments of a call of `memmove`. -/
structure Move where
  dst : UInt32
  src : UInt32
  len : UInt32

/-- The address is one the move writes. -/
def Move.Writes (v : Move) (x : UInt32) : Prop := x - v.dst < v.len

/-- The address is one the move reads. -/
def Move.Reads (v : Move) (x : UInt32) : Prop := x - v.src < v.len

/-- Moves, one after another. -/
def moves (m : Memory) (l : List Move) : Memory :=
  l.foldl (fun m v => m.move v.dst v.src v.len) m

theorem moves_of_out {m : Memory} {l : List Move} (h : ∀ v ∈ l, ¬ v.Writes x) :
    m.moves l x = m x := by
  induction l generalizing m with
  | nil => rfl
  | cons v l ih =>
    have hrest := ih (m := m.move v.dst v.src v.len) fun w hw => h w (List.mem_cons_of_mem _ hw)
    exact hrest.trans (move_of_out (h v List.mem_cons_self))

/-- If no move writes what another one writes or reads, each has its bytes in the end. -/
theorem moves_add {m : Memory} {l : List Move}
    (hapart : l.Pairwise fun v w => ∀ x, v.Writes x → ¬ w.Writes x)
    (hsrc : ∀ v ∈ l, ∀ w ∈ l, ∀ x, v.Reads x → ¬ w.Writes x) {v : Move} (hv : v ∈ l)
    (hk : k < v.len) : m.moves l (v.dst + k) = m (v.src + k) := by
  induction l generalizing m with
  | nil => exact nomatch hv
  | cons w l ih =>
    obtain ⟨hfirst, hrest⟩ := List.pairwise_cons.mp hapart
    rcases List.mem_cons.mp hv with rfl | hmem
    · have hin : v.Writes (v.dst + k) := by
        unfold Move.Writes
        rwa [add_sub_self]
      exact (moves_of_out fun u hu => hfirst u hu _ hin).trans (move_add hk)
    · have hread : v.Reads (v.src + k) := by
        unfold Move.Reads
        rwa [add_sub_self]
      have hlater := ih (m := m.move w.dst w.src w.len) hrest
        (fun u hu u' hu' => hsrc u (List.mem_cons_of_mem _ hu) u' (List.mem_cons_of_mem _ hu')) hmem
      exact hlater.trans (move_of_out (hsrc v hv w List.mem_cons_self _ hread))

end Memory

end Os161
