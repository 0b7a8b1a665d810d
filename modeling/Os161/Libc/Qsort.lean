import Mathlib.Data.List.Sort
import Mathlib.Order.Defs.Unbundled

/-!
# The C library's `qsort`

`userland/lib/libc/stdlib/qsort.c`, on a list in place of the array. The comparison function may
fail, as one that asserts does; then the sort fails. `COMPARE` does not call it on one and the same
position.

The sort picks the middle element as pivot, shifts what is not above it to the front, and recurses
on the two parts. When everything went to the front, it first moves the pivot to the end and lops
off what is equal to it.

## Main results

* `Qsort.shift_spec` — the partition loop ends, and splits the array at the pivot
* `qsort_spec` — where `f` decides a preorder between the elements, the sort returns a sorted
  permutation of its input and its assertion does not fail
* `qsort_sorts` — the same for a comparison function that orders all values
-/

namespace Os161

namespace Qsort

variable {α : Type}

/-- `COMPARE(aa, bb)`. -/
def compare (f : α → α → Option ℤ) (data : List α) (aa bb : ℕ) : Option ℤ :=
  if aa = bb then some 0
  else match data[aa]?, data[bb]? with
    | some x, some y => f x y
    | _, _ => none

/-- `EXCHANGE(aa, bb)`. -/
def exchange (data : List α) (aa bb : ℕ) : List α :=
  match data[aa]?, data[bb]? with
  | some x, some y => (data.set aa y).set bb x
  | _, _ => data

/-- The variables of the partition loop. -/
structure Cursor (α : Type) where
  data : List α
  pivot : ℕ
  head : ℕ
  tail : ℕ

/-- The partition loop (step 2), for at most `k` rounds. -/
def shift (f : α → α → Option ℤ) : ℕ → Cursor α → Option (Cursor α)
  | 0, c => if c.head < c.tail then none else some c
  | k + 1, c =>
    if c.head < c.tail then
      (compare f c.data c.head c.pivot).bind fun ch =>
        if ch ≤ 0 then shift f k { c with head := c.head + 1 }
        else (compare f c.data c.tail c.pivot).bind fun ct =>
          if 0 < ct then shift f k { c with tail := c.tail - 1 }
          else shift f k
            { data := exchange c.data c.head c.tail
              pivot := if c.pivot = c.head then c.tail
                else if c.pivot = c.tail then c.head else c.pivot
              head := c.head + 1
              tail := c.tail - 1 }
    else some c

/-- The loop of step 4 that steps over the values equal to the last one. -/
def lop (f : α → α → Option ℤ) (data : List α) : ℕ → Option ℕ
  | 0 => some 0
  | tail + 1 => (compare f data tail (tail + 1)).bind fun c =>
      if c = 0 then lop f data tail else some (tail + 1)

/-- Steps 1 to 3: the partitioned array, where the pivot went, and the first index of the back
part. -/
def split (f : α → α → Option ℤ) (data : List α) : Option (List α × ℕ × ℕ) :=
  (shift f data.length ⟨data, data.length / 2, 0, data.length - 1⟩).bind fun c =>
    if c.tail < c.head then some (c.data, c.pivot, c.tail + 1)
    else (compare f c.data c.head c.pivot).bind fun ch =>
      some (c.data, c.pivot, if ch ≤ 0 then c.tail + 1 else c.tail)

/-- The first part of step 4: the pivot is moved to the end, if necessary. -/
def pivotLast (f : α → α → Option ℤ) (data : List α) (pivot : ℕ) : Option (List α) :=
  if pivot < data.length - 1 then
    (compare f data pivot (data.length - 1)).bind fun c =>
      some (if 0 < c then exchange data pivot (data.length - 1) else data)
  else some data

/-- `qsort`, with the depth of the recursion bounded by `k`. -/
def sort (f : α → α → Option ℤ) : ℕ → List α → Option (List α)
  | 0, data => if data.length ≤ 1 then some data else none
  | k + 1, data =>
    if data.length ≤ 1 then some data
    else (if data.length = 2 then compare f data 0 1 else some 0).bind fun c =>
      if 0 < c then some (exchange data 0 1)
      else (split f data).bind fun (data, pivot, tail) =>
        if tail = data.length then
          (pivotLast f data pivot).bind fun data =>
            (lop f data (data.length - 1)).bind fun tail =>
              if 0 < tail then (sort f k (data.take tail)).bind fun front =>
                some (front ++ data.drop tail)
              else some data
        else if 0 < tail ∧ tail < data.length then
          (sort f k (data.take tail)).bind fun front =>
            (sort f k (data.drop tail)).bind fun back => some (front ++ back)
        else none

end Qsort

/-- `qsort`. The result is `none` when the comparison function or the assertion fails. -/
def qsort {α : Type} (f : α → α → Option ℤ) (data : List α) : Option (List α) :=
  Qsort.sort f data.length data

namespace Qsort

variable {α : Type} {f : α → α → Option ℤ} {r : α → α → Prop}

/-- `f` decides the order `r` between `x` and `y`. -/
def Decides (f : α → α → Option ℤ) (r : α → α → Prop) (x y : α) : Prop :=
  ∃ c, f x y = some c ∧ (c ≤ 0 ↔ r x y) ∧ (0 ≤ c ↔ r y x)

/-- `f` decides the order `r` between any two positions of an array. -/
def Comparable (f : α → α → Option ℤ) (r : α → α → Prop) (data : List α) : Prop :=
  data.Pairwise fun x y => Decides f r x y ∧ Decides f r y x

theorem Comparable.perm {data data' : List α} (h : Comparable f r data) (hp : data.Perm data') :
    Comparable f r data' :=
  (hp.pairwise_iff fun hxy => ⟨hxy.2, hxy.1⟩).mp h

theorem Comparable.sublist {data data' : List α} (h : Comparable f r data)
    (hs : data'.Sublist data) : Comparable f r data' :=
  List.Pairwise.sublist hs h

/-! ### Comparing and exchanging -/

section Steps

variable [Std.Refl r] {data : List α}

theorem compare_spec (h : Comparable f r data) {a b : ℕ} {x y : α} (ha : data[a]? = some x)
    (hb : data[b]? = some y) :
    ∃ c, compare f data a b = some c ∧ (c ≤ 0 ↔ r x y) ∧ (0 ≤ c ↔ r y x) := by
  obtain ⟨ha', rfl⟩ := List.getElem?_eq_some_iff.mp ha
  obtain ⟨hb', rfl⟩ := List.getElem?_eq_some_iff.mp hb
  rw [Comparable, List.pairwise_iff_getElem] at h
  rcases lt_trichotomy a b with hab | rfl | hab
  · obtain ⟨c, hc, h1, h2⟩ := (h a b ha' hb' hab).1
    exact ⟨c, by rw [compare, if_neg hab.ne, ha, hb]; exact hc, h1, h2⟩
  · exact ⟨0, by rw [compare, if_pos rfl], by simp [Std.Refl.refl], by simp [Std.Refl.refl]⟩
  · obtain ⟨c, hc, h1, h2⟩ := (h b a hb' ha' hab).2
    exact ⟨c, by rw [compare, if_neg hab.ne', ha, hb]; exact hc, h1, h2⟩

omit [Std.Refl r] in
theorem exchange_eq {a b : ℕ} (ha : a < data.length) (hb : b < data.length) :
    exchange data a b = (data.set a data[b]).set b data[a] := by
  rw [exchange, List.getElem?_eq_getElem ha, List.getElem?_eq_getElem hb]

theorem exchange_perm {a b : ℕ} (ha : a < data.length) (hb : b < data.length) :
    (exchange data a b).Perm data := by
  rw [exchange_eq ha hb]
  exact List.set_set_perm ha hb

theorem getElem?_exchange {a b : ℕ} (ha : a < data.length) (hb : b < data.length) (i : ℕ) :
    (exchange data a b)[i]? = if i = b then data[a]? else if i = a then data[b]? else data[i]? := by
  rw [exchange_eq ha hb, List.getElem?_set, List.getElem?_set, List.length_set]
  by_cases hib : b = i
  · subst hib
    rw [if_pos rfl, if_pos hb, if_pos rfl, List.getElem?_eq_getElem ha]
  · by_cases hia : a = i
    · subst hia
      rw [if_neg hib, if_pos rfl, if_pos ha, if_neg (Ne.symm hib), if_pos rfl,
        List.getElem?_eq_getElem hb]
    · rw [if_neg hib, if_neg hia, if_neg (Ne.symm hib), if_neg (Ne.symm hia)]

end Steps

/-! ### The partition loop -/

/-- What the partition loop keeps true of its variables, `p` being the pivot's value: the pivot is
where it is said to be, nothing before `head` is above it, and everything after `tail` is. -/
structure Split (r : α → α → Prop) (data : List α) (p : α) (c : Cursor α) : Prop where
  perm : c.data.Perm data
  pivot : c.data[c.pivot]? = some p
  front : ∀ i x, i < c.head → c.data[i]? = some x → r x p
  back : ∀ i x, c.tail < i → c.data[i]? = some x → ¬r x p
  bound : c.tail < data.length
  cross : c.head ≤ c.tail + 1

/-- One exchange keeps the loop's invariant. -/
theorem Split.exchange {data : List α} {p x y : α} {c : Cursor α} (h : Split r data p c)
    (hlt : c.head < c.tail) (hx : c.data[c.head]? = some x) (hy : c.data[c.tail]? = some y)
    (hxp : ¬r x p) (hyp : r y p) :
    Split r data p
      { data := Qsort.exchange c.data c.head c.tail
        pivot := if c.pivot = c.head then c.tail
          else if c.pivot = c.tail then c.head else c.pivot
        head := c.head + 1
        tail := c.tail - 1 } := by
  have hlen : c.data.length = data.length := h.perm.length_eq
  have hhead : c.head < c.data.length := by have := h.bound; omega
  have htail : c.tail < c.data.length := by have := h.bound; omega
  have hget := getElem?_exchange hhead htail
  refine ⟨(exchange_perm hhead htail).trans h.perm, ?_, ?_, ?_, ?_, ?_⟩
  · change (Qsort.exchange c.data c.head c.tail)[_]? = _
    rw [hget]
    by_cases h1 : c.pivot = c.head
    · rw [if_pos h1, if_pos rfl, ← h1]
      exact h.pivot
    · by_cases h2 : c.pivot = c.tail
      · rw [if_neg h1, if_pos h2, if_neg hlt.ne, if_pos rfl, ← h2]
        exact h.pivot
      · rw [if_neg h1, if_neg h2, if_neg h2, if_neg h1]
        exact h.pivot
  · intro i z hi hz
    change i < c.head + 1 at hi
    change (Qsort.exchange c.data c.head c.tail)[i]? = _ at hz
    rw [hget, if_neg (by omega)] at hz
    by_cases hih : i = c.head
    · rw [if_pos hih, hy] at hz
      rwa [← Option.some.inj hz]
    · rw [if_neg hih] at hz
      exact h.front i z (by omega) hz
  · intro i z hi hz
    change c.tail - 1 < i at hi
    change (Qsort.exchange c.data c.head c.tail)[i]? = _ at hz
    rw [hget] at hz
    by_cases hit : i = c.tail
    · rw [if_pos hit, hx] at hz
      rwa [← Option.some.inj hz]
    · rw [if_neg hit, if_neg (by omega)] at hz
      exact h.back i z (by omega) hz
  · have := h.bound
    change c.tail - 1 < data.length
    omega
  · change c.head + 1 ≤ c.tail - 1 + 1
    omega

variable [Std.Refl r]

/-- The partition loop ends within `tail - head` rounds and leaves nothing between the two parts
but the position where `head` and `tail` meet. -/
theorem shift_spec {data : List α} {p : α} (hc : Comparable f r data) :
    ∀ (k : ℕ) (c : Cursor α), Split r data p c → c.tail - c.head ≤ k →
      ∃ c', shift f k c = some c' ∧ Split r data p c' ∧ c'.tail ≤ c'.head := by
  intro k
  induction k with
  | zero =>
    intro c h hk
    exact ⟨c, by rw [shift, if_neg (by omega)], h, by omega⟩
  | succ k ih =>
    intro c h hk
    by_cases hlt : c.head < c.tail
    · have hlen : c.data.length = data.length := h.perm.length_eq
      have hcc : Comparable f r c.data := hc.perm h.perm.symm
      have hhead : c.head < c.data.length := by have := h.bound; omega
      have htail : c.tail < c.data.length := by have := h.bound; omega
      have hx := List.getElem?_eq_getElem hhead
      have hy := List.getElem?_eq_getElem htail
      obtain ⟨ch, hch, hle, -⟩ := compare_spec hcc hx h.pivot
      obtain ⟨ct, hct, hle', -⟩ := compare_spec hcc hy h.pivot
      rw [shift, if_pos hlt, hch, Option.bind_some]
      by_cases h1 : ch ≤ 0
      · rw [if_pos h1]
        refine ih _ ⟨h.perm, h.pivot, ?_, h.back, h.bound, ?_⟩ ?_
        · intro i z hi hz
          change i < c.head + 1 at hi
          by_cases hih : i = c.head
          · rw [hih, hx] at hz
            rw [← Option.some.inj hz]
            exact hle.mp h1
          · exact h.front i z (by omega) hz
        · change c.head + 1 ≤ c.tail + 1
          omega
        · change c.tail - (c.head + 1) ≤ k
          omega
      · rw [if_neg h1, hct, Option.bind_some]
        by_cases h2 : 0 < ct
        · rw [if_pos h2]
          refine ih _ ⟨h.perm, h.pivot, h.front, ?_, ?_, ?_⟩ ?_
          · intro i z hi hz
            change c.tail - 1 < i at hi
            by_cases hit : i = c.tail
            · rw [hit, hy] at hz
              rw [← Option.some.inj hz]
              exact fun hr => absurd (hle'.mpr hr) (by omega)
            · exact h.back i z (by omega) hz
          · have := h.bound
            change c.tail - 1 < data.length
            omega
          · change c.head ≤ c.tail - 1 + 1
            omega
          · change c.tail - 1 - c.head ≤ k
            omega
        · rw [if_neg h2]
          refine ih _ (h.exchange hlt hx hy (fun hr => h1 (hle.mpr hr)) (hle'.mp (by omega))) ?_
          change c.tail - 1 - (c.head + 1) ≤ k
          omega
    · exact ⟨c, by rw [shift, if_neg hlt], h, by omega⟩

/-- After steps 1 to 3 the array is cut at `tail`: nothing before is above the pivot, everything
from there on is. -/
theorem split_spec {data : List α} (hc : Comparable f r data) (hlen : 2 ≤ data.length) :
    ∃ data' pivot tail p, split f data = some (data', pivot, tail) ∧ data'.Perm data ∧
      data'[pivot]? = some p ∧ (∀ i x, i < tail → data'[i]? = some x → r x p) ∧
      (∀ i x, tail ≤ i → data'[i]? = some x → ¬r x p) ∧ tail ≤ data.length := by
  have hmid : data.length / 2 < data.length := by omega
  have hinit : Split r data data[data.length / 2] ⟨data, data.length / 2, 0, data.length - 1⟩ := by
    refine ⟨List.Perm.refl _, List.getElem?_eq_getElem hmid, ?_, ?_, ?_, ?_⟩
    · intro i x hi
      exact absurd hi (Nat.not_lt_zero i)
    · intro i x hi hx
      obtain ⟨hi', -⟩ := List.getElem?_eq_some_iff.mp hx
      change data.length - 1 < i at hi
      change i < data.length at hi'
      omega
    · change data.length - 1 < data.length
      omega
    · exact Nat.zero_le _
  obtain ⟨c, hrun, h, hend⟩ := shift_spec hc data.length _ hinit
    (by change data.length - 1 - 0 ≤ data.length; omega)
  have hlen' : c.data.length = data.length := h.perm.length_eq
  have hbound := h.bound
  have hcross := h.cross
  by_cases hlt : c.tail < c.head
  · refine ⟨c.data, c.pivot, c.tail + 1, _, ?_, h.perm, h.pivot, ?_, ?_, by omega⟩
    · rw [split, hrun, Option.bind_some, if_pos hlt]
    · intro i x hi
      exact h.front i x (by omega)
    · intro i x hi
      exact h.back i x (by omega)
  · have heq : c.tail = c.head := by omega
    have hhead : c.head < c.data.length := by omega
    have hx := List.getElem?_eq_getElem hhead
    obtain ⟨ch, hch, hle, -⟩ := compare_spec (hc.perm h.perm.symm) hx h.pivot
    refine ⟨c.data, c.pivot, if ch ≤ 0 then c.tail + 1 else c.tail, _, ?_, h.perm, h.pivot,
      ?_, ?_, ?_⟩
    · rw [split, hrun, Option.bind_some, if_neg hlt, hch, Option.bind_some]
    · intro i x hi hxi
      by_cases hi' : i < c.head
      · exact h.front i x hi' hxi
      · -- only where the two indices meet, and then the comparison said so
        split at hi
        · have : i = c.head := by omega
          rw [this, hx] at hxi
          rw [← Option.some.inj hxi]
          exact hle.mp ‹_›
        · omega
    · intro i x hi hxi
      by_cases hi' : c.tail < i
      · exact h.back i x hi' hxi
      · split at hi
        · omega
        · have : i = c.head := by omega
          rw [this, hx] at hxi
          rw [← Option.some.inj hxi]
          exact fun hr => absurd (hle.mpr hr) ‹_›
    · split <;> omega

/-! ### The bad pivot -/

/-- When nothing is above the pivot, after step 4 the last element is as high as any. -/
theorem pivotLast_spec {data : List α} {pivot : ℕ} {p : α} (hc : Comparable f r data)
    (hlen : 2 ≤ data.length) (hp : data[pivot]? = some p)
    (hall : ∀ (i : ℕ) x, data[i]? = some x → r x p) [IsTrans α r] :
    ∃ data' q, pivotLast f data pivot = some data' ∧ data'.Perm data ∧
      data'[data.length - 1]? = some q ∧ ∀ x ∈ data', r x q := by
  have hlast : data.length - 1 < data.length := by omega
  have hq := List.getElem?_eq_getElem hlast
  obtain ⟨hpiv, -⟩ := List.getElem?_eq_some_iff.mp hp
  have hmem : ∀ x ∈ data, r x p := by
    intro x hx
    obtain ⟨i, hi, rfl⟩ := List.mem_iff_getElem.mp hx
    exact hall i _ (List.getElem?_eq_getElem hi)
  by_cases hlt : pivot < data.length - 1
  · obtain ⟨c, hcmp, hle, -⟩ := compare_spec hc hp hq
    by_cases hpos : 0 < c
    · refine ⟨exchange data pivot (data.length - 1), p, ?_, exchange_perm hpiv hlast, ?_, ?_⟩
      · rw [pivotLast, if_pos hlt, hcmp, Option.bind_some, if_pos hpos]
      · rw [getElem?_exchange hpiv hlast, if_pos rfl, hp]
      · intro x hx
        exact hmem x ((exchange_perm hpiv hlast).mem_iff.mp hx)
    · refine ⟨data, _, ?_, List.Perm.refl _, hq, ?_⟩
      · rw [pivotLast, if_pos hlt, hcmp, Option.bind_some, if_neg hpos]
      · intro x hx
        exact IsTrans.trans _ _ _ (hmem x hx) (hle.mp (by omega))
  · have hpl : pivot = data.length - 1 := by omega
    refine ⟨data, p, by rw [pivotLast, if_neg hlt], List.Perm.refl _, by rw [← hpl, hp], hmem⟩

/-- The loop of step 4 stops at an index from which on everything is equal to the last value. -/
theorem lop_spec {data : List α} (hc : Comparable f r data) [IsTrans α r] :
    ∀ t, t < data.length → ∃ t', lop f data t = some t' ∧ t' ≤ t ∧
      ∀ i x q, t' ≤ i → i ≤ t → data[i]? = some x → data[t]? = some q → r q x := by
  intro t
  induction t with
  | zero =>
    intro _
    refine ⟨0, rfl, le_rfl, ?_⟩
    intro i x q _ hi hx hq
    rw [Nat.le_zero.mp hi, hq] at hx
    rw [← Option.some.inj hx]
    exact Std.Refl.refl q
  | succ t ih =>
    intro hlt
    have ht := List.getElem?_eq_getElem (Nat.lt_of_succ_lt hlt)
    have ht1 := List.getElem?_eq_getElem hlt
    obtain ⟨c, hcmp, hle, hge⟩ := compare_spec hc ht ht1
    rw [lop, hcmp, Option.bind_some]
    by_cases h0 : c = 0
    · obtain ⟨t', hrun, ht', hall⟩ := ih (by omega)
      refine ⟨t', by rw [if_pos h0, hrun], by omega, ?_⟩
      intro i x q hi hit hx hq
      rw [ht1] at hq
      rw [← Option.some.inj hq]
      by_cases hit' : i = t + 1
      · rw [hit', ht1] at hx
        rw [← Option.some.inj hx]
        exact Std.Refl.refl _
      · exact IsTrans.trans _ _ _ (hge.mp (by omega)) (hall i x _ hi (by omega) hx ht)
    · refine ⟨t + 1, by rw [if_neg h0], le_rfl, ?_⟩
      intro i x q hi hit hx hq
      rw [show i = t + 1 by omega, hq] at hx
      rw [← Option.some.inj hx]
      exact Std.Refl.refl _

/-! ### The sort -/

omit [Std.Refl r] in
theorem getElem?_of_mem_take {data : List α} {n : ℕ} {x : α} (h : x ∈ data.take n) :
    ∃ i < n, data[i]? = some x := by
  obtain ⟨i, hi, rfl⟩ := List.mem_iff_getElem.mp h
  rw [List.length_take] at hi
  exact ⟨i, by omega, by rw [List.getElem_take, List.getElem?_eq_getElem (by omega)]⟩

omit [Std.Refl r] in
theorem getElem?_of_mem_drop {data : List α} {n : ℕ} {x : α} (h : x ∈ data.drop n) :
    ∃ i, n ≤ i ∧ data[i]? = some x := by
  obtain ⟨i, hi, rfl⟩ := List.mem_iff_getElem.mp h
  rw [List.length_drop] at hi
  exact ⟨n + i, by omega, by rw [List.getElem_drop, List.getElem?_eq_getElem (by omega)]⟩

/-- The recursion sorts every array no longer than its depth bound. -/
theorem sort_spec [IsTrans α r] :
    ∀ (k : ℕ) (data : List α), Comparable f r data → data.length ≤ k →
      ∃ out, sort f k data = some out ∧ out.Perm data ∧ out.Pairwise r := by
  have hsmall : ∀ data : List α, data.length ≤ 1 → data.Pairwise r := by
    intro data hle
    rcases data with _ | ⟨x, _ | ⟨y, tl⟩⟩
    · exact List.Pairwise.nil
    · exact List.pairwise_singleton r x
    · exact absurd hle (by simp)
  intro k
  induction k with
  | zero =>
    intro data _ hk
    exact ⟨data, by rw [sort, if_pos (by omega)], List.Perm.refl _, hsmall data (by omega)⟩
  | succ k ih =>
    intro data hc hk
    by_cases hle : data.length ≤ 1
    · exact ⟨data, by rw [sort, if_pos hle], List.Perm.refl _, hsmall data hle⟩
    have hlen : 2 ≤ data.length := by omega
    -- the special case of two elements, which falls through when they are in order
    have h0 := List.getElem?_eq_getElem (l := data) (i := 0) (by omega)
    have h1 := List.getElem?_eq_getElem (l := data) (i := 1) (by omega)
    obtain ⟨c, hcmp, hcle, hcge⟩ := compare_spec hc h0 h1
    obtain ⟨c', hc', hpos⟩ : ∃ c', (if data.length = 2 then compare f data 0 1 else some 0) =
        some c' ∧ (0 < c' → data.length = 2 ∧ c' = c) := by
      by_cases h2 : data.length = 2
      · exact ⟨c, by rw [if_pos h2, hcmp], fun _ => ⟨h2, rfl⟩⟩
      · exact ⟨0, by rw [if_neg h2], fun h => absurd h (lt_irrefl 0)⟩
    by_cases hswap : 0 < c'
    · obtain ⟨h2, rfl⟩ := hpos hswap
      refine ⟨exchange data 0 1, ?_, exchange_perm (by omega) (by omega), ?_⟩
      · rw [sort, if_neg hle, hc', Option.bind_some, if_pos hswap]
      · obtain ⟨x, y, rfl⟩ : ∃ x y, data = [x, y] := List.length_eq_two.mp h2
        exact List.pairwise_pair.mpr (hcge.mp hswap.le)
    obtain ⟨data', pivot, tail, p, hsplit, hperm, hpiv, hfront, hback, htail⟩ :=
      split_spec hc hlen
    have hc1 : Comparable f r data' := hc.perm hperm.symm
    have hlen1 : data'.length = data.length := hperm.length_eq
    rw [sort, if_neg hle, hc', Option.bind_some, if_neg hswap, hsplit, Option.bind_some]
    dsimp only
    by_cases hall : tail = data'.length
    · obtain ⟨d2, q, hlast, hperm2, hq, hmax⟩ := pivotLast_spec hc1 (by omega) hpiv
        (fun i x hx => hfront i x (by
          obtain ⟨hi, -⟩ := List.getElem?_eq_some_iff.mp hx
          omega) hx)
      have hlen2 : d2.length = data'.length := hperm2.length_eq
      have hc2 : Comparable f r d2 := hc1.perm hperm2.symm
      obtain ⟨t, hlop, ht, heq⟩ := lop_spec hc2 (d2.length - 1) (by omega)
      rw [if_pos hall, hlast, Option.bind_some, hlop, Option.bind_some]
      have hdrop : ∀ x ∈ d2, ∀ y ∈ d2.drop t, r x y := by
        intro x hx y hy
        obtain ⟨i, hi, hyi⟩ := getElem?_of_mem_drop hy
        obtain ⟨hi', -⟩ := List.getElem?_eq_some_iff.mp hyi
        rw [← hlen2] at hq
        exact IsTrans.trans _ _ _ (hmax x hx) (heq i y q hi (by omega) hyi hq)
      have hback' : (d2.drop t).Pairwise r :=
        List.pairwise_of_forall_mem_list fun x hx y hy => hdrop x (List.mem_of_mem_drop hx) y hy
      by_cases ht0 : 0 < t
      · obtain ⟨front, hrun, hpf, hsf⟩ := ih (d2.take t) (hc2.sublist (List.take_sublist _ _))
          (by rw [List.length_take]; omega)
        refine ⟨front ++ d2.drop t, by rw [if_pos ht0, hrun, Option.bind_some], ?_, ?_⟩
        · refine ((hpf.append_right _).trans ?_).trans (hperm2.trans hperm)
          rw [List.take_append_drop]
        · refine List.pairwise_append.mpr ⟨hsf, hback', ?_⟩
          intro x hx y hy
          exact hdrop x (List.mem_of_mem_take (hpf.mem_iff.mp hx)) y hy
      · refine ⟨d2, by rw [if_neg ht0], hperm2.trans hperm, ?_⟩
        rw [show t = 0 by omega, List.drop_zero] at hback'
        exact hback'
    · -- both parts are proper: the pivot itself is in the front, and the back is not empty
      have hpos : 0 < tail := by
        by_contra h
        exact hback pivot p (by omega) hpiv (Std.Refl.refl p)
      have hlt : tail < data'.length := by omega
      obtain ⟨front, hrunf, hpf, hsf⟩ := ih (data'.take tail)
        (hc1.sublist (List.take_sublist _ _)) (by rw [List.length_take]; omega)
      obtain ⟨back, hrunb, hpb, hsb⟩ := ih (data'.drop tail)
        (hc1.sublist (List.drop_sublist _ _)) (by rw [List.length_drop]; omega)
      refine ⟨front ++ back, ?_, ?_, ?_⟩
      · rw [if_neg hall, if_pos ⟨hpos, hlt⟩, hrunf, Option.bind_some, hrunb, Option.bind_some]
      · refine (hpf.append hpb).trans ?_
        rw [List.take_append_drop]
        exact hperm
      · refine List.pairwise_append.mpr ⟨hsf, hsb, ?_⟩
        intro x hx y hy
        have hx' := hpf.mem_iff.mp hx
        have hy' := hpb.mem_iff.mp hy
        obtain ⟨i, hi, hxi⟩ := getElem?_of_mem_take hx'
        obtain ⟨j, hj, hyj⟩ := getElem?_of_mem_drop hy'
        have hxp : r x p := hfront i x hi hxi
        have hyp : ¬r y p := hback j y hj hyj
        -- `y` is above the pivot, so the pivot is below `y`
        obtain ⟨c2, -, hle2, hge2⟩ := compare_spec hc1 hyj hpiv
        have hc2 : ¬c2 ≤ 0 := fun h => hyp (hle2.mp h)
        exact IsTrans.trans _ _ _ hxp (hge2.mp (by omega))

end Qsort

/-- **Correctness.** On an array between whose positions `f` decides a preorder, `qsort` returns a
permutation of its input, sorted. -/
theorem qsort_spec {α : Type} {f : α → α → Option ℤ} {r : α → α → Prop} [Std.Refl r] [IsTrans α r]
    {data : List α} (hc : Qsort.Comparable f r data) :
    ∃ out, qsort f data = some out ∧ out.Perm data ∧ out.Pairwise r :=
  Qsort.sort_spec data.length data hc le_rfl

/-! ### Comparison functions -/

namespace Qsort

/-- A comparison function that compares any two values, never asserting anything, and orders them:
the answer for two values in the other order has the opposite sign, and being at most something is
transitive. -/
structure TotalPreorder {α : Type} (f : α → α → ℤ) : Prop where
  swap : ∀ x y, f x y ≤ 0 ↔ 0 ≤ f y x
  trans : ∀ x y z, f x y ≤ 0 → f y z ≤ 0 → f x z ≤ 0

variable {α : Type} {f : α → α → ℤ}

theorem TotalPreorder.self_le (hf : TotalPreorder f) (x : α) : f x x ≤ 0 := by
  by_contra hpos
  exact hpos ((hf.swap x x).mpr (not_le.mp hpos).le)

theorem TotalPreorder.comparable (hf : TotalPreorder f) (data : List α) :
    Comparable (fun x y => some (f x y)) (fun x y => f x y ≤ 0) data := by
  have hdecides : ∀ x y, Decides (fun x y => some (f x y)) (fun x y => f x y ≤ 0) x y :=
    fun x y => ⟨f x y, rfl, Iff.rfl, (hf.swap y x).symm⟩
  exact List.pairwise_of_forall fun x y => ⟨hdecides x y, hdecides y x⟩

end Qsort

/-- **`qsort` sorts.** With a comparison function that orders its arguments, it comes to its end,
its assertion does not fail, and it leaves a permutation of the array in which no element is above
the next. -/
theorem qsort_sorts {α : Type} {f : α → α → ℤ} (hf : Qsort.TotalPreorder f) (data : List α) :
    ∃ out, qsort (fun x y => some (f x y)) data = some out ∧ out.Perm data ∧
      ∀ i x y, out[i]? = some x → out[i + 1]? = some y → f x y ≤ 0 := by
  have : Std.Refl fun x y => f x y ≤ 0 := ⟨hf.self_le⟩
  have : IsTrans α fun x y => f x y ≤ 0 := ⟨hf.trans⟩
  obtain ⟨out, hrun, hperm, hsorted⟩ := qsort_spec (hf.comparable data)
  refine ⟨out, hrun, hperm, fun i x y hx hy => ?_⟩
  obtain ⟨hi, rfl⟩ := List.getElem?_eq_some_iff.mp hx
  obtain ⟨hj, rfl⟩ := List.getElem?_eq_some_iff.mp hy
  exact List.pairwise_iff_getElem.mp hsorted i (i + 1) hi hj i.lt_succ_self

/-- Numbers with duplicates, the largest of them as the pivot. -/
theorem qsort_sorts_ints : ∃ out, qsort (fun x y => some (x - y)) [3, 1, (7 : ℤ), 7, 2] = some out ∧
    out.Perm [3, 1, 7, 7, 2] ∧
      ∀ i x y, out[i]? = some x → out[i + 1]? = some y → x - y ≤ 0 := by
  have hsub : Qsort.TotalPreorder fun x y : ℤ => x - y :=
    ⟨fun x y => by omega, fun x y z hxy hyz => by omega⟩
  exact qsort_sorts hsub [3, 1, 7, 7, 2]

end Os161
