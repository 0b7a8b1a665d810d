import Os161.Kern.Errno
import Os161.Libc.Memmove

/-!
# Arrays of pointers

An array has a buffer with room for `max` pointers, of which it uses `num`. When it needs more room
it doubles `max` until that is enough and moves to a new buffer.

All of that is done with `unsigned` numbers. From 2^30 pointers on, the number of bytes wraps around
and the buffer asked for is too small; and if no doubling below 2^32 is enough the loop has no end.

## Main definitions

* `Arrays.Kmalloc` — how the allocator answers
* `Arrays.preallocate`, `Arrays.setsize`, `Arrays.add`, `Arrays.remove`
* `Arrays.Fits` — the buffer has room for `max` pointers

## Main results

* `Arrays.grow_eq_some_iff` — where the loop ends
* `Arrays.grow_eq_none` — for more than 2^31 pointers in a new array, it never does
* `Arrays.preallocate_honours_iff` — when the buffer is large enough
-/

namespace Os161

namespace Arrays

open Memory Memmove

/-- What `kmalloc(size)` has returned, when that is not `NULL`. -/
structure Block where
  addr : UInt32
  size : UInt32

/-- `struct array`. -/
structure Arr where
  v : Option Block
  num : UInt32
  max : UInt32

/-- The pointer `a->v`. -/
def Arr.addr (a : Arr) : UInt32 := a.v.elim 0 Block.addr

/-- The number of bytes of the buffer. -/
def Arr.bytes (a : Arr) : ℕ := a.v.elim 0 fun b => b.size.toNat

/-- How `kmalloc` answers while the buffer given is in use: with `NULL`, or with as many bytes as
it was asked for. -/
structure Kmalloc where
  find : Option Block → UInt32 → Option UInt32
  ne_null : ∀ {v size p}, find v size = some p → p ≠ 0
  fits : ∀ {v size p}, find v size = some p → p.toNat + size.toNat ≤ 2 ^ 32
  apart : ∀ {b size p}, find (some b) size = some p →
    p.toNat + size.toNat ≤ b.addr.toNat ∨ b.addr.toNat + b.size.toNat ≤ p.toNat

/-- An array and the memory. -/
structure State where
  mem : Memory
  a : Arr

/-- `&a->v[index]`. -/
def State.at (c : State) (index : UInt32) : UInt32 := c.a.addr + 4 * index

/-- `a->v[index]`. -/
def State.elem (c : State) (index : UInt32) : UInt32 := load c.mem (c.at index)

def init (m : Memory) : State := ⟨m, { v := none, num := 0, max := 0 }⟩

/-- `newmax ? newmax*2 : 4`. -/
def double (newmax : UInt32) : UInt32 := if newmax ≠ 0 then newmax * 2 else 4

/-- `while (num > newmax)`, if it ends within `fuel` tests. -/
def grow (num : UInt32) : ℕ → UInt32 → Option UInt32
  | 0, _ => none
  | fuel + 1, newmax => if newmax < num then grow num fuel (double newmax) else some newmax

/-- `memcpy` to the new buffer, `kfree` of the old one, and the change of `a`. -/
def State.moveTo (c : State) (newptr : Block) (newmax : UInt32) : State where
  mem := (memcpy c.mem newptr.addr c.a.addr (c.a.num * 4)).1
  a := { c.a with v := some newptr, max := newmax }

/-- `array_preallocate`, and what it returns. -/
def preallocate (fuel : ℕ) (k : Kmalloc) (c : State) (num : UInt32) :
    Option (Option Errno × State) :=
  if c.a.max < num then do
    let newmax ← grow num fuel c.a.max
    let size := newmax * 4
    match k.find c.a.v size with
    | none => return (some .enomem, c)
    | some newptr => return (none, c.moveTo ⟨newptr, size⟩ newmax)
  else
    return (none, c)

/-- `array_setsize`. -/
def setsize (fuel : ℕ) (k : Kmalloc) (c : State) (num : UInt32) :
    Option (Option Errno × State) := do
  let (result, c) ← preallocate fuel k c num
  match result with
  | some result => return (some result, c)
  | none => return (none, { c with a := { c.a with num := num } })

/-- `array_get`. There is no result if a `KASSERT` fails. -/
def get (c : State) (index : UInt32) : Option UInt32 :=
  if index < c.a.num then some (c.elem index) else none

/-- `array_set`. -/
def set (c : State) (index val : UInt32) : Option State :=
  if index < c.a.num then some { c with mem := store c.mem (c.at index) val } else none

/-- `array_add`, and the index that it gives. -/
def add (fuel : ℕ) (k : Kmalloc) (c : State) (val : UInt32) :
    Option (Except Errno UInt32 × State) := do
  let index := c.a.num
  let (ret, c) ← setsize fuel k c (index + 1)
  match ret with
  | some ret => return (.error ret, c)
  | none => return (.ok index, { c with mem := store c.mem (c.at index) val })

/-- `array_remove`. -/
def remove (c : State) (index : UInt32) : Option State :=
  if c.a.num ≤ c.a.max ∧ index < c.a.num then
    let num_to_move := c.a.num - (index + 1)
    let mem := (memmove c.mem (c.at index) (c.at (index + 1)) (num_to_move * 4)).1
    some ⟨mem, { c.a with num := c.a.num - 1 }⟩
  else
    none

/-- The buffer has room for `max` pointers, and no more than that are used. -/
structure Fits (c : State) : Prop where
  num_le : c.a.num ≤ c.a.max
  room : 4 * c.a.max.toNat ≤ c.a.bytes
  ends : c.a.addr.toNat + c.a.bytes ≤ 2 ^ 32

section

variable {num m newmax index i : UInt32} {fuel j : ℕ} {k : Kmalloc} {c c' : State}

/-! ### The loop -/

/-- It ends at the first of the doublings that is not below `num`. -/
theorem grow_eq_some_iff : grow num fuel m = some newmax ↔
    ∃ j < fuel, (∀ i < j, double^[i] m < num) ∧ ¬ double^[j] m < num ∧ newmax = double^[j] m := by
  induction fuel generalizing m with
  | zero => simp [grow]
  | succ fuel ih =>
    rw [grow]
    split
    · next hlt =>
      rw [ih]
      constructor
      · rintro ⟨j, hj, hbefore, hend, rfl⟩
        refine ⟨j + 1, Nat.succ_lt_succ hj, fun i hi => ?_, hend, rfl⟩
        cases i with
        | zero => exact hlt
        | succ i => exact hbefore i (Nat.lt_of_succ_lt_succ hi)
      · rintro ⟨j, hj, hbefore, hend, rfl⟩
        cases j with
        | zero => exact absurd hlt hend
        | succ j =>
          exact ⟨j, Nat.lt_of_succ_lt_succ hj, fun i hi => hbefore (i + 1) (Nat.succ_lt_succ hi),
            hend, rfl⟩
    · next hge =>
      constructor
      · rintro ⟨⟩
        exact ⟨0, Nat.succ_pos _, fun i hi => absurd hi (Nat.not_lt_zero i), hge, rfl⟩
      · rintro ⟨j, -, hbefore, -, rfl⟩
        cases j with
        | zero => rfl
        | succ j => exact absurd (hbefore 0 (Nat.succ_pos j)) hge

theorem grow_unique {fuel' : ℕ} {newmax' : UInt32} (h : grow num fuel m = some newmax)
    (h' : grow num fuel' m = some newmax') : newmax = newmax' := by
  obtain ⟨j, -, hbefore, hend, rfl⟩ := grow_eq_some_iff.mp h
  obtain ⟨j', -, hbefore', hend', rfl⟩ := grow_eq_some_iff.mp h'
  rcases Nat.lt_trichotomy j j' with hlt | rfl | hlt
  · exact absurd (hbefore' j hlt) hend
  · rfl
  · exact absurd (hbefore j' hlt) hend'

theorem le_of_grow (h : grow num fuel m = some newmax) : num ≤ newmax := by
  obtain ⟨j, -, -, hend, rfl⟩ := grow_eq_some_iff.mp h
  exact UInt32.not_lt.mp hend

/-- The doublings of a new array are powers of two, until they are zero again. -/
theorem grow_eq_none (hnum : 2 ^ 31 < num.toNat) (hm : m = 0 ∨ ∃ e < 32, m.toNat = 2 ^ e) :
    grow num fuel m = none := by
  induction fuel generalizing m with
  | zero => rfl
  | succ fuel ih =>
    have hlt : m < num := by
      rw [UInt32.lt_iff_toNat_lt]
      rcases hm with rfl | ⟨e, he, hpow⟩
      · exact Nat.lt_trans (Nat.two_pow_pos 31) hnum
      · rw [hpow]
        exact Nat.lt_of_le_of_lt (Nat.pow_le_pow_right (by decide) (by omega)) hnum
    rw [grow, if_pos hlt]
    apply ih
    have h2 : (2 : UInt32).toNat = 2 := rfl
    unfold double
    split
    · next hne =>
      obtain ⟨e, he, hpow⟩ := hm.resolve_left hne
      have hmul : (m * 2).toNat = 2 ^ (e + 1) % 2 ^ 32 := by
        rw [UInt32.toNat_mul, h2, hpow, ← Nat.pow_succ]
      by_cases hlast : e = 31
      · subst hlast
        exact .inl (UInt32.toNat_inj.mp hmul)
      · have hpow' : 2 ^ (e + 1) < 2 ^ 32 := Nat.pow_lt_pow_right (by decide) (by omega)
        exact .inr ⟨e + 1, by omega, by rw [hmul, Nat.mod_eq_of_lt hpow']⟩
    · exact .inr ⟨2, by decide, rfl⟩

/-- What is doubled. -/
def base (max : UInt32) : ℕ := if max = 0 then 4 else max.toNat

theorem toNat_mul_two (hm : m.toNat < 2 ^ 31) : (m * 2).toNat = m.toNat * 2 := by
  have h2 : (2 : UInt32).toNat = 2 := rfl
  rw [UInt32.toNat_mul, h2]
  omega

theorem exists_grow_of_ne_zero (hm : m ≠ 0) (hnum : num.toNat ≤ m.toNat * 2 ^ j)
    (hlt : m.toNat * 2 ^ j < 2 ^ 30) (hfuel : j < fuel) :
    ∃ newmax, grow num fuel m = some newmax ∧ newmax.toNat < 2 ^ 30 := by
  induction j generalizing m fuel with
  | zero =>
    rw [Nat.pow_zero, Nat.mul_one] at hnum hlt
    cases fuel with
    | zero => exact absurd hfuel (Nat.not_lt_zero 0)
    | succ fuel =>
      have hend : ¬ m < num := UInt32.not_lt.mpr (UInt32.le_iff_toNat_le.mpr hnum)
      exact ⟨m, by rw [grow, if_neg hend], hlt⟩
  | succ j ih =>
    cases fuel with
    | zero => exact absurd hfuel (Nat.not_lt_zero _)
    | succ fuel =>
      have hle : m.toNat ≤ m.toNat * 2 ^ (j + 1) := Nat.le_mul_of_pos_right _ (Nat.two_pow_pos _)
      rw [grow]
      split
      · have hdouble : (double m).toNat = m.toNat * 2 := by
          rw [double, if_pos hm]
          exact toNat_mul_two (by omega)
        have hne : double m ≠ 0 := by
          intro h0
          have hpos : m.toNat ≠ 0 := fun h => hm (UInt32.toNat_inj.mp h)
          rw [h0, UInt32.toNat_zero] at hdouble
          omega
        refine ih hne ?_ ?_ (Nat.lt_of_succ_lt_succ hfuel)
        · rwa [hdouble, Nat.mul_assoc, ← Nat.pow_succ']
        · rwa [hdouble, Nat.mul_assoc, ← Nat.pow_succ']
      · exact ⟨m, rfl, by omega⟩

/-- If some doubling below 2^30 is enough, the loop finds one. -/
theorem exists_grow (hnum : num.toNat ≤ base m * 2 ^ j) (hlt : base m * 2 ^ j < 2 ^ 30)
    (hfuel : 31 ≤ fuel) : ∃ newmax, grow num fuel m = some newmax ∧ newmax.toNat < 2 ^ 30 := by
  have hpos : 0 < base m := by
    unfold base
    split
    · exact Nat.succ_pos 3
    · next hm => exact Nat.pos_of_ne_zero fun h => hm (UInt32.toNat_inj.mp h)
  have hj : j < 30 := by
    refine (Nat.pow_lt_pow_iff_right (a := 2) (by omega)).mp (Nat.lt_of_le_of_lt ?_ hlt)
    exact Nat.le_mul_of_pos_left _ hpos
  by_cases hm : m = 0
  · subst hm
    have h4 : base 0 = (4 : UInt32).toNat := rfl
    rw [h4] at hnum hlt
    cases fuel with
    | zero => omega
    | succ fuel =>
      rw [grow]
      split
      · exact exists_grow_of_ne_zero (by decide) hnum hlt (by omega)
      · exact ⟨0, rfl, by decide⟩
  · rw [base, if_neg hm] at hnum hlt
    exact exists_grow_of_ne_zero hm hnum hlt (by omega)

theorem toNat_iterate_double (hm : m ≠ 0) (hlt : ∀ i < j, (double^[i] m).toNat < 2 ^ 30) :
    (double^[j] m).toNat = m.toNat * 2 ^ j := by
  induction j with
  | zero => simp
  | succ j ih =>
    have hlast := hlt j (Nat.lt_succ_self j)
    have hih := ih fun i hi => hlt i (Nat.lt_succ_of_lt hi)
    have hpos : m.toNat ≠ 0 := fun h => hm (UInt32.toNat_inj.mp h)
    have hne : double^[j] m ≠ 0 := by
      intro h0
      rw [h0, UInt32.toNat_zero] at hih
      exact (Nat.mul_ne_zero hpos (Nat.two_pow_pos j).ne') hih.symm
    rw [Function.iterate_succ_apply', double, if_pos hne, toNat_mul_two (by omega), hih,
      Nat.mul_assoc, ← Nat.pow_succ]

/-- Where the loop ends below 2^30, it has doubled without wrapping around. -/
theorem exists_doubling (h : grow num fuel m = some newmax) (hlt : newmax.toNat < 2 ^ 30)
    (hm : m < num) : ∃ j, num.toNat ≤ base m * 2 ^ j ∧ base m * 2 ^ j < 2 ^ 30 := by
  have hle := UInt32.le_iff_toNat_le.mp (le_of_grow h)
  obtain ⟨j, -, hbefore, hend, rfl⟩ := grow_eq_some_iff.mp h
  have hsmall : ∀ i < j, (double^[i] m).toNat < 2 ^ 30 := by
    intro i hi
    have := UInt32.lt_iff_toNat_lt.mp (hbefore i hi)
    omega
  by_cases h0 : m = 0
  · subst h0
    cases j with
    | zero => exact absurd hm hend
    | succ j =>
      have hfour : (double^[j] 4).toNat = 4 * 2 ^ j :=
        toNat_iterate_double (by decide) fun i hi => hsmall (i + 1) (Nat.succ_lt_succ hi)
      rw [Function.iterate_succ_apply, show double 0 = 4 from rfl, hfour] at hle hlt
      exact ⟨j, hle, hlt⟩
  · rw [toNat_iterate_double h0 hsmall] at hle hlt
    rw [base, if_neg h0]
    exact ⟨j, hle, hlt⟩

/-- From 2^30 on, the bytes asked for are not enough. -/
theorem bytes_lt_of_grow (h : grow num fuel m = some newmax) (hlt : m < num)
    (hge : 2 ^ 30 ≤ newmax.toNat) : (newmax * 4).toNat < 4 * num.toNat := by
  obtain ⟨j, -, hbefore, hend, rfl⟩ := grow_eq_some_iff.mp h
  cases j with
  | zero => exact absurd hlt hend
  | succ j =>
    have hlast := hbefore j (Nat.lt_succ_self j)
    rw [Function.iterate_succ_apply'] at hge ⊢
    generalize double^[j] m = last at *
    have h2 : (2 : UInt32).toNat = 2 := rfl
    have h4 : (4 : UInt32).toNat = 4 := rfl
    unfold double at hge ⊢
    split at hge
    · next hne =>
      rw [if_pos hne, UInt32.toNat_mul, UInt32.toNat_mul, h2, h4]
      rw [UInt32.lt_iff_toNat_lt] at hlast
      rw [UInt32.toNat_mul, h2] at hge
      have hlast' := last.toNat_lt
      omega
    · rw [h4] at hge
      omega

/-! ### The new buffer -/

theorem Fits.four_mul_lt (hc : Fits c) : 4 * c.a.max.toNat < 2 ^ 32 := by
  refine Nat.lt_of_le_of_lt hc.room ?_
  cases hv : c.a.v with
  | none => simp [Arr.bytes, hv]
  | some b => simpa [Arr.bytes, hv] using b.size.toNat_lt

theorem Fits.toNat_num_mul (hc : Fits c) : (c.a.num * 4).toNat = 4 * c.a.num.toNat := by
  have h4 : (4 : UInt32).toNat = 4 := rfl
  have hle := UInt32.le_iff_toNat_le.mp hc.num_le
  have hlt := hc.four_mul_lt
  rw [UInt32.toNat_mul, h4]
  omega

/-- The pointers are copied to a place that they are not read from. -/
theorem Fits.copy_apart (hc : Fits c) {size p : UInt32} (hfind : k.find c.a.v size = some p) :
    (c.a.addr - p).toNat + (c.a.num * 4).toNat ≤ 2 ^ 32 := by
  have hle := UInt32.le_iff_toNat_le.mp hc.num_le
  have hroom := hc.room
  have hends := hc.ends
  rw [hc.toNat_num_mul]
  unfold Arr.bytes Arr.addr at *
  cases hv : c.a.v with
  | none =>
    rw [hv, Option.elim_none] at hroom
    have hlt := ((none : Option Block).elim 0 Block.addr - p).toNat_lt
    omega
  | some b =>
    rw [hv] at hfind hroom hends
    simp only [Option.elim_some] at hroom hends ⊢
    have hp := p.toNat_lt
    rw [UInt32.toNat_sub]
    rcases k.apart hfind with h | h <;> omega

theorem moveTo_elem (hc : Fits c) {b : Block}
    (hcopy : (c.a.addr - b.addr).toNat + (c.a.num * 4).toNat ≤ 2 ^ 32) (hi : i < c.a.num) :
    (c.moveTo b newmax).elem i = c.elem i := by
  have hnum := hc.toNat_num_mul
  have hlt := hc.four_mul_lt
  have hle := UInt32.le_iff_toNat_le.mp hc.num_le
  rw [UInt32.lt_iff_toNat_lt] at hi
  rw [State.moveTo, State.elem, State.elem, State.at, memcpy_eq _ hcopy]
  refine load_move fun e he => ?_
  rw [UInt32.lt_iff_toNat_lt] at he ⊢
  have h4 : (4 : UInt32).toNat = 4 := rfl
  rw [UInt32.toNat_add, UInt32.toNat_mul, h4]
  omega

theorem Fits.moveTo (hc : Fits c) {p : UInt32} (hfind : k.find c.a.v (newmax * 4) = some p)
    (hle : c.a.max ≤ newmax) (hlt : newmax.toNat < 2 ^ 30) :
    Fits (c.moveTo ⟨p, newmax * 4⟩ newmax) where
  num_le := UInt32.le_trans hc.num_le hle
  room := by
    have h4 : (4 : UInt32).toNat = 4 := rfl
    change 4 * newmax.toNat ≤ (newmax * 4).toNat
    rw [UInt32.toNat_mul, h4]
    omega
  ends := k.fits hfind

/-! ### Room for the pointers -/

/-- What `array_preallocate` is for: it comes to an end, and either there is room for `num`
pointers, with the old ones in it, or nothing has changed. -/
def Honours (k : Kmalloc) (c : State) (num : UInt32) : Prop :=
  ∃ fuel result c', preallocate fuel k c num = some (result, c') ∧
    (result = none → 4 * num.toNat ≤ c'.a.bytes ∧ c'.a.num = c.a.num ∧
      ∀ i < c.a.num, c'.elem i = c.elem i) ∧
    (result ≠ none → result = some .enomem ∧ c' = c)

/-- The loop ends, and the allocator refuses what is asked for. -/
def Refused (k : Kmalloc) (c : State) (num : UInt32) : Prop :=
  ∃ j, (∀ i < j, double^[i] c.a.max < num) ∧ ¬ double^[j] c.a.max < num ∧
    k.find c.a.v (double^[j] c.a.max * 4) = none

theorem preallocate_of_find (hlt : c.a.max < num) (hgrow : grow num fuel c.a.max = some newmax)
    {p : UInt32} (hfind : k.find c.a.v (newmax * 4) = some p) :
    preallocate fuel k c num = some (none, c.moveTo ⟨p, newmax * 4⟩ newmax) := by
  simp [preallocate, hlt, hgrow, hfind]

theorem preallocate_of_refused (hlt : c.a.max < num)
    (hgrow : grow num fuel c.a.max = some newmax) (hfind : k.find c.a.v (newmax * 4) = none) :
    preallocate fuel k c num = some (some .enomem, c) := by
  simp [preallocate, hlt, hgrow, hfind]

/-- There is room, and the old pointers are there. -/
theorem Fits.preallocate (hc : Fits c) (hgrow : grow num fuel c.a.max = some newmax)
    (hlt : newmax.toNat < 2 ^ 30) : ∃ result c', preallocate fuel k c num = some (result, c') ∧
      (result = none → Fits c' ∧ num ≤ c'.a.max ∧ c'.a.num = c.a.num ∧
        ∀ i < c.a.num, c'.elem i = c.elem i) ∧
      (result ≠ none → result = some .enomem ∧ c' = c) := by
  by_cases hmax : c.a.max < num
  · have hle := le_of_grow hgrow
    cases hfind : k.find c.a.v (newmax * 4) with
    | none => exact ⟨_, _, preallocate_of_refused hmax hgrow hfind, by simp, fun _ => ⟨rfl, rfl⟩⟩
    | some p =>
      refine ⟨_, _, preallocate_of_find hmax hgrow hfind, fun _ => ⟨?_, hle, rfl, ?_⟩, by simp⟩
      · exact hc.moveTo hfind (UInt32.le_trans (UInt32.le_of_lt hmax) hle) hlt
      · exact fun i hi => moveTo_elem hc (hc.copy_apart hfind) hi
  · refine ⟨none, c, by simp [Arrays.preallocate, hmax], fun _ => ?_, by simp⟩
    exact ⟨hc, UInt32.not_lt.mp hmax, rfl, fun _ _ => rfl⟩

/-- **`array_preallocate`** does what it is for exactly if there is room already, or some doubling
below 2^30 is enough, or there is no memory. -/
theorem preallocate_honours_iff (k : Kmalloc) (c : State) (hc : Fits c) (num : UInt32) :
    Honours k c num ↔ num ≤ c.a.max ∨
      (∃ j, num.toNat ≤ base c.a.max * 2 ^ j ∧ base c.a.max * 2 ^ j < 2 ^ 30) ∨
      Refused k c num := by
  constructor
  · rintro ⟨fuel, result, c', heq, hok, -⟩
    by_cases hmax : c.a.max < num
    · refine .inr ?_
      rw [preallocate, if_pos hmax] at heq
      obtain ⟨newmax, hgrow, heq⟩ := Option.bind_eq_some_iff.mp heq
      cases hfind : k.find c.a.v (newmax * 4) with
      | none =>
        obtain ⟨j, -, hbefore, hend, rfl⟩ := grow_eq_some_iff.mp hgrow
        exact .inr ⟨j, hbefore, hend, hfind⟩
      | some p =>
        simp only [hfind, Option.pure_def, Option.some.injEq, Prod.mk.injEq] at heq
        obtain ⟨rfl, rfl⟩ := heq
        have hroom : 4 * num.toNat ≤ (newmax * 4).toNat := (hok rfl).1
        refine .inl (exists_doubling hgrow ?_ hmax)
        by_contra hge
        have := bytes_lt_of_grow hgrow hmax (Nat.le_of_not_lt hge)
        omega
    · exact .inl (UInt32.not_lt.mp hmax)
  · rintro (hle | ⟨j, hnum, hlt⟩ | ⟨j, hbefore, hend, hfind⟩)
    · have hmax : ¬ c.a.max < num := UInt32.not_lt.mpr hle
      refine ⟨0, none, c, by simp [preallocate, hmax], fun _ => ⟨?_, rfl, fun _ _ => rfl⟩, by simp⟩
      have hroom := hc.room
      have hle' := UInt32.le_iff_toNat_le.mp hle
      omega
    · obtain ⟨newmax, hgrow, hsmall⟩ := exists_grow hnum hlt (Nat.le_refl 31)
      obtain ⟨result, c', heq, hok, herr⟩ := hc.preallocate (k := k) hgrow hsmall
      refine ⟨31, result, c', heq, fun hres => ?_, herr⟩
      obtain ⟨hfits, hle, hkept⟩ := hok hres
      have hroom := hfits.room
      have hle' := UInt32.le_iff_toNat_le.mp hle
      exact ⟨by omega, hkept⟩
    · have hgrow : grow num (j + 1) c.a.max = some (double^[j] c.a.max) :=
        grow_eq_some_iff.mpr ⟨j, Nat.lt_succ_self j, hbefore, hend, rfl⟩
      by_cases hmax : c.a.max < num
      · exact ⟨_, _, _, preallocate_of_refused hmax hgrow hfind, by simp, fun _ => ⟨rfl, rfl⟩⟩
      · refine ⟨0, none, c, by simp [preallocate, hmax],
          fun _ => ⟨?_, rfl, fun _ _ => rfl⟩, by simp⟩
        have hroom := hc.room
        have hle' := UInt32.le_iff_toNat_le.mp (UInt32.not_lt.mp hmax)
        omega

end

/-- There is room for 512 megabytes, if none are in use. -/
def kseg0 : Kmalloc where
  find v size := if v.isNone ∧ size ≤ 0x20000000 then some 0x80000000 else none
  ne_null := by
    intro v size p h
    split at h
    · cases h
      decide
    · exact nomatch h
  fits := by
    intro v size p h
    split at h
    · next hsize =>
      cases h
      have := UInt32.le_iff_toNat_le.mp hsize.2
      simp at this ⊢
      omega
    · exact nomatch h
  apart := by
    intro b size p h
    simp at h

theorem fits_init (m : Memory) : Fits (init m) where
  num_le := UInt32.le_refl 0
  room := Nat.le_refl 0
  ends := Nat.zero_le _

/-- A new array gets room for ten pointers, which is within the third doubling. -/
theorem preallocate_honours_iff_init : Honours kseg0 (init fun _ => 0) 10 :=
  (preallocate_honours_iff kseg0 (init fun _ => 0) (fits_init _) 10).mpr
    (.inr (.inl ⟨2, by decide, by decide⟩))

/-- **Not every size** is honoured: for 2^29 + 1 pointers, a new array is given no bytes. -/
theorem not_preallocate_honours :
    ¬ ∀ (k : Kmalloc) (c : State) (num : UInt32), Fits c → Honours k c num := by
  intro h
  obtain ⟨fuel, result, c', heq, hok, -⟩ := h kseg0 (init fun _ => 0) 0x20000001 (fits_init _)
  have hgrow : grow 0x20000001 31 0 = some 0x40000000 := by decide
  obtain ⟨newmax, hgrow', hrest⟩ := Option.bind_eq_some_iff.mp heq
  obtain rfl := grow_unique hgrow' hgrow
  cases hrest
  exact absurd (hok rfl).1 (by decide)

end Arrays

end Os161
