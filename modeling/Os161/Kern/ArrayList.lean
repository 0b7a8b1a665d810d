import Os161.Kern.Arrays
import Os161.Lib.Refinement
import Mathlib.Data.List.Basic

/-!
# An array is a list of pointers

As long as the sizes stay below 2^29, each operation does to the pointers in the buffer what it
should to a list, or fails for want of memory and changes nothing. What `array_setsize` adds at the
end is what there was in the memory.

## Main definitions

* `Arrays.State.contents` — the pointers that are in use
* `Arrays.pointers` — a list of pointers

## Main results

* `Arrays.array_refines` — an array is a list of pointers
-/

namespace Os161

namespace Arrays

open Memory Memmove

/-- The pointers that are in use. -/
def State.contents (c : State) : List UInt32 :=
  (List.range c.a.num.toNat).map fun i => c.elem (UInt32.ofNat i)

/-- The operations, and the allocator for those that may need it. -/
inductive Op where
  | add (k : Kmalloc) (val : UInt32)
  | set (index val : UInt32)
  | get (index : UInt32)
  | remove (index : UInt32)
  | setsize (k : Kmalloc) (num : UInt32)
  | preallocate (k : Kmalloc) (num : UInt32)

/-- What an operation returns. -/
inductive Result where
  | done
  | index (index : UInt32)
  | pointer (val : UInt32)
  /-- `array_setsize` has succeeded. It does not return the pointers that are now past the old ones,
  but these are what they are. -/
  | resized (past : List UInt32)
  | error (e : Errno)
  /-- A `KASSERT` has failed. -/
  | kassert
  /-- The loop goes on. -/
  | hang

/-- One operation. -/
def apply (fuel : ℕ) (c : State) : Op → State × Result
  | .add k val =>
      match add fuel k c val with
      | some (.ok index, c) => (c, .index index)
      | some (.error e, c) => (c, .error e)
      | none => (c, .hang)
  | .set index val =>
      match set c index val with
      | some c => (c, .done)
      | none => (c, .kassert)
  | .get index =>
      match get c index with
      | some val => (c, .pointer val)
      | none => (c, .kassert)
  | .remove index =>
      match remove c index with
      | some c => (c, .done)
      | none => (c, .kassert)
  | .setsize k num =>
      match setsize fuel k c num with
      | some (none, c') => (c', .resized (c'.contents.drop c.a.num.toNat))
      | some (some e, c) => (c, .error e)
      | none => (c, .hang)
  | .preallocate k num =>
      match preallocate fuel k c num with
      | some (none, c) => (c, .done)
      | some (some e, c) => (c, .error e)
      | none => (c, .hang)

/-- A list of pointers, of a size below 2^29. -/
def pointers : Spec (List UInt32) Op Result where
  pre l
    | .add _ _ => l.length + 1 < 2 ^ 29
    | .set index _ => index.toNat < l.length
    | .get index => index.toNat < l.length
    | .remove index => index.toNat < l.length
    | .setsize _ num => num.toNat < 2 ^ 29
    | .preallocate _ num => num.toNat < 2 ^ 29
  post l
    | .add _ _, .index index => index.toNat = l.length
    | .set _ _, .done => True
    | .get index, .pointer val => l[index.toNat]? = some val
    | .remove _, .done => True
    | .setsize _ num, .resized past => past.length = num.toNat - l.length
    | .preallocate _ _, .done => True
    | .add _ _, .error e | .setsize _ _, .error e | .preallocate _ _, .error e => e = .enomem
    | _, _ => False
  next l
    | .add _ val, .index _ => l ++ [val]
    | .set index val, _ => l.set index.toNat val
    | .remove index, _ => l.eraseIdx index.toNat
    | .setsize _ num, .resized past => l.take num.toNat ++ past
    | _, _ => l

/-- The array stands for `l`, and has the room for it. -/
structure Represents (c : State) (l : List UInt32) : Prop where
  contents : c.contents = l
  fits : Fits c

section

variable {fuel : ℕ} {k : Kmalloc} {c c' : State} {l : List UInt32} {num index val i : UInt32}

/-! ### The pointers one by one -/

@[simp]
theorem length_contents : c.contents.length = c.a.num.toNat := by
  simp [State.contents]

theorem getElem?_contents (hi : i < c.a.num) : c.contents[i.toNat]? = some (c.elem i) := by
  simp [State.contents, UInt32.lt_iff_toNat_lt.mp hi]

theorem contents_eq_iff : c.contents = l ↔
    c.a.num.toNat = l.length ∧ ∀ i < c.a.num, l[i.toNat]? = some (c.elem i) := by
  constructor
  · rintro rfl
    exact ⟨length_contents.symm, fun i hi => getElem?_contents hi⟩
  · rintro ⟨hlen, helem⟩
    refine List.ext_getElem? fun n => ?_
    by_cases hn : n < c.a.num.toNat
    · have hlt := c.a.num.toNat_lt
      have hofNat : (UInt32.ofNat n).toNat = n := by
        rw [UInt32.toNat_ofNat']
        exact Nat.mod_eq_of_lt (by omega)
      have hi : UInt32.ofNat n < c.a.num := by
        rw [UInt32.lt_iff_toNat_lt, hofNat]
        exact hn
      have h1 := getElem?_contents hi
      have h2 := helem _ hi
      rw [hofNat] at h1 h2
      rw [h1, h2]
    · rw [List.getElem?_eq_none (by simpa using hn), List.getElem?_eq_none (by omega)]

theorem Represents.num_eq (hr : Represents c l) : c.a.num.toNat = l.length :=
  (contents_eq_iff.mp hr.contents).1

theorem Represents.elem_eq (hr : Represents c l) (hi : i < c.a.num) :
    l[i.toNat]? = some (c.elem i) :=
  (contents_eq_iff.mp hr.contents).2 i hi

theorem represents_init (m : Memory) : Represents (init m) [] :=
  ⟨rfl, fits_init m⟩

/-! ### Room -/

/-- Up to 2^29 pointers, some doubling is enough and below 2^30. -/
theorem exists_doubling_of_le (hc : Fits c) (hnum : num.toNat ≤ 2 ^ 29) :
    ∃ j, num.toNat ≤ base c.a.max * 2 ^ j ∧ base c.a.max * 2 ^ j < 2 ^ 30 := by
  have hlt := hc.four_mul_lt
  have hbase : 0 < base c.a.max ∧ base c.a.max < 2 ^ 30 := by
    unfold base
    split
    · decide
    · next hne => exact ⟨Nat.pos_of_ne_zero fun h => hne (UInt32.toNat_inj.mp h), by omega⟩
  have hex : ∃ j, num.toNat ≤ base c.a.max * 2 ^ j :=
    ⟨num.toNat, Nat.le_trans (Nat.le_of_lt Nat.lt_two_pow_self)
      (Nat.le_mul_of_pos_left _ hbase.1)⟩
  refine ⟨Nat.find hex, Nat.find_spec hex, ?_⟩
  cases hfirst : Nat.find hex with
  | zero => simpa using hbase.2
  | succ j =>
    have hmin : ¬ num.toNat ≤ base c.a.max * 2 ^ j := Nat.find_min hex (by omega)
    rw [Nat.pow_succ, ← Nat.mul_assoc]
    omega

theorem preallocate_of_le (k : Kmalloc) (num : UInt32) (hc : Fits c) (hfuel : 31 ≤ fuel)
    (hnum : num.toNat ≤ 2 ^ 29) :
    ∃ result c', preallocate fuel k c num = some (result, c') ∧
      (result = none → Fits c' ∧ num ≤ c'.a.max ∧ c'.a.num = c.a.num ∧
        ∀ i < c.a.num, c'.elem i = c.elem i) ∧
      (result ≠ none → result = some .enomem ∧ c' = c) := by
  obtain ⟨j, hle, hlt⟩ := exists_doubling_of_le hc hnum
  obtain ⟨newmax, hgrow, hsmall⟩ := exists_grow hle hlt hfuel
  exact hc.preallocate hgrow hsmall

/-- `array_setsize` keeps the pointers, those past the new size too. -/
theorem setsize_of_le (k : Kmalloc) (num : UInt32) (hc : Fits c) (hfuel : 31 ≤ fuel)
    (hnum : num.toNat ≤ 2 ^ 29) :
    ∃ result c', setsize fuel k c num = some (result, c') ∧
      (result = none → Fits c' ∧ c'.a.num = num ∧ ∀ i < c.a.num, c'.elem i = c.elem i) ∧
      (result ≠ none → result = some .enomem ∧ c' = c) := by
  obtain ⟨result, c', heq, hok, herr⟩ := preallocate_of_le k num hc hfuel hnum
  cases result with
  | some e =>
    exact ⟨some e, c', by simp [setsize, heq], by simp, herr⟩
  | none =>
    obtain ⟨hfits, hle, -, hkept⟩ := hok rfl
    refine ⟨none, { c' with a := { c'.a with num := num } }, by simp [setsize, heq],
      fun _ => ⟨⟨hle, hfits.room, hfits.ends⟩, rfl, hkept⟩, by simp⟩

/-! ### Writing a pointer -/

/-- Two pointers of the buffer have no byte in common. -/
theorem Fits.elem_apart (hc : Fits c) {j : UInt32} (hi : i < c.a.max) (hj : j < c.a.max)
    (hne : i ≠ j) : ∀ b < 4, ¬ c.at i + b - c.at j < 4 := by
  intro b hb
  have h4 : (4 : UInt32).toNat = 4 := rfl
  have hlt := hc.four_mul_lt
  have hne' : i.toNat ≠ j.toNat := fun h => hne (UInt32.toNat_inj.mp h)
  have hsub : c.at i + b - c.at j = 4 * i + b - 4 * j := by
    unfold State.at
    grind
  rw [UInt32.lt_iff_toNat_lt, h4] at hb
  rw [UInt32.lt_iff_toNat_lt] at hi hj
  rw [hsub, UInt32.lt_iff_toNat_lt, UInt32.toNat_sub, UInt32.toNat_add, UInt32.toNat_mul,
    UInt32.toNat_mul, h4]
  omega

theorem elem_store (hc : Fits c) (hindex : index < c.a.max) (hi : i < c.a.max) :
    { c with mem := store c.mem (c.at index) val : State }.elem i =
      if i = index then val else c.elem i := by
  split
  · next heq =>
    subst heq
    exact load_store_self ..
  · next hne => exact load_store_of_out (hc.elem_apart hi hindex hne)

theorem set_spec (val : UInt32) (hr : Represents c l) (hindex : index.toNat < l.length) :
    ∃ c', set c index val = some c' ∧ Represents c' (l.set index.toNat val) := by
  have hlt : index < c.a.num := UInt32.lt_iff_toNat_lt.mpr (hr.num_eq ▸ hindex)
  refine ⟨{ c with mem := store c.mem (c.at index) val }, if_pos hlt,
    contents_eq_iff.mpr ⟨?_, fun i hi => ?_⟩, ⟨hr.fits.num_le, hr.fits.room, hr.fits.ends⟩⟩
  · simpa using hr.num_eq
  · have hmax := UInt32.lt_of_lt_of_le hlt hr.fits.num_le
    rw [elem_store hr.fits hmax (UInt32.lt_of_lt_of_le hi hr.fits.num_le), List.getElem?_set]
    split
    · next heq => simp [UInt32.toNat_inj.mp heq]
    · next hne =>
      rw [if_neg fun h => hne (congrArg UInt32.toNat h).symm]
      exact hr.elem_eq hi

/-! ### The other operations -/

theorem get_spec (hr : Represents c l) (hindex : index.toNat < l.length) :
    ∃ val, get c index = some val ∧ l[index.toNat]? = some val := by
  have hlt : index < c.a.num := UInt32.lt_iff_toNat_lt.mpr (hr.num_eq ▸ hindex)
  exact ⟨c.elem index, if_pos hlt, hr.elem_eq hlt⟩

theorem setsize_spec (k : Kmalloc) (hr : Represents c l) (hfuel : 31 ≤ fuel)
    (hnum : num.toNat < 2 ^ 29) :
    ∃ result c', setsize fuel k c num = some (result, c') ∧
      (result = none → (c'.contents.drop c.a.num.toNat).length = num.toNat - l.length ∧
        Represents c' (l.take num.toNat ++ c'.contents.drop c.a.num.toNat)) ∧
      (result ≠ none → result = some .enomem ∧ Represents c' l) := by
  obtain ⟨result, c', heq, hok, herr⟩ := setsize_of_le k num hr.fits hfuel (Nat.le_of_lt hnum)
  refine ⟨result, c', heq, fun hres => ?_, fun hres => ?_⟩
  · obtain ⟨hfits, hnum', hkept⟩ := hok hres
    have hlen : c'.contents.length = num.toNat := by rw [length_contents, hnum']
    refine ⟨by rw [List.length_drop, hlen, hr.num_eq], ?_, hfits⟩
    have htake : l.take num.toNat = c'.contents.take c.a.num.toNat := by
      rw [← hr.contents, State.contents, State.contents, ← List.map_take, ← List.map_take,
        List.take_range, List.take_range, hnum', Nat.min_comm]
      refine List.map_congr_left fun n hn => (hkept _ ?_).symm
      rw [List.mem_range] at hn
      rw [UInt32.lt_iff_toNat_lt, UInt32.toNat_ofNat']
      have hlt := c.a.num.toNat_lt
      omega
    rw [htake, List.take_append_drop]
  · obtain ⟨he, rfl⟩ := herr hres
    exact ⟨he, hr⟩

theorem add_spec (k : Kmalloc) (val : UInt32) (hr : Represents c l) (hfuel : 31 ≤ fuel)
    (hlen : l.length + 1 < 2 ^ 29) :
    ∃ ret c', add fuel k c val = some (ret, c') ∧
      (∀ index, ret = .ok index → index.toNat = l.length ∧ Represents c' (l ++ [val])) ∧
      (∀ e, ret = .error e → e = .enomem ∧ Represents c' l) := by
  have hnum : (c.a.num + 1).toNat = l.length + 1 := by
    have h1 : (1 : UInt32).toNat = 1 := rfl
    rw [UInt32.toNat_add, hr.num_eq, h1]
    omega
  obtain ⟨result, c', heq, hok, herr⟩ :=
    setsize_of_le k (c.a.num + 1) hr.fits hfuel (by omega)
  cases result with
  | some e =>
    obtain ⟨he, rfl⟩ := herr (by simp)
    cases he
    refine ⟨.error .enomem, c', by simp [add, heq], by simp, ?_⟩
    rintro e ⟨⟩
    exact ⟨rfl, hr⟩
  | none =>
    obtain ⟨hfits, hnum', hkept⟩ := hok rfl
    refine ⟨.ok c.a.num, { c' with mem := store c'.mem (c'.at c.a.num) val }, by simp [add, heq],
      ?_, by simp⟩
    rintro index ⟨⟩
    refine ⟨hr.num_eq, contents_eq_iff.mpr ⟨?_, fun i hi => ?_⟩, hfits.num_le, hfits.room,
      hfits.ends⟩
    · have hlen' : c'.a.num.toNat = l.length + 1 := by rw [hnum', hnum]
      simpa using hlen'
    · have hlast : c.a.num < c'.a.num := by
        rw [hnum', UInt32.lt_iff_toNat_lt, hnum, hr.num_eq]
        exact Nat.lt_succ_self _
      rw [elem_store hfits (UInt32.lt_of_lt_of_le hlast hfits.num_le)
        (UInt32.lt_of_lt_of_le hi hfits.num_le)]
      split
      · next hi =>
        rw [hi, hr.num_eq]
        simp
      · next hne =>
        have hi' : i < c.a.num := by
          have hne' : i.toNat ≠ c.a.num.toNat := fun h => hne (UInt32.toNat_inj.mp h)
          rw [hnum', UInt32.lt_iff_toNat_lt, hnum] at hi
          rw [hr.num_eq] at hne'
          rw [UInt32.lt_iff_toNat_lt, hr.num_eq]
          omega
        rw [List.getElem?_append_left (hr.num_eq ▸ UInt32.lt_iff_toNat_lt.mp hi'), hkept i hi']
        exact hr.elem_eq hi'

/-- The move of the pointers past `index`. They overlap with where they go. -/
theorem memmove_elem (hc : Fits c) (hindex : index < c.a.num) (hi : i < c.a.num - 1) :
    load (memmove c.mem (c.at index) (c.at (index + 1)) ((c.a.num - (index + 1)) * 4)).1 (c.at i) =
      if i < index then c.elem i else c.elem (i + 1) := by
  have h4 : (4 : UInt32).toNat = 4 := rfl
  have h1 : (1 : UInt32).toNat = 1 := rfl
  have hfour := hc.four_mul_lt
  have hle := UInt32.le_iff_toNat_le.mp hc.num_le
  have hends := hc.ends
  have hroom := hc.room
  rw [UInt32.lt_iff_toNat_lt] at hindex
  have hsucc : (index + 1).toNat = index.toNat + 1 := by
    rw [UInt32.toNat_add, h1]
    omega
  have hpred : (c.a.num - 1).toNat = c.a.num.toNat - 1 := by
    rw [UInt32.toNat_sub, h1]
    have hnum := c.a.num.toNat_lt
    omega
  have hlen : ((c.a.num - (index + 1)) * 4).toNat = 4 * (c.a.num.toNat - (index.toNat + 1)) := by
    rw [UInt32.toNat_mul, UInt32.toNat_sub, hsucc, h4]
    have hnum := c.a.num.toNat_lt
    omega
  rw [UInt32.lt_iff_toNat_lt, hpred] at hi
  have haddr : ∀ j : UInt32, (c.at j).toNat = (c.a.addr.toNat + 4 * j.toNat) % 2 ^ 32 := by
    intro j
    rw [State.at, UInt32.toNat_add, UInt32.toNat_mul, h4, Nat.add_mod_mod]
  have hdst : (c.at index).toNat + ((c.a.num - (index + 1)) * 4).toNat ≤ 2 ^ 32 := by
    rw [haddr, hlen]
    omega
  have hsrc : (c.at (index + 1)).toNat + ((c.a.num - (index + 1)) * 4).toNat ≤ 2 ^ 32 := by
    rw [haddr, hlen, hsucc]
    omega
  rw [memmove_eq c.mem hdst hsrc]
  split
  · next hbelow =>
    refine load_move_of_out fun b hb => ?_
    have hsub : c.at i + b - c.at index = 4 * i + b - 4 * index := by
      unfold State.at
      grind
    rw [UInt32.lt_iff_toNat_lt] at hbelow
    rw [UInt32.lt_iff_toNat_lt, h4] at hb
    rw [hsub, UInt32.lt_iff_toNat_lt, hlen, UInt32.toNat_sub, UInt32.toNat_add, UInt32.toNat_mul,
      UInt32.toNat_mul, h4]
    omega
  · next habove =>
    have hfrom : c.at i = c.at index + 4 * (i - index) := by
      unfold State.at
      grind
    have hto : c.at (i + 1) = c.at (index + 1) + 4 * (i - index) := by
      unfold State.at
      grind
    rw [State.elem, hto, hfrom]
    refine load_move fun b hb => ?_
    rw [UInt32.lt_iff_toNat_lt] at habove
    rw [UInt32.lt_iff_toNat_lt, h4] at hb
    have hsub : (i - index).toNat = i.toNat - index.toNat :=
      UInt32.toNat_sub_of_le _ _ (UInt32.le_iff_toNat_le.mpr (by omega))
    rw [UInt32.lt_iff_toNat_lt, hlen, UInt32.toNat_add, UInt32.toNat_mul, hsub, h4]
    omega

theorem remove_spec (hr : Represents c l) (hindex : index.toNat < l.length) :
    ∃ c', remove c index = some c' ∧ Represents c' (l.eraseIdx index.toNat) := by
  have hlt : index < c.a.num := UInt32.lt_iff_toNat_lt.mpr (hr.num_eq ▸ hindex)
  have hpred : (c.a.num - 1).toNat = c.a.num.toNat - 1 := by
    have h1 : (1 : UInt32).toNat = 1 := rfl
    rw [UInt32.toNat_sub, h1]
    have hnum := c.a.num.toNat_lt
    rw [hr.num_eq] at hnum ⊢
    omega
  refine ⟨_, if_pos ⟨hr.fits.num_le, hlt⟩, contents_eq_iff.mpr ⟨?_, fun i hi => ?_⟩,
    ?_, hr.fits.room, hr.fits.ends⟩
  · rw [List.length_eraseIdx_of_lt hindex, ← hr.num_eq]
    exact hpred
  · have hi' : i.toNat < c.a.num.toNat - 1 := hpred ▸ UInt32.lt_iff_toNat_lt.mp hi
    have hsucc : (i + 1).toNat = i.toNat + 1 := by
      have h1 : (1 : UInt32).toNat = 1 := rfl
      have hnum := c.a.num.toNat_lt
      rw [UInt32.toNat_add, h1]
      omega
    rw [State.elem, State.at]
    refine Eq.trans ?_ (congrArg some (memmove_elem hr.fits hlt hi)).symm
    rw [List.getElem?_eraseIdx]
    simp only [UInt32.lt_iff_toNat_lt]
    split
    · exact hr.elem_eq (UInt32.lt_iff_toNat_lt.mpr (by omega))
    · rw [← hsucc]
      exact hr.elem_eq (UInt32.lt_iff_toNat_lt.mpr (by omega))
  · refine UInt32.le_trans (UInt32.le_iff_toNat_le.mpr ?_) hr.fits.num_le
    rw [hpred]
    exact Nat.sub_le _ _

/-- **One operation.** -/
theorem Represents.apply (hr : Represents c l) (hfuel : 31 ≤ fuel) (op : Op)
    (hpre : pointers.pre l op) : pointers.post l op (apply fuel c op).2 ∧
      Represents (Arrays.apply fuel c op).1 (pointers.next l op (Arrays.apply fuel c op).2) := by
  cases op with
  | add k val =>
    obtain ⟨ret, c', heq, hok, herr⟩ := add_spec k val hr hfuel hpre
    cases ret with
    | ok index => simpa [Arrays.apply, heq, pointers] using hok index rfl
    | error e => simpa [Arrays.apply, heq, pointers] using herr e rfl
  | set index val =>
    obtain ⟨c', heq, hr'⟩ := set_spec val hr hpre
    simpa [Arrays.apply, heq, pointers] using hr'
  | get index =>
    obtain ⟨val, heq, hval⟩ := get_spec hr hpre
    simpa [Arrays.apply, heq, pointers] using ⟨hval, hr⟩
  | remove index =>
    obtain ⟨c', heq, hr'⟩ := remove_spec hr hpre
    simpa [Arrays.apply, heq, pointers] using hr'
  | setsize k num =>
    obtain ⟨result, c', heq, hok, herr⟩ := setsize_spec k hr hfuel hpre
    cases result with
    | none => simpa [Arrays.apply, heq, pointers] using hok rfl
    | some e => simpa [Arrays.apply, heq, pointers] using herr (by simp)
  | preallocate k num =>
    obtain ⟨result, c', heq, hok, herr⟩ :=
      preallocate_of_le k num hr.fits hfuel (Nat.le_of_lt hpre)
    cases result with
    | none =>
      obtain ⟨hfits, -, hnum, hkept⟩ := hok rfl
      have hr' : Represents c' l := by
        refine ⟨contents_eq_iff.mpr ⟨hnum ▸ hr.num_eq, fun i hi => ?_⟩, hfits⟩
        rw [hnum] at hi
        rw [hkept i hi]
        exact hr.elem_eq hi
      simpa [Arrays.apply, heq, pointers] using hr'
    | some e =>
      obtain ⟨he, rfl⟩ := herr (by simp)
      simpa [Arrays.apply, heq, pointers] using ⟨Option.some.inj he, hr⟩

/-! ### Failure -/

theorem preallocate_error {e : Errno} (h : preallocate fuel k c num = some (some e, c')) :
    c' = c := by
  unfold preallocate at h
  split at h
  · obtain ⟨newmax, -, h⟩ := Option.bind_eq_some_iff.mp h
    dsimp only at h
    split at h <;> cases h
    rfl
  · cases h

theorem setsize_error {e : Errno} (h : setsize fuel k c num = some (some e, c')) : c' = c := by
  obtain ⟨⟨result, c₁⟩, heq, h⟩ := Option.bind_eq_some_iff.mp h
  cases result with
  | none => cases h
  | some e' =>
    cases h
    exact preallocate_error heq

theorem add_error {e : Errno} (h : add fuel k c val = some (.error e, c')) : c' = c := by
  obtain ⟨⟨ret, c₁⟩, heq, h⟩ := Option.bind_eq_some_iff.mp h
  cases ret with
  | none => cases h
  | some e' =>
    cases h
    exact setsize_error heq

/-- An operation that fails has changed nothing, in any state. -/
theorem apply_error {op : Op} {e : Errno} (h : (apply fuel c op).2 = .error e) :
    (apply fuel c op).1 = c := by
  cases op with
  | add k val =>
    dsimp only [apply] at h ⊢
    split at h
    · cases h
    · next heq => simpa [heq] using add_error heq
    · cases h
  | setsize k num =>
    dsimp only [apply] at h ⊢
    split at h
    · cases h
    · next heq => simpa [heq] using setsize_error heq
    · cases h
  | preallocate k num =>
    dsimp only [apply] at h ⊢
    split at h
    · cases h
    · next heq => simpa [heq] using preallocate_error heq
    · cases h
  | set index val | get index | remove index =>
    dsimp only [apply] at h
    split at h <;> cases h

end

/-- **An array** is a list of pointers, for any memory and however the allocator answers. -/
theorem array_refines (fuel : ℕ) (hfuel : 31 ≤ fuel) (m : Memory) (ops : List Op) :
    Conforms (apply fuel) pointers Represents (init m) [] ops ∧
      ∀ c op e, (apply fuel c op).2 = .error e → (apply fuel c op).1 = c :=
  ⟨conforms_of_step (fun _ _ op hr hpre => hr.apply hfuel op hpre) (represents_init m) ops,
    fun _ _ _ h => apply_error h⟩

/-- With the fuel that is enough. -/
theorem array_refines_init :
    Conforms (apply 31) pointers Represents (init fun _ => 0) [] [.add kseg0 5, .remove 0] :=
  (array_refines 31 (Nat.le_refl 31) (fun _ => 0) [.add kseg0 5, .remove 0]).1

end Arrays

end Os161
