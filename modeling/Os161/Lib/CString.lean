import Os161.Lib.Bytes
import Mathlib.Data.List.TakeWhile
import Mathlib.Data.Nat.Digits.Lemmas

/-!
# C strings in fixed-size buffers

A name on disk is a `char` array; what `strcmp`, `strlen` and `strcpy` see of it is the run of
bytes before the first `NUL`. `cstr` is that run. `strcpy` and `snprintf` write a string and one
`NUL` over the front of a buffer and leave the rest alone, which is `setCstr`.

`strz` is the string at the start of a piece of memory of any size. `decimal` is the text `%lu`
prints.

## Main results

* `cstr_setCstr` — a string that fits is read back
* `cstr_eq_of_prefix` — only the bytes up to the first `NUL` matter
-/

namespace Os161

variable {n : ℕ}

/-- The bytes of a buffer before its first `NUL`, or all of them when there is none. -/
def cstr (b : Bytes n) : List UInt8 := (List.ofFn b).takeWhile (· ≠ 0)

/-- The bytes of a piece of memory before its first `NUL`. -/
def strz (s : List UInt8) : List UInt8 := s.takeWhile (· ≠ 0)

/-- `strcpy` or `snprintf` of `str` into a buffer: the string, a `NUL`, and what was there. -/
def setCstr (b : Bytes n) (str : List UInt8) : Bytes n :=
  Bytes.ofFn fun i => if h : i < str.length then str[i] else if i = str.length then 0 else b.get i

/-- Whether a buffer holds a `NUL`. -/
def hasNul (b : Bytes n) : Prop := ∃ i, b i = 0

instance (b : Bytes n) : Decidable (hasNul b) := inferInstanceAs (Decidable (∃ i, b i = 0))

/-- Splitting a buffer that starts with `str` and a `NUL`. -/
theorem cstr_eq_of_prefix {b : Bytes n} {str : List UInt8} (hlen : str.length < n)
    (hstr : ∀ i (h : i < str.length), b.get i = str[i]) (hnul : b.get str.length = 0)
    (hz : (0 : UInt8) ∉ str) : cstr b = str := by
  have hsplit : List.ofFn b = str ++ 0 :: (List.ofFn b).drop (str.length + 1) := by
    refine List.ext_getElem (by simp; omega) fun i h1 h2 => ?_
    rw [List.length_ofFn] at h1
    rcases lt_trichotomy i str.length with h | h | h
    · rw [List.getElem_append_left h, List.getElem_ofFn, ← hstr i h, Bytes.get_of_lt b h1]
    · subst h
      simp [← hnul, Bytes.get_of_lt b h1]
    · rw [List.getElem_append_right (by omega), List.getElem_cons, dif_neg (by omega)]
      simp only [List.getElem_drop, List.getElem_ofFn]
      congr 2
      omega
  rw [cstr, hsplit, List.takeWhile_append_of_pos]
  · simp
  · intro a ha
    have : a ≠ 0 := fun h0 => hz (h0 ▸ ha)
    simpa using this

theorem cstr_setCstr {b : Bytes n} {str : List UInt8} (hlen : str.length < n)
    (hz : (0 : UInt8) ∉ str) : cstr (setCstr b str) = str := by
  refine cstr_eq_of_prefix hlen (fun i h => ?_) ?_ hz
  · rw [setCstr, Bytes.get_ofFn _ (by omega), dif_pos h]
  · rw [setCstr, Bytes.get_ofFn _ hlen, dif_neg (lt_irrefl _), if_pos rfl]

/-! ### Strings in memory -/

theorem zero_not_mem_strz (s : List UInt8) : (0 : UInt8) ∉ strz s := fun h => by
  simpa using List.mem_takeWhile_imp h

theorem strz_of_not_mem {s : List UInt8} (hz : (0 : UInt8) ∉ s) : strz s = s :=
  List.takeWhile_eq_self_iff.mpr fun c hc => by simpa using fun h0 : c = 0 => hz (h0 ▸ hc)

theorem strz_append_zero {s : List UInt8} (hz : (0 : UInt8) ∉ s) (t : List UInt8) :
    strz (s ++ 0 :: t) = s := by
  rw [strz, List.takeWhile_append_of_pos fun c hc => by simpa using fun h0 : c = 0 => hz (h0 ▸ hc),
    List.takeWhile_cons_of_neg (by simp), List.append_nil]

/-! ### Decimal numbers -/

/-- The text `%lu` prints for `k`. -/
def decimal (k : ℕ) : List UInt8 :=
  if k = 0 then [48] else ((Nat.digits 10 k).map fun d => UInt8.ofNat (d + 48)).reverse

end Os161
