import Os161.Libc.PrintfField
import Os161.Libc.Snprintf

/-!
# Reading numbers back

`common/libc/stdlib/atoi.c`, on the string at its argument, without the `NUL`. White space, a sign
and digits are taken, up to the first character that is something else. The value is kept in an
`unsigned`, so it is right modulo `2 ^ 32`, and so is its negation.

What `printf` prints for a number is read back as that number, the least one included, where the
negation wraps around on both sides.

## Main results

* `Printf.digitLoop_eq`
* `Printf.print_read` — printing and reading back
-/

namespace Os161

namespace Printf

/-- The `digits` of `atoi`. -/
def atoiDigits : List UInt8 := ['0', '1', '2', '3', '4', '5', '6', '7', '8', '9'].map ascii

/-- The last loop of `atoi`. -/
def digitLoop (val : UInt32) : List UInt8 → UInt32
  | [] => val
  | c :: s =>
      match atoiDigits.idxOf? c with
      | none => val
      | some digit => digitLoop (val * 10 + UInt32.ofNat digit) s

/-- `atoi`. -/
def atoi (s : List UInt8) : Int32 :=
  let s := s.dropWhile fun c => c = ascii ' ' ∨ c = ascii '\t'
  let neg := decide (s.head? = some (ascii '-'))
  let s := if s.head? = some (ascii '-') ∨ s.head? = some (ascii '+') then s.tail else s
  let val := digitLoop 0 s
  if neg then (-val).toInt32 else val.toInt32

/-! ### The value of the digits -/

theorem atoiDigits_idxOf {c : UInt8} {d : ℕ} (h : digitVal 10 c = some d) :
    atoiDigits.idxOf? c = some d := by
  obtain ⟨rfl, hd⟩ := eq_digitChar_of_digitVal h
  have hall : ∀ d < 10, atoiDigits.idxOf? (digitChar d) = some d := by decide
  exact hall d hd

/-- The loop computes the value of the digits modulo the range of an `unsigned`. -/
theorem digitLoop_eq {s : List UInt8} {k v : ℕ} (h : readFrom 10 k s = some v) :
    digitLoop (UInt32.ofNat k) s = UInt32.ofNat v := by
  induction s generalizing k with
  | nil =>
    obtain rfl := Option.some.inj h
    rfl
  | cons c s ih =>
    rw [readFrom_cons, Option.bind_eq_some_iff] at h
    obtain ⟨d, hd, h⟩ := h
    have hval : UInt32.ofNat k * 10 + UInt32.ofNat d = UInt32.ofNat (k * 10 + d) := by
      rw [UInt32.ofNat_add, UInt32.ofNat_mul]
      rfl
    rw [digitLoop, atoiDigits_idxOf hd]
    change digitLoop (UInt32.ofNat k * 10 + UInt32.ofNat d) s = _
    rw [hval, ih h]

theorem neg_toInt32 {n : Int32} (hn : n.toInt < 0) :
    (-UInt32.ofNat n.toInt.natAbs).toInt32 = n := by
  have hle := n.le_toInt
  have hi : n.toInt = n.toBitVec.toInt := rfl
  rw [BitVec.toInt_eq_toNat_cond] at hi
  have hlt := n.toBitVec.isLt
  suffices h : -UInt32.ofNat n.toInt.natAbs = n.toUInt32 by
    rw [h]
    rfl
  refine UInt32.toNat_inj.mp ?_
  have hneg : (-UInt32.ofNat n.toInt.natAbs).toNat =
      (2 ^ 32 - (UInt32.ofNat n.toInt.natAbs).toNat) % 2 ^ 32 := BitVec.toNat_neg _
  have habs : (UInt32.ofNat n.toInt.natAbs).toNat = n.toInt.natAbs :=
    UInt32.toNat_ofNat_of_lt' (by rw [UInt32.size]; omega)
  have hn' : n.toUInt32.toNat = n.toBitVec.toNat := rfl
  rw [hneg, habs, hn']
  split at hi <;> omega

theorem toInt32_of_nonneg {n : Int32} (hn : ¬ n.toInt < 0) :
    (UInt32.ofNat n.toInt.natAbs).toInt32 = n := by
  have hlt := n.toInt_lt
  refine Int32.toInt_inj.mp ?_
  have h : (UInt32.ofNat n.toInt.natAbs).toInt32.toInt = (n.toInt.natAbs : ℤ) :=
    Int32.toInt_ofNat_of_lt (by omega)
  rw [h]
  omega

/-- The text of a number is read as the number. -/
theorem atoi_text {n : Int32} {ds : List UInt8} (hk : numVal 10 ds = some n.toInt.natAbs)
    (hne : ds ≠ []) : atoi (signText n.toInt ++ ds) = n := by
  have hloop : digitLoop 0 ds = UInt32.ofNat n.toInt.natAbs := digitLoop_eq hk
  -- a digit is neither white space nor a sign
  obtain ⟨c, s, rfl⟩ := List.exists_cons_of_ne_nil hne
  obtain ⟨d, hd⟩ := digitVal_of_readFrom hk (List.mem_cons_self (a := c) (l := s))
  obtain ⟨rfl, hd10⟩ := eq_digitChar_of_digitVal hd
  have hplain : ∀ d < 10, ¬ (digitChar d = ascii ' ' ∨ digitChar d = ascii '\t') ∧
      digitChar d ≠ ascii '-' ∧ digitChar d ≠ ascii '+' := by decide
  obtain ⟨hws, hminus, hplus⟩ := hplain d hd10
  by_cases hn : n.toInt < 0
  · have hskip : (ascii '-' :: digitChar d :: s).dropWhile
        (fun c => c = ascii ' ' ∨ c = ascii '\t') = ascii '-' :: digitChar d :: s :=
      List.dropWhile_cons_of_neg (by decide)
    rw [signText, if_pos hn, List.singleton_append, atoi, hskip]
    simp only [List.head?_cons, List.tail_cons, decide_true, true_or, if_true]
    rw [hloop, neg_toInt32 hn]
  · have hskip : (digitChar d :: s).dropWhile
        (fun c => c = ascii ' ' ∨ c = ascii '\t') = digitChar d :: s :=
      List.dropWhile_cons_of_neg (by simpa using hws)
    rw [signText, if_neg hn, List.nil_append, atoi, hskip]
    simp only [List.head?_cons, Option.some_inj, hminus, hplus, or_self, decide_false, if_false,
      reduceCtorEq]
    rw [hloop, toInt32_of_nonneg hn]

/-! ### Printing and reading back -/

/-- What `%lld`, `%llo`, `%llu` and `%llx` are given. -/
def dwordValue (ch : UInt8) (d : UInt64) : ℤ :=
  if ch = ascii 'd' then d.toInt64.toInt else d.toNat

/-- The text of a 64-bit number. -/
theorem vprintf_dword {ch : UInt8} (hch : ch ∈ integerTypes) (hp : ch ≠ ascii 'p') (d : UInt64) :
    ∃ n, vprintf collect [] [ascii '%', ascii 'l', ascii 'l', ch] [.dword d] =
      .ok (signText (dwordValue ch d) ++ digitsText ch (dwordValue ch d), n) := by
  have hv : argValue (fieldSize [ascii 'l', ascii 'l']) ch (.dword d) = some (dwordValue ch d) := by
    have hs : fieldSize [ascii 'l', ascii 'l'] = .llongsz := by decide
    rw [argValue, if_neg hp, if_pos hs, dwordValue]
    split <;> rfl
  have hmods : ∀ c ∈ [ascii 'l', ascii 'l'], c ∈ modifierChars := by simp [modifierChars]
  have h := vprintf_field hmods (by decide) hch hv
  rw [fieldText_bare hp (by decide) (by decide)] at h
  exact h

/-- The text of an `int`. -/
theorem vprintf_int (n : Int32) :
    ∃ k, vprintf collect [] [ascii '%', ascii 'd'] [.word n.toUInt32] =
      .ok (signText n.toInt ++ digitsText (ascii 'd') n.toInt, k) := by
  have hv : argValue (fieldSize []) (ascii 'd') (.word n.toUInt32) = some n.toInt := by
    rw [argValue, if_neg (by decide), if_neg (by decide), if_pos rfl]
    rfl
  have hmods : ∀ c ∈ ([] : List UInt8), c ∈ modifierChars := by simp [modifierChars]
  have h := vprintf_field hmods (by decide) (by decide) hv
  rw [fieldText_bare (by decide) (by decide) (by decide)] at h
  exact h

theorem length_int_text (n : Int32) :
    (signText n.toInt ++ digitsText (ascii 'd') n.toInt).length ≤ 11 := by
  have h1 := n.toInt_lt
  have h2 := n.le_toInt
  have hd : (digitsText (ascii 'd') n.toInt).length ≤ 10 := by
    have hb : (baseOf (ascii 'd')).toNat = 10 := by decide
    rw [digitsText, hb]
    exact length_numeral_le (by omega) (by omega) (by omega)
  have hs : (signText n.toInt).length ≤ 1 := by
    rw [signText]
    split <;> simp
  rw [List.length_append]
  omega

/-- An `int` that is printed into a buffer with room for the text is read back by `atoi`, and the
digits of a 64-bit number mean its absolute value. -/
theorem print_read :
    (∀ (n : Int32) (buf : ℕ → UInt8) (len : ℕ), ∃ buf' r,
      snprintf buf len [ascii '%', ascii 'd'] [.word n.toUInt32] = .ok (buf', r) ∧
      r.toInt ≤ 11 ∧ (r.toInt < len → atoi (strz ((List.range len).map buf')) = n)) ∧
    ∀ ch ∈ integerTypes, ch ≠ ascii 'p' → ∀ d : UInt64, ∃ ds n,
      vprintf collect [] [ascii '%', ascii 'l', ascii 'l', ch] [.dword d] =
        .ok (signText (dwordValue ch d) ++ ds, n) ∧
      ds ≠ [] ∧ numVal (baseOf ch).toNat ds = some (dwordValue ch d).natAbs ∧
      (ds.head? = some (ascii '0') → dwordValue ch d = 0) := by
  refine ⟨fun n buf len => ?_, fun ch hch hp d => ?_⟩
  · obtain ⟨r, hrun⟩ := vprintf_int n
    have hle := length_int_text n
    have hval : numVal 10 (digitsText (ascii 'd') n.toInt) = some n.toInt.natAbs :=
      numVal_numeral (by omega) (by omega)
    have hne : digitsText (ascii 'd') n.toInt ≠ [] :=
      numeral_ne_nil (base_bounds (baseOf_mem (ascii 'd'))).1
    have hr := toInt_vprintf hrun (by omega)
    refine ⟨_, r, vsnprintf_eq buf len hrun, by omega, fun hlt => ?_⟩
    have hz : (0 : UInt8) ∉ signText n.toInt ++ digitsText (ascii 'd') n.toInt := by
      intro h0
      rcases List.mem_append.mp h0 with h0 | h0
      · have hs : ∀ c ∈ signText n.toInt, c = ascii '-' := by
          intro c hc
          rw [signText] at hc
          split at hc
          · exact List.mem_singleton.mp hc
          · cases hc
        exact absurd (hs 0 h0) (by decide)
      · obtain ⟨d, hd⟩ := digitVal_of_readFrom hval h0
        revert hd
        rw [digitVal, if_neg (by decide)]
        rintro ⟨⟩
    rw [if_pos (by omega), List.take_of_length_le (by omega), strz_store_nul (by omega) hz]
    exact atoi_text hval hne
  · obtain ⟨n, hrun⟩ := vprintf_dword hch hp d
    obtain ⟨hb1, hb16, -⟩ := base_bounds (baseOf_mem ch)
    refine ⟨_, n, hrun, numeral_ne_nil hb1, numVal_numeral hb1 hb16, fun hhead => ?_⟩
    exact Int.natAbs_eq_zero.mp (head_numeral hb1 hb16 hhead)

end Printf

end Os161
