import Os161.Libc.Printf
import Mathlib.Data.List.DropRight
import Mathlib.Data.List.Induction

/-!
# The fields of printf

What one `%`-field of an integer type prints, for every string of modifiers. The modifiers are read
off as a whole: the flags by whether their character occurs, the width as the number its digits
make, and zero filling from the first of these digits. The text is the sign, the base prefix and
the digits, filled up to the width.

With zero filling the zeros go between the prefix and the digits, where they change nothing. But
when the field is to be aligned to the left as well they go behind the digits, and the number on
the page is a multiple of the argument.

## Main results

* `Printf.sendAll_field` — the text of a field
* `Printf.field_denotes_iff` — when it stands for its argument
-/

namespace Os161

namespace Printf

variable {σ : Type}

/-! ### The modifiers as a whole -/

/-- The digits among the modifiers. -/
def widthDigits (mods : List UInt8) : List UInt8 :=
  mods.filter fun c => ascii '0' ≤ c ∧ c ≤ ascii '9'

/-- The field width. -/
def width (mods : List UInt8) : ℕ := (numVal 10 (widthDigits mods)).getD 0

/-- Whether the field is to be filled up with zeros. -/
def zeroFill (mods : List UInt8) : Bool := (widthDigits mods).head? = some (ascii '0')

/-- Whether the field is to be aligned to the left. -/
def leftAlign (mods : List UInt8) : Bool := ascii '-' ∈ mods

/-- Whether the alternative format is asked for. -/
def alternate (mods : List UInt8) : Bool := ascii '#' ∈ mods

/-- The size of the argument, as the `l` and `z` of the modifiers set it in turn. -/
def fieldSize (mods : List UInt8) : Size :=
  mods.foldl (fun size c =>
    if c = ascii 'l' then if size = .longsz then .llongsz else .longsz
    else if c = ascii 'z' then .sizetsz
    else size) .intsz

/-- The machine after the modifiers of a field. -/
def afterMods (pf : PF σ) (mods : List UInt8) : PF σ :=
  { pf with
    inPct := true
    size := fieldSize mods
    spacing := width mods
    rightspc := leftAlign mods
    fillchar := if zeroFill mods then ascii '0' else ascii ' '
    altformat := alternate mods }

variable {mods : List UInt8} {c : UInt8}

private theorem digit_table : ∀ c ∈ modifierChars, ascii '0' ≤ c → c ≤ ascii '9' →
    digitVal 10 c = some (c - ascii '0').toNat ∧ (c ≠ ascii '0' → 0 < (c - ascii '0').toNat) := by
  set_option maxRecDepth 2000 in decide

theorem numVal_widthDigits (hmods : ∀ c ∈ mods, c ∈ modifierChars) :
    numVal 10 (widthDigits mods) = some (width mods) := by
  suffices h : ∃ k, numVal 10 (widthDigits mods) = some k by
    obtain ⟨k, hk⟩ := h
    rw [width, hk, Option.getD_some]
  induction mods using List.reverseRecOn with
  | nil => exact ⟨0, rfl⟩
  | append_singleton mods c ih =>
    obtain ⟨k, hk⟩ := ih fun c hc => hmods c (List.mem_append_left _ hc)
    rw [widthDigits, List.filter_append, ← widthDigits, numVal, readFrom_append, ← numVal, hk,
      Option.bind_some]
    by_cases hc : ascii '0' ≤ c ∧ c ≤ ascii '9'
    · obtain ⟨hd, -⟩ := digit_table c (hmods c (by simp)) hc.1 hc.2
      rw [List.filter_cons_of_pos (by simpa using hc), readFrom_cons, hd, Option.bind_some]
      exact ⟨_, rfl⟩
    · rw [List.filter_cons_of_neg (by simpa using hc)]
      exact ⟨k, rfl⟩

theorem width_append_digit (hmods : ∀ d ∈ mods ++ [c], d ∈ modifierChars)
    (hc : ascii '0' ≤ c ∧ c ≤ ascii '9') :
    width (mods ++ [c]) = width mods * 10 + (c - ascii '0').toNat := by
  have hk := numVal_widthDigits fun d hd => hmods d (List.mem_append_left _ hd)
  obtain ⟨hd, -⟩ := digit_table c (hmods c (by simp)) hc.1 hc.2
  rw [width, widthDigits, List.filter_append, ← widthDigits, numVal, readFrom_append, ← numVal, hk,
    Option.bind_some, List.filter_cons_of_pos (by simpa using hc), readFrom_cons, hd,
    Option.bind_some]
  rfl

theorem widthDigits_append_other (hc : ¬ (ascii '0' ≤ c ∧ c ≤ ascii '9')) :
    widthDigits (mods ++ [c]) = widthDigits mods := by
  rw [widthDigits, List.filter_append, List.filter_cons_of_neg (by simpa using hc),
    List.filter_nil, List.append_nil, widthDigits]

/-- Digits of the value zero are zeros. -/
theorem zeroFill_of_width_zero (hmods : ∀ c ∈ mods, c ∈ modifierChars) (h0 : width mods = 0)
    (hne : widthDigits mods ≠ []) : zeroFill mods = true := by
  have hval := numVal_widthDigits hmods
  obtain ⟨c, s, hcs⟩ := List.exists_cons_of_ne_nil hne
  rw [h0, hcs] at hval
  rw [zeroFill, hcs, head_of_numVal_zero (by omega) hval]
  rfl

theorem sendAll_append (send : σ → List UInt8 → σ) (pf : PF σ) {s : List UInt8}
    (hs : ∀ c ∈ s, c ≠ 0) (t : List UInt8) :
    sendAll send pf (s ++ t) = (sendAll send pf s >>= fun pf => sendAll send pf t) := by
  induction s generalizing pf with
  | nil => rfl
  | cons c s ih =>
    have hc : c ≠ 0 := hs c (by simp)
    rw [List.cons_append, sendAll, sendAll, if_neg hc, if_neg hc]
    cases pfSend send pf c with
    | error e => rfl
    | ok pf => exact ih pf fun d hd => hs d (List.mem_cons_of_mem _ hd)

theorem mod_ne_zero {c : UInt8} (hc : c ∈ modifierChars) : c ≠ 0 := by
  have h : ∀ c ∈ modifierChars, c ≠ 0 := by
    set_option maxRecDepth 2000 in decide
  exact h c hc

theorem setSpacing_ok (pf : PF σ) {w : ℕ} (hw : w < 2 ^ 31) :
    setSpacing pf w = .ok { pf with spacing := w } := by rw [setSpacing, if_pos hw]

theorem widthDigits_append_digit (hc : ascii '0' ≤ c ∧ c ≤ ascii '9') :
    widthDigits (mods ++ [c]) = widthDigits mods ++ [c] := by
  rw [widthDigits, List.filter_append, List.filter_cons_of_pos (by simpa using hc),
    List.filter_nil, widthDigits]

/-- Only the first digit decides about zero filling. -/
theorem zeroFill_append (hne : widthDigits mods ≠ []) :
    zeroFill (mods ++ [c]) = zeroFill mods := by
  by_cases hc : ascii '0' ≤ c ∧ c ≤ ascii '9'
  · rw [zeroFill, widthDigits_append_digit hc, List.head?_append_of_ne_nil _ hne, zeroFill]
  · rw [zeroFill, widthDigits_append_other hc, zeroFill]

theorem zeroFill_append_first (hnil : widthDigits mods = []) (hc : ascii '0' ≤ c ∧ c ≤ ascii '9') :
    zeroFill (mods ++ [c]) = decide (c = ascii '0') := by
  rw [zeroFill, widthDigits_append_digit hc, hnil, List.nil_append, List.head?_cons]
  simp

theorem leftAlign_append : leftAlign (mods ++ [c]) = (leftAlign mods || c = ascii '-') := by
  simp [leftAlign, eq_comm]

theorem alternate_append : alternate (mods ++ [c]) = (alternate mods || c = ascii '#') := by
  simp [alternate, eq_comm]

theorem fieldSize_append : fieldSize (mods ++ [c]) =
    if c = ascii 'l' then if fieldSize mods = .longsz then .llongsz else .longsz
    else if c = ascii 'z' then .sizetsz
    else fieldSize mods := by
  rw [fieldSize, List.foldl_append]
  rfl

/-- A modifier that is no digit. -/
theorem afterMods_append_other (pf : PF σ) (hc : ¬ (ascii '0' ≤ c ∧ c ≤ ascii '9')) :
    afterMods pf (mods ++ [c]) = { afterMods pf mods with
      size := fieldSize (mods ++ [c])
      rightspc := leftAlign mods || c = ascii '-'
      altformat := alternate mods || c = ascii '#' } := by
  have hw : width (mods ++ [c]) = width mods := by rw [width, widthDigits_append_other hc, width]
  have hz : zeroFill (mods ++ [c]) = zeroFill mods := by
    rw [zeroFill, widthDigits_append_other hc, zeroFill]
  simp only [afterMods, hw, hz, leftAlign_append, alternate_append]

/-- A digit. -/
theorem afterMods_append_digit (pf : PF σ) (hmods : ∀ d ∈ mods ++ [c], d ∈ modifierChars)
    (hc : ascii '0' ≤ c ∧ c ≤ ascii '9') :
    afterMods pf (mods ++ [c]) = { afterMods pf mods with
      spacing := width mods * 10 + (c - ascii '0').toNat
      fillchar := if zeroFill (mods ++ [c]) then ascii '0' else ascii ' ' } := by
  have hne : ∀ d, ascii '0' ≤ d ∧ d ≤ ascii '9' → d ≠ ascii 'l' ∧ d ≠ ascii 'z' ∧
      d ≠ ascii '-' ∧ d ≠ ascii '#' := by
    intro d hd
    refine ⟨?_, ?_, ?_, ?_⟩ <;> (rintro rfl; revert hd; decide)
  obtain ⟨hl, hz, hm, hs⟩ := hne c hc
  simp only [afterMods, width_append_digit hmods hc, leftAlign_append, alternate_append,
    fieldSize_append, if_neg hl, if_neg hz, hm, hs, decide_false, Bool.or_false]

/-- One more digit of the width. -/
theorem pfModifier_digit (pf : PF σ) (hmods : ∀ d ∈ mods ++ [c], d ∈ modifierChars)
    (hw : width (mods ++ [c]) < 2 ^ 31) (hc : ascii '0' ≤ c ∧ c ≤ ascii '9') :
    pfModifier (afterMods pf mods) c = .ok (afterMods pf (mods ++ [c])) := by
  have hmods' : ∀ d ∈ mods, d ∈ modifierChars := fun d hd => hmods d (List.mem_append_left _ hd)
  have hcm : c ∈ modifierChars := hmods c (by simp)
  have hdigit : ∀ c ∈ modifierChars, ascii '0' ≤ c → c ≤ ascii '9' → c ≠ ascii '#' ∧
      c ≠ ascii '-' ∧ c ≠ ascii 'l' ∧ c ≠ ascii 'z' ∧ (c ≠ ascii '0' → ascii '0' < c) := by
    set_option maxRecDepth 2000 in decide
  obtain ⟨h1, h2, h3, h4, hpos⟩ := hdigit c hcm hc.1 hc.2
  have hspc : (afterMods pf mods).spacing = width mods := rfl
  rw [width_append_digit hmods hc] at hw
  -- digits that make no number so far are all zeros, or there are none
  have hfill : zeroFill (mods ++ [c]) =
      (zeroFill mods || (decide (c = ascii '0') && decide (width mods = 0))) := by
    by_cases hnil : widthDigits mods = []
    · have h0 : width mods = 0 := by rw [width, hnil]; rfl
      have hf : zeroFill mods = false := by rw [zeroFill, hnil]; rfl
      rw [zeroFill_append_first hnil hc, hf, Bool.false_or, decide_eq_true h0, Bool.and_true]
    · rw [zeroFill_append hnil]
      by_cases h0 : width mods = 0
      · rw [zeroFill_of_width_zero hmods' h0 hnil, Bool.true_or]
      · rw [decide_eq_false h0, Bool.and_false, Bool.or_false]
  rw [pfModifier, if_neg h1, if_neg h2, if_neg h3, if_neg h4, afterMods_append_digit pf hmods hc,
    hspc, hfill]
  by_cases hz : c = ascii '0'
  · have hd0 : (c - ascii '0').toNat = 0 := by rw [hz]; rfl
    rw [if_pos hz, hd0, Nat.add_zero]
    by_cases h0 : 0 < width mods
    · rw [if_pos h0, setSpacing_ok _ (by omega), decide_eq_false (by omega : ¬ width mods = 0),
        Bool.and_false, Bool.or_false]
      rfl
    · have hw0 : width mods = 0 := by omega
      rw [if_neg h0, decide_eq_true hz, decide_eq_true hw0, Bool.and_true, Bool.or_true, if_pos rfl,
        hw0, Nat.zero_mul]
  · rw [if_neg hz, if_pos ⟨hpos hz, hc.2⟩, setSpacing_ok _ hw, decide_eq_false hz,
      Bool.false_and, Bool.or_false]
    rfl

theorem pfModifier_afterMods (pf : PF σ) (hmods : ∀ d ∈ mods ++ [c], d ∈ modifierChars)
    (hw : width (mods ++ [c]) < 2 ^ 31) :
    pfModifier (afterMods pf mods) c = .ok (afterMods pf (mods ++ [c])) := by
  by_cases hc : ascii '0' ≤ c ∧ c ≤ ascii '9'
  · exact pfModifier_digit pf hmods hw hc
  · have hother : ∀ c ∈ modifierChars, ¬ (ascii '0' ≤ c ∧ c ≤ ascii '9') →
        c = ascii '#' ∨ c = ascii '-' ∨ c = ascii 'l' ∨ c = ascii 'z' := by
      set_option maxRecDepth 2000 in decide
    rw [afterMods_append_other pf hc, fieldSize_append, pfModifier]
    rcases hother c (hmods c (by simp)) hc with rfl | rfl | rfl | rfl
    · rw [if_pos rfl, if_neg (by decide), if_neg (by decide), decide_eq_false (by decide),
        decide_eq_true rfl, Bool.or_false, Bool.or_true]
      rfl
    · rw [if_neg (by decide), if_pos rfl, if_neg (by decide), if_neg (by decide),
        decide_eq_false (by decide : ¬ ascii '-' = ascii '#'), decide_eq_true rfl, Bool.or_false,
        Bool.or_true]
      rfl
    · rw [if_neg (by decide), if_neg (by decide), if_pos rfl, if_pos rfl,
        decide_eq_false (by decide), decide_eq_false (by decide), Bool.or_false, Bool.or_false]
      rfl
    · rw [if_neg (by decide), if_neg (by decide), if_neg (by decide), if_pos rfl,
        if_neg (by decide), if_pos rfl, decide_eq_false (by decide), decide_eq_false (by decide),
        Bool.or_false, Bool.or_false]
      rfl

theorem width_le_append (hmods : ∀ d ∈ mods ++ [c], d ∈ modifierChars) :
    width mods ≤ width (mods ++ [c]) := by
  by_cases hc : ascii '0' ≤ c ∧ c ≤ ascii '9'
  · rw [width_append_digit hmods hc]
    omega
  · rw [width, width, widthDigits_append_other hc]

/-- The modifiers, one after the other, from the start of a field on. -/
theorem sendAll_mods (send : σ → List UInt8 → σ) (pf : PF σ) (hpf : pfEndfield pf = pf)
    (hmods : ∀ c ∈ mods, c ∈ modifierChars) (hw : width mods < 2 ^ 31) :
    sendAll send { pf with inPct := true } mods = .ok (afterMods pf mods) := by
  induction mods using List.reverseRecOn with
  | nil =>
    rw [← hpf]
    rfl
  | append_singleton mods c ih =>
    have hmods' : ∀ d ∈ mods, d ∈ modifierChars := fun d hd => hmods d (List.mem_append_left _ hd)
    have hc : c ∈ modifierChars := hmods c (by simp)
    have hle := width_le_append hmods
    rw [sendAll_append _ _ fun d hd => mod_ne_zero (hmods' d hd), ih hmods' (by omega)]
    change sendAll send (afterMods pf mods) [c] = _
    have hpct : (afterMods pf mods).inPct = true := rfl
    rw [sendAll, if_neg (mod_ne_zero hc), pfSend, if_neg (mod_ne_zero hc), hpct,
      if_neg (by simp), if_neg (by simp), if_pos hc, pfModifier_afterMods pf hmods hw]
    rfl

/-! ### The argument -/

/-- The number that an integer type prints, where the argument is of the type it takes. -/
def argValue (size : Size) (ch : UInt8) : Arg → Option ℤ
  | .word w =>
      if ch = ascii 'p' then some w.toNat
      else if size = .llongsz then none
      else if ch = ascii 'd' then some w.toInt32.toInt
      else some w.toNat
  | .dword d =>
      if ch = ascii 'p' then none
      else if size = .llongsz then
        if ch = ascii 'd' then some d.toInt64.toInt else some d.toNat
      else none
  | .str _ => none

/-- Negation gives the absolute value, of the least number too. -/
theorem toNat_toUInt64_neg {x : Int64} (hx : x < 0) : (-x).toUInt64.toNat = x.toInt.natAbs := by
  have hneg : x.toInt < 0 := Int64.lt_iff_toInt_lt.mp hx
  have hn : (-x).toUInt64.toNat = (2 ^ 64 - x.toBitVec.toNat) % 2 ^ 64 := BitVec.toNat_neg _
  have hi : x.toInt = x.toBitVec.toInt := rfl
  rw [BitVec.toInt_eq_toNat_cond] at hi
  have hlt := x.toBitVec.isLt
  rw [hn]
  split at hi <;> omega

theorem toNat_toUInt64_nonneg {x : Int64} (hx : ¬ x < 0) : x.toUInt64.toNat = x.toInt.natAbs := by
  have hnn : ¬ x.toInt < 0 := fun h => hx (Int64.lt_iff_toInt_lt.mpr h)
  have hn : x.toUInt64.toNat = x.toBitVec.toNat := rfl
  have hi : x.toInt = x.toBitVec.toInt := rfl
  rw [BitVec.toInt_eq_toNat_cond] at hi
  have hlt := x.toBitVec.isLt
  rw [hn]
  split at hi <;> omega

/-- The machine once the argument of value `v` is fetched. -/
def fetched (pf : PF σ) (v : ℤ) (ap : List Arg) : PF σ :=
  { pf with sign := pf.sign || decide (v < 0), num := UInt64.ofNat v.natAbs, ap := ap }

theorem fetched_signed (pf : PF σ) (x : Int64) (ap : List Arg) :
    (if x < 0 then
      (.ok { pf with sign := true, num := (-x).toUInt64, ap := ap } : Except Stop (PF σ))
      else .ok { pf with num := x.toUInt64, ap := ap }) = .ok (fetched pf x.toInt ap) := by
  by_cases hx : x < 0
  · have hneg : x.toInt < 0 := Int64.lt_iff_toInt_lt.mp hx
    rw [if_pos hx, fetched, decide_eq_true hneg, Bool.or_true, ← toNat_toUInt64_neg hx,
      UInt64.ofNat_toNat]
  · have hnn : ¬ x.toInt < 0 := fun h => hx (Int64.lt_iff_toInt_lt.mpr h)
    rw [if_neg hx, fetched, decide_eq_false hnn, Bool.or_false, ← toNat_toUInt64_nonneg hx,
      UInt64.ofNat_toNat]

theorem fetched_unsigned (pf : PF σ) (x : UInt64) (ap : List Arg) :
    ({ pf with num := x, ap := ap } : PF σ) = fetched pf x.toNat ap := by
  rw [fetched, decide_eq_false (by omega), Bool.or_false, Int.natAbs_natCast, UInt64.ofNat_toNat]

theorem fetched_unsigned_word (pf : PF σ) (w : UInt32) (ap : List Arg) :
    ({ pf with num := w.toUInt64, ap := ap } : PF σ) = fetched pf w.toNat ap := by
  rw [fetched_unsigned, UInt32.toNat_toUInt64]

/-- An argument of the type that is taken is fetched. -/
theorem pfGetnum_eq (pf : PF σ) {ch : UInt8} {a : Arg} {ap : List Arg} {v : ℤ}
    (hap : pf.ap = a :: ap) (hv : argValue pf.size ch a = some v) :
    pfGetnum pf ch = .ok (fetched pf v ap) := by
  cases a with
  | str s => cases hv
  | word w =>
    rw [argValue] at hv
    rw [pfGetnum, hap]
    split at hv
    · next hp =>
      cases hv
      rw [if_pos hp]
      exact congrArg Except.ok (fetched_unsigned_word pf w ap)
    · next hp =>
      split at hv
      · cases hv
      · next hs =>
        have hsigned : vaSigned pf.size (.word w :: ap) = .ok (w.toInt32.toInt64, ap) := by
          cases hsz : pf.size <;> first | rfl | exact absurd hsz hs
        have hunsigned : vaUnsigned pf.size (.word w :: ap) = .ok (w.toUInt64, ap) := by
          cases hsz : pf.size <;> first | rfl | exact absurd hsz hs
        rw [if_neg hp, hsigned, hunsigned]
        split at hv
        · next hd =>
          cases hv
          rw [if_pos hd, ← Int32.toInt_toInt64]
          exact fetched_signed pf w.toInt32.toInt64 ap
        · next hd =>
          cases hv
          rw [if_neg hd]
          exact congrArg Except.ok (fetched_unsigned_word pf w ap)
  | dword d =>
    rw [argValue] at hv
    rw [pfGetnum, hap]
    split at hv
    · cases hv
    · next hp =>
      split at hv
      · next hs =>
        have hsigned : vaSigned pf.size (.dword d :: ap) = .ok (d.toInt64, ap) := by rw [hs]; rfl
        have hunsigned : vaUnsigned pf.size (.dword d :: ap) = .ok (d, ap) := by rw [hs]; rfl
        rw [if_neg hp, hsigned, hunsigned]
        split at hv
        · next hd =>
          cases hv
          rw [if_pos hd]
          exact fetched_signed pf d.toInt64 ap
        · next hd =>
          cases hv
          rw [if_neg hd]
          exact congrArg Except.ok (fetched_unsigned pf d ap)
      · cases hv

/-! ### The text of a field -/

/-- The sign that is shown. -/
def signText (v : ℤ) : List UInt8 := if v < 0 then [ascii '-'] else []

/-- The prefix of a base. -/
def basePrefix (base : UInt64) : List UInt8 :=
  if base = 16 then [ascii '0', ascii 'x'] else if base = 8 then [ascii '0'] else []

/-- The prefix that is shown. -/
def prefixText (mods : List UInt8) (ch : UInt8) : List UInt8 :=
  if alternate mods || decide (ch = ascii 'p') then basePrefix (baseOf ch) else []

/-- The digits that are shown. -/
def digitsText (ch : UInt8) (v : ℤ) : List UInt8 := numeral (baseOf ch).toNat v.natAbs

/-- The field without padding. -/
def unpadded (mods : List UInt8) (ch : UInt8) (v : ℤ) : List UInt8 :=
  signText v ++ (prefixText mods ch ++ digitsText ch v)

/-- The field. -/
def fieldText (mods : List UInt8) (ch : UInt8) (v : ℤ) : List UInt8 :=
  let fill := width mods - (unpadded mods ch v).length
  let fillchar := if zeroFill mods then ascii '0' else ascii ' '
  if leftAlign mods then unpadded mods ch v ++ List.replicate fill fillchar
  else if zeroFill mods then
    signText v ++ (prefixText mods ch ++ (List.replicate fill fillchar ++ digitsText ch v))
  else List.replicate fill fillchar ++ unpadded mods ch v

theorem natAbs_lt_of_argValue {size : Size} {ch : UInt8} {a : Arg} {v : ℤ}
    (hv : argValue size ch a = some v) : v.natAbs < 2 ^ 64 := by
  cases a with
  | str s => cases hv
  | word w =>
    have h1 := w.toNat_lt
    have h2 := w.toInt32.toInt_lt
    have h3 := w.toInt32.le_toInt
    simp only [argValue] at hv
    split at hv
    · cases hv; omega
    · split at hv
      · cases hv
      · split at hv <;> (cases hv; omega)
  | dword d =>
    have h1 := d.toNat_lt
    have h2 := d.toInt64.toInt_lt
    have h3 := d.toInt64.le_toInt
    simp only [argValue] at hv
    split at hv
    · cases hv
    · split at hv
      · split at hv <;> (cases hv; omega)
      · cases hv

theorem length_unpadded_lt (mods : List UInt8) (ch : UInt8) {v : ℤ} (hv : v.natAbs < 2 ^ 64) :
    (unpadded mods ch v).length < 2 ^ 31 := by
  obtain ⟨hb, -, hroom⟩ := base_bounds (baseOf_mem ch)
  have hd : (digitsText ch v).length ≤ numberBufSize - 1 :=
    length_numeral_le hb (by decide) (Nat.lt_of_lt_of_le hv hroom)
  have hs : (signText v).length ≤ 1 := by
    rw [signText]
    split <;> simp
  have hp : (prefixText mods ch).length ≤ 2 := by
    rw [prefixText, basePrefix]
    split
    · split
      · simp
      · split <;> simp
    · simp
  have hn : numberBufSize = 23 := by decide
  rw [unpadded, List.length_append, List.length_append]
  omega

/-- The machine before `__pf_printnum`. -/
def readyToPrint (pf : PF σ) (mods : List UInt8) (ch : UInt8) (v : ℤ) (ap : List Arg) : PF σ :=
  { afterMods pf mods with
    ap := ap
    sign := decide (v < 0)
    num := UInt64.ofNat v.natAbs
    base := baseOf ch
    basePrefix := alternate mods || decide (ch = ascii 'p') }

theorem padded_eq_fieldText (pf : PF σ) (ch : UInt8) (v : ℤ) (ap : List Arg) :
    padded (readyToPrint pf mods ch v ap) (signText v) (prefixText mods ch) (digitsText ch v) =
      fieldText mods ch v := by
  have hlen : (signText v).length + (prefixText mods ch).length + (digitsText ch v).length =
      (unpadded mods ch v).length := by
    rw [unpadded, List.length_append, List.length_append, Nat.add_assoc]
  have hright : (readyToPrint pf mods ch v ap).rightspc = leftAlign mods := rfl
  have hfill : (readyToPrint pf mods ch v ap).fillchar =
      if zeroFill mods then ascii '0' else ascii ' ' := rfl
  have hspc : (readyToPrint pf mods ch v ap).spacing = width mods := rfl
  rw [padded, hlen, fieldText]
  by_cases hl : leftAlign mods = true
  · rw [padding, if_pos (hright.trans hl), if_pos hl, hfill, hspc]
    simp only [unpadded, List.nil_append, List.append_assoc]
  · rw [padding, if_neg (by rw [hright]; exact hl), if_neg hl, hfill, hspc]
    by_cases hz : zeroFill mods = true
    · rw [if_pos hz, if_pos rfl, if_pos hz]
      simp only [List.nil_append, List.append_nil]
    · rw [if_neg hz, if_neg (by decide), if_neg hz]
      simp only [unpadded, List.nil_append, List.append_nil]

theorem pfPrintnum_field (pf : PF (List UInt8)) (ch : UInt8) {v : ℤ} (hv : v.natAbs < 2 ^ 64)
    (ap : List Arg) :
    pfPrintnum collect (readyToPrint pf mods ch v ap) =
      .ok ((readyToPrint pf mods ch v ap).emit (fieldText mods ch v)) := by
  have hnum : (UInt64.ofNat v.natAbs).toNat = v.natAbs := UInt64.toNat_ofNat_of_lt' hv
  have hx : printDigits (readyToPrint pf mods ch v ap).base (numberBufSize - 1)
      (readyToPrint pf mods ch v ap).num [] = .ok (digitsText ch v) := by
    rw [digitsText, ← hnum]
    exact printDigits_buf (baseOf_mem ch) _
  have hpre : (if (readyToPrint pf mods ch v ap).basePrefix = true ∧
      (readyToPrint pf mods ch v ap).base = 16 then [ascii '0', ascii 'x']
      else if (readyToPrint pf mods ch v ap).basePrefix = true ∧
        (readyToPrint pf mods ch v ap).base = 8 then [ascii '0'] else []) =
      prefixText mods ch := by
    have hbp : (readyToPrint pf mods ch v ap).basePrefix =
        (alternate mods || decide (ch = ascii 'p')) := rfl
    have hbase : (readyToPrint pf mods ch v ap).base = baseOf ch := rfl
    rw [hbase, hbp, prefixText, basePrefix]
    cases alternate mods || decide (ch = ascii 'p') with
    | true => simp only [true_and, if_true]
    | false => simp only [reduceCtorEq, false_and, if_false]
  have hsign : (if (readyToPrint pf mods ch v ap).sign = true then [ascii '-'] else []) =
      signText v := by
    simp only [readyToPrint, signText, decide_eq_true_eq]
  have hlen := length_unpadded_lt mods ch hv
  rw [unpadded, List.length_append, List.length_append, ← Nat.add_assoc] at hlen
  rw [pfPrintnum, hx, hpre, hsign, ← padded_eq_fieldText pf ch v ap]
  exact pfPrintstuff_collect hlen

/-- What is printed for the modifiers and a type character once they are read. -/
theorem pfSend_field (pf : PF (List UInt8)) (hpf : pfEndfield pf = pf) {ch : UInt8} {a : Arg}
    {ap : List Arg} {v : ℤ} (hap : pf.ap = a :: ap) (hch : ch ∈ integerTypes)
    (hv : argValue (fieldSize mods) ch a = some v) :
    pfSend collect (afterMods pf mods) ch =
      .ok ({ pf with ap := ap }.emit (fieldText mods ch v)) := by
  have hsort : ∀ c ∈ integerTypes, c ≠ 0 ∧ c ∉ modifierChars := by
    set_option maxRecDepth 2000 in decide
  obtain ⟨hch0, hnomod⟩ := hsort ch hch
  have hpct : (afterMods pf mods).inPct = true := rfl
  have hget := pfGetnum_eq (afterMods pf mods) hap hv
  rw [pfSend, if_neg hch0, hpct, if_neg (by simp), if_neg (by simp), if_neg hnomod, if_pos hch,
    hget]
  have hsign : pf.sign = false := by rw [← hpf]; rfl
  have hbp : pf.basePrefix = false := by rw [← hpf]; rfl
  have hready : pfSetbase (fetched (afterMods pf mods) v ap) ch = readyToPrint pf mods ch v ap := by
    rw [pfSetbase_eq _ hch]
    simp only [fetched, afterMods, readyToPrint, hsign, hbp, Bool.false_or]
  have hend : pfEndfield ((readyToPrint pf mods ch v ap).emit (fieldText mods ch v)) =
      ({ pfEndfield pf with ap := ap } : PF (List UInt8)).emit (fieldText mods ch v) := rfl
  change (do
    let q ← pfPrintnum collect (pfSetbase (fetched (afterMods pf mods) v ap) ch)
    Except.ok (pfEndfield q)) = _
  rw [hready, pfPrintnum_field pf ch (natAbs_lt_of_argValue hv)]
  exact congrArg Except.ok (hend.trans (by rw [hpf]))

/-- A field, anywhere in a format. -/
theorem sendAll_field (pf : PF (List UInt8)) (hpf : pfEndfield pf = pf) {ch : UInt8} {a : Arg}
    {ap : List Arg} {v : ℤ} (hap : pf.ap = a :: ap) (hmods : ∀ c ∈ mods, c ∈ modifierChars)
    (hw : width mods < 2 ^ 31) (hch : ch ∈ integerTypes)
    (hv : argValue (fieldSize mods) ch a = some v) :
    sendAll collect pf (ascii '%' :: (mods ++ [ch])) =
      .ok ({ pf with ap := ap }.emit (fieldText mods ch v)) := by
  have hpct : pf.inPct = false := by rw [← hpf]; rfl
  have hch0 : ch ≠ 0 := by
    have h : ∀ c ∈ integerTypes, c ≠ 0 := by
      set_option maxRecDepth 2000 in decide
    exact h ch hch
  have hstart : pfSend collect pf (ascii '%') = .ok { pf with inPct := true } := by
    rw [pfSend, if_neg (by decide), if_neg (fun h => h.2 rfl), if_pos hpct]
  rw [sendAll, if_neg (by decide), hstart]
  change sendAll collect { pf with inPct := true } (mods ++ [ch]) = _
  rw [sendAll_append _ _ fun d hd => mod_ne_zero (hmods d hd), sendAll_mods _ _ hpf hmods hw]
  change sendAll collect (afterMods pf mods) [ch] = _
  rw [sendAll, if_neg hch0, pfSend_field pf hpf hap hch hv]
  rfl

/-- A format that is one field. -/
theorem vprintf_field {ch : UInt8} {a : Arg} {v : ℤ} (hmods : ∀ c ∈ mods, c ∈ modifierChars)
    (hw : width mods < 2 ^ 31) (hch : ch ∈ integerTypes)
    (hv : argValue (fieldSize mods) ch a = some v) :
    ∃ n, vprintf collect [] (ascii '%' :: (mods ++ [ch])) [a] = .ok (fieldText mods ch v, n) := by
  have hinit : pfEndfield (PF.init [] [a] : PF (List UInt8)) = PF.init [] [a] := rfl
  rw [vprintf, sendAll_field _ hinit rfl hmods hw hch hv]
  exact ⟨_, rfl⟩

/-- Without modifiers, a field is the sign and the digits. -/
theorem fieldText_bare {ch : UInt8} (hch : ch ≠ ascii 'p') (hw : width mods = 0)
    (halt : alternate mods = false) (v : ℤ) :
    fieldText mods ch v = signText v ++ digitsText ch v := by
  have hpre : prefixText mods ch = [] := by
    rw [prefixText, halt, decide_eq_false hch]
    rfl
  have hbare : unpadded mods ch v = signText v ++ digitsText ch v := by
    rw [unpadded, hpre, List.nil_append]
  rw [fieldText, hw, Nat.zero_sub]
  simp only [List.replicate_zero, List.append_nil, List.nil_append, hpre, hbare, ite_self]

/-! ### The number on the page -/

/-- A text without the spaces around it. -/
def trimSpaces (s : List UInt8) : List UInt8 :=
  (s.dropWhile (· = ascii ' ')).rdropWhile (· = ascii ' ')

/-- A text without the prefix of base 16. The one of base 8 reads as a digit. -/
def stripPrefix (base : UInt64) (s : List UInt8) : List UInt8 :=
  if base = 16 ∧ s.take 2 = [ascii '0', ascii 'x'] then s.drop 2 else s

/-- The number a prefix and at least one digit stand for. -/
def readUnsigned (base : UInt64) (s : List UInt8) : Option ℕ :=
  if stripPrefix base s = [] then none else numVal base.toNat (stripPrefix base s)

/-- The number a sign, a prefix and at least one digit stand for. The sign and the prefix may be
absent. -/
def readNumber (base : UInt64) (s : List UInt8) : Option ℤ :=
  if s.head? = some (ascii '-') then (readUnsigned base s.tail).map fun k : ℕ => -(k : ℤ)
  else (readUnsigned base s).map fun k : ℕ => (k : ℤ)

variable {ds : List UInt8} {base : UInt64} {k : ℕ}

/-- What is no digit: a space, a minus, and the `x` of the prefix. -/
theorem digit_ne (hk : numVal base.toNat ds = some k) (hc : c ∈ ds) :
    c ≠ ascii ' ' ∧ c ≠ ascii '-' ∧ c ≠ ascii 'x' := by
  obtain ⟨d, hd⟩ := digitVal_of_readFrom hk hc
  have hmem : c ∈ digitChars := by
    rw [digitVal] at hd
    split at hd
    · next h => exact h.2
    · cases hd
  have h : ∀ c ∈ digitChars, c ≠ ascii ' ' ∧ c ≠ ascii '-' ∧ c ≠ ascii 'x' := by
    set_option maxRecDepth 2000 in decide
  exact h c hmem

theorem stripPrefix_digits (hk : numVal base.toNat ds = some k) :
    stripPrefix base ds = ds := by
  refine if_neg fun h => ?_
  have hmem : ascii 'x' ∈ ds := by
    refine List.mem_of_mem_take (i := 2) ?_
    rw [h.2]
    simp
  exact (digit_ne hk hmem).2.2 rfl

/-- A prefix does not change the number. -/
theorem readUnsigned_prefix (hb : base ∈ bases) (hne : ds ≠ [])
    (hk : numVal base.toNat ds = some k) {pre : List UInt8}
    (hpre : pre = [] ∨ pre = basePrefix base) : readUnsigned base (pre ++ ds) = some k := by
  have hplain : readUnsigned base ds = some k := by
    rw [readUnsigned, stripPrefix_digits hk, if_neg hne, hk]
  rcases hpre with rfl | rfl
  · exact hplain
  · have hbase : base = 8 ∨ base = 10 ∨ base = 16 := by simpa [bases] using hb
    rcases hbase with rfl | rfl | rfl
    · have hz : numVal (8 : UInt64).toNat (ascii '0' :: ds) = some k := by
        have h := numVal_zeros_append (b := (8 : UInt64).toNat) (n := 1) (s := ds) (by decide)
        rw [← hk, ← h]
        rfl
      have hp : basePrefix 8 ++ ds = ascii '0' :: ds := rfl
      rw [hp, readUnsigned, stripPrefix_digits hz, if_neg (List.cons_ne_nil _ _), hz]
    · exact hplain
    · have hs : stripPrefix 16 (basePrefix 16 ++ ds) = ds := rfl
      rw [readUnsigned, hs, if_neg hne, hk]

theorem readNumber_text (hb : base ∈ bases) (hne : ds ≠ []) (hk : numVal base.toNat ds = some k)
    {pre : List UInt8} (hpre : pre = [] ∨ pre = basePrefix base) (v : ℤ) :
    readNumber base (signText v ++ (pre ++ ds)) = some (if v < 0 then -(k : ℤ) else k) := by
  have hr := readUnsigned_prefix hb hne hk hpre
  rw [readNumber, signText]
  by_cases hv : v < 0
  · have htail : ([ascii '-'] ++ (pre ++ ds)).tail = pre ++ ds := rfl
    have hhead : ([ascii '-'] ++ (pre ++ ds)).head? = some (ascii '-') := rfl
    rw [if_pos hv, if_pos hhead, if_pos hv, htail, hr, Option.map_some]
  · have hhead : (pre ++ ds).head? ≠ some (ascii '-') := by
      intro h
      have hmem : ascii '-' ∈ pre ++ ds := List.mem_of_mem_head? h
      rcases List.mem_append.mp hmem with hm | hm
      · have hno : ∀ b ∈ bases, ascii '-' ∉ basePrefix b := by
          simp [bases, basePrefix, ascii]
        rcases hpre with rfl | rfl
        · cases hm
        · exact hno base hb hm
      · exact (digit_ne hk hm).2.1 rfl
    rw [if_neg hv, if_neg hv, List.nil_append, if_neg hhead, hr, Option.map_some]

theorem trimSpaces_pad {s : List UInt8} (hs : ∀ c ∈ s, c ≠ ascii ' ') (m n : ℕ) :
    trimSpaces (List.replicate m (ascii ' ') ++ (s ++ List.replicate n (ascii ' '))) = s := by
  have hspaces : ∀ n, (List.replicate n (ascii ' ')).dropWhile (· = ascii ' ') = [] := by
    intro n
    simp
  have hfront : (s ++ List.replicate n (ascii ' ')).rdropWhile (· = ascii ' ') = s := by
    induction n with
    | zero =>
      rw [List.replicate_zero, List.append_nil, List.rdropWhile_eq_self_iff]
      exact fun hl => by simpa using hs _ (List.getLast_mem hl)
    | succ n ih =>
      rw [List.replicate_succ', ← List.append_assoc, List.rdropWhile_concat_pos _ _ _ (by simp), ih]
  have hdrop : (s ++ List.replicate n (ascii ' ')).dropWhile (· = ascii ' ') =
      if s = [] then [] else s ++ List.replicate n (ascii ' ') := by
    cases s with
    | nil => exact hspaces n
    | cons c s =>
      have hc : ¬ c = ascii ' ' := hs c (by simp)
      rw [List.cons_append, List.dropWhile_cons_of_neg (by simpa using hc)]
      rfl
  rw [trimSpaces, List.dropWhile_append_of_pos (by simp [List.mem_replicate]), hdrop]
  split
  · next h => rw [h]; rfl
  · exact hfront

/-! ### Whether a field denotes its argument -/

theorem length_fieldText (ch : UInt8) (v : ℤ) :
    (fieldText mods ch v).length = max (width mods) (unpadded mods ch v).length := by
  have hlen : (unpadded mods ch v).length =
      (signText v).length + ((prefixText mods ch).length + (digitsText ch v).length) := by
    rw [unpadded, List.length_append, List.length_append]
  rw [fieldText]
  split
  · rw [List.length_append, List.length_replicate]
    omega
  · split
    · rw [List.length_append, List.length_append, List.length_append, List.length_replicate]
      omega
    · rw [List.length_append, List.length_replicate]
      omega

theorem prefixText_eq (mods : List UInt8) (ch : UInt8) :
    prefixText mods ch = [] ∨ prefixText mods ch = basePrefix (baseOf ch) := by
  rw [prefixText]
  split
  · exact .inr rfl
  · exact .inl rfl

/-- The sign, the prefix and digits that mean `k`, with spaces around. -/
theorem readNumber_padded (mods : List UInt8) {ch : UInt8} (hne : ds ≠ [])
    (hk : numVal (baseOf ch).toNat ds = some k) (v : ℤ) (m n : ℕ) :
    readNumber (baseOf ch) (trimSpaces (List.replicate m (ascii ' ') ++
      ((signText v ++ (prefixText mods ch ++ ds)) ++ List.replicate n (ascii ' ')))) =
      some (if v < 0 then -(k : ℤ) else k) := by
  have hspace : ∀ c ∈ signText v ++ (prefixText mods ch ++ ds), c ≠ ascii ' ' := by
    intro c hc
    rcases List.mem_append.mp hc with hc | hc
    · rw [signText] at hc
      split at hc
      · rw [List.mem_singleton.mp hc]
        decide
      · cases hc
    · rcases List.mem_append.mp hc with hc | hc
      · have hno : ∀ b ∈ bases, ∀ c ∈ basePrefix b, c ≠ ascii ' ' := by
          simp [bases, basePrefix, ascii]
        rcases prefixText_eq mods ch with hp | hp
        · rw [hp] at hc
          cases hc
        · rw [hp] at hc
          exact hno _ (baseOf_mem ch) c hc
      · exact (digit_ne hk hc).1
  rw [trimSpaces_pad hspace]
  exact readNumber_text (baseOf_mem ch) hne hk (prefixText_eq mods ch) v

theorem sign_natAbs (v : ℤ) : (if v < 0 then -(v.natAbs : ℤ) else v.natAbs) = v := by
  split <;> omega

theorem sign_natAbs_mul (v : ℤ) (k : ℕ) :
    (if v < 0 then -((v.natAbs * k : ℕ) : ℤ) else (v.natAbs * k : ℕ)) = v * k := by
  rw [Nat.cast_mul, ← Int.neg_mul, ← ite_mul, sign_natAbs]

/-- The number a field stands for. -/
theorem readNumber_fieldText (mods : List UInt8) (ch : UInt8) (v : ℤ) :
    readNumber (baseOf ch) (trimSpaces (fieldText mods ch v)) =
      some (if leftAlign mods = true ∧ zeroFill mods = true then
        v * ((baseOf ch).toNat : ℤ) ^ (width mods - (unpadded mods ch v).length) else v) := by
  obtain ⟨hb1, hb16, -⟩ := base_bounds (baseOf_mem ch)
  have hval : numVal (baseOf ch).toNat (digitsText ch v) = some v.natAbs :=
    numVal_numeral hb1 hb16
  have hne : digitsText ch v ≠ [] := numeral_ne_nil hb1
  generalize hn : width mods - (unpadded mods ch v).length = n
  have hplain := readNumber_padded mods hne hval v
  rw [sign_natAbs] at hplain
  by_cases hl : leftAlign mods = true
  · by_cases hz : zeroFill mods = true
    · -- the zeros are behind the digits
      have htext : fieldText mods ch v = signText v ++ (prefixText mods ch ++
          (digitsText ch v ++ List.replicate n (ascii '0'))) := by
        simp only [fieldText, hn, hl, hz, if_true]
        rw [unpadded, List.append_assoc, List.append_assoc]
      have hzeros : numVal (baseOf ch).toNat (digitsText ch v ++ List.replicate n (ascii '0')) =
          some (v.natAbs * (baseOf ch).toNat ^ n) := by
        have h := numVal_append_zeros (n := n) (s := digitsText ch v)
          (by omega : 0 < (baseOf ch).toNat)
        rw [hval] at h
        exact h
      have h := readNumber_padded mods (List.append_ne_nil_of_left_ne_nil hne _) hzeros
        v 0 0
      rw [List.replicate_zero, List.nil_append, List.append_nil, ← htext] at h
      rw [h, sign_natAbs_mul, Nat.cast_pow, if_pos ⟨hl, hz⟩]
    · have htext : fieldText mods ch v = signText v ++ (prefixText mods ch ++ digitsText ch v) ++
          List.replicate n (ascii ' ') := by
        simp only [fieldText, hn, hl, hz, if_true, if_false, reduceCtorEq]
        rw [unpadded]
      have h := hplain 0 n
      rw [List.replicate_zero, List.nil_append, ← htext] at h
      rw [h, if_neg fun h => hz h.2]
  · rw [if_neg fun h : _ ∧ _ => hl h.1]
    by_cases hz : zeroFill mods = true
    · have htext : fieldText mods ch v = signText v ++ (prefixText mods ch ++
          (List.replicate n (ascii '0') ++ digitsText ch v)) := by
        simp only [fieldText, hn, hl, hz, if_true, if_false, reduceCtorEq]
      have hzeros : numVal (baseOf ch).toNat (List.replicate n (ascii '0') ++ digitsText ch v) =
          some v.natAbs := by
        have h := numVal_zeros_append (n := n) (s := digitsText ch v)
          (by omega : 0 < (baseOf ch).toNat)
        rw [hval] at h
        exact h
      have h := readNumber_padded mods (List.append_ne_nil_of_right_ne_nil _ hne) hzeros
        v 0 0
      rw [sign_natAbs, List.replicate_zero, List.nil_append, List.append_nil, ← htext] at h
      exact h
    · have htext : fieldText mods ch v = List.replicate n (ascii ' ') ++
          (signText v ++ (prefixText mods ch ++ digitsText ch v)) := by
        simp only [fieldText, hn, hl, hz, if_false, reduceCtorEq]
        rw [unpadded]
      have h := hplain n 0
      rw [List.replicate_zero, List.append_nil, ← htext] at h
      exact h

/-- A field is as long as it should be, and it stands for its argument unless zeros were put behind
the digits of a number that is not zero. -/
theorem field_denotes_iff {pf : PF (List UInt8)} (hpf : pfEndfield pf = pf) {ch : UInt8} {a : Arg}
    {ap : List Arg} {v : ℤ} (hap : pf.ap = a :: ap) (hmods : ∀ c ∈ mods, c ∈ modifierChars)
    (hw : width mods < 2 ^ 31) (hch : ch ∈ integerTypes)
    (hv : argValue (fieldSize mods) ch a = some v) :
    (∃ out, sendAll collect pf (ascii '%' :: (mods ++ [ch])) =
        .ok ({ pf with ap := ap }.emit out) ∧
      out.length = max (width mods) (unpadded mods ch v).length ∧
      readNumber (baseOf ch) (trimSpaces out) = some v) ↔
    ¬ (leftAlign mods = true ∧ zeroFill mods = true ∧
      (unpadded mods ch v).length < width mods ∧ v ≠ 0) := by
  have hrun := sendAll_field pf hpf hap hmods hw hch hv
  have hread := readNumber_fieldText mods ch v
  have hb1 := (base_bounds (baseOf_mem ch)).1
  constructor
  · rintro ⟨out, hout, -, hval⟩ ⟨hl, hz, hlt, hv0⟩
    have hclient := congrArg PF.clientdata (Except.ok.inj (hrun.symm.trans hout))
    have htext : fieldText mods ch v = out := List.append_cancel_left hclient
    rw [htext, hval, if_pos ⟨hl, hz⟩, Option.some_inj] at hread
    have hpow : (1 : ℤ) < ((baseOf ch).toNat : ℤ) ^ (width mods - (unpadded mods ch v).length) := by
      exact one_lt_pow₀ (by omega) (by omega)
    have hone := (mul_eq_left₀ hv0).mp hread.symm
    omega
  · intro hgood
    refine ⟨fieldText mods ch v, hrun, length_fieldText ch v, ?_⟩
    rw [hread]
    split
    · next h =>
      by_cases hv0 : v = 0
      · rw [hv0, Int.zero_mul]
      · have hn : width mods - (unpadded mods ch v).length = 0 := by
          by_contra hn
          exact hgood ⟨h.1, h.2, by omega, hv0⟩
        rw [hn, pow_zero, Int.mul_one]
    · rfl

theorem field_denotes_five :
    (∃ out, sendAll collect (PF.init [] [.word 42]) (ascii '%' ::
        ([ascii '0', ascii '5'] ++ [ascii 'd'])) = .ok ((PF.init [] []).emit out) ∧
      out.length = max (width [ascii '0', ascii '5'])
        (unpadded [ascii '0', ascii '5'] (ascii 'd') 42).length ∧
      readNumber (baseOf (ascii 'd')) (trimSpaces out) = some 42) ↔
    ¬ (leftAlign [ascii '0', ascii '5'] = true ∧ zeroFill [ascii '0', ascii '5'] = true ∧
      (unpadded [ascii '0', ascii '5'] (ascii 'd') 42).length < width [ascii '0', ascii '5'] ∧
      (42 : ℤ) ≠ 0) :=
  have hpf : pfEndfield (PF.init [] [.word 42]) = PF.init [] [.word 42] := rfl
  field_denotes_iff hpf rfl (by simp [modifierChars]) (by decide +kernel) (by decide) rfl

/-- `"%-05d"` prints 42000 for 42. -/
theorem not_field_denotes :
    ¬ ∃ out, sendAll collect (PF.init [] [.word 42]) (ascii '%' ::
        ([ascii '-', ascii '0', ascii '5'] ++ [ascii 'd'])) = .ok ((PF.init [] []).emit out) ∧
      out.length = max (width [ascii '-', ascii '0', ascii '5'])
        (unpadded [ascii '-', ascii '0', ascii '5'] (ascii 'd') 42).length ∧
      readNumber (baseOf (ascii 'd')) (trimSpaces out) = some 42 := by
  rintro ⟨out, hout, -, hval⟩
  have hrun : sendAll collect (PF.init [] [.word 42]) (ascii '%' ::
      ([ascii '-', ascii '0', ascii '5'] ++ [ascii 'd'])) =
      .ok ((PF.init [] []).emit [52, 50, 48, 48, 48]) := rfl
  have hclient := congrArg PF.clientdata (Except.ok.inj (hrun.symm.trans hout))
  have htext : [52, 50, 48, 48, 48] = out := hclient
  rw [← htext] at hval
  exact absurd hval (by decide)

end Printf

end Os161
