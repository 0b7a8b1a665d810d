import Os161.Lib.CString
import Os161.Lib.Numeral
import Mathlib.Tactic.Ring

/-!
# The guts of printf

`common/libc/printf/__printf.c`. `__vprintf` feeds the characters of the format to a state machine.
Outside of a `%`-field they are sent on as they are. Inside a field the modifiers set its flags and
its width, and the type character fetches an argument, converts it, pads it, and ends the field.

Output goes to a send function with data of its own. Whatever the send function is, what it gets is
what a send function that only collects gets: any client whose state is a function of the text sent
so far behaves as that function of the text.

The machine is 32 bits: an `int`, a `long`, a `size_t` and a pointer are words, a `long long` is
two. A format that asks for an argument that is not there stops the run, and so does a width or a
length that an `int` does not hold.

## Main results

* `Printf.vprintf_map` — the text is the same for every client
* `Printf.vprintf_result` — the count returned is the length of the text
* `Printf.printDigits_eq` — the digits of a number, and that the buffer is large enough
-/

namespace Os161

namespace Printf

/-- A character of a format. -/
def ascii (c : Char) : UInt8 := UInt8.ofNat c.toNat

/-- An argument, as `va_arg` finds it. -/
inductive Arg where
  /-- An `int`, `long`, `size_t` or pointer. -/
  | word (w : UInt32)
  /-- A `long long`. -/
  | dword (d : UInt64)
  /-- A string, by what is in memory from there on, or `NULL`. -/
  | str (s : Option (List UInt8))

/-- The size of the integer argument to retrieve. -/
inductive Size where
  | intsz
  | longsz
  | llongsz
  | sizetsz
  deriving DecidableEq

/-- What keeps a run from returning. -/
inductive Stop where
  /-- The arguments do not match the format. -/
  | mismatch
  /-- A width or a length is too large for an `int`. -/
  | overflow
  /-- A failed `assert`. -/
  | assertion
  /-- A write in front of the buffer of the digits. -/
  | overrun
  deriving DecidableEq

/-- `PF`, without the send function. -/
structure PF (σ : Type) where
  clientdata : σ
  ap : List Arg
  charcount : UInt32
  inPct : Bool
  size : Size
  num : UInt64
  sign : Bool
  spacing : ℕ
  rightspc : Bool
  fillchar : UInt8
  base : UInt64
  basePrefix : Bool
  altformat : Bool

variable {σ τ : Type}

section Source

variable (send : σ → List UInt8 → σ)

/-- `__pf_print`. -/
def pfPrint (pf : PF σ) (txt : List UInt8) : PF σ :=
  { pf with
    clientdata := send pf.clientdata txt
    charcount := pf.charcount + UInt32.ofNat txt.length }

/-- `__pf_endfield`. -/
def pfEndfield (pf : PF σ) : PF σ :=
  { pf with
    inPct := false
    size := .intsz
    num := 0
    sign := false
    spacing := 0
    rightspc := false
    fillchar := ascii ' '
    base := 0
    basePrefix := false
    altformat := false }

/-- Setting `pf->spacing`, an `int`. -/
def setSpacing (pf : PF σ) (w : ℕ) : Except Stop (PF σ) :=
  if w < 2 ^ 31 then .ok { pf with spacing := w } else .error .overflow

/-- `__pf_modifier`. -/
def pfModifier (pf : PF σ) (ch : UInt8) : Except Stop (PF σ) :=
  if ch = ascii '#' then .ok { pf with altformat := true }
  else if ch = ascii '-' then .ok { pf with rightspc := true }
  else if ch = ascii 'l' then
    .ok { pf with size := if pf.size = .longsz then .llongsz else .longsz }
  else if ch = ascii 'z' then .ok { pf with size := .sizetsz }
  else if ch = ascii '0' then
    if 0 < pf.spacing then setSpacing pf (pf.spacing * 10)
    else .ok { pf with fillchar := ascii '0' }
  else if ascii '0' < ch ∧ ch ≤ ascii '9' then
    setSpacing pf (pf.spacing * 10 + (ch - ascii '0').toNat)
  else .error .assertion

/-- `va_arg` of an `int`, `long`, `size_t` or pointer. -/
def vaWord : List Arg → Except Stop (UInt32 × List Arg)
  | .word w :: ap => .ok (w, ap)
  | _ => .error .mismatch

/-- `va_arg` of a `long long`. -/
def vaDword : List Arg → Except Stop (UInt64 × List Arg)
  | .dword d :: ap => .ok (d, ap)
  | _ => .error .mismatch

/-- `va_arg` of a `const char *`. -/
def vaStr : List Arg → Except Stop (Option (List UInt8) × List Arg)
  | .str s :: ap => .ok (s, ap)
  | _ => .error .mismatch

/-- `va_arg` of the signed type of that size, as a `long long`. -/
def vaSigned (size : Size) (ap : List Arg) : Except Stop (Int64 × List Arg) :=
  match size with
  | .intsz | .longsz | .sizetsz => do
      let (w, ap) ← vaWord ap
      .ok (w.toInt32.toInt64, ap)
  | .llongsz => do
      let (d, ap) ← vaDword ap
      .ok (d.toInt64, ap)

/-- `va_arg` of the unsigned type of that size, as an `unsigned long long`. -/
def vaUnsigned (size : Size) (ap : List Arg) : Except Stop (UInt64 × List Arg) :=
  match size with
  | .intsz | .longsz | .sizetsz => do
      let (w, ap) ← vaWord ap
      .ok (w.toUInt64, ap)
  | .llongsz => vaDword ap

/-- `__pf_getnum`. -/
def pfGetnum (pf : PF σ) (ch : UInt8) : Except Stop (PF σ) :=
  if ch = ascii 'p' then do
    let (w, ap) ← vaWord pf.ap
    .ok { pf with num := w.toUInt64, ap := ap }
  else if ch = ascii 'd' then do
    let (signednum, ap) ← vaSigned pf.size pf.ap
    if signednum < 0 then .ok { pf with sign := true, num := (-signednum).toUInt64, ap := ap }
    else .ok { pf with num := signednum.toUInt64, ap := ap }
  else do
    let (num, ap) ← vaUnsigned pf.size pf.ap
    .ok { pf with num := num, ap := ap }

/-- `__pf_setbase`. -/
def pfSetbase (pf : PF σ) (ch : UInt8) : PF σ :=
  let pf :=
    if ch = ascii 'd' ∨ ch = ascii 'u' then { pf with base := 10 }
    else if ch = ascii 'x' ∨ ch = ascii 'p' then { pf with base := 16 }
    else if ch = ascii 'o' then { pf with base := 8 }
    else pf
  if pf.altformat ∨ ch = ascii 'p' then { pf with basePrefix := true } else pf

/-- `__pf_fill`. -/
def pfFill (pf : PF σ) : ℕ → PF σ
  | 0 => pf
  | spc + 1 => pfFill (pfPrint send pf [pf.fillchar]) spc

/-- `__pf_printstuff`. -/
def pfPrintstuff (pf : PF σ) (pre pre2 stuff : List UInt8) : Except Stop (PF σ) :=
  let len := pre.length + pre2.length + stuff.length
  if 2 ^ 31 ≤ len then .error .overflow
  else
    let spc := if len < pf.spacing then pf.spacing - len else 0
    let pf := if 0 < spc ∧ pf.rightspc = false ∧ pf.fillchar ≠ ascii '0' then pfFill send pf spc
      else pf
    let pf := pfPrint send pf pre
    let pf := pfPrint send pf pre2
    let pf := if 0 < spc ∧ pf.rightspc = false ∧ pf.fillchar = ascii '0' then pfFill send pf spc
      else pf
    let pf := pfPrint send pf stuff
    .ok (if 0 < spc ∧ pf.rightspc = true then pfFill send pf spc else pf)

/-- `NUMBER_BUF_SIZE`. -/
def numberBufSize : ℕ := 8 * 8 / 3 + 2

/-- The loop of `__pf_printnum`, with `free` slots of the buffer in front of the text `x`. -/
def printDigits (base : UInt64) : ℕ → UInt64 → List UInt8 → Except Stop (List UInt8)
  | 0, _, _ => .error .overrun
  | free + 1, xnum, x =>
      let x := digitChar (xnum % base).toNat :: x
      let xnum := xnum / base
      if 0 < xnum then printDigits base free xnum x else .ok x

/-- `__pf_printnum`. -/
def pfPrintnum (pf : PF σ) : Except Stop (PF σ) := do
  -- the last slot holds the `NUL`
  let x ← printDigits pf.base (numberBufSize - 1) pf.num []
  let bprefix :=
    if pf.basePrefix = true ∧ pf.base = 16 then [ascii '0', ascii 'x']
    else if pf.basePrefix = true ∧ pf.base = 8 then [ascii '0']
    else []
  let sprefix := if pf.sign then [ascii '-'] else []
  pfPrintstuff send pf sprefix bprefix x

/-- The modifier characters. -/
def modifierChars : List UInt8 :=
  ['#', '-', 'l', 'z', '0', '1', '2', '3', '4', '5', '6', '7', '8', '9'].map ascii

/-- The integer types. -/
def integerTypes : List UInt8 := ['d', 'o', 'u', 'p', 'x'].map ascii

/-- `"(null)"`. -/
def nullText : List UInt8 := ['(', 'n', 'u', 'l', 'l', ')'].map ascii

/-- `__pf_send`. -/
def pfSend (pf : PF σ) (ch : UInt8) : Except Stop (PF σ) :=
  if ch = 0 then .error .assertion
  else if pf.inPct = false ∧ ch ≠ ascii '%' then .ok (pfPrint send pf [ch])
  else if pf.inPct = false then .ok { pf with inPct := true }
  else if ch ∈ modifierChars then pfModifier pf ch
  else if ch ∈ integerTypes then do
    let pf ← pfGetnum pf ch
    let pf ← pfPrintnum send (pfSetbase pf ch)
    .ok (pfEndfield pf)
  else if ch = ascii 's' then do
    let (str, ap) ← vaStr pf.ap
    let pf ← pfPrintstuff send { pf with ap := ap } [] [] (strz (str.getD nullText))
    .ok (pfEndfield pf)
  else if ch = ascii 'c' then do
    let (w, ap) ← vaWord pf.ap
    let pf ← pfPrintstuff send { pf with ap := ap } [] [] (strz [w.toUInt8])
    .ok (pfEndfield pf)
  else do
    let pf ← pfPrintstuff send pf [] [] [ch]
    .ok (pfEndfield pf)

/-- The loop of `__vprintf`. -/
def sendAll (pf : PF σ) : List UInt8 → Except Stop (PF σ)
  | [] => .ok pf
  | ch :: format => if ch = 0 then .ok pf else do sendAll (← pfSend send pf ch) format

/-- The state `__vprintf` starts from. -/
def PF.init (clientdata : σ) (ap : List Arg) : PF σ where
  clientdata := clientdata
  ap := ap
  charcount := 0
  inPct := false
  size := .intsz
  num := 0
  sign := false
  spacing := 0
  rightspc := false
  fillchar := ascii ' '
  base := 0
  basePrefix := false
  altformat := false

/-- `__vprintf`: the client's data at the end, and the count returned. -/
def vprintf (clientdata : σ) (format : List UInt8) (ap : List Arg) : Except Stop (σ × Int32) := do
  let pf ← sendAll send (PF.init clientdata ap) format
  .ok (pf.clientdata, pf.charcount.toInt32)

end Source

/-! ### The digits -/

/-- The loop puts the numeral in front of the text, if there is room for it. -/
theorem printDigits_eq {base : UInt64} (hb : 1 < base.toNat) {free : ℕ} (hfree : 0 < free)
    {xnum : UInt64} (hroom : xnum.toNat < base.toNat ^ free) (x : List UInt8) :
    printDigits base free xnum x = .ok (numeral base.toNat xnum.toNat ++ x) := by
  induction free generalizing xnum x with
  | zero => omega
  | succ free ih =>
    rw [printDigits]
    simp only [UInt64.lt_iff_toNat_lt, UInt64.toNat_mod, UInt64.toNat_div, UInt64.toNat_zero]
    by_cases hlt : xnum.toNat < base.toNat
    · rw [Nat.div_eq_of_lt hlt, if_neg (Nat.lt_irrefl 0), Nat.mod_eq_of_lt hlt, numeral_of_lt hlt,
        List.singleton_append]
    · have hge : base.toNat ≤ xnum.toNat := Nat.le_of_not_lt hlt
      have hfree : 0 < free := by
        by_contra h0
        rw [show free = 0 by omega, Nat.zero_add, pow_one] at hroom
        exact hlt hroom
      have hroom : (xnum / base).toNat < base.toNat ^ free := by
        rw [UInt64.toNat_div]
        exact Nat.div_lt_of_lt_mul (by rwa [← pow_succ'])
      rw [if_pos (Nat.div_pos hge (by omega)), ih hfree hroom, numeral_step hb hge,
        UInt64.toNat_div, List.append_assoc, List.singleton_append]

/-- The bases the integer types are printed in. -/
def bases : List UInt64 := [8, 10, 16]

theorem base_bounds {base : UInt64} (hb : base ∈ bases) :
    1 < base.toNat ∧ base.toNat ≤ 16 ∧ 2 ^ 64 ≤ base.toNat ^ (numberBufSize - 1) := by
  have h : ∀ b ∈ bases, 1 < b.toNat ∧ b.toNat ≤ 16 ∧
      2 ^ 64 ≤ b.toNat ^ (numberBufSize - 1) := by
    simp [bases, numberBufSize]
  exact h base hb

/-- Any number fits the buffer in any of the bases. -/
theorem printDigits_buf {base : UInt64} (hb : base ∈ bases) (num : UInt64) :
    printDigits base (numberBufSize - 1) num [] = .ok (numeral base.toNat num.toNat) := by
  obtain ⟨h1, -, hroom⟩ := base_bounds hb
  rw [printDigits_eq h1 (by decide) (Nat.lt_of_lt_of_le num.toNat_lt hroom), List.append_nil]

/-- The base of an integer type. -/
def baseOf (ch : UInt8) : UInt64 :=
  if ch = ascii 'o' then 8 else if ch = ascii 'x' ∨ ch = ascii 'p' then 16 else 10

theorem baseOf_mem (ch : UInt8) : baseOf ch ∈ bases := by
  rw [baseOf]
  split
  · decide
  · split <;> decide

theorem pfSetbase_eq (pf : PF σ) {ch : UInt8} (hch : ch ∈ integerTypes) :
    pfSetbase pf ch = { pf with
      base := baseOf ch
      basePrefix := pf.basePrefix || (pf.altformat || decide (ch = ascii 'p')) } := by
  have hset : (if ch = ascii 'd' ∨ ch = ascii 'u' then { pf with base := 10 }
      else if ch = ascii 'x' ∨ ch = ascii 'p' then { pf with base := 16 }
      else if ch = ascii 'o' then { pf with base := 8 } else pf) =
      { pf with base := baseOf ch } := by
    have hbase : ∀ c ∈ integerTypes,
        ((c = ascii 'd' ∨ c = ascii 'u') ∧ baseOf c = 10) ∨
        (¬ (c = ascii 'd' ∨ c = ascii 'u') ∧ (c = ascii 'x' ∨ c = ascii 'p') ∧ baseOf c = 16) ∨
        (¬ (c = ascii 'd' ∨ c = ascii 'u') ∧ ¬ (c = ascii 'x' ∨ c = ascii 'p') ∧
          c = ascii 'o' ∧ baseOf c = 8) := by
      set_option maxRecDepth 2000 in decide
    rcases hbase ch hch with ⟨h1, hb⟩ | ⟨h1, h2, hb⟩ | ⟨h1, h2, h3, hb⟩
    · rw [if_pos h1, hb]
    · rw [if_neg h1, if_pos h2, hb]
    · rw [if_neg h1, if_neg h2, if_pos h3, hb]
  rw [pfSetbase, hset]
  by_cases hp : pf.altformat = true ∨ ch = ascii 'p'
  · have hor : (pf.altformat || decide (ch = ascii 'p')) = true := by simpa using hp
    rw [hor, Bool.or_true]
    exact if_pos hp
  · have hor : (pf.altformat || decide (ch = ascii 'p')) = false := by simpa using hp
    rw [hor, Bool.or_false]
    exact if_neg hp

/-! ### Other clients -/

/-- The machine with other data of the client. -/
def PF.map (h : σ → τ) (pf : PF σ) : PF τ := { pf with clientdata := h pf.clientdata }

section Map

variable {send : σ → List UInt8 → σ} {send' : τ → List UInt8 → τ} {h : σ → τ}

theorem bind_map {ε α β γ δ : Type} {x : Except ε α} {x' : Except ε β} {f : α → β}
    {k : α → Except ε γ} {k' : β → Except ε δ} {g : γ → δ} (hx : x' = x.map f)
    (hk : ∀ a, k' (f a) = (k a).map g) : x' >>= k' = (x >>= k).map g := by
  subst hx
  cases x with
  | error e => rfl
  | ok a => exact hk a

theorem pfPrint_map (hh : ∀ s txt, send' (h s) txt = h (send s txt)) (pf : PF σ)
    (txt : List UInt8) : pfPrint send' (pf.map h) txt = (pfPrint send pf txt).map h := by
  simp only [pfPrint, PF.map, hh]

theorem pfFill_map (hh : ∀ s txt, send' (h s) txt = h (send s txt)) (pf : PF σ) (spc : ℕ) :
    pfFill send' (pf.map h) spc = (pfFill send pf spc).map h := by
  induction spc generalizing pf with
  | zero => rfl
  | succ spc ih =>
    rw [pfFill, pfPrint_map hh, ih]
    rfl

theorem map_ite (c : Prop) [Decidable c] (pf pf' : PF σ) :
    (if c then pf.map h else pf'.map h) = (if c then pf else pf').map h := by
  split <;> rfl

theorem pfPrintstuff_map (hh : ∀ s txt, send' (h s) txt = h (send s txt)) (pf : PF σ)
    (pre pre2 stuff : List UInt8) :
    pfPrintstuff send' (pf.map h) pre pre2 stuff =
      (pfPrintstuff send pf pre pre2 stuff).map (PF.map h) := by
  have keep : ∀ pf : PF σ, (pf.map h).rightspc = pf.rightspc ∧ (pf.map h).fillchar = pf.fillchar ∧
      (pf.map h).spacing = pf.spacing := fun _ => ⟨rfl, rfl, rfl⟩
  rw [pfPrintstuff, pfPrintstuff]
  split
  · rfl
  · simp only [pfFill_map hh, pfPrint_map hh, map_ite, keep, Except.map]

theorem pfPrintnum_map (hh : ∀ s txt, send' (h s) txt = h (send s txt)) (pf : PF σ) :
    pfPrintnum send' (pf.map h) = (pfPrintnum send pf).map (PF.map h) := by
  have keep : printDigits (pf.map h).base (numberBufSize - 1) (pf.map h).num [] =
      printDigits pf.base (numberBufSize - 1) pf.num [] := rfl
  rw [pfPrintnum, pfPrintnum, keep]
  cases printDigits pf.base (numberBufSize - 1) pf.num [] with
  | error e => rfl
  | ok x => exact pfPrintstuff_map hh pf _ _ x

theorem setSpacing_map (pf : PF σ) (w : ℕ) :
    setSpacing (pf.map h) w = (setSpacing pf w).map (PF.map h) := by
  rw [setSpacing, setSpacing]
  split <;> rfl

theorem pfModifier_map (pf : PF σ) (ch : UInt8) :
    pfModifier (pf.map h) ch = (pfModifier pf ch).map (PF.map h) := by
  have keep : (pf.map h).spacing = pf.spacing := rfl
  simp only [pfModifier, keep, setSpacing_map]
  repeat' (split <;> try rfl)

theorem pfGetnum_map (pf : PF σ) (ch : UInt8) :
    pfGetnum (pf.map h) ch = (pfGetnum pf ch).map (PF.map h) := by
  rw [pfGetnum, pfGetnum]
  split
  · cases hv : vaWord pf.ap <;> simp only [PF.map, hv] <;> rfl
  · split
    · cases hv : vaSigned pf.size pf.ap with
      | error e => simp only [PF.map, hv]; rfl
      | ok r =>
        simp only [PF.map, hv]
        change (if r.1 < 0 then _ else _) = Except.map _ (if r.1 < 0 then _ else _)
        split <;> rfl
    · cases hv : vaUnsigned pf.size pf.ap <;> simp only [PF.map, hv] <;> rfl

theorem endfield_map {x : Except Stop (PF σ)} {x' : Except Stop (PF τ)}
    (hx : x' = x.map (PF.map h)) :
    (x' >>= fun pf => .ok (pfEndfield pf)) =
      (x >>= fun pf => .ok (pfEndfield pf)).map (PF.map h) := bind_map hx fun _ => rfl

/-- One character of the format does the same to every client. -/
theorem pfSend_map (hh : ∀ s txt, send' (h s) txt = h (send s txt)) (pf : PF σ) (ch : UInt8) :
    pfSend send' (pf.map h) ch = (pfSend send pf ch).map (PF.map h) := by
  have hpct : (pf.map h).inPct = pf.inPct := rfl
  rw [pfSend, pfSend, hpct]
  split
  · rfl
  · split
    · rw [pfPrint_map hh]
      rfl
    · split
      · rfl
      · split
        · exact pfModifier_map pf ch
        · split
          · refine bind_map (pfGetnum_map pf ch) fun pf => ?_
            have hbase : pfSetbase (pf.map h) ch = (pfSetbase pf ch).map h := by
              simp only [pfSetbase, PF.map]
              repeat' (split <;> try rfl)
            rw [hbase]
            exact endfield_map (pfPrintnum_map hh _)
          · split
            · change vaStr pf.ap >>= _ = _
              cases vaStr pf.ap with
              | error e => rfl
              | ok r =>
                obtain ⟨str, ap⟩ := r
                have hstuff := pfPrintstuff_map hh { pf with ap := ap } [] []
                  (strz (str.getD nullText))
                exact endfield_map hstuff
            · split
              · change vaWord pf.ap >>= _ = _
                cases vaWord pf.ap with
                | error e => rfl
                | ok r =>
                  obtain ⟨w, ap⟩ := r
                  have hstuff := pfPrintstuff_map hh { pf with ap := ap } [] [] (strz [w.toUInt8])
                  exact endfield_map hstuff
              · exact endfield_map (pfPrintstuff_map hh pf _ _ _)

theorem sendAll_map (hh : ∀ s txt, send' (h s) txt = h (send s txt)) (pf : PF σ)
    (format : List UInt8) :
    sendAll send' (pf.map h) format = (sendAll send pf format).map (PF.map h) := by
  induction format generalizing pf with
  | nil => rfl
  | cons ch format ih =>
    rw [sendAll, sendAll]
    split
    · rfl
    · exact bind_map (pfSend_map hh pf ch) ih

/-- What a run does to a client that another one can be computed from. -/
theorem vprintf_map (hh : ∀ s txt, send' (h s) txt = h (send s txt)) (clientdata : σ)
    (format : List UInt8) (ap : List Arg) :
    vprintf send' (h clientdata) format ap =
      (vprintf send clientdata format ap).map (Prod.map h id) := by
  have hinit : PF.init (h clientdata) ap = (PF.init clientdata ap).map h := rfl
  rw [vprintf, vprintf, hinit]
  exact bind_map (sendAll_map hh _ format) fun _ => rfl

end Map

/-! ### Collecting the text -/

/-- The send function that collects the text. -/
def collect (s txt : List UInt8) : List UInt8 := s ++ txt

/-- The machine after more text, for the client that collects it. -/
def PF.emit (pf : PF (List UInt8)) (txt : List UInt8) : PF (List UInt8) :=
  { pf with
    clientdata := pf.clientdata ++ txt
    charcount := pf.charcount + UInt32.ofNat txt.length }

variable {pf pf' : PF (List UInt8)}

theorem pfPrint_collect (txt : List UInt8) : pfPrint collect pf txt = pf.emit txt := rfl

theorem emit_nil : pf.emit [] = pf := by
  simp [PF.emit]

theorem emit_emit (s t : List UInt8) : (pf.emit s).emit t = pf.emit (s ++ t) := by
  simp only [PF.emit, List.append_assoc, List.length_append, UInt32.ofNat_add, UInt32.add_assoc]

theorem pfFill_collect (spc : ℕ) :
    pfFill collect pf spc = pf.emit (List.replicate spc pf.fillchar) := by
  induction spc generalizing pf with
  | zero => exact emit_nil.symm
  | succ spc ih =>
    have hfill : (pf.emit [pf.fillchar]).fillchar = pf.fillchar := rfl
    rw [pfFill, pfPrint_collect, ih, hfill, emit_emit, List.replicate_succ, List.singleton_append]

/-- The padding in front of the prefixes, between them and the text, and behind the text. -/
def padding (pf : PF σ) (len : ℕ) : List UInt8 × List UInt8 × List UInt8 :=
  let fill := List.replicate (pf.spacing - len) pf.fillchar
  if pf.rightspc = true then ([], [], fill)
  else if pf.fillchar = ascii '0' then ([], fill, [])
  else (fill, [], [])

/-- What `__pf_printstuff` prints. -/
def padded (pf : PF σ) (pre pre2 stuff : List UInt8) : List UInt8 :=
  let (lead, mid, trail) := padding pf (pre.length + pre2.length + stuff.length)
  lead ++ (pre ++ (pre2 ++ (mid ++ (stuff ++ trail))))

theorem pfPrintstuff_collect {pre pre2 stuff : List UInt8}
    (hlen : pre.length + pre2.length + stuff.length < 2 ^ 31) :
    pfPrintstuff collect pf pre pre2 stuff = .ok (pf.emit (padded pf pre pre2 stuff)) := by
  have keep : ∀ (pf : PF (List UInt8)) txt, (pf.emit txt).rightspc = pf.rightspc ∧
      (pf.emit txt).fillchar = pf.fillchar := fun _ _ => ⟨rfl, rfl⟩
  rw [pfPrintstuff, if_neg (Nat.not_le_of_lt hlen), padded, padding]
  generalize pre.length + pre2.length + stuff.length = len
  have hspc : (if len < pf.spacing then pf.spacing - len else 0) = pf.spacing - len := by
    split <;> omega
  simp only [hspc, pfPrint_collect, pfFill_collect]
  by_cases h0 : 0 < pf.spacing - len
  · cases hr : pf.rightspc with
    | true => simp only [keep, hr, h0, emit_emit, reduceCtorEq, false_and, and_false, and_true,
        if_true, if_false, List.nil_append, List.append_assoc]
    | false =>
      by_cases hf : pf.fillchar = ascii '0'
      · simp only [keep, hr, hf, h0, emit_emit, ne_eq, not_true, and_false, and_true, if_true,
          if_false, List.nil_append, List.append_nil, List.append_assoc, reduceCtorEq]
      · simp only [keep, hr, hf, h0, emit_emit, ne_eq, not_false_eq_true, and_false, and_true,
          if_true, if_false, List.nil_append, List.append_nil, List.append_assoc, reduceCtorEq]
  · have hz : pf.spacing - len = 0 := by omega
    simp only [hz, Nat.lt_irrefl, false_and, if_false, emit_emit, List.replicate_zero, ite_self,
      List.nil_append, List.append_nil, List.append_assoc]

theorem padded_of_spacing_zero {pf : PF σ} (h0 : pf.spacing = 0) (pre pre2 stuff : List UInt8) :
    padded pf pre pre2 stuff = pre ++ (pre2 ++ stuff) := by
  have hpad : ∀ len, padding pf len = ([], [], []) := by
    intro len
    rw [padding, h0, Nat.zero_sub, List.replicate_zero]
    simp only [ite_self]
  simp only [padded, hpad, List.nil_append, List.append_nil]

/-- A string that is asked for and there. -/
theorem pfSend_str (pf : PF (List UInt8)) (hpct : pf.inPct = true) {s : List UInt8} {ap : List Arg}
    (hap : pf.ap = .str (some s) :: ap) (hlen : (strz s).length < 2 ^ 31) :
    pfSend collect pf (ascii 's') =
      .ok (pfEndfield ({ pf with ap := ap }.emit (padded pf [] [] (strz s)))) := by
  have hfield : ¬ pf.inPct = false := by rw [hpct]; decide
  rw [pfSend, if_neg (by decide), if_neg fun h : _ ∧ _ => hfield h.1, if_neg hfield,
    if_neg (by decide), if_neg (by decide), if_pos rfl, hap]
  have hstuff : pfPrintstuff collect { pf with ap := ap } [] [] (strz s) =
      .ok ({ pf with ap := ap }.emit (padded pf [] [] (strz s))) :=
    pfPrintstuff_collect (by simpa using hlen)
  change (pfPrintstuff collect { pf with ap := ap } [] [] (strz s) >>= fun pf =>
    .ok (pfEndfield pf)) = _
  rw [hstuff]
  rfl

/-- How a step of the machine may end: with more text, counted, or because of the arguments or of a
width or length. -/
def Sends (pf : PF (List UInt8)) : Except Stop (PF (List UInt8)) → Prop
  | .ok pf' => ∃ txt, pf'.clientdata = pf.clientdata ++ txt ∧
      pf'.charcount = pf.charcount + UInt32.ofNat txt.length
  | .error e => e = .mismatch ∨ e = .overflow

theorem sends_emit (txt : List UInt8) : Sends pf (.ok (pf.emit txt)) := ⟨txt, rfl, rfl⟩

/-- A step that leaves the text alone. -/
theorem sends_same (hc : pf'.clientdata = pf.clientdata) (hn : pf'.charcount = pf.charcount) :
    Sends pf (.ok pf') := ⟨[], by simp [hc], by simp [hn]⟩

theorem sends_bind {x : Except Stop (PF (List UInt8))}
    {k : PF (List UInt8) → Except Stop (PF (List UInt8))} (hx : Sends pf x)
    (hk : ∀ pf', Sends pf' (k pf')) : Sends pf (x >>= k) := by
  cases x with
  | error e => exact hx
  | ok pf' =>
    obtain ⟨s, hc, hn⟩ := hx
    have hk := hk pf'
    change Sends pf (k pf')
    cases hkx : k pf' with
    | error e => rwa [hkx] at hk
    | ok pf'' =>
      rw [hkx] at hk
      obtain ⟨t, hc', hn'⟩ := hk
      refine ⟨s ++ t, by rw [hc', hc, List.append_assoc], ?_⟩
      rw [hn', hn, List.length_append, UInt32.ofNat_add, UInt32.add_assoc]

theorem sends_endfield {x : Except Stop (PF (List UInt8))} (hx : Sends pf x) :
    Sends pf (x >>= fun pf => .ok (pfEndfield pf)) :=
  sends_bind hx fun _ => sends_same rfl rfl

/-- A step that starts by fetching an argument. -/
theorem sends_arg {α : Type} {x : Except Stop (α × List Arg)}
    {k : α × List Arg → Except Stop (PF (List UInt8))} (hx : ∀ e, x = .error e → e = .mismatch)
    (hk : ∀ r, Sends pf (k r)) : Sends pf (x >>= k) := by
  cases x with
  | error e => exact .inl (hx e rfl)
  | ok r => exact hk r

theorem vaWord_error {ap : List Arg} {e : Stop} (h : vaWord ap = .error e) : e = .mismatch := by
  unfold vaWord at h
  split at h <;> simp_all

theorem vaStr_error {ap : List Arg} {e : Stop} (h : vaStr ap = .error e) : e = .mismatch := by
  unfold vaStr at h
  split at h <;> simp_all

theorem vaSigned_error {size : Size} {ap : List Arg} {e : Stop}
    (h : vaSigned size ap = .error e) : e = .mismatch := by
  rcases ap with _ | ⟨a, ap⟩
  · cases size <;> exact (Except.error.inj h).symm
  · cases size <;> cases a <;> first | exact (Except.error.inj h).symm | cases h

theorem vaUnsigned_error {size : Size} {ap : List Arg} {e : Stop}
    (h : vaUnsigned size ap = .error e) : e = .mismatch := by
  rcases ap with _ | ⟨a, ap⟩
  · cases size <;> exact (Except.error.inj h).symm
  · cases size <;> cases a <;> first | exact (Except.error.inj h).symm | cases h

theorem sends_pfPrintstuff (pf : PF (List UInt8)) (pre pre2 stuff : List UInt8) :
    Sends pf (pfPrintstuff collect pf pre pre2 stuff) := by
  by_cases hlen : pre.length + pre2.length + stuff.length < 2 ^ 31
  · rw [pfPrintstuff_collect hlen]
    exact sends_emit _
  · rw [pfPrintstuff, if_pos (Nat.le_of_not_lt hlen)]
    exact .inr rfl

theorem sends_pfModifier {ch : UInt8} (hch : ch ∈ modifierChars) :
    Sends pf (pfModifier pf ch) := by
  have hset : ∀ w, Sends pf (setSpacing pf w) := by
    intro w
    rw [setSpacing]
    split
    · exact sends_same rfl rfl
    · exact .inr rfl
  have hdigit : ∀ c ∈ modifierChars, c = ascii '#' ∨ c = ascii '-' ∨ c = ascii 'l' ∨
      c = ascii 'z' ∨ c = ascii '0' ∨ (ascii '0' < c ∧ c ≤ ascii '9') := by
      set_option maxRecDepth 2000 in decide
  unfold pfModifier
  split
  · exact sends_same rfl rfl
  split
  · exact sends_same rfl rfl
  split
  · exact sends_same rfl rfl
  split
  · exact sends_same rfl rfl
  split
  · split
    · exact hset _
    · exact sends_same rfl rfl
  · next h1 h2 h3 h4 h5 =>
    have hrange : ascii '0' < ch ∧ ch ≤ ascii '9' :=
      (((((hdigit ch hch).resolve_left h1).resolve_left h2).resolve_left h3).resolve_left
        h4).resolve_left h5
    rw [if_pos hrange]
    exact hset _

theorem sends_pfGetnum (ch : UInt8) : Sends pf (pfGetnum pf ch) := by
  rw [pfGetnum]
  split
  · exact sends_arg (fun _ => vaWord_error) fun _ => sends_same rfl rfl
  · split
    · refine sends_arg (fun _ => vaSigned_error) fun r => ?_
      change Sends pf (if r.1 < 0 then _ else _)
      split <;> exact sends_same rfl rfl
    · exact sends_arg (fun _ => vaUnsigned_error) fun _ => sends_same rfl rfl

theorem sends_pfPrintnum (pf : PF (List UInt8)) (hb : pf.base ∈ bases) :
    Sends pf (pfPrintnum collect pf) := by
  rw [pfPrintnum, printDigits_buf hb]
  exact sends_pfPrintstuff pf _ _ _

/-- One character of the format: the buffer of the digits is never overrun, and no assertion
fails. -/
theorem sends_pfSend {ch : UInt8} (hch : ch ≠ 0) : Sends pf (pfSend collect pf ch) := by
  unfold pfSend
  split
  · contradiction
  split
  · exact sends_emit _
  split
  · exact sends_same rfl rfl
  split
  · next hmod => exact sends_pfModifier hmod
  split
  · next hint =>
    refine sends_bind (sends_pfGetnum ch) fun pf => ?_
    rw [pfSetbase_eq pf hint]
    refine sends_endfield ?_
    exact sends_pfPrintnum { pf with base := baseOf ch, basePrefix := _ } (baseOf_mem ch)
  split
  · exact sends_arg (fun _ => vaStr_error) fun r =>
      sends_endfield (sends_pfPrintstuff { pf with ap := r.2 } _ _ _)
  split
  · exact sends_arg (fun _ => vaWord_error) fun r =>
      sends_endfield (sends_pfPrintstuff { pf with ap := r.2 } _ _ _)
  · exact sends_endfield (sends_pfPrintstuff pf _ _ _)

theorem sends_sendAll (pf : PF (List UInt8)) (format : List UInt8) :
    Sends pf (sendAll collect pf format) := by
  induction format generalizing pf with
  | nil => exact sends_same rfl rfl
  | cons ch format ih =>
    rw [sendAll]
    split
    · exact sends_same rfl rfl
    · next hch => exact sends_bind (sends_pfSend hch) ih

/-- The count returned is the length of the text, as far as an `int` shows it. -/
theorem vprintf_result {format : List UInt8} {ap : List Arg} {out : List UInt8} {n : Int32}
    (h : vprintf collect [] format ap = .ok (out, n)) :
    n = (UInt32.ofNat out.length).toInt32 := by
  have hs := sends_sendAll (PF.init [] ap) format
  rw [vprintf] at h
  cases hx : sendAll collect (PF.init [] ap) format with
  | error e => rw [hx] at h; cases h
  | ok pf =>
    rw [hx] at h hs
    obtain ⟨txt, hc, hn⟩ := hs
    obtain ⟨rfl, rfl⟩ := Prod.mk.inj (Except.ok.inj h)
    rw [hc, hn]
    simp [PF.init]

/-- A run stops for the arguments, or for a width or length, and for nothing else. -/
theorem vprintf_error {format : List UInt8} {ap : List Arg} {e : Stop}
    (h : vprintf collect [] format ap = .error e) : e = .mismatch ∨ e = .overflow := by
  have hs := sends_sendAll (PF.init [] ap) format
  rw [vprintf] at h
  cases hx : sendAll collect (PF.init [] ap) format with
  | error e' =>
    rw [hx] at h hs
    exact (Except.error.inj h) ▸ hs
  | ok pf => rw [hx] at h; cases h

end Printf

end Os161
