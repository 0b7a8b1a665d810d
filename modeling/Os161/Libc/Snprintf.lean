import Os161.Libc.Printf

/-!
# Printing into a buffer

`common/libc/printf/snprintf.c`. `vsnprintf` runs the machine of `Libc/Printf` with a send function
that stores characters while there is room, and puts a `NUL` behind what it stored. The room is one
less than the length given, so that the `NUL` fits; with a length of zero nothing is stored.

The state of that client is a function of the text sent so far, so where the machine cuts its output
into pieces does not matter.

## Main results

* `Printf.vsnprintf_eq` — the buffer and the result, from the text
* `Printf.vsnprintf_spec`
-/

namespace Os161

namespace Printf

/-- `SNP`. -/
structure SNP where
  buf : ℕ → UInt8
  buflen : ℕ
  bufpos : ℕ

/-- The body of the loop of `__snprintf_send`. -/
def snprintfPut (snp : SNP) (c : UInt8) : SNP :=
  if snp.bufpos < snp.buflen then
    { snp with buf := Function.update snp.buf snp.bufpos c, bufpos := snp.bufpos + 1 }
  else snp

/-- `__snprintf_send`. -/
def snprintfSend (snp : SNP) (data : List UInt8) : SNP := data.foldl snprintfPut snp

/-- `vsnprintf`: memory from `buf` on afterwards, and the result. -/
def vsnprintf (buf : ℕ → UInt8) (len : ℕ) (fmt : List UInt8) (ap : List Arg) :
    Except Stop ((ℕ → UInt8) × Int32) := do
  let (snp, chars) ← vprintf snprintfSend ⟨buf, if len = 0 then 0 else len - 1, 0⟩ fmt ap
  let buf := if 0 < len then Function.update snp.buf snp.bufpos 0 else snp.buf
  .ok (buf, chars)

/-- `snprintf`. -/
def snprintf (buf : ℕ → UInt8) (len : ℕ) (fmt : List UInt8) (ap : List Arg) :
    Except Stop ((ℕ → UInt8) × Int32) := vsnprintf buf len fmt ap

/-! ### The state of the client -/

variable {buf : ℕ → UInt8} {len : ℕ} {out : List UInt8}

/-- A text stored from the start of a buffer on. -/
def store (buf : ℕ → UInt8) (s : List UInt8) : ℕ → UInt8 := fun i => (s[i]?).getD (buf i)

theorem store_append (s : List UInt8) (c : UInt8) :
    store buf (s ++ [c]) = Function.update (store buf s) s.length c := by
  funext i
  by_cases hi : i = s.length
  · rw [hi, Function.update_self, store, List.getElem?_concat_length, Option.getD_some]
  · rw [Function.update_of_ne hi, store, store]
    by_cases hlt : i < s.length
    · rw [List.getElem?_append_left hlt]
    · rw [List.getElem?_eq_none (by rw [List.length_append, List.length_singleton]; omega),
        List.getElem?_eq_none (by omega)]

theorem store_nil : store buf [] = buf := rfl

theorem store_get {s : List UInt8} {i : ℕ} (hi : i < s.length) : some (store buf s i) = s[i]? := by
  rw [store, List.getElem?_eq_getElem hi, Option.getD_some]

theorem store_of_le {s : List UInt8} {i : ℕ} (hi : s.length ≤ i) : store buf s i = buf i := by
  rw [store, List.getElem?_eq_none hi, Option.getD_none]

/-- The client after the text `out`. -/
def snpOf (buf : ℕ → UInt8) (buflen : ℕ) (out : List UInt8) : SNP where
  buf := store buf (out.take buflen)
  buflen := buflen
  bufpos := min buflen out.length

theorem snprintfPut_snpOf (c : UInt8) :
    snprintfPut (snpOf buf len out) c = snpOf buf len (out ++ [c]) := by
  by_cases hlt : out.length < len
  · have hall : (out ++ [c]).take len = out ++ [c] :=
      List.take_of_length_le (by rw [List.length_append, List.length_singleton]; omega)
    rw [snprintfPut, if_pos (by simp only [snpOf]; omega)]
    simp only [snpOf]
    rw [hall, List.take_of_length_le (Nat.le_of_lt hlt), store_append,
      Nat.min_eq_right (Nat.le_of_lt hlt), List.length_append, List.length_singleton,
      Nat.min_eq_right hlt]
  · rw [snprintfPut, if_neg (by simp only [snpOf]; omega)]
    simp only [snpOf]
    rw [List.take_append_of_le_length (Nat.le_of_not_lt hlt), List.length_append,
      List.length_singleton, Nat.min_eq_left (Nat.le_of_not_lt hlt), Nat.min_eq_left (by omega)]

theorem snprintfSend_snpOf (out txt : List UInt8) :
    snprintfSend (snpOf buf len out) txt = snpOf buf len (collect out txt) := by
  induction txt generalizing out with
  | nil => rw [collect, List.append_nil]; rfl
  | cons c txt ih =>
    rw [snprintfSend, List.foldl_cons, snprintfPut_snpOf, ← snprintfSend, ih, collect, collect,
      List.append_assoc, List.singleton_append]

/-! ### The whole run -/

theorem vsnprintf_eq {fmt : List UInt8} {ap : List Arg} {n : Int32} (buf : ℕ → UInt8) (len : ℕ)
    (hrun : vprintf collect [] fmt ap = .ok (out, n)) :
    vsnprintf buf len fmt ap =
      .ok (if 0 < len then store buf (out.take (len - 1) ++ [0]) else buf, n) := by
  have hroom : (if len = 0 then 0 else len - 1) = len - 1 := by split <;> omega
  have hinit : (⟨buf, len - 1, 0⟩ : SNP) = snpOf buf (len - 1) [] := by
    simp [snpOf, store_nil]
  have hmap := vprintf_map (h := snpOf buf (len - 1)) snprintfSend_snpOf [] fmt ap
  rw [hrun] at hmap
  rw [vsnprintf, hroom, hinit, hmap]
  change Except.ok (if 0 < len then Function.update (store buf _) (min (len - 1) out.length) 0
    else store buf _, n) = _
  split
  · rw [store_append, List.length_take]
  · have hz : len - 1 = 0 := by omega
    rw [hz, List.take_zero]
    rfl

theorem toInt_vprintf {fmt : List UInt8} {ap : List Arg} {n : Int32}
    (hrun : vprintf collect [] fmt ap = .ok (out, n)) (hlen : out.length < 2 ^ 31) :
    n.toInt = out.length := by
  rw [vprintf_result hrun]
  exact Int32.toInt_ofNat_of_lt hlen

theorem map_store_range (s : List UInt8) :
    (List.range s.length).map (store buf s) = s := by
  refine List.ext_getElem (by rw [List.length_map, List.length_range]) fun i h1 h2 => ?_
  rw [List.getElem_map, List.getElem_range, ← Option.some_inj, store_get h2,
    List.getElem?_eq_getElem h2]

/-- The string that was stored with its `NUL`. -/
theorem strz_store_nul {s : List UInt8} (hlen : s.length < len) (hz : (0 : UInt8) ∉ s) :
    strz ((List.range len).map (store buf (s ++ [0]))) = s := by
  have hsplit : len = (s ++ [(0 : UInt8)]).length + (len - s.length - 1) := by
    rw [List.length_append, List.length_singleton]
    omega
  conv_lhs => rw [hsplit]
  rw [List.range_add, List.map_append, map_store_range, List.append_assoc, List.singleton_append]
  exact strz_append_zero hz _

/-- Storing a second text behind the first. -/
theorem store_behind (buf : ℕ → UInt8) (s t : List UInt8) :
    (fun i => if i < s.length then store buf s i
      else store (fun j => store buf s (s.length + j)) t (i - s.length)) = store buf (s ++ t) := by
  funext i
  by_cases hi : i < s.length
  · rw [if_pos hi, store, store, List.getElem?_append_left hi]
  · rw [if_neg hi]
    by_cases hit : i - s.length < t.length
    · have hright : store buf (s ++ t) i = ((s ++ t)[i]?).getD (buf i) := rfl
      rw [hright, List.getElem?_append_right (Nat.le_of_not_lt hi), store,
        List.getElem?_eq_getElem hit]
      rfl
    · rw [store_of_le (Nat.le_of_not_lt hit), Nat.add_sub_cancel' (Nat.le_of_not_lt hi),
        store_of_le (Nat.le_of_not_lt hi), store_of_le (by rw [List.length_append]; omega)]

/-- `vsnprintf` returns the length of the whole text and stores as much of it as fits. -/
theorem vsnprintf_spec {fmt : List UInt8} {ap : List Arg} {n : Int32} (buf : ℕ → UInt8) (len : ℕ)
    (hrun : vprintf collect [] fmt ap = .ok (out, n)) (hlen : out.length < 2 ^ 31) :
    ∃ buf' r, vsnprintf buf len fmt ap = .ok (buf', r) ∧ r.toInt = out.length ∧
      (0 < len → (∀ i < min out.length (len - 1), some (buf' i) = out[i]?) ∧
        buf' (min out.length (len - 1)) = 0 ∧
        ∀ i, min out.length (len - 1) < i → buf' i = buf i) ∧
      (len = 0 → buf' = buf) ∧
      ∀ i, len ≤ i → buf' i = buf i := by
  have hcut : (out.take (len - 1)).length = min out.length (len - 1) := by
    rw [List.length_take, Nat.min_comm]
  have hnul : (out.take (len - 1) ++ [0]).length = min out.length (len - 1) + 1 := by
    rw [List.length_append, hcut, List.length_singleton]
  refine ⟨_, n, vsnprintf_eq buf len hrun, ?_, fun hpos => ?_, fun hzero => ?_, fun i hi => ?_⟩
  · exact toInt_vprintf hrun hlen
  · rw [if_pos hpos]
    refine ⟨fun i hi => ?_, ?_, fun i hi => store_of_le (by omega)⟩
    · rw [store_get (by omega), List.getElem?_append_left (by omega),
        List.getElem?_take_of_lt (by omega)]
    · rw [store_append, hcut, Function.update_self]
  · rw [if_neg (by omega)]
  · split
    · exact store_of_le (by omega)
    · rfl

/-- `snprintf(buf, 3, "a%d", 42)`. -/
theorem vsnprintf_spec_cut :
    ∃ buf' r, vsnprintf (fun _ => 1) 3 [97, 37, 100] [.word 42] = .ok (buf', r) ∧
      r.toInt = ([97, 52, 50] : List UInt8).length ∧
      (0 < 3 → (∀ i < min ([97, 52, 50] : List UInt8).length (3 - 1),
          some (buf' i) = ([97, 52, 50] : List UInt8)[i]?) ∧
        buf' (min ([97, 52, 50] : List UInt8).length (3 - 1)) = 0 ∧
        ∀ i, min ([97, 52, 50] : List UInt8).length (3 - 1) < i → buf' i = 1) ∧
      (3 = 0 → buf' = fun _ => 1) ∧
      ∀ i, 3 ≤ i → buf' i = 1 :=
  have hrun : vprintf collect [] [97, 37, 100] [.word 42] = .ok ([97, 52, 50], 3) := rfl
  vsnprintf_spec (fun _ => 1) 3 hrun (by decide)

end Printf

end Os161
