import Os161.Libc.Strtok

/-!
# Going over the words of a string

`for (word = strtok_r(string, seps, &context); word != NULL; word = strtok_r(NULL, seps, &context))`

The body of the loop may write to the word it was given, up to its `NUL`, and that does not matter:
the context is behind the `NUL`, and nothing in front of the context is looked at again. To split
the word into smaller ones, with a context of its own, is to write to it in that way.

## Main definitions

* `Strtok.loop` — the loop, and the words it goes over
* `Strtok.Within` — a body that writes to its word only

## Main results

* `Strtok.loop_words` — the words are those of the string, whatever is done to each
* `Strtok.tokens_congr` — so are the pointers to them
* `Strtok.within_inner` — to go over the words of a word writes to it only
-/

namespace Os161

namespace Strtok

/-- What the loop has gone over. -/
structure Tokens where
  /-- Each pointer that was returned, and what could be read there at the time. -/
  tokens : List (ℕ × List UInt8)
  buf : List UInt8
  context : Option ℕ
  /-- `NULL` was returned. -/
  ended : Bool

/-- The loop, if it is left after so many calls. -/
def loop (seps : List UInt8) (body : List UInt8 → ℕ → List UInt8) :
    ℕ → List UInt8 → Option ℕ → Option ℕ → Tokens
  | 0, buf, _, context => ⟨[], buf, context, false⟩
  | calls + 1, buf, string, context =>
      let r := strtokR buf string seps context
      match r.token with
      | none => ⟨[], r.buf, r.context, true⟩
      | some word =>
          let rest := loop seps body calls (body r.buf word) none r.context
          { rest with tokens := (word, strz (r.buf.drop word)) :: rest.tokens }

/-- A body that does nothing to the buffer. -/
def keep (buf : List UInt8) (_ : ℕ) : List UInt8 := buf

/-- A body that goes over the words of its word, with a context of its own and for so many calls. -/
def inner (seps : List UInt8) (calls : ℕ) (context : Option ℕ) (buf : List UInt8) (word : ℕ) :
    List UInt8 :=
  (loop seps keep calls buf (some word) context).buf

/-- What the body writes is within the string it was given. -/
def Within (body : List UInt8 → ℕ → List UInt8) : Prop :=
  ∀ a w rest, (0 : UInt8) ∉ w → Ends rest →
    ∃ w', w'.length = w.length ∧ body (a ++ (w ++ rest)) a.length = a ++ (w' ++ rest)

variable {seps : List UInt8} {body body' : List UInt8 → ℕ → List UInt8} {calls p : ℕ}
  {pre pre' l rest s t w buf : List UInt8} {string string' context context' : Option ℕ}

theorem within_keep : Within keep :=
  fun _ w _ _ _ => ⟨w, rfl, rfl⟩

/-- **Once `NULL` was returned,** it is returned for ever. -/
theorem strtokR_null (buf seps : List UInt8) : strtokR buf none seps none = ⟨buf, none, none⟩ :=
  rfl

@[simp]
theorem tokens_loop_null : (loop seps body calls buf none none).tokens = [] := by
  cases calls <;> rfl

@[simp]
theorem buf_loop_null : (loop seps body calls buf none none).buf = buf := by
  cases calls <;> rfl

@[simp]
theorem context_loop_null : (loop seps body calls buf none none).context = none := by
  cases calls <;> rfl

theorem ended_loop_null (h : 0 < calls) : (loop seps body calls buf none none).ended = true := by
  cases calls with
  | zero => exact absurd h (Nat.lt_irrefl 0)
  | succ calls => rfl

/-- What is written to a word that was cut off stays in front of the context. -/
theorem StoredIn.write (h : StoredIn t p w) (hb : Within body) (pre s : List UInt8) :
    ∃ t', t'.length = t.length ∧ body (pre ++ (t ++ s)) (pre.length + p) = pre ++ (t' ++ s) := by
  obtain ⟨a, b, rfl, rfl, hz⟩ := h
  obtain ⟨w', hlen, hbody⟩ := hb (pre ++ a) w (0 :: b ++ s) hz (.inr ⟨b ++ s, rfl⟩)
  refine ⟨a ++ (w' ++ 0 :: b), by simp [hlen], ?_⟩
  simpa using hbody

/-! ### The words -/

/-- **The words** are those of the string, whatever is done to each. -/
theorem loop_words (hb : Within body) (hstart : string.or context = some pre.length)
    (hz : (0 : UInt8) ∉ l) (hrest : Ends rest) (hcalls : (words seps l).length < calls) :
    (loop seps body calls (pre ++ (l ++ rest)) string context).tokens.map Prod.snd =
        words seps l ∧
      (loop seps body calls (pre ++ (l ++ rest)) string context).ended = true ∧
      (loop seps body calls (pre ++ (l ++ rest)) string context).context = none := by
  induction calls generalizing pre l string context with
  | zero => exact absurd hcalls (Nat.not_lt_zero _)
  | succ calls ih =>
    have hcall : Call seps pre l rest _ := strtokR_spec hstart hz hrest
    rw [loop]
    generalize strtokR (pre ++ (l ++ rest)) string seps context = r at hcall ⊢
    cases hcall with
    | nothing hw => simp [hw]
    | @last p w hw hread =>
      have hpos : 0 < calls := by simpa [hw] using hcalls
      simp [hw, hread, ended_loop_null hpos]
    | @cut p w t l' hw hstored hz' =>
      obtain ⟨t', hlen, hbody⟩ := hstored.write hb [] (l' ++ rest)
      rw [List.nil_append, List.nil_append, List.length_nil, Nat.zero_add] at hbody
      have hread : strz ((pre ++ t ++ (l' ++ rest)).drop p) = w := hstored.read _
      have hnext : (none : Option ℕ).or (some (pre ++ t).length) = some t'.length := by
        rw [hlen, Option.none_or]
      rw [hw, List.length_cons] at hcalls
      have hih := ih hnext hz' (Nat.lt_of_succ_lt_succ hcalls)
      simp only [hbody, hread, List.map_cons, hw]
      exact ⟨congrArg (w :: ·) hih.1, hih.2⟩

/-! ### The pointers -/

/-- What is in front of the context does not matter, apart from its length. -/
def Result.shift (pre : List UInt8) (r : Result) : Result where
  buf := pre ++ r.buf
  context := r.context.map (pre.length + ·)
  token := r.token.map (pre.length + ·)

theorem deref_append (pre s : List UInt8) (q : ℕ) :
    deref (pre ++ s) (pre.length + q) = deref s q := by
  rw [deref, deref, List.getD_eq_getElem?_getD, List.getD_eq_getElem?_getD,
    List.getElem?_append_right (Nat.le_add_right ..), Nat.add_sub_cancel_left]

theorem drop_length_add (pre s : List UInt8) (q : ℕ) :
    (pre ++ s).drop (pre.length + q) = s.drop q := by
  rw [← List.drop_drop, List.drop_left]

theorem advance_append (cond : UInt8 → Bool) (pre s : List UInt8) (q : ℕ) :
    advance cond (pre ++ s) (pre.length + q) = pre.length + advance cond s q := by
  rw [advance, advance, drop_length_add, Nat.add_assoc]

theorem strtokR_append (pre s : List UInt8) {q : ℕ}
    (hstart : string.or context = some (pre.length + q)) :
    strtokR (pre ++ s) string seps context = (strtokR s (some q) seps none).shift pre := by
  rw [strtokR, strtokR, hstart, Option.some_or]
  simp only [advance_append, deref_append]
  split
  · rfl
  · split
    · rfl
    · simp [Result.shift, Nat.add_assoc]

/-- **The words and the pointers to them** are the same whatever is done to each. -/
theorem tokens_congr (hb : Within body) (hb' : Within body') (hpre : pre.length = pre'.length)
    (hstart : string.or context = some pre.length)
    (hstart' : string'.or context' = some pre'.length) (hz : (0 : UInt8) ∉ l) (hrest : Ends rest) :
    (loop seps body calls (pre ++ (l ++ rest)) string context).tokens =
      (loop seps body' calls (pre' ++ (l ++ rest)) string' context').tokens := by
  induction calls generalizing pre pre' l string string' context context' with
  | zero => rfl
  | succ calls ih =>
    have hcall : Call seps [] l rest (strtokR (l ++ rest) (some 0) seps none) :=
      strtokR_spec rfl hz hrest
    rw [loop, loop, strtokR_append (q := 0) pre _ hstart, strtokR_append (q := 0) pre' _ hstart']
    generalize strtokR (l ++ rest) (some 0) seps none = r at hcall ⊢
    cases hcall with
    | nothing hw => rfl
    | @last p w hw hread =>
      simp only [Result.shift, Option.map_some, Option.map_none, tokens_loop_null, drop_length_add]
      rw [hpre]
    | @cut p w t l' hw hstored hz' =>
      rw [List.nil_append] at hstored ⊢
      obtain ⟨t₁, hlen₁, hbody₁⟩ := hstored.write hb pre (l' ++ rest)
      obtain ⟨t₂, hlen₂, hbody₂⟩ := hstored.write hb' pre' (l' ++ rest)
      rw [← List.append_assoc pre t₁] at hbody₁
      rw [← List.append_assoc pre' t₂] at hbody₂
      have hlen : (pre ++ t₁).length = (pre' ++ t₂).length := by
        rw [List.length_append, List.length_append, hpre, hlen₁, hlen₂]
      simp only [Result.shift, Option.map_some, drop_length_add, hbody₁, hbody₂]
      refine congrArg₂ List.cons (by rw [hpre]) (ih hlen ?_ ?_ hz')
      · rw [Option.none_or, List.length_append, hlen₁]
      · rw [Option.none_or, List.length_append, hlen₂]

/-! ### The words of a word -/

theorem length_strtokR (buf : List UInt8) (string : Option ℕ) (seps : List UInt8)
    (context : Option ℕ) : (strtokR buf string seps context).buf.length = buf.length := by
  unfold strtokR
  split
  · rfl
  · dsimp only
    split
    · rfl
    · split
      · rfl
      · exact List.length_set

/-- To go over the words of a string writes to that string only. -/
theorem loop_keep_within (seps : List UInt8) (calls : ℕ)
    (hstart : string.or context = some pre.length) (hz : (0 : UInt8) ∉ l) (hrest : Ends rest) :
    ∃ l', l'.length = l.length ∧
      (loop seps keep calls (pre ++ (l ++ rest)) string context).buf = pre ++ (l' ++ rest) := by
  induction calls generalizing pre l string context with
  | zero => exact ⟨l, rfl, rfl⟩
  | succ calls ih =>
    have hcall : Call seps pre l rest _ := strtokR_spec hstart hz hrest
    have hlength := length_strtokR (pre ++ (l ++ rest)) string seps context
    rw [loop]
    generalize strtokR (pre ++ (l ++ rest)) string seps context = r at hcall hlength ⊢
    cases hcall with
    | nothing hw => exact ⟨l, rfl, rfl⟩
    | @last p w hw hread => exact ⟨l, rfl, by simp [keep]⟩
    | @cut p w t l' hw hstored hz' =>
      have hnext : (none : Option ℕ).or (some (pre ++ t).length) = some (pre ++ t).length := rfl
      obtain ⟨l₂, hlen, hbuf⟩ := ih hnext hz'
      refine ⟨t ++ l₂, ?_, ?_⟩
      · simp only [List.length_append] at hlength ⊢
        omega
      · simpa [keep] using hbuf

/-- The words can still be read when all of them have been gone over. -/
theorem loop_keep_read (hstart : string.or context = some pre.length) (hz : (0 : UInt8) ∉ l)
    (hrest : Ends rest) :
    ∀ token ∈ (loop seps keep calls (pre ++ (l ++ rest)) string context).tokens,
      strz ((loop seps keep calls (pre ++ (l ++ rest)) string context).buf.drop token.1) =
        token.2 := by
  induction calls generalizing pre l string context with
  | zero => exact fun _ h => nomatch h
  | succ calls ih =>
    have hcall : Call seps pre l rest _ := strtokR_spec hstart hz hrest
    rw [loop]
    generalize strtokR (pre ++ (l ++ rest)) string seps context = r at hcall ⊢
    cases hcall with
    | nothing hw => exact fun _ h => nomatch h
    | @last p w hw hread => simp [keep]
    | @cut p w t l' hw hstored hz' =>
      have hnext : (none : Option ℕ).or (some (pre ++ t).length) = some (pre ++ t).length := rfl
      obtain ⟨l₂, -, hbuf⟩ := loop_keep_within seps calls hnext hz' hrest
      have hih := ih hnext hz'
      intro token htoken
      rcases List.mem_cons.mp htoken with rfl | htoken
      · simp only [keep, hbuf]
        rw [hstored.read, hstored.read]
      · exact hih token htoken

/-- **To go over the words of a word** writes to that word only. -/
theorem within_inner : Within (inner seps calls context) := by
  intro a w rest hz hrest
  exact loop_keep_within seps calls rfl hz hrest

/-! ### Any string -/

/-- A pointer into a buffer, or past the end of it. -/
theorem loop_of_length_lt (h : buf.length < p) (hcalls : 0 < calls) :
    loop seps body calls buf (some p) context = ⟨[], buf, none, true⟩ := by
  cases calls with
  | zero => exact absurd hcalls (Nat.lt_irrefl 0)
  | succ calls =>
    have hdrop : buf.drop p = [] := List.drop_eq_nil_of_le (Nat.le_of_lt h)
    have hhead : advance (· ∈ seps) buf p = p := by simp [advance, hdrop, strz]
    have hderef : deref buf p = 0 := by
      rw [deref, List.getD_eq_getElem?_getD, List.getElem?_eq_none (Nat.le_of_lt h)]
      rfl
    have hcall : strtokR buf (some p) seps context = ⟨buf, none, none⟩ := by
      simp [strtokR, hhead, hderef]
    rw [loop, hcall]

theorem exists_parts (h : p ≤ buf.length) : ∃ pre rest,
    buf = pre ++ (strz (buf.drop p) ++ rest) ∧ pre.length = p ∧ Ends rest := by
  obtain ⟨rest, hbuf, hrest⟩ := exists_ends (buf.drop p)
  exact ⟨buf.take p, rest, by rw [← hbuf, List.take_append_drop],
    List.length_take_of_le h, hrest⟩

/-- **`strtok_r` enumerates the words** of a string, and they stay where they are; from then on it
returns `NULL`. It comes to the same words at the same places if each of them is gone over in turn,
with a context of its own and any separators, to the end or not. -/
theorem strtokR_enumerates (seps buf : List UInt8) (string : ℕ) (context : Option ℕ) (calls : ℕ)
    (hcalls : (words seps (strz (buf.drop string))).length < calls) :
    ((loop seps keep calls buf (some string) context).tokens.map Prod.snd =
        words seps (strz (buf.drop string)) ∧
      (∀ token ∈ (loop seps keep calls buf (some string) context).tokens,
        strz ((loop seps keep calls buf (some string) context).buf.drop token.1) = token.2) ∧
      (loop seps keep calls buf (some string) context).ended = true ∧
      ∀ buf', strtokR buf' none seps (loop seps keep calls buf (some string) context).context =
        ⟨buf', none, none⟩) ∧
    ∀ seps' calls' context',
      (loop seps (inner seps' calls' context') calls buf (some string) context).tokens =
          (loop seps keep calls buf (some string) context).tokens ∧
        (loop seps (inner seps' calls' context') calls buf (some string) context).ended = true := by
  by_cases h : string ≤ buf.length
  · obtain ⟨pre, rest, hbuf, hlen, hrest⟩ := exists_parts h
    have hz := zero_not_mem_strz (buf.drop string)
    generalize strz (buf.drop string) = l at hbuf hz hcalls ⊢
    subst hbuf
    have hstart : (some string).or context = some pre.length := by rw [Option.some_or, hlen]
    obtain ⟨hwords, hended, hcontext⟩ := loop_words within_keep hstart hz hrest hcalls
    refine ⟨⟨hwords, loop_keep_read hstart hz hrest, hended, fun buf' => ?_⟩, fun _ _ _ => ⟨?_, ?_⟩⟩
    · rw [hcontext]
      exact strtokR_null buf' seps
    · exact tokens_congr within_inner within_keep rfl hstart hstart hz hrest
    · exact (loop_words within_inner hstart hz hrest hcalls).2.1
  · have hpos : 0 < calls := Nat.lt_of_le_of_lt (Nat.zero_le _) hcalls
    have hlt := Nat.lt_of_not_le h
    have hdrop : buf.drop string = [] := List.drop_eq_nil_of_le (Nat.le_of_lt hlt)
    simp only [loop_of_length_lt hlt hpos, hdrop]
    simp [strz, words_nil, strtokR_null]

/-- Commands of which one is split into its words before the next is looked for. -/
theorem strtokR_enumerates_commands :
    (loop [59] (inner [32] 5 none) 5 [97, 32, 98, 59, 59, 99, 0] (some 0) none).tokens =
      (loop [59] keep 5 [97, 32, 98, 59, 59, 99, 0] (some 0) none).tokens :=
  ((strtokR_enumerates [59] [97, 32, 98, 59, 59, 99, 0] 0 none 5 (by decide +kernel)).2
    [32] 5 none).1

end Strtok

end Os161
