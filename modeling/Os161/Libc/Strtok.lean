import Os161.Lib.CString

/-!
# Splitting a string into words

`common/libc/string/strtok_r.c`. The string is cut in place: a word is returned as a pointer to its
first character, and the separator behind it is overwritten with a `NUL`. The context says where the
next call goes on, and is `NULL` once the end was seen.

A buffer is the list of its bytes, and a pointer into it is an index. What a word reads as is asked
of the buffer when it is used, after later calls have cut it further. So the buffer is split into
what was passed, which stays, and what is still to be looked at.

## Main results

* `Strtok.strtokR_spec` — one call returns the next word, and leaves the words after it
* `Strtok.StoredIn.read` — a word that was returned can be read from every later buffer
-/

namespace Os161

namespace Strtok

/-- The buffer and the context after a call, and the word returned. -/
structure Result where
  buf : List UInt8
  context : Option ℕ
  token : Option ℕ

/-- `*p`. -/
def deref (buf : List UInt8) (p : ℕ) : UInt8 := buf.getD p 0

/-- `while (*p && cond(*p)) p++`. -/
def advance (cond : UInt8 → Bool) (buf : List UInt8) (p : ℕ) : ℕ :=
  p + ((strz (buf.drop p)).takeWhile cond).length

/-- `strtok_r`. -/
def strtokR (buf : List UInt8) (string : Option ℕ) (seps : List UInt8) (context : Option ℕ) :
    Result :=
  match string.or context with
  | none => ⟨buf, none, none⟩
  | some head =>
      let head := advance (· ∈ seps) buf head
      if deref buf head = 0 then ⟨buf, none, none⟩
      else
        let tail := advance (· ∉ seps) buf head
        if deref buf tail = 0 then ⟨buf, none, some head⟩
        else ⟨buf.set tail 0, some (tail + 1), some head⟩

/-! ### The words of a string -/

/-- The maximal runs of characters that are not separators. -/
def words (seps : List UInt8) (s : List UInt8) : List (List UInt8) :=
  (s.splitOnP (· ∈ seps)).filter (· ≠ [])

variable {seps : List UInt8}

theorem words_sep_cons {c : UInt8} (hc : c ∈ seps) (s : List UInt8) :
    words seps (c :: s) = words seps s := by
  have hnil : ∀ d ∈ ([] : List UInt8), decide (d ∈ seps) = false := nofun
  have h := List.splitOnP_append_cons_of_forall_mem hnil c (by simpa using hc) s
  rw [List.nil_append] at h
  rw [words, h, List.filter_cons_of_neg (by simp), words]

theorem words_seps_append {l : List UInt8} (hl : ∀ c ∈ l, c ∈ seps) (s : List UInt8) :
    words seps (l ++ s) = words seps s := by
  induction l with
  | nil => rfl
  | cons c l ih =>
    rw [List.cons_append, words_sep_cons (hl c (by simp)),
      ih fun d hd => hl d (List.mem_cons_of_mem _ hd)]

theorem words_nil : words seps [] = [] := by simp [words]

theorem words_word {w : List UInt8} (hw : ∀ c ∈ w, c ∉ seps) (hne : w ≠ []) :
    words seps w = [w] := by
  rw [words, List.splitOnP_eq_singleton fun c hc => by simpa using hw c hc,
    List.filter_cons_of_pos (by simpa using hne), List.filter_nil]

theorem words_word_append {w : List UInt8} (hw : ∀ c ∈ w, c ∉ seps) (hne : w ≠ []) {c : UInt8}
    (hc : c ∈ seps) (s : List UInt8) : words seps (w ++ c :: s) = w :: words seps s := by
  rw [words, List.splitOnP_append_cons_of_forall_mem (fun d hd => by simpa using hw d hd) c
    (by simpa using hc), List.filter_cons_of_pos (by simpa using hne), words]

/-! ### Reading the buffer -/

/-- A list up to the first element that fails a test, and from there on. -/
theorem exists_run (cond : UInt8 → Bool) (l : List UInt8) :
    ∃ a b, l = a ++ b ∧ l.takeWhile cond = a ∧ (∀ c ∈ a, cond c = true) ∧
      ∀ c t, b = c :: t → cond c = false := by
  refine ⟨l.takeWhile cond, l.dropWhile cond, List.takeWhile_append_dropWhile.symm, rfl,
    fun c hc => List.mem_takeWhile_imp hc, fun c t hct => ?_⟩
  have hne : l.dropWhile cond ≠ [] := by rw [hct]; exact List.cons_ne_nil _ _
  have hhead := List.head_dropWhile_not cond hne
  simpa [hct] using hhead

/-- What stands behind a string: its `NUL`, or the end of the buffer, which reads as one. -/
def Ends (rest : List UInt8) : Prop := rest = [] ∨ ∃ t, rest = 0 :: t

/-- The word `w` starts at `p` and ends within `pre`. -/
def StoredIn (pre : List UInt8) (p : ℕ) (w : List UInt8) : Prop :=
  ∃ a b, pre = a ++ (w ++ 0 :: b) ∧ a.length = p ∧ (0 : UInt8) ∉ w

variable {pre l rest : List UInt8}

theorem strz_append_ends (hz : (0 : UInt8) ∉ l) (hrest : Ends rest) : strz (l ++ rest) = l := by
  rcases hrest with rfl | ⟨t, rfl⟩
  · rw [List.append_nil, strz_of_not_mem hz]
  · exact strz_append_zero hz t

/-- A buffer is its string and what stands behind it. -/
theorem exists_ends (buf : List UInt8) : ∃ rest, buf = strz buf ++ rest ∧ Ends rest := by
  obtain ⟨a, b, hbuf, ha, -, hstop⟩ := exists_run (· ≠ (0 : UInt8)) buf
  refine ⟨b, by rw [strz, ha, ← hbuf], ?_⟩
  rcases b with _ | ⟨c, t⟩
  · exact .inl rfl
  · refine .inr ⟨t, ?_⟩
    rw [show c = 0 by simpa using hstop c t rfl]

theorem strz_drop (hz : (0 : UInt8) ∉ l) (hrest : Ends rest) :
    strz ((pre ++ (l ++ rest)).drop pre.length) = l := by
  rw [List.drop_left, strz_append_ends hz hrest]

theorem deref_end (hrest : Ends rest) : deref (pre ++ rest) pre.length = 0 := by
  rw [deref, List.getD_eq_getElem?_getD, List.getElem?_append_right (Nat.le_refl _), Nat.sub_self]
  rcases hrest with rfl | ⟨t, rfl⟩ <;> rfl

theorem deref_cons (c : UInt8) : deref (pre ++ c :: rest) pre.length = c := by
  rw [deref, List.getD_eq_getElem?_getD, List.getElem?_append_right (Nat.le_refl _), Nat.sub_self]
  rfl

theorem advance_eq (cond : UInt8 → Bool) (hz : (0 : UInt8) ∉ l) (hrest : Ends rest) :
    advance cond (pre ++ (l ++ rest)) pre.length = (pre ++ l.takeWhile cond).length := by
  rw [advance, strz_drop hz hrest, List.length_append]

theorem StoredIn.read {p : ℕ} {w : List UInt8} (h : StoredIn pre p w) (t : List UInt8) :
    strz ((pre ++ t).drop p) = w := by
  obtain ⟨a, b, rfl, rfl, hz⟩ := h
  rw [List.append_assoc, List.drop_left, List.append_assoc, List.cons_append,
    strz_append_zero hz]

theorem StoredIn.mono {p : ℕ} {w : List UInt8} (h : StoredIn pre p w) (t : List UInt8) :
    StoredIn (pre ++ t) p w := by
  obtain ⟨a, b, rfl, rfl, hz⟩ := h
  exact ⟨a, b ++ t, by simp, rfl, hz⟩

/-! ### One call -/

/-- What a call on the string `l` behind `pre` does. -/
inductive Call (seps pre l rest : List UInt8) : Result → Prop
  /-- There is no word left. -/
  | nothing (hw : words seps l = []) : Call seps pre l rest ⟨pre ++ (l ++ rest), none, none⟩
  /-- The word goes up to the end of the string. -/
  | last {p : ℕ} {w : List UInt8} (hw : words seps l = [w])
      (hread : strz ((pre ++ (l ++ rest)).drop p) = w) :
      Call seps pre l rest ⟨pre ++ (l ++ rest), none, some p⟩
  /-- The word is cut off from a rest `l'`. -/
  | cut {p : ℕ} {w t l' : List UInt8} (hw : words seps l = w :: words seps l')
      (hstored : StoredIn (pre ++ t) p w) (hz : (0 : UInt8) ∉ l') :
      Call seps pre l rest ⟨(pre ++ t) ++ (l' ++ rest), some (pre ++ t).length, some p⟩

/-- A call that goes on behind `pre`, whether the context or the argument says so. -/
theorem strtokR_spec {string context : Option ℕ} (hstart : string.or context = some pre.length)
    (hz : (0 : UInt8) ∉ l) (hrest : Ends rest) :
    Call seps pre l rest (strtokR (pre ++ (l ++ rest)) string seps context) := by
  -- the separators in front of the word
  obtain ⟨lead, l₁, hl, hlead, hseps, hstop⟩ := exists_run (· ∈ seps) l
  have hz₁ : (0 : UInt8) ∉ l₁ := fun h0 => hz (hl ▸ List.mem_append_right _ h0)
  have hbuf : pre ++ (l ++ rest) = (pre ++ lead) ++ (l₁ ++ rest) := by
    rw [hl, List.append_assoc, List.append_assoc]
  have hhead : advance (· ∈ seps) (pre ++ (l ++ rest)) pre.length = (pre ++ lead).length := by
    rw [advance_eq _ hz hrest, hlead]
  have hwords : words seps l = words seps l₁ := by
    rw [hl, words_seps_append fun c hc => by simpa using hseps c hc]
  rw [strtokR, hstart]
  simp only [hhead]
  rcases l₁ with _ | ⟨c, l₂⟩
  · have hzero : deref (pre ++ (l ++ rest)) (pre ++ lead).length = 0 := by
      rw [hbuf, List.nil_append]
      exact deref_end hrest
    rw [if_pos hzero]
    exact .nothing (by rw [hwords, words_nil])
  · have hc0 : c ≠ 0 := fun h0 => hz₁ (h0 ▸ List.mem_cons_self)
    have hcsep : c ∉ seps := by simpa using hstop c l₂ rfl
    have hderef : deref (pre ++ (l ++ rest)) (pre ++ lead).length = c := by
      rw [hbuf, List.cons_append]
      exact deref_cons c
    rw [if_neg (by rw [hderef]; exact hc0)]
    -- the word
    obtain ⟨w, l₃, hl₁, hw, hword, hstop'⟩ := exists_run (· ∉ seps) (c :: l₂)
    have hne : w ≠ [] := by
      rw [← hw, List.takeWhile_cons_of_pos (by simpa using hcsep)]
      exact List.cons_ne_nil _ _
    have hword : ∀ d ∈ w, d ∉ seps := fun d hd => by simpa using hword d hd
    have hzw : (0 : UInt8) ∉ w := fun h0 => hz₁ (hl₁ ▸ List.mem_append_left _ h0)
    have htail : advance (· ∉ seps) (pre ++ (l ++ rest)) (pre ++ lead).length =
        (pre ++ lead ++ w).length := by
      rw [hbuf, advance_eq _ hz₁ hrest, hw]
    rw [htail]
    rcases l₃ with _ | ⟨d, l₄⟩
    · have hlw : c :: l₂ = w := by rw [hl₁, List.append_nil]
      have hzero : deref (pre ++ (l ++ rest)) (pre ++ lead ++ w).length = 0 := by
        rw [hbuf, hlw, ← List.append_assoc]
        exact deref_end hrest
      rw [if_pos hzero]
      refine .last (w := w) ?_ ?_
      · rw [hwords, hlw, words_word hword hne]
      · rw [hbuf, hlw]
        exact strz_drop hzw hrest
    · have hd0 : d ≠ 0 := fun h0 => hz₁ (hl₁ ▸ List.mem_append_right _ (h0 ▸ List.mem_cons_self))
      have hdsep : d ∈ seps := by simpa using hstop' d l₄ rfl
      have hbuf' : pre ++ (l ++ rest) = (pre ++ lead ++ w) ++ d :: (l₄ ++ rest) := by
        rw [hbuf, hl₁]
        simp only [List.append_assoc, List.cons_append]
      have hderef' : deref (pre ++ (l ++ rest)) (pre ++ lead ++ w).length = d := by
        rw [hbuf']
        exact deref_cons d
      have hset : (pre ++ (l ++ rest)).set (pre ++ lead ++ w).length 0 =
          (pre ++ (lead ++ (w ++ [0]))) ++ (l₄ ++ rest) := by
        rw [hbuf', List.set_append_right _ _ (Nat.le_refl _), Nat.sub_self, List.set_cons_zero]
        simp only [List.append_assoc, List.cons_append, List.nil_append]
      have hlen : (pre ++ lead ++ w).length + 1 = (pre ++ (lead ++ (w ++ [0]))).length := by
        simp only [List.length_append, List.length_singleton]
        omega
      rw [if_neg (by rw [hderef']; exact hd0), hset, hlen]
      refine .cut (w := w) ?_ ?_ ?_
      · rw [hwords, hl₁, words_word_append hword hne hdsep]
      · exact ⟨pre ++ lead, [], by simp only [List.append_assoc], rfl, hzw⟩
      · exact fun h0 => hz₁ (hl₁ ▸ List.mem_append_right _ (List.mem_cons_of_mem _ h0))

end Strtok

end Os161
