import Os161.Millicode.Longlong

/-!
# Arithmetic on two words

The routines of `common/gcc-millicode` that work on the two words of a `long long` one after the
other: addition and subtraction with the carry told from a comparison, negation, comparison and the
shifts. A shift by as much as a word has bits, or more, is told apart from a smaller one.

## Main results

* `Millicode.ofUi_add`, `Millicode.ofUi_sub` — the carry and the borrow
* `Millicode.word_by_word`
-/

namespace Os161

namespace Millicode

/-! ### The functions -/

/-- `__adddi3`. -/
def adddi3 (a b : Int64) : Int64 :=
  let aa := a.toUInt64
  let bb := b.toUInt64
  let l := uiL aa + uiL bb
  (ofUi (uiH aa + uiH bb + ofBool (l < uiL bb)) l).toInt64

/-- `__subdi3`. -/
def subdi3 (a b : Int64) : Int64 :=
  let aa := a.toUInt64
  let bb := b.toUInt64
  let l := uiL aa - uiL bb
  (ofUi (uiH aa - uiH bb - ofBool (uiL aa < l)) l).toInt64

/-- `__negdi2`. -/
def negdi2 (a : Int64) : Int64 :=
  let aa := a.toUInt64
  let l := -uiL aa
  (ofUi (-uiH aa - ofBool (0 < l)) l).toInt64

/-- `__cmpdi2`: 0, 1 or 2. -/
def cmpdi2 (a b : Int64) : ℕ :=
  let aa := a.toUInt64
  let bb := b.toUInt64
  if (uiH aa).toInt32 < (uiH bb).toInt32 then 0
  else if (uiH bb).toInt32 < (uiH aa).toInt32 then 2
  else if uiL aa < uiL bb then 0
  else if uiL bb < uiL aa then 2
  else 1

/-- `__ucmpdi2`. -/
def ucmpdi2 (aa bb : UInt64) : ℕ :=
  if uiH aa < uiH bb then 0
  else if uiH bb < uiH aa then 2
  else if uiL aa < uiL bb then 0
  else if uiL bb < uiL aa then 2
  else 1

/-- `__ashldi3`. -/
def ashldi3 (a : Int64) (shift : UInt32) : Int64 :=
  let aa := a.toUInt64
  if shift = 0 then a
  else if 32 ≤ shift then (ofUi (uiL aa <<< (shift - 32)) 0).toInt64
  else (ofUi (uiH aa <<< shift ||| uiL aa >>> (32 - shift)) (uiL aa <<< shift)).toInt64

/-- `__lshldi3`, whose body is that of `__ashldi3`. -/
def lshldi3 (a : Int64) (shift : UInt32) : Int64 := ashldi3 a shift

/-- `__lshrdi3`. -/
def lshrdi3 (a : Int64) (shift : UInt32) : Int64 :=
  let aa := a.toUInt64
  if shift = 0 then a
  else if 32 ≤ shift then (ofUi 0 (uiH aa >>> (shift - 32))).toInt64
  else (ofUi (uiH aa >>> shift) (uiL aa >>> shift ||| uiH aa <<< (32 - shift))).toInt64

/-- A signed word shifted right: what comes in are copies of the sign. -/
def sar (x shift : UInt32) : UInt32 := ⟨x.toBitVec.sshiftRight shift.toNat⟩

/-- `__ashrdi3`. -/
def ashrdi3 (a : Int64) (shift : UInt32) : Int64 :=
  let aa := a.toUInt64
  if shift = 0 then a
  else if 32 ≤ shift then
    (ofUi (sar (sar (uiH aa) 31) 1) (sar (uiH aa) (shift - 32))).toInt64
  else (ofUi (sar (uiH aa) shift) (uiL aa >>> shift ||| uiH aa <<< (32 - shift))).toInt64

/-! ### The carry and the borrow -/

section Carry

variable {h h' l l' : UInt32}

theorem ofUi_add (h h' l l' : UInt32) :
    ofUi (h + h' + ofBool (l + l' < l')) (l + l') = ofUi h l + ofUi h' l' := by
  have hl := l.toNat_lt
  have hl' := l'.toNat_lt
  have hsum : (l + l').toNat = (l.toNat + l'.toNat) % 2 ^ 32 := UInt32.toNat_add l l'
  rw [← UInt64.toNat_inj, UInt64.toNat_add, toNat_ofUi, toNat_ofUi, toNat_ofUi, UInt32.toNat_add,
    UInt32.toNat_add, toNat_ofBool, hsum]
  simp only [UInt32.lt_iff_toNat_lt, hsum, decide_eq_true_eq]
  split <;> omega

theorem ofUi_sub (h h' l l' : UInt32) :
    ofUi (h - h' - ofBool (l < l - l')) (l - l') = ofUi h l - ofUi h' l' := by
  have hh := h.toNat_lt
  have hh' := h'.toNat_lt
  have hl := l.toNat_lt
  have hl' := l'.toNat_lt
  have hdiff : (l - l').toNat = (2 ^ 32 - l'.toNat + l.toNat) % 2 ^ 32 := UInt32.toNat_sub l l'
  rw [← UInt64.toNat_inj, UInt64.toNat_sub, toNat_ofUi, toNat_ofUi, toNat_ofUi, UInt32.toNat_sub,
    UInt32.toNat_sub, toNat_ofBool, hdiff]
  simp only [UInt32.lt_iff_toNat_lt, hdiff, decide_eq_true_eq]
  split <;> omega

/-- **`__adddi3`** adds. -/
theorem adddi3_eq (a b : Int64) : adddi3 a b = a + b := by
  rw [adddi3, ofUi_add, ofUi_uiH_uiL, ofUi_uiH_uiL]
  rfl

/-- **`__subdi3`** subtracts. -/
theorem subdi3_eq (a b : Int64) : subdi3 a b = a - b := by
  rw [subdi3, ofUi_sub, ofUi_uiH_uiL, ofUi_uiH_uiL]
  rfl

/-- **`__negdi2`** negates. -/
theorem negdi2_eq (a : Int64) : negdi2 a = -a := by
  have hsub := ofUi_sub 0 (uiH a.toUInt64) 0 (uiL a.toUInt64)
  rw [ofUi_uiH_uiL] at hsub
  simp only [UInt32.zero_sub] at hsub
  rw [negdi2, hsub]
  exact (congrArg UInt64.toInt64 (UInt64.zero_sub _)).trans rfl

end Carry

/-! ### Comparison -/

/-- A signed number from its words: the upper one has the sign. -/
theorem toInt_words (a : Int64) :
    a.toInt = (uiH a.toUInt64).toInt32.toInt * 2 ^ 32 + (uiL a.toUInt64).toNat := by
  have hlt := a.toUInt64.toNat_lt
  have ha : a.toInt = (a.toUInt64.toNat : ℤ).bmod (2 ^ 64) := BitVec.toInt_eq_toNat_bmod _
  have hh : (uiH a.toUInt64).toInt32.toInt = ((uiH a.toUInt64).toNat : ℤ).bmod (2 ^ 32) :=
    BitVec.toInt_eq_toNat_bmod _
  rw [ha, hh, toNat_uiH, toNat_uiL, Int.bmod_def, Int.bmod_def]
  omega

/-- **`__cmpdi2`** compares signed numbers. -/
theorem cmpdi2_eq (a b : Int64) : cmpdi2 a b = if a < b then 0 else if b < a then 2 else 1 := by
  have ha := (uiL a.toUInt64).toNat_lt
  have hb := (uiL b.toUInt64).toNat_lt
  simp only [cmpdi2, Int64.lt_iff_toInt_lt, Int32.lt_iff_toInt_lt, UInt32.lt_iff_toNat_lt,
    toInt_words]
  grind

/-- **`__ucmpdi2`** compares unsigned numbers. -/
theorem ucmpdi2_eq (a b : UInt64) : ucmpdi2 a b = if a < b then 0 else if b < a then 2 else 1 := by
  simp only [ucmpdi2, UInt64.lt_iff_toNat_lt, UInt32.lt_iff_toNat_lt, toNat_uiH, toNat_uiL]
  grind

/-! ### The bits -/

section Bits

variable {a : Int64} {shift : UInt32} {i : ℕ}

theorem getLsbD_ofUi (h l : UInt32) (i : ℕ) : (ofUi h l).toInt64.toBitVec.getLsbD i =
    if i < 32 then l.toBitVec.getLsbD i else h.toBitVec.getLsbD (i - 32) := by
  change (h.toUInt64 <<< 32 ||| l.toUInt64).toBitVec.getLsbD i = _
  rw [UInt64.toBitVec_or, UInt64.toBitVec_shiftLeft]
  simp
  grind

theorem getLsbD_uiH (a : Int64) (i : ℕ) : (uiH a.toUInt64).toBitVec.getLsbD i =
    (decide (i < 32) && a.toBitVec.getLsbD (32 + i)) := by
  rw [uiH]
  simp

theorem getLsbD_uiL (a : Int64) (i : ℕ) :
    (uiL a.toUInt64).toBitVec.getLsbD i = (decide (i < 32) && a.toBitVec.getLsbD i) := by
  rw [uiL]
  simp

theorem msb_uiH (a : Int64) : (uiH a.toUInt64).toBitVec.msb = a.toBitVec.msb := by
  rw [BitVec.msb_eq_getLsbD_last, BitVec.msb_eq_getLsbD_last, getLsbD_uiH]
  rfl

theorem getLsbD_shl (x shift : UInt32) (i : ℕ) : (x <<< shift).toBitVec.getLsbD i =
    (decide (i < 32) && !decide (i < shift.toNat % 32) &&
      x.toBitVec.getLsbD (i - shift.toNat % 32)) := by
  rw [UInt32.toBitVec_shiftLeft, BitVec.shiftLeft_eq', BitVec.getLsbD_shiftLeft]
  rfl

theorem getLsbD_shr (x shift : UInt32) (i : ℕ) :
    (x >>> shift).toBitVec.getLsbD i = x.toBitVec.getLsbD (shift.toNat % 32 + i) := by
  rw [UInt32.toBitVec_shiftRight, BitVec.ushiftRight_eq', BitVec.getLsbD_ushiftRight]
  rfl

theorem getLsbD_sar (x shift : UInt32) (hi : i < 32) : (sar x shift).toBitVec.getLsbD i =
    if shift.toNat + i < 32 then x.toBitVec.getLsbD (shift.toNat + i) else x.toBitVec.msb := by
  rw [sar, BitVec.getLsbD_sshiftRight, decide_eq_false (Nat.not_le_of_lt hi)]
  rfl

/-- The sign word. -/
theorem getLsbD_sign (x : UInt32) (hi : i < 32) :
    (sar (sar x 31) 1).toBitVec.getLsbD i = x.toBitVec.msb := by
  rw [getLsbD_sar _ _ hi]
  split
  · next hin => rw [getLsbD_sar _ _ hin, if_neg (by change ¬ 31 + (1 + i) < 32; omega)]
  · exact BitVec.msb_sshiftRight

/-- The amounts the words are shifted by. -/
theorem toNat_shift_sub (h : 32 ≤ shift) (hlt : shift < 64) :
    (shift - 32).toNat = shift.toNat - 32 ∧ (shift - 32).toNat % 32 = shift.toNat - 32 := by
  have h64 : shift.toNat < 64 := hlt
  have hsub : (shift - 32).toNat = shift.toNat - 32 := UInt32.toNat_sub_of_le _ _ h
  rw [hsub]
  exact ⟨rfl, Nat.mod_eq_of_lt (by omega)⟩

theorem toNat_sub_shift (h0 : shift ≠ 0) (h : ¬ 32 ≤ shift) :
    shift.toNat % 32 = shift.toNat ∧ (32 - shift).toNat % 32 = 32 - shift.toNat := by
  have hlt : shift.toNat < 32 := Nat.lt_of_not_le h
  have hpos : 0 < shift.toNat := Nat.pos_of_ne_zero fun h => h0 (UInt32.toNat_inj.mp h)
  rw [UInt32.toNat_sub_of_le 32 shift (Nat.le_of_lt hlt)]
  exact ⟨Nat.mod_eq_of_lt hlt, Nat.mod_eq_of_lt (by change 32 - shift.toNat < 32; omega)⟩

/-- The lower word, when bits come down from the upper one. -/
theorem getLsbD_low (a : Int64) (h0 : shift ≠ 0) (h : ¬ 32 ≤ shift) (hi : i < 32) :
    (uiL a.toUInt64 >>> shift ||| uiH a.toUInt64 <<< (32 - shift)).toBitVec.getLsbD i =
      a.toBitVec.getLsbD (shift.toNat + i) := by
  obtain ⟨h1, h2⟩ := toNat_sub_shift h0 h
  have hlt : shift.toNat < 32 := Nat.lt_of_not_le h
  rw [UInt32.toBitVec_or, BitVec.getLsbD_or, getLsbD_shr, getLsbD_shl, getLsbD_uiL, getLsbD_uiH,
    h1, h2]
  rcases Nat.lt_or_ge (shift.toNat + i) 32 with hlow | hhigh
  · simp [hlow, show i < 32 - shift.toNat by omega]
  · have hidx : 32 + (i - (32 - shift.toNat)) = shift.toNat + i := by omega
    simp [Nat.not_lt_of_le hhigh, hi, hidx, show ¬ i < 32 - shift.toNat by omega,
      show i - (32 - shift.toNat) < 32 by omega]

/-- **`__ashldi3`** shifts left. -/
theorem ashldi3_eq (a : Int64) (hlt : shift < 64) :
    (ashldi3 a shift).toBitVec = a.toBitVec <<< shift.toNat := by
  rw [ashldi3]
  split
  · next h0 =>
    rw [h0]
    exact (BitVec.shiftLeft_zero _).symm
  refine BitVec.eq_of_getLsbD_eq fun i hi => ?_
  rw [BitVec.getLsbD_shiftLeft]
  split
  · next h =>
    obtain ⟨-, hs⟩ := toNat_shift_sub h hlt
    have hle : 32 ≤ shift.toNat := h
    rw [getLsbD_ofUi, getLsbD_shl, getLsbD_uiL, hs]
    split
    · simp [show i < shift.toNat by omega]
    · rcases Nat.lt_or_ge i shift.toNat with hless | hge
      · simp [hless, show i - 32 < shift.toNat - 32 by omega]
      · have hidx : i - 32 - (shift.toNat - 32) = i - shift.toNat := by omega
        simp [hi, hidx, Nat.not_lt_of_le hge, show i - 32 < 32 by omega,
          show i - shift.toNat < 32 by omega, show ¬ i - 32 < shift.toNat - 32 by omega]
  · next h0 h =>
    obtain ⟨h1, h2⟩ := toNat_sub_shift h0 h
    have hs : shift.toNat < 32 := Nat.lt_of_not_le h
    rw [getLsbD_ofUi, UInt32.toBitVec_or, BitVec.getLsbD_or, getLsbD_shl, getLsbD_shl, getLsbD_shr,
      getLsbD_uiL, getLsbD_uiL, getLsbD_uiH, h1, h2]
    split
    · next hlow => simp [hi, hlow, show i - shift.toNat < 32 by omega]
    · next hhigh =>
      rcases Nat.lt_or_ge (i - 32) shift.toNat with hless | hge
      · have hidx : 32 - shift.toNat + (i - 32) = i - shift.toNat := by omega
        simp [hi, hless, hidx, show i - shift.toNat < 32 by omega, show ¬ i < shift.toNat by omega]
      · have hidx : 32 + (i - 32 - shift.toNat) = i - shift.toNat := by omega
        simp [hi, hidx, Nat.not_lt_of_le hge, show i - 32 < 32 by omega,
          show i - 32 - shift.toNat < 32 by omega, show ¬ i < shift.toNat by omega,
          show ¬ 32 - shift.toNat + (i - 32) < 32 by omega]

/-- **`__lshldi3`** is the same shift. -/
theorem lshldi3_eq (a : Int64) (hlt : shift < 64) :
    (lshldi3 a shift).toBitVec = a.toBitVec <<< shift.toNat :=
  ashldi3_eq a hlt

/-- **`__lshrdi3`** shifts right. -/
theorem lshrdi3_eq (a : Int64) (hlt : shift < 64) :
    (lshrdi3 a shift).toBitVec = a.toBitVec >>> shift.toNat := by
  rw [lshrdi3]
  split
  · next h0 =>
    rw [h0]
    exact (BitVec.ushiftRight_zero _).symm
  refine BitVec.eq_of_getLsbD_eq fun i hi => ?_
  rw [BitVec.getLsbD_ushiftRight]
  split
  · next h =>
    obtain ⟨-, hs⟩ := toNat_shift_sub h hlt
    have hle : 32 ≤ shift.toNat := h
    rw [getLsbD_ofUi, getLsbD_shr, getLsbD_uiH, hs]
    split
    · have hidx : 32 + (shift.toNat - 32 + i) = shift.toNat + i := by omega
      rw [hidx]
      rcases Nat.lt_or_ge (shift.toNat - 32 + i) 32 with hless | hge
      · simp [hless]
      · rw [BitVec.getLsbD_of_ge _ _ (by omega), Bool.and_false]
    · rw [BitVec.getLsbD_of_ge a.toBitVec _ (by omega)]
      exact BitVec.getLsbD_zero
  · next h0 h =>
    obtain ⟨h1, -⟩ := toNat_sub_shift h0 h
    rw [getLsbD_ofUi]
    split
    · next hlow => exact getLsbD_low a h0 h hlow
    · rw [getLsbD_shr, getLsbD_uiH, h1,
        show 32 + (shift.toNat + (i - 32)) = shift.toNat + i by omega]
      rcases Nat.lt_or_ge (shift.toNat + (i - 32)) 32 with hless | hge
      · simp [hless]
      · rw [BitVec.getLsbD_of_ge _ _ (by omega), Bool.and_false]

/-- **`__ashrdi3`** shifts right and keeps the sign. -/
theorem ashrdi3_eq (a : Int64) (hlt : shift < 64) :
    (ashrdi3 a shift).toBitVec = a.toBitVec.sshiftRight shift.toNat := by
  rw [ashrdi3]
  split
  · next h0 =>
    rw [h0]
    exact BitVec.sshiftRight_zero.symm
  refine BitVec.eq_of_getLsbD_eq fun i hi => ?_
  rw [BitVec.getLsbD_sshiftRight, decide_eq_false (Nat.not_le_of_lt hi), Bool.not_false,
    Bool.true_and]
  split
  · next h =>
    obtain ⟨hs, -⟩ := toNat_shift_sub h hlt
    have hle : 32 ≤ shift.toNat := h
    rw [getLsbD_ofUi]
    split
    · next hlow =>
      rw [getLsbD_sar _ _ hlow, hs, getLsbD_uiH, msb_uiH,
        show 32 + (shift.toNat - 32 + i) = shift.toNat + i by omega]
      split
      · next hin =>
        simp [hin, show shift.toNat + i < 64 by omega]
      · rw [if_neg (by omega)]
    · next hhigh =>
      rw [getLsbD_sign _ (by omega), msb_uiH, if_neg (by omega)]
  · next h0 h =>
    have hs : shift.toNat < 32 := Nat.lt_of_not_le h
    rw [getLsbD_ofUi]
    split
    · next hlow => rw [getLsbD_low a h0 h hlow, if_pos (by omega)]
    · next hhigh =>
      rw [getLsbD_sar _ _ (by omega), getLsbD_uiH, msb_uiH,
        show 32 + (shift.toNat + (i - 32)) = shift.toNat + i by omega]
      split
      · next hin => simp [hin, show shift.toNat + i < 64 by omega]
      · rw [if_neg (by omega)]

/-- The routines that work **word by word** agree with the arithmetic of 64 bits. -/
theorem word_by_word (a b : Int64) (shift : UInt32) (hlt : shift < 64) :
    (adddi3 a b = a + b ∧ subdi3 a b = a - b ∧ negdi2 a = -a) ∧
      (cmpdi2 a b = (if a < b then 0 else if b < a then 2 else 1) ∧
        ucmpdi2 a.toUInt64 b.toUInt64 =
          if a.toUInt64 < b.toUInt64 then 0 else if b.toUInt64 < a.toUInt64 then 2 else 1) ∧
      (ashldi3 a shift).toBitVec = a.toBitVec <<< shift.toNat ∧
      (lshrdi3 a shift).toBitVec = a.toBitVec >>> shift.toNat ∧
      (ashrdi3 a shift).toBitVec = a.toBitVec.sshiftRight shift.toNat :=
  ⟨⟨adddi3_eq a b, subdi3_eq a b, negdi2_eq a⟩, ⟨cmpdi2_eq a b, ucmpdi2_eq _ _⟩,
    ashldi3_eq a hlt, lshrdi3_eq a hlt, ashrdi3_eq a hlt⟩

theorem word_by_word_sign :
    (adddi3 (-1) 1 = 0 ∧ subdi3 (-1) 1 = -2 ∧ negdi2 (-1) = 1) ∧
      (cmpdi2 (-1) 1 = 0 ∧ ucmpdi2 (-1 : Int64).toUInt64 (1 : Int64).toUInt64 = 2) ∧
      (ashldi3 (-1) 40).toBitVec = (-1 : Int64).toBitVec <<< 40 ∧
      (lshrdi3 (-1) 40).toBitVec = (-1 : Int64).toBitVec >>> 40 ∧
      (ashrdi3 (-1) 40).toBitVec = (-1 : Int64).toBitVec.sshiftRight 40 :=
  word_by_word (-1) 1 40 (by decide)

end Bits

end Millicode

end Os161
