import Os161.Millicode.Words

/-!
# Multiplication of `long long`

`common/gcc-millicode/muldi3.c`: the product is put together from three products of half the size,
first of words for the 64 bits, and then of half words for a product of two words. The middle one is
a product of two differences, either of which can be negative.

## Main definitions

* `Millicode.lmulq`, `Millicode.muldi3`

## Main results

* `Millicode.lmulq_eq` — `__lmulq` loses nothing
* `Millicode.muldi3_eq` — `__muldi3` multiplies
-/

namespace Os161

namespace Millicode

/-- The difference of two unsigned numbers, and whether it is negative. -/
def diff (x y : UInt32) : UInt32 × Bool := if y ≤ x then (x - y, false) else (y - x, true)

/-- `__lmulq`. -/
def lmulq (u v : UInt32) : UInt64 :=
  let u1 := hhalf u
  let u0 := lhalf u
  let v1 := hhalf v
  let v0 := lhalf v
  let low := u0 * v0
  if u1 = 0 ∧ v1 = 0 then low.toUInt64
  else
    let (udiff, neg) := diff u1 u0
    let (vdiff, neg') := diff v0 v1
    let mid := udiff * vdiff
    let high := u1 * v1
    let prodh := high + hhalf high
    let prodl := lhup high
    let (prodh, prodl) :=
      if neg ^^ neg' then
        let was := prodl
        let prodl := prodl - lhup mid
        (prodh - (hhalf mid + ofBool (was < prodl)), prodl)
      else
        let was := prodl
        let prodl := prodl + lhup mid
        (prodh + (hhalf mid + ofBool (prodl < was)), prodl)
    let was := prodl
    let prodl := prodl + lhup low
    let prodh := prodh + (hhalf low + ofBool (prodl < was))
    let prodl := prodl + low
    let prodh := if prodl < low then prodh + 1 else prodh
    ofUi prodh prodl

/-- What `__muldi3` puts into `prod`. -/
def prod (u v : UInt64) : UInt64 :=
  let u1 := uiH u
  let u0 := uiL u
  let v1 := uiH v
  let v0 := uiL v
  let low := lmulq u0 v0
  if u1 = 0 ∧ v1 = 0 then low
  else
    let (udiff, negmid) := diff u1 u0
    let (vdiff, negmid') := diff v0 v1
    let mid := udiff * vdiff
    let high := u1 * v1
    ofUi (high + (if negmid ^^ negmid' then -mid else mid) + uiL low + uiH low) (uiL low)

/-- `__muldi3`. -/
def muldi3 (a b : Int64) : Int64 :=
  let (u, negall) := if 0 ≤ a then (a, false) else (-a, true)
  let (v, negall) := if 0 ≤ b then (b, negall) else (-b, !negall)
  let prod := (prod u.toUInt64 v.toUInt64).toInt64
  if negall then -prod else prod

/-! ### Numbers of two words -/

section Ring

variable {x y h h' l l' : UInt32}

theorem ofUi_eq (h l : UInt32) : ofUi h l = h.toUInt64 * 4294967296 + l.toUInt64 := by
  have hh := h.toNat_lt
  have hl := l.toNat_lt
  rw [← UInt64.toNat_inj, UInt64.toNat_add, UInt64.toNat_mul, toNat_ofUi, UInt32.toNat_toUInt64,
    UInt32.toNat_toUInt64, show (4294967296 : UInt64).toNat = 2 ^ 32 from rfl]
  omega

/-- What falls out of the upper word is lost. -/
theorem ofUi_upper (h : UInt32) (n : UInt64) (hn : n.toUInt32 = h) : ofUi h 0 = n * 4294967296 := by
  have hlt := n.toNat_lt
  rw [← hn, ← UInt64.toNat_inj, toNat_ofUi, UInt64.toNat_mul, UInt64.toNat_toUInt32,
    show (4294967296 : UInt64).toNat = 2 ^ 32 from rfl, show (0 : UInt32).toNat = 0 from rfl]
  omega

/-- A word shifted up by half a word. -/
theorem ofUi_half (x : UInt32) : ofUi (hhalf x) (lhup x) = x.toUInt64 * 65536 := by
  have hx := x.toNat_lt
  rw [← UInt64.toNat_inj, toNat_ofUi, UInt64.toNat_mul, UInt32.toNat_toUInt64, toNat_hhalf,
    toNat_lhup, show (65536 : UInt64).toNat = 65536 from rfl]
  omega

/-- The products of half words do not overflow. -/
theorem toUInt64_mul (hx : x.toNat < 65536) (hy : y.toNat < 65536) :
    (x * y).toUInt64 = x.toUInt64 * y.toUInt64 := by
  have hmul : x.toNat * y.toNat ≤ 65535 * 65535 :=
    Nat.mul_le_mul (Nat.le_of_lt_succ hx) (Nat.le_of_lt_succ hy)
  rw [← UInt64.toNat_inj, UInt64.toNat_mul, UInt32.toNat_toUInt64, UInt32.toNat_mul,
    UInt32.toNat_toUInt64, UInt32.toNat_toUInt64]
  omega

/-- Half a word more, with the carry. -/
theorem ofUi_add_half (h l x : UInt32) :
    ofUi (h + (hhalf x + ofBool (l + lhup x < l))) (l + lhup x) =
      ofUi h l + x.toUInt64 * 65536 := by
  have hadd := ofUi_add (hhalf x) h (lhup x) l
  rw [UInt32.add_comm (lhup x), UInt32.add_comm (hhalf x), UInt32.add_assoc, ofUi_half,
    UInt64.add_comm] at hadd
  exact hadd

/-- Half a word less, with the borrow. -/
theorem ofUi_sub_half (h l x : UInt32) :
    ofUi (h - (hhalf x + ofBool (l < l - lhup x))) (l - lhup x) =
      ofUi h l - x.toUInt64 * 65536 := by
  have hsub := ofUi_sub h (hhalf x) l (lhup x)
  rw [ofUi_half] at hsub
  rw [← hsub]
  exact congrArg (ofUi · _) (by grind)

/-- A word more, with the carry. -/
theorem ofUi_add_word (h l x : UInt32) :
    ofUi (if l + x < x then h + 1 else h) (l + x) = ofUi h l + x.toUInt64 := by
  have hadd := ofUi_add h 0 l x
  rw [UInt32.add_zero, ofUi_eq 0 x] at hadd
  refine Eq.trans ?_ (hadd.trans ?_)
  · refine congrArg (ofUi · _) ?_
    by_cases hlt : l + x < x
    · rw [if_pos hlt, ofBool, if_pos (decide_eq_true hlt)]
    · rw [if_neg hlt, ofBool, decide_eq_false hlt]
      exact (UInt32.add_zero h).symm
  · rw [show (0 : UInt32).toUInt64 = 0 from rfl, UInt64.zero_mul, UInt64.zero_add]

/-- A word at the upper place, and half a word below it. -/
theorem ofUi_twice (x : UInt32) :
    ofUi (x + hhalf x) (lhup x) = x.toUInt64 * 4294967296 + x.toUInt64 * 65536 := by
  have hadd := ofUi_add_half x 0 x
  have hno : ofBool (lhup x < 0) = 0 := if_neg (by simp)
  rw [UInt32.zero_add, hno, UInt32.add_zero, ofUi_eq x 0] at hadd
  rw [hadd, show (0 : UInt32).toUInt64 = 0 from rfl, UInt64.add_zero]

theorem toUInt64_halves (x : UInt32) :
    x.toUInt64 = (hhalf x).toUInt64 * 65536 + (lhalf x).toUInt64 := by
  have hx := x.toNat_lt
  rw [← UInt64.toNat_inj, UInt64.toNat_add, UInt64.toNat_mul, UInt32.toNat_toUInt64,
    UInt32.toNat_toUInt64, UInt32.toNat_toUInt64, toNat_hhalf, toNat_lhalf,
    show (65536 : UInt64).toNat = 65536 from rfl]
  omega

end Ring

/-! ### The product of two words -/

section Mul

variable {x y : UInt32}

/-- The difference with its sign. -/
theorem diff_eq (x y : UInt32) : x.toUInt64 - y.toUInt64 =
    if (diff x y).2 then -(diff x y).1.toUInt64 else (diff x y).1.toUInt64 := by
  have hx := x.toNat_lt
  have hy := y.toNat_lt
  rw [diff]
  split
  · next hle =>
    have hle' : y.toNat ≤ x.toNat := hle
    simp only [Bool.false_eq_true, if_false]
    rw [← UInt64.toNat_inj, UInt64.toNat_sub, UInt32.toNat_toUInt64, UInt32.toNat_toUInt64,
      UInt32.toNat_toUInt64, UInt32.toNat_sub_of_le _ _ hle]
    omega
  · next hle =>
    have hle' : x.toNat < y.toNat := Nat.lt_of_not_le hle
    simp only [if_true]
    rw [← UInt64.toNat_inj, UInt64.toNat_sub, UInt64.toNat_neg, UInt32.toNat_toUInt64,
      UInt32.toNat_toUInt64, UInt32.toNat_toUInt64, UInt32.toNat_sub_of_le _ _ (Nat.le_of_lt hle'),
      show UInt64.size = 2 ^ 64 from rfl]
    omega

theorem diff_lt (hx : x.toNat < 65536) (hy : y.toNat < 65536) : (diff x y).1.toNat < 65536 := by
  rw [diff]
  split
  · next hle =>
    rw [UInt32.toNat_sub_of_le _ _ hle]
    omega
  · next hle =>
    rw [UInt32.toNat_sub_of_le _ _ (UInt32.le_of_lt (UInt32.not_le.mp hle))]
    omega

/-- **`__lmulq`** loses nothing. -/
theorem lmulq_eq (u v : UInt32) : lmulq u v = u.toUInt64 * v.toUInt64 := by
  have hu1 : (hhalf u).toNat < 65536 := hhalf_lt u
  have hu0 : (lhalf u).toNat < 65536 := lhalf_lt u
  have hv1 : (hhalf v).toNat < 65536 := hhalf_lt v
  have hv0 : (lhalf v).toNat < 65536 := lhalf_lt v
  rw [toUInt64_halves u, toUInt64_halves v, lmulq]
  dsimp only
  generalize hhalf u = u1 at hu1 ⊢
  generalize lhalf u = u0 at hu0 ⊢
  generalize hhalf v = v1 at hv1 ⊢
  generalize lhalf v = v0 at hv0 ⊢
  have hlow := toUInt64_mul hu0 hv0
  split
  · next hsmall =>
    rw [hlow, hsmall.1, hsmall.2, show (0 : UInt32).toUInt64 = 0 from rfl]
    grind
  · have hhigh := toUInt64_mul hu1 hv1
    have hmid := toUInt64_mul (diff_lt hu1 hu0) (diff_lt hv0 hv1)
    have hudiff := diff_eq u1 u0
    have hvdiff := diff_eq v0 v1
    generalize diff u1 u0 = du at hmid hudiff ⊢
    generalize diff v0 v1 = dv at hmid hvdiff ⊢
    obtain ⟨udiff, neg⟩ := du
    obtain ⟨vdiff, neg'⟩ := dv
    dsimp only at hmid hudiff hvdiff ⊢
    cases hneg : neg ^^ neg' with
    | false =>
      simp only [Bool.false_eq_true, if_false]
      rw [ofUi_add_word, ofUi_add_half, ofUi_add_half, ofUi_twice, hlow, hmid, hhigh]
      cases neg <;> cases neg' <;> simp at hneg hudiff hvdiff <;> grind
    | true =>
      simp only [if_true]
      rw [ofUi_add_word, ofUi_add_half, ofUi_sub_half, ofUi_twice, hlow, hmid, hhigh]
      cases neg <;> cases neg' <;> simp at hneg hudiff hvdiff <;> grind

/-- The middle term, and what it leaves to the others. -/
theorem mul_middle (u1 u0 v1 v0 : UInt64) {low1 low0 : UInt64}
    (hlow : low1 * 4294967296 + low0 = u0 * v0) :
    (u1 * v1 + (u1 - u0) * (v0 - v1) + low0 + low1) * 4294967296 + low0 =
      (u1 * 4294967296 + u0) * (v1 * 4294967296 + v0) := by
  have hout : (4294967296 : UInt64) * 4294967296 = 0 := rfl
  grind

/-- The product of numbers of two words, and what falls out is lost. -/
theorem prod_eq (u v : UInt64) : prod u v = u * v := by
  have hu := ofUi_uiH_uiL u
  have hv := ofUi_uiH_uiL v
  rw [prod, lmulq_eq]
  dsimp only
  generalize uiH u = u1 at hu ⊢
  generalize uiL u = u0 at hu ⊢
  generalize uiH v = v1 at hv ⊢
  generalize uiL v = v0 at hv ⊢
  rw [ofUi_eq] at hu hv
  split
  · next hsmall =>
    rw [hsmall.1, show (0 : UInt32).toUInt64 = 0 from rfl] at hu
    rw [hsmall.2, show (0 : UInt32).toUInt64 = 0 from rfl] at hv
    grind
  · have hlow := ofUi_uiH_uiL (u0.toUInt64 * v0.toUInt64)
    generalize uiH (u0.toUInt64 * v0.toUInt64) = lowH at hlow ⊢
    generalize uiL (u0.toUInt64 * v0.toUInt64) = lowL at hlow ⊢
    have hudiff := diff_eq u1 u0
    have hvdiff := diff_eq v0 v1
    generalize diff u1 u0 = du at hudiff ⊢
    generalize diff v0 v1 = dv at hvdiff ⊢
    obtain ⟨udiff, neg⟩ := du
    obtain ⟨vdiff, neg'⟩ := dv
    dsimp only at hudiff hvdiff ⊢
    have hupper := ofUi_upper (u1 * v1 + (if neg ^^ neg' then -(udiff * vdiff)
        else udiff * vdiff) + lowL + lowH)
      (u1.toUInt64 * v1.toUInt64 + (u1.toUInt64 - u0.toUInt64) * (v0.toUInt64 - v1.toUInt64) +
        lowL.toUInt64 + lowH.toUInt64) (by
          rw [hudiff, hvdiff]
          cases neg <;> cases neg' <;>
            simp only [Bool.false_eq_true, Bool.xor_false, Bool.xor_true, Bool.not_true,
              Bool.not_false, if_true, if_false, UInt64.toUInt32_add, UInt64.toUInt32_mul,
              UInt64.toUInt32_neg, UInt32.toUInt32_toUInt64, UInt32.neg_mul, UInt32.mul_neg,
              UInt32.neg_neg])
    rw [ofUi_eq, show (0 : UInt32).toUInt64 = 0 from rfl, UInt64.add_zero] at hupper
    rw [ofUi_eq, hupper]
    rw [ofUi_eq] at hlow
    rw [← hu, ← hv]
    exact mul_middle _ _ _ _ hlow

/-- **`__muldi3`** multiplies. -/
theorem muldi3_eq (a b : Int64) : muldi3 a b = a * b := by
  have hprod (u v : Int64) : (prod u.toUInt64 v.toUInt64).toInt64 = u * v := by
    rw [prod_eq]
    rfl
  rw [muldi3]
  by_cases ha : 0 ≤ a
  · by_cases hb : 0 ≤ b
    · simp only [ha, hb, if_true, Bool.false_eq_true, if_false, hprod]
    · simp only [ha, hb, if_true, if_false, Bool.not_false, hprod, Int64.mul_neg, Int64.neg_neg]
  · by_cases hb : 0 ≤ b
    · simp only [ha, hb, if_true, if_false, hprod, Int64.neg_mul, Int64.neg_neg]
    · simp only [ha, hb, if_false, Bool.not_true, Bool.false_eq_true, hprod, Int64.neg_mul,
        Int64.mul_neg, Int64.neg_neg]

end Mul

end Millicode

end Os161
