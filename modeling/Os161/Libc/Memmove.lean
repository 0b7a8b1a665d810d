import Os161.Lib.Bytes
import Os161.Lib.Memory
import Mathlib.Logic.Function.Basic

/-!
# `memcpy` and `memmove`

Both copy in place, a word at a time if the addresses and the length are multiples of the word size
and a byte at a time if not. `memcpy` goes upwards. `memmove` leaves it to `memcpy` if the
destination is below the source, and goes downwards if not.

A round of either loop moves one unit, of a byte or of a word. What the rounds do together is the
move of all units, as long as none of them overwrites what a later one reads.

## Main definitions

* `Memmove.memcpy`, `Memmove.memmove`

## Main results

* `Memmove.upwards_move`, `Memmove.downwards_move` — a loop over units of any size
* `Memmove.upwards_words`, `Memmove.downwards_words` — words are copied as their bytes would be
* `Memmove.memcpy_eq`, `Memmove.memmove_eq` — each copies the bytes there were
-/

namespace Os161

namespace Memmove

open Memory

/-- `*p`, of a `long`. -/
def load (m : Memory) (p : UInt32) : UInt32 := beWord (m p) (m (p + 1)) (m (p + 2)) (m (p + 3))

/-- `*p = w`, of a `long`. -/
def store (m : Memory) (p w : UInt32) : Memory :=
  fun x => if x - p < 4 then byteOf w (x - p).toNat else m x

/-- `d[i] = s[i]`, of a `char`. -/
def copyByte (dst src : UInt32) (m : Memory) (i : UInt32) : Memory :=
  Function.update m (dst + i) (m (src + i))

/-- `d[i] = s[i]`, of a `long`. -/
def copyWord (dst src : UInt32) (m : Memory) (i : UInt32) : Memory :=
  store m (dst + 4 * i) (load m (src + 4 * i))

/-- `for (i=0; i<n; i++)`. -/
def upwards (body : Memory → UInt32 → Memory) (m : Memory) : ℕ → Memory
  | 0 => m
  | n + 1 => body (upwards body m n) (UInt32.ofNat n)

/-- `for (i=n; i>0; i--)`, with `i-1` for the index. -/
def downwards (body : Memory → UInt32 → Memory) (m : Memory) : ℕ → Memory
  | 0 => m
  | n + 1 => downwards body (body m (UInt32.ofNat n)) n

/-- Both pointers and the length are multiples of `sizeof(long)`. -/
def Aligned (dst src len : UInt32) : Prop := dst % 4 = 0 ∧ src % 4 = 0 ∧ len % 4 = 0

instance (dst src len : UInt32) : Decidable (Aligned dst src len) :=
  inferInstanceAs (Decidable (_ ∧ _))

/-- `memcpy`, and what it returns. -/
def memcpy (m : Memory) (dst src len : UInt32) : Memory × UInt32 :=
  if Aligned dst src len then
    (upwards (copyWord dst src) m (len / 4).toNat, dst)
  else
    (upwards (copyByte dst src) m len.toNat, dst)

/-- `memmove`, and what it returns. -/
def memmove (m : Memory) (dst src len : UInt32) : Memory × UInt32 :=
  if dst < src then
    memcpy m dst src len
  else if Aligned dst src len then
    (downwards (copyWord dst src) m (len / 4).toNat, dst)
  else
    (downwards (copyByte dst src) m len.toNat, dst)

section

variable {m : Memory} {dst src len k p q : UInt32} {n : ℕ}

/-! ### One round -/

/-- All of a word is read before any of it is written. -/
theorem store_load (m : Memory) (p q : UInt32) : store m p (load m q) = m.move p q 4 := by
  funext x
  simp only [store, load, move]
  split
  · next hlt =>
    have hbytes := byteOf_beWord (m q) (m (q + 1)) (m (q + 2)) (m (q + 3))
    have hcases : x - p = 0 ∨ x - p = 1 ∨ x - p = 2 ∨ x - p = 3 := by
      rw [UInt32.lt_iff_toNat_lt] at hlt
      simp only [← UInt32.toNat_inj]
      have h4 : (4 : UInt32).toNat = 4 := rfl
      have h3 : (3 : UInt32).toNat = 3 := rfl
      have h2 : (2 : UInt32).toNat = 2 := rfl
      have h1 : (1 : UInt32).toNat = 1 := rfl
      have h0 : (0 : UInt32).toNat = 0 := rfl
      omega
    rcases hcases with h | h | h | h <;> rw [h]
    · rw [UInt32.add_zero]
      exact hbytes.1
    · exact hbytes.2.1
    · exact hbytes.2.2.1
    · exact hbytes.2.2.2
  · rfl

theorem copyWord_eq (i : UInt32) :
    copyWord dst src m i = m.move (dst + 4 * i) (src + 4 * i) 4 :=
  store_load ..

theorem copyByte_eq (i : UInt32) :
    copyByte dst src m i = m.move (dst + 1 * i) (src + 1 * i) 1 := by
  funext x
  have hiff : x - (dst + i) < 1 ↔ x = dst + i := by
    have h1 : (1 : UInt32).toNat = 1 := rfl
    rw [UInt32.lt_iff_toNat_lt, h1, Nat.lt_one_iff, ← UInt32.toNat_zero, UInt32.toNat_inj]
    exact ⟨fun h => by grind, fun h => by grind⟩
  rw [UInt32.one_mul, copyByte, move]
  by_cases hx : x = dst + i
  · rw [if_pos (hiff.mpr hx), hx, Function.update_self, UInt32.sub_self, UInt32.add_zero]
  · rw [if_neg (hiff.not.mpr hx), Function.update_of_ne hx]

/-! ### Words in memory -/

theorem load_congr {m m' : Memory} (h : ∀ i < 4, m (p + i) = m' (q + i)) :
    load m p = load m' q := by
  have h0 := h 0 (by decide)
  rw [UInt32.add_zero, UInt32.add_zero] at h0
  rw [load, load, h0, h 1 (by decide), h 2 (by decide), h 3 (by decide)]

theorem load_move (h : ∀ i < 4, p + i < len) :
    load (m.move dst src len) (dst + p) = load m (src + p) := by
  refine load_congr fun i hi => ?_
  rw [UInt32.add_assoc, move_add (h i hi), UInt32.add_assoc]

theorem load_move_of_out (h : ∀ i < 4, ¬ p + i - dst < len) :
    load (m.move dst src len) p = load m p :=
  load_congr fun i hi => move_of_out (h i hi)

theorem load_store_self (m : Memory) (p w : UInt32) : load (store m p w) p = w := by
  have hbyte : ∀ i < 4, store m p w (p + i) = byteOf w i.toNat := by
    intro i hi
    rw [store, add_sub_self, if_pos hi]
  have h0 := hbyte 0 (by decide)
  rw [UInt32.add_zero] at h0
  rw [load, h0, hbyte 1 (by decide), hbyte 2 (by decide), hbyte 3 (by decide)]
  exact beWord_byteOf w

theorem load_store_of_out {w : UInt32} (h : ∀ i < 4, ¬ q + i - p < 4) :
    load (store m p w) q = load m q :=
  load_congr fun i hi => if_neg (h i hi)

/-! ### The loops -/

variable {body : Memory → UInt32 → Memory}

theorem toNat_mul_ofNat (hlen : k.toNat * n < 2 ^ 32) :
    (k * UInt32.ofNat n).toNat = k.toNat * n := by
  rw [UInt32.toNat_mul, UInt32.toNat_ofNat', Nat.mul_mod_mod]
  exact Nat.mod_eq_of_lt hlen

theorem mul_ofNat_succ (k : UInt32) (n : ℕ) :
    k * UInt32.ofNat (n + 1) = k * UInt32.ofNat n + k := by
  rw [UInt32.ofNat_add]
  grind

/-- **Upwards**, when the destination does not start within the rest of the source. -/
theorem upwards_move (hbody : ∀ m i, body m i = m.move (dst + k * i) (src + k * i) k)
    (hlen : k.toNat * n < 2 ^ 32) (hup : (src - dst).toNat + k.toNat * n ≤ 2 ^ 32) :
    upwards body m n = m.move dst src (k * UInt32.ofNat n) := by
  induction n with
  | zero =>
    funext x
    exact (move_of_out (by simp)).symm
  | succ n ih =>
    rw [Nat.mul_succ] at hlen hup
    have hnat : (k * UInt32.ofNat n).toNat = k.toNat * n := toNat_mul_ofNat (by omega)
    rw [upwards, ih (by omega) (by omega), hbody, mul_ofNat_succ, move_append_up (by omega)]
    intro j hj
    have hsub : src + k * UInt32.ofNat n + j - dst = (src - dst) + k * UInt32.ofNat n + j := by
      grind
    rw [UInt32.lt_iff_toNat_lt] at hj
    rw [hsub, UInt32.lt_iff_toNat_lt, UInt32.toNat_add, UInt32.toNat_add, hnat]
    omega

/-- **Downwards**, when the source does not start within the rest of the destination. -/
theorem downwards_move (hbody : ∀ m i, body m i = m.move (dst + k * i) (src + k * i) k)
    (hlen : k.toNat * n < 2 ^ 32) (hdown : (dst - src).toNat + k.toNat * n ≤ 2 ^ 32) :
    downwards body m n = m.move dst src (k * UInt32.ofNat n) := by
  induction n generalizing m with
  | zero =>
    funext x
    exact (move_of_out (by simp)).symm
  | succ n ih =>
    rw [Nat.mul_succ] at hlen hdown
    have hnat : (k * UInt32.ofNat n).toNat = k.toNat * n := toNat_mul_ofNat (by omega)
    rw [downwards, ih (by omega) (by omega), hbody, mul_ofNat_succ, move_append_down (by omega)]
    intro j hj
    have hsub : src + j - (dst + k * UInt32.ofNat n) =
        0 - ((dst - src) + (k * UInt32.ofNat n - j)) := by grind
    have hle : (k * UInt32.ofNat n - j).toNat = k.toNat * n - j.toNat := by
      rw [UInt32.lt_iff_toNat_lt] at hj
      rw [UInt32.toNat_sub_of_le _ _ (UInt32.le_iff_toNat_le.mpr (Nat.le_of_lt hj)), hnat]
    rw [UInt32.lt_iff_toNat_lt, hnat] at hj
    rw [hsub, UInt32.lt_iff_toNat_lt, UInt32.toNat_sub, UInt32.toNat_add, hle, UInt32.toNat_zero]
    omega

/-! ### Words and bytes -/

theorem upwards_add (a b : ℕ) : upwards body m (a + b) =
    upwards (fun m i => body m (UInt32.ofNat a + i)) (upwards body m a) b := by
  induction b with
  | zero => rfl
  | succ b ih => rw [← Nat.add_assoc, upwards, upwards, ih, UInt32.ofNat_add]

theorem downwards_add (a b : ℕ) : downwards body m (a + b) =
    downwards body (downwards (fun m i => body m (UInt32.ofNat a + i)) m b) a := by
  induction b generalizing m with
  | zero => rfl
  | succ b ih => rw [← Nat.add_assoc, downwards, downwards, ih, UInt32.ofNat_add]

theorem copyByte_add (a i : UInt32) :
    copyByte dst src m (a + i) = copyByte (dst + a) (src + a) m i := by
  rw [copyByte, copyByte, UInt32.add_assoc, UInt32.add_assoc]

/-- Two words at multiples of the word size are the same one or have no byte in common. -/
theorem toNat_sub_add_four_le (hp : p % 4 = 0) (hq : q % 4 = 0) : (q - p).toNat + 4 ≤ 2 ^ 32 := by
  have h4 : (4 : UInt32).toNat = 4 := rfl
  have hlt := (q - p).toNat_lt
  rw [← UInt32.toNat_inj, UInt32.toNat_mod, h4, UInt32.toNat_zero] at hp hq
  rw [UInt32.toNat_sub] at hlt ⊢
  have hp' := p.toNat_lt
  have hq' := q.toNat_lt
  omega

theorem add_mul_mod (hp : p % 4 = 0) (i : UInt32) : (p + 4 * i) % 4 = 0 := by
  have h4 : (4 : UInt32).toNat = 4 := rfl
  rw [← UInt32.toNat_inj, UInt32.toNat_mod, h4, UInt32.toNat_zero] at hp ⊢
  rw [UInt32.toNat_add, UInt32.toNat_mul, h4]
  omega

theorem copyByte_four_mul (n : ℕ) :
    (fun m i => copyByte dst src m (UInt32.ofNat (4 * n) + i)) =
      copyByte (dst + 4 * UInt32.ofNat n) (src + 4 * UInt32.ofNat n) := by
  funext m i
  rw [copyByte_add, UInt32.ofNat_mul]
  rfl

/-- **Words** are copied upwards as their bytes would be. -/
theorem upwards_words (hdst : dst % 4 = 0) (hsrc : src % 4 = 0) :
    upwards (copyWord dst src) m n = upwards (copyByte dst src) m (4 * n) := by
  induction n with
  | zero => rfl
  | succ n ih =>
    rw [Nat.mul_succ, upwards_add (4 * n) 4, copyByte_four_mul, upwards, ih, copyWord_eq]
    exact (upwards_move (n := 4) (fun _ => copyByte_eq) (by decide)
      (toNat_sub_add_four_le (add_mul_mod hdst _) (add_mul_mod hsrc _))).symm

/-- **Words** are copied downwards as their bytes would be. -/
theorem downwards_words (hdst : dst % 4 = 0) (hsrc : src % 4 = 0) :
    downwards (copyWord dst src) m n = downwards (copyByte dst src) m (4 * n) := by
  induction n generalizing m with
  | zero => rfl
  | succ n ih =>
    rw [Nat.mul_succ, downwards_add (4 * n) 4, copyByte_four_mul, downwards, ih, copyWord_eq]
    congr 1
    exact (downwards_move (n := 4) (fun _ => copyByte_eq) (by decide)
      (toNat_sub_add_four_le (add_mul_mod hsrc _) (add_mul_mod hdst _))).symm

/-! ### The functions -/

theorem toNat_div_mul (hlen : len % 4 = 0) : 4 * (len / 4).toNat = len.toNat := by
  have h4 : (4 : UInt32).toNat = 4 := rfl
  rw [← UInt32.toNat_inj, UInt32.toNat_mod, h4, UInt32.toNat_zero] at hlen
  rw [UInt32.toNat_div, h4]
  omega

/-- In either case `memcpy` does what its byte loop does. -/
theorem memcpy_bytes (m : Memory) (dst src len : UInt32) :
    memcpy m dst src len = (upwards (copyByte dst src) m len.toNat, dst) := by
  unfold memcpy
  split
  · next h => rw [upwards_words h.1 h.2.1, toNat_div_mul h.2.2]
  · rfl

/-- In either case `memmove` does what its byte loop does, or that of `memcpy`. -/
theorem memmove_bytes (m : Memory) (dst src len : UInt32) :
    memmove m dst src len =
      ((if dst < src then upwards (copyByte dst src) m len.toNat
        else downwards (copyByte dst src) m len.toNat), dst) := by
  unfold memmove
  split
  · exact memcpy_bytes m dst src len
  · split
    · next h => rw [downwards_words h.1 h.2.1, toNat_div_mul h.2.2]
    · rfl

/-- **`memcpy`**, when the destination does not start within the source. -/
theorem memcpy_eq (m : Memory) (h : (src - dst).toNat + len.toNat ≤ 2 ^ 32) :
    memcpy m dst src len = (m.move dst src len, dst) := by
  have hup := upwards_move (m := m) (n := len.toNat) (fun _ => copyByte_eq)
    (by simpa using len.toNat_lt) (by simpa using h)
  rw [memcpy_bytes, hup]
  simp

/-- **`memmove`**, when neither region goes past the end of the address space. -/
theorem memmove_eq (m : Memory) (hdst : dst.toNat + len.toNat ≤ 2 ^ 32)
    (hsrc : src.toNat + len.toNat ≤ 2 ^ 32) :
    memmove m dst src len = (m.move dst src len, dst) := by
  rw [memmove_bytes]
  split
  · next hlt =>
    rw [UInt32.lt_iff_toNat_lt] at hlt
    have hup : (src - dst).toNat + len.toNat ≤ 2 ^ 32 := by
      rw [UInt32.toNat_sub_of_le _ _ (UInt32.le_iff_toNat_le.mpr (Nat.le_of_lt hlt))]
      omega
    rw [← memcpy_bytes, memcpy_eq m hup]
  · next hge =>
    have hle : src.toNat ≤ dst.toNat := UInt32.le_iff_toNat_le.mp (UInt32.not_lt.mp hge)
    have hdown : (dst - src).toNat + len.toNat ≤ 2 ^ 32 := by
      rw [UInt32.toNat_sub_of_le _ _ (UInt32.le_iff_toNat_le.mpr hle)]
      omega
    have hmove := downwards_move (m := m) (n := len.toNat) (fun _ => copyByte_eq)
      (by simpa using len.toNat_lt) (by simpa using hdown)
    rw [hmove]
    simp

/-- **`memmove`** copies the bytes there were and leaves all others as they were, for any overlap
and any alignment. By words, either function does what it would do by bytes. -/
theorem memmove_spec (m : Memory) (dst src len : UInt32)
    (hdst : dst.toNat + len.toNat ≤ 2 ^ 32)
    (hsrc : src.toNat + len.toNat ≤ 2 ^ 32) :
    (∀ k < len, (memmove m dst src len).1 (dst + k) = m (src + k)) ∧
      (∀ x, x.toNat < dst.toNat ∨ dst.toNat + len.toNat ≤ x.toNat →
        (memmove m dst src len).1 x = m x) ∧
      (memmove m dst src len).2 = dst ∧
      (Aligned dst src len →
        upwards (copyWord dst src) m (len / 4).toNat = upwards (copyByte dst src) m len.toNat ∧
        downwards (copyWord dst src) m (len / 4).toNat =
          downwards (copyByte dst src) m len.toNat) := by
  rw [memmove_eq m hdst hsrc]
  refine ⟨fun k hk => move_add hk, fun x hx => move_of_out fun hin => ?_, rfl, fun h => ⟨?_, ?_⟩⟩
  · obtain ⟨hle, hlt⟩ := (sub_lt_iff hdst).mp hin
    omega
  · rw [upwards_words h.1 h.2.1, toNat_div_mul h.2.2]
  · rw [downwards_words h.1 h.2.1, toNat_div_mul h.2.2]

/-- A region that overlaps with the one it is moved to, up by one byte and so by bytes. -/
theorem memmove_spec_overlap :
    (∀ k < 8, (memmove (fun x => x.toUInt8) 17 16 8).1 (17 + k) = (16 + k).toUInt8) ∧
      (memmove (fun x => x.toUInt8) 17 16 8).1 16 = 16 := by
  have h := memmove_spec (fun x => x.toUInt8) 17 16 8 (by decide) (by decide)
  exact ⟨h.1, h.2.1 16 (by decide)⟩

end

end Memmove

end Os161
