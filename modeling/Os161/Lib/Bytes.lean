import Mathlib.Data.Fin.Basic
import Mathlib.Data.List.OfFn
import Mathlib.Tactic.Ring

/-!
# Fixed-size byte buffers and big-endian words

A buffer of `n` bytes is a function on `Fin n`, so two buffers are equal when they agree at every
index and none can have the wrong length. Reading is total: `Bytes.get` past the end is `0`, which
keeps offset arithmetic out of the statements. Words are read and written most significant byte
first, the order of the machine the kernel runs on.

## Main definitions

* `Bytes`, `Bytes.get`, `Bytes.ofFn` — buffers, read and built by position
* `beWord`, `byteOf` — a 32-bit word and its four bytes
* `joinHalves`, `hiHalf`, `loHalf` — a 32-bit word and its two 16-bit halves
* `Bytes.word`, `Bytes.ofWords` — a buffer as a sequence of words

## Main results

* `Bytes.word_ofWords` — words written are words read
* `beWord_byteOf`, `byteOf_beWord` — the word codec and its inverse
-/

namespace Os161

/-- A buffer of `n` bytes. -/
abbrev Bytes (n : ℕ) := Fin n → UInt8

namespace Bytes

variable {n : ℕ}

/-- The byte at position `i`, and `0` past the end. -/
def get (b : Bytes n) (i : ℕ) : UInt8 := if h : i < n then b ⟨i, h⟩ else 0

/-- The buffer whose byte at position `i` is `f i`. -/
def ofFn (f : ℕ → UInt8) : Bytes n := fun i => f i

/-- The buffer of zeros. -/
def zero : Bytes n := fun _ => 0

theorem get_of_lt (b : Bytes n) {i : ℕ} (h : i < n) : b.get i = b ⟨i, h⟩ := dif_pos h

theorem get_ofFn (f : ℕ → UInt8) {i : ℕ} (h : i < n) : (ofFn f : Bytes n).get i = f i :=
  get_of_lt _ h

@[simp] theorem get_zero (i : ℕ) : (zero : Bytes n).get i = 0 := by
  rw [get]
  split <;> rfl

@[simp] theorem get_val (b : Bytes n) (i : Fin n) : b.get i = b i := get_of_lt b i.isLt

theorem ext_get {b c : Bytes n} (h : ∀ i < n, b.get i = c.get i) : b = c := by
  funext i
  rw [← get_val b, ← get_val c]
  exact h i i.isLt

end Bytes

/-! ### Words and their bytes -/

/-- The word with bytes `a`, `b`, `c`, `d`, most significant first. -/
def beWord (a b c d : UInt8) : UInt32 :=
  UInt32.ofNat (a.toNat * 16777216 + b.toNat * 65536 + c.toNat * 256 + d.toNat)

/-- Byte `i` of a word, `0` being the most significant one. -/
def byteOf (w : UInt32) (i : ℕ) : UInt8 := UInt8.ofNat (w.toNat / 256 ^ (3 - i))

theorem beWord_byteOf (w : UInt32) :
    beWord (byteOf w 0) (byteOf w 1) (byteOf w 2) (byteOf w 3) = w := by
  have hw : w.toNat < 4294967296 := w.toNat_lt
  rw [← UInt32.toNat_inj]
  simp only [beWord, byteOf, UInt32.toNat_ofNat', UInt8.toNat_ofNat']
  norm_num
  omega

theorem byteOf_beWord (a b c d : UInt8) :
    byteOf (beWord a b c d) 0 = a ∧ byteOf (beWord a b c d) 1 = b ∧
      byteOf (beWord a b c d) 2 = c ∧ byteOf (beWord a b c d) 3 = d := by
  have ha : a.toNat < 256 := a.toNat_lt
  have hb : b.toNat < 256 := b.toNat_lt
  have hc : c.toNat < 256 := c.toNat_lt
  have hd : d.toNat < 256 := d.toNat_lt
  simp only [← UInt8.toNat_inj, beWord, byteOf, UInt32.toNat_ofNat', UInt8.toNat_ofNat']
  norm_num
  omega

/-- The word with halves `hi` and `lo`. -/
def joinHalves (hi lo : UInt16) : UInt32 := UInt32.ofNat (hi.toNat * 65536 + lo.toNat)

/-- The more significant half of a word. -/
def hiHalf (w : UInt32) : UInt16 := UInt16.ofNat (w.toNat / 65536)

/-- The less significant half of a word. -/
def loHalf (w : UInt32) : UInt16 := UInt16.ofNat w.toNat

@[simp] theorem hiHalf_joinHalves (hi lo : UInt16) : hiHalf (joinHalves hi lo) = hi := by
  have hh : hi.toNat < 65536 := hi.toNat_lt
  have hl : lo.toNat < 65536 := lo.toNat_lt
  rw [← UInt16.toNat_inj]
  simp only [hiHalf, joinHalves, UInt32.toNat_ofNat', UInt16.toNat_ofNat']
  omega

@[simp] theorem loHalf_joinHalves (hi lo : UInt16) : loHalf (joinHalves hi lo) = lo := by
  have hh : hi.toNat < 65536 := hi.toNat_lt
  have hl : lo.toNat < 65536 := lo.toNat_lt
  rw [← UInt16.toNat_inj]
  simp only [loHalf, joinHalves, UInt32.toNat_ofNat', UInt16.toNat_ofNat']
  omega

@[simp] theorem joinHalves_halves (w : UInt32) : joinHalves (hiHalf w) (loHalf w) = w := by
  have hw : w.toNat < 4294967296 := w.toNat_lt
  rw [← UInt32.toNat_inj]
  simp only [loHalf, hiHalf, joinHalves, UInt32.toNat_ofNat', UInt16.toNat_ofNat']
  omega

/-! ### A buffer as words -/

namespace Bytes

variable {n : ℕ}

/-- Word `k` of a buffer. -/
def word (b : Bytes n) (k : ℕ) : UInt32 :=
  beWord (b.get (4 * k)) (b.get (4 * k + 1)) (b.get (4 * k + 2)) (b.get (4 * k + 3))

/-- The buffer whose word `k` is `w k`. -/
def ofWords (w : ℕ → UInt32) : Bytes n := ofFn fun i => byteOf (w (i / 4)) (i % 4)

theorem get_ofWords (w : ℕ → UInt32) {i : ℕ} (h : i < n) :
    (ofWords w : Bytes n).get i = byteOf (w (i / 4)) (i % 4) := get_ofFn _ h

theorem word_ofWords (w : ℕ → UInt32) {k : ℕ} (h : 4 * k + 3 < n) :
    (ofWords w : Bytes n).word k = w k := by
  rw [word, get_ofWords w (by omega), get_ofWords w (by omega), get_ofWords w (by omega),
    get_ofWords w h, show 4 * k / 4 = k by omega, show 4 * k % 4 = 0 by omega,
    show (4 * k + 1) / 4 = k by omega, show (4 * k + 1) % 4 = 1 by omega,
    show (4 * k + 2) / 4 = k by omega, show (4 * k + 2) % 4 = 2 by omega,
    show (4 * k + 3) / 4 = k by omega, show (4 * k + 3) % 4 = 3 by omega]
  exact beWord_byteOf (w k)

@[simp] theorem word_zero (k : ℕ) : (zero : Bytes n).word k = 0 := by
  simp only [word, get_zero]
  rfl

end Bytes

end Os161
