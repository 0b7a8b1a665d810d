import Os161.Lib.Bytes

/-!
# Byte order

A word in the memory of a machine whose byte order may be either one, and the conversion `ntohl`
between such words and words whose bytes are in the order of the network.

## Main results

* `ByteOrder.byteOf_ntohl` — a converted word has its most significant byte first in memory
* `ByteOrder.ntohl_word` — four bytes that are read as a word and converted
-/

namespace Os161

/-- The order of the bytes of a word in memory. -/
inductive ByteOrder where
  /-- Most significant byte first. -/
  | big
  /-- Least significant byte first. -/
  | little
  deriving DecidableEq

namespace ByteOrder

variable (o : ByteOrder) (w : UInt32)

/-- The byte at offset `i` of a word in memory. -/
def byteOf (o : ByteOrder) (w : UInt32) (i : ℕ) : UInt8 :=
  match o with
  | big => Os161.byteOf w i
  | little => Os161.byteOf w (3 - i)

/-- The word that four bytes in memory are. -/
def word (o : ByteOrder) (a b c d : UInt8) : UInt32 :=
  match o with
  | big => beWord a b c d
  | little => beWord d c b a

/-- `ntohl`, which is also `htonl`. -/
def ntohl (o : ByteOrder) (w : UInt32) : UInt32 :=
  match o with
  | big => w
  | little => beWord (Os161.byteOf w 3) (Os161.byteOf w 2) (Os161.byteOf w 1) (Os161.byteOf w 0)

theorem byteOf_ntohl {i : ℕ} (hi : i < 4) : o.byteOf (o.ntohl w) i = Os161.byteOf w i := by
  cases o with
  | big => rfl
  | little =>
    obtain ⟨h0, h1, h2, h3⟩ := byteOf_beWord (Os161.byteOf w 3) (Os161.byteOf w 2)
      (Os161.byteOf w 1) (Os161.byteOf w 0)
    match i, hi with
    | 0, _ => exact h3
    | 1, _ => exact h2
    | 2, _ => exact h1
    | 3, _ => exact h0

theorem ntohl_word (a b c d : UInt8) : o.ntohl (o.word a b c d) = beWord a b c d := by
  cases o with
  | big => rfl
  | little =>
    obtain ⟨h0, h1, h2, h3⟩ := byteOf_beWord d c b a
    change beWord (Os161.byteOf (beWord d c b a) 3) (Os161.byteOf (beWord d c b a) 2)
      (Os161.byteOf (beWord d c b a) 1) (Os161.byteOf (beWord d c b a) 0) = _
    rw [h0, h1, h2, h3]

end ByteOrder

end Os161
