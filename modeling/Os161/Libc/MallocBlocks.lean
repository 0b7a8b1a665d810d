import Os161.Lib.Tiling
import Os161.Libc.Malloc

/-!
# Blocks and their headers

The allocator knows its heap by headers in memory that point to each other. This module reads a run
of headers as a list of blocks, and says what the three loops and helpers of
`userland/lib/libc/stdlib/malloc.c` that work on neighbouring headers do to such a list: the search
for a free block, `__malloc_split` and `__malloc_trymerge`.

## How a list of blocks lies in memory

`Headers mem a prev bs` says that the headers of the blocks `bs` are in memory from address `a` on,
the first of them with `prev` as the offset to the block before, and each following one with the
offset the block before it has to it. Where a block begins is not stored in it: it is `a` plus the
lengths of the blocks before it, and `Lib.Tiling` has the arithmetic of that (`located`, `stop`).

A block carries the size its user has asked for, if it has a user. The code does not keep that size;
it is here so that the list alone says which pointers are live.

## What is deliberately absent

Nothing here knows where the heap begins, that its last block may grow, or that two free blocks
never lie side by side: the helpers work on any run of headers. Those are properties of the heap as
a whole, in `Libc.MallocHeap`.

## Main definitions

* `Block`, `Headers`, `lastNext`
* `SameVars`, `Outside` — what a helper leaves alone

## Main results

* `search_spec` — the search stops at the first free block that is large enough, or at the end
* `mallocSplit_spec`, `mallocTrymerge_spec`
-/

namespace Os161

namespace Malloc

open Tiling

/-- A block: its length, header included, in units of eight bytes, and the size its user has asked
for. -/
structure Block where
  next : ℕ
  user : Option ℕ
  deriving DecidableEq

/-- The length of a block in bytes. -/
def Block.len (b : Block) : ℕ := b.next * 8

/-- The header of a block. -/
def hdr (prev : ℕ) (b : Block) : Mheader where
  mhPrevblock := prev
  mhPad := false
  mhMagic1 := mmagic
  mhNextblock := b.next
  mhInuse := b.user.isSome
  mhMagic2 := mmagic

/-- The headers of blocks that lie end to end from `a` on. -/
def Headers (mem : ℕ → Mheader) (a prev : ℕ) : List Block → Prop
  | [] => True
  | b :: bs => mem a = hdr prev b ∧ 1 ≤ b.next ∧ Headers mem (a + b.len) b.next bs

/-- The offset the header after the blocks `bs` has to the last of them. -/
def lastNext (prev : ℕ) : List Block → ℕ
  | [] => prev
  | b :: bs => lastNext b.next bs

section Headers

variable {mem mem' : ℕ → Mheader} {a prev prev' x : ℕ} {b c : Block} {bs pre post : List Block}

@[simp] theorem headers_nil : Headers mem a prev [] := trivial

@[simp] theorem headers_cons : Headers mem a prev (b :: bs) ↔
    mem a = hdr prev b ∧ 1 ≤ b.next ∧ Headers mem (a + b.len) b.next bs := Iff.rfl

@[simp] theorem lastNext_append :
    lastNext prev (pre ++ post) = lastNext (lastNext prev pre) post := by
  induction pre generalizing prev with
  | nil => rfl
  | cons b pre ih => exact ih

/-- A run of headers can be cut anywhere: the second part begins where the first ends, and its first
header points back to the last block of the first part. -/
theorem headers_append : Headers mem a prev (pre ++ post) ↔
    Headers mem a prev pre ∧ Headers mem (stop Block.len a pre) (lastNext prev pre) post := by
  induction pre generalizing a prev with
  | nil => simp [lastNext]
  | cons b pre ih =>
    simp only [List.cons_append, headers_cons, ih, stop_cons, lastNext, and_assoc]

/-- No block is empty, not even of data: its header is part of it. -/
theorem Headers.pos (h : Headers mem a prev bs) (hb : b ∈ bs) : 1 ≤ b.next := by
  induction bs generalizing a prev with
  | nil => cases hb
  | cons c bs ih =>
    rcases List.mem_cons.mp hb with rfl | hb
    · exact h.2.1
    · exact ih h.2.2 hb

/-- The same in bytes. It is what makes the addresses of blocks differ. -/
theorem Headers.len_pos (h : Headers mem a prev bs) (hb : b ∈ bs) : 8 ≤ b.len := by
  have := h.pos hb
  rw [Block.len]
  omega

/-- Only the headers matter. -/
theorem Headers.congr (h : Headers mem a prev bs)
    (hmem : ∀ x b, (x, b) ∈ located Block.len a bs → mem' x = mem x) : Headers mem' a prev bs := by
  induction bs generalizing a prev with
  | nil => trivial
  | cons b bs ih =>
    refine ⟨?_, h.2.1, ih h.2.2 fun x c hc => hmem x c (List.mem_cons_of_mem _ hc)⟩
    rw [hmem a b List.mem_cons_self]
    exact h.1

/-- A write outside the blocks. -/
theorem Headers.congr_of_bounds (h : Headers mem a prev bs)
    (hmem : ∀ x, a ≤ x → x < stop Block.len a bs → mem' x = mem x) : Headers mem' a prev bs := by
  refine h.congr fun x b hb => ?_
  have hbounds := bounds_of_mem hb
  have hlen := h.len_pos (mem_of_mem_located hb)
  exact hmem x hbounds.1 (by omega)

/-- The link of the first block to the one before is set anew. -/
theorem Headers.relink (h : Headers mem a prev (b :: bs))
    (ha : mem' a = { mem a with mhPrevblock := prev' })
    (hmem : ∀ x, a < x → mem' x = mem x) : Headers mem' a prev' (b :: bs) := by
  refine ⟨?_, h.2.1, h.2.2.congr_of_bounds fun x hx _ => hmem x ?_⟩
  · rw [ha, h.1]
    rfl
  · have := h.len_pos List.mem_cons_self
    omega

/-- `M_NEXTOFF` of a header is the length of its block. -/
theorem hdr_nextoff : (hdr prev b).nextoff = b.len := rfl

/-- `M_OK`: both magic numbers are there. -/
theorem hdr_ok : (hdr prev b).ok = true := rfl

/-- `M_SIZE`: what the block has for data. The subtraction wraps in C, and does not wrap here
because the block is at least as long as a header. -/
theorem hdr_size (hpos : 1 ≤ b.next) (hlen : b.len < 2 ^ 32) : (hdr prev b).size = b.len - 8 := by
  rw [Mheader.size, hdr_nextoff, sub32, mblocksize]
  rw [Block.len] at hlen ⊢
  omega

/-- `M_MKFIELD` loses nothing: an offset below `2 ^ 32` fits into 29 bits once it is divided by
eight. -/
theorem mkfield_of_lt {off : ℕ} (h : off < 2 ^ 32) : mkfield off = off / 8 := by
  rw [mkfield, mblocksize]
  omega

end Headers

/-! ### The search -/

/-- The last header a search has seen. -/
def lastHeader (mh : Option ℕ) (a : ℕ) : List Block → Option ℕ
  | [] => mh
  | b :: bs => lastHeader (some a) (a + b.len) bs

/-- A block the search passes by. -/
def Passed (size : ℕ) (b : Block) : Prop := b.user.isSome = true ∨ b.len - 8 < size

/-- **The search of `malloc`** stops at the first block that is free and large enough, or it goes
past all of them to the top and then knows the last header and the offset back to it. The fuel only
has to exceed the number of blocks, so a heap made of blocks is searched to its end. -/
theorem search_spec {h : Heap} {fuel a prev : ℕ} {bs : List Block} (size : ℕ) (mh : Option ℕ)
    (hbs : Headers h.mem a prev bs) (htop : h.heaptop = stop Block.len a bs)
    (hbound : h.heaptop < 2 ^ 32) (hfuel : bs.length < fuel) :
    (∃ pre b post, bs = pre ++ b :: post ∧ ¬Passed size b ∧
      search h size fuel a mh prev = .ok (.block (stop Block.len a pre))) ∨
    (∀ b ∈ bs, Passed size b) ∧ search h size fuel a mh prev =
      .ok (.stop h.heaptop (lastHeader mh a bs) (lastNext prev bs)) := by
  induction bs generalizing fuel a prev mh with
  | nil =>
    obtain ⟨fuel, rfl⟩ := Nat.exists_eq_succ_of_ne_zero (Nat.ne_of_gt hfuel)
    refine Or.inr ⟨(by simp), ?_⟩
    rw [search, if_neg (by rw [htop]; exact Nat.lt_irrefl a), htop]
    rfl
  | cons b bs ih =>
    obtain ⟨fuel, rfl⟩ := Nat.exists_eq_succ_of_ne_zero (Nat.ne_of_gt (Nat.zero_lt_of_lt hfuel))
    obtain ⟨hmem, hpos, hbs⟩ := hbs
    have hlt : a < h.heaptop ∧ b.len < 2 ^ 32 := by
      have hstop : a + b.len ≤ stop Block.len (a + b.len) bs := le_stop
      rw [htop, stop_cons] at hbound ⊢
      have : 8 ≤ b.len := by
        rw [Block.len]
        omega
      omega
    rw [search, if_pos hlt.1, hmem, hdr_ok, if_neg (by simp), if_neg (by simp [hdr]),
      hdr_size hpos hlt.2, hdr_nextoff]
    by_cases hpass : Passed size b
    · rw [if_pos (show (hdr prev b).mhInuse = true ∨ b.len - 8 < size from hpass)]
      have hlen : bs.length < fuel := by
        rw [List.length_cons] at hfuel
        omega
      rcases ih (some a) hbs htop hlen with ⟨pre, c, post, rfl, hc, hs⟩ | ⟨hall, hs⟩
      · exact Or.inl ⟨b :: pre, c, post, rfl, hc, hs⟩
      · refine Or.inr ⟨?_, hs⟩
        rintro c (_ | ⟨_, hc⟩)
        · exact hpass
        · exact hall c hc
    · rw [if_neg (show ¬((hdr prev b).mhInuse = true ∨ b.len - 8 < size) from hpass)]
      exact Or.inl ⟨[], b, bs, rfl, hpass, rfl⟩

/-! ### Splitting and merging -/

/-- Only memory has changed. -/
structure SameVars (h h' : Heap) : Prop where
  brk : h'.brk = h.brk
  heapbase : h'.heapbase = h.heapbase
  heaptop : h'.heaptop = h.heaptop

/-- Nothing has happened to the variables. -/
theorem SameVars.refl (h : Heap) : SameVars h h := ⟨rfl, rfl, rfl⟩

/-- Two steps after each other. -/
theorem SameVars.trans {h₁ h₂ h₃ : Heap} (h : SameVars h₁ h₂) (h' : SameVars h₂ h₃) :
    SameVars h₁ h₃ :=
  ⟨h'.brk.trans h.brk, h'.heapbase.trans h.heapbase, h'.heaptop.trans h.heaptop⟩

@[simp] theorem modify_self (h : Heap) (a : ℕ) (f : Mheader → Mheader) :
    (h.modify a f).mem a = f (h.mem a) := Function.update_self ..

theorem modify_of_ne {h : Heap} {a x : ℕ} {f : Mheader → Mheader} (hx : x ≠ a) :
    (h.modify a f).mem x = h.mem x := Function.update_of_ne hx ..

@[simp] theorem modify_heaptop (h : Heap) (a : ℕ) (f : Mheader → Mheader) :
    (h.modify a f).heaptop = h.heaptop := rfl

@[simp] theorem modify_heapbase (h : Heap) (a : ℕ) (f : Mheader → Mheader) :
    (h.modify a f).heapbase = h.heapbase := rfl

theorem sameVars_modify (h : Heap) (a : ℕ) (f : Mheader → Mheader) : SameVars h (h.modify a f) :=
  ⟨rfl, rfl, rfl⟩

/-- Nothing outside the stretch from `m` to `e` has been written, up to the header at `e`. -/
def Outside (m e : ℕ) (h h' : Heap) : Prop := ∀ x, x < m ∨ e < x → h'.mem x = h.mem x

/-- The subtraction of C, where it does not wrap. -/
theorem sub32_of_le {a b : ℕ} (hba : b ≤ a) (ha : a < 2 ^ 32) : sub32 a b = a - b := by
  rw [sub32]
  omega

/-- After the blocks `post` the heap ends, so their first header is at the top exactly if there are
none. -/
theorem ne_stop_of_headers {mem : ℕ → Mheader} {e prev : ℕ} {c : Block} {post : List Block}
    (h : Headers mem e prev (c :: post)) : e ≠ stop Block.len e (c :: post) := by
  have hstop : e + c.len ≤ stop Block.len e (c :: post) := le_stop
  have := h.len_pos List.mem_cons_self
  omega

/-- What a split leaves after a block: nothing, or one free block that has room for data. -/
def Remainder (rest : List Block) : Prop := rest = [] ∨ ∃ j, 2 ≤ j ∧ rest = [⟨j, none⟩]

/-- **`__malloc_split`** cuts a block down to `q` units of data if what is left is a block of its
own, header and at least one unit of data; else it leaves the block as it is. Either way the blocks
after it stay where they are, and nothing is written outside the block except the header right
behind it, which points back to the new neighbour. -/
theorem mallocSplit_spec {h : Heap} {m prev k q : ℕ} {u : Option ℕ} {post : List Block}
    (hbs : Headers h.mem m prev (⟨k, u⟩ :: post))
    (htop : h.heaptop = stop Block.len m (⟨k, u⟩ :: post)) (hbound : h.heaptop < 2 ^ 32)
    (hq : q + 1 ≤ k) :
    ∃ h' b rest, mallocSplit h m (q * 8) = .ok h' ∧ SameVars h h' ∧
      Headers h'.mem m prev (b :: rest ++ post) ∧ b.user = u ∧ q + 1 ≤ b.next ∧
      Remainder rest ∧ stop Block.len m (b :: rest) = m + k * 8 ∧
      Outside m (m + k * 8) h h' := by
  obtain ⟨hmem, hpos, hpost⟩ := hbs
  have hlen : Block.len ⟨k, u⟩ = k * 8 := rfl
  rw [stop_cons, hlen] at htop
  rw [hlen] at hpost
  have hstop : m + k * 8 ≤ stop Block.len (m + k * 8) post := le_stop
  have hk : k * 8 < 2 ^ 32 := by omega
  have hsize : (h.mem m).size = k * 8 - 8 := by
    rw [hmem]
    exact hdr_size hpos hk
  have hsub : sub32 (k * 8 - 8) (q * 8) = k * 8 - 8 - q * 8 := sub32_of_le (by omega) (by omega)
  rw [mallocSplit, mblocksize, if_neg (by omega), hsize, hsub]
  by_cases hroom : k * 8 - 8 - q * 8 < 2 * 8
  · rw [if_pos hroom]
    exact ⟨h, ⟨k, u⟩, [], rfl, SameVars.refl h, ⟨hmem, hpos, hpost⟩, rfl, hq, Or.inl rfl, rfl,
      fun _ _ => rfl⟩
  rw [if_neg hroom]
  -- the three headers
  have hnext : h.next m = m + k * 8 := by
    rw [Heap.next, hmem]
    rfl
  have hfield : mkfield (q * 8 + 8) = q + 1 := by
    rw [mkfield_of_lt (by omega)]
    omega
  have hfield' : mkfield (k * 8 - 8 - q * 8) = k - 1 - q := by
    rw [mkfield_of_lt (by omega)]
    omega
  have hnew : (h.modify m fun mh => { mh with mhNextblock := q + 1 }).next m =
      m + (q + 1) * 8 := by
    simp [Heap.next, Heap.modify, Mheader.nextoff, mblocksize]
  simp only [hnext, hsub, hfield, hfield', hnew, modify_heaptop]
  rw [if_neg (by omega)]
  have hb : Block.len ⟨q + 1, u⟩ = (q + 1) * 8 := rfl
  have hc : Block.len ⟨k - 1 - q, none⟩ = (k - 1 - q) * 8 := rfl
  have hend : m + (q + 1) * 8 + (k - 1 - q) * 8 = m + k * 8 := by omega
  cases post with
  | nil =>
    rw [if_neg (by simp [htop])]
    refine ⟨_, ⟨q + 1, u⟩, [⟨k - 1 - q, none⟩], rfl, ⟨rfl, rfl, rfl⟩, ⟨?_, ?_, ?_, ?_, ?_⟩, rfl,
      Nat.le_refl _, Or.inr ⟨_, by omega, rfl⟩, ?_, fun x hx => ?_⟩
    · rw [modify_of_ne (by omega), modify_self, hmem]
      rfl
    · exact Nat.le_add_left 1 q
    · rw [hb, modify_self]
      rfl
    · change 1 ≤ k - 1 - q
      omega
    · trivial
    · rw [stop_cons, stop_cons, stop_nil, hb, hc, hend]
    · rw [modify_of_ne (by omega), modify_of_ne (by omega)]
  | cons c post =>
    have hne := ne_stop_of_headers hpost
    rw [← htop] at hne
    rw [if_pos hne]
    refine ⟨_, ⟨q + 1, u⟩, [⟨k - 1 - q, none⟩], rfl, ⟨rfl, rfl, rfl⟩, ⟨?_, ?_, ?_, ?_, ?_⟩, rfl,
      Nat.le_refl _, Or.inr ⟨_, by omega, rfl⟩, ?_, fun x hx => ?_⟩
    · rw [modify_of_ne (by omega), modify_of_ne (by omega), modify_self, hmem]
      rfl
    · exact Nat.le_add_left 1 q
    · rw [hb, modify_of_ne (by omega), modify_self]
      rfl
    · change 1 ≤ k - 1 - q
      omega
    · rw [hb, hc, hend]
      refine hpost.relink ?_ fun x hx => ?_
      · rw [modify_self, modify_self, modify_of_ne (by omega), modify_of_ne (by omega)]
      · rw [modify_of_ne (by omega), modify_of_ne (by omega), modify_of_ne (by omega)]
    · rw [stop_cons, stop_cons, stop_nil, hb, hc, hend]
    · rw [modify_of_ne (by omega), modify_of_ne (by omega), modify_of_ne (by omega)]

/-- `__malloc_deadbeef` writes nothing outside the memory it is given. -/
theorem mallocDeadbeef_of_not {h : Heap} {ptr size x : ℕ} (hx : x < ptr ∨ ptr + size ≤ x) :
    (mallocDeadbeef h ptr size).mem x = h.mem x := by
  rw [mallocDeadbeef]
  exact if_neg (by omega)

/-- **`__malloc_trymerge`** makes one block of two neighbours if both are free, and else does
nothing. The header of the second one stays in memory as data of the merged block. -/
theorem mallocTrymerge_spec {h : Heap} {m prev : ℕ} {b c : Block} {post : List Block}
    (hbs : Headers h.mem m prev (b :: c :: post))
    (htop : h.heaptop = stop Block.len m (b :: c :: post)) (hbound : h.heaptop < 2 ^ 32) :
    (b.user.isSome = true ∨ c.user.isSome = true) ∧ mallocTrymerge h m (m + b.len) = .ok h ∨
    b.user = none ∧ c.user = none ∧ ∃ h', mallocTrymerge h m (m + b.len) = .ok h' ∧ SameVars h h' ∧
      Headers h'.mem m prev (⟨b.next + c.next, none⟩ :: post) ∧
      Outside m (m + b.len + c.len) h h' := by
  obtain ⟨hb, hbpos, hc, hcpos, hpost⟩ := hbs
  rw [stop_cons, stop_cons] at htop
  have hstop : m + b.len + c.len ≤ stop Block.len (m + b.len + c.len) post := le_stop
  have hlinks : ¬(h.mem m).mhNextblock ≠ (h.mem (m + b.len)).mhPrevblock := by
    rw [hb, hc]
    exact fun hne => hne rfl
  rw [mallocTrymerge, if_neg hlinks]
  by_cases huse : (h.mem m).mhInuse = true ∨ (h.mem (m + b.len)).mhInuse = true
  · rw [if_pos huse]
    rw [hb, hc] at huse
    exact Or.inl ⟨huse, rfl⟩
  rw [if_neg huse]
  rw [hb, hc] at huse
  obtain ⟨hbu, hcu⟩ := not_or.mp huse
  have hbu : b.user = none := Option.not_isSome_iff_eq_none.mp hbu
  have hcu : c.user = none := Option.not_isSome_iff_eq_none.mp hcu
  refine Or.inr ⟨hbu, hcu, ?_⟩
  have hblen : b.len = b.next * 8 := rfl
  have hclen : c.len = c.next * 8 := rfl
  have hnext : h.next (m + b.len) = m + b.len + c.len := by
    rw [Heap.next, hc]
    rfl
  have hfield : mkfield (mblocksize + (h.mem m).size + mblocksize + (h.mem (m + b.len)).size) =
      b.next + c.next := by
    rw [hb, hc, hdr_size hbpos (by omega), hdr_size hcpos (by omega), mblocksize,
      mkfield_of_lt (by omega)]
    omega
  simp only [hnext, modify_heaptop]
  have hlen : Block.len ⟨b.next + c.next, none⟩ = b.len + c.len := Nat.add_mul ..
  have hmerged : ∀ h' : Heap, h'.mem m = { h.mem m with mhNextblock := b.next + c.next } →
      Headers h'.mem (m + b.len + c.len) (b.next + c.next) post →
      Headers h'.mem m prev (⟨b.next + c.next, none⟩ :: post) := by
    intro h' hm hpost
    refine ⟨?_, ?_, ?_⟩
    · rw [hm, hb, hdr, hbu]
      rfl
    · exact Nat.le_add_right_of_le hbpos
    · rwa [hlen, ← Nat.add_assoc]
  cases post with
  | nil =>
    rw [if_neg (by simp [htop])]
    refine ⟨_, rfl, ⟨rfl, rfl, rfl⟩, hmerged _ ?_ trivial, fun x hx => ?_⟩
    · rw [mallocDeadbeef_of_not (by omega), modify_self, hfield]
    · rw [mblocksize, mallocDeadbeef_of_not (by omega), modify_of_ne (by omega)]
  | cons e post =>
    have hne := ne_stop_of_headers hpost
    rw [← htop] at hne
    rw [if_pos hne]
    refine ⟨_, rfl, ⟨rfl, rfl, rfl⟩, hmerged _ ?_ ?_, fun x hx => ?_⟩
    · rw [mallocDeadbeef_of_not (by omega), modify_of_ne (by omega), modify_self, hfield]
    · refine hpost.relink ?_ fun x hx => ?_
      · rw [mblocksize, mallocDeadbeef_of_not (by omega), modify_self, modify_self,
          modify_of_ne (by omega)]
        rw [mblocksize] at hfield
        rw [hfield]
      · rw [mblocksize, mallocDeadbeef_of_not (by omega), modify_of_ne (by omega),
          modify_of_ne (by omega)]
    · rw [mblocksize, mallocDeadbeef_of_not (by omega), modify_of_ne (by omega),
        modify_of_ne (by omega)]

end Malloc

end Os161
