import Os161.Libc.MallocBlocks
import Mathlib.Data.List.Chain

/-!
# The heap of `malloc`

The heap between `__heapbase` and `__heaptop` as a list of blocks, and the part of `malloc` that
turns one free block, or the new block at the top, into a block with a user.

## Two levels

`Laid h bs` says that the headers in memory divide the heap into the blocks `bs`. That is all the
helpers need, and all that holds between the steps of `free`, which marks a block free before it
looks at the neighbours. `Rep h bs` adds that no two neighbours are free, which holds between calls.

## What a call promises its caller

`Allocates h bs h' m n bs'` is the promise of a call that hands out the block at `m` for `n` bytes:
the live pointers are those of before and the new one, and no byte of a block in use has been
written. It is stated once here, for a free block that was found (`allocates_found`) and for a block
that was just put at the top (`allocates_top`).

`sbrk` comes last because only its result matters here: it grows the heap by what was asked for, or
it refuses and changes nothing. How much is asked for is in `Libc.MallocGrow`.

## Main definitions

* `Laid`, `Rep`, `users`
* `Spared` — the data of blocks has not been written
* `Allocates`

## Main results

* `Laid.replace` — blocks in the middle of the heap replaced by others of the same extent
* `allocates_found`, `allocates_top`
* `mallocSbrk_spec`
-/

namespace Os161

namespace Malloc

open Tiling

/-! ### The heap as a whole -/

/-- The heap consists of the blocks `bs`. The last of them has room for data, so that a pointer to
the data of a block is always below the top. -/
structure Laid (h : Heap) (bs : List Block) : Prop where
  base_pos : 0 < h.heapbase
  aligned : h.heapbase % 8 = 0
  top : h.heaptop = stop Block.len h.heapbase bs
  brk : h.brk = h.heaptop
  bound : h.heaptop < 2 ^ 32
  headers : Headers h.mem h.heapbase 0 bs
  fits : ∀ b ∈ bs, ∀ n, b.user = some n → n + 8 ≤ b.len
  last : ∀ b ∈ bs.getLast?, 2 ≤ b.next

/-- Neighbours that are not both free. -/
def Apart (b c : Block) : Prop := b.user.isSome = true ∨ c.user.isSome = true

/-- No two neighbours are free. -/
structure Rep (h : Heap) (bs : List Block) : Prop extends Laid h bs where
  apart : bs.IsChain Apart

/-- The blocks that are in use, with their addresses. -/
def used (a : ℕ) (bs : List Block) : List (ℕ × Block) :=
  (located Block.len a bs).filter fun b => b.2.user.isSome

/-- The pointers of the users of blocks, and the sizes they have asked for. -/
def users (a : ℕ) (bs : List Block) : List (ℕ × ℕ) :=
  (used a bs).filterMap fun b => b.2.user.map fun n => (data b.1, n)

/-- The data of the blocks `l` has not been written. -/
def Spared (l : List (ℕ × Block)) (h h' : Heap) : Prop :=
  ∀ x b, (x, b) ∈ l → ∀ y, data x ≤ y → y < x + b.len → h'.mem y = h.mem y

section Rep

variable {h h' : Heap} {a m k n q : ℕ} {b c : Block} {bs pre mid mid' post rest : List Block}

/-- Blocks are whole units, so all of them are as aligned as the first. -/
theorem stop_mod (a : ℕ) (bs : List Block) : stop Block.len a bs % 8 = a % 8 := by
  induction bs generalizing a with
  | nil => rfl
  | cons b bs ih =>
    rw [stop_cons, ih, Block.len]
    omega

@[simp] theorem used_append :
    used a (pre ++ post) = used a pre ++ used (stop Block.len a pre) post := by
  simp [used]

@[simp] theorem used_free : used a (⟨k, none⟩ :: bs) = used (a + k * 8) bs := rfl

@[simp] theorem used_some : used a (⟨k, some n⟩ :: bs) = (a, ⟨k, some n⟩) :: used (a + k * 8) bs :=
  rfl

@[simp] theorem used_nil : used a [] = [] := rfl

/-- A block is in the list of those in use if it is in the heap and has a user. -/
theorem mem_used {x : ℕ} :
    (x, b) ∈ used a bs ↔ (x, b) ∈ located Block.len a bs ∧ b.user.isSome = true :=
  List.mem_filter

/-- A live pointer is the address of the data of a block in use, and the size that goes with it is
what its user has asked for. -/
theorem mem_users {p : ℕ} :
    (p, n) ∈ users a bs ↔ ∃ x b, (x, b) ∈ used a bs ∧ b.user = some n ∧ p = data x := by
  simp only [users, List.mem_filterMap, Option.map_eq_some_iff, Prod.exists, Prod.mk.injEq]
  constructor
  · rintro ⟨x, b, hb, n', hn, rfl, rfl⟩
    exact ⟨x, b, hb, hn, rfl⟩
  · rintro ⟨x, b, hb, hn, rfl⟩
    exact ⟨x, b, hb, n, hn, rfl, rfl⟩

/-- Blocks with the same pointer are the same block. -/
theorem data_inj {x y : ℕ} (h : data x = data y) : x = y := Nat.add_right_cancel h

theorem Laid.len_pos (hl : Laid h bs) : ∀ b ∈ bs, 0 < b.len := fun _ hb =>
  Nat.lt_of_lt_of_le (by omega) (hl.headers.len_pos hb)

/-- A free block has no user's pointer. -/
theorem Laid.ne_data (hl : Laid h bs) (hm : (m, c) ∈ located Block.len h.heapbase bs)
    (hc : c.user = none) {p : ℕ} (hp : (p, n) ∈ users h.heapbase bs) : p ≠ data m := by
  rintro rfl
  obtain ⟨x, b, hb, hn, hx⟩ := mem_users.mp hp
  rw [← data_inj hx] at hb
  rw [eq_of_mem hl.len_pos (mem_used.mp hb).1 hm, hc] at hn
  cases hn

/-- What has been written lies in a free block, or is the header after it. -/
theorem spared_of_outside (hm : (m, c) ∈ located Block.len a bs) (hc : c.user = none)
    (hout : Outside m (m + c.len) h h') : Spared (used a bs) h h' := by
  intro x b hb y hy hy'
  obtain ⟨hb, hu⟩ := mem_used.mp hb
  rw [data, mblocksize] at hy
  refine hout y ?_
  rcases eq_or_disjoint hb hm with heq | hlt | hlt
  · rw [(Prod.mk.inj heq).2, hc] at hu
    cases hu
  · exact Or.inl (by omega)
  · exact Or.inr (by omega)

/-- Two steps after each other, neither of which writes to the data of the blocks. -/
theorem Spared.trans {l : List (ℕ × Block)} {h₁ h₂ h₃ : Heap} (h : Spared l h₁ h₂)
    (h' : Spared l h₂ h₃) : Spared l h₁ h₃ := fun x b hb y hy hy' =>
  (h' x b hb y hy hy').trans (h x b hb y hy hy')

/-- **Replacing blocks.** The blocks `mid` give way to `mid'`, which take the same space. -/
theorem Laid.replace (hl : Laid h (pre ++ mid ++ post)) (hv : SameVars h h')
    (hstop : stop Block.len (stop Block.len h.heapbase pre) mid' =
      stop Block.len (stop Block.len h.heapbase pre) mid)
    (hmem : ∀ x, x < stop Block.len h.heapbase pre → h'.mem x = h.mem x)
    (hheaders : Headers h'.mem (stop Block.len h.heapbase pre) (lastNext 0 pre) (mid' ++ post))
    (hfits : ∀ b ∈ mid', ∀ n, b.user = some n → n + 8 ≤ b.len) (hne : mid' ≠ [])
    (hlast : post = [] → ∀ b ∈ mid'.getLast?, 2 ≤ b.next) : Laid h' (pre ++ mid' ++ post) where
  base_pos := by
    rw [hv.heapbase]
    exact hl.base_pos
  aligned := by
    rw [hv.heapbase]
    exact hl.aligned
  top := by
    rw [hv.heaptop, hv.heapbase, hl.top]
    simp [hstop]
  brk := by
    rw [hv.brk, hv.heaptop]
    exact hl.brk
  bound := by
    rw [hv.heaptop]
    exact hl.bound
  headers := by
    have hpre := (headers_append.mp (headers_append.mp hl.headers).1).1
    rw [hv.heapbase, List.append_assoc]
    exact headers_append.mpr ⟨hpre.congr_of_bounds fun x _ hx => hmem x hx, hheaders⟩
  fits := by
    intro b hb
    rcases List.mem_append.mp hb with hb | hb
    · rcases List.mem_append.mp hb with hb | hb
      · exact hl.fits b (List.mem_append_left _ (List.mem_append_left _ hb))
      · exact hfits b hb
    · exact hl.fits b (List.mem_append_right _ hb)
  last := by
    intro b hb
    cases post with
    | nil =>
      refine hlast rfl b ?_
      rwa [List.append_nil, List.getLast?_append_of_ne_nil _ hne] at hb
    | cons c post =>
      refine hl.last b ?_
      rwa [List.getLast?_append_of_ne_nil _ (List.cons_ne_nil c post)] at hb ⊢

/-- The use of the first block is changed. -/
theorem Headers.setInuse {mem mem' : ℕ → Mheader} {prev : ℕ} (hbs : Headers mem m prev (b :: bs))
    {u : Option ℕ} (hm : mem' m = { mem m with mhInuse := u.isSome })
    (hmem : ∀ x, m + b.len ≤ x → mem' x = mem x) : Headers mem' m prev (⟨b.next, u⟩ :: bs) := by
  obtain ⟨hb, hpos, hbs⟩ := hbs
  refine ⟨?_, hpos, hbs.congr_of_bounds fun x hx _ => hmem x hx⟩
  rw [hm, hb]
  rfl

/-! ### Allocation -/

/-- A used block and what is left of the block it has been cut from, before a used block. -/
theorem isChain_used (hpre : pre.IsChain Apart) (hpost : post.IsChain Apart)
    (hhead : ∀ y ∈ post.head?, y.user.isSome = true) (hrest : Remainder rest) :
    (pre ++ (⟨k, some n⟩ :: rest) ++ post).IsChain Apart := by
  rw [List.append_assoc]
  refine hpre.append (List.IsChain.append ?_ hpost fun x _ y hy => Or.inr (hhead y hy)) ?_
  · rcases hrest with rfl | ⟨j, -, rfl⟩
    · exact List.IsChain.singleton _
    · exact List.isChain_cons_cons.mpr ⟨Or.inl rfl, List.IsChain.singleton _⟩
  · rintro x - y hy
    obtain rfl : ⟨k, some n⟩ = y := by simpa using hy
    exact Or.inr rfl

/-- The neighbour of a free block is used. -/
theorem head_used_of_free (h : (pre ++ ⟨k, none⟩ :: post).IsChain Apart) :
    ∀ y ∈ post.head?, y.user.isSome = true := fun y hy =>
  ((List.isChain_cons.mp h.right_of_append).1 y hy).resolve_left (by simp)

/-- What a split leaves over has no user. -/
theorem used_remainder (hrest : Remainder rest) : used a rest = [] := by
  rcases hrest with rfl | ⟨j, -, rfl⟩ <;> rfl

/-- The block handed out has room for its user; what is left over has none to make room for. -/
theorem fits_used (hrest : Remainder rest) (hn : n + 8 ≤ k * 8) :
    ∀ c ∈ (⟨k, some n⟩ : Block) :: rest, ∀ j, c.user = some j → j + 8 ≤ c.len := by
  intro c hc j hj
  rcases List.mem_cons.mp hc with rfl | hc
  · obtain rfl := Option.some.inj hj
    exact hn
  · rcases hrest with rfl | ⟨i, -, rfl⟩
    · cases hc
    · rw [List.mem_singleton.mp hc] at hj
      cases hj

/-- What is at the top after a split had room for data before. -/
theorem last_used (hrest : Remainder rest) {j : ℕ} (hj : 2 ≤ j)
    (hstop : stop Block.len m (⟨k, some n⟩ :: rest) = m + j * 8) :
    ∀ c ∈ ((⟨k, some n⟩ : Block) :: rest).getLast?, 2 ≤ c.next := by
  rcases hrest with rfl | ⟨i, hi, rfl⟩
  · rintro c ⟨⟩
    have hstop : m + k * 8 = m + j * 8 := hstop
    change 2 ≤ k
    omega
  · rintro c ⟨⟩
    exact hi

/-- `n` bytes have been allocated at `data m`. -/
structure Allocates (h : Heap) (bs : List Block) (h' : Heap) (m n : ℕ) (bs' : List Block) :
    Prop where
  rep : Rep h' bs'
  heapbase : h'.heapbase = h.heapbase
  users : ∀ p k, (p, k) ∈ users h.heapbase bs' ↔ (p, k) ∈ users h.heapbase bs ∨ (p, k) = (data m, n)
  fresh : ∀ p k, (p, k) ∈ Malloc.users h.heapbase bs → p ≠ data m
  spared : Spared (used h.heapbase bs) h h'

/-- One more block in use. -/
theorem mem_users_insert {l r : List (ℕ × Block)} {bs' : List Block} (hbs : used a bs = l ++ r)
    (hbs' : used a bs' = l ++ (m, ⟨k, some n⟩) :: r) (p j : ℕ) :
    (p, j) ∈ users a bs' ↔ (p, j) ∈ users a bs ∨ (p, j) = (data m, n) := by
  rw [users, users, hbs, hbs']
  simp only [List.filterMap_append, List.filterMap_cons, Option.map_some, List.mem_append,
    List.mem_cons]
  tauto

/-- A free block that is big enough is used. -/
theorem allocates_found (hr : Rep h (pre ++ ⟨k, none⟩ :: post)) (hq : q + 1 ≤ k)
    (hn : n ≤ q * 8) : ∃ h', mallocSplit h (stop Block.len h.heapbase pre) (q * 8) = .ok h' ∧
      ∃ bs', Allocates h (pre ++ ⟨k, none⟩ :: post)
        (h'.modify (stop Block.len h.heapbase pre) fun mh => { mh with mhInuse := true })
        (stop Block.len h.heapbase pre) n bs' := by
  have hl : Laid h (pre ++ [⟨k, none⟩] ++ post) := by simpa using hr.toLaid
  have hheaders := headers_append.mp hr.headers
  have htop := hr.top
  rw [stop_append] at htop
  obtain ⟨h', b, rest, hsplit, hv, hbs, hu, hbq, hrest, hstop, hout⟩ :=
    mallocSplit_spec hheaders.2 htop hr.bound hq
  have hapart := List.isChain_append.mp hr.apart
  have hmid : stop Block.len (stop Block.len h.heapbase pre) (⟨b.next, some n⟩ :: rest) =
      stop Block.len h.heapbase pre + k * 8 := hstop
  have hmem : (stop Block.len h.heapbase pre, (⟨k, none⟩ : Block)) ∈
      located Block.len h.heapbase (pre ++ ⟨k, none⟩ :: post) := by simp
  refine ⟨h', hsplit, pre ++ (⟨b.next, some n⟩ :: rest) ++ post, ⟨?_, ?_⟩, hv.heapbase, ?_, ?_, ?_⟩
  · refine hl.replace (hv.trans (sameVars_modify _ _ _)) hmid (fun x hx => ?_) ?_
      (fits_used hrest (by omega)) (by simp) fun hpost => last_used hrest ?_ hmid
    · rw [modify_of_ne (by omega)]
      exact hout x (Or.inl hx)
    · refine hbs.setInuse (by rw [modify_self]; rfl) fun x hx => ?_
      have := hbs.len_pos List.mem_cons_self
      exact modify_of_ne (by omega)
    · refine hr.last ⟨k, none⟩ ?_
      rw [hpost, List.getLast?_concat]
      rfl
  · exact isChain_used hapart.1 (List.isChain_cons.mp hapart.2.1).2
      (head_used_of_free hr.apart) hrest
  · refine mem_users_insert (k := b.next) (l := used h.heapbase pre)
      (r := used (stop Block.len h.heapbase pre + k * 8) post) (by simp) ?_
    rw [used_append, used_append, stop_append, hmid, List.append_assoc, used_some,
      used_remainder hrest]
    rfl
  · exact fun p j hp => hr.ne_data hmem rfl hp
  · refine spared_of_outside hmem rfl fun x hx => ?_
    have hx : x < stop Block.len h.heapbase pre ∨ stop Block.len h.heapbase pre + k * 8 < x := hx
    rw [modify_of_ne (by omega)]
    exact hout x hx

/-- A used block at the top is split. -/
theorem split_top (hr : Rep h (pre ++ [⟨k, some n⟩])) (hq : q + 1 ≤ k) (hn : n ≤ q * 8) :
    ∃ h' k' rest, mallocSplit h (stop Block.len h.heapbase pre) (q * 8) = .ok h' ∧
      h'.heapbase = h.heapbase ∧ Remainder rest ∧ Rep h' (pre ++ ⟨k', some n⟩ :: rest) ∧
      ∀ x, x < stop Block.len h.heapbase pre → h'.mem x = h.mem x := by
  have hl : Laid h (pre ++ [⟨k, some n⟩] ++ []) := by simpa using hr.toLaid
  have htop := hr.top
  rw [stop_append] at htop
  obtain ⟨h', b, rest, hsplit, hv, hbs, hu, hbq, hrest, hstop, hout⟩ :=
    mallocSplit_spec (headers_append.mp hr.headers).2 htop hr.bound hq
  have hb : b = ⟨b.next, some n⟩ := by
    cases b
    rw [← hu]
  rw [hb] at hbs hstop
  refine ⟨h', b.next, rest, hsplit, hv.heapbase, hrest, ⟨?_, ?_⟩, fun x hx => hout x (Or.inl hx)⟩
  · have hk : 2 ≤ k := hr.last ⟨k, some n⟩ (by rw [List.getLast?_concat]; rfl)
    have := hl.replace hv hstop (fun x hx => hout x (Or.inl hx)) hbs (fits_used hrest (by omega))
      (by simp) fun _ => last_used hrest hk hstop
    rwa [List.append_nil] at this
  · have := isChain_used (k := b.next) (n := n) (List.isChain_append.mp hr.apart).1
      List.IsChain.nil (by simp) hrest
    rwa [List.append_nil] at this

/-- The heap has grown by a used block at the top, or the block at the top has grown. -/
theorem allocates_top (hr : Rep h bs) (h₁ : Heap) (hbase : h₁.heapbase = h.heapbase)
    (hr₁ : Rep h₁ (pre ++ [⟨k, some n⟩]))
    (hmem : ∀ x, x < stop Block.len h.heapbase pre → h₁.mem x = h.mem x)
    (hused : used h.heapbase bs = used h.heapbase pre) (hq : q + 1 ≤ k) (hn : n ≤ q * 8) :
    ∃ h', mallocSplit h₁ (stop Block.len h.heapbase pre) (q * 8) = .ok h' ∧
      ∃ bs', Allocates h bs h' (stop Block.len h.heapbase pre) n bs' := by
  obtain ⟨h', k', rest, hsplit, hbase', hrest, hr', hmem'⟩ := split_top hr₁ hq hn
  rw [hbase] at hsplit hmem'
  have hbelow : ∀ x b, (x, b) ∈ used h.heapbase bs →
      x + b.len ≤ stop Block.len h.heapbase pre := by
    intro x b hb
    rw [hused] at hb
    exact (bounds_of_mem (mem_used.mp hb).1).2
  refine ⟨h', hsplit, _, hr', hbase'.trans hbase, ?_, fun p j hp => ?_, ?_⟩
  · refine mem_users_insert (k := k') (l := used h.heapbase pre) (r := [])
      (by rw [hused, List.append_nil]) ?_
    rw [used_append, used_some, used_remainder hrest]
  · obtain ⟨x, b, hb, hu, rfl⟩ := mem_users.mp hp
    have hle := hbelow x b hb
    have hlen := hr.headers.len_pos (mem_of_mem_located (mem_used.mp hb).1)
    intro hx
    have := data_inj hx
    omega
  · intro x b hb y _ hy
    have hle := hbelow x b hb
    rw [hmem' y (by omega), hmem y (by omega)]

/-- `sbrk` fails, or returns the break and moves it up. -/
theorem sbrk_grows (h : Heap) (ok : Bool) {size : ℕ} (hsize : size < 2 ^ 31) :
    ¬(ok = true ∧ h.brk + size < 2 ^ 32) ∧ sbrk h ok size = (h, failed) ∨
      (ok = true ∧ h.brk + size < 2 ^ 32) ∧
        sbrk h ok size = ({ h with brk := h.brk + size }, h.brk) := by
  rw [sbrk, if_pos hsize]
  split
  · next hok => exact Or.inr ⟨hok, rfl⟩
  · next hok => exact Or.inl ⟨hok, rfl⟩

/-- Where `sbrk` returns -1 it has changed nothing. The break itself is never at the address that -1
stands for. -/
theorem sbrk_failed {ok : Bool} {size : ℕ} (hs : (sbrk h ok size).2 = failed)
    (hbrk : h.brk ≠ failed) : sbrk h ok size = (h, failed) := by
  rw [sbrk] at hs ⊢
  split
  · rw [if_pos (by assumption)] at hs
    split
    · rw [if_pos (by assumption)] at hs
      exact absurd hs hbrk
    · rfl
  · rw [if_neg (by assumption)] at hs
    split
    · rw [if_pos (by assumption)] at hs
      exact absurd hs hbrk
    · rfl

/-- The break is aligned, and the address that -1 stands for is not. -/
theorem Laid.brk_ne_failed (hl : Laid h bs) : h.brk ≠ failed := by
  have := stop_mod h.heapbase bs
  rw [← hl.top, hl.aligned, ← hl.brk] at this
  rw [failed]
  omega

/-- The same of `__malloc_sbrk`. -/
theorem mallocSbrk_failed {ok : Bool} {size : ℕ} (hs : sbrk h ok size = (h, failed)) :
    mallocSbrk h ok size = .ok (h, none) := by
  rw [mallocSbrk, hs]
  exact if_pos rfl

/-- **`__malloc_sbrk`** refuses, or moves the top by what was asked for. That the break is at the
top, as the code asserts, is part of `Laid`. -/
theorem mallocSbrk_spec (hl : Laid h bs) (ok : Bool) {size : ℕ} (hsize : size < 2 ^ 31) :
    mallocSbrk h ok size = .ok (h, none) ∨ h.heaptop + size < 2 ^ 32 ∧
      mallocSbrk h ok size = .ok
        ({ h with brk := h.heaptop + size, heaptop := h.heaptop + size }, some h.heaptop) := by
  rcases sbrk_grows h ok hsize with ⟨-, hs⟩ | ⟨⟨-, hroom⟩, hs⟩
  · exact Or.inl (mallocSbrk_failed hs)
  · have hne := hl.brk_ne_failed
    rw [hl.brk] at hroom hs hne
    rw [mallocSbrk, hs]
    dsimp only
    rw [if_neg hne, if_neg (fun hne => hne rfl), Nat.mod_eq_of_lt hroom]
    exact Or.inr ⟨hroom, rfl⟩

/-- Rounding to pages, if that does not wrap around to nothing. -/
theorem roundPage_spec {v : ℕ} (hv : v ≤ 2 ^ 32) (hpos : 0 < mallocGrow.roundPage v) :
    ∃ j, mallocGrow.roundPage v = j * 8 ∧ v ≤ j * 8 ∧ 2 ≤ j := by
  rw [mallocGrow.roundPage, pageSize] at hpos ⊢
  exact ⟨512 * ((v + 4095) % 2 ^ 32 / 4096) % 2 ^ 29, by omega, by omega, by omega⟩

end Rep

end Malloc

end Os161
