import Os161.Libc.MallocHeap

/-!
# Growing the heap, and the call of `malloc`

What `malloc` does when no free block is large enough: it asks `sbrk` for more, in whole pages, and
serves the request from the top of the heap. With that, the whole call: `mallocBody` is `malloc`
after its first lines, and `mallocInit` is what the first call does before.

## How much is asked for

A free block at the top is made longer, so that only what it lacks is asked for (`shortage`);
otherwise a new block is put behind the last one, with its header. The increment is that, rounded up
to pages in 32-bit arithmetic, which may wrap: a request near `2 ^ 32` can ask `sbrk` for nothing at
all, or for a number that `sbrk` takes as negative. `Suits` lists the cases in which a request is
served as it should be, or refused; what happens in the others is not said here but in
`Libc.MallocAny`, which does without them.

## How it composes

`mallocGrow_top` runs this part of `malloc` as far as the call of `sbrk`, with a free block at
the top; `mallocGrow_free` and `mallocGrow_used` are the two cases with their result, and
`mallocGrow_spec` puts them together. `mallocBody_spec` adds the search.

## Main definitions

* `shortage`, `increment`
* `Suits` — the heap serves the request
* `begun`, `Ready` — the heap that the first call finds, and that `sbrk` serves it

## Main results

* `mallocGrow_spec`, `mallocBody_spec`, `mallocInit_spec`
-/

namespace Os161

namespace Malloc

open Tiling

section Rep

variable {h h' : Heap} {a m k n q : ℕ} {b c : Block} {bs pre mid mid' post rest : List Block}

/-! ### How much memory is asked for -/

/-- A size in whole blocks. The sum wraps, so that a size above `2 ^ 32 - 8` is rounded to 0. -/
def roundBlock (size : ℕ) : ℕ := (size + mblocksize - 1) % 2 ^ 32 / mblocksize * mblocksize

/-- What is missing for a block of this size at the top, where a free block is used. -/
def shortage (bs : List Block) (size : ℕ) : ℕ :=
  match bs.getLast? with
  | some ⟨k, none⟩ => size - (k * 8 - 8)
  | _ => mblocksize + size

/-- The increment `sbrk` is called with, as an unsigned number: pages, again rounded in 32 bits. -/
def increment (bs : List Block) (size : ℕ) : ℕ :=
  mallocGrow.roundPage (shortage bs (roundBlock size))

/-- When a heap of the blocks `bs` serves a request. -/
inductive Suits (h : Heap) (bs : List Block) (ok : Bool) (size : ℕ) : Prop
  /-- A free block has room for it. -/
  | fits (b : Block) (hb : b ∈ bs) (hu : b.user = none) (hsize : size + 8 ≤ b.len)
  /-- Its size is one after rounding as well, and the increment is positive. -/
  | grows (hsize : size + 8 ≤ 2 ^ 32) (hpos : 0 < increment bs size)
      (hlt : increment bs size < 2 ^ 31)
  /-- `sbrk` refuses the increment. -/
  | refused (hnone : ∀ b ∈ bs, b.user = none → b.len < roundBlock size + 8)
      (hsbrk : (sbrk h ok (increment bs size)).2 = failed)

/-- A heap with a used block put at its top, over some of the blocks it had. -/
theorem Laid.push (hl : Laid h bs) (hsub : ∀ b ∈ pre, b ∈ bs)
    (hpre : Headers h.mem h.heapbase 0 pre) (hapart : pre.IsChain Apart) (hk : 2 ≤ k)
    (hn : n + 8 ≤ k * 8) (hbase : h'.heapbase = h.heapbase)
    (htop : h'.heaptop = stop Block.len h.heapbase pre + k * 8) (hbrk : h'.brk = h'.heaptop)
    (hbound : h'.heaptop < 2 ^ 32)
    (hmem : ∀ x, x < stop Block.len h.heapbase pre → h'.mem x = h.mem x)
    (hnew : h'.mem (stop Block.len h.heapbase pre) = hdr (lastNext 0 pre) ⟨k, some n⟩) :
    Rep h' (pre ++ [⟨k, some n⟩]) := by
  refine ⟨⟨?_, ?_, ?_, hbrk, hbound, ?_, ?_, ?_⟩, ?_⟩
  · rw [hbase]
    exact hl.base_pos
  · rw [hbase]
    exact hl.aligned
  · rw [htop, hbase, stop_append]
    rfl
  · rw [hbase]
    refine headers_append.mpr ⟨hpre.congr_of_bounds fun x _ hx => hmem x hx, hnew, ?_, trivial⟩
    exact Nat.le_of_succ_le hk
  · intro c hc i hi
    rcases List.mem_append.mp hc with hc | hc
    · exact hl.fits c (hsub c hc) i hi
    · rw [List.mem_singleton.mp hc] at hi ⊢
      obtain rfl := Option.some.inj hi
      exact hn
  · rw [List.getLast?_concat]
    rintro c ⟨⟩
    exact hk
  · have := isChain_used (k := k) (n := n) hapart List.IsChain.nil (by simp) (Or.inl rfl)
    rwa [List.append_nil] at this

/-- After a search that went past all blocks, `mh` is the last of them. -/
theorem lastHeader_concat {o : Option ℕ} :
    lastHeader o a (pre ++ [b]) = some (stop Block.len a pre) := by
  induction pre generalizing o a with
  | nil => rfl
  | cons c pre ih => exact ih

/-- Where the free block at the top ends. -/
theorem Rep.top_free (hr : Rep h (pre ++ [⟨k, none⟩])) :
    h.heaptop = stop Block.len h.heapbase pre + k * 8 := by
  rw [hr.top, stop_append]
  rfl

/-- The end of `malloc` if the block at the top is free: the call of `sbrk` for what that block
lacks, and the block made longer and marked in use. -/
theorem mallocGrow_top (hr : Rep h (pre ++ [⟨k, none⟩])) (hk : k * 8 - 8 < q * 8)
    (hq : q * 8 < 2 ^ 32) {ok : Bool} {prev : ℕ} :
    mallocGrow h ok (q * 8) (some (stop Block.len h.heapbase pre)) prev = (do
      match ← mallocSbrk h ok (mallocGrow.roundPage (q * 8 - (k * 8 - 8))) with
      | (h, none) => .ok (h, 0)
      | (h', some _) => do
          let h' := h'.modify (stop Block.len h.heapbase pre) fun m =>
            { m with
              mhNextblock := mkfield
                (m.nextoff + mallocGrow.roundPage (q * 8 - (k * 8 - 8)))
              mhInuse := true }
          let h' ← mallocSplit h' (stop Block.len h.heapbase pre) (q * 8)
          .ok (h', data (stop Block.len h.heapbase pre))) := by
  have htop := hr.top_free
  have hbound := hr.bound
  obtain ⟨-, hm, hk1, -⟩ := headers_append.mp hr.headers
  have hk1 : 1 ≤ k := hk1
  have hsize : (h.mem (stop Block.len h.heapbase pre)).size = k * 8 - 8 := by
    rw [hm]
    exact hdr_size hk1 (show k * 8 < 2 ^ 32 by omega)
  have hfree : freeTop h (some (stop Block.len h.heapbase pre)) =
      some (stop Block.len h.heapbase pre) := by
    simp [freeTop, hm, hdr]
  have hsub : sub32 (q * 8) (k * 8 - 8) = q * 8 - (k * 8 - 8) := sub32_of_le (by omega) (by omega)
  rw [mallocGrow, hfree]
  dsimp only
  rewrite [hsize, if_neg (by omega), hsub]
  rfl

/-- The block at the top is free: it grows, and the request is served from it. If `sbrk` refuses,
the heap stays as it is. -/
theorem mallocGrow_free (hr : Rep h (pre ++ [⟨k, none⟩])) (hk : k * 8 - 8 < q * 8) (hn : n ≤ q * 8)
    (hq : q * 8 < 2 ^ 32) {ok : Bool} (hpos : 0 < mallocGrow.roundPage (q * 8 - (k * 8 - 8)))
    (hlt : mallocGrow.roundPage (q * 8 - (k * 8 - 8)) < 2 ^ 31) (prev : ℕ) :
    mallocGrow h ok (q * 8) (some (stop Block.len h.heapbase pre)) prev = .ok (h, 0) ∨
    ∃ h' bs', mallocGrow h ok (q * 8) (some (stop Block.len h.heapbase pre)) prev =
        .ok (h', data (stop Block.len h.heapbase pre)) ∧
      Allocates h (pre ++ [⟨k, none⟩]) h' (stop Block.len h.heapbase pre) n bs' := by
  have htop := hr.top_free
  have hbound := hr.bound
  obtain ⟨hpre, hm, hk1, -⟩ := headers_append.mp hr.headers
  have hk1 : 1 ≤ k := hk1
  obtain ⟨j, hj, hle, hj2⟩ := roundPage_spec (by omega) hpos
  rw [mallocGrow_top hr hk hq]
  rw [hj] at hlt ⊢
  rcases mallocSbrk_spec hr.toLaid ok hlt with hs | ⟨hroom, hs⟩
  · rw [hs]
    exact Or.inl rfl
  rw [hs]
  right
  -- the new length fits into the field of the header
  have hfield : mkfield ((h.mem (stop Block.len h.heapbase pre)).nextoff + j * 8) = k + j := by
    rw [hm, hdr_nextoff, show Block.len ⟨k, none⟩ = k * 8 from rfl, mkfield_of_lt (by omega)]
    omega
  let h₁ : Heap := { h with brk := h.heaptop + j * 8, heaptop := h.heaptop + j * 8 }
  let h₂ := h₁.modify (stop Block.len h.heapbase pre) fun m =>
    { m with mhNextblock := mkfield (m.nextoff + j * 8), mhInuse := true }
  have hnew : h₂.mem (stop Block.len h.heapbase pre) = hdr (lastNext 0 pre) ⟨k + j, some n⟩ := by
    rw [modify_self]
    change { h.mem (stop Block.len h.heapbase pre) with
      mhNextblock := mkfield ((h.mem (stop Block.len h.heapbase pre)).nextoff + j * 8)
      mhInuse := true } = _
    rw [hfield, hm]
    rfl
  -- what `__malloc_split` is given is a heap whose last block has the user and the whole increment
  have hr₂ : Rep h₂ (pre ++ [⟨k + j, some n⟩]) := by
    refine hr.push (fun b hb => List.mem_append_left _ hb) hpre (List.isChain_append.mp hr.apart).1
      (by omega) (by omega) rfl ?_ rfl hroom (fun x hx => modify_of_ne (by omega)) hnew
    change h.heaptop + j * 8 = _
    omega
  obtain ⟨h', hsplit, bs', halloc⟩ := allocates_top (q := q) hr h₂ rfl hr₂
    (fun x hx => modify_of_ne (by omega)) (by simp) (by omega) hn
  refine ⟨h', bs', ?_, halloc⟩
  change (mallocSplit h₂ _ _ >>= fun h => .ok (h, _)) = _
  rw [hsplit]
  rfl

/-- There is no free block at the top: a new one is made behind the last one, with a header that
points back to it, and the request is served from it. -/
theorem mallocGrow_used {o : Option ℕ} (hr : Rep h bs) (hfree : freeTop h o = none)
    (hn : n ≤ q * 8) (hq : q * 8 < 2 ^ 32) {ok : Bool}
    (hpos : 0 < mallocGrow.roundPage (mblocksize + q * 8))
    (hlt : mallocGrow.roundPage (mblocksize + q * 8) < 2 ^ 31) :
    mallocGrow h ok (q * 8) o (lastNext 0 bs) = .ok (h, 0) ∨
    ∃ h' bs', mallocGrow h ok (q * 8) o (lastNext 0 bs) = .ok (h', data h.heaptop) ∧
      Allocates h bs h' h.heaptop n bs' := by
  have hbound := hr.bound
  have h8 : mblocksize + q * 8 ≤ 2 ^ 32 := by
    rw [mblocksize]
    omega
  obtain ⟨j, hj, hle, hj2⟩ := roundPage_spec h8 hpos
  rw [mblocksize] at hle
  rw [mallocGrow, hfree]
  dsimp only
  rw [hj] at hlt ⊢
  rcases mallocSbrk_spec hr.toLaid ok hlt with hs | ⟨hroom, hs⟩
  · rw [hs]
    exact Or.inl rfl
  rw [hs]
  right
  -- so does the offset back to the last block
  have hlast : lastNext 0 bs < 2 ^ 29 := by
    rcases List.eq_nil_or_concat bs with rfl | ⟨pre, b, rfl⟩
    · exact Nat.two_pow_pos 29
    · have htop := hr.top
      rw [List.concat_eq_append, stop_append, stop_cons, stop_nil, Block.len] at htop
      rw [List.concat_eq_append, lastNext_append]
      change b.next < 2 ^ 29
      omega
  have hfield : mkfield (j * 8) = j := by
    rw [mkfield_of_lt (by omega)]
    omega
  let h₁ : Heap := { h with brk := h.heaptop + j * 8, heaptop := h.heaptop + j * 8 }
  let h₂ := h₁.modify h.heaptop fun _ =>
    { mhPrevblock := lastNext 0 bs % 2 ^ 29, mhPad := false, mhMagic1 := mmagic,
      mhNextblock := mkfield (j * 8), mhInuse := true, mhMagic2 := mmagic }
  have hmem : ∀ x, x < stop Block.len h.heapbase bs → h₂.mem x = h.mem x := by
    intro x hx
    rw [← hr.top] at hx
    exact modify_of_ne (by omega)
  have hnew : h₂.mem (stop Block.len h.heapbase bs) = hdr (lastNext 0 bs) ⟨j, some n⟩ := by
    rw [← hr.top, modify_self, Nat.mod_eq_of_lt hlast, hfield]
    rfl
  have hr₂ : Rep h₂ (bs ++ [⟨j, some n⟩]) := by
    refine hr.push (fun b hb => hb) hr.headers hr.apart hj2 (by omega) rfl ?_ rfl hroom hmem hnew
    rw [← hr.top]
    rfl
  rw [hr.top]
  obtain ⟨h', hsplit, bs', halloc⟩ := allocates_top (q := q) hr h₂ rfl hr₂ hmem rfl (by omega) hn
  refine ⟨h', bs', ?_, halloc⟩
  rw [← hr.top] at hsplit ⊢
  change (mallocSplit h₂ _ _ >>= fun h => .ok (h, _)) = _
  rw [hsplit]
  rfl

/-- There are fewer blocks than bytes, so the loop over the blocks has fuel enough. -/
theorem Laid.length_le (hl : Laid h bs) : bs.length < h.heaptop - h.heapbase + 1 := by
  have hlen : ∀ (bs : List Block) (a prev : ℕ), Headers h.mem a prev bs →
      a + bs.length ≤ stop Block.len a bs := by
    intro bs
    induction bs with
    | nil => exact fun a _ _ => Nat.le_refl a
    | cons b bs ih =>
      intro a prev hbs
      have h8 := hbs.len_pos List.mem_cons_self
      have := ih (a + b.len) b.next hbs.2.2
      rw [stop_cons, List.length_cons]
      omega
  have := hlen bs _ _ hl.headers
  rw [hl.top]
  omega

/-- The heap does not end before it begins. -/
theorem Laid.base_le_top (hl : Laid h bs) : h.heapbase ≤ h.heaptop := by
  rw [hl.top]
  exact le_stop

/-- The rounding of `malloc`, with the constants put in. -/
theorem roundBlock_eq (size : ℕ) : roundBlock size = (size + 7) % 2 ^ 32 / 8 * 8 := rfl

/-- Below a free block at the top, only what it lacks. -/
theorem shortage_concat_none {size : ℕ} :
    shortage (pre ++ [⟨k, none⟩]) size = size - (k * 8 - 8) := by
  rw [shortage, List.getLast?_concat]

/-- Behind a block in use, the size and a header. -/
theorem shortage_concat_some {size : ℕ} :
    shortage (pre ++ [⟨k, some n⟩]) size = mblocksize + size := by
  rw [shortage, List.getLast?_concat]

/-- The last header the search has seen is free, or there is a new block. -/
theorem freeTop_concat_some (hr : Rep h (pre ++ [⟨k, some n⟩])) :
    freeTop h (some (stop Block.len h.heapbase pre)) = none := by
  have hm := (headers_append.mp hr.headers).2.1
  simp [freeTop, hm, hdr]

/-- **The heap grows** for a request that no block has room for: the two cases, told apart by the
last block, which is where the search has stopped. -/
theorem mallocGrow_spec (hr : Rep h bs) (hall : ∀ b ∈ bs, Passed (q * 8) b) (hn : n ≤ q * 8)
    (hq : q * 8 < 2 ^ 32) {ok : Bool} (hpos : 0 < mallocGrow.roundPage (shortage bs (q * 8)))
    (hlt : mallocGrow.roundPage (shortage bs (q * 8)) < 2 ^ 31) :
    mallocGrow h ok (q * 8) (lastHeader none h.heapbase bs) (lastNext 0 bs) = .ok (h, 0) ∨
    ∃ h' m bs', mallocGrow h ok (q * 8) (lastHeader none h.heapbase bs) (lastNext 0 bs) =
        .ok (h', data m) ∧ Allocates h bs h' m n bs' := by
  rcases List.eq_nil_or_concat bs with rfl | ⟨pre, b, rfl⟩
  · rcases mallocGrow_used (o := none) hr rfl hn hq hpos hlt with hg | ⟨h', bs', hg, halloc⟩
    · exact Or.inl hg
    · exact Or.inr ⟨h', _, bs', hg, halloc⟩
  · rw [List.concat_eq_append] at hr hall hpos hlt ⊢
    rw [lastHeader_concat]
    obtain ⟨k, u⟩ := b
    cases u with
    | some n' =>
      rw [shortage_concat_some] at hpos hlt
      rcases mallocGrow_used hr (freeTop_concat_some hr) hn hq hpos hlt with
        hg | ⟨h', bs', hg, halloc⟩
      · exact Or.inl hg
      · exact Or.inr ⟨h', _, bs', hg, halloc⟩
    | none =>
      have hpass : Passed (q * 8) ⟨k, none⟩ :=
        hall _ (List.mem_append_right _ List.mem_cons_self)
      have hk : k * 8 - 8 < q * 8 := hpass.resolve_left (by simp)
      rw [shortage_concat_none] at hpos hlt
      rcases mallocGrow_free hr hk hn hq hpos hlt (lastNext 0 (pre ++ [⟨k, none⟩])) with
        hg | ⟨h', bs', hg, halloc⟩
      · exact Or.inl hg
      · exact Or.inr ⟨h', _, bs', hg, halloc⟩

/-- If `__malloc_sbrk` returns memory it is at the old top. Nothing is assumed about the size, so
the new top is a 32-bit sum that may wrap. -/
theorem mallocSbrk_some {ok : Bool} {size p : ℕ}
    (hs : mallocSbrk h ok size = .ok (h', some p)) :
    p = h.heaptop ∧ h'.heaptop = (h.heaptop + size) % 2 ^ 32 ∧ (sbrk h ok size).2 ≠ failed := by
  have hsbrk : (sbrk h ok size).1.heaptop = h.heaptop := by
    rw [sbrk]
    split
    · split <;> rfl
    · split <;> rfl
  rw [mallocSbrk] at hs
  dsimp only at hs
  split at hs
  · cases hs
  · next hne =>
    split at hs
    · cases hs
    · next htop =>
      obtain ⟨rfl, hp⟩ := Prod.mk.inj (Except.ok.inj hs)
      obtain rfl := Option.some.inj hp
      rw [hsbrk] at htop
      exact ⟨not_not.mp htop, by rw [hsbrk], hne⟩

/-- Two computations that begin alike and go on alike from what may come out. -/
theorem bind_congr_of_ok {α β : Type} {x : Except Exit α} {f g : α → Except Exit β}
    (h : ∀ a, x = .ok a → f a = g a) : x >>= f = x >>= g := by
  cases x with
  | error e => rfl
  | ok a => exact h a rfl

/-- The end of `malloc` as one term: the header of a block that is not below the top is written, and
the block is split. -/
theorem mallocGrow_eq (hr : Rep h bs) (hall : ∀ b ∈ bs, Passed (q * 8) b) (hq : q * 8 < 2 ^ 32)
    (ok : Bool) : ∃ (m : ℕ) (f : Heap → Heap), (∀ h', (f h').heaptop = h'.heaptop) ∧
      h.heaptop < data m + q * 8 ∧
      mallocGrow h ok (q * 8) (lastHeader none h.heapbase bs) (lastNext 0 bs) = (do
        match ← mallocSbrk h ok (mallocGrow.roundPage (shortage bs (q * 8))) with
        | (h, none) => .ok (h, 0)
        | (h', some _) => do
            let h' ← mallocSplit (f h') m (q * 8)
            .ok (h', data m)) := by
  have hused : ∀ o : Option ℕ, freeTop h o = none → ∃ (m : ℕ) (f : Heap → Heap),
      (∀ h', (f h').heaptop = h'.heaptop) ∧ h.heaptop < data m + q * 8 ∧
      mallocGrow h ok (q * 8) o (lastNext 0 bs) = (do
        match ← mallocSbrk h ok (mallocGrow.roundPage (mblocksize + q * 8)) with
        | (h, none) => .ok (h, 0)
        | (h', some _) => do
            let h' ← mallocSplit (f h') m (q * 8)
            .ok (h', data m)) := by
    intro o ho
    rw [mallocGrow, ho]
    generalize mallocGrow.roundPage (mblocksize + q * 8) = more
    refine ⟨h.heaptop, fun h' => h'.modify h.heaptop fun _ =>
      { mhPrevblock := lastNext 0 bs % 2 ^ 29, mhPad := false, mhMagic1 := mmagic,
        mhNextblock := mkfield more, mhInuse := true, mhMagic2 := mmagic }, fun _ => rfl, ?_, ?_⟩
    · rw [data, mblocksize]
      omega
    · refine bind_congr_of_ok ?_
      rintro ⟨h', _ | p⟩ hs
      · rfl
      · obtain ⟨rfl, -⟩ := mallocSbrk_some hs
        rfl
  rcases List.eq_nil_or_concat bs with rfl | ⟨pre, b, rfl⟩
  · exact hused none rfl
  · rw [List.concat_eq_append] at hr hall hused ⊢
    rw [lastHeader_concat]
    obtain ⟨k, u⟩ := b
    cases u with
    | some n' =>
      rw [shortage_concat_some]
      exact hused _ (freeTop_concat_some hr)
    | none =>
      have hpass : Passed (q * 8) ⟨k, none⟩ :=
        hall _ (List.mem_append_right _ List.mem_cons_self)
      have hk : k * 8 - 8 < q * 8 := hpass.resolve_left (by simp)
      have htop := hr.top_free
      rw [shortage_concat_none]
      refine ⟨stop Block.len h.heapbase pre, fun h' => h'.modify (stop Block.len h.heapbase pre)
        fun m => { m with
          mhNextblock := mkfield (m.nextoff + mallocGrow.roundPage (q * 8 - (k * 8 - 8)))
          mhInuse := true }, fun _ => rfl, ?_, mallocGrow_top hr hk hq⟩
      rw [data, mblocksize]
      omega

/-- `malloc` up to the end of the search. -/
theorem mallocBody_eq (hr : Rep h bs) (ok : Bool) (n : ℕ) :
    (∃ pre k post, bs = pre ++ ⟨k, none⟩ :: post ∧ roundBlock n + 8 ≤ k * 8 ∧
      mallocBody h ok n =
        mallocFound h ok (roundBlock n) (.block (stop Block.len h.heapbase pre))) ∨
    (∀ b ∈ bs, Passed (roundBlock n) b) ∧
      mallocBody h ok n = mallocGrow h ok (roundBlock n) (lastHeader none h.heapbase bs)
        (lastNext 0 bs) := by
  have hbase := hr.base_pos
  have htop := hr.base_le_top
  have hbody : mallocBody h ok n = (search h (roundBlock n) (h.heaptop - h.heapbase + 1) h.heapbase
      none 0 >>= mallocFound h ok (roundBlock n)) := if_neg (by omega)
  rw [hbody]
  rcases search_spec (roundBlock n) none hr.headers hr.top hr.bound hr.length_le with
    ⟨pre, b, post, rfl, hb, hs⟩ | ⟨hall, hs⟩
  · obtain ⟨hu, hlen⟩ := not_or.mp hb
    obtain ⟨k, u⟩ := b
    obtain rfl : u = none := Option.not_isSome_iff_eq_none.mp hu
    have hk : 1 ≤ k := hr.headers.pos (List.mem_append_right _ List.mem_cons_self)
    have hlen : ¬k * 8 - 8 < roundBlock n := hlen
    refine Or.inl ⟨pre, k, post, rfl, by omega, ?_⟩
    rw [hs]
    rfl
  · refine Or.inr ⟨hall, ?_⟩
    rw [hs]
    exact if_neg fun hne => hne rfl

/-- **A request that suits** is refused without a trace, or it is allocated. -/
theorem mallocBody_spec (hr : Rep h bs) (hn : n < 2 ^ 32) {ok : Bool} (hsuits : Suits h bs ok n) :
    mallocBody h ok n = .ok (h, 0) ∨
    ∃ h' m bs', mallocBody h ok n = .ok (h', data m) ∧ Allocates h bs h' m n bs' := by
  obtain ⟨q, hq⟩ : ∃ q, roundBlock n = q * 8 := ⟨_, roundBlock_eq n⟩
  have hround := roundBlock_eq n
  rcases mallocBody_eq hr ok n with ⟨pre, k, post, rfl, hk, hbody⟩ | ⟨hall, hbody⟩
  · -- a block that is free and big enough
    have hbound := hr.bound
    have htop := hr.top
    have hmem : (⟨k, none⟩ : Block) ∈ pre ++ ⟨k, none⟩ :: post :=
      List.mem_append_right _ List.mem_cons_self
    have hnq : n ≤ q * 8 := by
      cases hsuits with
      | fits b hb hu hsize =>
        have hbounds := len_le_stop Block.len h.heapbase hb
        omega
      | grows hsize => omega
      | refused hnone =>
        have hlt : k * 8 < roundBlock n + 8 := hnone _ hmem rfl
        omega
    obtain ⟨h', hsplit, bs', halloc⟩ := allocates_found (q := q) hr (by omega) hnq
    refine Or.inr ⟨_, _, bs', ?_, halloc⟩
    rw [hbody, hq, mallocFound, hsplit]
    rfl
  · rw [hbody]
    rw [hq] at hall ⊢
    cases hsuits with
    | fits b hb hu hsize =>
      have hbounds := len_le_stop Block.len h.heapbase hb
      have hbound := hr.bound
      have htop := hr.top
      have hpass : b.len - 8 < q * 8 := (hall b hb).resolve_left (by simp [hu])
      have hlen : b.len = b.next * 8 := rfl
      omega
    | grows hsize hpos hlt =>
      rw [increment, hq] at hpos hlt
      exact mallocGrow_spec hr hall (by omega) (by omega) hpos hlt
    | refused hnone hsbrk =>
      obtain ⟨m, f, -, -, hgrow⟩ := mallocGrow_eq hr hall (by omega) ok
      rw [increment, hq] at hsbrk
      rw [hgrow, mallocSbrk_failed (sbrk_failed hsbrk hr.toLaid.brk_ne_failed)]
      exact Or.inl rfl

/-- The ways initialisation may end the program: `sbrk` fails, or the heap would begin at 0. -/
def InitExit (e : Exit) : Prop := e = .initialSbrk ∨ e = .heapAtZero ∨ e = .alignSbrk

/-- The heap that is searched: the first call puts an empty one at the break, at the next multiple
of the block size. -/
def begun (h : Heap) : Heap :=
  if h.heapbase = 0 then
    { h with
      brk := (h.brk + 7) / 8 * 8
      heapbase := (h.brk + 7) / 8 * 8
      heaptop := (h.brk + 7) / 8 * 8 }
  else h

/-- The calls of `sbrk` in initialisation succeed, if there are any. -/
def Ready (h : Heap) (ok : ℕ → Bool) : Prop :=
  h.heapbase = 0 → ok 0 = true ∧ (h.brk % mblocksize ≠ 0 → ok 1 = true)

/-- **The first call** puts an empty heap at the break, rounded up to whole units, or it ends the
program, and then no heap could have begun there or `sbrk` has failed. -/
theorem mallocInit_spec (hbase : h.heapbase = 0) (htop : h.heaptop = 0) (ok : ℕ → Bool) :
    (∃ e, mallocInit h ok = .error e ∧ InitExit e ∧ (Ready h ok → ∀ bs, ¬Rep (begun h) bs)) ∨
    mallocInit h ok = .ok (begun h) ∧ Rep (begun h) [] ∧ Ready h ok := by
  have hempty : ∀ h' : Heap, 0 < h'.heapbase → h'.heapbase % 8 = 0 → h'.heaptop = h'.heapbase →
      h'.brk = h'.heaptop → h'.heaptop < 2 ^ 32 → Rep h' [] := fun h' h1 h2 h3 h4 h5 =>
    ⟨⟨h1, h2, h3, h4, h5, trivial, (by simp), (by simp)⟩, List.IsChain.nil⟩
  have hbegun : begun h = { h with
      brk := (h.brk + 7) / 8 * 8
      heapbase := (h.brk + 7) / 8 * 8
      heaptop := (h.brk + 7) / 8 * 8 } := if_pos hbase
  have hbounds : ∀ bs, Rep (begun h) bs → 0 < (h.brk + 7) / 8 * 8 ∧
      (h.brk + 7) / 8 * 8 < 2 ^ 32 := fun bs hr => by
    rw [hbegun] at hr
    exact ⟨hr.base_pos, hr.bound⟩
  rw [mallocInit, if_neg (by omega)]
  rcases sbrk_grows h (ok 0) (Nat.two_pow_pos 31) with ⟨hfail, hs⟩ | ⟨⟨hok, hroom⟩, hs⟩
  · rw [hs]
    refine Or.inl ⟨_, if_pos rfl, Or.inl rfl, fun hready bs hr => hfail ⟨(hready hbase).1, ?_⟩⟩
    have := (hbounds bs hr).2
    omega
  rw [hs]
  dsimp only [Nat.add_zero]
  by_cases hfail : h.brk = failed
  · refine Or.inl ⟨_, if_pos hfail, Or.inl rfl, fun _ bs hr => ?_⟩
    have := (hbounds bs hr).2
    rw [hfail, failed] at this
    omega
  rw [if_neg hfail]
  by_cases hzero : h.brk = 0
  · refine Or.inl ⟨_, if_pos hzero, Or.inr (Or.inl rfl), fun _ bs hr => ?_⟩
    have := (hbounds bs hr).1
    omega
  rw [if_neg hzero, mallocAlign]
  dsimp only
  by_cases halign : h.brk % mblocksize = 0
  · have hready : Ready h ok := fun _ => ⟨hok, fun hne => absurd halign hne⟩
    rw [if_neg fun hne => hne halign]
    rw [mblocksize] at halign
    have hup : (h.brk + 7) / 8 * 8 = h.brk := by omega
    rw [hbegun, hup]
    exact Or.inr ⟨rfl, hempty _ (Nat.pos_of_ne_zero hzero) halign rfl rfl hroom, hready⟩
  · rw [if_pos halign]
    have hne := halign
    rw [mblocksize] at halign
    have hup : (h.brk + 7) / 8 * 8 = h.brk + (8 - h.brk % 8) := by omega
    have hmod : h.brk % 8 < 8 := Nat.mod_lt _ (by decide)
    rcases sbrk_grows ({ h with heapbase := h.brk, heaptop := h.brk }) (ok 1)
        (show mblocksize - h.brk % mblocksize < 2 ^ 31 by rw [mblocksize]; omega) with
      ⟨hfail', hs'⟩ | ⟨⟨hok', hroom'⟩, hs'⟩
    · rw [hs']
      refine Or.inl ⟨_, if_pos rfl, Or.inr (Or.inr rfl), fun hready bs hr => ?_⟩
      refine hfail' ⟨(hready hbase).2 hne, ?_⟩
      have := (hbounds bs hr).2
      rw [mblocksize]
      dsimp only
      omega
    · rw [hs']
      rw [mblocksize] at hroom' ⊢
      dsimp only at hroom' ⊢
      rw [if_neg hfail, if_neg fun hne => hne rfl, hbegun, hup]
      exact Or.inr ⟨rfl, hempty _ (by dsimp only; omega) (by dsimp only; omega) rfl rfl hroom',
        fun _ => ⟨hok, fun _ => hok'⟩⟩

end Rep

end Malloc

end Os161
