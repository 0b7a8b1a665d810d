import Os161.Vm.Pageref
import Mathlib.Tactic.Ring
import Mathlib.Data.List.Perm.Subperm

/-!
# Heap pages

What `subpage_kmalloc` and `subpage_kfree` do to one heap page, and to the lists of heap pages.
`PageOk` says what the pageref of a page and the memory of the page have to do with each other: the
blocks on its free list are those named, and `nfree` is their number. Every piece of code has one
specification, which says that no assertion in it fails and what it changes.

## Main definitions

* `blocksOf` — the addresses of the blocks of a page
* `PageOk` — a page, its pageref and its free blocks
* `Lists` — the lists of heap pages, of all and of each block type

## Main results

* `doalloc_spec`, `setupPage_spec`, `freeBlock_spec`, `removeLists_spec`, `findPage_spec`,
  `findAddr_spec`
-/

namespace Os161

namespace Kmalloc

/-! ### The blocks of a page -/

theorem blocksize_spec {t : ℕ} (ht : t < nsizes) :
    16 ≤ blocksize t ∧ blocksize t ≤ 2048 ∧ pageSize / blocksize t * blocksize t = pageSize ∧
      blocksize t % 4 = 0 := by
  unfold nsizes at ht
  interval_cases t <;> decide

/-- The addresses of the blocks of a page. -/
def blocksOf (page t : ℕ) : List ℕ :=
  (List.range (pageSize / blocksize t)).map fun k => page + k * blocksize t

section Blocks

variable {page t a a' : ℕ}

theorem mem_blocksOf : a ∈ blocksOf page t ↔
    ∃ k < pageSize / blocksize t, page + k * blocksize t = a := by
  simp [blocksOf]

theorem length_blocksOf : (blocksOf page t).length = pageSize / blocksize t := by
  simp [blocksOf]

theorem blocksOf_bounds (ht : t < nsizes) (h : a ∈ blocksOf page t) :
    page ≤ a ∧ a + blocksize t ≤ page + pageSize := by
  obtain ⟨k, hk, rfl⟩ := mem_blocksOf.mp h
  obtain ⟨-, -, hn, -⟩ := blocksize_spec ht
  have hle : (k + 1) * blocksize t ≤ pageSize := by
    rw [← hn]
    exact Nat.mul_le_mul_right _ hk
  rw [Nat.add_one_mul] at hle
  omega

theorem blocksOf_apart (h : a ∈ blocksOf page t) (h' : a' ∈ blocksOf page t) (hne : a ≠ a') :
    a + blocksize t ≤ a' ∨ a' + blocksize t ≤ a := by
  obtain ⟨k, -, rfl⟩ := mem_blocksOf.mp h
  obtain ⟨k', -, rfl⟩ := mem_blocksOf.mp h'
  rcases Nat.lt_trichotomy k k' with hk | rfl | hk
  · left
    have := Nat.mul_le_mul_right (blocksize t) hk
    rw [Nat.add_one_mul] at this
    omega
  · exact absurd rfl hne
  · right
    have := Nat.mul_le_mul_right (blocksize t) hk
    rw [Nat.add_one_mul] at this
    omega

theorem nodup_blocksOf (ht : t < nsizes) : (blocksOf page t).Nodup := by
  refine List.nodup_range.map fun k k' hk => ?_
  have hpos : 0 < blocksize t := by
    have := (blocksize_spec ht).1
    omega
  exact Nat.eq_of_mul_eq_mul_right hpos (by simpa using hk)

/-- Some of the blocks of a page are all of them if there are as many. -/
theorem blocksOf_full {l : List ℕ} (hl : l.Nodup) (hsub : ∀ a ∈ l, a ∈ blocksOf page t) :
    l.length ≤ pageSize / blocksize t ∧
      (l.length = pageSize / blocksize t → ∀ a ∈ blocksOf page t, a ∈ l) := by
  have hsp : l.Subperm (blocksOf page t) := List.subperm_of_subset hl hsub
  refine ⟨(length_blocksOf : (blocksOf page t).length = _) ▸ hsp.length_le, fun hlen a ha => ?_⟩
  exact (hsp.perm_of_length_le (by rw [length_blocksOf, hlen])).mem_iff.mpr ha

/-- If there are fewer, one is missing. -/
theorem blocksOf_missing {l : List ℕ} (ht : t < nsizes) (hl : l.Nodup)
    (hsub : ∀ a ∈ l, a ∈ blocksOf page t) (hne : l.length ≠ pageSize / blocksize t) :
    ∃ a ∈ blocksOf page t, a ∉ l := by
  by_contra hall
  push Not at hall
  have hle := (List.subperm_of_subset (nodup_blocksOf ht) hall).length_le
  rw [length_blocksOf] at hle
  have := (blocksOf_full hl hsub).1
  omega

end Blocks

/-! ### One page -/

/-- The first block of the free list. -/
def Pageref.freelist (p : Pageref) : ℕ :=
  if p.freelistOffset = invalidOffset then 0 else p.pageaddr + p.freelistOffset

/-- A heap page whose free blocks are `free`. -/
structure PageOk (mem : ℕ → ℕ) (p : Pageref) (free : List ℕ) : Prop where
  blocktype : p.blocktype < nsizes
  pageaddr : p.pageaddr ≠ 0
  fits : p.pageaddr + pageSize < 2 ^ 32
  chain : Chain mem p.freelist free
  blocks : ∀ a ∈ free, a ∈ blocksOf p.pageaddr p.blocktype
  nfree : p.nfree = free.length

/-- Two states of a pageref that differ in what is free only. -/
def Pageref.SamePage (p q : Pageref) : Prop :=
  p.nextSamesize = q.nextSamesize ∧ p.nextAll = q.nextAll ∧
    p.pageaddrAndBlocktype = q.pageaddrAndBlocktype

theorem Pageref.SamePage.pageaddr {p q : Pageref} (h : p.SamePage q) : p.pageaddr = q.pageaddr := by
  unfold Pageref.pageaddr
  rw [h.2.2]

theorem Pageref.SamePage.blocktype {p q : Pageref} (h : p.SamePage q) :
    p.blocktype = q.blocktype := by
  unfold Pageref.blocktype
  rw [h.2.2]

section Page

variable {mem mem' : ℕ → ℕ} {p : Pageref} {free : List ℕ}

/-- Memory outside the free blocks is of no concern to a page. -/
theorem PageOk.congr (h : PageOk mem p free) (hm : ∀ a ∈ free, mem' a = mem a) :
    PageOk mem' p free :=
  { h with chain := h.chain.congr hm }

theorem PageOk.length_le (h : PageOk mem p free) :
    free.length ≤ pageSize / blocksize p.blocktype :=
  (blocksOf_full h.chain.nodup h.blocks).1

/-- The offset of the first free block. -/
theorem PageOk.offset {a : ℕ} (h : PageOk mem p (a :: free)) :
    p.freelistOffset < pageSize ∧ p.pageaddr + p.freelistOffset = a := by
  obtain ⟨hhead, ha, -⟩ := h.chain
  obtain ⟨hlo, hhi⟩ := blocksOf_bounds h.blocktype (h.blocks a List.mem_cons_self)
  have hsz := (blocksize_spec h.blocktype).1
  unfold Pageref.freelist at hhead
  by_cases hoff : p.freelistOffset = invalidOffset
  · rw [if_pos hoff] at hhead
    exact absurd hhead.symm ha
  · rw [if_neg hoff] at hhead
    exact ⟨by omega, hhead⟩

/-- The page with the free list after the first block. -/
theorem PageOk.tail {a nfree off : ℕ} (h : PageOk mem p (a :: free)) (hn : nfree = free.length)
    (hoff : (if off = invalidOffset then 0 else p.pageaddr + off) = mem a) :
    PageOk mem { p with nfree := nfree, freelistOffset := off } free where
  blocktype := h.blocktype
  pageaddr := h.pageaddr
  fits := h.fits
  chain := by
    have := h.chain.2.2
    rw [← hoff] at this
    exact this
  blocks := fun x hx => h.blocks x (List.mem_cons_of_mem _ hx)
  nfree := hn

/-- Taking a block: the first free one. -/
theorem doalloc_spec {h : Heap} {pr a : ℕ} (hp : PageOk h.mem (h.refs pr) (a :: free)) :
    ∃ p, doalloc h pr = .ok (h.setRef pr p, a) ∧ PageOk h.mem p free ∧
      p.SamePage (h.refs pr) := by
  obtain ⟨hoff, hadd⟩ := hp.offset
  have hlen : free.length + 1 ≤ 256 := by
    refine le_trans hp.length_le ?_
    exact Nat.div_le_of_le_mul (by
      have := (blocksize_spec hp.blocktype).1
      unfold pageSize
      omega)
  have hnf : ((h.refs pr).nfree + 0xffff) % 0x10000 = free.length := by
    rw [hp.nfree, List.length_cons]
    omega
  unfold doalloc
  simp only [kassert_pos hoff, ok_bind, hadd, hnf]
  by_cases hfl : h.mem a = 0
  · have hnil : free = [] := by
      have := hp.chain.2.2
      rw [hfl] at this
      exact this.eq_nil
    subst hnil
    rw [if_neg (by simpa using hfl)]
    simp only [List.length_nil, kassert_pos, ok_bind]
    refine ⟨_, rfl, hp.tail rfl ?_, rfl, rfl, rfl⟩
    rw [if_pos rfl, hfl]
  · obtain ⟨t, rfl, ht⟩ := hp.chain.2.2.eq_cons hfl
    obtain ⟨hlo, hhi⟩ := blocksOf_bounds hp.blocktype
      (hp.blocks (h.mem a) (List.mem_cons_of_mem _ List.mem_cons_self))
    have hsz := (blocksize_spec hp.blocktype).1
    have hfit := hp.fits
    have hsub := sub32_of_le hlo (by omega)
    have hlt : sub32 (h.mem a) (h.refs pr).pageaddr < pageSize := by omega
    rw [if_pos hfl]
    simp only [List.length_cons, Nat.zero_lt_succ, kassert_pos, ok_bind, kassert_pos hlt]
    refine ⟨_, rfl, hp.tail rfl ?_, rfl, rfl, rfl⟩
    rw [if_neg (by unfold invalidOffset; unfold pageSize at hlt; omega), hsub]
    omega

/-- Giving a block back: it becomes the first free one. -/
theorem freeBlock_spec {h : Heap} {pr a : ℕ} (hp : PageOk h.mem (h.refs pr) free)
    (ha : a ∈ blocksOf (h.refs pr).pageaddr (h.refs pr).blocktype) (hfree : a ∉ free) :
    ∃ mem p, freeBlock h pr a =
        .ok { h with mem := mem, refs := Function.update h.refs pr p } ∧
      PageOk mem p (a :: free) ∧ p.SamePage (h.refs pr) ∧
      ∀ x, (x < a ∨ a + blocksize (h.refs pr).blocktype ≤ x) → mem x = h.mem x := by
  obtain ⟨hlo, hhi⟩ := blocksOf_bounds hp.blocktype ha
  have hsz := (blocksize_spec hp.blocktype).1
  have hfit := hp.fits
  have hsub := sub32_of_le hlo (by omega)
  have hadd : (h.refs pr).pageaddr + (a - (h.refs pr).pageaddr) = a := by omega
  have hmod : (a - (h.refs pr).pageaddr) % blocksize (h.refs pr).blocktype = 0 := by
    obtain ⟨k, -, rfl⟩ := mem_blocksOf.mp ha
    rw [Nat.add_sub_cancel_left]
    exact Nat.mul_mod_left _ _
  -- the new free list: no block twice, so it is not longer than the page
  have hlen : free.length + 1 ≤ pageSize / blocksize (h.refs pr).blocktype :=
    (blocksOf_full (l := a :: free) (List.nodup_cons.mpr ⟨hfree, hp.chain.nodup⟩)
      (List.forall_mem_cons.mpr ⟨ha, hp.blocks⟩)).1
  have hn256 : pageSize / blocksize (h.refs pr).blocktype ≤ 256 := by
    refine Nat.div_le_of_le_mul ?_
    unfold pageSize
    omega
  have hnf : ((h.refs pr).nfree + 1) % 0x10000 = free.length + 1 := by
    rw [hp.nfree]
    omega
  have hself : (h.refs pr).freelistOffset = invalidOffset ∨ a ≠ (h.refs pr).freelist := by
    by_cases hoff : (h.refs pr).freelistOffset = invalidOffset
    · exact .inl hoff
    · refine .inr fun heq => hfree ?_
      have hne : (h.refs pr).freelist ≠ 0 := by
        rw [← heq]
        have := hp.pageaddr
        omega
      obtain ⟨t, rfl, -⟩ := hp.chain.eq_cons hne
      exact heq ▸ List.mem_cons_self
  unfold freeBlock
  simp only [hsub, hadd, hnf]
  have hself' : (h.refs pr).freelistOffset = invalidOffset ∨ a ≠
      if (h.refs pr).freelistOffset = invalidOffset then 0
      else (h.refs pr).pageaddr + (h.refs pr).freelistOffset := hself
  rw [kassert_pos (by unfold pageSize at *; omega), ok_bind,
    kassert_pos (e := .freeTwice) hself', ok_bind, kassert_pos hlen, ok_bind]
  refine ⟨_, _, rfl, ?_, ⟨rfl, rfl, rfl⟩, ?_⟩
  · refine ⟨hp.blocktype, hp.pageaddr, hp.fits, ?_, List.forall_mem_cons.mpr ⟨ha, hp.blocks⟩, rfl⟩
    have hhead : Pageref.freelist { h.refs pr with
        freelistOffset := a - (h.refs pr).pageaddr, nfree := free.length + 1 } = a := by
      have hoff : a - (h.refs pr).pageaddr ≠ invalidOffset := by
        unfold invalidOffset
        unfold pageSize at hhi
        omega
      unfold Pageref.freelist
      rw [if_neg hoff]
      exact hadd
    rw [hhead]
    refine hp.chain.push ?_ (fun x hx => ?_) (Function.update_self _ _ _)
    · have := hp.pageaddr
      omega
    · have hxa : x ≠ a := fun he => hfree (he ▸ hx)
      have hsep := blocksOf_apart (hp.blocks x hx) ha hxa
      rw [Function.update_of_ne hxa]
      unfold fillDeadbeef
      rw [if_neg (by omega)]
  · intro x hx
    rw [Function.update_of_ne (by omega)]
    unfold fillDeadbeef
    rw [if_neg (by omega)]

end Page

/-! ### A fresh page -/

/-- The loop that links the blocks, after `m` rounds. -/
theorem linkBlock_spec {fla size : ℕ} (hfla : fla ≠ 0) (hsize : 0 < size) (mem : ℕ → ℕ) (m : ℕ) :
    ∃ mem', (List.range' 1 m).foldlM (linkBlock fla size) (fla, Function.update mem fla 0) =
        .ok (fla + m * size, mem') ∧
      Chain mem' (fla + m * size) ((List.range (m + 1)).map fun k => fla + k * size).reverse ∧
      ∀ x, (∀ k ≤ m, x ≠ fla + k * size) → mem' x = mem x := by
  induction m with
  | zero =>
    refine ⟨Function.update mem fla 0, by simp; rfl, ?_, ?_⟩
    · simp [hfla]
    · intro x hx
      exact Function.update_of_ne (by simpa using hx 0 le_rfl) _ _
  | succ m ih =>
    obtain ⟨mem', hrun, hchain, hframe⟩ := ih
    have hlt : fla + m * size < fla + (m + 1) * size := by
      rw [Nat.add_one_mul]
      omega
    refine ⟨Function.update mem' (fla + (m + 1) * size) (fla + m * size), ?_, ?_, ?_⟩
    · rw [List.range'_concat, List.foldlM_append, hrun]
      simp only [ok_bind, List.foldlM_cons, List.foldlM_nil, linkBlock]
      rw [show 1 + 1 * m = m + 1 by ring, Nat.add_sub_cancel, kassert_pos (by omega)]
      rfl
    · rw [List.range_succ, List.map_append, List.reverse_append]
      refine hchain.push (by omega) (fun x hx => ?_) (Function.update_self _ _ _)
      obtain ⟨k, hk, rfl⟩ := List.mem_map.mp (List.mem_reverse.mp hx)
      refine Function.update_of_ne (fun he => ?_) _ _
      have hk' : k < m + 1 := List.mem_range.mp hk
      have := Nat.eq_of_mul_eq_mul_right hsize (Nat.add_left_cancel he)
      omega
    · intro x hx
      rw [Function.update_of_ne (hx (m + 1) le_rfl)]
      exact hframe x fun k hk => hx k (by omega)

theorem mkpab_pageaddr {pa t : ℕ} (hal : pa % pageSize = 0) :
    mkpab pa t / pageSize * pageSize = pa := by
  unfold mkpab
  unfold pageSize at *
  omega

theorem mkpab_blocktype {pa t : ℕ} (ht : t < nsizes) :
    mkpab pa t % pageSize = t := by
  unfold mkpab
  unfold pageSize nsizes at *
  omega

/-- A fresh page: all of its blocks are free, and it is first on both lists. -/
theorem setupPage_spec (h : Heap) (pr : ℕ) {prpage t : ℕ} (ht : t < nsizes) (h0 : prpage ≠ 0)
    (hal : prpage % pageSize = 0) (hfit : prpage + pageSize < 2 ^ 32) :
    ∃ mem p, setupPage h pr prpage t = .ok { h with
        mem := mem, refs := Function.update h.refs pr p,
        sizebases := Function.update h.sizebases t pr, allbase := pr } ∧
      PageOk mem p (blocksOf prpage t).reverse ∧ p.pageaddr = prpage ∧ p.blocktype = t ∧
      p.nextSamesize = h.sizebases t ∧ p.nextAll = h.allbase ∧
      ∀ x, (x < prpage ∨ prpage + pageSize ≤ x) → mem x = h.mem x := by
  obtain ⟨hlo, hhi, hmul, -⟩ := blocksize_spec ht
  have hnpos : 0 < pageSize / blocksize t := Nat.div_pos (by unfold pageSize; omega) (by omega)
  obtain ⟨m, hm⟩ : ∃ m, pageSize / blocksize t = m + 1 := ⟨pageSize / blocksize t - 1, by omega⟩
  obtain ⟨mem, hrun, hchain, hframe⟩ := linkBlock_spec h0 (by omega : 0 < blocksize t) h.mem m
  have hlast : m * blocksize t + blocksize t = pageSize := by
    rw [← Nat.add_one_mul, ← hm, hmul]
  have hsub : sub32 (prpage + m * blocksize t) prpage = m * blocksize t := by
    rw [sub32_of_le (by omega) (by omega)]
    omega
  have hm' : pageSize / blocksize t - 1 = m := by omega
  have hset : setupPage h pr prpage t = .ok { h with
      mem := mem
      refs := Function.update h.refs pr ⟨h.sizebases t, h.allbase, mkpab prpage t,
        m * blocksize t, pageSize / blocksize t⟩
      sizebases := Function.update h.sizebases t pr, allbase := pr } := by
    unfold setupPage
    generalize pageSize / blocksize t = n at hm' hrun ⊢
    rw [← hm'] at hrun hsub
    dsimp only
    rw [hrun, ok_bind]
    dsimp only
    rw [hsub, hm', kassert_pos rfl]
    rfl
  have haddr : ∀ n o f g, Pageref.pageaddr ⟨n, o, mkpab prpage t, f, g⟩ = prpage := by
    intro n o f g
    rw [Pageref.pageaddr, mkpab_pageaddr hal]
  have htype : ∀ n o f g, Pageref.blocktype ⟨n, o, mkpab prpage t, f, g⟩ = t := by
    intro n o f g
    rw [Pageref.blocktype, mkpab_blocktype ht]
  have hoff : m * blocksize t ≠ invalidOffset := by
    unfold invalidOffset
    unfold pageSize at hlast
    omega
  refine ⟨mem, _, hset, ⟨?_, ?_, ?_, ?_, ?_, ?_⟩, haddr _ _ _ _, htype _ _ _ _, rfl, rfl, ?_⟩
  · rw [htype]
    exact ht
  · rw [haddr]
    exact h0
  · rw [haddr]
    exact hfit
  · unfold Pageref.freelist
    rw [haddr, if_neg hoff]
    unfold blocksOf
    rw [hm]
    exact hchain
  · rw [haddr, htype]
    intro a ha
    exact List.mem_reverse.mp ha
  · rw [List.length_reverse, length_blocksOf]
  · intro x hx
    refine hframe x fun k hk => ?_
    have := Nat.mul_le_mul_right (blocksize t) hk
    omega

/-! ### The lists of heap pages -/

/-- The pagerefs of the heap pages, in the order of `next_all`. The lists by block type keep that
order. -/
structure Lists (h : Heap) (prs : List ℕ) : Prop where
  all : Chain h.nextAll h.allbase prs
  samesize : ∀ t < nsizes,
    Chain h.nextSamesize (h.sizebases t) (prs.filter fun p => (h.refs p).blocktype = t)

/-- The pagerefs differ in their links only, and the rest of the heap does not differ. -/
def Heap.Relinked (h h' : Heap) : Prop :=
  h'.mem = h.mem ∧ h'.kheaproots = h.kheaproots ∧
    ∀ p, (h'.refs p).pageaddrAndBlocktype = (h.refs p).pageaddrAndBlocktype ∧
      (h'.refs p).freelistOffset = (h.refs p).freelistOffset ∧ (h'.refs p).nfree = (h.refs p).nfree

section Lists

variable {h : Heap} {all : List ℕ}

/-- Changes to what is free on a page leave the lists alone. -/
theorem Lists.congr {h' : Heap} (hl : Lists h all) (hb : h'.allbase = h.allbase)
    (hs : h'.sizebases = h.sizebases) (hr : ∀ p ∈ all, (h'.refs p).SamePage (h.refs p)) :
    Lists h' all where
  all := hb ▸ hl.all.congr fun p hp => (hr p hp).2.1
  samesize := by
    intro t ht
    rw [List.filter_congr fun p hp => by rw [(hr p hp).blocktype], hs]
    exact (hl.samesize t ht).congr fun p hp => (hr p (List.mem_of_mem_filter hp)).1

/-- A new page is first on both of its lists. -/
theorem Lists.push {h' : Heap} {pr t : ℕ} {p : Pageref} (hl : Lists h all) (h0 : pr ≠ 0)
    (hpr : pr ∉ all) (hr : h'.refs = Function.update h.refs pr p) (hb : h'.allbase = pr)
    (hs : h'.sizebases = Function.update h.sizebases t pr) (ht : p.blocktype = t)
    (hsame : p.nextSamesize = h.sizebases t) (hall : p.nextAll = h.allbase) :
    Lists h' (pr :: all) := by
  have hself : h'.refs pr = p := by rw [hr, Function.update_self]
  have hother : ∀ q ∈ all, h'.refs q = h.refs q := by
    intro q hq
    have hne : q ≠ pr := fun he => hpr (he ▸ hq)
    rw [hr, Function.update_of_ne hne]
  constructor
  · rw [hb]
    refine hl.all.push h0 (fun q hq => ?_) ?_
    · unfold Heap.nextAll
      rw [hother q hq]
    · unfold Heap.nextAll
      rw [hself, hall]
  · intro t' ht'
    have hcongr : (all.filter fun q => (h'.refs q).blocktype = t') =
        all.filter fun q => (h.refs q).blocktype = t' :=
      List.filter_congr fun q hq => by rw [hother q hq]
    have hold : ∀ q ∈ all.filter fun q => (h.refs q).blocktype = t',
        h'.nextSamesize q = h.nextSamesize q := fun q hq => by
      unfold Heap.nextSamesize
      rw [hother q (List.mem_of_mem_filter hq)]
    by_cases htt : t' = t
    · subst htt
      rw [hs, Function.update_self, List.filter_cons_of_pos (by simpa [hself] using ht), hcongr]
      refine (hl.samesize t' ht').push h0 hold ?_
      unfold Heap.nextSamesize
      rw [hself, hsame]
    · have hne : ¬ (h'.refs pr).blocktype = t' := by
        rw [hself, ht]
        exact Ne.symm htt
      rw [hs, Function.update_of_ne htt, List.filter_cons_of_neg (by simpa using hne), hcongr]
      exact (hl.samesize t' ht').congr hold

theorem storeSamesize_spec (h : Heap) (t : ℕ) (guy : Link ℕ) (q : ℕ) :
    (h.storeSamesize t guy q).nextSamesize = guy.newNext h.nextSamesize q ∧
      (h.storeSamesize t guy q).sizebases =
        Function.update h.sizebases t (guy.newBase (h.sizebases t) q) ∧
      (h.storeSamesize t guy q).nextAll = h.nextAll ∧
      (h.storeSamesize t guy q).allbase = h.allbase ∧
      h.Relinked (h.storeSamesize t guy q) := by
  cases guy with
  | base => exact ⟨rfl, rfl, rfl, rfl, rfl, rfl, fun p => ⟨rfl, rfl, rfl⟩⟩
  | field p =>
    refine ⟨?_, (Function.update_eq_self _ _).symm, ?_, rfl, rfl, rfl, fun p' => ?_⟩
    · funext p'
      by_cases hp : p' = p
      · subst hp
        simp [Heap.nextSamesize, Heap.storeSamesize, Heap.setRef, Link.newNext]
      · simp [Heap.nextSamesize, Heap.storeSamesize, Heap.setRef, Link.newNext, hp]
    · funext p'
      by_cases hp : p' = p
      · subst hp
        simp [Heap.nextAll, Heap.storeSamesize, Heap.setRef]
      · simp [Heap.nextAll, Heap.storeSamesize, Heap.setRef, hp]
    · by_cases hp : p' = p
      · subst hp
        simp [Heap.storeSamesize, Heap.setRef]
      · simp [Heap.storeSamesize, Heap.setRef, hp]

theorem storeAll_spec (h : Heap) (guy : Link ℕ) (q : ℕ) :
    (h.storeAll guy q).nextAll = guy.newNext h.nextAll q ∧
      (h.storeAll guy q).allbase = guy.newBase h.allbase q ∧
      (h.storeAll guy q).nextSamesize = h.nextSamesize ∧
      (h.storeAll guy q).sizebases = h.sizebases ∧ h.Relinked (h.storeAll guy q) := by
  cases guy with
  | base => exact ⟨rfl, rfl, rfl, rfl, rfl, rfl, fun p => ⟨rfl, rfl, rfl⟩⟩
  | field p =>
    refine ⟨?_, rfl, ?_, rfl, rfl, rfl, fun p' => ?_⟩
    · funext p'
      by_cases hp : p' = p
      · subst hp
        simp [Heap.nextAll, Heap.storeAll, Heap.setRef, Link.newNext]
      · simp [Heap.nextAll, Heap.storeAll, Heap.setRef, Link.newNext, hp]
    · funext p'
      by_cases hp : p' = p
      · subst hp
        simp [Heap.nextSamesize, Heap.storeAll, Heap.setRef]
      · simp [Heap.nextSamesize, Heap.storeAll, Heap.setRef, hp]
    · by_cases hp : p' = p
      · subst hp
        simp [Heap.storeAll, Heap.setRef]
      · simp [Heap.storeAll, Heap.setRef, hp]

theorem Heap.Relinked.trans {h h₁ h₂ : Heap} (a : h.Relinked h₁) (b : h₁.Relinked h₂) :
    h.Relinked h₂ :=
  ⟨b.1.trans a.1, b.2.1.trans a.2.1, fun p => ⟨(b.2.2 p).1.trans (a.2.2 p).1,
    (b.2.2 p).2.1.trans (a.2.2 p).2.1, (b.2.2 p).2.2.trans (a.2.2 p).2.2⟩⟩

theorem Heap.Relinked.pageaddr {h h' : Heap} (hr : h.Relinked h') (p : ℕ) :
    (h'.refs p).pageaddr = (h.refs p).pageaddr := by
  unfold Pageref.pageaddr
  rw [(hr.2.2 p).1]

theorem Heap.Relinked.blocktype {h h' : Heap} (hr : h.Relinked h') (p : ℕ) :
    (h'.refs p).blocktype = (h.refs p).blocktype := by
  unfold Pageref.blocktype
  rw [(hr.2.2 p).1]

theorem Heap.Relinked.pageOk {h h' : Heap} (hr : h.Relinked h') {p : ℕ} {free : List ℕ}
    (hp : PageOk h.mem (h.refs p) free) : PageOk h'.mem (h'.refs p) free := by
  obtain ⟨h₁, h₂, h₃⟩ := hr.2.2 p
  have hfl : (h'.refs p).freelist = (h.refs p).freelist := by
    unfold Pageref.freelist
    rw [h₂, hr.pageaddr]
  refine ⟨?_, ?_, ?_, ?_, ?_, ?_⟩
  · rw [hr.blocktype]
    exact hp.blocktype
  · rw [hr.pageaddr]
    exact hp.pageaddr
  · rw [hr.pageaddr]
    exact hp.fits
  · rw [hfl, hr.1]
    exact hp.chain
  · rw [hr.pageaddr, hr.blocktype]
    exact hp.blocks
  · rw [h₃]
    exact hp.nfree

/-- `remove_lists` takes a page off both lists it is on. -/
theorem removeLists_spec {pr : ℕ} (hl : Lists h all) (hlen : all.length < walkFuel)
    (hpr : pr ∈ all) (ht : (h.refs pr).blocktype < nsizes) :
    ∃ h', removeLists h pr (h.refs pr).blocktype = .ok h' ∧ Lists h' (all.erase pr) ∧
      h.Relinked h' := by
  have h0 : pr ≠ 0 := hl.all.ne_zero pr hpr
  have hnd := hl.all.nodup
  -- off the list of its block type
  have hmem : pr ∈ all.filter fun p => (h.refs p).blocktype = (h.refs pr).blocktype := by
    simp [hpr]
  have hchain := hl.samesize _ ht
  obtain ⟨guy, hseek, hget, hwhere⟩ := seek_spec .base hchain hmem
    (lt_of_le_of_lt (List.length_filter_le _ _) hlen)
  obtain ⟨hn₁, hb₁, ha₁, hab₁, hr₁⟩ :=
    storeSamesize_spec h (h.refs pr).blocktype guy (h.nextSamesize pr)
  have hred := hchain.redirect h0 hget hwhere
  have hrun₁ : removeSamesize h pr (h.refs pr).blocktype =
      .ok (h.storeSamesize (h.refs pr).blocktype guy (h.nextSamesize pr)) := by
    rw [removeSamesize, hseek]
  -- off the list of all
  have hall₁ : Chain (h.storeSamesize (h.refs pr).blocktype guy (h.nextSamesize pr)).nextAll
      (h.storeSamesize (h.refs pr).blocktype guy (h.nextSamesize pr)).allbase all := by
    rw [ha₁, hab₁]
    exact hl.all
  obtain ⟨guy', hseek', hget', hwhere'⟩ := seek_spec .base hall₁ hpr hlen
  generalize h.storeSamesize (h.refs pr).blocktype guy (h.nextSamesize pr) = h₁ at *
  obtain ⟨hn₂, hb₂, ha₂, hab₂, hr₂⟩ := storeAll_spec h₁ guy' (h₁.nextAll pr)
  have hred' := hall₁.redirect h0 hget' hwhere'
  refine ⟨h₁.storeAll guy' (h₁.nextAll pr), ?_, ⟨?_, ?_⟩, hr₁.trans hr₂⟩
  · have hrun₂ : removeAll h₁ pr = .ok (h₁.storeAll guy' (h₁.nextAll pr)) := by
      rw [removeAll, hseek']
    rw [removeLists, kassert_pos ht, ok_bind, hrun₁, ok_bind, hrun₂]
  · rw [hn₂, hb₂]
    exact hred'
  · intro t ht'
    rw [ha₂, hab₂, hn₁, hb₁]
    have hfilter : ((all.erase pr).filter fun p =>
        ((h₁.storeAll guy' (h₁.nextAll pr)).refs p).blocktype = t) =
        (all.filter fun p => (h.refs p).blocktype = t).erase pr := by
      rw [hnd.erase_eq_filter, (hnd.filter _).erase_eq_filter, List.filter_filter,
        List.filter_filter]
      refine List.filter_congr fun p _ => ?_
      rw [(hr₁.trans hr₂).blocktype, Bool.and_comm]
    rw [hfilter]
    by_cases htt : t = (h.refs pr).blocktype
    · subst htt
      rw [Function.update_self]
      exact hred
    · have hnot : pr ∉ all.filter fun p => (h.refs p).blocktype = t := by
        simp [Ne.symm htt]
      rw [Function.update_of_ne htt, List.erase_of_not_mem hnot]
      refine (hl.samesize t ht').congr fun p hp => ?_
      rcases hwhere with rfl | ⟨y, hy, rfl⟩
      · rfl
      · refine Function.update_of_ne ?_ _ _
        rintro rfl
        simp only [List.mem_filter, decide_eq_true_eq] at hy hp
        exact htt (hp.2.symm.trans hy.2)

/-- The search of `subpage_kmalloc`. -/
theorem findPage_spec {t : ℕ} (hl : Lists h all) (hlen : all.length < walkFuel)
    (ht : t < nsizes) : findPage h t = .ok none ∨
      ∃ pr ∈ all, (h.refs pr).blocktype = t ∧ 0 < (h.refs pr).nfree ∧
        findPage h t = .ok (some pr) := by
  unfold findPage
  dsimp only
  rw [scan_eq _ (hl.samesize t ht) (lt_of_le_of_lt (List.length_filter_le _ _) hlen)]
  cases hf : (all.filter fun p => (h.refs p).blocktype = t).findSome? fun pr =>
      if (h.refs pr).blocktype ≠ t then some (Except.error Trap.wrongBlocktype)
      else if 0 < (h.refs pr).nfree then some (Except.ok pr) else none with
  | none => exact .inl rfl
  | some x =>
    obtain ⟨pr, hpr, hx⟩ := List.exists_of_findSome?_eq_some hf
    simp only [List.mem_filter, decide_eq_true_eq] at hpr
    rw [if_neg (by simpa using hpr.2)] at hx
    by_cases hn : 0 < (h.refs pr).nfree
    · rw [if_pos hn] at hx
      obtain rfl : Except.ok pr = x := by simpa using hx
      exact .inr ⟨pr, hpr.1, hpr.2, hn, rfl⟩
    · simp [hn] at hx

/-- The search of `subpage_kfree`. -/
theorem findAddr_spec {a : ℕ} (hl : Lists h all) (hlen : all.length < walkFuel)
    (ht : ∀ p ∈ all, (h.refs p).blocktype < nsizes ∧ (h.refs p).pageaddr + pageSize < 2 ^ 32) :
    (findAddr h a = .ok none ∧
        ∀ p ∈ all, a < (h.refs p).pageaddr ∨ (h.refs p).pageaddr + pageSize ≤ a) ∨
      ∃ pr ∈ all, (h.refs pr).pageaddr ≤ a ∧ a < (h.refs pr).pageaddr + pageSize ∧
        findAddr h a = .ok (some pr) := by
  unfold findAddr
  dsimp only
  rw [scan_eq _ hl.all hlen]
  cases hf : all.findSome? fun pr =>
      if ¬ (h.refs pr).blocktype < nsizes then some (Except.error Trap.freeBlocktype)
      else if (h.refs pr).pageaddr ≤ a ∧ a < ((h.refs pr).pageaddr + pageSize) % 2 ^ 32 then
        some (Except.ok pr) else none with
  | none =>
    refine .inl ⟨rfl, fun p hp => ?_⟩
    have hnone := List.findSome?_eq_none_iff.mp hf p hp
    obtain ⟨hb, hfit⟩ := ht p hp
    rw [if_neg (by simpa using hb), Nat.mod_eq_of_lt hfit] at hnone
    by_contra hcon
    rw [if_pos (by omega)] at hnone
    simp at hnone
  | some x =>
    obtain ⟨pr, hpr, hx⟩ := List.exists_of_findSome?_eq_some hf
    obtain ⟨hb, hfit⟩ := ht pr hpr
    rw [if_neg (by simpa using hb), Nat.mod_eq_of_lt hfit] at hx
    by_cases hin : (h.refs pr).pageaddr ≤ a ∧ a < (h.refs pr).pageaddr + pageSize
    · rw [if_pos hin] at hx
      obtain rfl : Except.ok pr = x := by simpa using hx
      exact .inr ⟨pr, hpr, hin.1, hin.2, rfl⟩
    · simp [hin] at hx

end Lists

end Kmalloc

end Os161
