import Os161.Vm.KmallocPages

/-!
# Blocks of the kernel heap

The part of `kmalloc` and `kfree` that runs inside one stretch of the spinlock: a block is taken
from a page that has a free one, a new page is cut into blocks and put on the lists, a block is
given back, and a page that has become empty is taken off the lists again.

## How a page that becomes empty is freed

`subpage_kfree` clears the pageref of the page and releases the spinlock before it calls
`free_kpages`. So the page first passes to the thread (`outOfHeap`), and only a later step of the
thread gives it to the page allocator. A large block goes the same way (`outOfUse`), with no pageref
in it.

## Where the code can stop

`freepageref` asserts that the root of the pageref has a page whenever another of its pagerefs is in
use. A thread that waits for the page of a root has a pageref of it already, so that this is false
while it waits (`RootMissing`). All other assertions hold, and `Inv.kfree` says so: the step keeps
the invariant, or it stops at this one, and then a root is in that state.

## What is deliberately absent

The poison written into free blocks, the guard bands and the statistics are compiled in only when
they are switched on, and are left out. That a block was really obtained from `kmalloc` is a
condition on the caller, and is checked where the action is (`State.step`).

## Main definitions

* `madeHeapPage`, `outOfHeap`, `outOfUse` — how the owners change
* `RootMissing` — a root with pagerefs in use and no page
* `Kept` — a step that has succeeded, with the invariant after it

## Main results

* `Inv₀.takeBlock`, `Inv.withPageref` — a block of an old page, and of a new one
* `Inv.kfree` — `kfree` of a live block
-/

namespace Os161

namespace Kmalloc

variable {T : Type} [DecidableEq T] {s : State T} {all : List ℕ} {free : ℕ → List ℕ} {t : T}

/-! ### Handing out a block

`Inv₀` is the invariant without the condition that every heap page has a live block. A page that has
just been put on the lists has none yet, until `doalloc` takes the first of it.
-/

/-- The first free block of a page, for a thread that has nothing else. -/
theorem Inv₀.takeBlock {pr a : ℕ} (sz : ℕ) {l : List ℕ} (h : Inv₀ s all free) (hpc : s.pc t = .idle)
    (hpr : pr ∈ all) (hfree : free pr = a :: l)
    (hsz : sz ≤ blocksize (s.heap.refs pr).blocktype) (hsz' : sz < largestSubpageSize)
    (hne : ∀ q ∈ all, q ≠ pr → ∃ c ∈ blocksOf (s.heap.refs q).pageaddr (s.heap.refs q).blocktype,
      c ∉ free q) :
    ∃ heap, doalloc s.heap pr = .ok (heap, a) ∧
      Inv ({ s with heap := heap }.ret t sz a) all (Function.update free pr l) := by
  obtain ⟨p, hrun, hsame, hblocks⟩ := h.blocks.take hpr hfree hsz hsz'
  have hpage := h.blocks.page pr hpr
  have ha : a ∈ blocksOf (s.heap.refs pr).pageaddr (s.heap.refs pr).blocktype :=
    hpage.blocks a (hfree ▸ List.mem_cons_self)
  obtain ⟨hlo, hhi, h16⟩ := h.blocks.bounds hpr ha
  have ha0 : a ≠ 0 := by
    have := hpage.pageaddr
    omega
  have hal : a ∉ l := (List.nodup_cons.mp (hfree ▸ hpage.chain.nodup)).1
  have hlive : ({ s with heap := s.heap.setRef pr p }.ret t sz a).live = ⟨a, sz⟩ :: s.live := by
    simp [State.ret, State.goto, ha0]
  -- a live block is not free in its page, and not in another page or large either
  have hfresh : ∀ x ∈ s.live, x.addr ≠ a := by
    rintro x hx rfl
    by_cases hs : x.size < largestSubpageSize
    · obtain ⟨q, hq, hxq, hxf, -⟩ := h.blocks.small x hx hs
      obtain ⟨hlo', hhi', h16'⟩ := h.blocks.bounds hq hxq
      obtain rfl := h.regions.pagesApart.eq hq hpr hlo' (by omega) hlo (by omega)
      rw [hfree] at hxf
      exact hxf List.mem_cons_self
    · have := h.regions.big_apart hx (not_lt.mp hs) hpr
      omega
  have hrefs : ∀ q, ((s.heap.setRef pr p).refs q).SamePage (s.heap.refs q) := by
    intro q
    by_cases hq : q = pr
    · subst hq
      simpa [Heap.setRef] using hsame
    · simp [Heap.setRef, hq, Pageref.SamePage]
  have hidle : ∀ {γ : Type} (f : Pc → γ) u, f (Function.update s.pc t .idle u) = f (s.pc u) :=
    fun f => update_proj f (by rw [hpc])
  refine ⟨_, hrun, ⟨hlive ▸ hblocks, ?_, h.slots.congr rfl (hidle Pc.slot), ?_, ?_, ?_, ?_⟩, ?_⟩
  · rw [hlive, List.map_cons, List.nodup_cons]
    refine ⟨fun hm => ?_, h.once⟩
    obtain ⟨x, hx, hxa⟩ := List.mem_map.mp hm
    exact hfresh x hx hxa
  · -- a small block more changes nothing for large ones
    have hbig : ∀ x : Block, largestSubpageSize ≤ x.size →
        (x ∈ ({ s with heap := s.heap.setRef pr p }.ret t sz a).live ↔ x ∈ s.live) := by
      intro x hx
      rw [hlive, List.mem_cons]
      refine ⟨fun hm => hm.resolve_left ?_, .inr⟩
      rintro rfl
      exact absurd hsz' (not_lt.mpr hx)
    refine ⟨h.regions.pager, h.regions.ledger.congr (fun _ => Iff.rfl)
      (owns_congr (fun q _ => (hrefs q).pageaddr) (fun _ => rfl) hbig (hidle Pc.page)
        (hidle Pc.refpage)), fun x hx hb => h.regions.big x ((hbig x hb).mp hx) hb⟩
  · exact h.lost.congr rfl rfl (hidle Pc.spare)
  · exact sane_update h.sane trivial
  · exact ready_update h.ready fun _ hr => by cases hr
  · -- the page now has a live block, and the others had one
    intro q hq
    change ∃ c ∈ blocksOf ((s.heap.setRef pr p).refs q).pageaddr
      ((s.heap.setRef pr p).refs q).blocktype, c ∉ Function.update free pr l q
    rw [(hrefs q).pageaddr, (hrefs q).blocktype]
    by_cases hqp : q = pr
    · subst hqp
      exact ⟨a, ha, by simpa using hal⟩
    · rw [Function.update_of_ne hqp]
      exact hne q hq hqp

/-- How the owner of a region changes when the thread `t` makes it a heap page. -/
def madeHeapPage (t : T) (pr : ℕ) : Owner T → Owner T
  | .page u => if u = t then .heapPage pr else .page u
  | w => w

/-- A thread with a page and a pageref makes a heap page and takes a block of it. -/
theorem Inv.withPageref {sz blktype prpage r b : ℕ} (h : Inv s all free)
    (hpc : s.pc t = .surplusFreed sz blktype prpage r b) :
    ∃ s' all' free', s.withPageref t sz blktype prpage (s.heap.refAddr r b) = .ok s' ∧
      Inv s' all' free' := by
  have hslot : (s.pc t).slot = some (r, b) := by rw [hpc]; rfl
  have hpage : (s.pc t).page = some prpage := by rw [hpc]; rfl
  have hroot : (s.heap.kheaproots r).page ≠ 0 := h.ready t r (by rw [hpc]; rfl)
  obtain ⟨hr, hb, -, hfresh⟩ := h.slots.taken t r b hslot
  obtain ⟨ht, hfit, hsmall⟩ : Fits sz blktype := by
    have := h.sane t
    rwa [hpc] at this
  obtain ⟨-, -, -, hp0, hal, hlim⟩ := h.regions.owned (w := .page t) hpage
  generalize hprdef : s.heap.refAddr r b = pr at hfresh
  -- the pageref is marked for the thread, so that no heap page has it
  have hpr : pr ∉ all := fun hm => hfresh pr hm ⟨hr, hb, hroot, hprdef.symm⟩
  have hpr0 : pr ≠ 0 := by
    rw [← hprdef, Heap.refAddr]
    omega
  have hsep : ∀ q ∈ all, (s.heap.refs q).pageaddr + pageSize ≤ prpage ∨
      prpage + pageSize ≤ (s.heap.refs q).pageaddr := fun q hq =>
    h.regions.apart (w := .heapPage q) (v := .page t) ⟨hq, rfl⟩ hpage (by simp)
  obtain ⟨heap, hrun, hroots, hpa, hpt, hrefs, hblocks⟩ :=
    h.blocks.setup hpr0 hpr ht hp0 hal hlim hsep
  -- the state with the page on the lists, before a block of it is taken
  have h₀ : Inv₀ ({ s with heap := heap }.goto t .idle) (pr :: all)
      (Function.update free pr (blocksOf prpage blktype).reverse) := by
    refine ⟨hblocks, h.once, ?_, ?_, ?_, sane_update h.sane trivial, ?_⟩
    · exact h.slots.push h.regions.rootsApart hroots hslot hroot hprdef.symm rfl
    · refine ⟨h.regions.pager, h.regions.ledger.map (fun w _ => madeHeapPage t pr w)
        (fun _ => Iff.rfl) fun w a => ?_, h.regions.big⟩
      simp only [State.goto]
      -- the page of the thread becomes a heap page; both directions, owner by owner
      constructor
      · intro hw
        cases w with
        | heapPage q =>
          obtain ⟨hq, rfl⟩ := hw
          by_cases hqp : q = pr
          · subst hqp
            exact ⟨.page t, if_pos rfl, hpage.trans (by rw [hpa])⟩
          · have hq' := (List.mem_cons.mp hq).resolve_left hqp
            exact ⟨.heapPage q, rfl, hq', by rw [hrefs q hq']⟩
        | root r' => exact ⟨.root r', rfl, by simpa only [Owns, hroots] using hw⟩
        | big => exact ⟨.big, rfl, hw⟩
        | page u =>
          by_cases hu : u = t
          · subst hu
            simp [Owns, Pc.page] at hw
          · exact ⟨.page u, if_neg hu, by simpa [Owns, hu] using hw⟩
        | refpage u =>
          have := update_proj (t := t) Pc.refpage (c := s.pc) (p := .idle) (by rw [hpc]; rfl) u
          exact ⟨.refpage u, rfl, this.symm.trans hw⟩
      · rintro ⟨v, rfl, hv⟩
        cases v with
        | heapPage q =>
          obtain ⟨hq, rfl⟩ := hv
          exact ⟨List.mem_cons_of_mem _ hq, by rw [hrefs q hq]⟩
        | root r' => simpa only [madeHeapPage, Owns, hroots] using hv
        | big => exact hv
        | page u =>
          by_cases hu : u = t
          · subst hu
            obtain rfl : prpage = a := Option.some.inj (hpage.symm.trans hv)
            simpa [madeHeapPage, Owns] using hpa
          · simpa [madeHeapPage, Owns, hu] using hv
        | refpage u =>
          have := update_proj (t := t) Pc.refpage (c := s.pc) (p := .idle) (by rw [hpc]; rfl) u
          exact this.trans hv
    · exact h.lost.congr rfl rfl (update_proj Pc.spare (by rw [hpc]; rfl))
    · refine ready_update (fun u r' hr' => ?_) fun _ hr' => by cases hr'
      simp only [State.goto, hroots]
      exact h.ready u r' hr'
  -- its free list is not empty
  obtain ⟨a, l, hl⟩ : ∃ a l, (blocksOf prpage blktype).reverse = a :: l := by
    refine List.exists_cons_of_ne_nil fun hnil => ?_
    have hlen := congrArg List.length hnil
    rw [List.length_reverse, length_blocksOf, List.length_nil] at hlen
    have := (blocksize_spec ht).2.2.1
    rw [hlen, Nat.zero_mul] at this
    exact absurd this (by decide)
  -- and `doalloc` takes its first block
  obtain ⟨heap', halloc, hinv⟩ := h₀.takeBlock (t := t) (a := a) sz (l := l)
    (by simp [State.goto]) List.mem_cons_self (by simp [hl])
    (by simpa [State.goto, hpt] using hfit) hsmall (by
      intro q hq hqp
      have hq' := (List.mem_cons.mp hq).resolve_left hqp
      simp only [State.goto, hrefs q hq', Function.update_of_ne hqp]
      exact h.nonempty q hq')
  have heq : ({ ({ s with heap := heap }.goto t .idle) with heap := heap' } : State T).ret t sz a =
      { s with heap := heap' }.ret t sz a := by
    simp [State.ret, State.goto]
  rw [heq] at hinv
  refine ⟨_, _, _, ?_, hinv⟩
  have halloc' : doalloc heap pr = .ok (heap', a) := halloc
  rw [State.withPageref, hrun, ok_bind, halloc']
  rfl

/-! ### Taking a block back

`free` gets the block back at the head of its list; `live` loses it. Large blocks are in no heap
page, so that a filter on the address of a small one leaves them (`Inv.big_mem_filter`). -/

/-- How the owner of a region changes when the thread `t` takes a page out of the heap. -/
def outOfHeap (t : T) (pr : ℕ) : Owner T → Owner T
  | .heapPage q => if q = pr then .page t else .heapPage q
  | w => w

/-- How the owner of a region changes when the thread `t` frees a large block. -/
def outOfUse (t : T) (ptr : ℕ) : Owner T → ℕ → Owner T
  | .big, a => if a = ptr then .page t else .big
  | w, _ => w

omit [DecidableEq T] in
/-- No two of the blocks left have the same address. -/
theorem once_filter (h : (s.live.map Block.addr).Nodup) (ptr : ℕ) :
    ((s.live.filter fun x => x.addr ≠ ptr).map Block.addr).Nodup :=
  h.sublist ((List.filter_sublist).map _)

/-- Freeing a large block: its region goes to the thread. -/
theorem Inv.freeBig {x : Block} (h : Inv s all free) (hpc : s.pc t = .idle) (hx : x ∈ s.live)
    (hbig : largestSubpageSize ≤ x.size) :
    Inv ({ s with live := s.live.filter fun y => y.addr ≠ x.addr }.goto t (.freePage x.addr))
      all free := by
  have hidle : ∀ {γ : Type} (f : Pc → γ), f (.freePage x.addr) = f .idle → ∀ u,
      f (Function.update s.pc t (.freePage x.addr) u) = f (s.pc u) :=
    fun f hf => update_proj f (by rw [hpc, hf])
  refine ⟨⟨?_, once_filter h.once _, h.slots.congr rfl (hidle Pc.slot rfl), ?_,
    h.lost.congr rfl rfl (hidle Pc.spare rfl), sane_update h.sane trivial,
    ready_update h.ready fun r hr => nomatch hr⟩, h.nonempty⟩
  · -- a used block of a heap page lies outside the large one, and stays live
    refine ⟨h.blocks.lists, h.blocks.page, fun y hy => h.blocks.small y (List.mem_of_mem_filter hy),
      fun pr hpr a ha hf => ?_⟩
    obtain ⟨y, hy, hya, hys⟩ := h.blocks.used pr hpr a ha hf
    refine ⟨y, ?_, hya, hys⟩
    obtain ⟨hlo, hhi, h16⟩ := h.blocks.bounds hpr ha
    have := h.regions.big_apart hx hbig hpr
    have hne : y.addr ≠ x.addr := by omega
    simpa [State.goto, hne] using hy
  · -- its region was owned as a large block, and now is the page of the thread
    refine ⟨h.regions.pager, h.regions.ledger.map (outOfUse t x.addr) (fun _ => Iff.rfl)
      fun w a => ?_, fun y hy => h.regions.big y (List.mem_of_mem_filter hy)⟩
    simp only [State.goto]
    constructor
    · intro hw
      cases w with
      | heapPage pr => exact ⟨.heapPage pr, rfl, hw⟩
      | root r => exact ⟨.root r, rfl, hw⟩
      | big =>
        obtain ⟨y, hy, hyb, rfl⟩ := hw
        simp only [List.mem_filter, ne_eq, decide_eq_true_eq] at hy
        exact ⟨.big, if_neg hy.2, y, hy.1, hyb, rfl⟩
      | page u =>
        by_cases hu : u = t
        · subst hu
          have ha : x.addr = a := by simpa [Owns, Pc.page] using hw
          exact ⟨.big, if_pos ha.symm, x, hx, hbig, ha⟩
        · exact ⟨.page u, rfl, by simpa [Owns, hu] using hw⟩
      | refpage u => exact ⟨.refpage u, rfl, (hidle Pc.refpage rfl u).symm.trans hw⟩
    · rintro ⟨v, rfl, hv⟩
      cases v with
      | heapPage pr => exact hv
      | root r => exact hv
      | big =>
        obtain ⟨y, hy, hyb, rfl⟩ := hv
        by_cases hya : y.addr = x.addr
        · simp [outOfUse, Owns, Pc.page, hya]
        · simp only [outOfUse, if_neg hya]
          exact ⟨y, by simpa [hya] using hy, hyb, rfl⟩
      | page u =>
        have hu : u ≠ t := by
          rintro rfl
          simp [Owns, hpc, Pc.page] at hv
        simpa [outOfUse, Owns, hu] using hv
      | refpage u => exact (hidle Pc.refpage rfl u).trans hv

omit [DecidableEq T] in
/-- Large blocks stay live when a block of a heap page is freed. -/
theorem Inv.big_mem_filter {pr a : ℕ} (h : Inv s all free) (hpr : pr ∈ all)
    (ha : a ∈ blocksOf (s.heap.refs pr).pageaddr (s.heap.refs pr).blocktype) (y : Block)
    (hy : largestSubpageSize ≤ y.size) :
    y ∈ (s.live.filter fun z => z.addr ≠ a) ↔ y ∈ s.live := by
  simp only [List.mem_filter, ne_eq, decide_eq_true_eq, and_iff_left_iff_imp]
  rintro hmem rfl
  obtain ⟨hlo, hhi, h16⟩ := h.blocks.bounds hpr ha
  have := h.regions.big_apart hmem hy hpr
  omega

omit [DecidableEq T] in
/-- Freeing a block of a page that keeps a live block. -/
theorem Inv.freeSmall {pr a : ℕ} {heap : Heap} {free' : ℕ → List ℕ} (h : Inv s all free)
    (hpr : pr ∈ all) (ha : a ∈ blocksOf (s.heap.refs pr).pageaddr (s.heap.refs pr).blocktype)
    (hroots : heap.kheaproots = s.heap.kheaproots)
    (hsame : ∀ q, (heap.refs q).SamePage (s.heap.refs q))
    (hblocks : Blocks heap (s.live.filter fun x => x.addr ≠ a) all free')
    (hne : NoEmptyPage heap all free') :
    Inv { s with heap := heap, live := s.live.filter fun x => x.addr ≠ a } all free' := by
  have hbig := h.big_mem_filter hpr ha
  refine ⟨⟨hblocks, once_filter h.once _, h.slots.congr hroots fun _ => rfl, ?_,
    h.lost.congr rfl rfl fun _ => rfl, h.sane, ?_⟩, hne⟩
  · exact ⟨h.regions.pager, h.regions.ledger.congr (fun _ => Iff.rfl)
      (owns_congr (fun q _ => (hsame q).pageaddr) (fun r => by rw [hroots]) hbig (fun _ => rfl)
        fun _ => rfl), fun y hy => h.regions.big y (List.mem_of_mem_filter hy)⟩
  · simp only [hroots]
    exact h.ready

/-- Freeing the last live block of a page: the page goes from the heap to the thread. -/
theorem Inv.freeLast {pr a r b : ℕ} {heap heap' : Heap} {free' : ℕ → List ℕ} (h : Inv s all free)
    (hpc : s.pc t = .idle) (hpr : pr ∈ all)
    (ha : a ∈ blocksOf (s.heap.refs pr).pageaddr (s.heap.refs pr).blocktype)
    (hroots : heap.kheaproots = s.heap.kheaproots)
    (hpages : ∀ q, (heap.refs q).pageaddr = (s.heap.refs q).pageaddr)
    (hblocks : Blocks heap (s.live.filter fun x => x.addr ≠ a) (all.erase pr) free')
    (hne : NoEmptyPage heap (all.erase pr) free') (href : IsRef heap pr r b)
    (hin : (heap.kheaproots r).inuse b = true)
    (hheap' : heap' = heap.setRoot r ((heap.kheaproots r).drop b)) :
    Inv ({ s with heap := heap', live := s.live.filter fun x => x.addr ≠ a }.goto t
      (.freePage (s.heap.refs pr).pageaddr)) (all.erase pr) free' := by
  subst hheap'
  have hnd := h.blocks.lists.all.nodup
  have hbig := h.big_mem_filter hpr ha
  have hpg : ∀ r', ((heap.setRoot r ((heap.kheaproots r).drop b)).kheaproots r').page =
      (s.heap.kheaproots r').page := by
    intro r'
    rw [← hroots]
    by_cases hrr : r' = r
    · subst hrr
      simp [Heap.setRoot, KheapRoot.drop]
    · simp [Heap.setRoot, hrr]
  have hidle : ∀ {γ : Type} (f : Pc → γ), f (.freePage (s.heap.refs pr).pageaddr) = f .idle → ∀ u,
      f (Function.update s.pc t (.freePage (s.heap.refs pr).pageaddr) u) = f (s.pc u) :=
    fun f hf => update_proj f (by rw [hpc, hf])
  have hslots : Slots heap all s.pc := h.slots.congr hroots fun _ => rfl
  refine ⟨⟨hblocks.setRoot _ _, once_filter h.once _,
    (hslots.drop hnd hpr href hin).congr rfl (hidle Pc.slot rfl), ?_,
    h.lost.congr rfl rfl (hidle Pc.spare rfl), sane_update h.sane trivial,
    ready_update (fun u r' hr' => (hpg r').trans_ne (h.ready u r' hr')) fun _ hr => by cases hr⟩,
    hne⟩
  -- the region of the page passes from the heap to the thread
  refine ⟨h.regions.pager, h.regions.ledger.map (fun w _ => outOfHeap t pr w) (fun _ => Iff.rfl)
    fun w c => ?_, fun y hy => h.regions.big y (List.mem_of_mem_filter hy)⟩
  simp only [State.goto]
  constructor
  · intro hw
    cases w with
    | heapPage q =>
      obtain ⟨hq, rfl⟩ := hw
      obtain ⟨hqp, hq⟩ := hnd.mem_erase_iff.mp hq
      exact ⟨.heapPage q, if_neg hqp, hq, (hpages q).symm⟩
    | root r' => exact ⟨.root r', rfl, by simpa only [Owns, hpg] using hw⟩
    | big =>
      obtain ⟨y, hy, hyb, rfl⟩ := hw
      exact ⟨.big, rfl, y, (hbig y hyb).mp hy, hyb, rfl⟩
    | page u =>
      by_cases hu : u = t
      · subst hu
        have hc : (s.heap.refs pr).pageaddr = c := by simpa [Owns, Pc.page] using hw
        exact ⟨.heapPage pr, if_pos rfl, hpr, hc⟩
      · exact ⟨.page u, rfl, by simpa [Owns, hu] using hw⟩
    | refpage u => exact ⟨.refpage u, rfl, (hidle Pc.refpage rfl u).symm.trans hw⟩
  · rintro ⟨v, rfl, hv⟩
    cases v with
    | heapPage q =>
      obtain ⟨hq, rfl⟩ := hv
      by_cases hqp : q = pr
      · subst hqp
        simp [outOfHeap, Owns, Pc.page]
      · simp only [outOfHeap, if_neg hqp]
        exact ⟨hnd.mem_erase_iff.mpr ⟨hqp, hq⟩, hpages q⟩
    | root r' => simpa only [outOfHeap, Owns, hpg] using hv
    | big =>
      obtain ⟨y, hy, hyb, rfl⟩ := hv
      exact ⟨y, (hbig y hyb).mpr hy, hyb, rfl⟩
    | page u =>
      have hu : u ≠ t := by
        rintro rfl
        simp [Owns, hpc, Pc.page] at hv
      simpa [outOfHeap, Owns, hu] using hv
    | refpage u => exact (hidle Pc.refpage rfl u).trans hv

/-! ### Running `kfree` -/

/-- A root has pagerefs in use and no page. A thread that waits for the page of a root makes it so,
and so does one that has given up and left its pageref marked. -/
def RootMissing (h : Heap) : Prop :=
  ∃ r < numPagerefpages, (h.kheaproots r).page = 0 ∧ (h.kheaproots r).numinuse ≠ 0

/-- What a step makes of the state: one in which the invariant holds. -/
def Kept (res : Except Trap (State T)) : Prop := ∃ s all free, res = .ok s ∧ Inv s all free

/-- `subpage_kfree` of a block whose page keeps a live block. -/
theorem subpageKfree_done {h h₁ : Heap} {pr a : ℕ} (hfind : findAddr h a = .ok (some pr))
    (hrun : Kmalloc.freeBlock h pr a = .ok h₁)
    (hfull : (h₁.refs pr).nfree ≠ pageSize / blocksize (h₁.refs pr).blocktype) :
    subpageKfree h a = .ok (h₁, .done) := by
  rw [subpageKfree, hfind, ok_bind]
  dsimp only
  rw [hrun, ok_bind]
  generalize pageSize / blocksize (h₁.refs pr).blocktype = full at *
  rw [if_neg hfull]
  rfl

/-- `subpage_kfree` of the last live block of its page. -/
theorem subpageKfree_page {h h₁ h₂ : Heap} {pr a : ℕ} (hfind : findAddr h a = .ok (some pr))
    (hrun : Kmalloc.freeBlock h pr a = .ok h₁)
    (hfull : (h₁.refs pr).nfree = pageSize / blocksize (h₁.refs pr).blocktype)
    (hrun₂ : removeLists h₁ pr (h₁.refs pr).blocktype = .ok h₂) :
    subpageKfree h a =
      (freepageref h₂ pr).bind fun h₃ => .ok (h₃, .page (h₁.refs pr).pageaddr) := by
  rw [subpageKfree, hfind, ok_bind]
  dsimp only
  rw [hrun, ok_bind]
  generalize pageSize / blocksize (h₁.refs pr).blocktype = full at *
  rw [if_pos hfull, hrun₂]
  rfl

/-- Freeing a block of a heap page. -/
theorem Inv.kfreeSmall {x : Block} (h : Inv s all free) (hpc : s.pc t = .idle) (hx : x ∈ s.live)
    (hsmall : x.size < largestSubpageSize) :
    Kept (s.kfree t x.addr) ∨ s.kfree t x.addr = .error .rootInUse ∧ RootMissing s.heap := by
  obtain ⟨pr, hpr, hblk, hfree, -⟩ := h.blocks.small x hx hsmall
  obtain ⟨hlo, hhi, h16⟩ := h.blocks.bounds hpr hblk
  have hpage := h.blocks.page pr hpr
  have hx0 : x.addr ≠ 0 := by
    have := hpage.pageaddr
    omega
  -- the walk over all pages finds the one the block is in
  have hfind : findAddr s.heap x.addr = .ok (some pr) := by
    rcases findAddr_spec (a := x.addr) h.blocks.lists h.length_lt
      (fun q hq => ⟨(h.blocks.page q hq).blocktype, (h.blocks.page q hq).fits⟩) with
      ⟨-, hout⟩ | ⟨q, hq, hlo', hhi', hrun⟩
    · have := hout pr hpr
      omega
    · rw [hrun, h.regions.pagesApart.eq hq hpr hlo' hhi' hlo (by omega)]
  -- the block goes back on the free list of its page
  obtain ⟨h₁, hrun₁, hroots₁, hsame₁, hblocks₁⟩ :=
    h.blocks.giveBack h.regions.pagesApart hpr hblk hfree
  have hpage₁ := hblocks₁.page pr hpr
  rw [Function.update_self] at hpage₁
  have hpa := (hsame₁ pr).pageaddr
  have hpt := (hsame₁ pr).blocktype
  -- the other pages have the live blocks they had
  have hothers : ∀ q ∈ all, q ≠ pr → ∃ c ∈ blocksOf (h₁.refs q).pageaddr (h₁.refs q).blocktype,
      c ∉ Function.update free pr (x.addr :: free pr) q := by
    intro q hq hqp
    rw [(hsame₁ q).pageaddr, (hsame₁ q).blocktype, Function.update_of_ne hqp]
    exact h.nonempty q hq
  by_cases hfull : (h₁.refs pr).nfree = pageSize / blocksize (h₁.refs pr).blocktype
  · -- the page is empty
    have hall := (blocksOf_full hpage₁.chain.nodup hpage₁.blocks).2 (hpage₁.nfree.symm.trans hfull)
    obtain ⟨h₂, hrun₂, hrel, hblocks₂⟩ := hblocks₁.remove h.length_lt hpr
      (by rw [Function.update_self]; exact hall)
    obtain ⟨r, b, href, hin⟩ := h.slots.ref pr hpr
    have hroots₂ : h₂.kheaproots = s.heap.kheaproots := hrel.2.1.trans hroots₁
    have href₂ : IsRef h₂ pr r b := by
      unfold IsRef Heap.refAddr at *
      rw [hroots₂]
      exact href
    have hap₂ : Apart h₂ := by
      unfold Apart
      rw [hroots₂]
      exact h.regions.rootsApart
    have hcount₂ : Counted h₂ := by
      unfold Counted
      rw [hroots₂]
      exact h.slots.counted
    have hsub := subpageKfree_page hfind hrun₁ hfull hrun₂
    rw [hpa] at hsub
    rw [State.kfree, if_neg hx0, hsub]
    -- the assertion of `freepageref`: the page of the root is there, or this was its last pageref
    rcases freepageref_spec hap₂ href₂ hcount₂ (by rw [hroots₂]; exact hin) with hrun₃ |
      ⟨hrun₃, hbad⟩
    · left
      rw [hrun₃]
      refine ⟨_, _, _, rfl, h.freeLast hpc hpr hblk hroots₂ (fun q => ?_) hblocks₂ ?_ href₂
        (by rw [hroots₂]; exact hin) rfl⟩
      · rw [hrel.pageaddr, (hsame₁ q).pageaddr]
      · intro q hq
        obtain ⟨hqp, hq⟩ := h.blocks.lists.all.nodup.mem_erase_iff.mp hq
        rw [hrel.pageaddr, hrel.blocktype]
        exact hothers q hq hqp
    · right
      rw [hrun₃]
      refine ⟨rfl, ?_⟩
      unfold RootMissing
      rw [← hroots₂]
      exact hbad
  · -- the page keeps a live block
    left
    refine ⟨_, _, _, ?_, h.freeSmall hpr hblk hroots₁ hsame₁ hblocks₁ ?_⟩
    · rw [State.kfree, if_neg hx0, subpageKfree_done hfind hrun₁ hfull]
      rfl
    · intro q hq
      by_cases hqp : q = pr
      · subst hqp
        rw [Function.update_self]
        exact blocksOf_missing hpage₁.blocktype hpage₁.chain.nodup hpage₁.blocks
          (hpage₁.nfree.symm.trans_ne hfull)
      · exact hothers q hq hqp

/-- `kfree` of a live block. -/
theorem Inv.kfree {x : Block} (h : Inv s all free) (hpc : s.pc t = .idle) (hx : x ∈ s.live) :
    Kept (s.kfree t x.addr) ∨ s.kfree t x.addr = .error .rootInUse ∧ RootMissing s.heap := by
  by_cases hsmall : x.size < largestSubpageSize
  · exact h.kfreeSmall hpc hx hsmall
  · have hbig := not_lt.mp hsmall
    obtain ⟨-, -, -, hx0, hal, -⟩ := h.regions.owned (w := .big) ⟨x, hx, hbig, rfl⟩
    -- no heap page has the address, so that `subpage_kfree` refuses it
    have hfind : findAddr s.heap x.addr = .ok none := by
      rcases findAddr_spec (a := x.addr) h.blocks.lists h.length_lt
        (fun q hq => ⟨(h.blocks.page q hq).blocktype, (h.blocks.page q hq).fits⟩) with
        ⟨hrun, -⟩ | ⟨q, hq, hlo', hhi', -⟩
      · exact hrun
      · have := h.regions.big_apart hx hbig hq
        omega
    refine .inl ⟨_, _, _, ?_, h.freeBig hpc hx hbig⟩
    rw [State.kfree, if_neg hx0, subpageKfree, hfind]
    simp only [ok_bind, kassert_pos hal]
    rfl

end Kmalloc

end Os161
