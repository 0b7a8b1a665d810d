import Os161.Lib.Ledger
import Os161.Vm.Subpage
import Mathlib.Data.Finset.Prod

/-!
# The invariant of the kernel heap

What holds whenever nobody has the spinlock, for any number of threads. Three things have to agree
with each other.

* The blocks: each heap page is made of free blocks, which its free list visits, and of live ones
  (`Blocks`).
* The pagerefs: a bit that is set belongs to a heap page, or to a thread that is waiting for the
  page of its root, or it is lost: a thread that gets no page for the root leaves the bit set
  (`Slots`).
* The regions of the page allocator: each one that was not given back has one owner (`Regions`).

## Main definitions

* `Owner`, `Owns` — who has the regions
* `Inv` — the invariant

## Main results

* `Blocks.take`, `Blocks.setup`, `Blocks.giveBack`, `Blocks.remove` — the pieces of the code that
  change heap pages
* `Slots.take`, `Slots.install`, `Slots.push`, `Slots.drop` — what happens to a pageref
* `Regions.apart` — two owners have pages that do not meet
-/

namespace Os161

namespace Kmalloc

variable {T : Type}

/-! ### What a thread has -/

/-- The page a thread has obtained for the heap, or is about to give back. -/
def Pc.page : Pc → Option ℕ
  | .havePage _ _ prpage => some prpage
  | .wantRefpage _ _ prpage _ _ => some prpage
  | .gotRefpage _ _ prpage _ _ _ => some prpage
  | .surplus _ _ prpage _ _ _ => some prpage
  | .surplusFreed _ _ prpage _ _ => some prpage
  | .giveUp prpage => some prpage
  | .freePage addr => some addr
  | _ => none

/-- The page a thread has obtained for pagerefs. -/
def Pc.refpage : Pc → Option ℕ
  | .gotRefpage _ _ _ _ _ va => if va = 0 then none else some va
  | .surplus _ _ _ _ _ va => some va
  | _ => none

/-- That page, once it is known not to be needed. -/
def Pc.spare : Pc → Option ℕ
  | .surplus _ _ _ _ _ va => some va
  | _ => none

theorem Pc.refpage_of_spare {p : Pc} {va : ℕ} (h : p.spare = some va) : p.refpage = some va := by
  cases p with
  | surplus => exact h
  | _ => exact nomatch h

/-- The pageref a thread has taken. -/
def Pc.slot : Pc → Option (ℕ × ℕ)
  | .wantRefpage _ _ _ r b => some (r, b)
  | .gotRefpage _ _ _ r b _ => some (r, b)
  | .surplus _ _ _ r b _ => some (r, b)
  | .surplusFreed _ _ _ r b => some (r, b)
  | _ => none

/-- The root a thread has seen a page in. -/
def Pc.ready : Pc → Option ℕ
  | .surplus _ _ _ r _ _ => some r
  | .surplusFreed _ _ _ r _ => some r
  | _ => none

/-- The size asked for fits the block type. -/
def Fits (sz blktype : ℕ) : Prop :=
  blktype < nsizes ∧ sz ≤ blocksize blktype ∧ sz < largestSubpageSize

/-- What a thread knows of its arguments. -/
def Pc.Sane : Pc → Prop
  | .wantPage sz blktype => Fits sz blktype
  | .havePage sz blktype _ => Fits sz blktype
  | .wantRefpage sz blktype _ _ _ => Fits sz blktype
  | .gotRefpage sz blktype _ _ _ _ => Fits sz blktype
  | .surplus sz blktype _ _ _ _ => Fits sz blktype
  | .surplusFreed sz blktype _ _ _ => Fits sz blktype
  | .wantBig sz => largestSubpageSize ≤ sz
  | _ => True

/-! ### Blocks -/

/-- The heap pages `all`, with the free blocks `free pr` each, and the live blocks. -/
structure Blocks (h : Heap) (live : List Block) (all : List ℕ) (free : ℕ → List ℕ) : Prop where
  lists : Lists h all
  page : ∀ pr ∈ all, PageOk h.mem (h.refs pr) (free pr)
  /-- A small live block is a block of a page that is not free there. -/
  small : ∀ x ∈ live, x.size < largestSubpageSize → ∃ pr ∈ all,
    x.addr ∈ blocksOf (h.refs pr).pageaddr (h.refs pr).blocktype ∧ x.addr ∉ free pr ∧
      x.size ≤ blocksize (h.refs pr).blocktype
  /-- A block of a page that is not free is live. -/
  used : ∀ pr ∈ all, ∀ a ∈ blocksOf (h.refs pr).pageaddr (h.refs pr).blocktype, a ∉ free pr →
    ∃ x ∈ live, x.addr = a ∧ x.size < largestSubpageSize

/-- The heap pages do not meet. -/
def PagesApart (h : Heap) (all : List ℕ) : Prop :=
  ∀ pr ∈ all, ∀ pr' ∈ all, pr ≠ pr' → (h.refs pr).pageaddr + pageSize ≤ (h.refs pr').pageaddr ∨
    (h.refs pr').pageaddr + pageSize ≤ (h.refs pr).pageaddr

/-- A page without a live block is not kept. -/
def NoEmptyPage (h : Heap) (all : List ℕ) (free : ℕ → List ℕ) : Prop :=
  ∀ pr ∈ all, ∃ a ∈ blocksOf (h.refs pr).pageaddr (h.refs pr).blocktype, a ∉ free pr

section Blocks

variable {h : Heap} {live : List Block} {all : List ℕ} {free : ℕ → List ℕ}

/-- The bounds of a block, inside its page. -/
theorem Blocks.bounds (hb : Blocks h live all free) {pr a : ℕ} (hpr : pr ∈ all)
    (ha : a ∈ blocksOf (h.refs pr).pageaddr (h.refs pr).blocktype) :
    (h.refs pr).pageaddr ≤ a ∧
      a + blocksize (h.refs pr).blocktype ≤ (h.refs pr).pageaddr + pageSize ∧
      16 ≤ blocksize (h.refs pr).blocktype := by
  have ht := (hb.page pr hpr).blocktype
  obtain ⟨hlo, hhi⟩ := blocksOf_bounds ht ha
  exact ⟨hlo, hhi, (blocksize_spec ht).1⟩

/-- An address is on one page only. -/
theorem PagesApart.eq (hap : PagesApart h all) {pr pr' a : ℕ} (hpr : pr ∈ all) (hpr' : pr' ∈ all)
    (h₁ : (h.refs pr).pageaddr ≤ a) (h₂ : a < (h.refs pr).pageaddr + pageSize)
    (h₃ : (h.refs pr').pageaddr ≤ a) (h₄ : a < (h.refs pr').pageaddr + pageSize) : pr = pr' := by
  by_contra hne
  have := hap pr hpr pr' hpr' hne
  omega

/-- Taking the first free block of a page. -/
theorem Blocks.take {pr a sz : ℕ} {l : List ℕ} (hb : Blocks h live all free)
    (hpr : pr ∈ all) (hfree : free pr = a :: l)
    (hsz : sz ≤ blocksize (h.refs pr).blocktype) (hsz' : sz < largestSubpageSize) :
    ∃ p, doalloc h pr = .ok (h.setRef pr p, a) ∧ p.SamePage (h.refs pr) ∧
      Blocks (h.setRef pr p) (⟨a, sz⟩ :: live) all (Function.update free pr l) := by
  have hpage := hfree ▸ hb.page pr hpr
  obtain ⟨p, hrun, hok, hsame⟩ := doalloc_spec hpage
  have hrefs : ∀ q, ((h.setRef pr p).refs q).SamePage (h.refs q) := by
    intro q
    by_cases hq : q = pr
    · subst hq
      simpa [Heap.setRef] using hsame
    · simp [Heap.setRef, hq, Pageref.SamePage]
  have hal : a ∉ l := (List.nodup_cons.mp hpage.chain.nodup).1
  refine ⟨p, hrun, hsame, hb.lists.congr rfl rfl fun q _ => hrefs q, ?_, ?_, ?_⟩
  · intro q hq
    by_cases hqp : q = pr
    · subst hqp
      simpa [Heap.setRef] using hok
    · simpa [Heap.setRef, hqp] using hb.page q hq
  · rintro x (_ | ⟨_, hx⟩) hsmall
    · refine ⟨pr, hpr, ?_, by simpa using hal, ?_⟩
      · rw [(hrefs pr).pageaddr, (hrefs pr).blocktype]
        exact hpage.blocks a List.mem_cons_self
      · rw [(hrefs pr).blocktype]
        exact hsz
    · obtain ⟨q, hq, hxq, hxf, hxs⟩ := hb.small x hx hsmall
      refine ⟨q, hq, ?_, ?_, ?_⟩
      · rw [(hrefs q).pageaddr, (hrefs q).blocktype]
        exact hxq
      · by_cases hqp : q = pr
        · subst hqp
          rw [Function.update_self]
          rw [hfree] at hxf
          exact fun hm => hxf (List.mem_cons_of_mem _ hm)
        · rwa [Function.update_of_ne hqp]
      · rw [(hrefs q).blocktype]
        exact hxs
  · intro q hq c hc hcf
    rw [(hrefs q).pageaddr, (hrefs q).blocktype] at hc
    by_cases hca : q = pr ∧ c = a
    · exact ⟨_, List.mem_cons_self, hca.2.symm, hsz'⟩
    · have hcf' : c ∉ free q := by
        by_cases hqp : q = pr
        · subst hqp
          rw [Function.update_self] at hcf
          rw [hfree]
          simp only [List.mem_cons, not_or]
          exact ⟨fun he => hca ⟨rfl, he⟩, hcf⟩
        · rwa [Function.update_of_ne hqp] at hcf
      obtain ⟨x, hx, hxa, hxs⟩ := hb.used q hq c hc hcf'
      exact ⟨x, List.mem_cons_of_mem _ hx, hxa, hxs⟩

/-- A fresh page. -/
theorem Blocks.setup {pr prpage t : ℕ} (hb : Blocks h live all free) (h0 : pr ≠ 0)
    (hpr : pr ∉ all) (ht : t < nsizes) (hp0 : prpage ≠ 0) (hal : prpage % pageSize = 0)
    (hfit : prpage + pageSize < 2 ^ 32)
    (hsep : ∀ q ∈ all, (h.refs q).pageaddr + pageSize ≤ prpage ∨
      prpage + pageSize ≤ (h.refs q).pageaddr) :
    ∃ h', setupPage h pr prpage t = .ok h' ∧ h'.kheaproots = h.kheaproots ∧
      (h'.refs pr).pageaddr = prpage ∧ (h'.refs pr).blocktype = t ∧
      (∀ q ∈ all, h'.refs q = h.refs q) ∧
      Blocks h' live (pr :: all) (Function.update free pr (blocksOf prpage t).reverse) := by
  obtain ⟨mem, p, hrun, hok, hpa, hpt, hps, hpn, hframe⟩ := setupPage_spec h pr ht hp0 hal hfit
  have hother : ∀ q ∈ all, Function.update h.refs pr p q = h.refs q := by
    intro q hq
    have hne : q ≠ pr := fun he => hpr (he ▸ hq)
    exact Function.update_of_ne hne _ _
  refine ⟨_, hrun, rfl, ?_, ?_, hother, ?_, ?_, ?_, ?_⟩
  · simpa using hpa
  · simpa using hpt
  · exact hb.lists.push h0 hpr rfl rfl rfl hpt hps hpn
  · rintro q (_ | ⟨_, hq⟩)
    · simpa using hok
    · have hne : q ≠ pr := fun he => hpr (he ▸ hq)
      simp only [Function.update_of_ne hne]
      refine (hb.page q hq).congr fun a ha => hframe a ?_
      obtain ⟨hlo, hhi, h16⟩ := hb.bounds hq ((hb.page q hq).blocks a ha)
      have := hsep q hq
      omega
  · intro x hx hsmall
    obtain ⟨q, hq, hxq, hxf, hxs⟩ := hb.small x hx hsmall
    have hne : q ≠ pr := fun he => hpr (he ▸ hq)
    refine ⟨q, List.mem_cons_of_mem _ hq, ?_⟩
    simp only [Function.update_of_ne hne]
    exact ⟨hxq, hxf, hxs⟩
  · rintro q (_ | ⟨_, hq⟩) c hc hcf
    · simp only [Function.update_self, hpa, hpt, List.mem_reverse] at hc hcf
      exact absurd hc hcf
    · have hne : q ≠ pr := fun he => hpr (he ▸ hq)
      simp only [Function.update_of_ne hne] at hc hcf
      exact hb.used q hq c hc hcf

/-- Giving back a live block. -/
theorem Blocks.giveBack {pr a : ℕ} (hb : Blocks h live all free) (hap : PagesApart h all)
    (hpr : pr ∈ all) (ha : a ∈ blocksOf (h.refs pr).pageaddr (h.refs pr).blocktype)
    (hfree : a ∉ free pr) :
    ∃ h', Kmalloc.freeBlock h pr a = .ok h' ∧ h'.kheaproots = h.kheaproots ∧
      (∀ q, (h'.refs q).SamePage (h.refs q)) ∧
      Blocks h' (live.filter fun x => x.addr ≠ a) all (Function.update free pr (a :: free pr)) := by
  obtain ⟨mem, p, hrun, hok, hsame, hframe⟩ := freeBlock_spec (hb.page pr hpr) ha hfree
  have hrefs : ∀ q, (Function.update h.refs pr p q).SamePage (h.refs q) := by
    intro q
    by_cases hq : q = pr
    · subst hq
      simpa using hsame
    · simp [hq, Pageref.SamePage]
  obtain ⟨hlo, hhi, h16⟩ := hb.bounds hpr ha
  refine ⟨_, hrun, rfl, hrefs, hb.lists.congr rfl rfl fun q _ => hrefs q, ?_, ?_, ?_⟩
  · intro q hq
    by_cases hqp : q = pr
    · subst hqp
      simpa using hok
    · simp only [Function.update_of_ne hqp]
      refine (hb.page q hq).congr fun c hc => hframe c ?_
      obtain ⟨hlo', hhi', h16'⟩ := hb.bounds hq ((hb.page q hq).blocks c hc)
      have := hap q hq pr hpr hqp
      omega
  · intro x hx hsmall
    simp only [List.mem_filter, ne_eq, decide_eq_true_eq] at hx
    obtain ⟨q, hq, hxq, hxf, hxs⟩ := hb.small x hx.1 hsmall
    refine ⟨q, hq, ?_, ?_, ?_⟩
    · dsimp only
      rw [(hrefs q).pageaddr, (hrefs q).blocktype]
      exact hxq
    · by_cases hqp : q = pr
      · subst hqp
        rw [Function.update_self]
        simpa using ⟨hx.2, hxf⟩
      · rwa [Function.update_of_ne hqp]
    · dsimp only
      rw [(hrefs q).blocktype]
      exact hxs
  · intro q hq c hc hcf
    dsimp only at hc
    rw [(hrefs q).pageaddr, (hrefs q).blocktype] at hc
    have hca : c ≠ a := by
      rintro rfl
      obtain ⟨hlo', hhi', h16'⟩ := hb.bounds hq hc
      obtain rfl := hap.eq hpr hq hlo (by omega) hlo' (by omega)
      simp at hcf
    have hcf' : c ∉ free q := by
      by_cases hqp : q = pr
      · subst hqp
        rw [Function.update_self] at hcf
        exact fun hm => hcf (List.mem_cons_of_mem _ hm)
      · rwa [Function.update_of_ne hqp] at hcf
    obtain ⟨x, hx, hxa, hxs⟩ := hb.used q hq c hc hcf'
    refine ⟨x, ?_, hxa, hxs⟩
    simp only [List.mem_filter, ne_eq, decide_eq_true_eq]
    exact ⟨hx, hxa ▸ hca⟩

/-- Taking a page with no live block off the lists. -/
theorem Blocks.remove {pr : ℕ} (hb : Blocks h live all free) (hlen : all.length < walkFuel)
    (hpr : pr ∈ all)
    (hall : ∀ a ∈ blocksOf (h.refs pr).pageaddr (h.refs pr).blocktype, a ∈ free pr) :
    ∃ h', removeLists h pr (h.refs pr).blocktype = .ok h' ∧ h.Relinked h' ∧
      Blocks h' live (all.erase pr) free := by
  obtain ⟨h', hrun, hl, hr⟩ := removeLists_spec hb.lists hlen hpr (hb.page pr hpr).blocktype
  refine ⟨h', hrun, hr, hl, ?_, ?_, ?_⟩
  · intro q hq
    exact hr.pageOk (hb.page q (List.mem_of_mem_erase hq))
  · intro x hx hsmall
    obtain ⟨q, hq, hxq, hxf, hxs⟩ := hb.small x hx hsmall
    have hne : q ≠ pr := by
      rintro rfl
      exact hxf (hall _ hxq)
    refine ⟨q, (List.mem_erase_of_ne hne).mpr hq, ?_, hxf, ?_⟩
    · rw [hr.pageaddr, hr.blocktype]
      exact hxq
    · rw [hr.blocktype]
      exact hxs
  · intro q hq c hc hcf
    rw [hr.pageaddr, hr.blocktype] at hc
    exact hb.used q (List.mem_of_mem_erase hq) c hc hcf

/-- Memory outside the free blocks is of no concern. -/
theorem Blocks.store {x v : ℕ} (hb : Blocks h live all free)
    (hx : ∀ pr ∈ all, x ∉ free pr) :
    Blocks { h with mem := Function.update h.mem x v } live all free where
  lists := hb.lists.congr rfl rfl fun _ _ => ⟨rfl, rfl, rfl⟩
  page := by
    intro pr hpr
    refine (hb.page pr hpr).congr fun a ha => ?_
    have hne : a ≠ x := fun he => hx pr hpr (he ▸ ha)
    exact Function.update_of_ne hne _ _
  small := hb.small
  used := hb.used

/-- Blocks are not about the roots. -/
theorem Blocks.setRoot (hb : Blocks h live all free) (r : ℕ) (root : KheapRoot) :
    Blocks (h.setRoot r root) live all free where
  lists := hb.lists.congr rfl rfl fun _ _ => ⟨rfl, rfl, rfl⟩
  page := hb.page
  small := hb.small
  used := hb.used

end Blocks

/-! ### Pagerefs -/

/-- The pagerefs in use: those of the heap pages `all`, and those the threads have taken. -/
structure Slots (h : Heap) (all : List ℕ) (pc : T → Pc) : Prop where
  counted : Counted h
  ref : ∀ pr ∈ all, ∃ r b, IsRef h pr r b ∧ (h.kheaproots r).inuse b = true
  taken : ∀ t r b, (pc t).slot = some (r, b) → r < numPagerefpages ∧ b < npagerefsPerPage ∧
    (h.kheaproots r).inuse b = true ∧ ∀ pr ∈ all, ¬ IsRef h pr r b
  once : ∀ t t' x, (pc t).slot = some x → (pc t').slot = some x → t = t'

section Slots

variable {h h' : Heap} {all : List ℕ} {pc pc' : T → Pc}

/-- A pageref has one place. -/
theorem IsRef.unique {pr r b r' b' : ℕ} (hap : Apart h) (hr : IsRef h pr r b)
    (hr' : IsRef h pr r' b') : r = r' ∧ b = b' := by
  have hrr : r = r' := (index_lt_iff hap hr' hr.1 hr.2.2.1).mp (by
    obtain ⟨hlt, hb, hp, rfl⟩ := hr
    have hfit := hap.1 r hlt
    unfold Heap.refAddr sizeofPageref npagerefsPerPage sub32 pageSize at *
    omega)
  subst hrr
  refine ⟨rfl, ?_⟩
  have heq := hr.2.2.2.symm.trans hr'.2.2.2
  unfold Heap.refAddr sizeofPageref at heq
  omega

/-- There are not more heap pages than pagerefs. -/
theorem Slots.length_lt (hs : Slots h all pc) (hnd : all.Nodup) : all.length < walkFuel := by
  classical
  have hsub : all.toFinset ⊆ (Finset.range numPagerefpages ×ˢ Finset.range npagerefsPerPage).image
      fun x => h.refAddr x.1 x.2 := by
    intro pr hpr
    obtain ⟨r, b, ⟨hr, hb, -, rfl⟩, -⟩ := hs.ref pr (List.mem_toFinset.mp hpr)
    exact Finset.mem_image.mpr ⟨(r, b), by simp [hr, hb], rfl⟩
  have hcard := (Finset.card_le_card hsub).trans Finset.card_image_le
  rw [List.toFinset_card_of_nodup hnd, Finset.card_product, Finset.card_range,
    Finset.card_range] at hcard
  unfold walkFuel
  omega

/-- Steps of the threads that take no pageref. One that a thread lets go of stays in use. -/
theorem Slots.mono (hs : Slots h all pc) (hr : h'.kheaproots = h.kheaproots)
    (hpc : ∀ t x, (pc' t).slot = some x → (pc t).slot = some x) : Slots h' all pc' := by
  have href : ∀ pr r b, IsRef h' pr r b ↔ IsRef h pr r b := by
    intro pr r b
    unfold IsRef Heap.refAddr
    rw [hr]
  refine ⟨?_, ?_, ?_, ?_⟩
  · unfold Counted
    rw [hr]
    exact hs.counted
  · simp only [href, hr]
    exact hs.ref
  · simp only [href, hr]
    exact fun t r b hx => hs.taken t r b (hpc t _ hx)
  · exact fun t t' x hx hx' => hs.once t t' x (hpc t x hx) (hpc t' x hx')

theorem Slots.congr (hs : Slots h all pc) (hr : h'.kheaproots = h.kheaproots)
    (hpc : ∀ t, (pc' t).slot = (pc t).slot) : Slots h' all pc' :=
  hs.mono hr fun t _ hx => (hpc t).symm.trans hx

/-- A thread takes a pageref that is not in use. -/
theorem Slots.take [DecidableEq T] {r b : ℕ} {t : T} {p : Pc} (hs : Slots h all pc)
    (hap : Apart h) (hr : r < numPagerefpages) (hb : b < npagerefsPerPage)
    (hc : (h.kheaproots r).inuse b = false)
    (hnew : p.slot = some (r, b)) :
    Slots (h.setRoot r ((h.kheaproots r).take b)) all (Function.update pc t p) := by
  have hpage : ∀ r', ((h.setRoot r ((h.kheaproots r).take b)).kheaproots r').page =
      (h.kheaproots r').page := by
    intro r'
    by_cases hrr : r' = r
    · subst hrr
      simp [Heap.setRoot, KheapRoot.take]
    · simp [Heap.setRoot, hrr]
  have href : ∀ pr r' b', IsRef (h.setRoot r ((h.kheaproots r).take b)) pr r' b' ↔
      IsRef h pr r' b' := by
    intro pr r' b'
    unfold IsRef Heap.refAddr
    rw [hpage]
  have hin : ∀ r' b', ((h.setRoot r ((h.kheaproots r).take b)).kheaproots r').inuse b' = true ↔
      (h.kheaproots r').inuse b' = true ∨ (r' = r ∧ b' = b) := by
    intro r' b'
    by_cases hrr : r' = r
    · subst hrr
      simp [Heap.setRoot, KheapRoot.inuse_take, or_comm]
    · simp [Heap.setRoot, hrr]
  have hslot : ∀ t' x, (Function.update pc t p t').slot = some x →
      (t' = t ∧ x = (r, b)) ∨ (t' ≠ t ∧ (pc t').slot = some x) := by
    intro t' x hx
    by_cases htt : t' = t
    · subst htt
      rw [Function.update_self, hnew] at hx
      exact .inl ⟨rfl, (Option.some.inj hx).symm⟩
    · rw [Function.update_of_ne htt] at hx
      exact .inr ⟨htt, hx⟩
  -- what is in use already is not the pageref taken now
  have hne : ∀ t', (pc t').slot ≠ some (r, b) := by
    intro t' hx
    have := (hs.taken t' r b hx).2.2.1
    rw [hc] at this
    exact absurd this (by decide)
  refine ⟨?_, ?_, ?_, ?_⟩
  · exact hs.counted.setRoot r ((hs.counted r hr).take hb hc)
  · intro pr hpr
    obtain ⟨r', b', hr', hi⟩ := hs.ref pr hpr
    exact ⟨r', b', (href _ _ _).mpr hr', (hin _ _).mpr (.inl hi)⟩
  · intro t' r' b' hx
    rcases hslot t' _ hx with ⟨-, hx⟩ | ⟨-, hx⟩
    · obtain ⟨rfl, rfl⟩ := Prod.mk.inj hx
      refine ⟨hr, hb, (hin _ _).mpr (.inr ⟨rfl, rfl⟩), fun pr hpr hcon => ?_⟩
      obtain ⟨r'', b'', hr'', hi⟩ := hs.ref pr hpr
      obtain ⟨rfl, rfl⟩ := IsRef.unique hap ((href _ _ _).mp hcon) hr''
      rw [hc] at hi
      exact absurd hi (by decide)
    · obtain ⟨h₁, h₂, h₃, h₄⟩ := hs.taken t' r' b' hx
      exact ⟨h₁, h₂, (hin _ _).mpr (.inl h₃), fun pr hpr hcon => h₄ pr hpr ((href _ _ _).mp hcon)⟩
  · intro t₁ t₂ x h₁ h₂
    rcases hslot t₁ x h₁ with ⟨e₁, hx₁⟩ | ⟨-, h₁⟩
    · rcases hslot t₂ x h₂ with ⟨e₂, -⟩ | ⟨-, h₂⟩
      · exact e₁.trans e₂.symm
      · exact absurd (hx₁ ▸ h₂) (hne t₂)
    · rcases hslot t₂ x h₂ with ⟨-, hx₂⟩ | ⟨-, h₂⟩
      · exact absurd (hx₂ ▸ h₁) (hne t₁)
      · exact hs.once t₁ t₂ x h₁ h₂

/-- A root gets its page. -/
theorem Slots.install {r va : ℕ} (hs : Slots h all pc) (hr : r < numPagerefpages)
    (hp : (h.kheaproots r).page = 0)
    (hap : Apart (h.setRoot r { h.kheaproots r with page := va })) :
    Slots (h.setRoot r { h.kheaproots r with page := va }) all pc := by
  have hin : ∀ r', ((h.setRoot r { h.kheaproots r with page := va }).kheaproots r').inuse =
      (h.kheaproots r').inuse := by
    intro r'
    by_cases hrr : r' = r
    · subst hrr
      funext b
      simp [Heap.setRoot, KheapRoot.inuse]
    · simp [Heap.setRoot, hrr]
  have href : ∀ pr r' b', r' ≠ r →
      (IsRef (h.setRoot r { h.kheaproots r with page := va }) pr r' b' ↔
      IsRef h pr r' b') := by
    intro pr r' b' hrr
    simp [IsRef, Heap.refAddr, Heap.setRoot, hrr]
  have hold : ∀ pr r' b', IsRef h pr r' b' → r' ≠ r := by
    rintro pr r' b' ⟨-, -, hp', -⟩ rfl
    exact hp' hp
  refine ⟨?_, ?_, ?_, hs.once⟩
  · refine hs.counted.setRoot r ?_
    exact hs.counted r hr
  · intro pr hpr
    obtain ⟨r', b', hr', hi⟩ := hs.ref pr hpr
    refine ⟨r', b', (href pr r' b' (hold _ _ _ hr')).mpr hr', ?_⟩
    rw [hin]
    exact hi
  · intro t r' b' hx
    obtain ⟨h₁, h₂, h₃, h₄⟩ := hs.taken t r' b' hx
    refine ⟨h₁, h₂, by rw [hin]; exact h₃, fun pr hpr hcon => ?_⟩
    by_cases hrr : r' = r
    · obtain ⟨r'', b'', hr'', -⟩ := hs.ref pr hpr
      have hne := hold _ _ _ hr''
      have := IsRef.unique hap hcon ((href pr r'' b'' hne).mpr hr'')
      exact hne (this.1.symm.trans hrr)
    · exact h₄ pr hpr ((href pr r' b' hrr).mp hcon)

/-- A thread makes a heap page with the pageref it has taken. -/
theorem Slots.push [DecidableEq T] {r b pr : ℕ} {t : T} {p : Pc} (hs : Slots h all pc)
    (hap : Apart h) (hr : h'.kheaproots = h.kheaproots) (hold : (pc t).slot = some (r, b))
    (hpage : (h.kheaproots r).page ≠ 0) (hpr : pr = h.refAddr r b) (hnew : p.slot = none) :
    Slots h' (pr :: all) (Function.update pc t p) := by
  obtain ⟨hrl, hbl, hinuse, hfresh⟩ := hs.taken t r b hold
  have href : ∀ q r' b', IsRef h' q r' b' ↔ IsRef h q r' b' := by
    intro q r' b'
    unfold IsRef Heap.refAddr
    rw [hr]
  have hslot : ∀ t' x, (Function.update pc t p t').slot = some x →
      t' ≠ t ∧ (pc t').slot = some x := by
    intro t' x hx
    by_cases htt : t' = t
    · subst htt
      rw [Function.update_self, hnew] at hx
      exact absurd hx (by simp)
    · rw [Function.update_of_ne htt] at hx
      exact ⟨htt, hx⟩
  have hself : IsRef h pr r b := ⟨hrl, hbl, hpage, hpr⟩
  refine ⟨?_, ?_, ?_, ?_⟩
  · unfold Counted
    rw [hr]
    exact hs.counted
  · rintro q (_ | ⟨_, hq⟩)
    · exact ⟨r, b, (href _ _ _).mpr hself, by rw [hr]; exact hinuse⟩
    · obtain ⟨r', b', hr', hi⟩ := hs.ref q hq
      exact ⟨r', b', (href _ _ _).mpr hr', by rw [hr]; exact hi⟩
  · intro t' r' b' hx
    obtain ⟨htt, hx⟩ := hslot t' _ hx
    obtain ⟨h₁, h₂, h₃, h₄⟩ := hs.taken t' r' b' hx
    refine ⟨h₁, h₂, by rw [hr]; exact h₃, ?_⟩
    rintro q (_ | ⟨_, hq⟩) hcon
    · obtain ⟨rfl, rfl⟩ := IsRef.unique hap ((href _ _ _).mp hcon) hself
      exact htt (hs.once t' t _ hx hold)
    · exact h₄ q hq ((href _ _ _).mp hcon)
  · intro t₁ t₂ x h₁ h₂
    exact hs.once t₁ t₂ x (hslot t₁ x h₁).2 (hslot t₂ x h₂).2

/-- The pageref of a heap page is given back with the page. -/
theorem Slots.drop {r b pr : ℕ} (hs : Slots h all pc) (hnd : all.Nodup)
    (hpr : pr ∈ all) (hisref : IsRef h pr r b) (hin : (h.kheaproots r).inuse b = true) :
    Slots (h.setRoot r ((h.kheaproots r).drop b)) (all.erase pr) pc := by
  have hpage : ∀ r', ((h.setRoot r ((h.kheaproots r).drop b)).kheaproots r').page =
      (h.kheaproots r').page := by
    intro r'
    by_cases hrr : r' = r
    · subst hrr
      simp [Heap.setRoot, KheapRoot.drop]
    · simp [Heap.setRoot, hrr]
  have href : ∀ q r' b', IsRef (h.setRoot r ((h.kheaproots r).drop b)) q r' b' ↔
      IsRef h q r' b' := by
    intro q r' b'
    unfold IsRef Heap.refAddr
    rw [hpage]
  have hkeep : ∀ r' b', (h.kheaproots r').inuse b' = true → ¬ (r' = r ∧ b' = b) →
      ((h.setRoot r ((h.kheaproots r).drop b)).kheaproots r').inuse b' = true := by
    intro r' b' hi hne
    by_cases hrr : r' = r
    · subst hrr
      have hbb : b' ≠ b := fun he => hne ⟨rfl, he⟩
      simpa [Heap.setRoot, KheapRoot.inuse_drop, hbb] using hi
    · simpa [Heap.setRoot, hrr] using hi
  refine ⟨?_, ?_, ?_, hs.once⟩
  · exact hs.counted.setRoot r ((hs.counted r hisref.1).drop hisref.2.1 hin)
  · intro q hq
    obtain ⟨hqp, hq⟩ := (hnd.mem_erase_iff).mp hq
    obtain ⟨r', b', hr', hi⟩ := hs.ref q hq
    refine ⟨r', b', (href _ _ _).mpr hr', hkeep r' b' hi ?_⟩
    rintro ⟨rfl, rfl⟩
    exact hqp (hr'.2.2.2.trans hisref.2.2.2.symm)
  · intro t r' b' hx
    obtain ⟨h₁, h₂, h₃, h₄⟩ := hs.taken t r' b' hx
    refine ⟨h₁, h₂, hkeep r' b' h₃ ?_, fun q hq hcon =>
      h₄ q (List.mem_of_mem_erase hq) ((href _ _ _).mp hcon)⟩
    rintro ⟨rfl, rfl⟩
    exact h₄ pr hpr hisref

end Slots

/-! ### Regions -/

/-- Who has a region of the page allocator: the heap for one of its pages, a root for its pagerefs,
a client for a large block, or a thread on the way. -/
inductive Owner (T : Type) where
  | heapPage (pr : ℕ)
  | root (r : ℕ)
  | big
  | page (t : T)
  | refpage (t : T)

/-- The region of an owner starts at an address. -/
def Owns (h : Heap) (live : List Block) (all : List ℕ) (pc : T → Pc) : Owner T → ℕ → Prop
  | .heapPage pr, a => pr ∈ all ∧ (h.refs pr).pageaddr = a
  | .root r, a => r < numPagerefpages ∧ a ≠ 0 ∧ (h.kheaproots r).page = a
  | .big, a => ∃ x ∈ live, largestSubpageSize ≤ x.size ∧ x.addr = a
  | .page t, a => (pc t).page = some a
  | .refpage t, a => (pc t).refpage = some a

/-- The regions not given back are pages inside the address space, and do not meet. -/
structure PagerOk (p : Pager) : Prop where
  region : ∀ n, p.Unreleased n → (p.region n).addr ≠ 0 ∧ (p.region n).addr % pageSize = 0 ∧
    0 < (p.region n).npages ∧ (p.region n).fin < 2 ^ 32
  apart : ∀ n m, p.Unreleased n → p.Unreleased m → n ≠ m →
    (p.region n).fin ≤ (p.region m).addr ∨ (p.region m).fin ≤ (p.region n).addr
  /-- No region is given back twice. -/
  frees : ∀ n < p.count, p.frees n ≤ 1

/-- A region that was not given back starts at an address. -/
def Pager.Held (p : Pager) (a : ℕ) : Prop := ∃ n, p.Unreleased n ∧ (p.region n).addr = a

section Pager

variable {p : Pager} {a : ℕ}

theorem Region.lt_fin {g : Region} (h : 0 < g.npages) : g.addr + pageSize ≤ g.fin := by
  have := Nat.mul_le_mul_right pageSize h
  unfold Region.fin
  omega

/-- Where it starts determines a region that was not given back. -/
theorem PagerOk.unique (hp : PagerOk p) {n m : ℕ} (hn : p.Unreleased n) (hm : p.Unreleased m)
    (h : (p.region n).addr = (p.region m).addr) : n = m := by
  by_contra hne
  have := hp.apart n m hn hm hne
  have h₁ := Region.lt_fin (hp.region n hn).2.2.1
  have h₂ := Region.lt_fin (hp.region m hm).2.2.1
  unfold pageSize at *
  omega

theorem PagerOk.find (hp : PagerOk p) {n : ℕ} (hn : p.Unreleased n) :
    p.find (p.region n).addr = some n := by
  unfold Pager.find
  cases hf : (List.range p.count).find? fun m =>
      decide (p.frees m = 0 ∧ (p.region m).addr = (p.region n).addr) with
  | none =>
    have := List.find?_eq_none.mp hf n (List.mem_range.mpr hn.1)
    simp [hn.2] at this
  | some m =>
    have hm := List.find?_some hf
    simp only [decide_eq_true_eq] at hm
    have hlt := List.mem_range.mp (List.mem_of_find?_eq_some hf)
    rw [hp.unique ⟨hlt, hm.1⟩ hn hm.2]

theorem unreleased_give (g : Region) (n : ℕ) :
    (p.give g).Unreleased n ↔ p.Unreleased n ∨ n = p.count := by
  unfold Pager.Unreleased Pager.give
  by_cases hn : n = p.count
  · simp [hn]
  · simp only [Function.update_of_ne hn]
    omega

theorem region_give (g : Region) {n : ℕ} (hn : p.Unreleased n) :
    (p.give g).region n = p.region n := by
  have hne : n ≠ p.count := by
    have := hn.1
    omega
  simp [Pager.give, hne]

/-- A new region. -/
theorem PagerOk.give (hp : PagerOk p) {g : Region} (hg : p.MayGive g) (h0 : 0 < g.npages) :
    PagerOk (p.give g) := by
  have hnew : (p.give g).region p.count = g := by simp [Pager.give]
  refine ⟨?_, ?_, ?_⟩
  · intro n hn
    rcases (unreleased_give g n).mp hn with hn | rfl
    · rw [region_give g hn]
      exact hp.region n hn
    · rw [hnew]
      exact ⟨hg.1, hg.2.1, h0, hg.2.2.1⟩
  · intro n m hn hm hne
    rcases (unreleased_give g n).mp hn with hn | rfl <;>
      rcases (unreleased_give g m).mp hm with hm | rfl
    · rw [region_give g hn, region_give g hm]
      exact hp.apart n m hn hm hne
    · rw [region_give g hn, hnew]
      exact (hg.2.2.2 n hn.1 hn.2).symm
    · rw [region_give g hm, hnew]
      exact hg.2.2.2 m hm.1 hm.2
    · exact absurd rfl hne
  · intro n hn
    by_cases hc : n = p.count
    · simp [Pager.give, hc]
    · have hlt : n < p.count := by
        unfold Pager.give at hn
        dsimp only at hn
        omega
      simpa [Pager.give, hc] using hp.frees n hlt

theorem held_give {g : Region} : (p.give g).Held a ↔ p.Held a ∨ a = g.addr := by
  have hnew : (p.give g).region p.count = g := by simp [Pager.give]
  constructor
  · rintro ⟨n, hn, rfl⟩
    rcases (unreleased_give g n).mp hn with hn | rfl
    · exact .inl ⟨n, hn, by rw [region_give g hn]⟩
    · exact .inr (by rw [hnew])
  · rintro (⟨n, hn, rfl⟩ | rfl)
    · exact ⟨n, (unreleased_give g n).mpr (.inl hn), by rw [region_give g hn]⟩
    · exact ⟨p.count, (unreleased_give g _).mpr (.inr rfl), by rw [hnew]⟩

/-- A region that may be handed out does not start where one not given back starts. -/
theorem PagerOk.not_held (hp : PagerOk p) {g : Region} (hg : p.MayGive g) (h0 : 0 < g.npages) :
    ¬ p.Held g.addr := by
  rintro ⟨n, hn, he⟩
  have := hg.2.2.2 n hn.1 hn.2
  have h₁ := Region.lt_fin (hp.region n hn).2.2.1
  have h₂ := Region.lt_fin h0
  unfold pageSize at *
  omega

/-- The page allocator after `free_kpages` of region `n`. -/
def Pager.released (p : Pager) (n : ℕ) : Pager :=
  { p with frees := Function.update p.frees n (p.frees n + 1) }

theorem PagerOk.freeKpages (hp : PagerOk p) {n : ℕ} (hn : p.Unreleased n) :
    p.freeKpages (p.region n).addr = .ok (p.released n) := by
  unfold Pager.freeKpages
  rw [hp.find hn]
  rfl

theorem unreleased_released {n : ℕ} (m : ℕ) :
    (p.released n).Unreleased m ↔ p.Unreleased m ∧ m ≠ n := by
  unfold Pager.Unreleased Pager.released
  by_cases hm : m = n
  · simp [hm]
  · simp [hm]

theorem PagerOk.released (hp : PagerOk p) {n : ℕ} (hn : p.Unreleased n) :
    PagerOk (p.released n) := by
  refine ⟨?_, ?_, ?_⟩
  · intro m hm
    exact hp.region m ((unreleased_released m).mp hm).1
  · intro m k hm hk
    exact hp.apart m k ((unreleased_released m).mp hm).1 ((unreleased_released k).mp hk).1
  · intro m hm
    by_cases hmn : m = n
    · subst hmn
      simp [Pager.released, hn.2]
    · simpa [Pager.released, hmn] using hp.frees m hm

theorem PagerOk.held_released (hp : PagerOk p) {n : ℕ} (hn : p.Unreleased n) :
    (p.released n).Held a ↔ p.Held a ∧ a ≠ (p.region n).addr := by
  constructor
  · rintro ⟨m, hm, rfl⟩
    obtain ⟨hm, hne⟩ := (unreleased_released m).mp hm
    exact ⟨⟨m, hm, rfl⟩, fun he => hne (hp.unique hm hn he)⟩
  · rintro ⟨⟨m, hm, rfl⟩, hne⟩
    exact ⟨m, (unreleased_released m).mpr ⟨hm, fun he => hne (by rw [he])⟩, rfl⟩

end Pager

/-- The regions not given back and their owners. -/
structure Regions (s : State T) (all : List ℕ) : Prop where
  pager : PagerOk s.pager
  ledger : Ledger s.pager.Held (Owns s.heap s.live all s.pc)
  /-- The region of a large block is as large as was asked for. -/
  big : ∀ x ∈ s.live, largestSubpageSize ≤ x.size →
    ∃ n, s.pager.Unreleased n ∧ s.pager.region n = ⟨x.addr, State.npages x.size⟩

section Regions

variable {s : State T} {all : List ℕ}

/-- What is owned is a page at least. -/
theorem Regions.owned (hr : Regions s all) {w : Owner T} {a : ℕ}
    (hw : Owns s.heap s.live all s.pc w a) :
    ∃ n, s.pager.Unreleased n ∧ (s.pager.region n).addr = a ∧ a ≠ 0 ∧ a % pageSize = 0 ∧
      a + pageSize < 2 ^ 32 := by
  obtain ⟨n, hn, rfl⟩ := hr.ledger.used_of_holds hw
  obtain ⟨h₁, h₂, h₃, h₄⟩ := hr.pager.region n hn
  have := Region.lt_fin h₃
  exact ⟨n, hn, rfl, h₁, h₂, by omega⟩

/-- Two owners have pages that do not meet. -/
theorem Regions.apart (hr : Regions s all) {w v : Owner T} {a a' : ℕ}
    (hw : Owns s.heap s.live all s.pc w a) (hv : Owns s.heap s.live all s.pc v a')
    (hne : w ≠ v) : a + pageSize ≤ a' ∨ a' + pageSize ≤ a := by
  obtain ⟨n, hn, rfl⟩ := hr.ledger.used_of_holds hw
  obtain ⟨m, hm, rfl⟩ := hr.ledger.used_of_holds hv
  have hnm : n ≠ m := by
    rintro rfl
    exact hne (hr.ledger.unique w v _ hw hv)
  have h₁ := Region.lt_fin (hr.pager.region n hn).2.2.1
  have h₂ := Region.lt_fin (hr.pager.region m hm).2.2.1
  have := hr.pager.apart n m hn hm hnm
  omega

theorem Regions.rootsApart (hr : Regions s all) : Apart s.heap := by
  refine ⟨fun r hlt => ?_, fun r hlt r' hlt' hne hp hp' => ?_⟩
  · by_cases hp : (s.heap.kheaproots r).page = 0
    · rw [hp]
      decide
    · obtain ⟨-, -, -, -, -, hfit⟩ := hr.owned (w := .root r) ⟨hlt, hp, rfl⟩
      exact hfit
  · exact hr.apart (w := .root r) (v := .root r') ⟨hlt, hp, rfl⟩ ⟨hlt', hp', rfl⟩
      (fun he => hne (Owner.root.inj he))

theorem Regions.pagesApart (hr : Regions s all) : PagesApart s.heap all :=
  fun pr hpr pr' hpr' hne => hr.apart (w := .heapPage pr) (v := .heapPage pr') ⟨hpr, rfl⟩
    ⟨hpr', rfl⟩ (fun he => hne (Owner.heapPage.inj he))

/-- A large live block starts outside the heap pages. -/
theorem Regions.big_apart (hr : Regions s all) {x : Block} {pr : ℕ} (hx : x ∈ s.live)
    (hbig : largestSubpageSize ≤ x.size) (hpr : pr ∈ all) :
    x.addr < (s.heap.refs pr).pageaddr ∨ (s.heap.refs pr).pageaddr + pageSize ≤ x.addr := by
  have := hr.apart (w := .big) (v := .heapPage pr) ⟨x, hx, hbig, rfl⟩ ⟨hpr, rfl⟩ (by simp)
  unfold pageSize at *
  omega

end Regions

/-! ### Everything together -/

/-- The regions that came too late to be pageref pages: each is given back, or there is a thread
about to do so. -/
structure Lost (s : State T) : Prop where
  lost : ∀ n ∈ s.lost, n < s.pager.count ∧
    (s.pager.frees n = 0 → ∃ t, (s.pc t).spare = some (s.pager.region n).addr)
  spare : ∀ t va, (s.pc t).spare = some va →
    ∃ n ∈ s.lost, s.pager.Unreleased n ∧ (s.pager.region n).addr = va

/-- The invariant, for the heap pages `all` with the free blocks `free pr` each, but for a fresh
page of which no block is handed out yet. -/
structure Inv₀ (s : State T) (all : List ℕ) (free : ℕ → List ℕ) : Prop where
  blocks : Blocks s.heap s.live all free
  /-- No block is handed out twice. -/
  once : (s.live.map Block.addr).Nodup
  slots : Slots s.heap all s.pc
  regions : Regions s all
  lost : Lost s
  sane : ∀ t, (s.pc t).Sane
  ready : ∀ t r, (s.pc t).ready = some r → (s.heap.kheaproots r).page ≠ 0

/-- The invariant. -/
structure Inv (s : State T) (all : List ℕ) (free : ℕ → List ℕ) : Prop extends Inv₀ s all free where
  nonempty : NoEmptyPage s.heap all free

theorem Inv₀.length_lt {s : State T} {all : List ℕ} {free : ℕ → List ℕ} (h : Inv₀ s all free) :
    all.length < walkFuel :=
  h.slots.length_lt h.blocks.lists.all.nodup

end Kmalloc

end Os161
