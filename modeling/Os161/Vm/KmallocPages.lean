import Os161.Vm.KmallocInvariant

/-!
# Pages on their way into the kernel heap and out of it

`kmalloc` does not hold its spinlock while it calls `alloc_kpages` or `free_kpages`. In between, a
page belongs to the thread that has asked for it, and is known only by the place in the code at
which that thread is. This module has the steps that move such pages: the page allocator hands one
out or takes one back, a thread takes a pageref for the page it has, or puts a page into a root.
Each keeps the invariant of `Vm.KmallocInvariant`.

## How a change of owner is stated

The invariant says that every region the page allocator has handed out and not got back has exactly
one owner: a heap page, a root, a large block, or a thread, which can have two (`Owner`, `Owns`). So
a step is described by what it does to `Owns`. Four things occur, and `Lib.Ledger` has a rule for
each:

* nothing changes (`owns_congr`);
* a new region gets an owner (`Inv.give`, with `owns_addPage` and `owns_addRefpage`);
* an owner disappears, and its region with it (`Inv.release`, with `owns_dropPage` and
  `owns_dropRefpage`);
* a region passes from one owner to another. Then a function on owners says to whom (`installed`,
  and two more in `Vm.KmallocBlocks`).

## What is deliberately absent

No block is handed out or taken back here, and no code is run: `Vm.KmallocBlocks` and
`Vm.KmallocStep` do that, and use what is here for the state before and after.

## Main definitions

* `installed` — how the owners change when a root gets its page

## Main results

* `Inv.goto` — a step that moves a thread and nothing else
* `Inv.give`, `Inv.release` — the page allocator
* `Inv.takeSlot`, `Inv.install` — a pageref taken, a page put into a root
-/

namespace Os161

namespace Kmalloc

variable {T : Type} [DecidableEq T] {s : State T} {all : List ℕ} {free : ℕ → List ℕ} {t : T}

/-! ### What a thread has, after it moved -/

/-- What a thread has is read off the place it is at. If the new place of `t` has the same of it,
nothing changes for anybody. -/
theorem update_proj {γ : Type} (f : Pc → γ) {c : T → Pc} {p : Pc} (h : f p = f (c t)) (u : T) :
    f (Function.update c t p u) = f (c u) := by
  by_cases hu : u = t
  · subst hu
    rw [Function.update_self, h]
  · rw [Function.update_of_ne hu]

omit [DecidableEq T] in
/-- Whether a region is owned, in a state in which the same things are. -/
theorem owns_congr {h h' : Heap} {live live' : List Block} {all : List ℕ} {pc pc' : T → Pc}
    (hrefs : ∀ pr ∈ all, (h'.refs pr).pageaddr = (h.refs pr).pageaddr)
    (hroots : ∀ r, (h'.kheaproots r).page = (h.kheaproots r).page)
    (hlive : ∀ x, largestSubpageSize ≤ x.size → (x ∈ live' ↔ x ∈ live))
    (hpage : ∀ u, (pc' u).page = (pc u).page) (href : ∀ u, (pc' u).refpage = (pc u).refpage)
    (w : Owner T) (a : ℕ) : Owns h' live' all pc' w a ↔ Owns h live all pc w a := by
  cases w with
  | heapPage pr =>
    constructor
    · rintro ⟨hpr, rfl⟩
      exact ⟨hpr, (hrefs pr hpr).symm⟩
    · rintro ⟨hpr, rfl⟩
      exact ⟨hpr, hrefs pr hpr⟩
  | root r =>
    simp only [Owns, hroots]
  | big =>
    constructor
    · rintro ⟨x, hx, hb, rfl⟩
      exact ⟨x, (hlive x hb).mp hx, hb, rfl⟩
    · rintro ⟨x, hx, hb, rfl⟩
      exact ⟨x, (hlive x hb).mpr hx, hb, rfl⟩
  | page u =>
    simp only [Owns, hpage]
  | refpage u =>
    simp only [Owns, href]

omit [DecidableEq T] in
/-- The record of lost regions looks at the page allocator and at spare pages only. -/
theorem Lost.congr {s' : State T} (h : Lost s) (hp : s'.pager = s.pager) (hl : s'.lost = s.lost)
    (hsp : ∀ u, (s'.pc u).spare = (s.pc u).spare) : Lost s' := by
  refine ⟨fun n hn => ?_, fun u va hu => ?_⟩
  · rw [hl] at hn
    rw [hp]
    obtain ⟨hlt, hex⟩ := h.lost n hn
    refine ⟨hlt, fun h0 => ?_⟩
    obtain ⟨u, hu⟩ := hex h0
    exact ⟨u, (hsp u).trans hu⟩
  · rw [hl, hp]
    exact h.spare u va ((hsp u).symm.trans hu)

/-- A thread that moves still knows of its arguments what it must. -/
theorem sane_update {pc : T → Pc} {p : Pc} (h : ∀ u, (pc u).Sane) (hp : p.Sane) (u : T) :
    (Function.update pc t p u).Sane := by
  by_cases hu : u = t
  · subst hu
    rwa [Function.update_self]
  · rw [Function.update_of_ne hu]
    exact h u

/-- A thread that moves has seen a page in the root it counts on. -/
theorem ready_update {heap : Heap} {pc : T → Pc} {p : Pc}
    (h : ∀ u r, (pc u).ready = some r → (heap.kheaproots r).page ≠ 0)
    (hp : ∀ r, p.ready = some r → (heap.kheaproots r).page ≠ 0) (u : T) (r : ℕ)
    (hr : (Function.update pc t p u).ready = some r) : (heap.kheaproots r).page ≠ 0 := by
  by_cases hu : u = t
  · subst hu
    rw [Function.update_self] at hr
    exact hp r hr
  · rw [Function.update_of_ne hu] at hr
    exact h u r hr

/-- A step that moves a thread and nothing else. -/
theorem Inv.goto {p : Pc} (h : Inv s all free) (hpage : p.page = (s.pc t).page)
    (href : p.refpage = (s.pc t).refpage) (hspare : p.spare = (s.pc t).spare)
    (hslot : p.slot = (s.pc t).slot ∨ p.slot = none) (hsane : p.Sane)
    (hready : ∀ r, p.ready = some r → (s.heap.kheaproots r).page ≠ 0) :
    Inv (s.goto t p) all free where
  blocks := h.blocks
  nonempty := h.nonempty
  once := h.once
  slots := by
    refine h.slots.mono rfl fun u x hx => ?_
    by_cases hu : u = t
    · subst hu
      simp only [State.goto, Function.update_self] at hx
      rcases hslot with hslot | hslot
      · exact hslot ▸ hx
      · exact absurd (hslot.symm.trans hx) (by simp)
    · simpa [State.goto, hu] using hx
  regions :=
    { pager := h.regions.pager
      ledger := h.regions.ledger.congr (fun _ => Iff.rfl)
        (owns_congr (fun _ _ => rfl) (fun _ => rfl) (fun _ _ => Iff.rfl)
          (update_proj Pc.page hpage) (update_proj Pc.refpage href))
      big := h.regions.big }
  lost := h.lost.congr rfl rfl (update_proj Pc.spare hspare)
  sane := sane_update h.sane hsane
  ready := ready_update h.ready hready

/-! ### The page allocator

`Pager.MayGive` is all that is known of the page allocator: a region it hands out does not meet one
it has handed out before and not got back. -/

/-- A region that is handed out was not lost, as it has a new number. -/
theorem Lost.give {p : Pc} {g : Region} (h : Lost s) (hspare : p.spare = (s.pc t).spare)
    {live : List Block} :
    Lost { s with pager := s.pager.give g, live := live, pc := Function.update s.pc t p } := by
  have hsp : ∀ u, (Function.update s.pc t p u).spare = (s.pc u).spare :=
    update_proj Pc.spare hspare
  refine ⟨fun n hn => ?_, fun u va hu => ?_⟩
  · obtain ⟨hlt, hex⟩ := h.lost n hn
    have hne : n ≠ s.pager.count := by omega
    refine ⟨Nat.lt_succ_of_lt hlt, fun h0 => ?_⟩
    obtain ⟨u, hu⟩ := hex (by simpa [Pager.give, hne] using h0)
    exact ⟨u, by simpa [hsp, Pager.give, hne] using hu⟩
  · obtain ⟨n, hn, hun, ha⟩ := h.spare u va ((hsp u).symm.trans hu)
    exact ⟨n, hn, (unreleased_give g n).mpr (.inl hun), by rw [region_give g hun]; exact ha⟩

/-- `alloc_kpages` answers a thread with a region, which has a new owner. -/
theorem Inv.give {p : Pc} {g : Region} {live : List Block} {w : Owner T} (h : Inv s all free)
    (hg : s.pager.MayGive g) (h0 : 0 < g.npages)
    (hown : ∀ v a, Owns s.heap live all (Function.update s.pc t p) v a ↔
      Owns s.heap s.live all s.pc v a ∨ v = w ∧ a = g.addr)
    (hsmall : ∀ x, x.size < largestSubpageSize → (x ∈ live ↔ x ∈ s.live))
    (hbig : ∀ x ∈ live, largestSubpageSize ≤ x.size → x ∈ s.live ∨
      g = ⟨x.addr, State.npages x.size⟩)
    (honce : (live.map Block.addr).Nodup)
    (hspare : p.spare = (s.pc t).spare) (hslot : p.slot = (s.pc t).slot) (hsane : p.Sane)
    (hready : p.ready = none) :
    Inv { s with pager := s.pager.give g, live := live, pc := Function.update s.pc t p }
      all free where
  blocks :=
    { lists := h.blocks.lists
      page := h.blocks.page
      small := fun x hx hs => h.blocks.small x ((hsmall x hs).mp hx) hs
      used := fun pr hpr a ha hf => by
        obtain ⟨x, hx, hxa, hxs⟩ := h.blocks.used pr hpr a ha hf
        exact ⟨x, (hsmall x hxs).mpr hx, hxa, hxs⟩ }
  nonempty := h.nonempty
  once := honce
  slots := h.slots.congr rfl (update_proj Pc.slot hslot)
  regions :=
    { pager := h.regions.pager.give hg h0
      ledger := h.regions.ledger.claim (h.regions.pager.not_held hg h0)
        (fun a => held_give) hown
      big := by
        intro x hx hb
        rcases hbig x hx hb with hx | rfl
        · obtain ⟨n, hn, hreg⟩ := h.regions.big x hx hb
          exact ⟨n, (unreleased_give g n).mpr (.inl hn), by rw [region_give g hn]; exact hreg⟩
        · exact ⟨s.pager.count, (unreleased_give _ _).mpr (.inr rfl), by simp [Pager.give]⟩ }
  lost := h.lost.give hspare
  sane := sane_update h.sane hsane
  ready := ready_update h.ready fun r hr => by simp [hready] at hr

/-- `free_kpages` by the thread that owns the region. -/
theorem Inv.release {p : Pc} {a : ℕ} {w : Owner T} (h : Inv s all free)
    (hw : Owns s.heap s.live all s.pc w a) (hfun : ∀ b, Owns s.heap s.live all s.pc w b → b = a)
    (hown : ∀ v b, Owns s.heap s.live all (Function.update s.pc t p) v b ↔
      Owns s.heap s.live all s.pc v b ∧ v ≠ w)
    (hnot : w ≠ .big) (hspare : ∀ va, (s.pc t).spare = some va → va = a) (hnew : p.spare = none)
    (hslot : p.slot = (s.pc t).slot) (hsane : p.Sane)
    (hready : ∀ r, p.ready = some r → (s.heap.kheaproots r).page ≠ 0) :
    ∃ s', s.releasing t a p = .ok s' ∧ Inv s' all free := by
  obtain ⟨n, hn, rfl⟩ := h.regions.ledger.used_of_holds hw
  refine ⟨{ s with pager := s.pager.released n }.goto t p, ?_, ?_⟩
  · rw [State.releasing, h.regions.pager.freeKpages hn]
    rfl
  -- the owner goes and so does its region, since each has only one of the other
  have hown' : ∀ v b, Owns s.heap s.live all (Function.update s.pc t p) v b ↔
      Owns s.heap s.live all s.pc v b ∧ ¬ b = (s.pager.region n).addr := by
    intro v b
    rw [hown]
    constructor
    · rintro ⟨hv, hne⟩
      refine ⟨hv, ?_⟩
      rintro rfl
      exact hne (h.regions.ledger.unique v w _ hv hw)
    · rintro ⟨hv, hne⟩
      refine ⟨hv, ?_⟩
      rintro rfl
      exact hne (hfun b hv)
  refine ⟨⟨h.blocks, h.once, h.slots.congr rfl (update_proj Pc.slot hslot), ?_, ?_, ?_, ?_⟩,
    h.nonempty⟩
  · refine ⟨h.regions.pager.released hn, h.regions.ledger.release (· = (s.pager.region n).addr)
      (fun b => h.regions.pager.held_released hn) hown', fun x hx hb => ?_⟩
    obtain ⟨m, hm, hreg⟩ := h.regions.big x hx hb
    refine ⟨m, (unreleased_released m).mpr ⟨hm, ?_⟩, hreg⟩
    rintro rfl
    -- a large block owns its region as well, and is not the owner that goes
    have hx' : Owns s.heap s.live all s.pc .big (s.pager.region m).addr := ⟨x, hx, hb, by rw [hreg]⟩
    exact hnot (h.regions.ledger.unique w .big _ hw hx')
  · -- a region counted as lost waits at a thread with a spare page, which `t` is not any more
    have hspare' : ∀ u va, (Function.update s.pc t p u).spare = some va →
        u ≠ t ∧ (s.pc u).spare = some va := by
      intro u va hu
      by_cases hut : u = t
      · subst hut
        simp [hnew] at hu
      · exact ⟨hut, by simpa [hut] using hu⟩
    refine ⟨fun m hm => ?_, fun u va hu => ?_⟩
    · obtain ⟨hlt, hex⟩ := h.lost.lost m hm
      refine ⟨hlt, fun h0 => ?_⟩
      have hmn : m ≠ n := by
        rintro rfl
        simp [State.goto, Pager.released, hn.2] at h0
      have h0' : s.pager.frees m = 0 := by simpa [State.goto, Pager.released, hmn] using h0
      obtain ⟨u, hu⟩ := hex h0'
      have hut : u ≠ t := by
        rintro rfl
        exact hmn (h.regions.pager.unique ⟨hlt, h0'⟩ hn (hspare _ hu))
      exact ⟨u, by simpa [State.goto, hut, Pager.released] using hu⟩
    · obtain ⟨hut, hsp⟩ := hspare' u va hu
      obtain ⟨m, hm, hun, ha⟩ := h.lost.spare u va hsp
      refine ⟨m, hm, (unreleased_released m).mpr ⟨hun, ?_⟩, ha⟩
      rintro rfl
      -- two threads do not own the same region
      have hu' : Owns s.heap s.live all s.pc (.refpage u) (s.pager.region m).addr := by
        rw [ha]
        exact Pc.refpage_of_spare hsp
      have hkeep := (hown' (.refpage u) _).not.mpr (fun hc => hc.2 rfl)
      simp only [Owns, Function.update_of_ne hut] at hkeep hu'
      exact hkeep hu'
  · exact sane_update h.sane hsane
  · exact ready_update h.ready hready

/-! ### Taking a pageref -/

/-- A thread that has a page takes a pageref for it. -/
theorem Inv.takeSlot {p : Pc} {r b : ℕ} (h : Inv s all free) (hr : r < numPagerefpages)
    (hb : b < npagerefsPerPage) (hc : (s.heap.kheaproots r).inuse b = false)
    (hpage : p.page = (s.pc t).page) (href : p.refpage = (s.pc t).refpage)
    (hspare : p.spare = (s.pc t).spare) (hslot : p.slot = some (r, b)) (hsane : p.Sane)
    (hready : ∀ r', p.ready = some r' → (s.heap.kheaproots r').page ≠ 0) :
    Inv ({ s with heap := s.heap.setRoot r ((s.heap.kheaproots r).take b) }.goto t p) all free := by
  have hpg : ∀ r', ((s.heap.setRoot r ((s.heap.kheaproots r).take b)).kheaproots r').page =
      (s.heap.kheaproots r').page := by
    intro r'
    by_cases hrr : r' = r
    · subst hrr
      simp [Heap.setRoot, KheapRoot.take]
    · simp [Heap.setRoot, hrr]
  refine ⟨⟨h.blocks.setRoot _ _, h.once, h.slots.take h.regions.rootsApart hr hb hc hslot, ?_, ?_,
    ?_, ?_⟩, h.nonempty⟩
  · exact ⟨h.regions.pager, h.regions.ledger.congr (fun _ => Iff.rfl)
      (owns_congr (fun _ _ => rfl) hpg (fun _ _ => Iff.rfl) (update_proj Pc.page hpage)
        (update_proj Pc.refpage href)), h.regions.big⟩
  · exact h.lost.congr rfl rfl (update_proj Pc.spare hspare)
  · exact sane_update h.sane hsane
  · refine ready_update (fun u r' hr' => ?_) fun r' hr' => ?_
    · exact (hpg r').trans_ne (h.ready u r' hr')
    · exact (hpg r').trans_ne (hready r' hr')

/-- How the owner of a region changes when the thread `t` makes it the page of root `r`. -/
def installed (t : T) (r : ℕ) : Owner T → Owner T
  | .refpage u => if u = t then .root r else .refpage u
  | w => w

/-- A thread that waited for the page of a root gets it first. -/
theorem Inv.install {sz blktype prpage r b va : ℕ} (h : Inv s all free)
    (hpc : s.pc t = .gotRefpage sz blktype prpage r b va) (hva : va ≠ 0)
    (hp : (s.heap.kheaproots r).page = 0) :
    Inv ({ s with heap := s.heap.setRoot r { s.heap.kheaproots r with page := va } }.goto t
      (.surplusFreed sz blktype prpage r b)) all free := by
  have hslot : (s.pc t).slot = some (r, b) := by rw [hpc]; rfl
  have href : (s.pc t).refpage = some va := by rw [hpc]; simp [Pc.refpage, hva]
  obtain ⟨hr, hb, -, -⟩ := h.slots.taken t r b hslot
  have hself : ((s.heap.setRoot r { s.heap.kheaproots r with page := va }).kheaproots r).page =
      va := by
    simp [Heap.setRoot]
  have hother : ∀ r', r' ≠ r → (s.heap.setRoot r { s.heap.kheaproots r with page := va }).kheaproots
      r' = s.heap.kheaproots r' := by
    intro r' hrr
    simp [Heap.setRoot, hrr]
  -- the region passes from the thread to the root, and nothing else changes hands
  have hreg : Regions ({ s with
      heap := s.heap.setRoot r { s.heap.kheaproots r with page := va } }.goto t
        (.surplusFreed sz blktype prpage r b)) all := by
    refine ⟨h.regions.pager, h.regions.ledger.map (fun w _ => installed t r w) (fun _ => Iff.rfl)
      fun w a => ?_, h.regions.big⟩
    simp only [State.goto]
    constructor
    · intro hw
      cases w with
      | heapPage pr => exact ⟨.heapPage pr, rfl, hw⟩
      | big => exact ⟨.big, rfl, hw⟩
      | root r' =>
        by_cases hrr : r' = r
        · subst hrr
          refine ⟨.refpage t, if_pos rfl, ?_⟩
          obtain ⟨-, -, rfl⟩ := hw
          rw [hself]
          exact href
        · exact ⟨.root r', rfl, by simpa only [Owns, hother r' hrr] using hw⟩
      | page u =>
        refine ⟨.page u, rfl, ?_⟩
        have := update_proj (t := t) Pc.page (c := s.pc)
          (p := .surplusFreed sz blktype prpage r b) (by rw [hpc]; rfl) u
        exact this.symm.trans hw
      | refpage u =>
        by_cases hu : u = t
        · subst hu
          simp [Owns, Pc.refpage] at hw
        · exact ⟨.refpage u, if_neg hu, by simpa [Owns, hu] using hw⟩
    · rintro ⟨v, rfl, hv⟩
      cases v with
      | heapPage pr => exact hv
      | big => exact hv
      | root r' =>
        -- root `r` had no page before
        have hrr : r' ≠ r := by
          rintro rfl
          exact hv.2.1 (hv.2.2.symm.trans hp)
        simpa only [installed, Owns, hother r' hrr] using hv
      | page u =>
        have := update_proj (t := t) Pc.page (c := s.pc)
          (p := .surplusFreed sz blktype prpage r b) (by rw [hpc]; rfl) u
        exact this.trans hv
      | refpage u =>
        by_cases hu : u = t
        · subst hu
          obtain rfl : va = a := Option.some.inj (href.symm.trans hv)
          simpa [installed, Owns, hself] using ⟨hr, hva⟩
        · simpa [installed, Owns, hu] using hv
  refine ⟨⟨h.blocks.setRoot _ _, h.once, ?_, hreg, ?_, ?_, ?_⟩, h.nonempty⟩
  · exact (h.slots.install hr hp hreg.rootsApart).congr rfl
      (update_proj Pc.slot (by rw [hpc]; rfl))
  · exact h.lost.congr rfl rfl (update_proj Pc.spare (by rw [hpc]; rfl))
  · have hsane := h.sane t
    rw [hpc] at hsane
    exact sane_update h.sane hsane
  · have hready : ∀ r', (s.heap.kheaproots r').page ≠ 0 ∨ r' = r →
        ((s.heap.setRoot r { s.heap.kheaproots r with page := va }).kheaproots r').page ≠ 0 := by
      intro r' hr'
      by_cases hrr : r' = r
      · subst hrr
        rw [hself]
        exact hva
      · rw [hother r' hrr]
        exact hr'.resolve_right hrr
    refine ready_update (fun u r' hr' => hready r' (.inl (h.ready u r' hr'))) fun r' hr' => ?_
    exact hready r' (.inr (Option.some.inj hr').symm)

/-! ### What a thread gets and gives away

`t` is the thread that moves. All owners but its two are as before.
-/

section Owners

variable {h : Heap} {live : List Block} {pc : T → Pc} {p : Pc} {x : ℕ}

/-- Regions that are not with `t`. -/
theorem owns_update (v : Owner T) (a : ℕ) (hv : v ≠ .page t) (hv' : v ≠ .refpage t) :
    Owns h live all (Function.update pc t p) v a ↔ Owns h live all pc v a := by
  cases v with
  | page u =>
    have hu : u ≠ t := fun he => hv (by rw [he])
    simp only [Owns, Function.update_of_ne hu]
  | refpage u =>
    have hu : u ≠ t := fun he => hv' (by rw [he])
    simp only [Owns, Function.update_of_ne hu]
  | _ => exact Iff.rfl

/-- The page `t` has after it moved. -/
theorem owns_page_self (a : ℕ) :
    Owns h live all (Function.update pc t p) (.page t) a ↔ p.page = some a := by
  simp only [Owns, Function.update_self]

/-- The page for pagerefs `t` has after it moved. -/
theorem owns_refpage_self (a : ℕ) :
    Owns h live all (Function.update pc t p) (.refpage t) a ↔ p.refpage = some a := by
  simp only [Owns, Function.update_self]

/-- `t` gives its page away and keeps the rest. -/
theorem owns_dropPage (hp : p.page = none) (hr : p.refpage = (pc t).refpage) (v : Owner T)
    (a : ℕ) : Owns h live all (Function.update pc t p) v a ↔
      Owns h live all pc v a ∧ v ≠ .page t := by
  by_cases hv : v = .page t
  · subst hv
    simp [owns_page_self, hp]
  · by_cases hv' : v = .refpage t
    · subst hv'
      rw [owns_refpage_self, hr]
      simp [Owns]
    · simp [owns_update v a hv hv', hv]

/-- `t` gives the page for pagerefs away and keeps the rest. -/
theorem owns_dropRefpage (hp : p.page = (pc t).page) (hr : p.refpage = none) (v : Owner T)
    (a : ℕ) : Owns h live all (Function.update pc t p) v a ↔
      Owns h live all pc v a ∧ v ≠ .refpage t := by
  by_cases hv' : v = .refpage t
  · subst hv'
    simp [owns_refpage_self, hr]
  · by_cases hv : v = .page t
    · subst hv
      rw [owns_page_self, hp]
      simp [Owns]
    · simp [owns_update v a hv hv', hv']

/-- `t` gets a page it did not have. -/
theorem owns_addPage (hp : p.page = some x) (hold : (pc t).page = none)
    (hr : p.refpage = (pc t).refpage) (v : Owner T) (a : ℕ) :
    Owns h live all (Function.update pc t p) v a ↔
      Owns h live all pc v a ∨ v = .page t ∧ a = x := by
  by_cases hv : v = .page t
  · subst hv
    simp [hp, Owns, hold, eq_comm]
  · by_cases hv' : v = .refpage t
    · subst hv'
      rw [owns_refpage_self, hr]
      simp [Owns]
    · simp [owns_update v a hv hv', hv]

/-- `t` gets a page for pagerefs it did not have. -/
theorem owns_addRefpage (hp : p.page = (pc t).page) (hold : (pc t).refpage = none)
    (hr : p.refpage = some x) (v : Owner T) (a : ℕ) :
    Owns h live all (Function.update pc t p) v a ↔
      Owns h live all pc v a ∨ v = .refpage t ∧ a = x := by
  by_cases hv' : v = .refpage t
  · subst hv'
    simp [hr, Owns, hold, eq_comm]
  · by_cases hv : v = .page t
    · subst hv
      rw [owns_page_self, hp]
      simp [Owns]
    · simp [owns_update v a hv hv', hv']

end Owners

end Kmalloc

end Os161
