import Os161.Vm.KmallocBlocks

/-!
# The kernel heap, step by step

The invariant of `Vm.KmallocInvariant` is kept by every step of every thread. A step that does not
keep it does not exist, but one can stop: `freepageref` asserts that a root without a page has no
pageref in use, and that is so only if nobody is waiting for the page of that root.

## Where a thread can be

`kmalloc` gives up its spinlock up to three times. `Pc` has a place for each of the calls that are
made without it, and for the return from each:

* before the page for a new heap page is there (`wantPage`, `havePage`);
* before the page of a root is there, with a pageref already taken (`wantRefpage`, `gotRefpage`);
* after another thread was faster, with a page too many (`surplus`, `surplusFreed`);
* after no pageref was to be had, or no page for the root (`giveUp`);
* before a large block is there (`wantBig`), and in `kfree` with a page to give back (`freePage`).

The steps up to each of these places are lemmas of their own. `Inv.next` has those a thread takes by
itself, `Inv.answer` those in which `alloc_kpages` answers.

## A pageref that is lost

A thread that gets no page for the root gives up its own page and leaves the pageref marked. The
invariant allows that, as the code does: nothing is unsafe, but one pageref less is there to be
used.

## How it composes

`Vm.KmallocPages` has the moves of pages and `Vm.KmallocBlocks` those of blocks. `Inv.step` is all
that `Vm.KmallocSound` needs for its runs; `Vm.KmallocFrame` and `Vm.Refpage` look closer at the
same steps.

## Main results

* `Inv.subpageKmalloc`, `Inv.withPage`, `Inv.withRefpage` — the pieces of `subpage_kmalloc`
* `Inv.next`, `Inv.answer` — one step of a thread
* `Inv.step` — every step keeps the invariant, or stops at that assertion
-/

namespace Os161

namespace Kmalloc

variable {T : Type} [DecidableEq T] {s : State T} {all : List ℕ} {free : ℕ → List ℕ} {t : T}

/-! ### The pieces of `subpage_kmalloc`

It runs in up to four pieces: to its first release of the spinlock, from there with a page, after
`allocpagerefpage` has asked for the page of a root, and after it has freed one too many. The last
of them hands out a block, and the others end in it if they need not wait (`Inv.withPageref`). -/

/-- `subpage_kmalloc` up to its first release of the spinlock. -/
theorem Inv.subpageKmalloc {sz : ℕ} (h : Inv s all free) (hpc : s.pc t = .idle)
    (hsz : sz < largestSubpageSize) : Kept (s.subpageKmalloc t sz) := by
  -- sizes of 2048 and more do not come here, so that a block type is found
  obtain ⟨blktype, hrun, ht, hfit⟩ : ∃ i, blocktype sz = .ok i ∧ i < nsizes ∧ sz ≤ blocksize i := by
    unfold blocktype
    cases hf : (List.range nsizes).find? fun i => decide (sz ≤ blocksize i) with
    | none =>
      have := List.find?_eq_none.mp hf 7 (by decide)
      simp only [decide_eq_true_eq] at this
      exact absurd (le_of_lt hsz) this
    | some i =>
      exact ⟨i, rfl, List.mem_range.mp (List.mem_of_find?_eq_some hf),
        by simpa using List.find?_some hf⟩
  rw [State.subpageKmalloc, hrun, ok_bind]
  -- a page with a free block of this type, or none: then a page is asked for
  rcases findPage_spec h.blocks.lists h.length_lt ht with hnone | ⟨pr, hpr, htype, hn, hsome⟩
  · rw [hnone, ok_bind]
    refine ⟨_, _, _, rfl, h.goto ?_ ?_ ?_ (.inr rfl) ⟨ht, hfit, hsz⟩ fun r hr => nomatch hr⟩
    all_goals rw [hpc]; rfl
  · obtain ⟨a, l, hl⟩ : ∃ a l, free pr = a :: l := by
      refine List.exists_cons_of_ne_nil fun hnil => ?_
      rw [(h.blocks.page pr hpr).nfree, hnil] at hn
      exact absurd hn (by simp)
    obtain ⟨heap, halloc, hinv⟩ := h.takeBlock _ hpc hpr hl (htype ▸ hfit) hsz
      fun q hq _ => h.nonempty q hq
    rw [hsome, ok_bind]
    refine ⟨_, _, _, ?_, hinv⟩
    simp only [halloc, ok_bind]
    rfl

/-- Where the thread is on the way does not matter for the block it is given. -/
theorem withPageref_goto (s : State T) (t : T) (p : Pc) (sz blktype prpage pr : ℕ) :
    (s.goto t p).withPageref t sz blktype prpage pr = s.withPageref t sz blktype prpage pr := by
  unfold State.withPageref State.goto State.ret
  simp [State.goto]

/-- `subpage_kmalloc` with a page. -/
theorem Inv.withPage {sz blktype prpage : ℕ} (h : Inv s all free)
    (hpc : s.pc t = .havePage sz blktype prpage) : Kept (s.withPage t sz blktype prpage) := by
  have hfits : Fits sz blktype := by
    have := h.sane t
    rwa [hpc] at this
  -- no pageref is free, or one is, whose root has a page or does not
  rcases allocpageref_spec h.slots.counted with hrun | ⟨r, hr, b, hb, hc, hrun⟩
  · refine ⟨s.goto t (.giveUp prpage), _, _, ?_,
      h.goto ?_ ?_ ?_ (.inr rfl) trivial fun _ hr => by cases hr⟩
    · rw [State.withPage, hrun]
      rfl
    all_goals rw [hpc]; rfl
  · have hpg : (((s.heap.setRoot r ((s.heap.kheaproots r).take b))).kheaproots r).page =
        (s.heap.kheaproots r).page := by
      simp [Heap.setRoot, KheapRoot.take]
    by_cases hp : (s.heap.kheaproots r).page = 0
    · refine ⟨_, _, _, ?_, h.takeSlot (t := t) (p := .wantRefpage sz blktype prpage r b) hr hb hc
        (by rw [hpc]; rfl) (by rw [hpc]; rfl) (by rw [hpc]; rfl) rfl hfits fun _ hr => by cases hr⟩
      rw [State.withPage, hrun, ok_bind, if_pos hp]
      dsimp only
      rw [hpg, kassert_pos hp]
      rfl
    · have hinv := h.takeSlot (t := t) (p := .surplusFreed sz blktype prpage r b) hr hb hc
        (by rw [hpc]; rfl) (by rw [hpc]; rfl) (by rw [hpc]; rfl) rfl hfits
        fun r' hr' => by
          obtain rfl := Option.some.inj hr'
          exact hp
      obtain ⟨s', all', free', hs', hinv'⟩ := hinv.withPageref (Function.update_self t _ s.pc)
      rw [withPageref_goto] at hs'
      refine ⟨s', all', free', ?_, hinv'⟩
      rw [State.withPage, hrun, ok_bind, if_neg hp]
      exact hs'

/-- A thread that waited for the page of a root gets one too late. -/
theorem Inv.surplus {sz blktype prpage r b va n : ℕ} (h : Inv s all free)
    (hpc : s.pc t = .gotRefpage sz blktype prpage r b va) (hva : va ≠ 0)
    (hp : (s.heap.kheaproots r).page ≠ 0) (hn : s.pager.Unreleased n)
    (hna : (s.pager.region n).addr = va) :
    Inv ({ s with lost := (some n).toList ++ s.lost }.goto t (.surplus sz blktype prpage r b va))
      all free := by
  have hfits : Fits sz blktype := by
    have := h.sane t
    rwa [hpc] at this
  have hspare : (s.pc t).spare = none := by rw [hpc]; rfl
  refine ⟨⟨h.blocks, h.once, h.slots.congr rfl (update_proj Pc.slot (by rw [hpc]; rfl)), ?_, ?_,
    sane_update h.sane hfits, ready_update h.ready fun r' hr' => ?_⟩, h.nonempty⟩
  · refine ⟨h.regions.pager, h.regions.ledger.congr (fun _ => Iff.rfl)
      (owns_congr (fun _ _ => rfl) (fun _ => rfl) (fun _ _ => Iff.rfl)
        (update_proj Pc.page (by rw [hpc]; rfl)) (update_proj Pc.refpage ?_)), h.regions.big⟩
    rw [hpc]
    simp [Pc.refpage, hva]
  · -- the region is recorded as one the thread has too many
    refine ⟨fun m hm => ?_, fun u x hu => ?_⟩
    · rcases List.mem_cons.mp hm with rfl | hm
      · exact ⟨hn.1, fun _ => ⟨t, by simp [State.goto, Pc.spare, hna]⟩⟩
      · obtain ⟨hlt, hex⟩ := h.lost.lost m hm
        refine ⟨hlt, fun h0 => ?_⟩
        obtain ⟨u, hu⟩ := hex h0
        have hut : u ≠ t := by
          rintro rfl
          exact absurd (hspare.symm.trans hu) (by simp)
        exact ⟨u, by simpa [State.goto, hut] using hu⟩
    · by_cases hut : u = t
      · subst hut
        have hx : va = x := by simpa [State.goto, Pc.spare] using hu
        exact ⟨n, List.mem_cons_self, hn, hna.trans hx⟩
      · obtain ⟨m, hm, hun, ha⟩ := h.lost.spare u x (by simpa [State.goto, hut] using hu)
        exact ⟨m, List.mem_cons_of_mem _ hm, hun, ha⟩
  · obtain rfl := Option.some.inj hr'
    exact hp

/-- `allocpagerefpage` after `alloc_kpages`. -/
theorem Inv.withRefpage {sz blktype prpage r b va : ℕ} (h : Inv s all free)
    (hpc : s.pc t = .gotRefpage sz blktype prpage r b va) :
    Kept (s.withRefpage t sz blktype prpage r b va) := by
  have hfits : Fits sz blktype := by
    have := h.sane t
    rwa [hpc] at this
  rw [State.withRefpage]
  by_cases hva : va = 0
  · subst hva
    rw [if_pos rfl]
    by_cases hp : (s.heap.kheaproots r).page = 0
    · rw [if_pos hp]
      -- no page and none in the root: the thread gives up, and the pageref stays in use
      refine ⟨_, _, _, rfl, h.goto (p := .giveUp prpage) ?_ ?_ ?_ (.inr rfl) trivial
        fun r hr => nomatch hr⟩
      all_goals rw [hpc]; rfl
    · -- no page, but another thread has put one into the root
      rw [if_neg hp]
      have hinv := h.goto (t := t) (p := .surplusFreed sz blktype prpage r b) (by rw [hpc]; rfl)
        (by rw [hpc]; rfl) (by rw [hpc]; rfl) (.inl (by rw [hpc]; rfl)) hfits
        fun r' hr' => by
          obtain rfl := Option.some.inj hr'
          exact hp
      obtain ⟨s', all', free', hs', hinv'⟩ := hinv.withPageref (Function.update_self t _ s.pc)
      rw [withPageref_goto] at hs'
      exact ⟨s', all', free', hs', hinv'⟩
  · have href : (s.pc t).refpage = some va := by
      rw [hpc]
      simp [Pc.refpage, hva]
    obtain ⟨n, hn, hna, -, hal, -⟩ := h.regions.owned (w := .refpage t) href
    rw [if_neg hva, kassert_pos hal, ok_bind]
    by_cases hp : (s.heap.kheaproots r).page = 0
    · -- the page goes into the root
      rw [if_neg (by simpa using hp)]
      have hinv := h.install hpc hva hp
      obtain ⟨s', all', free', hs', hinv'⟩ := hinv.withPageref (Function.update_self t _ s.pc)
      rw [withPageref_goto] at hs'
      exact ⟨s', all', free', hs', hinv'⟩
    · -- another thread has put a page into the root meanwhile
      rw [if_pos hp]
      have hfind : s.pager.find va = some n := hna ▸ h.regions.pager.find hn
      rw [hfind]
      refine ⟨_, _, _, rfl, h.surplus hpc hva hp hn hna⟩

/-! ### One step of a thread

The spinlock is free between steps, so that the threads can take them in any order.
-/

/-- A step of a thread that is not at `alloc_kpages`. -/
theorem Inv.next (h : Inv s all free) (t : T) : Kept (s.next t) := by
  unfold State.next
  cases hpc : s.pc t with
  | havePage sz blktype prpage =>
    obtain ⟨-, -, -, -, hal, -⟩ := h.regions.owned (w := .page t) (a := prpage)
      (by simp [Owns, hpc, Pc.page])
    simp only [kassert_pos hal, ok_bind]
    exact h.withPage hpc
  | gotRefpage sz blktype prpage r b va => exact h.withRefpage hpc
  | surplus sz blktype prpage r b va =>
    have hfits : Fits sz blktype := by
      have := h.sane t
      rwa [hpc] at this
    obtain ⟨s', hs', hinv⟩ := h.release (t := t) (p := .surplusFreed sz blktype prpage r b)
      (a := va)
      (w := .refpage t) (by simp [Owns, hpc, Pc.refpage])
      (fun a ha => by simpa [Owns, hpc, Pc.refpage, eq_comm] using ha)
      (owns_dropRefpage (by rw [hpc]; rfl) rfl) (by simp)
      (fun a ha => by simpa [hpc, Pc.spare, eq_comm] using ha) rfl (by rw [hpc]; rfl) hfits
      fun r' hr' => h.ready t r' (by rw [hpc]; exact hr')
    exact ⟨s', _, _, hs', hinv⟩
  | surplusFreed sz blktype prpage r b =>
    have hp : (s.heap.kheaproots r).page ≠ 0 := h.ready t r (by rw [hpc]; rfl)
    simp only [kassert_pos hp, ok_bind]
    exact h.withPageref hpc
  | giveUp prpage =>
    obtain ⟨s', hs', hinv⟩ := h.release (t := t) (p := .idle) (a := prpage) (w := .page t)
      (by simp [Owns, hpc, Pc.page]) (fun a ha => by simpa [Owns, hpc, Pc.page, eq_comm] using ha)
      (owns_dropPage rfl (by rw [hpc]; rfl)) (by simp)
      (fun a ha => by simp [hpc, Pc.spare] at ha) rfl (by rw [hpc]; rfl) trivial
      fun _ hr => by cases hr
    exact ⟨s', _, _, hs', hinv⟩
  | freePage addr =>
    obtain ⟨s', hs', hinv⟩ := h.release (t := t) (p := .idle) (a := addr) (w := .page t)
      (by simp [Owns, hpc, Pc.page]) (fun a ha => by simpa [Owns, hpc, Pc.page, eq_comm] using ha)
      (owns_dropPage rfl (by rw [hpc]; rfl)) (by simp)
      (fun a ha => by simp [hpc, Pc.spare] at ha) rfl (by rw [hpc]; rfl) trivial
      fun _ hr => by cases hr
    exact ⟨s', _, _, hs', hinv⟩
  | _ => exact ⟨s, _, _, rfl, h⟩

/-- The pages asked for have room for the block. -/
theorem le_npages (sz : ℕ) : sz ≤ State.npages sz * pageSize := by
  unfold State.npages pageSize
  omega

/-- A large block is at least one page. -/
theorem npages_pos {sz : ℕ} (h : largestSubpageSize ≤ sz) : 0 < State.npages sz := by
  unfold largestSubpageSize at h
  unfold State.npages pageSize
  omega

/-- A large block. -/
theorem Inv.giveBig {sz va : ℕ} (h : Inv s all free) (hpc : s.pc t = .wantBig sz) (hva : va ≠ 0)
    (hg : s.pager.MayGive ⟨va, State.npages sz⟩) :
    Inv ({ s with pager := s.pager.give ⟨va, State.npages sz⟩ }.ret t sz va) all free := by
  have hbig : largestSubpageSize ≤ sz := by
    have := h.sane t
    rwa [hpc] at this
  -- a region that is handed out meets no page in use, so that no live block begins there
  have hfresh : ∀ x ∈ s.live, x.addr ≠ va := by
    rintro x hx rfl
    by_cases hs : x.size < largestSubpageSize
    · obtain ⟨q, hq, hxq, -, -⟩ := h.blocks.small x hx hs
      obtain ⟨hlo, hhi, h16⟩ := h.blocks.bounds hq hxq
      obtain ⟨n, hn, hna, -⟩ := h.regions.owned (w := .heapPage q) ⟨hq, rfl⟩
      have h₁ := Region.lt_fin (h.regions.pager.region n hn).2.2.1
      have h₂ := Region.lt_fin (g := ⟨x.addr, State.npages sz⟩) (npages_pos hbig)
      have := hg.2.2.2 n hn.1 hn.2
      simp only at h₂ this
      unfold pageSize at *
      omega
    · exact h.regions.pager.not_held hg (npages_pos hbig)
        (h.regions.ledger.used_of_holds (w := .big) ⟨x, hx, not_lt.mp hs, rfl⟩)
  -- the answer and the return from `kmalloc` are one step
  have heq : ({ s with pager := s.pager.give ⟨va, State.npages sz⟩ }.ret t sz va) =
      { s with pager := s.pager.give ⟨va, State.npages sz⟩, live := ⟨va, sz⟩ :: s.live,
               pc := Function.update s.pc t .idle } := by
    simp [State.ret, State.goto, hva]
  rw [heq]
  refine h.give (w := .big) hg (npages_pos hbig) (fun v a => ?_) (fun x hx => ?_)
    (fun x hx hb => ?_)
    ?_ (by rw [hpc]; rfl) (by rw [hpc]; rfl) trivial rfl
  · have hpg := update_proj (t := t) Pc.page (c := s.pc) (p := .idle) (by rw [hpc]; rfl)
    have hrf := update_proj (t := t) Pc.refpage (c := s.pc) (p := .idle) (by rw [hpc]; rfl)
    cases v with
    | big =>
      constructor
      · rintro ⟨x, hx, hb, rfl⟩
        rcases List.mem_cons.mp hx with rfl | hx
        · exact .inr ⟨rfl, rfl⟩
        · exact .inl ⟨x, hx, hb, rfl⟩
      · rintro (⟨x, hx, hb, rfl⟩ | ⟨-, ha⟩)
        · exact ⟨x, List.mem_cons_of_mem _ hx, hb, rfl⟩
        · exact ⟨⟨va, sz⟩, List.mem_cons_self, hbig, ha.symm⟩
    | page u => simp [Owns, hpg u]
    | refpage u => simp [Owns, hrf u]
    | _ => simp [Owns]
  · rw [List.mem_cons]
    refine ⟨fun hm => hm.resolve_left ?_, .inr⟩
    rintro rfl
    exact absurd hbig (not_le.mpr hx)
  · rcases List.mem_cons.mp hx with rfl | hx
    · exact .inr rfl
    · exact .inl hx
  · rw [List.map_cons, List.nodup_cons]
    refine ⟨fun hm => ?_, h.once⟩
    obtain ⟨x, hx, hxa⟩ := List.mem_map.mp hm
    exact hfresh x hx hxa

/-- `alloc_kpages` answers. -/
theorem Inv.answer {n : ℕ} (va : ℕ) {k : ℕ → State T → Except Trap (State T)} (h : Inv s all free)
    (hk : s.asking t = some (n, k)) :
    Kept (k 0 s) ∧ (va ≠ 0 → s.pager.MayGive ⟨va, n⟩ →
      Kept (k va { s with pager := s.pager.give ⟨va, n⟩ })) := by
  unfold State.asking at hk
  cases hpc : s.pc t with
  | wantPage sz blktype =>
    have hfits : Fits sz blktype := by
      have := h.sane t
      rwa [hpc] at this
    rw [hpc] at hk
    obtain ⟨rfl, rfl⟩ := Prod.mk.inj (Option.some.inj hk)
    refine ⟨⟨s.goto t .idle, _, _, rfl, h.goto ?_ ?_ ?_ (.inr rfl) trivial fun r hr => nomatch hr⟩,
      fun hva hg => ?_⟩
    · rw [hpc]; rfl
    · rw [hpc]; rfl
    · rw [hpc]; rfl
    · dsimp only
      rw [if_neg hva]
      exact ⟨_, _, _, rfl, h.give (w := .page t) hg Nat.one_pos
        (owns_addPage rfl (by rw [hpc]; rfl) (by rw [hpc]; rfl)) (fun _ _ => Iff.rfl)
        (fun x hx _ => .inl hx) h.once (by rw [hpc]; rfl) (by rw [hpc]; rfl) hfits rfl⟩
  | wantRefpage sz blktype prpage r b =>
    have hfits : Fits sz blktype := by
      have := h.sane t
      rwa [hpc] at this
    rw [hpc] at hk
    obtain ⟨rfl, rfl⟩ := Prod.mk.inj (Option.some.inj hk)
    refine ⟨⟨_, _, _, rfl, h.goto ?_ ?_ ?_ (.inl ?_) hfits fun r hr => nomatch hr⟩,
      fun hva hg => ⟨_, _, _, rfl, h.give (w := .refpage t) hg Nat.one_pos
        (owns_addRefpage (by rw [hpc]; rfl) (by rw [hpc]; rfl) (if_neg hva)) (fun _ _ => Iff.rfl)
        (fun x hx _ => .inl hx) h.once (by rw [hpc]; rfl) (by rw [hpc]; rfl) hfits rfl⟩⟩
    all_goals rw [hpc]; rfl
  | wantBig sz =>
    rw [hpc] at hk
    obtain ⟨rfl, rfl⟩ := Prod.mk.inj (Option.some.inj hk)
    refine ⟨⟨s.ret t sz 0, all, free, rfl, ?_⟩, fun hva hg => ?_⟩
    · exact h.goto (p := .idle) (by rw [hpc]; rfl) (by rw [hpc]; rfl) (by rw [hpc]; rfl) (.inr rfl)
        trivial fun r hr => nomatch hr
    · dsimp only
      have hal : va % pageSize = 0 := hg.2.1
      rw [if_neg hva, kassert_pos hal]
      exact ⟨_, _, _, rfl, h.giveBig hpc hva hg⟩
  | _ => simp [hpc] at hk

omit [DecidableEq T] in
/-- Memory somebody else may write holds no free block. -/
theorem Inv.store {addr val : ℕ} (h : Inv s all free) (hst : s.Storable addr) :
    Inv { s with heap := { s.heap with mem := Function.update s.heap.mem addr val } } all free := by
  refine ⟨⟨h.blocks.store fun pr hpr hfree => ?_, h.once, h.slots.congr rfl fun _ => rfl,
    ⟨h.regions.pager, h.regions.ledger, h.regions.big⟩, h.lost.congr rfl rfl fun _ => rfl, h.sane,
    h.ready⟩, h.nonempty⟩
  -- the write is inside a live block or outside all regions; a free block is in a heap page
  have hblk := (h.blocks.page pr hpr).blocks addr hfree
  obtain ⟨hlo, hhi, h16⟩ := h.blocks.bounds hpr hblk
  obtain ⟨n, hn, hna, -⟩ := h.regions.owned (w := .heapPage pr) ⟨hpr, rfl⟩
  have hfin := Region.lt_fin (h.regions.pager.region n hn).2.2.1
  rcases hst.2 with ⟨x, hx, hxlo, hxhi⟩ | hout
  · by_cases hs : x.size < largestSubpageSize
    · obtain ⟨q, hq, hxq, hxf, hxs⟩ := h.blocks.small x hx hs
      obtain ⟨hlo', hhi', h16'⟩ := h.blocks.bounds hq hxq
      obtain rfl := h.regions.pagesApart.eq hq hpr (by omega) (by omega) hlo (by omega)
      have hne : x.addr ≠ addr := fun he => hxf (he ▸ hfree)
      have := blocksOf_apart hxq hblk hne
      omega
    · obtain ⟨m, hm, hreg⟩ := h.regions.big x hx (not_lt.mp hs)
      have hle := le_npages x.size
      have hmn : m ≠ n := by
        rintro rfl
        have := h.regions.big_apart hx (not_lt.mp hs) hpr
        rw [hreg] at hna
        simp only at hna
        unfold pageSize at *
        omega
      have := h.regions.pager.apart m n hm hn hmn
      rw [hreg] at this
      unfold Region.fin at *
      simp only at this
      omega
  · have := hout n hn.1 hn.2
    omega

/-- **The step lemma.** Every step keeps the invariant, or is the `kfree` of the last block of a
page at a time when a root has pagerefs in use and no page. -/
theorem Inv.step {a : Action T} {res : Except Trap (State T)} (h : Inv s all free)
    (hstep : s.step a = some res) :
    Kept res ∨ (∃ t ptr, a = .kfree t ptr ∧ s.pc t = .idle) ∧ res = .error .rootInUse ∧
      RootMissing s.heap := by
  cases a with
  | kmalloc t sz =>
    left
    simp only [State.step] at hstep
    split at hstep
    · next hc =>
      split at hstep
      · next hbig =>
        obtain rfl := Option.some.inj hstep
        refine ⟨_, _, _, rfl, h.goto ?_ ?_ ?_ (.inr rfl) hbig fun r hr => nomatch hr⟩
        all_goals rw [hc.1]; rfl
      · next hsmall =>
        obtain rfl := Option.some.inj hstep
        exact h.subpageKmalloc hc.1 (not_le.mp hsmall)
    · exact nomatch hstep
  | kfree t ptr =>
    simp only [State.step] at hstep
    split at hstep
    · next hc =>
      obtain rfl := Option.some.inj hstep
      obtain ⟨hpc, rfl | ⟨x, hx, rfl⟩⟩ := hc
      · exact .inl ⟨s, _, _, rfl, h⟩
      · rcases h.kfree hpc hx with hk | ⟨hk, hbad⟩
        · exact .inl hk
        · exact .inr ⟨⟨t, x.addr, rfl, hpc⟩, hk, hbad⟩
    · exact nomatch hstep
  | run t va =>
    left
    simp only [State.step] at hstep
    split at hstep
    · next n k hk =>
      obtain ⟨h₁, h₂⟩ := h.answer va hk
      split at hstep
      · next hva =>
        obtain rfl := Option.some.inj hstep
        rw [hva]
        exact h₁
      · next hva =>
        split at hstep
        · next hg =>
          obtain rfl := Option.some.inj hstep
          exact h₂ hva hg
        · exact nomatch hstep
    · split at hstep
      · exact nomatch hstep
      · obtain rfl := Option.some.inj hstep
        exact h.next t
  | store addr val =>
    left
    simp only [State.step] at hstep
    split at hstep
    · next hst =>
      obtain rfl := Option.some.inj hstep
      exact ⟨_, _, _, rfl, h.store hst⟩
    · exact nomatch hstep

end Kmalloc

end Os161
