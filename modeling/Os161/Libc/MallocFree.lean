import Os161.Libc.MallocGrow

/-!
# Freeing

`free` marks the block free, overwrites its data with `0xdeadbeef`, and merges it with the block
after it and the block before it if they are free.

## The order of the steps

Between the mark and the two merges there may be two free neighbours, or three, so the steps are
stated for `Laid`, which allows that. `mergeUp_spec` looks at the block after: what it leaves has a
block in use behind the free one. `mergeDown_spec` looks at the block before and ends with `Rep`. If
both neighbours are free, the block is merged into the one before, whose header stays where it is.

## What is deliberately absent

`free` of a pointer that is not live is not treated: the code looks at the magic numbers in front of
the pointer and ends the program if they are wrong, and finds nothing wrong if they happen to be
right.

## Main definitions

* `Frees` — the pointer is live no more, the others are, and what they point to has not been written

## Main results

* `Laid.merge`, `mergeUp_spec`, `mergeDown_spec`
* `free_spec`
-/

namespace Os161

namespace Malloc

open Tiling

section Rep

variable {h h' : Heap} {a m k n q : ℕ} {b c : Block} {bs pre mid mid' post rest : List Block}

/-! ### Merging

Each merge is stated for the heap with the free block somewhere in the middle, the blocks before it
in `pre` and those after it in `post`. What the merge does to `post` or `pre` is in the result.
-/

/-- A free block between used ones. -/
theorem isChain_free (hpre : pre.IsChain Apart) (hpost : post.IsChain Apart)
    (hlast : ∀ x ∈ pre.getLast?, x.user.isSome = true)
    (hhead : ∀ y ∈ post.head?, y.user.isSome = true) :
    (pre ++ ⟨k, none⟩ :: post).IsChain Apart :=
  hpre.append (List.isChain_cons.mpr ⟨fun y hy => Or.inr (hhead y hy), hpost⟩)
    fun x hx _ _ => Or.inl (hlast x hx)

/-- Two free neighbours become one. Only the two headers are written, and a free block has no user,
so that whatever the blocks in use hold stays. -/
theorem Laid.merge (hl : Laid h (pre ++ b :: c :: post)) :
    (b.user.isSome = true ∨ c.user.isSome = true) ∧
      mallocTrymerge h (stop Block.len h.heapbase pre) (stop Block.len h.heapbase pre + b.len) =
        .ok h ∨
    b.user = none ∧ c.user = none ∧ ∃ h', mallocTrymerge h (stop Block.len h.heapbase pre)
        (stop Block.len h.heapbase pre + b.len) = .ok h' ∧ SameVars h h' ∧
      Laid h' (pre ++ ⟨b.next + c.next, none⟩ :: post) ∧
      Spared (used h.heapbase (pre ++ b :: c :: post)) h h' := by
  have htop := hl.top
  rw [stop_append] at htop
  rcases mallocTrymerge_spec (headers_append.mp hl.headers).2 htop hl.bound with
    hsame | ⟨hb, hc, h', hmerge, hv, hheaders, hout⟩
  · exact Or.inl hsame
  refine Or.inr ⟨hb, hc, h', hmerge, hv, ?_, ?_⟩
  · have hl' : Laid h (pre ++ [b, c] ++ post) := by simpa using hl
    have hlen : Block.len ⟨b.next + c.next, none⟩ = b.len + c.len := Nat.add_mul ..
    have hcpos : 1 ≤ c.next := hl.headers.pos (by simp)
    have hbpos : 1 ≤ b.next := hl.headers.pos (by simp)
    have hmerged : Laid h' (pre ++ [⟨b.next + c.next, none⟩] ++ post) := by
      refine hl'.replace hv ?_ (fun x hx => hout x (Or.inl hx)) hheaders ?_ (by simp) ?_
      · rw [stop_cons, stop_nil, stop_cons, stop_cons, stop_nil, hlen, Nat.add_assoc]
      · intro e he n hn
        rw [List.mem_singleton.mp he] at hn
        cases hn
      · rintro - e ⟨⟩
        change 2 ≤ b.next + c.next
        omega
    simpa using hmerged
  · -- the two blocks have no users
    intro x e he y hy hy'
    obtain ⟨he, hu⟩ := mem_used.mp he
    rw [data, mblocksize] at hy
    have hbm : (stop Block.len h.heapbase pre, b) ∈
        located Block.len h.heapbase (pre ++ b :: c :: post) := by simp
    have hcm : (stop Block.len h.heapbase pre + b.len, c) ∈
        located Block.len h.heapbase (pre ++ b :: c :: post) := by simp
    refine hout y ?_
    rcases eq_or_disjoint he hbm with heq | hlt | hlt
    · rw [(Prod.mk.inj heq).2, hb] at hu
      cases hu
    · exact Or.inl (by omega)
    · rcases eq_or_disjoint he hcm with heq | hlt' | hlt'
      · rw [(Prod.mk.inj heq).2, hc] at hu
        cases hu
      · have := hl.headers.len_pos (mem_of_mem_located he)
        omega
      · exact Or.inr (by omega)

/-- `M_NEXT` of a block is where it ends. -/
theorem Laid.next_eq (hl : Laid h (pre ++ b :: post)) :
    h.next (stop Block.len h.heapbase pre) = stop Block.len h.heapbase pre + b.len := by
  rw [Heap.next, (headers_append.mp hl.headers).2.1]
  rfl

/-- Merging with the block above, if there is one and it is free. What is behind the free block then
has a user: before the call no two neighbours were free. -/
theorem mergeUp_spec (hl : Laid h (pre ++ ⟨k, none⟩ :: post)) (hpost : post.IsChain Apart) :
    ∃ h' k' post', mergeUp h (stop Block.len h.heapbase pre) = .ok h' ∧ SameVars h h' ∧
      Laid h' (pre ++ ⟨k', none⟩ :: post') ∧
      post'.IsChain Apart ∧ (∀ y ∈ post'.head?, y.user.isSome = true) ∧
      used h.heapbase (pre ++ ⟨k', none⟩ :: post') = used h.heapbase (pre ++ ⟨k, none⟩ :: post) ∧
      Spared (used h.heapbase (pre ++ ⟨k, none⟩ :: post)) h h' := by
  have htop := hl.top
  rw [stop_append, stop_cons] at htop
  rw [mergeUp, hl.next_eq]
  cases post with
  | nil =>
    -- the block ends at the top
    rw [if_neg fun hne => hne htop.symm]
    exact ⟨h, k, [], rfl, SameVars.refl h, hl, hpost, (by simp), rfl, fun _ _ _ _ _ _ => rfl⟩
  | cons c post =>
    have hne := ne_stop_of_headers (headers_append.mp hl.headers).2.2.2
    rw [← htop] at hne
    rw [if_pos hne]
    -- the extent of the free block changes, but not which blocks are in use
    rcases hl.merge with ⟨hu, hmerge⟩ | ⟨-, hc, h', hmerge, hv, hl', hspared⟩
    · refine ⟨h, k, c :: post, hmerge, SameVars.refl h, hl, hpost, ?_, rfl, fun _ _ _ _ _ _ => rfl⟩
      rintro y ⟨⟩
      exact hu.resolve_left (by simp)
    · refine ⟨h', k + c.next, post, hmerge, hv, hl', (List.isChain_cons.mp hpost).2, ?_, ?_,
        hspared⟩
      · intro y hy
        have := (List.isChain_cons.mp hpost).1 y hy
        rw [Apart, hc] at this
        exact this.resolve_left (by simp)
      · obtain ⟨j, u⟩ := c
        obtain rfl : u = none := hc
        simp only [used_append, used_free]
        rw [Nat.add_mul, Nat.add_assoc]

/-- Merging with the block below, if there is one and it is free. Nothing is next to the free block
then that is free, so the heap is again one in which no two neighbours are. -/
theorem mergeDown_spec (hl : Laid h (pre ++ ⟨k, none⟩ :: post)) (hpre : pre.IsChain Apart)
    (hpost : post.IsChain Apart) (hhead : ∀ y ∈ post.head?, y.user.isSome = true) :
    ∃ h' bs', mergeDown h (stop Block.len h.heapbase pre) = .ok h' ∧ SameVars h h' ∧ Rep h' bs' ∧
      used h.heapbase bs' = used h.heapbase (pre ++ ⟨k, none⟩ :: post) ∧
      Spared (used h.heapbase (pre ++ ⟨k, none⟩ :: post)) h h' := by
  rw [mergeDown]
  rcases List.eq_nil_or_concat pre with rfl | ⟨pre, d, rfl⟩
  · rw [if_neg fun hne => hne rfl]
    exact ⟨h, _, rfl, SameVars.refl h, ⟨hl, isChain_free hpre hpost (by simp) hhead⟩, rfl,
      fun _ _ _ _ _ _ => rfl⟩
  rw [List.concat_eq_append] at hl hpre ⊢
  have hm : stop Block.len h.heapbase (pre ++ [d]) = stop Block.len h.heapbase pre + d.len := by
    rw [stop_append]
    rfl
  have hle : h.heapbase ≤ stop Block.len h.heapbase pre := le_stop
  have hd := hl.headers.len_pos (b := d) (by simp)
  -- the offset back that the header holds leads to the block before
  have hprev : h.prev (stop Block.len h.heapbase (pre ++ [d])) = stop Block.len h.heapbase pre := by
    rw [Heap.prev, (headers_append.mp hl.headers).2.1, lastNext_append, hm]
    exact Nat.add_sub_cancel ..
  rw [if_pos (by omega), hprev, hm]
  rw [List.append_assoc] at hl ⊢
  rcases hl.merge with ⟨hu, hmerge⟩ | ⟨hdu, -, h', hmerge, hv, hl', hspared⟩
  · refine ⟨h, _, hmerge, SameVars.refl h, ⟨hl, ?_⟩, rfl, fun _ _ _ _ _ _ => rfl⟩
    have := isChain_free (k := k) hpre hpost ?_ hhead
    · rwa [List.append_assoc] at this
    · rw [List.getLast?_concat]
      rintro x ⟨⟩
      exact hu.resolve_right (by simp)
  · obtain ⟨j, u⟩ := d
    obtain rfl : u = none := hdu
    refine ⟨h', _, hmerge, hv, ⟨hl', ?_⟩, ?_, hspared⟩
    · refine isChain_free (List.isChain_append.mp hpre).1 hpost (fun x hx => ?_) hhead
      have := (List.isChain_append.mp hpre).2.2 x hx ⟨j, none⟩ rfl
      exact this.resolve_right (by simp)
    · simp only [used_append, used_free, List.cons_append, List.nil_append]
      rw [Nat.add_mul, Nat.add_assoc]

/-! ### The call -/

/-- The block at `m` has been freed: its pointer is the one that is not live any more, and the data
of the blocks that are still in use is what it was. -/
structure Frees (h : Heap) (bs : List Block) (h' : Heap) (m : ℕ) (bs' : List Block) : Prop where
  rep : Rep h' bs'
  heapbase : h'.heapbase = h.heapbase
  users : ∀ p k, (p, k) ∈ users h.heapbase bs' ↔ (p, k) ∈ users h.heapbase bs ∧ p ≠ data m
  spared : ∀ x b, (x, b) ∈ used h.heapbase bs → x ≠ m →
    ∀ y, data x ≤ y → y < x + b.len → h'.mem y = h.mem y

/-- A block is marked free and its data overwritten. Two neighbours may be free after that. -/
theorem Laid.wipe (hl : Laid h (pre ++ ⟨k, some n⟩ :: post)) (hwipe : h' = mallocDeadbeef
      (h.modify (stop Block.len h.heapbase pre) fun m => { m with mhInuse := false })
      (data (stop Block.len h.heapbase pre)) (k * 8 - 8)) :
    Laid h' (pre ++ ⟨k, none⟩ :: post) ∧
      Outside (stop Block.len h.heapbase pre) (stop Block.len h.heapbase pre + k * 8 - 1) h h' := by
  have hl' : Laid h (pre ++ [⟨k, some n⟩] ++ post) := by simpa using hl
  have hheaders := (headers_append.mp hl.headers).2
  have hpos : 1 ≤ k := hheaders.2.1
  have hout : Outside (stop Block.len h.heapbase pre) (stop Block.len h.heapbase pre + k * 8 - 1)
      h h' := by
    intro x hx
    rw [hwipe, data, mblocksize, mallocDeadbeef_of_not (by omega), modify_of_ne (by omega)]
  refine ⟨?_, hout⟩
  have hwiped : Laid h' (pre ++ [⟨k, none⟩] ++ post) := by
    refine hl'.replace (by rw [hwipe]; exact ⟨rfl, rfl, rfl⟩) rfl (fun x hx => hout x (Or.inl hx))
      ?_ ?_ (by simp) ?_
    · refine hheaders.setInuse ?_ fun x hx => hout x (Or.inr ?_)
      · rw [hwipe, data, mblocksize, mallocDeadbeef_of_not (by omega), modify_self]
        rfl
      · have hx : stop Block.len h.heapbase pre + k * 8 ≤ x := hx
        omega
    · intro e he n hn
      rw [List.mem_singleton.mp he] at hn
      cases hn
    · rintro rfl e ⟨⟩
      exact hl.last ⟨k, some n⟩ (by rw [List.getLast?_concat]; rfl)
  simpa using hwiped

/-- The blocks in use once one has been marked free: the others. -/
theorem Laid.mem_used_freed (hl : Laid h (pre ++ ⟨k, some n⟩ :: post)) {x : ℕ} :
    (x, b) ∈ used h.heapbase (pre ++ ⟨k, none⟩ :: post) ↔
      (x, b) ∈ used h.heapbase (pre ++ ⟨k, some n⟩ :: post) ∧
        x ≠ stop Block.len h.heapbase pre := by
  have hk : 1 ≤ k := (headers_append.mp hl.headers).2.2.1
  simp only [used_append, used_free, used_some, List.mem_append, List.mem_cons, Prod.mk.injEq]
  constructor
  · rintro (hb | hb)
    · have hmem := (mem_used.mp hb).1
      have hlen := hl.len_pos b (List.mem_append_left _ (mem_of_mem_located hmem))
      have hbounds := bounds_of_mem hmem
      exact ⟨Or.inl hb, by omega⟩
    · have hbounds := bounds_of_mem (mem_used.mp hb).1
      exact ⟨Or.inr (Or.inr hb), by omega⟩
  · rintro ⟨hb | ⟨hx, -⟩ | hb, hne⟩
    · exact Or.inl hb
    · exact absurd hx hne
    · exact Or.inr hb

/-- **`free`** of a live pointer takes it off the live pointers and leaves a heap in which no two
neighbours are free. -/
theorem free_spec (hr : Rep h bs) {p : ℕ} (hp : (p, n) ∈ users h.heapbase bs) :
    ∃ h' m bs', p = data m ∧ free h p = .ok h' ∧ Frees h bs h' m bs' := by
  obtain ⟨m, b, hb, hu, rfl⟩ := mem_users.mp hp
  obtain ⟨pre, post, rfl, rfl⟩ := split_of_mem (mem_used.mp hb).1
  obtain ⟨k, u⟩ := b
  obtain rfl : u = some n := hu
  have hheaders := (headers_append.mp hr.headers).2
  have hbound := hr.bound
  have hpos : 1 ≤ k := hheaders.2.1
  have hbase : h.heapbase ≤ stop Block.len h.heapbase pre := le_stop
  have htop := hr.top
  rw [stop_append, stop_cons] at htop
  have hstop : stop Block.len h.heapbase pre + k * 8 ≤ h.heaptop := by
    rw [htop]
    exact le_stop
  -- the data of the last block begins below the top, as the code asks of a pointer
  have hbelow : stop Block.len h.heapbase pre + 8 < h.heaptop := by
    cases post with
    | nil =>
      have : 2 ≤ k := hr.last ⟨k, some n⟩ (by rw [List.getLast?_concat]; rfl)
      omega
    | cons c post =>
      have hne := ne_stop_of_headers hheaders.2.2
      rw [← htop] at hne
      have hne : stop Block.len h.heapbase pre + k * 8 ≠ h.heaptop := hne
      omega
  have hmem : h.mem (stop Block.len h.heapbase pre) = hdr (lastNext 0 pre) ⟨k, some n⟩ := hheaders.1
  have hsize : ((h.modify (stop Block.len h.heapbase pre) fun m => { m with mhInuse := false }).mem
      (stop Block.len h.heapbase pre)).size = k * 8 - 8 := by
    rw [modify_self, hmem]
    exact hdr_size (b := ⟨k, none⟩) hpos (show k * 8 < 2 ^ 32 by omega)
  have hbase_pos := hr.base_pos
  -- the heap marked and wiped, merged upwards, merged downwards
  obtain ⟨h₁, hh₁⟩ : ∃ h₁, h₁ = mallocDeadbeef
      (h.modify (stop Block.len h.heapbase pre) fun m => { m with mhInuse := false })
      (data (stop Block.len h.heapbase pre)) (k * 8 - 8) := ⟨_, rfl⟩
  obtain ⟨hl₁, hout₁⟩ := hr.wipe hh₁
  have hbase₁ : h₁.heapbase = h.heapbase := by rw [hh₁]; rfl
  have hapart := List.isChain_append.mp hr.apart
  obtain ⟨h₂, k₂, post₂, hup, hv₂, hl₂, hpost₂, hhead₂, hused₂, hspared₂⟩ :=
    mergeUp_spec hl₁ (List.isChain_cons.mp hapart.2.1).2
  obtain ⟨h₃, bs₃, hdown, hv₃, hr₃, hused₃, hspared₃⟩ :=
    mergeDown_spec hl₂ hapart.1 hpost₂ hhead₂
  have hbase₂ : h₂.heapbase = h.heapbase := hv₂.heapbase.trans hbase₁
  rw [hbase₁] at hup hused₂ hspared₂
  rw [hbase₂, hused₂] at hspared₃ hused₃
  rw [hbase₂] at hdown
  refine ⟨h₃, _, bs₃, rfl, ?_, hr₃, hv₃.heapbase.trans hbase₂, fun p j => ?_, ?_⟩
  · -- the checks `free` makes before it does anything
    have hdata : data (stop Block.len h.heapbase pre) - mblocksize =
        stop Block.len h.heapbase pre := Nat.add_sub_cancel ..
    have hok : (h.mem (stop Block.len h.heapbase pre)).ok = true := by rw [hmem]; rfl
    have hinuse : (h.mem (stop Block.len h.heapbase pre)).mhInuse = true := by rw [hmem]; rfl
    rw [free, hdata, if_neg (by rw [data, mblocksize]; omega), if_neg (by omega),
      if_neg (by rw [data, mblocksize]; omega)]
    dsimp only
    rw [hok, hinuse, if_neg (by simp), if_neg (by simp), hsize, ← hh₁, hup]
    exact hdown
  · simp only [mem_users, hused₃, hr.mem_used_freed]
    constructor
    · rintro ⟨x, b, ⟨hb, hne⟩, hj, rfl⟩
      exact ⟨⟨x, b, hb, hj, rfl⟩, fun heq => hne (data_inj heq)⟩
    · rintro ⟨⟨x, b, hb, hj, rfl⟩, hne⟩
      exact ⟨x, b, ⟨hb, fun heq => hne (congrArg data heq)⟩, hj, rfl⟩
  · -- the other blocks in use lie beside the one that was wiped
    intro x e he hne y hy hy'
    have hfreed := hr.mem_used_freed.mpr ⟨he, hne⟩
    rw [hspared₃ x e hfreed y hy hy', hspared₂ x e hfreed y hy hy']
    refine hout₁ y ?_
    rw [data, mblocksize] at hy
    rcases eq_or_disjoint (mem_used.mp he).1 (mem_used.mp hb).1 with heq | hlt | hlt
    · exact absurd (Prod.mk.inj heq).1 hne
    · exact Or.inl (by omega)
    · have hlt : stop Block.len h.heapbase pre + k * 8 ≤ x := hlt
      exact Or.inr (by omega)

end Rep

end Malloc

end Os161
