import Os161.Libc.MallocFree

/-!
# What `malloc` promises

A client allocates and frees in any order and writes to what it has. `Inv` says that the heap is
either not initialised or made of blocks whose users are the live pointers; each step keeps it.

## Main results

* `malloc_cases`, `free_cases` — what a call does to the blocks and to what the client has stored
* `malloc_heap` — the blocks tile the heap, live pointers have room of their own that the allocator
  does not write to or hand out again, and it never ends the program for a heap that is corrupt
-/

namespace Os161

namespace Malloc

open Tiling

/-- The headers in memory divide the heap, and no two neighbours are free. -/
structure Tiled (h : Heap) (bs : List Block) : Prop where
  top : stop Block.len h.heapbase bs = h.heaptop
  headers : Headers h.mem h.heapbase 0 bs
  apart : bs.IsChain Apart

/-- How much memory there is at a pointer, by its header. -/
def room (h : Heap) (p : ℕ) : ℕ := (h.mem (p - mblocksize)).size

/-- The blocks have the live pointers as users. -/
def Owned (s : State) (bs : List Block) : Prop :=
  ∀ p n, s.live p = some n ↔ (p, n) ∈ users s.heap.heapbase bs

/-- The allocator has not been initialised, or the heap is made of blocks. -/
structure Inv (s : State) : Prop where
  exit : ∀ e, s.exit = some e → InitExit e
  blocks : s.heap.heapbase = 0 ∧ s.heap.heaptop = 0 ∧ (∀ p, s.live p = none) ∨
    ∃ bs, Rep s.heap bs ∧ Owned s bs

section Live

variable {s : State} {h h' : Heap} {bs : List Block} {m p n : ℕ}

theorem Owned.mem (ho : Owned s bs) (hp : s.live p = some n) :
    ∃ x k, (x, ⟨k, some n⟩) ∈ used s.heap.heapbase bs ∧ p = data x := by
  obtain ⟨x, ⟨k, u⟩, hb, hu, hx⟩ := mem_users.mp ((ho p n).mp hp)
  obtain rfl : u = some n := hu
  exact ⟨x, k, hb, hx⟩

/-- The room of a block that is in use. -/
theorem Rep.room_eq (hr : Rep h bs) {k : ℕ} (hm : (m, ⟨k, some n⟩) ∈ used h.heapbase bs) :
    room h (data m) = k * 8 - 8 := by
  obtain ⟨pre, post, rfl, rfl⟩ := split_of_mem (mem_used.mp hm).1
  have hheaders := (headers_append.mp hr.headers).2
  have hstop := (bounds_of_mem (mem_used.mp hm).1).2
  rw [← hr.top] at hstop
  have hbound := hr.bound
  rw [room, data, Nat.add_sub_cancel, hheaders.1]
  exact hdr_size hheaders.2.1 (by omega)

/-- A live pointer is that of a block, which says how much room it has. -/
theorem Owned.room (ho : Owned s bs) (hr : Rep s.heap bs) (hp : s.live p = some n) :
    ∃ x k, (x, ⟨k, some n⟩) ∈ used s.heap.heapbase bs ∧ p = data x ∧
      Malloc.room s.heap p = k * 8 - 8 ∧ 1 ≤ k := by
  obtain ⟨x, k, hb, rfl⟩ := ho.mem hp
  exact ⟨x, k, hb, rfl, hr.room_eq hb, hr.headers.pos (mem_of_mem_located (mem_used.mp hb).1)⟩

end Live

/-! ### One call -/

section Calls

variable {s : State} {h : Heap} {bs : List Block} {p n : ℕ}

/-- The blocks `bs` are those of the heap that is searched, with the live pointers as users. -/
structure Searched (s : State) (bs : List Block) : Prop where
  rep : Rep (begun s.heap) bs
  owned : ∀ p k, s.live p = some k ↔ (p, k) ∈ users (begun s.heap).heapbase bs

/-- `malloc` ends the program in initialisation, or there are blocks to search. -/
theorem malloc_begun (hs : Inv s) (ok : ℕ → Bool) (n : ℕ) :
    (∃ e, malloc s.heap ok n = .error e ∧ InitExit e ∧
      (Ready s.heap ok → ∀ bs, ¬Searched s bs)) ∨
    malloc s.heap ok n = mallocBody (begun s.heap) (ok 2) n ∧ Ready s.heap ok ∧
      ∃ bs, Searched s bs := by
  rcases hs.blocks with ⟨hbase, htop, hlive⟩ | ⟨bs, hr, ho⟩
  · have hmalloc : malloc s.heap ok n = (do
        let h ← mallocInit s.heap ok
        mallocBody h (ok 2) n) := if_pos hbase
    rw [hmalloc]
    rcases mallocInit_spec hbase htop ok with ⟨e, he, hinit, hnot⟩ | ⟨hok, hr, hready⟩
    · exact Or.inl ⟨e, by rw [he]; rfl, hinit, fun hready bs hb => hnot hready bs hb.rep⟩
    · refine Or.inr ⟨by rw [hok]; rfl, hready, [], hr, fun p k => ?_⟩
      rw [hlive]
      exact ⟨nofun, nofun⟩
  · have hne : s.heap.heapbase ≠ 0 := Nat.ne_of_gt hr.base_pos
    have hbegun : begun s.heap = s.heap := if_neg hne
    exact Or.inr ⟨by rw [hbegun]; exact if_neg hne, fun h0 => absurd h0 hne, bs, by rwa [hbegun],
      by rwa [hbegun]⟩

theorem Inv.begun_eq (hs : Inv s) (hp : s.live p ≠ none) : begun s.heap = s.heap := by
  rcases hs.blocks with ⟨-, -, hlive⟩ | ⟨bs, hr, -⟩
  · exact absurd (hlive p) hp
  · exact if_neg (Nat.ne_of_gt hr.base_pos)

/-- `malloc` on a heap of blocks that have users, or on no heap at all. -/
theorem malloc_cases (hs : Inv s) (hn : n < 2 ^ 32) (ok : ℕ → Bool)
    (hsuits : ∀ bs, Searched s bs → ∃ bs, Searched s bs ∧ Suits (begun s.heap) bs (ok 2) n) :
    (∃ e, malloc s.heap ok n = .error e ∧ InitExit e) ∨
    ∃ bs, Searched s bs ∧ (malloc s.heap ok n = .ok (begun s.heap, 0) ∨
      ∃ h' m bs', malloc s.heap ok n = .ok (h', data m) ∧
        Allocates (begun s.heap) bs h' m n bs') := by
  rcases malloc_begun hs ok n with ⟨e, he, hinit, -⟩ | ⟨hmalloc, -, bs, hb⟩
  · exact Or.inl ⟨e, he, hinit⟩
  · obtain ⟨bs, hb, hsuits⟩ := hsuits bs hb
    rw [hmalloc]
    exact Or.inr ⟨bs, hb, mallocBody_spec hb.rep hn hsuits⟩

/-- A request that is not huge fits, or makes for a positive increment. -/
theorem suits_of_small (hr : Rep h bs) (hn : n < 2 ^ 30) (ok : Bool) : Suits h bs ok n := by
  by_cases hfits : ∃ b ∈ bs, b.user = none ∧ n + 8 ≤ b.len
  · obtain ⟨b, hb, hu, hsize⟩ := hfits
    exact .fits b hb hu hsize
  have hround := roundBlock_eq n
  have hshort : 0 < shortage bs (roundBlock n) ∧ shortage bs (roundBlock n) < 2 ^ 30 + 16 := by
    rcases List.eq_nil_or_concat bs with rfl | ⟨pre, ⟨k, u⟩, rfl⟩
    · rw [shortage, List.getLast?_nil, mblocksize]
      dsimp only
      omega
    · rw [List.concat_eq_append] at hfits ⊢
      cases u with
      | some j =>
        rw [shortage_concat_some, mblocksize]
        omega
      | none =>
        rw [shortage_concat_none]
        have hlen : ¬n + 8 ≤ k * 8 := fun hle =>
          hfits ⟨⟨k, none⟩, List.mem_append_right _ List.mem_cons_self, rfl, hle⟩
        have hk : 1 ≤ k := by
          rw [List.concat_eq_append] at hr
          exact hr.headers.pos (List.mem_append_right _ List.mem_cons_self)
        omega
  refine .grows (by omega) ?_ ?_
  · rw [increment, mallocGrow.roundPage, pageSize]
    omega
  · rw [increment, mallocGrow.roundPage, pageSize]
    omega

/-- `free` of a live pointer. -/
theorem free_cases (hs : Inv s) (hp : s.live p ≠ none) :
    ∃ bs h' m bs', Rep s.heap bs ∧ Owned s bs ∧ p = data m ∧ free s.heap p = .ok h' ∧
      Frees s.heap bs h' m bs' := by
  obtain ⟨n, hn⟩ := Option.ne_none_iff_exists'.mp hp
  rcases hs.blocks with ⟨-, -, hlive⟩ | ⟨bs, hr, ho⟩
  · exact absurd (hlive p) hp
  · obtain ⟨h', m, bs', hm, hfree, hf⟩ := free_spec hr ((ho p n).mp hn)
    exact ⟨bs, h', m, bs', hr, ho, hm, hfree, hf⟩

/-- Pointers are not null. -/
theorem Inv.live_zero (hs : Inv s) : s.live 0 = none := by
  rcases hs.blocks with ⟨-, -, hlive⟩ | ⟨bs, -, ho⟩
  · exact hlive 0
  · refine Option.eq_none_iff_forall_ne_some.mpr fun n hn => ?_
    obtain ⟨x, k, -, hx⟩ := ho.mem hn
    rw [data, mblocksize] at hx
    omega

end Calls

/-! ### The invariant -/

section Step

variable {s s' : State}

/-- What is asked for is what the heap serves. -/
def Fair (s : State) (a : Action) : Prop :=
  ∀ size ok, a = .malloc size ok → ∀ bs, Searched s bs →
    ∃ bs, Searched s bs ∧ Suits (begun s.heap) bs (ok 2) size

/-- The new block has the new pointer as its user. -/
theorem inv_of_allocates (hs : Inv s) {bs bs' : List Block} {h' : Heap} {m n : ℕ}
    (hb : Searched s bs) (ha : Allocates (begun s.heap) bs h' m n bs') :
    Inv { s with heap := h', live := Function.update s.live (data m) (some n) } := by
  refine ⟨hs.exit, Or.inr ⟨bs', ha.rep, fun p k => ?_⟩⟩
  dsimp only
  rw [ha.heapbase, ha.users]
  by_cases hp : p = data m
  · subst hp
    rw [Function.update_self, Option.some.injEq, Prod.mk.injEq]
    constructor
    · rintro rfl
      exact Or.inr ⟨rfl, rfl⟩
    · rintro (hk | ⟨-, rfl⟩)
      · exact absurd rfl (ha.fresh _ k hk)
      · rfl
  · rw [Function.update_of_ne hp, hb.owned, Prod.mk.injEq]
    constructor
    · exact Or.inl
    · rintro (hk | ⟨heq, -⟩)
      · exact hk
      · exact absurd heq hp

/-- The first call makes an empty heap, and later ones leave it. -/
theorem inv_begun (hs : Inv s) {bs : List Block} (hb : Searched s bs) :
    Inv { s with heap := begun s.heap } := ⟨hs.exit, Or.inr ⟨bs, hb.rep, hb.owned⟩⟩

theorem inv_malloc (hs : Inv s) {limit size : ℕ} {ok : ℕ → Bool} (hlimit : limit ≤ 2 ^ 32)
    (hfair : Fair s (.malloc size ok)) (hstep : step limit s (.malloc size ok) = some s') :
    Inv s' := by
  rw [step] at hstep
  split at hstep
  case isFalse => cases hstep
  case isTrue hguard =>
    rcases malloc_cases hs (hguard.2.trans_le hlimit) ok (hfair size ok rfl) with
      ⟨e, he, hinit⟩ | ⟨bs, hb, hmalloc | ⟨h', m, bs', hmalloc, ha⟩⟩
    · rw [he] at hstep
      obtain rfl := Option.some.inj hstep
      refine ⟨?_, hs.blocks⟩
      rintro e' ⟨⟩
      exact hinit
    · rw [hmalloc] at hstep
      obtain rfl := Option.some.inj hstep
      exact inv_begun hs hb
    · rw [hmalloc] at hstep
      have hne : data m ≠ 0 := Nat.succ_ne_zero _
      dsimp only at hstep
      rw [if_neg hne] at hstep
      obtain rfl := Option.some.inj hstep
      exact inv_of_allocates hs hb ha

theorem inv_free (hs : Inv s) {limit x : ℕ} (hstep : step limit s (.free x) = some s') :
    Inv s' := by
  rw [step] at hstep
  split at hstep
  case isFalse => cases hstep
  case isTrue hguard =>
    by_cases hx : s.live x = none
    · -- `free(NULL)`
      obtain rfl : x = 0 := hguard.2.resolve_right fun h => h hx
      rw [show free s.heap 0 = .ok s.heap from rfl] at hstep
      obtain rfl := Option.some.inj hstep
      have hsame : Function.update s.live 0 none = s.live :=
        (congrArg (Function.update s.live 0) hx.symm).trans (Function.update_eq_self 0 s.live)
      refine ⟨hs.exit, ?_⟩
      rw [hsame]
      exact hs.blocks
    · obtain ⟨bs, h', m, bs', hr, ho, rfl, hfree, hf⟩ := free_cases hs hx
      rw [hfree] at hstep
      obtain rfl := Option.some.inj hstep
      refine ⟨hs.exit, Or.inr ⟨bs', hf.rep, fun p k => ?_⟩⟩
      dsimp only
      rw [hf.heapbase, hf.users]
      by_cases hp : p = data m
      · subst hp
        rw [Function.update_self]
        exact ⟨nofun, fun h => absurd rfl h.2⟩
      · rw [Function.update_of_ne hp, ho]
        exact ⟨fun h => ⟨h, hp⟩, And.left⟩

/-- The client's own memory holds no header. -/
theorem Rep.write {h : Heap} {bs : List Block} (hr : Rep h bs) {p n : ℕ}
    (hp : (p, n) ∈ users h.heapbase bs) (mem : ℕ → Mheader) :
    Rep { h with mem := fun y => if p ≤ y ∧ y < p + n then mem y else h.mem y } bs := by
  obtain ⟨x, b, hb, hn, rfl⟩ := mem_users.mp hp
  have hb := (mem_used.mp hb).1
  refine ⟨⟨hr.base_pos, hr.aligned, hr.top, hr.brk, hr.bound, hr.headers.congr fun y c hc => ?_,
    hr.fits, hr.last⟩, hr.apart⟩
  have hfits := hr.fits b (mem_of_mem_located hb) n hn
  have hlen := hr.headers.len_pos (mem_of_mem_located hc)
  refine if_neg ?_
  rw [data, mblocksize]
  rcases eq_or_disjoint hb hc with heq | hlt | hlt
  · have := (Prod.mk.inj heq).1
    omega
  · omega
  · omega

theorem inv_write (hs : Inv s) {limit x : ℕ} {mem : ℕ → Mheader}
    (hstep : step limit s (.write x mem) = some s') : Inv s' := by
  rw [step] at hstep
  split at hstep
  case h_2 => cases hstep
  case h_1 n hn =>
    split at hstep
    case isFalse => cases hstep
    case isTrue =>
      obtain rfl := Option.some.inj hstep
      refine ⟨hs.exit, Or.inr ?_⟩
      rcases hs.blocks with ⟨-, -, hlive⟩ | ⟨bs, hr, ho⟩
      · rw [hlive] at hn
        cases hn
      · exact ⟨bs, hr.write ((ho x n).mp hn) mem, ho⟩

theorem inv_step (hs : Inv s) {limit : ℕ} {a : Action} (hlimit : limit ≤ 2 ^ 32)
    (hfair : Fair s a) (hstep : step limit s a = some s') : Inv s' := by
  cases a with
  | malloc size ok => exact inv_malloc hs hlimit hfair hstep
  | free x => exact inv_free hs hstep
  | write x mem => exact inv_write hs hstep

theorem inv_of_starts (hs : Starts s) : Inv s := by
  obtain ⟨hbase, htop, -, hexit, hlive⟩ := hs
  refine ⟨fun e he => ?_, Or.inl ⟨hbase, htop, hlive⟩⟩
  rw [hexit] at he
  cases he

/-- Small sizes are fair. -/
theorem fair_of_step {a : Action} (hstep : step (2 ^ 30) s a = some s') : Fair s a := by
  rintro size ok rfl bs hb
  rw [step] at hstep
  split at hstep
  case isFalse => cases hstep
  case isTrue hguard => exact ⟨bs, hb, suits_of_small hb.rep hguard.2 (ok 2)⟩

theorem inv_of_reachable (hs : system.Reachable s) : Inv s := by
  have hlimit : 2 ^ 30 ≤ 2 ^ 32 := by decide
  refine hs.invariant (fun s hs => ?_) fun s a s' hs hstep => ?_
  · exact inv_of_starts hs
  · exact inv_step hs hlimit (fair_of_step hstep) hstep

/-- Calls do not write to what is live and is not freed by them. -/
theorem spared_of_step (hs : Inv s) {limit : ℕ} {a : Action} (hlimit : limit ≤ 2 ^ 32)
    (hfair : Fair s a) (hstep : step limit s a = some s')
    (hwrite : ∀ x mem, a ≠ .write x mem) {p : ℕ} (hp : s.live p ≠ none) (hfree : a ≠ .free p)
    {y : ℕ} (hy : p ≤ y) (hy' : y < p + room s.heap p) : s'.heap.mem y = s.heap.mem y := by
  obtain ⟨n, hn⟩ := Option.ne_none_iff_exists'.mp hp
  cases a with
  | malloc size ok =>
    rw [step] at hstep
    split at hstep
    case isFalse => cases hstep
    case isTrue hguard =>
      rcases malloc_cases hs (hguard.2.trans_le hlimit) ok (hfair size ok rfl) with
        ⟨e, he, -⟩ | ⟨bs, hb, hmalloc | ⟨h', m, bs', hmalloc, ha⟩⟩
      · rw [he] at hstep
        obtain rfl := Option.some.inj hstep
        rfl
      · rw [hmalloc] at hstep
        obtain rfl := Option.some.inj hstep
        rw [hs.begun_eq hp]
      · rw [hmalloc] at hstep
        obtain rfl := Option.some.inj hstep
        obtain ⟨hr, ho⟩ := hb
        rw [hs.begun_eq hp] at hr ho ha
        obtain ⟨x, k, hb, rfl, hroom, hk⟩ := Owned.room ho hr hn
        refine ha.spared x _ hb y hy ?_
        rw [hroom, data, mblocksize] at hy'
        change y < x + k * 8
        omega
  | free x =>
    rw [step] at hstep
    split at hstep
    case isFalse => cases hstep
    case isTrue hguard =>
      rcases hguard.2 with rfl | hx
      · rw [show free s.heap 0 = .ok s.heap from rfl] at hstep
        obtain rfl := Option.some.inj hstep
        rfl
      · obtain ⟨bs, h', m, bs', hr, ho, rfl, hok, hf⟩ := free_cases hs hx
        rw [hok] at hstep
        obtain rfl := Option.some.inj hstep
        obtain ⟨x, k, hb, rfl, hroom, hk⟩ := ho.room hr hn
        refine hf.spared x _ hb (fun heq => hfree (congrArg _ (congrArg data heq.symm))) y hy ?_
        rw [hroom, data, mblocksize] at hy'
        change y < x + k * 8
        omega
  | write x mem => exact absurd rfl (hwrite x mem)

end Step

/-! ### The promise -/

/-- What is promised for `malloc(size)` with the result `p`. -/
inductive Honoured (s : State) (size : ℕ) (h : Heap) (p : ℕ) : Prop
  /-- There is no memory, and the heap is as it was. -/
  | null (hp : p = 0) (hheap : h = begun s.heap)
  /-- There is a new block in the heap, apart from all others. -/
  | block (hp : p ≠ 0) (hroom : size ≤ room h p) (hbase : h.heapbase ≤ p)
      (htop : p + room h p ≤ h.heaptop) (hbrk : h.heaptop = h.brk)
      (hapart : ∀ q, s.live q ≠ none → p ≠ q ∧ (p + room h p ≤ q ∨ q + room h q ≤ p))
      (htiled : ∃ bs, Tiled h bs ∧
        Owned { s with heap := h, live := Function.update s.live p (some size) } bs)

section Promise

variable {s : State} {p q n : ℕ}

theorem Inv.tiled (hs : Inv s) : ∃ bs, Tiled s.heap bs ∧ Owned s bs := by
  rcases hs.blocks with ⟨hbase, htop, hlive⟩ | ⟨bs, hr, ho⟩
  · refine ⟨[], ⟨hbase.trans htop.symm, trivial, List.IsChain.nil⟩, fun p n => ?_⟩
    rw [hlive]
    exact ⟨nofun, nofun⟩
  · exact ⟨bs, ⟨hr.top.symm, hr.headers, hr.apart⟩, ho⟩

theorem Inv.live_room (hs : Inv s) (hp : s.live p = some n) :
    p % 8 = 0 ∧ n ≤ room s.heap p ∧ s.heap.heapbase ≤ p ∧ p + room s.heap p ≤ s.heap.heaptop := by
  rcases hs.blocks with ⟨-, -, hlive⟩ | ⟨bs, hr, ho⟩
  · rw [hlive] at hp
    cases hp
  obtain ⟨x, k, hb, rfl, hroom, hk⟩ := ho.room hr hp
  have hmem := (mem_used.mp hb).1
  have hbounds := bounds_of_mem hmem
  rw [← hr.top] at hbounds
  have hfits := hr.fits _ (mem_of_mem_located hmem) n rfl
  have hlen : Block.len ⟨k, some n⟩ = k * 8 := rfl
  have hmod : x % 8 = 0 := by
    obtain ⟨pre, post, -, rfl⟩ := split_of_mem hmem
    rw [stop_mod]
    exact hr.aligned
  rw [hroom, data, mblocksize]
  omega

theorem Inv.disjoint (hs : Inv s) (hp : s.live p ≠ none) (hq : s.live q ≠ none) (hpq : p ≠ q) :
    p + room s.heap p ≤ q ∨ q + room s.heap q ≤ p := by
  obtain ⟨n, hn⟩ := Option.ne_none_iff_exists'.mp hp
  obtain ⟨j, hj⟩ := Option.ne_none_iff_exists'.mp hq
  rcases hs.blocks with ⟨-, -, hlive⟩ | ⟨bs, hr, ho⟩
  · exact absurd (hlive p) hp
  obtain ⟨x, k, hb, rfl, hroom, hk⟩ := ho.room hr hn
  obtain ⟨y, i, hc, rfl, hroom', hi⟩ := ho.room hr hj
  rw [hroom, hroom', data, data, mblocksize]
  rcases eq_or_disjoint (mem_used.mp hb).1 (mem_used.mp hc).1 with heq | hlt | hlt
  · exact absurd (congrArg data (Prod.mk.inj heq).1) hpq
  · have hlt : x + k * 8 ≤ y := hlt
    exact Or.inl (by omega)
  · have hlt : y + i * 8 ≤ x := hlt
    exact Or.inr (by omega)

theorem honoured_of_allocates (hs : Inv s) {bs bs' : List Block} {h' : Heap} {m : ℕ}
    (hb : Searched s bs) (ha : Allocates (begun s.heap) bs h' m n bs') :
    Honoured s n h' (data m) := by
  have hinv := inv_of_allocates hs hb ha
  have hlive : Function.update s.live (data m) (some n) (data m) = some n := Function.update_self ..
  obtain ⟨-, hroom, hbase, htop⟩ := hinv.live_room hlive
  refine .block (Nat.succ_ne_zero _) hroom hbase htop ha.rep.brk.symm (fun q hq => ?_) hinv.tiled
  obtain ⟨k, hk⟩ := Option.ne_none_iff_exists'.mp hq
  have hne : data m ≠ q := (ha.fresh q k ((hb.owned q k).mp hk)).symm
  refine ⟨hne, hinv.disjoint ?_ ?_ hne⟩
  · dsimp only
    rw [hlive]
    nofun
  · dsimp only
    rw [Function.update_of_ne hne.symm]
    exact hq

/-- A small request is honoured, unless the allocator cannot be initialised. -/
theorem honoured_of_small (hs : Inv s) (hn : n < 2 ^ 30) {ok : ℕ → Bool} {h : Heap}
    (hmalloc : malloc s.heap ok n = .ok (h, p)) : Honoured s n h p := by
  have hn' : n < 2 ^ 32 := hn.trans (by decide)
  have hsuits : ∀ bs, Searched s bs → ∃ bs, Searched s bs ∧ Suits (begun s.heap) bs (ok 2) n :=
    fun bs hb => ⟨bs, hb, suits_of_small hb.rep hn (ok 2)⟩
  rcases malloc_cases hs hn' ok hsuits with ⟨e, he, -⟩ | ⟨bs, hb, hnull | ⟨h', m, bs', hok, ha⟩⟩
  · rw [he] at hmalloc
    cases hmalloc
  · rw [hnull] at hmalloc
    obtain ⟨rfl, rfl⟩ := Prod.mk.inj (Except.ok.inj hmalloc)
    exact .null rfl rfl
  · rw [hok] at hmalloc
    obtain ⟨rfl, rfl⟩ := Prod.mk.inj (Except.ok.inj hmalloc)
    exact honoured_of_allocates hs hb ha

end Promise

/-- **The heap.** In every state a client brings about, the headers tile the heap, with the offsets
of neighbours in agreement and no two neighbours free; a pointer that is live is that of a block in
use. It is aligned and has the room asked for within the heap, apart from that of every other. What
`malloc` answers next is `NULL` or was not live, and its room is apart from that of all live
pointers. A call does not write to what is live, unless it frees it. The program is ended only if
the allocator cannot be initialised. -/
theorem malloc_heap {s : State} (hs : system.Reachable s) :
    (∃ bs, Tiled s.heap bs ∧ Owned s bs) ∧
    (∀ p n, s.live p = some n → p % 8 = 0 ∧ n ≤ room s.heap p ∧ s.heap.heapbase ≤ p ∧
      p + room s.heap p ≤ s.heap.heaptop) ∧
    (∀ p q, s.live p ≠ none → s.live q ≠ none → p ≠ q →
      p + room s.heap p ≤ q ∨ q + room s.heap q ≤ p) ∧
    (∀ size < 2 ^ 30, ∀ ok h p, malloc s.heap ok size = .ok (h, p) → Honoured s size h p) ∧
    (∀ a s', system.step s a = some s' → (∀ x mem, a ≠ .write x mem) →
      ∀ p, s.live p ≠ none → a ≠ .free p →
        ∀ y, p ≤ y → y < p + room s.heap p → s'.heap.mem y = s.heap.mem y) ∧
    ∀ e, s.exit = some e → InitExit e := by
  have hinv := inv_of_reachable hs
  have hlimit : 2 ^ 30 ≤ 2 ^ 32 := by decide
  refine ⟨hinv.tiled, fun p n hp => hinv.live_room hp, fun p q hp hq => hinv.disjoint hp hq,
    fun size hsize ok h p hmalloc => honoured_of_small hinv hsize hmalloc,
    fun a s' hstep hwrite p hp hfree y => ?_, hinv.exit⟩
  exact spared_of_step hinv hlimit (fair_of_step hstep) hstep hwrite hp hfree

/-- A program whose break is at 4100. -/
def started : State where
  heap := { mem := fun _ => deadbeef, brk := 4100, start := 4100, heapbase := 0, heaptop := 0 }
  exit := none
  live := fun _ => none

/-- The first block is freed and its memory used for a smaller one, so that it is split. -/
def reuse : List Action :=
  [.malloc 100 fun _ => true, .malloc 0 fun _ => true, .free 4112, .malloc 20 fun _ => true]

theorem malloc_heap_reuse : ∃ s, reuse.foldlM system.step started = some s ∧
    s.live 4112 = some 20 ∧ s.live 4224 = some 0 ∧
    (4112 + room s.heap 4112 ≤ 4224 ∨ 4224 + room s.heap 4224 ≤ 4112) := by
  have hrun : ((reuse.foldlM system.step started).map fun s => (s.live 4112, s.live 4224)) =
      some (some 20, some 0) := by decide +kernel
  obtain ⟨s, hs, hlive⟩ := Option.map_eq_some_iff.mp hrun
  obtain ⟨h1, h2⟩ := Prod.mk.inj hlive
  have hreach : system.Reachable s :=
    TransitionSystem.reachable_of_run reuse (.init ⟨rfl, rfl, rfl, rfl, fun _ => rfl⟩) hs
  refine ⟨s, hs, h1, h2, (malloc_heap hreach).2.2.1 4112 4224 ?_ ?_ (by decide)⟩
  · rw [h1]
    nofun
  · rw [h2]
    nofun

end Malloc

end Os161
