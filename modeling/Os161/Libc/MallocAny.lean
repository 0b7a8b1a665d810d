import Os161.Libc.MallocSound

/-!
# Requests of any size

`malloc` rounds a size up to blocks, adds a header, rounds up to pages, and hands the result to
`sbrk`, for which it is a signed number. Each of the steps may wrap around for a large size: then
the block is too small, or no memory is asked for, or `sbrk` is asked to take memory away, and the
heap ends below the block that is returned.

`Honoured` is what `malloc` is there for, and `Served` says of a request, by the blocks of the heap
and the answers of `sbrk`, whether that comes about.

## Main results

* `malloc_honours_iff` — a request is honoured exactly if it is served, in every state that is
  reached by requests that are
-/

namespace Os161

namespace Malloc

open Tiling

/-- The heap has a free block for the request, or it can grow, or `sbrk` does not let it. -/
def Served (s : State) (ok : ℕ → Bool) (size : ℕ) : Prop :=
  Ready s.heap ok ∧ ∃ bs, Searched s bs ∧ Suits (begun s.heap) bs (ok 2) size

/-- Calls of `malloc` are for what is served. -/
def Modest (s : State) (a : Action) : Prop :=
  ∀ size ok, a = .malloc size ok → Served s ok size

section

variable {s s' : State} {h h' : Heap} {bs : List Block} {p q n m : ℕ} {ok : ℕ → Bool}

theorem Modest.fair {a : Action} (hmodest : Modest s a) : Fair s a :=
  fun size ok ha _ _ => (hmodest size ok ha).2

/-! ### What is served is honoured -/

theorem honoured_of_served (hs : Inv s) (hn : n < 2 ^ 32) (hserved : Served s ok n) :
    ∃ h p, malloc s.heap ok n = .ok (h, p) ∧ Honoured s n h p := by
  obtain ⟨hready, bs, hb, hsuits⟩ := hserved
  rcases malloc_begun hs ok n with ⟨e, -, -, hnot⟩ | ⟨hmalloc, -, -⟩
  · exact absurd hb (hnot hready bs)
  · rw [hmalloc]
    rcases mallocBody_spec hb.rep hn hsuits with hbody | ⟨h', m, bs', hbody, ha⟩
    · exact ⟨_, 0, hbody, .null rfl rfl⟩
    · exact ⟨h', data m, hbody, honoured_of_allocates hs hb ha⟩

/-! ### What is honoured is served -/

theorem mallocSplit_heaptop {size : ℕ} (hsplit : mallocSplit h m size = .ok h') :
    h'.heaptop = h.heaptop := by
  rw [mallocSplit] at hsplit
  dsimp only at hsplit
  split at hsplit
  · cases hsplit
  · split at hsplit
    · cases hsplit
      rfl
    · split at hsplit
      · cases hsplit
      · split at hsplit <;> cases hsplit <;> rfl

theorem mallocSbrk_none {ok : Bool} {size : ℕ} (hs : mallocSbrk h ok size = .ok (h', none)) :
    (sbrk h ok size).2 = failed := by
  rw [mallocSbrk] at hs
  dsimp only at hs
  split at hs
  · assumption
  · split at hs <;> cases hs

/-- How much room there is, is a number of blocks below `2 ^ 32`. -/
theorem room_bounds (h : Heap) (p : ℕ) : room h p ≤ 2 ^ 32 - 8 ∧ room h p % 8 = 0 := by
  rw [room, Mheader.size, Mheader.nextoff, sub32, mblocksize]
  omega

/-- Moving the break by nothing or down does not move the top up. -/
theorem top_le_of_sbrk (hl : Laid h bs) {ok : Bool} {size : ℕ} (hsize : size < 2 ^ 32)
    (hs : (sbrk h ok size).2 ≠ failed) (hdown : ¬(0 < size ∧ size < 2 ^ 31)) :
    (h.heaptop + size) % 2 ^ 32 ≤ h.heaptop := by
  by_cases hneg : size < 2 ^ 31
  · obtain rfl : size = 0 := by omega
    exact Nat.mod_le _ _
  · have hbrk := hl.brk
    have hbound := hl.bound
    rw [sbrk, if_neg hneg] at hs
    split at hs
    · next hok => omega
    · exact absurd rfl hs

theorem roundPage_lt (v : ℕ) : mallocGrow.roundPage v < 2 ^ 32 := by
  rw [mallocGrow.roundPage]
  exact Nat.mod_lt _ (Nat.two_pow_pos 32)

theorem suits_of_honoured (hb : Searched s bs) {ok : Bool} (hn : n < 2 ^ 32)
    (hbody : mallocBody (begun s.heap) ok n = .ok (h, p)) (hhon : Honoured s n h p) :
    Suits (begun s.heap) bs ok n := by
  have hround := roundBlock_eq n
  rcases mallocBody_eq hb.rep ok n with ⟨pre, k, post, rfl, hk, hfound⟩ | ⟨hall, hgrow⟩
  · rw [hfound, mallocFound] at hbody
    cases hsplit : mallocSplit (begun s.heap) (stop Block.len (begun s.heap).heapbase pre)
        (roundBlock n) with
    | error e =>
      rw [hsplit] at hbody
      cases hbody
    | ok h₁ =>
      rw [hsplit] at hbody
      obtain ⟨rfl, rfl⟩ := Prod.mk.inj (Except.ok.inj hbody)
      cases hhon with
      | null hp => exact absurd hp (Nat.succ_ne_zero _)
      | block hp hroom =>
        have hbounds := room_bounds (h₁.modify (stop Block.len (begun s.heap).heapbase pre)
          fun m => { m with mhInuse := true }) (data (stop Block.len (begun s.heap).heapbase pre))
        refine .fits ⟨k, none⟩ (List.mem_append_right _ List.mem_cons_self) rfl ?_
        change n + 8 ≤ k * 8
        omega
  · obtain ⟨q, hq⟩ : ∃ q, roundBlock n = q * 8 := ⟨_, hround⟩
    rw [hgrow] at hbody
    rw [hq] at hbody hall
    obtain ⟨m, f, hf, hm, heq⟩ := mallocGrow_eq hb.rep hall (by omega) ok
    rw [heq] at hbody
    cases hs : mallocSbrk (begun s.heap) ok
        (mallocGrow.roundPage (shortage bs (q * 8))) with
    | error e =>
      rw [hs] at hbody
      cases hbody
    | ok r =>
      rw [hs] at hbody
      obtain ⟨h₁, _ | p₁⟩ := r
      · refine .refused (fun b hb' hu => ?_) ?_
        · have hpass : b.len - 8 < q * 8 := (hall b hb').resolve_left (by simp [hu])
          have hlen := hb.rep.headers.len_pos hb'
          omega
        · rw [increment, hq]
          exact mallocSbrk_none hs
      · obtain ⟨-, htop₁, hne⟩ := mallocSbrk_some hs
        cases hsplit : mallocSplit (f h₁) m (q * 8) with
        | error e =>
          have hbad : (Except.error e : Except Exit (Heap × ℕ)) = .ok (h, p) := by
            rw [← hbody]
            change _ = mallocSplit (f h₁) m (q * 8) >>= _
            rw [hsplit]
            rfl
          cases hbad
        | ok h₂ =>
          have hgood : (Except.ok (h₂, data m) : Except Exit (Heap × ℕ)) = .ok (h, p) := by
            rw [← hbody]
            change _ = mallocSplit (f h₁) m (q * 8) >>= _
            rw [hsplit]
            rfl
          obtain ⟨rfl, rfl⟩ := Prod.mk.inj (Except.ok.inj hgood)
          have htop₂ := mallocSplit_heaptop hsplit
          rw [hf, htop₁] at htop₂
          cases hhon with
          | null hp => exact absurd hp (Nat.succ_ne_zero _)
          | block hp hroom hbase htop =>
            have hbounds := room_bounds h₂ (data m)
            have hup : 0 < increment bs n ∧ increment bs n < 2 ^ 31 := by
              by_contra hdown
              rw [increment, hq] at hdown
              have hle := top_le_of_sbrk hb.rep.toLaid (roundPage_lt _) hne hdown
              omega
            exact .grows (by omega) hup.1 hup.2

theorem served_of_honoured (hs : Inv s) (hn : n < 2 ^ 32)
    (hmalloc : malloc s.heap ok n = .ok (h, p)) (hhon : Honoured s n h p) : Served s ok n := by
  rcases malloc_begun hs ok n with ⟨e, he, -, -⟩ | ⟨hbody, hready, bs, hb⟩
  · rw [he] at hmalloc
    cases hmalloc
  · rw [hbody] at hmalloc
    exact ⟨hready, bs, hb, suits_of_honoured hb hn hmalloc hhon⟩

/-! ### Runs -/

/-- A step for what is served does not end the program. -/
theorem exit_of_step (hs : Inv s) {a : Action} (hexit : s.exit = none) (hmodest : Modest s a)
    (hstep : step (2 ^ 32) s a = some s') : s'.exit = none := by
  cases a with
  | malloc size ok =>
    rw [step] at hstep
    split at hstep
    case isFalse => cases hstep
    case isTrue hguard =>
      obtain ⟨h, p, hmalloc, -⟩ := honoured_of_served hs hguard.2 (hmodest size ok rfl)
      rw [hmalloc] at hstep
      obtain rfl := Option.some.inj hstep
      exact hexit
  | free x =>
    rw [step] at hstep
    split at hstep
    case isFalse => cases hstep
    case isTrue hguard =>
      rcases hguard.2 with rfl | hx
      · rw [show free s.heap 0 = .ok s.heap from rfl] at hstep
        obtain rfl := Option.some.inj hstep
        exact hexit
      · obtain ⟨bs, h', m, bs', -, -, -, hfree, -⟩ := free_cases hs hx
        rw [hfree] at hstep
        obtain rfl := Option.some.inj hstep
        exact hexit
  | write x mem =>
    rw [step] at hstep
    split at hstep
    · rw [if_pos hexit] at hstep
      obtain rfl := Option.some.inj hstep
      exact hexit
    · cases hstep

end

theorem inv_of_reachableWhile {s : State} (hs : systemAny.ReachableWhile Modest s) :
    Inv s ∧ s.exit = none := by
  refine hs.invariant (P := fun s => Inv s ∧ s.exit = none) (fun s hs => ?_) ?_
  · exact ⟨inv_of_starts hs, hs.2.2.2.1⟩
  · rintro s a s' ⟨hinv, hexit⟩ hmodest hstep
    exact ⟨inv_step hinv (Nat.le_refl _) hmodest.fair hstep,
      exit_of_step hinv hexit hmodest hstep⟩

/-- **Sizes.** In a run in which every request is served, the program goes on and the heap is well
formed, and the next request, of any size, is honoured exactly if it is served. -/
theorem malloc_honours_iff {s : State} (hs : systemAny.ReachableWhile Modest s) :
    s.exit = none ∧ (∃ bs, Tiled s.heap bs ∧ Owned s bs) ∧
      ∀ size < 2 ^ 32, ∀ ok, (∃ h p, malloc s.heap ok size = .ok (h, p) ∧ Honoured s size h p) ↔
        Served s ok size := by
  obtain ⟨hinv, hexit⟩ := inv_of_reachableWhile hs
  refine ⟨hexit, hinv.tiled, fun size hsize ok => ⟨?_, honoured_of_served hinv hsize⟩⟩
  rintro ⟨h, p, hmalloc, hhon⟩
  exact served_of_honoured hinv hsize hmalloc hhon

theorem searched_started : Searched started [] where
  rep := ⟨⟨by decide, by decide, rfl, rfl, by decide, trivial, nofun, nofun⟩, List.IsChain.nil⟩
  owned := fun _ _ => ⟨nofun, nofun⟩

/-- A request for 2 GB less two pages, the largest for which the first increment is positive. -/
theorem malloc_honours_iff_started :
    ∃ h p, malloc started.heap (fun _ => true) (2 ^ 31 - 8192) = .ok (h, p) ∧
      Honoured started (2 ^ 31 - 8192) h p := by
  have hstart : Starts started := ⟨rfl, rfl, rfl, rfl, fun _ => rfl⟩
  refine ((malloc_honours_iff (.init hstart)).2.2 (2 ^ 31 - 8192) (by decide) fun _ => true).mpr ?_
  exact ⟨fun _ => ⟨rfl, fun _ => rfl⟩, [], searched_started,
    .grows (by decide) (by decide) (by decide)⟩

/-- The largest size is 0 after rounding, and gets a block without room. -/
theorem not_malloc_honours : ¬ ∀ s, systemAny.Reachable s → ∀ size < 2 ^ 32, ∀ ok,
    ∃ h p, malloc s.heap ok size = .ok (h, p) ∧ Honoured s size h p := by
  intro hall
  obtain ⟨h, p, hmalloc, hhon⟩ := hall started (.init ⟨rfl, rfl, rfl, rfl, fun _ => rfl⟩)
    (2 ^ 32 - 1) (by decide) fun _ => true
  have hrun : (malloc started.heap (fun _ => true) (2 ^ 32 - 1)).toOption.map
      (fun r => (r.2, room r.1 r.2)) = some (4112, 0) := by decide +kernel
  rw [hmalloc] at hrun
  obtain ⟨rfl, hroom⟩ := Prod.mk.inj (Option.some.inj hrun)
  cases hhon with
  | null hp => cases hp
  | block _ hle =>
    rw [hroom] at hle
    exact absurd hle (by decide)

end Malloc

end Os161
