import Os161.Lib.Acyclic
import Os161.Lib.Transition
import Mathlib.Logic.Function.Basic

/-!
# The deadlock detector

`kern/thread/hangman.c`. An actor waits for at most one lockable and a lockable is held by at most
one actor, so the waits-for graph has at most one edge out of each actor, and `hangman_check` just
follows it. It keeps no record of where it has been: that it comes to an end, and that it misses
nothing, rests on there being no cycle already.

Actors and lockables are arbitrary types. `own` is the lockable of the detector's own spinlock,
which all three functions ignore. The loop of `hangman_check` takes fuel; a call of `hangman_wait`
may take as much as it needs, and `hangmanCheck_terminates` says that there is always enough.

## Main results

* `Hangman.Inv.step` — no cycle comes about
* `Hangman.hangman_exact`
-/

namespace Os161

namespace Hangman

open Relation

variable {A L : Type} [DecidableEq A] [DecidableEq L]

/-- What the actors wait for and who holds the lockables. -/
structure State (A L : Type) where
  aWaiting : A → Option L
  lHolding : L → Option A

/-- The panics, in the order of the source. -/
inductive Panic where
  /-- "Deadlock." -/
  | deadlock
  /-- `hangman_wait`: "already waiting for something?" -/
  | alreadyWaiting
  /-- `hangman_acquire`: "not waiting for lock". -/
  | notWaiting
  /-- `hangman_acquire`: "lock still held by". -/
  | stillHeld
  /-- `hangman_release`: "waiting for something?" -/
  | releaseWaiting
  /-- `hangman_release`: "not the holder". -/
  | notHolder
  deriving DecidableEq

/-- The loop of `hangman_check`: whether it comes to `found`. -/
def checkLoop (s : State A L) (target : A) : ℕ → Option A → Option Bool
  | 0, _ => none
  | _ + 1, none => some false
  | fuel + 1, some cur =>
    if cur = target then some true
    else match s.aWaiting cur with
      | none => some false
      | some l => checkLoop s target fuel (s.lHolding l)

/-- `hangman_check`. -/
def hangmanCheck (s : State A L) (start : L) (target : A) (fuel : ℕ) : Option Bool :=
  checkLoop s target fuel (s.lHolding start)

/-- A machine that runs, or one that stopped in a panic. -/
inductive Config (A L : Type) where
  | running (s : State A L)
  | panicked (p : Panic)

/-- The calls. -/
inductive Call (A L : Type) where
  /-- `hangman_wait(a, l)`, whose check takes at most `fuel` rounds. -/
  | wait (a : A) (l : L) (fuel : ℕ)
  /-- `hangman_acquire(a, l)`. -/
  | acquire (a : A) (l : L)
  /-- `hangman_release(a, l)`. -/
  | release (a : A) (l : L)

/-- `a->a_waiting = l`. -/
def State.wait (s : State A L) (a : A) (l : L) : State A L :=
  { s with aWaiting := Function.update s.aWaiting a (some l) }

/-- `hangman_wait`; not finished if the fuel is not enough. -/
def hangmanWait (own : L) (s : State A L) (a : A) (l : L) (fuel : ℕ) : Option (Config A L) :=
  if l = own then some (.running s)
  else if s.aWaiting a ≠ none then some (.panicked .alreadyWaiting)
  else match hangmanCheck s l a fuel with
    | none => none
    | some true => some (.panicked .deadlock)
    | some false => some (.running (s.wait a l))

/-- `hangman_acquire`. -/
def hangmanAcquire (own : L) (s : State A L) (a : A) (l : L) : Config A L :=
  if l = own then .running s
  else if s.aWaiting a ≠ some l then .panicked .notWaiting
  else if s.lHolding l ≠ none then .panicked .stillHeld
  else .running
    { lHolding := Function.update s.lHolding l (some a)
      aWaiting := Function.update s.aWaiting a none }

/-- `hangman_release`. -/
def hangmanRelease (own : L) (s : State A L) (a : A) (l : L) : Config A L :=
  if l = own then .running s
  else if s.aWaiting a ≠ none then .panicked .releaseWaiting
  else if s.lHolding l ≠ some a then .panicked .notHolder
  else .running { s with lHolding := Function.update s.lHolding l none }

/-- The calls, in any order, from the start. -/
def system (A L : Type) [DecidableEq A] [DecidableEq L] (own : L) :
    TransitionSystem (Config A L) (Call A L) where
  init c := c = .running ⟨fun _ => none, fun _ => none⟩
  step c call := match c with
    | .panicked _ => none
    | .running s => match call with
      | .wait a l fuel => hangmanWait own s a l fuel
      | .acquire a l => some (hangmanAcquire own s a l)
      | .release a l => some (hangmanRelease own s a l)

/-- The waits-for graph: `a` waits for something that `b` holds. -/
def WaitsFor (s : State A L) (a b : A) : Prop := ∃ l, s.aWaiting a = some l ∧ s.lHolding l = some b

/-! ### The check -/

variable {s : State A L} {own : L}

omit [DecidableEq L] in
theorem checkLoop_mono {target : A} {fuel : ℕ} {cur : Option A} {b : Bool}
    (h : checkLoop s target fuel cur = some b) :
    checkLoop s target (fuel + 1) cur = some b := by
  induction fuel generalizing cur with
  | zero => exact nomatch h
  | succ fuel ih =>
    cases cur with
    | none => exact h
    | some c =>
      rw [checkLoop] at h ⊢
      split at h
      · next hc => rw [if_pos hc, h]
      · next hc =>
        rw [if_neg hc]
        cases hw : s.aWaiting c with
        | none => rwa [hw] at h
        | some l =>
          rw [hw] at h
          exact ih h

omit [DecidableEq L] in
theorem checkLoop_add {target : A} {fuel : ℕ} {cur : Option A} {b : Bool} (k : ℕ)
    (h : checkLoop s target fuel cur = some b) :
    checkLoop s target (fuel + k) cur = some b := by
  induction k with
  | zero => exact h
  | succ k ih => exact checkLoop_mono ih

omit [DecidableEq L] in
/-- The answer does not depend on the fuel. -/
theorem checkLoop_unique {target : A} {fuel fuel' : ℕ} {cur : Option A} {b b' : Bool}
    (h : checkLoop s target fuel cur = some b) (h' : checkLoop s target fuel' cur = some b') :
    b = b' := by
  have h₁ := checkLoop_add fuel' h
  have h₂ := checkLoop_add fuel h'
  rw [Nat.add_comm] at h₂
  exact Option.some.inj (h₁.symm.trans h₂)

omit [DecidableEq L] in
/-- What is found is there. -/
theorem path_of_found {target : A} {fuel : ℕ} {c : A}
    (h : checkLoop s target fuel (some c) = some true) : ReflTransGen (WaitsFor s) c target := by
  induction fuel generalizing c with
  | zero => exact nomatch h
  | succ fuel ih =>
    rw [checkLoop] at h
    split at h
    · next hc =>
      subst hc
      exact .refl
    · cases hw : s.aWaiting c with
      | none => simp [hw] at h
      | some l =>
        rw [hw] at h
        dsimp only at h
        cases hl : s.lHolding l with
        | none =>
          rw [hl] at h
          cases fuel with
          | zero => exact nomatch h
          | succ fuel => exact absurd h (by simp [checkLoop])
        | some d =>
          rw [hl] at h
          exact .head ⟨l, hw, hl⟩ (ih h)

omit [DecidableEq L] in
/-- What is there is found. -/
theorem found_of_path {target c : A} (h : ReflTransGen (WaitsFor s) c target) :
    ∃ fuel, checkLoop s target fuel (some c) = some true := by
  induction h using ReflTransGen.head_induction_on with
  | refl => exact ⟨1, by simp [checkLoop]⟩
  | head hedge _ ih =>
    rename_i c d
    obtain ⟨l, hw, hl⟩ := hedge
    obtain ⟨fuel, hf⟩ := ih
    refine ⟨fuel + 1, ?_⟩
    rw [checkLoop]
    split
    · rfl
    · rw [hw]
      dsimp only
      rw [hl]
      exact hf

omit [DecidableEq L] in
/-- From an actor from which every path ends, the loop comes to an end. -/
theorem checkLoop_terminates {target c : A} (h : Acc (fun b a => WaitsFor s a b) c) :
    ∃ fuel b, checkLoop s target fuel (some c) = some b := by
  induction h with
  | intro c _ ih =>
    by_cases hc : c = target
    · exact ⟨1, true, by simp [checkLoop, hc]⟩
    · cases hw : s.aWaiting c with
      | none => exact ⟨1, false, by simp [checkLoop, hc, hw]⟩
      | some l =>
        cases hl : s.lHolding l with
        | none => exact ⟨2, false, by simp [checkLoop, hc, hw, hl]⟩
        | some d =>
          obtain ⟨fuel, b, hf⟩ := ih d ⟨l, hw, hl⟩
          exact ⟨fuel + 1, b, by simpa [checkLoop, hc, hw, hl] using hf⟩

/-! ### The invariant -/

/-- There is no cycle, finitely many actors wait, and nobody holds the detector's own lock. -/
structure Inv (own : L) (s : State A L) : Prop where
  acyclic : Acyclic (WaitsFor s)
  finite : ∃ W : Finset A, ∀ a, s.aWaiting a ≠ none → a ∈ W
  own : s.lHolding own = none

omit [DecidableEq L] in
theorem Inv.terminates (h : Inv own s) (l : L) (target : A) :
    ∃ fuel b, hangmanCheck s l target fuel = some b := by
  unfold hangmanCheck
  cases hl : s.lHolding l with
  | none => exact ⟨1, false, rfl⟩
  | some c =>
    obtain ⟨W, hW⟩ := h.finite
    refine checkLoop_terminates (h.acyclic.acc W ?_ c)
    rintro x y ⟨l, hw, -⟩
    exact hW x (by simp [hw])

omit [DecidableEq L] in
/-- The edges after an actor began to wait. -/
theorem waitsFor_wait {a : A} {l : L} {x y : A} (h : WaitsFor (s.wait a l) x y) :
    WaitsFor s x y ∨ x = a ∧ s.lHolding l = some y := by
  obtain ⟨l', hw, hl⟩ := h
  by_cases hx : x = a
  · subst hx
    obtain rfl : l = l' := by simpa [State.wait] using hw
    exact .inr ⟨rfl, hl⟩
  · exact .inl ⟨l', by simpa [State.wait, hx] using hw, hl⟩

/-- **The step lemma**: a call that does not panic keeps the invariant. -/
theorem Inv.step {call : Call A L} {s' : State A L} (h : Inv own s)
    (hstep : (system A L own).step (.running s) call = some (.running s')) : Inv own s' := by
  cases call with
  | wait a l fuel =>
    simp only [system, hangmanWait] at hstep
    split at hstep
    · cases hstep
      exact h
    · split at hstep
      · cases hstep
      · split at hstep
        · cases hstep
        · cases hstep
        · next hcheck =>
          cases hstep
          refine ⟨?_, ?_, h.own⟩
          · cases hl : s.lHolding l with
            | none =>
              refine h.acyclic.mono fun x y hxy => ?_
              rcases waitsFor_wait hxy with hxy | ⟨-, hy⟩
              · exact hxy
              · exact absurd (hl.symm.trans hy) (by simp)
            | some b =>
              refine h.acyclic.edge (a := a) (b := b) (fun x y hxy => ?_) fun hpath => ?_
              · refine (waitsFor_wait hxy).imp id fun ⟨hx, hy⟩ => ⟨hx, ?_⟩
                exact (Option.some.inj (hl.symm.trans hy)).symm
              · -- the check would have found the path
                obtain ⟨fuel', hfound⟩ := found_of_path hpath
                rw [hangmanCheck, hl] at hcheck
                exact absurd (checkLoop_unique hcheck hfound) (by decide)
          · obtain ⟨W, hW⟩ := h.finite
            refine ⟨insert a W, fun x hx => ?_⟩
            by_cases hxa : x = a
            · simp [hxa]
            · exact Finset.mem_insert_of_mem (hW x (by simpa [State.wait, hxa] using hx))
  | acquire a l =>
    simp only [system, hangmanAcquire, Option.some.injEq] at hstep
    split at hstep
    · cases hstep
      exact h
    · next hown =>
      split at hstep
      · cases hstep
      · split at hstep
        · cases hstep
        · cases hstep
          refine ⟨h.acyclic.sink (a := a) (fun x y hxy => ?_) (fun y hy => ?_), ?_, ?_⟩
          · obtain ⟨l', hw, hl⟩ := hxy
            by_cases hll : l' = l
            · subst hll
              exact .inr (by simpa [eq_comm] using hl)
            · have hxa : x ≠ a := by
                rintro rfl
                simp at hw
              exact .inl ⟨l', by simpa [hxa] using hw, by simpa [hll] using hl⟩
          · obtain ⟨l', hw, -⟩ := hy
            simp at hw
          · obtain ⟨W, hW⟩ := h.finite
            refine ⟨W, fun x hx => hW x ?_⟩
            have hxa : x ≠ a := by
              rintro rfl
              simp at hx
            simpa [hxa] using hx
          · simpa [Ne.symm hown] using h.own
  | release a l =>
    simp only [system, hangmanRelease, Option.some.injEq] at hstep
    split at hstep
    · cases hstep
      exact h
    · next hown =>
      split at hstep
      · cases hstep
      · split at hstep
        · cases hstep
        · cases hstep
          refine ⟨h.acyclic.mono fun x y hxy => ?_, h.finite, ?_⟩
          · obtain ⟨l', hw, hl⟩ := hxy
            have hll : l' ≠ l := by
              rintro rfl
              simp at hl
            exact ⟨l', hw, by simpa [hll] using hl⟩
          · simpa [Ne.symm hown] using h.own

/-- The invariant holds after every sequence of calls that does not panic. -/
theorem inv_of_reachable {c : Config A L} (h : (system A L own).Reachable c) :
    ∀ s, c = .running s → Inv own s := by
  induction h with
  | init h =>
    rintro s rfl
    obtain rfl : s = ⟨fun _ => none, fun _ => none⟩ := by simpa [system] using h
    refine ⟨fun x hx => ?_, ⟨∅, fun a ha => absurd rfl ha⟩, rfl⟩
    obtain ⟨y, ⟨l, hw, -⟩, -⟩ := TransGen.head'_iff.mp hx
    exact nomatch hw
  | step call _ hstep ih =>
    rintro s' rfl
    rename_i c _
    cases c with
    | panicked p => exact nomatch hstep
    | running s => exact (ih s rfl).step hstep

omit [DecidableEq L] in
/-- A cycle through an actor, with the edge it would add. -/
theorem cycle_iff {a : A} {l : L} (ha : s.aWaiting a = none) :
    TransGen (WaitsFor (s.wait a l)) a a ↔
      ∃ b, s.lHolding l = some b ∧ ReflTransGen (WaitsFor s) b a := by
  constructor
  · intro hcycle
    obtain ⟨b, ⟨l', hw, hl⟩, hrest⟩ := TransGen.head'_iff.mp hcycle
    obtain rfl : l = l' := by simpa [State.wait] using hw
    have hnew : ∀ x y, WaitsFor (s.wait a l) x y → WaitsFor s x y ∨ x = a ∧ y = b := by
      intro x y hxy
      refine (waitsFor_wait hxy).imp id fun ⟨hx, hy⟩ => ⟨hx, ?_⟩
      exact (Option.some.inj (hl.symm.trans hy)).symm
    refine ⟨b, hl, ?_⟩
    rcases reflTransGen_iff_eq_or_transGen.mp hrest with rfl | hrest
    · exact .refl
    · rcases Acyclic.path_of_edge hnew hrest with hp | ⟨hp, -⟩
      · exact hp.to_reflTransGen
      · exact hp
  · rintro ⟨b, hl, hpath⟩
    have hkeep : ∀ x y, WaitsFor s x y → WaitsFor (s.wait a l) x y := by
      rintro x y ⟨l', hw, hl'⟩
      have hxa : x ≠ a := by
        rintro rfl
        exact absurd (ha.symm.trans hw) (by simp)
      exact ⟨l', by simpa [State.wait, hxa] using hw, hl'⟩
    exact TransGen.head' ⟨l, by simp [State.wait], hl⟩ (ReflTransGen.mono hkeep _ _ hpath)

/-- **The detector is exact.** After any sequence of calls that does not panic there is no cycle in
the waits-for graph, the check comes to an end, and `hangman_wait` of an actor that does not wait
panics if and only if the new edge closes a cycle through that actor. -/
theorem hangman_exact (own : L) (s : State A L)
    (h : (system A L own).Reachable (.running s)) :
    (∀ a, ¬ TransGen (WaitsFor s) a a) ∧
    (∀ l a, ∃ fuel b, hangmanCheck s l a fuel = some b) ∧
    ∀ a l, s.aWaiting a = none →
      ((∃ fuel p, (system A L own).step (.running s) (.wait a l fuel) = some (.panicked p)) ↔
        TransGen (WaitsFor (s.wait a l)) a a) := by
  have hinv := inv_of_reachable h s rfl
  refine ⟨hinv.acyclic, hinv.terminates, fun a l ha => ?_⟩
  rw [cycle_iff ha]
  constructor
  · rintro ⟨fuel, p, hstep⟩
    simp only [system, hangmanWait] at hstep
    split at hstep
    · cases hstep
    · rw [if_neg (by simp [ha])] at hstep
      split at hstep
      · cases hstep
      · next hcheck =>
        unfold hangmanCheck at hcheck
        cases hl : s.lHolding l with
        | none =>
          rw [hl] at hcheck
          cases fuel with
          | zero => exact nomatch hcheck
          | succ fuel => exact absurd hcheck (by simp [checkLoop])
        | some b =>
          rw [hl] at hcheck
          exact ⟨b, rfl, path_of_found hcheck⟩
      · cases hstep
  · rintro ⟨b, hl, hpath⟩
    obtain ⟨fuel, hfound⟩ := found_of_path hpath
    have hown : l ≠ own := by
      rintro rfl
      exact absurd (hinv.own.symm.trans hl) (by simp)
    refine ⟨fuel, .deadlock, ?_⟩
    simp only [system, hangmanWait]
    rw [if_neg hown, if_neg (by simp [ha]), hangmanCheck, hl, hfound]

/-- Actors 0 and 1 hold lockables 0 and 1, and 0 waits for lockable 1: the detector stops 1 from
waiting for lockable 0. Lockable 9 is its own. -/
theorem hangman_exact_two : ∃ s : State ℕ ℕ, (system ℕ ℕ 9).Reachable (.running s) ∧
    s.aWaiting 0 = some 1 ∧
    ∃ fuel p, (system ℕ ℕ 9).step (.running s) (.wait 1 0 fuel) = some (.panicked p) := by
  have hrun : ([Call.wait 0 0 1, .acquire 0 0, .wait 1 1 1, .acquire 1 1, .wait 0 1 2].foldlM
      (system ℕ ℕ 9).step (.running ⟨fun _ => none, fun _ => none⟩)) = some (.running
        { lHolding := Function.update (Function.update (fun _ => none) 0 (some 0)) 1 (some 1)
          aWaiting := Function.update (Function.update (Function.update (Function.update
            (Function.update (fun _ => none) 0 (some 0)) 0 none) 1 (some 1)) 1 none)
            0 (some 1) }) :=
    rfl
  have hreach := TransitionSystem.reachable_of_run _ (.init rfl) hrun
  refine ⟨_, hreach, rfl, ((hangman_exact 9 _ hreach).2.2 1 0 rfl).mpr ?_⟩
  exact .head ⟨0, rfl, rfl⟩ (.single ⟨1, rfl, rfl⟩)

end Hangman

end Os161
