import Os161.Lib.Transition
import Mathlib.Data.Set.Card

/-!
# Interrupt levels and spinlocks

`kern/thread/spl.c` and `kern/thread/spinlock.c`, for one thread that stays on its CPU. The `spl`
calls and the spinlocks both turn interrupts off, and neither has to nest within the other, so
`t_iplhigh_count` counts who wants them off.

A spinlock is taken when it is free; spinning until then is not modelled. The other CPUs take and
let go of spinlocks at any time. The hooks of the deadlock detector are left out.

## Main definitions

* `splraise`, `spllower`, `splx`, `spinlockAcquire`, `spinlockRelease`
* `system`

## Main results

* `inv_step` — every call returns, and keeps the count
* `iplhigh_accounting`
-/

namespace Os161

namespace Spl

/-- `IPL_NONE` and `IPL_HIGH`. -/
inductive Ipl where
  | none
  | high
  deriving DecidableEq

/-- The value of the macro. -/
def Ipl.value : Ipl → ℤ
  | .none => 0
  | .high => 1

/-- `struct spinlock`. -/
structure Spinlock (κ : Type*) where
  /-- `splk_lock` -/
  splkLock : Bool
  /-- `splk_holder` -/
  splkHolder : Option κ

/-- A failed `KASSERT`, or the panic of `spinlock_acquire`. -/
inductive Trap where
  /-- `splraise`: `oldspl == IPL_NONE` -/
  | raiseOld
  /-- `splraise`: `newspl == IPL_HIGH` -/
  | raiseNew
  /-- `spllower`: `oldspl == IPL_HIGH` -/
  | lowerOld
  /-- `spllower`: `newspl == IPL_NONE` -/
  | lowerNew
  /-- "Deadlock on spinlock %p" -/
  | deadlock
  /-- `spinlock_release`: `splk->splk_holder == curcpu->c_self` -/
  | holder
  /-- `spinlock_release`: `curcpu->c_spinlocks > 0` -/
  | spinlocks
  deriving DecidableEq

variable {ι κ : Type*}

/-- The current thread and its CPU, and the spinlocks `ι` of the machine, whose CPUs are `κ`. -/
structure State (ι κ : Type*) where
  /-- `t_curspl` -/
  tCurspl : Ipl
  /-- `t_iplhigh_count` -/
  tIplhighCount : ℤ
  /-- `c_spinlocks` -/
  cSpinlocks : ℕ
  /-- Interrupts are enabled. -/
  irq : Bool
  lock : ι → Spinlock κ
  /-- The trap a call ran into. -/
  trap : Option Trap

/-- `splraise`. -/
def splraise (s : State ι κ) (oldspl newspl : Ipl) : Except Trap (State ι κ) :=
  if oldspl ≠ .none then .error .raiseOld
  else if newspl ≠ .high then .error .raiseNew
  else .ok { s with
    irq := if s.tIplhighCount = 0 then false else s.irq
    tIplhighCount := s.tIplhighCount + 1 }

/-- `spllower`. -/
def spllower (s : State ι κ) (oldspl newspl : Ipl) : Except Trap (State ι κ) :=
  if oldspl ≠ .high then .error .lowerOld
  else if newspl ≠ .none then .error .lowerNew
  else .ok { s with
    irq := if s.tIplhighCount - 1 = 0 then true else s.irq
    tIplhighCount := s.tIplhighCount - 1 }

/-- `splx`, with the level it returns. -/
def splx (s : State ι κ) (spl : Ipl) : Except Trap (State ι κ × Ipl) :=
  if s.tCurspl.value < spl.value then do
    let s ← splraise s s.tCurspl spl
    .ok ({ s with tCurspl := spl }, s.tCurspl)
  else if spl.value < s.tCurspl.value then do
    let ret := s.tCurspl
    let s ← spllower { s with tCurspl := spl } ret spl
    .ok (s, ret)
  else .ok (s, spl)

/-- `splhigh`. -/
def splhigh (s : State ι κ) : Except Trap (State ι κ × Ipl) := splx s .high

/-- `spl0`. -/
def spl0 (s : State ι κ) : Except Trap (State ι κ × Ipl) := splx s .none

/-- `spinlock_data_set` and the assignment to `splk_holder`. -/
def State.setLock [DecidableEq ι] (s : State ι κ) (splk : ι) (l : Spinlock κ) : State ι κ :=
  { s with lock := Function.update s.lock splk l }

variable [DecidableEq ι] [DecidableEq κ]

/-- `spinlock_acquire` on the CPU `mycpu`, of a spinlock that is free when it is tested. -/
def spinlockAcquire (mycpu : κ) (s : State ι κ) (splk : ι) : Except Trap (State ι κ) := do
  let s ← splraise s .none .high
  if (s.lock splk).splkHolder = some mycpu then .error .deadlock
  else .ok ({ s with cSpinlocks := s.cSpinlocks + 1 }.setLock splk ⟨true, some mycpu⟩)

/-- `spinlock_release`. -/
def spinlockRelease (mycpu : κ) (s : State ι κ) (splk : ι) : Except Trap (State ι κ) :=
  if (s.lock splk).splkHolder ≠ some mycpu then .error .holder
  else if s.cSpinlocks = 0 then .error .spinlocks
  else spllower ({ s with cSpinlocks := s.cSpinlocks - 1 }.setLock splk ⟨false, none⟩) .high .none

inductive Action (ι κ : Type*) where
  | splx (spl : Ipl)
  | splhigh
  | spl0
  | acquire (splk : ι)
  | release (splk : ι)
  /-- Another CPU takes a spinlock. -/
  | take (cpu : κ) (splk : ι)
  /-- Another CPU lets go of a spinlock. -/
  | drop (cpu : κ) (splk : ι)

/-- The state after a call. -/
def State.after (s : State ι κ) : Except Trap (State ι κ) → State ι κ
  | .ok t => t
  | .error e => { s with trap := some e }

/-- One call of the thread, or a move of another CPU. -/
def step (mycpu : κ) (s : State ι κ) (a : Action ι κ) : Option (State ι κ) :=
  match a with
  | .take cpu splk =>
      if cpu ≠ mycpu ∧ (s.lock splk).splkLock = false then
        some (s.setLock splk ⟨true, some cpu⟩)
      else none
  | .drop cpu splk =>
      if cpu ≠ mycpu ∧ (s.lock splk).splkHolder = some cpu then
        some (s.setLock splk ⟨false, none⟩)
      else none
  | .splx spl => if s.trap = none then some (s.after (Prod.fst <$> splx s spl)) else none
  | .splhigh => if s.trap = none then some (s.after (Prod.fst <$> splhigh s)) else none
  | .spl0 => if s.trap = none then some (s.after (Prod.fst <$> spl0 s)) else none
  | .acquire splk =>
      if s.trap = none ∧ (s.lock splk).splkLock = false then
        some (s.after (spinlockAcquire mycpu s splk))
      else none
  | .release splk =>
      if s.trap = none ∧ (s.lock splk).splkHolder = some mycpu then
        some (s.after (spinlockRelease mycpu s splk))
      else none

/-- The thread starts at `IPL_NONE` without spinlocks; other CPUs may have some. -/
def system (ι : Type*) {κ : Type*} [DecidableEq ι] [DecidableEq κ] (mycpu : κ) :
    TransitionSystem (State ι κ) (Action ι κ) where
  init s := s.tCurspl = .none ∧ s.tIplhighCount = 0 ∧ s.cSpinlocks = 0 ∧ s.irq = true ∧
    s.trap = none ∧ ∀ l, (s.lock l).splkHolder ≠ some mycpu ∧
      ((s.lock l).splkLock = false → (s.lock l).splkHolder = none)
  step := step mycpu

/-! ### The invariant -/

omit [DecidableEq ι] [DecidableEq κ] in
/-- The spinlocks the thread holds. -/
def State.held (s : State ι κ) (mycpu : κ) : Set ι := {l | (s.lock l).splkHolder = some mycpu}

omit [DecidableEq ι] [DecidableEq κ] in
/-- The account of who wants interrupts off. -/
structure Inv (mycpu : κ) (s : State ι κ) : Prop where
  /-- Interrupts are wanted off once for the level and once for each spinlock. -/
  count : s.tIplhighCount = s.tCurspl.value + s.cSpinlocks
  finite : (s.held mycpu).Finite
  spinlocks : (s.held mycpu).ncard = s.cSpinlocks
  irq : s.irq = true ↔ s.tIplhighCount = 0
  free : ∀ l, (s.lock l).splkLock = false → (s.lock l).splkHolder = none
  trap : s.trap = none

section Calls

variable {mycpu : κ} {s t : State ι κ} {splk : ι}

omit [DecidableEq ι] [DecidableEq κ] in
theorem Ipl.value_nonneg (l : Ipl) : 0 ≤ l.value := by
  cases l with
  | none => exact Int.le_refl 0
  | high => exact Int.zero_le_ofNat 1

/-- Interrupts are wanted off once more. -/
def State.raised (s : State ι κ) : State ι κ :=
  { s with
    irq := if s.tIplhighCount = 0 then false else s.irq
    tIplhighCount := s.tIplhighCount + 1 }

/-- Interrupts are wanted off once less. -/
def State.lowered (s : State ι κ) : State ι κ :=
  { s with
    irq := if s.tIplhighCount - 1 = 0 then true else s.irq
    tIplhighCount := s.tIplhighCount - 1 }

omit [DecidableEq ι] [DecidableEq κ] in
theorem splraise_eq : splraise s .none .high = .ok s.raised := rfl

omit [DecidableEq ι] [DecidableEq κ] in
/-- `splx` raises, lowers or does nothing. Its arguments to `splraise` and `spllower` are the only
ones these take. -/
theorem splx_cases (s : State ι κ) (spl : Ipl) :
    (s.tCurspl = spl ∧ splx s spl = .ok (s, spl)) ∨
    (s.tCurspl = .none ∧ spl = .high ∧
      splx s spl = .ok ({ s.raised with tCurspl := .high }, .none)) ∨
    (s.tCurspl = .high ∧ spl = .none ∧
      splx s spl = .ok ({ s.lowered with tCurspl := .none }, .high)) := by
  cases hcur : s.tCurspl <;> cases spl
  case none.none =>
    refine Or.inl ⟨rfl, ?_⟩
    rw [splx, hcur, if_neg (by decide), if_neg (by decide)]
  case none.high =>
    refine Or.inr (Or.inl ⟨rfl, rfl, ?_⟩)
    rw [splx, hcur, if_pos (by decide), splraise_eq]
    change Except.ok (_, s.tCurspl) = _
    rw [hcur]
  case high.none =>
    refine Or.inr (Or.inr ⟨rfl, rfl, ?_⟩)
    rw [splx, hcur, if_neg (by decide), if_pos (by decide)]
    rfl
  case high.high =>
    refine Or.inl ⟨rfl, ?_⟩
    rw [splx, hcur, if_neg (by decide), if_neg (by decide)]

omit [DecidableEq ι] [DecidableEq κ] in
theorem Inv.count_nonneg (h : Inv mycpu s) : 0 ≤ s.tIplhighCount := by
  have hlevel := s.tCurspl.value_nonneg
  rw [h.count]
  omega

omit [DecidableEq ι] [DecidableEq κ] in
/-- Once raised, interrupts are off. -/
theorem Inv.irq_raised (h : Inv mycpu s) :
    s.raised.irq = true ↔ s.raised.tIplhighCount = 0 := by
  have hcount := h.count_nonneg
  change (if s.tIplhighCount = 0 then false else s.irq) = true ↔ s.tIplhighCount + 1 = 0
  rw [if_congr h.irq.symm rfl rfl]
  constructor
  · cases s.irq <;> nofun
  · omega

omit [DecidableEq ι] [DecidableEq κ] in
/-- The last to lower turns them on. -/
theorem Inv.irq_lowered (h : Inv mycpu s) (hpos : 0 < s.tIplhighCount) :
    s.lowered.irq = true ↔ s.lowered.tIplhighCount = 0 := by
  have hirq : s.irq = false := by
    rw [← Bool.not_eq_true, h.irq]
    omega
  change (if s.tIplhighCount - 1 = 0 then true else s.irq) = true ↔ s.tIplhighCount - 1 = 0
  rw [hirq]
  simp

omit [DecidableEq ι] [DecidableEq κ] in
/-- `splx` returns, whatever the level. -/
theorem inv_splx (h : Inv mycpu s) (spl : Ipl) :
    ∃ t, Prod.fst <$> splx s spl = .ok t ∧ Inv mycpu t := by
  have hcount := h.count
  rcases splx_cases s spl with ⟨-, hrun⟩ | ⟨hcur, -, hrun⟩ | ⟨hcur, -, hrun⟩
  · exact ⟨s, by rw [hrun]; rfl, h⟩
  · refine ⟨{ s.raised with tCurspl := .high }, by rw [hrun]; rfl, ?_, h.finite, h.spinlocks,
      h.irq_raised, h.free, h.trap⟩
    rw [hcur] at hcount
    change s.tIplhighCount + 1 = 1 + s.cSpinlocks
    rw [hcount, Ipl.value]
    omega
  · have hpos : 0 < s.tIplhighCount := by
      rw [hcount, hcur, Ipl.value]
      omega
    refine ⟨{ s.lowered with tCurspl := .none }, by rw [hrun]; rfl, ?_, h.finite, h.spinlocks,
      h.irq_lowered hpos, h.free, h.trap⟩
    rw [hcur] at hcount
    change s.tIplhighCount - 1 = 0 + s.cSpinlocks
    rw [hcount, Ipl.value]
    omega

omit [DecidableEq κ] in
theorem setLock_lock (l : Spinlock κ) :
    (s.setLock splk l).lock = Function.update s.lock splk l := rfl

/-- The spinlocks held once one has been given to another holder. -/
theorem held_setLock (l : Spinlock κ) : (s.setLock splk l).held mycpu =
    if l.splkHolder = some mycpu then insert splk (s.held mycpu) else s.held mycpu \ {splk} := by
  ext x
  by_cases hx : x = splk
  · subst hx
    simp only [State.held, State.setLock, Set.mem_ofPred_eq, Function.update_self]
    split <;> simp_all
  · simp only [State.held, State.setLock, Set.mem_ofPred_eq, Function.update_of_ne hx]
    split <;> simp [hx]

omit [DecidableEq κ] in
/-- A spinlock that is free after an assignment has no holder. -/
theorem Inv.free_setLock (h : Inv mycpu s) {l : Spinlock κ}
    (hl : l.splkLock = false → l.splkHolder = none) {x : ι}
    (hx : ((s.setLock splk l).lock x).splkLock = false) :
    ((s.setLock splk l).lock x).splkHolder = none := by
  by_cases hne : x = splk
  · subst hne
    rw [setLock_lock, Function.update_self] at hx ⊢
    exact hl hx
  · rw [setLock_lock, Function.update_of_ne hne] at hx ⊢
    exact h.free x hx

theorem inv_acquire (h : Inv mycpu s) (hfree : (s.lock splk).splkLock = false) :
    ∃ t, spinlockAcquire mycpu s splk = .ok t ∧ Inv mycpu t := by
  have hnew : splk ∉ s.held mycpu := by
    change (s.lock splk).splkHolder ≠ some mycpu
    rw [h.free splk hfree]
    nofun
  have hset : (s.setLock splk ⟨true, some mycpu⟩).held mycpu = insert splk (s.held mycpu) := by
    rw [held_setLock, if_pos rfl]
  have hcount := h.count
  refine ⟨{ s.raised with cSpinlocks := s.cSpinlocks + 1 }.setLock splk ⟨true, some mycpu⟩,
    ?_, ?_, ?_, ?_, h.irq_raised, fun x hx => h.free_setLock Bool.noConfusion hx, h.trap⟩
  · rw [spinlockAcquire, splraise_eq]
    exact if_neg hnew
  · change s.tIplhighCount + 1 = s.tCurspl.value + (s.cSpinlocks + 1 : ℕ)
    omega
  · exact hset ▸ h.finite.insert splk
  · have hcard := (Set.ncard_insert_of_notMem hnew h.finite).trans (congrArg (· + 1) h.spinlocks)
    exact hset ▸ hcard

theorem inv_release (h : Inv mycpu s) (hheld : (s.lock splk).splkHolder = some mycpu) :
    ∃ t, spinlockRelease mycpu s splk = .ok t ∧ Inv mycpu t := by
  have hmem : splk ∈ s.held mycpu := hheld
  have hpos : 0 < s.cSpinlocks := by
    rw [← h.spinlocks]
    exact (Set.ncard_pos h.finite).mpr ⟨splk, hmem⟩
  have hset : (s.setLock splk ⟨false, none⟩).held mycpu = s.held mycpu \ {splk} := by
    rw [held_setLock, if_neg nofun]
  have hcount := h.count
  have hlevel := s.tCurspl.value_nonneg
  refine ⟨{ s.lowered with cSpinlocks := s.cSpinlocks - 1 }.setLock splk ⟨false, none⟩, ?_, ?_, ?_,
    ?_, h.irq_lowered (by omega), fun x hx => h.free_setLock (fun _ => rfl) hx, h.trap⟩
  · rw [spinlockRelease, if_neg (not_not.mpr hheld), if_neg hpos.ne']
    rfl
  · change s.tIplhighCount - 1 = s.tCurspl.value + (s.cSpinlocks - 1 : ℕ)
    omega
  · exact hset ▸ h.finite.sdiff
  · have hcard := (Set.ncard_sdiff_singleton_of_mem hmem).trans (congrArg (· - 1) h.spinlocks)
    exact hset ▸ hcard

/-- Another CPU has changed a spinlock that is not the thread's. -/
theorem inv_other (h : Inv mycpu s) {l : Spinlock κ}
    (hold : (s.lock splk).splkHolder ≠ some mycpu) (hnew : l.splkHolder ≠ some mycpu)
    (hl : l.splkLock = false → l.splkHolder = none) : Inv mycpu (s.setLock splk l) := by
  have hset : (s.setLock splk l).held mycpu = s.held mycpu := by
    rw [held_setLock, if_neg hnew]
    exact Set.sdiff_singleton_eq_self hold
  refine ⟨h.count, ?_, ?_, h.irq, fun x hx => h.free_setLock hl hx, h.trap⟩
  · exact hset ▸ h.finite
  · exact hset ▸ h.spinlocks

end Calls

/-- Every call returns, and keeps the account. -/
theorem inv_step {mycpu : κ} {s s' : State ι κ} {a : Action ι κ} (h : Inv mycpu s)
    (hstep : step mycpu s a = some s') : Inv mycpu s' := by
  cases a with
  | splx spl =>
    obtain ⟨t, hrun, ht⟩ := inv_splx h spl
    rw [step, if_pos h.trap, hrun] at hstep
    obtain rfl := Option.some.inj hstep
    exact ht
  | splhigh =>
    obtain ⟨t, hrun, ht⟩ := inv_splx h .high
    rw [step, if_pos h.trap, splhigh, hrun] at hstep
    obtain rfl := Option.some.inj hstep
    exact ht
  | spl0 =>
    obtain ⟨t, hrun, ht⟩ := inv_splx h .none
    rw [step, if_pos h.trap, spl0, hrun] at hstep
    obtain rfl := Option.some.inj hstep
    exact ht
  | acquire splk =>
    rw [step] at hstep
    split at hstep
    case isFalse => cases hstep
    case isTrue hfree =>
      obtain ⟨t, hrun, ht⟩ := inv_acquire h hfree.2
      rw [hrun] at hstep
      obtain rfl := Option.some.inj hstep
      exact ht
  | release splk =>
    rw [step] at hstep
    split at hstep
    case isFalse => cases hstep
    case isTrue hheld =>
      obtain ⟨t, hrun, ht⟩ := inv_release h hheld.2
      rw [hrun] at hstep
      obtain rfl := Option.some.inj hstep
      exact ht
  | take cpu splk =>
    rw [step] at hstep
    split at hstep
    case isFalse => cases hstep
    case isTrue hc =>
      obtain rfl := Option.some.inj hstep
      refine inv_other h ?_ (fun heq => hc.1 (Option.some.inj heq)) nofun
      rw [h.free splk hc.2]
      nofun
  | drop cpu splk =>
    rw [step] at hstep
    split at hstep
    case isFalse => cases hstep
    case isTrue hc =>
      obtain rfl := Option.some.inj hstep
      refine inv_other h ?_ nofun fun _ => rfl
      rw [hc.2]
      exact fun heq => hc.1 (Option.some.inj heq)

theorem inv_of_reachable {mycpu : κ} {s : State ι κ} (h : (system ι mycpu).Reachable s) :
    Inv mycpu s := by
  refine h.invariant (P := Inv mycpu) (fun s hs => ?_) fun s a s' hs hstep => inv_step hs hstep
  obtain ⟨hcur, hcount, hspin, hirq, htrap, hlocks⟩ := hs
  have hheld : s.held mycpu = ∅ := Set.eq_empty_of_forall_notMem fun l => (hlocks l).1
  refine ⟨?_, ?_, ?_, ?_, fun l => (hlocks l).2, htrap⟩
  · rw [hcount, hcur, hspin]
    rfl
  · rw [hheld]
    exact Set.finite_empty
  · rw [hheld, hspin]
    exact Set.ncard_empty ι
  · rw [hirq, hcount]
    exact iff_of_true rfl rfl

/-- **The account of interrupt levels.** After any calls, `t_iplhigh_count` is the number of
spinlocks the thread holds, and one more at `IPL_HIGH`; `c_spinlocks` is the number of spinlocks.
Interrupts are on exactly when the count is zero, it never goes below, and no call has failed an
assertion. -/
theorem iplhigh_accounting {mycpu : κ} {s : State ι κ} (h : (system ι mycpu).Reachable s) :
    s.tIplhighCount = (if s.tCurspl = .high then 1 else 0) + ((s.held mycpu).ncard : ℤ) ∧
    (s.held mycpu).Finite ∧ s.cSpinlocks = (s.held mycpu).ncard ∧
    (s.irq = true ↔ s.tIplhighCount = 0) ∧ 0 ≤ s.tIplhighCount ∧ s.trap = none := by
  have hinv := inv_of_reachable h
  refine ⟨?_, hinv.finite, hinv.spinlocks.symm, hinv.irq, hinv.count_nonneg, hinv.trap⟩
  rw [hinv.count, hinv.spinlocks]
  cases s.tCurspl <;> rfl

/-- No spinlock is taken and interrupts are on. -/
def quiet : State Bool Unit where
  tCurspl := .none
  tIplhighCount := 0
  cSpinlocks := 0
  irq := true
  lock := fun _ => ⟨false, none⟩
  trap := none

/-- The example in `spl.c`, with `true` for the red spinlock and `false` for the blue one, up to
`splx(s)`. -/
def redAndBlue : List (Action Bool Unit) :=
  [.acquire true, .splhigh, .acquire false, .splx .none]

theorem iplhigh_accounting_redAndBlue : ∃ s, redAndBlue.foldlM (step ()) quiet = some s ∧
    s.tCurspl = .none ∧
    s.tIplhighCount = (if s.tCurspl = .high then 1 else 0) + ((s.held ()).ncard : ℤ) := by
  have hrun : ((redAndBlue.foldlM (step ()) quiet).map fun s => s.tCurspl) = some .none := by
    decide
  obtain ⟨s, hs, hcur⟩ := Option.map_eq_some_iff.mp hrun
  have hreach : (system Bool ()).Reachable s :=
    TransitionSystem.reachable_of_run redAndBlue
      (.init ⟨rfl, rfl, rfl, rfl, rfl, fun _ => ⟨Option.some_ne_none () ∘ Eq.symm, fun _ => rfl⟩⟩)
      hs
  exact ⟨s, hs, hcur, (iplhigh_accounting hreach).1⟩

end Spl

end Os161
