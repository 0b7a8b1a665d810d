import Os161.Lib.Transition
import Mathlib.Logic.Function.Basic

/-!
# Interprocessor interrupts

`ipi_send`, `ipi_tlbshootdown` and `interprocessor_interrupt` in `kern/thread/thread.c`, with those
who use them: `thread_make_runnable` and `thread_consider_migration` wake a processor that is idle,
and the loop of `thread_switch` goes to sleep in `cpu_idle` while there is nothing to run.

`mainbus_interrupt` clears the line of the interrupt after `interprocessor_interrupt` has let go of
`c_ipi_lock`. An interrupt that is sent in between is pending with its line low, and is taken care
of with the next one only. Nothing that waits for the processor to wake up is lost this way, since
an idle processor looks at its run queue again when it comes back from the interrupt.

## Granularity

One step is what is done under `c_ipi_lock`, or under a run queue lock where no interrupt is sent
under it. `ipi_send` under the run queue lock of the target is a step of its own, with the lock
held. A processor takes no interrupt while it holds a spinlock, or in an interrupt.

A processor waits in `wait` until an interrupt is trying to occur; devices and the timer may be the
ones that interrupt at any time. What `vm_tlbshootdown` does is up to the VM system, `dumbvm` has no
use for it.

## Main results

* `Ipi.unidle_protocol` — no processor sleeps while there is something for it to run
* `Ipi.shootdown_protocol` — every shootdown is handled once, in order, and which interrupts wait
  without their line
-/

namespace Os161

namespace Ipi

/-- `IPI_PANIC`. -/
def Code.panic : UInt32 := 0

/-- `IPI_OFFLINE`. -/
def Code.offline : UInt32 := 1

/-- `IPI_UNIDLE`. -/
def Code.unidle : UInt32 := 2

/-- `IPI_TLBSHOOTDOWN`. -/
def Code.tlbshootdown : UInt32 := 3

/-- `TLBSHOOTDOWN_MAX`. -/
def tlbshootdownMax : ℕ := 16

/-- The bit of a code in `c_ipi_pending`. -/
def bitOf (code : UInt32) : UInt32 := 1 <<< code

/-- What a processor does when no interrupt is in the way. -/
inductive Ctx where
  /-- A thread runs. -/
  | thread
  /-- `cpu_irqonoff`, in the loop of `thread_switch`. -/
  | idle
  deriving DecidableEq

/-- Where a processor is. -/
inductive Pc (C : Type*) where
  /-- Interrupts are on. -/
  | on (ctx : Ctx)
  /-- `cpu_idle`, at `wait`. -/
  | wait
  /-- At `ipi_send`, with the run queue lock of the target. -/
  | post (target : C) (ctx : Ctx)
  /-- `mainbus_interrupt`, at `lamebus_clear_ipi`. -/
  | clear (ctx : Ctx)
  /-- `cpu_halt`. -/
  | halt
  deriving DecidableEq

/-- `struct cpu`, as far as it goes here. -/
structure Cpu (C T M : Type*) where
  /-- `c_runqueue`. -/
  runqueue : List T
  /-- `c_runqueue_lock` is held across a step. -/
  locked : Bool
  /-- `c_isidle`. -/
  isidle : Bool
  /-- `c_ipi_pending`. -/
  pending : UInt32
  /-- The first `c_numshootdown` entries of `c_shootdown`. -/
  shootdown : List M
  /-- The line of the interprocessor interrupt. -/
  line : Bool
  pc : Pc C
  /-- The shootdowns that were sent here. -/
  sent : List M
  /-- The shootdowns that were handled. -/
  handled : List M
  /-- The bits that were sent between the last `interprocessor_interrupt` and its
  `lamebus_clear_ipi`. -/
  late : UInt32

variable {C T M : Type*}

/-- The processors. -/
abbrev State (C T M : Type*) := C → Cpu C T M

/-- What can happen next. -/
inductive Action (C T M : Type*) where
  /-- `thread_make_runnable` or `thread_consider_migration` on `c` puts a thread on the run queue
  of `d`. -/
  | makeRunnable (c d : C) (t : T)
  /-- The processor `c` sends the interrupt it was about to send. -/
  | post (c : C)
  /-- `thread_consider_migration` takes a thread off the run queue. -/
  | take (c : C)
  /-- `thread_switch`, with the thread that is switched away from if it stays runnable. -/
  | switch (c : C) (cur : Option T)
  /-- An interrupt is trying to occur. -/
  | wake (c : C)
  /-- The loop of `thread_switch` comes round. -/
  | recheck (c : C)
  /-- `interprocessor_interrupt`. -/
  | interrupt (c : C)
  /-- `lamebus_clear_ipi`. -/
  | clear (c : C)
  /-- `ipi_send` elsewhere, as in `ipi_broadcast`. -/
  | ipiSend (c d : C) (code : UInt32)
  /-- `ipi_tlbshootdown`. -/
  | ipiTlbshootdown (c d : C) (mapping : M)

namespace Cpu

/-- Move to `p`. -/
def goto (x : Cpu C T M) (p : Pc C) : Cpu C T M := { x with pc := p }

/-- `threadlist_addtail` on the run queue. -/
def addtail (x : Cpu C T M) (t : T) : Cpu C T M := { x with runqueue := x.runqueue ++ [t] }

/-- `ipi_send` to the processor `x`. -/
def ipiSend (x : Cpu C T M) (code : UInt32) : Cpu C T M :=
  { x with
    pending := x.pending ||| bitOf code
    line := true
    late := match x.pc with
      | .clear _ => x.late ||| bitOf code
      | _ => x.late }

/-- `ipi_tlbshootdown` to the processor `x`, where there is room. -/
def ipiTlbshootdown (x : Cpu C T M) (mapping : M) : Cpu C T M :=
  { x with shootdown := x.shootdown ++ [mapping], sent := x.sent ++ [mapping] }.ipiSend
    Code.tlbshootdown

/-- The loop of `thread_switch`, up to `cpu_idle`. -/
def next (x : Cpu C T M) : Cpu C T M :=
  match x.runqueue with
  | [] => { x with isidle := true, pc := .wait }
  | _ :: q => { x with runqueue := q, isidle := false, pc := .on .thread }

/-- `interprocessor_interrupt`. -/
def interprocessorInterrupt (x : Cpu C T M) (ctx : Ctx) : Cpu C T M :=
  let bits := x.pending
  if bits &&& bitOf Code.panic ≠ 0 then x.goto .halt
  else if bits &&& bitOf Code.offline ≠ 0 then x.goto .halt
  else
    let x := if bits &&& bitOf Code.tlbshootdown ≠ 0 then
      { x with handled := x.handled ++ x.shootdown, shootdown := [] } else x
    { x with pending := 0, late := 0, pc := .clear ctx }

/-- `lamebus_clear_ipi`, and back. -/
def clearIpi (x : Cpu C T M) (ctx : Ctx) : Cpu C T M := { x with line := false, pc := .on ctx }

end Cpu

section Step

variable [DecidableEq C]

/-- The processor `c` changes. -/
def State.set (s : State C T M) (c : C) (f : Cpu C T M → Cpu C T M) : State C T M :=
  Function.update s c (f (s c))

/-- One step of the system. -/
def step (s : State C T M) : Action C T M → Option (State C T M)
  | .makeRunnable c d t =>
      match (s c).pc with
      | .on ctx =>
          if (s d).locked then none
          else if (s d).isidle ∧ d ≠ c then
            some ((s.set d fun x => { x.addtail t with locked := true }).set c
              fun x => x.goto (.post d ctx))
          else some (s.set d fun x => x.addtail t)
      | _ => none
  | .post c =>
      match (s c).pc with
      | .post d ctx =>
          some ((s.set d fun x => { x.ipiSend Code.unidle with locked := false }).set c
            fun x => x.goto (.on ctx))
      | _ => none
  | .take c =>
      match (s c).pc with
      | .on _ =>
          if (s c).locked then none
          else some (s.set c fun x => { x with runqueue := x.runqueue.dropLast })
      | _ => none
  | .switch c cur =>
      match (s c).pc with
      | .on .thread =>
          if (s c).locked then none
          else if cur.isSome ∧ (s c).runqueue = [] then some s
          else some (s.set c fun x => { x with runqueue := x.runqueue ++ cur.toList }.next)
      | _ => none
  | .wake c => if (s c).pc = .wait then some (s.set c fun x => x.goto (.on .idle)) else none
  | .recheck c =>
      if (s c).pc = .on .idle ∧ (s c).locked = false then some (s.set c Cpu.next) else none
  | .interrupt c =>
      match (s c).pc with
      | .on ctx =>
          if (s c).line then some (s.set c fun x => x.interprocessorInterrupt ctx) else none
      | _ => none
  | .clear c =>
      match (s c).pc with
      | .clear ctx => some (s.set c fun x => x.clearIpi ctx)
      | _ => none
  | .ipiSend c d code =>
      match (s c).pc with
      | .on _ => if code < 32 then some (s.set d fun x => x.ipiSend code) else none
      | _ => none
  | .ipiTlbshootdown c d mapping =>
      match (s c).pc with
      | .on _ =>
          -- one more is a panic
          if (s d).shootdown.length = tlbshootdownMax then none
          else some (s.set d fun x => x.ipiTlbshootdown mapping)
      | _ => none

end Step

/-- A processor after `cpu_create`, running its first thread. -/
def Cpu.init : Cpu C T M where
  runqueue := []
  locked := false
  isidle := false
  pending := 0
  shootdown := []
  line := false
  pc := .on .thread
  sent := []
  handled := []
  late := 0

/-- Any number of processors. -/
def system (C T M : Type*) [DecidableEq C] : TransitionSystem (State C T M) (Action C T M) where
  init s := s = fun _ => Cpu.init
  step := step

/-! ### One processor -/

/-- What `c_isidle` says. -/
def Pc.Idle : Pc C → Bool → Prop
  | .on ctx, b | .post _ ctx, b | .clear ctx, b => b = true ↔ ctx = .idle
  | .wait, b => b = true
  | .halt, _ => True

/-- The invariant of one processor. -/
structure Cpu.Ok (x : Cpu C T M) : Prop where
  idle : x.pc.Idle x.isidle
  asleep : x.pc = .wait → x.runqueue ≠ [] → x.line = true ∨ x.locked = true
  late : x.line = false ∨ (∃ ctx, x.pc = .clear ctx) → x.pending = x.late
  order : x.handled ++ x.shootdown = x.sent
  room : x.shootdown.length ≤ tlbshootdownMax
  bit : x.shootdown ≠ [] → x.pending &&& bitOf Code.tlbshootdown ≠ 0

section Cpu

variable {x : Cpu C T M} {ctx : Ctx}

theorem or_and_ne_zero {a b c : UInt32} (h : a &&& c ≠ 0) : (a ||| b) &&& c ≠ 0 := by
  rw [UInt32.and_comm, ne_eq, ← UInt32.toBitVec_inj] at h ⊢
  intro h'
  refine h ?_
  ext i hi
  have := congrArg (fun v => v.getLsbD i) h'
  simp at this ⊢
  grind

theorem Cpu.Ok.init : Cpu.Ok (Cpu.init : Cpu C T M) where
  idle := by simp [Cpu.init, Pc.Idle]
  asleep h := by cases h
  late _ := rfl
  order := rfl
  room := Nat.zero_le _
  bit h := absurd rfl h

theorem Cpu.Ok.goto (h : x.Ok) {p : Pc C} (hp : p.Idle x.isidle) (hwait : p ≠ .wait)
    (hclear : ∀ ctx, p ≠ .clear ctx) : (x.goto p).Ok where
  idle := hp
  asleep h' := absurd h' hwait
  late h' := h.late (Or.inl (h'.resolve_right fun ⟨ctx, hc⟩ => hclear ctx hc))
  order := h.order
  room := h.room
  bit := h.bit

theorem Cpu.Ok.addtail (h : x.Ok) (t : T) (hwait : x.pc ≠ .wait) : (x.addtail t).Ok :=
  ⟨h.idle, fun h' => absurd h' hwait, h.late, h.order, h.room, h.bit⟩

/-- A thread for a processor that will be told. -/
theorem Cpu.Ok.addtail_locked (h : x.Ok) (t : T) : Cpu.Ok { x.addtail t with locked := true } :=
  ⟨h.idle, fun _ _ => Or.inr rfl, h.late, h.order, h.room, h.bit⟩

theorem Cpu.Ok.ipiSend (h : x.Ok) (code : UInt32) : (x.ipiSend code).Ok where
  idle := h.idle
  asleep _ _ := Or.inl rfl
  late h' := by
    obtain ⟨ctx, hctx⟩ := h'.resolve_left fun hline => by cases hline
    change x.pc = .clear ctx at hctx
    change x.pending ||| bitOf code = _
    rw [h.late (Or.inr ⟨ctx, hctx⟩), Cpu.ipiSend, hctx]
  order := h.order
  room := h.room
  bit h' := or_and_ne_zero (h.bit h')

/-- The interrupt has been sent, and the run queue lock is let go. -/
theorem Cpu.Ok.ipiSend_unlocked (h : x.Ok) (code : UInt32) :
    Cpu.Ok { x.ipiSend code with locked := false } :=
  ⟨h.idle, fun _ _ => Or.inl rfl, (h.ipiSend code).late, h.order, h.room, (h.ipiSend code).bit⟩

theorem Cpu.Ok.ipiTlbshootdown (h : x.Ok) (mapping : M)
    (hroom : x.shootdown.length ≠ tlbshootdownMax) : (x.ipiTlbshootdown mapping).Ok where
  idle := h.idle
  asleep _ _ := Or.inl rfl
  late h' := (h.ipiSend Code.tlbshootdown).late h'
  order := by
    change x.handled ++ (x.shootdown ++ [mapping]) = x.sent ++ [mapping]
    rw [← List.append_assoc, h.order]
  room := by
    change (x.shootdown ++ [mapping]).length ≤ tlbshootdownMax
    have := h.room
    rw [List.length_append, List.length_singleton]
    omega
  bit _ := by
    change (x.pending ||| bitOf Code.tlbshootdown) &&& bitOf Code.tlbshootdown ≠ 0
    rw [UInt32.or_comm]
    exact or_and_ne_zero (by decide)

/-- The loop of `thread_switch`, whatever has been done to the run queue. -/
theorem Cpu.Ok.next (h : x.Ok) (q : List T) : ({ x with runqueue := q } : Cpu C T M).next.Ok := by
  cases q with
  | nil =>
    exact ⟨rfl, fun _ hq => absurd rfl hq,
      fun h' => h.late (Or.inl (h'.resolve_right fun ⟨ctx, hc⟩ => by cases hc)), h.order, h.room,
      h.bit⟩
  | cons t q =>
    refine ⟨?_, fun h' => (by cases h'),
      fun h' => h.late (Or.inl (h'.resolve_right fun ⟨ctx, hc⟩ => by cases hc)), h.order, h.room,
      h.bit⟩
    change false = true ↔ Ctx.thread = Ctx.idle
    decide

theorem Cpu.Ok.take (h : x.Ok) (q : List T) (hwait : x.pc ≠ .wait) :
    Cpu.Ok { x with runqueue := q } :=
  ⟨h.idle, fun h' => absurd h' hwait, h.late, h.order, h.room, h.bit⟩

theorem Cpu.Ok.clearIpi (h : x.Ok) (hpc : x.pc = .clear ctx) : (x.clearIpi ctx).Ok where
  idle := by
    have := h.idle
    rwa [hpc] at this
  asleep h' := by cases h'
  late _ := h.late (Or.inr ⟨ctx, hpc⟩)
  order := h.order
  room := h.room
  bit := h.bit

/-- What `interprocessor_interrupt` has done when it comes back. -/
theorem Cpu.interprocessorInterrupt_cases (x : Cpu C T M) (ctx : Ctx) :
    x.interprocessorInterrupt ctx = x.goto .halt ∨
      x.pending &&& bitOf Code.tlbshootdown ≠ 0 ∧ x.interprocessorInterrupt ctx =
        { x with handled := x.handled ++ x.shootdown, shootdown := [], pending := 0, late := 0
                 pc := .clear ctx } ∨
      x.pending &&& bitOf Code.tlbshootdown = 0 ∧ x.interprocessorInterrupt ctx =
        { x with pending := 0, late := 0, pc := .clear ctx } := by
  rw [interprocessorInterrupt]
  by_cases hpanic : x.pending &&& bitOf Code.panic = 0
  · by_cases hoffline : x.pending &&& bitOf Code.offline = 0
    · by_cases htlb : x.pending &&& bitOf Code.tlbshootdown = 0
      · simp [hpanic, hoffline, htlb]
      · simp [hpanic, hoffline, htlb]
    · simp [hpanic, hoffline]
  · simp [hpanic]

theorem Cpu.Ok.interprocessorInterrupt (h : x.Ok) (hpc : x.pc = .on ctx) :
    (x.interprocessorInterrupt ctx).Ok := by
  have hidle : (Pc.clear ctx : Pc C).Idle x.isidle := by
    have := h.idle
    rwa [hpc] at this
  rcases x.interprocessorInterrupt_cases ctx with heq | ⟨-, heq⟩ | ⟨hbit, heq⟩
  · rw [heq]
    exact h.goto trivial (fun h' => by cases h') fun _ h' => by cases h'
  · rw [heq]
    refine ⟨hidle, fun h' => (by cases h'), fun _ => rfl, ?_, Nat.zero_le _,
      fun h' => absurd rfl h'⟩
    rw [List.append_nil, h.order]
  · rw [heq]
    exact ⟨hidle, fun h' => (by cases h'), fun _ => rfl, h.order, h.room,
      fun h' => absurd hbit (h.bit h')⟩

end Cpu

/-! ### The processors together -/

/-- A run queue lock is held where an interrupt is about to be sent. -/
structure Posts (s : State C T M) : Prop where
  lock : ∀ c, (s c).locked = true ↔ ∃ d ctx, (s d).pc = .post c ctx
  one : ∀ c d d' ctx ctx', (s d).pc = .post c ctx → (s d').pc = .post c ctx' → d = d'
  other : ∀ c d ctx, (s d).pc = .post c ctx → d ≠ c

/-- The invariant. -/
structure Inv (s : State C T M) : Prop where
  ok : ∀ c, (s c).Ok
  posts : Posts s

section System

variable {s s' : State C T M} {c d : C} {ctx : Ctx}

theorem Posts.congr (h : Posts s) (hlock : ∀ c, (s' c).locked = (s c).locked)
    (hpost : ∀ d e ctx, (s' d).pc = .post e ctx ↔ (s d).pc = .post e ctx) : Posts s' where
  lock c := by
    rw [hlock, h.lock]
    simp only [hpost]
  one c d d' ctx ctx' hd hd' := h.one c d d' ctx ctx' ((hpost _ _ _).mp hd) ((hpost _ _ _).mp hd')
  other c d ctx hd := h.other c d ctx ((hpost _ _ _).mp hd)

theorem not_post_of_on (hpc : (s c).pc = .on ctx) (e : C) (ctx' : Ctx) :
    (s c).pc ≠ .post e ctx' := fun h => by
  rw [hpc] at h
  cases h

theorem Cpu.next_pc (x : Cpu C T M) :
    x.next.locked = x.locked ∧ (x.next.pc = .wait ∨ x.next.pc = .on .thread) := by
  rw [Cpu.next]
  split
  · exact ⟨rfl, Or.inl rfl⟩
  · exact ⟨rfl, Or.inr rfl⟩

variable [DecidableEq C]

theorem State.set_self (s : State C T M) (c : C) (f : Cpu C T M → Cpu C T M) :
    s.set c f c = f (s c) := Function.update_self _ _ _

theorem State.set_of_ne (s : State C T M) (f : Cpu C T M → Cpu C T M) (h : d ≠ c) :
    s.set c f d = s d := Function.update_of_ne h _ _

/-- One processor changes, and neither sends an interrupt under a lock before nor after. -/
theorem Inv.set (h : Inv s) {f : Cpu C T M → Cpu C T M} (hok : (f (s c)).Ok)
    (hlock : (f (s c)).locked = (s c).locked)
    (hpost : ∀ e ctx, (f (s c)).pc = .post e ctx ↔ (s c).pc = .post e ctx) : Inv (s.set c f) := by
  refine ⟨fun d => ?_, h.posts.congr (fun d => ?_) fun d e ctx => ?_⟩
  · by_cases hd : d = c
    · rw [hd, s.set_self]
      exact hok
    · rw [s.set_of_ne f hd]
      exact h.ok d
  · by_cases hd : d = c
    · rw [hd, s.set_self]
      exact hlock
    · rw [s.set_of_ne f hd]
  · by_cases hd : d = c
    · rw [hd, s.set_self]
      exact hpost e ctx
    · rw [s.set_of_ne f hd]

/-- A thread is on the run queue of an idle processor, which is to be told. -/
theorem Inv.begin (h : Inv s) (hpc : (s c).pc = .on ctx) (hfree : (s d).locked = false)
    (hne : d ≠ c) (t : T) : Inv ((s.set d fun x => { x.addtail t with locked := true }).set c
      fun x => x.goto (.post d ctx)) := by
  generalize hs' : (s.set d fun x => { x.addtail t with locked := true }).set c
    (fun x => x.goto (.post d ctx)) = s'
  have hc : s' c = (s c).goto (.post d ctx) := by
    rw [← hs', State.set_self, State.set_of_ne _ _ (Ne.symm hne)]
  have hd : s' d = { (s d).addtail t with locked := true } := by
    rw [← hs', State.set_of_ne _ _ hne, State.set_self]
  have hother {e : C} (hec : e ≠ c) (hed : e ≠ d) : s' e = s e := by
    rw [← hs', State.set_of_ne _ _ hec, State.set_of_ne _ _ hed]
  have hpost (e e' : C) (ctx' : Ctx) :
      (s' e).pc = .post e' ctx' ↔ (s e).pc = .post e' ctx' ∨ e = c ∧ e' = d ∧ ctx' = ctx := by
    by_cases hec : e = c
    · subst hec
      rw [hc, hpc]
      simp [Cpu.goto, eq_comm]
    · by_cases hed : e = d
      · subst hed
        rw [hd]
        simp [Cpu.addtail, hec]
      · rw [hother hec hed]
        simp [hec]
  have hnone (e : C) (ctx' : Ctx) : (s e).pc ≠ .post d ctx' := fun he => by
    rw [(h.posts.lock d).mpr ⟨e, ctx', he⟩] at hfree
    cases hfree
  refine ⟨fun e => ?_, ⟨fun e => ?_, fun e a b ctx₁ ctx₂ ha hb => ?_, fun e a ctx₁ ha => ?_⟩⟩
  · by_cases hec : e = c
    · subst hec
      have hidle := (h.ok e).idle
      rw [hpc] at hidle
      rw [hc]
      exact (h.ok e).goto hidle (fun h' => by cases h') fun _ h' => by cases h'
    · by_cases hed : e = d
      · subst hed
        rw [hd]
        exact (h.ok e).addtail_locked t
      · rw [hother hec hed]
        exact h.ok e
  · simp only [hpost]
    by_cases hed : e = d
    · subst hed
      rw [hd]
      exact iff_of_true rfl ⟨c, ctx, Or.inr ⟨rfl, rfl, rfl⟩⟩
    · have hlock : (s' e).locked = (s e).locked := by
        by_cases hec : e = c
        · rw [hec, hc]
          rfl
        · rw [hother hec hed]
      rw [hlock, h.posts.lock]
      simp [hed]
  · rcases (hpost _ _ _).mp ha with ha | ⟨rfl, rfl, -⟩
    · rcases (hpost _ _ _).mp hb with hb | ⟨-, rfl, -⟩
      · exact h.posts.one e a b ctx₁ ctx₂ ha hb
      · exact absurd ha (hnone a ctx₁)
    · rcases (hpost _ _ _).mp hb with hb | ⟨rfl, -, -⟩
      · exact absurd hb (hnone b ctx₂)
      · rfl
  · rcases (hpost _ _ _).mp ha with ha | ⟨rfl, rfl, -⟩
    · exact h.posts.other e a ctx₁ ha
    · exact Ne.symm hne

/-- The interrupt is sent. -/
theorem Inv.finish (h : Inv s) (hpc : (s c).pc = .post d ctx) :
    Inv ((s.set d fun x => { x.ipiSend Code.unidle with locked := false }).set c
      fun x => x.goto (.on ctx)) := by
  have hne : c ≠ d := h.posts.other d c ctx hpc
  generalize hs' : (s.set d fun x => { x.ipiSend Code.unidle with locked := false }).set c
    (fun x => x.goto (.on ctx)) = s'
  have hc : s' c = (s c).goto (.on ctx) := by
    rw [← hs', State.set_self, State.set_of_ne _ _ hne]
  have hd : s' d = { (s d).ipiSend Code.unidle with locked := false } := by
    rw [← hs', State.set_of_ne _ _ (Ne.symm hne), State.set_self]
  have hother {e : C} (hec : e ≠ c) (hed : e ≠ d) : s' e = s e := by
    rw [← hs', State.set_of_ne _ _ hec, State.set_of_ne _ _ hed]
  have hpost (e e' : C) (ctx' : Ctx) :
      (s' e).pc = .post e' ctx' ↔ (s e).pc = .post e' ctx' ∧ e ≠ c := by
    by_cases hec : e = c
    · subst hec
      rw [hc]
      simp [Cpu.goto]
    · by_cases hed : e = d
      · subst hed
        rw [hd]
        simp [Cpu.ipiSend, hec]
      · rw [hother hec hed]
        simp [hec]
  refine ⟨fun e => ?_, ⟨fun e => ?_, fun e a b ctx₁ ctx₂ ha hb => ?_, fun e a ctx₁ ha => ?_⟩⟩
  · by_cases hec : e = c
    · subst hec
      have hidle := (h.ok e).idle
      rw [hpc] at hidle
      rw [hc]
      exact (h.ok e).goto hidle (fun h' => by cases h') fun _ h' => by cases h'
    · by_cases hed : e = d
      · subst hed
        rw [hd]
        exact (h.ok e).ipiSend_unlocked _
      · rw [hother hec hed]
        exact h.ok e
  · simp only [hpost]
    by_cases hed : e = d
    · subst hed
      rw [hd]
      refine iff_of_false (fun h' => by cases h') ?_
      rintro ⟨a, ctx', ha, hac⟩
      exact hac (h.posts.one e a c ctx' ctx ha hpc)
    · have hlock : (s' e).locked = (s e).locked := by
        by_cases hec : e = c
        · rw [hec, hc]
          rfl
        · rw [hother hec hed]
      rw [hlock, h.posts.lock]
      refine ⟨?_, fun ⟨a, ctx', ha, _⟩ => ⟨a, ctx', ha⟩⟩
      rintro ⟨a, ctx', ha⟩
      refine ⟨a, ctx', ha, fun hac => hed ?_⟩
      rw [hac, hpc] at ha
      cases ha
      rfl
  · exact h.posts.one e a b ctx₁ ctx₂ ((hpost _ _ _).mp ha).1 ((hpost _ _ _).mp hb).1
  · exact h.posts.other e a ctx₁ ((hpost _ _ _).mp ha).1

/-- One processor changes that has its interrupts on before, and does not send one after. -/
theorem Inv.set_on (h : Inv s) {f : Cpu C T M → Cpu C T M} (hpc : (s c).pc = .on ctx)
    (hok : (f (s c)).Ok) (hlock : (f (s c)).locked = (s c).locked)
    (hpost : ∀ e ctx, (f (s c)).pc ≠ .post e ctx) : Inv (s.set c f) :=
  h.set hok hlock fun e ctx' => iff_of_false (hpost e ctx') (not_post_of_on hpc e ctx')

theorem Inv.next (h : Inv s) (hpc : (s c).pc = .on ctx) (q : List T) :
    Inv (s.set c fun x => { x with runqueue := q }.next) := by
  obtain ⟨hlock, hnext⟩ := ({ s c with runqueue := q } : Cpu C T M).next_pc
  refine h.set_on hpc ((h.ok c).next q) hlock fun e ctx' he => ?_
  rcases hnext with hnext | hnext <;> cases hnext.symm.trans he

theorem Inv.makeRunnable (h : Inv s) {t : T} (hstep : step s (.makeRunnable c d t) = some s') :
    Inv s' := by
  rw [step] at hstep
  split at hstep
  · next ctx hpc =>
    by_cases hlock : (s d).locked = true
    · rw [if_pos hlock] at hstep
      cases hstep
    rw [if_neg hlock] at hstep
    by_cases hidle : (s d).isidle ∧ d ≠ c
    · rw [if_pos hidle] at hstep
      obtain rfl := Option.some.inj hstep
      exact h.begin hpc (Bool.not_eq_true _ ▸ hlock) hidle.2 t
    · rw [if_neg hidle] at hstep
      obtain rfl := Option.some.inj hstep
      refine h.set ((h.ok d).addtail t fun hwait => hidle ?_) rfl fun _ _ => Iff.rfl
      -- a processor that waits is idle, and another one
      have hd := (h.ok d).idle
      rw [hwait] at hd
      refine ⟨hd, fun heq => ?_⟩
      rw [heq, hpc] at hwait
      cases hwait
  · cases hstep

theorem Inv.interrupt (h : Inv s) (hpc : (s c).pc = .on ctx) :
    Inv (s.set c fun x => x.interprocessorInterrupt ctx) := by
  have hcases := (s c).interprocessorInterrupt_cases ctx
  refine h.set_on hpc ((h.ok c).interprocessorInterrupt hpc) ?_ fun e ctx' he => ?_
  · rcases hcases with heq | ⟨-, heq⟩ | ⟨-, heq⟩
    · rw [heq]
      rfl
    · rw [heq]
    · rw [heq]
  · rcases hcases with heq | ⟨-, heq⟩ | ⟨-, heq⟩ <;> rw [heq] at he <;> cases he

/-- Every step keeps the invariant. -/
theorem inv_step (s : State C T M) (a : Action C T M) (s' : State C T M) (h : Inv s)
    (hstep : step s a = some s') : Inv s' := by
  cases a with
  | makeRunnable c d t => exact h.makeRunnable hstep
  | post c =>
    rw [step] at hstep
    split at hstep
    · next d ctx hpc =>
      obtain rfl := Option.some.inj hstep
      exact h.finish hpc
    · cases hstep
  | take c =>
    rw [step] at hstep
    split at hstep
    · next ctx hpc =>
      split at hstep
      · cases hstep
      · obtain rfl := Option.some.inj hstep
        refine h.set ((h.ok c).take _ fun hwait => ?_) rfl fun _ _ => Iff.rfl
        cases hpc.symm.trans hwait
    · cases hstep
  | switch c cur =>
    rw [step] at hstep
    split at hstep
    · next hpc =>
      split at hstep
      · cases hstep
      · split at hstep
        · obtain rfl := Option.some.inj hstep
          exact h
        · obtain rfl := Option.some.inj hstep
          exact h.next hpc _
    · cases hstep
  | wake c =>
    rw [step] at hstep
    split at hstep
    · next hpc =>
      obtain rfl := Option.some.inj hstep
      have hidle := (h.ok c).idle
      rw [hpc] at hidle
      refine h.set ((h.ok c).goto (iff_of_true hidle rfl) (fun h' => by cases h')
        fun _ h' => by cases h') rfl fun e ctx => ?_
      rw [hpc]
      exact iff_of_false (fun h' => by cases h') fun h' => by cases h'
    · cases hstep
  | recheck c =>
    rw [step] at hstep
    split at hstep
    · next hpc =>
      obtain rfl := Option.some.inj hstep
      exact h.next hpc.1 (s c).runqueue
    · cases hstep
  | interrupt c =>
    rw [step] at hstep
    split at hstep
    · next ctx hpc =>
      split at hstep
      · obtain rfl := Option.some.inj hstep
        exact h.interrupt hpc
      · cases hstep
    · cases hstep
  | clear c =>
    rw [step] at hstep
    split at hstep
    · next ctx hpc =>
      obtain rfl := Option.some.inj hstep
      refine h.set ((h.ok c).clearIpi hpc) rfl fun e ctx' => ?_
      rw [hpc]
      exact iff_of_false (fun h' => by cases h') fun h' => by cases h'
    · cases hstep
  | ipiSend c d code =>
    rw [step] at hstep
    split at hstep
    · split at hstep
      · obtain rfl := Option.some.inj hstep
        exact h.set ((h.ok d).ipiSend code) rfl fun _ _ => Iff.rfl
      · cases hstep
    · cases hstep
  | ipiTlbshootdown c d mapping =>
    rw [step] at hstep
    split at hstep
    · split at hstep
      · cases hstep
      · next hroom =>
        obtain rfl := Option.some.inj hstep
        exact h.set ((h.ok d).ipiTlbshootdown mapping hroom) rfl fun _ _ => Iff.rfl
    · cases hstep

theorem inv_of_reachable (h : (system C T M).Reachable s) : Inv s := by
  refine h.invariant (fun s hs => ?_) inv_step
  obtain rfl : s = fun _ => Cpu.init := hs
  have hpc (c d : C) (ctx : Ctx) : (Cpu.init : Cpu C T M).pc ≠ .post d ctx := fun h' => by cases h'
  refine ⟨fun _ => .init, ⟨fun c => ?_, fun c d _ ctx _ h' => absurd h' (hpc d c ctx),
    fun c d ctx h' => absurd h' (hpc d c ctx)⟩⟩
  refine iff_of_false (fun h' => by cases h') ?_
  rintro ⟨d, ctx, h'⟩
  exact hpc d c ctx h'

/-- **No processor sleeps while there is something for it to run.** Where a processor waits in
`cpu_idle` with a thread on its run queue, its line is up; or just one processor is about to send it
an interrupt, holding the run queue lock, and puts the line up with its next step. -/
theorem unidle_protocol (h : (system C T M).Reachable s) (c : C) (hwait : (s c).pc = .wait)
    (hqueue : (s c).runqueue ≠ []) :
    (s c).line = true ∨ ∃ d ctx, d ≠ c ∧ (s d).pc = .post c ctx ∧
      (∀ d' ctx', (s d').pc = .post c ctx' → d' = d) ∧
      ∃ s', step s (.post d) = some s' ∧ (s' c).line = true ∧ (s' c).pc = .wait := by
  have hinv := inv_of_reachable h
  refine ((hinv.ok c).asleep hwait hqueue).imp id fun hlock => ?_
  obtain ⟨d, ctx, hd⟩ := (hinv.posts.lock c).mp hlock
  have hne := hinv.posts.other c d ctx hd
  refine ⟨d, ctx, hne, hd, fun d' ctx' hd' => hinv.posts.one c d' d ctx' ctx hd' hd, ?_⟩
  refine ⟨_, by rw [step, hd], ?_, ?_⟩
  · rw [State.set_of_ne _ _ (Ne.symm hne), State.set_self]
    rfl
  · rw [State.set_of_ne _ _ (Ne.symm hne), State.set_self]
    exact hwait

/-- The processor `1` goes to sleep, and the processor `0` gives it a thread. -/
def sentToSleep : List (Action (Fin 2) ℕ ℕ) := [.switch 1 none, .makeRunnable 0 1 7]

theorem sentToSleep_runs :
    (sentToSleep.foldlM (system (Fin 2) ℕ ℕ).step fun _ => Cpu.init).isSome := by decide

theorem unidle_protocol_asleep : ∃ s : State (Fin 2) ℕ ℕ, (system (Fin 2) ℕ ℕ).Reachable s ∧
    (s 1).pc = .wait ∧ (s 1).runqueue = [7] ∧
    ((s 1).line = true ∨ ∃ d ctx, d ≠ 1 ∧ (s d).pc = .post 1 ctx ∧
      (∀ d' ctx', (s d').pc = .post 1 ctx' → d' = d) ∧
      ∃ s', step s (.post d) = some s' ∧ (s' 1).line = true ∧ (s' 1).pc = .wait) := by
  have hreach := TransitionSystem.reachable_of_run sentToSleep (.init rfl)
    (Option.some_get sentToSleep_runs).symm
  exact ⟨_, hreach, by decide, by decide, unidle_protocol hreach 1 (by decide) (by decide)⟩

/-- **Shootdowns.** Those that were handled and those that are queued are those that were sent, in
this order, and no more than `TLBSHOOTDOWN_MAX` are queued; an interrupt that is pending while its
line is down was sent between `interprocessor_interrupt` and `lamebus_clear_ipi`; and after an
interrupt that does not halt the processor everything is handled. -/
theorem shootdown_protocol (h : (system C T M).Reachable s) (c : C) :
    (s c).handled ++ (s c).shootdown = (s c).sent ∧
      (s c).shootdown.length ≤ tlbshootdownMax ∧
      ((s c).line = false → (s c).pending = (s c).late) ∧
      ∀ s', step s (.interrupt c) = some s' → (s' c).pc ≠ .halt →
        (s' c).handled = (s c).sent ∧ (s' c).pending = 0 := by
  have hok := (inv_of_reachable h).ok c
  refine ⟨hok.order, hok.room, fun hline => hok.late (Or.inl hline), fun s' hstep hhalt => ?_⟩
  rw [step] at hstep
  split at hstep
  · next ctx hpc =>
    split at hstep
    · obtain rfl := Option.some.inj hstep
      rw [State.set_self] at hhalt ⊢
      rcases (s c).interprocessorInterrupt_cases ctx with heq | ⟨-, heq⟩ | ⟨hbit, heq⟩
      · rw [heq] at hhalt
        exact absurd rfl hhalt
      · rw [heq]
        exact ⟨hok.order, rfl⟩
      · rw [heq]
        -- without its bit the queue is empty
        have hnil : (s c).shootdown = [] := by
          by_contra hne
          exact hok.bit hne hbit
        refine ⟨?_, rfl⟩
        rw [← hok.order, hnil, List.append_nil]
    · cases hstep
  · cases hstep

/-- A shootdown comes when the processor `1` has handled another one and has not cleared its line
yet. -/
def shotLate : List (Action (Fin 2) ℕ ℕ) :=
  [.ipiTlbshootdown 0 1 4, .interrupt 1, .ipiTlbshootdown 0 1 5, .clear 1]

theorem shotLate_runs : (shotLate.foldlM (system (Fin 2) ℕ ℕ).step fun _ => Cpu.init).isSome := by
  decide

theorem shootdown_protocol_late : ∃ s : State (Fin 2) ℕ ℕ, (system (Fin 2) ℕ ℕ).Reachable s ∧
    (s 1).line = false ∧ (s 1).shootdown = [5] ∧
    (s 1).handled ++ (s 1).shootdown = (s 1).sent ∧ (s 1).shootdown.length ≤ tlbshootdownMax ∧
    ((s 1).line = false → (s 1).pending = (s 1).late) ∧
    ∀ s', step s (.interrupt 1) = some s' → (s' 1).pc ≠ .halt →
      (s' 1).handled = (s 1).sent ∧ (s' 1).pending = 0 := by
  have hreach := TransitionSystem.reachable_of_run shotLate (.init rfl)
    (Option.some_get shotLate_runs).symm
  exact ⟨_, hreach, by decide, by decide, shootdown_protocol hreach 1⟩

end System

end Ipi

end Os161
