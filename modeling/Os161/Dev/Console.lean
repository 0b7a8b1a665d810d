import Os161.Lib.Ring
import Os161.Lib.Transition
import Mathlib.Data.Finset.Card
import Mathlib.Tactic.Ring

/-!
# The input queue of the console

`con_input`, `getch_intr` and the reading side of `con_io` in `kern/dev/generic/console.c`. The
interrupt handler puts characters into a ring of `CONSOLE_INPUT_BUFFER_SIZE` slots and posts the
semaphore `cs_rsem` once for each; a reader waits for the semaphore, reads the slot at the tail and
moves the tail on. Handler and readers share no lock: readers exclude each other by
`con_userlock_read`, and each side writes its own index only.

## Granularity

The handler runs as one step. A reader takes a step for each access of the shared state, so the
handler may come between any two of them: `P`, the load of the index, the load of the slot, the
second load of the index, its store, and the return of `getch`. `P`, `V` and the lock are those of
`kern/thread/synch.c`: `P` and `lock_acquire` are not enabled while there is nothing to take.

`uio_resid` counts what the caller still wants; whether `uiomove` succeeds is not determined. What
was accepted by the handler and what was returned by `getch` is recorded.

## Main results

* `Console.console_input` — the semaphore, the indices and the characters, in every reachable state
-/

namespace Os161

namespace Console

/-- `CONSOLE_INPUT_BUFFER_SIZE`. -/
def consoleInputBufferSize : UInt32 := 32

/-- Where a thread is in `con_io`, with `uio_resid`. -/
inductive Pc where
  | out
  /-- At `lock_acquire`. -/
  | acquire (resid : ℕ)
  /-- At the test of the loop. -/
  | loop (resid : ℕ)
  /-- `getch_intr`, at `P`. -/
  | getchP (resid : ℕ)
  /-- `getch_intr`, at the load of `cs_gotchars_tail` for the index. -/
  | loadIndex (resid : ℕ)
  /-- `getch_intr`, at the load of the slot `i`. -/
  | loadSlot (resid : ℕ) (i : UInt32)
  /-- `getch_intr`, at the load of `cs_gotchars_tail` for its new value. -/
  | loadTail (resid : ℕ) (ret : UInt8)
  /-- `getch_intr`, at the store of `cs_gotchars_tail`. -/
  | storeTail (resid : ℕ) (ret : UInt8) (i : UInt32)
  /-- `getch_intr`, at `return`. -/
  | getchReturn (resid : ℕ) (ret : UInt8)
  /-- At `uiomove`. -/
  | move (resid : ℕ) (ch : UInt8)
  /-- At `lock_release`. -/
  | release
  deriving DecidableEq

/-- `struct con_softc` as far as input goes, the lock of the readers, and the readers. -/
structure State (T : Type*) where
  /-- `cs_gotchars`. -/
  gotchars : ℕ → UInt8
  /-- `cs_gotchars_head`. -/
  head : UInt32
  /-- `cs_gotchars_tail`. -/
  tail : UInt32
  /-- The count of `cs_rsem`. -/
  rsem : ℕ
  /-- Who holds `con_userlock_read`. -/
  readLock : Option T
  pc : T → Pc
  /-- What `con_input` accepted. -/
  accepted : List UInt8
  /-- What `getch` returned. -/
  returned : List UInt8

/-- What can happen next. -/
inductive Action (T : Type*) where
  /-- The device has a character. -/
  | conInput (ch : UInt8)
  /-- Thread `t` calls `con_io` to read `resid` characters. -/
  | callRead (t : T) (resid : ℕ)
  /-- Thread `t` takes its next step. -/
  | run (t : T)
  /-- Thread `t` runs `uiomove`. -/
  | uiomove (t : T) (ok : Bool)

variable {T : Type*}

/-- `con_input`. -/
def conInput (s : State T) (ch : UInt8) : State T :=
  let nexthead := (s.head + 1) % consoleInputBufferSize
  if nexthead = s.tail then s
  else { s with
    gotchars := Function.update s.gotchars s.head.toNat ch
    head := nexthead
    rsem := s.rsem + 1
    accepted := s.accepted ++ [ch] }

variable [DecidableEq T]

/-- Move thread `t` to `p`. -/
def State.goto (s : State T) (t : T) (p : Pc) : State T :=
  { s with pc := Function.update s.pc t p }

/-- The next step of thread `t` in `con_io`, up to `uiomove`. -/
def runStep (s : State T) (t : T) : Option (State T) :=
  match s.pc t with
  | .out => none
  | .acquire resid =>
      if s.readLock = none then some ({ s with readLock := some t }.goto t (.loop resid)) else none
  | .loop resid => some (s.goto t (if 0 < resid then .getchP resid else .release))
  | .getchP resid =>
      if 0 < s.rsem then some ({ s with rsem := s.rsem - 1 }.goto t (.loadIndex resid)) else none
  | .loadIndex resid => some (s.goto t (.loadSlot resid s.tail))
  | .loadSlot resid i => some (s.goto t (.loadTail resid (s.gotchars i.toNat)))
  | .loadTail resid ret => some (s.goto t (.storeTail resid ret s.tail))
  | .storeTail resid ret i =>
      some ({ s with tail := (i + 1) % consoleInputBufferSize }.goto t (.getchReturn resid ret))
  | .getchReturn resid ret =>
      -- `'\r'` is turned into `'\n'`
      let ch := if ret = 13 then 10 else ret
      some ({ s with returned := s.returned ++ [ret] }.goto t (.move resid ch))
  | .move _ _ => none
  | .release => some ({ s with readLock := none }.goto t .out)

/-- One step of the system. -/
def step (s : State T) : Action T → Option (State T)
  | .conInput ch => some (conInput s ch)
  | .callRead t resid => if s.pc t = .out then some (s.goto t (.acquire resid)) else none
  | .run t => runStep s t
  | .uiomove t ok =>
      match s.pc t with
      | .move resid ch =>
          some (s.goto t (if ok = false ∨ ch = 10 then .release else .loop (resid - 1)))
      | _ => none

/-- The console after `config_con`. -/
def init (gotchars : ℕ → UInt8) : State T where
  gotchars := gotchars
  head := 0
  tail := 0
  rsem := 0
  readLock := none
  pc _ := .out
  accepted := []
  returned := []

/-- The console with any number of readers. -/
def system (T : Type*) [DecidableEq T] : TransitionSystem (State T) (Action T) where
  init s := ∃ gotchars, s = init gotchars
  step := step

/-! ### The reader -/

/-- Inside the lock. -/
def Pc.holds : Pc → Bool
  | .out | .acquire _ => false
  | _ => true

/-- Past `P`, with the tail not moved on yet. -/
def Pc.pastP : Pc → Bool
  | .loadIndex _ | .loadSlot _ _ | .loadTail _ _ | .storeTail _ _ _ => true
  | _ => false

/-- The character that is taken out of the ring and not returned yet. -/
def Pc.pending : Pc → List UInt8
  | .getchReturn _ ret => [ret]
  | _ => []

/-- What the reader has loaded is still right. -/
def Pc.Loaded (tail : UInt32) (next : Option UInt8) : Pc → Prop
  | .loadSlot _ i => i = tail
  | .loadTail _ ret => next = some ret
  | .storeTail _ ret i => i = tail ∧ next = some ret
  | _ => True

omit [DecidableEq T] in
/-- The invariant of the ring, with the one reader at `p` and `taken` characters taken out. -/
structure Data (s : State T) (p : Pc) (taken : ℕ) : Prop where
  ring : Ring consoleInputBufferSize.toNat s.gotchars s.head.toNat s.tail.toNat s.accepted taken
  sem : s.rsem + (if p.pastP then 1 else 0) + taken = s.accepted.length
  text : s.accepted.take taken = s.returned ++ p.pending
  loaded : p.Loaded s.tail s.accepted[taken]?

/-- Where the thread is that holds the lock. -/
def reader (s : State T) : Pc :=
  match s.readLock with
  | none => .out
  | some t => s.pc t

omit [DecidableEq T] in
/-- The invariant of the console. -/
structure Inv (s : State T) : Prop where
  holder : ∀ t, s.readLock = some t ↔ (s.pc t).holds = true
  data : ∃ taken, Data s (reader s) taken

omit [DecidableEq T] in
theorem inv_init (gotchars : ℕ → UInt8) : Inv (init gotchars : State T) where
  holder _ := iff_of_false (fun h => by cases h) Bool.false_ne_true
  data := ⟨0, Ring.empty (by decide), rfl, rfl, trivial⟩

/-! ### The steps of the ring -/

section Data

variable {s : State T} {p p' : Pc} {taken : ℕ}

omit [DecidableEq T] in
theorem toNat_next {i : UInt32} (hi : i.toNat < consoleInputBufferSize.toNat) :
    ((i + 1) % consoleInputBufferSize).toNat = (i.toNat + 1) % consoleInputBufferSize.toNat := by
  have hN : consoleInputBufferSize.toNat = 32 := rfl
  have hadd : (i + 1).toNat = i.toNat + 1 := by
    rw [UInt32.toNat_add, UInt32.toNat_one]
    exact Nat.mod_eq_of_lt (by omega)
  rw [UInt32.toNat_mod, hadd]

omit [DecidableEq T] in
theorem Data.head_lt (h : Data s p taken) : s.head.toNat < consoleInputBufferSize.toNat := by
  rw [h.ring.head_eq]
  exact Nat.mod_lt _ (by decide)

omit [DecidableEq T] in
theorem Data.tail_lt (h : Data s p taken) : s.tail.toNat < consoleInputBufferSize.toNat := by
  rw [h.ring.tail_eq]
  exact Nat.mod_lt _ (by decide)

omit [DecidableEq T] in
/-- `con_input` drops the character or puts it in. -/
theorem Data.conInput_cases (h : Data s p taken) (ch : UInt8) :
    (conInput s ch = s ∧ s.accepted.length + 1 = taken + consoleInputBufferSize.toNat) ∨
    (conInput s ch = { s with
        gotchars := Function.update s.gotchars s.head.toNat ch
        head := (s.head + 1) % consoleInputBufferSize
        rsem := s.rsem + 1
        accepted := s.accepted ++ [ch] } ∧
      (s.head.toNat + 1) % consoleInputBufferSize.toNat ≠ s.tail.toNat) := by
  by_cases hfull : (s.head + 1) % consoleInputBufferSize = s.tail
  · refine .inl ⟨if_pos hfull, h.ring.full_iff.mp ?_⟩
    rw [← toNat_next h.head_lt, hfull]
  · refine .inr ⟨if_neg hfull, fun heq => hfull (UInt32.toNat_inj.mp ?_)⟩
    rw [toNat_next h.head_lt, heq]

omit [DecidableEq T] in
theorem Data.conInput (h : Data s p taken) (ch : UInt8) : Data (conInput s ch) p taken := by
  have hle := h.ring.le
  rcases h.conInput_cases ch with ⟨hsame, -⟩ | ⟨hput, hfree⟩
  · rw [hsame]
    exact h
  · rw [hput]
    have hsem := h.sem
    refine ⟨?_, ?_, ?_, ?_⟩
    · rw [toNat_next h.head_lt]
      exact h.ring.put hfree ch
    · simp only [List.length_append, List.length_singleton]
      omega
    · rw [List.take_append_of_le_length hle, h.text]
    · -- what was next stays next
      have hload := h.loaded
      have hnext : ∀ ret, s.accepted[taken]? = some ret →
          (s.accepted ++ [ch])[taken]? = some ret := by
        intro ret hret
        rw [List.getElem?_append_left (List.getElem?_eq_some_iff.mp hret).1, hret]
      cases p with
      | loadTail _ ret => exact hnext ret hload
      | storeTail _ ret i => exact ⟨hload.1, hnext ret hload.2⟩
      | _ => exact hload

omit [DecidableEq T] in
/-- A step of the reader that takes nothing. -/
theorem Data.goto (h : Data s p taken) (hpast : p'.pastP = p.pastP) (hpend : p'.pending = p.pending)
    (hload : p'.Loaded s.tail s.accepted[taken]?) : Data s p' taken where
  ring := h.ring
  sem := by rw [hpast]; exact h.sem
  text := by rw [hpend]; exact h.text
  loaded := hload

omit [DecidableEq T] in
/-- A reader past `P` finds a character. -/
theorem Data.next (h : Data s p taken) (hpast : p.pastP = true) :
    s.accepted[taken]? = some (s.gotchars s.tail.toNat) := by
  have hsem := h.sem
  rw [if_pos hpast] at hsem
  exact h.ring.get (by omega)

omit [DecidableEq T] in
/-- `P`. -/
theorem Data.take {resid : ℕ} (h : Data s (.getchP resid) taken) (hpos : 0 < s.rsem) :
    Data { s with rsem := s.rsem - 1 } (.loadIndex resid) taken where
  ring := h.ring
  sem := by
    have hsem : s.rsem + 0 + taken = s.accepted.length := h.sem
    change s.rsem - 1 + 1 + taken = s.accepted.length
    omega
  text := h.text
  loaded := trivial

omit [DecidableEq T] in
/-- The tail moves on. -/
theorem Data.store {resid : ℕ} {ret : UInt8} {i : UInt32}
    (h : Data s (.storeTail resid ret i) taken) :
    Data { s with tail := (i + 1) % consoleInputBufferSize } (.getchReturn resid ret)
      (taken + 1) := by
  obtain ⟨rfl, hret⟩ := h.loaded
  have hsem : s.rsem + 1 + taken = s.accepted.length := h.sem
  refine ⟨?_, ?_, ?_, trivial⟩
  · rw [toNat_next h.tail_lt]
    exact h.ring.advance (by omega)
  · change s.rsem + 0 + (taken + 1) = s.accepted.length
    omega
  · have htext : s.accepted.take taken = s.returned ++ [] := h.text
    change s.accepted.take (taken + 1) = s.returned ++ [ret]
    rw [List.take_add_one, htext, hret, List.append_nil]
    rfl

omit [DecidableEq T] in
/-- `getch` returns. -/
theorem Data.return {resid : ℕ} {ret ch : UInt8} (h : Data s (.getchReturn resid ret) taken) :
    Data { s with returned := s.returned ++ [ret] } (.move resid ch) taken where
  ring := h.ring
  sem := h.sem
  text := by rw [h.text]; exact (List.append_nil _).symm
  loaded := trivial

end Data

/-! ### The steps of the system -/

section Steps

variable {s s' : State T} {t u : T} {p : Pc}

theorem goto_self (s : State T) (t : T) (p : Pc) : (s.goto t p).pc t = p := by
  simp [State.goto]

theorem goto_of_ne (s : State T) (p : Pc) (hut : u ≠ t) : (s.goto t p).pc u = s.pc u := by
  simp [State.goto, hut]

omit [DecidableEq T] in
theorem conInput_pc (s : State T) (ch : UInt8) :
    (conInput s ch).pc = s.pc ∧ (conInput s ch).readLock = s.readLock := by
  rw [conInput]
  split <;> exact ⟨rfl, rfl⟩

omit [DecidableEq T] in
theorem Inv.conInput (h : Inv s) (ch : UInt8) : Inv (conInput s ch) := by
  obtain ⟨taken, hdata⟩ := h.data
  obtain ⟨hpc, hlock⟩ := conInput_pc s ch
  have hreader : reader (Console.conInput s ch) = reader s := by
    rw [reader, reader, hpc, hlock]
  refine ⟨fun t => ?_, taken, ?_⟩
  · rw [hpc, hlock]
    exact h.holder t
  · rw [hreader]
    exact hdata.conInput ch

omit [DecidableEq T] in
theorem Inv.reader_eq (h : Inv s) (ht : (s.pc t).holds = true) : reader s = s.pc t := by
  rw [reader, (h.holder t).mpr ht]

/-- Where the reader is after `t`, the one with the lock, has moved. -/
theorem reader_goto (s : State T) (hlock : s.readLock = some t) :
    reader (s.goto t p) = p := by
  have hl : (s.goto t p).readLock = some t := hlock
  rw [reader, hl]
  exact goto_self s t p

/-- The thread with the lock takes a step, and keeps the lock. -/
theorem Inv.holderStep (h : Inv s) (ht : (s.pc t).holds = true) (hp : p.holds = true)
    (hpc : s'.pc = s.pc) (hlock : s'.readLock = s.readLock)
    (hdata : ∀ taken, Data s (s.pc t) taken → ∃ taken', Data s' p taken') :
    Inv (s'.goto t p) := by
  obtain ⟨taken, hd⟩ := h.data
  rw [h.reader_eq ht] at hd
  obtain ⟨taken', hd'⟩ := hdata taken hd
  have hholder := (h.holder t).mpr ht
  refine ⟨fun u => ?_, taken', ?_⟩
  · change s'.readLock = some u ↔ _
    rw [hlock]
    by_cases hut : u = t
    · rw [hut, goto_self]
      exact iff_of_true hholder hp
    · rw [goto_of_ne s' p hut, hpc]
      exact h.holder u
  · rw [reader_goto s' (hlock.trans hholder)]
    exact ⟨hd'.ring, hd'.sem, hd'.text, hd'.loaded⟩

/-- A thread moves outside the lock. -/
theorem Inv.outside (h : Inv s) (ht : (s.pc t).holds = false) (hp : p.holds = false) :
    Inv (s.goto t p) := by
  obtain ⟨taken, hd⟩ := h.data
  have hfree : s.readLock ≠ some t := fun hl => by
    rw [(h.holder t).mp hl] at ht
    cases ht
  have hreader : reader (s.goto t p) = reader s := by
    have hl : (s.goto t p).readLock = s.readLock := rfl
    rw [reader, reader, hl]
    cases hr : s.readLock with
    | none => rfl
    | some u => exact goto_of_ne s p fun hut => hfree (hut ▸ hr)
  refine ⟨fun u => ?_, taken, ?_⟩
  · change s.readLock = some u ↔ _
    by_cases hut : u = t
    · rw [hut, goto_self, hp]
      exact iff_of_false hfree Bool.false_ne_true
    · rw [goto_of_ne s p hut]
      exact h.holder u
  · rw [hreader]
    exact ⟨hd.ring, hd.sem, hd.text, hd.loaded⟩

/-- `lock_acquire`. -/
theorem Inv.acquire (h : Inv s) {resid : ℕ} (hfree : s.readLock = none) :
    Inv ({ s with readLock := some t }.goto t (.loop resid)) := by
  obtain ⟨taken, hd⟩ := h.data
  rw [reader, hfree] at hd
  refine ⟨fun u => ?_, taken, ?_⟩
  · change some t = some u ↔ _
    by_cases hut : u = t
    · rw [hut, goto_self]
      exact iff_of_true rfl rfl
    · rw [goto_of_ne _ _ hut, ← h.holder u, hfree]
      exact iff_of_false (fun heq => hut (Option.some.inj heq).symm) (fun heq => by cases heq)
  · rw [reader_goto _ rfl]
    exact ⟨hd.ring, hd.sem, hd.text, trivial⟩

/-- `lock_release`. -/
theorem Inv.release (h : Inv s) (ht : s.pc t = .release) :
    Inv ({ s with readLock := none }.goto t .out) := by
  have hholds : (s.pc t).holds = true := by rw [ht]; rfl
  obtain ⟨taken, hd⟩ := h.data
  rw [h.reader_eq hholds, ht] at hd
  have hholder := (h.holder t).mpr hholds
  refine ⟨fun u => ?_, taken, ⟨hd.ring, hd.sem, hd.text, trivial⟩⟩
  change none = some u ↔ _
  by_cases hut : u = t
  · rw [hut, goto_self]
    exact iff_of_false (fun heq => by cases heq) Bool.false_ne_true
  · rw [goto_of_ne _ _ hut, ← h.holder u, hholder]
    exact iff_of_false (fun heq => by cases heq) fun heq => hut (Option.some.inj heq).symm

theorem Inv.runStep (h : Inv s) (hs : runStep s t = some s') : Inv s' := by
  have stay : ∀ {p p' : Pc}, s.pc t = p → p.holds = true → p'.holds = true →
      (∀ taken, Data s p taken → ∃ taken', Data s p' taken') → Inv (s.goto t p') := by
    intro p p' hpc hp hp' hdata
    rw [← hpc] at hp hdata
    exact h.holderStep hp hp' rfl rfl hdata
  unfold Console.runStep at hs
  split at hs
  · cases hs
  · next resid hpc =>
    split at hs
    · next hfree =>
      cases hs
      exact h.acquire hfree
    · cases hs
  · next resid hpc =>
    cases hs
    split
    · exact stay hpc rfl rfl fun taken hd => ⟨taken, hd.goto rfl rfl trivial⟩
    · exact stay hpc rfl rfl fun taken hd => ⟨taken, hd.goto rfl rfl trivial⟩
  · next resid hpc =>
    split at hs
    · next hpos =>
      cases hs
      refine h.holderStep (by rw [hpc]; rfl) rfl rfl rfl fun taken hd => ⟨taken, ?_⟩
      rw [hpc] at hd
      exact hd.take hpos
    · cases hs
  · next resid hpc =>
    cases hs
    exact stay hpc rfl rfl fun taken hd => ⟨taken, hd.goto rfl rfl rfl⟩
  · next resid i hpc =>
    cases hs
    refine stay hpc rfl rfl fun taken hd => ⟨taken, hd.goto rfl rfl ?_⟩
    have hi : i = s.tail := hd.loaded
    rw [hi]
    exact hd.next rfl
  · next resid ret hpc =>
    cases hs
    exact stay hpc rfl rfl fun taken hd => ⟨taken, hd.goto rfl rfl ⟨rfl, hd.loaded⟩⟩
  · next resid ret i hpc =>
    cases hs
    refine h.holderStep (by rw [hpc]; rfl) rfl rfl rfl fun taken hd => ⟨taken + 1, ?_⟩
    rw [hpc] at hd
    exact hd.store
  · next resid ret hpc =>
    cases hs
    refine h.holderStep (by rw [hpc]; rfl) rfl rfl rfl fun taken hd => ⟨taken, ?_⟩
    rw [hpc] at hd
    exact hd.return
  · cases hs
  · next hpc =>
    cases hs
    exact h.release hpc

theorem Inv.step {a : Action T} (h : Inv s) (hs : step s a = some s') : Inv s' := by
  cases a with
  | conInput ch =>
    cases hs
    exact h.conInput ch
  | callRead t resid =>
    simp only [Console.step] at hs
    split at hs
    · next hpc =>
      cases hs
      exact h.outside (by rw [hpc]; rfl) rfl
    · cases hs
  | run t => exact h.runStep hs
  | uiomove t ok =>
    simp only [Console.step] at hs
    split at hs
    · next resid ch hpc =>
      cases hs
      have hholds : (s.pc t).holds = true := by rw [hpc]; rfl
      refine h.holderStep hholds (by split <;> rfl) rfl rfl fun taken hd => ⟨taken, ?_⟩
      rw [hpc] at hd
      split <;> exact hd.goto rfl rfl trivial
    · cases hs

end Steps

theorem inv_of_reachable {s : State T} (h : (system T).Reachable s) : Inv s :=
  h.invariant (fun _ ⟨gotchars, hs⟩ => hs ▸ inv_init gotchars) fun _ _ _ hi hs => hi.step hs

/-! ### What a user of the console sees -/

/-- The characters in the ring, from the tail on. -/
def unread (s : State T) : List UInt8 :=
  (List.range (((s.head.toNat : ℤ) - s.tail.toNat) % consoleInputBufferSize.toNat).toNat).map
    fun i => s.gotchars ((s.tail.toNat + i) % consoleInputBufferSize.toNat)

omit [DecidableEq T] in
/-- The ring holds what was accepted and not taken. -/
theorem Data.unread_eq {s : State T} {p : Pc} {taken : ℕ} (h : Data s p taken) :
    unread s = s.accepted.drop taken := by
  have hroom := h.ring.room
  rw [unread, h.ring.diff, Int.toNat_natCast]
  refine List.ext_getElem ?_ fun i h1 h2 => ?_
  · rw [List.length_map, List.length_range, List.length_drop]
  · rw [List.length_drop] at h2
    rw [List.getElem_map, List.getElem_range, List.getElem_drop, h.ring.tail_eq, Nat.mod_add_mod]
    exact h.ring.slot (taken + i) (by omega) (by omega)

omit [DecidableEq T] in
theorem Inv.count {s : State T} (h : Inv s) :
    ∃ readers : Finset T, (∀ t, t ∈ readers ↔ (s.pc t).pastP = true) ∧
      ((s.head.toNat : ℤ) - s.tail.toNat) % consoleInputBufferSize.toNat =
        s.rsem + readers.card := by
  obtain ⟨taken, hd⟩ := h.data
  have hsem := hd.sem
  have hholds : ∀ p : Pc, p.pastP = true → p.holds = true := by
    intro p hp
    cases p <;> first | rfl | cases hp
  rw [hd.ring.diff]
  cases hlock : s.readLock with
  | none =>
    refine ⟨∅, fun t => iff_of_false (Finset.notMem_empty t) fun ht => ?_, ?_⟩
    · rw [(h.holder t).mpr (hholds _ ht)] at hlock
      cases hlock
    · rw [reader, hlock] at hsem
      change s.rsem + 0 + taken = _ at hsem
      rw [Finset.card_empty]
      omega
  | some u =>
    rw [reader, hlock] at hsem
    change s.rsem + (if (s.pc u).pastP = true then 1 else 0) + taken = _ at hsem
    -- only the reader with the lock can be past `P`
    have honly : ∀ t, (s.pc t).pastP = true → t = u := by
      intro t ht
      have hl := (h.holder t).mpr (hholds _ ht)
      rw [hlock] at hl
      exact (Option.some.inj hl).symm
    by_cases hu : (s.pc u).pastP = true
    · refine ⟨{u}, fun t => ?_, ?_⟩
      · rw [Finset.mem_singleton]
        exact ⟨fun ht => ht ▸ hu, honly t⟩
      · rw [if_pos hu] at hsem
        rw [Finset.card_singleton]
        omega
    · refine ⟨∅, fun t => iff_of_false (Finset.notMem_empty t) fun ht => ?_, ?_⟩
      · rw [honly t ht] at ht
        exact hu ht
      · rw [if_neg hu] at hsem
        rw [Finset.card_empty]
        omega

/-- In every reachable state, the indices are apart by the count of the semaphore and the readers
past `P`; what was accepted is what was returned, what a reader is about to return, and what is in
the ring; and `con_input` drops a character only when the ring is full. -/
theorem console_input {s : State T} (h : (system T).Reachable s) :
    (∃ readers : Finset T, (∀ t, t ∈ readers ↔ (s.pc t).pastP = true) ∧
      ((s.head.toNat : ℤ) - s.tail.toNat) % consoleInputBufferSize.toNat =
        s.rsem + readers.card) ∧
    s.accepted = s.returned ++ ((reader s).pending ++ unread s) ∧
    ∀ ch, (((s.head.toNat : ℤ) - s.tail.toNat) % consoleInputBufferSize.toNat =
          consoleInputBufferSize.toNat - 1 → conInput s ch = s) ∧
      (((s.head.toNat : ℤ) - s.tail.toNat) % consoleInputBufferSize.toNat ≠
          consoleInputBufferSize.toNat - 1 →
        (conInput s ch).accepted = s.accepted ++ [ch] ∧
          (conInput s ch).returned = s.returned ∧
          unread (conInput s ch) = unread s ++ [ch]) := by
  have hinv := inv_of_reachable h
  obtain ⟨taken, hd⟩ := hinv.data
  have hle := hd.ring.le
  have hN : consoleInputBufferSize.toNat = 32 := rfl
  refine ⟨hinv.count, ?_, fun ch => ?_⟩
  · rw [hd.unread_eq, ← List.append_assoc, ← hd.text, List.take_append_drop]
  · rw [hd.ring.diff]
    rcases hd.conInput_cases ch with ⟨hsame, hfull⟩ | ⟨hput, hfree⟩
    · exact ⟨fun _ => hsame, fun hne => absurd (by omega) hne⟩
    · have hroom : s.accepted.length + 1 ≠ taken + consoleInputBufferSize.toNat :=
        fun heq => hfree (hd.ring.full_iff.mpr heq)
      have hd' := hd.conInput ch
      have hacc : (conInput s ch).accepted = s.accepted ++ [ch] := by rw [hput]
      refine ⟨fun heq => absurd (by omega) hroom, fun _ => ⟨hacc, by rw [hput], ?_⟩⟩
      rw [hd'.unread_eq, hd.unread_eq, hacc, List.drop_append_of_le_length hle]

/-- Two characters arrive, and thread `0` has loaded the first when the third arrives. -/
def interrupted : List (Action (Fin 2)) :=
  [.conInput 97, .conInput 98, .callRead 0 5, .callRead 1 1, .run 0, .run 0, .run 0, .run 0, .run 0,
    .conInput 99]

theorem interrupted_runs :
    (interrupted.foldlM (system (Fin 2)).step (init fun _ => 0)).isSome := by decide

theorem console_input_interrupted : ∃ s : State (Fin 2), (system (Fin 2)).Reachable s ∧
    s.rsem = 2 ∧ s.accepted = s.returned ++ ((reader s).pending ++ unread s) := by
  have hinit : (system (Fin 2)).init (init fun _ => 0) := ⟨_, rfl⟩
  have hreach := TransitionSystem.reachable_of_run interrupted (.init hinit)
    (Option.some_get interrupted_runs).symm
  exact ⟨_, hreach, by decide, (console_input hreach).2.1⟩

end Console

end Os161
