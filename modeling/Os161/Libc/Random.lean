import Os161.Lib.Simulation
import Mathlib.Logic.Function.Iterate
import Mathlib.Tactic.Ring

/-!
# Random numbers

`random`, `srandom`, `initstate` and `setstate` of `userland/lib/libc/stdlib/random.c`. The state
of a generator is in an array of the caller's, two pointers into the array go round in it, and the
array that is not in use keeps its type and the place of the rear pointer in its first word. Seen
from outside each array is a generator of its own, a linear recurrence, whatever is done with the
other arrays in between.

`setstate` reads the first word of the array before it writes that of the array in use. The comment
there has it that it is fine to go on with the same array; it is not, since the rear pointer then
goes back to where it was when the array was last left. So that call is not among those allowed
here.

A `long` is a word of 32 bits, and addresses count words.

## How it composes

`Runs` says of the array in use, and `Rests` of the others, which generator is in it. This module
has what the four functions do to one array; `Libc.RandomCalls` has all arrays together and any
sequence of calls.

## Main definitions

* `Rng` — the variables of the file, and the memory
* `Generator`, `Streams` — the generators seen from outside

## Main results

* `Random.runs_random`, `runs_srandom` — the array in use
* `Random.Runs.rests` — what is left in an array
-/

namespace Os161

namespace Random

/-- `MAX_TYPES`. -/
def maxTypes : ℕ := 5

/-- `degrees`: `DEG_0` to `DEG_4`. -/
def degrees : ℕ → ℕ
  | 0 => 0
  | 1 => 7
  | 2 => 15
  | 3 => 31
  | _ => 63

/-- `seps`: `SEP_0` to `SEP_4`. -/
def seps : ℕ → ℕ
  | 0 => 0
  | 1 => 3
  | 2 => 1
  | 3 => 3
  | _ => 1

/-- The best type for `n` bytes, by `BREAK_0` to `BREAK_4`. -/
def typeFor (n : ℕ) : Option ℕ :=
  if n < 8 then none
  else if n < 32 then some 0
  else if n < 64 then some 1
  else if n < 128 then some 2
  else if n < 256 then some 3
  else some 4

/-- The variables of `random.c`, and the memory. -/
structure Rng where
  mem : ℕ → UInt32
  /-- `state`, the second word of the array in use. -/
  state : ℕ
  fptr : ℕ
  rptr : ℕ
  /-- `end_ptr`. -/
  endPtr : ℕ
  /-- `rand_type`. -/
  randType : ℕ
  /-- `rand_deg`. -/
  randDeg : ℕ
  /-- `rand_sep`. -/
  randSep : ℕ

namespace Rng

def store (r : Rng) (p : ℕ) (x : UInt32) : Rng := { r with mem := Function.update r.mem p x }

/-- `random_unlocked`. -/
def randomUnlocked (r : Rng) : UInt32 × Rng :=
  if r.randType = 0 then
    let i := (r.mem r.state * 1103515245 + 12345) &&& 0x7fffffff
    (i, r.store r.state i)
  else
    let x := r.mem r.fptr + r.mem r.rptr
    let i := (x >>> 1) &&& 0x7fffffff
    let r' := r.store r.fptr x
    if r.endPtr ≤ r.fptr + 1 then (i, { r' with fptr := r.state, rptr := r.rptr + 1 })
    else if r.endPtr ≤ r.rptr + 1 then (i, { r' with fptr := r.fptr + 1, rptr := r.state })
    else (i, { r' with fptr := r.fptr + 1, rptr := r.rptr + 1 })

/-- The loop of `srandom_unlocked` that fills the array, after `n` rounds. -/
def fill (r : Rng) (x : UInt32) (n : ℕ) : Rng :=
  (List.range n).foldl
    (fun r i => r.store (r.state + (i + 1)) (1103515245 * r.mem (r.state + i) + 12345))
    (r.store r.state x)

/-- `srandom_unlocked`. -/
def srandomUnlocked (r : Rng) (x : UInt32) : Rng :=
  if r.randType = 0 then r.store r.state x
  else
    let r := r.fill x (r.randDeg - 1)
    let r := { r with fptr := r.state + r.randSep, rptr := r.state }
    (fun r => r.randomUnlocked.2)^[10 * r.randDeg] r

/-- The type, and the place of the rear pointer. -/
def header (r : Rng) : UInt32 :=
  if r.randType = 0 then 0 else UInt32.ofNat (maxTypes * (r.rptr - r.state) + r.randType)

/-- The array in use is left. -/
def save (r : Rng) : Rng := r.store (r.state - 1) r.header

def withType (r : Rng) (t : ℕ) : Rng :=
  { r with randType := t, randDeg := degrees t, randSep := seps t }

/-- `initstate`, which returns the old array. -/
def initstate (r : Rng) (seed : UInt32) (argState n : ℕ) : Option ℕ × Rng :=
  let ostate := r.state - 1
  let r := r.save
  match typeFor n with
  | none => (none, r)
  | some t =>
      let r := { r.withType t with state := argState + 1, endPtr := argState + 1 + degrees t }
      let r := r.srandomUnlocked seed
      (some ostate, r.store argState r.header)

/-- `setstate`, which returns the old array. -/
def setstate (r : Rng) (argState : ℕ) : Option ℕ × Rng :=
  let ostate := r.state - 1
  let type := (r.mem argState).toInt32.toInt.tmod maxTypes
  let rear := (r.mem argState).toInt32.toInt.tdiv maxTypes
  let r := r.save
  if type < 0 then (none, r)
  else
    let t := type.toNat
    let r := { r.withType t with state := argState + 1 }
    let r := if t ≠ 0 then
      { r with rptr := r.state + rear.toNat
               fptr := r.state + (rear.toNat + r.randSep) % r.randDeg } else r
    (some ostate, { r with endPtr := r.state + r.randDeg })

/-- `randtbl`. -/
def randtbl : List UInt32 := [3,
  0x9a319039, 0x32d9c024, 0x9b663182, 0x5da1f342, 0xde3b81e0, 0xdf0a6fb5, 0xf103bc02, 0x48f340fb,
  0x7449e56b, 0xbeb1dbb0, 0xab5c5918, 0x946554fd, 0x8c2e680f, 0xeb3d799f, 0xb11ee0b7, 0x2d436b86,
  0xda672e2a, 0x1588ca88, 0xe369735d, 0x904f35f7, 0xd7158fd6, 0x6fa6f051, 0x616e6b96, 0xac94efdc,
  0x36413f93, 0xc622c298, 0xf5a42ab8, 0x8a88d77b, 0xf5ad9d0e, 0x8999220b, 0x27fb47b9]

/-- When the program starts, with `randtbl` at `base`. -/
def init (base : ℕ) (mem : ℕ → UInt32) : Rng where
  mem p := if base ≤ p ∧ p < base + 32 then randtbl.getD (p - base) 0 else mem p
  state := base + 1
  fptr := base + 1 + 3
  rptr := base + 1
  endPtr := base + 1 + 31
  randType := 3
  randDeg := 31
  randSep := 3

end Rng

/-- A call. -/
inductive Call where
  | random
  | srandom (x : UInt32)
  | initstate (seed : UInt32) (argState n : ℕ)
  | setstate (argState : ℕ)

/-- What is returned. -/
inductive Answer where
  | number (i : UInt32)
  | nothing
  /-- The old array, or `NULL`. -/
  | array (ostate : Option ℕ)

/-- A call, carried out. -/
def Rng.call (r : Rng) : Call → Rng × Answer
  | .random => (r.randomUnlocked.2, .number r.randomUnlocked.1)
  | .srandom x => (r.srandomUnlocked x, .nothing)
  | .initstate seed argState n => ((r.initstate seed argState n).2,
      .array (r.initstate seed argState n).1)
  | .setstate argState => ((r.setstate argState).2, .array (r.setstate argState).1)

/-! ### Generators seen from outside -/

/-- A generator. -/
inductive Generator where
  /-- By a linear congruence, with the last number. -/
  | congruential (x : UInt32)
  /-- By the trinomial of a type, with the last sums. -/
  | feedback (t : ℕ) (w : ℕ → UInt32)

/-- One round of the linear congruence of `srandom`. -/
def lcg (x : UInt32) : UInt32 := 1103515245 * x + 12345

namespace Generator

/-- Its type. -/
def type : Generator → ℕ
  | congruential _ => 0
  | feedback t _ => t

/-- The next number. With the degree `d` and the separation `s` a sum is that of the sums `d` and
`s` before it. -/
def next : Generator → UInt32 × Generator
  | congruential x =>
      let i := (x * 1103515245 + 12345) &&& 0x7fffffff
      (i, congruential i)
  | feedback t w =>
      let x := w 0 + w (degrees t - seps t)
      ((x >>> 1) &&& 0x7fffffff, feedback t fun j => if j + 1 = degrees t then x else w (j + 1))

/-- A generator of type `t` with a seed. -/
def seed (t : ℕ) (x : UInt32) : Generator :=
  if t = 0 then congruential x
  else (fun g => g.next.2)^[10 * degrees t]
    (feedback t fun j => lcg^[(seps t + j) % degrees t] x)

end Generator

/-- The arrays, by their addresses, and the one in use. -/
structure Streams where
  gen : ℕ → Option Generator
  current : ℕ

/-- When the program starts, there is one generator, with the seed `1`. -/
def Streams.init (base : ℕ) : Streams where
  gen := Function.update (fun _ => none) base (some (.seed 3 1))
  current := base

/-- The generator in use changes. -/
def Streams.change (st : Streams) (f : Generator → Generator) : Streams :=
  { st with gen := Function.update st.gen st.current ((st.gen st.current).map f) }

/-- A call, as it is seen. -/
def Streams.call (st : Streams) : Call → Streams × Answer
  | .random => (st.change fun g => g.next.2,
      .number (((st.gen st.current).map fun g => g.next.1).getD 0))
  | .srandom x => (st.change fun g => .seed g.type x, .nothing)
  | .initstate seed argState n =>
      match typeFor n with
      | none => (st, .array none)
      | some t => (⟨Function.update st.gen argState (some (.seed t seed)), argState⟩,
          .array (some st.current))
  | .setstate argState => ({ st with current := argState }, .array (some st.current))

/-- How many words a generator of a type needs. -/
def words (t : ℕ) : ℕ := 1 + max 1 (degrees t)

/-- Arrays do not overlap; `setstate` is for an array that has been initialised, and is not in
use. -/
def Streams.Allows (st : Streams) : Call → Prop
  | .initstate _ argState n => ∀ t, typeFor n = some t → ∀ b g, b ≠ argState → st.gen b = some g →
      argState + words t ≤ b ∨ b + words g.type ≤ argState
  | .setstate argState => argState ≠ st.current ∧ (st.gen argState).isSome
  | _ => True

/-- The word `p` is in none of the arrays. -/
def Streams.Outside (st : Streams) (p : ℕ) : Prop :=
  ∀ a g, st.gen a = some g → p < a ∨ a + words g.type ≤ p

/-- The word `p` is not in the array that is handed over. -/
def Call.Outside (c : Call) (p : ℕ) : Prop :=
  match c with
  | .initstate _ argState n => p < argState ∨ argState + n / 4 ≤ p
  | _ => True

/-- Every call is allowed. -/
def Streams.AllowsAll (st : Streams) : List Call → Prop
  | [] => True
  | c :: cs => st.Allows c ∧ (st.call c).1.AllowsAll cs

/-! ### Going round -/

/-- The place `i`, after at most one turn. -/
def turn (d i : ℕ) : ℕ := if i < d then i else i - d

theorem turn_cases (d i : ℕ) : i < d ∧ turn d i = i ∨ d ≤ i ∧ turn d i = i - d := by
  rw [turn]
  split
  · next hlt => exact Or.inl ⟨hlt, rfl⟩
  · next hge => exact Or.inr ⟨Nat.le_of_not_lt hge, rfl⟩

theorem mod_eq_turn {d i : ℕ} (h : i < 2 * d) : i % d = turn d i := by
  rw [turn]
  split
  · next hlt => exact Nat.mod_eq_of_lt hlt
  · next hge => rw [Nat.mod_eq_sub_mod (by omega), Nat.mod_eq_of_lt (by omega)]

/-- The degree is larger than the separation. -/
theorem seps_lt {t : ℕ} (h : t ≠ 0) : 0 < seps t ∧ seps t < degrees t := by
  unfold seps degrees
  split
  · exact absurd rfl h
  all_goals decide

theorem degrees_lt (t : ℕ) : degrees t < 64 := by
  unfold degrees
  split <;> decide

/-- The sums are where they should be, with the rear pointer at `ρ`. -/
structure Feeds (mem : ℕ → UInt32) (a t ρ : ℕ) (w : ℕ → UInt32) : Prop where
  type : t ≠ 0 ∧ t < maxTypes
  rear : ρ < degrees t
  slot : ∀ j < degrees t, mem (a + turn (degrees t) (turn (degrees t) (ρ + seps t) + j)) = w j

/-- The generator of the array in use. -/
def Runs (r : Rng) : Generator → Prop
  | .congruential x => r.mem r.state = x
  | .feedback t w => ∃ ρ, r.rptr = r.state + ρ ∧
      r.fptr = r.state + turn (degrees t) (ρ + seps t) ∧ Feeds r.mem r.state t ρ w

/-- The variables are set up for the array `arg` and the type `t`. -/
structure SetUp (r : Rng) (arg t : ℕ) : Prop where
  state : r.state = arg + 1
  type : r.randType = t
  deg : r.randDeg = degrees t
  sep : r.randSep = seps t
  endPtr : r.endPtr = arg + 1 + degrees t

/-- The array `arg` is not in use, and the generator is in it. -/
def Rests (mem : ℕ → UInt32) (arg : ℕ) : Generator → Prop
  | .congruential x => mem arg = 0 ∧ mem (arg + 1) = x
  | .feedback t w => ∃ ρ, mem arg = UInt32.ofNat (maxTypes * ρ + t) ∧ Feeds mem (arg + 1) t ρ w

/-- From `r` to `r'` only the words from `lo` up to `hi` have changed, and the pointers. -/
structure Within (r r' : Rng) (lo hi : ℕ) : Prop where
  state : r'.state = r.state
  type : r'.randType = r.randType
  deg : r'.randDeg = r.randDeg
  sep : r'.randSep = r.randSep
  endPtr : r'.endPtr = r.endPtr
  mem : ∀ p, p < lo ∨ hi ≤ p → r'.mem p = r.mem p

section Steps

variable {r r' r'' : Rng} {arg t ρ lo hi : ℕ} {w : ℕ → UInt32} {g : Generator}
  {mem mem' : ℕ → UInt32}

theorem Within.trans (h : Within r r' lo hi) (h' : Within r' r'' lo hi) : Within r r'' lo hi :=
  ⟨h'.state.trans h.state, h'.type.trans h.type, h'.deg.trans h.deg, h'.sep.trans h.sep,
    h'.endPtr.trans h.endPtr, fun p hp => (h'.mem p hp).trans (h.mem p hp)⟩

theorem Within.setUp (h : Within r r' lo hi) (hs : SetUp r arg t) : SetUp r' arg t :=
  ⟨h.state.trans hs.state, h.type.trans hs.type, h.deg.trans hs.deg, h.sep.trans hs.sep,
    h.endPtr.trans hs.endPtr⟩

theorem Within.store (h : Within r r' lo hi) {p : ℕ} (hlo : lo ≤ p) (hhi : p < hi) (x : UInt32) :
    Within r (r'.store p x) lo hi := by
  refine ⟨h.state, h.type, h.deg, h.sep, h.endPtr, fun q hq => ?_⟩
  exact (Function.update_of_ne (by omega) _ _).trans (h.mem q hq)

theorem Within.refl (r : Rng) (lo hi : ℕ) : Within r r lo hi :=
  ⟨rfl, rfl, rfl, rfl, rfl, fun _ _ => rfl⟩

theorem Feeds.congr (h : Feeds mem arg t ρ w)
    (hmem : ∀ p, arg ≤ p → p < arg + degrees t → mem' p = mem p) : Feeds mem' arg t ρ w := by
  refine ⟨h.type, h.rear, fun j hj => ?_⟩
  have := seps_lt h.type.1
  have := h.rear
  have := turn_cases (degrees t) (ρ + seps t)
  have := turn_cases (degrees t) (turn (degrees t) (ρ + seps t) + j)
  rw [← h.slot j hj]
  exact hmem _ (Nat.le_add_right _ _) (by omega)

/-- One sum. -/
theorem Feeds.next (h : Feeds mem arg t ρ w) (x : UInt32) :
    Feeds (Function.update mem (arg + turn (degrees t) (ρ + seps t)) x) arg t
      (turn (degrees t) (ρ + 1)) fun j => if j + 1 = degrees t then x else w (j + 1) := by
  obtain ⟨hpos, hlt⟩ := seps_lt h.type.1
  have hrear := h.rear
  have hfront := turn_cases (degrees t) (ρ + seps t)
  have hnext := turn_cases (degrees t) (ρ + 1)
  have hnextfront := turn_cases (degrees t) (turn (degrees t) (ρ + 1) + seps t)
  refine ⟨h.type, by omega, fun j hj => ?_⟩
  have hslot := turn_cases (degrees t) (turn (degrees t) (turn (degrees t) (ρ + 1) + seps t) + j)
  by_cases hlast : j + 1 = degrees t
  · rw [if_pos hlast]
    exact (congrArg _ (by omega)).trans (Function.update_self _ _ _)
  · have hold := turn_cases (degrees t) (turn (degrees t) (ρ + seps t) + (j + 1))
    rw [if_neg hlast, Function.update_of_ne (by omega), ← h.slot (j + 1) (by omega)]
    exact congrArg _ (by omega)

/-- **`random_unlocked`.** -/
theorem runs_random (hs : SetUp r arg g.type) (h : Runs r g) :
    r.randomUnlocked.1 = g.next.1 ∧ Runs r.randomUnlocked.2 g.next.2 ∧
      Within r r.randomUnlocked.2 (arg + 1) (arg + words g.type) := by
  have hstate := hs.state
  cases g with
  | congruential x =>
    have htype : r.randType = 0 := hs.type
    have hmem : r.mem r.state = x := h
    rw [Rng.randomUnlocked, if_pos htype, hmem]
    refine ⟨rfl, Function.update_self _ _ _, (Within.refl r _ _).store (by omega) ?_ _⟩
    rw [hstate]
    exact Nat.lt_succ_self _
  | feedback t w =>
    obtain ⟨ρ, hrptr, hfptr, hf⟩ := h
    obtain ⟨hpos, hlt⟩ := seps_lt hf.type.1
    have hrear := hf.rear
    have htype : r.randType ≠ 0 := fun h0 => hf.type.1 (hs.type.symm.trans h0)
    have hend : r.endPtr = arg + 1 + degrees t := hs.endPtr
    have hwords : words (Generator.feedback t w).type = 1 + degrees t := by
      change 1 + max 1 (degrees t) = _
      omega
    have hfront := turn_cases (degrees t) (ρ + seps t)
    have hx : r.mem r.fptr + r.mem r.rptr = w 0 + w (degrees t - seps t) := by
      have h0 := turn_cases (degrees t) (turn (degrees t) (ρ + seps t) + 0)
      have h1 := turn_cases (degrees t) (turn (degrees t) (ρ + seps t) + (degrees t - seps t))
      rw [← hf.slot 0 (by omega), ← hf.slot (degrees t - seps t) (by omega), hfptr, hrptr]
      exact congrArg₂ (fun p q => r.mem p + r.mem q) (by omega) (by omega)
    have hnext := hf.next (w 0 + w (degrees t - seps t))
    have hrear' := turn_cases (degrees t) (ρ + 1)
    have hfront' := turn_cases (degrees t) (turn (degrees t) (ρ + 1) + seps t)
    rw [← hfptr] at hnext
    have hmoved {f p : ℕ} (hp : p = r.state + turn (degrees t) (ρ + 1))
        (hf' : f = r.state + turn (degrees t) (turn (degrees t) (ρ + 1) + seps t)) :
        let r' := { r.store r.fptr (w 0 + w (degrees t - seps t)) with fptr := f, rptr := p }
        Runs r' (Generator.feedback t w).next.2 ∧
          Within r r' (arg + 1) (arg + (1 + degrees t)) := by
      refine ⟨⟨_, hp, hf', hnext⟩, rfl, rfl, rfl, rfl, rfl, fun q hq => ?_⟩
      exact Function.update_of_ne (by omega) _ _
    rw [Rng.randomUnlocked, if_neg htype, hx, hwords]
    dsimp only
    split
    · exact ⟨rfl, hmoved (by omega) (by omega)⟩
    · split
      · exact ⟨rfl, hmoved (by omega) (by omega)⟩
      · exact ⟨rfl, hmoved (by omega) (by omega)⟩

theorem type_next (g : Generator) : g.next.2.type = g.type := by
  cases g with
  | congruential x => exact (rfl : (0 : ℕ) = 0)
  | feedback t w => exact (rfl : t = t)

theorem type_seed (t : ℕ) (x : UInt32) : (Generator.seed t x).type = t := by
  have hiter (n : ℕ) (g : Generator) : ((fun g => g.next.2)^[n] g).type = g.type := by
    induction n generalizing g with
    | zero => rfl
    | succ n ih => rw [Function.iterate_succ_apply, ih, type_next]
  rw [Generator.seed]
  split
  · next h => exact h.symm
  · exact hiter _ _

theorem runs_iterate (hs : SetUp r arg g.type) (h : Runs r g) (n : ℕ) :
    Runs ((fun r => r.randomUnlocked.2)^[n] r) ((fun g => g.next.2)^[n] g) ∧
      Within r ((fun r => r.randomUnlocked.2)^[n] r) (arg + 1) (arg + words g.type) := by
  induction n generalizing r g with
  | zero => exact ⟨h, Within.refl _ _ _⟩
  | succ n ih =>
    obtain ⟨-, hruns, hwithin⟩ := runs_random hs h
    have htype := type_next g
    obtain ⟨hruns', hwithin'⟩ := ih (htype.symm ▸ hwithin.setUp hs) hruns
    rw [htype] at hwithin'
    exact ⟨hruns', hwithin.trans hwithin'⟩

/-- The array after the loop of `srandom_unlocked`. -/
theorem fill_spec (r : Rng) (x : UInt32) (n : ℕ) :
    Within r (r.fill x n) r.state (r.state + (n + 1)) ∧
      ∀ i ≤ n, (r.fill x n).mem (r.state + i) = lcg^[i] x := by
  induction n with
  | zero =>
    refine ⟨(Within.refl r _ _).store (Nat.le_refl _) (Nat.lt_succ_self _) x, fun i hi => ?_⟩
    obtain rfl := Nat.le_zero.mp hi
    exact Function.update_self _ _ _
  | succ n ih =>
    obtain ⟨hwithin, hmem⟩ := ih
    have heq : r.fill x (n + 1) = (r.fill x n).store (r.state + (n + 1)) (lcg (lcg^[n] x)) := by
      rw [Rng.fill, List.range_succ, List.foldl_append]
      change (r.fill x n).store ((r.fill x n).state + (n + 1))
        (lcg ((r.fill x n).mem ((r.fill x n).state + n))) = _
      rw [hwithin.state, hmem n (Nat.le_refl n)]
    rw [heq, ← Function.iterate_succ_apply' lcg]
    refine ⟨⟨hwithin.state, hwithin.type, hwithin.deg, hwithin.sep, hwithin.endPtr,
      fun p hp => ?_⟩, fun i hi => ?_⟩
    · exact (Function.update_of_ne (by omega) _ _).trans (hwithin.mem p (by omega))
    · rcases Nat.lt_or_eq_of_le hi with hlt | rfl
      · exact (Function.update_of_ne (by omega) _ _).trans (hmem i (Nat.le_of_lt_succ hlt))
      · exact Function.update_self _ _ _

/-- **`srandom_unlocked`** makes the array a generator with the seed. -/
theorem runs_srandom (hs : SetUp r arg t) (ht : t < maxTypes) (x : UInt32) :
    Runs (r.srandomUnlocked x) (.seed t x) ∧
      Within r (r.srandomUnlocked x) (arg + 1) (arg + words t) := by
  have hstate := hs.state
  by_cases h0 : t = 0
  · rw [Rng.srandomUnlocked, if_pos (hs.type.trans h0), Generator.seed, if_pos h0]
    refine ⟨Function.update_self _ _ _, (Within.refl r _ _).store (Nat.le_of_eq hstate.symm) ?_ x⟩
    rw [hstate, words]
    omega
  · obtain ⟨hpos, hlt⟩ := seps_lt h0
    have hwords : words t = 1 + degrees t := by
      rw [words]
      omega
    obtain ⟨hfill, hmem⟩ := fill_spec r x (degrees t - 1)
    rw [hstate, show arg + 1 + (degrees t - 1 + 1) = arg + words t by omega] at hfill
    rw [Rng.srandomUnlocked, if_neg fun h => h0 (hs.type.symm.trans h), Generator.seed, if_neg h0,
      hs.deg]
    dsimp only
    generalize hr' : ({ r.fill x (degrees t - 1) with
      fptr := (r.fill x (degrees t - 1)).state + (r.fill x (degrees t - 1)).randSep
      rptr := (r.fill x (degrees t - 1)).state } : Rng) = r'
    have hwithin : Within r r' (arg + 1) (arg + words t) := by
      rw [← hr']
      exact ⟨hfill.state, hfill.type, hfill.deg, hfill.sep, hfill.endPtr, hfill.mem⟩
    have hruns : Runs r' (.feedback t fun j => lcg^[(seps t + j) % degrees t] x) := by
      rw [← hr']
      have hfront := turn_cases (degrees t) (0 + seps t)
      refine ⟨0, rfl, ?_, ⟨h0, ht⟩, by omega, fun j hj => ?_⟩
      · dsimp only
        rw [hfill.sep, hs.sep]
        omega
      · have hslot := turn_cases (degrees t) (turn (degrees t) (0 + seps t) + j)
        rw [show turn (degrees t) (0 + seps t) + j = seps t + j by omega] at hslot ⊢
        rw [mod_eq_turn (by omega)]
        dsimp only
        rw [hfill.state]
        exact hmem _ (by omega)
    have hdeg : (r.fill x (degrees t - 1)).randDeg = degrees t := hfill.deg.trans hs.deg
    rw [hdeg]
    obtain ⟨hruns', hwithin'⟩ := runs_iterate (hwithin.setUp hs) hruns (10 * degrees t)
    exact ⟨hruns', hwithin.trans hwithin'⟩

theorem Runs.type_lt (h : Runs r g) : g.type < maxTypes := by
  cases g with
  | congruential => exact Nat.zero_lt_succ _
  | feedback t w =>
    obtain ⟨ρ, -, -, hf⟩ := h
    exact hf.type.2

/-- The first word of an array is not part of the generator. -/
theorem Runs.store_first (hs : SetUp r arg g.type) (h : Runs r g) (x : UInt32) :
    Runs (r.store arg x) g := by
  have hstate := hs.state
  cases g with
  | congruential y =>
    refine (Function.update_of_ne ?_ _ _).trans h
    change r.state ≠ arg
    omega
  | feedback t w =>
    obtain ⟨ρ, hrptr, hfptr, hf⟩ := h
    exact ⟨ρ, hrptr, hfptr, hf.congr fun p hp _ => Function.update_of_ne (by omega) _ _⟩

/-- Leaving an array. -/
theorem Runs.rests (hs : SetUp r arg g.type) (h : Runs r g) :
    Rests (r.store arg r.header).mem arg g := by
  have hstate := hs.state
  cases g with
  | congruential x =>
    have hmem : r.mem r.state = x := h
    refine ⟨?_, ?_⟩
    · have htype : r.randType = 0 := hs.type
      rw [Rng.header, if_pos htype]
      exact Function.update_self _ _ _
    · rw [← hmem, hstate]
      exact Function.update_of_ne (Nat.succ_ne_self arg) _ _
  | feedback t w =>
    obtain ⟨ρ, hrptr, -, hf⟩ := h
    have htype : r.randType = t := hs.type
    refine ⟨ρ, ?_, ?_⟩
    · rw [Rng.header, if_neg fun h0 => hf.type.1 (htype.symm.trans h0), hrptr, htype,
        Nat.add_sub_cancel_left]
      exact Function.update_self _ _ _
    · rw [hstate] at hf
      exact hf.congr fun p hp _ => Function.update_of_ne (by omega) _ _

theorem Rests.congr (h : Rests mem arg g)
    (hmem : ∀ p, arg ≤ p → p < arg + words g.type → mem' p = mem p) : Rests mem' arg g := by
  cases g with
  | congruential x =>
    have hwords : words (Generator.congruential x).type = 2 := rfl
    rw [hwords] at hmem
    exact ⟨(hmem arg (by omega) (by omega)).trans h.1,
      (hmem (arg + 1) (by omega) (by omega)).trans h.2⟩
  | feedback t w =>
    obtain ⟨ρ, hheader, hf⟩ := h
    have hwords : words (Generator.feedback t w).type = 1 + max 1 (degrees t) := rfl
    rw [hwords] at hmem
    exact ⟨ρ, (hmem arg (by omega) (by omega)).trans hheader,
      hf.congr fun p hlo hhi => hmem p (by omega) (by omega)⟩

end Steps

end Random

end Os161
