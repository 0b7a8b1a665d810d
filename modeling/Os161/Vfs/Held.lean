import Os161.Kern.Errno
import Os161.Lib.Prog
import Mathlib.Data.Nat.Count
import Mathlib.Data.UInt
import Mathlib.Logic.Function.Basic

/-!
# What a call does to the locks of the file system code

One thread runs through the VFS layer, SFS and emufs. The state is what that thread sees of the
locks: `vfs_biglock`, its depth, and the `e_lock` of each emu device. While the thread waits for
`vfs_biglock` other threads move the depth, but they bring it back to 0 when they let go.

Everything else comes from an environment: what the calls that touch neither lock return, how the
conditions on data come out, how long the arrays are. The theorems quantify over it, so they cover
every path through the code. The outcomes of the `kmalloc` of `emufs_loadvnode` are a list of their
own, and `loads` counts how many of them have been used.

## Main definitions

* `State`, `Env`, `Lk` — the locks, the environment, programs on them
* `vfsBiglockAcquire`, `vfsBiglockRelease`, `lockAcquire`, `lockRelease`
* `Held`, `Nets` — what a thread has taken since some point; what a program adds to that

## Main results

* `nets_acquire`, `nets_release`, `nets_eAcquire`, `nets_eRelease`, `nets_ask` and their kin — one
  rule for each kind of statement
* `Nets.balanced_iff` — when a call that gives back all it takes leaves the depth as it was
-/

namespace Os161

namespace Balance

/-- A vnode, as far as its operations table tells. -/
inductive Vnode where
  /-- `sfs_dirops` or `sfs_fileops`. -/
  | sfs (isdir : Bool)
  /-- `emufs_dirops` or `emufs_fileops`, on the given emu device. -/
  | emufs (sc : ℕ) (isdir : Bool)
  /-- A device's or a semfs's. Their operations touch neither lock. -/
  | other

/-- A mounted file system, as far as its operations table tells. -/
inductive Fs where
  /-- `sfs_fsops`. -/
  | sfs
  /-- `emufs_fsops`, on the given emu device. -/
  | emufs (sc : ℕ)
  /-- A semfs. Its operations touch neither lock. -/
  | other

/-- `kd_fs` of a known device. -/
inductive KdFs where
  /-- `NULL`. -/
  | null
  /-- `SWAP_FS`. -/
  | swap
  /-- A file system. -/
  | fs (f : Fs)

/-- The calls that touch neither lock. -/
inductive Callee where
  | sfsBfree | sfsReadblock | sfsWriteblock | sfsFreemapio | sfsIo | sfsSyncInode | sfsLoadvnode
  | sfsMakeobj | sfsDirFindname | sfsDirLink | sfsDirUnlink | sfsLookonce | sfsFsDestroy
  | emuWaitdone | vnodeInit | vnodeCleanup | vnodearrayAdd | vnodearrayRemove | knowndevarrayAdd
  | devUncreateVnode | otherReclaim | otherGettype | otherLookup | otherLookparent | otherSync
  | otherGetroot | otherUnmount | otherMount

/-- The conditions on data that the code branches on. -/
inductive Test where
  | refcountPositive | refcountIsOne | refcountAboveOne | linkcountZero | linkcountPositive
  | inPool | isDir | isFile | directPast | indirectPast | entryPast | hasnonzero | iddirty
  | readOnly | append | uioRead | uioWrite | sameFs | sameDir | isRoot | tooLong | poolEmpty
  | superDirty | superClean | freemapDirty | freemapClean | wrongBlocksize | wrongMagic | noMemory
  | nameMatches | rawnameMatches | rawnameNull | deviceName | deviceSet | fsSet | colon
  | colonAtEnd | emptyPath | relativePath | colonAfterName | leadingSlash | hasSlash

/-- What the code around the locks may find. An answer depends on the number of questions put
before it. -/
structure Env where
  /-- How a call comes out: it never returns, or returns 0 or an error code. -/
  result : Callee → ℕ → Option (Option Errno)
  /-- How a condition comes out. -/
  test : Test → ℕ → Bool
  /-- The length of an array. -/
  length : ℕ → ℕ
  /-- `sfi_type`, `none` if it is neither a file's nor a directory's; `true` for a directory. -/
  type : ℕ → Option Bool
  /-- A vnode pointer, `none` if it is `NULL`. -/
  vnode : ℕ → Option Vnode
  /-- `kd_fs` of a known device. -/
  kdFs : ℕ → KdFs
  /-- Whether the n-th `kmalloc(sizeof(struct emufs_vnode))` finds memory. -/
  evKmalloc : ℕ → Bool

/-- What a thread sees of the locks, and where it is in the environment. -/
structure State where
  /-- `vfs_biglock_depth`. -/
  depth : UInt32
  /-- `lock_do_i_hold(vfs_biglock)`. -/
  held : Bool
  /-- `lock_do_i_hold(sc->e_lock)`. -/
  eLock : ℕ → Bool
  /-- The questions put to the environment so far. -/
  asked : ℕ
  /-- The `kmalloc`s of a `struct emufs_vnode` so far. -/
  loads : ℕ
  env : Env

/-- Why a run does not return. -/
inductive Stop where
  /-- It waits for a lock it holds itself, or in a call that never returns. -/
  | blocked
  /-- A `KASSERT` failed, or `panic` was called. -/
  | panic
  deriving DecidableEq

/-- The environment stays; the memory it has handed out is not asked for again. -/
def State.growth : Growth State where
  le s t := s.env = t.env ∧ s.loads ≤ t.loads
  refl _ := ⟨rfl, Nat.le_refl _⟩
  trans h h' := ⟨h.1.trans h'.1, h.2.trans h'.2⟩

/-- Programs that take and release the locks. -/
abbrev Lk (α : Type) := Prog State.growth Stop α

/-! ### The locks -/

/-- `KASSERT` of a condition on the locks. -/
def kassert (c : Prop) [Decidable c] : Lk Unit := if c then pure () else Prog.halt .panic

/-- `lock_acquire(vfs_biglock)`. A thread that has the lock waits for itself. -/
def biglockAcquire : Lk Unit := do
  let s ← Prog.get
  if s.held then Prog.halt .blocked
  else Prog.update (fun s => { s with held := true }) fun _ => ⟨rfl, Nat.le_refl _⟩

/-- `vfs_biglock_acquire`. -/
def vfsBiglockAcquire : Lk Unit := do
  let s ← Prog.get
  if !s.held then
    biglockAcquire
  else if s.depth = 0 then
    biglockAcquire
  Prog.update (fun s => { s with depth := s.depth + 1 }) fun _ => ⟨rfl, Nat.le_refl _⟩

/-- `vfs_biglock_release`. -/
def vfsBiglockRelease : Lk Unit := do
  let s ← Prog.get
  kassert (s.held = true)
  kassert (0 < s.depth)
  Prog.update (fun s => { s with depth := s.depth - 1 }) fun _ => ⟨rfl, Nat.le_refl _⟩
  if s.depth - 1 = 0 then
    Prog.update (fun s => { s with held := false }) fun _ => ⟨rfl, Nat.le_refl _⟩

/-- `KASSERT(vfs_biglock_do_i_hold())`. -/
def assertBiglock : Lk Unit := do
  let s ← Prog.get
  kassert (s.held = true)

/-- `lock_do_i_hold(sc->e_lock)`. -/
def lockDoIHold (sc : ℕ) : Lk Bool := do
  let s ← Prog.get
  return s.eLock sc

/-- `lock_acquire(sc->e_lock)`. A thread that has the lock waits for itself. -/
def lockAcquire (sc : ℕ) : Lk Unit := do
  let s ← Prog.get
  if s.eLock sc then Prog.halt .blocked
  else
    Prog.update (fun s => { s with eLock := Function.update s.eLock sc true })
      fun _ => ⟨rfl, Nat.le_refl _⟩

/-- `lock_release(sc->e_lock)`. -/
def lockRelease (sc : ℕ) : Lk Unit := do
  let s ← Prog.get
  kassert (s.eLock sc = true)
  Prog.update (fun s => { s with eLock := Function.update s.eLock sc false })
    fun _ => ⟨rfl, Nat.le_refl _⟩

/-! ### The environment -/

variable {α β : Type}

/-- Put a question to the environment. -/
def ask (f : Env → ℕ → α) : Lk α := do
  let s ← Prog.get
  Prog.update (fun s => { s with asked := s.asked + 1 }) fun _ => ⟨rfl, Nat.le_refl _⟩
  return f s.env s.asked

/-- A call that touches neither lock. -/
def call (c : Callee) : Lk (Option Errno) := do
  match ← ask fun e => e.result c with
  | some r => return r
  | none => Prog.halt .blocked

/-- A call for which there is nothing to return. -/
def exec (c : Callee) : Lk Unit := do
  let _ ← call c

/-- A condition on data. -/
def test (c : Test) : Lk Bool := ask fun e => e.test c

/-- `KASSERT` of a condition on data. -/
def assert (c : Test) : Lk Unit := do
  if ← test c then pure () else Prog.halt .panic

/-- `kmalloc(sizeof(struct emufs_vnode))`: whether it is not `NULL`. -/
def evKmalloc : Lk Bool := do
  let s ← Prog.get
  Prog.update (fun s => { s with loads := s.loads + 1 }) fun _ => ⟨rfl, Nat.le_succ _⟩
  return s.env.evKmalloc s.loads

/-- A call that hands back a vnode of SFS. -/
def load (c : Callee) : Lk (Except Errno Vnode) := do
  match ← call c with
  | some e => return .error e
  | none => return .ok (.sfs (← test .isDir))

/-- `vnode_decref` of `kern/vfs/vnode.c`, `reclaim` being the vnode's `vop_reclaim`. -/
def vnodeDecref (reclaim : Lk (Option Errno)) : Lk Unit := do
  assert .refcountPositive
  if !(← test .refcountAboveOne) then
    let _ ← reclaim

/-- A loop of `n` rounds. -/
def rounds (n : ℕ) (body : Lk Unit) : Lk Unit := (List.range n).foldlM (fun _ _ => body) ()

/-- A loop of at most `n` rounds that returns from within. -/
def search : ℕ → Lk (Option α) → Lk (Option α)
  | 0, _ => pure none
  | n + 1, body => do
      match ← body with
      | some a => return some a
      | none => search n body

/-! ### How the primitives end -/

variable {s t : State} {a : α}

theorem kassert_done {c : Prop} [Decidable c] {u : Unit} (h : (kassert c).run s = .done u t) :
    c ∧ t = s := by
  unfold kassert at h
  split at h
  · cases h
    exact ⟨‹c›, rfl⟩
  · cases h

theorem biglockAcquire_done {u : Unit} (h : biglockAcquire.run s = .done u t) :
    t = { s with held := true } := by
  obtain ⟨_, _, hget, h⟩ := Prog.run_bind_eq_done.mp h
  cases hget
  split at h
  · cases h
  · cases h
    rfl

theorem vfsBiglockAcquire_done {u : Unit} (h : vfsBiglockAcquire.run s = .done u t) :
    t = { s with held := true, depth := s.depth + 1 } := by
  obtain ⟨_, _, hget, h⟩ := Prog.run_bind_eq_done.mp h
  cases hget
  split at h
  · obtain ⟨_, r, hr, h⟩ := Prog.run_bind_eq_done.mp h
    cases h
    rw [biglockAcquire_done hr]
  · next hheld =>
    split at h
    · obtain ⟨_, r, hr, h⟩ := Prog.run_bind_eq_done.mp h
      cases h
      rw [biglockAcquire_done hr]
    · cases h
      have hs : s.held = true := by simpa using hheld
      rw [← hs]

theorem vfsBiglockRelease_done {u : Unit} (h : vfsBiglockRelease.run s = .done u t) :
    ∃ b, t = { s with held := b, depth := s.depth - 1 } := by
  obtain ⟨_, _, hget, h⟩ := Prog.run_bind_eq_done.mp h
  cases hget
  obtain ⟨_, r, hr, h⟩ := Prog.run_bind_eq_done.mp h
  obtain ⟨-, rfl⟩ := kassert_done hr
  obtain ⟨_, r', hr, h⟩ := Prog.run_bind_eq_done.mp h
  obtain ⟨-, rfl⟩ := kassert_done hr
  obtain ⟨_, r'', hr, h⟩ := Prog.run_bind_eq_done.mp h
  cases hr
  split at h
  · cases h
    exact ⟨false, rfl⟩
  · cases h
    exact ⟨_, rfl⟩

theorem lockAcquire_done {sc : ℕ} {u : Unit} (h : (lockAcquire sc).run s = .done u t) :
    s.eLock sc = false ∧ t = { s with eLock := Function.update s.eLock sc true } := by
  obtain ⟨_, _, hget, h⟩ := Prog.run_bind_eq_done.mp h
  cases hget
  split at h
  · cases h
  · next hsc =>
    cases h
    exact ⟨by simpa using hsc, rfl⟩

theorem lockRelease_done {sc : ℕ} {u : Unit} (h : (lockRelease sc).run s = .done u t) :
    t = { s with eLock := Function.update s.eLock sc false } := by
  obtain ⟨_, _, hget, h⟩ := Prog.run_bind_eq_done.mp h
  cases hget
  obtain ⟨_, r, hr, hend⟩ := Prog.run_bind_eq_done.mp h
  obtain ⟨-, rfl⟩ := kassert_done hr
  cases hend
  rfl

/-! ### What a program adds -/

/-- How many `kmalloc`s of a `struct emufs_vnode` have failed so far. -/
def State.missed (s : State) : ℕ := Nat.count (fun n => s.env.evKmalloc n = false) s.loads

/-- The depth without the acquires that failed `kmalloc`s have left behind. -/
def State.level (s : State) : UInt32 := s.depth - UInt32.ofNat s.missed

/-- What a thread has taken and not given back since some point: how often `vfs_biglock`, and the
`e_lock` of which device. -/
structure Held where
  depth : ℕ
  eLock : Option ℕ

/-- Nothing. -/
def Held.nothing : Held := ⟨0, none⟩

/-- The locks of a thread that came with the level `L` and the locks `E`. -/
structure Held.At (p : Held) (L : UInt32) (E : ℕ → Bool) (s : State) : Prop where
  level : s.level = L + UInt32.ofNat p.depth
  eLock : match p.eLock with
    | none => s.eLock = E
    | some sc => E sc = false ∧ s.eLock = Function.update E sc true

/-- A thread that has `p` and runs `x` to its end has `q` then, and at most `l` more `kmalloc`s of
a `struct emufs_vnode` have been made. -/
def Nets (l : ℕ) (p q : Held) (x : Lk α) : Prop :=
  ∀ L E s a t, p.At L E s → x.run s = .done a t → q.At L E t ∧ t.loads ≤ s.loads + l

variable {l k n : ℕ} {m : Option ℕ} {p q r : Held} {x y : Lk α} {f : α → Lk β}

theorem nets_pure : Nets l p p (pure a) := by
  intro L E s a t hp h
  cases h
  exact ⟨hp, Nat.le_add_right _ _⟩

theorem nets_halt {e : Stop} : Nets l p q (Prog.halt e : Lk α) := by
  intro L E s a t hp h
  cases h

theorem nets_panic {e : Stop} : Nets l p q (Prog.halt e >>= f) := by
  intro L E s a t hp h
  cases h

/-- A program that makes no `kmalloc`, and then the rest. -/
theorem nets_seq (hx : Nets 0 p q x) (hf : ∀ a, Nets l q r (f a)) : Nets l p r (x >>= f) := by
  intro L E s b u hp h
  obtain ⟨a, t, ht, hu⟩ := Prog.run_bind_eq_done.mp h
  obtain ⟨hq, hl⟩ := hx L E s a t hp ht
  obtain ⟨hr, hl'⟩ := hf a L E t b u hq hu
  exact ⟨hr, by omega⟩

/-- The same where the rest makes none. -/
theorem nets_seq_load (hx : Nets l p q x) (hf : ∀ a, Nets 0 q r (f a)) : Nets l p r (x >>= f) := by
  intro L E s b u hp h
  obtain ⟨a, t, ht, hu⟩ := Prog.run_bind_eq_done.mp h
  obtain ⟨hq, hl⟩ := hx L E s a t hp ht
  obtain ⟨hr, hl'⟩ := hf a L E t b u hq hu
  exact ⟨hr, by omega⟩

theorem nets_ite {c : Prop} [Decidable c] (hx : Nets l p q x) (hy : Nets l p q y) :
    Nets l p q (if c then x else y) := by
  split
  · exact hx
  · exact hy

theorem Nets.mono (hx : Nets n p q x) (h : n ≤ l) : Nets l p q x := by
  intro L E s a t hp ht
  obtain ⟨hq, hl⟩ := hx L E s a t hp ht
  exact ⟨hq, by omega⟩

/-- A change that touches neither the locks nor the count of `kmalloc`s. -/
theorem Held.At.congr {L : UInt32} {E : ℕ → Bool} (h : p.At L E s) (hdepth : t.depth = s.depth)
    (heLock : t.eLock = s.eLock) (hloads : t.loads = s.loads) (henv : t.env = s.env) :
    p.At L E t where
  level := by
    rw [← h.level, State.level, State.level, State.missed, State.missed, hdepth, hloads, henv]
  eLock := by
    rw [heLock]
    exact h.eLock

/-! ### One rule for each kind of statement -/

theorem nets_acquire {f : Unit → Lk β} (hf : Nets l ⟨k + 1, m⟩ q (f ())) :
    Nets l ⟨k, m⟩ q (vfsBiglockAcquire >>= f) := by
  refine nets_seq (q := ⟨k + 1, m⟩) ?_ fun _ => hf
  intro L E s a t hp h
  obtain rfl := vfsBiglockAcquire_done h
  refine ⟨⟨?_, hp.eLock⟩, Nat.le_refl _⟩
  have hlevel : s.depth - UInt32.ofNat s.missed = L + UInt32.ofNat k := hp.level
  change s.depth + 1 - UInt32.ofNat s.missed = L + UInt32.ofNat (k + 1)
  rw [UInt32.ofNat_add, ← add_assoc, ← hlevel]
  exact add_sub_right_comm s.depth 1 _

theorem nets_release {f : Unit → Lk β} (hf : Nets l ⟨k, m⟩ q (f ())) :
    Nets l ⟨k + 1, m⟩ q (vfsBiglockRelease >>= f) := by
  refine nets_seq (q := ⟨k, m⟩) ?_ fun _ => hf
  intro L E s a t hp h
  obtain ⟨b, rfl⟩ := vfsBiglockRelease_done h
  refine ⟨⟨?_, hp.eLock⟩, Nat.le_refl _⟩
  have hlevel : s.depth - UInt32.ofNat s.missed = L + UInt32.ofNat (k + 1) := hp.level
  change s.depth - 1 - UInt32.ofNat s.missed = L + UInt32.ofNat k
  rw [UInt32.ofNat_add, ← add_assoc] at hlevel
  rw [sub_right_comm, hlevel]
  exact add_sub_cancel_right _ 1

theorem nets_eAcquire {sc : ℕ} {f : Unit → Lk β} (hf : Nets l ⟨k, some sc⟩ q (f ())) :
    Nets l ⟨k, none⟩ q (lockAcquire sc >>= f) := by
  refine nets_seq (q := ⟨k, some sc⟩) ?_ fun _ => hf
  intro L E s a t hp h
  obtain ⟨hfree, rfl⟩ := lockAcquire_done h
  have hE : s.eLock = E := hp.eLock
  exact ⟨⟨hp.level, by rw [← hE]; exact hfree, by rw [hE]⟩, Nat.le_refl _⟩

theorem nets_eRelease {sc : ℕ} {f : Unit → Lk β} (hf : Nets l ⟨k, none⟩ q (f ())) :
    Nets l ⟨k, some sc⟩ q (lockRelease sc >>= f) := by
  refine nets_seq (q := ⟨k, none⟩) ?_ fun _ => hf
  intro L E s a t hp h
  obtain rfl := lockRelease_done h
  obtain ⟨hfree, heLock⟩ : E sc = false ∧ s.eLock = Function.update E sc true := hp.eLock
  refine ⟨⟨hp.level, ?_⟩, Nat.le_refl _⟩
  change Function.update s.eLock sc false = E
  rw [heLock, Function.update_idem, ← hfree, Function.update_eq_self]

/-- A thread that has an `e_lock` is told so. -/
theorem nets_mine {sc : ℕ} {f : Bool → Lk β} (hf : Nets l ⟨k, some sc⟩ q (f true)) :
    Nets l ⟨k, some sc⟩ q (lockDoIHold sc >>= f) := by
  intro L E s b u hp h
  obtain ⟨_, _, hget, hend⟩ := Prog.run_bind_eq_done.mp h
  cases hget
  have heLock : s.eLock = Function.update E sc true := hp.eLock.2
  rw [heLock, Function.update_self] at hend
  exact hf L E s b u hp hend

theorem nets_get {f : State → Lk β} (hf : ∀ s, Nets l p q (f s)) :
    Nets l p q (Prog.get >>= f) :=
  fun L E s b u hp h => hf s L E s b u hp h

theorem nets_ask {g : Env → ℕ → α} (hf : ∀ a, Nets l p q (f a)) : Nets l p q (ask g >>= f) := by
  refine nets_seq (q := p) ?_ hf
  intro L E s a t hp h
  cases h
  exact ⟨hp.congr rfl rfl rfl rfl, Nat.le_refl _⟩

theorem nets_test {c : Test} {f : Bool → Lk β} (hf : ∀ b, Nets l p q (f b)) :
    Nets l p q (test c >>= f) :=
  nets_ask hf

theorem nets_call_last {c : Callee} : Nets l p p (call c) := by
  refine nets_ask fun r => ?_
  cases r with
  | none => exact nets_halt
  | some r => exact nets_pure

theorem nets_call {c : Callee} {f : Option Errno → Lk β} (hf : ∀ r, Nets l p q (f r)) :
    Nets l p q (call c >>= f) :=
  nets_seq nets_call_last hf

theorem nets_exec_last {c : Callee} : Nets l p p (exec c) := nets_call fun _ => nets_pure

theorem nets_exec {c : Callee} {f : Unit → Lk β} (hf : Nets l p q (f ())) :
    Nets l p q (exec c >>= f) :=
  nets_seq nets_exec_last fun _ => hf

theorem nets_assert {c : Test} {f : Unit → Lk β} (hf : Nets l p q (f ())) :
    Nets l p q (assert c >>= f) :=
  nets_seq (nets_test fun _ => nets_ite nets_pure nets_halt) fun _ => hf

theorem nets_assertBiglock {f : Unit → Lk β} (hf : Nets l p q (f ())) :
    Nets l p q (assertBiglock >>= f) :=
  nets_seq (nets_get fun _ => nets_ite nets_pure nets_halt) fun _ => hf

/-- The `kmalloc` that fails takes one acquire with it. -/
theorem nets_evKmalloc {f : Bool → Lk β} (htrue : Nets 0 ⟨k + 1, m⟩ q (f true))
    (hfalse : Nets 0 ⟨k, m⟩ q (f false)) : Nets 1 ⟨k + 1, m⟩ q (evKmalloc >>= f) := by
  intro L E s b u hp h
  obtain ⟨a, t, ht, hend⟩ := Prog.run_bind_eq_done.mp h
  cases ht
  have hlevel : s.depth - UInt32.ofNat s.missed = L + UInt32.ofNat (k + 1) := hp.level
  cases hev : s.env.evKmalloc s.loads with
  | true =>
    rw [hev] at hend
    have hat : Held.At ⟨k + 1, m⟩ L E { s with loads := s.loads + 1 } := by
      refine ⟨?_, hp.eLock⟩
      change s.depth - UInt32.ofNat (Nat.count _ (s.loads + 1)) = _
      rw [Nat.count_succ, if_neg (by simp [hev]), add_zero]
      exact hlevel
    exact htrue L E _ b u hat hend
  | false =>
    rw [hev] at hend
    have hat : Held.At ⟨k, m⟩ L E { s with loads := s.loads + 1 } := by
      refine ⟨?_, hp.eLock⟩
      change s.depth - UInt32.ofNat (Nat.count _ (s.loads + 1)) = L + UInt32.ofNat k
      rw [Nat.count_succ, if_pos hev, UInt32.ofNat_add, ← sub_sub]
      change s.depth - UInt32.ofNat s.missed - 1 = _
      rw [hlevel, UInt32.ofNat_add, ← add_assoc]
      exact add_sub_cancel_right _ 1
    exact hfalse L E _ b u hat hend

theorem nets_load {c : Callee} {f : Except Errno Vnode → Lk β} (hf : ∀ r, Nets l p q (f r)) :
    Nets l p q (load c >>= f) := by
  refine nets_seq (nets_call fun r => ?_) hf
  cases r with
  | none => exact nets_test fun _ => nets_pure
  | some e => exact nets_pure

theorem nets_decref {reclaim : Lk (Option Errno)} {f : Unit → Lk β} (hx : Nets 0 p p reclaim)
    (hf : Nets l p q (f ())) : Nets l p q (vnodeDecref reclaim >>= f) := by
  refine nets_seq (nets_assert (nets_test fun _ => nets_ite ?_ nets_pure)) fun _ => hf
  exact nets_seq hx fun _ => nets_pure

/-- Every round gives back what it takes. -/
theorem nets_rounds {n : ℕ} {body : Lk Unit} {f : Unit → Lk β} (hbody : Nets 0 p p body)
    (hf : Nets l p q (f ())) : Nets l p q (rounds n body >>= f) := by
  refine nets_seq (q := p) ?_ fun _ => hf
  unfold rounds
  induction List.range n with
  | nil => exact nets_pure
  | cons i is ih =>
    rw [List.foldlM_cons]
    exact nets_seq hbody fun _ => ih

theorem nets_search {n : ℕ} {body : Lk (Option α)} {f : Option α → Lk β}
    (hbody : Nets 0 p p body) (hf : ∀ r, Nets l p q (f r)) :
    Nets l p q (search n body >>= f) := by
  refine nets_seq (q := p) ?_ hf
  induction n with
  | zero => exact nets_pure
  | succ n ih =>
    refine nets_seq hbody fun r => ?_
    cases r with
    | none => exact ih
    | some a => exact nets_pure

/-! ### A whole call -/

/-- The count of failures stays exactly where nothing fails. -/
theorem missed_eq_iff (henv : t.env = s.env) (hle : s.loads ≤ t.loads) :
    t.missed = s.missed ↔ ∀ n, s.loads ≤ n → n < t.loads → s.env.evKmalloc n = true := by
  unfold State.missed
  rw [henv]
  constructor
  · intro heq n hn hlt
    by_contra hev
    have hfail : s.env.evKmalloc n = false := by simpa using hev
    have hmono := Nat.count_monotone (fun n => s.env.evKmalloc n = false) hn
    have hstrict := Nat.count_strict_mono (p := fun n => s.env.evKmalloc n = false) hfail hlt
    omega
  · intro hall
    obtain ⟨d, hd⟩ := Nat.exists_eq_add_of_le hle
    rw [hd, Nat.count_add, Nat.add_eq_left]
    refine Nat.count_of_forall_not fun i hi => ?_
    rw [hall (s.loads + i) (by omega) (by omega)]
    simp

/-- A call that gives back all it takes has the level and the `e_lock`s it came with. -/
theorem Nets.at_end (hx : Nets l .nothing .nothing x) (h : x.run s = .done a t) :
    t.level = s.level ∧ t.eLock = s.eLock ∧ t.loads ≤ s.loads + l := by
  have hs : Held.nothing.At s.level s.eLock s := ⟨(add_zero _).symm, rfl⟩
  obtain ⟨ht, hl⟩ := hx _ _ s a t hs h
  exact ⟨ht.level.trans (add_zero _), ht.eLock, hl⟩

/-- **The balance of a call** that gives back all it takes and makes at most one `kmalloc` of a
`struct emufs_vnode`: the depth is as it was exactly when none of these failed. -/
theorem Nets.depth_eq_iff (hx : Nets 1 .nothing .nothing x) (h : x.run s = .done a t) :
    t.depth = s.depth ↔ ∀ n, s.loads ≤ n → n < t.loads → s.env.evKmalloc n = true := by
  obtain ⟨hlevel, -, hloads⟩ := hx.at_end h
  have hgrows := x.grows s
  rw [h] at hgrows
  obtain ⟨henv, hle⟩ : s.env = t.env ∧ s.loads ≤ t.loads := hgrows
  rw [← missed_eq_iff henv.symm hle]
  have hdepth : t.depth - UInt32.ofNat t.missed = s.depth - UInt32.ofNat s.missed := hlevel
  constructor
  · intro heq
    -- at most one more failure, and one alone would move the depth
    have hmono : s.missed ≤ t.missed := by
      unfold State.missed
      rw [← henv]
      exact Nat.count_monotone _ hle
    have hone : t.missed ≤ s.missed + 1 := by
      unfold State.missed
      rw [← henv]
      refine (Nat.count_monotone _ hloads).trans ?_
      rw [Nat.count_succ]
      split <;> omega
    rw [heq, sub_right_inj] at hdepth
    rcases Nat.lt_or_eq_of_le hmono with hlt | heq'
    · have hsucc : t.missed = s.missed + 1 := by omega
      rw [hsucc, UInt32.ofNat_add] at hdepth
      simp at hdepth
    · exact heq'.symm
  · intro heq
    rwa [heq, sub_left_inj] at hdepth

end Balance

end Os161
