import Os161.Kern.Errno
import Os161.Lib.Memory
import Mathlib.Data.List.Range
import Mathlib.Order.Interval.Set.LinearOrder
import Mathlib.Algebra.GroupWithZero.Nat

/-!
# Copying between the user and the kernel

`kern/vm/copyinout.c`. A pointer from the user may be anything. `copycheck` looks at the last byte
of the block, `userptr + len - 1`, and at nothing else, with arithmetic modulo 2^32. For a block of
no bytes that is the byte before it.

The two sides are two memories: what is at the user's addresses, and what is at the kernel's. A
fault on a page the user does not have ends a copy wherever it is (`copyfail` and `longjmp`); which
addresses do that is a parameter.

## Main results

* `Copyinout.copycheck_exact_iff` — the check is exact except for empty blocks, and for where
  `stoplen` points when the block wraps
* `Copyinout.copystr_law` — strings are copied up to their end, or up to one of the two limits
-/

namespace Os161

namespace Copyinout

/-- `USERSPACETOP`. -/
def userspacetop : UInt32 := 0x80000000

theorem toNat_userspacetop : userspacetop.toNat = 2 ^ 31 := rfl

/-! ### The code -/

/-- `copycheck`: what it returns, and `stoplen`. -/
def copycheck (userptr len : UInt32) : Option Errno × UInt32 :=
  let bot := userptr
  let top := bot + len - 1
  if top < bot then (some .efault, len)
  else if bot ≥ userspacetop then (some .efault, len)
  else if top ≥ userspacetop then (none, userspacetop - bot)
  else (none, len)

/-- The first byte of a block of the user that faults. -/
def firstFault (faults : UInt32 → Bool) (userptr len : UInt32) : Option ℕ :=
  (List.range len.toNat).find? fun i => faults (userptr + UInt32.ofNat i)

/-- `memcpy` between the user's `userptr` and the kernel, which ends at the first byte that
faults. -/
def memcpyUser (faults : UInt32 → Bool) (userptr : UInt32) (into source : Memory)
    (dst src len : UInt32) : Option Errno × Memory :=
  match firstFault faults userptr len with
  | none => (none, into.copy source dst src len)
  | some i => (some .efault, into.copy source dst src (UInt32.ofNat i))

/-- `copyin`: what it returns, and the memory of the kernel. -/
def copyin (faults : UInt32 → Bool) (user kern : Memory) (usersrc dest len : UInt32) :
    Option Errno × Memory :=
  match copycheck usersrc len with
  | (some e, _) => (some e, kern)
  | (none, stoplen) =>
    if stoplen ≠ len then (some .efault, kern)
    else memcpyUser faults usersrc kern user dest usersrc len

/-- `copyout`: what it returns, and the memory of the user. -/
def copyout (faults : UInt32 → Bool) (user kern : Memory) (src userdest len : UInt32) :
    Option Errno × Memory :=
  match copycheck userdest len with
  | (some e, _) => (some e, user)
  | (none, stoplen) =>
    if stoplen ≠ len then (some .efault, user)
    else memcpyUser faults userdest user kern userdest src len

/-! ### The check -/

/-- What `copycheck` does with a block of some bytes. -/
theorem copycheck_cases {p len : UInt32} (hlen : len ≠ 0) :
    (2 ^ 32 < p.toNat + len.toNat ∧ copycheck p len = (some .efault, len)) ∨
    (p.toNat + len.toNat ≤ 2 ^ 32 ∧ 2 ^ 31 ≤ p.toNat ∧ copycheck p len = (some .efault, len)) ∨
    (p.toNat + len.toNat ≤ 2 ^ 32 ∧ p.toNat < 2 ^ 31 ∧ 2 ^ 31 < p.toNat + len.toNat ∧
      ∃ stoplen : UInt32, stoplen.toNat = 2 ^ 31 - p.toNat ∧ copycheck p len = (none, stoplen)) ∨
    (p.toNat + len.toNat ≤ 2 ^ 31 ∧ copycheck p len = (none, len)) := by
  have hpos : 0 < len.toNat := Nat.pos_of_ne_zero fun h => hlen (UInt32.toNat_inj.mp h)
  have hp := p.toNat_lt
  have hl := len.toNat_lt
  have htop : (p + len - 1).toNat = (p.toNat + len.toNat - 1) % 2 ^ 32 := by
    rw [UInt32.toNat_sub, UInt32.toNat_add, UInt32.toNat_one]
    omega
  unfold copycheck
  dsimp only
  by_cases hwrap : p + len - 1 < p
  · rw [if_pos hwrap]
    rw [UInt32.lt_iff_toNat_lt, htop] at hwrap
    exact .inl ⟨by omega, rfl⟩
  · rw [if_neg hwrap]
    rw [UInt32.lt_iff_toNat_lt, htop] at hwrap
    by_cases hbot : p ≥ userspacetop
    · rw [if_pos hbot]
      rw [ge_iff_le, UInt32.le_iff_toNat_le, toNat_userspacetop] at hbot
      exact .inr (.inl ⟨by omega, hbot, rfl⟩)
    · rw [if_neg hbot]
      rw [ge_iff_le, UInt32.le_iff_toNat_le, toNat_userspacetop] at hbot
      by_cases hover : p + len - 1 ≥ userspacetop
      · rw [if_pos hover]
        rw [ge_iff_le, UInt32.le_iff_toNat_le, toNat_userspacetop, htop] at hover
        refine .inr (.inr (.inl ⟨by omega, by omega, by omega, userspacetop - p, ?_, rfl⟩))
        rw [UInt32.toNat_sub, toNat_userspacetop]
        omega
      · rw [if_neg hover]
        rw [ge_iff_le, UInt32.le_iff_toNat_le, toNat_userspacetop, htop] at hover
        exact .inr (.inr (.inr ⟨by omega, rfl⟩))

/-- An empty block is refused. Its end is the byte before it, which for address 0 is the last byte
of all, so that `stoplen` becomes the whole of the user's memory. -/
theorem copycheck_empty (p : UInt32) :
    copycheck p 0 = if p = 0 then (none, userspacetop) else (some .efault, 0) := by
  unfold copycheck
  dsimp only
  by_cases hp : p = 0
  · subst hp
    rfl
  · have hpos : 0 < p.toNat := Nat.pos_of_ne_zero fun h => hp (UInt32.toNat_inj.mp h)
    have hlt := p.toNat_lt
    rw [if_neg hp, if_pos]
    rw [UInt32.lt_iff_toNat_lt, UInt32.add_zero, UInt32.toNat_sub, UInt32.toNat_one]
    omega

/-! ### Blocks -/

/-- The block is in the user's part of the address space. -/
def InUser (p len : UInt32) : Prop :=
  Set.Ico p.toNat (p.toNat + len.toNat) ⊆ Set.Ico 0 userspacetop.toNat ∧
    p.toNat ≤ userspacetop.toNat

theorem inUser_iff {p len : UInt32} : InUser p len ↔ p.toNat + len.toNat ≤ 2 ^ 31 := by
  unfold InUser
  rw [toNat_userspacetop]
  constructor
  · rintro ⟨hsub, hp⟩
    rcases Nat.eq_zero_or_pos len.toNat with h0 | hpos
    · omega
    · exact ((Set.Ico_subset_Ico_iff (by omega)).mp hsub).2
  · intro h
    exact ⟨Set.Ico_subset_Ico (Nat.zero_le _) h, by omega⟩

/-- The bytes of the block, and no others, are those of the source. -/
def Copied (before after source : Memory) (dst src len : UInt32) : Prop :=
  (∀ k < len, after (dst + k) = source (src + k)) ∧ ∀ x, ¬ x - dst < len → after x = before x

/-- What is expected of a block, with a result and a memory after it. -/
def Exact (p len : UInt32) (out : Option Errno × Memory) (before source : Memory)
    (dst src : UInt32) : Prop :=
  (out.1 = some .efault ↔ ¬ InUser p len) ∧
    (InUser p len → out.1 = none ∧ Copied before out.2 source dst src len)

/-- What is expected of `stoplen`. -/
def StopsAtTop (p len : UInt32) : Prop :=
  (copycheck p len).2 ≠ len ↔
    p.toNat < userspacetop.toNat ∧ userspacetop.toNat < p.toNat + len.toNat

variable {faults : UInt32 → Bool} {user kern : Memory} {p k len : UInt32}

/-- No byte of the user's memory faults. -/
def Accessible (faults : UInt32 → Bool) : Prop :=
  ∀ a, a.toNat < userspacetop.toNat → faults a = false

theorem memcpyUser_of_inUser (hacc : Accessible faults) (h : InUser p len) (into source : Memory)
    (dst src : UInt32) :
    memcpyUser faults p into source dst src len = (none, into.copy source dst src len) := by
  have hnone : firstFault faults p len = none := by
    refine List.find?_eq_none.mpr fun i hi => ?_
    have hlt : i < len.toNat := List.mem_range.mp hi
    have hend := inUser_iff.mp h
    rw [hacc]
    · decide
    · rw [UInt32.toNat_add, UInt32.toNat_ofNat', toNat_userspacetop]
      omega
  rw [memcpyUser, hnone]

/-- Both copies go through the same check, and then copy the block. -/
def checked (faults : UInt32 → Bool) (p len : UInt32) (into source : Memory) (dst src : UInt32) :
    Option Errno × Memory :=
  match copycheck p len with
  | (some e, _) => (some e, into)
  | (none, stoplen) =>
    if stoplen ≠ len then (some .efault, into) else memcpyUser faults p into source dst src len

theorem checked_exact_of_ne_zero (hacc : Accessible faults) (hlen : len ≠ 0) (into source : Memory)
    (dst src : UInt32) :
    Exact p len (checked faults p len into source dst src) into source dst src := by
  have hrefused : ¬ InUser p len → checked faults p len into source dst src = (some .efault, into) →
      Exact p len (checked faults p len into source dst src) into source dst src := by
    intro hout hrun
    rw [hrun]
    exact ⟨⟨fun _ => hout, fun _ => rfl⟩, fun h => absurd h hout⟩
  rcases copycheck_cases (p := p) hlen with ⟨hend, hrun⟩ | ⟨hend, hp, hrun⟩ |
    ⟨hend, hp, hover, stoplen, hstop, hrun⟩ | ⟨hend, hrun⟩
  · refine hrefused (inUser_iff.not.mpr (by omega)) ?_
    rw [checked, hrun]
  · have hpos : 0 < len.toNat := Nat.pos_of_ne_zero fun h => hlen (UInt32.toNat_inj.mp h)
    refine hrefused (inUser_iff.not.mpr (by omega)) ?_
    rw [checked, hrun]
  · refine hrefused (inUser_iff.not.mpr (by omega)) ?_
    have hne : stoplen ≠ len := by
      rintro rfl
      omega
    rw [checked, hrun]
    exact if_pos hne
  · have hin := inUser_iff.mpr hend
    have hall : checked faults p len into source dst src =
        (none, into.copy source dst src len) := by
      rw [checked, hrun]
      exact (if_neg (not_not.mpr rfl)).trans (memcpyUser_of_inUser hacc hin into source dst src)
    rw [hall]
    refine ⟨⟨(fun he => nomatch he), fun hout => absurd hin hout⟩, fun _ => ⟨rfl, ?_, ?_⟩⟩
    · exact fun k hk => Memory.copy_add hk
    · exact fun x hx => Memory.copy_of_out hx

/-- An empty block is never copied. -/
theorem checked_empty (into source : Memory) (dst src : UInt32) :
    checked faults p 0 into source dst src = (some .efault, into) := by
  rw [checked, copycheck_empty]
  by_cases hp : p = 0
  · rw [if_pos hp]
    exact if_pos (by decide)
  · rw [if_neg hp]

theorem checked_exact_iff (hacc : Accessible faults) (into source : Memory) (dst src : UInt32) :
    Exact p len (checked faults p len into source dst src) into source dst src ↔
      len ≠ 0 ∨ 2 ^ 31 < p.toNat := by
  by_cases hlen : len = 0
  · subst hlen
    rw [checked_empty]
    have hin : InUser p 0 ↔ p.toNat ≤ 2 ^ 31 := inUser_iff
    constructor
    · intro h
      exact .inr (not_le.mp (hin.not.mp (h.1.mp rfl)))
    · rintro (h | h)
      · exact absurd rfl h
      · have hout := hin.not.mpr (not_le.mpr h)
        exact ⟨⟨fun _ => hout, fun _ => rfl⟩, fun hin => absurd hin hout⟩
  · exact iff_of_true (checked_exact_of_ne_zero hacc hlen into source dst src) (.inl hlen)

theorem stopsAtTop_iff : StopsAtTop p len ↔
    ¬ (len = 0 ∧ p = 0) ∧ ¬ (p.toNat < 2 ^ 31 ∧ 2 ^ 32 < p.toNat + len.toNat) := by
  unfold StopsAtTop
  rw [toNat_userspacetop]
  by_cases hlen : len = 0
  · subst hlen
    have hp := p.toNat_lt
    rw [copycheck_empty, UInt32.toNat_zero]
    by_cases hzero : p = 0
    · subst hzero
      rw [if_pos rfl, UInt32.toNat_zero]
      refine iff_of_false (fun h => ?_) (fun h => h.1 ⟨rfl, rfl⟩)
      have hover := (h.mp (by decide)).2
      omega
    · rw [if_neg hzero]
      refine iff_of_true ⟨fun h => absurd rfl h, fun h => ?_⟩ ⟨fun h => hzero h.2, fun h => ?_⟩
      · omega
      · omega
  · have hpos : 0 < len.toNat := Nat.pos_of_ne_zero fun h => hlen (UInt32.toNat_inj.mp h)
    rcases copycheck_cases (p := p) hlen with ⟨hend, hrun⟩ | ⟨hend, hp, hrun⟩ |
      ⟨hend, hp, hover, stoplen, hstop, hrun⟩ | ⟨hend, hrun⟩
    · rw [hrun]
      simp only [ne_eq, not_true_eq_false, false_iff, hlen, false_and, not_false_eq_true,
        true_and]
      omega
    · rw [hrun]
      simp only [ne_eq, not_true_eq_false, false_iff, hlen, false_and, not_false_eq_true,
        true_and]
      omega
    · rw [hrun]
      have hne : stoplen ≠ len := by
        rintro rfl
        omega
      simp only [ne_eq, hne, not_false_eq_true, true_iff, hlen, false_and, true_and]
      omega
    · rw [hrun]
      simp only [ne_eq, not_true_eq_false, false_iff, hlen, false_and, not_false_eq_true,
        true_and]
      omega

/-- **The check of a block of the user is exact** for `copyin`, `copyout` and `stoplen`, if and only
if the block is not empty (or starts past the user's memory), and does not go from the user's memory
past the end of the address space. -/
theorem copycheck_exact_iff (faults : UInt32 → Bool) (hacc : Accessible faults) (user kern : Memory)
    (p ptr len : UInt32) :
    (Exact p len (copyin faults user kern p ptr len) kern user ptr p ∧
      Exact p len (copyout faults user kern ptr p len) user kern p ptr ∧ StopsAtTop p len) ↔
    (len ≠ 0 ∨ 2 ^ 31 < p.toNat) ∧ ¬ (p.toNat < 2 ^ 31 ∧ 2 ^ 32 < p.toNat + len.toNat) := by
  have hin : Exact p len (copyin faults user kern p ptr len) kern user ptr p ↔
      len ≠ 0 ∨ 2 ^ 31 < p.toNat := checked_exact_iff hacc kern user ptr p
  have hout : Exact p len (copyout faults user kern ptr p len) user kern p ptr ↔
      len ≠ 0 ∨ 2 ^ 31 < p.toNat := checked_exact_iff hacc user kern p ptr
  rw [hin, hout, stopsAtTop_iff]
  constructor
  · rintro ⟨hlen, -, -, hwrap⟩
    exact ⟨hlen, hwrap⟩
  · rintro ⟨hlen, hwrap⟩
    refine ⟨hlen, hlen, ?_, hwrap⟩
    rintro ⟨rfl, rfl⟩
    rcases hlen with h | h
    · exact h rfl
    · exact absurd h (by decide)

theorem copycheck_exact_iff_block :
    Exact 0x400000 16 (copyin (fun a => decide (userspacetop ≤ a)) (fun _ => 1) (fun _ => 0)
      0x400000 0x80001000 16) (fun _ => 0) (fun _ => 1) 0x80001000 0x400000 := by
  refine ((copycheck_exact_iff (fun a => decide (userspacetop ≤ a)) (fun a ha => ?_) (fun _ => 1)
    (fun _ => 0) 0x400000 0x80001000 16).mpr ⟨.inl (by decide), by decide⟩).1
  refine decide_eq_false ?_
  rw [UInt32.le_iff_toNat_le]
  exact not_le.mpr ha

/-- An empty block in the user's memory is refused, and `stoplen` is the length of a block that goes
past the end of the address space. -/
theorem not_copycheck_exact : ¬ Exact 0x400000 0 (copyin (fun _ => false) (fun _ => 1) (fun _ => 0)
      0x400000 0x80001000 0) (fun _ => 0) (fun _ => 1) 0x80001000 0x400000 ∧
    ¬ StopsAtTop 0x400000 0xffffffff := by
  constructor
  · intro h
    exact absurd (h.2 (inUser_iff.mpr (by decide))).1 (by decide)
  · intro h
    exact absurd (h.mpr (by decide)) (by decide)

/-! ### Strings -/

/-- How a copy of a string ends: the result, the memory of the destination, what is stored in
`gotlen`, and the addresses that were read and written. -/
structure StrOut where
  result : Option Errno
  mem : Memory
  gotlen : Option ℕ
  reads : List UInt32
  writes : List UInt32

/-- The arguments of `copystr` that its loop does not change: which of the user's bytes fault, the
user's pointer, the memory of the source, the two pointers, and whether `gotlen` is not null. -/
structure StrArgs where
  faults : UInt32 → Bool
  userptr : UInt32
  source : Memory
  dest : UInt32
  src : UInt32
  gotlen : Bool

/-- `dest[i] = src[i]`. -/
def StrArgs.copyByte (g : StrArgs) (out : StrOut) (i : ℕ) : StrOut :=
  { out with
    mem := Function.update out.mem (g.dest + UInt32.ofNat i) (g.source (g.src + UInt32.ofNat i))
    reads := out.reads ++ [g.src + UInt32.ofNat i]
    writes := out.writes ++ [g.dest + UInt32.ofNat i] }

/-- The loop of `copystr` from round `i` on, with the number of rounds that are left before one of
the limits is reached, and the error for that. -/
def StrArgs.loop (g : StrArgs) (e : Errno) : ℕ → ℕ → StrOut → StrOut
  | 0, _, out => { out with result := some e }
  | n + 1, i, out =>
    if g.faults (g.userptr + UInt32.ofNat i) then { out with result := some .efault }
    else if g.source (g.src + UInt32.ofNat i) = 0 then
      { g.copyByte out i with
        result := none
        gotlen := if g.gotlen then some (i + 1) else none }
    else g.loop e n (i + 1) (g.copyByte out i)

/-- Nothing has been copied. -/
def untouched (e : Option Errno) (mem : Memory) : StrOut := ⟨e, mem, none, [], []⟩

/-- `copystr`. -/
def copystr (g : StrArgs) (mem : Memory) (maxlen stoplen : UInt32) : StrOut :=
  g.loop (if stoplen < maxlen then .efault else .enametoolong) (min maxlen.toNat stoplen.toNat) 0
    (untouched none mem)

/-- `copyinstr`. -/
def copyinstr (faults : UInt32 → Bool) (user kern : Memory) (usersrc dest len : UInt32)
    (actual : Bool) : StrOut :=
  match copycheck usersrc len with
  | (some e, _) => untouched (some e) kern
  | (none, stoplen) => copystr ⟨faults, usersrc, user, dest, usersrc, actual⟩ kern len stoplen

/-- `copyoutstr`. -/
def copyoutstr (faults : UInt32 → Bool) (user kern : Memory) (src userdest len : UInt32)
    (actual : Bool) : StrOut :=
  match copycheck userdest len with
  | (some e, _) => untouched (some e) user
  | (none, stoplen) => copystr ⟨faults, userdest, kern, userdest, src, actual⟩ user len stoplen

/-- The number of addresses from `p` up to the end of the buffer, or of the user's memory. -/
def limit (p len : UInt32) : ℕ := min (p.toNat + len.toNat) userspacetop.toNat - p.toNat

/-- Byte `k` of the string is its end. -/
def NulAt (source : Memory) (src : UInt32) (k : ℕ) : Prop := source (src + UInt32.ofNat k) = 0

/-- What is expected of the copy of a string, with addresses that may be read and written. -/
structure StringLaw (p len : UInt32) (actual : Bool) (out : StrOut) (before source : Memory)
    (dst src : UInt32) (mayRead mayWrite : Set UInt32) : Prop where
  reads : ∀ a ∈ out.reads, a ∈ mayRead
  writes : ∀ a ∈ out.writes, a ∈ mayWrite
  kept : ∀ x, x ∉ out.writes → out.mem x = before x
  zero : out.result = none ↔ ∃ k < limit p len, NulAt source src k
  copied : ∀ k < limit p len, NulAt source src k → (∀ j < k, ¬ NulAt source src j) →
    out.gotlen = (if actual then some (k + 1) else none) ∧
      (∀ j ≤ k, out.mem (dst + UInt32.ofNat j) = source (src + UInt32.ofNat j)) ∧
      ∀ x, (∀ j ≤ k, x ≠ dst + UInt32.ofNat j) → out.mem x = before x
  toolong : out.result = some .enametoolong ↔
    (∀ k < len.toNat, ¬ NulAt source src k) ∧ p.toNat + len.toNat ≤ userspacetop.toNat
  fault : out.result = some .efault ↔ ¬ (∃ k < limit p len, NulAt source src k) ∧
    ¬ ((∀ k < len.toNat, ¬ NulAt source src k) ∧ p.toNat + len.toNat ≤ userspacetop.toNat)

/-- The addresses of the user from `p` up to the end of the buffer, or of the user's memory. -/
def userRange (p len : UInt32) : Set UInt32 :=
  {a | p.toNat ≤ a.toNat ∧ a.toNat < min (p.toNat + len.toNat) userspacetop.toNat}

/-- The bytes of a buffer of the kernel. -/
def buffer (ptr len : UInt32) : Set UInt32 := {a | a - ptr < len}

/-! ### The loop -/

section Loop

variable (g : StrArgs) (out : StrOut) (l : List ℕ)

theorem copyBytes_reads : (l.foldl g.copyByte out).reads =
    out.reads ++ l.map fun i => g.src + UInt32.ofNat i := by
  induction l generalizing out with
  | nil => exact (List.append_nil _).symm
  | cons i l ih =>
    rw [List.foldl_cons, ih, List.map_cons]
    exact List.append_assoc _ _ _

theorem copyBytes_writes : (l.foldl g.copyByte out).writes =
    out.writes ++ l.map fun i => g.dest + UInt32.ofNat i := by
  induction l generalizing out with
  | nil => exact (List.append_nil _).symm
  | cons i l ih =>
    rw [List.foldl_cons, ih, List.map_cons]
    exact List.append_assoc _ _ _

theorem copyBytes_of_out {x : UInt32} (h : ∀ i ∈ l, x ≠ g.dest + UInt32.ofNat i) :
    (l.foldl g.copyByte out).mem x = out.mem x := by
  induction l generalizing out with
  | nil => rfl
  | cons i l ih =>
    rw [List.foldl_cons, ih _ fun j hj => h j (List.mem_cons_of_mem _ hj)]
    exact Function.update_of_ne (h i List.mem_cons_self) _ _

theorem add_ofNat_inj {a : UInt32} {i j : ℕ} (hi : i < 2 ^ 32) (hj : j < 2 ^ 32)
    (h : a + UInt32.ofNat i = a + UInt32.ofNat j) : i = j := by
  have hsub := congrArg (fun x => (x - a).toNat) h
  simp only [Memory.add_sub_self, UInt32.toNat_ofNat'] at hsub
  omega

theorem copyBytes_of_mem (hl : ∀ i ∈ l, i < 2 ^ 32) {j : ℕ} (hj : j ∈ l) :
    (l.foldl g.copyByte out).mem (g.dest + UInt32.ofNat j) =
      g.source (g.src + UInt32.ofNat j) := by
  induction l generalizing out with
  | nil => exact nomatch hj
  | cons i l ih =>
    rw [List.foldl_cons]
    by_cases hmem : j ∈ l
    · exact ih _ (fun i hi => hl i (List.mem_cons_of_mem _ hi)) hmem
    · obtain rfl : j = i := (List.mem_cons.mp hj).resolve_right hmem
      rw [copyBytes_of_out]
      · exact Function.update_self _ _ _
      · intro i hi he
        have hij := add_ofNat_inj (hl j hj) (hl i (List.mem_cons_of_mem _ hi)) he
        exact hmem (hij ▸ hi)

/-- The loop copies up to the first end of a string, if it comes before the limit. -/
theorem loop_spec (e : Errno) (n i : ℕ)
    (hacc : ∀ j, i ≤ j → j < i + n → g.faults (g.userptr + UInt32.ofNat j) = false) :
    (∃ k, i ≤ k ∧ k < i + n ∧ NulAt g.source g.src k ∧
        (∀ j, i ≤ j → j < k → ¬ NulAt g.source g.src j) ∧
        g.loop e n i out = { (List.range' i (k + 1 - i)).foldl g.copyByte out with
          result := none
          gotlen := if g.gotlen then some (k + 1) else none }) ∨
      ((∀ j, i ≤ j → j < i + n → ¬ NulAt g.source g.src j) ∧
        g.loop e n i out = { (List.range' i n).foldl g.copyByte out with result := some e }) := by
  induction n generalizing i out with
  | zero => exact .inr ⟨fun j hij hj => by omega, rfl⟩
  | succ n ih =>
    have hfault : ¬ g.faults (g.userptr + UInt32.ofNat i) = true := by
      rw [hacc i le_rfl (by omega)]
      decide
    rw [StrArgs.loop, if_neg hfault]
    by_cases hnul : NulAt g.source g.src i
    · left
      refine ⟨i, le_rfl, by omega, hnul, fun j hij hj => by omega, ?_⟩
      rw [show i + 1 - i = 1 by omega]
      exact if_pos hnul
    · have hrest := ih (g.copyByte out i) (i + 1) fun j hij hj => hacc j (by omega) (by omega)
      have hstep : ∀ k, i < k →
          List.range' i (k + 1 - i) = i :: List.range' (i + 1) (k + 1 - (i + 1)) := by
        intro k hk
        rw [show k + 1 - i = (k + 1 - (i + 1)) + 1 by omega, List.range'_succ]
      rcases hrest with ⟨k, hik, hk, hend, hbefore, hrun⟩ | ⟨hnone, hrun⟩
      · left
        refine ⟨k, by omega, by omega, hend, fun j hij hj => ?_, ?_⟩
        · rcases Nat.eq_or_lt_of_le hij with rfl | hlt
          · exact hnul
          · exact hbefore j hlt hj
        · refine (if_neg hnul).trans (hrun.trans ?_)
          rw [hstep k (by omega), List.foldl_cons]
      · right
        refine ⟨fun j hij hj => ?_, ?_⟩
        · rcases Nat.eq_or_lt_of_le hij with rfl | hlt
          · exact hnul
          · exact hnone j hlt (by omega)
        · refine (if_neg hnul).trans (hrun.trans ?_)
          rw [List.range'_succ, List.foldl_cons]

end Loop

/-! ### The law -/

theorem StringLaw.mono {actual : Bool} {out : StrOut} {before source : Memory} {dst src : UInt32}
    {rd wr rd' wr' : Set UInt32} (h : StringLaw p len actual out before source dst src rd wr)
    (hrd : rd ⊆ rd') (hwr : wr ⊆ wr') :
    StringLaw p len actual out before source dst src rd' wr' :=
  { h with
    reads := fun a ha => hrd (h.reads a ha)
    writes := fun a ha => hwr (h.writes a ha) }

/-- The addresses of the first `n` bytes at a pointer. -/
def firstBytes (ptr : UInt32) (n : ℕ) : Set UInt32 := {a | ∃ i < n, a = ptr + UInt32.ofNat i}

/-- A pointer past the user's memory. -/
theorem law_untouched {actual : Bool} {mem source : Memory} {dst src : UInt32}
    (hlen : len ≠ 0) (hp : 2 ^ 31 ≤ p.toNat) :
    StringLaw p len actual (untouched (some .efault) mem) mem source dst src
      (firstBytes src (limit p len)) (firstBytes dst (limit p len)) := by
  have hpos : 0 < len.toNat := Nat.pos_of_ne_zero fun h => hlen (UInt32.toNat_inj.mp h)
  have hlimit : limit p len = 0 := by
    unfold limit
    rw [toNat_userspacetop]
    omega
  have hnone : ¬ ∃ k < limit p len, NulAt source src k := by
    rintro ⟨k, hk, -⟩
    omega
  have hout : ¬ ((∀ k < len.toNat, ¬ NulAt source src k) ∧
      p.toNat + len.toNat ≤ userspacetop.toNat) := by
    rw [toNat_userspacetop]
    omega
  refine ⟨(fun _ ha => nomatch ha), (fun _ ha => nomatch ha), fun _ _ => rfl, ?_, ?_, ?_, ?_⟩
  · exact iff_of_false (fun he => nomatch he) hnone
  · exact fun k hk _ => absurd hk (by omega)
  · exact iff_of_false (fun he => nomatch he) hout
  · exact iff_of_true rfl ⟨hnone, hout⟩

/-- The loop, with as many rounds as the limits allow, and the error for the limit that is met. -/
theorem law_loop (g : StrArgs) (mem : Memory) {e : Errno}
    (hacc : ∀ j < limit p len, g.faults (g.userptr + UInt32.ofNat j) = false)
    (he : (e = .enametoolong ∧ p.toNat + len.toNat ≤ userspacetop.toNat) ∨
      (e = .efault ∧ userspacetop.toNat < p.toNat + len.toNat)) :
    StringLaw p len g.gotlen (g.loop e (limit p len) 0 (untouched none mem)) mem g.source g.dest
      g.src (firstBytes g.src (limit p len)) (firstBytes g.dest (limit p len)) := by
  have hlimit : limit p len ≤ len.toNat := by
    unfold limit
    omega
  have hlen := len.toNat_lt
  have hwhole : p.toNat + len.toNat ≤ userspacetop.toNat → limit p len = len.toNat := by
    intro h
    unfold limit
    omega
  have hspec := loop_spec g (untouched none mem) e (limit p len) 0 fun j _ hj =>
    hacc j (by omega)
  simp only [Nat.zero_le, Nat.zero_add, true_implies, true_and, Nat.sub_zero] at hspec
  -- what is copied by `n` rounds
  have hreads : ∀ n ≤ limit p len, ∀ a ∈ ((List.range' 0 n).foldl g.copyByte
      (untouched none mem)).reads, a ∈ firstBytes g.src (limit p len) := by
    intro n hn a ha
    rw [copyBytes_reads] at ha
    obtain ⟨i, hi, rfl⟩ := List.mem_map.mp ha
    rw [← List.range_eq_range', List.mem_range] at hi
    exact ⟨i, by omega, rfl⟩
  have hwrites : ∀ n ≤ limit p len, ∀ a ∈ ((List.range' 0 n).foldl g.copyByte
      (untouched none mem)).writes, a ∈ firstBytes g.dest (limit p len) := by
    intro n hn a ha
    rw [copyBytes_writes] at ha
    obtain ⟨i, hi, rfl⟩ := List.mem_map.mp ha
    rw [← List.range_eq_range', List.mem_range] at hi
    exact ⟨i, by omega, rfl⟩
  have hkept : ∀ n, ∀ x ∉ ((List.range' 0 n).foldl g.copyByte (untouched none mem)).writes,
      ((List.range' 0 n).foldl g.copyByte (untouched none mem)).mem x = mem x := by
    intro n x hx
    refine copyBytes_of_out g _ _ fun i hi he => hx ?_
    rw [copyBytes_writes]
    exact List.mem_append_right _ (List.mem_map.mpr ⟨i, hi, he.symm⟩)
  rcases hspec with ⟨k, hk, hnul, hbefore, hrun⟩ | ⟨hnone, hrun⟩
  · have hzero : ∃ k < limit p len, NulAt g.source g.src k := ⟨k, hk, hnul⟩
    have hlong : ¬ ((∀ k < len.toNat, ¬ NulAt g.source g.src k) ∧
        p.toNat + len.toNat ≤ userspacetop.toNat) := fun h => h.1 k (by omega) hnul
    rw [hrun]
    refine ⟨hreads _ hk, hwrites _ hk, hkept _, iff_of_true rfl hzero, fun j hj hend hfirst => ?_,
      iff_of_false (fun he => nomatch he) hlong,
      iff_of_false (fun he => nomatch he) fun h => h.1 hzero⟩
    -- the first end is the only one there is
    obtain rfl : j = k := by
      rcases lt_trichotomy j k with hlt | heq | hgt
      · exact absurd hend (hbefore j hlt)
      · exact heq
      · exact absurd hnul (hfirst k hgt)
    refine ⟨rfl, fun i hi => ?_, fun x hx => ?_⟩
    · refine copyBytes_of_mem g _ _ (fun m hm => ?_) ?_
      · rw [← List.range_eq_range', List.mem_range] at hm
        omega
      · rw [← List.range_eq_range', List.mem_range]
        omega
    · refine copyBytes_of_out g _ _ fun i hi => hx i ?_
      rw [← List.range_eq_range', List.mem_range] at hi
      omega
  · have hzero : ¬ ∃ k < limit p len, NulAt g.source g.src k := by
      rintro ⟨k, hk, hnul⟩
      exact hnone k hk hnul
    rw [hrun]
    refine ⟨hreads _ le_rfl, hwrites _ le_rfl, hkept _, iff_of_false (fun he => nomatch he) hzero,
      fun j hj hend => absurd hend (hnone j hj), ?_, ?_⟩
    · rcases he with ⟨rfl, hin⟩ | ⟨rfl, hout⟩
      · exact iff_of_true rfl ⟨fun k hk => hnone k (by rw [hwhole hin]; exact hk), hin⟩
      · exact iff_of_false (fun he => nomatch he) fun h => absurd h.2 (not_le.mpr hout)
    · rcases he with ⟨rfl, hin⟩ | ⟨rfl, hout⟩
      · refine iff_of_false (fun he => nomatch he) fun h => h.2 ⟨fun k hk => ?_, hin⟩
        exact hnone k (by rw [hwhole hin]; exact hk)
      · exact iff_of_true rfl ⟨hzero, fun h => absurd h.2 (not_le.mpr hout)⟩

/-- Both copies of strings go through the same check, and then copy the string. -/
def checkedStr (g : StrArgs) (mem : Memory) (len : UInt32) : StrOut :=
  match copycheck g.userptr len with
  | (some e, _) => untouched (some e) mem
  | (none, stoplen) => copystr g mem len stoplen

theorem law_checkedStr (g : StrArgs) (mem : Memory) (hlen : len ≠ 0)
    (hend : g.userptr.toNat + len.toNat ≤ 2 ^ 32) (hacc : Accessible g.faults) :
    StringLaw g.userptr len g.gotlen (checkedStr g mem len) mem g.source g.dest g.src
      (firstBytes g.src (limit g.userptr len)) (firstBytes g.dest (limit g.userptr len)) := by
  have htop := toNat_userspacetop
  have hfaults : ∀ j < limit g.userptr len, g.faults (g.userptr + UInt32.ofNat j) = false := by
    intro j hj
    refine hacc _ ?_
    unfold limit at hj
    rw [UInt32.toNat_add, UInt32.toNat_ofNat']
    omega
  rcases copycheck_cases (p := g.userptr) hlen with ⟨hover, -⟩ | ⟨-, hp, hrun⟩ |
    ⟨-, hp, hover, stoplen, hstop, hrun⟩ | ⟨hin, hrun⟩
  · omega
  · rw [checkedStr, hrun]
    exact law_untouched hlen hp
  · have hlt : stoplen < len := by
      rw [UInt32.lt_iff_toNat_lt]
      omega
    have hlimit : min len.toNat stoplen.toNat = limit g.userptr len := by
      unfold limit
      omega
    rw [checkedStr, hrun]
    dsimp only
    rw [copystr, if_pos hlt, hlimit]
    exact law_loop g mem hfaults (.inr ⟨rfl, by omega⟩)
  · have hlimit : min len.toNat len.toNat = limit g.userptr len := by
      unfold limit
      omega
    rw [checkedStr, hrun]
    dsimp only
    rw [copystr, if_neg (UInt32.lt_irrefl len), hlimit]
    exact law_loop g mem hfaults (.inl ⟨rfl, by omega⟩)

theorem firstBytes_userRange (hend : p.toNat + len.toNat ≤ 2 ^ 32) :
    firstBytes p (limit p len) ⊆ userRange p len := by
  rintro a ⟨i, hi, rfl⟩
  unfold limit at hi
  unfold userRange
  rw [Set.mem_ofPred_eq, UInt32.toNat_add, UInt32.toNat_ofNat']
  omega

theorem firstBytes_buffer (ptr : UInt32) : firstBytes ptr (limit p len) ⊆ buffer ptr len := by
  rintro a ⟨i, hi, rfl⟩
  unfold limit at hi
  unfold buffer
  rw [Set.mem_ofPred_eq, Memory.add_sub_self, UInt32.lt_iff_toNat_lt, UInt32.toNat_ofNat']
  have := len.toNat_lt
  omega

/-- **Strings across the boundary.** A buffer that goes past the end of the address space is
refused, and nothing is touched. Any other is copied up to the end of the string. If there is none
before the end of the buffer or of the user's memory, the error tells which of the two came
first. -/
theorem copystr_law (user kern : Memory) (p ptr len : UInt32) (actual : Bool)
    (faults : UInt32 → Bool) (hlen : len ≠ 0) :
    (2 ^ 32 < p.toNat + len.toNat →
      copyinstr faults user kern p ptr len actual = untouched (some .efault) kern ∧
      copyoutstr faults user kern ptr p len actual = untouched (some .efault) user) ∧
    (p.toNat + len.toNat ≤ 2 ^ 32 → Accessible faults →
      StringLaw p len actual (copyinstr faults user kern p ptr len actual) kern user ptr p
        (userRange p len) (buffer ptr len) ∧
      StringLaw p len actual (copyoutstr faults user kern ptr p len actual) user kern p ptr
        (buffer ptr len) (userRange p len)) := by
  constructor
  · intro hover
    rcases copycheck_cases (p := p) hlen with ⟨-, hrun⟩ | ⟨hend, -⟩ | ⟨hend, -⟩ | ⟨hend, -⟩
    · rw [copyinstr, copyoutstr, hrun]
      exact ⟨rfl, rfl⟩
    all_goals omega
  · intro hend hacc
    have hin := law_checkedStr ⟨faults, p, user, ptr, p, actual⟩ kern hlen hend hacc
    have hout := law_checkedStr ⟨faults, p, kern, p, ptr, actual⟩ user hlen hend hacc
    exact ⟨hin.mono (firstBytes_userRange hend) (firstBytes_buffer ptr),
      hout.mono (firstBytes_buffer ptr) (firstBytes_userRange hend)⟩

theorem copystr_law_name :
    StringLaw 0x400000 16 true (copyinstr (fun a => decide (userspacetop ≤ a))
        (fun a => if a < 0x400003 then 0x61 else 0) (fun _ => 1) 0x400000 0x80001000 16 true)
      (fun _ => 1) (fun a => if a < 0x400003 then 0x61 else 0) 0x80001000 0x400000
      (userRange 0x400000 16) (buffer 0x80001000 16) := by
  refine ((copystr_law (fun a => if a < 0x400003 then 0x61 else 0) (fun _ => 1) 0x400000 0x80001000
    16 true (fun a => decide (userspacetop ≤ a)) (by decide)).2 (by decide) fun a ha => ?_).1
  refine decide_eq_false ?_
  rw [UInt32.le_iff_toNat_le]
  exact not_le.mpr ha

end Copyinout

end Os161
