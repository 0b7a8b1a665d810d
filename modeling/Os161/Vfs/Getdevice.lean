import Os161.Vfs.RefsBalance
import Mathlib.Data.List.TakeWhile

/-!
# Taking a path apart

`getdevice` of `kern/vfs/vfslookup.c` on the buffer that holds the path. It looks for the first
colon or slash, puts a `NUL` in the place of a colon that ends a device name, steps over slashes,
and hands back a pointer into the same buffer.

A read or a write outside the buffer is a halt of its own, `Panic.outside`. A path is shorter than
`2^31` bytes, being in memory, so a position is a natural number; `-1` is still told apart from `0`.

`Prefixed` says which paths have a prefix and what it means, and `Starts` what `getdevice` should do
with a path: choose the start vnode for the prefix, hand back the rest, and change nothing in the
buffer but that one colon.

## Main results

* `Path.run_getdevice` — the function on the buffer
* `Path.refs_getdevice` — `Refs.getdevice` computes the same from the string
* `Path.getdevice_prefix`
-/

namespace Os161

namespace Vfs

namespace Path

open Prog Refs

variable {V α : Type}

/-! ### The buffer -/

/-- Why a run halts. -/
inductive Panic where
  /-- The byte at this position is not in the buffer. -/
  | outside (i : ℕ)
  /-- `KASSERT(colon==0 || slash==0)` -/
  | colonSlash
  /-- `KASSERT(path[0]==':')` -/
  | notColon
  /-- In the rest of the VFS layer. -/
  | vfs (p : Refs.Panic)
  deriving DecidableEq

structure State (V : Type) where
  /-- The bytes at `path`. -/
  path : List UInt8
  /-- The rest of the VFS layer. -/
  vfs : Refs.State V

abbrev M (V α : Type) := Prog (Growth.any (State V)) Panic α

/-- A function of the rest of the VFS layer. -/
def vfs (x : Refs.M V α) : Path.M V α where
  run s := match x.run s.vfs with
    | .done a t => .done a { s with vfs := t }
    | .halt p t => .halt (.vfs p) { s with vfs := t }
  grows _ := trivial

/-- `path[i]`. -/
def readByte (i : ℕ) : Path.M V UInt8 := do
  let s ← get
  match s.path[i]? with
  | some c => pure c
  | none => halt (.outside i)

/-- `path[i] = c`. -/
def writeByte (i : ℕ) (c : UInt8) : Path.M V Unit := do
  let s ← get
  if i < s.path.length then update (fun s => { s with path := s.path.set i c }) fun _ => trivial
  else halt (.outside i)

/-- The loop that looks for a colon or a slash, from position `i` on: `colon` and `slash`. -/
def scan : ℕ → ℕ → Path.M V (ℤ × ℤ)
  | 0, i => halt (.outside i)
  | fuel + 1, i => do
      let c ← readByte i
      if c = 0 then pure (-1, -1)
      else if c = colonChar then pure (i, -1)
      else if c = slashChar then pure (-1, i)
      else scan fuel (i + 1)

/-- The loops that step over slashes: the position of the last one after `i`, or `i`. -/
def skip : ℕ → ℕ → Path.M V ℕ
  | 0, i => halt (.outside (i + 1))
  | fuel + 1, i => do
      let c ← readByte (i + 1)
      if c = slashChar then skip fuel (i + 1) else pure i

/-- The string at position `i`, which `vfs_getroot` reads. -/
def readString : ℕ → ℕ → Path.M V Name
  | 0, i => halt (.outside i)
  | fuel + 1, i => do
      let c ← readByte i
      if c = 0 then pure [] else do
        let str ← readString fuel (i + 1)
        pure (c :: str)

/-- The size of the buffer; no loop goes round more often. -/
def size : Path.M V ℕ := do
  let s ← get
  pure s.path.length

section Getdevice

variable [DecidableEq V] (w : World V)

/-- The start vnode for `:path`, the root of the filesystem of the current directory. -/
def curfsRoot : Refs.M V (Except Errno V) := do
  match ← vfsGetcurdir with
  | .error e => pure (.error e)
  | .ok vn =>
      match w.vnFs vn with
      | none => halt .vnFs
      | some fs => do
          let result ← fsopGetroot w fs
          vnodeDecref vn
          pure result

/-- The start vnode for `/path`. -/
def bootfsRoot : Refs.M V (Except Errno V) := do
  match (← get).bootfsVnode with
  | none => pure (.error .enoent)
  | some bootfsVnode => do
      vnodeIncref bootfsVnode
      pure (.ok bootfsVnode)

/-- The last part of `getdevice`, for `/path` and `:path`. -/
def rooted : Path.M V (Except Errno (V × ℕ)) := do
  let c ← readByte 0
  let r ← if c = slashChar then vfs bootfsRoot
    else do
      let c ← readByte 0
      if c = colonChar then vfs (curfsRoot w) else halt .notColon
  match r with
  | .error e => pure (.error e)
  | .ok startvn => do
      let n ← size
      let path ← skip n 0
      pure (.ok (startvn, path + 1))

/-- `getdevice`: the start vnode, and the position of the subpath. -/
def getdevice : Path.M V (Except Errno (V × ℕ)) := do
  vfs biglockHeld
  let c ← readByte 0
  if c = 0 then pure (.error .einval)
  else do
    let n ← size
    let (colon, slash) ← scan n 0
    if colon < 0 ∧ slash ≠ 0 then do
      match ← vfs vfsGetcurdir with
      | .error e => pure (.error e)
      | .ok startvn => pure (.ok (startvn, 0))
    else if 0 < colon then do
      writeByte colon.toNat 0
      let colon ← skip n colon.toNat
      let devname ← readString n 0
      match ← vfs (vfsGetrootRef w devname) with
      | .error e => pure (.error e)
      | .ok startvn => pure (.ok (startvn, colon + 1))
    else if colon = 0 ∨ slash = 0 then rooted w
    else halt .colonSlash

end Getdevice

/-! ### What a path means -/

/-- Where a lookup starts. -/
inductive Start where
  /-- The current directory. -/
  | curdir
  /-- The boot filesystem. -/
  | bootfs
  /-- The root of the current filesystem. -/
  | curfs
  /-- The root of the filesystem on a device, or the device. -/
  | device (devname : Name)
  deriving DecidableEq

/-- The rest of the path does not begin with a slash. -/
def Bare (p : Name) : Prop := p.head? ≠ some slashChar

/-- The path has a prefix that says where to start, and `p` after it. -/
inductive Prefixed : Name → Start → Name → Prop
  | device {d : Name} (k : ℕ) {p : Name} (hne : d ≠ []) (hcolon : colonChar ∉ d)
      (hslash : slashChar ∉ d) (hp : Bare p) :
      Prefixed (d ++ colonChar :: (List.replicate k slashChar ++ p)) (.device d) p
  | bootfs (k : ℕ) {p : Name} (hp : Bare p) :
      Prefixed (slashChar :: (List.replicate k slashChar ++ p)) .bootfs p
  | curfs (k : ℕ) {p : Name} (hp : Bare p) :
      Prefixed (colonChar :: (List.replicate k slashChar ++ p)) .curfs p

/-- What a path means: its prefix, or the whole path from the current directory. -/
def Parses (path : Name) (start : Start) (p : Name) : Prop :=
  Prefixed path start p ∨ (∀ start' p', ¬Prefixed path start' p') ∧ start = .curdir ∧ p = path

/-- The start vnode. -/
def startvn [DecidableEq V] (w : World V) : Start → Refs.M V (Except Errno V)
  | .curdir => vfsGetcurdir
  | .bootfs => bootfsRoot
  | .curfs => curfsRoot w
  | .device devname => vfsGetrootRef w devname

/-- The string at a position. -/
def stringAt (path : List UInt8) (i : ℕ) : Name := (path.drop i).takeWhile (· ≠ 0)

/-- A byte that ends a device name. -/
def isSep (c : UInt8) : Bool := c = colonChar ∨ c = slashChar

/-- What a path means, computed. -/
def parse (path : Name) : Start × Name :=
  match path.dropWhile (!isSep ·) with
  | [] => (.curdir, path)
  | c :: r =>
      if c = colonChar then
        (if path.takeWhile (!isSep ·) = [] then .curfs
          else .device (path.takeWhile (!isSep ·)), r.dropWhile (· = slashChar))
      else if path.takeWhile (!isSep ·) = [] then (.bootfs, r.dropWhile (· = slashChar))
      else (.curdir, path)

/-! ### Prefixes -/

section Prefixes

variable {path d r p : Name} {start : Start}

theorem bare_dropWhile (r : Name) : Bare (r.dropWhile (· = slashChar)) := by
  intro h
  obtain ⟨l, hl⟩ := List.head?_eq_some_iff.mp h
  have hne : r.dropWhile (· = slashChar) ≠ [] := by
    rw [hl]
    exact List.cons_ne_nil _ _
  have hnot := List.head_dropWhile_not (p := (· = slashChar)) (l := r) hne
  simp [hl] at hnot

/-- A string is some slashes and a string that does not begin with one. -/
theorem eq_slashes (r : Name) :
    ∃ k, r = List.replicate k slashChar ++ r.dropWhile (· = slashChar) := by
  refine ⟨(r.takeWhile (· = slashChar)).length, ?_⟩
  have hall : r.takeWhile (· = slashChar) =
      List.replicate (r.takeWhile (· = slashChar)).length slashChar := by
    refine List.eq_replicate_of_mem fun c hc => ?_
    simpa using List.mem_takeWhile_imp hc
  rw [← hall, List.takeWhile_append_dropWhile]

theorem dropWhile_slashes (k : ℕ) (hp : Bare p) :
    (List.replicate k slashChar ++ p).dropWhile (· = slashChar) = p := by
  rw [List.dropWhile_append_of_pos fun c hc => by simp [List.eq_of_mem_replicate hc]]
  cases p with
  | nil => rfl
  | cons c p =>
    refine List.dropWhile_cons_of_neg ?_
    simpa [Bare] using hp

theorem not_isSep_of_mem (hcolon : colonChar ∉ d) (hslash : slashChar ∉ d) {c : UInt8}
    (hc : c ∈ d) : (!isSep c) = true := by
  have h1 : c ≠ colonChar := fun h => hcolon (h ▸ hc)
  have h2 : c ≠ slashChar := fun h => hslash (h ▸ hc)
  simp [isSep, h1, h2]

/-- Where the first separator is. -/
theorem split_at (hd : ∀ c ∈ d, (!isSep c) = true) {c : UInt8} (hc : isSep c = true) :
    (d ++ c :: r).takeWhile (!isSep ·) = d ∧ (d ++ c :: r).dropWhile (!isSep ·) = c :: r := by
  rw [List.takeWhile_append_of_pos hd, List.dropWhile_append_of_pos hd,
    List.takeWhile_cons_of_neg (by simp [hc]), List.dropWhile_cons_of_neg (by simp [hc]),
    List.append_nil]
  exact ⟨rfl, rfl⟩

theorem parse_at (hd : ∀ c ∈ d, (!isSep c) = true) {c : UInt8} (hc : isSep c = true) :
    parse (d ++ c :: r) =
      if c = colonChar then (if d = [] then .curfs else .device d, r.dropWhile (· = slashChar))
      else if d = [] then (.bootfs, r.dropWhile (· = slashChar))
      else (.curdir, d ++ c :: r) := by
  obtain ⟨htake, hdrop⟩ := split_at (r := r) hd hc
  rw [parse, hdrop, htake]

/-- A path with no separator, or with its first one at `d`. -/
theorem shape (path : Name) : (∀ c ∈ path, (!isSep c) = true) ∨
    ∃ d c r, path = d ++ c :: r ∧ (∀ c ∈ d, (!isSep c) = true) ∧ isSep c = true := by
  have happ := List.takeWhile_append_dropWhile (p := (!isSep ·)) (l := path)
  have htake : ∀ c ∈ path.takeWhile (!isSep ·), (!isSep c) = true := fun c hc =>
    List.mem_takeWhile_imp (p := (!isSep ·)) hc
  cases hdrop : path.dropWhile (!isSep ·) with
  | nil =>
    rw [hdrop, List.append_nil] at happ
    exact Or.inl (happ ▸ htake)
  | cons c r =>
    have hne : path.dropWhile (!isSep ·) ≠ [] := by
      rw [hdrop]
      exact List.cons_ne_nil _ _
    have hhead := List.head_dropWhile_not (p := (!isSep ·)) (l := path) hne
    refine Or.inr ⟨_, c, r, ?_, htake, ?_⟩
    · rw [← hdrop, happ]
    · simpa [hdrop] using hhead

theorem parse_of_none (h : ∀ c ∈ path, (!isSep c) = true) : parse path = (.curdir, path) := by
  have hdrop : path.dropWhile (!isSep ·) = [] := List.dropWhile_eq_nil_iff.mpr h
  rw [parse, hdrop]

theorem parse_of_prefixed (h : Prefixed path start p) :
    parse path = (start, p) ∧ start ≠ .curdir := by
  cases h with
  | @device d k p hne hcolon hslash hp =>
    refine ⟨?_, nofun⟩
    rw [parse_at (fun c => not_isSep_of_mem hcolon hslash) (by decide), if_pos rfl, if_neg hne,
      dropWhile_slashes k hp]
  | bootfs k hp =>
    refine ⟨?_, nofun⟩
    have := parse_at (d := []) (c := slashChar) (r := List.replicate k slashChar ++ p) nofun
      (by decide)
    rwa [if_neg (by decide), if_pos rfl, dropWhile_slashes k hp] at this
  | curfs k hp =>
    refine ⟨?_, nofun⟩
    have := parse_at (d := []) (c := colonChar) (r := List.replicate k slashChar ++ p) nofun
      (by decide)
    rwa [if_pos rfl, if_pos rfl, dropWhile_slashes k hp] at this

/-- What `parse` finds is there. -/
theorem parse_cases (path : Name) : Prefixed path (parse path).1 (parse path).2 ∨
    parse path = (.curdir, path) := by
  rcases shape path with hnone | ⟨d, c, r, rfl, hd, hc⟩
  · exact Or.inr (parse_of_none hnone)
  · have hnot : colonChar ∉ d ∧ slashChar ∉ d := by
      constructor <;> intro hmem <;> exact absurd (hd _ hmem) (by decide)
    rw [parse_at hd hc]
    obtain ⟨k, hk⟩ := eq_slashes r
    have hbare := bare_dropWhile r
    by_cases hcolon : c = colonChar
    · subst hcolon
      rw [if_pos rfl]
      by_cases hnil : d = []
      · subst hnil
        have := Prefixed.curfs k hbare
        rw [← hk] at this
        rw [if_pos rfl]
        exact Or.inl this
      · have := Prefixed.device k hnil hnot.1 hnot.2 hbare
        rw [← hk] at this
        rw [if_neg hnil]
        exact Or.inl this
    · obtain rfl : c = slashChar := by simpa [isSep, hcolon] using hc
      rw [if_neg hcolon]
      by_cases hnil : d = []
      · subst hnil
        have := Prefixed.bootfs k hbare
        rw [← hk] at this
        rw [if_pos rfl]
        exact Or.inl this
      · rw [if_neg hnil]
        exact Or.inr rfl

theorem parses_iff : Parses path start p ↔ parse path = (start, p) := by
  constructor
  · rintro (h | ⟨hnone, rfl, rfl⟩)
    · exact (parse_of_prefixed h).1
    · exact (parse_cases _).resolve_left (hnone _ _)
  · intro h
    rcases parse_cases path with hpre | hcur
    · rw [h] at hpre
      exact Or.inl hpre
    · obtain ⟨rfl, rfl⟩ := Prod.mk.inj (h.symm.trans hcur)
      refine Or.inr ⟨fun start' p' hpre => ?_, rfl, rfl⟩
      obtain ⟨hparse, hne⟩ := parse_of_prefixed hpre
      rw [h] at hparse
      exact hne (Prod.mk.inj hparse).1.symm

end Prefixes

/-! ### The loops -/

section Loops

variable {s : State V} {pre d rest : List UInt8}

theorem run_readByte {i : ℕ} {c : UInt8} (h : s.path[i]? = some c) :
    (readByte i).run s = .done c s := by
  rw [readByte, run_bind_of_done (run_get s), h]
  rfl

theorem run_readByte_append (pre : List UInt8) {c : UInt8} (h : s.path = pre ++ c :: rest) :
    (readByte pre.length).run s = .done c s :=
  run_readByte (by rw [h, List.getElem?_append_right (Nat.le_refl _), Nat.sub_self]; rfl)

/-- The first separator, or the end of the string. -/
theorem run_scan (pre : List UInt8) {c : UInt8} (hs : s.path = pre ++ (d ++ c :: rest))
    (hnul : 0 ∉ d) (hd : ∀ c ∈ d, (!isSep c) = true) (hc : c = 0 ∨ isSep c = true) (fuel : ℕ)
    (hfuel : d.length < fuel) : (scan fuel pre.length).run s = .done
      (if c = 0 then (-1, -1) else if c = colonChar then ((pre.length + d.length : ℕ), -1)
        else (-1, (pre.length + d.length : ℕ))) s := by
  induction d generalizing pre fuel with
  | nil =>
    obtain ⟨fuel, rfl⟩ := Nat.exists_eq_add_of_lt hfuel
    rw [scan, run_bind_of_done (run_readByte_append pre hs)]
    by_cases h0 : c = 0
    · rw [if_pos h0, if_pos h0]
      rfl
    · rw [if_neg h0, if_neg h0]
      by_cases hcolon : c = colonChar
      · rw [if_pos hcolon, if_pos hcolon]
        rfl
      · have hslash : c = slashChar := by simpa [isSep, hcolon] using hc.resolve_left h0
        rw [if_neg hcolon, if_neg hcolon, if_pos hslash]
        rfl
  | cons x d ih =>
    obtain ⟨fuel, rfl⟩ := Nat.exists_eq_add_of_lt ((Nat.zero_le _).trans_lt hfuel)
    have hx := hd x List.mem_cons_self
    have hx0 : x ≠ 0 := fun h => hnul (h ▸ List.mem_cons_self)
    have hsep : x ≠ colonChar ∧ x ≠ slashChar := by simpa [isSep] using hx
    have hnext := ih (pre ++ [x]) (by rw [hs]; simp)
      (fun h => hnul (List.mem_cons_of_mem x h)) (fun c hc => hd c (List.mem_cons_of_mem x hc))
      (0 + fuel) (by simpa using hfuel)
    rw [scan, run_bind_of_done (run_readByte_append pre hs), if_neg hx0, if_neg hsep.1,
      if_neg hsep.2]
    rw [List.length_append, List.length_singleton] at hnext
    rw [hnext, List.length_cons, Nat.add_right_comm, Nat.add_assoc]

/-- Slashes after position `pre.length`. -/
theorem run_skip (pre : List UInt8) {c0 c : UInt8} (k : ℕ)
    (hs : s.path = pre ++ c0 :: (List.replicate k slashChar ++ c :: rest)) (hc : c ≠ slashChar)
    (fuel : ℕ) (hfuel : k < fuel) :
    (skip fuel pre.length).run s = .done (pre.length + k) s := by
  induction k generalizing pre c0 fuel with
  | zero =>
    obtain ⟨fuel, rfl⟩ := Nat.exists_eq_add_of_lt hfuel
    have hread := run_readByte_append (pre ++ [c0])
      (show s.path = (pre ++ [c0]) ++ c :: rest by rw [hs]; simp)
    rw [List.length_append, List.length_singleton] at hread
    rw [skip, run_bind_of_done hread, if_neg hc]
    rfl
  | succ k ih =>
    obtain ⟨fuel, rfl⟩ := Nat.exists_eq_add_of_lt ((Nat.zero_le _).trans_lt hfuel)
    have hs' : s.path = (pre ++ [c0]) ++ slashChar ::
        (List.replicate k slashChar ++ c :: rest) := by
      rw [hs, List.replicate_succ]
      simp
    have hread := run_readByte_append (pre ++ [c0]) hs'
    have hnext := ih (pre ++ [c0]) hs' (0 + fuel) (by omega)
    rw [List.length_append, List.length_singleton] at hread hnext
    rw [skip, run_bind_of_done hread, if_pos rfl, hnext, Nat.add_right_comm, Nat.add_assoc]

theorem run_readString (pre : List UInt8) (hs : s.path = pre ++ (d ++ 0 :: rest)) (hnul : 0 ∉ d)
    (fuel : ℕ) (hfuel : d.length < fuel) : (readString fuel pre.length).run s = .done d s := by
  induction d generalizing pre fuel with
  | nil =>
    obtain ⟨fuel, rfl⟩ := Nat.exists_eq_add_of_lt hfuel
    rw [readString, run_bind_of_done (run_readByte_append pre hs), if_pos rfl]
    rfl
  | cons x d ih =>
    obtain ⟨fuel, rfl⟩ := Nat.exists_eq_add_of_lt ((Nat.zero_le _).trans_lt hfuel)
    have hx0 : x ≠ 0 := fun h => hnul (h ▸ List.mem_cons_self)
    have hnext := ih (pre ++ [x]) (by rw [hs]; simp)
      (fun h => hnul (List.mem_cons_of_mem x h)) (0 + fuel) (by simpa using hfuel)
    rw [List.length_append, List.length_singleton] at hnext
    rw [readString, run_bind_of_done (run_readByte_append pre hs), if_neg hx0,
      run_bind_of_done hnext]
    rfl

theorem run_size : (size : Path.M V ℕ).run s = .done s.path.length s := rfl

theorem run_writeByte {i : ℕ} {c : UInt8} (h : i < s.path.length) :
    (writeByte i c).run s = .done () { s with path := s.path.set i c } := by
  rw [writeByte, run_bind_of_done (run_get s), if_pos h]
  rfl

end Loops

/-! ### The function -/

section Buffers

variable {path p : Name}

/-- The string at a position. -/
theorem stringAt_append (pre : Name) (hnul : 0 ∉ p) {q : ℕ} (hq : q = pre.length) :
    stringAt (pre ++ (p ++ [0])) q = p := by
  rw [stringAt, hq, List.drop_left, List.takeWhile_append_of_pos]
  · simp
  · intro c hc
    have : c ≠ 0 := fun h => hnul (h ▸ hc)
    simpa using this

theorem stringAt_zero (hnul : 0 ∉ path) : stringAt (path ++ [0]) 0 = path :=
  stringAt_append [] hnul rfl

/-- What stops the loops that step over slashes. -/
theorem bare_nul (hp : Bare p) : ∃ c rest, p ++ [0] = c :: rest ∧ c ≠ slashChar := by
  cases p with
  | nil => exact ⟨0, [], rfl, by decide⟩
  | cons c p => exact ⟨c, p ++ [0], rfl, by simpa [Bare] using hp⟩

theorem head_ne_zero (hne : path ≠ []) (hnul : 0 ∉ path) :
    ∃ c rest, path ++ [0] = c :: rest ∧ c ≠ 0 := by
  cases path with
  | nil => exact absurd rfl hne
  | cons c path => exact ⟨c, path ++ [0], rfl, fun h => hnul (h ▸ List.mem_cons_self)⟩

theorem run_vfs_of_done {x : Refs.M V α} {s t : Refs.State V} {a : α} (h : x.run s = .done a t)
    (buf : List UInt8) : (vfs x).run ⟨buf, s⟩ = .done a ⟨buf, t⟩ := by
  rw [vfs]
  simp only [h]

theorem run_biglockHeld {s : Refs.State V} (hlock : 0 < s.biglockDepth) (buf : List UInt8) :
    (vfs biglockHeld).run ⟨buf, s⟩ = .done () ⟨buf, s⟩ := by
  refine run_vfs_of_done ?_ buf
  rw [biglockHeld, run_bind_of_done (run_get s), kassert, if_pos hlock]
  rfl

/-- What follows a part of the VFS layer. -/
theorem run_vfs_congr {β : Type} {x : Refs.M V α} {f g : α → Path.M V β} {buf : List UInt8}
    {s : Refs.State V} (h : ∀ a t, (f a).run ⟨buf, t⟩ = (g a).run ⟨buf, t⟩) :
    (vfs x >>= f).run ⟨buf, s⟩ = (vfs x >>= g).run ⟨buf, s⟩ := by
  rw [run_bind, run_bind, vfs]
  dsimp only
  cases hx : x.run s with
  | done a t => exact h a t
  | halt e t => rfl

end Buffers

section Run

variable [DecidableEq V] {w : World V} {s : Refs.State V} {path : Name}

/-- Hand back the start vnode and the position of the subpath. -/
def handBack (q : ℕ) (r : Except Errno V) : Path.M V (Except Errno (V × ℕ)) :=
  pure (r.map fun vn => (vn, q))

/-- The path leads to the start vnode for `start` and to the string `p`, and only the colon after a
device name has been written to. -/
def Starts (w : World V) (s : Refs.State V) (path : Name) (start : Start) (p : Name) : Prop :=
  ∃ q path', (getdevice w).run ⟨path ++ [0], s⟩ =
      (vfs (startvn w start) >>= handBack q).run ⟨path', s⟩ ∧ stringAt path' q = p ∧
    (path' = path ++ [0] ∨ ∃ i, path[i]? = some colonChar ∧ path' = (path ++ [0]).set i 0)

/-- The part of `getdevice` after the loop. -/
def afterScan (w : World V) (n : ℕ) (colon slash : ℤ) : Path.M V (Except Errno (V × ℕ)) :=
  if colon < 0 ∧ slash ≠ 0 then do
    match ← vfs vfsGetcurdir with
    | .error e => pure (.error e)
    | .ok startvn => pure (.ok (startvn, 0))
  else if 0 < colon then do
    writeByte colon.toNat 0
    let colon ← skip n colon.toNat
    let devname ← readString n 0
    match ← vfs (vfsGetrootRef w devname) with
    | .error e => pure (.error e)
    | .ok startvn => pure (.ok (startvn, colon + 1))
  else if colon = 0 ∨ slash = 0 then rooted w
  else halt .colonSlash

theorem run_getdevice (hlock : 0 < s.biglockDepth) (hne : path ≠ []) (hnul : 0 ∉ path)
    {colon slash : ℤ} (hscan : (scan (path.length + 1) 0).run ⟨path ++ [0], s⟩ =
      .done (colon, slash) ⟨path ++ [0], s⟩) : (getdevice w).run ⟨path ++ [0], s⟩ =
        (afterScan w (path.length + 1) colon slash).run ⟨path ++ [0], s⟩ := by
  obtain ⟨c, rest, hpath, hc⟩ := head_ne_zero hne hnul
  have hread : (readByte 0).run (⟨path ++ [0], s⟩ : State V) = .done c ⟨path ++ [0], s⟩ :=
    run_readByte (by rw [hpath]; rfl)
  have hsize : (size : Path.M V ℕ).run ⟨path ++ [0], s⟩ =
      .done (path.length + 1) ⟨path ++ [0], s⟩ := by
    rw [run_size, List.length_append, List.length_singleton]
  rw [getdevice, run_bind_of_done (run_biglockHeld hlock _), run_bind_of_done hread, if_neg hc,
    run_bind_of_done hsize, run_bind_of_done hscan]
  rfl

/-- A path that starts from the current directory. -/
theorem starts_curdir (hlock : 0 < s.biglockDepth) (hne : path ≠ []) (hnul : 0 ∉ path) {slash : ℤ}
    (hscan : (scan (path.length + 1) 0).run (⟨path ++ [0], s⟩ : State V) =
      .done (-1, slash) ⟨path ++ [0], s⟩) (hslash : slash ≠ 0) :
    Starts w s path .curdir path := by
  refine ⟨0, _, ?_, stringAt_zero hnul, Or.inl rfl⟩
  rw [run_getdevice hlock hne hnul hscan, afterScan, if_pos ⟨by decide, hslash⟩]
  refine run_vfs_congr fun r t => ?_
  cases r <;> rfl

/-- A path that starts from a device. -/
theorem starts_device (hlock : 0 < s.biglockDepth) {d p : Name} {k : ℕ} (hne : d ≠ [])
    (hcolon : colonChar ∉ d) (hslash : slashChar ∉ d) (hp : Bare p)
    (hnul : 0 ∉ d ++ colonChar :: (List.replicate k slashChar ++ p)) :
    Starts w s (d ++ colonChar :: (List.replicate k slashChar ++ p)) (.device d) p := by
  set path := d ++ colonChar :: (List.replicate k slashChar ++ p) with hpath
  obtain ⟨c, rest, hstop, hc⟩ := bare_nul hp
  have hnuld : 0 ∉ d := fun h => hnul (List.mem_append_left _ h)
  have hnulp : 0 ∉ p := fun h =>
    hnul (List.mem_append_right _ (List.mem_cons_of_mem _ (List.mem_append_right _ h)))
  have hlen : path.length = d.length + (k + p.length + 1) := by simp [hpath]
  have hbuf : path ++ [0] = d ++ colonChar :: (List.replicate k slashChar ++ (p ++ [0])) := by
    simp [hpath]
  have hset : (path ++ [0]).set d.length 0 =
      d ++ 0 :: (List.replicate k slashChar ++ (p ++ [0])) := by
    rw [hbuf, List.set_append_right _ _ (Nat.le_refl _), Nat.sub_self]
    rfl
  have hpos : 0 < d.length := List.length_pos_iff.mpr hne
  have hscan := run_scan (s := (⟨path ++ [0], s⟩ : State V)) [] (c := colonChar) hbuf hnuld
    (fun c => not_isSep_of_mem hcolon hslash) (Or.inr (by decide)) (path.length + 1) (by omega)
  rw [if_neg (by decide), if_pos rfl, List.length_nil, Nat.zero_add] at hscan
  have hpathne : path ≠ [] := by
    intro h
    rw [h] at hlen
    simp at hlen
  have hwrite : (writeByte d.length 0).run (⟨path ++ [0], s⟩ : State V) =
      .done () ⟨(path ++ [0]).set d.length 0, s⟩ :=
    run_writeByte (by simp; omega)
  have hskip := run_skip (s := (⟨(path ++ [0]).set d.length 0, s⟩ : State V)) d k
    (by rw [hset, hstop]) hc (path.length + 1) (by omega)
  have hname := run_readString (s := (⟨(path ++ [0]).set d.length 0, s⟩ : State V)) [] hset hnuld
    (path.length + 1) (by omega)
  rw [List.length_nil] at hname
  refine ⟨d.length + k + 1, (path ++ [0]).set d.length 0, ?_, ?_, Or.inr ⟨d.length, ?_, rfl⟩⟩
  · rw [run_getdevice hlock hpathne hnul hscan, afterScan,
      if_neg (fun h => absurd h.1 (Int.not_lt.mpr (Int.natCast_nonneg _))),
      if_pos (Int.natCast_pos.mpr hpos), Int.toNat_natCast, run_bind_of_done hwrite,
      run_bind_of_done hskip, run_bind_of_done hname]
    refine run_vfs_congr fun r t => ?_
    cases r <;> rfl
  · have := stringAt_append (d ++ 0 :: List.replicate k slashChar) hnulp
      (q := d.length + k + 1) (by simp; omega)
    rw [hset]
    simpa using this
  · rw [hpath, List.getElem?_append_right (Nat.le_refl _), Nat.sub_self]
    rfl

/-- A path that starts with a separator: from the boot filesystem, or from the current one. -/
theorem starts_rooted (hlock : 0 < s.biglockDepth) {c0 : UInt8} {p : Name} {k : ℕ}
    (hc0 : isSep c0 = true) (hp : Bare p)
    (hnul : 0 ∉ c0 :: (List.replicate k slashChar ++ p)) :
    Starts w s (c0 :: (List.replicate k slashChar ++ p))
      (if c0 = slashChar then .bootfs else .curfs) p := by
  set path := c0 :: (List.replicate k slashChar ++ p) with hpath
  obtain ⟨c, rest, hstop, hc⟩ := bare_nul hp
  have hnulp : 0 ∉ p := fun h =>
    hnul (List.mem_cons_of_mem _ (List.mem_append_right _ h))
  have hlen : path.length = k + p.length + 1 := by simp [hpath]
  have hbuf : path ++ [0] = c0 :: (List.replicate k slashChar ++ (p ++ [0])) := by simp [hpath]
  have hne0 : c0 ≠ 0 := by
    rintro rfl
    exact absurd hc0 (by decide)
  have hscan := run_scan (s := (⟨path ++ [0], s⟩ : State V)) [] (d := []) (c := c0) hbuf nofun nofun
    (Or.inr hc0) (path.length + 1) (by simp)
  rw [if_neg hne0, List.length_nil] at hscan
  have hread : ∀ t, (readByte 0).run (⟨path ++ [0], t⟩ : State V) = .done c0 ⟨path ++ [0], t⟩ :=
    fun t => run_readByte (by rw [hbuf]; rfl)
  have hskip : ∀ t, (skip (path.length + 1) 0).run (⟨path ++ [0], t⟩ : State V) =
      .done k ⟨path ++ [0], t⟩ := by
    intro t
    have := run_skip (s := (⟨path ++ [0], t⟩ : State V)) [] k (by rw [hbuf, hstop]; rfl) hc
      (path.length + 1) (by omega)
    rwa [List.length_nil, Nat.zero_add] at this
  have hsize : ∀ t, (size : Path.M V ℕ).run ⟨path ++ [0], t⟩ =
      .done (path.length + 1) ⟨path ++ [0], t⟩ := by
    intro t
    rw [run_size, List.length_append, List.length_singleton]
  -- what follows once the start vnode has been chosen
  have hrest : ∀ (x : Refs.M V (Except Errno V)), (vfs x >>= fun r => match r with
      | .error e => pure (.error e)
      | .ok startvn => do
          let n ← size
          let path ← skip n 0
          pure (.ok (startvn, path + 1))).run ⟨path ++ [0], s⟩ =
        (vfs x >>= handBack (k + 1)).run ⟨path ++ [0], s⟩ := by
    intro x
    refine run_vfs_congr fun r t => ?_
    cases r with
    | error e => rfl
    | ok vn => exact (run_bind_of_done (hsize t)).trans (run_bind_of_done (hskip t))
  refine ⟨k + 1, _, ?_, ?_, Or.inl rfl⟩
  · by_cases hcolon : c0 = colonChar
    · rw [if_pos hcolon] at hscan
      rw [run_getdevice hlock (List.cons_ne_nil _ _) hnul hscan, afterScan, if_neg (by decide),
        if_neg (by decide), if_pos (by decide), if_neg (by rw [hcolon]; decide), rooted,
        run_bind_of_done (hread s), if_neg (by rw [hcolon]; decide)]
      refine (run_bind_of_done (hread s)).trans ?_
      rw [if_pos hcolon]
      exact hrest _
    · have hslash : c0 = slashChar := by simpa [isSep, hcolon] using hc0
      rw [if_neg hcolon] at hscan
      rw [run_getdevice hlock (List.cons_ne_nil _ _) hnul hscan, afterScan, if_neg (by decide),
        if_neg (by decide), if_pos (by decide), if_pos hslash, rooted,
        run_bind_of_done (hread s), if_pos hslash]
      exact hrest _
  · have := stringAt_append (c0 :: List.replicate k slashChar) hnulp (q := k + 1) (by simp)
    rw [hbuf]
    simpa using this

/-- Every path leads where `parse` says. -/
theorem starts_parse (hlock : 0 < s.biglockDepth) (hne : path ≠ []) (hnul : 0 ∉ path) :
    Starts w s path (parse path).1 (parse path).2 := by
  rcases shape path with hnone | ⟨d, c, r, rfl, hd, hc⟩
  · have hscan := run_scan (s := (⟨path ++ [0], s⟩ : State V)) [] (c := 0) rfl hnul hnone
      (Or.inl rfl)
      (path.length + 1) (Nat.lt_succ_self _)
    rw [parse_of_none hnone]
    exact starts_curdir hlock hne hnul hscan (by decide)
  · have hnot : colonChar ∉ d ∧ slashChar ∉ d := by
      constructor <;> intro hmem <;> exact absurd (hd _ hmem) (by decide)
    obtain ⟨k, hk⟩ := eq_slashes r
    have hbare := bare_dropWhile r
    rw [parse_at hd hc]
    by_cases hnil : d = []
    · subst hnil
      have hroot := starts_rooted (w := w) (k := k) hlock hc hbare (by rw [← hk]; exact hnul)
      rw [← hk] at hroot
      by_cases hcolon : c = colonChar
      · rw [if_pos hcolon, if_pos rfl]
        rwa [if_neg (by rw [hcolon]; decide)] at hroot
      · rw [if_neg hcolon, if_pos rfl]
        rwa [if_pos (by simpa [isSep, hcolon] using hc)] at hroot
    · by_cases hcolon : c = colonChar
      · subst hcolon
        have hdev := starts_device (w := w) (k := k) hlock hnil hnot.1 hnot.2 hbare
          (by rw [← hk]; exact hnul)
        rw [← hk] at hdev
        rwa [if_pos rfl, if_neg hnil]
      · rw [if_neg hcolon, if_neg hnil]
        have hscan := run_scan (s := (⟨(d ++ c :: r) ++ [0], s⟩ : State V)) []
          (show (d ++ c :: r) ++ [0] = [] ++ (d ++ c :: (r ++ [0])) by simp)
          (fun h => hnul (List.mem_append_left _ h)) hd (Or.inr hc) ((d ++ c :: r).length + 1)
          (by rw [List.length_append, List.length_cons]; omega)
        have hc0 : c ≠ 0 := by
          rintro rfl
          exact absurd hc (by decide)
        rw [if_neg hc0, if_neg hcolon, List.length_nil, Nat.zero_add] at hscan
        refine starts_curdir hlock hne hnul hscan ?_
        have hpos := List.length_pos_iff.mpr hnil
        omega

/-! ### What the caller sees -/

/-- The start vnode, and the string at the subpath. -/
def seen : Outcome Panic (State V) (Except Errno (V × ℕ)) →
    Outcome Panic (Refs.State V) (Except Errno (V × Name))
  | .done r t => .done (r.map fun a => (a.1, stringAt t.path a.2)) t.vfs
  | .halt e t => .halt e t.vfs

/-- The start vnode chosen by `x`, with the string `p`. -/
def answer (x : Refs.M V (Except Errno V)) (p : Name) (s : Refs.State V) :
    Outcome Panic (Refs.State V) (Except Errno (V × Name)) :=
  match x.run s with
  | .done r t => .done (r.map fun vn => (vn, p)) t
  | .halt e t => .halt (.vfs e) t

theorem seen_of_starts {start : Start} {p : Name} (h : Starts w s path start p) :
    seen ((getdevice w).run ⟨path ++ [0], s⟩) = answer (startvn w start) p s := by
  obtain ⟨q, path', hrun, hq, -⟩ := h
  rw [hrun, run_bind, vfs, answer]
  dsimp only
  cases (startvn w start).run s with
  | halt e t => rfl
  | done r t =>
    cases r with
    | error e => rfl
    | ok vn =>
      change Outcome.done (Except.ok (vn, stringAt path' q)) t = _
      rw [hq]
      rfl

/-- The same for a halt in the VFS layer. -/
def inVfs : Outcome Refs.Panic (Refs.State V) α → Outcome Panic (Refs.State V) α
  | .done a t => .done a t
  | .halt e t => .halt (.vfs e) t

theorem findIdx_sep {d r : Name} (hd : ∀ c ∈ d, (!isSep c) = true) {c : UInt8}
    (hc : isSep c = true) :
    (d ++ c :: r).findIdx? (fun ch => ch = colonChar ∨ ch = slashChar) = some d.length := by
  have hnone : d.findIdx? (fun ch => ch = colonChar ∨ ch = slashChar) = none := by
    rw [List.findIdx?_eq_none_iff]
    intro x hx
    simpa [isSep] using hd x hx
  have hhead : decide (c = colonChar ∨ c = slashChar) = true := by simpa [isSep] using hc
  rw [List.findIdx?_append, hnone, List.findIdx?_cons, if_pos hhead]
  simp

omit [DecidableEq V] in
/-- What follows a part of the VFS layer in `Refs.getdevice`. -/
theorem inVfs_bind {x : Refs.M V (Except Errno V)} {p : Name}
    {f : Except Errno V → Refs.M V (Except Errno (V × Name))}
    (hf : ∀ r, f r = pure (r.map fun vn => (vn, p))) :
    inVfs ((x >>= f).run s) = answer x p s := by
  rw [run_bind, answer]
  cases x.run s with
  | halt e t => rfl
  | done r t =>
    change inVfs ((f r).run t) = _
    rw [hf]
    rfl

/-- **`Refs.getdevice` computes from the string what `getdevice` computes on the buffer.** -/
theorem refs_getdevice (hlock : 0 < s.biglockDepth) (hne : path ≠ []) (hnul : 0 ∉ path) :
    inVfs ((Refs.getdevice w path).run s) = seen ((getdevice w).run ⟨path ++ [0], s⟩) := by
  have hheld : (biglockHeld : Refs.M V Unit).run s = .done () s := by
    rw [biglockHeld, run_bind_of_done (run_get s), kassert, if_pos hlock]
    rfl
  have hrelative : inVfs ((Refs.getdevice.relative path).run s) =
      answer (startvn w .curdir) path s := by
    refine inVfs_bind fun r => ?_
    cases r <;> rfl
  rw [seen_of_starts (starts_parse hlock hne hnul), Refs.getdevice, run_bind_of_done hheld,
    if_neg hne]
  rcases shape path with hnone | ⟨d, c, r, rfl, hd, hc⟩
  · have hfind : path.findIdx? (fun ch => ch = colonChar ∨ ch = slashChar) = none := by
      rw [List.findIdx?_eq_none_iff]
      intro x hx
      simpa [isSep] using hnone x hx
    rw [hfind, parse_of_none hnone]
    exact hrelative
  · have hat : (d ++ c :: r)[d.length]? = some c := by
      rw [List.getElem?_append_right (Nat.le_refl _), Nat.sub_self]
      rfl
    have htake : (d ++ c :: r).take d.length = d := List.take_left ..
    have hdrop : (d ++ c :: r).drop (d.length + 1) = r := by
      rw [List.drop_append, Nat.add_sub_cancel_left, List.drop_eq_nil_of_le (by omega)]
      rfl
    rw [findIdx_sep hd hc, parse_at hd hc]
    dsimp only
    rw [hat, htake, hdrop]
    by_cases hnil : d = []
    · subst hnil
      rw [if_neg (fun h => absurd h.2 (Nat.lt_irrefl 0)), if_neg (fun h => h.2 rfl)]
      by_cases hcolon : c = colonChar
      · subst hcolon
        rw [if_neg (by decide), if_pos rfl, if_pos rfl, startvn, curfsRoot, answer]
        refine Eq.trans ?_ (inVfs_bind (x := curfsRoot w) (f := fun r' =>
          pure (r'.map fun vn => (vn, r.dropWhile (· = slashChar)))) fun _ => rfl)
        rw [curfsRoot, bind_assoc]
        refine congrArg (fun x : Refs.M V _ => inVfs (x.run s)) (congrArg _ (funext fun r' => ?_))
        cases r' with
        | error e => rfl
        | ok vn =>
          dsimp only
          cases w.vnFs vn with
          | none => rfl
          | some fs =>
            dsimp only
            rw [bind_assoc]
            refine congrArg _ (funext fun r' => ?_)
            rw [bind_assoc]
            refine congrArg _ (funext fun _ => ?_)
            cases r' <;> rfl
      · have hslash : c = slashChar := by simpa [isSep, hcolon] using hc
        subst hslash
        rw [if_pos rfl, if_neg (by decide), if_pos rfl]
        refine Eq.trans ?_ (inVfs_bind (x := bootfsRoot) (f := fun r' =>
          pure (r'.map fun vn => (vn, r.dropWhile (· = slashChar)))) fun _ => rfl)
        rw [bootfsRoot, bind_assoc]
        refine congrArg (fun x : Refs.M V _ => inVfs (x.run s)) (congrArg _ (funext fun t => ?_))
        cases t.bootfsVnode <;> rfl
    · have hpos := List.length_pos_iff.mpr hnil
      by_cases hcolon : c = colonChar
      · subst hcolon
        rw [if_pos ⟨rfl, hpos⟩, if_pos rfl, if_neg hnil]
        refine inVfs_bind fun r' => ?_
        cases r' <;> rfl
      · have hslash : c = slashChar := by simpa [isSep, hcolon] using hc
        subst hslash
        rw [if_neg (fun h => absurd h.1 (by decide)), if_pos ⟨rfl, hpos.ne'⟩, if_neg (by decide),
          if_neg hnil]
        exact hrelative

/-- **Taking a path apart.** A path means one thing only; `getdevice` starts from the vnode for it,
hands back the rest, reads nothing past the `NUL` and writes to nothing but the colon after a device
name. Two paths that mean the same give the same vnode and the same subpath. -/
theorem getdevice_prefix (w : World V) {s : Refs.State V} (hlock : 0 < s.biglockDepth) {path : Name}
    (hne : path ≠ []) (hnul : 0 ∉ path) : ∃ start p, Parses path start p ∧
      (∀ start' p', Parses path start' p' → start' = start ∧ p' = p) ∧
      Starts w s path start p ∧
      seen ((getdevice w).run ⟨path ++ [0], s⟩) = answer (startvn w start) p s ∧
      ∀ path', 0 ∉ path' → Parses path' start p →
        seen ((getdevice w).run ⟨path' ++ [0], s⟩) = seen ((getdevice w).run ⟨path ++ [0], s⟩) := by
  have hstarts := starts_parse (w := w) hlock hne hnul
  refine ⟨(parse path).1, (parse path).2, parses_iff.mpr rfl, fun start' p' h => ?_, hstarts,
    seen_of_starts hstarts, fun path' hnul' h => ?_⟩
  · rw [parses_iff.mp h]
    exact ⟨rfl, rfl⟩
  · have hparse := parses_iff.mp h
    have hne' : path' ≠ [] := by
      rintro rfl
      -- only the empty path leaves the current directory with nothing
      obtain ⟨h1, h2⟩ := Prod.mk.inj hparse
      rcases parse_cases path with hpre | hcur
      · exact (parse_of_prefixed hpre).2 h1.symm
      · rw [hcur] at h2
        exact hne h2.symm
    have hstarts' := starts_parse (w := w) hlock hne' hnul'
    rw [hparse] at hstarts'
    rw [seen_of_starts hstarts', seen_of_starts hstarts]

end Run

/-- `vol://f` is the file `f` on the device `vol`. -/
theorem getdevice_prefix_vol : ∃ start p,
    Parses (vol ++ [colonChar, slashChar, slashChar, 102]) start p ∧ start = .device vol ∧
      p = [102] ∧
      seen ((getdevice oneDisk).run
          ⟨vol ++ [colonChar, slashChar, slashChar, 102] ++ [0],
          { booted with biglockDepth := 1 }⟩) =
        answer (startvn oneDisk start) p { booted with biglockDepth := 1 } := by
  obtain ⟨start, p, hparse, -, -, hseen, -⟩ := getdevice_prefix oneDisk
    (s := { booted with biglockDepth := 1 }) (by decide)
    (show vol ++ [colonChar, slashChar, slashChar, 102] ≠ [] by decide) (by decide)
  obtain ⟨rfl, rfl⟩ := Prod.mk.inj ((parses_iff.mp hparse).symm.trans
    (show parse (vol ++ [colonChar, slashChar, slashChar, 102]) = (.device vol, [102]) by decide))
  exact ⟨_, _, hparse, rfl, rfl, hseen⟩

end Path

end Vfs

end Os161
