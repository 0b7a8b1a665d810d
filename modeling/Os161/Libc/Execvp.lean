import Os161.Libc.Snprintf

/-!
# Searching the path for a program

`userland/lib/libc/unix/execvp.c`. A program name without a slash is looked for in the directories
that the environment variable `PATH` names, separated by colons. For each of them the path is put
together in a buffer of `PATH_MAX` bytes, the directory by `memcpy`, the slash and the name by
`snprintf`, and `execv` is tried. `execv` returns only if it fails. The arguments for the program
are handed on as they are.

A directory that does not fit into the buffer is left out. But whether the name fits behind it is
not looked at, and `snprintf` cuts: then `execv` is tried on a path that is too short.

## Main results

* `Execvp.searchLoop_calls` — the paths that are tried
* `Execvp.execvp_calls_iff` — when they are those of the search path
-/

namespace Os161

namespace Execvp

open Printf

/-- `PATH_MAX`. -/
def pathMax : ℕ := 1024

/-- `ENOEXEC`, `ENOTDIR` and `ENOENT` of `kern/errno.h`. -/
def enoexec : ℕ := 13
def enotdir : ℕ := 17
def enoent : ℕ := 19

/-- `':'` and `'/'`. -/
def colon : UInt8 := 58
def slash : UInt8 := 47

/-- A string of a user program. User space ends at `0x80000000`. -/
structure UserString where
  text : List UInt8
  nonul : (0 : UInt8) ∉ text
  fits : text.length < 2 ^ 31

/-- What a call of `execv` comes to. -/
inductive ExecResult where
  /-- The program runs, and the call does not return. -/
  | started
  | failed (errno : ℕ)

/-- How `execvp` ends. -/
inductive Ending where
  | started
  /-- The result is `-1`, with this `errno`. -/
  | failed (errno : ℕ)

/-- The buffer `progpath`, and the paths `execv` was called with. -/
structure Search where
  progpath : ℕ → UInt8
  calls : List (List UInt8)

/-- The errors after which the search goes on. -/
def routine (errno : ℕ) : Bool := errno = enoent ∨ errno = enotdir ∨ errno = enoexec

/-- The `switch` after a call of `execv`: `none` if the search goes on. -/
def after : ExecResult → Option Ending
  | .started => some .started
  | .failed errno => if routine errno then none else some (.failed errno)

/-- The call of `execv` with the string in the buffer, where `execv k` is what the `k`-th call
comes to. -/
def tryPath (execv : ℕ → ExecResult) (st : Search) (progpath : ℕ → UInt8) :
    Search × Option Ending :=
  (⟨progpath, st.calls ++ [strz ((List.range pathMax).map progpath)]⟩,
    after (execv st.calls.length))

/-- The body of the loop, for the directory that is the first `len` bytes of `s`. -/
def tryDir (execv : ℕ → ExecResult) (prog : List UInt8) (st : Search) (s : List UInt8) (len : ℕ) :
    Except Stop (Search × Option Ending) :=
  if len = 0 then .ok (st, none)
  else if pathMax ≤ len then .ok (st, none)
  else do
    let progpath := store st.progpath (s.take len)
    -- `"/%s"`
    let (rest, _) ← snprintf (fun i => progpath (len + i)) (pathMax - len) [slash, 37, 115]
      [.str (some prog)]
    .ok (tryPath execv st fun i => if i < len then progpath i else rest (i - len))

theorem idxOf_lt {s : List UInt8} {c : UInt8} {i : ℕ} (h : s.idxOf? c = some i) :
    i < s.length := (List.findIdx?_eq_some_iff_findIdx_eq.mp h).1

/-- The loop of `execvp`. -/
def searchLoop (execv : ℕ → ExecResult) (prog : List UInt8) (st : Search) (s : List UInt8) :
    Except Stop (Search × Ending) :=
  match _h : s.idxOf? colon with
  | some i => do
      match ← tryDir execv prog st s i with
      | (st, some e) => .ok (st, e)
      | (st, none) => searchLoop execv prog st (s.drop (i + 1))
  | none => do
      match ← tryDir execv prog st s s.length with
      | (st, some e) => .ok (st, e)
      | (st, none) => .ok (st, .failed enoent)
termination_by s.length
decreasing_by
  have := idxOf_lt _h
  rw [List.length_drop]
  omega

/-- `execvp`, with what is in the buffer before and the value of `PATH`. -/
def execvp (execv : ℕ → ExecResult) (junk : ℕ → UInt8) (prog : UserString)
    (searchpath : Option UserString) : Except Stop (Search × Ending) :=
  if slash ∈ prog.text then
    .ok (⟨junk, [prog.text]⟩, match execv 0 with
      | .started => .started
      | .failed errno => .failed errno)
  else
    match searchpath with
    | none => .ok (⟨junk, []⟩, .failed enoent)
    | some searchpath => searchLoop execv prog.text ⟨junk, []⟩ searchpath.text

/-! ### The search path -/

/-- The path of a program in a directory. -/
def fullPath (dir prog : List UInt8) : List UInt8 := dir ++ slash :: prog

/-- The directories named by the value of `PATH`. -/
def dirs (searchpath : List UInt8) : List (List UInt8) :=
  (searchpath.splitOn colon).filter fun dir => dir ≠ []

/-- The paths to be tried: those that fit. -/
def searchPaths (searchpath prog : List UInt8) : List (List UInt8) :=
  ((dirs searchpath).filter fun dir => (fullPath dir prog).length < pathMax).map
    (fullPath · prog)

/-- The paths up to the first, of those from the `k`-th call on, that ends the search. -/
def tried (execv : ℕ → ExecResult) : ℕ → List (List UInt8) → List (List UInt8)
  | _, [] => []
  | k, path :: paths =>
      path :: match execv k with
        | .started => []
        | .failed errno => if routine errno then tried execv (k + 1) paths else []

/-! ### The paths that are tried -/

/-- What `execv` is called with for a directory: as much of the path as fits. -/
def cutPath (dir prog : List UInt8) : List UInt8 :=
  dir ++ (slash :: prog).take (pathMax - dir.length - 1)

/-- `"/%s"`. -/
theorem vprintf_slash {prog : List UInt8} (hz : (0 : UInt8) ∉ prog) (hfits : prog.length < 2 ^ 31) :
    ∃ n, vprintf collect [] [slash, 37, 115] [.str (some prog)] = .ok (slash :: prog, n) := by
  have hstr : strz prog = prog := strz_of_not_mem hz
  let pf : PF (List UInt8) := { (PF.init [] [.str (some prog)]).emit [slash] with inPct := true }
  have hs := pfSend_str pf rfl rfl (by rw [hstr]; exact hfits)
  have hpad : padded pf [] [] (strz prog) = prog := by
    rw [padded_of_spacing_zero rfl, hstr, List.nil_append, List.nil_append]
  have hrun : sendAll collect (PF.init [] [.str (some prog)]) [slash, 37, 115] =
      (pfSend collect pf (ascii 's') >>= fun pf => .ok pf) := rfl
  rw [vprintf, hrun, hs, hpad]
  exact ⟨_, rfl⟩

variable {execv : ℕ → ExecResult} {prog s : List UInt8} {len : ℕ}

/-- A directory that fits is tried, with as much of the name as fits. -/
theorem tryDir_eq (st : Search) (hs : (0 : UInt8) ∉ s) (hlen : len ≤ s.length) (hne : len ≠ 0)
    (hlt : len < pathMax) (hz : (0 : UInt8) ∉ prog) (hfits : prog.length < 2 ^ 31) :
    ∃ buf, tryDir execv prog st s len =
      .ok (⟨buf, st.calls ++ [cutPath (s.take len) prog]⟩, after (execv st.calls.length)) := by
  obtain ⟨n, hrun⟩ := vprintf_slash hz hfits
  have hdir : (s.take len).length = len := List.length_take_of_le hlen
  have hpos : 0 < pathMax - len := by omega
  have hprint := vsnprintf_eq (fun i => store st.progpath (s.take len) (len + i)) (pathMax - len)
    hrun
  rw [if_pos hpos] at hprint
  -- the directory, and behind it what `snprintf` stored
  have hbuf : (fun i => if i < len then store st.progpath (s.take len) i
      else store (fun i => store st.progpath (s.take len) (len + i))
        ((slash :: prog).take (pathMax - len - 1) ++ [0]) (i - len)) =
      store st.progpath (cutPath (s.take len) prog ++ [0]) := by
    have h := store_behind st.progpath (s.take len)
      ((slash :: prog).take (pathMax - len - 1) ++ [0])
    rw [hdir] at h
    rw [h, cutPath, hdir, List.append_assoc]
  have hcut : (cutPath (s.take len) prog).length < pathMax := by
    rw [cutPath, List.length_append, hdir, List.length_take]
    omega
  have hzcut : (0 : UInt8) ∉ cutPath (s.take len) prog := by
    intro h0
    rcases List.mem_append.mp h0 with h0 | h0
    · exact hs (List.mem_of_mem_take h0)
    · rcases List.mem_cons.mp (List.mem_of_mem_take h0) with h0 | h0
      · cases h0
      · exact hz h0
  refine ⟨store st.progpath (cutPath (s.take len) prog ++ [0]), ?_⟩
  have hpath : tryPath execv st (store st.progpath (cutPath (s.take len) prog ++ [0])) =
      (⟨store st.progpath (cutPath (s.take len) prog ++ [0]),
        st.calls ++ [cutPath (s.take len) prog]⟩, after (execv st.calls.length)) := by
    rw [tryPath, strz_store_nul hcut hzcut]
  rw [tryDir, if_neg hne, if_neg (Nat.not_le_of_lt hlt), ← hpath, ← hbuf]
  change (vsnprintf (fun i => store st.progpath (s.take len) (len + i)) (pathMax - len)
    [slash, 37, 115] [.str (some prog)] >>= _) = _
  rw [hprint]
  rfl

/-- The paths `execv` is called with if it keeps failing. -/
def cutPaths (dirs : List (List UInt8)) (prog : List UInt8) : List (List UInt8) :=
  (dirs.filter fun dir => dir ≠ [] ∧ dir.length < pathMax).map (cutPath · prog)

/-- One directory: it is left out, or it is tried and the search goes on or ends. -/
theorem tryDir_cases (execv : ℕ → ExecResult) (st : Search) (hs : (0 : UInt8) ∉ s)
    (hlen : len ≤ s.length) (hz : (0 : UInt8) ∉ prog) (hfits : prog.length < 2 ^ 31)
    (dirs : List (List UInt8)) :
    (cutPaths (s.take len :: dirs) prog = cutPaths dirs prog ∧
      tryDir execv prog st s len = .ok (st, none)) ∨
    (cutPaths (s.take len :: dirs) prog = cutPath (s.take len) prog :: cutPaths dirs prog ∧
      ∃ buf, tryDir execv prog st s len =
        .ok (⟨buf, st.calls ++ [cutPath (s.take len) prog]⟩, after (execv st.calls.length))) := by
  have hdir : (s.take len).length = len := List.length_take_of_le hlen
  by_cases hok : s.take len ≠ [] ∧ (s.take len).length < pathMax
  · refine .inr ⟨by rw [cutPaths, List.filter_cons_of_pos (by simpa using hok)]; rfl, ?_⟩
    have hne : len ≠ 0 := fun h0 => hok.1 (by rw [h0, List.take_zero])
    exact tryDir_eq st hs hlen hne (hdir ▸ hok.2) hz hfits
  · refine .inl ⟨by rw [cutPaths, List.filter_cons_of_neg (by simpa using hok)]; rfl, ?_⟩
    rw [tryDir]
    by_cases h0 : len = 0
    · rw [if_pos h0]
    · rw [if_neg h0, if_pos]
      by_contra hlt
      refine hok ⟨fun hnil => h0 ?_, by omega⟩
      rw [hnil] at hdir
      exact hdir.symm

theorem tried_cons_of_end {k : ℕ} {e : Ending} (h : after (execv k) = some e) (path : List UInt8)
    (paths : List (List UInt8)) : tried execv k (path :: paths) = [path] := by
  rw [tried]
  cases hk : execv k with
  | started => rfl
  | failed errno =>
    rw [hk, after] at h
    split at h
    · cases h
    · next hr => simp only [hr, if_false, Bool.false_eq_true]

theorem tried_cons_of_next {k : ℕ} (h : after (execv k) = none) (path : List UInt8)
    (paths : List (List UInt8)) :
    tried execv k (path :: paths) = path :: tried execv (k + 1) paths := by
  rw [tried]
  cases hk : execv k with
  | started => rw [hk] at h; cases h
  | failed errno =>
    rw [hk, after] at h
    split at h
    · next hr => simp only [hr, if_true]
    · cases h

/-- The bytes in front of the first colon, and those behind it. -/
theorem split_at_colon {i : ℕ} (h : s.idxOf? colon = some i) :
    s.splitOn colon = s.take i :: (s.drop (i + 1)).splitOn colon := by
  obtain ⟨hlt, hat, hbefore⟩ := List.findIdx?_eq_some_iff_getElem.mp h
  have hget : s[i] = colon := by simpa using hat
  have hno : colon ∉ s.take i := by
    intro hmem
    obtain ⟨j, hj, hjc⟩ := List.mem_take_iff_getElem.mp hmem
    exact hbefore j (by omega) (by simp [hjc])
  have hsplit : s = s.take i ++ colon :: s.drop (i + 1) := by
    rw [← hget, List.getElem_cons_drop, List.take_append_drop]
  conv_lhs => rw [hsplit]
  exact List.splitOn_append_cons_self_of_not_mem hno _

/-- The loop calls `execv` with the cut paths of the directories, up to the first call that ends the
search. -/
theorem searchLoop_calls (execv : ℕ → ExecResult) (hz : (0 : UInt8) ∉ prog)
    (hfits : prog.length < 2 ^ 31) (st : Search) (hs : (0 : UInt8) ∉ s) :
    ∃ buf e, searchLoop execv prog st s = .ok
      (⟨buf, st.calls ++ tried execv st.calls.length (cutPaths (s.splitOn colon) prog)⟩, e) := by
  induction hn : s.length using Nat.strongRecOn generalizing s st with
  | ind n ih =>
    rw [searchLoop]
    split
    · next i hi =>
      have hlt := idxOf_lt hi
      have hrest : (0 : UInt8) ∉ s.drop (i + 1) := fun h0 => hs (List.mem_of_mem_drop h0)
      have hlen : (s.drop (i + 1)).length < n := by
        rw [List.length_drop]
        omega
      rw [split_at_colon hi]
      rcases tryDir_cases execv st hs (Nat.le_of_lt hlt) hz hfits
        ((s.drop (i + 1)).splitOn colon) with ⟨hcut, htry⟩ | ⟨hcut, buf, htry⟩
      · rw [htry, hcut]
        exact ih _ hlen st hrest rfl
      · rw [htry, hcut]
        cases hafter : after (execv st.calls.length) with
        | some e =>
          rw [tried_cons_of_end hafter]
          exact ⟨buf, e, rfl⟩
        | none =>
          obtain ⟨buf', e, hrun⟩ :=
            ih _ hlen ⟨buf, st.calls ++ [cutPath (s.take i) prog]⟩ hrest rfl
          rw [List.length_append, List.length_singleton, List.append_assoc,
            List.singleton_append] at hrun
          rw [tried_cons_of_next hafter]
          exact ⟨buf', e, hrun⟩
    · next hnone =>
      have hno : colon ∉ s := List.idxOf?_eq_none_iff.mp hnone
      have htake : s.take s.length = s := List.take_length
      rw [List.splitOn_eq_singleton hno]
      have hcases := tryDir_cases execv st hs (Nat.le_refl s.length) hz hfits []
      rw [htake] at hcases
      rcases hcases with ⟨hcut, htry⟩ | ⟨hcut, buf, htry⟩
      · rw [htry, hcut]
        refine ⟨st.progpath, .failed enoent, ?_⟩
        have hnil : tried execv st.calls.length (cutPaths [] prog) = [] := rfl
        rw [hnil, List.append_nil]
        rfl
      · rw [htry, hcut]
        cases hafter : after (execv st.calls.length) with
        | some e =>
          rw [tried_cons_of_end hafter]
          exact ⟨buf, e, rfl⟩
        | none =>
          rw [tried_cons_of_next hafter]
          exact ⟨buf, .failed enoent, rfl⟩

/-! ### Whether the paths are those of the search path -/

theorem tried_of_enoent (k : ℕ) (paths : List (List UInt8)) :
    tried (fun _ => .failed enoent) k paths = paths := by
  induction paths generalizing k with
  | nil => rfl
  | cons path paths ih => rw [tried_cons_of_next rfl, ih]

theorem cutPath_of_fits {dir : List UInt8} (h : (fullPath dir prog).length < pathMax) :
    cutPath dir prog = fullPath dir prog := by
  rw [fullPath, List.length_append] at h
  rw [cutPath, fullPath, List.take_of_length_le (by omega)]

/-- `execvp` tries the paths of the search path, whatever comes of the calls, exactly when the name
fits behind every directory that fits. -/
theorem execvp_calls_iff (prog searchpath : UserString) (hslash : slash ∉ prog.text) :
    (∀ (execv : ℕ → ExecResult) (junk : ℕ → UInt8), ∃ buf e,
      execvp execv junk prog (some searchpath) =
        .ok (⟨buf, tried execv 0 (searchPaths searchpath.text prog.text)⟩, e)) ↔
    ∀ dir ∈ dirs searchpath.text, dir.length < pathMax →
      (fullPath dir prog.text).length < pathMax := by
  have hrun : ∀ (execv : ℕ → ExecResult) (junk : ℕ → UInt8), ∃ buf e,
      execvp execv junk prog (some searchpath) =
        .ok (⟨buf, tried execv 0 (cutPaths (searchpath.text.splitOn colon) prog.text)⟩, e) := by
    intro execv junk
    rw [execvp, if_neg hslash]
    exact searchLoop_calls execv prog.nonul prog.fits ⟨junk, []⟩ searchpath.nonul
  have hcut : cutPaths (searchpath.text.splitOn colon) prog.text =
      ((dirs searchpath.text).filter fun dir => dir.length < pathMax).map
        (cutPath · prog.text) := by
    rw [cutPaths, dirs, List.filter_filter]
    congr 2
    funext dir
    rw [Bool.and_comm]
    exact Bool.decide_and _ _
  have hsub : (dirs searchpath.text).filter (fun dir => (fullPath dir prog.text).length < pathMax) =
      ((dirs searchpath.text).filter fun dir => dir.length < pathMax).filter
        fun dir => (fullPath dir prog.text).length < pathMax := by
    rw [List.filter_filter]
    refine List.filter_congr fun dir _ => ?_
    rw [← Bool.decide_and, decide_eq_decide, fullPath, List.length_append]
    omega
  constructor
  · intro hall dir hdir hlt
    obtain ⟨buf, e, hcode⟩ := hrun (fun _ => .failed enoent) (fun _ => 0)
    obtain ⟨buf', e', hspec⟩ := hall (fun _ => .failed enoent) (fun _ => 0)
    rw [tried_of_enoent] at hcode hspec
    have heq := congrArg (fun r : Search × Ending => r.1.calls.length)
      (Except.ok.inj (hcode.symm.trans hspec))
    simp only [hcut, searchPaths, List.length_map] at heq
    rw [hsub] at heq
    have hall := List.length_filter_eq_length_iff.mp heq.symm
    have hmem : dir ∈ (dirs searchpath.text).filter fun dir => dir.length < pathMax :=
      List.mem_filter.mpr ⟨hdir, by simpa using hlt⟩
    simpa using hall dir hmem
  · intro hfit execv junk
    have heq : cutPaths (searchpath.text.splitOn colon) prog.text =
        searchPaths searchpath.text prog.text := by
      have hall : ((dirs searchpath.text).filter fun dir => dir.length < pathMax).filter
          (fun dir => (fullPath dir prog.text).length < pathMax) =
          (dirs searchpath.text).filter fun dir => dir.length < pathMax := by
        refine List.filter_eq_self.mpr fun dir hdir => ?_
        rw [List.mem_filter] at hdir
        simpa using hfit dir hdir.1 (by simpa using hdir.2)
      rw [hcut, searchPaths, hsub, hall]
      refine List.map_congr_left fun dir hdir => cutPath_of_fits ?_
      rw [List.mem_filter] at hdir
      exact hfit dir hdir.1 (by simpa using hdir.2)
    rw [← heq]
    exact hrun execv junk

/-- `"/bin"`. -/
def binPath : UserString where
  text := [47, 98, 105, 110]
  nonul := by decide
  fits := by decide

/-- `"ls"`. -/
def lsName : UserString where
  text := [108, 115]
  nonul := by decide
  fits := by decide

/-- A name of 1019 letters. -/
def longName : UserString where
  text := List.replicate 1019 97
  nonul := fun h => absurd (List.eq_of_mem_replicate h) (by decide)
  fits := by rw [List.length_replicate]; decide

theorem execvp_calls_iff_bin :
    (∀ (execv : ℕ → ExecResult) (junk : ℕ → UInt8), ∃ buf e,
      execvp execv junk lsName (some binPath) =
        .ok (⟨buf, tried execv 0 (searchPaths binPath.text lsName.text)⟩, e)) ↔
    ∀ dir ∈ dirs binPath.text, dir.length < pathMax →
      (fullPath dir lsName.text).length < pathMax :=
  execvp_calls_iff lsName binPath (by decide)

/-- The long name does not fit behind `"/bin"`, but a path with all of it but the last letter is
tried. -/
theorem not_execvp_calls :
    ¬ ∀ (execv : ℕ → ExecResult) (junk : ℕ → UInt8), ∃ buf e,
      execvp execv junk longName (some binPath) =
        .ok (⟨buf, tried execv 0 (searchPaths binPath.text longName.text)⟩, e) := by
  intro hall
  obtain ⟨buf, e, hspec⟩ := hall (fun _ => .failed enoent) (fun _ => 0)
  obtain ⟨buf', e', hcode⟩ := searchLoop_calls (fun _ => .failed enoent)
    longName.nonul longName.fits ⟨fun _ => 0, []⟩ binPath.nonul
  have hslash : slash ∉ longName.text := fun h =>
    absurd (List.eq_of_mem_replicate h) (by decide)
  rw [execvp, if_neg hslash] at hspec
  have heq := congrArg (fun r : Search × Ending => r.1.calls.length)
    (Except.ok.inj (hcode.symm.trans hspec))
  have hcut : (cutPaths (binPath.text.splitOn colon) longName.text).length = 1 := by
    decide +kernel
  have hnone : (searchPaths binPath.text longName.text).length = 0 := by decide +kernel
  simp only [tried_of_enoent, List.nil_append, hcut, hnone] at heq
  exact absurd heq (by decide)

end Execvp

end Os161
