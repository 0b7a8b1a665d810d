import Os161.Lib.Transition
import Os161.Libc.Atoi
import Os161.Libc.Strtok

/-!
# The shell

`userland/bin/sh/sh.c`. A command line is split into words. If the first word names a builtin, that
is called, and otherwise a program is run, in the background if the last word is `&`. The pids of
background jobs are remembered in the table `bgpids`, where `0` is an open slot.

What `fork`, `waitpid` and `chdir` answer is given. The messages, the echo of what is typed, and the
timing of commands are left out. A program is run with the buffer as it is after the line was split,
so its arguments are pointers into that.

An `&` by itself is a word, and so it is not an empty line. It is removed after the number of words
was looked at, and what is left is no command at all, but a process is started for it.

## Main results

* `Sh.readArgs_spec` — the arguments are the words of the line
* `Sh.docommand_keeps` — a command finds a slot for its job, and no job is forgotten
* `Sh.docommand_execvp_iff` — when what is run is the command of the line
-/

namespace Os161

namespace Sh

open Printf Strtok

/-- `NARG_MAX` and `MAXBG`. -/
def nargMax : ℕ := 1024
def maxBg : ℕ := 128

/-- `" \t\r\n"` and `"&"`. -/
def separators : List UInt8 := [32, 9, 13, 10]
def ampersand : List UInt8 := [38]

/-- `struct exitinfo`. -/
structure ExitInfo where
  val : UInt8
  signaled : Bool
  stopped : Bool
  coredump : Bool

/-- `exitinfo_exit`. -/
def exitinfoExit (code : Int32) : ExitInfo := ⟨code.toUInt32.toUInt8, false, false, false⟩

/-- What the lowest bits of a status say, `_WWHAT`, and the rest, `_WVAL`, of `kern/wait.h`. -/
def wwhat (status : Int32) : Int32 := status &&& 3
def wval (status : Int32) : Int32 := status >>> 2

/-- `__WEXITED`, `__WSIGNALED`, `__WCORED` and `__WSTOPPED`. -/
def wexited : Int32 := 0
def wsignaled : Int32 := 1
def wcored : Int32 := 2
def wstopped : Int32 := 3

/-- `readstatus`. -/
def readstatus (status : Int32) : ExitInfo :=
  if wwhat status = wexited then ⟨(wval status).toUInt32.toUInt8, false, false, false⟩
  else if (wwhat status = wsignaled ∨ wwhat status = wcored) ∧ wwhat status = wcored then
    ⟨(wval status).toUInt32.toUInt8, true, false, true⟩
  else if wwhat status = wsignaled ∨ wwhat status = wcored then
    ⟨(wval status).toUInt32.toUInt8, true, false, false⟩
  else if wwhat status = wstopped then ⟨(wval status).toUInt32.toUInt8, false, true, false⟩
  else ⟨status.toUInt32.toUInt8, false, false, false⟩

/-! ### The table of background jobs -/

/-- The shell between two commands. The last two are not in the code. They say for which slots the
job was waited for since it was remembered, and which pids were overwritten before that. -/
structure Shell where
  bgpids : ℕ → Int32
  /-- The context of `strtok`. -/
  context : Option ℕ
  waited : ℕ → Bool
  lost : List Int32

/-- What the shell gets from `fork` as the parent, if it gets a process. -/
structure Pid where
  val : Int32
  ne_zero : val ≠ 0
  ne_error : val ≠ -1

/-- `bgpids[i] = pid`. -/
def setSlot (sh : Shell) (i : ℕ) (pid : Int32) : Shell :=
  { sh with
    bgpids := Function.update sh.bgpids i pid
    waited := Function.update sh.waited i false
    lost := if sh.bgpids i = 0 ∨ sh.waited i then sh.lost else sh.lost ++ [sh.bgpids i] }

/-- `dowait`, and the other `waitpid` calls that come back with the process or not at all. -/
def dowait (sh : Shell) (pid : Int32) : Shell :=
  { sh with waited := fun i => sh.waited i || sh.bgpids i = pid }

/-- `can_bg`. -/
def canBg (sh : Shell) : Bool := (List.range maxBg).any fun i => sh.bgpids i = 0

/-- `remember_bg`, or `none` if the assertion fails. -/
def rememberBg (sh : Shell) (pid : Int32) : Option Shell :=
  ((List.range maxBg).find? fun i => sh.bgpids i = 0).map fun i => setSlot sh i pid

/-- `dowaitpoll`, where the call of `waitpid` gives `foundpid`. -/
def dowaitpoll (foundpid : Int32) (sh : Shell) (pid : Int32) : Shell × Bool :=
  if foundpid < 0 then (sh, false)
  else if foundpid ≠ 0 then (dowait sh pid, true)
  else (sh, false)

/-- The body of the loop of `waitpoll`. -/
def pollSlot (found : ℕ → Int32) (sh : Shell) (i : ℕ) : Shell :=
  if sh.bgpids i ≠ 0 then
    match dowaitpoll (found i) sh (sh.bgpids i) with
    | (sh, true) => setSlot sh i 0
    | (sh, false) => sh
  else sh

/-- `waitpoll`. -/
def waitpoll (found : ℕ → Int32) (sh : Shell) : Shell :=
  (List.range maxBg).foldl (pollSlot found) sh

/-! ### Builtins -/

/-- The string at an argument. -/
def arg (buf : List UInt8) (args : ℕ → Option ℕ) (i : ℕ) : List UInt8 :=
  match args i with
  | some p => strz (buf.drop p)
  | none => []

/-- How a command ends. -/
inductive Outcome where
  | returned (ei : ExitInfo)
  /-- The shell exits. -/
  | exited (code : Int32)
  /-- An assertion fails. -/
  | asserted

/-- The bodies of the loops of `cmd_wait`. -/
def clearSlot (pid : Int32) (sh : Shell) (i : ℕ) : Shell :=
  if sh.bgpids i = pid then setSlot sh i 0 else sh

def waitSlot (sh : Shell) (i : ℕ) : Shell :=
  if sh.bgpids i ≠ 0 then setSlot (dowait sh (sh.bgpids i)) i 0 else sh

/-- `cmd_wait`. -/
def cmdWait (buf : List UInt8) (ac : ℕ) (av : ℕ → Option ℕ) (sh : Shell) : Shell × Outcome :=
  if ac = 2 then
    let pid := atoi (arg buf av 1)
    ((List.range maxBg).foldl (clearSlot pid) (dowait sh pid), .returned (exitinfoExit 0))
  else if ac = 1 then ((List.range maxBg).foldl waitSlot sh, .returned (exitinfoExit 0))
  else (sh, .returned (exitinfoExit 1))

/-- `cmd_chdir`, where `chdir` says whether the call succeeds. -/
def cmdChdir (chdir : List UInt8 → Bool) (buf : List UInt8) (ac : ℕ) (av : ℕ → Option ℕ)
    (sh : Shell) : Shell × Outcome :=
  if ac = 2 then
    if chdir (arg buf av 1) then (sh, .returned (exitinfoExit 0))
    else (sh, .returned (exitinfoExit 1))
  else (sh, .returned (exitinfoExit 1))

/-- `cmd_exit`. -/
def cmdExit (buf : List UInt8) (ac : ℕ) (av : ℕ → Option ℕ) (sh : Shell) : Shell × Outcome :=
  if ac = 1 then (sh, .exited 0)
  else if ac = 2 then (sh, .exited (atoi (arg buf av 1)))
  else (sh, .returned (exitinfoExit 1))

/-- What the system answers while a command is carried out. -/
structure Answers where
  chdir : List UInt8 → Bool
  fork : Option Pid
  /-- The status, if `waitpid` succeeds. -/
  waitpid : Option Int32

/-- `builtins`. -/
def builtins (k : Answers) :
    List (List UInt8 × (List UInt8 → ℕ → (ℕ → Option ℕ) → Shell → Shell × Outcome)) :=
  [(['c', 'd'].map ascii, cmdChdir k.chdir),
    (['c', 'h', 'd', 'i', 'r'].map ascii, cmdChdir k.chdir),
    (['e', 'x', 'i', 't'].map ascii, cmdExit),
    (['w', 'a', 'i', 't'].map ascii, cmdWait)]

/-! ### Carrying out a command line -/

/-- What the loop over the words leaves: the buffer and the context, the arguments and their number,
and whether there were too many. -/
structure Tokens where
  buf : List UInt8
  context : Option ℕ
  args : ℕ → Option ℕ
  nargs : ℕ
  tooMany : Bool

/-- The loop over the words, where `s` is the last one `strtok` returned. -/
def readArgs (buf : List UInt8) (context s : Option ℕ) (args : ℕ → Option ℕ) (nargs : ℕ) : Tokens :=
  match s with
  | none => ⟨buf, context, args, nargs, false⟩
  | some p =>
      if nargMax ≤ nargs then ⟨buf, context, args, nargs, true⟩
      else
        let r := strtokR buf none separators context
        readArgs r.buf r.context r.token (Function.update args nargs (some p)) (nargs + 1)
termination_by nargMax - nargs

/-- A call of `execvp`, with the memory the pointers go to. -/
structure Exec where
  buf : List UInt8
  prog : Option ℕ
  args : ℕ → Option ℕ

/-- What a command line comes to, with the program the child runs. -/
structure Ran where
  shell : Shell
  outcome : Outcome
  exec : Option Exec

/-- `docommand` from the call of `fork` on. -/
def launch (k : Answers) (buf : List UInt8) (args : ℕ → Option ℕ) (bg : Bool) (sh : Shell) : Ran :=
  match k.fork with
  | none => ⟨sh, .returned (exitinfoExit 255), none⟩
  | some pid =>
      let exec : Exec := ⟨buf, args 0, args⟩
      if bg then
        match rememberBg sh pid.val with
        | some sh => ⟨sh, .returned (exitinfoExit 0), some exec⟩
        | none => ⟨sh, .asserted, some exec⟩
      else
        match k.waitpid with
        | some status => ⟨dowait sh pid.val, .returned (readstatus status), some exec⟩
        | none => ⟨dowait sh pid.val, .returned (exitinfoExit 255), some exec⟩

/-- `docommand` for arguments that are not a builtin. -/
def runProgram (k : Answers) (buf : List UInt8) (args : ℕ → Option ℕ) (nargs : ℕ) (sh : Shell) :
    Ran :=
  if 0 < nargs ∧ arg buf args (nargs - 1) = ampersand then
    if canBg sh then launch k buf (Function.update args (nargs - 1) none) true sh
    else ⟨sh, .returned (exitinfoExit 1), none⟩
  else launch k buf args false sh

/-- `docommand`, where `junk` is in the array of arguments before. -/
def docommand (k : Answers) (junk : ℕ → Option ℕ) (buf : List UInt8) (sh : Shell) : Ran :=
  let r := strtokR buf (some 0) separators sh.context
  let t := readArgs r.buf r.context r.token junk 0
  let sh := { sh with context := t.context }
  if t.tooMany then ⟨sh, .returned (exitinfoExit 1), none⟩
  else
    let args := Function.update t.args t.nargs none
    if t.nargs = 0 then ⟨sh, .returned (exitinfoExit 0), none⟩
    else
      match (builtins k).find? fun b => b.1 = arg t.buf args 0 with
      | some b =>
          let ended := b.2 t.buf t.nargs args sh
          ⟨ended.1, ended.2, none⟩
      | none => runProgram k t.buf args t.nargs sh

/-! ### The words of the line -/

/-- The arguments are pointers that are related to the words. -/
def Points (holds : ℕ → List UInt8 → Prop) (args : ℕ → Option ℕ) (ws : List (List UInt8)) : Prop :=
  ∀ i w, ws[i]? = some w → ∃ p, args i = some p ∧ holds p w

section

variable {holds holds' : ℕ → List UInt8 → Prop} {args : ℕ → Option ℕ} {ws : List (List UInt8)}

theorem Points.imp (h : Points holds args ws) (himp : ∀ p w, holds p w → holds' p w) :
    Points holds' args ws := fun i w hw =>
  let ⟨p, hp, hpw⟩ := h i w hw
  ⟨p, hp, himp p w hpw⟩

/-- What is behind the words does not matter. -/
theorem Points.update (h : Points holds args ws) {n : ℕ} (hn : ws.length ≤ n) (p : Option ℕ) :
    Points holds (Function.update args n p) ws := by
  intro i w hw
  have hi : i < ws.length := (List.getElem?_eq_some_iff.mp hw).1
  rw [Function.update_of_ne (by omega)]
  exact h i w hw

theorem Points.snoc (h : Points holds args ws) {p : ℕ} {w : List UInt8} (hw : holds p w) :
    Points holds (Function.update args ws.length (some p)) (ws ++ [w]) := by
  intro i v hv
  rcases Nat.lt_trichotomy i ws.length with hi | rfl | hi
  · rw [List.getElem?_append_left hi] at hv
    exact h.update (Nat.le_refl _) _ i v hv
  · rw [List.getElem?_append_right (Nat.le_refl _), Nat.sub_self] at hv
    obtain rfl := Option.some.inj hv
    exact ⟨p, Function.update_self .., hw⟩
  · rw [List.getElem?_eq_none (by simp; omega)] at hv
    cases hv

theorem Points.of_append {vs : List (List UInt8)} (h : Points holds args (ws ++ vs)) :
    Points holds args ws := fun i w hw => by
  have hi : i < ws.length := (List.getElem?_eq_some_iff.mp hw).1
  exact h i w (by rw [List.getElem?_append_left hi, hw])

end

/-- The string at `p` is `w`. -/
def Reads (buf : List UInt8) (p : ℕ) (w : List UInt8) : Prop := strz (buf.drop p) = w

/-- What the loop over the words leaves, if these are `ws`. -/
inductive Tokenised (ws : List (List UInt8)) (t : Tokens) : Prop
  | all (hlen : ws.length ≤ nargMax) (hmany : t.tooMany = false) (hnargs : t.nargs = ws.length)
      (hargs : Points (Reads t.buf) t.args ws)
  | tooMany (hlen : nargMax < ws.length) (hmany : t.tooMany = true)

/-- The loop goes on: the words `done` are in `pre`, and the rest are those of `l`. -/
theorem tokenised_of_call {pre l rest : List UInt8} {r : Result} {args : ℕ → Option ℕ}
    {done : List (List UInt8)} (hrest : Ends rest) (hargs : Points (StoredIn pre) args done)
    (hlen : done.length ≤ nargMax) (hcall : Call separators pre l rest r) :
    Tokenised (done ++ words separators l)
      (readArgs r.buf r.context r.token args done.length) := by
  induction hk : nargMax - done.length generalizing pre l r args done with
  | zero =>
    cases hcall with
    | nothing hw =>
      rw [hw, List.append_nil, readArgs]
      exact .all hlen rfl rfl (hargs.imp fun p w h => h.read _)
    | last hw =>
      rw [readArgs, if_pos (by omega)]
      exact .tooMany (by rw [hw]; simp; omega) rfl
    | cut hw =>
      rw [readArgs, if_pos (by omega)]
      exact .tooMany (by rw [hw]; simp; omega) rfl
  | succ k ih =>
    cases hcall with
    | nothing hw =>
      rw [hw, List.append_nil, readArgs]
      exact .all hlen rfl rfl (hargs.imp fun p w h => h.read _)
    | @last p w hw hread =>
      -- the next call finds the context to be `NULL`
      have hnone : strtokR (pre ++ (l ++ rest)) none separators none =
          ⟨pre ++ (l ++ rest), none, none⟩ := rfl
      rw [hw, readArgs, if_neg (by omega)]
      simp only [hnone]
      rw [readArgs]
      refine .all ?_ rfl ?_ ?_
      · simp
        omega
      · simp
      · exact (hargs.imp fun p w h => h.read _).snoc hread
    | @cut p w t l' hw hstored hz =>
      have hnext : Call separators (pre ++ t) l' rest (strtokR ((pre ++ t) ++ (l' ++ rest)) none
          separators (some (pre ++ t).length)) := strtokR_spec rfl hz hrest
      have hdone : (done ++ [w]).length = done.length + 1 := List.length_append
      have h := ih ((hargs.imp fun p w h => h.mono t).snoc hstored) (by omega) hnext (by omega)
      rw [List.append_assoc, List.singleton_append, hdone] at h
      rw [hw, readArgs, if_neg (by omega)]
      exact h

/-- **The arguments are the words of the line.** -/
theorem readArgs_spec (buf : List UInt8) (context : Option ℕ) (junk : ℕ → Option ℕ) :
    Tokenised (words separators (strz buf))
      (readArgs (strtokR buf (some 0) separators context).buf
        (strtokR buf (some 0) separators context).context
        (strtokR buf (some 0) separators context).token junk 0) := by
  obtain ⟨rest, hbuf, hrest⟩ := exists_ends buf
  have hcall : Call separators [] (strz buf) rest (strtokR ([] ++ (strz buf ++ rest)) (some 0)
      separators context) := strtokR_spec rfl (zero_not_mem_strz buf) hrest
  rw [List.nil_append, ← hbuf] at hcall
  have hargs : Points (StoredIn []) junk [] := fun i w hw => by simp at hw
  exact tokenised_of_call hrest hargs (Nat.zero_le _) hcall

/-! ### What is run -/

/-- The words before an `&` at the end. -/
def dropAmpersand (ws : List (List UInt8)) : List (List UInt8) :=
  if ws.getLast? = some ampersand then ws.dropLast else ws

theorem length_dropAmpersand_le (ws : List (List UInt8)) :
    (dropAmpersand ws).length ≤ ws.length := by
  unfold dropAmpersand
  split
  · rw [List.length_dropLast]
    omega
  · exact Nat.le_refl _

theorem eq_ampersand_of_drop {ws : List (List UInt8)} (hne : ws ≠ [])
    (h : dropAmpersand ws = []) : ws = [ampersand] := by
  unfold dropAmpersand at h
  split at h
  · next hlast => rw [← List.dropLast_append_getLast? _ hlast, h, List.nil_append]
  · exact absurd h hne

/-- The call of `execvp` runs the command of the line. -/
structure Exec.Runs (e : Exec) (line : List UInt8) : Prop where
  prog : e.prog = e.args 0
  prog_ne : e.prog ≠ none
  args : Points (Reads e.buf) e.args (dropAmpersand (words separators line))
  length_le : (dropAmpersand (words separators line)).length ≤ nargMax
  null : e.args (dropAmpersand (words separators line)).length = none

theorem canBg_iff {sh : Shell} : canBg sh = true ↔ ∃ i < maxBg, sh.bgpids i = 0 := by
  rw [canBg, List.any_eq_true]
  simp only [List.mem_range, decide_eq_true_eq]

theorem launch_exec (k : Answers) (buf : List UInt8) (args : ℕ → Option ℕ) (bg : Bool)
    (sh : Shell) :
    (launch k buf args bg sh).exec = k.fork.map fun _ => ⟨buf, args 0, args⟩ := by
  unfold launch
  split
  · next hfork => rw [hfork, Option.map_none]
  · next pid hfork =>
    rw [hfork, Option.map_some]
    split
    · split <;> rfl
    · split <;> rfl

section

variable {buf : List UInt8} {args : ℕ → Option ℕ} {ws : List (List UInt8)}

theorem arg_eq (h : Points (Reads buf) args ws) {i : ℕ} {w : List UInt8} (hw : ws[i]? = some w) :
    arg buf args i = w := by
  obtain ⟨p, hp, hread⟩ := h i w hw
  rw [arg, hp]
  exact hread

/-- The test for the `&` looks at the last word. -/
theorem last_iff (h : Points (Reads buf) args ws) :
    (0 < ws.length ∧ arg buf args (ws.length - 1) = ampersand) ↔
      ws.getLast? = some ampersand := by
  rw [List.getLast?_eq_getElem?]
  constructor
  · rintro ⟨hpos, hlast⟩
    have hw : ws[ws.length - 1]? = some ws[ws.length - 1] := List.getElem?_eq_getElem (by omega)
    rw [hw, ← arg_eq h hw, hlast]
  · intro hw
    have hlt := (List.getElem?_eq_some_iff.mp hw).1
    exact ⟨by omega, arg_eq h hw⟩

/-- A program is run with the words before the `&`, if there is a slot for it and a process. -/
theorem runProgram_exec (k : Answers) (sh : Shell) (hne : ws ≠ [])
    (hargs : Points (Reads buf) args ws)
    (hnull : args ws.length = none) :
    ∃ args', Points (Reads buf) args' (dropAmpersand ws) ∧
      args' (dropAmpersand ws).length = none ∧
      (runProgram k buf args ws.length sh).exec =
        if ws.getLast? = some ampersand ∧ canBg sh = false then none
        else k.fork.map fun _ => ⟨buf, args' 0, args'⟩ := by
  by_cases hlast : ws.getLast? = some ampersand
  · have hcut : ws.dropLast.length = ws.length - 1 := List.length_dropLast
    have hdrop : Points (Reads buf) args ws.dropLast := by
      rw [← List.dropLast_append_getLast hne] at hargs
      exact hargs.of_append
    rw [dropAmpersand, if_pos hlast, runProgram, if_pos ((last_iff hargs).mpr hlast), hcut]
    refine ⟨Function.update args (ws.length - 1) none, hdrop.update (by omega) _,
      Function.update_self .., ?_⟩
    cases hbg : canBg sh with
    | true => rw [if_pos rfl, launch_exec, if_neg (by simp)]
    | false => rw [if_neg (by simp), if_pos ⟨hlast, rfl⟩]
  · rw [dropAmpersand, if_neg hlast, runProgram, if_neg (mt (last_iff hargs).mp hlast),
      launch_exec]
    exact ⟨args, hargs, hnull, (if_neg fun h => hlast h.1).symm⟩

end

/-- No program is run for the line, or the program its words name. -/
inductive Parsed (k : Answers) (junk : ℕ → Option ℕ) (buf : List UInt8) (sh : Shell) : Prop
  | quiet (hexec : (docommand k junk buf sh).exec = none)
      (hw : words separators (strz buf) ≠ [ampersand])
  | program {buf' : List UInt8} {args : ℕ → Option ℕ} {sh' : Shell}
      (hne : words separators (strz buf) ≠ [])
      (hlen : (words separators (strz buf)).length ≤ nargMax)
      (hargs : Points (Reads buf') args (words separators (strz buf)))
      (hnull : args (words separators (strz buf)).length = none)
      (hrun : docommand k junk buf sh =
        runProgram k buf' args (words separators (strz buf)).length sh')
      (hbg : sh'.bgpids = sh.bgpids)

theorem builtins_ampersand (k : Answers) :
    ((builtins k).find? fun b => b.1 = ampersand) = none := rfl

theorem parsed (k : Answers) (junk : ℕ → Option ℕ) (buf : List UInt8) (sh : Shell) :
    Parsed k junk buf sh := by
  have hread := readArgs_spec buf sh.context junk
  generalize ht : readArgs _ _ _ junk 0 = t at hread
  have hrun : docommand k junk buf sh =
      if t.tooMany then ⟨{ sh with context := t.context }, .returned (exitinfoExit 1), none⟩
      else if t.nargs = 0 then ⟨{ sh with context := t.context }, .returned (exitinfoExit 0), none⟩
      else
        match (builtins k).find? fun b =>
          b.1 = arg t.buf (Function.update t.args t.nargs none) 0 with
        | some b =>
            let ended := b.2 t.buf t.nargs (Function.update t.args t.nargs none)
              { sh with context := t.context }
            ⟨ended.1, ended.2, none⟩
        | none =>
            runProgram k t.buf (Function.update t.args t.nargs none) t.nargs
              { sh with context := t.context } := by
    rw [docommand, ht]
  cases hread with
  | tooMany hlen hmany =>
    refine .quiet (by rw [hrun, if_pos hmany]) fun hw => ?_
    rw [hw] at hlen
    exact absurd hlen (by decide)
  | all hlen hmany hnargs hargs =>
    rw [if_neg (by rw [hmany]; decide)] at hrun
    by_cases hempty : words separators (strz buf) = []
    · refine .quiet ?_ (by rw [hempty]; simp)
      rw [hrun, if_pos (by rw [hnargs, hempty]; rfl)]
    · have hargs' : Points (Reads t.buf) (Function.update t.args t.nargs none)
          (words separators (strz buf)) := hargs.update (by omega) _
      rw [if_neg (by rw [hnargs]; simpa using hempty)] at hrun
      split at hrun
      · next b hb =>
        refine .quiet (by rw [hrun]) fun hw => ?_
        rw [arg_eq (i := 0) hargs' (by rw [hw]; rfl), builtins_ampersand] at hb
        cases hb
      · rw [hnargs] at hrun hargs'
        exact .program hempty hlen hargs' (Function.update_self ..) hrun rfl

/-- What is run is the command of the line, unless it is nothing but an `&`. -/
theorem exec_runs_iff (k : Answers) (junk : ℕ → Option ℕ) (buf : List UInt8) (sh : Shell) :
    (∀ e, (docommand k junk buf sh).exec = some e → e.Runs (strz buf)) ↔
      ¬ (words separators (strz buf) = [ampersand] ∧ canBg sh = true ∧ k.fork.isSome) := by
  cases parsed k junk buf sh with
  | quiet hexec hw =>
    rw [hexec]
    exact ⟨fun _ h => hw h.1, fun _ e he => by cases he⟩
  | @program buf' args sh' hne hlen hargs hnull hrun hbg =>
    obtain ⟨args', hargs', hnull', hexec⟩ := runProgram_exec k sh' hne hargs hnull
    have hcan : canBg sh' = canBg sh := by rw [canBg, canBg, hbg]
    rw [hrun, hexec, hcan]
    constructor
    · rintro hall ⟨hw, hcan, hfork⟩
      obtain ⟨pid, hpid⟩ := Option.isSome_iff_exists.mp hfork
      rw [hpid, if_neg (by simp [hcan])] at hall
      refine (hall _ rfl).prog_ne ?_
      rw [hw] at hnull'
      exact hnull'
    · intro hcond e he
      split at he
      · cases he
      · next hslot =>
        rw [Option.map_eq_some_iff] at he
        obtain ⟨pid, hpid, rfl⟩ := he
        refine ⟨rfl, fun hnone => hcond ?_, hargs', ?_, hnull'⟩
        · have hnil : dropAmpersand (words separators (strz buf)) = [] := by
            by_contra hcons
            obtain ⟨w, ws, hws⟩ := List.exists_cons_of_ne_nil hcons
            obtain ⟨p, hp, -⟩ := hargs' 0 w (by rw [hws]; rfl)
            rw [hp] at hnone
            cases hnone
          have hw := eq_ampersand_of_drop hne hnil
          exact ⟨hw, by simpa [hw] using hslot, by rw [hpid]; rfl⟩
        · exact (length_dropAmpersand_le _).trans hlen

/-! ### The table over a command -/

section

variable {sh : Shell}

theorem setSlot_lost {i : ℕ} (h : sh.bgpids i = 0 ∨ sh.waited i = true) (pid : Int32) :
    (setSlot sh i pid).lost = sh.lost := if_pos h

theorem rememberBg_isSome (h : canBg sh = true) (pid : Int32) :
    ∃ sh', rememberBg sh pid = some sh' ∧ sh'.lost = sh.lost := by
  obtain ⟨i, hi, hfree⟩ := canBg_iff.mp h
  have hfind : ((List.range maxBg).find? fun i => sh.bgpids i = 0).isSome :=
    List.find?_isSome.mpr ⟨i, List.mem_range.mpr hi, by simpa using hfree⟩
  obtain ⟨j, hj⟩ := Option.isSome_iff_exists.mp hfind
  have hopen : sh.bgpids j = 0 := by simpa using List.find?_some hj
  exact ⟨setSlot sh j pid, by rw [rememberBg, hj, Option.map_some], setSlot_lost (.inl hopen) pid⟩

theorem dowait_waited (sh : Shell) {i : ℕ} {pid : Int32} (h : sh.bgpids i = pid) :
    (dowait sh pid).waited i = true := by
  have hi : (dowait sh pid).waited i = (sh.waited i || decide (sh.bgpids i = pid)) := rfl
  rw [hi, decide_eq_true h, Bool.or_true]

theorem waitSlot_lost (sh : Shell) (i : ℕ) : (waitSlot sh i).lost = sh.lost := by
  unfold waitSlot
  split
  · exact setSlot_lost (.inr (dowait_waited sh rfl)) 0
  · rfl

theorem pollSlot_lost (found : ℕ → Int32) (sh : Shell) (i : ℕ) :
    (pollSlot found sh i).lost = sh.lost := by
  unfold pollSlot dowaitpoll
  split
  · split
    · next sh' hpoll =>
      -- the slot is cleared only if the process was found
      split at hpoll
      · cases hpoll
      · split at hpoll
        · cases hpoll
          exact setSlot_lost (.inr (dowait_waited sh rfl)) 0
        · cases hpoll
    · next sh' hpoll =>
      split at hpoll
      · cases hpoll
        rfl
      · split at hpoll
        · cases hpoll
        · cases hpoll
          rfl
  · rfl

/-- The slots of a job that was waited for are open, or known to be waited for. -/
theorem clearSlot_keeps {pid : Int32} (h : ∀ j, sh.bgpids j = pid → pid = 0 ∨ sh.waited j = true)
    (i : ℕ) : (clearSlot pid sh i).lost = sh.lost ∧
      ∀ j, (clearSlot pid sh i).bgpids j = pid →
        pid = 0 ∨ (clearSlot pid sh i).waited j = true := by
  unfold clearSlot
  split
  · next hi =>
    refine ⟨setSlot_lost ((h i hi).imp_left fun h0 => hi.trans h0) 0, fun j hj => ?_⟩
    by_cases hji : j = i
    · subst hji
      rw [setSlot] at hj
      exact .inl ((Function.update_self j (0 : Int32) sh.bgpids).symm.trans hj).symm
    · have hwaited : (setSlot sh i 0).waited j = sh.waited j := Function.update_of_ne hji ..
      have hbgpids : (setSlot sh i 0).bgpids j = sh.bgpids j := Function.update_of_ne hji ..
      rw [hwaited]
      exact h j (hbgpids ▸ hj)
  · exact ⟨rfl, h⟩

theorem waitpoll_lost (found : ℕ → Int32) (sh : Shell) : (waitpoll found sh).lost = sh.lost := by
  rw [waitpoll]
  refine List.foldlRecOn (motive := fun sh' : Shell => sh'.lost = sh.lost) _ _ rfl ?_
  intro sh' h i _
  rw [pollSlot_lost, h]

theorem cmdWait_lost (buf : List UInt8) (ac : ℕ) (av : ℕ → Option ℕ) (sh : Shell) :
    (cmdWait buf ac av sh).1.lost = sh.lost := by
  unfold cmdWait
  split
  · generalize atoi (arg buf av 1) = pid
    refine And.left (List.foldlRecOn (motive := fun sh' : Shell => sh'.lost = sh.lost ∧
      ∀ j, sh'.bgpids j = pid → pid = 0 ∨ sh'.waited j = true) _ _
      ⟨rfl, fun j hj => .inr (dowait_waited sh hj)⟩ ?_)
    intro sh' h i _
    obtain ⟨hlost, hwaited⟩ := clearSlot_keeps h.2 i
    exact ⟨hlost.trans h.1, hwaited⟩
  · split
    · refine List.foldlRecOn (motive := fun sh' : Shell => sh'.lost = sh.lost) _ _ rfl ?_
      intro sh' h i _
      rw [waitSlot_lost, h]
    · rfl

end

/-- No job is forgotten, and no assertion fails. -/
structure Ran.Keeps (r : Ran) (sh : Shell) : Prop where
  outcome : r.outcome ≠ .asserted
  lost : r.shell.lost = sh.lost

theorem launch_keeps (k : Answers) (buf : List UInt8) (args : ℕ → Option ℕ) {bg : Bool}
    {sh : Shell} (hbg : bg = true → canBg sh = true) : (launch k buf args bg sh).Keeps sh := by
  unfold launch
  split
  · exact ⟨by simp, rfl⟩
  · next pid _ =>
    split
    · next hb =>
      obtain ⟨sh', hsh', hlost⟩ := rememberBg_isSome (hbg hb) pid.val
      simp only [hsh']
      exact ⟨by simp, hlost⟩
    · split <;> exact ⟨by simp, rfl⟩

theorem runProgram_keeps (k : Answers) (buf : List UInt8) (args : ℕ → Option ℕ) (nargs : ℕ)
    (sh : Shell) : (runProgram k buf args nargs sh).Keeps sh := by
  unfold runProgram
  split
  · split
    · next hbg => exact launch_keeps k buf _ fun _ => hbg
    · exact ⟨by simp, rfl⟩
  · exact launch_keeps k buf args fun h => by cases h

theorem builtins_keep {k : Answers} {b} (hb : b ∈ builtins k) (buf : List UInt8) (ac : ℕ)
    (av : ℕ → Option ℕ) (sh : Shell) :
    (b.2 buf ac av sh).2 ≠ .asserted ∧ (b.2 buf ac av sh).1.lost = sh.lost := by
  have hchdir : (cmdChdir k.chdir buf ac av sh).2 ≠ .asserted ∧
      (cmdChdir k.chdir buf ac av sh).1.lost = sh.lost := by
    unfold cmdChdir
    split
    · split <;> exact ⟨by simp, rfl⟩
    · exact ⟨by simp, rfl⟩
  have hexit : (cmdExit buf ac av sh).2 ≠ .asserted ∧ (cmdExit buf ac av sh).1.lost = sh.lost := by
    unfold cmdExit
    split
    · exact ⟨by simp, rfl⟩
    · split <;> exact ⟨by simp, rfl⟩
  have hwait : (cmdWait buf ac av sh).2 ≠ .asserted := by
    unfold cmdWait
    split
    · simp
    · split <;> simp
  simp only [builtins, List.mem_cons, List.not_mem_nil, or_false] at hb
  rcases hb with rfl | rfl | rfl | rfl
  · exact hchdir
  · exact hchdir
  · exact hexit
  · exact ⟨hwait, cmdWait_lost buf ac av sh⟩

/-- **A command finds a slot for its job**, and forgets none. -/
theorem docommand_keeps (k : Answers) (junk : ℕ → Option ℕ) (buf : List UInt8) (sh : Shell) :
    (docommand k junk buf sh).Keeps sh := by
  rw [docommand]
  generalize readArgs _ _ _ junk 0 = t
  dsimp only
  split
  · exact ⟨by simp, rfl⟩
  · split
    · exact ⟨by simp, rfl⟩
    · split
      · next b hb =>
        obtain ⟨houtcome, hlost⟩ := builtins_keep (List.mem_of_find?_eq_some hb) t.buf t.nargs
          (Function.update t.args t.nargs none) { sh with context := t.context }
        exact ⟨houtcome, hlost⟩
      · have h := runProgram_keeps k t.buf (Function.update t.args t.nargs none) t.nargs
          { sh with context := t.context }
        exact ⟨h.outcome, h.lost⟩

/-! ### A sequence of command lines -/

/-- The shell, and how it ended if it did. -/
structure Session where
  shell : Shell
  ended : Option Outcome

/-- A command line in a buffer, what the array of arguments holds before, and what the system
answers. -/
structure Line where
  buf : List UInt8
  junk : ℕ → Option ℕ
  answers : Answers
  /-- What `waitpoll` gets from `waitpid`, by slot. -/
  found : ℕ → Int32

/-- How a command line is given. -/
inductive Action where
  /-- It is typed in, in the loop of `interactive`. -/
  | interactive (l : Line)
  /-- `sh -c` is called with it. -/
  | dashC (l : Line)

/-- The end of `main` after `sh -c`. -/
def exitCode (ei : ExitInfo) : Int32 :=
  if ei.signaled ∨ ei.stopped ∨ ei.val ≠ 0 then 1 else 0

/-- A shell that starts with an empty table and takes command lines until it ends. -/
def system : TransitionSystem Session Action where
  init s := s.shell.bgpids = (fun _ => 0) ∧ s.shell.lost = [] ∧ s.ended = none
  step s a :=
    match s.ended, a with
    | some _, _ => none
    | none, .interactive l =>
        let r := docommand l.answers l.junk l.buf s.shell
        match r.outcome with
        | .returned _ => some ⟨waitpoll l.found r.shell, none⟩
        | ended => some ⟨r.shell, some ended⟩
    | none, .dashC l =>
        let r := docommand l.answers l.junk l.buf s.shell
        match r.outcome with
        | .returned ei => some ⟨r.shell, some (.exited (exitCode ei))⟩
        | ended => some ⟨r.shell, some ended⟩

theorem step_keeps {s s' : Session} {a : Action} (h : s.ended ≠ some .asserted ∧ s.shell.lost = [])
    (hs : system.step s a = some s') : s'.ended ≠ some .asserted ∧ s'.shell.lost = [] := by
  obtain ⟨shell, ended⟩ := s
  obtain ⟨-, hlost⟩ := h
  cases ended with
  | some o => cases hs
  | none =>
    cases a with
    | interactive l =>
      have hkeep := docommand_keeps l.answers l.junk l.buf shell
      simp only [system] at hs
      split at hs
      · obtain rfl := Option.some.inj hs
        exact ⟨by simp, by rw [waitpoll_lost, hkeep.lost, hlost]⟩
      · obtain rfl := Option.some.inj hs
        exact ⟨fun h => hkeep.outcome (Option.some.inj h), by rw [hkeep.lost, hlost]⟩
    | dashC l =>
      have hkeep := docommand_keeps l.answers l.junk l.buf shell
      simp only [system] at hs
      split at hs
      · obtain rfl := Option.some.inj hs
        exact ⟨by simp, by rw [hkeep.lost, hlost]⟩
      · obtain rfl := Option.some.inj hs
        exact ⟨fun h => hkeep.outcome (Option.some.inj h), by rw [hkeep.lost, hlost]⟩

/-- **What the shell runs.** The program and the arguments are the words of the line, unless that is
an `&` and nothing else, and a slot and a process are there for it. Over all command lines, the
table keeps the jobs until they are waited for, and `remember_bg` finds a slot. -/
theorem docommand_execvp_iff (k : Answers) (junk : ℕ → Option ℕ) (buf : List UInt8)
    (st : Shell) :
    ((∀ e, (docommand k junk buf st).exec = some e → e.Runs (strz buf)) ↔
        ¬ (words separators (strz buf) = [ampersand] ∧ (∃ i < maxBg, st.bgpids i = 0) ∧
          k.fork.isSome)) ∧
      ∀ s, system.Reachable s → s.ended ≠ some .asserted ∧ s.shell.lost = [] := by
  refine ⟨?_, fun s hs => ?_⟩
  · rw [exec_runs_iff, canBg_iff]
  · refine hs.invariant (fun s h => ?_) fun s a s' h hstep => step_keeps h hstep
    exact ⟨by simp [h.2.2], h.2.1⟩

/-- The shell as it starts. -/
def Session.fresh : Session := ⟨⟨fun _ => 0, none, fun _ => false, []⟩, none⟩

/-- The line `c &`, for which `fork` gives the process `pid`. -/
def jobLine (c : UInt8) (pid : Pid) (found : ℕ → Int32) : Line :=
  ⟨[c, 32, 38, 0], fun _ => none, ⟨fun _ => true, some pid, none⟩, found⟩

/-- Three jobs; after the second line `waitpoll` finds that the first job is over, and the third
takes its slot. -/
theorem docommand_execvp_iff_jobs : ∃ s, system.Reachable s ∧ s.shell.bgpids 0 = 4 ∧
    s.shell.bgpids 1 = 3 ∧ s.ended ≠ some .asserted ∧ s.shell.lost = [] := by
  let lines : List Action :=
    [.interactive (jobLine 97 ⟨2, by decide, by decide⟩ fun _ => 0),
      .interactive (jobLine 98 ⟨3, by decide, by decide⟩ fun i => if i = 0 then 2 else 0),
      .interactive (jobLine 99 ⟨4, by decide, by decide⟩ fun _ => 0)]
  have hrun : ((lines.foldlM system.step Session.fresh).any fun s =>
      s.shell.bgpids 0 == 4 && s.shell.bgpids 1 == 3) = true := by decide +kernel
  obtain ⟨s, hs, htest⟩ := (Option.any_eq_true _ _).mp hrun
  obtain ⟨h0, h1⟩ := (Bool.and_eq_true _ _).mp htest
  have hstart : system.Reachable Session.fresh := .init ⟨rfl, rfl, rfl⟩
  have hreach := TransitionSystem.reachable_of_run lines hstart hs
  exact ⟨s, hreach, beq_iff_eq.mp h0, beq_iff_eq.mp h1,
    (docommand_execvp_iff ⟨fun _ => true, none, none⟩ (fun _ => none) [] s.shell).2 s hreach⟩

/-- The line `&`, when the table is empty and `fork` gives a process. -/
theorem not_docommand_execvp : ¬ ∀ e : Exec,
    (docommand ⟨fun _ => true, some ⟨2, by decide, by decide⟩, some 0⟩ (fun _ => none) [38, 0]
      ⟨fun _ => 0, none, fun _ => false, []⟩).exec = some e → e.Runs (strz [38, 0]) := by
  intro h
  refine (exec_runs_iff _ _ _ _).mp h ⟨?_, canBg_iff.mpr ⟨0, by decide, rfl⟩, rfl⟩
  decide

end Sh

end Os161
