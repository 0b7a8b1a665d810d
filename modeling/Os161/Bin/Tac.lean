import Mathlib.Data.List.Flatten
import Mathlib.Data.Nat.Notation

/-!
# Printing files backwards

`userland/bin/tac/tac.c`. The input is copied to a scratch file, chunk by chunk as `read` returns
it, and for each line an entry with its position and length goes to a second scratch file. Then the
entries are gone through from the last to the first, and each line is copied out of the first
scratch file.

The positions count from the start of the input file at hand, but the scratch file holds all input
files one after the other. So what is printed for a line is the piece of that length at that place
of the first files, and the output is right only if every file is a beginning of all files
together. One file is, and what comes after files that are empty.

Scratch files are regular files: a read at some position returns what there is, up to the amount
asked for. Calls that fail, which end the program, are left out.

## Main results

* `Tac.readfile_spec` — the entries are the lines of the file, however it is split into chunks
* `Tac.tac_reverses_iff` — when the output is the input backwards
-/

namespace Os161

namespace Tac

/-- `'\n'`. -/
def newline : UInt8 := 10

/-- `sizeof(buf)`. -/
def bufsize : ℕ := 4096

/-- `struct indexentry`. -/
structure Indexentry where
  pos : ℕ
  len : ℕ
  deriving DecidableEq

/-- The scratch files. -/
structure Scratch where
  /-- The file of `datafd`. -/
  data : List UInt8
  /-- The file of `indexfd`, by entry. -/
  index : List Indexentry

/-- An input file, as `read` returns it. -/
structure Input where
  chunks : List (List UInt8)
  nonempty : ∀ c ∈ chunks, c ≠ []
  fits : ∀ c ∈ chunks, c.length ≤ bufsize

/-- What the file holds. -/
def Input.content (f : Input) : List UInt8 := f.chunks.flatten

/-- `memchr`: the index of the first `ch`. -/
def memchr (buf : List UInt8) (ch : UInt8) : Option ℕ := buf.findIdx? (· = ch)

theorem memchr_lt {buf : List UInt8} {ch : UInt8} {i : ℕ} (h : memchr buf ch = some i) :
    i < buf.length := (List.findIdx?_eq_some_iff_findIdx_eq.mp h).1

/-- The inner loop of `readfile`, on the part of the chunk from `s` on. -/
def scan (x : Indexentry) (index : List Indexentry) (s : List UInt8) :
    Indexentry × List Indexentry :=
  match h : memchr s newline with
  | some t =>
      let here := t + 1
      let x := { x with len := x.len + here }
      scan { pos := x.pos + x.len, len := 0 } (index ++ [x]) (s.drop here)
  | none => ({ x with len := x.len + s.length }, index)
termination_by s.length
decreasing_by
  have := memchr_lt h
  rw [List.length_drop]
  omega

/-- The outer loop of `readfile`, with what the calls of `read` are to return; after that they
return nothing. -/
def readLoop (x : Indexentry) (f : Scratch) : List (List UInt8) → Indexentry × Scratch
  | [] => (x, f)
  | buf :: rest =>
      if buf.length = 0 then (x, f)
      else
        let (x, index) := scan x f.index buf
        readLoop x ⟨f.data ++ buf, index⟩ rest

/-- `readfile`. -/
def readfile (f : Scratch) (chunks : List (List UInt8)) : Scratch :=
  let (x, f) := readLoop ⟨0, 0⟩ f chunks
  if 0 < x.len then { f with index := f.index ++ [x] } else f

/-- How the program ends early. -/
inductive Exit where
  /-- "Unexpected EOF" -/
  | unexpectedEof
  /-- "Unexpected short count" -/
  | shortCount
  deriving DecidableEq

/-- The inner loop of `dumpdata`: what is written for one entry. -/
def dumpLine (data : List UInt8) (x : Indexentry) (done : ℕ) (out : List UInt8) :
    Except Exit (List UInt8) :=
  if done < x.len then
    let amount := if x.len - done < bufsize then x.len - done else bufsize
    let buf := (data.drop (x.pos + done)).take amount
    if buf.length ≠ amount then .error .shortCount
    else dumpLine data x (done + amount) (out ++ buf)
  else .ok out
termination_by x.len - done
decreasing_by
  have hpos : 0 < bufsize := by decide
  split <;> omega

/-- The outer loop of `dumpdata`, when `pos` is `k` entries from the start of the index. -/
def dumpEntries (f : Scratch) : ℕ → List UInt8 → Except Exit (List UInt8)
  | 0, out => .ok out
  | k + 1, out =>
      match f.index[k]? with
      | none => .error .unexpectedEof
      | some x => do
          let out ← dumpLine f.data x 0 out
          dumpEntries f k out

/-- `dumpdata`. -/
def dumpdata (f : Scratch) : Except Exit (List UInt8) := dumpEntries f f.index.length []

/-- The files `main` reads: those named, or standard input. -/
def inputs (args : List Input) (stdin : Input) : List Input :=
  if 0 < args.length then args else [stdin]

/-- `main`: what is written to standard output. -/
def main (args : List Input) (stdin : Input) : Except Exit (List UInt8) :=
  dumpdata ((inputs args stdin).foldl (fun f input => readfile f input.chunks) ⟨[], []⟩)

/-! ### Lines -/

/-- The lines of a text, each with its newline; the last may be without. -/
def lines : List UInt8 → List (List UInt8)
  | [] => []
  | b :: r =>
      if b = newline then [b] :: lines r
      else match lines r with
        | [] => [[b]]
        | l :: ls => (b :: l) :: ls

/-- The lines of all files, in reverse order. -/
def backwards (files : List Input) : List UInt8 :=
  (files.map fun f => lines f.content).flatten.reverse.flatten

/-- A line with its newline. -/
def IsLine (l : List UInt8) : Prop := ∃ w, newline ∉ w ∧ l = w ++ [newline]

/-- The entries of lines that lie end to end from `pos` on. -/
def spans (pos : ℕ) : List (List UInt8) → List Indexentry
  | [] => []
  | l :: ls => ⟨pos, l.length⟩ :: spans (pos + l.length) ls

/-- The piece of the data an entry stands for. -/
def slice (data : List UInt8) (x : Indexentry) : List UInt8 := (data.drop x.pos).take x.len

section Lines

variable {w r s : List UInt8} {ls ms : List (List UInt8)} {pos : ℕ}

theorem spans_append :
    spans pos (ls ++ ms) = spans pos ls ++ spans (pos + ls.flatten.length) ms := by
  induction ls generalizing pos with
  | nil => rfl
  | cons l ls ih =>
    rw [List.cons_append, spans, spans, ih, List.flatten_cons, List.length_append, Nat.add_assoc]
    rfl

/-- What is left over when there is no newline. -/
theorem lines_of_not_mem (h : newline ∉ r) : lines r = if r = [] then [] else [r] := by
  induction r with
  | nil => rfl
  | cons b r ih =>
    rw [List.mem_cons, not_or] at h
    rw [lines, if_neg (Ne.symm h.1), ih h.2, if_neg (List.cons_ne_nil b r)]
    by_cases hr : r = []
    · rw [if_pos hr, hr]
    · rw [if_neg hr]

theorem lines_line (h : newline ∉ w) :
    lines (w ++ [newline] ++ r) = (w ++ [newline]) :: lines r := by
  induction w with
  | nil => exact if_pos rfl
  | cons b w ih =>
    rw [List.mem_cons, not_or] at h
    rw [List.cons_append, List.cons_append, lines, if_neg (Ne.symm h.1), ih h.2]

/-- A text as whole lines and a rest. -/
theorem lines_flatten (hls : ∀ l ∈ ls, IsLine l) (hr : newline ∉ r) :
    lines (ls.flatten ++ r) = ls ++ if r = [] then [] else [r] := by
  induction ls with
  | nil => exact lines_of_not_mem hr
  | cons l ls ih =>
    obtain ⟨w, hw, rfl⟩ := hls l List.mem_cons_self
    rw [List.flatten_cons, List.append_assoc, lines_line hw,
      ih fun l hl => hls l (List.mem_cons_of_mem _ hl)]
    rfl

theorem flatten_lines (s : List UInt8) : (lines s).flatten = s := by
  induction s with
  | nil => rfl
  | cons b s ih =>
    rw [lines]
    by_cases hb : b = newline
    · rw [if_pos hb, List.flatten_cons, ih]
      rfl
    · rw [if_neg hb]
      cases hs : lines s with
      | nil =>
        rw [hs] at ih
        rw [← ih]
        rfl
      | cons l ls =>
        rw [hs] at ih
        rw [← ih]
        rfl

end Lines

/-! ### Reading a file -/

section Read

variable {x : Indexentry} {index : List Indexentry} {r s : List UInt8} {pos : ℕ}

theorem memchr_eq_none_iff {ch : UInt8} : memchr s ch = none ↔ ch ∉ s := by
  rw [memchr, List.findIdx?_eq_none_iff]
  constructor
  · intro h hmem
    simpa using h ch hmem
  · intro h b hb
    exact decide_eq_false fun heq => h (heq ▸ hb)

theorem memchr_line {w : List UInt8} (hw : newline ∉ w) :
    memchr (w ++ [newline] ++ s) newline = some w.length := by
  have hnone : w.findIdx? (· = newline) = none := memchr_eq_none_iff.mpr hw
  have hhead : ([newline] ++ s).findIdx? (· = newline) = some 0 := by
    rw [List.singleton_append, List.findIdx?_cons, if_pos (decide_eq_true rfl)]
  rw [memchr, List.append_assoc, List.findIdx?_append, hnone, hhead, Option.none_or,
    Option.map_some, Nat.zero_add]

/-- A line that ends in the chunk. -/
theorem scan_line {w : List UInt8} (hw : newline ∉ w) :
    scan x index (w ++ [newline] ++ s) =
      scan ⟨x.pos + (x.len + (w.length + 1)), 0⟩
        (index ++ [⟨x.pos, x.len + (w.length + 1)⟩]) s := by
  have hmem := memchr_line (s := s) hw
  have hdrop : (w ++ [newline] ++ s).drop (w.length + 1) = s := by
    rw [List.drop_left' (by simp)]
  rw [scan]
  split
  · next t ht =>
    obtain rfl : w.length = t := Option.some.inj (hmem.symm.trans ht)
    dsimp only
    rw [hdrop]
  · next hnone => exact nomatch hmem.symm.trans hnone

/-- What is left of the chunk. -/
theorem scan_rest (hs : newline ∉ s) : scan x index s = (⟨x.pos, x.len + s.length⟩, index) := by
  have hmem := memchr_eq_none_iff.mpr hs
  rw [scan]
  split
  · next t ht => exact nomatch hmem.symm.trans ht
  · rfl

/-- **One chunk.** After a rest `r` without a newline, the loop enters the lines that end in the
chunk, and leaves a new rest. -/
theorem scan_spec (pos : ℕ) (hr : newline ∉ r) (index : List Indexentry) (s : List UInt8) :
    ∃ ls r', r ++ s = ls.flatten ++ r' ∧ (∀ l ∈ ls, IsLine l) ∧ newline ∉ r' ∧
      scan ⟨pos, r.length⟩ index s =
        (⟨pos + ls.flatten.length, r'.length⟩, index ++ spans pos ls) := by
  induction hn : s.length using Nat.strongRecOn generalizing r pos index s with
  | _ n ih =>
  by_cases hmem : newline ∈ s
  · obtain ⟨w, s', rfl, hw⟩ := List.eq_append_cons_of_mem hmem
    rw [List.append_cons]
    have hlt : s'.length < n := by
      rw [← hn, List.length_append, List.length_cons]
      omega
    have hlen : (r ++ w ++ [newline]).length = r.length + (w.length + 1) := by
      rw [List.length_append, List.length_append, List.length_singleton, Nat.add_assoc]
    obtain ⟨ls, r', heq, hls, hr', hscan⟩ := ih s'.length hlt (r := [])
      (pos + (r.length + (w.length + 1))) List.not_mem_nil
      (index ++ [⟨pos, r.length + (w.length + 1)⟩]) s' rfl
    refine ⟨(r ++ w ++ [newline]) :: ls, r', ?_, ?_, hr', ?_⟩
    · rw [List.flatten_cons, List.append_assoc (r ++ w ++ [newline]), ← heq, List.nil_append,
        List.append_assoc r, List.append_assoc r]
    · intro l hl
      rcases List.mem_cons.mp hl with rfl | hl
      · refine ⟨r ++ w, ?_, rfl⟩
        rw [List.mem_append, not_or]
        exact ⟨hr, hw⟩
      · exact hls l hl
    · rw [scan_line hw]
      refine hscan.trans ?_
      rw [List.flatten_cons, List.length_append, hlen, spans, hlen, List.append_assoc,
        Nat.add_assoc]
      rfl
  · refine ⟨[], r ++ s, rfl, (fun l hl => nomatch hl), ?_, ?_⟩
    · rw [List.mem_append, not_or]
      exact ⟨hr, hmem⟩
    · rw [scan_rest hmem, List.length_append, spans, List.append_nil]
      rfl

/-- **The chunks together.** However a text is split, its whole lines are entered. -/
theorem readLoop_spec (pos : ℕ) (hr : newline ∉ r) (f : Scratch) {chunks : List (List UInt8)}
    (hne : ∀ c ∈ chunks, c ≠ []) :
    ∃ ls r', r ++ chunks.flatten = ls.flatten ++ r' ∧ (∀ l ∈ ls, IsLine l) ∧ newline ∉ r' ∧
      readLoop ⟨pos, r.length⟩ f chunks = (⟨pos + ls.flatten.length, r'.length⟩,
        ⟨f.data ++ chunks.flatten, f.index ++ spans pos ls⟩) := by
  induction chunks generalizing f r pos with
  | nil =>
    refine ⟨[], r, List.append_nil r, (fun l hl => nomatch hl), hr, ?_⟩
    rw [readLoop, List.flatten_nil, List.append_nil, spans, List.append_nil]
    rfl
  | cons c chunks ih =>
    obtain ⟨ls, r', heq, hls, hr', hscan⟩ := scan_spec pos hr f.index c
    obtain ⟨ms, r'', heq', hms, hr'', hloop⟩ := ih (pos + ls.flatten.length) hr'
      ⟨f.data ++ c, f.index ++ spans pos ls⟩ fun c hc => hne c (List.mem_cons_of_mem _ hc)
    refine ⟨ls ++ ms, r'', ?_, ?_, hr'', ?_⟩
    · rw [List.flatten_cons, ← List.append_assoc, heq, List.append_assoc, heq', List.flatten_append,
        List.append_assoc]
    · intro l hl
      rcases List.mem_append.mp hl with hl | hl
      · exact hls l hl
      · exact hms l hl
    · have hc : ¬c.length = 0 := fun h => hne c List.mem_cons_self (List.length_eq_zero_iff.mp h)
      rw [readLoop, if_neg hc, hscan]
      dsimp only
      rw [hloop, spans_append, List.flatten_append, List.length_append, List.flatten_cons,
        List.append_assoc, List.append_assoc, Nat.add_assoc]

/-- **A file.** Its contents are appended to the one scratch file, and an entry for each of its
lines to the other; the entries count from the start of the file. -/
theorem readfile_spec (f : Scratch) (input : Input) : readfile f input.chunks =
    ⟨f.data ++ input.content, f.index ++ spans 0 (lines input.content)⟩ := by
  obtain ⟨ls, r, heq, hls, hr, hloop⟩ :=
    readLoop_spec (r := []) 0 List.not_mem_nil f input.nonempty
  rw [List.nil_append] at heq
  rw [List.length_nil] at hloop
  rw [readfile, hloop, Input.content, heq, lines_flatten hls hr]
  dsimp only
  by_cases hr0 : r = []
  · rw [if_pos hr0, hr0, List.append_nil, List.append_nil, if_neg (by simp)]
  · rw [if_neg hr0, if_pos (List.length_pos_iff.mpr hr0), spans_append, List.append_assoc]
    rfl

end Read

/-! ### Copying out -/

section Dump

variable {data out : List UInt8} {x : Indexentry} {files : List Input}

theorem take_drop_add (n done amount len : ℕ) (h : done + amount ≤ len) :
    (data.drop (n + done)).take amount ++
        (data.drop (n + (done + amount))).take (len - (done + amount)) =
      (data.drop (n + done)).take (len - done) := by
  have hlen : len - done = amount + (len - (done + amount)) := by omega
  rw [hlen, List.take_add, List.drop_drop, Nat.add_assoc]

/-- A line that is all there is copied, in pieces. -/
theorem dumpLine_spec (out : List UInt8) (hx : x.pos + x.len ≤ data.length) {done : ℕ}
    (hdone : done ≤ x.len) :
    dumpLine data x done out = .ok (out ++ (data.drop (x.pos + done)).take (x.len - done)) := by
  induction hn : x.len - done using Nat.strongRecOn generalizing done out with
  | _ n ih =>
  rw [dumpLine]
  by_cases hlt : done < x.len
  · rw [if_pos hlt]
    dsimp only
    generalize hamount : (if x.len - done < bufsize then x.len - done else bufsize) = amount
    have hbounds : 0 < amount ∧ done + amount ≤ x.len := by
      have hpos : 0 < bufsize := by decide
      rw [← hamount]
      split <;> omega
    have hfull : ((data.drop (x.pos + done)).take amount).length = amount := by
      rw [List.length_take, List.length_drop]
      omega
    rw [if_neg (not_not_intro hfull), ih (x.len - (done + amount)) (by omega) _ hbounds.2 rfl,
      List.append_assoc, take_drop_add x.pos done amount x.len hbounds.2, hn]
  · rw [if_neg hlt, ← hn, Nat.sub_eq_zero_of_le (Nat.not_lt.mp hlt), List.take_zero,
      List.append_nil]

/-- **The entries backwards.** -/
theorem dumpEntries_spec {f : Scratch} (hall : ∀ x ∈ f.index, x.pos + x.len ≤ f.data.length) {k : ℕ}
    (hk : k ≤ f.index.length) : dumpEntries f k out =
      .ok (out ++ ((f.index.take k).reverse.map (slice f.data)).flatten) := by
  induction k generalizing out with
  | zero => rw [dumpEntries, List.take_zero, List.reverse_nil, List.map_nil, List.flatten_nil,
      List.append_nil]
  | succ k ih =>
    have hlt : k < f.index.length := hk
    have hget := List.getElem?_eq_getElem hlt
    have hline := dumpLine_spec out (hall _ (List.getElem_mem hlt)) (Nat.zero_le _)
    rw [dumpEntries, hget]
    dsimp only
    rw [hline]
    change dumpEntries f k _ = _
    rw [ih (by omega), List.take_add_one, hget, Option.toList_some, List.reverse_append,
      List.reverse_singleton, List.singleton_append, List.map_cons, List.flatten_cons,
      List.append_assoc]
    rfl

/-- What the scratch files hold once all files are read. -/
theorem foldl_readfile (f : Scratch) : files.foldl (fun f input => readfile f input.chunks) f =
    ⟨f.data ++ (files.map Input.content).flatten,
      f.index ++ (files.map fun input => spans 0 (lines input.content)).flatten⟩ := by
  induction files generalizing f with
  | nil =>
    rw [List.foldl_nil, List.map_nil, List.map_nil, List.flatten_nil, List.flatten_nil,
      List.append_nil, List.append_nil]
  | cons input files ih =>
    rw [List.foldl_cons, ih, readfile_spec, List.map_cons, List.map_cons, List.flatten_cons,
      List.flatten_cons, List.append_assoc, List.append_assoc]

theorem mem_spans {ls : List (List UInt8)} {pos : ℕ} (hx : x ∈ spans pos ls) :
    x.pos + x.len ≤ pos + ls.flatten.length := by
  induction ls generalizing pos with
  | nil => exact nomatch hx
  | cons l ls ih =>
    rw [List.flatten_cons, List.length_append]
    rcases List.mem_cons.mp hx with rfl | hx
    · change pos + l.length ≤ _
      omega
    · have := ih hx
      omega

theorem length_le_flatten {β : Type} {l : List β} {ls : List (List β)} (h : l ∈ ls) :
    l.length ≤ ls.flatten.length := by
  obtain ⟨pre, post, rfl⟩ := List.append_of_mem h
  rw [List.flatten_append, List.flatten_cons, List.length_append, List.length_append]
  omega

/-- The pieces that end up in the output, by file and line. -/
def pieces (data : List UInt8) (files : List Input) : List (List (List UInt8)) :=
  files.map fun input => (spans 0 (lines input.content)).map (slice data)

/-- **What `tac` prints.** -/
theorem main_eq (args : List Input) (stdin : Input) : main args stdin =
    .ok (pieces ((inputs args stdin).map Input.content).flatten
      (inputs args stdin)).flatten.reverse.flatten := by
  rw [main, dumpdata, foldl_readfile, List.nil_append, List.nil_append,
    dumpEntries_spec _ (Nat.le_refl _)]
  · rw [List.nil_append, List.take_length, pieces, List.map_reverse, List.map_flatten, List.map_map]
    rfl
  · intro x hx
    obtain ⟨xs, hxs, hx⟩ := List.mem_flatten.mp hx
    obtain ⟨input, hinput, rfl⟩ := List.mem_map.mp hxs
    have hspan := mem_spans hx
    rw [flatten_lines, Nat.zero_add] at hspan
    exact Nat.le_trans hspan (length_le_flatten (List.mem_map_of_mem hinput))

theorem flatten_slices {ls : List (List UInt8)} {pos : ℕ} :
    ((spans pos ls).map (slice data)).flatten = (data.drop pos).take ls.flatten.length := by
  induction ls generalizing pos with
  | nil => rw [spans, List.map_nil, List.flatten_nil, List.length_nil, List.take_zero]
  | cons l ls ih =>
    rw [spans, List.map_cons, List.flatten_cons, ih, List.flatten_cons, List.length_append,
      List.take_add, List.drop_drop]
    rfl

/-- The pieces are as long as the lines. -/
theorem length_slices {ls : List (List UInt8)} {pos : ℕ}
    (h : pos + ls.flatten.length ≤ data.length) :
    ((spans pos ls).map (slice data)).map List.length = ls.map List.length := by
  induction ls generalizing pos with
  | nil => rfl
  | cons l ls ih =>
    rw [List.flatten_cons, List.length_append] at h
    rw [spans, List.map_cons, List.map_cons, List.map_cons, ih (by omega), slice, List.length_take,
      List.length_drop]
    congr 1
    change min l.length (data.length - pos) = l.length
    omega

/-- The pieces of a file are its lines if the data begin with the file. -/
theorem slices_eq_iff {content : List UInt8} (h : content.length ≤ data.length) :
    (spans 0 (lines content)).map (slice data) = lines content ↔ content <+: data := by
  have hlen : 0 + (lines content).flatten.length ≤ data.length := by
    rwa [flatten_lines, Nat.zero_add]
  rw [List.eq_iff_flatten_eq, flatten_slices, flatten_lines, List.drop_zero,
    List.prefix_iff_eq_take]
  constructor
  · exact fun heq => heq.1.symm
  · exact fun heq => ⟨heq.symm, length_slices hlen⟩

theorem pieces_eq_iff (h : ∀ f ∈ files, f.content.length ≤ data.length) :
    pieces data files = files.map (fun f => lines f.content) ↔
      ∀ f ∈ files, f.content <+: data := by
  rw [pieces, List.map_inj_left]
  exact ⟨fun hall f hf => (slices_eq_iff (h f hf)).mp (hall f hf),
    fun hall f hf => (slices_eq_iff (h f hf)).mpr (hall f hf)⟩

/-- Pieces of equal lengths that make up the same output are the same pieces. -/
theorem pieces_of_output {ps qs : List (List (List UInt8))}
    (hlen : ps.map (List.map List.length) = qs.map (List.map List.length)) :
    ps.flatten.reverse.flatten = qs.flatten.reverse.flatten ↔ ps = qs := by
  have hinner : ps.flatten.map List.length = qs.flatten.map List.length := by
    rw [List.map_flatten, List.map_flatten, hlen]
  have houter : ps.map List.length = qs.map List.length := by
    have := congrArg (List.map List.length) hlen
    simpa [List.map_map, Function.comp_def] using this
  constructor
  · intro hout
    have hrev : ps.flatten.reverse = qs.flatten.reverse := by
      rw [List.eq_iff_flatten_eq, List.map_reverse, List.map_reverse, hinner]
      exact ⟨hout, rfl⟩
    exact List.eq_iff_flatten_eq.mpr ⟨List.reverse_inj.mp hrev, houter⟩
  · rintro rfl
    rfl

theorem content_length_le (f : Input) (hf : f ∈ files) :
    f.content.length ≤ (files.map Input.content).flatten.length :=
  length_le_flatten (List.mem_map_of_mem hf)

theorem output_iff (args : List Input) (stdin : Input) :
    main args stdin = .ok (backwards (inputs args stdin)) ↔
      ∀ f ∈ inputs args stdin, f.content <+: ((inputs args stdin).map Input.content).flatten := by
  generalize hfiles : inputs args stdin = files
  have hle : ∀ f ∈ files, f.content.length ≤ (files.map Input.content).flatten.length :=
    content_length_le
  rw [main_eq, hfiles, Except.ok.injEq, backwards, pieces_of_output, pieces_eq_iff hle]
  rw [pieces, List.map_map, List.map_map]
  refine List.map_congr_left fun f hf => ?_
  refine length_slices ?_
  rw [flatten_lines, Nat.zero_add]
  exact hle f hf

end Dump

/-- **When `tac` is right.** What it prints are the lines of its input in reverse order if and only
if each file is a beginning of all files together. -/
theorem tac_reverses_iff (args : List Input) (stdin : Input) :
    main args stdin = .ok (backwards (inputs args stdin)) ↔
      ∀ f ∈ inputs args stdin, f.content <+: ((inputs args stdin).map Input.content).flatten :=
  output_iff args stdin

/-- A file of one line, read in one chunk. -/
def oneLine (b : UInt8) : Input where
  chunks := [[b, newline]]
  nonempty := by simp
  fits := by
    intro c hc
    rw [List.mem_singleton.mp hc]
    change 2 ≤ 4096
    decide

/-- Two files of one line each, `a` and `b`: the first is printed twice. -/
theorem not_tac_reverses :
    ¬∀ args stdin, main args stdin = .ok (backwards (inputs args stdin)) := by
  intro hclaim
  have hlines := (output_iff [oneLine 97, oneLine 98] (oneLine 97)).mp (hclaim _ _)
  exact absurd (hlines (oneLine 98) (by simp [inputs])) (by decide)

end Tac

end Os161
