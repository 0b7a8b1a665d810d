import Os161.Lib.Transition
import Mathlib.Data.Nat.Notation
import Mathlib.Logic.Function.Basic
import Mathlib.Algebra.GroupWithZero.Nat

/-!
# User-level `malloc` and `free`

`userland/lib/libc/stdlib/malloc.c`, as it is compiled for a 32-bit machine: a first-fit allocator
whose blocks lie end to end between `__heapbase` and `__heaptop`. Each begins with a header of eight
bytes, which says how far it is to the next header and to the one before, in units of eight bytes.

## Memory

All the allocator touches is aligned to eight bytes, and every eight bytes can be read as a header.
So memory is a function from addresses to `Mheader`; what a client keeps in its memory is some
header or other. Offsets are kept in fields of 29 bits, and sizes are 32-bit numbers: where the
source subtracts, the result wraps.

`sbrk n` returns the old break and moves it by `n`, which is a signed number. It does so if the
break stays in the 32-bit address space and does not go below where it was at the start, and if the
call does not fail for another reason. What the memory it brings in holds is not known.

`Exit` lists the ways the program is ended. The loop over the blocks does not end by itself on a
heap that is corrupt in the right way; `Exit.loops` stands for that.

## Main definitions

* `Mheader`, `Heap`, `Exit`
* `malloc`, `free`
* `system`, `systemAny` — a client that allocates, writes to what it has and frees
-/

namespace Os161

namespace Malloc

/-- `struct mheader`. -/
structure Mheader where
  /-- `mh_prevblock`, 29 bits. -/
  mhPrevblock : ℕ
  /-- `mh_pad`. -/
  mhPad : Bool
  /-- `mh_magic1`. -/
  mhMagic1 : Fin 4
  /-- `mh_nextblock`, 29 bits. -/
  mhNextblock : ℕ
  /-- `mh_inuse`. -/
  mhInuse : Bool
  /-- `mh_magic2`. -/
  mhMagic2 : Fin 4
  deriving DecidableEq

/-- `MBLOCKSIZE`. -/
def mblocksize : ℕ := 8

/-- `MMAGIC`. -/
def mmagic : Fin 4 := 2

/-- `PAGE_SIZE`. -/
def pageSize : ℕ := 4096

/-- Subtraction of 32-bit numbers. -/
def sub32 (a b : ℕ) : ℕ := (a + 2 ^ 32 - b) % 2 ^ 32

/-- `M_NEXTOFF`. -/
def Mheader.nextoff (mh : Mheader) : ℕ := mh.mhNextblock * mblocksize

/-- `M_PREVOFF`. -/
def Mheader.prevoff (mh : Mheader) : ℕ := mh.mhPrevblock * mblocksize

/-- `M_SIZE`. -/
def Mheader.size (mh : Mheader) : ℕ := sub32 mh.nextoff mblocksize

/-- `M_OK`. -/
def Mheader.ok (mh : Mheader) : Bool := mh.mhMagic1 = mmagic ∧ mh.mhMagic2 = mmagic

/-- `M_MKFIELD`, put into a field of 29 bits. -/
def mkfield (off : ℕ) : ℕ := off / mblocksize % 2 ^ 29

/-- `M_DATA`. -/
def data (mh : ℕ) : ℕ := mh + mblocksize

/-- Eight bytes of `0xdeadbeef`. -/
def deadbeef : Mheader where
  mhPrevblock := 0xdeadbeef / 8
  mhPad := true
  mhMagic1 := 3
  mhNextblock := 0xdeadbeef / 8
  mhInuse := true
  mhMagic2 := 3

/-- The variables of the allocator, memory and the break. -/
structure Heap where
  mem : ℕ → Mheader
  brk : ℕ
  /-- The break at the start of the program. -/
  start : ℕ
  /-- `__heapbase`. -/
  heapbase : ℕ
  /-- `__heaptop`. -/
  heaptop : ℕ

/-- How the program is ended. -/
inductive Exit where
  /-- "bad init call" -/
  | badInit
  /-- "initial sbrk failed" -/
  | initialSbrk
  /-- "heap began at 0" -/
  | heapAtZero
  /-- "sbrk failed aligning heap base" -/
  | alignSbrk
  /-- "heap base moved during init" -/
  | baseMoved
  /-- "heap top moved itself" -/
  | topMoved
  /-- "size passed to split" -/
  | splitSize
  /-- "split screwed up?" -/
  | splitScrewedUp
  /-- "local data corrupt" -/
  | localData
  /-- "bad magic bits" -/
  | badMagic
  /-- "bad previous-block size" -/
  | badPrevblock
  /-- "ran off end" -/
  | ranOff
  /-- `assert(size > M_SIZE(mh))` -/
  | assertion
  /-- "Heap corrupt (inconsistent)" -/
  | inconsistent
  /-- "Invalid pointer freed (out of range)" -/
  | outOfRange
  /-- "Invalid pointer freed (corrupt header)" -/
  | corruptHeader
  /-- "Invalid pointer freed (already free)" -/
  | alreadyFree
  /-- The loop over the blocks does not end. -/
  | loops
  deriving DecidableEq

/-- Change the header at an address. -/
def Heap.modify (h : Heap) (mh : ℕ) (f : Mheader → Mheader) : Heap :=
  { h with mem := Function.update h.mem mh (f (h.mem mh)) }

/-- `M_NEXT`. -/
def Heap.next (h : Heap) (mh : ℕ) : ℕ := mh + (h.mem mh).nextoff

/-- `M_PREV`. -/
def Heap.prev (h : Heap) (mh : ℕ) : ℕ := mh - (h.mem mh).prevoff

/-- `(void *)-1`. -/
def failed : ℕ := 2 ^ 32 - 1

/-- `sbrk`. From `2 ^ 31` on, the increment is negative. -/
def sbrk (h : Heap) (ok : Bool) (change : ℕ) : Heap × ℕ :=
  if change < 2 ^ 31 then
    if ok ∧ h.brk + change < 2 ^ 32 then ({ h with brk := h.brk + change }, h.brk) else (h, failed)
  else if ok ∧ h.start + (2 ^ 32 - change) ≤ h.brk then
    ({ h with brk := h.brk - (2 ^ 32 - change) }, h.brk)
  else (h, failed)

/-- The second half of `__malloc_init`: the base is moved up to a multiple of the block size. -/
def mallocAlign (h : Heap) (ok : Bool) : Except Exit Heap :=
  if h.heapbase % mblocksize ≠ 0 then
    let adjust := mblocksize - h.heapbase % mblocksize
    let (h, x) := sbrk h ok adjust
    if x = failed then .error .alignSbrk
    else if x ≠ h.heapbase then .error .baseMoved
    else .ok { h with heapbase := h.heapbase + adjust, heaptop := h.heapbase + adjust }
  else .ok h

/-- `__malloc_init`; the outcomes of the calls of `sbrk` are `ok 0` and `ok 1`. -/
def mallocInit (h : Heap) (ok : ℕ → Bool) : Except Exit Heap :=
  if h.heapbase ≠ 0 ∨ h.heaptop ≠ 0 then .error .badInit
  else
    let (h, x) := sbrk h (ok 0) 0
    if x = failed then .error .initialSbrk
    else if x = 0 then .error .heapAtZero
    else mallocAlign { h with heapbase := x, heaptop := x } (ok 1)

/-- `__malloc_sbrk`; `none` is `NULL`. -/
def mallocSbrk (h : Heap) (ok : Bool) (size : ℕ) : Except Exit (Heap × Option ℕ) :=
  let (h, x) := sbrk h ok size
  if x = failed then .ok (h, none)
  else if x ≠ h.heaptop then .error .topMoved
  else .ok ({ h with heaptop := (h.heaptop + size) % 2 ^ 32 }, some x)

/-- `__malloc_split`. -/
def mallocSplit (h : Heap) (mh size : ℕ) : Except Exit Heap :=
  if size % mblocksize ≠ 0 then .error .splitSize
  else if sub32 (h.mem mh).size size < 2 * mblocksize then .ok h
  else
    let mhnext := h.next mh
    let oldsize := (h.mem mh).size
    let h := h.modify mh fun m => { m with mhNextblock := mkfield (size + mblocksize) }
    let mhnew := h.next mh
    if mhnew = mhnext then .error .splitScrewedUp
    else
      let h := h.modify mhnew fun _ =>
        { mhPrevblock := mkfield (size + mblocksize)
          mhPad := false
          mhMagic1 := mmagic
          mhNextblock := mkfield (sub32 oldsize size)
          mhInuse := false
          mhMagic2 := mmagic }
      if mhnext ≠ h.heaptop then
        .ok (h.modify mhnext fun m => { m with mhPrevblock := (h.mem mhnew).mhNextblock })
      else .ok h

/-- How the search of `malloc` ends. -/
inductive Found where
  /-- At a block that is free and big enough. -/
  | block (mh : ℕ)
  /-- At the end, with the last header seen and its `mh_nextblock`. -/
  | stop (i : ℕ) (mh : Option ℕ) (rightprevblock : ℕ)

/-- The loop of `malloc`. -/
def search (h : Heap) (size : ℕ) : ℕ → ℕ → Option ℕ → ℕ → Except Exit Found
  | 0, _, _, _ => .error .loops
  | fuel + 1, i, mh, rightprevblock =>
      if i < h.heaptop then
        if (h.mem i).ok = false then .error .badMagic
        else if (h.mem i).mhPrevblock ≠ rightprevblock then .error .badPrevblock
        else if (h.mem i).mhInuse ∨ (h.mem i).size < size then
          search h size fuel (i + (h.mem i).nextoff) (some i) (h.mem i).mhNextblock
        else .ok (.block i)
      else .ok (.stop i mh rightprevblock)

/-- The header the search has ended at, if it is free. -/
def freeTop (h : Heap) (mh : Option ℕ) : Option ℕ := mh.filter fun mh => (h.mem mh).mhInuse = false

/-- The end of `malloc`: more memory from `sbrk`, for the free block at the top or a new one. -/
def mallocGrow (h : Heap) (ok : Bool) (size : ℕ) (mh : Option ℕ) (rightprevblock : ℕ) :
    Except Exit (Heap × ℕ) :=
  match freeTop h mh with
  | some mh =>
      if size ≤ (h.mem mh).size then .error .assertion
      else do
        let morespace := roundPage (sub32 size (h.mem mh).size)
        match ← mallocSbrk h ok morespace with
        | (h, none) => .ok (h, 0)
        | (h, some _) => do
            let h := h.modify mh fun m =>
              { m with mhNextblock := mkfield (m.nextoff + morespace), mhInuse := true }
            let h ← mallocSplit h mh size
            .ok (h, data mh)
  | none => do
      let morespace := roundPage (mblocksize + size)
      match ← mallocSbrk h ok morespace with
      | (h, none) => .ok (h, 0)
      | (h, some p) => do
          let h := h.modify p fun _ =>
            { mhPrevblock := rightprevblock % 2 ^ 29
              mhPad := false
              mhMagic1 := mmagic
              mhNextblock := mkfield morespace
              mhInuse := true
              mhMagic2 := mmagic }
          let h ← mallocSplit h p size
          .ok (h, data p)
where
  /-- A whole number of pages. -/
  roundPage (morespace : ℕ) : ℕ :=
    pageSize * ((morespace + pageSize - 1) % 2 ^ 32 / pageSize) % 2 ^ 32

/-- `malloc`, after the search. -/
def mallocFound (h : Heap) (ok : Bool) (size : ℕ) : Found → Except Exit (Heap × ℕ)
  | .block mh => do
      let h ← mallocSplit h mh size
      .ok (h.modify mh fun m => { m with mhInuse := true }, data mh)
  | .stop i mh rightprevblock =>
      if i ≠ h.heaptop then .error .ranOff else mallocGrow h ok size mh rightprevblock

/-- `malloc`, after initialisation; 0 is `NULL`. -/
def mallocBody (h : Heap) (ok : Bool) (size : ℕ) : Except Exit (Heap × ℕ) :=
  if h.heapbase = 0 ∨ h.heaptop = 0 ∨ h.heaptop < h.heapbase then .error .localData
  else do
    let size := (size + mblocksize - 1) % 2 ^ 32 / mblocksize * mblocksize
    let found ← search h size (h.heaptop - h.heapbase + 1) h.heapbase none 0
    mallocFound h ok size found

/-- `malloc`. -/
def malloc (h : Heap) (ok : ℕ → Bool) (size : ℕ) : Except Exit (Heap × ℕ) :=
  if h.heapbase = 0 then do
    let h ← mallocInit h ok
    mallocBody h (ok 2) size
  else mallocBody h (ok 2) size

/-- `__malloc_deadbeef`. -/
def mallocDeadbeef (h : Heap) (ptr size : ℕ) : Heap :=
  { h with mem := fun x => if ptr ≤ x ∧ x < ptr + size then deadbeef else h.mem x }

/-- `__malloc_trymerge`. -/
def mallocTrymerge (h : Heap) (mh mhnext : ℕ) : Except Exit Heap :=
  if (h.mem mh).mhNextblock ≠ (h.mem mhnext).mhPrevblock then .error .inconsistent
  else if (h.mem mh).mhInuse ∨ (h.mem mhnext).mhInuse then .ok h
  else
    let mhnextnext := h.next mhnext
    let h := h.modify mh fun m =>
      { m with mhNextblock :=
          mkfield (mblocksize + m.size + mblocksize + (h.mem mhnext).size) }
    let h :=
      if mhnextnext ≠ h.heaptop then
        h.modify mhnextnext fun m => { m with mhPrevblock := (h.mem mh).mhNextblock }
      else h
    .ok (mallocDeadbeef h mhnext mblocksize)

/-- `free`: merging with the block above, but not at the top. -/
def mergeUp (h : Heap) (mh : ℕ) : Except Exit Heap :=
  if h.next mh ≠ h.heaptop then mallocTrymerge h mh (h.next mh) else .ok h

/-- `free`: merging with the block below, but not at the bottom. -/
def mergeDown (h : Heap) (mh : ℕ) : Except Exit Heap :=
  if mh ≠ h.heapbase then mallocTrymerge h (h.prev mh) mh else .ok h

/-- `free`. -/
def free (h : Heap) (x : ℕ) : Except Exit Heap :=
  if x = 0 then .ok h
  else if h.heapbase = 0 ∨ h.heaptop = 0 ∨ h.heaptop < h.heapbase then .error .localData
  else if x < h.heapbase ∨ h.heaptop ≤ x then .error .outOfRange
  else
    let mh := x - mblocksize
    if (h.mem mh).ok = false then .error .corruptHeader
    else if (h.mem mh).mhInuse = false then .error .alreadyFree
    else do
      let h := h.modify mh fun m => { m with mhInuse := false }
      let h ← mergeUp (mallocDeadbeef h (data mh) (h.mem mh).size) mh
      mergeDown h mh

/-! ### A client -/

/-- The heap of a program, or how it has ended, and the sizes it has asked for at the pointers it
has not yet freed. -/
structure State where
  heap : Heap
  exit : Option Exit
  live : ℕ → Option ℕ

inductive Action where
  /-- `malloc(size)`, with the outcomes of the calls of `sbrk`. -/
  | malloc (size : ℕ) (ok : ℕ → Bool)
  /-- `free(x)`. -/
  | free (x : ℕ)
  /-- The client writes to a block it has. -/
  | write (x : ℕ) (mem : ℕ → Mheader)

/-- One step. Sizes are below the limit, and only pointers that are live, or `NULL`, are freed. -/
def step (limit : ℕ) (s : State) : Action → Option State
  | .malloc size ok =>
      if s.exit = none ∧ size < limit then
        match malloc s.heap ok size with
        | .error e => some { s with exit := some e }
        | .ok (h, p) =>
            some { s with
              heap := h
              live := if p = 0 then s.live else Function.update s.live p (some size) }
      else none
  | .free x =>
      if s.exit = none ∧ (x = 0 ∨ s.live x ≠ none) then
        match free s.heap x with
        | .error e => some { s with exit := some e }
        | .ok h => some { s with heap := h, live := Function.update s.live x none }
      else none
  | .write x mem =>
      match s.live x with
      | some size =>
          if s.exit = none then
            some { s with heap := { s.heap with
              mem := fun y => if x ≤ y ∧ y < x + size then mem y else s.heap.mem y } }
          else none
      | none => none

/-- The program starts with the allocator not initialised; memory and the break are arbitrary. -/
def Starts (s : State) : Prop :=
  s.heap.heapbase = 0 ∧ s.heap.heaptop = 0 ∧ s.heap.brk = s.heap.start ∧ s.exit = none ∧
    ∀ p, s.live p = none

/-- A client that asks for less than 2^30 bytes at a time. -/
def system : TransitionSystem State Action where
  init := Starts
  step := step (2 ^ 30)

/-- A client that asks for as much as it can say. -/
def systemAny : TransitionSystem State Action where
  init := Starts
  step := step (2 ^ 32)

end Malloc

end Os161
