import Os161.Lib.Bytes
import Os161.Vm.Dumbvm
import Mathlib.Data.Option.Basic

/-!
# Loading an executable

`load_elf` of `kern/syscall/loadelf.c`, run on a new address space of `dumbvm`. It goes over the
program headers twice, once to define the regions and once to load the segments, with
`as_prepare_load` in between. Both loops read every header again from the file and skip the same
ones, so they are one definition, `eachLoad`, with two bodies.

`File` is the executable: its bytes, and where a read of it fails. `Xfer` is what `VOP_READ` does
when `load_segment` lets it copy into user space: the page faults the copy takes, each of which goes
through `vm_fault`, and how it ends if they are all resolved.

## What the headers decide

`as_define_region` fills the slot whose base is 0, so the first region is the first loadable header
outside page 0 and the second region is the first such header after it. A header beyond the second
region is refused with `ENOSYS`; with fewer headers nothing is refused, and `as_prepare_load` asks
for 0 pages for the missing region and is given an address for them.

A size close to 2^32 makes `ram_stealmem` wrap around and grant what there is no memory for. The
`bzero` of `as_zero_region` then runs past the end of the memory (`asZeroRegion`).

## What is deliberately absent

What is in memory: the pages cleared and filled are free ones, so that the bytes matter to no one
but the program loaded. The TLB is a flag for each fault, and the warnings printed are left out.

## Main results

* `loadElf_safe_iff` — the files that load safely, exactly
-/

namespace Os161

namespace Loadelf

open Dumbvm

/-! ### The file -/

/-- An executable file. -/
structure File where
  bytes : List UInt8
  /-- The error with which a read at an offset fails. -/
  fail : ℕ → Option Errno

/-- `VOP_READ` into a kernel buffer of `len` bytes. -/
def File.vopRead (f : File) (offset len : ℕ) : Except Errno (List UInt8) :=
  match f.fail offset with
  | some e => .error e
  | none => .ok ((f.bytes.drop offset).take len)

/-- The byte at place `i` of a header. -/
def at8 (b : List UInt8) (i : ℕ) : UInt8 := b.getD i 0

/-- The `uint16_t` at place `i` of a header. -/
def at16 (b : List UInt8) (i : ℕ) : UInt16 :=
  UInt16.ofNat ((at8 b i).toNat * 256 + (at8 b (i + 1)).toNat)

/-- The `uint32_t` at place `i` of a header. -/
def at32 (b : List UInt8) (i : ℕ) : UInt32 :=
  beWord (at8 b i) (at8 b (i + 1)) (at8 b (i + 2)) (at8 b (i + 3))

/-- The fields of `Elf32_Ehdr` that are used. -/
structure Ehdr where
  eIdent : List UInt8
  eType : UInt16
  eMachine : UInt16
  eVersion : UInt32
  eEntry : UInt32
  ePhoff : UInt32
  ePhentsize : UInt16
  ePhnum : UInt16

/-- `sizeof(Elf32_Ehdr)`. -/
def ehdrSize : ℕ := 52

/-- An `Elf32_Ehdr` as it stands in the file. -/
def Ehdr.ofBytes (b : List UInt8) : Ehdr where
  eIdent := b.take 16
  eType := at16 b 16
  eMachine := at16 b 18
  eVersion := at32 b 20
  eEntry := at32 b 24
  ePhoff := at32 b 28
  ePhentsize := at16 b 42
  ePhnum := at16 b 44

/-- The fields of `Elf32_Phdr` that are used. -/
structure Phdr where
  pType : UInt32
  pOffset : UInt32
  pVaddr : UInt32
  pFilesz : UInt32
  pMemsz : UInt32
  pFlags : UInt32
  deriving DecidableEq

/-- `sizeof(Elf32_Phdr)`. -/
def phdrSize : ℕ := 32

/-- An `Elf32_Phdr` as it stands in the file. -/
def Phdr.ofBytes (b : List UInt8) : Phdr where
  pType := at32 b 0
  pOffset := at32 b 4
  pVaddr := at32 b 8
  pFilesz := at32 b 16
  pMemsz := at32 b 20
  pFlags := at32 b 24

/-- `PT_NULL` -/
def ptNull : UInt32 := 0
/-- `PT_LOAD` -/
def ptLoad : UInt32 := 1
/-- `PT_PHDR` -/
def ptPhdr : UInt32 := 6
/-- `PT_MIPS_REGINFO` -/
def ptMipsReginfo : UInt32 := 0x70000000
/-- `PF_X` -/
def pfX : UInt32 := 1

/-- Is it a 32-bit big-endian ELF executable of version 1 for our processor? -/
def Ehdr.ok (eh : Ehdr) : Bool :=
  at8 eh.eIdent 0 = 0x7f ∧ at8 eh.eIdent 1 = 0x45 ∧ at8 eh.eIdent 2 = 0x4c ∧
    at8 eh.eIdent 3 = 0x46 ∧ at8 eh.eIdent 4 = 1 ∧ at8 eh.eIdent 5 = 2 ∧ at8 eh.eIdent 6 = 1 ∧
    eh.eVersion = 1 ∧ eh.eType = 2 ∧ eh.eMachine = 8

/-- Read the executable header and check it. -/
def readEhdr (f : File) : Except Errno Ehdr :=
  match f.vopRead 0 ehdrSize with
  | .error e => .error e
  | .ok b =>
    if b.length ≠ ehdrSize then .error .enoexec
    else if (Ehdr.ofBytes b).ok then .ok (Ehdr.ofBytes b) else .error .enoexec

/-- Read the program header with index `i` and check its type. -/
def readPhdr (f : File) (eh : Ehdr) (i : ℕ) : Except Errno Phdr :=
  let offset := eh.ePhoff + UInt32.ofNat i * eh.ePhentsize.toUInt32
  match f.vopRead offset.toNat phdrSize with
  | .error e => .error e
  | .ok b =>
    if b.length ≠ phdrSize then .error .enoexec
    else
      let ph := Phdr.ofBytes b
      if ph.pType = ptNull ∨ ph.pType = ptPhdr ∨ ph.pType = ptMipsReginfo ∨ ph.pType = ptLoad then
        .ok ph
      else .error .enoexec

/-! ### The two loops -/

variable {σ : Type}

/-- A loop over the program headers with the given indices. The body is run on the loadable
ones. -/
def eachLoad (f : File) (eh : Ehdr) (body : Phdr → σ → Option Stop × σ) :
    List ℕ → σ → Option Stop × σ
  | [], s => (none, s)
  | i :: is, s =>
    match readPhdr f eh i with
    | .error e => (some (.errno e), s)
    | .ok ph =>
      if ph.pType = ptLoad then
        match body ph s with
        | (some stop, s') => (some stop, s')
        | (none, s') => eachLoad f eh body is s'
      else eachLoad f eh body is s

/-- The body of the first loop. -/
def defineSegment (ph : Phdr) (as : Addrspace) : Option Stop × Addrspace :=
  asDefineRegion as ph.pVaddr ph.pMemsz

/-- The `uio` that `load_segment` passes to `VOP_READ`. -/
structure SegmentRead where
  iovUbase : UInt32
  iovLen : UInt32
  uioResid : UInt32
  uioOffset : UInt32
  /-- `UIO_USERISPACE` instead of `UIO_USERSPACE`. -/
  ispace : Bool
  deriving DecidableEq

/-- What `VOP_READ` does when it reads into user space. -/
structure Xfer where
  /-- The write faults the copy takes: the address, and whether the TLB has an entry to spare. -/
  faults : List (UInt32 × Bool)
  /-- The value returned, or what is left in `uio_resid`, if every fault is resolved. -/
  result : Except Errno ℕ

/-- Take the faults of a copy. A fault that is not resolved ends the copy with `EFAULT`, unless
`vm_fault` panicked. -/
def takeFaults (as : Addrspace) : List (UInt32 × Bool) → Option Stop
  | [] => none
  | (addr, slot) :: rest =>
    match vmFault as slot .write addr with
    | .ok _ => takeFaults as rest
    | .error .panic => some .panic
    | .error (.errno _) => some (.errno .efault)

/-- `load_segment`. The reads it has been called for so far are the state of the loop. -/
def loadSegment (as : Addrspace) (xfer : SegmentRead → Xfer) (ph : Phdr)
    (reads : List SegmentRead) : Option Stop × List SegmentRead :=
  let filesize := if ph.pFilesz > ph.pMemsz then ph.pMemsz else ph.pFilesz
  let u : SegmentRead := ⟨ph.pVaddr, ph.pMemsz, filesize, ph.pOffset, ph.pFlags &&& pfX ≠ 0⟩
  let reads := reads ++ [u]
  match takeFaults as (xfer u).faults with
  | some stop => (some stop, reads)
  | none =>
    match (xfer u).result with
    | .error e => (some (.errno e), reads)
    | .ok resid => if resid ≠ 0 then (some (.errno .enoexec), reads) else (none, reads)

/-- What a call of `load_elf` leaves behind. -/
structure Outcome where
  /-- How it stopped, or `none` when it returned 0. -/
  stop : Option Stop
  /-- `*entrypoint`, when it returned 0. -/
  entrypoint : UInt32
  as : Addrspace
  ram : Ram
  /-- The calls of `load_segment`. -/
  reads : List SegmentRead

/-- `as_zero_region`, for memory that nothing else is in. There is no memory from `lastpaddr` on,
and a bus error in the kernel is a panic. -/
def asZeroRegion (r : Ram) (paddr npages : UInt32) : Option Stop :=
  if paddr.toNat + (npages * Ram.pageSize).toNat ≤ r.lastpaddr.toNat then none else some .panic

/-- `as_prepare_load`, with the clearing of the memory. -/
def asPrepareLoad (as : Addrspace) (r : Ram) : Option Stop × Addrspace × Ram :=
  match Dumbvm.asPrepareLoad as r with
  | (some stop, as, r) => (some stop, as, r)
  | (none, as, r) =>
    match asZeroRegion r as.asPbase1 as.asNpages1 with
    | some stop => (some stop, as, r)
    | none =>
      match asZeroRegion r as.asPbase2 as.asNpages2 with
      | some stop => (some stop, as, r)
      | none => (asZeroRegion r as.asStackpbase dumbvmStackpages, as, r)

/-- `load_elf`, in a process with a new address space. -/
def loadElf (f : File) (xfer : SegmentRead → Xfer) (r : Ram) : Outcome :=
  match readEhdr f with
  | .error e => ⟨some (.errno e), 0, asCreate, r, []⟩
  | .ok eh =>
    match eachLoad f eh defineSegment (List.range eh.ePhnum.toNat) asCreate with
    | (some stop, as) => ⟨some stop, 0, as, r, []⟩
    | (none, as) =>
      match asPrepareLoad as r with
      | (some stop, as, r) => ⟨some stop, 0, as, r, []⟩
      | (none, as, r) =>
        match eachLoad f eh (loadSegment as xfer) (List.range eh.ePhnum.toNat) [] with
        | (some stop, reads) => ⟨some stop, 0, as, r, reads⟩
        | (none, reads) => ⟨none, eh.eEntry, as, r, reads⟩

/-- Loading was safe: `load_segment` was not reached and success not returned without an address
space that `vm_fault` accepts, and neither the loading nor an access by the new program panics. -/
structure Outcome.Safe (o : Outcome) : Prop where
  setUp : o.reads ≠ [] ∨ o.stop = none → o.as.SetUp
  loading : o.stop ≠ some .panic
  access : o.stop = none → ∀ slot ft addr, ft = .read ∨ ft = .write →
    vmFault o.as slot ft addr ≠ .error .panic

/-! ### What the headers say -/

/-- The page a header puts its segment in. -/
def Phdr.page (ph : Phdr) : UInt32 := ph.pVaddr &&& pageFrame

/-- The pages a header asks for. -/
def Phdr.npages (ph : Phdr) : UInt32 := regionPages ph.pVaddr ph.pMemsz

/-- The loadable headers among those with the given indices, if none of them is refused. -/
def loads (f : File) (eh : Ehdr) : List ℕ → Option (List Phdr)
  | [] => some []
  | i :: is =>
    match readPhdr f eh i with
    | .error _ => none
    | .ok ph => (loads f eh is).map fun l => if ph.pType = ptLoad then ph :: l else l

/-- The loadable headers of a file whose headers are all accepted. -/
def accepted (f : File) : Option (List Phdr) :=
  match readEhdr f with
  | .error _ => none
  | .ok eh => loads f eh (List.range eh.ePhnum.toNat)

/-- The first header outside page 0, and the headers after it. -/
def firstRegion : List Phdr → Option (Phdr × List Phdr)
  | [] => none
  | ph :: l => if ph.page = 0 then firstRegion l else some (ph, l)

/-- The pages that end up in the slot filled from a list of headers: those of the first header
outside page 0, or of the last header of all. -/
def slotPages (n : UInt32) : List Phdr → UInt32
  | [] => n
  | ph :: l => if ph.page = 0 then slotPages ph.npages l else ph.npages

/-- The headers from which the second slot is filled. -/
def afterFirst (l : List Phdr) : List Phdr := ((firstRegion l).map Prod.snd).getD []

/-- There is a header beyond the second region. -/
def TooMany (l : List Phdr) : Prop :=
  ∃ p ∈ firstRegion l, ∃ q ∈ firstRegion p.2, q.2 ≠ []

/-- There are two regions, and both have pages. -/
def TwoRegions (l : List Phdr) : Prop :=
  ∃ p ∈ firstRegion l, ∃ q ∈ firstRegion p.2, p.1.npages ≠ 0 ∧ q.1.npages ≠ 0

/-- Memory is granted for both slots and the stack. -/
def MemoryFor (r : Ram) (l : List Phdr) : Prop :=
  Grants r [slotPages 0 l, slotPages 0 (afterFirst l), dumbvmStackpages]

/-- There is as much free memory as the two slots and the stack take. -/
def Fits (r : Ram) (l : List Phdr) : Prop :=
  r.firstpaddr.toNat + ((slotPages 0 l).toNat + (slotPages 0 (afterFirst l)).toNat +
    dumbvmStackpages.toNat) * 4096 ≤ r.lastpaddr.toNat

/-- A file that does no harm: its headers are refused, or there are too many regions, or memory is
refused, or the memory granted is there and the file has the two regions that `vm_fault` wants. -/
def Harmless (f : File) (r : Ram) : Prop :=
  ∀ l ∈ accepted f, TooMany l ∨ ¬ MemoryFor r l ∨ Fits r l ∧ TwoRegions l

/-! ### The loops over accepted headers -/

/-- A loop body run on a list of headers. -/
def overLoads (body : Phdr → σ → Option Stop × σ) : List Phdr → σ → Option Stop × σ
  | [], s => (none, s)
  | ph :: l, s =>
    match body ph s with
    | (some stop, s') => (some stop, s')
    | (none, s') => overLoads body l s'

theorem overLoads_cons_of_none {body : Phdr → σ → Option Stop × σ} {ph : Phdr} {s s' : σ}
    (h : body ph s = (none, s')) (l : List Phdr) :
    overLoads body (ph :: l) s = overLoads body l s' := by
  simp [overLoads, h]

/-- When no header is refused the loop runs its body on the loadable ones. -/
theorem eachLoad_of_loads {f : File} {eh : Ehdr} {is : List ℕ} {l : List Phdr}
    (h : loads f eh is = some l) (body : Phdr → σ → Option Stop × σ) (s : σ) :
    eachLoad f eh body is s = overLoads body l s := by
  induction is generalizing l s with
  | nil =>
    obtain rfl := Option.some.inj h
    rfl
  | cons i is ih =>
    rw [loads] at h
    cases hr : readPhdr f eh i with
    | error e => simp [hr] at h
    | ok ph =>
      rw [hr] at h
      obtain ⟨l', hl', rfl⟩ := Option.map_eq_some_iff.mp h
      simp only [eachLoad, hr]
      by_cases hld : ph.pType = ptLoad
      · rw [if_pos hld, if_pos hld, overLoads]
        rcases body ph s with ⟨_ | stop, s'⟩
        · exact ih hl' s'
        · rfl
      · rw [if_neg hld, if_neg hld]
        exact ih hl' s

/-- When a header is refused the loop stops, there or before. -/
theorem eachLoad_of_refused {f : File} {eh : Ehdr} {is : List ℕ} (h : loads f eh is = none)
    {body : Phdr → σ → Option Stop × σ} (hbody : ∀ ph s, (body ph s).1 ≠ some .panic) (s : σ) :
    ∃ e, (eachLoad f eh body is s).1 = some (.errno e) := by
  induction is generalizing s with
  | nil => cases h
  | cons i is ih =>
    rw [loads] at h
    cases hr : readPhdr f eh i with
    | error e => exact ⟨e, by simp only [eachLoad, hr]⟩
    | ok ph =>
      rw [hr] at h
      have hl : loads f eh is = none := Option.map_eq_none_iff.mp h
      simp only [eachLoad, hr]
      by_cases hld : ph.pType = ptLoad
      · rw [if_pos hld]
        rcases hb : body ph s with ⟨_ | stop, s'⟩
        · exact ih hl s'
        · cases stop with
          | errno e => exact ⟨e, rfl⟩
          | panic => exact absurd (congrArg Prod.fst hb) (hbody ph s)
      · rw [if_neg hld]
        exact ih hl s

/-! ### Defining the regions -/

theorem defineSegment_ne_panic (ph : Phdr) (as : Addrspace) :
    (defineSegment ph as).1 ≠ some .panic := by
  unfold defineSegment asDefineRegion
  dsimp only
  split
  · simp
  · split <;> simp

section Define

variable {as : Addrspace} {l : List Phdr}

/-- A header in page 0 leaves the first slot free. -/
theorem define_first_none (h1 : as.asVbase1 = 0) (hl : firstRegion l = none) :
    overLoads defineSegment l as = (none, { as with asNpages1 := slotPages as.asNpages1 l }) := by
  induction l generalizing as with
  | nil => rfl
  | cons ph l ih =>
    rw [firstRegion] at hl
    split at hl
    · rename_i hp
      have hstep : defineSegment ph as = (none, { as with asNpages1 := ph.npages }) := by
        simp only [defineSegment, asDefineRegion, if_pos h1, Phdr.npages]
        rw [show ph.pVaddr &&& pageFrame = as.asVbase1 from hp.trans h1.symm]
      have hrest := ih
        (show ({ as with asNpages1 := ph.npages } : Addrspace).asVbase1 = 0 from h1) hl
      rw [overLoads_cons_of_none hstep, hrest, slotPages, if_pos hp]
    · cases hl

theorem define_first_some {ph : Phdr} {l' : List Phdr} (h1 : as.asVbase1 = 0)
    (hl : firstRegion l = some (ph, l')) : overLoads defineSegment l as =
      overLoads defineSegment l' { as with asVbase1 := ph.page, asNpages1 := ph.npages } := by
  induction l generalizing as with
  | nil => cases hl
  | cons ph₀ l ih =>
    have hstep : defineSegment ph₀ as =
        (none, { as with asVbase1 := ph₀.page, asNpages1 := ph₀.npages }) := by
      simp only [defineSegment, asDefineRegion, if_pos h1, Phdr.npages, Phdr.page]
    rw [overLoads_cons_of_none hstep]
    rw [firstRegion] at hl
    split at hl
    · rename_i hp
      exact ih hp hl
    · cases hl
      rfl

theorem define_second_none (h1 : as.asVbase1 ≠ 0) (h2 : as.asVbase2 = 0)
    (hl : firstRegion l = none) :
    overLoads defineSegment l as = (none, { as with asNpages2 := slotPages as.asNpages2 l }) := by
  induction l generalizing as with
  | nil => rfl
  | cons ph l ih =>
    rw [firstRegion] at hl
    split at hl
    · rename_i hp
      have hstep : defineSegment ph as = (none, { as with asNpages2 := ph.npages }) := by
        simp only [defineSegment, asDefineRegion, if_neg h1, if_pos h2, Phdr.npages]
        rw [show ph.pVaddr &&& pageFrame = as.asVbase2 from hp.trans h2.symm]
      have hrest := ih (show ({ as with asNpages2 := ph.npages } : Addrspace).asVbase1 ≠ 0 from h1)
        h2 hl
      rw [overLoads_cons_of_none hstep, hrest, slotPages, if_pos hp]
    · cases hl

theorem define_second_some {ph : Phdr} {l' : List Phdr} (h1 : as.asVbase1 ≠ 0)
    (h2 : as.asVbase2 = 0) (hl : firstRegion l = some (ph, l')) : overLoads defineSegment l as =
      overLoads defineSegment l' { as with asVbase2 := ph.page, asNpages2 := ph.npages } := by
  induction l generalizing as with
  | nil => cases hl
  | cons ph₀ l ih =>
    have hstep : defineSegment ph₀ as =
        (none, { as with asVbase2 := ph₀.page, asNpages2 := ph₀.npages }) := by
      simp only [defineSegment, asDefineRegion, if_neg h1, if_pos h2, Phdr.npages, Phdr.page]
    rw [overLoads_cons_of_none hstep]
    rw [firstRegion] at hl
    split at hl
    · rename_i hp
      exact ih h1 hp hl
    · cases hl
      rfl

/-- With both slots taken a further header is refused. -/
theorem define_full (h1 : as.asVbase1 ≠ 0) (h2 : as.asVbase2 ≠ 0) (hl : l ≠ []) :
    (overLoads defineSegment l as).1 = some (.errno .enosys) := by
  cases l with
  | nil => exact absurd rfl hl
  | cons ph l => simp [overLoads, defineSegment, asDefineRegion, if_neg h1, if_neg h2]

end Define

theorem firstRegion_page {l l' : List Phdr} {ph : Phdr} (h : firstRegion l = some (ph, l')) :
    ph.page ≠ 0 := by
  induction l with
  | nil => cases h
  | cons ph₀ l ih =>
    rw [firstRegion] at h
    split at h
    · exact ih h
    · cases h
      assumption

theorem slotPages_of_firstRegion {l l' : List Phdr} {ph : Phdr} (n : UInt32)
    (h : firstRegion l = some (ph, l')) : slotPages n l = ph.npages := by
  induction l generalizing n with
  | nil => cases h
  | cons ph₀ l ih =>
    rw [firstRegion] at h
    rw [slotPages]
    split at h
    · rename_i hp
      rw [if_pos hp]
      exact ih _ h
    · rename_i hp
      cases h
      exact if_neg hp

/-- What the first loop makes of the headers: `ENOSYS` when there are too many regions, else an
address space without memory whose two slots are filled as the headers say. -/
theorem define_cases (l : List Phdr) :
    (TooMany l ∧ (overLoads defineSegment l asCreate).1 = some (.errno .enosys)) ∨
      (¬ TooMany l ∧ ∃ as : Addrspace, overLoads defineSegment l asCreate = (none, as) ∧
        as.Unbacked ∧ 4096 ∣ as.asVbase1.toNat ∧ 4096 ∣ as.asVbase2.toNat ∧
        as.asNpages1 = slotPages 0 l ∧ as.asNpages2 = slotPages 0 (afterFirst l) ∧
        ((as.asVbase1 ≠ 0 ∧ as.asNpages1 ≠ 0 ∧ as.asVbase2 ≠ 0 ∧ as.asNpages2 ≠ 0) ↔
          TwoRegions l)) := by
  cases hp : firstRegion l with
  | none =>
    refine Or.inr ⟨by simp [TooMany, hp], _, define_first_none rfl hp, ⟨rfl, rfl, rfl⟩, ?_⟩
    simp [asCreate, afterFirst, hp, slotPages, TwoRegions]
  | some p =>
    obtain ⟨ph, l'⟩ := p
    rw [define_first_some rfl hp]
    have hne := firstRegion_page hp
    have hafter : afterFirst l = l' := by simp [afterFirst, hp]
    have hdvd : 4096 ∣ ph.page.toNat := dvd_and_pageFrame _
    cases hq : firstRegion l' with
    | none =>
      refine Or.inr ⟨by simp [TooMany, hp, hq], _, define_second_none hne rfl hq, ⟨rfl, rfl, rfl⟩,
        hdvd, ?_⟩
      simp [asCreate, hafter, slotPages_of_firstRegion 0 hp, TwoRegions, hp, hq]
    | some q =>
      obtain ⟨ph', l''⟩ := q
      have hne' := firstRegion_page hq
      have hdvd' : 4096 ∣ ph'.page.toNat := dvd_and_pageFrame _
      rw [define_second_some hne rfl hq]
      by_cases hl'' : l'' = []
      · subst hl''
        refine Or.inr ⟨by simp [TooMany, hp, hq], _, rfl, ⟨rfl, rfl, rfl⟩, hdvd, hdvd', ?_⟩
        simp [hafter, slotPages_of_firstRegion 0 hp, slotPages_of_firstRegion 0 hq, TwoRegions, hp,
          hq, hne, hne']
      · exact Or.inl ⟨by simp [TooMany, hp, hq, hl''], define_full hne hne' hl''⟩

/-! ### Clearing the memory -/

section Clear

variable {r : Ram} {n n₁ n₂ : UInt32} {as : Addrspace} {l : List Phdr}

theorem regionPages_lt (vaddr sz : UInt32) : (regionPages vaddr sz).toNat < 2 ^ 20 := by
  unfold regionPages
  dsimp only
  rw [UInt32.toNat_div, show Ram.pageSize.toNat = 2 ^ 12 from rfl,
    Nat.div_lt_iff_lt_mul (by decide)]
  exact UInt32.toNat_lt _

theorem slotPages_lt (hn : n.toNat < 2 ^ 20) (l : List Phdr) : (slotPages n l).toNat < 2 ^ 20 := by
  induction l generalizing n with
  | nil => exact hn
  | cons ph l ih =>
    rw [slotPages]
    split
    · exact ih (regionPages_lt _ _)
    · exact regionPages_lt _ _

theorem toNat_mul_pageSize_of_lt (hn : n.toNat < 2 ^ 20) :
    (n * Ram.pageSize).toNat = n.toNat * 4096 := by
  rw [UInt32.toNat_mul, show Ram.pageSize.toNat = 4096 from rfl, Nat.mod_eq_of_lt (by omega)]

/-- Memory that is granted starts at `firstpaddr`. If the sum does not wrap it is there, and the
free memory starts behind it. -/
theorem getppages_granted (h : (r.getppages n).1 ≠ 0) :
    (r.getppages n).1 = r.firstpaddr ∧ (r.getppages n).2.lastpaddr = r.lastpaddr ∧
      (r.firstpaddr.toNat + n.toNat * 4096 ≤ r.lastpaddr.toNat →
        (r.getppages n).2.firstpaddr.toNat = r.firstpaddr.toNat + n.toNat * 4096) ∧
      (r.getppages n).2.firstpaddr.toNat ≤ r.lastpaddr.toNat := by
  have hsum := Ram.toNat_add_size r n
  have hlast := r.lastpaddr.toNat_lt
  unfold Ram.getppages Ram.ramStealmem at h ⊢
  dsimp only at h ⊢
  split at h
  · exact absurd rfl h
  · rename_i hle
    rw [if_neg hle]
    rw [gt_iff_lt, UInt32.lt_iff_toNat_lt, not_lt] at hle
    refine ⟨rfl, rfl, fun hfits => ?_, hle⟩
    rw [hsum, Nat.mod_eq_of_lt (by omega)]

theorem asZeroRegion_eq_none (hn : n.toNat < 2 ^ 20) (paddr : UInt32) :
    asZeroRegion r paddr n = none ↔ paddr.toNat + n.toNat * 4096 ≤ r.lastpaddr.toNat := by
  rw [asZeroRegion, toNat_mul_pageSize_of_lt hn]
  split <;> simp_all

theorem asZeroRegion_of_not (hn : n.toNat < 2 ^ 20) {paddr : UInt32}
    (h : ¬ paddr.toNat + n.toNat * 4096 ≤ r.lastpaddr.toNat) :
    asZeroRegion r paddr n = some .panic := by
  rw [asZeroRegion, toNat_mul_pageSize_of_lt hn, if_neg h]

/-- What `as_prepare_load` does with an address space that has no memory yet: clearing what was
granted goes well if there is so much memory, and panics otherwise. -/
theorem asPrepareLoad_cases (h : as.Unbacked) (r : Ram) (hn₁ : as.asNpages1.toNat < 2 ^ 20)
    (hn₂ : as.asNpages2.toNat < 2 ^ 20) :
    (¬ Grants r [as.asNpages1, as.asNpages2, dumbvmStackpages] ∧
        (asPrepareLoad as r).1 = some (.errno .enomem)) ∨
      (Grants r [as.asNpages1, as.asNpages2, dumbvmStackpages] ∧
        (asPrepareLoad as r).2 = (Dumbvm.asPrepareLoad as r).2 ∧
        (asPrepareLoad as r).1 =
          if r.firstpaddr.toNat + (as.asNpages1.toNat + as.asNpages2.toNat +
            dumbvmStackpages.toNat) * 4096 ≤ r.lastpaddr.toNat then none else some .panic) := by
  have hn₃ : dumbvmStackpages.toNat < 2 ^ 20 := by decide
  unfold asPrepareLoad
  rcases Dumbvm.asPrepareLoad_cases h r with ⟨hng, hp⟩ | ⟨hg, r₁, r₂, r₃, h1, h2, h3, hp⟩
  · left
    rcases hp' : Dumbvm.asPrepareLoad as r with ⟨stop, as', r'⟩
    rw [hp'] at hp
    cases hp
    exact ⟨hng, rfl⟩
  · right
    refine ⟨hg, ?_⟩
    obtain ⟨hg₁, hg₂, hg₃, -⟩ := hg
    rw [← h1] at hg₂ hg₃
    rw [← h2] at hg₃
    obtain ⟨hp₁, hl₁, hf₁, -⟩ := getppages_granted hg₁
    obtain ⟨hp₂, hl₂, hf₂, -⟩ := getppages_granted hg₂
    obtain ⟨hp₃, hl₃, -, -⟩ := getppages_granted hg₃
    rw [← h1] at hl₁ hf₁
    rw [← h2] at hl₂ hf₂
    rw [← h3] at hl₃
    have hlast : r₃.lastpaddr = r.lastpaddr := (hl₃.trans hl₂).trans hl₁
    rw [hp]
    dsimp only
    rw [hp₁, hp₂, hp₃]
    by_cases hfit₁ : r.firstpaddr.toNat + as.asNpages1.toNat * 4096 ≤ r₃.lastpaddr.toNat
    · rw [(asZeroRegion_eq_none hn₁ _).mpr hfit₁]
      dsimp only
      rw [hlast] at hfit₁
      by_cases hfit₂ : r₁.firstpaddr.toNat + as.asNpages2.toNat * 4096 ≤ r₃.lastpaddr.toNat
      · rw [(asZeroRegion_eq_none hn₂ _).mpr hfit₂]
        refine ⟨rfl, ?_⟩
        rw [hlast, ← hl₁] at hfit₂
        rw [asZeroRegion, toNat_mul_pageSize_of_lt hn₃, hf₂ hfit₂, hf₁ hfit₁, hlast]
        generalize dumbvmStackpages.toNat = k at hn₃ ⊢
        exact if_congr (by omega) rfl rfl
      · rw [asZeroRegion_of_not hn₂ hfit₂]
        rw [hf₁ hfit₁, hlast] at hfit₂
        generalize dumbvmStackpages.toNat = k at hn₃ ⊢
        exact ⟨rfl, (if_neg (by omega)).symm⟩
    · rw [asZeroRegion_of_not hn₁ hfit₁]
      rw [hlast] at hfit₁
      have hle : as.asNpages1.toNat ≤
          as.asNpages1.toNat + as.asNpages2.toNat + dumbvmStackpages.toNat :=
        Nat.le_add_right_of_le (Nat.le_add_right _ _)
      refine ⟨rfl, (if_neg fun hsum => hfit₁ ?_).symm⟩
      exact (Nat.add_le_add_left (Nat.mul_le_mul_right 4096 hle) _).trans hsum

end Clear

/-! ### Loading the segments -/

/-- A copy into an address space that is set up does not panic. -/
theorem takeFaults_ne_panic {as : Addrspace} (h : as.SetUp) (faults : List (UInt32 × Bool)) :
    takeFaults as faults ≠ some .panic := by
  induction faults with
  | nil => simp [takeFaults]
  | cons p faults ih =>
    obtain ⟨addr, slot⟩ := p
    have hv := vmFault_ne_panic h slot (Or.inr rfl : FaultType.write = .read ∨ _) addr
    rw [takeFaults]
    cases hf : vmFault as slot .write addr with
    | ok paddr => exact ih
    | error stop =>
      cases stop with
      | errno e => simp
      | panic => exact absurd hf hv

theorem loadSegment_ne_panic {as : Addrspace} (h : as.SetUp) (xfer : SegmentRead → Xfer)
    (ph : Phdr) (reads : List SegmentRead) :
    (loadSegment as xfer ph reads).1 ≠ some .panic := by
  unfold loadSegment
  dsimp only
  split
  · rename_i stop hstop
    intro hpanic
    obtain rfl := Option.some.inj hpanic
    exact takeFaults_ne_panic h _ hstop
  · split
    · simp
    · split <;> simp

theorem overLoads_ne_panic {body : Phdr → σ → Option Stop × σ}
    (hbody : ∀ ph s, (body ph s).1 ≠ some .panic) (l : List Phdr) (s : σ) :
    (overLoads body l s).1 ≠ some .panic := by
  induction l generalizing s with
  | nil => simp [overLoads]
  | cons ph l ih =>
    have hb := hbody ph s
    rw [overLoads]
    rcases hbody : body ph s with ⟨_ | stop, s'⟩
    · exact ih s'
    · rwa [hbody] at hb

/-- The second loop records every call of `load_segment` it makes. -/
theorem reads_ne_nil (as : Addrspace) (xfer : SegmentRead → Xfer) (l : List Phdr)
    (reads : List SegmentRead) (h : l ≠ [] ∨ reads ≠ []) :
    (overLoads (loadSegment as xfer) l reads).2 ≠ [] := by
  induction l generalizing reads with
  | nil => exact h.resolve_left fun hne => hne rfl
  | cons ph l ih =>
    have hone : (loadSegment as xfer ph reads).2 ≠ [] := by
      unfold loadSegment
      dsimp only
      split
      · simp
      · split
        · simp
        · split <;> simp
    rw [overLoads]
    rcases hb : loadSegment as xfer ph reads with ⟨_ | stop, reads'⟩
    · rw [hb] at hone
      exact ih reads' (Or.inr hone)
    · rwa [hb] at hone

/-! ### The files that load safely -/

section Exact

variable {f : File} (xfer : SegmentRead → Xfer) (r : Ram)

/-- A file whose headers are refused is not loaded. -/
theorem loadElf_of_refused (h : accepted f = none) :
    ∃ e, (loadElf f xfer r).stop = some (.errno e) ∧ (loadElf f xfer r).reads = [] := by
  unfold accepted at h
  unfold loadElf
  cases heh : readEhdr f with
  | error e => exact ⟨e, rfl, rfl⟩
  | ok eh =>
    rw [heh] at h
    obtain ⟨e, he⟩ := eachLoad_of_refused h defineSegment_ne_panic asCreate
    dsimp only
    rcases hd : eachLoad f eh defineSegment (List.range eh.ePhnum.toNat) asCreate with ⟨stop, as⟩
    rw [hd] at he
    cases he
    exact ⟨e, rfl, rfl⟩

/-- A file whose headers are accepted is loaded as its list of loadable headers says. -/
theorem loadElf_of_accepted {l : List Phdr} (h : accepted f = some l) :
    (TooMany l ∧ (loadElf f xfer r).stop = some (.errno .enosys) ∧ (loadElf f xfer r).reads = []) ∨
      (¬ TooMany l ∧ ¬ MemoryFor r l ∧ (loadElf f xfer r).stop = some (.errno .enomem) ∧
        (loadElf f xfer r).reads = []) ∨
      (¬ TooMany l ∧ MemoryFor r l ∧ ¬ Fits r l ∧ (loadElf f xfer r).stop = some .panic) ∨
      (¬ TooMany l ∧ MemoryFor r l ∧ Fits r l ∧ (4096 ∣ r.firstpaddr.toNat →
          ((loadElf f xfer r).as.SetUp ↔ TwoRegions l)) ∧
        ((loadElf f xfer r).stop, (loadElf f xfer r).reads) =
          overLoads (loadSegment (loadElf f xfer r).as xfer) l []) := by
  unfold accepted at h
  unfold loadElf
  cases heh : readEhdr f with
  | error e => simp [heh] at h
  | ok eh =>
    rw [heh] at h
    dsimp only at h ⊢
    simp only [eachLoad_of_loads h]
    rcases define_cases l with ⟨hmany, hd⟩ | ⟨hfew, as, hd, hun, hv1, hv2, hn1, hn2, htwo⟩
    · left
      rcases hd' : overLoads defineSegment l asCreate with ⟨stop, as⟩
      rw [hd'] at hd
      cases hd
      exact ⟨hmany, rfl, rfl⟩
    · right
      rw [hd]
      dsimp only
      have hn₁ : as.asNpages1.toNat < 2 ^ 20 := hn1 ▸ slotPages_lt (by decide) l
      have hn₂ : as.asNpages2.toNat < 2 ^ 20 := hn2 ▸ slotPages_lt (by decide) _
      have hset := fun hr => asPrepareLoad_setUp_iff hun (r := r) hr hv1 hv2
      rcases asPrepareLoad_cases hun r hn₁ hn₂ with ⟨hng, hp⟩ | ⟨hg, hp, hstop⟩
      · left
        rcases hp' : asPrepareLoad as r with ⟨stop, as', r'⟩
        rw [hp'] at hp
        cases hp
        rw [hn1, hn2] at hng
        exact ⟨hfew, hng, rfl, rfl⟩
      · right
        have hset := fun hr => (hset hr hg).trans htwo
        rw [← hp] at hset
        rw [hn1, hn2] at hg hstop
        rcases hp' : asPrepareLoad as r with ⟨stop, as', r'⟩
        rw [hp'] at hset hstop
        dsimp only at hset hstop
        by_cases hfits : Fits r l
        · right
          obtain rfl : stop = none := hstop.trans (if_pos hfits)
          dsimp only
          rcases hrun : overLoads (loadSegment as' xfer) l [] with ⟨_ | stop, reads⟩
          · exact ⟨hfew, hg, hfits, hset, hrun.symm⟩
          · exact ⟨hfew, hg, hfits, hset, hrun.symm⟩
        · left
          obtain rfl : stop = some .panic := hstop.trans (if_neg hfits)
          exact ⟨hfew, hg, hfits, rfl⟩

/-- **Loading arbitrary files.** Whatever the bytes of the file, whatever its reads return and
wherever free memory starts, loading it is safe exactly if the file is harmless. -/
theorem loadElf_safe_iff {r : Ram} (hr : 4096 ∣ r.firstpaddr.toNat) :
    (loadElf f xfer r).Safe ↔ Harmless f r := by
  cases hacc : accepted f with
  | none =>
    obtain ⟨e, hstop, hreads⟩ := loadElf_of_refused xfer r hacc
    refine ⟨fun _ l hl => (by rw [hacc] at hl; cases hl), fun _ => ⟨?_, ?_, ?_⟩⟩
    · simp [hstop, hreads]
    · simp [hstop]
    · simp [hstop]
  | some l =>
    have hharm : Harmless f r ↔ TooMany l ∨ ¬ MemoryFor r l ∨ Fits r l ∧ TwoRegions l := by
      simp [Harmless, hacc]
    rw [hharm]
    rcases loadElf_of_accepted xfer r hacc with
      ⟨hmany, hstop, hreads⟩ | ⟨-, hmem, hstop, hreads⟩ | ⟨hfew, hmem, hfits, hstop⟩ |
      ⟨hfew, hmem, hfits, hset, hloop⟩
    · refine ⟨fun _ => Or.inl hmany, fun _ => ⟨?_, ?_, ?_⟩⟩ <;> simp [hstop, hreads]
    · refine ⟨fun _ => Or.inr (Or.inl hmem), fun _ => ⟨?_, ?_, ?_⟩⟩ <;> simp [hstop, hreads]
    · rw [or_iff_right hfew, or_iff_right (not_not.mpr hmem)]
      exact ⟨fun hsafe => absurd hstop hsafe.loading, fun h => absurd h.1 hfits⟩
    · rw [or_iff_right hfew, or_iff_right (not_not.mpr hmem), and_iff_right hfits, ← hset hr]
      constructor
      · intro hsafe
        refine hsafe.setUp ?_
        by_cases hl : l = []
        · subst hl
          exact Or.inr (congrArg Prod.fst hloop)
        · left
          have hne := reads_ne_nil (loadElf f xfer r).as xfer l [] (Or.inl hl)
          rwa [← hloop] at hne
      · intro hup
        refine ⟨fun _ => hup, ?_, fun _ slot ft addr hft => vmFault_ne_panic hup slot hft addr⟩
        have hnp := overLoads_ne_panic (fun ph s => loadSegment_ne_panic hup xfer ph s) l []
        rwa [← hloop] at hnp

end Exact

/-! ### Three executables -/

/-- The header of an executable with `phnum` program headers right behind it. -/
def sampleEhdr (phnum : UInt8) : List UInt8 :=
  [0x7f, 0x45, 0x4c, 0x46, 1, 2, 1, 0, 0, 0, 0, 0, 0, 0, 0, 0, 0, 2, 0, 8, 0, 0, 0, 1,
    0, 0x40, 0, 0, 0, 0, 0, 52, 0, 0, 0, 0, 0, 0, 0, 0, 0, 52, 0, 32, 0, phnum, 0, 0, 0, 0, 0, 0]

/-- The header of a loadable segment at `hi * 2 ^ 16` with the first 84 bytes of the file. The upper
half of `p_memsz` consists of the byte `m`, the lower half is 0x1000. -/
def samplePhdr (hi m : UInt8) : List UInt8 :=
  [0, 0, 0, 1, 0, 0, 0, 0, 0, hi, 0, 0, 0, 0, 0, 0, 0, 0, 0, 84, m, m, 0x10, 0,
    0, 0, 0, 5, 0, 0, 0x10, 0]

/-- A program with text and data. -/
def twoSegments : File := ⟨sampleEhdr 2 ++ samplePhdr 0x40 0 ++ samplePhdr 0x50 0, fun _ => none⟩

/-- A program with text only, of 84 bytes. -/
def oneSegment : File := ⟨sampleEhdr 1 ++ samplePhdr 0x40 0, fun _ => none⟩

/-- A program whose data take almost 4 GB, for which `ram_stealmem` finds room in 1 MB. -/
def hugeSegment : File :=
  ⟨sampleEhdr 2 ++ samplePhdr 0x40 0 ++ samplePhdr 0x50 0xff, fun _ => none⟩

/-- The copy of what the file has: a fault for its first byte and one for each page after that, with
room in the TLB. -/
def sampleXfer (f : File) (u : SegmentRead) : Xfer :=
  let n := min u.uioResid.toNat (f.bytes.length - u.uioOffset.toNat)
  { faults := (List.range ((u.iovUbase.toNat % 4096 + n + 4095) / 4096)).map fun i =>
      (if i = 0 then u.iovUbase else (u.iovUbase &&& pageFrame) + UInt32.ofNat (i * 4096), true)
    result := .ok (u.uioResid.toNat - n) }

instance (l : List Phdr) : Decidable (TooMany l) :=
  inferInstanceAs (Decidable (∃ p ∈ firstRegion l, ∃ q ∈ firstRegion p.2, q.2 ≠ []))

instance (l : List Phdr) : Decidable (TwoRegions l) :=
  inferInstanceAs (Decidable (∃ p ∈ firstRegion l, ∃ q ∈ firstRegion p.2, _ ∧ _))

instance (r : Ram) (l : List Phdr) : Decidable (MemoryFor r l) :=
  inferInstanceAs (Decidable (Grants r _))

instance (r : Ram) (l : List Phdr) : Decidable (Fits r l) := Nat.decLe _ _

instance (f : File) (r : Ram) : Decidable (Harmless f r) :=
  inferInstanceAs (Decidable (∀ l ∈ accepted f, _ ∨ _ ∨ _ ∧ _))

/-- The program with two segments is loaded. -/
theorem loadElf_safe_iff_twoSegments :
    (loadElf twoSegments (sampleXfer twoSegments) Ram.smallBoot).stop = none ∧
      (loadElf twoSegments (sampleXfer twoSegments) Ram.smallBoot).Safe :=
  ⟨by decide +kernel, (loadElf_safe_iff _ (by decide)).mpr (by decide)⟩

/-- The only region of `oneSegment` leaves the second slot of the address space empty, and the
first write into the segment fails an assertion of `vm_fault`. -/
theorem oneSegment_panics :
    (loadElf oneSegment (sampleXfer oneSegment) Ram.smallBoot).reads ≠ [] ∧
      ¬ (loadElf oneSegment (sampleXfer oneSegment) Ram.smallBoot).as.SetUp ∧
      (loadElf oneSegment (sampleXfer oneSegment) Ram.smallBoot).stop = some .panic := by
  refine ⟨?_, ?_, ?_⟩ <;> decide

/-- The data of `hugeSegment` are cleared beyond the end of the memory. -/
example : (loadElf hugeSegment (sampleXfer hugeSegment) Ram.smallBoot).stop = some .panic := by
  decide

end Loadelf

end Os161
