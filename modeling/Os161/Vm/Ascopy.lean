import Os161.Lib.Memory
import Os161.Vm.Regions

/-!
# Copying an address space

`as_copy` of `kern/arch/mips/vm/dumbvm.c`: memory is obtained for a second address space, cleared,
and filled from the first one, all through the kernel's own addresses for physical memory. What the
user sees of it is what `vm_fault` translates to.

The three pieces of an address space differ in their bases and lengths, and in nothing else
(`Piece`, `place`). A page is in the same place of both address spaces, so all that is left is that
none of the new pieces meets another piece.

## Main definitions

* `Dumbvm.Vm` — the structures, the free memory and the contents of memory
* `Dumbvm.Image` — what a copy is expected to be

## Main results

* `Dumbvm.asCopy_image`
-/

namespace Os161

namespace Dumbvm

open Ram (pageSize paddrToKvaddr)

/-! ### The code -/

/-- The address spaces, by the addresses of their structures, the memory that is free, and what is
in memory, by the addresses the kernel has for it. -/
structure Vm where
  space : UInt32 → Addrspace
  ram : Ram
  mem : Memory

/-- The byte at a physical address. -/
def Vm.byte (vm : Vm) (paddr : UInt32) : UInt8 := vm.mem (paddrToKvaddr paddr)

/-- `as_zero_region`. -/
def asZeroRegion (mem : Memory) (paddr npages : UInt32) : Memory :=
  mem.fill (paddrToKvaddr paddr) (npages * pageSize) 0

/-- `as_prepare_load`, with the clearing of the memory. -/
def Vm.asPrepareLoad (vm : Vm) (as : UInt32) : Option Stop × Vm :=
  let (result, a, ram) := Dumbvm.asPrepareLoad (vm.space as) vm.ram
  let vm := { vm with space := Function.update vm.space as a, ram := ram }
  if result = none then
    let mem := asZeroRegion vm.mem a.asPbase1 a.asNpages1
    let mem := asZeroRegion mem a.asPbase2 a.asNpages2
    let mem := asZeroRegion mem a.asStackpbase dumbvmStackpages
    (none, { vm with mem := mem })
  else (result, vm)

/-- `as_create`, which allocates the structure at `new`. -/
def Vm.asCreate (vm : Vm) (new : UInt32) : Vm :=
  { vm with space := Function.update vm.space new Dumbvm.asCreate }

/-- `as_copy`, the four assignments. -/
def Vm.copyRegions (vm : Vm) (old new : UInt32) : Vm :=
  { vm with space := Function.update vm.space new { vm.space new with
      asVbase1 := (vm.space old).asVbase1
      asNpages1 := (vm.space old).asNpages1
      asVbase2 := (vm.space old).asVbase2
      asNpages2 := (vm.space old).asNpages2 } }

/-- `as_copy`, the three calls of `memmove` to the memory of `a`. -/
def copyMemory (mem : Memory) (a o : Addrspace) : Memory :=
  ((mem.move (paddrToKvaddr a.asPbase1) (paddrToKvaddr o.asPbase1) (o.asNpages1 * pageSize)).move
    (paddrToKvaddr a.asPbase2) (paddrToKvaddr o.asPbase2) (o.asNpages2 * pageSize)).move
    (paddrToKvaddr a.asStackpbase) (paddrToKvaddr o.asStackpbase) (dumbvmStackpages * pageSize)

/-- `as_copy`, if the structure `as_create` allocates is at `new`, and there is none for it if that
is 0. What is stored in `ret` comes second. -/
def Vm.asCopy (vm : Vm) (old new : UInt32) : Option Stop × Option UInt32 × Vm :=
  if new = 0 then (some (.errno .enomem), none, vm)
  else
    match ((vm.asCreate new).copyRegions old new).asPrepareLoad new with
    | (some .panic, vm) => (some .panic, none, vm)
    | (some (.errno _), vm) => (some (.errno .enomem), none, vm)
    | (none, vm) =>
      if (vm.space new).asPbase1 = 0 ∨ (vm.space new).asPbase2 = 0 ∨
          (vm.space new).asStackpbase = 0 then (some .panic, none, vm)
      else (none, some new, { vm with mem := copyMemory vm.mem (vm.space new) (vm.space old) })

/-! ### What is expected -/

/-- The two regions and the stack. -/
inductive Piece where
  | region1
  | region2
  | stack
  deriving DecidableEq

/-- Where the memory of a piece starts. -/
def Addrspace.pbase (as : Addrspace) : Piece → UInt32
  | .region1 => as.asPbase1
  | .region2 => as.asPbase2
  | .stack => as.asStackpbase

/-- The number of pages of a piece. -/
def Addrspace.npages (as : Addrspace) : Piece → UInt32
  | .region1 => as.asNpages1
  | .region2 => as.asNpages2
  | .stack => dumbvmStackpages

/-- The physical memory of an address space. -/
def Addrspace.frames (as : Addrspace) : Set UInt32 :=
  {p | ∃ i, (as.pbase i).toNat ≤ p.toNat ∧
    p.toNat < (as.pbase i).toNat + (as.npages i).toNat * 4096}

/-- The address space at `new` is an image of the one at `old`, which is as before. -/
structure Image (before after : Vm) (old new : UInt32) : Prop where
  /-- `vm_fault` translates the same addresses. -/
  translated : ∀ slot ft v, (∃ p, vmFault (after.space new) slot ft v = .ok p) ↔
    ∃ p, vmFault (after.space old) slot ft v = .ok p
  /-- At the translated addresses are the same bytes. -/
  byte : ∀ slot ft v p p', vmFault (after.space old) slot ft v = .ok p →
    vmFault (after.space new) slot ft v = .ok p' →
      after.byte (p' + (v &&& ~~~pageFrame)) = after.byte (p + (v &&& ~~~pageFrame))
  apart : Disjoint (after.space new).frames (after.space old).frames
  space : after.space old = before.space old
  frames : ∀ p ∈ (before.space old).frames, after.byte p = before.byte p

/-- The requests are answered with memory that is free: no sum wraps. -/
def AllFresh (r : Ram) : List UInt32 → Prop
  | [] => True
  | n :: ns => ¬ r.Wraps n ∧ AllFresh (r.getppages n).2 ns

instance decidableAllFresh (r : Ram) : (ns : List UInt32) → Decidable (AllFresh r ns)
  | [] => inferInstanceAs (Decidable True)
  | n :: ns =>
    have := decidableAllFresh (r.getppages n).2 ns
    inferInstanceAs (Decidable (_ ∧ _))

/-- The address space is set up, and its memory has been taken off the free memory. -/
structure Vm.Loaded (vm : Vm) (as : UInt32) : Prop where
  setUp : (vm.space as).SetUp
  /-- The free memory is some, and starts at a page. -/
  ram : vm.ram.firstpaddr.toNat ≤ vm.ram.lastpaddr.toNat ∧ 4096 ∣ vm.ram.firstpaddr.toNat
  taken : ∀ i, ((vm.space as).pbase i).toNat + ((vm.space as).npages i).toNat * 4096 ≤
    vm.ram.firstpaddr.toNat

/-! ### Translation -/

/-- Where a piece is in the user's memory. -/
def Addrspace.vbase (as : Addrspace) : Piece → UInt32
  | .region1 => as.asVbase1
  | .region2 => as.asVbase2
  | .stack => userStack - dumbvmStackpages * pageSize

/-- The address is in the piece. -/
def Addrspace.Holds (as : Addrspace) (v : UInt32) (i : Piece) : Prop :=
  as.vbase i ≤ v ∧ v < as.vbase i + as.npages i * pageSize

instance (as : Addrspace) (v : UInt32) (i : Piece) : Decidable (as.Holds v i) := instDecidableAnd

/-- The piece `vm_fault` finds an address in. -/
def Addrspace.piece (as : Addrspace) (v : UInt32) : Option Piece :=
  if as.Holds v .region1 then some .region1
  else if as.Holds v .region2 then some .region2
  else if as.Holds v .stack then some .stack
  else none

theorem translate_eq (as : Addrspace) (v : UInt32) :
    translate as v = (as.piece v).map fun i => (v - as.vbase i) + as.pbase i := by
  unfold translate Addrspace.piece
  dsimp only
  by_cases h1 : as.Holds v .region1
  · rw [if_pos h1]
    exact if_pos h1
  · rw [if_neg h1]
    refine (if_neg h1).trans ?_
    by_cases h2 : as.Holds v .region2
    · rw [if_pos h2]
      exact if_pos h2
    · rw [if_neg h2]
      refine (if_neg h2).trans ?_
      have htop : as.vbase .stack + as.npages .stack * pageSize = userStack := by
        change userStack - dumbvmStackpages * pageSize + dumbvmStackpages * pageSize = userStack
        decide
      by_cases h3 : as.Holds v .stack
      · rw [if_pos h3]
        exact if_pos ⟨h3.1, htop ▸ h3.2⟩
      · rw [if_neg h3]
        exact if_neg fun hv => h3 ⟨hv.1, htop ▸ hv.2⟩

theorem Addrspace.holds_of_piece {as : Addrspace} {v : UInt32} {i : Piece}
    (h : as.piece v = some i) : as.Holds v i := by
  unfold Addrspace.piece at h
  split at h
  · next h1 =>
    cases h
    exact h1
  · split at h
    · next h2 =>
      cases h
      exact h2
    · split at h
      · next h3 =>
        cases h
        exact h3
      · exact nomatch h

/-- The distance from the base of the piece is less than its length. If the top wraps, no address is
in the piece. -/
theorem Addrspace.Holds.sub_lt {as : Addrspace} {v : UInt32} {i : Piece} (h : as.Holds v i) :
    v - as.vbase i < as.npages i * pageSize := by
  obtain ⟨hlo, hhi⟩ := h
  generalize as.npages i * pageSize = len at *
  generalize as.vbase i = base at *
  rw [UInt32.le_iff_toNat_le] at hlo
  rw [UInt32.lt_iff_toNat_lt, UInt32.toNat_add] at hhi
  rw [UInt32.lt_iff_toNat_lt, UInt32.toNat_sub]
  have hbase := base.toNat_lt
  have hlen := len.toNat_lt
  have hv := v.toNat_lt
  omega

/-- When `vm_fault` succeeds. -/
theorem vmFault_eq_ok {as : Addrspace} {slot : Bool} {ft : FaultType} {v p : UInt32} :
    vmFault as slot ft v = .ok p ↔ (ft = .read ∨ ft = .write) ∧ as.SetUp ∧ slot = true ∧
      translate as (v &&& pageFrame) = some p := by
  have hbody : vmFault as slot .read v = .ok p ↔
      as.SetUp ∧ slot = true ∧ translate as (v &&& pageFrame) = some p := by
    unfold vmFault
    dsimp only
    by_cases hs : as.SetUp
    · rw [if_neg (not_not.mpr hs)]
      cases ht : translate as (v &&& pageFrame) with
      | none => simp
      | some q =>
        have hframe := hs.translate_frame (dvd_and_pageFrame v) ht
        cases slot <;> simp [hs, hframe]
    · simp [hs]
  cases ft with
  | read => exact hbody.trans (by simp)
  | write => exact hbody.trans (by simp)
  | readonly => simp [vmFault]
  | other => simp [vmFault]

theorem vmFault_ok_iff {as : Addrspace} {slot : Bool} {ft : FaultType} {v : UInt32} :
    (∃ p, vmFault as slot ft v = .ok p) ↔ (ft = .read ∨ ft = .write) ∧ as.SetUp ∧ slot = true ∧
      ∃ i, as.piece (v &&& pageFrame) = some i := by
  simp only [vmFault_eq_ok, translate_eq, exists_and_left]
  refine and_congr_right fun _ => and_congr_right fun _ => and_congr_right fun _ => ?_
  constructor
  · rintro ⟨p, hp⟩
    obtain ⟨i, hi, -⟩ := Option.map_eq_some_iff.mp hp
    exact ⟨i, hi⟩
  · rintro ⟨i, hi⟩
    exact ⟨_, Option.map_eq_some_iff.mpr ⟨i, hi, rfl⟩⟩

/-! ### The copy has the pieces where the original has them -/

/-- The regions are where they are in `o`, and there is memory for the pieces. -/
structure Twin (a o : Addrspace) : Prop where
  vbase : ∀ i, a.vbase i = o.vbase i
  npages : ∀ i, a.npages i = o.npages i
  backed : ∀ i, a.pbase i ≠ 0 ∧ 4096 ∣ (a.pbase i).toNat

section Twin

variable {a o : Addrspace}

theorem Twin.setUp (h : Twin a o) (ho : o.SetUp) : a.SetUp where
  vbase1 := (h.vbase .region1).trans_ne ho.vbase1
  pbase1 := (h.backed .region1).1
  npages1 := (h.npages .region1).trans_ne ho.npages1
  vbase2 := (h.vbase .region2).trans_ne ho.vbase2
  pbase2 := (h.backed .region2).1
  npages2 := (h.npages .region2).trans_ne ho.npages2
  stackpbase := (h.backed .stack).1
  vframe1 := by
    have hv : a.asVbase1 = o.asVbase1 := h.vbase .region1
    rw [hv]
    exact ho.vframe1
  pframe1 := (and_pageFrame_eq_iff _).mpr (h.backed .region1).2
  vframe2 := by
    have hv : a.asVbase2 = o.asVbase2 := h.vbase .region2
    rw [hv]
    exact ho.vframe2
  pframe2 := (and_pageFrame_eq_iff _).mpr (h.backed .region2).2
  stackframe := (and_pageFrame_eq_iff _).mpr (h.backed .stack).2

theorem Twin.piece (h : Twin a o) (v : UInt32) : a.piece v = o.piece v := by
  unfold Addrspace.piece Addrspace.Holds
  simp only [h.vbase, h.npages]

theorem Twin.vmFault_iff (h : Twin a o) (ho : o.SetUp) (slot : Bool) (ft : FaultType) (v : UInt32) :
    (∃ p, vmFault a slot ft v = .ok p) ↔ ∃ p, vmFault o slot ft v = .ok p := by
  rw [vmFault_ok_iff, vmFault_ok_iff, h.piece]
  exact and_congr_right fun _ => and_congr_left fun _ => ⟨fun _ => ho, fun _ => h.setUp ho⟩

end Twin

/-! ### Bytes -/

theorem Addrspace.SetUp.vbase_dvd {as : Addrspace} (h : as.SetUp) (i : Piece) :
    4096 ∣ (as.vbase i).toNat := by
  cases i with
  | region1 => exact (and_pageFrame_eq_iff _).mp h.vframe1
  | region2 => exact (and_pageFrame_eq_iff _).mp h.vframe2
  | stack =>
    change 4096 ∣ (userStack - dumbvmStackpages * pageSize).toNat
    decide

/-- A byte of a page that is in a piece is in the piece. -/
theorem Addrspace.SetUp.offset_lt {as : Addrspace} (h : as.SetUp) {v : UInt32} {i : Piece}
    (hi : as.piece (v &&& pageFrame) = some i) :
    (v &&& pageFrame) - as.vbase i + (v &&& ~~~pageFrame) < as.npages i * pageSize := by
  have hlt := (holds_of_piece hi).sub_lt
  have hpage := dvd_sub (dvd_and_pageFrame v) (h.vbase_dvd i)
  have hlen := dvd_mul_pageSize (as.npages i)
  have hoff := toNat_and_not_pageFrame v
  generalize (v &&& pageFrame) - as.vbase i = k at *
  generalize as.npages i * pageSize = len at *
  rw [UInt32.lt_iff_toNat_lt] at hlt ⊢
  rw [UInt32.toNat_add, hoff]
  have hbound := len.toNat_lt
  omega

theorem paddrToKvaddr_add (p k : UInt32) : paddrToKvaddr (p + k) = paddrToKvaddr p + k := by
  unfold paddrToKvaddr
  rw [UInt32.add_assoc, UInt32.add_comm k, ← UInt32.add_assoc]

theorem toNat_mul_pageSize {n : UInt32} (h : n.toNat * 4096 < 2 ^ 32) :
    (n * pageSize).toNat = n.toNat * 4096 := by
  rw [UInt32.toNat_mul, show pageSize.toNat = 4096 from rfl]
  omega

/-- The kernel's addresses of memory that ends below 2^32 are an interval, too. -/
theorem sub_kvaddr_lt_iff {p n x : UInt32} (h : p.toNat + n.toNat * 4096 < 2 ^ 32) :
    x - paddrToKvaddr p < n * pageSize ↔ p.toNat ≤ (x - Ram.mipsKseg0).toNat ∧
      (x - Ram.mipsKseg0).toNat < p.toNat + n.toNat * 4096 := by
  have hlen := toNat_mul_pageSize (n := n) (by omega)
  have hsub : x - paddrToKvaddr p = x - Ram.mipsKseg0 - p := by
    rw [← UInt32.toNat_inj, paddrToKvaddr]
    simp only [UInt32.toNat_sub, UInt32.toNat_add]
    have hp := p.toNat_lt
    have hx := x.toNat_lt
    have hk := Ram.mipsKseg0.toNat_lt
    omega
  rw [hsub, Memory.sub_lt_iff (by omega), hlen]

/-! ### The moves -/

/-- The move of a piece of `o` to the one of `a`. -/
def copyPiece (a o : Addrspace) (i : Piece) : Memory.Move :=
  ⟨paddrToKvaddr (a.pbase i), paddrToKvaddr (o.pbase i), o.npages i * pageSize⟩

/-- The pieces in the order of the code. -/
def pieces : List Piece := [.region1, .region2, .stack]

theorem mem_pieces (i : Piece) : i ∈ pieces := by
  cases i <;> decide

/-- The memory of the new address space, cleared. -/
def zeroed (mem : Memory) (a : Addrspace) : Memory :=
  pieces.foldl (fun mem i => asZeroRegion mem (a.pbase i) (a.npages i)) mem

theorem zeroed_eq (mem : Memory) (a : Addrspace) : zeroed mem a =
    asZeroRegion (asZeroRegion (asZeroRegion mem a.asPbase1 a.asNpages1) a.asPbase2 a.asNpages2)
      a.asStackpbase dumbvmStackpages := by
  simp only [zeroed, pieces, List.foldl_cons, List.foldl_nil, Addrspace.pbase, Addrspace.npages]

theorem copyMemory_eq (mem : Memory) (a o : Addrspace) :
    copyMemory mem a o = mem.moves (pieces.map (copyPiece a o)) := by
  simp only [copyMemory, Memory.moves, pieces, List.map_cons, List.map_nil, List.foldl_cons,
    List.foldl_nil, copyPiece, Addrspace.pbase, Addrspace.npages]

/-- The pieces of `o` lie below `first`, and those of `a` from there on, apart from each other. -/
structure Separate (a o : Addrspace) (first : ℕ) : Prop where
  old : ∀ i, (o.pbase i).toNat + (o.npages i).toNat * 4096 ≤ first
  new : ∀ i, first ≤ (a.pbase i).toNat ∧ (a.pbase i).toNat + (a.npages i).toNat * 4096 < 2 ^ 32
  apart : pieces.Pairwise fun i j =>
    (a.pbase i).toNat + (a.npages i).toNat * 4096 ≤ (a.pbase j).toNat

section Separate

variable {a o : Addrspace} {first : ℕ} {mem : Memory}

theorem Separate.first_lt (h : Separate a o first) : first < 2 ^ 32 := by
  have := h.new .region1
  omega

theorem Separate.writes_iff (h : Separate a o first) (ht : Twin a o) (i : Piece) (x : UInt32) :
    (copyPiece a o i).Writes x ↔ (a.pbase i).toNat ≤ (x - Ram.mipsKseg0).toNat ∧
      (x - Ram.mipsKseg0).toNat < (a.pbase i).toNat + (a.npages i).toNat * 4096 := by
  unfold Memory.Move.Writes copyPiece
  rw [← ht.npages i]
  exact sub_kvaddr_lt_iff (h.new i).2

theorem Separate.reads_iff (h : Separate a o first) (i : Piece) (x : UInt32) :
    (copyPiece a o i).Reads x ↔ (o.pbase i).toNat ≤ (x - Ram.mipsKseg0).toNat ∧
      (x - Ram.mipsKseg0).toNat < (o.pbase i).toNat + (o.npages i).toNat * 4096 :=
  sub_kvaddr_lt_iff ((h.old i).trans_lt h.first_lt)

/-- Clearing the new pieces leaves the memory below them alone. -/
theorem Separate.zeroed_of_lt (h : Separate a o first) {x : UInt32}
    (hx : (x - Ram.mipsKseg0).toNat < first) : zeroed mem a x = mem x := by
  have hout : ∀ i (m : Memory), asZeroRegion m (a.pbase i) (a.npages i) x = m x := by
    intro i m
    obtain ⟨hlo, hhi⟩ := h.new i
    unfold asZeroRegion
    rw [Memory.fill_of_out]
    rw [sub_kvaddr_lt_iff hhi]
    exact fun hin => absurd hin.1 (not_le.mpr (hx.trans_le hlo))
  unfold zeroed
  generalize pieces = l
  induction l generalizing mem with
  | nil => rfl
  | cons i l ih => rw [List.foldl_cons, ih, hout]

/-- Neither does the copying touch it. -/
theorem Separate.moves_of_lt (h : Separate a o first) (ht : Twin a o) {x : UInt32}
    (hx : (x - Ram.mipsKseg0).toNat < first) :
    ((zeroed mem a).moves (pieces.map (copyPiece a o))) x = mem x := by
  rw [Memory.moves_of_out, h.zeroed_of_lt hx]
  intro v hv
  obtain ⟨i, -, rfl⟩ := List.mem_map.mp hv
  rw [h.writes_iff ht]
  have hi := h.new i
  omega

/-- After the copying each byte of a new piece is the one of the old piece. -/
theorem Separate.moves_add (h : Separate a o first) (ht : Twin a o) (i : Piece) {k : UInt32}
    (hk : k < o.npages i * pageSize) :
    ((zeroed mem a).moves (pieces.map (copyPiece a o))) (paddrToKvaddr (a.pbase i) + k) =
      mem (paddrToKvaddr (o.pbase i) + k) := by
  have hmove := Memory.moves_add (m := zeroed mem a) (l := pieces.map (copyPiece a o))
    (v := copyPiece a o i) ?_ ?_ (List.mem_map_of_mem (mem_pieces i)) hk
  · have hread : (copyPiece a o i).Reads (paddrToKvaddr (o.pbase i) + k) := by
      unfold Memory.Move.Reads copyPiece
      rwa [Memory.add_sub_self]
    have hold := h.old i
    refine hmove.trans (h.zeroed_of_lt ?_)
    exact ((h.reads_iff i _).mp hread).2.trans_le hold
  · refine List.pairwise_map.mpr (h.apart.imp fun {i j} hij x hx => ?_)
    rw [h.writes_iff ht] at hx ⊢
    omega
  · intro v hv w hw x hx
    obtain ⟨i, -, rfl⟩ := List.mem_map.mp hv
    obtain ⟨j, -, rfl⟩ := List.mem_map.mp hw
    rw [h.reads_iff] at hx
    rw [h.writes_iff ht]
    have hi := h.old i
    have hj := h.new j
    omega

end Separate

/-! ### The new memory -/

/-- Memory given for a request that does not wrap. -/
theorem getppages_fresh {r : Ram} {n : UInt32} (hw : ¬ r.Wraps n) (hg : (r.getppages n).1 ≠ 0) :
    (r.getppages n).1 = r.firstpaddr ∧
      (r.getppages n).2.firstpaddr.toNat = r.firstpaddr.toNat + n.toNat * 4096 ∧
      (r.getppages n).2.firstpaddr.toNat ≤ (r.getppages n).2.lastpaddr.toNat := by
  rcases Ram.ramStealmem_cases hw with ⟨-, hrun⟩ | ⟨r', -, hfirst, hle, hrun⟩
  · have hrun' : r.getppages n = (0, r) := hrun
    rw [hrun'] at hg
    exact absurd rfl hg
  · have hrun' : r.getppages n = (r.firstpaddr, r') := hrun
    rw [hrun']
    exact ⟨rfl, hfirst, hle⟩

/-- The address space `as_copy` starts from: the regions of `o`, and no memory. -/
def unbacked (o : Addrspace) : Addrspace :=
  { asCreate with
    asVbase1 := o.asVbase1
    asNpages1 := o.asNpages1
    asVbase2 := o.asVbase2
    asNpages2 := o.asNpages2 }

/-- The address space with memory for the three pieces. -/
def backing (o : Addrspace) (p₁ p₂ p₃ : UInt32) : Addrspace :=
  { unbacked o with asPbase1 := p₁, asPbase2 := p₂, asStackpbase := p₃ }

/-- The address space with the memory that is given for it. -/
def backed (o : Addrspace) (r : Ram) : Addrspace :=
  backing o (r.getppages o.asNpages1).1
    ((r.getppages o.asNpages1).2.getppages o.asNpages2).1
    (((r.getppages o.asNpages1).2.getppages o.asNpages2).2.getppages dumbvmStackpages).1

section Backed

variable (o : Addrspace)

theorem unbacked_npages1 : (unbacked o).asNpages1 = o.asNpages1 := rfl

theorem unbacked_npages2 : (unbacked o).asNpages2 = o.asNpages2 := rfl

theorem backing_region1 (p₁ p₂ p₃ : UInt32) : (backing o p₁ p₂ p₃).pbase .region1 = p₁ := rfl

theorem backing_region2 (p₁ p₂ p₃ : UInt32) : (backing o p₁ p₂ p₃).pbase .region2 = p₂ := rfl

theorem backing_stack (p₁ p₂ p₃ : UInt32) : (backing o p₁ p₂ p₃).pbase .stack = p₃ := rfl

theorem backing_npages (p₁ p₂ p₃ : UInt32) (i : Piece) :
    (backing o p₁ p₂ p₃).npages i = o.npages i := by
  cases i <;> rfl

theorem backing_vbase (p₁ p₂ p₃ : UInt32) (i : Piece) :
    (backing o p₁ p₂ p₃).vbase i = o.vbase i := by
  cases i <;> rfl

end Backed

theorem backed_ne_zero {o : Addrspace} {r : Ram}
    (hg : Grants r [o.asNpages1, o.asNpages2, dumbvmStackpages]) (i : Piece) :
    (backed o r).pbase i ≠ 0 := by
  obtain ⟨hg1, hg2, hg3, -⟩ := hg
  cases i with
  | region1 =>
    rw [backed, backing_region1]
    exact hg1
  | region2 =>
    rw [backed, backing_region2]
    exact hg2
  | stack =>
    rw [backed, backing_stack]
    exact hg3

theorem twin_backed {o : Addrspace} {r : Ram} (hr : 4096 ∣ r.firstpaddr.toNat)
    (hg : Grants r [o.asNpages1, o.asNpages2, dumbvmStackpages]) : Twin (backed o r) o := by
  obtain ⟨hp1, hr1⟩ := getppages_aligned hr o.asNpages1
  obtain ⟨hp2, hr2⟩ := getppages_aligned hr1 o.asNpages2
  obtain ⟨hp3, -⟩ := getppages_aligned hr2 dumbvmStackpages
  refine ⟨backing_vbase o _ _ _, backing_npages o _ _ _, fun i => ⟨backed_ne_zero hg i, ?_⟩⟩
  cases i with
  | region1 =>
    rw [backed, backing_region1]
    exact hp1
  | region2 =>
    rw [backed, backing_region2]
    exact hp2
  | stack =>
    rw [backed, backing_stack]
    exact hp3

theorem separate_backed {o : Addrspace} {r : Ram}
    (hold : ∀ i, (o.pbase i).toNat + (o.npages i).toNat * 4096 ≤ r.firstpaddr.toNat)
    (hfresh : AllFresh r [o.asNpages1, o.asNpages2, dumbvmStackpages])
    (hg : Grants r [o.asNpages1, o.asNpages2, dumbvmStackpages]) :
    Separate (backed o r) o r.firstpaddr.toNat := by
  obtain ⟨hw1, hw2, hw3, -⟩ := hfresh
  obtain ⟨hg1, hg2, hg3, -⟩ := hg
  obtain ⟨hp1, hf1, hl1⟩ := getppages_fresh hw1 hg1
  obtain ⟨hp2, hf2, hl2⟩ := getppages_fresh hw2 hg2
  obtain ⟨hp3, hf3, hl3⟩ := getppages_fresh hw3 hg3
  have hlast := (((r.getppages o.asNpages1).2.getppages o.asNpages2).2.getppages
    dumbvmStackpages).2.lastpaddr.toNat_lt
  have h1 : ((backed o r).pbase .region1).toNat = r.firstpaddr.toNat := by
    rw [backed, backing_region1, hp1]
  have h2 : ((backed o r).pbase .region2).toNat =
      r.firstpaddr.toNat + o.asNpages1.toNat * 4096 := by
    rw [backed, backing_region2, hp2, hf1]
  have h3 : ((backed o r).pbase .stack).toNat =
      r.firstpaddr.toNat + o.asNpages1.toNat * 4096 + o.asNpages2.toNat * 4096 := by
    rw [backed, backing_stack, hp3, hf2, hf1]
  have hn1 : (backed o r).npages .region1 = o.asNpages1 := backing_npages o _ _ _ _
  have hn2 : (backed o r).npages .region2 = o.asNpages2 := backing_npages o _ _ _ _
  have hn3 : (backed o r).npages .stack = dumbvmStackpages := backing_npages o _ _ _ _
  refine ⟨hold, fun i => ?_, ?_⟩
  · cases i with
    | region1 =>
      rw [h1, hn1]
      omega
    | region2 =>
      rw [h2, hn2]
      omega
    | stack =>
      rw [h3, hn3]
      omega
  · simp only [pieces, List.pairwise_cons, List.mem_cons, List.not_mem_nil, or_false,
      forall_eq_or_imp, forall_eq, h1, h2, h3, hn1, hn2]
    refine ⟨⟨?_, ?_⟩, ?_, (fun _ h => h.elim), List.Pairwise.nil⟩
    all_goals omega

/-! ### The whole of `as_copy` -/

theorem Vm.asPrepareLoad_refused {vm : Vm} {as : UInt32} {e : Stop} {a : Addrspace} {r : Ram}
    (h : Dumbvm.asPrepareLoad (vm.space as) vm.ram = (some e, a, r)) :
    vm.asPrepareLoad as =
      (some e, { vm with space := Function.update vm.space as a, ram := r }) := by
  unfold Vm.asPrepareLoad
  rw [h]
  rfl

theorem Vm.asPrepareLoad_granted {vm : Vm} {as : UInt32} {a : Addrspace} {r : Ram}
    (h : Dumbvm.asPrepareLoad (vm.space as) vm.ram = (none, a, r)) :
    vm.asPrepareLoad as =
      (none, { space := Function.update vm.space as a, ram := r, mem := zeroed vm.mem a }) := by
  unfold Vm.asPrepareLoad
  rw [h, zeroed_eq]
  rfl

/-- The state in which `as_copy` calls `as_prepare_load`. -/
def Vm.copying (vm : Vm) (old new : UInt32) : Vm :=
  { vm with space := Function.update vm.space new (unbacked (vm.space old)) }

section AsCopy

variable {vm vm' : Vm} {old new : UInt32}

theorem Vm.copying_eq (vm : Vm) (hne : new ≠ old) :
    (vm.asCreate new).copyRegions old new = vm.copying old new := by
  unfold Vm.copyRegions Vm.asCreate Vm.copying unbacked
  dsimp only
  rw [Function.update_of_ne hne.symm, Function.update_self, Function.update_idem]

theorem Vm.asCopy_refused {e : Errno} (hne : new ≠ old) (hnew : new ≠ 0)
    (h : (vm.copying old new).asPrepareLoad new = (some (.errno e), vm')) :
    vm.asCopy old new = (some (.errno .enomem), none, vm') := by
  unfold Vm.asCopy
  rw [if_neg hnew, vm.copying_eq hne, h]

theorem Vm.asCopy_granted (hne : new ≠ old) (hnew : new ≠ 0)
    (h : (vm.copying old new).asPrepareLoad new = (none, vm')) (a : Addrspace)
    (ha : vm'.space new = a) (hback : ∀ i, a.pbase i ≠ 0) :
    vm.asCopy old new =
      (none, some new, { vm' with mem := copyMemory vm'.mem a (vm'.space old) }) := by
  unfold Vm.asCopy
  rw [if_neg hnew, vm.copying_eq hne, h]
  subst ha
  refine if_neg ?_
  rintro (h0 | h0 | h0)
  · exact hback .region1 h0
  · exact hback .region2 h0
  · exact hback .stack h0

end AsCopy

/-- `as_copy` fails and leaves memory and the original alone, or there was memory for everything. -/
theorem asCopy_cases (vm : Vm) {old new : UInt32} (hne : new ≠ old) :
    (∃ vm', vm.asCopy old new = (some (.errno .enomem), none, vm') ∧
        vm'.space old = vm.space old ∧ vm'.mem = vm.mem) ∨
      (Grants vm.ram [(vm.space old).asNpages1, (vm.space old).asNpages2, dumbvmStackpages] ∧
        ∃ r, vm.asCopy old new = (none, some new,
          { space := Function.update vm.space new (backed (vm.space old) vm.ram)
            ram := r
            mem := (zeroed vm.mem (backed (vm.space old) vm.ram)).moves
              (pieces.map (copyPiece (backed (vm.space old) vm.ram) (vm.space old))) })) := by
  by_cases hnew : new = 0
  · refine .inl ⟨vm, ?_, rfl, rfl⟩
    unfold Vm.asCopy
    rw [if_pos hnew]
  · have hspace : (vm.copying old new).space new = unbacked (vm.space old) :=
      Function.update_self _ _ _
    have hold : (vm.copying old new).space old = vm.space old := Function.update_of_ne hne.symm _ _
    have hun : (unbacked (vm.space old)).Unbacked := ⟨rfl, rfl, rfl⟩
    rcases asPrepareLoad_cases hun vm.ram with ⟨-, hfail⟩ | ⟨hg, r₁, r₂, r₃, rfl, rfl, -, hrun⟩
    · rcases hrun : Dumbvm.asPrepareLoad (unbacked (vm.space old)) vm.ram with ⟨e, a, r⟩
      rw [hrun] at hfail
      obtain rfl : e = some (.errno .enomem) := hfail
      rw [← hspace] at hrun
      refine .inl ⟨_, Vm.asCopy_refused hne hnew (Vm.asPrepareLoad_refused hrun), ?_, rfl⟩
      exact (Function.update_of_ne hne.symm _ _).trans hold
    · rw [unbacked_npages1, unbacked_npages2] at hrun hg
      have hback := backed_ne_zero hg
      have hrun' : Dumbvm.asPrepareLoad (unbacked (vm.space old)) vm.ram =
          (none, backed (vm.space old) vm.ram, r₃) := by
        rw [hrun, backed, backing, unbacked_npages1, unbacked_npages2]
      generalize backed (vm.space old) vm.ram = a at *
      rw [← hspace] at hrun'
      refine .inr ⟨hg, r₃, ?_⟩
      have hcopy := Vm.asCopy_granted hne hnew (Vm.asPrepareLoad_granted hrun') a
        (Function.update_self _ _ _) hback
      dsimp only at hcopy
      rw [hcopy, copyMemory_eq, Function.update_of_ne hne.symm, hold]
      unfold Vm.copying
      rw [Function.update_idem]

/-- What the moves make is an image. -/
theorem image_of_separate {vm : Vm} {old new : UInt32} {a : Addrspace} {r : Ram} {first : ℕ}
    (hne : new ≠ old) (hset : (vm.space old).SetUp) (ht : Twin a (vm.space old))
    (hsep : Separate a (vm.space old) first) :
    Image vm { space := Function.update vm.space new a
               ram := r
               mem := (zeroed vm.mem a).moves (pieces.map (copyPiece a (vm.space old))) }
      old new := by
  have hnew : Function.update vm.space new a new = a := Function.update_self _ _ _
  have hold : Function.update vm.space new a old = vm.space old :=
    Function.update_of_ne hne.symm _ _
  have hkept : ∀ p : UInt32, p.toNat < first →
      (zeroed vm.mem a).moves (pieces.map (copyPiece a (vm.space old))) (paddrToKvaddr p) =
        vm.mem (paddrToKvaddr p) := by
    intro p hp
    refine hsep.moves_of_lt ht ?_
    rwa [paddrToKvaddr, UInt32.add_sub_cancel]
  have hbelow : ∀ p ∈ (vm.space old).frames, p.toNat < first := by
    rintro p ⟨i, -, hlt⟩
    exact hlt.trans_le (hsep.old i)
  refine ⟨fun slot ft v => ?_, fun slot ft v p p' hp hp' => ?_, ?_, hold, fun p hp => ?_⟩
  · dsimp only
    rw [hnew, hold]
    exact ht.vmFault_iff hset slot ft v
  · dsimp only at hp hp'
    rw [hold] at hp
    rw [hnew] at hp'
    obtain ⟨-, -, -, htr⟩ := vmFault_eq_ok.mp hp
    obtain ⟨-, -, -, htr'⟩ := vmFault_eq_ok.mp hp'
    rw [translate_eq] at htr htr'
    rw [ht.piece] at htr'
    obtain ⟨i, hi, rfl⟩ := Option.map_eq_some_iff.mp htr
    rw [hi, Option.map_some, Option.some.injEq, ht.vbase] at htr'
    subst htr'
    have hlt := hset.offset_lt hi
    generalize (v &&& pageFrame) - (vm.space old).vbase i = k at *
    have hadd : ∀ q : UInt32, k + q + (v &&& ~~~pageFrame) = q + (k + (v &&& ~~~pageFrame)) := by
      intro q
      rw [UInt32.add_comm k q, UInt32.add_assoc]
    unfold Vm.byte
    dsimp only
    rw [hadd, hadd, paddrToKvaddr_add, hsep.moves_add ht i hlt, ← paddrToKvaddr_add]
    refine (hkept _ (lt_of_lt_of_le ?_ (hsep.old i))).symm
    have hfit := (hsep.old i).trans_lt hsep.first_lt
    have hlen := toNat_mul_pageSize (n := (vm.space old).npages i) (by omega)
    rw [← hlen]
    refine ((Memory.sub_lt_iff (by omega)).mp ?_).2
    rwa [Memory.add_sub_self]
  · dsimp only
    rw [hnew, hold, Set.disjoint_left]
    rintro p ⟨i, hlo, -⟩ hp
    have := hbelow p hp
    have := (hsep.new i).1
    omega
  · unfold Vm.byte
    dsimp only
    exact hkept p (hbelow p hp)

/-- **The copy of an address space is an independent equal image.** The original is set up and its
memory taken off the free memory, `as_create` has a structure of its own, and the memory asked for
is free. If `as_copy` succeeds, the copy translates the addresses the original does, to memory with
the same bytes that the original does not use, and the original and its memory are as before. If it
fails, nothing is stored in `ret`, and the original and the memory are as before. -/
theorem asCopy_image (vm : Vm) (old new : UInt32) (hne : new ≠ old) (h : vm.Loaded old)
    (hfresh : AllFresh vm.ram
      [(vm.space old).asNpages1, (vm.space old).asNpages2, dumbvmStackpages]) :
    ((vm.asCopy old new).1 = none → (vm.asCopy old new).2.1 = some new ∧
      Image vm (vm.asCopy old new).2.2 old new) ∧
    ((vm.asCopy old new).1 ≠ none → (vm.asCopy old new).2.1 = none ∧
      (vm.asCopy old new).2.2.space old = vm.space old ∧
      (vm.asCopy old new).2.2.mem = vm.mem) := by
  rcases asCopy_cases vm hne with ⟨vm', hrun, hspace, hmem⟩ | ⟨hg, r, hrun⟩
  · rw [hrun]
    exact ⟨(fun hnone => nomatch hnone), fun _ => ⟨rfl, hspace, hmem⟩⟩
  · rw [hrun]
    refine ⟨fun _ => ⟨rfl, ?_⟩, fun hsome => absurd rfl hsome⟩
    have ht := twin_backed h.ram.2 hg
    have hsep := separate_backed h.taken hfresh hg
    exact image_of_separate hne h.setUp ht hsep

/-- A small process: two regions of a page each, and the stack. Each byte holds the number of its
page. -/
def smallProcess : Vm where
  space _ := ⟨0x400000, 0x10000, 1, 0x10000000, 0x11000, 1, 0x12000⟩
  ram := Ram.smallBoot
  mem a := (a >>> 12).toUInt8

/-- The copy has the pages `0x10` and `0x11`, elsewhere. -/
theorem asCopy_image_small : (smallProcess.asCopy 0x80001000 0x80001040).1 = none ∧
    (smallProcess.asCopy 0x80001000 0x80001040).2.1 = some 0x80001040 ∧
    Image smallProcess (smallProcess.asCopy 0x80001000 0x80001040).2.2 0x80001000 0x80001040 ∧
    ((smallProcess.asCopy 0x80001000 0x80001040).2.2.space 0x80001040).asPbase1 ≠ 0x10000 ∧
    (smallProcess.asCopy 0x80001000 0x80001040).2.2.byte
      ((smallProcess.asCopy 0x80001000 0x80001040).2.2.space 0x80001040).asPbase1 = 0x10 := by
  have hrun : (smallProcess.asCopy 0x80001000 0x80001040).1 = none := by
    decide +kernel
  have hloaded : smallProcess.Loaded 0x80001000 := by
    refine ⟨by decide, ⟨by decide, by decide⟩, fun i => ?_⟩
    cases i <;> decide
  obtain ⟨hret, himage⟩ := (asCopy_image smallProcess 0x80001000 0x80001040 (by decide) hloaded
    (by decide)).1 hrun
  exact ⟨hrun, hret, himage, by decide +kernel, by decide +kernel⟩

end Dumbvm

end Os161
