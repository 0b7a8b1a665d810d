import Mathlib.Order.Interval.Set.Basic
import Mathlib.Data.List.Pairwise
import Mathlib.Data.Set.Disjoint
import Mathlib.Algebra.GroupWithZero.Nat
import Mathlib.Data.Set.BooleanAlgebra
import Mathlib.Order.CompletePartialOrder

/-!
# Handing out physical memory

`ram_stealmem` of `kern/arch/mips/vm/ram.c` and its two callers in `dumbvm.c`, `getppages` and
`alloc_kpages`. The spinlock `getppages` takes makes every request one step, so a run is a list of
requests. Physical and kernel virtual addresses, `size_t` and `unsigned long` are 32 bits wide, and
so is the arithmetic here.

## The bound check

`ram_stealmem` compares `firstpaddr + npages * PAGE_SIZE`, computed modulo 2^32, with `lastpaddr`.
A count that takes the sum past 2^32 and back below `lastpaddr` is served although it does not fit:
`firstpaddr` stays where it is or even moves back over memory handed out before. `Wraps` is that
case, `handout_sound` is what holds without it, and `handout_overlaps` is a run with it.
-/

namespace Os161

namespace Ram

/-- `PAGE_SIZE`. -/
def pageSize : UInt32 := 4096

/-- `MIPS_KSEG0`. -/
def mipsKseg0 : UInt32 := 0x80000000

/-- `PADDR_TO_KVADDR`. -/
def paddrToKvaddr (paddr : UInt32) : UInt32 := paddr + mipsKseg0

end Ram

/-- The two variables of `ram.c`. -/
structure Ram where
  /-- Address of the first free physical page. -/
  firstpaddr : UInt32
  /-- One past the end of the last free physical page. -/
  lastpaddr : UInt32
  deriving DecidableEq

namespace Ram

/-- `ram_stealmem`. -/
def ramStealmem (r : Ram) (npages : UInt32) : UInt32 × Ram :=
  let size := npages * pageSize
  if r.firstpaddr + size > r.lastpaddr then (0, r)
  else (r.firstpaddr, { r with firstpaddr := r.firstpaddr + size })

/-- `getppages`. -/
def getppages (r : Ram) (npages : UInt32) : UInt32 × Ram := ramStealmem r npages

/-- `alloc_kpages`. -/
def allocKpages (r : Ram) (npages : UInt32) : UInt32 × Ram :=
  let (pa, r') := getppages r npages
  if pa = 0 then (0, r') else (paddrToKvaddr pa, r')

/-- A request for physical pages. -/
inductive Request where
  /-- `getppages(npages)`. -/
  | getppages (npages : UInt32)
  /-- `alloc_kpages(npages)`. -/
  | allocKpages (npages : UInt32)
  deriving DecidableEq

/-- The count of a request. -/
def Request.npages : Request → UInt32
  | .getppages n | .allocKpages n => n

/-- Serve a request: the address returned, and the state after it. -/
def serve (r : Ram) : Request → UInt32 × Ram
  | .getppages n => r.getppages n
  | .allocKpages n => r.allocKpages n

/-- A request that has been served. -/
structure Grant where
  /-- The request. -/
  request : Request
  /-- The address returned. -/
  addr : UInt32
  /-- The state the request was made in. -/
  before : Ram
  /-- The state it left. -/
  after : Ram
  deriving DecidableEq

/-- The physical address a returned address stands for. -/
def Grant.paddr (g : Grant) : UInt32 :=
  match g.request with
  | .getppages _ => g.addr
  | .allocKpages _ => g.addr - mipsKseg0

/-- The physical memory taken off the free range for a request. -/
def Grant.region (g : Grant) : Set ℕ := Set.Ico g.paddr.toNat g.after.firstpaddr.toNat

/-- Serve a list of requests, one after another. -/
def run (r : Ram) : List Request → List Grant
  | [] => []
  | q :: qs => ⟨q, (serve r q).1, r, (serve r q).2⟩ :: run (serve r q).2 qs

/-- What handing out memory from `boot` should do: regions returned with a nonzero address are
apart from each other, large enough and inside the memory there was; a request that does not fit
gets 0 and changes nothing. -/
structure Sound (boot : Ram) (gs : List Grant) : Prop where
  apart : gs.Pairwise fun g g' => g.addr ≠ 0 → g'.addr ≠ 0 → Disjoint g.region g'.region
  large : ∀ g ∈ gs, g.addr ≠ 0 →
    g.paddr.toNat + g.request.npages.toNat * 4096 ≤ g.after.firstpaddr.toNat
  inside : ∀ g ∈ gs, g.addr ≠ 0 → g.region ⊆ Set.Ico boot.firstpaddr.toNat boot.lastpaddr.toNat
  refused : ∀ g ∈ gs,
    g.before.lastpaddr.toNat < g.before.firstpaddr.toNat + g.request.npages.toNat * 4096 →
      g.addr = 0 ∧ g.after.firstpaddr = g.before.firstpaddr

/-- `firstpaddr + npages * PAGE_SIZE` runs past 2^32 and comes back at or below `lastpaddr`. -/
def Wraps (r : Ram) (npages : UInt32) : Prop :=
  2 ^ 32 ≤ r.firstpaddr.toNat + npages.toNat * 4096 ∧
    (r.firstpaddr.toNat + npages.toNat * 4096) % 2 ^ 32 ≤ r.lastpaddr.toNat

instance (r : Ram) (npages : UInt32) : Decidable (r.Wraps npages) :=
  inferInstanceAs (Decidable (_ ∧ _))

/-! ### One request -/

theorem toNat_add_size (r : Ram) (npages : UInt32) :
    (r.firstpaddr + npages * pageSize).toNat =
      (r.firstpaddr.toNat + npages.toNat * 4096) % 2 ^ 32 := by
  rw [UInt32.toNat_add, UInt32.toNat_mul, Nat.add_mod_mod]
  rfl

/-- What `ram_stealmem` does with a request that does not wrap. -/
theorem ramStealmem_cases {r : Ram} {n : UInt32} (h : ¬ r.Wraps n) :
    (r.lastpaddr.toNat < r.firstpaddr.toNat + n.toNat * 4096 ∧ ramStealmem r n = (0, r)) ∨
      (∃ r' : Ram, r'.lastpaddr = r.lastpaddr ∧
        r'.firstpaddr.toNat = r.firstpaddr.toNat + n.toNat * 4096 ∧
        r'.firstpaddr.toNat ≤ r'.lastpaddr.toNat ∧ ramStealmem r n = (r.firstpaddr, r')) := by
  have hsum := toNat_add_size r n
  have hlast := r.lastpaddr.toNat_lt
  rw [Wraps, not_and, not_le] at h
  by_cases hgt : r.firstpaddr + n * pageSize > r.lastpaddr
  · left
    refine ⟨?_, by simp only [ramStealmem, if_pos hgt]⟩
    rw [gt_iff_lt, UInt32.lt_iff_toNat_lt, hsum] at hgt
    exact hgt.trans_le (Nat.mod_le _ _)
  · right
    rw [gt_iff_lt, UInt32.lt_iff_toNat_lt, not_lt, hsum] at hgt
    -- the sum is at most `lastpaddr`, so it did not wrap
    have hlt : r.firstpaddr.toNat + n.toNat * 4096 < 2 ^ 32 := by
      by_contra hge
      have hbad := h (not_lt.mp hge)
      omega
    rw [Nat.mod_eq_of_lt hlt] at hsum hgt
    refine ⟨{ r with firstpaddr := r.firstpaddr + n * pageSize }, rfl, hsum, hsum ▸ hgt, ?_⟩
    simp only [ramStealmem]
    rw [if_neg]
    rw [gt_iff_lt, UInt32.lt_iff_toNat_lt, not_lt, hsum]
    exact hgt

/-- A served request that does not wrap was refused and changed nothing, or was given the memory
from `firstpaddr` on. -/
theorem serve_cases {r : Ram} {q : Request} (h : ¬ r.Wraps q.npages) :
    (r.lastpaddr.toNat < r.firstpaddr.toNat + q.npages.toNat * 4096 ∧ serve r q = (0, r)) ∨
      (∃ (a : UInt32) (r' : Ram), r'.lastpaddr = r.lastpaddr ∧
        r'.firstpaddr.toNat = r.firstpaddr.toNat + q.npages.toNat * 4096 ∧
        r'.firstpaddr.toNat ≤ r'.lastpaddr.toNat ∧ serve r q = (a, r') ∧
        (a ≠ 0 → (Grant.mk q a r r').paddr = r.firstpaddr)) := by
  cases q with
  | getppages n =>
    rcases ramStealmem_cases h with ⟨hfull, hs⟩ | ⟨r', hl, hf, hle, hs⟩
    · exact Or.inl ⟨hfull, hs⟩
    · exact Or.inr ⟨_, r', hl, hf, hle, hs, fun _ => rfl⟩
  | allocKpages n =>
    rcases ramStealmem_cases h with ⟨hfull, hs⟩ | ⟨r', hl, hf, hle, hs⟩
    · refine Or.inl ⟨hfull, ?_⟩
      change r.getppages n = (0, r) at hs
      simp [serve, allocKpages, hs]
    · change r.getppages n = (r.firstpaddr, r') at hs
      refine Or.inr ⟨if r.firstpaddr = 0 then 0 else paddrToKvaddr r.firstpaddr, r', hl, hf, hle,
        ?_, ?_⟩
      · simp only [serve, allocKpages, hs]
        split <;> rfl
      · intro hne
        rw [if_neg (fun h0 => hne (if_pos h0))]
        exact UInt32.add_sub_cancel _ _

/-! ### A run -/

/-- Every grant of a run is a served request. -/
theorem serve_of_mem_run {r : Ram} {qs : List Request} {g : Grant} (hg : g ∈ run r qs) :
    serve g.before g.request = (g.addr, g.after) := by
  induction qs generalizing r with
  | nil => cases hg
  | cons q qs ih =>
    rcases List.mem_cons.mp hg with rfl | hg
    · rfl
    · exact ih hg

/-- What a run from `r` hands out lies between `firstpaddr` and `lastpaddr` of `r`. -/
theorem region_subset_of_mem_run {r : Ram} {qs : List Request}
    (hfirst : r.firstpaddr.toNat ≤ r.lastpaddr.toNat)
    (hw : ∀ g ∈ run r qs, ¬ g.before.Wraps g.request.npages) :
    ∀ g ∈ run r qs, g.addr ≠ 0 →
      g.region ⊆ Set.Ico r.firstpaddr.toNat r.lastpaddr.toNat := by
  induction qs generalizing r with
  | nil => simp [run]
  | cons q qs ih =>
    obtain ⟨hq, hqs⟩ := List.forall_mem_cons.mp hw
    change ¬ r.Wraps q.npages at hq
    rw [run, List.forall_mem_cons]
    rcases serve_cases hq with ⟨-, hs⟩ | ⟨a, r', hl, hf, hle, hs, hp⟩
    · rw [hs] at hqs ⊢
      exact ⟨fun hne => absurd rfl hne, ih hfirst hqs⟩
    · rw [hs] at hqs ⊢
      refine ⟨fun hne => ?_, fun g hg hne => (ih hle hqs g hg hne).trans ?_⟩
      · rw [Grant.region, hp hne]
        exact Set.Ico_subset_Ico_right (hl ▸ hle)
      · rw [hl]
        exact Set.Ico_subset_Ico_left (by omega)

/-- Regions handed out one after another do not overlap: each lies below where the rest of the run
starts from. -/
theorem pairwise_disjoint_run {r : Ram} {qs : List Request}
    (hfirst : r.firstpaddr.toNat ≤ r.lastpaddr.toNat)
    (hw : ∀ g ∈ run r qs, ¬ g.before.Wraps g.request.npages) :
    (run r qs).Pairwise fun g g' => g.addr ≠ 0 → g'.addr ≠ 0 → Disjoint g.region g'.region := by
  induction qs generalizing r with
  | nil => exact List.Pairwise.nil
  | cons q qs ih =>
    obtain ⟨hq, hqs⟩ := List.forall_mem_cons.mp hw
    change ¬ r.Wraps q.npages at hq
    rw [run, List.pairwise_cons]
    rcases serve_cases hq with ⟨-, hs⟩ | ⟨a, r', hl, hf, hle, hs, hp⟩
    · rw [hs] at hqs ⊢
      exact ⟨fun _ _ hne => absurd rfl hne, ih hfirst hqs⟩
    · rw [hs] at hqs ⊢
      refine ⟨fun g hg hne hne' => ?_, ih hle hqs⟩
      have hrest := region_subset_of_mem_run hle hqs g hg hne'
      rw [Set.disjoint_left]
      intro x hx hx'
      exact absurd hx.2 (not_lt.mpr (hrest hx').1)

/-- **Handing out memory.** From any boot layout, a list of requests none of which wraps is served
as it should be. -/
theorem handout_sound {boot : Ram} {qs : List Request}
    (hfirst : boot.firstpaddr.toNat ≤ boot.lastpaddr.toNat)
    (hw : ∀ g ∈ run boot qs, ¬ g.before.Wraps g.request.npages) : Sound boot (run boot qs) := by
  refine ⟨pairwise_disjoint_run hfirst hw, fun g hg hne => ?_, region_subset_of_mem_run hfirst hw,
    fun g hg hfull => ?_⟩
  · have hserve := serve_of_mem_run hg
    rcases serve_cases (hw g hg) with ⟨-, hs⟩ | ⟨a, r', -, hf, -, hs, hp⟩
    · rw [hs, Prod.mk.injEq] at hserve
      exact absurd hserve.1.symm hne
    · rw [hs, Prod.mk.injEq] at hserve
      obtain ⟨rfl, rfl⟩ := hserve
      have hbase : g.paddr = g.before.firstpaddr := hp hne
      rw [hbase, hf]
  · have hserve := serve_of_mem_run hg
    rcases serve_cases (hw g hg) with ⟨-, hs⟩ | ⟨a, r', hl, hf, hle, hs, -⟩
    · rw [hs, Prod.mk.injEq] at hserve
      exact ⟨hserve.1.symm, by rw [← hserve.2]⟩
    · rw [hl, hf] at hle
      omega

/-- A machine with 1 megabyte, the kernel in the first 192 kilobytes of it. -/
def smallBoot : Ram := ⟨0x30000, 0x100000⟩

theorem handout_sound_small :
    Sound smallBoot (run smallBoot [.getppages 2, .allocKpages 300, .getppages 18]) :=
  handout_sound (by decide) (by decide)

/-- A page for the kernel, the `2 ^ 20 - 1` pages of an executable whose first segment has
`p_memsz` 0xfffff000, and one more page: the third request is given the page of the first. -/
theorem handout_overlaps :
    ¬ Sound smallBoot (run smallBoot [.getppages 1, .getppages 0xfffff, .allocKpages 1]) := by
  intro h
  have hpair := h.apart
  simp only [run, List.pairwise_cons] at hpair
  have hdis := hpair.1 ⟨.allocKpages 1, 0x80030000, ⟨0x30000, 0x100000⟩, ⟨0x31000, 0x100000⟩⟩
    (by decide) (by decide) (by decide)
  rw [Set.disjoint_left] at hdis
  exact hdis (a := 0x30000) ⟨by decide, by decide⟩ ⟨by decide, by decide⟩

end Ram

end Os161
