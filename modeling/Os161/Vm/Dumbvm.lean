import Os161.Kern.Errno
import Os161.Vm.Ram

/-!
# The address spaces of `dumbvm`

`kern/arch/mips/vm/dumbvm.c`: an address space is two regions of user memory and a stack, each
backed by one contiguous piece of physical memory. `as_define_region` takes the first slot whose
virtual base is 0, so a region in page 0 leaves its slot free for the next one.

## Main definitions

* `Addrspace`, `asCreate`, `asDefineRegion`, `asPrepareLoad`
* `Addrspace.SetUp` — the twelve `KASSERT`s at the start of `vm_fault`'s translation
* `vmFault`

## Main results

* `vmFault_ne_panic` — on an address space that is set up, no read or write fault panics
* `asPrepareLoad_setUp_iff` — what `as_prepare_load` leaves is set up exactly if both regions had
  a nonzero base and a nonzero count before
-/

namespace Os161

namespace Dumbvm

open Ram (pageSize)

/-- `PAGE_FRAME`. -/
def pageFrame : UInt32 := 0xfffff000

/-- `USERSTACK`. -/
def userStack : UInt32 := 0x80000000

/-- `DUMBVM_STACKPAGES`. -/
def dumbvmStackpages : UInt32 := 18

/-- `struct addrspace`. -/
structure Addrspace where
  asVbase1 : UInt32
  asPbase1 : UInt32
  asNpages1 : UInt32
  asVbase2 : UInt32
  asPbase2 : UInt32
  asNpages2 : UInt32
  asStackpbase : UInt32
  deriving DecidableEq

/-- Why kernel code stopped before its end. -/
inductive Stop where
  /-- It returned an error. -/
  | errno (e : Errno)
  /-- It panicked. -/
  | panic
  deriving DecidableEq

/-- `as_create`. -/
def asCreate : Addrspace := ⟨0, 0, 0, 0, 0, 0, 0⟩

/-- The number of pages `as_define_region` gives a region. -/
def regionPages (vaddr sz : UInt32) : UInt32 :=
  let sz := sz + (vaddr &&& ~~~pageFrame)
  let sz := (sz + pageSize - 1) &&& pageFrame
  sz / pageSize

/-- `as_define_region`. -/
def asDefineRegion (as : Addrspace) (vaddr sz : UInt32) : Option Stop × Addrspace :=
  let npages := regionPages vaddr sz
  let vaddr := vaddr &&& pageFrame
  if as.asVbase1 = 0 then (none, { as with asVbase1 := vaddr, asNpages1 := npages })
  else if as.asVbase2 = 0 then (none, { as with asVbase2 := vaddr, asNpages2 := npages })
  else (some (.errno .enosys), as)

/-- `as_prepare_load`, up to the clearing of the memory it got. -/
def asPrepareLoad (as : Addrspace) (r : Ram) : Option Stop × Addrspace × Ram :=
  if as.asPbase1 ≠ 0 ∨ as.asPbase2 ≠ 0 ∨ as.asStackpbase ≠ 0 then (some .panic, as, r)
  else
    let (pbase1, r) := r.getppages as.asNpages1
    let as := { as with asPbase1 := pbase1 }
    if pbase1 = 0 then (some (.errno .enomem), as, r)
    else
      let (pbase2, r) := r.getppages as.asNpages2
      let as := { as with asPbase2 := pbase2 }
      if pbase2 = 0 then (some (.errno .enomem), as, r)
      else
        let (stackpbase, r) := r.getppages dumbvmStackpages
        let as := { as with asStackpbase := stackpbase }
        if stackpbase = 0 then (some (.errno .enomem), as, r) else (none, as, r)

/-- "Assert that the address space has been set up properly." -/
structure Addrspace.SetUp (as : Addrspace) : Prop where
  vbase1 : as.asVbase1 ≠ 0
  pbase1 : as.asPbase1 ≠ 0
  npages1 : as.asNpages1 ≠ 0
  vbase2 : as.asVbase2 ≠ 0
  pbase2 : as.asPbase2 ≠ 0
  npages2 : as.asNpages2 ≠ 0
  stackpbase : as.asStackpbase ≠ 0
  vframe1 : as.asVbase1 &&& pageFrame = as.asVbase1
  pframe1 : as.asPbase1 &&& pageFrame = as.asPbase1
  vframe2 : as.asVbase2 &&& pageFrame = as.asVbase2
  pframe2 : as.asPbase2 &&& pageFrame = as.asPbase2
  stackframe : as.asStackpbase &&& pageFrame = as.asStackpbase

theorem Addrspace.setUp_iff (as : Addrspace) : as.SetUp ↔
    as.asVbase1 ≠ 0 ∧ as.asPbase1 ≠ 0 ∧ as.asNpages1 ≠ 0 ∧ as.asVbase2 ≠ 0 ∧ as.asPbase2 ≠ 0 ∧
      as.asNpages2 ≠ 0 ∧ as.asStackpbase ≠ 0 ∧ as.asVbase1 &&& pageFrame = as.asVbase1 ∧
      as.asPbase1 &&& pageFrame = as.asPbase1 ∧ as.asVbase2 &&& pageFrame = as.asVbase2 ∧
      as.asPbase2 &&& pageFrame = as.asPbase2 ∧
      as.asStackpbase &&& pageFrame = as.asStackpbase :=
  ⟨fun ⟨h1, h2, h3, h4, h5, h6, h7, h8, h9, h10, h11, h12⟩ =>
      ⟨h1, h2, h3, h4, h5, h6, h7, h8, h9, h10, h11, h12⟩,
    fun ⟨h1, h2, h3, h4, h5, h6, h7, h8, h9, h10, h11, h12⟩ =>
      ⟨h1, h2, h3, h4, h5, h6, h7, h8, h9, h10, h11, h12⟩⟩

instance (as : Addrspace) : Decidable as.SetUp := decidable_of_iff' _ as.setUp_iff

/-- The fault types of `vm.h`, and any other value. -/
inductive FaultType where
  /-- `VM_FAULT_READ` -/
  | read
  /-- `VM_FAULT_WRITE` -/
  | write
  /-- `VM_FAULT_READONLY` -/
  | readonly
  | other
  deriving DecidableEq

/-- The translation `vm_fault` does, of an address at a page boundary. -/
def translate (as : Addrspace) (faultaddress : UInt32) : Option UInt32 :=
  let vbase1 := as.asVbase1
  let vtop1 := vbase1 + as.asNpages1 * pageSize
  let vbase2 := as.asVbase2
  let vtop2 := vbase2 + as.asNpages2 * pageSize
  let stackbase := userStack - dumbvmStackpages * pageSize
  let stacktop := userStack
  if faultaddress ≥ vbase1 ∧ faultaddress < vtop1 then
    some ((faultaddress - vbase1) + as.asPbase1)
  else if faultaddress ≥ vbase2 ∧ faultaddress < vtop2 then
    some ((faultaddress - vbase2) + as.asPbase2)
  else if faultaddress ≥ stackbase ∧ faultaddress < stacktop then
    some ((faultaddress - stackbase) + as.asStackpbase)
  else none

/-- `vm_fault` for a process with the address space `as`: the physical page the fault is resolved
to. `slot` tells whether one of the `NUM_TLB` entries is not valid. -/
def vmFault (as : Addrspace) (slot : Bool) (faulttype : FaultType) (faultaddress : UInt32) :
    Except Stop UInt32 :=
  match faulttype with
  | .readonly => .error .panic
  | .other => .error (.errno .einval)
  | .read | .write =>
    if ¬ as.SetUp then .error .panic
    else
      match translate as (faultaddress &&& pageFrame) with
      | none => .error (.errno .efault)
      | some paddr =>
        if paddr &&& pageFrame ≠ paddr then .error .panic
        else if slot then .ok paddr else .error (.errno .efault)

/-! ### Page frames -/

theorem testBit_pageFrame {i : ℕ} (hi : i < 32) : pageFrame.toNat.testBit i = decide (12 ≤ i) := by
  have hall : ∀ i < 32, (0xfffff000 : ℕ).testBit i = decide (12 ≤ i) := by decide
  exact hall i hi

/-- Masking with `PAGE_FRAME` changes nothing exactly on multiples of the page size. -/
theorem and_pageFrame_eq_iff (x : UInt32) : x &&& pageFrame = x ↔ 4096 ∣ x.toNat := by
  rw [← UInt32.toNat_inj, UInt32.toNat_and, Nat.dvd_iff_mod_eq_zero]
  constructor
  · intro h
    refine Nat.eq_of_testBit_eq fun i => ?_
    rw [show 4096 = 2 ^ 12 from rfl, Nat.testBit_mod_two_pow, Nat.zero_testBit]
    by_cases hi : i < 12
    · rw [← h, Nat.testBit_and, testBit_pageFrame (by omega)]
      simp [hi]
    · simp [hi]
  · intro h
    refine Nat.eq_of_testBit_eq fun i => ?_
    rw [Nat.testBit_and]
    by_cases hi : i < 32
    · rw [testBit_pageFrame hi]
      by_cases hlow : i < 12
      · have hbit := congrArg (Nat.testBit · i) h
        simp only [Nat.zero_testBit, show 4096 = 2 ^ 12 from rfl, Nat.testBit_mod_two_pow, hlow,
          decide_true, Bool.true_and] at hbit
        simp [hbit]
      · simp [not_lt.mp hlow]
    · have hz : x.toNat.testBit i = false :=
        Nat.testBit_lt_two_pow (x.toNat_lt.trans_le
          (Nat.pow_le_pow_right (by decide) (not_lt.mp hi)))
      simp [hz]

theorem dvd_and_pageFrame (x : UInt32) : 4096 ∣ (x &&& pageFrame).toNat := by
  rw [← and_pageFrame_eq_iff, UInt32.and_assoc, UInt32.and_self]

theorem dvd_add {x y : UInt32} (hx : 4096 ∣ x.toNat) (hy : 4096 ∣ y.toNat) :
    4096 ∣ (x + y).toNat := by
  rw [UInt32.toNat_add]
  omega

theorem dvd_sub {x y : UInt32} (hx : 4096 ∣ x.toNat) (hy : 4096 ∣ y.toNat) :
    4096 ∣ (x - y).toNat := by
  rw [UInt32.toNat_sub]
  omega

theorem dvd_mul_pageSize (n : UInt32) : 4096 ∣ (n * pageSize).toNat := by
  rw [UInt32.toNat_mul, show pageSize.toNat = 4096 from rfl]
  omega

/-! ### Faults on an address space that is set up -/

/-- A page of an address space that is set up is translated to a page. -/
theorem Addrspace.SetUp.translate_frame {as : Addrspace} (h : as.SetUp) {addr paddr : UInt32}
    (haddr : 4096 ∣ addr.toNat) (ht : translate as addr = some paddr) :
    paddr &&& pageFrame = paddr := by
  have hv1 := (and_pageFrame_eq_iff _).mp h.vframe1
  have hp1 := (and_pageFrame_eq_iff _).mp h.pframe1
  have hv2 := (and_pageFrame_eq_iff _).mp h.vframe2
  have hp2 := (and_pageFrame_eq_iff _).mp h.pframe2
  have hst := (and_pageFrame_eq_iff _).mp h.stackframe
  rw [and_pageFrame_eq_iff]
  unfold translate at ht
  dsimp only at ht
  split at ht
  · obtain rfl := Option.some.inj ht
    exact dvd_add (dvd_sub haddr hv1) hp1
  · split at ht
    · obtain rfl := Option.some.inj ht
      exact dvd_add (dvd_sub haddr hv2) hp2
    · split at ht
      · obtain rfl := Option.some.inj ht
        exact dvd_add (dvd_sub haddr (by decide)) hst
      · cases ht

/-- On an address space that is set up a read or write fault is resolved or returns an error. -/
theorem vmFault_ne_panic {as : Addrspace} (h : as.SetUp) (slot : Bool) {ft : FaultType}
    (hft : ft = .read ∨ ft = .write) (addr : UInt32) : vmFault as slot ft addr ≠ .error .panic := by
  have hbody : (match translate as (addr &&& pageFrame) with
      | none => (.error (.errno .efault) : Except Stop UInt32)
      | some paddr =>
        if paddr &&& pageFrame ≠ paddr then .error .panic
        else if slot then .ok paddr else .error (.errno .efault)) ≠ .error .panic := by
    cases ht : translate as (addr &&& pageFrame) with
    | none => simp
    | some paddr =>
      have hframe := h.translate_frame (dvd_and_pageFrame addr) ht
      cases slot <;> simp [hframe]
  rcases hft with rfl | rfl <;> simpa only [vmFault, not_not.mpr h, if_false] using hbody

/-! ### Preparing to load -/

/-- A list of requests is granted, one after another. -/
def Grants (r : Ram) : List UInt32 → Prop
  | [] => True
  | n :: ns => (r.getppages n).1 ≠ 0 ∧ Grants (r.getppages n).2 ns

instance decidableGrants (r : Ram) : (ns : List UInt32) → Decidable (Grants r ns)
  | [] => inferInstanceAs (Decidable True)
  | n :: ns =>
    have := decidableGrants (r.getppages n).2 ns
    inferInstanceAs (Decidable (_ ∧ _))

/-- `getppages` keeps `firstpaddr` on a page boundary and returns page boundaries. -/
theorem getppages_aligned {r : Ram} (h : 4096 ∣ r.firstpaddr.toNat) (n : UInt32) :
    4096 ∣ (r.getppages n).1.toNat ∧ 4096 ∣ (r.getppages n).2.firstpaddr.toNat := by
  unfold Ram.getppages Ram.ramStealmem
  dsimp only
  split
  · exact ⟨Nat.dvd_zero _, h⟩
  · exact ⟨h, dvd_add h (dvd_mul_pageSize n)⟩

/-- No memory has been given to the address space yet. -/
structure Addrspace.Unbacked (as : Addrspace) : Prop where
  pbase1 : as.asPbase1 = 0
  pbase2 : as.asPbase2 = 0
  stackpbase : as.asStackpbase = 0

/-- What `as_prepare_load` does with an address space that has no memory yet. -/
theorem asPrepareLoad_cases {as : Addrspace} (h : as.Unbacked) (r : Ram) :
    (¬ Grants r [as.asNpages1, as.asNpages2, dumbvmStackpages] ∧
        (asPrepareLoad as r).1 = some (.errno .enomem)) ∨
      (Grants r [as.asNpages1, as.asNpages2, dumbvmStackpages] ∧
        ∃ r₁ r₂ r₃ : Ram, r₁ = (r.getppages as.asNpages1).2 ∧ r₂ = (r₁.getppages as.asNpages2).2 ∧
          r₃ = (r₂.getppages dumbvmStackpages).2 ∧ asPrepareLoad as r = (none, { as with
            asPbase1 := (r.getppages as.asNpages1).1
            asPbase2 := (r₁.getppages as.asNpages2).1
            asStackpbase := (r₂.getppages dumbvmStackpages).1 }, r₃)) := by
  have hkassert : ¬ (as.asPbase1 ≠ 0 ∨ as.asPbase2 ≠ 0 ∨ as.asStackpbase ≠ 0) := by
    simp [h.pbase1, h.pbase2, h.stackpbase]
  simp only [Grants, and_true]
  rw [asPrepareLoad, if_neg hkassert]
  rcases h1 : r.getppages as.asNpages1 with ⟨p1, r1⟩
  dsimp only
  rcases h2 : r1.getppages as.asNpages2 with ⟨p2, r2⟩
  dsimp only
  rcases h3 : r2.getppages dumbvmStackpages with ⟨p3, r3⟩
  dsimp only
  by_cases hz1 : p1 = 0
  · exact Or.inl ⟨fun hg => hg.1 hz1, by rw [if_pos hz1]⟩
  by_cases hz2 : p2 = 0
  · exact Or.inl ⟨fun hg => hg.2.1 hz2, by rw [if_neg hz1, if_pos hz2]⟩
  by_cases hz3 : p3 = 0
  · exact Or.inl ⟨fun hg => hg.2.2 hz3, by rw [if_neg hz1, if_neg hz2, if_pos hz3]⟩
  · refine Or.inr ⟨⟨hz1, hz2, hz3⟩, r1, r2, r3, rfl, by rw [h2], by rw [h3], ?_⟩
    rw [if_neg hz1, if_neg hz2, if_neg hz3, h2, h3]

/-- With memory for everything, `as_prepare_load` leaves an address space that is set up exactly if
both regions have a nonzero base and at least one page. -/
theorem asPrepareLoad_setUp_iff {as : Addrspace} (h : as.Unbacked) {r : Ram}
    (hr : 4096 ∣ r.firstpaddr.toNat) (hv1 : 4096 ∣ as.asVbase1.toNat)
    (hv2 : 4096 ∣ as.asVbase2.toNat)
    (hg : Grants r [as.asNpages1, as.asNpages2, dumbvmStackpages]) :
    (asPrepareLoad as r).2.1.SetUp ↔
      as.asVbase1 ≠ 0 ∧ as.asNpages1 ≠ 0 ∧ as.asVbase2 ≠ 0 ∧ as.asNpages2 ≠ 0 := by
  rcases asPrepareLoad_cases h r with ⟨hng, -⟩ | ⟨-, r₁, r₂, r₃, h1, h2, -, hp⟩
  · exact absurd hg hng
  · obtain ⟨ha1, hr1⟩ := getppages_aligned hr as.asNpages1
    rw [← h1] at hr1
    obtain ⟨ha2, hr2⟩ := getppages_aligned hr1 as.asNpages2
    rw [← h2] at hr2
    obtain ⟨ha3, -⟩ := getppages_aligned hr2 dumbvmStackpages
    obtain ⟨hg1, hg2, hg3, -⟩ := hg
    rw [← h1] at hg2 hg3
    rw [← h2] at hg3
    rw [hp, Addrspace.setUp_iff]
    simp only [and_pageFrame_eq_iff]
    constructor
    · rintro ⟨hb1, -, hn1, hb2, -, hn2, -⟩
      exact ⟨hb1, hn1, hb2, hn2⟩
    · rintro ⟨hb1, hn1, hb2, hn2⟩
      exact ⟨hb1, hg1, hn1, hb2, hg2, hn2, hg3, hv1, ha1, hv2, ha2, ha3⟩

end Dumbvm

end Os161
