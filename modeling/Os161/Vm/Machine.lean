import Os161.Vm.KmallocFrame
import Os161.Vm.Ram

/-!
# The kernel heap on the memory of the machine

`kmalloc` of `kern/vm/kmalloc.c` on `alloc_kpages` of `kern/arch/mips/vm/dumbvm.c` and
`ram_stealmem` of `kern/arch/mips/vm/ram.c`. In the model of the heap `alloc_kpages` may answer with
any region that is free. Here it answers with what `ram_stealmem` takes off the front of the
memory, and `getppages` takes frames for address spaces off the same memory.

## What can wrap

A request of `sz` bytes goes through three computations modulo 2^32: `sz + PAGE_SIZE - 1`, which is
rounded down to `npages`, `npages * PAGE_SIZE`, and `firstpaddr` plus that. If none of them wraps,
a large block is a region the heap has to itself. If one does, the sum is at most `firstpaddr`, so
the request is served, from memory that is not there or that others will get.

## Main results

* `Kmalloc.Machine.Inv.step` — a step in which nothing wraps keeps everything apart
* `Kmalloc.kmalloc_honoured_iff` — sizes are honoured in runs without wraps, and only then
-/

namespace Os161

namespace Kmalloc

variable {T : Type}

/-- `npages` of `kmalloc`. -/
def bigPages (sz : UInt32) : UInt32 := (sz + Ram.pageSize - 1) / Ram.pageSize

/-- The argument of the `alloc_kpages` a thread is at. -/
def State.request (s : State T) (t : T) : UInt32 :=
  match s.pc t with
  | .wantBig sz => bigPages (UInt32.ofNat sz)
  | _ => 1

/-- The answer `va` of `alloc_kpages(npages)`. -/
def Pager.answered (p : Pager) (va npages : UInt32) : Pager :=
  if va = 0 then p else p.give ⟨va.toNat, npages.toNat⟩

/-- The heap, the memory it lives in, and the frames `getppages` handed out, by their addresses in
`kseg0`. -/
structure Machine (T : Type) where
  kheap : State T
  ram : Ram
  frames : List Region

/-- What can happen next. -/
inductive Call (T : Type) where
  /-- Thread `t` calls `kmalloc(sz)`. -/
  | kmalloc (t : T) (sz : UInt32)
  /-- Thread `t` calls `kfree(ptr)`. -/
  | kfree (t : T) (ptr : ℕ)
  /-- Thread `t` goes on. -/
  | run (t : T)
  /-- Somebody calls `getppages(npages)`. -/
  | getppages (npages : UInt32)
  /-- Somebody stores a word in memory that is its own. -/
  | store (addr val : ℕ)

namespace Machine

/-- The heap goes on as `r`. -/
def onHeap (m : Machine T) (r : Except Trap (State T)) : Except Trap (Machine T) :=
  r.map fun s => { m with kheap := s }

variable [DecidableEq T]

/-- One step. -/
def step (m : Machine T) : Call T → Option (Except Trap (Machine T))
  | .kmalloc t sz =>
    if m.kheap.pc t = .idle then
      if largestSubpageSize ≤ sz.toNat then
        some (m.onHeap (.ok (m.kheap.goto t (.wantBig sz.toNat))))
      else some (m.onHeap (m.kheap.subpageKmalloc t sz.toNat))
    else none
  | .kfree t ptr => (m.kheap.step (.kfree t ptr)).map m.onHeap
  | .run t =>
    match m.kheap.asking t with
    | some (_, k) =>
      let (va, ram) := m.ram.allocKpages (m.kheap.request t)
      let pager := m.kheap.pager.answered va (m.kheap.request t)
      some ({ m with ram := ram }.onHeap (k va.toNat { m.kheap with pager := pager }))
    | none => if m.kheap.pc t = .idle then none else some (m.onHeap (m.kheap.next t))
  | .getppages npages =>
    let (pa, ram) := m.ram.getppages npages
    some (.ok { m with
      ram := ram
      frames := if pa = 0 then m.frames
        else ⟨(Ram.paddrToKvaddr pa).toNat, npages.toNat⟩ :: m.frames })
  | .store addr val => (m.kheap.step (.store addr val)).map m.onHeap

end Machine

/-- `start.S` leaves `firstpaddr` at a page boundary after the kernel, and `ram_bootstrap` uses no
more than 512 megabytes. -/
def Booted (r : Ram) : Prop :=
  0 < r.firstpaddr.toNat ∧ r.firstpaddr.toNat % 4096 = 0 ∧
    r.firstpaddr.toNat ≤ r.lastpaddr.toNat ∧ r.lastpaddr.toNat ≤ 512 * 1024 * 1024

instance (r : Ram) : Decidable (Booted r) := inferInstanceAs (Decidable (_ ∧ _ ∧ _ ∧ _))

/-- Any number of threads, from the start. The memory is arbitrary, and so is its size. -/
def machine (T : Type) [DecidableEq T] : TransitionSystem (Except Trap (Machine T)) (Call T) where
  init c := ∃ s ram, (system T).init (.running s) ∧ Booted ram ∧ c = .ok ⟨s, ram, []⟩
  step c a := match c with
    | .error _ => none
    | .ok m => m.step a

/-! ### What is expected -/

/-- `MIPS_KSEG0`. -/
def kseg0 : ℕ := 0x80000000

/-- What `kmalloc` has answered is memory, and nobody else's. -/
structure Machine.Honoured (m : Machine T) : Prop where
  /-- A block is as large as was asked for. -/
  memory : ∀ x ∈ m.kheap.live, kseg0 ≤ x.addr ∧ x.addr + x.size ≤ kseg0 + m.ram.lastpaddr.toNat
  apart : m.kheap.live.Pairwise fun x y =>
    x.addr ≠ y.addr ∧ (x.addr + x.size ≤ y.addr ∨ y.addr + y.size ≤ x.addr)
  frames : ∀ x ∈ m.kheap.live, ∀ f ∈ m.frames, x.addr + x.size ≤ f.addr ∨ f.fin ≤ x.addr

/-- `kmalloc` itself does not stop: the only panic there is is one of `kfree`. -/
def Honoured : Except Trap (Machine T) → Prop
  | .ok m => m.Honoured
  | .error e => e = .rootInUse

variable [DecidableEq T]

/-- The pages asked for end below 2^32. -/
def FitsRam (r : Ram) (npages : ℕ) : Prop := r.firstpaddr.toNat + npages * 4096 < 2 ^ 32

instance (r : Ram) (npages : ℕ) : Decidable (FitsRam r npages) :=
  inferInstanceAs (Decidable (_ < _))

/-- A request for pages does not wrap. -/
def NoWrap : Except Trap (Machine T) → Call T → Prop
  | .ok m, .run t => ∀ sz, m.kheap.pc t = .wantBig sz → FitsRam m.ram (State.npages sz)
  | .ok m, .getppages npages => FitsRam m.ram npages.toNat
  | _, _ => True

/-! ### The invariant -/

/-- Everything that was handed out lies below the free memory. -/
structure Machine.Inv (m : Machine T) : Prop where
  kheap : ∃ all free, Kmalloc.Inv m.kheap all free
  ram : Booted m.ram
  regions : ∀ n < m.kheap.pager.count, kseg0 ≤ (m.kheap.pager.region n).addr ∧
    (m.kheap.pager.region n).fin ≤ kseg0 + m.ram.firstpaddr.toNat
  frames : ∀ f ∈ m.frames, kseg0 ≤ f.addr ∧ f.fin ≤ kseg0 + m.ram.firstpaddr.toNat
  apart : ∀ f ∈ m.frames, ∀ n < m.kheap.pager.count,
    f.fin ≤ (m.kheap.pager.region n).addr ∨ (m.kheap.pager.region n).fin ≤ f.addr

omit [DecidableEq T] in
/-- A live block lies in a region that was not given back. -/
theorem Inv.block_region {s : State T} {all : List ℕ} {free : ℕ → List ℕ} (h : Inv s all free)
    {x : Block} (hx : x ∈ s.live) : ∃ n < s.pager.count,
      (s.pager.region n).addr ≤ x.addr ∧ x.addr + x.size ≤ (s.pager.region n).fin := by
  rcases h.sound.room x hx with ⟨pr, hpr, hlo, hhi⟩ | ⟨n, hn, haddr, hfin⟩
  · obtain ⟨n, hn, haddr, -⟩ := h.regions.owned (w := .heapPage pr) ⟨hpr, rfl⟩
    have hpage := Region.lt_fin (h.regions.pager.region n hn).2.2.1
    exact ⟨n, hn.1, by omega, by omega⟩
  · exact ⟨n, hn.1, haddr.le, hfin⟩

omit [DecidableEq T] in
theorem Machine.Inv.honoured {m : Machine T} (h : m.Inv) : m.Honoured where
  memory x hx := by
    obtain ⟨all, free, hinv⟩ := h.kheap
    obtain ⟨n, hn, hlo, hhi⟩ := hinv.block_region hx
    have hbounds := h.regions n hn
    have hram := h.ram.2.2.1
    omega
  apart := by
    obtain ⟨all, free, hinv⟩ := h.kheap
    refine (List.pairwise_map.mp hinv.once).imp_of_mem fun hx hy hne => ?_
    exact ⟨hne, hinv.live_apart hx hy hne⟩
  frames x hx f hf := by
    obtain ⟨all, free, hinv⟩ := h.kheap
    obtain ⟨n, hn, hlo, hhi⟩ := hinv.block_region hx
    have hapart := h.apart f hf n hn
    omega

/-! ### One step -/

omit [DecidableEq T] in
theorem Machine.Inv.sameHeap {m : Machine T} (h : m.Inv) {s' : State T}
    (hinv : ∃ all free, Kmalloc.Inv s' all free) (hcount : s'.pager.count = m.kheap.pager.count)
    (hregion : s'.pager.region = m.kheap.pager.region) :
    Machine.Inv { m with kheap := s' } where
  kheap := hinv
  ram := h.ram
  regions := by
    rw [hcount, hregion]
    exact h.regions
  frames := h.frames
  apart := by
    rw [hcount, hregion]
    exact h.apart

section Answers

variable {r : Ram} {n : UInt32}

theorem toNat_paddrToKvaddr {pa : UInt32} (h : pa.toNat ≤ 512 * 1024 * 1024) :
    (Ram.paddrToKvaddr pa).toNat = kseg0 + pa.toNat := by
  rw [Ram.paddrToKvaddr, UInt32.toNat_add, Nat.mod_eq_of_lt]
  · exact Nat.add_comm _ _
  · change _ + 0x80000000 < _
    omega

/-- `ram_stealmem` refuses, or takes the pages off the front of the memory. -/
theorem ramStealmem_fits (hb : Booted r) (hfit : FitsRam r n.toNat) :
    r.ramStealmem n = (0, r) ∨ ∃ r' : Ram, Booted r' ∧ r'.lastpaddr = r.lastpaddr ∧
      r'.firstpaddr.toNat = r.firstpaddr.toNat + n.toNat * 4096 ∧
      r.ramStealmem n = (r.firstpaddr, r') := by
  obtain ⟨hpos, halign, hle, htop⟩ := hb
  rcases Ram.ramStealmem_cases (fun hw => absurd hfit (Nat.not_lt.mpr hw.1)) with
    ⟨-, hs⟩ | ⟨r', hl, hf, hle', hs⟩
  · exact Or.inl hs
  · exact Or.inr ⟨r', ⟨by omega, by omega, hle', by rw [hl]; exact htop⟩, hl, hf, hs⟩

/-- The answer of `alloc_kpages`. -/
theorem allocKpages_fits (hb : Booted r) (hfit : FitsRam r n.toNat) :
    r.allocKpages n = (0, r) ∨ ∃ (va : UInt32) (r' : Ram), va ≠ 0 ∧
      va.toNat = kseg0 + r.firstpaddr.toNat ∧ Booted r' ∧ r'.lastpaddr = r.lastpaddr ∧
      r'.firstpaddr.toNat = r.firstpaddr.toNat + n.toNat * 4096 ∧ r.allocKpages n = (va, r') := by
  have hlow : r.firstpaddr.toNat ≤ 512 * 1024 * 1024 := hb.2.2.1.trans hb.2.2.2
  have hva := toNat_paddrToKvaddr hlow
  have hne : r.firstpaddr ≠ 0 := by
    intro h0
    have hpos := hb.1
    rw [h0] at hpos
    exact absurd hpos (by decide)
  rcases ramStealmem_fits hb hfit with hs | ⟨r', hb', hl, hf, hs⟩
  · left
    simp only [Ram.allocKpages, Ram.getppages, hs, if_pos]
  · right
    refine ⟨Ram.paddrToKvaddr r.firstpaddr, r', ?_, hva, hb', hl, hf, ?_⟩
    · intro h0
      rw [h0] at hva
      change 0 = 0x80000000 + _ at hva
      omega
    · simp only [Ram.allocKpages, Ram.getppages, hs, if_neg hne]

theorem add_round (sz : UInt32) : sz + Ram.pageSize - 1 = sz + 4095 := by
  rw [UInt32.sub_eq_add_neg, UInt32.add_assoc]
  rfl

/-- The number of pages of a block, if it does not wrap. -/
theorem toNat_bigPages {sz : ℕ} (h : sz + 4095 < 2 ^ 32) :
    (bigPages (UInt32.ofNat sz)).toNat = State.npages sz := by
  have hlt : sz < 2 ^ 32 := by omega
  have hsz : (UInt32.ofNat sz).toNat = sz := UInt32.toNat_ofNat_of_lt' hlt
  rw [bigPages, add_round, UInt32.toNat_div, UInt32.toNat_add, hsz]
  change (sz + 4095) % 2 ^ 32 / 4096 = (sz + 4096 - 1) / 4096
  rw [Nat.mod_eq_of_lt h]
  rfl

/-- What a thread asks for. -/
theorem request_fits {s : State T} {t : T} {all : List ℕ} {free : ℕ → List ℕ} {m : ℕ}
    {k : ℕ → State T → Except Trap (State T)} (h : Inv s all free) (hb : Booted r)
    (hfit : ∀ sz, s.pc t = .wantBig sz → FitsRam r (State.npages sz))
    (hk : s.asking t = some (m, k)) : (s.request t).toNat = m ∧ 0 < m ∧ FitsRam r m := by
  have hone : FitsRam r 1 := by
    obtain ⟨-, -, hle, htop⟩ := hb
    unfold FitsRam
    omega
  have hsane := h.sane t
  unfold State.asking at hk
  split at hk
  · next hpc =>
    obtain ⟨rfl, -⟩ := Prod.mk.inj (Option.some.inj hk)
    rw [State.request, hpc]
    exact ⟨rfl, Nat.one_pos, hone⟩
  · next hpc =>
    obtain ⟨rfl, -⟩ := Prod.mk.inj (Option.some.inj hk)
    rw [State.request, hpc]
    exact ⟨rfl, Nat.one_pos, hone⟩
  · next sz hpc =>
    obtain ⟨rfl, -⟩ := Prod.mk.inj (Option.some.inj hk)
    have hf := hfit sz hpc
    rw [hpc] at hsane
    rw [State.request, hpc]
    change 2048 ≤ sz at hsane
    have hsz : sz + 4095 < 2 ^ 32 := by
      unfold FitsRam State.npages pageSize at hf
      have hpos := hb.1
      omega
    refine ⟨toNat_bigPages hsz, ?_, hf⟩
    unfold State.npages pageSize
    omega
  · exact nomatch hk

end Answers

omit [DecidableEq T] in
/-- The pages taken off the front of the memory meet nothing that was handed out before. -/
theorem Machine.Inv.mayGive {m : Machine T} {r' : Ram} {va : UInt32} {n : ℕ} (h : m.Inv)
    (hva : va.toNat = kseg0 + m.ram.firstpaddr.toNat) (hb : Booted r')
    (hf : r'.firstpaddr.toNat = m.ram.firstpaddr.toNat + n * 4096) :
    m.kheap.pager.MayGive ⟨va.toNat, n⟩ := by
  obtain ⟨hpos, halign, -, -⟩ := h.ram
  obtain ⟨-, -, hle, htop⟩ := hb
  unfold kseg0 at hva
  refine ⟨?_, ?_, ?_, fun j hj _ => Or.inr ?_⟩
  · dsimp only
    omega
  · unfold pageSize
    dsimp only
    omega
  · unfold Region.fin pageSize
    dsimp only
    omega
  · have hbelow := (h.regions j hj).2
    unfold kseg0 at hbelow
    dsimp only
    omega

omit [DecidableEq T] in
/-- A region more, right below where the free memory starts now. -/
theorem Machine.Inv.give {m : Machine T} {r' : Ram} {va : UInt32} {n : ℕ} {s' : State T} (h : m.Inv)
    (hva : va.toNat = kseg0 + m.ram.firstpaddr.toNat) (hb : Booted r')
    (hf : r'.firstpaddr.toNat = m.ram.firstpaddr.toNat + n * 4096)
    (hinv : ∃ all free, Kmalloc.Inv s' all free)
    (hpager : s'.pager.count = (m.kheap.pager.give ⟨va.toNat, n⟩).count ∧
      s'.pager.region = (m.kheap.pager.give ⟨va.toNat, n⟩).region) :
    Machine.Inv { m with kheap := s', ram := r' } := by
  have hregion : ∀ j < m.kheap.pager.count + 1,
      (m.kheap.pager.give ⟨va.toNat, n⟩).region j = ⟨va.toNat, n⟩ ∨
        j < m.kheap.pager.count ∧
          (m.kheap.pager.give ⟨va.toNat, n⟩).region j = m.kheap.pager.region j := by
    intro j hj
    by_cases hlast : j = m.kheap.pager.count
    · subst hlast
      exact Or.inl (Function.update_self _ _ _)
    · exact Or.inr ⟨by omega, Function.update_of_ne hlast _ _⟩
  have hfin : Region.fin ⟨va.toNat, n⟩ = kseg0 + r'.firstpaddr.toNat := by
    unfold Region.fin pageSize
    dsimp only
    omega
  refine ⟨hinv, hb, ?_, ?_, ?_⟩
  · rw [hpager.1, hpager.2]
    intro j hj
    rcases hregion j hj with hj' | ⟨hlt, hj'⟩
    · rw [hj', hfin, hva]
      exact ⟨Nat.le_add_right _ _, Nat.le_refl _⟩
    · rw [hj']
      obtain ⟨hlo, hhi⟩ := h.regions j hlt
      exact ⟨hlo, hhi.trans (by dsimp only; omega)⟩
  · intro f hframe
    obtain ⟨hlo, hhi⟩ := h.frames f hframe
    exact ⟨hlo, hhi.trans (by dsimp only; omega)⟩
  · rw [hpager.1, hpager.2]
    intro f hframe j hj
    rcases hregion j hj with hj' | ⟨hlt, hj'⟩
    · rw [hj']
      exact Or.inl ((h.frames f hframe).2.trans hva.ge)
    · rw [hj']
      exact h.apart f hframe j hlt

omit [DecidableEq T] in
/-- A frame more. -/
theorem Machine.Inv.frame {m : Machine T} {r' : Ram} {va : ℕ} {n : ℕ} (h : m.Inv)
    (hva : va = kseg0 + m.ram.firstpaddr.toNat) (hb : Booted r')
    (hf : r'.firstpaddr.toNat = m.ram.firstpaddr.toNat + n * 4096) :
    Machine.Inv { m with ram := r', frames := ⟨va, n⟩ :: m.frames } := by
  have hfin : Region.fin ⟨va, n⟩ = kseg0 + r'.firstpaddr.toNat := by
    unfold Region.fin pageSize
    dsimp only
    omega
  refine ⟨h.kheap, hb, ?_, ?_, ?_⟩
  · intro j hj
    obtain ⟨hlo, hhi⟩ := h.regions j hj
    exact ⟨hlo, hhi.trans (by dsimp only; omega)⟩
  · refine List.forall_mem_cons.mpr ⟨?_, fun f hframe => ?_⟩
    · rw [hfin]
      exact ⟨by dsimp only; omega, Nat.le_refl _⟩
    · obtain ⟨hlo, hhi⟩ := h.frames f hframe
      exact ⟨hlo, hhi.trans (by dsimp only; omega)⟩
  · refine List.forall_mem_cons.mpr ⟨fun j hj => Or.inr ?_, h.apart⟩
    exact (h.regions j hj).2.trans hva.ge

omit [DecidableEq T] in
/-- What the heap goes on as, without a page: all is kept. -/
theorem Machine.Inv.onHeap {m : Machine T} {x : Except Trap (State T)} (h : m.Inv) (hkept : Kept x)
    (hframe : ∀ s', x = .ok s' → s'.pager.count = m.kheap.pager.count ∧
      s'.pager.region = m.kheap.pager.region) :
    ∃ m', m.onHeap x = .ok m' ∧ m'.Inv := by
  obtain ⟨s', all, free, rfl, hinv⟩ := hkept
  exact ⟨_, rfl, h.sameHeap ⟨all, free, hinv⟩ (hframe s' rfl).1 (hframe s' rfl).2⟩

/-- **The step lemma.** If nothing wraps everything is kept apart, unless `kfree` stops. -/
theorem Machine.Inv.step {m : Machine T} {a : Call T} {res : Except Trap (Machine T)} (h : m.Inv)
    (hno : NoWrap (.ok m) a) (hstep : m.step a = some res) :
    (∃ m', res = .ok m' ∧ m'.Inv) ∨ res = .error .rootInUse := by
  obtain ⟨all, free, hinv⟩ := h.kheap
  cases a with
  | kmalloc t sz =>
    left
    simp only [Machine.step] at hstep
    split at hstep
    · next hpc =>
      split at hstep
      · next hbig =>
        cases hstep
        refine h.onHeap ⟨_, _, _, rfl, hinv.goto ?_ ?_ ?_ (.inr rfl) hbig fun _ hr => by cases hr⟩
          fun s' hs' => ?_
        · rw [hpc]; rfl
        · rw [hpc]; rfl
        · rw [hpc]; rfl
        · cases hs'
          exact ⟨rfl, rfl⟩
      · next hsmall =>
        cases hstep
        exact h.onHeap (hinv.subpageKmalloc hpc (not_le.mp hsmall))
          fun s' hs' => (subpageKmalloc_frame hs').pager
    · cases hstep
  | kfree t ptr =>
    obtain ⟨x, hx, rfl⟩ := Option.map_eq_some_iff.mp hstep
    rcases hinv.step hx with hkept | ⟨-, rfl, -⟩
    · refine Or.inl (h.onHeap hkept fun s' hs' => ?_)
      simp only [State.step] at hx
      split at hx
      · cases hx
        exact (kfree_frame hs').pager
      · cases hx
    · exact Or.inr rfl
  | run t =>
    left
    simp only [Machine.step] at hstep
    split at hstep
    · next n k hk =>
      obtain ⟨hreq, hn, hfit⟩ := request_fits hinv h.ram hno hk
      rw [← hreq] at hfit
      obtain ⟨hnone, hgive⟩ := hinv.answer (m.ram.allocKpages (m.kheap.request t)).1.toNat hk
      rcases allocKpages_fits h.ram hfit with hs | ⟨va, r', hne, hva, hb, hl, hf, hs⟩
      · rw [hs] at hstep
        cases hstep
        exact h.onHeap hnone fun s' hs' => (answer_frame hk hs').pager
      · rw [hs] at hstep hgive
        cases hstep
        rw [hreq] at hf
        have hanswered : m.kheap.pager.answered va (m.kheap.request t) =
            m.kheap.pager.give ⟨va.toNat, n⟩ := by
          rw [Pager.answered, if_neg hne, hreq]
        rw [hanswered]
        obtain ⟨s', all', free', hs', hinv'⟩ := hgive
          (fun h0 => hne (UInt32.toNat_inj.mp h0)) (h.mayGive hva hb hf)
        refine ⟨{ m with kheap := s', ram := r' }, ?_,
          h.give hva hb hf ⟨all', free', hinv'⟩ (answer_frame hk hs').pager⟩
        dsimp only at hs' ⊢
        rw [hs']
        rfl
    · split at hstep
      · cases hstep
      · cases hstep
        exact h.onHeap (hinv.next t) fun s' hs' => (next_frame hs').pager
  | getppages npages =>
    left
    rcases ramStealmem_fits h.ram hno with hs | ⟨r', hb, hl, hf, hs⟩
    · simp only [Machine.step, Ram.getppages, hs, if_pos] at hstep
      exact ⟨m, (Option.some.inj hstep).symm, h⟩
    · have hne : m.ram.firstpaddr ≠ 0 := by
        intro h0
        have hpos := h.ram.1
        rw [h0] at hpos
        exact absurd hpos (by decide)
      have hlow : m.ram.firstpaddr.toNat ≤ 512 * 1024 * 1024 := h.ram.2.2.1.trans h.ram.2.2.2
      have hva := toNat_paddrToKvaddr hlow
      simp only [Machine.step, Ram.getppages, hs, if_neg hne] at hstep
      exact ⟨_, (Option.some.inj hstep).symm, h.frame hva hb hf⟩
  | store addr val =>
    obtain ⟨x, hx, rfl⟩ := Option.map_eq_some_iff.mp hstep
    rcases hinv.step hx with hkept | ⟨⟨t, ptr, hc, -⟩, -⟩
    · refine Or.inl (h.onHeap hkept fun s' hs' => ?_)
      simp only [State.step] at hx
      split at hx
      · cases hx
        cases hs'
        exact ⟨rfl, rfl⟩
      · cases hx
    · cases hc

theorem Machine.inv_of_reachable {c : Except Trap (Machine T)}
    (h : (machine T).ReachableWhile NoWrap c) :
    (∃ m, c = .ok m ∧ m.Inv) ∨ c = .error .rootInUse := by
  refine h.invariant (P := fun c => (∃ m, c = .ok m ∧ m.Inv) ∨ c = .error .rootInUse) ?_ ?_
  · rintro c ⟨s, ram, ⟨mem, refs, region, frees, hs⟩, hboot, rfl⟩
    obtain rfl := Config.running.inj hs
    exact Or.inl ⟨_, rfl, ⟨_, _, inv_init mem refs region frees⟩, hboot, nofun, nofun, nofun⟩
  · rintro c a c' (⟨m, rfl, hm⟩ | rfl) hno hstep
    · exact hm.step hno hstep
    · exact nomatch hstep

/-! ### A request that wraps -/

/-- The bytes `ram_stealmem` is asked for, modulo 2^32. -/
theorem toNat_bigPages_mul (sz : UInt32) :
    (bigPages sz * Ram.pageSize).toNat = State.npages sz.toNat * 4096 % 2 ^ 32 := by
  have hlt := sz.toNat_lt
  rw [bigPages, add_round, UInt32.toNat_mul, UInt32.toNat_div, UInt32.toNat_add]
  change (sz.toNat + 4095) % 2 ^ 32 / 4096 * 4096 % 2 ^ 32 =
    (sz.toNat + 4096 - 1) / 4096 * 4096 % 2 ^ 32
  omega

/-- If the sum wraps it is at most `firstpaddr`, and the request is served. -/
theorem allocKpages_wrapped {r : Ram} {sz : UInt32} (hb : Booted r)
    (hfit : ¬FitsRam r (State.npages sz.toNat)) :
    ∃ r' : Ram, r'.lastpaddr = r.lastpaddr ∧
      r.allocKpages (bigPages sz) = (Ram.paddrToKvaddr r.firstpaddr, r') := by
  obtain ⟨hpos, halign, hle, htop⟩ := hb
  have hlt := sz.toNat_lt
  have hne : r.firstpaddr ≠ 0 := by
    intro h0
    rw [h0] at hpos
    exact absurd hpos (by decide)
  have hsum : ¬r.firstpaddr + bigPages sz * Ram.pageSize > r.lastpaddr := by
    rw [gt_iff_lt, UInt32.lt_iff_toNat_lt, not_lt, UInt32.toNat_add, toNat_bigPages_mul]
    unfold FitsRam State.npages pageSize at hfit
    unfold State.npages pageSize
    omega
  refine ⟨{ r with firstpaddr := r.firstpaddr + bigPages sz * Ram.pageSize }, rfl, ?_⟩
  simp only [Ram.allocKpages, Ram.getppages, Ram.ramStealmem, if_neg hsum, if_neg hne]

omit [DecidableEq T] in
theorem onHeap_eq_ok {m m' : Machine T} {x : Except Trap (State T)} (h : m.onHeap x = .ok m') :
    ∃ s, x = .ok s ∧ m' = { m with kheap := s } := by
  cases x with
  | error e => exact nomatch h
  | ok s =>
    cases h
    exact ⟨s, rfl, rfl⟩

/-- The block ends past the memory. -/
theorem not_honoured_of_wrapped {m m' : Machine T} {t : T} {sz : UInt32} (hb : Booted m.ram)
    (hpc : m.kheap.pc t = .wantBig sz.toNat) (hfit : ¬FitsRam m.ram (State.npages sz.toNat))
    (hstep : m.step (.run t) = some (.ok m')) : ¬m'.Honoured := by
  obtain ⟨r', hlast, halloc⟩ := allocKpages_wrapped hb hfit
  have hreq : m.kheap.request t = bigPages sz := by
    rw [State.request, hpc]
    exact congrArg bigPages (UInt32.ofNat_toNat (x := sz))
  have hlow : m.ram.firstpaddr.toNat ≤ 512 * 1024 * 1024 := hb.2.2.1.trans hb.2.2.2
  have hva := toNat_paddrToKvaddr hlow
  have hne : (Ram.paddrToKvaddr m.ram.firstpaddr).toNat ≠ 0 := by
    rw [hva]
    unfold kseg0
    omega
  have hask : m.kheap.asking t = some (State.npages sz.toNat, fun va s =>
      if va = 0 then .ok (s.ret t sz.toNat 0)
      else do
        kassert (va % pageSize = 0) .bigAlign
        return s.ret t sz.toNat va) := by
    rw [State.asking, hpc]
  simp only [Machine.step, hask, hreq, halloc, if_neg hne] at hstep
  obtain ⟨s', hs', rfl⟩ := onHeap_eq_ok (Option.some.inj hstep)
  obtain ⟨-, -, hs'⟩ := bind_eq_ok hs'
  cases hs'
  intro h
  have hmem := (h.memory ⟨(Ram.paddrToKvaddr m.ram.firstpaddr).toNat, sz.toNat⟩
    (by simp [State.ret, State.goto, hne])).2
  dsimp only at hmem
  obtain ⟨hpos, -, hle, htop⟩ := hb
  rw [hva, hlast] at hmem
  unfold FitsRam State.npages pageSize at hfit
  omega

/-- **Every size is honoured unless a computation wraps.** In every run in which none has wrapped so
far, the blocks that are live are as large as was asked for and disjoint. And they still are after
the next large block is handed out, if and only if nothing wraps for it. -/
theorem kmalloc_honoured_iff {c : Except Trap (Machine T)}
    (h : (machine T).ReachableWhile NoWrap c) :
    Honoured c ∧ ∀ m t (sz : UInt32) m', c = .ok m → m.kheap.pc t = .wantBig sz.toNat →
      m.step (.run t) = some (.ok m') →
        (m'.Honoured ↔ FitsRam m.ram (State.npages sz.toNat)) := by
  have hinv := Machine.inv_of_reachable h
  refine ⟨?_, ?_⟩
  · rcases hinv with ⟨m, rfl, hm⟩ | rfl
    · exact hm.honoured
    · exact rfl
  · rintro m t sz m' rfl hpc hstep
    rcases hinv with ⟨_, hok, hm⟩ | hbad
    · cases hok
      constructor
      · intro hon
        by_contra hfit
        exact not_honoured_of_wrapped hm.ram hpc hfit hstep hon
      · intro hfit
        have hno : NoWrap (.ok m) (.run t) := by
          intro sz' hpc'
          rw [hpc] at hpc'
          cases hpc'
          exact hfit
        rcases hm.step hno hstep with ⟨m'', hm'', hinv'⟩ | hbad
        · cases hm''
          exact hinv'.honoured
        · cases hbad
    · cases hbad

/-- A machine with 1 megabyte of which 192 kilobytes are used, after boot. -/
def smallMachine : Except Trap (Machine Unit) := .ok ⟨start Unit, Ram.smallBoot, []⟩

theorem init_smallMachine : (machine Unit).init smallMachine :=
  ⟨_, _, init_start, by decide, rfl⟩

/-- A test for `NoWrap`. -/
def noWrap : Except Trap (Machine T) → Call T → Bool
  | .ok m, .run t =>
    match m.kheap.pc t with
    | .wantBig sz => FitsRam m.ram (State.npages sz)
    | _ => true
  | .ok m, .getppages npages => FitsRam m.ram npages.toNat
  | _, _ => true

omit [DecidableEq T] in
theorem noWrap_of_test (c : Except Trap (Machine T)) (a : Call T) (h : noWrap c a = true) :
    NoWrap c a := by
  cases c with
  | error e => trivial
  | ok m =>
    cases a with
    | run t =>
      intro sz hpc
      simpa [noWrap, hpc] using h
    | getppages npages =>
      have hfit : FitsRam m.ram npages.toNat := of_decide_eq_true h
      exact hfit
    | _ => trivial

omit [DecidableEq T] in
theorem exists_ok_of_test {p : Machine T → Bool} {x : Option (Except Trap (Machine T))}
    (h : x.any (fun r => r.toOption.any p) = true) : ∃ m, x = some (.ok m) ∧ p m = true := by
  obtain ⟨r, rfl, hr⟩ := (Option.any_eq_true _ _).mp h
  cases r with
  | ok m => exact ⟨m, rfl, hr⟩
  | error e => cases hr

/-- A large block, frames for an address space, and a small block on a heap page of its own. -/
def threeKinds : List (Call Unit) :=
  [.kmalloc () 5000, .run (), .getppages 18, .kmalloc () 100, .run (), .run (), .run (), .run ()]

theorem kmalloc_honoured_iff_small : ∃ m : Machine Unit,
    m.kheap.live = [⟨0x80044f80, 100⟩, ⟨0x80030000, 5000⟩] ∧
      (machine Unit).ReachableWhile NoWrap (.ok m) ∧
      Honoured (.ok m) ∧ ∀ m₁ t (sz : UInt32) m', Except.ok (ε := Trap) m = .ok m₁ →
        m₁.kheap.pc t = .wantBig sz.toNat → m₁.step (.run t) = some (.ok m') →
          (m'.Honoured ↔ FitsRam m₁.ram (State.npages sz.toNat)) := by
  have hrun : (threeKinds.foldlM (fun c a => if noWrap c a then (machine Unit).step c a
      else none) smallMachine).any (fun r => r.toOption.any fun m =>
        m.kheap.live == [⟨0x80044f80, 100⟩, ⟨0x80030000, 5000⟩]) = true := by
    decide +kernel
  obtain ⟨m, hm, hlive⟩ := exists_ok_of_test hrun
  have hreach := TransitionSystem.reachableWhile_of_run noWrap_of_test threeKinds
    (.init init_smallMachine) hm
  exact ⟨m, by simpa using hlive, hreach, kmalloc_honoured_iff hreach⟩

/-- `kmalloc(0xffffffff)` answers with the first free page, and takes nothing off the memory. The
next block is in the same place. -/
theorem not_honoured_huge : ∃ m : Machine Unit, (machine Unit).Reachable (.ok m) ∧
    m.kheap.live = [⟨0x80030000, 4096⟩, ⟨0x80030000, 0xffffffff⟩] ∧ ¬m.Honoured := by
  have hrun : (([.kmalloc () 0xffffffff, .run (), .kmalloc () 4096, .run ()] :
      List (Call Unit)).foldlM (machine Unit).step smallMachine).any (fun r =>
        r.toOption.any fun m =>
          m.kheap.live == [⟨0x80030000, 4096⟩, ⟨0x80030000, 0xffffffff⟩]) = true := by
    decide +kernel
  obtain ⟨m, hm, htest⟩ := exists_ok_of_test hrun
  have hlive : m.kheap.live = [⟨0x80030000, 4096⟩, ⟨0x80030000, 0xffffffff⟩] := by
    simpa using htest
  refine ⟨m, TransitionSystem.reachable_of_run _ (.init init_smallMachine) hm, hlive, ?_⟩
  intro h
  have hapart := h.apart
  rw [hlive, List.pairwise_cons] at hapart
  exact (hapart.1 _ List.mem_cons_self).1 rfl

end Kmalloc

end Os161
