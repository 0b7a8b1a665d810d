import Os161.Lib.Chain
import Os161.Lib.Transition
import Mathlib.Data.Nat.Notation
import Mathlib.Algebra.GroupWithZero.Nat

/-!
# The kernel heap

`kern/vm/kmalloc.c`. Requests of less than half a page are cut from *heap pages*, each of which
holds blocks of one size; larger ones go to `alloc_kpages`. The free blocks of a page are linked
through their own first words, so the list lives in memory the clients have had. What is known of a
heap page is in a `pageref`, and pagerefs live in pages of their own, at most sixteen, handed out
from a bit map in each `kheap_root`.

One spinlock protects all of it, and is released around every call of `alloc_kpages` and
`free_kpages`. So the code is modelled as what happens between two releases, each piece a function
on the `Heap`, and a thread is somewhere between the pieces (`Pc`). The page allocator is not part
of this file of the source: `alloc_kpages` answers with any region that is page-aligned and does not
meet one that was not given back, or with 0.

Memory is a word at each address, and a `struct pageref` at each address pagerefs are read at.
The debugging modes (`SLOW`, `GUARDS`, `LABELS` and so on) are not enabled in the source.
-/

namespace Os161

namespace Kmalloc

/-! ### Data -/

/-- `PAGE_SIZE`. -/
def pageSize : ℕ := 4096

/-- `NSIZES`. -/
def nsizes : ℕ := 8

/-- The table `sizes`. -/
def sizes : List ℕ := [16, 32, 64, 128, 256, 512, 1024, 2048]

/-- `sizes[blktype]`. -/
def blocksize (blktype : ℕ) : ℕ := sizes.getD blktype 0

/-- `LARGEST_SUBPAGE_SIZE`. -/
def largestSubpageSize : ℕ := 2048

/-- `NPAGEREFS_PER_PAGE`. -/
def npagerefsPerPage : ℕ := 256

/-- `NUM_PAGEREFPAGES`. -/
def numPagerefpages : ℕ := 16

/-- `sizeof(struct pageref)`. -/
def sizeofPageref : ℕ := 16

/-- `INVALID_OFFSET`. -/
def invalidOffset : ℕ := 0xffff

/-- The assertions and panics, in the order of the source, and the two things the code does not
check. -/
inductive Trap where
  /-- `allocpagerefpage`: `root->page == NULL`. -/
  | pagePresent
  /-- `allocpagerefpage`: `va % PAGE_SIZE == 0`. -/
  | refpageAlign
  /-- `allocpagerefpage`: `root->page != NULL`, after a lost race. -/
  | pageGone
  /-- `allocpageref`: a word that is not full has no clear bit. -/
  | noClearBit
  /-- `freepageref`: `root->numinuse == 0`. -/
  | rootInUse
  /-- `freepageref`: the bit is set. -/
  | bitClear
  /-- `freepageref`: `root->numinuse > 0`. -/
  | noneInUse
  /-- `freepageref`: the pageref is on one of the pages. -/
  | notOnPages
  /-- `remove_lists`: the block type is in range. -/
  | removeBlocktype
  /-- `blocktype`: the size is too large. -/
  | cannotHandle
  /-- `subpage_kmalloc`: `PR_BLOCKTYPE(pr) == blktype`. -/
  | wrongBlocktype
  /-- `subpage_kmalloc`: `pr->freelist_offset < PAGE_SIZE`. -/
  | freelistOffset
  /-- `subpage_kmalloc`: `pr->nfree > 0`. -/
  | nfreeZero
  /-- `subpage_kmalloc`: `fla - prpage < PAGE_SIZE`. -/
  | nextOffset
  /-- `subpage_kmalloc`: `pr->nfree == 0`. -/
  | nfreeNonzero
  /-- `subpage_kmalloc`: `prpage % PAGE_SIZE == 0`. -/
  | pageAlign
  /-- `subpage_kmalloc`: `fl != fl->next`. -/
  | selfLink
  /-- `subpage_kmalloc`: `pr->freelist_offset == (pr->nfree-1)*sizes[blktype]`. -/
  | lastOffset
  /-- `subpage_kfree`: the block type is in range. -/
  | freeBlocktype
  /-- `subpage_kfree`: "subpage free of invalid addr". -/
  | invalidAddr
  /-- `subpage_kfree`: `fl != fl->next`. -/
  | freeTwice
  /-- `subpage_kfree`: `pr->nfree <= PAGE_SIZE / sizes[blktype]`. -/
  | nfreeBound
  /-- `kmalloc`: `address % PAGE_SIZE == 0`. -/
  | bigAlign
  /-- `kfree`: `(vaddr_t)ptr%PAGE_SIZE==0`. -/
  | kfreeAlign
  /-- A walk over the pagerefs does not end. -/
  | spin
  /-- `free_kpages` of something `alloc_kpages` did not hand out, or that was given back. -/
  | strayFree
  deriving DecidableEq, Repr

/-- `KASSERT`. -/
def kassert (c : Prop) [Decidable c] (e : Trap) : Except Trap Unit :=
  if c then .ok () else .error e

/-- Subtraction of 32-bit addresses. -/
def sub32 (a b : ℕ) : ℕ := (a + 2 ^ 32 - b) % 2 ^ 32

/-- `struct pageref`. -/
structure Pageref where
  nextSamesize : ℕ
  nextAll : ℕ
  pageaddrAndBlocktype : ℕ
  freelistOffset : ℕ
  nfree : ℕ

/-- `PR_PAGEADDR`. -/
def Pageref.pageaddr (pr : Pageref) : ℕ := pr.pageaddrAndBlocktype / pageSize * pageSize

/-- `PR_BLOCKTYPE`. -/
def Pageref.blocktype (pr : Pageref) : ℕ := pr.pageaddrAndBlocktype % pageSize

/-- `MKPAB`. -/
def mkpab (pa blk : ℕ) : ℕ := pa / pageSize * pageSize + blk % pageSize

/-- `struct kheap_root`. -/
structure KheapRoot where
  page : ℕ
  pagerefsInuse : ℕ → BitVec 32
  numinuse : ℕ

/-- The bit of `pagerefs_inuse` for the pageref with index `b`. -/
def KheapRoot.inuse (root : KheapRoot) (b : ℕ) : Bool :=
  (root.pagerefsInuse (b / 32)).getLsbD (b % 32)

/-- The memory and the static variables. -/
structure Heap where
  /-- The word at an address. -/
  mem : ℕ → ℕ
  /-- The pageref at an address. -/
  refs : ℕ → Pageref
  kheaproots : ℕ → KheapRoot
  sizebases : ℕ → ℕ
  allbase : ℕ

namespace Heap

/-- Store a pageref. -/
def setRef (h : Heap) (pr : ℕ) (p : Pageref) : Heap :=
  { h with refs := Function.update h.refs pr p }

/-- Store a `kheap_root`. -/
def setRoot (h : Heap) (r : ℕ) (root : KheapRoot) : Heap :=
  { h with kheaproots := Function.update h.kheaproots r root }

/-- `&root->page->refs[b]`. -/
def refAddr (h : Heap) (r b : ℕ) : ℕ := (h.kheaproots r).page + sizeofPageref * b

end Heap

/-! ### Pagerefs -/

/-- The inner loop of `allocpageref`: the lowest clear bit of a word. -/
def clearBit (w : BitVec 32) : Option ℕ := (List.range 32).find? fun j => !w.getLsbD j

/-- The loop of `allocpageref` over the words of one root: the index of the pageref to take. -/
def KheapRoot.findClear (root : KheapRoot) : Option (Except Trap ℕ) :=
  (List.range (npagerefsPerPage / 32)).findSome? fun i =>
    if root.pagerefsInuse i = 0xffffffff then none
    else match clearBit (root.pagerefsInuse i) with
      | some j => some (.ok (i * 32 + j))
      | none => some (.error .noClearBit)

/-- The loop of `allocpageref` over the roots: which root, and which index in it. -/
def findSlot (h : Heap) : Option (Except Trap (ℕ × ℕ)) :=
  (List.range numPagerefpages).findSome? fun r =>
    if npagerefsPerPage ≤ (h.kheaproots r).numinuse then none
    else (h.kheaproots r).findClear.map fun found => found.map fun b => (r, b)

/-- `root->pagerefs_inuse[i] |= k; root->numinuse++`. -/
def KheapRoot.take (root : KheapRoot) (b : ℕ) : KheapRoot :=
  { root with
    pagerefsInuse := Function.update root.pagerefsInuse (b / 32)
      (root.pagerefsInuse (b / 32) ||| 1#32 <<< (b % 32))
    numinuse := root.numinuse + 1 }

/-- `root->pagerefs_inuse[i] &= ~k; root->numinuse--`. -/
def KheapRoot.drop (root : KheapRoot) (b : ℕ) : KheapRoot :=
  { root with
    pagerefsInuse := Function.update root.pagerefsInuse (b / 32)
      (root.pagerefsInuse (b / 32) &&& ~~~(1#32 <<< (b % 32)))
    numinuse := root.numinuse - 1 }

/-- How `allocpageref` goes on after its search. -/
inductive Slot where
  /-- There is no pageref left. -/
  | ranOut
  /-- Pageref `b` of root `r`, whose page is there. -/
  | ready (r b : ℕ)
  /-- Pageref `b` of root `r`, whose page is to be allocated. -/
  | needsPage (r b : ℕ)

/-- `allocpageref`, up to the call of `allocpagerefpage` if there is one. -/
def allocpageref (h : Heap) : Except Trap (Heap × Slot) :=
  match findSlot h with
  | none => .ok (h, .ranOut)
  | some (.error e) => .error e
  | some (.ok (r, b)) =>
    let root := (h.kheaproots r).take b
    .ok (h.setRoot r root, if root.page = 0 then .needsPage r b else .ready r b)

/-- The loop of `freepageref`, over the roots not looked at yet. -/
def freeIn (h : Heap) (p : ℕ) : List ℕ → Except Trap Heap
  | [] => .error .notOnPages
  | r :: rs => do
    let root := h.kheaproots r
    if root.page = 0 then
      kassert (root.numinuse = 0) .rootInUse
      freeIn h p rs
    else
      -- the difference of two pointers to pagerefs, as an unsigned number
      let j := sub32 p root.page / sizeofPageref
      if j < npagerefsPerPage then
        kassert (root.inuse j = true) .bitClear
        kassert (0 < root.numinuse) .noneInUse
        return h.setRoot r (root.drop j)
      else freeIn h p rs

/-- `freepageref`. -/
def freepageref (h : Heap) (p : ℕ) : Except Trap Heap := freeIn h p (List.range numPagerefpages)

/-! ### The lists of heap pages -/

/-- Enough steps for a walk over all the pagerefs there can be. -/
def walkFuel : ℕ := numPagerefpages * npagerefsPerPage + 1

/-- The field `next_samesize` of the pageref at an address. -/
def Heap.nextSamesize (h : Heap) (p : ℕ) : ℕ := (h.refs p).nextSamesize

/-- The field `next_all` of the pageref at an address. -/
def Heap.nextAll (h : Heap) (p : ℕ) : ℕ := (h.refs p).nextAll

/-- `*guy = q`, for a link of the list of block type `blktype`. -/
def Heap.storeSamesize (h : Heap) (blktype : ℕ) (guy : Link ℕ) (q : ℕ) : Heap :=
  match guy with
  | .base => { h with sizebases := Function.update h.sizebases blktype q }
  | .field p => h.setRef p { h.refs p with nextSamesize := q }

/-- `*guy = q`, for a link of the list of all heap pages. -/
def Heap.storeAll (h : Heap) (guy : Link ℕ) (q : ℕ) : Heap :=
  match guy with
  | .base => { h with allbase := q }
  | .field p => h.setRef p { h.refs p with nextAll := q }

/-- The first loop of `remove_lists`. -/
def removeSamesize (h : Heap) (pr blktype : ℕ) : Except Trap Heap :=
  match seek (h.sizebases blktype) h.nextSamesize pr walkFuel .base with
  | none => .error .spin
  | some none => .ok h
  | some (some guy) => .ok (h.storeSamesize blktype guy (h.nextSamesize pr))

/-- The second loop of `remove_lists`. -/
def removeAll (h : Heap) (pr : ℕ) : Except Trap Heap :=
  match seek h.allbase h.nextAll pr walkFuel .base with
  | none => .error .spin
  | some none => .ok h
  | some (some guy) => .ok (h.storeAll guy (h.nextAll pr))

/-- `remove_lists`. -/
def removeLists (h : Heap) (pr blktype : ℕ) : Except Trap Heap := do
  kassert (blktype < nsizes) .removeBlocktype
  let h ← removeSamesize h pr blktype
  removeAll h pr

/-! ### Allocating a block -/

/-- `blocktype`. -/
def blocktype (clientsz : ℕ) : Except Trap ℕ :=
  match (List.range nsizes).find? fun i => decide (clientsz ≤ blocksize i) with
  | some i => .ok i
  | none => .error .cannotHandle

/-- The loop of `subpage_kmalloc`, up to the label `doalloc`: a heap page with a free block. -/
def findPage (h : Heap) (blktype : ℕ) : Except Trap (Option ℕ) :=
  let body : ℕ → Option (Except Trap ℕ) := fun pr =>
    if (h.refs pr).blocktype ≠ blktype then some (.error Trap.wrongBlocktype)
    else if 0 < (h.refs pr).nfree then some (.ok pr)
    else none
  match scan h.nextSamesize body walkFuel (h.sizebases blktype) with
  | none => .error .spin
  | some none => .ok none
  | some (some found) => found.map some

/-- `subpage_kmalloc` from the label `doalloc` on: take the first free block of a page. -/
def doalloc (h : Heap) (pr : ℕ) : Except Trap (Heap × ℕ) := do
  let p := h.refs pr
  kassert (p.freelistOffset < pageSize) .freelistOffset
  let prpage := p.pageaddr
  let retptr := prpage + p.freelistOffset
  let fl := h.mem retptr
  let nfree := (p.nfree + 0xffff) % 0x10000
  if fl ≠ 0 then
    kassert (0 < nfree) .nfreeZero
    kassert (sub32 fl prpage < pageSize) .nextOffset
    return (h.setRef pr { p with nfree := nfree, freelistOffset := sub32 fl prpage }, retptr)
  else
    kassert (nfree = 0) .nfreeNonzero
    return (h.setRef pr { p with nfree := nfree, freelistOffset := invalidOffset }, retptr)

/-- One round of the loop that links the blocks of a fresh page: the block reached, and the memory.
-/
def linkBlock (fla size : ℕ) (at' : ℕ × (ℕ → ℕ)) (i : ℕ) : Except Trap (ℕ × (ℕ → ℕ)) := do
  let fl := fla + i * size
  let next := fla + (i - 1) * size
  kassert (fl ≠ next) .selfLink
  return (fl, Function.update at'.2 fl next)

/-- `subpage_kmalloc`, what is done with a fresh page and its pageref. -/
def setupPage (h : Heap) (pr prpage blktype : ℕ) : Except Trap Heap := do
  let nfree := pageSize / blocksize blktype
  let fla := prpage
  let (fl, mem) ← (List.range' 1 (nfree - 1)).foldlM (linkBlock fla (blocksize blktype))
    (fla, Function.update h.mem fla 0)
  let offset := sub32 fl prpage
  kassert (offset = (nfree - 1) * blocksize blktype) .lastOffset
  return { h with
    mem := mem
    refs := Function.update h.refs pr
      { nextSamesize := h.sizebases blktype, nextAll := h.allbase,
        pageaddrAndBlocktype := mkpab prpage blktype, freelistOffset := offset, nfree := nfree }
    sizebases := Function.update h.sizebases blktype pr
    allbase := pr }

/-! ### Freeing a block -/

/-- `fill_deadbeef`. -/
def fillDeadbeef (mem : ℕ → ℕ) (ptr len : ℕ) : ℕ → ℕ :=
  fun a => if ptr ≤ a ∧ a < ptr + len then 0xdeadbeef else mem a

/-- The loop of `subpage_kfree`: the heap page an address is on. -/
def findAddr (h : Heap) (ptraddr : ℕ) : Except Trap (Option ℕ) :=
  let body : ℕ → Option (Except Trap ℕ) := fun pr =>
    let prpage := (h.refs pr).pageaddr
    if ¬ (h.refs pr).blocktype < nsizes then some (.error Trap.freeBlocktype)
    else if prpage ≤ ptraddr ∧ ptraddr < (prpage + pageSize) % 2 ^ 32 then some (.ok pr)
    else none
  match scan h.nextAll body walkFuel h.allbase with
  | none => .error .spin
  | some none => .ok none
  | some (some found) => found.map some

/-- `subpage_kfree` once the page is found, up to the test whether the page is empty: put the block
on the free list of the page. -/
def freeBlock (h : Heap) (pr ptraddr : ℕ) : Except Trap Heap := do
  let p := h.refs pr
  let prpage := p.pageaddr
  let blktype := p.blocktype
  let offset := sub32 ptraddr prpage
  kassert (offset < pageSize ∧ offset % blocksize blktype = 0) .invalidAddr
  let mem := fillDeadbeef h.mem ptraddr (blocksize blktype)
  let fl := prpage + offset
  let next := if p.freelistOffset = invalidOffset then 0 else prpage + p.freelistOffset
  kassert (p.freelistOffset = invalidOffset ∨ fl ≠ next) .freeTwice
  let nfree := (p.nfree + 1) % 0x10000
  kassert (nfree ≤ pageSize / blocksize blktype) .nfreeBound
  return { h with
    mem := Function.update mem fl next
    refs := Function.update h.refs pr { p with freelistOffset := offset, nfree := nfree } }

/-- What `subpage_kfree` leaves to do without the spinlock. -/
inductive Freed where
  /-- The address is on no heap page: -1. -/
  | notOurs
  /-- Nothing. -/
  | done
  /-- `free_kpages` of a page that became empty. -/
  | page (prpage : ℕ)

/-- `subpage_kfree`, up to the release of the spinlock. -/
def subpageKfree (h : Heap) (ptraddr : ℕ) : Except Trap (Heap × Freed) := do
  match ← findAddr h ptraddr with
  | none => return (h, .notOurs)
  | some pr =>
    let h ← freeBlock h pr ptraddr
    let p := h.refs pr
    if p.nfree = pageSize / blocksize p.blocktype then
      let h ← removeLists h pr p.blocktype
      let h ← freepageref h pr
      return (h, .page p.pageaddr)
    else return (h, .done)

/-! ### The page allocator -/

/-- What one call of `alloc_kpages` handed out. -/
structure Region where
  addr : ℕ
  npages : ℕ
  deriving DecidableEq

/-- One past the last byte. -/
def Region.fin (g : Region) : ℕ := g.addr + g.npages * pageSize

/-- The calls of `alloc_kpages` that succeeded, in order, and how often `free_kpages` gave back the
region of each. -/
structure Pager where
  count : ℕ
  region : ℕ → Region
  frees : ℕ → ℕ

/-- The region of call `n` was handed out and not given back. -/
def Pager.Unreleased (p : Pager) (n : ℕ) : Prop := n < p.count ∧ p.frees n = 0

instance (p : Pager) (n : ℕ) : Decidable (p.Unreleased n) := instDecidableAnd

/-- The call whose region, not given back, starts at an address. -/
def Pager.find (p : Pager) (addr : ℕ) : Option ℕ :=
  (List.range p.count).find? fun n => decide (p.frees n = 0 ∧ (p.region n).addr = addr)

/-- What `alloc_kpages(npages)` may answer, other than 0: a page-aligned region inside the address
space that meets none of those not given back. -/
def Pager.MayGive (p : Pager) (g : Region) : Prop :=
  g.addr ≠ 0 ∧ g.addr % pageSize = 0 ∧ g.fin < 2 ^ 32 ∧
    ∀ n < p.count, p.frees n = 0 → g.fin ≤ (p.region n).addr ∨ (p.region n).fin ≤ g.addr

instance (p : Pager) (g : Region) : Decidable (p.MayGive g) :=
  inferInstanceAs (Decidable (_ ∧ _ ∧ _ ∧ _))

/-- `alloc_kpages` answers with `g`. -/
def Pager.give (p : Pager) (g : Region) : Pager :=
  { count := p.count + 1
    region := Function.update p.region p.count g
    frees := Function.update p.frees p.count 0 }

/-- `free_kpages`. -/
def Pager.freeKpages (p : Pager) (addr : ℕ) : Except Trap Pager :=
  match p.find addr with
  | none => .error .strayFree
  | some n => .ok { p with frees := Function.update p.frees n (p.frees n + 1) }

/-! ### Threads -/

variable {T : Type}

/-- Where a thread is, outside the spinlock. `sz` is the argument of `kmalloc`, `blktype` the block
type for it, `prpage` the page obtained for the heap, and `r`, `b` the root and the index in it of
the pageref taken for that page. -/
inductive Pc where
  /-- Outside `kmalloc` and `kfree`. -/
  | idle
  /-- `subpage_kmalloc`, at `alloc_kpages`. -/
  | wantPage (sz blktype : ℕ)
  /-- `subpage_kmalloc`, with a page, at `spinlock_acquire`. -/
  | havePage (sz blktype prpage : ℕ)
  /-- `allocpagerefpage`, at `alloc_kpages`. -/
  | wantRefpage (sz blktype prpage r b : ℕ)
  /-- `allocpagerefpage`, after `alloc_kpages` answered `va`, at `spinlock_acquire`. -/
  | gotRefpage (sz blktype prpage r b va : ℕ)
  /-- `allocpagerefpage`, somebody else allocated the page, at `free_kpages`. -/
  | surplus (sz blktype prpage r b va : ℕ)
  /-- `allocpagerefpage`, after that `free_kpages`, at `spinlock_acquire`. -/
  | surplusFreed (sz blktype prpage r b : ℕ)
  /-- `subpage_kmalloc`, without a pageref, at `free_kpages`. -/
  | giveUp (prpage : ℕ)
  /-- `kmalloc`, at `alloc_kpages`. -/
  | wantBig (sz : ℕ)
  /-- `kfree` or `subpage_kfree`, at `free_kpages`. -/
  | freePage (addr : ℕ)
  deriving DecidableEq

/-- A block a client has: what `kmalloc` answered, and for which size. -/
structure Block where
  addr : ℕ
  size : ℕ
  deriving DecidableEq

/-- The heap, the page allocator and the threads. -/
structure State (T : Type) where
  heap : Heap
  pager : Pager
  pc : T → Pc
  /-- The blocks that were handed to clients and not freed. -/
  live : List Block
  /-- The calls of `alloc_kpages` whose region came too late to be a pageref page. -/
  lost : List ℕ

/-- A machine that runs, or one that stopped in a panic. -/
inductive Config (T : Type) where
  | running (s : State T)
  | trapped (e : Trap)

/-- What can happen next. -/
inductive Action (T : Type) where
  /-- Thread `t` calls `kmalloc(sz)`. -/
  | kmalloc (t : T) (sz : ℕ)
  /-- Thread `t` calls `kfree(ptr)`. -/
  | kfree (t : T) (ptr : ℕ)
  /-- Thread `t` goes on; if it is at `alloc_kpages`, that answers `va`. -/
  | run (t : T) (va : ℕ)
  /-- Somebody stores a word in memory that is its own. -/
  | store (addr val : ℕ)

variable [DecidableEq T]

namespace State

/-- Move thread `t` to `p`. -/
def goto (s : State T) (t : T) (p : Pc) : State T := { s with pc := Function.update s.pc t p }

/-- `kmalloc(sz)` returns `ptr` to the thread `t`. -/
def ret (s : State T) (t : T) (sz ptr : ℕ) : State T :=
  { s with live := if ptr = 0 then s.live else ⟨ptr, sz⟩ :: s.live }.goto t .idle

/-- The number of pages `kmalloc` asks for. -/
def npages (sz : ℕ) : ℕ := (sz + pageSize - 1) / pageSize

/-- `subpage_kmalloc`, up to its first release of the spinlock. -/
def subpageKmalloc (s : State T) (t : T) (sz : ℕ) : Except Trap (State T) := do
  let blktype ← blocktype sz
  match ← findPage s.heap blktype with
  | some pr =>
    let (heap, ptr) ← doalloc s.heap pr
    return { s with heap := heap }.ret t sz ptr
  | none => return s.goto t (.wantPage sz blktype)

/-- `subpage_kmalloc` from the return of `allocpageref` with a pageref on. -/
def withPageref (s : State T) (t : T) (sz blktype prpage pr : ℕ) : Except Trap (State T) := do
  let heap ← setupPage s.heap pr prpage blktype
  let (heap, ptr) ← doalloc heap pr
  return { s with heap := heap }.ret t sz ptr

/-- `subpage_kmalloc` once it has a page, up to the next release of the spinlock. -/
def withPage (s : State T) (t : T) (sz blktype prpage : ℕ) : Except Trap (State T) := do
  let (heap, slot) ← allocpageref s.heap
  let s := { s with heap := heap }
  match slot with
  | .ranOut => return s.goto t (.giveUp prpage)
  | .ready r b => s.withPageref t sz blktype prpage (s.heap.refAddr r b)
  | .needsPage r b =>
    kassert ((s.heap.kheaproots r).page = 0) .pagePresent
    return s.goto t (.wantRefpage sz blktype prpage r b)

/-- `allocpagerefpage` after `alloc_kpages`, and what follows it, up to the next release of the
spinlock. -/
def withRefpage (s : State T) (t : T) (sz blktype prpage r b va : ℕ) :
    Except Trap (State T) := do
  let root := s.heap.kheaproots r
  if va = 0 then
    if root.page = 0 then return s.goto t (.giveUp prpage)
    else s.withPageref t sz blktype prpage (s.heap.refAddr r b)
  else
    kassert (va % pageSize = 0) .refpageAlign
    if root.page ≠ 0 then
      return { s with lost := (s.pager.find va).toList ++ s.lost }.goto t
        (.surplus sz blktype prpage r b va)
    else
      let s := { s with heap := s.heap.setRoot r { root with page := va } }
      s.withPageref t sz blktype prpage (s.heap.refAddr r b)

/-- `free_kpages(addr)` by thread `t`, which is at `p` afterwards. -/
def releasing (s : State T) (t : T) (addr : ℕ) (p : Pc) : Except Trap (State T) := do
  let pager ← s.pager.freeKpages addr
  return { s with pager := pager }.goto t p

/-- The next step of thread `t`, which is not at `alloc_kpages`. -/
def next (s : State T) (t : T) : Except Trap (State T) :=
  match s.pc t with
  | .havePage sz blktype prpage => do
    kassert (prpage % pageSize = 0) .pageAlign
    s.withPage t sz blktype prpage
  | .gotRefpage sz blktype prpage r b va => s.withRefpage t sz blktype prpage r b va
  | .surplus sz blktype prpage r b va =>
    s.releasing t va (.surplusFreed sz blktype prpage r b)
  | .surplusFreed sz blktype prpage r b => do
    kassert ((s.heap.kheaproots r).page ≠ 0) .pageGone
    s.withPageref t sz blktype prpage (s.heap.refAddr r b)
  | .giveUp prpage => s.releasing t prpage .idle
  | .freePage addr => s.releasing t addr .idle
  | _ => .ok s

/-- If a thread is at `alloc_kpages`: for how many pages, and where it goes on after the answer. -/
def asking (s : State T) (t : T) : Option (ℕ × (ℕ → State T → Except Trap (State T))) :=
  match s.pc t with
  | .wantPage sz blktype => some (1, fun va s =>
      if va = 0 then .ok (s.goto t .idle) else .ok (s.goto t (.havePage sz blktype va)))
  | .wantRefpage sz blktype prpage r b => some (1, fun va s =>
      .ok (s.goto t (.gotRefpage sz blktype prpage r b va)))
  | .wantBig sz => some (npages sz, fun va s =>
      if va = 0 then .ok (s.ret t sz 0)
      else do
        kassert (va % pageSize = 0) .bigAlign
        return s.ret t sz va)
  | _ => none

/-- `kfree`, up to the release of the spinlock. The block is no longer live. -/
def kfree (s : State T) (t : T) (ptr : ℕ) : Except Trap (State T) := do
  if ptr = 0 then return s
  else
    let (heap, freed) ← subpageKfree s.heap ptr
    let s := { s with heap := heap, live := s.live.filter fun x => x.addr ≠ ptr }
    match freed with
    | .done => return s
    | .page prpage => return s.goto t (.freePage prpage)
    | .notOurs =>
      kassert (ptr % pageSize = 0) .kfreeAlign
      return s.goto t (.freePage ptr)

/-- Memory of somebody outside this file: of a live block, or outside everything the page allocator
handed out. -/
def Storable (s : State T) (addr : ℕ) : Prop :=
  addr % 4 = 0 ∧ ((∃ x ∈ s.live, x.addr ≤ addr ∧ addr < x.addr + x.size) ∨
    ∀ n < s.pager.count, s.pager.frees n = 0 →
      addr < (s.pager.region n).addr ∨ (s.pager.region n).fin ≤ addr)

instance (s : State T) (addr : ℕ) : Decidable (s.Storable addr) :=
  inferInstanceAs (Decidable (_ ∧ (_ ∨ _)))

/-- One step, of a machine that runs. -/
def step (s : State T) : Action T → Option (Except Trap (State T))
  | .kmalloc t sz =>
    -- the size is such that rounding it up to pages does not overflow
    if s.pc t = .idle ∧ sz + (pageSize - 1) < 2 ^ 32 then
      if largestSubpageSize ≤ sz then some (.ok (s.goto t (.wantBig sz)))
      else some (s.subpageKmalloc t sz)
    else none
  | .kfree t ptr =>
    if s.pc t = .idle ∧ (ptr = 0 ∨ ∃ x ∈ s.live, x.addr = ptr) then some (s.kfree t ptr)
    else none
  | .run t va =>
    match s.asking t with
    | some (npages, k) =>
      if va = 0 then some (k va s)
      else if s.pager.MayGive ⟨va, npages⟩ then
        some (k va { s with pager := s.pager.give ⟨va, npages⟩ })
      else none
    | none => if s.pc t = .idle then none else some (s.next t)
  | .store addr val =>
    if s.Storable addr then
      some (.ok { s with heap := { s.heap with mem := Function.update s.heap.mem addr val } })
    else none

end State

/-- Any number of threads, from the start: nothing is handed out and no list has an element. The
memory is arbitrary. -/
def system (T : Type) [DecidableEq T] : TransitionSystem (Config T) (Action T) where
  init c := ∃ mem refs region frees, c = .running
    { heap := { mem, refs, kheaproots := fun _ => ⟨0, fun _ => 0, 0⟩, sizebases := fun _ => 0,
                allbase := 0 }
      pager := ⟨0, region, frees⟩
      pc := fun _ => .idle
      live := []
      lost := [] }
  step c a := match c with
    | .trapped _ => none
    | .running s => (s.step a).map fun r => match r with
      | .ok s => .running s
      | .error e => .trapped e

end Kmalloc

end Os161
