import Os161.Lib.Linked
import Os161.Lib.Refinement
import Mathlib.Data.List.Nodup
import Mathlib.Data.List.Perm.Subperm
import Mathlib.Algebra.GroupWithZero.Nat

/-!
# Thread lists

A thread list has a node at each end that is always on the list, and each thread has one node. So
the neighbours of a node on a list are there in every case, and to add or remove a thread is to
change four pointers. The number of threads is kept next to the list.

## Main definitions

* `Threadlist.Heap` — the nodes of all lists and all threads
* `Threadlist.lists` — what the lists are for
* `Threadlist.Holds` — how the nodes of a list are linked

## Main results

* `Threadlist.Holds.insert`, `Threadlist.Holds.unlink` — a thread goes on a list, and off it
* `Threadlist.threadlist_refines` — the thread lists are lists of threads
-/

namespace Os161

namespace Threadlist

open Function

/-- A pointer to a `struct thread`. -/
abbrev Thread := {t : UInt32 // t ≠ 0}

/-- The nodes of the lists in `L`, and those of the threads. -/
inductive Node (L : Type) where
  /-- `&tl->tl_head`. -/
  | head (tl : L)
  /-- `&tl->tl_tail`. -/
  | tail (tl : L)
  /-- `&t->t_listnode`. -/
  | thread (t : Thread)
  deriving DecidableEq

/-- The memory. -/
@[ext]
structure Heap (L : Type) where
  /-- `tln_next` and `tln_prev`. -/
  links : Links (Node L)
  tln_self : Node L → Option Thread
  tl_count : L → UInt32

variable {L : Type} [DecidableEq L]

namespace Heap

/-- `x->tln_next = y`. -/
def setNext (h : Heap L) (x : Node L) (y : Option (Node L)) : Heap L :=
  { h with links := { h.links with next := update h.links.next x y } }

/-- `x->tln_prev = y`. -/
def setPrev (h : Heap L) (x : Node L) (y : Option (Node L)) : Heap L :=
  { h with links := { h.links with prev := update h.links.prev x y } }

def setSelf (h : Heap L) (x : Node L) (t : Option Thread) : Heap L :=
  { h with tln_self := update h.tln_self x t }

def setCount (h : Heap L) (tl : L) (n : UInt32) : Heap L :=
  { h with tl_count := update h.tl_count tl n }

end Heap

def node_init (h : Heap L) (t : Thread) : Heap L :=
  ((h.setNext (.thread t) none).setPrev (.thread t) none).setSelf (.thread t) (some t)

def init (h : Heap L) (tl : L) : Heap L :=
  let h := h.setNext (.head tl) (some (.tail tl))
  let h := h.setPrev (.head tl) none
  let h := h.setNext (.tail tl) none
  let h := h.setPrev (.tail tl) (some (.head tl))
  let h := h.setSelf (.head tl) none
  let h := h.setSelf (.tail tl) none
  h.setCount tl 0

/-- Without a result if a null pointer is followed. -/
def insertafternode (h : Heap L) (onlist : Node L) (t : Thread) : Option (Heap L) := do
  let addee := .thread t
  let h := h.setPrev addee (some onlist)
  let h := h.setNext addee (h.links.next onlist)
  let h := h.setNext (← h.links.prev addee) (some addee)
  return h.setPrev (← h.links.next addee) (some addee)

def insertbeforenode (h : Heap L) (t : Thread) (onlist : Node L) : Option (Heap L) := do
  let addee := .thread t
  let h := h.setPrev addee (h.links.prev onlist)
  let h := h.setNext addee (some onlist)
  let h := h.setNext (← h.links.prev addee) (some addee)
  return h.setPrev (← h.links.next addee) (some addee)

def removenode (h : Heap L) (tln : Node L) : Option (Heap L) := do
  let h := h.setNext (← h.links.prev tln) (h.links.next tln)
  let h := h.setPrev (← h.links.next tln) (h.links.prev tln)
  let h := h.setPrev tln none
  return h.setNext tln none

/-- `tl->tl_count++`. -/
def Heap.incr (h : Heap L) (tl : L) : Heap L := h.setCount tl (h.tl_count tl + 1)

/-- `tl->tl_count--`. -/
def Heap.decr (h : Heap L) (tl : L) : Heap L := h.setCount tl (h.tl_count tl - 1)

def addhead (h : Heap L) (tl : L) (t : Thread) : Option (Heap L) := do
  let h ← insertafternode h (.head tl) t
  return h.incr tl

def addtail (h : Heap L) (tl : L) (t : Thread) : Option (Heap L) := do
  let h ← insertbeforenode h t (.tail tl)
  return h.incr tl

def remhead (h : Heap L) (tl : L) : Option (Option Thread × Heap L) := do
  let tln ← h.links.next (.head tl)
  if h.links.next tln = none then
    return (none, h)
  let h ← removenode h tln
  let h := h.decr tl
  return (h.tln_self tln, h)

def remtail (h : Heap L) (tl : L) : Option (Option Thread × Heap L) := do
  let tln ← h.links.prev (.tail tl)
  if h.links.prev tln = none then
    return (none, h)
  let h ← removenode h tln
  let h := h.decr tl
  return (h.tln_self tln, h)

def insertafter (h : Heap L) (tl : L) (onlist addee : Thread) : Option (Heap L) := do
  let h ← insertafternode h (.thread onlist) addee
  return h.incr tl

def insertbefore (h : Heap L) (tl : L) (addee onlist : Thread) : Option (Heap L) := do
  let h ← insertbeforenode h addee (.thread onlist)
  return h.incr tl

def remove (h : Heap L) (tl : L) (t : Thread) : Option (Heap L) := do
  let h ← removenode h (.thread t)
  return h.decr tl

/-- The rest of `THREADLIST_FORALL`, from `itervar` on: the threads it comes to, if it ends within
`fuel` rounds. -/
def forallFrom (h : Heap L) : ℕ → Option Thread → Option (List Thread)
  | _, none => some []
  | 0, some _ => none
  | fuel + 1, some itervar => do
      let l ← forallFrom h fuel (h.tln_self (← h.links.next (.thread itervar)))
      return itervar :: l

/-- `THREADLIST_FORALL`. -/
def forAll (h : Heap L) (fuel : ℕ) (tl : L) : Option (List Thread) := do
  forallFrom h fuel (h.tln_self (← h.links.next (.head tl)))

/-- The rest of `THREADLIST_FORALL_REV`. -/
def forallRevFrom (h : Heap L) : ℕ → Option Thread → Option (List Thread)
  | _, none => some []
  | 0, some _ => none
  | fuel + 1, some itervar => do
      let l ← forallRevFrom h fuel (h.tln_self (← h.links.prev (.thread itervar)))
      return itervar :: l

/-- `THREADLIST_FORALL_REV`. -/
def forAllRev (h : Heap L) (fuel : ℕ) (tl : L) : Option (List Thread) := do
  forallRevFrom h fuel (h.tln_self (← h.links.prev (.tail tl)))

/-! ### What the lists are for -/

/-- The operations. -/
inductive Op (L : Type) where
  | addhead (tl : L) (t : Thread)
  | addtail (tl : L) (t : Thread)
  | remhead (tl : L)
  | remtail (tl : L)
  | insertafter (tl : L) (onlist addee : Thread)
  | insertbefore (tl : L) (addee onlist : Thread)
  | remove (tl : L) (t : Thread)

/-- What an operation returns. -/
inductive Result where
  | done
  | thread (t : Option Thread)
  /-- A null pointer was followed. -/
  | fault

/-- One operation. -/
def apply (h : Heap L) (op : Op L) : Heap L × Result :=
  let run : Option (Result × Heap L) :=
    match op with
    | .addhead tl t => (addhead h tl t).map (.done, ·)
    | .addtail tl t => (addtail h tl t).map (.done, ·)
    | .remhead tl => (remhead h tl).map fun (t, h) => (.thread t, h)
    | .remtail tl => (remtail h tl).map fun (t, h) => (.thread t, h)
    | .insertafter tl onlist addee => (insertafter h tl onlist addee).map (.done, ·)
    | .insertbefore tl addee onlist => (insertbefore h tl addee onlist).map (.done, ·)
    | .remove tl t => (remove h tl t).map (.done, ·)
  match run with
  | some (result, h) => (h, result)
  | none => (h, .fault)

/-- `t` after `s`. -/
def after (s t : Thread) : List Thread → List Thread
  | [] => []
  | u :: l => if u = s then u :: t :: l else u :: after s t l

/-- `t` before `s`. -/
def before (s t : Thread) : List Thread → List Thread
  | [] => []
  | u :: l => if u = s then t :: u :: l else u :: before s t l

/-- The thread is on no list. -/
def Off (a : L → List Thread) (t : Thread) : Prop := ∀ tl, t ∉ a tl

/-- Lists of threads, none on two of them. -/
def lists : Spec (L → List Thread) (Op L) Result where
  pre a
    | .addhead _ t => Off a t
    | .addtail _ t => Off a t
    | .remhead _ => True
    | .remtail _ => True
    | .insertafter tl onlist addee => onlist ∈ a tl ∧ Off a addee
    | .insertbefore tl addee onlist => onlist ∈ a tl ∧ Off a addee
    | .remove tl t => t ∈ a tl
  post a
    | .remhead tl, result => result = .thread (a tl).head?
    | .remtail tl, result => result = .thread (a tl).getLast?
    | _, result => result = .done
  next a
    | .addhead tl t, _ => update a tl (t :: a tl)
    | .addtail tl t, _ => update a tl (a tl ++ [t])
    | .remhead tl, _ => update a tl (a tl).tail
    | .remtail tl, _ => update a tl (a tl).dropLast
    | .insertafter tl onlist addee, _ => update a tl (after onlist addee (a tl))
    | .insertbefore tl addee onlist, _ => update a tl (before onlist addee (a tl))
    | .remove tl t, _ => update a tl ((a tl).erase t)

/-- The memory stands for the lists `a`. -/
structure Represents (h : Heap L) (a : L → List Thread) : Prop where
  forAll : ∀ tl fuel, (a tl).length ≤ fuel → forAll h fuel tl = some (a tl)
  forAllRev : ∀ tl fuel, (a tl).length ≤ fuel → forAllRev h fuel tl = some (a tl).reverse
  count : ∀ tl, (h.tl_count tl).toNat = (a tl).length
  off : ∀ t, Off a t → h.links.next (.thread t) = none ∧ h.links.prev (.thread t) = none

/-! ### How the nodes are linked -/

/-- The nodes of a list, in order. -/
def nodes (tl : L) (l : List Thread) : List (Node L) :=
  .head tl :: (l.map .thread ++ [.tail tl])

/-- The thread that the node is in. -/
def owner : Node L → Option Thread
  | .thread t => some t
  | _ => none

/-- No thread is on a list twice, and none is on two lists. -/
structure Apart (a : L → List Thread) : Prop where
  nodup : ∀ tl, (a tl).Nodup
  eq : ∀ tl tl' t, t ∈ a tl → t ∈ a tl' → tl = tl'

/-- The nodes of each list are linked, and what is on no list is linked to nothing. -/
structure Holds (h : Heap L) (a : L → List Thread) : Prop where
  chain : ∀ tl, (nodes tl (a tl)).IsChain h.links.Linked
  head : ∀ tl, h.links.prev (.head tl) = none
  tail : ∀ tl, h.links.next (.tail tl) = none
  self : ∀ x, h.tln_self x = owner x
  count : ∀ tl, (h.tl_count tl).toNat = (a tl).length
  apart : Apart a
  off : ∀ t, Off a t → h.links.next (.thread t) = none ∧ h.links.prev (.thread t) = none

/-- The node before what comes after `A`. -/
def lastNode (tl : L) (A : List Thread) : Node L := A.getLast?.elim (.head tl) .thread

/-- The node after what comes before `B`. -/
def firstNode (tl : L) (B : List Thread) : Node L := B.head?.elim (.tail tl) .thread

section

variable {h : Heap L} {a : L → List Thread} {tl tl' : L} {t : Thread} {A B l : List Thread}
  {x y z : Node L} {fuel : ℕ}

omit [DecidableEq L]

theorem exists_nodes_append (tl : L) (A B : List Thread) : ∃ P Q, ∀ C,
    nodes tl (A ++ C ++ B) = P ++ lastNode tl A :: (C.map .thread ++ firstNode tl B :: Q) := by
  have hB : ∃ Q, B.map .thread ++ [.tail tl] = firstNode tl B :: Q := by
    cases B with
    | nil => exact ⟨[], rfl⟩
    | cons b B => exact ⟨B.map .thread ++ [.tail tl], rfl⟩
  have hA : ∃ P, .head tl :: A.map .thread = P ++ [lastNode tl A] := by
    rcases List.eq_nil_or_concat A with rfl | ⟨A, b, rfl⟩
    · exact ⟨[], rfl⟩
    · exact ⟨.head tl :: A.map .thread, by simp [lastNode]⟩
  obtain ⟨Q, hQ⟩ := hB
  obtain ⟨P, hP⟩ := hA
  refine ⟨P, Q, fun C => ?_⟩
  calc nodes tl (A ++ C ++ B)
      = (.head tl :: A.map .thread) ++ (C.map .thread ++ (B.map .thread ++ [.tail tl])) := by
        simp [nodes]
    _ = P ++ lastNode tl A :: (C.map .thread ++ firstNode tl B :: Q) := by
        rw [hQ, hP]
        simp

theorem exists_nodes (tl : L) (A B : List Thread) :
    ∃ P Q, nodes tl (A ++ B) = P ++ lastNode tl A :: firstNode tl B :: Q := by
  obtain ⟨P, Q, hnodes⟩ := exists_nodes_append tl A B
  exact ⟨P, Q, by simpa using hnodes []⟩

theorem lastNode_mem (tl : L) (A B : List Thread) : lastNode tl A ∈ nodes tl (A ++ B) := by
  obtain ⟨P, Q, hnodes⟩ := exists_nodes tl A B
  simp [hnodes]

theorem firstNode_mem (tl : L) (A B : List Thread) : firstNode tl B ∈ nodes tl (A ++ B) := by
  obtain ⟨P, Q, hnodes⟩ := exists_nodes tl A B
  simp [hnodes]

theorem lastNode_ne_tail : lastNode tl A ≠ .tail tl' := by
  cases hA : A.getLast? <;> simp [lastNode, hA]

theorem firstNode_ne_head : firstNode tl B ≠ .head tl' := by
  cases hB : B.head? <;> simp [firstNode, hB]

@[simp]
theorem thread_mem_nodes : .thread t ∈ nodes tl l ↔ t ∈ l := by
  simp [nodes]

@[simp]
theorem head_mem_nodes : .head tl' ∈ nodes tl l ↔ tl' = tl := by
  simp [nodes]

@[simp]
theorem tail_mem_nodes : .tail tl' ∈ nodes tl l ↔ tl' = tl := by
  simp [nodes]

theorem nodup_nodes (hl : l.Nodup) : (nodes tl l).Nodup := by
  rw [nodes, List.nodup_cons]
  refine ⟨by simp, List.Nodup.append ?_ (List.nodup_singleton _) (by simp)⟩
  exact hl.map fun _ _ h => Node.thread.inj h

theorem Holds.nodes_apart (hh : Holds h a) (hx : x ∈ nodes tl (a tl))
    (hx' : x ∈ nodes tl' (a tl')) : tl = tl' := by
  cases x with
  | head tl'' => rw [← head_mem_nodes.mp hx, ← head_mem_nodes.mp hx']
  | tail tl'' => rw [← tail_mem_nodes.mp hx, ← tail_mem_nodes.mp hx']
  | thread t => exact hh.apart.eq tl tl' t (thread_mem_nodes.mp hx) (thread_mem_nodes.mp hx')

theorem ne_thread_of_off (ht : Off a t) (hx : x ∈ nodes tl (a tl)) : x ≠ .thread t :=
  ne_of_mem_of_not_mem hx fun hmem => ht tl (thread_mem_nodes.mp hmem)

/-- The threads are told apart by their addresses, of which one is not used. -/
theorem length_lt_of_nodup (hl : l.Nodup) : l.length < 2 ^ 32 := by
  have hinj : Injective fun t : Thread => t.1.toNat :=
    fun t u htu => Subtype.ext (UInt32.toNat_inj.mp htu)
  have hsub : l.map (fun t => t.1.toNat) ⊆ List.range' 1 (2 ^ 32 - 1) := by
    intro n hn
    obtain ⟨t, -, rfl⟩ := List.mem_map.mp hn
    have hpos : t.1.toNat ≠ 0 := fun h0 => t.2 (UInt32.toNat_inj.mp h0)
    have hlt := t.1.toNat_lt
    rw [List.mem_range'_1]
    omega
  have hle := ((hl.map hinj).subperm hsub).length_le
  rw [List.length_map, List.length_range'] at hle
  omega

/-! ### Going over a list -/

theorem forallFrom_next (hself : ∀ x, h.tln_self x = owner x) (hz : owner z = none)
    (hl : (x :: (l.map .thread ++ [z])).IsChain h.links.Linked) (hfuel : l.length ≤ fuel) :
    (do forallFrom h fuel (h.tln_self (← h.links.next x))) = some l := by
  induction l generalizing x fuel with
  | nil =>
    have hnext : h.links.next x = some z := (List.isChain_cons_cons.mp hl).1.1
    simp [hnext, hself, hz, forallFrom]
  | cons t l ih =>
    obtain ⟨hxt, hl⟩ := List.isChain_cons_cons.mp hl
    cases fuel with
    | zero => simp at hfuel
    | succ fuel =>
      have hrest := ih hl (Nat.le_of_succ_le_succ hfuel)
      have hself : h.tln_self (.thread t) = some t := hself _
      simp only [hxt.1, Option.bind_eq_bind, Option.bind_some, hself, forallFrom]
      rw [← Option.bind_assoc]
      simp only [Option.bind_eq_bind] at hrest
      rw [hrest]
      rfl

/-- The other way around. -/
def Heap.swap (h : Heap L) : Heap L := { h with links := h.links.swap }

theorem forallRevFrom_eq (h : Heap L) (fuel : ℕ) (t : Option Thread) :
    forallRevFrom h fuel t = forallFrom h.swap fuel t := by
  induction fuel generalizing t with
  | zero => cases t <;> rfl
  | succ fuel ih =>
    cases t with
    | none => rfl
    | some t =>
      simp only [forallRevFrom, forallFrom, ih]
      rfl

theorem nodes_reverse (tl : L) (l : List Thread) :
    (nodes tl l).reverse = .tail tl :: (l.reverse.map .thread ++ [.head tl]) := by
  simp [nodes]

theorem Holds.represents (hh : Holds h a) : Represents h a where
  forAll tl fuel hfuel := forallFrom_next hh.self rfl (hh.chain tl) hfuel
  forAllRev tl fuel hfuel := by
    have hchain := Links.isChain_swap.mpr (hh.chain tl)
    rw [nodes_reverse] at hchain
    rw [← List.length_reverse] at hfuel
    have hrev := forallFrom_next (h := h.swap) hh.self rfl hchain hfuel
    rw [← hrev, Threadlist.forAllRev]
    simp only [forallRevFrom_eq]
    rfl
  count := hh.count
  off := hh.off

end

/-! ### Lists that share no thread -/

section

variable {a : L → List Thread} {tl : L} {t u : Thread} {A B : List Thread}

theorem mem_update_insert (hl : a tl = A ++ B) (tl' : L) (u : Thread) :
    u ∈ update a tl (A ++ t :: B) tl' ↔ u ∈ a tl' ∨ tl' = tl ∧ u = t := by
  by_cases htl : tl' = tl
  · subst htl
    rw [update_self, hl]
    simp
    tauto
  · simp [htl]

theorem off_insert (hl : a tl = A ++ B) :
    Off (update a tl (A ++ t :: B)) u ↔ Off a u ∧ u ≠ t := by
  simp only [Off, mem_update_insert hl, not_or, not_and, forall_and]
  exact and_congr_right' ⟨fun h => h tl rfl, fun h _ _ => h⟩

theorem Apart.insert (ha : Apart a) (ht : Off a t) (hl : a tl = A ++ B) :
    Apart (update a tl (A ++ t :: B)) where
  nodup tl' := by
    by_cases htl : tl' = tl
    · subst htl
      rw [update_self, List.perm_middle.nodup_iff, ← hl]
      exact List.nodup_cons.mpr ⟨ht tl', ha.nodup tl'⟩
    · rw [update_of_ne htl]
      exact ha.nodup tl'
  eq tl' tl'' u hu hu' := by
    rw [mem_update_insert hl] at hu hu'
    rcases hu with hu | ⟨rfl, rfl⟩
    · rcases hu' with hu' | ⟨rfl, rfl⟩
      · exact ha.eq tl' tl'' u hu hu'
      · exact absurd hu (ht tl')
    · rcases hu' with hu' | ⟨rfl, -⟩
      · exact absurd hu' (ht tl'')
      · rfl

theorem mem_update_remove (ha : Apart a) (hl : a tl = A ++ t :: B) (tl' : L) (u : Thread) :
    u ∈ update a tl (A ++ B) tl' ↔ u ∈ a tl' ∧ u ≠ t := by
  have hnd := ha.nodup tl
  rw [hl, List.perm_middle.nodup_iff, List.nodup_cons] at hnd
  by_cases htl : tl' = tl
  · subst htl
    rw [update_self, hl, List.perm_middle.mem_iff, List.mem_cons]
    constructor
    · exact fun hu => ⟨.inr hu, ne_of_mem_of_not_mem hu hnd.1⟩
    · rintro ⟨rfl | hu, hut⟩
      · exact absurd rfl hut
      · exact hu
  · rw [update_of_ne htl]
    refine ⟨fun hu => ⟨hu, ?_⟩, And.left⟩
    rintro rfl
    exact htl (ha.eq tl' tl u hu (by simp [hl]))

theorem off_remove (ha : Apart a) (hl : a tl = A ++ t :: B) :
    Off (update a tl (A ++ B)) u ↔ Off a u ∨ u = t := by
  simp only [Off, mem_update_remove ha hl, not_and, not_not]
  constructor
  · intro h
    by_cases hut : u = t
    · exact .inr hut
    · exact .inl fun tl' hu => hut (h tl' hu)
  · rintro (h | hut) tl' hu
    · exact absurd hu (h tl')
    · exact hut

theorem Apart.remove (ha : Apart a) (hl : a tl = A ++ t :: B) :
    Apart (update a tl (A ++ B)) where
  nodup tl' := by
    by_cases htl : tl' = tl
    · subst htl
      have hnd := ha.nodup tl'
      rw [hl, List.perm_middle.nodup_iff, List.nodup_cons] at hnd
      rw [update_self]
      exact hnd.2
    · rw [update_of_ne htl]
      exact ha.nodup tl'
  eq tl' tl'' u hu hu' := by
    rw [mem_update_remove ha hl] at hu hu'
    exact ha.eq tl' tl'' u hu.1 hu'.1

end

/-! ### The pointers that change -/

section

variable {h h' : Heap L} {a : L → List Thread} {tl : L} {s t : Thread} {A B l : List Thread}
  {x y : Node L}

theorem insertafternode_eq (hxy : h.links.Linked x y) (hx : x ≠ .thread t) :
    insertafternode h x t = some { h with links := h.links.insert x (.thread t) y } := by
  simp [insertafternode, Heap.setNext, Heap.setPrev, Links.insert, hxy.1, hx.symm]

theorem insertbeforenode_eq (hxy : h.links.Linked x y) (hx : x ≠ .thread t) :
    insertbeforenode h t y = some { h with links := h.links.insert x (.thread t) y } := by
  simp [insertbeforenode, Heap.setNext, Heap.setPrev, Links.insert, hxy.2, hx.symm]

theorem removenode_eq (hx : h.links.Linked x (.thread t)) (hy : h.links.Linked (.thread t) y)
    (hxt : x ≠ .thread t) :
    removenode h (.thread t) = some { h with links := h.links.unlink x (.thread t) y } := by
  simp [removenode, Heap.setNext, Heap.setPrev, Links.unlink, hx.2, hy.1, hxt.symm]

/-- **A thread goes on a list**, after `A` and before `B`. -/
theorem Holds.insert (hh : Holds h a) (ht : Off a t) (hl : a tl = A ++ B) :
    Holds (Heap.incr { h with
        links := h.links.insert (lastNode tl A) (.thread t) (firstNode tl B) } tl)
      (update a tl (A ++ t :: B)) := by
  have hlast : lastNode tl A ∈ nodes tl (a tl) := hl ▸ lastNode_mem tl A B
  have hfirst : firstNode tl B ∈ nodes tl (a tl) := hl ▸ firstNode_mem tl A B
  have hoff : ∀ tl', .thread t ∉ nodes tl' (a tl') :=
    fun tl' hmem => ht tl' (thread_mem_nodes.mp hmem)
  have hnew := hh.apart.insert ht hl
  refine ⟨fun tl' => ?_, fun tl' => ?_, fun tl' => ?_, hh.self, fun tl' => ?_, hnew, fun u hu => ?_⟩
  · by_cases htl : tl' = tl
    · subst htl
      obtain ⟨P, Q, hnodes⟩ := exists_nodes_append tl' A B
      have hold : nodes tl' (a tl') = P ++ lastNode tl' A :: firstNode tl' B :: Q := by
        simpa [hl] using hnodes []
      have hnext : nodes tl' (A ++ t :: B) =
          P ++ lastNode tl' A :: .thread t :: firstNode tl' B :: Q := by
        simpa using hnodes [t]
      rw [update_self, hnext]
      exact Links.isChain_insert (hold ▸ nodup_nodes (hh.apart.nodup tl')) (hold ▸ hoff tl')
        (hold ▸ hh.chain tl')
    · rw [update_of_ne htl]
      refine Links.isChain_insert_of_not_mem ?_ (hoff tl') ?_ (hh.chain tl')
      · exact fun hz => htl (hh.nodes_apart hz hlast)
      · exact fun hz => htl (hh.nodes_apart hz hfirst)
  · exact (Links.insert_prev_of_ne firstNode_ne_head.symm (by simp)).trans (hh.head tl')
  · exact (Links.insert_next_of_ne lastNode_ne_tail.symm (by simp)).trans (hh.tail tl')
  · by_cases htl : tl' = tl
    · subst htl
      have hlt := length_lt_of_nodup (hnew.nodup tl')
      have hlen : (A ++ t :: B).length = (h.tl_count tl').toNat + 1 := by
        rw [hh.count, hl, List.perm_middle.length_eq, List.length_cons]
      simp only [Heap.incr, Heap.setCount, update_self, UInt32.toNat_add] at hlt ⊢
      rw [hlen] at hlt ⊢
      exact Nat.mod_eq_of_lt hlt
    · simpa [Heap.incr, Heap.setCount, update_of_ne htl] using hh.count tl'
  · obtain ⟨hold, hut⟩ := (off_insert hl).mp hu
    have hne : (.thread u : Node L) ≠ .thread t := fun h => hut (Node.thread.inj h)
    exact ⟨(Links.insert_next_of_ne (ne_thread_of_off hold hlast).symm hne).trans (hh.off u hold).1,
      (Links.insert_prev_of_ne (ne_thread_of_off hold hfirst).symm hne).trans (hh.off u hold).2⟩

/-- **A thread comes off a list**, from between `A` and `B`. -/
theorem Holds.unlink (hh : Holds h a) (hl : a tl = A ++ t :: B) :
    Holds (Heap.decr { h with
        links := h.links.unlink (lastNode tl A) (.thread t) (firstNode tl B) } tl)
      (update a tl (A ++ B)) := by
  obtain ⟨P, Q, hnodes⟩ := exists_nodes_append tl A B
  have hold : nodes tl (a tl) = P ++ lastNode tl A :: .thread t :: firstNode tl B :: Q := by
    simpa [hl] using hnodes [t]
  have hlast : lastNode tl A ∈ nodes tl (a tl) := by simp [hold]
  have hfirst : firstNode tl B ∈ nodes tl (a tl) := by simp [hold]
  have ht : .thread t ∈ nodes tl (a tl) := by simp [hold]
  refine ⟨fun tl' => ?_, fun tl' => ?_, fun tl' => ?_, hh.self, fun tl' => ?_,
    hh.apart.remove hl, fun u hu => ?_⟩
  · by_cases htl : tl' = tl
    · subst htl
      have hnext : nodes tl' (A ++ B) = P ++ lastNode tl' A :: firstNode tl' B :: Q := by
        simpa using hnodes []
      rw [update_self, hnext]
      exact Links.isChain_unlink (hold ▸ nodup_nodes (hh.apart.nodup tl')) (hold ▸ hh.chain tl')
    · rw [update_of_ne htl]
      refine Links.isChain_unlink_of_not_mem ?_ ?_ ?_ (hh.chain tl')
      · exact fun hz => htl (hh.nodes_apart hz hlast)
      · exact fun hz => htl (hh.nodes_apart hz ht)
      · exact fun hz => htl (hh.nodes_apart hz hfirst)
  · exact (Links.unlink_prev_of_ne firstNode_ne_head.symm (by simp)).trans (hh.head tl')
  · exact (Links.unlink_next_of_ne lastNode_ne_tail.symm (by simp)).trans (hh.tail tl')
  · by_cases htl : tl' = tl
    · subst htl
      have hlen : (h.tl_count tl').toNat = (A ++ B).length + 1 := by
        rw [hh.count, hl, List.perm_middle.length_eq, List.length_cons]
      have hlt := (h.tl_count tl').toNat_lt
      simp only [Heap.decr, Heap.setCount, update_self, UInt32.toNat_sub, UInt32.toNat_one]
      omega
    · simpa [Heap.decr, Heap.setCount, update_of_ne htl] using hh.count tl'
  · by_cases hut : u = t
    · subst hut
      exact ⟨Links.unlink_next_self, Links.unlink_prev_self⟩
    · have hoff : Off a u := ((off_remove hh.apart hl).mp hu).resolve_right hut
      have hne : (.thread u : Node L) ≠ .thread t := fun h => hut (Node.thread.inj h)
      exact ⟨(Links.unlink_next_of_ne (ne_thread_of_off hoff hlast).symm hne).trans
          (hh.off u hoff).1,
        (Links.unlink_prev_of_ne (ne_thread_of_off hoff hfirst).symm hne).trans (hh.off u hoff).2⟩

/-! ### The operations -/

omit [DecidableEq L] in
theorem Holds.linked (hh : Holds h a) (hl : a tl = A ++ B) :
    h.links.Linked (lastNode tl A) (firstNode tl B) := by
  obtain ⟨P, Q, hnodes⟩ := exists_nodes tl A B
  have hchain := hh.chain tl
  rw [hl, hnodes] at hchain
  exact (List.isChain_append_cons_cons.mp hchain).2.1

omit [DecidableEq L] in
theorem Holds.linked_thread (hh : Holds h a) (hl : a tl = A ++ t :: B) :
    h.links.Linked (lastNode tl A) (.thread t) ∧ h.links.Linked (.thread t) (firstNode tl B) := by
  have hlast : lastNode tl (A ++ [t]) = .thread t := by simp [lastNode]
  have hl' : a tl = (A ++ [t]) ++ B := by rw [hl, List.append_assoc, List.singleton_append]
  exact ⟨hh.linked hl, hlast ▸ hh.linked hl'⟩

theorem Holds.insertafternode_spec (hh : Holds h a) (ht : Off a t) (hl : a tl = A ++ B) :
    ∃ h', insertafternode h (lastNode tl A) t = some h' ∧
      Holds (h'.incr tl) (update a tl (A ++ t :: B)) :=
  ⟨_, insertafternode_eq (hh.linked hl) (ne_thread_of_off ht (hl ▸ lastNode_mem tl A B)),
    hh.insert ht hl⟩

theorem Holds.insertbeforenode_spec (hh : Holds h a) (ht : Off a t) (hl : a tl = A ++ B) :
    ∃ h', insertbeforenode h t (firstNode tl B) = some h' ∧
      Holds (h'.incr tl) (update a tl (A ++ t :: B)) :=
  ⟨_, insertbeforenode_eq (hh.linked hl) (ne_thread_of_off ht (hl ▸ lastNode_mem tl A B)),
    hh.insert ht hl⟩

theorem Holds.removenode_spec (hh : Holds h a) (hl : a tl = A ++ t :: B) :
    ∃ h', removenode h (.thread t) = some h' ∧ Holds (h'.decr tl) (update a tl (A ++ B)) := by
  obtain ⟨hlast, hfirst⟩ := hh.linked_thread hl
  refine ⟨_, removenode_eq hlast hfirst ?_, hh.unlink hl⟩
  have hnd := hh.apart.nodup tl
  rw [hl, List.nodup_append] at hnd
  cases hA : A.getLast? with
  | none => simp [lastNode, hA]
  | some s =>
    have hst : s ≠ t := hnd.2.2 s (List.mem_of_getLast? hA) t List.mem_cons_self
    simpa [lastNode, hA] using hst

theorem after_append (hs : s ∉ A) : after s t (A ++ s :: B) = A ++ s :: t :: B := by
  induction A with
  | nil => simp [after]
  | cons u A ih =>
    obtain ⟨hus, hs⟩ := not_or.mp (List.mem_cons.not.mp hs)
    simp [after, Ne.symm hus, ih hs]

theorem before_append (hs : s ∉ A) : before s t (A ++ s :: B) = A ++ t :: s :: B := by
  induction A with
  | nil => simp [before]
  | cons u A ih =>
    obtain ⟨hus, hs⟩ := not_or.mp (List.mem_cons.not.mp hs)
    simp [before, Ne.symm hus, ih hs]

theorem Holds.addhead_spec (hh : Holds h a) (tl : L) (ht : Off a t) :
    ∃ h', addhead h tl t = some h' ∧ Holds h' (update a tl (t :: a tl)) := by
  obtain ⟨h', heq, hh'⟩ := hh.insertafternode_spec (A := []) ht (List.nil_append (a tl)).symm
  exact ⟨_, by rw [addhead, show Node.head tl = lastNode tl [] from rfl, heq]; rfl, hh'⟩

theorem Holds.addtail_spec (hh : Holds h a) (tl : L) (ht : Off a t) :
    ∃ h', addtail h tl t = some h' ∧ Holds h' (update a tl (a tl ++ [t])) := by
  obtain ⟨h', heq, hh'⟩ := hh.insertbeforenode_spec (B := []) ht (List.append_nil (a tl)).symm
  exact ⟨_, by rw [addtail, show Node.tail tl = firstNode tl [] from rfl, heq]; rfl, hh'⟩

theorem Holds.insertafter_spec (hh : Holds h a) (hs : s ∈ a tl) (ht : Off a t) :
    ∃ h', insertafter h tl s t = some h' ∧ Holds h' (update a tl (after s t (a tl))) := by
  obtain ⟨A, B, hl, hsA⟩ := List.eq_append_cons_of_mem hs
  have hl' : a tl = (A ++ [s]) ++ B := by rw [hl, List.append_assoc, List.singleton_append]
  obtain ⟨h', heq, hh'⟩ := hh.insertafternode_spec ht hl'
  have hlast : lastNode tl (A ++ [s]) = .thread s := by simp [lastNode]
  refine ⟨h'.incr tl, ?_, ?_⟩
  · rw [insertafter, ← hlast, heq]
    rfl
  · rw [hl, after_append hsA]
    simpa using hh'

theorem Holds.insertbefore_spec (hh : Holds h a) (hs : s ∈ a tl) (ht : Off a t) :
    ∃ h', insertbefore h tl t s = some h' ∧ Holds h' (update a tl (before s t (a tl))) := by
  obtain ⟨A, B, hl, hsA⟩ := List.eq_append_cons_of_mem hs
  obtain ⟨h', heq, hh'⟩ := hh.insertbeforenode_spec ht hl
  refine ⟨h'.incr tl, ?_, ?_⟩
  · rw [insertbefore, show Node.thread s = firstNode tl (s :: B) from rfl, heq]
    rfl
  · rw [hl, before_append hsA]
    exact hh'

theorem Holds.remove_spec (hh : Holds h a) (ht : t ∈ a tl) :
    ∃ h', remove h tl t = some h' ∧ Holds h' (update a tl ((a tl).erase t)) := by
  obtain ⟨A, B, hl, htA⟩ := List.eq_append_cons_of_mem ht
  obtain ⟨h', heq, hh'⟩ := hh.removenode_spec hl
  refine ⟨h'.decr tl, ?_, ?_⟩
  · rw [remove, heq]
    rfl
  · rw [hl, List.erase_append_right _ htA, List.erase_cons_head]
    exact hh'

theorem Holds.remhead_spec (hh : Holds h a) (tl : L) :
    ∃ h', remhead h tl = some ((a tl).head?, h') ∧ Holds h' (update a tl (a tl).tail) := by
  cases hl : a tl with
  | nil =>
    have hnext : h.links.next (.head tl) = some (.tail tl) := (hh.linked (A := []) hl).1
    refine ⟨h, ?_, ?_⟩
    · simp [remhead, hnext, hh.tail]
    · rw [List.tail_nil, ← hl, update_eq_self]
      exact hh
  | cons t l =>
    obtain ⟨h', heq, hh'⟩ := hh.removenode_spec (A := []) hl
    obtain ⟨hhead, ht⟩ := hh.linked_thread (A := []) hl
    have hnext : h.links.next (.head tl) = some (.thread t) := hhead.1
    refine ⟨h'.decr tl, ?_, hh'⟩
    simp [remhead, hnext, ht.1, heq, hh'.self, owner]

theorem Holds.remtail_spec (hh : Holds h a) (tl : L) :
    ∃ h', remtail h tl = some ((a tl).getLast?, h') ∧ Holds h' (update a tl (a tl).dropLast) := by
  rcases List.eq_nil_or_concat' (a tl) with hl | ⟨l, t, hl⟩
  · have hprev : h.links.prev (.tail tl) = some (.head tl) := (hh.linked (A := []) (B := []) hl).2
    refine ⟨h, ?_, ?_⟩
    · simp [remtail, hprev, hh.head, hl]
    · rw [hl, List.dropLast_nil, ← hl, update_eq_self]
      exact hh
  · obtain ⟨h', heq, hh'⟩ := hh.removenode_spec (B := []) hl
    obtain ⟨ht, htail⟩ := hh.linked_thread (B := []) hl
    have hprev : h.links.prev (.tail tl) = some (.thread t) := htail.2
    refine ⟨h'.decr tl, ?_, by simpa [hl] using hh'⟩
    simp [remtail, hprev, ht.2, heq, hh'.self, owner, hl]

/-- **One operation.** -/
theorem Holds.apply (hh : Holds h a) (op : Op L) (hpre : lists.pre a op) :
    lists.post a op (apply h op).2 ∧
      Holds (Threadlist.apply h op).1 (lists.next a op (Threadlist.apply h op).2) := by
  cases op with
  | addhead tl t =>
    obtain ⟨h', heq, hh'⟩ := hh.addhead_spec tl hpre
    simpa [Threadlist.apply, heq, lists] using hh'
  | addtail tl t =>
    obtain ⟨h', heq, hh'⟩ := hh.addtail_spec tl hpre
    simpa [Threadlist.apply, heq, lists] using hh'
  | remhead tl =>
    obtain ⟨h', heq, hh'⟩ := hh.remhead_spec tl
    simpa [Threadlist.apply, heq, lists] using hh'
  | remtail tl =>
    obtain ⟨h', heq, hh'⟩ := hh.remtail_spec tl
    simpa [Threadlist.apply, heq, lists] using hh'
  | insertafter tl onlist addee =>
    obtain ⟨h', heq, hh'⟩ := hh.insertafter_spec hpre.1 hpre.2
    simpa [Threadlist.apply, heq, lists] using hh'
  | insertbefore tl addee onlist =>
    obtain ⟨h', heq, hh'⟩ := hh.insertbefore_spec hpre.1 hpre.2
    simpa [Threadlist.apply, heq, lists] using hh'
  | remove tl t =>
    obtain ⟨h', heq, hh'⟩ := hh.remove_spec hpre
    simpa [Threadlist.apply, heq, lists] using hh'

end

/-! ### All of it -/

/-- The memory when each list and each thread's node has been initialised. -/
def started : Heap L where
  links :=
    { next := fun
        | .head tl => some (.tail tl)
        | _ => none
      prev := fun
        | .tail tl => some (.head tl)
        | _ => none }
  tln_self := owner
  tl_count _ := 0

/-- The nodes of a list that has been initialised. -/
theorem init_of_mem (h : Heap L) (tl : L) {x : Node L} (hx : x ∈ nodes tl []) :
    (init h tl).links.next x = started.links.next x ∧
      (init h tl).links.prev x = started.links.prev x ∧
      (init h tl).tln_self x = started.tln_self x := by
  rcases List.mem_pair.mp hx with rfl | rfl <;>
    simp [init, Heap.setNext, Heap.setPrev, Heap.setSelf, Heap.setCount, started, owner]

/-- The node of a thread that has been initialised. -/
theorem node_init_thread (h : Heap L) (t : Thread) :
    (node_init h t).links.next (.thread t) = started.links.next (.thread t) ∧
      (node_init h t).links.prev (.thread t) = started.links.prev (.thread t) ∧
      (node_init h t).tln_self (.thread t) = (started : Heap L).tln_self (.thread t) := by
  simp [node_init, Heap.setNext, Heap.setPrev, Heap.setSelf, started, owner]

/-- It is the memory that no initialisation changes. -/
theorem eq_started_iff {h : Heap L} :
    h = started ↔ (∀ tl, init h tl = h) ∧ ∀ t, node_init h t = h := by
  constructor
  · rintro rfl
    refine ⟨fun tl => ?_, fun t => ?_⟩
    · have hhead : update owner (.head tl) none = owner := update_eq_self (.head tl) owner
      have htail : update owner (.tail tl) none = owner := update_eq_self (.tail tl) owner
      simp [init, Heap.setNext, Heap.setPrev, Heap.setSelf, Heap.setCount, started, hhead, htail]
    · have hself : update owner (.thread t) (some t) = owner :=
        update_eq_self (.thread t : Node L) owner
      simp [node_init, Heap.setNext, Heap.setPrev, Heap.setSelf, started, hself]
  · rintro ⟨hinit, hnode⟩
    have hlinks : ∀ x, h.links.next x = started.links.next x ∧
        h.links.prev x = started.links.prev x ∧ h.tln_self x = started.tln_self x := by
      intro x
      cases x with
      | head tl => simpa only [hinit] using init_of_mem h tl List.mem_cons_self
      | tail tl => simpa only [hinit] using init_of_mem h tl (List.mem_pair.mpr (.inr rfl))
      | thread t => simpa only [hnode] using node_init_thread h t
    have hcount : ∀ tl, h.tl_count tl = 0 := by
      intro tl
      rw [← hinit tl]
      exact update_self ..
    exact Heap.ext (Links.ext (funext fun x => (hlinks x).1) (funext fun x => (hlinks x).2.1))
      (funext fun x => (hlinks x).2.2) (funext hcount)

omit [DecidableEq L] in
theorem holds_started : Holds (started : Heap L) fun _ => [] where
  chain _ := .cons_cons ⟨rfl, rfl⟩ (.singleton _)
  head _ := rfl
  tail _ := rfl
  self _ := rfl
  count _ := rfl
  apart := ⟨fun _ => .nil, fun _ _ _ ht => absurd ht List.not_mem_nil⟩
  off _ _ := ⟨rfl, rfl⟩

/-- **The thread lists** are lists of threads, whatever is done with them, as long as a thread is
put on a list only when it is on none and taken only off the list it is on. -/
theorem threadlist_refines (ops : List (Op L)) :
    Conforms apply lists Represents started (fun _ => []) ops :=
  (conforms_of_step (fun _ _ op hh hpre => Holds.apply hh op hpre) holds_started ops).mono
    fun _ _ hh => hh.represents

end Threadlist

end Os161
