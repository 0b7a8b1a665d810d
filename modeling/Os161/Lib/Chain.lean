import Mathlib.Data.List.Nodup
import Mathlib.Data.List.Basic
import Mathlib.Logic.Function.Basic

/-!
# Null-terminated lists in memory

A list threaded through memory: a pointer to its first node, and a `next` field in each node. The
memory is a function `next`, the null pointer is `0`, and `Chain next p l` says that following
`next` from `p` visits the nodes `l` and ends at null. Nothing else is assumed of the memory, so a
write to it says itself which chains it leaves alone (`Chain.congr`).

The two walks kernels do are here with their specifications: `scan`, a loop over the nodes that may
stop early, and `seek`, the loop with a pointer to a pointer that finds the link to redirect. Both
take fuel, and answer `none` if it runs out; the specifications say how much is enough.

## Main results

* `Chain.unique`, `Chain.nodup` — a chain has one list of nodes, and no node twice
* `scan_eq` — a scan is `List.findSome?` on the nodes
* `seek_spec`, `Chain.redirect` — redirecting the link found removes the node
-/

namespace Os161

variable {α β : Type*} [Zero α]

/-- Following `next` from `p` visits the nodes `l`, in this order, and ends at null. -/
def Chain (next : α → α) : α → List α → Prop
  | p, [] => p = 0
  | p, a :: l => p = a ∧ a ≠ 0 ∧ Chain next (next a) l

variable {next next' : α → α} {p a : α} {l l' : List α}

@[simp] theorem chain_nil : Chain next p [] ↔ p = 0 := Iff.rfl

@[simp] theorem chain_cons : Chain next p (a :: l) ↔ p = a ∧ a ≠ 0 ∧ Chain next (next a) l :=
  Iff.rfl

theorem Chain.eq_nil (h : Chain next 0 l) : l = [] := by
  cases l with
  | nil => rfl
  | cons a l =>
    obtain ⟨rfl, ha, -⟩ := h
    exact absurd rfl ha

theorem Chain.eq_cons (h : Chain next p l) (hp : p ≠ 0) :
    ∃ t, l = p :: t ∧ Chain next (next p) t := by
  cases l with
  | nil => exact absurd h hp
  | cons a l =>
    obtain ⟨rfl, -, hl⟩ := h
    exact ⟨l, rfl, hl⟩

theorem Chain.ne_zero (h : Chain next p l) : ∀ x ∈ l, x ≠ 0 := by
  induction l generalizing p with
  | nil => simp
  | cons a l ih =>
    obtain ⟨-, ha, hl⟩ := h
    rintro x (_ | ⟨_, hx⟩)
    · exact ha
    · exact ih hl x hx

/-- Where a chain starts determines its nodes. -/
theorem Chain.unique (h : Chain next p l) (h' : Chain next p l') : l = l' := by
  induction l generalizing p l' with
  | nil =>
    obtain rfl : p = 0 := h
    exact h'.eq_nil.symm
  | cons a l ih =>
    obtain ⟨rfl, ha, hl⟩ := h
    obtain ⟨t, rfl, ht⟩ := h'.eq_cons ha
    rw [ih hl ht]

theorem Chain.suffix (l₁ : List α) (h : Chain next p (l₁ ++ a :: l)) : Chain next a (a :: l) := by
  induction l₁ generalizing p with
  | nil =>
    obtain ⟨rfl, h⟩ := h
    exact ⟨rfl, h⟩
  | cons b l₁ ih => exact ih h.2.2

/-- A chain that ends visits no node twice: the rest of the list after the two visits would be the
same. -/
theorem Chain.nodup (h : Chain next p l) : l.Nodup := by
  induction l generalizing p with
  | nil => exact List.nodup_nil
  | cons a l ih =>
    refine List.nodup_cons.mpr ⟨fun ha => ?_, ih h.2.2⟩
    obtain ⟨l₁, l₂, rfl⟩ := List.append_of_mem ha
    have h₂ := Chain.suffix (a :: l₁) h
    have h₁ : Chain next a (a :: (l₁ ++ a :: l₂)) := ⟨rfl, h.2⟩
    have hlen := congrArg List.length (h₁.unique h₂)
    simp at hlen
    omega

/-- A write outside the nodes of a chain leaves it as it is. -/
theorem Chain.congr (h : Chain next p l) (hn : ∀ x ∈ l, next' x = next x) : Chain next' p l := by
  induction l generalizing p with
  | nil => exact h
  | cons a l ih =>
    obtain ⟨rfl, ha, hl⟩ := h
    refine ⟨rfl, ha, ?_⟩
    rw [hn p List.mem_cons_self]
    exact ih hl fun x hx => hn x (List.mem_cons_of_mem _ hx)

/-- A new node that points to the first one becomes the first one. -/
theorem Chain.push (h : Chain next p l) (ha : a ≠ 0) (hn : ∀ x ∈ l, next' x = next x)
    (hp : next' a = p) : Chain next' a (a :: l) :=
  ⟨rfl, ha, hp ▸ h.congr hn⟩

/-! ### A loop over the nodes -/

variable [DecidableEq α]

/-- `for (; p != NULL; p = next(p))` with a body that may stop the loop with an answer. -/
def scan (next : α → α) (body : α → Option β) : ℕ → α → Option (Option β)
  | 0, _ => none
  | fuel + 1, p =>
    if p = 0 then some none
    else match body p with
      | some b => some (some b)
      | none => scan next body fuel (next p)

theorem scan_eq (body : α → Option β) {fuel : ℕ} (h : Chain next p l) (hf : l.length < fuel) :
    scan next body fuel p = some (l.findSome? body) := by
  induction l generalizing p fuel with
  | nil =>
    obtain rfl : p = 0 := h
    obtain ⟨f, rfl⟩ : ∃ f, fuel = f + 1 := ⟨fuel - 1, by simp at hf; omega⟩
    simp [scan]
  | cons a l ih =>
    obtain ⟨rfl, ha, hl⟩ := h
    obtain ⟨f, rfl⟩ : ∃ f, fuel = f + 1 := ⟨fuel - 1, by simp at hf; omega⟩
    cases hb : body p with
    | some b => simp [scan, ha, hb]
    | none =>
      rw [scan, if_neg ha, hb, List.findSome?_cons, hb]
      exact ih hl (by simpa using hf)

/-! ### Unlinking a node -/

/-- The address of a pointer of the list: of the one to the first node, or of the `next` field of a
node. -/
inductive Link (α : Type*) where
  | base
  | field (p : α)

/-- The pointer stored there. -/
def Link.get (base : α) (next : α → α) : Link α → α
  | .base => base
  | .field p => next p

/-- `for (guy = &base; *guy; guy = &next(*guy)) if (*guy == x) break;`: where the loop stops, or
`some none` if `x` is not on the list. -/
def seek (base : α) (next : α → α) (x : α) : ℕ → Link α → Option (Option (Link α))
  | 0, _ => none
  | fuel + 1, guy =>
    let p := guy.get base next
    if p = 0 then some none
    else if p = x then some (some guy)
    else seek base next x fuel (.field p)

/-- The pointer to the first node after `*guy = q`. -/
def Link.newBase (guy : Link α) (base q : α) : α :=
  match guy with
  | .base => q
  | .field _ => base

/-- The `next` fields after `*guy = q`. -/
def Link.newNext (guy : Link α) (next : α → α) (q : α) : α → α :=
  match guy with
  | .base => next
  | .field p => Function.update next p q

/-- The loop stops at the link to a node that is on the list, and that link is not in the node
itself. -/
theorem seek_spec {base x : α} {fuel : ℕ} (guy : Link α) (h : Chain next (guy.get base next) l)
    (hx : x ∈ l) (hf : l.length < fuel) :
    ∃ guy', seek base next x fuel guy = some (some guy') ∧ guy'.get base next = x ∧
      (guy' = guy ∨ ∃ y ∈ l, guy' = .field y) := by
  induction l generalizing fuel guy with
  | nil => simp at hx
  | cons a l ih =>
    obtain ⟨hp, ha, hl⟩ := h
    obtain ⟨f, rfl⟩ : ∃ f, fuel = f + 1 := ⟨fuel - 1, by simp at hf; omega⟩
    by_cases hax : a = x
    · exact ⟨guy, by simp [seek, hp, hax, hax ▸ ha], hp.trans hax, .inl rfl⟩
    · obtain ⟨guy', hs, hg, hw⟩ := ih (.field a) hl
        ((List.mem_cons.mp hx).resolve_left (Ne.symm hax)) (show l.length < f by simpa using hf)
      refine ⟨guy', ?_, hg, .inr ?_⟩
      · simpa [seek, hp, ha, hax] using hs
      · rcases hw with rfl | ⟨y, hy, rfl⟩
        · exact ⟨a, List.mem_cons_self, rfl⟩
        · exact ⟨y, List.mem_cons_of_mem _ hy, rfl⟩

/-- Redirecting a link past the node it leads to, inside a list. -/
theorem Chain.update_past {x y : α} (h : Chain next p l) (hy : y ∈ l) (hyx : next y = x)
    (hx : x ≠ 0) : Chain (Function.update next y (next x)) p (l.erase x) := by
  induction l generalizing p with
  | nil => simp at hy
  | cons a l ih =>
    have hnd := h.nodup
    obtain ⟨rfl, ha, hl⟩ := h
    obtain ⟨hpl, -⟩ := List.nodup_cons.mp hnd
    by_cases hyp : y = p
    · subst hyp
      obtain ⟨t, rfl, ht⟩ := hl.eq_cons (hyx ▸ hx)
      rw [hyx] at ht hpl ⊢
      have hxy : x ≠ y := fun hxy => hpl (hxy ▸ List.mem_cons_self)
      rw [List.erase_cons_tail (by simpa using Ne.symm hxy), List.erase_cons_head]
      refine ⟨rfl, ha, ?_⟩
      rw [Function.update_self]
      refine ht.congr fun z hz => Function.update_of_ne ?_ _ _
      rintro rfl
      exact hpl (List.mem_cons_of_mem _ hz)
    · have hyl : y ∈ l := (List.mem_cons.mp hy).resolve_left hyp
      -- the first node is not `x`: something on the list leads to `x`
      have hxl : x ∈ l := by
        obtain ⟨l₁, l₂, rfl⟩ := List.append_of_mem hyl
        have hs := (hl.suffix l₁).2.2
        rw [hyx] at hs
        obtain ⟨t, rfl, -⟩ := hs.eq_cons hx
        simp
      have hpx : p ≠ x := by
        rintro rfl
        exact hpl hxl
      rw [List.erase_cons_tail (by simpa using hpx)]
      refine ⟨rfl, ha, ?_⟩
      rw [Function.update_of_ne (Ne.symm hyp)]
      exact ih hl hyl

/-- Redirecting the link that leads to `x` past it takes `x` off the list. -/
theorem Chain.redirect {base x : α} {guy : Link α} (h : Chain next base l) (hx : x ≠ 0)
    (hg : guy.get base next = x) (hw : guy = .base ∨ ∃ y ∈ l, guy = .field y) :
    Chain (guy.newNext next (next x)) (guy.newBase base (next x)) (l.erase x) := by
  rcases hw with rfl | ⟨y, hy, rfl⟩
  · obtain rfl : base = x := hg
    obtain ⟨t, rfl, ht⟩ := h.eq_cons hx
    rw [List.erase_cons_head]
    exact ht
  · exact h.update_past hy hg hx

end Os161
