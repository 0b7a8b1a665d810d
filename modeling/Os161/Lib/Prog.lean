import Mathlib.Data.List.Basic
import Mathlib.Order.Basic

/-!
# Stateful programs that may stop

A program runs on a state and either finishes with a value or stops early with a reason: an exit, a
failed assertion, a panic. Either way it leaves a state behind, so effects made before the stop
remain visible.

Some parts of a state only ever grow: a log is appended to, a worst-error code rises. A program
carries the proof that it respects the growth order `G` of its state type, so a program that
shrinks a log cannot be written down, and the fact never has to be proved again for a composed
program. Where nothing grows the order is `Growth.any`.

## Weakest preconditions, watched

`wp W x Q E s` says what holds when `x` is run from `s`: `Q` if it finishes, `E` if it stops. It
says so only for runs whose last state satisfies the watched condition `W`. A watched condition is
one that a grown state passes on to the states before it ("nothing bad has been logged"), so a
proof about a composed program may assume it at *every* intermediate state, although the statement
assumes it only at the end.

## Main definitions

* `Growth`, `Watch`, `Outcome`, `Prog`
* `Prog.wp` — the watched weakest precondition

## Main results

* `Prog.wp_pure`, `wp_bind`, `wp_get`, `wp_update`, `wp_halt`, `wp_ite` — the rules
* `Prog.wp_mono` — consequence, and `Prog.wp_and`
* `Prog.wp_foldlM`, `wp_foldlM_range` — the invariant rules for a loop over a list and for a
  counting loop
* `Prog.Keeps` and its rules — what every run of a program keeps, from whatever state
-/

namespace Os161

/-- A preorder saying how a state may change along any run. -/
structure Growth (σ : Type) where
  /-- `le s t`: a run may lead from `s` to `t`. -/
  le : σ → σ → Prop
  refl : ∀ s, le s s
  trans : ∀ {s t u}, le s t → le t u → le s u

/-- The order that says nothing. -/
def Growth.any (σ : Type) : Growth σ where
  le _ _ := True
  refl _ := trivial
  trans _ _ := trivial

/-- The order that keeps what `f` observes. -/
def Growth.same {σ τ : Type} (f : σ → τ) : Growth σ where
  le s t := f s = f t
  refl _ := rfl
  trans := Eq.trans

/-- A condition on states that a grown state passes on to the states before it. -/
structure Watch {σ : Type} (G : Growth σ) where
  ok : σ → Prop
  stable : ∀ {s t}, G.le s t → ok t → ok s

/-- The condition that watches nothing. -/
def Watch.any {σ : Type} (G : Growth σ) : Watch G where
  ok _ := True
  stable _ _ := trivial

/-- How a run ends. -/
inductive Outcome (ε σ α : Type) where
  /-- The program finished with a value. -/
  | done (a : α) (s : σ)
  /-- The program stopped early. -/
  | halt (e : ε) (s : σ)

namespace Outcome

variable {ε σ α : Type}

/-- The state a run leaves behind. -/
def state : Outcome ε σ α → σ
  | done _ s => s
  | halt _ s => s

/-- `Q` if the run finished, `E` if it stopped. -/
def Sat (Q : α → σ → Prop) (E : ε → σ → Prop) : Outcome ε σ α → Prop
  | done a s => Q a s
  | halt e s => E e s

/-- The run finished, in a state that passes a test. -/
def test (p : σ → Bool) : Outcome ε σ α → Bool
  | done _ s => p s
  | halt _ _ => false

theorem exists_of_test {p : σ → Bool} {o : Outcome ε σ α} (h : o.test p = true) :
    ∃ a s, o = done a s ∧ p s = true := by
  cases o with
  | done a s => exact ⟨a, s, rfl, h⟩
  | halt e s => exact nomatch h

/-- The reason the run stopped with. -/
def stopped : Outcome ε σ α → Option ε
  | done _ _ => none
  | halt e _ => some e

theorem exists_of_stopped {o : Outcome ε σ α} {e : ε} (h : o.stopped = some e) :
    ∃ s, o = halt e s := by
  cases o with
  | done a s => exact nomatch h
  | halt e' s => exact ⟨s, by rw [Option.some.inj h]⟩

@[simp] theorem state_done (a : α) (s : σ) : (done a s : Outcome ε σ α).state = s := rfl

@[simp] theorem state_halt (e : ε) (s : σ) : (halt e s : Outcome ε σ α).state = s := rfl

@[simp] theorem sat_done {Q : α → σ → Prop} {E : ε → σ → Prop} {a : α} {s : σ} :
    (done a s : Outcome ε σ α).Sat Q E ↔ Q a s := Iff.rfl

@[simp] theorem sat_halt {Q : α → σ → Prop} {E : ε → σ → Prop} {e : ε} {s : σ} :
    (halt e s : Outcome ε σ α).Sat Q E ↔ E e s := Iff.rfl

end Outcome

/-- A program on states `σ` that respects the growth order `G`, may stop with a reason in `ε`, and
otherwise finishes with a value in `α`. -/
@[ext]
structure Prog {σ : Type} (G : Growth σ) (ε α : Type) where
  run : σ → Outcome ε σ α
  grows : ∀ s, G.le s (run s).state

namespace Prog

variable {σ : Type} {G : Growth σ} {ε α β : Type}

/-- Run `x`, then `f` on its value. -/
protected def bind (x : Prog G ε α) (f : α → Prog G ε β) : Prog G ε β where
  run s := match x.run s with
    | .done a t => (f a).run t
    | .halt e t => .halt e t
  grows s := by
    have hx := x.grows s
    cases h : x.run s with
    | done a t =>
      rw [h] at hx
      exact G.trans hx ((f a).grows t)
    | halt e t =>
      rw [h] at hx
      exact hx

instance : Monad (Prog G ε) where
  pure a := ⟨fun s => .done a s, G.refl⟩
  bind := Prog.bind

/-- Stop with reason `e`. -/
def halt (e : ε) : Prog G ε α := ⟨fun s => .halt e s, G.refl⟩

/-- The current state. -/
def get : Prog G ε σ := ⟨fun s => .done s s, G.refl⟩

/-- Change the state in a way the growth order allows. -/
def update (f : σ → σ) (h : ∀ s, G.le s (f s)) : Prog G ε Unit := ⟨fun s => .done () (f s), h⟩

/-- Run `x` if `c` holds. -/
def when (c : Prop) [Decidable c] (x : Prog G ε Unit) : Prog G ε Unit := if c then x else pure ()

@[simp] theorem run_pure (a : α) (s : σ) : (pure a : Prog G ε α).run s = .done a s := rfl

theorem run_bind (x : Prog G ε α) (f : α → Prog G ε β) (s : σ) :
    (x >>= f).run s = match x.run s with
      | .done a t => (f a).run t
      | .halt e t => .halt e t := rfl

theorem run_bind_of_done {x : Prog G ε α} {f : α → Prog G ε β} {s t : σ} {a : α}
    (h : x.run s = .done a t) : (x >>= f).run s = (f a).run t := by
  rw [run_bind, h]

/-- The same with the rest of the program written out. The kernel then compares two programs by
their text; under `run` it would have to evaluate them. -/
theorem run_bind_eq {x : Prog G ε α} {f : α → Prog G ε β} {s t : σ} {a : α} {y : Prog G ε β}
    (h : x.run s = .done a t) (hf : f a = y) : (x >>= f).run s = y.run t := by
  rw [run_bind, h, ← hf]

/-- A composed program that finished, taken apart. -/
theorem run_bind_eq_done {x : Prog G ε α} {f : α → Prog G ε β} {s u : σ} {b : β} :
    (x >>= f).run s = .done b u ↔ ∃ a t, x.run s = .done a t ∧ (f a).run t = .done b u := by
  rw [run_bind]
  cases hx : x.run s with
  | done a t => simp
  | halt e t => simp

theorem run_bind_of_halt {x : Prog G ε α} {f : α → Prog G ε β} {s t : σ} {e : ε}
    (h : x.run s = .halt e t) : (x >>= f).run s = .halt e t := by
  rw [run_bind, h]

@[simp] theorem run_halt (e : ε) (s : σ) : (halt e : Prog G ε α).run s = .halt e s := rfl

@[simp] theorem run_get (s : σ) : (get : Prog G ε σ).run s = .done s s := rfl

@[simp] theorem run_update (f : σ → σ) (h : ∀ s, G.le s (f s)) (s : σ) :
    (update f h : Prog G ε Unit).run s = .done () (f s) := rfl

instance : LawfulMonad (Prog G ε) := by
  refine LawfulMonad.mk' (Prog G ε) ?_ ?_ ?_
  · intro α x
    refine Prog.ext (funext fun s => ?_)
    change (x >>= pure).run s = x.run s
    rw [run_bind]
    cases x.run s <;> rfl
  · intro α β a f
    rfl
  · intro α β γ x f g
    refine Prog.ext (funext fun s => ?_)
    simp only [run_bind]
    cases x.run s <;> rfl

/-! ### The watched weakest precondition -/

/-- What holds when `x` is run from `s`, provided the last state is as watched. -/
structure wp (W : Watch G) (x : Prog G ε α) (Q : α → σ → Prop) (E : ε → σ → Prop) (s : σ) :
    Prop where
  sat : W.ok (x.run s).state → (x.run s).Sat Q E

variable {W : Watch G} {Q : α → σ → Prop} {E : ε → σ → Prop} {s : σ}

/-- **Consequence.** The new postcondition may use the watched condition and the growth of the
state. -/
theorem wp_mono {x : Prog G ε α} {Q' : α → σ → Prop} {E' : ε → σ → Prop} (h : wp W x Q E s)
    (hQ : ∀ a t, W.ok t → G.le s t → Q a t → Q' a t)
    (hE : ∀ e t, W.ok t → G.le s t → E e t → E' e t) : wp W x Q' E' s := by
  refine ⟨fun hok => ?_⟩
  have hsat := h.sat hok
  have hgrow := x.grows s
  cases hx : x.run s with
  | done a t =>
    rw [hx] at hsat hgrow hok
    exact hQ a t hok hgrow hsat
  | halt e t =>
    rw [hx] at hsat hgrow hok
    exact hE e t hok hgrow hsat

/-- Consequence for the postcondition alone. -/
theorem wp_post {x : Prog G ε α} {Q' : α → σ → Prop} (h : wp W x Q E s)
    (hQ : ∀ a t, W.ok t → G.le s t → Q a t → Q' a t) : wp W x Q' E s :=
  wp_mono h hQ fun _ _ _ _ he => he

/-- Two things that hold of the same run. -/
theorem wp_and {x : Prog G ε α} {Q' : α → σ → Prop} {E' : ε → σ → Prop} (h : wp W x Q E s)
    (h' : wp W x Q' E' s) :
    wp W x (fun a t => Q a t ∧ Q' a t) (fun e t => E e t ∧ E' e t) s := by
  refine ⟨fun hok => ?_⟩
  have h1 := h.sat hok
  have h2 := h'.sat hok
  cases hx : x.run s with
  | done a t =>
    rw [hx] at h1 h2
    exact ⟨h1, h2⟩
  | halt e t =>
    rw [hx] at h1 h2
    exact ⟨h1, h2⟩

/-- Two programs that run alike from `s`. -/
theorem wp_of_run_eq {x y : Prog G ε α} (hrun : x.run s = y.run s) (h : wp W y Q E s) :
    wp W x Q E s := by
  refine ⟨fun hok => ?_⟩
  rw [hrun] at hok ⊢
  exact h.sat hok

/-- What is watched holds at the start as well. -/
theorem wp_watched {x : Prog G ε α} (h : W.ok s → wp W x Q E s) : wp W x Q E s :=
  ⟨fun hok => (h (W.stable (x.grows s) hok)).sat hok⟩

/-- The run itself, as what is known about it. -/
theorem wp_ran (W : Watch G) (x : Prog G ε α) (s : σ) :
    wp W x (fun a t => x.run s = .done a t) (fun e t => x.run s = .halt e t) s := by
  refine ⟨fun _ => ?_⟩
  cases hx : x.run s <;> rfl

theorem wp_pure {a : α} (h : W.ok s → Q a s) : wp W (pure a) Q E s := ⟨h⟩

theorem wp_bind {x : Prog G ε α} {f : α → Prog G ε β} {R : β → σ → Prop}
    (h : wp W x (fun a t => wp W (f a) R E t) E s) : wp W (x >>= f) R E s := by
  refine ⟨fun hok => ?_⟩
  rw [run_bind] at hok ⊢
  cases hx : x.run s with
  | done a t =>
    rw [hx] at hok
    have hgrow := (f a).grows t
    have hsat : wp W (f a) R E t := by
      have := h.sat (by rw [hx]; exact W.stable hgrow hok)
      rwa [hx] at this
    exact hsat.sat hok
  | halt e t =>
    rw [hx] at hok
    have := h.sat (by rw [hx]; exact hok)
    rwa [hx] at this

/-- Sequencing with a known specification of the first part. -/
theorem wp_seq {x : Prog G ε α} {f : α → Prog G ε β} {R : β → σ → Prop} (hx : wp W x Q E s)
    (hf : ∀ a t, W.ok t → G.le s t → Q a t → wp W (f a) R E t) : wp W (x >>= f) R E s :=
  wp_bind (wp_post hx hf)

theorem wp_halt {e : ε} (h : W.ok s → E e s) : wp W (halt e : Prog G ε α) Q E s := ⟨h⟩

theorem wp_get {R : σ → σ → Prop} (h : W.ok s → R s s) : wp W get R E s := ⟨h⟩

theorem wp_get_bind {f : σ → Prog G ε α} (h : wp W (f s) Q E s) : wp W (get >>= f) Q E s :=
  wp_bind (wp_get fun _ => h)

theorem wp_update {f : σ → σ} {hf : ∀ s, G.le s (f s)} {R : Unit → σ → Prop}
    (h : W.ok (f s) → R () (f s)) : wp W (update f hf) R E s := ⟨h⟩

theorem wp_ite {c : Prop} [Decidable c] {x y : Prog G ε α} (ht : c → wp W x Q E s)
    (hf : ¬c → wp W y Q E s) : wp W (if c then x else y) Q E s := by
  split
  · exact ht ‹_›
  · exact hf ‹_›

/-- **The loop rule.** `I pre acc t` holds after the elements `pre` have been processed. -/
theorem wp_foldlM {l : List β} {f : α → β → Prog G ε α} {a : α} (I : List β → α → σ → Prop)
    (h0 : I [] a s)
    (hstep : ∀ pre b post acc t, l = pre ++ b :: post → G.le s t → I pre acc t →
      wp W (f acc b) (fun acc' t' => I (pre ++ [b]) acc' t') E t) :
    wp W (l.foldlM f a) (fun acc t => I l acc t) E s := by
  -- generalised to the part of the loop that remains after `pre`
  have key : ∀ (post pre : List β) (acc : α) (t : σ), l = pre ++ post → G.le s t → I pre acc t →
      wp W (post.foldlM f acc) (fun acc' t' => I l acc' t') E t := by
    intro post
    induction post with
    | nil =>
      intro pre acc t hl _ hI
      rw [List.foldlM_nil]
      refine wp_pure fun _ => ?_
      rw [hl, List.append_nil]
      exact hI
    | cons b post ih =>
      intro pre acc t hl hle hI
      rw [List.foldlM_cons]
      refine wp_seq (hstep pre b post acc t hl hle hI) fun acc' t' _ hle' hI' => ?_
      exact ih (pre ++ [b]) acc' t' (by rw [hl, List.append_assoc]; rfl) (G.trans hle hle') hI'
  exact key l [] a s rfl (G.refl s) h0

/-- The loop rule for a counting loop. `I i acc t` holds before round `i`. -/
theorem wp_foldlM_range {m : ℕ} {f : α → ℕ → Prog G ε α} {a : α} (I : ℕ → α → σ → Prop)
    (h0 : I 0 a s)
    (hstep : ∀ i acc t, i < m → G.le s t → I i acc t →
      wp W (f acc i) (fun acc' t' => I (i + 1) acc' t') E t) :
    wp W ((List.range m).foldlM f a) (fun acc t => I m acc t) E s := by
  have hloop := wp_foldlM (W := W) (E := E) (l := List.range m) (f := f) (a := a) (s := s)
    (fun pre acc t => I pre.length acc t) h0 fun pre i post acc t hl hle hI => ?_
  · rwa [List.length_range] at hloop
  · -- the round is the number of rounds before it
    have hlen : pre.length < (List.range m).length := by
      rw [hl, List.length_append, List.length_cons]
      omega
    have hi : i = pre.length := by
      have := List.getElem_range (j := pre.length) hlen
      rw [List.getElem_of_eq hl, List.getElem_append_right (Nat.le_refl _)] at this
      simpa using this
    rw [List.length_range] at hlen
    have := hstep i acc t (hi ▸ hlen) hle (hi ▸ hI)
    rwa [List.length_append, List.length_singleton, ← hi]

/-- A counting loop with one more round. -/
theorem foldlM_range_succ (f : α → ℕ → Prog G ε α) (a : α) (m : ℕ) :
    (List.range (m + 1)).foldlM f a = (List.range m).foldlM f a >>= fun acc => f acc m := by
  rw [List.range_succ, List.foldlM_append]
  refine bind_congr fun acc => ?_
  rw [List.foldlM_cons]
  exact bind_pure _

/-- The same rule, where a round may use what the rounds before it have come to. -/
theorem wp_foldlM_range_ran {m : ℕ} {f : α → ℕ → Prog G ε α} {a : α} (I : ℕ → α → σ → Prop)
    (h0 : I 0 a s)
    (hstep : ∀ i acc t, i < m → ((List.range i).foldlM f a).run s = .done acc t → I i acc t →
      wp W (f acc i) (fun acc' t' => I (i + 1) acc' t') E t) :
    wp W ((List.range m).foldlM f a) (fun acc t => I m acc t) E s := by
  refine wp_post (wp_foldlM_range
    (fun i acc t => ((List.range i).foldlM f a).run s = .done acc t ∧ I i acc t) ⟨rfl, h0⟩ ?_)
    fun _ _ _ _ h => h.2
  rintro i acc t hi - ⟨hrun, hI⟩
  refine wp_mono (wp_and (wp_ran W (f acc i) t) (hstep i acc t hi hrun hI))
    (fun acc' u _ _ h => ⟨?_, h.2⟩) fun _ _ _ _ h => h.2
  rw [foldlM_range_succ, run_bind_of_done hrun]
  exact h.1

theorem wp_when {c : Prop} [Decidable c] {x : Prog G ε Unit} {R : Unit → σ → Prop}
    (ht : c → wp W x R E s) (hf : ¬c → W.ok s → R () s) : wp W (when c x) R E s :=
  wp_ite ht fun hc => wp_pure (hf hc)

/-! ### What every run keeps -/

/-- Every run of `x` leads from a state to one that `H` allows after it, and stops only for a
reason in `P`. -/
structure Keeps (H : Growth σ) (P : ε → Prop) (x : Prog G ε α) : Prop where
  sat : ∀ s, (x.run s).Sat (fun _ t => H.le s t) (fun e t => H.le s t ∧ P e)

variable {H : Growth σ} {P : ε → Prop}

theorem keeps_pure (a : α) : Keeps H P (pure a : Prog G ε α) := ⟨fun s => H.refl s⟩

theorem keeps_get : Keeps H P (get : Prog G ε σ) := ⟨fun s => H.refl s⟩

theorem keeps_halt {e : ε} (h : P e) : Keeps H P (halt e : Prog G ε α) := ⟨fun s => ⟨H.refl s, h⟩⟩

theorem keeps_update {f : σ → σ} {hf : ∀ s, G.le s (f s)} (h : ∀ s, H.le s (f s)) :
    Keeps H P (update f hf : Prog G ε Unit) := ⟨h⟩

theorem keeps_bind {x : Prog G ε α} {f : α → Prog G ε β} (hx : Keeps H P x)
    (hf : ∀ a, Keeps H P (f a)) : Keeps H P (x >>= f) := by
  refine ⟨fun s => ?_⟩
  have h1 := hx.sat s
  rw [run_bind]
  cases hrun : x.run s with
  | done a t =>
    rw [hrun] at h1
    have h2 := (hf a).sat t
    change ((f a).run t).Sat _ _
    cases hrun2 : (f a).run t with
    | done b u =>
      rw [hrun2] at h2
      exact H.trans h1 h2
    | halt e u =>
      rw [hrun2] at h2
      exact ⟨H.trans h1 h2.1, h2.2⟩
  | halt e t =>
    rw [hrun] at h1
    exact h1

theorem keeps_ite {c : Prop} [Decidable c] {x y : Prog G ε α} (hx : Keeps H P x)
    (hy : Keeps H P y) : Keeps H P (if c then x else y) := by
  split
  · exact hx
  · exact hy

theorem keeps_when {c : Prop} [Decidable c] {x : Prog G ε Unit} (hx : Keeps H P x) :
    Keeps H P (when c x) :=
  keeps_ite hx (keeps_pure ())

theorem keeps_foldlM_of_mem {l : List β} {f : α → β → Prog G ε α}
    (hf : ∀ a, ∀ b ∈ l, Keeps H P (f a b)) (a : α) : Keeps H P (l.foldlM f a) := by
  induction l generalizing a with
  | nil => exact keeps_pure a
  | cons b l ih =>
    rw [List.foldlM_cons]
    exact keeps_bind (hf a b List.mem_cons_self) fun a' =>
      ih (fun a'' b' hb' => hf a'' b' (List.mem_cons_of_mem _ hb')) a'

theorem keeps_foldlM {l : List β} {f : α → β → Prog G ε α} (hf : ∀ a b, Keeps H P (f a b))
    (a : α) : Keeps H P (l.foldlM f a) :=
  keeps_foldlM_of_mem (fun a b _ => hf a b) a

theorem Keeps.mono {P' : ε → Prop} {x : Prog G ε α} (hx : Keeps H P x) (h : ∀ e, P e → P' e) :
    Keeps H P' x := by
  refine ⟨fun s => ?_⟩
  have h1 := hx.sat s
  cases hrun : x.run s with
  | done a t =>
    rw [hrun] at h1
    exact h1
  | halt e t =>
    rw [hrun] at h1
    exact ⟨h1.1, h e h1.2⟩

/-- What every run keeps, used in a weakest precondition. -/
theorem wp_of_keeps {x : Prog G ε α} (hx : Keeps H P x) (hQ : ∀ a t, H.le s t → Q a t)
    (hE : ∀ e t, H.le s t → P e → E e t) : wp W x Q E s := by
  refine ⟨fun _ => ?_⟩
  have h1 := hx.sat s
  cases hrun : x.run s with
  | done a t =>
    rw [hrun] at h1
    exact hQ a t h1
  | halt e t =>
    rw [hrun] at h1
    exact hE e t h1.1 h1.2

/-- What growth alone gives. -/
theorem wp_of_grows {x : Prog G ε α} (hQ : ∀ a t, G.le s t → Q a t)
    (hE : ∀ e t, G.le s t → E e t) : wp W x Q E s := by
  refine ⟨fun _ => ?_⟩
  have h1 := x.grows s
  cases hrun : x.run s with
  | done a t =>
    rw [hrun] at h1
    exact hQ a t h1
  | halt e t =>
    rw [hrun] at h1
    exact hE e t h1

/-- A finished run, read off a weakest precondition that watches nothing. -/
theorem sat_of_wp {x : Prog G ε α} (h : wp (Watch.any G) x Q E s) : (x.run s).Sat Q E :=
  h.sat trivial

/-- What holds at the end, however the run ended. -/
theorem state_of_wp {x : Prog G ε α} {P : σ → Prop}
    (h : wp (Watch.any G) x (fun _ t => P t) (fun _ t => P t) s) : P (x.run s).state := by
  have hsat := sat_of_wp h
  cases hx : x.run s with
  | done a t =>
    rw [hx] at hsat
    exact hsat
  | halt e t =>
    rw [hx] at hsat
    exact hsat

/-- The postcondition at a run that finished. -/
theorem post_of_wp {x : Prog G ε α} {a : α} {t : σ} (h : wp W x Q E s) (hx : x.run s = .done a t)
    (hok : W.ok t) : Q a t := by
  have := h.sat (by rw [hx]; exact hok)
  rwa [hx] at this

end Prog

end Os161
