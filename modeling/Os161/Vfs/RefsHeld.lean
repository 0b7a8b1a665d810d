import Os161.Vfs.Refs

/-!
# Who holds the references

`Holds o c b d` says that the references are those of the two slots, and the ones in `o`, which
belong to callers, to open files and to other processes. Every function of the layer is specified by
where it moves references between the three: a lookup adds to `o`, a decrement takes from it, and
setting a slot swaps what is in it for something of `o`.

Runs may end in a panic as long as it is one of a broken system (`Broken`): a current directory
without a filesystem, or a device table that lacks what a vnode claims. A count that is too low and
a lock that is not held are never the reason.

## Main results

* `Refs.Holds.decref`, `Refs.Holds.swapCwd`, `Refs.Holds.swapBootfs` — how the references move
* `Refs.wp_getdevice`, `wp_vfsLookparent`, `wp_vfsLookup`, `wp_vfsOpen`, `wp_vfsSetcurdir`, … —
  the specification of each function
-/

namespace Os161

namespace Vfs

namespace Refs

open Prog

variable {V α β : Type}

section Operations

variable [DecidableEq V]

/-! ### Who holds the references -/

/-- The references are those of the two slots and the ones in `o`. -/
structure Holds (o : Multiset V) (c b : Option V) (d : ℕ) (s : State V) : Prop where
  refs : ∀ v, s.refs v = (o + (c.toList : Multiset V) + (b.toList : Multiset V)).count v
  pCwd : s.pCwd = c
  bootfsVnode : s.bootfsVnode = b
  biglockDepth : s.biglockDepth = d

/-- The panics that are not about references or the lock: the system below is not as it should be.
-/
def Broken (w : World V) (c : Option V) : Panic → Prop
  | .refcount => False
  | .biglock => False
  | .vnFs => ∃ cwd, c = some cwd ∧ w.vnFs cwd = none
  | .name => ∃ cwd fs, c = some cwd ∧ w.vnFs cwd = some fs ∧
      ∀ kd ∈ w.knowndevs, kd.kdName = fs → kd.kdFs = .null ∨ kd.kdFs = .swap
  | .knowndev => ∃ devname, vfsGetroot w.knowndevs devname = some .panicked
  | .uioRw => False

/-- A function that returns something with a vnode in it: one more reference if it succeeds. -/
def Gives (node : α → V) (o : Multiset V) (c b : Option V) (d : ℕ) :
    Except Errno α → State V → Prop
  | .ok a, t => Holds (node a ::ₘ o) c b d t
  | .error _, t => Holds o c b d t

variable {w : World V} {o : Multiset V} {c b k : Option V} {d : ℕ} {s : State V} {vn : V}

/-- Runs that end as `Q` says, or in one of the panics of a broken system. -/
abbrev Spec (w : World V) (c : Option V) (x : M V α) (Q : α → State V → Prop) (s : State V) :
    Prop :=
  wp (Watch.any (Growth.any (State V))) x Q (fun e _ => Broken w c e) s

theorem Holds.refs_pos (h : Holds o c b d s) (hvn : vn ∈ o) : 0 < s.refs vn := by
  rw [h.refs, Multiset.count_pos]
  exact Multiset.mem_add.mpr (Or.inl (Multiset.mem_add.mpr (Or.inl hvn)))

theorem Holds.tick (h : Holds o c b d s) (n : ℕ) : Holds o c b d { s with tick := n } :=
  ⟨h.refs, h.pCwd, h.bootfsVnode, h.biglockDepth⟩

theorem Holds.biglock (h : Holds o c b d s) (n : ℕ) :
    Holds o c b n { s with biglockDepth := n } :=
  ⟨h.refs, h.pCwd, h.bootfsVnode, rfl⟩

theorem Holds.incref (h : Holds o c b d s) (vn : V) :
    Holds (vn ::ₘ o) c b d { s with refs := Function.update s.refs vn (s.refs vn + 1) } := by
  refine ⟨fun v => ?_, h.pCwd, h.bootfsVnode, h.biglockDepth⟩
  have hv := h.refs v
  by_cases hvn : v = vn
  · subst hvn
    simp only [Function.update_self, Multiset.count_add, Multiset.count_cons_self] at hv ⊢
    omega
  · simpa [Function.update_of_ne hvn, Multiset.count_cons_of_ne hvn] using hv

theorem Holds.decref (h : Holds (vn ::ₘ o) c b d s) :
    Holds o c b d { s with refs := Function.update s.refs vn (s.refs vn - 1) } := by
  refine ⟨fun v => ?_, h.pCwd, h.bootfsVnode, h.biglockDepth⟩
  have hv := h.refs v
  by_cases hvn : v = vn
  · subst hvn
    simp only [Function.update_self, Multiset.count_add, Multiset.count_cons_self] at hv ⊢
    omega
  · simpa [Function.update_of_ne hvn, Multiset.count_cons_of_ne hvn] using hv

/-- A new current directory: its reference goes into the slot and the old one comes out. -/
theorem Holds.swapCwd {n : Option V} (h : Holds ((n.toList : Multiset V) + o) c b d s) :
    Holds ((c.toList : Multiset V) + o) n b d { s with pCwd := n } := by
  refine ⟨fun v => ?_, rfl, h.bootfsVnode, h.biglockDepth⟩
  have hv := h.refs v
  simp only [Multiset.count_add] at hv ⊢
  omega

theorem Holds.swapBootfs {n : Option V} (h : Holds ((n.toList : Multiset V) + o) c b d s) :
    Holds ((b.toList : Multiset V) + o) c n d { s with bootfsVnode := n } := by
  refine ⟨fun v => ?_, h.pCwd, rfl, h.biglockDepth⟩
  have hv := h.refs v
  simp only [Multiset.count_add] at hv ⊢
  omega

theorem Holds.swap {v v' : V} (h : Holds (v ::ₘ v' ::ₘ o) c b d s) :
    Holds (v' ::ₘ v ::ₘ o) c b d s := by
  rwa [Multiset.cons_swap]

/-! ### Specifications of the small steps -/

omit [DecidableEq V] in
theorem wp_kassert {p : Prop} [Decidable p] {e : Panic} {Q : Unit → State V → Prop} (hp : p)
    (h : Q () s) : Spec w k (kassert p e) Q s := by
  rw [kassert, if_pos hp]
  exact wp_pure fun _ => h

omit [DecidableEq V] in
/-- An assertion that holds. -/
theorem wp_kassert_bind {p : Prop} [Decidable p] {e : Panic} {f : Unit → M V α}
    {Q : α → State V → Prop} (hp : p) (h : Spec w k (f ()) Q s) :
    Spec w k (kassert p e >>= f) Q s :=
  wp_bind (wp_kassert hp h)

theorem wp_vfsBiglockAcquire (h : Holds o c b d s) :
    Spec w k vfsBiglockAcquire (fun _ t => Holds o c b (d + 1) t) s := by
  refine wp_update fun _ => ?_
  rw [h.biglockDepth]
  exact h.biglock (d + 1)

theorem wp_vfsBiglockRelease (h : Holds o c b (d + 1) s) :
    Spec w k vfsBiglockRelease (fun _ t => Holds o c b d t) s := by
  refine wp_get_bind ?_
  refine wp_kassert_bind (by rw [h.biglockDepth]; omega) ?_
  refine wp_update fun _ => ?_
  rw [h.biglockDepth]
  exact h.biglock d

theorem wp_biglockHeld_bind {f : Unit → M V α} {Q : α → State V → Prop}
    (h : Holds o c b (d + 1) s) (hf : Spec w k (f ()) Q s) :
    Spec w k (biglockHeld >>= f) Q s := by
  refine wp_bind (wp_get_bind ?_)
  exact wp_kassert (by rw [h.biglockDepth]; omega) hf

theorem wp_tick (h : Holds o c b d s) : Spec w k tick (fun _ t => Holds o c b d t) s := by
  refine wp_get_bind ?_
  refine wp_seq (Q := fun _ t => Holds o c b d t) (wp_update fun _ => h.tick _) ?_
  intro _ t _ _ ht
  exact wp_pure fun _ => ht

theorem wp_vnodeIncref (h : Holds o c b d s) (vn : V) :
    Spec w k (vnodeIncref vn) (fun _ t => Holds (vn ::ₘ o) c b d t) s :=
  wp_update fun _ => h.incref vn

theorem wp_vnodeDecref (h : Holds (vn ::ₘ o) c b d s) :
    Spec w k (vnodeDecref vn) (fun _ t => Holds o c b d t) s := by
  have hpos := h.refs_pos (Multiset.mem_cons_self vn o)
  refine wp_get_bind ?_
  refine wp_kassert_bind hpos ?_
  refine wp_ite (fun _ => wp_update fun _ => h.decref) fun hone => ?_
  refine wp_update fun _ => ?_
  -- the last reference
  have hone : s.refs vn - 1 = 0 := by omega
  have := h.decref
  rwa [hone] at this

theorem wp_giving {f : ℕ → Except Errno α} {node : α → V} (h : Holds o c b d s) :
    Spec w k (giving f node) (Gives node o c b d) s := by
  refine wp_seq (wp_tick h) fun n t _ _ ht => ?_
  split
  · next a _ =>
    refine wp_seq (wp_vnodeIncref ht (node a)) fun _ t' _ _ ht' => ?_
    exact wp_pure fun _ => ht'
  · exact wp_pure fun _ => ht

omit [DecidableEq V] in
/-- An operation through a vnode that has a reference. -/
theorem wp_checked {x : M V α} {Q : α → State V → Prop} (hpos : 0 < s.refs vn)
    (hx : Spec w k x Q s) : Spec w k (vnodeCheck vn >>= fun _ => x) Q s := by
  refine wp_bind (wp_get_bind ?_)
  exact wp_kassert hpos hx

theorem wp_vop {op : Vop V} (h : Holds o c b d s) (hop : op.vn ∈ o) :
    Spec w k (vop w op) (fun _ t => Holds o c b d t) s := by
  refine wp_checked (h.refs_pos hop) (wp_seq (wp_tick h) fun n t _ _ ht => ?_)
  exact wp_pure fun _ => ht

theorem wp_uiomove {ptr : Name} (h : Holds o c b d s) :
    Spec w k (uiomove w ptr) (fun _ t => Holds o c b d t) s :=
  wp_seq (wp_tick h) fun _ _ _ _ ht => wp_pure fun _ => ht

theorem wp_vopGettype (h : Holds o c b d s) (hpos : 0 < s.refs vn) :
    Spec w k (vopGettype w vn) (fun _ t => Holds o c b d t) s := by
  refine wp_checked hpos (wp_seq (wp_tick h) fun n t _ _ ht => ?_)
  exact wp_pure fun _ => ht

theorem wp_decrefOld {old : Option V} (h : Holds ((old.toList : Multiset V) + o) c b d s) :
    Spec w k (decrefOld old) (fun _ t => Holds o c b d t) s := by
  cases old with
  | none =>
    refine wp_pure fun _ => ?_
    simpa using h
  | some vn =>
    refine wp_vnodeDecref ?_
    simpa using h

/-! ### Specifications of the functions -/

theorem wp_vfsGetrootRef {devname : Name} (h : Holds o c b (d + 1) s) :
    Spec w k (vfsGetrootRef w devname) (Gives id o c b (d + 1)) s := by
  refine wp_biglockHeld_bind h ?_
  split
  · exact wp_pure fun _ => h
  · exact wp_giving h
  · next dev _ =>
    refine wp_seq (wp_vnodeIncref h (w.kdVnode dev)) fun _ t _ _ ht => ?_
    exact wp_pure fun _ => ht
  · exact wp_pure fun _ => h
  · next hroot => exact wp_halt fun _ => ⟨devname, hroot⟩

/-- The vnode handed out is the current directory, if there is one. -/
theorem wp_vfsGetcurdir (h : Holds o c b d s) :
    Spec w k vfsGetcurdir (fun r t => Gives id o c b d r t ∧ c = r.toOption) s := by
  refine wp_get_bind ?_
  rw [h.pCwd]
  cases c with
  | none => exact wp_pure fun _ => ⟨h, rfl⟩
  | some cwd =>
    refine wp_seq (wp_vnodeIncref h cwd) fun _ t _ _ ht => ?_
    exact wp_pure fun _ => ⟨ht, rfl⟩

theorem wp_relative {path : Name} (h : Holds o c b d s) :
    Spec w k (getdevice.relative path) (Gives Prod.fst o c b d) s := by
  refine wp_seq (wp_vfsGetcurdir h) fun r t _ _ ht => ?_
  cases r with
  | error e => exact wp_pure fun _ => ht.1
  | ok startvn => exact wp_pure fun _ => ht.1

theorem wp_getdevice {path : Name} (h : Holds o c b (d + 1) s) :
    Spec w c (getdevice w path) (Gives Prod.fst o c b (d + 1)) s := by
  refine wp_biglockHeld_bind h ?_
  refine wp_ite (fun _ => wp_pure fun _ => h) fun _ => ?_
  split
  · exact wp_relative h
  · next i _ =>
    refine wp_ite (fun _ => ?_) fun _ => wp_ite (fun _ => wp_relative h) fun _ => wp_ite ?_ ?_
    · refine wp_seq (wp_vfsGetrootRef h) fun r t _ _ ht => ?_
      cases r with
      | error e => exact wp_pure fun _ => ht
      | ok startvn => exact wp_pure fun _ => ht
    · intro _
      refine wp_get_bind ?_
      split
      · exact wp_pure fun _ => h
      · next bootfsVnode _ =>
        refine wp_seq (wp_vnodeIncref h bootfsVnode) fun _ t _ _ ht => ?_
        exact wp_pure fun _ => ht
    · intro _
      refine wp_seq (wp_vfsGetcurdir h) fun r t _ _ ht => ?_
      cases r with
      | error e => exact wp_pure fun _ => ht.1
      | ok vn =>
        dsimp only
        split
        · next hfs => exact wp_halt fun _ => ⟨vn, ht.2, hfs⟩
        · refine wp_seq (wp_giving ht.1) fun r t' _ _ ht' => ?_
          cases r with
          | error e =>
            refine wp_seq (wp_vnodeDecref ht') fun _ t'' _ _ ht'' => ?_
            exact wp_pure fun _ => ht''
          | ok startvn =>
            refine wp_seq (wp_vnodeDecref (Holds.swap ht')) fun _ t'' _ _ ht'' => ?_
            exact wp_pure fun _ => ht''

theorem wp_vfsLookparent {path : Name} (h : Holds o c b d s) :
    Spec w c (vfsLookparent w path) (Gives Prod.fst o c b d) s := by
  refine wp_seq (wp_vfsBiglockAcquire h) fun _ t _ _ ht => ?_
  refine wp_seq (wp_getdevice ht) fun r t _ _ ht => ?_
  cases r with
  | error e =>
    refine wp_seq (wp_vfsBiglockRelease ht) fun _ t _ _ ht => ?_
    exact wp_pure fun _ => ht
  | ok r =>
    obtain ⟨startvn, subpath⟩ := r
    have hop : Spec w c (lookparentFrom w startvn subpath)
        (Gives Prod.fst (startvn ::ₘ o) c b (d + 1)) t := by
      refine wp_ite (fun _ => wp_pure fun _ => ht) fun _ => ?_
      exact wp_checked (ht.refs_pos (Multiset.mem_cons_self _ _)) (wp_giving ht)
    refine wp_seq hop fun r t _ _ ht => ?_
    -- the start is given back, whether the lookup has worked or not
    have hdec : Spec w c (vnodeDecref startvn) (fun _ t => Gives Prod.fst o c b (d + 1) r t) t := by
      cases r with
      | error e => exact wp_vnodeDecref ht
      | ok a => exact wp_vnodeDecref (Holds.swap ht)
    refine wp_seq hdec fun _ t _ _ ht => ?_
    cases r with
    | error e => exact wp_seq (wp_vfsBiglockRelease ht) fun _ t _ _ ht => wp_pure fun _ => ht
    | ok a => exact wp_seq (wp_vfsBiglockRelease ht) fun _ t _ _ ht => wp_pure fun _ => ht

theorem wp_vfsLookup {path : Name} (h : Holds o c b d s) :
    Spec w c (vfsLookup w path) (Gives id o c b d) s := by
  refine wp_seq (wp_vfsBiglockAcquire h) fun _ t _ _ ht => ?_
  refine wp_seq (wp_getdevice ht) fun r t _ _ ht => ?_
  cases r with
  | error e =>
    refine wp_seq (wp_vfsBiglockRelease ht) fun _ t _ _ ht => ?_
    exact wp_pure fun _ => ht
  | ok r =>
    obtain ⟨startvn, subpath⟩ := r
    refine wp_ite (fun _ => ?_) fun _ => ?_
    · refine wp_seq (wp_vfsBiglockRelease ht) fun _ t _ _ ht => ?_
      exact wp_pure fun _ => ht
    · have hop : Spec w c (vopLookup w startvn subpath) (Gives id (startvn ::ₘ o) c b (d + 1)) t :=
        wp_checked (ht.refs_pos (Multiset.mem_cons_self _ _)) (wp_giving ht)
      refine wp_seq hop fun r t _ _ ht => ?_
      cases r with
      | error e =>
        refine wp_seq (wp_vnodeDecref ht) fun _ t _ _ ht => ?_
        exact wp_seq (wp_vfsBiglockRelease ht) fun _ t _ _ ht => wp_pure fun _ => ht
      | ok a =>
        refine wp_seq (wp_vnodeDecref (Holds.swap ht)) fun _ t _ _ ht => ?_
        exact wp_seq (wp_vfsBiglockRelease ht) fun _ t _ _ ht => wp_pure fun _ => ht

/-- What `vfs_setcurdir` and `vfs_chdir` do to the slot: nothing, or a new directory is in it. -/
theorem wp_vfsSetcurdir {dir : V} (h : Holds o c b d s) (hpos : 0 < s.refs dir) :
    Spec w k (vfsSetcurdir w dir)
      (fun r t => Holds o (if r = none then some dir else c) b d t) s := by
  refine wp_seq (wp_vopGettype h hpos) fun r t _ _ ht => ?_
  cases r with
  | error e => exact wp_pure fun _ => ht
  | ok vtype =>
    refine wp_ite (fun _ => wp_pure fun _ => ht) fun _ => ?_
    refine wp_seq (wp_vnodeIncref ht dir) fun _ t _ _ ht => ?_
    refine wp_get_bind ?_
    rw [ht.pCwd]
    have hswap : Holds ((c.toList : Multiset V) + o) (some dir) b d { t with pCwd := some dir } :=
      Holds.swapCwd (n := some dir) (by simpa using ht)
    refine wp_seq (Q := fun _ t => Holds ((c.toList : Multiset V) + o) (some dir) b d t)
      (wp_update fun _ => hswap) fun _ t _ _ ht => ?_
    exact wp_seq (wp_decrefOld ht) fun _ t _ _ ht => wp_pure fun _ => ht

theorem wp_vfsClearcurdir (h : Holds o c b d s) :
    Spec w k vfsClearcurdir (fun _ t => Holds o none b d t) s := by
  refine wp_get_bind ?_
  rw [h.pCwd]
  have hswap : Holds ((c.toList : Multiset V) + o) none b d { s with pCwd := none } :=
    Holds.swapCwd (n := none) (by simpa using h)
  refine wp_seq (Q := fun _ t => Holds ((c.toList : Multiset V) + o) none b d t)
    (wp_update fun _ => hswap) fun _ t _ _ ht => ?_
  exact wp_seq (wp_decrefOld ht) fun _ t _ _ ht => wp_pure fun _ => ht

/-- If it fails the slot is as before. -/
theorem wp_vfsChdir {path : Name} (h : Holds o c b d s) :
    Spec w c (vfsChdir w path)
      (fun r t => ∃ c', Holds o c' b d t ∧ (r = none → c' ≠ none) ∧ (r ≠ none → c' = c)) s := by
  refine wp_seq (wp_vfsLookup h) fun r t _ _ ht => ?_
  cases r with
  | error e => exact wp_pure fun _ => ⟨c, ht, nofun, fun _ => rfl⟩
  | ok vn =>
    have hpos : 0 < t.refs vn := Holds.refs_pos ht (Multiset.mem_cons_self _ _)
    refine wp_seq (wp_vfsSetcurdir ht hpos) fun r t _ _ ht => ?_
    refine wp_seq (wp_vnodeDecref ht) fun _ t _ _ ht => ?_
    refine wp_pure fun _ => ⟨_, ht, ?_, ?_⟩
    · rintro rfl
      simp
    · intro hr
      rw [if_neg hr]

theorem wp_changeBootfs {n : Option V} (h : Holds ((n.toList : Multiset V) + o) c b d s) :
    Spec w k (changeBootfs n) (fun _ t => Holds o c n d t) s := by
  refine wp_get_bind ?_
  rw [h.bootfsVnode]
  refine wp_seq (Q := fun _ t => Holds ((b.toList : Multiset V) + o) c n d t)
    (wp_update fun _ => h.swapBootfs) fun _ t _ _ ht => ?_
  exact wp_decrefOld ht

/-- If it fails the slots are as before, and else they name the same vnode. -/
theorem wp_vfsSetbootfs {fsname : Name} (h : Holds o c b d s) :
    Spec w c (vfsSetbootfs w fsname)
      (fun r t => ∃ c' b', Holds o c' b' d t ∧ (r = none → b' = c' ∧ b' ≠ none) ∧
        (r ≠ none → c' = c ∧ b' = b)) s := by
  refine wp_seq (wp_vfsBiglockAcquire h) fun _ t _ _ ht => ?_
  refine wp_ite (fun _ => ?_) fun _ => ?_
  · refine wp_seq (wp_vfsBiglockRelease ht) fun _ t _ _ ht => ?_
    exact wp_pure fun _ => ⟨c, b, ht, nofun, fun _ => ⟨rfl, rfl⟩⟩
  refine wp_seq (wp_vfsChdir ht) fun r t _ _ ht => ?_
  obtain ⟨c', ht, hok, herr⟩ := ht
  cases r with
  | some e =>
    refine wp_seq (wp_vfsBiglockRelease ht) fun _ t _ _ ht => ?_
    exact wp_pure fun _ => ⟨c', b, ht, nofun, fun _ => ⟨herr nofun, rfl⟩⟩
  | none =>
    have hc' := hok rfl
    refine wp_seq (wp_vfsGetcurdir ht) fun r t _ _ ht => ?_
    cases r with
    | error e => exact absurd ht.2 hc'
    | ok newguy =>
      obtain ⟨hgives, hcwd⟩ := ht
      have hnew : Holds (newguy ::ₘ o) c' b (d + 1) t := hgives
      rw [← Multiset.singleton_add] at hnew
      refine wp_seq (wp_changeBootfs hnew) fun _ t _ _ ht => ?_
      refine wp_seq (wp_vfsBiglockRelease ht) fun _ t _ _ ht => ?_
      exact wp_pure fun _ => ⟨c', some newguy, ht, fun _ => ⟨hcwd.symm, nofun⟩, nofun⟩

theorem wp_vfsClearbootfs (h : Holds o c b d s) :
    Spec w k vfsClearbootfs (fun _ t => Holds o c none d t) s := by
  refine wp_seq (wp_vfsBiglockAcquire h) fun _ t _ _ ht => ?_
  refine wp_seq (wp_changeBootfs (n := none) (by simpa using ht)) fun _ t _ _ ht => ?_
  exact wp_vfsBiglockRelease ht

theorem wp_cwdVolname {fs : Name} (h : Holds o c b d s) :
    Spec w k (cwdVolname w fs) (fun r t => Holds o c b d t ∧ (r = none →
      ∀ kd ∈ w.knowndevs, kd.kdName = fs → kd.kdFs = .null ∨ kd.kdFs = .swap)) s := by
  unfold cwdVolname
  split
  · exact wp_pure fun _ => ⟨h, nofun⟩
  · refine wp_seq (wp_vfsBiglockAcquire h) fun _ t _ _ ht => ?_
    refine wp_bind (wp_biglockHeld_bind ht (wp_pure fun _ => ?_))
    refine wp_seq (wp_vfsBiglockRelease ht) fun _ t _ _ ht => wp_pure fun _ => ⟨ht, ?_⟩
    intro hnone kd hkd hname
    rw [Option.map_eq_none_iff, List.find?_eq_none] at hnone
    have := hnone kd hkd
    simp only [decide_eq_true_eq, not_and, not_not] at this
    by_cases hnull : kd.kdFs = .null
    · exact Or.inl hnull
    · exact Or.inr (this hname hnull)

theorem wp_cwdMove {cwd : V} {name : Name} (h : Holds o c b d s) (hcwd : cwd ∈ o) :
    Spec w k (cwdMove w cwd name) (fun _ t => Holds o c b d t) s := by
  refine wp_seq (wp_uiomove h) fun r t _ _ ht => ?_
  cases r with
  | some e => exact wp_pure fun _ => ht
  | none =>
    refine wp_seq (wp_uiomove ht) fun r t _ _ ht => ?_
    cases r with
    | some e => exact wp_pure fun _ => ht
    | none => exact wp_vop ht hcwd

theorem wp_vfsGetcwd (h : Holds o c b d s) :
    Spec w c (vfsGetcwd w .read) (fun _ t => Holds o c b d t) s := by
  refine wp_kassert_bind rfl ?_
  refine wp_seq (wp_vfsGetcurdir h) fun r t _ _ ht => ?_
  cases r with
  | error e => exact wp_pure fun _ => ht.1
  | ok cwd =>
    obtain ⟨hgives, hc⟩ := ht
    dsimp only
    split
    · next hfs => exact wp_halt fun _ => ⟨cwd, hc, hfs⟩
    · next fs hfs =>
      have ht : Holds (cwd ::ₘ o) c b d t := hgives
      refine wp_seq (wp_cwdVolname ht) fun r t _ _ ht => ?_
      cases r with
      | none => exact wp_halt fun _ => ⟨cwd, fs, hc, hfs, ht.2 rfl⟩
      | some name =>
        refine wp_seq (wp_cwdMove ht.1 (Multiset.mem_cons_self _ _)) fun r t _ _ ht => ?_
        exact wp_seq (wp_vnodeDecref ht) fun _ t _ _ ht => wp_pure fun _ => ht

theorem wp_openVnode {path : Name} {openflags : BitVec 32} {mode : ℕ} (h : Holds o c b d s) :
    Spec w c (openVnode w path openflags mode) (Gives id o c b d) s := by
  refine wp_ite (fun _ => ?_) fun _ => wp_vfsLookup h
  refine wp_seq (wp_vfsLookparent h) fun r t _ _ ht => ?_
  cases r with
  | error e => exact wp_pure fun _ => ht
  | ok r =>
    obtain ⟨dir, name⟩ := r
    have hop : Spec w c (vopCreat w dir name (openflags &&& oExcl ≠ 0) mode)
        (Gives id (dir ::ₘ o) c b d) t :=
      wp_checked (Holds.refs_pos ht (Multiset.mem_cons_self _ _)) (wp_giving ht)
    refine wp_seq hop fun r t _ _ ht => ?_
    cases r with
    | error e => exact wp_seq (wp_vnodeDecref ht) fun _ t _ _ ht => wp_pure fun _ => ht
    | ok vn =>
      exact wp_seq (wp_vnodeDecref (Holds.swap ht)) fun _ t _ _ ht => wp_pure fun _ => ht

theorem wp_openTruncate {openflags : BitVec 32} {canwrite : Bool} (h : Holds o c b d s)
    (hvn : vn ∈ o) :
    Spec w k (openTruncate w vn openflags canwrite) (fun _ t => Holds o c b d t) s := by
  refine wp_ite (fun _ => ?_) fun _ => wp_pure fun _ => h
  exact wp_ite (fun _ => wp_pure fun _ => h) fun _ => wp_vop h hvn

theorem wp_vfsOpen {path : Name} {openflags : BitVec 32} {mode : ℕ} (h : Holds o c b d s) :
    Spec w c (vfsOpen w path openflags mode) (Gives id o c b d) s := by
  unfold vfsOpen
  split
  · exact wp_pure fun _ => h
  · refine wp_seq (wp_openVnode h) fun r t _ _ ht => ?_
    cases r with
    | error e => exact wp_pure fun _ => ht
    | ok vn =>
      have ht : Holds (vn ::ₘ o) c b d t := ht
      refine wp_seq (wp_vop ht (Multiset.mem_cons_self _ _)) fun r t _ _ ht => ?_
      cases r with
      | some e => exact wp_seq (wp_vnodeDecref ht) fun _ t _ _ ht => wp_pure fun _ => ht
      | none =>
        refine wp_seq (wp_openTruncate ht (Multiset.mem_cons_self _ _)) fun r t _ _ ht => ?_
        cases r with
        | some e => exact wp_seq (wp_vnodeDecref ht) fun _ t _ _ ht => wp_pure fun _ => ht
        | none => exact wp_pure fun _ => ht

/-- An operation on one vnode, and its reference back. -/
theorem wp_vop_decref {op : Vop V} (h : Holds (op.vn ::ₘ o) c b d s) :
    Spec w k (vop w op >>= fun result => vnodeDecref op.vn >>= fun _ => pure result)
      (fun _ t => Holds o c b d t) s := by
  refine wp_seq (wp_vop h (Multiset.mem_cons_self _ _)) fun r t _ _ ht => ?_
  exact wp_seq (wp_vnodeDecref ht) fun _ t _ _ ht => wp_pure fun _ => ht

theorem wp_inParent {path : Name} {op : V → Name → Vop V} (hop : ∀ dir name, (op dir name).vn = dir)
    (h : Holds o c b d s) : Spec w c (inParent w path op) (fun _ t => Holds o c b d t) s := by
  refine wp_seq (wp_vfsLookparent h) fun r t _ _ ht => ?_
  cases r with
  | error e => exact wp_pure fun _ => ht
  | ok r =>
    obtain ⟨dir, name⟩ := r
    have ht : Holds ((op dir name).vn ::ₘ o) c b d t := by
      rw [hop]
      exact ht
    have := wp_vop_decref (w := w) (k := c) ht
    rwa [hop] at this

/-- The two references are given back on either side of the test. -/
theorem wp_acrossFs {old newdir : V} {op : Vop V} (hop : op.vn = old ∨ op.vn = newdir)
    (h : Holds (newdir ::ₘ old ::ₘ o) c b d s) :
    Spec w k (acrossFs w old newdir op) (fun _ t => Holds o c b d t) s := by
  have hback : ∀ (r : Option Errno) (t : State V), Holds (newdir ::ₘ old ::ₘ o) c b d t →
      Spec w k (vnodeDecref newdir >>= fun _ => vnodeDecref old >>= fun _ => pure r)
        (fun _ t => Holds o c b d t) t := by
    intro r t ht
    refine wp_seq (wp_vnodeDecref ht) fun _ t _ _ ht => ?_
    exact wp_seq (wp_vnodeDecref ht) fun _ t _ _ ht => wp_pure fun _ => ht
  have hmem : op.vn ∈ newdir ::ₘ old ::ₘ o := by
    rcases hop with hop | hop <;> simp [hop]
  refine wp_ite (fun _ => hback _ s h) fun _ => ?_
  exact wp_seq (wp_vop h hmem) fun r t _ _ ht => hback r t ht

theorem wp_vfsRename {oldpath newpath : Name} (h : Holds o c b d s) :
    Spec w c (vfsRename w oldpath newpath) (fun _ t => Holds o c b d t) s := by
  refine wp_seq (wp_vfsLookparent h) fun r t _ _ ht => ?_
  cases r with
  | error e => exact wp_pure fun _ => ht
  | ok r =>
    have ht : Holds (r.1 ::ₘ o) c b d t := ht
    refine wp_seq (wp_vfsLookparent ht) fun r' t _ _ ht => ?_
    cases r' with
    | error e => exact wp_seq (wp_vnodeDecref ht) fun _ t _ _ ht => wp_pure fun _ => ht
    | ok r' => exact wp_acrossFs (Or.inl rfl) ht

theorem wp_vfsLink {oldpath newpath : Name} (h : Holds o c b d s) :
    Spec w c (vfsLink w oldpath newpath) (fun _ t => Holds o c b d t) s := by
  refine wp_seq (wp_vfsLookup h) fun r t _ _ ht => ?_
  cases r with
  | error e => exact wp_pure fun _ => ht
  | ok oldfile =>
    have ht : Holds (oldfile ::ₘ o) c b d t := ht
    refine wp_seq (wp_vfsLookparent ht) fun r' t _ _ ht => ?_
    cases r' with
    | error e => exact wp_seq (wp_vnodeDecref ht) fun _ t _ _ ht => wp_pure fun _ => ht
    | ok r' => exact wp_acrossFs (Or.inr rfl) ht

theorem wp_vfsReadlink {path : Name} (h : Holds o c b d s) :
    Spec w c (vfsReadlink w path) (fun _ t => Holds o c b d t) s := by
  refine wp_seq (wp_vfsLookup h) fun r t _ _ ht => ?_
  cases r with
  | error e => exact wp_pure fun _ => ht
  | ok vn =>
    have ht : Holds ((Vop.readlink vn).vn ::ₘ o) c b d t := ht
    exact wp_vop_decref ht

end Operations

end Refs

end Vfs

end Os161
