import Os161.Vfs.RefsBalance

/-!
# The name of the boot filesystem

`vfs_setbootfs` of `kern/vfs/vfslookup.c` takes the name of a device, makes it the path `name:` and
changes to it. The name may have the colon already: "if there's a colon, it must be at the end".
The test for that is `strlen(s) > 0`, where `s` is the rest of the name from the colon on. It is
never empty, so every colon is refused, also the one at the end.

`found` is what a path leads to, without the references taken on the way. All that `vfs_chdir` does
follows from it.

## Main results

* `Refs.vfsSetbootfs_eq` — `vfs_setbootfs` with the string functions written out
* `Refs.wp_vfsLookup_found`, `Refs.wp_vfsChdir_found`, `Refs.wp_vfsSetbootfs_found`
* `Refs.setbootfs_spellings_iff` — the two spellings do the same only where both are refused
-/

namespace Os161

namespace Vfs

namespace Refs

open Prog

variable {V α : Type}

/-! ### The path -/

/-- `strchr`: the rest of the string from the first `c` on. -/
def strchr (s : Name) (c : UInt8) : Option Name := (s.findIdx? (· = c)).map s.drop

/-- The path `vfs_setbootfs` changes to, if the name is not refused. -/
def bootfsPath (fsname : Name) : Option Name :=
  -- snprintf(tmp, sizeof(tmp)-1, "%s", fsname)
  let tmp := fsname.take (nameMax - 1)
  match strchr tmp colonChar with
  | some s => if 0 < s.length then none else some tmp
  | none => some (tmp ++ [colonChar])

/-- The rest from a colon on has the colon in it. -/
theorem length_strchr_pos {s r : Name} {c : UInt8} (h : strchr s c = some r) : 0 < r.length := by
  obtain ⟨i, hi, rfl⟩ := Option.map_eq_some_iff.mp h
  have hlt := (List.findIdx?_eq_some_iff_findIdx_eq.mp hi).1
  rw [List.length_drop]
  omega

theorem strchr_eq_none_iff {s : Name} {c : UInt8} : strchr s c = none ↔ c ∉ s := by
  rw [strchr, Option.map_eq_none_iff, List.findIdx?_eq_none_iff]
  constructor
  · intro h hmem
    simpa using h c hmem
  · intro h x hx
    exact decide_eq_false fun hc => h (hc ▸ hx)

theorem bootfsPath_eq (fsname : Name) : bootfsPath fsname =
    if colonChar ∈ fsname.take (nameMax - 1) then none
    else some (fsname.take (nameMax - 1) ++ [colonChar]) := by
  rw [bootfsPath]
  cases h : strchr (fsname.take (nameMax - 1)) colonChar with
  | none => rw [if_neg (strchr_eq_none_iff.mp h)]
  | some r =>
    have hmem : colonChar ∈ fsname.take (nameMax - 1) := by
      by_contra hc
      rw [strchr_eq_none_iff.mpr hc] at h
      cases h
    rw [if_pos hmem]
    exact if_pos (length_strchr_pos h)

/-- `vfs_setbootfs`, with the string functions written out. -/
theorem vfsSetbootfs_eq [DecidableEq V] (w : World V) (fsname : Name) : vfsSetbootfs w fsname = (do
    vfsBiglockAcquire
    match bootfsPath fsname with
    | none => do
        vfsBiglockRelease
        pure (some .einval)
    | some tmp => do
        match ← vfsChdir w tmp with
        | some e => do
            vfsBiglockRelease
            pure (some e)
        | none => do
            match ← vfsGetcurdir with
            | .error e => do
                vfsBiglockRelease
                pure (some e)
            | .ok newguy => do
                changeBootfs (some newguy)
                vfsBiglockRelease
                pure none) := by
  rw [vfsSetbootfs, bootfsPath_eq]
  by_cases h : colonChar ∈ fsname.take (nameMax - 1)
  · rw [if_pos h, if_pos h]
  · rewrite [if_neg h, if_neg h]
    rfl

/-! ### What a path leads to -/

/-- The root of a device, and the number of the next operation. -/
def deviceRoot (w : World V) (k : ℕ) (devname : Name) : Option (Except Errno V × ℕ) :=
  match vfsGetroot w.knowndevs devname with
  | none => some (.error .enodev, k)
  | some (.fsroot fs) => some (w.getroot k fs, k + 1)
  | some (.device dev) => some (.ok (w.kdVnode dev), k)
  | some .enxio => some (.error .enxio, k)
  | some .panicked => none

/-- The current directory. -/
def curDir (s : State V) : Option (Except Errno V × ℕ) :=
  match s.pCwd with
  | none => some (.error .enoent, s.tick)
  | some cwd => some (.ok cwd, s.tick)

/-- The root of the current filesystem. -/
def curRoot (w : World V) (s : State V) : Option (Except Errno V × ℕ) :=
  match s.pCwd with
  | none => some (.error .enoent, s.tick)
  | some cwd => (w.vnFs cwd).map fun fs => (w.getroot s.tick fs, s.tick + 1)

/-- The root of the boot filesystem. -/
def bootRoot (s : State V) : Option (Except Errno V × ℕ) :=
  match s.bootfsVnode with
  | none => some (.error .enoent, s.tick)
  | some vn => some (.ok vn, s.tick)

/-- Where a path starts, and what is left of it. -/
def startOf (w : World V) (s : State V) (path : Name) : Option (Except Errno V × ℕ) × Name :=
  if path = [] then (some (.error .einval, s.tick), [])
  else
    match path.findIdx? (fun ch => ch = colonChar ∨ ch = slashChar) with
    | none => (curDir s, path)
    | some i =>
        if path[i]? = some colonChar ∧ 0 < i then
          (deviceRoot w s.tick (path.take i), (path.drop (i + 1)).dropWhile (· = slashChar))
        else if path[i]? = some slashChar ∧ i ≠ 0 then (curDir s, path)
        else if path[i]? = some slashChar then (bootRoot s, (path.drop 1).dropWhile (· = slashChar))
        else (curRoot w s, (path.drop 1).dropWhile (· = slashChar))

/-- What a path leads to, and the number of the next operation. -/
def found (w : World V) (s : State V) (path : Name) : Option (Except Errno V × ℕ) :=
  match startOf w s path with
  | (none, _) => none
  | (some (.error e, k), _) => some (.error e, k)
  | (some (.ok vn, k), rest) =>
      if rest.length = 0 then some (.ok vn, k) else some (w.lookup k vn rest, k + 1)

/-- The state with the vnode of a result handed out. -/
def handed [DecidableEq V] : Except Errno V → State V → State V
  | .ok vn, s => { s with refs := Function.update s.refs vn (s.refs vn + 1) }
  | .error _, s => s

/-- What `vfs_setcurdir` has against what was found, if anything. -/
def objection (w : World V) : Except Errno V × ℕ → Option Errno
  | (.error e, _) => some e
  | (.ok vn, k) =>
      match w.gettype k vn with
      | .error e => some e
      | .ok vtype => if vtype ≠ .dir then some .enotdir else none

section Found

variable [DecidableEq V] {w : World V} {s : State V} {vn : V} {E : Panic → State V → Prop}

/-- Runs of which nothing is watched. -/
abbrev Runs (x : M V α) (Q : α → State V → Prop) (E : Panic → State V → Prop) (s : State V) :
    Prop :=
  wp (Watch.any (Growth.any (State V))) x Q E s

theorem runs_vnodeDecref {Q : Unit → State V → Prop} (hpos : 0 < s.refs vn)
    (h : Q () { s with refs := Function.update s.refs vn (s.refs vn - 1) }) :
    Runs (vnodeDecref vn) Q E s := by
  refine wp_get_bind ?_
  rw [kassert, if_pos hpos]
  refine wp_ite (fun _ => wp_update fun _ => h) fun hone => wp_update fun _ => ?_
  rwa [show s.refs vn - 1 = 0 by omega] at h

/-- A reference that is taken and given back. -/
theorem update_taken (f : V → ℕ) (v : V) :
    Function.update (Function.update f v (f v + 1)) v
      (Function.update f v (f v + 1) v - 1) = f := by
  rw [Function.update_self, Nat.add_sub_cancel, Function.update_idem, Function.update_eq_self]

/-- A reference that is given back after another one was taken. -/
theorem update_between (f : V → ℕ) (v u : V) :
    Function.update (Function.update (Function.update f v (f v + 1)) u
        (Function.update f v (f v + 1) u + 1)) v
      (Function.update (Function.update f v (f v + 1)) u
        (Function.update f v (f v + 1) u + 1) v - 1) = Function.update f u (f u + 1) := by
  funext x
  by_cases hxv : x = v
  · subst hxv
    by_cases hxu : x = u
    · subst hxu
      simp
    · simp [Function.update_of_ne hxu]
  · rw [Function.update_of_ne hxv]
    by_cases hxu : x = u
    · subst hxu
      simp [Function.update_of_ne hxv]
    · simp [Function.update_of_ne hxu, Function.update_of_ne hxv]

/-- An operation that returns a vnode. -/
theorem runs_giving {f : ℕ → Except Errno V} {Q : Except Errno V → State V → Prop}
    (h : Q (f s.tick) (handed (f s.tick) { s with tick := s.tick + 1 })) :
    Runs (giving f id) Q E s := by
  refine wp_bind (wp_get_bind (wp_bind (wp_update fun _ => wp_pure fun _ => ?_)))
  cases hf : f s.tick with
  | error e =>
    rw [hf] at h
    exact wp_pure fun _ => h
  | ok vn =>
    rw [hf] at h
    exact wp_bind (wp_update fun _ => wp_pure fun _ => h)

omit [DecidableEq V] in
theorem runs_biglockHeld {f : Unit → M V α} {Q : α → State V → Prop} (hlock : 0 < s.biglockDepth)
    (h : Runs (f ()) Q E s) : Runs (biglockHeld >>= f) Q E s := by
  refine wp_bind (wp_bind (wp_get fun _ => ?_))
  rw [kassert, if_pos hlock]
  exact wp_pure fun _ => h

/-- `vfs_getroot`. -/
theorem runs_vfsGetrootRef {devname : Name} {Q : Except Errno V → State V → Prop}
    (hlock : 0 < s.biglockDepth)
    (h : ∀ r k, deviceRoot w s.tick devname = some (r, k) → Q r (handed r { s with tick := k }))
    (hhalt : deviceRoot w s.tick devname = none → ∀ e t, E e t) :
    Runs (vfsGetrootRef w devname) Q E s := by
  refine runs_biglockHeld hlock ?_
  rw [deviceRoot] at h hhalt
  cases hroot : vfsGetroot w.knowndevs devname with
  | none =>
    rw [hroot] at h
    exact wp_pure fun _ => h _ _ rfl
  | some root =>
    rw [hroot] at h hhalt
    cases root with
    | fsroot fs => exact runs_giving (h _ _ rfl)
    | device dev => exact wp_bind (wp_update fun _ => wp_pure fun _ => h _ _ rfl)
    | enxio => exact wp_pure fun _ => h _ _ rfl
    | panicked => exact wp_halt fun _ => hhalt rfl _ _

/-- `vfs_getcurdir`. -/
theorem runs_vfsGetcurdir {Q : Except Errno V → State V → Prop}
    (h : ∀ r k, curDir s = some (r, k) → Q r (handed r { s with tick := k })) :
    Runs vfsGetcurdir Q E s := by
  refine wp_get_bind ?_
  cases hcwd : s.pCwd with
  | none => exact wp_pure fun _ => h (.error .enoent) s.tick (by rw [curDir, hcwd])
  | some cwd =>
    exact wp_bind (wp_update fun _ => wp_pure fun _ => h (.ok cwd) s.tick (by rw [curDir, hcwd]))

/-- A relative path, or just a bare filename. -/
theorem runs_relative {path : Name} {Q : Except Errno (V × Name) → State V → Prop}
    (h : ∀ r k, curDir s = some (r, k) →
      Q (r.map fun vn => (vn, path)) (handed r { s with tick := k })) :
    Runs (getdevice.relative path) Q E s := by
  refine wp_bind (runs_vfsGetcurdir fun r k hr => ?_)
  have hQ := h r k hr
  cases r with
  | error e => exact wp_pure fun _ => hQ
  | ok vn => exact wp_pure fun _ => hQ

/-- The root of the current filesystem: the reference to the current directory is given back. -/
theorem runs_curRoot {p : Name} {Q : Except Errno (V × Name) → State V → Prop}
    (h : ∀ r k, curRoot w s = some (r, k) →
      Q (r.map fun vn => (vn, p)) (handed r { s with tick := k }))
    (hhalt : curRoot w s = none → ∀ e t, E e t) :
    Runs (do
      match ← vfsGetcurdir with
      | .error e => pure (.error e)
      | .ok vn =>
          match w.vnFs vn with
          | none => halt .vnFs
          | some fs => do
              let result ← fsopGetroot w fs
              vnodeDecref vn
              match result with
              | .error e => pure (.error e)
              | .ok startvn => pure (.ok (startvn, p))) Q E s := by
  refine wp_bind (runs_vfsGetcurdir fun r k hr => ?_)
  rcases Option.eq_none_or_eq_some s.pCwd with hcwd | ⟨cwd, hcwd⟩
  · rw [curDir, hcwd] at hr
    cases hr
    exact wp_pure fun _ => h (.error .enoent) s.tick (by rw [curRoot, hcwd])
  · rw [curDir, hcwd] at hr
    cases hr
    dsimp only
    cases hfs : w.vnFs cwd with
    | none => exact wp_halt fun _ => hhalt (by rw [curRoot, hcwd]; simp [hfs]) _ _
    | some fs =>
      have hQ := h (w.getroot s.tick fs) (s.tick + 1) (by rw [curRoot, hcwd]; simp [hfs])
      refine wp_bind (runs_giving ?_)
      dsimp only [handed]
      cases hroot : w.getroot s.tick fs with
      | error e =>
        rw [hroot] at hQ
        refine wp_bind (runs_vnodeDecref (by simp) (wp_pure fun _ => ?_))
        rw [update_taken]
        exact hQ
      | ok root =>
        rw [hroot] at hQ
        refine wp_bind (runs_vnodeDecref ?_ (wp_pure fun _ => ?_))
        · by_cases hne : cwd = root
          · subst hne
            simp
          · simp [Function.update_of_ne hne]
        · rw [update_between]
          exact hQ

/-- `getdevice`. -/
theorem runs_getdevice {path : Name} {Q : Except Errno (V × Name) → State V → Prop}
    (hlock : 0 < s.biglockDepth)
    (h : ∀ r k, (startOf w s path).1 = some (r, k) →
      Q (r.map fun vn => (vn, (startOf w s path).2)) (handed r { s with tick := k }))
    (hhalt : (startOf w s path).1 = none → ∀ e t, E e t) :
    Runs (getdevice w path) Q E s := by
  refine runs_biglockHeld hlock ?_
  rw [startOf] at h hhalt
  by_cases hnil : path = []
  · rw [if_pos hnil] at h ⊢
    exact wp_pure fun _ => h _ _ rfl
  · rw [if_neg hnil] at h hhalt ⊢
    cases hi : path.findIdx? (fun ch => ch = colonChar ∨ ch = slashChar) with
    | none =>
      rw [hi] at h
      exact runs_relative h
    | some i =>
      rw [hi] at h hhalt
      dsimp only at h hhalt ⊢
      by_cases hdev : path[i]? = some colonChar ∧ 0 < i
      · rw [if_pos hdev] at h hhalt ⊢
        refine wp_bind (runs_vfsGetrootRef hlock (fun r k hr => ?_) hhalt)
        have hQ := h r k hr
        cases r with
        | error e => exact wp_pure fun _ => hQ
        | ok vn => exact wp_pure fun _ => hQ
      · rw [if_neg hdev] at h hhalt ⊢
        by_cases hrel : path[i]? = some slashChar ∧ i ≠ 0
        · rw [if_pos hrel] at h ⊢
          exact runs_relative h
        · rw [if_neg hrel] at h hhalt ⊢
          by_cases hslash : path[i]? = some slashChar
          · rw [if_pos hslash] at h ⊢
            refine wp_get_bind ?_
            cases hboot : s.bootfsVnode with
            | none =>
              have hQ := h (.error .enoent) s.tick (by dsimp only; rw [bootRoot, hboot])
              exact wp_pure fun _ => hQ
            | some vn =>
              have hQ := h (.ok vn) s.tick (by dsimp only; rw [bootRoot, hboot])
              exact wp_bind (wp_update fun _ => wp_pure fun _ => hQ)
          · rw [if_neg hslash] at h hhalt ⊢
            exact runs_curRoot h hhalt

omit [DecidableEq V] in
theorem runs_vfsBiglockRelease {Q : Unit → State V → Prop} (hlock : 0 < s.biglockDepth)
    (h : Q () { s with biglockDepth := s.biglockDepth - 1 }) : Runs vfsBiglockRelease Q E s := by
  refine wp_get_bind ?_
  rw [kassert, if_pos hlock]
  exact wp_update fun _ => h

/-- The lock is released with a vnode handed out. -/
theorem runs_release_handed {Q : Unit → State V → Prop} {r : Except Errno V} {k : ℕ}
    (h : Q () (handed r { s with tick := k })) :
    Runs vfsBiglockRelease Q E
      (handed r { s with biglockDepth := s.biglockDepth + 1, tick := k }) := by
  cases r with
  | error e => exact runs_vfsBiglockRelease (Nat.succ_pos _) h
  | ok vn => exact runs_vfsBiglockRelease (Nat.succ_pos _) h

/-- The reference to where the path starts is given back, and what was found is handed out. -/
theorem runs_vopLookup {rest : Name} {f : Except Errno V → M V α} {Q : α → State V → Prop}
    (h : Runs (f (w.lookup s.tick vn rest)) Q E
      (handed (w.lookup s.tick vn rest) { s with tick := s.tick + 1 })) :
    Runs (do
      let result ← vopLookup w vn rest
      vnodeDecref vn
      f result) Q E (handed (.ok vn) s) := by
  refine wp_bind (wp_bind (wp_get_bind ?_))
  rw [kassert, if_pos (by simp [handed])]
  refine wp_pure fun _ => runs_giving ?_
  dsimp only [handed]
  cases hfound : w.lookup s.tick vn rest with
  | error e =>
    rw [hfound] at h
    refine wp_bind (runs_vnodeDecref (by simp) ?_)
    rw [update_taken]
    exact h
  | ok a =>
    rw [hfound] at h
    refine wp_bind (runs_vnodeDecref ?_ ?_)
    · by_cases hne : vn = a
      · subst hne
        simp
      · simp [Function.update_of_ne hne]
    · rw [update_between]
      exact h

/-- `vfs_lookup` hands out what the path leads to. -/
theorem wp_vfsLookup_found {path : Name} {Q : Except Errno V → State V → Prop}
    (h : ∀ r k, found w s path = some (r, k) → Q r (handed r { s with tick := k }))
    (hhalt : found w s path = none → ∀ e t, E e t) : Runs (vfsLookup w path) Q E s := by
  refine wp_bind (wp_update fun _ => ?_)
  have hsame : startOf w { s with biglockDepth := s.biglockDepth + 1 } path =
      startOf w s path := rfl
  rw [found] at h hhalt
  refine wp_bind (runs_getdevice (Nat.succ_pos _) (fun r k hr => ?_) fun hnone => ?_)
  · rw [hsame] at hr ⊢
    rcases hstart : startOf w s path with ⟨x, rest⟩
    rw [hstart] at h hr
    subst hr
    cases r with
    | error e =>
      have hQ := h _ _ rfl
      exact wp_bind (runs_release_handed (s := s) (wp_pure fun _ => hQ))
    | ok vn =>
      by_cases hrest : rest.length = 0
      · have hQ := h (.ok vn) k (if_pos hrest)
        refine wp_ite (fun _ => ?_) fun hc => absurd hrest hc
        exact wp_bind (runs_release_handed (s := s) (wp_pure fun _ => hQ))
      · have hQ := h _ _ (if_neg hrest)
        refine wp_ite (fun hc => absurd hc hrest) fun _ => ?_
        exact runs_vopLookup (wp_bind (runs_release_handed (s := s) (wp_pure fun _ => hQ)))
  · rw [hsame] at hnone
    refine hhalt ?_
    rcases hstart : startOf w s path with ⟨x, rest⟩
    rw [hstart] at hnone
    subst hnone
    rfl

/-! ### The current directory and the boot filesystem -/

/-- Whatever becomes of the reference. -/
theorem runs_decrefOld_any {o : Option V} {Q : Unit → State V → Prop}
    (h : ∀ refs, Q () { s with refs := refs }) (hhalt : ∀ e t, E e t) :
    Runs (decrefOld o) Q E s := by
  cases o with
  | none => exact wp_pure fun _ => h s.refs
  | some vn =>
    by_cases hpos : 0 < s.refs vn
    · exact runs_vnodeDecref hpos (h _)
    · refine wp_get_bind ?_
      rw [kassert, if_neg hpos]
      exact wp_bind (wp_halt fun _ => hhalt _ _)

/-- `vfs_setcurdir` with a vnode that was found. -/
theorem runs_vfsSetcurdir {k : ℕ} {Q : Option Errno → State V → Prop}
    (hfail : ∀ e, objection w (.ok vn, k) = some e →
      Q (some e) (handed (.ok vn) { s with tick := k + 1 }))
    (hok : objection w (.ok vn, k) = none →
      ∀ refs, Q none { s with refs := refs, pCwd := some vn, tick := k + 1 })
    (hhalt : objection w (.ok vn, k) = none → ∀ e t, E e t) :
    Runs (vfsSetcurdir w vn) Q E (handed (.ok vn) { s with tick := k }) := by
  refine wp_bind (wp_bind (wp_get_bind ?_))
  rw [kassert, if_pos (by simp [handed])]
  refine wp_pure fun _ => wp_bind (wp_get_bind (wp_bind (wp_update fun _ => wp_pure fun _ =>
    wp_pure fun _ => ?_)))
  dsimp only [handed] at hfail ⊢
  rw [objection] at hfail hok hhalt
  cases htype : w.gettype k vn with
  | error e =>
    rw [htype] at hfail
    exact wp_pure fun _ => hfail e rfl
  | ok vtype =>
    rw [htype] at hfail hok hhalt
    refine wp_ite (fun hne => wp_pure fun _ => hfail _ (if_pos hne)) fun hdir => ?_
    refine wp_bind (wp_update fun _ => wp_get_bind (wp_bind (wp_update fun _ => ?_)))
    refine wp_bind (runs_decrefOld_any (fun refs => wp_pure fun _ => ?_) (hhalt (if_neg hdir)))
    exact hok (if_neg hdir) refs

/-- `vfs_chdir` changes to what was found, if there is nothing against it. -/
theorem wp_vfsChdir_found {path : Name} {Q : Option Errno → State V → Prop}
    (hfail : ∀ r e, found w s path = some r → objection w r = some e →
      ∀ k, Q (some e) { s with tick := k })
    (hok : ∀ vn k, found w s path = some (.ok vn, k) → objection w (.ok vn, k) = none →
      ∀ refs n, Q none { s with refs := refs, pCwd := some vn, tick := n })
    (hhalt : (∀ r e, found w s path = some r → objection w r ≠ some e) → ∀ e t, E e t) :
    Runs (vfsChdir w path) Q E s := by
  refine wp_bind (wp_vfsLookup_found (fun r k hr => ?_) fun hnone => ?_)
  · cases r with
    | error e => exact wp_pure fun _ => hfail _ e hr rfl k
    | ok vn =>
      have hstop : objection w (.ok vn, k) = none → ∀ e t, E e t := by
        intro hnone
        refine hhalt fun r e hr' hobj => ?_
        rw [hr] at hr'
        cases hr'
        cases hnone.symm.trans hobj
      refine wp_bind (runs_vfsSetcurdir (fun e he => ?_) (fun hnone refs => ?_) hstop)
      · refine wp_bind (runs_vnodeDecref (by simp [handed]) (wp_pure fun _ => ?_))
        dsimp only [handed]
        rw [update_taken]
        exact hfail _ e hr he (k + 1)
      · refine wp_bind (runs_decrefOld_any (o := some vn) (fun refs' => wp_pure fun _ => ?_)
          (hstop hnone))
        exact hok vn k hr hnone refs' (k + 1)
  · refine hhalt fun r e hr => ?_
    cases hnone.symm.trans hr

/-- `vfs_setbootfs` of a name without a colon. -/
theorem wp_vfsSetbootfs_found {fsname : Name} {Q : Option Errno → State V → Prop}
    (hcolon : colonChar ∉ fsname.take (nameMax - 1))
    (hfail : ∀ r e, found w s (fsname.take (nameMax - 1) ++ [colonChar]) = some r →
      objection w r = some e → ∀ k, Q (some e) { s with tick := k })
    (hok : ∀ vn k, found w s (fsname.take (nameMax - 1) ++ [colonChar]) = some (.ok vn, k) →
      objection w (.ok vn, k) = none →
      ∀ refs n, Q none { s with refs := refs, pCwd := some vn, bootfsVnode := some vn, tick := n })
    (hhalt : (∀ r e, found w s (fsname.take (nameMax - 1) ++ [colonChar]) = some r →
      objection w r ≠ some e) → ∀ e t, E e t) :
    Runs (vfsSetbootfs w fsname) Q E s := by
  refine wp_bind (wp_update fun _ => ?_)
  refine wp_ite (fun hc => absurd hc hcolon) fun _ => ?_
  have hsame : found w { s with biglockDepth := s.biglockDepth + 1 }
      (fsname.take (nameMax - 1) ++ [colonChar]) =
      found w s (fsname.take (nameMax - 1) ++ [colonChar]) := rfl
  refine wp_bind (wp_vfsChdir_found (fun r e hr he k => ?_) (fun vn k hr hnone refs n => ?_) ?_)
  · exact wp_bind (runs_vfsBiglockRelease (Nat.succ_pos _) (wp_pure fun _ => hfail r e hr he k))
  · refine wp_bind (runs_vfsGetcurdir fun r k' hr' => ?_)
    cases hr'
    have hstop : ∀ e t, E e t := by
      refine hhalt fun r' e hr' hobj => ?_
      rw [← hsame, hr] at hr'
      cases hr'
      cases hnone.symm.trans hobj
    refine wp_bind (wp_get_bind (wp_bind (wp_update fun _ => ?_)))
    refine runs_decrefOld_any (fun refs' => ?_) hstop
    exact wp_bind (runs_vfsBiglockRelease (Nat.succ_pos _)
      (wp_pure fun _ => hok vn k hr hnone refs' n))
  · rwa [hsame]

/-! ### The spellings of a name -/

/-- A run, without the number of operations made. -/
def untimed : Outcome Panic (State V) α → Outcome Panic (State V) α
  | .done a t => .done a { t with tick := 0 }
  | .halt e t => .halt e { t with tick := 0 }

/-- The root of a device, or of the current filesystem if the name is empty. -/
def rootOf (w : World V) (s : State V) (name : Name) : Option (Except Errno V × ℕ) :=
  if name = [] then curRoot w s else deviceRoot w s.tick name

/-- A colon that is not at the end. -/
def InnerColon (name : Name) : Prop := ∃ a b, name = a ++ colonChar :: b ∧ b ≠ []

/-- What is expected of `vfs_setbootfs` for the name `name` of a device, and for another name. -/
structure Spellings (w : World V) (s : State V) (name other : Name) : Prop where
  /-- The colon at the end makes no difference. -/
  colon : untimed ((vfsSetbootfs w (name ++ [colonChar])).run s) =
    untimed ((vfsSetbootfs w name).run s)
  /-- A colon elsewhere is refused. -/
  elsewhere : InnerColon other →
    untimed ((vfsSetbootfs w other).run s) = untimed (.done (some .einval) s)
  success : ∀ fsname ∈ [name, name ++ [colonChar]], ∀ t,
    (vfsSetbootfs w fsname).run s = .done none t →
      ∃ vn k, rootOf w s name = some (.ok vn, k) ∧ t.pCwd = some vn ∧ t.bootfsVnode = some vn
  failure : ∀ fsname e t, (vfsSetbootfs w fsname).run s = .done (some e) t →
    t.pCwd = s.pCwd ∧ t.bootfsVnode = s.bootfsVnode

/-- The path is one that cannot be changed to, because of `EINVAL`. -/
def Refused (w : World V) (s : State V) (path : Name) : Prop :=
  (found w s path).bind (objection w) = some .einval

instance (w : World V) (s : State V) (path : Name) : Decidable (Refused w s path) :=
  inferInstanceAs (Decidable (_ = _))

omit [DecidableEq V] in
/-- The path `name:` leads to the root of the device. -/
theorem found_device {name : Name} (hcolon : colonChar ∉ name) (hslash : slashChar ∉ name) :
    found w s (name ++ [colonChar]) = rootOf w s name := by
  have hidx : (name ++ [colonChar]).findIdx? (fun ch => ch = colonChar ∨ ch = slashChar) =
      some name.length := by
    rw [List.findIdx?_append, List.findIdx?_eq_none_iff.mpr fun x hx => ?_]
    · simp
    · refine decide_eq_false ?_
      rintro (rfl | rfl)
      · exact hcolon hx
      · exact hslash hx
  have hget : (name ++ [colonChar])[name.length]? = some colonChar := by
    rw [List.getElem?_append_right (Nat.le_refl _), Nat.sub_self]
    rfl
  have hdrop : ((name ++ [colonChar]).drop (name.length + 1)).dropWhile (· = slashChar) = [] := by
    rw [List.drop_eq_nil_of_le (by simp)]
    rfl
  have hfound : ∀ x : Option (Except Errno V × ℕ), startOf w s (name ++ [colonChar]) = (x, []) →
      found w s (name ++ [colonChar]) = x := by
    intro x hx
    rw [found, hx]
    rcases x with _ | ⟨_ | vn, k⟩ <;> rfl
  refine hfound _ ?_
  rw [startOf, if_neg (by simp), hidx, rootOf]
  dsimp only
  rw [hget]
  by_cases hnil : name = []
  · subst hnil
    rw [if_neg (by simp), if_neg (by decide), if_neg (by decide), if_pos rfl]
    rfl
  · rw [if_pos ⟨rfl, List.length_pos_iff.mpr hnil⟩, if_neg hnil, List.take_left, hdrop]

theorem run_vfsSetbootfs_colon {fsname : Name} (hcolon : colonChar ∈ fsname.take (nameMax - 1)) :
    (vfsSetbootfs w fsname).run s = .done (some .einval) s := by
  have h : Runs (vfsSetbootfs w fsname) (fun r t => r = some .einval ∧ t = s)
      (fun _ _ => False) s := by
    refine wp_bind (wp_update fun _ => wp_ite (fun _ => ?_) fun hc => absurd hcolon hc)
    exact wp_bind (runs_vfsBiglockRelease (Nat.succ_pos _) (wp_pure fun _ => ⟨rfl, rfl⟩))
  have hsat := sat_of_wp h
  cases hrun : (vfsSetbootfs w fsname).run s with
  | done r t =>
    rw [hrun] at hsat
    rw [hsat.1, hsat.2]
  | halt e t =>
    rw [hrun] at hsat
    exact hsat.elim

/-- When a name is refused with `EINVAL`, and nothing happens. -/
theorem untimed_einval_iff {fsname : Name} :
    untimed ((vfsSetbootfs w fsname).run s) = untimed (.done (some .einval) s) ↔
      colonChar ∈ fsname.take (nameMax - 1) ∨
        Refused w s (fsname.take (nameMax - 1) ++ [colonChar]) := by
  by_cases hcolon : colonChar ∈ fsname.take (nameMax - 1)
  · rw [run_vfsSetbootfs_colon hcolon]
    exact iff_of_true rfl (Or.inl hcolon)
  rw [or_iff_right hcolon]
  have hsat := sat_of_wp (wp_vfsSetbootfs_found (w := w) (s := s)
    (Q := fun r t => (r = some .einval ↔ Refused w s (fsname.take (nameMax - 1) ++ [colonChar])) ∧
      (r ≠ none → { t with tick := 0 } = { s with tick := 0 }))
    (E := fun _ _ => ¬Refused w s (fsname.take (nameMax - 1) ++ [colonChar])) hcolon ?_ ?_ ?_)
  · cases hrun : (vfsSetbootfs w fsname).run s with
    | done r t =>
      rw [hrun] at hsat
      rw [← hsat.1]
      constructor
      · intro h
        exact (Outcome.done.inj h).1
      · intro h
        rw [untimed, untimed, h, hsat.2 (by rw [h]; nofun)]
    | halt e t =>
      rw [hrun] at hsat
      exact iff_of_false nofun hsat
  · intro r e hr he k
    refine ⟨?_, fun _ => rfl⟩
    rw [Refused, hr, Option.bind_some, he]
  · intro vn k hr hnone refs n
    refine ⟨?_, fun h => absurd rfl h⟩
    rw [Refused, hr, Option.bind_some, hnone]
  · intro hnot _ _ h
    obtain ⟨r, hr, he⟩ := Option.bind_eq_some_iff.mp h
    exact hnot r _ hr he

/-- A name that works leads to the root of the device, which both slots get. -/
theorem vfsSetbootfs_done {fsname : Name} {t : State V}
    (hrun : (vfsSetbootfs w fsname).run s = .done none t) :
    ∃ vn k, found w s (fsname.take (nameMax - 1) ++ [colonChar]) = some (.ok vn, k) ∧
      t.pCwd = some vn ∧ t.bootfsVnode = some vn := by
  have hcolon : colonChar ∉ fsname.take (nameMax - 1) := by
    intro hc
    rw [run_vfsSetbootfs_colon hc] at hrun
    cases (Outcome.done.inj hrun).1
  have h := wp_vfsSetbootfs_found (w := w) (s := s) (Q := fun r t => r = none → ∃ vn k,
      found w s (fsname.take (nameMax - 1) ++ [colonChar]) = some (.ok vn, k) ∧
        t.pCwd = some vn ∧ t.bootfsVnode = some vn) (E := fun _ _ => True) hcolon
    (fun _ _ _ _ _ => nofun) (fun vn k hr _ _ _ _ => ⟨vn, k, hr, rfl, rfl⟩) fun _ _ _ => trivial
  exact post_of_wp h hrun trivial rfl

/-- A name that fails leaves both slots as they are. -/
theorem vfsSetbootfs_failed {fsname : Name} {e : Errno} {t : State V}
    (hrun : (vfsSetbootfs w fsname).run s = .done (some e) t) :
    t.pCwd = s.pCwd ∧ t.bootfsVnode = s.bootfsVnode := by
  by_cases hcolon : colonChar ∈ fsname.take (nameMax - 1)
  · rw [run_vfsSetbootfs_colon hcolon] at hrun
    rw [← (Outcome.done.inj hrun).2]
    exact ⟨rfl, rfl⟩
  · have h := wp_vfsSetbootfs_found (w := w) (s := s) (Q := fun r t => r ≠ none →
        t.pCwd = s.pCwd ∧ t.bootfsVnode = s.bootfsVnode) (E := fun _ _ => True) hcolon
      (fun _ _ _ _ _ _ => ⟨rfl, rfl⟩) (fun _ _ _ _ _ _ h => absurd rfl h) fun _ _ _ => trivial
    exact post_of_wp h hrun trivial nofun

/-- The two spellings of a name never do the same, unless the name itself cannot be changed to
because of `EINVAL`. A colon elsewhere is refused if the copy of the name still has it. -/
theorem setbootfs_spellings_iff (w : World V) (s : State V) {name : Name} (other : Name)
    (hcolon : colonChar ∉ name) (hslash : slashChar ∉ name) (hlen : name.length < nameMax - 1) :
    Spellings w s name other ↔
      (rootOf w s name).bind (objection w) = some .einval ∧
        (InnerColon other → colonChar ∈ other.take (nameMax - 1) ∨
          Refused w s (other.take (nameMax - 1) ++ [colonChar])) := by
  have hname : name.take (nameMax - 1) = name := List.take_of_length_le (by omega)
  have hmem : colonChar ∈ (name ++ [colonChar]).take (nameMax - 1) := by
    rw [List.take_of_length_le (by simp; omega)]
    exact List.mem_append_right _ (List.mem_singleton.mpr rfl)
  have hdevice : Refused w s (name ++ [colonChar]) ↔
      (rootOf w s name).bind (objection w) = some .einval := by
    rw [Refused, found_device hcolon hslash]
  have hrefused : untimed ((vfsSetbootfs w (name ++ [colonChar])).run s) =
      untimed ((vfsSetbootfs w name).run s) ↔
        (rootOf w s name).bind (objection w) = some .einval := by
    rw [run_vfsSetbootfs_colon hmem, eq_comm, untimed_einval_iff, hname, or_iff_right hcolon,
      hdevice]
  constructor
  · intro h
    exact ⟨hrefused.mp h.colon, fun hinner => untimed_einval_iff.mp (h.elsewhere hinner)⟩
  · rintro ⟨hroot, hinner⟩
    refine ⟨hrefused.mpr hroot, fun hi => untimed_einval_iff.mpr (hinner hi), ?_, ?_⟩
    · intro fsname hfs t hrun
      rcases List.mem_cons.mp hfs with rfl | hfs
      · have hdone := vfsSetbootfs_done hrun
        rwa [hname, found_device hcolon hslash] at hdone
      · rw [List.mem_singleton] at hfs
        rw [hfs, run_vfsSetbootfs_colon hmem] at hrun
        cases (Outcome.done.inj hrun).1
    · exact fun _ _ _ hrun => vfsSetbootfs_failed hrun

end Found

/-- The disk `vol`, and a name with a colon in the middle. -/
theorem setbootfs_spellings_iff_vol : Spellings oneDisk booted vol (vol ++ [colonChar] ++ vol) ↔
    (rootOf oneDisk booted vol).bind (objection oneDisk) = some .einval ∧
      (InnerColon (vol ++ [colonChar] ++ vol) →
        colonChar ∈ (vol ++ [colonChar] ++ vol).take (nameMax - 1) ∨
          Refused oneDisk booted ((vol ++ [colonChar] ++ vol).take (nameMax - 1) ++ [colonChar])) :=
  setbootfs_spellings_iff oneDisk booted (vol ++ [colonChar] ++ vol) (by decide) (by decide)
    (by decide)

/-- `vfs_setbootfs` takes `vol` and refuses `vol:`. -/
theorem not_spellings_vol : ¬Spellings oneDisk booted vol (vol ++ [colonChar] ++ vol) := by
  intro h
  have hcolon := h.colon
  rw [run_vfsSetbootfs_colon (by decide), eq_comm] at hcolon
  exact absurd (untimed_einval_iff.mp hcolon) (by decide)

end Refs

end Vfs

end Os161
