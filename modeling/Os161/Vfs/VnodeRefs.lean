import Os161.Vfs.Vnode

/-!
# Taking and dropping references

The steps of the reference protocol that make or unmake no vnode: `vfs_biglock`, `VOP_INCREF` and
`VOP_DECREF`, the second look of `sfs_reclaim`, and a reference handed to another thread.

All but the first change one count and the references to one vnode, so there is one lemma for them,
`Inv.recount`; what is left for each step is to count the references before and after it. A thread
that is past its second look must find no reference turned up behind it. `VOP_INCREF` cannot bring
one up: a holder has a reference that the second look would have seen, and `sfs_loadvnode` has
`vfs_biglock`.

## Main results

* `Inv.goto` — a thread moves on and touches nothing
* `Inv.recount` — one count changes, and the references to it
* `Inv.incref`, `Inv.decref`, `Inv.reclaimCheck`, `Inv.give`
-/

namespace Os161

namespace Vnode

variable {T V I : Type*} [DecidableEq T] [DecidableEq V] [DecidableEq I]

section Steps

variable {s s' : State T V I} {r : V → Option T} {t u : T} {v : V} {p : Pc V I}

omit [DecidableEq T] [DecidableEq V] [DecidableEq I] in
theorem State.live_iff : s.Live v ↔ ∃ ino n, s.slot v = .live ino n := by
  unfold State.Live State.svIno
  cases s.slot v <;> simp

/-! A change of place changes nothing else. -/

section Goto

omit [DecidableEq V] [DecidableEq I]

@[simp] theorem goto_pc_self : (s.goto t p).pc t = p := by simp [State.goto]

theorem goto_pc_of_ne (h : u ≠ t) : (s.goto t p).pc u = s.pc u := by simp [State.goto, h]

@[simp] theorem goto_slot : (s.goto t p).slot = s.slot := rfl

@[simp] theorem goto_sfsVnodes : (s.goto t p).sfsVnodes = s.sfsVnodes := rfl

@[simp] theorem goto_vfsBiglock : (s.goto t p).vfsBiglock = s.vfsBiglock := rfl

@[simp] theorem goto_svIno : (s.goto t p).svIno = s.svIno := rfl

@[simp] theorem goto_live : (s.goto t p).Live = s.Live := rfl

end Goto

omit [DecidableEq I] in
@[simp] theorem goto_outstanding : (s.goto t p).outstanding = s.outstanding := rfl

omit [DecidableEq T] [DecidableEq I] in
/-- What the shared state has to keep for a thread that does not move. -/
theorem Local.mono (h : Local s u p) (hlock : s.vfsBiglock = some u → s'.vfsBiglock = some u)
    (htable : s.vfsBiglock = some u → ∀ v, v ∈ s'.sfsVnodes ↔ v ∈ s.sfsVnodes)
    (hnew : s.vfsBiglock = some u → ∀ v ino, s'.svIno v = some ino → s.svIno v = some ino)
    (hlive : ∀ v, p.pending? = some v → s.Live v → s'.Live v)
    (hout : s.vfsBiglock = some u → ∀ v, s.outstanding v = 0 → s'.outstanding v = 0)
    (hclean : ∀ v, p.target? = some v → s.slot v = .cleaned → s'.slot v = .cleaned) :
    Local s' u p := by
  cases p with
  | out => trivial
  | loadFind ino => exact hlock h
  | loadIncref v => exact ⟨hlock h.1, (htable h.1 v).mpr h.2⟩
  | loadCreate ino => exact ⟨hlock h.1, fun v hv => h.2 v (hnew h.1 v ino hv)⟩
  | reclaimEnter v => exact hlive v rfl h
  | reclaimLock v => exact hlive v rfl h
  | reclaimCheck v => exact ⟨hlock h.1, hlive v rfl h.2⟩
  | reclaimBusy => exact hlock h
  | reclaimRemove v => exact ⟨hlock h.1, hlive v rfl h.2.1, hout h.1 v h.2.2⟩
  | reclaimCleanup v =>
    exact ⟨hlock h.1, hlive v rfl h.2.1, hout h.1 v h.2.2.1,
      fun hv => h.2.2.2 ((htable h.1 v).mp hv)⟩
  | reclaimUnlock v => exact ⟨hlock h.1, hclean v rfl h.2⟩
  | reclaimFree v => exact hclean v rfl h

omit [DecidableEq I] in
theorem local_goto {q : Pc V I} : Local (s.goto t p) u q ↔ Local s u q := by
  cases q <;> exact Iff.rfl

omit [DecidableEq I] in
/-- A thread moves without touching anything, to a place it may be in. -/
theorem Inv.goto (h : Inv s r) (hl : Local s t p) (ht : p.target? = (s.pc t).target?)
    (hc : ∀ v, s.pc t = .reclaimCleanup v → p = .reclaimCleanup v) : Inv (s.goto t p) r := by
  refine ⟨fun u => ?_, fun u v => ?_, h.depth, h.nodup, h.table, fun v hv hn => ?_, h.unique,
    h.held, h.count, h.undestroyed, h.destroyed, h.noFault⟩
  · rw [local_goto]
    by_cases hu : u = t
    · subst hu
      rwa [goto_pc_self]
    · rw [goto_pc_of_ne hu]
      exact h.locals u
  · by_cases hu : u = t
    · subst hu
      rw [goto_pc_self, ht]
      exact h.owner u v
    · rw [goto_pc_of_ne hu]
      exact h.owner u v
  · obtain ⟨u, hu⟩ := h.listed v hv hn
    refine ⟨u, ?_⟩
    by_cases hut : u = t
    · subst hut
      rw [goto_pc_self]
      exact hc v hu
    · rwa [goto_pc_of_ne hut]

/-! ### `vfs_biglock` -/

omit [DecidableEq T] [DecidableEq I] in
theorem Inv.biglockAcquire (h : Inv s r) (hfree : s.vfsBiglock = none ∨ s.vfsBiglock = some t) :
    Inv (s.biglockAcquire t) r := by
  refine ⟨fun u => ?_, h.owner, fun u _ => Nat.succ_pos _, h.nodup, h.table, h.listed, h.unique,
    h.held, h.count, h.undestroyed, h.destroyed, h.noFault⟩
  refine (h.locals u).mono (fun hu => ?_) (fun _ _ => Iff.rfl) (fun _ _ _ => id) (fun _ _ => id)
    (fun _ _ => id) fun _ _ => id
  rcases hfree with hf | hf
  · rw [hf] at hu
    cases hu
  · rw [hf] at hu
    exact hu

omit [DecidableEq I] in
/-- `vfs_biglock_release`, by a thread that no longer relies on it. -/
theorem Inv.biglockRelease (h : Inv s r) (hlock : s.vfsBiglock = some t)
    (hfree : ∀ s' : State T V I, s'.slot = s.slot → Local s' t (s.pc t)) :
    Inv (s.biglockRelease t) r := by
  have hrel : s.biglockRelease t = { s with
      vfsBiglock := if s.vfsBiglockDepth = 1 then none else some t
      vfsBiglockDepth := s.vfsBiglockDepth - 1 } := by
    rw [State.biglockRelease, if_pos ⟨hlock, h.depth t hlock⟩]
  rw [hrel]
  refine ⟨fun u => ?_, h.owner, fun u hu => ?_, h.nodup, h.table, h.listed, h.unique, h.held,
    h.count, h.undestroyed, h.destroyed, h.noFault⟩
  · by_cases hu : u = t
    · subst hu
      exact hfree _ rfl
    · refine (h.locals u).mono (fun hl => ?_) (fun _ _ => Iff.rfl) (fun _ _ _ => id)
        (fun _ _ => id) (fun _ _ => id) fun _ _ => id
      rw [hlock] at hl
      exact absurd (Option.some.inj hl).symm hu
  · dsimp only at hu ⊢
    have := h.depth t hlock
    split at hu
    · cases hu
    · omega

omit [DecidableEq V] [DecidableEq I] in
theorem biglockRelease_goto : (s.goto t p).biglockRelease t = (s.biglockRelease t).goto t p := by
  unfold State.biglockRelease
  have hd : (s.goto t p).vfsBiglockDepth = s.vfsBiglockDepth := rfl
  rw [goto_vfsBiglock, hd]
  by_cases hc : s.vfsBiglock = some t ∧ 0 < s.vfsBiglockDepth
  · rw [if_pos hc, if_pos hc]
    rfl
  · rw [if_neg hc, if_neg hc]
    rfl

/-! ### References -/

omit [DecidableEq T] [DecidableEq I] in
theorem outstanding_pos (h : (t, v) ∈ s.refs) : 0 < s.outstanding v :=
  List.countP_pos_iff.mpr ⟨(t, v), h, by simp⟩

omit [DecidableEq T] [DecidableEq I] in
theorem outstanding_eq_zero (h : ∀ t, (t, v) ∉ s.refs) : s.outstanding v = 0 := by
  refine List.countP_eq_zero.mpr ?_
  rintro ⟨t, w⟩ hm hw
  obtain rfl : w = v := by simpa using hw
  exact h t hm

omit [DecidableEq T] in
/-- Counting after a reference is taken. -/
theorem countP_cons_ref {l : List (T × V)} {w : V} :
    ((t, v) :: l).countP (fun r => r.2 = w) =
      l.countP (fun r => r.2 = w) + if v = w then 1 else 0 := by
  rw [List.countP_cons]
  simp

/-- Counting after a reference is dropped. -/
theorem countP_erase_ref {l : List (T × V)} {w : V} (h : (t, v) ∈ l) :
    (l.erase (t, v)).countP (fun r => r.2 = w) + (if v = w then 1 else 0) =
      l.countP fun r => r.2 = w := by
  have hp := (List.perm_cons_erase h).countP_eq fun r : T × V => decide (r.2 = w)
  rw [hp, countP_cons_ref]

omit [DecidableEq T] [DecidableEq I] in
/-- What changing the count of a vnode leaves alone. -/
theorem svIno_update_live {ino : I} {n m : ℕ} (hv : s.slot v = .live ino n)
    (hs : s'.slot = Function.update s.slot v (.live ino m)) : s'.svIno = s.svIno := by
  funext w
  unfold State.svIno
  rw [hs]
  by_cases hw : w = v
  · subst hw
    rw [Function.update_self, hv]
  · rw [Function.update_of_ne hw]

omit [DecidableEq T] [DecidableEq I] in
theorem slot_cleaned_of_update {ino : I} {n m : ℕ} (hv : s.slot v = .live ino n)
    (hs : s'.slot = Function.update s.slot v (.live ino m)) {w : V} :
    (s'.slot w = .cleaned ↔ s.slot w = .cleaned) ∧ (s'.slot w = .freed ↔ s.slot w = .freed) := by
  rw [hs]
  by_cases hw : w = v
  · subst hw
    simp [hv]
  · rw [Function.update_of_ne hw]
    exact ⟨Iff.rfl, Iff.rfl⟩

omit [DecidableEq I] in
/-- A change of one count and of the references to it; the thread that makes it may move, and may
start or stop reclaiming the vnode. -/
theorem Inv.recount {ino : I} {n m : ℕ} (refs : List (T × V)) {x : Option T} (h : Inv s r)
    (hv : s.slot v = .live ino n) (hrefs : ∀ u w, (u, w) ∈ refs → w = v ∨ (u, w) ∈ s.refs)
    (hother : ∀ w, w ≠ v → (refs.countP fun x => x.2 = w) = s.outstanding w)
    (hm : m = (refs.countP fun x => x.2 = v) + if x.isSome then 1 else 0)
    (hzero : ∀ u, u ≠ t → s.pc u = .reclaimRemove v ∨ s.pc u = .reclaimCleanup v →
      (refs.countP fun x => x.2 = v) = 0)
    (howner : ∀ u w, (if u = t then p else s.pc u).target? = some w ↔
      Function.update r v x w = some u)
    (hclean : ∀ w, s.pc t ≠ .reclaimCleanup w)
    (hp : p = .out ∨ p = .reclaimEnter v ∨ (p = .reclaimBusy ∧ s.vfsBiglock = some t)) :
    Inv ({ s with slot := Function.update s.slot v (.live ino m), refs := refs }.goto t p)
      (Function.update r v x) := by
  generalize hs' : ({ s with
    slot := Function.update s.slot v (.live ino m), refs := refs } : State T V I) = s'
  have hslot' : s'.slot = Function.update s.slot v (.live ino m) := by rw [← hs']
  have hino : s'.svIno = s.svIno := svIno_update_live hv hslot'
  have hlive : s'.Live = s.Live := by
    funext w
    exact congrArg (· ≠ none) (congrFun hino w)
  have hout : ∀ w, s'.outstanding w = refs.countP fun x => x.2 = w := fun w => by rw [← hs']; rfl
  have htab : s'.sfsVnodes = s.sfsVnodes := by rw [← hs']
  have hlock : s'.vfsBiglock = s.vfsBiglock := by rw [← hs']
  have hslot := fun w => slot_cleaned_of_update hv hslot' (w := w)
  have hpc : ∀ u, (s'.goto t p).pc u = if u = t then p else s.pc u := by
    intro u
    rw [← hs']
    exact Function.update_apply _ _ _ _
  refine ⟨fun u => ?_, fun u w => ?_, fun u => ?_, ?_, fun w hw => ?_, fun w hw hn => ?_,
    fun w x i hw hx => ?_, fun u w hu => ?_, fun w i k hw => ?_, fun w h1 h2 => ?_,
    fun w hw => ?_, ?_⟩
  · rw [local_goto, hpc]
    by_cases hu : u = t
    · subst hu
      rw [if_pos rfl]
      rcases hp with rfl | rfl | ⟨rfl, hl⟩
      · trivial
      · rw [Local, hlive]
        exact State.live_iff.mpr ⟨ino, n, hv⟩
      · rw [Local, hlock]
        exact hl
    · rw [if_neg hu]
      have hl := h.locals u
      have hkeep : ∀ w, s.pc u = .reclaimRemove w ∨ s.pc u = .reclaimCleanup w →
          s.outstanding w = 0 → s'.outstanding w = 0 := by
        intro w hw h0
        rw [hout]
        by_cases hwv : w = v
        · subst hwv
          exact hzero u hu hw
        · exact (hother w hwv).trans h0
      cases hp : s.pc u with
      | out => trivial
      | loadFind ino => rw [hp] at hl; rw [Local, hlock]; exact hl
      | loadIncref w => rw [hp] at hl; rw [Local, hlock, htab]; exact hl
      | loadCreate ino => rw [hp] at hl; rw [Local, hlock, hino]; exact hl
      | reclaimEnter w => rw [hp] at hl; rw [Local, hlive]; exact hl
      | reclaimLock w => rw [hp] at hl; rw [Local, hlive]; exact hl
      | reclaimCheck w => rw [hp] at hl; rw [Local, hlock, hlive]; exact hl
      | reclaimBusy => rw [hp] at hl; rw [Local, hlock]; exact hl
      | reclaimRemove w =>
        rw [hp] at hl
        rw [Local, hlock, hlive]
        exact ⟨hl.1, hl.2.1, hkeep w (Or.inl hp) hl.2.2⟩
      | reclaimCleanup w =>
        rw [hp] at hl
        rw [Local, hlock, hlive, htab]
        exact ⟨hl.1, hl.2.1, hkeep w (Or.inr hp) hl.2.2.1, hl.2.2.2⟩
      | reclaimUnlock w =>
        rw [hp] at hl
        rw [Local, hlock]
        exact ⟨hl.1, (hslot w).1.mpr hl.2⟩
      | reclaimFree w =>
        rw [hp] at hl
        exact (hslot w).1.mpr hl
  · rw [hpc]
    exact howner u w
  · rw [goto_vfsBiglock, hlock, ← hs']
    exact h.depth u
  · rw [goto_sfsVnodes, htab]
    exact h.nodup
  · rw [goto_sfsVnodes, htab] at hw
    rw [goto_live, hlive]
    exact h.table w hw
  · rw [goto_live, hlive] at hw
    rw [goto_sfsVnodes, htab] at hn
    obtain ⟨u, hu⟩ := h.listed w hw hn
    refine ⟨u, ?_⟩
    rw [hpc, if_neg]
    · exact hu
    · rintro rfl
      exact hclean w hu
  · rw [goto_svIno, hino] at hw hx
    exact h.unique w x i hw hx
  · rw [goto_live, hlive]
    rcases hrefs u w (by rw [← hs'] at hu; exact hu) with rfl | hu
    · exact State.live_iff.mpr ⟨ino, n, hv⟩
    · exact h.held u w hu
  · rw [goto_slot, hslot'] at hw
    rw [goto_outstanding, hout]
    by_cases hwv : w = v
    · subst hwv
      rw [Function.update_self] at hw ⊢
      injection hw with _ hk
      rw [← hk]
      exact hm
    · rw [Function.update_of_ne hwv] at hw ⊢
      rw [hother w hwv]
      exact h.count w i k hw
  · rw [show (s'.goto t p).destroyed = s.destroyed by rw [← hs']; rfl]
    exact h.undestroyed w (fun hc => h1 ((hslot w).1.mpr hc)) fun hc => h2 ((hslot w).2.mpr hc)
  · rw [show (s'.goto t p).destroyed = s.destroyed by rw [← hs']; rfl]
    refine h.destroyed w ?_
    rcases hw with hw | hw
    · exact Or.inl ((hslot w).1.mp hw)
    · exact Or.inr ((hslot w).2.mp hw)
  · rw [show (s'.goto t p).fault = s.fault by rw [← hs']; rfl]
    exact h.noFault

omit [DecidableEq I] in
/-- Who reclaims what, when `t` moves between two places outside all reclaims. -/
theorem Inv.owner_out (h : Inv s r) (ht : (s.pc t).target? = none) (hp : p.target? = none) (u : T)
    (w : V) : (if u = t then p else s.pc u).target? = some w ↔ r w = some u := by
  by_cases hu : u = t
  · subst hu
    rw [if_pos rfl, hp, ← h.owner, ht]
  · rw [if_neg hu]
    exact h.owner u w

omit [DecidableEq I] in
/-- `VOP_INCREF`, by a holder or by `sfs_loadvnode`. -/
theorem Inv.incref (h : Inv s r) (hv : s.Live v)
    (hpc : s.pc t = .out ∧ 0 < s.outstanding v ∨
      s.pc t = .loadIncref v ∧ s.vfsBiglock = some t) :
    Inv ((vnodeIncref s t v).goto t .out) r := by
  obtain ⟨ino, n, hslot⟩ := State.live_iff.mp hv
  have htarget : (s.pc t).target? = none := by
    rcases hpc with ⟨hp, -⟩ | ⟨hp, -⟩ <;> rw [hp] <;> rfl
  have hrun : vnodeIncref s t v = { s with
      slot := Function.update s.slot v (.live ino (n + 1)), refs := (t, v) :: s.refs } := by
    simp only [vnodeIncref, hslot]
  rw [hrun]
  have hn := h.count v ino n hslot
  have hres := h.recount ((t, v) :: s.refs) (t := t) (p := .out) (m := n + 1) (x := r v)
    hslot ?_ ?_ ?_ ?_ ?_ ?_ (Or.inl rfl)
  · rwa [Function.update_eq_self] at hres
  · intro u w hm
    rcases List.mem_cons.mp hm with hm | hm
    · exact Or.inl (congrArg Prod.snd hm)
    · exact Or.inr hm
  · intro w hw
    rw [countP_cons_ref, if_neg (Ne.symm hw)]
    rfl
  · rw [countP_cons_ref, if_pos rfl, hn]
    change s.outstanding v + _ + 1 = s.outstanding v + 1 + _
    omega
  · -- a thread past its second look has nobody beside it
    intro u hu hpu
    exfalso
    have hl := h.locals u
    rcases hpc with ⟨-, hpos⟩ | ⟨-, hlock⟩
    · rcases hpu with hpu | hpu
      · rw [hpu] at hl
        have := hl.2.2
        omega
      · rw [hpu] at hl
        have := hl.2.2.1
        omega
    · have hlu : s.vfsBiglock = some u := by
        rcases hpu with hpu | hpu <;> rw [hpu] at hl <;> exact hl.1
      rw [hlock] at hlu
      exact hu (Option.some.inj hlu).symm
  · intro u w
    rw [Function.update_eq_self]
    exact h.owner_out htarget rfl u w
  · intro w hw
    rw [hw] at htarget
    cases htarget

omit [DecidableEq I] in
/-- `VOP_DECREF` where the count is above one, and where it is one. -/
theorem Inv.decref (h : Inv s r) (hpc : s.pc t = .out) (hm : (t, v) ∈ s.refs) :
    ∃ r', Inv (vnodeDecref s t v) r' := by
  obtain ⟨ino, n, hslot⟩ := State.live_iff.mp (h.held t v hm)
  have hn := h.count v ino n hslot
  have hpos := outstanding_pos hm
  have htarget : (s.pc t).target? = none := by rw [hpc]; rfl
  have hrefs : ∀ u w, (u, w) ∈ s.refs.erase (t, v) → w = v ∨ (u, w) ∈ s.refs :=
    fun u w hu => Or.inr (List.mem_of_mem_erase hu)
  have hother : ∀ w, w ≠ v →
      ((s.refs.erase (t, v)).countP fun x => x.2 = w) = s.outstanding w := by
    intro w hw
    have := countP_erase_ref (w := w) hm
    rwa [if_neg (Ne.symm hw)] at this
  have hself := countP_erase_ref (w := v) hm
  rw [if_pos rfl] at hself
  change _ = s.outstanding v at hself
  have hzero : ∀ u, u ≠ t → s.pc u = .reclaimRemove v ∨ s.pc u = .reclaimCleanup v →
      ((s.refs.erase (t, v)).countP fun x => x.2 = v) = 0 := by
    intro u _ hpu
    have hl := h.locals u
    rcases hpu with hpu | hpu
    · rw [hpu] at hl
      have := hl.2.2
      omega
    · rw [hpu] at hl
      have := hl.2.2.1
      omega
  by_cases hlt : 1 < n
  · refine ⟨r, ?_⟩
    have hrun : vnodeDecref s t v = { s with
        slot := Function.update s.slot v (.live ino (n - 1)),
        refs := s.refs.erase (t, v) }.goto t .out := by
      simp only [vnodeDecref, hslot, if_pos hlt, State.goto]
      rw [← hpc, Function.update_eq_self]
    rw [hrun]
    have hres := h.recount (s.refs.erase (t, v)) (t := t) (p := .out) (m := n - 1) (x := r v)
      hslot hrefs hother
      (by omega) hzero (fun u w => by
        rw [Function.update_eq_self]
        exact h.owner_out htarget rfl u w) (by simp [hpc]) (Or.inl rfl)
    rwa [Function.update_eq_self] at hres
  · have hone : n = 1 := by omega
    have hnone : r v = none := by
      cases hr : r v with
      | none => rfl
      | some w =>
        rw [hr, Option.isSome_some, if_pos rfl] at hn
        omega
    refine ⟨Function.update r v (some t), ?_⟩
    have hrun : vnodeDecref s t v = { s with
        slot := Function.update s.slot v (.live ino 1),
        refs := s.refs.erase (t, v) }.goto t (.reclaimEnter v) := by
      subst hone
      simp only [vnodeDecref, hslot, if_neg hlt, if_true]
      rw [← hslot, Function.update_eq_self]
    rw [hrun]
    refine h.recount _ (t := t) hslot hrefs hother ?_ hzero ?_ (by simp [hpc]) (Or.inr (Or.inl rfl))
    · rw [hnone] at hn
      simp only [Option.isSome_none, Bool.false_eq_true, if_false] at hn
      simp only [Option.isSome_some, if_true]
      omega
    · intro u w
      by_cases hw : w = v
      · subst hw
        rw [Function.update_self]
        by_cases hu : u = t
        · simp [hu, Pc.target?]
        · rw [if_neg hu, h.owner]
          simp [hnone, Ne.symm hu]
      · rw [Function.update_of_ne hw]
        by_cases hu : u = t
        · subst hu
          rw [if_pos rfl, ← h.owner, htarget]
          simp [Pc.target?, Ne.symm hw]
        · rw [if_neg hu]
          exact h.owner u w

omit [DecidableEq I] in
/-- The second look of `sfs_reclaim` finds that somebody has picked the vnode up. -/
theorem Inv.reclaimCheck (h : Inv s r) (hpc : s.pc t = .reclaimCheck v) :
    ∃ r', Inv (reclaimCheck s t v) r' := by
  have hl := h.locals t
  rw [hpc] at hl
  obtain ⟨hlock, hlive⟩ := hl
  obtain ⟨ino, n, hslot⟩ := State.live_iff.mp hlive
  have hown : r v = some t := (h.owner t v).mp (by rw [hpc]; rfl)
  have hn := h.count v ino n hslot
  rw [hown, Option.isSome_some, if_pos rfl] at hn
  by_cases hone : n = 1
  · have hrun : Vnode.reclaimCheck s t v = s.goto t (.reclaimRemove v) := by
      simp only [Vnode.reclaimCheck, hslot, if_pos hone]
    rw [hrun]
    exact ⟨r, h.goto ⟨hlock, hlive, by omega⟩ (by rw [hpc]; rfl) (by simp [hpc])⟩
  · have hrun : Vnode.reclaimCheck s t v = { s with
        slot := Function.update s.slot v (.live ino (n - 1)), refs := s.refs }.goto t
          .reclaimBusy := by
      simp only [Vnode.reclaimCheck, hslot, if_neg hone, if_pos (show 1 < n by omega)]
    rw [hrun]
    refine ⟨Function.update r v none,
      h.recount s.refs hslot (fun u w => Or.inr) (fun w _ => rfl) ?_ ?_ ?_
      (by simp [hpc]) (Or.inr (Or.inr ⟨rfl, hlock⟩))⟩
    · change n - 1 = s.outstanding v + _
      simp only [Option.isSome_none, Bool.false_eq_true, if_false]
      omega
    · intro u hu hpu
      have htu : (s.pc u).target? = some v := by
        rcases hpu with hpu | hpu <;> rw [hpu] <;> rfl
      rw [h.owner, hown] at htu
      exact absurd (Option.some.inj htu).symm hu
    · intro u w
      by_cases hw : w = v
      · subst hw
        rw [Function.update_self]
        by_cases hu : u = t
        · simp [hu, Pc.target?]
        · rw [if_neg hu, h.owner, hown]
          simp [Ne.symm hu]
      · rw [Function.update_of_ne hw]
        by_cases hu : u = t
        · subst hu
          rw [if_pos rfl, ← h.owner, hpc]
          simp [Pc.target?, Ne.symm hw]
        · rw [if_neg hu]
          exact h.owner u w

omit [DecidableEq I] in
/-- Handing a reference to another thread. -/
theorem Inv.give (h : Inv s r) (hm : (t, v) ∈ s.refs) :
    Inv { s with refs := (u, v) :: s.refs.erase (t, v) } r := by
  have hcount : ∀ w, (((u, v) :: s.refs.erase (t, v)).countP fun x => x.2 = w) =
      s.outstanding w := by
    intro w
    rw [countP_cons_ref]
    exact countP_erase_ref hm
  refine ⟨fun w => ?_, h.owner, h.depth, h.nodup, h.table, h.listed, h.unique, fun w x hx => ?_,
    fun w i k hw => ?_, h.undestroyed, h.destroyed, h.noFault⟩
  · refine (h.locals w).mono id (fun _ _ => Iff.rfl) (fun _ _ _ => id) (fun _ _ => id)
      (fun _ x hx => ?_) fun _ _ => id
    exact (hcount x).trans hx
  · rcases List.mem_cons.mp hx with hx | hx
    · obtain ⟨-, rfl⟩ := Prod.mk.inj hx
      exact h.held t x hm
    · exact h.held w x (List.mem_of_mem_erase hx)
  · rw [show State.outstanding { s with refs := (u, v) :: s.refs.erase (t, v) } w =
      s.outstanding w from hcount w]
    exact h.count w i k hw

end Steps

end Vnode

end Os161
