import Os161.Vfs.VnodeRefs
import Mathlib.Data.List.Nodup

/-!
# Making and destroying vnodes

The steps of the reference protocol between which a vnode is there: `sfs_loadvnode` puts a new one
into the table, and `sfs_reclaim` takes one off it, cleans it up and frees it.

All of these but `kfree` happen under `vfs_biglock`, so no other thread relies on the table or on
there being no references (`not_locked`). What other threads do rely on is that the vnode they are
about to reclaim is there, and it is another one, since a vnode is reclaimed by one thread.

## Main results

* `Inv.find`, `Inv.create` — `sfs_loadvnode`
* `Inv.remove`, `Inv.cleanup`, `Inv.free` — `sfs_reclaim`
-/

namespace Os161

namespace Vnode

variable {T V I : Type*} [DecidableEq T] [DecidableEq V] [DecidableEq I]

section Steps

variable {s s' : State T V I} {r : V → Option T} {t u : T} {v : V} {p : Pc V I}

/-! ### Making and destroying -/

omit [DecidableEq T] [DecidableEq V] [DecidableEq I] in
/-- While a thread has `vfs_biglock`, no other thread relies on it. -/
theorem not_locked (ht : s.vfsBiglock = some t) (hu : u ≠ t) : s.vfsBiglock ≠ some u := by
  rw [ht]
  exact fun he => hu (Option.some.inj he).symm

omit [DecidableEq I] in
/-- `sfs_loadvnode` makes a new vnode. -/
theorem Inv.create {ino : I} (h : Inv s r) (hpc : s.pc t = .loadCreate ino)
    (hv : s.slot v = .unborn) :
    Inv ({ s with
      slot := Function.update s.slot v (.live ino 1)
      sfsVnodes := s.sfsVnodes ++ [v]
      refs := (t, v) :: s.refs }.goto t .out) r := by
  have hl := h.locals t
  rw [hpc] at hl
  obtain ⟨hlock, habsent⟩ := hl
  have hvdead : ¬s.Live v := fun hlive => by
    obtain ⟨i, n, hs⟩ := State.live_iff.mp hlive
    rw [hv] at hs
    cases hs
  have hnew : r v = none := by
    cases hr : r v with
    | none => rfl
    | some u =>
      exfalso
      have htu := (h.owner u v).mpr hr
      have hlu := h.locals u
      cases hpu : s.pc u <;> rw [hpu] at htu hlu <;> cases htu
      · exact hvdead hlu
      · exact hvdead hlu
      · exact hvdead hlu.2
      · exact hvdead hlu.2.1
      · exact hvdead hlu.2.1
      · have hc := hlu.2
        rw [hv] at hc
        cases hc
      · rw [Local, hv] at hlu
        cases hlu
  have hnoref : s.outstanding v = 0 := outstanding_eq_zero fun u hu => hvdead (h.held u v hu)
  generalize hs' : ({ s with
    slot := Function.update s.slot v (.live ino 1)
    sfsVnodes := s.sfsVnodes ++ [v]
    refs := (t, v) :: s.refs } : State T V I) = s'
  have hslot : s'.slot = Function.update s.slot v (.live ino 1) := by rw [← hs']
  have htab : s'.sfsVnodes = s.sfsVnodes ++ [v] := by rw [← hs']
  have hlock' : s'.vfsBiglock = s.vfsBiglock := by rw [← hs']
  have hout : ∀ w, s'.outstanding w = s.outstanding w + if v = w then 1 else 0 := by
    intro w
    rw [← hs']
    exact countP_cons_ref
  have hino : ∀ w, s'.svIno w = if w = v then some ino else s.svIno w := by
    intro w
    unfold State.svIno
    rw [hslot]
    by_cases hw : w = v
    · subst hw
      simp
    · rw [Function.update_of_ne hw, if_neg hw]
  have hlive : ∀ w, s'.Live w ↔ w = v ∨ s.Live w := by
    intro w
    rw [State.Live, hino]
    by_cases hw : w = v
    · simp [hw]
    · simp [hw, State.Live]
  have hpcu : ∀ u, (s'.goto t .out).pc u = if u = t then .out else s.pc u := by
    intro u
    rw [← hs']
    exact Function.update_apply _ _ _ _
  refine ⟨fun u => ?_, fun u w => ?_, fun u => ?_, ?_, fun w hw => ?_, fun w hw hn => ?_,
    fun w x i hw hx => ?_, fun u w hu => ?_, fun w i k hw => ?_, fun w h1 h2 => ?_,
    fun w hw => ?_, ?_⟩
  · rw [local_goto, hpcu]
    by_cases hu : u = t
    · rw [if_pos hu]
      trivial
    · rw [if_neg hu]
      have hnl := not_locked hlock hu
      refine (h.locals u).mono (fun hl => absurd hl hnl) (fun hl => absurd hl hnl)
        (fun hl => absurd hl hnl) (fun w _ hw => (hlive w).mpr (Or.inr hw))
        (fun hl => absurd hl hnl) fun w _ hw => ?_
      rw [hslot, Function.update_of_ne]
      · exact hw
      · rintro rfl
        rw [hv] at hw
        cases hw
  · rw [hpcu]
    exact h.owner_out (by rw [hpc]; rfl) rfl u w
  · rw [goto_vfsBiglock, hlock', ← hs']
    exact h.depth u
  · rw [goto_sfsVnodes, htab]
    exact List.nodup_append.mpr ⟨h.nodup, List.nodup_singleton v, fun a ha b hb => by
      rw [List.mem_singleton.mp hb]
      rintro rfl
      exact hvdead (h.table a ha)⟩
  · rw [goto_sfsVnodes, htab] at hw
    rw [goto_live, hlive]
    rcases List.mem_append.mp hw with hw | hw
    · exact Or.inr (h.table w hw)
    · exact Or.inl (List.mem_singleton.mp hw)
  · rw [goto_live, hlive] at hw
    rw [goto_sfsVnodes, htab] at hn
    have hwv : w ≠ v := by
      rintro rfl
      exact hn (by simp)
    obtain ⟨u, hu⟩ := h.listed w (hw.resolve_left hwv) fun hc => hn (by simp [hc])
    refine ⟨u, ?_⟩
    rw [hpcu, if_neg]
    · exact hu
    · rintro rfl
      rw [hpc] at hu
      cases hu
  · rw [goto_svIno, hino] at hw hx
    by_cases hwv : w = v
    · by_cases hxv : x = v
      · rw [hwv, hxv]
      · rw [if_pos hwv] at hw
        rw [if_neg hxv, ← hw] at hx
        exact absurd hx (habsent x)
    · by_cases hxv : x = v
      · rw [if_pos hxv] at hx
        rw [if_neg hwv, ← hx] at hw
        exact absurd hw (habsent w)
      · rw [if_neg hwv] at hw
        rw [if_neg hxv] at hx
        exact h.unique w x i hw hx
  · rw [goto_live, hlive]
    have hu' : (u, w) ∈ (t, v) :: s.refs := by
      rw [← hs'] at hu
      exact hu
    rcases List.mem_cons.mp hu' with hu' | hu'
    · exact Or.inl (Prod.mk.inj hu').2
    · exact Or.inr (h.held u w hu')
  · rw [goto_slot, hslot] at hw
    rw [goto_outstanding, hout]
    by_cases hwv : w = v
    · subst hwv
      rw [Function.update_self] at hw
      injection hw with _ hk
      rw [hnoref, hnew, ← hk]
      simp
    · rw [Function.update_of_ne hwv] at hw
      rw [if_neg (Ne.symm hwv)]
      exact h.count w i k hw
  · rw [show (s'.goto t .out).destroyed = s.destroyed by rw [← hs']; rfl]
    by_cases hwv : w = v
    · subst hwv
      exact h.undestroyed w (by simp [hv]) (by simp [hv])
    · rw [goto_slot, hslot, Function.update_of_ne hwv] at h1 h2
      exact h.undestroyed w h1 h2
  · rw [show (s'.goto t .out).destroyed = s.destroyed by rw [← hs']; rfl]
    rw [goto_slot, hslot] at hw
    by_cases hwv : w = v
    · subst hwv
      simp at hw
    · rw [Function.update_of_ne hwv] at hw
      exact h.destroyed w hw
  · rw [show (s'.goto t .out).fault = s.fault by rw [← hs']; rfl]
    exact h.noFault

omit [DecidableEq T] [DecidableEq I] in
/-- A vnode past the second look is in the table. -/
theorem Inv.mem_of_remove (h : Inv s r) (hpc : s.pc t = .reclaimRemove v) : v ∈ s.sfsVnodes := by
  have hl := h.locals t
  rw [hpc] at hl
  by_contra hn
  obtain ⟨u, hu⟩ := h.listed v hl.2.1 hn
  have h1 := (h.owner u v).mp (by rw [hu]; rfl)
  rw [(h.owner t v).mp (by rw [hpc]; rfl)] at h1
  obtain rfl := Option.some.inj h1
  rw [hpc] at hu
  cases hu

omit [DecidableEq I] in
/-- `sfs_reclaim` takes the vnode off the table. -/
theorem Inv.remove (h : Inv s r) (hpc : s.pc t = .reclaimRemove v) :
    Inv (reclaimRemove s t v) r := by
  have hl := h.locals t
  rw [hpc] at hl
  obtain ⟨hlock, hlive, hzero⟩ := hl
  have hrun : reclaimRemove s t v =
      { s with sfsVnodes := s.sfsVnodes.erase v }.goto t (.reclaimCleanup v) := by
    rw [reclaimRemove, if_pos ⟨fun w hw => h.table w hw, h.mem_of_remove hpc⟩]
  rw [hrun]
  have hpcu : ∀ u, ({ s with sfsVnodes := s.sfsVnodes.erase v }.goto t (.reclaimCleanup v)).pc u =
      if u = t then .reclaimCleanup v else s.pc u := fun u => Function.update_apply _ _ _ _
  refine ⟨fun u => ?_, fun u w => ?_, h.depth, h.nodup.erase v, fun w hw => ?_,
    fun w hw hn => ?_, h.unique, h.held, h.count, h.undestroyed, h.destroyed, h.noFault⟩
  · rw [local_goto, hpcu]
    by_cases hu : u = t
    · subst hu
      rw [if_pos rfl]
      exact ⟨hlock, hlive, hzero, h.nodup.not_mem_erase⟩
    · rw [if_neg hu]
      have hnl := not_locked hlock hu
      exact (h.locals u).mono (fun hl => absurd hl hnl) (fun hl => absurd hl hnl)
        (fun hl => absurd hl hnl) (fun w _ hw => hw) (fun hl => absurd hl hnl) fun w _ hw => hw
  · rw [hpcu]
    by_cases hu : u = t
    · subst hu
      rw [if_pos rfl, ← h.owner, hpc]
      rfl
    · rw [if_neg hu]
      exact h.owner u w
  · exact h.table w (List.mem_of_mem_erase hw)
  · by_cases hwv : w = v
    · subst hwv
      exact ⟨t, by rw [hpcu, if_pos rfl]⟩
    · obtain ⟨u, hu⟩ := h.listed w hw fun hc => hn ((List.mem_erase_of_ne hwv).mpr hc)
      refine ⟨u, ?_⟩
      rw [hpcu, if_neg]
      · exact hu
      · rintro rfl
        rw [hpc] at hu
        cases hu

omit [DecidableEq I] in
/-- `vnode_cleanup`. -/
theorem Inv.cleanup (h : Inv s r) (hpc : s.pc t = .reclaimCleanup v) :
    Inv (vnodeCleanup s t v) r := by
  have hl := h.locals t
  rw [hpc] at hl
  obtain ⟨hlock, hlive, hzero, htable⟩ := hl
  obtain ⟨ino, n, hslot⟩ := State.live_iff.mp hlive
  have hown : r v = some t := (h.owner t v).mp (by rw [hpc]; rfl)
  have hn := h.count v ino n hslot
  rw [hown, hzero, Option.isSome_some, if_pos rfl] at hn
  have hrun : vnodeCleanup s t v = { s with
      slot := Function.update s.slot v .cleaned
      destroyed := Function.update s.destroyed v (s.destroyed v + 1) }.goto t
        (.reclaimUnlock v) := by
    simp only [vnodeCleanup, hslot, if_pos (show n = 1 by omega)]
  rw [hrun]
  generalize hs' : ({ s with
    slot := Function.update s.slot v .cleaned
    destroyed := Function.update s.destroyed v (s.destroyed v + 1) } : State T V I) = s'
  have hslot' : s'.slot = Function.update s.slot v .cleaned := by rw [← hs']
  have hino : ∀ w, s'.svIno w = if w = v then none else s.svIno w := by
    intro w
    unfold State.svIno
    rw [hslot']
    by_cases hw : w = v
    · subst hw
      simp
    · rw [Function.update_of_ne hw, if_neg hw]
  have hlive' : ∀ w, s'.Live w ↔ w ≠ v ∧ s.Live w := by
    intro w
    rw [State.Live, hino]
    by_cases hw : w = v
    · simp [hw]
    · simp [hw, State.Live]
  have hpcu : ∀ u, (s'.goto t (.reclaimUnlock v)).pc u =
      if u = t then .reclaimUnlock v else s.pc u := by
    intro u
    rw [← hs']
    exact Function.update_apply _ _ _ _
  have hdest : (s'.goto t (.reclaimUnlock v)).destroyed =
      Function.update s.destroyed v (s.destroyed v + 1) := by
    rw [← hs']
    rfl
  refine ⟨fun u => ?_, fun u w => ?_, fun u => ?_, ?_, fun w hw => ?_, fun w hw hn => ?_,
    fun w x i hw hx => ?_, fun u w hu => ?_, fun w i k hw => ?_, fun w h1 h2 => ?_,
    fun w hw => ?_, ?_⟩
  · rw [local_goto, hpcu]
    by_cases hu : u = t
    · subst hu
      rw [if_pos rfl]
      refine ⟨by rw [← hs']; exact hlock, ?_⟩
      rw [hslot', Function.update_self]
    · rw [if_neg hu]
      have hnl := not_locked hlock hu
      refine (h.locals u).mono (fun hl => absurd hl hnl) (fun hl => absurd hl hnl)
        (fun hl => absurd hl hnl) (fun w hw hlw => ?_) (fun hl => absurd hl hnl)
        fun w _ hw => ?_
      · refine (hlive' w).mpr ⟨?_, hlw⟩
        rintro rfl
        have htu : (s.pc u).target? = some w := by
          cases hpu : s.pc u <;> rw [hpu] at hw <;> cases hw <;> rfl
        rw [h.owner, hown] at htu
        exact hu (Option.some.inj htu).symm
      · rw [hslot']
        by_cases hwv : w = v
        · subst hwv
          exact Function.update_self _ _ _
        · rw [Function.update_of_ne hwv]
          exact hw
  · rw [hpcu]
    by_cases hu : u = t
    · subst hu
      rw [if_pos rfl, ← h.owner, hpc]
      rfl
    · rw [if_neg hu]
      exact h.owner u w
  · rw [goto_vfsBiglock, ← hs']
    exact h.depth u
  · rw [goto_sfsVnodes, ← hs']
    exact h.nodup
  · rw [goto_sfsVnodes, ← hs'] at hw
    rw [goto_live, hlive']
    refine ⟨?_, h.table w hw⟩
    rintro rfl
    exact htable hw
  · rw [goto_live, hlive'] at hw
    rw [goto_sfsVnodes, ← hs'] at hn
    obtain ⟨u, hu⟩ := h.listed w hw.2 hn
    refine ⟨u, ?_⟩
    rw [hpcu, if_neg]
    · exact hu
    · rintro rfl
      rw [hpc] at hu
      cases hu
      exact hw.1 rfl
  · rw [goto_svIno, hino] at hw hx
    by_cases hwv : w = v
    · rw [if_pos hwv] at hw
      cases hw
    · by_cases hxv : x = v
      · rw [if_pos hxv] at hx
        cases hx
      · rw [if_neg hwv] at hw
        rw [if_neg hxv] at hx
        exact h.unique w x i hw hx
  · have hu' : (u, w) ∈ s.refs := by
      rw [← hs'] at hu
      exact hu
    rw [goto_live, hlive']
    refine ⟨?_, h.held u w hu'⟩
    rintro rfl
    have := outstanding_pos hu'
    omega
  · rw [goto_slot, hslot'] at hw
    by_cases hwv : w = v
    · subst hwv
      rw [Function.update_self] at hw
      cases hw
    · rw [Function.update_of_ne hwv] at hw
      rw [goto_outstanding, ← hs']
      exact h.count w i k hw
  · rw [goto_slot, hslot'] at h1 h2
    rw [hdest]
    by_cases hwv : w = v
    · subst hwv
      simp at h1
    · rw [Function.update_of_ne hwv] at h1 h2 ⊢
      exact h.undestroyed w h1 h2
  · rw [goto_slot, hslot'] at hw
    rw [hdest]
    by_cases hwv : w = v
    · subst hwv
      rw [Function.update_self, h.undestroyed w (by simp [hslot]) (by simp [hslot])]
    · rw [Function.update_of_ne hwv] at hw ⊢
      exact h.destroyed w hw
  · rw [show (s'.goto t (.reclaimUnlock v)).fault = s.fault by rw [← hs']; rfl]
    exact h.noFault

omit [DecidableEq I] in
/-- `kfree`. -/
theorem Inv.free (h : Inv s r) (hpc : s.pc t = .reclaimFree v) :
    Inv ({ s with slot := Function.update s.slot v .freed }.goto t .out)
      (Function.update r v none) := by
  have hl := h.locals t
  rw [hpc] at hl
  have hclean : s.slot v = .cleaned := hl
  have hown : r v = some t := (h.owner t v).mp (by rw [hpc]; rfl)
  generalize hs' : ({ s with slot := Function.update s.slot v .freed } : State T V I) = s'
  have hslot' : s'.slot = Function.update s.slot v .freed := by rw [← hs']
  have hino : s'.svIno = s.svIno := by
    funext w
    unfold State.svIno
    rw [hslot']
    by_cases hw : w = v
    · subst hw
      rw [Function.update_self, hclean]
    · rw [Function.update_of_ne hw]
  have hlive : s'.Live = s.Live := by
    funext w
    exact congrArg (· ≠ none) (congrFun hino w)
  have hpcu : ∀ u, (s'.goto t .out).pc u = if u = t then .out else s.pc u := by
    intro u
    rw [← hs']
    exact Function.update_apply _ _ _ _
  refine ⟨fun u => ?_, fun u w => ?_, fun u => ?_, ?_, fun w hw => ?_, fun w hw hn => ?_,
    fun w x i hw hx => ?_, fun u w hu => ?_, fun w i k hw => ?_, fun w h1 h2 => ?_,
    fun w hw => ?_, ?_⟩
  · rw [local_goto, hpcu]
    by_cases hu : u = t
    · rw [if_pos hu]
      trivial
    · rw [if_neg hu]
      refine (h.locals u).mono (fun hl => by rw [← hs']; exact hl)
        (fun _ w => by rw [← hs']) (fun _ w i hw => by rwa [hino] at hw)
        (fun w _ hw => by rwa [hlive]) (fun _ w hw => by rw [← hs']; exact hw) fun w htu hw => ?_
      rw [hslot', Function.update_of_ne]
      · exact hw
      · rintro rfl
        rw [h.owner, hown] at htu
        exact hu (Option.some.inj htu).symm
  · rw [hpcu]
    by_cases hw : w = v
    · subst hw
      rw [Function.update_self]
      by_cases hu : u = t
      · simp [hu, Pc.target?]
      · rw [if_neg hu, h.owner, hown]
        simp [Ne.symm hu]
    · rw [Function.update_of_ne hw]
      by_cases hu : u = t
      · subst hu
        rw [if_pos rfl, ← h.owner, hpc]
        simp [Pc.target?, Ne.symm hw]
      · rw [if_neg hu]
        exact h.owner u w
  · rw [goto_vfsBiglock, ← hs']
    exact h.depth u
  · rw [goto_sfsVnodes, ← hs']
    exact h.nodup
  · rw [goto_sfsVnodes, ← hs'] at hw
    rw [goto_live, hlive]
    exact h.table w hw
  · rw [goto_live, hlive] at hw
    rw [goto_sfsVnodes, ← hs'] at hn
    obtain ⟨u, hu⟩ := h.listed w hw hn
    refine ⟨u, ?_⟩
    rw [hpcu, if_neg]
    · exact hu
    · rintro rfl
      rw [hpc] at hu
      cases hu
  · rw [goto_svIno, hino] at hw hx
    exact h.unique w x i hw hx
  · rw [goto_live, hlive]
    rw [← hs'] at hu
    exact h.held u w hu
  · rw [goto_slot, hslot'] at hw
    by_cases hwv : w = v
    · subst hwv
      rw [Function.update_self] at hw
      cases hw
    · rw [Function.update_of_ne hwv] at hw ⊢
      rw [goto_outstanding, ← hs']
      exact h.count w i k hw
  · rw [show (s'.goto t .out).destroyed = s.destroyed by rw [← hs']; rfl]
    rw [goto_slot, hslot'] at h1 h2
    by_cases hwv : w = v
    · subst hwv
      simp at h2
    · rw [Function.update_of_ne hwv] at h1 h2
      exact h.undestroyed w h1 h2
  · rw [show (s'.goto t .out).destroyed = s.destroyed by rw [← hs']; rfl]
    rw [goto_slot, hslot'] at hw
    by_cases hwv : w = v
    · subst hwv
      exact h.destroyed w (Or.inl hclean)
    · rw [Function.update_of_ne hwv] at hw
      exact h.destroyed w hw
  · rw [show (s'.goto t .out).fault = s.fault by rw [← hs']; rfl]
    exact h.noFault

/-- The search of `sfs_loadvnode`. -/
theorem Inv.find {ino : I} (h : Inv s r) (hpc : s.pc t = .loadFind ino) :
    Inv (loadFind s t ino) r := by
  have hlock := h.locals t
  rw [hpc] at hlock
  change s.vfsBiglock = some t at hlock
  have hall : ∀ v ∈ s.sfsVnodes, s.svIno v ≠ none := h.table
  rw [loadFind, if_pos hall]
  cases hf : s.sfsVnodes.find? fun v => s.svIno v = some ino with
  | some v => exact h.goto ⟨hlock, List.mem_of_find?_eq_some hf⟩ (by rw [hpc]; rfl) (by simp [hpc])
  | none =>
    refine h.goto ⟨hlock, fun v hv => ?_⟩ (by rw [hpc]; rfl) (by simp [hpc])
    have hnot : v ∉ s.sfsVnodes := fun hm => by
      simpa [hv] using List.find?_eq_none.mp hf v hm
    -- a vnode off the table is being taken apart under the lock that this thread has
    obtain ⟨u, hu⟩ := h.listed v (by rw [State.Live, hv]; simp) hnot
    have hlu := h.locals u
    rw [hu] at hlu
    have htu := hlu.1
    rw [hlock] at htu
    obtain rfl := Option.some.inj htu
    rw [hpc] at hu
    cases hu

end Steps

end Vnode

end Os161
