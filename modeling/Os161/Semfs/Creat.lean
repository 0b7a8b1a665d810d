import Os161.Semfs.Tables

/-!
# What `semfs_creat` reports

A call that returns 0 should have put the name in the directory, bound to a linked semaphore, and
handed out a vnode with one reference more; a call that returns an error should have left names,
semaphores and vnodes alone. This is so except where the directory entry cannot be allocated: the
clean-up is done, but `result` is still the 0 of `semfs_sem_insert`.

## Main results

* `Semfs.Tables.semfsGetvnode_hands` — what `semfs_getvnode` hands out
* `Semfs.Tables.semfs_creat_reports_iff`
-/

namespace Os161

namespace Semfs

namespace Tables

/-! ### References -/

/-- How many references there are to the vnode at an address. -/
def refsAt (vnodes : List Vnode) (a : ℕ) : ℕ :=
  ((vnodes.filter (·.addr = a)).map Vnode.vnRefcount).sum

theorem refsAt_cons (v : Vnode) (vnodes : List Vnode) (a : ℕ) :
    refsAt (v :: vnodes) a = (if v.addr = a then v.vnRefcount else 0) + refsAt vnodes a := by
  by_cases h : v.addr = a <;> simp [refsAt, h]

/-- `VOP_INCREF`. -/
theorem refsAt_modify {vnodes : List Vnode} {i : ℕ} {v : Vnode} (h : vnodes[i]? = some v) :
    refsAt (vnodes.modify i fun v => { v with vnRefcount := v.vnRefcount + 1 }) v.addr =
      refsAt vnodes v.addr + 1 := by
  induction vnodes generalizing i with
  | nil => cases h
  | cons w vnodes ih =>
    cases i with
    | zero =>
      obtain rfl : w = v := Option.some.inj h
      rw [List.modify_zero_cons, refsAt_cons, refsAt_cons, if_pos rfl, if_pos rfl,
        Nat.add_right_comm]
    | succ i =>
      rw [List.modify_succ_cons, refsAt_cons, refsAt_cons, ih h]
      omega

theorem refsAt_append (vnodes : List Vnode) (v : Vnode) :
    refsAt (vnodes ++ [v]) v.addr = refsAt vnodes v.addr + v.vnRefcount := by
  simp [refsAt]

/-! ### What a call should report -/

/-- There is a vnode for semaphore `semnum` at `a`, with one reference more than before. -/
def State.Hands (s s' : State) (semnum a : ℕ) : Prop :=
  (∃ v ∈ s'.semfsVnodes, v.addr = a ∧ v.semvSemnum = semnum) ∧
    refsAt s'.semfsVnodes a = refsAt s.semfsVnodes a + 1

/-- The name is in the directory, bound to a linked semaphore. -/
def State.Bound (s : State) (name : Name) (semnum : ℕ) : Prop :=
  (∃ k, Slots.get s.semfsDents k = some ⟨name, semnum⟩) ∧
    ∃ m, Slots.get s.semfsSems semnum = some m ∧ m.semsLinked = true

/-- Names, semaphores and vnodes are the same. -/
structure State.Same (s s' : State) : Prop where
  dents : Slots.get s'.semfsDents = Slots.get s.semfsDents
  sems : Slots.get s'.semfsSems = Slots.get s.semfsSems
  vnodes : s'.semfsVnodes = s.semfsVnodes

/-- The call reports what it did. -/
def Outcome.Reports (s : State) (name : Name) : Outcome → Prop
  | .panic => False
  | .done none vn s' => ∃ semnum a, vn = some a ∧ s'.Bound name semnum ∧ s.Hands s' semnum a
  | .done (some _) _ s' => s.Same s'

/-- `semfs_sem_insert` has a place for one more semaphore. -/
def State.HasRoom (s : State) (m : Mem) : Prop :=
  s.semfsSems.length ≠ semfsRootdir ∧
    (Slots.free s.semfsSems < s.semfsSems.length ∨ m.semAdd = false)

/-- The name is new, and the allocation that fails first is that of the directory entry. -/
structure State.EntryFails (s : State) (m : Mem) (name : Name) : Prop where
  dot : name ≠ dot
  dotdot : name ≠ dotdot
  fresh : ∀ k d, Slots.get s.semfsDents k = some d → d.semdName ≠ name
  semCreate : m.semCreate = false
  room : s.HasRoom m
  direntryCreate : m.direntryCreate = true

theorem State.Same.refl (s : State) : s.Same s := ⟨rfl, rfl, rfl⟩

variable {s : State} {m : Mem} {name : Name}

/-- `semfs_getvnode` for a semaphore in the directory. -/
theorem semfsGetvnode_hands (h : Inv s) (m : Mem) {k : ℕ} {d : Direntry}
    (hd : Slots.get s.semfsDents k = some d) :
    (∃ s' a, semfsGetvnode m s d.semdSemnum = .done none (some a) s' ∧
        s'.Bound d.semdName d.semdSemnum ∧ s.Hands s' d.semdSemnum a) ∨
      semfsGetvnode m s d.semdSemnum = .done (some .enomem) none s := by
  obtain ⟨sem, hsem, hl⟩ := h.tables.dentSem k d hd
  have hroot : d.semdSemnum ≠ semfsRootdir := h.ne_root (Slots.lt_of_get hsem)
  unfold semfsGetvnode
  cases hfind : s.semfsVnodes.findIdx? fun v => v.semvSemnum = d.semdSemnum with
  | some i =>
    obtain ⟨hlt, hp, -⟩ := List.findIdx?_eq_some_iff_getElem.mp hfind
    have hi := List.getElem?_eq_getElem hlt
    have hnum : s.semfsVnodes[i].semvSemnum = d.semdSemnum := of_decide_eq_true hp
    refine Or.inl ⟨s.incref i, s.semfsVnodes[i].addr, ?_, ⟨⟨k, hd⟩, sem, hsem, hl⟩, ?_,
      refsAt_modify hi⟩
    · dsimp only
      rw [hi]
      rfl
    · refine ⟨{ s.semfsVnodes[i] with vnRefcount := s.semfsVnodes[i].vnRefcount + 1 }, ?_, rfl,
        hnum⟩
      refine List.mem_of_getElem? (i := i) ?_
      rw [State.incref, List.getElem?_modify_eq, hi]
      rfl
  | none =>
    have hnot := notMem_nums_of_findIdx hfind
    have hv : sem.semsHasvnode = false := by
      cases hv : sem.semsHasvnode with
      | false => rfl
      | true => exact absurd (h.tables.semVnode _ sem hsem hv) hnot
    dsimp only
    split
    · exact Or.inr rfl
    · split
      · exact Or.inr rfl
      · simp only [hsem, hv, if_true]
        refine Or.inl ⟨_, s.nextAddr, rfl, ⟨⟨k, hd⟩,
          { sem with semsHasvnode := true }, ?_, hl⟩, ?_, refsAt_append _ _⟩
        · exact (congrFun (Slots.get_set (Slots.lt_of_get hsem) _) _).trans
            (Function.update_self ..)
        · exact ⟨_, List.mem_append_right _ List.mem_cons_self, rfl, rfl⟩

/-- A call for a name that is in the directory. -/
theorem reports_existing (h : Inv s) (m : Mem) {k : ℕ} {d : Direntry}
    (hd : Slots.get s.semfsDents k = some d) :
    (semfsGetvnode m s d.semdSemnum).Reports s d.semdName := by
  rcases semfsGetvnode_hands h m hd with ⟨s', a, hget, hbound, hhands⟩ | hget
  · rw [hget]
    exact ⟨_, a, rfl, hbound, hhands⟩
  · rw [hget]
    exact State.Same.refl s

theorem semfsSemInsert_ok_iff {semnum : ℕ} (h : semfsSemInsert m s = .ok semnum) : s.HasRoom m := by
  unfold semfsSemInsert at h
  split at h
  · cases h
  · rename_i hfull
    refine ⟨hfull, ?_⟩
    split at h
    · exact Or.inl ‹_›
    · split at h
      · cases h
      · exact Or.inr (by simpa using ‹¬m.semAdd = true›)

theorem semfsSemInsert_of_room (h : s.HasRoom m) : ∃ semnum, semfsSemInsert m s = .ok semnum := by
  obtain ⟨hfull, hroom⟩ := h
  unfold semfsSemInsert
  rw [if_neg hfull]
  by_cases hfree : Slots.free s.semfsSems < s.semfsSems.length
  · rw [if_pos hfree]
    exact ⟨_, rfl⟩
  · rw [if_neg hfree, hroom.resolve_left hfree]
    exact ⟨_, rfl⟩

/-- The lookup at the head of `semfs_creat`. -/
theorem fresh_of_lookup
    (hd : (Slots.find (hasName name) s.semfsDents).bind (Slots.get s.semfsDents) = none) (k : ℕ)
    (d : Direntry) (hk : Slots.get s.semfsDents k = some d) : d.semdName ≠ name := by
  have hfind : Slots.find (hasName name) s.semfsDents = none := by
    cases hfind : Slots.find (hasName name) s.semfsDents with
    | none => rfl
    | some k' =>
      obtain ⟨a, ha, -⟩ := Slots.find_eq_some hfind
      rw [hfind, Option.bind_some, ha] at hd
      cases hd
  exact of_decide_eq_false (Slots.find_eq_none hfind hk)

theorem lookup_of_fresh
    (h : ∀ k d, Slots.get s.semfsDents k = some d → d.semdName ≠ name) :
    (Slots.find (hasName name) s.semfsDents).bind (Slots.get s.semfsDents) = none := by
  cases hfind : Slots.find (hasName name) s.semfsDents with
  | none => rfl
  | some k =>
    obtain ⟨a, ha, hname⟩ := Slots.find_eq_some hfind
    exact absurd (of_decide_eq_true hname) (h k a ha)

/-- Where the entry cannot be allocated, 0 is returned without a vnode. -/
theorem semfsCreat_entryFails (h : s.EntryFails m name) (excl : Bool) :
    ∃ s', semfsCreat m s name excl = .done none none s' := by
  obtain ⟨semnum, hins⟩ := semfsSemInsert_of_room h.room
  have hnot : ¬(name = dot ∨ name = dotdot) := not_or.mpr ⟨h.dot, h.dotdot⟩
  unfold semfsCreat
  rw [if_neg hnot, lookup_of_fresh h.fresh]
  dsimp only
  rw [h.semCreate, hins, h.direntryCreate]
  exact ⟨_, rfl⟩

/-- Elsewhere the call reports what it did. -/
theorem semfsCreat_reports (h : Inv s) (hentry : ¬s.EntryFails m name) (excl : Bool) :
    (semfsCreat m s name excl).Reports s name := by
  unfold semfsCreat
  by_cases hdots : name = dot ∨ name = dotdot
  · rw [if_pos hdots]
    exact State.Same.refl s
  rw [if_neg hdots]
  cases hd : (Slots.find (hasName name) s.semfsDents).bind (Slots.get s.semfsDents) with
  | some d =>
    obtain ⟨k, hfind, hk⟩ := Option.bind_eq_some_iff.mp hd
    obtain ⟨d', hk', hname⟩ := Slots.find_eq_some hfind
    obtain rfl := Option.some.inj (hk.symm.trans hk')
    obtain rfl : d.semdName = name := of_decide_eq_true hname
    dsimp only
    cases excl with
    | true => exact State.Same.refl s
    | false => exact reports_existing h m hk
  | none =>
    dsimp only
    cases hcreate : m.semCreate with
    | true => exact State.Same.refl s
    | false =>
      cases hins : semfsSemInsert m s with
      | error e => exact State.Same.refl s
      | ok semnum =>
        have hdirentry : m.direntryCreate = false := by
          by_contra hc
          exact hentry ⟨fun he => hdots (Or.inl he), fun he => hdots (Or.inr he),
            fresh_of_lookup hd, hcreate, semfsSemInsert_ok_iff hins, by simpa using hc⟩
        obtain ⟨hle, hfree, hlt⟩ := semfsSemInsert_spec h hins
        obtain ⟨hele, hefree⟩ := Slots.free_spec s.semfsDents
        have hundo := Slots.get_set_put hle hfree ⟨false, false⟩
        have hltp := Slots.lt_length_put hle (⟨false, false⟩ : Sem)
        have hroot : semnum ≠ semfsRootdir := (hle.trans_lt hlt).ne
        have hnot : semnum ∉ s.nums := by
          intro hmem
          obtain ⟨sem, hsem, -⟩ := h.tables.vnodeSem semnum hmem hroot
          rw [hfree] at hsem
          cases hsem
        have hsem : Slots.get (Slots.put s.semfsSems semnum ⟨false, false⟩) semnum =
            some ⟨false, false⟩ := by
          rw [Slots.get_put hle, Function.update_self]
        dsimp only
        rw [hdirentry, if_neg Bool.false_ne_true, if_neg Bool.false_ne_true]
        by_cases hadd : Slots.free s.semfsDents = s.semfsDents.length ∧ m.direntryAdd = true
        · rw [if_pos hadd]
          exact ⟨rfl, hundo, rfl⟩
        rw [if_neg hadd]
        -- the semaphore is in its slot and the name in the directory; the vnode is next
        rcases semfsGetvnode_new (s := { s with
            semfsSems := Slots.put s.semfsSems semnum ⟨false, false⟩
            semfsDents := Slots.put s.semfsDents (Slots.free s.semfsDents) ⟨name, semnum⟩ }) m hnot
            hroot hsem with hget | hget
        · rw [hget]
          exact ⟨Slots.get_set_put hele hefree _, hundo, rfl⟩
        · rw [hget]
          refine ⟨semnum, s.nextAddr, rfl, ⟨⟨Slots.free s.semfsDents, ?_⟩, ⟨true, true⟩, ?_, rfl⟩,
            ⟨⟨s.nextAddr, semnum, 1⟩, List.mem_append_right _ List.mem_cons_self, rfl, rfl⟩,
            refsAt_append _ ⟨s.nextAddr, semnum, 1⟩⟩
          · dsimp only
            rw [Slots.get_put hele, Function.update_self]
          · have hset : Slots.get ((Slots.put s.semfsSems semnum ⟨false, false⟩).set semnum
                (some ⟨true, false⟩)) semnum = some ⟨true, false⟩ := by
              rw [Slots.get_set hltp, Function.update_self]
            dsimp only
            rw [Slots.get_modify hset, Function.update_self]

/-- **When `semfs_creat` reports what it did**: in every reachable state, for every name and every
pattern of failing allocations, except where the directory entry is what cannot be allocated. -/
theorem semfs_creat_reports_iff {s : State} (h : system.Reachable (.running s)) (m : Mem)
    (name : Name) (excl : Bool) :
    (semfsCreat m s name excl).Reports s name ↔ ¬s.EntryFails m name := by
  constructor
  · intro hreports hentry
    obtain ⟨s', hrun⟩ := semfsCreat_entryFails hentry excl
    rw [hrun] at hreports
    obtain ⟨semnum, a, hvn, -⟩ := hreports
    cases hvn
  · exact fun hentry => semfsCreat_reports (ok_of_reachable h) hentry excl

/-- Nothing has been created. -/
def blank : State := ⟨[], [], [], 0⟩

theorem blank_reachable : system.Reachable (.running blank) := .init rfl

theorem semfs_creat_reports_iff_blank : (semfsCreat plenty blank [97] true).Reports blank [97] ↔
    ¬blank.EntryFails plenty [97] :=
  semfs_creat_reports_iff blank_reachable plenty [97] true

/-- There is no memory for the entry: 0 is returned, and no vnode. -/
theorem semfs_creat_unreported : system.Reachable (.running blank) ∧
    semfsCreat { plenty with direntryCreate := true } blank [97] true =
        .done none none { blank with semfsSems := [none] } ∧
      ¬(semfsCreat { plenty with direntryCreate := true } blank [97] true).Reports blank [97] := by
  refine ⟨blank_reachable, rfl, ?_⟩
  rintro ⟨semnum, a, hvn, -⟩
  cases hvn

end Tables

end Semfs

end Os161
