import Os161.Kern.Uio
import Os161.Semfs.Tables
import Mathlib.Algebra.Order.BigOperators.Group.List
import Mathlib.Algebra.Order.Group.Nat
import Mathlib.Algebra.GroupWithZero.Nat

/-!
# Reading the directory of the semaphore file system

`semfs_getdirentry` uses the position in the directory, `uio_offset`, as an index into the array of
entries. It hands the name over with `uiomove`, which moves the position on by the length of the
name and not by one; `kern/include/uio.h` says that a file system that does not mean that has to set
`uio_offset` afterwards. And it does not look whether the slot is empty, as the other functions do.

So the directory is read right only where each name is as long as the way to the next one
(`Spaced`).

## Main results

* `Semfs.Tables.enumerates_iff`
* `Semfs.Tables.getdirentry_enumerates_iff`
-/

namespace Os161

namespace Semfs

namespace Tables

/-- `semfs_getdirentry`; `none` where the `NULL` of an empty slot is dereferenced. -/
def semfsGetdirentry (copy : ℕ → Bool) (s : State) (u : Uio) (k : ℕ) : Option Uio.Moved :=
  let pos := (UInt32.ofNat u.uioOffset).toNat
  if s.semfsDents.length ≤ pos then some ⟨u, [], k, none⟩
  else
    match Slots.get s.semfsDents pos with
    | none => none
    | some dent => some (u.uiomove copy dent.semdName k)

/-- Requests with buffers large enough, one for each position. -/
structure Reader (s : State) where
  uio : ℕ → Uio
  offset : ∀ p, (uio p).uioOffset = p
  rw : ∀ p, (uio p).uioRw = .read
  empty : ∀ p, (uio p).dst = []
  ample : ∀ p, (uio p).Ample
  enough : ∀ p k d, Slots.get s.semfsDents k = some d →
    d.semdName.length ≤ (uio p).uioResid.toNat

/-- Calls from position `p` on, each going on where the one before it ended, yield these names and
then the end of the directory, which is a call that moves nothing. -/
inductive Yields {s : State} (r : Reader s) : ℕ → List Name → Prop
  | eof {p : ℕ} {m : Uio.Moved} (hcall : semfsGetdirentry (fun _ => true) s (r.uio p) 0 = some m)
      (hstop : m.stop = none) (hend : m.uio.dst = []) : Yields r p []
  | entry {p : ℕ} {m : Uio.Moved} {names : List Name}
      (hcall : semfsGetdirentry (fun _ => true) s (r.uio p) 0 = some m)
      (hstop : m.stop = none) (hname : m.uio.dst ≠ []) (hrest : Yields r m.uio.uioOffset names) :
      Yields r p (m.uio.dst :: names)

/-- Reading the directory yields each name once, and then ends. -/
def State.Enumerates (s : State) : Prop :=
  ∀ r : Reader s, ∃ names, Yields r 0 names ∧ names.Nodup ∧
    ∀ name, name ∈ names ↔ ∃ k d, Slots.get s.semfsDents k = some d ∧ d.semdName = name

/-- The way from each entry to the next one is as long as its name, and the last name reaches the
end of the array or goes past it. -/
def Spaced (dents : List (Option Direntry)) : Prop :=
  (0 < dents.length → ∃ d, Slots.get dents 0 = some d) ∧
    ∀ k d, Slots.get dents k = some d → d.semdName ≠ [] ∧
      (∀ j, k < j → j < k + d.semdName.length → Slots.get dents j = none) ∧
      (k + d.semdName.length < dents.length →
        ∃ d', Slots.get dents (k + d.semdName.length) = some d')

/-- The slots, of four bytes each, and the names are in a memory of `2^32` bytes. -/
def State.InMemory (s : State) : Prop :=
  4 * s.semfsDents.length + ((s.semfsDents.filterMap id).map (·.semdName.length)).sum ≤ 2 ^ 32

section Reading

variable {s : State} {p : ℕ} {d : Direntry}

theorem State.InMemory.lt (h : s.InMemory) (hd : Slots.get s.semfsDents p = some d) :
    p + d.semdName.length < 2 ^ 32 := by
  have hlt := Slots.lt_of_get hd
  have hmem : d ∈ s.semfsDents.filterMap id :=
    List.mem_filterMap.mpr ⟨some d, List.mem_of_getElem? (Slots.get_eq_some.mp hd), rfl⟩
  have hle := List.single_le_sum (fun _ _ => Nat.zero_le _) _
    (List.mem_map_of_mem (f := fun d : Direntry => d.semdName.length) hmem)
  have hh : 4 * s.semfsDents.length + _ ≤ 2 ^ 32 := h
  omega

theorem toNat_pos (hp : p < 2 ^ 32) (r : Reader s) :
    (UInt32.ofNat (r.uio p).uioOffset).toNat = p := by
  rw [r.offset, UInt32.toNat_ofNat_of_lt' hp]

/-- A call at the end of the array. -/
theorem getdirentry_eof (r : Reader s) (hp : p < 2 ^ 32) (h : s.semfsDents.length ≤ p) :
    semfsGetdirentry (fun _ => true) s (r.uio p) 0 = some ⟨r.uio p, [], 0, none⟩ := by
  rw [semfsGetdirentry, toNat_pos hp r, if_pos h]

/-- A call at an empty slot. -/
theorem getdirentry_null (r : Reader s) (hp : p < 2 ^ 32) (h : p < s.semfsDents.length)
    (hd : Slots.get s.semfsDents p = none) :
    semfsGetdirentry (fun _ => true) s (r.uio p) 0 = none := by
  rw [semfsGetdirentry, toNat_pos hp r, if_neg (Nat.not_le.mpr h), hd]

/-- A call at an entry: the name is handed over, and the position goes on by its length. -/
theorem getdirentry_entry (r : Reader s) (hp : p < 2 ^ 32)
    (hd : Slots.get s.semfsDents p = some d) :
    ∃ m, semfsGetdirentry (fun _ => true) s (r.uio p) 0 = some m ∧ m.stop = none ∧
      m.uio.dst = d.semdName ∧ m.uio.uioOffset = p + d.semdName.length := by
  obtain ⟨c, h⟩ := Uio.uiomove_transfer (fun _ => true) 0 (r.ample p)
    (r.enough p p d hd)
  obtain ⟨hstop, hall⟩ | ⟨-, -, i, hbad⟩ := h.stop
  · refine ⟨_, ?_, hstop, ?_, ?_⟩
    · rw [semfsGetdirentry, toNat_pos hp r, if_neg (Nat.not_le.mpr (Slots.lt_of_get hd)), hd]
    · rw [h.dst (r.rw p), r.empty, hall, List.take_length, List.nil_append]
    · rw [h.uioOffset, r.offset, hall]
  · cases hbad

/-- The names from place `p` on. -/
def namesFrom (dents : List (Option Direntry)) (p : ℕ) : List Name :=
  ((dents.drop p).filterMap id).map (·.semdName)

theorem namesFrom_end {dents : List (Option Direntry)} (h : dents.length ≤ p) :
    namesFrom dents p = [] := by
  rw [namesFrom, List.drop_eq_nil_of_le h]
  rfl

theorem namesFrom_some {dents : List (Option Direntry)} (hd : Slots.get dents p = some d) :
    namesFrom dents p = d.semdName :: namesFrom dents (p + 1) := by
  have hlt := Slots.lt_of_get hd
  have hget : dents[p] = some d :=
    Option.some.inj ((List.getElem?_eq_getElem hlt).symm.trans (Slots.get_eq_some.mp hd))
  rw [namesFrom, List.drop_eq_getElem_cons hlt, hget]
  rfl

theorem namesFrom_none {dents : List (Option Direntry)} (hd : Slots.get dents p = none) :
    namesFrom dents p = namesFrom dents (p + 1) := by
  rcases Nat.lt_or_ge p dents.length with hlt | hge
  · have hget : dents[p] = none := by
      rw [Slots.get, List.getElem?_eq_getElem hlt] at hd
      exact hd
    rw [namesFrom, List.drop_eq_getElem_cons hlt, hget]
    rfl
  · rw [namesFrom_end hge, namesFrom_end (hge.trans (Nat.le_succ p))]

/-- Over empty slots. -/
theorem namesFrom_gap {dents : List (Option Direntry)} (n : ℕ)
    (h : ∀ j, p ≤ j → j < p + n → Slots.get dents j = none) :
    namesFrom dents p = namesFrom dents (p + n) := by
  induction n with
  | zero => rfl
  | succ n ih =>
    rw [ih fun j hj hlt => h j hj (by omega), namesFrom_none (h (p + n) (by omega) (by omega)),
      Nat.add_assoc]

/-- There are no fewer names from `p` on than from `p + n` on, and as many only if there is none
between. -/
theorem length_namesFrom (dents : List (Option Direntry)) (p n : ℕ) :
    (namesFrom dents (p + n)).length ≤ (namesFrom dents p).length ∧
      ((namesFrom dents (p + n)).length = (namesFrom dents p).length →
        ∀ j, p ≤ j → j < p + n → Slots.get dents j = none) := by
  induction n with
  | zero => exact ⟨le_rfl, fun _ j hj hlt => absurd hlt (by omega)⟩
  | succ n ih =>
    cases hd : Slots.get dents (p + n) with
    | none =>
      have heq := namesFrom_none hd
      rw [← Nat.add_assoc, ← heq]
      refine ⟨ih.1, fun hlen j hj hlt => ?_⟩
      rcases Nat.lt_or_ge j (p + n) with hj' | hj'
      · exact ih.2 hlen j hj hj'
      · obtain rfl : j = p + n := by omega
        exact hd
    | some d =>
      have heq := namesFrom_some hd
      have hlen : (namesFrom dents (p + n)).length = (namesFrom dents (p + n + 1)).length + 1 := by
        rw [heq, List.length_cons]
      rw [← Nat.add_assoc]
      exact ⟨by omega, fun h => absurd h (by omega)⟩

/-- From an entry on, the rest of the directory is read to its end. -/
theorem Spaced.yields (hmem : s.InMemory) (hs : Spaced s.semfsDents) (r : Reader s) {p : ℕ}
    (hp : p < 2 ^ 32) (hat : p < s.semfsDents.length → ∃ d, Slots.get s.semfsDents p = some d) :
    Yields r p (namesFrom s.semfsDents p) := by
  -- the way to the end of the array gets shorter with each name
  induction hlen : s.semfsDents.length - p using Nat.strong_induction_on generalizing p with
  | _ n ih =>
    rcases Nat.lt_or_ge p s.semfsDents.length with hlt | hge
    · obtain ⟨d, hd⟩ := hat hlt
      obtain ⟨hne, hgap, hnext⟩ := hs.2 p d hd
      have hpos := List.length_pos_iff.mpr hne
      obtain ⟨m, hcall, hstop, hdst, hoff⟩ := getdirentry_entry r hp hd
      have hrest := ih (s.semfsDents.length - (p + d.semdName.length)) (by omega) (hmem.lt hd)
        hnext rfl
      have hend : p + 1 + (d.semdName.length - 1) = p + d.semdName.length := by omega
      have hover := namesFrom_gap (d.semdName.length - 1) fun j hj hlt =>
        hgap j (Nat.lt_of_succ_le hj) (hlt.trans_eq hend)
      have hnames : namesFrom s.semfsDents p =
          m.uio.dst :: namesFrom s.semfsDents (p + d.semdName.length) := by
        rw [hdst, namesFrom_some hd, hover, hend]
      rw [hnames]
      exact .entry hcall hstop (by rwa [hdst]) (by rwa [hoff])
    · rw [namesFrom_end hge]
      exact .eof (getdirentry_eof r hp hge) rfl (r.empty p)

/-- `Spaced`, from place `p` on. -/
def SpacedFrom (dents : List (Option Direntry)) (p : ℕ) : Prop :=
  (p < dents.length → ∃ d, Slots.get dents p = some d) ∧
    ∀ k d, p ≤ k → Slots.get dents k = some d → d.semdName ≠ [] ∧
      (∀ j, k < j → j < k + d.semdName.length → Slots.get dents j = none) ∧
      (k + d.semdName.length < dents.length →
        ∃ d', Slots.get dents (k + d.semdName.length) = some d')

/-- What calls from `p` on yield is no more than there is, and if it is as much, then the names are
spaced. -/
theorem Yields.spaced {r : Reader s} {names : List Name} (hmem : s.InMemory) (h : Yields r p names)
    (hp : p < 2 ^ 32) : names.length ≤ (namesFrom s.semfsDents p).length ∧
      (names.length = (namesFrom s.semfsDents p).length → SpacedFrom s.semfsDents p) := by
  induction h with
  | @eof p m hcall hstop hend =>
    refine ⟨Nat.zero_le _, fun hlen => ?_⟩
    rcases Nat.lt_or_ge p s.semfsDents.length with hlt | hge
    · cases hd : Slots.get s.semfsDents p with
      | none =>
        rw [getdirentry_null r hp hlt hd] at hcall
        cases hcall
      | some d =>
        rw [namesFrom_some hd] at hlen
        cases hlen
    · refine ⟨fun hlt => absurd hlt (Nat.not_lt.mpr hge), fun k d hk hd => ?_⟩
      exact absurd (Slots.lt_of_get hd) (Nat.not_lt.mpr (hge.trans hk))
  | @entry p m names hcall hstop hname hrest ih =>
    rcases Nat.lt_or_ge p s.semfsDents.length with hlt | hge
    · cases hd : Slots.get s.semfsDents p with
      | none =>
        rw [getdirentry_null r hp hlt hd] at hcall
        cases hcall
      | some d =>
        obtain ⟨m', hcall', -, hdst, hoff⟩ := getdirentry_entry r hp hd
        obtain rfl := Option.some.inj (hcall.symm.trans hcall')
        rw [hoff] at ih
        obtain ⟨hle, hspaced⟩ := ih (hmem.lt hd)
        have hne : d.semdName ≠ [] := by rwa [hdst] at hname
        have hpos := List.length_pos_iff.mpr hne
        obtain ⟨hle', hgap⟩ := length_namesFrom s.semfsDents (p + 1) (d.semdName.length - 1)
        rw [show p + 1 + (d.semdName.length - 1) = p + d.semdName.length by omega] at hle' hgap
        rw [namesFrom_some hd, List.length_cons, List.length_cons]
        refine ⟨by omega, fun hlen => ?_⟩
        have hbetween := hgap (by omega)
        obtain ⟨hhead, htail⟩ := hspaced (by omega)
        refine ⟨fun _ => ⟨d, hd⟩, fun k d' hk hd' => ?_⟩
        rcases Nat.eq_or_lt_of_le hk with rfl | hk'
        · obtain rfl := Option.some.inj (hd.symm.trans hd')
          exact ⟨hne, fun j hj hj' => hbetween j hj hj', hhead⟩
        · refine htail k d' ?_ hd'
          by_contra hc
          rw [hbetween k hk' (Nat.lt_of_not_le hc)] at hd'
          cases hd'
    · rw [getdirentry_eof r hp hge] at hcall
      obtain rfl := Option.some.inj hcall
      exact absurd (r.empty p) hname

/-- Buffers of any size will do for the names there are. -/
def pageReader (s : State) (h : s.InMemory) : Reader s where
  uio p := ⟨[4294967295], p, 4294967295, .userspace, .read, [], []⟩
  offset _ := rfl
  rw _ := rfl
  empty _ := rfl
  ample _ := ⟨le_rfl, nofun⟩
  enough p k d hd := by
    have := h.lt hd
    change d.semdName.length ≤ 4294967295
    omega

end Reading

/-- The names in the directory, in order. -/
theorem mem_namesFrom_zero {s : State} (name : Name) : name ∈ namesFrom s.semfsDents 0 ↔
    ∃ k d, Slots.get s.semfsDents k = some d ∧ d.semdName = name := by
  rw [namesFrom, List.drop_zero, List.mem_map]
  constructor
  · rintro ⟨d, hd, rfl⟩
    obtain ⟨x, hx, rfl⟩ := List.mem_filterMap.mp hd
    obtain ⟨k, hk⟩ := List.getElem?_of_mem hx
    exact ⟨k, d, Slots.get_eq_some.mpr hk, rfl⟩
  · rintro ⟨k, d, hd, rfl⟩
    exact ⟨d, List.mem_filterMap.mpr ⟨some d, List.mem_of_getElem? (Slots.get_eq_some.mp hd), rfl⟩,
      rfl⟩

/-- No name is in the directory twice. -/
theorem nodup_namesFrom {s : State} (h : Inv s) (p : ℕ) : (namesFrom s.semfsDents p).Nodup := by
  induction hlen : s.semfsDents.length - p generalizing p with
  | zero =>
    rw [namesFrom_end (by omega)]
    exact List.nodup_nil
  | succ n ih =>
    have hnext := ih (p + 1) (by omega)
    cases hd : Slots.get s.semfsDents p with
    | none =>
      rw [namesFrom_none hd]
      exact hnext
    | some d =>
      rw [namesFrom_some hd, List.nodup_cons]
      refine ⟨fun hmem => ?_, hnext⟩
      obtain ⟨d', hd', hname⟩ := List.mem_map.mp hmem
      obtain ⟨x, hx, rfl⟩ := List.mem_filterMap.mp hd'
      obtain ⟨k, hk⟩ := List.getElem?_of_mem hx
      rw [List.getElem?_drop] at hk
      have := h.tables.nameOnce _ _ d' d (Slots.get_eq_some.mpr hk) hd hname
      omega

theorem enumerates_iff {s : State} (h : Inv s) (hmem : s.InMemory) :
    s.Enumerates ↔ Spaced s.semfsDents := by
  constructor
  · intro hall
    obtain ⟨names, hyields, hnodup, hnames⟩ := hall (pageReader s hmem)
    have hperm : names.Perm (namesFrom s.semfsDents 0) :=
      (List.perm_ext_iff_of_nodup hnodup (nodup_namesFrom h 0)).mpr fun name =>
        (hnames name).trans (mem_namesFrom_zero name).symm
    obtain ⟨hhead, htail⟩ := (hyields.spaced hmem (by decide)).2 hperm.length_eq
    exact ⟨hhead, fun k d hd => htail k d (Nat.zero_le k) hd⟩
  · exact fun hs r => ⟨_, hs.yields hmem r (by decide) hs.1, nodup_namesFrom h 0,
      mem_namesFrom_zero⟩

/-- **When the directory is read right**: in every reachable state, with every sequence of buffers
that are large enough, exactly where each name is as long as the way to the next one. -/
theorem getdirentry_enumerates_iff {s : State} (h : system.Reachable (.running s))
    (hmem : s.InMemory) : s.Enumerates ↔ Spaced s.semfsDents :=
  enumerates_iff (ok_of_reachable h) hmem

/-- Two names, of one byte and of two. -/
def twoNames : State where
  semfsSems := [some ⟨true, true⟩, some ⟨true, true⟩]
  semfsDents := [some ⟨[97], 0⟩, some ⟨[98, 99], 1⟩]
  semfsVnodes := [⟨0, 0, 1⟩, ⟨1, 1, 1⟩]
  nextAddr := 2

theorem twoNames_reachable : system.Reachable (.running twoNames) :=
  TransitionSystem.reachable_of_run [.creat plenty [97] true, .creat plenty [98, 99] true]
    (.init rfl) (by decide)

theorem getdirentry_enumerates_iff_twoNames :
    twoNames.Enumerates ↔ Spaced twoNames.semfsDents :=
  getdirentry_enumerates_iff twoNames_reachable (by unfold State.InMemory; decide)

/-- The longer name first: the other one is passed over. -/
def passedOver : State where
  semfsSems := [some ⟨true, true⟩, some ⟨true, true⟩]
  semfsDents := [some ⟨[98, 99], 0⟩, some ⟨[97], 1⟩]
  semfsVnodes := [⟨0, 0, 1⟩, ⟨1, 1, 1⟩]
  nextAddr := 2

theorem not_enumerates_passedOver :
    system.Reachable (.running passedOver) ∧ ¬passedOver.Enumerates := by
  have hreach : system.Reachable (.running passedOver) :=
    TransitionSystem.reachable_of_run [.creat plenty [98, 99] true, .creat plenty [97] true]
      (.init rfl) (by decide)
  refine ⟨hreach, fun hall => ?_⟩
  have hs := (enumerates_iff (ok_of_reachable hreach) (by unfold State.InMemory; decide)).mp hall
  have hgap := (hs.2 0 ⟨[98, 99], 0⟩ rfl).2.1 1 (by decide) (by decide)
  cases hgap

end Tables

end Semfs

end Os161
