import Os161.Kern.Errno
import Os161.Lib.Transition
import Mathlib.Data.List.Perm.Basic
import Mathlib.Order.Basic

/-!
# The names of known devices

The device table of `kern/vfs/vfslist.c`. Each entry has up to three names: the name of the device,
the name of the raw device if a filesystem can be mounted on it, and the name of the volume while
one is mounted. `vfs_getroot` goes through the table and takes the first entry that has the name it
looks for, so the three kinds of names share one namespace.

`vfs_doadd` checks the names it brings in against all others. `vfs_mount` brings in the volume's
name and checks nothing, although its users are told that two filesystems with one name must not be
mounted at once: `mount_same_volname` mounts two. Where every volume mounted has a name of its own
(`Fresh`), names stay apart and the order of the table does not matter.

The outcome of what lies outside (allocation, `mountfunc`, `FSOP_SYNC`, `FSOP_UNMOUNT`) is part of
the action. A failed `KASSERT` leaves no successor state.

## Main results

* `Vfs.distinct_step`, `Vfs.names_distinct` — the invariant, for runs that mount under fresh names
* `Vfs.vfsGetroot_perm` — the order of the table does not matter
-/

namespace Os161

namespace Vfs

/-- A C string. -/
abbrev Name := List UInt8

/-- `kd_fs`. -/
inductive KdFs where
  /-- No filesystem. -/
  | null
  /-- `SWAP_FS`. -/
  | swap
  /-- A filesystem and what its `FSOP_GETVOLNAME` returns. -/
  | fs (volname : Option Name)
  deriving DecidableEq

/-- `struct knowndev`; the vnode of the device goes with the device. -/
structure Knowndev where
  /-- `kd_name`. -/
  kdName : Name
  /-- `kd_rawname`. -/
  kdRawname : Option Name
  /-- `kd_device`. -/
  kdDevice : Option ℕ
  /-- `kd_fs`. -/
  kdFs : KdFs
  deriving DecidableEq

/-- `knowndevs`. -/
abbrev Table := List Knowndev

/-! ### Looking up a name -/

/-- What `vfs_getroot` hands back, other than `ENODEV`. -/
inductive Root where
  /-- `FSOP_GETROOT` of the filesystem on the device with this name. -/
  | fsroot (kdName : Name)
  /-- The vnode of the device. -/
  | device (dev : ℕ)
  /-- `ENXIO`. -/
  | enxio
  /-- A `KASSERT` failed. -/
  | panicked
  deriving DecidableEq

/-- The body of the loop of `vfs_getroot`: what is returned on account of `kd`, if anything is. -/
def getrootDev (kd : Knowndev) (devname : Name) : Option Root :=
  match kd.kdFs with
  | .fs volname =>
      if kd.kdName = devname ∨ volname = some devname then some (.fsroot kd.kdName)
      else rawDev
  | _ =>
      if kd.kdRawname ≠ none ∧ kd.kdName = devname then some .enxio
      else if kd.kdName = devname then
        if kd.kdFs = .null ∧ kd.kdRawname = none then
          match kd.kdDevice with
          | some dev => some (.device dev)
          | none => some .panicked
        else some .panicked
      else rawDev
where
  /-- The last test: the name of the raw device. -/
  rawDev : Option Root :=
    if kd.kdRawname = some devname then
      match kd.kdDevice with
      | some dev => some (.device dev)
      | none => some .panicked
    else none

/-- `vfs_getroot`; `none` is `ENODEV`. -/
def vfsGetroot (knowndevs : Table) (devname : Name) : Option Root :=
  knowndevs.findSome? fun kd => getrootDev kd devname

/-! ### Adding devices -/

/-- `mkrawname`. -/
def mkrawname (name : Name) : Name := name ++ [114, 97, 119]

/-- `samestring`. -/
def samestring (a b : Option Name) : Bool :=
  match a, b with
  | some a, some b => a = b
  | _, _ => false

/-- `samestring3`. -/
def samestring3 (a b c d : Option Name) : Bool :=
  samestring a b || samestring a c || samestring a d

/-- The volume name `badnames` and `vfs_getroot` see. -/
def Knowndev.volname (kd : Knowndev) : Option Name :=
  match kd.kdFs with
  | .fs volname => volname
  | _ => none

/-- `badnames`. -/
def badnames (knowndevs : Table) (n1 n2 n3 : Option Name) : Bool :=
  knowndevs.any fun kd => samestring3 kd.volname n1 n2 n3 || samestring3 kd.kdRawname n1 n2 n3 ||
    samestring3 (some kd.kdName) n1 n2 n3

/-- `vfs_doadd`. `alloc` says whether the allocations before the check succeed and `grow` whether
`knowndevarray_add` does. -/
def vfsDoadd (knowndevs : Table) (dname : Name) (mountable : Bool) (dev : Option ℕ) (fs : KdFs)
    (alloc grow : Bool) : Option Errno × Table :=
  if alloc then
    let kd : Knowndev :=
      { kdName := dname
        kdRawname := if mountable then some (mkrawname dname) else none
        kdDevice := dev
        kdFs := fs }
    if badnames knowndevs (some kd.kdName) kd.kdRawname kd.volname then (some .eexist, knowndevs)
    else if grow then (none, knowndevs ++ [kd])
    else (some .enomem, knowndevs)
  else (some .enomem, knowndevs)

/-- `vfs_adddev`. -/
def vfsAdddev (knowndevs : Table) (devname : Name) (dev : Option ℕ) (mountable alloc grow : Bool) :
    Option Errno × Table :=
  vfsDoadd knowndevs devname mountable dev .null alloc grow

/-- `vfs_addfs`. -/
def vfsAddfs (knowndevs : Table) (devname : Name) (volname : Option Name) (alloc grow : Bool) :
    Option Errno × Table :=
  vfsDoadd knowndevs devname false none (.fs volname) alloc grow

/-! ### Mounting -/

/-- `findmount`: the position of the mountable device with a name. -/
def findmount (knowndevs : Table) (devname : Name) : Option ℕ :=
  knowndevs.findIdx? fun kd => kd.kdRawname ≠ none ∧ devname = kd.kdName

/-- Set `kd_fs` of the device at position `i`. -/
def setFs (knowndevs : Table) (i : ℕ) (fs : KdFs) : Table :=
  knowndevs.modify i fun kd => { kd with kdFs := fs }

/-- `vfs_mount`; `result` is what `mountfunc` returns, and the volume name of the filesystem it
makes. -/
def vfsMount (knowndevs : Table) (devname : Name) (result : Except Errno (Option Name)) :
    Option (Option Errno × Table) :=
  match findmount knowndevs devname with
  | none => some (some .enodev, knowndevs)
  | some i => do
    let kd ← knowndevs[i]?
    if kd.kdFs ≠ .null then some (some .ebusy, knowndevs)
    else if kd.kdRawname = none ∨ kd.kdDevice = none then none
    else match result with
      | .error e => some (some e, knowndevs)
      | .ok volname => some (none, setFs knowndevs i (.fs volname))

/-- `vfs_swapon`; a trailing colon is dropped from a copy of the name, if there is memory for it. -/
def vfsSwapon (knowndevs : Table) (devname : Name) (mem : Bool) : Option (Option Errno × Table) :=
  if devname.getLast? = some 58 ∧ mem = false then some (some .enomem, knowndevs)
  else
    let devname := if devname.getLast? = some 58 then devname.dropLast else devname
    match findmount knowndevs devname with
    | none => some (some .enodev, knowndevs)
    | some i => do
      let kd ← knowndevs[i]?
      if kd.kdFs ≠ .null then some (some .ebusy, knowndevs)
      else if kd.kdRawname = none ∨ kd.kdDevice = none then none
      else some (none, setFs knowndevs i .swap)

/-- `vfs_unmount`; `sync` and `unmount` are what `FSOP_SYNC` and `FSOP_UNMOUNT` return. -/
def vfsUnmount (knowndevs : Table) (devname : Name) (sync unmount : Option Errno) :
    Option (Option Errno × Table) :=
  match findmount knowndevs devname with
  | none => some (some .enodev, knowndevs)
  | some i => do
    let kd ← knowndevs[i]?
    if kd.kdFs = .null ∨ kd.kdFs = .swap then some (some .einval, knowndevs)
    else if kd.kdRawname = none ∨ kd.kdDevice = none then none
    else if sync ≠ none then some (sync, knowndevs)
    else if unmount ≠ none then some (unmount, knowndevs)
    else some (none, setFs knowndevs i .null)

/-- `vfs_swapoff`. -/
def vfsSwapoff (knowndevs : Table) (devname : Name) : Option (Option Errno × Table) :=
  match findmount knowndevs devname with
  | none => some (some .enodev, knowndevs)
  | some i => do
    let kd ← knowndevs[i]?
    if kd.kdFs ≠ .swap then some (some .einval, knowndevs)
    else some (none, setFs knowndevs i .null)

/-- What the two attempts at `FSOP_SYNC` and the `FSOP_UNMOUNT` return for one device. -/
structure Results where
  sync : Option Errno
  syncAgain : Option Errno
  unmount : Option Errno

/-- The body of the loop of `vfs_unmountall`. -/
def unmountDev (kd : Knowndev) (r : Results) : Knowndev :=
  if kd.kdRawname = none then kd
  else if kd.kdFs = .null then kd
  else if kd.kdFs = .swap then { kd with kdFs := .null }
  else if r.sync ≠ none ∧ r.syncAgain ≠ none then kd
  else if r.unmount ≠ none then kd
  else { kd with kdFs := .null }

/-- `vfs_unmountall`. -/
def vfsUnmountall (knowndevs : Table) (r : ℕ → Results) : Table :=
  knowndevs.mapIdx fun i kd => unmountDev kd (r i)

/-! ### The table over time -/

/-- A call, with the outcome of what it relies on. -/
inductive Action where
  | adddev (devname : Name) (dev : ℕ) (mountable alloc grow : Bool)
  | addfs (devname : Name) (volname : Option Name) (alloc grow : Bool)
  | mount (devname : Name) (result : Except Errno (Option Name))
  | unmount (devname : Name) (sync unmount : Option Errno)
  | swapon (devname : Name) (mem : Bool)
  | swapoff (devname : Name)
  | unmountall (r : ℕ → Results)

/-- One call. -/
def step (knowndevs : Table) : Action → Option Table
  | .adddev devname dev mountable alloc grow =>
      some (vfsAdddev knowndevs devname (some dev) mountable alloc grow).2
  | .addfs devname volname alloc grow => some (vfsAddfs knowndevs devname volname alloc grow).2
  | .mount devname result => (vfsMount knowndevs devname result).map Prod.snd
  | .unmount devname sync unmount => (vfsUnmount knowndevs devname sync unmount).map Prod.snd
  | .swapon devname mem => (vfsSwapon knowndevs devname mem).map Prod.snd
  | .swapoff devname => (vfsSwapoff knowndevs devname).map Prod.snd
  | .unmountall r => some (vfsUnmountall knowndevs r)

/-- The table after any sequence of calls, starting from the empty one of `vfs_bootstrap`. -/
def system : TransitionSystem Table Action where
  init t := t = []
  step := step

/-! ### The invariant -/

/-- All names of an entry. -/
def Knowndev.names (kd : Knowndev) : List Name :=
  kd.kdName :: (kd.kdRawname.toList ++ kd.volname.toList)

/-- No name belongs to two entries. -/
def Distinct (knowndevs : Table) : Prop :=
  knowndevs.Pairwise fun a b => ∀ name ∈ a.names, name ∉ b.names

/-- A volume that is mounted, on a device without one, is mounted under a name that no other entry
has. -/
def Fresh (knowndevs : Table) : Action → Prop
  | .mount devname (.ok (some volname)) => ∀ i kd, findmount knowndevs devname = some i →
      knowndevs[i]? = some kd → kd.kdFs = .null →
        ∀ j kd', j ≠ i → knowndevs[j]? = some kd' → volname ∉ kd'.names
  | _ => True

/-- Names stay apart whichever of two entries comes first. -/
theorem distinct_iff {t : Table} : Distinct t ↔ ∀ (i j : ℕ) (a b : Knowndev), i ≠ j →
    t[i]? = some a → t[j]? = some b → ∀ name ∈ a.names, name ∉ b.names := by
  rw [Distinct, List.pairwise_iff_getElem]
  constructor
  · intro h i j a b hij ha hb name hna hnb
    obtain ⟨hi, rfl⟩ := List.getElem?_eq_some_iff.mp ha
    obtain ⟨hj, rfl⟩ := List.getElem?_eq_some_iff.mp hb
    rcases Nat.lt_or_gt_of_ne hij with hlt | hlt
    · exact h i j hi hj hlt name hna hnb
    · exact h j i hj hi hlt name hnb hna
  · intro h i j hi hj hlt
    exact h i j _ _ (Nat.ne_of_lt hlt) (List.getElem?_eq_getElem hi) (List.getElem?_eq_getElem hj)

/-- Entries may lose names. -/
theorem Distinct.of_subset {t t' : Table} (h : Distinct t)
    (hsub : ∀ (i : ℕ) (a' : Knowndev), t'[i]? = some a' →
      ∃ a, t[i]? = some a ∧ a'.names ⊆ a.names) : Distinct t' := by
  rw [distinct_iff] at h ⊢
  intro i j a' b' hij ha' hb' name hna hnb
  obtain ⟨a, ha, hsa⟩ := hsub i a' ha'
  obtain ⟨b, hb, hsb⟩ := hsub j b' hb'
  exact h i j a b hij ha hb name (hsa hna) (hsb hnb)

/-- What `setFs` leaves at a position. -/
theorem getElem?_setFs {t : Table} {i j : ℕ} {fs : KdFs} {b' : Knowndev}
    (h : (setFs t i fs)[j]? = some b') :
    ∃ b, t[j]? = some b ∧ b' = if j = i then { b with kdFs := fs } else b := by
  rw [setFs, List.getElem?_modify] at h
  cases hb : t[j]? with
  | none => simp [hb] at h
  | some b =>
    refine ⟨b, rfl, ?_⟩
    rw [hb] at h
    by_cases hij : i = j
    · simpa [hij] using h.symm
    · simpa [hij, Ne.symm hij] using h.symm

/-- Dropping a filesystem, or putting swap where there is none. -/
theorem Distinct.setFs {t : Table} {i : ℕ} {fs : KdFs} (h : Distinct t)
    (hfs : ∀ volname, fs ≠ .fs volname) : Distinct (Vfs.setFs t i fs) := by
  refine h.of_subset fun j b' hb' => ?_
  obtain ⟨b, hb, rfl⟩ := getElem?_setFs hb'
  refine ⟨b, hb, ?_⟩
  split
  · have hvol : ({ b with kdFs := fs } : Knowndev).volname = none := by
      cases fs with
      | fs volname => exact absurd rfl (hfs volname)
      | _ => rfl
    rw [Knowndev.names, hvol, Knowndev.names]
    intro name hname
    simp only [Option.toList_none, List.append_nil, List.mem_cons, List.mem_append] at hname ⊢
    rcases hname with hname | hname
    · exact Or.inl hname
    · exact Or.inr (Or.inl hname)
  · exact List.Subset.refl _

/-- Mounting a volume under a fresh name on a device that has no filesystem. -/
theorem Distinct.mount {t : Table} {i : ℕ} {volname : Option Name} (h : Distinct t)
    (hfresh : ∀ v, volname = some v → ∀ (j : ℕ) (kd : Knowndev), j ≠ i → t[j]? = some kd →
      v ∉ kd.names) : Distinct (Vfs.setFs t i (.fs volname)) := by
  have hnames : ∀ (kd : Knowndev) (name : Name), name ∈ ({ kd with kdFs := .fs volname } :
      Knowndev).names → name ∈ kd.names ∨ volname = some name := by
    intro kd name hname
    simp only [Knowndev.names, Knowndev.volname, List.mem_cons, List.mem_append,
      Option.mem_toList] at hname ⊢
    rcases hname with hname | hname | hname
    · exact Or.inl (Or.inl hname)
    · exact Or.inl (Or.inr (Or.inl hname))
    · exact Or.inr hname
  have hd := distinct_iff.mp h
  rw [distinct_iff]
  intro j k a' b' hjk ha' hb' name hna hnb
  obtain ⟨a, ha, rfl⟩ := getElem?_setFs ha'
  obtain ⟨b, hb, rfl⟩ := getElem?_setFs hb'
  -- at most one of the two is the device mounted on
  by_cases hj : j = i
  · have hk : k ≠ i := fun hk => hjk (hj.trans hk.symm)
    rw [if_pos hj] at hna
    rw [if_neg hk] at hnb
    rcases hnames a name hna with hna | hv
    · exact hd j k a b hjk ha hb name hna hnb
    · exact hfresh name hv k b hk hb hnb
  · rw [if_neg hj] at hna
    by_cases hk : k = i
    · rw [if_pos hk] at hnb
      rcases hnames b name hnb with hnb | hv
      · exact hd j k a b hjk ha hb name hna hnb
      · exact hfresh name hv j a hj ha hna
    · rw [if_neg hk] at hnb
      exact hd j k a b hjk ha hb name hna hnb

/-! ### Adding -/

theorem samestring_iff {a b : Option Name} :
    samestring a b = true ↔ ∃ n, a = some n ∧ b = some n := by
  cases a <;> cases b <;> simp [samestring, eq_comm]

/-- What `badnames` lets through has no name in common with any entry. -/
theorem not_mem_names_of_badnames {t : Table} {kd kd' : Knowndev}
    (h : badnames t (some kd.kdName) kd.kdRawname kd.volname = false) (hkd' : kd' ∈ t) {name : Name}
    (hname : name ∈ kd'.names) : name ∉ kd.names := by
  intro hmem
  have hnone := List.any_eq_false.mp h kd' hkd'
  simp only [Knowndev.names, List.mem_cons, List.mem_append, Option.mem_toList] at hname hmem
  have hsame : ∀ a : Option Name, a = some name →
      samestring3 a (some kd.kdName) kd.kdRawname kd.volname = true := by
    rintro a rfl
    simp only [samestring3, Bool.or_eq_true, samestring_iff]
    rcases hmem with hmem | hmem | hmem
    · exact Or.inl (Or.inl ⟨name, rfl, by rw [hmem]⟩)
    · exact Or.inl (Or.inr ⟨name, rfl, hmem⟩)
    · exact Or.inr ⟨name, rfl, hmem⟩
  refine hnone ?_
  simp only [Bool.or_eq_true]
  rcases hname with hname | hname | hname
  · exact Or.inr (hsame _ (by rw [hname]))
  · exact Or.inl (Or.inr (hsame _ hname))
  · exact Or.inl (Or.inl (hsame _ hname))

theorem Distinct.doadd {t : Table} (h : Distinct t) (dname : Name) (mountable : Bool)
    (dev : Option ℕ) (fs : KdFs) (alloc grow : Bool) :
    Distinct (vfsDoadd t dname mountable dev fs alloc grow).2 := by
  unfold vfsDoadd
  cases alloc with
  | false => exact h
  | true =>
    rw [if_pos rfl]
    generalize hkd : ({ kdName := dname
                        kdRawname := if mountable then some (mkrawname dname) else none
                        kdDevice := dev
                        kdFs := fs } : Knowndev) = kd
    dsimp only
    cases hbad : badnames t (some kd.kdName) kd.kdRawname kd.volname with
    | true => exact h
    | false =>
      cases grow with
      | false => exact h
      | true =>
        refine List.pairwise_append.mpr ⟨h, List.pairwise_singleton _ _, ?_⟩
        intro kd' hkd' kd'' hkd'' name hname
        rw [List.mem_singleton.mp hkd'']
        exact not_mem_names_of_badnames hbad hkd' hname

/-! ### Every call keeps names apart -/

/-- What `vfs_unmountall` does to an entry takes at most a name away. -/
theorem names_unmountDev_subset (kd : Knowndev) (r : Results) :
    (unmountDev kd r).names ⊆ kd.names := by
  have hdrop : ({ kd with kdFs := .null } : Knowndev).names ⊆ kd.names := by
    intro name hname
    simp only [Knowndev.names, Knowndev.volname, Option.toList_none, List.append_nil,
      List.mem_cons, List.mem_append] at hname ⊢
    rcases hname with hname | hname
    · exact Or.inl hname
    · exact Or.inr (Or.inl hname)
  unfold unmountDev
  split_ifs
  · exact List.Subset.refl _
  · exact List.Subset.refl _
  · exact hdrop
  · exact List.Subset.refl _
  · exact List.Subset.refl _
  · exact hdrop

theorem distinct_step {t t' : Table} {a : Action} (h : Distinct t) (hfresh : Fresh t a)
    (hs : step t a = some t') : Distinct t' := by
  cases a with
  | adddev devname dev mountable alloc grow =>
    obtain rfl := Option.some.inj hs
    exact h.doadd _ _ _ _ _ _
  | addfs devname volname alloc grow =>
    obtain rfl := Option.some.inj hs
    exact h.doadd _ _ _ _ _ _
  | mount devname result =>
    obtain ⟨r, hr, rfl⟩ := Option.map_eq_some_iff.mp hs
    unfold vfsMount at hr
    split at hr
    · obtain rfl := Option.some.inj hr
      exact h
    · next i hi =>
      obtain ⟨kd, hkd, hr⟩ := Option.bind_eq_some_iff.mp hr
      split_ifs at hr with hbusy hnull
      · obtain rfl := Option.some.inj hr
        exact h
      · split at hr
        · obtain rfl := Option.some.inj hr
          exact h
        · next volname =>
          obtain rfl := Option.some.inj hr
          refine h.mount fun v hv => ?_
          subst hv
          exact hfresh i kd hi hkd (not_not.mp hbusy)
  | unmount devname sync unmount =>
    obtain ⟨r, hr, rfl⟩ := Option.map_eq_some_iff.mp hs
    unfold vfsUnmount at hr
    split at hr
    · obtain rfl := Option.some.inj hr
      exact h
    · obtain ⟨kd, -, hr⟩ := Option.bind_eq_some_iff.mp hr
      split_ifs at hr
      · obtain rfl := Option.some.inj hr
        exact h
      · obtain rfl := Option.some.inj hr
        exact h
      · obtain rfl := Option.some.inj hr
        exact h
      · obtain rfl := Option.some.inj hr
        exact h.setFs fun _ he => by cases he
  | swapon devname mem =>
    obtain ⟨r, hr, rfl⟩ := Option.map_eq_some_iff.mp hs
    unfold vfsSwapon at hr
    split at hr
    · obtain rfl := Option.some.inj hr
      exact h
    · dsimp only at hr
      split at hr
      · obtain rfl := Option.some.inj hr
        exact h
      · obtain ⟨kd, -, hr⟩ := Option.bind_eq_some_iff.mp hr
        split_ifs at hr
        · obtain rfl := Option.some.inj hr
          exact h
        · obtain rfl := Option.some.inj hr
          exact h.setFs fun _ he => by cases he
  | swapoff devname =>
    obtain ⟨r, hr, rfl⟩ := Option.map_eq_some_iff.mp hs
    unfold vfsSwapoff at hr
    split at hr
    · obtain rfl := Option.some.inj hr
      exact h
    · obtain ⟨kd, -, hr⟩ := Option.bind_eq_some_iff.mp hr
      split_ifs at hr
      · obtain rfl := Option.some.inj hr
        exact h
      · obtain rfl := Option.some.inj hr
        exact h.setFs fun _ he => by cases he
  | unmountall r =>
    obtain rfl := Option.some.inj hs
    refine h.of_subset fun i a' ha' => ?_
    rw [vfsUnmountall, List.getElem?_mapIdx] at ha'
    obtain ⟨a, ha, rfl⟩ := Option.map_eq_some_iff.mp ha'
    exact ⟨a, ha, names_unmountDev_subset a (r i)⟩

/-! ### One name, one device -/

/-- `vfs_getroot` returns on account of an entry only if the entry has the name. -/
theorem mem_names_of_getrootDev {kd : Knowndev} {devname : Name} {r : Root}
    (h : getrootDev kd devname = some r) : devname ∈ kd.names := by
  have hraw : getrootDev.rawDev kd devname = some r → devname ∈ kd.names := by
    intro h
    rw [getrootDev.rawDev] at h
    split at h
    · next he => simp [Knowndev.names, he]
    · cases h
  have hname : kd.kdName = devname → devname ∈ kd.names := by
    rintro rfl
    exact List.mem_cons_self
  unfold getrootDev at h
  split at h
  · next volname hfs =>
    split at h
    · next he =>
      rcases he with he | he
      · exact hname he
      · simp [Knowndev.names, Knowndev.volname, hfs, he]
    · exact hraw h
  · split at h
    · next he => exact hname he.2
    · split at h
      · next he => exact hname he
      · exact hraw h

/-- Where names are apart, at most one entry makes `vfs_getroot` return. -/
theorem Distinct.getrootDev_unique {t : Table} (h : Distinct t) {devname : Name} {i j : ℕ}
    {a b : Knowndev} (ha : t[i]? = some a) (hb : t[j]? = some b)
    (hia : getrootDev a devname ≠ none) (hjb : getrootDev b devname ≠ none) : i = j := by
  by_contra hij
  obtain ⟨r, hr⟩ := Option.ne_none_iff_exists'.mp hia
  obtain ⟨r', hr'⟩ := Option.ne_none_iff_exists'.mp hjb
  exact distinct_iff.mp h i j a b hij ha hb devname (mem_names_of_getrootDev hr)
    (mem_names_of_getrootDev hr')

/-- What `vfs_getroot` finds, if at most one entry can be found. -/
theorem vfsGetroot_eq_some_iff {t : Table} (h : Distinct t) {devname : Name} {r : Root} :
    vfsGetroot t devname = some r ↔ ∃ kd ∈ t, getrootDev kd devname = some r := by
  constructor
  · exact List.exists_of_findSome?_eq_some
  · rintro ⟨kd, hkd, hr⟩
    obtain ⟨r', hr'⟩ : ∃ r', vfsGetroot t devname = some r' := by
      refine Option.isSome_iff_exists.mp ?_
      rw [vfsGetroot, List.findSome?_isSome_iff]
      exact ⟨kd, hkd, by rw [hr]; rfl⟩
    obtain ⟨kd', hkd', hk'⟩ := List.exists_of_findSome?_eq_some hr'
    obtain ⟨i, hi⟩ := List.mem_iff_getElem?.mp hkd
    obtain ⟨j, hj⟩ := List.mem_iff_getElem?.mp hkd'
    have hij := h.getrootDev_unique hi hj (by rw [hr]; simp) (by rw [hk']; simp)
    subst hij
    obtain rfl := Option.some.inj (hi.symm.trans hj)
    rw [hr', ← hk', hr]

theorem Distinct.perm {t t' : Table} (h : Distinct t) (hp : t.Perm t') : Distinct t' :=
  (hp.pairwise_iff fun hab name hb ha => hab name ha hb).mp h

/-- The order of the table does not matter to `vfs_getroot`. -/
theorem vfsGetroot_perm {t t' : Table} (h : Distinct t) (hp : t.Perm t') (devname : Name) :
    vfsGetroot t' devname = vfsGetroot t devname := by
  refine Option.ext fun r => ?_
  rw [vfsGetroot_eq_some_iff (h.perm hp), vfsGetroot_eq_some_iff h]
  exact exists_congr fun kd => and_congr_left fun _ => hp.mem_iff.symm

/-- **Names of known devices.** After every sequence of calls in which each volume is mounted under
a name that no other device has, the names of two different entries are different, no string makes
`vfs_getroot` return on account of two entries, and it returns the same for every order of the
table. -/
theorem names_distinct {t : Table} (h : system.ReachableWhile Fresh t) :
    Distinct t ∧
      (∀ (devname : Name) (i j : ℕ) (a b : Knowndev), t[i]? = some a → t[j]? = some b →
        getrootDev a devname ≠ none → getrootDev b devname ≠ none → i = j) ∧
      ∀ (devname : Name) (t' : Table), t.Perm t' →
        vfsGetroot t' devname = vfsGetroot t devname := by
  have hd : Distinct t := by
    refine h.invariant (P := Distinct) ?_ fun t a t' hi hc hs => distinct_step hi hc hs
    rintro t rfl
    exact List.Pairwise.nil
  exact ⟨hd, fun devname i j a b ha hb => hd.getrootDev_unique ha hb,
    fun devname t' hp => vfsGetroot_perm hd hp devname⟩

/-- A test for `Fresh`, for mounts of volumes, that does not ask whether the device has one. -/
def freshTest (t : Table) : Action → Bool
  | .mount devname (.ok (some volname)) =>
      match findmount t devname with
      | some i => (List.range t.length).all fun j =>
          j = i || (t[j]?.all fun kd => volname ∉ kd.names)
      | none => true
  | _ => true

theorem fresh_of_freshTest (t : Table) (a : Action) (h : freshTest t a = true) : Fresh t a := by
  unfold freshTest at h
  split at h
  · next devname volname =>
    intro i _ hi _ _ j kd hj hkd
    rw [hi] at h
    have hlt : j < t.length := (List.getElem?_eq_some_iff.mp hkd).1
    have := List.all_eq_true.mp h j (List.mem_range.mpr hlt)
    rw [hkd] at this
    simpa [hj] using this
  · next hne =>
    unfold Fresh
    split
    · next devname volname => exact absurd rfl (hne devname volname)
    · trivial

/-- `lhd0`. -/
def lhd0 : Name := [108, 104, 100, 48]

/-- `lhd1`. -/
def lhd1 : Name := [108, 104, 100, 49]

/-- `vol`. -/
def vol : Name := [118, 111, 108]

/-- Two disks, and a volume called `vol` mounted on the first. -/
def mountOne : List Action :=
  [.adddev lhd0 0 true true true, .adddev lhd1 1 true true true, .mount lhd0 (.ok (some vol))]

theorem mountOne_runs :
    (mountOne.foldlM (fun t a => if freshTest t a then system.step t a else none) []).isSome := by
  decide

theorem names_distinct_mountOne : ∃ t : Table, system.ReachableWhile Fresh t ∧ t.length = 2 ∧
    vfsGetroot t vol = some (.fsroot lhd0) ∧ Distinct t := by
  have hreach := TransitionSystem.reachableWhile_of_run fresh_of_freshTest mountOne (.init rfl)
    (Option.some_get mountOne_runs).symm
  exact ⟨_, hreach, by decide, by decide, (names_distinct hreach).1⟩

/-- The same volume name mounted on the second disk as well. -/
def mountTwo : List Action := mountOne ++ [.mount lhd1 (.ok (some vol))]

theorem mountTwo_runs : (mountTwo.foldlM system.step []).isSome := by
  decide

/-- Two devices with one volume name: which of them `vfs_getroot` finds depends on the order. -/
theorem mount_same_volname : ∃ t : Table, system.Reachable t ∧ ¬Distinct t ∧
    vfsGetroot t vol ≠ vfsGetroot t.reverse vol := by
  have hreach := TransitionSystem.reachable_of_run mountTwo (.init rfl)
    (Option.some_get mountTwo_runs).symm
  refine ⟨_, hreach, fun hd => ?_, by decide⟩
  exact List.rel_of_pairwise_cons (l := [_]) hd List.mem_cons_self vol (by decide) (by decide)

end Vfs

end Os161
