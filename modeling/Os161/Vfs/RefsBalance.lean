import Os161.Vfs.RefsHeld

/-!
# References balance

What a caller of the VFS layer sees of the references: its own functions add one to what they hand
out or leave all as it was, and those that set the two slots keep one reference for each.

## Main results

* `Refs.reference_balance`
-/

namespace Os161

namespace Vfs

namespace Refs

open Prog

variable {V α β : Type}

section Operations

variable [DecidableEq V]

variable {w : World V} {o : Multiset V} {s : State V} {vn : V}

/-! ### The balance -/

/-- Nothing has changed, except that operations have been made. -/
structure Unchanged (s t : State V) : Prop where
  refs : t.refs = s.refs
  pCwd : t.pCwd = s.pCwd
  bootfsVnode : t.bootfsVnode = s.bootfsVnode
  biglockDepth : t.biglockDepth = s.biglockDepth

/-- One more reference to `vn`, and nothing else has changed. -/
structure OneMore (vn : V) (s t : State V) : Prop where
  refs : t.refs = Function.update s.refs vn (s.refs vn + 1)
  pCwd : t.pCwd = s.pCwd
  bootfsVnode : t.bootfsVnode = s.bootfsVnode
  biglockDepth : t.biglockDepth = s.biglockDepth

/-- One more reference to what is returned, or nothing in case of an error. -/
def HandsOut (node : α → V) (s : State V) : Except Errno α → State V → Prop
  | .ok a, t => OneMore (node a) s t
  | .error _, t => Unchanged s t

/-- How a call ends: as `Q` says, or in a panic of a broken system. -/
def Ends (w : World V) (s : State V) (x : M V α) (Q : α → State V → Prop) : Prop :=
  (x.run s).Sat Q fun e _ => Broken w s.pCwd e

/-- The references to what the two slots name, the others being `o`. -/
abbrev SlotsHold (o : Multiset V) (s : State V) : Prop :=
  Holds o s.pCwd s.bootfsVnode s.biglockDepth s

theorem Holds.unchanged {t : State V} (h : SlotsHold o s)
    (ht : Holds o s.pCwd s.bootfsVnode s.biglockDepth t) : Unchanged s t := by
  refine ⟨funext fun v => ?_, ht.pCwd, ht.bootfsVnode, ht.biglockDepth⟩
  rw [h.refs, ht.refs]

theorem Holds.oneMore {t : State V} (h : SlotsHold o s)
    (ht : Holds (vn ::ₘ o) s.pCwd s.bootfsVnode s.biglockDepth t) : OneMore vn s t := by
  refine ⟨funext fun v => ?_, ht.pCwd, ht.bootfsVnode, ht.biglockDepth⟩
  rw [ht.refs]
  exact ((h.incref vn).refs v).symm

theorem ends_unchanged {x : M V α} (h : SlotsHold o s)
    (hx : Spec w s.pCwd x (fun _ t => Holds o s.pCwd s.bootfsVnode s.biglockDepth t) s) :
    Ends w s x fun _ t => Unchanged s t :=
  sat_of_wp (wp_post hx fun _ _ _ _ ht => h.unchanged ht)

theorem ends_handsOut {x : M V (Except Errno α)} {node : α → V} (h : SlotsHold o s)
    (hx : Spec w s.pCwd x (Gives node o s.pCwd s.bootfsVnode s.biglockDepth) s) :
    Ends w s x (HandsOut node s) := by
  refine sat_of_wp (wp_post hx fun r t _ _ ht => ?_)
  cases r with
  | ok a => exact h.oneMore ht
  | error e => exact h.unchanged ht

/-- **References balance.** Start where the slots `p_cwd` and `bootfs_vnode` hold a reference each
and all others are in `o`. Whatever the operations of the filesystems return, `vfs_lookup`,
`vfs_lookparent` and `vfs_open` add one reference to the vnode they hand out and change nothing if
they fail; the operations on paths and `vfs_getcwd` change nothing; and after the functions that set
the slots the references are again one for each slot, for the vnode it names now, and those in `o`.
No vnode without references is used, none is released too often, and the big lock is as deep as
before. -/
theorem reference_balance (w : World V) (h : SlotsHold o s) :
    ((∀ path, Ends w s (vfsLookup w path) (HandsOut id s)) ∧
      (∀ path, Ends w s (vfsLookparent w path) (HandsOut Prod.fst s)) ∧
      ∀ path openflags mode, Ends w s (vfsOpen w path openflags mode) (HandsOut id s)) ∧
    ((∀ path, Ends w s (vfsRemove w path) fun _ t => Unchanged s t) ∧
      (∀ oldpath newpath, Ends w s (vfsRename w oldpath newpath) fun _ t => Unchanged s t) ∧
      (∀ oldpath newpath, Ends w s (vfsLink w oldpath newpath) fun _ t => Unchanged s t) ∧
      (∀ contents path, Ends w s (vfsSymlink w contents path) fun _ t => Unchanged s t) ∧
      (∀ path, Ends w s (vfsReadlink w path) fun _ t => Unchanged s t) ∧
      (∀ path mode, Ends w s (vfsMkdir w path mode) fun _ t => Unchanged s t) ∧
      (∀ path, Ends w s (vfsRmdir w path) fun _ t => Unchanged s t) ∧
      Ends w s (vfsGetcwd w .read) fun _ t => Unchanged s t) ∧
    (∀ dir, 0 < s.refs dir → Ends w s (vfsSetcurdir w dir) fun r t =>
      Holds o t.pCwd t.bootfsVnode s.biglockDepth t ∧
        t.pCwd = (if r = none then some dir else s.pCwd) ∧ t.bootfsVnode = s.bootfsVnode) ∧
    (∀ path, Ends w s (vfsChdir w path) fun r t => Holds o t.pCwd t.bootfsVnode s.biglockDepth t ∧
        (r ≠ none → t.pCwd = s.pCwd) ∧ t.bootfsVnode = s.bootfsVnode) ∧
    (Ends w s vfsClearcurdir fun _ t => Holds o t.pCwd t.bootfsVnode s.biglockDepth t ∧
        t.pCwd = none ∧ t.bootfsVnode = s.bootfsVnode) ∧
    (∀ fsname, Ends w s (vfsSetbootfs w fsname) fun r t =>
      Holds o t.pCwd t.bootfsVnode s.biglockDepth t ∧
        (r = none → t.bootfsVnode = t.pCwd ∧ t.bootfsVnode ≠ none) ∧
        (r ≠ none → t.pCwd = s.pCwd ∧ t.bootfsVnode = s.bootfsVnode)) ∧
    Ends w s vfsClearbootfs fun _ t => Holds o t.pCwd t.bootfsVnode s.biglockDepth t ∧
        t.pCwd = s.pCwd ∧ t.bootfsVnode = none := by
  -- what a function leaves behind, read off its slots
  have hold : ∀ {c b : Option V} {t : State V}, Holds o c b s.biglockDepth t →
      Holds o t.pCwd t.bootfsVnode s.biglockDepth t ∧ t.pCwd = c ∧ t.bootfsVnode = b := by
    rintro _ _ t ⟨hrefs, rfl, rfl, hdepth⟩
    exact ⟨⟨hrefs, rfl, rfl, hdepth⟩, rfl, rfl⟩
  refine ⟨⟨?_, ?_, ?_⟩, ⟨?_, ?_, ?_, ?_, ?_, ?_, ?_, ?_⟩, ?_, ?_, ?_, ?_, ?_⟩
  · exact fun path => ends_handsOut h (wp_vfsLookup h)
  · exact fun path => ends_handsOut h (wp_vfsLookparent h)
  · exact fun path openflags mode => ends_handsOut h (wp_vfsOpen h)
  · exact fun path => ends_unchanged h (wp_inParent (fun _ _ => rfl) h)
  · exact fun oldpath newpath => ends_unchanged h (wp_vfsRename h)
  · exact fun oldpath newpath => ends_unchanged h (wp_vfsLink h)
  · exact fun contents path => ends_unchanged h (wp_inParent (fun _ _ => rfl) h)
  · exact fun path => ends_unchanged h (wp_vfsReadlink h)
  · exact fun path mode => ends_unchanged h (wp_inParent (fun _ _ => rfl) h)
  · exact fun path => ends_unchanged h (wp_inParent (fun _ _ => rfl) h)
  · exact ends_unchanged h (wp_vfsGetcwd h)
  · intro dir hdir
    exact sat_of_wp (wp_post (wp_vfsSetcurdir h hdir) fun r t _ _ ht => hold ht)
  · intro path
    refine sat_of_wp (wp_post (wp_vfsChdir h) fun r t _ _ ht => ?_)
    obtain ⟨c', ht, -, herr⟩ := ht
    obtain ⟨hslots, hcwd, hboot⟩ := hold ht
    exact ⟨hslots, fun hr => hcwd.trans (herr hr), hboot⟩
  · exact sat_of_wp (wp_post (wp_vfsClearcurdir h) fun r t _ _ ht => hold ht)
  · intro fsname
    refine sat_of_wp (wp_post (wp_vfsSetbootfs h) fun r t _ _ ht => ?_)
    obtain ⟨c', b', ht, hok, herr⟩ := ht
    obtain ⟨hslots, rfl, rfl⟩ := hold ht
    exact ⟨hslots, hok, herr⟩
  · exact sat_of_wp (wp_post (wp_vfsClearbootfs h) fun r t _ _ ht => hold ht)

end Operations

/-- A disk with a filesystem on it: vnode 0 is its root, every other name is vnode 1, and a file
that is created is vnode 2. -/
def oneDisk : World ℕ where
  knowndevs := [{ kdName := lhd0, kdRawname := some (mkrawname lhd0), kdDevice := some 0,
                  kdFs := .fs (some vol) }]
  kdVnode _ := 9
  vnFs vn := if vn = 9 then none else some lhd0
  getvolname _ := some vol
  getroot _ _ := .ok 0
  lookup _ _ _ := .ok 1
  lookparent _ _ path := .ok (0, path)
  creat _ _ _ _ _ := .ok 2
  gettype _ vn := .ok (if vn = 0 then .dir else .reg)
  vop _ _ := none
  uiomove _ _ := none

/-- After booting: the root of the disk is in both slots. -/
def booted : State ℕ where
  refs vn := if vn = 0 then 2 else 0
  pCwd := some 0
  bootfsVnode := some 0
  biglockDepth := 0
  tick := 0

theorem booted_slotsHold : SlotsHold 0 booted := by
  refine ⟨fun v => ?_, rfl, rfl, rfl⟩
  by_cases hv : v = 0
  · subst hv
    rfl
  · simp [booted, hv]

/-- `vol:/f`, opened for writing and created. -/
theorem reference_balance_oneDisk : SlotsHold 0 booted ∧
    ∃ t, (vfsOpen oneDisk (vol ++ [colonChar, slashChar, 102]) 5 0).run booted = .done (.ok 2) t ∧
      OneMore 2 booted t :=
  ⟨booted_slotsHold, _, rfl,
    (reference_balance oneDisk booted_slotsHold).1.2.2 (vol ++ [colonChar, slashChar, 102]) 5 0⟩

end Refs

end Vfs

end Os161
