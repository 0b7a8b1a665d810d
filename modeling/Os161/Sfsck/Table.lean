import Os161.Sfsck.Inode

/-!
# The sorted inode table

Numbers in the table are pairwise different, so `inode_compare` decides the order of any two of its
entries and `qsort` sorts it; binary search in the sorted table finds every entry that is there.

## Main results

* `qsort_inodes` — sorting the table
* `findLoop_eq_some`, `findLoop_some` — binary search, completeness and soundness
-/

namespace Os161

namespace Sfsck

/-- The order `inode_sorttable` sorts by. -/
def InoLe (a b : Inodeinfo) : Prop := a.ino.toNat ≤ b.ino.toNat

instance : Std.Refl InoLe := ⟨fun a => le_refl a.ino.toNat⟩

instance : IsTrans Inodeinfo InoLe := ⟨fun _ _ _ => Nat.le_trans⟩

theorem decides_inodeCompare {a b : Inodeinfo} (h : a.ino ≠ b.ino) :
    Qsort.Decides inodeCompare InoLe a b := by
  have hne : a.ino.toNat ≠ b.ino.toNat := fun he => h (UInt32.toNat_inj.mp he)
  unfold Qsort.Decides inodeCompare InoLe
  simp only [UInt32.lt_iff_toNat_lt]
  by_cases hlt : a.ino.toNat < b.ino.toNat
  · exact ⟨-1, by rw [if_pos hlt], by omega, by omega⟩
  · exact ⟨1, by rw [if_neg hlt, if_pos (by omega)], by omega, by omega⟩

/-- A table without double entries is sorted, strictly. -/
theorem qsort_inodes {ins : List Inodeinfo} (h : (ins.map Inodeinfo.ino).Nodup) :
    ∃ out, qsort inodeCompare ins = some out ∧ out.Perm ins ∧
      out.Pairwise fun a b => a.ino.toNat < b.ino.toNat := by
  have hne : ins.Pairwise fun a b => a.ino ≠ b.ino := List.pairwise_map.mp h
  have hc : Qsort.Comparable inodeCompare InoLe ins :=
    hne.imp fun hab => ⟨decides_inodeCompare hab, decides_inodeCompare hab.symm⟩
  obtain ⟨out, hrun, hperm, hsorted⟩ := qsort_spec hc
  refine ⟨out, hrun, hperm, ?_⟩
  have hne' : out.Pairwise fun a b => a.ino ≠ b.ino :=
    (hperm.pairwise_iff fun hab => hab.symm).mpr hne
  refine (hsorted.and hne').imp fun {a b} hab => ?_
  exact lt_of_le_of_ne hab.1 fun he => hab.2 (UInt32.toNat_inj.mp he)

/-- A successful search ends at an entry with the number sought. -/
theorem findLoop_some {ins : List Inodeinfo} {ino : UInt32} :
    ∀ (k min max i : ℕ), findLoop ins ino k min max = some i →
      ∃ inf, ins[i]? = some inf ∧ inf.ino = ino := by
  intro k
  induction k with
  | zero =>
    intro min max i h
    simp [findLoop] at h
  | succ k ih =>
    intro min max i h
    rw [findLoop] at h
    split at h
    · cases h
    · dsimp only at h
      split at h
      · cases h
      · next inf hinf =>
        split at h
        · exact ih _ _ i h
        · split at h
          · exact ih _ _ i h
          · next h1 h2 =>
            obtain rfl := Option.some.inj h
            refine ⟨inf, hinf, ?_⟩
            rw [UInt32.lt_iff_toNat_lt] at h1 h2
            exact UInt32.toNat_inj.mp (by omega)

/-- In a sorted table the search finds what lies between its bounds. -/
theorem findLoop_eq_some {ins : List Inodeinfo}
    (hs : ins.Pairwise fun a b => a.ino.toNat < b.ino.toNat) {i : ℕ} {inf : Inodeinfo}
    (hi : ins[i]? = some inf) :
    ∀ (k min max : ℕ), min ≤ i → i < max → max ≤ ins.length → max - min < k →
      findLoop ins inf.ino k min max = some i := by
  rw [List.pairwise_iff_getElem] at hs
  obtain ⟨hlt, rfl⟩ := List.getElem?_eq_some_iff.mp hi
  intro k
  induction k with
  | zero =>
    intro min max _ _ _ hk
    omega
  | succ k ih =>
    intro min max h1 h2 h3 hk
    have hmid : min + (max - min) / 2 < ins.length := by omega
    rw [findLoop, if_neg (by omega)]
    dsimp only
    rw [List.getElem?_eq_getElem hmid]
    dsimp only
    simp only [UInt32.lt_iff_toNat_lt]
    rcases lt_trichotomy (min + (max - min) / 2) i with h | h | h
    · rw [if_pos (hs _ _ hmid hlt h)]
      exact ih _ _ (by omega) h2 h3 (by omega)
    · subst h
      rw [if_neg (lt_irrefl _), if_neg (lt_irrefl _)]
    · have := hs _ _ hlt hmid h
      rw [if_neg (by omega), if_pos this]
      exact ih _ _ h1 (by omega) (by omega) (by omega)

end Sfsck

end Os161
