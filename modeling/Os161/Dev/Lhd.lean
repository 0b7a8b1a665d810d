import Os161.Kern.Errno
import Os161.Kern.Uio

/-!
# Requests to a disk

A read or write of a disk goes through `kern/vfs/device.c`, which looks at the position, and then
through `lhd_io` of `kern/dev/lamebus/lhd.c`, which issues one command for each sector. The
position is a signed number of 64 bits; it is divided by the sector size there, and `lhd_io` puts
the quotient into 32 bits.

Neither check is enough. `dev_tryseek` wants the position below the end of the disk, and lets
negative ones pass. The check of `lhd_io` adds the first sector and the number of sectors in 32
bits, so it is fooled where the sum wraps around: always for the sectors right below `2^32` that
small negative positions turn into, and otherwise at the end of a disk of almost `2^32` sectors.

Other threads that use the disk take turns by way of `lh_clear`, so one call is looked at by
itself. `Env` has what the hardware and the caller's memory do.

## Main results

* `Lhd.devCall_eq` — which requests are carried out
* `Lhd.requests_onDisk_iff` — when a request stays on the disk
-/

namespace Os161

namespace Lhd

/-- `LHD_SECTSIZE`. -/
def lhdSectsize : ℕ := 512

/-- `struct device`. -/
structure Device where
  dBlocks : UInt32
  dBlocksize : UInt32

/-- The device `config_lhd` sets up, for a disk of that many sectors. -/
def lhdDev (nsect : UInt32) : Device := ⟨nsect, 512⟩

/-- The fields of `struct uio` that say what is asked for. -/
structure Request where
  uioOffset : ℤ
  uioResid : UInt32
  uioRw : UioRw

/-- What the calls made for sector `i` of a request return. -/
structure Env where
  /-- `uiomove` fails, with `EFAULT`. -/
  faults : ℕ → Bool
  /-- `lh_result`. -/
  lhResult : ℕ → Option Errno

/-- A command: what is written to `LHD_REG_SECT`, and whether `LHD_ISWRITE` is set. -/
structure Command where
  sector : UInt32
  iswrite : Bool
  deriving DecidableEq

/-- How a call ends. -/
inductive Outcome where
  | ok
  | err (e : Errno)
  /-- A failed `KASSERT`. -/
  | panic
  deriving DecidableEq

/-- The commands a call issues, and how it ends. -/
structure Io where
  commands : List Command
  outcome : Outcome
  deriving DecidableEq

/-- `dev_tryseek`. -/
def devTryseek (d : Device) (pos : ℤ) : Option Errno :=
  if 0 < d.dBlocks then
    -- not block-aligned
    if pos.tmod d.dBlocksize.toNat ≠ 0 then some .einval
    -- off the end
    else if d.dBlocks.toNat ≤ pos.tdiv d.dBlocksize.toNat then some .einval
    else none
  else none

/-- The result of the transfer of sector `i`, once the command has been issued. -/
def finishSector (env : Env) (rw : UioRw) (i : ℕ) : Option Errno :=
  match env.lhResult i with
  | some e => some e
  | none => if rw = .read ∧ env.faults i then some .efault else none

/-- The loop of `lhd_io`, from sector `i` on. -/
def lhdLoop (env : Env) (rw : UioRw) (sector : UInt32) : ℕ → ℕ → Io
  | _, 0 => ⟨[], .ok⟩
  | i, left + 1 =>
      if rw = .write ∧ env.faults i then ⟨[], .err .efault⟩
      else
        let command : Command := ⟨sector + UInt32.ofNat i, rw = .write⟩
        match finishSector env rw i with
        | some e => ⟨[command], .err e⟩
        | none =>
            let rest := lhdLoop env rw sector (i + 1) left
            ⟨command :: rest.commands, rest.outcome⟩

/-- `lhd_io`. -/
def lhdIo (d : Device) (env : Env) (u : Request) : Io :=
  let sector := UInt32.ofInt (u.uioOffset.tdiv lhdSectsize)
  let sectoff := UInt32.ofInt (u.uioOffset.tmod lhdSectsize)
  let len := u.uioResid / 512
  let lenoff := u.uioResid % 512
  -- not sector-aligned
  if sectoff ≠ 0 ∨ lenoff ≠ 0 then ⟨[], .err .einval⟩
  -- past the end of the disk
  else if d.dBlocks < sector + len then ⟨[], .err .einval⟩
  else lhdLoop env u.uioRw sector 0 len.toNat

/-- `dev_read`. -/
def devRead (d : Device) (env : Env) (u : Request) : Io :=
  match devTryseek d u.uioOffset with
  | some e => ⟨[], .err e⟩
  | none => if u.uioRw = .read then lhdIo d env u else ⟨[], .panic⟩

/-- `dev_write`. -/
def devWrite (d : Device) (env : Env) (u : Request) : Io :=
  match devTryseek d u.uioOffset with
  | some e => ⟨[], .err e⟩
  | none => if u.uioRw = .write then lhdIo d env u else ⟨[], .panic⟩

/-- The call that goes with a request. -/
def devCall (d : Device) (env : Env) (u : Request) : Io :=
  match u.uioRw with
  | .read => devRead d env u
  | .write => devWrite d env u

/-! ### Requests that stay on the disk -/

/-- The number of sectors asked for. -/
def Request.count (u : Request) : ℕ := u.uioResid.toNat / 512

/-- The first sector asked for, where the position is not negative. -/
def Request.first (u : Request) : ℕ := u.uioOffset.toNat / 512

/-- The commands for the first `k` sectors of a request have been issued, in order: for all of
them, or up to the one whose transfer failed. -/
def Issued (env : Env) (command : ℕ → Command) (count : ℕ) (io : Io) : Prop :=
  ∃ k, io.commands = (List.range k).map command ∧
    (io.outcome = .ok ∧ k = count ∨
      ∃ i < count, (k = i ∨ k = i + 1) ∧
        (env.faults i = true ∧ io.outcome = .err .efault ∨
          ∃ e, env.lhResult i = some e ∧ io.outcome = .err e))

/-- The request is within the disk, and commands have been issued for its sectors. -/
structure Served (nsect : UInt32) (env : Env) (u : Request) (io : Io) : Prop where
  nonneg : 0 ≤ u.uioOffset
  offset : (512 : ℤ) ∣ u.uioOffset
  resid : 512 ∣ u.uioResid.toNat
  below : ∀ i < u.count, u.first + i < nsect.toNat
  issued : Issued env (fun i => ⟨UInt32.ofNat (u.first + i), u.uioRw = .write⟩) u.count io

/-- The request was refused with `EINVAL` before any command, or it was served. -/
def OnDisk (nsect : UInt32) (env : Env) (u : Request) (io : Io) : Prop :=
  io.commands = [] ∧ io.outcome = .err .einval ∨ Served nsect env u io

/-- The request passes the checks: it is aligned, the position is below the end of the disk unless
the disk has no sectors, and so is, computed in 32 bits, the sector after the last one. -/
structure Passes (nsect : UInt32) (u : Request) : Prop where
  offset : (512 : ℤ) ∣ u.uioOffset
  resid : 512 ∣ u.uioResid.toNat
  seek : 0 < nsect.toNat → u.uioOffset / 512 < nsect.toNat
  sum : ((u.uioOffset / 512 + u.count) % 4294967296) ≤ nsect.toNat

/-- The checks are fooled: the request passes them, but the position is negative or the last sector
is past the end of the disk. -/
def Fooled (nsect : UInt32) (u : Request) : Prop :=
  Passes nsect u ∧ (u.uioOffset < 0 ∨ 0 < u.count ∧ nsect.toNat < u.first + u.count)

section Checks

variable {nsect : UInt32} {env : Env} {u : Request} {i : ℕ}

theorem toNat_ofInt (x : ℤ) : ((UInt32.ofInt x).toNat : ℤ) = x % 4294967296 := by
  rw [UInt32.ofInt, UInt32.toNat_ofNat']
  omega

theorem ofInt_tmod_eq_zero_iff (x : ℤ) : UInt32.ofInt (x.tmod 512) = 0 ↔ (512 : ℤ) ∣ x := by
  have hlt := Int.tmod_lt_of_pos x (show (0 : ℤ) < 512 by decide)
  have hgt := Int.lt_tmod_of_pos x (show (0 : ℤ) < 512 by decide)
  have hzero : UInt32.ofInt (x.tmod 512) = 0 ↔ x.tmod 512 = 0 := by
    rw [← UInt32.toNat_inj, ← Int.natCast_inj, toNat_ofInt, UInt32.toNat_zero]
    omega
  rw [hzero, Int.dvd_iff_tmod_eq_zero]

theorem toNat_count : (u.uioResid / 512).toNat = u.count := UInt32.toNat_div _ _

theorem resid_mod_eq_zero_iff : u.uioResid % 512 = 0 ↔ 512 ∣ u.uioResid.toNat := by
  rw [← UInt32.toNat_inj, UInt32.toNat_mod, Nat.dvd_iff_mod_eq_zero]
  rfl

/-- The sum of `lhd_io`. -/
theorem toNat_sum (h : (512 : ℤ) ∣ u.uioOffset) :
    (((UInt32.ofInt (u.uioOffset.tdiv 512) + u.uioResid / 512).toNat : ℕ) : ℤ) =
      (u.uioOffset / 512 + u.count) % 4294967296 := by
  have hdiv := toNat_ofInt (u.uioOffset.tdiv 512)
  rw [Int.tdiv_eq_ediv_of_dvd h] at hdiv ⊢
  rw [UInt32.toNat_add, toNat_count]
  omega

instance : Decidable (Passes nsect u) :=
  decidable_of_iff ((512 : ℤ) ∣ u.uioOffset ∧ 512 ∣ u.uioResid.toNat ∧
      (0 < nsect.toNat → u.uioOffset / 512 < nsect.toNat) ∧
      ((u.uioOffset / 512 + u.count) % 4294967296) ≤ nsect.toNat)
    ⟨fun h => ⟨h.1, h.2.1, h.2.2.1, h.2.2.2⟩, fun h => ⟨h.offset, h.resid, h.seek, h.sum⟩⟩

/-- What the two calls have in common. -/
theorem devCall_eq_match (d : Device) : devCall d env u = match devTryseek d u.uioOffset with
    | some e => ⟨[], .err e⟩
    | none => lhdIo d env u := by
  rw [devCall]
  cases hrw : u.uioRw with
  | read =>
    dsimp only
    rw [devRead, hrw, if_pos rfl]
  | write =>
    dsimp only
    rw [devWrite, hrw, if_pos rfl]

theorem devTryseek_cases (nsect : UInt32) (pos : ℤ) :
    devTryseek (lhdDev nsect) pos = none ∧
        (0 < nsect.toNat → (512 : ℤ) ∣ pos ∧ pos / 512 < nsect.toNat) ∨
      devTryseek (lhdDev nsect) pos = some .einval ∧
        ¬(0 < nsect.toNat → (512 : ℤ) ∣ pos ∧ pos / 512 < nsect.toNat) := by
  have hpos : (0 : UInt32) < nsect ↔ 0 < nsect.toNat := by
    rw [UInt32.lt_iff_toNat_lt, UInt32.toNat_zero]
  have hseek : devTryseek (lhdDev nsect) pos =
      if (0 : UInt32) < nsect then if pos.tmod 512 ≠ 0 then some .einval
        else if (nsect.toNat : ℤ) ≤ pos.tdiv 512 then some .einval else none
      else none := rfl
  rw [hseek, Int.dvd_iff_tmod_eq_zero, ← hpos]
  by_cases hn : (0 : UInt32) < nsect
  · rw [if_pos hn]
    by_cases hmod : pos.tmod 512 = 0
    · have hdiv := Int.tdiv_eq_ediv_of_dvd (Int.dvd_of_tmod_eq_zero hmod)
      rw [if_neg (not_not.mpr hmod), ← hdiv]
      by_cases hend : (nsect.toNat : ℤ) ≤ pos.tdiv 512
      · rw [if_pos hend]
        exact .inr ⟨rfl, fun h => absurd (h hn).2 (not_lt.mpr hend)⟩
      · rw [if_neg hend]
        exact .inl ⟨rfl, fun _ => ⟨hmod, not_le.mp hend⟩⟩
    · rw [if_pos hmod]
      exact .inr ⟨rfl, fun h => hmod (h hn).1⟩
  · rw [if_neg hn]
    exact .inl ⟨rfl, fun h => absurd h hn⟩

theorem lhdIo_cases (nsect : UInt32) (env : Env) (u : Request) :
    lhdIo (lhdDev nsect) env u =
        lhdLoop env u.uioRw (UInt32.ofInt (u.uioOffset / 512)) 0 u.count ∧
        (512 : ℤ) ∣ u.uioOffset ∧ 512 ∣ u.uioResid.toNat ∧
        (u.uioOffset / 512 + u.count) % 4294967296 ≤ nsect.toNat ∨
      lhdIo (lhdDev nsect) env u = ⟨[], .err .einval⟩ ∧
        ¬((512 : ℤ) ∣ u.uioOffset ∧ 512 ∣ u.uioResid.toNat ∧
          (u.uioOffset / 512 + u.count) % 4294967296 ≤ nsect.toNat) := by
  have hio : lhdIo (lhdDev nsect) env u =
      if UInt32.ofInt (u.uioOffset.tmod 512) ≠ 0 ∨ u.uioResid % 512 ≠ 0 then ⟨[], .err .einval⟩
      else if nsect < UInt32.ofInt (u.uioOffset.tdiv 512) + u.uioResid / 512 then
        ⟨[], .err .einval⟩
      else lhdLoop env u.uioRw (UInt32.ofInt (u.uioOffset.tdiv 512)) 0 (u.uioResid / 512).toNat :=
    rfl
  rw [hio]
  by_cases hbad : UInt32.ofInt (u.uioOffset.tmod 512) ≠ 0 ∨ u.uioResid % 512 ≠ 0
  · rw [if_pos hbad]
    rw [ne_eq, ofInt_tmod_eq_zero_iff, ne_eq, resid_mod_eq_zero_iff] at hbad
    exact .inr ⟨rfl, fun h => hbad.elim (fun hn => hn h.1) fun hn => hn h.2.1⟩
  · rw [if_neg hbad]
    rw [not_or, not_not, ofInt_tmod_eq_zero_iff, not_not, resid_mod_eq_zero_iff] at hbad
    have hsum := toNat_sum hbad.1
    by_cases hend : nsect < UInt32.ofInt (u.uioOffset.tdiv 512) + u.uioResid / 512
    · rw [if_pos hend]
      rw [UInt32.lt_iff_toNat_lt] at hend
      exact .inr ⟨rfl, fun h => absurd h.2.2 (by omega)⟩
    · rw [if_neg hend, toNat_count, Int.tdiv_eq_ediv_of_dvd hbad.1]
      rw [UInt32.lt_iff_toNat_lt] at hend
      exact .inl ⟨rfl, hbad.1, hbad.2, by omega⟩

/-- **Which requests are carried out.** -/
theorem devCall_eq : devCall (lhdDev nsect) env u =
    if Passes nsect u then
      lhdLoop env u.uioRw (UInt32.ofInt (u.uioOffset / 512)) 0 u.count
    else ⟨[], .err .einval⟩ := by
  rw [devCall_eq_match]
  rcases devTryseek_cases nsect u.uioOffset with ⟨hseek, hpos⟩ | ⟨hseek, hpos⟩
  · rw [hseek]
    rcases lhdIo_cases nsect env u with ⟨hio, hoff, hresid, hsum⟩ | ⟨hio, hbad⟩
    · rw [if_pos ⟨hoff, hresid, fun hn => (hpos hn).2, hsum⟩]
      exact hio
    · rw [if_neg fun h : Passes nsect u => hbad ⟨h.offset, h.resid, h.sum⟩]
      exact hio
  · rw [hseek, if_neg fun h : Passes nsect u => hpos fun hn => ⟨h.offset, h.seek hn⟩]

/-! ### The commands -/

/-- **The loop** issues the commands for one sector after the other, up to one whose transfer
fails. -/
theorem lhdLoop_issued (env : Env) (i : ℕ) (rw : UioRw) (sector : UInt32) (left : ℕ) :
    ∃ k, (lhdLoop env rw sector i left).commands =
        (List.range k).map (fun j => ⟨sector + UInt32.ofNat (i + j), rw = .write⟩) ∧
      ((lhdLoop env rw sector i left).outcome = .ok ∧ k = left ∨
        ∃ j < left, (k = j ∨ k = j + 1) ∧
          (env.faults (i + j) = true ∧ (lhdLoop env rw sector i left).outcome = .err .efault ∨
            ∃ e, env.lhResult (i + j) = some e ∧
              (lhdLoop env rw sector i left).outcome = .err e)) ∧
      (0 < left → k = 0 → (lhdLoop env rw sector i left).outcome ≠ .err .einval) := by
  induction left generalizing i with
  | zero => exact ⟨0, rfl, .inl ⟨rfl, rfl⟩, fun h => absurd h (lt_irrefl 0)⟩
  | succ left ih =>
    rw [lhdLoop]
    by_cases hfault : rw = .write ∧ env.faults i = true
    · rw [if_pos hfault]
      refine ⟨0, rfl, .inr ⟨0, left.succ_pos, .inl rfl, .inl ⟨hfault.2, rfl⟩⟩, fun _ _ => ?_⟩
      exact fun h => nomatch h
    · rw [if_neg hfault]
      dsimp only
      cases hfinish : finishSector env rw i with
      | some e =>
        refine ⟨1, rfl, .inr ⟨0, left.succ_pos, .inr rfl, ?_⟩, fun _ h => nomatch h⟩
        rw [finishSector] at hfinish
        cases hresult : env.lhResult i with
        | some e' =>
          rw [hresult] at hfinish
          exact .inr ⟨e', rfl, congrArg Outcome.err (Option.some.inj hfinish).symm⟩
        | none =>
          rw [hresult] at hfinish
          dsimp only at hfinish
          split_ifs at hfinish with hread
          obtain rfl := Option.some.inj hfinish
          exact .inl ⟨hread.2, rfl⟩
      | none =>
        obtain ⟨k, hcommands, hend, -⟩ := ih (i := i + 1)
        refine ⟨k + 1, ?_, ?_, fun _ h => nomatch h⟩
        · rw [List.range_succ_eq_map, List.map_cons, List.map_map]
          dsimp only
          rw [hcommands]
          congr 1
          refine List.map_congr_left fun j _ => ?_
          rw [Function.comp_apply, Nat.succ_eq_add_one, Nat.add_right_comm, Nat.add_assoc]
        · rcases hend with ⟨hok, rfl⟩ | ⟨j, hj, hk, hfail⟩
          · exact .inl ⟨hok, rfl⟩
          · refine .inr ⟨j + 1, by omega, by omega, ?_⟩
            rw [Nat.add_right_comm, Nat.add_assoc] at hfail
            exact hfail

/-- The sectors of a request within the disk. -/
theorem ofInt_add_ofNat (hnonneg : 0 ≤ u.uioOffset) (j : ℕ) :
    UInt32.ofInt (u.uioOffset / 512) + UInt32.ofNat (0 + j) = UInt32.ofNat (u.first + j) := by
  have hfirst := toNat_ofInt (u.uioOffset / 512)
  rw [← UInt32.toNat_inj, UInt32.toNat_add, UInt32.toNat_ofNat', UInt32.toNat_ofNat',
    Request.first]
  omega

theorem fooled_iff : Fooled nsect u ↔ Passes nsect u ∧
    ¬(0 ≤ u.uioOffset ∧ ∀ i < u.count, u.first + i < nsect.toNat) := by
  rw [Fooled, and_congr_right_iff]
  intro _
  constructor
  · rintro (hneg | ⟨hpos, hlt⟩) ⟨hnonneg, hbelow⟩
    · omega
    · have := hbelow (u.count - 1) (by omega)
      omega
  · intro h
    by_cases hneg : u.uioOffset < 0
    · exact .inl hneg
    · refine .inr ?_
      by_contra hbelow
      exact h ⟨not_lt.mp hneg, fun i hi => by omega⟩

theorem onDisk_iff :
    OnDisk nsect env u (devCall (lhdDev nsect) env u) ↔ ¬Fooled nsect u := by
  rw [fooled_iff, devCall_eq]
  by_cases hpass : Passes nsect u
  · rw [if_pos hpass]
    obtain ⟨k, hcommands, hend, hnot⟩ :=
      lhdLoop_issued env 0 u.uioRw (UInt32.ofInt (u.uioOffset / 512)) u.count
    constructor
    · rintro (⟨hnone, hrefused⟩ | hserved) ⟨-, hbad⟩
      · -- the request has passed, so `EINVAL` can only come from a command
        have hk : k = 0 := by
          rw [hcommands] at hnone
          simpa using hnone
        rcases Nat.eq_zero_or_pos u.count with hzero | hpos
        · rcases hend with ⟨hok, -⟩ | ⟨j, hj, -⟩
          · rw [hok] at hrefused
            exact nomatch hrefused
          · omega
        · exact hnot hpos hk hrefused
      · exact hbad ⟨hserved.nonneg, hserved.below⟩
    · intro hgood
      obtain ⟨hnonneg, hbelow⟩ := not_not.mp fun h => hgood ⟨hpass, h⟩
      refine .inr ⟨hnonneg, hpass.offset, hpass.resid, hbelow, k, ?_, ?_⟩
      · rw [hcommands]
        exact List.map_congr_left fun j _ => by rw [ofInt_add_ofNat hnonneg]
      · simpa only [Nat.zero_add] using hend
  · rw [if_neg hpass]
    exact ⟨fun _ h => hpass h.1, fun _ => .inl ⟨rfl, rfl⟩⟩

end Checks

/-- **Requests stay on the disk** unless the checks are fooled. -/
theorem requests_onDisk_iff (nsect : UInt32) (env : Env) (u : Request) :
    OnDisk nsect env u (devCall (lhdDev nsect) env u) ↔ ¬Fooled nsect u := onDisk_iff

/-- Nothing fails. -/
def calm : Env := ⟨fun _ => false, fun _ => none⟩

/-- A read of the sector before the first. -/
def before : Request := ⟨-512, 512, .read⟩

/-- On a disk of 16 sectors the command for sector `2^32 - 1` is issued. -/
theorem not_requests_onDisk :
    ¬∀ nsect env u, OnDisk nsect env u (devCall (lhdDev nsect) env u) := by
  intro hclaim
  have hpass : Passes 16 before := by decide
  exact onDisk_iff.mp (hclaim 16 calm before) ⟨hpass, .inl (by decide)⟩

end Lhd

end Os161
