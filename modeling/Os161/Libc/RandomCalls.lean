import Os161.Libc.Random

/-!
# Random numbers, whatever the calls

The arrays together: the one in use runs its generator, the others rest, and no two overlap
(`Models`). Every call that `Streams.Allows` keeps it so and answers what the generators answer, and
nothing outside the arrays is written. At the start the array in use is `randtbl`, which is what 310
rounds of the recurrence make of the seed 1.

## Main definitions

* `Random.Models`

## Main results

* `Random.models_call` — one call
* `Random.random_refines` — any sequence of calls
-/

namespace Os161

namespace Random

/-! ### Calls in any order -/

/-- The array in use runs the generator in use, the others rest, and no two overlap. -/
structure Models (r : Rng) (st : Streams) : Prop where
  runs : ∃ g, st.gen st.current = some g ∧ SetUp r st.current g.type ∧ Runs r g
  rests : ∀ arg g, arg ≠ st.current → st.gen arg = some g → Rests r.mem arg g
  apart : ∀ a b ga gb, a ≠ b → st.gen a = some ga → st.gen b = some gb →
    a + words ga.type ≤ b ∨ b + words gb.type ≤ a

section Calls

variable {r r' : Rng} {st : Streams} {g g' : Generator}

theorem words_pos (t : ℕ) : 1 < words t := by
  rw [words]
  omega

/-- The array in use has changed, and no other. -/
theorem Models.changed (h : Models r st) (hg : st.gen st.current = some g)
    (hs : SetUp r' st.current g'.type) (hruns : Runs r' g') (htype : g'.type = g.type)
    (hmem : ∀ p, p < st.current ∨ st.current + words g.type ≤ p → r'.mem p = r.mem p) :
    Models r' { st with gen := Function.update st.gen st.current (some g') } := by
  have hgen {a : ℕ} {ga : Generator}
      (ha : Function.update st.gen st.current (some g') a = some ga) :
      ∃ ga', st.gen a = some ga' ∧ ga.type = ga'.type := by
    by_cases hne : a = st.current
    · subst hne
      rw [Function.update_self] at ha
      obtain rfl := Option.some.inj ha
      exact ⟨g, hg, htype⟩
    · rw [Function.update_of_ne hne] at ha
      exact ⟨ga, ha, rfl⟩
  refine ⟨⟨g', Function.update_self _ _ _, hs, hruns⟩, fun a ga hne ha => ?_,
    fun a b ga gb hne ha hb => ?_⟩
  · change Function.update st.gen st.current (some g') a = some ga at ha
    rw [Function.update_of_ne hne] at ha
    refine (h.rests a ga hne ha).congr fun p hlo hhi => hmem p ?_
    have := h.apart a st.current ga g hne ha hg
    omega
  · obtain ⟨ga', ha', hta⟩ := hgen ha
    obtain ⟨gb', hb', htb⟩ := hgen hb
    rw [hta, htb]
    exact h.apart a b ga' gb' hne ha' hb'

/-- Writing the first word of the array in use makes it ready to be left. -/
theorem Models.save (h : Models r st) : Models r.save st ∧
    ∀ a g, st.gen a = some g → Rests r.save.mem a g := by
  obtain ⟨g, hg, hs, hruns⟩ := h.runs
  have hsave : r.save = r.store st.current r.header := by
    rw [Rng.save, hs.state, Nat.add_sub_cancel]
  have hpos := words_pos g.type
  have hruns' := hruns.store_first hs r.header
  have hs' : SetUp (r.store st.current r.header) st.current g.type :=
    ⟨hs.state, hs.type, hs.deg, hs.sep, hs.endPtr⟩
  have hmodels := h.changed hg hs' hruns' rfl fun p hp => Function.update_of_ne (by omega) _ _
  rw [← hg, Function.update_eq_self] at hmodels
  rw [hsave]
  refine ⟨hmodels, fun a ga ha => ?_⟩
  by_cases hne : a = st.current
  · subst hne
    obtain rfl := Option.some.inj (hg.symm.trans ha)
    exact hruns.rests hs
  · exact hmodels.rests a ga hne ha

theorem save_mem (hs : SetUp r st.current g.type) {p : ℕ} (hp : p ≠ st.current) :
    r.save.mem p = r.mem p := by
  refine Function.update_of_ne ?_ _ _
  rw [hs.state]
  exact hp

/-- What the first word of an array says. -/
theorem Rests.header {mem : ℕ → UInt32} {arg : ℕ} (h : Rests mem arg g) :
    ∃ ρ, (mem arg).toInt32.toInt.tmod maxTypes = g.type ∧
      (mem arg).toInt32.toInt.tdiv maxTypes = (ρ : ℕ) ∧
      (g.type ≠ 0 → ∃ w, g = .feedback g.type w ∧ Feeds mem (arg + 1) g.type ρ w) := by
  have hdecode {ρ t : ℕ} (hρ : ρ < 64) (ht : t < maxTypes)
      (hmem : mem arg = UInt32.ofNat (maxTypes * ρ + t)) :
      (mem arg).toInt32.toInt.tmod maxTypes = t ∧
        (mem arg).toInt32.toInt.tdiv maxTypes = (ρ : ℕ) := by
    have hint : (mem arg).toInt32.toInt = ((maxTypes * ρ + t : ℕ) : ℤ) := by
      rw [hmem]
      change (BitVec.ofNat 32 _).toInt = _
      rw [maxTypes] at ht ⊢
      have hnat : (BitVec.ofNat 32 (5 * ρ + t)).toNat = 5 * ρ + t := by
        rw [BitVec.toNat_ofNat]
        exact Nat.mod_eq_of_lt (by omega)
      rw [BitVec.toInt_eq_toNat_of_lt (by omega), hnat]
    rw [hint, Int.tmod_eq_emod_of_nonneg (Int.natCast_nonneg _),
      Int.tdiv_eq_ediv_of_nonneg (Int.natCast_nonneg _)]
    rw [maxTypes] at ht ⊢
    omega
  cases g with
  | congruential x =>
    obtain ⟨hmod, hdiv⟩ := hdecode (ρ := 0) (t := 0) (by decide) (by decide) h.1
    exact ⟨0, hmod, hdiv, fun h0 => absurd rfl h0⟩
  | feedback t w =>
    obtain ⟨ρ, hmem, hf⟩ := h
    obtain ⟨hmod, hdiv⟩ := hdecode (Nat.lt_trans hf.rear (degrees_lt t)) hf.type.2 hmem
    exact ⟨ρ, hmod, hdiv, fun _ => ⟨w, rfl, hf⟩⟩

/-- **`setstate`** goes on with another array where it was left. -/
theorem models_setstate (h : Models r st) {arg : ℕ} (hne : arg ≠ st.current)
    (hg : st.gen arg = some g) : (r.setstate arg).1 = some st.current ∧
      Models (r.setstate arg).2 { st with current := arg } ∧
      ∀ p, p ≠ st.current → (r.setstate arg).2.mem p = r.mem p := by
  obtain ⟨gc, hgc, hs, -⟩ := h.runs
  obtain ⟨-, hrests⟩ := h.save
  have hrest := h.rests arg g hne hg
  obtain ⟨ρ, hmod, hdiv, hfeeds⟩ := hrest.header
  have hapart := h.apart arg st.current g gc hne hg hgc
  have hpos := words_pos gc.type
  have hostate : r.state - 1 = st.current := by
    rw [hs.state, Nat.add_sub_cancel]
  rw [Rng.setstate, hmod, hdiv, hostate]
  dsimp only
  rw [if_neg (Int.not_lt.mpr (Int.natCast_nonneg _)), Int.toNat_natCast, Int.toNat_natCast]
  by_cases h0 : g.type = 0
  · rw [if_neg (not_not_intro h0)]
    refine ⟨rfl, ⟨⟨g, hg, ⟨rfl, rfl, rfl, rfl, rfl⟩, ?_⟩, fun a ga _ ha => hrests a ga ha,
      h.apart⟩, fun p hp => save_mem hs hp⟩
    cases g with
    | congruential x =>
      have hwords : words (Generator.congruential x).type = 2 := rfl
      have hne' : arg + 1 ≠ st.current := by omega
      exact (save_mem hs hne').trans hrest.2
    | feedback t w =>
      obtain ⟨ρ', -, hf⟩ := hrest
      exact absurd h0 hf.type.1
  · rw [if_pos h0]
    obtain ⟨w, hw, hf⟩ := hfeeds h0
    refine ⟨rfl, ⟨⟨g, hg, ⟨rfl, rfl, rfl, rfl, rfl⟩, ?_⟩, fun a ga _ ha => hrests a ga ha,
      h.apart⟩, fun p hp => save_mem hs hp⟩
    have hsep := seps_lt h0
    have hrear := hf.rear
    have hwords : words g.type = 1 + degrees g.type := by
      rw [words]
      omega
    rw [hw]
    have hfront : (ρ + seps g.type) % degrees g.type = turn (degrees g.type) (ρ + seps g.type) :=
      mod_eq_turn (by omega)
    exact ⟨ρ, rfl, congrArg (arg + 1 + ·) hfront,
      hf.congr fun p hlo hhi => save_mem hs (by omega)⟩

/-- **`initstate`** makes a generator of an array. -/
theorem models_initstate (h : Models r st) (seed : UInt32) {arg n t : ℕ} (ht : typeFor n = some t)
    (hallow : ∀ b g, b ≠ arg → st.gen b = some g →
      arg + words t ≤ b ∨ b + words g.type ≤ arg) :
    (r.initstate seed arg n).1 = some st.current ∧
      Models (r.initstate seed arg n).2
        ⟨Function.update st.gen arg (some (.seed t seed)), arg⟩ ∧
      ∀ p, p ≠ st.current → p < arg ∨ arg + words t ≤ p →
        (r.initstate seed arg n).2.mem p = r.mem p := by
  obtain ⟨gc, hgc, hs, -⟩ := h.runs
  obtain ⟨-, hrests⟩ := h.save
  have hostate : r.state - 1 = st.current := by
    rw [hs.state, Nat.add_sub_cancel]
  have htype : t < maxTypes := by
    unfold typeFor at ht
    repeat' split at ht
    · cases ht
    all_goals
      obtain rfl := Option.some.inj ht
      decide
  rw [Rng.initstate, ht, hostate]
  dsimp only
  generalize hr₁ : ({ r.save.withType t with
    state := arg + 1, endPtr := arg + 1 + degrees t } : Rng) = r₁
  have hs₁ : SetUp r₁ arg t := by
    rw [← hr₁]
    exact ⟨rfl, rfl, rfl, rfl, rfl⟩
  have hmem₁ : r₁.mem = r.save.mem := by
    rw [← hr₁]
    rfl
  obtain ⟨hruns, hwithin⟩ := runs_srandom hs₁ htype seed
  have hs₂ := hwithin.setUp hs₁
  have hst := type_seed t seed
  rw [← hst] at hs₂
  have hpos := words_pos t
  have hmem (p : ℕ) (hp : p < arg ∨ arg + words t ≤ p) :
      ((r₁.srandomUnlocked seed).store arg (r₁.srandomUnlocked seed).header).mem p =
        r.save.mem p := by
    refine (Function.update_of_ne (by omega) _ _).trans ?_
    rw [hwithin.mem p (by omega), hmem₁]
  refine ⟨rfl, ⟨⟨_, Function.update_self _ _ _, ⟨hs₂.state, hs₂.type, hs₂.deg, hs₂.sep, hs₂.endPtr⟩,
    hruns.store_first hs₂ _⟩, fun a ga hne ha => ?_, fun a b ga gb hne ha hb => ?_⟩,
    fun p hp hout => (hmem p hout).trans (save_mem hs hp)⟩
  · change Function.update st.gen arg _ a = some ga at ha
    rw [Function.update_of_ne hne] at ha
    refine (hrests a ga ha).congr fun p hlo hhi => hmem p ?_
    have := hallow a ga hne ha
    omega
  · change Function.update st.gen arg _ a = some ga at ha
    change Function.update st.gen arg _ b = some gb at hb
    by_cases hae : a = arg
    · subst hae
      rw [Function.update_self] at ha
      rw [Function.update_of_ne (Ne.symm hne)] at hb
      obtain rfl := Option.some.inj ha
      rw [hst]
      exact hallow b gb (Ne.symm hne) hb
    · rw [Function.update_of_ne hae] at ha
      by_cases hbe : b = arg
      · subst hbe
        rw [Function.update_self] at hb
        obtain rfl := Option.some.inj hb
        rw [hst]
        exact (hallow a ga hae ha).symm
      · rw [Function.update_of_ne hbe] at hb
        exact h.apart a b ga gb hne ha hb

/-- A generator fits into the array it is given. -/
theorem words_le {n t : ℕ} (h : typeFor n = some t) : words t ≤ n / 4 := by
  have hwords : words 0 = 2 ∧ words 1 = 8 ∧ words 2 = 16 ∧ words 3 = 32 ∧ words 4 = 64 := by decide
  unfold typeFor at h
  repeat' split at h
  · cases h
  all_goals
    obtain rfl := Option.some.inj h
    omega

theorem Streams.Outside.change {p : ℕ} (h : st.Outside p) {f : Generator → Generator}
    (hf : ∀ g, (f g).type = g.type) : (st.change f).Outside p := by
  intro a g ha
  change Function.update st.gen st.current ((st.gen st.current).map f) a = some g at ha
  by_cases hne : a = st.current
  · subst hne
    rw [Function.update_self] at ha
    obtain ⟨g', hg', rfl⟩ := Option.map_eq_some_iff.mp ha
    rw [hf]
    exact h _ g' hg'
  · rw [Function.update_of_ne hne] at ha
    exact h a g ha

/-- A word that is in no array stays so. -/
theorem Streams.Outside.call {p : ℕ} (h : st.Outside p) {c : Call} (hc : c.Outside p) :
    (st.call c).1.Outside p := by
  cases c with
  | random => exact h.change type_next
  | srandom x => exact h.change fun g => type_seed g.type x
  | initstate seed argState n =>
    rw [Streams.call]
    split
    · exact h
    · next t ht =>
      intro a g ha
      change Function.update st.gen argState _ a = some g at ha
      by_cases hne : a = argState
      · subst hne
        rw [Function.update_self] at ha
        obtain rfl := Option.some.inj ha
        have := words_le ht
        rw [type_seed]
        exact hc.imp id fun hle => by omega
      · rw [Function.update_of_ne hne] at ha
        exact h a g ha
  | setstate argState => exact h

/-- One call. -/
theorem models_call (h : Models r st) {c : Call} (ha : st.Allows c) :
    (r.call c).2 = (st.call c).2 ∧ Models (r.call c).1 (st.call c).1 ∧
      ∀ p, st.Outside p → c.Outside p → (r.call c).1.mem p = r.mem p := by
  obtain ⟨g, hg, hs, hruns⟩ := h.runs
  have hpos := words_pos g.type
  cases c with
  | random =>
    obtain ⟨hnumber, hruns', hwithin⟩ := runs_random hs hruns
    have hs' : SetUp r.randomUnlocked.2 st.current g.next.2.type := by
      rw [type_next]
      exact hwithin.setUp hs
    have hmodels := h.changed hg hs' hruns' (type_next g) fun p hp => hwithin.mem p (by omega)
    refine ⟨?_, ?_, fun p hout _ => hwithin.mem p ?_⟩
    · change Answer.number _ = Answer.number (((st.gen st.current).map _).getD 0)
      rw [hnumber, hg]
      rfl
    · change Models _ (st.change _)
      rw [Streams.change, hg]
      exact hmodels
    · have := hout _ g hg
      omega
  | srandom x =>
    obtain ⟨hruns', hwithin⟩ := runs_srandom hs hruns.type_lt x
    have htype := type_seed g.type x
    have hmodels := h.changed hg (htype.symm ▸ hwithin.setUp hs) hruns' htype
      fun p hp => hwithin.mem p (by omega)
    refine ⟨rfl, ?_, fun p hout _ => hwithin.mem p ?_⟩
    · change Models _ (st.change _)
      rw [Streams.change, hg]
      exact hmodels
    · have := hout _ g hg
      omega
  | initstate seed argState n =>
    cases ht : typeFor n with
    | none =>
      have hcode : r.initstate seed argState n = (none, r.save) := by
        rw [Rng.initstate, ht]
      rw [Rng.call, Streams.call, hcode, ht]
      refine ⟨rfl, h.save.1, fun p hout _ => save_mem hs ?_⟩
      have := hout _ g hg
      omega
    | some t =>
      obtain ⟨hold, hmodels, hmem⟩ := models_initstate h seed ht (ha t ht)
      rw [Rng.call, Streams.call, ht]
      refine ⟨congrArg Answer.array hold, hmodels, fun p hout hc => hmem p ?_ ?_⟩
      · have := hout _ g hg
        omega
      · have := words_le ht
        exact hc.imp id fun hle => by omega
  | setstate argState =>
    obtain ⟨g', hg'⟩ := Option.isSome_iff_exists.mp ha.2
    obtain ⟨hold, hmodels, hmem⟩ := models_setstate h ha.1 hg'
    refine ⟨congrArg Answer.array hold, hmodels, fun p hout _ => hmem p ?_⟩
    have := hout _ g hg
    omega

theorem models_calls (h : Models r st) {cs : List Call} (ha : st.AllowsAll cs) :
    (answers Rng.call r cs).1 = (answers Streams.call st cs).1 ∧
      Models (answers Rng.call r cs).2 (answers Streams.call st cs).2 ∧
      ∀ p, st.Outside p → (∀ c ∈ cs, c.Outside p) → (answers Rng.call r cs).2.mem p = r.mem p := by
  induction cs generalizing r st with
  | nil => exact ⟨rfl, h, fun _ _ _ => rfl⟩
  | cons c cs ih =>
    obtain ⟨hanswer, hmodels, hmem⟩ := models_call h ha.1
    obtain ⟨hanswers, hmodels', hmem'⟩ := ih hmodels ha.2
    refine ⟨?_, hmodels', fun p hout hcs => ?_⟩
    · rw [answers, answers, hanswer, hanswers]
    · have hc := hcs c List.mem_cons_self
      exact (hmem' p (hout.call hc) fun c' hc' => hcs c' (List.mem_cons_of_mem c hc')).trans
        (hmem p hout hc)

/-- The sums of `Generator.next` for the third type, as a list. -/
def sums (l : List UInt32) : List UInt32 := l.tail ++ [l.getD 0 0 + l.getD 28 0]

theorem feedback_iterate {w : ℕ → UInt32} {l : List UInt32} (hlen : l.length = 31)
    (hw : ∀ j < 31, w j = l.getD j 0) (n : ℕ) :
    ∃ w', (fun g => g.next.2)^[n] (Generator.feedback 3 w) = .feedback 3 w' ∧
      ∀ j < 31, w' j = (sums^[n] l).getD j 0 := by
  induction n generalizing w l with
  | zero => exact ⟨w, rfl, hw⟩
  | succ n ih =>
    have hlen' : (sums l).length = 31 := by
      rw [sums, List.length_append, List.length_tail, List.length_singleton, hlen]
    refine ih hlen' fun j hj => ?_
    change (if j + 1 = 31 then w 0 + w 28 else w (j + 1)) = _
    have htail : l.tail.length = 30 := by rw [List.length_tail, hlen]
    rw [sums, List.getD_eq_getElem?_getD]
    by_cases hlast : j + 1 = 31
    · rw [if_pos hlast, hw 0 (by decide), hw 28 (by decide),
        List.getElem?_append_right (by omega), htail, show j - 30 = 0 by omega]
      rfl
    · rw [if_neg hlast, hw (j + 1) (by omega), List.getElem?_append_left (by omega),
        List.getElem?_tail, List.getD_eq_getElem?_getD]

/-- The table is what `initstate` makes with the seed `1`. -/
theorem randtbl_eq : sums^[310] ((List.range 31).map fun j => lcg^[(3 + j) % 31] 1) =
    (List.range 31).map fun j => Rng.randtbl.getD (1 + (3 + j) % 31) 0 := by
  decide +kernel

/-- The variables and `randtbl` are set up for this generator. -/
theorem models_start (base : ℕ) (mem : ℕ → UInt32) {w : ℕ → UInt32}
    (hw : ∀ j < 31, w j = Rng.randtbl.getD (1 + (3 + j) % 31) 0) :
    Models (Rng.init base mem)
      ⟨Function.update (fun _ => none) base (some (.feedback 3 w)), base⟩ := by
  have hgen {a : ℕ} {g : Generator}
      (h : Function.update (fun _ => none) base (some (Generator.feedback 3 w)) a = some g) :
      a = base := by
    by_contra hne
    rw [Function.update_of_ne hne] at h
    cases h
  have hself : Function.update (fun _ => none) base (some (Generator.feedback 3 w)) base =
      some (.feedback 3 w) := Function.update_self _ _ _
  refine ⟨⟨.feedback 3 w, hself, ⟨rfl, rfl, rfl, rfl, rfl⟩, 0, rfl, rfl,
    ⟨by decide, by decide⟩, by decide, fun j hj => ?_⟩,
    fun a g hne ha => absurd (hgen ha) hne, fun a b ga gb hne ha hb =>
    absurd ((hgen ha).trans (hgen hb).symm) hne⟩
  change j < 31 at hj
  have hturn : turn 31 (3 + j) = (3 + j) % 31 := (mod_eq_turn (by omega)).symm
  rw [hw j hj]
  change (if base ≤ base + 1 + turn 31 (3 + j) ∧ base + 1 + turn 31 (3 + j) < base + 32 then
    Rng.randtbl.getD (base + 1 + turn 31 (3 + j) - base) 0 else _) = _
  rw [hturn, if_pos (by omega)]
  congr 1
  omega

theorem models_init (base : ℕ) (mem : ℕ → UInt32) : Models (Rng.init base mem) (.init base) := by
  have hgetD {f : ℕ → UInt32} {j : ℕ} (hj : j < 31) : ((List.range 31).map f).getD j 0 = f j := by
    rw [List.getD_eq_getElem?_getD, List.getElem?_map, List.getElem?_range hj]
    rfl
  obtain ⟨w, hseed, hw⟩ := feedback_iterate (w := fun j => lcg^[(3 + j) % 31] 1)
    (l := (List.range 31).map fun j => lcg^[(3 + j) % 31] 1) (List.length_map _)
    (fun j hj => (hgetD (f := fun j => lcg^[(3 + j) % 31] 1) hj).symm) 310
  have hseed' : Generator.seed 3 1 = .feedback 3 w := by
    rw [Generator.seed, if_neg (by decide), show 10 * degrees 3 = 310 from rfl]
    exact hseed
  rw [Streams.init, hseed']
  refine models_start base mem fun j hj => ?_
  rw [hw j hj, randtbl_eq, hgetD hj]

/-- Another word is outside of the only array there is at the start. -/
theorem Streams.outside_init {base p : ℕ} (hp : p < base ∨ base + 32 ≤ p) :
    (Streams.init base).Outside p := by
  intro a g h
  have hgen : (Streams.init base).gen =
      Function.update (fun _ => none) base (some (.seed 3 1)) := by
    rw [Streams.init]
  rw [hgen] at h
  by_cases hne : a = base
  · subst hne
    rw [Function.update_self] at h
    obtain rfl := Option.some.inj h
    rw [type_seed]
    exact hp
  · rw [Function.update_of_ne hne] at h
    cases h

/-- **Generators.** From the start of the program on every sequence of calls is answered as by
generators that do not know of each other, and the memory outside of the arrays stays as it is. -/
theorem random_refines (base : ℕ) (mem : ℕ → UInt32) (cs : List Call)
    (ha : (Streams.init base).AllowsAll cs) :
    (answers Rng.call (Rng.init base mem) cs).1 = (answers Streams.call (.init base) cs).1 ∧
      ∀ p, p < base ∨ base + 32 ≤ p → (∀ c ∈ cs, c.Outside p) →
        (answers Rng.call (Rng.init base mem) cs).2.mem p = mem p := by
  obtain ⟨hanswers, -, hmem⟩ := models_calls (models_init base mem) ha
  exact ⟨hanswers, fun p hp hcs =>
    (hmem p (Streams.outside_init hp) hcs).trans (if_neg (by omega))⟩

/-- Numbers from two arrays in turn. -/
def inTurn : List Call :=
  [.random, .initstate 7 1000 32, .random, .setstate 100, .random, .srandom 5, .setstate 1000,
    .random]

theorem allowsAll_inTurn : (Streams.init 100).AllowsAll inTurn := by
  refine ⟨trivial, fun t _ b g hne hb => Or.inr ?_, trivial, ⟨by decide, rfl⟩, trivial, trivial,
    ⟨by decide, rfl⟩, trivial, trivial⟩
  -- the other array is that of the start
  change Function.update (Function.update (fun _ => none) 100 _) 100 _ b = some g at hb
  have hb100 : b = 100 := by
    by_contra hne'
    rw [Function.update_of_ne hne', Function.update_of_ne hne'] at hb
    cases hb
  have := degrees_lt g.type
  rw [hb100, words]
  omega

theorem random_refines_inTurn :
    (answers Rng.call (Rng.init 100 fun _ => 0) inTurn).1 =
        (answers Streams.call (.init 100) inTurn).1 ∧
      ∀ p, p < 100 ∨ 100 + 32 ≤ p → (∀ c ∈ inTurn, c.Outside p) →
        (answers Rng.call (Rng.init 100 fun _ => 0) inTurn).2.mem p = 0 :=
  random_refines 100 (fun _ => 0) inTurn allowsAll_inTurn

end Calls

end Random

end Os161
