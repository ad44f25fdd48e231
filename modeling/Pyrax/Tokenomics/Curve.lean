import Mathlib.Algebra.Order.Field.Rat
import Mathlib.Tactic.FieldSimp
import Mathlib.Tactic.Linarith
import Pyrax.Tokenomics.Vesting

/-!
# The vesting curve

What `calculate_vested` of `pyrax-node/src/tokenomics/vesting.rs` gives as time goes on: it
never falls, stays within the grant, is the whole grant once cliff and vesting are over, and
in between is the exact share of the time that has passed up to a millionth of the grant and
one unit, for the two divisions that round down (`linearPart_near`).

The release at the start is another function, and no schedule puts it into its curve:
`tge_amount` of the presale is 30 percent, of which nothing is vested before the cliff, nor
on top of the linear part after it. Only a curve that begins at the whole grant is above the
release from the start on (`curve_iff`).
-/

namespace Pyrax.Tokenomics

open Base Word

namespace VestingSchedule

variable {s : VestingSchedule} {total start now : UInt64}

/-- The time at which linear vesting begins, after the start. -/
def linearFrom (s : VestingSchedule) : Nat :=
  match s.vestingType with
  | .cliffLinear => s.cliffDurationSecs.toNat
  | _ => 0

/-- Linear vesting is under way. -/
def Vesting (s : VestingSchedule) (start now : UInt64) : Prop :=
  (s.vestingType = .cliffLinear ∨ s.vestingType = .linear) ∧
    start.toNat + s.linearFrom ≤ now.toNat ∧
    now.toNat < start.toNat + s.linearFrom + s.vestingDurationSecs.toNat

/-- The share of the grant that the time since then is of the whole time. -/
def exactShare (s : VestingSchedule) (total start now : UInt64) : ℚ :=
  total.toNat * (now.toNat - (start.toNat + s.linearFrom) : ℕ) / s.vestingDurationSecs.toNat

/-- The curve begins at the whole grant. -/
def FullAtStart (s : VestingSchedule) : Prop :=
  match s.vestingType with
  | .immediate => True
  | .cliffImmediate => s.cliffDurationSecs = 0
  | .cliffLinear => s.cliffDurationSecs = 0 ∧ s.vestingDurationSecs = 0
  | .linear => s.vestingDurationSecs = 0
  | .milestone | .perBlock | .perAttestation => False

/-! ## Between the boundaries -/

/-- Each of the two divisions loses less than one. -/
theorem linearPart_near {elapsed duration : UInt64} (h : elapsed < duration) :
    |((linearPart total elapsed duration).toNat : ℚ)
        - total.toNat * elapsed.toNat / duration.toNat| ≤ total.toNat / 1000000 + 1 := by
  have hpos : 0 < duration.toNat := Nat.zero_lt_of_lt (UInt64.lt_iff_toNat_lt.mp h)
  rw [linearPart_toNat h]
  generalize total.toNat = t
  generalize duration.toNat = d at hpos ⊢
  generalize elapsed.toNat = e
  have hdown : e * 1000000 / d * d ≤ e * 1000000 := Nat.div_mul_le_self _ _
  have hup : e * 1000000 < d * (e * 1000000 / d + 1) := Nat.lt_mul_div_succ _ hpos
  generalize e * 1000000 / d = r at hdown hup ⊢
  have hdown' : t * r / 1000000 * 1000000 ≤ t * r := Nat.div_mul_le_self _ _
  have hup' : t * r < 1000000 * (t * r / 1000000 + 1) := Nat.lt_mul_div_succ _ (by decide)
  generalize t * r / 1000000 = v at hdown' hup' ⊢
  have hd : (0 : ℚ) < d := by exact_mod_cast hpos
  -- the ratio of the code is at most a millionth below that of the times
  have hlow : (r : ℚ) ≤ e / d * 1000000 := by
    rw [div_mul_eq_mul_div, le_div_iff₀ hd]
    exact_mod_cast hdown
  have hhigh : (e : ℚ) / d * 1000000 ≤ r + 1 := by
    rw [div_mul_eq_mul_div, div_le_iff₀ hd, mul_comm _ (d : ℚ)]
    exact_mod_cast hup.le
  have ht : (0 : ℚ) ≤ t := Nat.cast_nonneg t
  have hlow' := mul_le_mul_of_nonneg_left hlow ht
  have hhigh' := mul_le_mul_of_nonneg_left hhigh ht
  have hv : (v : ℚ) * 1000000 ≤ t * r := by exact_mod_cast hdown'
  have hv' : (t : ℚ) * r ≤ 1000000 * (v + 1) := by exact_mod_cast hup'.le
  rw [mul_div_assoc, abs_le]
  constructor
  · linarith
  · linarith

/-- What is vested while linear vesting is under way. -/
theorem calculateVested_of_vesting (total : UInt64) (h : s.Vesting start now) :
    ∃ elapsed, elapsed < s.vestingDurationSecs ∧
      elapsed.toNat = now.toNat - (start.toNat + s.linearFrom) ∧
      s.calculateVested total start now = linearPart total elapsed s.vestingDurationSecs := by
  obtain ⟨htype, hfrom, hto⟩ := h
  have hstart : start.toNat ≤ now.toNat := by omega
  have hafter : ¬ now < start := by
    rw [UInt64.lt_iff_toNat_lt]
    omega
  have hsub := Word.toNat_sub_of_le hstart
  unfold calculateVested vestedAfter
  rw [if_neg hafter]
  rcases htype with htype | htype
  · rw [linearFrom, htype] at hfrom hto ⊢
    dsimp only at hfrom hto ⊢
    have hcliff : s.cliffDurationSecs.toNat ≤ (now - start).toNat := by omega
    have helapsed := Word.toNat_sub_of_le hcliff
    have hlt : now - start - s.cliffDurationSecs < s.vestingDurationSecs := by
      rw [UInt64.lt_iff_toNat_lt]
      omega
    refine ⟨now - start - s.cliffDurationSecs, hlt, by omega, ?_⟩
    rw [if_neg (UInt64.not_lt.mpr (UInt64.le_iff_toNat_le.mpr hcliff)),
      if_neg (UInt64.not_le.mpr hlt)]
  · rw [linearFrom, htype] at hfrom hto ⊢
    dsimp only at hfrom hto ⊢
    have hlt : now - start < s.vestingDurationSecs := by
      rw [UInt64.lt_iff_toNat_lt]
      omega
    exact ⟨now - start, hlt, by omega, if_neg (UInt64.not_le.mpr hlt)⟩

/-- The curve is near the exact share. -/
theorem calculateVested_near (total : UInt64) (h : s.Vesting start now) :
    |((s.calculateVested total start now).toNat : ℚ) - s.exactShare total start now|
      ≤ total.toNat / 1000000 + 1 := by
  obtain ⟨elapsed, hlt, helapsed, hvested⟩ := calculateVested_of_vesting total h
  rw [hvested, exactShare, ← helapsed]
  exact linearPart_near hlt

/-! ## The boundaries -/

/-- After cliff and vesting everything is vested. -/
theorem calculateVested_of_over (hs : s.ByTime) (total : UInt64)
    (h : start.toNat + s.cliffDurationSecs.toNat + s.vestingDurationSecs.toNat ≤ now.toNat) :
    s.calculateVested total start now = total := by
  have hstart : start.toNat ≤ now.toNat := by omega
  have hsub := Word.toNat_sub_of_le hstart
  rw [calculateVested, if_neg (UInt64.not_lt.mpr (UInt64.le_iff_toNat_le.mpr hstart)), vestedAfter]
  have hcliff : s.cliffDurationSecs.toNat ≤ (now - start).toNat := by omega
  cases htype : s.vestingType with
  | immediate => rfl
  | cliffImmediate => exact if_neg (UInt64.not_lt.mpr (UInt64.le_iff_toNat_le.mpr hcliff))
  | cliffLinear =>
    dsimp only
    rw [if_neg (UInt64.not_lt.mpr (UInt64.le_iff_toNat_le.mpr hcliff)), if_pos]
    rw [UInt64.le_iff_toNat_le, Word.toNat_sub_of_le hcliff]
    omega
  | linear =>
    refine if_pos ?_
    rw [UInt64.le_iff_toNat_le]
    omega
  | milestone => exact absurd htype hs.1
  | perBlock => exact absurd htype hs.2.1
  | perAttestation => exact absurd htype hs.2.2

theorem linearPart_zero {duration : UInt64} (h : 0 < duration) :
    linearPart total 0 duration = 0 := by
  rw [← UInt64.toNat_inj, linearPart_toNat h]
  show total.toNat * (0 * 1000000 / duration.toNat) / 1000000 = 0
  rw [Nat.zero_mul, Nat.zero_div, Nat.mul_zero, Nat.zero_div]

theorem pos_of_ne_zero {duration : UInt64} (h : duration ≠ 0) : 0 < duration := by
  rw [UInt64.lt_iff_toNat_lt]
  exact Nat.pos_of_ne_zero fun hzero => h (UInt64.toNat_inj.mp hzero)

/-- The curve begins at everything or at nothing. -/
theorem calculateVested_start (hs : s.ByTime) (total start : UInt64) :
    (s.FullAtStart → s.calculateVested total start start = total) ∧
      (¬ s.FullAtStart → s.calculateVested total start start = 0) := by
  have hzero : start - start = 0 := UInt64.sub_self start
  rw [calculateVested, if_neg (UInt64.lt_irrefl start), hzero, vestedAfter, FullAtStart]
  cases htype : s.vestingType with
  | immediate => exact ⟨fun _ => rfl, fun h => absurd trivial h⟩
  | cliffImmediate =>
    constructor
    · intro hcliff
      exact if_neg (hcliff ▸ UInt64.lt_irrefl 0)
    · intro hcliff
      exact if_pos (pos_of_ne_zero hcliff)
  | cliffLinear =>
    dsimp only
    constructor
    · intro hfull
      rw [hfull.1, hfull.2]
      rfl
    · intro hfull
      by_cases hcliff : s.cliffDurationSecs = 0
      · have hduration := pos_of_ne_zero fun hduration => hfull ⟨hcliff, hduration⟩
        rw [hcliff, if_neg (UInt64.lt_irrefl 0), UInt64.sub_self, if_neg (UInt64.not_le.mpr hduration),
          linearPart_zero hduration]
      · exact if_pos (pos_of_ne_zero hcliff)
  | linear =>
    dsimp only
    constructor
    · intro hduration
      exact if_pos (hduration ▸ UInt64.le_refl 0)
    · intro hduration
      have hpos := pos_of_ne_zero hduration
      rw [if_neg (UInt64.not_le.mpr hpos), linearPart_zero hpos]
  | milestone => exact absurd htype hs.1
  | perBlock => exact absurd htype hs.2.1
  | perAttestation => exact absurd htype hs.2.2

/-- The curve is above the release when it is from the first second on. -/
theorem tge_le_iff (hs : s.ByTime) (total start : UInt64) :
    (∀ now, start ≤ now → s.tgeAmount total ≤ s.calculateVested total start now) ↔
      s.tgeAmount total = 0 ∨ s.FullAtStart ∧ s.tgeAmount total ≤ total := by
  obtain ⟨hfull, hnone⟩ := calculateVested_start hs total start
  have hfirst : (∀ now, start ≤ now → s.tgeAmount total ≤ s.calculateVested total start now) ↔
      s.tgeAmount total ≤ s.calculateVested total start start := by
    constructor
    · intro h
      exact h start (UInt64.le_refl start)
    · intro h now hnow
      exact UInt64.le_trans h (s.calculateVested_mono total start hnow)
  rw [hfirst]
  by_cases hstart : s.FullAtStart
  · rw [hfull hstart]
    constructor
    · intro hle
      exact .inr ⟨hstart, hle⟩
    · intro h
      rcases h with hzero | ⟨_, hle⟩
      · rw [hzero]
        exact UInt64.zero_le
      · exact hle
  · rw [hnone hstart]
    constructor
    · intro hle
      exact .inl (UInt64.le_antisymm hle UInt64.zero_le)
    · intro h
      rcases h with hzero | ⟨h, _⟩
      · exact UInt64.le_of_eq hzero
      · exact absurd h hstart

/-- **The vesting curve.** Monotone, within the grant, complete after cliff and vesting, and
near the exact share in between; above the release at the start only if the release is
nothing or the curve begins at the whole grant. -/
theorem curve_iff (s : VestingSchedule) (hs : s.ByTime) (total start : UInt64) :
    (∀ now now', now ≤ now' →
      s.calculateVested total start now ≤ s.calculateVested total start now') ∧
    (∀ now, s.calculateVested total start now ≤ total) ∧
    (∀ now : UInt64,
      start.toNat + s.cliffDurationSecs.toNat + s.vestingDurationSecs.toNat ≤ now.toNat →
      s.calculateVested total start now = total) ∧
    (∀ now, s.Vesting start now →
      |((s.calculateVested total start now).toNat : ℚ) - s.exactShare total start now|
        ≤ total.toNat / 1000000 + 1) ∧
    ((∀ now, start ≤ now → s.tgeAmount total ≤ s.calculateVested total start now) ↔
      s.tgeAmount total = 0 ∨ s.FullAtStart ∧ s.tgeAmount total ≤ total) :=
  ⟨fun _ _ h => s.calculateVested_mono total start h, fun now => s.calculateVested_le total start now,
    fun _ h => calculateVested_of_over hs total h, fun _ h => calculateVested_near total h,
    tge_le_iff hs total start⟩

theorem curve_iff_immediate : immediate.tgeAmount 1000 ≤ immediate.calculateVested 1000 5 7 :=
  (curve_iff immediate ⟨by decide, by decide, by decide⟩ 1000 5).2.2.2.2.mpr
    (.inr ⟨trivial, by decide⟩) 7 (by decide)

/-- Of a presale grant of 1000 there should be 300 at the start, and is nothing. -/
theorem presale_below_release :
    presale.ByTime ∧ presale.tgeAmount 1000 = 300 ∧ presale.calculateVested 1000 5 5 = 0 ∧
      ¬ ∀ now, 5 ≤ now → presale.tgeAmount 1000 ≤ presale.calculateVested 1000 5 now := by
  refine ⟨⟨by decide, by decide, by decide⟩, by decide, by decide, ?_⟩
  intro h
  exact absurd (h 5 (by decide)) (by decide)

end VestingSchedule

end Pyrax.Tokenomics
