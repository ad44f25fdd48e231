import Pyrax.Staking.Slashing

/-!
# What a slashing record reports

A record of `SlashingManager::submit_evidence` names an amount, a validator and a reward for
the reporter. The reward is a share of the amount. But the amount is computed on two ways,
and only one of them takes it: for downtime a thousandth of the stake is reported and the
stake left as it was. And the record names the validator of the evidence, while the penalty
falls on the one that was passed beside it; the two are not compared.
`submitEvidence_honest_iff`: there is no third difference.
-/

namespace Pyrax.Staking

open Base Word

namespace SlashingManager

/-- The record says what was done to the validator. -/
structure Reports (v v' : Validator) (r : SlashingRecord) : Prop where
  taken : r.amountSlashed.toNat + v'.selfStake.toNat = v.selfStake.toNat
  reward : r.reporterReward ≤ r.amountSlashed
  named : r.validator = v'.address
  punished : v'.address = v.address

/-- Refused evidence leaves the validator and the records as they were; of accepted evidence
there is one record more, and it says what was done. -/
def Honest (C : Crypto) (m : SlashingManager) (now slashedAt : UInt64) (e : SlashingEvidence)
    (v : Validator) : Prop :=
  let s' := SlashingOp.apply C ⟨m, v⟩ (.submitEvidence now slashedAt e)
  (∀ err, m.submitEvidence C now slashedAt e v = .error err →
    s'.validator = v ∧ s'.manager.records = m.records) ∧
  ∀ m' v' r, m.submitEvidence C now slashedAt e v = .ok (m', v', r) →
    s'.validator = v' ∧ s'.manager.records = m.records ++ [r] ∧ Reports v v' r

variable {C : Crypto} {m : SlashingManager} {e : SlashingEvidence}

/-! ## The amount -/

theorem toNat_mulDiv {a b c : Nat} (h : a * b / c < 2 ^ 64) : (mulDiv a b c).toNat = a * b / c :=
  UInt64.toNat_ofNat_of_lt' h

theorem slashPercent_le (o : SlashingOffense) : o.slashPercent.toNat ≤ 100 := by
  cases o <;> decide

/-- A share of at most all of it. -/
theorem toNat_share_le (x : UInt64) (percent : Nat) (h : percent ≤ 100) :
    (mulDiv x.toNat percent 100).toNat = x.toNat * percent / 100 ∧
      x.toNat * percent / 100 ≤ x.toNat := by
  have hle : x.toNat * percent / 100 ≤ x.toNat := by
    refine Nat.div_le_of_le_mul ?_
    rw [Nat.mul_comm]
    exact Nat.mul_le_mul_right _ h
  exact ⟨toNat_mulDiv (Nat.lt_of_le_of_lt hle x.toNat_lt), hle⟩

/-- Slashing takes the amount it returns. -/
theorem slash_taken (v : Validator) {percent : UInt8} (h : percent.toNat ≤ 100) :
    (v.slash percent).2.toNat + (v.slash percent).1.selfStake.toNat = v.selfStake.toNat := by
  obtain ⟨hshare, hle⟩ := toNat_share_le v.selfStake _ h
  show (mulDiv v.selfStake.toNat percent.toNat 100).toNat
    + (saturatingSub v.selfStake (mulDiv v.selfStake.toNat percent.toNat 100)).toNat = _
  rw [toNat_saturatingSub, hshare]
  omega

/-- A thousandth of the stake is nothing only below a thousand. -/
theorem penalize_taken_iff (e : SlashingEvidence) (v : Validator) :
    (penalize e v).2.toNat + (penalize e v).1.selfStake.toNat = v.selfStake.toNat ↔
      (e.offense = .downtime → v.selfStake < 1000) := by
  rw [penalize]
  split
  · next hdown =>
    have hamount : (mulDiv v.selfStake.toNat DOWNTIME_SLASH_PERCENT_TENTHS.toNat 1000).toNat
        = v.selfStake.toNat / 1000 := by
      have hone : DOWNTIME_SLASH_PERCENT_TENTHS.toNat = 1 := rfl
      have hlt : v.selfStake.toNat < 2 ^ 64 := v.selfStake.toNat_lt
      rw [hone, toNat_mulDiv (by omega), Nat.mul_one]
    have hthousand : (1000 : UInt64).toNat = 1000 := rfl
    dsimp only
    rw [hamount, UInt64.lt_iff_toNat_lt, hthousand]
    constructor
    · intro h _
      omega
    · intro h
      have := h hdown
      omega
  · next hdown =>
    exact iff_of_true (slash_taken v (slashPercent_le _)) fun h => absurd h hdown

/-! ## The record -/

theorem submitEvidence_eq (h : m.Accepts C e) (now slashedAt : UInt64) (v : Validator) :
    let confined := confine e now (penalize e v).1
    let entry := m.record C slashedAt e (penalize e v).2 confined
    m.submitEvidence C now slashedAt e v = .ok ({ m with
      records := m.records ++ [entry]
      evidenceHashes := m.evidenceHashes.insert (e.hash C) true }, confined, entry) := by
  dsimp only
  rw [submitEvidence, if_neg (by rw [h.1]; exact Bool.noConfusion), if_neg h.2]

/-- Neither jail nor tombstone touches the stake or the name. -/
theorem confine_frame (e : SlashingEvidence) (now : UInt64) (v : Validator) :
    (confine e now v).selfStake = v.selfStake ∧ (confine e now v).address = v.address := by
  rw [confine]
  split
  · exact ⟨rfl, rfl⟩
  · exact ⟨rfl, rfl⟩

theorem penalize_address (e : SlashingEvidence) (v : Validator) :
    (penalize e v).1.address = v.address := by
  rw [penalize]
  split
  · rfl
  · rfl

/-- **Slashing records.** For any records and known evidence of a manager, evidence is
answered honestly exactly when it is refused, or names the validator it is held against and
is not of downtime with a stake of a thousand or more. -/
theorem submitEvidence_honest_iff (C : Crypto) (records : List SlashingRecord)
    (evidenceHashes : Column H256 Bool) (now slashedAt : UInt64) (e : SlashingEvidence)
    (v : Validator) :
    let m : SlashingManager := { SlashingManager.new with records, evidenceHashes }
    m.Honest C now slashedAt e v ↔ (m.Accepts C e →
      e.validator = v.address ∧ (e.offense = .downtime → v.selfStake < 1000)) := by
  intro m
  by_cases hacc : m.Accepts C e
  · have hok := submitEvidence_eq hacc now slashedAt v
    dsimp only at hok
    obtain ⟨hstake, haddress⟩ := confine_frame e now (penalize e v).1
    constructor
    · intro h _
      obtain ⟨_, _, hreports⟩ := h.2 _ _ _ hok
      have hnamed : e.validator = _ := hreports.named
      have htaken := hreports.taken
      rw [hstake] at htaken
      exact ⟨hnamed.trans hreports.punished, (penalize_taken_iff e v).mp htaken⟩
    · intro h
      obtain ⟨hname, hdown⟩ := h hacc
      refine ⟨fun err herr => ?_, fun m' v' r hr => ?_⟩
      · rw [hok] at herr
        cases herr
      · rw [SlashingOp.apply, hok]
        rw [hok] at hr
        cases hr
        refine ⟨rfl, rfl, ?_, ?_, ?_, haddress.trans (penalize_address e v)⟩
        · rw [hstake]
          exact (penalize_taken_iff e v).mpr hdown
        · -- the reporter gets five percent
          obtain ⟨hshare, hle⟩ := toNat_share_le (penalize e v).2 5 (by omega)
          refine UInt64.le_iff_toNat_le.mpr ?_
          show (mulDiv (penalize e v).2.toNat 5 100).toNat ≤ _
          rw [hshare]
          exact hle
        · rw [haddress, penalize_address]
          exact hname
  · obtain ⟨err, herr⟩ := submitEvidence_of_not_accepts hacc now slashedAt v
    refine iff_of_true ⟨fun err' _ => ?_, fun m' v' r hr => ?_⟩ fun h => absurd h hacc
    · rw [SlashingOp.apply, herr]
      exact ⟨rfl, rfl⟩
    · rw [herr] at hr
      cases hr

/-- The active validator of the tests is reported offline: a thousandth of its stake is in
the record, and all of it still with the validator. -/
theorem downtime_takes_nothing :
    (∃ m' v' r, SlashingManager.new.submitEvidence SlashingOp.evidenceCrypto 1000 1000
        SlashingOp.downtimeEvidence SlashingOp.caughtValidator = .ok (m', v', r) ∧
      r.amountSlashed = 1000000000 ∧ r.reporterReward = 50000000 ∧
      v'.selfStake = SlashingOp.caughtValidator.selfStake) ∧
    ¬ SlashingManager.new.Honest SlashingOp.evidenceCrypto 1000 1000
      SlashingOp.downtimeEvidence SlashingOp.caughtValidator := by
  have hacc : SlashingManager.new.Accepts SlashingOp.evidenceCrypto SlashingOp.downtimeEvidence := by
    decide
  have hok := submitEvidence_eq hacc 1000 1000 SlashingOp.caughtValidator
  dsimp only at hok
  refine ⟨⟨_, _, _, hok, by decide, by decide, by decide⟩, fun h => ?_⟩
  have htaken := (h.2 _ _ _ hok).2.2.taken
  revert htaken
  decide

end SlashingManager

end Pyrax.Staking
