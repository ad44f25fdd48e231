import Pyrax.Types.Primitives
import Pyrax.Base.BigEndian

/-!
# Difficulty and target

The three functions of `pyrax-node/src/consensus/blake3_pow.rs` that a proof of work is
judged by. A target is a number of 256 bits written big-endian, a difficulty a `u64`,
and each is the other's quotient of `U256::MAX`: so much smaller than its square root, a
difficulty survives the way to its target and back (`target_exact`).
-/

namespace Pyrax

open Base

/-- `U256::from_big_endian`. -/
def H256.toNatBE (h : H256) : Nat := beNat h.asBytes

namespace Blake3Pow

/-- `meets_target`: the byte arrays are compared. -/
def meetsTarget (hash target : H256) : Bool := hash.le target

def difficultyToTarget (difficulty : UInt64) : H256 :=
  if difficulty = 0 then H256.fromSlice (List.replicate 32 0xff)
  else H256.ofNatBE ((2 ^ 256 - 1) / difficulty.toNat)

/-- `target_to_difficulty`, clamped to a `u64`. -/
def targetToDifficulty (target : H256) : UInt64 :=
  let target := target.toNatBE
  if target = 0 then 18446744073709551615
  else
    let difficulty := (2 ^ 256 - 1) / target
    if 18446744073709551615 < difficulty then 18446744073709551615 else UInt64.ofNat difficulty

end Blake3Pow

/-! ## Hashes as numbers -/

theorem H256.le_iff (a b : H256) : a.le b = true ↔ a.toNatBE ≤ b.toNatBE := by
  rw [H256.le, decide_eq_true_iff]
  exact le_iff_beNat_le (by rw [asBytes_length, asBytes_length])

theorem H256.lt_iff (a b : H256) : a.lt b = true ↔ a.toNatBE < b.toNatBE := by
  rw [H256.lt, decide_eq_true_iff]
  exact lt_iff_beNat_lt (by rw [asBytes_length, asBytes_length])

theorem H256.toNatBE_inj {a b : H256} (h : a.toNatBE = b.toNatBE) : a = b :=
  asBytes_inj (beNat_inj (by rw [asBytes_length, asBytes_length]) h)

theorem H256.asBytes_ofNatBE (n : Nat) : (H256.ofNatBE n).asBytes = beBytes 32 n := by
  refine List.ext_getElem (by simp) fun i h₁ h₂ => ?_
  rw [beBytes_getElem]
  simp [H256.ofNatBE, H256.asBytes]

theorem H256.toNatBE_ofNatBE {n : Nat} (h : n < 2 ^ 256) : (H256.ofNatBE n).toNatBE = n := by
  rw [H256.toNatBE, asBytes_ofNatBE, beNat_beBytes]
  exact Nat.mod_eq_of_lt h

namespace Blake3Pow

variable {d e : UInt64}

theorem difficultyToTarget_eq (d : UInt64) : difficultyToTarget d = Pyrax.difficultyToTarget d := by
  rw [difficultyToTarget, Pyrax.difficultyToTarget]
  split
  · decide
  · rfl

theorem toNatBE_difficultyToTarget (h : 1 ≤ d) :
    (difficultyToTarget d).toNatBE = (2 ^ 256 - 1) / d.toNat := by
  have hpos : 0 < d.toNat := UInt64.le_iff_toNat_le.mp h
  have hne : d ≠ 0 := fun hzero => by
    rw [hzero] at hpos
    exact Nat.lt_irrefl 0 hpos
  rw [difficultyToTarget, if_neg hne]
  refine H256.toNatBE_ofNatBE (Nat.lt_of_le_of_lt (Nat.div_le_self _ _) ?_)
  omega

/-- A difficulty comes back from its target. -/
theorem targetToDifficulty_difficultyToTarget (h : 1 ≤ d) :
    targetToDifficulty (difficultyToTarget d) = d := by
  have hpos : 0 < d.toNat := UInt64.le_iff_toNat_le.mp h
  have hlt : d.toNat < 2 ^ 64 := d.toNat_lt
  have hsquare : d.toNat * d.toNat ≤ 2 ^ 256 - 1 :=
    calc d.toNat * d.toNat ≤ 2 ^ 64 * 2 ^ 64 := Nat.mul_le_mul hlt.le hlt.le
      _ ≤ 2 ^ 256 - 1 := by omega
  have hback : (2 ^ 256 - 1) / ((2 ^ 256 - 1) / d.toNat) = d.toNat := div_div_cancel hpos hsquare
  have htarget : (2 ^ 256 - 1) / d.toNat ≠ 0 := by
    intro hzero
    rw [hzero, Nat.div_zero] at hback
    omega
  rw [targetToDifficulty, toNatBE_difficultyToTarget h]
  dsimp only
  rw [if_neg htarget, hback, if_neg (by omega), UInt64.ofNat_toNat]

/-- A higher difficulty has no higher target. -/
theorem toNatBE_antitone (h : 1 ≤ d) (hde : d ≤ e) :
    (difficultyToTarget e).toNatBE ≤ (difficultyToTarget d).toNatBE := by
  have hpos : 0 < d.toNat := UInt64.le_iff_toNat_le.mp h
  rw [toNatBE_difficultyToTarget h, toNatBE_difficultyToTarget (UInt64.le_trans h hde)]
  exact Nat.div_le_div_left (UInt64.le_iff_toNat_le.mp hde) hpos

/-- **Targets.** A difficulty is recovered from its target without error, targets fall as
difficulties rise, a hash meets a target when it is no greater as a number, and so a
higher difficulty accepts no hash that a lower one does not. -/
theorem target_exact (d e : UInt64) (hash target : H256) (hd : 1 ≤ d) (hde : d ≤ e) :
    targetToDifficulty (difficultyToTarget d) = d ∧
      Pyrax.difficultyToTarget d = difficultyToTarget d ∧
      (difficultyToTarget e).toNatBE ≤ (difficultyToTarget d).toNatBE ∧
      (meetsTarget hash target = true ↔ hash.toNatBE ≤ target.toNatBE) ∧
      (meetsTarget hash (difficultyToTarget e) = true →
        meetsTarget hash (difficultyToTarget d) = true) := by
  have hfalls := toNatBE_antitone hd hde
  refine ⟨targetToDifficulty_difficultyToTarget hd, (difficultyToTarget_eq d).symm, hfalls,
    H256.le_iff hash target, fun hmeets => ?_⟩
  have hle := (H256.le_iff hash _).mp hmeets
  exact (H256.le_iff hash _).mpr (Nat.le_trans hle hfalls)

/-- At the two ends of the difficulties that the source's test tries. -/
theorem target_exact_ends :
    targetToDifficulty (difficultyToTarget 1) = 1 ∧
      Pyrax.difficultyToTarget 1 = difficultyToTarget 1 ∧
      (difficultyToTarget 9223372036854775807).toNatBE ≤ (difficultyToTarget 1).toNatBE ∧
      (meetsTarget H256.zero H256.zero = true ↔ H256.zero.toNatBE ≤ H256.zero.toNatBE) ∧
      (meetsTarget H256.zero (difficultyToTarget 9223372036854775807) = true →
        meetsTarget H256.zero (difficultyToTarget 1) = true) :=
  target_exact 1 9223372036854775807 H256.zero H256.zero (by decide) (by decide)

end Blake3Pow

end Pyrax
