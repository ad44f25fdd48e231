import Pyrax.Evm.Chain

/-!
# The base fee

`calculate_base_fee` of `pyrax-node/src/evm/chain.rs`. A parent that used its gas target
hands its base fee on; above the target the fee rises by up to an eighth, below it falls by
up to an eighth, in proportion to the distance (`eip1559`).

The product of fee and distance is taken in 64 bits and stops at their end, so the rule is
the exact one where the product fits (`nextFee_exact`). The fee is monotone in the parent's
fee throughout: of one more unit of it no more than one is taken off. In the gas used it is
monotone for a fee that is not below the floor, and for no other, since the floor is put in
below the target only (`nextFee_mono_gas_iff`). No block of a chain has a fee below it
(`floor_le_of_run`).
-/

namespace Pyrax.Evm

open Base Word

/-- The base fee after one block, in exact numbers up to the last word. -/
def eip1559 (floor baseFee gasUsed gasTarget : Nat) : Nat :=
  if gasUsed = gasTarget then baseFee
  else if gasTarget < gasUsed then
    min (baseFee + max 1 (baseFee * (gasUsed - gasTarget) / gasTarget / 8)) (2 ^ 64 - 1)
  else max floor (baseFee - baseFee * (gasTarget - gasUsed) / gasTarget / 8)

namespace BaseFee

/-- `saturating_mul`, and the two divisions. -/
def step (baseFee distance gasTarget : Nat) : Nat :=
  min (baseFee * distance) (2 ^ 64 - 1) / gasTarget / 8

/-- What the source computes, in numbers. -/
def nextFee (floor baseFee gasUsed gasTarget : Nat) : Nat :=
  if gasUsed = gasTarget then baseFee
  else if gasTarget < gasUsed then
    min (baseFee + max 1 (step baseFee (gasUsed - gasTarget) gasTarget)) (2 ^ 64 - 1)
  else max floor (baseFee - step baseFee (gasTarget - gasUsed) gasTarget)

variable {floor b b₁ b₂ d d₁ d₂ g g₁ g₂ t : Nat}

theorem step_exact (h : b * d < 2 ^ 64) : step b d t = b * d / t / 8 := by
  rw [step, min_eq_left (by omega)]

theorem step_mono_distance (b t : Nat) (h : d₁ ≤ d₂) : step b d₁ t ≤ step b d₂ t := by
  have hmul : b * d₁ ≤ b * d₂ := Nat.mul_le_mul_left b h
  exact Nat.div_le_div_right (Nat.div_le_div_right (by omega))

theorem step_mono_fee (d t : Nat) (h : b₁ ≤ b₂) : step b₁ d t ≤ step b₂ d t := by
  have hmul : b₁ * d ≤ b₂ * d := Nat.mul_le_mul_right d h
  exact Nat.div_le_div_right (Nat.div_le_div_right (by omega))

/-- A fee higher by `b₂ - b₁` is taken down by no more than that in addition. -/
theorem step_le_add (ht : 0 < t) (hd : d ≤ t) (h : b₁ ≤ b₂) :
    step b₂ d t ≤ step b₁ d t + (b₂ - b₁) := by
  have hsplit : b₂ * d = b₁ * d + (b₂ - b₁) * d := by
    rw [← Nat.add_mul, Nat.add_sub_cancel' h]
  have hdist : (b₂ - b₁) * d ≤ (b₂ - b₁) * t := Nat.mul_le_mul_left _ hd
  have hcapped : min (b₂ * d) (2 ^ 64 - 1) ≤ min (b₁ * d) (2 ^ 64 - 1) + (b₂ - b₁) * t := by omega
  have hdiv := Nat.div_le_div_right (c := t) hcapped
  rw [Nat.add_mul_div_right _ _ ht] at hdiv
  unfold step
  omega

theorem nextFee_exact (h : b * (g - t) < 2 ^ 64) (h' : b * (t - g) < 2 ^ 64) :
    nextFee floor b g t = eip1559 floor b g t := by
  rw [nextFee, eip1559, step_exact h, step_exact h']

theorem nextFee_mono_fee (ht : 0 < t) (floor g : Nat) (h : b₁ ≤ b₂) :
    nextFee floor b₁ g t ≤ nextFee floor b₂ g t := by
  unfold nextFee
  split
  · exact h
  split
  · have hstep := step_mono_fee (g - t) t h
    omega
  · have hstep := step_le_add ht (Nat.sub_le t g) h
    omega

/-- Below the target the fee is at most the parent's, or the floor. -/
theorem nextFee_le (hfloor : floor ≤ b) (hg : g ≤ t) : nextFee floor b g t ≤ b := by
  unfold nextFee
  split
  · exact Nat.le_refl b
  split
  · omega
  · omega

theorem le_nextFee (hb : b < 2 ^ 64) (hg : t ≤ g) : b ≤ nextFee floor b g t := by
  unfold nextFee
  split
  · exact Nat.le_refl b
  split
  · omega
  · omega

theorem nextFee_mono_gas (hb : b < 2 ^ 64) (hfloor : floor ≤ b) (t : Nat) (h : g₁ ≤ g₂) :
    nextFee floor b g₁ t ≤ nextFee floor b g₂ t := by
  rcases Nat.lt_or_ge g₂ t with hbelow | habove
  · -- both are below the target
    have hstep := step_mono_distance b t (show t - g₂ ≤ t - g₁ by omega)
    unfold nextFee
    rw [if_neg (by omega), if_neg (by omega), if_neg (by omega), if_neg (by omega)]
    omega
  rcases Nat.lt_or_ge t g₁ with habove' | hbelow
  · have hstep := step_mono_distance b t (show g₁ - t ≤ g₂ - t by omega)
    unfold nextFee
    rw [if_neg (by omega), if_pos habove', if_neg (by omega), if_pos (by omega)]
    omega
  · exact (nextFee_le hfloor hbelow).trans (le_nextFee hb habove)

/-- A fee below the floor falls on the way to the target. -/
theorem nextFee_mono_gas_iff (hb : b < 2 ^ 64) (ht : 0 < t) :
    (∀ g₁ g₂, g₁ ≤ g₂ → nextFee floor b g₁ t ≤ nextFee floor b g₂ t) ↔ floor ≤ b := by
  constructor
  · intro hmono
    have hlast := hmono (t - 1) t (Nat.sub_le t 1)
    unfold nextFee at hlast
    rw [if_neg (by omega), if_neg (by omega), if_pos rfl] at hlast
    omega
  · intro hfloor g₁ g₂ h
    exact nextFee_mono_gas hb hfloor t h

theorem floor_le_nextFee (hb : b < 2 ^ 64) (hfloor : floor ≤ b) (g t : Nat) :
    floor ≤ nextFee floor b g t := by
  rcases Nat.lt_or_ge g t with hbelow | habove
  · unfold nextFee
    rw [if_neg (by omega), if_neg (by omega)]
    exact Nat.le_max_left _ _
  · exact hfloor.trans (le_nextFee hb habove)

end BaseFee

namespace BlockProducer

open BaseFee

variable {producer : BlockProducer} {parent : EvmBlock}

theorem toNat_baseFeeDelta (baseFee gasDelta gasTarget : UInt64) :
    (baseFeeDelta baseFee gasDelta gasTarget).toNat
      = step baseFee.toNat gasDelta.toNat gasTarget.toNat := by
  rw [baseFeeDelta, step, UInt64.toNat_ofNat']
  refine Nat.mod_eq_of_lt (Nat.lt_of_le_of_lt ((Nat.div_le_self _ _).trans (Nat.div_le_self _ _)) ?_)
  omega

/-- The source in numbers. -/
theorem calculateBaseFee_eq (producer : BlockProducer) (parent : EvmBlock)
    (hlimit : 2 ≤ parent.header.gasLimit) :
    ∃ fee, producer.calculateBaseFee parent = some fee ∧
      fee.toNat = nextFee producer.config.baseFeePerGas.toNat parent.header.baseFeePerGas.toNat
        parent.header.gasUsed.toNat (parent.header.gasLimit.toNat / 2) := by
  have htarget : (parent.header.gasLimit / 2).toNat = parent.header.gasLimit.toNat / 2 :=
    UInt64.toNat_div _ _
  have hpos : 0 < parent.header.gasLimit.toNat / 2 :=
    Nat.div_pos (UInt64.le_iff_toNat_le.mp hlimit) Nat.two_pos
  rw [← htarget] at hpos ⊢
  unfold calculateBaseFee nextFee
  generalize parent.header.gasLimit / 2 = t at hpos
  generalize parent.header.gasUsed = g
  dsimp only
  by_cases heq : g = t
  · exact ⟨_, if_pos heq, (if_pos (congrArg UInt64.toNat heq)).symm⟩
  have hne : g.toNat ≠ t.toNat := fun h => heq (UInt64.toNat_inj.mp h)
  rw [if_neg heq, if_neg hne]
  by_cases hlt : t < g
  · have hlt' : t.toNat < g.toNat := UInt64.lt_iff_toNat_lt.mp hlt
    have hzero : t ≠ 0 := fun h => by
      rw [h] at hpos
      exact absurd hpos (by decide)
    refine ⟨_, (if_pos hlt).trans (if_neg hzero), ?_⟩
    rw [if_pos hlt', toNat_saturatingAdd, toNat_max, toNat_baseFeeDelta,
      toNat_sub_of_le hlt'.le, max_comm]
    rfl
  · have hle : ¬ t.toNat < g.toNat := fun h => hlt (UInt64.lt_iff_toNat_lt.mpr h)
    refine ⟨_, if_neg hlt, ?_⟩
    rw [if_neg hle, toNat_max, toNat_saturatingSub, toNat_baseFeeDelta,
      toNat_sub_of_le (Nat.le_of_not_lt hle), max_comm]

/-- **The base fee.** For every parent with a gas limit of at least 2: the exact rule while
the product of fee and distance is below `2 ^ 64`; monotone in the parent's fee; monotone in
the gas used if the parent's fee is not below the floor, and then not below it itself. -/
theorem baseFee_follows (producer : BlockProducer) :
    (∀ parent : EvmBlock, 2 ≤ parent.header.gasLimit →
      ∃ fee, producer.calculateBaseFee parent = some fee ∧
        (parent.header.baseFeePerGas.toNat *
            (parent.header.gasUsed.toNat - parent.header.gasLimit.toNat / 2) < 2 ^ 64 →
          parent.header.baseFeePerGas.toNat *
            (parent.header.gasLimit.toNat / 2 - parent.header.gasUsed.toNat) < 2 ^ 64 →
          fee.toNat = eip1559 producer.config.baseFeePerGas.toNat
            parent.header.baseFeePerGas.toNat parent.header.gasUsed.toNat
            (parent.header.gasLimit.toNat / 2))) ∧
    (∀ (parent parent' : EvmBlock) (fee fee' : UInt64), 2 ≤ parent.header.gasLimit →
      parent'.header.gasLimit = parent.header.gasLimit →
      parent'.header.gasUsed = parent.header.gasUsed →
      parent.header.baseFeePerGas ≤ parent'.header.baseFeePerGas →
      producer.calculateBaseFee parent = some fee → producer.calculateBaseFee parent' = some fee' →
      fee ≤ fee') ∧
    (∀ (parent parent' : EvmBlock) (fee fee' : UInt64), 2 ≤ parent.header.gasLimit →
      parent'.header.gasLimit = parent.header.gasLimit →
      parent'.header.baseFeePerGas = parent.header.baseFeePerGas →
      producer.config.baseFeePerGas ≤ parent.header.baseFeePerGas →
      parent.header.gasUsed ≤ parent'.header.gasUsed →
      producer.calculateBaseFee parent = some fee → producer.calculateBaseFee parent' = some fee' →
      fee ≤ fee') := by
  refine ⟨?_, ?_, ?_⟩
  · intro parent hlimit
    obtain ⟨fee, hfee, hvalue⟩ := calculateBaseFee_eq producer parent hlimit
    refine ⟨fee, hfee, fun habove hbelow => ?_⟩
    rw [hvalue]
    exact nextFee_exact habove hbelow
  · intro parent parent' fee fee' hlimit hsame hused hle h h'
    obtain ⟨_, hfee, hvalue⟩ := calculateBaseFee_eq producer parent hlimit
    obtain ⟨_, hfee', hvalue'⟩ := calculateBaseFee_eq producer parent' (hsame ▸ hlimit)
    cases h.symm.trans hfee
    cases h'.symm.trans hfee'
    rw [UInt64.le_iff_toNat_le, hvalue, hvalue', hsame, hused]
    exact nextFee_mono_fee (Nat.div_pos (UInt64.le_iff_toNat_le.mp hlimit) Nat.two_pos) _ _
      (UInt64.le_iff_toNat_le.mp hle)
  · intro parent parent' fee fee' hlimit hsame hbase hfloor hle h h'
    obtain ⟨_, hfee, hvalue⟩ := calculateBaseFee_eq producer parent hlimit
    obtain ⟨_, hfee', hvalue'⟩ := calculateBaseFee_eq producer parent' (hsame ▸ hlimit)
    cases h.symm.trans hfee
    cases h'.symm.trans hfee'
    rw [UInt64.le_iff_toNat_le, hvalue, hvalue', hsame, hbase]
    exact nextFee_mono_gas parent.header.baseFeePerGas.toNat_lt
      (UInt64.le_iff_toNat_le.mp hfloor) _ (UInt64.le_iff_toNat_le.mp hle)

/-- A block of the gas limit of 30 million. -/
def feeParent (baseFee gasUsed : UInt64) : EvmBlock :=
  let genesis := EvmBlock.genesis .default 0
  { genesis with header := { genesis.header with baseFeePerGas := baseFee, gasUsed := gasUsed } }

def feeProducer : BlockProducer := new .default (Vector.replicate 20 0)

theorem baseFee_follows_full :
    ∃ fee, feeProducer.calculateBaseFee (feeParent 1000000000 30000000) = some fee ∧
      fee.toNat = eip1559 1000000000 1000000000 30000000 15000000 := by
  obtain ⟨fee, hfee, hexact⟩ :=
    (baseFee_follows feeProducer).1 (feeParent 1000000000 30000000) (by decide)
  exact ⟨fee, hfee, hexact (by decide) (by decide)⟩

/-- A product of `2 ^ 63 * 15000000` is cut off; and a fee of 1, which is below the floor,
stays where it is at the target and not below it. -/
theorem baseFee_astray :
    feeProducer.calculateBaseFee (feeParent (2 ^ 63) 30000000)
      = some (2 ^ 63 + 153722867280) ∧
    eip1559 1000000000 (2 ^ 63) 30000000 15000000 = 2 ^ 63 + 2 ^ 60 ∧
    feeProducer.calculateBaseFee (feeParent 1 14999999) = some 1000000000 ∧
    feeProducer.calculateBaseFee (feeParent 1 15000000) = some 1 := by
  decide +kernel

/-! ## The floor -/

/-- A fee that is not below the floor is followed by one that is not. -/
theorem floor_le_of_calculateBaseFee {fee : UInt64}
    (hfloor : producer.config.baseFeePerGas ≤ parent.header.baseFeePerGas)
    (h : producer.calculateBaseFee parent = some fee) : producer.config.baseFeePerGas ≤ fee := by
  by_cases hlimit : 2 ≤ parent.header.gasLimit
  · obtain ⟨_, hfee, hvalue⟩ := calculateBaseFee_eq producer parent hlimit
    cases h.symm.trans hfee
    rw [UInt64.le_iff_toNat_le] at hfloor ⊢
    rw [hvalue]
    exact floor_le_nextFee parent.header.baseFeePerGas.toNat_lt hfloor _ _
  · -- with a target of zero the fee is handed on, or the division panics
    have hzero : parent.header.gasLimit / 2 = 0 := by
      rw [UInt64.le_iff_toNat_le] at hlimit
      rw [← UInt64.toNat_inj, UInt64.toNat_div]
      show parent.header.gasLimit.toNat / 2 = 0
      have hlt : parent.header.gasLimit.toNat < 2 := Nat.lt_of_not_le hlimit
      omega
    unfold calculateBaseFee at h
    rw [hzero] at h
    dsimp only at h
    split at h
    · cases h
      exact hfloor
    next hne =>
    split at h
    · cases h
    next hlt =>
    refine absurd ?_ hlt
    rw [UInt64.lt_iff_toNat_lt]
    exact Nat.pos_of_ne_zero fun hgas => hne (UInt64.toNat_inj.mp hgas)

end BlockProducer

namespace ChainOp

/-- No block has a base fee below the floor. -/
def Floored (config : ChainConfig) (chain : EvmChain) : Prop :=
  chain.producer.config = config ∧ ∀ n block, chain.getBlock n = some block →
    config.baseFeePerGas ≤ block.header.baseFeePerGas

variable {K : Curves} {C : Crypto} {config : ChainConfig} {chain chain' : EvmChain}

theorem config_apply {op : ChainOp} (hop : op.apply K C chain = some chain') :
    chain'.producer.config = chain.producer.config := by
  cases op with
  | submitTransaction tx =>
    rcases apply_submit hop with rfl | rfl
    · rfl
    · rfl
  | produceNextBlock now =>
    cases hlatest : chain.latestBlock with
    | none => exact congrArg (·.producer.config) (apply_produce_of_none hlatest hop)
    | some parent =>
      obtain ⟨baseFee, p, -, -, rfl⟩ := apply_produce hlatest hop
      rfl

theorem floored_apply (h : Floored config chain) {op : ChainOp}
    (hop : op.apply K C chain = some chain') : Floored config chain' := by
  refine ⟨(config_apply hop).trans h.1, fun n block hblock => ?_⟩
  rcases getBlock_of_apply hop hblock with hold | ⟨now, parent, baseFee, p, -, hparent, hfee, -, rfl⟩
  · exact h.2 n block hold
  · have hfloor := h.2 _ parent hparent
    rw [← h.1] at hfloor ⊢
    exact BlockProducer.floor_le_of_calculateBaseFee hfloor hfee

/-- And so it is in every state of a chain. -/
theorem floor_le_of_run {coinbase : Address} {timestamp : UInt64} {ops : List ChainOp}
    (hrun : run K C (.new config coinbase timestamp) ops = some chain) :
    Floored config chain := by
  induction ops using List.reverseRecOn generalizing chain with
  | nil =>
    cases hrun
    refine ⟨rfl, fun n block hblock => ?_⟩
    obtain ⟨-, rfl⟩ := EvmChain.getBlock_new hblock
    exact UInt64.le_refl _
  | append_singleton ops op ih =>
    rw [run_snoc] at hrun
    obtain ⟨chain₁, hrun₁, happly⟩ := Option.bind_eq_some_iff.mp hrun
    exact floored_apply (ih hrun₁) happly

end ChainOp

end Pyrax.Evm
