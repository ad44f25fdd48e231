import Mathlib.Algebra.Order.Ring.Nat
import Pyrax.Base.Word
import Pyrax.Tokenomics.Allocation

/-!
# Mining rewards

`MiningRewards` of `pyrax-node/src/tokenomics/emission.rs`. A block rewards the ASIC miner
out of stream A and the GPU miner out of stream B, each with an initial reward that is
halved every 21 million blocks, up to what is left of the stream's allocation.

The cap holds over every sequence of blocks, whatever their heights: what is returned is
what the counters count, and they stay within the allocations (`Within`). The halving does
not go on for ever. It is a shift by the epoch, and a shift of a `u64` takes its count
modulo 64: in epoch 64 the reward is the initial one again. The law holds below that, and
later only where the shifted reward is zero or nothing is left (`emission_iff`).
-/

namespace Pyrax.Tokenomics

open Base Word

def MINING_REWARDS_ALLOCATION : UInt64 := 35000000000 * DECIMALS

def HALVING_INTERVAL_BLOCKS : UInt64 := 21000000

def INITIAL_BLOCK_REWARD : UInt64 := 1666 * DECIMALS

/-- The totals of the two streams are left out: nothing writes them. -/
structure MiningStats where
  blocksProcessed : UInt64
  totalEmitted : UInt64
  deriving DecidableEq

structure MiningRewards where
  totalAllocation : UInt64
  streamAAllocation : UInt64
  streamBAllocation : UInt64
  streamAEmitted : UInt64
  streamBEmitted : UInt64
  currentHeight : UInt64
  halvingInterval : UInt64
  initialStreamAReward : UInt64
  initialStreamBReward : UInt64
  blocksMined : UInt64
  stats : MiningStats
  deriving DecidableEq

structure BlockReward where
  height : UInt64
  streamAReward : UInt64
  streamBReward : UInt64
  streamAMiner : Option Address
  streamBMiner : Option Address
  totalReward : UInt64
  epoch : UInt32
  deriving DecidableEq

/-- The arguments of a call of `process_block`. -/
structure MinedBlock where
  height : UInt64
  asicMiner : Option Address
  gpuMiner : Option Address
  deriving DecidableEq

/-- `initial >> halvings` for the halvings up to `height`, capped at what remains. The count
of the shift is taken modulo 64, as in the release profile. -/
def halvedReward (initial interval allocation emitted height : UInt64) : UInt64 :=
  let halvings := (height / interval).toUInt32
  min (initial >>> halvings.toUInt64) (saturatingSub allocation emitted)

namespace MiningRewards

def new : MiningRewards :=
  let streamA := mulDiv MINING_REWARDS_ALLOCATION.toNat 60 100
  let initialA := mulDiv INITIAL_BLOCK_REWARD.toNat 60 100
  { totalAllocation := MINING_REWARDS_ALLOCATION
    streamAAllocation := streamA
    streamBAllocation := MINING_REWARDS_ALLOCATION - streamA
    streamAEmitted := 0
    streamBEmitted := 0
    currentHeight := 0
    halvingInterval := HALVING_INTERVAL_BLOCKS
    initialStreamAReward := initialA
    initialStreamBReward := INITIAL_BLOCK_REWARD - initialA
    blocksMined := 0
    stats := ⟨0, 0⟩ }

def currentEpoch (m : MiningRewards) : UInt32 := (m.currentHeight / m.halvingInterval).toUInt32

def streamAReward (m : MiningRewards) (height : UInt64) : UInt64 :=
  halvedReward m.initialStreamAReward m.halvingInterval m.streamAAllocation m.streamAEmitted height

def streamBReward (m : MiningRewards) (height : UInt64) : UInt64 :=
  halvedReward m.initialStreamBReward m.halvingInterval m.streamBAllocation m.streamBEmitted height

def processBlock (m : MiningRewards) (b : MinedBlock) : MiningRewards × BlockReward :=
  let m := { m with currentHeight := b.height, blocksMined := m.blocksMined + 1 }
  let streamA := if b.asicMiner.isSome then m.streamAReward b.height else 0
  let m := { m with streamAEmitted := m.streamAEmitted + streamA }
  let streamB := if b.gpuMiner.isSome then m.streamBReward b.height else 0
  let m := { m with streamBEmitted := m.streamBEmitted + streamB }
  let total := streamA + streamB
  let m := { m with stats := ⟨m.stats.blocksProcessed + 1, m.stats.totalEmitted + total⟩ }
  (m, ⟨b.height, streamA, streamB, b.asicMiner, b.gpuMiner, total, m.currentEpoch⟩)

/-- The blocks one after the other, with what is returned for them. -/
def run (m : MiningRewards) : List MinedBlock → MiningRewards × List BlockReward
  | [] => (m, [])
  | b :: blocks =>
    let (m, reward) := m.processBlock b
    let (m, rewards) := run m blocks
    (m, reward :: rewards)

end MiningRewards

/-! ## The cap -/

/-- The epoch of a height, not narrowed. -/
def epochOf (interval height : UInt64) : Nat := height.toNat / interval.toNat

/-- The reward in numbers: the epoch counts modulo 64. -/
theorem toNat_halvedReward (initial interval allocation emitted height : UInt64) :
    (halvedReward initial interval allocation emitted height).toNat
      = min (initial.toNat / 2 ^ (epochOf interval height % 64))
        (allocation.toNat - emitted.toNat) := by
  have hcount : (height / interval).toUInt32.toUInt64.toNat % 64 = epochOf interval height % 64 := by
    rw [UInt32.toNat_toUInt64, UInt64.toNat_toUInt32, UInt64.toNat_div]
    exact Nat.mod_mod_of_dvd _ (by decide)
  show (min (initial >>> (height / interval).toUInt32.toUInt64)
    (saturatingSub allocation emitted)).toNat = _
  rw [toNat_min, toNat_saturatingSub, UInt64.toNat_shiftRight, hcount, Nat.shiftRight_eq_div_pow]

/-- What a stream emits is within what is left of it, so its counter is exact. -/
theorem toNat_emitted_add {allocation emitted reward : UInt64}
    (h : emitted.toNat ≤ allocation.toNat)
    (hreward : reward.toNat ≤ allocation.toNat - emitted.toNat) :
    (emitted + reward).toNat = emitted.toNat + reward.toNat ∧
      (emitted + reward).toNat ≤ allocation.toNat := by
  have hlt := allocation.toNat_lt
  have hsum : (emitted + reward).toNat = emitted.toNat + reward.toNat :=
    toNat_add_of_lt (by omega)
  exact ⟨hsum, by omega⟩

namespace MiningRewards

/-- The counters are within the allocations. -/
structure Within (m : MiningRewards) : Prop where
  streamA : m.streamAEmitted.toNat ≤ m.streamAAllocation.toNat
  streamB : m.streamBEmitted.toNat ≤ m.streamBAllocation.toNat

theorem within_new : Within new := ⟨by decide, by decide⟩

/-- What a block leaves alone. -/
structure SameTerms (m m' : MiningRewards) : Prop where
  streamA : m'.streamAAllocation = m.streamAAllocation
  streamB : m'.streamBAllocation = m.streamBAllocation
  interval : m'.halvingInterval = m.halvingInterval
  initialA : m'.initialStreamAReward = m.initialStreamAReward
  initialB : m'.initialStreamBReward = m.initialStreamBReward

/-- What one block does: the counters take up what is returned. -/
theorem processBlock_emits {m : MiningRewards} (h : m.Within) (b : MinedBlock) :
    SameTerms m (m.processBlock b).1 ∧ (m.processBlock b).1.Within ∧
      (m.processBlock b).1.streamAEmitted.toNat
        = m.streamAEmitted.toNat + (m.processBlock b).2.streamAReward.toNat ∧
      (m.processBlock b).1.streamBEmitted.toNat
        = m.streamBEmitted.toNat + (m.processBlock b).2.streamBReward.toNat := by
  have hstreamA : (if b.asicMiner.isSome then m.streamAReward b.height else 0).toNat
      ≤ m.streamAAllocation.toNat - m.streamAEmitted.toNat := by
    split
    · rw [streamAReward, toNat_halvedReward]
      exact min_le_right _ _
    · exact Nat.zero_le _
  have hstreamB : (if b.gpuMiner.isSome then m.streamBReward b.height else 0).toNat
      ≤ m.streamBAllocation.toNat - m.streamBEmitted.toNat := by
    split
    · rw [streamBReward, toNat_halvedReward]
      exact min_le_right _ _
    · exact Nat.zero_le _
  obtain ⟨hsumA, hleA⟩ := toNat_emitted_add h.streamA hstreamA
  obtain ⟨hsumB, hleB⟩ := toNat_emitted_add h.streamB hstreamB
  exact ⟨⟨rfl, rfl, rfl, rfl, rfl⟩, ⟨hleA, hleB⟩, hsumA, hsumB⟩

/-- Over a run the counters count exactly what is returned. -/
theorem run_emits {m : MiningRewards} (h : m.Within) (blocks : List MinedBlock) :
    SameTerms m (m.run blocks).1 ∧ (m.run blocks).1.Within ∧
      (m.run blocks).1.streamAEmitted.toNat
        = m.streamAEmitted.toNat + ((m.run blocks).2.map (·.streamAReward.toNat)).sum ∧
      (m.run blocks).1.streamBEmitted.toNat
        = m.streamBEmitted.toNat + ((m.run blocks).2.map (·.streamBReward.toNat)).sum := by
  induction blocks generalizing m with
  | nil => exact ⟨⟨rfl, rfl, rfl, rfl, rfl⟩, h, rfl, rfl⟩
  | cons b blocks ih =>
    obtain ⟨hterms, hwithin, hstreamA, hstreamB⟩ := processBlock_emits h b
    obtain ⟨hterms', hwithin', hstreamA', hstreamB'⟩ := ih hwithin
    rw [run]
    refine ⟨⟨hterms'.streamA.trans hterms.streamA, hterms'.streamB.trans hterms.streamB,
      hterms'.interval.trans hterms.interval, hterms'.initialA.trans hterms.initialA,
      hterms'.initialB.trans hterms.initialB⟩, hwithin', ?_, ?_⟩
    · simp only [List.map_cons, List.sum_cons]
      omega
    · simp only [List.map_cons, List.sum_cons]
      omega

end MiningRewards

/-! ## The halving -/

/-- A smaller shift leaves more, unless nothing. -/
theorem div_two_pow_lt {n i j : Nat} (hij : i < j) (h : n / 2 ^ i ≠ 0) :
    n / 2 ^ j < n / 2 ^ i := by
  have hsplit : n / 2 ^ j = n / 2 ^ i / 2 ^ (j - i) := by
    rw [Nat.div_div_eq_div_mul, ← Nat.pow_add, Nat.add_sub_cancel' hij.le]
  rw [hsplit]
  exact Nat.div_lt_self (Nat.pos_of_ne_zero h) (Nat.one_lt_two_pow (by omega))

/-- When the reward of the second epoch is no more than that of the first: the count of the
shift is no smaller, or nothing is left of the reward, or the first is all that remains. -/
def Falls (initial remaining e₁ e₂ : Nat) : Prop :=
  e₁ % 64 ≤ e₂ % 64 ∨ initial / 2 ^ (e₂ % 64) = 0 ∨ remaining ≤ initial / 2 ^ (e₁ % 64)

theorem falls_iff (initial remaining e₁ e₂ : Nat) :
    min (initial / 2 ^ (e₂ % 64)) remaining ≤ min (initial / 2 ^ (e₁ % 64)) remaining ↔
      Falls initial remaining e₁ e₂ := by
  unfold Falls
  rcases Nat.lt_or_ge (e₂ % 64) (e₁ % 64) with hlt | hle
  · by_cases hzero : initial / 2 ^ (e₂ % 64) = 0
    · rw [hzero]
      simp
    · have hless := div_two_pow_lt hlt hzero
      omega
  · have hmono : initial / 2 ^ (e₂ % 64) ≤ initial / 2 ^ (e₁ % 64) :=
      Nat.div_le_div_left (Nat.pow_le_pow_right Nat.two_pos hle) (Nat.two_pow_pos _)
    omega

/-- Up to the 64th halving the law holds. -/
theorem falls_of_lt {initial remaining e₁ e₂ : Nat} (hle : e₁ ≤ e₂) (hlt : e₂ < 64) :
    Falls initial remaining e₁ e₂ := by
  left
  rw [Nat.mod_eq_of_lt hlt, Nat.mod_eq_of_lt (Nat.lt_of_le_of_lt hle hlt)]
  exact hle

namespace MiningRewards

variable (m : MiningRewards)

/-- What is left of the streams. -/
def remainingA : Nat := m.streamAAllocation.toNat - m.streamAEmitted.toNat

def remainingB : Nat := m.streamBAllocation.toNat - m.streamBEmitted.toNat

/-- The number of halvings up to a height. -/
def halvings (height : UInt64) : Nat := height.toNat / 21000000

/-- The law of halving for a stream with this reward by height: it holds for the first 64
epochs, and for other pairs of heights exactly where the shifts fall. -/
structure HalvesExactly (reward : UInt64 → UInt64) (initial remaining : Nat) : Prop where
  early : ∀ h₁ h₂, h₁ ≤ h₂ → halvings h₂ < 64 → reward h₂ ≤ reward h₁
  falls_iff : ∀ h₁ h₂, h₁ ≤ h₂ →
    (reward h₂ ≤ reward h₁ ↔ Falls initial remaining (halvings h₁) (halvings h₂))
  ends_iff : ∀ h, 64 ≤ halvings h →
    (reward h = 0 ↔ initial / 2 ^ (halvings h % 64) = 0 ∨ remaining = 0)

theorem halvesExactly (initial allocation emitted : UInt64) :
    HalvesExactly (halvedReward initial HALVING_INTERVAL_BLOCKS allocation emitted)
      initial.toNat (allocation.toNat - emitted.toNat) := by
  have hreward : ∀ h, (halvedReward initial HALVING_INTERVAL_BLOCKS allocation emitted h).toNat
      = min (initial.toNat / 2 ^ (halvings h % 64)) (allocation.toNat - emitted.toNat) :=
    toNat_halvedReward initial HALVING_INTERVAL_BLOCKS allocation emitted
  have hiff : ∀ h₁ h₂, (halvedReward initial HALVING_INTERVAL_BLOCKS allocation emitted h₂
        ≤ halvedReward initial HALVING_INTERVAL_BLOCKS allocation emitted h₁ ↔
      Falls initial.toNat (allocation.toNat - emitted.toNat) (halvings h₁) (halvings h₂)) := by
    intro h₁ h₂
    rw [UInt64.le_iff_toNat_le, hreward, hreward]
    exact falls_iff _ _ _ _
  refine ⟨?_, fun h₁ h₂ _ => hiff h₁ h₂, ?_⟩
  · intro h₁ h₂ hle hlt
    exact (hiff h₁ h₂).mpr
      (falls_of_lt (Nat.div_le_div_right (UInt64.le_iff_toNat_le.mp hle)) hlt)
  · intro h _
    rw [← UInt64.toNat_inj, hreward]
    show min _ _ = 0 ↔ _
    exact Nat.min_eq_zero_iff

/-- **The cap and the halving.** After every sequence of blocks the rewards returned add up
to the counters, which are within the allocations, and the rewards by height fall exactly
where their shifts do. -/
theorem emission_iff (blocks : List MinedBlock) :
    let m := (new.run blocks).1
    let rewards := (new.run blocks).2
    ((rewards.map (·.streamAReward.toNat)).sum = m.streamAEmitted.toNat ∧
      m.streamAEmitted ≤ m.streamAAllocation) ∧
    ((rewards.map (·.streamBReward.toNat)).sum = m.streamBEmitted.toNat ∧
      m.streamBEmitted ≤ m.streamBAllocation) ∧
    HalvesExactly m.streamAReward m.initialStreamAReward.toNat m.remainingA ∧
    HalvesExactly m.streamBReward m.initialStreamBReward.toNat m.remainingB := by
  intro m rewards
  obtain ⟨hterms, hwithin, hstreamA, hstreamB⟩ := run_emits within_new blocks
  have hinterval : m.halvingInterval = HALVING_INTERVAL_BLOCKS := hterms.interval
  refine ⟨⟨?_, UInt64.le_iff_toNat_le.mpr hwithin.streamA⟩,
    ⟨?_, UInt64.le_iff_toNat_le.mpr hwithin.streamB⟩, ?_, ?_⟩
  · exact (hstreamA.trans (Nat.zero_add _)).symm
  · exact (hstreamB.trans (Nat.zero_add _)).symm
  · have h := halvesExactly m.initialStreamAReward m.streamAAllocation m.streamAEmitted
    rw [← hinterval] at h
    exact h
  · have h := halvesExactly m.initialStreamBReward m.streamBAllocation m.streamBEmitted
    rw [← hinterval] at h
    exact h

/-- The last epoch before the 64th halving has no reward, the one after it the first. -/
theorem reward_returns :
    new.streamAReward (63 * 21000000) = 0 ∧ new.streamBReward (63 * 21000000) = 0 ∧
      new.streamAReward (64 * 21000000) = 99960000000 ∧
      new.streamBReward (64 * 21000000) = 66640000000 := by
  decide +kernel

end MiningRewards

end Pyrax.Tokenomics
