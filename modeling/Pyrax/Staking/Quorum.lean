import Mathlib.Algebra.BigOperators.Group.Finset.Basic
import Pyrax.Staking.Finality

/-!
# What a justified checkpoint rests on

A checkpoint should be justified only by validators who hold, by the set it was
proposed with, the power of a quorum (`Backed`).

`add_vote` of `staking/checkpoint.rs` looks the voter up in the set, but adds the
power the vote names. One member can therefore justify a checkpoint alone, with a
power it does not have. `justified_backed`: as long as no counted vote names more
power than its voter holds, whatever is justified has its quorum. That the sum
wraps does no harm: it can only come out too small.
-/

namespace Pyrax.Staking

open Base CheckpointManager

/-- The power the recorded voters hold by the set, each once. -/
def Checkpoint.realPower (c : Checkpoint) (set : ValidatorSet) : Nat :=
  ∑ voter ∈ c.votes.keys, (set.getVotingPower voter).toNat

/-- A justified checkpoint has the quorum of the set behind it. -/
def Checkpoint.Backed (c : Checkpoint) (set : ValidatorSet) : Prop :=
  c.status = .justified → set.quorum.toNat ≤ c.realPower set

/-- Votes for the checkpoint at one height, given to the manager one by one. -/
def castVotes (C : Crypto) (set : ValidatorSet) (height : UInt64) (m : CheckpointManager)
    (votes : List CheckpointVote) : CheckpointManager :=
  CheckpointOp.run C m (votes.map fun vote => .addVote height vote set)

/-- The vote would be counted, and names more than its voter has. -/
def Overstates (C : Crypto) (set : ValidatorSet) (height : UInt64) (m : CheckpointManager)
    (vote : CheckpointVote) : Prop :=
  vote.voter ∈ set.validators ∧
    (∃ c, m.checkpoints.lookup height = some c ∧ c.Admits C vote) ∧
    set.getVotingPower vote.voter < vote.votingPower

variable {C : Crypto} {set : ValidatorSet} {height : UInt64} {m m₀ : CheckpointManager}
  {c : Checkpoint} {vote : CheckpointVote} {votes : List CheckpointVote}

theorem castVotes_snoc : castVotes C set height m (votes ++ [vote])
    = CheckpointOp.apply C (castVotes C set height m votes) (.addVote height vote set) := by
  rw [castVotes, List.map_append]
  exact CheckpointOp.run_snoc

/-- What carries it: the count never exceeds what the voters hold. -/
structure Checkpoint.Honest (c : Checkpoint) (set : ValidatorSet) : Prop where
  quorum : c.quorum = set.quorum
  counted : c.votePower.toNat ≤ c.realPower set
  backed : c.Backed set

theorem realPower_count (set : ValidatorSet) (h : vote.voter ∉ c.votes) :
    (c.count vote).realPower set = (set.getVotingPower vote.voter).toNat + c.realPower set := by
  have hkeys : (c.count vote).votes.keys = insert vote.voter c.votes.keys :=
    Column.keys_insert ..
  rw [Checkpoint.realPower, hkeys, Finset.sum_insert (Finmap.mem_keys.not.mpr h)]
  rfl

theorem honest_count (h : c.Honest set) (hnew : vote.voter ∉ c.votes)
    (hpower : vote.votingPower ≤ set.getVotingPower vote.voter) : (c.count vote).Honest set := by
  have hreal := realPower_count set hnew
  have hadd : (c.votePower + vote.votingPower).toNat
      ≤ c.votePower.toNat + vote.votingPower.toNat := by
    rw [UInt64.toNat_add]
    exact Nat.mod_le _ _
  have hcounted : (c.votePower + vote.votingPower).toNat ≤ (c.count vote).realPower set := by
    have hle := UInt64.le_iff_toNat_le.mp hpower
    have hold := h.counted
    omega
  refine ⟨h.quorum, hcounted, ?_⟩
  intro hs
  rw [← h.quorum]
  by_cases hq : c.quorum ≤ c.votePower + vote.votingPower
  · exact (UInt64.le_iff_toNat_le.mp hq).trans hcounted
  · -- not justified by this vote, so justified before it
    have hold : c.status = .justified := by
      rw [← hs]
      show c.status = if _ then _ else _
      rw [if_neg hq]
    have hbacked := h.backed hold
    rw [h.quorum, hreal]
    omega

/-- The checkpoint at the height is there and honestly counted. -/
def HonestAt (set : ValidatorSet) (height : UInt64) (m : CheckpointManager) : Prop :=
  ∃ c, m.checkpoints.lookup height = some c ∧ c.Honest set

theorem honestAt_propose {now epoch : UInt64} {blockHash stateRoot : H256} {proposer : Address}
    (h : m.proposeCheckpoint C now height epoch blockHash stateRoot set proposer = .ok (m₀, c)) :
    HonestAt set height m₀ := by
  obtain ⟨_, _, hs, hvotes, hpower, hquorum, hcp, _⟩ := propose_ok h
  refine ⟨c, by rw [hcp, Finmap.lookup_insert], hquorum, ?_, ?_⟩
  · rw [hpower]
    exact Nat.zero_le _
  · intro hj
    rw [hs] at hj
    cases hj

/-- **One vote** that does not overstate. -/
theorem honestAt_addVote (h : HonestAt set height m) (hvote : ¬ Overstates C set height m vote) :
    HonestAt set height (CheckpointOp.apply C m (.addVote height vote set)) := by
  rw [CheckpointOp.apply]
  split
  · next m' added hok =>
    obtain ⟨hmem, c, hc, hcp, _⟩ := addVote_ok hok
    obtain ⟨c', hc', hhonest⟩ := h
    cases hc.symm.trans hc'
    refine ⟨_, by rw [hcp, Finmap.lookup_insert], ?_⟩
    by_cases hadm : c.Admits C vote
    · rw [Checkpoint.addVote_of_admits hadm]
      refine honest_count hhonest hadm.2.2 ?_
      exact UInt64.not_lt.mp fun hlt => hvote ⟨hmem, ⟨c, hc, hadm⟩, hlt⟩
    · rw [Checkpoint.addVote_of_not_admits hadm]
      exact hhonest
  · exact h

/-- **Justification.** A checkpoint is proposed with a set, and votes are given for
it with that set, in any order and with any powers. If none that is counted
overstates, then after each of them the checkpoint is backed. -/
theorem justified_backed (C : Crypto) (set : ValidatorSet) (m m₀ : CheckpointManager)
    (now height epoch : UInt64) (blockHash stateRoot : H256) (proposer : Address) (c₀ : Checkpoint)
    (votes : List CheckpointVote)
    (hpropose : m.proposeCheckpoint C now height epoch blockHash stateRoot set proposer
      = .ok (m₀, c₀))
    (hvotes : ∀ pre vote, pre ++ [vote] <+: votes →
      ¬ Overstates C set height (castVotes C set height m₀ pre) vote) :
    ∀ pre, pre <+: votes → ∃ c,
      (castVotes C set height m₀ pre).checkpoints.lookup height = some c ∧ c.Backed set := by
  have hrun : ∀ pre, pre <+: votes → HonestAt set height (castVotes C set height m₀ pre) := by
    refine forall_prefixes (honestAt_propose hpropose) fun pre vote hpre h => ?_
    rw [castVotes_snoc]
    exact honestAt_addVote h (hvotes pre vote hpre)
  intro pre hpre
  obtain ⟨c, hc, hhonest⟩ := hrun pre hpre
  exact ⟨c, hc, hhonest.backed⟩

/-- The checkpoint at 100 of the source's tests, and the manager that has it. -/
def checkpointAt100 : Checkpoint :=
  Checkpoint.new checkpointCrypto 0 100 1 ⟨Vector.replicate 32 1⟩ ⟨Vector.replicate 32 2⟩ hashAt0
    testSet (testAddress 1)

def proposedAt100 : CheckpointManager :=
  CheckpointOp.run checkpointCrypto testGenesis
    [.propose 0 100 1 ⟨Vector.replicate 32 1⟩ ⟨Vector.replicate 32 2⟩ testSet (testAddress 1)]

/-- All three vote with what they have, and the checkpoint is justified. -/
theorem justified_by_three :
    (∃ c, (castVotes checkpointCrypto testSet 100 proposedAt100 [testVote 1 hashAt100 100,
        testVote 2 hashAt100 100, testVote 3 hashAt100 100]).checkpoints.lookup 100 = some c ∧
      c.Backed testSet) ∧
    ((castVotes checkpointCrypto testSet 100 proposedAt100 [testVote 1 hashAt100 100,
        testVote 2 hashAt100 100, testVote 3 hashAt100 100]).checkpoints.lookup 100).map
      (fun c => (c.status, c.realPower testSet)) = some (.justified, 300) := by
  refine ⟨justified_backed checkpointCrypto testSet testGenesis proposedAt100 0 100 1
    ⟨Vector.replicate 32 1⟩ ⟨Vector.replicate 32 2⟩ (testAddress 1) checkpointAt100 _
    (by decide +kernel) ?_ _ List.prefix_rfl, by decide +kernel⟩
  intro pre vote hpre hover
  have hmem : vote ∈ [testVote 1 hashAt100 100, testVote 2 hashAt100 100,
      testVote 3 hashAt100 100] :=
    hpre.subset (List.mem_append_right _ (List.mem_singleton_self _))
  have hhonest : ∀ vote ∈ [testVote 1 hashAt100 100, testVote 2 hashAt100 100,
      testVote 3 hashAt100 100], ¬ testSet.getVotingPower vote.voter < vote.votingPower := by
    decide +kernel
  exact hhonest vote hmem hover.2.2

/-- One validator with a power of 100 votes with 1000: justified, at a quorum of 201. -/
theorem justified_by_one :
    ((castVotes checkpointCrypto testSet 100 proposedAt100
        [testVote 1 hashAt100 1000]).checkpoints.lookup 100).map
      (fun c => (c.status, c.realPower testSet, testSet.quorum.toNat))
      = some (.justified, 100, 201) := by
  decide +kernel

end Pyrax.Staking
