import Pyrax.Base.Records
import Pyrax.Base.Run
import Pyrax.Staking.Checkpoint

/-!
# Finality of checkpoints

Finality should not go back: the last finalized height never falls, a block once
final stays so, a finalized checkpoint is never touched again, and its parent is
finalized before it.

`finalize_checkpoint` of `staking/checkpoint.rs` asks only that the checkpoint is
justified, and then writes its height over `last_finalized`. Checkpoints are
justified in any order, so finalizing 200 and then 100 takes every block above
100 back. `finality_iff`: all of it holds along a run exactly when no call
finalizes a checkpoint ahead of its parent. What carries it is that the finalized
heights, being multiples of the interval and closed under going to the parent,
are all those up to the last one.
-/

namespace Pyrax.Staking

open Base

/-- A call on the manager, with its clock reading where it has one. -/
inductive CheckpointOp where
  | propose (now height epoch : UInt64) (blockHash stateRoot : H256) (set : ValidatorSet)
      (proposer : Address)
  | addVote (height : UInt64) (vote : CheckpointVote) (set : ValidatorSet)
  | finalize (now height : UInt64)

namespace CheckpointManager

/-- A finalized checkpoint stands at this height. -/
def Final (m : CheckpointManager) (height : UInt64) : Prop :=
  ∃ c, m.checkpoints.lookup height = some c ∧ c.status = .finalized

/-- A checkpoint above genesis is finalized only with its parent. -/
def ParentsFinal (m : CheckpointManager) : Prop :=
  ∀ height, m.Final height → height ≠ 0 → m.Final (height - CHECKPOINT_INTERVAL)

/-- Nothing final in `m` is taken back in `m'`. -/
structure Keeps (m m' : CheckpointManager) : Prop where
  last : m.lastFinalizedHeight ≤ m'.lastFinalizedHeight
  blocks : ∀ height, m.isFinalized height = true → m'.isFinalized height = true
  fixed : ∀ height c, m.checkpoints.lookup height = some c → c.status = .finalized →
    m'.checkpoints.lookup height = some c

theorem Keeps.refl (m : CheckpointManager) : Keeps m m :=
  ⟨UInt64.le_refl _, fun _ h => h, fun _ _ h _ => h⟩

theorem Keeps.trans {m₁ m₂ m₃ : CheckpointManager} (h : Keeps m₁ m₂) (h' : Keeps m₂ m₃) :
    Keeps m₁ m₃ where
  last := UInt64.le_trans h.last h'.last
  blocks height hf := h'.blocks height (h.blocks height hf)
  fixed height c hc hs := h'.fixed height c (h.fixed height c hc hs) hs

end CheckpointManager

namespace CheckpointOp

open CheckpointManager

/-- A refused call changes nothing. -/
def apply (C : Crypto) (m : CheckpointManager) : CheckpointOp → CheckpointManager
  | propose now height epoch blockHash stateRoot set proposer =>
    match m.proposeCheckpoint C now height epoch blockHash stateRoot set proposer with
    | .ok (m', _) => m'
    | .error _ => m
  | addVote height vote set =>
    match m.addVote C height vote set with
    | .ok (m', _) => m'
    | .error _ => m
  | finalize now height =>
    match m.finalizeCheckpoint now height with
    | .ok (m', _) => m'
    | .error _ => m

def run (C : Crypto) (m : CheckpointManager) (ops : List CheckpointOp) : CheckpointManager :=
  ops.foldl (apply C) m

/-- The call finalizes a justified checkpoint whose parent is not final. -/
def Skips (m : CheckpointManager) : CheckpointOp → Prop
  | finalize _ height =>
    (∃ c, m.checkpoints.lookup height = some c ∧ c.status = .justified) ∧
      ¬ m.Final (height - CHECKPOINT_INTERVAL)
  | propose .. | addVote .. => False

variable {C : Crypto} {m m' : CheckpointManager} {ops : List CheckpointOp} {op : CheckpointOp}
  {height : UInt64} {c c' : Checkpoint}

theorem run_snoc : run C m (ops ++ [op]) = apply C (run C m ops) op := by
  rw [run, List.foldl_append]
  rfl

/-! ## One call -/

/-- The finalized checkpoints and the last finalized height are as before. -/
structure Quiet (m m' : CheckpointManager) : Prop where
  last : m'.lastFinalized = m.lastFinalized
  same : ∀ height c, c.status = .finalized →
    (m'.checkpoints.lookup height = some c ↔ m.checkpoints.lookup height = some c)

/-- Writing over what is not finalized something that is not either. -/
theorem quiet_of_insert (hlast : m'.lastFinalized = m.lastFinalized)
    (hcp : m'.checkpoints = m.checkpoints.insert height c') (hnew : c'.status ≠ .finalized)
    (hold : ∀ c, m.checkpoints.lookup height = some c → c.status ≠ .finalized) : Quiet m m' where
  last := hlast
  same k c hc := by
    rw [hcp]
    by_cases hk : k = height
    · rw [hk, Finmap.lookup_insert]
      constructor
      · intro h
        exact absurd (Option.some.inj h ▸ hc) hnew
      · intro h
        exact absurd hc (hold c h)
    · rw [Finmap.lookup_insert_of_ne _ hk]

theorem status_addVote {vote : CheckpointVote} (h : c.status ≠ .finalized) :
    (c.addVote C vote).1.status ≠ .finalized := by
  by_cases hadm : c.Admits C vote
  · rw [Checkpoint.addVote_of_admits hadm]
    show (if _ then CheckpointStatus.justified else c.status) ≠ _
    split
    · exact CheckpointStatus.noConfusion
    · exact h
  · rw [Checkpoint.addVote_of_not_admits hadm]
    exact h

/-- **All a call can do:** nothing to what is final, or finalize a justified
checkpoint. -/
theorem quiet_or_finalizes (C : Crypto) (m : CheckpointManager) (op : CheckpointOp) :
    Quiet m (apply C m op) ∨ ∃ now height c, op = finalize now height ∧
      m.checkpoints.lookup height = some c ∧ c.status = .justified ∧
      (apply C m op).lastFinalized = height ∧ (apply C m op).checkpoints
        = m.checkpoints.insert height { c with status := .finalized, finalizedAt := some now } := by
  have hrefl : Quiet m m := ⟨rfl, fun _ _ _ => Iff.rfl⟩
  cases op with
  | propose now height epoch blockHash stateRoot set proposer =>
    left
    rw [apply]
    split
    · next m' c hok =>
      obtain ⟨_, hfree, hs, _, _, _, hcp, hlast⟩ := propose_ok hok
      refine quiet_of_insert hlast hcp (by rw [hs]; exact CheckpointStatus.noConfusion) ?_
      intro c₀ hc₀
      exact absurd (Finmap.mem_of_lookup_eq_some hc₀) hfree
    · exact hrefl
  | addVote height vote set =>
    left
    rw [apply]
    split
    · next m' added hok =>
      obtain ⟨_, c, hc, hcp, hlast⟩ := addVote_ok hok
      by_cases hs : c.status = .finalized
      · -- a finalized checkpoint takes no vote
        have hno : ¬ c.Admits C vote := fun hadm => by
          rw [hadm.1] at hs
          cases hs
        rw [Checkpoint.addVote_of_not_admits hno, Column.insert_of_lookup hc] at hcp
        exact ⟨hlast, fun k c₀ _ => by rw [hcp]⟩
      · refine quiet_of_insert hlast hcp (status_addVote hs) ?_
        intro c₀ hc₀
        cases hc.symm.trans hc₀
        exact hs
    · exact hrefl
  | finalize now height =>
    rw [apply]
    split
    · next m' reward hok =>
      obtain ⟨c, hc, hs, rfl, _⟩ := finalize_ok_iff.mp hok
      exact .inr ⟨now, height, c, rfl, hc, hs, rfl, rfl⟩
    · exact .inl hrefl

/-- Checkpoints stand at multiples of the interval. -/
def Aligned (m : CheckpointManager) : Prop :=
  ∀ height, height ∈ m.checkpoints → height.toNat % 100 = 0

theorem aligned_insert (h : Aligned m) (hcp : m'.checkpoints = m.checkpoints.insert height c)
    (hheight : height.toNat % 100 = 0) : Aligned m' := by
  intro k hk
  rw [hcp, Finmap.mem_insert] at hk
  rcases hk with rfl | hk
  · exact hheight
  · exact h k hk

theorem aligned_apply (h : Aligned m) : Aligned (apply C m op) := by
  cases op with
  | propose now height epoch blockHash stateRoot set proposer =>
    rw [apply]
    split
    · next m' c hok =>
      obtain ⟨hmod, _, _, _, _, _, hcp, _⟩ := propose_ok hok
      have hzero := congrArg UInt64.toNat hmod
      rw [UInt64.toNat_mod] at hzero
      exact aligned_insert h hcp hzero
    · exact h
  | addVote height vote set =>
    rw [apply]
    split
    · next m' added hok =>
      obtain ⟨_, c, hc, hcp, _⟩ := addVote_ok hok
      exact aligned_insert h hcp (h height (Finmap.mem_of_lookup_eq_some hc))
    · exact h
  | finalize now height =>
    rw [apply]
    split
    · next m' reward hok =>
      obtain ⟨c, hc, _, rfl, _⟩ := finalize_ok_iff.mp hok
      exact aligned_insert h rfl (h height (Finmap.mem_of_lookup_eq_some hc))
    · exact h

/-! ## The finalized heights -/

/-- Genesis is final and so is the last finalized height, and every final
checkpoint has a final parent. -/
structure Settled (m : CheckpointManager) : Prop where
  aligned : Aligned m
  genesis : m.Final 0
  last : m.Final m.lastFinalized
  parents : m.ParentsFinal

theorem settled_genesis (createdAt finalizedAt : UInt64) (genesisHash stateRoot : H256) :
    Settled
      (CheckpointManager.new.createGenesis C createdAt finalizedAt genesisHash stateRoot) := by
  have hgenesis : (CheckpointManager.new.createGenesis C createdAt finalizedAt genesisHash
      stateRoot).Final 0 := ⟨_, Finmap.lookup_insert _, rfl⟩
  have hzero : ∀ k, k ∈ (CheckpointManager.new.createGenesis C createdAt finalizedAt genesisHash
      stateRoot).checkpoints → k = 0 := by
    intro k hk
    rcases Finmap.mem_insert.mp hk with rfl | hk
    · rfl
    · exact absurd hk Finmap.notMem_empty
  refine ⟨?_, hgenesis, hgenesis, ?_⟩
  · intro k hk
    rw [hzero k hk]
    rfl
  · intro k hk hne
    obtain ⟨c, hc, _⟩ := hk
    exact absurd (hzero k (Finmap.mem_of_lookup_eq_some hc)) hne

/-- The height of the parent. -/
theorem toNat_parent (halign : height.toNat % 100 = 0) (hne : height ≠ 0) :
    100 ≤ height.toNat ∧ (height - CHECKPOINT_INTERVAL).toNat = height.toNat - 100 := by
  have hpos : height.toNat ≠ 0 := fun h => hne (UInt64.toNat_inj.mp h)
  have hle : 100 ≤ height.toNat := by omega
  refine ⟨hle, ?_⟩
  rw [UInt64.toNat_sub_of_le]
  · rfl
  · exact UInt64.le_iff_toNat_le.mpr hle

/-- Below a final checkpoint every multiple of the interval is final. -/
theorem final_below (h : Settled m) : ∀ (n : Nat) (k height : UInt64), height.toNat = n →
    m.Final height → k.toNat % 100 = 0 → k.toNat ≤ n → m.Final k := by
  intro n
  induction n using Nat.strongRecOn with
  | ind n ih =>
    intro k height hn hf hk hle
    by_cases heq : k = height
    · exact heq ▸ hf
    -- otherwise go to the parent, which is not below `k`
    have hlt : k.toNat ≠ height.toNat := fun e => heq (UInt64.toNat_inj.mp e)
    have hne : height ≠ 0 := by
      rintro rfl
      rw [show (0 : UInt64).toNat = 0 from rfl] at hn hlt
      omega
    obtain ⟨c, hc, _⟩ := id hf
    have halign := h.aligned height (Finmap.mem_of_lookup_eq_some hc)
    obtain ⟨hge, hparent⟩ := toNat_parent halign hne
    exact ih (n - 100) (by omega) k (height - CHECKPOINT_INTERVAL) (by omega)
      (h.parents height hf hne) hk (by omega)

/-- So what is justified lies above the last finalized height. -/
theorem last_lt_of_justified (h : Settled m) (hc : m.checkpoints.lookup height = some c)
    (hs : c.status = .justified) : m.lastFinalized.toNat < height.toNat := by
  by_contra hle
  have hf := final_below h _ height m.lastFinalized rfl h.last
    (h.aligned height (Finmap.mem_of_lookup_eq_some hc)) (by omega)
  obtain ⟨c', hc', hs'⟩ := hf
  cases hc.symm.trans hc'
  rw [hs] at hs'
  cases hs'

theorem final_quiet (h : Quiet m m') : m'.Final height ↔ m.Final height := by
  constructor
  · rintro ⟨c, hc, hs⟩
    exact ⟨c, (h.same height c hs).mp hc, hs⟩
  · rintro ⟨c, hc, hs⟩
    exact ⟨c, (h.same height c hs).mpr hc, hs⟩

theorem final_insert (hcp : m'.checkpoints = m.checkpoints.insert height c)
    (hs : c.status = .finalized) {k : UInt64} : m'.Final k ↔ k = height ∨ m.Final k := by
  rw [Final, hcp]
  by_cases hk : k = height
  · subst hk
    rw [Finmap.lookup_insert]
    exact iff_of_true ⟨c, rfl, hs⟩ (.inl rfl)
  · rw [Finmap.lookup_insert_of_ne _ hk]
    exact ⟨.inr, fun h => h.resolve_left hk⟩

/-! ## Runs -/

/-- **One call** that does not skip a parent keeps what is final, and keeps it
settled. -/
theorem settled_apply (h : Settled m) (hop : ¬ op.Skips m) :
    Settled (apply C m op) ∧ Keeps m (apply C m op) := by
  have halign : Aligned (apply C m op) := aligned_apply h.aligned
  rcases quiet_or_finalizes C m op with hq | ⟨now, height, c, rfl, hc, hs, hlast, hcp⟩
  · refine ⟨⟨halign, (final_quiet hq).mpr h.genesis, ?_, ?_⟩, ?_, ?_, ?_⟩
    · rw [hq.last]
      exact (final_quiet hq).mpr h.last
    · intro k hk hne
      exact (final_quiet hq).mpr (h.parents k ((final_quiet hq).mp hk) hne)
    · rw [lastFinalizedHeight, lastFinalizedHeight, hq.last]
      exact UInt64.le_refl _
    · intro k hk
      rwa [isFinalized, hq.last]
    · exact fun k c hc hs => (hq.same k c hs).mpr hc
  · have hle : m.lastFinalized ≤ (apply C m (finalize now height)).lastFinalized := by
      rw [hlast, UInt64.le_iff_toNat_le]
      exact (last_lt_of_justified h hc hs).le
    have hfinal : ∀ k, (apply C m (finalize now height)).Final k ↔ k = height ∨ m.Final k :=
      fun k => final_insert hcp rfl
    refine ⟨⟨halign, (hfinal 0).mpr (.inr h.genesis), ?_, ?_⟩, hle, ?_, ?_⟩
    · rw [hlast]
      exact (hfinal height).mpr (.inl rfl)
    · intro k hk hne
      refine (hfinal _).mpr (.inr ?_)
      rcases (hfinal k).mp hk with rfl | hk
      · exact not_not.mp fun hp => hop ⟨⟨c, hc, hs⟩, hp⟩
      · exact h.parents k hk hne
    · intro k hk
      exact decide_eq_true (UInt64.le_trans (of_decide_eq_true hk) hle)
    · intro k c' hc' hs'
      have hk : k ≠ height := by
        rintro rfl
        cases hc.symm.trans hc'
        rw [hs] at hs'
        cases hs'
      rw [hcp, Finmap.lookup_insert_of_ne _ hk]
      exact hc'

/-- A call that skips leaves a final checkpoint without a final parent. -/
theorem not_parentsFinal_of_skips (h : Settled m) (hop : op.Skips m) :
    ¬ (apply C m op).ParentsFinal := by
  intro hparents
  rcases quiet_or_finalizes C m op with hq | ⟨now, height, c, rfl, hc, hs, hlast, hcp⟩
  · -- a quiet call cannot skip: it would have finalized
    cases op with
    | propose => exact hop
    | addVote => exact hop
    | finalize now height =>
      obtain ⟨⟨c, hc, hs⟩, _⟩ := hop
      have hok : m.finalizeCheckpoint now height = .ok _ :=
        finalize_ok_iff.mpr ⟨c, hc, hs, rfl, rfl⟩
      have hlast : (apply C m (finalize now height)).lastFinalized = height := by
        rw [apply, hok]
      have hlt := last_lt_of_justified h hc hs
      rw [← hlast, hq.last] at hlt
      exact Nat.lt_irrefl _ hlt
  · have hne : height ≠ 0 := by
      rintro rfl
      obtain ⟨c', hc', hs'⟩ := h.genesis
      cases hc.symm.trans hc'
      rw [hs] at hs'
      cases hs'
    have hfinal : ∀ k, (apply C m (finalize now height)).Final k ↔ k = height ∨ m.Final k :=
      fun k => final_insert hcp rfl
    rcases (hfinal _).mp (hparents height ((hfinal height).mpr (.inl rfl)) hne) with heq | hf
    · have hpar := toNat_parent (h.aligned height (Finmap.mem_of_lookup_eq_some hc)) hne
      rw [heq] at hpar
      omega
    · exact hop.2 hf

/-- **Finality.** After `create_genesis`, nothing that is final is ever taken back
and every final checkpoint has a final parent, in all moments of a run, exactly
when no call of it finalizes a checkpoint whose parent is not final. -/
theorem finality_iff (C : Crypto) (createdAt finalizedAt : UInt64) (genesisHash stateRoot : H256)
    (ops : List CheckpointOp) :
    let start := CheckpointManager.new.createGenesis C createdAt finalizedAt genesisHash stateRoot
    ((∀ pre post, pre ++ post <+: ops → Keeps (run C start pre) (run C start (pre ++ post))) ∧
      ∀ pre, pre <+: ops → (run C start pre).ParentsFinal) ↔
    ∀ pre op, pre ++ [op] <+: ops → ¬ op.Skips (run C start pre) := by
  intro start
  have hstart : Settled start := settled_genesis createdAt finalizedAt genesisHash stateRoot
  constructor
  · rintro ⟨_, hparents⟩
    -- as long as no call has skipped, the run is settled
    have hsettled : ∀ pre, pre <+: ops → Settled (run C start pre) := by
      refine forall_prefixes hstart fun pre op hpre h => ?_
      rw [run_snoc]
      refine (settled_apply h fun hskips => ?_).1
      exact not_parentsFinal_of_skips h hskips (run_snoc ▸ hparents _ hpre)
    intro pre op hpre hskips
    have h := hsettled pre ((List.prefix_append pre [op]).trans hpre)
    exact not_parentsFinal_of_skips h hskips (run_snoc ▸ hparents _ hpre)
  · intro hops
    have hsettled : ∀ pre, pre <+: ops → Settled (run C start pre) := by
      refine forall_prefixes hstart fun pre op hpre h => ?_
      rw [run_snoc]
      exact (settled_apply h (hops pre op hpre)).1
    refine ⟨?_, fun pre hpre => (hsettled pre hpre).parents⟩
    rw [forall_later_iff (R := fun a b => Keeps (run C start a) (run C start b))
      (fun _ => Keeps.refl _) fun _ _ _ => Keeps.trans]
    intro pre op hpre
    rw [run_snoc]
    exact (settled_apply (hsettled pre ((List.prefix_append pre [op]).trans hpre))
      (hops pre op hpre)).2

/-- Both checkpoints are proposed and all three validators vote for both. -/
def justifyBoth : List CheckpointOp :=
  [propose 0 100 1 ⟨Vector.replicate 32 1⟩ ⟨Vector.replicate 32 2⟩ testSet (testAddress 1),
   propose 0 200 1 ⟨Vector.replicate 32 3⟩ ⟨Vector.replicate 32 4⟩ testSet (testAddress 1)] ++
  [1, 2, 3].map (fun i => addVote 100 (testVote i hashAt100 100) testSet) ++
  [1, 2, 3].map (fun i => addVote 200 (testVote i hashAt200 100) testSet)

/-- Finalizing 200 and then 100 takes the blocks from 101 to 200 back. -/
theorem finality_goes_back :
    let before := run checkpointCrypto testGenesis (justifyBoth ++ [finalize 0 200])
    let after := run checkpointCrypto testGenesis (justifyBoth ++ [finalize 0 200, finalize 0 100])
    before.lastFinalizedHeight = 200 ∧ before.isFinalized 150 = true ∧
      after.lastFinalizedHeight = 100 ∧ after.isFinalized 150 = false := by
  decide +kernel

end CheckpointOp

end Pyrax.Staking
