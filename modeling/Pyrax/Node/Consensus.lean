import Pyrax.Node.System
import Pyrax.Ledger.Extend
import Pyrax.Storage.Canonical

/-!
# Which blocks reach the canonical chain

Five tasks commit blocks and two of them, with RPC `submit_block`, do so without
asking the validator. `Enforced` is what they should guarantee together: every
canonical block of positive height was committed by a step of the run, and every
time it was the validator would have accepted it on the database of that moment.

`consensus_enforced_iff` is the exact condition. It is on the tasks that do not
validate: what they are given must be valid already, and the BLAKE3 closure must
not be given anything, its blocks having no coinbase. The invariant behind it is
that nothing is stored but what some step committed (`stored_of_run`).
-/

namespace Pyrax.Node

open Base ChainDB Validation Ledger Rpc

variable {C : Crypto} {calculateNext : UInt64 → UInt64 → UInt64 → UInt64} {network : NetworkId}
  {n n' : State} {e : NodeEvent} {es : List NodeEvent} {b : Block}

/-- Some step of the run committed this block. -/
def CommittedIn (C : Crypto) (calculateNext : UInt64 → UInt64 → UInt64 → UInt64)
    (network : NetworkId) (es : List NodeEvent) (b : Block) : Prop :=
  ∃ es₁ e es₂ n₁ n₂, es = es₁ ++ e :: es₂ ∧
    Run (NodeStep C calculateNext) (start C network) es₁ n₁ ∧
    NodeStep C calculateNext n₁ e n₂ ∧ e.block? = some b ∧ n₂.db = committed C n₁.db b

/-- Each time the run committed this block, the validator accepts it there. -/
def AlwaysValid (C : Crypto) (calculateNext : UInt64 → UInt64 → UInt64 → UInt64)
    (network : NetworkId) (es : List NodeEvent) (b : Block) : Prop :=
  Throughout (NodeStep C calculateNext) (start C network) es fun n₁ e _ =>
    e.block? = some b → validateBlock C e.now b n₁.db = .ok ()

/-- After the run, every canonical block of positive height was committed and
was valid when it was. -/
def Enforced (C : Crypto) (calculateNext : UInt64 → UInt64 → UInt64 → UInt64)
    (network : NetworkId) (es : List NodeEvent) : Prop :=
  ∀ n, Run (NodeStep C calculateNext) (start C network) es n →
    ∀ b ∈ canonicalBlocks n.db, 0 < b.height →
      CommittedIn C calculateNext network es b ∧ AlwaysValid C calculateNext network es b

/-- What an event must bring along where its task does not validate. -/
def Guarded (C : Crypto) (n : State) : NodeEvent → Prop
  | .rpcBlock now blockHex =>
    ∀ b, decodeParam Block.deserialize .invalidBlock blockHex = .ok b →
      b.height = 0 ∨ validateBlock C now b n.db = .ok ()
  | .blake3Block _ header => header.height = 0
  | .kawpowBlock now b => b.height = 0 ∨ validateBlock C now b n.db = .ok ()
  | _ => True

/-! ## What a step commits -/

/-- A step whose event carries a block commits it. -/
theorem NodeStep.db_eq (h : NodeStep C calculateNext n e n') (hb : e.block? = some b) :
    n'.db = committed C n.db b := by
  rcases h.db_cases with ⟨hnone, _⟩ | ⟨b', hb', hc, _⟩
  · rw [hb] at hnone
    cases hnone
  · obtain rfl := Option.some.inj (hb.symm.trans hb')
    exact (commitBlock_ok_iff.mp hc).2

/-- Where the task validates, or the event is guarded, the block is valid. -/
theorem NodeStep.valid_of_guarded (h : NodeStep C calculateNext n e n') (hg : Guarded C n e)
    (hb : e.block? = some b) (hpos : 0 < b.height) :
    validateBlock C e.now b n.db = .ok () := by
  have hne : b.height ≠ 0 := UInt64.pos_iff_ne_zero.mp hpos
  have hval : e.validates = true → validateBlock C e.now b n.db = .ok () := by
    intro hv
    rcases h.db_cases with ⟨hnone, _⟩ | ⟨b', hb', _, hvalid⟩
    · rw [hb] at hnone
      cases hnone
    · obtain rfl := Option.some.inj (hb.symm.trans hb')
      exact validateBlock_ok_iff.mpr (hvalid hv)
  cases h with
  | rpcBlock _ _ => exact (hg b (NodeEvent.block?_rpcBlock_iff.mp hb)).resolve_left hne
  | blake3Block _ =>
    obtain rfl := Option.some.inj hb
    exact absurd hg hne
  | kawpowBlock _ =>
    obtain rfl := Option.some.inj hb
    exact Or.resolve_left hg hne
  | addTx _ _ => exact hval rfl
  | startMining _ => exact hval rfl
  | minedBlock _ _ _ _ => exact hval rfl
  | receivedBlock _ => exact hval rfl
  | serviceBlock _ => exact hval rfl

/-- An event whose block is valid, or of height `0`, is guarded. -/
theorem guarded_of_valid (h : ∀ b, e.block? = some b → 0 < b.height →
    validateBlock C e.now b n.db = .ok ()) : Guarded C n e := by
  have hor : ∀ b, e.block? = some b → b.height = 0 ∨ validateBlock C e.now b n.db = .ok () := by
    intro b hb
    by_cases h0 : b.height = 0
    · exact Or.inl h0
    · exact Or.inr (h b hb (UInt64.pos_iff_ne_zero.mpr h0))
  cases e with
  | rpcBlock now blockHex =>
    intro b hb
    exact hor b (NodeEvent.block?_rpcBlock_iff.mpr hb)
  | blake3Block now header =>
    by_contra h0
    exact toBlock_not_valid h0
      (validateBlock_ok_iff.mp (h header.toBlock rfl (UInt64.pos_iff_ne_zero.mpr h0)))
  | kawpowBlock now block => exact hor block rfl
  | addTx _ _ => trivial
  | startMining _ _ _ _ _ => trivial
  | minedBlock _ _ _ _ => trivial
  | receivedBlock _ _ => trivial
  | serviceBlock _ _ => trivial

/-! ## Runs -/

/-- A longer run commits what a shorter one did. -/
theorem CommittedIn.snoc (h : CommittedIn C calculateNext network es b) (e : NodeEvent) :
    CommittedIn C calculateNext network (es ++ [e]) b := by
  obtain ⟨es₁, e₁, es₂, n₁, n₂, rfl, hrun, hstep, hb, hdb⟩ := h
  refine ⟨es₁, e₁, es₂ ++ [e], n₁, n₂, ?_, hrun, hstep, hb, hdb⟩
  rw [List.append_assoc, List.cons_append]

/-- Every stored block of positive height was committed by a step of the run. -/
theorem stored_of_run (hrun : Run (NodeStep C calculateNext) (start C network) es n) :
    ∀ hash b, n.db.getBlock hash = some b → 0 < b.height →
      CommittedIn C calculateNext network es b := by
  induction hrun with
  | nil =>
    intro hash b hget hpos
    have hget : Finmap.lookup hash (openNew C network).db.blocksByHash = some b := hget
    rw [openNew_blocksByHash] at hget
    -- a new database stores its genesis block, of height 0
    by_cases hk : hash = (Genesis.genesisBlock C network).hash C
    · rw [hk, Finmap.lookup_insert] at hget
      rw [← Option.some.inj hget] at hpos
      exact absurd hpos (by decide : ¬ (0 : UInt64) < 0)
    · rw [Finmap.lookup_insert_of_ne _ hk] at hget
      exact absurd (hget.symm.trans (Finmap.lookup_empty hash)) (Option.some_ne_none b)
  | @snoc n₁ n₂ es e hprev hlast ih =>
    intro hash b hget hpos
    rcases hlast.db_cases with ⟨_, hdb⟩ | ⟨b', hb', hc, _⟩
    · rw [hdb] at hget
      exact (ih hash b hget hpos).snoc e
    · obtain ⟨_, hdb⟩ := commitBlock_ok_iff.mp hc
      by_cases hk : hash = b'.hash C
      · -- found under the hash just written: this step committed it
        rw [hdb, hk, committed_getBlock_self] at hget
        obtain rfl := Option.some.inj hget
        exact ⟨es, e, [], n₁, n₂, rfl, hprev, hlast, hb', hdb⟩
      · rw [hdb, committed_getBlock_of_ne hk] at hget
        exact (ih hash b hget hpos).snoc e

/-- The block just committed is canonical. -/
theorem mem_canonicalBlocks_committed (s : ChainDB) (b : Block) :
    b ∈ canonicalBlocks (committed C s b) := by
  refine List.mem_filterMap.mpr ⟨b.height.toNat, List.mem_range.mpr (Nat.lt_succ_self _), ?_⟩
  have hlook : (committed C s b).db.blockHeightToHash.lookup b.height = some (b.hash C) := by
    rw [committed_blockHeightToHash, Finmap.lookup_insert]
  rw [blockAt, UInt64.ofNat_toNat, getBlockByHeight_of_lookup hlook, committed_getBlock_self]

/-- Throughout a run every canonical block of positive height was valid when it
was committed, exactly when every event of the run is guarded. -/
theorem consensus_enforced_iff (C : Crypto) (calculateNext : UInt64 → UInt64 → UInt64 → UInt64)
    (network : NetworkId) (es : List NodeEvent) :
    (∀ es₁, es₁ <+: es → Enforced C calculateNext network es₁) ↔
      Throughout (NodeStep C calculateNext) (start C network) es fun n e _ => Guarded C n e := by
  constructor
  · intro hall es₁ e es₂ n₁ n₂ hes hrun hstep
    refine guarded_of_valid fun b hb hpos => ?_
    have hdb := hstep.db_eq hb
    have hcan : b ∈ canonicalBlocks n₂.db := hdb ▸ mem_canonicalBlocks_committed n₁.db b
    -- the state right after the step already shows whether its block was valid
    have hsub : es₁ ++ [e] <+: es := ⟨es₂, by rw [hes, List.append_assoc, List.singleton_append]⟩
    have henf := hall (es₁ ++ [e]) hsub n₂ (Run.snoc hrun hstep) b hcan hpos
    exact henf.2.last hrun hstep hb
  · intro hg es₁ hsub n hrun b hcan hpos
    obtain ⟨es₂, rfl⟩ := hsub
    obtain ⟨h, _, hat⟩ := List.mem_filterMap.mp hcan
    refine ⟨?_, ?_⟩
    · cases hlook : n.db.db.blockHeightToHash.lookup (UInt64.ofNat h) with
      | none =>
        rw [blockAt, getBlockByHeight_of_none hlook] at hat
        cases hat
      | some hash =>
        rw [blockAt, getBlockByHeight_of_lookup hlook] at hat
        exact stored_of_run hrun hash b hat hpos
    · intro fs e gs n₁ n₂ hfs hrun₁ hstep hb
      refine hstep.valid_of_guarded ?_ hb hpos
      -- a step of the shorter run is a step of the whole one
      refine hg fs e (gs ++ es₂) n₁ n₂ ?_ hrun₁ hstep
      rw [hfs, List.append_assoc, List.cons_append]

/-! ## A block nobody checked -/

/-- What the tasks should guarantee, with nothing said about what arrives. -/
def ConsensusEnforced (C : Crypto) : Prop :=
  ∀ calculateNext network es, Enforced C calculateNext network es

/-- A first block without any transaction. -/
def emptyBlock (C : Crypto) : Block := easyBlock C (openNew C NetworkId.DEVNET) 1735689600 []

def emptyBlockHex (C : Crypto) : String := "0x" ++ Hex.encodeHex (emptyBlock C).serialize

theorem decode_emptyBlockHex (C : Crypto) :
    decodeParam Block.deserialize .invalidBlock (emptyBlockHex C) = .ok (emptyBlock C) := by
  refine decodeParam_encodeHex (Block.reads ?_)
  have hnil : (emptyBlock C).transactions = [] := rfl
  rw [Block.serialize_length, hnil]
  decide

/-- Whatever the hash functions: RPC `submit_block` makes a block without a
coinbase canonical. -/
theorem consensus_not_enforced : ¬ ∃ C : Crypto, ConsensusEnforced C := by
  intro h
  obtain ⟨C, hC⟩ := h
  -- the miner loops do not take part, so any difficulty rule will do
  let calculateNext : UInt64 → UInt64 → UInt64 → UInt64 := fun difficulty _ _ => difficulty
  let s' := committed C (openNew C NetworkId.DEVNET) (emptyBlock C)
  obtain ⟨r, hsub, hacc⟩ := submitBlock_accepted_iff.mpr ⟨emptyBlock C, decode_emptyBlockHex C,
    commitBlock_ok_iff.mpr ⟨Or.inr ⟨rfl, rfl⟩, rfl⟩⟩
  have hstep : NodeStep C calculateNext (start C NetworkId.DEVNET)
      (.rpcBlock 1735689600 (emptyBlockHex C)) { start C NetworkId.DEVNET with db := s' } :=
    .rpcBlock hsub hacc
  have henf := hC calculateNext NetworkId.DEVNET [.rpcBlock 1735689600 (emptyBlockHex C)] _
    (Run.single hstep) (emptyBlock C) (mem_canonicalBlocks_committed _ _)
    (by decide : (0 : UInt64) < 0 + 1)
  have hb : (NodeEvent.rpcBlock 1735689600 (emptyBlockHex C)).block? = some (emptyBlock C) :=
    NodeEvent.block?_rpcBlock_iff.mpr (decode_emptyBlockHex C)
  have hvalid := henf.2 [] _ [] _ _ rfl (Run.nil _) hstep hb
  exact (validateBlock_ok_iff.mp hvalid).nonempty (by decide : (0 : UInt64) < 0 + 1) rfl

end Pyrax.Node
