import Pyrax.Ledger.Accept
import Pyrax.Storage.Canonical

/-!
# How accepted blocks grow a linked chain

The common ground of the rollback and the replay theorems: along a run of
accepted blocks of positive height the store stays linked, the canonical chain
grows by exactly these blocks, and the UTXO and index columns are the old ones
with all their batches written. `grown_run` collects this in one induction.
-/

namespace Pyrax.Ledger

open Base ChainDB Validation

/-- What the blocks of a run write to the UTXO column. -/
def utxoBatch (C : Crypto) (as : List Arrival) : List (WriteOp OutPoint Utxo) :=
  as.flatMap fun a => a.block.transactions.flatMap (utxoOps C a.block.height)

/-- What the blocks of a run write to the transaction index. -/
def indexBatch (C : Crypto) (as : List Arrival) : List (WriteOp H256 TxLocation) :=
  as.flatMap fun a => indexOps C a.block

/-- The state `s'` is the linked state `s` with the blocks of `as` on top. -/
structure Grown (C : Crypto) (H : BlockHeader → Prop) (s : ChainDB) (as : List Arrival)
    (s' : ChainDB) : Prop where
  linked : Linked C s'
  stored : StoredIn C H s'
  height : s'.tip.height.toNat = s.tip.height.toNat + as.length
  blocks : canonicalBlocks s' = canonicalBlocks s ++ as.map (·.block)
  below : ∀ h ≤ s.tip.height, s'.getBlockByHeight h = s.getBlockByHeight h
  utxos : s'.db.utxoSet = s.db.utxoSet.write (utxoBatch C as)
  index : s'.db.transactionIndex = s.db.transactionIndex.write (indexBatch C as)

/-- The headers of a run on a new database. -/
def RunHeaders (C : Crypto) (network : NetworkId) (as : List Arrival) (h : BlockHeader) : Prop :=
  h = (Genesis.genesisBlock C network).header ∨ ∃ a ∈ as, a.block.header = h

variable {C : Crypto} {H : BlockHeader → Prop} {s s₁ s' : ChainDB} {a : Arrival}
  {as : List Arrival}

/-- An accepted block of positive height extends the tip. -/
theorem extends_of_accepts (hstep : Accepts C s a s') (h0 : a.block.height ≠ 0) :
    a.block.header.parentHash = s.tip.hash ∧ a.block.height = s.tip.height + 1 := by
  have hlink := (accepts_iff.mp hstep).1.link
  rwa [if_neg h0] at hlink

theorem Grown.refl (hs : Linked C s) (hst : StoredIn C H s) : Grown C H s [] s where
  linked := hs
  stored := hst
  height := rfl
  blocks := (List.append_nil _).symm
  below _ _ := rfl
  utxos := rfl
  index := rfl

/-- One more accepted block. -/
theorem Grown.snoc (hcf : CollisionFree C H) (hg : Grown C H s as s₁) (hstep : Accepts C s₁ a s')
    (h0 : a.block.height ≠ 0) (hb : H a.block.header) : Grown C H s (as ++ [a]) s' := by
  obtain ⟨hpar, hh⟩ := extends_of_accepts hstep h0
  obtain ⟨_, rfl⟩ := accepts_iff.mp hstep
  have hnowrap : s₁.tip.height + 1 ≠ 0 := hh ▸ h0
  have htop : (committed C s₁ a.block).tip.height.toNat = s₁.tip.height.toNat + 1 := by
    rw [committed_tip, commitTip, hh, succ_toNat hnowrap]
  refine ⟨linked_committed hg.linked hg.stored hcf hb hh h0 hpar, storedIn_committed hg.stored hb,
    ?_, ?_, fun h hle => ?_, ?_, ?_⟩
  · rw [htop, hg.height, List.length_append, List.length_singleton]
    omega
  · rw [canonicalBlocks_committed hg.linked hg.stored hcf hb hh h0, hg.blocks, List.map_append,
      List.append_assoc]
    rfl
  · -- the old heights are below the new block
    have hne : h ≠ a.block.height := by
      rw [hh]
      refine ne_succ_of_le hnowrap ?_
      rw [UInt64.le_iff_toNat_le] at hle ⊢
      have := hg.height
      omega
    rw [getBlockByHeight_committed hg.linked hg.stored hcf hb hh h0, if_neg hne]
    exact hg.below h hle
  · rw [committed_utxoSet, hg.utxos, ← Column.write_append, utxoBatch, utxoBatch,
      List.flatMap_append, List.flatMap_singleton]
  · rw [committed_transactionIndex, hg.index, ← Column.write_append, indexBatch, indexBatch,
      List.flatMap_append, List.flatMap_singleton]

/-- Every run of accepted blocks of positive height grows the chain. -/
theorem grown_run (hcf : CollisionFree C H) (hs : Linked C s) (hst : StoredIn C H s)
    (hrun : Run (Accepts C) s as s') (h0 : ∀ a ∈ as, a.block.height ≠ 0)
    (hb : ∀ a ∈ as, H a.block.header) : Grown C H s as s' := by
  refine hrun.invariant_of (Q := fun a => a.block.height ≠ 0 ∧ H a.block.header)
    (fun a ha => ⟨h0 a ha, hb a ha⟩) ?_ (Grown.refl hs hst)
  intro as₁ s₁ a s₂ hg ha hstep
  exact hg.snoc hcf hstep ha.1 ha.2

/-- On a new database the canonical chain is the genesis block and the run. -/
theorem canonicalBlocks_run {network : NetworkId}
    (hrun : Run (Accepts C) (openNew C network) as s) (h0 : ∀ a ∈ as, a.block.height ≠ 0)
    (hcf : CollisionFree C (RunHeaders C network as)) :
    canonicalBlocks s = Genesis.genesisBlock C network :: as.map (·.block) := by
  have hg := grown_run hcf (linked_openNew C network) (storedIn_openNew network (Or.inl rfl)) hrun
    h0 fun a ha => Or.inr ⟨a, ha, rfl⟩
  rw [hg.blocks, canonicalBlocks_openNew]
  rfl

end Pyrax.Ledger
