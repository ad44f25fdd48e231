import Pyrax.Ledger.Grow
import Pyrax.Ledger.Extend

/-!
# Rolling back accepted blocks

`rollback_to` is meant to be the inverse of the commits above its target. The
undo loop meets the blocks of the run in reverse (`undoDown_run`), so a
rollback writes two batches on top of the old columns: what the commits wrote,
and then the deletion of every index entry and every output they made. The
height index and the tip come back; of the other two columns
`Column.write_undo_eq_iff` says when they do. `undo_block` puts nothing back,
so an output that an undone block spent stays gone.

`rollback_restores_iff` is the exact condition on the undone blocks:
`Untouched`, nothing they spend, create or index was there before.
-/

namespace Pyrax.Ledger

open Base ChainDB Validation

variable {C : Crypto} {H : BlockHeader → Prop} {s s₁ s' r : ChainDB} {a : Arrival}
  {as : List Arrival}

/-- What undoing the blocks of a run deletes from the UTXO column. -/
def undoUtxos (C : Crypto) (as : List Arrival) : List (WriteOp OutPoint Utxo) :=
  as.reverse.flatMap fun a => (undoBatch C a.block).utxoSet

/-- What undoing the blocks of a run deletes from the transaction index. -/
def undoIndex (C : Crypto) (as : List Arrival) : List (WriteOp H256 TxLocation) :=
  as.reverse.flatMap fun a => (undoBatch C a.block).transactionIndex

/-- No undone transaction spends or makes an output that was unspent, or has a
hash that was indexed. -/
def Untouched (C : Crypto) (s : ChainDB) (as : List Arrival) : Prop :=
  ∀ a ∈ as, ∀ tx ∈ a.block.transactions, s.getTxLocation (tx.txid C) = none ∧
    (∀ o ∈ spentBy tx, s.getUtxo o = none) ∧ ∀ o ∈ created C tx, s.getUtxo o = none

/-- The state `r` is back where `s` was: the same unspent outputs, index, height
index and tip, and every next block valid on `s` is valid on `r`. -/
structure Restored (C : Crypto) (s r : ChainDB) : Prop where
  utxoSet : r.db.utxoSet = s.db.utxoSet
  transactionIndex : r.db.transactionIndex = s.db.transactionIndex
  blockHeightToHash : r.db.blockHeightToHash = s.db.blockHeightToHash
  tip : r.tip = s.tip
  next : ∀ now b, b.height = s.tip.height + 1 → validateBlock C now b s = .ok () →
    validateBlock C now b r = .ok ()

/-! ## The undo loop over a run -/

theorem retip_utxoSet (s : ChainDB) (target : UInt64) :
    (retip C s target).db.utxoSet = s.db.utxoSet := by
  unfold retip
  split
  · rfl
  · rfl

theorem undoBlock_utxoSet (r : ChainDB) (b : Block) :
    (undoBlock C r b).db.utxoSet = r.db.utxoSet.write (undoBatch C b).utxoSet := rfl

theorem undoBlock_transactionIndex (r : ChainDB) (b : Block) :
    (undoBlock C r b).db.transactionIndex
      = r.db.transactionIndex.write (undoBatch C b).transactionIndex := rfl

/-- Undoing the block a linked state was just extended by leads back to that
state's height index. -/
theorem undoBlock_of_agree (hs : Linked C s₁) (hst : StoredIn C H s₁) (hcf : CollisionFree C H)
    {b : Block} (hb : H b.header) (hh : b.height = s₁.tip.height + 1) (h0 : b.height ≠ 0)
    (hheights : r.db.blockHeightToHash = (committed C s₁ b).db.blockHeightToHash)
    (hget : ∀ h, r.getBlockByHeight h = (committed C s₁ b).getBlockByHeight h) :
    (undoBlock C r b).db.blockHeightToHash = s₁.db.blockHeightToHash ∧
      ∀ h, (undoBlock C r b).getBlockByHeight h = s₁.getBlockByHeight h := by
  -- the height was free before the commit, so erasing it again is the old index
  have habove : s₁.db.blockHeightToHash.lookup b.height = none := by
    refine hs.above _ ?_
    rw [UInt64.lt_iff_toNat_lt, hh, succ_toNat (hh ▸ h0)]
    omega
  have hback : (undoBlock C r b).db.blockHeightToHash = s₁.db.blockHeightToHash := by
    refine Finmap.ext_lookup fun h => ?_
    rw [undoBlock_blockHeightToHash, hheights, committed_blockHeightToHash]
    by_cases hk : h = b.height
    · rw [hk, Finmap.lookup_erase, habove]
    · rw [Finmap.lookup_erase_ne hk, Finmap.lookup_insert_of_ne _ hk]
  refine ⟨hback, fun h => ?_⟩
  by_cases hk : h = b.height
  · rw [hk, getBlockByHeight_of_none habove, getBlockByHeight_of_none (hback ▸ habove)]
  · have hsame : (undoBlock C r b).getBlockByHeight h = r.getBlockByHeight h := by
      rw [getBlockByHeight, getBlockByHeight, undoBlock_blockHeightToHash,
        Finmap.lookup_erase_ne hk]
      rfl
    rw [hsame, hget, getBlockByHeight_committed hs hst hcf hb hh h0, if_neg hk]

/-- The undo loop meets the blocks of a run from last to first. -/
theorem undoDown_run (hcf : CollisionFree C H) (hs : Linked C s) (hst : StoredIn C H s)
    (hrun : Run (Accepts C) s as s') (h0 : ∀ a ∈ as, a.block.height ≠ 0)
    (hb : ∀ a ∈ as, H a.block.header) :
    ∀ r : ChainDB, r.db.blockHeightToHash = s'.db.blockHeightToHash →
      (∀ h, r.getBlockByHeight h = s'.getBlockByHeight h) →
      (undoDown C s.tip.height as.length r).db.blockHeightToHash = s.db.blockHeightToHash ∧
        (undoDown C s.tip.height as.length r).db.utxoSet
          = r.db.utxoSet.write (undoUtxos C as) ∧
        (undoDown C s.tip.height as.length r).db.transactionIndex
          = r.db.transactionIndex.write (undoIndex C as) := by
  induction hrun with
  | nil => exact fun r hheights _ => ⟨hheights, rfl, rfl⟩
  | @snoc s₁ s₂ ls l hprev hlast ih =>
    intro r hheights hget
    have h0' : ∀ a ∈ ls, a.block.height ≠ 0 := fun a ha => h0 a (List.mem_append_left _ ha)
    have hb' : ∀ a ∈ ls, H a.block.header := fun a ha => hb a (List.mem_append_left _ ha)
    have hl0 := h0 l (List.mem_append_right _ (List.mem_singleton_self _))
    have hlb := hb l (List.mem_append_right _ (List.mem_singleton_self _))
    have hg := grown_run hcf hs hst hprev h0' hb'
    obtain ⟨_, hh⟩ := extends_of_accepts hlast hl0
    obtain ⟨_, rfl⟩ := accepts_iff.mp hlast
    -- the loop looks at the height of the last block and finds that block
    have htop : s.tip.height + UInt64.ofNat (ls.length + 1) = l.block.height := by
      refine add_ofNat_eq ?_
      rw [hh, succ_toNat (hh ▸ hl0), hg.height]
      omega
    have hfind : r.getBlockByHeight l.block.height = some l.block := by
      rw [hget, getBlockByHeight_committed hg.linked hg.stored hcf hlb hh hl0, if_pos rfl]
    obtain ⟨hback, hgetback⟩ :=
      undoBlock_of_agree hg.linked hg.stored hcf hlb hh hl0 hheights hget
    obtain ⟨ih1, ih2, ih3⟩ := ih h0' hb' (undoBlock C r l.block) hback hgetback
    rw [List.length_append, List.length_singleton, undoDown, htop, hfind]
    refine ⟨ih1, ih2.trans ?_, ih3.trans ?_⟩
    · rw [undoBlock_utxoSet, ← Column.write_append, undoUtxos, undoUtxos, List.reverse_append,
        List.flatMap_append]
      simp
    · rw [undoBlock_transactionIndex, ← Column.write_append, undoIndex, undoIndex,
        List.reverse_append, List.flatMap_append]
      simp

/-! ## When the two batches cancel -/

theorem mem_undoUtxos {op : WriteOp OutPoint Utxo} :
    op ∈ undoUtxos C as ↔
      ∃ a ∈ as, ∃ tx ∈ a.block.transactions, ∃ o ∈ created C tx, op = .delete o := by
  simp only [undoUtxos, undoBatch, List.mem_flatMap, List.mem_reverse, List.mem_map, created,
    List.mem_range]
  constructor
  · intro h
    obtain ⟨a, ha, tx, htx, v, hv, rfl⟩ := h
    exact ⟨a, ha, tx, htx, _, ⟨v, hv, rfl⟩, rfl⟩
  · intro h
    obtain ⟨a, ha, tx, htx, o, ⟨v, hv, rfl⟩, rfl⟩ := h
    exact ⟨a, ha, tx, htx, v, hv, rfl⟩

theorem mem_utxoBatch {op : WriteOp OutPoint Utxo} :
    op ∈ utxoBatch C as ↔
      ∃ a ∈ as, ∃ tx ∈ a.block.transactions, op ∈ utxoOps C a.block.height tx := by
  simp [utxoBatch, List.mem_flatMap]

theorem mem_undoIndex {op : WriteOp H256 TxLocation} :
    op ∈ undoIndex C as ↔
      ∃ a ∈ as, ∃ tx ∈ a.block.transactions, op = .delete (tx.txid C) := by
  simp only [undoIndex, undoBatch, List.mem_flatMap, List.mem_reverse, List.mem_map]
  exact ⟨fun ⟨a, ha, tx, htx, h⟩ => ⟨a, ha, tx, htx, h.symm⟩,
    fun ⟨a, ha, tx, htx, h⟩ => ⟨a, ha, tx, htx, h.symm⟩⟩

/-- Every index entry a run writes is that of one of its transactions. -/
theorem key_of_mem_indexBatch {op : WriteOp H256 TxLocation} (h : op ∈ indexBatch C as) :
    ∃ a ∈ as, ∃ tx ∈ a.block.transactions, op.key = tx.txid C := by
  obtain ⟨a, ha, hop⟩ := List.mem_flatMap.mp h
  rw [indexOps, List.mem_mapIdx] at hop
  obtain ⟨i, hi, rfl⟩ := hop
  exact ⟨a, ha, _, List.getElem_mem hi, rfl⟩

/-- The UTXO column comes back iff nothing spent or made was unspent. -/
theorem utxos_restored_iff :
    (s.db.utxoSet.write (utxoBatch C as)).write (undoUtxos C as) = s.db.utxoSet ↔
      ∀ a ∈ as, ∀ tx ∈ a.block.transactions,
        (∀ o ∈ spentBy tx, s.getUtxo o = none) ∧ ∀ o ∈ created C tx, s.getUtxo o = none := by
  rw [Column.write_undo_eq_iff]
  · constructor
    · intro h a ha tx htx
      refine ⟨fun o ho => ?_, fun o ho => ?_⟩
      · exact h (.delete o) (List.mem_append_left _
          (mem_utxoBatch.mpr ⟨a, ha, tx, htx, mem_utxoOps_delete.mpr ho⟩))
      · exact h (.delete o) (List.mem_append_right _ (mem_undoUtxos.mpr ⟨a, ha, tx, htx, o, ho, rfl⟩))
    · intro h op hop
      rcases List.mem_append.mp hop with hop | hop
      · obtain ⟨a, ha, tx, htx, hop⟩ := mem_utxoBatch.mp hop
        rcases key_of_mem_utxoOps hop with hk | hk
        · exact (h a ha tx htx).1 _ hk
        · exact (h a ha tx htx).2 _ hk
      · obtain ⟨a, ha, tx, htx, o, ho, rfl⟩ := mem_undoUtxos.mp hop
        exact (h a ha tx htx).2 o ho
  · intro op hop
    obtain ⟨_, _, _, _, _, _, rfl⟩ := mem_undoUtxos.mp hop
    rfl
  · -- every output a block put is deleted by its undo
    intro op hop hv
    obtain ⟨a, ha, tx, htx, hop⟩ := mem_utxoBatch.mp hop
    cases op with
    | delete o => exact absurd rfl hv
    | put o u =>
      obtain ⟨v, out, hget, rfl, _⟩ := mem_utxoOps_put.mp hop
      exact ⟨_, mem_undoUtxos.mpr ⟨a, ha, tx, htx, _,
        mem_created.mpr ⟨v, (List.getElem?_eq_some_iff.mp hget).1, rfl⟩, rfl⟩, rfl⟩

/-- The transaction index comes back iff no undone transaction was indexed. -/
theorem index_restored_iff :
    (s.db.transactionIndex.write (indexBatch C as)).write (undoIndex C as)
        = s.db.transactionIndex ↔
      ∀ a ∈ as, ∀ tx ∈ a.block.transactions, s.getTxLocation (tx.txid C) = none := by
  rw [Column.write_undo_eq_iff]
  · constructor
    · intro h a ha tx htx
      exact h (.delete _) (List.mem_append_right _ (mem_undoIndex.mpr ⟨a, ha, tx, htx, rfl⟩))
    · intro h op hop
      rcases List.mem_append.mp hop with hop | hop
      · obtain ⟨a, ha, tx, htx, hk⟩ := key_of_mem_indexBatch hop
        rw [hk]
        exact h a ha tx htx
      · obtain ⟨a, ha, tx, htx, rfl⟩ := mem_undoIndex.mp hop
        exact h a ha tx htx
  · intro op hop
    obtain ⟨_, _, _, _, rfl⟩ := mem_undoIndex.mp hop
    rfl
  · intro op hop _
    obtain ⟨a, ha, tx, htx, hk⟩ := key_of_mem_indexBatch hop
    exact ⟨_, mem_undoIndex.mpr ⟨a, ha, tx, htx, rfl⟩, hk.symm⟩

/-! ## The tip -/

/-- Only the UTXO column is read when transactions are validated. -/
theorem validateTransactions_congr (h : r.db.utxoSet = s.db.utxoSet) (b : Block) :
    validateTransactions C b r = validateTransactions C b s := by
  have hget : r.getUtxo = s.getUtxo := by
    funext o
    rw [getUtxo, getUtxo, h]
  have hinput : ∀ tx height, validateInput C tx height r = validateInput C tx height s := by
    intro tx height
    funext acc i
    unfold validateInput
    rw [hget]
  have htx : ∀ height, validateTransaction C height r = validateTransaction C height s := by
    intro height
    funext spent tx
    unfold validateTransaction
    rw [hinput]
  unfold validateTransactions
  rw [htx]

/-- States that agree on the tip, the block it names and the unspent outputs
accept the same next blocks. -/
theorem validateBlock_of_agree (hutxo : r.db.utxoSet = s.db.utxoSet) (htip : r.tip = s.tip)
    (hblock : r.getBlock s.tip.hash = s.getBlock s.tip.hash) (now : UInt64) (b : Block)
    (hv : validateBlock C now b s = .ok ()) : validateBlock C now b r = .ok () := by
  rw [validateBlock_ok_iff] at hv ⊢
  refine ⟨hv.size, hv.count, hv.nonempty, hv.pow, ?_, hv.merkle, hv.clock, fun hpos => ?_, ?_⟩
  · rw [htip]
    exact hv.link
  · -- the parent is the tip, which both states store
    have hlink := hv.link
    rw [if_neg (UInt64.pos_iff_ne_zero.mp hpos)] at hlink
    have hold := hv.parentTime hpos
    rw [beforeParent, hlink.1] at hold ⊢
    rwa [hblock]
  · rw [validateTransactions_congr hutxo]
    exact hv.body

section Restore

variable (hcf : CollisionFree C H) (hs : Linked C s) (hst : StoredIn C H s)
  (hrun : Run (Accepts C) s as s') (h0 : ∀ a ∈ as, a.block.height ≠ 0)
  (hb : ∀ a ∈ as, H a.block.header)

include hcf hs hst hrun h0 hb

/-- After the undo loop every height of the old chain leads where it did. -/
theorem undoDown_getBlockByHeight {h : UInt64} (hle : h ≤ s.tip.height) :
    (undoDown C s.tip.height as.length s').getBlockByHeight h = s.getBlockByHeight h ∧
      (undoDown C s.tip.height as.length s').db.blockHeightToHash.lookup h
        = s.db.blockHeightToHash.lookup h := by
  have hg := grown_run hcf hs hst hrun h0 hb
  have hheights := (undoDown_run hcf hs hst hrun h0 hb s' rfl fun _ => rfl).1
  have hblocks := (undoDown_frame C s.tip.height as.length s').1
  refine ⟨?_, by rw [hheights]⟩
  obtain ⟨b, hget, _, hlook⟩ := hs.getBlockByHeight hle
  have hle' : h ≤ s'.tip.height := by
    rw [UInt64.le_iff_toNat_le] at hle ⊢
    have := hg.height
    omega
  -- the block is still stored under its hash
  obtain ⟨b', hget', _, hlook'⟩ := hg.linked.getBlockByHeight hle'
  rw [hg.below h hle, hget] at hget'
  obtain rfl := Option.some.inj hget'
  have hstored : s'.getBlock (b.hash C) = some b := by
    rw [← getBlockByHeight_of_lookup hlook', hg.below h hle, hget]
  rw [getBlockByHeight_of_lookup ((congrArg (Finmap.lookup h) hheights).trans hlook), hget,
    getBlock, hblocks]
  exact hstored

/-- What a rollback over a run leaves. -/
theorem rollbackTo_run (hne : as ≠ []) (hw : WorkExact s) (hwork : chainWork s < 2 ^ 64) :
    (rollbackTo C s' s.tip.height).tip = s.tip ∧
      (rollbackTo C s' s.tip.height).db.blockHeightToHash = s.db.blockHeightToHash ∧
      (rollbackTo C s' s.tip.height).db.utxoSet
        = (s.db.utxoSet.write (utxoBatch C as)).write (undoUtxos C as) ∧
      (rollbackTo C s' s.tip.height).db.transactionIndex
        = (s.db.transactionIndex.write (indexBatch C as)).write (undoIndex C as) ∧
      (rollbackTo C s' s.tip.height).getBlock s.tip.hash = s.getBlock s.tip.hash := by
  have hg := grown_run hcf hs hst hrun h0 hb
  have hlen : 0 < as.length := List.length_pos_iff.mpr hne
  have hgt : ¬ s'.tip.height ≤ s.tip.height := by
    rw [UInt64.le_iff_toNat_le]
    have := hg.height
    omega
  have hcount : (s'.tip.height - s.tip.height).toNat = as.length := by
    have := sub_toNat_of_not_le hgt
    have := hg.height
    omega
  obtain ⟨hheights, hutxos, hindex⟩ := undoDown_run hcf hs hst hrun h0 hb s' rfl fun _ => rfl
  have hget := fun h hle => (undoDown_getBlockByHeight hcf hs hst hrun h0 hb (h := h) hle).1
  obtain ⟨b, hbtip, _, hlook⟩ := hs.getBlockByHeight (UInt64.le_refl s.tip.height)
  have hhash : b.hash C = s.tip.hash := Option.some.inj (hlook.symm.trans hs.tip)
  have hbtip' := (hget _ (UInt64.le_refl _)).trans hbtip
  -- the difficulty is summed over the same blocks
  have hcalc : (undoDown C s.tip.height as.length s').calculateTotalDifficulty s.tip.height
      = s.tip.totalDifficulty := calculateTotalDifficulty_of_agree hget hw hwork
  have hroll : rollbackTo C s' s.tip.height
      = (undoDown C s.tip.height as.length s').setTip s.tip := by
    rw [rollbackTo, if_neg hgt, hcount, retip_of_some hbtip', hhash, hcalc]
  rw [hroll]
  refine ⟨rfl, hheights, ?_, ?_, ?_⟩
  · rw [← hg.utxos]
    exact hutxos
  · rw [← hg.index]
    exact hindex
  · show (undoDown C s.tip.height as.length s').getBlock s.tip.hash = s.getBlock s.tip.hash
    have hl1 := (undoDown_getBlockByHeight hcf hs hst hrun h0 hb (UInt64.le_refl _)).2.trans hs.tip
    rw [← getBlockByHeight_of_lookup hl1, ← getBlockByHeight_of_lookup hs.tip]
    exact hget _ (UInt64.le_refl _)

/-- Over a run of positive heights, a rollback restores the old state iff
nothing the undone blocks name was there. -/
theorem restored_run_iff (hne : as ≠ []) (hw : WorkExact s) (hwork : chainWork s < 2 ^ 64) :
    Restored C s (rollbackTo C s' s.tip.height) ↔ Untouched C s as := by
  obtain ⟨htip, hheights, hutxos, hindex, hblock⟩ :=
    rollbackTo_run hcf hs hst hrun h0 hb hne hw hwork
  constructor
  · intro hr a ha tx htx
    have hu := utxos_restored_iff.mp (hutxos.symm.trans hr.utxoSet) a ha tx htx
    exact ⟨index_restored_iff.mp (hindex.symm.trans hr.transactionIndex) a ha tx htx, hu⟩
  · intro hun
    have hu := hutxos.trans (utxos_restored_iff.mpr fun a ha tx htx => (hun a ha tx htx).2)
    have hi := hindex.trans (index_restored_iff.mpr fun a ha tx htx => (hun a ha tx htx).1)
    exact ⟨hu, hi, hheights, htip, fun now b _ hv => validateBlock_of_agree hu htip hblock now b hv⟩

end Restore

/-! ## Every reachable store -/

/-- The headers of a store's history and of the blocks accepted after it. -/
def InHistory (C : Crypto) (network : NetworkId) (ops : List StoreOp) (as : List Arrival)
    (h : BlockHeader) : Prop :=
  InPlay C network ops h ∨ ∃ a ∈ as, a.block.header = h

/-- **Rollback against commit.** Take any store reached by commits and rollbacks
and any blocks accepted on top of it, none of them at height `0`, with no two
headers of one hash and the work of the store below `2 ^ 64`. Rolling back to
the store's height restores it iff no undone transaction spends or makes an
output that was unspent there, or has a hash that was indexed there. -/
theorem rollback_restores_iff {network : NetworkId} {ops : List StoreOp}
    (hrun : Run (Accepts C) (runOps C (openNew C network) ops) as s')
    (hops : PositiveHeights ops) (h0 : ∀ a ∈ as, a.block.height ≠ 0) (hne : as ≠ [])
    (hcf : CollisionFree C (InHistory C network ops as))
    (hwork : chainWork (runOps C (openNew C network) ops) < 2 ^ 64) :
    Restored C (runOps C (openNew C network) ops)
        (rollbackTo C s' (runOps C (openNew C network) ops).tip.height) ↔
      Untouched C (runOps C (openNew C network) ops) as := by
  have hcf' : CollisionFree C (InPlay C network ops) := hcf.mono fun _ h => Or.inl h
  have hst : StoredIn C (InHistory C network ops as) (runOps C (openNew C network) ops) :=
    fun k b hk => ⟨(storedIn_runOps (List.prefix_refl ops) k b hk).1,
      Or.inl (storedIn_runOps (List.prefix_refl ops) k b hk).2⟩
  exact restored_run_iff hcf (linked_runOps hcf' hops.keepsGenesis ops (List.prefix_refl ops)) hst
    hrun h0 (fun a ha => Or.inr ⟨a, ha, rfl⟩) hne
    (workExact_runOps hcf' hops ops (List.prefix_refl ops)) hwork

theorem rollback_restores_iff_devnetFirst :
    Restored devnetCrypto devnetOpen
      (rollbackTo devnetCrypto (committed devnetCrypto devnetOpen devnetFirst) 0) := by
  have hrun : Run (Accepts devnetCrypto) (runOps devnetCrypto devnetOpen [])
      [⟨1735689600, devnetFirst⟩] (committed devnetCrypto devnetOpen devnetFirst) :=
    Run.single (accepts_iff.mpr ⟨devnetFirst_valid, rfl⟩)
  refine (rollback_restores_iff hrun (fun b hb => absurd hb List.not_mem_nil) ?_
    (List.cons_ne_nil _ _) ?_ ?_).mpr ?_
  · intro a ha
    rw [List.mem_singleton.mp ha]
    decide +kernel
  · refine devnet_collisionFree.mono ?_
    rintro h ((rfl | ⟨b, hb, _⟩) | ⟨a, ha, rfl⟩)
    · exact Or.inl rfl
    · exact absurd hb List.not_mem_nil
    · rw [List.mem_singleton.mp ha]
      exact Or.inr rfl
  · show chainWork (openNew devnetCrypto NetworkId.DEVNET) < 2 ^ 64
    rw [chainWork, canonicalBlocks_openNew]
    decide +kernel
  · exact fun _ _ _ _ => ⟨rfl, fun _ _ => rfl, fun _ _ => rfl⟩

/-- Rollback undoes commit, with nothing said about the undone blocks. -/
def RollbackUndoesCommit (C : Crypto) : Prop :=
  ∀ (network : NetworkId) (ops : List StoreOp) (as : List Arrival) (s' : ChainDB),
    Run (Accepts C) (runOps C (openNew C network) ops) as s' →
    (runOps C (openNew C network) ops).tip.height < s'.tip.height →
    Restored C (runOps C (openNew C network) ops)
      (rollbackTo C s' (runOps C (openNew C network) ops).tip.height)

/-- The devnet after its plain first block. -/
def afterPlain (C : Crypto) : ChainDB := committed C (openNew C NetworkId.DEVNET) (plainBlock C)

/-- A second block with the very same coinbase transaction. -/
def repeatBlock (C : Crypto) : Block := easyBlock C (afterPlain C) 1735689600 [devnetCoinbase]

/-- The reward of the first block, as the second block finds it. -/
theorem afterPlain_getUtxo (C : Crypto) :
    (afterPlain C).getUtxo ⟨devnetCoinbase.txid C, 0⟩
      = some ⟨TxOutput.p2pkh Stream.A.blockReward Address.ZERO, 1, true⟩ :=
  committed_getUtxo_singleton _ rfl rfl

theorem repeatBlock_valid (C : Crypto) :
    BlockValid C 1735689600 (repeatBlock C) (afterPlain C) := by
  refine easyBlock_valid (bodyValid_coinbase (coinbaseValid_coinbase (UInt64.le_refl _)))
    (by decide +kernel) (by decide) (by decide : (0 : UInt64) + 1 + 1 ≠ 0) (by decide) ?_
  intro p hp
  have hfirst : (afterPlain C).getBlock (afterPlain C).tip.hash = some (plainBlock C) :=
    committed_getBlock_tip _ _
  rw [hfirst] at hp
  rw [← Option.some.inj hp]
  exact UInt64.le_refl _

/-- Rolling the second block back deletes the output both blocks made. -/
theorem rollback_repeatBlock (C : Crypto) :
    (rollbackTo C (committed C (afterPlain C) (repeatBlock C)) (afterPlain C).tip.height).getUtxo
      ⟨devnetCoinbase.txid C, 0⟩ = none := by
  have hlook : (committed C (afterPlain C) (repeatBlock C)).db.blockHeightToHash.lookup
      (repeatBlock C).height = some ((repeatBlock C).hash C) := by
    rw [committed_blockHeightToHash, Finmap.lookup_insert]
  have hfind : (committed C (afterPlain C) (repeatBlock C)).getBlockByHeight
      (repeatBlock C).height = some (repeatBlock C) := by
    rw [getBlockByHeight_of_lookup hlook, committed_getBlock_self]
  have hundo : undoDown C (afterPlain C).tip.height 1
      (committed C (afterPlain C) (repeatBlock C))
        = undoBlock C (committed C (afterPlain C) (repeatBlock C)) (repeatBlock C) := by
    have hheight : (afterPlain C).tip.height + UInt64.ofNat (0 + 1) = (repeatBlock C).height := rfl
    rw [undoDown, hheight, hfind]
    rfl
  have hgt : ¬ (committed C (afterPlain C) (repeatBlock C)).tip.height
      ≤ (afterPlain C).tip.height := (by decide : ¬ (0 : UInt64) + 1 + 1 ≤ 0 + 1)
  have hcount : ((committed C (afterPlain C) (repeatBlock C)).tip.height
      - (afterPlain C).tip.height).toNat = 1 :=
    (by decide : ((0 : UInt64) + 1 + 1 - (0 + 1)).toNat = 1)
  rw [rollbackTo, if_neg hgt, hcount, hundo, getUtxo, retip_utxoSet, undoBlock_utxoSet]
  exact Finmap.lookup_erase ..

/-- Whatever the hash functions: undoing the second block takes the first
block's output with it. -/
theorem rollback_not_inverse : ¬ ∃ C : Crypto, RollbackUndoesCommit C := by
  intro h
  obtain ⟨C, hC⟩ := h
  have hs : runOps C (openNew C NetworkId.DEVNET) [.commit (plainBlock C)] = afterPlain C := by
    rw [runOps, List.foldl_cons, List.foldl_nil, StoreOp.run,
      commitBlock_ok_iff.mpr ⟨Or.inr ⟨rfl, rfl⟩, rfl⟩]
    rfl
  have hr := hC NetworkId.DEVNET [.commit (plainBlock C)] [⟨1735689600, repeatBlock C⟩]
    (committed C (afterPlain C) (repeatBlock C))
  rw [hs] at hr
  -- the output of the first block is gone, and should still be there
  have hutxo := (hr (Run.single (accepts_iff.mpr ⟨repeatBlock_valid C, rfl⟩))
    (by decide : (0 : UInt64) + 1 < 0 + 1 + 1)).utxoSet
  have hgone := rollback_repeatBlock C
  rw [getUtxo, hutxo, ← getUtxo, afterPlain_getUtxo] at hgone
  cases hgone

end Pyrax.Ledger
