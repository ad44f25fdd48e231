import Pyrax.Ledger.Grow
import Pyrax.Ledger.Extend

/-!
# The UTXO set against the replay of the chain

What the UTXO set is for, said without the database: an output is unspent when
some transaction of the chain made it and no later one spends it (`Unspent`;
when a hash recurs, the latest maker counts). `UtxoIsReplay` is the statement
that the column says the same as the canonical chain, from the genesis block on.

Block commits implement this ledger step exactly: after a run from an empty
column, the column is the replay of the run's transactions
(`getUtxo_iff_unspent`). The genesis block is stored by another writer that
leaves the UTXO column alone, so its outputs are on the chain and not in the
set, until some block makes them again (`utxoIsReplay_iff`).
-/

namespace Pyrax.Ledger

open Base ChainDB Validation

/-- A transaction and the height of its block. -/
abbrev Placed := UInt64 × Transaction

/-- The transactions of some blocks, in order. -/
def placedTxs (bs : List Block) : List Placed :=
  bs.flatMap fun b => b.transactions.map fun tx => (b.height, tx)

/-- A placed transaction makes this unspent output. -/
def Creates (C : Crypto) (p : Placed) (o : OutPoint) (u : Utxo) : Prop :=
  ∃ v out, p.2.outputs[v]? = some out ∧ o = ⟨p.2.txid C, UInt32.ofNat v⟩ ∧
    u = ⟨out, p.1, p.2.isCoinbase⟩

/-- The output is made by a transaction of the list and neither spent nor made
again by a later one. -/
def Unspent (C : Crypto) (txs : List Placed) (o : OutPoint) (u : Utxo) : Prop :=
  ∃ pre p post, txs = pre ++ p :: post ∧ Creates C p o u ∧
    ∀ q ∈ post, o ∉ q.2.spends ∧ o ∉ created C q.2

/-- The UTXO set is the replay of the canonical chain, genesis included. -/
def UtxoIsReplay (C : Crypto) (s : ChainDB) : Prop :=
  ∀ o u, s.getUtxo o = some u ↔ Unspent C (placedTxs (canonicalBlocks s)) o u

/-- The outputs of every transaction have indices that fit in a `u32`. -/
def SmallOutputs (txs : List Placed) : Prop := ∀ p ∈ txs, p.2.outputs.length < 2 ^ 32 - 1

variable {C : Crypto} {s s' : ChainDB} {as : List Arrival} {o : OutPoint} {u : Utxo}

/-! ## Replaying one transaction -/

theorem Creates.mem_created {p : Placed} (h : Creates C p o u) : o ∈ created C p.2 := by
  obtain ⟨v, out, hv, ho, _⟩ := h
  exact ChainDB.mem_created.mpr ⟨v, (List.getElem?_eq_some_iff.mp hv).1, ho⟩

theorem exists_creates {p : Placed} (h : o ∈ created C p.2) : ∃ u, Creates C p o u := by
  obtain ⟨v, hv, ho⟩ := ChainDB.mem_created.mp h
  exact ⟨_, v, _, List.getElem?_eq_getElem hv, ho, rfl⟩

/-- Nothing small makes the null reference. -/
theorem Creates.ne_coinbase {p : Placed} (h : Creates C p o u)
    (hsmall : p.2.outputs.length < 2 ^ 32 - 1) : o ≠ OutPoint.coinbase := by
  obtain ⟨v, out, hv, rfl, _⟩ := h
  have hlt := (List.getElem?_eq_some_iff.mp hv).1
  intro hc
  have hn := congrArg (fun x : OutPoint => x.vout.toNat) hc
  simp only [vout_toNat (by omega : v < 2 ^ 32 - 1)] at hn
  have hmax : OutPoint.coinbase.vout.toNat = 2 ^ 32 - 1 := rfl
  omega

/-- Away from the null reference, what a transaction names as input it spends. -/
theorem mem_spentBy_iff {tx : Transaction} (ho : o ≠ OutPoint.coinbase) :
    o ∈ spentBy tx ↔ o ∈ tx.spends := by
  refine ⟨mem_spends_of_mem_spentBy, fun h => ?_⟩
  obtain ⟨i, hi, rfl⟩ := List.mem_map.mp h
  refine List.mem_map_of_mem (List.mem_filter.mpr ⟨hi, ?_⟩)
  rw [Bool.not_eq_true', Bool.eq_false_iff]
  exact fun hc => ho (OutPoint.isCoinbase_iff.mp hc)

/-- A transaction's batch does not name an outpoint it neither spends nor makes. -/
theorem lastWrite_utxoOps_none {p : Placed} :
    Column.lastWrite o (utxoOps C p.1 p.2) = none ↔ o ∉ spentBy p.2 ∧ o ∉ created C p.2 := by
  rw [Column.lastWrite_eq_none_iff]
  constructor
  · intro h
    refine ⟨fun hs => h _ (mem_utxoOps_delete.mpr hs) rfl, fun hc => ?_⟩
    obtain ⟨u, v, out, hv, ho, hu⟩ := exists_creates (p := p) hc
    exact h (.put o u) (mem_utxoOps_put.mpr ⟨v, out, hv, ho, hu⟩) rfl
  · rintro ⟨hs, hc⟩ op hop rfl
    rcases key_of_mem_utxoOps hop with h | h
    · exact hs h
    · exact hc h

/-- A transaction's batch leaves exactly what it makes. -/
theorem lastWrite_utxoOps_some {p : Placed} (hsmall : p.2.outputs.length < 2 ^ 32 - 1) :
    Column.lastWrite o (utxoOps C p.1 p.2) = some (some u) ↔ Creates C p o u := by
  constructor
  · intro h
    obtain ⟨op, hop, hk, hv⟩ := Column.exists_of_lastWrite h
    cases op with
    | delete _ => cases hv
    | put o' u' =>
      obtain rfl : o' = o := hk
      obtain rfl : u' = u := Option.some.inj hv
      exact mem_utxoOps_put.mp hop
  · intro h
    -- among the puts alone there is a last write, and it is this one: indices are distinct
    rw [utxoOps, Column.lastWrite_append]
    obtain ⟨v, out, hv, rfl, rfl⟩ := h
    have hlt := (List.getElem?_eq_some_iff.mp hv).1
    cases hl : Column.lastWrite (⟨p.2.txid C, UInt32.ofNat v⟩ : OutPoint)
        (p.2.outputs.mapIdx fun vout output =>
          (WriteOp.put ⟨p.2.txid C, UInt32.ofNat vout⟩ ⟨output, p.1, p.2.isCoinbase⟩ :
            WriteOp OutPoint Utxo)) with
    | none =>
      refine absurd rfl (Column.lastWrite_eq_none_iff.mp hl (.put _ ⟨out, p.1, p.2.isCoinbase⟩)
        (List.mem_mapIdx.mpr ⟨v, hlt, ?_⟩))
      rw [(List.getElem?_eq_some_iff.mp hv).2]
    | some r =>
      obtain ⟨op, hop, hk, hr⟩ := Column.exists_of_lastWrite hl
      obtain ⟨w, hw, rfl⟩ := List.mem_mapIdx.mp hop
      have hvw : UInt32.ofNat w = UInt32.ofNat v := congrArg OutPoint.vout hk
      have hn := congrArg UInt32.toNat hvw
      rw [vout_toNat (by omega), vout_toNat (by omega)] at hn
      subst hn
      rw [← hr, (List.getElem?_eq_some_iff.mp hv).2]
      rfl

/-! ## Replaying a list of transactions -/

/-- The batch of a list of placed transactions. -/
def placedOps (C : Crypto) (txs : List Placed) : List (WriteOp OutPoint Utxo) :=
  txs.flatMap fun p => utxoOps C p.1 p.2

/-- An output is unspent after a longer list if it is after the tail, or the
head makes it and the tail leaves it alone. -/
theorem unspent_cons_iff {p : Placed} {txs : List Placed} :
    Unspent C (p :: txs) o u ↔
      Unspent C txs o u ∨ Creates C p o u ∧ ∀ q ∈ txs, o ∉ q.2.spends ∧ o ∉ created C q.2 := by
  constructor
  · intro h
    obtain ⟨pre, p', post, heq, hc, hlater⟩ := h
    cases pre with
    | nil =>
      obtain ⟨rfl, rfl⟩ := List.cons.inj heq
      exact Or.inr ⟨hc, hlater⟩
    | cons p'' pre =>
      obtain ⟨_, rfl⟩ := List.cons.inj heq
      exact Or.inl ⟨pre, p', post, rfl, hc, hlater⟩
  · intro h
    rcases h with ⟨pre, p', post, rfl, hc, hlater⟩ | ⟨hc, hlater⟩
    · exact ⟨p :: pre, p', post, rfl, hc, hlater⟩
    · exact ⟨[], p, txs, rfl, hc, hlater⟩

/-- Whatever is unspent was made. -/
theorem Unspent.exists_creates {txs : List Placed} (h : Unspent C txs o u) :
    ∃ p ∈ txs, Creates C p o u := by
  obtain ⟨pre, p, post, rfl, hc, _⟩ := h
  exact ⟨p, List.mem_append_right _ (List.mem_cons_self ..), hc⟩

theorem lastWrite_placedOps_none {txs : List Placed} (ho : o ≠ OutPoint.coinbase) :
    Column.lastWrite o (placedOps C txs) = none ↔
      ∀ q ∈ txs, o ∉ q.2.spends ∧ o ∉ created C q.2 := by
  rw [Column.lastWrite_eq_none_iff]
  constructor
  · intro h q hq
    rw [← mem_spentBy_iff ho]
    exact lastWrite_utxoOps_none.mp (Column.lastWrite_eq_none_iff.mpr fun op hop =>
      h op (List.mem_flatMap.mpr ⟨q, hq, hop⟩))
  · intro h op hop hk
    obtain ⟨q, hq, hop⟩ := List.mem_flatMap.mp hop
    have hnot := h q hq
    rw [← mem_spentBy_iff ho] at hnot
    exact Column.lastWrite_eq_none_iff.mp (lastWrite_utxoOps_none.mpr hnot) op hop hk

/-- **Replay.** The last write of a list of transactions' batches to an
outpoint is what the list leaves unspent there. -/
theorem lastWrite_placedOps_some : ∀ {txs : List Placed}, SmallOutputs txs →
    (Column.lastWrite o (placedOps C txs) = some (some u) ↔ Unspent C txs o u)
  | [], _ => by
    refine ⟨fun h => absurd h (by simp [placedOps, Column.lastWrite]), ?_⟩
    intro h
    obtain ⟨pre, p, post, heq, _⟩ := h
    exact absurd heq (by simp)
  | p :: txs, hsmall => by
    have htail : SmallOutputs txs := fun q hq => hsmall q (List.mem_cons_of_mem _ hq)
    have ih := lastWrite_placedOps_some htail
    have hp := hsmall p (List.mem_cons_self ..)
    have hcons : placedOps C (p :: txs) = utxoOps C p.1 p.2 ++ placedOps C txs :=
      List.flatMap_cons
    rw [hcons, Column.lastWrite_append, unspent_cons_iff, ← ih]
    cases hl : Column.lastWrite o (placedOps C txs) with
    | none =>
      -- the tail does not touch the outpoint, the head decides
      rw [Option.none_or, lastWrite_utxoOps_some hp]
      refine ⟨fun hc => Or.inr ⟨hc, ?_⟩, fun h => ?_⟩
      · exact (lastWrite_placedOps_none (hc.ne_coinbase hp)).mp hl
      · rcases h with h | ⟨hc, _⟩
        · cases h
        · exact hc
    | some r =>
      -- the tail decides; were it the head, the tail would have left the outpoint alone
      rw [Option.some_or]
      refine ⟨Or.inl, fun h => ?_⟩
      rcases h with h | ⟨hc, hlater⟩
      · exact h
      · rw [(lastWrite_placedOps_none (hc.ne_coinbase hp)).mpr hlater] at hl
        cases hl

/-! ## Runs of accepted blocks -/

/-- The transactions of a run. -/
def runTxs (as : List Arrival) : List Placed := placedTxs (as.map (·.block))

theorem runTxs_append (as bs : List Arrival) : runTxs (as ++ bs) = runTxs as ++ runTxs bs := by
  rw [runTxs, List.map_append, placedTxs, List.flatMap_append]
  rfl

theorem mem_runTxs {p : Placed} :
    p ∈ runTxs as ↔ ∃ a ∈ as, p.2 ∈ a.block.transactions ∧ p.1 = a.block.height := by
  simp only [runTxs, placedTxs, List.mem_flatMap, List.mem_map]
  constructor
  · intro h
    obtain ⟨_, ⟨a, ha, rfl⟩, tx, htx, rfl⟩ := h
    exact ⟨a, ha, htx, rfl⟩
  · intro h
    obtain ⟨a, ha, htx, hh⟩ := h
    exact ⟨_, ⟨a, ha, rfl⟩, p.2, htx, by rw [← hh]⟩

theorem utxoBatch_eq (C : Crypto) (as : List Arrival) :
    utxoBatch C as = placedOps C (runTxs as) := by
  induction as with
  | nil => rfl
  | cons a as ih =>
    have htail : utxoBatch C (a :: as)
        = a.block.transactions.flatMap (utxoOps C a.block.height) ++ utxoBatch C as :=
      List.flatMap_cons
    have hrun : runTxs (a :: as)
        = (a.block.transactions.map fun tx => (a.block.height, tx)) ++ runTxs as := by
      rw [runTxs, List.map_cons, placedTxs, List.flatMap_cons]
      rfl
    rw [htail, hrun, ih, placedOps, placedOps, List.flatMap_append, List.flatMap_map]

/-- The UTXO column after a run is the old one with the run's batches written. -/
theorem utxoSet_run (hrun : Run (Accepts C) s as s') :
    s'.db.utxoSet = s.db.utxoSet.write (utxoBatch C as) := by
  induction hrun with
  | nil => rfl
  | snoc _ hlast ih =>
    obtain ⟨_, rfl⟩ := accepts_iff.mp hlast
    rw [committed_utxoSet, ih, ← Column.write_append, utxoBatch, utxoBatch, List.flatMap_append,
      List.flatMap_singleton]

theorem smallOutputs_run (hrun : Run (Accepts C) s as s') : SmallOutputs (runTxs as) := by
  induction hrun with
  | nil => exact fun _ hp => absurd hp List.not_mem_nil
  | snoc _ hlast ih =>
    intro p hp
    rw [runTxs_append, List.mem_append] at hp
    rcases hp with hp | hp
    · exact ih p hp
    · obtain ⟨a, ha, htx, _⟩ := mem_runTxs.mp hp
      rw [List.mem_singleton.mp ha] at htx
      exact outputs_length_lt (accepts_iff.mp hlast).1 htx

/-- Block commits are the ledger's step: after a run on a new database the UTXO
set is the replay of the run's transactions. -/
theorem getUtxo_iff_unspent {network : NetworkId}
    (hrun : Run (Accepts C) (openNew C network) as s) :
    s.getUtxo o = some u ↔ Unspent C (runTxs as) o u := by
  rw [← lastWrite_placedOps_some (smallOutputs_run hrun), getUtxo, utxoSet_run hrun,
    Column.lookup_write, openNew_utxoSet, Finmap.lookup_empty, utxoBatch_eq]
  cases Column.lastWrite o (placedOps C (runTxs as)) with
  | none => simp
  | some r => simp

/-- In a run on a new database everything spent was made by the run. -/
theorem spent_was_created {network : NetworkId}
    (hrun : Run (Accepts C) (openNew C network) as s) (ho : o ≠ OutPoint.coinbase) :
    (∃ q ∈ runTxs as, o ∈ q.2.spends) → ∃ q ∈ runTxs as, o ∈ created C q.2 := by
  induction hrun with
  | nil => exact fun ⟨_, hq, _⟩ => absurd hq List.not_mem_nil
  | @snoc s₁ s₂ ls l hprev hlast ih =>
    intro h
    obtain ⟨q, hq, hsp⟩ := h
    rw [runTxs_append]
    rw [runTxs_append, List.mem_append] at hq
    rcases hq with hq | hq
    · obtain ⟨q', hq', hc⟩ := ih ⟨q, hq, hsp⟩
      exact ⟨q', List.mem_append_left _ hq', hc⟩
    · obtain ⟨a, ha, htx, _⟩ := mem_runTxs.mp hq
      rw [List.mem_singleton.mp ha] at htx
      rcases body_cases (accepts_iff.mp hlast).1 with hnil | ⟨coinbase, rest, htxs, hbody⟩
      · rw [hnil] at htx
        exact absurd htx List.not_mem_nil
      · rw [htxs] at htx
        rcases List.mem_cons.mp htx with heq | hmem
        · -- the coinbase names only the null reference
          rw [heq, Transaction.spends_of_isCoinbase hbody.coinbase.isCoinbase,
            List.mem_singleton] at hsp
          exact absurd hsp ho
        · -- any other input was unspent before its block, and so made by the run
          obtain ⟨i, hi, rfl⟩ := List.mem_map.mp hsp
          obtain ⟨utxo, hutxo, _⟩ := (hbody.valid q.2 hmem).input i hi
          obtain ⟨p, hp, hc⟩ := ((getUtxo_iff_unspent hprev).mp hutxo).exists_creates
          exact ⟨p, List.mem_append_left _ hp, hc.mem_created⟩

/-! ## The genesis block -/

/-- Each output of the network's genesis coinbase is made again by the run. -/
def GenesisRecreated (C : Crypto) (network : NetworkId) (as : List Arrival) : Prop :=
  ∀ v < (Genesis.genesisOutputs network).length, ∃ a ∈ as, ∃ tx ∈ a.block.transactions,
    tx.txid C = (Genesis.coinbaseTx network).txid C ∧ v < tx.outputs.length

/-- The genesis coinbase, in its place on the chain. -/
def genesisPlaced (network : NetworkId) : Placed := (0, Genesis.coinbaseTx network)

theorem genesis_small (network : NetworkId) :
    (genesisPlaced network).2.outputs.length < 2 ^ 32 - 1 :=
  Nat.lt_of_le_of_lt (Genesis.genesisOutputs_length_le network) (by decide)

/-- An output of the genesis coinbase is made by the run iff some transaction
of the run has the coinbase's hash and reaches that index. -/
theorem genesisRecreated_iff {network : NetworkId}
    (hrun : Run (Accepts C) (openNew C network) as s) :
    GenesisRecreated C network as ↔
      ∀ o ∈ created C (Genesis.coinbaseTx network), ∃ q ∈ runTxs as, o ∈ created C q.2 := by
  have hsmall := smallOutputs_run hrun
  have hgen := genesis_small network
  constructor
  · intro h o ho
    obtain ⟨v, hv, rfl⟩ := ChainDB.mem_created.mp ho
    obtain ⟨a, ha, tx, htx, hid, hlt⟩ := h v hv
    exact ⟨(a.block.height, tx), mem_runTxs.mpr ⟨a, ha, htx, rfl⟩,
      ChainDB.mem_created.mpr ⟨v, hlt, by rw [hid]⟩⟩
  · intro h v hv
    obtain ⟨q, hq, hc⟩ := h _ (ChainDB.mem_created.mpr ⟨v, hv, rfl⟩)
    obtain ⟨w, hw, heq⟩ := ChainDB.mem_created.mp hc
    obtain ⟨a, ha, htx, _⟩ := mem_runTxs.mp hq
    have hvout : UInt32.ofNat v = UInt32.ofNat w := congrArg OutPoint.vout heq
    have hn := congrArg UInt32.toNat hvout
    have hq' := hsmall q hq
    have hv' : v < (genesisPlaced network).2.outputs.length := hv
    rw [vout_toNat (by omega), vout_toNat (by omega)] at hn
    exact ⟨a, ha, q.2, htx, (congrArg OutPoint.txid heq).symm, hn ▸ hw⟩

/-- The replay from the genesis block on agrees with the replay of the run iff
the run makes the genesis outputs again. -/
theorem replay_with_genesis_iff {network : NetworkId}
    (hrun : Run (Accepts C) (openNew C network) as s) :
    (∀ o u, s.getUtxo o = some u ↔ Unspent C (genesisPlaced network :: runTxs as) o u) ↔
      GenesisRecreated C network as := by
  rw [genesisRecreated_iff hrun]
  constructor
  · intro h o ho
    obtain ⟨u, hc⟩ := exists_creates (p := genesisPlaced network) ho
    have hne := hc.ne_coinbase (genesis_small network)
    refine Classical.byContradiction fun hno => ?_
    -- an output never made by the run is never spent by it, so the chain leaves it unspent
    have hlater : ∀ q ∈ runTxs as, o ∉ q.2.spends ∧ o ∉ created C q.2 := fun q hq =>
      ⟨fun hsp => hno (spent_was_created hrun hne ⟨q, hq, hsp⟩), fun hcr => hno ⟨q, hq, hcr⟩⟩
    have hsome := (h o u).mpr (unspent_cons_iff.mpr (Or.inr ⟨hc, hlater⟩))
    obtain ⟨p, hp, hc'⟩ := ((getUtxo_iff_unspent hrun).mp hsome).exists_creates
    exact (hlater p hp).2 hc'.mem_created
  · intro h o u
    rw [getUtxo_iff_unspent hrun, unspent_cons_iff]
    refine ⟨Or.inl, ?_⟩
    intro h
    rcases h with hu | ⟨hc, hlater⟩
    · exact hu
    · obtain ⟨q, hq, hcr⟩ := h o hc.mem_created
      exact absurd hcr (hlater q hq).2

/-- **The UTXO set and the chain.** After accepting blocks of positive height on
a new database, no two headers having one hash, the UTXO set is the replay of
the canonical chain iff every output of the genesis block has been made again. -/
theorem utxoIsReplay_iff {network : NetworkId}
    (hrun : Run (Accepts C) (openNew C network) as s) (h0 : ∀ a ∈ as, a.block.height ≠ 0)
    (hcf : CollisionFree C (RunHeaders C network as)) :
    UtxoIsReplay C s ↔ GenesisRecreated C network as := by
  have hchain : placedTxs (canonicalBlocks s) = genesisPlaced network :: runTxs as := by
    rw [canonicalBlocks_run hrun h0 hcf, placedTxs, List.flatMap_cons]
    rfl
  rw [UtxoIsReplay, hchain]
  exact replay_with_genesis_iff hrun

/-- BLAKE3 of the mainnet's genesis coinbase and header, and of the header of a
first block of difficulty `1` that holds that coinbase again. -/
def mainnetTable : List (List UInt8 × H256) :=
  let genesisTx := H256.ofNatBE 0xf5be3a3a97bdaf22821a59b01ac8ca6439e67ae96a2402fbec9631d0028963da
  let genesis := H256.ofNatBE 0x5669fde844731a1e7c1a11ac0c68e221340286bd95e552407f3b063cb5d6dacc
  let first := H256.ofNatBE 0xacdd7f29fa086b5dc09a419aa6c9b2160da1729a234a959d365989c5b9c737f7
  [((Genesis.coinbaseTx NetworkId.MAINNET).serialize, genesisTx),
   (BlockHeader.preimage ⟨1, 0, H256.zero, genesisTx, H256.zero, 1735689600, 1000000, 0, 0, 0,
      Address.ZERO⟩, genesis),
   (BlockHeader.preimage ⟨1, 0, genesis, genesisTx, H256.zero, 1735689600, 1, 0, 0, 1,
      Address.ZERO⟩, first)]

def mainnetCrypto : Crypto := Crypto.ofTable mainnetTable

/-- A first block of the mainnet whose coinbase is the genesis coinbase. -/
def mainnetRepeat : Block :=
  easyBlock mainnetCrypto (openNew mainnetCrypto NetworkId.MAINNET) 1735689600
    [Genesis.coinbaseTx NetworkId.MAINNET]

theorem utxoIsReplay_iff_mainnetRepeat :
    UtxoIsReplay mainnetCrypto
      (committed mainnetCrypto (openNew mainnetCrypto NetworkId.MAINNET) mainnetRepeat) := by
  have hvalid : BlockValid mainnetCrypto 1735689600 mainnetRepeat
      (openNew mainnetCrypto NetworkId.MAINNET) :=
    easyBlock_valid_openNew _ _ ⟨rfl, List.cons_ne_nil _ _, by decide +kernel⟩ (by decide +kernel)
  have hrun : Run (Accepts mainnetCrypto) (openNew mainnetCrypto NetworkId.MAINNET)
      [⟨1735689600, mainnetRepeat⟩] _ := Run.single (accepts_iff.mpr ⟨hvalid, rfl⟩)
  refine (utxoIsReplay_iff hrun ?_ ?_).mpr ?_
  · intro a ha
    rw [List.mem_singleton.mp ha]
    decide +kernel
  · refine (collisionFree_pair (a := (Genesis.genesisBlock mainnetCrypto NetworkId.MAINNET).header)
      (b := mainnetRepeat.header) (by decide +kernel)).mono fun h hh => hh.imp id ?_
    intro h
    obtain ⟨a, ha, rfl⟩ := h
    rw [List.mem_singleton.mp ha]
  · intro v hv
    exact ⟨_, List.mem_singleton_self _, _, List.mem_singleton_self _, rfl, hv⟩

/-- Under no hash functions is the UTXO set the replay of the chain after every
run: a new devnet does not hold what its genesis block allocates. -/
theorem utxoSet_not_replay :
    ¬ ∃ C : Crypto, ∀ (network : NetworkId) (as : List Arrival) (s : ChainDB),
      Run (Accepts C) (openNew C network) as s → UtxoIsReplay C s := by
  intro h
  obtain ⟨C, hC⟩ := h
  have h := hC NetworkId.DEVNET [] _ (Run.nil _)
  rw [UtxoIsReplay, canonicalBlocks_openNew] at h
  have hnone : (openNew C NetworkId.DEVNET).getUtxo
      ⟨(Genesis.coinbaseTx NetworkId.DEVNET).txid C, UInt32.ofNat 0⟩ = none := rfl
  have hsome := (h _ _).mpr ⟨[], genesisPlaced NetworkId.DEVNET, [], rfl,
    ⟨0, TxOutput.p2pkh Genesis.DEVNET_FAUCET_ALLOCATION Genesis.DEVNET_FAUCET_ADDRESS, rfl, rfl,
      rfl⟩, fun q hq => absurd hq List.not_mem_nil⟩
  exact absurd (hnone.symm.trans hsome) (by simp)

end Pyrax.Ledger
