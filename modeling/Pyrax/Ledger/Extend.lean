import Pyrax.Ledger.Accept

/-!
# Extending any chain by a block of minimal difficulty

Difficulty is a field of the header that no rule constrains: a header that
states difficulty `1` satisfies `verify_pow` whatever its hash is. So on every
state a block can be written down that passes every check but those on its
transactions (`easyBlock_valid`), without looking inside BLAKE3. The theorems
that show a rule to be missing use it to build their blocks.
-/

namespace Pyrax.Ledger

open Base ChainDB Validation

variable {C : Crypto} {s : ChainDB} {t now : UInt64}

@[simp] theorem easyBlock_height (txs : List Transaction) :
    (easyBlock C s t txs).height = s.tip.height + 1 := rfl

/-- Such a block is valid as soon as its transactions are. -/
theorem easyBlock_valid {coinbase : Transaction} {rest : List Transaction}
    (hbody : BodyValid C s (s.tip.height + 1) coinbase rest)
    (hsize : 169 + ((coinbase :: rest).map fun tx => tx.serialize.length).sum ≤ MAX_BLOCK_SIZE)
    (hcount : (coinbase :: rest).length ≤ MAX_TRANSACTIONS_PER_BLOCK)
    (hheight : s.tip.height + 1 ≠ 0) (hclock : t ≤ now + 7200)
    (hparent : ∀ p, s.getBlock s.tip.hash = some p → p.header.timestamp ≤ t) :
    BlockValid C now (easyBlock C s t (coinbase :: rest)) s where
  size := by rw [Block.serialize_length]; exact hsize
  count := hcount
  nonempty _ := List.cons_ne_nil _ _
  pow := BlockHeader.verifyPow_of_difficulty_one rfl
  link := by rw [easyBlock_height, if_neg hheight]; exact ⟨rfl, rfl⟩
  merkle := rfl
  clock := hclock
  parentTime _ := by
    unfold beforeParent
    cases hp : s.getBlock (easyBlock C s t (coinbase :: rest)).header.parentHash with
    | none => rfl
    | some p =>
      have hle : p.header.timestamp ≤ t := hparent p hp
      exact decide_eq_false (UInt64.not_lt.mpr hle)
  body := (validateTransactions_cons_ok_iff rfl).mpr hbody

/-- A coinbase alone makes a valid body when it is valid itself. -/
theorem bodyValid_coinbase {height : UInt64} {coinbase : Transaction}
    (h : CoinbaseValid coinbase) : BodyValid C s height coinbase [] :=
  ⟨h, fun _ h => absurd h List.not_mem_nil, List.nodup_nil⟩

/-- The genesis block is found under the tip of a new chain. -/
theorem openNew_getBlock_tip (C : Crypto) (network : NetworkId) :
    (openNew C network).getBlock (openNew C network).tip.hash
      = some (Genesis.genesisBlock C network) := by
  rw [getBlock, openNew_blocksByHash]
  exact Finmap.lookup_insert _

theorem genesis_timestamp (C : Crypto) (network : NetworkId) :
    (Genesis.genesisBlock C network).header.timestamp = 1735689600 := by
  show (Genesis.genesisParams network).1 = _
  unfold Genesis.genesisParams
  split
  · rfl
  · split
    · rfl
    · rfl

/-- A valid coinbase opens every new chain. -/
theorem easyBlock_valid_openNew (C : Crypto) (network : NetworkId) {coinbase : Transaction}
    (h : CoinbaseValid coinbase) (hsize : coinbase.serialize.length ≤ 999831) :
    BlockValid C 1735689600 (easyBlock C (openNew C network) 1735689600 [coinbase])
      (openNew C network) := by
  refine easyBlock_valid (bodyValid_coinbase h) ?_ (by decide : 1 ≤ 5000) ?_ (by decide) ?_
  · show 169 + (coinbase.serialize.length + 0) ≤ 1000000
    omega
  · show (0 : UInt64) + 1 ≠ 0
    decide
  · intro p hp
    rw [openNew_getBlock_tip] at hp
    rw [← Option.some.inj hp, genesis_timestamp]
    exact UInt64.le_refl _

/-- A reward within the cap makes a valid coinbase. -/
theorem coinbaseValid_coinbase {height reward : UInt64} {miner : Address}
    (h : reward ≤ Stream.A.blockReward) : CoinbaseValid (Transaction.coinbase height reward miner) where
  isCoinbase := rfl
  outputs_ne := List.cons_ne_nil _ _
  reward := by
    have htotal : (Transaction.coinbase height reward miner).totalOutput = reward := by
      simp [Transaction.totalOutput, Transaction.coinbase, TxOutput.p2pkh]
    rwa [htotal]

/-- The devnet's first block of minimal difficulty is valid. -/
theorem devnetFirst_valid : BlockValid devnetCrypto 1735689600 devnetFirst devnetOpen :=
  easyBlock_valid_openNew _ _ (coinbaseValid_coinbase (UInt64.le_refl _)) (by decide +kernel)

end Pyrax.Ledger
