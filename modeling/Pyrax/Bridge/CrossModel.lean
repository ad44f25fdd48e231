import Pyrax.Base.Checks
import Pyrax.Base.Records
import Pyrax.Bridge.Swap

/-!
# Cross-model transactions

Transactions between the UTXO and the account side, and their manager, of
`pyrax-node/src/bridge/cross_model_tx.rs`. A transaction carries its inputs, outputs and
transfers as lists, and beside them three totals. `verify` compares the totals with each
other, saturating, and never adds up a list; nor does it look at the outpoints.

So what is accepted conserves value where the totals are the sums and the fee is no more
than the first of them, and pays an outpoint in once where none is listed twice; where the
total of the source is right, nowhere else (`accepted_conserves`). `lock_and_mint` adds the
inputs up in 64 bits, wrapping: it is right up to a sum below `2 ^ 64`. `burn_and_unlock` has
one transfer and one output and is always right.

The clock is read anew for the id and for each of the two times, and is an argument. The
swaps of the manager are left out, see `AtomicSwap`.
-/

namespace Pyrax.Bridge

open Base Word

inductive CrossModelTxType where
  | lockAndMint
  | burnAndUnlock
  | atomicSwap
  | splitToEvm
  | mergeToUtxo
  deriving DecidableEq

inductive CrossModelTxStatus where
  | created
  | submitted
  | sourceConfirmed
  | processing
  | destConfirmed
  | complete
  | failed
  | refunded
  | expired
  deriving DecidableEq

structure UtxoInput where
  outpoint : OutPoint
  amount : UInt64
  owner : Address
  signature : List UInt8
  deriving DecidableEq

inductive LockType where
  | standard
  | bridgeLock
  | timeLock (unlockTime : UInt64)
  | hashLock
  | multiSig (required total : UInt8)
  deriving DecidableEq

structure UtxoOutput where
  recipient : Address
  amount : UInt64
  lockType : LockType
  deriving DecidableEq

structure EvmTransfer where
  /-- `from`. -/
  sender : Vector UInt8 20
  /-- `to`. -/
  recipient : Vector UInt8 20
  amount : UInt64
  data : List UInt8
  gasLimit : UInt64
  deriving DecidableEq

structure CrossModelTransaction where
  id : H256
  txType : CrossModelTxType
  status : CrossModelTxStatus
  utxoInputs : List UtxoInput
  utxoOutputs : List UtxoOutput
  evmTransfers : List EvmTransfer
  utxoInputAmount : UInt64
  utxoOutputAmount : UInt64
  evmTransferAmount : UInt64
  fee : UInt64
  sourceTxHash : Option H256
  destTxHash : Option H256
  sourceConfirmations : UInt64
  destConfirmations : UInt64
  requiredSourceConfirmations : UInt64
  requiredDestConfirmations : UInt64
  createdAt : UInt64
  expiresAt : UInt64
  completedAt : Option UInt64
  error : Option String
  initiator : UnifiedAddress
  deriving DecidableEq

namespace CrossModelTransaction

/-- `0.1%`. -/
def calculateFee (amount : UInt64) : UInt64 := mulDiv amount.toNat 10 10000

/-- `iter().map(|i| i.amount).sum()`, which wraps in the release profile. -/
def wrappingSum (amounts : List UInt64) : UInt64 := amounts.foldl (· + ·) 0

def generateId (C : Crypto) (now : UInt64) (utxoInputs : List UtxoInput)
    (evmTransfers : List EvmTransfer) : H256 :=
  C.blake3 (utxoInputs.flatMap (fun input =>
      input.outpoint.txid.asBytes ++ (Wire.leBytes 4 input.outpoint.vout.toNat).reverse) ++
    evmTransfers.flatMap (fun transfer => transfer.recipient.toList ++ toBeBytes transfer.amount) ++
    toBeBytes now)

def generateIdFromEvm (C : Crypto) (now : UInt64) (evmTransfers : List EvmTransfer)
    (utxoOutputs : List UtxoOutput) : H256 :=
  C.blake3 (evmTransfers.flatMap (fun transfer =>
      transfer.sender.toList ++ toBeBytes transfer.amount) ++
    utxoOutputs.flatMap (fun output => output.recipient.asBytes ++ toBeBytes output.amount) ++
    toBeBytes now)

def lockAndMint (C : Crypto) (idAt createdAt now : UInt64) (utxoInputs : List UtxoInput)
    (evmRecipient : Vector UInt8 20) (initiator : UnifiedAddress) : CrossModelTransaction :=
  let utxoInputAmount := wrappingSum (utxoInputs.map (·.amount))
  let fee := calculateFee utxoInputAmount
  let netAmount := saturatingSub utxoInputAmount fee
  let evmTransfers : List EvmTransfer :=
    [⟨Vector.replicate 20 0, evmRecipient, netAmount, [], 21000⟩]
  { id := generateId C idAt utxoInputs evmTransfers
    txType := .lockAndMint
    status := .created
    utxoInputs := utxoInputs
    utxoOutputs := []
    evmTransfers := evmTransfers
    utxoInputAmount := utxoInputAmount
    utxoOutputAmount := 0
    evmTransferAmount := netAmount
    fee := fee
    sourceTxHash := none
    destTxHash := none
    sourceConfirmations := 0
    destConfirmations := 0
    requiredSourceConfirmations := 6
    requiredDestConfirmations := 12
    createdAt := createdAt
    expiresAt := now + 86400
    completedAt := none
    error := none
    initiator := initiator }

def burnAndUnlock (C : Crypto) (idAt createdAt now : UInt64) (evmSender : Vector UInt8 20)
    (amount : UInt64) (utxoRecipient : Address) (initiator : UnifiedAddress) :
    CrossModelTransaction :=
  let fee := calculateFee amount
  let netAmount := saturatingSub amount fee
  let evmTransfers : List EvmTransfer := [⟨evmSender, Vector.replicate 20 0, amount, [], 50000⟩]
  let utxoOutputs : List UtxoOutput := [⟨utxoRecipient, netAmount, .standard⟩]
  { id := generateIdFromEvm C idAt evmTransfers utxoOutputs
    txType := .burnAndUnlock
    status := .created
    utxoInputs := []
    utxoOutputs := utxoOutputs
    evmTransfers := evmTransfers
    utxoInputAmount := 0
    utxoOutputAmount := netAmount
    evmTransferAmount := amount
    fee := fee
    sourceTxHash := none
    destTxHash := none
    sourceConfirmations := 0
    destConfirmations := 0
    requiredSourceConfirmations := 12
    requiredDestConfirmations := 6
    createdAt := createdAt
    expiresAt := now + 86400
    completedAt := none
    error := none
    initiator := initiator }

def amountMismatch (expected got : UInt64) : String :=
  "Amount mismatch: expected " ++ toString expected.toNat ++ ", got " ++ toString got.toNat

def verify (tx : CrossModelTransaction) : Except String Unit :=
  match tx.txType with
  | .lockAndMint => do
    failIf (tx.utxoInputs = []) "Lock-and-mint requires UTXO inputs"
    failIf (tx.evmTransfers = []) "Lock-and-mint requires EVM transfer"
    let expected := saturatingSub tx.utxoInputAmount tx.fee
    failIf (tx.evmTransferAmount ≠ expected) (amountMismatch expected tx.evmTransferAmount)
  | .burnAndUnlock => do
    failIf (tx.evmTransfers = []) "Burn-and-unlock requires EVM transfer"
    failIf (tx.utxoOutputs = []) "Burn-and-unlock requires UTXO output"
    let expected := saturatingSub tx.evmTransferAmount tx.fee
    failIf (tx.utxoOutputAmount ≠ expected) (amountMismatch expected tx.utxoOutputAmount)
  | .atomicSwap | .splitToEvm | .mergeToUtxo => .ok ()

end CrossModelTransaction

structure CrossModelTxManager where
  transactions : Column H256 CrossModelTransaction
  byInitiator : Column (Vector UInt8 20) (List H256)
  deriving DecidableEq

namespace CrossModelTxManager

def new : CrossModelTxManager := ⟨∅, ∅⟩

def submit (m : CrossModelTxManager) (tx : CrossModelTransaction) :
    Except String (CrossModelTxManager × H256) := do
  tx.verify
  return (⟨m.transactions.insert tx.id tx,
    m.byInitiator.insert tx.initiator.bytes
      ((m.byInitiator.lookup tx.initiator.bytes).getD [] ++ [tx.id])⟩, tx.id)

end CrossModelTxManager

/-! ## Value -/

namespace CrossModelTransaction

/-- The exact sums. -/
def inputTotal (tx : CrossModelTransaction) : Nat := (tx.utxoInputs.map (·.amount.toNat)).sum

def outputTotal (tx : CrossModelTransaction) : Nat := (tx.utxoOutputs.map (·.amount.toNat)).sum

def transferTotal (tx : CrossModelTransaction) : Nat := (tx.evmTransfers.map (·.amount.toNat)).sum

/-- What goes in is what comes out and the fee. -/
def ConservesValue (tx : CrossModelTransaction) : Prop :=
  match tx.txType with
  | .lockAndMint => tx.inputTotal = tx.transferTotal + tx.fee.toNat
  | .burnAndUnlock => tx.transferTotal = tx.outputTotal + tx.fee.toNat
  | .atomicSwap | .splitToEvm | .mergeToUtxo => True

/-- No outpoint is spent twice. -/
def SpendsOnce (tx : CrossModelTransaction) : Prop := (tx.utxoInputs.map (·.outpoint)).Nodup

instance (tx : CrossModelTransaction) : Decidable tx.SpendsOnce :=
  inferInstanceAs (Decidable (List.Nodup _))

/-- The total on the side value comes from is the sum of the list. -/
def SourceExact (tx : CrossModelTransaction) : Prop :=
  match tx.txType with
  | .lockAndMint => tx.utxoInputAmount.toNat = tx.inputTotal
  | .burnAndUnlock => tx.evmTransferAmount.toNat = tx.transferTotal
  | .atomicSwap | .splitToEvm | .mergeToUtxo => True

/-- The same of the side value goes to. -/
def DestExact (tx : CrossModelTransaction) : Prop :=
  match tx.txType with
  | .lockAndMint => tx.evmTransferAmount.toNat = tx.transferTotal
  | .burnAndUnlock => tx.utxoOutputAmount.toNat = tx.outputTotal
  | .atomicSwap | .splitToEvm | .mergeToUtxo => True

/-- The fee is part of the total of the source. -/
def FeeCovered (tx : CrossModelTransaction) : Prop :=
  match tx.txType with
  | .lockAndMint => tx.fee ≤ tx.utxoInputAmount
  | .burnAndUnlock => tx.fee ≤ tx.evmTransferAmount
  | .atomicSwap | .splitToEvm | .mergeToUtxo => True

/-- A right total of the source, of which the saturating difference is the other total. -/
theorem sum_eq_iff_of_exact {source dest : Nat} {sourceTotal destTotal fee : UInt64}
    (h : destTotal = saturatingSub sourceTotal fee) (hsource : sourceTotal.toNat = source) :
    source = dest + fee.toNat ↔ destTotal.toNat = dest ∧ fee ≤ sourceTotal := by
  have hdest := toNat_saturatingSub sourceTotal fee
  rw [← h] at hdest
  rw [UInt64.le_iff_toNat_le]
  omega

/-- `sum()` is the exact sum, up to a multiple of `2 ^ 64`. -/
theorem toNat_wrappingSum (amounts : List UInt64) :
    (wrappingSum amounts).toNat = (amounts.map UInt64.toNat).sum % 2 ^ 64 := by
  unfold wrappingSum
  induction amounts using List.reverseRecOn with
  | nil => rfl
  | append_singleton amounts amount ih =>
    rw [List.foldl_append, List.foldl_cons, List.foldl_nil, UInt64.toNat_add, ih, List.map_append,
      List.sum_append, Nat.mod_add_mod]
    rfl

/-- The fee is a thousandth, rounded down, and so never more than the amount. -/
theorem toNat_calculateFee (amount : UInt64) :
    (calculateFee amount).toNat = amount.toNat * 10 / 10000 := by
  have hlt := amount.toNat_lt
  exact UInt64.toNat_ofNat_of_lt' (show amount.toNat * 10 / 10000 < 2 ^ 64 by omega)

theorem net_add_fee (amount : UInt64) :
    (saturatingSub amount (calculateFee amount)).toNat + (calculateFee amount).toNat
      = amount.toNat := by
  rw [toNat_saturatingSub, toNat_calculateFee]
  omega

/-- `lock_and_mint` takes in the exact sum, and gives out what is left of it in 64 bits. -/
theorem conservesValue_lockAndMint (C : Crypto) (idAt createdAt now : UInt64)
    (utxoInputs : List UtxoInput) (evmRecipient : Vector UInt8 20) (initiator : UnifiedAddress) :
    (lockAndMint C idAt createdAt now utxoInputs evmRecipient initiator).ConservesValue ↔
      (utxoInputs.map (·.amount.toNat)).sum < 2 ^ 64 := by
  have hsum := toNat_wrappingSum (utxoInputs.map (·.amount))
  have hnet := net_add_fee (wrappingSum (utxoInputs.map (·.amount)))
  rw [List.map_map, show UInt64.toNat ∘ (·.amount) = fun i : UtxoInput => i.amount.toNat from rfl]
    at hsum
  show (utxoInputs.map (·.amount.toNat)).sum =
    (saturatingSub (wrappingSum (utxoInputs.map (·.amount)))
      (calculateFee (wrappingSum (utxoInputs.map (·.amount))))).toNat + 0
      + (calculateFee (wrappingSum (utxoInputs.map (·.amount)))).toNat ↔ _
  omega

theorem conservesValue_burnAndUnlock (C : Crypto) (idAt createdAt now : UInt64)
    (evmSender : Vector UInt8 20) (amount : UInt64) (utxoRecipient : Address)
    (initiator : UnifiedAddress) :
    (burnAndUnlock C idAt createdAt now evmSender amount utxoRecipient initiator).ConservesValue := by
  have hnet := net_add_fee amount
  show amount.toNat + 0 = (saturatingSub amount (calculateFee amount)).toNat + 0
    + (calculateFee amount).toNat
  omega

/-- What `verify` lets through of the two types: the total of the destination is the total of the
source less the fee, and no list the source or destination needs is empty. -/
theorem verify_eq_ok {tx : CrossModelTransaction} (h : tx.verify = .ok ()) :
    (tx.txType = .lockAndMint → tx.utxoInputs ≠ [] ∧ tx.evmTransfers ≠ [] ∧
      tx.evmTransferAmount = saturatingSub tx.utxoInputAmount tx.fee) ∧
    (tx.txType = .burnAndUnlock → tx.evmTransfers ≠ [] ∧ tx.utxoOutputs ≠ [] ∧
      tx.utxoOutputAmount = saturatingSub tx.evmTransferAmount tx.fee) := by
  unfold verify at h
  constructor
  · intro htype
    rw [htype] at h
    simpa only [failIf_bind_eq_ok, failIf_eq_ok, ne_eq, not_not] using h
  · intro htype
    rw [htype] at h
    simpa only [failIf_bind_eq_ok, failIf_eq_ok, ne_eq, not_not] using h

/-- Of what `verify` lets through with a right total of the source, the sums match where the
other total is right too and the fee is covered. -/
theorem conservesValue_iff {tx : CrossModelTransaction} (h : tx.verify = .ok ())
    (hsource : tx.SourceExact) : tx.ConservesValue ↔ tx.DestExact ∧ tx.FeeCovered := by
  obtain ⟨hlock, hburn⟩ := verify_eq_ok h
  unfold SourceExact at hsource
  unfold ConservesValue DestExact FeeCovered
  cases htype : tx.txType with
  | lockAndMint =>
    rw [htype] at hsource
    exact sum_eq_iff_of_exact (hlock htype).2.2 hsource
  | burnAndUnlock =>
    rw [htype] at hsource
    exact sum_eq_iff_of_exact (hburn htype).2.2 hsource
  | atomicSwap => exact (and_self_iff).symm
  | splitToEvm => exact (and_self_iff).symm
  | mergeToUtxo => exact (and_self_iff).symm

end CrossModelTransaction

namespace CrossModelTxManager

open CrossModelTransaction

theorem submit_eq_ok {m m' : CrossModelTxManager} {tx : CrossModelTransaction} {id : H256}
    (h : m.submit tx = .ok (m', id)) :
    tx.verify = .ok () ∧ id = tx.id ∧ m'.transactions = m.transactions.insert tx.id tx := by
  unfold submit at h
  obtain ⟨hverify, h⟩ := bind_unit_eq_ok.mp h
  cases h
  exact ⟨hverify, rfl, rfl⟩

/-- A transaction that is accepted conserves value, and spends each outpoint once, where both
totals are right, the fee is covered and the outpoints differ; with a right total of the
source nowhere else. If `lock_and_mint` built it, that is where the amounts add up to less
than `2 ^ 64`; if `burn_and_unlock` did, always. -/
theorem accepted_conserves (m m' : CrossModelTxManager) (tx : CrossModelTransaction) (id : H256)
    (haccepted : m.submit tx = .ok (m', id)) :
    (tx.SourceExact → tx.DestExact → tx.FeeCovered → (tx.utxoInputs.map (·.outpoint)).Nodup →
      tx.ConservesValue ∧ tx.SpendsOnce) ∧
    (tx.SourceExact → (tx.ConservesValue ∧ tx.SpendsOnce ↔
      (tx.DestExact ∧ tx.FeeCovered) ∧ (tx.utxoInputs.map (·.outpoint)).Nodup)) ∧
    (∀ (C : Crypto) (idAt createdAt now : UInt64) (utxoInputs : List UtxoInput)
      (evmRecipient : Vector UInt8 20) (initiator : UnifiedAddress),
      tx = .lockAndMint C idAt createdAt now utxoInputs evmRecipient initiator →
      (tx.ConservesValue ∧ tx.SpendsOnce ↔
        (utxoInputs.map (·.amount.toNat)).sum < 2 ^ 64 ∧ (utxoInputs.map (·.outpoint)).Nodup)) ∧
    (∀ (C : Crypto) (idAt createdAt now : UInt64) (evmSender : Vector UInt8 20) (amount : UInt64)
      (utxoRecipient : Address) (initiator : UnifiedAddress),
      tx = .burnAndUnlock C idAt createdAt now evmSender amount utxoRecipient initiator →
      tx.ConservesValue ∧ tx.SpendsOnce) := by
  have hconserves := conservesValue_iff (submit_eq_ok haccepted).1
  refine ⟨?_, ?_, ?_, ?_⟩
  · intro hsource hdest hfee hdistinct
    exact ⟨(hconserves hsource).mpr ⟨hdest, hfee⟩, hdistinct⟩
  · intro hsource
    exact and_congr_left' (hconserves hsource)
  · intro C idAt createdAt now utxoInputs evmRecipient initiator htx
    rw [htx]
    exact and_congr_left' (conservesValue_lockAndMint ..)
  · intro C idAt createdAt now evmSender amount utxoRecipient initiator htx
    rw [htx]
    exact ⟨conservesValue_burnAndUnlock .., List.nodup_nil⟩

/-! ## Two inputs, and one listed twice -/

/-- The ids of the two transactions below. -/
def crossCrypto : Crypto := Crypto.ofTable
  [(List.replicate 32 1 ++ [0, 0, 0, 0] ++ List.replicate 32 1 ++ [0, 0, 0, 0] ++
      List.replicate 20 2 ++ toBeBytes 1998000000 ++ toBeBytes 1700000000,
    H256.ofNatBE 0x4b56c6043c574bf3b213c5c94ac67a17aab33fe11fcce59b02cb8652cb965065),
   (List.replicate 32 1 ++ [0, 0, 0, 0] ++ List.replicate 32 1 ++ [0, 0, 0, 1] ++
      List.replicate 20 2 ++ toBeBytes 1998000000 ++ toBeBytes 1700000000,
    H256.ofNatBE 0x4c462d5675df761084386badd5530f65a9eb66e0ae160645768592b97e0e1754)]

/-- An output of the transaction `[1; 32]`. -/
def sampleInput (vout : UInt32) : UtxoInput :=
  ⟨⟨⟨Vector.replicate 32 1⟩, vout⟩, 1000000000, ⟨Vector.replicate 20 1⟩, []⟩

def locked (inputs : List UtxoInput) : CrossModelTransaction :=
  .lockAndMint crossCrypto 1700000000 1700000000 1700000000 inputs (Vector.replicate 20 2)
    SwapOp.payerAddress

/-- `lock_and_mint` of an input that is given twice. -/
def doubled : CrossModelTransaction := locked [sampleInput 0, sampleInput 0]

/-- The same, with a transfer of twice as much as the total says. -/
def inflated : CrossModelTransaction :=
  { doubled with
    evmTransfers := [⟨Vector.replicate 20 0, Vector.replicate 20 2, 3996000000, [], 21000⟩] }

/-- Two inputs are minted less the fee. -/
theorem accepted_conserves_two :
    (locked [sampleInput 0, sampleInput 1]).ConservesValue ∧
      (locked [sampleInput 0, sampleInput 1]).SpendsOnce ∧
      (locked [sampleInput 0, sampleInput 1]).evmTransferAmount = 1998000000 := by
  obtain ⟨hvalue, honce⟩ := (accepted_conserves new _ (locked [sampleInput 0, sampleInput 1]) _
    rfl).1 (by decide : (2000000000 : UInt64).toNat = 2000000000)
      (by decide : (1998000000 : UInt64).toNat = 1998000000)
      (by decide : (2000000 : UInt64) ≤ 2000000000) (by decide)
  exact ⟨hvalue, honce, by decide⟩

/-- Both halves fail of accepted transactions: one pays the same outpoint in twice, one pays out
twice what comes in. -/
theorem accepted_doubled :
    (∃ m id, new.submit doubled = .ok (m, id)) ∧ ¬ doubled.SpendsOnce ∧
      (∃ m id, new.submit inflated = .ok (m, id)) ∧ ¬ inflated.ConservesValue := by
  refine ⟨⟨_, _, rfl⟩, by decide, ⟨_, _, rfl⟩, ?_⟩
  show ¬ inflated.inputTotal = inflated.transferTotal + inflated.fee.toNat
  decide

end CrossModelTxManager

end Pyrax.Bridge
