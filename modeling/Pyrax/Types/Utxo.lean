import Pyrax.Types.Block

/-!
# The transactions of Stream A

`pyrax-node/src/types/utxo.rs`, the second transaction type of the node. Its outpoints,
inputs and outputs have the fields of the ledger's own, and share their types here; what
differs is the encoding. `encode` writes `u32` lengths where `bincode` writes `u64`, a
`txid` is Keccak-256 of it where the ledger takes BLAKE3, and `encode_for_signing` writes
what an input's signature covers.
-/

namespace Pyrax

open Wire

def OutPoint.encode (o : OutPoint) : List UInt8 := o.txid.asBytes ++ encU32 o.vout

def TxInput.encode (i : TxInput) : List UInt8 :=
  i.previousOutput.encode ++ encU32 (UInt32.ofNat i.scriptSig.length) ++ i.scriptSig ++
    encU32 i.sequence

def TxOutput.encode (o : TxOutput) : List UInt8 :=
  encU64 o.value ++ encU32 (UInt32.ofNat o.scriptPubkey.length) ++ o.scriptPubkey

structure UtxoTransaction where
  version : UInt32
  inputs : List TxInput
  outputs : List TxOutput
  lockTime : UInt32
  deriving DecidableEq

namespace UtxoTransaction

def coinbase (blockHeight reward : UInt64) (minerAddress : Address) : UtxoTransaction :=
  ⟨1, [TxInput.coinbase blockHeight Transaction.coinbaseExtra],
    [TxOutput.p2pkh reward minerAddress], 0⟩

/-- One turn of the loop of `encode_for_signing`. -/
def encodeInputForSigning (inputIndex : Nat) (prevScriptPubkey : List UInt8) (i : Nat)
    (input : TxInput) : List UInt8 :=
  input.previousOutput.encode ++
    (if i = inputIndex then
      encU32 (UInt32.ofNat prevScriptPubkey.length) ++ prevScriptPubkey
    else encU32 0) ++
    encU32 input.sequence

/-- The transaction without its signatures, and `SIGHASH_ALL`. -/
def encodeForSigning (tx : UtxoTransaction) (inputIndex : Nat) (prevScriptPubkey : List UInt8) :
    List UInt8 :=
  encU32 tx.version ++ encU32 (UInt32.ofNat tx.inputs.length) ++
    (tx.inputs.mapIdx (encodeInputForSigning inputIndex prevScriptPubkey)).flatten ++
    encU32 (UInt32.ofNat tx.outputs.length) ++ tx.outputs.flatMap TxOutput.encode ++
    encU32 tx.lockTime ++ encU32 1

def signingHash (C : Crypto) (tx : UtxoTransaction) (inputIndex : Nat)
    (prevScriptPubkey : List UInt8) : H256 :=
  C.keccak256 (tx.encodeForSigning inputIndex prevScriptPubkey)

def encode (tx : UtxoTransaction) : List UInt8 :=
  encU32 tx.version ++ encU32 (UInt32.ofNat tx.inputs.length) ++
    tx.inputs.flatMap TxInput.encode ++
    encU32 (UInt32.ofNat tx.outputs.length) ++ tx.outputs.flatMap TxOutput.encode ++
    encU32 tx.lockTime

def txid (C : Crypto) (tx : UtxoTransaction) : H256 := C.keccak256 tx.encode

end UtxoTransaction

/-- The merkle root over the ids, by the loop of the node's own blocks. -/
def utxoMerkleRoot (C : Crypto) (transactions : List UtxoTransaction) : H256 :=
  if transactions.isEmpty then H256.zero
  else merkleLoop C (transactions.map (·.txid C))

end Pyrax
