import Pyrax.Storage.ChainDB
import Pyrax.Base.Checks

/-!
# The validation rules

`pyrax-node/src/validation/mod.rs`, function by function. The validator is
stateless: it reads the database it is given and the wall clock, here `now`.
Checks stand in the source's order, so that a block with several faults is
refused with the source's error.

Two details matter later. The sum of input values and the sum of output values
are machine sums and wrap. And the double-spend set is shared by all
transactions of a block but the first one, whose coinbase input is never looked
up.
-/

namespace Pyrax

open Wire Base

inductive ValidationError where
  | invalidPoW
  | invalidMerkleRoot
  | invalidParentHash (expected got : H256)
  | invalidHeight (expected got : UInt64)
  | invalidTimestamp (msg : String)
  | missingCoinbase
  | invalidCoinbase (msg : String)
  | utxoNotFound (outpoint : OutPoint)
  | utxoNotMature
  | doubleSpend (outpoint : OutPoint)
  | invalidTransaction (msg : String)
  | insufficientFunds (input output : UInt64)
  | invalidSignature
  | invalidScript
  | blockTooLarge (size max : Nat)
  | tooManyTransactions (count max : Nat)
  deriving DecidableEq

namespace Validation

def MAX_BLOCK_SIZE : Nat := 1000000

def MAX_TRANSACTIONS_PER_BLOCK : Nat := 5000

variable (C : Crypto)

/-! ## Signatures -/

/-- RIPEMD-160 of SHA-256. -/
def hash160 (data : List UInt8) : List UInt8 := (C.ripemd160 (C.sha256 data).toList).toList

/-- The shape `76 a9 14 <20 bytes> 88 ac`. -/
def isP2pkhScript (script : List UInt8) : Bool :=
  script.length == 25 && script.getD 0 0 == 0x76 && script.getD 1 0 == 0xa9 &&
    script.getD 2 0 == 0x14 && script.getD 23 0 == 0x88 && script.getD 24 0 == 0xac

/-- The signature of a script: 64 bytes are `r || s`, anything else is DER, less
a trailing `01`. -/
def parseSignature (signatureBytes : List UInt8) (sigLen : Nat) :
    Except ValidationError C.Signature :=
  if sigLen = 64 then okOr (C.signatureFromSlice signatureBytes) .invalidSignature
  else
    let sigBytes :=
      if signatureBytes.getLast? = some 0x01 then signatureBytes.dropLast else signatureBytes
    okOr (C.signatureFromDer sigBytes) .invalidSignature

/-- `verify_p2pkh_signature`; the script is `<len> <signature> <len> <pubkey>`. -/
def verifyP2pkhSignature (scriptSig scriptPubkey : List UInt8) (signingHash : H256) :
    Except ValidationError Unit := do
  failIf (scriptSig.length < 2) .invalidScript
  let sigLen := (scriptSig.getD 0 0).toNat
  failIf (scriptSig.length < 1 + sigLen + 1) .invalidScript
  let signatureBytes := (scriptSig.drop 1).take sigLen
  let pubkeyLen := (scriptSig.getD (1 + sigLen) 0).toNat
  failIf (scriptSig.length < 1 + sigLen + 1 + pubkeyLen) .invalidScript
  let pubkeyBytes := (scriptSig.drop (1 + sigLen + 1)).take pubkeyLen
  failIf (isP2pkhScript scriptPubkey = false) .invalidScript
  let expectedPubkeyHash := (scriptPubkey.drop 3).take 20
  failIf (hash160 C pubkeyBytes ≠ expectedPubkeyHash) .invalidSignature
  let signature ← parseSignature C signatureBytes sigLen
  let verifyingKey ← okOr (C.verifyingKeyFromSec1 pubkeyBytes) .invalidSignature
  failIf (C.verify verifyingKey signingHash.asBytes signature = false) .invalidSignature

/-- One input of the signing preimage: its script is the spent output's for the
input being signed, empty for the others. -/
def signingInput (inputIndex : Nat) (prevScriptPubkey : List UInt8) (i : Nat) (input : TxInput) :
    List UInt8 :=
  let script := if i = inputIndex then prevScriptPubkey else []
  input.previousOutput.txid.asBytes ++ encU32 input.previousOutput.vout ++
    encU32 (UInt32.ofNat script.length) ++ script ++ encU32 input.sequence

def signingOutput (output : TxOutput) : List UInt8 :=
  encU64 output.value ++ encU32 (UInt32.ofNat output.scriptPubkey.length) ++ output.scriptPubkey

/-- What `compute_signing_hash` hashes; the last word is `SIGHASH_ALL`. -/
def signingPreimage (tx : Transaction) (inputIndex : Nat) (prevScriptPubkey : List UInt8) :
    List UInt8 :=
  encU32 tx.version ++ encU32 (UInt32.ofNat tx.inputs.length) ++
    (tx.inputs.mapIdx (signingInput inputIndex prevScriptPubkey)).flatten ++
    encU32 (UInt32.ofNat tx.outputs.length) ++ tx.outputs.flatMap signingOutput ++
    encU32 tx.lockTime ++ encU32 1

def computeSigningHash (tx : Transaction) (inputIndex : Nat) (prevScriptPubkey : List UInt8) :
    H256 :=
  C.keccak256 (signingPreimage tx inputIndex prevScriptPubkey)

/-- `tx.inputs.iter().position(|i| &i.previous_output == outpoint)`. -/
def inputIndex (tx : Transaction) (outpoint : OutPoint) : Nat :=
  tx.inputs.findIdx fun i => i.previousOutput == outpoint

/-! ## Blocks -/

def validateStructure (block : Block) : Except ValidationError Unit := do
  failIf (MAX_BLOCK_SIZE < block.serialize.length)
    (.blockTooLarge block.serialize.length MAX_BLOCK_SIZE)
  failIf (MAX_TRANSACTIONS_PER_BLOCK < block.transactions.length)
    (.tooManyTransactions block.transactions.length MAX_TRANSACTIONS_PER_BLOCK)
  failIf (0 < block.height ∧ block.transactions = []) .missingCoinbase

def validatePow (block : Block) : Except ValidationError Unit :=
  failIf (block.header.verifyPow C = false) .invalidPoW

/-- A block of height `0` need only have the zero parent; the tip is not asked. -/
def validateChainLink (block : Block) (s : ChainDB) : Except ValidationError Unit :=
  if block.height = 0 then
    failIf (block.header.parentHash ≠ H256.zero)
      (.invalidParentHash H256.zero block.header.parentHash)
  else do
    failIf (block.header.parentHash ≠ s.tip.hash)
      (.invalidParentHash s.tip.hash block.header.parentHash)
    failIf (block.height ≠ s.tip.height + 1) (.invalidHeight (s.tip.height + 1) block.height)

def validateMerkle (block : Block) : Except ValidationError Unit :=
  failIf (block.verifyMerkle C = false) .invalidMerkleRoot

/-- The parent's timestamp, where the parent is stored. -/
def beforeParent (block : Block) (s : ChainDB) : Bool :=
  match s.getBlock block.header.parentHash with
  | some parent => decide (block.header.timestamp < parent.header.timestamp)
  | none => false

def validateTimestamp (now : UInt64) (block : Block) (s : ChainDB) :
    Except ValidationError Unit := do
  failIf (now + 7200 < block.header.timestamp)
    (.invalidTimestamp "Block timestamp too far in future")
  failIf (0 < block.height ∧ beforeParent block s = true)
    (.invalidTimestamp "Block timestamp before parent")

def validateCoinbase (tx : Transaction) : Except ValidationError Unit := do
  failIf (tx.isCoinbase = false) (.invalidCoinbase "First transaction must be coinbase")
  failIf (tx.inputs.length ≠ 1) (.invalidCoinbase "Coinbase must have exactly one input")
  failIf (tx.outputs = []) (.invalidCoinbase "Coinbase must have at least one output")
  failIf (Stream.A.blockReward < tx.totalOutput)
    (.invalidCoinbase ("Coinbase output " ++ toString tx.totalOutput ++ " exceeds max reward " ++
      toString Stream.A.blockReward))

/-- One turn of the input loop: the running total and the double-spend set. -/
def validateInput (tx : Transaction) (currentHeight : UInt64) (s : ChainDB)
    (acc : UInt64 × List OutPoint) (input : TxInput) :
    Except ValidationError (UInt64 × List OutPoint) := do
  let outpoint := input.previousOutput
  failIf (outpoint ∈ acc.2) (.doubleSpend outpoint)
  let utxo ← okOr (s.getUtxo outpoint) (.utxoNotFound outpoint)
  failIf (utxo.isMature currentHeight = false) .utxoNotMature
  let signingHash :=
    computeSigningHash C tx (inputIndex tx outpoint) utxo.output.scriptPubkey
  verifyP2pkhSignature C input.scriptSig utxo.output.scriptPubkey signingHash
  .ok (acc.1 + utxo.output.value, outpoint :: acc.2)

/-- `validate_transaction`; returns the double-spend set it leaves. -/
def validateTransaction (currentHeight : UInt64) (s : ChainDB) (spentInBlock : List OutPoint)
    (tx : Transaction) : Except ValidationError (List OutPoint) := do
  failIf (tx.inputs = []) (.invalidTransaction "Transaction has no inputs")
  failIf (tx.outputs = []) (.invalidTransaction "Transaction has no outputs")
  let acc ← tx.inputs.foldlM (validateInput C tx currentHeight s) (0, spentInBlock)
  failIf (acc.1 < tx.totalOutput) (.insufficientFunds acc.1 tx.totalOutput)
  .ok acc.2

def validateTransactions (block : Block) (s : ChainDB) : Except ValidationError Unit :=
  match block.transactions with
  | [] => .ok ()
  | coinbase :: rest => do
    validateCoinbase coinbase
    let _ ← rest.foldlM (validateTransaction C block.height s) []
    .ok ()

/-- `validate_header`, for headers that arrive without their block. Whether the
parent is known is looked up and makes no difference. -/
def validateHeader (now : UInt64) (header : BlockHeader) : Except ValidationError Unit := do
  failIf (header.verifyPow C = false) .invalidPoW
  failIf (now + 7200 < header.timestamp)
    (.invalidTimestamp ("Block timestamp " ++ toString header.timestamp ++
      " is too far in the future (now: " ++ toString now ++ ")"))

/-- `validate_block`, at the time `now`. -/
def validateBlock (now : UInt64) (block : Block) (s : ChainDB) : Except ValidationError Unit := do
  validateStructure block
  validatePow C block
  validateChainLink block s
  validateMerkle C block
  validateTimestamp now block s
  validateTransactions C block s

end Validation

end Pyrax
