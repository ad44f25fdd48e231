import Pyrax.Types.Primitives
import Mathlib.Algebra.Order.BigOperators.Group.List
import Mathlib.Algebra.Order.Ring.Nat

/-!
# Transactions, their wire form and unspent outputs

The transaction half of `pyrax-node/src/types/mod.rs`. A transaction is hashed,
stored and sent as its `bincode` form: fixed-width little-endian integers, byte
arrays as they are, and every `Vec` behind a `u64` length. Each type has its
`serialize` and `deserialize`, and the round trip is stated with `Wire.Reads`,
so that one lemma gives both that the node reads back what it wrote and that
the form is injective (`Transaction.serialize_inj`).

Sums of values are the release build's: `totalOutput` wraps at `2 ^ 64`.
`outputSum` is the exact sum, and `totalOutput_toNat` relates the two; the gap
between them is what the supply theorems are about.
-/

namespace Pyrax

open Wire

/-- Reference to a transaction output. -/
structure OutPoint where
  txid : H256
  vout : UInt32
  deriving DecidableEq

namespace OutPoint

/-- The null reference of a coinbase input: zero hash, `u32::MAX`. -/
def coinbase : OutPoint := ⟨H256.zero, 0xFFFFFFFF⟩

def isCoinbase (o : OutPoint) : Bool := o.txid == H256.zero && o.vout == 0xFFFFFFFF

/-- `to_bytes`, which is also its `bincode` form. -/
def serialize (o : OutPoint) : List UInt8 := o.txid.asBytes ++ encU32 o.vout

theorem isCoinbase_iff {o : OutPoint} : o.isCoinbase = true ↔ o = coinbase := by
  cases o
  simp [isCoinbase, coinbase]

end OutPoint

/-- A transaction output: an amount in base units and its locking script. -/
structure TxOutput where
  value : UInt64
  scriptPubkey : List UInt8
  deriving DecidableEq

namespace TxOutput

/-- Pay to public key hash: `76 a9 14 <20 bytes> 88 ac`. -/
def p2pkh (value : UInt64) (address : Address) : TxOutput :=
  ⟨value, [0x76, 0xa9, 0x14] ++ address.asBytes ++ [0x88, 0xac]⟩

def serialize (o : TxOutput) : List UInt8 := encU64 o.value ++ encVec encU8 o.scriptPubkey

end TxOutput

/-- A transaction input: the output it spends and the script that unlocks it. -/
structure TxInput where
  previousOutput : OutPoint
  scriptSig : List UInt8
  sequence : UInt32
  deriving DecidableEq

namespace TxInput

def new (previousOutput : OutPoint) (scriptSig : List UInt8) : TxInput :=
  ⟨previousOutput, scriptSig, 0xFFFFFFFF⟩

/-- A coinbase input carries the height and free bytes as its script. -/
def coinbase (height : UInt64) (extra : List UInt8) : TxInput :=
  ⟨OutPoint.coinbase, encU64 height ++ extra, 0xFFFFFFFF⟩

def isCoinbase (i : TxInput) : Bool := i.previousOutput.isCoinbase

def serialize (i : TxInput) : List UInt8 :=
  i.previousOutput.serialize ++ encVec encU8 i.scriptSig ++ encU32 i.sequence

end TxInput

/-- A transaction of the UTXO ledger. -/
structure Transaction where
  version : UInt32
  inputs : List TxInput
  outputs : List TxOutput
  lockTime : UInt32
  deriving DecidableEq

namespace Transaction

def new (inputs : List TxInput) (outputs : List TxOutput) : Transaction :=
  ⟨1, inputs, outputs, 0⟩

/-- The byte string `b"PYRAX"`. -/
def coinbaseExtra : List UInt8 := [0x50, 0x59, 0x52, 0x41, 0x58]

def coinbase (height reward : UInt64) (miner : Address) : Transaction :=
  ⟨1, [TxInput.coinbase height coinbaseExtra], [TxOutput.p2pkh reward miner], 0⟩

def serialize (tx : Transaction) : List UInt8 :=
  encU32 tx.version ++ encVec TxInput.serialize tx.inputs ++
    encVec TxOutput.serialize tx.outputs ++ encU32 tx.lockTime

/-- `txid`: BLAKE3 of the `bincode` form. -/
def txid (C : Crypto) (tx : Transaction) : H256 := C.blake3 tx.serialize

def isCoinbase (tx : Transaction) : Bool :=
  match tx.inputs with
  | [i] => i.isCoinbase
  | _ => false

/-- `outputs.iter().map(|o| o.value).sum()`, wrapping. -/
def totalOutput (tx : Transaction) : UInt64 := (tx.outputs.map (·.value)).sum

/-- The exact sum of the output values. -/
def outputSum (tx : Transaction) : Nat := (tx.outputs.map (·.value.toNat)).sum

/-- The outpoints a transaction spends, in order. -/
def spends (tx : Transaction) : List OutPoint := tx.inputs.map (·.previousOutput)

/-- A wrapping sum of `u64`s is the exact one modulo `2 ^ 64`. -/
theorem sum_toNat : ∀ xs : List UInt64, xs.sum.toNat = (xs.map (·.toNat)).sum % 2 ^ 64
  | [] => rfl
  | x :: xs => by
    rw [List.sum_cons, List.map_cons, List.sum_cons, UInt64.toNat_add, sum_toNat xs]
    omega

theorem totalOutput_toNat (tx : Transaction) :
    tx.totalOutput.toNat = tx.outputSum % 2 ^ 64 := by
  rw [totalOutput, sum_toNat, outputSum, List.map_map]
  rfl

/-- Where the exact sum fits, nothing wraps. -/
theorem totalOutput_toNat_of_lt {tx : Transaction} (h : tx.outputSum < 2 ^ 64) :
    tx.totalOutput.toNat = tx.outputSum := by
  rw [totalOutput_toNat, Nat.mod_eq_of_lt h]

theorem isCoinbase_iff {tx : Transaction} :
    tx.isCoinbase = true ↔ ∃ i, tx.inputs = [i] ∧ i.previousOutput = OutPoint.coinbase := by
  unfold isCoinbase
  split
  · next i hi => simp [hi, TxInput.isCoinbase, OutPoint.isCoinbase_iff]
  · next hne =>
    refine ⟨fun h => absurd h Bool.false_ne_true, ?_⟩
    intro h
    obtain ⟨i, hi, _⟩ := h
    exact absurd hi (hne i)

/-- The one outpoint a coinbase names is the null reference. -/
theorem spends_of_isCoinbase {tx : Transaction} (h : tx.isCoinbase = true) :
    tx.spends = [OutPoint.coinbase] := by
  obtain ⟨i, hi, hp⟩ := isCoinbase_iff.mp h
  rw [spends, hi, List.map_singleton, hp]

end Transaction

/-- An unspent output with the height and kind of the transaction that made it. -/
structure Utxo where
  output : TxOutput
  height : UInt64
  isCoinbase : Bool
  deriving DecidableEq

namespace Utxo

/-- Coinbase maturity, 100 blocks; `self.height + 100` wraps. -/
def isMature (u : Utxo) (currentHeight : UInt64) : Bool :=
  if !u.isCoinbase then true else decide (u.height + 100 ≤ currentHeight)

end Utxo

/-! ## Reading the wire form back -/

def H256.deserialize : Decoder H256 := do
  let bs ← takeBytes 32
  pure (H256.fromSlice bs)

def Address.deserialize : Decoder Address := do
  let bs ← takeBytes 20
  pure (Address.fromSlice bs)

def OutPoint.deserialize : Decoder OutPoint := do
  let txid ← H256.deserialize
  let vout ← decU32
  pure ⟨txid, vout⟩

def TxOutput.deserialize : Decoder TxOutput := do
  let value ← decU64
  let scriptPubkey ← decVec decU8
  pure ⟨value, scriptPubkey⟩

def TxInput.deserialize : Decoder TxInput := do
  let previousOutput ← OutPoint.deserialize
  let scriptSig ← decVec decU8
  let sequence ← decU32
  pure ⟨previousOutput, scriptSig, sequence⟩

def Transaction.deserialize : Decoder Transaction := do
  let version ← decU32
  let inputs ← decVec TxInput.deserialize
  let outputs ← decVec TxOutput.deserialize
  let lockTime ← decU32
  pure ⟨version, inputs, outputs, lockTime⟩

theorem H256.reads (h : H256) : Reads H256.deserialize h.asBytes h := by
  refine (reads_takeBytes h.asBytes_length).map ?_
  rw [H256.fromSlice_asBytes]
  exact Reads.pure h

theorem Address.reads (a : Address) : Reads Address.deserialize a.asBytes a := by
  refine (reads_takeBytes a.asBytes_length).map ?_
  rw [Address.fromSlice_asBytes]
  exact Reads.pure a

theorem OutPoint.reads (o : OutPoint) : Reads OutPoint.deserialize o.serialize o :=
  (H256.reads o.txid).bind ((reads_u32 o.vout).map (Reads.pure o))

/-- Byte strings, as a `Vec<u8>` behind its length. -/
theorem reads_bytes {bs : List UInt8} (h : bs.length < 2 ^ 64) :
    Reads (decVec decU8) (encVec encU8 bs) bs :=
  reads_vec h fun b _ => reads_u8 b

theorem TxOutput.reads {o : TxOutput} (h : o.scriptPubkey.length < 2 ^ 64) :
    Reads TxOutput.deserialize o.serialize o :=
  (reads_u64 o.value).bind ((reads_bytes h).map (Reads.pure o))

theorem TxInput.reads {i : TxInput} (h : i.scriptSig.length < 2 ^ 64) :
    Reads TxInput.deserialize i.serialize i := by
  rw [TxInput.serialize, List.append_assoc]
  exact (OutPoint.reads _).bind ((reads_bytes h).bind ((reads_u32 _).map (Reads.pure i)))

/-- A transaction whose every `Vec` has a length that fits in a `u64`. In memory
every `Vec` does; a Lean list need not. -/
structure Transaction.Fits (tx : Transaction) : Prop where
  inputs : tx.inputs.length < 2 ^ 64
  outputs : tx.outputs.length < 2 ^ 64
  scriptSig : ∀ i ∈ tx.inputs, i.scriptSig.length < 2 ^ 64
  scriptPubkey : ∀ o ∈ tx.outputs, o.scriptPubkey.length < 2 ^ 64

theorem Transaction.reads {tx : Transaction} (h : tx.Fits) :
    Reads Transaction.deserialize tx.serialize tx := by
  have hin := reads_vec h.inputs fun i hi => TxInput.reads (h.scriptSig i hi)
  have hout := reads_vec h.outputs fun o ho => TxOutput.reads (h.scriptPubkey o ho)
  rw [Transaction.serialize, List.append_assoc, List.append_assoc]
  exact (reads_u32 _).bind (hin.bind (hout.bind ((reads_u32 _).map (Reads.pure tx))))

/-- The wire form is injective. -/
theorem Transaction.serialize_inj {tx tx' : Transaction} (h : tx.Fits) (h' : tx'.Fits)
    (heq : tx.serialize = tx'.serialize) : tx = tx' :=
  Reads.unique (heq ▸ Transaction.reads h) (Transaction.reads h')

/-! ## Sizes -/

@[simp] theorem OutPoint.serialize_length (o : OutPoint) : o.serialize.length = 36 := by
  simp [OutPoint.serialize]

/-- A byte string takes its length and the eight bytes before it. -/
theorem encVec_bytes_length (bs : List UInt8) : (encVec encU8 bs).length = 8 + bs.length := by
  rw [encVec_length]
  simp

theorem TxInput.serialize_length (i : TxInput) :
    i.serialize.length = 48 + i.scriptSig.length := by
  rw [TxInput.serialize, List.length_append, List.length_append, encVec_bytes_length,
    OutPoint.serialize_length, encU32_length]
  omega

theorem TxOutput.serialize_length (o : TxOutput) :
    o.serialize.length = 16 + o.scriptPubkey.length := by
  rw [TxOutput.serialize, List.length_append, encVec_bytes_length, encU64_length]
  omega

theorem Transaction.serialize_length (tx : Transaction) :
    tx.serialize.length = 24 + (tx.inputs.map fun i => i.serialize.length).sum
      + (tx.outputs.map fun o => o.serialize.length).sum := by
  rw [Transaction.serialize, List.length_append, List.length_append, List.length_append,
    encVec_length, encVec_length, encU32_length, encU32_length]
  omega

/-- One element's share of a sum of sizes. -/
theorem le_sum_of_mem {α : Type} (f : α → Nat) {xs : List α} {x : α} (h : x ∈ xs) :
    f x ≤ (xs.map f).sum :=
  List.single_le_sum (fun _ _ => Nat.zero_le _) _ (List.mem_map_of_mem h)

/-- A transaction's outputs take sixteen bytes each. -/
theorem Transaction.outputs_le (tx : Transaction) :
    16 * tx.outputs.length ≤ tx.serialize.length := by
  have h := length_mul_le_encVec TxOutput.serialize 16 tx.outputs
    fun o _ => by rw [TxOutput.serialize_length]; omega
  rw [encVec_length] at h
  rw [Transaction.serialize_length]
  omega

/-- Anything of a bounded size has `Vec`s of bounded length. -/
theorem Transaction.fits_of_length {tx : Transaction} (h : tx.serialize.length < 2 ^ 64) :
    tx.Fits := by
  have hin := length_mul_le_encVec TxInput.serialize 48 tx.inputs
    fun i _ => by rw [TxInput.serialize_length]; omega
  have hout := tx.outputs_le
  have hlen := tx.serialize_length
  rw [encVec_length] at hin
  refine ⟨by omega, by omega, fun i hi => ?_, fun o ho => ?_⟩
  · have := le_sum_of_mem (fun i : TxInput => i.serialize.length) hi
    simp only [TxInput.serialize_length] at this hlen
    omega
  · have := le_sum_of_mem (fun o : TxOutput => o.serialize.length) ho
    simp only [TxOutput.serialize_length] at this hlen
    omega

/-- A transaction with an input and an output is longer than two hashes. -/
theorem Transaction.serialize_length_ge {tx : Transaction} (hin : tx.inputs ≠ [])
    (hout : tx.outputs ≠ []) : 88 ≤ tx.serialize.length := by
  obtain ⟨i, is, hi⟩ := List.exists_cons_of_ne_nil hin
  obtain ⟨o, os, ho⟩ := List.exists_cons_of_ne_nil hout
  rw [tx.serialize_length, hi, ho, List.map_cons, List.map_cons, List.sum_cons, List.sum_cons,
    TxInput.serialize_length, TxOutput.serialize_length]
  omega

end Pyrax
