import Pyrax.Mempool.Pool
import Pyrax.Validation.Spec
import Pyrax.Base.Hex

/-!
# The submitting methods of the RPC server

`send_raw_transaction` and `submit_block` of `pyrax-node/src/rpc/server.rs`.
Both take hexadecimal text, with or without a leading `0x`, and decode it with
`bincode`, which leaves bytes after the value unread. A text that does not
decode is an RPC error; everything else is answered with an `RpcSubmitResult`.

`send_raw_transaction` has checks of its own and does not call the validator:
`admitTx_ok_iff` lists them. `submit_block` has none at all and hands the block
to `commit_block`.
-/

namespace Pyrax.Rpc

open Base Base.Hex ChainDB

/-- `RpcError::InvalidParams`, by what was invalid. The text of a decoding error
is the `bincode` crate's and is left out. -/
inductive RpcError where
  | invalidHex
  | invalidTransaction
  | invalidBlock
  deriving DecidableEq

structure RpcSubmitResult where
  accepted : Bool
  hash : Option String
  error : Option String
  deriving DecidableEq

/-- `format!("0x{}", hex::encode(&hash.0))`. -/
def RpcSubmitResult.taken (hash : H256) : RpcSubmitResult :=
  ⟨true, some ("0x" ++ encodeHex hash.asBytes), none⟩

def RpcSubmitResult.refused (error : String) : RpcSubmitResult := ⟨false, none, some error⟩

/-- Text to bytes to a value, as both methods read their parameter. -/
def decodeParam {α : Type} (d : Wire.Decoder α) (bad : RpcError) (text : String) :
    Except RpcError α := do
  let bytes ← okOr (decodeHex (strip0x text)) .invalidHex
  let r ← okOr (d.run bytes) bad
  .ok r.1

/-! ## `send_raw_transaction` -/

/-- One turn of the input loop; the running total wraps. -/
def addInput (s : ChainDB) (inputValue : UInt64) (input : TxInput) : Except String UInt64 := do
  failIf (input.isCoinbase = true) "Coinbase transactions not allowed"
  let utxo ← okOr (s.getUtxo input.previousOutput)
    ("UTXO not found: " ++ toString input.previousOutput.txid ++ ":" ++
      toString input.previousOutput.vout)
  .ok (inputValue + utxo.output.value)

/-- `mempool.add`, where the server has a pool. -/
def addToPool (C : Crypto) (mempool : Option Mempool) (tx : Transaction) (inputValue : UInt64) :
    Except String (Option Mempool) :=
  match mempool with
  | none => .ok none
  | some m =>
    match m.add C tx inputValue with
    | .ok m' => .ok (some m')
    | .error e => .error ("Mempool error: " ++ toString e)

/-- What the method does with a decoded transaction: the pool it leaves, or the
text of the refusal. -/
def admitTx (C : Crypto) (s : ChainDB) (mempool : Option Mempool) (tx : Transaction) :
    Except String (Option Mempool) := do
  let inputValue ← tx.inputs.foldlM (addInput s) 0
  failIf (inputValue < tx.totalOutput)
    ("Output value " ++ toString tx.totalOutput ++ " exceeds input value " ++ toString inputValue)
  addToPool C mempool tx inputValue

/-- `send_raw_transaction`: the answer and the pool it leaves. -/
def sendRawTransaction (C : Crypto) (s : ChainDB) (mempool : Option Mempool) (txHex : String) :
    Except RpcError (RpcSubmitResult × Option Mempool) := do
  let tx ← decodeParam Transaction.deserialize .invalidTransaction txHex
  match admitTx C s mempool tx with
  | .ok mempool' => .ok (.taken (tx.txid C), mempool')
  | .error e => .ok (.refused e, mempool)

/-! ## `submit_block` -/

/-- `submit_block`: the answer and the database it leaves. -/
def submitBlock (C : Crypto) (s : ChainDB) (blockHex : String) :
    Except RpcError (RpcSubmitResult × ChainDB) := do
  let block ← decodeParam Block.deserialize .invalidBlock blockHex
  match commitBlock C s block with
  | .ok s' => .ok (.taken (block.hash C), s')
  | .error e => .ok (.refused (toString e), s)

/-! ## What the methods check -/

variable {C : Crypto} {s : ChainDB} {mempool mempool' : Option Mempool} {tx : Transaction}

/-- A decoded parameter comes from bytes the text spells. -/
theorem decodeParam_eq_ok {α : Type} {d : Wire.Decoder α} {bad : RpcError} {text : String}
    {a : α} : decodeParam d bad text = .ok a ↔
      ∃ bytes rest, decodeHex (strip0x text) = some bytes ∧ d.run bytes = some (a, rest) := by
  unfold decodeParam
  constructor
  · intro h
    obtain ⟨bytes, hbytes, h⟩ := bind_eq_ok.mp h
    obtain ⟨⟨a', rest⟩, hrun, h⟩ := bind_eq_ok.mp h
    obtain rfl := Except.ok.inj h
    exact ⟨bytes, rest, okOr_eq_ok.mp hbytes, okOr_eq_ok.mp hrun⟩
  · intro h
    obtain ⟨bytes, rest, hbytes, hrun⟩ := h
    exact bind_eq_ok.mpr ⟨bytes, okOr_eq_ok.mpr hbytes,
      bind_eq_ok.mpr ⟨(a, rest), okOr_eq_ok.mpr hrun, rfl⟩⟩

/-- A value written as `0x…` is read back. -/
theorem decodeParam_encodeHex {α : Type} {d : Wire.Decoder α} {bad : RpcError} {bs : List UInt8}
    {a : α} (h : Wire.Reads d bs a) : decodeParam d bad ("0x" ++ encodeHex bs) = .ok a := by
  have hrun := h []
  rw [List.append_nil] at hrun
  exact decodeParam_eq_ok.mpr ⟨bs, [], decodeHex_strip0x bs, hrun⟩

/-- The input loop passes iff every input is an unspent output other than the
null reference; its total is then what the validator computes. -/
theorem addInputs_ok_iff : ∀ {is : List TxInput} {v v' : UInt64},
    is.foldlM (addInput s) v = .ok v' ↔
      (∀ i ∈ is, i.isCoinbase = false ∧ (s.getUtxo i.previousOutput).isSome = true) ∧
        v' = v + (is.map fun i => Validation.inputValue s i.previousOutput).sum
  | [], v, v' => by
    rw [List.foldlM_nil, List.map_nil, List.sum_nil, UInt64.add_zero]
    exact ⟨fun h => ⟨fun _ h => absurd h List.not_mem_nil, (Except.ok.inj h).symm⟩,
      fun h => congrArg Except.ok h.2.symm⟩
  | i :: is, v, v' => by
    have hone : ∀ {w : UInt64}, addInput s v i = .ok w ↔
        (i.isCoinbase = false ∧ (s.getUtxo i.previousOutput).isSome = true) ∧
          w = v + Validation.inputValue s i.previousOutput := by
      intro w
      unfold addInput Validation.inputValue
      rw [failIf_bind_eq_ok, Bool.not_eq_true, and_assoc]
      refine and_congr_right fun _ => ?_
      cases s.getUtxo i.previousOutput with
      | none => simp [okOr, bind, Except.bind]
      | some utxo => simp [okOr, bind, Except.bind, eq_comm]
    rw [foldlM_cons_eq_ok, List.forall_mem_cons, List.map_cons, List.sum_cons]
    constructor
    · intro h
      obtain ⟨w, hw, hrest⟩ := h
      obtain ⟨hi, rfl⟩ := hone.mp hw
      obtain ⟨his, rfl⟩ := addInputs_ok_iff.mp hrest
      exact ⟨⟨hi, his⟩, UInt64.add_assoc ..⟩
    · intro h
      obtain ⟨⟨hi, his⟩, rfl⟩ := h
      exact ⟨_, hone.mpr ⟨hi, rfl⟩, addInputs_ok_iff.mpr ⟨his, (UInt64.add_assoc ..).symm⟩⟩

/-- Everything `send_raw_transaction` asks of a transaction, with a pool. -/
theorem admitTx_ok_iff {m : Mempool} :
    admitTx C s (some m) tx = .ok mempool' ↔
      (∀ i ∈ tx.inputs, i.isCoinbase = false ∧ (s.getUtxo i.previousOutput).isSome = true) ∧
        tx.totalOutput ≤ Validation.totalInput s tx ∧
        ∃ m', m.add C tx (Validation.totalInput s tx) = .ok m' ∧ mempool' = some m' := by
  have htotal : (0 : UInt64) + (tx.inputs.map fun i => Validation.inputValue s i.previousOutput).sum
      = Validation.totalInput s tx := by
    simp [Validation.totalInput, Transaction.spends, Function.comp_def]
  have hpool : ∀ v, addToPool C (some m) tx v = .ok mempool' ↔
      ∃ m', m.add C tx v = .ok m' ∧ mempool' = some m' := by
    intro v
    unfold addToPool
    cases hadd : m.add C tx v with
    | ok m' => simp [hadd, eq_comm]
    | error e => simp [hadd]
  unfold admitTx
  rw [bind_eq_ok]
  constructor
  · intro h
    obtain ⟨v, hloop, h⟩ := h
    obtain ⟨hin, rfl⟩ := addInputs_ok_iff.mp hloop
    rw [htotal, failIf_bind_eq_ok, UInt64.not_lt, hpool] at h
    exact ⟨hin, h⟩
  · intro h
    obtain ⟨hin, h⟩ := h
    refine ⟨_, addInputs_ok_iff.mpr ⟨hin, rfl⟩, ?_⟩
    rw [htotal, failIf_bind_eq_ok, UInt64.not_lt, hpool]
    exact h

/-- An accepted transaction is what the text spells, admitted to the pool. -/
theorem sendRawTransaction_accepted_iff {txHex : String} :
    (∃ r, sendRawTransaction C s mempool txHex = .ok (r, mempool') ∧ r.accepted = true) ↔
      ∃ tx, decodeParam Transaction.deserialize .invalidTransaction txHex = .ok tx ∧
        admitTx C s mempool tx = .ok mempool' := by
  unfold sendRawTransaction
  constructor
  · intro h
    obtain ⟨r, h, hacc⟩ := h
    obtain ⟨tx, htx, h⟩ := bind_eq_ok.mp h
    refine ⟨tx, htx, ?_⟩
    cases hadm : admitTx C s mempool tx with
    | ok mp =>
      rw [hadm] at h
      rw [(Prod.mk.inj (Except.ok.inj h)).2]
    | error e =>
      rw [hadm] at h
      rw [← (Prod.mk.inj (Except.ok.inj h)).1] at hacc
      cases hacc
  · intro h
    obtain ⟨tx, htx, hadm⟩ := h
    refine ⟨.taken (tx.txid C), bind_eq_ok.mpr ⟨tx, htx, ?_⟩, rfl⟩
    rw [hadm]

end Pyrax.Rpc
