import Pyrax.Types.Utxo
import Pyrax.Validation.Rules

/-!
# What a signature covers

The validator builds the bytes that are signed with `compute_signing_hash`, a wallet with
`encode_for_signing`, and the two are the same (`encodeForSigning_eq`). They name what they
were built from (`preimage_names_signing`): every list stands behind its length, and among the
scripts of the inputs only the one of the input that is signed is not empty, so it says
which input that is.
-/

namespace Pyrax.Validation

open Base Wire

/-- The same fields as the other transaction type. -/
def toUtxoTransaction (tx : Transaction) : UtxoTransaction :=
  ⟨tx.version, tx.inputs, tx.outputs, tx.lockTime⟩

/-- Lengths that fit the words in front of them. -/
structure SigningFits (tx : Transaction) (prevScriptPubkey : List UInt8) : Prop where
  inputs : tx.inputs.length < 2 ^ 32
  outputs : tx.outputs.length < 2 ^ 32
  scripts : ∀ o ∈ tx.outputs, o.scriptPubkey.length < 2 ^ 32
  prevScript : prevScriptPubkey.length < 2 ^ 32

variable {tx tx' : Transaction} {i i' : Nat} {s s' : List UInt8}

/-! ## The two encoders -/

theorem encodeInputForSigning_eq (i : Nat) (s : List UInt8) (j : Nat) (input : TxInput) :
    UtxoTransaction.encodeInputForSigning i s j input = signingInput i s j input := by
  unfold UtxoTransaction.encodeInputForSigning signingInput
  split
  · simp only [OutPoint.encode, List.append_assoc]
  · simp only [OutPoint.encode, List.append_assoc, List.nil_append, List.length_nil]
    rfl

theorem encodeForSigning_eq (tx : Transaction) (i : Nat) (s : List UInt8) :
    (toUtxoTransaction tx).encodeForSigning i s = signingPreimage tx i s := by
  have hinputs : UtxoTransaction.encodeInputForSigning i s = signingInput i s :=
    funext fun j => funext (encodeInputForSigning_eq i s j)
  unfold UtxoTransaction.encodeForSigning signingPreimage
  rw [hinputs]
  rfl

/-! ## Reading it back -/

/-- An input as it is signed. -/
structure SignedInput where
  previousOutput : OutPoint
  script : List UInt8
  sequence : UInt32

namespace SignedInput

def encode (input : SignedInput) : List UInt8 :=
  input.previousOutput.serialize ++ encVec32 encU8 input.script ++ encU32 input.sequence

def decode : Decoder SignedInput := do
  let previousOutput ← OutPoint.deserialize
  let script ← decVec32 decU8
  let sequence ← decU32
  pure ⟨previousOutput, script, sequence⟩

theorem reads {input : SignedInput} (h : input.script.length < 2 ^ 32) :
    Reads decode input.encode input := by
  have hscript := reads_vec32 h fun b _ => reads_u8 b
  rw [encode, List.append_assoc]
  exact (OutPoint.reads _).bind (hscript.bind ((reads_u32 _).map (Reads.pure input)))

end SignedInput

/-- The inputs as they are signed for input `i`. -/
def signedInputs (tx : Transaction) (i : Nat) (s : List UInt8) : List SignedInput :=
  tx.inputs.mapIdx fun j input =>
    ⟨input.previousOutput, if j = i then s else [], input.sequence⟩

theorem signedInputs_encode (tx : Transaction) (i : Nat) (s : List UInt8) :
    (tx.inputs.mapIdx (signingInput i s)).flatten
      = (signedInputs tx i s).flatMap SignedInput.encode := by
  rw [signedInputs, List.flatMap_def]
  refine congrArg List.flatten (List.ext_getElem (by simp) fun j hj _ => ?_)
  simp only [List.getElem_mapIdx, List.getElem_map]
  rw [SignedInput.encode, encVec32_bytes, OutPoint.serialize]
  simp only [signingInput, List.append_assoc]

def outputDecode : Decoder TxOutput := do
  let value ← decU64
  let scriptPubkey ← decVec32 decU8
  pure ⟨value, scriptPubkey⟩

theorem signingOutput_reads {o : TxOutput} (h : o.scriptPubkey.length < 2 ^ 32) :
    Reads outputDecode (signingOutput o) o := by
  have hscript := reads_vec32 h fun b _ => reads_u8 b
  rw [encVec32_bytes] at hscript
  rw [signingOutput, List.append_assoc]
  exact (reads_u64 _).bind (hscript.map (Reads.pure o))

/-- All that is signed, before the last word. -/
def preimageDecode : Decoder (UInt32 × List SignedInput × List TxOutput × UInt32) := do
  let version ← decU32
  let inputs ← decVec32 SignedInput.decode
  let outputs ← decVec32 outputDecode
  let lockTime ← decU32
  pure (version, inputs, outputs, lockTime)

theorem signingPreimage_eq (tx : Transaction) (i : Nat) (s : List UInt8) :
    signingPreimage tx i s = (encU32 tx.version ++
      (encVec32 SignedInput.encode (signedInputs tx i s) ++
        (encVec32 signingOutput tx.outputs ++ encU32 tx.lockTime))) ++ encU32 1 := by
  have hlength : (signedInputs tx i s).length = tx.inputs.length := List.length_mapIdx
  rw [signingPreimage, signedInputs_encode, encVec32, encVec32, hlength]
  simp only [List.append_assoc]

theorem preimage_reads (h : SigningFits tx s) (i : Nat) :
    Reads preimageDecode (encU32 tx.version ++
      (encVec32 SignedInput.encode (signedInputs tx i s) ++
        (encVec32 signingOutput tx.outputs ++ encU32 tx.lockTime)))
      (tx.version, signedInputs tx i s, tx.outputs, tx.lockTime) := by
  have hinputs : Reads (decVec32 SignedInput.decode)
      (encVec32 SignedInput.encode (signedInputs tx i s)) (signedInputs tx i s) := by
    refine reads_vec32 (lt_of_eq_of_lt List.length_mapIdx h.inputs) fun input hinput => ?_
    obtain ⟨j, hj, rfl⟩ := List.mem_mapIdx.mp hinput
    refine SignedInput.reads ?_
    show (if j = i then s else []).length < 2 ^ 32
    split
    · exact h.prevScript
    · exact Nat.two_pow_pos 32
  have houtputs := reads_vec32 h.outputs fun o ho => signingOutput_reads (h.scripts o ho)
  exact (reads_u32 _).bind (hinputs.bind (houtputs.bind ((reads_u32 _).map (Reads.pure _))))

/-- The fields of two transactions that a signature covers, one by one. -/
structure SignedAlike (tx tx' : Transaction) : Prop where
  version : tx.version = tx'.version
  outpoints : tx.inputs.map (·.previousOutput) = tx'.inputs.map (·.previousOutput)
  sequences : tx.inputs.map (·.sequence) = tx'.inputs.map (·.sequence)
  outputs : tx.outputs = tx'.outputs
  lockTime : tx.lockTime = tx'.lockTime

theorem signingPreimage_inj (h : SigningFits tx s) (h' : SigningFits tx' s')
    (he : signingPreimage tx i s = signingPreimage tx' i' s') :
    tx.version = tx'.version ∧ signedInputs tx i s = signedInputs tx' i' s' ∧
      tx.outputs = tx'.outputs ∧ tx.lockTime = tx'.lockTime := by
  rw [signingPreimage_eq, signingPreimage_eq] at he
  have hread := ((preimage_reads h i).append_inj (preimage_reads h' i') he).1
  simpa only [Prod.mk.injEq] using hread

theorem signedInputs_outpoints (tx : Transaction) (i : Nat) (s : List UInt8) :
    (signedInputs tx i s).map (·.previousOutput) = tx.inputs.map (·.previousOutput) :=
  List.ext_getElem (by simp [signedInputs]) fun j _ _ => by simp [signedInputs]

theorem signedInputs_sequences (tx : Transaction) (i : Nat) (s : List UInt8) :
    (signedInputs tx i s).map (·.sequence) = tx.inputs.map (·.sequence) :=
  List.ext_getElem (by simp [signedInputs]) fun j _ _ => by simp [signedInputs]

theorem signedInputs_script (tx : Transaction) (i : Nat) (s : List UInt8) (j : Nat) :
    (signedInputs tx i s)[j]?.map (·.script)
      = if j < tx.inputs.length then some (if j = i then s else []) else none := by
  rw [signedInputs, List.getElem?_mapIdx]
  by_cases hj : j < tx.inputs.length
  · rw [if_pos hj, List.getElem?_eq_getElem hj]
    rfl
  · rw [if_neg hj, List.getElem?_eq_none (Nat.le_of_not_lt hj)]
    rfl

/-- The one script that is not empty says which input is signed. -/
theorem signedInputs_index (hi : i < tx.inputs.length) (hs : s ≠ [])
    (he : signedInputs tx i s = signedInputs tx' i' s') : i = i' ∧ s = s' := by
  have hscript := signedInputs_script tx i s i
  rw [he, signedInputs_script, if_pos hi, if_pos rfl] at hscript
  by_cases hin : i < tx'.inputs.length
  · rw [if_pos hin] at hscript
    by_cases hii : i = i'
    · rw [if_pos hii] at hscript
      exact ⟨hii, (Option.some.inj hscript).symm⟩
    · rw [if_neg hii] at hscript
      exact absurd (Option.some.inj hscript).symm hs
  · rw [if_neg hin] at hscript
    cases hscript

/-- Both encoders build the same bytes, and the bytes name the input that is signed, the
script it spends and every field that a signature covers. -/
theorem preimage_names_signing (tx tx' : Transaction) (i i' : Nat) (s s' : List UInt8)
    (h : SigningFits tx s) (h' : SigningFits tx' s') (hi : i < tx.inputs.length) (hs : s ≠ []) :
    (toUtxoTransaction tx).encodeForSigning i s = signingPreimage tx i s ∧
      (signingPreimage tx i s = signingPreimage tx' i' s' →
        i = i' ∧ s = s' ∧ SignedAlike tx tx') := by
  refine ⟨encodeForSigning_eq tx i s, fun he => ?_⟩
  obtain ⟨hversion, hinputs, houtputs, hlock⟩ := signingPreimage_inj h h' he
  obtain ⟨hii, hss⟩ := signedInputs_index hi hs hinputs
  refine ⟨hii, hss, hversion, ?_, ?_, houtputs, hlock⟩
  · rw [← signedInputs_outpoints tx i s, hinputs, signedInputs_outpoints]
  · rw [← signedInputs_sequences tx i s, hinputs, signedInputs_sequences]

/-- Two inputs, paying one unit; the script of the second is not covered. -/
def coveredTx (scriptSig : List UInt8) : Transaction :=
  Transaction.new [TxInput.new ⟨H256.zero, 0⟩ [], TxInput.new ⟨H256.zero, 1⟩ scriptSig]
    [TxOutput.p2pkh 1 Address.ZERO]

theorem coveredTx_fits (scriptSig : List UInt8) : SigningFits (coveredTx scriptSig) [0x76] where
  inputs := lt_of_le_of_lt (Nat.le_refl 2) (by decide)
  outputs := Nat.one_lt_two_pow (by decide)
  scripts o ho := by
    rw [List.mem_singleton.mp ho]
    show 25 < 2 ^ 32
    omega
  prevScript := Nat.one_lt_two_pow (by decide)

theorem covered_named :
    (toUtxoTransaction (coveredTx [])).encodeForSigning 1 [0x76]
        = signingPreimage (coveredTx [7]) 1 [0x76] ∧
      SignedAlike (coveredTx []) (coveredTx [7]) ∧
      signingPreimage (coveredTx []) 0 [0x76] ≠ signingPreimage (coveredTx []) 1 [0x76] := by
  have hsame : signingPreimage (coveredTx []) 1 [0x76] = signingPreimage (coveredTx [7]) 1 [0x76] :=
    rfl
  obtain ⟨hboth, hnames⟩ := preimage_names_signing (coveredTx []) (coveredTx [7]) 1 1 [0x76] [0x76]
    (coveredTx_fits []) (coveredTx_fits [7]) Nat.one_lt_two (List.cons_ne_nil _ _)
  refine ⟨hboth.trans hsame, (hnames hsame).2.2, fun he => absurd ?_ (by decide : (0 : Nat) ≠ 1)⟩
  exact ((preimage_names_signing (coveredTx []) (coveredTx []) 0 1 [0x76] [0x76]
    (coveredTx_fits []) (coveredTx_fits []) Nat.zero_lt_two (List.cons_ne_nil _ _)).2 he).1

end Pyrax.Validation
