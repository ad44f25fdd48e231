import Pyrax.Rpc.Server
import Pyrax.Storage.Spec

/-!
# The wallet's transactions before the node's validator

`build_and_sign_transaction` of the desktop wallet
(`pyrax-desktop/src-tauri/src/commands/wallet.rs`) with the keys and signatures
of `pyrax-wallet`. The wallet and the validator drifted apart in every step:

* an address is the tail of a Keccak digest, an output is unlocked by the key
  whose `RIPEMD-160(SHA-256(key))` it names;
* the wallet signs one BLAKE3 digest of the unsigned transaction, the validator
  verifies a Keccak digest per input, which ECDSA hashes once more;
* the wallet writes 65 bytes `r || s || v`, and the validator reads anything but
  64 bytes as DER.

The first is enough: `wallet_never_spends` needs only that the two hashes of the
key differ.
-/

namespace Pyrax.Wallet

open Base Base.Hex ChainDB Validation Rpc

/-! ## Keys and signatures -/

section Keys

variable (C : Crypto)

/-- `Address::from_public_key`: the last twenty bytes of a Keccak digest. -/
def addressFromPublicKey (pubkey : List UInt8) : Address :=
  Address.fromSlice ((C.keccak256 pubkey).asBytes.drop 12)

/-- `PublicKey::address`: of the uncompressed point, less its first byte. -/
def publicKeyAddress (key : C.VerifyingKey) : Address :=
  addressFromPublicKey C ((C.uncompressedPoint key).toList.drop 1)

/-- `SignedMessage` of `pyrax-wallet`. -/
structure SignedMessage where
  messageHash : H256
  r : Vector UInt8 32
  s : Vector UInt8 32
  v : UInt8

/-- `SignedMessage::to_bytes`. -/
def SignedMessage.toBytes (m : SignedMessage) : List UInt8 := m.r.toList ++ m.s.toList ++ [m.v]

/-- `sign_hash`: the digest is signed as it is. -/
def signHash (key : C.SigningKey) (hash : H256) : Option SignedMessage :=
  (C.signPrehashRecoverable key hash.asBytes).map fun sig =>
    let sigBytes := (C.signatureToBytes sig.1).toList
    ⟨hash, arrayFromSlice 32 (sigBytes.take 32), arrayFromSlice 32 (sigBytes.drop 32), sig.2⟩

/-- The unlocking script: `<sig_len> <sig> <pubkey_len> <pubkey>`. -/
def buildScriptSig (key : C.SigningKey) (signature : SignedMessage) : List UInt8 :=
  let pubkeyBytes := (C.compressedPoint (C.verifyingKey key)).toList
  UInt8.ofNat signature.toBytes.length :: signature.toBytes ++
    UInt8.ofNat pubkeyBytes.length :: pubkeyBytes

end Keys

/-! ## Building a transaction -/

/-- The fields of the node's answer that the wallet reads. -/
structure UtxoResponse where
  txid : String
  vout : UInt32
  value : UInt64

/-- The outpoint of an answer; a short or long hash is padded or cut. -/
def UtxoResponse.outPoint (u : UtxoResponse) : Option OutPoint :=
  (decodeHex (trim0x u.txid)).map fun bytes => ⟨H256.fromSlice bytes, u.vout⟩

/-- The payment and, where there is any, the change. -/
def buildOutputs (toAddr : Address) (amount : UInt64) (changeAddr : Address)
    (changeAmount : UInt64) : List TxOutput :=
  TxOutput.p2pkh amount toAddr ::
    if 0 < changeAmount then [TxOutput.p2pkh changeAmount changeAddr] else []

/-- The transaction with one script for all its inputs. -/
def buildTx (outpoints : List OutPoint) (scriptSig : List UInt8) (outputs : List TxOutput) :
    Transaction :=
  Transaction.new (outpoints.map fun o => TxInput.new o scriptSig) outputs

/-- `build_and_sign_transaction`. The text of a signing error is the crate's and
is left out. -/
def buildAndSignTransaction (C : Crypto) (key : C.SigningKey) (utxos : List UtxoResponse)
    (toAddress : String) (amount : UInt64) (changeAddress : String) (changeAmount : UInt64) :
    Except String String := do
  let toBytes ← okOr (decodeHex (trim0x toAddress)) "Invalid to address"
  let changeBytes ← okOr (decodeHex (trim0x changeAddress)) "Invalid change address"
  failIf (toBytes.length ≠ 20 ∨ changeBytes.length ≠ 20) "Address must be 20 bytes"
  let outpoints ← utxos.mapM fun u => okOr u.outPoint "Invalid utxo txid"
  let outputs :=
    buildOutputs (Address.fromSlice toBytes) amount (Address.fromSlice changeBytes) changeAmount
  -- the digest covers the transaction with empty scripts, once for all inputs
  let txHash := C.blake3 (buildTx outpoints [] outputs).serialize
  let signature ← okOr (signHash C key txHash) "Signing failed"
  let signedTx := buildTx outpoints (buildScriptSig C key signature) outputs
  .ok ("0x" ++ encodeHex signedTx.serialize)

/-- The unspent outputs are there, mature, and locked to the key's address. -/
def LockedTo (s : ChainDB) (height : UInt64) (address : Address)
    (utxos : List UtxoResponse) : Prop :=
  ∀ u ∈ utxos, ∃ o isCoinbase created, u.outPoint = some o ∧
    s.getUtxo o = some ⟨.p2pkh u.value address, created, isCoinbase⟩ ∧
    (Utxo.mk (.p2pkh u.value address) created isCoinbase).isMature height = true

/-- The text the wallet produces decodes to a transaction that the validator
accepts at this height, with nothing else spent before it. -/
def Spends (C : Crypto) (s : ChainDB) (height : UInt64) (key : C.SigningKey)
    (utxos : List UtxoResponse) (toAddress : String) (amount : UInt64) (changeAddress : String)
    (changeAmount : UInt64) : Prop :=
  ∃ txHex tx spent,
    buildAndSignTransaction C key utxos toAddress amount changeAddress changeAmount = .ok txHex ∧
    decodeParam Transaction.deserialize .invalidTransaction txHex = .ok tx ∧
    validateTransaction C height s [] tx = .ok spent

/-! ## What the wallet builds -/

variable {C : Crypto} {s : ChainDB} {height amount changeAmount : UInt64} {key : C.SigningKey}
  {utxos : List UtxoResponse} {toAddress changeAddress txHex : String}

theorem SignedMessage.toBytes_length (m : SignedMessage) : m.toBytes.length = 65 := by
  simp [toBytes]

theorem buildScriptSig_length (signature : SignedMessage) :
    (buildScriptSig C key signature).length = 100 := by
  simp [buildScriptSig, SignedMessage.toBytes_length]

/-- The outpoints of the answers, where all of them decode. -/
theorem mapM_outPoint_eq_ok : ∀ {us : List UtxoResponse} {os : List OutPoint},
    (us.mapM fun u => okOr u.outPoint "Invalid utxo txid") = .ok os →
      os.length = us.length ∧ ∀ o ∈ os, ∃ u ∈ us, u.outPoint = some o
  | [], os, h => by
    rw [List.mapM_nil] at h
    obtain rfl := Except.ok.inj h
    exact ⟨rfl, fun o ho => absurd ho List.not_mem_nil⟩
  | u :: us, os, h => by
    rw [List.mapM_cons] at h
    obtain ⟨o, ho, h⟩ := bind_eq_ok.mp h
    obtain ⟨os', hos', h⟩ := bind_eq_ok.mp h
    obtain rfl := Except.ok.inj h
    obtain ⟨hlen, hall⟩ := mapM_outPoint_eq_ok hos'
    refine ⟨by rw [List.length_cons, List.length_cons, hlen], fun o' ho' => ?_⟩
    rcases List.mem_cons.mp ho' with rfl | ho'
    · exact ⟨u, List.mem_cons_self .., okOr_eq_ok.mp ho⟩
    · obtain ⟨u', hu', hout⟩ := hall o' ho'
      exact ⟨u', List.mem_cons_of_mem _ hu', hout⟩

theorem length_lt_of_mem_buildOutputs {toAddr changeAddr : Address} {o : TxOutput}
    (ho : o ∈ buildOutputs toAddr amount changeAddr changeAmount) :
    o.scriptPubkey.length < 2 ^ 64 := by
  have hp2pkh : ∀ v a, (TxOutput.p2pkh v a).scriptPubkey.length < 2 ^ 64 := by
    intro v a
    simp [TxOutput.p2pkh]
  unfold buildOutputs at ho
  rcases List.mem_cons.mp ho with rfl | ho
  · exact hp2pkh _ _
  · split at ho
    · rw [List.mem_singleton.mp ho]
      exact hp2pkh _ _
    · exact absurd ho List.not_mem_nil

/-- What the wallet builds has lengths that fit their prefixes. -/
theorem buildTx_fits {outpoints : List OutPoint} (hlen : outpoints.length < 2 ^ 64)
    (signature : SignedMessage) (toAddr changeAddr : Address) :
    (buildTx outpoints (buildScriptSig C key signature)
      (buildOutputs toAddr amount changeAddr changeAmount)).Fits := by
  refine ⟨?_, ?_, fun i hi => ?_, fun o ho => length_lt_of_mem_buildOutputs ho⟩
  · show (outpoints.map _).length < _
    rw [List.length_map]
    exact hlen
  · show (buildOutputs _ _ _ _).length < _
    unfold buildOutputs
    split
    · exact (by decide : 2 < 2 ^ 64)
    · exact (by decide : 1 < 2 ^ 64)
  · obtain ⟨o, _, rfl⟩ := List.mem_map.mp hi
    show (buildScriptSig C key signature).length < _
    rw [buildScriptSig_length]
    decide

/-- A text that was built is a transaction whose inputs all carry one script,
and the node reads that transaction back. -/
theorem build_spec (hlen : utxos.length < 2 ^ 64)
    (h : buildAndSignTransaction C key utxos toAddress amount changeAddress changeAmount
      = .ok txHex) :
    ∃ outpoints signature outputs,
      (∀ o ∈ outpoints, ∃ u ∈ utxos, u.outPoint = some o) ∧
      decodeParam Transaction.deserialize .invalidTransaction txHex
        = .ok (buildTx outpoints (buildScriptSig C key signature) outputs) := by
  unfold buildAndSignTransaction at h
  obtain ⟨toBytes, _, h⟩ := bind_eq_ok.mp h
  obtain ⟨changeBytes, _, h⟩ := bind_eq_ok.mp h
  obtain ⟨_, h⟩ := failIf_bind_eq_ok.mp h
  obtain ⟨outpoints, hos, h⟩ := bind_eq_ok.mp h
  obtain ⟨signature, _, h⟩ := bind_eq_ok.mp h
  obtain ⟨hoslen, hall⟩ := mapM_outPoint_eq_ok hos
  obtain rfl := Except.ok.inj h
  exact ⟨outpoints, signature, _, hall, decodeParam_encodeHex (Transaction.reads
    (buildTx_fits (hoslen ▸ hlen) signature _ _))⟩

/-- The hash in a P2PKH script is the address it was made for. -/
theorem p2pkh_pubkeyHash (value : UInt64) (address : Address) :
    ((TxOutput.p2pkh value address).scriptPubkey.drop 3).take 20 = address.asBytes := by
  show (address.asBytes ++ [0x88, 0xac]).take 20 = _
  rw [List.take_append_of_le_length (by rw [Address.asBytes_length]),
    List.take_of_length_le (by rw [Address.asBytes_length])]

/-! ## The validator's verdict -/

/-- Where a transaction of the wallet passes, the key it shows hashes to the
address its outputs are locked to. -/
theorem hash160_eq_of_spends (hlen : utxos.length < 2 ^ 64)
    (hlocked : LockedTo s height (publicKeyAddress C (C.verifyingKey key)) utxos)
    (h : Spends C s height key utxos toAddress amount changeAddress changeAmount) :
    hash160 C (C.compressedPoint (C.verifyingKey key)).toList
      = (publicKeyAddress C (C.verifyingKey key)).asBytes := by
  obtain ⟨txHex, tx, spent, hbuild, hdec, hval⟩ := h
  obtain ⟨outpoints, signature, outputs, hall, hdec'⟩ := build_spec hlen hbuild
  obtain rfl := Except.ok.inj (hdec.symm.trans hdec')
  have hv := (validateTransaction_ok_iff.mp hval).1
  -- without inputs nothing passes; with one, its key is compared with the address
  cases outpoints with
  | nil => exact absurd rfl hv.inputs_ne
  | cons o os =>
    obtain ⟨utxo, hutxo, _, hsig⟩ :=
      hv.input (TxInput.new o (buildScriptSig C key signature)) (List.mem_cons_self ..)
    obtain ⟨u, hu, hout⟩ := hall o (List.mem_cons_self ..)
    obtain ⟨o', isCoinbase, created, hout', hutxo', _⟩ := hlocked u hu
    obtain rfl := Option.some.inj (hout.symm.trans hout')
    obtain rfl := Option.some.inj (hutxo'.symm.trans hutxo)
    rw [← p2pkh_pubkeyHash u.value]
    refine hash160_of_verify ?_ ?_ hsig
    · rw [SignedMessage.toBytes_length]
      decide
    · rw [Vector.length_toList]
      decide

/-- No transaction the wallet builds passes the validator, the two hashes of its
key being different. -/
theorem wallet_never_spends (hlen : utxos.length < 2 ^ 64)
    (hdistinct : hash160 C (C.compressedPoint (C.verifyingKey key)).toList
      ≠ (publicKeyAddress C (C.verifyingKey key)).asBytes)
    (hlocked : LockedTo s height (publicKeyAddress C (C.verifyingKey key)) utxos) :
    ¬ Spends C s height key utxos toAddress amount changeAddress changeAmount :=
  fun h => hdistinct (hash160_eq_of_spends hlen hlocked h)

/-! ## A payment of the private key `1` -/

def generatorUncompressed : List UInt8 := 0x04 :: generatorX.asBytes ++ generatorY.asBytes

/-- Keccak-256 of its uncompressed point. -/
def generatorKeccak : H256 :=
  H256.ofNatBE 0xc0a6c424ac7157ae408398df7e5f4552091a69125d5dfcb7b8c2659029395bdf

/-- An output to the wallet's address of that key. -/
def depositTx : Transaction :=
  .new [] [.p2pkh 100000 (Address.fromSlice (generatorKeccak.asBytes.drop 12))]

def depositTxid : H256 :=
  H256.ofNatBE 0x7db8546615aba71ea495346cbd702400c2b12faec0c5e862b48ef4b215f87526

def depositResponse : UtxoResponse := ⟨toString depositTxid, 0, 100000⟩

def payeeAddress : String := "0x0000000000000000000000000000000000000000"

def changeAddressText : String := "0x7e5f4552091a69125d5dfcb7b8c2659029395bdf"

def paymentOutputs : List TxOutput :=
  buildOutputs Address.ZERO 90000 (Address.fromSlice (generatorKeccak.asBytes.drop 12)) 9000

/-- The digest the wallet signs, and its signature. -/
def paymentHash : H256 :=
  H256.ofNatBE 0x2cf37ef3e753a8a9455aad4b94060edaaabae38691e94a819275255631820546

def paymentSignature : List UInt8 :=
  (H256.ofNatBE 0xd9560bcf5921d6c6bc4a6adc6924b9c60fc0392068786bb72f3c93acb362f665).asBytes ++
    (H256.ofNatBE 0x2f0552bc699c4fe683168837c93182c5e45e2722c8722dffaf24a2605a020fea).asBytes

def walletTable : KeyTable where
  blake3 :=
    let genesis := 0xfb9b0e3a9e57f1325309d251f117712de619335d9a09b6ec3190835df84995fa
    let deposit := 0x7db8546615aba71ea495346cbd702400c2b12faec0c5e862b48ef4b215f87526
    devnetTable.take 2 ++
      [(depositTx.serialize, depositTxid),
       ((tableHeader genesis deposit 1).preimage,
        H256.ofNatBE 0x637ad75c3761babf06207fac14a70dc98ce715966af82dcba40a12eb0669fd41),
       ((buildTx [⟨depositTxid, 0⟩] [] paymentOutputs).serialize, paymentHash)]
  keccak256 := [(generatorUncompressed.drop 1, generatorKeccak)]
  sha256 := [(generatorCompressed, generatorSha256.bytes)]
  ripemd160 := [(generatorSha256.asBytes, arrayFromSlice 20 generatorHash160)]
  compressed := arrayFromSlice 33 generatorCompressed
  uncompressed := arrayFromSlice 65 generatorUncompressed
  verified := []
  signed := [(paymentHash.asBytes, arrayFromSlice 64 paymentSignature, 1)]

def walletCrypto : Crypto := .ofKey walletTable

/-- The devnet after a block that makes the deposit, committed unvalidated. -/
def depositState : ChainDB :=
  committed walletCrypto (openNew walletCrypto NetworkId.DEVNET)
    (easyBlock walletCrypto (openNew walletCrypto NetworkId.DEVNET) 1735689600 [depositTx])

theorem depositState_getUtxo :
    depositState.getUtxo ⟨depositTxid, 0⟩
      = some ⟨.p2pkh 100000 (Address.fromSlice (generatorKeccak.asBytes.drop 12)), 1, false⟩ := by
  have hid : depositTx.txid walletCrypto = depositTxid := by decide +kernel
  rw [← hid]
  exact committed_getUtxo_singleton _ rfl rfl

theorem wallet_address :
    publicKeyAddress walletCrypto () = Address.fromSlice (generatorKeccak.asBytes.drop 12) := by
  decide +kernel

theorem deposit_locked : LockedTo depositState 2 (publicKeyAddress walletCrypto ())
    [depositResponse] := by
  intro u hu
  rw [List.mem_singleton.mp hu, wallet_address]
  exact ⟨⟨depositTxid, 0⟩, false, 1, by decide +kernel, depositState_getUtxo, rfl⟩

theorem wallet_hashes_distinct :
    hash160 walletCrypto (walletCrypto.compressedPoint ()).toList
      ≠ (publicKeyAddress walletCrypto ()).asBytes := by
  decide +kernel

theorem payment_signed :
    signHash walletCrypto () (walletCrypto.blake3 (buildTx [⟨depositTxid, 0⟩] [] (buildOutputs
      (Address.fromSlice (List.replicate 20 0)) 90000
      (Address.fromSlice (generatorKeccak.asBytes.drop 12)) 9000)).serialize)
        = some ⟨paymentHash, arrayFromSlice 32 (paymentSignature.take 32),
            arrayFromSlice 32 (paymentSignature.drop 32), 1⟩ := by
  have hhash : walletCrypto.blake3 (buildTx [⟨depositTxid, 0⟩] [] (buildOutputs
      (Address.fromSlice (List.replicate 20 0)) 90000
      (Address.fromSlice (generatorKeccak.asBytes.drop 12)) 9000)).serialize = paymentHash := by
    decide +kernel
  rw [hhash]
  rfl

/-- The wallet does build the payment. -/
theorem payment_builds :
    ∃ txHex, buildAndSignTransaction walletCrypto () [depositResponse] payeeAddress 90000
      changeAddressText 9000 = .ok txHex := by
  have hto : decodeHex (trim0x payeeAddress) = some (List.replicate 20 0) := by decide +kernel
  have hchange : decodeHex (trim0x changeAddressText)
      = some (generatorKeccak.asBytes.drop 12) := by decide +kernel
  have hout : depositResponse.outPoint = some ⟨depositTxid, 0⟩ := by decide +kernel
  refine ⟨_, bind_eq_ok.mpr ⟨_, okOr_eq_ok.mpr hto, bind_eq_ok.mpr ⟨_, okOr_eq_ok.mpr hchange,
    failIf_bind_eq_ok.mpr ⟨by decide +kernel, bind_eq_ok.mpr ⟨[⟨depositTxid, 0⟩], ?_,
      bind_eq_ok.mpr ⟨_, okOr_eq_ok.mpr payment_signed, rfl⟩⟩⟩⟩⟩⟩
  rw [List.mapM_cons, List.mapM_nil, hout]
  rfl

theorem wallet_never_spends_generator :
    (∃ txHex, buildAndSignTransaction walletCrypto () [depositResponse] payeeAddress 90000
        changeAddressText 9000 = .ok txHex) ∧
      ¬ Spends walletCrypto depositState 2 () [depositResponse] payeeAddress 90000
        changeAddressText 9000 :=
  ⟨payment_builds, wallet_never_spends (by decide) wallet_hashes_distinct deposit_locked⟩

/-- What the wallet is for: coins locked to a key's address can be sent on with
that key, whatever is paid, kept and left as the fee. -/
def WalletSpends (C : Crypto) : Prop :=
  ∀ (key : C.SigningKey) (s : ChainDB) (height : UInt64) (utxos : List UtxoResponse)
    (toAddr changeAddr : Address) (amount changeAmount fee : UInt64),
    utxos ≠ [] → LockedTo s height (publicKeyAddress C (C.verifyingKey key)) utxos →
    (utxos.map (·.value)).sum = amount + changeAmount + fee →
    Spends C s height key utxos ("0x" ++ encodeHex toAddr.asBytes) amount
      ("0x" ++ encodeHex changeAddr.asBytes) changeAmount

/-- With the real digests of the private key `1`, its coins stay where they are. -/
theorem wallet_cannot_spend : ¬ WalletSpends walletCrypto := by
  intro h
  refine wallet_hashes_distinct (hash160_eq_of_spends (by decide) deposit_locked
    (h () depositState 2 [depositResponse] Address.ZERO
      (Address.fromSlice (generatorKeccak.asBytes.drop 12)) 90000 9000 1000
      (List.cons_ne_nil _ _) deposit_locked (by decide)))

end Pyrax.Wallet
