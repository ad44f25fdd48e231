import Pyrax.Mempool.Admission

/-!
# What an unlocking script looks like

`verify_p2pkh_signature` of `pyrax-node/src/validation/mod.rs` reads two length bytes out
of the script and slices by them. Every index and slice is checked against the length first
(`verifyIndexed_eq`), so no script makes it panic.

It does not look at what stands behind the second push. The documented form, which ends
there, is accepted, and so is every accepted script with any bytes behind it, of which the
transaction id is made and the signing hash is not (`scriptSig_exact_iff`).
-/

namespace Pyrax.Validation

open Base Wire

variable (C : Crypto)

/-! ## The same function with its indices checked -/

/-- `&bytes[lo..hi]`. -/
def slice (bytes : List UInt8) (lo hi : Nat) : Option (List UInt8) :=
  if lo ≤ hi ∧ hi ≤ bytes.length then some ((bytes.drop lo).take (hi - lo)) else none

/-- `||` stops at the first that differs. -/
def isP2pkhIndexed (script : List UInt8) : Option Bool :=
  if script.length ≠ 25 then some false else do
  let b₀ ← script[0]?
  if b₀ ≠ 0x76 then some false else do
  let b₁ ← script[1]?
  if b₁ ≠ 0xa9 then some false else do
  let b₂ ← script[2]?
  if b₂ ≠ 0x14 then some false else do
  let b₂₃ ← script[23]?
  if b₂₃ ≠ 0x88 then some false else do
  let b₂₄ ← script[24]?
  if b₂₄ ≠ 0xac then some false else some true

def parseIndexed (signatureBytes : List UInt8) (sigLen : Nat) :
    Option (Except ValidationError C.Signature) :=
  if sigLen = 64 then some (okOr (C.signatureFromSlice signatureBytes) .invalidSignature)
  else do
    let sigBytes ←
      if signatureBytes.getLast? = some 0x01 then
        slice signatureBytes 0 (signatureBytes.length - 1)
      else some signatureBytes
    some (okOr (C.signatureFromDer sigBytes) .invalidSignature)

/-- `verify_p2pkh_signature`, with `none` where an index or a slice is out of range. -/
def verifyIndexed (scriptSig scriptPubkey : List UInt8) (signingHash : H256) :
    Option (Except ValidationError Unit) :=
  if scriptSig.length < 2 then some (.error .invalidScript) else do
  let sigLen ← scriptSig[0]?
  if scriptSig.length < 1 + sigLen.toNat + 1 then some (.error .invalidScript) else do
  let signatureBytes ← slice scriptSig 1 (1 + sigLen.toNat)
  let pubkeyLen ← scriptSig[1 + sigLen.toNat]?
  if scriptSig.length < 1 + sigLen.toNat + 1 + pubkeyLen.toNat then some (.error .invalidScript)
  else do
  let pubkeyBytes ←
    slice scriptSig (1 + sigLen.toNat + 1) (1 + sigLen.toNat + 1 + pubkeyLen.toNat)
  let p2pkh ← isP2pkhIndexed scriptPubkey
  if p2pkh = false then some (.error .invalidScript) else do
  let expectedPubkeyHash ← slice scriptPubkey 3 23
  if hash160 C pubkeyBytes ≠ expectedPubkeyHash then some (.error .invalidSignature) else do
  let parsed ← parseIndexed C signatureBytes sigLen.toNat
  some (do
    let signature ← parsed
    let verifyingKey ← okOr (C.verifyingKeyFromSec1 pubkeyBytes) .invalidSignature
    failIf (C.verify verifyingKey signingHash.asBytes signature = false) .invalidSignature)

variable {C}

theorem getElem?_eq_getD {bytes : List UInt8} {i : Nat} (h : i < bytes.length) :
    bytes[i]? = some (bytes.getD i 0) := by
  rw [List.getD_eq_getElem?_getD, List.getElem?_eq_getElem h]
  rfl

theorem slice_eq {bytes : List UInt8} {lo hi : Nat} (hlo : lo ≤ hi) (hhi : hi ≤ bytes.length) :
    slice bytes lo hi = some ((bytes.drop lo).take (hi - lo)) := by
  rw [slice, if_pos ⟨hlo, hhi⟩]

theorem isP2pkhIndexed_eq (script : List UInt8) :
    isP2pkhIndexed script = some (isP2pkhScript script) := by
  by_cases hlen : script.length = 25
  · have hread : ∀ i, i < 25 → script[i]? = some (script.getD i 0) := by
      intro i hi
      exact getElem?_eq_getD (by omega)
    rw [isP2pkhIndexed, if_neg (not_not.mpr hlen), hread 0 (by omega), hread 1 (by omega),
      hread 2 (by omega), hread 23 (by omega), hread 24 (by omega), isP2pkhScript, hlen]
    dsimp only [Option.bind_eq_bind, Option.bind_some]
    generalize script.getD 0 0 = b₀
    generalize script.getD 1 0 = b₁
    generalize script.getD 2 0 = b₂
    generalize script.getD 23 0 = b₂₃
    generalize script.getD 24 0 = b₂₄
    by_cases h₀ : b₀ = 0x76
    · by_cases h₁ : b₁ = 0xa9
      · by_cases h₂ : b₂ = 0x14
        · by_cases h₂₃ : b₂₃ = 0x88
          · by_cases h₂₄ : b₂₄ = 0xac
            · simp [h₀, h₁, h₂, h₂₃, h₂₄]
            · simp [h₀, h₁, h₂, h₂₃, h₂₄]
          · simp [h₀, h₁, h₂, h₂₃]
        · simp [h₀, h₁, h₂]
      · simp [h₀, h₁]
    · simp [h₀]
  · rw [isP2pkhIndexed, if_pos hlen, isP2pkhScript, beq_eq_false_iff_ne.mpr hlen]
    simp only [Bool.false_and]

theorem length_of_isP2pkh {script : List UInt8} (h : isP2pkhScript script = true) :
    script.length = 25 := by
  simp only [isP2pkhScript, Bool.and_eq_true, beq_iff_eq] at h
  exact h.1.1.1.1.1

theorem parseIndexed_eq (signatureBytes : List UInt8) (sigLen : Nat) :
    parseIndexed C signatureBytes sigLen = some (parseSignature C signatureBytes sigLen) := by
  rw [parseIndexed, parseSignature]
  split
  · rfl
  · split
    · rw [slice_eq (Nat.zero_le _) (Nat.sub_le _ _), Nat.sub_zero, List.drop_zero,
        ← List.dropLast_eq_take]
      rfl
    · rfl

/-- **Indices.** For every script nothing is read out of range. -/
theorem verifyIndexed_eq (scriptSig scriptPubkey : List UInt8) (signingHash : H256) :
    verifyIndexed C scriptSig scriptPubkey signingHash =
      some (verifyP2pkhSignature C scriptSig scriptPubkey signingHash) := by
  rw [verifyIndexed, verifyP2pkhSignature, failIf_bind]
  split
  · rfl
  · next hshort =>
    rw [getElem?_eq_getD (by omega)]
    dsimp only [Option.bind_eq_bind, Option.bind_some]
    rw [failIf_bind]
    split
    · rfl
    · next hsig =>
      rw [slice_eq (by omega) (by omega), getElem?_eq_getD (by omega)]
      dsimp only [Option.bind_some]
      rw [failIf_bind]
      split
      · rfl
      · next hpubkey =>
        rw [slice_eq (by omega) (by omega), isP2pkhIndexed_eq]
        dsimp only [Option.bind_some]
        rw [failIf_bind]
        split
        · rfl
        · next hp2pkh =>
          have hlen := length_of_isP2pkh (Bool.eq_true_of_not_eq_false hp2pkh)
          rw [slice_eq (by omega) (by omega)]
          dsimp only [Option.bind_some]
          rw [failIf_bind, Nat.add_sub_cancel_left, Nat.add_sub_cancel_left]
          split
          · rfl
          · rw [parseIndexed_eq]
            rfl

/-! ## The form -/

/-- **Unlocking scripts.** No script makes the function panic. An accepted script has the
documented form exactly when nothing stands behind two pushes that unlock, and it stays
accepted whatever is appended to it. -/
theorem scriptSig_exact_iff (C : Crypto) (scriptSig scriptPubkey : List UInt8)
    (signingHash : H256) :
    verifyIndexed C scriptSig scriptPubkey signingHash ≠ none ∧
      ((verifyP2pkhSignature C scriptSig scriptPubkey signingHash = .ok () →
          Documented scriptSig) ↔
        ∀ signature pubkey rest, TwoPushes scriptSig signature pubkey rest →
          Unlocks C signature pubkey scriptPubkey signingHash → rest = []) ∧
      (verifyP2pkhSignature C scriptSig scriptPubkey signingHash = .ok () → ∀ tail,
        verifyP2pkhSignature C (scriptSig ++ tail) scriptPubkey signingHash = .ok ()) := by
  refine ⟨?_, ?_, ?_⟩
  · rw [verifyIndexed_eq]
    exact Option.some_ne_none _
  · constructor
    · intro h signature pubkey rest hpushes hunlocks
      obtain ⟨signature', pubkey', hexact⟩ := h ((verify_ok_of_twoPushes_iff hpushes).mpr hunlocks)
      exact (hpushes.unique hexact).2.2
    · intro h hok
      obtain ⟨signature, pubkey, rest, hpushes, hunlocks⟩ := verify_ok_iff.mp hok
      rw [h signature pubkey rest hpushes hunlocks] at hpushes
      exact ⟨signature, pubkey, hpushes⟩
  · intro hok tail
    obtain ⟨signature, pubkey, rest, hpushes, hunlocks⟩ := verify_ok_iff.mp hok
    exact verify_ok_iff.mpr ⟨signature, pubkey, rest ++ tail, hpushes.append tail, hunlocks⟩

/-! ## One byte more -/

open Mempool

/-- The unlocking script of the payment, with a zero behind it. -/
def appendedScript : List UInt8 := 64 :: paySignature ++ 33 :: generatorCompressed ++ [0]

def appendedTx : Transaction :=
  .new [.new ⟨grantTxid, 0⟩ appendedScript] [.p2pkh 90000 Address.ZERO]

/-- The payment's functions, and BLAKE3 of the other transaction. -/
def appendedCrypto : Crypto := .ofKey
  { payTable with
    blake3 := (appendedTx.serialize,
      H256.ofNatBE 0xed68831870c9021db66c1b67cf5361ef1852faaf083d0a226672d96db61fbd98) ::
        payTable.blake3 }

/-- It is accepted like the payment, is not of the documented form, and makes another
transaction id of the same signing hash. -/
theorem appended_byte_is_accepted :
    let scriptPubkey := (TxOutput.p2pkh 100000 (Address.fromSlice generatorHash160)).scriptPubkey
    verifyP2pkhSignature appendedCrypto appendedScript scriptPubkey payMessage = .ok () ∧
      ¬ Documented appendedScript ∧
      computeSigningHash appendedCrypto appendedTx 0 scriptPubkey = payMessage ∧
      computeSigningHash appendedCrypto payTx 0 scriptPubkey = payMessage ∧
      appendedTx.txid appendedCrypto ≠ payTx.txid appendedCrypto := by
  refine ⟨by decide +kernel, ?_, by decide +kernel, by decide +kernel, by decide +kernel⟩
  rintro ⟨signature, pubkey, hexact⟩
  have hpushes : TwoPushes appendedScript paySignature generatorCompressed [0] :=
    ⟨by decide, by decide, by decide +kernel⟩
  exact absurd (hpushes.unique hexact).2.2 (List.cons_ne_nil 0 [])

end Pyrax.Validation
