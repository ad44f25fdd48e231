import Pyrax.Validation.ScriptSig
import Pyrax.Base.Der

/-!
# The encodings of a signature

`verify_p2pkh_signature` of `pyrax-node/src/validation/mod.rs` tells the encodings of a
signature apart by their looks: 64 bytes are `r || s`, and a last byte `01` of anything else
is taken for the hash type and cut off. The encodings themselves overlap with that. A
distinguished encoding that ends in `01`, as one in 256 does, is cut short and refused; one
of 64 bytes, or of 63 with a hash type, is read as another signature altogether.

`signature_honoured_iff` says that these are the only ones that are lost.
-/

namespace Pyrax.Validation

open Base

variable {C : Crypto} {key : C.VerifyingKey} {signingHash : H256} {s : C.Signature}

/-! ## The encodings -/

/-- `r || s`. -/
def rawForm (s : C.Signature) : List UInt8 := (C.signatureToBytes s).toList

/-- The distinguished encoding of `r` and `s`. -/
def derForm (s : C.Signature) : List UInt8 :=
  Der.signature ((rawForm s).take 32) ((rawForm s).drop 32)

/-- The crate's parsers read exactly the encodings. -/
structure Encodings (C : Crypto) : Prop where
  raw : ∀ bytes s, C.signatureFromSlice bytes = some s ↔ bytes = rawForm s
  der : ∀ bytes s, C.signatureFromDer bytes = some s ↔ bytes = derForm s
  compressed : ∀ key, C.verifyingKeyFromSec1 (C.compressedPoint key).toList = some key
  uncompressed : ∀ key, C.verifyingKeyFromSec1 (C.uncompressedPoint key).toList = some key

/-- The P2PKH script of a public key. -/
def lockedTo (C : Crypto) (pubkey : List UInt8) : List UInt8 :=
  [0x76, 0xa9, 0x14] ++ hash160 C pubkey ++ [0x88, 0xac]

/-- The unlocking script with this encoding of the signature is accepted. -/
def Accepted (C : Crypto) (pubkey form : List UInt8) (signingHash : H256) : Prop :=
  verifyP2pkhSignature C (push form ++ push pubkey) (lockedTo C pubkey) signingHash = .ok ()

/-- Every encoding is accepted, under both encodings of the key. -/
def Honoured (C : Crypto) (key : C.VerifyingKey) (signingHash : H256) (s : C.Signature) : Prop :=
  ∀ pubkey ∈ [(C.compressedPoint key).toList, (C.uncompressedPoint key).toList],
    ∀ form ∈ [rawForm s, derForm s, derForm s ++ [0x01]], Accepted C pubkey form signingHash

/-- Read as `r || s` the bytes are a signature that the key verifies. -/
def VerifiesRaw (C : Crypto) (key : C.VerifyingKey) (signingHash : H256) (bytes : List UInt8) :
    Prop :=
  ∃ s, C.signatureFromSlice bytes = some s ∧ C.verify key signingHash.asBytes s = true

/-- The distinguished encoding is not taken for something else, or for something that
verifies as well. -/
structure Unmistakable (C : Crypto) (key : C.VerifyingKey) (signingHash : H256)
    (s : C.Signature) : Prop where
  hashType : (derForm s).length ≠ 64 → (derForm s).getLast? ≠ some 0x01
  raw : (derForm s).length = 64 → VerifiesRaw C key signingHash (derForm s)
  rawHashType : (derForm s).length = 63 → VerifiesRaw C key signingHash (derForm s ++ [0x01])

/-! ## Lengths -/

theorem rawForm_length (s : C.Signature) : (rawForm s).length = 64 := by
  rw [rawForm, Vector.length_toList]

theorem derForm_length_le (s : C.Signature) : (derForm s).length ≤ 72 := by
  have hle := Der.signature_length_le ((rawForm s).take 32) ((rawForm s).drop 32)
  rw [List.length_take, List.length_drop, rawForm_length] at hle
  exact hle

/-- No distinguished encoding is another less its last byte. -/
theorem derForm_ne_dropLast (s s' : C.Signature) : derForm s ≠ (derForm s').dropLast :=
  Der.signature_ne_dropLast (Nat.lt_of_le_of_lt (derForm_length_le s) (by omega))
    (Nat.lt_of_le_of_lt (derForm_length_le s') (by omega))

theorem hash160_length (C : Crypto) (data : List UInt8) : (hash160 C data).length = 20 := by
  rw [hash160, Vector.length_toList]

theorem isP2pkhScript_lockedTo (C : Crypto) (pubkey : List UInt8) :
    isP2pkhScript (lockedTo C pubkey) = true := by
  have hlength := hash160_length C pubkey
  have hread : ∀ i, (lockedTo C pubkey).getD (23 + i) 0 = [0x88, 0xac].getD i 0 := by
    intro i
    rw [List.getD_eq_getElem?_getD, lockedTo, List.getElem?_append_right]
    · rw [List.length_append, hlength, List.getD_eq_getElem?_getD]
      exact congrArg (fun k => ([0x88, 0xac] : List UInt8)[k]?.getD 0) (Nat.add_sub_cancel_left ..)
    · rw [List.length_append, hlength]
      exact Nat.le_add_right ..
  rw [isP2pkhScript, hread 0, hread 1]
  have hlen : (lockedTo C pubkey).length = 25 := by
    rw [lockedTo, List.length_append, List.length_append, hlength]
    rfl
  rw [hlen]
  rfl

theorem hash_lockedTo (C : Crypto) (pubkey : List UInt8) :
    ((lockedTo C pubkey).drop 3).take 20 = hash160 C pubkey := by
  show (hash160 C pubkey ++ [0x88, 0xac]).take 20 = _
  exact List.take_left' (hash160_length C pubkey)

/-! ## What is accepted -/

variable {pubkey form : List UInt8}

/-- With the key's own script only the signature matters. -/
theorem accepted_iff (hkey : C.verifyingKeyFromSec1 pubkey = some key)
    (hpubkey : pubkey.length < 256) (hform : form.length < 256) :
    Accepted C pubkey form signingHash ↔
      ∃ parsed, parseSignature C form form.length = .ok parsed ∧
        C.verify key signingHash.asBytes parsed = true := by
  have hpushes : TwoPushes (push form ++ push pubkey) form pubkey [] :=
    ⟨hform, hpubkey, by rw [List.append_nil]⟩
  rw [Accepted, verify_ok_of_twoPushes_iff hpushes]
  constructor
  · intro h
    obtain ⟨parsed, key', hparsed, hkey', hverify⟩ := h.signed
    obtain rfl := Option.some.inj (hkey.symm.trans hkey')
    exact ⟨parsed, hparsed, hverify⟩
  · rintro ⟨parsed, hparsed, hverify⟩
    exact ⟨isP2pkhScript_lockedTo C pubkey, (hash_lockedTo C pubkey).symm, parsed, key, hparsed,
      hkey, hverify⟩

/-- 64 bytes are always read as `r || s`. -/
theorem accepted_raw_iff (hkey : C.verifyingKeyFromSec1 pubkey = some key)
    (hpubkey : pubkey.length < 256) (hform : form.length = 64) :
    Accepted C pubkey form signingHash ↔ VerifiesRaw C key signingHash form := by
  rw [accepted_iff hkey hpubkey (by omega), parseSignature, if_pos hform]
  simp only [okOr_eq_ok]
  rfl

/-- Anything else is read as a distinguished encoding, less a last `01`. -/
theorem accepted_der_iff (hkey : C.verifyingKeyFromSec1 pubkey = some key)
    (hpubkey : pubkey.length < 256) (hform : form.length < 256) (hne : form.length ≠ 64) :
    Accepted C pubkey form signingHash ↔
      ∃ parsed, C.signatureFromDer (if form.getLast? = some 0x01 then form.dropLast else form)
          = some parsed ∧ C.verify key signingHash.asBytes parsed = true := by
  rw [accepted_iff hkey hpubkey hform, parseSignature, if_neg hne]
  simp only [okOr_eq_ok]

section Forms

variable (h : Encodings C) (hverify : C.verify key signingHash.asBytes s = true)
  (hkey : C.verifyingKeyFromSec1 pubkey = some key) (hpubkey : pubkey.length < 256)
include h hverify hkey hpubkey

theorem accepted_rawForm : Accepted C pubkey (rawForm s) signingHash :=
  (accepted_raw_iff hkey hpubkey (rawForm_length s)).mpr ⟨s, (h.raw _ _).mpr rfl, hverify⟩

theorem accepted_derForm_iff : Accepted C pubkey (derForm s) signingHash ↔
    ((derForm s).length ≠ 64 → (derForm s).getLast? ≠ some 0x01) ∧
      ((derForm s).length = 64 → VerifiesRaw C key signingHash (derForm s)) := by
  have hle := derForm_length_le s
  by_cases hlength : (derForm s).length = 64
  · rw [accepted_raw_iff hkey hpubkey hlength]
    exact ⟨fun hraw => ⟨fun hne => absurd hlength hne, fun _ => hraw⟩, fun hboth => hboth.2 hlength⟩
  · rw [accepted_der_iff hkey hpubkey (by omega) hlength]
    constructor
    · rintro ⟨parsed, hparsed, _⟩
      refine ⟨fun _ hlast => ?_, fun heq => absurd heq hlength⟩
      -- cut short it is no encoding at all
      rw [if_pos hlast, h.der] at hparsed
      exact derForm_ne_dropLast parsed s hparsed.symm
    · intro hboth
      rw [if_neg (hboth.1 hlength)]
      exact ⟨s, (h.der _ _).mpr rfl, hverify⟩

theorem accepted_derForm_hashType_iff : Accepted C pubkey (derForm s ++ [0x01]) signingHash ↔
    ((derForm s).length = 63 → VerifiesRaw C key signingHash (derForm s ++ [0x01])) := by
  have hle := derForm_length_le s
  have hlength : (derForm s ++ [0x01]).length = (derForm s).length + 1 := List.length_append
  by_cases heq : (derForm s).length = 63
  · rw [accepted_raw_iff hkey hpubkey (by omega)]
    exact ⟨fun hraw _ => hraw, fun hraw => hraw heq⟩
  · rw [accepted_der_iff hkey hpubkey (by omega) (by omega), if_pos List.getLast?_concat,
      List.dropLast_concat]
    exact iff_of_true ⟨s, (h.der _ _).mpr rfl, hverify⟩ fun h63 => absurd h63 heq

end Forms

/-- **Encodings.** A signature that the key verifies is accepted in all its encodings exactly
when its distinguished encoding does not end in `01` and has not the length of `r || s`, with
or without a hash type, or else reads as another signature that verifies. -/
theorem signature_honoured_iff (C : Crypto) (h : Encodings C) (key : C.VerifyingKey)
    (signingHash : H256) (s : C.Signature)
    (hverify : C.verify key signingHash.asBytes s = true) :
    Honoured C key signingHash s ↔ Unmistakable C key signingHash s := by
  have hkeys : ∀ pubkey ∈ [(C.compressedPoint key).toList, (C.uncompressedPoint key).toList],
      C.verifyingKeyFromSec1 pubkey = some key ∧ pubkey.length < 256 := by
    intro pubkey hmem
    rcases List.mem_cons.mp hmem with rfl | hmem
    · exact ⟨h.compressed key, by rw [Vector.length_toList]; omega⟩
    · obtain rfl := List.mem_singleton.mp hmem
      exact ⟨h.uncompressed key, by rw [Vector.length_toList]; omega⟩
  constructor
  · intro hall
    have hmem := List.mem_cons_self (a := (C.compressedPoint key).toList)
      (l := [(C.uncompressedPoint key).toList])
    obtain ⟨hkey, hpubkey⟩ := hkeys _ hmem
    have hder := (accepted_derForm_iff h hverify hkey hpubkey).mp
      (hall _ hmem _ (List.mem_cons_of_mem _ (List.mem_cons_self ..)))
    have htype := (accepted_derForm_hashType_iff h hverify hkey hpubkey).mp
      (hall _ hmem _ (List.mem_cons_of_mem _ (List.mem_cons_of_mem _ (List.mem_cons_self ..))))
    exact ⟨hder.1, hder.2, htype⟩
  · intro hclear pubkey hmem form hform
    obtain ⟨hkey, hpubkey⟩ := hkeys pubkey hmem
    rcases List.mem_cons.mp hform with rfl | hform
    · exact accepted_rawForm h hverify hkey hpubkey
    · rcases List.mem_cons.mp hform with rfl | hform
      · exact (accepted_derForm_iff h hverify hkey hpubkey).mpr ⟨hclear.hashType, hclear.raw⟩
      · obtain rfl := List.mem_singleton.mp hform
        exact (accepted_derForm_hashType_iff h hverify hkey hpubkey).mpr hclear.rawHashType

/-! ## Two signatures, one that ends in one -/

def oneHash : H256 := ⟨Vector.replicate 32 1⟩

/-- `r || s` of a signature on that hash by the private key `1`. -/
def oneSignature : Vector UInt8 64 := arrayFromSlice 64
  ((H256.ofNatBE 0x5d72094a9a7713d85dae85c1db48316a51bfdc6b688820ec9de1f464b71239fa).asBytes ++
    (H256.ofNatBE 0x0fdf1f343193d998f29657db95bbf0fde598fde6dc59af4bd2d146a81aeda801).asBytes)

/-- The functions where one signature, on one hash, is the only one. -/
def soleCrypto (hash : H256) (signature : Vector UInt8 64) : Crypto :=
  { Crypto.ofKey Mempool.payTable with
    Signature := Unit
    signatureFromSlice := fun bytes => if bytes = signature.toList then some () else none
    signatureFromDer := fun bytes =>
      if bytes = Der.signature (signature.toList.take 32) (signature.toList.drop 32) then
        some ()
      else none
    signatureToBytes := fun _ => signature
    verify := fun _ message _ => decide (message = hash.asBytes)
    signPrehashRecoverable := fun _ _ => none }

def oneCrypto : Crypto := soleCrypto oneHash oneSignature

theorem ofKey_reads_compressed (t : KeyTable) :
    (Crypto.ofKey t).verifyingKeyFromSec1 t.compressed.toList = some () := by
  simp [Crypto.ofKey]

theorem ofKey_reads_uncompressed (t : KeyTable) :
    (Crypto.ofKey t).verifyingKeyFromSec1 t.uncompressed.toList = some () := by
  simp [Crypto.ofKey]

theorem soleCrypto_encodings (hash : H256) (signature : Vector UInt8 64) :
    Encodings (soleCrypto hash signature) where
  raw bytes _ := by
    show (if bytes = signature.toList then some () else none) = some () ↔ bytes = signature.toList
    simp
  der bytes _ := by
    show (if bytes = Der.signature (signature.toList.take 32) (signature.toList.drop 32) then
      some () else none) = some () ↔
        bytes = Der.signature (signature.toList.take 32) (signature.toList.drop 32)
    simp
  compressed _ := ofKey_reads_compressed Mempool.payTable
  uncompressed _ := ofKey_reads_uncompressed Mempool.payTable

def twoHash : H256 := ⟨Vector.replicate 32 2⟩

/-- Its signature on that hash. -/
def twoSignature : Vector UInt8 64 := arrayFromSlice 64
  ((H256.ofNatBE 0x843c91d4cb6fc938a5e1fc7a6567dc8cd300427a7d8b60b2f344324d4cfdac51).asBytes ++
    (H256.ofNatBE 0x731941561a97f78b42310b2d00a125480a7bc0c362317827642511a62c9da7ee).asBytes)

/-- The distinguished encoding of this one has 71 bytes, and `ee` is the last. -/
theorem signature_honoured_two : Honoured (soleCrypto twoHash twoSignature) () twoHash () := by
  have hlength : (derForm (C := soleCrypto twoHash twoSignature) ()).length = 71 := by
    decide +kernel
  have hlast : (derForm (C := soleCrypto twoHash twoSignature) ()).getLast? = some 0xee := by
    decide +kernel
  refine (signature_honoured_iff (soleCrypto twoHash twoSignature) (soleCrypto_encodings _ _) ()
    twoHash () (by decide)).mpr ⟨fun _ => ?_, fun h => ?_, fun h => ?_⟩
  · rw [hlast]
    decide
  · exact absurd (hlength.symm.trans h) (by decide)
  · exact absurd (hlength.symm.trans h) (by decide)

/-- The distinguished encoding of the other loses its last byte to the hash type. -/
theorem der_ending_in_one_is_refused :
    Encodings oneCrypto ∧ oneCrypto.verify () oneHash.asBytes () = true ∧
      verifyP2pkhSignature oneCrypto (push (derForm (C := oneCrypto) ()) ++ push generatorCompressed)
        (lockedTo oneCrypto generatorCompressed) oneHash = .error .invalidSignature ∧
      ¬ Honoured oneCrypto () oneHash () := by
  have hrefused : verifyP2pkhSignature oneCrypto
      (push (derForm (C := oneCrypto) ()) ++ push generatorCompressed)
      (lockedTo oneCrypto generatorCompressed) oneHash = .error .invalidSignature := by
    decide +kernel
  refine ⟨soleCrypto_encodings _ _, by decide, hrefused, fun hall => ?_⟩
  have hpoint : generatorCompressed = (oneCrypto.compressedPoint ()).toList := by decide +kernel
  have hok := hall _ (List.mem_cons_self ..) _ (List.mem_cons_of_mem _ (List.mem_cons_self ..))
  rw [Accepted, ← hpoint] at hok
  exact absurd (hok.symm.trans hrefused) (by decide)

end Pyrax.Validation
