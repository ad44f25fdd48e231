import Pyrax.Base.Wire
import Pyrax.Base.Hex

/-!
# Hashes, addresses, networks and the cryptography the node is given

`pyrax-node/src/types/mod.rs`, the fixed-size byte types, and the functions the
node takes from other crates. Those are collected in one record, `Crypto`: the
model computes with them and never looks inside, so every theorem holds for
whatever BLAKE3, Keccak and ECDSA do, up to the hypotheses it names.

`H256` and `Address` are byte arrays of a fixed length, as `[u8; 32]` and
`[u8; 20]` are; `Ord` on them is the lexicographic order of the bytes, which is
how the source compares a proof-of-work hash with its target.
-/

namespace Pyrax

open Base.Hex (encodeHex)

/-- `H256([u8; 32])`. -/
structure H256 where
  bytes : Vector UInt8 32
  deriving DecidableEq

/-- `Address([u8; 20])`. -/
structure Address where
  bytes : Vector UInt8 20
  deriving DecidableEq

/-- `bytes[..len].copy_from_slice(&slice[..len])` into a zeroed array of `n`
bytes, `len` being the shorter of the two lengths. -/
def arrayFromSlice (n : Nat) (slice : List UInt8) : Vector UInt8 n :=
  Vector.ofFn fun i => slice.getD i.val 0

namespace H256

def zero : H256 := ⟨Vector.replicate 32 0⟩

def fromSlice (slice : List UInt8) : H256 := ⟨arrayFromSlice 32 slice⟩

def asBytes (h : H256) : List UInt8 := h.bytes.toList

/-- `hash.as_bytes() <= target.as_bytes()`. -/
def le (a b : H256) : Bool := decide (a.asBytes ≤ b.asBytes)

/-- The derived `Ord`: the bytes compared from the first on. -/
def lt (a b : H256) : Bool := decide (a.asBytes < b.asBytes)

/-- `U256::to_big_endian` of a number below `2 ^ 256`. -/
def ofNatBE (n : Nat) : H256 :=
  ⟨Vector.ofFn fun i : Fin 32 => UInt8.ofNat (n / 256 ^ (31 - i.val))⟩

/-- `Display`: `0x` and the hexadecimal digits. -/
instance : ToString H256 := ⟨fun h => "0x" ++ encodeHex h.asBytes⟩

@[simp] theorem asBytes_length (h : H256) : h.asBytes.length = 32 := by
  simp [asBytes]

theorem asBytes_inj {a b : H256} (h : a.asBytes = b.asBytes) : a = b := by
  cases a
  cases b
  simpa [asBytes, Vector.toList_inj] using h

end H256

namespace Address

def ZERO : Address := ⟨Vector.replicate 20 0⟩

def fromSlice (slice : List UInt8) : Address := ⟨arrayFromSlice 20 slice⟩

def asBytes (a : Address) : List UInt8 := a.bytes.toList

@[simp] theorem asBytes_length (a : Address) : a.asBytes.length = 20 := by
  simp [asBytes]

theorem asBytes_inj {a b : Address} (h : a.asBytes = b.asBytes) : a = b := by
  cases a
  cases b
  simpa [asBytes, Vector.toList_inj] using h

end Address

/-- Reading an array back from its own bytes. -/
theorem arrayFromSlice_toList {n : Nat} (v : Vector UInt8 n) :
    arrayFromSlice n v.toList = v := by
  refine Vector.ext fun i hi => ?_
  simp [arrayFromSlice]

/-- The bytes of an array read from a slice of its length. -/
theorem toList_arrayFromSlice {n : Nat} {slice : List UInt8} (h : slice.length = n) :
    (arrayFromSlice n slice).toList = slice := by
  subst h
  refine List.ext_getElem (by simp) fun i h₁ h₂ => ?_
  simp [arrayFromSlice, List.getElem?_eq_getElem h₂]

@[simp] theorem H256.fromSlice_asBytes (h : H256) : H256.fromSlice h.asBytes = h := by
  cases h
  simp [fromSlice, asBytes, arrayFromSlice_toList]

@[simp] theorem Address.fromSlice_asBytes (a : Address) : Address.fromSlice a.asBytes = a := by
  cases a
  simp [fromSlice, asBytes, arrayFromSlice_toList]

/-- `NetworkId(pub u32)`. -/
structure NetworkId where
  id : UInt32
  deriving DecidableEq

namespace NetworkId

def MAINNET : NetworkId := ⟨79729⟩
def TESTNET : NetworkId := ⟨797291⟩
def DEVNET : NetworkId := ⟨797292⟩

end NetworkId

/-! ## Difficulty targets -/

/-- `difficulty_to_target`: `U256::MAX / difficulty`, and all ones for `0`. -/
def difficultyToTarget (difficulty : UInt64) : H256 :=
  if difficulty = 0 then ⟨Vector.replicate 32 0xff⟩
  else H256.ofNatBE ((2 ^ 256 - 1) / difficulty.toNat)

/-- Difficulty `1` asks for nothing: its target is the all-ones hash. -/
theorem difficultyToTarget_one : difficultyToTarget 1 = ⟨Vector.replicate 32 0xff⟩ := by
  decide +kernel

/-- Every hash meets the all-ones target. -/
theorem H256.le_ones (h : H256) : h.le ⟨Vector.replicate 32 0xff⟩ = true := by
  have hle := Wire.le_replicate_ff h.asBytes
  rw [asBytes_length] at hle
  refine decide_eq_true ?_
  rw [show H256.asBytes ⟨Vector.replicate 32 0xff⟩ = List.replicate 32 255 from rfl]
  exact hle

/-! ## The crates' functions -/

/-- What the node and the wallet call in other crates: BLAKE3, Keccak-256,
SHA-256 and RIPEMD-160, and the ECDSA of `k256` with its key and signature
types. -/
structure Crypto where
  /-- `blake3::hash`; an incremental `Hasher` hashes the concatenation. -/
  blake3 : List UInt8 → H256
  /-- `Keccak::v256`. -/
  keccak256 : List UInt8 → H256
  /-- `Sha256::digest`. -/
  sha256 : List UInt8 → Vector UInt8 32
  /-- `Ripemd160::digest`. -/
  ripemd160 : List UInt8 → Vector UInt8 20
  /-- `k256::ecdsa::Signature`. -/
  Signature : Type
  /-- `k256::ecdsa::VerifyingKey`. -/
  VerifyingKey : Type
  /-- `k256::ecdsa::SigningKey`. -/
  SigningKey : Type
  /-- `Signature::from_slice`, the raw `r || s` form. -/
  signatureFromSlice : List UInt8 → Option Signature
  /-- `Signature::from_der`. -/
  signatureFromDer : List UInt8 → Option Signature
  /-- `Signature::to_bytes`, `r || s`. -/
  signatureToBytes : Signature → Vector UInt8 64
  /-- `VerifyingKey::from_sec1_bytes`. -/
  verifyingKeyFromSec1 : List UInt8 → Option VerifyingKey
  /-- `to_encoded_point(true)`. -/
  compressedPoint : VerifyingKey → Vector UInt8 33
  /-- `to_encoded_point(false)`. -/
  uncompressedPoint : VerifyingKey → Vector UInt8 65
  /-- `Verifier::verify(message, signature)`, which hashes the message itself. -/
  verify : VerifyingKey → List UInt8 → Signature → Bool
  /-- `SigningKey::verifying_key`. -/
  verifyingKey : SigningKey → VerifyingKey
  /-- `sign_prehash_recoverable`, with the recovery id as its byte. -/
  signPrehashRecoverable : SigningKey → List UInt8 → Option (Signature × UInt8)

/-- The functions as far as a table of digests tells them: BLAKE3 is what the
table says, and nothing verifies or signs. -/
def Crypto.ofTable (table : List (List UInt8 × H256)) : Crypto where
  blake3 bs := (table.lookup bs).getD H256.zero
  keccak256 _ := H256.zero
  sha256 _ := Vector.replicate 32 0
  ripemd160 _ := Vector.replicate 20 0
  Signature := Unit
  VerifyingKey := Unit
  SigningKey := Unit
  signatureFromSlice _ := none
  signatureFromDer _ := none
  signatureToBytes _ := Vector.replicate 64 0
  verifyingKeyFromSec1 _ := none
  compressedPoint _ := Vector.replicate 33 0
  uncompressedPoint _ := Vector.replicate 65 0
  verify _ _ _ := false
  verifyingKey _ := ()
  signPrehashRecoverable _ _ := none

/-- What is known of the functions where one key pair is used: digests, the two
encodings of its point, the messages whose signatures verify and the prehashes
it signed. -/
structure KeyTable where
  blake3 : List (List UInt8 × H256)
  keccak256 : List (List UInt8 × H256)
  sha256 : List (List UInt8 × Vector UInt8 32)
  ripemd160 : List (List UInt8 × Vector UInt8 20)
  compressed : Vector UInt8 33
  uncompressed : Vector UInt8 65
  verified : List (List UInt8 × Vector UInt8 64)
  signed : List (List UInt8 × Vector UInt8 64 × UInt8)

/-- The functions as far as such a table tells them. -/
def Crypto.ofKey (t : KeyTable) : Crypto where
  blake3 bs := (t.blake3.lookup bs).getD H256.zero
  keccak256 bs := (t.keccak256.lookup bs).getD H256.zero
  sha256 bs := (t.sha256.lookup bs).getD (Vector.replicate 32 0)
  ripemd160 bs := (t.ripemd160.lookup bs).getD (Vector.replicate 20 0)
  Signature := Vector UInt8 64
  VerifyingKey := Unit
  SigningKey := Unit
  signatureFromSlice bs := if bs.length = 64 then some (arrayFromSlice 64 bs) else none
  signatureFromDer _ := none
  signatureToBytes sig := sig
  verifyingKeyFromSec1 bs :=
    if bs = t.compressed.toList ∨ bs = t.uncompressed.toList then some () else none
  compressedPoint _ := t.compressed
  uncompressedPoint _ := t.uncompressed
  verify _ message sig := decide ((message, sig) ∈ t.verified)
  verifyingKey _ := ()
  signPrehashRecoverable _ prehash := t.signed.lookup prehash

/-- The point of the private key `1`, the curve's generator. -/
def generatorX : H256 :=
  H256.ofNatBE 0x79be667ef9dcbbac55a06295ce870b07029bfcdb2dce28d959f2815b16f81798

def generatorY : H256 :=
  H256.ofNatBE 0x483ada7726a3c4655da4fbfc0e1108a8fd17b448a68554199c47d08ffb10d4b8

/-- Its compressed form; `y` is even. -/
def generatorCompressed : List UInt8 := 0x02 :: generatorX.asBytes

/-- SHA-256 and RIPEMD-160 of that form, the second of the first. -/
def generatorSha256 : H256 :=
  H256.ofNatBE 0x0f715baf5d4c2ed329785cef29e562f73488c8a2bb9dbc5700b361d54b9b0554

def generatorHash160 : List UInt8 :=
  (H256.ofNatBE 0x751e76e8199196d454941c45d1b3a323f1433bd6).asBytes.drop 12

end Pyrax
