import Pyrax.Types.Transaction
import Pyrax.Base.MerkleTree

/-!
# Headers, blocks and the merkle root

The block half of `pyrax-node/src/types/mod.rs`. A header is hashed from its
fields written one after the other in fixed widths (`preimage`, 161 bytes), so
the preimage determines the header (`preimage_inj`); `pow_hash` and `hash` feed
the same bytes to BLAKE3. The merkle root is `Base.Merkle.climb` over the
transaction hashes, zero for a block without transactions.
-/

namespace Pyrax

open Wire Base

structure BlockHeader where
  version : UInt32
  stream : UInt8
  parentHash : H256
  merkleRoot : H256
  utxoCommitment : H256
  timestamp : UInt64
  difficulty : UInt64
  nonce : UInt64
  extraNonce : UInt64
  height : UInt64
  beneficiary : Address
  deriving DecidableEq

namespace BlockHeader

/-- The header without its nonces, for hashing. -/
def powInput (h : BlockHeader) : List UInt8 :=
  encU32 h.version ++ encU8 h.stream ++ h.parentHash.asBytes ++ h.merkleRoot.asBytes ++
    h.utxoCommitment.asBytes ++ encU64 h.timestamp ++ encU64 h.difficulty ++
    encU64 h.height ++ h.beneficiary.asBytes

/-- What `pow_hash` and `hash` hand to BLAKE3. -/
def preimage (h : BlockHeader) : List UInt8 :=
  h.powInput ++ encU64 h.nonce ++ encU64 h.extraNonce

def powHash (C : Crypto) (h : BlockHeader) : H256 := C.blake3 h.preimage

def hash (C : Crypto) (h : BlockHeader) : H256 := C.blake3 h.preimage

def target (h : BlockHeader) : H256 := difficultyToTarget h.difficulty

def verifyPow (C : Crypto) (h : BlockHeader) : Bool := (h.powHash C).le h.target

def serialize (h : BlockHeader) : List UInt8 :=
  encU32 h.version ++ (encU8 h.stream ++ (h.parentHash.asBytes ++ (h.merkleRoot.asBytes ++
    (h.utxoCommitment.asBytes ++ (encU64 h.timestamp ++ (encU64 h.difficulty ++
    (encU64 h.nonce ++ (encU64 h.extraNonce ++ (encU64 h.height ++ h.beneficiary.asBytes)))))))))

def deserialize : Decoder BlockHeader := do
  let version ← decU32
  let stream ← decU8
  let parentHash ← H256.deserialize
  let merkleRoot ← H256.deserialize
  let utxoCommitment ← H256.deserialize
  let timestamp ← decU64
  let difficulty ← decU64
  let nonce ← decU64
  let extraNonce ← decU64
  let height ← decU64
  let beneficiary ← Address.deserialize
  pure ⟨version, stream, parentHash, merkleRoot, utxoCommitment, timestamp, difficulty, nonce,
    extraNonce, height, beneficiary⟩

/-- A header at difficulty `1` needs no work. -/
theorem verifyPow_of_difficulty_one {C : Crypto} {h : BlockHeader} (hd : h.difficulty = 1) :
    h.verifyPow C = true := by
  rw [verifyPow, target, hd, difficultyToTarget_one]
  exact H256.le_ones _

/-- Nor does one at difficulty `0`, whose target is the largest. -/
theorem verifyPow_of_difficulty_zero {C : Crypto} {h : BlockHeader} (hd : h.difficulty = 0) :
    h.verifyPow C = true := by
  rw [verifyPow, target, hd, difficultyToTarget, if_pos rfl]
  exact H256.le_ones _

@[simp] theorem serialize_length (h : BlockHeader) : h.serialize.length = 161 := by
  simp [serialize]

/-- The hashed bytes determine the header. -/
theorem preimage_inj {a b : BlockHeader} (h : a.preimage = b.preimage) : a = b := by
  simp only [preimage, powInput, List.append_assoc] at h
  obtain ⟨h1, h⟩ := List.append_inj h (by simp)
  obtain ⟨h2, h⟩ := List.append_inj h (by simp)
  obtain ⟨h3, h⟩ := List.append_inj h (by simp)
  obtain ⟨h4, h⟩ := List.append_inj h (by simp)
  obtain ⟨h5, h⟩ := List.append_inj h (by simp)
  obtain ⟨h6, h⟩ := List.append_inj h (by simp)
  obtain ⟨h7, h⟩ := List.append_inj h (by simp)
  obtain ⟨h8, h⟩ := List.append_inj h (by simp)
  obtain ⟨h9, h⟩ := List.append_inj h (by simp)
  obtain ⟨h10, h11⟩ := List.append_inj h (by simp)
  cases a
  cases b
  simp only [encU8, List.cons.injEq, and_true] at h2
  simp only [mk.injEq]
  exact ⟨encU32_inj h1, h2, H256.asBytes_inj h3, H256.asBytes_inj h4, H256.asBytes_inj h5,
    encU64_inj h6, encU64_inj h7, encU64_inj h10, encU64_inj h11, encU64_inj h8,
    Address.asBytes_inj h9⟩

theorem reads (h : BlockHeader) : Reads deserialize h.serialize h :=
  (reads_u32 _).bind <| (reads_u8 _).bind <| (H256.reads _).bind <| (H256.reads _).bind <|
    (H256.reads _).bind <| (reads_u64 _).bind <| (reads_u64 _).bind <| (reads_u64 _).bind <|
    (reads_u64 _).bind <| (reads_u64 _).bind <| (Address.reads _).map (Reads.pure h)

end BlockHeader

/-! ## The merkle loop -/

/-- `blake3::hash` of two nodes side by side. -/
def combineHashes (C : Crypto) (a b : H256) : H256 := C.blake3 (a.asBytes ++ b.asBytes)

/-- `while hashes.len() > 1`, then `hashes[0]`; each level is shorter, so the
length is fuel enough. -/
def merkleLoop (C : Crypto) (hashes : List H256) : H256 :=
  (Merkle.climb (combineHashes C) hashes.length hashes).headD H256.zero

/-- The loop ends on the root of a finished tree. -/
theorem merkleLoop_tower (C : Crypto) (hashes : List H256) (h : hashes ≠ []) :
    ∃ k, Merkle.Tower (combineHashes C) k hashes (merkleLoop C hashes) := by
  obtain ⟨k, r, ht, hr⟩ : ∃ k r, Merkle.Tower (combineHashes C) k hashes r ∧
      Merkle.climb (combineHashes C) hashes.length hashes = [r] :=
    Merkle.climb_tower hashes.length h (Nat.le_succ _)
  refine ⟨k, ?_⟩
  rw [merkleLoop, hr]
  exact ht

/-- The merkle root of a list of transactions; the source writes this loop out
wherever it builds a block. -/
def merkleRootOf (C : Crypto) (transactions : List Transaction) : H256 :=
  if transactions.isEmpty then H256.zero
  else merkleLoop C (transactions.map (·.txid C))

structure Block where
  header : BlockHeader
  transactions : List Transaction
  deriving DecidableEq

namespace Block

def hash (C : Crypto) (b : Block) : H256 := b.header.hash C

def height (b : Block) : UInt64 := b.header.height

def computeMerkleRoot (C : Crypto) (b : Block) : H256 := merkleRootOf C b.transactions

def verifyMerkle (C : Crypto) (b : Block) : Bool := b.header.merkleRoot == b.computeMerkleRoot C

def serialize (b : Block) : List UInt8 :=
  b.header.serialize ++ encVec Transaction.serialize b.transactions

def deserialize : Decoder Block := do
  let header ← BlockHeader.deserialize
  let transactions ← decVec Transaction.deserialize
  pure ⟨header, transactions⟩

theorem serialize_length (b : Block) :
    b.serialize.length = 169 + (b.transactions.map fun tx => tx.serialize.length).sum := by
  rw [serialize, List.length_append, encVec_length, BlockHeader.serialize_length]
  omega

/-- A transaction is no longer than the block it is in. -/
theorem serialize_length_of_mem {b : Block} {tx : Transaction} (h : tx ∈ b.transactions) :
    tx.serialize.length < b.serialize.length := by
  have hle := le_sum_of_mem (fun t : Transaction => t.serialize.length) h
  have hlen := b.serialize_length
  omega

/-- Blocks of a bounded size are read back. -/
theorem reads {b : Block} (h : b.serialize.length < 2 ^ 64) :
    Reads deserialize b.serialize b := by
  have hlen := length_mul_le_encVec Transaction.serialize 1 b.transactions
    fun tx _ => by rw [Transaction.serialize_length]; omega
  have hall := b.serialize_length
  rw [encVec_length] at hlen
  have htx : ∀ tx ∈ b.transactions, Reads Transaction.deserialize tx.serialize tx := fun tx htx =>
    Transaction.reads (Transaction.fits_of_length (by
      have := serialize_length_of_mem htx
      omega))
  exact (BlockHeader.reads _).bind ((reads_vec (by omega) htx).map (Reads.pure b))

end Block

end Pyrax
