import Pyrax.Base.MerklePath
import Pyrax.Light.Headers

/-!
# Inclusion proofs of a light client

`pyrax-node/src/light_client/spv.rs` and `LightClient::verify_transaction`. The tree of
`SpvClient` has the shape of the node's own: an odd level repeats its last node, and one
hash alone is the root. Its nodes are hashed with SHA-256, though, and the node's
(`Block::compute_merkle_root`) with BLAKE3.

A proof that `create_proof` makes verifies against the root that the same client computes
(`verifyProof_createProof`), so what a full node and a light client agree on is decided by
the two roots. They are equal for a block with one transaction, where nothing is hashed,
and for no other (`included_iff`).
-/

namespace Pyrax

open Base

/-- Hash two nodes together. -/
def hashPair (C : Crypto) (left right : H256) : H256 :=
  ⟨C.sha256 (left.asBytes ++ right.asBytes)⟩

structure MerkleProof where
  txIndex : UInt64
  siblings : List H256
  flags : List Bool
  deriving DecidableEq

def MerkleProof.empty : MerkleProof := ⟨0, [], []⟩

inductive ProofVerificationResult where
  | valid
  | invalid
  | blockNotFound
  | proofMalformed
  deriving DecidableEq

namespace SpvClient

variable (C : Crypto)

/-- The source also halves `tx_index` along the way and does not read it. -/
def verifyProof (txHash merkleRoot : H256) (proof : MerkleProof) : ProofVerificationResult :=
  if proof.siblings.isEmpty then if txHash = merkleRoot then .valid else .invalid
  else if proof.siblings.length ≠ proof.flags.length then .proofMalformed
  else if Merkle.ascend (hashPair C) txHash (proof.siblings.zip proof.flags) = merkleRoot then
    .valid
  else .invalid

def createProof (txHashes : List H256) (txIndex : Nat) : Option MerkleProof :=
  if txHashes.isEmpty ∨ txHashes.length ≤ txIndex then none
  else if txHashes.length = 1 then some MerkleProof.empty
  else
    let path := Merkle.path (hashPair C) txHashes.length txHashes txIndex
    some ⟨UInt64.ofNat txIndex, path.map Prod.fst, path.map Prod.snd⟩

def computeMerkleRoot (txHashes : List H256) : H256 :=
  if txHashes.isEmpty then H256.zero
  else if txHashes.length = 1 then txHashes.headD H256.zero
  else (Merkle.climb (hashPair C) txHashes.length txHashes).headD H256.zero

end SpvClient

/-- What `verify_transaction` reads of the client. -/
structure LightClient where
  headers : HeaderChain

def LightClient.verifyTransaction (C : Crypto) (client : LightClient) (txHash blockHash : H256)
    (proof : MerkleProof) : ProofVerificationResult :=
  match client.headers.getByHash blockHash with
  | some header => SpvClient.verifyProof C txHash header.merkleRoot proof
  | none => .blockNotFound

/-! ## Proofs and roots -/

variable {C : Crypto} {hashes : List H256} {root x : H256} {i : Nat}

namespace SpvClient

/-- Short cuts aside, a proof is accepted when the way up ends on the root. -/
theorem verifyProof_eq_valid_iff {path : List (H256 × Bool)} {txIndex : UInt64} :
    verifyProof C x root ⟨txIndex, path.map Prod.fst, path.map Prod.snd⟩ = .valid ↔
      Merkle.ascend (hashPair C) x path = root := by
  have hzip : (path.map Prod.fst).zip (path.map Prod.snd) = path := by
    rw [← List.unzip_fst, ← List.unzip_snd, List.zip_unzip]
  unfold verifyProof
  rw [hzip]
  cases path with
  | nil =>
    show (if x = root then ProofVerificationResult.valid else .invalid) = .valid ↔ x = root
    split <;> simp_all
  | cons e path =>
    rw [if_neg (by simp), if_neg (by simp)]
    split <;> simp_all

/-- The loop of `compute_merkle_root`, which one hash does not enter. -/
theorem computeMerkleRoot_of_ne_nil (h : hashes ≠ []) :
    ∃ k, Merkle.Tower (hashPair C) k hashes (computeMerkleRoot C hashes) ∧
      Merkle.climb (hashPair C) hashes.length hashes = [computeMerkleRoot C hashes] := by
  obtain ⟨k, r, htower, hclimb⟩ :=
    @Merkle.climb_tower _ (hashPair C) hashes.length _ h (Nat.le_succ _)
  have hr : computeMerkleRoot C hashes = r := by
    rw [computeMerkleRoot, if_neg (by simpa using h), hclimb]
    split
    · next hone =>
      obtain ⟨y, rfl⟩ := List.length_eq_one_iff.mp hone
      cases htower with
      | leaf => rfl
      | step hlen _ => exact absurd hlen (by simp)
    · rfl
  rw [hr]
  exact ⟨k, htower, hclimb⟩

/-- **Complete.** Every place of the list has a proof, and it is accepted against exactly
one root: the one computed from the list. -/
theorem verifyProof_createProof (hx : hashes[i]? = some x) (root : H256) :
    ∃ proof, createProof C hashes i = some proof ∧
      (verifyProof C x root proof = .valid ↔ root = computeMerkleRoot C hashes) := by
  have hi : i < hashes.length := (List.getElem?_eq_some_iff.mp hx).1
  have hne : hashes ≠ [] := List.length_pos_iff.mp (by omega)
  obtain ⟨-, -, hclimb⟩ := computeMerkleRoot_of_ne_nil (C := C) hne
  have hup := Merkle.ascend_path hclimb hx
  unfold createProof
  rw [if_neg (by simpa using ⟨hne, hi⟩)]
  split
  · next hone =>
    -- nothing to hash: the path is empty
    obtain ⟨y, rfl⟩ := List.length_eq_one_iff.mp hone
    refine ⟨_, rfl, ?_⟩
    rw [show MerkleProof.empty = ⟨0, ([] : List (H256 × Bool)).map Prod.fst,
      ([] : List (H256 × Bool)).map Prod.snd⟩ from rfl, verifyProof_eq_valid_iff, eq_comm (a := root),
      ← hup]
    rfl
  · refine ⟨_, rfl, ?_⟩
    rw [verifyProof_eq_valid_iff, hup]
    exact eq_comm

/-- A proof that is made names a side for every sibling. -/
theorem length_siblings {proof : MerkleProof} (h : createProof C hashes i = some proof) :
    proof.siblings.length = proof.flags.length := by
  unfold createProof at h
  split at h
  · cases h
  split at h
  · cases h
    rfl
  · cases h
    simp

/-- **Every place has a proof.** It is well formed, and accepted against the root computed
from the list. -/
theorem createProof_verifies (C : Crypto) (hashes : List H256) (i : Fin hashes.length) :
    ∃ proof, createProof C hashes i = some proof ∧ proof.siblings.length = proof.flags.length ∧
      verifyProof C (hashes.get i) (computeMerkleRoot C hashes) proof = .valid := by
  have hx : hashes[i.val]? = some (hashes.get i) := List.getElem?_eq_getElem i.isLt
  obtain ⟨proof, hcreate, hvalid⟩ := verifyProof_createProof hx (computeMerkleRoot C hashes)
  exact ⟨proof, hcreate, length_siblings hcreate, hvalid.mpr rfl⟩

end SpvClient

/-! ## The node's root and the client's -/

/-- BLAKE3 and SHA-256 as distinct functions: no node of the one tree over these leaves is
a node of the other. -/
def DistinctOver (C : Crypto) (hashes : List H256) : Prop :=
  ∀ p q, Merkle.Combines (combineHashes C) hashes p → Merkle.Combines (hashPair C) hashes q →
    combineHashes C p.1 p.2 ≠ hashPair C q.1 q.2

/-- The two loops end on one root exactly when there is nothing to combine. -/
theorem merkleLoop_eq_iff (hd : DistinctOver C hashes) (hne : hashes ≠ []) :
    SpvClient.computeMerkleRoot C hashes = merkleLoop C hashes ↔ hashes.length = 1 := by
  obtain ⟨k₁, hnode⟩ := merkleLoop_tower C hashes hne
  obtain ⟨k₂, hspv, -⟩ := SpvClient.computeMerkleRoot_of_ne_nil (C := C) hne
  have hpos : 0 < hashes.length := List.length_pos_iff.mpr hne
  constructor
  · intro heq
    by_contra hlen
    obtain ⟨p, hp, hrp⟩ := hnode.root_combined_of_length (by omega)
    obtain ⟨q, hq, hrq⟩ := hspv.root_combined_of_length (by omega)
    exact hd p q hp hq (hrp.symm.trans (heq.symm.trans hrq))
  · intro hone
    obtain ⟨y, rfl⟩ := List.length_eq_one_iff.mp hone
    rfl

/-- Every transaction of the block has a proof that the light client accepts. -/
def LightClient.Agrees (C : Crypto) (client : LightClient) (blockHash : H256) (b : Block) : Prop :=
  ∀ i tx, b.transactions[i]? = some tx →
    ∃ proof, SpvClient.createProof C (b.transactions.map (·.txid C)) i = some proof ∧
      client.verifyTransaction C (tx.txid C) blockHash proof = .valid

namespace LightClient

variable {client : LightClient} {header : LightHeader} {blockHash : H256} {b : Block}

/-- Some transaction is accepted only if the two roots are equal, and then all are. -/
theorem agrees_iff_root_eq (hmerkle : b.verifyMerkle C = true)
    (hheader : client.headers.getByHash blockHash = some header)
    (hroot : header.merkleRoot = b.header.merkleRoot) (hne : b.transactions ≠ []) :
    client.Agrees C blockHash b ↔
      SpvClient.computeMerkleRoot C (b.transactions.map (·.txid C)) = b.computeMerkleRoot C := by
  have hcarried : header.merkleRoot = b.computeMerkleRoot C :=
    hroot.trans (eq_of_beq hmerkle)
  have hverify : ∀ (tx : Transaction) proof, client.verifyTransaction C (tx.txid C) blockHash proof
      = SpvClient.verifyProof C (tx.txid C) (b.computeMerkleRoot C) proof := by
    intro tx proof
    rw [verifyTransaction, hheader, ← hcarried]
  have hproof : ∀ (i : Nat) (tx : Transaction), b.transactions[i]? = some tx →
      (b.transactions.map (·.txid C))[i]? = some (tx.txid C) := by
    intro i tx htx
    rw [List.getElem?_map, htx]
    rfl
  constructor
  · intro hagrees
    obtain ⟨tx, rest, htxs⟩ := List.exists_cons_of_ne_nil hne
    have hfirst : b.transactions[0]? = some tx := by rw [htxs]; rfl
    obtain ⟨proof, hcreate, hvalid⟩ := hagrees 0 tx hfirst
    obtain ⟨proof', hcreate', hiff⟩ :=
      SpvClient.verifyProof_createProof (hproof 0 tx hfirst) (b.computeMerkleRoot C)
    cases hcreate.symm.trans hcreate'
    rw [hverify] at hvalid
    exact (hiff.mp hvalid).symm
  · intro heq i tx htx
    obtain ⟨proof, hcreate, hiff⟩ :=
      SpvClient.verifyProof_createProof (hproof i tx htx) (b.computeMerkleRoot C)
    refine ⟨proof, hcreate, ?_⟩
    rw [hverify]
    exact hiff.mpr heq.symm

/-- **Agreement on inclusion.** A light client that holds the header of a block accepts the
proofs of its transactions exactly when there is at most one; and the two roots of a
non-empty list are equal exactly for a single transaction. -/
theorem included_iff (hmerkle : b.verifyMerkle C = true)
    (hheader : client.headers.getByHash blockHash = some header)
    (hroot : header.merkleRoot = b.header.merkleRoot)
    (hd : DistinctOver C (b.transactions.map (·.txid C))) :
    (client.Agrees C blockHash b ↔ b.transactions.length ≤ 1) ∧
      (b.transactions ≠ [] →
        (SpvClient.computeMerkleRoot C (b.transactions.map (·.txid C)) = b.computeMerkleRoot C ↔
          b.transactions.length = 1)) := by
  have hroots : b.transactions ≠ [] →
      (SpvClient.computeMerkleRoot C (b.transactions.map (·.txid C)) = b.computeMerkleRoot C ↔
        b.transactions.length = 1) := by
    intro hne
    have hiff := merkleLoop_eq_iff hd (by simpa using hne)
    rwa [List.length_map, ← show b.computeMerkleRoot C = _ from
      if_neg (by simpa using hne)] at hiff
  refine ⟨?_, hroots⟩
  by_cases hne : b.transactions = []
  · -- no transaction, nothing to prove
    constructor
    · intro _
      rw [hne]
      exact Nat.zero_le 1
    · intro _ i tx htx
      rw [hne] at htx
      cases htx
  · rw [agrees_iff_root_eq hmerkle hheader hroot hne, hroots hne]
    have hpos := List.length_pos_iff.mpr hne
    omega

/-! ## A block with two transactions -/

/-- A reward and a payment out of it. -/
def rewardTx : Transaction := Transaction.coinbase 1 5000000000 Address.ZERO

def rewardTxid : H256 :=
  H256.ofNatBE 0x5bf506fefb08836645f6566b13943fa5a602b051e0ac6654055a329a43bb14e4

def paymentTx : Transaction :=
  Transaction.new [TxInput.new ⟨rewardTxid, 0⟩ []] [TxOutput.p2pkh 4999990000 Address.ZERO]

def paymentTxid : H256 :=
  H256.ofNatBE 0x98eb50b23ed68b8c0244f60de57247ad43e921ef3bab1280f4e91d989ac4df73

/-- BLAKE3 of the two ids. -/
def nodeRoot : H256 :=
  H256.ofNatBE 0xfcf36fb39d05735181638166ec91cb5509f095dd99200604605586f9f8ffe6c0

/-- SHA-256 of the two ids. -/
def clientRoot : H256 :=
  H256.ofNatBE 0xe1c36a19cb506cfcbf5751256f9abc527e5e27bd9edd9caddf03fd284d55dba2

def paymentCrypto : Crypto := Crypto.ofKey {
  blake3 := [(rewardTx.serialize, rewardTxid), (paymentTx.serialize, paymentTxid),
    (rewardTxid.asBytes ++ paymentTxid.asBytes, nodeRoot)]
  keccak256 := []
  sha256 := [(rewardTxid.asBytes ++ paymentTxid.asBytes, clientRoot.bytes)]
  ripemd160 := []
  compressed := Vector.replicate 33 0
  uncompressed := Vector.replicate 65 0
  verified := []
  signed := [] }

def paymentBlock : Block where
  header := ⟨1, 0, H256.zero, nodeRoot, H256.zero, 1700000000, 1, 0, 0, 1, Address.ZERO⟩
  transactions := [rewardTx, paymentTx]

def paymentBlockHash : H256 :=
  H256.ofNatBE 0x881365d30a9ce9bbd47d2dde225b946b67947641124ec5d9496a5b3f8e8195c7

def paymentHeader : LightHeader :=
  ⟨1, paymentBlockHash, H256.zero, nodeRoot, 1700000000, 1, 0⟩

/-- A client that was sent the header of the block. -/
def paymentClient : LightClient := ⟨((HeaderChain.new 10).push paymentHeader).prune⟩

theorem paymentClient_getByHash :
    paymentClient.headers.getByHash paymentBlockHash = some paymentHeader := by
  decide +kernel

theorem payment_txids :
    paymentBlock.transactions.map (·.txid paymentCrypto) = [rewardTxid, paymentTxid] := by
  decide +kernel

theorem payment_verifyMerkle : paymentBlock.verifyMerkle paymentCrypto = true := by
  decide +kernel

theorem payment_distinctOver :
    DistinctOver paymentCrypto (paymentBlock.transactions.map (·.txid paymentCrypto)) := by
  rw [payment_txids]
  intro p q hp hq
  rw [Merkle.combines_pair hp, Merkle.combines_pair hq]
  decide +kernel

/-- The client holds the header and refuses a transaction that is in the block. -/
theorem included_iff_payment :
    paymentBlock.verifyMerkle paymentCrypto = true ∧
      (paymentClient.Agrees paymentCrypto paymentBlockHash paymentBlock ↔
        paymentBlock.transactions.length ≤ 1) ∧
      (SpvClient.computeMerkleRoot paymentCrypto
          (paymentBlock.transactions.map (·.txid paymentCrypto))
          = paymentBlock.computeMerkleRoot paymentCrypto ↔ paymentBlock.transactions.length = 1) := by
  have hiff := included_iff payment_verifyMerkle paymentClient_getByHash rfl payment_distinctOver
  exact ⟨payment_verifyMerkle, hiff.1, hiff.2 (List.cons_ne_nil _ _)⟩

/-- Two transactions are one too many. -/
theorem payment_not_agrees :
    paymentBlock.verifyMerkle paymentCrypto = true ∧
      paymentClient.headers.getByHash paymentBlockHash = some paymentHeader ∧
      paymentHeader.merkleRoot = paymentBlock.header.merkleRoot ∧
      DistinctOver paymentCrypto (paymentBlock.transactions.map (·.txid paymentCrypto)) ∧
      ¬ paymentClient.Agrees paymentCrypto paymentBlockHash paymentBlock ∧
      SpvClient.computeMerkleRoot paymentCrypto
          (paymentBlock.transactions.map (·.txid paymentCrypto))
        ≠ paymentBlock.computeMerkleRoot paymentCrypto := by
  have hne : SpvClient.computeMerkleRoot paymentCrypto
      (paymentBlock.transactions.map (·.txid paymentCrypto))
        ≠ paymentBlock.computeMerkleRoot paymentCrypto := by
    rw [payment_txids]
    decide +kernel
  refine ⟨payment_verifyMerkle, paymentClient_getByHash, rfl, payment_distinctOver, ?_, hne⟩
  rw [agrees_iff_root_eq payment_verifyMerkle paymentClient_getByHash rfl (List.cons_ne_nil _ _)]
  exact hne

end LightClient

end Pyrax
