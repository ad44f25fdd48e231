import Pyrax.Rollup.Availability
import Pyrax.Rollup.TxPreimage

/-!
# What the published data tell of a batch

`serialize_batch` of `pyrax-node/src/zkrollup/da.rs` writes five fields of the header and
six of each transaction. All of them can be read back (`serializeBatch_eq_iff`): each
transaction ends by itself, since the length of its data stands before them, as long as
that length fits its four bytes.

The gas price and the type of a transaction are not written, but `compute_hash` of
`pyrax-node/src/zkrollup/batch.rs` hashes them. So the same bytes stand for transactions of
different hashes as soon as these two fields differ (`published_determines_iff`).
-/

namespace Pyrax.Rollup

open Base Wire

/-! ## The published fields -/

/-- What is published of a transaction. -/
structure PublishedTx where
  sender : Address
  recipient : Option Address
  value : UInt64
  gasLimit : UInt64
  nonce : UInt64
  data : List UInt8

namespace L2Transaction

def published (tx : L2Transaction) : PublishedTx :=
  ⟨tx.sender, tx.recipient, tx.value, tx.gasLimit, tx.nonce, tx.data⟩

/-- What is hashed and not published. -/
def unpublished (tx : L2Transaction) : UInt64 × UInt8 := (tx.gasPrice, tx.txType)

end L2Transaction

/-- Two batches with the same published fields. -/
structure SamePublished (b b' : Batch) : Prop where
  batchNumber : b.header.batchNumber = b'.header.batchNumber
  preStateRoot : b.header.preStateRoot = b'.header.preStateRoot
  postStateRoot : b.header.postStateRoot = b'.header.postStateRoot
  txRoot : b.header.txRoot = b'.header.txRoot
  txCount : b.header.txCount = b'.header.txCount
  transactions : b.transactions.map L2Transaction.published =
    b'.transactions.map L2Transaction.published

/-! ## Reading them back -/

def decAddress : Decoder Address := do
  let bs ← takeBytes 20
  pure (Address.fromSlice bs)

def decRecipient : Decoder (Option Address) := do
  let flag ← decU8
  if flag = 1 then do
    let recipient ← decAddress
    pure (some recipient)
  else pure none

def decPublished : Decoder PublishedTx := do
  let sender ← decAddress
  let recipient ← decRecipient
  let value ← decU64
  let gasLimit ← decU64
  let nonce ← decU64
  let size ← decU32
  let data ← takeBytes size.toNat
  pure ⟨sender, recipient, value, gasLimit, nonce, data⟩

theorem reads_address (a : Address) : Reads decAddress a.asBytes a := by
  refine (reads_takeBytes a.asBytes_length).map ?_
  rw [Address.fromSlice_asBytes]
  exact Reads.pure a

theorem reads_recipient (recipient : Option Address) :
    Reads decRecipient
      (match recipient with
        | some recipient => 1 :: recipient.asBytes
        | none => [0]) recipient := by
  cases recipient with
  | none => exact (reads_u8 0).map (Reads.pure none)
  | some recipient =>
    exact (reads_u8 1).bind ((reads_address recipient).map (Reads.pure (some recipient)))

theorem reads_serializeTransaction {tx : L2Transaction} (h : tx.data.length < 2 ^ 32) :
    Reads decPublished (serializeTransaction tx) tx.published := by
  have hsize : (UInt32.ofNat tx.data.length).toNat = tx.data.length := UInt32.toNat_ofNat_of_lt' h
  simp only [serializeTransaction, List.append_assoc]
  refine (reads_address tx.sender).bind ?_
  refine (reads_recipient tx.recipient).bind ?_
  refine (reads_u64 tx.value).bind ?_
  refine (reads_u64 tx.gasLimit).bind ?_
  refine (reads_u64 tx.nonce).bind ?_
  refine (reads_u32 _).bind ?_
  exact (reads_takeBytes hsize.symm).map (Reads.pure tx.published)

theorem serializeTransaction_ne_nil (tx : L2Transaction) : serializeTransaction tx ≠ [] := by
  intro h
  have hlength := congrArg List.length h
  simp only [serializeTransaction, List.length_append, Address.asBytes_length] at hlength
  have hnil : ([] : List UInt8).length = 0 := rfl
  omega

theorem serializeTransaction_congr {tx tx' : L2Transaction} (h : tx.published = tx'.published) :
    serializeTransaction tx = serializeTransaction tx' := by
  obtain ⟨hsender, hrecipient, hvalue, hlimit, hnonce, hdata⟩ := PublishedTx.mk.injEq .. ▸ h
  rw [serializeTransaction, serializeTransaction, hsender, hrecipient, hvalue, hlimit, hnonce,
    hdata]

variable {b b' : Batch}

/-- The header has a fixed width, and what follows is cut up in one way. -/
theorem serializeBatch_eq_iff (hb : ∀ tx ∈ b.transactions, tx.data.length < 2 ^ 32)
    (hb' : ∀ tx ∈ b'.transactions, tx.data.length < 2 ^ 32) :
    serializeBatch b = serializeBatch b' ↔ SamePublished b b' := by
  constructor
  · intro h
    simp only [serializeBatch, List.append_assoc] at h
    obtain ⟨hnumber, h⟩ := (reads_u64 b.header.batchNumber).append_inj
      (reads_u64 b'.header.batchNumber) h
    obtain ⟨hpre, h⟩ := List.append_inj h (by rw [H256.asBytes_length, H256.asBytes_length])
    obtain ⟨hpost, h⟩ := List.append_inj h (by rw [H256.asBytes_length, H256.asBytes_length])
    obtain ⟨hroot, h⟩ := List.append_inj h (by rw [H256.asBytes_length, H256.asBytes_length])
    obtain ⟨hcount, h⟩ := (reads_u32 b.header.txCount).append_inj (reads_u32 b'.header.txCount) h
    exact ⟨hnumber, H256.asBytes_inj hpre, H256.asBytes_inj hpost, H256.asBytes_inj hroot, hcount,
      map_eq_of_flatMap_eq_of_reads serializeTransaction_ne_nil
        (fun tx htx => reads_serializeTransaction (hb tx htx))
        (fun tx htx => reads_serializeTransaction (hb' tx htx)) h⟩
  · intro h
    have htxs : b.transactions.map serializeTransaction = b'.transactions.map serializeTransaction :=
      map_eq_of_maps h.transactions h.transactions fun tx _ tx' _ heq _ =>
        serializeTransaction_congr heq
    rw [serializeBatch, serializeBatch, h.batchNumber, h.preStateRoot, h.postStateRoot, h.txRoot,
      h.txCount, List.flatMap_def, List.flatMap_def, htxs]

/-! ## The hashes -/

section Hashes

variable {C : Crypto} {tx tx' : L2Transaction}

theorem computeHash_congr (hpublished : tx.published = tx'.published)
    (hhidden : tx.unpublished = tx'.unpublished) : tx.computeHash C = tx'.computeHash C := by
  obtain ⟨hsender, hrecipient, hvalue, hlimit, hnonce, hdata⟩ :=
    PublishedTx.mk.injEq .. ▸ hpublished
  obtain ⟨hprice, htype⟩ := Prod.mk.injEq .. ▸ hhidden
  rw [L2Transaction.computeHash, L2Transaction.computeHash, hsender, hrecipient, hvalue, hlimit,
    hprice, hnonce, hdata, htype]

/-- With the recipients published, a preimage has no second reading. -/
theorem unpublished_eq_of_preimage (hpublished : tx.published = tx'.published)
    (h : tx.preimage = tx'.preimage) : tx.unpublished = tx'.unpublished := by
  have hsame := L2Transaction.sameFields_of_recipient h (congrArg PublishedTx.recipient hpublished)
  rw [L2Transaction.unpublished, L2Transaction.unpublished, hsame.gasPrice, hsame.txType]

end Hashes

/-- **Published data.** The bytes of two batches tell their transactions' hashes exactly when
batches with the same published fields agree in the two fields that are not published. -/
theorem published_determines_iff (C : Crypto) (b b' : Batch)
    (hb : ∀ tx ∈ b.transactions, tx.data.length < 2 ^ 32)
    (hb' : ∀ tx ∈ b'.transactions, tx.data.length < 2 ^ 32)
    (hfree : ∀ tx ∈ b.transactions, ∀ tx' ∈ b'.transactions,
      C.blake3 tx.preimage = C.blake3 tx'.preimage → tx.preimage = tx'.preimage) :
    (serializeBatch b = serializeBatch b' →
      b.transactions.length = b'.transactions.length ∧
        b.transactions.map (L2Transaction.computeHash C) =
          b'.transactions.map (L2Transaction.computeHash C)) ↔
    (SamePublished b b' →
      b.transactions.map L2Transaction.unpublished =
        b'.transactions.map L2Transaction.unpublished) := by
  rw [serializeBatch_eq_iff hb hb']
  constructor
  · intro h hsame
    refine map_eq_of_maps hsame.transactions (h hsame).2 fun tx htx tx' htx' hpublished hhash => ?_
    rw [L2Transaction.computeHash_eq, L2Transaction.computeHash_eq] at hhash
    exact unpublished_eq_of_preimage hpublished (hfree tx htx tx' htx' hhash)
  · intro h hsame
    constructor
    · have hlength := congrArg List.length hsame.transactions
      rwa [List.length_map, List.length_map] at hlength
    · exact map_eq_of_maps hsame.transactions (h hsame) fun tx _ tx' _ hpublished hhidden =>
        computeHash_congr hpublished hhidden

/-! ## One payment at two prices -/

/-- BLAKE3 of both. -/
def repricedCrypto : Crypto := Crypto.ofTable
  [(payment.preimage,
    H256.ofNatBE 0x060dfc7602d1be6388b55eb1090dad23f0efc6a7fc7a93b704fca979309aeb9a),
   (repricedPayment.preimage,
    H256.ofNatBE 0xd78001c8f5706394c0780d02974a49c0b59dee54df828f944e03d8c7068fe16d)]

/-- The batch with the one transaction, sealed. -/
def sealedWith (tx : L2Transaction) : Except BatchError Batch :=
  match (Batch.new 0 0 1 H256.zero ⟨Vector.replicate 32 1⟩ alice 100).addTransaction tx with
  | .error e => .error e
  | .ok batch => batch.seal repricedCrypto 0 ⟨Vector.replicate 32 1⟩

/-- What it is. -/
def repricedBatch (tx : L2Transaction) : Batch :=
  { Batch.new 0 0 1 H256.zero ⟨Vector.replicate 32 1⟩ alice 100 with
    header :=
      { (Batch.new 0 0 1 H256.zero ⟨Vector.replicate 32 1⟩ alice 100).header with
        gasUsed := 21000, txCount := 1, txRoot := payment.hash }
    transactions := [tx]
    status := .sealed
    sealedAt := some 0 }

/-- The two have one price if the signature is another, and the bytes tell the hash; they have
not at the other price, and the bytes do not. -/
theorem published_determines_payment :
    let resigned : L2Transaction := { payment with signature := List.replicate 65 1 }
    (serializeBatch (repricedBatch payment) = serializeBatch (repricedBatch resigned) ∧
      [payment].map (L2Transaction.computeHash repricedCrypto) =
        [resigned].map (L2Transaction.computeHash repricedCrypto)) ∧
    ¬ (serializeBatch (repricedBatch payment) = serializeBatch (repricedBatch repricedPayment) →
      [payment].length = [repricedPayment].length ∧
        [payment].map (L2Transaction.computeHash repricedCrypto) =
          [repricedPayment].map (L2Transaction.computeHash repricedCrypto)) := by
  intro resigned
  have hbytes : serializeBatch (repricedBatch payment) = serializeBatch (repricedBatch resigned) :=
    rfl
  refine ⟨⟨hbytes, ?_⟩, ?_⟩
  · exact ((published_determines_iff repricedCrypto (repricedBatch payment)
      (repricedBatch resigned) (by decide) (by decide) (by decide +kernel)).mpr
        (fun _ => rfl) hbytes).2
  · refine (published_determines_iff repricedCrypto (repricedBatch payment)
      (repricedBatch repricedPayment) (by decide) (by decide) (by decide +kernel)).not.mpr fun h => ?_
    exact absurd (h ⟨rfl, rfl, rfl, rfl, rfl, rfl⟩) (by decide)

/-- Two sealed batches, the same bytes, and different hashes. -/
theorem price_is_not_published :
    sealedWith payment = .ok (repricedBatch payment) ∧
      sealedWith repricedPayment = .ok (repricedBatch repricedPayment) ∧
      serializeBatch (repricedBatch payment) = serializeBatch (repricedBatch repricedPayment) ∧
      (repricedBatch payment).transactions.map (L2Transaction.computeHash repricedCrypto) ≠
        (repricedBatch repricedPayment).transactions.map
          (L2Transaction.computeHash repricedCrypto) := by
  decide +kernel

end Pyrax.Rollup
