import Pyrax.Rollup.Sequencer

/-!
# What an L2 transaction hash is made of

`L2Transaction::compute_hash` of `pyrax-node/src/zkrollup/batch.rs` hashes the fields one
behind the other. All have a fixed width but the data, which stand before the one byte of
the type, and the recipient, which is left out where there is none. So two transactions
with the same bytes are the same unless one has a recipient and the other has none and
reads the recipient's twenty bytes as the start of its value (`Shifted`).

That happens to almost every transaction: the only ones whose bytes no other transaction
has are those that create a contract with less than twenty bytes of data
(`preimage_unambiguous_iff`).
-/

namespace Pyrax.Rollup

open Base Wire

namespace L2Transaction

/-- The fields of a fixed width behind the recipient, and the data. -/
def body (tx : L2Transaction) : List UInt8 :=
  encU64 tx.value ++ encU64 tx.gasLimit ++ encU64 tx.gasPrice ++ encU64 tx.nonce ++ tx.data

/-- The bytes that `compute_hash` feeds to the hasher. -/
def preimage (tx : L2Transaction) : List UInt8 :=
  tx.sender.asBytes ++ (tx.recipient.map Address.asBytes).getD [] ++
    encU64 tx.value ++ encU64 tx.gasLimit ++ encU64 tx.gasPrice ++
    encU64 tx.nonce ++ tx.data ++ [tx.txType]

theorem computeHash_eq (C : Crypto) (tx : L2Transaction) :
    tx.computeHash C = C.blake3 tx.preimage := rfl

/-- All fields that are hashed. -/
structure SameFields (tx tx' : L2Transaction) : Prop where
  sender : tx.sender = tx'.sender
  recipient : tx.recipient = tx'.recipient
  value : tx.value = tx'.value
  gasLimit : tx.gasLimit = tx'.gasLimit
  gasPrice : tx.gasPrice = tx'.gasPrice
  nonce : tx.nonce = tx'.nonce
  data : tx.data = tx'.data
  txType : tx.txType = tx'.txType

/-- The second has no recipient, and the recipient of the first is the first twenty bytes of
what follows in it. -/
structure Shifted (tx tx' : L2Transaction) : Prop where
  sender : tx.sender = tx'.sender
  created : tx'.recipient = none
  body : ∃ payee, tx.recipient = some payee ∧ payee.asBytes ++ tx.body = tx'.body
  txType : tx.txType = tx'.txType

variable {tx tx' : L2Transaction}

/-! ## The layout -/

theorem preimage_eq (tx : L2Transaction) :
    tx.preimage = tx.sender.asBytes ++ (((tx.recipient.map Address.asBytes).getD [] ++ tx.body) ++
      [tx.txType]) := by
  simp only [preimage, body, List.append_assoc]

/-- The ends of fixed width are the same, and so is what stands between them. -/
theorem preimage_eq_iff : tx.preimage = tx'.preimage ↔
    tx.sender = tx'.sender ∧ (tx.recipient.map Address.asBytes).getD [] ++ tx.body
      = (tx'.recipient.map Address.asBytes).getD [] ++ tx'.body ∧ tx.txType = tx'.txType := by
  rw [preimage_eq, preimage_eq]
  constructor
  · intro h
    obtain ⟨hsender, hrest⟩ := List.append_inj h (by rw [Address.asBytes_length,
      Address.asBytes_length])
    obtain ⟨hmiddle, htype⟩ := List.append_inj' hrest rfl
    exact ⟨Address.asBytes_inj hsender, hmiddle, List.head_eq_of_cons_eq htype⟩
  · rintro ⟨hsender, hmiddle, htype⟩
    rw [hsender, hmiddle, htype]

/-- Behind the recipient the fields are read off in order. -/
theorem body_inj (h : tx.body = tx'.body) :
    tx.value = tx'.value ∧ tx.gasLimit = tx'.gasLimit ∧ tx.gasPrice = tx'.gasPrice ∧
      tx.nonce = tx'.nonce ∧ tx.data = tx'.data := by
  simp only [body, List.append_assoc] at h
  obtain ⟨hvalue, h⟩ := (reads_u64 tx.value).append_inj (reads_u64 tx'.value) h
  obtain ⟨hlimit, h⟩ := (reads_u64 tx.gasLimit).append_inj (reads_u64 tx'.gasLimit) h
  obtain ⟨hprice, h⟩ := (reads_u64 tx.gasPrice).append_inj (reads_u64 tx'.gasPrice) h
  obtain ⟨hnonce, h⟩ := (reads_u64 tx.nonce).append_inj (reads_u64 tx'.nonce) h
  exact ⟨hvalue, hlimit, hprice, hnonce, h⟩

theorem body_length (tx : L2Transaction) : tx.body.length = 32 + tx.data.length := by
  simp only [body, List.length_append, encU64_length]

/-- With the recipients equal the whole transactions are. -/
theorem sameFields_of_recipient (h : tx.preimage = tx'.preimage)
    (hrecipient : tx.recipient = tx'.recipient) : SameFields tx tx' := by
  obtain ⟨hsender, hmiddle, htype⟩ := preimage_eq_iff.mp h
  rw [hrecipient] at hmiddle
  obtain ⟨hvalue, hlimit, hprice, hnonce, hdata⟩ := body_inj (List.append_cancel_left hmiddle)
  exact ⟨hsender, hrecipient, hvalue, hlimit, hprice, hnonce, hdata, htype⟩

theorem Shifted.preimage_eq (h : Shifted tx tx') : tx.preimage = tx'.preimage := by
  obtain ⟨payee, hpayee, hbody⟩ := h.body
  refine preimage_eq_iff.mpr ⟨h.sender, ?_, h.txType⟩
  rw [hpayee, h.created]
  exact hbody

/-- Two transactions of the same bytes agree, or one is the other shifted. -/
theorem cases_of_preimage_eq (h : tx.preimage = tx'.preimage) :
    SameFields tx tx' ∨ Shifted tx tx' ∨ Shifted tx' tx := by
  obtain ⟨hsender, hmiddle, htype⟩ := preimage_eq_iff.mp h
  cases hrecipient : tx.recipient with
  | none =>
    cases hrecipient' : tx'.recipient with
    | none => exact Or.inl (sameFields_of_recipient h (hrecipient.trans hrecipient'.symm))
    | some payee =>
      rw [hrecipient, hrecipient'] at hmiddle
      exact Or.inr (Or.inr ⟨hsender.symm, hrecipient, ⟨payee, hrecipient', hmiddle.symm⟩, htype.symm⟩)
  | some payee =>
    cases hrecipient' : tx'.recipient with
    | none =>
      rw [hrecipient, hrecipient'] at hmiddle
      exact Or.inr (Or.inl ⟨hsender, hrecipient', ⟨payee, hrecipient, hmiddle⟩, htype⟩)
    | some payee' =>
      rw [hrecipient, hrecipient'] at hmiddle
      obtain ⟨hpayee, _⟩ := List.append_inj hmiddle
        (show payee.asBytes.length = payee'.asBytes.length by
          rw [Address.asBytes_length, Address.asBytes_length])
      refine Or.inl (sameFields_of_recipient h ?_)
      rw [hrecipient, hrecipient', Address.asBytes_inj hpayee]

theorem not_sameFields_of_shifted (h : Shifted tx tx') : ¬ SameFields tx tx' := by
  intro hsame
  obtain ⟨payee, hpayee, _⟩ := h.body
  have := hsame.recipient
  rw [hpayee, h.created] at this
  cases this

/-! ## Words from bytes -/

/-- Any thirty-two bytes and more are the body of a transaction, whatever else is in it. -/
theorem exists_body (tx : L2Transaction) (bs : List UInt8) (h : 32 ≤ bs.length) :
    ∃ tx' : L2Transaction, tx'.body = bs ∧ tx'.sender = tx.sender ∧ tx'.txType = tx.txType := by
  have hword : ∀ k, k + 8 ≤ bs.length → ((bs.drop k).take 8).length = 8 := by
    intro k hk
    rw [List.length_take, List.length_drop]
    omega
  obtain ⟨value, hvalue⟩ := exists_encU64 (hword 0 (by omega))
  obtain ⟨gasLimit, hlimit⟩ := exists_encU64 (hword 8 (by omega))
  obtain ⟨gasPrice, hprice⟩ := exists_encU64 (hword 16 (by omega))
  obtain ⟨nonce, hnonce⟩ := exists_encU64 (hword 24 (by omega))
  refine ⟨{ tx with value, gasLimit, gasPrice, nonce, data := bs.drop 32 }, ?_, rfl, rfl⟩
  show encU64 value ++ encU64 gasLimit ++ encU64 gasPrice ++ encU64 nonce ++ bs.drop 32 = bs
  rw [hvalue, hlimit, hprice, hnonce]
  -- the pieces are cut one behind the other
  have hjoin : ∀ k, (bs.drop k).take 8 ++ bs.drop (k + 8) = bs.drop k := by
    intro k
    rw [← List.drop_drop, List.take_append_drop]
  simp only [List.append_assoc]
  rw [hjoin 24, hjoin 16, hjoin 8, hjoin 0, List.drop_zero]

/-- With a recipient there is always a transaction that has the same bytes without one. -/
theorem exists_shifted_of_some {payee : Address} (h : tx.recipient = some payee) :
    ∃ tx', Shifted tx tx' := by
  obtain ⟨tx', hbody, hsender, htype⟩ := exists_body tx (payee.asBytes ++ tx.body) (by
    rw [List.length_append, body_length]
    omega)
  exact ⟨{ tx' with recipient := none }, hsender.symm, rfl, ⟨payee, h, hbody.symm⟩, htype.symm⟩

/-- Without one, when there are bytes enough for it. -/
theorem exists_shifted_of_none (h : tx.recipient = none) (hlong : 20 ≤ tx.data.length) :
    ∃ tx', Shifted tx' tx := by
  have hlength := body_length tx
  obtain ⟨tx', hbody, hsender, htype⟩ := exists_body tx (tx.body.drop 20) (by
    rw [List.length_drop]
    omega)
  refine ⟨{ tx' with recipient := some (Address.fromSlice (tx.body.take 20)) }, hsender, h,
    ⟨_, rfl, ?_⟩, htype⟩
  have htake : (Address.fromSlice (tx.body.take 20)).asBytes = tx.body.take 20 :=
    toList_arrayFromSlice (by rw [List.length_take]; omega)
  show _ ++ tx'.body = tx.body
  rw [htake, hbody, List.take_append_drop]

/-- **Preimages.** Two transactions with the same bytes are the same but for the shift by a
recipient. For all others at once, the bytes of a transaction are its own exactly when it
has no recipient and too few data to hide one. -/
theorem preimage_unambiguous_iff (tx : L2Transaction) :
    (∀ tx', (tx.preimage = tx'.preimage → SameFields tx tx') ↔
      ¬ Shifted tx tx' ∧ ¬ Shifted tx' tx) ∧
    ((∀ tx', tx.preimage = tx'.preimage → SameFields tx tx') ↔
      tx.recipient = none ∧ tx.data.length < 20) := by
  have hpair : ∀ tx', (tx.preimage = tx'.preimage → SameFields tx tx') ↔
      ¬ Shifted tx tx' ∧ ¬ Shifted tx' tx := by
    intro tx'
    constructor
    · intro h
      refine ⟨fun hshift => not_sameFields_of_shifted hshift (h hshift.preimage_eq), fun hshift => ?_⟩
      have hsame := h hshift.preimage_eq.symm
      obtain ⟨payee, hpayee, _⟩ := hshift.body
      have hrecipient := hsame.recipient
      rw [hpayee, hshift.created] at hrecipient
      cases hrecipient
    · rintro ⟨hforth, hback⟩ heq
      rcases cases_of_preimage_eq heq with h | h | h
      · exact h
      · exact absurd h hforth
      · exact absurd h hback
  refine ⟨hpair, ?_⟩
  constructor
  · intro h
    have hnone : tx.recipient = none := by
      cases hrecipient : tx.recipient with
      | none => rfl
      | some payee =>
        obtain ⟨tx', hshift⟩ := exists_shifted_of_some hrecipient
        exact absurd hshift ((hpair tx').mp (h tx')).1
    refine ⟨hnone, Nat.not_le.mp fun hlong => ?_⟩
    obtain ⟨tx', hshift⟩ := exists_shifted_of_none hnone hlong
    exact ((hpair tx').mp (h tx')).2 hshift
  · rintro ⟨hnone, hshort⟩ tx'
    refine (hpair tx').mpr ⟨fun hshift => ?_, fun hshift => ?_⟩
    · obtain ⟨payee, hpayee, _⟩ := hshift.body
      rw [hnone] at hpayee
      cases hpayee
    · obtain ⟨payee, _, hbody⟩ := hshift.body
      have hlength := congrArg List.length hbody
      rw [List.length_append, Address.asBytes_length, body_length, body_length] at hlength
      omega

/-! ## A payment and a contract -/

/-- A contract creation that reads as the payment: Bob's address is its value, its gas limit
and half of its gas price. -/
def paymentAsContract : L2Transaction :=
  { payment with
    recipient := none
    value := 0x0202020202020202
    gasLimit := 0x0202020202020202
    gasPrice := 0x000003e802020202
    nonce := 0x0000520800000000
    data := [0, 0, 0, 0] ++ encU64 1000000 ++ encU64 0 }

theorem payment_is_ambiguous :
    payment.preimage = paymentAsContract.preimage ∧ ¬ SameFields payment paymentAsContract := by
  refine ⟨by decide, fun hsame => ?_⟩
  have hvalue := hsame.value
  revert hvalue
  decide

end L2Transaction

end Pyrax.Rollup
