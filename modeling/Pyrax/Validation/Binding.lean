import Pyrax.Mempool.Admission

/-!
# A header hash binds the whole block

The merkle tree of a block repeats the last node of every odd level, so its root
alone does not commit to the transactions: a list and the same list with its
tail repeated have one root, and a 64-byte leaf can pass for an inner node. The
validator closes both gaps with rules that are about something else.

* A list that repeats a transaction after the first one spends an outpoint
  twice, and the double-spend set refuses it (`not_repeatsTail`).
* A valid transaction has an input and an output and so takes at least 88 bytes
  (`serialize_length_of_valid`); an inner node hashes exactly 64.

With `Merkle.Tower.binding` for the tree, two valid blocks of one header hash
are equal, for a BLAKE3 that does not collide on what the two blocks hash. The
root of an empty list is the zero hash, so at height `0`, where empty blocks
are allowed, it matters too that nothing hashes to zero.
-/

namespace Pyrax.Validation

open Base Base.Merkle ChainDB

/-- The byte strings hashed for a block: its header, its transactions and the
pairs on the way to the merkle root. -/
def HashedBy (C : Crypto) (b : Block) (x : List UInt8) : Prop :=
  x = b.header.preimage ∨ (∃ tx ∈ b.transactions, x = tx.serialize) ∨
    ∃ p, Combines (combineHashes C) (b.transactions.map (·.txid C)) p ∧
      x = p.1.asBytes ++ p.2.asBytes

/-- BLAKE3 does not collide on the strings in `S`. -/
def CollisionFreeOn (C : Crypto) (S : List UInt8 → Prop) : Prop :=
  ∀ x y, S x → S y → C.blake3 x = C.blake3 y → x = y

variable {C : Crypto} {s : ChainDB} {now : UInt64} {b : Block} {S : List UInt8 → Prop}

/-! ## What the other rules exclude -/

/-- A transaction of a valid block has an input and an output. -/
theorem nonempty_of_valid (hv : BlockValid C now b s) {tx : Transaction}
    (htx : tx ∈ b.transactions) : tx.inputs ≠ [] ∧ tx.outputs ≠ [] := by
  rcases Ledger.body_cases hv with hnil | ⟨coinbase, rest, htxs, hbody⟩
  · rw [hnil] at htx
    exact absurd htx List.not_mem_nil
  · rw [htxs] at htx
    rcases List.mem_cons.mp htx with rfl | hmem
    · obtain ⟨i, hi, _⟩ := Transaction.isCoinbase_iff.mp hbody.coinbase.isCoinbase
      exact ⟨by rw [hi]; exact List.cons_ne_nil _ _, hbody.coinbase.outputs_ne⟩
    · exact ⟨(hbody.valid tx hmem).inputs_ne, (hbody.valid tx hmem).outputs_ne⟩

theorem serialize_length_of_valid (hv : BlockValid C now b s) {tx : Transaction}
    (htx : tx ∈ b.transactions) : 88 ≤ tx.serialize.length :=
  Transaction.serialize_length_ge (nonempty_of_valid hv htx).1 (nonempty_of_valid hv htx).2

theorem fits_of_valid (hv : BlockValid C now b s) {tx : Transaction}
    (htx : tx ∈ b.transactions) : tx.Fits := by
  refine Transaction.fits_of_length ?_
  have h1 := Block.serialize_length_of_mem htx
  have h2 : b.serialize.length ≤ 1000000 := hv.size
  omega

/-- Transaction hashes of two valid blocks agree only for equal transactions. -/
theorem txid_inj_of_valid {s' : ChainDB} {now' : UInt64} {b' : Block} (hcf : CollisionFreeOn C S)
    (hv : BlockValid C now b s) (hv' : BlockValid C now' b' s')
    (hS : ∀ x, HashedBy C b x → S x) (hS' : ∀ x, HashedBy C b' x → S x) {tx tx' : Transaction}
    (htx : tx ∈ b.transactions) (htx' : tx' ∈ b'.transactions)
    (h : tx.txid C = tx'.txid C) : tx = tx' :=
  Transaction.serialize_inj (fits_of_valid hv htx) (fits_of_valid hv' htx')
    (hcf _ _ (hS _ (Or.inr (Or.inl ⟨tx, htx, rfl⟩))) (hS' _ (Or.inr (Or.inl ⟨tx', htx', rfl⟩))) h)

/-- The transactions after the coinbase of a valid block are pairwise different:
each spends something, and nothing is spent twice. -/
theorem rest_ne {height : UInt64} {coinbase : Transaction} {rest : List Transaction}
    (hbody : BodyValid C s height coinbase rest) {i j : Nat} (hij : i < j) {tx : Transaction}
    (hi : rest[i]? = some tx) (hj : rest[j]? = some tx) : False := by
  obtain ⟨hlt, hgi⟩ := List.getElem?_eq_some_iff.mp hi
  obtain ⟨hjt, hgj⟩ := List.getElem?_eq_some_iff.mp hj
  have hpair := (List.nodup_flatMap.mp hbody.nodup).2
  have hdisj := List.pairwise_iff_getElem.mp hpair i j hlt hjt hij
  obtain ⟨input, is, hin⟩ := List.exists_cons_of_ne_nil
    (hbody.valid tx (List.mem_of_getElem? hi)).inputs_ne
  have hmem : input.previousOutput ∈ tx.spends := by
    rw [Transaction.spends, hin]
    exact List.mem_cons_self ..
  refine hdisj (a := input.previousOutput) ?_ ?_
  · rw [hgi]
    exact hmem
  · rw [hgj]
    exact hmem

/-- The transaction hashes of a valid block repeat nothing after the first. -/
theorem not_repeatsTail (hv : BlockValid C now b s) (hcf : CollisionFreeOn C S)
    (hS : ∀ x, HashedBy C b x → S x) : ¬ RepeatsTail (b.transactions.map (·.txid C)) := by
  intro h
  obtain ⟨i, j, hi, hij, hj, heq⟩ := h
  rw [List.length_map] at hj
  rw [List.getElem?_map, List.getElem?_map, List.getElem?_eq_getElem hj,
    List.getElem?_eq_getElem (Nat.lt_trans hij hj)] at heq
  have hsame : b.transactions[i] = b.transactions[j] :=
    txid_inj_of_valid hcf hv hv hS hS (List.getElem_mem _) (List.getElem_mem _)
      (Option.some.inj heq)
  rcases Ledger.body_cases hv with hnil | ⟨coinbase, rest, htxs, hbody⟩
  · rw [hnil] at hj
    exact absurd hj (Nat.not_lt_zero _)
  · obtain ⟨i, rfl⟩ : ∃ i', i = i' + 1 := ⟨i - 1, by omega⟩
    obtain ⟨j, rfl⟩ : ∃ j', j = j' + 1 := ⟨j - 1, by omega⟩
    have hget : ∀ k, (coinbase :: rest)[k + 1]? = rest[k]? := fun k => rfl
    have hlt : i + 1 < b.transactions.length := Nat.lt_trans hij hj
    refine rest_ne hbody (Nat.lt_of_succ_lt_succ hij)
      (?_ : rest[i]? = some b.transactions[i + 1]) ?_
    · rw [← hget, ← htxs, List.getElem?_eq_getElem hlt]
    · rw [← hget, ← htxs, List.getElem?_eq_getElem hj, hsame]

/-! ## The merkle root -/

/-- Inner nodes collide only when their children agree. -/
theorem combineHashes_injectiveOn {P : H256 × H256 → Prop} (hcf : CollisionFreeOn C S)
    (hS : ∀ p, P p → S (p.1.asBytes ++ p.2.asBytes)) : InjectiveOn (combineHashes C) P := by
  intro p q hp hq h
  obtain ⟨h1, h2⟩ := List.append_inj (hcf _ _ (hS p hp) (hS q hq) h) (by simp)
  exact Prod.ext (H256.asBytes_inj h1) (H256.asBytes_inj h2)

/-- The root of a non-empty list of transactions is the hash of one of the
strings hashed for the block. -/
theorem root_hashed (hne : b.transactions ≠ []) :
    ∃ x, HashedBy C b x ∧ b.computeMerkleRoot C = C.blake3 x := by
  have hroot : b.computeMerkleRoot C = merkleLoop C (b.transactions.map (·.txid C)) := by
    rw [Block.computeMerkleRoot, merkleRootOf, if_neg (by simpa using hne)]
  obtain ⟨k, ht⟩ := merkleLoop_tower C (b.transactions.map (·.txid C)) (by simpa using hne)
  rw [hroot]
  generalize merkleLoop C (b.transactions.map (·.txid C)) = r at ht
  cases k with
  | succ k =>
    obtain ⟨p, hp, rfl⟩ := ht.root_combined
    exact ⟨_, Or.inr (Or.inr ⟨p, hp, rfl⟩), rfl⟩
  | zero =>
    generalize hl : b.transactions.map (·.txid C) = l at ht
    cases ht with
    | leaf _ =>
      have hr : r ∈ b.transactions.map (·.txid C) := by
        rw [hl]
        exact List.mem_singleton_self r
      obtain ⟨tx, htx, rfl⟩ := List.mem_map.mp hr
      exact ⟨_, Or.inr (Or.inl ⟨tx, htx, rfl⟩), rfl⟩

/-- Two valid blocks with transactions and one merkle root have the same
transactions. -/
theorem transactions_eq_of_root_eq {s' : ChainDB} {now' : UInt64} {b' : Block}
    (hcf : CollisionFreeOn C S) (hv : BlockValid C now b s) (hv' : BlockValid C now' b' s')
    (hS : ∀ x, HashedBy C b x → S x) (hS' : ∀ x, HashedBy C b' x → S x)
    (hne : b.transactions ≠ []) (hne' : b'.transactions ≠ [])
    (h : b.computeMerkleRoot C = b'.computeMerkleRoot C) : b.transactions = b'.transactions := by
  rw [Block.computeMerkleRoot, Block.computeMerkleRoot, merkleRootOf, merkleRootOf,
    if_neg (by simpa using hne), if_neg (by simpa using hne')] at h
  obtain ⟨k, ht⟩ := merkleLoop_tower C (b.transactions.map (·.txid C)) (by simpa using hne)
  obtain ⟨k', ht'⟩ :=
    merkleLoop_tower C (b'.transactions.map (·.txid C)) (by simpa using hne')
  rw [h] at ht
  have hleaf : ∀ {d : Block} {nd : UInt64} {sd : ChainDB}, BlockValid C nd d sd →
      (∀ x, HashedBy C d x → S x) → ∀ x ∈ d.transactions.map (·.txid C), ∀ p : H256 × H256,
        S (p.1.asBytes ++ p.2.asBytes) → x ≠ combineHashes C p.1 p.2 := by
    intro d nd sd hd hSd x hx p hp heq
    obtain ⟨tx, htx, rfl⟩ := List.mem_map.mp hx
    -- a transaction is longer than the 64 bytes of an inner node
    have hbytes := hcf _ _ (hSd _ (Or.inr (Or.inl ⟨tx, htx, rfl⟩))) hp heq
    have hlen := serialize_length_of_valid hd htx
    rw [hbytes, List.length_append, H256.asBytes_length, H256.asBytes_length] at hlen
    omega
  have hpair : ∀ p, Combines (combineHashes C) (b.transactions.map (·.txid C)) p ∨
      Combines (combineHashes C) (b'.transactions.map (·.txid C)) p →
      S (p.1.asBytes ++ p.2.asBytes) := fun p hp => hp.elim
    (fun hc => hS _ (Or.inr (Or.inr ⟨p, hc, rfl⟩)))
    (fun hc => hS' _ (Or.inr (Or.inr ⟨p, hc, rfl⟩)))
  have hsep : ∀ x p, x ∈ b.transactions.map (·.txid C) ∨ x ∈ b'.transactions.map (·.txid C) →
      (Combines (combineHashes C) (b.transactions.map (·.txid C)) p ∨
        Combines (combineHashes C) (b'.transactions.map (·.txid C)) p) →
      x ≠ combineHashes C p.1 p.2 := fun x p hx hp => hx.elim
    (fun hx => hleaf hv hS x hx p (hpair p hp)) (fun hx => hleaf hv' hS' x hx p (hpair p hp))
  rcases ht.binding ht' (combineHashes_injectiveOn hcf hpair) hsep with heq | hrep | hrep
  · refine List.ext_getElem (by simpa using congrArg List.length heq) fun i hi hi' => ?_
    refine txid_inj_of_valid hcf hv hv' hS hS' (List.getElem_mem hi) (List.getElem_mem hi') ?_
    have hget := congrArg (·[i]?) heq
    simpa [List.getElem?_eq_getElem hi, List.getElem?_eq_getElem hi'] using hget
  · exact absurd hrep (not_repeatsTail hv hcf hS)
  · exact absurd hrep (not_repeatsTail hv' hcf hS')

/-! ## The block -/

/-- **Binding.** Two blocks with one header hash that are both valid on the same
database are equal, headers and transactions, if BLAKE3 does not collide on
what they hash (and, for blocks of height `0`, hashes none of it to zero). -/
theorem block_eq_of_hash_eq {b₁ b₂ : Block} {now₁ now₂ : UInt64}
    (hv₁ : validateBlock C now₁ b₁ s = .ok ()) (hv₂ : validateBlock C now₂ b₂ s = .ok ())
    (hcf : CollisionFreeOn C fun x => HashedBy C b₁ x ∨ HashedBy C b₂ x)
    (hzero : b₁.height = 0 → ∀ x, HashedBy C b₁ x ∨ HashedBy C b₂ x → C.blake3 x ≠ H256.zero)
    (hhash : b₁.hash C = b₂.hash C) : b₁ = b₂ := by
  rw [validateBlock_ok_iff] at hv₁ hv₂
  have hheader : b₁.header = b₂.header :=
    BlockHeader.preimage_inj (hcf _ _ (Or.inl (Or.inl rfl)) (Or.inr (Or.inl rfl)) hhash)
  have hroot : b₁.computeMerkleRoot C = b₂.computeMerkleRoot C := by
    rw [← hv₁.merkle, ← hv₂.merkle, hheader]
  have hheight : b₁.height = b₂.height := congrArg BlockHeader.height hheader
  have hempty : ∀ {b : Block}, b.transactions = [] → b.computeMerkleRoot C = H256.zero := by
    intro b hb
    rw [Block.computeMerkleRoot, merkleRootOf, hb]
    rfl
  have hzeroHeight : ∀ {b : Block} {now : UInt64}, BlockValid C now b s → b.transactions = [] →
      b.height = 0 := fun hv hb => Classical.byContradiction fun h0 =>
    hv.nonempty (UInt64.pos_iff_ne_zero.mpr h0) hb
  have htxs : b₁.transactions = b₂.transactions := by
    by_cases h1 : b₁.transactions = []
    · by_cases h2 : b₂.transactions = []
      · rw [h1, h2]
      · obtain ⟨x, hx, hr⟩ := root_hashed (C := C) h2
        refine absurd ?_ (hzero (hzeroHeight hv₁ h1) x (Or.inr hx))
        rw [← hr, ← hroot, hempty h1]
    · by_cases h2 : b₂.transactions = []
      · obtain ⟨x, hx, hr⟩ := root_hashed (C := C) h1
        refine absurd ?_ (hzero (hheight.trans (hzeroHeight hv₂ h2)) x (Or.inl hx))
        rw [← hr, hroot, hempty h2]
      · exact transactions_eq_of_root_eq hcf hv₁ hv₂ (fun _ h => Or.inl h) (fun _ h => Or.inr h)
          h1 h2 hroot
  cases b₁
  cases b₂
  simp only [Block.mk.injEq]
  exact ⟨hheader, htxs⟩

open Mempool

/-- A block of the devnet after the grant, with a coinbase and a payment. -/
def payBlock : Block := easyBlock payCrypto grantedState 1735689600 [devnetCoinbase, payTx]

theorem payBlock_valid : BlockValid payCrypto 1735689600 payBlock grantedState := by
  refine Ledger.easyBlock_valid
    ⟨Ledger.coinbaseValid_coinbase (UInt64.le_refl _), fun tx htx => ?_, ?_⟩ (by decide +kernel) (by decide) (by decide) (by decide) fun p hp => ?_
  · rw [List.mem_singleton.mp htx]
    exact payTx_valid
  · decide +kernel
  · have hfirst := committed_getBlock_tip (C := payCrypto) (openNew payCrypto NetworkId.DEVNET)
      (easyBlock payCrypto (openNew payCrypto NetworkId.DEVNET) 1735689600 [grantTx])
    rw [← Option.some.inj (hfirst.symm.trans hp)]
    exact UInt64.le_refl _

/-- Four strings are hashed for the block, and BLAKE3 tells them apart. -/
theorem block_eq_of_hash_eq_payBlock :
    payBlock = easyBlock payCrypto grantedState 1735689600
      [devnetCoinbase, grantSpent 0 paySignature] := by
  have hvalid : validateBlock payCrypto 1735689600 payBlock grantedState = .ok () :=
    validateBlock_ok_iff.mpr payBlock_valid
  let strings := [payBlock.header.preimage, devnetCoinbase.serialize, payTx.serialize,
    (devnetCoinbase.txid payCrypto).asBytes ++ (payTx.txid payCrypto).asBytes]
  have hhashed : ∀ x, HashedBy payCrypto payBlock x → x ∈ strings := by
    rintro x (rfl | ⟨tx, htx, rfl⟩ | ⟨p, hp, rfl⟩)
    · exact List.mem_cons_self ..
    · rcases List.mem_pair.mp htx with rfl | rfl
      · exact List.mem_cons_of_mem _ (List.mem_cons_self ..)
      · exact List.mem_cons_of_mem _ (List.mem_cons_of_mem _ (List.mem_cons_self ..))
    · rw [combines_pair hp]
      simp [strings]
  have hfree : ∀ x ∈ strings, ∀ y ∈ strings,
      payCrypto.blake3 x = payCrypto.blake3 y → x = y := by
    decide +kernel
  exact block_eq_of_hash_eq hvalid hvalid
    (fun x y hx hy => hfree x (hhashed x (hx.elim id id)) y (hhashed y (hy.elim id id)))
    (fun h => absurd h (by decide +kernel)) rfl

end Pyrax.Validation
