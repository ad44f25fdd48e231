import Pyrax.Base.Run
import Pyrax.Evm.Blocks

/-!
# The hash of a transaction

`EvmTransaction::hash` of `pyrax-node/src/evm/types.rs`, and the two lookups by hash of
`pyrax-node/src/evm/chain.rs`. A hash should name one transaction. But the sender and the access
list are not hashed, and nothing marks whether a recipient was: the bytes of a call are those of
a creation whose value begins with the address (`CallAsCreation`). These are all the cases in
which two transactions share a hash (`differ_and_hash_iff`).

Both lookups walk the blocks in the order of a hash map and take the first hit. Walking in one
order they hit the same place, whatever the hashes. In two orders they do if no hash was
submitted twice (`identified_iff`).

The hash is a field of what is submitted, and not compared with the transaction.
-/

namespace Pyrax.Base.Column

/-- Putting an entry adds to a sum at most what it counts for itself. -/
theorem sum_records_insert_le {K V : Type} [DecidableEq K] {α : Type} (f : V → Multiset α)
    (m : Column K V) (k : K) (v : V) :
    (records f (m.insert k v)).sum ≤ f v + (records f m).sum := by
  by_cases hk : k ∈ m
  · obtain ⟨w, hw⟩ := Finmap.mem_iff.mp hk
    have hreplace := sum_records_replace f hw v
    rw [← hreplace]
    exact Multiset.le_add_left _ _
  · exact (sum_records_insert f v hk).le

end Pyrax.Base.Column

namespace Pyrax.Evm

open Base Word

namespace EvmTransaction

/-- The fields of fixed width that are hashed first. -/
def scalars (tx : EvmTransaction) : UInt8 × List UInt64 :=
  (tx.txType, [tx.chainId, tx.nonce, tx.maxPriorityFeePerGas, tx.maxFeePerGas, tx.gasLimit])

/-- What is hashed of the rest. -/
def payload (tx : EvmTransaction) : List UInt8 :=
  (tx.recipient.map Vector.toList).getD [] ++ tx.value.toBeBytes.toList ++ tx.input

/-- What is hashed. -/
def preimage (tx : EvmTransaction) : List UInt8 :=
  tx.scalars.1 :: tx.scalars.2.flatMap Word.toBeBytes ++ tx.payload

/-- A transaction less its signature. -/
def unsigned (tx : EvmTransaction) : EvmTransaction :=
  { tx with v := 0, r := Vector.replicate 32 0, s := Vector.replicate 32 0 }

/-- A call and a creation that are hashed alike: the value of the creation is the address and the
first bytes of the call's value, and its input the other bytes and the call's input. -/
def CallAsCreation (call creation : EvmTransaction) : Prop :=
  creation.recipient = none ∧ ∃ recipient, call.recipient = some recipient ∧
    creation.value.toBeBytes.toList = recipient.toList ++ call.value.toBeBytes.toList.take 12 ∧
    creation.input = call.value.toBeBytes.toList.drop 12 ++ call.input

theorem hash_eq (C : Crypto) (tx : EvmTransaction) : tx.hash C = (C.blake3 tx.preimage).bytes := by
  unfold hash preimage payload scalars
  simp only [List.flatMap_cons, List.flatMap_nil, List.append_assoc, List.cons_append,
    List.append_nil]

variable {t₁ t₂ : EvmTransaction}

theorem preimage_eq_iff : t₁.preimage = t₂.preimage ↔
    t₁.scalars = t₂.scalars ∧ t₁.payload = t₂.payload := by
  have hlength : ∀ tx : EvmTransaction,
      (tx.scalars.1 :: tx.scalars.2.flatMap Word.toBeBytes).length = 41 := fun _ => rfl
  unfold preimage
  constructor
  · intro h
    obtain ⟨hscalars, hpayload⟩ := List.append_inj h (by rw [hlength, hlength])
    obtain ⟨htype, hwords⟩ := List.cons.inj hscalars
    have hwords := Wire.map_eq_of_flatMap_eq_of_width (by decide) length_toBeBytes hwords
    exact ⟨Prod.ext htype (List.map_injective_iff.mpr (fun _ _ => Word.toBeBytes_inj) hwords),
      hpayload⟩
  · intro h
    rw [h.1, h.2]

theorem payload_of_call {recipient : Address} (h : t₁.recipient = some recipient) :
    t₁.payload = recipient.toList ++ (t₁.value.toBeBytes.toList ++ t₁.input) := by
  simp only [payload, h, Option.map_some, Option.getD_some, List.append_assoc]

theorem payload_of_creation (h : t₁.recipient = none) :
    t₁.payload = t₁.value.toBeBytes.toList ++ t₁.input := by
  simp only [payload, h, Option.map_none, Option.getD_none, List.nil_append]

/-- The value has a width of its own. -/
theorem value_append_input_inj :
    t₁.value.toBeBytes.toList ++ t₁.input = t₂.value.toBeBytes.toList ++ t₂.input ↔
      t₁.value = t₂.value ∧ t₁.input = t₂.input := by
  constructor
  · intro h
    obtain ⟨hvalue, hinput⟩ := List.append_inj h (by rw [Vector.length_toList, Vector.length_toList])
    exact ⟨U256.toBeBytes_inj (Vector.toList_inj.mp hvalue), hinput⟩
  · intro h
    rw [h.1, h.2]

theorem payload_call_eq_creation {recipient : Address} (hcall : t₁.recipient = some recipient)
    (hcreation : t₂.recipient = none) : t₁.payload = t₂.payload ↔ CallAsCreation t₁ t₂ := by
  have hlength : (recipient.toList ++ t₁.value.toBeBytes.toList.take 12).length
      = t₂.value.toBeBytes.toList.length := by
    simp only [List.length_append, List.length_take, Vector.length_toList]
    decide
  have hbytes : t₁.payload = recipient.toList ++ t₁.value.toBeBytes.toList.take 12 ++
      (t₁.value.toBeBytes.toList.drop 12 ++ t₁.input) := by
    rw [payload_of_call hcall, List.append_assoc, ← List.append_assoc (List.take 12 _),
      List.take_append_drop]
  rw [hbytes, payload_of_creation hcreation]
  constructor
  · intro h
    obtain ⟨hvalue, hinput⟩ := List.append_inj h hlength
    exact ⟨hcreation, recipient, hcall, hvalue.symm, hinput.symm⟩
  · intro h
    obtain ⟨-, recipient', hcall', hvalue, hinput⟩ := h
    rw [hcall] at hcall'
    cases hcall'
    rw [hvalue, hinput]

theorem CallAsCreation.isSome (h : CallAsCreation t₁ t₂) :
    t₁.recipient.isSome ∧ t₂.recipient = none := by
  obtain ⟨hnone, recipient, hsome, -⟩ := h
  rw [hsome]
  exact ⟨rfl, hnone⟩

theorem payload_eq_iff : t₁.payload = t₂.payload ↔
    t₁.recipient = t₂.recipient ∧ t₁.value = t₂.value ∧ t₁.input = t₂.input ∨
      CallAsCreation t₁ t₂ ∨ CallAsCreation t₂ t₁ := by
  have hnot : ∀ {t t' : EvmTransaction}, t.recipient.isSome = t'.recipient.isSome →
      ¬ CallAsCreation t t' := by
    intro t t' hsame h
    rw [h.isSome.1, h.isSome.2] at hsame
    cases hsame
  cases hto₁ : t₁.recipient with
  | none =>
    cases hto₂ : t₂.recipient with
    | none =>
      rw [or_iff_left (not_or.mpr ⟨hnot (by rw [hto₁, hto₂]), hnot (by rw [hto₁, hto₂])⟩),
        payload_of_creation hto₁, payload_of_creation hto₂, value_append_input_inj]
      exact (and_iff_right rfl).symm
    | some recipient =>
      rw [eq_comm, payload_call_eq_creation hto₂ hto₁]
      refine ⟨fun h => .inr (.inr h), ?_⟩
      intro h
      rcases h with h | h | h
      · cases h.1
      · exact absurd (hto₁ ▸ h.isSome.1) nofun
      · exact h
  | some recipient =>
    cases hto₂ : t₂.recipient with
    | none =>
      rw [payload_call_eq_creation hto₁ hto₂]
      refine ⟨fun h => .inr (.inl h), ?_⟩
      intro h
      rcases h with h | h | h
      · cases h.1
      · exact h
      · exact absurd (hto₂ ▸ h.isSome.1) nofun
    | some recipient' =>
      rw [or_iff_left (not_or.mpr ⟨hnot (by rw [hto₁, hto₂]; rfl), hnot (by rw [hto₁, hto₂]; rfl)⟩),
        payload_of_call hto₁, payload_of_call hto₂, Option.some.injEq]
      constructor
      · intro h
        obtain ⟨hto, hrest⟩ := List.append_inj h (by rw [Vector.length_toList, Vector.length_toList])
        exact ⟨Vector.toList_inj.mp hto, value_append_input_inj.mp hrest⟩
      · intro h
        rw [h.1, value_append_input_inj.mpr h.2]

theorem unsigned_inj : t₁.unsigned = t₂.unsigned ↔ t₁.scalars = t₂.scalars ∧
    (t₁.recipient = t₂.recipient ∧ t₁.value = t₂.value ∧ t₁.input = t₂.input) ∧
      t₁.accessList = t₂.accessList := by
  simp only [unsigned, scalars, EvmTransaction.mk.injEq, Prod.mk.injEq, List.cons.injEq, and_true,
    and_assoc]

end EvmTransaction

namespace SignedTransaction

open EvmTransaction

variable {t₁ t₂ : SignedTransaction}

/-- Not the same, whatever their signatures. -/
def Differ (t₁ t₂ : SignedTransaction) : Prop :=
  t₁.sender ≠ t₂.sender ∨ t₁.transaction.unsigned ≠ t₂.transaction.unsigned

/-- Two transactions that the hash does not tell apart. They agree in the first fields; and they
differ in sender or access list alone, or one is a call and the other a creation. -/
def Ambiguous (t₁ t₂ : SignedTransaction) : Prop :=
  t₁.transaction.scalars = t₂.transaction.scalars ∧
    ((t₁.transaction.recipient = t₂.transaction.recipient ∧
        t₁.transaction.value = t₂.transaction.value ∧
        t₁.transaction.input = t₂.transaction.input) ∧
      (t₁.sender ≠ t₂.sender ∨ t₁.transaction.accessList ≠ t₂.transaction.accessList) ∨
    CallAsCreation t₁.transaction t₂.transaction ∨ CallAsCreation t₂.transaction t₁.transaction)

theorem differ_and_preimage_iff :
    t₁.Differ t₂ ∧ t₁.transaction.preimage = t₂.transaction.preimage ↔ t₁.Ambiguous t₂ := by
  rw [preimage_eq_iff, payload_eq_iff]
  unfold Differ Ambiguous
  simp only [ne_eq, unsigned_inj]
  constructor
  · intro h
    obtain ⟨hdiffer, hscalars, hsame | hcall⟩ := h
    · exact ⟨hscalars, .inl ⟨hsame, hdiffer.imp_right fun hne haccess =>
        hne ⟨hscalars, hsame, haccess⟩⟩⟩
    · exact ⟨hscalars, .inr hcall⟩
  · intro h
    obtain ⟨hscalars, ⟨hsame, hdiffer⟩ | hcall⟩ := h
    · exact ⟨hdiffer.imp_right fun hne heq => hne heq.2.2, hscalars, .inl hsame⟩
    · refine ⟨.inr fun heq => ?_, hscalars, .inr hcall⟩
      -- a call has a recipient and a creation has none
      have hto := heq.2.1.1
      rcases hcall with hcall | hcall
      · have hsome := hcall.isSome.1
        rw [hto, hcall.isSome.2] at hsome
        cases hsome
      · have hsome := hcall.isSome.1
        rw [← hto, hcall.isSome.2] at hsome
        cases hsome

/-- Of transactions that carry their own hashes, those that are ambiguous share it, and no
others that differ. -/
theorem differ_and_hash_iff {C : Crypto} (h₁ : t₁.hash = t₁.transaction.hash C)
    (h₂ : t₂.hash = t₂.transaction.hash C)
    (hcollision : C.blake3 t₁.transaction.preimage = C.blake3 t₂.transaction.preimage →
      t₁.transaction.preimage = t₂.transaction.preimage) :
    t₁.Differ t₂ ∧ t₁.hash = t₂.hash ↔ t₁.Ambiguous t₂ := by
  rw [← differ_and_preimage_iff, h₁, h₂, hash_eq, hash_eq]
  refine and_congr_right' ⟨fun h => hcollision (congrArg H256.mk h), fun h => ?_⟩
  rw [h]

end SignedTransaction

/-! ## The lookups -/

/-- The first transaction of a block with a hash, the block's number and the place. -/
def EvmBlock.findTransaction (block : EvmBlock) (hash : B256) :
    Option (SignedTransaction × UInt64 × UInt64) :=
  (block.transactions.zipIdx.find? fun e => e.1.hash = hash).map fun e =>
    (e.1, block.header.number, UInt64.ofNat e.2)

namespace EvmChain

/-- The blocks are walked in the order of a hash map. -/
def getTransaction (chain : EvmChain) (order : Column.KeyOrder UInt64 EvmBlock) (hash : B256) :
    Option (SignedTransaction × UInt64 × UInt64) :=
  (order.entries chain.blocks).findSome? fun e => e.2.findTransaction hash

def getReceipt (chain : EvmChain) (order : Column.KeyOrder UInt64 EvmBlock) (hash : B256) :
    Option TransactionReceipt :=
  (order.entries chain.blocks).findSome? fun e =>
    e.2.receipts.find? fun receipt => receipt.transactionHash = hash

/-- What is found and a receipt are of one place in one block. -/
def SamePlace (chain : EvmChain) (found : SignedTransaction × UInt64 × UInt64)
    (receipt : TransactionReceipt) : Prop :=
  ∃ block i, chain.getBlock found.2.1 = some block ∧ block.transactions[i]? = some found.1 ∧
    block.receipts[i]? = some receipt ∧ found.2.2 = UInt64.ofNat i ∧
    receipt.transactionHash = found.1.hash ∧ receipt.transactionIndex = found.2.2 ∧
    receipt.blockNumber = found.2.1 ∧ receipt.blockHash = block.header.hash ∧
    receipt.sender = found.1.senderOrZero ∧ receipt.recipient = found.1.transaction.recipient

/-- A block of the chain has it. -/
def Includes (chain : EvmChain) (tx : SignedTransaction) : Prop :=
  ∃ n block, chain.getBlock n = some block ∧ tx ∈ block.transactions

/-- What the hashes of a chain should be. -/
structure Identified (chain : EvmChain) : Prop where
  distinct : ∀ t₁ t₂, chain.Includes t₁ → chain.Includes t₂ → t₁.Differ t₂ → t₁.hash ≠ t₂.hash
  lookups : ∀ order hash,
    Option.Rel chain.SamePlace (chain.getTransaction order hash) (chain.getReceipt order hash)

variable {chain : EvmChain} {hash : B256}

/-- A place of a transaction with a hash. -/
def Holds (chain : EvmChain) (hash : B256) (found : SignedTransaction × UInt64 × UInt64) : Prop :=
  ∃ n block i, chain.getBlock n = some block ∧ block.transactions[i]? = some found.1 ∧
    found.1.hash = hash ∧ found.2 = (block.header.number, UInt64.ofNat i)

theorem holds_of_getTransaction {order : Column.KeyOrder UInt64 EvmBlock}
    {found : SignedTransaction × UInt64 × UInt64}
    (h : chain.getTransaction order hash = some found) : chain.Holds hash found := by
  obtain ⟨⟨n, block⟩, hblock, hfound⟩ := List.exists_of_findSome?_eq_some h
  obtain ⟨⟨tx, i⟩, hfind, rfl⟩ := Option.map_eq_some_iff.mp hfound
  have hhash := List.find?_some hfind
  exact ⟨n, block, i, Column.KeyOrder.mem_entries.mp hblock,
    List.mem_zipIdx_iff_getElem?.mp (List.mem_of_find?_eq_some hfind), of_decide_eq_true hhash, rfl⟩

theorem getTransaction_of_holds (order : Column.KeyOrder UInt64 EvmBlock)
    {found : SignedTransaction × UInt64 × UInt64} (h : chain.Holds hash found) :
    ∃ found', chain.getTransaction order hash = some found' := by
  obtain ⟨n, block, i, hblock, htx, hhash, -⟩ := h
  refine Option.isSome_iff_exists.mp (List.findSome?_isSome_iff.mpr
    ⟨(n, block), Column.KeyOrder.mem_entries.mpr hblock, ?_⟩)
  unfold EvmBlock.findTransaction
  rw [Option.isSome_map, List.find?_isSome]
  exact ⟨(found.1, i), List.mem_zipIdx_iff_getElem?.mpr htx, decide_eq_true hhash⟩

/-- In a block the first transaction with a hash and the first receipt of it stand at one
place. -/
theorem samePlace_block {n : UInt64} {block : EvmBlock} (hblock : chain.getBlock n = some block)
    (hnumber : block.header.number = n)
    (hpaired : Paired block.header.number block.transactions block.receipts)
    (hhashed : ∀ receipt ∈ block.receipts, receipt.blockHash = block.header.hash) :
    Option.Rel chain.SamePlace (block.findTransaction hash)
      (block.receipts.find? fun receipt => receipt.transactionHash = hash) := by
  have hhashes : block.receipts.map (·.transactionHash) = block.transactions.map (·.hash) := by
    refine List.ext_getElem (by rw [List.length_map, List.length_map, hpaired.length]) ?_
    intro i hi hi'
    rw [List.length_map] at hi hi'
    rw [List.getElem_map, List.getElem_map]
    exact (hpaired.belongs i _ _ (List.getElem?_eq_getElem hi') (List.getElem?_eq_getElem hi)).1
  have hplace : block.receipts.findIdx? (fun receipt => decide (receipt.transactionHash = hash))
      = (block.transactions.zipIdx.find? fun e => decide (e.1.hash = hash)).map (·.2) := by
    have hmap := congrArg (List.findIdx? fun other => decide (other = hash)) hhashes
    rw [List.findIdx?_map, List.findIdx?_map] at hmap
    exact hmap.trans List.findIdx?_eq_fst_find?_zipIdx
  have hreceipts : block.receipts.find? (fun receipt => decide (receipt.transactionHash = hash))
      = ((block.transactions.zipIdx.find? fun e => decide (e.1.hash = hash)).map (·.2)).bind
        (block.receipts[·]?) := by
    rw [List.find?_eq_bind_findIdx?_getElem?, hplace]
  rw [hreceipts]
  unfold EvmBlock.findTransaction
  cases hfind : block.transactions.zipIdx.find? fun e => e.1.hash = hash with
  | none => exact .none
  | some found =>
    obtain ⟨tx, i⟩ := found
    have htx := List.mem_zipIdx_iff_getElem?.mp (List.mem_of_find?_eq_some hfind)
    obtain ⟨hi, -⟩ := List.getElem?_eq_some_iff.mp htx
    have hi' : i < block.receipts.length := by rwa [hpaired.length]
    have hreceipt := List.getElem?_eq_getElem hi'
    obtain ⟨hhash, hindex, hblockNumber, hsender, hto⟩ := hpaired.belongs i tx _ htx hreceipt
    show Option.Rel _ (some _) (block.receipts[i]?)
    rw [hreceipt]
    refine .some ⟨block, i, ?_, htx, hreceipt, rfl, hhash, hindex, hblockNumber,
      hhashed _ (List.getElem_mem hi'), hsender, hto⟩
    rw [hnumber]
    exact hblock

/-- Two searches that agree on every entry agree on the first hit. -/
theorem rel_findSome? {α β γ : Type} {R : β → γ → Prop} {f : α → Option β} {g : α → Option γ}
    {l : List α} (h : ∀ a ∈ l, Option.Rel R (f a) (g a)) :
    Option.Rel R (l.findSome? f) (l.findSome? g) := by
  induction l with
  | nil => exact .none
  | cons a l ih =>
    have hfirst := h a List.mem_cons_self
    rw [List.findSome?_cons, List.findSome?_cons]
    cases hf : f a with
    | none =>
      rw [hf] at hfirst
      generalize g a = found at hfirst
      cases hfirst
      exact ih fun a' ha' => h a' (List.mem_cons_of_mem a ha')
    | some b =>
      rw [hf] at hfirst
      generalize g a = found at hfirst
      cases hfirst with
      | some hsame => exact .some hsame

/-- What a run keeps: each block stands under its number, with a receipt for each transaction;
and no transaction is there more often than it was submitted. -/
structure Filed (chain : EvmChain) (submitted : List SignedTransaction) : Prop where
  numbered : ∀ n block, chain.getBlock n = some block → block.header.number = n
  paired : ∀ n block, chain.getBlock n = some block →
    Paired block.header.number block.transactions block.receipts ∧
      ∀ receipt ∈ block.receipts, receipt.blockHash = block.header.hash
  held : (Column.records (fun block => (block.transactions : Multiset SignedTransaction))
      chain.blocks).sum + chain.producer.pendingTransactions ≤ submitted

namespace Filed

variable {submitted : List SignedTransaction}

/-- The lookups in one order. -/
theorem lookups (h : chain.Filed submitted) (order : Column.KeyOrder UInt64 EvmBlock)
    (hash : B256) :
    Option.Rel chain.SamePlace (chain.getTransaction order hash) (chain.getReceipt order hash) := by
  refine rel_findSome? fun e he => ?_
  have hblock := Column.KeyOrder.mem_entries.mp he
  exact samePlace_block hblock (h.numbered e.1 e.2 hblock) (h.paired e.1 e.2 hblock).1
    (h.paired e.1 e.2 hblock).2

theorem mem_submitted (h : chain.Filed submitted) {tx : SignedTransaction}
    (hincludes : chain.Includes tx) : tx ∈ submitted := by
  obtain ⟨n, block, hblock, htx⟩ := hincludes
  have hsum := Column.sum_records_erase
    (fun block => (block.transactions : Multiset SignedTransaction)) hblock
  have hmem := Multiset.mem_of_le h.held
    (Multiset.mem_add.mpr (.inl (hsum ▸ Multiset.mem_add.mpr (.inl (Multiset.mem_coe.mpr htx)))))
  exact Multiset.mem_coe.mp hmem

/-- Of hashes that were submitted once, each stands at one place. -/
theorem holds_unique (h : chain.Filed submitted) (hnodup : (submitted.map (·.hash)).Nodup)
    {found found' : SignedTransaction × UInt64 × UInt64} (hfound : chain.Holds hash found)
    (hfound' : chain.Holds hash found') : found = found' := by
  obtain ⟨n, block, i, hblock, htx, hhash, hplace⟩ := hfound
  obtain ⟨n', block', i', hblock', htx', hhash', hplace'⟩ := hfound'
  let f := fun block : EvmBlock => (block.transactions : Multiset SignedTransaction)
  have hsum := Column.sum_records_erase f hblock
  have hall : (((Column.records f chain.blocks).sum).map (·.hash)).Nodup := by
    refine Multiset.nodup_of_le (Multiset.map_le_map ((Multiset.le_add_right _ _).trans h.held)) ?_
    rw [Multiset.map_coe]
    exact Multiset.coe_nodup.mpr hnodup
  by_cases hn : n' = n
  · subst hn
    rw [hblock] at hblock'
    cases hblock'
    have hinside : (block.transactions.map (·.hash)).Nodup := by
      rw [← hsum, Multiset.map_add, Multiset.map_coe] at hall
      exact Multiset.coe_nodup.mp (Multiset.nodup_add.mp hall).1
    have hindex : i = i' := by
      obtain ⟨hi, -⟩ := List.getElem?_eq_some_iff.mp htx
      refine (List.getElem?_inj (by rwa [List.length_map]) hinside).mp ?_
      rw [List.getElem?_map, List.getElem?_map, htx, htx', Option.map_some, Option.map_some, hhash,
        hhash']
    subst hindex
    rw [htx] at htx'
    exact Prod.ext (Option.some.inj htx') (hplace.trans hplace'.symm)
  · have hother : (chain.blocks.erase n).lookup n' = some block' := by
      rw [Finmap.lookup_erase_ne hn]
      exact hblock'
    rw [← hsum, ← Column.sum_records_erase f hother, Multiset.map_add, Multiset.map_add] at hall
    have hdisjoint := (Multiset.nodup_add.mp hall).2.2
    have hmem : hash ∈ (f block).map (·.hash) :=
      Multiset.mem_map.mpr ⟨found.1, Multiset.mem_coe.mpr (List.mem_of_getElem? htx), hhash⟩
    have hmem' : hash ∈ (f block').map (·.hash) :=
      Multiset.mem_map.mpr ⟨found'.1, Multiset.mem_coe.mpr (List.mem_of_getElem? htx'), hhash'⟩
    exact absurd (Multiset.mem_add.mpr (.inl hmem')) (Multiset.disjoint_left.mp hdisjoint hmem)

/-- So it does not matter in which order they are walked. -/
theorem getTransaction_order (h : chain.Filed submitted) (hnodup : (submitted.map (·.hash)).Nodup)
    (order order' : Column.KeyOrder UInt64 EvmBlock) (hash : B256) :
    chain.getTransaction order hash = chain.getTransaction order' hash := by
  have hsome : ∀ {order order' : Column.KeyOrder UInt64 EvmBlock} {found},
      chain.getTransaction order hash = some found →
      chain.getTransaction order' hash = some found := by
    intro order order' found hfound
    have hholds := holds_of_getTransaction hfound
    obtain ⟨found', hfound'⟩ := getTransaction_of_holds order' hholds
    rw [hfound', h.holds_unique hnodup hholds (holds_of_getTransaction hfound')]
  refine Option.ext fun found => ?_
  exact ⟨hsome, hsome⟩

end Filed

end EvmChain

/-! ## Runs -/

namespace Producing

variable {K : Curves} {C : Crypto} {config : ChainConfig} {ctx : TransactionContext}
  {p p' : Producing} {tx : SignedTransaction} {taken txs : List SignedTransaction}

/-- What the loop keeps, however much gas is used: what was taken is executed or goes back, and
what was executed has its receipt. -/
structure Shared (number : UInt64) (taken : List SignedTransaction) (p : Producing) : Prop where
  perm : (p.executedTxs ++ p.pending).Perm taken
  paired : Paired number p.executedTxs p.receipts

theorem shared_start (number : UInt64) (state : StateDB) : Shared number [] (.start state) :=
  ⟨List.Perm.refl _, ⟨rfl, fun _ _ _ h => (by cases h)⟩⟩

theorem Shared.turn (h : Shared ctx.blockNumber taken p)
    (hturn : p.turn K C config ctx tx = some p') :
    Shared ctx.blockNumber (taken ++ [tx]) p' := by
  unfold Producing.turn at hturn
  split at hturn
  · cases hturn
    refine ⟨?_, h.paired⟩
    show (p.executedTxs ++ (p.pending ++ [tx])).Perm _
    rw [← List.append_assoc]
    exact h.perm.append_right _
  · obtain ⟨⟨state, result⟩, -, rfl⟩ := Option.map_eq_some_iff.mp hturn
    refine ⟨?_, h.paired.snoc rfl rfl rfl rfl rfl⟩
    show (p.executedTxs ++ [tx] ++ p.pending).Perm _
    rw [List.append_assoc]
    refine (List.perm_append_comm.append_left p.executedTxs).trans ?_
    rw [← List.append_assoc]
    exact h.perm.append_right _

theorem Shared.drain (h : Shared ctx.blockNumber taken p)
    (hdrain : p.drain K C config ctx txs = some p') :
    Shared ctx.blockNumber (taken ++ txs) p' := by
  induction txs generalizing p taken with
  | nil =>
    cases hdrain
    rw [List.append_nil]
    exact h
  | cons tx txs ih =>
    obtain ⟨p₁, hturn, hdrain⟩ := Option.bind_eq_some_iff.mp hdrain
    have hnext := ih (h.turn hturn) hdrain
    rwa [List.append_assoc, List.singleton_append] at hnext

end Producing

namespace ChainOp

open EvmChain

variable {K : Curves} {C : Crypto} {chain chain' : EvmChain} {submitted : List SignedTransaction}

/-- The transactions given to `submit_transaction`. -/
def submissions (ops : List ChainOp) : List SignedTransaction :=
  ops.flatMap fun
    | submitTransaction tx => [tx]
    | produceNextBlock _ => []

theorem filed_new (config : ChainConfig) (coinbase : Address) (timestamp : UInt64) :
    (EvmChain.new config coinbase timestamp).Filed [] := by
  refine ⟨fun n block hblock => ?_, fun n block hblock => ?_, ?_⟩
  · obtain ⟨rfl, rfl⟩ := getBlock_new hblock
    rfl
  · obtain ⟨-, rfl⟩ := getBlock_new hblock
    exact ⟨⟨rfl, fun _ _ _ h => (by cases h)⟩, fun _ h => absurd h List.not_mem_nil⟩
  · exact Multiset.le_iff_exists_add.mpr ⟨0, rfl⟩

/-- **One call.** -/
theorem filed_apply {op : ChainOp} (h : chain.Filed submitted)
    (happly : op.apply K C chain = some chain') :
    chain'.Filed (submitted ++ submissions [op]) := by
  cases op with
  | submitTransaction tx =>
    have hmore : (submitted : Multiset SignedTransaction)
        ≤ (submitted ++ [tx] : List SignedTransaction) :=
      Multiset.coe_le.mpr (List.sublist_append_left _ _).subperm
    rcases apply_submit happly with rfl | rfl
    · exact ⟨h.numbered, h.paired, h.held.trans hmore⟩
    · refine ⟨h.numbered, h.paired, ?_⟩
      show _ + ((chain.producer.pendingTransactions ++ [tx] : List SignedTransaction) :
        Multiset SignedTransaction) ≤ (submitted ++ [tx] : List SignedTransaction)
      rw [← Multiset.coe_add, ← Multiset.coe_add, ← add_assoc]
      exact Multiset.add_le_add_right h.held
  | produceNextBlock now =>
    have hsubmissions : submitted ++ submissions [produceNextBlock now] = submitted :=
      List.append_nil _
    rw [hsubmissions]
    cases hlatest : chain.latestBlock with
    | none =>
      rw [apply_produce_of_none hlatest happly]
      exact h
    | some parent =>
      obtain ⟨baseFee, p, hfee, hdrain, hchain'⟩ := apply_produce hlatest happly
      have hshared := (Producing.shared_start _ chain.state).drain hdrain
      rw [List.nil_append] at hshared
      let block := BlockProducer.sealBlock C chain.producer.config parent
        (chain.producer.context parent now baseFee) (p.state.commit C).stateRoot p
      have hget : ∀ n b, chain'.getBlock n = some b →
          chain.getBlock n = some b ∨ n = block.header.number ∧ b = block := by
        intro n b hb
        rw [hchain'] at hb
        unfold EvmChain.getBlock at hb
        by_cases hn : n = block.header.number
        · rw [hn, Finmap.lookup_insert] at hb
          exact .inr ⟨hn, (Option.some.inj hb).symm⟩
        · rw [Finmap.lookup_insert_of_ne _ hn] at hb
          exact .inl hb
      refine ⟨fun n b hb => ?_, fun n b hb => ?_, ?_⟩
      · rcases hget n b hb with hold | ⟨rfl, rfl⟩
        · exact h.numbered n b hold
        · rfl
      · rcases hget n b hb with hold | ⟨-, rfl⟩
        · exact h.paired n b hold
        · refine ⟨hshared.paired.rehash _, fun receipt hreceipt => ?_⟩
          obtain ⟨old, -, rfl⟩ := List.mem_map.mp hreceipt
          rfl
      · have hpool : (p.executedTxs : Multiset SignedTransaction) + p.pending
            = chain.producer.pendingTransactions := by
          rw [Multiset.coe_add]
          exact Multiset.coe_eq_coe.mpr hshared.perm
        have hstored := Column.sum_records_insert_le
          (fun block => (block.transactions : Multiset SignedTransaction)) chain.blocks
          block.header.number block
        rw [hchain']
        refine (Multiset.add_le_add_right hstored).trans ?_
        show (p.executedTxs : Multiset SignedTransaction) + _ + p.pending ≤ _
        rw [add_right_comm, hpool, add_comm]
        exact h.held

theorem filed_run {config : ChainConfig} {coinbase : Address} {timestamp : UInt64}
    {ops : List ChainOp} (hrun : run K C (.new config coinbase timestamp) ops = some chain) :
    chain.Filed (submissions ops) := by
  induction ops using List.reverseRecOn generalizing chain with
  | nil =>
    cases hrun
    exact filed_new config coinbase timestamp
  | append_singleton ops op ih =>
    rw [run_snoc] at hrun
    obtain ⟨before, hbefore, happly⟩ := Option.bind_eq_some_iff.mp hrun
    rw [show submissions (ops ++ [op]) = submissions ops ++ submissions [op] from
      List.flatMap_append]
    exact filed_apply (ih hbefore) happly

/-- In every run of transactions that carry their own hashes, a state is identified exactly when
no two transactions that it includes are ambiguous. So it is if no two submitted ones are; and
then, with no hash submitted twice, the lookups agree in any two orders. -/
theorem identified_iff (K : Curves) (C : Crypto) (config : ChainConfig) (coinbase : Address)
    (timestamp : UInt64) (ops : List ChainOp)
    (hcollision : ∀ t₁ ∈ submissions ops, ∀ t₂ ∈ submissions ops,
      C.blake3 t₁.transaction.preimage = C.blake3 t₂.transaction.preimage →
      t₁.transaction.preimage = t₂.transaction.preimage)
    (hown : ∀ tx ∈ submissions ops, tx.hash = tx.transaction.hash C) :
    ∀ pre, pre <+: ops → ∀ chain, run K C (.new config coinbase timestamp) pre = some chain →
      (chain.Identified ↔
        ∀ t₁ t₂, chain.Includes t₁ → chain.Includes t₂ → ¬ t₁.Ambiguous t₂) ∧
      ((∀ t₁ ∈ submissions ops, ∀ t₂ ∈ submissions ops, ¬ t₁.Ambiguous t₂) → chain.Identified) ∧
      (((submissions ops).map (·.hash)).Nodup → ∀ order order' hash,
        Option.Rel chain.SamePlace (chain.getTransaction order hash)
          (chain.getReceipt order' hash)) := by
  intro pre hpre chain hrun
  have hfiled := filed_run hrun
  obtain ⟨post, rfl⟩ := hpre
  have hall : submissions (pre ++ post) = submissions pre ++ submissions post :=
    List.flatMap_append
  have hmem : ∀ tx, chain.Includes tx → tx ∈ submissions (pre ++ post) := by
    intro tx htx
    rw [hall]
    exact List.mem_append_left _ (hfiled.mem_submitted htx)
  have hpair : ∀ t₁ t₂, chain.Includes t₁ → chain.Includes t₂ →
      (t₁.Differ t₂ ∧ t₁.hash = t₂.hash ↔ t₁.Ambiguous t₂) := by
    intro t₁ t₂ h₁ h₂
    exact SignedTransaction.differ_and_hash_iff (hown t₁ (hmem t₁ h₁)) (hown t₂ (hmem t₂ h₂))
      (hcollision t₁ (hmem t₁ h₁) t₂ (hmem t₂ h₂))
  have hiff : chain.Identified ↔
      ∀ t₁ t₂, chain.Includes t₁ → chain.Includes t₂ → ¬ t₁.Ambiguous t₂ := by
    constructor
    · intro h t₁ t₂ h₁ h₂ hambiguous
      obtain ⟨hdiffer, hsame⟩ := (hpair t₁ t₂ h₁ h₂).mpr hambiguous
      exact h.distinct t₁ t₂ h₁ h₂ hdiffer hsame
    · intro h
      exact ⟨fun t₁ t₂ h₁ h₂ hdiffer hsame => h t₁ t₂ h₁ h₂ ((hpair t₁ t₂ h₁ h₂).mp ⟨hdiffer, hsame⟩),
        hfiled.lookups⟩
  refine ⟨hiff, fun hclear => ?_, fun hnodup order order' hash => ?_⟩
  · exact hiff.mpr fun t₁ t₂ h₁ h₂ => hclear t₁ (hmem t₁ h₁) t₂ (hmem t₂ h₂)
  · have hbefore : ((submissions pre).map (·.hash)).Nodup := by
      rw [hall, List.map_append] at hnodup
      exact hnodup.of_append_left
    rw [hfiled.getTransaction_order hbefore order order' hash]
    exact hfiled.lookups order' hash

/-! ## One transaction, two senders -/

/-- The hashes of two free transfers, and the digests of a block of both: of the sender's account,
the transactions, the receipts and the header. -/
def transferHash (nonce : UInt64) : H256 :=
  if nonce = 0 then H256.ofNatBE 0xd595f45dba0393861fcdc9c26a1a80587f086ff52aa91abdfb335bf97af84a77
  else H256.ofNatBE 0x43109ff4c7eb4627a3e0080e78e180dfabca6ea9808ad2bf9a8b2eb3e438ad39

def transfersRoot : H256 :=
  H256.ofNatBE 0xb66df4cac0ec6b0f72321759757e756135ed7ff98f67b09cc4b70cdeb2b4c30b

def transfersTransactions : H256 :=
  H256.ofNatBE 0x4cb2eb95b7d710fe233025f9a8ac2390032cb4401b8917caca42f107d7c7a3ce

def identityCrypto : Crypto := Crypto.ofTable
  [((freeTransfer 0).transaction.preimage, transferHash 0),
    ((freeTransfer 1).transaction.preimage, transferHash 1),
    (List.replicate 20 1 ++ Word.toBeBytes 2 ++ List.replicate 32 0 ++ EMPTY_CODE_HASH.toList,
      transfersRoot),
    ((transferHash 0).asBytes ++ (transferHash 1).asBytes, transfersTransactions),
    ((transferHash 0).asBytes ++ [1] ++ Word.toBeBytes 21000 ++
        (transferHash 1).asBytes ++ [1] ++ Word.toBeBytes 42000,
      H256.ofNatBE 0xcb7303c550523650eb122f59877c73a839916dc4b32280792a6437fab3847a39),
    (Word.toBeBytes 1 ++ List.replicate 32 0 ++ transfersRoot.asBytes ++
        transfersTransactions.asBytes ++ Word.toBeBytes 10,
      H256.ofNatBE 0xed2d06f77ef75d996c3fc7aeec638c14ad55cf437f66dfc104ffd29f8fa00019)]

def transferBy (sender : Address) (nonce : UInt64) : SignedTransaction :=
  .new identityCrypto (freeTransfer nonce).transaction sender

/-- Two transfers of one sender have two hashes. -/
theorem identified_two_transfers :
    let ops := [submitTransaction (transferBy (Vector.replicate 20 1) 0),
      submitTransaction (transferBy (Vector.replicate 20 1) 1), produceNextBlock 10]
    ((run .none identityCrypto freeChain ops).bind (·.getBlock 1)).map (·.header.hash)
        = some (H256.ofNatBE 0xed2d06f77ef75d996c3fc7aeec638c14ad55cf437f66dfc104ffd29f8fa00019).bytes ∧
      ∀ chain, run .none identityCrypto freeChain ops = some chain → chain.Identified := by
  intro ops
  refine ⟨by decide +kernel, fun chain hrun => ?_⟩
  refine (identified_iff .none identityCrypto _ _ _ ops ?_ ?_ ops List.prefix_rfl chain hrun).2.1 ?_
  · decide +kernel
  · decide +kernel
  · intro t₁ h₁ t₂ h₂ hambiguous
    have hscalars : ∀ t ∈ submissions ops, ∀ t' ∈ submissions ops,
        t.transaction.scalars = t'.transaction.scalars → t = t' := by decide +kernel
    cases hscalars t₁ h₁ t₂ h₂ hambiguous.1
    rcases hambiguous.2 with h | h | h
    · exact h.2.elim (absurd rfl) (absurd rfl)
    · exact absurd (h.isSome.2 ▸ h.isSome.1) nofun
    · exact absurd (h.isSome.2 ▸ h.isSome.1) nofun

/-- A transfer by two senders is two transactions in a block, with one hash. -/
theorem sender_not_hashed :
    let first := transferBy (Vector.replicate 20 1) 0
    let second := transferBy (Vector.replicate 20 2) 0
    ((run .none identityCrypto freeChain [submitTransaction first, submitTransaction second,
        produceNextBlock 10]).bind (·.getBlock 1)).map (·.transactions) = some [first, second] ∧
      first.sender ≠ second.sender ∧ first.hash = second.hash := by
  decide +kernel

end ChainOp

end Pyrax.Evm
