import Pyrax.Bridge.Backing

/-!
# No request loses its record

Every `lock_utxo` and `burn_for_utxo` that succeeds should have its own record in
`conversions`, and every record of a lock its own entry in `locked_utxos`, for the
same amount and recipient (`Matched`).

The record goes under an id hashed from the source transaction, the source address,
the amount and a clock of whole seconds. The outpoint and the recipient are left
out, and `insert` asks nothing. So two outputs of one lock transaction, equal in
amount and owner and locked in the same second, share an id, and the second record
replaces the first. This is the only way to lose one (`matched_iff`).
-/

namespace Pyrax.Bridge

open Base

namespace ConversionRequest

/-- The request the record started as. -/
def origin (c : ConversionRequest) : ConversionRequest :=
  { c with status := .pending, confirmations := 0, destinationTxHash := none, completedAt := none }

/-- What a request asks for. -/
def asked (c : ConversionRequest) : H256 × UInt64 × Address × Vector UInt8 20 :=
  (c.sourceTxHash, c.amount, c.sourceAddress, c.destinationAddress)

end ConversionRequest

/-- What a locked UTXO was locked for. -/
def LockedUtxo.asked (l : LockedUtxo) : H256 × UInt64 × Address × Vector UInt8 20 :=
  (l.lockTxHash, l.amount, l.utxoOwner, l.evmRecipient)

namespace DualStateOp

open ConversionRequest DualStateBridge

/-- The request that a call makes: what stands under the id it returns. -/
def opened (C : Crypto) (s : DualStateBridge) : DualStateOp → Option ConversionRequest
  | lock idAt createdAt lockedAt outpoint lockTxHash amount utxoOwner evmRecipient =>
    match s.lockUtxo C idAt createdAt lockedAt outpoint lockTxHash amount utxoOwner
      evmRecipient with
    | .ok (s', conversionId) => s'.conversions.lookup conversionId
    | .error _ => none
  | burn idAt createdAt burnTxHash amount evmBurner utxoRecipient =>
    match s.burnForUtxo C idAt createdAt burnTxHash amount evmBurner utxoRecipient with
    | .ok (s', conversionId) => s'.conversions.lookup conversionId
    | .error _ => none
  | updateHeights .. | processConfirmations .. | getNextReady | completeMint ..
  | completeUnlock .. | pause | resume | emergencyStop => none

/-- The requests made along a run, one for each successful call. -/
def requests (C : Crypto) (s : DualStateBridge) : List DualStateOp → List ConversionRequest
  | [] => []
  | op :: ops => (op.opened C s).toList ++ requests C (op.apply C s) ops

/-- After the run the records are the requests made, one each, and the locked UTXOs
are the records of locks, one each. -/
structure Matched (C : Crypto) (ops : List DualStateOp) : Prop where
  recorded : Column.records origin (run C DualStateBridge.new ops).conversions
    = ↑(requests C DualStateBridge.new ops)
  locked : Column.records LockedUtxo.asked (run C DualStateBridge.new ops).lockedUtxos
    = ((Column.records origin (run C DualStateBridge.new ops).conversions).filter
        fun c => c.direction = .utxoToAccount).map ConversionRequest.asked

/-- The call makes no request under an id that has a record. -/
def Opens (C : Crypto) (s : DualStateBridge) : DualStateOp → Prop
  | lock idAt _ _ outpoint lockTxHash amount utxoOwner _ =>
    s.AcceptsLock outpoint amount → generateId C idAt lockTxHash utxoOwner amount ∉ s.conversions
  | burn idAt _ burnTxHash amount evmBurner _ =>
    s.AcceptsBurn amount → generateId C idAt burnTxHash ⟨evmBurner⟩ amount ∉ s.conversions
  | updateHeights .. | processConfirmations .. | getNextReady | completeMint ..
  | completeUnlock .. | pause | resume | emergencyStop => True

end DualStateOp

/-! ## One call -/

namespace ConversionRequest

variable {C : Crypto} {idAt createdAt amount requestHeight required : UInt64}
  {direction : ConversionDirection} {sourceAddress : Address}
  {destinationAddress : Vector UInt8 20} {sourceTxHash : H256} {r : ConversionRequest}

/-- A request as it is made is its own origin, and asks for what the call says. -/
theorem origin_of_new (h : new C idAt createdAt direction amount sourceAddress destinationAddress
    sourceTxHash requestHeight required = .ok r) :
    r.origin = r ∧ r.asked = (sourceTxHash, amount, sourceAddress, destinationAddress) := by
  unfold new at h
  split at h
  · cases h
  split at h
  · cases h
  cases h
  exact ⟨rfl, rfl⟩

/-- Completing a conversion keeps its origin. -/
theorem origin_completed (c : ConversionRequest) (now : UInt64) (hash : H256) :
    (c.markProcessing.markCompleted now hash).origin = c.origin := by
  unfold markProcessing
  split
  · rfl
  · rfl

theorem origin_updateConfirmations (c : ConversionRequest) (height : UInt64) :
    (c.updateConfirmations height).origin = c.origin := by
  unfold updateConfirmations
  split
  · rfl
  · rfl

theorem origin_confirm (c : ConversionRequest) (utxoHeight evmHeight : UInt64) :
    (c.confirm utxoHeight evmHeight).origin = c.origin := by
  unfold confirm
  split
  · exact c.origin_updateConfirmations _
  · rfl

end ConversionRequest

namespace DualStateBridge

open ConversionRequest

variable {C : Crypto} {s s' : DualStateBridge} {outpoint : OutPoint}
  {lockTxHash burnTxHash unlockTxHash conversionId : H256} {utxoOwner utxoRecipient : Address}
  {evmRecipient evmBurner : Vector UInt8 20} {mintTxHash : Vector UInt8 32}
  {idAt createdAt lockedAt mintedAt completedAt amount mintBlock : UInt64}

/-- What a lock puts into the two maps. -/
theorem lockUtxo_opens (h : s.lockUtxo C idAt createdAt lockedAt outpoint lockTxHash amount
    utxoOwner evmRecipient = .ok (s', conversionId)) :
    ∃ (r : ConversionRequest) (l : LockedUtxo),
      conversionId = generateId C idAt lockTxHash utxoOwner amount ∧ r.origin = r ∧
      r.direction = .utxoToAccount ∧ l.asked = r.asked ∧
      s'.conversions = s.conversions.insert conversionId r ∧
      s'.lockedUtxos = s.lockedUtxos.insert outpoint l := by
  unfold lockUtxo at h
  split at h
  · cases h
  split at h
  · cases h
  split at h
  · cases h
  next r hr =>
  cases h
  obtain ⟨_, hid, hfresh⟩ := new_ok hr
  obtain ⟨horigin, hasked⟩ := origin_of_new hr
  refine ⟨r, _, hid, horigin, hfresh.direction, ?_, rfl, rfl⟩
  rw [hasked]
  rfl

theorem burnForUtxo_opens (h : s.burnForUtxo C idAt createdAt burnTxHash amount evmBurner
    utxoRecipient = .ok (s', conversionId)) :
    ∃ r : ConversionRequest,
      conversionId = generateId C idAt burnTxHash ⟨evmBurner⟩ amount ∧ r.origin = r ∧
      r.direction = .accountToUtxo ∧ s'.conversions = s.conversions.insert conversionId r ∧
      s'.lockedUtxos = s.lockedUtxos := by
  unfold burnForUtxo at h
  split at h
  · cases h
  split at h
  · cases h
  next r hr =>
  cases h
  obtain ⟨_, hid, hfresh⟩ := new_ok hr
  exact ⟨r, hid, (origin_of_new hr).1, hfresh.direction, rfl, rfl⟩

theorem completeMint_records (h : s.completeMint mintedAt completedAt conversionId mintTxHash
    mintBlock = .ok s') :
    Column.records origin s'.conversions = Column.records origin s.conversions ∧
      s'.lockedUtxos = s.lockedUtxos := by
  obtain ⟨c, hc, _, hconversions, _⟩ := completeMint_ok h
  refine ⟨?_, ?_⟩
  · rw [hconversions]
    exact Column.records_insert_same origin hc (c.origin_completed _ _)
  · unfold completeMint at h
    split at h
    · cases h
    split at h
    · cases h
    cases h
    rfl

theorem completeUnlock_records (h : s.completeUnlock completedAt conversionId unlockTxHash
    = .ok s') :
    Column.records origin s'.conversions = Column.records origin s.conversions ∧
      s'.lockedUtxos = s.lockedUtxos := by
  obtain ⟨c, hc, _, hconversions, _⟩ := completeUnlock_ok h
  refine ⟨?_, ?_⟩
  · rw [hconversions]
    exact Column.records_insert_same origin hc (c.origin_completed _ _)
  · unfold completeUnlock at h
    split at h
    · cases h
    split at h
    · cases h
    cases h
    rfl

theorem processConfirmations_records (s : DualStateBridge) (order : ConversionOrder) :
    Column.records origin (s.processConfirmations order).conversions
      = Column.records origin s.conversions :=
  Column.records_mapValues fun _ c _ => c.origin_confirm s.utxoHeight s.evmHeight

end DualStateBridge

namespace DualStateOp

open ConversionRequest DualStateBridge

variable {C : Crypto} {s : DualStateBridge} {op : DualStateOp} {pre ops : List DualStateOp}

/-- A call that makes no request leaves the records and the locked UTXOs. -/
theorem records_apply (h : op.opened C s = none) :
    Column.records origin (op.apply C s).conversions = Column.records origin s.conversions ∧
      (op.apply C s).lockedUtxos = s.lockedUtxos := by
  cases op with
  | lock idAt createdAt lockedAt outpoint lockTxHash amount utxoOwner evmRecipient =>
    rw [opened] at h
    split at h
    · next s' conversionId hok =>
      obtain ⟨r, _, _, _, _, _, hconversions, _⟩ := lockUtxo_opens hok
      rw [hconversions, Finmap.lookup_insert] at h
      cases h
    · next hrefused =>
      rw [apply, hrefused]
      exact ⟨rfl, rfl⟩
  | burn idAt createdAt burnTxHash amount evmBurner utxoRecipient =>
    rw [opened] at h
    split at h
    · next s' conversionId hok =>
      obtain ⟨r, _, _, _, hconversions, _⟩ := burnForUtxo_opens hok
      rw [hconversions, Finmap.lookup_insert] at h
      cases h
    · next hrefused =>
      rw [apply, hrefused]
      exact ⟨rfl, rfl⟩
  | completeMint mintedAt completedAt conversionId mintTxHash mintBlock =>
    rw [apply]
    split
    · next s' hok => exact completeMint_records hok
    · exact ⟨rfl, rfl⟩
  | completeUnlock completedAt conversionId unlockTxHash =>
    rw [apply]
    split
    · next s' hok => exact completeUnlock_records hok
    · exact ⟨rfl, rfl⟩
  | processConfirmations order => exact ⟨processConfirmations_records s order, rfl⟩
  | updateHeights => exact ⟨rfl, rfl⟩
  | getNextReady => exact ⟨rfl, rfl⟩
  | pause => exact ⟨rfl, rfl⟩
  | resume => exact ⟨rfl, rfl⟩
  | emergencyStop => exact ⟨rfl, rfl⟩

/-- What a call that makes the request `r` does: the record goes under one id, free
exactly when the call opens one, and a lock has its own UTXO. -/
theorem apply_of_opened {r : ConversionRequest} (h : op.opened C s = some r) :
    ∃ conversionId, (op.Opens C s ↔ conversionId ∉ s.conversions) ∧ r.origin = r ∧
      (op.apply C s).conversions = s.conversions.insert conversionId r ∧
      ((r.direction = .utxoToAccount ∧
          Column.records LockedUtxo.asked (op.apply C s).lockedUtxos
            = r.asked ::ₘ Column.records LockedUtxo.asked s.lockedUtxos) ∨
        (r.direction ≠ .utxoToAccount ∧ (op.apply C s).lockedUtxos = s.lockedUtxos)) := by
  cases op with
  | lock idAt createdAt lockedAt outpoint lockTxHash amount utxoOwner evmRecipient =>
    rw [opened] at h
    split at h
    · next s' conversionId hok =>
      rw [apply, hok]
      obtain ⟨haccepts, _⟩ := lockUtxo_ok hok
      obtain ⟨r', l, hid, horigin, hdirection, hasked, hconversions, hlocked⟩ := lockUtxo_opens hok
      rw [hconversions, Finmap.lookup_insert] at h
      cases h
      refine ⟨conversionId, ?_, horigin, hconversions, .inl ⟨hdirection, ?_⟩⟩
      · rw [hid]
        exact ⟨fun hopens => hopens haccepts, fun hfree _ => hfree⟩
      · show Column.records _ s'.lockedUtxos = _
        rw [hlocked, Column.records_insert_of_notMem _ _ haccepts.2.1, hasked]
    · cases h
  | burn idAt createdAt burnTxHash amount evmBurner utxoRecipient =>
    rw [opened] at h
    split at h
    · next s' conversionId hok =>
      rw [apply, hok]
      obtain ⟨haccepts, _⟩ := burnForUtxo_ok hok
      obtain ⟨r', hid, horigin, hdirection, hconversions, hlocked⟩ := burnForUtxo_opens hok
      rw [hconversions, Finmap.lookup_insert] at h
      cases h
      refine ⟨conversionId, ?_, horigin, hconversions, .inr ⟨?_, hlocked⟩⟩
      · rw [hid]
        exact ⟨fun hopens => hopens haccepts, fun hfree _ => hfree⟩
      · simp [hdirection]
    · cases h
  | completeMint => cases h
  | completeUnlock => cases h
  | processConfirmations => cases h
  | updateHeights => cases h
  | getNextReady => cases h
  | pause => cases h
  | resume => cases h
  | emergencyStop => cases h

/-- A call that makes no request has nothing to overwrite. -/
theorem opens_of_not_opened (h : op.opened C s = none) : op.Opens C s := by
  cases op with
  | lock idAt createdAt lockedAt outpoint lockTxHash amount utxoOwner evmRecipient =>
    intro haccepts
    obtain ⟨s', conversionId, hok⟩ := exists_lockUtxo haccepts
    obtain ⟨r, _, _, _, _, _, hconversions, _⟩ := lockUtxo_opens hok
    have hnone : s'.conversions.lookup conversionId = none := by
      rw [opened, hok] at h
      exact h
    rw [hconversions, Finmap.lookup_insert] at hnone
    cases hnone
  | burn idAt createdAt burnTxHash amount evmBurner utxoRecipient =>
    intro haccepts
    obtain ⟨s', conversionId, hok⟩ := exists_burnForUtxo haccepts
    obtain ⟨r, _, _, _, hconversions, _⟩ := burnForUtxo_opens hok
    have hnone : s'.conversions.lookup conversionId = none := by
      rw [opened, hok] at h
      exact h
    rw [hconversions, Finmap.lookup_insert] at hnone
    cases hnone
  | completeMint => trivial
  | completeUnlock => trivial
  | processConfirmations => trivial
  | updateHeights => trivial
  | getNextReady => trivial
  | pause => trivial
  | resume => trivial
  | emergencyStop => trivial

/-! ## Runs -/

theorem requests_snoc (C : Crypto) (s : DualStateBridge) (ops : List DualStateOp)
    (op : DualStateOp) :
    requests C s (ops ++ [op]) = requests C s ops ++ (op.opened C (run C s ops)).toList := by
  induction ops generalizing s with
  | nil => exact List.append_nil _
  | cons first ops ih =>
    show (first.opened C s).toList ++ requests C (first.apply C s) (ops ++ [op]) = _
    rw [ih, ← List.append_assoc]
    rfl

theorem matched_nil (C : Crypto) : Matched C [] := ⟨rfl, rfl⟩

/-- **One more call** keeps the records matched exactly when it overwrites none. -/
theorem matched_snoc (h : Matched C pre) :
    Matched C (pre ++ [op]) ↔ op.Opens C (run C DualStateBridge.new pre) := by
  generalize hs : run C DualStateBridge.new pre = s at *
  have hrun : run C DualStateBridge.new (pre ++ [op]) = op.apply C s := by
    rw [run_snoc, hs]
  have hrequests := requests_snoc C DualStateBridge.new pre op
  rw [hs] at hrequests
  have hrecorded := h.recorded
  have hlocked := h.locked
  rw [hs] at hrecorded hlocked
  cases hopened : op.opened C s with
  | none =>
    obtain ⟨hsame, hlockedSame⟩ := records_apply hopened
    refine iff_of_true ⟨?_, ?_⟩ (opens_of_not_opened hopened)
    · rw [hrun, hsame, hrecorded, hrequests, hopened, Option.toList_none, List.append_nil]
    · rw [hrun, hsame, hlockedSame, hlocked]
  | some r =>
    obtain ⟨conversionId, hopens, horigin, hconversions, hutxo⟩ := apply_of_opened hopened
    rw [hopens]
    rw [hopened, Option.toList_some] at hrequests
    constructor
    · intro h' hmem
      -- over a record the number of records stays, and there is one request more
      obtain ⟨c, hc⟩ := Finmap.mem_iff.mp hmem
      have hreplaced := congrArg Multiset.card (Column.records_replace origin hc r)
      have hrecorded' := congrArg Multiset.card h'.recorded
      rw [hrun, hconversions, hrequests, Multiset.coe_card, List.length_append] at hrecorded'
      rw [hrecorded, Multiset.card_cons, Multiset.card_cons, Multiset.coe_card] at hreplaced
      rw [List.length_singleton] at hrecorded'
      omega
    · intro hfree
      have hcons : Column.records origin (op.apply C s).conversions
          = r ::ₘ Column.records origin s.conversions := by
        rw [hconversions, Column.records_insert_of_notMem _ _ hfree, horigin]
      refine ⟨?_, ?_⟩
      · rw [hrun, hcons, hrecorded, hrequests, Multiset.cons_coe, Multiset.coe_eq_coe]
        exact (List.perm_append_singleton r _).symm
      · rw [hrun, hcons]
        rcases hutxo with ⟨hdirection, hlock⟩ | ⟨hdirection, hnone⟩
        · rw [hlock, Multiset.filter_cons_of_pos (a := r) _ hdirection, Multiset.map_cons, hlocked]
        · rw [hnone, Multiset.filter_cons_of_neg (a := r) _ hdirection, hlocked]

/-- **No record is lost.** After every call of a run the records are the requests made
and the locked UTXOs the records of locks, one for one, exactly when no call makes a
request under an id that has a record. -/
theorem matched_iff (C : Crypto) (ops : List DualStateOp) :
    (∀ pre, pre <+: ops → Matched C pre) ↔
      ∀ pre op, pre ++ [op] <+: ops → op.Opens C (run C DualStateBridge.new pre) :=
  forall_prefixes_iff (matched_nil C) fun _ _ _ h => matched_snoc h

/-- The second output of the same transaction, for another recipient, in the same
second. -/
def lockTenMore : DualStateOp :=
  .lock 1700000000 1700000000 1700000000 ⟨⟨Vector.replicate 32 1⟩, 1⟩ ⟨Vector.replicate 32 2⟩
    1000000000 ⟨Vector.replicate 20 1⟩ (Vector.replicate 20 3)

/-- Two UTXOs are locked, and one conversion is left. -/
theorem lock_overwritten :
    let s := run lockCrypto DualStateBridge.new [lockTen, lockTenMore]
    ¬ Matched lockCrypto [lockTen, lockTenMore] ∧
      (requests lockCrypto DualStateBridge.new [lockTen, lockTenMore]).length = 2 ∧
      s.conversions.keys.card = 1 ∧ s.lockedUtxos.keys.card = 2 ∧
      (s.conversions.lookup lockId).map (fun c => c.destinationAddress)
        = some (Vector.replicate 20 3) := by
  have hrequests : (requests lockCrypto DualStateBridge.new [lockTen, lockTenMore]).length = 2 := by
    decide +kernel
  have hrecords : (Column.records origin
      (run lockCrypto DualStateBridge.new [lockTen, lockTenMore]).conversions).card = 1 := by
    decide +kernel
  refine ⟨fun h => ?_, hrequests, by decide +kernel, by decide +kernel, by decide +kernel⟩
  have hcard := congrArg Multiset.card h.recorded
  rw [Multiset.coe_card, hrequests, hrecords] at hcard
  cases hcard

end DualStateOp

end Pyrax.Bridge
