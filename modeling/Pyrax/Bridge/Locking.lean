import Pyrax.Base.Locks
import Pyrax.Bridge.DualState

/-!
# The locks of the bridge

Every field of the bridge has a reader-writer lock of its own. A call is modelled
here as the sequence of its steps on these locks: a guard bound to a name is held to
the end of the function, a guard that is a temporary to the end of its statement, and
an assignment evaluates its right side first. In `stats` the guards are temporaries
of the tail expression, so all of them are held together.

Alone, a call leaves what `DualStateOp.apply` says (`alone_program`), with one
exception. `complete_unlock` assigns to a total under its write guard what it reads
under its read guard, in one statement: it waits for itself. Together, the calls take
their locks in one order, `conversions` before the rest, except for the pair
`process_confirmations` and `get_next_ready`, which take `conversions` and
`processing_queue` in opposite orders. `deadlockFree_iff`: nothing else deadlocks.
-/

namespace Pyrax.Bridge

open Base Base.Locks Word

inductive BridgeLock where
  | state
  | conversions
  | lockedUtxos
  | mintedBalances
  | processingQueue
  | totalLocked
  | totalMinted
  | totalFees
  | utxoHeight
  | evmHeight
  deriving DecidableEq

/-- A call that may run beside others. -/
inductive BridgeCall where
  | lockUtxo (idAt createdAt lockedAt : UInt64) (outpoint : OutPoint) (lockTxHash : H256)
      (amount : UInt64) (utxoOwner : Address) (evmRecipient : Vector UInt8 20)
  | burnForUtxo (idAt createdAt : UInt64) (burnTxHash : H256) (amount : UInt64)
      (evmBurner : Vector UInt8 20) (utxoRecipient : Address)
  | processConfirmations (order : ConversionOrder)
  | getNextReady
  | completeMint (mintedAt completedAt : UInt64) (conversionId : H256)
      (mintTxHash : Vector UInt8 32) (mintBlock : UInt64)
  | completeUnlock (completedAt : UInt64) (conversionId : H256) (unlockTxHash : H256)
  | stats

namespace DualStateBridge

def setConversion (id : H256) (c : ConversionRequest) (s : DualStateBridge) : DualStateBridge :=
  { s with conversions := s.conversions.insert id c }

/-- The confirmation pass at heights that were read before it. -/
def confirmAt (utxoHeight evmHeight : UInt64) (order : ConversionOrder) (s : DualStateBridge) :
    DualStateBridge :=
  { (s.updateHeights utxoHeight evmHeight).processConfirmations order with
    utxoHeight := s.utxoHeight
    evmHeight := s.evmHeight }

end DualStateBridge

/-- `*lock.write() = f(*lock.read())`: the read guard is a temporary of the right side and
lives as long as the write guard. -/
def reassign (l : BridgeLock) (f : DualStateBridge → DualStateBridge → DualStateBridge)
    (next : Program BridgeLock DualStateBridge) : Program BridgeLock DualStateBridge :=
  .acquire l .read <| .look fun seen =>
    .acquire l .write <| .update (f seen) <| .release l .write <| .release l .read next

namespace BridgeCall

open DualStateBridge

/-- The steps of `complete_unlock` from where it has found the burn. -/
def unlockBurn (completedAt : UInt64) (conversionId unlockTxHash : H256) (c : ConversionRequest) :
    Program BridgeLock DualStateBridge :=
  .update (setConversion conversionId c.markProcessing) <|
  reassign .totalMinted (fun seen s =>
    { s with totalMinted := saturatingSub seen.totalMinted c.amount }) <|
  reassign .totalLocked (fun seen s =>
    { s with totalLocked := saturatingSub seen.totalLocked c.netAmount }) <|
  .poke .totalFees (fun s => { s with totalFees := s.totalFees + c.fee }) <|
  .update (setConversion conversionId
    (c.markProcessing.markCompleted completedAt unlockTxHash)) <|
  .release .conversions .write .done

/-- The steps of a call. -/
def program (C : Crypto) : BridgeCall → Program BridgeLock DualStateBridge
  | lockUtxo idAt createdAt lockedAt outpoint lockTxHash amount utxoOwner evmRecipient =>
    .peek .state fun s =>
    match s.state with
    | .paused => .done
    | .stopped => .done
    | .active =>
      .peek .lockedUtxos fun s =>
      if outpoint ∈ s.lockedUtxos then .done
      else
        .peek .utxoHeight fun s =>
        match ConversionRequest.utxoToAccount C idAt createdAt lockTxHash amount utxoOwner
          evmRecipient s.utxoHeight with
        | .error _ => .done
        | .ok request =>
          let locked : LockedUtxo := {
            outpoint := outpoint
            lockTxHash := lockTxHash
            amount := amount
            utxoOwner := utxoOwner
            evmRecipient := evmRecipient
            lockHeight := s.utxoHeight
            confirmations := 0
            lockedAt := lockedAt
            unlocked := false }
          .poke .lockedUtxos (fun s =>
            { s with lockedUtxos := s.lockedUtxos.insert outpoint locked }) <|
          .poke .conversions (setConversion request.id request) <|
          .poke .totalLocked (fun s => { s with totalLocked := s.totalLocked + amount }) .done
  | burnForUtxo idAt createdAt burnTxHash amount evmBurner utxoRecipient =>
    .peek .state fun s =>
    match s.state with
    | .paused => .done
    | .stopped => .done
    | .active =>
      .peek .evmHeight fun s =>
      match ConversionRequest.accountToUtxo C idAt createdAt burnTxHash amount evmBurner
        utxoRecipient s.evmHeight with
      | .error _ => .done
      | .ok request => .poke .conversions (setConversion request.id request) .done
  | processConfirmations order =>
    .peek .utxoHeight fun s₁ => .peek .evmHeight fun s₂ =>
    .acquire .conversions .write <| .acquire .processingQueue .write <|
    .update (confirmAt s₁.utxoHeight s₂.evmHeight order) <|
    .release .processingQueue .write <| .release .conversions .write .done
  | getNextReady =>
    .acquire .processingQueue .write <| .acquire .conversions .read <|
    .update (fun s => s.getNextReady.1) <|
    .release .conversions .read <| .release .processingQueue .write .done
  | completeMint mintedAt completedAt conversionId mintTxHash mintBlock =>
    .acquire .conversions .write <| .look fun s =>
    match s.conversions.lookup conversionId with
    | none => .release .conversions .write .done
    | some c =>
      if c.direction ≠ .utxoToAccount then .release .conversions .write .done
      else
        let minted : MintedBalance := {
          conversionId := conversionId
          recipient := c.destinationAddress
          amount := c.netAmount
          mintTxHash := mintTxHash
          mintBlock := mintBlock
          mintedAt := mintedAt
          burned := false }
        .update (setConversion conversionId c.markProcessing) <|
        .poke .mintedBalances (fun s =>
          { s with mintedBalances := s.mintedBalances.insert conversionId minted }) <|
        .poke .totalMinted (fun s => { s with totalMinted := s.totalMinted + c.netAmount }) <|
        .poke .totalFees (fun s => { s with totalFees := s.totalFees + c.fee }) <|
        .update (setConversion conversionId
          (c.markProcessing.markCompleted completedAt ⟨mintTxHash⟩)) <|
        .release .conversions .write .done
  | completeUnlock completedAt conversionId unlockTxHash =>
    .acquire .conversions .write <| .look fun s =>
    match s.conversions.lookup conversionId with
    | none => .release .conversions .write .done
    | some c =>
      if c.direction ≠ .accountToUtxo then .release .conversions .write .done
      else unlockBurn completedAt conversionId unlockTxHash c
  | stats =>
    .acquire .conversions .read <| .acquire .state .read <| .acquire .totalLocked .read <|
    .acquire .totalMinted .read <| .acquire .totalFees .read <| .acquire .utxoHeight .read <|
    .acquire .evmHeight .read <|
    -- the local guard is dropped before the temporaries of the tail expression
    .release .conversions .read <| .release .evmHeight .read <| .release .utxoHeight .read <|
    .release .totalFees .read <| .release .totalMinted .read <| .release .totalLocked .read <|
    .release .state .read .done

/-- The same call on the bridge as a whole; `stats` changes nothing. -/
def apply (C : Crypto) (s : DualStateBridge) : BridgeCall → DualStateBridge
  | lockUtxo idAt createdAt lockedAt outpoint lockTxHash amount utxoOwner evmRecipient =>
    (DualStateOp.lock idAt createdAt lockedAt outpoint lockTxHash amount utxoOwner
      evmRecipient).apply C s
  | burnForUtxo idAt createdAt burnTxHash amount evmBurner utxoRecipient =>
    (DualStateOp.burn idAt createdAt burnTxHash amount evmBurner utxoRecipient).apply C s
  | processConfirmations order => (DualStateOp.processConfirmations order).apply C s
  | getNextReady => DualStateOp.getNextReady.apply C s
  | completeMint mintedAt completedAt conversionId mintTxHash mintBlock =>
    (DualStateOp.completeMint mintedAt completedAt conversionId mintTxHash mintBlock).apply C s
  | completeUnlock completedAt conversionId unlockTxHash =>
    (DualStateOp.completeUnlock completedAt conversionId unlockTxHash).apply C s
  | stats => s

/-- A call that unlocks a burn: one of `complete_unlock` that finds its conversion. -/
def Unlocks (s : DualStateBridge) : BridgeCall → Prop
  | completeUnlock _ conversionId _ =>
    ∃ c, s.conversions.lookup conversionId = some c ∧ c.direction = .accountToUtxo
  | lockUtxo .. | burnForUtxo .. | processConfirmations .. | getNextReady | completeMint ..
  | stats => False

/-! ## Alone -/

/-- **Alone**, a call leaves what the call on the whole bridge leaves, and one that
unlocks a burn does not return. -/
theorem alone_program (C : Crypto) (s : DualStateBridge) (call : BridgeCall) :
    (¬ call.Unlocks s → (call.program C).alone [] s = some (call.apply C s)) ∧
      (call.Unlocks s → (call.program C).alone [] s = none) := by
  cases call with
  | lockUtxo idAt createdAt lockedAt outpoint lockTxHash amount utxoOwner evmRecipient =>
    refine ⟨fun _ => ?_, fun h => False.elim h⟩
    rw [program, Program.alone_peek _ _ List.not_mem_nil, apply, DualStateOp.apply,
      DualStateBridge.lockUtxo, checkState]
    cases hstate : s.state with
    | paused => rfl
    | stopped => rfl
    | active =>
      simp only
      rw [Program.alone_peek _ _ List.not_mem_nil]
      by_cases hlocked : outpoint ∈ s.lockedUtxos
      · rw [if_pos hlocked, if_pos hlocked]
        rfl
      · rw [if_neg hlocked, if_neg hlocked, Program.alone_peek _ _ List.not_mem_nil]
        cases ConversionRequest.utxoToAccount C idAt createdAt lockTxHash amount utxoOwner
          evmRecipient s.utxoHeight with
        | error e => rfl
        | ok request =>
          simp only
          rw [Program.alone_poke _ _ _ fun _ => List.not_mem_nil,
            Program.alone_poke _ _ _ fun _ => List.not_mem_nil,
            Program.alone_poke _ _ _ fun _ => List.not_mem_nil]
          simp only [Program.alone, setConversion, hstate]
  | burnForUtxo idAt createdAt burnTxHash amount evmBurner utxoRecipient =>
    refine ⟨fun _ => ?_, fun h => False.elim h⟩
    rw [program, Program.alone_peek _ _ List.not_mem_nil, apply, DualStateOp.apply,
      DualStateBridge.burnForUtxo, checkState]
    cases hstate : s.state with
    | paused => rfl
    | stopped => rfl
    | active =>
      simp only
      rw [Program.alone_peek _ _ List.not_mem_nil]
      cases ConversionRequest.accountToUtxo C idAt createdAt burnTxHash amount evmBurner
        utxoRecipient s.evmHeight with
      | error e => rfl
      | ok request =>
        simp only
        rw [Program.alone_poke _ _ _ fun _ => List.not_mem_nil]
        simp only [Program.alone, setConversion, hstate]
  | processConfirmations order =>
    refine ⟨fun _ => ?_, fun h => False.elim h⟩
    rw [program, Program.alone_peek _ _ List.not_mem_nil, Program.alone_peek _ _ List.not_mem_nil]
    rfl
  | getNextReady => exact ⟨fun _ => rfl, fun h => False.elim h⟩
  | completeMint mintedAt completedAt conversionId mintTxHash mintBlock =>
    refine ⟨fun _ => ?_, fun h => False.elim h⟩
    rw [program, Program.alone, if_neg (by simp), Program.alone, apply, DualStateOp.apply,
      DualStateBridge.completeMint]
    cases s.conversions.lookup conversionId with
    | none => rfl
    | some c =>
      simp only
      by_cases hdirection : c.direction ≠ .utxoToAccount
      · rw [if_pos hdirection, if_pos hdirection]
        rfl
      · rw [if_neg hdirection, if_neg hdirection]
        simp [Program.alone, Program.poke, setConversion, Finmap.insert_insert]
  | completeUnlock completedAt conversionId unlockTxHash =>
    rw [program, Program.alone, if_neg (by simp), Program.alone, apply, DualStateOp.apply,
      DualStateBridge.completeUnlock, Unlocks]
    cases s.conversions.lookup conversionId with
    | none =>
      refine ⟨fun _ => rfl, ?_⟩
      rintro ⟨_, h, _⟩
      cases h
    | some c =>
      simp only
      by_cases hdirection : c.direction ≠ .accountToUtxo
      · rw [if_pos hdirection, if_pos hdirection]
        refine ⟨fun _ => rfl, ?_⟩
        rintro ⟨_, h, hunlocks⟩
        cases h
        exact absurd hunlocks hdirection
      · refine ⟨fun hnone => absurd ⟨c, rfl, not_not.mp hdirection⟩ hnone, fun _ => ?_⟩
        rw [if_neg hdirection]
        rfl
  | stats => exact ⟨fun _ => rfl, fun h => False.elim h⟩

/-! ## Which calls go together -/

/-- The id whose burn a call would unlock. -/
def unlockId : BridgeCall → Option H256
  | completeUnlock _ conversionId _ => some conversionId
  | lockUtxo .. | burnForUtxo .. | processConfirmations .. | getNextReady | completeMint ..
  | stats => none

/-- The call records a burn under `id`. -/
def Burns (C : Crypto) (s : DualStateBridge) (id : H256) : BridgeCall → Prop
  | burnForUtxo idAt _ burnTxHash amount evmBurner _ =>
    s.AcceptsBurn amount ∧ ConversionRequest.generateId C idAt burnTxHash ⟨evmBurner⟩ amount = id
  | lockUtxo .. | processConfirmations .. | getNextReady | completeMint .. | completeUnlock ..
  | stats => False

/-- No confirmation pass beside a queue read, and no unlock of a burn, recorded before or
by one of the calls. -/
structure Compatible (C : Crypto) (s : DualStateBridge) (calls : Multiset BridgeCall) : Prop where
  apart : ∀ order, processConfirmations order ∈ calls → getNextReady ∉ calls
  recorded : ∀ call ∈ calls, ¬ call.Unlocks s
  burned : ∀ call ∈ calls, ∀ id ∈ call.unlockId, ∀ other ∈ calls, ¬ other.Burns C s id

/-- The calls at their start. -/
def start (C : Crypto) (s : DualStateBridge) (calls : Multiset BridgeCall) :
    Config BridgeLock DualStateBridge :=
  ⟨s, calls.map fun call => ⟨call.program C, []⟩⟩

/-! ## In order -/

/-- The order of the locks. The queue is the first or the last. -/
def rank (queueFirst : Bool) : BridgeLock → Nat
  | .processingQueue => if queueFirst then 0 else 10
  | .conversions => 1
  | .mintedBalances => 2
  | .state => 3
  | .totalLocked => 4
  | .totalMinted => 5
  | .totalFees => 6
  | .utxoHeight => 7
  | .evmHeight => 8
  | .lockedUtxos => 9

/-- The state is `state`, and no id of `ids` is that of a burn. -/
structure Spared (state : BridgeState) (ids : H256 → Prop) (s : DualStateBridge) : Prop where
  state : s.state = state
  spared : ∀ id, ids id → ∀ c, s.conversions.lookup id = some c → c.direction ≠ .accountToUtxo

variable {C : Crypto} {s s₀ : DualStateBridge} {calls : Multiset BridgeCall} {call : BridgeCall}
  {state : BridgeState} {ids : H256 → Prop} {id : H256} {c : ConversionRequest}

theorem Spared.setConversion (h : Spared state ids s)
    (hc : ids id → c.direction ≠ .accountToUtxo) : Spared state ids (s.setConversion id c) := by
  refine ⟨h.state, fun id' hid' c' hc' => ?_⟩
  have hlookup : (s.conversions.insert id c).lookup id' = some c' := hc'
  by_cases hid : id' = id
  · rw [hid, Finmap.lookup_insert] at hlookup
    cases hlookup
    exact hc (hid ▸ hid')
  · rw [Finmap.lookup_insert_of_ne _ hid] at hlookup
    exact h.spared id' hid' c' hlookup

theorem Spared.confirmAt (h : Spared state ids s) (utxoHeight evmHeight : UInt64)
    (order : ConversionOrder) : Spared state ids (s.confirmAt utxoHeight evmHeight order) := by
  refine ⟨h.state, fun id hid c hc => ?_⟩
  have hlookup : (s.conversions.mapValues fun _ c => c.confirm utxoHeight evmHeight).lookup id
      = some c := hc
  rw [Column.lookup_mapValues] at hlookup
  obtain ⟨c₀, hc₀, rfl⟩ := Option.map_eq_some_iff.mp hlookup
  rw [(c₀.confirm_fields utxoHeight evmHeight).2.1]
  exact h.spared id hid c₀ hc₀

/-- Where conversions and state stay. -/
theorem Spared.of_same {s' : DualStateBridge} (h : Spared state ids s)
    (hstate : s'.state = s.state) (hconversions : s'.conversions = s.conversions) :
    Spared state ids s' :=
  ⟨hstate.trans h.state, by rw [hconversions]; exact h.spared⟩

/-- **The steps of one call** are in order, where it neither unlocks a burn of `ids` nor
records one, and the queue has its place. -/
theorem ordered_program {queueFirst : Bool}
    (hpass : ∀ order, call = processConfirmations order → queueFirst = false)
    (hnext : call = getNextReady → queueFirst = true) (hunlock : ∀ id ∈ call.unlockId, ids id)
    (hburn : ∀ id s, ids id → s.state = state → ¬ call.Burns C s id) :
    (call.program C).Ordered (rank queueFirst) (Spared state ids) [] := by
  have hfirst : ∀ l, ∀ h ∈ ([] : List (BridgeLock × Mode)), rank queueFirst h.1 < rank queueFirst l :=
    fun _ h hh => absurd hh List.not_mem_nil
  cases call with
  | lockUtxo idAt createdAt lockedAt outpoint lockTxHash amount utxoOwner evmRecipient =>
    refine Program.ordered_peek (hfirst _) fun s _ => ?_
    split
    · rfl
    · rfl
    refine Program.ordered_peek (hfirst _) fun s _ => ?_
    split
    · rfl
    refine Program.ordered_peek (hfirst _) fun s _ => ?_
    split
    · rfl
    next request hrequest =>
    obtain ⟨_, _, hfresh⟩ := ConversionRequest.new_ok hrequest
    refine Program.ordered_poke (hfirst _) (fun s hs => hs.of_same rfl rfl)
      (Program.ordered_poke (hfirst _) (fun s hs => ?_)
      (Program.ordered_poke (hfirst _) (fun s hs => hs.of_same rfl rfl) rfl))
    refine hs.setConversion fun _ => ?_
    rw [hfresh.direction]
    intro h
    cases h
  | burnForUtxo idAt createdAt burnTxHash amount evmBurner utxoRecipient =>
    refine Program.ordered_peek (hfirst _) fun s hs => ?_
    split
    · rfl
    · rfl
    next hactive =>
    refine Program.ordered_peek (hfirst _) fun s₁ _ => ?_
    split
    · rfl
    next request hrequest =>
    obtain ⟨hallowed, hid, _⟩ := ConversionRequest.new_ok hrequest
    refine Program.ordered_poke (hfirst _) (fun s₂ hs₂ => ?_) rfl
    refine hs₂.setConversion fun hids => ?_
    exact absurd ⟨⟨hactive, hallowed⟩, hid.symm⟩ (hburn request.id s hids hs.state)
  | processConfirmations order =>
    cases hpass order rfl
    refine Program.ordered_peek (hfirst _) fun s₁ _ => Program.ordered_peek (hfirst _) fun s₂ _ => ?_
    exact ⟨hfirst _, by decide, fun s hs => hs.confirmAt _ _ _, rfl⟩
  | getNextReady =>
    cases hnext rfl
    exact ⟨hfirst _, by decide, fun s hs => hs.of_same rfl rfl, rfl⟩
  | completeMint mintedAt completedAt conversionId mintTxHash mintBlock =>
    refine ⟨hfirst _, fun s _ => ?_⟩
    beta_reduce
    split
    · rfl
    next c hc =>
    split
    · rfl
    next hdirection =>
    have hspared : ∀ c' : ConversionRequest, c'.direction = c.direction →
        ids conversionId → c'.direction ≠ .accountToUtxo := by
      intro c' hsame _
      rw [hsame, not_not.mp hdirection]
      intro h
      cases h
    have habove : ∀ l ∈ [BridgeLock.mintedBalances, .totalMinted, .totalFees],
        ∀ h ∈ [(BridgeLock.conversions, Mode.write)], rank queueFirst h.1 < rank queueFirst l := by
      simp [rank]
    refine ⟨fun s hs => hs.setConversion (hspared _ ?_), ?_⟩
    · unfold ConversionRequest.markProcessing
      split
      · rfl
      · rfl
    refine Program.ordered_poke (habove _ (by simp)) (fun s hs => hs.of_same rfl rfl)
      (Program.ordered_poke (habove _ (by simp)) (fun s hs => hs.of_same rfl rfl)
      (Program.ordered_poke (habove _ (by simp)) (fun s hs => hs.of_same rfl rfl) ⟨?_, rfl⟩))
    intro s hs
    exact hs.setConversion (hspared _ (c.completed_fields _ _).2.1)
  | completeUnlock completedAt conversionId unlockTxHash =>
    refine ⟨hfirst _, fun s hs => ?_⟩
    beta_reduce
    split
    · rfl
    next c hc =>
    have hspared := hs.spared conversionId (hunlock conversionId rfl) c hc
    rw [if_pos hspared]
    rfl
  | stats =>
    cases queueFirst with
    | true => simp [program, Program.Ordered, rank]
    | false => simp [program, Program.Ordered, rank]

/-- Compatible calls do not deadlock. -/
theorem Compatible.deadlockFree (h : Compatible C s calls) (fair : Bool) :
    DeadlockFree fair (start C s calls) := by
  classical
  let ids : H256 → Prop := fun id => ∃ call ∈ calls, id ∈ call.unlockId
  refine deadlockFree_of_ordered (rank (decide (getNextReady ∈ calls)))
    (I := Spared s.state ids) ⟨⟨rfl, ?_⟩, ?_⟩
  · rintro id ⟨call, hcall, hid⟩ c hc hdirection
    refine h.recorded call hcall ?_
    cases call with
    | completeUnlock completedAt conversionId unlockTxHash =>
      cases hid
      exact ⟨c, hc, hdirection⟩
    | _ => cases hid
  · intro t ht
    obtain ⟨call, hcall, rfl⟩ := Multiset.mem_map.mp ht
    refine ordered_program ?_ ?_ (fun id hid => ⟨call, hcall, hid⟩) ?_
    · rintro order rfl
      exact decide_eq_false (h.apart order hcall)
    · rintro rfl
      exact decide_eq_true hcall
    · rintro id s' ⟨other, hother, hid⟩ hstate hburns
      refine h.burned other hother id hid call hcall ?_
      cases call with
      | burnForUtxo idAt createdAt burnTxHash amount evmBurner utxoRecipient =>
        obtain ⟨⟨hactive, hallowed⟩, hburned⟩ := hburns
        exact ⟨⟨hstate.symm.trans hactive, hallowed⟩, hburned⟩
      | _ => cases hburns

/-! ## Jams -/

/-- At its start a call waits to write the conversions or the queue, if any. -/
theorem waitsToWrite_program {l : BridgeLock}
    (h : (⟨call.program C, []⟩ : Thread BridgeLock DualStateBridge).WaitsToWrite l) :
    l = .conversions ∨ l = .processingQueue := by
  obtain ⟨next, hprogram⟩ := h
  cases call with
  | getNextReady =>
    cases hprogram
    exact .inr rfl
  | completeMint =>
    cases hprogram
    exact .inl rfl
  | completeUnlock =>
    cases hprogram
    exact .inl rfl
  | lockUtxo => cases hprogram
  | burnForUtxo => cases hprogram
  | processConfirmations => cases hprogram
  | stats => cases hprogram

/-- Calls that hold no lock, and wait to write the conversions or the queue, if any. -/
def Standing (rest : Multiset (Thread BridgeLock DualStateBridge)) : Prop :=
  ∀ t ∈ rest, t.held = [] ∧ ∀ l, t.WaitsToWrite l → l = .conversions ∨ l = .processingQueue

variable {fair : Bool} {rest : Multiset (Thread BridgeLock DualStateBridge)}

theorem standing_start (C : Crypto) (calls : Multiset BridgeCall) :
    Standing (calls.map fun call => ⟨call.program C, []⟩) := by
  intro t ht
  obtain ⟨call, _, rfl⟩ := Multiset.mem_map.mp ht
  exact ⟨rfl, fun l => waitsToWrite_program⟩

theorem Standing.quiet (h : Standing rest) : Quiet rest := fun t ht => (h t ht).1

theorem Standing.not_waitsToWrite (h : Standing rest) {l : BridgeLock}
    (hl : l ≠ .conversions ∧ l ≠ .processingQueue) : ∀ t ∈ rest, ¬ t.WaitsToWrite l :=
  fun t ht hwaits => ((h t ht).2 l hwaits).elim hl.1 hl.2

theorem Standing.cons (h : Standing rest) (call : BridgeCall) :
    Standing (⟨call.program C, []⟩ ::ₘ rest) :=
  Multiset.forall_mem_cons.mpr ⟨⟨rfl, fun _ => waitsToWrite_program⟩, h⟩

/-- A reassignment waits for itself. -/
theorem not_deadlockFree_of_reassign {l : BridgeLock}
    {f : DualStateBridge → DualStateBridge → DualStateBridge}
    {next : Program BridgeLock DualStateBridge} {held : List (BridgeLock × Mode)}
    (hstanding : Standing rest) (hl : l ≠ .conversions ∧ l ≠ .processingQueue)
    (hheld : (l, .write) ∉ held) :
    ¬ DeadlockFree fair ⟨s, ⟨reassign l f next, held⟩ ::ₘ rest⟩ := by
  have hgranted : Granted fair held rest l .read :=
    granted_read hstanding.quiet (hstanding.not_waitsToWrite hl) hheld
  intro hfree
  exact not_deadlockFree_of_self rfl List.mem_cons_self
    (hfree.of_reaches (.head (.acquire hgranted) (.single .look)))

/-- An unlock of a burn reaches the point where it waits for itself. -/
theorem not_deadlockFree_of_unlocks (hunlocks : call.Unlocks s) (hstanding : Standing rest) :
    ¬ DeadlockFree fair ⟨s, ⟨call.program C, []⟩ ::ₘ rest⟩ := by
  intro hfree
  cases call with
  | completeUnlock completedAt conversionId unlockTxHash =>
    obtain ⟨c, hc, hdirection⟩ := hunlocks
    have hgranted : Granted fair [] rest BridgeLock.conversions .write :=
      granted_write hstanding.quiet fun _ => List.not_mem_nil
    have hfound := hfree.of_reaches (.head (.acquire hgranted) (.single .look))
    simp only [hc, hdirection, ne_eq, not_true_eq_false, if_false] at hfound
    exact not_deadlockFree_of_reassign hstanding (by decide) (by decide)
      (hfound.of_reaches (.single .update))
  | _ => cases hunlocks

/-- A confirmation pass and a queue read reach the point where they wait for each
other. -/
theorem not_deadlockFree_of_pair (order : ConversionOrder) (hstanding : Standing rest) :
    ¬ DeadlockFree fair ⟨s, ⟨(processConfirmations order).program C, []⟩ ::ₘ
      ⟨getNextReady.program C, []⟩ ::ₘ rest⟩ := by
  intro hfree
  have hstanding' := hstanding.cons (C := C) getNextReady
  have hgranted : Granted fair [] (⟨getNextReady.program C, []⟩ ::ₘ rest) BridgeLock.conversions
      .write := granted_write hstanding'.quiet fun _ => List.not_mem_nil
  have hheights := (hfree.of_reaches (reaches_peek hstanding'.quiet
    (hstanding'.not_waitsToWrite (by decide)) List.not_mem_nil)).of_reaches
    (reaches_peek hstanding'.quiet (hstanding'.not_waitsToWrite (by decide)) List.not_mem_nil)
  have hpass := hheights.of_reaches (.single (.acquire hgranted))
  rw [Multiset.cons_swap] at hpass
  have hqueue := hpass.of_reaches (.single (.acquire (by
    refine fun m => ⟨List.not_mem_nil, Multiset.forall_mem_cons.mpr ⟨by simp, fun t ht => ?_⟩⟩
    rw [hstanding.quiet t ht]
    exact List.not_mem_nil)))
  exact not_deadlockFree_of_cross rfl rfl List.mem_cons_self List.mem_cons_self hqueue

variable (fair) in
/-- A burn is recorded by its call. -/
theorem reaches_of_burns (hburns : call.Burns C s id) (hstanding : Standing rest) :
    ∃ s', Reaches fair ⟨s, ⟨call.program C, []⟩ ::ₘ rest⟩ ⟨s', ⟨.done, []⟩ ::ₘ rest⟩ ∧
      ∃ c, s'.conversions.lookup id = some c ∧ c.direction = .accountToUtxo := by
  cases call with
  | burnForUtxo idAt createdAt burnTxHash amount evmBurner utxoRecipient =>
    obtain ⟨⟨hactive, hallowed⟩, hid⟩ := hburns
    obtain ⟨request, hrequest⟩ : ∃ request, ConversionRequest.accountToUtxo C idAt createdAt
        burnTxHash amount evmBurner utxoRecipient s.evmHeight = .ok request :=
      ConversionRequest.exists_new hallowed
    obtain ⟨_, hrequestId, hfresh⟩ := ConversionRequest.new_ok hrequest
    refine ⟨s.setConversion request.id request, .trans (reaches_peek hstanding.quiet
      (hstanding.not_waitsToWrite (by decide)) List.not_mem_nil) ?_, request, ?_,
      hfresh.direction⟩
    · simp only [hactive]
      refine .trans (reaches_peek hstanding.quiet (hstanding.not_waitsToWrite (by decide))
        List.not_mem_nil) ?_
      rw [hrequest]
      exact reaches_poke hstanding.quiet fun _ => List.not_mem_nil
    · show (s.conversions.insert request.id request).lookup id = _
      rw [← hid, ← hrequestId, Finmap.lookup_insert]
  | _ => cases hburns

/-- Calls that do not deadlock are compatible. -/
theorem compatible_of_deadlockFree (h : DeadlockFree fair (start C s calls)) :
    Compatible C s calls := by
  refine ⟨fun order hpass hnext => ?_, fun call hcall hunlocks => ?_, ?_⟩
  · obtain ⟨calls₁, rfl⟩ := Multiset.exists_cons_of_mem hpass
    obtain ⟨calls₂, rfl⟩ := Multiset.exists_cons_of_mem
      ((Multiset.mem_cons.mp hnext).resolve_left nofun)
    rw [start, Multiset.map_cons, Multiset.map_cons] at h
    exact not_deadlockFree_of_pair order (standing_start C calls₂) h
  · obtain ⟨calls₁, rfl⟩ := Multiset.exists_cons_of_mem hcall
    rw [start, Multiset.map_cons] at h
    exact not_deadlockFree_of_unlocks hunlocks (standing_start C calls₁) h
  · intro call hcall id hid other hother hburns
    cases call with
    | completeUnlock completedAt conversionId unlockTxHash =>
      cases hid
      obtain ⟨calls₁, rfl⟩ := Multiset.exists_cons_of_mem hother
      have hne : completeUnlock completedAt id unlockTxHash ≠ other := by
        rintro rfl
        cases hburns
      obtain ⟨calls₂, rfl⟩ := Multiset.exists_cons_of_mem
        ((Multiset.mem_cons.mp hcall).resolve_left hne)
      rw [start, Multiset.map_cons, Multiset.map_cons] at h
      have hstanding := standing_start C calls₂
      obtain ⟨s', hreach, hrecorded⟩ := reaches_of_burns fair hburns
        (hstanding.cons (C := C) (completeUnlock completedAt id unlockTxHash))
      have h' := h.of_reaches hreach
      rw [Multiset.cons_swap] at h'
      refine not_deadlockFree_of_unlocks
        (show (completeUnlock completedAt id unlockTxHash).Unlocks s' from hrecorded) ?_ h'
      exact Multiset.forall_mem_cons.mpr ⟨⟨rfl, nofun⟩, hstanding⟩
    | _ => cases hid

/-- **Deadlock.** A group of calls on the bridge, in any order of their steps, reaches no
deadlock exactly when it is compatible. -/
theorem deadlockFree_iff (fair : Bool) (C : Crypto) (s : DualStateBridge)
    (calls : Multiset BridgeCall) :
    DeadlockFree fair (start C s calls) ↔ Compatible C s calls :=
  ⟨compatible_of_deadlockFree, fun h => h.deadlockFree fair⟩

/-- The id of the burn below. -/
def burnId : H256 :=
  H256.ofNatBE 0x3f9632d68dcafb1513a61690808d99691e5cfe9991aa9de83f3fa45d667d0c8f

def burnCrypto : Crypto := Crypto.ofTable
  [(List.replicate 32 4 ++ List.replicate 20 5 ++ [0, 0, 0, 0, 0x3b, 0x9a, 0xca, 0] ++
      [0, 0, 0, 0, 0x65, 0x53, 0xf1, 0], burnId)]

/-- Ten PYRAX burned at the second 1700000000. -/
def burned : DualStateBridge :=
  (burnForUtxo 1700000000 1700000000 ⟨Vector.replicate 32 4⟩ 1000000000 (Vector.replicate 20 5)
    ⟨Vector.replicate 20 6⟩).apply burnCrypto DualStateBridge.new

def unlockBurned : BridgeCall := completeUnlock 1700000100 burnId ⟨Vector.replicate 32 7⟩

/-- One call deadlocks, and so do two on a new bridge, with fair locks or others. -/
theorem unlock_waits_for_itself :
    (¬ DeadlockFree true (start burnCrypto burned {unlockBurned}) ∧
        ¬ DeadlockFree false (start burnCrypto burned {unlockBurned})) ∧
      (¬ DeadlockFree true (start burnCrypto DualStateBridge.new
          {processConfirmations (.ofList []), getNextReady}) ∧
        ¬ DeadlockFree false (start burnCrypto DualStateBridge.new
          {processConfirmations (.ofList []), getNextReady})) := by
  have hunlocks : unlockBurned.Unlocks burned := by
    have hdirection : (burned.conversions.lookup burnId).map (fun c => c.direction)
        = some .accountToUtxo := by
      decide +kernel
    exact Option.map_eq_some_iff.mp hdirection
  have hnone : Standing 0 := nofun
  exact ⟨⟨not_deadlockFree_of_unlocks hunlocks hnone, not_deadlockFree_of_unlocks hunlocks hnone⟩,
    ⟨not_deadlockFree_of_pair _ hnone, not_deadlockFree_of_pair _ hnone⟩⟩

end BridgeCall

end Pyrax.Bridge
