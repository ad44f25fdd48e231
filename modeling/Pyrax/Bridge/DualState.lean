import Pyrax.Base.Records
import Pyrax.Base.Word
import Pyrax.Types.Transaction

/-!
# The dual-state bridge

`pyrax-node/src/bridge/dual_state.rs`: UTXOs are locked and minted as account
balances, balances are burned and unlocked as UTXOs. A conversion is a record
under a hashed id. It is born `Pending`, becomes `Confirmed` once its chain has
grown, and is closed by `complete_mint` or `complete_unlock`.

The two closing calls never ask for the status: `mark_processing` moves a
`Confirmed` conversion on and leaves every other as it is, and `mark_completed`
overwrites whatever it finds. Three totals are kept beside the records.

Each reading of the clock is an argument of its own, and the walk over the hash
map of conversions follows an order the call is given. Every call is taken at
once.

In the code a `complete_unlock` that finds its burn never returns: it asks for the
write lock of `total_minted` while it still reads it, and keeps the conversions
locked (`hangs`). `completeUnlock` is what its lines would do if the lock let them.
Whatever is said of runs holds of those without such a call, and the calls that
return are those before the first one (`returned`).
-/

namespace Pyrax.Bridge

open Base Word

def UTXO_LOCK_CONFIRMATIONS : UInt64 := 6
def EVM_BURN_CONFIRMATIONS : UInt64 := 12
def BRIDGE_FEE_BASIS_POINTS : UInt64 := 10
def MIN_BRIDGE_AMOUNT : UInt64 := 1000000
def MAX_BRIDGE_AMOUNT : UInt64 := 100000000000000

inductive BridgeState where
  | active
  | paused
  | stopped
  deriving DecidableEq

inductive ConversionDirection where
  | utxoToAccount
  | accountToUtxo
  deriving DecidableEq

inductive ConversionStatus where
  | pending
  | confirmed
  | processing
  | completed
  | failed
  | refunded
  deriving DecidableEq

structure LockedUtxo where
  outpoint : OutPoint
  lockTxHash : H256
  amount : UInt64
  utxoOwner : Address
  evmRecipient : Vector UInt8 20
  lockHeight : UInt64
  confirmations : UInt64
  lockedAt : UInt64
  unlocked : Bool
  deriving DecidableEq

structure MintedBalance where
  conversionId : H256
  recipient : Vector UInt8 20
  amount : UInt64
  mintTxHash : Vector UInt8 32
  mintBlock : UInt64
  mintedAt : UInt64
  burned : Bool
  deriving DecidableEq

/-- The errors the bridge's calls return. -/
inductive BridgeError where
  | bridgePaused
  | bridgeStopped
  | amountTooSmall (min provided : UInt64)
  | amountTooLarge (max provided : UInt64)
  | conversionNotFound (id : H256)
  | invalidStatus (expected actual : ConversionStatus)
  | utxoAlreadyLocked (outpoint : OutPoint)
  deriving DecidableEq

structure ConversionRequest where
  id : H256
  direction : ConversionDirection
  status : ConversionStatus
  amount : UInt64
  fee : UInt64
  netAmount : UInt64
  sourceAddress : Address
  destinationAddress : Vector UInt8 20
  sourceTxHash : H256
  destinationTxHash : Option H256
  requestHeight : UInt64
  confirmations : UInt64
  requiredConfirmations : UInt64
  createdAt : UInt64
  completedAt : Option UInt64
  error : Option String
  deriving DecidableEq

namespace ConversionRequest

/-- `generate_id`: neither the outpoint nor the recipient is hashed, and the clock
counts seconds. -/
def generateId (C : Crypto) (now : UInt64) (txHash : H256) (address : Address)
    (amount : UInt64) : H256 :=
  C.blake3 (txHash.asBytes ++ address.asBytes ++ toBeBytes amount ++ toBeBytes now)

def bridgeFee (amount : UInt64) : UInt64 :=
  mulDiv amount.toNat BRIDGE_FEE_BASIS_POINTS.toNat 10000

/-- `new`, with the clock read for the id and again for the record. -/
def new (C : Crypto) (idAt createdAt : UInt64) (direction : ConversionDirection)
    (amount : UInt64) (sourceAddress : Address) (destinationAddress : Vector UInt8 20)
    (sourceTxHash : H256) (requestHeight requiredConfirmations : UInt64) :
    Except BridgeError ConversionRequest :=
  if amount < MIN_BRIDGE_AMOUNT then .error (.amountTooSmall MIN_BRIDGE_AMOUNT amount)
  else if MAX_BRIDGE_AMOUNT < amount then .error (.amountTooLarge MAX_BRIDGE_AMOUNT amount)
  else
    .ok {
      id := generateId C idAt sourceTxHash sourceAddress amount
      direction := direction
      status := .pending
      amount := amount
      fee := bridgeFee amount
      netAmount := saturatingSub amount (bridgeFee amount)
      sourceAddress := sourceAddress
      destinationAddress := destinationAddress
      sourceTxHash := sourceTxHash
      destinationTxHash := none
      requestHeight := requestHeight
      confirmations := 0
      requiredConfirmations := requiredConfirmations
      createdAt := createdAt
      completedAt := none
      error := none }

def utxoToAccount (C : Crypto) (idAt createdAt : UInt64) (sourceTxHash : H256) (amount : UInt64)
    (sourceAddress : Address) (evmRecipient : Vector UInt8 20) (requestHeight : UInt64) :
    Except BridgeError ConversionRequest :=
  new C idAt createdAt .utxoToAccount amount sourceAddress evmRecipient sourceTxHash requestHeight
    UTXO_LOCK_CONFIRMATIONS

def accountToUtxo (C : Crypto) (idAt createdAt : UInt64) (burnTxHash : H256) (amount : UInt64)
    (evmAddress : Vector UInt8 20) (utxoRecipient : Address) (requestHeight : UInt64) :
    Except BridgeError ConversionRequest :=
  new C idAt createdAt .accountToUtxo amount ⟨evmAddress⟩ utxoRecipient.bytes burnTxHash
    requestHeight EVM_BURN_CONFIRMATIONS

/-- `update_confirmations`: a height below the request's is passed over. -/
def updateConfirmations (c : ConversionRequest) (currentHeight : UInt64) : ConversionRequest :=
  if c.requestHeight ≤ currentHeight then
    let confirmations := currentHeight - c.requestHeight + 1
    { c with
      confirmations := confirmations
      status :=
        if c.requiredConfirmations ≤ confirmations ∧ c.status = .pending then .confirmed
        else c.status }
  else c

def markProcessing (c : ConversionRequest) : ConversionRequest :=
  if c.status = .confirmed then { c with status := .processing } else c

def markCompleted (c : ConversionRequest) (now : UInt64) (destTxHash : H256) :
    ConversionRequest :=
  { c with
    status := .completed
    destinationTxHash := some destTxHash
    completedAt := some now }

def isReady (c : ConversionRequest) : Bool := c.status = .confirmed

/-- One visit of the confirmation pass. -/
def confirm (c : ConversionRequest) (utxoHeight evmHeight : UInt64) : ConversionRequest :=
  if c.status = .pending then
    c.updateConfirmations (match c.direction with
      | .utxoToAccount => utxoHeight
      | .accountToUtxo => evmHeight)
  else c

end ConversionRequest

structure DualStateBridge where
  state : BridgeState
  conversions : Column H256 ConversionRequest
  lockedUtxos : Column OutPoint LockedUtxo
  mintedBalances : Column H256 MintedBalance
  processingQueue : List H256
  totalLocked : UInt64
  totalMinted : UInt64
  totalFees : UInt64
  utxoHeight : UInt64
  evmHeight : UInt64

abbrev ConversionOrder := Column.KeyOrder H256 ConversionRequest

namespace DualStateBridge

def new : DualStateBridge := ⟨.active, ∅, ∅, ∅, [], 0, 0, 0, 0, 0⟩

def pause (s : DualStateBridge) : DualStateBridge := { s with state := .paused }

def resume (s : DualStateBridge) : DualStateBridge := { s with state := .active }

def emergencyStop (s : DualStateBridge) : DualStateBridge := { s with state := .stopped }

def updateHeights (s : DualStateBridge) (utxoHeight evmHeight : UInt64) : DualStateBridge :=
  { s with utxoHeight := utxoHeight, evmHeight := evmHeight }

/-- What a bridge that is not active answers. -/
def checkState (s : DualStateBridge) : Except BridgeError Unit :=
  match s.state with
  | .paused => .error .bridgePaused
  | .stopped => .error .bridgeStopped
  | .active => .ok ()

/-- `lock_utxo`, with the id. -/
def lockUtxo (C : Crypto) (s : DualStateBridge) (idAt createdAt lockedAt : UInt64)
    (outpoint : OutPoint) (lockTxHash : H256) (amount : UInt64) (utxoOwner : Address)
    (evmRecipient : Vector UInt8 20) : Except BridgeError (DualStateBridge × H256) :=
  match s.checkState with
  | .error e => .error e
  | .ok _ =>
    if outpoint ∈ s.lockedUtxos then .error (.utxoAlreadyLocked outpoint)
    else
      match ConversionRequest.utxoToAccount C idAt createdAt lockTxHash amount utxoOwner
        evmRecipient s.utxoHeight with
      | .error e => .error e
      | .ok request =>
        let locked : LockedUtxo := {
          outpoint := outpoint
          lockTxHash := lockTxHash
          amount := amount
          utxoOwner := utxoOwner
          evmRecipient := evmRecipient
          lockHeight := s.utxoHeight
          confirmations := 0
          lockedAt := lockedAt
          unlocked := false }
        .ok ({ s with
          lockedUtxos := s.lockedUtxos.insert outpoint locked
          conversions := s.conversions.insert request.id request
          totalLocked := s.totalLocked + amount }, request.id)

/-- `burn_for_utxo`, with the id. What was minted is not asked about. -/
def burnForUtxo (C : Crypto) (s : DualStateBridge) (idAt createdAt : UInt64) (burnTxHash : H256)
    (amount : UInt64) (evmBurner : Vector UInt8 20) (utxoRecipient : Address) :
    Except BridgeError (DualStateBridge × H256) :=
  match s.checkState with
  | .error e => .error e
  | .ok _ =>
    match ConversionRequest.accountToUtxo C idAt createdAt burnTxHash amount evmBurner
      utxoRecipient s.evmHeight with
    | .error e => .error e
    | .ok request =>
      .ok ({ s with conversions := s.conversions.insert request.id request }, request.id)

/-- `process_confirmations`: who becomes ready is queued, in the order of the walk. -/
def processConfirmations (s : DualStateBridge) (order : ConversionOrder) : DualStateBridge :=
  { s with
    conversions := s.conversions.mapValues fun _ c => c.confirm s.utxoHeight s.evmHeight
    processingQueue := (order.entries s.conversions).foldl (fun queue e =>
      if e.2.status = .pending ∧ (e.2.confirm s.utxoHeight s.evmHeight).isReady ∧ e.1 ∉ queue then
        queue ++ [e.1]
      else queue) s.processingQueue }

/-- The loop of `get_next_ready`: what is not ready is dropped from the queue. -/
def popReady (conversions : Column H256 ConversionRequest) :
    List H256 → List H256 × Option ConversionRequest
  | [] => ([], none)
  | id :: queue =>
    match conversions.lookup id with
    | some c => if c.isReady then (queue, some c) else popReady conversions queue
    | none => popReady conversions queue

/-- `get_next_ready`, with the answer: the conversion stays as it is. -/
def getNextReady (s : DualStateBridge) : DualStateBridge × Option ConversionRequest :=
  let (queue, next) := popReady s.conversions s.processingQueue
  ({ s with processingQueue := queue }, next)

/-- `complete_mint`: the direction is checked, the status is not. -/
def completeMint (s : DualStateBridge) (mintedAt completedAt : UInt64) (conversionId : H256)
    (mintTxHash : Vector UInt8 32) (mintBlock : UInt64) : Except BridgeError DualStateBridge :=
  match s.conversions.lookup conversionId with
  | none => .error (.conversionNotFound conversionId)
  | some c =>
    if c.direction ≠ .utxoToAccount then .error (.invalidStatus .confirmed c.status)
    else
      let minted : MintedBalance := {
        conversionId := conversionId
        recipient := c.destinationAddress
        amount := c.netAmount
        mintTxHash := mintTxHash
        mintBlock := mintBlock
        mintedAt := mintedAt
        burned := false }
      .ok { s with
        mintedBalances := s.mintedBalances.insert conversionId minted
        totalMinted := s.totalMinted + c.netAmount
        totalFees := s.totalFees + c.fee
        conversions := s.conversions.insert conversionId
          (c.markProcessing.markCompleted completedAt ⟨mintTxHash⟩) }

/-- `complete_unlock`, as if the lock of `total_minted` let it through: two totals stop at
zero. -/
def completeUnlock (s : DualStateBridge) (completedAt : UInt64) (conversionId : H256)
    (unlockTxHash : H256) : Except BridgeError DualStateBridge :=
  match s.conversions.lookup conversionId with
  | none => .error (.conversionNotFound conversionId)
  | some c =>
    if c.direction ≠ .accountToUtxo then .error (.invalidStatus .confirmed c.status)
    else
      .ok { s with
        totalMinted := saturatingSub s.totalMinted c.amount
        totalLocked := saturatingSub s.totalLocked c.netAmount
        totalFees := s.totalFees + c.fee
        conversions := s.conversions.insert conversionId
          (c.markProcessing.markCompleted completedAt unlockTxHash) }

/-- `verify_invariant`. -/
def verifyInvariant (s : DualStateBridge) : Bool := s.totalMinted + s.totalFees ≤ s.totalLocked

end DualStateBridge

/-! ## Runs -/

/-- A call on the bridge. -/
inductive DualStateOp where
  | lock (idAt createdAt lockedAt : UInt64) (outpoint : OutPoint) (lockTxHash : H256)
      (amount : UInt64) (utxoOwner : Address) (evmRecipient : Vector UInt8 20)
  | burn (idAt createdAt : UInt64) (burnTxHash : H256) (amount : UInt64)
      (evmBurner : Vector UInt8 20) (utxoRecipient : Address)
  | updateHeights (utxoHeight evmHeight : UInt64)
  | processConfirmations (order : ConversionOrder)
  | getNextReady
  | completeMint (mintedAt completedAt : UInt64) (conversionId : H256)
      (mintTxHash : Vector UInt8 32) (mintBlock : UInt64)
  | completeUnlock (completedAt : UInt64) (conversionId : H256) (unlockTxHash : H256)
  | pause
  | resume
  | emergencyStop

namespace DualStateOp

def apply (C : Crypto) (s : DualStateBridge) : DualStateOp → DualStateBridge
  | lock idAt createdAt lockedAt outpoint lockTxHash amount utxoOwner evmRecipient =>
    match s.lockUtxo C idAt createdAt lockedAt outpoint lockTxHash amount utxoOwner
      evmRecipient with
    | .ok (s', _) => s'
    | .error _ => s
  | burn idAt createdAt burnTxHash amount evmBurner utxoRecipient =>
    match s.burnForUtxo C idAt createdAt burnTxHash amount evmBurner utxoRecipient with
    | .ok (s', _) => s'
    | .error _ => s
  | updateHeights utxoHeight evmHeight => s.updateHeights utxoHeight evmHeight
  | processConfirmations order => s.processConfirmations order
  | getNextReady => s.getNextReady.1
  | completeMint mintedAt completedAt conversionId mintTxHash mintBlock =>
    match s.completeMint mintedAt completedAt conversionId mintTxHash mintBlock with
    | .ok s' => s'
    | .error _ => s
  | completeUnlock completedAt conversionId unlockTxHash =>
    match s.completeUnlock completedAt conversionId unlockTxHash with
    | .ok s' => s'
    | .error _ => s
  | pause => s.pause
  | resume => s.resume
  | emergencyStop => s.emergencyStop

def run (C : Crypto) (s : DualStateBridge) (ops : List DualStateOp) : DualStateBridge :=
  ops.foldl (apply C) s

/-- The calls that never return: `complete_unlock` past its two checks. -/
def hangs (s : DualStateBridge) : DualStateOp → Bool
  | completeUnlock _ conversionId _ =>
    match s.conversions.lookup conversionId with
    | some c => c.direction = .accountToUtxo
    | none => false
  | lock .. | burn .. | updateHeights .. | processConfirmations .. | getNextReady
  | completeMint .. | pause | resume | emergencyStop => false

/-- The calls of a run that return. Who calls after one that hangs waits for the
conversions. -/
def returned (C : Crypto) (s : DualStateBridge) : List DualStateOp → List DualStateOp
  | [] => []
  | op :: ops => if op.hangs s then [] else op :: returned C (op.apply C s) ops

theorem run_snoc (C : Crypto) (s : DualStateBridge) (ops : List DualStateOp) (op : DualStateOp) :
    run C s (ops ++ [op]) = op.apply C (run C s ops) :=
  List.foldl_concat ..

theorem hangs_of_returned {C : Crypto} {op : DualStateOp} {ops pre : List DualStateOp}
    {s : DualStateBridge} (h : pre ++ [op] <+: returned C s ops) :
    op.hangs (run C s pre) = false := by
  induction ops generalizing pre s with
  | nil => exact absurd (List.prefix_nil.mp h) (by simp)
  | cons first ops ih =>
    rw [returned] at h
    split at h
    · exact absurd (List.prefix_nil.mp h) (by simp)
    next hfirst =>
    cases pre with
    | nil =>
      obtain rfl := (List.cons_prefix_cons.mp h).1
      exact Bool.eq_false_of_not_eq_true hfirst
    | cons second pre =>
      obtain ⟨rfl, hrest⟩ := List.cons_prefix_cons.mp h
      show op.hangs (run C (second.apply C s) pre) = false
      exact ih hrest

end DualStateOp

/-! ## What a call does -/

section Calls

variable {C : Crypto} {s s' : DualStateBridge} {r : ConversionRequest}
  {idAt createdAt lockedAt mintedAt completedAt amount mintBlock : UInt64}

/-- The fee is a part of the amount, and something is left. -/
structure ConversionRequest.Priced (c : ConversionRequest) : Prop where
  split : c.netAmount.toNat + c.fee.toNat = c.amount.toNat
  net_pos : 0 < c.netAmount.toNat

theorem ConversionRequest.toNat_bridgeFee (amount : UInt64) :
    (bridgeFee amount).toNat = amount.toNat / 1000 := by
  have hlt := amount.toNat_lt
  rw [bridgeFee, mulDiv, UInt64.toNat_ofNat', show BRIDGE_FEE_BASIS_POINTS.toNat = 10 from rfl]
  omega

/-- A request as it is made. -/
structure ConversionRequest.Fresh (r : ConversionRequest) (direction : ConversionDirection)
    (amount : UInt64) : Prop where
  direction : r.direction = direction
  status : r.status = .pending
  amount : r.amount = amount
  priced : r.Priced

namespace ConversionRequest

/-- The amounts the bridge takes. -/
def Allowed (amount : UInt64) : Prop := MIN_BRIDGE_AMOUNT ≤ amount ∧ amount ≤ MAX_BRIDGE_AMOUNT

variable {direction : ConversionDirection} {sourceAddress : Address}
  {destinationAddress : Vector UInt8 20} {sourceTxHash : H256} {requestHeight required : UInt64}

theorem new_ok (h : new C idAt createdAt direction amount sourceAddress destinationAddress
    sourceTxHash requestHeight required = .ok r) :
    Allowed amount ∧ r.id = generateId C idAt sourceTxHash sourceAddress amount ∧
      r.Fresh direction amount := by
  unfold new at h
  split at h
  · cases h
  next hmin =>
  split at h
  · cases h
  next hmax =>
  cases h
  have hmin' : MIN_BRIDGE_AMOUNT ≤ amount := UInt64.not_lt.mp hmin
  refine ⟨⟨hmin', UInt64.not_lt.mp hmax⟩, rfl, rfl, rfl, rfl, ?_, ?_⟩
  · show (saturatingSub amount (bridgeFee amount)).toNat + (bridgeFee amount).toNat = amount.toNat
    rw [toNat_saturatingSub, toNat_bridgeFee]
    omega
  · have hpos : 1000000 ≤ amount.toNat := UInt64.le_iff_toNat_le.mp hmin'
    show 0 < (saturatingSub amount (bridgeFee amount)).toNat
    rw [toNat_saturatingSub, toNat_bridgeFee]
    omega

theorem exists_new (h : Allowed amount) :
    ∃ r, new C idAt createdAt direction amount sourceAddress destinationAddress sourceTxHash
      requestHeight required = .ok r := by
  unfold new
  rw [if_neg (UInt64.not_lt.mpr h.1), if_neg (UInt64.not_lt.mpr h.2)]
  exact ⟨_, rfl⟩

/-- A completed conversion keeps what it is about. -/
theorem completed_fields (c : ConversionRequest) (now : UInt64) (hash : H256) :
    let c' := c.markProcessing.markCompleted now hash
    c'.status = .completed ∧ c'.direction = c.direction ∧ c'.amount = c.amount ∧
      c'.fee = c.fee ∧ c'.netAmount = c.netAmount := by
  unfold markProcessing
  split
  · exact ⟨rfl, rfl, rfl, rfl, rfl⟩
  · exact ⟨rfl, rfl, rfl, rfl, rfl⟩

/-- More confirmations change no more than the status, and none from or to
`Completed`. -/
theorem updateConfirmations_fields (c : ConversionRequest) (height : UInt64) :
    let c' := c.updateConfirmations height
    (c'.status = .completed ↔ c.status = .completed) ∧ c'.direction = c.direction ∧
      c'.amount = c.amount ∧ c'.fee = c.fee ∧ c'.netAmount = c.netAmount := by
  unfold updateConfirmations
  split
  · refine ⟨?_, rfl, rfl, rfl, rfl⟩
    show (if _ then _ else _) = _ ↔ _
    split
    · next hconfirmed =>
      rw [hconfirmed.2]
      exact iff_of_false nofun nofun
    · exact Iff.rfl
  · exact ⟨Iff.rfl, rfl, rfl, rfl, rfl⟩

theorem confirm_fields (c : ConversionRequest) (utxoHeight evmHeight : UInt64) :
    let c' := c.confirm utxoHeight evmHeight
    (c'.status = .completed ↔ c.status = .completed) ∧ c'.direction = c.direction ∧
      c'.amount = c.amount ∧ c'.fee = c.fee ∧ c'.netAmount = c.netAmount := by
  unfold confirm
  by_cases hpending : c.status = .pending
  · rw [if_pos hpending]
    exact c.updateConfirmations_fields _
  · rw [if_neg hpending]
    exact ⟨Iff.rfl, rfl, rfl, rfl, rfl⟩

end ConversionRequest

namespace DualStateBridge

open ConversionRequest

variable {outpoint : OutPoint} {lockTxHash burnTxHash unlockTxHash conversionId id : H256}
  {utxoOwner utxoRecipient : Address} {evmRecipient evmBurner : Vector UInt8 20}
  {mintTxHash : Vector UInt8 32}

theorem checkState_ok : s.checkState = .ok () ↔ s.state = .active := by
  unfold checkState
  cases s.state with
  | active => exact iff_of_true rfl rfl
  | paused => exact iff_of_false nofun nofun
  | stopped => exact iff_of_false nofun nofun

/-- The locks the bridge accepts. -/
def AcceptsLock (s : DualStateBridge) (outpoint : OutPoint) (amount : UInt64) : Prop :=
  s.state = .active ∧ outpoint ∉ s.lockedUtxos ∧ Allowed amount

/-- The burns the bridge accepts. -/
def AcceptsBurn (s : DualStateBridge) (amount : UInt64) : Prop :=
  s.state = .active ∧ Allowed amount

theorem lockUtxo_ok (h : s.lockUtxo C idAt createdAt lockedAt outpoint lockTxHash amount utxoOwner
    evmRecipient = .ok (s', id)) :
    s.AcceptsLock outpoint amount ∧ ∃ r : ConversionRequest,
      r.id = generateId C idAt lockTxHash utxoOwner amount ∧ r.Fresh .utxoToAccount amount ∧
      s'.conversions = s.conversions.insert r.id r ∧ s'.totalLocked = s.totalLocked + amount ∧
      s'.totalMinted = s.totalMinted ∧ s'.totalFees = s.totalFees := by
  unfold lockUtxo at h
  split at h
  · cases h
  next hstate =>
  split at h
  · cases h
  next hnew =>
  split at h
  · cases h
  next r hr =>
  cases h
  obtain ⟨hallowed, hid, hfresh⟩ := new_ok hr
  exact ⟨⟨checkState_ok.mp hstate, hnew, hallowed⟩, r, hid, hfresh, rfl, rfl, rfl, rfl⟩

theorem exists_lockUtxo (h : s.AcceptsLock outpoint amount) :
    ∃ s' id, s.lockUtxo C idAt createdAt lockedAt outpoint lockTxHash amount utxoOwner
      evmRecipient = .ok (s', id) := by
  obtain ⟨r, hr⟩ : ∃ r, utxoToAccount C idAt createdAt lockTxHash amount utxoOwner evmRecipient
      s.utxoHeight = .ok r := exists_new h.2.2
  unfold lockUtxo
  rw [checkState_ok.mpr h.1, if_neg h.2.1, hr]
  exact ⟨_, _, rfl⟩

theorem burnForUtxo_ok (h : s.burnForUtxo C idAt createdAt burnTxHash amount evmBurner
    utxoRecipient = .ok (s', id)) :
    s.AcceptsBurn amount ∧ ∃ r : ConversionRequest,
      r.id = generateId C idAt burnTxHash ⟨evmBurner⟩ amount ∧ r.Fresh .accountToUtxo amount ∧
      s'.conversions = s.conversions.insert r.id r ∧ s'.totalLocked = s.totalLocked ∧
      s'.totalMinted = s.totalMinted ∧ s'.totalFees = s.totalFees := by
  unfold burnForUtxo at h
  split at h
  · cases h
  next hstate =>
  split at h
  · cases h
  next r hr =>
  cases h
  obtain ⟨hallowed, hid, hfresh⟩ := new_ok hr
  exact ⟨⟨checkState_ok.mp hstate, hallowed⟩, r, hid, hfresh, rfl, rfl, rfl, rfl⟩

theorem exists_burnForUtxo (h : s.AcceptsBurn amount) :
    ∃ s' id, s.burnForUtxo C idAt createdAt burnTxHash amount evmBurner utxoRecipient
      = .ok (s', id) := by
  obtain ⟨r, hr⟩ : ∃ r, accountToUtxo C idAt createdAt burnTxHash amount evmBurner utxoRecipient
      s.evmHeight = .ok r := exists_new h.2
  unfold burnForUtxo
  rw [checkState_ok.mpr h.1, hr]
  exact ⟨_, _, rfl⟩

theorem completeMint_ok (h : s.completeMint mintedAt completedAt conversionId mintTxHash mintBlock
    = .ok s') :
    ∃ c, s.conversions.lookup conversionId = some c ∧ c.direction = .utxoToAccount ∧
      s'.conversions = s.conversions.insert conversionId
        (c.markProcessing.markCompleted completedAt ⟨mintTxHash⟩) ∧
      s'.totalLocked = s.totalLocked ∧ s'.totalMinted = s.totalMinted + c.netAmount ∧
      s'.totalFees = s.totalFees + c.fee := by
  unfold completeMint at h
  split at h
  · cases h
  next c hc =>
  split at h
  · cases h
  next hdirection =>
  cases h
  exact ⟨c, hc, not_not.mp hdirection, rfl, rfl, rfl, rfl⟩

theorem exists_completeMint {c : ConversionRequest}
    (hc : s.conversions.lookup conversionId = some c) (hdirection : c.direction = .utxoToAccount) :
    ∃ s', s.completeMint mintedAt completedAt conversionId mintTxHash mintBlock = .ok s' := by
  unfold completeMint
  rw [hc]
  simp only [hdirection, ne_eq, not_true_eq_false, if_false]
  exact ⟨_, rfl⟩

theorem completeUnlock_ok (h : s.completeUnlock completedAt conversionId unlockTxHash = .ok s') :
    ∃ c, s.conversions.lookup conversionId = some c ∧ c.direction = .accountToUtxo ∧
      s'.conversions = s.conversions.insert conversionId
        (c.markProcessing.markCompleted completedAt unlockTxHash) ∧
      s'.totalLocked = saturatingSub s.totalLocked c.netAmount ∧
      s'.totalMinted = saturatingSub s.totalMinted c.amount ∧
      s'.totalFees = s.totalFees + c.fee := by
  unfold completeUnlock at h
  split at h
  · cases h
  next c hc =>
  split at h
  · cases h
  next hdirection =>
  cases h
  exact ⟨c, hc, not_not.mp hdirection, rfl, rfl, rfl, rfl⟩

theorem exists_completeUnlock {c : ConversionRequest}
    (hc : s.conversions.lookup conversionId = some c) (hdirection : c.direction = .accountToUtxo) :
    ∃ s', s.completeUnlock completedAt conversionId unlockTxHash = .ok s' := by
  unfold completeUnlock
  rw [hc]
  simp only [hdirection, ne_eq, not_true_eq_false, if_false]
  exact ⟨_, rfl⟩

/-- A `complete_unlock` that returns is an error, and changes nothing. -/
theorem apply_completeUnlock
    (h : (DualStateOp.completeUnlock completedAt conversionId unlockTxHash).hangs s = false) :
    (DualStateOp.completeUnlock completedAt conversionId unlockTxHash).apply C s = s := by
  rw [DualStateOp.apply]
  split
  · next s' hok =>
    obtain ⟨c, hc, hdirection, _⟩ := completeUnlock_ok hok
    simp [DualStateOp.hangs, hc, hdirection] at h
  · rfl

end DualStateBridge

end Calls

end Pyrax.Bridge
