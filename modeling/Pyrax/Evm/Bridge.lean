import Pyrax.Base.Checks
import Pyrax.Evm.State

/-!
# The peg between L1 and L2

`Bridge` of `pyrax-node/src/evm/bridge.rs`. Its tables stand behind locks, and several
calls release a lock and take it again: `create_deposit` and `initiate_withdrawal` look
for a duplicate under a read lock and insert under a write lock, and
`check_withdrawal_ready` decides under a read lock, makes a proof under another and sets
the status under a write lock. Between two sections of a call any section of another call
may run, so a run is a list of sections: `PegStep` starts a call with its first section
or resumes one that is under way (`Section`).

`complete_deposit` and `complete_withdrawal` add to a total while they hold the table, and
are one section each. The clock is read outside the locks and is an argument, as is the
order in which a hash map lists its values.
-/

namespace Pyrax.Evm

open Base Word

inductive DepositStatus where
  | pending
  | confirmed
  | minted
  | failed
  deriving DecidableEq

structure Deposit where
  id : B256
  l1TxHash : H256
  l1OutputIndex : UInt32
  l2Recipient : Address
  amount : UInt64
  l1BlockNumber : UInt64
  l1BlockHash : H256
  confirmationsRequired : UInt32
  confirmations : UInt32
  status : DepositStatus
  l2MintTx : Option B256
  timestamp : UInt64
  deriving DecidableEq

inductive WithdrawalStatus where
  | pending
  | ready
  | claimed
  | challenged
  | failed
  deriving DecidableEq

structure Withdrawal where
  id : B256
  l2TxHash : B256
  l2Sender : Address
  l1Recipient : Vector UInt8 25
  amount : UInt64
  l2BlockNumber : UInt64
  challengeEnd : UInt64
  status : WithdrawalStatus
  merkleProof : Option (List B256)
  l1ClaimTx : Option H256
  timestamp : UInt64
  deriving DecidableEq

/-- The addresses of the two contracts are left out: nothing here reads them. -/
structure BridgeConfig where
  minDeposit : UInt64
  maxDeposit : UInt64
  depositConfirmations : UInt32
  challengePeriodSecs : UInt64
  feeBps : UInt16
  deriving DecidableEq

def BridgeConfig.default : BridgeConfig := ⟨100000, 1000000000000, 10, 7 * 24 * 60 * 60, 10⟩

inductive BridgeError where
  | amountTooSmall (minimum : UInt64)
  | amountTooLarge (maximum : UInt64)
  | duplicateDeposit (id : B256)
  | depositNotFound (id : B256)
  | invalidDepositStatus (status : DepositStatus)
  | duplicateWithdrawal (id : B256)
  | withdrawalNotFound (id : B256)
  | invalidWithdrawalStatus (status : WithdrawalStatus)
  deriving DecidableEq

structure Bridge where
  config : BridgeConfig
  deposits : Column B256 Deposit
  withdrawals : Column B256 Withdrawal
  totalDeposited : UInt64
  totalWithdrawn : UInt64
  withdrawalRoot : B256
  deriving DecidableEq

/-- The order in which a hash map lists the withdrawals. -/
abbrev WithdrawalOrder := Column.KeyOrder B256 Withdrawal

namespace Bridge

def new (config : BridgeConfig) : Bridge := ⟨config, ∅, ∅, 0, 0, Vector.replicate 32 0⟩

def setDeposit (bridge : Bridge) (id : B256) (deposit : Deposit) : Bridge :=
  { bridge with deposits := bridge.deposits.insert id deposit }

def setWithdrawal (bridge : Bridge) (id : B256) (withdrawal : Withdrawal) : Bridge :=
  { bridge with withdrawals := bridge.withdrawals.insert id withdrawal }

def computeDepositId (C : Crypto) (l1TxHash : H256) (outputIndex : UInt32) : B256 :=
  (C.blake3 (l1TxHash.asBytes ++ (Wire.leBytes 4 outputIndex.toNat).reverse ++
    "deposit".toUTF8.toList)).bytes

def computeWithdrawalId (C : Crypto) (l2TxHash : B256) : B256 :=
  (C.blake3 (l2TxHash.toList ++ "withdrawal".toUTF8.toList)).bytes

/-- `create_deposit` up to the end of its read lock, with what it will insert. -/
def createDeposit (C : Crypto) (bridge : Bridge) (now : UInt64) (l1TxHash : H256)
    (l1OutputIndex : UInt32) (l2Recipient : Address) (amount l1BlockNumber : UInt64)
    (l1BlockHash : H256) : Except BridgeError Deposit := do
  failIf (amount < bridge.config.minDeposit) (.amountTooSmall bridge.config.minDeposit)
  failIf (bridge.config.maxDeposit < amount) (.amountTooLarge bridge.config.maxDeposit)
  let depositId := computeDepositId C l1TxHash l1OutputIndex
  failIf (depositId ∈ bridge.deposits) (.duplicateDeposit depositId)
  return ⟨depositId, l1TxHash, l1OutputIndex, l2Recipient, amount, l1BlockNumber, l1BlockHash,
    bridge.config.depositConfirmations, 0, .pending, none, now⟩

/-- `current_l1_height.saturating_sub(l1_block_number) as u32`. -/
def confirmationsAt (deposit : Deposit) (currentL1Height : UInt64) : UInt32 :=
  (saturatingSub currentL1Height deposit.l1BlockNumber).toUInt32

def updateDepositConfirmations (bridge : Bridge) (depositId : B256) (currentL1Height : UInt64) :
    Except BridgeError (Bridge × DepositStatus) :=
  match bridge.deposits.lookup depositId with
  | none => .error (.depositNotFound depositId)
  | some deposit =>
    if deposit.status ≠ .pending then .ok (bridge, deposit.status)
    else
      let confirmations := confirmationsAt deposit currentL1Height
      let status := if deposit.confirmationsRequired ≤ confirmations then .confirmed
        else deposit.status
      .ok (bridge.setDeposit depositId
        { deposit with confirmations := confirmations, status := status }, status)

def completeDeposit (bridge : Bridge) (depositId : B256) (l2MintTx : B256) :
    Except BridgeError Bridge :=
  match bridge.deposits.lookup depositId with
  | none => .error (.depositNotFound depositId)
  | some deposit =>
    if deposit.status ≠ .confirmed then .error (.invalidDepositStatus deposit.status)
    else
      let minted := { deposit with status := .minted, l2MintTx := some l2MintTx }
      .ok { bridge.setDeposit depositId minted with
        totalDeposited := bridge.totalDeposited + deposit.amount }

/-- `initiate_withdrawal` up to the end of its read lock, with what it will insert. -/
def initiateWithdrawal (C : Crypto) (bridge : Bridge) (now : UInt64) (l2TxHash : B256)
    (l2Sender : Address) (l1Recipient : Vector UInt8 25) (amount l2BlockNumber : UInt64) :
    Except BridgeError Withdrawal := do
  failIf (amount < bridge.config.minDeposit) (.amountTooSmall bridge.config.minDeposit)
  let fee := UInt64.ofNat (amount.toNat * bridge.config.feeBps.toNat / 10000)
  let withdrawalId := computeWithdrawalId C l2TxHash
  failIf (withdrawalId ∈ bridge.withdrawals) (.duplicateWithdrawal withdrawalId)
  return ⟨withdrawalId, l2TxHash, l2Sender, l1Recipient, saturatingSub amount fee, l2BlockNumber,
    now + bridge.config.challengePeriodSecs, .pending, none, none, now⟩

/-- The withdrawals that are pending or ready, as the map lists them. -/
def openWithdrawals (order : WithdrawalOrder) (bridge : Bridge) : List Withdrawal :=
  ((order.entries bridge.withdrawals).map Prod.snd).filter fun w =>
    w.status = .pending || w.status = .ready

def updateWithdrawalRoot (C : Crypto) (order : WithdrawalOrder) (bridge : Bridge) : Bridge :=
  let pending := (bridge.openWithdrawals order).mergeSort fun a b => a.timestamp ≤ b.timestamp
  { bridge with withdrawalRoot := (C.blake3 (pending.flatMap fun w =>
      w.id.toList ++ Word.toBeBytes w.amount ++ w.l1Recipient.toList)).bytes }

def generateMerkleProof (order : WithdrawalOrder) (bridge : Bridge) (withdrawalId : B256) :
    List B256 :=
  ((bridge.openWithdrawals order).map (·.id)).filter (· ≠ withdrawalId)

/-- The read section of `check_withdrawal_ready`: the answer it returns with, or that the
status is to be set. -/
def shouldUpdate (bridge : Bridge) (now : UInt64) (withdrawalId : B256) :
    Except BridgeError (Option Bool) :=
  match bridge.withdrawals.lookup withdrawalId with
  | none => .error (.withdrawalNotFound withdrawalId)
  | some withdrawal =>
    if withdrawal.status ≠ .pending then .ok (some (withdrawal.status = .ready))
    else if withdrawal.challengeEnd ≤ now then .ok none
    else .ok (some false)

/-- Its write section. -/
def markReady (bridge : Bridge) (withdrawalId : B256) (proof : List B256) : Bridge :=
  match bridge.withdrawals.lookup withdrawalId with
  | none => bridge
  | some withdrawal =>
    bridge.setWithdrawal withdrawalId { withdrawal with status := .ready, merkleProof := some proof }

def completeWithdrawal (bridge : Bridge) (withdrawalId : B256) (l1ClaimTx : H256) :
    Except BridgeError Bridge :=
  match bridge.withdrawals.lookup withdrawalId with
  | none => .error (.withdrawalNotFound withdrawalId)
  | some withdrawal =>
    if withdrawal.status ≠ .ready then .error (.invalidWithdrawalStatus withdrawal.status)
    else
      let claimed := { withdrawal with status := .claimed, l1ClaimTx := some l1ClaimTx }
      .ok { bridge.setWithdrawal withdrawalId claimed with
        totalWithdrawn := bridge.totalWithdrawn + withdrawal.amount }

def challengeWithdrawal (bridge : Bridge) (withdrawalId : B256) : Except BridgeError Bridge :=
  match bridge.withdrawals.lookup withdrawalId with
  | none => .error (.withdrawalNotFound withdrawalId)
  | some withdrawal =>
    if withdrawal.status ≠ .pending then .error (.invalidWithdrawalStatus withdrawal.status)
    else .ok (bridge.setWithdrawal withdrawalId { withdrawal with status := .challenged })

end Bridge

/-! ## Interleaved calls -/

/-- What a call that is under way does next. -/
inductive Section where
  | storeDeposit (deposit : Deposit)
  | storeWithdrawal (withdrawal : Withdrawal)
  | updateRoot
  | generateProof (withdrawalId : B256)
  | markReady (withdrawalId : B256) (proof : List B256)
  deriving DecidableEq

/-- The bridge and the calls under way. -/
structure Peg where
  bridge : Bridge
  underway : List Section
  deriving DecidableEq

inductive PegStep where
  | createDeposit (now : UInt64) (l1TxHash : H256) (l1OutputIndex : UInt32)
      (l2Recipient : Address) (amount l1BlockNumber : UInt64) (l1BlockHash : H256)
  | updateDepositConfirmations (depositId : B256) (currentL1Height : UInt64)
  | completeDeposit (depositId l2MintTx : B256)
  | initiateWithdrawal (now : UInt64) (l2TxHash : B256) (l2Sender : Address)
      (l1Recipient : Vector UInt8 25) (amount l2BlockNumber : UInt64)
  | checkWithdrawalReady (now : UInt64) (withdrawalId : B256)
  | completeWithdrawal (withdrawalId : B256) (l1ClaimTx : H256)
  | challengeWithdrawal (withdrawalId : B256)
  /-- The next section of the call at this place. -/
  | resume (order : WithdrawalOrder) (place : Nat)

/-- What a section leaves, and what its call does after it. -/
def Section.run (C : Crypto) (order : WithdrawalOrder) (bridge : Bridge) :
    Section → Bridge × List Section
  | storeDeposit deposit => (bridge.setDeposit deposit.id deposit, [])
  | storeWithdrawal withdrawal => (bridge.setWithdrawal withdrawal.id withdrawal, [updateRoot])
  | updateRoot => (bridge.updateWithdrawalRoot C order, [])
  | generateProof withdrawalId =>
    (bridge, [markReady withdrawalId (bridge.generateMerkleProof order withdrawalId)])
  | markReady withdrawalId proof => (bridge.markReady withdrawalId proof, [])

namespace PegStep

/-- One section. A call that fails, or that has its answer, is over. -/
def apply (C : Crypto) (peg : Peg) : PegStep → Peg
  | createDeposit now l1TxHash l1OutputIndex l2Recipient amount l1BlockNumber l1BlockHash =>
    match peg.bridge.createDeposit C now l1TxHash l1OutputIndex l2Recipient amount l1BlockNumber
      l1BlockHash with
    | .ok deposit => { peg with underway := peg.underway ++ [.storeDeposit deposit] }
    | .error _ => peg
  | updateDepositConfirmations depositId currentL1Height =>
    match peg.bridge.updateDepositConfirmations depositId currentL1Height with
    | .ok (bridge, _) => { peg with bridge := bridge }
    | .error _ => peg
  | completeDeposit depositId l2MintTx =>
    match peg.bridge.completeDeposit depositId l2MintTx with
    | .ok bridge => { peg with bridge := bridge }
    | .error _ => peg
  | initiateWithdrawal now l2TxHash l2Sender l1Recipient amount l2BlockNumber =>
    match peg.bridge.initiateWithdrawal C now l2TxHash l2Sender l1Recipient amount
      l2BlockNumber with
    | .ok withdrawal => { peg with underway := peg.underway ++ [.storeWithdrawal withdrawal] }
    | .error _ => peg
  | checkWithdrawalReady now withdrawalId =>
    match peg.bridge.shouldUpdate now withdrawalId with
    | .ok none => { peg with underway := peg.underway ++ [.generateProof withdrawalId] }
    | .ok (some _) => peg
    | .error _ => peg
  | completeWithdrawal withdrawalId l1ClaimTx =>
    match peg.bridge.completeWithdrawal withdrawalId l1ClaimTx with
    | .ok bridge => { peg with bridge := bridge }
    | .error _ => peg
  | challengeWithdrawal withdrawalId =>
    match peg.bridge.challengeWithdrawal withdrawalId with
    | .ok bridge => { peg with bridge := bridge }
    | .error _ => peg
  | resume order place =>
    match peg.underway[place]? with
    | some sect =>
      ⟨(sect.run C order peg.bridge).1,
        peg.underway.eraseIdx place ++ (sect.run C order peg.bridge).2⟩
    | none => peg

/-- The sections taken one after the other, whoever takes them. -/
def run (C : Crypto) (peg : Peg) (steps : List PegStep) : Peg := steps.foldl (apply C) peg

theorem run_snoc (C : Crypto) (peg : Peg) (steps : List PegStep) (step : PegStep) :
    run C peg (steps ++ [step]) = step.apply C (run C peg steps) := List.foldl_append ..

end PegStep

/-! ## What each function does -/

namespace Bridge

variable {C : Crypto} {bridge bridge' : Bridge}

theorem createDeposit_ok {now : UInt64} {l1TxHash l1BlockHash : H256} {l1OutputIndex : UInt32}
    {l2Recipient : Address} {amount l1BlockNumber : UInt64} {deposit : Deposit}
    (h : bridge.createDeposit C now l1TxHash l1OutputIndex l2Recipient amount l1BlockNumber
      l1BlockHash = .ok deposit) : deposit.status = .pending := by
  unfold createDeposit at h
  rw [failIf_bind_eq_ok, failIf_bind_eq_ok, failIf_bind_eq_ok] at h
  obtain ⟨_, _, _, hok⟩ := h
  cases hok
  rfl

/-- Counting confirmations touches one deposit, and leaves its amount and whether it is
minted. -/
theorem updateDepositConfirmations_ok {depositId : B256} {currentL1Height : UInt64}
    {status : DepositStatus}
    (h : bridge.updateDepositConfirmations depositId currentL1Height = .ok (bridge', status)) :
    bridge' = bridge ∨ ∃ old new, bridge.deposits.lookup depositId = some old ∧
      old.status ≠ .minted ∧ new.status ≠ .minted ∧ new.amount = old.amount ∧
      bridge' = bridge.setDeposit depositId new := by
  unfold updateDepositConfirmations at h
  split at h
  · cases h
  next deposit hdeposit =>
  split at h
  · cases h
    exact .inl rfl
  next hpending =>
  have hpending : deposit.status = .pending := not_not.mp hpending
  cases h
  refine .inr ⟨deposit, _, hdeposit, ?_, ?_, ?_, rfl⟩
  · simp [hpending]
  · show (if _ then DepositStatus.confirmed else deposit.status) ≠ .minted
    split
    · simp
    · simp [hpending]
  · rfl

theorem completeDeposit_ok {depositId l2MintTx : B256}
    (h : bridge.completeDeposit depositId l2MintTx = .ok bridge') :
    ∃ deposit, bridge.deposits.lookup depositId = some deposit ∧ deposit.status = .confirmed ∧
      bridge' = { bridge.setDeposit depositId
          { deposit with status := .minted, l2MintTx := some l2MintTx } with
        totalDeposited := bridge.totalDeposited + deposit.amount } := by
  unfold completeDeposit at h
  split at h
  · cases h
  next deposit hdeposit =>
  split at h
  · cases h
  next hconfirmed =>
  cases h
  exact ⟨deposit, hdeposit, not_not.mp hconfirmed, rfl⟩

theorem completeWithdrawal_ok {withdrawalId : B256} {l1ClaimTx : H256}
    (h : bridge.completeWithdrawal withdrawalId l1ClaimTx = .ok bridge') :
    ∃ withdrawal, bridge.withdrawals.lookup withdrawalId = some withdrawal ∧
      withdrawal.status = .ready ∧ bridge' = { bridge.setWithdrawal withdrawalId
          { withdrawal with status := .claimed, l1ClaimTx := some l1ClaimTx } with
        totalWithdrawn := bridge.totalWithdrawn + withdrawal.amount } := by
  unfold completeWithdrawal at h
  split at h
  · cases h
  next withdrawal hwithdrawal =>
  split at h
  · cases h
  next hready =>
  cases h
  exact ⟨withdrawal, hwithdrawal, not_not.mp hready, rfl⟩

theorem challengeWithdrawal_ok {withdrawalId : B256}
    (h : bridge.challengeWithdrawal withdrawalId = .ok bridge') :
    ∃ withdrawal, bridge.withdrawals.lookup withdrawalId = some withdrawal ∧
      withdrawal.status = .pending ∧
      bridge' = bridge.setWithdrawal withdrawalId { withdrawal with status := .challenged } := by
  unfold challengeWithdrawal at h
  split at h
  · cases h
  next withdrawal hwithdrawal =>
  split at h
  · cases h
  next hpending =>
  cases h
  exact ⟨withdrawal, hwithdrawal, not_not.mp hpending, rfl⟩

end Bridge

end Pyrax.Evm
