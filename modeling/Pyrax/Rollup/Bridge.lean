import Pyrax.Rollup.State
import Pyrax.Base.Records

/-!
# The L2 bridge

`pyrax-node/src/zkrollup/bridge.rs`: deposits recorded from L1 and credited once,
withdrawals debited on L2, proven, left open to challenge for a week and then
finalized on L1.

Every operation returns the bridge it leaves behind together with its result, so
that the paths that fail after touching a map are in the model too; that they
leave nothing behind is one case of `BridgeOp.effect_run`, which says once what
each call can do. The clock is read where the source
reads it, and an operation that reads it twice, or once for every record, takes
as many readings.
-/

namespace Pyrax.Rollup

open Base

def WITHDRAWAL_CHALLENGE_PERIOD : UInt64 := 7 * 24 * 60 * 60

inductive WithdrawalStatus where
  | pending
  | proven
  | challenging
  | ready
  | finalized
  | challenged
  | expired
  deriving DecidableEq

/-! ## Deposits -/

structure Deposit where
  id : H256
  l1TxHash : H256
  l1BlockNumber : UInt64
  sender : Address
  recipient : Address
  amount : UInt64
  timestamp : UInt64
  processed : Bool
  l2TxHash : Option H256
  deriving DecidableEq

namespace Deposit

def generateId (C : Crypto) (l1TxHash : H256) (sender : Address) (amount : UInt64) : H256 :=
  C.blake3 (l1TxHash.asBytes ++ sender.asBytes ++ Wire.encU64 amount)

def new (C : Crypto) (now : UInt64) (l1TxHash : H256) (l1BlockNumber : UInt64)
    (sender recipient : Address) (amount : UInt64) : Deposit where
  id := generateId C l1TxHash sender amount
  l1TxHash := l1TxHash
  l1BlockNumber := l1BlockNumber
  sender := sender
  recipient := recipient
  amount := amount
  timestamp := now
  processed := false
  l2TxHash := none

def markProcessed (d : Deposit) (l2TxHash : H256) : Deposit :=
  { d with processed := true, l2TxHash := some l2TxHash }

end Deposit

/-! ## Withdrawals -/

structure WithdrawalProof where
  withdrawalHash : H256
  stateRoot : H256
  batchNumber : UInt64
  batchProof : List UInt8
  merkleProof : MerkleProof
  outputRoot : H256
  deriving DecidableEq

/-- The batch proof only has to be there. -/
def WithdrawalProof.verify (C : Crypto) (p : WithdrawalProof) : Bool :=
  if p.merkleProof.verify C = false then false
  else if p.batchProof.isEmpty then false
  else true

structure Withdrawal where
  id : H256
  sender : Address
  recipient : Address
  amount : UInt64
  l2TxHash : H256
  l2BlockNumber : UInt64
  status : WithdrawalStatus
  proof : Option WithdrawalProof
  challengeStart : Option UInt64
  finalizedAt : Option UInt64
  l1TxHash : Option H256
  createdAt : UInt64
  deriving DecidableEq

namespace Withdrawal

def generateId (C : Crypto) (l2TxHash : H256) (sender : Address) (amount : UInt64) : H256 :=
  C.blake3 (l2TxHash.asBytes ++ sender.asBytes ++ Wire.encU64 amount)

def new (C : Crypto) (now : UInt64) (sender recipient : Address) (amount : UInt64)
    (l2TxHash : H256) (l2BlockNumber : UInt64) : Withdrawal where
  id := generateId C l2TxHash sender amount
  sender := sender
  recipient := recipient
  amount := amount
  l2TxHash := l2TxHash
  l2BlockNumber := l2BlockNumber
  status := .pending
  proof := none
  challengeStart := none
  finalizedAt := none
  l1TxHash := none
  createdAt := now

def hash (C : Crypto) (w : Withdrawal) : H256 :=
  C.blake3 (w.id.asBytes ++ w.sender.asBytes ++ w.recipient.asBytes ++ Wire.encU64 w.amount ++
    w.l2TxHash.asBytes)

def submitProof (now : UInt64) (w : Withdrawal) (proof : WithdrawalProof) : Withdrawal :=
  { w with proof := some proof, status := .proven, challengeStart := some now }

def isReady (now : UInt64) (w : Withdrawal) : Bool :=
  if w.status ≠ .proven ∧ w.status ≠ .challenging then false
  else
    match w.challengeStart with
    | some start => decide (start + WITHDRAWAL_CHALLENGE_PERIOD ≤ now)
    | none => false

def markReady (now : UInt64) (w : Withdrawal) : Withdrawal :=
  if w.isReady now then { w with status := .ready } else w

def finalize (now : UInt64) (w : Withdrawal) (l1TxHash : H256) : Withdrawal :=
  { w with status := .finalized, finalizedAt := some now, l1TxHash := some l1TxHash }

def challenge (w : Withdrawal) : Withdrawal :=
  if w.status = .proven ∨ w.status = .challenging then { w with status := .challenged } else w

/-- The withdrawal as it was when it was initiated. -/
def asInitiated (w : Withdrawal) : Withdrawal :=
  { w with
    status := .pending, proof := none, challengeStart := none, finalizedAt := none,
    l1TxHash := none }

end Withdrawal

/-! ## The bridge -/

structure BridgeStats where
  depositsRecorded : UInt64 := 0
  depositsProcessed : UInt64 := 0
  totalDeposited : UInt64 := 0
  withdrawalsInitiated : UInt64 := 0
  proofsSubmitted : UInt64 := 0
  withdrawalsFinalized : UInt64 := 0
  totalWithdrawn : UInt64 := 0
  challenges : UInt64 := 0
  deriving DecidableEq

inductive BridgeError where
  | duplicateDeposit (id : H256)
  | depositNotFound (id : H256)
  | withdrawalNotFound (id : H256)
  | insufficientBalance (available required : UInt64)
  | invalidWithdrawalState (status : WithdrawalStatus)
  | withdrawalNotReady
  | invalidProof
  | withdrawalNotInTree
  | challengePeriodActive
  deriving DecidableEq

/-- `L2Bridge`; the address of its L1 contract is never read and left out. -/
structure L2Bridge where
  state : L2State
  pendingDeposits : Column H256 Deposit
  processedDeposits : Column H256 Deposit
  pendingWithdrawals : Column H256 Withdrawal
  finalizedWithdrawals : Column H256 Withdrawal
  withdrawalTree : List H256
  stats : BridgeStats

namespace L2Bridge

variable (C : Crypto) (P : Platform)

def new (state : L2State) : L2Bridge := ⟨state, ∅, ∅, ∅, ∅, [], {}⟩

def recordDeposit (b : L2Bridge) (deposit : Deposit) : L2Bridge × Except BridgeError H256 :=
  let id := deposit.id
  if (b.pendingDeposits.lookup id).isSome then (b, .error (.duplicateDeposit id))
  else if (b.processedDeposits.lookup id).isSome then (b, .error (.duplicateDeposit id))
  else
    ({ b with
        pendingDeposits := b.pendingDeposits.insert id deposit
        stats := { b.stats with depositsRecorded := b.stats.depositsRecorded + 1 } },
      .ok id)

/-- The bytes of `b"L2_DEPOSIT"`. -/
def depositTag : List UInt8 := [76, 50, 95, 68, 69, 80, 79, 83, 73, 84]

def processDeposit (now : UInt64) (b : L2Bridge) (depositId : H256) :
    L2Bridge × Except BridgeError H256 :=
  match b.pendingDeposits.lookup depositId with
  | none => (b, .error (.depositNotFound depositId))
  | some deposit =>
    let l2TxHash := C.blake3 (deposit.id.asBytes ++ depositTag ++ Wire.encU64 now)
    ({ b with
        pendingDeposits := b.pendingDeposits.erase depositId
        state := b.state.credit C P deposit.recipient deposit.amount
        processedDeposits :=
          b.processedDeposits.insert depositId (deposit.markProcessed l2TxHash)
        stats :=
          { b.stats with
            depositsProcessed := b.stats.depositsProcessed + 1
            totalDeposited := b.stats.totalDeposited + deposit.amount } },
      .ok l2TxHash)

/-- The hash of the L2 transaction of a withdrawal. -/
def withdrawalTxHash (now : UInt64) (sender recipient : Address) (amount : UInt64) : H256 :=
  C.blake3 (sender.asBytes ++ recipient.asBytes ++ Wire.encU64 amount ++ Wire.encU64 now)

/-- The withdrawal `initiate_withdrawal` makes; the clock is read for the
transaction hash and again for the record. -/
def newWithdrawal (now created : UInt64) (b : L2Bridge) (sender recipient : Address)
    (amount : UInt64) : Withdrawal :=
  Withdrawal.new C created sender recipient amount
    (withdrawalTxHash C now sender recipient amount) b.state.blockNumber

def initiateWithdrawal (now created : UInt64) (b : L2Bridge) (sender recipient : Address)
    (amount : UInt64) : L2Bridge × Except BridgeError Withdrawal :=
  let balance := b.state.getBalance sender
  if balance < amount then (b, .error (.insufficientBalance balance amount))
  else
    match b.state.debit C P sender amount with
    | .error _ => (b, .error (.insufficientBalance balance amount))
    | .ok state =>
      let withdrawal := newWithdrawal C now created b sender recipient amount
      ({ b with
          state := state
          withdrawalTree := b.withdrawalTree ++ [withdrawal.hash C]
          pendingWithdrawals := b.pendingWithdrawals.insert withdrawal.id withdrawal
          stats := { b.stats with withdrawalsInitiated := b.stats.withdrawalsInitiated + 1 } },
        .ok withdrawal)

def submitWithdrawalProof (now : UInt64) (b : L2Bridge) (withdrawalId : H256)
    (proof : WithdrawalProof) : L2Bridge × Except BridgeError Unit :=
  if proof.verify C = false then (b, .error .invalidProof)
  else
    match b.pendingWithdrawals.lookup withdrawalId with
    | none => (b, .error (.withdrawalNotFound withdrawalId))
    | some withdrawal =>
      if withdrawal.status ≠ .pending then
        (b, .error (.invalidWithdrawalState withdrawal.status))
      else
        ({ b with
            pendingWithdrawals :=
              b.pendingWithdrawals.insert withdrawalId (withdrawal.submitProof now proof)
            stats := { b.stats with proofsSubmitted := b.stats.proofsSubmitted + 1 } },
          .ok ())

/-- `finalize_withdrawal`: the record is taken out first and put back when it is
not ready. -/
def finalizeWithdrawal (now stamp : UInt64) (b : L2Bridge) (withdrawalId l1TxHash : H256) :
    L2Bridge × Except BridgeError Unit :=
  match b.pendingWithdrawals.lookup withdrawalId with
  | none => (b, .error (.withdrawalNotFound withdrawalId))
  | some withdrawal =>
    let pending := b.pendingWithdrawals.erase withdrawalId
    if withdrawal.isReady now = false ∧ withdrawal.status ≠ .ready then
      ({ b with pendingWithdrawals := pending.insert withdrawalId withdrawal },
        .error .withdrawalNotReady)
    else
      ({ b with
          pendingWithdrawals := pending
          finalizedWithdrawals :=
            b.finalizedWithdrawals.insert withdrawalId (withdrawal.finalize stamp l1TxHash)
          stats :=
            { b.stats with
              withdrawalsFinalized := b.stats.withdrawalsFinalized + 1
              totalWithdrawn := b.stats.totalWithdrawn + withdrawal.amount } },
        .ok ())

/-- `challenge_withdrawal`; the fraud proof is not looked at. -/
def challengeWithdrawal (b : L2Bridge) (withdrawalId : H256) (_fraudProof : List UInt8) :
    L2Bridge × Except BridgeError Unit :=
  match b.pendingWithdrawals.lookup withdrawalId with
  | none => (b, .error (.withdrawalNotFound withdrawalId))
  | some withdrawal =>
    if withdrawal.status ≠ .proven ∧ withdrawal.status ≠ .challenging then
      (b, .error (.invalidWithdrawalState withdrawal.status))
    else
      ({ b with
          pendingWithdrawals := b.pendingWithdrawals.insert withdrawalId withdrawal.challenge
          state := b.state.credit C P withdrawal.sender withdrawal.amount
          stats := { b.stats with challenges := b.stats.challenges + 1 } },
        .ok ())

/-- `update_ready_withdrawals`, with the reading made at each record. -/
def updateReadyWithdrawals (now : H256 → UInt64) (b : L2Bridge) : L2Bridge :=
  { b with
    pendingWithdrawals := Column.mapValues (fun id w => w.markReady (now id))
      b.pendingWithdrawals }

/-- The loop of `generate_merkle_proof` over the levels above `level`: siblings,
path and the last level. As in `climbLevels` the length is fuel enough. -/
def merklePath : Nat → Nat → List H256 → List H256 × List Bool × List H256
  | 0, _, level => ([], [], level)
  | fuel + 1, idx, level =>
    if 1 < level.length then
      let isRight := idx % 2 = 1
      let siblingIdx := if isRight then idx - 1 else idx + 1
      let rest := merklePath fuel (idx / 2) (nextLevel C level)
      (level.getD siblingIdx H256.zero :: rest.1, decide isRight :: rest.2.1, rest.2.2)
    else ([], [], level)

def generateMerkleProof (b : L2Bridge) (withdrawalHash : H256) :
    Except BridgeError MerkleProof :=
  match b.withdrawalTree.findIdx? (· == withdrawalHash) with
  | none => .error .withdrawalNotInTree
  | some index =>
    let r := merklePath C b.withdrawalTree.length index b.withdrawalTree
    .ok { leaf := withdrawalHash, siblings := r.1, path := r.2.1, root := r.2.2.headD H256.zero }

def computeOutputRoot (stateRoot withdrawalRoot : H256) : H256 :=
  hashPair C stateRoot withdrawalRoot

def generateWithdrawalProof (b : L2Bridge) (withdrawalId : H256) (batchNumber : UInt64)
    (batchProof : List UInt8) : Except BridgeError WithdrawalProof :=
  match b.pendingWithdrawals.lookup withdrawalId with
  | none => .error (.withdrawalNotFound withdrawalId)
  | some withdrawal => do
    let stateRoot := b.state.stateRoot
    let withdrawalHash := withdrawal.hash C
    let merkleProof ← generateMerkleProof C b withdrawalHash
    let outputRoot := computeOutputRoot C stateRoot withdrawalHash
    .ok { withdrawalHash, stateRoot, batchNumber, batchProof, merkleProof, outputRoot }

end L2Bridge

/-! ## Operations -/

/-- A call to the bridge, with the clock readings made in it. -/
inductive BridgeOp where
  | recordDeposit (deposit : Deposit)
  | processDeposit (now : UInt64) (depositId : H256)
  | initiateWithdrawal (now created : UInt64) (sender recipient : Address) (amount : UInt64)
  | submitWithdrawalProof (now : UInt64) (withdrawalId : H256) (proof : WithdrawalProof)
  | updateReadyWithdrawals (now : H256 → UInt64)
  | finalizeWithdrawal (now stamp : UInt64) (withdrawalId l1TxHash : H256)
  | challengeWithdrawal (withdrawalId : H256) (fraudProof : List UInt8)

namespace BridgeOp

variable (C : Crypto) (P : Platform)

/-- The bridge after a call, and whether the call returned `Ok`. -/
def run (b : L2Bridge) : BridgeOp → L2Bridge × Bool
  | recordDeposit deposit =>
    let r := b.recordDeposit deposit
    (r.1, r.2.isOk)
  | processDeposit now depositId =>
    let r := b.processDeposit C P now depositId
    (r.1, r.2.isOk)
  | initiateWithdrawal now created sender recipient amount =>
    let r := b.initiateWithdrawal C P now created sender recipient amount
    (r.1, r.2.isOk)
  | submitWithdrawalProof now withdrawalId proof =>
    let r := b.submitWithdrawalProof C now withdrawalId proof
    (r.1, r.2.isOk)
  | updateReadyWithdrawals now => (b.updateReadyWithdrawals now, true)
  | finalizeWithdrawal now stamp withdrawalId l1TxHash =>
    let r := b.finalizeWithdrawal now stamp withdrawalId l1TxHash
    (r.1, r.2.isOk)
  | challengeWithdrawal withdrawalId fraudProof =>
    let r := b.challengeWithdrawal C P withdrawalId fraudProof
    (r.1, r.2.isOk)

/-- What a call needs in order to succeed. -/
def Enabled (b : L2Bridge) : BridgeOp → Prop
  | recordDeposit deposit => b.pendingDeposits.lookup deposit.id = none ∧
      b.processedDeposits.lookup deposit.id = none
  | processDeposit _ id => ∃ deposit, b.pendingDeposits.lookup id = some deposit
  | initiateWithdrawal _ _ sender _ amount => amount ≤ b.state.getBalance sender
  | submitWithdrawalProof _ id proof => proof.verify C = true ∧
      ∃ w, b.pendingWithdrawals.lookup id = some w ∧ w.status = .pending
  | updateReadyWithdrawals _ => True
  | finalizeWithdrawal now _ id _ => ∃ w, b.pendingWithdrawals.lookup id = some w ∧
      (w.isReady now = true ∨ w.status = .ready)
  | challengeWithdrawal id _ => ∃ w, b.pendingWithdrawals.lookup id = some w ∧
      (w.status = .proven ∨ w.status = .challenging)

/-- What a call can do to the accounts and the maps: nothing when it is refused,
else what its own case says. -/
inductive Effect (b : L2Bridge) : BridgeOp → L2Bridge → Bool → Prop where
  | refused {op : BridgeOp} (h : ¬ op.Enabled C b) : Effect b op b false
  | recorded {deposit : Deposit} {stats : BridgeStats}
      (hpending : b.pendingDeposits.lookup deposit.id = none)
      (hprocessed : b.processedDeposits.lookup deposit.id = none) :
      Effect b (recordDeposit deposit)
        { b with
          pendingDeposits := b.pendingDeposits.insert deposit.id deposit
          stats := stats } true
  | processed {now : UInt64} {id l2TxHash : H256} {deposit : Deposit} {stats : BridgeStats}
      (hlookup : b.pendingDeposits.lookup id = some deposit) :
      Effect b (processDeposit now id)
        { b with
          pendingDeposits := b.pendingDeposits.erase id
          state := b.state.credit C P deposit.recipient deposit.amount
          processedDeposits := b.processedDeposits.insert id (deposit.markProcessed l2TxHash)
          stats := stats } true
  | initiated {now created : UInt64} {sender recipient : Address} {amount : UInt64}
      {state : L2State} {stats : BridgeStats} {w : Withdrawal}
      (hw : w = L2Bridge.newWithdrawal C now created b sender recipient amount)
      (hdebit : b.state.debit C P sender amount = .ok state) :
      Effect b (initiateWithdrawal now created sender recipient amount)
        { b with
          state := state
          withdrawalTree := b.withdrawalTree ++ [w.hash C]
          pendingWithdrawals := b.pendingWithdrawals.insert w.id w
          stats := stats } true
  | proven {now : UInt64} {id : H256} {proof : WithdrawalProof} {w : Withdrawal}
      {stats : BridgeStats} (hverify : proof.verify C = true)
      (hlookup : b.pendingWithdrawals.lookup id = some w) (hstatus : w.status = .pending) :
      Effect b (submitWithdrawalProof now id proof)
        { b with
          pendingWithdrawals := b.pendingWithdrawals.insert id (w.submitProof now proof)
          stats := stats } true
  | updated (now : H256 → UInt64) :
      Effect b (updateReadyWithdrawals now) (b.updateReadyWithdrawals now) true
  | finalized {now stamp : UInt64} {id l1TxHash : H256} {w : Withdrawal} {stats : BridgeStats}
      (hlookup : b.pendingWithdrawals.lookup id = some w)
      (hready : w.isReady now = true ∨ w.status = .ready) :
      Effect b (finalizeWithdrawal now stamp id l1TxHash)
        { b with
          pendingWithdrawals := b.pendingWithdrawals.erase id
          finalizedWithdrawals := b.finalizedWithdrawals.insert id (w.finalize stamp l1TxHash)
          stats := stats } true
  | challenged {id : H256} {fraudProof : List UInt8} {w : Withdrawal} {stats : BridgeStats}
      (hlookup : b.pendingWithdrawals.lookup id = some w)
      (hstatus : w.status = .proven ∨ w.status = .challenging) :
      Effect b (challengeWithdrawal id fraudProof)
        { b with
          pendingWithdrawals := b.pendingWithdrawals.insert id w.challenge
          state := b.state.credit C P w.sender w.amount
          stats := stats } true

variable {C P}

theorem effect_run (b : L2Bridge) (op : BridgeOp) :
    Effect C P b op (op.run C P b).1 (op.run C P b).2 := by
  cases op with
  | recordDeposit deposit =>
    rw [run, L2Bridge.recordDeposit]
    dsimp only
    split
    · next hp => exact .refused fun h => by simp [h.1] at hp
    · next hp =>
      split
      · next hq => exact .refused fun h => by simp [h.2] at hq
      · next hq =>
        have hp' := Option.not_isSome_iff_eq_none.mp hp
        exact .recorded hp' (Option.not_isSome_iff_eq_none.mp hq)
  | processDeposit now id =>
    rw [run, L2Bridge.processDeposit]
    split
    · next hnone => exact .refused fun ⟨_, h⟩ => by simp [hnone] at h
    · next deposit h => exact .processed h
  | initiateWithdrawal now created sender recipient amount =>
    rw [run, L2Bridge.initiateWithdrawal]
    dsimp only
    split
    · next hlt => exact .refused fun h => absurd hlt (UInt64.not_lt.mpr h)
    · next hge =>
      split
      -- the debit makes the same check again
      · next e hdebit =>
        rw [debit_ok_iff.mpr ⟨UInt64.not_lt.mp hge, rfl⟩] at hdebit
        cases hdebit
      · next state h => exact .initiated rfl h
  | submitWithdrawalProof now id proof =>
    rw [run, L2Bridge.submitWithdrawalProof]
    split
    · next hv => exact .refused fun h => by simp [h.1] at hv
    · next hv =>
      split
      · next hnone => exact .refused fun ⟨_, _, h, _⟩ => by simp [hnone] at h
      · next w h =>
        split
        · next hst =>
          refine .refused fun ⟨_, w', h', hst'⟩ => hst ?_
          rw [h] at h'
          rw [Option.some.inj h', hst']
        · next hst => exact .proven (Bool.not_eq_false _ ▸ hv) h (not_ne_iff.mp hst)
  | updateReadyWithdrawals now => exact .updated now
  | finalizeWithdrawal now stamp id l1TxHash =>
    rw [run, L2Bridge.finalizeWithdrawal]
    split
    · next hnone => exact .refused fun ⟨_, h, _⟩ => by simp [hnone] at h
    · next w h =>
      dsimp only
      split
      -- what was taken out is put back
      · next hnot =>
        rw [Column.insert_erase h]
        refine .refused fun ⟨w', h', hready⟩ => ?_
        rw [h] at h'
        cases h'
        rcases hready with hready | hready
        · exact Bool.false_ne_true (hnot.1.symm.trans hready)
        · exact hnot.2 hready
      · next hready =>
        refine .finalized h ?_
        by_cases hst : w.status = .ready
        · exact Or.inr hst
        · exact Or.inl (Bool.not_eq_false _ ▸ fun hr => hready ⟨hr, hst⟩)
  | challengeWithdrawal id fraudProof =>
    rw [run, L2Bridge.challengeWithdrawal]
    split
    · next hnone => exact .refused fun ⟨_, h, _⟩ => by simp [hnone] at h
    · next w h =>
      split
      · next hst =>
        refine .refused fun ⟨w', h', hst'⟩ => ?_
        rw [h] at h'
        cases h'
        tauto
      · next hst => exact .challenged h (by tauto)

end BridgeOp

/-- The bridge after a list of calls. -/
def runBridge (C : Crypto) (P : Platform) (b : L2Bridge) (ops : List BridgeOp) : L2Bridge :=
  ops.foldl (fun b op => (op.run C P b).1) b

end Pyrax.Rollup
