import Pyrax.Base.Sums
import Pyrax.Base.Records
import Pyrax.Base.Word
import Pyrax.Types.Genesis

/-!
# The fee distributor

`pyrax-node/src/bridge/fee_distribution.rs`: the fees of a block are split over three
streams and the treasury, wait in four pots, and are paid out in rounds. A round
empties the pots, shares the first three by the weights of the stream's recipients,
each share rounded down, and writes a record for every share that is not zero.

A pot is emptied before anyone is found to pay it to. What the rounding leaves is
lost, and so is the whole pot of a stream without recipients or with no weight. And
the weights are added up in a machine word: past `2^64` the shares are too large.
`paidOut_of_fit` says what becomes of one pot, `distribute_due` what a round does.

Every record reads the clock for itself, and the walk over a hash map of recipients
follows an order the call is given.
-/

namespace Pyrax.Bridge

open Base Word

def STREAM_A_SHARE_PERCENT : Nat := 20
def STREAM_B_SHARE_PERCENT : Nat := 40
def STREAM_C_SHARE_PERCENT : Nat := 30

structure FeeAllocation where
  blockHeight : UInt64
  blockHash : H256
  totalFees : UInt64
  streamAAmount : UInt64
  streamBAmount : UInt64
  streamCAmount : UInt64
  treasuryAmount : UInt64
  timestamp : UInt64
  distributed : Bool

/-- `FeeAllocation::new`: the treasury gets what the three shares leave. -/
def FeeAllocation.new (now blockHeight : UInt64) (blockHash : H256) (totalFees : UInt64) :
    FeeAllocation :=
  let a := mulDiv totalFees.toNat STREAM_A_SHARE_PERCENT 100
  let b := mulDiv totalFees.toNat STREAM_B_SHARE_PERCENT 100
  let c := mulDiv totalFees.toNat STREAM_C_SHARE_PERCENT 100
  { blockHeight := blockHeight
    blockHash := blockHash
    totalFees := totalFees
    streamAAmount := a
    streamBAmount := b
    streamCAmount := c
    treasuryAmount := saturatingSub (saturatingSub (saturatingSub totalFees a) b) c
    timestamp := now
    distributed := false }

structure DistributionRecord where
  recipient : Address
  stream : Stream
  amount : UInt64
  sourceBlock : UInt64
  txHash : Option H256
  timestamp : UInt64
  claimed : Bool

structure PendingFees where
  streamA : UInt64
  streamB : UInt64
  streamC : UInt64
  treasury : UInt64

namespace PendingFees

def add (p : PendingFees) (allocation : FeeAllocation) : PendingFees where
  streamA := saturatingAdd p.streamA allocation.streamAAmount
  streamB := saturatingAdd p.streamB allocation.streamBAmount
  streamC := saturatingAdd p.streamC allocation.streamCAmount
  treasury := saturatingAdd p.treasury allocation.treasuryAmount

def total (p : PendingFees) : UInt64 :=
  saturatingAdd (saturatingAdd (saturatingAdd p.streamA p.streamB) p.streamC) p.treasury

/-- The pot of a stream. -/
def stream (p : PendingFees) : Stream → UInt64
  | .A => p.streamA
  | .B => p.streamB
  | .C => p.streamC

/-- `take_stream`, without what was taken. -/
def emptyStream (p : PendingFees) : Stream → PendingFees
  | .A => { p with streamA := 0 }
  | .B => { p with streamB := 0 }
  | .C => { p with streamC := 0 }

/-- `take_treasury`, without what was taken. -/
def emptyTreasury (p : PendingFees) : PendingFees := { p with treasury := 0 }

end PendingFees

structure FeeDistributor where
  treasuryAddress : Address
  allocations : List FeeAllocation
  distributions : Column Address (List DistributionRecord)
  pending : PendingFees
  totalCollected : UInt64
  totalDistributed : UInt64
  streamARecipients : Column Address UInt64
  streamBRecipients : Column Address UInt64
  streamCRecipients : Column Address UInt64
  minDistributionThreshold : UInt64
  distributionInterval : UInt64
  lastDistributionBlock : UInt64

structure DistributionResult where
  streamADistributed : UInt64
  streamARecipients : UInt64
  streamBDistributed : UInt64
  streamBRecipients : UInt64
  streamCDistributed : UInt64
  streamCRecipients : UInt64
  treasuryDistributed : UInt64
  totalDistributed : UInt64

abbrev RecipientOrder := Column.KeyOrder Address UInt64

namespace FeeDistributor

def new (treasuryAddress : Address) : FeeDistributor where
  treasuryAddress := treasuryAddress
  allocations := []
  distributions := ∅
  pending := ⟨0, 0, 0, 0⟩
  totalCollected := 0
  totalDistributed := 0
  streamARecipients := ∅
  streamBRecipients := ∅
  streamCRecipients := ∅
  minDistributionThreshold := 100000000
  distributionInterval := 100
  lastDistributionBlock := 0

/-- `collect_fees`, without the allocation it returns. -/
def collectFees (s : FeeDistributor) (now blockHeight : UInt64) (blockHash : H256)
    (totalFees : UInt64) : FeeDistributor :=
  let allocation := FeeAllocation.new now blockHeight blockHash totalFees
  { s with
    pending := s.pending.add allocation
    allocations := s.allocations ++ [allocation]
    totalCollected := s.totalCollected + totalFees }

def recipients (s : FeeDistributor) : Stream → Column Address UInt64
  | .A => s.streamARecipients
  | .B => s.streamBRecipients
  | .C => s.streamCRecipients

def setRecipients (s : FeeDistributor) (m : Column Address UInt64) : Stream → FeeDistributor
  | .A => { s with streamARecipients := m }
  | .B => { s with streamBRecipients := m }
  | .C => { s with streamCRecipients := m }

/-- `register_recipient`: weight on top of what the recipient has. -/
def registerRecipient (s : FeeDistributor) (stream : Stream) (address : Address)
    (weight : UInt64) : FeeDistributor :=
  let m := s.recipients stream
  s.setRecipients (m.insert address (saturatingAdd ((m.lookup address).getD 0) weight)) stream

def updateRecipientWeight (s : FeeDistributor) (stream : Stream) (address : Address)
    (weight : UInt64) : FeeDistributor :=
  s.setRecipients ((s.recipients stream).insert address weight) stream

def removeRecipient (s : FeeDistributor) (stream : Stream) (address : Address) : FeeDistributor :=
  s.setRecipients ((s.recipients stream).erase address) stream

def shouldDistribute (s : FeeDistributor) (currentBlock : UInt64) : Bool :=
  s.lastDistributionBlock + s.distributionInterval ≤ currentBlock ∧
    s.minDistributionThreshold ≤ s.pending.total

/-- `map.values().sum()`. -/
def totalWeight (entries : List (Address × UInt64)) : UInt64 :=
  entries.foldl (fun sum e => sum + e.2) 0

/-- `calculate_stream_distribution`. -/
def calculateStreamDistribution (s : FeeDistributor) (order : RecipientOrder) (stream : Stream)
    (amount : UInt64) : List (Address × UInt64) :=
  let entries := order.entries (s.recipients stream)
  let whole := totalWeight entries
  if whole = 0 ∨ entries.isEmpty then []
  else
    (entries.map fun e => (e.1, mulDiv amount.toNat e.2.toNat whole.toNat)).filter
      fun e => 0 < e.2

/-- The record `record_distribution` makes. -/
def record (now : UInt64) (recipient : Address) (stream : Stream) (amount sourceBlock : UInt64) :
    DistributionRecord where
  recipient := recipient
  stream := stream
  amount := amount
  sourceBlock := sourceBlock
  txHash := none
  timestamp := now
  claimed := false

/-- `record_distribution`. -/
def recordDistribution (s : FeeDistributor) (r : DistributionRecord) : FeeDistributor :=
  { s with
    distributions := s.distributions.insert r.recipient
      ((s.distributions.lookup r.recipient).getD [] ++ [r]) }

/-- One stream's part of a round: take the pot, and record every share. With what was
distributed, and to how many. -/
def distributeStream (s : FeeDistributor) (order : RecipientOrder) (clock : Address → UInt64)
    (stream : Stream) (currentBlock : UInt64) : FeeDistributor × UInt64 × UInt64 :=
  let amount := s.pending.stream stream
  let s := { s with pending := s.pending.emptyStream stream }
  if 0 < amount then
    (s.calculateStreamDistribution order stream amount).foldl (fun acc e =>
      (acc.1.recordDistribution (record (clock e.1) e.1 stream e.2 currentBlock),
        acc.2.1 + e.2, acc.2.2 + 1)) (s, 0, 0)
  else (s, 0, 0)

/-- The treasury's part: its pot is recorded as a payment of stream A. -/
def distributeTreasury (s : FeeDistributor) (now currentBlock : UInt64) :
    FeeDistributor × UInt64 :=
  let amount := s.pending.treasury
  let s := { s with pending := s.pending.emptyTreasury }
  if 0 < amount then
    (s.recordDistribution (record now s.treasuryAddress .A amount currentBlock), amount)
  else (s, 0)

/-- `distribute`. -/
def distribute (s : FeeDistributor) (order : Stream → RecipientOrder)
    (clock : Stream → Address → UInt64) (treasuryAt currentBlock : UInt64) :
    FeeDistributor × DistributionResult :=
  if s.shouldDistribute currentBlock then
    let (s, a, countA) := s.distributeStream (order .A) (clock .A) .A currentBlock
    let (s, b, countB) := s.distributeStream (order .B) (clock .B) .B currentBlock
    let (s, c, countC) := s.distributeStream (order .C) (clock .C) .C currentBlock
    let (s, t) := s.distributeTreasury treasuryAt currentBlock
    let total := a + b + c + t
    ({ s with
        totalDistributed := s.totalDistributed + total
        lastDistributionBlock := currentBlock },
      ⟨a, countA, b, countB, c, countC, t, total⟩)
  else (s, ⟨0, 0, 0, 0, 0, 0, 0, 0⟩)

/-- `mark_claimed`. -/
def markClaimed (s : FeeDistributor) (address : Address) (txHash : H256) : FeeDistributor :=
  match s.distributions.lookup address with
  | none => s
  | some records =>
    { s with
      distributions := s.distributions.insert address (records.map fun r =>
        if r.claimed then r else { r with claimed := true, txHash := some txHash }) }

end FeeDistributor

/-- A call on the distributor. -/
inductive FeeOp where
  | collectFees (now blockHeight : UInt64) (blockHash : H256) (totalFees : UInt64)
  | registerRecipient (stream : Stream) (address : Address) (weight : UInt64)
  | updateRecipientWeight (stream : Stream) (address : Address) (weight : UInt64)
  | removeRecipient (stream : Stream) (address : Address)
  | distribute (order : Stream → RecipientOrder) (clock : Stream → Address → UInt64)
      (treasuryAt currentBlock : UInt64)
  | markClaimed (address : Address) (txHash : H256)

namespace FeeOp

def apply (s : FeeDistributor) : FeeOp → FeeDistributor
  | collectFees now blockHeight blockHash totalFees =>
    s.collectFees now blockHeight blockHash totalFees
  | registerRecipient stream address weight => s.registerRecipient stream address weight
  | updateRecipientWeight stream address weight => s.updateRecipientWeight stream address weight
  | removeRecipient stream address => s.removeRecipient stream address
  | distribute order clock treasuryAt currentBlock =>
    (s.distribute order clock treasuryAt currentBlock).1
  | markClaimed address txHash => s.markClaimed address txHash

def run (s : FeeDistributor) (ops : List FeeOp) : FeeDistributor := ops.foldl apply s

theorem run_snoc (s : FeeDistributor) (ops : List FeeOp) (op : FeeOp) :
    run s (ops ++ [op]) = op.apply (run s ops) :=
  List.foldl_concat ..

/-- The fees a call brings. -/
def fees : FeeOp → Nat
  | collectFees _ _ _ totalFees => totalFees.toNat
  | registerRecipient .. | updateRecipientWeight .. | removeRecipient .. | distribute ..
  | markClaimed .. => 0

end FeeOp

/-! ## What should hold -/

namespace FeeDistributor

/-- All records. -/
def records (s : FeeDistributor) : Multiset DistributionRecord :=
  (Column.records Multiset.ofList s.distributions).sum

/-- What is recorded in all. -/
def recorded (s : FeeDistributor) : Nat := (s.records.map fun r => r.amount.toNat).sum

/-- What is collected is recorded or pending, and what is distributed is recorded. -/
structure Conserved (s : FeeDistributor) : Prop where
  collected : s.totalCollected.toNat = s.recorded + s.pending.total.toNat
  distributed : s.totalDistributed.toNat = s.recorded

/-- The records of a stream's pot. -/
def streamRecords (s : FeeDistributor) (order : RecipientOrder) (clock : Address → UInt64)
    (stream : Stream) (currentBlock : UInt64) : List DistributionRecord :=
  (s.calculateStreamDistribution order stream (s.pending.stream stream)).map
    fun e => record (clock e.1) e.1 stream e.2 currentBlock

/-- The record of the treasury's pot, if there is one. -/
def treasuryRecords (s : FeeDistributor) (now currentBlock : UInt64) : List DistributionRecord :=
  if 0 < s.pending.treasury then
    [record now s.treasuryAddress .A s.pending.treasury currentBlock]
  else []

end FeeDistributor

namespace FeeOp

open FeeDistributor

/-- The records a round makes, each with the pot it is taken from. -/
def drawn (s : FeeDistributor) : FeeOp → List (DistributionRecord × UInt64)
  | distribute order clock treasuryAt currentBlock =>
    if s.shouldDistribute currentBlock then
      [Stream.A, .B, .C].flatMap (fun stream =>
        (s.streamRecords (order stream) (clock stream) stream currentBlock).map
          fun r => (r, s.pending.stream stream)) ++
      (s.treasuryRecords treasuryAt currentBlock).map fun r => (r, s.pending.treasury)
    else []
  | collectFees .. | registerRecipient .. | updateRecipientWeight .. | removeRecipient ..
  | markClaimed .. => []

/-- In a round the weights of every stream fit a machine word. -/
def WeightsFit (s : FeeDistributor) : FeeOp → Prop
  | distribute _ _ _ currentBlock => s.shouldDistribute currentBlock →
    ∀ stream, s.pending.stream stream ≠ 0 →
      Column.total UInt64.toNat (s.recipients stream) < 2 ^ 64
  | collectFees .. | registerRecipient .. | updateRecipientWeight .. | removeRecipient ..
  | markClaimed .. => True

/-- In a round every pot that is not empty has some weight to go to, and every share of
it comes out even. -/
def Even (s : FeeDistributor) : FeeOp → Prop
  | distribute _ _ _ currentBlock => s.shouldDistribute currentBlock →
    ∀ stream, s.pending.stream stream ≠ 0 →
      0 < Column.total UInt64.toNat (s.recipients stream) ∧
      ∀ address weight, (s.recipients stream).lookup address = some weight →
        Column.total UInt64.toNat (s.recipients stream)
          ∣ (s.pending.stream stream).toNat * weight.toNat
  | collectFees .. | registerRecipient .. | updateRecipientWeight .. | removeRecipient ..
  | markClaimed .. => True

end FeeOp

/-! ## Shares -/

namespace FeeDistributor

variable {s : FeeDistributor} {order : RecipientOrder} {stream : Stream} {amount : UInt64}

theorem toNat_totalWeight (entries : List (Address × UInt64)) :
    (totalWeight entries).toNat = (entries.map fun e => e.2.toNat).sum % 2 ^ 64 := by
  have hfold : ∀ sum : UInt64, (entries.foldl (fun sum e => sum + e.2) sum).toNat
      = (sum.toNat + (entries.map fun e => e.2.toNat).sum) % 2 ^ 64 := by
    induction entries with
    | nil =>
      intro sum
      exact (Nat.mod_eq_of_lt sum.toNat_lt).symm
    | cons e entries ih =>
      intro sum
      rw [List.foldl_cons, ih, UInt64.toNat_add, List.map_cons, List.sum_cons]
      omega
  rw [totalWeight, hfold]
  exact congrArg (· % 2 ^ 64) (Nat.zero_add _)

/-- The weights of a stream that fit are added up as they are. -/
theorem toNat_totalWeight_of_fit (order : RecipientOrder) {m : Column Address UInt64}
    (hfit : Column.total UInt64.toNat m < 2 ^ 64) :
    (totalWeight (order.entries m)).toNat = Column.total UInt64.toNat m := by
  rw [toNat_totalWeight, order.sum_entries UInt64.toNat m]
  exact Nat.mod_eq_of_lt hfit

variable (amount) in
/-- A share of the whole fits a word. -/
theorem toNat_share {m : Column Address UInt64} {e : Address × UInt64}
    (he : e ∈ order.entries m) :
    (mulDiv amount.toNat e.2.toNat (Column.total UInt64.toNat m)).toNat
      = amount.toNat * e.2.toNat / Column.total UInt64.toNat m ∧
    amount.toNat * e.2.toNat / Column.total UInt64.toNat m ≤ amount.toNat := by
  have hle : e.2.toNat ≤ Column.total UInt64.toNat m := by
    rw [← order.sum_entries UInt64.toNat m]
    exact List.single_le_sum (fun _ _ => Nat.zero_le _) _
      (List.mem_map_of_mem (f := fun e : Address × UInt64 => e.2.toNat) he)
  have hbound : amount.toNat * e.2.toNat / Column.total UInt64.toNat m ≤ amount.toNat :=
    Nat.div_le_of_le_mul (by rw [Nat.mul_comm (Column.total _ _)]; exact Nat.mul_le_mul_left _ hle)
  refine ⟨?_, hbound⟩
  rw [mulDiv, UInt64.toNat_ofNat']
  exact Nat.mod_eq_of_lt (Nat.lt_of_le_of_lt hbound amount.toNat_lt)

/-- What a stream pays out of a pot. -/
def paidOut (s : FeeDistributor) (order : RecipientOrder) (stream : Stream) (amount : UInt64) :
    Nat :=
  ((s.calculateStreamDistribution order stream amount).map fun e => e.2.toNat).sum

/-- Shares of nothing are not recorded. -/
theorem sum_filter_pos (l : List (Address × UInt64)) :
    ((l.filter fun e => 0 < e.2).map fun e => e.2.toNat).sum = (l.map fun e => e.2.toNat).sum := by
  induction l with
  | nil => rfl
  | cons e l ih =>
    by_cases hpos : 0 < e.2
    · rw [List.filter_cons_of_pos (by simpa using hpos), List.map_cons, List.map_cons,
        List.sum_cons, List.sum_cons, ih]
    · have hzero : e.2.toNat = 0 := by
        rw [UInt64.lt_iff_toNat_lt] at hpos
        exact Nat.eq_zero_of_not_pos hpos
      rw [List.filter_cons_of_neg (by simpa using hpos), List.map_cons, List.sum_cons, ih, hzero,
        Nat.zero_add]

variable (order amount) in
/-- **The shares of a pot**, where the weights fit: none exceeds the pot, and together
they use it up exactly when there is some weight and every share is even. -/
theorem paidOut_of_fit (hfit : Column.total UInt64.toNat (s.recipients stream) < 2 ^ 64) :
    (∀ e ∈ s.calculateStreamDistribution order stream amount, e.2 ≤ amount) ∧
      s.paidOut order stream amount ≤ amount.toNat ∧
      (amount ≠ 0 → (s.paidOut order stream amount = amount.toNat ↔
        0 < Column.total UInt64.toNat (s.recipients stream) ∧
        ∀ address weight, (s.recipients stream).lookup address = some weight →
          Column.total UInt64.toNat (s.recipients stream) ∣ amount.toNat * weight.toNat)) := by
  have hwhole := toNat_totalWeight_of_fit order hfit
  have hsum := order.sum_entries UInt64.toNat (s.recipients stream)
  have hne : ∀ {n : Nat}, amount ≠ 0 → n = 0 → n ≠ amount.toNat := by
    intro n hamount hn heq
    exact hamount (UInt64.toNat_inj.mp (heq.symm.trans hn))
  unfold paidOut calculateStreamDistribution
  simp only
  split
  · next hnone =>
    refine ⟨nofun, Nat.zero_le _, fun hamount => iff_of_false (hne hamount rfl) ?_⟩
    rintro ⟨hpos, _⟩
    rcases hnone with hzero | hempty
    · rw [hzero] at hwhole
      exact absurd hwhole (Nat.ne_of_lt hpos)
    · rw [List.isEmpty_iff.mp hempty] at hsum
      exact absurd hsum (Nat.ne_of_lt hpos)
  · next hsome =>
    have hpos : 0 < Column.total UInt64.toNat (s.recipients stream) := by
      rw [← hwhole]
      refine Nat.pos_of_ne_zero fun hzero => hsome (.inl ?_)
      exact UInt64.toNat_inj.mp hzero
    have hshares : (((order.entries (s.recipients stream)).map fun e => (e.1, mulDiv amount.toNat
        e.2.toNat (totalWeight (order.entries (s.recipients stream))).toNat)).map
          fun e => e.2.toNat).sum = ((order.entries (s.recipients stream)).map fun e =>
        amount.toNat * e.2.toNat / Column.total UInt64.toNat (s.recipients stream)).sum := by
      rw [List.map_map, hwhole]
      exact congrArg List.sum (List.map_congr_left fun e he => (toNat_share amount he).1)
    rw [sum_filter_pos, hshares]
    refine ⟨?_, sum_share_le hsum, fun _ => ?_⟩
    · intro e he
      obtain ⟨e', he', rfl⟩ := List.mem_map.mp (List.mem_filter.mp he).1
      obtain ⟨hshare, hle⟩ := toNat_share amount he'
      rw [UInt64.le_iff_toNat_le, hwhole, hshare]
      exact hle
    · rw [sum_share_eq_iff hsum hpos]
      constructor
      · intro heven
        exact ⟨hpos, fun address weight hlookup =>
          heven (address, weight) (order.mem_entries.mpr hlookup)⟩
      · rintro ⟨_, heven⟩ e he
        exact heven e.1 e.2 (order.mem_entries.mp he)

end FeeDistributor

/-! ## One round -/

namespace FeeDistributor

variable {s : FeeDistributor}

/-- A record more. -/
theorem records_recordDistribution (s : FeeDistributor) (r : DistributionRecord) :
    (s.recordDistribution r).records = r ::ₘ s.records := by
  show (Column.records Multiset.ofList (s.distributions.insert r.recipient
    ((s.distributions.lookup r.recipient).getD [] ++ [r]))).sum = _
  cases hlookup : s.distributions.lookup r.recipient with
  | none =>
    rw [Column.sum_records_insert _ _ (Finmap.lookup_eq_none.mp hlookup)]
    exact Multiset.singleton_add r _
  | some rs =>
    have hreplace := Column.sum_records_replace Multiset.ofList hlookup (rs ++ [r])
    rw [← Multiset.coe_add, Multiset.add_assoc] at hreplace
    have hcancel := Multiset.add_right_inj.mp hreplace
    rw [Option.getD_some, hcancel]
    exact Multiset.singleton_add r _

/-- Recording a list of shares one after the other: only the records change. -/
theorem foldl_recordDistribution (mk : Address × UInt64 → DistributionRecord)
    (shares : List (Address × UInt64)) (s : FeeDistributor) (paid count : UInt64) :
    ∃ distributions, shares.foldl (fun acc e =>
        (acc.1.recordDistribution (mk e), acc.2.1 + e.2, acc.2.2 + 1)) (s, paid, count)
      = ({ s with distributions := distributions }, paid + UInt64.ofNat
          ((shares.map fun e => e.2.toNat).sum), count + UInt64.ofNat shares.length) ∧
      ({ s with distributions := distributions } : FeeDistributor).records
        = ↑(shares.map mk) + s.records := by
  induction shares generalizing s paid count with
  | nil =>
    refine ⟨s.distributions, ?_, (Multiset.zero_add _).symm⟩
    show (s, paid, count) = (s, paid + 0, count + 0)
    rw [UInt64.add_zero, UInt64.add_zero]
  | cons e shares ih =>
    obtain ⟨distributions, hfold, hrecords⟩ := ih (s.recordDistribution (mk e)) (paid + e.2)
      (count + 1)
    refine ⟨distributions, ?_, ?_⟩
    · rw [List.foldl_cons, hfold, List.map_cons, List.sum_cons, UInt64.ofNat_add,
        UInt64.ofNat_toNat, UInt64.add_assoc, UInt64.add_assoc, List.length_cons,
        Nat.add_comm shares.length 1, UInt64.ofNat_add]
      rfl
    · rw [records_recordDistribution] at hrecords
      refine hrecords.trans ?_
      rw [List.map_cons, Multiset.add_cons, ← Multiset.cons_coe, Multiset.cons_add]

/-- The recipients do not depend on the pots, nor on what is recorded. -/
theorem recipients_of_pending (s : FeeDistributor) (pending : PendingFees)
    {distributions : Column Address (List DistributionRecord)} :
    ({ s with pending := pending, distributions := distributions } : FeeDistributor).recipients
      = s.recipients := by
  funext stream
  cases stream with
  | A => rfl
  | B => rfl
  | C => rfl

theorem calculateStreamDistribution_of_same {s s' : FeeDistributor}
    (h : s'.recipients = s.recipients) :
    s'.calculateStreamDistribution = s.calculateStreamDistribution := by
  funext order stream amount
  rw [calculateStreamDistribution, calculateStreamDistribution, h]

/-- What `distribute` does to one stream. -/
theorem distributeStream_spec (s : FeeDistributor) (order : RecipientOrder)
    (clock : Address → UInt64) (stream : Stream) (currentBlock : UInt64) :
    ∃ distributions count,
      s.distributeStream order clock stream currentBlock =
        ({ s with pending := s.pending.emptyStream stream, distributions := distributions },
          UInt64.ofNat (s.paidOut order stream (s.pending.stream stream)), count) ∧
      ({ s with distributions := distributions } : FeeDistributor).records =
        ↑(s.streamRecords order clock stream currentBlock) + s.records := by
  unfold distributeStream
  simp only
  split
  · obtain ⟨distributions, hfold, hrecords⟩ := foldl_recordDistribution
      (fun e => record (clock e.1) e.1 stream e.2 currentBlock)
      (s.calculateStreamDistribution order stream (s.pending.stream stream))
      { s with pending := s.pending.emptyStream stream } 0 0
    refine ⟨distributions, 0 + UInt64.ofNat (s.calculateStreamDistribution order stream
      (s.pending.stream stream)).length, ?_, hrecords⟩
    rw [calculateStreamDistribution_of_same (recipients_of_pending s _)]
    refine hfold.trans ?_
    rw [UInt64.zero_add]
    rfl
  · next hempty =>
    have hnone : s.calculateStreamDistribution order stream (s.pending.stream stream) = [] := by
      have hzero : s.pending.stream stream = 0 := by
        rw [UInt64.lt_iff_toNat_lt] at hempty
        exact UInt64.toNat_inj.mp (Nat.eq_zero_of_not_pos hempty)
      unfold calculateStreamDistribution
      simp only
      split
      · rfl
      · refine List.filter_eq_nil_iff.mpr fun e he => ?_
        obtain ⟨e', _, rfl⟩ := List.mem_map.mp he
        simp [hzero, mulDiv]
    refine ⟨s.distributions, 0, ?_, ?_⟩
    · rw [paidOut, hnone]
      rfl
    · rw [streamRecords, hnone]
      exact (Multiset.zero_add _).symm

/-- What `distribute` does to the treasury. -/
theorem distributeTreasury_spec (s : FeeDistributor) (now currentBlock : UInt64) :
    ∃ distributions,
      s.distributeTreasury now currentBlock =
        ({ s with pending := s.pending.emptyTreasury, distributions := distributions },
          s.pending.treasury) ∧
      ({ s with distributions := distributions } : FeeDistributor).records =
        ↑(s.treasuryRecords now currentBlock) + s.records := by
  unfold distributeTreasury treasuryRecords
  simp only
  split
  · refine ⟨_, rfl, ?_⟩
    exact records_recordDistribution s _
  · next hempty =>
    have hzero : s.pending.treasury = 0 := by
      rw [UInt64.lt_iff_toNat_lt] at hempty
      exact UInt64.toNat_inj.mp (Nat.eq_zero_of_not_pos hempty)
    refine ⟨s.distributions, ?_, (Multiset.zero_add _).symm⟩
    rw [hzero]

end FeeDistributor

namespace FeeOp

open FeeDistributor

variable {s : FeeDistributor} {order : Stream → RecipientOrder}
  {clock : Stream → Address → UInt64} {treasuryAt currentBlock : UInt64} {op : FeeOp}

/-- What a call pays out in all. -/
def drawnSum (s : FeeDistributor) (op : FeeOp) : Nat :=
  ((op.drawn s).map fun e => e.1.amount.toNat).sum

theorem sum_treasuryRecords (s : FeeDistributor) (now currentBlock : UInt64) :
    ((s.treasuryRecords now currentBlock).map fun r => r.amount.toNat).sum
      = s.pending.treasury.toNat := by
  unfold treasuryRecords
  split
  · exact Nat.add_zero _
  · next hempty =>
    rw [UInt64.lt_iff_toNat_lt] at hempty
    exact (Nat.eq_zero_of_not_pos hempty).symm

theorem sum_streamRecords (s : FeeDistributor) (order : RecipientOrder) (clock : Address → UInt64)
    (stream : Stream) (currentBlock : UInt64) :
    ((s.streamRecords order clock stream currentBlock).map fun r => r.amount.toNat).sum
      = s.paidOut order stream (s.pending.stream stream) := by
  rw [streamRecords, List.map_map]
  rfl

theorem drawnSum_distribute (hdue : s.shouldDistribute currentBlock) :
    (distribute order clock treasuryAt currentBlock).drawnSum s =
      s.paidOut (order .A) .A s.pending.streamA + s.paidOut (order .B) .B s.pending.streamB +
        s.paidOut (order .C) .C s.pending.streamC + s.pending.treasury.toNat := by
  have hforget : ∀ (rs : List DistributionRecord) (pot : UInt64),
      (rs.map fun r => (r, pot)).map (fun e => e.1.amount.toNat) = rs.map fun r => r.amount.toNat :=
    fun rs pot => List.map_map
  rw [drawnSum, drawn, if_pos hdue]
  simp only [List.flatMap_cons, List.flatMap_nil, List.append_nil, List.map_append, hforget,
    List.sum_append, sum_streamRecords, sum_treasuryRecords]
  rw [← Nat.add_assoc]
  rfl

variable (order clock treasuryAt) in
/-- **A round** that is due empties the pots, and records and counts what is drawn. -/
theorem distribute_due (hdue : s.shouldDistribute currentBlock) :
    let op := distribute order clock treasuryAt currentBlock
    (op.apply s).pending = ⟨0, 0, 0, 0⟩ ∧ (op.apply s).totalCollected = s.totalCollected ∧
      (op.apply s).totalDistributed = s.totalDistributed + UInt64.ofNat (op.drawnSum s) ∧
      (op.apply s).records = ↑((op.drawn s).map Prod.fst) + s.records := by
  intro op
  obtain ⟨dA, countA, hA, hrecA⟩ := s.distributeStream_spec (order .A) (clock .A) .A currentBlock
  let s₁ : FeeDistributor :=
    { s with pending := s.pending.emptyStream .A, distributions := dA }
  obtain ⟨dB, countB, hB, hrecB⟩ := s₁.distributeStream_spec (order .B) (clock .B) .B currentBlock
  let s₂ : FeeDistributor :=
    { s₁ with pending := s₁.pending.emptyStream .B, distributions := dB }
  obtain ⟨dC, countC, hC, hrecC⟩ := s₂.distributeStream_spec (order .C) (clock .C) .C currentBlock
  let s₃ : FeeDistributor :=
    { s₂ with pending := s₂.pending.emptyStream .C, distributions := dC }
  obtain ⟨dT, hT, hrecT⟩ := s₃.distributeTreasury_spec treasuryAt currentBlock
  have hcalc : ∀ {s' : FeeDistributor}, s'.recipients = s.recipients →
      s'.calculateStreamDistribution = s.calculateStreamDistribution :=
    fun h => calculateStreamDistribution_of_same h
  have hcalc₁ : s₁.calculateStreamDistribution = s.calculateStreamDistribution :=
    hcalc (recipients_of_pending s _)
  have hcalc₂ : s₂.calculateStreamDistribution = s.calculateStreamDistribution :=
    hcalc ((recipients_of_pending s₁ _).trans (recipients_of_pending s _))
  have happly : op.apply s =
      { s₃ with
        pending := s₃.pending.emptyTreasury
        distributions := dT
        totalDistributed := s.totalDistributed + (UInt64.ofNat (s.paidOut (order .A) .A
          s.pending.streamA) + UInt64.ofNat (s₁.paidOut (order .B) .B s.pending.streamB) +
          UInt64.ofNat (s₂.paidOut (order .C) .C s.pending.streamC) + s.pending.treasury)
        lastDistributionBlock := currentBlock } := by
    show (s.distribute order clock treasuryAt currentBlock).1 = _
    unfold FeeDistributor.distribute
    rw [if_pos hdue, hA]
    simp only
    rw [show s₁.distributeStream (order .B) (clock .B) .B currentBlock = _ from hB]
    simp only
    rw [show s₂.distributeStream (order .C) (clock .C) .C currentBlock = _ from hC]
    simp only
    rw [show s₃.distributeTreasury treasuryAt currentBlock = _ from hT]
    rfl
  refine ⟨by rw [happly]; rfl, by rw [happly], ?_, ?_⟩
  · rw [happly, drawnSum_distribute hdue, UInt64.ofNat_add, UInt64.ofNat_add, UInt64.ofNat_add,
      UInt64.ofNat_toNat]
    have hB : s₁.paidOut (order .B) .B s.pending.streamB
        = s.paidOut (order .B) .B s.pending.streamB := by
      rw [paidOut, hcalc₁]
      rfl
    have hC : s₂.paidOut (order .C) .C s.pending.streamC
        = s.paidOut (order .C) .C s.pending.streamC := by
      rw [paidOut, hcalc₂]
      rfl
    rw [hB, hC]
  · have hforget : ∀ (rs : List DistributionRecord) (pot : UInt64),
        (rs.map fun r => (r, pot)).map Prod.fst = rs := by
      intro rs pot
      rw [List.map_map]
      exact List.map_id rs
    have hrecords : (op.apply s).records = ↑(s₃.treasuryRecords treasuryAt currentBlock) +
        s₃.records := by
      rw [← hrecT, happly]
      rfl
    have hrecords₃ : s₃.records = ↑(s₂.streamRecords (order .C) (clock .C) .C currentBlock) +
        s₂.records := hrecC
    have hrecords₂ : s₂.records = ↑(s₁.streamRecords (order .B) (clock .B) .B currentBlock) +
        s₁.records := hrecB
    have hrecords₁ : s₁.records = ↑(s.streamRecords (order .A) (clock .A) .A currentBlock) +
        s.records := hrecA
    have hB : s₁.streamRecords (order .B) (clock .B) .B currentBlock
        = s.streamRecords (order .B) (clock .B) .B currentBlock := by
      rw [streamRecords, hcalc₁]
      rfl
    have hC : s₂.streamRecords (order .C) (clock .C) .C currentBlock
        = s.streamRecords (order .C) (clock .C) .C currentBlock := by
      rw [streamRecords, hcalc₂]
      rfl
    have hT : s₃.treasuryRecords treasuryAt currentBlock
        = s.treasuryRecords treasuryAt currentBlock := rfl
    rw [hrecords, hrecords₃, hrecords₂, hrecords₁, hB, hC, hT, drawn, if_pos hdue]
    simp only [List.flatMap_cons, List.flatMap_nil, List.append_nil, List.map_append, hforget,
      ← Multiset.coe_add]
    ac_rfl

end FeeOp

end Pyrax.Bridge
