import Pyrax.Base.Records
import Pyrax.Base.Word
import Pyrax.Types.Primitives

/-!
# Allocation pools

`pyrax-node/src/tokenomics/allocation.rs`: eleven pools of a fixed size, the allocations
made from them, and the tokens released of each. A call gives back its result together
with the manager as it leaves it, also where the result is an error, since every table
is changed in place. The clock is read for the id, for the record and for a release, each
time anew, and is an argument.

`tge_timestamp` and `pools_exhausted` are left out: neither call touches them.
-/

namespace Pyrax.Tokenomics

open Base

def DECIMALS : UInt64 := 100000000

inductive AllocationPool where
  | presale
  | bdagCommunity
  | miningRewards
  | zkProverRewards
  | teamFounders
  | advisors
  | ecosystem
  | marketing
  | liquidity
  | treasury
  | reserve
  deriving DecidableEq

namespace AllocationPool

def allocation : AllocationPool → UInt64
  | presale => 15000000000 * DECIMALS
  | bdagCommunity => 10000000000 * DECIMALS
  | miningRewards => 35000000000 * DECIMALS
  | zkProverRewards => 5000000000 * DECIMALS
  | teamFounders => 4000000000 * DECIMALS
  | advisors => 3000000000 * DECIMALS
  | ecosystem => 10000000000 * DECIMALS
  | marketing => 5000000000 * DECIMALS
  | liquidity => 10000000000 * DECIMALS
  | treasury => 2000000000 * DECIMALS
  | reserve => 1000000000 * DECIMALS

def all : List AllocationPool :=
  [presale, bdagCommunity, miningRewards, zkProverRewards, teamFounders, advisors, ecosystem,
    marketing, liquidity, treasury, reserve]

/-- `pool as u8`: the place in the declaration. -/
def toU8 : AllocationPool → UInt8
  | presale => 0
  | bdagCommunity => 1
  | miningRewards => 2
  | zkProverRewards => 3
  | teamFounders => 4
  | advisors => 5
  | ecosystem => 6
  | marketing => 7
  | liquidity => 8
  | treasury => 9
  | reserve => 10

theorem mem_all (pool : AllocationPool) : pool ∈ all := by
  cases pool <;> simp [all]

theorem nodup_all : all.Nodup := by decide

end AllocationPool

inductive AllocationError where
  | poolNotFound (pool : AllocationPool)
  | poolExhausted (pool : AllocationPool) (requested available : UInt64)
  | allocationNotFound (id : H256)
  | insufficientBalance (requested available : UInt64)
  deriving DecidableEq

structure TokenAllocation where
  id : H256
  pool : AllocationPool
  recipient : Address
  totalAmount : UInt64
  releasedAmount : UInt64
  remainingAmount : UInt64
  allocatedAt : UInt64
  lastReleaseAt : Option UInt64
  fullyReleased : Bool
  notes : String
  deriving DecidableEq

namespace TokenAllocation

def generateId (C : Crypto) (now : UInt64) (pool : AllocationPool) (recipient : Address)
    (amount : UInt64) : H256 :=
  H256.fromSlice (C.blake3 ([pool.toU8] ++ recipient.asBytes ++ Wire.encU64 amount ++
    Wire.encU64 now)).asBytes

def new (C : Crypto) (idAt allocatedAt : UInt64) (pool : AllocationPool) (recipient : Address)
    (amount : UInt64) (notes : String) : TokenAllocation :=
  ⟨generateId C idAt pool recipient amount, pool, recipient, amount, 0, amount, allocatedAt, none,
    false, notes⟩

/-- The record after a release that is granted. -/
def afterRelease (a : TokenAllocation) (now amount : UInt64) : TokenAllocation :=
  { a with
    releasedAmount := a.releasedAmount + amount
    remainingAmount := a.remainingAmount - amount
    lastReleaseAt := some now
    fullyReleased := if a.remainingAmount - amount = 0 then true else a.fullyReleased }

def release (a : TokenAllocation) (now amount : UInt64) :
    TokenAllocation × Except AllocationError UInt64 :=
  if a.remainingAmount < amount then
    (a, .error (.insufficientBalance amount a.remainingAmount))
  else (a.afterRelease now amount, .ok amount)

end TokenAllocation

structure PoolState where
  pool : AllocationPool
  totalAllocation : UInt64
  totalDistributed : UInt64
  totalRemaining : UInt64
  allocationCount : UInt64
  active : Bool
  deriving DecidableEq

namespace PoolState

def new (pool : AllocationPool) : PoolState := ⟨pool, pool.allocation, 0, pool.allocation, 0, true⟩

/-- The pool after an allocation that is granted. -/
def charged (s : PoolState) (amount : UInt64) : PoolState :=
  { s with
    totalDistributed := s.totalDistributed + amount
    totalRemaining := s.totalRemaining - amount
    allocationCount := s.allocationCount + 1 }

def allocate (s : PoolState) (amount : UInt64) : PoolState × Except AllocationError Unit :=
  if s.totalRemaining < amount then
    (s, .error (.poolExhausted s.pool amount s.totalRemaining))
  else (s.charged amount, .ok ())

end PoolState

structure AllocationStats where
  allocationsCreated : UInt64
  tokensReleased : UInt64
  deriving DecidableEq

structure AllocationManager where
  pools : Column AllocationPool PoolState
  allocations : Column H256 TokenAllocation
  byRecipient : Column Address (List H256)
  stats : AllocationStats
  deriving DecidableEq

namespace AllocationManager

def new : AllocationManager :=
  ⟨AllocationPool.all.foldl (fun pools pool => pools.insert pool (PoolState.new pool)) ∅, ∅, ∅,
    ⟨0, 0⟩⟩

/-- The record put under its id, whatever stands there, and the id under the recipient. -/
def store (m : AllocationManager) (a : TokenAllocation) : AllocationManager :=
  { m with
    allocations := m.allocations.insert a.id a
    byRecipient := m.byRecipient.insert a.recipient
      ((m.byRecipient.lookup a.recipient).getD [] ++ [a.id])
    stats := { m.stats with allocationsCreated := m.stats.allocationsCreated + 1 } }

def createAllocation (C : Crypto) (m : AllocationManager) (idAt allocatedAt : UInt64)
    (pool : AllocationPool) (recipient : Address) (amount : UInt64) (notes : String) :
    AllocationManager × Except AllocationError H256 :=
  match m.pools.lookup pool with
  | none => (m, .error (.poolNotFound pool))
  | some poolState =>
    match poolState.allocate amount with
    | (poolState, .error e) => ({ m with pools := m.pools.insert pool poolState }, .error e)
    | (poolState, .ok ()) =>
      let allocation := TokenAllocation.new C idAt allocatedAt pool recipient amount notes
      (store { m with pools := m.pools.insert pool poolState } allocation, .ok allocation.id)

def releaseTokens (m : AllocationManager) (now : UInt64) (allocationId : H256) (amount : UInt64) :
    AllocationManager × Except AllocationError UInt64 :=
  match m.allocations.lookup allocationId with
  | none => (m, .error (.allocationNotFound allocationId))
  | some allocation =>
    match allocation.release now amount with
    | (allocation, .error e) =>
      ({ m with allocations := m.allocations.insert allocationId allocation }, .error e)
    | (allocation, .ok released) =>
      ({ m with
          allocations := m.allocations.insert allocationId allocation
          stats := { m.stats with tokensReleased := m.stats.tokensReleased + released } },
        .ok released)

end AllocationManager

/-- A call with the clock readings it makes. -/
inductive AllocationOp where
  | create (idAt allocatedAt : UInt64) (pool : AllocationPool) (recipient : Address)
      (amount : UInt64) (notes : String)
  | release (now : UInt64) (allocationId : H256) (amount : UInt64)
  deriving DecidableEq

namespace AllocationOp

/-- The manager a call leaves, and the error if it returns one. -/
def call (C : Crypto) (m : AllocationManager) :
    AllocationOp → AllocationManager × Option AllocationError
  | create idAt allocatedAt pool recipient amount notes =>
    let (m', result) := m.createAllocation C idAt allocatedAt pool recipient amount notes
    (m', match result with
      | .ok _ => none
      | .error e => some e)
  | release now allocationId amount =>
    let (m', result) := m.releaseTokens now allocationId amount
    (m', match result with
      | .ok _ => none
      | .error e => some e)

def run (C : Crypto) (m : AllocationManager) (ops : List AllocationOp) : AllocationManager :=
  ops.foldl (fun m op => (op.call C m).1) m

theorem run_snoc (C : Crypto) (m : AllocationManager) (ops : List AllocationOp)
    (op : AllocationOp) : run C m (ops ++ [op]) = (op.call C (run C m ops)).1 :=
  List.foldl_append ..

end AllocationOp

/-! ## What each call does -/

namespace AllocationManager

variable {C : Crypto} {m : AllocationManager} {idAt allocatedAt now amount : UInt64}
  {pool : AllocationPool} {recipient : Address} {notes : String} {poolState : PoolState}
  {allocationId : H256} {allocation : TokenAllocation}

/-- Every pool is there from the start. -/
theorem lookup_pools_new (pool : AllocationPool) :
    new.pools.lookup pool = some (PoolState.new pool) := by
  cases pool <;> rfl

/-- A pool that has not enough left refuses, and everything stays. -/
theorem createAllocation_of_lt (hpool : m.pools.lookup pool = some poolState)
    (hlt : poolState.totalRemaining < amount) :
    m.createAllocation C idAt allocatedAt pool recipient amount notes
      = (m, .error (.poolExhausted poolState.pool amount poolState.totalRemaining)) := by
  have hallocate : poolState.allocate amount
      = (poolState, .error (.poolExhausted poolState.pool amount poolState.totalRemaining)) :=
    if_pos hlt
  unfold createAllocation
  rw [hpool]
  simp only [hallocate, Column.insert_of_lookup hpool]

theorem createAllocation_of_le (hpool : m.pools.lookup pool = some poolState)
    (hle : amount ≤ poolState.totalRemaining) :
    m.createAllocation C idAt allocatedAt pool recipient amount notes
      = (store { m with pools := m.pools.insert pool (poolState.charged amount) }
          (.new C idAt allocatedAt pool recipient amount notes),
        .ok (TokenAllocation.generateId C idAt pool recipient amount)) := by
  have hallocate : poolState.allocate amount = (poolState.charged amount, .ok ()) :=
    if_neg (UInt64.not_lt.mpr hle)
  unfold createAllocation
  rw [hpool]
  simp only [hallocate]
  rfl

theorem releaseTokens_of_lt (hallocation : m.allocations.lookup allocationId = some allocation)
    (hlt : allocation.remainingAmount < amount) :
    m.releaseTokens now allocationId amount
      = (m, .error (.insufficientBalance amount allocation.remainingAmount)) := by
  have hrelease : allocation.release now amount
      = (allocation, .error (.insufficientBalance amount allocation.remainingAmount)) :=
    if_pos hlt
  unfold releaseTokens
  rw [hallocation]
  simp only [hrelease, Column.insert_of_lookup hallocation]

theorem releaseTokens_of_le (hallocation : m.allocations.lookup allocationId = some allocation)
    (hle : amount ≤ allocation.remainingAmount) :
    m.releaseTokens now allocationId amount = ({ m with
        allocations := m.allocations.insert allocationId (allocation.afterRelease now amount)
        stats := { m.stats with tokensReleased := m.stats.tokensReleased + amount } },
      .ok amount) := by
  have hrelease : allocation.release now amount
      = (allocation.afterRelease now amount, .ok amount) :=
    if_neg (UInt64.not_lt.mpr hle)
  unfold releaseTokens
  rw [hallocation]
  simp only [hrelease]

end AllocationManager

end Pyrax.Tokenomics
