import Mathlib.Algebra.Order.BigOperators.Group.Finset
import Pyrax.Base.Run
import Pyrax.Tokenomics.Allocation

/-!
# The allocation ledger

Pools, records and statistics tell the same story (`Ledger`): what a pool gave out and
what it has left are its allocation, what it gave out is the sum of its records and their
number its count, every record splits its amount into released and remaining, and the
statistics count what was released.

The pool is charged first, then the record goes under an id hashed from the pool, the
recipient, the amount and a clock of whole seconds, whatever stands there. Two equal
allocations made in one second share an id: the second record replaces the first, and
the pool has paid twice. With the count of a pool at its last value, this is the only way
to lose the ledger (`sound_iff`).
-/

namespace Pyrax.Tokenomics

open Base

namespace AllocationPool

instance : Fintype AllocationPool := ⟨⟨all, nodup_all⟩, mem_all⟩

/-- All pools together fit into 64 bits. -/
theorem sum_allocation_lt : ∑ pool : AllocationPool, pool.allocation.toNat < 2 ^ 64 := by
  decide

end AllocationPool

namespace TokenAllocation

/-- What a record counts for in a pool. -/
def amountIn (pool : AllocationPool) (a : TokenAllocation) : Nat :=
  if a.pool = pool then a.totalAmount.toNat else 0

def countIn (pool : AllocationPool) (a : TokenAllocation) : Nat := if a.pool = pool then 1 else 0

end TokenAllocation

open TokenAllocation

/-- A pool and the records made from it. -/
structure PoolBooks (m : AllocationManager) (pool : AllocationPool) (state : PoolState) : Prop where
  split : state.totalDistributed.toNat + state.totalRemaining.toNat = pool.allocation.toNat
  distributed : state.totalDistributed.toNat = Column.total (amountIn pool) m.allocations
  counted : state.allocationCount.toNat = Column.total (countIn pool) m.allocations

structure Ledger (m : AllocationManager) : Prop where
  pools : ∀ pool, ∃ state, m.pools.lookup pool = some state ∧ PoolBooks m pool state
  records : ∀ id a, m.allocations.lookup id = some a →
    a.releasedAmount.toNat + a.remainingAmount.toNat = a.totalAmount.toNat
  released : m.stats.tokensReleased.toNat
    = Column.total (·.releasedAmount.toNat) m.allocations

namespace AllocationOp

/-- The ledger holds after every call of a run, and a call that fails changes nothing. -/
structure Sound (C : Crypto) (ops : List AllocationOp) : Prop where
  ledger : ∀ pre, pre <+: ops → Ledger (run C .new pre)
  refused : ∀ pre op, pre ++ [op] <+: ops → (op.call C (run C .new pre)).2 ≠ none →
    run C .new (pre ++ [op]) = run C .new pre

/-- An allocation that the pool affords has an id of its own, and its pool can count it. -/
def Opens (C : Crypto) (m : AllocationManager) : AllocationOp → Prop
  | create idAt _ pool recipient amount _ =>
    ∀ state ∈ m.pools.lookup pool, amount ≤ state.totalRemaining →
      generateId C idAt pool recipient amount ∉ m.allocations ∧
      state.allocationCount.toNat + 1 < 2 ^ 64
  | release .. => True

end AllocationOp

/-! ## One call -/

namespace Ledger

variable {C : Crypto} {m : AllocationManager} {idAt allocatedAt now amount : UInt64}
  {pool : AllocationPool} {recipient : Address} {notes : String} {id : H256} {state : PoolState}
  {a : TokenAllocation}

/-- What is given out was there. -/
theorem total_amount_lt (h : Ledger m) :
    Column.total (·.totalAmount.toNat) m.allocations < 2 ^ 64 := by
  have hparts : Column.total (·.totalAmount.toNat) m.allocations
      = ∑ pool : AllocationPool, Column.total (amountIn pool) m.allocations :=
    Column.total_eq_sum_total (·.pool) _ m.allocations
  rw [hparts]
  refine Nat.lt_of_le_of_lt (Finset.sum_le_sum fun pool _ => ?_) AllocationPool.sum_allocation_lt
  obtain ⟨state, _, hbooks⟩ := h.pools pool
  have hsplit := hbooks.split
  have hdistributed := hbooks.distributed
  omega

theorem new : Ledger .new where
  pools pool := ⟨_, AllocationManager.lookup_pools_new pool, Nat.zero_add _, rfl, rfl⟩
  records _ _ hlookup := by cases hlookup
  released := rfl

/-- A record under an id of its own. -/
theorem store (h : Ledger m) (hpool : m.pools.lookup pool = some state)
    (hle : amount ≤ state.totalRemaining)
    (hfree : generateId C idAt pool recipient amount ∉ m.allocations)
    (hcount : state.allocationCount.toNat + 1 < 2 ^ 64) :
    Ledger (AllocationManager.store
      { m with pools := m.pools.insert pool (state.charged amount) }
      (.new C idAt allocatedAt pool recipient amount notes)) := by
  obtain ⟨state', hstate', hbooks⟩ := h.pools pool
  cases hpool.symm.trans hstate'
  have hle' : amount.toNat ≤ state.totalRemaining.toNat := UInt64.le_iff_toNat_le.mp hle
  have hsplit := hbooks.split
  have hfits := pool.allocation.toNat_lt
  have hinsert : ∀ f : TokenAllocation → Nat, Column.total f (m.allocations.insert
      (TokenAllocation.new C idAt allocatedAt pool recipient amount notes).id
      (.new C idAt allocatedAt pool recipient amount notes))
        = f (.new C idAt allocatedAt pool recipient amount notes)
          + Column.total f m.allocations :=
    fun f => Column.total_insert_of_notMem f _ hfree
  refine ⟨fun pool' => ?_, ?_, ?_⟩
  · by_cases heq : pool' = pool
    · subst heq
      refine ⟨_, Finmap.lookup_insert _, ?_, ?_, ?_⟩
      · show (state.totalDistributed + amount).toNat + (state.totalRemaining - amount).toNat = _
        rw [Word.toNat_add_of_lt (by omega), Word.toNat_sub_of_le hle']
        omega
      · show (state.totalDistributed + amount).toNat = Column.total _ (m.allocations.insert _ _)
        rw [Word.toNat_add_of_lt (by omega), hinsert, hbooks.distributed, Nat.add_comm]
        exact congrArg (· + _) (if_pos rfl).symm
      · show (state.allocationCount + 1).toNat = Column.total _ (m.allocations.insert _ _)
        rw [Word.toNat_add_of_lt hcount, hinsert, hbooks.counted, Nat.add_comm]
        exact congrArg (· + _) (if_pos rfl).symm
    · obtain ⟨other, hother, hbooks'⟩ := h.pools pool'
      refine ⟨other, (Finmap.lookup_insert_of_ne _ heq).trans hother, hbooks'.split, ?_, ?_⟩
      · rw [hbooks'.distributed]
        refine ((hinsert _).trans ?_).symm
        exact (congrArg (· + _) (if_neg (Ne.symm heq))).trans (Nat.zero_add _)
      · rw [hbooks'.counted]
        refine ((hinsert _).trans ?_).symm
        exact (congrArg (· + _) (if_neg (Ne.symm heq))).trans (Nat.zero_add _)
  · exact Column.forall_lookup_insert h.records (Nat.zero_add _)
  · exact h.released.trans ((hinsert _).trans (Nat.zero_add _)).symm

/-- A release touches one record. -/
theorem release (h : Ledger m) (ha : m.allocations.lookup id = some a)
    (hle : amount ≤ a.remainingAmount) :
    Ledger { m with
      allocations := m.allocations.insert id (a.afterRelease now amount)
      stats := { m.stats with tokensReleased := m.stats.tokensReleased + amount } } := by
  have hle' : amount.toNat ≤ a.remainingAmount.toNat := UInt64.le_iff_toNat_le.mp hle
  have hrecord := h.records id a ha
  have hamount := a.totalAmount.toNat_lt
  have hreleased : (a.releasedAmount + amount).toNat = a.releasedAmount.toNat + amount.toNat :=
    Word.toNat_add_of_lt (by omega)
  have hrecords : ∀ id' a', (m.allocations.insert id (a.afterRelease now amount)).lookup id'
      = some a' → a'.releasedAmount.toNat + a'.remainingAmount.toNat = a'.totalAmount.toNat := by
    refine Column.forall_lookup_insert h.records ?_
    show (a.releasedAmount + amount).toNat + (a.remainingAmount - amount).toNat
      = a.totalAmount.toNat
    rw [hreleased, Word.toNat_sub_of_le hle']
    omega
  have hsame : ∀ f : TokenAllocation → Nat, f (a.afterRelease now amount) = f a →
      Column.total f (m.allocations.insert id (a.afterRelease now amount))
        = Column.total f m.allocations := by
    intro f hf
    rw [Column.total_eq_sum, Column.total_eq_sum, Column.records_insert_same f ha hf]
  refine ⟨fun pool => ?_, hrecords, ?_⟩
  · obtain ⟨state, hstate, hbooks⟩ := h.pools pool
    refine ⟨state, hstate, hbooks.split, ?_, ?_⟩
    · exact hbooks.distributed.trans (hsame _ rfl).symm
    · exact hbooks.counted.trans (hsame _ rfl).symm
  · show (m.stats.tokensReleased + amount).toNat
      = Column.total (·.releasedAmount.toNat) (m.allocations.insert id (a.afterRelease now amount))
    have htotal := Column.total_insert (·.releasedAmount.toNat) m.allocations id
      (a.afterRelease now amount)
    have hat : Column.valueAt (·.releasedAmount.toNat) m.allocations id
        = a.releasedAmount.toNat := by
      rw [Column.valueAt, ha]
      rfl
    have hnew : (a.afterRelease now amount).releasedAmount.toNat
        = a.releasedAmount.toNat + amount.toNat := hreleased
    rw [hat, hnew, ← h.released] at htotal
    -- no record releases more than it holds, and all of them hold less than 64 bits
    have hbound : Column.total (·.releasedAmount.toNat)
        (m.allocations.insert id (a.afterRelease now amount))
          ≤ Column.total (·.totalAmount.toNat)
            (m.allocations.insert id (a.afterRelease now amount)) := by
      refine Column.total_le_total fun id' a' hmem => ?_
      have hrecord' := hrecords id' a' (Finmap.lookup_eq_some_iff.mpr hmem)
      omega
    have hwhole := h.total_amount_lt
    rw [← hsame (·.totalAmount.toNat) rfl] at hwhole
    rw [Word.toNat_add_of_lt (by omega)]
    omega

/-- A record over another leaves some pool with a wrong count. -/
theorem not_store (h : Ledger m) (hpool : m.pools.lookup pool = some state)
    (htaken : generateId C idAt pool recipient amount ∈ m.allocations) :
    ¬ Ledger (AllocationManager.store
      { m with pools := m.pools.insert pool (state.charged amount) }
      (.new C idAt allocatedAt pool recipient amount notes)) := by
  intro hafter
  obtain ⟨old, hold⟩ := Finmap.mem_iff.mp htaken
  obtain ⟨before, hbefore, hbooks⟩ := h.pools old.pool
  obtain ⟨after, hstate, hbooks'⟩ := hafter.pools old.pool
  have htotal := Column.total_insert (countIn old.pool) m.allocations
    (generateId C idAt pool recipient amount) (.new C idAt allocatedAt pool recipient amount notes)
  have hat : Column.valueAt (countIn old.pool) m.allocations
      (generateId C idAt pool recipient amount) = 1 := by
    rw [Column.valueAt, hold]
    exact if_pos rfl
  have hcounted : after.allocationCount.toNat = Column.total (countIn old.pool)
      (m.allocations.insert (generateId C idAt pool recipient amount)
        (.new C idAt allocatedAt pool recipient amount notes)) := hbooks'.counted
  rw [hat, ← hcounted, ← hbooks.counted] at htotal
  by_cases heq : old.pool = pool
  · -- the pool counts one more, its records are as many as before
    have hone : countIn old.pool (.new C idAt allocatedAt pool recipient amount notes) = 1 :=
      if_pos heq.symm
    rw [heq] at hbefore hstate
    cases hpool.symm.trans hbefore
    cases (Finmap.lookup_insert (s := m.pools)).symm.trans hstate
    have hcharged : (state.charged amount).allocationCount.toNat
        = (state.allocationCount.toNat + 1) % 2 ^ 64 := UInt64.toNat_add _ _
    have hlt := state.allocationCount.toNat_lt
    rw [hone, hcharged] at htotal
    omega
  · -- the other pool counts as before, and has a record less
    have hzero : countIn old.pool (.new C idAt allocatedAt pool recipient amount notes) = 0 :=
      if_neg (Ne.symm heq)
    cases hbefore.symm.trans ((Finmap.lookup_insert_of_ne _ heq).symm.trans hstate)
    rw [hzero] at htotal
    omega

/-- A pool that has counted to its end does not count on. -/
theorem count_lt_of_store (h : Ledger m) (hpool : m.pools.lookup pool = some state)
    (hfree : generateId C idAt pool recipient amount ∉ m.allocations)
    (hafter : Ledger (AllocationManager.store
      { m with pools := m.pools.insert pool (state.charged amount) }
      (.new C idAt allocatedAt pool recipient amount notes))) :
    state.allocationCount.toNat + 1 < 2 ^ 64 := by
  obtain ⟨before, hbefore, hbooks⟩ := h.pools pool
  obtain ⟨after, hstate, hbooks'⟩ := hafter.pools pool
  cases hpool.symm.trans hbefore
  cases (Finmap.lookup_insert (s := m.pools)).symm.trans hstate
  have hcharged : (state.charged amount).allocationCount.toNat
      = (state.allocationCount.toNat + 1) % 2 ^ 64 := UInt64.toNat_add _ _
  have htotal := hbooks'.counted.trans (Column.total_insert_of_notMem _ _ hfree)
  have hone : countIn pool (.new C idAt allocatedAt pool recipient amount notes) = 1 := if_pos rfl
  rw [hone, ← hbooks.counted, hcharged] at htotal
  omega

end Ledger

namespace AllocationOp

variable {C : Crypto} {m : AllocationManager} {op : AllocationOp}

/-- A call that fails leaves everything as it was. -/
theorem call_of_error (h : (op.call C m).2 ≠ none) : (op.call C m).1 = m := by
  cases op with
  | create idAt allocatedAt pool recipient amount notes =>
    cases hpool : m.pools.lookup pool with
    | none =>
      rw [call, AllocationManager.createAllocation, hpool]
    | some state =>
      by_cases hle : amount ≤ state.totalRemaining
      · rw [call, AllocationManager.createAllocation_of_le hpool hle] at h
        exact absurd rfl h
      · rw [call, AllocationManager.createAllocation_of_lt hpool (UInt64.not_le.mp hle)]
  | release now id amount =>
    cases hallocation : m.allocations.lookup id with
    | none => rw [call, AllocationManager.releaseTokens, hallocation]
    | some a =>
      by_cases hle : amount ≤ a.remainingAmount
      · rw [call, AllocationManager.releaseTokens_of_le hallocation hle] at h
        exact absurd rfl h
      · rw [call, AllocationManager.releaseTokens_of_lt hallocation (UInt64.not_le.mp hle)]

/-- A call keeps the ledger exactly when the record it makes has an id of its own. -/
theorem ledger_call_iff (h : Ledger m) : Ledger (op.call C m).1 ↔ op.Opens C m := by
  cases op with
  | create idAt allocatedAt pool recipient amount notes =>
    obtain ⟨state, hpool, _⟩ := h.pools pool
    by_cases hle : amount ≤ state.totalRemaining
    · rw [call, AllocationManager.createAllocation_of_le hpool hle]
      constructor
      · intro hafter state' hstate' _
        cases hpool.symm.trans hstate'
        have hfree : generateId C idAt pool recipient amount ∉ m.allocations :=
          fun htaken => h.not_store hpool htaken hafter
        exact ⟨hfree, h.count_lt_of_store hpool hfree hafter⟩
      · intro hopens
        obtain ⟨hfree, hcount⟩ := hopens state hpool hle
        exact h.store hpool hle hfree hcount
    · rw [call, AllocationManager.createAllocation_of_lt hpool (UInt64.not_le.mp hle)]
      refine ⟨fun _ state' hstate' hle' => ?_, fun _ => h⟩
      cases hpool.symm.trans hstate'
      exact absurd hle' hle
  | release now id amount =>
    refine ⟨fun _ => trivial, fun _ => ?_⟩
    cases hallocation : m.allocations.lookup id with
    | none =>
      rw [call, AllocationManager.releaseTokens, hallocation]
      exact h
    | some a =>
      by_cases hle : amount ≤ a.remainingAmount
      · rw [call, AllocationManager.releaseTokens_of_le hallocation hle]
        exact h.release hallocation hle
      · rw [call, AllocationManager.releaseTokens_of_lt hallocation (UInt64.not_le.mp hle)]
        exact h

/-- **The ledger holds over a run** exactly when every allocation that is granted has an
id of its own, and no pool counts past 64 bits. -/
theorem sound_iff (C : Crypto) (ops : List AllocationOp) :
    Sound C ops ↔ ∀ pre op, pre ++ [op] <+: ops → op.Opens C (run C .new pre) := by
  have hall : (∀ pre, pre <+: ops → Ledger (run C .new pre)) ↔
      ∀ pre op, pre ++ [op] <+: ops → op.Opens C (run C .new pre) := by
    refine forall_prefixes_iff Ledger.new fun pre op _ h => ?_
    rw [run_snoc]
    exact ledger_call_iff h
  refine ⟨fun h => hall.mp h.ledger, fun h => ⟨hall.mpr h, fun pre op _ herror => ?_⟩⟩
  rw [run_snoc]
  exact call_of_error herror

/-- The id of an allocation of 1000 from the presale. -/
def allocationCrypto : Crypto := Crypto.ofTable
  [([0] ++ List.replicate 20 1 ++ Wire.encU64 1000 ++ Wire.encU64 1700000000,
      H256.ofNatBE 0xea608a387056a7c7a4e8d93d6ec17578758b1efb511886feb76e5a2dc587f25a)]

/-- The same allocation twice in one second: the presale has given out 2000 and counts two
allocations, and there is one record, of 1000. -/
theorem not_sound_same_second :
    let again := create 1700000000 1700000000 .presale ⟨Vector.replicate 20 1⟩ 1000 "Test"
    ¬ Sound allocationCrypto [again, again] ∧
      (((run allocationCrypto .new [again, again]).pools.lookup .presale).map
        fun state => (state.totalDistributed, state.allocationCount)) = some (2000, 2) ∧
      Column.total (amountIn .presale) (run allocationCrypto .new [again, again]).allocations
        = 1000 := by
  intro again
  have hpool : ((run allocationCrypto .new [again, again]).pools.lookup .presale).map
      (fun state => (state.totalDistributed, state.allocationCount)) = some (2000, 2) := by
    decide +kernel
  refine ⟨fun h => ?_, hpool, by decide +kernel⟩
  obtain ⟨state, hstate, hbooks⟩ := (h.ledger _ List.prefix_rfl).pools .presale
  have hcount : Column.total (countIn .presale)
      (run allocationCrypto .new [again, again]).allocations = 1 := by decide +kernel
  have hcounted := hbooks.counted
  rw [hcount] at hcounted
  rw [hstate] at hpool
  have htwo := congrArg Prod.snd (Option.some.inj hpool)
  rw [show state.allocationCount = 2 from htwo] at hcounted
  exact absurd hcounted (by decide)

end AllocationOp

end Pyrax.Tokenomics
