import Pyrax.Base.Run
import Pyrax.Bridge.Fees

/-!
# The books of the fee distributor

What is collected should be recorded or waiting, the total of what is distributed
should be what is recorded (`Conserved`), and no record should exceed the pot it is
taken from.

Behind it stand books that count the pots without bounds (`Books`): every call keeps
them if a round draws all there is. `conserved_of_even`: fees are conserved along the
runs in whose rounds the weights fit and every share is even, and where the weights
fit, along no others.
-/

namespace Pyrax.Bridge

open Base Word

/-! ## The books -/

namespace FeeDistributor

variable {s : FeeDistributor} {n : Nat}

/-- What is in the four pots. -/
def pots (s : FeeDistributor) : Nat :=
  s.pending.streamA.toNat + s.pending.streamB.toNat + s.pending.streamC.toNat +
    s.pending.treasury.toNat

theorem pots_of_empty (h : s.pending = ⟨0, 0, 0, 0⟩) : s.pots = 0 := by
  rw [pots, h]
  rfl

/-- After fees of `n` in all, everything is where it belongs. -/
structure Books (n : Nat) (s : FeeDistributor) : Prop where
  collected : s.totalCollected.toNat = n
  accounted : n = s.recorded + s.pots
  distributed : s.totalDistributed.toNat = s.recorded

theorem books_new (treasury : Address) : Books 0 (new treasury) := ⟨rfl, rfl, rfl⟩

theorem toNat_total_of_lt (h : s.pots < 2 ^ 64) : s.pending.total.toNat = s.pots := by
  unfold pots at h ⊢
  have hab : s.pending.streamA.toNat + s.pending.streamB.toNat < 2 ^ 64 := by omega
  have h₁ := toNat_saturatingAdd_of_lt hab
  have hc : (saturatingAdd s.pending.streamA s.pending.streamB).toNat
      + s.pending.streamC.toNat < 2 ^ 64 := by omega
  have h₂ := toNat_saturatingAdd_of_lt hc
  rw [PendingFees.total, toNat_saturatingAdd_of_lt (by omega)]
  omega

theorem Books.conserved (h : Books n s) (hlt : n < 2 ^ 64) : Conserved s := by
  have haccounted := h.accounted
  refine ⟨?_, h.distributed⟩
  rw [toNat_total_of_lt (by omega), h.collected]
  exact haccounted

/-- An allocation splits its fees without a rest. -/
theorem allocation_split (now blockHeight : UInt64) (blockHash : H256) (totalFees : UInt64) :
    let a := FeeAllocation.new now blockHeight blockHash totalFees
    a.streamAAmount.toNat + a.streamBAmount.toNat + a.streamCAmount.toNat + a.treasuryAmount.toNat
      = totalFees.toNat := by
  have hshare : ∀ percent, percent ≤ 100 →
      (mulDiv totalFees.toNat percent 100).toNat = totalFees.toNat * percent / 100 := by
    intro percent hpercent
    have hlt := totalFees.toNat_lt
    have hle : totalFees.toNat * percent / 100 ≤ totalFees.toNat :=
      Nat.div_le_of_le_mul (by rw [Nat.mul_comm 100]; exact Nat.mul_le_mul_left _ hpercent)
    rw [mulDiv, UInt64.toNat_ofNat']
    exact Nat.mod_eq_of_lt (by omega)
  show (mulDiv totalFees.toNat 20 100).toNat + (mulDiv totalFees.toNat 40 100).toNat
    + (mulDiv totalFees.toNat 30 100).toNat + (saturatingSub (saturatingSub (saturatingSub totalFees
      (mulDiv totalFees.toNat 20 100)) (mulDiv totalFees.toNat 40 100))
      (mulDiv totalFees.toNat 30 100)).toNat = _
  rw [toNat_saturatingSub, toNat_saturatingSub, toNat_saturatingSub, hshare 20 (by decide),
    hshare 40 (by decide), hshare 30 (by decide)]
  omega

theorem Books.collectFees (h : Books n s) (now blockHeight : UInt64) (blockHash : H256)
    {totalFees : UInt64} (hlt : n + totalFees.toNat < 2 ^ 64) :
    Books (n + totalFees.toNat) (s.collectFees now blockHeight blockHash totalFees) := by
  have hsplit := allocation_split now blockHeight blockHash totalFees
  have haccounted := h.accounted
  have hcollected := h.collected
  have hpots : (s.collectFees now blockHeight blockHash totalFees).pots
      = s.pots + totalFees.toNat := by
    unfold pots at haccounted ⊢
    show (saturatingAdd _ _).toNat + (saturatingAdd _ _).toNat + (saturatingAdd _ _).toNat
      + (saturatingAdd _ _).toNat = _
    rw [toNat_saturatingAdd_of_lt (by omega), toNat_saturatingAdd_of_lt (by omega),
      toNat_saturatingAdd_of_lt (by omega), toNat_saturatingAdd_of_lt (by omega)]
    omega
  refine ⟨?_, ?_, h.distributed⟩
  · show (s.totalCollected + totalFees).toNat = _
    rw [toNat_add_of_lt (by omega), hcollected]
  · rw [hpots]
    show _ = s.recorded + _
    omega

/-- Marking records as claimed keeps their amounts. -/
theorem recorded_markClaimed (s : FeeDistributor) (address : Address) (txHash : H256) :
    (s.markClaimed address txHash).recorded = s.recorded := by
  unfold markClaimed
  split
  · rfl
  · next records hlookup =>
    have hrecorded : ∀ s : FeeDistributor, s.recorded = (Column.records (fun rs =>
        (rs.map fun r : DistributionRecord => r.amount.toNat).sum) s.distributions).sum := by
      intro s
      rw [recorded, FeeDistributor.records, Column.records, Column.records,
        ← Multiset.coe_mapAddMonoidHom, map_multiset_sum, Multiset.map_map,
        ← Multiset.coe_sumAddMonoidHom, map_multiset_sum, Multiset.map_map]
      rfl
    rw [hrecorded, hrecorded]
    refine congrArg Multiset.sum (Column.records_insert_same _ hlookup ?_)
    rw [List.map_map]
    refine congrArg List.sum (List.map_congr_left fun r _ => ?_)
    show (if r.claimed then r else _).amount.toNat = _
    split
    · rfl
    · rfl

/-- Where only the recipients change. -/
theorem Books.setRecipients (h : Books n s) (m : Column Address UInt64) (stream : Stream) :
    Books n (s.setRecipients m stream) := by
  cases stream with
  | A => exact ⟨h.collected, h.accounted, h.distributed⟩
  | B => exact ⟨h.collected, h.accounted, h.distributed⟩
  | C => exact ⟨h.collected, h.accounted, h.distributed⟩

end FeeDistributor

namespace FeeOp

open FeeDistributor

variable {s : FeeDistributor} {op : FeeOp} {n : Nat}

/-- What is recorded grows by what is drawn. -/
theorem recorded_distribute (order : Stream → RecipientOrder)
    (clock : Stream → Address → UInt64) (treasuryAt : UInt64) {currentBlock : UInt64}
    (hdue : s.shouldDistribute currentBlock) :
    let op := distribute order clock treasuryAt currentBlock
    (op.apply s).recorded = op.drawnSum s + s.recorded := by
  intro op
  obtain ⟨_, _, _, hrecords⟩ := distribute_due order clock treasuryAt hdue
  rw [recorded, hrecords, Multiset.map_add, Multiset.sum_add, Multiset.map_coe, Multiset.sum_coe,
    List.map_map]
  rfl

/-- **One call** that draws all of what is in the pots, if it draws at all, keeps the
books. -/
theorem Books.apply (h : Books n s) (hlt : n + op.fees < 2 ^ 64)
    (hdrawn : ∀ order clock treasuryAt currentBlock,
      op = distribute order clock treasuryAt currentBlock → s.shouldDistribute currentBlock →
      op.drawnSum s = s.pots) : Books (n + op.fees) (op.apply s) := by
  cases op with
  | collectFees now blockHeight blockHash totalFees => exact h.collectFees _ _ _ hlt
  | registerRecipient stream address weight => exact h.setRecipients _ stream
  | updateRecipientWeight stream address weight => exact h.setRecipients _ stream
  | removeRecipient stream address => exact h.setRecipients _ stream
  | markClaimed address txHash =>
    have hsame : (s.markClaimed address txHash).totalCollected = s.totalCollected ∧
        (s.markClaimed address txHash).totalDistributed = s.totalDistributed ∧
        (s.markClaimed address txHash).pending = s.pending := by
      unfold FeeDistributor.markClaimed
      split
      · exact ⟨rfl, rfl, rfl⟩
      · exact ⟨rfl, rfl, rfl⟩
    have hrecorded := s.recorded_markClaimed address txHash
    refine ⟨?_, ?_, ?_⟩
    · show (s.markClaimed address txHash).totalCollected.toNat = _
      rw [hsame.1]
      exact h.collected
    · show _ = (s.markClaimed address txHash).recorded + (s.markClaimed address txHash).pots
      rw [hrecorded, pots, hsame.2.2]
      exact h.accounted
    · show (s.markClaimed address txHash).totalDistributed.toNat
        = (s.markClaimed address txHash).recorded
      rw [hrecorded, hsame.2.1]
      exact h.distributed
  | distribute order clock treasuryAt currentBlock =>
    by_cases hdue : s.shouldDistribute currentBlock
    · have hall := hdrawn order clock treasuryAt currentBlock rfl hdue
      obtain ⟨hpending, hcollected, hdistributed, _⟩ := distribute_due order clock
        treasuryAt hdue
      have hrecorded := recorded_distribute order clock treasuryAt hdue
      have haccounted := h.accounted
      have hbound : n < 2 ^ 64 := hlt
      refine ⟨?_, ?_, ?_⟩
      · rw [hcollected]
        exact h.collected
      · have hempty := pots_of_empty hpending
        rw [hrecorded, hall, hempty]
        show n = s.pots + s.recorded + 0
        omega
      · rw [hdistributed, hrecorded, hall]
        have hpots : (UInt64.ofNat s.pots).toNat = s.pots :=
          UInt64.toNat_ofNat_of_lt' (by show s.pots < 2 ^ 64; omega)
        rw [toNat_add_of_lt (by rw [hpots, h.distributed]; omega), hpots, h.distributed]
        omega
    · have hstays : (distribute order clock treasuryAt currentBlock).apply s = s := by
        show (s.distribute order clock treasuryAt currentBlock).1 = s
        rw [FeeDistributor.distribute, if_neg hdue]
      rw [hstays]
      exact h

/-- A round draws all of it, where the weights fit, exactly when it is even. -/
theorem drawnSum_eq_pots_iff {order : Stream → RecipientOrder}
    {clock : Stream → Address → UInt64} {treasuryAt currentBlock : UInt64}
    (hdue : s.shouldDistribute currentBlock)
    (hfit : (distribute order clock treasuryAt currentBlock).WeightsFit s) :
    (distribute order clock treasuryAt currentBlock).drawnSum s = s.pots ↔
      (distribute order clock treasuryAt currentBlock).Even s := by
  have hstream : ∀ stream, s.paidOut (order stream) stream (s.pending.stream stream)
        ≤ (s.pending.stream stream).toNat ∧
      (s.paidOut (order stream) stream (s.pending.stream stream)
          = (s.pending.stream stream).toNat ↔
        (s.pending.stream stream ≠ 0 → 0 < Column.total UInt64.toNat (s.recipients stream) ∧
          ∀ address weight, (s.recipients stream).lookup address = some weight →
            Column.total UInt64.toNat (s.recipients stream)
              ∣ (s.pending.stream stream).toNat * weight.toNat)) := by
    intro stream
    by_cases hzero : s.pending.stream stream = 0
    · have hnone : s.paidOut (order stream) stream (s.pending.stream stream) = 0 := by
        rw [hzero, paidOut, calculateStreamDistribution]
        split
        · rfl
        · rw [sum_filter_pos, List.map_map]
          refine List.sum_eq_zero fun x hx => ?_
          obtain ⟨e, _, rfl⟩ := List.mem_map.mp hx
          simp [mulDiv]
      rw [hnone]
      refine ⟨Nat.zero_le _, iff_of_true ?_ (absurd hzero)⟩
      rw [hzero]
      rfl
    · obtain ⟨_, hle, hiff⟩ := paidOut_of_fit (order stream)
        (s.pending.stream stream) (hfit hdue stream hzero)
      refine ⟨hle, (hiff hzero).trans ⟨fun h _ => h, fun h => h hzero⟩⟩
  rw [drawnSum_distribute hdue, pots]
  obtain ⟨hA, hAiff⟩ := hstream .A
  obtain ⟨hB, hBiff⟩ := hstream .B
  obtain ⟨hC, hCiff⟩ := hstream .C
  constructor
  · intro hsum _ stream
    simp only [PendingFees.stream] at hA hB hC hAiff hBiff hCiff
    cases stream with
    | A => exact hAiff.mp (by omega)
    | B => exact hBiff.mp (by omega)
    | C => exact hCiff.mp (by omega)
  · intro heven
    have h₁ := hAiff.mpr (heven hdue .A)
    have h₂ := hBiff.mpr (heven hdue .B)
    have h₃ := hCiff.mpr (heven hdue .C)
    simp only [PendingFees.stream] at h₁ h₂ h₃
    omega

/-- No record exceeds its pot, where the weights fit. -/
theorem drawn_le (hfit : op.WeightsFit s) : ∀ e ∈ op.drawn s, e.1.amount ≤ e.2 := by
  intro e he
  cases op with
  | distribute order clock treasuryAt currentBlock =>
    rw [drawn] at he
    split at he
    · next hdue =>
      rcases List.mem_append.mp he with hstream | htreasury
      · obtain ⟨stream, _, hrecord⟩ := List.mem_flatMap.mp hstream
        obtain ⟨r, hr, rfl⟩ := List.mem_map.mp hrecord
        obtain ⟨share, hshare, rfl⟩ := List.mem_map.mp hr
        by_cases hzero : s.pending.stream stream = 0
        · -- out of an empty pot no share is recorded
          unfold calculateStreamDistribution at hshare
          simp only at hshare
          split at hshare
          · cases hshare
          · obtain ⟨hmem, hpos⟩ := List.mem_filter.mp hshare
            obtain ⟨e', _, rfl⟩ := List.mem_map.mp hmem
            simp [hzero, mulDiv] at hpos
        · exact (paidOut_of_fit _ _ (hfit hdue stream hzero)).1 share hshare
      · obtain ⟨r, hr, rfl⟩ := List.mem_map.mp htreasury
        unfold treasuryRecords at hr
        split at hr
        · cases List.mem_singleton.mp hr
          exact UInt64.le_refl _
        · cases hr
    · cases he
  | collectFees => cases he
  | registerRecipient => cases he
  | updateRecipientWeight => cases he
  | removeRecipient => cases he
  | markClaimed => cases he

/-! ## Runs -/

theorem sum_fees_snoc (pre : List FeeOp) (op : FeeOp) :
    ((pre ++ [op]).map fees).sum = (pre.map fees).sum + op.fees := by
  rw [List.map_append, List.sum_append]
  exact congrArg _ (Nat.add_zero _)

theorem sum_fees_le_of {pre ops : List FeeOp} (h : pre <+: ops) :
    (pre.map fees).sum ≤ (ops.map fees).sum := by
  obtain ⟨post, rfl⟩ := h
  rw [List.map_append, List.sum_append]
  exact Nat.le_add_right _ _

/-- If the fees are conserved by a round, all of the pots was drawn. -/
theorem drawnSum_of_conserved (h : Books n s) {order : Stream → RecipientOrder}
    {clock : Stream → Address → UInt64} {treasuryAt currentBlock : UInt64}
    (hdue : s.shouldDistribute currentBlock)
    (hconserved : Conserved ((distribute order clock treasuryAt currentBlock).apply s)) :
    (distribute order clock treasuryAt currentBlock).drawnSum s = s.pots := by
  obtain ⟨hpending, hcollected, _⟩ := distribute_due order clock treasuryAt hdue
  have hrecorded := recorded_distribute order clock treasuryAt hdue
  have hafter := hconserved.collected
  have hempty := pots_of_empty hpending
  have htotal := toNat_total_of_lt (s := (distribute order clock treasuryAt currentBlock).apply s)
    (by rw [hempty]; decide)
  rw [hcollected, h.collected, hrecorded, htotal, hempty] at hafter
  have haccounted := h.accounted
  omega

/-- **Conservation.** Along a run whose fees fit the total, fees are conserved and no
record exceeds its pot, if the weights fit and the shares are even in every round.
Where the weights fit, fees are conserved only then. -/
theorem conserved_of_even (treasury : Address) (ops : List FeeOp)
    (hfees : (ops.map fees).sum < 2 ^ 64) :
    ((∀ pre op, pre ++ [op] <+: ops → op.WeightsFit (run (new treasury) pre) ∧
          op.Even (run (new treasury) pre)) →
        (∀ pre, pre <+: ops → Conserved (run (new treasury) pre)) ∧
          ∀ pre op, pre ++ [op] <+: ops →
            ∀ e ∈ op.drawn (run (new treasury) pre), e.1.amount ≤ e.2) ∧
      ((∀ pre op, pre ++ [op] <+: ops → op.WeightsFit (run (new treasury) pre)) →
        (∀ pre, pre <+: ops → Conserved (run (new treasury) pre)) →
          ∀ pre op, pre ++ [op] <+: ops → op.Even (run (new treasury) pre)) := by
  have hlt : ∀ pre, pre <+: ops → (pre.map fees).sum < 2 ^ 64 :=
    fun pre hpre => Nat.lt_of_le_of_lt (sum_fees_le_of hpre) hfees
  -- the books are kept by a call that draws all there is, if it draws
  have hstep : ∀ pre op, pre ++ [op] <+: ops → Books (pre.map fees).sum (run (new treasury) pre) →
      (∀ order clock treasuryAt currentBlock,
        op = distribute order clock treasuryAt currentBlock →
        (run (new treasury) pre).shouldDistribute currentBlock →
        op.drawnSum (run (new treasury) pre) = (run (new treasury) pre).pots) →
      Books ((pre ++ [op]).map fees).sum (run (new treasury) (pre ++ [op])) := by
    intro pre op hpre h hdrawn
    have hbound := hlt (pre ++ [op]) hpre
    rw [sum_fees_snoc] at hbound ⊢
    rw [run_snoc]
    exact Books.apply h hbound hdrawn
  constructor
  · intro heven
    refine ⟨?_, fun pre op hpre => drawn_le (heven pre op hpre).1⟩
    have hbooks : ∀ pre, pre <+: ops → Books (pre.map fees).sum (run (new treasury) pre) := by
      refine forall_prefixes (books_new treasury) fun pre op hpre h => hstep pre op hpre h ?_
      rintro order clock treasuryAt currentBlock rfl hdue
      exact (drawnSum_eq_pots_iff hdue (heven pre _ hpre).1).mpr (heven pre _ hpre).2
    exact fun pre hpre => (hbooks pre hpre).conserved (hlt pre hpre)
  · intro hfit hconserved
    have hall : ∀ pre op, pre ++ [op] <+: ops →
        Books (pre.map fees).sum (run (new treasury) pre) →
        ∀ order clock treasuryAt currentBlock,
          op = distribute order clock treasuryAt currentBlock →
          (run (new treasury) pre).shouldDistribute currentBlock →
          op.drawnSum (run (new treasury) pre) = (run (new treasury) pre).pots := by
      rintro pre op hpre h order clock treasuryAt currentBlock rfl hdue
      have hafter := hconserved _ hpre
      rw [run_snoc] at hafter
      exact drawnSum_of_conserved h hdue hafter
    have hbooks : ∀ pre, pre <+: ops → Books (pre.map fees).sum (run (new treasury) pre) :=
      forall_prefixes (books_new treasury) fun pre op hpre h =>
        hstep pre op hpre h (hall pre op hpre h)
    intro pre op hpre
    have h := hbooks pre ((List.prefix_append pre [op]).trans hpre)
    cases op with
    | distribute order clock treasuryAt currentBlock =>
      intro hdue
      exact (drawnSum_eq_pots_iff hdue (hfit pre _ hpre)).mp
        (hall pre _ hpre h order clock treasuryAt currentBlock rfl hdue) hdue
    | collectFees => trivial
    | registerRecipient => trivial
    | updateRecipientWeight => trivial
    | removeRecipient => trivial
    | markClaimed => trivial

/-- Ten PYRAX of fees in block 100. -/
def collectTen : FeeOp := .collectFees 1700000000 100 ⟨Vector.replicate 32 1⟩ 1000000000

noncomputable def distributeAt (currentBlock : UInt64) : FeeOp :=
  .distribute (fun _ => .ofList [⟨Vector.replicate 20 1⟩, ⟨Vector.replicate 20 2⟩])
    (fun _ _ => 1700000100) 1700000100 currentBlock

/-- One recipient for each stream. -/
noncomputable def paidInFull : List FeeOp :=
  [.registerRecipient .A ⟨Vector.replicate 20 1⟩ 100,
    .registerRecipient .B ⟨Vector.replicate 20 2⟩ 100,
    .registerRecipient .C ⟨Vector.replicate 20 1⟩ 100, collectTen, distributeAt 100]

/-- The recipients of a stream that one call has registered. -/
theorem even_of_single {s : FeeDistributor} {stream : Stream} (address : Address) (weight : UInt64)
    (hone : s.recipients stream = (∅ : Column Address UInt64).insert address weight) :
    Column.total UInt64.toNat (s.recipients stream) = weight.toNat ∧
      ∀ address' weight', (s.recipients stream).lookup address' = some weight' →
        Column.total UInt64.toNat (s.recipients stream)
          ∣ (s.pending.stream stream).toNat * weight'.toNat := by
  have htotal : Column.total UInt64.toNat (s.recipients stream) = weight.toNat := by
    rw [hone, Column.total_insert_of_notMem _ _ Finmap.notMem_empty, Column.total_empty,
      Nat.add_zero]
  refine ⟨htotal, ?_⟩
  rw [htotal, hone]
  refine Column.forall_lookup_insert (p := fun w : UInt64 => weight.toNat
    ∣ (s.pending.stream stream).toNat * w.toNat) ?_ (Nat.dvd_mul_left _ _)
  intro k v hlookup
  rw [Finmap.lookup_empty] at hlookup
  cases hlookup

theorem conserved_paid_in_full :
    Conserved (run (new ⟨Vector.replicate 20 255⟩) paidInFull) ∧
      (run (new ⟨Vector.replicate 20 255⟩) paidInFull).recorded = 1000000000 := by
  have hround : ∀ stream,
      Column.total UInt64.toNat ((run (new ⟨Vector.replicate 20 255⟩)
        (paidInFull.take 4)).recipients stream) = 100 ∧
      ∀ address weight, ((run (new ⟨Vector.replicate 20 255⟩)
          (paidInFull.take 4)).recipients stream).lookup address = some weight →
        Column.total UInt64.toNat ((run (new ⟨Vector.replicate 20 255⟩)
          (paidInFull.take 4)).recipients stream) ∣ ((run (new ⟨Vector.replicate 20 255⟩)
          (paidInFull.take 4)).pending.stream stream).toNat * weight.toNat := by
    intro stream
    cases stream with
    | A => exact even_of_single ⟨Vector.replicate 20 1⟩ 100 rfl
    | B => exact even_of_single ⟨Vector.replicate 20 2⟩ 100 rfl
    | C => exact even_of_single ⟨Vector.replicate 20 1⟩ 100 rfl
  refine ⟨((conserved_of_even _ paidInFull (by decide)).1 ?_).1 _ List.prefix_rfl,
    by decide +kernel⟩
  refine forall_prefixes_snoc fun i hi => ?_
  match i, hi with
  | 0, _ => exact ⟨trivial, trivial⟩
  | 1, _ => exact ⟨trivial, trivial⟩
  | 2, _ => exact ⟨trivial, trivial⟩
  | 3, _ => exact ⟨trivial, trivial⟩
  | 4, _ =>
    refine ⟨fun _ stream _ => ?_, fun _ stream _ => ⟨?_, (hround stream).2⟩⟩
    · show Column.total UInt64.toNat ((run (new ⟨Vector.replicate 20 255⟩)
        (paidInFull.take 4)).recipients stream) < 2 ^ 64
      rw [(hround stream).1]
      decide
    · show 0 < Column.total UInt64.toNat ((run (new ⟨Vector.replicate 20 255⟩)
        (paidInFull.take 4)).recipients stream)
      rw [(hround stream).1]
      decide

/-- Two recipients whose weights add up to one past the machine word. -/
noncomputable def overweight : List FeeOp :=
  [.registerRecipient .A ⟨Vector.replicate 20 1⟩ 0xFFFFFFFFFFFFFFFF,
    .registerRecipient .A ⟨Vector.replicate 20 2⟩ 2, collectTen]

/-- Without recipients nine tenths of the fees are gone after a round, and with too much
weight more is recorded than there was. -/
theorem pot_emptied_for_nobody :
    (¬ Conserved (run (new ⟨Vector.replicate 20 255⟩) [collectTen, distributeAt 100]) ∧
        (run (new ⟨Vector.replicate 20 255⟩) [collectTen, distributeAt 100]).totalCollected
          = 1000000000 ∧
        (run (new ⟨Vector.replicate 20 255⟩) [collectTen, distributeAt 100]).recorded = 100000000 ∧
        (run (new ⟨Vector.replicate 20 255⟩) [collectTen, distributeAt 100]).pending.total = 0) ∧
      ((distributeAt 100).drawn (run (new ⟨Vector.replicate 20 255⟩) overweight)).map
          (fun e => (e.1.amount, e.2))
        = [(18446744073509551616, 200000000), (400000000, 200000000), (100000000, 100000000)] := by
  have hcollected : (run (new ⟨Vector.replicate 20 255⟩)
      [collectTen, distributeAt 100]).totalCollected = 1000000000 := by
    decide +kernel
  have hrecorded : (run (new ⟨Vector.replicate 20 255⟩)
      [collectTen, distributeAt 100]).recorded = 100000000 := by
    decide +kernel
  have hpending : (run (new ⟨Vector.replicate 20 255⟩)
      [collectTen, distributeAt 100]).pending.total = 0 := by
    decide +kernel
  refine ⟨⟨fun h => ?_, hcollected, hrecorded, hpending⟩, by decide +kernel⟩
  have hsum := h.collected
  rw [hcollected, hrecorded, hpending] at hsum
  exact absurd hsum (by decide)

end FeeOp

end Pyrax.Bridge
