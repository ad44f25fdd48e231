import Pyrax.Base.Run
import Pyrax.Base.Word

/-!
# The gas meter of WASM contracts

`GasCost::calculate` and `GasMeter` of `pyrax-node/src/wasm/metering.rs`, in wrapping 64-bit
arithmetic. A meter that is asked for too much sets `used` to the limit and answers `false`;
from then on it adds to the limit.

So `used` is the total of all amounts asked for, but never more than the limit, as long as no
addition wraps around to the limit or below it. Costs that are themselves beyond 64 bits
wrap as well, and to the sum it makes no difference when (`toNat_calculate`,
`meter_exact_iff`). An amount of zero is granted even to a meter that has refused before.
-/

namespace Pyrax.Wasm

open Base Word

inductive GasCost where
  | free
  | fixed (cost : UInt64)
  | linear (base perUnit : UInt64)
  | quadratic (base perUnit perUnitSquared : UInt64)
  deriving DecidableEq

namespace GasCost

def calculate (cost : GasCost) (units : UInt64) : UInt64 :=
  match cost with
  | free => 0
  | fixed cost => cost
  | linear base perUnit => base + perUnit * units
  | quadratic base perUnit perUnitSquared =>
    base + perUnit * units + perUnitSquared * units * units

/-- The same without bounds. -/
def amount (cost : GasCost) (units : Nat) : Nat :=
  match cost with
  | free => 0
  | fixed cost => cost.toNat
  | linear base perUnit => base.toNat + perUnit.toNat * units
  | quadratic base perUnit perUnitSquared =>
    base.toNat + perUnit.toNat * units + perUnitSquared.toNat * units * units

theorem toNat_calculate (cost : GasCost) (units : UInt64) :
    (cost.calculate units).toNat = cost.amount units.toNat % 2 ^ 64 := by
  cases cost with
  | free => rfl
  | fixed cost => exact (Nat.mod_eq_of_lt cost.toNat_lt).symm
  | linear base perUnit =>
    rw [calculate, amount, UInt64.toNat_add, UInt64.toNat_mul, Nat.add_mod_mod]
  | quadratic base perUnit perUnitSquared =>
    rw [calculate, amount, UInt64.toNat_add, UInt64.toNat_add, UInt64.toNat_mul, UInt64.toNat_mul,
      UInt64.toNat_mul]
    simp only [Nat.add_mod, Nat.mul_mod, Nat.mod_mod]

end GasCost

/-- What the counters need; the table of instruction costs is left out. -/
structure GasMeter where
  limit : UInt64
  used : UInt64
  refunded : UInt64
  enabled : Bool
  deriving DecidableEq

namespace GasMeter

def new (limit : UInt64) : GasMeter := ⟨limit, 0, 0, true⟩

def consume (m : GasMeter) (amount : UInt64) : Bool × GasMeter :=
  if !m.enabled then (true, m)
  else if m.limit < m.used + amount then (false, { m with used := m.limit })
  else (true, { m with used := m.used + amount })

def consumeCost (m : GasMeter) (cost : GasCost) (units : UInt64) : Bool × GasMeter :=
  m.consume (cost.calculate units)

def refund (m : GasMeter) (amount : UInt64) : GasMeter := { m with refunded := m.refunded + amount }

def gasUsed (m : GasMeter) : UInt64 := m.used

def totalRefund (m : GasMeter) : UInt64 := min m.refunded (m.used / 2)

def effectiveGasUsed (m : GasMeter) : UInt64 := saturatingSub m.used m.totalRefund

end GasMeter

/-- A call that charges something. -/
inductive Charge where
  | consume (amount : UInt64)
  | consumeCost (cost : GasCost) (units : UInt64)
  deriving DecidableEq

namespace Charge

/-- What it charges, without bounds. -/
def amount : Charge → Nat
  | consume amount => amount.toNat
  | consumeCost cost units => cost.amount units.toNat

def apply (m : GasMeter) : Charge → Bool × GasMeter
  | consume amount => m.consume amount
  | consumeCost cost units => m.consumeCost cost units

/-- What a list of calls charges. -/
def total (calls : List Charge) : Nat := (calls.map amount).sum

/-- A new meter with a limit and a refund, after some calls. -/
def after (limit refund : UInt64) (calls : List Charge) : GasMeter :=
  calls.foldl (fun m c => (c.apply m).2) ((GasMeter.new limit).refund refund)

/-- The answer to a further call. -/
def granted (limit refund : UInt64) (pre : List Charge) (c : Charge) : Bool :=
  (c.apply (after limit refund pre)).1

/-- The meter counts exactly. -/
structure Exact (limit refund : UInt64) (calls : List Charge) : Prop where
  bounded : ∀ pre, pre <+: calls → (after limit refund pre).gasUsed ≤ limit
  decided : ∀ pre c, pre ++ [c] <+: calls →
    (granted limit refund pre c = true ↔ total (pre ++ [c]) ≤ limit.toNat)
  final : ∀ pre c mid c', pre ++ [c] ++ mid ++ [c'] <+: calls → granted limit refund pre c = false →
    0 < c'.amount → granted limit refund (pre ++ [c] ++ mid) c' = false
  effective : ∀ pre, pre <+: calls →
    (after limit refund pre).gasUsed / 2 ≤ (after limit refund pre).effectiveGasUsed

/-- Once the total is over the limit, the sum that the meter makes is over it too: of what it
holds, the total up to the limit, and the amount, less whole multiples of `2 ^ 64`. -/
def Overflows (limit : UInt64) (pre : List Charge) (c : Charge) : Prop :=
  limit.toNat < total (pre ++ [c]) →
    limit.toNat < (min (total pre) limit.toNat + c.amount) % 2 ^ 64

/-! ## One call -/

variable {limit refund : UInt64} {calls pre : List Charge} {c : Charge}

theorem total_snoc (pre : List Charge) (c : Charge) : total (pre ++ [c]) = total pre + c.amount := by
  simp [total]

theorem total_append (pre post : List Charge) : total (pre ++ post) = total pre + total post := by
  simp [total]

theorem after_snoc (limit refund : UInt64) (pre : List Charge) (c : Charge) :
    after limit refund (pre ++ [c]) = (c.apply (after limit refund pre)).2 := by
  rw [after, List.foldl_append]
  rfl

/-- A call on an enabled meter, by the sum it makes. -/
theorem apply_spec {m : GasMeter} (h : m.enabled = true) (c : Charge) :
    (c.apply m).2.enabled = true ∧ (c.apply m).2.limit = m.limit ∧
      ((c.apply m).1 = true ↔ (m.used.toNat + c.amount) % 2 ^ 64 ≤ m.limit.toNat) ∧
      (c.apply m).2.used.toNat = if (m.used.toNat + c.amount) % 2 ^ 64 ≤ m.limit.toNat then
        (m.used.toNat + c.amount) % 2 ^ 64 else m.limit.toNat := by
  have hconsume : ∀ amount : UInt64, ∀ exact : Nat, amount.toNat = exact % 2 ^ 64 →
      (m.consume amount).2.enabled = true ∧ (m.consume amount).2.limit = m.limit ∧
        ((m.consume amount).1 = true ↔ (m.used.toNat + exact) % 2 ^ 64 ≤ m.limit.toNat) ∧
        (m.consume amount).2.used.toNat = if (m.used.toNat + exact) % 2 ^ 64 ≤ m.limit.toNat then
          (m.used.toNat + exact) % 2 ^ 64 else m.limit.toNat := by
    intro amount exact hamount
    have hsum : (m.used + amount).toNat = (m.used.toNat + exact) % 2 ^ 64 := by
      rw [UInt64.toNat_add, hamount, Nat.add_mod_mod]
    rw [GasMeter.consume, if_neg (by simp [h]), ← hsum]
    split
    · next hover =>
      rw [UInt64.lt_iff_toNat_lt] at hover
      exact ⟨h, rfl, iff_of_false (by simp) (by omega), (if_neg (by omega)).symm⟩
    · next hwithin =>
      rw [UInt64.lt_iff_toNat_lt] at hwithin
      exact ⟨h, rfl, iff_of_true rfl (by omega), (if_pos (by omega)).symm⟩
  cases c with
  | consume amount => exact hconsume amount _ (Nat.mod_eq_of_lt amount.toNat_lt).symm
  | consumeCost cost units => exact hconsume _ _ (cost.toNat_calculate units)

/-- Limit and switch stay as they are, and no more than the limit is used. -/
theorem after_kept (limit refund : UInt64) (calls : List Charge) :
    (after limit refund calls).enabled = true ∧ (after limit refund calls).limit = limit ∧
      (after limit refund calls).used.toNat ≤ limit.toNat := by
  induction calls using List.reverseRecOn with
  | nil => exact ⟨rfl, rfl, Nat.zero_le _⟩
  | append_singleton pre c ih =>
    obtain ⟨henabled, hlimit, hused⟩ := ih
    obtain ⟨henabled', hlimit', -, hused'⟩ := apply_spec henabled c
    rw [after_snoc]
    refine ⟨henabled', hlimit'.trans hlimit, ?_⟩
    rw [hused', hlimit]
    split
    · assumption
    · exact Nat.le_refl _

/-- The meter holds the total, up to the limit. -/
def Counts (limit refund : UInt64) (pre : List Charge) : Prop :=
  (after limit refund pre).used.toNat = min (total pre) limit.toNat

/-- A meter that counts answers rightly exactly where the sum does not come out small. -/
theorem granted_iff (h : Counts limit refund pre) (c : Charge) :
    (granted limit refund pre c = true ↔ total (pre ++ [c]) ≤ limit.toNat) ↔
      Overflows limit pre c := by
  obtain ⟨henabled, hlimit, -⟩ := after_kept limit refund pre
  obtain ⟨-, -, hgranted, -⟩ := apply_spec henabled c
  have hlt := limit.toNat_lt
  rw [granted, hgranted, hlimit, h, Overflows, total_snoc]
  constructor
  · intro hiff hover
    exact Nat.lt_of_not_le fun hsum => absurd (hiff.mp hsum) (by omega)
  · intro hsum
    constructor
    · intro hsmall
      by_contra hover
      exact absurd (hsum (by omega)) (by omega)
    · intro hfits
      rw [Nat.min_eq_left (by omega), Nat.mod_eq_of_lt (by omega)]
      exact hfits

/-- And it counts on. -/
theorem Counts.snoc (h : Counts limit refund pre) (hover : Overflows limit pre c) :
    Counts limit refund (pre ++ [c]) := by
  obtain ⟨henabled, hlimit, -⟩ := after_kept limit refund pre
  obtain ⟨-, -, -, hused⟩ := apply_spec henabled c
  have hlt := limit.toNat_lt
  unfold Overflows at hover
  rw [total_snoc] at hover
  rw [Counts, after_snoc, hused, hlimit, h, total_snoc]
  by_cases hfits : total pre + c.amount ≤ limit.toNat
  · have hsum : (min (total pre) limit.toNat + c.amount) % 2 ^ 64 = total pre + c.amount := by
      rw [Nat.min_eq_left (by omega), Nat.mod_eq_of_lt (by omega)]
    rw [hsum, if_pos hfits, Nat.min_eq_left hfits]
  · rw [if_neg (Nat.not_le.mpr (hover (by omega))), Nat.min_eq_right (by omega)]

theorem counts_nil (limit refund : UInt64) : Counts limit refund [] :=
  (Nat.min_eq_left (Nat.zero_le _)).symm

/-- At most half of what was used is given back. -/
theorem half_le_effective (m : GasMeter) : m.gasUsed / 2 ≤ m.effectiveGasUsed := by
  have hrefund : m.totalRefund.toNat ≤ m.used.toNat / 2 := by
    show (if m.refunded ≤ m.used / 2 then m.refunded else m.used / 2).toNat ≤ m.used.toNat / 2
    split
    · next hle =>
      rw [UInt64.le_iff_toNat_le, UInt64.toNat_div] at hle
      exact hle
    · exact Nat.le_of_eq (UInt64.toNat_div ..)
  have hle : m.totalRefund ≤ m.used := UInt64.le_iff_toNat_le.mpr (by omega)
  rw [GasMeter.effectiveGasUsed, saturatingSub, if_pos hle, UInt64.le_iff_toNat_le,
    toNat_sub_of_le (UInt64.le_iff_toNat_le.mp hle), UInt64.toNat_div]
  show m.used.toNat / 2 ≤ _
  omega

/-- Where no sum that should be over the limit comes out small, the meter is exact. -/
theorem exact_of_overflows (h : ∀ pre c, pre ++ [c] <+: calls → Overflows limit pre c) :
    Exact limit refund calls := by
  have hcounts : ∀ pre, pre <+: calls → Counts limit refund pre :=
    forall_prefixes (counts_nil limit refund) fun pre c hpre hcounts => hcounts.snoc (h pre c hpre)
  have hdecided : ∀ pre c, pre ++ [c] <+: calls →
      (granted limit refund pre c = true ↔ total (pre ++ [c]) ≤ limit.toNat) := by
    intro pre c hpre
    exact (granted_iff (hcounts pre ((List.prefix_append pre [c]).trans hpre)) c).mpr
      (h pre c hpre)
  refine ⟨fun pre _ => ?_, hdecided, fun pre c mid c' hpre hfalse _ => ?_,
    fun pre _ => half_le_effective _⟩
  · exact UInt64.le_iff_toNat_le.mpr (after_kept limit refund pre).2.2
  · -- the total does not come down again
    have hfirst : pre ++ [c] <+: calls :=
      ((List.prefix_append (pre ++ [c]) (mid ++ [c'])).trans (by rw [← List.append_assoc])).trans
        hpre
    have hover : ¬ total (pre ++ [c]) ≤ limit.toNat := fun hfits => by
      rw [(hdecided pre c hfirst).mpr hfits] at hfalse
      cases hfalse
    have hlater : ¬ total (pre ++ [c] ++ mid ++ [c']) ≤ limit.toNat := by
      rw [total_append, total_append]
      omega
    exact Bool.eq_false_iff.mpr fun htrue => hlater ((hdecided _ c' hpre).mp htrue)

/-- **The meter is exact** exactly in the runs in which the sum is over the limit at every call
that brings the total over it. -/
theorem meter_exact_iff (limit refund : UInt64) (calls : List Charge) :
    Exact limit refund calls ↔ ∀ pre c, pre ++ [c] <+: calls → Overflows limit pre c := by
  refine ⟨fun h pre c hpre => ?_, exact_of_overflows⟩
  have hcounts : ∀ pre, pre <+: calls → Counts limit refund pre :=
    forall_prefixes (counts_nil limit refund) fun pre c hpre hcounts =>
      hcounts.snoc ((granted_iff hcounts c).mp (h.decided pre c hpre))
  exact (granted_iff (hcounts pre ((List.prefix_append pre [c]).trans hpre)) c).mp
    (h.decided pre c hpre)

/-- Positive amounts that cannot carry the limit past 64 bits are counted exactly. -/
theorem exact_of_small (h : ∀ c ∈ calls, 0 < c.amount ∧ limit.toNat + c.amount < 2 ^ 64) :
    Exact limit refund calls := by
  refine exact_of_overflows fun pre c hpre hover => ?_
  obtain ⟨hpos, hsmall⟩ := h c (hpre.subset (by simp))
  rw [total_snoc] at hover
  rw [Nat.mod_eq_of_lt (by omega)]
  omega

/-- Half of the limit, and then as much as a word holds. -/
theorem all_granted :
    granted 1000 0 [.consume 500] (.consume 0xFFFFFFFFFFFFFFFF) = true ∧
      (after 1000 0 [.consume 500, .consume 0xFFFFFFFFFFFFFFFF]).gasUsed = 499 ∧
      1000 < total [.consume 500, .consume 0xFFFFFFFFFFFFFFFF] ∧
      ¬ Exact 1000 0 [.consume 500, .consume 0xFFFFFFFFFFFFFFFF] := by
  refine ⟨by decide, by decide, by decide, fun h => ?_⟩
  have hdecided := h.decided [.consume 500] (.consume 0xFFFFFFFFFFFFFFFF) (List.prefix_refl _)
  exact absurd (hdecided.mp (by decide)) (by decide)

end Charge

end Pyrax.Wasm
