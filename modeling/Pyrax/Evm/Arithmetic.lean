import Mathlib.Algebra.Order.Ring.Nat
import Mathlib.Data.List.GetD
import Mathlib.Tactic.IntervalCases
import Mathlib.Tactic.Ring
import Pyrax.Base.BigEndian
import Pyrax.Evm.Types

/-!
# Where the words of the EVM are exact

`checked_add` and `checked_sub` of `pyrax-node/src/evm/types.rs` carry from limb to limb
and are exact for all words. `checked_mul` sums the products of one place in a `u128`, and
`+=` wraps there: the place of the second limbs can hold two full products and the carry
of the first. What is lost then is `2 ^ 192`.

The higher places cannot be the ones at fault. Where no product is out of place, the last
column is one product; while that is less than a limb the column before it fits, and once
it is more, the product of the two words is out of range and is found to be
(`columns_fit`). So multiplication is exact if the second column fits, or what is lost
leaves the product out of range (`checkedMul_exact_iff`).
-/

namespace Pyrax.Evm.U256

open Base Word Limbs

/-- What an operation with overflow should return: the number, if it is one of a word. -/
structure Exact (n : Int) (result : Option U256) : Prop where
  returns : 0 ≤ n → n < 2 ^ 256 → ∃ c, result = some c ∧ (c.toNat : Int) = n
  refuses : n < 0 ∨ 2 ^ 256 ≤ n → result = none

variable {a b c : U256} {result : Option U256}

/-- For a number that may be too large. -/
theorem exact_iff_of_nonneg {n : Nat} :
    Exact n result ↔ (∀ c, result = some c → c.toNat = n) ∧ (result = none → 2 ^ 256 ≤ n) := by
  constructor
  · intro h
    by_cases hn : n < 2 ^ 256
    · obtain ⟨c, rfl, hc⟩ := h.returns (by omega) (by omega)
      refine ⟨fun c' hc' => ?_, nofun⟩
      cases hc'
      omega
    · obtain rfl := h.refuses (by omega)
      exact ⟨nofun, fun _ => by omega⟩
  · rintro ⟨hsome, hnone⟩
    cases result with
    | none =>
      have := hnone rfl
      exact ⟨fun _ _ => by omega, fun _ => rfl⟩
    | some c =>
      have hc := c.toNat_lt
      have hvalue := hsome c rfl
      exact ⟨fun _ _ => ⟨c, rfl, by omega⟩, fun _ => by omega⟩

/-! ## Sums and differences -/

theorem checkedAdd_exact (a b : U256) : Exact (a.toNat + b.toNat) (a.checkedAdd b) := by
  have hcast : (a.toNat + b.toNat : Int) = ((a.toNat + b.toNat : Nat) : Int) := by omega
  rw [hcast, exact_iff_of_nonneg]
  exact ⟨fun c hc => (checkedAdd_eq_some_iff.mp hc).symm, checkedAdd_eq_none_iff.mp⟩

theorem checkedSub_exact (a b : U256) : Exact (a.toNat - b.toNat) (a.checkedSub b) := by
  have ha := a.toNat_lt
  constructor
  · intro hle _
    cases hsub : a.checkedSub b with
    | none =>
      have := checkedSub_eq_none_iff.mp hsub
      omega
    | some c =>
      have := checkedSub_eq_some_iff.mp hsub
      exact ⟨c, rfl, by omega⟩
  · intro hrange
    exact checkedSub_eq_none_iff.mpr (by omega)

/-! ## Products -/

/-- The `i`-th limb as a number. -/
def limb (a : U256) (i : Nat) : Nat := (a.limbs.toList.getD i 0).toNat

theorem limb_lt (a : U256) (i : Nat) : a.limb i < 2 ^ 64 := UInt64.toNat_lt _

theorem value_four : ∀ {xs : List UInt64}, xs.length = 4 →
    value xs = (xs.getD 0 0).toNat + 2 ^ 64 * (xs.getD 1 0).toNat + 2 ^ 128 * (xs.getD 2 0).toNat
      + 2 ^ 192 * (xs.getD 3 0).toNat
  | [x₀, x₁, x₂, x₃], _ => by
    show x₀.toNat + 2 ^ 64 * (x₁.toNat + 2 ^ 64 * (x₂.toNat + 2 ^ 64 * (x₃.toNat + 2 ^ 64 * 0)))
      = x₀.toNat + 2 ^ 64 * x₁.toNat + 2 ^ 128 * x₂.toNat + 2 ^ 192 * x₃.toNat
    omega

theorem toNat_eq_limbs (a : U256) :
    a.toNat = a.limb 0 + 2 ^ 64 * a.limb 1 + 2 ^ 128 * a.limb 2 + 2 ^ 192 * a.limb 3 :=
  value_four a.limbs.length_toList

theorem toNat_lowU64 (a : U256) : a.lowU64.toNat = a.toNat % 2 ^ 64 := by
  have hlow : a.lowU64.toNat = a.limb 0 := by
    rw [lowU64, limb, List.getD_eq_getElem _ _ (by rw [Vector.length_toList]; decide)]
    rfl
  have hlt := a.limb_lt 0
  rw [hlow, toNat_eq_limbs]
  omega

/-- The column of one place, before it is cut to 128 bits. -/
def exactColumn (a b : U256) (k : Nat) : Nat :=
  ((List.range (k + 1)).map fun i => a.limb i * b.limb (k - i)).sum

theorem exactColumn_zero (a b : U256) : exactColumn a b 0 = a.limb 0 * b.limb 0 := rfl

theorem exactColumn_one (a b : U256) :
    exactColumn a b 1 = a.limb 0 * b.limb 1 + a.limb 1 * b.limb 0 := rfl

theorem exactColumn_two (a b : U256) : exactColumn a b 2
    = a.limb 0 * b.limb 2 + (a.limb 1 * b.limb 1 + a.limb 2 * b.limb 0) := rfl

theorem exactColumn_three (a b : U256) : exactColumn a b 3 = a.limb 0 * b.limb 3
    + (a.limb 1 * b.limb 2 + (a.limb 2 * b.limb 1 + a.limb 3 * b.limb 0)) := rfl

/-- The columns make up the product, with what is out of place. -/
theorem mul_eq_columns (a b : U256) :
    a.toNat * b.toNat = exactColumn a b 0 + 2 ^ 64 * exactColumn a b 1
      + 2 ^ 128 * exactColumn a b 2 + 2 ^ 192 * exactColumn a b 3
      + 2 ^ 256 * (a.limb 1 * b.limb 3 + a.limb 2 * b.limb 2 + a.limb 3 * b.limb 1
        + 2 ^ 64 * (a.limb 2 * b.limb 3 + a.limb 3 * b.limb 2)
        + 2 ^ 128 * (a.limb 3 * b.limb 3)) := by
  rw [toNat_eq_limbs, toNat_eq_limbs, exactColumn_zero, exactColumn_one, exactColumn_two,
    exactColumn_three]
  ring

/-- No two limbs have a product that is out of place. -/
def InPlace (a b : U256) : Prop :=
  ∀ i j, i < 4 → j < 4 → 4 ≤ i + j → a.limb i = 0 ∨ b.limb j = 0

theorem limb_eq_zero_iff (i : Fin 4) : a.limb i = 0 ↔ a.limbs.get i = 0 := by
  have hget : a.limbs.toList.getD i 0 = a.limbs.get i := by
    rw [List.getD_eq_getElem?_getD,
      List.getElem?_eq_getElem (by rw [Vector.length_toList]; exact i.isLt)]
    rfl
  rw [limb, hget, ← UInt64.toNat_inj]
  rfl

theorem inPlace_iff : InPlace a b ↔
    ¬ ∃ i j : Fin 4, a.limbs.get i ≠ 0 ∧ 4 ≤ i.val + j.val ∧ b.limbs.get j ≠ 0 := by
  constructor
  · rintro h ⟨i, j, hi, hij, hj⟩
    rcases h i j i.isLt j.isLt hij with hzero | hzero
    · exact hi ((limb_eq_zero_iff i).mp hzero)
    · exact hj ((limb_eq_zero_iff j).mp hzero)
  · intro h i j hi hj hij
    by_contra hne
    rw [not_or] at hne
    exact h ⟨⟨i, hi⟩, ⟨j, hj⟩, (limb_eq_zero_iff ⟨i, hi⟩).not.mp hne.1, hij,
      (limb_eq_zero_iff ⟨j, hj⟩).not.mp hne.2⟩

theorem InPlace.mul_eq (h : InPlace a b) :
    a.toNat * b.toNat = exactColumn a b 0 + 2 ^ 64 * exactColumn a b 1
      + 2 ^ 128 * exactColumn a b 2 + 2 ^ 192 * exactColumn a b 3 := by
  have hzero : ∀ i j, i < 4 → j < 4 → 4 ≤ i + j → a.limb i * b.limb j = 0 :=
    fun i j hi hj hij => Nat.mul_eq_zero.mpr (h i j hi hj hij)
  rw [mul_eq_columns, hzero 1 3 (by decide) (by decide) (by decide),
    hzero 2 2 (by decide) (by decide) (by decide), hzero 3 1 (by decide) (by decide) (by decide),
    hzero 2 3 (by decide) (by decide) (by decide), hzero 3 2 (by decide) (by decide) (by decide),
    hzero 3 3 (by decide) (by decide) (by decide)]
  omega

/-- Out of place the product is out of range, by more than a column can hold. -/
theorem le_mul_of_not_inPlace (h : ¬ InPlace a b) :
    2 ^ 256 + 2 ^ 64 * exactColumn a b 1 + exactColumn a b 0 ≤ a.toNat * b.toNat := by
  have hmul := mul_eq_columns a b
  by_contra hlt
  refine h fun i j hi hj hij => Nat.mul_eq_zero.mp ?_
  interval_cases i <;> interval_cases j <;> omega

/-- What the last two columns have in common: the one product of the last is of the two
limbs that the column before it is made with. -/
theorem InPlace.exists_factors (h : InPlace a b) :
    ∃ u v x y, u < 2 ^ 64 ∧ v < 2 ^ 64 ∧ x < 2 ^ 64 ∧ y < 2 ^ 64 ∧
      exactColumn a b 3 = x * y ∧ exactColumn a b 2 = u * x + v * y := by
  have ha := a.limb_lt
  have hb := b.limb_lt
  rw [exactColumn_two, exactColumn_three]
  by_cases ha₃ : a.limb 3 = 0
  · by_cases ha₂ : a.limb 2 = 0
    · rcases h 1 3 (by decide) (by decide) (by decide) with ha₁ | hb₃
      · refine ⟨b.limb 2, 0, a.limb 0, b.limb 3, hb 2, by decide, ha 0, hb 3, ?_, ?_⟩
        · rw [ha₁, ha₂, ha₃]
          omega
        · rw [ha₁, ha₂, Nat.mul_comm]
          omega
      · refine ⟨b.limb 1, a.limb 0, a.limb 1, b.limb 2, hb 1, ha 0, ha 1, hb 2, ?_, ?_⟩
        · rw [ha₂, ha₃, hb₃]
          omega
        · rw [ha₂, Nat.mul_comm (b.limb 1)]
          omega
    · have hb₂ := (h 2 2 (by decide) (by decide) (by decide)).resolve_left ha₂
      have hb₃ := (h 2 3 (by decide) (by decide) (by decide)).resolve_left ha₂
      refine ⟨b.limb 0, a.limb 1, a.limb 2, b.limb 1, hb 0, ha 1, ha 2, hb 1, ?_, ?_⟩
      · rw [hb₂, hb₃, ha₃]
        omega
      · rw [hb₂, Nat.mul_comm (b.limb 0)]
        omega
  · have hb₁ := (h 3 1 (by decide) (by decide) (by decide)).resolve_left ha₃
    have hb₂ := (h 3 2 (by decide) (by decide) (by decide)).resolve_left ha₃
    have hb₃ := (h 3 3 (by decide) (by decide) (by decide)).resolve_left ha₃
    refine ⟨0, a.limb 2, a.limb 3, b.limb 0, by decide, ha 2, ha 3, hb 0, ?_, ?_⟩
    · rw [hb₁, hb₂, hb₃]
      omega
    · rw [hb₁, hb₂]
      omega

/-- Two products of limbs fit a column if the product of their other factors is a limb. -/
theorem pair_fits {u v x y : Nat} (hu : u < 2 ^ 64) (hv : v < 2 ^ 64) (hx : x < 2 ^ 64)
    (hy : y < 2 ^ 64) (h : x * y < 2 ^ 64) : u * x + v * y + 2 ^ 64 ≤ 2 ^ 128 := by
  have hux : u * x ≤ (2 ^ 64 - 1) * x := Nat.mul_le_mul_right x (by omega)
  have hvy : v * y ≤ (2 ^ 64 - 1) * y := Nat.mul_le_mul_right y (by omega)
  rcases Nat.eq_zero_or_pos x with rfl | hxpos
  · omega
  rcases Nat.eq_zero_or_pos y with rfl | hypos
  · omega
  -- two positive numbers add up to at most one more than their product
  have hsum : x + y ≤ x * y + 1 := by
    obtain ⟨x, rfl⟩ := Nat.exists_eq_succ_of_ne_zero hxpos.ne'
    obtain ⟨y, rfl⟩ := Nat.exists_eq_succ_of_ne_zero hypos.ne'
    rw [Nat.succ_mul, Nat.mul_succ]
    omega
  omega

/-- A column is too wide only where the product is out of range. -/
theorem InPlace.columns_fit (h : InPlace a b) :
    exactColumn a b 3 + 2 ^ 64 ≤ 2 ^ 128 ∧
      (exactColumn a b 3 < 2 ^ 64 → exactColumn a b 2 + 2 ^ 64 ≤ 2 ^ 128) := by
  obtain ⟨u, v, x, y, hu, hv, hx, hy, hlast, hbefore⟩ := h.exists_factors
  rw [hlast, hbefore]
  refine ⟨?_, pair_fits hu hv hx hy⟩
  have hxy : x * y ≤ (2 ^ 64 - 1) * y := Nat.mul_le_mul_right y (by omega)
  omega

/-! ## The loop over the columns -/

/-- One column: its limb, and the rest with what is carried. -/
theorem carryColumns_cons (column carry : Nat) (columns : List Nat) :
    value (carryColumns (column :: columns) carry).1
        = (column + carry) % 2 ^ 128 % 2 ^ 64
          + 2 ^ 64 * value (carryColumns columns ((column + carry) % 2 ^ 128 / 2 ^ 64)).1 ∧
      (carryColumns (column :: columns) carry).2
        = (carryColumns columns ((column + carry) % 2 ^ 128 / 2 ^ 64)).2 := by
  refine ⟨?_, rfl⟩
  show (UInt64.ofNat ((column + carry) % 2 ^ 128)).toNat + _ = _
  rw [UInt64.toNat_ofNat']

theorem length_carryColumns : ∀ (columns : List Nat) (carry : Nat),
    (carryColumns columns carry).1.length = columns.length
  | [], _ => rfl
  | column :: columns, carry =>
    congrArg Nat.succ (length_carryColumns columns ((column + carry) % 2 ^ 128 / 2 ^ 64))

/-- The columns of two words, and what is carried through them. -/
def carried (a b : U256) : List UInt64 × Nat := carryColumns ((List.range 4).map (column a b)) 0

/-- The column of the second limbs with the carry of the first, before it is cut to 128
bits. -/
def secondColumn (a b : U256) : Nat :=
  a.limb 0 * b.limb 1 + a.limb 1 * b.limb 0 + a.limb 0 * b.limb 0 / 2 ^ 64

/-- Too wide by one bit at most. -/
theorem secondColumn_lt (a b : U256) : secondColumn a b < 2 ^ 129 := by
  have hmul : ∀ i j, a.limb i * b.limb j + 2 ^ 64 ≤ 2 ^ 128 := by
    intro i j
    have hi := a.limb_lt i
    have hj := b.limb_lt j
    have hle : a.limb i * b.limb j ≤ (2 ^ 64 - 1) * b.limb j :=
      Nat.mul_le_mul_right _ (by omega)
    omega
  have h₀₁ := hmul 0 1
  have h₁₀ := hmul 1 0
  have h₀₀ := hmul 0 0
  unfold secondColumn
  omega

/-- The limbs and the last carry hold the product, less what the second column loses. -/
theorem InPlace.carried_value (h : InPlace a b) (hlast : exactColumn a b 3 < 2 ^ 64) :
    value (carried a b).1 + 2 ^ 256 * (carried a b).2 + 2 ^ 192 * (secondColumn a b / 2 ^ 128)
      = a.toNat * b.toNat := by
  have hfirst : exactColumn a b 0 < 2 ^ 128 := mul_toNat_lt _ _
  have hsecond : secondColumn a b = exactColumn a b 1 + exactColumn a b 0 / 2 ^ 64 := rfl
  have hthird := h.columns_fit.2 hlast
  rw [h.mul_eq, hsecond]
  have hcolumns : (List.range 4).map (column a b) = [exactColumn a b 0 % 2 ^ 128,
    exactColumn a b 1 % 2 ^ 128, exactColumn a b 2 % 2 ^ 128, exactColumn a b 3 % 2 ^ 128] := rfl
  rw [carried, hcolumns, (carryColumns_cons ..).1, (carryColumns_cons ..).2,
    (carryColumns_cons ..).1, (carryColumns_cons ..).2, (carryColumns_cons ..).1,
    (carryColumns_cons ..).2, (carryColumns_cons ..).1, (carryColumns_cons ..).2]
  show _ + 2 ^ 64 * (_ + 2 ^ 64 * (_ + 2 ^ 64 * (_ + 2 ^ 64 * 0))) + 2 ^ 256 * (_ / 2 ^ 64) + _ = _
  generalize exactColumn a b 0 = c₀ at *
  generalize exactColumn a b 1 = c₁ at *
  generalize exactColumn a b 2 = c₂ at *
  generalize exactColumn a b 3 = c₃ at *
  -- only the second of the four sums is cut
  have h₀ : (c₀ % 2 ^ 128 + 0) % 2 ^ 128 = c₀ := by omega
  rw [h₀]
  obtain ⟨s₁, hs₁⟩ : ∃ s₁, (c₁ % 2 ^ 128 + c₀ / 2 ^ 64) % 2 ^ 128 = s₁ := ⟨_, rfl⟩
  have h₁ : s₁ + 2 ^ 128 * ((c₁ + c₀ / 2 ^ 64) / 2 ^ 128) = c₁ + c₀ / 2 ^ 64 := by omega
  have hlt₁ : s₁ < 2 ^ 128 := by omega
  have h₂ : (c₂ % 2 ^ 128 + s₁ / 2 ^ 64) % 2 ^ 128 = c₂ + s₁ / 2 ^ 64 := by omega
  have h₃ : (c₃ % 2 ^ 128 + (c₂ + s₁ / 2 ^ 64) / 2 ^ 64) % 2 ^ 128
      = c₃ + (c₂ + s₁ / 2 ^ 64) / 2 ^ 64 := by omega
  rw [hs₁, h₂, h₃]
  clear hs₁ h₂ h₃ h₀
  omega

/-- A full last column is not missed. -/
theorem InPlace.carried_pos (h : InPlace a b) (hlast : 2 ^ 64 ≤ exactColumn a b 3) :
    0 < (carried a b).2 := by
  have hfits := h.columns_fit.1
  have hcolumns : (List.range 4).map (column a b) = [exactColumn a b 0 % 2 ^ 128,
    exactColumn a b 1 % 2 ^ 128, exactColumn a b 2 % 2 ^ 128, exactColumn a b 3 % 2 ^ 128] := rfl
  rw [carried, hcolumns, (carryColumns_cons ..).2, (carryColumns_cons ..).2,
    (carryColumns_cons ..).2, (carryColumns_cons ..).2]
  show 0 < (exactColumn a b 3 % 2 ^ 128 + _ % 2 ^ 128 / 2 ^ 64) % 2 ^ 128 / 2 ^ 64
  omega

/-- The second column is wider than a `u128`, and what is lost there is missed. -/
def Loses (a b : U256) : Prop :=
  2 ^ 128 ≤ a.secondColumn b ∧ a.toNat * b.toNat < 2 ^ 256 + 2 ^ 192

instance (a b : U256) : Decidable (a.Loses b) := inferInstanceAs (Decidable (_ ∧ _))

theorem checkedMul_of_not_inPlace (h : ¬ InPlace a b) : a.checkedMul b = none := by
  rw [inPlace_iff, not_not] at h
  exact if_pos h

theorem InPlace.checkedMul_eq_some_iff (h : InPlace a b) :
    a.checkedMul b = some c ↔ (carried a b).2 = 0 ∧ value (carried a b).1 = c.toNat := by
  have hlength : (carried a b).1.length = 4 := length_carryColumns _ _
  have hmul : a.checkedMul b
      = if 0 < (carried a b).2 then none else some (ofLoop (carried a b).1) := by
    exact if_neg (inPlace_iff.mp h)
  rw [hmul, ← toNat_ofLoop hlength]
  split
  · next hcarry => exact iff_of_false (fun hnone => by cases hnone) fun hzero => by omega
  · next hcarry =>
    rw [Option.some.injEq]
    constructor
    · rintro rfl
      exact ⟨by omega, rfl⟩
    · rintro ⟨_, hvalue⟩
      exact toNat_inj hvalue

/-- **What `checked_mul` returns.** Where the second column loses something that is
missed, a word too small by it. -/
theorem checkedMul_of_loses (h : a.Loses b) :
    ∃ c, a.checkedMul b = some c ∧ c.toNat + 2 ^ 192 = a.toNat * b.toNat := by
  obtain ⟨hwide, hsmall⟩ := h
  have hsecond : secondColumn a b = exactColumn a b 1 + exactColumn a b 0 / 2 ^ 64 := rfl
  have hplace : InPlace a b := by
    by_contra hplace
    have := le_mul_of_not_inPlace hplace
    omega
  have hmul := hplace.mul_eq
  have hlast : exactColumn a b 3 < 2 ^ 64 := by omega
  have hvalue := hplace.carried_value hlast
  have hfits := value_lt (carried a b).1
  have hlength : (carried a b).1.length = 4 := length_carryColumns _ _
  rw [hlength] at hfits
  have hwidth := secondColumn_lt a b
  refine ⟨ofLoop (carried a b).1, hplace.checkedMul_eq_some_iff.mpr ⟨?_, ?_⟩, ?_⟩
  · omega
  · rw [toNat_ofLoop hlength]
  · rw [toNat_ofLoop hlength]
    omega

/-- And elsewhere the product. -/
theorem checkedMul_eq_some_iff (h : ¬ a.Loses b) :
    a.checkedMul b = some c ↔ a.toNat * b.toNat = c.toNat := by
  have hc := c.toNat_lt
  have hsecond : secondColumn a b = exactColumn a b 1 + exactColumn a b 0 / 2 ^ 64 := rfl
  by_cases hplace : InPlace a b
  · rw [hplace.checkedMul_eq_some_iff]
    have hmul := hplace.mul_eq
    by_cases hlast : exactColumn a b 3 < 2 ^ 64
    · have hvalue := hplace.carried_value hlast
      have hfits := value_lt (carried a b).1
      have hlength : (carried a b).1.length = 4 := length_carryColumns _ _
      rw [hlength] at hfits
      have hwidth := secondColumn_lt a b
      unfold Loses at h
      omega
    · have hpos := hplace.carried_pos (by omega)
      omega
  · rw [checkedMul_of_not_inPlace hplace]
    have := le_mul_of_not_inPlace hplace
    exact iff_of_false nofun (by omega)

theorem checkedMul_exact_iff (a b : U256) :
    Exact (a.toNat * b.toNat) (a.checkedMul b) ↔ ¬ a.Loses b := by
  have hcast : (a.toNat * b.toNat : Int) = ((a.toNat * b.toNat : Nat) : Int) := by push_cast; rfl
  rw [hcast, exact_iff_of_nonneg]
  constructor
  · rintro ⟨hsome, _⟩ hloses
    obtain ⟨c, hc, hvalue⟩ := checkedMul_of_loses hloses
    have := hsome c hc
    omega
  · intro hloses
    refine ⟨fun c hc => ((checkedMul_eq_some_iff hloses).mp hc).symm, fun hnone => ?_⟩
    by_contra hlt
    obtain ⟨c, hc⟩ := exists_toNat (Nat.lt_of_not_le hlt)
    rw [(checkedMul_eq_some_iff hloses).mpr hc.symm] at hnone
    cases hnone

/-! ## Bytes -/

theorem beNat_toBeBytes_word (x : UInt64) : beNat (Word.toBeBytes x) = x.toNat := by
  rw [Word.toBeBytes, beNat_reverse, Wire.encU64, Wire.leNat_leBytes]
  exact Nat.mod_eq_of_lt x.toNat_lt

theorem toNat_fromBeBytes_word {bytes : List UInt8} (h : bytes.length = 8) :
    (Word.fromBeBytes bytes).toNat = beNat bytes := by
  have hlt := beNat_lt bytes
  rw [h] at hlt
  rw [Word.fromBeBytes, ← beNat_reverse, List.reverse_reverse]
  exact UInt64.toNat_ofNat_of_lt' hlt

theorem toBeBytes_fromBeBytes_word {bytes : List UInt8} (h : bytes.length = 8) :
    Word.toBeBytes (Word.fromBeBytes bytes) = bytes :=
  beNat_inj (by rw [length_toBeBytes, h]) (by rw [beNat_toBeBytes_word, toNat_fromBeBytes_word h])

theorem beNat_limbs : ∀ xs : List UInt64, beNat (xs.reverse.flatMap Word.toBeBytes) = value xs
  | [] => rfl
  | x :: xs => by
    have hword : beNat (List.flatMap Word.toBeBytes [x]) = x.toNat := by
      rw [List.flatMap_singleton, beNat_toBeBytes_word]
    rw [List.reverse_cons, List.flatMap_append, beNat_append, beNat_limbs xs, hword,
      List.flatMap_singleton, length_toBeBytes, value]
    omega

/-- The bytes of a word are its number, the highest first. -/
theorem beNat_toBeBytes (a : U256) : beNat a.toBeBytes.toList = a.toNat := by
  rw [toList_toBeBytes, beNat_limbs]
  rfl

theorem toBeBytes_fromBeBytes (bytes : B256) : (fromBeBytes bytes).toBeBytes = bytes := by
  have hlength : bytes.toList.length = 32 := bytes.length_toList
  have hpart : ∀ i, i ≤ 24 → Word.toBeBytes (Word.fromBeBytes ((bytes.toList.drop i).take 8))
      = (bytes.toList.drop i).take 8 := by
    intro i hi
    refine toBeBytes_fromBeBytes_word ?_
    rw [List.length_take, List.length_drop]
    omega
  have hchunks : (fromBeBytes bytes).limbs.toList.reverse.flatMap Word.toBeBytes
      = Word.toBeBytes (Word.fromBeBytes ((bytes.toList.drop 0).take 8))
        ++ (Word.toBeBytes (Word.fromBeBytes ((bytes.toList.drop 8).take 8))
        ++ (Word.toBeBytes (Word.fromBeBytes ((bytes.toList.drop 16).take 8))
        ++ (Word.toBeBytes (Word.fromBeBytes ((bytes.toList.drop 24).take 8)) ++ []))) := rfl
  -- four parts of eight bytes, one behind the other
  have hjoin : ∀ i, bytes.toList.drop i
      = (bytes.toList.drop i).take 8 ++ bytes.toList.drop (i + 8) := by
    intro i
    rw [← List.drop_drop, List.take_append_drop]
  have hend : bytes.toList.drop (24 + 8) = [] := List.drop_of_length_le hlength.le
  refine Vector.toList_inj.mp ?_
  rw [toList_toBeBytes, hchunks, hpart 0 (by decide), hpart 8 (by decide), hpart 16 (by decide),
    hpart 24 (by decide), ← hend, ← hjoin 24, ← hjoin 16, ← hjoin 8, ← hjoin 0, List.drop_zero]

/-- And a word is read off its bytes so. -/
theorem toNat_fromBeBytes (bytes : B256) : (fromBeBytes bytes).toNat = beNat bytes.toList := by
  rw [← beNat_toBeBytes, toBeBytes_fromBeBytes]

theorem fromBeBytes_toBeBytes (a : U256) : fromBeBytes a.toBeBytes = a :=
  toNat_inj (by rw [toNat_fromBeBytes, beNat_toBeBytes])

/-! ## All of it -/

/-- Sum, difference and product of two words, as numbers. -/
structure ExactOps (a b : U256) : Prop where
  add : Exact (a.toNat + b.toNat) (a.checkedAdd b)
  sub : Exact (a.toNat - b.toNat) (a.checkedSub b)
  mul : Exact (a.toNat * b.toNat) (a.checkedMul b)

/-- **Arithmetic of words.** The operations with overflow are exact for two words exactly
when their product loses nothing that is missed. The bytes of a word are its number in
big-endian order, and writing and reading them undo each other. -/
theorem exactOps_iff (a b : U256) (bytes : B256) :
    (ExactOps a b ↔ ¬ a.Loses b) ∧
      beNat a.toBeBytes.toList = a.toNat ∧ fromBeBytes a.toBeBytes = a ∧
      (fromBeBytes bytes).toBeBytes = bytes := by
  refine ⟨?_, beNat_toBeBytes a, fromBeBytes_toBeBytes a, toBeBytes_fromBeBytes bytes⟩
  rw [← checkedMul_exact_iff]
  exact ⟨fun h => h.mul, fun h => ⟨checkedAdd_exact a b, checkedSub_exact a b, h⟩⟩

/-- `2 ^ 128 - 1`. -/
def twoFullLimbs : U256 := ⟨#v[0xFFFFFFFFFFFFFFFF, 0xFFFFFFFFFFFFFFFF, 0, 0]⟩

/-- Its square is a word, and the one that is returned is smaller by `2 ^ 192`. -/
theorem square_loses :
    ∃ c, twoFullLimbs.checkedMul twoFullLimbs = some c ∧
      twoFullLimbs.toNat * twoFullLimbs.toNat = c.toNat + 2 ^ 192 ∧
      ¬ ExactOps twoFullLimbs twoFullLimbs := by
  have hloses : twoFullLimbs.Loses twoFullLimbs := by decide +kernel
  obtain ⟨c, hc, hvalue⟩ := checkedMul_of_loses hloses
  exact ⟨c, hc, hvalue.symm, fun h => (checkedMul_exact_iff _ _).mp h.mul hloses⟩

end Pyrax.Evm.U256
