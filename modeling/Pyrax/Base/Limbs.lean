import Mathlib.Algebra.Order.Ring.Nat
import Mathlib.Data.UInt
import Pyrax.Base.Word

/-!
# Numbers in limbs

A number of any width as a list of 64-bit limbs, the lowest first. Addition and
subtraction walk two lists from the low end with a carry or a borrow, each limb
with `overflowing_add` or `overflowing_sub` twice. One equation per limb
(`addLimb_value`, `subLimb_value`) gives one per number, by induction over the
limbs; the last carry tells whether the number fits.
-/

namespace Pyrax.Base.Limbs

/-- The number the limbs stand for. -/
def value : List UInt64 → Nat
  | [] => 0
  | x :: xs => x.toNat + 2 ^ 64 * value xs

/-- `u64::overflowing_add`. -/
def overflowingAdd (a b : UInt64) : UInt64 × Bool := (a + b, 2 ^ 64 ≤ a.toNat + b.toNat)

/-- `u64::overflowing_sub`. -/
def overflowingSub (a b : UInt64) : UInt64 × Bool := (a - b, a < b)

/-- One limb of a sum, and the carry. -/
def addLimb (a b carry : UInt64) : UInt64 × UInt64 :=
  let (sum, c₁) := overflowingAdd a b
  let (sum, c₂) := overflowingAdd sum carry
  (sum, c₁.toUInt64 + c₂.toUInt64)

/-- One limb of a difference, and the borrow. -/
def subLimb (a b borrow : UInt64) : UInt64 × UInt64 :=
  let (diff, b₁) := overflowingSub a b
  let (diff, b₂) := overflowingSub diff borrow
  (diff, b₁.toUInt64 + b₂.toUInt64)

/-- The loop over the limbs of two numbers of one width. -/
def walk (f : UInt64 → UInt64 → UInt64 → UInt64 × UInt64) :
    List UInt64 → List UInt64 → UInt64 → List UInt64 × UInt64
  | a :: as, b :: bs, carry =>
    let (limb, carry) := f a b carry
    let (limbs, carry) := walk f as bs carry
    (limb :: limbs, carry)
  | _, _, carry => ([], carry)

/-! ## Values -/

theorem value_lt : ∀ xs : List UInt64, value xs < 2 ^ (64 * xs.length)
  | [] => Nat.one_pos
  | x :: xs => by
    have hrest := value_lt xs
    have hx := x.toNat_lt
    rw [value, List.length_cons, Nat.mul_succ, Nat.pow_add, Nat.mul_comm (2 ^ (64 * xs.length))]
    calc x.toNat + 2 ^ 64 * value xs
        < 2 ^ 64 + 2 ^ 64 * value xs := Nat.add_lt_add_right hx _
      _ = 2 ^ 64 * (value xs + 1) := by rw [Nat.mul_add, Nat.mul_one, Nat.add_comm]
      _ ≤ 2 ^ 64 * 2 ^ (64 * xs.length) := Nat.mul_le_mul_left _ hrest

/-- Limbs of one width are told apart by their value. -/
theorem value_inj : ∀ {xs ys : List UInt64}, xs.length = ys.length → value xs = value ys → xs = ys
  | [], [], _, _ => rfl
  | x :: xs, y :: ys, hlength, h => by
    have hx := x.toNat_lt
    have hy := y.toNat_lt
    rw [value, value] at h
    have hhead : x.toNat = y.toNat := by omega
    have htail : value xs = value ys := by omega
    rw [UInt64.toNat_inj.mp hhead, value_inj (Nat.succ_inj.mp hlength) htail]

@[simp] theorem value_replicate_zero : ∀ n, value (List.replicate n 0) = 0
  | 0 => rfl
  | n + 1 => by
    rw [List.replicate_succ, value, value_replicate_zero n]
    rfl

/-! ## Sums and differences -/

theorem toNat_overflowingAdd (a b : UInt64) :
    (overflowingAdd a b).1.toNat + 2 ^ 64 * (overflowingAdd a b).2.toUInt64.toNat
      = a.toNat + b.toNat := by
  have ha := a.toNat_lt
  have hb := b.toNat_lt
  unfold overflowingAdd
  by_cases h : 2 ^ 64 ≤ a.toNat + b.toNat
  · simp only [h, decide_true, UInt64.toNat_add, Bool.toUInt64]
    show (a.toNat + b.toNat) % 2 ^ 64 + 2 ^ 64 * 1 = _
    omega
  · simp only [h, decide_false, UInt64.toNat_add, Bool.toUInt64]
    show (a.toNat + b.toNat) % 2 ^ 64 + 2 ^ 64 * 0 = _
    omega

theorem toNat_overflowingSub (a b : UInt64) :
    a.toNat + 2 ^ 64 * (overflowingSub a b).2.toUInt64.toNat
      = (overflowingSub a b).1.toNat + b.toNat := by
  have ha := a.toNat_lt
  have hb := b.toNat_lt
  unfold overflowingSub
  by_cases h : a < b
  · simp only [h, decide_true, Bool.toUInt64]
    rw [UInt64.lt_iff_toNat_lt] at h
    show a.toNat + 2 ^ 64 * 1 = _
    rw [UInt64.toNat_sub]
    omega
  · simp only [h, decide_false, Bool.toUInt64]
    rw [UInt64.lt_iff_toNat_lt] at h
    show a.toNat + 2 ^ 64 * 0 = _
    rw [UInt64.toNat_sub]
    omega

theorem toNat_flag_le (b : Bool) : b.toUInt64.toNat ≤ 1 := by
  cases b
  · exact Nat.zero_le 1
  · exact Nat.le_refl 1

/-- A limb and its carry hold the sum, and the carry is a bit. -/
theorem addLimb_value (a b carry : UInt64) (hcarry : carry.toNat ≤ 1) :
    (addLimb a b carry).1.toNat + 2 ^ 64 * (addLimb a b carry).2.toNat
        = a.toNat + b.toNat + carry.toNat ∧
      (addLimb a b carry).2.toNat ≤ 1 := by
  have h₁ := toNat_overflowingAdd a b
  have h₂ := toNat_overflowingAdd (overflowingAdd a b).1 carry
  have hb₁ := toNat_flag_le (overflowingAdd a b).2
  have hb₂ := toNat_flag_le (overflowingAdd (overflowingAdd a b).1 carry).2
  have ha := a.toNat_lt
  have hb := b.toNat_lt
  have hlt : (overflowingAdd a b).2.toUInt64.toNat
      + (overflowingAdd (overflowingAdd a b).1 carry).2.toUInt64.toNat < 2 ^ 64 := by omega
  have hcarries : (addLimb a b carry).2.toNat = (overflowingAdd a b).2.toUInt64.toNat
      + (overflowingAdd (overflowingAdd a b).1 carry).2.toUInt64.toNat :=
    Word.toNat_add_of_lt hlt
  have hlimb : (addLimb a b carry).1 = (overflowingAdd (overflowingAdd a b).1 carry).1 := rfl
  rw [hlimb, hcarries]
  omega

theorem subLimb_value (a b borrow : UInt64) (hborrow : borrow.toNat ≤ 1) :
    a.toNat + 2 ^ 64 * (subLimb a b borrow).2.toNat
        = (subLimb a b borrow).1.toNat + b.toNat + borrow.toNat ∧
      (subLimb a b borrow).2.toNat ≤ 1 := by
  have h₁ := toNat_overflowingSub a b
  have h₂ := toNat_overflowingSub (overflowingSub a b).1 borrow
  have hb₁ := toNat_flag_le (overflowingSub a b).2
  have hb₂ := toNat_flag_le (overflowingSub (overflowingSub a b).1 borrow).2
  have ha := a.toNat_lt
  have hb := b.toNat_lt
  have hdiff := (overflowingSub (overflowingSub a b).1 borrow).1.toNat_lt
  have hlt : (overflowingSub a b).2.toUInt64.toNat
      + (overflowingSub (overflowingSub a b).1 borrow).2.toUInt64.toNat < 2 ^ 64 := by omega
  have hborrows : (subLimb a b borrow).2.toNat = (overflowingSub a b).2.toUInt64.toNat
      + (overflowingSub (overflowingSub a b).1 borrow).2.toUInt64.toNat :=
    Word.toNat_add_of_lt hlt
  have hlimb : (subLimb a b borrow).1 = (overflowingSub (overflowingSub a b).1 borrow).1 := rfl
  rw [hlimb, hborrows]
  omega

theorem length_walk (f : UInt64 → UInt64 → UInt64 → UInt64 × UInt64) :
    ∀ {as bs : List UInt64} (carry : UInt64), as.length = bs.length →
      (walk f as bs carry).1.length = as.length
  | [], [], _, _ => rfl
  | _ :: as, _ :: bs, _, h => by
    rw [walk, List.length_cons, List.length_cons, length_walk f _ (Nat.succ_inj.mp h)]

/-- The limbs and the last carry hold the sum. -/
theorem walk_addLimb : ∀ {as bs : List UInt64} (carry : UInt64), as.length = bs.length →
    carry.toNat ≤ 1 →
    value (walk addLimb as bs carry).1
        + 2 ^ (64 * as.length) * (walk addLimb as bs carry).2.toNat
      = value as + value bs + carry.toNat
  | [], [], carry, _, _ => by simp [walk, value]
  | a :: as, b :: bs, carry, hlength, hcarry => by
    obtain ⟨hlimb, hnext⟩ := addLimb_value a b carry hcarry
    have hrest := walk_addLimb (addLimb a b carry).2 (Nat.succ_inj.mp hlength) hnext
    rw [walk, value, value, value, List.length_cons, Nat.mul_succ, Nat.pow_add]
    generalize (walk addLimb as bs (addLimb a b carry).2).2.toNat = last at hrest ⊢
    generalize 2 ^ (64 * as.length) = width at hrest ⊢
    have hscaled : 2 ^ 64 * (value (walk addLimb as bs (addLimb a b carry).2).1 + width * last)
        = 2 ^ 64 * (value as + value bs + (addLimb a b carry).2.toNat) := by rw [hrest]
    rw [Nat.mul_add, ← Nat.mul_assoc, Nat.mul_comm (2 ^ 64) width] at hscaled
    omega

/-- The first number and the last borrow hold the difference and the second. -/
theorem walk_subLimb : ∀ {as bs : List UInt64} (borrow : UInt64), as.length = bs.length →
    borrow.toNat ≤ 1 →
    value as + 2 ^ (64 * as.length) * (walk subLimb as bs borrow).2.toNat
      = value (walk subLimb as bs borrow).1 + value bs + borrow.toNat
  | [], [], borrow, _, _ => by simp [walk, value]
  | a :: as, b :: bs, borrow, hlength, hborrow => by
    obtain ⟨hlimb, hnext⟩ := subLimb_value a b borrow hborrow
    have hrest := walk_subLimb (subLimb a b borrow).2 (Nat.succ_inj.mp hlength) hnext
    rw [walk, value, value, value, List.length_cons, Nat.mul_succ, Nat.pow_add]
    generalize (walk subLimb as bs (subLimb a b borrow).2).2.toNat = last at hrest ⊢
    generalize 2 ^ (64 * as.length) = width at hrest ⊢
    have hscaled : 2 ^ 64 * (value as + width * last)
        = 2 ^ 64 * (value (walk subLimb as bs (subLimb a b borrow).2).1 + value bs
          + (subLimb a b borrow).2.toNat) := by rw [hrest]
    rw [Nat.mul_add, ← Nat.mul_assoc, Nat.mul_comm (2 ^ 64) width] at hscaled
    omega

end Pyrax.Base.Limbs
