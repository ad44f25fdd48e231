import Mathlib.Data.UInt
import Pyrax.Base.Wire

/-!
# Machine words that stop at their bounds

`u64` with `saturating_add` and `saturating_sub`, and the plain operations where
they are exact. Every lemma turns an operation into the one on natural numbers,
where sums of ledgers are taken.
-/

namespace Pyrax.Base.Word

/-- `u64::saturating_add`. -/
def saturatingAdd (a b : UInt64) : UInt64 :=
  if a.toNat + b.toNat < 2 ^ 64 then a + b else 0xFFFFFFFFFFFFFFFF

/-- `u64::saturating_sub`. -/
def saturatingSub (a b : UInt64) : UInt64 := if b ≤ a then a - b else 0

/-- `u32::saturating_sub`. -/
def saturatingSub32 (a b : UInt32) : UInt32 := if b ≤ a then a - b else 0

/-- `u64::to_be_bytes`. -/
def toBeBytes (x : UInt64) : List UInt8 := (Wire.encU64 x).reverse

/-- `u64::from_be_bytes`. -/
def fromBeBytes (bytes : List UInt8) : UInt64 := UInt64.ofNat (Wire.leNat bytes.reverse)

/-- `a as u128 * b as u128 / c as u128` cut back to `u64`. -/
def mulDiv (a b c : Nat) : UInt64 := UInt64.ofNat (a * b / c)

variable {a b : UInt64}

@[simp] theorem length_toBeBytes (x : UInt64) : (toBeBytes x).length = 8 := by
  rw [toBeBytes, List.length_reverse]
  rfl

theorem toBeBytes_inj {x y : UInt64} (h : toBeBytes x = toBeBytes y) : x = y :=
  Wire.encU64_inj (List.reverse_injective h)

theorem toNat_add_of_lt (h : a.toNat + b.toNat < 2 ^ 64) : (a + b).toNat = a.toNat + b.toNat := by
  rw [UInt64.toNat_add]
  exact Nat.mod_eq_of_lt h

theorem toNat_sub_of_le (h : b.toNat ≤ a.toNat) : (a - b).toNat = a.toNat - b.toNat :=
  UInt64.toNat_sub_of_le a b (UInt64.le_iff_toNat_le.mpr h)

theorem toNat_saturatingAdd_of_lt (h : a.toNat + b.toNat < 2 ^ 64) :
    (saturatingAdd a b).toNat = a.toNat + b.toNat := by
  rw [saturatingAdd, if_pos h, toNat_add_of_lt h]

theorem toNat_saturatingAdd (a b : UInt64) :
    (saturatingAdd a b).toNat = min (a.toNat + b.toNat) (2 ^ 64 - 1) := by
  by_cases h : a.toNat + b.toNat < 2 ^ 64
  · rw [toNat_saturatingAdd_of_lt h]
    omega
  · rw [saturatingAdd, if_neg h]
    show 2 ^ 64 - 1 = _
    omega

theorem toNat_min (a b : UInt64) : (min a b).toNat = min a.toNat b.toNat := by
  show UInt64.toNat (if a ≤ b then a else b) = _
  split
  · next h => exact (min_eq_left (UInt64.le_iff_toNat_le.mp h)).symm
  · next h =>
    rw [UInt64.le_iff_toNat_le] at h
    exact (min_eq_right (Nat.le_of_not_le h)).symm

theorem toNat_max (a b : UInt64) : (max a b).toNat = max a.toNat b.toNat := by
  show UInt64.toNat (if a ≤ b then b else a) = _
  split
  · next h => exact (max_eq_right (UInt64.le_iff_toNat_le.mp h)).symm
  · next h =>
    rw [UInt64.le_iff_toNat_le] at h
    exact (max_eq_left (Nat.le_of_not_le h)).symm

theorem toNat_saturatingSub (a b : UInt64) : (saturatingSub a b).toNat = a.toNat - b.toNat := by
  unfold saturatingSub
  split
  · next h => exact UInt64.toNat_sub_of_le a b h
  · next h =>
    rw [UInt64.le_iff_toNat_le] at h
    show 0 = _
    omega

theorem toNat_saturatingSub32 (a b : UInt32) : (saturatingSub32 a b).toNat = a.toNat - b.toNat := by
  rw [saturatingSub32]
  split
  · next h => exact UInt32.toNat_sub_of_le a b h
  · next h =>
    have hlt : a.toNat < b.toNat := UInt32.lt_iff_toNat_lt.mp (UInt32.not_le.mp h)
    exact (Nat.sub_eq_zero_of_le hlt.le).symm

end Pyrax.Base.Word
