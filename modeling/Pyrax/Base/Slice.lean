import Mathlib.Algebra.Order.Ring.Nat

/-!
# Slices with 64-bit bounds

`data[start..stop]` panics (`none`) where the bounds are out of order or out of range, and
so does a copy between slices of different lengths. Where the upper bound is a sum, it wraps:
`offset + len` may come out small, and then `offset` is behind it
(`slice_sum`).
-/

namespace Pyrax.Base

variable {α : Type} {data src : List α} {start stop offset : UInt64}

/-- `data[start..stop]`. -/
def slice (data : List α) (start stop : UInt64) : Option (List α) :=
  if start.toNat ≤ stop.toNat ∧ stop.toNat ≤ data.length then
    some ((data.drop start.toNat).take (stop.toNat - start.toNat))
  else none

/-- `data[start..stop].copy_from_slice(src)`. -/
def copyInto (data : List α) (start stop : UInt64) (src : List α) : Option (List α) :=
  if (start.toNat ≤ stop.toNat ∧ stop.toNat ≤ data.length) ∧ stop.toNat - start.toNat = src.length
  then some (data.take start.toNat ++ src ++ data.drop stop.toNat)
  else none

/-- A copy leaves the length as it was. -/
theorem length_of_copyInto {data' : List α} (h : copyInto data start stop src = some data') :
    data'.length = data.length := by
  unfold copyInto at h
  split at h
  · next hbounds =>
    cases h
    rw [List.length_append, List.length_append, List.length_take, List.length_drop]
    omega
  · cases h

/-- The sum of an offset and a length has wrapped around to within the data. -/
def WrapsInto (offset : UInt64) (len size : Nat) : Prop :=
  2 ^ 64 ≤ offset.toNat + len ∧ (offset.toNat + len) % 2 ^ 64 ≤ size

instance (offset : UInt64) (len size : Nat) : Decidable (WrapsInto offset len size) :=
  inferInstanceAs (Decidable (_ ∧ _))

theorem toNat_add_ofNat (offset : UInt64) (len : Nat) :
    (offset + UInt64.ofNat len).toNat = (offset.toNat + len) % 2 ^ 64 := by
  rw [UInt64.toNat_add, UInt64.toNat_ofNat', Nat.add_mod_mod]

/-- After a sum is found to be within the data, the slice up to it fails only if it wrapped. -/
theorem slice_sum (len : UInt64) (h : (offset + len).toNat ≤ data.length) :
    (slice data offset (offset + len) = none ↔ WrapsInto offset len.toNat data.length) ∧
      (¬ WrapsInto offset len.toNat data.length →
        slice data offset (offset + len) = some ((data.drop offset.toNat).take len.toNat)) := by
  have hoffset := offset.toNat_lt
  have hlen := len.toNat_lt
  rw [UInt64.toNat_add] at h
  unfold slice WrapsInto
  rw [UInt64.toNat_add]
  constructor
  · rw [ite_eq_right_iff]
    constructor
    · intro hnone
      by_contra hwraps
      have hsum : offset.toNat + len.toNat < 2 ^ 64 := by omega
      rw [Nat.mod_eq_of_lt hsum] at hnone h
      cases hnone ⟨by omega, by omega⟩
    · intro hwraps hbounds
      omega
  · intro hwraps
    have hsum : offset.toNat + len.toNat < 2 ^ 64 := by omega
    rw [Nat.mod_eq_of_lt hsum] at h
    rw [Nat.mod_eq_of_lt hsum, if_pos (by omega), Nat.add_sub_cancel_left]

theorem copyInto_sum_eq_none_iff (h : (offset + UInt64.ofNat src.length).toNat ≤ data.length) :
    copyInto data offset (offset + UInt64.ofNat src.length) src = none ↔
      WrapsInto offset src.length data.length := by
  have hoffset := offset.toNat_lt
  rw [toNat_add_ofNat] at h
  unfold copyInto WrapsInto
  rw [toNat_add_ofNat, ite_eq_right_iff]
  constructor
  · intro hnone
    by_contra hwraps
    have hsum : offset.toNat + src.length < 2 ^ 64 := by omega
    rw [Nat.mod_eq_of_lt hsum] at hnone h
    cases hnone ⟨⟨by omega, by omega⟩, by omega⟩
  · intro hwraps hbounds
    omega

/-- Without a look at the sum, a copy fails exactly where it does not fit. -/
theorem copyInto_eq_none_iff (hsize : data.length < 2 ^ 64) (hsrc : src.length < 2 ^ 64) :
    copyInto data offset (offset + UInt64.ofNat src.length) src = none ↔
      ¬ offset.toNat + src.length ≤ data.length := by
  have hoffset := offset.toNat_lt
  unfold copyInto
  rw [toNat_add_ofNat, ite_eq_right_iff]
  constructor
  · intro hnone hfits
    have hsum : offset.toNat + src.length < 2 ^ 64 := by omega
    rw [Nat.mod_eq_of_lt hsum] at hnone
    cases hnone ⟨⟨by omega, by omega⟩, by omega⟩
  · intro hfits hbounds
    omega

/-! ## Bounds that stay far below 64 bits -/

/-- `data[start..stop]`, where no sum can wrap. -/
def sliceNat (data : List α) (start stop : Nat) : Option (List α) :=
  if start ≤ stop ∧ stop ≤ data.length then some ((data.drop start).take (stop - start)) else none

/-- A slice is what stands between a front and a rest of the right lengths. -/
theorem sliceNat_eq_some_iff {start stop : Nat} {mid : List α} :
    sliceNat data start stop = some mid ↔
      ∃ front rest, data = front ++ mid ++ rest ∧ front.length = start ∧
        start + mid.length = stop := by
  unfold sliceNat
  constructor
  · intro h
    split at h
    · next hbounds =>
      cases h
      refine ⟨data.take start, data.drop stop, ?_, ?_, ?_⟩
      · have hrest : data.drop stop = (data.drop start).drop (stop - start) := by
          rw [List.drop_drop]
          congr 1
          omega
        rw [hrest, List.append_assoc, List.take_append_drop, List.take_append_drop]
      · rw [List.length_take]
        omega
      · rw [List.length_take, List.length_drop]
        omega
    · cases h
  · rintro ⟨front, rest, rfl, hfront, hstop⟩
    have hlen : (front ++ mid ++ rest).length = start + mid.length + rest.length := by
      rw [List.length_append, List.length_append, hfront]
    rw [if_pos (by omega), List.append_assoc, List.drop_left' hfront, ← hstop,
      Nat.add_sub_cancel_left, List.take_left' rfl]

theorem exists_sliceNat (data : List α) {start stop : Nat} (hstart : start ≤ stop)
    (hstop : stop ≤ data.length) :
    ∃ mid, sliceNat data start stop = some mid :=
  ⟨_, if_pos ⟨hstart, hstop⟩⟩

end Pyrax.Base
