import Mathlib.Data.List.Basic

/-!
# Linear decoding

A sequence read from its first place: an item there takes so many places, its own and those of
its data, and the next item stands behind them. `starts` says of each place whether an item
starts there; the first place is one (`starts_zero`), and so is what stands behind an item
(`starts_next`).
-/

namespace Pyrax.Base.Decoding

variable {α : Type*} {size : α → Nat} {xs : List α} {skip i : Nat} {a : α}

/-- For each place, whether an item starts there; `skip` places of data come first. -/
def starts (size : α → Nat) : Nat → List α → List Bool
  | _, [] => []
  | 0, a :: xs => true :: starts size (size a - 1) xs
  | skip + 1, _ :: xs => false :: starts size skip xs

/-- An item starts behind the data. -/
theorem starts_skip (h : skip < xs.length) : (starts size skip xs)[skip]? = some true := by
  induction xs generalizing skip with
  | nil => exact absurd h (Nat.not_lt_zero _)
  | cons a xs ih =>
    cases skip with
    | zero => rfl
    | succ skip => exact ih (Nat.lt_of_succ_lt_succ h)

theorem starts_zero (h : 0 < xs.length) : (starts size 0 xs)[0]? = some true := starts_skip h

/-- Behind an item that starts at a place there starts another. -/
theorem starts_next (hsize : 1 ≤ size a) (hstart : (starts size skip xs)[i]? = some true)
    (hi : xs[i]? = some a) (hlt : i + size a < xs.length) :
    (starts size skip xs)[i + size a]? = some true := by
  induction xs generalizing skip i with
  | nil => exact absurd hlt (Nat.not_lt_zero _)
  | cons b xs ih =>
    rw [List.length_cons] at hlt
    cases i with
    | zero =>
      cases skip with
      | zero =>
        cases hi
        have hbehind : 0 + size a = (size a - 1) + 1 := by omega
        rw [hbehind]
        have hskip : size a - 1 < xs.length := by omega
        exact starts_skip hskip
      | succ skip => cases hstart
    | succ i =>
      have hplace : i + 1 + size a = (i + size a) + 1 := by omega
      rw [hplace]
      have hlt : i + size a < xs.length := by omega
      cases skip with
      | zero => exact ih hstart hi hlt
      | succ skip => exact ih hstart hi hlt

end Pyrax.Base.Decoding
