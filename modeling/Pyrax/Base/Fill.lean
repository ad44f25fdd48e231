import Mathlib.Data.List.Basic

/-!
# Arrays written place by place

A list as an array whose indices are checked: writing a place (`setIndex`), exchanging two
(`swapIndex`) and filling a stretch in a loop (`fill`) give nothing where an index is out of
range. A loop within the array leaves what `fill_eq` says; an exchange may be looked at from
the other end of the array (`swapIndex_reverse`).
-/

namespace Pyrax.Base

variable {α : Type} {l : List α} {i j : Nat} {a : α}

/-- `xs[i] = a`. -/
def setIndex (l : List α) (i : Nat) (a : α) : Option (List α) :=
  if i < l.length then some (l.set i a) else none

/-- `xs.swap(i, j)`. -/
def swapIndex (l : List α) (i j : Nat) : Option (List α) := do
  let a ← l[i]?
  let b ← l[j]?
  return (l.set i b).set j a

/-- `for i in 0..n { if let Some(a) = f(i) { xs[offset + i] = a } }`, where `f` may index out
of range itself. -/
def fill (f : Nat → Option (Option α)) (l : List α) (offset n : Nat) : Option (List α) :=
  (List.range n).foldlM (fun l i => (f i).bind fun
    | some a => setIndex l (offset + i) a
    | none => some l) l

theorem setIndex_of_lt (h : i < l.length) (a : α) : setIndex l i a = some (l.set i a) := if_pos h

/-- A loop within the array does not panic, and this is what it leaves. -/
theorem fill_eq {f : Nat → Option (Option α)} {g : Nat → Option α} (l : List α) (offset n : Nat)
    (hf : ∀ i < n, f i = some (g i)) (h : offset + n ≤ l.length) :
    fill f l offset n = some (l.mapIdx fun j a =>
      if offset ≤ j ∧ j < offset + n then (g (j - offset)).getD a else a) := by
  induction n with
  | zero =>
    have hsame : (l.mapIdx fun j a =>
        if offset ≤ j ∧ j < offset + 0 then (g (j - offset)).getD a else a) = l := by
      refine List.ext_getElem (by simp) fun j h₁ h₂ => ?_
      rw [List.getElem_mapIdx, if_neg (by omega)]
    rw [hsame]
    rfl
  | succ n ih =>
    rw [fill, List.range_succ, List.foldlM_append]
    have ih := ih (fun i hi => hf i (by omega)) (by omega)
    rw [fill] at ih
    rw [ih]
    rw [Option.bind_eq_bind, Option.bind_some, List.foldlM_cons]
    simp only [List.foldlM_nil, bind_pure, hf n (Nat.lt_succ_self n), Option.bind_some]
    cases hn : g n with
    | none =>
      refine congrArg some (List.ext_getElem (by simp) fun j h₁ h₂ => ?_)
      rw [List.getElem_mapIdx, List.getElem_mapIdx]
      by_cases hj : j = offset + n
      · have hat : g (j - offset) = none := by rwa [hj, Nat.add_sub_cancel_left]
        rw [if_neg (by omega), if_pos (by omega), hat]
        rfl
      · have hiff : (offset ≤ j ∧ j < offset + n) ↔ (offset ≤ j ∧ j < offset + (n + 1)) := by omega
        simp only [hiff]
    | some a =>
      dsimp only
      rw [setIndex_of_lt (by rw [List.length_mapIdx]; omega)]
      refine congrArg some (List.ext_getElem (by simp) fun j h₁ h₂ => ?_)
      rw [List.getElem_set, List.getElem_mapIdx, List.getElem_mapIdx]
      by_cases hj : offset + n = j
      · have hat : g (j - offset) = some a := by rwa [← hj, Nat.add_sub_cancel_left]
        rw [if_pos hj, if_pos (by omega), hat]
        rfl
      · have hiff : (offset ≤ j ∧ j < offset + n) ↔ (offset ≤ j ∧ j < offset + (n + 1)) := by omega
        rw [if_neg hj]
        simp only [hiff]

/-- A loop that writes a stretch, where a write out of range is none. -/
theorem getElem?_foldl_set (g : Nat → α) (l : List α) (offset n k : Nat) :
    ((List.range n).foldl (fun l i => l.set (offset + i) (g i)) l)[k]?
      = if k < l.length ∧ offset ≤ k ∧ k < offset + n then some (g (k - offset)) else l[k]? := by
  induction n with
  | zero =>
    rw [if_neg (by omega)]
    rfl
  | succ n ih =>
    rw [List.range_succ, List.foldl_append, List.foldl_cons, List.foldl_nil, List.getElem?_set, ih]
    have hlength : ∀ n, ((List.range n).foldl (fun l i => l.set (offset + i) (g i)) l).length
        = l.length := by
      intro n
      induction n with
      | zero => rfl
      | succ n ih =>
        rw [List.range_succ, List.foldl_append, List.foldl_cons, List.foldl_nil, List.length_set, ih]
    rw [hlength]
    by_cases hk : offset + n = k
    · subst hk
      by_cases hlt : offset + n < l.length
      · rw [if_pos rfl, if_pos hlt, if_pos ⟨hlt, by omega, by omega⟩, Nat.add_sub_cancel_left]
      · rw [if_pos rfl, if_neg hlt, if_neg (by omega), List.getElem?_eq_none (by omega)]
    · have hiff : (k < l.length ∧ offset ≤ k ∧ k < offset + n)
          ↔ (k < l.length ∧ offset ≤ k ∧ k < offset + (n + 1)) := by omega
      rw [if_neg hk]
      simp only [hiff]

/-- The exchange of two places, seen from the other end. -/
theorem swapIndex_reverse (h : i < l.length) (hj : j < l.length) :
    swapIndex l.reverse (l.length - 1 - i) (l.length - 1 - j)
      = some ((l.set i l[j]).set j l[i]).reverse := by
  have hi' : l.reverse[l.length - 1 - i]? = some l[i] := by
    rw [List.getElem?_reverse (by omega), List.getElem?_eq_getElem (by omega)]
    congr 2
    omega
  have hj' : l.reverse[l.length - 1 - j]? = some l[j] := by
    rw [List.getElem?_reverse (by omega), List.getElem?_eq_getElem (by omega)]
    congr 2
    omega
  rw [swapIndex, hi', hj']
  refine congrArg some (List.ext_getElem (by simp) fun k h₁ h₂ => ?_)
  simp only [List.length_set, List.length_reverse] at h₁
  simp only [List.getElem_reverse, List.getElem_set, List.length_set]
  have hki : l.length - 1 - i = k ↔ i = l.length - 1 - k := by omega
  have hkj : l.length - 1 - j = k ↔ j = l.length - 1 - k := by omega
  simp only [hki, hkj]

end Pyrax.Base
