import Mathlib.Data.Nat.Count
import Mathlib.Data.Nat.Periodic

/-!
# Drawing tickets

Owners who stand in a row with so many tickets each. `draw` finds whose the ticket with a
number is, counted from nought through the row. Every number below the weight of the row is
somebody's (`draw_eq_none_iff`), and each owner has as many numbers as tickets
(`count_draw`), in every window as long as the row is heavy (`card_window`).
-/

namespace Pyrax.Base.Tickets

variable {α : Type*} {a : α} {w t : Nat} {row : List (α × Nat)}

def draw : List (α × Nat) → Nat → Option α
  | [], _ => none
  | (a, w) :: row, t => if t < w then some a else draw row (t - w)

/-- How many tickets there are. -/
def weight (row : List (α × Nat)) : Nat := (row.map Prod.snd).sum

theorem weight_cons (a : α) (w : Nat) (row : List (α × Nat)) :
    weight ((a, w) :: row) = w + weight row := rfl

theorem draw_eq_none_iff (row : List (α × Nat)) (t : Nat) : draw row t = none ↔ weight row ≤ t := by
  induction row generalizing t with
  | nil => simp [draw, weight]
  | cons entry row ih =>
    obtain ⟨a, w⟩ := entry
    rw [weight_cons]
    unfold draw
    split
    · simp only [reduceCtorEq, false_iff]
      omega
    · rw [ih]
      omega

theorem mem_of_draw (h : draw row t = some a) : a ∈ row.map Prod.fst := by
  induction row generalizing t with
  | nil => cases h
  | cons entry row ih =>
    obtain ⟨b, w⟩ := entry
    unfold draw at h
    split at h
    · cases h
      exact List.mem_cons_self ..
    · exact List.mem_cons_of_mem _ (ih h)

variable [DecidableEq α]

/-- The numbers of the first owner, and then those of the others. -/
theorem count_draw_cons (a b : α) (w : Nat) (row : List (α × Nat)) :
    (weight ((b, w) :: row)).count (fun t => draw ((b, w) :: row) t = some a)
      = (if b = a then w else 0) + (weight row).count fun t => draw row t = some a := by
  have hfirst : w.count (fun t => draw ((b, w) :: row) t = some a) = if b = a then w else 0 := by
    rw [Nat.count_eq_card_filter_range]
    split
    · next h =>
      rw [Finset.filter_true_of_mem, Finset.card_range]
      intro t ht
      rw [draw, if_pos (Finset.mem_range.mp ht), h]
    · next h =>
      rw [Finset.filter_false_of_mem, Finset.card_empty]
      intro t ht heq
      rw [draw, if_pos (Finset.mem_range.mp ht)] at heq
      exact h (Option.some.inj heq)
  have hrest : (fun t => draw ((b, w) :: row) (w + t) = some a) = fun t => draw row t = some a := by
    funext t
    rw [draw, if_neg (by omega), Nat.add_sub_cancel_left]
  rw [weight_cons, Nat.count_add, hfirst]
  simp only [hrest]

theorem count_draw_of_notMem (h : a ∉ row.map Prod.fst) (n : Nat) :
    n.count (fun t => draw row t = some a) = 0 := by
  rw [Nat.count_eq_card_filter_range, Finset.filter_false_of_mem, Finset.card_empty]
  exact fun t _ heq => h (mem_of_draw heq)

/-- An owner who stands in the row once has as many numbers as tickets. -/
theorem count_draw (hnodup : (row.map Prod.fst).Nodup) (h : (a, w) ∈ row) :
    (weight row).count (fun t => draw row t = some a) = w := by
  induction row with
  | nil => cases h
  | cons entry row ih =>
    obtain ⟨b, w'⟩ := entry
    obtain ⟨hnew, hrest⟩ := List.nodup_cons.mp hnodup
    rw [count_draw_cons]
    rcases List.mem_cons.mp h with heq | hmem
    · cases heq
      rw [if_pos rfl, count_draw_of_notMem hnew, Nat.add_zero]
    · have hne : b ≠ a := by
        rintro rfl
        exact hnew (List.mem_map.mpr ⟨_, hmem, rfl⟩)
      rw [if_neg hne, Nat.zero_add, ih hrest hmem]

/-- Numbers that go on past the end of the row start over: any window of its weight holds
each owner's tickets once. -/
theorem card_window (hnodup : (row.map Prod.fst).Nodup) (h : (a, w) ∈ row) (b : Nat) :
    ((Finset.Ico b (b + weight row)).filter fun n => draw row (n % weight row) = some a).card
      = w := by
  have hperiodic : Function.Periodic (fun n => draw row (n % weight row) = some a) (weight row) := by
    intro n
    show (draw row ((n + weight row) % weight row) = some a) = _
    rw [Nat.add_mod_right]
  rw [Nat.filter_Ico_card_eq_of_periodic _ _ _ hperiodic, Nat.count_eq_card_filter_range]
  have hbase := count_draw hnodup h
  rw [Nat.count_eq_card_filter_range] at hbase
  rw [← hbase]
  congr 1
  refine Finset.filter_congr fun n hn => ?_
  rw [Nat.mod_eq_of_lt (Finset.mem_range.mp hn)]

end Pyrax.Base.Tickets
