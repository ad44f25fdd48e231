import Mathlib.Data.List.Sort
import Mathlib.Data.Multiset.Basic
import Mathlib.Order.Lattice

/-!
# Sorted listings

A listing of a multiset gives its members in the order of a key. Members with equal keys may
stand either way round, as a stable sort leaves them in the order they came in: there is one
listing only exactly when the key tells the members apart (`listing_unique_iff`).
-/

namespace Pyrax.Base

variable {α κ : Type} [LinearOrder κ] {key : α → κ} {S : Multiset α} {l l' : List α}

/-- The members of a multiset, sorted. -/
structure Listing (key : α → κ) (S : Multiset α) (l : List α) : Prop where
  coe : (l : Multiset α) = S
  sorted : l.Pairwise fun a b => key a ≤ key b

theorem listing_mergeSort (key : α → κ) (l : List α) :
    Listing key l (l.mergeSort fun a b => key a ≤ key b) where
  coe := Multiset.coe_eq_coe.mpr (List.mergeSort_perm _ _)
  sorted := by
    have htrans : ∀ a b c : α, decide (key a ≤ key b) = true → decide (key b ≤ key c) = true →
        decide (key a ≤ key c) = true := by
      intro a b c hab hbc
      exact decide_eq_true ((of_decide_eq_true hab).trans (of_decide_eq_true hbc))
    have htotal : ∀ a b : α, (decide (key a ≤ key b) || decide (key b ≤ key a)) = true := by
      intro a b
      simpa using le_total (key a) (key b)
    exact (List.pairwise_mergeSort htrans htotal l).imp of_decide_eq_true

theorem exists_listing (key : α → κ) (S : Multiset α) : ∃ l, Listing key S l := by
  induction S using Quotient.inductionOn with
  | h l => exact ⟨_, listing_mergeSort key l⟩

theorem Listing.mem (h : Listing key S l) {a : α} : a ∈ l ↔ a ∈ S := by
  rw [← h.coe, Multiset.mem_coe]

/-- Keys that tell the members apart leave one order. -/
theorem Listing.unique (hkey : ∀ a ∈ S, ∀ b ∈ S, key a = key b → a = b) (h : Listing key S l)
    (h' : Listing key S l') : l = l' := by
  refine List.Perm.eq_of_pairwise (fun a b ha hb hab hba => ?_) h.sorted h'.sorted
    (Multiset.coe_eq_coe.mp (h.coe.trans h'.coe.symm))
  exact hkey a (h.mem.mp ha) b (h'.mem.mp hb) (le_antisymm hab hba)

/-- Two members of a list that change places. -/
theorem perm_exchange (a b : α) (l₁ l₂ l₃ : List α) :
    (l₁ ++ a :: (l₂ ++ b :: l₃)).Perm (l₁ ++ b :: (l₂ ++ a :: l₃)) := by
  refine List.Perm.append_left l₁ ?_
  exact ((List.perm_middle.cons a).trans (List.Perm.swap b a _)).trans (List.perm_middle.symm.cons b)

/-- Members with one key can change places. -/
theorem Listing.exchange {a b : α} {l₁ l₂ l₃ : List α} (hkey : key a = key b)
    (h : Listing key S (l₁ ++ a :: (l₂ ++ b :: l₃))) :
    Listing key S (l₁ ++ b :: (l₂ ++ a :: l₃)) where
  coe := by
    rw [← h.coe]
    exact Multiset.coe_eq_coe.mpr (perm_exchange b a l₁ l₂ l₃)
  sorted := by
    have hsorted := List.pairwise_map.mpr h.sorted
    have hkeys : (l₁ ++ a :: (l₂ ++ b :: l₃)).map key = (l₁ ++ b :: (l₂ ++ a :: l₃)).map key := by
      simp only [List.map_append, List.map_cons, hkey]
    rw [hkeys] at hsorted
    exact List.pairwise_map.mp hsorted

theorem Listing.exists_ne (h : Listing key S l) {a b : α} (ha : a ∈ S) (hb : b ∈ S) (hne : a ≠ b)
    (hkey : key a = key b) : ∃ l', Listing key S l' ∧ l' ≠ l := by
  have hother : ∀ {a b : α} {l₁ l₂ l₃ : List α}, a ≠ b →
      l₁ ++ b :: (l₂ ++ a :: l₃) ≠ l₁ ++ a :: (l₂ ++ b :: l₃) := by
    intro a b l₁ l₂ l₃ hne heq
    exact hne (List.cons.inj (List.append_cancel_left heq)).1.symm
  obtain ⟨l₁, rest, rfl⟩ := List.append_of_mem (h.mem.mpr ha)
  rcases List.mem_append.mp (h.mem.mpr hb) with hbefore | hafter
  · obtain ⟨l₀, l₂, rfl⟩ := List.append_of_mem hbefore
    rw [List.append_assoc, List.cons_append] at h ⊢
    exact ⟨_, h.exchange hkey.symm, hother hne.symm⟩
  · obtain ⟨l₂, l₃, rfl⟩ := List.append_of_mem (List.mem_of_ne_of_mem hne.symm hafter)
    exact ⟨_, h.exchange hkey, hother hne⟩

/-- There is one listing exactly when the key tells the members apart. -/
theorem listing_unique_iff : (∀ l l', Listing key S l → Listing key S l' → l = l') ↔
    ∀ a ∈ S, ∀ b ∈ S, key a = key b → a = b := by
  constructor
  · intro hunique a ha b hb hkey
    by_contra hne
    obtain ⟨l, hl⟩ := exists_listing key S
    obtain ⟨l', hl', hother⟩ := hl.exists_ne ha hb hne hkey
    exact hother (hunique l' l hl' hl)
  · intro hkey l l' hl hl'
    exact hl.unique hkey hl'

end Pyrax.Base
