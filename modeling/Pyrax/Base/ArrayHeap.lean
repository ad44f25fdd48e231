import Mathlib.Data.List.Sort

/-!
# Heaps as arrays

What a program sees of a binary heap when it walks the array: an entry is not above its
parent, which stands in front of it (`IsMaxHeap`), and pushing adds one entry and keeps this
(`ArrayHeap`). The array is not sorted, and only the first entry is known to be a greatest.
An array in descending order is a heap too (`ArrayHeap.descending`), so that nothing but the
order along the branches can be relied on.
-/

namespace Pyrax.Base

variable {α : Type} {le : α → α → Prop} {l : List α}

/-- No entry is above its parent. -/
def IsMaxHeap (le : α → α → Prop) (l : List α) : Prop :=
  ∀ i a b, 0 < i → l[(i - 1) / 2]? = some a → l[i]? = some b → le b a

theorem isMaxHeap_nil : IsMaxHeap le [] := by
  intro i a b _ ha
  simp at ha

/-- The first entry is a greatest. -/
theorem IsMaxHeap.head (hrefl : ∀ a, le a a) (htrans : ∀ a b c, le a b → le b c → le a c)
    (h : IsMaxHeap le l) {a b : α} (ha : l[0]? = some a) : ∀ {i : Nat}, l[i]? = some b → le b a := by
  intro i
  induction i using Nat.strongRecOn generalizing b with
  | ind i ih =>
    intro hb
    rcases Nat.eq_zero_or_pos i with rfl | hpos
    · rw [ha, Option.some.injEq] at hb
      rw [hb]
      exact hrefl b
    · have hlt := (List.getElem?_eq_some_iff.mp hb).1
      have hle : (i - 1) / 2 < l.length := by omega
      have hparent : l[(i - 1) / 2]? = some l[(i - 1) / 2] := List.getElem?_eq_getElem hle
      exact htrans _ _ _ (h i _ _ hpos hparent hb) (ih _ (by omega) hparent)

/-- What a push does to the array, and all that is known of it. -/
structure ArrayHeap (α : Type) (le : α → α → Prop) where
  push : List α → α → List α
  perm : ∀ l a, (push l a).Perm (a :: l)
  isMaxHeap : ∀ l a, IsMaxHeap le l → IsMaxHeap le (push l a)

/-- An array in descending order is a heap. -/
theorem isMaxHeap_of_pairwise (h : l.Pairwise fun a b => le b a) : IsMaxHeap le l := by
  intro i a b hpos ha hb
  obtain ⟨hparent, rfl⟩ := List.getElem?_eq_some_iff.mp ha
  obtain ⟨hi, rfl⟩ := List.getElem?_eq_some_iff.mp hb
  exact List.pairwise_iff_getElem.mp h _ _ hparent hi (by omega)

section Descending

variable (le) [DecidableRel le]

/-- The entries in descending order. -/
def sortDescending (l : List α) : List α := l.insertionSort fun a b => le b a

theorem pairwise_sortDescending (htotal : ∀ a b, le a b ∨ le b a)
    (htrans : ∀ a b c, le a b → le b c → le a c) (l : List α) :
    (sortDescending le l).Pairwise fun a b => le b a := by
  have hTotal : Std.Total fun a b => le b a := ⟨fun a b => htotal b a⟩
  have hTrans : IsTrans α fun a b => le b a := ⟨fun a b c hab hbc => htrans c b a hbc hab⟩
  exact List.pairwise_insertionSort _ l

/-- Keep the whole array in descending order. -/
def ArrayHeap.descending (htotal : ∀ a b, le a b ∨ le b a)
    (htrans : ∀ a b c, le a b → le b c → le a c) : ArrayHeap α le where
  push l a := sortDescending le (a :: l)
  perm l a := List.perm_insertionSort _ (a :: l)
  isMaxHeap l a _ := isMaxHeap_of_pairwise (pairwise_sortDescending le htotal htrans (a :: l))

end Descending

end Pyrax.Base
