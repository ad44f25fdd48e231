import Pyrax.Base.PerfectTree

/-!
# Inclusion proofs of a padded tree

The siblings met on the way from one leaf to the root, in the tree whose odd levels
repeat their last node. `path` collects them beside the loop `climb`: level by level
the neighbour of the current place, with a flag that is set where the neighbour stands
on the left. Along them `ascend` reaches the root the loop ends on (`ascend_path`),
whatever `combine` is and whatever the number of leaves.
-/

namespace Pyrax.Base.Merkle

variable {α : Type} {combine : α → α → α} {l : List α} {i : Nat} {x : α}

/-- The other place of the pair that `i` belongs to. -/
def sibling (i : Nat) : Nat := if i % 2 = 0 then i + 1 else i - 1

/-- The siblings from place `i` of `l` up, each with whether it is on the left. A place
outside the level ends the walk. -/
def path (combine : α → α → α) : Nat → List α → Nat → List (α × Bool)
  | 0, _, _ => []
  | n + 1, l, i =>
    if 1 < l.length then
      match (padOdd l)[sibling i]? with
      | some s => (s, i % 2 == 1) :: path combine n (level combine l) (i / 2)
      | none => []
    else []

/-- The node above place `i` combines what stands there with its sibling. -/
theorem level_getElem? (combine : α → α → α) (hx : l[i]? = some x) :
    ∃ s, (padOdd l)[sibling i]? = some s ∧
      (level combine l)[i / 2]? = some (if i % 2 == 1 then combine s x else combine x s) := by
  have hi : i < l.length := (List.getElem?_eq_some_iff.mp hx).1
  have hlt : i / 2 < (pairs (padOdd l)).length := by
    rw [pairs_length, padOdd_length]
    omega
  have hp := List.getElem?_eq_getElem hlt
  generalize (pairs (padOdd l))[i / 2] = p at hp
  obtain ⟨hleft, hright⟩ := pairs_getElem? _ _ _ hp
  have hup : (level combine l)[i / 2]? = some (combine p.1 p.2) := by
    rw [level, List.getElem?_map, hp]
    rfl
  have hself : (padOdd l)[i]? = some x := by rw [padOdd_getElem? hi, hx]
  rcases Nat.mod_two_eq_zero_or_one i with heven | hodd
  · -- the left one of its pair
    have hi2 : 2 * (i / 2) = i := by omega
    rw [hi2] at hleft hright
    cases hself.symm.trans hleft
    refine ⟨p.2, ?_, ?_⟩
    · rw [sibling, if_pos heven, hright]
    · simp [hup, heven]
  · -- the right one
    have hi2 : 2 * (i / 2) + 1 = i := by omega
    have hi2' : 2 * (i / 2) = i - 1 := by omega
    rw [hi2] at hright
    rw [hi2'] at hleft
    cases hself.symm.trans hright
    refine ⟨p.1, ?_, ?_⟩
    · rw [sibling, if_neg (by omega), hleft]
    · simp [hup, hodd]

/-- **The way up.** The siblings of a leaf lead it to the root. -/
theorem ascend_path {r : α} : ∀ {n : Nat} {l : List α} {i : Nat} {x : α},
    climb combine n l = [r] → l[i]? = some x → ascend combine x (path combine n l i) = r := by
  -- one node alone is the root
  have hone : ∀ {l : List α} {i : Nat} {x : α}, l = [r] → l[i]? = some x → x = r := by
    rintro l i x rfl hx
    exact List.mem_singleton.mp (List.mem_of_getElem? hx)
  intro n
  induction n with
  | zero =>
    intro l i x hclimb hx
    exact hone hclimb hx
  | succ n ih =>
    intro l i x hclimb hx
    rw [climb] at hclimb
    rw [path]
    split at hclimb
    · next hlen =>
      obtain ⟨s, hs, hup⟩ := level_getElem? combine hx
      rw [if_pos hlen, hs]
      exact ih hclimb hup
    · next hlen =>
      rw [if_neg hlen]
      exact hone hclimb hx

end Pyrax.Base.Merkle
