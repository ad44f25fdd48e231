import Mathlib.Data.Nat.Log
import Pyrax.Base.PerfectTree

/-!
# Where the sides of an inclusion proof lead

Read from the root down, the sides of a proof choose a child at every level. `place` is the
place they lead to, counted among the nodes that the level really has: the padding of an odd
level is the node it repeats. `Opens` is the view of somebody who only knows pairs and their
hashes: along the sides there are siblings that lead `x` up to `r`, with all combined pairs
in `known`.

Over pairs that do not collide the two agree as far as the tree reaches
(`Tower.opens_iff_row`). Longer sides end below a leaf, and only if that leaf is itself the
hash of a known pair (`Tower.opens_iff_below`). Nothing in `Opens` says where the leaves are:
an inner node opens the root as well as a leaf does.
-/

namespace Pyrax.Base.Merkle

variable {α : Type} {combine : α → α → α} {l : List α} {x y r : α} {known : α × α → Prop}
variable {sides : List Bool} {k : Nat}

/-- The place that `sides` lead to in a level of `n` nodes. -/
def place : Nat → List Bool → Nat
  | _, [] => 0
  | n, right :: sides => min (2 * place ((n + 1) / 2) sides + right.toNat) (n - 1)

/-- The rounds of the loop over `n` leaves. -/
def height (n : Nat) : Nat := Nat.clog 2 n

theorem Tower.height_eq (h : Tower combine k l r) : k = height l.length := by
  induction h with
  | leaf x => exact (Nat.clog_one_right 2).symm
  | @step k l r hlen htop ih =>
    have hup : (l.length + 2 - 1) / 2 = (l.length + 1) / 2 := by omega
    rw [height, Nat.clog_of_two_le (by omega) hlen, hup, ih, height, level_length]

/-- `x` is known to lead up to `r` along `sides`. -/
def Opens (combine : α → α → α) (known : α × α → Prop) (sides : List Bool) (x r : α) : Prop :=
  ∃ path : List (α × Bool), path.map Prod.snd = sides ∧
    (∀ e ∈ ascendPairs combine x path, known e) ∧ ascend combine x path = r

theorem opens_nil : Opens combine known [] x r ↔ x = r := by
  constructor
  · rintro ⟨path, hsides, -, hup⟩
    cases List.map_eq_nil_iff.mp hsides
    exact hup
  · rintro rfl
    exact ⟨[], rfl, by simp [ascendPairs], rfl⟩

/-- One level: the pair above `x` is known. -/
theorem opens_cons {right : Bool} : Opens combine known (right :: sides) x r ↔
    ∃ e, known e ∧ x = (if right then e.2 else e.1) ∧
      Opens combine known sides (combine e.1 e.2) r := by
  constructor
  · rintro ⟨path, hsides, hknown, hup⟩
    obtain ⟨⟨s, b⟩, path, rfl⟩ : ∃ e path', path = e :: path' := by
      cases path with
      | nil => cases hsides
      | cons e path => exact ⟨e, path, rfl⟩
    obtain ⟨rfl, hrest⟩ := List.cons.inj hsides
    have hhere := hknown _ (List.mem_cons_self ..)
    have hlater := fun e he => hknown e (List.mem_cons_of_mem _ he)
    cases b with
    | false => exact ⟨(x, s), hhere, rfl, path, hrest, hlater, hup⟩
    | true => exact ⟨(s, x), hhere, rfl, path, hrest, hlater, hup⟩
  · rintro ⟨⟨a, b⟩, hknown, rfl, path, hsides, hrest, hup⟩
    cases right with
    | false =>
      refine ⟨(b, false) :: path, by simp [hsides], ?_, hup⟩
      exact List.forall_mem_cons.mpr ⟨hknown, hrest⟩
    | true =>
      refine ⟨(a, true) :: path, by simp [hsides], ?_, hup⟩
      exact List.forall_mem_cons.mpr ⟨hknown, hrest⟩

theorem opens_append {lower upper : List Bool} : Opens combine known (lower ++ upper) x r ↔
    ∃ y, Opens combine known lower x y ∧ Opens combine known upper y r := by
  induction lower generalizing x with
  | nil => simp [opens_nil]
  | cons right lower ih =>
    rw [List.cons_append, opens_cons]
    constructor
    · rintro ⟨e, hknown, hx, hup⟩
      obtain ⟨y, hlower, hupper⟩ := ih.mp hup
      exact ⟨y, opens_cons.mpr ⟨e, hknown, hx, hlower⟩, hupper⟩
    · rintro ⟨y, hlower, hupper⟩
      obtain ⟨e, hknown, hx, hup⟩ := opens_cons.mp hlower
      exact ⟨e, hknown, hx, ih.mpr ⟨y, hup, hupper⟩⟩

/-- Known pairs that do not collide open a node in one way. -/
theorem Opens.unique (hinj : InjectiveOn combine known) (hx : Opens combine known sides x r)
    (hy : Opens combine known sides y r) : x = y := by
  obtain ⟨p, hp, hknownp, hupp⟩ := hx
  obtain ⟨q, hq, hknownq, hupq⟩ := hy
  refine ascend_inj (hp.trans hq.symm) (hinj.mono ?_) (hupp.trans hupq.symm)
  rintro e (he | he)
  · exact hknownp e he
  · exact hknownq e he

/-- The node at place `i` of the level above, as the pair of its children. A child outside the
level is the padding, which repeats the last node. -/
theorem level_child {i : Nat} (right : Bool) (h : (level combine l)[i]? = some y) :
    ∃ e ∈ pairs (padOdd l), y = combine e.1 e.2 ∧
      l[min (2 * i + right.toNat) (l.length - 1)]? = some (if right then e.2 else e.1) := by
  have hi : i < (l.length + 1) / 2 := by
    have hlength : (level combine l).length = (l.length + 1) / 2 := level_length l
    rw [← hlength]
    exact (List.getElem?_eq_some_iff.mp h).1
  rw [level, List.getElem?_map, Option.map_eq_some_iff] at h
  obtain ⟨e, he, rfl⟩ := h
  obtain ⟨hleft, hright⟩ := pairs_getElem? _ _ _ he
  refine ⟨e, List.mem_of_getElem? he, rfl, ?_⟩
  cases right with
  | false =>
    rw [Bool.toNat_false, Nat.add_zero, Nat.min_eq_left (by omega), ← padOdd_getElem? (by omega)]
    exact hleft
  | true =>
    rw [Bool.toNat_true]
    by_cases hin : 2 * i + 1 < l.length
    · rw [Nat.min_eq_left (by omega), ← padOdd_getElem? hin]
      exact hright
    · -- the second child is the padding
      obtain ⟨z, hz, hpad⟩ := padOdd_of_odd (l := l) (by omega)
      rw [hpad, List.getElem?_append_right (by omega), show 2 * i + 1 - l.length = 0 by omega]
        at hright
      rw [Nat.min_eq_right (by omega), hz]
      exact hright

/-- The tree's own pairs open the root down to every leaf. -/
theorem Tower.opens (htower : Tower combine k l r) (hown : ∀ e, Combines combine l e → known e) :
    ∀ {sides : List Bool}, sides.length = k →
      ∃ x, l[place l.length sides]? = some x ∧ Opens combine known sides x r := by
  induction htower with
  | leaf x =>
    intro sides hlen
    cases List.length_eq_zero_iff.mp hlen
    exact ⟨x, rfl, opens_nil.mpr rfl⟩
  | @step k l r hlong htop ih =>
    intro sides hlen
    obtain ⟨right, sides, rfl⟩ := List.exists_cons_of_length_eq_add_one hlen
    obtain ⟨y, hy, hopens⟩ := ih (fun e he => hown e (.up hlong he)) (Nat.succ.inj hlen)
    obtain ⟨e, he, rfl, hchild⟩ := level_child right hy
    rw [level_length] at hchild
    exact ⟨_, hchild, opens_cons.mpr ⟨e, hown e (.here hlong he), rfl, hopens⟩⟩

/-- The upper rows of a finished tree are one. -/
theorem Tower.row (htower : Tower combine k l r) : ∀ {i : Nat}, i ≤ k →
    Tower combine (k - i) ((level combine)^[i] l) r ∧
      ∀ e, Combines combine ((level combine)^[i] l) e → Combines combine l e := by
  induction htower with
  | leaf x =>
    intro i hi
    cases Nat.le_zero.mp hi
    exact ⟨.leaf x, fun _ he => he⟩
  | @step k l r hlong htop ih =>
    intro i hi
    cases i with
    | zero => exact ⟨.step hlong htop, fun _ he => he⟩
    | succ i =>
      obtain ⟨hrow, hown⟩ := ih (Nat.le_of_succ_le_succ hi)
      rw [Nat.succ_sub_succ, Function.iterate_succ_apply]
      exact ⟨hrow, fun e he => .up hlong (hown e he)⟩

/-- Above the bottom every node is the hash of a pair below it. -/
theorem Tower.combined_of_row (htower : Tower combine k l r) {i : Nat} (hi : i < k)
    (hx : x ∈ (level combine)^[i + 1] l) : ∃ e, Combines combine l e ∧ x = combine e.1 e.2 := by
  obtain ⟨hrow, hsub⟩ := htower.row (Nat.le_of_lt hi)
  rw [Function.iterate_succ_apply'] at hx
  obtain ⟨e, he, hxe⟩ := mem_level hx
  refine ⟨e, hsub e (.here ?_ he), hxe⟩
  obtain ⟨j, hj⟩ := Nat.exists_eq_add_of_lt hi
  rw [show k - i = j + 1 by omega] at hrow
  cases hrow with
  | step hlong _ => exact hlong

/-- So is whatever is opened through siblings. -/
theorem Opens.known_pair (h : Opens combine known sides x r) (hne : sides ≠ []) :
    ∃ e, known e ∧ r = combine e.1 e.2 := by
  induction sides generalizing x with
  | nil => exact absurd rfl hne
  | cons right sides ih =>
    obtain ⟨e, hknown, -, hup⟩ := opens_cons.mp h
    by_cases hlast : sides = []
    · rw [hlast, opens_nil] at hup
      exact ⟨e, hknown, hup.symm⟩
    · exact ih hup hlast

/-- **As far as the tree reaches**, what opens its root is the node that the sides lead to. -/
theorem Tower.opens_iff_row (htower : Tower combine k l r) (hinj : InjectiveOn combine known)
    (hown : ∀ e, Combines combine l e → known e) (hlen : sides.length ≤ k) :
    Opens combine known sides x r ↔
      ((level combine)^[k - sides.length] l)[place ((level combine)^[k - sides.length] l).length
        sides]? = some x := by
  obtain ⟨hrow, hsub⟩ := htower.row (Nat.sub_le k sides.length)
  rw [Nat.sub_sub_self hlen] at hrow
  obtain ⟨node, hnode, hopens⟩ := hrow.opens (fun e he => hown e (hsub e he))
    (show sides.length = sides.length from rfl)
  rw [hnode, Option.some.injEq]
  constructor
  · intro hx
    exact hopens.unique hinj hx
  · rintro rfl
    exact hopens

/-- **Below the leaves.** Longer sides open the root from below the leaf that the upper ones
lead to. -/
theorem Tower.opens_iff_below {lower upper : List Bool} (htower : Tower combine k l r)
    (hinj : InjectiveOn combine known) (hown : ∀ e, Combines combine l e → known e)
    (hlen : upper.length = k) :
    Opens combine known (lower ++ upper) x r ↔
      ∃ y, l[place l.length upper]? = some y ∧ Opens combine known lower x y := by
  have hleaf : ∀ y, Opens combine known upper y r ↔ l[place l.length upper]? = some y := by
    intro y
    rw [htower.opens_iff_row hinj hown (Nat.le_of_eq hlen), hlen, Nat.sub_self]
    rfl
  rw [opens_append]
  refine exists_congr fun y => ?_
  rw [hleaf, and_comm]

end Pyrax.Base.Merkle
