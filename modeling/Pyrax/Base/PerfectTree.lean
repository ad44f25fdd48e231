import Mathlib.Algebra.Order.Ring.Nat
import Mathlib.Logic.Function.Iterate
import Pyrax.Base.MerkleTree

/-!
# Hash trees over a power of two

Over `2 ^ k` leaves no level is odd and nothing is repeated: `k` rounds of
`level` lead to one node, and for a `combine` that does not collide the root
determines the row. It does not determine the height. What two trees with one
root have in common is `RowMatch`: the leaves of the lower one are a row of the
higher one (`root_eq_iff`).

Beside it stands the tree seen from one leaf: `ascend` combines a node with a
sibling on either side, level by level, and two ways up along the same sides to
one root start from the same leaf (`ascend_inj`). In the tree over one repeated
leaf every node of a level is the same, `uniform`, and so is every way up
(`ascend_uniform`).
-/

namespace Pyrax.Base.Merkle

variable {α : Type} {combine : α → α → α} {l m : List α} {x y : α}

/-! ## Rows -/

theorem level_of_even (h : l.length % 2 = 0) :
    level combine l = (pairs l).map fun p => combine p.1 p.2 := by
  rw [level, padOdd_of_even h]

theorem length_level_of_pow {k : Nat} (h : l.length = 2 ^ (k + 1)) :
    (level combine l).length = 2 ^ k := by
  rw [level_length, h, Nat.pow_succ]
  omega

theorem length_iterate_level : ∀ {i k : Nat} {l : List α}, l.length = 2 ^ (i + k) →
    ((level combine)^[i] l).length = 2 ^ k
  | 0, k, l, h => by
    rw [Nat.zero_add] at h
    exact h
  | i + 1, k, l, h => by
    rw [Function.iterate_succ_apply]
    refine length_iterate_level (length_level_of_pow ?_)
    rw [h]
    congr 1
    omega

/-- What a row combines, the tree below it combines. -/
theorem Combines.of_iterate {p : α × α} : ∀ {i k : Nat} {l : List α}, l.length = 2 ^ (i + k) →
    Combines combine ((level combine)^[i] l) p → Combines combine l p
  | 0, _, _, _, h => h
  | i + 1, k, l, hlen, h => by
    have hlen' : l.length = 2 ^ (i + k + 1) := by
      rw [hlen]
      congr 1
      omega
    rw [Function.iterate_succ_apply] at h
    refine Combines.up ?_ (Combines.of_iterate (length_level_of_pow hlen') h)
    rw [hlen', Nat.pow_succ]
    have hpos := Nat.two_pow_pos (i + k)
    omega

/-- Rows of one height under one root are equal. -/
theorem eq_of_root_eq : ∀ {k : Nat} {l m : List α}, l.length = 2 ^ k → m.length = 2 ^ k →
    InjectiveOn combine (fun p => Combines combine l p ∨ Combines combine m p) →
    (level combine)^[k] l = (level combine)^[k] m → l = m
  | 0, _, _, _, _, _, h => h
  | k + 1, l, m, hl, hm, hinj, h => by
    rw [Function.iterate_succ_apply, Function.iterate_succ_apply] at h
    have hpos := Nat.two_pow_pos k
    have hlong : 1 < l.length ∧ 1 < m.length := by
      rw [hl, hm, Nat.pow_succ]
      omega
    have heven : l.length % 2 = 0 ∧ m.length % 2 = 0 := by
      rw [hl, hm, Nat.pow_succ]
      omega
    -- equal rows above, then equal pairs in them
    have hup := eq_of_root_eq (length_level_of_pow hl) (length_level_of_pow hm)
      (hinj.mono fun p hp => hp.imp (Combines.up hlong.1) (Combines.up hlong.2)) h
    rw [level_of_even heven.1, level_of_even heven.2] at hup
    refine pairs_inj heven.1 heven.2 (map_combine_inj hinj ?_ ?_ hup)
    · intro p hp
      exact .inl (.here hlong.1 (by rwa [padOdd_of_even heven.1]))
    · intro p hp
      exact .inr (.here hlong.2 (by rwa [padOdd_of_even heven.2]))

/-- The lower row is a row of the higher tree. -/
def RowMatch (combine : α → α → α) (k₁ : Nat) (l : List α) (k₂ : Nat) (m : List α) : Prop :=
  (k₁ ≤ k₂ ∧ (level combine)^[k₂ - k₁] m = l) ∨ (k₂ ≤ k₁ ∧ (level combine)^[k₁ - k₂] l = m)

theorem rowMatch_self_iff {k : Nat} : RowMatch combine k l k m ↔ l = m := by
  rw [RowMatch, Nat.sub_self]
  constructor
  · rintro (⟨_, h⟩ | ⟨_, h⟩)
    · exact h.symm
    · exact h
  · intro h
    exact .inr ⟨Nat.le_refl k, h⟩

private theorem row_eq_of_root_eq {k d : Nat} {r : α} (hl : l.length = 2 ^ k)
    (hm : m.length = 2 ^ (d + k))
    (hinj : InjectiveOn combine fun p => Combines combine l p ∨ Combines combine m p)
    (hr : (level combine)^[k] l = [r]) (hr' : (level combine)^[d + k] m = [r]) :
    (level combine)^[d] m = l := by
  refine eq_of_root_eq (length_iterate_level hm) hl (hinj.mono fun p hp => ?_) ?_
  · exact hp.symm.imp_right (Combines.of_iterate hm)
  · rw [← Function.iterate_add_apply, Nat.add_comm k d, hr', hr]

/-- **One root.** Two trees have the same root exactly when the lower row is a row of
the higher tree. -/
theorem root_eq_iff {k₁ k₂ : Nat} {r₁ r₂ : α} (hl : l.length = 2 ^ k₁) (hm : m.length = 2 ^ k₂)
    (hinj : InjectiveOn combine fun p => Combines combine l p ∨ Combines combine m p)
    (hr₁ : (level combine)^[k₁] l = [r₁]) (hr₂ : (level combine)^[k₂] m = [r₂]) :
    r₁ = r₂ ↔ RowMatch combine k₁ l k₂ m := by
  constructor
  · rintro rfl
    rcases Nat.le_total k₁ k₂ with hle | hle
    · obtain ⟨d, rfl⟩ := Nat.exists_eq_add_of_le' hle
      refine .inl ⟨hle, ?_⟩
      rw [Nat.add_sub_cancel]
      exact row_eq_of_root_eq hl hm hinj hr₁ hr₂
    · obtain ⟨d, rfl⟩ := Nat.exists_eq_add_of_le' hle
      refine .inr ⟨hle, ?_⟩
      rw [Nat.add_sub_cancel]
      exact row_eq_of_root_eq hm hl (hinj.mono fun p hp => hp.symm) hr₂ hr₁
  · rintro (⟨hle, rfl⟩ | ⟨hle, rfl⟩)
    · rw [← Function.iterate_add_apply, Nat.add_sub_of_le hle, hr₂] at hr₁
      exact (List.cons.inj hr₁).1.symm
    · rw [← Function.iterate_add_apply, Nat.add_sub_of_le hle, hr₁] at hr₂
      exact (List.cons.inj hr₂).1

/-! ## One repeated leaf -/

/-- The node of height `k` over nothing but `x`. -/
def uniform (combine : α → α → α) (x : α) : Nat → α
  | 0 => x
  | k + 1 => combine (uniform combine x k) (uniform combine x k)

theorem pairs_replicate (x : α) : ∀ n, pairs (List.replicate (2 * n) x) = List.replicate n (x, x)
  | 0 => rfl
  | n + 1 => by
    rw [show 2 * (n + 1) = 2 * n + 1 + 1 by omega, List.replicate_succ, List.replicate_succ, pairs,
      pairs_replicate x n, List.replicate_succ]

theorem iterate_level_replicate (x : α) : ∀ k,
    (level combine)^[k] (List.replicate (2 ^ k) x) = [uniform combine x k] := by
  -- row by row, with the rows that are still to come
  have hrow : ∀ i k, (level combine)^[i] (List.replicate (2 ^ (i + k)) x)
      = List.replicate (2 ^ k) (uniform combine x i) := by
    intro i
    induction i with
    | zero =>
      intro k
      rw [Nat.zero_add]
      rfl
    | succ i ih =>
      intro k
      rw [Function.iterate_succ_apply', show i + 1 + k = i + (k + 1) by omega, ih (k + 1),
        show 2 ^ (k + 1) = 2 * 2 ^ k by rw [Nat.pow_succ, Nat.mul_comm],
        level_of_even (by rw [List.length_replicate]; omega), pairs_replicate, List.map_replicate]
      rfl
  intro k
  exact hrow k 0

/-! ## The way up from one leaf -/

/-- Combine with each sibling in turn, the sibling on the left where the flag is
set. -/
def ascend (combine : α → α → α) : α → List (α × Bool) → α
  | x, [] => x
  | x, (sibling, right) :: path =>
    ascend combine (if right then combine sibling x else combine x sibling) path

/-- The pairs combined on the way. -/
def ascendPairs (combine : α → α → α) : α → List (α × Bool) → List (α × α)
  | _, [] => []
  | x, (sibling, right) :: path =>
    (if right then (sibling, x) else (x, sibling)) ::
      ascendPairs combine (if right then combine sibling x else combine x sibling) path

/-- **One leaf.** Two ways to one node along the same sides start from one leaf. -/
theorem ascend_inj : ∀ {p q : List (α × Bool)} {x y : α}, p.map Prod.snd = q.map Prod.snd →
    InjectiveOn combine
      (fun e => e ∈ ascendPairs combine x p ∨ e ∈ ascendPairs combine y q) →
    ascend combine x p = ascend combine y q → x = y
  | [], [], _, _, _, _, h => h
  | [], _ :: _, _, _, hsides, _, _ => nomatch hsides
  | _ :: _, [], _, _, hsides, _, _ => nomatch hsides
  | (s, right) :: p, (s', right') :: q, x, y, hsides, hinj, h => by
    obtain ⟨hright, hsides'⟩ := List.cons.inj hsides
    cases hright
    -- the nodes one level up are equal, and come from one pair
    have hup := ascend_inj hsides'
      (hinj.mono fun e he => he.imp (List.mem_cons_of_mem _) (List.mem_cons_of_mem _)) h
    have hpair := hinj _ _ (.inl (List.mem_cons_self ..)) (.inr (List.mem_cons_self ..))
    cases right with
    | false => exact (Prod.mk.inj (hpair hup)).1
    | true => exact (Prod.mk.inj (hpair hup)).2

/-- The siblings over one repeated leaf, from height `k` on. -/
def uniformPath (combine : α → α → α) (x : α) (k : Nat) (sides : List Bool) : List (α × Bool) :=
  ((List.range' k sides.length).map (uniform combine x)).zip sides

theorem uniformPath_cons (x : α) (k : Nat) (side : Bool) (sides : List Bool) :
    uniformPath combine x k (side :: sides)
      = (uniform combine x k, side) :: uniformPath combine x (k + 1) sides := rfl

/-- Among equal nodes the sides do not matter. -/
theorem ascend_uniform (x : α) : ∀ (sides : List Bool) (k : Nat),
    ascend combine (uniform combine x k) (uniformPath combine x k sides)
      = uniform combine x (k + sides.length)
  | [], _ => rfl
  | side :: sides, k => by
    rw [uniformPath_cons, ascend, ite_self, List.length_cons,
      show k + (sides.length + 1) = k + 1 + sides.length by omega]
    exact ascend_uniform x sides (k + 1)

theorem ascendPairs_uniform (x : α) : ∀ (sides : List Bool) (k : Nat),
    ascendPairs combine (uniform combine x k) (uniformPath combine x k sides)
      = (List.range' k sides.length).map fun i => (uniform combine x i, uniform combine x i)
  | [], _ => rfl
  | side :: sides, k => by
    rw [uniformPath_cons, ascendPairs, ite_self, ite_self, List.length_cons, List.range'_succ,
      List.map_cons]
    exact congrArg _ (ascendPairs_uniform x sides (k + 1))

end Pyrax.Base.Merkle
