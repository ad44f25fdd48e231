import Mathlib.Algebra.BigOperators.Group.Finset.Basic
import Mathlib.Algebra.Order.BigOperators.Group.Finset

/-!
# Weighted sets and quorums

Members with weights, and sets of them that weigh at least a quorum. When the quorum is more
than two thirds of what all members are counted as, any two such sets share more than a
third (`quorums_meet`). That needs the members to weigh no more than they are counted as;
when they weigh much more, two quorums can be disjoint (`exists_disjoint_quorums`).
-/

namespace Pyrax.Base.Weights

variable {ι : Type*} [DecidableEq ι] {w : ι → Nat} {members A B : Finset ι} {total quorum : Nat}

/-- Two sets of members weigh together what their union and their meet do. -/
theorem add_le_inter (hA : A ⊆ members) (hB : B ⊆ members) :
    ∑ a ∈ A, w a + ∑ b ∈ B, w b ≤ ∑ m ∈ members, w m + ∑ c ∈ A ∩ B, w c := by
  have hunion : ∑ c ∈ A ∪ B, w c ≤ ∑ m ∈ members, w m :=
    Finset.sum_le_sum_of_subset (Finset.union_subset hA hB)
  have hboth : ∑ c ∈ A ∪ B, w c + ∑ c ∈ A ∩ B, w c = ∑ a ∈ A, w a + ∑ b ∈ B, w b :=
    Finset.sum_union_inter
  omega

/-- Two quorums of more than two thirds have more than a third in common. -/
theorem quorums_meet (hweight : ∑ m ∈ members, w m ≤ total) (hquorum : 2 * total < 3 * quorum)
    (hA : A ⊆ members) (hB : B ⊆ members) (hqA : quorum ≤ ∑ a ∈ A, w a)
    (hqB : quorum ≤ ∑ b ∈ B, w b) : total < 3 * ∑ c ∈ A ∩ B, w c := by
  have h := add_le_inter (w := w) hA hB
  omega

/-- Where nobody makes a quorum alone, there is one of less than two. -/
theorem exists_light (hpos : 0 < quorum) (h : quorum ≤ ∑ m ∈ members, w m)
    (hsmall : ∀ m ∈ members, w m < quorum) :
    ∃ A ⊆ members, quorum ≤ ∑ a ∈ A, w a ∧ ∑ a ∈ A, w a < 2 * quorum := by
  induction members using Finset.induction_on with
  | empty =>
    rw [Finset.sum_empty] at h
    omega
  | insert m rest hm ih =>
    by_cases hrest : quorum ≤ ∑ a ∈ rest, w a
    · obtain ⟨A, hA, hq, hlt⟩ := ih hrest fun a ha => hsmall a (Finset.mem_insert_of_mem ha)
      exact ⟨A, hA.trans (Finset.subset_insert m rest), hq, hlt⟩
    · -- the member that completes the quorum weighs less than one
      have hlast := hsmall m (Finset.mem_insert_self m rest)
      refine ⟨insert m rest, Finset.Subset.refl _, h, ?_⟩
      rw [Finset.sum_insert hm]
      omega

/-- Where the members weigh more than a quorum above what one of them or two quorums can,
there are two quorums without a common member. -/
theorem exists_disjoint_quorums (w : ι → Nat) {quorum : Nat} (cap : Nat) (hpos : 0 < quorum)
    (hquorum : 2 * quorum ≤ cap) (hcap : ∀ m ∈ members, w m < cap)
    (hheavy : cap + quorum ≤ ∑ m ∈ members, w m) :
    ∃ A ⊆ members, ∃ B ⊆ members, quorum ≤ ∑ a ∈ A, w a ∧ quorum ≤ ∑ b ∈ B, w b ∧ A ∩ B = ∅ := by
  have hlight : ∃ A ⊆ members, quorum ≤ ∑ a ∈ A, w a ∧ ∑ a ∈ A, w a < cap := by
    by_cases halone : ∃ m ∈ members, quorum ≤ w m
    · obtain ⟨m, hm, hq⟩ := halone
      refine ⟨{m}, Finset.singleton_subset_iff.mpr hm, ?_, ?_⟩
      · rwa [Finset.sum_singleton]
      · rw [Finset.sum_singleton]
        exact hcap m hm
    · push Not at halone
      obtain ⟨A, hA, hq, hlt⟩ := exists_light hpos (by omega) halone
      exact ⟨A, hA, hq, by omega⟩
  obtain ⟨A, hA, hq, hlt⟩ := hlight
  refine ⟨A, hA, members \ A, Finset.sdiff_subset, hq, ?_, Finset.inter_sdiff_self A members⟩
  have hsplit := Finset.sum_sdiff (f := w) hA
  omega

end Pyrax.Base.Weights
