import Pyrax.Rollup.Withdrawal

/-!
# Proofs of the withdrawal tree

`L2Bridge::generate_merkle_proof` walks up the levels of the withdrawal tree and collects
the neighbour of its place, the zero hash where a level ends before it; the verifier of
`MerkleProof` folds back from the leaf. They meet at one root for all leaves, the last
level of the whole tree (`generateMerkleProof_verifies`).
-/

namespace Pyrax.Rollup

open Base

variable {C : Crypto} {b : L2Bridge} {h : H256}

/-- Enough steps leave one node. -/
theorem climbLevels_length : ∀ (fuel : Nat) (level : List H256), level ≠ [] →
    level.length ≤ fuel + 1 → (climbLevels C fuel level).length = 1
  | 0, level, hne, hfuel => by
    have hpos := List.length_pos_iff.mpr hne
    rw [climbLevels]
    omega
  | fuel + 1, level, hne, hfuel => by
    have hpos := List.length_pos_iff.mpr hne
    rw [climbLevels]
    split
    · next hlen =>
      have hnext := nextLevel_length (C := C) level
      refine climbLevels_length fuel _ (List.length_pos_iff.mp ?_) ?_
      · omega
      · omega
    · next hlen => omega

theorem climbLevels_eq_rootOf {level : List H256} (hne : level ≠ []) :
    climbLevels C level.length level = [rootOf C level] := by
  obtain ⟨root, hroot⟩ := List.length_eq_one_iff.mp
    (climbLevels_length (C := C) level.length level hne (Nat.le_succ _))
  rw [rootOf, hroot]
  rfl

/-- A side for every sibling. -/
theorem merklePath_length : ∀ (fuel idx : Nat) (level : List H256),
    (L2Bridge.merklePath C fuel idx level).1.length
      = (L2Bridge.merklePath C fuel idx level).2.1.length
  | 0, _, _ => rfl
  | fuel + 1, idx, level => by
    rw [L2Bridge.merklePath]
    split
    · exact congrArg Nat.succ (merklePath_length fuel (idx / 2) (nextLevel C level))
    · rfl

/-- The index that the search for a member stops at holds it. -/
theorem findIdx?_of_mem {l : List H256} (hmem : h ∈ l) :
    ∃ i, l.findIdx? (· == h) = some i ∧ l[i]? = some h := by
  cases hfind : l.findIdx? (· == h) with
  | none =>
    have hnot := List.findIdx?_eq_none_iff.mp hfind h hmem
    rw [beq_self_eq_true] at hnot
    cases hnot
  | some i =>
    obtain ⟨hi, heq, _⟩ := List.findIdx?_eq_some_iff_getElem.mp hfind
    refine ⟨i, rfl, ?_⟩
    rw [List.getElem?_eq_getElem hi, eq_of_beq heq]

/-- **Inclusion.** For every member of the withdrawal tree the bridge builds a proof that
verifies: of that leaf, with a side for every sibling, up to the one node that the levels
of the whole tree end in. -/
theorem generateMerkleProof_verifies (C : Crypto) (b : L2Bridge) (h : H256)
    (hmem : h ∈ b.withdrawalTree) :
    ∃ p, b.generateMerkleProof C h = .ok p ∧ p.verify C = true ∧ p.leaf = h ∧
      p.siblings.length = p.path.length ∧
      climbLevels C b.withdrawalTree.length b.withdrawalTree = [p.root] := by
  obtain ⟨i, hfind, hget⟩ := findIdx?_of_mem hmem
  have hi : i < b.withdrawalTree.length := (List.getElem?_eq_some_iff.mp hget).1
  have hleaf : b.withdrawalTree.getD i H256.zero = h := by
    rw [List.getD_eq_getElem?_getD, hget]
    rfl
  refine ⟨_, by rw [L2Bridge.generateMerkleProof, hfind], ?_, rfl, merklePath_length _ _ _, ?_⟩
  · have hclimb := climb_merklePath (C := C) _ i b.withdrawalTree hi (Nat.le_succ _)
    rw [hleaf] at hclimb
    rw [MerkleProof.verify, beq_iff_eq]
    dsimp only
    rw [hclimb, merklePath_root]
  · dsimp only
    rw [merklePath_root, climbLevels_eq_rootOf (List.ne_nil_of_mem hmem)]
    rfl

/-- Three withdrawals, the last of them alone on its level. -/
def threeLeaves : List H256 :=
  [⟨Vector.replicate 32 1⟩, ⟨Vector.replicate 32 2⟩, ⟨Vector.replicate 32 3⟩]

/-- BLAKE3 on their tree. -/
def threeCrypto : Crypto :=
  let left := H256.ofNatBE 0x8d67bc7836d128b108be2c965538f37bbcee3e7503e35e58fbb0446432e05206
  let right := H256.ofNatBE 0x85e02b970609651831f471b07467ef5e35c207a5e6ee7225d07050f8657beb54
  Crypto.ofTable
    [(List.replicate 32 1 ++ List.replicate 32 2, left),
     (List.replicate 32 3 ++ List.replicate 32 0, right),
     (left.asBytes ++ right.asBytes,
      H256.ofNatBE 0xc3319621252913c762916430e78a41692f6ef9c7a44fc9fb577394601f1f8aad)]

def threeBridge : L2Bridge :=
  { L2Bridge.new (L2State.new threeCrypto) with withdrawalTree := threeLeaves }

theorem generateMerkleProof_third :
    ∃ p, threeBridge.generateMerkleProof threeCrypto ⟨Vector.replicate 32 3⟩ = .ok p ∧
      p.verify threeCrypto = true ∧ p.leaf = ⟨Vector.replicate 32 3⟩ ∧
      p.siblings.length = p.path.length ∧
      climbLevels threeCrypto threeBridge.withdrawalTree.length threeBridge.withdrawalTree
        = [p.root] :=
  generateMerkleProof_verifies threeCrypto threeBridge ⟨Vector.replicate 32 3⟩ (by decide)

end Pyrax.Rollup
