import Mathlib.Data.Nat.Log
import Pyrax.Base.PerfectTree
import Pyrax.Base.Records
import Pyrax.Rollup.SparseTree

/-!
# What the state root commits to

The root of `SparseMerkleTree` in `zkrollup/state.rs` should be equal for two
histories exactly when the maps they end with are. `recompute_root` takes the
values in the order the hash map lists them, pads them with zeros and builds a
dense tree over that row; keys, and the number of levels, do not enter.

So the root commits to the row (`bottomRow`) and no more. `root_iff`: for two histories
the law holds exactly when equal maps are listed in the same order, or the maps
differ and neither row is found in the other tree.
-/

namespace Pyrax.Rollup

open Base

variable {C : Crypto} {P : Platform}

/-! ## The loop as rows -/

/-- On an even row nothing is padded. -/
theorem nextLevel_of_even : ∀ {row : List H256}, row.length % 2 = 0 →
    nextLevel C row = Merkle.level (hashPair C) row := by
  have hpairs : ∀ {row : List H256}, row.length % 2 = 0 →
      nextLevel C row = (Merkle.pairs row).map fun p => hashPair C p.1 p.2 := by
    intro row
    induction row using Merkle.pairs.induct with
    | case1 a b rest ih =>
      intro h
      rw [List.length_cons, List.length_cons] at h
      rw [nextLevel, Merkle.pairs, List.map_cons, ih (by omega)]
    | case2 row hrow =>
      intro h
      cases row with
      | nil => rfl
      | cons a row =>
        cases row with
        | nil => cases h
        | cons b rest => exact absurd rfl (hrow a b rest)
  intro row h
  rw [Merkle.level_of_even h, hpairs h]

/-- Over a power of two the loop makes as many rounds as the exponent says. -/
theorem climbLevels_of_pow : ∀ {k fuel : Nat} {row : List H256}, row.length = 2 ^ k → k ≤ fuel →
    climbLevels C fuel row = (Merkle.level (hashPair C))^[k] row
  | 0, fuel, row, hrow, _ => by
    cases fuel with
    | zero => rfl
    | succ fuel =>
      rw [climbLevels, if_neg (by rw [hrow]; decide)]
      rfl
  | k + 1, fuel + 1, row, hrow, hfuel => by
    have hpos := Nat.two_pow_pos k
    have hpow : row.length = 2 * 2 ^ k := by
      rw [hrow, Nat.pow_succ, Nat.mul_comm]
    rw [climbLevels, if_pos (by omega), nextLevel_of_even (by omega), Function.iterate_succ_apply]
    exact climbLevels_of_pow (Merkle.length_level_of_pow hrow) (by omega)

/-- Over a power of two the rows end with the root. -/
theorem iterate_level_rootOf {k : Nat} {row : List H256} (h : row.length = 2 ^ k) :
    (Merkle.level (hashPair C))^[k] row = [rootOf C row] := by
  have hlen : ((Merkle.level (hashPair C))^[k] row).length = 1 := Merkle.length_iterate_level (k := 0) h
  obtain ⟨r, hr⟩ := List.length_eq_one_iff.mp hlen
  rw [rootOf, climbLevels_of_pow h (by rw [h]; exact Nat.lt_two_pow_self.le), hr]
  rfl

/-- The root over nothing but zeros is the default hash of its height. -/
theorem rootOf_replicate (C : Crypto) (k : Nat) :
    rootOf C (List.replicate (2 ^ k) H256.zero) = Merkle.uniform (hashPair C) H256.zero k := by
  have hroot := iterate_level_rootOf (C := C) (k := k) (List.length_replicate (a := H256.zero))
  rw [Merkle.iterate_level_replicate] at hroot
  exact (List.cons.inj hroot).1.symm

/-! ## Trees that are reached -/

/-- `HashMap::values` lists every value once, in whatever order. -/
def Platform.ListsValues (P : Platform) : Prop :=
  ∀ m : Column H256 H256, (P.values m : Multiset H256) = Column.records id m

namespace SparseMerkleTree

/-- The height of the tree the root is computed from. -/
def height (P : Platform) (t : SparseMerkleTree) : Nat :=
  if (P.values t.leaves).isEmpty then t.depth else P.log2Ceil (P.values t.leaves).length

/-- The row it is computed from: all values, and zeros. -/
def bottomRow (P : Platform) (t : SparseMerkleTree) : List H256 :=
  P.values t.leaves ++
    List.replicate (2 ^ t.height P - (P.values t.leaves).length) H256.zero

theorem computeDefaultHashes_eq (C : Crypto) : ∀ depth, computeDefaultHashes C depth
    = (List.range (depth + 1)).map (Merkle.uniform (hashPair C) H256.zero)
  | 0 => rfl
  | depth + 1 => by
    have ih := computeDefaultHashes_eq C depth
    rw [computeDefaultHashes] at ih ⊢
    rw [List.range_succ, List.foldl_append, ih, List.range_succ (n := depth + 1), List.map_append]
    show _ ++ [hashPair C _ _] = _
    rw [List.range_succ, List.map_append]
    simp [Merkle.uniform]

theorem getD_computeDefaultHashes {i depth : Nat} (h : i ≤ depth) :
    (computeDefaultHashes C depth).getD i H256.zero
      = Merkle.uniform (hashPair C) H256.zero i := by
  rw [computeDefaultHashes_eq, List.getD_eq_getElem?_getD, List.getElem?_map,
    List.getElem?_range (by omega)]
  rfl

theorem values_eq_nil_iff (hvalues : P.ListsValues) {m : Column H256 H256} :
    P.values m = [] ↔ m = ∅ := by
  rw [← Multiset.coe_eq_zero, hvalues]
  constructor
  · intro h
    refine Finmap.ext_lookup fun key => ?_
    cases hlookup : m.lookup key with
    | none => rw [Finmap.lookup_empty]
    | some v =>
      have hrecord := Column.records_erase id hlookup
      rw [h] at hrecord
      exact absurd hrecord (Multiset.cons_ne_zero)
  · rintro rfl
    rfl

/-- The root is that of the row. -/
theorem recomputeRoot_root {t : SparseMerkleTree}
    (hdefault : t.defaultHashes = computeDefaultHashes C t.depth) :
    (t.recomputeRoot C P).root = rootOf C (t.bottomRow P) := by
  unfold recomputeRoot bottomRow height
  by_cases hempty : (P.values t.leaves).isEmpty = true
  · rw [if_pos hempty, if_pos hempty, List.isEmpty_iff.mp hempty, List.nil_append, List.length_nil,
      Nat.sub_zero, rootOf_replicate, hdefault, getD_computeDefaultHashes (Nat.le_refl _)]
  · rw [if_neg hempty, if_neg hempty]

theorem recomputeRoot_eq (C : Crypto) (P : Platform) (t : SparseMerkleTree) :
    t.recomputeRoot C P = { t with root := (t.recomputeRoot C P).root } := by
  unfold recomputeRoot
  simp only
  split
  · rfl
  · rfl

end SparseMerkleTree

namespace TreeOp

open SparseMerkleTree

/-- A change rewrites the leaves and the root. -/
theorem apply_eq (C : Crypto) (P : Platform) (t : SparseMerkleTree) (op : TreeOp) :
    ∃ leaves, op.apply C P t = ({ t with leaves := leaves } : SparseMerkleTree).recomputeRoot C P := by
  cases op with
  | update key value => exact ⟨_, rfl⟩
  | delete key => exact ⟨_, rfl⟩

/-- **Every tree that is reached** has its depth, its default hashes, and the root of
its row. -/
theorem run_spec (hvalues : P.ListsValues) (depth : Nat) (ops : List TreeOp) :
    let t := run C P depth ops
    t.depth = depth ∧ t.defaultHashes = computeDefaultHashes C depth ∧
      t.root = rootOf C (t.bottomRow P) := by
  induction ops using List.reverseRecOn with
  | nil =>
    refine ⟨rfl, rfl, ?_⟩
    have hnil : P.values (∅ : Column H256 H256) = [] := (values_eq_nil_iff hvalues).mpr rfl
    show (computeDefaultHashes C depth).getD depth H256.zero = rootOf C (bottomRow P (new C depth))
    rw [bottomRow, height, show (new C depth).leaves = ∅ from rfl, hnil, List.isEmpty_nil,
      if_pos rfl, List.nil_append, List.length_nil, Nat.sub_zero,
      show (new C depth).depth = depth from rfl, rootOf_replicate,
      getD_computeDefaultHashes (Nat.le_refl _)]
  | append_singleton ops op ih =>
    intro t
    obtain ⟨hdepth, hdefault, _⟩ := ih
    obtain ⟨leaves, hleaves⟩ := apply_eq C P (run C P depth ops) op
    have ht : t = ({ run C P depth ops with leaves := leaves } : SparseMerkleTree).recomputeRoot
        C P := by
      rw [← hleaves]
      exact List.foldl_concat ..
    have hroot := recomputeRoot_root (C := C) (P := P)
      (t := { run C P depth ops with leaves := leaves }) (by rw [hdefault, hdepth])
    rw [recomputeRoot_eq] at ht
    rw [ht]
    exact ⟨hdepth, hdefault, hroot⟩

/-! ## Two histories -/

variable {P₁ P₂ : Platform} {t t₁ t₂ : SparseMerkleTree}

/-- The padded row is as long as its height says. -/
theorem length_bottomRow
    (hlog : P.log2Ceil (P.values t.leaves).length = Nat.clog 2 (P.values t.leaves).length) :
    (t.bottomRow P).length = 2 ^ t.height P := by
  have hle : (P.values t.leaves).length ≤ 2 ^ t.height P := by
    unfold height
    split
    · next hempty =>
      rw [List.isEmpty_iff.mp hempty]
      exact Nat.zero_le _
    · rw [hlog]
      exact Nat.le_pow_clog (by decide) _
  rw [bottomRow, List.length_append, List.length_replicate, Nat.add_sub_of_le hle]

/-- The lower of the two rows is a row of the higher tree. -/
def SameRow (C : Crypto) (P₁ P₂ : Platform) (t₁ t₂ : SparseMerkleTree) : Prop :=
  Merkle.RowMatch (hashPair C) (t₁.height P₁) (t₁.bottomRow P₁) (t₂.height P₂) (t₂.bottomRow P₂)

/-- Over one map the rows match if the values are listed alike. -/
theorem sameRow_iff_of_leaves_eq (hvalues₁ : P₁.ListsValues) (hvalues₂ : P₂.ListsValues)
    (hlog₁ : P₁.log2Ceil (P₁.values t₁.leaves).length = Nat.clog 2 (P₁.values t₁.leaves).length)
    (hlog₂ : P₂.log2Ceil (P₂.values t₂.leaves).length = Nat.clog 2 (P₂.values t₂.leaves).length)
    (hdepth : t₁.depth = t₂.depth) (hleaves : t₁.leaves = t₂.leaves) :
    SameRow C P₁ P₂ t₁ t₂ ↔ P₁.values t₁.leaves = P₂.values t₂.leaves := by
  have hperm : (P₁.values t₁.leaves).Perm (P₂.values t₂.leaves) := by
    rw [← Multiset.coe_eq_coe, hvalues₁, hvalues₂, hleaves]
  have hlength := hperm.length_eq
  have hheight : t₁.height P₁ = t₂.height P₂ := by
    have hempty : (P₁.values t₁.leaves).isEmpty = (P₂.values t₂.leaves).isEmpty := by
      rw [Bool.eq_iff_iff, List.isEmpty_iff_length_eq_zero, List.isEmpty_iff_length_eq_zero, hlength]
    rw [height, height, hempty, hlog₁, hlog₂, hlength, hdepth]
  rw [SameRow, hheight, Merkle.rowMatch_self_iff, bottomRow, bottomRow, hheight, hlength]
  exact ⟨fun h => List.append_cancel_right h, fun h => by rw [h]⟩

/-- **Binding.** For two histories of trees of one depth, on maps that list their values
in any order: the roots are equal exactly when the maps are, if and only if equal
maps are listed alike or different maps have no row in common. -/
theorem root_iff (C : Crypto) (P₁ P₂ : Platform) (depth : Nat) (ops₁ ops₂ : List TreeOp)
    (hvalues₁ : P₁.ListsValues) (hvalues₂ : P₂.ListsValues)
    (hlog₁ : let n := (P₁.values (run C P₁ depth ops₁).leaves).length
      P₁.log2Ceil n = Nat.clog 2 n)
    (hlog₂ : let n := (P₂.values (run C P₂ depth ops₂).leaves).length
      P₂.log2Ceil n = Nat.clog 2 n)
    (hfree : Merkle.InjectiveOn (hashPair C) fun p =>
      Merkle.Combines (hashPair C) ((run C P₁ depth ops₁).bottomRow P₁) p ∨
        Merkle.Combines (hashPair C) ((run C P₂ depth ops₂).bottomRow P₂) p) :
    let t₁ := run C P₁ depth ops₁
    let t₂ := run C P₂ depth ops₂
    (t₁.root = t₂.root ↔ t₁.leaves = t₂.leaves) ↔
      (t₁.leaves = t₂.leaves ∧ P₁.values t₁.leaves = P₂.values t₂.leaves) ∨
        (t₁.leaves ≠ t₂.leaves ∧ ¬ SameRow C P₁ P₂ t₁ t₂) := by
  intro t₁ t₂
  obtain ⟨hdepth₁, _, hroot₁⟩ := run_spec hvalues₁ (C := C) depth ops₁
  obtain ⟨hdepth₂, _, hroot₂⟩ := run_spec hvalues₂ (C := C) depth ops₂
  have hroots : t₁.root = t₂.root ↔ SameRow C P₁ P₂ t₁ t₂ := by
    refine Merkle.root_eq_iff (length_bottomRow hlog₁) (length_bottomRow hlog₂) hfree ?_ ?_
    · rw [hroot₁]
      exact iterate_level_rootOf (length_bottomRow hlog₁)
    · rw [hroot₂]
      exact iterate_level_rootOf (length_bottomRow hlog₂)
  rw [hroots]
  by_cases hleaves : t₁.leaves = t₂.leaves
  · have hsame := sameRow_iff_of_leaves_eq (C := C) hvalues₁ hvalues₂ hlog₁ hlog₂
      (hdepth₁.trans hdepth₂.symm) hleaves
    constructor
    · intro h
      exact .inl ⟨hleaves, hsame.mp (h.mpr hleaves)⟩
    · rintro (⟨_, hlisted⟩ | ⟨hne, _⟩)
      · exact iff_of_true (hsame.mpr hlisted) hleaves
      · exact absurd hleaves hne
  · constructor
    · intro h
      exact .inr ⟨hleaves, fun hrow => hleaves (h.mp hrow)⟩
    · rintro (⟨heq, _⟩ | ⟨_, hrow⟩)
      · exact absurd heq hleaves
      · exact iff_of_false hrow hleaves

/-! ## A tree with one leaf -/

theorem exact_listsValues : Platform.exact.ListsValues := by
  intro m
  rw [Platform.exact, Multiset.coe_toList]
  rfl

theorem leaves_update_once (depth : Nat) (key value : H256) :
    (run C P depth [.update key value]).leaves = (∅ : Column H256 H256).insert key value := by
  show (SparseMerkleTree.recomputeRoot C P _).leaves = _
  rw [recomputeRoot_eq]
  rfl

theorem values_update_once (hvalues : P.ListsValues) (depth : Nat) (key value : H256) :
    P.values (run C P depth [.update key value]).leaves = [value] := by
  rw [leaves_update_once, ← Multiset.coe_eq_singleton, hvalues,
    Column.records_insert_of_notMem id value Finmap.notMem_empty]
  rfl

/-- Its row is the value, and so is its root. -/
theorem root_update_once (depth : Nat) (key value : H256) :
    (run C Platform.exact depth [.update key value]).bottomRow Platform.exact = [value] ∧
      (run C Platform.exact depth [.update key value]).root = value := by
  have hrow : (run C Platform.exact depth [.update key value]).bottomRow Platform.exact
      = [value] := by
    rw [bottomRow, height, values_update_once exact_listsValues]
    rfl
  refine ⟨hrow, ?_⟩
  rw [(run_spec exact_listsValues depth _).2.2, hrow]
  rfl

/-- The default hashes up to the eighth level. -/
def testDefaults : List H256 :=
  [H256.ofNatBE 0x0000000000000000000000000000000000000000000000000000000000000000,
   H256.ofNatBE 0x4d006976636a8696d909a630a4081aad4d7c50f81afdee04020bf05086ab6a55,
   H256.ofNatBE 0x498a8e7c02bc2c7afc598b097ad065836ea84e0edf2bf0895410968711d6b54e,
   H256.ofNatBE 0x06253c52ed8536e4b07757d679c547fdb2051181a9cbd1e3516bfc71742936f7,
   H256.ofNatBE 0x31b471b27b22b57b1ac82c9ed537231d53faf017fbe0c903c9668f47dc4151e1,
   H256.ofNatBE 0x622b6f650f3feac0798953f58ded296da9a2e298cb3566c8de2d27d9658e0b8c,
   H256.ofNatBE 0xdbc28eba6e19736e0c5ca790fd80fe9cea1856f6907925562b0b5e3b2d79382f,
   H256.ofNatBE 0x20068d2f4bc00c818254b5b049972be6b6ee5caa487b6211e4129d9fd4ea07c5,
   H256.ofNatBE 0xf6ffd15c6c47b3013bb64ca9d6fa63d3d9e4091281ddfb4391c4a021d44c6d95]

/-- BLAKE3 on the default pairs. -/
def testTreeCrypto : Crypto := Crypto.ofTable
  ((testDefaults.zip testDefaults.tail).map fun (hash, above) =>
    (hash.asBytes ++ hash.asBytes, above))

/-- `H256([i; 32])`. -/
def testKey (i : UInt8) : H256 := ⟨Vector.replicate 32 i⟩

/-- Rows of one node combine nothing. -/
theorem not_combines_single {a b : H256} (p : H256 × H256) :
    ¬ (Merkle.Combines (hashPair C) [a] p ∨ Merkle.Combines (hashPair C) [b] p) :=
  not_or.mpr ⟨Merkle.not_combines_of_length_le (Nat.le_refl 1),
    Merkle.not_combines_of_length_le (Nat.le_refl 1)⟩

/-- One key with two values: the maps differ, and so do the roots. -/
theorem root_iff_two_values :
    let t₁ := run testTreeCrypto Platform.exact 8 [.update (testKey 1) (testKey 2)]
    let t₂ := run testTreeCrypto Platform.exact 8 [.update (testKey 1) (testKey 3)]
    (t₁.root = t₂.root ↔ t₁.leaves = t₂.leaves) ∧ t₁.root ≠ t₂.root := by
  intro t₁ t₂
  obtain ⟨hrow₁, hroot₁⟩ := root_update_once (C := testTreeCrypto) 8 (testKey 1) (testKey 2)
  obtain ⟨hrow₂, hroot₂⟩ := root_update_once (C := testTreeCrypto) 8 (testKey 1) (testKey 3)
  have hvalue : testKey 2 ≠ testKey 3 := by decide
  have hvalues₁ : Platform.exact.values t₁.leaves = [testKey 2] :=
    values_update_once exact_listsValues 8 _ _
  have hvalues₂ : Platform.exact.values t₂.leaves = [testKey 3] :=
    values_update_once exact_listsValues 8 _ _
  refine ⟨(root_iff testTreeCrypto Platform.exact Platform.exact 8 _ _ exact_listsValues
    exact_listsValues ?_ ?_ ?_).mpr (.inr ⟨?_, ?_⟩), ?_⟩
  · show Platform.exact.log2Ceil (Platform.exact.values t₁.leaves).length = _
    rw [hvalues₁]
    decide
  · show Platform.exact.log2Ceil (Platform.exact.values t₂.leaves).length = _
    rw [hvalues₂]
    decide
  · intro p q hp
    rw [hrow₁, hrow₂] at hp
    exact absurd hp (not_combines_single p)
  · intro hleaves
    have hlisted := congrArg Platform.exact.values hleaves
    rw [hvalues₁, hvalues₂] at hlisted
    exact hvalue (List.cons.inj hlisted).1
  · intro hrows
    rw [SameRow, height, height, hvalues₁, hvalues₂] at hrows
    have heq := Merkle.rowMatch_self_iff.mp hrows
    rw [hrow₁, hrow₂] at heq
    exact hvalue (List.cons.inj heq).1
  · rw [hroot₁, hroot₂]
    exact hvalue

/-- One value under two keys: the maps differ, no pair is hashed, and the root is the
value. -/
theorem root_ignores_key :
    let t₁ := run testTreeCrypto Platform.exact 8 [.update (testKey 1) (testKey 2)]
    let t₂ := run testTreeCrypto Platform.exact 8 [.update (testKey 3) (testKey 2)]
    t₁.root = t₂.root ∧ t₁.leaves ≠ t₂.leaves ∧ testKey 2 ≠ H256.zero ∧
      ∀ p, ¬ (Merkle.Combines (hashPair testTreeCrypto) (t₁.bottomRow Platform.exact) p ∨
        Merkle.Combines (hashPair testTreeCrypto) (t₂.bottomRow Platform.exact) p) := by
  intro t₁ t₂
  obtain ⟨hrow₁, hroot₁⟩ := root_update_once (C := testTreeCrypto) 8 (testKey 1) (testKey 2)
  obtain ⟨hrow₂, hroot₂⟩ := root_update_once (C := testTreeCrypto) 8 (testKey 3) (testKey 2)
  refine ⟨hroot₁.trans hroot₂.symm, fun hleaves => ?_, by decide, fun p => ?_⟩
  · have hlookup := congrArg (Finmap.lookup (testKey 1)) hleaves
    rw [leaves_update_once, leaves_update_once, Finmap.lookup_insert,
      Finmap.lookup_insert_of_ne _ (by decide)] at hlookup
    cases hlookup
  · rw [hrow₁, hrow₂]
    exact not_combines_single p

end TreeOp

end Pyrax.Rollup
