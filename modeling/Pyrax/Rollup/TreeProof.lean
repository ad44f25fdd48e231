import Pyrax.Rollup.TreeRoot

/-!
# Proofs of the state tree

A proof by `SparseMerkleTree::prove` should verify, for every key, and no other
leaf should have a proof along that key's path. The siblings `prove` gives are
the default hashes, as if nothing else were stored, and the root it puts beside
them is that of the dense tree over the values.

A proof that verifies leaves no room for another leaf, so soundness comes with
completeness. `proofs_iff`: all proofs verify in an empty tree, in one that stores
nothing but zeros and so many that its root is the default one, and in no other.
-/

namespace Pyrax.Rollup

open Base

variable {C : Crypto} {P : Platform}

/-- The way a proof goes up. -/
def MerkleProof.steps (p : MerkleProof) : List (H256 × Bool) := p.siblings.zip p.path

/-- The pairs that are hashed on it. -/
def MerkleProof.pairs (C : Crypto) (p : MerkleProof) : List (H256 × H256) :=
  Merkle.ascendPairs (hashPair C) p.leaf p.steps

/-- With a bit for every sibling the loop is the way up. -/
theorem MerkleProof.climb_eq_ascend : ∀ {siblings : List H256} {path : List Bool} {leaf : H256},
    siblings.length = path.length →
    climb C leaf siblings path = Merkle.ascend (hashPair C) leaf (siblings.zip path)
  | [], [], _, _ => rfl
  | sibling :: siblings, bit :: path, leaf, h => by
    rw [climb, List.zip_cons_cons, Merkle.ascend, List.headD_cons, List.tail_cons]
    exact climb_eq_ascend (Nat.succ.inj h)

theorem exists_mapM {α β : Type} {f : α → Option β} : ∀ {l : List α},
    (∀ x ∈ l, ∃ y, f x = some y) → ∃ ys, l.mapM f = some ys ∧ ys.length = l.length
  | [], _ => ⟨[], rfl, rfl⟩
  | x :: l, h => by
    obtain ⟨y, hy⟩ := h x (List.mem_cons_self ..)
    obtain ⟨ys, hys, hlength⟩ := exists_mapM fun x hx => h x (List.mem_cons_of_mem _ hx)
    refine ⟨y :: ys, ?_, congrArg Nat.succ hlength⟩
    rw [List.mapM_cons, hy, hys]
    rfl

namespace SparseMerkleTree

/-- What is stored under a key, zero if nothing is. -/
def leafAt (t : SparseMerkleTree) (key : H256) : H256 := (t.leaves.lookup key).getD H256.zero

/-- The key's own proof shows its leaf, under the tree's root. -/
def Complete (C : Crypto) (t : SparseMerkleTree) (key : H256) : Prop :=
  ∃ p, t.prove key = some p ∧ p.leaf = t.leafAt key ∧ p.root = t.root ∧ p.verify C = true

/-- Whatever verifies along the key's path shows that leaf, unless two of the pairs
hashed for it or for the key's own proof collide. -/
def Sound (C : Crypto) (t : SparseMerkleTree) (key : H256) : Prop :=
  ∀ p q : MerkleProof, t.prove key = some q → p.root = t.root → p.path = q.path →
    p.siblings.length = p.path.length → p.verify C = true →
    Merkle.InjectiveOn (hashPair C) (fun e => e ∈ p.pairs C ∨ e ∈ q.pairs C) →
    p.leaf = t.leafAt key

/-! ## The key's own proof -/

theorem keyToBits_spec (key : H256) {depth : Nat} (h : depth ≤ 256) :
    ∃ bits, keyToBits key depth = some bits ∧ bits.length = depth := by
  have hbyte : ∀ i ∈ List.range depth, ∃ bit, (key.asBytes[i / 8]?.map fun byte =>
      (byte >>> UInt8.ofNat (i % 8)) &&& 1 == 1) = some bit := by
    intro i hi
    have hlt : i / 8 < key.asBytes.length := by
      rw [H256.asBytes_length]
      have := List.mem_range.mp hi
      omega
    rw [List.getElem?_eq_getElem hlt]
    exact ⟨_, rfl⟩
  obtain ⟨bits, hbits, hlength⟩ := exists_mapM hbyte
  exact ⟨bits, hbits, hlength.trans List.length_range⟩

variable {t : SparseMerkleTree} {key : H256} {p q : MerkleProof}

/-- With the default hashes of its depth, a tree proves every key along default
siblings. -/
structure Formed (C : Crypto) (t : SparseMerkleTree) : Prop where
  depth_le : t.depth ≤ 256
  defaults : t.defaultHashes = computeDefaultHashes C t.depth

theorem Formed.prove_spec (h : Formed C t) (key : H256) :
    ∃ q, t.prove key = some q ∧ q.leaf = t.leafAt key ∧ q.root = t.root ∧
      q.path.length = t.depth ∧ q.siblings.length = q.path.length ∧
      q.steps = Merkle.uniformPath (hashPair C) H256.zero 0 q.path := by
  obtain ⟨bits, hbits, hlength⟩ := keyToBits_spec key h.depth_le
  refine ⟨_, by rw [prove, hbits]; rfl, rfl, rfl, hlength, ?_, ?_⟩
  · rw [List.length_map, List.length_range]
  · show ((List.range bits.length).map (t.getSiblingHash key)).zip bits = _
    rw [Merkle.uniformPath, ← List.range_eq_range']
    congr 1
    refine List.map_congr_left fun i hi => ?_
    rw [getSiblingHash, h.defaults]
    exact getD_computeDefaultHashes (hlength ▸ (List.mem_range.mp hi).le)

theorem verify_iff (h : p.siblings.length = p.path.length) :
    p.verify C = true ↔ Merkle.ascend (hashPair C) p.leaf p.steps = p.root := by
  rw [MerkleProof.verify, MerkleProof.climb_eq_ascend h, beq_iff_eq]
  rfl

theorem map_snd_steps (h : p.siblings.length = p.path.length) :
    p.steps.map Prod.snd = p.path :=
  List.map_snd_zip h.ge

/-- A proof that verifies leaves no room for another leaf. -/
theorem Formed.sound (h : Formed C t) (hcomplete : Complete C t key) : Sound C t key := by
  intro p q hq hroot hpath hlength hverify hinj
  obtain ⟨q', hq', hleaf, hroot', hverify'⟩ := hcomplete
  cases hq.symm.trans hq'
  obtain ⟨q', hq'', _, _, _, hlength', _⟩ := h.prove_spec key
  cases hq.symm.trans hq''
  rw [← hleaf]
  refine Merkle.ascend_inj ?_ hinj ?_
  · rw [map_snd_steps hlength, map_snd_steps hlength', hpath]
  · rw [(verify_iff hlength).mp hverify, (verify_iff hlength').mp hverify', hroot, hroot']

/-! ## Where all proofs verify -/

/-- Fewer keys than a `usize` counts are not all keys. -/
theorem exists_absent (h : t.leaves.keys.card < 2 ^ 64) : ∃ key, t.leaves.lookup key = none := by
  have hinj : Set.InjOn (fun n => H256.fromSlice (Wire.encU64 (UInt64.ofNat n)))
      (Finset.range (2 ^ 64) : Set Nat) := by
    intro a ha b hb heq
    rw [Finset.coe_range, Set.mem_Iio] at ha hb
    have hbytes : Wire.encU64 (UInt64.ofNat a) = Wire.encU64 (UInt64.ofNat b) := by
      refine List.ext_getElem (by rw [Wire.encU64_length, Wire.encU64_length]) fun i hi hi' => ?_
      have hlt : i < 32 := by
        rw [Wire.encU64_length] at hi
        omega
      have hbyte : (Wire.encU64 (UInt64.ofNat a))[i]?.getD 0
          = (Wire.encU64 (UInt64.ofNat b))[i]?.getD 0 := by
        simpa [H256.fromSlice, H256.asBytes, arrayFromSlice, hlt] using
          congrArg (fun k : H256 => k.asBytes.getD i 0) heq
      rw [List.getElem?_eq_getElem hi, List.getElem?_eq_getElem hi'] at hbyte
      exact hbyte
    have hword := congrArg UInt64.toNat (Wire.encU64_inj hbytes)
    rwa [UInt64.toNat_ofNat_of_lt' ha, UInt64.toNat_ofNat_of_lt' hb] at hword
  obtain ⟨key, _, hkey⟩ := Finset.exists_mem_notMem_of_card_lt_card
    (show t.leaves.keys.card < ((Finset.range (2 ^ 64)).image _).card by
      rw [Finset.card_image_of_injOn hinj, Finset.card_range]
      exact h)
  exact ⟨key, Finmap.lookup_eq_none.mpr fun hmem => hkey (Finmap.mem_keys.mpr hmem)⟩

/-- Over the default siblings zero leads to the default root. -/
theorem Formed.complete_of_zero (h : Formed C t) (hleaf : t.leafAt key = H256.zero)
    (hroot : t.root = Merkle.uniform (hashPair C) H256.zero t.depth) : Complete C t key := by
  obtain ⟨q, hq, hqleaf, hqroot, hpath, hlength, hsteps⟩ := h.prove_spec key
  refine ⟨q, hq, hqleaf, hqroot, (verify_iff hlength).mpr ?_⟩
  rw [hqleaf, hqroot, hleaf, hroot, hsteps, ← hpath, ← Nat.zero_add q.path.length]
  exact Merkle.ascend_uniform H256.zero q.path 0

/-- Where the proof of an absent key verifies, the root is the default one. -/
theorem Formed.root_of_absent (h : Formed C t) (hcomplete : Complete C t key)
    (habsent : t.leaves.lookup key = none) :
    t.root = Merkle.uniform (hashPair C) H256.zero t.depth := by
  obtain ⟨q, hq, hqleaf, hqroot, hpath, hlength, hsteps⟩ := h.prove_spec key
  obtain ⟨q', hq', _, _, hverify⟩ := hcomplete
  cases hq.symm.trans hq'
  rw [verify_iff hlength, hqleaf, leafAt, habsent, hsteps, hqroot] at hverify
  rw [← hverify, ← hpath, ← Nat.zero_add q.path.length]
  exact Merkle.ascend_uniform H256.zero q.path 0

/-- A proof that leads to the default root starts from zero. -/
theorem Formed.leaf_eq_zero (h : Formed C t)
    (hfree : Merkle.InjectiveOn (hashPair C) fun e => ∃ key q, t.prove key = some q ∧ e ∈ q.pairs C)
    (hall : ∀ key, Complete C t key) {absent : H256} (habsent : t.leaves.lookup absent = none)
    (key : H256) : t.leafAt key = H256.zero := by
  have hroot := h.root_of_absent (hall absent) habsent
  obtain ⟨q, hq, hqleaf, hqroot, hpath, hlength, hsteps⟩ := h.prove_spec key
  obtain ⟨q₀, hq₀, hq₀leaf, _, hpath₀, _, hsteps₀⟩ := h.prove_spec absent
  obtain ⟨q', hq', _, _, hverify⟩ := hall key
  cases hq.symm.trans hq'
  rw [verify_iff hlength, hqroot, hroot] at hverify
  -- the way up from zero hashes the same pairs along any path
  have hzero : Merkle.ascend (hashPair C) H256.zero q.steps
      = Merkle.uniform (hashPair C) H256.zero t.depth := by
    rw [hsteps, ← hpath, ← Nat.zero_add q.path.length]
    exact Merkle.ascend_uniform H256.zero q.path 0
  have hpairs : Merkle.ascendPairs (hashPair C) H256.zero q.steps = q₀.pairs C := by
    rw [MerkleProof.pairs, hq₀leaf, leafAt, habsent, hsteps, hsteps₀]
    show Merkle.ascendPairs _ (Merkle.uniform (hashPair C) H256.zero 0) _
      = Merkle.ascendPairs _ (Merkle.uniform (hashPair C) H256.zero 0) _
    rw [Merkle.ascendPairs_uniform, Merkle.ascendPairs_uniform, hpath, hpath₀]
  rw [← hqleaf]
  refine Merkle.ascend_inj rfl (hfree.mono fun e he => ?_) (hverify.trans hzero.symm)
  rw [hpairs] at he
  rcases he with he | he
  · exact ⟨key, q, hq, he⟩
  · exact ⟨absent, q₀, hq₀, he⟩

/-- Of nothing but zeros the row is made of zeros. -/
theorem bottomRow_of_zero (hvalues : P.ListsValues)
    (hzero : ∀ key v, t.leaves.lookup key = some v → v = H256.zero) :
    t.bottomRow P = List.replicate (t.bottomRow P).length H256.zero := by
  refine List.eq_replicate_iff.mpr ⟨rfl, fun v hv => ?_⟩
  rcases List.mem_append.mp hv with hv | hv
  · rw [← Multiset.mem_coe, hvalues] at hv
    obtain ⟨e, he, rfl⟩ := Multiset.mem_map.mp hv
    exact hzero e.1 e.2 (Finmap.lookup_eq_some_iff.mpr he)
  · exact (List.mem_replicate.mp hv).2

end SparseMerkleTree

namespace TreeOp

open SparseMerkleTree

/-- **Proofs.** In a tree that is reached with a depth of at most 256 and fewer keys than
a `usize` counts: all proofs are complete and sound exactly when nothing but zeros
is stored, and the dense tree over so many zeros has the default root of the
depth, as it has if nothing is stored. -/
theorem proofs_iff (C : Crypto) (P : Platform) (depth : Nat) (ops : List TreeOp)
    (hdepth : depth ≤ 256) (hvalues : P.ListsValues)
    (hsize : (run C P depth ops).leaves.keys.card < 2 ^ 64)
    (hfree : Merkle.InjectiveOn (hashPair C) fun e =>
      ∃ key q, (run C P depth ops).prove key = some q ∧ e ∈ q.pairs C) :
    let t := run C P depth ops
    (∀ key, Complete C t key ∧ Sound C t key) ↔
      (∀ key v, t.leaves.lookup key = some v → v = H256.zero) ∧
        rootOf C (List.replicate (t.bottomRow P).length H256.zero)
          = (computeDefaultHashes C depth).getD depth H256.zero := by
  intro t
  obtain ⟨htdepth, hdefaults, hroot⟩ := run_spec (C := C) hvalues depth ops
  have hformed : Formed C t := ⟨by rw [htdepth]; exact hdepth, by rw [htdepth]; exact hdefaults⟩
  rw [getD_computeDefaultHashes (Nat.le_refl depth)]
  constructor
  · intro hall
    obtain ⟨absent, habsent⟩ := exists_absent hsize
    have hleaf := hformed.leaf_eq_zero hfree (fun key => (hall key).1) habsent
    have hzero : ∀ key v, t.leaves.lookup key = some v → v = H256.zero := by
      intro key v hv
      have := hleaf key
      rwa [leafAt, hv] at this
    refine ⟨hzero, ?_⟩
    rw [← bottomRow_of_zero hvalues hzero, ← hroot]
    exact (hformed.root_of_absent (hall absent).1 habsent).trans (by rw [htdepth])
  · rintro ⟨hzero, hdefault⟩ key
    have hleaf : t.leafAt key = H256.zero := by
      rw [leafAt]
      cases hlookup : t.leaves.lookup key with
      | none => rfl
      | some v => exact hzero key v hlookup
    have hcomplete : Complete C t key := by
      refine hformed.complete_of_zero hleaf ?_
      rw [hroot, bottomRow_of_zero hvalues hzero, hdefault, htdepth]
    exact ⟨hcomplete, hformed.sound hcomplete⟩

/-! ## An empty tree and one with a leaf -/

/-- No two default pairs of eight levels collide. -/
theorem testDefaults_free : Merkle.InjectiveOn (hashPair testTreeCrypto) fun e =>
    e ∈ (List.range' 0 8).map fun i => (Merkle.uniform (hashPair testTreeCrypto) H256.zero i,
      Merkle.uniform (hashPair testTreeCrypto) H256.zero i) := by
  have hall : ∀ i ∈ List.range' 0 8, ∀ j ∈ List.range' 0 8,
      Merkle.uniform (hashPair testTreeCrypto) H256.zero (i + 1)
        = Merkle.uniform (hashPair testTreeCrypto) H256.zero (j + 1) → i = j := by
    decide +kernel
  intro e e' he he' h
  obtain ⟨i, hi, rfl⟩ := List.mem_map.mp he
  obtain ⟨j, hj, rfl⟩ := List.mem_map.mp he'
  rw [hall i hi j hj h]

/-- Stored and deleted again: all proofs verify. -/
theorem proofs_after_delete :
    let t := run testTreeCrypto Platform.exact 8
      [.update (testKey 1) (testKey 2), .delete (testKey 1)]
    t.leaves = ∅ ∧ ∀ key, Complete testTreeCrypto t key ∧ Sound testTreeCrypto t key := by
  intro t
  obtain ⟨hdepth, hdefaults, _⟩ := run_spec (C := testTreeCrypto) exact_listsValues 8
    [.update (testKey 1) (testKey 2), .delete (testKey 1)]
  have hformed : Formed testTreeCrypto t :=
    ⟨by rw [hdepth]; decide, by rw [hdepth]; exact hdefaults⟩
  have hleaves : t.leaves = ∅ := by
    show (SparseMerkleTree.recomputeRoot testTreeCrypto Platform.exact _).leaves = _
    rw [recomputeRoot_eq]
    show (run testTreeCrypto Platform.exact 8 [.update (testKey 1) (testKey 2)]).leaves.erase
      (testKey 1) = ∅
    rw [leaves_update_once]
    decide
  have hvalues : Platform.exact.values t.leaves = [] :=
    (values_eq_nil_iff exact_listsValues).mpr hleaves
  refine ⟨hleaves, (proofs_iff testTreeCrypto Platform.exact 8 _ (by decide) exact_listsValues
    ?_ ?_).mpr ⟨?_, ?_⟩⟩
  · show t.leaves.keys.card < 2 ^ 64
    rw [hleaves]
    decide
  · -- whatever the key, the pairs are the default ones
    refine testDefaults_free.mono fun e he => ?_
    obtain ⟨key, q, hq, he⟩ := he
    obtain ⟨q', hq', hleaf, _, hpath, _, hsteps⟩ := hformed.prove_spec key
    cases hq.symm.trans hq'
    rw [MerkleProof.pairs, hleaf, hsteps, leafAt, hleaves] at he
    change e ∈ Merkle.ascendPairs _ (Merkle.uniform (hashPair testTreeCrypto) H256.zero 0) _ at he
    rw [Merkle.ascendPairs_uniform, hpath, hdepth] at he
    exact he
  · intro key v hv
    change t.leaves.lookup key = some v at hv
    rw [hleaves] at hv
    cases hv
  · show rootOf _ (List.replicate (t.bottomRow Platform.exact).length H256.zero) = _
    rw [bottomRow, height, hvalues, List.isEmpty_nil, if_pos rfl, List.nil_append,
      List.length_replicate, List.length_nil, Nat.sub_zero, hdepth, rootOf_replicate,
      getD_computeDefaultHashes (Nat.le_refl 8)]

/-- The nodes from the leaf of `test_merkle_proof` up, over the default siblings. -/
def testClimb : List H256 :=
  [testKey 2,
   H256.ofNatBE 0x013b0b0c256da302a328402d588676b5bfe2aa023bb34604cb5dc7f41300dd77,
   H256.ofNatBE 0x34bbd50e4b39c6c3985c970b6da5c67925ae5c444aaff638a93c5e639c876ac1,
   H256.ofNatBE 0xdb88bab2f27b8a69990ce02ad0e89b2563db650aa61a749d22119f13eb84bf72,
   H256.ofNatBE 0x361f040a38baac245ea1afabcba9bdd2b2728c8400732afc44f6bb1fcc1d860d,
   H256.ofNatBE 0x8c00bb7b351fbac32cba79dde0a738103840225be8d164a19fe68706e6b8d88a,
   H256.ofNatBE 0xb95c4823eed6153461aa928ece203438fe7a1308e35c09714b398ac2f780e61e,
   H256.ofNatBE 0x8244d2bb332c3f33d75a1f281f9adfa1389f37cda3d70cde05b7fdcece8c1b68,
   H256.ofNatBE 0x77597c5094ccbc7e8317af06502e3eae39cdf22bdb3f8b9505f72939808e55b1]

/-- BLAKE3 on the default pairs and on that way up: the first node is a right one. -/
def testProofCrypto : Crypto := Crypto.ofTable
  ((testDefaults.zip testDefaults.tail).map (fun (hash, above) =>
      (hash.asBytes ++ hash.asBytes, above)) ++
    [(H256.zero.asBytes ++ (testKey 2).asBytes, testClimb.getD 1 H256.zero)] ++
    ((testClimb.tail.zip testClimb.tail.tail).zip testDefaults.tail).map
      fun ((node, above), sibling) => (node.asBytes ++ sibling.asBytes, above))

/-- The tree of `test_merkle_proof`: the proof of its one key does not verify. -/
theorem proof_of_leaf_fails :
    let t := run testProofCrypto Platform.exact 8 [.update (testKey 1) (testKey 2)]
    ∃ q, t.prove (testKey 1) = some q ∧ q.leaf = testKey 2 ∧ q.root = t.root ∧
      q.verify testProofCrypto = false := by
  intro t
  obtain ⟨hdepth, hdefaults, _⟩ := run_spec (C := testProofCrypto) exact_listsValues 8
    [.update (testKey 1) (testKey 2)]
  have hformed : Formed testProofCrypto t :=
    ⟨by rw [hdepth]; decide, by rw [hdepth]; exact hdefaults⟩
  obtain ⟨q, hq, hleaf, hroot, _, hlength, hsteps⟩ := hformed.prove_spec (testKey 1)
  have hvalue : t.leafAt (testKey 1) = testKey 2 := by
    rw [leafAt, leaves_update_once, Finmap.lookup_insert]
    rfl
  have hpath : q.path = true :: List.replicate 7 false := by
    have hbits : keyToBits (testKey 1) t.depth = some (true :: List.replicate 7 false) := by
      rw [hdepth]
      decide +kernel
    rw [prove, hbits] at hq
    cases hq
    rfl
  refine ⟨q, hq, hleaf.trans hvalue, hroot, Bool.eq_false_iff.mpr fun hverify => ?_⟩
  rw [verify_iff hlength, hleaf, hvalue, hsteps, hpath, hroot,
    (root_update_once 8 (testKey 1) (testKey 2)).2] at hverify
  revert hverify
  decide +kernel

end TreeOp

end Pyrax.Rollup
