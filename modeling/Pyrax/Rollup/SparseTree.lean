import Pyrax.Types.Block
import Pyrax.Base.Column

/-!
# The rollup's hash trees

The first half of `pyrax-node/src/zkrollup/state.rs`: merkle proofs and the
`SparseMerkleTree` that commits to the accounts. All hash trees of the rollup
are built level by level, a lone last node paired with the zero hash
(`nextLevel`), and all of them hash a pair as BLAKE3 of the two nodes side by
side (`hashPair`).

Two things come from the platform and not from the source, and are collected in
`Platform`: the order in which a `HashMap` lists its values, and the logarithm in
floating point that the tree is padded by.
-/

namespace Pyrax.Rollup

open Base

/-- What the rollup takes from the platform it runs on. -/
structure Platform where
  /-- `HashMap::values`, in the order the map happens to have. -/
  values : ∀ {K V : Type}, Column K V → List V
  /-- `(len as f64).log2().ceil() as u32`. -/
  log2Ceil : Nat → Nat

/-- A platform that lists every map in some order and computes logarithms
exactly. -/
noncomputable def Platform.exact : Platform where
  values m := (m.entries.map fun e => e.2).toList
  log2Ceil n := Nat.log2 (2 * n - 1)

/-- `hash_pair` of proofs, batches and the bridge. -/
def hashPair (C : Crypto) (left right : H256) : H256 := C.blake3 (left.asBytes ++ right.asBytes)

/-! ## Merkle proofs -/

structure MerkleProof where
  leaf : H256
  siblings : List H256
  path : List Bool
  root : H256
  deriving DecidableEq

/-- The loop of `verify`: a missing path bit counts as left. -/
def MerkleProof.climb (C : Crypto) : H256 → List H256 → List Bool → H256
  | current, [], _ => current
  | current, sibling :: siblings, path =>
    let next := if path.headD false then hashPair C sibling current else hashPair C current sibling
    climb C next siblings path.tail

def MerkleProof.verify (C : Crypto) (p : MerkleProof) : Bool :=
  climb C p.leaf p.siblings p.path == p.root

/-! ## Building a tree -/

/-- The next level up, over `level.chunks(2)`. -/
def nextLevel (C : Crypto) : List H256 → List H256
  | [] => []
  | [left] => [hashPair C left H256.zero]
  | left :: right :: rest => hashPair C left right :: nextLevel C rest

/-- `while level.len() > 1`; each level is shorter, so the length is fuel
enough. -/
def climbLevels (C : Crypto) : Nat → List H256 → List H256
  | 0, level => level
  | fuel + 1, level => if 1 < level.length then climbLevels C fuel (nextLevel C level) else level

/-- The root of the tree over some nodes, zero for none. -/
def rootOf (C : Crypto) (nodes : List H256) : H256 :=
  (climbLevels C nodes.length nodes).headD H256.zero

/-! ## The sparse tree -/

/-- `SparseMerkleTree`; its node cache is never written and left out. -/
structure SparseMerkleTree where
  depth : Nat
  leaves : Column H256 H256
  root : H256
  defaultHashes : List H256

namespace SparseMerkleTree

variable (C : Crypto) (P : Platform)

/-- `compute_default_hashes`: the zero hash and then each level's pair of the
level before. -/
def computeDefaultHashes (depth : Nat) : List H256 :=
  (List.range depth).foldl (fun hashes _ =>
    let prev := hashes.getLastD H256.zero
    hashes ++ [hashPair C prev prev]) [H256.zero]

def new (depth : Nat) : SparseMerkleTree where
  depth := depth
  leaves := ∅
  root := (computeDefaultHashes C depth).getD depth H256.zero
  defaultHashes := computeDefaultHashes C depth

def get (t : SparseMerkleTree) (key : H256) : Option H256 := t.leaves.lookup key

/-- `recompute_root`: all leaves in the map's order, padded with zero hashes. -/
def recomputeRoot (t : SparseMerkleTree) : SparseMerkleTree :=
  let values := P.values t.leaves
  if values.isEmpty then { t with root := t.defaultHashes.getD t.depth H256.zero }
  else
    let padding := List.replicate (2 ^ P.log2Ceil values.length - values.length) H256.zero
    { t with root := rootOf C (values ++ padding) }

def update (t : SparseMerkleTree) (key value : H256) : SparseMerkleTree :=
  recomputeRoot C P { t with leaves := t.leaves.insert key value }

def delete (t : SparseMerkleTree) (key : H256) : SparseMerkleTree :=
  recomputeRoot C P { t with leaves := t.leaves.erase key }

/-- `key_to_bits`: the low bit of the first byte first. Past the last byte the
source's index is out of bounds. -/
def keyToBits (key : H256) (depth : Nat) : Option (List Bool) :=
  (List.range depth).mapM fun i =>
    key.asBytes[i / 8]?.map fun byte => (byte >>> UInt8.ofNat (i % 8)) &&& 1 == 1

/-- `get_sibling_hash`: the default hash of the level, whatever the key. -/
def getSiblingHash (t : SparseMerkleTree) (_key : H256) (level : Nat) : H256 :=
  t.defaultHashes.getD level H256.zero

/-- `prove`. The source also hashes its way up, and does not use what it gets. -/
def prove (t : SparseMerkleTree) (key : H256) : Option MerkleProof :=
  (keyToBits key t.depth).map fun keyBits => {
    leaf := (t.leaves.lookup key).getD H256.zero
    siblings := (List.range keyBits.length).map (t.getSiblingHash key)
    path := keyBits
    root := t.root }

end SparseMerkleTree

/-- What changes a tree. -/
inductive TreeOp where
  | update (key value : H256)
  | delete (key : H256)
  deriving DecidableEq

namespace TreeOp

variable (C : Crypto) (P : Platform)

def apply (t : SparseMerkleTree) : TreeOp → SparseMerkleTree
  | update key value => t.update C P key value
  | delete key => t.delete C P key

/-- A new tree of the given depth after some changes. -/
def run (depth : Nat) (ops : List TreeOp) : SparseMerkleTree :=
  ops.foldl (apply C P) (SparseMerkleTree.new C depth)

end TreeOp

end Pyrax.Rollup
