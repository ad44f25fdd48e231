import Pyrax.Base.Index
import Pyrax.Types.Block

/-!
# The header chain of a light client

`HeaderChain` of `pyrax-node/src/light_client/headers.rs`: the retained headers, oldest
first, an index from a hash to a place among them, and the difficulty of everything
accepted. `add_header` takes a header whose parent is anywhere in the index and whose
height follows the tip's, and lets a header of height `0` pass both tests. When there are
too many, `prune` drops the oldest and builds the index anew.

A light client's `[u8; 32]` values are the node's `H256`. The index is all right on every
chain that `add_header` builds (`WellFormed`): no lookup reads outside the list.
-/

namespace Pyrax

open Base

structure LightHeader where
  height : UInt64
  hash : H256
  parentHash : H256
  merkleRoot : H256
  timestamp : UInt64
  difficulty : UInt64
  nonce : UInt64
  deriving DecidableEq

def LightHeader.genesis : LightHeader := ⟨0, H256.zero, H256.zero, H256.zero, 0, 1, 0⟩

structure HeaderChain where
  headers : List LightHeader
  byHash : Column H256 Nat
  maxHeaders : Nat
  totalDifficulty : BitVec 128

namespace HeaderChain

/-- The genesis header alone. -/
def new (maxHeaders : Nat) : HeaderChain where
  headers := [LightHeader.genesis]
  byHash := Finmap.insert LightHeader.genesis.hash 0 ∅
  maxHeaders := maxHeaders
  totalDifficulty := 1

/-- The height of the last header. -/
def height (c : HeaderChain) : UInt64 := (c.headers.getLast?.map (·.height)).getD 0

/-- Drop the oldest headers beyond the limit. The source takes their hashes out of the
index and then clears it. -/
def prune (c : HeaderChain) : HeaderChain :=
  if c.maxHeaders < c.headers.length then
    let kept := c.headers.drop (c.headers.length - c.maxHeaders)
    { c with headers := kept, byHash := reindex (·.hash) kept }
  else c

/-- A header at the end of the list and under its hash. -/
def push (c : HeaderChain) (header : LightHeader) : HeaderChain :=
  { c with
    headers := c.headers ++ [header]
    byHash := c.byHash.insert header.hash c.headers.length
    totalDifficulty := c.totalDifficulty + BitVec.ofNat 128 header.difficulty.toNat }

def addHeader (c : HeaderChain) (header : LightHeader) : Except String HeaderChain :=
  -- a header we have is no news
  if header.hash ∈ c.byHash then .ok c
  else if header.parentHash ∉ c.byHash ∧ 0 < header.height then
    .error "Parent header not found"
  else if header.height ≠ c.height + 1 ∧ 0 < header.height then
    .error ("Expected height " ++ toString (c.height + 1) ++ ", got " ++ toString header.height)
  else .ok (c.push header).prune

/-- `self.headers[idx]` for the place the index gives. -/
def getByHash (c : HeaderChain) (hash : H256) : Option LightHeader :=
  (c.byHash.lookup hash).bind fun idx => c.headers[idx]?

def getAtHeight (c : HeaderChain) (height : UInt64) : Option LightHeader :=
  if height = 0 then c.headers.head?
  else
    let startHeight := (c.headers.head?.map (·.height)).getD 0
    if height < startHeight then none
    else c.headers[(height - startHeight).toNat]?

/-! ## What every chain keeps -/

variable {c c' : HeaderChain} {header : LightHeader} {hash : H256}

/-- The index knows the retained headers, there is at least one, and no more than the
limit. -/
structure WellFormed (c : HeaderChain) : Prop where
  indexed : Indexes (·.hash) c.byHash c.headers
  nonempty : c.headers ≠ []
  bounded : c.headers.length ≤ c.maxHeaders

/-- Reading by hash finds exactly the retained headers. -/
theorem WellFormed.getByHash_eq_some_iff (h : c.WellFormed) :
    c.getByHash hash = some header ↔ header ∈ c.headers ∧ header.hash = hash :=
  h.indexed.lookup_bind_eq_some_iff

theorem wellFormed_new {maxHeaders : Nat} (h : 1 ≤ maxHeaders) : (new maxHeaders).WellFormed where
  indexed := Indexes.nil.snoc Finmap.notMem_empty
  nonempty := List.cons_ne_nil _ _
  bounded := h

theorem indexed_prune (h : Indexes (·.hash) c.byHash c.headers) :
    Indexes (·.hash) c.prune.byHash c.prune.headers := by
  unfold prune
  split
  · refine Indexes.of_nodup ?_
    rw [List.map_drop]
    exact h.nodup.sublist (List.drop_sublist _ _)
  · exact h

@[simp] theorem prune_maxHeaders (c : HeaderChain) : c.prune.maxHeaders = c.maxHeaders := by
  unfold prune
  split <;> rfl

@[simp] theorem prune_totalDifficulty (c : HeaderChain) :
    c.prune.totalDifficulty = c.totalDifficulty := by
  unfold prune
  split <;> rfl

/-- What is left is the newest part of the list. -/
theorem prune_headers (c : HeaderChain) :
    c.prune.headers = c.headers.drop (c.headers.length - c.maxHeaders) := by
  unfold prune
  split
  · rfl
  · next h => rw [Nat.sub_eq_zero_of_le (Nat.le_of_not_lt h), List.drop_zero]

/-- What `add_header` can do: keep the chain for a header it has, or put a new one at its
end. -/
theorem addHeader_cases (h : c.addHeader header = .ok c') :
    (header.hash ∈ c.byHash ∧ c' = c) ∨
      (header.hash ∉ c.byHash ∧
        (0 < header.height → header.parentHash ∈ c.byHash ∧ header.height = c.height + 1) ∧
        c' = (c.push header).prune) := by
  unfold addHeader at h
  split at h
  · next hmem => exact .inl ⟨hmem, (Except.ok.inj h).symm⟩
  · next hmem =>
    split at h
    · cases h
    · next hparent =>
      split at h
      · cases h
      · next hheight =>
        refine .inr ⟨hmem, fun hpos => ⟨?_, ?_⟩, (Except.ok.inj h).symm⟩
        · exact not_not.mp fun hn => hparent ⟨hn, hpos⟩
        · exact not_not.mp fun hn => hheight ⟨hn, hpos⟩

/-- The new list: the old one with the header behind it, less the oldest. -/
theorem headers_pushed (c : HeaderChain) (header : LightHeader) :
    (c.push header).prune.headers
      = (c.headers ++ [header]).drop (c.headers.length + 1 - c.maxHeaders) := by
  rw [prune_headers]
  show (c.headers ++ [header]).drop ((c.headers ++ [header]).length - c.maxHeaders) = _
  rw [List.length_append, List.length_singleton]

theorem WellFormed.pushed (h : c.WellFormed) (hnew : header.hash ∉ c.byHash) :
    (c.push header).prune.WellFormed := by
  have hpos : 0 < c.headers.length := List.length_pos_iff.mpr h.nonempty
  have hmax := h.bounded
  have hlen : (c.push header).prune.headers.length
      = c.headers.length + 1 - (c.headers.length + 1 - c.maxHeaders) := by
    rw [headers_pushed, List.length_drop, List.length_append, List.length_singleton]
  refine ⟨indexed_prune (h.indexed.snoc hnew), ?_, ?_⟩
  · rw [← List.length_pos_iff, hlen]
    omega
  · rw [hlen, prune_maxHeaders]
    show _ ≤ c.maxHeaders
    omega

theorem WellFormed.addHeader (h : c.WellFormed) (hadd : c.addHeader header = .ok c') :
    c'.WellFormed := by
  rcases addHeader_cases hadd with ⟨-, rfl⟩ | ⟨hnew, -, rfl⟩
  · exact h
  · exact h.pushed hnew

end HeaderChain

end Pyrax
