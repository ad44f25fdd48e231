import Pyrax.Storage.Linkage

/-!
# The canonical chain and its work

`canonicalBlocks` reads the chain off the height index, from genesis to the tip.
On a linked store a commit appends to it (`canonicalBlocks_committed`).

The total difficulty of the tip is kept in two ways that disagree on large
numbers: `commit_block` adds with wrap-around, `rollback_to` sums anew and
saturates. `WorkExact` is what both maintain, the exact work as long as that
fits in a `u64`.
-/

namespace Pyrax.ChainDB

open Base

/-- The block indexed at a height, as the loops over heights read it. -/
def blockAt (s : ChainDB) (h : Nat) : Option Block := s.getBlockByHeight (UInt64.ofNat h)

/-- The blocks indexed at `0..=tip.height`, genesis first. -/
def canonicalBlocks (s : ChainDB) : List Block :=
  (List.range (s.tip.height.toNat + 1)).filterMap s.blockAt

/-- The exact sum of the difficulties of the canonical chain. -/
def chainWork (s : ChainDB) : Nat := ((canonicalBlocks s).map (·.header.difficulty.toNat)).sum

/-- The tip's total difficulty is the exact work, where that fits. -/
def WorkExact (s : ChainDB) : Prop :=
  chainWork s < 2 ^ 64 → s.tip.totalDifficulty.toNat = chainWork s

variable {C : Crypto} {H : BlockHeader → Prop} {s : ChainDB} {b : Block}

theorem canonicalBlocks_openNew (C : Crypto) (network : NetworkId) :
    canonicalBlocks (openNew C network) = [Genesis.genesisBlock C network] := by
  have hg : (openNew C network).blockAt 0 = some (Genesis.genesisBlock C network) :=
    (linked_openNew C network).genesis
  show [0].filterMap (openNew C network).blockAt = _
  rw [List.filterMap_cons_some hg]
  rfl

/-- Extending the tip appends to the canonical chain. -/
theorem canonicalBlocks_committed (hs : Linked C s) (hst : StoredIn C H s)
    (hcf : CollisionFree C H) (hb : H b.header) (hh : b.height = s.tip.height + 1)
    (h0 : b.height ≠ 0) : canonicalBlocks (committed C s b) = canonicalBlocks s ++ [b] := by
  have hget := getBlockByHeight_committed hs hst hcf hb hh h0
  have htop : b.height.toNat = s.tip.height.toNat + 1 := by rw [hh, succ_toNat (hh ▸ h0)]
  unfold canonicalBlocks
  rw [committed_tip, commitTip, htop, List.range_succ, List.filterMap_append]
  refine congrArg₂ _ (List.filterMap_congr fun h hmem => ?_) ?_
  · -- the old heights are below the new one
    rw [blockAt, hget, if_neg]
    · rfl
    intro he
    have hlt := List.mem_range.mp hmem
    have hn := congrArg UInt64.toNat he
    have hb64 := s.tip.height.toNat_lt
    rw [UInt64.toNat_ofNat', htop] at hn
    omega
  · have hlast : UInt64.ofNat (s.tip.height.toNat + 1) = b.height := by
      rw [← htop, UInt64.ofNat_toNat]
    have hsome : (committed C s b).blockAt (s.tip.height.toNat + 1) = some b := by
      rw [blockAt, hlast, hget, if_pos rfl]
    rw [List.filterMap_cons_some hsome]
    rfl

/-! ## Total difficulty -/

theorem saturatingAdd_toNat (a b : UInt64) :
    (saturatingAdd a b).toNat = min (a.toNat + b.toNat) (2 ^ 64 - 1) := by
  unfold saturatingAdd
  split
  · next h =>
    rw [UInt64.toNat_add]
    omega
  · next h =>
    rw [show (0xFFFFFFFFFFFFFFFF : UInt64).toNat = 2 ^ 64 - 1 from rfl]
    omega

/-- Summing with saturation is the exact sum, cut off at `u64::MAX`. -/
theorem foldl_saturatingAdd_toNat (f : Nat → Option Block) : ∀ (hs : List Nat) (acc : UInt64),
    (hs.foldl (fun total h =>
      match f h with
      | some block => saturatingAdd total block.header.difficulty
      | none => total) acc).toNat
      = min (acc.toNat + ((hs.filterMap f).map (·.header.difficulty.toNat)).sum) (2 ^ 64 - 1)
  | [], acc => by
    have hlt := acc.toNat_lt
    simp only [List.foldl_nil, List.filterMap_nil, List.map_nil, List.sum_nil]
    omega
  | h :: hs, acc => by
    rw [List.foldl_cons, foldl_saturatingAdd_toNat f hs]
    cases hf : f h with
    | none => rw [List.filterMap_cons_none hf]
    | some b =>
      rw [List.filterMap_cons_some hf, List.map_cons, List.sum_cons]
      simp only [saturatingAdd_toNat]
      omega

/-- `calculate_total_difficulty` at the tip is the work, cut off. -/
theorem calculateTotalDifficulty_toNat (s : ChainDB) :
    (s.calculateTotalDifficulty s.tip.height).toNat = min (chainWork s) (2 ^ 64 - 1) := by
  have hfold := foldl_saturatingAdd_toNat s.blockAt (List.range (s.tip.height.toNat + 1)) 0
  rw [UInt64.toNat_zero, Nat.zero_add] at hfold
  exact hfold

theorem workExact_openNew (C : Crypto) (network : NetworkId) :
    WorkExact (openNew C network) := by
  intro _
  rw [chainWork, canonicalBlocks_openNew]
  rfl

theorem workExact_committed (hs : Linked C s) (hst : StoredIn C H s) (hcf : CollisionFree C H)
    (hb : H b.header) (hh : b.height = s.tip.height + 1) (h0 : b.height ≠ 0)
    (hw : WorkExact s) : WorkExact (committed C s b) := by
  have hwork : chainWork (committed C s b) = chainWork s + b.header.difficulty.toNat := by
    rw [chainWork, canonicalBlocks_committed hs hst hcf hb hh h0, List.map_append,
      List.sum_append, chainWork]
    simp
  intro hlt
  rw [hwork] at hlt ⊢
  -- the commit adds in a `u64`, which is exact below 2 ^ 64
  have hold := hw (by omega)
  rw [committed_tip, commitTip, UInt64.toNat_add, hold]
  omega

/-- A state that leads to the same blocks up to the tip's height sums their
difficulties to the tip's. -/
theorem calculateTotalDifficulty_of_agree {r : ChainDB}
    (hget : ∀ h ≤ s.tip.height, r.getBlockByHeight h = s.getBlockByHeight h) (hw : WorkExact s)
    (hwork : chainWork s < 2 ^ 64) :
    r.calculateTotalDifficulty s.tip.height = s.tip.totalDifficulty := by
  refine UInt64.toNat_inj.mp ?_
  have hfold := foldl_saturatingAdd_toNat r.blockAt (List.range (s.tip.height.toNat + 1)) 0
  have hsame : (List.range (s.tip.height.toNat + 1)).filterMap r.blockAt = canonicalBlocks s := by
    refine List.filterMap_congr fun h hmem => hget _ ?_
    have hlt := List.mem_range.mp hmem
    have h64 := s.tip.height.toNat_lt
    rw [UInt64.le_iff_toNat_le, UInt64.toNat_ofNat']
    omega
  rw [hsame, UInt64.toNat_zero, Nat.zero_add] at hfold
  refine hfold.trans ?_
  rw [hw hwork]
  exact Nat.min_eq_left (Nat.le_pred_of_lt hwork)

/-- A tip set anew has the exact work. -/
theorem workExact_retip {target : UInt64} (hb : s.getBlockByHeight target = some b) :
    WorkExact (retip C s target) := by
  rw [retip_of_some hb]
  intro hlt
  have hcalc := calculateTotalDifficulty_toNat
    (s.setTip ⟨target, b.hash C, s.calculateTotalDifficulty target⟩)
  rw [Nat.min_eq_left (by omega)] at hcalc
  exact hcalc

theorem workExact_rollbackTo (hs : Linked C s) (hw : WorkExact s) (target : UInt64) :
    WorkExact (rollbackTo C s target) := by
  unfold rollbackTo
  split
  · exact hw
  · next hgt =>
    have hidx : IndexedTo C (undoDown C target (s.tip.height - target).toNat s) target :=
      indexedTo_undoDown target _ hs.toIndexedTo (sub_toNat_of_not_le hgt)
    obtain ⟨b, hb, _, _⟩ := hidx.getBlockByHeight (UInt64.le_refl target)
    exact workExact_retip hb

/-! ## Runs that never commit a block of height `0` -/

/-- Every block handed to `commit_block` has a positive height. -/
def PositiveHeights (ops : List StoreOp) : Prop := ∀ b, StoreOp.commit b ∈ ops → b.height ≠ 0

theorem PositiveHeights.keepsGenesis {network : NetworkId} {ops : List StoreOp}
    (hpos : PositiveHeights ops) (pre : List StoreOp) (op : StoreOp) (hpre : pre ++ [op] <+: ops) :
    op.KeepsGenesis C (runOps C (openNew C network) pre) := by
  cases op with
  | commit b => exact Or.inl (hpos b (hpre.subset (by simp)))
  | rollback _ => trivial

/-- Such runs keep the store linked and the total difficulty exact. -/
theorem workExact_runOps {network : NetworkId} {ops : List StoreOp}
    (hcf : CollisionFree C (InPlay C network ops)) (hpos : PositiveHeights ops) :
    ∀ pre, pre <+: ops → WorkExact (runOps C (openNew C network) pre) := by
  refine forall_prefixes (workExact_openNew C network) ?_
  intro pre op hpre h
  have hpre' := (List.prefix_append pre [op]).trans hpre
  have hl := linked_runOps hcf hpos.keepsGenesis pre hpre'
  rw [runOps_snoc]
  cases op with
  | rollback target => exact workExact_rollbackTo hl h target
  | commit b =>
    rcases run_commit_cases (C := C) (runOps C (openNew C network) pre) b with
      ⟨hrun, _⟩ | ⟨hlink, hrun⟩
    · rw [hrun]
      exact h
    · rw [hrun]
      have h0 := hpos b (hpre.subset (by simp))
      obtain ⟨_, hh⟩ := hlink.resolve_left h0
      exact workExact_committed hl (storedIn_runOps hpre') hcf
        (inPlay_of_snoc hpre b rfl) hh h0 h

end Pyrax.ChainDB
