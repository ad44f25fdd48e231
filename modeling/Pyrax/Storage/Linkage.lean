import Pyrax.Storage.Spec
import Pyrax.Base.Run
import Mathlib.Data.List.Infix

/-!
# The height index is a hash-linked chain

What the store promises about its height index, for callers that hand it
arbitrary blocks: RPC `submit_block` and the stratum closures pass on whatever
they are given, and `rollback_to` may run in between.

`IndexedTo s top` says that the index holds exactly the heights `0..=top`, that
each leads to a stored block of that height whose parent is the hash one below,
and that height `0` leads to the genesis block. `Linked` is that with the tip as
the top. The induction runs over the operations: a commit of a block of positive
height extends the index by one (`linked_committed`), an undo takes the top away
(`indexedTo_undoBlock`), and both need that no two headers in play have one
hash, since a stored block is found by its hash alone.

A block of height `0` is the exception. `commit_block` asks nothing of it, so it
takes the genesis block's place and sets the tip to height `0` under a chain
that stays indexed. `linked_step_iff` is the exact condition on one operation.
-/

namespace Pyrax.ChainDB

open Base

/-- BLAKE3 does not collide on the headers in `H`. -/
def CollisionFree (C : Crypto) (H : BlockHeader → Prop) : Prop :=
  ∀ a b, H a → H b → C.blake3 a.preimage = C.blake3 b.preimage → a.preimage = b.preimage

/-- The index holds exactly the heights up to `top`, as a chain from genesis. -/
structure IndexedTo (C : Crypto) (s : ChainDB) (top : UInt64) : Prop where
  block : ∀ h ≤ top, ∃ b, s.db.blockHeightToHash.lookup h = some (b.hash C) ∧
    s.getBlock (b.hash C) = some b ∧ b.height = h
  parent : ∀ h b, 1 ≤ h → h ≤ top → s.getBlockByHeight h = some b →
    s.db.blockHeightToHash.lookup (h - 1) = some b.header.parentHash
  above : ∀ h, top < h → s.db.blockHeightToHash.lookup h = none
  genesis : s.getBlockByHeight 0 = some (Genesis.genesisBlock C s.network)

/-- The index is a chain from genesis to the tip. -/
structure Linked (C : Crypto) (s : ChainDB) : Prop extends IndexedTo C s s.tip.height where
  tip : s.db.blockHeightToHash.lookup s.tip.height = some s.tip.hash

/-- Every stored block stands under its own hash and has its header in `H`. -/
def StoredIn (C : Crypto) (H : BlockHeader → Prop) (s : ChainDB) : Prop :=
  ∀ k b, s.getBlock k = some b → k = b.hash C ∧ H b.header

variable {C : Crypto} {H : BlockHeader → Prop} {s : ChainDB} {b : Block} {top : UInt64}

theorem CollisionFree.header_eq (hcf : CollisionFree C H) {a b : Block} (ha : H a.header)
    (hb : H b.header) (h : a.hash C = b.hash C) : a.header = b.header :=
  BlockHeader.preimage_inj (hcf _ _ ha hb h)

theorem CollisionFree.mono {H' : BlockHeader → Prop} (hcf : CollisionFree C H)
    (h : ∀ x, H' x → H x) : CollisionFree C H' :=
  fun a b ha hb => hcf a b (h a ha) (h b hb)

/-- Two headers of different hashes. -/
theorem collisionFree_pair {a b : BlockHeader} (hne : C.blake3 a.preimage ≠ C.blake3 b.preimage) :
    CollisionFree C fun h => h = a ∨ h = b := by
  rintro x y (rfl | rfl) (rfl | rfl) h
  · rfl
  · exact (hne h).elim
  · exact (hne h.symm).elim
  · rfl

/-! ## Machine heights -/

/-- A successor that does not wrap. -/
theorem succ_toNat {x : UInt64} (h : x + 1 ≠ 0) : (x + 1).toNat = x.toNat + 1 := by
  have hlt := x.toNat_lt
  have hadd := UInt64.toNat_add x 1
  have h1 : (1 : UInt64).toNat = 1 := rfl
  have hne : (x + 1).toNat ≠ 0 := fun e => h (UInt64.toNat_inj.mp e)
  omega

theorem pred_toNat {x : UInt64} (h : x ≠ 0) : (x - 1).toNat = x.toNat - 1 := by
  have hne : x.toNat ≠ 0 := fun e => h (UInt64.toNat_inj.mp e)
  have h1 : (1 : UInt64).toNat = 1 := rfl
  have hle : (1 : UInt64) ≤ x := by
    rw [UInt64.le_iff_toNat_le]
    omega
  rw [UInt64.toNat_sub_of_le _ _ hle, h1]

theorem le_or_eq_succ {x h : UInt64} (hx : x + 1 ≠ 0) (hle : h ≤ x + 1) :
    h ≤ x ∨ h = x + 1 := by
  rw [UInt64.le_iff_toNat_le, succ_toNat hx] at hle
  rcases Nat.le_or_eq_of_le_succ hle with hl | he
  · exact Or.inl (UInt64.le_iff_toNat_le.mpr hl)
  · exact Or.inr (UInt64.toNat_inj.mp (by rw [succ_toNat hx]; exact he))

theorem ne_succ_of_le {x h : UInt64} (hx : x + 1 ≠ 0) (hle : h ≤ x) : h ≠ x + 1 := by
  rintro rfl
  rw [UInt64.le_iff_toNat_le, succ_toNat hx] at hle
  omega

theorem lt_of_succ_lt {x h : UInt64} (hx : x + 1 ≠ 0) (hlt : x + 1 < h) : x < h := by
  rw [UInt64.lt_iff_toNat_lt, succ_toNat hx] at hlt
  rw [UInt64.lt_iff_toNat_lt]
  omega

theorem pred_le {x h : UInt64} (hx : x ≠ 0) (hle : h ≤ x - 1) : h ≤ x ∧ h ≠ x := by
  have hne : x.toNat ≠ 0 := fun e => hx (UInt64.toNat_inj.mp e)
  rw [UInt64.le_iff_toNat_le, pred_toNat hx] at hle
  refine ⟨UInt64.le_iff_toNat_le.mpr (by omega), ?_⟩
  rintro rfl
  omega

theorem pred_lt {x h : UInt64} (hx : x ≠ 0) (hlt : x - 1 < h) : x < h ∨ h = x := by
  rw [UInt64.lt_iff_toNat_lt, pred_toNat hx] at hlt
  rcases Nat.lt_or_ge x.toNat h.toNat with hl | hg
  · exact Or.inl (UInt64.lt_iff_toNat_lt.mpr hl)
  · exact Or.inr (UInt64.toNat_inj.mp (by omega))

/-! ## Reading through the index -/

theorem getBlockByHeight_of_lookup {h : UInt64} {k : H256}
    (hk : s.db.blockHeightToHash.lookup h = some k) : s.getBlockByHeight h = s.getBlock k := by
  rw [getBlockByHeight, hk]

theorem getBlockByHeight_of_none {h : UInt64}
    (hk : s.db.blockHeightToHash.lookup h = none) : s.getBlockByHeight h = none := by
  rw [getBlockByHeight, hk]

/-- Below the top the index leads to a block of that height. -/
theorem IndexedTo.getBlockByHeight (hs : IndexedTo C s top) {h : UInt64} (hle : h ≤ top) :
    ∃ b, s.getBlockByHeight h = some b ∧ b.height = h ∧
      s.db.blockHeightToHash.lookup h = some (b.hash C) := by
  obtain ⟨b, hk, hb, hh⟩ := hs.block h hle
  exact ⟨b, (getBlockByHeight_of_lookup hk).trans hb, hh, hk⟩

theorem zero_le (x : UInt64) : 0 ≤ x := UInt64.le_iff_toNat_le.mpr (Nat.zero_le _)

/-! ## A new database -/

theorem linked_openNew (C : Crypto) (network : NetworkId) : Linked C (openNew C network) where
  block h hle := by
    obtain rfl : h = 0 := UInt64.le_antisymm hle (zero_le h)
    refine ⟨Genesis.genesisBlock C network, ?_, ?_, rfl⟩
    · rw [openNew_blockHeightToHash]
      exact Finmap.lookup_insert _
    · rw [getBlock, openNew_blocksByHash]
      exact Finmap.lookup_insert _
  parent h _ h1 hle _ := by
    have h0 : h = 0 := UInt64.le_antisymm hle (zero_le h)
    rw [h0] at h1
    exact absurd h1 (by decide)
  above h hlt := by
    have h0 : h ≠ 0 := by
      rintro rfl
      exact UInt64.lt_irrefl _ hlt
    rw [openNew_blockHeightToHash, Finmap.lookup_insert_of_ne _ h0, Finmap.lookup_empty]
  genesis := by
    have hlook : (openNew C network).db.blockHeightToHash.lookup 0
        = some ((Genesis.genesisBlock C network).hash C) := by
      rw [openNew_blockHeightToHash]
      exact Finmap.lookup_insert _
    rw [getBlockByHeight_of_lookup hlook, getBlock, openNew_blocksByHash]
    exact Finmap.lookup_insert _
  tip := by
    rw [openNew_blockHeightToHash]
    exact Finmap.lookup_insert _

theorem storedIn_openNew (network : NetworkId)
    (hg : H (Genesis.genesisBlock C network).header) : StoredIn C H (openNew C network) := by
  intro k b hk
  rw [getBlock, openNew_blocksByHash] at hk
  by_cases hkey : k = (Genesis.genesisBlock C network).hash C
  · rw [hkey, Finmap.lookup_insert] at hk
    cases Option.some.inj hk
    exact ⟨hkey, hg⟩
  · rw [Finmap.lookup_insert_of_ne _ hkey, Finmap.lookup_empty] at hk
    cases hk

/-! ## Committing -/

theorem storedIn_committed (hs : StoredIn C H s) (hb : H b.header) :
    StoredIn C H (committed C s b) := by
  intro k b' hk
  by_cases hkey : k = b.hash C
  · rw [hkey, committed_getBlock_self] at hk
    cases Option.some.inj hk
    exact ⟨hkey, hb⟩
  · rw [committed_getBlock_of_ne hkey] at hk
    exact hs k b' hk

/-- A block that extends the tip has a hash no indexed height leads to. -/
theorem indexed_hash_ne (hs : IndexedTo C s top) (hst : StoredIn C H s)
    (hcf : CollisionFree C H) (hb : H b.header) (hheight : ∀ h ≤ top, h ≠ b.height)
    {h : UInt64} {k : H256} (hle : h ≤ top)
    (hk : s.db.blockHeightToHash.lookup h = some k) : k ≠ b.hash C := by
  obtain ⟨b', hk', hb', hh⟩ := hs.block h hle
  rw [hk'] at hk
  obtain rfl := Option.some.inj hk
  intro heq
  have hheader := hcf.header_eq (hst _ _ hb').2 hb heq
  exact hheight h hle (hh.symm.trans (congrArg BlockHeader.height hheader))

section Extend

variable (hs : Linked C s) (hst : StoredIn C H s) (hcf : CollisionFree C H) (hb : H b.header)
  (hh : b.height = s.tip.height + 1) (h0 : b.height ≠ 0)

include hs hst hcf hb hh h0

/-- After extending the tip the new height leads to the new block, every other
height where it did. -/
theorem getBlockByHeight_committed (h : UInt64) :
    (committed C s b).getBlockByHeight h
      = if h = b.height then some b else s.getBlockByHeight h := by
  rw [hh] at h0
  by_cases hne : h = b.height
  · subst hne
    rw [if_pos rfl, getBlockByHeight, committed_blockHeightToHash, Finmap.lookup_insert]
    exact committed_getBlock_self s b
  · rw [if_neg hne]
    have hlook : (committed C s b).db.blockHeightToHash.lookup h
        = s.db.blockHeightToHash.lookup h := by
      rw [committed_blockHeightToHash, Finmap.lookup_insert_of_ne _ hne]
    cases hk : s.db.blockHeightToHash.lookup h with
    | none => rw [getBlockByHeight_of_none hk, getBlockByHeight_of_none (hlook.trans hk)]
    | some k =>
      rw [getBlockByHeight_of_lookup hk, getBlockByHeight_of_lookup (hlook.trans hk)]
      -- an indexed height is at most the tip, so its block is not the new one
      have hle : h ≤ s.tip.height := by
        refine UInt64.not_lt.mp fun hlt => ?_
        rw [hs.above h hlt] at hk
        cases hk
      refine committed_getBlock_of_ne (indexed_hash_ne hs.toIndexedTo hst hcf hb ?_ hle hk)
      exact fun h' hle' => hh ▸ ne_succ_of_le h0 hle'

theorem linked_committed (hpar : b.header.parentHash = s.tip.hash) :
    Linked C (committed C s b) := by
  have hget := getBlockByHeight_committed hs hst hcf hb hh h0
  have h0' : s.tip.height + 1 ≠ 0 := hh ▸ h0
  have hlook : ∀ h, h ≤ s.tip.height → (committed C s b).db.blockHeightToHash.lookup h
      = s.db.blockHeightToHash.lookup h := fun h hle => by
    have hne : h ≠ b.height := hh ▸ ne_succ_of_le h0' hle
    rw [committed_blockHeightToHash, Finmap.lookup_insert_of_ne _ hne]
  refine ⟨⟨fun h hle => ?_, fun h b' h1 hle hb' => ?_, fun h hlt => ?_, ?_⟩, ?_⟩
  · -- every height up to the new tip leads to a block of that height
    rw [committed_tip, commitTip, hh] at hle
    rcases le_or_eq_succ h0' hle with hold | rfl
    · obtain ⟨b', hk, hb', hh'⟩ := hs.block h hold
      have hne := indexed_hash_ne hs.toIndexedTo hst hcf hb
        (fun h' hle' => hh ▸ ne_succ_of_le h0' hle') hold hk
      exact ⟨b', (hlook h hold).trans hk, (committed_getBlock_of_ne hne).trans hb', hh'⟩
    · refine ⟨b, ?_, committed_getBlock_self s b, hh⟩
      rw [committed_blockHeightToHash, hh]
      exact Finmap.lookup_insert _
  · -- parents: the new block names the old tip, the others are as before
    rw [committed_tip, commitTip, hh] at hle
    rw [hget h] at hb'
    rcases le_or_eq_succ h0' hle with hold | rfl
    · rw [if_neg (hh ▸ ne_succ_of_le h0' hold)] at hb'
      have hpos : h ≠ 0 := by rintro rfl; exact absurd h1 (by decide)
      have hpred : h - 1 ≤ s.tip.height := by
        rw [UInt64.le_iff_toNat_le] at hold ⊢
        rw [pred_toNat hpos]
        omega
      rw [hlook _ hpred]
      exact hs.parent h b' h1 hold hb'
    · rw [if_pos hh.symm] at hb'
      obtain rfl := Option.some.inj hb'
      have hsub : s.tip.height + 1 - 1 = s.tip.height := UInt64.add_sub_cancel _ _
      rw [hsub, hlook _ (UInt64.le_refl _), hs.tip, hpar]
  · -- nothing is indexed above the new tip
    rw [committed_tip, commitTip, hh] at hlt
    have hne : h ≠ b.height := by rw [hh]; exact (UInt64.ne_of_lt hlt).symm
    rw [committed_blockHeightToHash, Finmap.lookup_insert_of_ne _ hne]
    exact hs.above h (lt_of_succ_lt h0' hlt)
  · rw [hget 0, if_neg (Ne.symm h0), committed_network]
    exact hs.genesis
  · rw [committed_blockHeightToHash]
    exact Finmap.lookup_insert _

end Extend

/-- Committing the genesis block again, on a chain that has nothing else. -/
theorem linked_recommit_genesis (hs : Linked C s) (htip : s.tip.height = 0) :
    Linked C (committed C s (Genesis.genesisBlock C s.network)) := by
  obtain ⟨g, hg, _, hlook⟩ := hs.getBlockByHeight (zero_le s.tip.height)
  rw [hs.genesis] at hg
  obtain rfl := Option.some.inj hg
  have hblock : s.getBlock ((Genesis.genesisBlock C s.network).hash C)
      = some (Genesis.genesisBlock C s.network) :=
    (getBlockByHeight_of_lookup hlook).symm.trans hs.genesis
  -- both columns get an entry they have already
  have hheights : (committed C s (Genesis.genesisBlock C s.network)).db.blockHeightToHash
      = s.db.blockHeightToHash := Finmap.ext_lookup fun h => by
    rw [committed_blockHeightToHash]
    by_cases hz : h = 0
    · rw [hz, hlook]
      exact Finmap.lookup_insert _
    · exact Finmap.lookup_insert_of_ne _ hz
  have hblocks : ∀ k, (committed C s (Genesis.genesisBlock C s.network)).getBlock k
      = s.getBlock k := fun k => by
    by_cases hk : k = (Genesis.genesisBlock C s.network).hash C
    · rw [hk, committed_getBlock_self, hblock]
    · exact committed_getBlock_of_ne hk
  have hget : ∀ h, (committed C s (Genesis.genesisBlock C s.network)).getBlockByHeight h
      = s.getBlockByHeight h := fun h => by
    rw [getBlockByHeight, getBlockByHeight, hheights]
    cases s.db.blockHeightToHash.lookup h with
    | none => rfl
    | some k => exact hblocks k
  refine ⟨⟨fun h hle => ?_, fun h b h1 hle hb => ?_, fun h hlt => ?_, ?_⟩, ?_⟩
  · rw [hheights]
    simp only [hblocks]
    exact hs.block h (htip ▸ hle)
  · rw [hheights]
    exact hs.parent h b h1 (htip ▸ hle) ((hget h).symm.trans hb)
  · rw [hheights]
    exact hs.above h (htip ▸ hlt)
  · exact (hget 0).trans hs.genesis
  · rw [hheights]
    exact hlook

/-! ## Rolling back -/

theorem undoBlock_blockHeightToHash (s : ChainDB) (b : Block) :
    (undoBlock C s b).db.blockHeightToHash = s.db.blockHeightToHash.erase b.height := rfl

/-- Undoing the top block takes the top away and nothing else. -/
theorem indexedTo_undoBlock (hs : IndexedTo C s top) (htop : top ≠ 0)
    (hb : s.getBlockByHeight top = some b) : IndexedTo C (undoBlock C s b) (top - 1) := by
  have hheight : b.height = top := by
    obtain ⟨b', hb', hh, _⟩ := hs.getBlockByHeight (UInt64.le_refl top)
    rw [hb] at hb'
    exact Option.some.inj hb' ▸ hh
  have hlook : ∀ h, h ≠ top → (undoBlock C s b).db.blockHeightToHash.lookup h
      = s.db.blockHeightToHash.lookup h := fun h hne => by
    rw [undoBlock_blockHeightToHash, hheight, Finmap.lookup_erase_ne hne]
  have hget : ∀ h, h ≠ top → (undoBlock C s b).getBlockByHeight h = s.getBlockByHeight h :=
    fun h hne => by
      rw [getBlockByHeight, getBlockByHeight, hlook h hne]
      rfl
  refine ⟨fun h hle => ?_, fun h b' h1 hle hb' => ?_, fun h hlt => ?_, ?_⟩
  · obtain ⟨hle', hne⟩ := pred_le htop hle
    rw [hlook h hne]
    exact hs.block h hle'
  · obtain ⟨hle', hne⟩ := pred_le htop hle
    rw [hget h hne] at hb'
    have hpos : h ≠ 0 := by rintro rfl; exact absurd h1 (by decide)
    have hne' : h - 1 ≠ top := by
      intro e
      have h2 := congrArg UInt64.toNat e
      rw [pred_toNat hpos] at h2
      have h3 := UInt64.le_iff_toNat_le.mp hle'
      have h4 : h.toNat ≠ 0 := fun e => hpos (UInt64.toNat_inj.mp e)
      omega
    rw [hlook _ hne']
    exact hs.parent h b' h1 hle' hb'
  · rcases pred_lt htop hlt with hlt' | rfl
    · rw [hlook h (UInt64.ne_of_lt hlt').symm]
      exact hs.above h hlt'
    · rw [undoBlock_blockHeightToHash, hheight, Finmap.lookup_erase]
  · rw [hget 0 htop.symm]
    exact hs.genesis

/-- The height the undo loop looks at is the top of what is still indexed. -/
theorem add_ofNat_eq {target top : UInt64} {n : Nat} (h : top.toNat = target.toNat + (n + 1)) :
    target + UInt64.ofNat (n + 1) = top := by
  refine UInt64.toNat_inj.mp ?_
  have hlt := top.toNat_lt
  rw [UInt64.toNat_add, UInt64.toNat_ofNat']
  omega

/-- The undo loop leaves the blocks, the tip and the network alone. -/
theorem undoDown_frame (C : Crypto) (target : UInt64) : ∀ (n : Nat) (s : ChainDB),
    (undoDown C target n s).db.blocksByHash = s.db.blocksByHash ∧
      (undoDown C target n s).tip = s.tip ∧ (undoDown C target n s).network = s.network
  | 0, _ => ⟨rfl, rfl, rfl⟩
  | n + 1, s => by
    rw [undoDown]
    split
    · next b _ => exact undoDown_frame C target n (undoBlock C s b)
    · exact undoDown_frame C target n s

/-- The undo loop takes the index down to its target. -/
theorem indexedTo_undoDown (target : UInt64) : ∀ (n : Nat) {s : ChainDB} {top : UInt64},
    IndexedTo C s top → top.toNat = target.toNat + n →
      IndexedTo C (undoDown C target n s) target
  | 0, s, top, hs, htop => by
    obtain rfl : top = target := UInt64.toNat_inj.mp htop
    exact hs
  | n + 1, s, top, hs, htop => by
    have hne : top ≠ 0 := by
      rintro rfl
      rw [UInt64.toNat_zero] at htop
      omega
    obtain ⟨b, hb, _, _⟩ := hs.getBlockByHeight (UInt64.le_refl top)
    rw [undoDown, add_ofNat_eq htop, hb]
    exact indexedTo_undoDown target n (indexedTo_undoBlock hs hne hb) (by
      rw [pred_toNat hne]
      omega)

/-- Below a lower target the number of undone blocks is the difference. -/
theorem sub_toNat_of_not_le {tip target : UInt64} (h : ¬ tip ≤ target) :
    tip.toNat = target.toNat + (tip - target).toNat := by
  have hlt := UInt64.lt_iff_toNat_lt.mp (UInt64.not_le.mp h)
  rw [UInt64.toNat_sub_of_le _ _ (UInt64.le_of_lt (UInt64.not_le.mp h))]
  omega

theorem retip_of_some {target : UInt64} (hb : s.getBlockByHeight target = some b) :
    retip C s target = s.setTip ⟨target, b.hash C, s.calculateTotalDifficulty target⟩ := by
  rw [retip, hb]

theorem linked_rollbackTo (hs : Linked C s) (target : UInt64) :
    Linked C (rollbackTo C s target) := by
  unfold rollbackTo
  split
  · exact hs
  · next hgt =>
    -- the loop leaves the target on top; its block becomes the tip
    have hidx : IndexedTo C (undoDown C target (s.tip.height - target).toNat s) target :=
      indexedTo_undoDown target _ hs.toIndexedTo (sub_toNat_of_not_le hgt)
    obtain ⟨b, hb, _, hlook⟩ := hidx.getBlockByHeight (UInt64.le_refl target)
    rw [retip_of_some hb]
    exact ⟨⟨hidx.block, hidx.parent, hidx.above, hidx.genesis⟩, hlook⟩

/-- Setting the tip touches no block and no network. -/
theorem retip_frame (C : Crypto) (s : ChainDB) (target : UInt64) :
    (retip C s target).db.blocksByHash = s.db.blocksByHash ∧
      (retip C s target).network = s.network := by
  unfold retip
  split
  · exact ⟨rfl, rfl⟩
  · exact ⟨rfl, rfl⟩

/-- A rollback keeps every stored block and the network. -/
theorem rollbackTo_frame (C : Crypto) (s : ChainDB) (target : UInt64) :
    (rollbackTo C s target).db.blocksByHash = s.db.blocksByHash ∧
      (rollbackTo C s target).network = s.network := by
  unfold rollbackTo
  split
  · exact ⟨rfl, rfl⟩
  · obtain ⟨hblocks, _, hnet⟩ := undoDown_frame C target (s.tip.height - target).toNat s
    obtain ⟨hblocks', hnet'⟩ :=
      retip_frame C (undoDown C target (s.tip.height - target).toNat s) target
    exact ⟨hblocks'.trans hblocks, hnet'.trans hnet⟩

theorem storedIn_rollbackTo (hs : StoredIn C H s) (target : UInt64) :
    StoredIn C H (rollbackTo C s target) := by
  intro k b hk
  rw [getBlock, (rollbackTo_frame C s target).1] at hk
  exact hs k b hk

/-! ## Sequences of operations -/

/-- What a caller may ask of the store. -/
inductive StoreOp where
  | commit (b : Block)
  | rollback (target : UInt64)

namespace StoreOp

/-- The state after an operation; a refused commit changes nothing. -/
def run (C : Crypto) (s : ChainDB) : StoreOp → ChainDB
  | commit b =>
    match commitBlock C s b with
    | .ok s' => s'
    | .error _ => s
  | rollback target => rollbackTo C s target

/-- The operation does not put a block of height `0` where it does not belong:
it may only commit the genesis block, and only while the chain has no other. -/
def KeepsGenesis (C : Crypto) (s : ChainDB) : StoreOp → Prop
  | commit b => b.height ≠ 0 ∨ s.tip.height = 0 ∧ b = Genesis.genesisBlock C s.network
  | rollback _ => True

end StoreOp

/-- Operations one after the other. -/
def runOps (C : Crypto) (s : ChainDB) (ops : List StoreOp) : ChainDB := ops.foldl (StoreOp.run C) s

/-- The headers in play: the genesis header and those handed to `commit_block`. -/
def InPlay (C : Crypto) (network : NetworkId) (ops : List StoreOp) (h : BlockHeader) : Prop :=
  h = (Genesis.genesisBlock C network).header ∨ ∃ b, StoreOp.commit b ∈ ops ∧ b.header = h

theorem runOps_snoc (s : ChainDB) (ops : List StoreOp) (op : StoreOp) :
    runOps C s (ops ++ [op]) = op.run C (runOps C s ops) := by
  rw [runOps, runOps, List.foldl_append]
  rfl

/-- A commit either leaves the state or adds its block. -/
theorem run_commit_cases (s : ChainDB) (b : Block) :
    ((StoreOp.commit b).run C s = s ∧ b.height ≠ 0) ∨
      ((b.height = 0 ∨ b.header.parentHash = s.tip.hash ∧ b.height = s.tip.height + 1) ∧
        (StoreOp.commit b).run C s = committed C s b) := by
  cases hc : commitBlock C s b with
  | ok s' =>
    obtain ⟨hlink, rfl⟩ := commitBlock_ok_iff.mp hc
    exact Or.inr ⟨hlink, by rw [StoreOp.run, hc]⟩
  | error e =>
    refine Or.inl ⟨by rw [StoreOp.run, hc], fun h0 => ?_⟩
    have hok : commitBlock C s b = .ok (committed C s b) :=
      commitBlock_ok_iff.mpr ⟨Or.inl h0, rfl⟩
    rw [hc] at hok
    cases hok

theorem storedIn_step (hs : StoredIn C H s) {op : StoreOp}
    (hop : ∀ b, op = .commit b → H b.header) : StoredIn C H (op.run C s) := by
  cases op with
  | commit b =>
    rcases run_commit_cases (C := C) s b with ⟨h, _⟩ | ⟨_, h⟩
    · rwa [h]
    · rw [h]
      exact storedIn_committed hs (hop b rfl)
  | rollback target => exact storedIn_rollbackTo hs target

/-- **One operation.** From a linked store, an operation leaves a linked store
exactly when it keeps the genesis block in its place. -/
theorem linked_step_iff (hs : Linked C s) (hst : StoredIn C H s) (hcf : CollisionFree C H)
    {op : StoreOp} (hop : ∀ b, op = .commit b → H b.header) :
    Linked C (op.run C s) ↔ op.KeepsGenesis C s := by
  cases op with
  | rollback target => exact ⟨fun _ => trivial, fun _ => linked_rollbackTo hs target⟩
  | commit b =>
    rcases run_commit_cases (C := C) s b with ⟨h, h0⟩ | ⟨hlink, h⟩
    · rw [h]
      exact ⟨fun _ => Or.inl h0, fun _ => hs⟩
    rw [h]
    constructor
    · intro hl
      refine or_iff_not_imp_left.mpr fun h0 => ?_
      have h0 : b.height = 0 := not_not.mp h0
      -- a block of height 0 is what the index then leads to
      have hb : (committed C s b).getBlockByHeight 0 = some b := by
        have hlook : (committed C s b).db.blockHeightToHash.lookup 0 = some (b.hash C) := by
          rw [committed_blockHeightToHash, h0, Finmap.lookup_insert]
        rw [getBlockByHeight_of_lookup hlook, committed_getBlock_self]
      refine ⟨?_, Option.some.inj (hb.symm.trans hl.genesis)⟩
      -- a chain of positive height keeps its entry at height 1 above the new tip
      refine Classical.byContradiction fun hpos => ?_
      have h1 : (1 : UInt64) ≤ s.tip.height := by
        have : s.tip.height.toNat ≠ 0 := fun e => hpos (UInt64.toNat_inj.mp e)
        rw [UInt64.le_iff_toNat_le, show (1 : UInt64).toNat = 1 from rfl]
        omega
      obtain ⟨b', hk, _, _⟩ := hs.block 1 h1
      have habove := hl.above 1 (by
        rw [committed_tip, commitTip, h0]
        exact (by decide : (0 : UInt64) < 1))
      rw [committed_blockHeightToHash, h0, Finmap.lookup_insert_of_ne _ (by decide), hk] at habove
      cases habove
    · intro h
      rcases h with h0 | ⟨htip, rfl⟩
      · obtain ⟨hpar, hh⟩ := hlink.resolve_left h0
        exact linked_committed hs hst hcf (hop b rfl) hh h0 hpar
      · exact linked_recommit_genesis hs htip

theorem inPlay_of_snoc {network : NetworkId} {ops pre : List StoreOp} {op : StoreOp}
    (hpre : pre ++ [op] <+: ops) (b : Block) (hb : op = .commit b) :
    InPlay C network ops b.header :=
  Or.inr ⟨b, hpre.subset (by simp [hb]), rfl⟩

theorem storedIn_runOps {network : NetworkId} {ops pre : List StoreOp} (hpre : pre <+: ops) :
    StoredIn C (InPlay C network ops) (runOps C (openNew C network) pre) := by
  refine forall_prefixes (P := fun pre => StoredIn C (InPlay C network ops)
    (runOps C (openNew C network) pre)) (storedIn_openNew network (Or.inl rfl)) ?_ pre hpre
  intro pre op hpre h
  rw [runOps_snoc]
  exact storedIn_step h (inPlay_of_snoc hpre)

/-- One more operation keeps the store linked exactly when it keeps the genesis
block in its place. -/
theorem linked_snoc_iff {network : NetworkId} {ops pre : List StoreOp} {op : StoreOp}
    (hcf : CollisionFree C (InPlay C network ops)) (hpre : pre ++ [op] <+: ops)
    (h : Linked C (runOps C (openNew C network) pre)) :
    Linked C (runOps C (openNew C network) (pre ++ [op])) ↔
      op.KeepsGenesis C (runOps C (openNew C network) pre) := by
  have hstored : StoredIn C (InPlay C network ops) (runOps C (openNew C network) pre) :=
    storedIn_runOps ((List.prefix_append pre [op]).trans hpre)
  rw [runOps_snoc]
  exact linked_step_iff h hstored hcf (inPlay_of_snoc hpre)

/-- Operations that keep the genesis block in its place keep the store linked. -/
theorem linked_runOps {network : NetworkId} {ops : List StoreOp}
    (hcf : CollisionFree C (InPlay C network ops))
    (hkeep : ∀ pre op, pre ++ [op] <+: ops →
      op.KeepsGenesis C (runOps C (openNew C network) pre)) :
    ∀ pre, pre <+: ops → Linked C (runOps C (openNew C network) pre) := by
  refine forall_prefixes (linked_openNew C network) ?_
  intro pre op hpre h
  exact (linked_snoc_iff hcf hpre h).mpr (hkeep pre op hpre)

/-- **Linkage of every reachable store.** Along any sequence of commits and
rollbacks on a new database, the store is a hash-linked chain from genesis to
its tip after every operation, exactly when no operation commits a block of
height `0` other than the genesis block on a chain of height `0`. -/
theorem linked_iff_keepsGenesis {network : NetworkId} {ops : List StoreOp}
    (hcf : CollisionFree C (InPlay C network ops)) :
    (∀ pre, pre <+: ops → Linked C (runOps C (openNew C network) pre)) ↔
      ∀ pre op, pre ++ [op] <+: ops → op.KeepsGenesis C (runOps C (openNew C network) pre) := by
  refine forall_prefixes_iff (linked_openNew C network) ?_
  intro pre op hpre h
  exact linked_snoc_iff hcf hpre h

/-- The devnet's genesis header and its first header have different hashes. -/
theorem devnet_collisionFree : CollisionFree devnetCrypto fun h =>
    h = (Genesis.genesisBlock devnetCrypto NetworkId.DEVNET).header ∨ h = devnetFirst.header :=
  collisionFree_pair (by decide +kernel)

theorem linked_iff_keepsGenesis_devnetFirst :
    Linked devnetCrypto (runOps devnetCrypto devnetOpen [.commit devnetFirst]) := by
  have hcf : CollisionFree devnetCrypto
      (InPlay devnetCrypto NetworkId.DEVNET [.commit devnetFirst]) := by
    refine devnet_collisionFree.mono fun h hh => hh.imp id ?_
    intro h
    obtain ⟨b, hb, rfl⟩ := h
    cases List.mem_singleton.mp hb
    rfl
  refine (linked_iff_keepsGenesis hcf).mpr (fun pre op hpre => ?_) _ (List.prefix_refl _)
  have hop : op ∈ [StoreOp.commit devnetFirst] := hpre.subset (by simp)
  rw [List.mem_singleton.mp hop]
  exact Or.inl (by decide +kernel)

/-- A block of height `0` that is not the genesis block. -/
def forgedGenesis (C : Crypto) (network : NetworkId) : Block :=
  ⟨{ (Genesis.genesisBlock C network).header with version := 2 }, []⟩

/-- Under no hash functions is every reachable store linked. -/
theorem linked_not_invariant :
    ¬ ∃ C : Crypto, ∀ (network : NetworkId) (ops : List StoreOp),
      Linked C (runOps C (openNew C network) ops) := by
  intro h
  obtain ⟨C, hC⟩ := h
  have hl := hC NetworkId.DEVNET [.commit (forgedGenesis C NetworkId.DEVNET)]
  have hrun : runOps C (openNew C NetworkId.DEVNET) [.commit (forgedGenesis C NetworkId.DEVNET)]
      = committed C (openNew C NetworkId.DEVNET) (forgedGenesis C NetworkId.DEVNET) := rfl
  rw [hrun] at hl
  have hlook : (committed C (openNew C NetworkId.DEVNET)
      (forgedGenesis C NetworkId.DEVNET)).db.blockHeightToHash.lookup 0
        = some ((forgedGenesis C NetworkId.DEVNET).hash C) := by
    rw [committed_blockHeightToHash]
    exact Finmap.lookup_insert _
  have hgen := hl.genesis
  rw [getBlockByHeight_of_lookup hlook, committed_getBlock_self] at hgen
  have htxs := congrArg Block.transactions (Option.some.inj hgen)
  exact absurd htxs (List.cons_ne_nil _ _).symm

end Pyrax.ChainDB
