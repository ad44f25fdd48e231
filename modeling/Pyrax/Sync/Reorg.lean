import Pyrax.Sync.Chain
import Pyrax.Storage.Canonical

/-!
# Reorganisations

`ChainSync::handle_reorg` decides from one header whether to roll the chain back.
Three things can go wrong, and `reorgSafe_iff` says that nothing else can:

* a header with an unknown parent makes the fork point search fall back to the
  genesis block, so a claimed difficulty above our total undoes the whole chain,
  as long as that is no longer than the search looks (10000 blocks);
* a stored parent need not be on our chain: blocks stay stored when they are
  undone, and then the rollback goes to the wrong block at the right height;
* the header's proof of work is not looked at.

Where the header's parent is on our chain and its proof of work holds, the
rollback ends exactly there, and the new chain is the heavier one: the single
difficulty that was compared exceeds all of ours already.

`Ancestor` and `WorkOf` follow parent hashes through the stored blocks. On a
linked store the ancestors of the tip are the indexed blocks (`ancestor_tip_iff`).
-/

namespace Pyrax.Sync

open Base ChainDB

/-- `x` is `y` or one of its ancestors among the stored blocks. A block of
height `0` has no parent. -/
inductive Ancestor (s : ChainDB) (x : H256) : H256 → Prop where
  | self : Ancestor s x x
  | parent {y : H256} {b : Block} : s.getBlock y = some b → b.height ≠ 0 →
      Ancestor s x b.header.parentHash → Ancestor s x y

/-- The exact total difficulty of the chain that ends in a stored block. -/
inductive WorkOf (s : ChainDB) : H256 → Nat → Prop where
  | root {y : H256} {b : Block} : s.getBlock y = some b → b.height = 0 →
      WorkOf s y b.header.difficulty.toNat
  | link {y : H256} {b : Block} {w : Nat} : s.getBlock y = some b → b.height ≠ 0 →
      WorkOf s b.header.parentHash w → WorkOf s y (w + b.header.difficulty.toNat)

/-- What a call of `handle_reorg` promises: a rollback ends in a common ancestor
and makes room for a heavier chain, and a header without a known parent or
without its work changes nothing. -/
structure ReorgSafe (C : Crypto) (sync : ChainSync) (h : BlockHeader) : Prop where
  rolledBack : ∀ old new removed,
    (sync.handleReorg C h).2 = .ok (.rolledBack old new removed) →
      ∃ f, ChainSync.findForkPoint C sync.db sync.db.tip.hash h.parentHash = .ok f ∧
        Ancestor sync.db f.hash sync.db.tip.hash ∧ Ancestor sync.db f.hash h.parentHash ∧
        (sync.handleReorg C h).1.db.tip.hash = f.hash ∧
        ∃ ours theirs, WorkOf sync.db sync.db.tip.hash ours ∧
          WorkOf sync.db h.parentHash theirs ∧ ours < theirs + h.difficulty.toNat
  refused : sync.db.hasBlock h.parentHash = false ∨ h.verifyPow C = false →
    (sync.handleReorg C h).1.db = sync.db

/-- The headers for which it keeps that promise: those that claim too little,
those whose parent is not below the tip, those with their work done on top of a
block of our chain, and, where the search gives up or has nothing to undo, those
with an unknown parent. -/
def ReorgHarmless (C : Crypto) (s : ChainDB) (h : BlockHeader) : Prop :=
  h.difficulty ≤ s.tip.totalDifficulty ∨
    (∃ p, s.getBlock h.parentHash = some p ∧ (s.tip.height ≤ p.height ∨
      s.db.blockHeightToHash.lookup p.height = some h.parentHash ∧ h.verifyPow C = true)) ∨
    s.getBlock h.parentHash = none ∧
      (s.tip.height = 0 ∨ ChainSync.MAX_ITERATIONS < s.tip.height.toNat)

variable {C : Crypto} {s : ChainDB} {sync : ChainSync} {h : BlockHeader} {top : UInt64}

/-! ## The canonical chain by parent hashes -/

/-- The block under an indexed hash has the height it is indexed at. -/
theorem block_of_lookup (hs : IndexedTo C s top) {k : UInt64} (hk : k ≤ top) {x : H256}
    (hx : s.db.blockHeightToHash.lookup k = some x) :
    ∃ b, s.getBlock x = some b ∧ b.height = k := by
  obtain ⟨b, hlook, hb, hh⟩ := hs.block k hk
  rw [hlook] at hx
  obtain rfl := Option.some.inj hx
  exact ⟨b, hb, hh⟩

/-- One step down the index is the parent. -/
theorem parent_of_lookup (hs : IndexedTo C s top) {k : UInt64} (hk : k ≤ top) (h0 : k ≠ 0)
    {x : H256} (hx : s.db.blockHeightToHash.lookup k = some x) :
    ∃ b, s.getBlock x = some b ∧ b.height = k ∧ k - 1 ≤ top ∧
      s.db.blockHeightToHash.lookup (k - 1) = some b.header.parentHash := by
  obtain ⟨b, hb, hh⟩ := block_of_lookup hs hk hx
  have h1 : 1 ≤ k := by
    have hne : k.toNat ≠ 0 := fun e => h0 (UInt64.toNat_inj.mp e)
    rw [UInt64.le_iff_toNat_le, show (1 : UInt64).toNat = 1 from rfl]
    omega
  have hpred : k - 1 ≤ top := by
    rw [UInt64.le_iff_toNat_le] at hk ⊢
    rw [pred_toNat h0]
    omega
  exact ⟨b, hb, hh, hpred, hs.parent k b h1 hk ((getBlockByHeight_of_lookup hx).trans hb)⟩

/-- Ancestors of an indexed block are indexed. -/
theorem indexed_of_ancestor (hs : IndexedTo C s top) {x y : H256} (hanc : Ancestor s x y) :
    ∀ {k : UInt64}, k ≤ top → s.db.blockHeightToHash.lookup k = some y →
      ∃ j ≤ top, s.db.blockHeightToHash.lookup j = some x := by
  induction hanc with
  | self => exact fun hk hy => ⟨_, hk, hy⟩
  | parent hb h0 _ ih =>
    intro k hk hy
    have hk0 : k ≠ 0 := by
      obtain ⟨b', hb', hh⟩ := block_of_lookup hs hk hy
      rw [hb] at hb'
      exact hh ▸ Option.some.inj hb' ▸ h0
    obtain ⟨b', hb', _, hpred, hpar⟩ := parent_of_lookup hs hk hk0 hy
    rw [hb] at hb'
    exact ih hpred (Option.some.inj hb' ▸ hpar)

/-- An indexed block is an ancestor of every indexed block above it. -/
theorem ancestor_of_indexed (hs : IndexedTo C s top) {j : UInt64} {x : H256}
    (hx : s.db.blockHeightToHash.lookup j = some x) :
    ∀ (n : Nat) {k : UInt64} {y : H256}, k ≤ top → k.toNat = j.toNat + n →
      s.db.blockHeightToHash.lookup k = some y → Ancestor s x y
  | 0, k, y, _, hkj, hy => by
    obtain rfl : k = j := UInt64.toNat_inj.mp hkj
    rw [hx] at hy
    cases hy
    exact Ancestor.self
  | n + 1, k, y, hk, hkj, hy => by
    have h0 : k ≠ 0 := by
      rintro rfl
      rw [UInt64.toNat_zero] at hkj
      omega
    obtain ⟨b, hb, hh, hpred, hpar⟩ := parent_of_lookup hs hk h0 hy
    refine Ancestor.parent hb (hh ▸ h0) (ancestor_of_indexed hs hx n hpred ?_ hpar)
    rw [pred_toNat h0]
    omega

/-- The ancestors of the tip are the indexed blocks. -/
theorem ancestor_tip_iff (hs : Linked C s) {x : H256} :
    Ancestor s x s.tip.hash ↔
      ∃ j ≤ s.tip.height, s.db.blockHeightToHash.lookup j = some x := by
  constructor
  · exact fun hanc => indexed_of_ancestor hs.toIndexedTo hanc (UInt64.le_refl _) hs.tip
  · intro hj
    obtain ⟨j, hj, hx⟩ := hj
    have hle := UInt64.le_iff_toNat_le.mp hj
    exact ancestor_of_indexed hs.toIndexedTo hx (s.tip.height.toNat - j.toNat)
      (UInt64.le_refl _) (by omega) hs.tip

/-- The work of an indexed block is the sum up to its height. -/
theorem workOf_of_indexed (hs : IndexedTo C s top) :
    ∀ (n : Nat) {k : UInt64} {y : H256}, k ≤ top → k.toNat = n →
      s.db.blockHeightToHash.lookup k = some y →
        WorkOf s y
          (((List.range (n + 1)).filterMap s.blockAt).map (·.header.difficulty.toNat)).sum := by
  intro n
  induction n with
  | zero =>
    intro k y hk hkn hy
    obtain rfl : k = 0 := UInt64.toNat_inj.mp hkn
    obtain ⟨b, hb, hh⟩ := block_of_lookup hs hk hy
    have hat : s.blockAt 0 = some b := (getBlockByHeight_of_lookup hy).trans hb
    rw [Nat.zero_add, List.range_one, List.filterMap_cons_some hat, List.filterMap_nil,
      List.map_singleton, List.sum_singleton]
    exact WorkOf.root hb hh
  | succ n ih =>
    intro k y hk hkn hy
    have h0 : k ≠ 0 := by
      rintro rfl
      rw [UInt64.toNat_zero] at hkn
      omega
    obtain ⟨b, hb, hh, hpred, hpar⟩ := parent_of_lookup hs hk h0 hy
    have hprev := ih hpred (by rw [pred_toNat h0]; omega) hpar
    have hat : s.blockAt (n + 1) = some b := by
      rw [blockAt, ← hkn, UInt64.ofNat_toNat]
      exact (getBlockByHeight_of_lookup hy).trans hb
    rw [List.range_succ, List.filterMap_append, List.map_append, List.sum_append,
      List.filterMap_cons_some hat, List.filterMap_nil, List.map_singleton, List.sum_singleton]
    exact WorkOf.link hb (hh ▸ h0) hprev

theorem workOf_tip (hs : Linked C s) : WorkOf s s.tip.hash (chainWork s) :=
  workOf_of_indexed hs.toIndexedTo s.tip.height.toNat (UInt64.le_refl _) rfl hs.tip

/-! ## Where a rollback ends -/

/-- The undo loop leaves the index alone up to its target. -/
theorem undoDown_lookup (target : UInt64) : ∀ (n : Nat) {s : ChainDB} {top : UInt64},
    IndexedTo C s top → top.toNat = target.toNat + n → ∀ k ≤ target,
      (undoDown C target n s).db.blockHeightToHash.lookup k = s.db.blockHeightToHash.lookup k
  | 0, _, _, _, _, _, _ => rfl
  | n + 1, s, top, hs, htop, k, hk => by
    have hne : top ≠ 0 := by
      rintro rfl
      rw [UInt64.toNat_zero] at htop
      omega
    obtain ⟨b, hb, hh, _⟩ := hs.getBlockByHeight (UInt64.le_refl top)
    rw [undoDown, add_ofNat_eq htop, hb]
    have hrest := undoDown_lookup target n (indexedTo_undoBlock hs hne hb) (by
      rw [pred_toNat hne]
      omega) k hk
    refine hrest.trans ?_
    rw [undoBlock_blockHeightToHash, hh, Finmap.lookup_erase_ne]
    rintro rfl
    have := UInt64.le_iff_toNat_le.mp hk
    omega

/-- Rolling back below the tip ends at the block indexed at the target. -/
theorem rollbackTo_tip (hs : Linked C s) {target : UInt64} (hlt : ¬ s.tip.height ≤ target)
    {x : H256} (hx : s.db.blockHeightToHash.lookup target = some x) :
    (rollbackTo C s target).tip.height = target ∧ (rollbackTo C s target).tip.hash = x := by
  have htop := sub_toNat_of_not_le hlt
  have hidx := indexedTo_undoDown (C := C) target _ hs.toIndexedTo htop
  have hkeep := undoDown_lookup (C := C) target _ hs.toIndexedTo htop target (UInt64.le_refl _)
  obtain ⟨b, hb, _, hlook⟩ := hidx.getBlockByHeight (UInt64.le_refl target)
  rw [hlook, hx] at hkeep
  rw [rollbackTo, if_neg hlt, retip_of_some hb]
  exact ⟨rfl, Option.some.inj hkeep⟩

/-! ## The fork point search -/

/-- A stored parent is taken for the fork point, wherever it stands. -/
theorem findForkPoint_stored (hs : Linked C s) {x : H256} {p : Block}
    (hp : s.getBlock x = some p) :
    ChainSync.findForkPoint C s s.tip.hash x = .ok ⟨p.height, x, p.header.difficulty⟩ := by
  obtain ⟨b, hb, _⟩ := block_of_lookup hs.toIndexedTo (UInt64.le_refl _) hs.tip
  have hhas : s.hasBlock x = true := by
    rw [hasBlock]
    exact Option.isSome_iff_exists.mpr ⟨p, hp⟩
  rw [ChainSync.findForkPoint, hb]
  show ChainSync.forkPointLoop C s x (9999 + 1) b.height = _
  rw [ChainSync.forkPointLoop, if_pos hhas, hp]

/-- For an unknown parent the loop walks down our chain and ends at genesis, if
its fuel lasts. -/
theorem forkPointLoop_unknown (hs : IndexedTo C s top) {x : H256} (hx : s.hasBlock x = false) :
    ∀ (fuel : Nat) {k : UInt64}, k ≤ top →
      ChainSync.forkPointLoop C s x fuel k
        = if k.toNat ≤ fuel ∧ 0 < fuel then
            .ok ⟨0, (Genesis.genesisBlock C s.network).hash C,
              (Genesis.genesisBlock C s.network).header.difficulty⟩
          else .error .forkPointNotFound
  | 0, k, _ => by rw [ChainSync.forkPointLoop, if_neg (fun hc => absurd hc.2 (Nat.lt_irrefl 0))]
  | fuel + 1, k, hk => by
    have hhas : ¬ s.hasBlock x = true := by rw [hx]; exact Bool.false_ne_true
    rw [ChainSync.forkPointLoop, if_neg hhas]
    by_cases h0 : k = 0
    · have hstay :
          (if 0 < k ∧ (s.getBlockByHeight (k - 1)).isSome = true then k - 1 else k) = 0 := by
        rw [h0]
        exact if_neg fun hc => UInt64.lt_irrefl 0 hc.1
      rw [hstay, if_pos rfl, hs.genesis, h0, if_pos ⟨Nat.zero_le _, Nat.succ_pos _⟩]
    · have hne : k.toNat ≠ 0 := fun e => h0 (UInt64.toNat_inj.mp e)
      have hpred : k - 1 ≤ top := by
        rw [UInt64.le_iff_toNat_le] at hk ⊢
        rw [pred_toNat h0]
        omega
      obtain ⟨b, hb, _, _⟩ := hs.getBlockByHeight hpred
      have hstep : 0 < k ∧ (s.getBlockByHeight (k - 1)).isSome = true :=
        ⟨UInt64.pos_iff_ne_zero.mpr h0, by rw [hb]; rfl⟩
      rw [if_pos hstep]
      by_cases h1 : k - 1 = 0
      · -- the last step down
        have hk1 := congrArg UInt64.toNat h1
        rw [pred_toNat h0, UInt64.toNat_zero] at hk1
        rw [if_pos h1, hs.genesis, if_pos ⟨by omega, Nat.succ_pos _⟩]
      · have hne1 : (k - 1).toNat ≠ 0 := fun e => h1 (UInt64.toNat_inj.mp e)
        rw [pred_toNat h0] at hne1
        rw [if_neg h1, forkPointLoop_unknown hs hx fuel hpred, pred_toNat h0]
        refine if_congr ?_ rfl rfl
        omega

theorem hasBlock_of_none {x : H256} (hx : s.getBlock x = none) : s.hasBlock x = false := by
  have hx' : s.db.blocksByHash.lookup x = none := hx
  rw [hasBlock, hx']
  rfl

theorem findForkPoint_unknown (hs : Linked C s) {x : H256} (hx : s.getBlock x = none) :
    ChainSync.findForkPoint C s s.tip.hash x
      = if s.tip.height.toNat ≤ ChainSync.MAX_ITERATIONS then
          .ok ⟨0, (Genesis.genesisBlock C s.network).hash C,
            (Genesis.genesisBlock C s.network).header.difficulty⟩
        else .error .forkPointNotFound := by
  obtain ⟨b, hb, hh⟩ := block_of_lookup hs.toIndexedTo (UInt64.le_refl _) hs.tip
  have hhas := hasBlock_of_none hx
  rw [ChainSync.findForkPoint, hb]
  simp only
  rw [hh, forkPointLoop_unknown hs.toIndexedTo hhas _ (UInt64.le_refl _)]
  refine if_congr ?_ rfl rfl
  exact and_iff_left (by decide : 0 < 10000)

/-! ## The call -/

/-- A fork point at or above the tip leaves everything alone. -/
theorem handleReorg_notBelow (sync : ChainSync) {f : ChainTip}
    (hd : ¬ h.difficulty ≤ sync.db.tip.totalDifficulty)
    (hf : ChainSync.findForkPoint C sync.db sync.db.tip.hash h.parentHash = .ok f)
    (hle : sync.db.tip.height ≤ f.height) :
    sync.handleReorg C h = (sync, .ok .notNeeded) := by
  rw [ChainSync.handleReorg, if_neg hd, hf]
  simp only
  rw [if_pos hle]

/-- A fork point below it is rolled back to. -/
theorem handleReorg_below (sync : ChainSync) {f : ChainTip}
    (hd : ¬ h.difficulty ≤ sync.db.tip.totalDifficulty)
    (hf : ChainSync.findForkPoint C sync.db sync.db.tip.hash h.parentHash = .ok f)
    (hlt : ¬ sync.db.tip.height ≤ f.height) :
    sync.handleReorg C h
      = ({ sync with db := rollbackTo C sync.db f.height, state := .idle },
          .ok (.rolledBack sync.db.tip.height f.height
            (sync.db.tip.height - f.height).toNat)) := by
  rw [ChainSync.handleReorg, if_neg hd, hf]
  simp only
  rw [if_neg hlt]

/-- A call that changes nothing and reports no rollback keeps the promise. -/
theorem reorgSafe_of_unchanged {r : Except SyncError ReorgResult}
    (hcall : sync.handleReorg C h = (sync, r))
    (hres : ∀ old new removed, r ≠ .ok (.rolledBack old new removed)) : ReorgSafe C sync h := by
  refine ⟨?_, ?_⟩
  · intro old new removed hr
    rw [hcall] at hr
    exact absurd hr (hres old new removed)
  · intro _
    rw [hcall]

/-- A call that rolls back keeps it exactly when the parent is indexed at the
height that is rolled back to, and the header's work is done. -/
theorem reorgSafe_below_iff (hs : Linked C sync.db) (hw : WorkExact sync.db)
    (hwork : chainWork sync.db < 2 ^ 64)
    (hd : ¬ h.difficulty ≤ sync.db.tip.totalDifficulty) {p : Block}
    (hp : sync.db.getBlock h.parentHash = some p) (hlt : ¬ sync.db.tip.height ≤ p.height) :
    ReorgSafe C sync h ↔
      sync.db.db.blockHeightToHash.lookup p.height = some h.parentHash ∧
        h.verifyPow C = true := by
  have hf := findForkPoint_stored hs hp
  have hcall := handleReorg_below sync hd hf hlt
  have hple : p.height ≤ sync.db.tip.height := UInt64.le_of_lt (UInt64.not_le.mp hlt)
  obtain ⟨b, hlook, _, _⟩ := hs.block p.height hple
  have hnewTip := rollbackTo_tip hs hlt hlook
  constructor
  · intro hsafe
    constructor
    · obtain ⟨f, hf', hanc, _⟩ := hsafe.rolledBack _ _ _ (congrArg Prod.snd hcall)
      rw [hf] at hf'
      rw [← Except.ok.inj hf'] at hanc
      -- the parent is an ancestor of the tip, so it is indexed, at its own height
      obtain ⟨j, hj, hx⟩ := (ancestor_tip_iff hs).mp hanc
      obtain ⟨p', hp', hh⟩ := block_of_lookup hs.toIndexedTo hj hx
      have hsame : p' = p := Option.some.inj (hp'.symm.trans hp)
      rw [← hsame, hh]
      exact hx
    · by_contra hpow
      have hdb := hsafe.refused (Or.inr (Bool.eq_false_iff.mpr hpow))
      rw [hcall] at hdb
      have hdb' : rollbackTo C sync.db p.height = sync.db := hdb
      rw [hdb'] at hnewTip
      exact hlt (hnewTip.1 ▸ UInt64.le_refl _)
  · intro hgood
    obtain ⟨hcanon, hpow⟩ := hgood
    refine ⟨?_, ?_⟩
    · intro old new removed _
      refine ⟨_, hf, (ancestor_tip_iff hs).mpr ⟨p.height, hple, hcanon⟩, Ancestor.self, ?_, ?_⟩
      · rw [hcall]
        exact (rollbackTo_tip hs hlt hcanon).2
      · refine ⟨_, _, workOf_tip hs,
          workOf_of_indexed hs.toIndexedTo _ hple rfl hcanon, ?_⟩
        have hd' := UInt64.lt_iff_toNat_lt.mp (UInt64.not_le.mp hd)
        rw [hw hwork] at hd'
        omega
    · intro hbad
      rcases hbad with hunknown | hnopow
      · have hhas : sync.db.hasBlock h.parentHash = true :=
          Option.isSome_iff_exists.mpr ⟨p, hp⟩
        rw [hhas] at hunknown
        cases hunknown
      · rw [hpow] at hnopow
        cases hnopow

/-- With an unknown parent the whole chain is undone, unless there is nothing to
undo or the search gives up before. -/
theorem reorgSafe_unknown_iff (hs : Linked C sync.db)
    (hd : ¬ h.difficulty ≤ sync.db.tip.totalDifficulty)
    (hp : sync.db.getBlock h.parentHash = none) :
    ReorgSafe C sync h ↔
      sync.db.tip.height = 0 ∨ ChainSync.MAX_ITERATIONS < sync.db.tip.height.toNat := by
  have hf := findForkPoint_unknown hs hp
  by_cases hfar : sync.db.tip.height.toNat ≤ ChainSync.MAX_ITERATIONS
  · rw [if_pos hfar] at hf
    by_cases h0 : sync.db.tip.height ≤ 0
    · -- there is nothing above genesis
      have hcall := handleReorg_notBelow sync hd hf h0
      refine iff_of_true (reorgSafe_of_unchanged hcall ?_)
        (Or.inl (UInt64.le_antisymm h0 (zero_le _)))
      simp
    · -- the whole chain is undone
      have hcall := handleReorg_below sync hd hf h0
      refine iff_of_false ?_ ?_
      · intro hsafe
        have hdb := hsafe.refused (Or.inl (hasBlock_of_none hp))
        rw [hcall] at hdb
        have hdb' : rollbackTo C sync.db 0 = sync.db := hdb
        obtain ⟨g, hlook, _, _⟩ := hs.block 0 (zero_le _)
        have hnewTip := rollbackTo_tip hs h0 hlook
        rw [hdb'] at hnewTip
        exact h0 (hnewTip.1 ▸ UInt64.le_refl _)
      · intro hgood
        rcases hgood with hz | hmax
        · exact h0 (hz ▸ UInt64.le_refl _)
        · exact absurd hfar (Nat.not_le.mpr hmax)
  · -- the search gives up
    rw [if_neg hfar] at hf
    have hcall : sync.handleReorg C h = (sync, .error .forkPointNotFound) := by
      rw [ChainSync.handleReorg, if_neg hd, hf]
    refine iff_of_true (reorgSafe_of_unchanged hcall ?_) (Or.inr (Nat.not_le.mp hfar))
    simp

/-- **One call** on a linked store whose total difficulty is exact. -/
theorem reorgSafe_iff_of_linked (hs : Linked C sync.db) (hw : WorkExact sync.db)
    (hwork : chainWork sync.db < 2 ^ 64) :
    ReorgSafe C sync h ↔ ReorgHarmless C sync.db h := by
  by_cases hd : h.difficulty ≤ sync.db.tip.totalDifficulty
  · -- the header claims too little
    have hcall : sync.handleReorg C h = (sync, .ok .notNeeded) := by
      rw [ChainSync.handleReorg, if_pos hd]
    refine iff_of_true (reorgSafe_of_unchanged hcall ?_) (Or.inl hd)
    simp
  · have hdrop : ReorgHarmless C sync.db h ↔ _ := or_iff_right hd
    rw [hdrop]
    cases hp : sync.db.getBlock h.parentHash with
    | some p =>
      by_cases hle : sync.db.tip.height ≤ p.height
      · -- a block on top of the tip, or above it
        have hcall := handleReorg_notBelow sync hd (findForkPoint_stored hs hp) hle
        refine iff_of_true (reorgSafe_of_unchanged hcall ?_) (Or.inl ⟨p, rfl, Or.inl hle⟩)
        simp
      · rw [reorgSafe_below_iff hs hw hwork hd hp hle]
        constructor
        · exact fun hgood => Or.inl ⟨p, rfl, Or.inr hgood⟩
        · intro hgood
          rcases hgood with ⟨p', hp', hgood⟩ | ⟨hnone, _⟩
          · cases hp'
            exact hgood.resolve_left hle
          · cases hnone
    | none =>
      rw [reorgSafe_unknown_iff hs hd hp]
      simp

/-- **Reorganisations.** On every database reached by commits of blocks of
positive height and rollbacks, with the work of its chain below `2 ^ 64`, a call
of `handle_reorg` keeps its promise exactly for the harmless headers. -/
theorem reorgSafe_iff {network : NetworkId} {ops : List StoreOp}
    (hcf : CollisionFree C (InPlay C network ops)) (hpos : PositiveHeights ops)
    (hdb : sync.db = runOps C (openNew C network) ops) (hwork : chainWork sync.db < 2 ^ 64)
    (h : BlockHeader) : ReorgSafe C sync h ↔ ReorgHarmless C sync.db h := by
  refine reorgSafe_iff_of_linked ?_ ?_ hwork
  · rw [hdb]
    exact linked_runOps hcf hpos.keepsGenesis ops (List.prefix_refl _)
  · rw [hdb]
    exact workExact_runOps hcf hpos ops (List.prefix_refl _)

/-! ## A devnet with one block -/

/-- The devnet after its plain first block. -/
def firstDB (C : Crypto) : ChainDB :=
  runOps C (openNew C NetworkId.DEVNET) [.commit (plainBlock C)]

section First

variable (C)

theorem plainBlock_height : (plainBlock C).height = 1 := rfl

theorem firstDB_eq : firstDB C = committed C (openNew C NetworkId.DEVNET) (plainBlock C) := by
  have hok : commitBlock C (openNew C NetworkId.DEVNET) (plainBlock C)
      = .ok (committed C (openNew C NetworkId.DEVNET) (plainBlock C)) :=
    commitBlock_ok_iff.mpr ⟨Or.inr ⟨rfl, rfl⟩, rfl⟩
  show (StoreOp.commit (plainBlock C)).run C (openNew C NetworkId.DEVNET) = _
  rw [StoreOp.run, hok]

theorem first_positiveHeights : PositiveHeights [.commit (plainBlock C)] := by
  intro b hb
  cases List.mem_singleton.mp hb
  rw [plainBlock_height]
  decide

theorem first_linked
    (hcf : CollisionFree C (InPlay C NetworkId.DEVNET [.commit (plainBlock C)])) :
    Linked C (firstDB C) ∧ WorkExact (firstDB C) :=
  ⟨linked_runOps hcf (first_positiveHeights C).keepsGenesis _ (List.prefix_refl _),
    workExact_runOps hcf (first_positiveHeights C) _ (List.prefix_refl _)⟩

theorem first_chainWork
    (hcf : CollisionFree C (InPlay C NetworkId.DEVNET [.commit (plainBlock C)])) :
    chainWork (firstDB C) = 2 := by
  rw [chainWork, firstDB_eq, canonicalBlocks_committed (linked_openNew _ _)
    (storedIn_openNew _ (Or.inl rfl)) hcf
    (Or.inr ⟨plainBlock C, List.mem_singleton_self _, rfl⟩) rfl
    (by rw [plainBlock_height]; decide), canonicalBlocks_openNew]
  rfl

theorem first_tip : (firstDB C).tip.height = 1 ∧ (firstDB C).tip.totalDifficulty = 2 := by
  rw [firstDB_eq]
  exact ⟨rfl, rfl⟩

/-- The genesis block is still stored and indexed. -/
theorem first_genesis
    (hne : (Genesis.genesisBlock C NetworkId.DEVNET).hash C ≠ (plainBlock C).hash C) :
    (firstDB C).getBlock ((Genesis.genesisBlock C NetworkId.DEVNET).hash C)
        = some (Genesis.genesisBlock C NetworkId.DEVNET) ∧
      (firstDB C).db.blockHeightToHash.lookup 0
        = some ((Genesis.genesisBlock C NetworkId.DEVNET).hash C) := by
  rw [firstDB_eq]
  constructor
  · rw [committed_getBlock_of_ne hne, getBlock, openNew_blocksByHash]
    exact Finmap.lookup_insert _
  · rw [committed_blockHeightToHash, plainBlock_height,
      Finmap.lookup_insert_of_ne _ (by decide : (0 : UInt64) ≠ 1), openNew_blockHeightToHash]
    exact Finmap.lookup_insert _

theorem first_unknown {x : H256} (hfirst : x ≠ (plainBlock C).hash C)
    (hgenesis : x ≠ (Genesis.genesisBlock C NetworkId.DEVNET).hash C) :
    (firstDB C).getBlock x = none := by
  rw [firstDB_eq, committed_getBlock_of_ne hfirst, getBlock, openNew_blocksByHash,
    Finmap.lookup_insert_of_ne _ hgenesis, Finmap.lookup_empty]

end First

/-- A header of difficulty `3` on top of the devnet's genesis block. -/
def rivalHeader : BlockHeader where
  version := 1
  stream := 0
  parentHash := H256.ofNatBE 0xfb9b0e3a9e57f1325309d251f117712de619335d9a09b6ec3190835df84995fa
  merkleRoot := H256.ofNatBE 0x5bf506fefb08836645f6566b13943fa5a602b051e0ac6654055a329a43bb14e4
  utxoCommitment := H256.zero
  timestamp := 1735689600
  difficulty := 3
  nonce := 2
  extraNonce := 0
  height := 1
  beneficiary := Address.ZERO

/-- The devnet's digests and that of the rival header. -/
def rivalCrypto : Crypto :=
  Crypto.ofTable (devnetTable ++ [(rivalHeader.preimage,
    H256.ofNatBE 0x0a505bf0074f7ac9e6890beaf7796e18f3a88e58476d66511611fdbb89b79fe7)])

theorem rival_collisionFree : CollisionFree rivalCrypto
    (InPlay rivalCrypto NetworkId.DEVNET [.commit (plainBlock rivalCrypto)]) := by
  have hpair : CollisionFree rivalCrypto fun h =>
      h = (Genesis.genesisBlock rivalCrypto NetworkId.DEVNET).header ∨
        h = (plainBlock rivalCrypto).header :=
    collisionFree_pair (by decide +kernel)
  refine hpair.mono fun h hh => hh.imp id ?_
  intro h
  obtain ⟨b, hb, rfl⟩ := h
  cases List.mem_singleton.mp hb
  rfl

theorem rival_chainWork_lt : chainWork (firstDB rivalCrypto) < 2 ^ 64 := by
  rw [first_chainWork _ rival_collisionFree]
  decide

theorem reorgSafe_iff_rival :
    ReorgSafe rivalCrypto (ChainSync.new (firstDB rivalCrypto)) rivalHeader := by
  have hiff : ReorgSafe rivalCrypto (ChainSync.new (firstDB rivalCrypto)) rivalHeader ↔
      ReorgHarmless rivalCrypto (ChainSync.new (firstDB rivalCrypto)).db rivalHeader :=
    reorgSafe_iff rival_collisionFree (first_positiveHeights rivalCrypto)
      (by rw [ChainSync.new_db, firstDB])
      (by rw [ChainSync.new_db]; exact rival_chainWork_lt) rivalHeader
  rw [ChainSync.new_db] at hiff
  -- the parent is the genesis block, still indexed at height 0
  have hparent : rivalHeader.parentHash
      = (Genesis.genesisBlock rivalCrypto NetworkId.DEVNET).hash rivalCrypto := by decide +kernel
  have hgenesis := first_genesis rivalCrypto (by decide +kernel)
  rw [← hparent] at hgenesis
  exact hiff.mpr (Or.inr (Or.inl ⟨_, hgenesis.1, Or.inr ⟨hgenesis.2, by decide +kernel⟩⟩))

/-- The rival header with a parent nobody has seen. -/
def strayHeader : BlockHeader := { rivalHeader with parentHash := H256.zero }

/-- One header with an unknown parent undoes the whole chain. -/
theorem reorg_not_safe :
    ¬ ∀ (ops : List StoreOp) (h : BlockHeader),
      ReorgSafe rivalCrypto
        (ChainSync.new (runOps rivalCrypto (openNew rivalCrypto NetworkId.DEVNET) ops)) h := by
  intro hall
  have hsafe : ReorgSafe rivalCrypto (ChainSync.new (firstDB rivalCrypto)) strayHeader :=
    hall [.commit (plainBlock rivalCrypto)] strayHeader
  have hnone : (firstDB rivalCrypto).getBlock strayHeader.parentHash = none :=
    first_unknown rivalCrypto (by decide +kernel) (by decide +kernel)
  have hlinked := first_linked rivalCrypto rival_collisionFree
  have hwork := rival_chainWork_lt
  rw [← ChainSync.new_db (firstDB rivalCrypto)] at hlinked hwork
  have hharmless := (reorgSafe_iff_of_linked hlinked.1 hlinked.2 hwork).mp hsafe
  rw [ChainSync.new_db] at hharmless
  have htip := first_tip rivalCrypto
  rcases hharmless with hd | ⟨p, hp, _⟩ | ⟨_, h0 | hmax⟩
  · rw [htip.2] at hd
    exact absurd hd (by decide : ¬ (3 : UInt64) ≤ 2)
  · rw [hnone] at hp
    cases hp
  · rw [htip.1] at h0
    exact absurd h0 (by decide)
  · rw [htip.1] at hmax
    exact absurd hmax (by decide : ¬ 10000 < 1)

end Pyrax.Sync
