import Pyrax.Sync.Chain
import Pyrax.Ledger.Grow
import Pyrax.Ledger.Extend

/-!
# The order in which blocks arrive

Blocks are downloaded in parallel and buffered by height, so that they can be
committed in order whatever the order of arrival. But `process_block` validates
a block against the tip of the moment, and `validate_chain_link` refuses every
block that is not the very next one. A block that comes early is dropped, its
header with it, and nothing asks for it again; the buffer never holds more than
the one block that is committed in the same call.

So the blocks of a chain are committed exactly as far as they arrive in order:
the database ends at the last block iff the chain is a subsequence of what
arrived (`deliver_tip_iff`), and for a permutation that is the chain's own order
(`synced_iff_inOrder`).
-/

namespace Pyrax.Sync

open Base ChainDB Validation Ledger

/-- The calls of `process_block`, one after the other. -/
def deliver (C : Crypto) (calls : List Arrival) (sync : ChainSync) : ChainSync :=
  calls.foldl (fun sync c => (sync.processBlock C c.now c.block).1) sync

/-- Nothing is left to do and the database stands at `tip`. -/
structure Synced (sync : ChainSync) (tip : ChainTip) : Prop where
  tip : sync.db.tip = tip
  headers : sync.pendingHeaders = []
  blocks : sync.pendingBlocks = ∅

variable {C : Crypto} {s s' : ChainDB} {as calls : List Arrival} {sync : ChainSync} {b : Block}
  {now : UInt64}

/-! ## One block -/

/-- With nothing buffered, a valid block is committed in the call that brings it. -/
theorem tryCommitBlocks_single (sync : ChainSync) (hv : BlockValid C now b sync.db)
    (h0 : b.height ≠ 0) (hblocks : sync.pendingBlocks = Finmap.insert b.height b ∅) :
    ∃ state, (sync.tryCommitBlocks C).1
      = { sync with db := committed C sync.db b, state := state, pendingBlocks := ∅ } := by
  have hlink := hv.link
  rw [if_neg h0] at hlink
  have hnext : sync.db.tip.height + UInt64.ofNat 0 + 1 = b.height := by
    rw [hlink.2]
    simp
  have herase : (Finmap.insert b.height b (∅ : Column UInt64 Block)).erase b.height = ∅ :=
    Finmap.ext_lookup fun h => by
      by_cases hh : h = b.height
      · rw [hh, Finmap.lookup_erase, Finmap.lookup_empty]
      · rw [Finmap.lookup_erase_ne hh, Finmap.lookup_insert_of_ne _ hh]
  have hcard : (Finmap.insert b.height b (∅ : Column UInt64 Block)).keys.card = 1 := rfl
  have hloop : sync.commitLoop C sync.db.tip.height (sync.pendingBlocks.keys.card + 1) 0
      = ({ sync with db := committed C sync.db b, pendingBlocks := ∅ }, .ok 1) := by
    rw [hblocks, hcard, ChainSync.commitLoop, hnext, hblocks, Finmap.lookup_insert]
    simp only [herase, commitBlock_of_valid hv, hlink.1, ne_eq, not_true_eq_false, if_false]
    rw [ChainSync.commitLoop]
    simp only [Finmap.lookup_empty]
  rw [ChainSync.tryCommitBlocks, hloop]
  exact ⟨_, rfl⟩

/-- What a call leaves when nothing was buffered: the block is committed if it is
valid now and dropped if not, its header forgotten either way. -/
theorem processBlock_spec (now : UInt64) [Decidable (BlockValid C now b sync.db)]
    (h0 : b.height ≠ 0) (hempty : sync.pendingBlocks = ∅) :
    (sync.processBlock C now b).1.db
        = (if BlockValid C now b sync.db then committed C sync.db b else sync.db) ∧
      (sync.processBlock C now b).1.pendingBlocks = ∅ ∧
      (sync.processBlock C now b).1.pendingHeaders
        = sync.pendingHeaders.filter fun t => t.hash ≠ b.hash C := by
  unfold ChainSync.processBlock
  simp only
  by_cases hv : BlockValid C now b sync.db
  · rw [validateBlock_ok_iff.mpr hv, if_pos hv]
    obtain ⟨state, hstate⟩ := tryCommitBlocks_single
      (ChainSync.forgetHeader
        (ChainSync.buffer { sync with downloading := sync.downloading.erase (b.hash C) } b)
        (b.hash C)) hv h0 (by
          show sync.pendingBlocks.insert b.height b = _
          rw [hempty])
    rw [hstate]
    exact ⟨rfl, rfl, rfl⟩
  · rw [if_neg hv]
    cases he : validateBlock C now b sync.db with
    | ok _ => exact absurd (validateBlock_ok_iff.mp he) hv
    | error e => exact ⟨rfl, hempty, rfl⟩

/-! ## The headers -/

/-- The queue only ever holds headers that were handed in. -/
theorem pendingHeaders_of_processHeaders (headers : List BlockHeader) :
    ∀ t ∈ ((ChainSync.new s).processHeaders C now headers).1.pendingHeaders,
      ∃ h ∈ headers, t.hash = h.hash C := by
  have hloop : ∀ (hs : List BlockHeader) (acc : List BlockDownloadTask × Nat),
      ∀ t ∈ (hs.foldl (ChainSync.addHeader C now (ChainSync.new s)) acc).1,
        t ∈ acc.1 ∨ ∃ h ∈ hs, t.hash = h.hash C := by
    intro hs
    induction hs with
    | nil => exact fun acc t ht => Or.inl ht
    | cons h hs ih =>
      intro acc t ht
      rcases ih _ t ht with hmem | ⟨h', hh', he⟩
      · -- one turn adds the header itself or nothing
        have hturn : t ∈ acc.1 ∨ t.hash = h.hash C := by
          unfold ChainSync.addHeader at hmem
          split at hmem
          · exact Or.inl hmem
          · split at hmem
            · exact Or.inl hmem
            · split at hmem
              · exact Or.inl hmem
              · split at hmem
                · exact Or.inl hmem
                · rcases List.mem_append.mp hmem with hm | hm
                  · exact Or.inl hm
                  · rw [List.mem_singleton.mp hm]
                    exact Or.inr rfl
        rcases hturn with hold | hnew
        · exact Or.inl hold
        · exact Or.inr ⟨h, List.mem_cons_self .., hnew⟩
      · exact Or.inr ⟨h', List.mem_cons_of_mem _ hh', he⟩
  intro t ht
  rcases hloop headers ([], 0) t ht with h | h
  · exact absurd h List.not_mem_nil
  · exact h

/-! ## All blocks -/

/-- Nothing stays buffered, and every header whose block came is forgotten. -/
theorem deliver_pending : ∀ (calls : List Arrival) (sync : ChainSync),
    (∀ c ∈ calls, c.block.height ≠ 0) → sync.pendingBlocks = ∅ →
      (deliver C calls sync).pendingBlocks = ∅ ∧
        (deliver C calls sync).pendingHeaders
          = sync.pendingHeaders.filter fun t => ∀ c ∈ calls, t.hash ≠ c.block.hash C := by
  classical
  intro calls
  induction calls with
  | nil =>
    intro sync _ hempty
    refine ⟨hempty, ?_⟩
    simp [deliver]
  | cons c calls ih =>
    intro sync h0 hempty
    obtain ⟨_, hblocks, hheaders⟩ := processBlock_spec (C := C) c.now
      (h0 c (List.mem_cons_self ..)) hempty
    obtain ⟨hb, hh⟩ := ih _ (fun c' hc' => h0 c' (List.mem_cons_of_mem _ hc')) hblocks
    refine ⟨hb, hh.trans ?_⟩
    rw [hheaders, List.filter_filter]
    refine List.filter_congr fun t _ => ?_
    simp [Bool.and_comm]

/-- The heights of a chain count up from the tip. -/
theorem heights_of_run (hrun : Run (Accepts C) s as s') (h0 : ∀ a ∈ as, a.block.height ≠ 0) :
    as.map (fun a => a.block.height.toNat) = List.range' (s.tip.height.toNat + 1) as.length ∧
      s'.tip.height.toNat = s.tip.height.toNat + as.length := by
  refine hrun.invariant_of (P := fun ls s₁ =>
    ls.map (fun a => a.block.height.toNat) = List.range' (s.tip.height.toNat + 1) ls.length ∧
      s₁.tip.height.toNat = s.tip.height.toNat + ls.length) h0 ?_ ⟨rfl, rfl⟩
  intro ls s₁ a s₂ h ha hstep
  obtain ⟨_, hh⟩ := extends_of_accepts hstep ha
  obtain ⟨_, rfl⟩ := accepts_iff.mp hstep
  have hnext : a.block.height.toNat = s.tip.height.toNat + ls.length + 1 := by
    rw [hh, succ_toNat (hh ▸ ha), h.2]
  constructor
  · rw [List.map_append, h.1, List.map_singleton, List.length_append, List.length_singleton,
      List.range'_1_concat, hnext]
    congr 2
    omega
  · rw [committed_tip, commitTip, List.length_append, List.length_singleton, hnext]
    omega

/-- Clocks enter validation through the timestamp only. -/
theorem valid_at {now' : UInt64} (hv : BlockValid C now b s)
    (hclock : b.header.timestamp ≤ now' + 7200) : BlockValid C now' b s :=
  { hv with clock := hclock }

/-- Only a block right above the tip is valid. -/
theorem height_of_valid (hv : BlockValid C now b s) (h0 : b.height ≠ 0) :
    b.height = s.tip.height + 1 := by
  have hlink := hv.link
  rw [if_neg h0] at hlink
  exact hlink.2

/-- **Delivery.** Blocks of one chain, arriving in any order and any number of
times, take the database to the end of a rest of that chain exactly when the
rest is a subsequence of what arrives. -/
theorem deliver_tip_iff (chain : List Block)
    (hinj : ∀ x ∈ chain, ∀ y ∈ chain, x.height = y.height → x = y)
    (hpos : ∀ x ∈ chain, x.height ≠ 0) :
    ∀ {calls rest : List Arrival} {sync : ChainSync} {s' : ChainDB},
      Run (Accepts C) sync.db rest s' → sync.pendingBlocks = ∅ →
      (∀ a ∈ rest, a.block ∈ chain) → (∀ c ∈ calls, c.block ∈ chain) →
      (∀ x ∈ chain, x.height.toNat ≤ s'.tip.height.toNat) →
      (∀ c ∈ calls, c.block.header.timestamp ≤ c.now + 7200) →
      ((deliver C calls sync).db.tip = s'.tip ↔
        (rest.map (·.block)).Sublist (calls.map (·.block))) := by
  classical
  intro calls
  induction calls with
  | nil =>
    intro rest sync s' hrun _ hrest _ _ _
    have hlen := (heights_of_run hrun fun a ha => hpos _ (hrest a ha)).2
    rw [List.map_nil, List.sublist_nil, List.map_eq_nil_iff]
    constructor
    · intro htip
      have htip' : sync.db.tip = s'.tip := htip
      rw [← htip'] at hlen
      exact List.length_eq_zero_iff.mp (by omega)
    · rintro rfl
      rw [hrun.of_nil]
      rfl
  | cons c calls ih =>
    intro rest sync s' hrun hempty hrest hcalls hmax hclock
    have hc := hcalls c (List.mem_cons_self ..)
    obtain ⟨hdb, hblocks, _⟩ := processBlock_spec (C := C) c.now (hpos _ hc) hempty
    have hcalls' := fun c' hc' => hcalls c' (List.mem_cons_of_mem _ hc')
    have hclock' := fun c' hc' => hclock c' (List.mem_cons_of_mem _ hc')
    show (deliver C calls (sync.processBlock C c.now c.block).1).db.tip = _ ↔ _
    rw [List.map_cons]
    cases rest with
    | nil =>
      -- already at the end: no block of the chain goes on top
      have hend : s' = sync.db := hrun.of_nil
      have hinvalid : ¬ BlockValid C c.now c.block sync.db := by
        intro hv
        have hheight := height_of_valid hv (hpos _ hc)
        have hle := hmax _ hc
        rw [hheight, succ_toNat (hheight ▸ hpos _ hc), hend] at hle
        omega
      rw [if_neg hinvalid] at hdb
      rw [ih (hdb ▸ hrun) hblocks hrest hcalls' hmax hclock']
      simp
    | cons a rest =>
      obtain ⟨s₁, hstep, hrun₁⟩ := hrun.of_cons
      have ha := hrest a (List.mem_cons_self ..)
      obtain ⟨_, hheight⟩ := extends_of_accepts hstep (hpos _ ha)
      obtain ⟨hv, hs₁⟩ := accepts_iff.mp hstep
      have hrest' := fun a' ha' => hrest a' (List.mem_cons_of_mem _ ha')
      rw [List.map_cons]
      by_cases hsame : c.block = a.block
      · -- the very next block
        have hvalid : BlockValid C c.now c.block sync.db :=
          valid_at (hsame ▸ hv) (hclock c (List.mem_cons_self ..))
        have hnext : (sync.processBlock C c.now c.block).1.db = s₁ := by
          rw [hdb, if_pos hvalid, hsame, hs₁]
        have hsub : (a.block :: rest.map (·.block)).Sublist (c.block :: calls.map (·.block)) ↔
            (rest.map (·.block)).Sublist (calls.map (·.block)) := by
          rw [hsame]
          exact List.cons_sublist_cons
        rw [hsub]
        exact ih (hnext ▸ hrun₁) hblocks hrest' hcalls' hmax hclock'
      · -- any other block of the chain has another height
        have hinvalid : ¬ BlockValid C c.now c.block sync.db := by
          intro hv'
          exact hsame (hinj _ hc _ ha ((height_of_valid hv' (hpos _ hc)).trans hheight.symm))
        rw [if_neg hinvalid] at hdb
        rw [ih (hdb ▸ hrun) hblocks hrest hcalls' hmax hclock', List.map_cons]
        constructor
        · exact fun h => h.cons _
        · intro h
          rcases List.sublist_cons_iff.mp h with h | ⟨r, hr, _⟩
          · exact h
          · exact absurd (List.cons.inj hr).1.symm hsame

/-- The database ends at the last block exactly when the chain is a subsequence
of what arrives. -/
theorem deliver_run_tip_iff (sync : ChainSync) (hrun : Run (Accepts C) s as s')
    (h0 : ∀ a ∈ as, a.block.height ≠ 0) (hdb : sync.db = s) (hempty : sync.pendingBlocks = ∅)
    (hcalls : ∀ c ∈ calls, c.block ∈ as.map (·.block))
    (hclock : ∀ c ∈ calls, c.block.header.timestamp ≤ c.now + 7200) :
    (deliver C calls sync).db.tip = s'.tip ↔
      (as.map (·.block)).Sublist (calls.map (·.block)) := by
  obtain ⟨hheights, htip⟩ := heights_of_run hrun h0
  have hmap : (as.map (·.block)).map (fun b => b.height.toNat)
      = List.range' (s.tip.height.toNat + 1) as.length := by
    rw [List.map_map]
    exact hheights
  have hnodup : ((as.map (·.block)).map fun b => b.height.toNat).Nodup :=
    hmap ▸ List.nodup_range'
  refine deliver_tip_iff (as.map (·.block)) ?_ ?_ (hdb ▸ hrun) hempty
    (fun a ha => List.mem_map_of_mem ha) hcalls ?_ hclock
  · intro x hx y hy hxy
    exact List.inj_on_of_nodup_map hnodup hx hy (congrArg UInt64.toNat hxy)
  · intro x hx
    obtain ⟨a, ha, rfl⟩ := List.mem_map.mp hx
    exact h0 a ha
  · intro x hx
    have hmem : x.height.toNat ∈ (as.map (·.block)).map fun b => b.height.toNat :=
      List.mem_map_of_mem hx
    rw [hmap, List.mem_range'_1] at hmem
    omega

/-- **Arrival order.** After the headers of a chain of valid blocks on top of the
tip were handed in, the calls of `process_block` with these blocks, in any order,
end with the last block as the tip and nothing pending exactly when the blocks
come in the order of the chain. -/
theorem synced_iff_inOrder (hrun : Run (Accepts C) s as s')
    (h0 : ∀ a ∈ as, a.block.height ≠ 0) (now : UInt64)
    (hperm : (calls.map (·.block)).Perm (as.map (·.block)))
    (hclock : ∀ c ∈ calls, c.block.header.timestamp ≤ c.now + 7200) :
    Synced (deliver C calls
        ((ChainSync.new s).processHeaders C now (as.map (·.block.header))).1) s'.tip ↔
      calls.map (·.block) = as.map (·.block) := by
  have hcalls : ∀ c ∈ calls, c.block ∈ as.map (·.block) := fun c hc =>
    hperm.subset (List.mem_map_of_mem hc)
  have htip := deliver_run_tip_iff
    ((ChainSync.new s).processHeaders C now (as.map (·.block.header))).1 hrun h0
    rfl rfl hcalls hclock
  have h0' : ∀ c ∈ calls, c.block.height ≠ 0 := by
    intro c hc
    obtain ⟨a, ha, he⟩ := List.mem_map.mp (hcalls c hc)
    exact he ▸ h0 a ha
  obtain ⟨hblocks, hheaders⟩ := deliver_pending (C := C) calls
    ((ChainSync.new s).processHeaders C now (as.map (·.block.header))).1 h0' rfl
  constructor
  · intro h
    -- a subsequence of the same length is the list itself
    exact (List.Sublist.eq_of_length (htip.mp h.tip) hperm.symm.length_eq).symm
  · intro h
    refine ⟨htip.mpr (h ▸ List.Sublist.refl _), ?_, hblocks⟩
    rw [hheaders, List.filter_eq_nil_iff]
    intro t ht hall
    -- a queued header belongs to a block of the chain, and all of these came
    obtain ⟨header, hheader, hhash⟩ := pendingHeaders_of_processHeaders _ t ht
    obtain ⟨a, ha, rfl⟩ := List.mem_map.mp hheader
    obtain ⟨c, hc, he⟩ := List.mem_map.mp (hperm.symm.subset (List.mem_map_of_mem ha))
    refine of_decide_eq_true hall c hc ?_
    rw [hhash]
    exact congrArg (Block.hash C) he.symm

/-! ## Two blocks -/

/-- A block after the devnet's plain first one, with a coinbase of its own. -/
def secondBlock (C : Crypto) : Block :=
  easyBlock C (committed C (openNew C NetworkId.DEVNET) (plainBlock C)) 1735689600
    [Transaction.coinbase 2 Stream.A.blockReward Address.ZERO]

def twoArrivals (C : Crypto) : List Arrival :=
  [⟨1735689600, plainBlock C⟩, ⟨1735689600, secondBlock C⟩]

theorem run_twoArrivals (C : Crypto) : Run (Accepts C) (openNew C NetworkId.DEVNET)
    (twoArrivals C) (committed C (committed C (openNew C NetworkId.DEVNET) (plainBlock C))
      (secondBlock C)) := by
  have hv₁ : BlockValid C 1735689600 (plainBlock C) (openNew C NetworkId.DEVNET) :=
    easyBlock_valid_openNew C NetworkId.DEVNET (coinbaseValid_coinbase (UInt64.le_refl _))
      (by decide +kernel)
  have hv₂ : BlockValid C 1735689600 (secondBlock C)
      (committed C (openNew C NetworkId.DEVNET) (plainBlock C)) := by
    refine easyBlock_valid (bodyValid_coinbase (coinbaseValid_coinbase (UInt64.le_refl _)))
      (by decide +kernel) (by decide : 1 ≤ 5000) (by decide : (0 : UInt64) + 1 + 1 ≠ 0)
      (by decide) ?_
    intro p hp
    rw [committed_getBlock_tip] at hp
    rw [← Option.some.inj hp]
    exact UInt64.le_refl _
  exact Run.snoc (Run.single (accepts_iff.mpr ⟨hv₁, rfl⟩)) (accepts_iff.mpr ⟨hv₂, rfl⟩)

theorem mem_twoArrivals {a : Arrival} (h : a ∈ twoArrivals C) :
    a.block.height ≠ 0 ∧ a.block.header.timestamp ≤ a.now + 7200 := by
  rcases List.mem_pair.mp h with rfl | rfl
  · exact ⟨(by decide : (0 : UInt64) + 1 ≠ 0),
      (by decide : (1735689600 : UInt64) ≤ 1735689600 + 7200)⟩
  · exact ⟨(by decide : (0 : UInt64) + 1 + 1 ≠ 0),
      (by decide : (1735689600 : UInt64) ≤ 1735689600 + 7200)⟩

/-- BLAKE3 of what the devnet's first blocks hash. -/
def twoCrypto : Crypto :=
  let first := 0x1cedbdd76bf57a9172931720e6c3d442a847f999e30fffdbb3471fdf49af5703
  let reward := 0xf756d1ea23a4265355fcf9547e3925dcd797e8c52fdd60a78a6602e59946d490
  Crypto.ofTable (devnetTable ++
    [((Transaction.coinbase 2 Stream.A.blockReward Address.ZERO).serialize, H256.ofNatBE reward),
     ((tableHeader first reward 2).preimage,
      H256.ofNatBE 0xa0f60c8abb68b36e98bfb3170229dbe2c84ca1c290894314c8f397234fe2c535)])

theorem synced_iff_inOrder_twoBlocks :
    Synced (deliver twoCrypto (twoArrivals twoCrypto)
      ((ChainSync.new (openNew twoCrypto NetworkId.DEVNET)).processHeaders twoCrypto 1735689600
        ((twoArrivals twoCrypto).map (·.block.header))).1)
      (committed twoCrypto (committed twoCrypto (openNew twoCrypto NetworkId.DEVNET)
        (plainBlock twoCrypto)) (secondBlock twoCrypto)).tip :=
  (synced_iff_inOrder (run_twoArrivals twoCrypto) (fun _ ha => (mem_twoArrivals ha).1) 1735689600
    (List.Perm.refl _) fun _ hc => (mem_twoArrivals hc).2).mpr rfl

/-- Under no hash functions is the order of arrival irrelevant. -/
theorem arrival_order_matters :
    ¬ ∃ C : Crypto, ∀ (s s' : ChainDB) (as calls : List Arrival) (now : UInt64),
      Run (Accepts C) s as s' → (∀ a ∈ as, a.block.height ≠ 0) →
      (calls.map (·.block)).Perm (as.map (·.block)) →
      (∀ c ∈ calls, c.block.header.timestamp ≤ c.now + 7200) →
      Synced (deliver C calls
        ((ChainSync.new s).processHeaders C now (as.map (·.block.header))).1) s'.tip := by
  intro h
  obtain ⟨C, hC⟩ := h
  have hrun := run_twoArrivals C
  have h0 : ∀ a ∈ twoArrivals C, a.block.height ≠ 0 := fun _ ha => (mem_twoArrivals ha).1
  have hswap : (twoArrivals C).reverse.Perm (twoArrivals C) := List.reverse_perm _
  have hclock : ∀ c ∈ (twoArrivals C).reverse, c.block.header.timestamp ≤ c.now + 7200 :=
    fun _ hc => (mem_twoArrivals (hswap.subset hc)).2
  have hsync := hC _ _ (twoArrivals C) (twoArrivals C).reverse 0 hrun h0 (hswap.map _) hclock
  have hsub := (deliver_run_tip_iff _ hrun h0 rfl rfl
    (fun c hc => List.mem_map_of_mem (hswap.subset hc)) hclock).mp hsync.tip
  -- the same two blocks in both lists, so the first ones would be equal
  have heq := List.Sublist.eq_of_length hsub (by rw [List.length_map, List.length_map,
    List.length_reverse])
  have hheight : (plainBlock C).height = (secondBlock C).height :=
    congrArg Block.height (List.cons.inj heq).1
  exact absurd hheight (by
    show (0 : UInt64) + 1 ≠ 0 + 1 + 1
    decide)

end Pyrax.Sync
