import Pyrax.Sync.Chain
import Pyrax.Ledger.Grow
import Pyrax.Ledger.Extend

/-!
# The total difficulty along accepted blocks

Fork choice goes by `tip.total_difficulty`, which `commit_block` accumulates with
wrap-around while `calculate_total_difficulty` sums the indexed blocks and
saturates. The two agree, and every block adds to them, exactly as long as no
accepted block has height `0` or difficulty `0` and the exact sum of the
difficulties fits in a `u64` (`difficultyReal_iff`).

Difficulty is the author's choice, and `0` is the cheapest: its target is the
largest hash, so such a block needs no work, extends the chain and adds nothing.
Fork choice then falls through to the comparison of hashes.

The argument is one number: along such a run the tip's total difficulty is
`runWork`, the genesis difficulty plus the difficulties of the run, as exact
numbers (`tip_toNat_of_run`).
-/

namespace Pyrax.Sync

open Base ChainDB Validation Ledger

/-- What is promised of the total difficulty along a run of accepted blocks. -/
structure DifficultyReal (C : Crypto) (s₀ : ChainDB) (as : List Arrival) : Prop where
  real : ∀ pre s, pre <+: as → Run (Accepts C) s₀ pre s →
    s.tip.totalDifficulty = s.calculateTotalDifficulty s.tip.height
  grows : Throughout (Accepts C) s₀ as fun s₁ _ s₂ =>
    s₁.tip.totalDifficulty < s₂.tip.totalDifficulty
  preferred : ∀ pre mid s₁ s₂, pre ++ mid <+: as → mid ≠ [] → Run (Accepts C) s₀ pre s₁ →
    Run (Accepts C) s₁ mid s₂ → forkChoice s₂.tip s₁.tip = .A ∧ forkChoice s₁.tip s₂.tip = .B

/-- The exact work of a new chain with the blocks of `as` on top. -/
def runWork (C : Crypto) (network : NetworkId) (as : List Arrival) : Nat :=
  (Genesis.genesisBlock C network).header.difficulty.toNat +
    (as.map fun a => a.block.header.difficulty.toNat).sum

/-- Every block counts, and the sum fits in a `u64`. -/
structure WorkCounts (C : Crypto) (network : NetworkId) (as : List Arrival) : Prop where
  height : ∀ a ∈ as, a.block.height ≠ 0
  difficulty : ∀ a ∈ as, a.block.header.difficulty ≠ 0
  fits : runWork C network as < 2 ^ 64

variable {C : Crypto} {network : NetworkId} {as pre mid : List Arrival} {s : ChainDB}

/-! ## Fork choice -/

theorem forkChoice_of_lt {a b : ChainTip} (h : a.totalDifficulty < b.totalDifficulty) :
    forkChoice b a = .A ∧ forkChoice a b = .B := by
  constructor
  · rw [forkChoice, if_pos h]
  · rw [forkChoice, if_neg (UInt64.lt_asymm h), if_pos h]

/-! ## The work of a run -/

theorem runWork_append (as bs : List Arrival) :
    runWork C network (as ++ bs)
      = runWork C network as + (bs.map fun a => a.block.header.difficulty.toNat).sum := by
  rw [runWork, runWork, List.map_append, List.sum_append, Nat.add_assoc]

/-- The genesis block counts on every network. -/
theorem runWork_pos (C : Crypto) (network : NetworkId) (as : List Arrival) :
    0 < runWork C network as := by
  have hg : (Genesis.genesisBlock C network).header.difficulty ≠ 0 := by
    show (Genesis.genesisParams network).2.1 ≠ 0
    unfold Genesis.genesisParams
    split
    · decide
    · split
      · decide
      · decide
  have hpos : (Genesis.genesisBlock C network).header.difficulty.toNat ≠ 0 := fun e =>
    hg (UInt64.toNat_inj.mp e)
  unfold runWork
  omega

theorem WorkCounts.prefixed (h : WorkCounts C network as) (hpre : pre <+: as) :
    WorkCounts C network pre where
  height a ha := h.height a (hpre.subset ha)
  difficulty a ha := h.difficulty a (hpre.subset ha)
  fits := by
    obtain ⟨rest, rfl⟩ := hpre
    have hfits := h.fits
    rw [runWork_append] at hfits
    omega

/-- Blocks that count have a positive sum. -/
theorem WorkCounts.sum_pos (h : WorkCounts C network (pre ++ mid)) (hne : mid ≠ []) :
    0 < (mid.map fun a => a.block.header.difficulty.toNat).sum := by
  cases mid with
  | nil => exact absurd rfl hne
  | cons a mid =>
    have ha : a.block.header.difficulty ≠ 0 := h.difficulty a (by simp)
    have hpos : a.block.header.difficulty.toNat ≠ 0 := fun e => ha (UInt64.toNat_inj.mp e)
    rw [List.map_cons, List.sum_cons]
    omega

theorem collisionFree_prefixed (hcf : CollisionFree C (RunHeaders C network as))
    (hpre : pre <+: as) : CollisionFree C (RunHeaders C network pre) := by
  refine hcf.mono fun x hx => hx.imp id ?_
  intro h
  obtain ⟨a, ha, hax⟩ := h
  exact ⟨a, hpre.subset ha, hax⟩

/-- Along blocks of positive height the chain grows and the tip's total stays the
exact work, as long as that fits. -/
theorem workExact_of_run (hrun : Run (Accepts C) (openNew C network) as s)
    (h0 : ∀ a ∈ as, a.block.height ≠ 0) (hcf : CollisionFree C (RunHeaders C network as)) :
    WorkExact s := by
  have hgrown : Grown C (RunHeaders C network as) (openNew C network) as s ∧ WorkExact s := by
    refine hrun.invariant_of
      (P := fun ls s => Grown C (RunHeaders C network as) (openNew C network) ls s ∧ WorkExact s)
      (Q := fun a => a.block.height ≠ 0 ∧ RunHeaders C network as a.block.header)
      (fun a ha => ⟨h0 a ha, Or.inr ⟨a, ha, rfl⟩⟩) ?_
      ⟨Grown.refl (linked_openNew C network) (storedIn_openNew network (Or.inl rfl)),
        workExact_openNew C network⟩
    intro ls s₁ a s₂ h ha hstep
    obtain ⟨hg, hw⟩ := h
    refine ⟨hg.snoc hcf hstep ha.1 ha.2, ?_⟩
    obtain ⟨_, hh⟩ := extends_of_accepts hstep ha.1
    obtain ⟨_, rfl⟩ := accepts_iff.mp hstep
    exact workExact_committed hg.linked hg.stored hcf ha.2 hh ha.1 hw
  exact hgrown.2

theorem chainWork_of_run (hrun : Run (Accepts C) (openNew C network) as s)
    (h0 : ∀ a ∈ as, a.block.height ≠ 0) (hcf : CollisionFree C (RunHeaders C network as)) :
    chainWork s = runWork C network as := by
  rw [chainWork, canonicalBlocks_run hrun h0 hcf, List.map_cons, List.sum_cons, List.map_map]
  rfl

/-- **The tip's total difficulty is the exact work of the run.** -/
theorem tip_toNat_of_run (hrun : Run (Accepts C) (openNew C network) as s)
    (hcf : CollisionFree C (RunHeaders C network as)) (hw : WorkCounts C network as) :
    s.tip.totalDifficulty.toNat = runWork C network as := by
  have hwork := chainWork_of_run hrun hw.height hcf
  rw [← hwork]
  exact workExact_of_run hrun hw.height hcf (hwork ▸ hw.fits)

/-! ## When every block counts -/

/-- A longer chain has the higher total difficulty. -/
theorem tip_lt_of_runs {s₁ s₂ : ChainDB} (hcf : CollisionFree C (RunHeaders C network as))
    (hw : WorkCounts C network as) (hpre : pre ++ mid <+: as) (hne : mid ≠ [])
    (hrun₁ : Run (Accepts C) (openNew C network) pre s₁) (hrun₂ : Run (Accepts C) s₁ mid s₂) :
    s₁.tip.totalDifficulty < s₂.tip.totalDifficulty := by
  have hpre₁ := (List.prefix_append pre mid).trans hpre
  have hw₂ := hw.prefixed hpre
  rw [UInt64.lt_iff_toNat_lt,
    tip_toNat_of_run hrun₁ (collisionFree_prefixed hcf hpre₁) (hw.prefixed hpre₁),
    tip_toNat_of_run (hrun₁.append hrun₂) (collisionFree_prefixed hcf hpre) hw₂, runWork_append]
  have hpos := hw₂.sum_pos hne
  omega

theorem difficultyReal_of_workCounts (hcf : CollisionFree C (RunHeaders C network as))
    (hw : WorkCounts C network as) : DifficultyReal C (openNew C network) as where
  real pre s hpre hrun := by
    refine UInt64.toNat_inj.mp ?_
    have hwp := hw.prefixed hpre
    have hcfp := collisionFree_prefixed hcf hpre
    rw [calculateTotalDifficulty_toNat, chainWork_of_run hrun hwp.height hcfp,
      tip_toNat_of_run hrun hcfp hwp]
    exact (Nat.min_eq_left (Nat.le_pred_of_lt hwp.fits)).symm
  grows ls₁ a ls₂ s₁ s₂ hls hrun hstep := by
    have hpre : ls₁ ++ [a] <+: as := ⟨ls₂, by rw [hls, List.append_assoc]; rfl⟩
    exact tip_lt_of_runs hcf hw hpre (List.cons_ne_nil a []) hrun (Run.single hstep)
  preferred pre mid s₁ s₂ hpre hne hrun₁ hrun₂ :=
    forkChoice_of_lt (tip_lt_of_runs hcf hw hpre hne hrun₁ hrun₂)

/-! ## When the promise is kept -/

theorem DifficultyReal.prefixed {s₀ : ChainDB} (h : DifficultyReal C s₀ as) (hpre : pre <+: as) :
    DifficultyReal C s₀ pre where
  real pre' s hpre' := h.real pre' s (hpre'.trans hpre)
  grows ls₁ a ls₂ s₁ s₂ hls := by
    obtain ⟨rest, rfl⟩ := hpre
    exact h.grows ls₁ a (ls₂ ++ rest) s₁ s₂ (by rw [hls, List.append_assoc]; rfl)
  preferred pre' mid s₁ s₂ hpre' := h.preferred pre' mid s₁ s₂ (hpre'.trans hpre)

/-- A machine sum that is larger than its first part did not wrap. -/
theorem add_lt_of_lt {a b : UInt64} (h : a < a + b) : b ≠ 0 ∧ a.toNat + b.toNat < 2 ^ 64 := by
  rw [UInt64.lt_iff_toNat_lt, UInt64.toNat_add] at h
  have ha := a.toNat_lt
  have hb := b.toNat_lt
  constructor
  · intro h0
    rw [h0, UInt64.toNat_zero] at h
    omega
  · omega

/-- A committed block of height `0` is all the recomputed sum sees. -/
theorem calculateTotalDifficulty_committed_zero (s : ChainDB) {b : Block} (h0 : b.height = 0) :
    (committed C s b).calculateTotalDifficulty (committed C s b).tip.height
      = b.header.difficulty := by
  have hb : (committed C s b).getBlockByHeight 0 = some b := by
    have hlook : (committed C s b).db.blockHeightToHash.lookup 0 = some (b.hash C) := by
      rw [committed_blockHeightToHash, h0, Finmap.lookup_insert]
    rw [getBlockByHeight_of_lookup hlook, committed_getBlock_self]
  refine UInt64.toNat_inj.mp ?_
  have hblocks : canonicalBlocks (committed C s b) = [b] := by
    rw [canonicalBlocks, committed_tip, commitTip, h0]
    exact List.filterMap_cons_some (l := []) hb
  have hlt := b.header.difficulty.toNat_lt
  rw [calculateTotalDifficulty_toNat, chainWork, hblocks, List.map_singleton, List.sum_singleton]
  omega

theorem workCounts_of_difficultyReal :
    ∀ {as : List Arrival} {s : ChainDB}, Run (Accepts C) (openNew C network) as s →
      CollisionFree C (RunHeaders C network as) → DifficultyReal C (openNew C network) as →
        WorkCounts C network as := by
  intro as
  induction as using List.reverseRecOn with
  | nil =>
    intro s _ _ _
    exact ⟨fun _ h => absurd h List.not_mem_nil, fun _ h => absurd h List.not_mem_nil,
      UInt64.toNat_lt _⟩
  | append_singleton as a ih =>
    intro s hrun hcf hreal
    obtain ⟨s₁, hrun₁, hstep⟩ := hrun.of_snoc
    have hpre := List.prefix_append as [a]
    have hcf₁ := collisionFree_prefixed hcf hpre
    have hw := ih hrun₁ hcf₁ (hreal.prefixed hpre)
    have htip := tip_toNat_of_run hrun₁ hcf₁ hw
    have hlast := hreal.grows.last hrun₁ hstep
    have hsum := hreal.real _ s (List.prefix_refl _) hrun
    obtain ⟨_, rfl⟩ := accepts_iff.mp hstep
    obtain ⟨hd, hfits⟩ := add_lt_of_lt (a := s₁.tip.totalDifficulty) hlast
    -- at height 0 the recomputed sum would not see the work before
    have h0 : a.block.height ≠ 0 := by
      intro h0
      rw [calculateTotalDifficulty_committed_zero s₁ h0, committed_tip, commitTip] at hsum
      have hnat := congrArg UInt64.toNat hsum
      have hpos := runWork_pos C network as
      rw [UInt64.toNat_add, htip] at hnat
      omega
    refine ⟨?_, ?_, ?_⟩
    · intro x hx
      rcases List.mem_append.mp hx with hx | hx
      · exact hw.height x hx
      · rw [List.mem_singleton.mp hx]
        exact h0
    · intro x hx
      rcases List.mem_append.mp hx with hx | hx
      · exact hw.difficulty x hx
      · rw [List.mem_singleton.mp hx]
        exact hd
    · rw [runWork_append, List.map_singleton, List.sum_singleton]
      omega

/-- **Total difficulty.** Along a run of accepted blocks on a new database the
tip's total difficulty is the recomputed one in every state, every block makes
it larger and fork choice prefers every chain to its prefixes, exactly when no
block of the run has height `0` or difficulty `0` and the exact sum of the
difficulties is below `2 ^ 64`. -/
theorem difficultyReal_iff (hrun : Run (Accepts C) (openNew C network) as s)
    (hcf : CollisionFree C (RunHeaders C network as)) :
    DifficultyReal C (openNew C network) as ↔ WorkCounts C network as :=
  ⟨workCounts_of_difficultyReal hrun hcf, difficultyReal_of_workCounts hcf⟩

theorem difficultyReal_iff_devnetFirst :
    DifficultyReal devnetCrypto devnetOpen [⟨1735689600, devnetFirst⟩] := by
  have hrun : Run (Accepts devnetCrypto) (openNew devnetCrypto NetworkId.DEVNET)
      [⟨1735689600, devnetFirst⟩] (committed devnetCrypto devnetOpen devnetFirst) :=
    Run.single (accepts_iff.mpr ⟨devnetFirst_valid, rfl⟩)
  have hcf : CollisionFree devnetCrypto
      (RunHeaders devnetCrypto NetworkId.DEVNET [⟨1735689600, devnetFirst⟩]) := by
    refine devnet_collisionFree.mono fun h hh => hh.imp id ?_
    intro h
    obtain ⟨a, ha, rfl⟩ := h
    rw [List.mem_singleton.mp ha]
  refine (difficultyReal_iff hrun hcf).mpr ⟨?_, ?_, ?_⟩
  · intro a ha
    rw [List.mem_singleton.mp ha]
    exact (by decide : (0 : UInt64) + 1 ≠ 0)
  · intro a ha
    rw [List.mem_singleton.mp ha]
    exact (by decide : (1 : UInt64) ≠ 0)
  · exact (by decide : 1 + (1 + 0) < 2 ^ 64)

/-! ## A block that adds nothing -/

/-- The block with its difficulty set to `0`. -/
def withoutWork (b : Block) : Block := ⟨{ b.header with difficulty := 0 }, b.transactions⟩

/-- The validator asks no more of it than of the block itself. -/
theorem withoutWork_valid {now : UInt64} {b : Block} (hv : BlockValid C now b s) :
    BlockValid C now (withoutWork b) s where
  size := by
    have hsize := hv.size
    rw [Block.serialize_length] at hsize ⊢
    exact hsize
  count := hv.count
  nonempty := hv.nonempty
  pow := BlockHeader.verifyPow_of_difficulty_zero rfl
  link := hv.link
  merkle := hv.merkle
  clock := hv.clock
  parentTime := hv.parentTime
  body := hv.body

/-- Under no hash functions does every run keep the promise. -/
theorem difficulty_not_monotone :
    ¬ ∃ C : Crypto, ∀ (network : NetworkId) (as : List Arrival) (s : ChainDB),
      Run (Accepts C) (openNew C network) as s → DifficultyReal C (openNew C network) as := by
  intro h
  obtain ⟨C, hC⟩ := h
  let b := withoutWork (easyBlock C (openNew C NetworkId.DEVNET) 1735689600 [devnetCoinbase])
  have hv : BlockValid C 1735689600 b (openNew C NetworkId.DEVNET) :=
    withoutWork_valid (easyBlock_valid_openNew C NetworkId.DEVNET
      (coinbaseValid_coinbase (UInt64.le_refl _)) (by decide +kernel))
  have hstep : Accepts C (openNew C NetworkId.DEVNET) ⟨1735689600, b⟩
      (committed C (openNew C NetworkId.DEVNET) b) := accepts_iff.mpr ⟨hv, rfl⟩
  have hreal := hC NetworkId.DEVNET [⟨1735689600, b⟩] _ (Run.single hstep)
  have hlt := hreal.grows [] ⟨1735689600, b⟩ [] _ _ rfl (Run.nil _) hstep
  exact (add_lt_of_lt (b := 0) hlt).1 rfl

end Pyrax.Sync
