import Pyrax.Rollup.Conservation
import Pyrax.Base.Checks

/-!
# What stands behind a finalized withdrawal

The life of a withdrawal on the bridge of `zkrollup/bridge.rs`: pending, proven,
ready, finalized, or challenged on the way. `Justified` is what a finalized
withdrawal should have behind it: an accepted proof that names it and the
bridge's own tree, a challenge period after it and no challenge in it.

Of the links only the merkle path is checked, and only within the proof itself:
neither `submit_withdrawal_proof` nor `WithdrawalProof::verify` compares anything
in the proof with the withdrawal or with the tree. `justified_of_links` shows
that the rest of the protocol holds; so a run is sound as soon as the proofs it
accepts are linked, as those of `generate_withdrawal_proof` are
(`generateWithdrawalProof_links`).
-/

namespace Pyrax.Rollup

open Base

/-- The proof names the withdrawal and the tree of the bridge. -/
structure WithdrawalProof.Links (C : Crypto) (b : L2Bridge) (w : Withdrawal)
    (p : WithdrawalProof) : Prop where
  hash : p.withdrawalHash = w.hash C
  leaf : p.merkleProof.leaf = w.hash C
  root : p.merkleProof.root = rootOf C b.withdrawalTree

/-! ## Honest proofs -/

section Honest

variable {C : Crypto}

theorem nextLevel_length : ∀ level : List H256, (nextLevel C level).length = (level.length + 1) / 2
  | [] => rfl
  | [_] => by simp [nextLevel]
  | _ :: _ :: rest => by
    rw [nextLevel, List.length_cons, nextLevel_length rest, List.length_cons, List.length_cons]
    omega

/-- A node of the next level is the hash of the two below it. -/
theorem nextLevel_getD : ∀ (level : List H256) (i : Nat), i < (nextLevel C level).length →
    (nextLevel C level).getD i H256.zero
      = hashPair C (level.getD (2 * i) H256.zero) (level.getD (2 * i + 1) H256.zero)
  | [], i, h => absurd h (Nat.not_lt_zero i)
  | [left], i, h => by
    have hi : i = 0 := by
      rw [nextLevel_length] at h
      simp at h
      omega
    subst hi
    rfl
  | left :: right :: rest, 0, _ => rfl
  | left :: right :: rest, i + 1, h => by
    have hlt : i < (nextLevel C rest).length := by
      simpa [nextLevel] using h
    have ih := nextLevel_getD rest i hlt
    rw [nextLevel, List.getD_cons_succ, ih]
    rfl

/-- The loop ends at the root of the level it started from. -/
theorem merklePath_root : ∀ (fuel idx : Nat) (level : List H256),
    (L2Bridge.merklePath C fuel idx level).2.2 = climbLevels C fuel level
  | 0, _, _ => rfl
  | fuel + 1, idx, level => by
    rw [L2Bridge.merklePath, climbLevels]
    split
    · exact merklePath_root fuel (idx / 2) (nextLevel C level)
    · rfl

/-- Climbing the siblings from a node of a level leads to its root. -/
theorem climb_merklePath : ∀ (fuel idx : Nat) (level : List H256), idx < level.length →
    level.length ≤ fuel + 1 →
    MerkleProof.climb C (level.getD idx H256.zero) (L2Bridge.merklePath C fuel idx level).1
        (L2Bridge.merklePath C fuel idx level).2.1
      = (climbLevels C fuel level).headD H256.zero
  | 0, idx, level, hidx, hfuel => by
    have hi : idx = 0 := by omega
    subst hi
    cases level with
    | nil => rfl
    | cons node rest => rfl
  | fuel + 1, idx, level, hidx, hfuel => by
    rw [L2Bridge.merklePath, climbLevels]
    split
    · next hlen =>
      have hlt : idx / 2 < (nextLevel C level).length := by
        rw [nextLevel_length]
        omega
      have ih := climb_merklePath fuel (idx / 2) (nextLevel C level) hlt (by
        rw [nextLevel_length]
        omega)
      have hbelow := nextLevel_getD level _ hlt
      rw [← ih, hbelow]
      -- the node is the left or the right one of its pair
      by_cases hright : idx % 2 = 1
      · have hl : 2 * (idx / 2) = idx - 1 := by omega
        have hr : 2 * (idx / 2) + 1 = idx := by omega
        rw [hr, hl]
        simp [MerkleProof.climb, hright]
      · have hl : 2 * (idx / 2) = idx := by omega
        rw [hl]
        simp [MerkleProof.climb, hright]
    · next hlen =>
      have hi : idx = 0 := by omega
      subst hi
      cases level with
      | nil => rfl
      | cons node rest => rfl

/-- A proof the bridge generates for a pending withdrawal is linked to it. -/
theorem generateWithdrawalProof_links {b : L2Bridge} {id : H256} {w : Withdrawal}
    {batchNumber : UInt64} {batchProof : List UInt8} {p : WithdrawalProof}
    (hlookup : b.pendingWithdrawals.lookup id = some w)
    (h : b.generateWithdrawalProof C id batchNumber batchProof = .ok p) : p.Links C b w := by
  rw [L2Bridge.generateWithdrawalProof, hlookup] at h
  obtain ⟨m, hm, hp⟩ := bind_eq_ok.mp h
  cases hp
  rw [L2Bridge.generateMerkleProof] at hm
  split at hm
  · cases hm
  · cases hm
    refine ⟨rfl, rfl, ?_⟩
    rw [rootOf]
    exact congrArg (List.headD · H256.zero) (merklePath_root _ _ _)

/-- And it verifies, if there is a batch proof at all. -/
theorem generateWithdrawalProof_verify {b : L2Bridge} {id : H256} {batchNumber : UInt64}
    {batchProof : List UInt8} {p : WithdrawalProof} (hbatch : batchProof ≠ [])
    (h : b.generateWithdrawalProof C id batchNumber batchProof = .ok p) :
    p.verify C = true := by
  rw [L2Bridge.generateWithdrawalProof] at h
  split at h
  · cases h
  · next w hlookup =>
    obtain ⟨m, hm, hp⟩ := bind_eq_ok.mp h
    cases hp
    rw [L2Bridge.generateMerkleProof] at hm
    split at hm
    · cases hm
    · next index hfind =>
      cases hm
      obtain ⟨hlt, hat, _⟩ := List.findIdx?_eq_some_iff_getElem.mp hfind
      have hnode : b.withdrawalTree.getD index H256.zero = w.hash C := by
        rw [List.getD_eq_getElem?_getD, List.getElem?_eq_getElem hlt]
        exact eq_of_beq hat
      have hclimb := climb_merklePath (C := C) b.withdrawalTree.length index b.withdrawalTree hlt
        (Nat.le_succ _)
      rw [hnode, ← merklePath_root _ index] at hclimb
      rw [WithdrawalProof.verify, MerkleProof.verify, if_neg, if_neg]
      · exact hbatch ∘ List.isEmpty_iff.mp
      · exact fun hne => Bool.false_ne_true (hne.symm.trans (beq_iff_eq.mpr hclimb))

end Honest

/-! ## The history of a withdrawal -/

namespace BridgeOp

/-- The clock reading a call compares a withdrawal's period with. -/
def reads (id : H256) : BridgeOp → Option UInt64
  | updateReadyWithdrawals now => some (now id)
  | finalizeWithdrawal now _ id' _ => if id' = id then some now else none
  | _ => none

/-- An accepted proof is linked to its withdrawal, and its period ends within the
clock's range. -/
def LinksProof (C : Crypto) (b : L2Bridge) : BridgeOp → Prop
  | op@(submitWithdrawalProof now id proof) => op.Enabled C b →
      (∀ w, b.pendingWithdrawals.lookup id = some w → proof.Links C b w) ∧
        now.toNat + WITHDRAWAL_CHALLENGE_PERIOD.toNat < 2 ^ 64
  | _ => True

end BridgeOp

section History

variable (C : Crypto) (P : Platform) (b₀ : L2Bridge)

/-- After the calls `ops₁` the proof was accepted for the withdrawal `w` and linked
to it, and none of the calls `ops₂` after it was a successful challenge. -/
structure ProvenAt (ops₁ : List BridgeOp) (now : UInt64) (id : H256) (proof : WithdrawalProof)
    (ops₂ : List BridgeOp) (w : Withdrawal) : Prop where
  accepted : ∃ w₁, (runBridge C P b₀ ops₁).pendingWithdrawals.lookup id = some w₁ ∧
    w₁.status = .pending ∧ w₁.asInitiated = w.asInitiated
  verified : proof.verify C = true
  links : proof.Links C (runBridge C P b₀ ops₁) w
  unchallenged : ∀ mid fraudProof, mid ++ [.challengeWithdrawal id fraudProof] <+: ops₂ →
    ¬ (BridgeOp.challengeWithdrawal id fraudProof).Enabled C
      (runBridge C P b₀ (ops₁ ++ .submitWithdrawalProof now id proof :: mid))

/-- Some call of `ops` saw the challenge period of a proof from `start` over. -/
def PeriodPassed (start : UInt64) (id : H256) (ops : List BridgeOp) : Prop :=
  ∃ op ∈ ops, ∃ now, op.reads id = some now ∧
    start.toNat + WITHDRAWAL_CHALLENGE_PERIOD.toNat ≤ now.toNat

/-- The calls `ops` contain a linked proof of `w` and later its finalization,
with the challenge period and no challenge in between. -/
def Justified (ops : List BridgeOp) (id : H256) (w : Withdrawal) : Prop :=
  ∃ ops₁ start proof ops₂ now stamp l1TxHash ops₃,
    ops = ops₁ ++ .submitWithdrawalProof start id proof ::
      (ops₂ ++ .finalizeWithdrawal now stamp id l1TxHash :: ops₃) ∧
    ProvenAt C P b₀ ops₁ start id proof ops₂ w ∧
    PeriodPassed start id (ops₂ ++ [.finalizeWithdrawal now stamp id l1TxHash]) ∧
    (BridgeOp.finalizeWithdrawal now stamp id l1TxHash).Enabled C
      (runBridge C P b₀ (ops₁ ++ .submitWithdrawalProof start id proof :: ops₂))

/-- The calls `ops` contain a linked proof of `w` and no challenge after it; once
`w` is ready, the period was seen over. -/
def Waiting (ops : List BridgeOp) (id : H256) (w : Withdrawal) : Prop :=
  ∃ ops₁ start proof ops₂,
    ops = ops₁ ++ .submitWithdrawalProof start id proof :: ops₂ ∧
    ProvenAt C P b₀ ops₁ start id proof ops₂ w ∧
    start.toNat + WITHDRAWAL_CHALLENGE_PERIOD.toNat < 2 ^ 64 ∧
    w.challengeStart = some start ∧ (w.status = .ready → PeriodPassed start id ops₂)

/-- Every record is where its history allows. -/
structure Tracked (ops : List BridgeOp) : Prop where
  pending : ∀ id w, (runBridge C P b₀ ops).pendingWithdrawals.lookup id = some w →
    w.status = .pending ∨ w.status = .challenged ∨
      (w.status = .proven ∨ w.status = .ready) ∧ Waiting C P b₀ ops id w
  finalized : ∀ id w, (runBridge C P b₀ ops).finalizedWithdrawals.lookup id = some w →
    Justified C P b₀ ops id w

end History

section Steps

variable {C : Crypto} {P : Platform} {b₀ : L2Bridge} {ops ops₁ ops₂ : List BridgeOp}
  {op : BridgeOp} {id : H256} {w : Withdrawal} {start : UInt64} {proof : WithdrawalProof}

theorem runBridge_snoc (b : L2Bridge) (ops : List BridgeOp) (op : BridgeOp) :
    runBridge C P b (ops ++ [op]) = (op.run C P (runBridge C P b ops)).1 := by
  rw [runBridge, runBridge, List.foldl_append]
  rfl

/-- A call that is not a successful challenge of the withdrawal. -/
def Spares (C : Crypto) (b : L2Bridge) (id : H256) (op : BridgeOp) : Prop :=
  ∀ fraudProof, op = .challengeWithdrawal id fraudProof → ¬ op.Enabled C b

theorem ProvenAt.snoc (h : ProvenAt C P b₀ ops₁ start id proof ops₂ w)
    (hspares : Spares C
      (runBridge C P b₀ (ops₁ ++ .submitWithdrawalProof start id proof :: ops₂)) id op) :
    ProvenAt C P b₀ ops₁ start id proof (ops₂ ++ [op]) w := by
  refine ⟨h.accepted, h.verified, h.links, fun mid fraudProof hpre => ?_⟩
  rcases List.prefix_concat_iff.mp hpre with heq | hpre
  · obtain ⟨rfl, hop⟩ := List.append_inj' heq rfl
    cases hop
    exact hspares fraudProof rfl
  · exact h.unchallenged mid fraudProof hpre

theorem PeriodPassed.append (h : PeriodPassed start id ops) (ops' : List BridgeOp) :
    PeriodPassed start id (ops ++ ops') := by
  obtain ⟨op, hop, now, hreads, hle⟩ := h
  exact ⟨op, List.mem_append_left _ hop, now, hreads, hle⟩

theorem Waiting.snoc (h : Waiting C P b₀ ops id w)
    (hspares : Spares C (runBridge C P b₀ ops) id op) : Waiting C P b₀ (ops ++ [op]) id w := by
  obtain ⟨ops₁, start, proof, ops₂, rfl, hproven, hfits, hstart, hready⟩ := h
  refine ⟨ops₁, start, proof, ops₂ ++ [op], ?_, hproven.snoc hspares, hfits, hstart,
    fun hst => (hready hst).append _⟩
  rw [List.append_assoc, List.cons_append]

theorem Justified.snoc (h : Justified C P b₀ ops id w) (op : BridgeOp) :
    Justified C P b₀ (ops ++ [op]) id w := by
  obtain ⟨ops₁, start, proof, ops₂, now, stamp, l1TxHash, ops₃, rfl, hrest⟩ := h
  refine ⟨ops₁, start, proof, ops₂, now, stamp, l1TxHash, ops₃ ++ [op], ?_, hrest⟩
  rw [List.append_assoc, List.cons_append, List.append_assoc, List.cons_append]

/-- A proof is linked to what was initiated, whatever the status. -/
theorem ProvenAt.congr {w' : Withdrawal} (h : ProvenAt C P b₀ ops₁ start id proof ops₂ w)
    (hsame : w'.asInitiated = w.asInitiated) : ProvenAt C P b₀ ops₁ start id proof ops₂ w' := by
  -- the hash covers only what was initiated
  have hhash : w'.asInitiated.hash C = w.asInitiated.hash C := by rw [hsame]
  obtain ⟨w₁, hlookup, hst, hw₁⟩ := h.accepted
  exact ⟨⟨w₁, hlookup, hst, hw₁.trans hsame.symm⟩, h.verified,
    ⟨h.links.hash.trans hhash.symm, h.links.leaf.trans hhash.symm, h.links.root⟩,
    h.unchallenged⟩

/-- A withdrawal is ready once its period is over. -/
theorem period_of_isReady {now : UInt64} (h : w.isReady now = true)
    (hstart : w.challengeStart = some start)
    (hfits : start.toNat + WITHDRAWAL_CHALLENGE_PERIOD.toNat < 2 ^ 64) :
    start.toNat + WITHDRAWAL_CHALLENGE_PERIOD.toNat ≤ now.toNat := by
  rw [Withdrawal.isReady, hstart] at h
  split at h
  · cases h
  · have hle := UInt64.le_iff_toNat_le.mp (of_decide_eq_true h)
    rwa [UInt64.toNat_add, Nat.mod_eq_of_lt hfits] at hle

/-- A proof that is accepted starts the wait. -/
theorem waiting_submit (heff : (BridgeOp.submitWithdrawalProof start id proof).Enabled C
      (runBridge C P b₀ ops))
    (hlookup : (runBridge C P b₀ ops).pendingWithdrawals.lookup id = some w)
    (hlinks : (BridgeOp.submitWithdrawalProof start id proof).LinksProof C
      (runBridge C P b₀ ops)) :
    Waiting C P b₀ (ops ++ [.submitWithdrawalProof start id proof]) id
      (w.submitProof start proof) := by
  obtain ⟨hlink, hfits⟩ := hlinks heff
  obtain ⟨hverify, w', hlookup', hst⟩ := heff
  rw [hlookup] at hlookup'
  cases hlookup'
  have hproven : ProvenAt C P b₀ ops start id proof [] w := by
    refine ⟨⟨w, hlookup, hst, rfl⟩, hverify, hlink w hlookup, fun mid fraudProof hpre => ?_⟩
    exact absurd (List.prefix_nil.mp hpre)
      (List.append_ne_nil_of_right_ne_nil _ (List.cons_ne_nil _ _))
  exact ⟨ops, start, proof, [], rfl, hproven.congr rfl, hfits, rfl, fun h => by cases h⟩

/-- A proven withdrawal whose period a pass sees over becomes ready. -/
theorem waiting_ready {now : H256 → UInt64} (h : Waiting C P b₀ ops id w)
    (hready : w.isReady (now id) = true) :
    Waiting C P b₀ (ops ++ [.updateReadyWithdrawals now]) id { w with status := .ready } := by
  have hspares : Spares C (runBridge C P b₀ ops) id (.updateReadyWithdrawals now) :=
    fun _ h => by cases h
  obtain ⟨ops₁, start, proof, ops₂, rfl, hproven, hfits, hstart, _⟩ := h
  refine ⟨ops₁, start, proof, ops₂ ++ [.updateReadyWithdrawals now], ?_,
    ProvenAt.congr (hproven.snoc hspares) ?_, hfits, hstart, fun _ => ?_⟩
  · rw [List.append_assoc, List.cons_append]
  · rfl
  · exact ⟨_, List.mem_append_right _ (List.mem_singleton_self _), now id, rfl,
      period_of_isReady hready hstart hfits⟩

/-- A waiting withdrawal that is finalized is justified. -/
theorem justified_finalize {now stamp : UInt64} {l1TxHash : H256} (h : Waiting C P b₀ ops id w)
    (hlookup : (runBridge C P b₀ ops).pendingWithdrawals.lookup id = some w)
    (hready : w.isReady now = true ∨ w.status = .ready) :
    Justified C P b₀ (ops ++ [.finalizeWithdrawal now stamp id l1TxHash]) id
      (w.finalize stamp l1TxHash) := by
  obtain ⟨ops₁, start, proof, ops₂, rfl, hproven, hfits, hstart, hpassed⟩ := h
  refine ⟨ops₁, start, proof, ops₂, now, stamp, l1TxHash, [], ?_, hproven.congr rfl, ?_,
    ⟨w, hlookup, hready⟩⟩
  · rw [List.append_assoc, List.cons_append]
  · rcases hready with hready | hready
    · exact ⟨_, List.mem_append_right _ (List.mem_singleton_self _), now, if_pos rfl,
        period_of_isReady hready hstart hfits⟩
    · exact (hpassed hready).append _

/-- What can be finalized is waiting. -/
theorem Tracked.waiting {now : UInt64} (h : Tracked C P b₀ ops)
    (hlookup : (runBridge C P b₀ ops).pendingWithdrawals.lookup id = some w)
    (hready : w.isReady now = true ∨ w.status = .ready) : Waiting C P b₀ ops id w := by
  have hst : w.status ≠ .pending := by
    rcases hready with hready | hready
    · rcases Withdrawal.status_of_isReady hready with hst | hst <;> simp [hst]
    · simp [hready]
  rcases h.pending id w hlookup with hp | hc | hw
  · exact absurd hp hst
  · exact absurd hc (Withdrawal.ne_challenged_of_ready hready)
  · exact hw.2

/-- A record that stays keeps its history, unless it is challenged. -/
theorem Tracked.pending_snoc (h : Tracked C P b₀ ops)
    (hspares : Spares C (runBridge C P b₀ ops) id op)
    (hlookup : (runBridge C P b₀ ops).pendingWithdrawals.lookup id = some w) :
    w.status = .pending ∨ w.status = .challenged ∨
      (w.status = .proven ∨ w.status = .ready) ∧ Waiting C P b₀ (ops ++ [op]) id w := by
  rcases h.pending id w hlookup with hp | hc | hw
  · exact Or.inl hp
  · exact Or.inr (Or.inl hc)
  · exact Or.inr (Or.inr ⟨hw.1, hw.2.snoc hspares⟩)

variable {b' : L2Bridge} {ok : Bool}

theorem pending_effect (h : Tracked C P b₀ ops)
    (hlinks : op.LinksProof C (runBridge C P b₀ ops))
    (heff : BridgeOp.Effect C P (runBridge C P b₀ ops) op b' ok)
    (hl : b'.pendingWithdrawals.lookup id = some w) :
    w.status = .pending ∨ w.status = .challenged ∨
      (w.status = .proven ∨ w.status = .ready) ∧ Waiting C P b₀ (ops ++ [op]) id w := by
  cases heff with
  | refused hnot => exact h.pending_snoc (fun _ _ => hnot) hl
  | recorded _ _ => exact h.pending_snoc (fun _ h => by cases h) hl
  | processed _ => exact h.pending_snoc (fun _ h => by cases h) hl
  | @initiated _ _ _ _ _ _ _ w' hw' _ =>
    by_cases hid : id = w'.id
    · rw [hid, Finmap.lookup_insert] at hl
      cases hl
      exact Or.inl (by rw [hw']; rfl)
    · rw [Finmap.lookup_insert_of_ne _ hid] at hl
      exact h.pending_snoc (fun _ h => by cases h) hl
  | @proven start id' proof w' _ hverify hl' hst =>
    by_cases hid : id = id'
    · subst hid
      rw [Finmap.lookup_insert] at hl
      cases hl
      exact Or.inr (Or.inr ⟨Or.inl rfl, waiting_submit ⟨hverify, w', hl', hst⟩ hl' hlinks⟩)
    · rw [Finmap.lookup_insert_of_ne _ hid] at hl
      exact h.pending_snoc (fun _ h => by cases h) hl
  | updated now =>
    rw [L2Bridge.updateReadyWithdrawals, Column.lookup_mapValues] at hl
    obtain ⟨w₀, hl₀, rfl⟩ := Option.map_eq_some_iff.mp hl
    by_cases hready : w₀.isReady (now id) = true
    · rw [Withdrawal.markReady, if_pos hready]
      exact Or.inr (Or.inr ⟨Or.inr rfl, waiting_ready (h.waiting hl₀ (Or.inl hready)) hready⟩)
    · rw [Withdrawal.markReady, if_neg hready]
      exact h.pending_snoc (fun _ h => by cases h) hl₀
  | @finalized _ _ id' _ _ _ _ _ =>
    by_cases hid : id = id'
    · rw [hid, Finmap.lookup_erase] at hl
      cases hl
    · rw [Finmap.lookup_erase_ne hid] at hl
      exact h.pending_snoc (fun _ h => by cases h) hl
  | @challenged id' _ w' _ _ hst =>
    by_cases hid : id = id'
    · rw [hid, Finmap.lookup_insert] at hl
      cases hl
      exact Or.inr (Or.inl (by rw [Withdrawal.challenge_of hst]))
    -- it was another withdrawal that was challenged
    · rw [Finmap.lookup_insert_of_ne _ hid] at hl
      refine h.pending_snoc (fun _ h => ?_) hl
      cases h
      exact absurd rfl hid

theorem finalized_effect (h : Tracked C P b₀ ops)
    (heff : BridgeOp.Effect C P (runBridge C P b₀ ops) op b' ok)
    (hl : b'.finalizedWithdrawals.lookup id = some w) :
    Justified C P b₀ (ops ++ [op]) id w := by
  cases heff with
  | @finalized now stamp id' l1TxHash w' _ hl' hready =>
    by_cases hid : id = id'
    · subst hid
      rw [Finmap.lookup_insert] at hl
      cases hl
      exact justified_finalize (h.waiting hl' hready) hl' hready
    · rw [Finmap.lookup_insert_of_ne _ hid] at hl
      exact (h.finalized id w hl).snoc _
  | _ => exact (h.finalized id w hl).snoc _

/-- **One call** keeps every record where its history allows, if an accepted
proof is linked. -/
theorem tracked_step (h : Tracked C P b₀ ops)
    (hlinks : op.LinksProof C (runBridge C P b₀ ops)) : Tracked C P b₀ (ops ++ [op]) := by
  have heff := BridgeOp.effect_run (C := C) (P := P) (runBridge C P b₀ ops) op
  rw [← runBridge_snoc] at heff
  exact ⟨fun id w hl => pending_effect h hlinks heff hl,
    fun id w hl => finalized_effect h heff hl⟩

end Steps

/-! ## Every run -/

theorem tracked_new (C : Crypto) (P : Platform) (s : L2State) :
    Tracked C P (L2Bridge.new s) [] where
  pending id w h := by
    rw [runBridge, List.foldl_nil, L2Bridge.new, Finmap.lookup_empty] at h
    cases h
  finalized id w h := by
    rw [runBridge, List.foldl_nil, L2Bridge.new, Finmap.lookup_empty] at h
    cases h

/-- **Withdrawals are sound** in every run whose accepted proofs are linked to
their withdrawals: whatever is finalized was proven, left open for the challenge
period and not challenged. -/
theorem justified_of_links (C : Crypto) (P : Platform) (s : L2State) (ops : List BridgeOp)
    (hlinks : ∀ pre op, pre ++ [op] <+: ops →
      op.LinksProof C (runBridge C P (L2Bridge.new s) pre)) :
    ∀ pre, pre <+: ops → ∀ id w,
      (runBridge C P (L2Bridge.new s) pre).pendingWithdrawals.lookup id = some w ∨
        (runBridge C P (L2Bridge.new s) pre).finalizedWithdrawals.lookup id = some w →
      w.status = .finalized → Justified C P (L2Bridge.new s) pre id w := by
  intro pre hpre id w hlookup hst
  have htracked := forall_prefixes (P := Tracked C P (L2Bridge.new s)) (tracked_new C P s)
    (fun pre op hpre h => tracked_step h (hlinks pre op hpre)) pre hpre
  rcases hlookup with hl | hl
  · -- a pending record is never finalized
    rcases htracked.pending id w hl with hp | hc | ⟨hw, _⟩
    · rw [hst] at hp
      cases hp
    · rw [hst] at hc
      cases hc
    · rcases hw with hw | hw
      · rw [hst] at hw
        cases hw
      · rw [hst] at hw
        cases hw
  · exact htracked.finalized id w hl

/-! ### One withdrawal, proven twice over -/

def aliceId : H256 :=
  H256.ofNatBE 0x0a551c235d0fcfd348c3b231cb9378f5172e56c9a7d4fe048f0ebef389571bd3

def aliceHash : H256 :=
  H256.ofNatBE 0xf8f01ed39dc8c25ef9d5b5490b3617ea3de191473a52e2cda2662f0f3416fbea

/-- A proof that is a tree of its own, with one leaf. -/
def leafProof (hash : H256) : WithdrawalProof :=
  ⟨hash, H256.zero, 1, [1, 2, 3], ⟨hash, [], [], hash⟩, H256.zero⟩

/-- Alice withdraws three, a proof is submitted, and a week later it is final. -/
def withdrawOnce (proof : WithdrawalProof) : List BridgeOp :=
  [.initiateWithdrawal 100 100 alice bob 3, .submitWithdrawalProof 200 aliceId proof,
    .finalizeWithdrawal 605000 605000 aliceId H256.zero]

/-- With the leaf of her own withdrawal it is justified. -/
theorem justified_of_links_honest :
    ∃ w, (runBridge twiceCrypto Platform.exact (L2Bridge.new aliceState)
        (withdrawOnce (leafProof aliceHash))).finalizedWithdrawals.lookup aliceId = some w ∧
      Justified twiceCrypto Platform.exact (L2Bridge.new aliceState)
        (withdrawOnce (leafProof aliceHash)) aliceId w := by
  have hfinal : ((runBridge twiceCrypto Platform.exact (L2Bridge.new aliceState)
      (withdrawOnce (leafProof aliceHash))).finalizedWithdrawals.lookup aliceId).any
      (fun w => decide (w.status = .finalized)) = true := by
    decide +kernel
  obtain ⟨w, hlookup, hst⟩ := (Option.any_eq_true ..).mp hfinal
  refine ⟨w, hlookup, justified_of_links _ _ _ _ (fun pre op hpre => ?_) _ (List.prefix_refl _)
    aliceId w (Or.inr hlookup) (of_decide_eq_true hst)⟩
  obtain ⟨post, hpost⟩ := hpre
  match pre, hpost with
  | [], hpost =>
    cases hpost
    trivial
  | [_], hpost =>
    cases hpost
    refine fun _ => ⟨fun w hw => ?_, by decide⟩
    have hhash : ((runBridge twiceCrypto Platform.exact (L2Bridge.new aliceState)
        [.initiateWithdrawal 100 100 alice bob 3]).pendingWithdrawals.lookup aliceId).all
        (fun w => decide (aliceHash = w.hash twiceCrypto)) = true := by
      decide +kernel
    have hw' := of_decide_eq_true ((Option.all_eq_true ..).mp hhash w hw)
    exact ⟨hw', hw', by decide +kernel⟩
  | [_, _], hpost =>
    cases hpost
    trivial
  | _ :: _ :: _ :: _, hpost => simp [withdrawOnce] at hpost

/-- A proof of nothing at all is as good: it is accepted for the withdrawal, which
is finalized after a week. -/
theorem unlinked_proof_finalizes :
    ¬ ∀ (C : Crypto) (P : Platform) (s : L2State) (ops : List BridgeOp) (id : H256)
      (w : Withdrawal),
      (runBridge C P (L2Bridge.new s) ops).finalizedWithdrawals.lookup id = some w →
      w.status = .finalized → Justified C P (L2Bridge.new s) ops id w := by
  intro hall
  have hfinal : ((runBridge twiceCrypto Platform.exact (L2Bridge.new aliceState)
      (withdrawOnce (leafProof H256.zero))).finalizedWithdrawals.lookup aliceId).any
      (fun w => decide (w.status = .finalized ∧ H256.zero ≠ w.hash twiceCrypto)) = true := by
    decide +kernel
  obtain ⟨w, hlookup, hw⟩ := (Option.any_eq_true ..).mp hfinal
  obtain ⟨hst, hne⟩ := of_decide_eq_true hw
  obtain ⟨ops₁, start, proof, ops₂, now, stamp, l1TxHash, ops₃, hops, hproven, _⟩ :=
    hall _ _ _ _ aliceId w hlookup hst
  -- the only proof of the run is that of the zero hash
  have hmem : BridgeOp.submitWithdrawalProof start aliceId proof ∈
      withdrawOnce (leafProof H256.zero) := by
    rw [hops]
    exact List.mem_append_right _ (List.mem_cons_self ..)
  simp only [withdrawOnce, List.mem_cons, List.not_mem_nil, or_false, reduceCtorEq,
    BridgeOp.submitWithdrawalProof.injEq, false_or] at hmem
  obtain ⟨_, _, rfl⟩ := hmem
  exact hne hproven.links.hash

end Pyrax.Rollup
