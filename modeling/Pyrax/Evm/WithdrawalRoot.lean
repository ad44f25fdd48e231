import Pyrax.Base.Listing
import Pyrax.Evm.Peg

/-!
# The withdrawal root

`update_withdrawal_root` hashes the open withdrawals, sorted by their second. The root should be
a function of the open withdrawals alone, and tell them. Only `initiate_withdrawal` computes it:
after a payment or a challenge it is the root of withdrawals that are no longer open. Withdrawals
of one second are hashed in the order of the map. And of a withdrawal only the id, the amount
and the recipient are hashed.

Where the open withdrawals are those that the last update saw, and each has a second of its own
(`Committed`), the root is the one root of them, and nowhere else (`withdrawalRoot_commits`).
Roots of two such bridges are then equal for equal open withdrawals and no others.
-/

namespace Pyrax.Evm

open Base Word

namespace Withdrawal

/-- What `update_withdrawal_root` takes. -/
def IsOpen (w : Withdrawal) : Bool := w.status = .pending || w.status = .ready

/-- A withdrawal as it was initiated. -/
def terms (w : Withdrawal) : Withdrawal :=
  { w with status := .pending, merkleProof := none, l1ClaimTx := none }

/-- What is hashed of it. -/
def rootBytes (w : Withdrawal) : List UInt8 :=
  w.id.toList ++ Word.toBeBytes w.amount ++ w.l1Recipient.toList

def second (w : Withdrawal) : Nat := w.timestamp.toNat

theorem length_rootBytes (w : Withdrawal) : w.rootBytes.length = 65 := by
  unfold rootBytes
  rw [List.length_append, List.length_append, Word.length_toBeBytes, Vector.length_toList,
    Vector.length_toList]

end Withdrawal

open Withdrawal

namespace Bridge

/-- The open withdrawals, as they were initiated. -/
def openSet (bridge : Bridge) : Multiset Withdrawal :=
  Column.records terms (Column.filter (fun _ w => w.IsOpen) bridge.withdrawals)

/-- The root of a list of withdrawals. -/
def rootOf (C : Crypto) (l : List Withdrawal) : B256 := (C.blake3 (l.flatMap rootBytes)).bytes

/-- The root is that of the open withdrawals, in whichever order they are sorted; without any it
is zero. -/
structure Commits (C : Crypto) (bridge : Bridge) : Prop where
  empty : bridge.openSet = 0 → bridge.withdrawalRoot = Vector.replicate 32 0
  listed : bridge.openSet ≠ 0 → ∀ l, Listing second bridge.openSet l →
    bridge.withdrawalRoot = rootOf C l

theorem coe_openWithdrawals (order : WithdrawalOrder) (bridge : Bridge) :
    ((bridge.openWithdrawals order).map terms : Multiset Withdrawal) = bridge.openSet := by
  have hvalues : (((order.entries bridge.withdrawals).map Prod.snd : List Withdrawal) :
      Multiset Withdrawal) = bridge.withdrawals.entries.map fun e => e.2 := by
    rw [← Multiset.map_coe, order.coe_entries, Multiset.map_map]
    rfl
  have hopen : ((bridge.openWithdrawals order : List Withdrawal) : Multiset Withdrawal)
      = (bridge.withdrawals.entries.map fun e => e.2).filter fun w => w.IsOpen := by
    rw [← hvalues, Multiset.filter_coe]
    simp only [Bool.decide_eq_true]
    rfl
  rw [← Multiset.map_coe, hopen, Multiset.filter_map, Multiset.map_map]
  rfl

/-- An update makes it the root of one of the listings. -/
theorem updateWithdrawalRoot_listing (C : Crypto) (order : WithdrawalOrder) (bridge : Bridge) :
    ∃ l, Listing second bridge.openSet l ∧
      (bridge.updateWithdrawalRoot C order).withdrawalRoot = rootOf C l := by
  let sorted := (bridge.openWithdrawals order).mergeSort fun a b => a.timestamp ≤ b.timestamp
  have hlisting : Listing second (bridge.openWithdrawals order) sorted := by
    simpa only [second, ← UInt64.le_iff_toNat_le] using
      listing_mergeSort second (bridge.openWithdrawals order)
  refine ⟨sorted.map terms, ⟨?_, ?_⟩, ?_⟩
  · rw [← coe_openWithdrawals order, ← Multiset.map_coe, ← Multiset.map_coe, hlisting.coe]
  · exact List.pairwise_map.mpr hlisting.sorted
  · unfold rootOf
    rw [List.flatMap_map]
    rfl

end Bridge

/-! ## Runs -/

namespace PegStep

/-- The step is the section that updates the root. -/
def updatesRoot (peg : Peg) : PegStep → Bool
  | resume _ place => peg.underway[place]? = some .updateRoot
  | createDeposit .. | updateDepositConfirmations .. | completeDeposit .. | initiateWithdrawal ..
  | checkWithdrawalReady .. | completeWithdrawal .. | challengeWithdrawal .. => false

/-- The open withdrawals as the last update of a run saw them, if there was one. -/
def rooted (C : Crypto) : Peg → Option (Multiset Withdrawal) → List PegStep →
    Option (Multiset Withdrawal)
  | _, last, [] => last
  | peg, last, step :: steps =>
    rooted C (step.apply C peg) (if step.updatesRoot peg then some peg.bridge.openSet else last) steps

variable {C : Crypto} {peg : Peg} {step : PegStep} {steps : List PegStep}
  {last : Option (Multiset Withdrawal)}

/-- Nothing else sets the root. -/
theorem withdrawalRoot_apply :
    (step.updatesRoot peg = true ∧
      ∃ order, (step.apply C peg).bridge = peg.bridge.updateWithdrawalRoot C order) ∨
    (step.updatesRoot peg = false ∧
      (step.apply C peg).bridge.withdrawalRoot = peg.bridge.withdrawalRoot) := by
  cases step with
  | createDeposit =>
    refine .inr ⟨rfl, ?_⟩
    rw [apply]
    split <;> rfl
  | updateDepositConfirmations depositId currentL1Height =>
    refine .inr ⟨rfl, ?_⟩
    rw [apply]
    split
    · next bridge' _ hok =>
      rcases Bridge.updateDepositConfirmations_ok hok with rfl | ⟨old, new, _, _, _, _, rfl⟩ <;> rfl
    · rfl
  | completeDeposit depositId l2MintTx =>
    refine .inr ⟨rfl, ?_⟩
    rw [apply]
    split
    · next bridge' hok =>
      obtain ⟨deposit, _, _, rfl⟩ := Bridge.completeDeposit_ok hok
      rfl
    · rfl
  | initiateWithdrawal =>
    refine .inr ⟨rfl, ?_⟩
    rw [apply]
    split <;> rfl
  | checkWithdrawalReady =>
    refine .inr ⟨rfl, ?_⟩
    rw [apply]
    split <;> rfl
  | completeWithdrawal withdrawalId l1ClaimTx =>
    refine .inr ⟨rfl, ?_⟩
    rw [apply]
    split
    · next bridge' hok =>
      obtain ⟨withdrawal, _, _, rfl⟩ := Bridge.completeWithdrawal_ok hok
      rfl
    · rfl
  | challengeWithdrawal withdrawalId =>
    refine .inr ⟨rfl, ?_⟩
    rw [apply]
    split
    · next bridge' hok =>
      obtain ⟨withdrawal, _, _, rfl⟩ := Bridge.challengeWithdrawal_ok hok
      rfl
    · rfl
  | resume order place =>
    rw [apply, updatesRoot]
    cases peg.underway[place]? with
    | none => exact .inr ⟨rfl, rfl⟩
    | some sect =>
      cases sect with
      | updateRoot => exact .inl ⟨rfl, order, rfl⟩
      | storeDeposit deposit => exact .inr ⟨rfl, rfl⟩
      | storeWithdrawal withdrawal => exact .inr ⟨rfl, rfl⟩
      | generateProof withdrawalId => exact .inr ⟨rfl, rfl⟩
      | markReady withdrawalId proof =>
        refine .inr ⟨rfl, ?_⟩
        show (peg.bridge.markReady withdrawalId proof).withdrawalRoot = _
        unfold Bridge.markReady
        split <;> rfl

theorem rooted_snoc : rooted C peg last (steps ++ [step]) =
    if step.updatesRoot (run C peg steps) then some (run C peg steps).bridge.openSet
    else rooted C peg last steps := by
  induction steps generalizing peg last with
  | nil => rfl
  | cons first steps ih => exact ih

/-- What the root is, as far as the last update tells. -/
def Stands (C : Crypto) (bridge : Bridge) : Option (Multiset Withdrawal) → Prop
  | none => bridge.withdrawalRoot = Vector.replicate 32 0
  | some S => ∃ l, Listing second S l ∧ bridge.withdrawalRoot = Bridge.rootOf C l

theorem stands_run (C : Crypto) (config : BridgeConfig) (steps : List PegStep) :
    Stands C (run C (.start config) steps).bridge (rooted C (.start config) none steps) := by
  induction steps using List.reverseRecOn with
  | nil => rfl
  | append_singleton steps step ih =>
    rw [run_snoc, rooted_snoc]
    rcases withdrawalRoot_apply with ⟨hupdates, order, hbridge⟩ | ⟨hkeeps, hroot⟩
    · rw [hupdates, hbridge, if_pos rfl]
      exact Bridge.updateWithdrawalRoot_listing C order _
    · rw [hkeeps, if_neg Bool.false_ne_true]
      generalize rooted C (.start config) none steps = last at ih
      cases last with
      | none => exact hroot.trans ih
      | some S =>
        obtain ⟨l, hl, hl'⟩ := ih
        exact ⟨l, hl, hroot.trans hl'⟩

/-- The last update saw the open withdrawals, each of which has a second of its own; or there was
no update yet, and there is nothing open. -/
def Committed (C : Crypto) (config : BridgeConfig) (steps : List PegStep) : Prop :=
  let current := (run C (.start config) steps).bridge.openSet
  match rooted C (.start config) none steps with
  | none => current = 0
  | some S => S = current ∧ current ≠ 0 ∧
    ∀ w ∈ current, ∀ w' ∈ current, w.timestamp = w'.timestamp → w = w'

/-- The withdrawals that are open after a run, and those that its last update saw. -/
def seen (C : Crypto) (config : BridgeConfig) (steps : List PegStep) :
    List (Multiset Withdrawal) :=
  (run C (.start config) steps).bridge.openSet :: (rooted C (.start config) none steps).toList

/-- The roots of some sets of withdrawals are not zero, and equal for equal bytes only. -/
structure NoCollision (C : Crypto) (sets : List (Multiset Withdrawal)) : Prop where
  nonzero : ∀ S ∈ sets, ∀ l, Listing second S l → Bridge.rootOf C l ≠ Vector.replicate 32 0
  bytes : ∀ S ∈ sets, ∀ S' ∈ sets, ∀ l l', Listing second S l → Listing second S' l' →
    C.blake3 (l.flatMap rootBytes) = C.blake3 (l'.flatMap rootBytes) →
    l.flatMap rootBytes = l'.flatMap rootBytes

/-- Withdrawals of some sets that differ, differ in id, amount or recipient. -/
def Told (sets : List (Multiset Withdrawal)) : Prop :=
  ∀ S ∈ sets, ∀ S' ∈ sets, ∀ w ∈ S, ∀ w' ∈ S', w.rootBytes = w'.rootBytes → w = w'

section

variable {sets : List (Multiset Withdrawal)} {S S' : Multiset Withdrawal} {l l' : List Withdrawal}

/-- A root tells the list it is of. -/
theorem eq_of_rootOf_eq (hcollision : NoCollision C sets) (htold : Told sets) (hS : S ∈ sets)
    (hS' : S' ∈ sets) (hl : Listing second S l) (hl' : Listing second S' l')
    (hroot : Bridge.rootOf C l = Bridge.rootOf C l') : l = l' := by
  have hbytes := hcollision.bytes S hS S' hS' l l' hl hl' (congrArg H256.mk hroot)
  have hmap := Wire.map_eq_of_flatMap_eq_of_width (by decide) length_rootBytes hbytes
  have hlength : l.length = l'.length := by simpa using congrArg List.length hmap
  refine List.ext_getElem hlength fun i hi hi' => ?_
  refine htold S hS S' hS' _ (hl.mem.mp (List.getElem_mem hi)) _ (hl'.mem.mp (List.getElem_mem hi')) ?_
  have hget := List.getElem_of_eq hmap (by rwa [List.length_map])
  rwa [List.getElem_map, List.getElem_map] at hget

end

/-- The root is that of the open withdrawals in committed states only. -/
theorem commits_iff (C : Crypto) (config : BridgeConfig) (steps : List PegStep)
    (hcollision : NoCollision C (seen C config steps)) (htold : Told (seen C config steps)) :
    (run C (.start config) steps).bridge.Commits C ↔ Committed C config steps := by
  have hstands := stands_run C config steps
  have hcurrent : (run C (.start config) steps).bridge.openSet ∈ seen C config steps :=
    List.mem_cons_self
  have hlast : ∀ S ∈ rooted C (.start config) none steps, S ∈ seen C config steps := by
    intro S hS
    exact List.mem_cons_of_mem _ (Option.mem_toList.mpr hS)
  unfold Committed
  generalize seen C config steps = sets at hcollision htold hcurrent hlast
  generalize rooted C (.start config) none steps = last at hstands hlast
  generalize (run C (.start config) steps).bridge = bridge at hstands hcurrent
  cases last with
  | none =>
    have hzero : bridge.withdrawalRoot = Vector.replicate 32 0 := hstands
    constructor
    · intro h
      by_contra hopen
      obtain ⟨l, hl⟩ := exists_listing second bridge.openSet
      exact hcollision.nonzero _ hcurrent l hl ((h.listed hopen l hl).symm.trans hzero)
    · intro hempty
      exact ⟨fun _ => hzero, fun hopen => absurd hempty hopen⟩
  | some S =>
    obtain ⟨l, hl, hroot⟩ := hstands
    have hS := hlast S rfl
    constructor
    · intro h
      have hopen : bridge.openSet ≠ 0 := by
        intro hempty
        exact hcollision.nonzero S hS l hl (hroot.symm.trans (h.empty hempty))
      have hunique : ∀ l₁ l₂, Listing second bridge.openSet l₁ →
          Listing second bridge.openSet l₂ → l₁ = l₂ := by
        intro l₁ l₂ h₁ h₂
        exact eq_of_rootOf_eq hcollision htold hcurrent hcurrent h₁ h₂
          ((h.listed hopen l₁ h₁).symm.trans (h.listed hopen l₂ h₂))
      obtain ⟨l', hl'⟩ := exists_listing second bridge.openSet
      have hsame : l = l' := eq_of_rootOf_eq hcollision htold hS hcurrent hl hl'
        (hroot.symm.trans (h.listed hopen l' hl'))
      refine ⟨?_, hopen, fun w hw w' hw' heq => ?_⟩
      · rw [← hl.coe, hsame, hl'.coe]
      · exact listing_unique_iff.mp hunique w hw w' hw' (congrArg UInt64.toNat heq)
    · intro h
      obtain ⟨rfl, hopen, huntied⟩ := h
      refine ⟨fun hempty => absurd hempty hopen, fun _ l' hl' => ?_⟩
      have hsame : l = l' := Listing.unique
        (fun w hw w' hw' heq => huntied w hw w' hw' (UInt64.toNat_inj.mp heq)) hl hl'
      rw [hroot, hsame]

/-- Of two bridges with the roots of their open withdrawals, the roots tell the withdrawals. -/
theorem root_eq_iff {sets : List (Multiset Withdrawal)} {b₁ b₂ : Bridge}
    (hcollision : NoCollision C sets) (htold : Told sets) (hmem₁ : b₁.openSet ∈ sets)
    (hmem₂ : b₂.openSet ∈ sets) (h₁ : b₁.Commits C) (h₂ : b₂.Commits C) :
    b₁.withdrawalRoot = b₂.withdrawalRoot ↔ b₁.openSet = b₂.openSet := by
  obtain ⟨l₁, hl₁⟩ := exists_listing second b₁.openSet
  obtain ⟨l₂, hl₂⟩ := exists_listing second b₂.openSet
  by_cases hopen₁ : b₁.openSet = 0
  · rw [h₁.empty hopen₁, hopen₁]
    by_cases hopen₂ : b₂.openSet = 0
    · rw [h₂.empty hopen₂, hopen₂]
      exact iff_of_true rfl rfl
    · rw [h₂.listed hopen₂ l₂ hl₂]
      exact iff_of_false (hcollision.nonzero _ hmem₂ l₂ hl₂).symm (Ne.symm hopen₂)
  · rw [h₁.listed hopen₁ l₁ hl₁]
    constructor
    · intro heq
      have hopen₂ : b₂.openSet ≠ 0 := by
        intro hempty
        exact hcollision.nonzero _ hmem₁ l₁ hl₁ (heq.trans (h₂.empty hempty))
      rw [h₂.listed hopen₂ l₂ hl₂] at heq
      rw [← hl₁.coe, eq_of_rootOf_eq hcollision htold hmem₁ hmem₂ hl₁ hl₂ heq, hl₂.coe]
    · intro hsame
      exact (h₂.listed (hsame ▸ hopen₁) l₁ (hsame ▸ hl₁)).symm

/-- In the state after a run the root is that of the open withdrawals, in whichever order they
are sorted, exactly if it is committed. And of two committed states the roots are equal exactly if
the open withdrawals are. -/
theorem withdrawalRoot_commits (C : Crypto) (config₁ config₂ : BridgeConfig)
    (steps₁ steps₂ : List PegStep)
    (hcollision : NoCollision C (seen C config₁ steps₁ ++ seen C config₂ steps₂))
    (htold : Told (seen C config₁ steps₁ ++ seen C config₂ steps₂)) :
    ((run C (.start config₁) steps₁).bridge.Commits C ↔ Committed C config₁ steps₁) ∧
    (Committed C config₁ steps₁ → Committed C config₂ steps₂ →
      ((run C (.start config₁) steps₁).bridge.withdrawalRoot
          = (run C (.start config₂) steps₂).bridge.withdrawalRoot ↔
        (run C (.start config₁) steps₁).bridge.openSet
          = (run C (.start config₂) steps₂).bridge.openSet)) := by
  have hiff : ∀ config steps, seen C config steps ⊆ seen C config₁ steps₁ ++ seen C config₂ steps₂ →
      ((run C (.start config) steps).bridge.Commits C ↔ Committed C config steps) := by
    intro config steps hsub
    refine commits_iff C config steps ⟨fun S hS => hcollision.nonzero S (hsub hS),
      fun S hS S' hS' => hcollision.bytes S (hsub hS) S' (hsub hS')⟩ ?_
    exact fun S hS S' hS' => htold S (hsub hS) S' (hsub hS')
  have hiff₁ := hiff config₁ steps₁ (List.subset_append_left _ _)
  have hiff₂ := hiff config₂ steps₂ (List.subset_append_right _ _)
  refine ⟨hiff₁, fun hcommitted₁ hcommitted₂ => ?_⟩
  exact root_eq_iff hcollision htold (List.mem_append_left _ List.mem_cons_self)
    (List.mem_append_right _ List.mem_cons_self) (hiff₁.mpr hcommitted₁) (hiff₂.mpr hcommitted₂)

/-! ## Before and after the payment -/

/-- The withdrawal of `pegWithdraw`. -/
def pegWithdrawal : Withdrawal :=
  ⟨pegWithdrawalId, Vector.replicate 32 1, Vector.replicate 20 2, Vector.replicate 25 3, 99900, 7,
    605800, .pending, none, none, 1000⟩

noncomputable def pegReady : List PegStep := pegWithdraw ++ [pegCheck, next 0, next 0]

theorem rootOf_pegWithdrawal {l : List Withdrawal} (h : Listing second {pegWithdrawal} l) :
    Bridge.rootOf pegCrypto l ≠ Vector.replicate 32 0 := by
  rw [Multiset.coe_eq_singleton.mp h.coe]
  decide +kernel

/-- A second later withdrawal. -/
def secondWithdrawal : Withdrawal :=
  ⟨Bridge.computeWithdrawalId pegCrypto (Vector.replicate 32 2), Vector.replicate 32 2,
    Vector.replicate 20 2, Vector.replicate 25 4, 199800, 8, 606800, .pending, none, none, 2000⟩

noncomputable def bothWithdrawn : List PegStep :=
  pegWithdraw ++ [initiateWithdrawal 2000 (Vector.replicate 32 2) (Vector.replicate 20 2)
    (Vector.replicate 25 4) 200000 8, next 0, next 0]

noncomputable def firstReady : List PegStep := bothWithdrawn ++ [pegCheck, next 0, next 0]

def bothSet : Multiset Withdrawal := {pegWithdrawal, secondWithdrawal}

theorem openSet_bothWithdrawn :
    (run pegCrypto (.start .default) bothWithdrawn).bridge.openSet = bothSet ∧
    rooted pegCrypto (.start .default) none bothWithdrawn = some bothSet ∧
    (run pegCrypto (.start .default) firstReady).bridge.openSet = bothSet ∧
    rooted pegCrypto (.start .default) none firstReady = some bothSet := by
  refine ⟨?_, ?_, ?_, ?_⟩
  · decide +kernel
  · decide +kernel
  · decide +kernel
  · decide +kernel

/-- They differ in their seconds and in what is hashed of them. -/
theorem bothSet_apart : ∀ w ∈ bothSet, ∀ w' ∈ bothSet,
    w.timestamp = w'.timestamp ∨ w.rootBytes = w'.rootBytes → w = w' := by
  decide +kernel

theorem eq_of_listing_bothSet {l : List Withdrawal} (h : Listing second bothSet l) :
    l = [pegWithdrawal, secondWithdrawal] :=
  h.unique (fun w hw w' hw' heq => bothSet_apart w hw w' hw' (.inl (UInt64.toNat_inj.mp heq)))
    ⟨rfl, by decide⟩

/-- That the first withdrawal is made ready does not change the root. -/
theorem withdrawalRoot_commits_both :
    (run pegCrypto (.start .default) bothWithdrawn).bridge.withdrawalRoot
      = (run pegCrypto (.start .default) firstReady).bridge.withdrawalRoot := by
  obtain ⟨hopen, hrooted, hopen', hrooted'⟩ := openSet_bothWithdrawn
  have hone : ∀ S ∈ seen pegCrypto .default bothWithdrawn ++ seen pegCrypto .default firstReady,
      S = bothSet := by
    unfold seen
    rw [hopen, hrooted, hopen', hrooted']
    simp
  have hcollision : NoCollision pegCrypto
      (seen pegCrypto .default bothWithdrawn ++ seen pegCrypto .default firstReady) := by
    refine ⟨fun S hS l hl => ?_, fun S hS S' hS' l l' hl hl' _ => ?_⟩
    · rw [hone S hS] at hl
      rw [eq_of_listing_bothSet hl]
      decide +kernel
    · rw [hone S hS] at hl
      rw [hone S' hS'] at hl'
      rw [eq_of_listing_bothSet hl, eq_of_listing_bothSet hl']
  have hcommitted : ∀ {steps : List PegStep},
      (run pegCrypto (.start .default) steps).bridge.openSet = bothSet →
      rooted pegCrypto (.start .default) none steps = some bothSet →
      Committed pegCrypto .default steps := by
    intro steps hopen hrooted
    unfold Committed
    rw [hopen, hrooted]
    exact ⟨rfl, by decide, fun w hw w' hw' heq => bothSet_apart w hw w' hw' (.inl heq)⟩
  refine ((withdrawalRoot_commits pegCrypto .default .default bothWithdrawn firstReady hcollision
    fun S hS S' hS' w hw w' hw' heq => ?_).2 (hcommitted hopen hrooted)
      (hcommitted hopen' hrooted')).mpr (hopen.trans hopen'.symm)
  rw [hone S hS] at hw
  rw [hone S' hS'] at hw'
  exact bothSet_apart w hw w' hw' (.inr heq)

/-- After it is paid nothing is open, as at the start, and the root is another. -/
theorem root_after_claim :
    (run pegCrypto (.start .default) (pegReady ++ [pegComplete])).bridge.openSet
        = (run pegCrypto (.start .default) []).bridge.openSet ∧
      (run pegCrypto (.start .default) (pegReady ++ [pegComplete])).bridge.withdrawalRoot
        ≠ (run pegCrypto (.start .default) []).bridge.withdrawalRoot := by
  refine ⟨by decide +kernel, ?_⟩
  have hrooted : rooted pegCrypto (.start .default) none (pegReady ++ [pegComplete])
      = some {pegWithdrawal} := by decide +kernel
  have hstands := stands_run pegCrypto .default (pegReady ++ [pegComplete])
  rw [hrooted] at hstands
  obtain ⟨l, hl, hroot⟩ := hstands
  rw [hroot]
  exact rootOf_pegWithdrawal hl

end PegStep

end Pyrax.Evm
