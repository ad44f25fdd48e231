import Pyrax.Base.Run
import Pyrax.Evm.Bridge

/-!
# The peg pays out what came in, and once

However the sections of the calls follow each other, `total_deposited` should be the sum
of the minted deposits, a withdrawal should be paid at most once and never after a
challenge, and `total_withdrawn` should stay below `total_deposited` (`PegSafe`).

Three sections do not ask what they would have to ask. The second section of
`create_deposit` and of `initiate_withdrawal` inserts without looking again, and so may
replace a record that went on in the meantime. The last section of
`check_withdrawal_ready` sets `Ready` over whatever status it finds: with two of them
under way a withdrawal is paid, made ready again and paid again. And
`complete_withdrawal` never compares the two totals. A run that takes none of these turns
(`Careful`) is safe (`safe_of_careful`); each of them alone breaks it (`peg_not_safe`).
-/

namespace Pyrax.Evm

open Base

/-- What a minted deposit counts for. -/
def Deposit.mintedAmount (deposit : Deposit) : Nat :=
  if deposit.status = .minted then deposit.amount.toNat else 0

namespace Bridge

/-- The amounts of the minted deposits, added up. -/
def mintedTotal (bridge : Bridge) : Nat := Column.total Deposit.mintedAmount bridge.deposits

/-- The withdrawal was paid or invalidated. -/
def Settled (bridge : Bridge) (withdrawalId : B256) : Prop :=
  ∃ withdrawal ∈ bridge.withdrawals.lookup withdrawalId,
    withdrawal.status = .claimed ∨ withdrawal.status = .challenged

instance (bridge : Bridge) (withdrawalId : B256) : Decidable (bridge.Settled withdrawalId) :=
  inferInstanceAs (Decidable (∃ _ ∈ _, _))

end Bridge

inductive PegEvent where
  | paid (withdrawalId : B256)
  | challenged (withdrawalId : B256)
  deriving DecidableEq

/-- The withdrawal that an event is about. -/
def PegEvent.withdrawal : PegEvent → B256
  | paid withdrawalId => withdrawalId
  | challenged withdrawalId => withdrawalId

namespace PegStep

/-- A payment or a challenge that succeeds. -/
def event (peg : Peg) : PegStep → Option PegEvent
  | completeWithdrawal withdrawalId l1ClaimTx =>
    match peg.bridge.completeWithdrawal withdrawalId l1ClaimTx with
    | .ok _ => some (.paid withdrawalId)
    | .error _ => none
  | challengeWithdrawal withdrawalId =>
    match peg.bridge.challengeWithdrawal withdrawalId with
    | .ok _ => some (.challenged withdrawalId)
    | .error _ => none
  | createDeposit .. | updateDepositConfirmations .. | completeDeposit .. | initiateWithdrawal ..
  | checkWithdrawalReady .. | resume .. => none

/-- The events of a run, the first one first. -/
def events (C : Crypto) (peg : Peg) : List PegStep → List PegEvent
  | [] => []
  | step :: steps => (step.event peg).toList ++ events C (step.apply C peg) steps

end PegStep

/-- A bridge as it is made, and no call under way. -/
def Peg.start (config : BridgeConfig) : Peg := ⟨Bridge.new config, []⟩

/-- What is promised of the peg after a run. -/
structure PegSafe (C : Crypto) (config : BridgeConfig) (steps : List PegStep) : Prop where
  deposited : (PegStep.run C (.start config) steps).bridge.totalDeposited.toNat
    = (PegStep.run C (.start config) steps).bridge.mintedTotal
  /-- No payment comes after a payment of the same withdrawal, or after its challenge. -/
  once : (PegStep.events C (.start config) steps).Pairwise fun earlier later =>
    ∀ withdrawalId, later = .paid withdrawalId →
      earlier ≠ .paid withdrawalId ∧ earlier ≠ .challenged withdrawalId
  covered : (PegStep.run C (.start config) steps).bridge.totalWithdrawn
    ≤ (PegStep.run C (.start config) steps).bridge.totalDeposited

/-- The section replaces no minted deposit, and no withdrawal that is paid or
challenged. -/
def Section.Careful (bridge : Bridge) : Section → Prop
  | storeDeposit deposit => Column.valueAt Deposit.mintedAmount bridge.deposits deposit.id = 0
  | storeWithdrawal withdrawal => ¬ bridge.Settled withdrawal.id
  | markReady withdrawalId _ => ¬ bridge.Settled withdrawalId
  | updateRoot | generateProof _ => True

instance (bridge : Bridge) : DecidablePred (Section.Careful bridge)
  | .storeDeposit _ => inferInstanceAs (Decidable (_ = _))
  | .storeWithdrawal _ => inferInstanceAs (Decidable (¬ _))
  | .markReady _ _ => inferInstanceAs (Decidable (¬ _))
  | .updateRoot => .isTrue trivial
  | .generateProof _ => .isTrue trivial

/-- The step replaces nothing that is done with, and pays nothing that the deposits do not
cover. -/
def PegStep.Careful (peg : Peg) : PegStep → Prop
  | resume _ place => ∀ sect ∈ peg.underway[place]?, sect.Careful peg.bridge
  | completeWithdrawal withdrawalId _ =>
    ∀ withdrawal ∈ peg.bridge.withdrawals.lookup withdrawalId, withdrawal.status = .ready →
      peg.bridge.totalWithdrawn.toNat + withdrawal.amount.toNat ≤ peg.bridge.totalDeposited.toNat
  | createDeposit .. | updateDepositConfirmations .. | completeDeposit .. | initiateWithdrawal ..
  | checkWithdrawalReady .. | challengeWithdrawal .. => True

instance (peg : Peg) : DecidablePred (PegStep.Careful peg)
  | .resume _ _ => inferInstanceAs (Decidable (∀ _ ∈ _, _))
  | .completeWithdrawal _ _ => inferInstanceAs (Decidable (∀ _ ∈ _, _))
  | .createDeposit .. => .isTrue trivial
  | .updateDepositConfirmations .. => .isTrue trivial
  | .completeDeposit .. => .isTrue trivial
  | .initiateWithdrawal .. => .isTrue trivial
  | .checkWithdrawalReady .. => .isTrue trivial
  | .challengeWithdrawal .. => .isTrue trivial

/-! ## One step -/

namespace Bridge

/-- All that a careful step can do to the bridge, with the event it makes. -/
inductive Change (bridge : Bridge) : Option PegEvent → Bridge → Prop where
  | kept {bridge' : Bridge} (hdeposits : bridge'.deposits = bridge.deposits)
      (hwithdrawals : bridge'.withdrawals = bridge.withdrawals)
      (hdeposited : bridge'.totalDeposited = bridge.totalDeposited)
      (hwithdrawn : bridge'.totalWithdrawn = bridge.totalWithdrawn) : Change bridge none bridge'
  | deposit {id : B256} {deposit : Deposit}
      (hold : Column.valueAt Deposit.mintedAmount bridge.deposits id = 0)
      (hnew : deposit.mintedAmount = 0) : Change bridge none (bridge.setDeposit id deposit)
  | mint {id : B256} {deposit : Deposit} {tx : B256}
      (hold : Column.valueAt Deposit.mintedAmount bridge.deposits id = 0) :
      Change bridge none { bridge.setDeposit id
          { deposit with status := .minted, l2MintTx := some tx } with
        totalDeposited := bridge.totalDeposited + deposit.amount }
  | withdrawal {id : B256} {withdrawal : Withdrawal} (hopen : ¬ bridge.Settled id) :
      Change bridge none (bridge.setWithdrawal id withdrawal)
  | pay {id : B256} {withdrawal : Withdrawal} {tx : H256} (hopen : ¬ bridge.Settled id)
      (hfits : bridge.totalWithdrawn.toNat + withdrawal.amount.toNat
        ≤ bridge.totalDeposited.toNat) :
      Change bridge (some (.paid id)) { bridge.setWithdrawal id
          { withdrawal with status := .claimed, l1ClaimTx := some tx } with
        totalWithdrawn := bridge.totalWithdrawn + withdrawal.amount }
  | challenge {id : B256} {withdrawal : Withdrawal} (hopen : ¬ bridge.Settled id) :
      Change bridge (some (.challenged id))
        (bridge.setWithdrawal id { withdrawal with status := .challenged })

variable {bridge bridge' : Bridge} {e : PegEvent} {event : Option PegEvent} {id : B256}

theorem Change.same : Change bridge none bridge := .kept rfl rfl rfl rfl

theorem valueAt_minted_eq_zero {deposit : Deposit} (h : bridge.deposits.lookup id = some deposit)
    (hstatus : deposit.status ≠ .minted) :
    Column.valueAt Deposit.mintedAmount bridge.deposits id = 0 := by
  rw [Column.valueAt, h]
  exact if_neg hstatus

theorem not_settled {withdrawal : Withdrawal} (h : bridge.withdrawals.lookup id = some withdrawal)
    (hclaimed : withdrawal.status ≠ .claimed) (hchallenged : withdrawal.status ≠ .challenged) :
    ¬ bridge.Settled id := by
  rintro ⟨other, hother, hstatus⟩
  cases h.symm.trans hother
  exact hstatus.elim hclaimed hchallenged

theorem mintedTotal_setDeposit (bridge : Bridge) (id : B256) (deposit : Deposit)
    (hold : Column.valueAt Deposit.mintedAmount bridge.deposits id = 0) :
    (bridge.setDeposit id deposit).mintedTotal = bridge.mintedTotal + deposit.mintedAmount := by
  have htotal := Column.total_insert Deposit.mintedAmount bridge.deposits id deposit
  rw [hold] at htotal
  exact htotal

/-- The counter stays the sum of the minted deposits, as far as it can count. -/
theorem Change.deposited (h : Change bridge event bridge')
    (hbefore : bridge.totalDeposited = UInt64.ofNat bridge.mintedTotal) :
    bridge'.totalDeposited = UInt64.ofNat bridge'.mintedTotal := by
  cases h with
  | kept hdeposits _ hdeposited _ => rw [hdeposited, hbefore, mintedTotal, mintedTotal, hdeposits]
  | deposit hold hnew =>
    rw [mintedTotal_setDeposit _ _ _ hold, hnew]
    exact hbefore
  | mint hold =>
    rename_i deposit tx
    show bridge.totalDeposited + deposit.amount = UInt64.ofNat (Bridge.mintedTotal
      (bridge.setDeposit _ { deposit with status := .minted, l2MintTx := some tx }))
    rw [mintedTotal_setDeposit _ _ _ hold, UInt64.ofNat_add, ← hbefore]
    show _ = _ + UInt64.ofNat deposit.amount.toNat
    rw [UInt64.ofNat_toNat]
  | withdrawal _ => exact hbefore
  | pay _ _ => exact hbefore
  | challenge _ => exact hbefore

theorem settled_setWithdrawal {withdrawal : Withdrawal} {other : B256} (hopen : ¬ bridge.Settled id)
    (h : bridge.Settled other) : (bridge.setWithdrawal id withdrawal).Settled other := by
  have hne : other ≠ id := by
    intro heq
    exact hopen (heq ▸ h)
  obtain ⟨w, hw, hstatus⟩ := h
  exact ⟨w, (Finmap.lookup_insert_of_ne _ hne).trans hw, hstatus⟩

/-- What is settled stays settled. -/
theorem Change.settled (h : Change bridge event bridge') (hsettled : bridge.Settled id) :
    bridge'.Settled id := by
  cases h with
  | kept _ hwithdrawals _ _ =>
    rw [Settled, hwithdrawals]
    exact hsettled
  | deposit _ _ => exact hsettled
  | mint _ => exact hsettled
  | withdrawal hopen => exact settled_setWithdrawal hopen hsettled
  | pay hopen _ => exact settled_setWithdrawal hopen hsettled
  | challenge hopen => exact settled_setWithdrawal hopen hsettled

/-- What an event settles was open. -/
theorem Change.of_event (h : Change bridge (some e) bridge') :
    ¬ bridge.Settled e.withdrawal ∧ bridge'.Settled e.withdrawal := by
  cases h with
  | pay hopen _ => exact ⟨hopen, _, Finmap.lookup_insert _, .inl rfl⟩
  | challenge hopen => exact ⟨hopen, _, Finmap.lookup_insert _, .inr rfl⟩

/-- What is covered stays covered, while the deposits can be counted. -/
theorem Change.covered (h : Change bridge event bridge')
    (hdeposited : bridge.totalDeposited = UInt64.ofNat bridge.mintedTotal)
    (hsum : bridge'.mintedTotal < 2 ^ 64)
    (hbefore : bridge.totalWithdrawn ≤ bridge.totalDeposited) :
    bridge'.totalWithdrawn ≤ bridge'.totalDeposited := by
  have hafter := h.deposited hdeposited
  cases h with
  | kept _ _ hkept hwithdrawn =>
    rw [hkept, hwithdrawn]
    exact hbefore
  | deposit _ _ => exact hbefore
  | mint hold =>
    rename_i id deposit tx
    rw [hafter]
    rw [UInt64.le_iff_toNat_le] at hbefore ⊢
    have hmore : Bridge.mintedTotal (bridge.setDeposit id
        { deposit with status := .minted, l2MintTx := some tx })
          = bridge.mintedTotal + deposit.amount.toNat := mintedTotal_setDeposit _ _ _ hold
    rw [UInt64.toNat_ofNat_of_lt' hsum]
    rw [hdeposited, UInt64.toNat_ofNat_of_lt' (Nat.lt_of_le_of_lt (hmore ▸ Nat.le_add_right _ _) hsum)]
      at hbefore
    exact hbefore.trans (hmore ▸ Nat.le_add_right _ _)
  | withdrawal _ => exact hbefore
  | pay _ hfits =>
    rw [UInt64.le_iff_toNat_le]
    refine Nat.le_trans ?_ hfits
    rw [UInt64.toNat_add]
    exact Nat.mod_le _ _
  | challenge _ => exact hbefore

end Bridge

/-- A deposit that is still to be stored is not minted. -/
def Peg.Fresh (peg : Peg) : Prop :=
  ∀ deposit, .storeDeposit deposit ∈ peg.underway → deposit.status = .pending

namespace PegStep

variable {C : Crypto} {config : BridgeConfig} {peg : Peg} {step : PegStep}
  {pre steps : List PegStep}

/-- Every careful step is one of the changes. -/
theorem change_of_careful (hfresh : peg.Fresh) (hcareful : step.Careful peg) :
    Bridge.Change peg.bridge (step.event peg) (step.apply C peg).bridge := by
  cases step with
  | createDeposit =>
    rw [apply]
    split
    · exact .same
    · exact .same
  | updateDepositConfirmations depositId currentL1Height =>
    rw [apply]
    split
    · next bridge' _ hok =>
      rcases Bridge.updateDepositConfirmations_ok hok with rfl | ⟨old, new, hold, hnot, hnew, _, rfl⟩
      · exact .same
      · exact .deposit (Bridge.valueAt_minted_eq_zero hold hnot) (if_neg hnew)
    · exact .same
  | completeDeposit depositId l2MintTx =>
    rw [apply]
    split
    · next bridge' hok =>
      obtain ⟨deposit, hdeposit, hstatus, rfl⟩ := Bridge.completeDeposit_ok hok
      exact .mint (Bridge.valueAt_minted_eq_zero hdeposit (by simp [hstatus]))
    · exact .same
  | initiateWithdrawal =>
    rw [apply]
    split
    · exact .same
    · exact .same
  | checkWithdrawalReady =>
    rw [apply]
    split
    · exact .same
    · exact .same
    · exact .same
  | completeWithdrawal withdrawalId l1ClaimTx =>
    rw [apply, event]
    cases hok : peg.bridge.completeWithdrawal withdrawalId l1ClaimTx with
    | error => exact .same
    | ok bridge' =>
      obtain ⟨withdrawal, hwithdrawal, hready, rfl⟩ := Bridge.completeWithdrawal_ok hok
      have hopen := Bridge.not_settled hwithdrawal (by simp [hready]) (by simp [hready])
      exact .pay hopen (hcareful withdrawal hwithdrawal hready)
  | challengeWithdrawal withdrawalId =>
    rw [apply, event]
    cases hok : peg.bridge.challengeWithdrawal withdrawalId with
    | error => exact .same
    | ok bridge' =>
      obtain ⟨withdrawal, hwithdrawal, hpending, rfl⟩ := Bridge.challengeWithdrawal_ok hok
      exact .challenge (Bridge.not_settled hwithdrawal (by simp [hpending]) (by simp [hpending]))
  | resume order place =>
    rw [apply]
    cases hplace : peg.underway[place]? with
    | none => exact .same
    | some sect =>
      have hsect := hcareful sect hplace
      cases sect with
      | storeDeposit deposit =>
        have hpending := hfresh deposit (List.mem_of_getElem? hplace)
        exact .deposit hsect (if_neg (by simp [hpending]))
      | storeWithdrawal withdrawal => exact .withdrawal hsect
      | updateRoot => exact .kept rfl rfl rfl rfl
      | generateProof withdrawalId => exact .same
      | markReady withdrawalId proof =>
        show Bridge.Change peg.bridge none (peg.bridge.markReady withdrawalId proof)
        unfold Bridge.markReady
        split
        · exact .same
        · exact .withdrawal hsect

/-- What is still to be stored comes from `create_deposit`. -/
theorem fresh_apply (h : peg.Fresh) : (step.apply C peg).Fresh := by
  have hmore : ∀ sect, (∀ deposit, sect = .storeDeposit deposit → deposit.status = .pending) →
      Peg.Fresh { peg with underway := peg.underway ++ [sect] } := by
    intro sect hsect deposit hmem
    rcases List.mem_append.mp hmem with hold | hnew
    · exact h deposit hold
    · exact hsect deposit (List.mem_singleton.mp hnew).symm
  cases step with
  | createDeposit =>
    rw [apply]
    split
    · next deposit hok =>
      refine hmore _ fun deposit' heq => ?_
      cases heq
      exact Bridge.createDeposit_ok hok
    · exact h
  | updateDepositConfirmations =>
    rw [apply]
    split
    · exact h
    · exact h
  | completeDeposit =>
    rw [apply]
    split
    · exact h
    · exact h
  | initiateWithdrawal =>
    rw [apply]
    split
    · refine hmore _ fun deposit heq => ?_
      cases heq
    · exact h
  | checkWithdrawalReady =>
    rw [apply]
    split
    · refine hmore _ fun deposit heq => ?_
      cases heq
    · exact h
    · exact h
  | completeWithdrawal =>
    rw [apply]
    split
    · exact h
    · exact h
  | challengeWithdrawal =>
    rw [apply]
    split
    · exact h
    · exact h
  | resume order place =>
    rw [apply]
    split
    · next sect hplace =>
      intro deposit hmem
      rcases List.mem_append.mp hmem with hold | hnew
      · exact h deposit (List.mem_of_mem_eraseIdx hold)
      · cases sect <;> simp [Section.run] at hnew
    · exact h

/-! ## Whole runs -/

theorem events_snoc (C : Crypto) (step : PegStep) : ∀ (pre : List PegStep) (peg : Peg),
    events C peg (pre ++ [step]) = events C peg pre ++ (step.event (run C peg pre)).toList
  | [], peg => by
    rw [List.nil_append, events, events, events, List.append_nil]
    rfl
  | first :: pre, peg => by
    rw [List.cons_append, events, events_snoc C step pre, events, List.append_assoc]
    rfl

/-- What a careful run carries along. -/
structure Holds (C : Crypto) (config : BridgeConfig) (pre : List PegStep) : Prop where
  fresh : (run C (.start config) pre).Fresh
  counted : (run C (.start config) pre).bridge.totalDeposited
    = UInt64.ofNat (run C (.start config) pre).bridge.mintedTotal
  settled : ∀ e ∈ events C (.start config) pre,
    (run C (.start config) pre).bridge.Settled e.withdrawal
  safe : PegSafe C config pre

theorem holds_nil (C : Crypto) (config : BridgeConfig) : Holds C config [] where
  fresh _ hmem := absurd hmem List.not_mem_nil
  counted := rfl
  settled _ hmem := absurd hmem List.not_mem_nil
  safe := ⟨rfl, List.Pairwise.nil, UInt64.le_refl _⟩

theorem Holds.snoc (h : Holds C config pre) (hcareful : step.Careful (run C (.start config) pre))
    (hsum : (run C (.start config) (pre ++ [step])).bridge.mintedTotal < 2 ^ 64) :
    Holds C config (pre ++ [step]) := by
  have hchange := change_of_careful (C := C) h.fresh hcareful
  rw [← run_snoc] at hchange
  have hcounted := hchange.deposited h.counted
  refine ⟨?_, hcounted, ?_, ?_, ?_, hchange.covered h.counted hsum h.safe.covered⟩
  · rw [run_snoc]
    exact fresh_apply h.fresh
  · intro e he
    rw [events_snoc, List.mem_append, Option.mem_toList] at he
    rcases he with hearlier | hnow
    · exact hchange.settled (h.settled e hearlier)
    · rw [hnow] at hchange
      exact hchange.of_event.2
  · rw [hcounted, UInt64.toNat_ofNat_of_lt' hsum]
  · rw [events_snoc]
    refine List.pairwise_append.mpr ⟨h.safe.once, ?_, ?_⟩
    · cases step.event (run C (.start config) pre) with
      | none => exact List.Pairwise.nil
      | some e => exact List.pairwise_singleton _ _
    · intro earlier hearlier later hlater withdrawalId hpaid
      rw [Option.mem_toList] at hlater
      rw [hlater, hpaid] at hchange
      -- the withdrawal paid now was open, what an earlier event is about was settled
      have hne : earlier.withdrawal ≠ withdrawalId := by
        intro heq
        exact hchange.of_event.1 (heq ▸ h.settled earlier hearlier)
      exact ⟨fun heq => hne (heq ▸ rfl), fun heq => hne (heq ▸ rfl)⟩

/-- **A careful run is safe** at every moment, while the minted deposits can be counted. -/
theorem safe_of_careful (C : Crypto) (config : BridgeConfig) (steps : List PegStep)
    (hsums : ∀ pre, pre <+: steps → (run C (.start config) pre).bridge.mintedTotal < 2 ^ 64)
    (hcareful : ∀ pre step, pre ++ [step] <+: steps → step.Careful (run C (.start config) pre)) :
    ∀ pre, pre <+: steps → PegSafe C config pre := by
  intro pre hpre
  refine (forall_prefixes (P := Holds C config) (holds_nil C config) ?_ pre hpre).safe
  intro pre step hpre h
  exact h.snoc (hcareful pre step hpre) (hsums _ hpre)

/-! ## A careful run, and three that are not -/

/-- The ids of a deposit and of two withdrawals, and the roots over the first of these and
over both. -/
def pegCrypto : Crypto :=
  let first := H256.ofNatBE 0x769560df5ae257933856ab3b46c52fcc40a404e5209eb6196cf50c6788d79fab
  let second := H256.ofNatBE 0x67316cf5fb40f3aa70e9dd5add8ec5ceef13cdc2661a094f3741878bc8dd05eb
  let firstBytes := first.asBytes ++ Word.toBeBytes (99900 : UInt64) ++ List.replicate 25 3
  Crypto.ofTable
    [(List.replicate 36 0 ++ "deposit".toUTF8.toList,
        H256.ofNatBE 0xfcd811262cec83c811edceb4f733fcd5489d0cbcc989fbca1f549c69f30694d2),
      (List.replicate 32 1 ++ "withdrawal".toUTF8.toList, first),
      (List.replicate 32 2 ++ "withdrawal".toUTF8.toList, second),
      (firstBytes,
        H256.ofNatBE 0x588fa70159971f5d1123a45d7bbf773a284d1034ecfce936cdf610fb7cbc30e1),
      (firstBytes ++ second.asBytes ++ Word.toBeBytes (199800 : UInt64) ++ List.replicate 25 4,
        H256.ofNatBE 0x0b57a023e2403ab9dcd2659bd84a41154cb54e1ebccc0465c0432ce47c68363d)]

def pegDepositId : B256 := Bridge.computeDepositId pegCrypto H256.zero 0

def pegWithdrawalId : B256 := Bridge.computeWithdrawalId pegCrypto (Vector.replicate 32 1)

noncomputable def next (place : Nat) : PegStep := resume (Column.KeyOrder.ofList []) place

def pegCreateDeposit : PegStep :=
  createDeposit 0 H256.zero 0 (Vector.replicate 20 2) 200000 50 H256.zero

/-- A deposit is stored, confirmed and minted. -/
noncomputable def pegDeposit : List PegStep :=
  [pegCreateDeposit, next 0, updateDepositConfirmations pegDepositId 60,
    completeDeposit pegDepositId (Vector.replicate 32 5)]

/-- A withdrawal is stored, and put into the root. -/
noncomputable def pegWithdraw : List PegStep :=
  [initiateWithdrawal 1000 (Vector.replicate 32 1) (Vector.replicate 20 2) (Vector.replicate 25 3)
    100000 7, next 0, next 0]

def pegCheck : PegStep := checkWithdrawalReady 605800 pegWithdrawalId

def pegComplete : PegStep := completeWithdrawal pegWithdrawalId H256.zero

theorem safe_deposit_and_withdrawal :
    let steps := pegDeposit ++ pegWithdraw ++ [pegCheck, next 0, next 0, pegComplete]
    PegSafe pegCrypto .default steps ∧
      (run pegCrypto (.start .default) steps).bridge.totalDeposited = 200000 ∧
      (run pegCrypto (.start .default) steps).bridge.totalWithdrawn = 99900 := by
  intro steps
  refine ⟨?_, by decide +kernel, by decide +kernel⟩
  refine safe_of_careful pegCrypto .default steps ?_ ?_ steps List.prefix_rfl
  · intro pre hpre
    rw [List.prefix_iff_eq_take.mp hpre]
    have hall : ∀ i < 12, (run pegCrypto (.start .default) (steps.take i)).bridge.mintedTotal
        < 2 ^ 64 := by decide +kernel
    exact hall _ (Nat.lt_succ_of_le hpre.length_le)
  · refine forall_prefixes_snoc fun i hi => ?_
    have hall : ∀ i : Fin 11, steps[i].Careful (run pegCrypto (.start .default) (steps.take i)) := by
      decide +kernel
    exact hall ⟨i, hi⟩

/-- A withdrawal is paid though nothing came in; it is made ready by two calls and paid
after each; a deposit is stored by two calls, the second time after it was minted. -/
theorem peg_not_safe :
    ¬ PegSafe pegCrypto .default (pegWithdraw ++ [pegCheck, next 0, next 0, pegComplete]) ∧
    ¬ PegSafe pegCrypto .default (pegDeposit ++ pegWithdraw ++
      [pegCheck, pegCheck, next 0, next 1, pegComplete, next 0, next 0, pegComplete]) ∧
    ¬ PegSafe pegCrypto .default (pegCreateDeposit :: pegDeposit ++ [next 0]) := by
  refine ⟨fun h => ?_, fun h => ?_, fun h => ?_⟩
  · exact absurd h.covered (by decide +kernel)
  · have hevents : events pegCrypto (.start .default) (pegDeposit ++ pegWithdraw ++
        [pegCheck, pegCheck, next 0, next 1, pegComplete, next 0, next 0, pegComplete])
          = [.paid pegWithdrawalId, .paid pegWithdrawalId] := by decide +kernel
    have honce := h.once
    rw [hevents, List.pairwise_cons] at honce
    exact (honce.1 _ (List.mem_singleton_self _) _ rfl).1 rfl
  · exact absurd h.deposited (by decide +kernel)

end PegStep

end Pyrax.Evm
