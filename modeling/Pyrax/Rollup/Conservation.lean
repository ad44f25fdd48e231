import Pyrax.Rollup.Bridge
import Pyrax.Base.Run
import Mathlib.Data.List.Infix

/-!
# Conservation of funds on the bridge

Whether the bridge of `zkrollup/bridge.rs` keeps its books. Beside the bridge an
audit keeps two lists the source does not: the withdrawals that were initiated,
and those that were paid out, on L1 by `finalize_withdrawal` or back on L2 by
`challenge_withdrawal`. The books are right (`Conserved`) when L2 balances,
withdrawals on their way and finalized withdrawals together are the initial
balances and the processed deposits, when the records of the two maps are the
initiated withdrawals one for one, and when nothing is paid more often than it
was initiated.

A withdrawal id is a hash of sender, recipient, amount and the second it was
initiated in, and both maps are written without looking: a second withdrawal with
the id of a pending one replaces its record, and the debited amount is gone.
`conserved_iff_fresh` says that this is the only thing that can go wrong.
-/

namespace Pyrax.Rollup

open Base

/-! ## The books -/

/-- The amount of a withdrawal on its way. -/
def onTheWay (w : Withdrawal) : Nat :=
  if w.status = .pending ∨ w.status = .proven ∨ w.status = .ready then w.amount.toNat else 0

/-- Everything the bridge holds or has paid on L1. -/
def funds (b : L2Bridge) : Nat :=
  totalBalance b.state + Column.total onTheWay b.pendingWithdrawals +
    Column.total (fun w : Withdrawal => w.amount.toNat) b.finalizedWithdrawals

/-- The exact sum of the processed deposits. -/
def deposited (b : L2Bridge) : Nat :=
  Column.total (fun d : Deposit => d.amount.toNat) b.processedDeposits

/-- The records of both maps, as they were initiated. -/
def withdrawals (b : L2Bridge) : Multiset Withdrawal :=
  Column.records Withdrawal.asInitiated b.pendingWithdrawals +
    Column.records Withdrawal.asInitiated b.finalizedWithdrawals

/-- A bridge with the withdrawals that were initiated and those that were paid. -/
structure Audit where
  bridge : L2Bridge
  initiated : Multiset Withdrawal
  paid : Multiset Withdrawal

/-- The books are right, for a bridge that started on the state `s`. -/
structure Conserved (s : L2State) (a : Audit) : Prop where
  funds : funds a.bridge = totalBalance s + deposited a.bridge
  kept : withdrawals a.bridge = a.initiated
  once : a.paid ≤ a.initiated

namespace BridgeOp

variable (C : Crypto)

/-- The withdrawal a call initiates if it succeeds. -/
def initiates (b : L2Bridge) : BridgeOp → Multiset Withdrawal
  | initiateWithdrawal now created sender recipient amount =>
    {L2Bridge.newWithdrawal C now created b sender recipient amount}
  | _ => 0

/-- The record under an id, as it was initiated. -/
def slipAt (b : L2Bridge) (id : H256) : Multiset Withdrawal :=
  (b.pendingWithdrawals.lookup id).elim 0 fun w => {w.asInitiated}

/-- The withdrawal a call pays out if it succeeds. -/
def pays (b : L2Bridge) : BridgeOp → Multiset Withdrawal
  | finalizeWithdrawal _ _ id _ => slipAt b id
  | challengeWithdrawal id _ => slipAt b id
  | _ => 0

/-- No record is written over: the id of a new withdrawal is not pending, the id
of one that is finalized is not finalized yet. -/
def Fresh (b : L2Bridge) : BridgeOp → Prop
  | op@(initiateWithdrawal now created sender recipient amount) => op.Enabled C b →
      b.pendingWithdrawals.lookup
        (L2Bridge.newWithdrawal C now created b sender recipient amount).id = none
  | op@(finalizeWithdrawal _ _ id _) => op.Enabled C b →
      b.finalizedWithdrawals.lookup id = none
  | _ => True

end BridgeOp

namespace Audit

variable (C : Crypto) (P : Platform)

/-- The books before the first call. -/
def start (s : L2State) : Audit := ⟨L2Bridge.new s, 0, 0⟩

def step (a : Audit) (op : BridgeOp) : Audit :=
  let r := op.run C P a.bridge
  { bridge := r.1
    initiated := (if r.2 then op.initiates C a.bridge else 0) + a.initiated
    paid := (if r.2 then op.pays a.bridge else 0) + a.paid }

def run (a : Audit) (ops : List BridgeOp) : Audit := ops.foldl (step C P) a

end Audit

/-! ## One record -/

/-- A withdrawal that was not paid back. -/
def openSlip (w : Withdrawal) : Multiset Withdrawal :=
  if w.status = .challenged then 0 else {w.asInitiated}

theorem openSlip_of {w : Withdrawal} (h : w.status ≠ .challenged) :
    openSlip w = {w.asInitiated} := if_neg h

namespace Withdrawal

variable {w : Withdrawal} {now : UInt64}

theorem status_of_isReady (h : w.isReady now = true) :
    w.status = .proven ∨ w.status = .challenging := by
  rw [isReady] at h
  split at h
  · cases h
  · next hst => tauto

theorem ne_challenged_of (h : w.status = .proven ∨ w.status = .challenging) :
    w.status ≠ .challenged := by
  rcases h with h | h <;> simp [h]

theorem ne_challenged_of_ready (h : w.isReady now = true ∨ w.status = .ready) :
    w.status ≠ .challenged := by
  rcases h with h | h
  · exact ne_challenged_of (status_of_isReady h)
  · simp [h]

theorem challenge_of (h : w.status = .proven ∨ w.status = .challenging) :
    w.challenge = { w with status := .challenged } := by
  rw [challenge, if_pos h]

/-- `mark_ready` moves nothing but the status, and that from proven on. -/
theorem markReady_cases (now : UInt64) (w : Withdrawal) :
    w.markReady now = w ∨
      w.markReady now = { w with status := .ready } ∧
        (w.status = .proven ∨ w.status = .challenging) := by
  rw [markReady]
  split
  · next h => exact Or.inr ⟨rfl, status_of_isReady h⟩
  · exact Or.inl rfl

theorem asInitiated_markReady (now : UInt64) (w : Withdrawal) :
    (w.markReady now).asInitiated = w.asInitiated := by
  rcases w.markReady_cases now with heq | ⟨heq, _⟩
  · rw [heq]
  · rw [heq]
    rfl

theorem openSlip_markReady (now : UInt64) (w : Withdrawal) :
    openSlip (w.markReady now) = openSlip w := by
  rcases w.markReady_cases now with heq | ⟨heq, hst⟩
  · rw [heq]
  · have hne := ne_challenged_of hst
    have hne' : (w.markReady now).status ≠ .challenged := by simp [heq]
    rw [openSlip_of hne, openSlip_of hne', asInitiated_markReady]

theorem onTheWay_markReady (now : UInt64) (h : w.status ≠ .challenging) :
    onTheWay (w.markReady now) = onTheWay w := by
  rcases w.markReady_cases now with heq | ⟨heq, hst⟩
  · rw [heq]
  · have hproven := hst.resolve_right h
    rw [heq, onTheWay, onTheWay, if_pos (Or.inr (Or.inl hproven))]
    rfl

end Withdrawal

/-! ## The effect of a call -/

/-- No deposit is both pending and processed, and a pending withdrawal has one of
four statuses. -/
structure Orderly (b : L2Bridge) : Prop where
  deposits : ∀ id, b.pendingDeposits.lookup id ≠ none → b.processedDeposits.lookup id = none
  statuses : ∀ id w, b.pendingWithdrawals.lookup id = some w →
    w.status = .pending ∨ w.status = .proven ∨ w.status = .ready ∨ w.status = .challenged

variable {C : Crypto} {P : Platform} {s : L2State} {op : BridgeOp} {b b' : L2Bridge} {ok : Bool}

theorem Orderly.new (s : L2State) : Orderly (L2Bridge.new s) where
  deposits _ h := absurd (Finmap.lookup_empty _) h
  statuses _ _ h := by
    rw [L2Bridge.new, Finmap.lookup_empty] at h
    cases h

theorem Orderly.ne_challenging (h : Orderly b) {id : H256} {w : Withdrawal}
    (hlookup : b.pendingWithdrawals.lookup id = some w) : w.status ≠ .challenging := by
  rcases h.statuses id w hlookup with hst | hst | hst | hst <;> simp [hst]

/-- What is pending and not paid back is on its way. -/
theorem Orderly.onTheWay_eq (h : Orderly b) {id : H256} {w : Withdrawal}
    (hlookup : b.pendingWithdrawals.lookup id = some w) (hst : w.status ≠ .challenged) :
    onTheWay w = w.amount.toNat := by
  have hcases := h.statuses id w hlookup
  exact if_pos (by tauto)

theorem orderly_effect (h : Orderly b) (heff : BridgeOp.Effect C P b op b' ok) : Orderly b' := by
  cases heff with
  | refused _ => exact h
  | @recorded deposit _ hp hq =>
    refine ⟨fun id hid => ?_, h.statuses⟩
    by_cases heq : id = deposit.id
    · exact heq ▸ hq
    · rw [Finmap.lookup_insert_of_ne _ heq] at hid
      exact h.deposits id hid
  | @processed _ id' _ deposit _ hl =>
    refine ⟨fun id hid => ?_, h.statuses⟩
    by_cases heq : id = id'
    · rw [heq, Finmap.lookup_erase] at hid
      exact absurd rfl hid
    · rw [Finmap.lookup_erase_ne heq] at hid
      rw [Finmap.lookup_insert_of_ne _ heq]
      exact h.deposits id hid
  | initiated hw _ =>
    exact ⟨h.deposits, Column.forall_lookup_insert h.statuses (Or.inl (by rw [hw]; rfl))⟩
  | proven _ _ _ =>
    exact ⟨h.deposits, Column.forall_lookup_insert h.statuses (Or.inr (Or.inl rfl))⟩
  | updated now =>
    refine ⟨h.deposits, fun id w hl => ?_⟩
    rw [L2Bridge.updateReadyWithdrawals, Column.lookup_mapValues] at hl
    obtain ⟨w₀, hl₀, rfl⟩ := Option.map_eq_some_iff.mp hl
    rcases w₀.markReady_cases (now id) with heq | ⟨heq, _⟩
    · rw [heq]
      exact h.statuses id w₀ hl₀
    · rw [heq]
      exact Or.inr (Or.inr (Or.inl rfl))
  | finalized _ _ => exact ⟨h.deposits, Column.forall_lookup_erase h.statuses _⟩
  | challenged hl hst =>
    refine ⟨h.deposits, Column.forall_lookup_insert h.statuses ?_⟩
    rw [Withdrawal.challenge_of hst]
    exact Or.inr (Or.inr (Or.inr rfl))

/-- **The records** after a call on fresh ids: those before and the one it
initiates. -/
theorem withdrawals_effect (hfresh : op.Fresh C b) (heff : BridgeOp.Effect C P b op b' ok) :
    withdrawals b' = (if ok then op.initiates C b else 0) + withdrawals b := by
  cases heff with
  | refused _ => exact (zero_add _).symm
  | recorded _ _ => exact (zero_add _).symm
  | processed _ => exact (zero_add _).symm
  | initiated hw hdebit =>
    subst hw
    have hnew := Finmap.lookup_eq_none.mp (hfresh (debit_ok_iff.mp hdebit).1)
    rw [withdrawals, withdrawals, Column.records_insert_of_notMem _ _ hnew, Multiset.cons_add]
    rfl
  | @proven now _ proof w _ _ hl _ =>
    have hsame : (w.submitProof now proof).asInitiated = w.asInitiated := rfl
    rw [withdrawals, withdrawals, Column.records_insert_same _ hl hsame]
    exact (zero_add _).symm
  | updated now =>
    have hsame := Column.records_mapValues (m := b.pendingWithdrawals)
      fun id w _ => w.asInitiated_markReady (now id)
    rw [withdrawals, withdrawals, L2Bridge.updateReadyWithdrawals, hsame]
    exact (zero_add _).symm
  | finalized hl hready =>
    have hnew := Finmap.lookup_eq_none.mp (hfresh ⟨_, hl, hready⟩)
    rw [withdrawals, withdrawals, Column.records_insert_of_notMem _ _ hnew,
      ← Column.records_erase Withdrawal.asInitiated hl, Multiset.add_cons, Multiset.cons_add]
    exact (zero_add _).symm
  | @challenged _ _ w _ hl hst =>
    have hsame : w.challenge.asInitiated = w.asInitiated := by
      rw [Withdrawal.challenge_of hst]
      rfl
    rw [withdrawals, withdrawals, Column.records_insert_same _ hl hsame]
    exact (zero_add _).symm

/-- **The open withdrawals** after a call on fresh ids: what it initiates comes
in, what it pays goes out. -/
theorem open_effect (hfresh : op.Fresh C b) (heff : BridgeOp.Effect C P b op b' ok) :
    (if ok then op.pays b else 0) + (Column.records openSlip b'.pendingWithdrawals).sum
      = (if ok then op.initiates C b else 0) +
        (Column.records openSlip b.pendingWithdrawals).sum := by
  cases heff with
  | refused _ => rfl
  | recorded _ _ => rfl
  | processed _ => rfl
  | initiated hw hdebit =>
    subst hw
    have hnew := Finmap.lookup_eq_none.mp (hfresh (debit_ok_iff.mp hdebit).1)
    rw [Column.sum_records_insert _ _ hnew]
    exact zero_add _
  | @proven now _ proof w _ _ hl hst =>
    have hsame : openSlip (w.submitProof now proof) = openSlip w := by
      have hne : w.status ≠ .challenged := by simp [hst]
      rw [openSlip_of hne]
      rfl
    rw [Column.records_insert_same _ hl hsame]
    rfl
  | updated now =>
    have hsame := Column.records_mapValues (m := b.pendingWithdrawals)
      fun id w _ => w.openSlip_markReady (now id)
    rw [L2Bridge.updateReadyWithdrawals, hsame]
    rfl
  | @finalized _ _ id _ w _ hl hready =>
    have hopen : openSlip w = {w.asInitiated} := 
      openSlip_of (Withdrawal.ne_challenged_of_ready hready)
    rw [← Column.sum_records_erase openSlip hl, hopen]
    simp [BridgeOp.pays, BridgeOp.slipAt, BridgeOp.initiates, hl]
  | @challenged id _ w _ hl hst =>
    have hopen : openSlip w = {w.asInitiated} :=
      openSlip_of (Withdrawal.ne_challenged_of hst)
    have hshut : openSlip w.challenge = 0 := by
      rw [Withdrawal.challenge_of hst]
      rfl
    have hrep := Column.sum_records_replace openSlip hl w.challenge
    rw [hopen, hshut] at hrep
    simpa [BridgeOp.pays, BridgeOp.slipAt, BridgeOp.initiates, hl] using hrep

/-- **The funds** after a call on fresh ids grow by what it deposits, as long as
that fits. -/
theorem funds_effect (h : Orderly b) (hfresh : op.Fresh C b)
    (heff : BridgeOp.Effect C P b op b' ok)
    (hfit : funds b + deposited b' < 2 ^ 64 + deposited b) :
    funds b' + deposited b = funds b + deposited b' := by
  cases heff with
  | refused _ => rfl
  | recorded _ _ => rfl
  | @processed _ id l2TxHash deposit _ hl =>
    have hnew := Finmap.lookup_eq_none.mp (h.deposits id (by simp [hl]))
    have hdep := Column.total_insert_of_notMem (fun d : Deposit => d.amount.toNat)
      (deposit.markProcessed l2TxHash) hnew
    simp only [funds, deposited] at hfit ⊢
    rw [hdep] at hfit ⊢
    have hamount : (deposit.markProcessed l2TxHash).amount = deposit.amount := rfl
    rw [hamount] at hfit ⊢
    rw [totalBalance_credit (by omega)]
    omega
  | @initiated now created sender recipient amount state _ w hw hdebit =>
    subst hw
    have hnew := Finmap.lookup_eq_none.mp (hfresh (debit_ok_iff.mp hdebit).1)
    have htotal := totalBalance_debit hdebit
    have hins := Column.total_insert_of_notMem onTheWay
      (L2Bridge.newWithdrawal C now created b sender recipient amount) hnew
    have hway : onTheWay (L2Bridge.newWithdrawal C now created b sender recipient amount)
        = amount.toNat := rfl
    simp only [funds, deposited]
    omega
  | @proven now _ proof w _ _ hl hst =>
    have hsame : onTheWay (w.submitProof now proof) = onTheWay w := by
      rw [onTheWay, onTheWay, if_pos (Or.inl hst)]
      rfl
    have hrec := Column.records_insert_same onTheWay hl hsame
    simp only [funds, deposited, Column.total_eq_sum, hrec]
  | updated now =>
    have hsame := Column.records_mapValues (m := b.pendingWithdrawals)
      fun id w hl => w.onTheWay_markReady (now id) (h.ne_challenging hl)
    simp only [funds, deposited, L2Bridge.updateReadyWithdrawals, Column.total_eq_sum, hsame]
  | @finalized _ stamp id l1TxHash w _ hl hready =>
    have hnew := Finmap.lookup_eq_none.mp (hfresh ⟨_, hl, hready⟩)
    have hway := h.onTheWay_eq hl (Withdrawal.ne_challenged_of_ready hready)
    have hout := Column.sum_records_erase onTheWay hl
    have hin := Column.total_insert_of_notMem (fun w : Withdrawal => w.amount.toNat)
      (w.finalize stamp l1TxHash) hnew
    have hamount : (w.finalize stamp l1TxHash).amount = w.amount := rfl
    simp only [funds, deposited, Column.total_eq_sum] at hin ⊢
    rw [hamount] at hin
    omega
  | @challenged id _ w _ hl hst =>
    have hway := h.onTheWay_eq hl (Withdrawal.ne_challenged_of hst)
    have hshut : onTheWay w.challenge = 0 := by
      rw [Withdrawal.challenge_of hst]
      rfl
    have hrep := Column.sum_records_replace onTheWay hl w.challenge
    simp only [funds, deposited, Column.total_eq_sum] at hfit ⊢
    rw [totalBalance_credit (by omega)]
    omega

/-! ## Whole runs -/

/-- Right books with what keeps them right: what was paid and what is open are
the initiated withdrawals. -/
structure Books (s : L2State) (a : Audit) : Prop where
  funds : funds a.bridge = totalBalance s + deposited a.bridge
  kept : withdrawals a.bridge = a.initiated
  settled : a.paid + (Column.records openSlip a.bridge.pendingWithdrawals).sum = a.initiated
  orderly : Orderly a.bridge

variable {a : Audit}

theorem Books.conserved (h : Books s a) : Conserved s a :=
  ⟨h.funds, h.kept, h.settled ▸ Multiset.le_add_right _ _⟩

theorem books_start (s : L2State) : Books s (Audit.start s) := ⟨rfl, rfl, rfl, Orderly.new s⟩

theorem run_snoc (a : Audit) (ops : List BridgeOp) (op : BridgeOp) :
    a.run C P (ops ++ [op]) = (a.run C P ops).step C P op := by
  rw [Audit.run, Audit.run, List.foldl_append]
  rfl

theorem books_step (h : Books s a) (hfresh : op.Fresh C a.bridge)
    (hfit : totalBalance s + deposited (a.step C P op).bridge < 2 ^ 64) :
    Books s (a.step C P op) := by
  have heff := BridgeOp.effect_run (C := C) (P := P) a.bridge op
  have hfunds := h.funds
  have hstep := funds_effect h.orderly hfresh heff (by
    simp only [Audit.step] at hfit
    omega)
  refine ⟨?_, ?_, ?_, orderly_effect h.orderly heff⟩
  · simp only [Audit.step] at hfit ⊢
    omega
  · simp only [Audit.step]
    rw [withdrawals_effect hfresh heff, h.kept]
  · have hopen := open_effect hfresh heff
    simp only [Audit.step]
    rw [add_right_comm, hopen, add_assoc, add_comm _ a.paid, h.settled]

theorem fresh_of_not_enabled (h : ¬ op.Enabled C b) : op.Fresh C b := by
  cases op with
  | initiateWithdrawal now created sender recipient amount => exact fun hen => absurd hen h
  | finalizeWithdrawal now stamp id l1TxHash => exact fun hen => absurd hen h
  | _ => trivial

/-- A call that writes over a record leaves one record too few. -/
theorem fresh_of_withdrawals (heff : BridgeOp.Effect C P b op b' ok)
    (h : withdrawals b' = (if ok then op.initiates C b else 0) + withdrawals b) :
    op.Fresh C b := by
  have hcard := congrArg Multiset.card h
  cases heff with
  | refused hnot => exact fresh_of_not_enabled hnot
  | recorded _ _ => trivial
  | processed _ => trivial
  | @initiated now created sender recipient amount _ _ w hw _ =>
    subst hw
    intro _
    refine Option.eq_none_iff_forall_not_mem.mpr fun w₀ hl => ?_
    have hrep := congrArg Multiset.card (Column.records_replace Withdrawal.asInitiated hl
      (L2Bridge.newWithdrawal C now created b sender recipient amount))
    simp only [withdrawals, BridgeOp.initiates, if_true, Multiset.card_add,
      Multiset.card_singleton] at hcard
    rw [Multiset.card_cons, Multiset.card_cons] at hrep
    omega
  | proven _ _ _ => trivial
  | updated _ => trivial
  | @finalized _ stamp _ l1TxHash w _ hl _ =>
    intro _
    refine Option.eq_none_iff_forall_not_mem.mpr fun w₀ hl₀ => ?_
    have hout := congrArg Multiset.card (Column.records_erase Withdrawal.asInitiated hl)
    have hrep := congrArg Multiset.card (Column.records_replace Withdrawal.asInitiated hl₀
      (w.finalize stamp l1TxHash))
    simp only [withdrawals, BridgeOp.initiates, if_true, Multiset.card_add,
      Multiset.card_zero] at hcard
    rw [Multiset.card_cons] at hout
    rw [Multiset.card_cons, Multiset.card_cons] at hrep
    omega
  | challenged _ _ => trivial

/-- **Funds are conserved**, no record is lost and none is paid twice, in every
state of a run exactly when no call of it writes over a record. -/
theorem conserved_iff_fresh (C : Crypto) (P : Platform) (s : L2State) (ops : List BridgeOp)
    (hfit : ∀ pre, pre <+: ops →
      totalBalance s + deposited ((Audit.start s).run C P pre).bridge < 2 ^ 64) :
    (∀ pre, pre <+: ops → Conserved s ((Audit.start s).run C P pre)) ↔
      ∀ pre op, pre ++ [op] <+: ops → op.Fresh C ((Audit.start s).run C P pre).bridge := by
  constructor
  · intro hall pre op hpre
    have hbefore := (hall pre ((List.prefix_append pre [op]).trans hpre)).kept
    have hafter := (hall _ hpre).kept
    rw [run_snoc] at hafter
    refine fresh_of_withdrawals (BridgeOp.effect_run (C := C) (P := P) _ op) ?_
    rw [hbefore]
    exact hafter
  · intro hfresh pre hpre
    refine (forall_prefixes (P := fun pre => Books s ((Audit.start s).run C P pre))
      (books_start s) (fun pre op hpre h => ?_) pre hpre).conserved
    have hnext := hfit _ hpre
    rw [run_snoc] at hnext ⊢
    exact books_step h (hfresh pre op hpre) hnext

/-! ### Two withdrawals of the same amount -/

/-- Alice withdraws three to Bob, twice, at two times. -/
def twice (first second : UInt64) : List BridgeOp :=
  [.initiateWithdrawal first first alice bob 3, .initiateWithdrawal second second alice bob 3]

/-- The digests the bridge asks for when the times are 100 and 101. -/
def twiceTable : List (List UInt8 × H256) :=
  let tx₁ := H256.ofNatBE 0xc907e4baf7a3878b15c85cd1086012eeba7c7f98bd2cf435305372594c335bc1
  let id₁ := H256.ofNatBE 0x0a551c235d0fcfd348c3b231cb9378f5172e56c9a7d4fe048f0ebef389571bd3
  let tx₂ := H256.ofNatBE 0x2a70955c891884fb43f7625952e61b97c24ad08e86def6227e6e274ec57c444a
  let id₂ := H256.ofNatBE 0xa6e7aab1175550b957860c155705487497e2deba93937cbee31f3edadb83162b
  let parties := alice.asBytes ++ bob.asBytes ++ Wire.encU64 3
  [(parties ++ Wire.encU64 100, tx₁), (tx₁.asBytes ++ alice.asBytes ++ Wire.encU64 3, id₁),
    (id₁.asBytes ++ parties ++ tx₁.asBytes,
      H256.ofNatBE 0xf8f01ed39dc8c25ef9d5b5490b3617ea3de191473a52e2cda2662f0f3416fbea),
    (parties ++ Wire.encU64 101, tx₂), (tx₂.asBytes ++ alice.asBytes ++ Wire.encU64 3, id₂),
    (id₂.asBytes ++ parties ++ tx₂.asBytes,
      H256.ofNatBE 0x13635fbdeb5c0067a3b83e8b68b03b6c84646e36e7f84ab24377b483277e5daf)]

def twiceCrypto : Crypto := Crypto.ofTable twiceTable

/-- A new state where Alice was credited ten. -/
noncomputable def aliceState : L2State :=
  (L2State.new twiceCrypto).credit twiceCrypto Platform.exact alice 10

/-- In two different seconds both withdrawals are kept. -/
theorem conserved_iff_fresh_twoSeconds :
    Conserved aliceState
      ((Audit.start aliceState).run twiceCrypto Platform.exact (twice 100 101)) := by
  have hfit : ∀ pre ∈ (twice 100 101).inits, totalBalance aliceState +
      deposited ((Audit.start aliceState).run twiceCrypto Platform.exact pre).bridge < 2 ^ 64 := by
    decide +kernel
  refine (conserved_iff_fresh _ _ _ _ fun pre hpre => hfit pre ((List.mem_inits _ _).mpr hpre)).mpr
    (fun pre op hpre => ?_) _ (List.prefix_refl _)
  obtain ⟨post, hpost⟩ := hpre
  match pre, hpost with
  | [], hpost =>
    cases hpost
    exact fun _ => by decide +kernel
  | [_], hpost =>
    cases hpost
    exact fun _ => by decide +kernel
  | _ :: _ :: _, hpost => simp [twice] at hpost

/-- In the same second the second record replaces the first: Alice is debited
six, and the bridge owes her three. -/
theorem withdrawal_lost :
    ¬ ∀ (C : Crypto) (P : Platform) (s : L2State) (ops : List BridgeOp),
      (∀ pre, pre <+: ops →
        totalBalance s + deposited ((Audit.start s).run C P pre).bridge < 2 ^ 64) →
      Conserved s ((Audit.start s).run C P ops) := by
  intro hall
  have hfit : ∀ pre ∈ (twice 100 100).inits, totalBalance aliceState +
      deposited ((Audit.start aliceState).run twiceCrypto Platform.exact pre).bridge < 2 ^ 64 := by
    decide +kernel
  have h := hall twiceCrypto Platform.exact aliceState (twice 100 100) fun pre hpre =>
    hfit pre ((List.mem_inits _ _).mpr hpre)
  exact absurd h.funds (by decide +kernel)

end Pyrax.Rollup
