import Pyrax.Base.Run
import Pyrax.Bridge.CrossModel

/-!
# Finished cross-model transactions

The statuses of a cross-model transaction, and what the calls on it and the manager's sweep of
the expired ones do to them. A complete or refunded transaction should stay so, complete should
follow on a confirmed destination only, and the sweep should leave alone what is closed.

The three updates in the middle of a transaction's life ask for the status they start from.
`submit`, `complete`, `fail` and `refund` do not, the sweep passes over the expired only, and
the manager stores a transaction over whatever stands under its id. `staysFinished_iff` says
which calls of a run do harm. What the calls do depends on the status alone (`Lawful`), so it
is decided status by status.
-/

namespace Pyrax.Bridge

open Base

namespace CrossModelTransaction

def isExpired (tx : CrossModelTransaction) (now : UInt64) : Bool := tx.expiresAt < now

def isSourceConfirmed (tx : CrossModelTransaction) : Bool :=
  tx.requiredSourceConfirmations ≤ tx.sourceConfirmations

def isDestConfirmed (tx : CrossModelTransaction) : Bool :=
  tx.requiredDestConfirmations ≤ tx.destConfirmations

def updateSourceConfirmations (tx : CrossModelTransaction) (confirmations : UInt64) :
    CrossModelTransaction :=
  let tx := { tx with sourceConfirmations := confirmations }
  if tx.isSourceConfirmed ∧ tx.status = .submitted then { tx with status := .sourceConfirmed }
  else tx

def updateDestConfirmations (tx : CrossModelTransaction) (confirmations : UInt64) :
    CrossModelTransaction :=
  let tx := { tx with destConfirmations := confirmations }
  if tx.isDestConfirmed ∧ tx.status = .processing then { tx with status := .destConfirmed }
  else tx

def submit (tx : CrossModelTransaction) (sourceTxHash : H256) : CrossModelTransaction :=
  { tx with sourceTxHash := some sourceTxHash, status := .submitted }

def startProcessing (tx : CrossModelTransaction) : CrossModelTransaction :=
  if tx.status = .sourceConfirmed then { tx with status := .processing } else tx

def setDestTx (tx : CrossModelTransaction) (destTxHash : H256) : CrossModelTransaction :=
  { tx with destTxHash := some destTxHash }

def complete (tx : CrossModelTransaction) (now : UInt64) : CrossModelTransaction :=
  { tx with status := .complete, completedAt := some now }

def fail (tx : CrossModelTransaction) (error : String) : CrossModelTransaction :=
  { tx with status := .failed, error := some error }

def refund (tx : CrossModelTransaction) (now : UInt64) : CrossModelTransaction :=
  { tx with status := .refunded, completedAt := some now }

/-- What the sweep picks. -/
def IsDue (tx : CrossModelTransaction) (now : UInt64) : Prop :=
  tx.isExpired now ∧ tx.status ≠ .expired

instance (tx : CrossModelTransaction) (now : UInt64) : Decidable (tx.IsDue now) :=
  inferInstanceAs (Decidable (_ ∧ _))

end CrossModelTransaction

/-- A call on a stored transaction. -/
inductive TxOp where
  | submit (sourceTxHash : H256)
  | updateSourceConfirmations (confirmations : UInt64)
  | updateDestConfirmations (confirmations : UInt64)
  | startProcessing
  | setDestTx (destTxHash : H256)
  | complete (now : UInt64)
  | fail (error : String)
  | refund (now : UInt64)

def TxOp.apply (tx : CrossModelTransaction) : TxOp → CrossModelTransaction
  | submit sourceTxHash => tx.submit sourceTxHash
  | updateSourceConfirmations confirmations => tx.updateSourceConfirmations confirmations
  | updateDestConfirmations confirmations => tx.updateDestConfirmations confirmations
  | startProcessing => tx.startProcessing
  | setDestTx destTxHash => tx.setDestTx destTxHash
  | complete now => tx.complete now
  | fail error => tx.fail error
  | refund now => tx.refund now

namespace CrossModelTxManager

/-- The status of the transaction under an id. -/
def status (m : CrossModelTxManager) (id : H256) : Option CrossModelTxStatus :=
  (m.transactions.lookup id).map (·.status)

def updateStatus (m : CrossModelTxManager) (id : H256)
    (f : CrossModelTransaction → CrossModelTransaction) : CrossModelTxManager :=
  match m.transactions.lookup id with
  | some tx => { m with transactions := m.transactions.insert id (f tx) }
  | none => m

/-- The loop writes each entry in place, whatever the order, and pushes its id in that order.
The clock is read at every entry. -/
def processExpired (m : CrossModelTxManager)
    (order : Column.KeyOrder H256 CrossModelTransaction) (clock : H256 → UInt64) :
    CrossModelTxManager × List H256 :=
  ({ m with
      transactions := Column.mapValues
        (fun id tx => if tx.IsDue (clock id) then { tx with status := .expired } else tx)
        m.transactions },
    ((order.entries m.transactions).filter (fun e => e.2.IsDue (clock e.1))).map Prod.fst)

end CrossModelTxManager

/-- A call on the manager. -/
inductive TxStep where
  | submit (tx : CrossModelTransaction)
  | update (id : H256) (op : TxOp)
  | processExpired (order : Column.KeyOrder H256 CrossModelTransaction) (clock : H256 → UInt64)

namespace TxStep

def apply (m : CrossModelTxManager) : TxStep → CrossModelTxManager
  | submit tx =>
    match m.submit tx with
    | .ok (m', _) => m'
    | .error _ => m
  | update id op => m.updateStatus id (fun tx => op.apply tx)
  | processExpired order clock => (m.processExpired order clock).1

def run (m : CrossModelTxManager) (steps : List TxStep) : CrossModelTxManager :=
  steps.foldl apply m

theorem run_snoc (m : CrossModelTxManager) (steps : List TxStep) (step : TxStep) :
    run m (steps ++ [step]) = step.apply (run m steps) :=
  List.foldl_concat ..

end TxStep

/-! ## What a status should keep -/

namespace CrossModelTxStatus

def Finished (status : CrossModelTxStatus) : Prop := status = .complete ∨ status = .refunded

def Closed (status : CrossModelTxStatus) : Prop := status.Finished ∨ status = .failed

instance (status : CrossModelTxStatus) : Decidable status.Finished :=
  inferInstanceAs (Decidable (_ ∨ _))

instance (status : CrossModelTxStatus) : Decidable status.Closed :=
  inferInstanceAs (Decidable (_ ∨ _))

end CrossModelTxStatus

open TxStep

/-- What a run from `m` should keep. -/
structure StaysFinished (m : CrossModelTxManager) (steps : List TxStep) : Prop where
  keeps : ∀ pre post id status, pre ++ post <+: steps → (run m pre).status id = some status →
    status.Finished → (run m (pre ++ post)).status id = some status
  confirmed : ∀ pre step id, pre ++ [step] <+: steps →
    (run m (pre ++ [step])).status id = some .complete →
    (run m pre).status id = some .complete ∨ (run m pre).status id = some .destConfirmed
  expires : ∀ pre order clock id, pre ++ [processExpired order clock] <+: steps →
    id ∈ ((run m pre).processExpired order clock).2 ∨
      (run m (pre ++ [processExpired order clock])).status id = some .expired ∧
        (run m pre).status id ≠ some .expired →
    ∃ status, (run m pre).status id = some status ∧ ¬ status.Closed

/-- The statuses from which a call does no harm. -/
def TxOp.Sound (status : CrossModelTxStatus) : TxOp → Prop
  | submit _ | fail _ => ¬ status.Finished
  | complete _ => status = .destConfirmed ∨ status = .complete
  | refund _ => status ≠ .complete
  | updateSourceConfirmations _ | updateDestConfirmations _ | startProcessing | setDestTx _ => True

/-- The managers on which a call does no harm. -/
def TxStep.Sound (m : CrossModelTxManager) : TxStep → Prop
  | submit tx => tx.verify = .ok () →
    (∀ status, m.status tx.id = some status → status.Finished → tx.status = status) ∧
      (tx.status = .complete →
        m.status tx.id = some .complete ∨ m.status tx.id = some .destConfirmed)
  | update id op => ∀ status, m.status id = some status → op.Sound status
  | processExpired _ clock => ∀ id tx, m.transactions.lookup id = some tx →
    tx.isExpired (clock id) → ¬ tx.status.Closed

/-! ## One call -/

/-- What a call may do to the status under an id. -/
structure Lawful (before after : Option CrossModelTxStatus) : Prop where
  keeps : ∀ status, before = some status → status.Finished → after = some status
  confirmed : after = some .complete → before = some .complete ∨ before = some .destConfirmed

namespace Lawful

variable {s s' : CrossModelTxStatus}

theorem refl (before : Option CrossModelTxStatus) : Lawful before before :=
  ⟨fun _ h _ => h, .inl⟩

theorem to_some_iff {before : Option CrossModelTxStatus} : Lawful before (some s') ↔
    (∀ status, before = some status → status.Finished → s' = status) ∧
      (s' = .complete → before = some .complete ∨ before = some .destConfirmed) := by
  constructor
  · intro h
    exact ⟨fun status hs hfinished => Option.some.inj (h.keeps status hs hfinished),
      fun hcomplete => h.confirmed (congrArg some hcomplete)⟩
  · intro h
    exact ⟨fun status hs hfinished => congrArg some (h.1 status hs hfinished),
      fun hcomplete => h.2 (Option.some.inj hcomplete)⟩

theorem some_iff : Lawful (some s) (some s') ↔
    (s.Finished → s' = s) ∧ (s' = .complete → s = .complete ∨ s = .destConfirmed) := by
  rw [to_some_iff]
  simp only [Option.some.injEq, forall_eq']

instance : Decidable (Lawful (some s) (some s')) := decidable_of_iff _ some_iff.symm

end Lawful

/-- A call that asks for the status it starts from. -/
theorem lawful_ite {p : Prop} [Decidable p] {tx tx₁ tx₂ : CrossModelTransaction}
    {s s' : CrossModelTxStatus} (hp : p → tx.status = s) (hsame : tx₂.status = tx.status)
    (hmoves : tx₁.status = s') (h : Lawful (some s) (some s')) :
    Lawful (some tx.status) (some (if p then tx₁ else tx₂).status) := by
  split
  · next hasked =>
    rw [hp hasked, hmoves]
    exact h
  · rw [hsame]
    exact Lawful.refl _

theorem lawful_op_iff (tx : CrossModelTransaction) (op : TxOp) :
    Lawful (some tx.status) (some (op.apply tx).status) ↔ op.Sound tx.status := by
  cases op with
  | submit sourceTxHash =>
    show Lawful (some tx.status) (some .submitted) ↔ ¬ tx.status.Finished
    cases tx.status <;> decide
  | updateSourceConfirmations confirmations =>
    have hmove : Lawful (some .submitted) (some .sourceConfirmed) := by decide
    exact iff_of_true (lawful_ite And.right rfl rfl hmove) trivial
  | updateDestConfirmations confirmations =>
    have hmove : Lawful (some .processing) (some .destConfirmed) := by decide
    exact iff_of_true (lawful_ite And.right rfl rfl hmove) trivial
  | startProcessing =>
    have hmove : Lawful (some .sourceConfirmed) (some .processing) := by decide
    exact iff_of_true (lawful_ite id rfl rfl hmove) trivial
  | setDestTx destTxHash => exact iff_of_true (Lawful.refl _) trivial
  | complete now =>
    show Lawful (some tx.status) (some .complete) ↔
      tx.status = .destConfirmed ∨ tx.status = .complete
    cases tx.status <;> decide
  | fail error =>
    show Lawful (some tx.status) (some .failed) ↔ ¬ tx.status.Finished
    cases tx.status <;> decide
  | refund now =>
    show Lawful (some tx.status) (some .refunded) ↔ tx.status ≠ .complete
    cases tx.status <;> decide

namespace CrossModelTxManager

variable {m : CrossModelTxManager} {id : H256}

theorem status_eq_some {status : CrossModelTxStatus} :
    m.status id = some status ↔ ∃ tx, m.transactions.lookup id = some tx ∧ tx.status = status :=
  Option.map_eq_some_iff

theorem status_updateStatus_self {f : CrossModelTransaction → CrossModelTransaction}
    {tx : CrossModelTransaction} (h : m.transactions.lookup id = some tx) :
    (m.updateStatus id f).status id = some (f tx).status := by
  unfold updateStatus status
  rw [h]
  show ((m.transactions.insert id (f tx)).lookup id).map _ = _
  rw [Finmap.lookup_insert]
  rfl

theorem status_updateStatus_of_ne {f : CrossModelTransaction → CrossModelTransaction} {id' : H256}
    (h : id' ≠ id) : (m.updateStatus id f).status id' = m.status id' := by
  unfold updateStatus status
  split
  · exact congrArg (Option.map _) (Finmap.lookup_insert_of_ne _ h)
  · rfl

theorem status_processExpired (order : Column.KeyOrder H256 CrossModelTransaction)
    (clock : H256 → UInt64) (id : H256) :
    (m.processExpired order clock).1.status id = (m.transactions.lookup id).map fun tx =>
      if tx.IsDue (clock id) then .expired else tx.status := by
  show ((Column.mapValues _ m.transactions).lookup id).map _ = _
  rw [Column.lookup_mapValues, Option.map_map]
  congr 1
  funext tx
  exact apply_ite CrossModelTransaction.status ..

theorem mem_processExpired {order : Column.KeyOrder H256 CrossModelTransaction}
    {clock : H256 → UInt64} :
    id ∈ (m.processExpired order clock).2 ↔
      ∃ tx, m.transactions.lookup id = some tx ∧ tx.IsDue (clock id) := by
  show id ∈ ((order.entries m.transactions).filter _).map Prod.fst ↔ _
  rw [List.mem_map]
  constructor
  · intro h
    obtain ⟨e, he, rfl⟩ := h
    obtain ⟨he, hdue⟩ := List.mem_filter.mp he
    exact ⟨e.2, Column.KeyOrder.mem_entries.mp he, of_decide_eq_true hdue⟩
  · intro h
    obtain ⟨tx, htx, hdue⟩ := h
    exact ⟨(id, tx), List.mem_filter.mpr
      ⟨Column.KeyOrder.mem_entries.mpr htx, decide_eq_true hdue⟩, rfl⟩

end CrossModelTxManager

namespace TxStep

variable {m : CrossModelTxManager}

/-- What a call on the manager should keep. -/
structure Keeps (m : CrossModelTxManager) (step : TxStep) : Prop where
  lawful : ∀ id, Lawful (m.status id) ((step.apply m).status id)
  expires : ∀ order clock id, step = processExpired order clock →
    id ∈ (m.processExpired order clock).2 ∨
      ((processExpired order clock).apply m).status id = some .expired ∧
        m.status id ≠ some .expired →
    ∃ status, m.status id = some status ∧ ¬ status.Closed

theorem keeps_submit_iff (tx : CrossModelTransaction) :
    (submit tx).Keeps m ↔ (submit tx).Sound m := by
  cases hsubmit : m.submit tx with
  | error e =>
    have hsame : (submit tx).apply m = m := by
      simp only [apply, hsubmit]
    have hverify : tx.verify ≠ .ok () := by
      intro hok
      unfold CrossModelTxManager.submit at hsubmit
      rw [hok] at hsubmit
      cases hsubmit
    refine iff_of_true ⟨fun id => ?_, nofun⟩ fun hok => absurd hok hverify
    rw [hsame]
    exact Lawful.refl _
  | ok r =>
    obtain ⟨m', id⟩ := r
    obtain ⟨hverify, -, hstored⟩ := CrossModelTxManager.submit_eq_ok hsubmit
    have hm' : (submit tx).apply m = m' := by
      simp only [apply, hsubmit]
    have hself : m'.status tx.id = some tx.status := by
      unfold CrossModelTxManager.status
      rw [hstored, Finmap.lookup_insert]
      rfl
    have hother : ∀ id, id ≠ tx.id → m'.status id = m.status id := by
      intro id hne
      unfold CrossModelTxManager.status
      rw [hstored, Finmap.lookup_insert_of_ne _ hne]
    constructor
    · intro h _
      have hlawful := h.lawful tx.id
      rw [hm', hself] at hlawful
      exact Lawful.to_some_iff.mp hlawful
    · intro h
      refine ⟨fun id => ?_, nofun⟩
      rw [hm']
      by_cases hid : id = tx.id
      · rw [hid, hself]
        exact Lawful.to_some_iff.mpr (h hverify)
      · rw [hother id hid]
        exact Lawful.refl _

theorem keeps_update_iff (id : H256) (op : TxOp) :
    (update id op).Keeps m ↔ (update id op).Sound m := by
  constructor
  · intro h status hstatus
    obtain ⟨tx, htx, rfl⟩ := CrossModelTxManager.status_eq_some.mp hstatus
    have hlawful := h.lawful id
    rw [hstatus, show (update id op).apply m = m.updateStatus id (fun tx => op.apply tx) from rfl,
      CrossModelTxManager.status_updateStatus_self htx] at hlawful
    exact (lawful_op_iff tx op).mp hlawful
  · intro h
    refine ⟨fun id' => ?_, nofun⟩
    show Lawful (m.status id') ((m.updateStatus id fun tx => op.apply tx).status id')
    by_cases hid : id' = id
    · rw [hid]
      cases htx : m.transactions.lookup id with
      | none =>
        unfold CrossModelTxManager.updateStatus
        rw [htx]
        exact Lawful.refl _
      | some tx =>
        have hstatus := CrossModelTxManager.status_eq_some.mpr ⟨tx, htx, rfl⟩
        rw [CrossModelTxManager.status_updateStatus_self htx, hstatus]
        exact (lawful_op_iff tx op).mpr (h _ hstatus)
    · rw [CrossModelTxManager.status_updateStatus_of_ne hid]
      exact Lawful.refl _

theorem keeps_processExpired_iff (order : Column.KeyOrder H256 CrossModelTransaction)
    (clock : H256 → UInt64) :
    (processExpired order clock).Keeps m ↔ (processExpired order clock).Sound m := by
  constructor
  · intro h id tx htx hexpired hclosed
    -- what is closed is not expired yet, so the sweep reports it
    have hdue : tx.IsDue (clock id) := by
      refine ⟨hexpired, fun hstatus => ?_⟩
      rw [hstatus] at hclosed
      exact absurd hclosed (by decide)
    obtain ⟨status, hstatus, hopen⟩ := h.expires order clock id rfl
      (.inl (CrossModelTxManager.mem_processExpired.mpr ⟨tx, htx, hdue⟩))
    obtain ⟨tx', htx', rfl⟩ := CrossModelTxManager.status_eq_some.mp hstatus
    rw [htx] at htx'
    cases htx'
    exact hopen hclosed
  · intro h
    have hafter := CrossModelTxManager.status_processExpired (m := m) order clock
    refine ⟨fun id => ?_, fun order' clock' id heq hid => ?_⟩
    · show Lawful (m.status id) ((m.processExpired order clock).1.status id)
      rw [hafter, CrossModelTxManager.status]
      cases htx : m.transactions.lookup id with
      | none => exact Lawful.refl _
      | some tx =>
        show Lawful (some tx.status) (some (if tx.IsDue (clock id) then .expired else tx.status))
        split
        · next hdue =>
          exact Lawful.some_iff.mpr
            ⟨fun hfinished => absurd (.inl hfinished) (h id tx htx hdue.1), nofun⟩
        · exact Lawful.refl _
    · cases heq
      have hdue : ∃ tx, m.transactions.lookup id = some tx ∧ tx.IsDue (clock id) := by
        rcases hid with hid | hid
        · exact CrossModelTxManager.mem_processExpired.mp hid
        · have hexpired : (m.processExpired order clock).1.status id = some .expired := hid.1
          rw [hafter] at hexpired
          obtain ⟨tx, htx, hstatus⟩ := Option.map_eq_some_iff.mp hexpired
          refine ⟨tx, htx, ?_⟩
          by_contra hnot
          rw [if_neg hnot] at hstatus
          exact hid.2 (CrossModelTxManager.status_eq_some.mpr ⟨tx, htx, hstatus⟩)
      obtain ⟨tx, htx, hdue⟩ := hdue
      exact ⟨tx.status, CrossModelTxManager.status_eq_some.mpr ⟨tx, htx, rfl⟩,
        h id tx htx hdue.1⟩

theorem keeps_iff (step : TxStep) : step.Keeps m ↔ step.Sound m := by
  cases step with
  | submit tx => exact keeps_submit_iff tx
  | update id op => exact keeps_update_iff id op
  | processExpired order clock => exact keeps_processExpired_iff order clock

end TxStep

/-! ## Runs -/

/-- What is finished at one moment of a run is so at another. -/
def KeepsFinished (m : CrossModelTxManager) (pre post : List TxStep) : Prop :=
  ∀ id status, (run m pre).status id = some status → status.Finished →
    (run m post).status id = some status

/-- A run keeps what is finished, and the rest, exactly when each of its calls is sound on the
manager it finds. -/
theorem staysFinished_iff (m : CrossModelTxManager) (steps : List TxStep) :
    StaysFinished m steps ↔ ∀ pre step, pre ++ [step] <+: steps → step.Sound (run m pre) := by
  have hlater : (∀ pre post, pre ++ post <+: steps → KeepsFinished m pre (pre ++ post)) ↔
      ∀ pre step, pre ++ [step] <+: steps → KeepsFinished m pre (pre ++ [step]) :=
    forall_later_iff (fun _ _ _ h _ => h)
      (fun _ _ _ hab hbc id status h hfinished => hbc id status (hab id status h hfinished) hfinished)
  constructor
  · intro h pre step hpre
    refine (keeps_iff step).mp ⟨fun id => ⟨fun status hstatus hfinished => ?_, fun hcomplete => ?_⟩,
      fun order clock id heq hid => ?_⟩
    · rw [← run_snoc]
      exact h.keeps pre [step] id status hpre hstatus hfinished
    · rw [← run_snoc] at hcomplete
      exact h.confirmed pre step id hpre hcomplete
    · rw [heq] at hpre
      rw [← run_snoc] at hid
      exact h.expires pre order clock id hpre hid
  · intro h
    have hkeeps : ∀ pre step, pre ++ [step] <+: steps → step.Keeps (run m pre) :=
      fun pre step hpre => (keeps_iff step).mpr (h pre step hpre)
    refine ⟨fun pre post id status hpre => ?_, fun pre step id hpre hcomplete => ?_,
      fun pre order clock id hpre hid => ?_⟩
    · refine hlater.mpr (fun pre step hpre id status hstatus hfinished => ?_) pre post hpre id status
      rw [run_snoc]
      exact ((hkeeps pre step hpre).lawful id).keeps status hstatus hfinished
    · rw [run_snoc] at hcomplete
      exact ((hkeeps pre step hpre).lawful id).confirmed hcomplete
    · rw [run_snoc] at hid
      exact (hkeeps pre _ hpre).expires order clock id rfl hid

/-! ## A day later -/

/-- The id of the transaction below. -/
def mintCrypto : Crypto := Crypto.ofTable
  [(List.replicate 32 1 ++ [0, 0, 0, 0] ++ List.replicate 20 2 ++ Word.toBeBytes 999000000 ++
      Word.toBeBytes 1700000000,
    H256.ofNatBE 0x2c461259bb77d4558a6b6683199df2616fe601656d0238a7e488ac9b45e0593e)]

def mintTx : CrossModelTransaction :=
  .lockAndMint mintCrypto 1700000000 1700000000 1700000000
    [⟨⟨⟨Vector.replicate 32 1⟩, 0⟩, 1000000000, ⟨Vector.replicate 20 1⟩, []⟩] (Vector.replicate 20 2)
    SwapOp.payerAddress

/-- Ten minutes to the end, and the sweep the day after. -/
noncomputable def mintSteps : List TxStep :=
  [.submit mintTx, .update mintTx.id (.submit H256.zero),
    .update mintTx.id (.updateSourceConfirmations 6), .update mintTx.id .startProcessing,
    .update mintTx.id (.updateDestConfirmations 12), .update mintTx.id (.complete 1700000600),
    .processExpired (Column.KeyOrder.ofList []) fun _ => 1700086401]

/-- The sweep makes an expired transaction of a complete one, and what was only just stored can
be completed. -/
theorem complete_expires :
    (run .new (mintSteps.take 6)).status mintTx.id = some .complete ∧
      (run .new mintSteps).status mintTx.id = some .expired ∧
      ¬ StaysFinished .new mintSteps ∧
      ¬ StaysFinished .new [.submit mintTx, .update mintTx.id (.complete 1700000600)] := by
  have hcomplete : (run .new (mintSteps.take 6)).status mintTx.id = some .complete := by
    decide +kernel
  have hexpired : (run .new mintSteps).status mintTx.id = some .expired := by decide +kernel
  refine ⟨hcomplete, hexpired, fun h => ?_, fun h => ?_⟩
  · have hkept := h.keeps (mintSteps.take 6) (mintSteps.drop 6) mintTx.id .complete
      (by rw [List.take_append_drop]) hcomplete (by decide)
    rw [List.take_append_drop, hexpired] at hkept
    cases hkept
  · have hfrom := h.confirmed [.submit mintTx] (.update mintTx.id (.complete 1700000600)) mintTx.id
      List.prefix_rfl (by decide +kernel)
    exact absurd hfrom (by decide +kernel)

end Pyrax.Bridge
