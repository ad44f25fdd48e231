import Pyrax.Bridge.Backing

/-!
# Each conversion is paid once

A conversion is paid when `complete_mint` or `complete_unlock` returns `Ok` for it.
That should happen once at most, to a confirmed conversion, on a bridge that is not
stopped, and a completed conversion should stay what it is (`PaidOnce`).

`complete_unlock` never returns `Ok`: past its checks it waits for its own lock, and
the run ends there. `complete_mint` looks at the direction alone. So the law is the
callers': it holds along a run exactly when every call that mints finds a ready
conversion and the bridge not stopped, and no new request gets the id of a completed
one (`paidOnce_iff`). That a ready conversion has its confirmations is the bridge's
own doing (`Confirming`).
-/

namespace Pyrax.Bridge

open Base

namespace DualStateOp

open ConversionRequest DualStateBridge

/-- The conversion for which a call that returns says `Ok`. -/
def paid (s : DualStateBridge) : DualStateOp → Option H256
  | completeMint mintedAt completedAt conversionId mintTxHash mintBlock =>
    match s.completeMint mintedAt completedAt conversionId mintTxHash mintBlock with
    | .ok _ => some conversionId
    | .error _ => none
  -- what returns is an error
  | completeUnlock .. => none
  | lock .. | burn .. | updateHeights .. | processConfirmations .. | getNextReady | pause
  | resume | emergencyStop => none

/-- What is paid along a run, in order. -/
def payments (C : Crypto) (s : DualStateBridge) : List DualStateOp → List H256
  | [] => []
  | op :: ops => (op.paid s).toList ++ payments C (op.apply C s) ops

/-- Along the run every conversion is paid once at most, when it is confirmed and the
bridge is not stopped, and is left alone when it is completed. -/
structure PaidOnce (C : Crypto) (ops : List DualStateOp) : Prop where
  once : (payments C DualStateBridge.new ops).Nodup
  confirmed : ∀ pre op, pre ++ [op] <+: ops → ∀ id ∈ op.paid (run C DualStateBridge.new pre),
    ∃ c, (run C DualStateBridge.new pre).conversions.lookup id = some c ∧
      c.status = .confirmed ∧ c.requiredConfirmations ≤ c.confirmations
  running : ∀ pre op, pre ++ [op] <+: ops → ∀ id ∈ op.paid (run C DualStateBridge.new pre),
    (run C DualStateBridge.new pre).state ≠ .stopped
  frozen : ∀ pre post, pre ++ post <+: ops → ∀ id c,
    (run C DualStateBridge.new pre).conversions.lookup id = some c → c.status = .completed →
    (run C DualStateBridge.new (pre ++ post)).conversions.lookup id = some c

/-- The call replaces no completed conversion, and what it mints is ready while the
bridge is not stopped. -/
def Orderly (C : Crypto) (s : DualStateBridge) : DualStateOp → Prop
  | lock idAt _ _ outpoint lockTxHash amount utxoOwner _ =>
    s.AcceptsLock outpoint amount → ¬ s.Taken (generateId C idAt lockTxHash utxoOwner amount)
  | burn idAt _ burnTxHash amount evmBurner _ =>
    s.AcceptsBurn amount → ¬ s.Taken (generateId C idAt burnTxHash ⟨evmBurner⟩ amount)
  | completeMint _ _ conversionId _ _ =>
    ∀ c, s.conversions.lookup conversionId = some c → c.direction = .utxoToAccount →
      c.isReady ∧ s.state ≠ .stopped
  | updateHeights .. | processConfirmations .. | getNextReady | completeUnlock .. | pause
  | resume | emergencyStop => True

end DualStateOp

/-! ## One call -/

theorem ConversionRequest.updateConfirmations_confirmed {c : ConversionRequest} {height : UInt64}
    (hpending : c.status = .pending)
    (hconfirmed : (c.updateConfirmations height).status = .confirmed) :
    (c.updateConfirmations height).requiredConfirmations
      ≤ (c.updateConfirmations height).confirmations := by
  unfold updateConfirmations at hconfirmed ⊢
  split at hconfirmed
  · next hheight =>
    rw [if_pos hheight]
    have hreached : (if c.requiredConfirmations ≤ height - c.requestHeight + 1 ∧
        c.status = .pending then ConversionStatus.confirmed else c.status) = .confirmed :=
      hconfirmed
    split at hreached
    · next hboth => exact hboth.1
    · rw [hpending] at hreached
      cases hreached
  · rw [hpending] at hconfirmed
    cases hconfirmed

namespace DualStateBridge

open ConversionRequest

variable {C : Crypto} {s s' : DualStateBridge} {id : H256} {c : ConversionRequest}

/-- Whoever is confirmed has the confirmations. -/
def Confirming (s : DualStateBridge) : Prop :=
  ∀ id c, s.conversions.lookup id = some c → c.status = .confirmed →
    c.requiredConfirmations ≤ c.confirmations

/-- What is completed in `s` is the same in `s'`. -/
def Frozen (s s' : DualStateBridge) : Prop :=
  ∀ id c, s.conversions.lookup id = some c → c.status = .completed →
    s'.conversions.lookup id = some c

theorem Frozen.refl (s : DualStateBridge) : Frozen s s := fun _ _ hc _ => hc

theorem Frozen.trans {s₁ s₂ s₃ : DualStateBridge} (h₁ : Frozen s₁ s₂) (h₂ : Frozen s₂ s₃) :
    Frozen s₁ s₃ :=
  fun id c hc hcompleted => h₂ id c (h₁ id c hc hcompleted) hcompleted

theorem Frozen.taken (h : Frozen s s') (htaken : s.Taken id) : s'.Taken id := by
  obtain ⟨c, hc, hcompleted⟩ := htaken
  exact ⟨c, h id c hc hcompleted, hcompleted⟩

/-- Putting a conversion where none is completed. -/
theorem frozen_insert (hconversions : s'.conversions = s.conversions.insert id c)
    (hfree : ¬ s.Taken id) : Frozen s s' := by
  intro id' c' hc' hcompleted
  rw [hconversions]
  by_cases hid : id' = id
  · exact absurd ⟨c', hid ▸ hc', hcompleted⟩ hfree
  · rw [Finmap.lookup_insert_of_ne _ hid]
    exact hc'

/-- A request over a completed conversion thaws it. -/
theorem not_frozen_of_taken (hconversions : s'.conversions = s.conversions.insert id c)
    (htaken : s.Taken id) (hstatus : c.status = .pending) : ¬ Frozen s s' := by
  intro hfrozen
  obtain ⟨c', hc', hcompleted⟩ := htaken
  have hkept := hfrozen id c' hc' hcompleted
  rw [hconversions, Finmap.lookup_insert] at hkept
  cases hkept
  rw [hstatus] at hcompleted
  cases hcompleted

theorem not_taken_of_isReady (hc : s.conversions.lookup id = some c) (hready : c.isReady) :
    ¬ s.Taken id := by
  rintro ⟨c', hc', hcompleted⟩
  cases hc.symm.trans hc'
  rw [isReady, hcompleted] at hready
  cases hready

theorem frozen_processConfirmations (s : DualStateBridge) (order : ConversionOrder) :
    Frozen s (s.processConfirmations order) := by
  intro id c hc hcompleted
  have hstays : c.confirm s.utxoHeight s.evmHeight = c := by
    rw [confirm, hcompleted]
    rfl
  show (s.conversions.mapValues _).lookup id = _
  rw [Column.lookup_mapValues, hc, Option.map_some, hstays]

theorem Confirming.insert (h : Confirming s) (hstatus : c.status ≠ .confirmed)
    (hconversions : s'.conversions = s.conversions.insert id c) : Confirming s' := by
  rw [Confirming, hconversions]
  exact Column.forall_lookup_insert h fun hconfirmed => absurd hconfirmed hstatus

/-- Who is confirmed by a pass has reached what is required. -/
theorem Confirming.confirm {utxoHeight evmHeight : UInt64}
    (hc : c.status = .confirmed → c.requiredConfirmations ≤ c.confirmations)
    (hconfirmed : (c.confirm utxoHeight evmHeight).status = .confirmed) :
    (c.confirm utxoHeight evmHeight).requiredConfirmations
      ≤ (c.confirm utxoHeight evmHeight).confirmations := by
  unfold ConversionRequest.confirm at hconfirmed ⊢
  by_cases hpending : c.status = .pending
  · rw [if_pos hpending] at hconfirmed ⊢
    exact updateConfirmations_confirmed hpending hconfirmed
  · rw [if_neg hpending] at hconfirmed ⊢
    exact hc hconfirmed

theorem Confirming.processConfirmations (h : Confirming s) (order : ConversionOrder) :
    Confirming (s.processConfirmations order) := by
  intro id c' hc'
  have hlookup : (s.conversions.mapValues fun _ c => c.confirm s.utxoHeight s.evmHeight).lookup id
      = some c' := hc'
  rw [Column.lookup_mapValues] at hlookup
  obtain ⟨c, hc, rfl⟩ := Option.map_eq_some_iff.mp hlookup
  exact Confirming.confirm (h id c hc)

end DualStateBridge

namespace DualStateOp

open ConversionRequest DualStateBridge

variable {C : Crypto} {s : DualStateBridge} {op : DualStateOp} {id : H256}

/-- **One orderly call** that returns leaves every completed conversion alone. -/
theorem frozen_apply (h : op.Orderly C s) (hreturns : op.hangs s = false) :
    Frozen s (op.apply C s) := by
  cases op with
  | lock idAt createdAt lockedAt outpoint lockTxHash amount utxoOwner evmRecipient =>
    rw [apply]
    split
    · next s' id hok =>
      obtain ⟨haccepts, r, hid, _, hconversions, _⟩ := lockUtxo_ok hok
      exact frozen_insert hconversions (hid ▸ h haccepts)
    · exact Frozen.refl s
  | burn idAt createdAt burnTxHash amount evmBurner utxoRecipient =>
    rw [apply]
    split
    · next s' id hok =>
      obtain ⟨haccepts, r, hid, _, hconversions, _⟩ := burnForUtxo_ok hok
      exact frozen_insert hconversions (hid ▸ h haccepts)
    · exact Frozen.refl s
  | completeMint mintedAt completedAt conversionId mintTxHash mintBlock =>
    rw [apply]
    split
    · next s' hok =>
      obtain ⟨c, hc, hdirection, hconversions, _⟩ := completeMint_ok hok
      exact frozen_insert hconversions (not_taken_of_isReady hc (h c hc hdirection).1)
    · exact Frozen.refl s
  | completeUnlock completedAt conversionId unlockTxHash =>
    rw [apply_completeUnlock hreturns]
    exact Frozen.refl s
  | processConfirmations order => exact frozen_processConfirmations s order
  | updateHeights => exact Frozen.refl s
  | getNextReady => exact Frozen.refl s
  | pause => exact Frozen.refl s
  | resume => exact Frozen.refl s
  | emergencyStop => exact Frozen.refl s

/-- Whatever returns, who is confirmed has the confirmations. -/
theorem confirming_apply (h : Confirming s) (C : Crypto) (hreturns : op.hangs s = false) :
    Confirming (op.apply C s) := by
  cases op with
  | lock idAt createdAt lockedAt outpoint lockTxHash amount utxoOwner evmRecipient =>
    rw [apply]
    split
    · next s' id hok =>
      obtain ⟨_, r, _, hfresh, hconversions, _⟩ := lockUtxo_ok hok
      exact h.insert (by simp [hfresh.status]) hconversions
    · exact h
  | burn idAt createdAt burnTxHash amount evmBurner utxoRecipient =>
    rw [apply]
    split
    · next s' id hok =>
      obtain ⟨_, r, _, hfresh, hconversions, _⟩ := burnForUtxo_ok hok
      exact h.insert (by simp [hfresh.status]) hconversions
    · exact h
  | completeMint mintedAt completedAt conversionId mintTxHash mintBlock =>
    rw [apply]
    split
    · next s' hok =>
      obtain ⟨c, _, _, hconversions, _⟩ := completeMint_ok hok
      exact h.insert (by simp [(c.completed_fields _ _).1]) hconversions
    · exact h
  | completeUnlock completedAt conversionId unlockTxHash =>
    rw [apply_completeUnlock hreturns]
    exact h
  | processConfirmations order => exact h.processConfirmations order
  | updateHeights => exact h
  | getNextReady => exact h
  | pause => exact h
  | resume => exact h
  | emergencyStop => exact h

/-- An orderly call that pays finds a ready conversion on a running bridge, and leaves
it completed. -/
theorem Orderly.of_paid (h : op.Orderly C s) (hpaid : id ∈ op.paid s) :
    (∃ c, s.conversions.lookup id = some c ∧ c.isReady) ∧ s.state ≠ .stopped ∧
      (op.apply C s).Taken id := by
  cases op with
  | completeMint mintedAt completedAt conversionId mintTxHash mintBlock =>
    rw [paid] at hpaid
    split at hpaid
    · next s' hok =>
      cases hpaid
      obtain ⟨c, hc, hdirection, hconversions, _⟩ := completeMint_ok hok
      obtain ⟨hready, hrunning⟩ := h c hc hdirection
      rw [apply, hok]
      refine ⟨⟨c, hc, hready⟩, hrunning, _, ?_, (c.completed_fields completedAt ⟨mintTxHash⟩).1⟩
      rw [hconversions, Finmap.lookup_insert]
    · cases hpaid
  | completeUnlock => cases hpaid
  | lock => cases hpaid
  | burn => cases hpaid
  | processConfirmations => cases hpaid
  | updateHeights => cases hpaid
  | getNextReady => cases hpaid
  | pause => cases hpaid
  | resume => cases hpaid
  | emergencyStop => cases hpaid

/-- A call that pays only what is confirmed, on a running bridge, and keeps what is
completed, is orderly. -/
theorem orderly_of_paid (hfrozen : Frozen s (op.apply C s))
    (hconfirmed : ∀ id ∈ op.paid s, ∃ c, s.conversions.lookup id = some c ∧ c.status = .confirmed)
    (hrunning : ∀ id ∈ op.paid s, s.state ≠ .stopped) : op.Orderly C s := by
  have hready : ∀ id c, id ∈ op.paid s → s.conversions.lookup id = some c →
      c.isReady ∧ s.state ≠ .stopped := by
    intro id c hpaid hc
    obtain ⟨c', hc', hstatus⟩ := hconfirmed id hpaid
    cases hc.symm.trans hc'
    exact ⟨decide_eq_true hstatus, hrunning id hpaid⟩
  cases op with
  | lock idAt createdAt lockedAt outpoint lockTxHash amount utxoOwner evmRecipient =>
    intro haccepts htaken
    obtain ⟨s', id, hok⟩ := exists_lockUtxo haccepts
    rw [apply, hok] at hfrozen
    obtain ⟨_, r, hid, hfresh, hconversions, _⟩ := lockUtxo_ok hok
    exact not_frozen_of_taken hconversions (hid ▸ htaken) hfresh.status hfrozen
  | burn idAt createdAt burnTxHash amount evmBurner utxoRecipient =>
    intro haccepts htaken
    obtain ⟨s', id, hok⟩ := exists_burnForUtxo haccepts
    rw [apply, hok] at hfrozen
    obtain ⟨_, r, hid, hfresh, hconversions, _⟩ := burnForUtxo_ok hok
    exact not_frozen_of_taken hconversions (hid ▸ htaken) hfresh.status hfrozen
  | completeMint mintedAt completedAt conversionId mintTxHash mintBlock =>
    intro c hc hdirection
    obtain ⟨s', hok⟩ := exists_completeMint hc hdirection
    exact hready conversionId c (by rw [paid, hok]; rfl) hc
  | completeUnlock => trivial
  | processConfirmations => trivial
  | updateHeights => trivial
  | getNextReady => trivial
  | pause => trivial
  | resume => trivial
  | emergencyStop => trivial

/-! ## Runs -/

theorem payments_snoc (C : Crypto) (s : DualStateBridge) (ops : List DualStateOp)
    (op : DualStateOp) :
    payments C s (ops ++ [op]) = payments C s ops ++ (op.paid (run C s ops)).toList := by
  induction ops generalizing s with
  | nil => exact List.append_nil _
  | cons first ops ih =>
    show (first.paid s).toList ++ payments C (first.apply C s) (ops ++ [op]) = _
    rw [ih, ← List.append_assoc]
    rfl

/-- What is kept along an orderly run: what was paid is completed. -/
structure Settled (C : Crypto) (pre : List DualStateOp) : Prop where
  confirming : Confirming (run C DualStateBridge.new pre)
  taken : ∀ id ∈ payments C DualStateBridge.new pre, (run C DualStateBridge.new pre).Taken id
  once : (payments C DualStateBridge.new pre).Nodup

theorem settled_nil (C : Crypto) : Settled C [] :=
  ⟨nofun, nofun, List.nodup_nil⟩

theorem Settled.snoc {pre : List DualStateOp} (h : Settled C pre)
    (hreturns : op.hangs (run C DualStateBridge.new pre) = false)
    (horderly : op.Orderly C (run C DualStateBridge.new pre)) : Settled C (pre ++ [op]) := by
  have hfrozen := frozen_apply horderly hreturns
  refine ⟨?_, ?_, ?_⟩
  · rw [run_snoc]
    exact confirming_apply h.confirming C hreturns
  · intro id hid
    rw [payments_snoc, List.mem_append, Option.mem_toList] at hid
    rw [run_snoc]
    rcases hid with hearlier | hnow
    · exact hfrozen.taken (h.taken id hearlier)
    · exact (horderly.of_paid hnow).2.2
  · rw [payments_snoc]
    have hsingle : (op.paid (run C DualStateBridge.new pre)).toList.Nodup := by
      cases op.paid (run C DualStateBridge.new pre) with
      | none => exact List.nodup_nil
      | some id => exact List.nodup_singleton id
    refine List.nodup_append'.mpr ⟨h.once, hsingle, ?_⟩
    intro id hearlier hnow
    -- what was paid is completed, what is paid now is ready
    obtain ⟨⟨c, hc, hready⟩, _⟩ := horderly.of_paid (Option.mem_toList.mp hnow)
    exact not_taken_of_isReady hc hready (h.taken id hearlier)

/-- **Paid once.** Of the calls of a run that return, every conversion is paid once at
most, when confirmed and while the bridge is not stopped, and is frozen when
completed, exactly when every one of them is orderly. -/
theorem paidOnce_iff (C : Crypto) (ops : List DualStateOp) :
    PaidOnce C (returned C DualStateBridge.new ops) ↔
      ∀ pre op, pre ++ [op] <+: returned C DualStateBridge.new ops →
        op.Orderly C (run C DualStateBridge.new pre) := by
  have hreturns : ∀ pre op, pre ++ [op] <+: returned C DualStateBridge.new ops →
      op.hangs (run C DualStateBridge.new pre) = false := fun _ _ hpre => hangs_of_returned hpre
  generalize returned C DualStateBridge.new ops = ops at *
  constructor
  · intro h pre op hpre
    refine orderly_of_paid ?_ ?_ (h.running pre op hpre)
    · rw [← run_snoc]
      exact h.frozen pre [op] hpre
    · intro id hid
      obtain ⟨c, hc, hstatus, _⟩ := h.confirmed pre op hpre id hid
      exact ⟨c, hc, hstatus⟩
  · intro horderly
    have hsettled : ∀ pre, pre <+: ops → Settled C pre :=
      forall_prefixes (settled_nil C) fun pre op hpre h =>
        h.snoc (hreturns pre op hpre) (horderly pre op hpre)
    refine ⟨(hsettled ops List.prefix_rfl).once, ?_, ?_, ?_⟩
    · intro pre op hpre id hid
      obtain ⟨⟨c, hc, hready⟩, _⟩ := (horderly pre op hpre).of_paid hid
      have hstatus : c.status = .confirmed := of_decide_eq_true hready
      have hconfirming := (hsettled pre ((List.prefix_append pre [op]).trans hpre)).confirming
      exact ⟨c, hc, hstatus, hconfirming id c hc hstatus⟩
    · intro pre op hpre id hid
      exact ((horderly pre op hpre).of_paid hid).2.1
    · refine (forall_later_iff (R := fun pre later =>
        Frozen (run C DualStateBridge.new pre) (run C DualStateBridge.new later))
        (fun pre => Frozen.refl _) fun a b c => Frozen.trans).mpr ?_
      intro pre op hpre
      rw [run_snoc]
      exact frozen_apply (horderly pre op hpre) (hreturns pre op hpre)

/-- Minted twice on a stopped bridge, with no confirmation. Every call returns. -/
theorem paid_twice_while_stopped :
    let ops := [lockTen, emergencyStop, mintTen, mintTen]
    let s := run lockCrypto DualStateBridge.new [lockTen, emergencyStop]
    ¬ PaidOnce lockCrypto (returned lockCrypto DualStateBridge.new ops) ∧
      returned lockCrypto DualStateBridge.new ops = ops ∧
      payments lockCrypto DualStateBridge.new ops = [lockId, lockId] ∧ s.state = .stopped ∧
      (s.conversions.lookup lockId).map (fun c => (c.status, c.confirmations))
        = some (.pending, 0) := by
  have hpayments : payments lockCrypto DualStateBridge.new
      [lockTen, emergencyStop, mintTen, mintTen] = [lockId, lockId] := by
    decide +kernel
  refine ⟨fun h => ?_, rfl, hpayments, rfl, by decide +kernel⟩
  have honce : (payments lockCrypto DualStateBridge.new
      [lockTen, emergencyStop, mintTen, mintTen]).Nodup := h.once
  rw [hpayments] at honce
  exact absurd honce (by simp)

end DualStateOp

end Pyrax.Bridge
