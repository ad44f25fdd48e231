import Pyrax.Evm.Turns
import Pyrax.Evm.Value

/-!
# Gas within the limit

`execute_transaction` should report no more gas than the limit, and all of it for a call that
runs out. The interpreter compares the gas with the limit before an opcode and adds the price
after, so the last opcode of a run can draw more than there is (`Overdraws`); nothing looks at
the sum again, unless a contract is made. And when a call is out of gas its result is a failure
with gas nought, to which only the base is added.

`billed_iff`: there is nothing else. The report is right exactly where no run overdraws and
no call is exhausted but one that had nothing above its base.
-/

namespace Pyrax.Evm

open Base Word Machine EvmInterpreter

namespace EvmExecutor

section

variable (K : Curves) (C : Crypto) (s : StateDB) (tx : EvmTransaction) (sender : Address)
  (ctx : TransactionContext)

/-- The code of a call comes to an opcode with no gas left. -/
def CallExhausts : Prop :=
  tx.recipient ≠ none ∧ ∃ run m, codeRun K C (charge s tx sender) tx sender ctx = some run ∧
    Reaches next (run.vm, run.state) m ∧ m.1.OutOfGas

/-- A precompile is called that says that the whole gas is gone. -/
def PrecompileExhausts : Prop :=
  ∃ recipient, tx.recipient = some recipient ∧ PrecompileRegistry.isPrecompile K C recipient = true ∧
    PrecompileRegistry.execute K C recipient tx.input tx.gasLimit = some (some (.error tx.gasLimit)) ∧
    (moveValue K C (charge s tx sender) tx sender).isSome

/-- The last opcode of a run costs more than the gas that is left, as far as the sum does not
wrap. The gas of code that makes a contract is compared again, unless it reverts. -/
def Overdraws : Prop :=
  ∃ run m m', codeRun K C (charge s tx sender) tx sender ctx = some run ∧
    Reaches next (run.vm, run.state) m ∧ Turn next m m' ∧ ¬ m'.1.Running ∧
    (tx.recipient = none → m'.1.reverted = true) ∧
    tx.gasLimit.toNat < run.base.toNat + m.1.gasUsed.toNat + (opcodeGas m.1.fetched).toNat ∧
    run.base.toNat + m.1.gasUsed.toNat + (opcodeGas m.1.fetched).toNat < 2 ^ 64

/-- Gas as it should be reported. -/
structure Billed (r : ExecutionResult) : Prop where
  within : r.gasUsed ≤ tx.gasLimit
  exhausted : Valid s tx sender ctx →
    CallExhausts K C s tx sender ctx ∨ PrecompileExhausts K C s tx sender →
    r.gasUsed = tx.gasLimit

end

variable {K : Curves} {C : Crypto} {s s' s₂ : StateDB} {tx : EvmTransaction} {sender : Address}
  {ctx : TransactionContext} {r ended : ExecutionResult} {run : CodeRun}
  {m m' : EvmInterpreter × StateDB}

theorem gasUsed_result (vm : EvmInterpreter) : vm.result.gasUsed = vm.gasUsed := by
  unfold result
  split
  · rfl
  · rfl

theorem success_result (vm : EvmInterpreter) : vm.result.success = !vm.reverted := by
  unfold result
  split
  · next h => rw [h]; rfl
  · next h => rw [eq_false_of_ne_true h]; rfl

/-! ## Gas on the way -/

/-- A turn costs its price: below the limit nothing wraps. -/
theorem gasUsed_of_turn (hstarted : run.Started K C s tx sender)
    (hreach : Reaches next (run.vm, run.state) m) (hturn : Turn next m m') :
    m'.1.gasUsed.toNat = m.1.gasUsed.toNat + (opcodeGas m.1.fetched).toNat ∧
      run.base.toNat + m.1.gasUsed.toNat < tx.gasLimit.toNat := by
  have hlimit := gasLimit_of_reaches hreach
  have hgas := UInt64.lt_iff_toNat_lt.mp (turn_iff.mp hturn).1.2
  have hprice := (opcodeGas_bounds m.1.fetched).2
  have hbase := hstarted.base
  have hcovered := UInt64.le_iff_toNat_le.mp hstarted.covered
  have hbound := tx.gasLimit.toNat_lt
  have hgiven : run.vm.gasLimit.toNat = tx.gasLimit.toNat - run.base.toNat := by
    rw [hstarted.gasLimit, toNat_sub_of_le hcovered]
  have hlimit : m.1.gasLimit = run.vm.gasLimit := hlimit
  rw [hlimit, hgiven] at hgas
  refine ⟨?_, by omega⟩
  rw [(charged_of_turn hturn).gasUsed, toNat_add_of_lt (by omega)]

/-- How the gas of a run compares with the limit, seen from the state it ends in. -/
theorem finished_gas (hcode : codeRun K C (charge s tx sender) tx sender ctx = some run)
    (hreach : Reaches next (run.vm, run.state) m) (hends : ¬ m.1.Running)
    (hmade : tx.recipient = none → m.1.reverted = true) :
    run.base + m.1.gasUsed ≤ tx.gasLimit ↔ ¬ Overdraws K C s tx sender ctx := by
  have hstarted := started_of_codeRun hcode
  have hcovered := UInt64.le_iff_toNat_le.mp hstarted.covered
  constructor
  · rintro hle ⟨run', m₁, m₂, hcode', hreach₁, hturn, hends₂, -, hover, hfits⟩
    cases hcode.symm.trans hcode'
    -- both have ended, so they are one
    have hsame : m₂ = m := end_unique (hreach₁.tail hturn) hreach (next_of_not_running hends₂)
      (next_of_not_running hends)
    have hused := (gasUsed_of_turn hstarted hreach₁ hturn).1
    rw [hsame] at hused
    rw [UInt64.le_iff_toNat_le, toNat_add_of_lt (by omega)] at hle
    omega
  · intro hnot
    rcases Relation.ReflTransGen.cases_tail hreach with heq | ⟨m₁, hreach₁, hturn⟩
    · -- no turn was taken
      have hgas : m.1.gasUsed = 0 := heq ▸ hstarted.gasUsed
      rw [hgas, UInt64.add_zero]
      exact hstarted.covered
    · have hused := gasUsed_of_turn hstarted hreach₁ hturn
      rw [UInt64.le_iff_toNat_le, UInt64.toNat_add]
      have hprice := (opcodeGas_bounds m₁.1.fetched).2
      have hbase := hstarted.base
      by_contra hmore
      refine hnot ⟨run, m₁, m, hcode, hreach₁, hturn, hends, hmade, ?_, ?_⟩
      · omega
      · omega

/-- Where a run ended, it either stopped by itself or failed and reports no gas. -/
theorem end_of_execute {state : StateDB} {vm : EvmInterpreter}
    (hrun : vm.execute state = some (s', ended)) :
    ∃ m, Reaches next (vm, state) m ∧ next m = .inr (s', ended) ∧
      ((¬ m.1.Running ∧ ended = m.1.result) ∨
        (m.1.Running ∧ ended.success = false ∧ ended.gasUsed = 0)) := by
  rw [execute, loop_eq_runFor] at hrun
  obtain ⟨m, hreach, hend⟩ := exists_end hrun
  refine ⟨m, hreach, hend, ?_⟩
  rcases end_cases hend with ⟨hends, hout⟩ | ⟨hgas, hout⟩ | ⟨e, hfetches, -, hout⟩
  · cases hout
    exact .inl ⟨hends, rfl⟩
  · cases hout
    exact .inr ⟨hgas.1, rfl, rfl⟩
  · cases hout
    exact .inr ⟨hfetches.1, rfl, rfl⟩

/-- Code that is compared again after it has run, or does not end by itself, overdraws
nothing. -/
theorem not_overdraws (hcode : codeRun K C (charge s tx sender) tx sender ctx = some run)
    (hreach : Reaches next (run.vm, run.state) m) {out : StateDB × ExecutionResult}
    (hend : next m = .inr out)
    (hnot : m.1.Running ∨ (tx.recipient = none ∧ m.1.reverted = false)) :
    ¬ Overdraws K C s tx sender ctx := by
  rintro ⟨run', m₁, m₂, hcode', hreach₁, hturn, hends₂, hmade, -, -⟩
  cases hcode.symm.trans hcode'
  have hsame : m₂ = m := end_unique (hreach₁.tail hturn) hreach (next_of_not_running hends₂) hend
  rw [hsame] at hends₂ hmade
  rcases hnot with hrunning | ⟨hcreates, hkept⟩
  · exact hends₂ hrunning
  · rw [hmade hcreates] at hkept
    cases hkept

theorem not_overdraws_of_none (h : codeRun K C (charge s tx sender) tx sender ctx = none) :
    ¬ Overdraws K C s tx sender ctx := by
  rintro ⟨run, _, _, hcode, _⟩
  cases h.symm.trans hcode

theorem codeRun_of_moveValue (h : moveValue K C s tx sender = none) :
    codeRun K C s tx sender ctx = none := by
  rw [codeRun, h]
  rfl

theorem gasUsed_le_iff (hran : Ran K C (charge s tx sender) tx sender ctx s₂ r) :
    r.gasUsed ≤ tx.gasLimit ↔ ¬ Overdraws K C s tx sender ctx := by
  have hzero : (0 : UInt64) ≤ tx.gasLimit := UInt64.le_iff_toNat_le.mpr (Nat.zero_le _)
  cases hran with
  | refused hmove _ hgas =>
    rw [hgas]
    exact iff_of_true hzero (not_overdraws_of_none (codeRun_of_moveValue hmove))
  | moved _ hcode hgas => exact iff_of_true hgas (not_overdraws_of_none hcode)
  | ran hcode hrun hmade _ hgas =>
    obtain ⟨m, hreach, hend, hcases⟩ := end_of_execute hrun
    rw [hgas]
    rcases hcases with ⟨hends, rfl⟩ | ⟨hrunning, -, hnothing⟩
    · rw [gasUsed_result]
      refine finished_gas hcode hreach hends fun hcreates => ?_
      have hfailed := hmade hcreates
      rw [success_result] at hfailed
      exact (Bool.not_eq_false' _).mp hfailed
    · rw [hnothing, UInt64.add_zero]
      exact iff_of_true (started_of_codeRun hcode).covered
        (not_overdraws hcode hreach hend (.inl hrunning))
  | unpaid hcode hrun hcreates hended _ hgas =>
    obtain ⟨m, hreach, hend, hcases⟩ := end_of_execute hrun
    rw [hgas]
    refine iff_of_true hzero (not_overdraws hcode hreach hend ?_)
    rcases hcases with ⟨-, rfl⟩ | ⟨hrunning, -, -⟩
    · rw [success_result] at hended
      exact .inr ⟨hcreates, (Bool.not_eq_true' _).mp hended⟩
    · exact .inl hrunning
  | created hcode hrun hcreates hended _ hgas =>
    obtain ⟨m, hreach, hend, hcases⟩ := end_of_execute hrun
    refine iff_of_true hgas (not_overdraws hcode hreach hend ?_)
    rcases hcases with ⟨-, rfl⟩ | ⟨hrunning, -, -⟩
    · rw [success_result] at hended
      exact .inr ⟨hcreates, (Bool.not_eq_true' _).mp hended⟩
    · exact .inl hrunning

/-! ## Exhausted calls -/

theorem base_of_codeRun (h : codeRun K C s tx sender ctx = some run) (hcall : tx.recipient ≠ none) :
    run.base = BASE_GAS := by
  obtain ⟨sm, hmove, h⟩ := Option.bind_eq_some_iff.mp h
  split at h
  · next hnone => exact absurd hnone hcall
  · split at h
    · cases h
    · cases h
      rfl

/-- A call out of gas pays its base. -/
theorem gasUsed_of_callExhausts (hran : Ran K C (charge s tx sender) tx sender ctx s₂ r)
    (h : CallExhausts K C s tx sender ctx) : r.gasUsed = BASE_GAS := by
  obtain ⟨hcall, run, m, hcode, hreach, hgas⟩ := h
  cases hran with
  | refused hmove => cases (codeRun_of_moveValue hmove).symm.trans hcode
  | moved _ hnone => cases hnone.symm.trans hcode
  | ran hcode' hrun _ _ hused =>
    cases hcode.symm.trans hcode'
    rw [execute, loop_eq_runFor] at hrun
    have hended := result_of_end hrun hreach (next_of_outOfGas hgas)
    cases hended
    rw [hused, base_of_codeRun hcode hcall]
    rfl
  | unpaid _ _ hcreates => exact absurd hcreates hcall
  | created _ _ hcreates => exact absurd hcreates hcall

/-- A precompile out of gas pays nothing. -/
theorem gasUsed_of_precompileExhausts
    (hbody : executeBody K C (charge s tx sender) tx sender ctx = some (s₂, r))
    (h : PrecompileExhausts K C s tx sender) : r.gasUsed = 0 := by
  obtain ⟨recipient, hto, hpre, hanswer, hmoves⟩ := h
  obtain ⟨sm, hmove⟩ := Option.isSome_iff_exists.mp hmoves
  have hmoved := transferValue_of_moveValue hmove
  rw [target_of_some C sender hto] at hmoved
  have hfailed : executePrecompile K C (charge s tx sender) tx sender recipient
      = some (sm, .failed "Precompile failed") := by
    rw [executePrecompile, hmoved]
    simp only [hanswer, PrecompileResult.error]
    rfl
  rw [executeBody, hto] at hbody
  dsimp only at hbody
  rw [if_pos hpre, hfailed] at hbody
  cases hbody
  rfl

/-- **Gas within the limit.** The gas a transaction reports is within its limit, and the whole
limit for a call that runs out of it, exactly where, if it is valid, its code does not overdraw
and a call runs out only with nothing above its base. -/
theorem billed_iff (K : Curves) (C : Crypto) (s : StateDB) (tx : EvmTransaction) (sender : Address)
    (ctx : TransactionContext) (s' : StateDB) (r : ExecutionResult)
    (h : executeTransaction K C s tx sender ctx = some (s', r)) :
    Billed K C s tx sender ctx r ↔
      (Valid s tx sender ctx → ¬ Overdraws K C s tx sender ctx ∧
        (CallExhausts K C s tx sender ctx → tx.gasLimit = BASE_GAS) ∧
        (PrecompileExhausts K C s tx sender → tx.gasLimit = 0)) := by
  rcases executeTransaction_cases h with ⟨hinvalid, -, -, hgas⟩ | ⟨hvalid, s₂, hbody, -⟩
  · refine iff_of_true ⟨?_, fun hvalid => absurd hvalid hinvalid⟩
      fun hvalid => absurd hvalid hinvalid
    rw [hgas]
    exact UInt64.le_iff_toNat_le.mpr (Nat.zero_le _)
  have hran := ran_executeBody hbody
  rw [forall_prop_of_true hvalid, ← gasUsed_le_iff hran]
  constructor
  · intro hbilled
    refine ⟨hbilled.within, fun hcall => ?_, fun hpre => ?_⟩
    · rw [← gasUsed_of_callExhausts hran hcall, hbilled.exhausted hvalid (.inl hcall)]
    · rw [← gasUsed_of_precompileExhausts hbody hpre, hbilled.exhausted hvalid (.inr hpre)]
  · rintro ⟨hwithin, hcalls, hprecompiles⟩
    refine ⟨hwithin, fun _ hexhausts => ?_⟩
    rcases hexhausts with hcall | hpre
    · rw [gasUsed_of_callExhausts hran hcall, hcalls hcall]
    · rw [gasUsed_of_precompileExhausts hbody hpre, hprecompiles hpre]

/-- The call with gas for all three opcodes. -/
def storingCall : EvmTransaction := { shortCall with gasLimit := 30000 }

/-- It pays for what it does. -/
theorem billed_storingCall :
    let C := Crypto.ofTable []
    let sender := Vector.replicate 20 1
    ∃ s' r, executeTransaction .none C funded storingCall sender .default = some (s', r) ∧
      r.gasUsed = 26006 ∧
      s'.getStorage (Vector.replicate 20 3) (U256.fromU64 1).toBeBytes = U256.ONE ∧
      Billed .none C funded storingCall sender .default r := by
  intro C sender
  have hout : (executeTransaction .none C funded storingCall sender .default).map (fun out =>
      (out.2.gasUsed, out.1.getStorage (Vector.replicate 20 3) (U256.fromU64 1).toBeBytes))
        = some (26006, U256.ONE) := by
    decide +kernel
  obtain ⟨⟨s', r⟩, hrun, hr⟩ := Option.map_eq_some_iff.mp hout
  obtain ⟨hgas, hslot⟩ := Prod.mk.inj hr
  refine ⟨s', r, hrun, hgas, hslot, ?_⟩
  refine (billed_iff .none C funded _ sender .default s' r hrun).mpr fun hvalid => ?_
  rcases executeTransaction_cases hrun with ⟨hinvalid, -⟩ | ⟨-, s₂, hbody, -⟩
  · exact absurd hvalid hinvalid
  have hran := ran_executeBody hbody
  refine ⟨(gasUsed_le_iff hran).mp ?_, fun hcall => ?_, fun hpre => ?_⟩
  · rw [hgas]
    decide
  · exact absurd (hgas.symm.trans (gasUsed_of_callExhausts hran hcall)) (by decide)
  · exact absurd (hgas.symm.trans (gasUsed_of_precompileExhausts hbody hpre)) (by decide)

/-- A call that comes to its third opcode with nothing left. -/
def exhaustedCall : EvmTransaction := { shortCall with gasLimit := 21004 }

/-- The last opcode of one call costs five thousand of the one unit that is left, and the
other, out of gas, pays its base. -/
theorem overdrawn_and_exhausted :
    let C := Crypto.ofTable []
    let sender := Vector.replicate 20 1
    (∃ s' r, executeTransaction .none C funded shortCall sender .default = some (s', r) ∧
      shortCall.gasLimit = 21007 ∧ r.gasUsed = 26006 ∧
      ¬ Billed .none C funded shortCall sender .default r) ∧
    ∃ s' r, executeTransaction .none C funded exhaustedCall sender .default = some (s', r) ∧
      exhaustedCall.gasLimit = 21004 ∧ r.revertReason = some "Out of gas" ∧ r.gasUsed = 21000 := by
  intro C sender
  have hover : (executeTransaction .none C funded shortCall sender .default).map
      (·.2.gasUsed) = some 26006 := by decide +kernel
  have hexhausted : (executeTransaction .none C funded exhaustedCall sender .default).map
      (fun out => (out.2.revertReason, out.2.gasUsed)) = some (some "Out of gas", 21000) := by
    decide +kernel
  obtain ⟨⟨s₁, r₁⟩, hrun₁, hr₁⟩ := Option.map_eq_some_iff.mp hover
  obtain ⟨⟨s₂, r₂⟩, hrun₂, hr₂⟩ := Option.map_eq_some_iff.mp hexhausted
  obtain ⟨hreason, hgas⟩ := Prod.mk.inj hr₂
  refine ⟨⟨s₁, r₁, hrun₁, rfl, hr₁, fun h => ?_⟩, s₂, r₂, hrun₂, rfl, hreason, hgas⟩
  have hwithin := h.within
  have hr₁ : r₁.gasUsed = 26006 := hr₁
  rw [hr₁] at hwithin
  exact absurd hwithin (by decide)

end EvmExecutor

end Pyrax.Evm
