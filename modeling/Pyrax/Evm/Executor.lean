import Pyrax.Evm.Interpreter

/-!
# Executing a transaction

`EvmExecutor` of `pyrax-node/src/evm/executor.rs`. A transaction is validated, its gas
limit is charged at the most it would pay, its nonce is taken, and then it does one of
four things: it transfers, calls a precompile, runs a contract or makes one. After that
the gas that is left is refunded and the gas used is paid to the coinbase, both at the
effective price.

The four branches differ in their prices and in how they fail, and agree in what they
can do to the database (`Ran`): they are refused and do nothing; the value moves and
there is no code to run (`moveValue`, `codeRun`); or the code runs and writes the slots
of its contract, and then the contract may get its code. `ran_executeBody` says it once,
and everything later splits on it.

The only way not to return is a panic inside a precompile (`executeTransaction_isSome`).
The executor's configuration is not read here.
-/

namespace Pyrax.Evm

open Base Word EvmInterpreter

namespace StateDB

/-- `if !value.is_zero() { sub_balance or fail; add_balance }`, at the head of every
branch. -/
def transferValue (s : StateDB) (value : U256) (sender recipient : Address) : Option StateDB :=
  if value.isZero then some s
  else match s.subBalance sender value with
    | (s, true) => some (s.addBalance recipient value)
    | (_, false) => none

theorem sameButBalances_transferValue {s s' : StateDB} {value : U256} {sender recipient : Address}
    (h : s.transferValue value sender recipient = some s') : SameButBalances s s' := by
  unfold transferValue at h
  split at h
  · cases h
    exact .refl s
  · have hsub := sameButBalances_subBalance s sender value
    split at h
    · next sm heq =>
      rw [heq] at hsub
      cases h
      exact hsub.trans (sameButBalances_addBalance sm recipient value)
    · cases h

end StateDB

namespace EvmExecutor

def validateTransaction (s : StateDB) (tx : EvmTransaction) (sender : Address)
    (ctx : TransactionContext) : Except String Unit := do
  failIf (tx.chainId ≠ ctx.chainId) ("Invalid chain ID: expected " ++ toString ctx.chainId.toNat ++
    ", got " ++ toString tx.chainId.toNat)
  failIf (tx.nonce ≠ s.getNonce sender) ("Invalid nonce: expected " ++
    toString (s.getNonce sender).toNat ++ ", got " ++ toString tx.nonce.toNat)
  failIf ((s.getBalance sender).checkedSub tx.maxCost = none) "Insufficient balance"
  failIf (ctx.blockGasLimit < tx.gasLimit) "Gas limit exceeds block limit"
  failIf (tx.maxFeePerGas < ctx.blockBasefee) "Max fee below base fee"

def TRANSFER_GAS : UInt64 := 21000
def BASE_GAS : UInt64 := 21000
def CREATE_GAS : UInt64 := 32000

def executeTransfer (s : StateDB) (tx : EvmTransaction) (sender recipient : Address) :
    StateDB × ExecutionResult :=
  if tx.gasLimit < TRANSFER_GAS then (s, .failed "Insufficient gas")
  else match s.transferValue tx.value sender recipient with
    | none => (s, .failed "Insufficient balance")
    | some s => (s, .successTransfer TRANSFER_GAS)

def executePrecompile (K : Curves) (C : Crypto) (s : StateDB) (tx : EvmTransaction)
    (sender recipient : Address) : Option (StateDB × ExecutionResult) :=
  match s.transferValue tx.value sender recipient with
  | none => some (s, .failed "Insufficient balance")
  | some s =>
    match PrecompileRegistry.execute K C recipient tx.input tx.gasLimit with
    | some none => none
    | some (some result) =>
      if result.success then some (s, ⟨true, result.gasUsed, 0, result.output, [], none, none⟩)
      else some (s, .failed "Precompile failed")
    | none => some (s, .failed "Precompile failed")

def executeBytecode (s : StateDB) (code input : List UInt8) (caller address : Address)
    (value : U256) (gasLimit : UInt64) (ctx : TransactionContext) :
    Option (StateDB × ExecutionResult) :=
  (EvmInterpreter.new code input caller address value gasLimit ctx).execute s

def executeCall (s : StateDB) (tx : EvmTransaction) (sender recipient : Address)
    (ctx : TransactionContext) : Option (StateDB × ExecutionResult) :=
  if tx.gasLimit < BASE_GAS then some (s, .failed "Insufficient gas")
  else match s.transferValue tx.value sender recipient with
    | none => some (s, .failed "Insufficient balance")
    | some s =>
      let code := s.getCode recipient
      if code.isEmpty then some (s, .successTransfer BASE_GAS)
      else
        (executeBytecode s code tx.input sender recipient tx.value (tx.gasLimit - BASE_GAS)
          ctx).map fun (s, r) =>
          (s, { r with gasUsed := BASE_GAS + r.gasUsed, contractAddress := none })

def computeCreateAddress (C : Crypto) (sender : Address) (nonce : UInt64) : Address :=
  arrayFromSlice 20 ((C.blake3 (sender.toList ++ Word.toBeBytes nonce)).asBytes.drop 12)

/-- The end of `execute_create`, after the init code has run. -/
def depositCode (C : Crypto) (s : StateDB) (contractAddress : Address) (remainingGas : UInt64)
    (init : ExecutionResult) : StateDB × ExecutionResult :=
  if init.success = false then
    (s, ⟨false, CREATE_GAS + init.gasUsed, 0, [], [], none, init.revertReason⟩)
  else
    let codeDepositGas := UInt64.ofNat (init.output.length * 200)
    if remainingGas < init.gasUsed + codeDepositGas then (s, .failed "Insufficient gas for code")
    else (s.setCode C contractAddress init.output,
      ⟨true, CREATE_GAS + init.gasUsed + codeDepositGas, init.gasRefunded, [], init.logs,
        some contractAddress, none⟩)

def executeCreate (C : Crypto) (s : StateDB) (tx : EvmTransaction) (sender : Address)
    (ctx : TransactionContext) : Option (StateDB × ExecutionResult) :=
  if tx.gasLimit < CREATE_GAS then some (s, .failed "Insufficient gas")
  else
    let contractAddress := computeCreateAddress C sender tx.nonce
    match s.transferValue tx.value sender contractAddress with
    | none => some (s, .failed "Insufficient balance")
    | some s =>
      (executeBytecode s tx.input [] sender contractAddress tx.value (tx.gasLimit - CREATE_GAS)
        ctx).map fun (s, init) => depositCode C s contractAddress (tx.gasLimit - CREATE_GAS) init

/-- Execute based on transaction type. -/
def executeBody (K : Curves) (C : Crypto) (s : StateDB) (tx : EvmTransaction) (sender : Address)
    (ctx : TransactionContext) : Option (StateDB × ExecutionResult) :=
  match tx.recipient with
  | none => executeCreate C s tx sender ctx
  | some recipient =>
    if PrecompileRegistry.isPrecompile K C recipient then executePrecompile K C s tx sender recipient
    else if (s.getCode recipient).isEmpty then some (executeTransfer s tx sender recipient)
    else executeCall s tx sender recipient ctx

/-- Refund unused gas and pay the coinbase. -/
def settle (s : StateDB) (tx : EvmTransaction) (sender : Address) (ctx : TransactionContext)
    (result : ExecutionResult) : StateDB :=
  let price := U256.fromU64 (tx.effectiveGasPrice ctx.blockBasefee)
  let gasRefund := saturatingSub tx.gasLimit result.gasUsed
  let refundAmount := ((U256.fromU64 gasRefund).checkedMul price).getD U256.ZERO
  let gasPayment := ((U256.fromU64 result.gasUsed).checkedMul price).getD U256.ZERO
  (s.addBalance sender refundAmount).addBalance ctx.blockCoinbase gasPayment

def executeTransaction (K : Curves) (C : Crypto) (s : StateDB) (tx : EvmTransaction)
    (sender : Address) (ctx : TransactionContext) : Option (StateDB × ExecutionResult) :=
  match validateTransaction s tx sender ctx with
  | .error e => some (s, .failed e)
  | .ok () =>
    match s.subBalance sender tx.maxGasCost with
    | (s, false) => some (s, .failed "Insufficient balance for gas")
    | (s, true) =>
      (executeBody K C (s.incrementNonce sender) tx sender ctx).map fun (s, result) =>
        (settle s tx sender ctx result, result)

/-! ## Validation -/

/-- What a valid transaction is. -/
structure Valid (s : StateDB) (tx : EvmTransaction) (sender : Address) (ctx : TransactionContext) :
    Prop where
  chainId : tx.chainId = ctx.chainId
  nonce : tx.nonce = s.getNonce sender
  balance : tx.maxCost.toNat ≤ (s.getBalance sender).toNat
  gasLimit : tx.gasLimit ≤ ctx.blockGasLimit
  baseFee : ctx.blockBasefee ≤ tx.maxFeePerGas

theorem validateTransaction_iff {s : StateDB} {tx : EvmTransaction} {sender : Address}
    {ctx : TransactionContext} :
    validateTransaction s tx sender ctx = .ok () ↔ Valid s tx sender ctx := by
  rw [validateTransaction, failIf_bind_eq_ok, failIf_bind_eq_ok, failIf_bind_eq_ok,
    failIf_bind_eq_ok, failIf_eq_ok, not_not, not_not, U256.checkedSub_eq_none_iff, Nat.not_lt,
    UInt64.not_lt, UInt64.not_lt]
  exact ⟨fun ⟨h₁, h₂, h₃, h₄, h₅⟩ => ⟨h₁, h₂, h₃, h₄, h₅⟩,
    fun ⟨h₁, h₂, h₃, h₄, h₅⟩ => ⟨h₁, h₂, h₃, h₄, h₅⟩⟩

/-! ## What a transaction can do -/

/-- Where the value goes and the code runs. -/
def target (C : Crypto) (tx : EvmTransaction) (sender : Address) : Address :=
  tx.recipient.getD (computeCreateAddress C sender tx.nonce)

/-- The gas to bring before the value moves: a precompile asks for its price later. -/
def baseGas (K : Curves) (C : Crypto) (tx : EvmTransaction) : UInt64 :=
  match tx.recipient with
  | none => CREATE_GAS
  | some recipient => if PrecompileRegistry.isPrecompile K C recipient then 0 else BASE_GAS

/-- The database with the value moved, where the transaction gets that far. -/
def moveValue (K : Curves) (C : Crypto) (s : StateDB) (tx : EvmTransaction) (sender : Address) :
    Option StateDB :=
  if tx.gasLimit < baseGas K C tx then none
  else s.transferValue tx.value sender (target C tx sender)

/-- Code about to run: the gas taken before it, the database with the value moved, and
the machine. -/
structure CodeRun where
  base : UInt64
  state : StateDB
  vm : EvmInterpreter

/-- The code a transaction runs once it is charged, where it runs any. -/
def codeRun (K : Curves) (C : Crypto) (s : StateDB) (tx : EvmTransaction) (sender : Address)
    (ctx : TransactionContext) : Option CodeRun := do
  let sm ← moveValue K C s tx sender
  match tx.recipient with
  | none => some ⟨CREATE_GAS, sm, .new tx.input [] sender (target C tx sender) tx.value
      (tx.gasLimit - CREATE_GAS) ctx⟩
  | some recipient =>
    if PrecompileRegistry.isPrecompile K C recipient ∨ (s.getCode recipient).isEmpty then none
    else some ⟨BASE_GAS, sm, .new (sm.getCode recipient) tx.input sender recipient tx.value
      (tx.gasLimit - BASE_GAS) ctx⟩

/-- What the branches can do to the database. -/
inductive Ran (K : Curves) (C : Crypto) (s : StateDB) (tx : EvmTransaction) (sender : Address)
    (ctx : TransactionContext) : StateDB → ExecutionResult → Prop where
  /-- Failed before the value moved. -/
  | refused {r : ExecutionResult} (hmove : moveValue K C s tx sender = none)
      (hfail : r.success = false) (hgas : r.gasUsed = 0) : Ran K C s tx sender ctx s r
  /-- The value moved, and there was no code. -/
  | moved {s' : StateDB} {r : ExecutionResult} (hmove : moveValue K C s tx sender = some s')
      (hcode : codeRun K C s tx sender ctx = none) (hgas : r.gasUsed ≤ tx.gasLimit) :
      Ran K C s tx sender ctx s' r
  /-- The code ran, and its end is the transaction's. -/
  | ran {run : CodeRun} {s' : StateDB} {ended r : ExecutionResult}
      (hcode : codeRun K C s tx sender ctx = some run)
      (hrun : run.vm.execute run.state = some (s', ended))
      (hmade : tx.recipient = none → ended.success = false)
      (hsuccess : r.success = ended.success) (hgas : r.gasUsed = run.base + ended.gasUsed) :
      Ran K C s tx sender ctx s' r
  /-- The init code ran, and the gas does not pay for what it made. -/
  | unpaid {run : CodeRun} {s' : StateDB} {ended r : ExecutionResult}
      (hcode : codeRun K C s tx sender ctx = some run)
      (hrun : run.vm.execute run.state = some (s', ended))
      (hmade : tx.recipient = none) (hended : ended.success = true)
      (hfail : r.success = false) (hgas : r.gasUsed = 0) : Ran K C s tx sender ctx s' r
  /-- The contract was made. -/
  | created {run : CodeRun} {s' : StateDB} {ended r : ExecutionResult} {code : List UInt8}
      (hcode : codeRun K C s tx sender ctx = some run)
      (hrun : run.vm.execute run.state = some (s', ended))
      (hmade : tx.recipient = none) (hended : ended.success = true)
      (hsuccess : r.success = true) (hgas : r.gasUsed ≤ tx.gasLimit) :
      Ran K C s tx sender ctx (s'.setCode C (target C tx sender) code) r

section

variable {K : Curves} {C : Crypto} {s s' : StateDB} {tx : EvmTransaction} {sender : Address}
  {ctx : TransactionContext} {r : ExecutionResult} {run : CodeRun}

theorem target_of_some (C : Crypto) (sender : Address) {recipient : Address}
    (h : tx.recipient = some recipient) : target C tx sender = recipient := by
  rw [target, h]
  rfl

theorem target_of_none (h : tx.recipient = none) :
    target C tx sender = computeCreateAddress C sender tx.nonce := by
  rw [target, h]
  rfl

theorem moveValue_of_lt (h : tx.gasLimit < baseGas K C tx) : moveValue K C s tx sender = none :=
  if_pos h

theorem moveValue_of_le (h : ¬ tx.gasLimit < baseGas K C tx) :
    moveValue K C s tx sender = s.transferValue tx.value sender (target C tx sender) :=
  if_neg h

theorem transferValue_of_moveValue (h : moveValue K C s tx sender = some s') :
    s.transferValue tx.value sender (target C tx sender) = some s' := by
  unfold moveValue at h
  split at h
  · cases h
  · exact h

/-- What the code starts with: the gas above the base, and the value moved. -/
structure CodeRun.Started (K : Curves) (C : Crypto) (s : StateDB) (tx : EvmTransaction)
    (sender : Address) (run : CodeRun) : Prop where
  base : 5000 ≤ run.base.toNat
  covered : run.base ≤ tx.gasLimit
  gasLimit : run.vm.gasLimit = tx.gasLimit - run.base
  gasUsed : run.vm.gasUsed = 0
  address : run.vm.address = target C tx sender
  moved : moveValue K C s tx sender = some run.state

theorem baseGas_le_of_moveValue (h : moveValue K C s tx sender = some s') :
    baseGas K C tx ≤ tx.gasLimit :=
  UInt64.not_lt.mp fun hlt => by rw [moveValue_of_lt hlt] at h; cases h

theorem started_of_codeRun (h : codeRun K C s tx sender ctx = some run) :
    run.Started K C s tx sender := by
  obtain ⟨sm, hmove, h⟩ := Option.bind_eq_some_iff.mp h
  have hle := baseGas_le_of_moveValue hmove
  unfold baseGas at hle
  split at h
  · next hto =>
    rw [hto] at hle
    cases h
    have hbase : 5000 ≤ CREATE_GAS.toNat := by decide
    exact ⟨hbase, hle, rfl, rfl, rfl, hmove⟩
  · next recipient hto =>
    rw [hto] at hle
    split at h
    · cases h
    · next hnot =>
      rw [not_or] at hnot
      dsimp only at hle
      rw [if_neg hnot.1] at hle
      cases h
      have hbase : 5000 ≤ BASE_GAS.toNat := by decide
      exact ⟨hbase, hle, rfl, rfl, (target_of_some C sender hto).symm, hmove⟩

theorem stores_of_codeRun {ended : ExecutionResult} (hcode : codeRun K C s tx sender ctx = some run)
    (hrun : run.vm.execute run.state = some (s', ended)) :
    Stores (target C tx sender) run.state s' :=
  (started_of_codeRun hcode).address ▸ stores_execute hrun

theorem codeRun_of_precompile {recipient : Address} (hto : tx.recipient = some recipient)
    (h : PrecompileRegistry.isPrecompile K C recipient ∨ (s.getCode recipient).isEmpty) :
    codeRun K C s tx sender ctx = none := by
  unfold codeRun
  cases moveValue K C s tx sender with
  | none => rfl
  | some sm =>
    rw [hto]
    exact if_pos h

theorem ran_executeTransfer {recipient : Address} (hto : tx.recipient = some recipient)
    (hpre : ¬ PrecompileRegistry.isPrecompile K C recipient = true)
    (hempty : (s.getCode recipient).isEmpty = true)
    (h : executeTransfer s tx sender recipient = (s', r)) : Ran K C s tx sender ctx s' r := by
  have hbase : baseGas K C tx = TRANSFER_GAS := by
    rw [baseGas, hto]
    exact if_neg hpre
  unfold executeTransfer at h
  rw [← hbase, ← target_of_some C sender hto] at h
  split at h
  · next hgas =>
    cases h
    exact .refused (moveValue_of_lt hgas) rfl rfl
  next hgas =>
  rw [← moveValue_of_le hgas] at h
  split at h
  · next hmove =>
    cases h
    exact .refused hmove rfl rfl
  · next sm hmove =>
    cases h
    refine .moved hmove (codeRun_of_precompile hto (.inr hempty)) ?_
    exact UInt64.not_lt.mp hgas

theorem ran_executePrecompile {recipient : Address} (hto : tx.recipient = some recipient)
    (hpre : PrecompileRegistry.isPrecompile K C recipient = true)
    (h : executePrecompile K C s tx sender recipient = some (s', r)) :
    Ran K C s tx sender ctx s' r := by
  have hbase : ¬ tx.gasLimit < baseGas K C tx := by
    rw [baseGas, hto]
    dsimp only
    rw [if_pos hpre, UInt64.not_lt]
    exact UInt64.le_iff_toNat_le.mpr (Nat.zero_le _)
  have hcode : codeRun K C s tx sender ctx = none := codeRun_of_precompile hto (.inl hpre)
  unfold executePrecompile at h
  rw [← target_of_some C sender hto, ← moveValue_of_le hbase] at h
  split at h
  · next hmove =>
    cases h
    exact .refused hmove rfl rfl
  · next sm hmove =>
    split at h
    · cases h
    · next result hrun =>
      split at h
      · next hsuccess =>
        cases h
        exact .moved hmove hcode (PrecompileRegistry.gasUsed_le_of_success hrun hsuccess)
      · cases h
        exact .moved hmove hcode (UInt64.le_iff_toNat_le.mpr (Nat.zero_le _))
    · cases h
      exact .moved hmove hcode (UInt64.le_iff_toNat_le.mpr (Nat.zero_le _))

theorem ran_executeCall {recipient : Address} (hto : tx.recipient = some recipient)
    (hpre : ¬ PrecompileRegistry.isPrecompile K C recipient = true)
    (hempty : ¬ (s.getCode recipient).isEmpty = true)
    (h : executeCall s tx sender recipient ctx = some (s', r)) : Ran K C s tx sender ctx s' r := by
  have hbase : baseGas K C tx = BASE_GAS := by
    rw [baseGas, hto]
    exact if_neg hpre
  unfold executeCall at h
  split at h
  · next hgas =>
    cases h
    exact .refused (moveValue_of_lt (by rwa [hbase])) rfl rfl
  next hgas =>
  have hmoves : moveValue K C s tx sender = s.transferValue tx.value sender recipient := by
    rw [moveValue_of_le (by rwa [hbase]), target_of_some C sender hto]
  rw [← hmoves] at h
  split at h
  · next hmove =>
    cases h
    exact .refused hmove rfl rfl
  · next sm hmove =>
    have hcode : codeRun K C s tx sender ctx = some ⟨BASE_GAS, sm, .new (sm.getCode recipient)
        tx.input sender recipient tx.value (tx.gasLimit - BASE_GAS) ctx⟩ := by
      rw [codeRun, hmove, hto]
      exact if_neg (not_or.mpr ⟨hpre, hempty⟩)
    dsimp only at h
    have hsame := StateDB.sameButBalances_transferValue (transferValue_of_moveValue hmove)
    rw [if_neg (by rw [hsame.getCode]; exact hempty)] at h
    obtain ⟨⟨s₁, ended⟩, hrun, heq⟩ := Option.map_eq_some_iff.mp h
    cases heq
    exact .ran hcode hrun (fun hnone => by rw [hto] at hnone; cases hnone) rfl rfl

theorem ran_executeCreate (hto : tx.recipient = none)
    (h : executeCreate C s tx sender ctx = some (s', r)) : Ran K C s tx sender ctx s' r := by
  have hbase : baseGas K C tx = CREATE_GAS := by rw [baseGas, hto]
  unfold executeCreate at h
  split at h
  · next hgas =>
    cases h
    exact .refused (moveValue_of_lt (by rwa [hbase])) rfl rfl
  next hgas =>
  have hmoves : moveValue K C s tx sender = s.transferValue tx.value sender (target C tx sender) :=
    moveValue_of_le (by rwa [hbase])
  dsimp only at h
  rw [← target_of_none hto, ← hmoves] at h
  split at h
  · next hmove =>
    cases h
    exact .refused hmove rfl rfl
  · next sm hmove =>
    have hcode : codeRun K C s tx sender ctx = some ⟨CREATE_GAS, sm, .new tx.input [] sender
        (target C tx sender) tx.value (tx.gasLimit - CREATE_GAS) ctx⟩ := by
      rw [codeRun, hmove, hto]
      rfl
    obtain ⟨⟨s₁, ended⟩, hrun, heq⟩ := Option.map_eq_some_iff.mp h
    dsimp only at heq
    unfold depositCode at heq
    split at heq
    · next hended =>
      cases heq
      exact .ran hcode hrun (fun _ => hended) hended.symm rfl
    next hended =>
    have hended : ended.success = true := eq_true_of_ne_false hended
    dsimp only at heq
    split at heq
    · cases heq
      exact .unpaid hcode hrun hto hended rfl rfl
    · next hpaid =>
      cases heq
      refine .created hcode hrun hto hended rfl ?_
      -- the sum is what was compared with the gas left, however it wraps
      rw [UInt64.not_lt, UInt64.le_iff_toNat_le] at hpaid
      rw [UInt64.not_lt, UInt64.le_iff_toNat_le] at hgas
      rw [toNat_sub_of_le hgas] at hpaid
      rw [UInt64.le_iff_toNat_le, UInt64.add_assoc, toNat_add_of_lt]
      · omega
      · have hlimit := tx.gasLimit.toNat_lt
        omega

theorem ran_executeBody (h : executeBody K C s tx sender ctx = some (s', r)) :
    Ran K C s tx sender ctx s' r := by
  unfold executeBody at h
  split at h
  · next hto => exact ran_executeCreate hto h
  · next recipient hto =>
    split at h
    · next hpre => exact ran_executePrecompile hto hpre h
    next hpre =>
    split at h
    · next hempty => exact ran_executeTransfer hto hpre hempty (Option.some.inj h)
    · next hempty => exact ran_executeCall hto hpre hempty h

/-- The gas limit charged in advance, and the nonce taken. -/
def charge (s : StateDB) (tx : EvmTransaction) (sender : Address) : StateDB :=
  (s.subBalance sender tx.maxGasCost).1.incrementNonce sender

/-- Who can pay for everything can pay for the gas. -/
theorem subBalance_of_valid (h : Valid s tx sender ctx) :
    (s.subBalance sender tx.maxGasCost).2 = true := by
  have hbalance := h.balance
  have hgas := tx.toNat_maxGasCost
  have hfits := tx.maxGasCost.toNat_lt
  rw [tx.toNat_maxCost] at hbalance
  unfold StateDB.subBalance
  split
  · rfl
  · next hnone =>
    rw [U256.checkedSub_eq_none_iff] at hnone
    have hread : s.getBalance sender = (s.getAccount sender).balance := rfl
    rw [hread] at hbalance
    omega

/-- A transaction is refused and changes nothing, or it is charged, runs and is settled. -/
theorem executeTransaction_cases (h : executeTransaction K C s tx sender ctx = some (s', r)) :
    (¬ Valid s tx sender ctx ∧ s' = s ∧ r.success = false ∧ r.gasUsed = 0) ∨
    (Valid s tx sender ctx ∧ ∃ s₂, executeBody K C (charge s tx sender) tx sender ctx = some (s₂, r) ∧
      s' = settle s₂ tx sender ctx r) := by
  unfold executeTransaction at h
  split at h
  · next e hvalidate =>
    cases h
    refine .inl ⟨fun hvalid => ?_, rfl, rfl, rfl⟩
    rw [validateTransaction_iff.mpr hvalid] at hvalidate
    cases hvalidate
  · next hvalidate =>
    have hvalid := validateTransaction_iff.mp hvalidate
    have hpaid := subBalance_of_valid hvalid
    refine .inr ⟨hvalid, ?_⟩
    split at h
    · next s₁ hsub =>
      rw [hsub] at hpaid
      cases hpaid
    · next s₁ hsub =>
      obtain ⟨⟨s₂, r₂⟩, hbody, heq⟩ := Option.map_eq_some_iff.mp h
      cases heq
      refine ⟨s₂, ?_, rfl⟩
      rw [charge, hsub]
      exact hbody

/-! ## Returning -/

theorem executeBytecode_isSome {code input : List UInt8} {caller address : Address} {value : U256}
    {base : UInt64} (hbase : 5000 ≤ base.toNat) (hgas : base ≤ tx.gasLimit) :
    (executeBytecode s code input caller address value (tx.gasLimit - base) ctx).isSome := by
  refine execute_isSome s ?_
  have hlimit := tx.gasLimit.toNat_lt
  rw [UInt64.le_iff_toNat_le] at hgas
  show (tx.gasLimit - base).toNat + 5000 ≤ 2 ^ 64
  rw [toNat_sub_of_le hgas]
  omega

/-- A transaction returns unless it panics inside a precompile. -/
theorem executeTransaction_isSome
    (h : ∀ recipient, tx.recipient = some recipient →
      PrecompileRegistry.execute K C recipient tx.input tx.gasLimit ≠ some none) :
    (executeTransaction K C s tx sender ctx).isSome := by
  have hbody : ∀ s, (executeBody K C s tx sender ctx).isSome := by
    intro s
    unfold executeBody
    split
    · unfold executeCreate
      split
      · rfl
      next hgas =>
      dsimp only
      split
      · rfl
      · rw [Option.isSome_map]
        exact executeBytecode_isSome (by decide) (UInt64.not_lt.mp hgas)
    · next recipient hto =>
      split
      · unfold executePrecompile
        split
        · rfl
        split
        · next hpanic => exact absurd hpanic (h recipient hto)
        · split <;> rfl
        · rfl
      split
      · rfl
      · unfold executeCall
        split
        · rfl
        next hgas =>
        split
        · rfl
        · dsimp only
          split
          · rfl
          · rw [Option.isSome_map]
            exact executeBytecode_isSome (by decide) (UInt64.not_lt.mp hgas)
  unfold executeTransaction
  split
  · rfl
  split
  · rfl
  · rw [Option.isSome_map]
    exact hbody _

end

end EvmExecutor

end Pyrax.Evm
