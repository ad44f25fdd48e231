import Pyrax.Evm.Chain
import Pyrax.Evm.Failure

/-!
# No replay on the EVM chain

Every transaction that passes validation has the nonce of its sender and moves it by one,
and nothing else moves a nonce or sets it back: not the value, the gas or the slots, not
the code of a new contract, not the commit that drops empty accounts (`Counted`). So over
all blocks no two transactions of one sender with one nonce pass, and a nonce counts
those that did (`no_replay`).

The nonces are counted below 2^64 - 1, where they would stop; what passed and what waits
are together no more than what was submitted.
-/

namespace Pyrax.Evm

open Base Word EvmInterpreter StateDB EvmExecutor

/-- What a nonce is there to make unique. -/
def SignedTransaction.key (tx : SignedTransaction) : Address × UInt64 :=
  (tx.senderOrZero, tx.transaction.nonce)

/-- The transactions of a drained pool that pass validation, in order. -/
def Producing.passed (K : Curves) (C : Crypto) (config : ChainConfig) (ctx : TransactionContext) :
    Producing → List SignedTransaction → List SignedTransaction
  | _, [] => []
  | p, tx :: txs =>
    (if p.cumulativeGas < config.blockGasLimit ∧
        (validateTransaction p.state tx.transaction tx.senderOrZero ctx).isOk then [tx] else []) ++
      ((p.turn K C config ctx tx).map fun p => passed K C config ctx p txs).getD []

/-- Those of a call. -/
def ChainOp.passed (K : Curves) (C : Crypto) (chain : EvmChain) : ChainOp → List SignedTransaction
  | submitTransaction _ => []
  | produceNextBlock now =>
    match chain.latestBlock with
    | none => []
    | some parent =>
      match chain.producer.calculateBaseFee parent with
      | none => []
      | some baseFee => Producing.passed K C chain.producer.config
          (chain.producer.context parent now baseFee) (.start chain.state)
          chain.producer.pendingTransactions

/-- Those of a run. -/
def ChainOp.passedBy (K : Curves) (C : Crypto) : EvmChain → List ChainOp → List SignedTransaction :=
  gather K C fun chain op => op.passed K C chain

/-- How many transactions were submitted. -/
def ChainOp.submits : List ChainOp → Nat
  | [] => 0
  | submitTransaction _ :: ops => submits ops + 1
  | produceNextBlock _ :: ops => submits ops

/-! ## What a transaction does to the nonces -/

section

variable {K : Curves} {C : Crypto} {s s' sm : StateDB} {tx : EvmTransaction} {sender : Address}
  {ctx : TransactionContext} {r : ExecutionResult}

theorem getNonce_of_ran (h : Ran K C s tx sender ctx s' r) (a : Address) :
    s'.getNonce a = s.getNonce a := by
  have hmoved : ∀ {sm s₁ : StateDB}, moveValue K C s tx sender = some sm →
      Stores (target C tx sender) sm s₁ → s₁.getNonce a = s.getNonce a := by
    intro sm s₁ hmove hstores
    have hsame := sameButBalances_transferValue (transferValue_of_moveValue hmove)
    rw [getNonce_of_stores hstores, hsame.getNonce]
  cases h with
  | refused _ _ _ => rfl
  | moved hmove _ _ => exact hmoved hmove (Stores.refl _ _)
  | ran hcode hrun _ _ _ =>
    exact hmoved (started_of_codeRun hcode).moved (stores_of_codeRun hcode hrun)
  | unpaid hcode hrun _ _ _ _ =>
    exact hmoved (started_of_codeRun hcode).moved (stores_of_codeRun hcode hrun)
  | @created _ s₁ _ _ code hcode hrun _ _ _ _ =>
    have hkept := hmoved (started_of_codeRun hcode).moved (stores_of_codeRun hcode hrun)
    have hcreated : (s₁.setCode C (target C tx sender) code).getNonce a = s₁.getNonce a := by
      rw [StateDB.getNonce, setCode, getAccount_modifyAccount]
      split
      · rfl
      · rfl
    rw [hcreated, hkept]

/-- A valid transaction moves the nonce of its sender, and nothing moves another. -/
theorem getNonce_executeTransaction (hvalid : Valid s tx sender ctx)
    (h : executeTransaction K C s tx sender ctx = some (s', r)) (a : Address) :
    s'.getNonce a = if a = sender then saturatingAdd (s.getNonce a) 1 else s.getNonce a := by
  rcases executeTransaction_cases h with ⟨hinvalid, -⟩ | ⟨-, s₂, hbody, rfl⟩
  · exact absurd hvalid hinvalid
  · have hsub := sameButBalances_subBalance s sender tx.maxGasCost
    rw [(sameButBalances_settle s₂ tx sender ctx r).getNonce, getNonce_of_ran (ran_executeBody hbody),
      charge, getNonce_incrementNonce, hsub.getNonce]

theorem executeTransaction_of_invalid (hinvalid : ¬ Valid s tx sender ctx)
    (h : executeTransaction K C s tx sender ctx = some (s', r)) : s' = s := by
  rcases executeTransaction_cases h with ⟨-, hsame, -⟩ | ⟨hvalid, -⟩
  · exact hsame
  · exact absurd hvalid hinvalid

/-! ## Nothing is deleted -/

theorem deletedAccounts_subBalance (s : StateDB) (a : Address) (v : U256) :
    (s.subBalance a v).1.deletedAccounts = s.deletedAccounts := by
  unfold subBalance
  split
  · rfl
  · rfl

theorem deletedAccounts_transferValue {v : U256} {a b : Address}
    (h : s.transferValue v a b = some s') : s'.deletedAccounts = s.deletedAccounts := by
  unfold transferValue at h
  split at h
  · cases h
    rfl
  · have hsub := deletedAccounts_subBalance s a v
    split at h
    · next sm heq =>
      rw [heq] at hsub
      cases h
      exact hsub
    · cases h

theorem deletedAccounts_storeAll (writes : List (B256 × U256)) (s : StateDB) (a : Address) :
    (storeAll a s writes).deletedAccounts = s.deletedAccounts := by
  induction writes generalizing s with
  | nil => rfl
  | cons write writes ih => exact ih (s.setStorage a write.1 write.2)

theorem deletedAccounts_of_ran (h : Ran K C s tx sender ctx s' r) :
    s'.deletedAccounts = s.deletedAccounts := by
  have hmoved : ∀ {sm s₁ : StateDB}, moveValue K C s tx sender = some sm →
      Stores (target C tx sender) sm s₁ → s₁.deletedAccounts = s.deletedAccounts := by
    rintro sm s₁ hmove ⟨writes, rfl⟩
    rw [deletedAccounts_storeAll, deletedAccounts_transferValue (transferValue_of_moveValue hmove)]
  cases h with
  | refused _ _ _ => rfl
  | moved hmove _ _ => exact hmoved hmove (Stores.refl _ _)
  | ran hcode hrun _ _ _ =>
    exact hmoved (started_of_codeRun hcode).moved (stores_of_codeRun hcode hrun)
  | unpaid hcode hrun _ _ _ _ =>
    exact hmoved (started_of_codeRun hcode).moved (stores_of_codeRun hcode hrun)
  | @created _ s₁ _ _ _ hcode hrun _ _ _ _ =>
    have hkept := hmoved (started_of_codeRun hcode).moved (stores_of_codeRun hcode hrun)
    exact hkept

theorem deletedAccounts_executeTransaction
    (h : executeTransaction K C s tx sender ctx = some (s', r)) :
    s'.deletedAccounts = s.deletedAccounts := by
  rcases executeTransaction_cases h with ⟨-, rfl, -⟩ | ⟨-, s₂, hbody, rfl⟩
  · rfl
  · have hran := deletedAccounts_of_ran (ran_executeBody hbody)
    exact hran.trans (deletedAccounts_subBalance s sender tx.maxGasCost)

/-- The accounts a commit drops have no nonce. -/
theorem getNonce_commit (h : s.deletedAccounts = []) (a : Address) :
    (s.commit C).getNonce a = s.getNonce a := by
  rw [StateDB.getNonce, getAccount_commit, h, if_neg List.not_mem_nil, lookup_applyPending,
    StateDB.getNonce, getAccount]
  cases s.pendingChanges.lookup a with
  | none => rfl
  | some account =>
    dsimp only
    split
    · next hempty =>
      have hzero : account.nonce = 0 := by
        unfold AccountState.isEmpty at hempty
        simp only [Bool.and_eq_true, decide_eq_true_eq] at hempty
        exact hempty.1.1
      exact hzero.symm
    · rfl

end

/-! ## The count -/

/-- What holds of a state and the transactions that passed so far. -/
structure Counted (s : StateDB) (passed : List SignedTransaction) : Prop where
  kept : s.deletedAccounts = []
  count : ∀ a, (s.getNonce a).toNat = passed.countP fun tx => tx.senderOrZero = a
  below : ∀ tx ∈ passed, tx.transaction.nonce.toNat < (s.getNonce tx.senderOrZero).toNat
  once : (passed.map SignedTransaction.key).Nodup

section

variable {K : Curves} {C : Crypto} {s s' : StateDB} {tx : SignedTransaction}
  {ctx : TransactionContext} {r : ExecutionResult} {passed : List SignedTransaction}

theorem counted_new : Counted .new [] :=
  ⟨rfl, fun _ => rfl, fun _ htx => absurd htx List.not_mem_nil, List.nodup_nil⟩

theorem Counted.commit (h : Counted s passed) (C : Crypto) : Counted (s.commit C) passed := by
  refine ⟨rfl, fun a => ?_, fun tx htx => ?_, h.once⟩
  · rw [getNonce_commit h.kept, h.count]
  · rw [getNonce_commit h.kept]
    exact h.below tx htx

/-- A transaction that passes is counted, and is new. -/
theorem Counted.valid (h : Counted s passed) (hfew : passed.length < 2 ^ 64 - 1)
    (hvalid : Valid s tx.transaction tx.senderOrZero ctx)
    (hrun : executeTransaction K C s tx.transaction tx.senderOrZero ctx = some (s', r)) :
    Counted s' (passed ++ [tx]) := by
  have hnonce := getNonce_executeTransaction hvalid hrun
  have hle : ∀ a, (s.getNonce a).toNat < 2 ^ 64 - 1 := by
    intro a
    rw [h.count]
    exact List.countP_le_length.trans_lt hfew
  have hnext : ∀ a, (s'.getNonce a).toNat
      = (s.getNonce a).toNat + if tx.senderOrZero = a then 1 else 0 := by
    intro a
    rw [hnonce]
    by_cases ha : a = tx.senderOrZero
    · have hlt := hle a
      have hone : (1 : UInt64).toNat = 1 := rfl
      rw [if_pos ha, if_pos ha.symm, toNat_saturatingAdd_of_lt (by omega), hone]
    · rw [if_neg ha, if_neg (Ne.symm ha), Nat.add_zero]
  refine ⟨(deletedAccounts_executeTransaction hrun).trans h.kept, fun a => ?_, ?_, ?_⟩
  · rw [hnext, h.count, List.countP_append, List.countP_singleton]
    simp only [decide_eq_true_eq]
  · intro tx' htx'
    rw [hnext]
    rcases List.mem_append.mp htx' with hold | hlast
    · exact Nat.lt_add_right _ (h.below tx' hold)
    · cases List.mem_singleton.mp hlast
      rw [if_pos rfl, hvalid.nonce]
      exact Nat.lt_succ_self _
  · rw [List.map_append, List.map_singleton]
    refine List.nodup_append'.mpr ⟨h.once, List.nodup_singleton _, ?_⟩
    rw [List.disjoint_singleton]
    intro hmem
    obtain ⟨tx', htx', hkey⟩ := List.mem_map.mp hmem
    obtain ⟨hsender, hequal⟩ := Prod.mk.inj hkey
    -- an earlier one with this nonce would be below the nonce it equals
    have hbelow := h.below tx' htx'
    rw [hsender, hequal, hvalid.nonce] at hbelow
    exact Nat.lt_irrefl _ hbelow

theorem isOk_validateTransaction :
    (validateTransaction s tx.transaction tx.senderOrZero ctx).isOk = true ↔
      Valid s tx.transaction tx.senderOrZero ctx := by
  rw [← validateTransaction_iff]
  cases validateTransaction s tx.transaction tx.senderOrZero ctx with
  | error e => exact iff_of_false (fun h => nomatch h) (fun h => nomatch h)
  | ok u => exact iff_of_true rfl rfl

/-- **One turn** of the loop. -/
theorem Counted.turn {config : ChainConfig} {p p' : Producing} (h : Counted p.state passed)
    (hfew : passed.length < 2 ^ 64 - 1) (hturn : p.turn K C config ctx tx = some p') :
    Counted p'.state (passed ++ if p.cumulativeGas < config.blockGasLimit ∧
      (validateTransaction p.state tx.transaction tx.senderOrZero ctx).isOk then [tx] else []) := by
  unfold Producing.turn at hturn
  split at hturn
  · next hfull =>
    cases hturn
    rw [if_neg fun hand => absurd hand.1 (UInt64.not_lt.mpr hfull), List.append_nil]
    exact h
  · next hroom =>
    obtain ⟨⟨state, result⟩, hrun, rfl⟩ := Option.map_eq_some_iff.mp hturn
    by_cases hvalid : Valid p.state tx.transaction tx.senderOrZero ctx
    · rw [if_pos ⟨UInt64.not_le.mp hroom, isOk_validateTransaction.mpr hvalid⟩]
      exact h.valid hfew hvalid hrun
    · rw [if_neg fun hand => hvalid (isOk_validateTransaction.mp hand.2), List.append_nil]
      have hsame : state = p.state := executeTransaction_of_invalid hvalid hrun
      show Counted state passed
      rw [hsame]
      exact h

/-- One turn puts the transaction back or takes it for good. -/
theorem pending_turn {config : ChainConfig} {p p' : Producing}
    (hturn : p.turn K C config ctx tx = some p') :
    p'.pending.length + (if p.cumulativeGas < config.blockGasLimit ∧
      (validateTransaction p.state tx.transaction tx.senderOrZero ctx).isOk
        then [tx] else []).length ≤ p.pending.length + 1 := by
  unfold Producing.turn at hturn
  split at hturn
  · next hfull =>
    cases hturn
    rw [if_neg fun hand => absurd hand.1 (UInt64.not_lt.mpr hfull), List.length_append]
    exact Nat.le_refl _
  · obtain ⟨⟨state, result⟩, -, rfl⟩ := Option.map_eq_some_iff.mp hturn
    show p.pending.length + _ ≤ _
    split
    · exact Nat.le_refl _
    · exact Nat.le_succ _

/-- **The loop** over the drained pool. -/
theorem Counted.drain {config : ChainConfig} {p p' : Producing} {txs : List SignedTransaction}
    (h : Counted p.state passed)
    (hfew : passed.length + txs.length + p.pending.length < 2 ^ 64 - 1)
    (hdrain : p.drain K C config ctx txs = some p') :
    Counted p'.state (passed ++ p.passed K C config ctx txs) ∧
      (passed ++ p.passed K C config ctx txs).length + p'.pending.length
        ≤ passed.length + txs.length + p.pending.length := by
  induction txs generalizing p passed with
  | nil =>
    cases hdrain
    rw [Producing.passed, List.append_nil]
    exact ⟨h, by rw [List.length_nil]; omega⟩
  | cons tx txs ih =>
    obtain ⟨p₁, hturn, hdrain⟩ := Option.bind_eq_some_iff.mp hdrain
    rw [List.length_cons] at hfew
    have hcounted := h.turn (by omega) hturn
    have hpending := pending_turn hturn
    rw [Producing.passed, hturn]
    dsimp only [Option.map_some, Option.getD_some]
    rw [← List.append_assoc, List.length_cons]
    obtain ⟨hfinal, hlength⟩ := ih hcounted (by rw [List.length_append]; omega) hdrain
    refine ⟨hfinal, ?_⟩
    simp only [List.length_append] at hlength ⊢
    omega

end

/-! ## Runs -/

namespace ChainOp

variable {K : Curves} {C : Crypto} {chain chain' : EvmChain} {passed : List SignedTransaction}

theorem submits_snoc (ops : List ChainOp) (op : ChainOp) :
    submits (ops ++ [op]) = submits ops + submits [op] := by
  induction ops with
  | nil => exact (Nat.zero_add _).symm
  | cons first ops ih =>
    cases first with
    | submitTransaction tx =>
      show submits (ops ++ [op]) + 1 = submits ops + 1 + submits [op]
      omega
    | produceNextBlock now => exact ih

/-- **One call.** -/
theorem counted_apply {op : ChainOp} {n : Nat} (hfew : n + submits [op] < 2 ^ 64 - 1)
    (h : Counted chain.state passed)
    (hlength : passed.length + chain.producer.pendingTransactions.length ≤ n)
    (happly : op.apply K C chain = some chain') :
    Counted chain'.state (passed ++ op.passed K C chain) ∧
      (passed ++ op.passed K C chain).length + chain'.producer.pendingTransactions.length
        ≤ n + submits [op] := by
  cases op with
  | submitTransaction tx =>
    rw [ChainOp.passed, List.append_nil]
    rcases apply_submit happly with rfl | rfl
    · exact ⟨h, Nat.le_succ_of_le hlength⟩
    · refine ⟨h, ?_⟩
      show passed.length + (chain.producer.pendingTransactions ++ [tx]).length ≤ n + 1
      rw [List.length_append, List.length_singleton]
      omega
  | produceNextBlock now =>
    have hsubmits : submits [produceNextBlock now] = 0 := rfl
    rw [hsubmits] at hfew ⊢
    cases hparent : chain.latestBlock with
    | none =>
      have hpassed : (produceNextBlock now).passed K C chain = [] := by
        rw [ChainOp.passed, hparent]
      rw [apply_produce_of_none hparent happly, hpassed, List.append_nil]
      exact ⟨h, hlength⟩
    | some parent =>
      obtain ⟨baseFee, p, hfee, hdrain, rfl⟩ := apply_produce hparent happly
      have hpassed : (produceNextBlock now).passed K C chain = Producing.passed K C
          chain.producer.config (chain.producer.context parent now baseFee) (.start chain.state)
          chain.producer.pendingTransactions := by
        rw [ChainOp.passed, hparent]
        dsimp only
        rw [hfee]
      rw [hpassed]
      have hstart : Counted (Producing.start chain.state).state passed := h
      have hbound : passed.length + chain.producer.pendingTransactions.length
          + (Producing.start chain.state).pending.length < 2 ^ 64 - 1 := by
        show _ + 0 < _
        omega
      obtain ⟨hcounted, hpending⟩ := hstart.drain hbound hdrain
      exact ⟨hcounted.commit C, hpending.trans hlength⟩

/-- **A run.** -/
theorem counted_run {ops : List ChainOp} {config : ChainConfig} {coinbase : Address}
    {timestamp : UInt64} (hfew : submits ops < 2 ^ 64 - 1)
    (hrun : run K C (.new config coinbase timestamp) ops = some chain) :
    Counted chain.state (passedBy K C (.new config coinbase timestamp) ops) ∧
      (passedBy K C (.new config coinbase timestamp) ops).length
        + chain.producer.pendingTransactions.length ≤ submits ops := by
  induction ops using List.reverseRecOn generalizing chain with
  | nil =>
    cases hrun
    exact ⟨counted_new, Nat.le_refl _⟩
  | append_singleton ops op ih =>
    rw [submits_snoc] at hfew ⊢
    rw [run_snoc] at hrun
    obtain ⟨chain₁, hrun₁, happly⟩ := Option.bind_eq_some_iff.mp hrun
    obtain ⟨hcounted, hlength⟩ := ih (by omega) hrun₁
    rw [passedBy, gather_snoc hrun₁]
    exact counted_apply hfew hcounted hlength happly

/-- Over all blocks of a run no two transactions of one sender with one nonce pass
validation, a nonce counts those that passed, and what does not pass does nothing. -/
theorem no_replay (K : Curves) (C : Crypto) (config : ChainConfig) (coinbase : Address)
    (timestamp : UInt64) (ops : List ChainOp) (chain : EvmChain)
    (hfew : submits ops < 2 ^ 64 - 1)
    (hrun : run K C (.new config coinbase timestamp) ops = some chain) :
    ((passedBy K C (.new config coinbase timestamp) ops).map SignedTransaction.key).Nodup ∧
      (∀ a, (chain.state.getNonce a).toNat
        = (passedBy K C (.new config coinbase timestamp) ops).countP fun tx =>
          tx.senderOrZero = a) ∧
      ∀ s tx sender ctx s' r, executeTransaction K C s tx sender ctx = some (s', r) →
        (validateTransaction s tx sender ctx).isOk = false → s' = s := by
  obtain ⟨hcounted, -⟩ := counted_run hfew hrun
  refine ⟨hcounted.once, hcounted.count, fun s tx sender ctx s' r hexecute hfails => ?_⟩
  refine executeTransaction_of_invalid (fun hvalid => ?_) hexecute
  rw [validateTransaction_iff.mpr hvalid] at hfails
  cases hfails

/-- A free chain, and one transaction submitted twice. -/
theorem no_replay_twice :
    let C := Crypto.ofTable []
    let config : ChainConfig := ⟨7777, 30000000, 0, 2000⟩
    let sender : Address := Vector.replicate 20 1
    let tx : EvmTransaction := { EvmExecutor.plainTransfer 0 with
      maxPriorityFeePerGas := 0, value := U256.ZERO }
    let signed : SignedTransaction := ⟨tx, Vector.replicate 32 7, sender⟩
    let ops := [submitTransaction signed, submitTransaction signed, produceNextBlock 10]
    ∃ chain, run .none C (.new config (Vector.replicate 20 9) 5) ops = some chain ∧
      passedBy .none C (.new config (Vector.replicate 20 9) 5) ops = [signed] ∧
      chain.state.getNonce sender = 1 := by
  intro C config sender tx signed ops
  have hruns : (run .none C (.new config (Vector.replicate 20 9) 5) ops).isSome = true := by
    decide +kernel
  obtain ⟨chain, hrun⟩ := Option.isSome_iff_exists.mp hruns
  obtain ⟨-, hcount, -⟩ := no_replay .none C config (Vector.replicate 20 9) 5 ops chain
    (by decide) hrun
  have hpassed : passedBy .none C (.new config (Vector.replicate 20 9) 5) ops = [signed] := by
    decide +kernel
  refine ⟨chain, hrun, hpassed, UInt64.toNat_inj.mp ?_⟩
  rw [hcount, hpassed]
  rfl

end ChainOp

end Pyrax.Evm
