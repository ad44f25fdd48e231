import Pyrax.Evm.Value

/-!
# What a failed transaction leaves behind

A transaction that fails should take the sender's nonce and the gas and leave all else as
it was (`FailsCleanly`). A refused one does, and so does one that fails before its value
moves. After that nothing is undone: `execute_transaction` takes no snapshot, so the
value stays with the recipient and the slots written before the failure stay written.

`failsCleanly_iff` is the exact condition (`NothingToUndo`): the value does not move, or
moves nothing or to the sender itself, and the code leaves its slots as they were. One
further case is there because balances are cut off at 2^256 - 1 (`Drowned`).
-/

namespace Pyrax.Evm

open Base Word EvmInterpreter StateDB

namespace EvmExecutor

/-- Nothing changes but the nonce of the sender and the balances that gas is paid from
and to, and if the transaction is not valid nothing at all. -/
structure FailsCleanly (s : StateDB) (tx : EvmTransaction) (sender : Address)
    (ctx : TransactionContext) (s' : StateDB) (r : ExecutionResult) : Prop where
  code : ∀ a, s'.getCode a = s.getCode a ∧ s'.getCodeHash a = s.getCodeHash a
  storage : ∀ a key, s'.getStorage a key = s.getStorage a key
  balance : ∀ a, a ≠ sender → a ≠ ctx.blockCoinbase → s'.getBalance a = s.getBalance a
  nonce : ∀ a, a ≠ sender → s'.getNonce a = s.getNonce a
  /-- The sender has what charging and settling the gas alone would leave. -/
  back : Valid s tx sender ctx →
    s'.getBalance sender = (settle (charge s tx sender) tx sender ctx r).getBalance sender
  untouched : ¬ Valid s tx sender ctx → s' = s

/-- The sender is the coinbase, and what it lost in value is made good by gas nobody paid
for, up to the most a balance can be; the recipient had that much before. -/
def Drowned (K : Curves) (C : Crypto) (s : StateDB) (tx : EvmTransaction) (sender : Address)
    (ctx : TransactionContext) : Prop :=
  sender = ctx.blockCoinbase ∧ s.balanceNat (target C tx sender) = 2 ^ 256 - 1 ∧
    ∃ gas, Overspends K C s tx sender ctx gas ∧
      2 ^ 256 - 1 + gasCharge tx + tx.value.toNat ≤ s.balanceNat sender + gasFee tx ctx gas

/-- The code a transaction runs leaves every slot of its contract as it was. -/
def KeepsSlots (K : Curves) (C : Crypto) (s : StateDB) (tx : EvmTransaction) (sender : Address)
    (ctx : TransactionContext) : Prop :=
  ∀ run s' ended, codeRun K C (charge s tx sender) tx sender ctx = some run →
    run.vm.execute run.state = some (s', ended) →
    ∀ key, s'.getStorage (target C tx sender) key = s.getStorage (target C tx sender) key

/-- A failure would have nothing to undo. -/
def NothingToUndo (K : Curves) (C : Crypto) (s : StateDB) (tx : EvmTransaction)
    (sender : Address) (ctx : TransactionContext) : Prop :=
  moveValue K C (charge s tx sender) tx sender = none ∨
    ((tx.value.toNat = 0 ∨ target C tx sender = sender ∨ Drowned K C s tx sender ctx) ∧
      KeepsSlots K C s tx sender ctx)

section

variable {K : Curves} {C : Crypto} {s s₂ s' sm : StateDB} {tx : EvmTransaction}
  {sender a : Address} {ctx : TransactionContext} {r : ExecutionResult}

/-! ## What is not a balance -/

theorem sameButBalances_settle (s : StateDB) (tx : EvmTransaction) (sender : Address)
    (ctx : TransactionContext) (r : ExecutionResult) :
    SameButBalances s (settle s tx sender ctx r) :=
  (sameButBalances_addBalance _ _ _).trans (sameButBalances_addBalance _ _ _)

/-- Charging changes balances and the nonce of the sender. -/
theorem getAccount_charge (s : StateDB) (tx : EvmTransaction) (sender a : Address) :
    ∃ balance, (charge s tx sender).getAccount a = if a = sender
      then { s.getAccount a with
        balance := balance, nonce := saturatingAdd (s.getNonce a) 1 }
      else { s.getAccount a with balance := balance } := by
  obtain ⟨balance, hbalance⟩ := sameButBalances_subBalance s sender tx.maxGasCost a
  refine ⟨balance, ?_⟩
  rw [charge, incrementNonce, getAccount_modifyAccount, hbalance]
  rfl

theorem read_charge {β : Type} {f : AccountState → β}
    (hf : ∀ account balance nonce,
      f { account with balance := balance, nonce := nonce } = f account) (a : Address) :
    f ((charge s tx sender).getAccount a) = f (s.getAccount a) := by
  obtain ⟨balance, hbalance⟩ := getAccount_charge s tx sender a
  rw [hbalance]
  split
  · exact hf _ _ _
  · exact hf _ balance (s.getAccount a).nonce

/-- What neither balance, nonce nor storage changes is read as before. -/
theorem read_settled {β : Type} {f : AccountState → β}
    (hbalance : ∀ account balance nonce,
      f { account with balance := balance, nonce := nonce } = f account)
    (hstorage : ∀ account key value, f (account.setStorage key value) = f account)
    (hmove : moveValue K C (charge s tx sender) tx sender = some sm)
    (hstores : Stores (target C tx sender) sm s₂) (a : Address) :
    f ((settle s₂ tx sender ctx r).getAccount a) = f (s.getAccount a) := by
  obtain ⟨writes, rfl⟩ := hstores
  have hsame : ∀ {s s' : StateDB}, SameButBalances s s' →
      f (s'.getAccount a) = f (s.getAccount a) := by
    intro s s' h
    obtain ⟨balance, heq⟩ := h a
    rw [heq]
    exact hbalance _ balance (s.getAccount a).nonce
  calc f ((settle (storeAll (target C tx sender) sm writes) tx sender ctx r).getAccount a)
      = f ((storeAll (target C tx sender) sm writes).getAccount a) :=
        hsame (sameButBalances_settle _ _ _ _ _)
    _ = f (sm.getAccount a) := read_storeAll hstorage writes sm _ a
    _ = f ((charge s tx sender).getAccount a) :=
        hsame (sameButBalances_transferValue (transferValue_of_moveValue hmove))
    _ = f (s.getAccount a) := read_charge hbalance a

theorem getNonce_charge_of_ne (h : a ≠ sender) :
    (charge s tx sender).getNonce a = s.getNonce a := by
  obtain ⟨balance, hbalance⟩ := getAccount_charge s tx sender a
  rw [StateDB.getNonce, hbalance, if_neg h]
  rfl

theorem getNonce_of_stores {address : Address} (h : Stores address sm s₂) (a : Address) :
    s₂.getNonce a = sm.getNonce a := by
  obtain ⟨writes, rfl⟩ := h
  exact read_storeAll (f := AccountState.nonce) (fun _ _ _ => rfl) writes sm _ a

theorem getStorage_charge (s : StateDB) (tx : EvmTransaction) (sender a : Address) (key : B256) :
    (charge s tx sender).getStorage a key = s.getStorage a key :=
  read_charge (f := (·.getStorage key)) (fun _ _ _ => rfl) a

theorem getStorage_moved (hmove : moveValue K C (charge s tx sender) tx sender = some sm)
    (a : Address) (key : B256) : sm.getStorage a key = s.getStorage a key := by
  have hsame := sameButBalances_transferValue (transferValue_of_moveValue hmove)
  rw [hsame.getStorage, getStorage_charge]

/-! ## Balances -/

/-- What settling makes of one balance. -/
def settled (tx : EvmTransaction) (sender : Address) (ctx : TransactionContext)
    (r : ExecutionResult) (a : Address) (balance : Nat) : Nat :=
  let refunded := if a = sender then min (balance + gasBack tx ctx r.gasUsed) (2 ^ 256 - 1)
    else balance
  if a = ctx.blockCoinbase then min (refunded + gasFee tx ctx r.gasUsed) (2 ^ 256 - 1)
  else refunded

theorem balanceNat_settle (s : StateDB) (tx : EvmTransaction) (sender : Address)
    (ctx : TransactionContext) (r : ExecutionResult) (a : Address) :
    (settle s tx sender ctx r).balanceNat a = settled tx sender ctx r a (s.balanceNat a) := by
  obtain ⟨back, fee, hback, hfee, heq⟩ := settle_eq s tx sender ctx r
  rw [heq, balanceNat_addBalance, balanceNat_addBalance, hback, hfee]
  rfl

theorem settled_of_ne (hsender : a ≠ sender) (hcoinbase : a ≠ ctx.blockCoinbase) (n : Nat) :
    settled tx sender ctx r a n = n := by
  unfold settled
  rw [if_neg hsender, if_neg hcoinbase]

theorem balanceNat_charge (hvalid : Valid s tx sender ctx) :
    (charge s tx sender).balanceNat sender + gasCharge tx = s.balanceNat sender ∧
      ∀ a, a ≠ sender → (charge s tx sender).balanceNat a = s.balanceNat a := by
  have hposts := posts_charge hvalid
  refine ⟨?_, fun a ha => ?_⟩
  · have hat := hposts sender
    simp only [posted_cons, posted_nil, if_pos] at hat
    exact hat
  · have hat := hposts a
    simp only [posted_cons, posted_nil, if_neg (Ne.symm ha)] at hat
    exact hat

/-- Less than the charged balance is settled to the same only where what the coinbase is
paid too much is cut off. -/
theorem settled_eq_iff (hvalid : Valid s tx sender ctx) {n : Nat}
    (hless : n < (charge s tx sender).balanceNat sender) :
    settled tx sender ctx r sender n
        = settled tx sender ctx r sender ((charge s tx sender).balanceNat sender) ↔
      sender = ctx.blockCoinbase ∧ tx.gasLimit.toNat < r.gasUsed.toNat ∧
        2 ^ 256 - 1 ≤ n + gasFee tx ctx r.gasUsed := by
  obtain ⟨hcharge, -⟩ := balanceNat_charge hvalid
  have hbalance := balanceNat_lt s sender
  have hprice : tx.gasLimit.toNat * (tx.effectiveGasPrice ctx.blockBasefee).toNat ≤ gasCharge tx :=
    Nat.mul_le_mul_left _ (effectiveGasPrice_le hvalid)
  have hback : gasBack tx ctx r.gasUsed ≤ gasCharge tx :=
    (Nat.mul_le_mul_right _ (Nat.sub_le _ _)).trans hprice
  unfold settled
  rw [if_pos rfl, if_pos rfl, min_eq_left (by omega), min_eq_left (by omega)]
  by_cases hcoinbase : sender = ctx.blockCoinbase
  · rw [if_pos hcoinbase, if_pos hcoinbase]
    by_cases hgas : tx.gasLimit.toNat < r.gasUsed.toNat
    · have hnothing : gasBack tx ctx r.gasUsed = 0 := by
        rw [gasBack, Nat.sub_eq_zero_of_le hgas.le, Nat.zero_mul]
      rw [hnothing]
      constructor
      · intro heq
        exact ⟨hcoinbase, hgas, by omega⟩
      · rintro ⟨-, -, hcut⟩
        omega
    · have hboth : gasBack tx ctx r.gasUsed + gasFee tx ctx r.gasUsed = _ :=
        gasBack_add_gasFee (Nat.not_lt.mp hgas)
      refine iff_of_false ?_ fun h => hgas h.2.1
      omega
  · rw [if_neg hcoinbase, if_neg hcoinbase]
    refine iff_of_false ?_ fun h => hcoinbase h.1
    omega

/-- What moving the value to somebody else does to the balances. -/
theorem balanceNat_transferValue {v : U256} {b : Address} (hv : v.toNat ≠ 0) (hne : b ≠ a)
    (h : s.transferValue v a b = some s') :
    s'.balanceNat a + v.toNat = s.balanceNat a ∧
      s'.balanceNat b = min (s.balanceNat b + v.toNat) (2 ^ 256 - 1) ∧
      ∀ c, c ≠ a → c ≠ b → s'.balanceNat c = s.balanceNat c := by
  unfold transferValue at h
  rw [if_neg (fun hzero => hv (U256.isZero_iff.mp hzero))] at h
  split at h
  · next s₁ hsub =>
    cases h
    have hposts := posts_subBalance hsub
    have hothers : ∀ c, c ≠ a → s₁.balanceNat c = s.balanceNat c := by
      intro c hc
      have hat := hposts c
      simp only [posted_cons, posted_nil, if_neg (Ne.symm hc)] at hat
      exact hat
    have hself := hposts a
    simp only [posted_cons, posted_nil, if_pos] at hself
    refine ⟨?_, ?_, fun c hca hcb => ?_⟩
    · rw [balanceNat_addBalance, if_neg (Ne.symm hne)]
      exact hself
    · rw [balanceNat_addBalance, if_pos rfl, hothers b hne]
    · rw [balanceNat_addBalance, if_neg hcb, hothers c hca]
  · cases h

/-- Value that is nothing, or that goes to its sender, changes no balance. -/
theorem balanceNat_transferValue_of_kept {v : U256} {b : Address}
    (hkept : v.toNat = 0 ∨ b = a) (h : s.transferValue v a b = some s') (c : Address) :
    s'.balanceNat c = s.balanceNat c := by
  unfold transferValue at h
  split at h
  · cases h
    rfl
  · next hzero =>
    have hself : b = a := hkept.resolve_left fun hv => hzero (U256.isZero_iff.mpr hv)
    subst hself
    split at h
    · next s₁ hsub =>
      cases h
      have hat := posts_subBalance hsub c
      have hlt := balanceNat_lt s c
      rw [balanceNat_addBalance]
      simp only [posted_cons, posted_nil] at hat
      split
      · next hc =>
        rw [if_pos hc.symm] at hat
        omega
      · next hc =>
        rw [if_neg (Ne.symm hc)] at hat
        exact hat
    · cases h

/-! ## A failure -/

/-- A failed branch has done nothing, or has moved the value and left the slots as its
code left them. -/
theorem failed_cases (hran : Ran K C (charge s tx sender) tx sender ctx s₂ r)
    (hfail : r.success = false) :
    (moveValue K C (charge s tx sender) tx sender = none ∧ s₂ = charge s tx sender) ∨
    ∃ sm, moveValue K C (charge s tx sender) tx sender = some sm ∧
      Stores (target C tx sender) sm s₂ ∧
      (KeepsSlots K C s tx sender ctx ↔ ∀ key,
        s₂.getStorage (target C tx sender) key = s.getStorage (target C tx sender) key) := by
  have hslots : ∀ {run : CodeRun} {ended : ExecutionResult},
      codeRun K C (charge s tx sender) tx sender ctx = some run →
      run.vm.execute run.state = some (s₂, ended) →
      (KeepsSlots K C s tx sender ctx ↔ ∀ key,
        s₂.getStorage (target C tx sender) key = s.getStorage (target C tx sender) key) := by
    intro run ended hcode hrun
    constructor
    · exact fun h => h run s₂ ended hcode hrun
    · intro h run' s' ended' hcode' hrun'
      cases hcode.symm.trans hcode'
      cases hrun.symm.trans hrun'
      exact h
  cases hran with
  | refused hmove _ _ => exact .inl ⟨hmove, rfl⟩
  | moved hmove hcode _ =>
    refine .inr ⟨s₂, hmove, Stores.refl _ _, iff_of_true ?_ fun key => getStorage_moved hmove _ key⟩
    intro run s' ended hcode'
    cases hcode.symm.trans hcode'
  | ran hcode hrun _ _ _ =>
    exact .inr ⟨_, (started_of_codeRun hcode).moved, stores_of_codeRun hcode hrun, hslots hcode hrun⟩
  | unpaid hcode hrun _ _ _ _ =>
    exact .inr ⟨_, (started_of_codeRun hcode).moved, stores_of_codeRun hcode hrun, hslots hcode hrun⟩
  | created _ _ _ _ hsuccess _ =>
    rw [hsuccess] at hfail
    cases hfail

theorem getBalance_eq_iff {s s' : StateDB} {a : Address} :
    s'.getBalance a = s.getBalance a ↔ s'.balanceNat a = s.balanceNat a :=
  ⟨congrArg U256.toNat, U256.toNat_inj⟩

/-- A failure after the value moved is clean where the slots and the balances are. -/
theorem failsCleanly_settle_iff (hvalid : Valid s tx sender ctx)
    (hmove : moveValue K C (charge s tx sender) tx sender = some sm)
    (hstores : Stores (target C tx sender) sm s₂) :
    FailsCleanly s tx sender ctx (settle s₂ tx sender ctx r) r ↔
      (∀ key, s₂.getStorage (target C tx sender) key = s.getStorage (target C tx sender) key) ∧
      (∀ a, a ≠ sender → a ≠ ctx.blockCoinbase → sm.balanceNat a = s.balanceNat a) ∧
      settled tx sender ctx r sender (sm.balanceNat sender)
        = settled tx sender ctx r sender ((charge s tx sender).balanceNat sender) := by
  have hsettle := sameButBalances_settle s₂ tx sender ctx r
  have hbalance : ∀ a, s₂.balanceNat a = sm.balanceNat a := by
    obtain ⟨writes, rfl⟩ := hstores
    exact fun a => balanceNat_storeAll writes sm _ a
  constructor
  · intro h
    refine ⟨fun key => ?_, fun a hsender hcoinbase => ?_, ?_⟩
    · rw [← hsettle.getStorage]
      exact h.storage _ key
    · have hkept := getBalance_eq_iff.mp (h.balance a hsender hcoinbase)
      rwa [balanceNat_settle, settled_of_ne hsender hcoinbase, hbalance] at hkept
    · have hback := getBalance_eq_iff.mp (h.back hvalid)
      rwa [balanceNat_settle, balanceNat_settle, hbalance] at hback
  · rintro ⟨hslots, hothers, hsender⟩
    refine ⟨fun a => ⟨?_, ?_⟩, fun a key => ?_, fun a ha hcoinbase => ?_, fun a ha => ?_, fun _ => ?_,
      fun hinvalid => absurd hvalid hinvalid⟩
    · exact read_settled (f := AccountState.code) (fun _ _ _ => rfl) (fun _ _ _ => rfl) hmove hstores a
    · exact read_settled (f := AccountState.codeHash) (fun _ _ _ => rfl) (fun _ _ _ => rfl) hmove
        hstores a
    · rw [hsettle.getStorage]
      by_cases ha : a = target C tx sender
      · rw [ha]
        exact hslots key
      · obtain ⟨writes, rfl⟩ := hstores
        rw [StateDB.getStorage, getAccount_storeAll_of_ne ha]
        exact getStorage_moved hmove a key
    · rw [getBalance_eq_iff, balanceNat_settle, settled_of_ne ha hcoinbase, hbalance]
      exact hothers a ha hcoinbase
    · have hmoved := sameButBalances_transferValue (transferValue_of_moveValue hmove)
      rw [hsettle.getNonce, getNonce_of_stores hstores, hmoved.getNonce, getNonce_charge_of_ne ha]
    · rw [getBalance_eq_iff, balanceNat_settle, balanceNat_settle, hbalance]
      exact hsender

/-- The balances are clean where the value stayed with the sender, or is made good. -/
theorem balances_clean_iff (hvalid : Valid s tx sender ctx)
    (hran : Ran K C (charge s tx sender) tx sender ctx s₂ r)
    (hmove : moveValue K C (charge s tx sender) tx sender = some sm) :
    ((∀ a, a ≠ sender → a ≠ ctx.blockCoinbase → sm.balanceNat a = s.balanceNat a) ∧
      settled tx sender ctx r sender (sm.balanceNat sender)
        = settled tx sender ctx r sender ((charge s tx sender).balanceNat sender)) ↔
      (tx.value.toNat = 0 ∨ target C tx sender = sender ∨ Drowned K C s tx sender ctx) := by
  obtain ⟨hcharge, hrest⟩ := balanceNat_charge hvalid
  have htransfer := transferValue_of_moveValue hmove
  by_cases hkept : tx.value.toNat = 0 ∨ target C tx sender = sender
  · have hsame := balanceNat_transferValue_of_kept hkept htransfer
    refine iff_of_true ⟨fun a ha _ => ?_, ?_⟩ (hkept.imp_right .inl)
    · rw [hsame, hrest a ha]
    · rw [hsame]
  rw [not_or] at hkept
  obtain ⟨hsender, htarget, hothers⟩ := balanceNat_transferValue hkept.1 hkept.2 htransfer
  rw [settled_eq_iff hvalid (by omega)]
  rw [hrest _ hkept.2] at htarget
  constructor
  · rintro ⟨hclean, hcoinbase, hgas, hcut⟩
    refine .inr (.inr ⟨hcoinbase, ?_, r.gasUsed, ?_, by omega⟩)
    · have hat := hclean _ hkept.2 (hcoinbase ▸ hkept.2)
      have hlt := balanceNat_lt s (target C tx sender)
      have hpos := Nat.pos_of_ne_zero hkept.1
      omega
    · exact (overspends_iff hran _).mpr ⟨hgas, rfl⟩
  · rintro (hzero | hself | ⟨hcoinbase, hfull, gas, hspent, hcut⟩)
    · exact absurd hzero hkept.1
    · exact absurd hself hkept.2
    · obtain ⟨hgas, rfl⟩ := (overspends_iff hran gas).mp hspent
      refine ⟨fun a ha _ => ?_, hcoinbase, hgas, by omega⟩
      by_cases hat : a = target C tx sender
      · rw [hat, htarget, hfull]
        omega
      · rw [hothers a ha hat, hrest a ha]

end

/-- A failed transaction leaves nothing behind exactly where it is not valid or has
nothing to undo. -/
theorem failsCleanly_iff (K : Curves) (C : Crypto) (s : StateDB) (tx : EvmTransaction)
    (sender : Address) (ctx : TransactionContext) (s' : StateDB) (r : ExecutionResult)
    (h : executeTransaction K C s tx sender ctx = some (s', r)) (hfail : r.success = false) :
    FailsCleanly s tx sender ctx s' r ↔
      (Valid s tx sender ctx → NothingToUndo K C s tx sender ctx) := by
  rcases executeTransaction_cases h with ⟨hinvalid, rfl, -, -⟩ | ⟨hvalid, s₂, hbody, rfl⟩
  · refine iff_of_true ⟨fun _ => ⟨rfl, rfl⟩, fun _ _ => rfl, fun _ _ _ => rfl, fun _ _ => rfl,
      fun hvalid => absurd hvalid hinvalid, fun _ => rfl⟩ fun hvalid => absurd hvalid hinvalid
  have hran := ran_executeBody hbody
  rw [forall_prop_of_true hvalid]
  rcases failed_cases hran hfail with ⟨hnone, rfl⟩ | ⟨sm, hmove, hstores, hslots⟩
  · refine iff_of_true ?_ (.inl hnone)
    have hsettle := sameButBalances_settle (charge s tx sender) tx sender ctx r
    refine ⟨fun a => ⟨?_, ?_⟩, fun a key => ?_, fun a ha hcoinbase => ?_, fun a ha => ?_,
      fun _ => rfl, fun hinvalid => absurd hvalid hinvalid⟩
    · rw [hsettle.getCode]
      exact read_charge (f := AccountState.code) (fun _ _ _ => rfl) a
    · rw [hsettle.getCodeHash]
      exact read_charge (f := AccountState.codeHash) (fun _ _ _ => rfl) a
    · rw [hsettle.getStorage, getStorage_charge]
    · rw [getBalance_eq_iff, balanceNat_settle, settled_of_ne ha hcoinbase,
        (balanceNat_charge hvalid).2 a ha]
    · rw [hsettle.getNonce, getNonce_charge_of_ne ha]
  · rw [failsCleanly_settle_iff hvalid hmove hstores, balances_clean_iff hvalid hran hmove, ← hslots]
    constructor
    · rintro ⟨hkeeps, hbalances⟩
      exact .inr ⟨hbalances, hkeeps⟩
    · rintro (hnone | ⟨hbalances, hkeeps⟩)
      · cases hnone.symm.trans hmove
      · exact ⟨hkeeps, hbalances⟩

/-- Value sent to BLAKE2F with no input. -/
def badCompress : EvmTransaction :=
  { plainTransfer 2000000000 with recipient := some (precompileAddress 0 9) }

/-- A call, without value, of a contract that reverts. -/
def revertedCall : EvmTransaction :=
  { plainTransfer 2000000000 with
    gasLimit := 30000, recipient := some (Vector.replicate 20 4), value := U256.ZERO }

/-- With such a contract: PUSH1 0 PUSH1 0 REVERT. -/
def withRefusing : StateDB :=
  funded.setCode (Crypto.ofTable []) (Vector.replicate 20 4) [0x60, 0, 0x60, 0, 0xfd]

/-- With one that writes a slot before: PUSH1 1 PUSH1 1 SSTORE PUSH1 0 PUSH1 0 REVERT. -/
def withReverting : StateDB :=
  funded.setCode (Crypto.ofTable []) (Vector.replicate 20 4)
    [0x60, 1, 0x60, 1, 0x55, 0x60, 0, 0x60, 0, 0xfd]

/-- Code that reverts at once leaves nothing behind but the gas. -/
theorem failsCleanly_revertedCall :
    let C := Crypto.ofTable []
    let sender := Vector.replicate 20 1
    ∃ s' r, executeTransaction .none C withRefusing revertedCall sender .default = some (s', r) ∧
      r.success = false ∧ r.gasUsed = 21009 ∧
      FailsCleanly withRefusing revertedCall sender .default s' r := by
  intro C sender
  have hfails : (executeTransaction .none C withRefusing revertedCall sender .default).map
      (fun out => (out.2.success, out.2.gasUsed)) = some (false, 21009) := by decide +kernel
  obtain ⟨⟨s', r⟩, hrun, hr⟩ := Option.map_eq_some_iff.mp hfails
  obtain ⟨hfail, hgas⟩ := Prod.mk.inj hr
  refine ⟨s', r, hrun, hfail, hgas, ?_⟩
  refine (failsCleanly_iff .none C withRefusing revertedCall sender .default s' r hrun hfail).mpr
    fun _ => .inr ⟨.inl (by decide), fun run s₁ ended hcode hexecute key => ?_⟩
  have hkept : ((codeRun .none C (charge withRefusing revertedCall sender) revertedCall sender
      .default).bind fun run => (run.vm.execute run.state).map fun out =>
        out.1.getAccount (Vector.replicate 20 4))
      = some (withRefusing.getAccount (Vector.replicate 20 4)) := by
    decide +kernel
  rw [hcode, Option.bind_some, hexecute] at hkept
  exact congrArg (AccountState.getStorage · key) (Option.some.inj hkept)

/-- A precompile that fails keeps the value, and a call that reverts keeps its writes. -/
theorem failure_keeps_value_and_slots :
    let C := Crypto.ofTable []
    let sender := Vector.replicate 20 1
    let slot := (U256.fromU64 1).toBeBytes
    (∃ s' r, executeTransaction .none C funded badCompress sender .default = some (s', r) ∧
      r.success = false ∧ s'.getBalance (precompileAddress 0 9) = U256.fromU64 1000000000 ∧
      ¬ FailsCleanly funded badCompress sender .default s' r) ∧
    (∃ s' r, executeTransaction .none C withReverting revertedCall sender .default = some (s', r) ∧
      r.success = false ∧ s'.getStorage (Vector.replicate 20 4) slot = U256.ONE ∧
      ¬ FailsCleanly withReverting revertedCall sender .default s' r) := by
  intro C sender slot
  have hvalue : (executeTransaction .none C funded badCompress sender .default).map
      (fun out => (out.2.success, out.1.getBalance (precompileAddress 0 9)))
      = some (false, U256.fromU64 1000000000) := by decide +kernel
  have hwrite : (executeTransaction .none C withReverting revertedCall sender .default).map
      (fun out => (out.2.success, out.1.getStorage (Vector.replicate 20 4) slot))
      = some (false, U256.ONE) := by decide +kernel
  obtain ⟨⟨s₁, r₁⟩, hrun₁, hr₁⟩ := Option.map_eq_some_iff.mp hvalue
  obtain ⟨⟨s₂, r₂⟩, hrun₂, hr₂⟩ := Option.map_eq_some_iff.mp hwrite
  obtain ⟨hfail₁, hbalance⟩ := Prod.mk.inj hr₁
  obtain ⟨hfail₂, hstorage⟩ := Prod.mk.inj hr₂
  refine ⟨⟨s₁, r₁, hrun₁, hfail₁, hbalance, fun h => ?_⟩,
    ⟨s₂, r₂, hrun₂, hfail₂, hstorage, fun h => ?_⟩⟩
  · have hkept := h.balance (precompileAddress 0 9) (by decide) (by decide)
    exact absurd (hbalance.symm.trans hkept) (by decide +kernel)
  · have hkept := h.storage (Vector.replicate 20 4) slot
    exact absurd (hstorage.symm.trans hkept) (by decide +kernel)

end EvmExecutor

end Pyrax.Evm
