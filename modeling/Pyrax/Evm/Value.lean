import Pyrax.Base.Sums
import Pyrax.Evm.Executor

/-!
# Value is conserved, or not

A transaction should move value and make none: the sender pays the gas used at the
effective price and the value, the coinbase gets the one and the recipient the other,
and the sum of all balances stays (`Conserves`), whichever of the addresses coincide.

The gas limit is charged at the most the sender would pay, the refund and the payment
are made at the effective price. Where the two prices differ, the difference on every
unit of the limit is gone. And where the last opcode costs more than the gas left, the
coinbase is paid for more than was charged (`Overspends`). `conserves_iff` is the exact
condition (`Priced`): neither happens, or the two make up for each other by chance.

Each step is a posting on the balances as numbers; the bound on their sum keeps every
addition exact but the last, where the coinbase may be paid more than there is.
-/

namespace Pyrax.Evm

open Base Word EvmInterpreter

namespace StateDB

variable {s s' : StateDB} {a b : Address} {v : U256} {debits credits : List (Address × Nat)}

/-- The balance as a number. -/
def balanceNat (s : StateDB) (a : Address) : Nat := (s.getBalance a).toNat

/-- The sum of all balances: where no account is, there is no balance. -/
def totalBalance (s : StateDB) : Nat :=
  ∑ a ∈ s.accounts.keys ∪ s.pendingChanges.keys, s.balanceNat a

theorem balanceNat_lt (s : StateDB) (a : Address) : s.balanceNat a < 2 ^ 256 :=
  (s.getBalance a).toNat_lt

theorem balanceNat_of_notMem (h : a ∉ s.accounts.keys ∪ s.pendingChanges.keys) :
    s.balanceNat a = 0 := by
  rw [Finset.notMem_union, Finmap.mem_keys, Finmap.mem_keys] at h
  have haccount : s.getAccount a = .empty := by
    rw [getAccount, Finmap.lookup_eq_none.mpr h.2, Finmap.lookup_eq_none.mpr h.1]
    rfl
  rw [balanceNat, getBalance, haccount]
  rfl

theorem totalBalance_eq_sum {t : Finset Address}
    (h : s.accounts.keys ∪ s.pendingChanges.keys ⊆ t) :
    s.totalBalance = ∑ a ∈ t, s.balanceNat a :=
  Finset.sum_subset h fun _ _ hnot => balanceNat_of_notMem hnot

/-- What is posted changes the sum by the sums of its entries. -/
theorem totalBalance_of_posts (h : Posts s.balanceNat s'.balanceNat debits credits) :
    s'.totalBalance + (debits.map Prod.snd).sum = s.totalBalance + (credits.map Prod.snd).sum := by
  let named := ((debits ++ credits).map Prod.fst).toFinset
  let t := named ∪ ((s.accounts.keys ∪ s.pendingChanges.keys) ∪
    (s'.accounts.keys ∪ s'.pendingChanges.keys))
  have hs : s.totalBalance = ∑ b ∈ t, s.balanceNat b :=
    totalBalance_eq_sum fun b hb => Finset.mem_union_right _ (Finset.mem_union_left _ hb)
  have hs' : s'.totalBalance = ∑ b ∈ t, s'.balanceNat b :=
    totalBalance_eq_sum fun b hb => Finset.mem_union_right _ (Finset.mem_union_right _ hb)
  have hnamed : ∀ entry ∈ debits ++ credits, entry.1 ∈ t := fun entry hentry =>
    Finset.mem_union_left _ (List.mem_toFinset.mpr (List.mem_map_of_mem hentry))
  rw [hs, hs']
  exact h.sum (fun entry hentry => hnamed entry (List.mem_append_left _ hentry))
    fun entry hentry => hnamed entry (List.mem_append_right _ hentry)

theorem balanceNat_le_totalBalance (s : StateDB) (a : Address) :
    s.balanceNat a ≤ s.totalBalance := by
  by_cases hmem : a ∈ s.accounts.keys ∪ s.pendingChanges.keys
  · exact Finset.single_le_sum (f := s.balanceNat) (fun _ _ => Nat.zero_le _) hmem
  · rw [balanceNat_of_notMem hmem]
    exact Nat.zero_le _

/-! ## What each operation posts -/

theorem balanceNat_modifyAccount {f : AccountState → AccountState}
    (hf : ∀ account, (f account).balance = account.balance) (s : StateDB) (a b : Address) :
    (s.modifyAccount a f).balanceNat b = s.balanceNat b := by
  rw [balanceNat, getBalance, getAccount_modifyAccount]
  split
  · rw [hf]
    rfl
  · rfl

theorem balanceNat_incrementNonce (s : StateDB) (a b : Address) :
    (s.incrementNonce a).balanceNat b = s.balanceNat b := by
  unfold incrementNonce
  exact balanceNat_modifyAccount (by intro account; rfl) s a b

theorem balanceNat_setCode (C : Crypto) (s : StateDB) (a b : Address) (code : List UInt8) :
    (s.setCode C a code).balanceNat b = s.balanceNat b := by
  unfold setCode
  exact balanceNat_modifyAccount (by intro account; rfl) s a b

theorem posts_subBalance (h : s.subBalance a v = (s', true)) :
    Posts s.balanceNat s'.balanceNat [(a, v.toNat)] [] := by
  unfold subBalance at h
  split at h
  · next newBalance hsub =>
    cases h
    rw [U256.checkedSub_eq_some_iff] at hsub
    intro b
    rw [posted_cons, posted_nil, balanceNat, getBalance, getAccount_modifyAccount]
    by_cases hb : b = a
    · subst hb
      rw [if_pos rfl, if_pos rfl]
      exact hsub.symm
    · rw [if_neg hb, if_neg (Ne.symm hb)]
      rfl
  · cases h

theorem balanceNat_addBalance (s : StateDB) (a : Address) (v : U256) (b : Address) :
    (s.addBalance a v).balanceNat b
      = if b = a then min (s.balanceNat b + v.toNat) (2 ^ 256 - 1) else s.balanceNat b := by
  rw [balanceNat, getBalance, addBalance, getAccount_modifyAccount]
  split
  · exact U256.toNat_saturatingAdd _ _
  · rfl

theorem posts_addBalance (h : s.balanceNat a + v.toNat < 2 ^ 256) :
    Posts s.balanceNat (s.addBalance a v).balanceNat [] [(a, v.toNat)] := by
  intro b
  rw [posted_cons, posted_nil, balanceNat_addBalance]
  by_cases hb : b = a
  · subst hb
    rw [if_pos rfl, if_pos rfl]
    omega
  · rw [if_neg hb, if_neg (Ne.symm hb)]

theorem posts_transferValue (htotal : s.totalBalance < 2 ^ 256)
    (h : s.transferValue v a b = some s') :
    Posts s.balanceNat s'.balanceNat [(a, v.toNat)] [(b, v.toNat)] := by
  unfold transferValue at h
  split at h
  · next hzero =>
    cases h
    rw [U256.isZero_iff] at hzero
    intro c
    simp [hzero]
  · split at h
    · next sm hsub =>
      cases h
      have hout := posts_subBalance hsub
      have hsum := totalBalance_of_posts hout
      have hle := balanceNat_le_totalBalance sm b
      simp only [List.map_cons, List.map_nil, List.sum_cons, List.sum_nil] at hsum
      exact hout.trans (posts_addBalance (by omega))
    · cases h

theorem balanceNat_storeAll (writes : List (B256 × U256)) (s : StateDB) (a b : Address) :
    (storeAll a s writes).balanceNat b = s.balanceNat b :=
  congrArg U256.toNat (read_storeAll (f := AccountState.balance) (fun _ _ _ => rfl) writes s a b)

end StateDB

namespace EvmExecutor

open StateDB

/-- What the coinbase is paid for the gas used. -/
def gasFee (tx : EvmTransaction) (ctx : TransactionContext) (gasUsed : UInt64) : Nat :=
  gasUsed.toNat * (tx.effectiveGasPrice ctx.blockBasefee).toNat

/-- What the sender gets back for the gas left. -/
def gasBack (tx : EvmTransaction) (ctx : TransactionContext) (gasUsed : UInt64) : Nat :=
  (tx.gasLimit.toNat - gasUsed.toNat) * (tx.effectiveGasPrice ctx.blockBasefee).toNat

/-- What was charged for the gas in advance. -/
def gasCharge (tx : EvmTransaction) : Nat := tx.gasLimit.toNat * tx.maxFeePerGas.toNat

/-- The value that moves: all of it, or nothing where the branch does not get so far. -/
def movedValue (K : Curves) (C : Crypto) (s : StateDB) (tx : EvmTransaction) (sender : Address) :
    Nat :=
  if (moveValue K C s tx sender).isSome then tx.value.toNat else 0

def transferred (K : Curves) (C : Crypto) (s : StateDB) (tx : EvmTransaction) (sender : Address)
    (ctx : TransactionContext) : Nat :=
  match validateTransaction s tx sender ctx with
  | .error _ => 0
  | .ok () => movedValue K C (charge s tx sender) tx sender

/-- Value moves and none is made: the sender pays the gas used at the effective price
and the value, and the recipient and the coinbase get them. -/
structure Conserves (K : Curves) (C : Crypto) (s : StateDB) (tx : EvmTransaction)
    (sender : Address) (ctx : TransactionContext) (s' : StateDB) (r : ExecutionResult) : Prop where
  total : s'.totalBalance = s.totalBalance
  paid : Posts s.balanceNat s'.balanceNat
    [(sender, gasFee tx ctx r.gasUsed), (sender, transferred K C s tx sender ctx)]
    [(target C tx sender, transferred K C s tx sender ctx),
      (ctx.blockCoinbase, gasFee tx ctx r.gasUsed)]
  sent : r.success = true → transferred K C s tx sender ctx = tx.value.toNat

section

variable {K : Curves} {C : Crypto} {s s₂ s' : StateDB} {tx : EvmTransaction} {sender : Address}
  {ctx : TransactionContext} {r : ExecutionResult}

/-! ## What a transaction posts -/

theorem movedValue_of_none (h : moveValue K C s tx sender = none) :
    movedValue K C s tx sender = 0 := by
  rw [movedValue, h]
  rfl

theorem movedValue_of_some (h : moveValue K C s tx sender = some s') :
    movedValue K C s tx sender = tx.value.toNat := by
  rw [movedValue, h]
  rfl

theorem transferred_of_valid (h : Valid s tx sender ctx) :
    transferred K C s tx sender ctx = movedValue K C (charge s tx sender) tx sender := by
  rw [transferred, validateTransaction_iff.mpr h]

theorem transferred_of_invalid (h : ¬ Valid s tx sender ctx) :
    transferred K C s tx sender ctx = 0 := by
  unfold transferred
  split
  · rfl
  · next hok => exact absurd (validateTransaction_iff.mp hok) h

theorem posts_charge (h : Valid s tx sender ctx) :
    Posts s.balanceNat (charge s tx sender).balanceNat [(sender, gasCharge tx)] [] := by
  have hsub : s.subBalance sender tx.maxGasCost = ((s.subBalance sender tx.maxGasCost).1, true) :=
    Prod.ext rfl (subBalance_of_valid h)
  have hposts := posts_subBalance hsub
  rw [tx.toNat_maxGasCost] at hposts
  refine hposts.trans (Posts.of_eq fun a => ?_)
  exact balanceNat_incrementNonce _ sender a

theorem posts_of_stores {sm : StateDB} (htotal : s.totalBalance < 2 ^ 256)
    (hmove : moveValue K C s tx sender = some sm) (hstores : Stores (target C tx sender) sm s') :
    Posts s.balanceNat s'.balanceNat [(sender, movedValue K C s tx sender)]
      [(target C tx sender, movedValue K C s tx sender)] := by
  have hmoved := posts_transferValue htotal (transferValue_of_moveValue hmove)
  rw [movedValue_of_some hmove]
  obtain ⟨writes, rfl⟩ := hstores
  exact hmoved.trans (Posts.of_eq fun a => balanceNat_storeAll writes sm _ a)

/-- Each branch moves the value or nothing. -/
theorem posts_of_ran (htotal : s.totalBalance < 2 ^ 256) (h : Ran K C s tx sender ctx s' r) :
    Posts s.balanceNat s'.balanceNat [(sender, movedValue K C s tx sender)]
      [(target C tx sender, movedValue K C s tx sender)] := by
  cases h with
  | refused hmove _ _ =>
    rw [movedValue_of_none hmove]
    intro a
    simp
  | moved hmove _ _ => exact posts_of_stores htotal hmove (Stores.refl _ _)
  | ran hcode hrun _ _ _ =>
    exact posts_of_stores htotal (started_of_codeRun hcode).moved (stores_of_codeRun hcode hrun)
  | unpaid hcode hrun _ _ _ _ =>
    exact posts_of_stores htotal (started_of_codeRun hcode).moved (stores_of_codeRun hcode hrun)
  | created hcode hrun _ _ _ _ =>
    have hposts := posts_of_stores htotal (started_of_codeRun hcode).moved
      (stores_of_codeRun hcode hrun)
    exact hposts.trans (Posts.of_eq fun a => balanceNat_setCode C _ _ a _)

/-- A success has moved the value. -/
theorem movedValue_of_success (h : Ran K C s tx sender ctx s' r) (hsuccess : r.success = true) :
    movedValue K C s tx sender = tx.value.toNat := by
  cases h with
  | refused _ hfail _ =>
    rw [hsuccess] at hfail
    cases hfail
  | moved hmove _ _ => exact movedValue_of_some hmove
  | ran hcode _ _ _ _ => exact movedValue_of_some (started_of_codeRun hcode).moved
  | unpaid hcode _ _ _ _ _ => exact movedValue_of_some (started_of_codeRun hcode).moved
  | created hcode _ _ _ _ _ => exact movedValue_of_some (started_of_codeRun hcode).moved

theorem settle_eq (s : StateDB) (tx : EvmTransaction) (sender : Address) (ctx : TransactionContext)
    (r : ExecutionResult) : ∃ back fee : U256, back.toNat = gasBack tx ctx r.gasUsed ∧
      fee.toNat = gasFee tx ctx r.gasUsed ∧
      settle s tx sender ctx r = (s.addBalance sender back).addBalance ctx.blockCoinbase fee := by
  obtain ⟨back, hback, hbackNat⟩ := U256.checkedMul_fromU64 (saturatingSub tx.gasLimit r.gasUsed)
    (tx.effectiveGasPrice ctx.blockBasefee)
  obtain ⟨fee, hfee, hfeeNat⟩ := U256.checkedMul_fromU64 r.gasUsed
    (tx.effectiveGasPrice ctx.blockBasefee)
  rw [toNat_saturatingSub] at hbackNat
  refine ⟨back, fee, hbackNat, hfeeNat, ?_⟩
  rw [settle, hback, hfee]
  rfl

/-- Where the refund and the payment fit, they are posted. -/
theorem posts_settle (h : s.totalBalance + gasBack tx ctx r.gasUsed + gasFee tx ctx r.gasUsed
    < 2 ^ 256) : Posts s.balanceNat (settle s tx sender ctx r).balanceNat []
      [(sender, gasBack tx ctx r.gasUsed), (ctx.blockCoinbase, gasFee tx ctx r.gasUsed)] := by
  obtain ⟨back, fee, hback, hfee, heq⟩ := settle_eq s tx sender ctx r
  rw [← hback, ← hfee] at h ⊢
  rw [heq]
  have hsender := balanceNat_le_totalBalance s sender
  have hposts : Posts s.balanceNat (s.addBalance sender back).balanceNat [] [(sender, back.toNat)] :=
    posts_addBalance (by omega)
  have hsum := totalBalance_of_posts hposts
  have hcoinbase := balanceNat_le_totalBalance (s.addBalance sender back) ctx.blockCoinbase
  simp only [List.map_cons, List.map_nil, List.sum_cons, List.sum_nil] at hsum
  exact hposts.trans (posts_addBalance (by omega))

/-- With nothing to refund, the coinbase is paid up to the bound of a balance. -/
theorem balanceNat_settle_of_overspent (h : tx.gasLimit.toNat < r.gasUsed.toNat) (a : Address) :
    (settle s tx sender ctx r).balanceNat a
      = if a = ctx.blockCoinbase then min (s.balanceNat a + gasFee tx ctx r.gasUsed) (2 ^ 256 - 1)
        else s.balanceNat a := by
  obtain ⟨back, fee, hback, hfee, heq⟩ := settle_eq s tx sender ctx r
  have hnothing : back.toNat = 0 := by
    rw [hback, gasBack, Nat.sub_eq_zero_of_le h.le, Nat.zero_mul]
  have hsame : (s.addBalance sender back).balanceNat a = s.balanceNat a := by
    have hlt := balanceNat_lt s a
    rw [balanceNat_addBalance, hnothing]
    split
    · omega
    · rfl
  rw [heq, balanceNat_addBalance, hsame, hfee]

theorem effectiveGasPrice_le (h : Valid s tx sender ctx) :
    (tx.effectiveGasPrice ctx.blockBasefee).toNat ≤ tx.maxFeePerGas.toNat := by
  rw [EvmTransaction.toNat_effectiveGasPrice h.baseFee]
  exact min_le_right _ _

/-- The charged database and what the branch does to it, posted together. -/
theorem posts_of_charged (htotal : s.totalBalance < 2 ^ 256) (hvalid : Valid s tx sender ctx)
    (hran : Ran K C (charge s tx sender) tx sender ctx s₂ r) :
    Posts s.balanceNat s₂.balanceNat
      [(sender, gasCharge tx), (sender, transferred K C s tx sender ctx)]
      [(target C tx sender, transferred K C s tx sender ctx)] := by
  have hcharge := posts_charge hvalid
  have hsum := totalBalance_of_posts hcharge
  simp only [List.map_cons, List.map_nil, List.sum_cons, List.sum_nil] at hsum
  rw [transferred_of_valid hvalid]
  exact hcharge.trans (posts_of_ran (by omega) hran)

theorem totalBalance_of_charged (htotal : s.totalBalance < 2 ^ 256)
    (hvalid : Valid s tx sender ctx) (hran : Ran K C (charge s tx sender) tx sender ctx s₂ r) :
    s₂.totalBalance + gasCharge tx = s.totalBalance := by
  have hsum := totalBalance_of_posts (posts_of_charged htotal hvalid hran)
  simp only [List.map_cons, List.map_nil, List.sum_cons, List.sum_nil] at hsum
  omega

theorem transferred_of_success (hvalid : Valid s tx sender ctx)
    (hran : Ran K C (charge s tx sender) tx sender ctx s₂ r) (hsuccess : r.success = true) :
    transferred K C s tx sender ctx = tx.value.toNat := by
  rw [transferred_of_valid hvalid, movedValue_of_success hran hsuccess]

/-! ## Within the gas -/

theorem gasBack_add_gasFee (h : r.gasUsed.toNat ≤ tx.gasLimit.toNat) :
    gasBack tx ctx r.gasUsed + gasFee tx ctx r.gasUsed
      = tx.gasLimit.toNat * (tx.effectiveGasPrice ctx.blockBasefee).toNat := by
  rw [gasBack, gasFee, ← Nat.add_mul, Nat.sub_add_cancel h]

/-- Within its gas a transaction conserves value where the gas limit costs the same at
both prices. -/
theorem conserves_iff_of_within (htotal : s.totalBalance < 2 ^ 256)
    (hvalid : Valid s tx sender ctx) (hran : Ran K C (charge s tx sender) tx sender ctx s₂ r)
    (hgas : r.gasUsed.toNat ≤ tx.gasLimit.toNat) :
    Conserves K C s tx sender ctx (settle s₂ tx sender ctx r) r ↔
      tx.gasLimit.toNat * (tx.effectiveGasPrice ctx.blockBasefee).toNat = gasCharge tx := by
  have hcharged := posts_of_charged htotal hvalid hran
  have hsum := totalBalance_of_charged htotal hvalid hran
  have hshare : gasBack tx ctx r.gasUsed + gasFee tx ctx r.gasUsed = _ := gasBack_add_gasFee hgas
  have hprice : tx.gasLimit.toNat * (tx.effectiveGasPrice ctx.blockBasefee).toNat ≤ gasCharge tx :=
    Nat.mul_le_mul_left _ (effectiveGasPrice_le hvalid)
  have hfits : s₂.totalBalance + gasBack tx ctx r.gasUsed + gasFee tx ctx r.gasUsed < 2 ^ 256 := by
    omega
  have hsettle : Posts s₂.balanceNat (settle s₂ tx sender ctx r).balanceNat _ _ :=
    posts_settle hfits
  have hposts := hcharged.trans hsettle
  constructor
  · intro hconserves
    have hall := totalBalance_of_posts hposts
    have hkept := hconserves.total
    simp only [List.map_cons, List.map_nil, List.sum_cons, List.sum_nil, List.cons_append,
      List.nil_append] at hall
    omega
  · intro heven
    have hpaid : Posts s.balanceNat (settle s₂ tx sender ctx r).balanceNat
        [(sender, gasFee tx ctx r.gasUsed), (sender, transferred K C s tx sender ctx)]
        [(target C tx sender, transferred K C s tx sender ctx),
          (ctx.blockCoinbase, gasFee tx ctx r.gasUsed)] := by
      intro a
      have ha := hposts a
      simp only [posted_cons, posted_nil, List.cons_append, List.nil_append] at ha ⊢
      by_cases hsender : sender = a
      · simp only [if_pos hsender] at ha ⊢
        omega
      · simp only [if_neg hsender] at ha ⊢
        omega
    refine ⟨?_, hpaid, transferred_of_success hvalid hran⟩
    have hall := totalBalance_of_posts hpaid
    simp only [List.map_cons, List.map_nil, List.sum_cons, List.sum_nil] at hall
    omega

/-! ## Beyond the gas -/

/-- The sender is the coinbase and has all the balance an account can hold, and keeps
the value: what it is paid too much is cut off. -/
structure Clamped (C : Crypto) (s : StateDB) (tx : EvmTransaction) (sender : Address)
    (ctx : TransactionContext) : Prop where
  coinbase : sender = ctx.blockCoinbase
  balance : s.balanceNat sender = 2 ^ 256 - 1
  value : tx.value.toNat = 0 ∨ target C tx sender = sender

/-- What is paid too much is cut off at the bound. -/
theorem posts_of_clamped {fee : Nat} (hclamped : Clamped C s tx sender ctx)
    (hmore : gasCharge tx < fee)
    (hcharged : Posts s.balanceNat s₂.balanceNat [(sender, gasCharge tx), (sender, tx.value.toNat)]
      [(target C tx sender, tx.value.toNat)])
    (hsettle : ∀ a, s'.balanceNat a = if a = ctx.blockCoinbase
      then min (s₂.balanceNat a + fee) (2 ^ 256 - 1) else s₂.balanceNat a) :
    Posts s.balanceNat s'.balanceNat [(sender, fee), (sender, tx.value.toNat)]
      [(target C tx sender, tx.value.toNat), (ctx.blockCoinbase, fee)] := by
  obtain ⟨hsame, hbalance, hvalue⟩ := hclamped
  intro a
  have hat := hcharged a
  rw [hsettle, ← hsame]
  simp only [posted_cons, posted_nil] at hat ⊢
  -- the value comes back to the sender or is nothing
  have hback : (if target C tx sender = a then tx.value.toNat else 0)
      = if sender = a then tx.value.toNat else 0 := by
    rcases hvalue with hzero | hself
    · rw [hzero, ite_self, ite_self]
    · rw [hself]
  rw [hback] at hat ⊢
  by_cases hsender : sender = a
  · subst hsender
    simp only [if_pos] at hat ⊢
    rw [min_eq_right (by omega)]
    omega
  · simp only [if_neg hsender, if_neg (Ne.symm hsender)] at hat ⊢
    omega

/-- Beyond its gas a transaction conserves value where the coinbase happens to be paid
what was charged, or loses what it is paid too much. -/
theorem conserves_iff_of_overspent (htotal : s.totalBalance < 2 ^ 256)
    (hvalid : Valid s tx sender ctx) (hran : Ran K C (charge s tx sender) tx sender ctx s₂ r)
    (hsent : transferred K C s tx sender ctx = tx.value.toNat)
    (hgas : tx.gasLimit.toNat < r.gasUsed.toNat) :
    Conserves K C s tx sender ctx (settle s₂ tx sender ctx r) r ↔
      gasFee tx ctx r.gasUsed = gasCharge tx ∨
        (gasCharge tx < gasFee tx ctx r.gasUsed ∧ Clamped C s tx sender ctx) := by
  have hcharged := posts_of_charged htotal hvalid hran
  have hsum := totalBalance_of_charged htotal hvalid hran
  have hsettle := fun a => show (settle s₂ tx sender ctx r).balanceNat a = _ from
    balanceNat_settle_of_overspent hgas a
  rw [hsent] at hcharged
  constructor
  · intro hconserves
    have hpaid := hconserves.paid
    rw [hsent] at hpaid
    have hpaidAt := hpaid ctx.blockCoinbase
    have hchargedAt := hcharged ctx.blockCoinbase
    have hbalance := balanceNat_lt s ctx.blockCoinbase
    rw [hsettle, if_pos rfl] at hpaidAt
    simp only [posted_cons, posted_nil, if_pos] at hpaidAt hchargedAt
    by_cases hsame : sender = ctx.blockCoinbase
    · simp only [if_pos hsame] at hpaidAt hchargedAt
      rcases min_cases (s₂.balanceNat ctx.blockCoinbase + gasFee tx ctx r.gasUsed) (2 ^ 256 - 1)
        with ⟨hmin, -⟩ | ⟨hmin, hcut⟩
      · rw [hmin] at hpaidAt
        exact .inl (by omega)
      · rw [hmin] at hpaidAt
        by_cases hself : target C tx sender = ctx.blockCoinbase
        · simp only [if_pos hself] at hpaidAt hchargedAt
          exact .inr ⟨by omega, hsame, by rw [hsame]; omega, .inr (hself.trans hsame.symm)⟩
        · simp only [if_neg hself] at hpaidAt hchargedAt
          exact .inr ⟨by omega, hsame, by rw [hsame]; omega, .inl (by omega)⟩
    · -- the coinbase is paid in full, so the sender's side must come out even
      have hpaidSender := hpaid sender
      have hchargedSender := hcharged sender
      rw [hsettle, if_neg hsame] at hpaidSender
      simp only [posted_cons, posted_nil, if_pos, if_neg (Ne.symm hsame)] at hpaidSender
      simp only [posted_cons, posted_nil, if_pos] at hchargedSender
      exact .inl (by omega)
  · intro hcase
    have hpaid : Posts s.balanceNat (settle s₂ tx sender ctx r).balanceNat
        [(sender, gasFee tx ctx r.gasUsed), (sender, tx.value.toNat)]
        [(target C tx sender, tx.value.toNat), (ctx.blockCoinbase, gasFee tx ctx r.gasUsed)] := by
      rcases hcase with heven | ⟨hmore, hclamped⟩
      · rw [← heven] at hcharged
        refine hcharged.trans fun a => ?_
        have hle := balanceNat_le_totalBalance s₂ a
        rw [hsettle, posted_cons, posted_nil]
        by_cases hcoinbase : a = ctx.blockCoinbase
        · rw [if_pos hcoinbase, if_pos hcoinbase.symm, min_eq_left (by omega)]
          rfl
        · rw [if_neg hcoinbase, if_neg (Ne.symm hcoinbase)]
      · exact posts_of_clamped hclamped hmore hcharged hsettle
    refine ⟨?_, by rw [hsent]; exact hpaid, fun _ => hsent⟩
    have hall := totalBalance_of_posts hpaid
    simp only [List.map_cons, List.map_nil, List.sum_cons, List.sum_nil] at hall
    omega

/-! ## When value is conserved -/

/-- The code uses more than the gas it is given, and with the base so much is billed.
Making a contract checks the gas again once the init code has returned. -/
def Overspends (K : Curves) (C : Crypto) (s : StateDB) (tx : EvmTransaction) (sender : Address)
    (ctx : TransactionContext) (gas : UInt64) : Prop :=
  ∃ run s' ended, codeRun K C (charge s tx sender) tx sender ctx = some run ∧
    run.vm.execute run.state = some (s', ended) ∧
    (tx.recipient = none → ended.success = false) ∧
    gas = run.base + ended.gasUsed ∧ tx.gasLimit < gas

/-- What is charged for the gas is what is given back and paid for it. -/
def Priced (K : Curves) (C : Crypto) (s : StateDB) (tx : EvmTransaction) (sender : Address)
    (ctx : TransactionContext) : Prop :=
  ((∀ gas, ¬ Overspends K C s tx sender ctx gas) ∧
    (gasCharge tx = 0 ∨ tx.effectiveGasPrice ctx.blockBasefee = tx.maxFeePerGas)) ∨
  ∃ gas, Overspends K C s tx sender ctx gas ∧ (gasFee tx ctx gas = gasCharge tx ∨
    (gasCharge tx < gasFee tx ctx gas ∧ Clamped C s tx sender ctx))

/-- More gas is billed than there is exactly where the code overspends. -/
theorem overspends_iff (hran : Ran K C (charge s tx sender) tx sender ctx s₂ r) (gas : UInt64) :
    Overspends K C s tx sender ctx gas ↔
      tx.gasLimit.toNat < r.gasUsed.toNat ∧ gas = r.gasUsed := by
  have hwithin : ∀ {run : CodeRun} {s' : StateDB} {ended : ExecutionResult},
      codeRun K C (charge s tx sender) tx sender ctx = some run →
      run.vm.execute run.state = some (s', ended) →
      (Overspends K C s tx sender ctx gas ↔ ((tx.recipient = none → ended.success = false) ∧
        gas = run.base + ended.gasUsed ∧ tx.gasLimit < gas)) := by
    intro run s' ended hcode hrun
    constructor
    · rintro ⟨run', s'', ended', hcode', hrun', hrest⟩
      cases hcode.symm.trans hcode'
      cases hrun.symm.trans hrun'
      exact hrest
    · exact fun hrest => ⟨run, s', ended, hcode, hrun, hrest⟩
  have hnoCode : codeRun K C (charge s tx sender) tx sender ctx = none →
      ¬ Overspends K C s tx sender ctx gas := by
    rintro hnone ⟨run, _, _, hcode, _⟩
    cases hnone.symm.trans hcode
  cases hran with
  | refused hmove _ hgas =>
    have hnone : codeRun K C (charge s tx sender) tx sender ctx = none := by
      rw [codeRun, hmove]
      rfl
    rw [hgas]
    exact iff_of_false (hnoCode hnone) fun h => absurd h.1 (Nat.not_lt_zero _)
  | moved _ hcode hgas =>
    have hle := UInt64.le_iff_toNat_le.mp hgas
    exact iff_of_false (hnoCode hcode) fun h => absurd h.1 (Nat.not_lt.mpr hle)
  | ran hcode hrun hmade _ hgas =>
    rw [hwithin hcode hrun, ← hgas, UInt64.lt_iff_toNat_lt]
    constructor
    · rintro ⟨-, rfl, hmore⟩
      exact ⟨hmore, rfl⟩
    · rintro ⟨hmore, rfl⟩
      exact ⟨hmade, rfl, hmore⟩
  | unpaid hcode hrun hmade hended _ hgas =>
    rw [hwithin hcode hrun, hgas]
    refine iff_of_false (fun h => ?_) fun h => absurd h.1 (Nat.not_lt_zero _)
    rw [h.1 hmade] at hended
    cases hended
  | created hcode hrun hmade hended _ hgas =>
    rw [hwithin hcode hrun]
    have hle := UInt64.le_iff_toNat_le.mp hgas
    refine iff_of_false (fun h => ?_) fun h => absurd h.1 (Nat.not_lt.mpr hle)
    rw [h.1 hmade] at hended
    cases hended

/-- Code that overspends has got the value. -/
theorem transferred_of_overspent (hvalid : Valid s tx sender ctx)
    (hran : Ran K C (charge s tx sender) tx sender ctx s₂ r)
    (hgas : tx.gasLimit.toNat < r.gasUsed.toNat) :
    transferred K C s tx sender ctx = tx.value.toNat := by
  obtain ⟨run, s', ended, hcode, -⟩ := (overspends_iff hran r.gasUsed).mpr ⟨hgas, rfl⟩
  rw [transferred_of_valid hvalid, movedValue_of_some (started_of_codeRun hcode).moved]

theorem conserves_of_invalid (hvalid : ¬ Valid s tx sender ctx) (hfail : r.success = false)
    (hgas : r.gasUsed = 0) : Conserves K C s tx sender ctx s r := by
  have hfee : gasFee tx ctx r.gasUsed = 0 := by
    rw [gasFee, hgas]
    exact Nat.zero_mul _
  refine ⟨rfl, fun a => ?_, fun hsuccess => by rw [hsuccess] at hfail; cases hfail⟩
  simp [hfee, transferred_of_invalid hvalid]

/-- A transaction conserves value exactly where it is not valid, or what it is charged
for the gas is what is given back and paid. -/
theorem conserves_iff (K : Curves) (C : Crypto) (s : StateDB) (tx : EvmTransaction)
    (sender : Address) (ctx : TransactionContext) (s' : StateDB) (r : ExecutionResult)
    (htotal : s.totalBalance < 2 ^ 256)
    (h : executeTransaction K C s tx sender ctx = some (s', r)) :
    Conserves K C s tx sender ctx s' r ↔
      (Valid s tx sender ctx → Priced K C s tx sender ctx) := by
  rcases executeTransaction_cases h with ⟨hinvalid, rfl, hfail, hgas⟩ | ⟨hvalid, s₂, hbody, rfl⟩
  · exact iff_of_true (conserves_of_invalid hinvalid hfail hgas) fun hvalid => absurd hvalid hinvalid
  have hran := ran_executeBody hbody
  have hover := overspends_iff hran
  rw [forall_prop_of_true hvalid, Priced]
  by_cases hgas : tx.gasLimit.toNat < r.gasUsed.toNat
  · rw [conserves_iff_of_overspent htotal hvalid hran (transferred_of_overspent hvalid hran hgas) hgas]
    constructor
    · exact fun hcase => .inr ⟨r.gasUsed, (hover _).mpr ⟨hgas, rfl⟩, hcase⟩
    · rintro (⟨hnone, -⟩ | ⟨gas, hspent, hcase⟩)
      · exact absurd ((hover _).mpr ⟨hgas, rfl⟩) (hnone r.gasUsed)
      · rw [((hover gas).mp hspent).2] at hcase
        exact hcase
  · rw [conserves_iff_of_within htotal hvalid hran (Nat.not_lt.mp hgas)]
    have hnone : ∀ gas, ¬ Overspends K C s tx sender ctx gas := fun gas hspent =>
      hgas ((hover gas).mp hspent).1
    have hprice : tx.gasLimit.toNat * (tx.effectiveGasPrice ctx.blockBasefee).toNat = gasCharge tx ↔
        (gasCharge tx = 0 ∨ tx.effectiveGasPrice ctx.blockBasefee = tx.maxFeePerGas) := by
      have hle := effectiveGasPrice_le hvalid
      rw [gasCharge, mul_eq_mul_left_iff, mul_eq_zero, ← UInt64.toNat_inj]
      omega
    rw [hprice]
    constructor
    · exact fun hcase => .inl ⟨hnone, hcase⟩
    · rintro (⟨-, hcase⟩ | ⟨gas, hspent, -⟩)
      · exact hcase
      · exact absurd hspent (hnone gas)

end

/-- A transfer as in the tests, for so much a unit of gas at most. -/
def plainTransfer (maxFee : UInt64) : EvmTransaction :=
  ⟨2, 7777, 0, 1000000000, maxFee, 21000, some (Vector.replicate 20 2), U256.fromU64 1000000000,
    [], [], 0, Vector.replicate 32 0, Vector.replicate 32 0⟩

/-- A call with gas for less than the last of three opcodes. -/
def shortCall : EvmTransaction :=
  { plainTransfer 2000000000 with gasLimit := 21007, recipient := some (Vector.replicate 20 3) }

/-- A funded sender, and a contract that writes a slot: PUSH1 1 PUSH1 1 SSTORE. -/
def funded : StateDB :=
  (StateDB.new.addBalance (Vector.replicate 20 1) (U256.fromU64 1000000000000000000)).setCode
    (Crypto.ofTable []) (Vector.replicate 20 3) [0x60, 1, 0x60, 1, 0x55]

/-- The transfer of the tests pays all it was charged for. -/
theorem conserves_plainTransfer :
    let C := Crypto.ofTable []
    let sender := Vector.replicate 20 1
    ∃ s' r, executeTransaction .none C funded (plainTransfer 2000000000) sender .default
        = some (s', r) ∧ r.success = true ∧
      Conserves .none C funded (plainTransfer 2000000000) sender .default s' r := by
  intro C sender
  have hsuccess : (executeTransaction .none C funded (plainTransfer 2000000000) sender
      .default).map (·.2.success) = some true := by decide +kernel
  obtain ⟨⟨s', r⟩, hrun, hr⟩ := Option.map_eq_some_iff.mp hsuccess
  refine ⟨s', r, hrun, hr, ?_⟩
  refine (conserves_iff .none C funded _ sender .default s' r (by decide +kernel) hrun).mpr fun _ => ?_
  refine .inl ⟨?_, .inr (by decide +kernel)⟩
  rintro gas ⟨run, _, _, hcode, _⟩
  have hnone : (codeRun .none C (charge funded (plainTransfer 2000000000) sender)
      (plainTransfer 2000000000) sender .default).isNone = true := by decide +kernel
  rw [hcode] at hnone
  cases hnone

/-- A transfer that would pay more for its gas than it has to loses the difference, and a
call that is short of gas pays the coinbase with what nobody had. -/
theorem value_lost_and_made :
    let C := Crypto.ofTable []
    let sender := Vector.replicate 20 1
    (∃ s' r, executeTransaction .none C funded (plainTransfer 3000000000) sender .default
        = some (s', r) ∧ s'.totalBalance + 21000 * 1000000000 = funded.totalBalance ∧
      ¬ Conserves .none C funded (plainTransfer 3000000000) sender .default s' r) ∧
    (∃ s' r, executeTransaction .none C funded shortCall sender .default = some (s', r) ∧
      s'.totalBalance = funded.totalBalance + 4999 * 2000000000 ∧
      ¬ Conserves .none C funded shortCall sender .default s' r) := by
  intro C sender
  have hlost : (executeTransaction .none C funded (plainTransfer 3000000000) sender
      .default).map (·.1.totalBalance) = some (funded.totalBalance - 21000 * 1000000000) := by
    decide +kernel
  have hmade : (executeTransaction .none C funded shortCall sender
      .default).map (·.1.totalBalance) = some (funded.totalBalance + 4999 * 2000000000) := by
    decide +kernel
  have hfunded : funded.totalBalance = 1000000000000000000 := by decide +kernel
  obtain ⟨⟨s₁, r₁⟩, hrun₁, htotal₁⟩ := Option.map_eq_some_iff.mp hlost
  obtain ⟨⟨s₂, r₂⟩, hrun₂, htotal₂⟩ := Option.map_eq_some_iff.mp hmade
  refine ⟨⟨s₁, r₁, hrun₁, ?_, fun h => ?_⟩, ⟨s₂, r₂, hrun₂, htotal₂, fun h => ?_⟩⟩
  · dsimp only at htotal₁
    omega
  · have hkept := h.total
    dsimp only at htotal₁
    omega
  · have hkept := h.total
    dsimp only at htotal₂
    omega

end EvmExecutor

end Pyrax.Evm
