import Pyrax.Services.ActiveSet

/-!
# What a validator has paid in

A validator of the staking service registers with a stake and deposits more; slashing takes
some of it off, and an unbonding is withdrawn after its time. Slashing goes by the effective
stake, what is not being unbonded, and an unbonding by the effective stake as it is when it
starts: so what is on its way out stays covered by the stake, whatever comes in between
(`Account.Move.balanced`).

`ledger_balances`: in every state of every run, what a validator paid in is what it has, what
was slashed and what it has withdrawn. Nothing is assumed of the clock.
-/

namespace Pyrax.StakingService

open Base Word

/-! ## Accounts -/

/-- What an account holds, what was taken off it, and how much is on its way out. -/
structure Account where
  stake : Nat
  slashed : Nat
  leaving : Nat

namespace Account

/-- What can happen to an account, with what comes in and what goes out. Both what leaves
and what is slashed is bounded by what is not leaving yet. -/
inductive Move : Option Account → Option Account → Nat → Nat → Prop where
  | rest (a : Option Account) : Move a a 0 0
  | opened (n : Nat) : Move none (some ⟨n, 0, 0⟩) n 0
  | deposited (a : Account) (n : Nat) : Move (some a) (some { a with stake := a.stake + n }) n 0
  | leaves (a : Account) (n : Nat) (h : n ≤ a.stake - a.leaving) :
      Move (some a) (some { a with leaving := n }) 0 0
  | left (a : Account) :
      Move (some a) (some { a with stake := a.stake - a.leaving, leaving := 0 }) 0 a.leaving
  | slashed (a : Account) (n : Nat) (h : n ≤ a.stake - a.leaving) :
      Move (some a) (some { a with stake := a.stake - n, slashed := a.slashed + n }) 0 0

/-- What came in is still there, slashed or gone out, and what is leaving is still there. -/
def Balanced : Option Account → Nat → Nat → Prop
  | none, paidIn, paidOut => paidIn = 0 ∧ paidOut = 0
  | some a, paidIn, paidOut => paidIn = a.stake + a.slashed + paidOut ∧ a.leaving ≤ a.stake

variable {a a' : Option Account} {paidIn paidOut i o : Nat}

theorem Move.balanced (hmove : Move a a' i o) (h : Balanced a paidIn paidOut) :
    Balanced a' (paidIn + i) (paidOut + o) := by
  cases hmove with
  | rest => exact h
  | opened n =>
    obtain ⟨rfl, rfl⟩ := h
    exact ⟨Nat.zero_add i, Nat.zero_le _⟩
  | deposited a =>
    obtain ⟨hledger, hcovered⟩ := h
    constructor
    · show paidIn + i = a.stake + i + a.slashed + (paidOut + 0)
      omega
    · exact hcovered.trans (Nat.le_add_right _ _)
  | leaves a n hle =>
    obtain ⟨hledger, hcovered⟩ := h
    exact ⟨hledger, hle.trans (Nat.sub_le _ _)⟩
  | left a =>
    obtain ⟨hledger, hcovered⟩ := h
    constructor
    · show paidIn + 0 = a.stake - a.leaving + a.slashed + (paidOut + a.leaving)
      omega
    · exact Nat.zero_le _
  | slashed a n hle =>
    obtain ⟨hledger, hcovered⟩ := h
    constructor
    · show paidIn + 0 = a.stake - n + (a.slashed + n) + (paidOut + 0)
      omega
    · show a.leaving ≤ a.stake - n
      omega

end Account

/-! ## A validator's account -/

def Validator.account (v : Validator) : Account :=
  ⟨v.stake.toNat, v.totalSlashed.toNat, v.unbondingAmount.toNat⟩

def account (s : StakingService) (a : Address) : Option Account :=
  (s.validators.lookup a).map Validator.account

variable {s s' : StakingService} {a b : Address} {v v' : Validator} {order : ValidatorOrder}
  {now amount : UInt64}

theorem toNat_effectiveStake (v : Validator) :
    v.effectiveStake.toNat = v.account.stake - v.account.leaving := toNat_saturatingSub _ _

/-- What is slashed is effective stake, also where the product wraps: that makes it less. -/
theorem slash_le (v : Validator) : (v.slash SLASH_PERCENT).2.toNat ≤ v.effectiveStake.toNat := by
  show (v.effectiveStake * SLASH_PERCENT / 100).toNat ≤ _
  have hpercent : SLASH_PERCENT.toNat = 10 := rfl
  have hhundred : (100 : UInt64).toNat = 100 := rfl
  rw [UInt64.toNat_div, UInt64.toNat_mul, hpercent, hhundred]
  have hwrap := Nat.mod_le (v.effectiveStake.toNat * 10) (2 ^ 64)
  omega

-- the fields are named first, or `rfl` compares the two validators field by field
theorem account_credit (v : Validator) (now : UInt64) : (v.credit now).account = v.account := by
  obtain ⟨_, _, _, _, totalSlashed, _, _, _, _, _, _, _⟩ := v
  show (⟨_, (Validator.credit _ now).totalSlashed.toNat, _⟩ : Account) = _
  rw [Validator.credit_stake, Validator.credit_unbondingAmount]
  rfl

theorem account_insert (s : StakingService) (b : Address) (v : Validator) (a : Address) :
    ({ s with validators := s.validators.insert b v } : StakingService).account a
      = if a = b then some v.account else s.account a := by
  show Option.map _ ((s.validators.insert b v).lookup a) = _
  split
  · next h =>
    rw [h, Finmap.lookup_insert]
    rfl
  · next h =>
    rw [Finmap.lookup_insert_of_ne _ h]
    rfl

theorem account_updateActiveSet (s : StakingService) (order : ValidatorOrder) (a : Address) :
    (s.updateActiveSet order).account a = s.account a := by
  show Option.map _ ((s.validators.mapValues _).lookup a) = _
  rw [Column.lookup_mapValues, Option.map_map]
  rfl

theorem account_of_lookup (h : s.validators.lookup a = some v) :
    s.account a = some v.account := by
  rw [account, h]
  rfl

namespace StakingOp

/-- What a call pays in for `a`: the stake of an accepted registration, a deposit. -/
def paidIn (a : Address) (s : StakingService) : StakingOp → Nat
  | register now order address stake =>
    match s.registerValidator now order address stake with
    | some (.ok _) => if address = a then stake.toNat else 0
    | some (.error _) | none => 0
  | deposit order address amount =>
    match s.depositStake order address amount with
    | .ok _ => if address = a then amount.toNat else 0
    | .error _ => 0
  | startUnbonding .. | completeUnbonding .. | submit .. | attest .. | rotate .. => 0

/-- What a call returns to `a`. -/
def paidOut (a : Address) (s : StakingService) : StakingOp → Nat
  | completeUnbonding now address =>
    match s.completeUnbonding now address with
    | .ok (_, amount) => if address = a then amount.toNat else 0
    | .error _ => 0
  | register .. | deposit .. | startUnbonding .. | submit .. | attest .. | rotate .. => 0

/-- A sum over the calls of a run, each in the state it finds. -/
def along (C : Crypto) (f : StakingService → StakingOp → Nat) (s : StakingService) :
    List StakingOp → Nat
  | [] => 0
  | op :: ops => f s op + along C f (apply C s op) ops

end StakingOp

open Account

/-- A validator is written back. -/
theorem move_insert {o : Option Account} {i out : Nat} (hv : s.account b = o)
    (hmove : Move o (some v'.account) i out) (a : Address) :
    Move (s.account a)
      (({ s with validators := s.validators.insert b v' } : StakingService).account a)
      (if b = a then i else 0) (if b = a then out else 0) := by
  rw [account_insert]
  by_cases h : a = b
  · rw [if_pos h, if_pos h.symm, if_pos h.symm, h, hv]
    exact hmove
  · rw [if_neg h, if_neg (Ne.symm h), if_neg (Ne.symm h)]
    exact .rest _

theorem move_startUnbonding (h : v.startUnbonding now amount = .ok v') :
    Move (some v.account) (some v'.account) 0 0 := by
  unfold Validator.startUnbonding at h
  split at h
  · cases h
  next hle =>
  split at h
  · cases h
  cases h
  have hamount : amount.toNat ≤ v.account.stake - v.account.leaving := by
    rw [← toNat_effectiveStake]
    exact UInt64.le_iff_toNat_le.mp (UInt64.not_lt.mp hle)
  exact .leaves v.account amount.toNat hamount

theorem move_completeUnbonding (h : v.completeUnbonding now = .ok (v', amount)) :
    amount = v.unbondingAmount ∧ Move (some v.account) (some v'.account) 0 amount.toNat := by
  unfold Validator.completeUnbonding at h
  split at h
  · cases h
  simp only at h
  split at h
  · cases h
  cases h
  have hleft := Move.left v.account
  rw [← toNat_effectiveStake] at hleft
  exact ⟨rfl, hleft⟩

/-- Nothing wraps where what is there and what was slashed fit. -/
theorem move_slash (h : v.account.stake + v.account.slashed < 2 ^ 64) (invalidProofs : UInt64) :
    Move (some v.account)
      (some { (v.slash SLASH_PERCENT).1 with invalidProofs := invalidProofs }.account) 0 0 := by
  have hle := slash_le v
  have heffective := toNat_effectiveStake v
  have hslashed : (v.totalSlashed + (v.slash SLASH_PERCENT).2).toNat
      = v.account.slashed + (v.slash SLASH_PERCENT).2.toNat := by
    refine toNat_add_of_lt ?_
    show v.account.slashed + _ < _
    omega
  have hmove := Move.slashed v.account (v.slash SLASH_PERCENT).2.toNat (by omega)
  rw [← hslashed] at hmove
  have hstake : (saturatingSub v.stake (v.slash SLASH_PERCENT).2).toNat
      = v.account.stake - (v.slash SLASH_PERCENT).2.toNat := toNat_saturatingSub _ _
  rw [← hstake] at hmove
  exact hmove

namespace StakingOp

variable {paidIn paidOut : Nat}

/-- **One call** moves every account, by what it pays in and out. -/
theorem move_apply (C : Crypto) (op : StakingOp) (h : Balanced (s.account a) paidIn paidOut)
    (hfits : paidIn + op.paidIn a s < 2 ^ 64) :
    Move (s.account a) ((op.apply C s).account a) (op.paidIn a s) (op.paidOut a s) := by
  cases op with
  | register now order address stake =>
    match hok : s.registerValidator now order address stake with
    | none =>
      simp only [apply, StakingOp.paidIn, hok]
      exact .rest _
    | some (.error e) =>
      simp only [apply, StakingOp.paidIn, hok]
      exact .rest _
    | some (.ok s') =>
      simp only [apply, StakingOp.paidIn, hok]
      unfold registerValidator at hok
      split at hok
      · cases hok
      split at hok
      · cases hok
      next hnew =>
      split at hok
      · cases hok
      cases hok
      have hnone : s.account address = none := by
        rw [account, Finmap.lookup_eq_none.mpr hnew]
        rfl
      have hopened : Move none (some (Validator.new now address stake).account) stake.toNat 0 :=
        .opened _
      rw [account_updateActiveSet]
      simpa only [ite_self, StakingOp.paidIn, StakingOp.paidOut] using move_insert hnone hopened a
  | deposit order address amount =>
    cases hok : s.depositStake order address amount with
    | error e =>
      simp only [apply, StakingOp.paidIn, hok]
      exact .rest _
    | ok result =>
      simp only [apply, StakingOp.paidIn, hok] at hfits ⊢
      unfold depositStake at hok
      split at hok
      · cases hok
      next v hv =>
      cases hok
      rw [account_updateActiveSet]
      by_cases haddress : address = a
      · -- the sum of all that was paid in fits, so the stake does not wrap
        rw [if_pos haddress] at hfits
        rw [← haddress, account_of_lookup hv] at h
        have hsum : (v.stake + amount).toNat = v.account.stake + amount.toNat := by
          refine toNat_add_of_lt ?_
          show v.account.stake + _ < _
          have hledger := h.1
          omega
        have hdeposited : Move (some v.account)
            (some ({ v with stake := v.stake + amount } : Validator).account) amount.toNat 0 := by
          have hmove := Move.deposited v.account amount.toNat
          rw [← hsum] at hmove
          exact hmove
        simpa only [ite_self, StakingOp.paidIn, StakingOp.paidOut] using
          move_insert (account_of_lookup hv) hdeposited a
      · rw [if_neg haddress, account_insert, if_neg (Ne.symm haddress)]
        exact .rest _
  | startUnbonding now order address amount =>
    rw [apply]
    split
    · next s' hok =>
      unfold StakingService.startUnbonding at hok
      split at hok
      · cases hok
      next v hv =>
      split at hok
      · cases hok
      next v' hstart =>
      cases hok
      rw [account_updateActiveSet]
      simpa only [ite_self, StakingOp.paidIn, StakingOp.paidOut] using
        move_insert (account_of_lookup hv) (move_startUnbonding hstart) a
    · exact .rest _
  | completeUnbonding now address =>
    cases hok : s.completeUnbonding now address with
    | error e =>
      simp only [apply, StakingOp.paidOut, hok]
      exact .rest _
    | ok result =>
      simp only [apply, StakingOp.paidOut, hok]
      unfold StakingService.completeUnbonding at hok
      split at hok
      · cases hok
      next v hv =>
      split at hok
      · cases hok
      next v' amount hcomplete =>
      cases hok
      simpa only [ite_self, StakingOp.paidIn, StakingOp.paidOut] using
        move_insert (account_of_lookup hv) (move_completeUnbonding hcomplete).2 a
  | submit now order validator data verdict =>
    rw [apply, submitCheckpoint]
    split
    · exact .rest _
    next v hv =>
    split
    · exact .rest _
    split
    · exact .rest _
    · rw [slashValidator, hv]
      show Move _ (account (updateActiveSet _ order) a) 0 0
      rw [account_updateActiveSet]
      by_cases haddress : validator = a
      · rw [← haddress, account_of_lookup hv] at h
        have hslash := move_slash (v := v) (by
          have hledger := h.1
          omega) (v.invalidProofs + 1)
        simpa only [ite_self, StakingOp.paidIn, StakingOp.paidOut] using
          move_insert (account_of_lookup hv) hslash a
      · rw [account_insert, if_neg (Ne.symm haddress)]
        exact .rest _
    · have hcredit : Move (some v.account) (some (v.credit now).account) 0 0 := by
        rw [account_credit]
        exact .rest _
      show Move _ (account { s with validators := s.validators.insert validator _ } a) 0 0
      simpa only [ite_self, StakingOp.paidIn, StakingOp.paidOut] using
        move_insert (account_of_lookup hv) hcredit a
  | attest now validator checkpointId =>
    have hsame : ((attest now validator checkpointId).apply C s).account a = s.account a := by
      rw [apply]
      split
      · next s' hok =>
        obtain ⟨_, _, _, _, _, _, _, hvals, _⟩ := attest_ok hok
        rw [account, account, hvals]
      · rfl
    rw [hsame]
    exact .rest _
  | rotate now =>
    have hsame : ((rotate now).apply C s).account a = s.account a := by
      show Option.map _ ((s.validators.mapValues _).lookup a) = _
      rw [Column.lookup_mapValues, Option.map_map]
      refine congrArg (fun f => Option.map f (s.validators.lookup a)) (funext fun v => ?_)
      show (if v.idle now then { v with isActive := false } else v).account = v.account
      split
      · rfl
      · rfl
    rw [hsame]
    exact .rest _

theorem balanced_run (C : Crypto) (ops : List StakingOp) :
    ∀ (s : StakingService) (paidIn paidOut : Nat), Balanced (s.account a) paidIn paidOut →
      paidIn + along C (StakingOp.paidIn a) s ops < 2 ^ 64 →
      Balanced ((run C s ops).account a) (paidIn + along C (StakingOp.paidIn a) s ops)
        (paidOut + along C (StakingOp.paidOut a) s ops) := by
  induction ops with
  | nil => exact fun _ _ _ h _ => h
  | cons op ops ih =>
    intro s paidIn paidOut h hfits
    simp only [along] at hfits ⊢
    have hmove := move_apply C op h (by omega)
    rw [← Nat.add_assoc, ← Nat.add_assoc]
    exact ih _ _ _ (hmove.balanced h) (by omega)

/-- What the books say of a validator. -/
structure InBalance (v : Validator) (paidIn paidOut : Nat) : Prop where
  ledger : paidIn = v.stake.toNat + v.totalSlashed.toNat + paidOut
  covered : v.unbondingAmount ≤ v.stake
  effective : v.effectiveStake.toNat + v.unbondingAmount.toNat = v.stake.toNat
  withdrawal : ∀ now v' amount, v.completeUnbonding now = .ok (v', amount) → amount ≤ v.stake

theorem inBalance_of_balanced (h : Balanced (some v.account) paidIn paidOut) :
    InBalance v paidIn paidOut where
  ledger := h.1
  covered := UInt64.le_iff_toNat_le.mpr h.2
  effective := by
    rw [toNat_effectiveStake]
    exact Nat.sub_add_cancel h.2
  withdrawal now v' amount hok := by
    rw [(move_completeUnbonding hok).1]
    exact UInt64.le_iff_toNat_le.mpr h.2

/-- **The ledger of a validator.** In every state a run reaches, with all that the run pays
in for a validator below `2 ^ 64`: that is its stake, what was slashed and what it was
returned, and what is being unbonded is covered by the stake. -/
theorem ledger_balances (C : Crypto) (config : StakingConfig) (ops : List StakingOp)
    (a : Address) (hfits : along C (StakingOp.paidIn a) (.new config) ops < 2 ^ 64) (v : Validator)
    (hv : (run C (.new config) ops).validators.lookup a = some v) :
    InBalance v (along C (StakingOp.paidIn a) (.new config) ops)
      (along C (StakingOp.paidOut a) (.new config) ops) := by
  have h := balanced_run (a := a) C ops (.new config) 0 0 ⟨rfl, rfl⟩ (by rwa [Nat.zero_add])
  rw [account_of_lookup hv, Nat.zero_add, Nat.zero_add] at h
  exact inBalance_of_balanced h

/-- Registered with three times the minimum, slashed while a third is being unbonded, and that
third withdrawn. -/
noncomputable def slashedWhileUnbonding : List StakingOp :=
  [.register 1000 (.ofList [firstAddress]) firstAddress (3 * MIN_VALIDATOR_STAKE),
    .startUnbonding 2000 (.ofList [firstAddress]) firstAddress MIN_VALIDATOR_STAKE,
    .submit 3000 (.ofList [firstAddress]) firstAddress ⟨0, 0, H256.zero, H256.zero⟩ .invalid,
    .completeUnbonding 1000000 firstAddress]

theorem ledger_balances_slashed :
    ∃ v, (run (Crypto.ofTable []) (.new .default) slashedWhileUnbonding).validators.lookup
        firstAddress = some v ∧
      InBalance v 3000000000000 1000000000000 ∧ v.totalSlashed = 200000000000 := by
  have hpaid : along (Crypto.ofTable []) (StakingOp.paidIn firstAddress) (.new .default)
      slashedWhileUnbonding = 3000000000000 := by decide +kernel
  have hreturned : along (Crypto.ofTable []) (StakingOp.paidOut firstAddress) (.new .default)
      slashedWhileUnbonding = 1000000000000 := by decide +kernel
  have hslashed : ((run (Crypto.ofTable []) (.new .default) slashedWhileUnbonding).validators.lookup
      firstAddress).map (fun v => v.totalSlashed) = some 200000000000 := by decide +kernel
  obtain ⟨v, hv, hv'⟩ := Option.map_eq_some_iff.mp hslashed
  have h := ledger_balances (Crypto.ofTable []) .default slashedWhileUnbonding firstAddress
    (by omega) v hv
  rw [hpaid, hreturned] at h
  exact ⟨v, hv, h, hv'⟩

end StakingOp

end Pyrax.StakingService
