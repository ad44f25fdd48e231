import Pyrax.Base.Run
import Pyrax.Staking.Registry

/-!
# Validator totals and stake records

Each validator keeps two running totals, its own stake and what is delegated to
it, and the stake records keep the same amounts one by one. They should agree, so
that the voting power is exactly what is recorded behind the validator
(`Agrees`).

`delegate` of `staking/registry.rs` counts every deposit as a delegation, also a
validator's own, while `begin_unstake` takes a validator's own amount off its
self-stake. `agrees_iff`: the totals agree throughout a run exactly when no
validator delegates to itself. Every call writes one record (`Moves`), so what it
does to all sums follows from what it does to that one amount.
-/

namespace Pyrax.Staking

open Base Word

namespace StakingRegistry

variable {r r' : StakingRegistry} {s v staker validator : Address} {val val' : Validator}
  {now amount : UInt64} {bound : Nat}

/-- What one staker has with `v`. -/
def recorded (v : Address) (stakes : Column Address Stake) : Nat :=
  Column.valueAt (fun stake => stake.amount.toNat) stakes v

/-- All that is recorded behind a validator. -/
def behind (r : StakingRegistry) (v : Address) : Nat := Column.total (recorded v) r.stakes

/-- What others have with it. -/
def fromOthers (r : StakingRegistry) (v : Address) : Nat :=
  Column.total (recorded v) (r.stakes.erase v)

/-- Both totals of every validator are those of the records. -/
def Agrees (r : StakingRegistry) : Prop :=
  ∀ v val, r.validators.lookup v = some val →
    val.selfStake.toNat = r.amountAt v v ∧ val.delegatedStake.toNat = r.fromOthers v ∧
      val.votingPower.toNat = r.behind v

/-! ## Sums over the records -/

theorem valueAt_recorded (r : StakingRegistry) (s v : Address) :
    Column.valueAt (recorded v) r.stakes s = r.amountAt s v := by
  unfold Column.valueAt amountAt getStake
  cases r.stakes.lookup s with
  | none => rfl
  | some stakes => rfl

theorem behind_eq (r : StakingRegistry) (v : Address) :
    r.fromOthers v + r.amountAt v v = r.behind v := by
  rw [← valueAt_recorded]
  exact Column.total_erase _ _ _

theorem amountAt_le_behind (r : StakingRegistry) (s v : Address) :
    r.amountAt s v ≤ r.behind v := by
  have h := Column.total_erase (recorded v) r.stakes s
  rw [valueAt_recorded] at h
  show _ ≤ Column.total (recorded v) r.stakes
  omega

/-- A write moves the sum by what it moves the one amount. -/
theorem Moves.behind (h : Moves r r' staker validator) (v : Address) :
    r'.behind v + r.amountAt staker v = r.behind v + r'.amountAt staker v := by
  obtain ⟨stakes, hstakes⟩ := h.table
  have hnew : r'.amountAt staker v = recorded v stakes := by
    rw [← valueAt_recorded, hstakes, Column.valueAt, Finmap.lookup_insert]
    rfl
  rw [hnew, ← valueAt_recorded, StakingRegistry.behind, hstakes]
  exact Column.total_insert _ _ _ _

/-- And a validator's own record is not among the others'. -/
theorem Moves.fromOthers (h : Moves r r' staker validator) :
    r'.fromOthers validator + (if staker = validator then 0 else r.amountAt staker validator)
      = r.fromOthers validator
        + (if staker = validator then 0 else r'.amountAt staker validator) := by
  have hbehind := h.behind validator
  have hnew := behind_eq r' validator
  have hold := behind_eq r validator
  split
  · next heq =>
    rw [heq] at hbehind
    omega
  · next hne =>
    have hown := h.amountAt fun he : validator = staker ∧ validator = validator => hne he.1.symm
    omega

/-- Of another validator nothing moves. -/
theorem Moves.other (h : Moves r r' staker validator) (hv : v ≠ validator) :
    r'.amountAt v v = r.amountAt v v ∧ r'.fromOthers v = r.fromOthers v ∧
      r'.behind v = r.behind v := by
  have hsame : ∀ s, r'.amountAt s v = r.amountAt s v := fun s => h.amountAt fun he => hv he.2
  have hbehind := h.behind v
  have hnew := behind_eq r' v
  have hold := behind_eq r v
  rw [hsame] at hbehind hnew
  refine ⟨hsame v, ?_, ?_⟩
  · omega
  · omega

/-! ## Amounts that stay -/

/-- Records may change their state or, when empty, go; the amounts stay. -/
structure Steady (r r' : StakingRegistry) : Prop where
  validators : r'.validators = r.validators
  amounts : ∀ s v, r'.amountAt s v = r.amountAt s v
  behind : ∀ v, r'.behind v = r.behind v

theorem Steady.refl (r : StakingRegistry) : Steady r r :=
  ⟨rfl, fun _ _ => rfl, fun _ => rfl⟩

theorem Steady.trans {r₁ r₂ r₃ : StakingRegistry} (h : Steady r₁ r₂) (h' : Steady r₂ r₃) :
    Steady r₁ r₃ where
  validators := h'.validators.trans h.validators
  amounts s v := (h'.amounts s v).trans (h.amounts s v)
  behind v := (h'.behind v).trans (h.behind v)

theorem Steady.fromOthers (h : Steady r r') (v : Address) : r'.fromOthers v = r.fromOthers v := by
  have hnew := behind_eq r' v
  have hold := behind_eq r v
  rw [h.amounts, h.behind] at hnew
  omega

theorem steady_complete (h : r.completeUnbonding now staker validator = .ok (r', amount)) :
    Steady r r' := by
  obtain ⟨hm, hvals, _⟩ := complete_moves h
  refine ⟨hvals, amountAt_complete h, fun v => ?_⟩
  have hbehind := hm.behind v
  rw [amountAt_complete h] at hbehind
  omega

theorem steady_completeEntries (now : UInt64) (entries : List (Address × Address))
    (acc : StakingRegistry × List (Address × Address × UInt64)) :
    Steady acc.1 (entries.foldl (completeEntry now) acc).1 :=
  completeEntries_related Steady.refl (fun _ _ _ h h' => h.trans h')
    (fun _ _ _ _ _ hok => steady_complete hok) entries acc

theorem steady_process (r : StakingRegistry) (now : UInt64) (order : List UInt64) :
    Steady r (r.processUnbondingQueue now order).1 := by
  have h := steady_completeEntries now (r.dueEntries now order) (r, [])
  exact ⟨h.validators, h.amounts, h.behind⟩

/-- No more lies behind a validator than was ever deposited. -/
def Bounded (r : StakingRegistry) (bound : Nat) : Prop := ∀ v, r.behind v ≤ bound

/-- A write to one record, by which no more lies behind its validator. -/
theorem Bounded.moves {bound' : Nat} (h : r.Bounded bound) (hm : Moves r r' staker validator)
    (hle : r'.behind validator ≤ bound') (hbound : bound ≤ bound') : r'.Bounded bound' := by
  intro v
  by_cases hv : v = validator
  · rw [hv]
    exact hle
  · rw [(hm.other hv).2.2]
    exact (h v).trans hbound

theorem Bounded.steady (h : r.Bounded bound) (hs : Steady r r') : r'.Bounded bound := by
  intro v
  rw [hs.behind]
  exact h v

/-- Without the voting power, which follows as long as the sum fits. -/
def TotalsMatch (r : StakingRegistry) : Prop :=
  ∀ v val, r.validators.lookup v = some val →
    val.selfStake.toNat = r.amountAt v v ∧ val.delegatedStake.toNat = r.fromOthers v

theorem agrees_iff_totalsMatch (h : r.Bounded bound) (hbound : bound < 2 ^ 64) :
    r.Agrees ↔ r.TotalsMatch := by
  constructor
  · intro hagrees v val hval
    obtain ⟨hself, hothers, _⟩ := hagrees v val hval
    exact ⟨hself, hothers⟩
  · intro hmatch v val hval
    obtain ⟨hself, hothers⟩ := hmatch v val hval
    refine ⟨hself, hothers, ?_⟩
    have hsum := behind_eq r v
    have hle := h v
    rw [Validator.votingPower, Validator.totalStake, toNat_saturatingAdd_of_lt (by omega)]
    omega

theorem TotalsMatch.steady (h : r.TotalsMatch) (hs : Steady r r') : r'.TotalsMatch := by
  intro v val hval
  rw [hs.validators] at hval
  rw [hs.amounts, hs.fromOthers]
  exact h v val hval

/-- A write to one record, with the validator's totals moved to match. -/
theorem TotalsMatch.moves (h : r.TotalsMatch) (hm : Moves r r' staker validator)
    (hvals : r'.validators = r.validators.insert validator val')
    (hself : val'.selfStake.toNat = r'.amountAt validator validator)
    (hothers : val'.delegatedStake.toNat = r'.fromOthers validator) : r'.TotalsMatch := by
  intro v val hval
  rw [hvals] at hval
  by_cases hv : v = validator
  · rw [hv, Finmap.lookup_insert] at hval
    cases hval
    rw [hv]
    exact ⟨hself, hothers⟩
  · rw [Finmap.lookup_insert_of_ne _ hv] at hval
    obtain ⟨hown, hrest, _⟩ := hm.other hv
    rw [hown, hrest]
    exact h v val hval

theorem behind_of_notMem (h : Known r) (hv : v ∉ r.validators) : r.behind v = 0 := by
  refine Column.total_eq_zero fun s stakes hstakes => ?_
  have hzero := h.amountAt_of_notMem hv s
  rw [← valueAt_recorded, Column.valueAt, hstakes] at hzero
  exact hzero

/-! ## One call -/

theorem register_totals {address operator : Address} {pubkey : Vector UInt8 32}
    {commissionBps : UInt16} {description : String} (hknown : Known r) (h : r.Bounded bound)
    (hok : r.registerValidator now address operator pubkey amount commissionBps description
      = .ok r') :
    r'.Bounded (bound + amount.toNat) ∧ (r.TotalsMatch → r'.TotalsMatch) := by
  obtain ⟨hnew, _, hstakes, hvals, _, _⟩ := register_ok hok
  have hm := (moves_putStake r address address _).congr hstakes
  have hbehind := hm.behind address
  have hamount : r'.amountAt address address = amount.toNat := amountAt_put hstakes
  have hold := behind_of_notMem hknown hnew
  have hsum := behind_eq r' address
  rw [hknown.amountAt_of_notMem hnew] at hbehind
  constructor
  · exact h.moves hm (by omega) (by omega)
  · intro hmatch
    refine hmatch.moves hm hvals hamount.symm ?_
    show 0 = _
    omega

theorem activate_totals {address : Address} (h : r.Bounded bound)
    (hok : r.activateValidator address = .ok r') :
    r'.Bounded bound ∧ (r.TotalsMatch → r'.TotalsMatch) := by
  obtain ⟨val, hval, rfl⟩ := activate_ok hok
  constructor
  · exact h
  · intro hmatch v val' hval'
    by_cases hv : v = address
    · rw [hv, Finmap.lookup_insert] at hval'
      cases hval'
      rw [hv]
      exact hmatch address val hval
    · rw [Finmap.lookup_insert_of_ne _ hv] at hval'
      exact hmatch v val' hval'

theorem delegate_totals (h : r.Bounded bound) (hfits : bound + amount.toNat < 2 ^ 64)
    (hok : r.delegate now staker validator amount = .ok r') :
    r'.Bounded (bound + amount.toNat) ∧
      (r.TotalsMatch → (r'.TotalsMatch ↔ ¬ (staker = validator ∧ 0 < amount))) := by
  obtain ⟨_, _, hstakes, ⟨val, hval, hvals⟩, _, _⟩ := delegate_ok hok
  have hm := (moves_putStake r staker validator _).congr hstakes
  have hle := amountAt_le_behind r staker validator
  have hbound := h validator
  have hamount : r'.amountAt staker validator = r.amountAt staker validator + amount.toNat := by
    rw [amountAt_put hstakes]
    exact delegatedStake_amount (by omega)
  have hbehind := hm.behind validator
  have hothers := hm.fromOthers
  constructor
  · exact h.moves hm (by omega) (by omega)
  · intro hmatch
    obtain ⟨hself, hdel⟩ := hmatch validator val hval
    have hsum := behind_eq r validator
    have hadd : (val.addDelegation amount).delegatedStake.toNat
        = val.delegatedStake.toNat + amount.toNat := toNat_saturatingAdd_of_lt (by omega)
    by_cases heq : staker = validator
    · -- counted as delegated, recorded as its own
      subst heq
      rw [if_pos rfl, if_pos rfl] at hothers
      constructor
      · rintro hmatch' ⟨_, hpos⟩
        have hpos' : 0 < amount.toNat := UInt64.lt_iff_toNat_lt.mp hpos
        have hself' := (hmatch' staker (val.addDelegation amount)
          (by rw [hvals, Finmap.lookup_insert])).1
        rw [hamount, ← hself] at hself'
        have hsame : (val.addDelegation amount).selfStake.toNat = val.selfStake.toNat := rfl
        omega
      · intro hzero
        have hz : amount.toNat = 0 := by
          by_contra hne
          exact hzero ⟨rfl, UInt64.lt_iff_toNat_lt.mpr (Nat.pos_of_ne_zero hne)⟩
        refine hmatch.moves hm hvals ?_ ?_
        · rw [hamount, hz]
          exact hself
        · rw [hadd]
          omega
    · rw [if_neg heq, if_neg heq] at hothers
      refine iff_of_true (hmatch.moves hm hvals ?_ ?_) fun hboth => heq hboth.1
      · rw [hm.amountAt fun he => heq he.1.symm]
        exact hself
      · rw [hadd]
        omega

theorem begin_totals {completion : UInt64} (hknown : Known r) (h : r.Bounded bound)
    (hok : r.beginUnstake now staker validator amount = .ok (r', completion)) :
    r'.Bounded bound ∧ (r.TotalsMatch → r'.TotalsMatch) := by
  obtain ⟨stake, hstake, _, hle, _, hstakes, hvals, _, _⟩ := begin_ok hok
  have hm := (moves_putStake r staker validator _).congr hstakes
  have hold := amountAt_of_getStake hstake
  have hle' := UInt64.le_iff_toNat_le.mp hle
  have hamount : r'.amountAt staker validator = stake.amount.toNat - amount.toNat := by
    rw [amountAt_put hstakes, unstaked_amount, toNat_saturatingSub]
  obtain ⟨val, hval⟩ := Finmap.mem_iff.mp (hknown staker validator stake hstake)
  have hins := hvals val hval
  have hbehind := hm.behind validator
  have hbound := h validator
  constructor
  · exact h.moves hm (by omega) (le_refl _)
  · intro hmatch
    obtain ⟨hself, hdel⟩ := hmatch validator val hval
    have hothers := hm.fromOthers
    have hrec := amountAt_le_behind r staker validator
    have hsum := behind_eq r validator
    by_cases heq : staker = validator
    · subst heq
      rw [if_pos rfl, if_pos rfl] at hothers
      refine hmatch.moves hm hins ?_ ?_
      · rw [hamount, validatorUnstaked_selfStake, if_pos (decide_eq_true rfl), toNat_saturatingSub]
        omega
      · rw [validatorUnstaked_delegatedStake, if_pos (decide_eq_true rfl)]
        omega
    · rw [if_neg heq, if_neg heq] at hothers
      have hown := hm.amountAt fun he : validator = staker ∧ validator = validator =>
        heq he.1.symm
      refine hmatch.moves hm hins ?_ ?_
      · rw [validatorUnstaked_selfStake, if_neg (by simpa using heq), hown]
        exact hself
      · rw [validatorUnstaked_delegatedStake, if_neg (by simpa using heq), toNat_saturatingSub]
        omega

end StakingRegistry

/-! ## Runs -/

namespace RegistryOp

open StakingRegistry

variable {r : StakingRegistry} {op : RegistryOp} {ops : List RegistryOp} {bound : Nat}

/-- A validator delegates something to itself, and is let. -/
def SelfDelegates (r : StakingRegistry) : RegistryOp → Prop
  | delegate _ delegator validatorAddr amount =>
    (delegator = validatorAddr ∧ 0 < amount) ∧ r.Delegable validatorAddr amount
  | register .. | activate .. | beginUnstake .. | completeUnbonding .. | processQueue .. => False

/-- **One call**, as long as the deposits fit. -/
theorem totals_apply (hknown : Known r) (h : r.Bounded bound)
    (hfits : bound + deposits (events r op) < 2 ^ 64) :
    (apply r op).Bounded (bound + deposits (events r op)) ∧
      (r.TotalsMatch → ((apply r op).TotalsMatch ↔ ¬ op.SelfDelegates r)) := by
  cases op with
  | register now address operator pubkey initialStake commissionBps description =>
    rw [apply, events] at *
    split at *
    · next r' hok =>
      obtain ⟨hbound, hmatch⟩ := register_totals hknown h hok
      exact ⟨hbound, fun hm => iff_of_true (hmatch hm) not_false⟩
    · exact ⟨h, fun hm => iff_of_true hm not_false⟩
  | activate address =>
    rw [apply]
    split
    · next r' hok =>
      obtain ⟨hbound, hmatch⟩ := activate_totals h hok
      exact ⟨hbound, fun hm => iff_of_true (hmatch hm) not_false⟩
    · exact ⟨h, fun hm => iff_of_true hm not_false⟩
  | delegate now delegator validatorAddr amount =>
    rw [apply, events] at *
    split at *
    · next r' hok =>
      obtain ⟨hbound, hmatch⟩ := delegate_totals h hfits hok
      refine ⟨hbound, fun hm => (hmatch hm).trans ?_⟩
      exact not_congr (and_iff_left (delegate_ok hok).1).symm
    · next e herr =>
      refine ⟨h, fun hm => iff_of_true hm fun hself => ?_⟩
      obtain ⟨r', hok⟩ := delegate_of_delegable hself.2 now delegator
      rw [hok] at herr
      cases herr
  | beginUnstake now staker validatorAddr amount =>
    cases hcall : r.beginUnstake now staker validatorAddr amount with
    | ok result =>
      rw [apply, events, hcall]
      obtain ⟨hbound, hmatch⟩ := begin_totals hknown h hcall
      exact ⟨hbound, fun hm => iff_of_true (hmatch hm) not_false⟩
    | error e =>
      rw [apply, events, hcall]
      exact ⟨h, fun hm => iff_of_true hm not_false⟩
  | completeUnbonding now staker validatorAddr =>
    rw [apply, events] at *
    split at *
    · next r' amount hok =>
      have hs := steady_complete hok
      exact ⟨h.steady hs, fun hm => iff_of_true (hm.steady hs) not_false⟩
    · exact ⟨h, fun hm => iff_of_true hm not_false⟩
  | processQueue now order =>
    have hs := steady_process r now order
    refine ⟨fun v => ?_, fun hm => iff_of_true (hm.steady hs) not_false⟩
    exact (h.steady hs v).trans (Nat.le_add_right _ _)

/-- **Totals.** From an empty registry, with deposits that add up below `2 ^ 64`, the
totals of all validators agree with the records after every call exactly when no
call delegates a validator's stake to itself. -/
theorem agrees_iff (config : StakingConfig) (ops : List RegistryOp)
    (hfits : deposits (history (StakingRegistry.new config) ops) < 2 ^ 64) :
    (∀ pre, pre <+: ops → (run (StakingRegistry.new config) pre).Agrees) ↔
      ∀ pre op, pre ++ [op] <+: ops →
        ¬ op.SelfDelegates (run (StakingRegistry.new config) pre) := by
  have hle : ∀ pre, pre <+: ops → deposits (history (StakingRegistry.new config) pre) < 2 ^ 64 := by
    rintro pre ⟨post, rfl⟩
    rw [history_append, deposits_append] at hfits
    omega
  have hbounded : ∀ pre, pre <+: ops → (run (StakingRegistry.new config) pre).Bounded
      (deposits (history (StakingRegistry.new config) pre)) := by
    refine forall_prefixes (fun v => le_refl _) fun pre op hpre h => ?_
    have hfits' := hle _ hpre
    rw [history_snoc, deposits_append] at hfits' ⊢
    rw [run_snoc]
    exact (totals_apply (known_run config pre) h hfits').1
  have hagrees : ∀ pre, pre <+: ops → ((run (StakingRegistry.new config) pre).Agrees ↔
      (run (StakingRegistry.new config) pre).TotalsMatch) := fun pre hpre =>
    agrees_iff_totalsMatch (hbounded pre hpre) (hle pre hpre)
  refine forall_prefixes_iff ?_ fun pre op hpre h => ?_
  · intro v val hval
    cases hval
  · have hpre' := (List.prefix_append pre [op]).trans hpre
    have hfits' := hle _ hpre
    rw [history_snoc, deposits_append] at hfits'
    rw [hagrees _ hpre, run_snoc]
    exact (totals_apply (known_run config pre) (hbounded pre hpre') hfits').2
      ((hagrees pre hpre').mp h)

/-- The registration of a validator with the minimal stake. -/
def registerFirst : RegistryOp :=
  .register 0 (testAddress 1) (testAddress 1) (Vector.replicate 32 0) MIN_VALIDATOR_STAKE 500
    "Test Validator"

/-- A validator with one delegator, who takes half of it out again. -/
def halfDelegation : List RegistryOp :=
  [registerFirst, .activate (testAddress 1),
    .delegate 10 (testAddress 2) (testAddress 1) MIN_DELEGATION_STAKE,
    .beginUnstake 20 (testAddress 2) (testAddress 1) 5000000000]

theorem agrees_delegation :
    (run (StakingRegistry.new StakingConfig.default) halfDelegation).Agrees ∧
      ((run (StakingRegistry.new StakingConfig.default) halfDelegation).validators.lookup
        (testAddress 1)).map (fun v => v.delegatedStake.toNat) = some 5000000000 := by
  refine ⟨(agrees_iff StakingConfig.default halfDelegation (by decide +kernel)).mpr
    (fun pre op hpre hself => ?_) _ List.prefix_rfl, by decide +kernel⟩
  have hmem := hpre.subset (List.mem_append_right pre (List.mem_singleton_self op))
  simp only [halfDelegation, List.mem_cons, List.not_mem_nil, or_false] at hmem
  obtain rfl | rfl | rfl | rfl := hmem
  · exact hself
  · exact hself
  · exact absurd hself.1.1 (by decide)
  · exact hself

/-- A validator adds to its own stake: the record grows, the self-stake does not. -/
theorem self_delegation_drifts :
    let ops := [registerFirst,
      .delegate 10 (testAddress 1) (testAddress 1) MIN_DELEGATION_STAKE]
    let r := run (StakingRegistry.new StakingConfig.default) ops
    deposits (history (StakingRegistry.new StakingConfig.default) ops) < 2 ^ 64 ∧
      (r.validators.lookup (testAddress 1)).map (fun v => v.selfStake.toNat)
        = some 10000000000000 ∧
      r.amountAt (testAddress 1) (testAddress 1) = 10010000000000 := by
  decide +kernel

end RegistryOp

end Pyrax.Staking
