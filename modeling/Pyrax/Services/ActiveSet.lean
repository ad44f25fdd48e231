import Pyrax.Base.Run
import Pyrax.Services.Staking

/-!
# The active set and the active flag

Who is active is stored twice in the staking service. The two should agree: a
validator's flag is set exactly if its address is in the list, the list names
nobody twice and not more than the maximal number, and every member has the
minimal stake (`Agrees`).

Most calls choose the set anew, and completing an unbonding does not change the
effective stake, so the set need not be looked at. The rotation task clears the
flag of whoever has been idle for an hour and leaves the list. `active_agrees_iff`: the
two agree along a run exactly when no pass of the rotation finds anyone idle.
-/

namespace Pyrax.StakingService

open Base

structure Agrees (s : StakingService) : Prop where
  flag : ∀ a v, s.validators.lookup a = some v → (v.isActive = true ↔ a ∈ s.activeSet)
  nodup : s.activeSet.Nodup
  size : s.activeSet.length ≤ s.config.maxValidators
  stake : ∀ a ∈ s.activeSet, ∃ v, s.validators.lookup a = some v ∧
    s.config.minStake ≤ v.effectiveStake

variable {s s' : StakingService} {a : Address} {v : Validator} {now : UInt64}

/-- Choosing the set makes them agree, whatever stood there. -/
theorem agrees_updateActiveSet (s : StakingService) (order : ValidatorOrder) :
    Agrees (s.updateActiveSet order) where
  flag a v hv := by
    rw [lookup_updateActiveSet] at hv
    obtain ⟨v', _, rfl⟩ := Option.map_eq_some_iff.mp hv
    exact List.contains_iff_mem
  nodup := chooseActive_nodup s order
  size := chooseActive_length s order
  stake a ha := by
    obtain ⟨v, hv, hstake⟩ := mem_chooseActive ha
    refine ⟨{ v with isActive := (s.chooseActive order).contains a }, ?_, hstake⟩
    rw [lookup_updateActiveSet, hv]
    rfl

theorem lookup_of_standing (h : ∀ a, s'.standing a = s.standing a)
    (hv : s.validators.lookup a = some v) : ∃ v', s'.validators.lookup a = some v' ∧
      v'.isActive = v.isActive ∧ v'.effectiveStake = v.effectiveStake := by
  have ha := h a
  rw [standing, standing, hv] at ha
  obtain ⟨v', hv', heq⟩ := Option.map_eq_some_iff.mp ha
  exact ⟨v', hv', (Prod.mk.inj heq).1, (Prod.mk.inj heq).2⟩

theorem Agrees.kept (h : Agrees s) (hconfig : s'.config = s.config)
    (hset : s'.activeSet = s.activeSet) (hstanding : ∀ a, s'.standing a = s.standing a) :
    Agrees s' where
  flag a v' hv' := by
    obtain ⟨v, hv, hflag, _⟩ := lookup_of_standing (fun a => (hstanding a).symm) hv'
    rw [hset, ← hflag]
    exact h.flag a v hv
  nodup := by
    rw [hset]
    exact h.nodup
  size := by
    rw [hset, hconfig]
    exact h.size
  stake a ha := by
    rw [hset] at ha
    obtain ⟨v, hv, hstake⟩ := h.stake a ha
    obtain ⟨v', hv', _, heq⟩ := lookup_of_standing hstanding hv
    exact ⟨v', hv', by rw [hconfig, heq]; exact hstake⟩

theorem Agrees.effect (h : Agrees s) (he : Effect s s') : Agrees s' := by
  cases he with
  | chosen t order hchosen _ _ =>
    rw [hchosen]
    exact agrees_updateActiveSet t order
  | kept hconfig hset hstanding _ => exact h.kept hconfig hset hstanding

/-! ## The rotation -/

/-- Somebody is active and has been idle for more than an hour. -/
def AnyIdle (s : StakingService) (now : UInt64) : Prop :=
  ∃ a v, s.validators.lookup a = some v ∧ v.idle now = true

theorem lookup_rotate : (s.rotate now).validators.lookup a =
    (s.validators.lookup a).map fun v => if v.idle now then { v with isActive := false } else v :=
  Column.lookup_mapValues _ _ _

theorem standing_rotate_of_not_idle (h : ¬ s.AnyIdle now) (a : Address) :
    (s.rotate now).standing a = s.standing a := by
  rw [standing, standing, lookup_rotate, Option.map_map]
  cases hv : s.validators.lookup a with
  | none => rfl
  | some v =>
    rw [Option.map_some, Option.map_some, Function.comp_apply,
      if_neg fun hidle => h ⟨a, v, hv, hidle⟩]

/-- **One pass** keeps the agreement exactly when nobody is idle. -/
theorem agrees_rotate (h : Agrees s) : Agrees (s.rotate now) ↔ ¬ s.AnyIdle now := by
  constructor
  · -- an idle validator loses its flag and stays in the list
    rintro h' ⟨a, v, hv, hidle⟩
    have hactive : v.isActive = true := (of_decide_eq_true hidle).1
    have hmem : a ∈ (s.rotate now).activeSet := (h.flag a v hv).mp hactive
    have hv' : (s.rotate now).validators.lookup a = some { v with isActive := false } := by
      rw [lookup_rotate, hv, Option.map_some, if_pos hidle]
    exact Bool.noConfusion ((h'.flag a _ hv').mpr hmem)
  · intro hnone
    exact h.kept rfl rfl (standing_rotate_of_not_idle hnone)

/-! ## Runs -/

namespace StakingOp

/-- The call is a pass of the rotation that finds somebody idle. -/
def Deactivates (s : StakingService) : StakingOp → Prop
  | rotate now => s.AnyIdle now
  | register .. | deposit .. | startUnbonding .. | completeUnbonding .. | submit .. | attest .. =>
    False

/-- **One call** keeps the agreement exactly when it deactivates nobody. -/
theorem agrees_apply (C : Crypto) (op : StakingOp) (h : Agrees s) :
    Agrees (op.apply C s) ↔ ¬ op.Deactivates s := by
  cases op with
  | rotate now => exact agrees_rotate h
  | register => exact iff_of_true (h.effect (effect_apply C s nofun)) not_false
  | deposit => exact iff_of_true (h.effect (effect_apply C s nofun)) not_false
  | startUnbonding => exact iff_of_true (h.effect (effect_apply C s nofun)) not_false
  | completeUnbonding => exact iff_of_true (h.effect (effect_apply C s nofun)) not_false
  | submit => exact iff_of_true (h.effect (effect_apply C s nofun)) not_false
  | attest => exact iff_of_true (h.effect (effect_apply C s nofun)) not_false

/-- **Active flag and active set.** From a service with any configuration, flag and set
agree after every call of a run exactly when no pass of the rotation in it finds
an idle validator. -/
theorem active_agrees_iff (C : Crypto) (config : StakingConfig) (ops : List StakingOp) :
    (∀ pre, pre <+: ops → Agrees (run C (StakingService.new config) pre)) ↔
      ∀ pre op, pre ++ [op] <+: ops → ¬ op.Deactivates (run C (StakingService.new config) pre) := by
  refine forall_prefixes_iff ⟨nofun, List.nodup_nil, Nat.zero_le _, nofun⟩ fun pre op _ h => ?_
  rw [run_snoc]
  exact agrees_apply C op h

/-- `Address([1u8; 20])`. -/
def firstAddress : Address := ⟨Vector.replicate 20 1⟩

/-- Registered at 0 and not heard of since: after an hour and a second the rotation
clears the flag, and the set still has the validator. -/
theorem rotation_disagrees :
    let s := run (Crypto.ofTable []) (StakingService.new StakingConfig.default)
      [.register 0 (.ofList [firstAddress]) firstAddress MIN_VALIDATOR_STAKE, .rotate 3601]
    (s.validators.lookup firstAddress).map (fun v => v.isActive) = some false ∧
      s.activeSet = [firstAddress] := by
  decide +kernel

end StakingOp

end Pyrax.StakingService
