import Pyrax.Services.ActiveSet

/-!
# Finality in the staking service

When `attest_checkpoint` of `services/staking.rs` makes a checkpoint final, at
least `2n / 3 + 1` of the `n` members of the active set at that moment should have
attested to it (`Supported`).

The attestations are counted over the checkpoint's whole life, and compared with
the size of the set as it is now. Those who have left the set are counted, and
when it shrinks the same attestations weigh more. `supported_of_present`: if
whenever an attestation makes the count full, all who attested before are still in
the set, then whatever becomes final has its quorum. What carries it is that nobody
attests twice, and that only members attest: the rotation can clear a flag, but no
flag is set outside the list.
-/

namespace Pyrax.StakingService

open Base

/-- Enough members of the active set have attested. -/
def Supported (s : StakingService) (c : Checkpoint) : Prop :=
  Checkpoint.required s.activeSet.length
    ≤ (s.activeSet.filter fun a => a ∈ c.attestors).length

/-- From `s` to `s'` a checkpoint became final. -/
def Finalizes (s s' : StakingService) (checkpointId : UInt64) (c : Checkpoint) : Prop :=
  (∃ c₀, s.checkpoints.find? (fun c => c.id = checkpointId) = some c₀ ∧ c₀.finalized = false) ∧
    s'.checkpoints.find? (fun c => c.id = checkpointId) = some c ∧ c.finalized = true

/-- The attestation makes the count of an open checkpoint full, and one of those
counted before has left the set. -/
def StakingOp.CountsAbsent (s : StakingService) : StakingOp → Prop
  | .attest _ validator checkpointId =>
    ∃ c, s.checkpoints.find? (fun c => c.id = checkpointId) = some c ∧ c.finalized = false ∧
      validator ∉ c.attestors ∧
      Checkpoint.required s.activeSet.length ≤ c.attestors.length + 1 ∧
      ∃ a ∈ c.attestors, a ∉ s.activeSet
  | .register .. | .deposit .. | .startUnbonding .. | .completeUnbonding .. | .submit ..
  | .rotate .. => False

/-! ## What holds in every state -/

variable {C : Crypto} {s s' : StakingService} {now checkpointId : UInt64} {validator : Address}
  {c : Checkpoint}

/-- No flag is set outside the list, and nobody has attested twice. -/
structure Orderly (s : StakingService) : Prop where
  listed : ∀ a v, s.validators.lookup a = some v → v.isActive = true → a ∈ s.activeSet
  once : ∀ c ∈ s.checkpoints, c.attestors.Nodup

theorem listed_effect (h : ∀ a v, s.validators.lookup a = some v → v.isActive = true →
    a ∈ s.activeSet) (he : Effect s s') :
    ∀ a v, s'.validators.lookup a = some v → v.isActive = true → a ∈ s'.activeSet := by
  cases he with
  | chosen t order hchosen _ _ =>
    intro a v hv hactive
    rw [hchosen] at hv ⊢
    exact ((agrees_updateActiveSet t order).flag a v hv).mp hactive
  | kept _ hset hstanding _ =>
    intro a v' hv' hactive
    obtain ⟨v, hv, hflag, _⟩ := lookup_of_standing (fun a => (hstanding a).symm) hv'
    rw [hset]
    exact h a v hv (hflag.trans hactive)

theorem listed_rotate (h : ∀ a v, s.validators.lookup a = some v → v.isActive = true →
    a ∈ s.activeSet) :
    ∀ a v, (s.rotate now).validators.lookup a = some v → v.isActive = true →
      a ∈ (s.rotate now).activeSet := by
  intro a v' hv' hactive
  rw [lookup_rotate] at hv'
  obtain ⟨v, hv, heq⟩ := Option.map_eq_some_iff.mp hv'
  by_cases hidle : v.idle now = true
  · rw [if_pos hidle] at heq
    rw [← heq] at hactive
    cases hactive
  · rw [if_neg hidle] at heq
    exact h a v hv (heq ▸ hactive)

/-- What a call leaves of the checkpoints. -/
theorem mem_checkpoints_apply (op : StakingOp) (h : c ∈ (op.apply C s).checkpoints) :
    c ∈ s.checkpoints ∨ c.attestors = [] ∨ c.AttestedOnceMore s.checkpoints := by
  by_cases hop : ∃ now, op = .rotate now
  · obtain ⟨now, rfl⟩ := hop
    exact .inl h
  · cases effect_apply C s fun now heq => hop ⟨now, heq⟩ with
    | chosen t order hchosen _ hcps =>
      rw [hchosen] at h
      exact .inl (hcps ▸ h)
    | kept _ _ _ hcps => exact hcps c h

theorem orderly_apply (op : StakingOp) (h : Orderly s) : Orderly (op.apply C s) where
  listed := by
    by_cases hop : ∃ now, op = .rotate now
    · obtain ⟨now, rfl⟩ := hop
      exact listed_rotate h.listed
    · exact listed_effect h.listed (effect_apply C s fun now heq => hop ⟨now, heq⟩)
  once c hc := by
    rcases mem_checkpoints_apply op hc with hc | hnil | ⟨c₀, hc₀, validator, hnew, heq⟩
    · exact h.once c hc
    · rw [hnil]
      exact List.nodup_nil
    · rw [heq, ← List.concat_eq_append]
      exact (h.once c₀ hc₀).concat hnew

/-! ## Runs -/

/-- **One attestation** that makes a checkpoint final, with all who attested before
it still there. -/
theorem supported_attest (h : Orderly s)
    (hfinal : Finalizes s (StakingOp.apply C s (.attest now validator checkpointId))
      checkpointId c)
    (hpresent : ¬ StakingOp.CountsAbsent s (.attest now validator checkpointId)) :
    Supported (StakingOp.apply C s (.attest now validator checkpointId)) c := by
  obtain ⟨⟨c₀, hc₀, hopen⟩, hc, hdone⟩ := hfinal
  rw [StakingOp.apply] at hc ⊢
  split at hc
  · next s' hok =>
    obtain ⟨v, c₁, hv, hactive, hc₁, hnew, hset, _, _, hcps⟩ := attest_ok hok
    cases hc₀.symm.trans hc₁
    have hid : (c₀.attest C now validator s.activeSet.length).id = checkpointId := by
      have hfound := List.find?_some hc₀
      exact of_decide_eq_true hfound
    rw [hcps, find?_replaceF hc₀ (decide_eq_true hid)] at hc
    cases hc
    have hatt := attestors_attest (C := C) c₀ now validator s.activeSet.length
    -- the count is full, so all who are counted are members
    have hcount : Checkpoint.required s.activeSet.length ≤ c₀.attestors.length + 1 := by
      have hquorum := hdone
      show _ ≤ (c₀.attestations.map Attestation.validator).length + 1
      simp only [Checkpoint.attest, hopen, Bool.or_false, Checkpoint.hasQuorum, decide_eq_true_eq,
        List.length_append, List.length_singleton] at hquorum
      rw [List.length_map]
      exact hquorum
    have hmember : ∀ a ∈ c₀.attestors ++ [validator], a ∈ s.activeSet := by
      intro a ha
      rcases List.mem_append.mp ha with ha | ha
      · exact not_not.mp fun hno => hpresent ⟨c₀, hc₀, hopen, hnew, hcount, a, ha, hno⟩
      · rw [List.mem_singleton.mp ha]
        exact h.listed validator v hv hactive
    have hnodup : (c₀.attestors ++ [validator]).Nodup := by
      rw [← List.concat_eq_append]
      exact (h.once c₀ (List.mem_of_find?_eq_some hc₀)).concat hnew
    have hle : (c₀.attestors ++ [validator]).length
        ≤ (s.activeSet.filter fun a => a ∈ c₀.attestors ++ [validator]).length := by
      refine (hnodup.subperm fun a ha => ?_).length_le
      exact List.mem_filter.mpr ⟨hmember a ha, decide_eq_true ha⟩
    rw [Supported, hset, hatt]
    rw [List.length_append, List.length_singleton] at hle
    exact hcount.trans hle
  · next e herr =>
    rw [hc₀] at hc
    cases hc
    rw [hopen] at hdone
    cases hdone

/-- **Quorum.** From a service with any configuration: if no attestation of a run that
makes the count full finds an earlier attestor gone from the active set, then
whenever an attestation makes a checkpoint final, enough members of the set have
attested to it. -/
theorem supported_of_present (C : Crypto) (config : StakingConfig) (ops : List StakingOp)
    (hops : ∀ pre op, pre ++ [op] <+: ops →
      ¬ op.CountsAbsent (StakingOp.run C (StakingService.new config) pre)) :
    ∀ pre now validator checkpointId c, pre ++ [.attest now validator checkpointId] <+: ops →
      Finalizes (StakingOp.run C (StakingService.new config) pre)
        (StakingOp.run C (StakingService.new config)
          (pre ++ [.attest now validator checkpointId])) checkpointId c →
      Supported (StakingOp.run C (StakingService.new config)
        (pre ++ [.attest now validator checkpointId])) c := by
  have horderly : ∀ pre, pre <+: ops →
      Orderly (StakingOp.run C (StakingService.new config) pre) := by
    refine forall_prefixes ⟨nofun, nofun⟩ fun pre op _ h => ?_
    rw [StakingOp.run_snoc]
    exact orderly_apply op h
  intro pre now validator checkpointId c hpre hfinal
  rw [StakingOp.run_snoc] at hfinal ⊢
  exact supported_attest (horderly pre ((List.prefix_append _ _).trans hpre)) hfinal
    (hops pre _ hpre)

/-! ## Two small sets -/

/-- `Address([2u8; 20])`. -/
def secondAddress : Address := ⟨Vector.replicate 20 2⟩

/-- `Address([3u8; 20])`. -/
def thirdAddress : Address := ⟨Vector.replicate 20 3⟩

def threeAddresses : List Address := [StakingOp.firstAddress, secondAddress, thirdAddress]

/-- What every checkpoint here is about. -/
def someData : CheckpointData := ⟨10, 20, ⟨Vector.replicate 32 7⟩, ⟨Vector.replicate 32 8⟩⟩

/-- `hash` of the first of them. -/
def someHash : H256 :=
  H256.ofNatBE 0xc427fe62c9258ddc767a2ec7dfbfa5b95595cd80317534f4fb5a1774571b6183

/-- BLAKE3 on that checkpoint and on the two attestations to it. -/
def attestCrypto : Crypto := Crypto.ofTable
  [([1, 0, 0, 0, 0, 0, 0, 0, 10, 0, 0, 0, 0, 0, 0, 0, 20, 0, 0, 0, 0, 0, 0, 0] ++
      List.replicate 32 7 ++ List.replicate 32 8 ++ List.replicate 20 1, someHash),
   (List.replicate 20 1 ++ someHash.asBytes ++ [2, 0, 0, 0, 0, 0, 0, 0],
      H256.ofNatBE 0xbfb6eb1df40356983a3836a0e6feb9f0edfd4945197f841740cea00fbb34dbf3),
   (List.replicate 20 2 ++ someHash.asBytes ++ [4, 0, 0, 0, 0, 0, 0, 0],
      H256.ofNatBE 0xdbd84a04e30e12e1e92b5e1cac8f2cd4925f25ab31911da741226d33cf59d6f9)]

noncomputable def registerAt0 (a : Address) : StakingOp :=
  .register 0 (.ofList threeAddresses) a MIN_VALIDATOR_STAKE

/-- Three register, and the first submits a checkpoint. -/
noncomputable def threeRegistered : List StakingOp :=
  threeAddresses.map registerAt0 ++
    [.submit 1 (.ofList threeAddresses) StakingOp.firstAddress someData .valid]

/-- Of two validators both attest, and the second attestation is the quorum. -/
theorem supported_by_two :
    let ops : List StakingOp := [registerAt0 StakingOp.firstAddress, registerAt0 secondAddress,
      .submit 1 (.ofList threeAddresses) StakingOp.firstAddress someData .valid,
      .attest 2 StakingOp.firstAddress 1]
    let s := StakingOp.run attestCrypto (StakingService.new .default) ops
    let s' := StakingOp.run attestCrypto (StakingService.new .default)
      (ops ++ [.attest 4 secondAddress 1])
    ∃ c, Finalizes s s' 1 c ∧ Supported s' c := by
  intro ops s s'
  have hfinal : Finalizes s s' 1 (((newCheckpoint 1 1 someData StakingOp.firstAddress).attest
      attestCrypto 2 StakingOp.firstAddress 2).attest attestCrypto 4 secondAddress 2) := by
    refine ⟨⟨(newCheckpoint 1 1 someData StakingOp.firstAddress).attest attestCrypto 2
      StakingOp.firstAddress 2, ?_, ?_⟩, ?_, ?_⟩ <;> decide +kernel
  refine ⟨_, hfinal, supported_of_present attestCrypto .default _ (forall_prefixes_snoc ?_) ops 4
    secondAddress 1 _ List.prefix_rfl hfinal⟩
  intro i hi
  rcases i with _ | _ | _ | _ | _ | i
  · exact id
  · exact id
  · exact id
  · -- nobody has attested
    rintro ⟨c, hc, _, _, _, a, ha, _⟩
    have hnobody : ∀ c ∈ (StakingOp.run attestCrypto (StakingService.new .default)
        (ops.take 3)).checkpoints.find? (fun c => c.id = 1), c.attestors = [] := by
      decide +kernel
    rw [hnobody c hc] at ha
    cases ha
  · -- the first has, and is there
    rintro ⟨c, hc, _, _, _, a, ha, hgone⟩
    have hthere : ∀ c ∈ s.checkpoints.find? (fun c => c.id = 1),
        ∀ a ∈ c.attestors, a ∈ s.activeSet := by
      decide +kernel
    exact hgone (hthere c hc a ha)
  · exact absurd hi (by simp [ops])

/-- The first attests and unbonds its stake, and leaves the set. Of the two that are
left one attests, and the checkpoint is final. -/
theorem final_without_quorum :
    let ops : List StakingOp := threeRegistered ++ [.attest 2 StakingOp.firstAddress 1,
      .startUnbonding 3 (.ofList threeAddresses) StakingOp.firstAddress MIN_VALIDATOR_STAKE]
    let s := StakingOp.run attestCrypto (StakingService.new .default) ops
    let s' := StakingOp.run attestCrypto (StakingService.new .default)
      (ops ++ [.attest 4 secondAddress 1])
    ∃ c, Finalizes s s' 1 c ∧ ¬ Supported s' c := by
  intro ops s s'
  refine ⟨((newCheckpoint 1 1 someData StakingOp.firstAddress).attest attestCrypto 2
    StakingOp.firstAddress 3).attest attestCrypto 4 secondAddress 2,
    ⟨⟨(newCheckpoint 1 1 someData StakingOp.firstAddress).attest attestCrypto 2
      StakingOp.firstAddress 3, ?_, ?_⟩, ?_, ?_⟩, ?_⟩
  · decide +kernel
  · decide +kernel
  · decide +kernel
  · decide +kernel
  · show ¬ _ ≤ _
    decide +kernel

end Pyrax.StakingService
