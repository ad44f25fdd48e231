import Pyrax.Ai.Verification

/-!
# Which calls to the verifier get done

Alone, every call leaves what its function of the data says, with one exception
(`alone_program`): a `submit_result` that reaches the quorum still holds the read guard on
`assignments` when it takes the write guard. It waits for itself, whoever else is there.
-/

namespace Pyrax.Ai

open Base Base.Locks

inductive Op where
  | registerVerifier (address : Address)
  | unregisterVerifier (address : Address)
  | requestVerification (jobId primaryHash : H256) (primaryNode : Address)
      (method : VerificationMethod) (now : UInt64)
  | submitResult (jobId : H256) (result : VerifierResult) (now : UInt64)
  | fileDispute (jobId : H256) (reason : String)
  | checkTimeouts (order : RequestOrder) (clock : H256 → UInt64)

namespace Op

/-- The data after a call, whatever it returns. -/
def apply (s : ResultVerifier) : Op → ResultVerifier
  | registerVerifier address => s.registerVerifier address
  | unregisterVerifier address => s.unregisterVerifier address
  | requestVerification jobId primaryHash primaryNode method now =>
    match s.requestVerification jobId primaryHash primaryNode method now with
    | .ok (_, s') => s'
    | .error _ => s
  | submitResult jobId result now =>
    match s.submitResult jobId result now with
    | .ok (_, s') => s'
    | .error _ => s
  | fileDispute jobId reason =>
    match s.fileDispute jobId reason with
    | .ok s' => s'
    | .error _ => s
  | checkTimeouts order clock => (s.checkTimeouts order clock).2

def program : Op → VerifierProgram
  | registerVerifier address => ResultVerifier.registerProgram address
  | unregisterVerifier address => ResultVerifier.unregisterProgram address
  | requestVerification jobId primaryHash primaryNode method now =>
    ResultVerifier.requestProgram jobId primaryHash primaryNode method now
  | submitResult jobId result now => ResultVerifier.submitProgram jobId result now
  | fileDispute jobId reason => ResultVerifier.disputeProgram jobId reason
  | checkTimeouts order clock => ResultVerifier.timeoutsProgram order clock

end Op

/-! ## What becomes of a request -/

namespace VerificationRequest

variable {request : VerificationRequest} {result : VerifierResult} {now : UInt64}

/-- The result comes in time and is the first of its verifier. -/
def Takes (request : VerificationRequest) (result : VerifierResult) (now : UInt64) : Prop :=
  now ≤ request.deadline ∧ ∀ r ∈ request.results, r.verifier ≠ result.verifier

instance : Decidable (request.Takes result now) := instDecidableAnd

/-- It is the one that makes the quorum. -/
def Completes (request : VerificationRequest) (result : VerifierResult) (now : UInt64) : Prop :=
  request.Takes result now ∧ request.quorum.toNat ≤ request.results.length + 1

instance : Decidable (request.Completes result now) := instDecidableAnd

/-- The request with one more result. -/
def withResult (request : VerificationRequest) (result : VerifierResult) : VerificationRequest :=
  { request with results := request.results ++ [result], status := .inProgress }

theorem addResult_of_late (h : request.deadline < now) :
    request.addResult result now = (false, { request with status := .timedOut }) := by
  rw [addResult, if_pos h]

theorem addResult_of_repeated (hnow : now ≤ request.deadline)
    (h : ¬ request.Takes result now) : request.addResult result now = (false, request) := by
  rw [addResult, if_neg (UInt64.not_lt.mpr hnow), if_pos]
  rw [List.any_eq_true]
  by_contra hnone
  refine h ⟨hnow, fun r hr heq => hnone ⟨r, hr, decide_eq_true heq⟩⟩

theorem addResult_of_takes (h : request.Takes result now) :
    request.addResult result now = (true,
      if request.quorum.toNat ≤ request.results.length + 1 then (request.withResult result).finalize
      else request.withResult result) := by
  have hnone : ¬ (request.results.any fun r => r.verifier = result.verifier) = true := by
    rw [List.any_eq_true]
    rintro ⟨r, hr, heq⟩
    exact h.2 r hr (of_decide_eq_true heq)
  rw [addResult, if_neg (UInt64.not_lt.mpr h.1), if_neg hnone]
  have hlength : (request.results ++ [result]).length = request.results.length + 1 := by simp
  dsimp only
  rw [hlength]
  split <;> rfl

theorem isComplete_withResult : (request.withResult result).isComplete = false := rfl

/-- The flags suffice. -/
def Passes (request : VerificationRequest) : Prop :=
  request.results.length * 2 / 3 ≤ request.matching

instance : Decidable request.Passes := Nat.decLe _ _

theorem finalize_eq : request.finalize = { request with
    verdict := some (decide request.Passes)
    status := if request.Passes then .verified else .failed } := by
  unfold finalize
  dsimp only
  by_cases h : request.Passes
  · rw [if_pos (show request.results.length * 2 / 3 ≤ request.matching from h), if_pos h,
      decide_eq_true h]
  · rw [if_neg (show ¬ request.results.length * 2 / 3 ≤ request.matching from h), if_neg h,
      decide_eq_false h]

theorem isComplete_finalize : request.finalize.isComplete = true := by
  rw [finalize_eq, isComplete]
  by_cases h : request.Passes
  · simp only [if_pos h]
  · simp only [if_neg h]

end VerificationRequest

/-! ## Reaching the quorum -/

/-- The call hands in the last result that a pending request waits for. -/
def Op.ReachesQuorum (s : ResultVerifier) : Op → Prop
  | .submitResult jobId result now => ∃ request, s.pending.lookup jobId = some request ∧
    ¬ s.Unassigned jobId result.verifier ∧ request.Completes result now
  | _ => False

variable {s : ResultVerifier} {jobId : H256} {result : VerifierResult} {now : UInt64}
  {request : VerificationRequest} {held : List (VerifierLock × Mode)}

open ResultVerifier Locks.Program VerificationRequest

theorem alone_releaseBoth :
    releaseBoth.alone [(.assignments, .read), (.pending, .write)] s = some s := rfl

/-- What `submit_result` leaves of a job that it does not decide. -/
theorem submitResult_of_pending (hp : s.pending.lookup jobId = some request)
    (hassigned : ¬ s.Unassigned jobId result.verifier) (h : ¬ request.Completes result now) :
    s.submitResult jobId result now = .ok ((request.addResult result now).1,
      s.setPending jobId (request.addResult result now).2) := by
  unfold submitResult
  rw [hp]
  dsimp only
  rw [if_neg hassigned]
  by_cases htakes : request.Takes result now
  · have hfull : ¬ request.quorum.toNat ≤ request.results.length + 1 := fun hfull => h ⟨htakes, hfull⟩
    rw [addResult_of_takes htakes, if_neg hfull]
    rfl
  · have hrefused : (request.addResult result now).1 = false := by
      by_cases hlate : request.deadline < now
      · rw [addResult_of_late hlate]
      · rw [addResult_of_repeated (UInt64.not_lt.mp hlate) htakes]
    rw [if_pos hrefused, hrefused]

/-- What it makes of one that it decides, but for the locks. -/
theorem submitResult_of_completes (hp : s.pending.lookup jobId = some request)
    (hassigned : ¬ s.Unassigned jobId result.verifier) (h : request.Completes result now) :
    s.submitResult jobId result now =
      let final := finalResult jobId (request.withResult result).finalize
      .ok (true, ((((s.setPending jobId (request.withResult result).finalize).erasePending
        jobId).setCompleted jobId final).eraseAssigned jobId).countCompleted final.verified) := by
  unfold submitResult
  rw [hp]
  dsimp only
  rw [if_neg hassigned, addResult_of_takes h.1, if_pos h.2]
  dsimp only
  rw [if_neg (by decide), if_pos isComplete_finalize]

/-- `submit_result` from where it holds both guards. -/
theorem alone_submit (hp : s.pending.lookup jobId = some request)
    (hassigned : ¬ s.Unassigned jobId result.verifier) :
    (submitProgram jobId result now).alone [] s =
      if request.Completes result now then none
      else some (s.setPending jobId (request.addResult result now).2) := by
  unfold submitProgram
  rw [alone, if_neg (by simp), alone]
  dsimp only
  rw [hp]
  dsimp only
  rw [alone, if_neg (by simp), alone, if_neg hassigned, alone]
  by_cases htakes : request.Takes result now
  · rw [addResult_of_takes htakes]
    dsimp only
    rw [if_neg (show ¬ true = false by decide)]
    by_cases hfull : request.quorum.toNat ≤ request.results.length + 1
    · rw [if_pos hfull, if_pos isComplete_finalize, if_pos ⟨htakes, hfull⟩]
      -- the guard on `assignments` is a read guard of its own
      rfl
    · rw [if_neg hfull, isComplete_withResult, if_neg Bool.false_ne_true, alone_releaseBoth,
        if_neg (show ¬ request.Completes result now from fun h => hfull h.2)]
  · rw [if_neg (show ¬ request.Completes result now from fun h => htakes h.1)]
    by_cases hlate : request.deadline < now
    · rw [addResult_of_late hlate]
      rfl
    · rw [addResult_of_repeated (UInt64.not_lt.mp hlate) htakes]
      rfl

theorem alone_moveAll {next : VerifierProgram} (hheld : ∀ m, (VerifierLock.completed, m) ∉ held)
    (ids : List H256) : (moveAll next ids).alone held s = next.alone held (ids.foldl moveTimedOut s)
    := by
  induction ids generalizing s with
  | nil => rfl
  | cons id ids ih =>
    rw [moveAll, alone, List.foldl_cons, moveTimedOut]
    cases hp : s.pending.lookup id with
    | none => exact ih
    | some request =>
      dsimp only
      rw [alone, alone_poke _ _ _ hheld]
      exact ih

/-- **By itself** a call leaves what its function says, unless it reaches the quorum. -/
theorem alone_program (s : ResultVerifier) (op : Op) :
    (¬ op.ReachesQuorum s → op.program.alone [] s = some (op.apply s)) ∧
      (op.ReachesQuorum s → op.program.alone [] s = none) := by
  have hnone : ∀ {l : VerifierLock} m, (l, m) ∉ ([] : List (VerifierLock × Mode)) :=
    fun _ => List.not_mem_nil
  cases op with
  | registerVerifier address => exact ⟨fun _ => alone_poke _ _ _ hnone s, False.elim⟩
  | unregisterVerifier address => exact ⟨fun _ => alone_poke _ _ _ hnone s, False.elim⟩
  | requestVerification jobId primaryHash primaryNode method now =>
    refine ⟨fun _ => ?_, False.elim⟩
    rw [Op.program, requestProgram, alone_peek _ _ (hnone _), Op.apply, requestVerification]
    by_cases hpending : jobId ∈ s.pending
    · rw [if_pos hpending, if_pos hpending]
      rfl
    rw [if_neg hpending, if_neg hpending]
    by_cases hmethod : method = .none
    · rw [if_pos hmethod, if_pos hmethod, alone_poke _ _ _ hnone]
      rfl
    rw [if_neg hmethod, if_neg hmethod, alone_peek _ _ (hnone _)]
    dsimp only
    cases selectVerifiers s.verifierPool
        (.new jobId primaryHash primaryNode method s.defaultTimeout now) with
    | error e => rfl
    | ok verifiers =>
      dsimp only
      rw [alone_poke _ _ _ hnone, alone_poke _ _ _ hnone, alone_poke _ _ _ hnone]
      rfl
  | submitResult jobId result now =>
    rw [Op.program]
    cases hp : s.pending.lookup jobId with
    | none =>
      refine ⟨fun _ => ?_, ?_⟩
      · rw [submitProgram, alone, if_neg (by simp), alone, hp, Op.apply, submitResult, hp]
        rfl
      · rintro ⟨request, hrequest, -⟩
        rw [hp] at hrequest
        cases hrequest
    | some request =>
      by_cases hassigned : s.Unassigned jobId result.verifier
      · refine ⟨fun _ => ?_, ?_⟩
        · rw [submitProgram, alone, if_neg (by simp), alone, hp, Op.apply, submitResult, hp]
          dsimp only
          rw [alone, if_neg (by simp), alone, if_pos hassigned, if_pos hassigned]
          rfl
        · rintro ⟨_, _, hnot, _⟩
          exact absurd hassigned hnot
      · have hreaches : (Op.submitResult jobId result now).ReachesQuorum s
            ↔ request.Completes result now := by
          constructor
          · rintro ⟨request', hrequest, -, hcompletes⟩
            rw [hp] at hrequest
            rwa [Option.some.inj hrequest]
          · intro hcompletes
            exact ⟨request, hp, hassigned, hcompletes⟩
        rw [hreaches, alone_submit hp hassigned]
        refine ⟨fun h => ?_, fun h => if_pos h⟩
        rw [if_neg h, Op.apply, submitResult_of_pending hp hassigned h]
  | fileDispute jobId reason =>
    refine ⟨fun _ => ?_, False.elim⟩
    rw [Op.program, disputeProgram, alone_peek _ _ (hnone _), Op.apply, fileDispute]
    by_cases hcompleted : jobId ∈ s.completed
    · rw [if_pos hcompleted, if_pos hcompleted]
      rfl
    rw [if_neg hcompleted, if_neg hcompleted, alone, if_neg (by simp), alone]
    cases hp : s.pending.lookup jobId with
    | none => rfl
    | some request =>
      dsimp only
      rw [alone, alone_poke _ _ _ (by simp)]
      rfl
  | checkTimeouts order clock =>
    refine ⟨fun _ => ?_, False.elim⟩
    rw [Op.program, timeoutsProgram, alone, if_neg (by simp), alone, alone, alone_moveAll (by simp),
      alone_poke _ _ _ (by simp)]
    rfl

/-! ## Getting done -/

/-- By itself the call gets to its end, with fair locks or not. -/
def Op.Finishes (s : ResultVerifier) (op : Op) : Prop :=
  ∀ fair, ∃ s' held, Reaches fair ⟨s, {⟨op.program, []⟩}⟩ ⟨s', {⟨.done, held⟩}⟩

theorem Op.finishes_iff (op : Op) : op.Finishes s ↔ ¬ op.ReachesQuorum s := by
  have halone := alone_program s op
  have hdone : ∀ fair s', (∃ held, Reaches fair ⟨s, {⟨op.program, []⟩}⟩ ⟨s', {⟨.done, held⟩}⟩)
      ↔ op.program.alone [] s = some s' := fun fair s' => reaches_done_iff
  constructor
  · intro h hreaches
    obtain ⟨s', hs'⟩ := h true
    rw [hdone, halone.2 hreaches] at hs'
    cases hs'
  · intro h fair
    exact ⟨op.apply s, (hdone fair _).mpr (halone.1 h)⟩

end Pyrax.Ai
