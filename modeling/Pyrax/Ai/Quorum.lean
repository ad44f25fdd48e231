import Pyrax.Base.Run
import Pyrax.Ai.Finishing

/-!
# What a verified result rests on

Calls are taken one after another, as their functions say, and beside the data stands
what was asked and answered: the request as it was made, the verifiers it was given and
the results that were taken, each with its reading of the clock. A job that is decided
takes this along (`settled`).

Over every run a pending job has its assigned verifiers, and what it has taken came in
time from different ones of them (`Sound`). That a verified result has two thirds of its
quorum behind it is a condition on the deciding call (`Op.Honest`), since the verdict
looks at the flags and rounds the threshold down; that nothing else is assigned is one on
`check_timeouts`, which drops an expired request and leaves its assignment.
-/

namespace Pyrax.Ai

open Base ResultVerifier VerificationRequest

/-- A request as it was made, its verifiers, and the results it took. -/
structure Asked where
  request : VerificationRequest
  assigned : List Address
  accepted : List (VerifierResult × UInt64)

structure Traced where
  verifier : ResultVerifier
  asked : Column H256 Asked
  settled : Column H256 Asked

namespace Traced

def start : Traced := ⟨.new, ∅, ∅⟩

def step (t : Traced) (op : Op) : Traced :=
  let t' := { t with verifier := op.apply t.verifier }
  match op with
  | .requestVerification jobId primaryHash primaryNode method now =>
    match t.verifier.requestVerification jobId primaryHash primaryNode method now with
    | .error _ => t'
    | .ok (verifiers, _) =>
      if method = .none then t'
      else
        let request := VerificationRequest.new jobId primaryHash primaryNode method
          t.verifier.defaultTimeout now
        { t' with asked := t.asked.insert jobId ⟨request, verifiers, []⟩ }
  | .submitResult jobId result now =>
    match t.verifier.submitResult jobId result now, t.asked.lookup jobId with
    | .ok (true, _), some a =>
      let a' := { a with accepted := a.accepted ++ [(result, now)] }
      { t' with
        asked := t.asked.insert jobId a'
        settled := if jobId ∈ t'.verifier.pending then t.settled else t.settled.insert jobId a' }
    | _, _ => t'
  | _ => t'

def run (ops : List Op) : Traced := ops.foldl step start

theorem run_snoc (ops : List Op) (op : Op) : run (ops ++ [op]) = (run ops).step op := by
  rw [run, List.foldl_append]
  rfl

end Traced

/-! ## The law and the conditions -/

/-- The verifiers that came to the primary result in time. -/
def Asked.agreeing (a : Asked) : List Address :=
  (a.accepted.filter fun e =>
    e.1.resultHash = a.request.primaryHash ∧ e.2 ≤ a.request.deadline).map fun e => e.1.verifier

/-- Two thirds of as many verifiers as the quorum, without the primary node. -/
structure Asked.Backed (a : Asked) : Prop where
  count : a.assigned.length = a.request.quorum.toNat
  distinct : a.assigned.Nodup
  primary : a.request.primaryNode ∉ a.assigned
  agreeing : ∀ v ∈ a.agreeing, v ∈ a.assigned
  once : a.agreeing.Nodup
  enough : 2 * a.request.quorum.toNat ≤ 3 * a.agreeing.length

/-- A verified result has its quorum behind it. -/
def Quorate (t : Traced) : Prop :=
  ∀ id r, t.verifier.completed.lookup id = some r → r.method ≠ .none → r.verified = true →
    ∃ a, t.settled.lookup id = some a ∧ a.request.method = r.method ∧ a.Backed

/-- What is assigned is what is pending. -/
def Listed (t : Traced) : Prop :=
  ∀ id, id ∈ t.verifier.assignments ↔ id ∈ t.verifier.pending

/-- How many results are the primary one. -/
def VerificationRequest.agreeing (request : VerificationRequest) : Nat :=
  (request.results.filter fun r => r.resultHash = request.primaryHash).length

/-- Where the flags decide for the primary result, the hashes do. -/
def Op.Honest (s : ResultVerifier) : Op → Prop
  | .submitResult jobId result now => ∀ request, s.pending.lookup jobId = some request →
    ¬ s.Unassigned jobId result.verifier → request.Completes result now →
    (request.withResult result).Passes →
      2 * request.quorum.toNat ≤ 3 * (request.withResult result).agreeing
  | _ => True

/-- No request has expired. -/
def Op.Timely (s : ResultVerifier) : Op → Prop
  | .checkTimeouts _ clock => ∀ id request, s.pending.lookup id = some request →
    (request.checkTimeout (clock id)).1 = false
  | _ => True

/-! ## What every run keeps -/

/-- A pending request and what is known of it. -/
structure Follows (request : VerificationRequest) (a : Asked) : Prop where
  primaryHash : request.primaryHash = a.request.primaryHash
  method : request.method = a.request.method
  quorum : request.quorum = a.request.quorum
  deadline : request.deadline = a.request.deadline
  results : request.results = a.accepted.map Prod.fst
  room : request.results.length < request.quorum.toNat
  ofMethod : request.quorum = request.method.quorum
  undecided : request.status ≠ .verified ∧ request.status ≠ .failed

/-- Who was asked, and who has answered in time. -/
structure Asked.Sound (a : Asked) : Prop where
  count : a.assigned.length = a.request.quorum.toNat
  distinct : a.assigned.Nodup
  primary : a.request.primaryNode ∉ a.assigned
  accepted : ∀ e ∈ a.accepted, e.1.verifier ∈ a.assigned ∧ e.2 ≤ a.request.deadline
  once : (a.accepted.map fun e => e.1.verifier).Nodup

/-- The invariant of all runs. -/
structure Sound (t : Traced) : Prop where
  pool : t.verifier.verifierPool.Nodup
  pending : ∀ id request, t.verifier.pending.lookup id = some request →
    ∃ a, t.asked.lookup id = some a ∧ t.verifier.assignments.lookup id = some a.assigned ∧
      Follows request a ∧ a.Sound

variable {t t' : Traced} {a : Asked} {request : VerificationRequest} {result : VerifierResult}
  {now : UInt64} {jobId : H256} {pool verifiers : List Address}

/-- Whoever has answered and agrees is one of the assigned. -/
theorem Asked.Sound.quorumBacked_iff (h : a.Sound) :
    a.Backed ↔ 2 * a.request.quorum.toNat ≤ 3 * a.agreeing.length := by
  refine ⟨Backed.enough, fun henough => ⟨h.count, h.distinct, h.primary, ?_, ?_, henough⟩⟩
  · intro v hv
    obtain ⟨e, he, rfl⟩ := List.mem_map.mp hv
    exact (h.accepted e (List.mem_of_mem_filter he)).1
  · exact h.once.sublist (List.filter_sublist.map _)

/-- The results of a request count the verifiers that agree. -/
theorem agreeing_eq (hhash : request.primaryHash = a.request.primaryHash)
    (hresults : request.results = a.accepted.map Prod.fst)
    (hin : ∀ e ∈ a.accepted, e.2 ≤ a.request.deadline) : request.agreeing = a.agreeing.length := by
  rw [VerificationRequest.agreeing, Asked.agreeing, List.length_map, hhash, hresults,
    List.filter_map, List.length_map]
  refine congrArg List.length (List.filter_congr fun e he => ?_)
  simp [hin e he]

/-! ### Making a request -/

/-- The verifiers selected for a request are different members of the pool, as many as
its quorum, and none is the primary node. -/
theorem selectVerifiers_spec (hpool : pool.Nodup)
    (h : selectVerifiers pool request = .ok verifiers) :
    verifiers.length = request.quorum.toNat ∧ verifiers.Nodup ∧
      request.primaryNode ∉ verifiers := by
  unfold selectVerifiers at h
  split at h
  · cases h
  · dsimp only at h
    split at h
    · cases h
    · next heligible =>
      obtain rfl := Except.ok.inj h
      refine ⟨?_, ?_, fun hmem => ?_⟩
      · rw [List.length_take]
        omega
      · exact (hpool.filter _).sublist (List.take_sublist _ _)
      · have hkept := List.mem_filter.mp (List.mem_of_mem_take hmem)
        simp at hkept

theorem undecided_of (h : request.status = .pending ∨ request.status = .inProgress ∨
    request.status = .timedOut) : request.status ≠ .verified ∧ request.status ≠ .failed := by
  rcases h with h | h | h <;> rw [h] <;> decide

theorem quorum_pos {method : VerificationMethod} (h : method ≠ .none) : 0 < method.quorum.toNat := by
  cases method with
  | none => exact absurd rfl h
  | _ => decide

/-- A request that was just made. -/
theorem sound_new (hpool : pool.Nodup) {primaryHash : H256} {primaryNode : Address}
    {method : VerificationMethod} {secs : UInt64} (hmethod : method ≠ .none)
    (h : selectVerifiers pool (.new jobId primaryHash primaryNode method secs now) = .ok verifiers) :
    Follows (.new jobId primaryHash primaryNode method secs now)
        ⟨.new jobId primaryHash primaryNode method secs now, verifiers, []⟩ ∧
      Asked.Sound ⟨.new jobId primaryHash primaryNode method secs now, verifiers, []⟩ := by
  obtain ⟨hcount, hdistinct, hprimary⟩ := selectVerifiers_spec hpool h
  refine ⟨⟨rfl, rfl, rfl, rfl, rfl, quorum_pos hmethod, rfl,
      undecided_of (Or.inl rfl)⟩,
    ⟨hcount, hdistinct, hprimary, ?_, List.nodup_nil⟩⟩
  intro e he
  exact absurd he List.not_mem_nil

/-! ### Taking a result -/

/-- What is known of a job with one more result. -/
def Asked.accept (a : Asked) (result : VerifierResult) (now : UInt64) : Asked :=
  { a with accepted := a.accepted ++ [(result, now)] }

/-- A result that is taken comes in time from another one of the assigned. -/
theorem Asked.Sound.accept (h : a.Sound) (hfollows : Follows request a)
    (hassigned : result.verifier ∈ a.assigned) (htakes : request.Takes result now) :
    (a.accept result now).Sound := by
  refine ⟨h.count, h.distinct, h.primary, fun e he => ?_, ?_⟩
  · rcases List.mem_append.mp he with he | he
    · exact h.accepted e he
    · cases List.mem_singleton.mp he
      exact ⟨hassigned, hfollows.deadline ▸ htakes.1⟩
  · show ((a.accepted ++ [(result, now)]).map fun e => e.1.verifier).Nodup
    rw [List.map_append, List.nodup_append]
    refine ⟨h.once, List.nodup_singleton _, ?_⟩
    rintro v hv v' hv' rfl
    obtain ⟨e, he, rfl⟩ := List.mem_map.mp hv
    refine htakes.2 e.1 ?_ (List.mem_singleton.mp hv')
    rw [hfollows.results]
    exact List.mem_map_of_mem he

theorem Follows.results_accept (h : Follows request a) :
    (request.withResult result).results = (a.accept result now).accepted.map Prod.fst := by
  show request.results ++ [result] = (a.accepted ++ [(result, now)]).map Prod.fst
  rw [h.results, List.map_append]
  rfl

theorem Follows.accept (h : Follows request a)
    (hroom : ¬ request.quorum.toNat ≤ request.results.length + 1) :
    Follows (request.withResult result) (a.accept result now) := by
  refine ⟨h.primaryHash, h.method, h.quorum, h.deadline, h.results_accept, ?_,
    h.ofMethod, undecided_of (Or.inr (Or.inl rfl))⟩
  show (request.results ++ [result]).length < request.quorum.toNat
  rw [List.length_append, List.length_singleton]
  omega

/-! ## What one call does -/

namespace Traced

/-! What comes after each kind of call, for the data `s` that it leaves. -/

def requested (t : Traced) (s : ResultVerifier) (jobId : H256) (a : Asked) : Traced :=
  { t with verifier := s, asked := t.asked.insert jobId a }

def decided (t : Traced) (s : ResultVerifier) (jobId : H256) (a : Asked) : Traced :=
  { verifier := s, asked := t.asked.insert jobId a, settled := t.settled.insert jobId a }

end Traced

/-- All a call can do, as far as requests, results and assignments go. -/
inductive Outcome (t : Traced) : Op → Traced → Prop
  | quiet {op : Op} {s : ResultVerifier} (hpool : s.verifierPool.Nodup)
      (hpending : s.pending = t.verifier.pending)
      (hassignments : s.assignments = t.verifier.assignments)
      (hcompleted : ∀ id r, s.completed.lookup id = some r → r.method ≠ .none →
        t.verifier.completed.lookup id = some r)
      (hhonest : op.Honest t.verifier) (htimely : op.Timely t.verifier) :
      Outcome t op { t with verifier := s }
  | requested {jobId primaryHash : H256} {primaryNode : Address} {method : VerificationMethod}
      {now : UInt64} {a : Asked} {s : ResultVerifier} (hmethod : method ≠ .none)
      (hfollows : Follows a.request a) (hsound : a.Sound)
      (hpool : s.verifierPool = t.verifier.verifierPool)
      (hpending : s.pending = t.verifier.pending.insert jobId a.request)
      (hassignments : s.assignments = t.verifier.assignments.insert jobId a.assigned)
      (hcompleted : s.completed = t.verifier.completed) :
      Outcome t (.requestVerification jobId primaryHash primaryNode method now)
        (t.requested s jobId a)
  | late {jobId : H256} {result : VerifierResult} {now : UInt64} {request : VerificationRequest}
      (hp : t.verifier.pending.lookup jobId = some request)
      (hhonest : (Op.submitResult jobId result now).Honest t.verifier) :
      Outcome t (.submitResult jobId result now)
        { t with verifier := t.verifier.setPending jobId { request with status := .timedOut } }
  | taken {jobId : H256} {result : VerifierResult} {now : UInt64} {request : VerificationRequest}
      {a : Asked} (hp : t.verifier.pending.lookup jobId = some request)
      (ha : t.verifier.assignments.lookup jobId = some a.assigned)
      (hfollows : Follows (request.withResult result) (a.accept result now))
      (hsound : (a.accept result now).Sound)
      (hhonest : (Op.submitResult jobId result now).Honest t.verifier) :
      Outcome t (.submitResult jobId result now)
        (t.requested (t.verifier.setPending jobId (request.withResult result)) jobId
          (a.accept result now))
  | decided {jobId : H256} {result : VerifierResult} {now : UInt64}
      {request : VerificationRequest} {a : Asked} {s : ResultVerifier}
      (hp : t.verifier.pending.lookup jobId = some request)
      (hassigned : ¬ t.verifier.Unassigned jobId result.verifier)
      (hcompletes : request.Completes result now) (hfollows : Follows request a)
      (hsound : (a.accept result now).Sound) (hpool : s.verifierPool = t.verifier.verifierPool)
      (hpending : s.pending = t.verifier.pending.erase jobId)
      (hassignments : s.assignments = t.verifier.assignments.erase jobId)
      (hcompleted : s.completed = t.verifier.completed.insert jobId
        (finalResult jobId (request.withResult result).finalize)) :
      Outcome t (.submitResult jobId result now) (t.decided s jobId (a.accept result now))
  | timeouts {order : RequestOrder} {clock : H256 → UInt64} {s : ResultVerifier}
      (hpool : s.verifierPool = t.verifier.verifierPool)
      (hpending : ∀ id, s.pending.lookup id =
        (t.verifier.pending.lookup id).filter fun r => !(r.checkTimeout (clock id)).1)
      (hassignments : s.assignments = t.verifier.assignments)
      (hcompleted : ∀ id r, s.completed.lookup id = some r →
        t.verifier.completed.lookup id = some r ∨ r.verified = false) :
      Outcome t (.checkTimeouts order clock) { t with verifier := s }

theorem Outcome.unchanged {op : Op} (h : Sound t) (hhonest : op.Honest t.verifier)
    (htimely : op.Timely t.verifier) : Outcome t op t :=
  .quiet (s := t.verifier) h.pool rfl rfl (fun _ _ hr _ => hr) hhonest htimely

theorem outcome_pool {op : Op} {address : Address} (h : Sound t)
    (hop : op = .registerVerifier address ∨ op = .unregisterVerifier address) :
    Outcome t op (t.step op) := by
  rcases hop with rfl | rfl
  · have hpool : (t.verifier.registerVerifier address).verifierPool.Nodup ∧
        (t.verifier.registerVerifier address).pending = t.verifier.pending ∧
        (t.verifier.registerVerifier address).assignments = t.verifier.assignments ∧
        (t.verifier.registerVerifier address).completed = t.verifier.completed := by
      rw [registerVerifier]
      split
      · exact ⟨h.pool, rfl, rfl, rfl⟩
      · next hnew =>
        refine ⟨List.nodup_append.mpr ⟨h.pool, List.nodup_singleton _, ?_⟩, rfl, rfl, rfl⟩
        rintro a ha b hb rfl
        exact hnew (List.mem_singleton.mp hb ▸ ha)
    exact .quiet hpool.1 hpool.2.1 hpool.2.2.1
      (fun id r hr _ => (congrArg (Finmap.lookup id) hpool.2.2.2).symm.trans hr) trivial trivial
  · exact .quiet (h.pool.filter _) rfl rfl (fun _ _ hr _ => hr) trivial trivial

theorem outcome_request (h : Sound t) (jobId primaryHash : H256) (primaryNode : Address)
    (method : VerificationMethod) (now : UInt64) :
    Outcome t (.requestVerification jobId primaryHash primaryNode method now)
      (t.step (.requestVerification jobId primaryHash primaryNode method now)) := by
  rw [Traced.step, Op.apply, requestVerification]
  by_cases hpending : jobId ∈ t.verifier.pending
  · rw [if_pos hpending]
    exact .unchanged h trivial trivial
  rw [if_neg hpending]
  by_cases hmethod : method = .none
  · rw [if_pos hmethod]
    dsimp only
    rw [if_pos hmethod]
    refine .quiet h.pool rfl rfl (fun id r hr hnot => ?_) trivial trivial
    by_cases hid : id = jobId
    · rw [hid, setCompleted, Finmap.lookup_insert] at hr
      exact absurd (congrArg VerificationResult.method (Option.some.inj hr)).symm hnot
    · rwa [setCompleted, Finmap.lookup_insert_of_ne _ hid] at hr
  rw [if_neg hmethod]
  dsimp only
  cases hselect : selectVerifiers t.verifier.verifierPool
      (.new jobId primaryHash primaryNode method t.verifier.defaultTimeout now) with
  | error e => exact .unchanged h trivial trivial
  | ok verifiers =>
    dsimp only
    rw [if_neg hmethod]
    obtain ⟨hfollows, hsound⟩ := sound_new h.pool hmethod hselect
    exact .requested hmethod hfollows hsound rfl rfl rfl rfl

/-- A result for a job that waits for it, from one of its verifiers. -/
theorem outcome_assigned (h : Sound t) {jobId : H256} {result : VerifierResult} {now : UInt64}
    {request : VerificationRequest} (hp : t.verifier.pending.lookup jobId = some request)
    (hassigned : ¬ t.verifier.Unassigned jobId result.verifier) :
    Outcome t (.submitResult jobId result now) (t.step (.submitResult jobId result now)) := by
  obtain ⟨a, hasked, hlist, hfollows, hsound⟩ := h.pending jobId request hp
  have hmem : result.verifier ∈ a.assigned := by
    by_contra hnot
    exact hassigned ⟨a.assigned, hlist, hnot⟩
  -- what does not decide the job meets the condition on deciding calls
  have hhonest : ¬ request.Completes result now →
      (Op.submitResult jobId result now).Honest t.verifier := by
    intro hnot request' hrequest _ hcompletes
    rw [hp] at hrequest
    exact absurd (Option.some.inj hrequest ▸ hcompletes) hnot
  rw [Traced.step, Op.apply]
  by_cases hcompletes : request.Completes result now
  · rw [submitResult_of_completes hp hassigned hcompletes, hasked]
    dsimp only
    rw [if_neg]
    · exact .decided hp hassigned hcompletes hfollows
        (hsound.accept hfollows hmem hcompletes.1) rfl
        (Column.erase_insert_self ..) rfl rfl
    · exact Finmap.notMem_erase_self
  rw [submitResult_of_pending hp hassigned hcompletes, hasked]
  dsimp only
  by_cases htakes : request.Takes result now
  · have hroom : ¬ request.quorum.toNat ≤ request.results.length + 1 :=
      fun hfull => hcompletes ⟨htakes, hfull⟩
    rw [addResult_of_takes htakes, if_neg hroom]
    dsimp only
    rw [if_pos]
    · exact .taken hp hlist (hfollows.accept hroom) (hsound.accept hfollows hmem htakes)
        (hhonest hcompletes)
    · exact Finmap.mem_insert.mpr (Or.inl rfl)
  · by_cases hlate : request.deadline < now
    · rw [addResult_of_late hlate]
      exact .late hp (hhonest hcompletes)
    · rw [addResult_of_repeated (UInt64.not_lt.mp hlate) htakes]
      exact .quiet h.pool (Column.insert_of_lookup hp) rfl (fun _ _ hr _ => hr)
        (hhonest hcompletes) trivial

theorem outcome_submit (h : Sound t) (jobId : H256) (result : VerifierResult) (now : UInt64) :
    Outcome t (.submitResult jobId result now) (t.step (.submitResult jobId result now)) := by
  cases hp : t.verifier.pending.lookup jobId with
  | none =>
    have hresult : t.verifier.submitResult jobId result now = .error (.notFound jobId) := by
      rw [submitResult, hp]
    rw [Traced.step, Op.apply, hresult]
    refine .unchanged h (fun request hrequest => ?_) trivial
    rw [hp] at hrequest
    cases hrequest
  | some request =>
    by_cases hassigned : t.verifier.Unassigned jobId result.verifier
    · have hresult : t.verifier.submitResult jobId result now
          = .error (.notAssigned result.verifier) := by
        rw [submitResult, hp]
        exact if_pos hassigned
      rw [Traced.step, Op.apply, hresult]
      exact .unchanged h (fun _ _ hnot => absurd hassigned hnot) trivial
    · exact outcome_assigned h hp hassigned

/-- There is nothing to dispute as long as a request is pending. -/
theorem outcome_dispute (h : Sound t) (jobId : H256) (reason : String) :
    Outcome t (.fileDispute jobId reason) (t.step (.fileDispute jobId reason)) := by
  show Outcome t _ { t with verifier := (Op.fileDispute jobId reason).apply t.verifier }
  rw [Op.apply, fileDispute]
  by_cases hcompleted : jobId ∈ t.verifier.completed
  · rw [if_pos hcompleted]
    exact .unchanged h trivial trivial
  rw [if_neg hcompleted]
  cases hp : t.verifier.pending.lookup jobId with
  | none => exact .unchanged h trivial trivial
  | some request =>
    dsimp only
    obtain ⟨a, -, -, hfollows, -⟩ := h.pending jobId request hp
    have hsame : request.dispute reason = request := by
      rw [dispute, if_neg (not_or.mpr hfollows.undecided)]
    rw [hsame]
    exact .quiet h.pool (Column.insert_of_lookup hp) rfl (fun _ _ hr _ => hr) trivial trivial

/-! ### Timeouts -/

theorem mem_expired {s : ResultVerifier} {order : RequestOrder} {clock : H256 → UInt64}
    {id : H256} : id ∈ s.expired order clock ↔
      ∃ r, s.pending.lookup id = some r ∧ (r.checkTimeout (clock id)).1 = true := by
  rw [expired, List.mem_map]
  constructor
  · rintro ⟨⟨id', r⟩, he, rfl⟩
    obtain ⟨hentry, htimeout⟩ := List.mem_filter.mp he
    exact ⟨r, Column.KeyOrder.mem_entries.mp hentry, htimeout⟩
  · rintro ⟨r, hr, htimeout⟩
    exact ⟨(id, r), List.mem_filter.mpr ⟨Column.KeyOrder.mem_entries.mpr hr, htimeout⟩, rfl⟩

/-- What the second loop of `check_timeouts` leaves. -/
theorem foldl_moveTimedOut (ids : List H256) (s : ResultVerifier) :
    (ids.foldl moveTimedOut s).verifierPool = s.verifierPool ∧
      (ids.foldl moveTimedOut s).assignments = s.assignments ∧
      (∀ id, (ids.foldl moveTimedOut s).pending.lookup id
        = if id ∈ ids then none else s.pending.lookup id) ∧
      (∀ id r, (ids.foldl moveTimedOut s).completed.lookup id = some r →
        s.completed.lookup id = some r ∨ r.verified = false) := by
  induction ids generalizing s with
  | nil =>
    refine ⟨rfl, rfl, fun id => ?_, fun id r hr => Or.inl hr⟩
    rw [if_neg List.not_mem_nil]
    rfl
  | cons id ids ih =>
    obtain ⟨hpool, hassignments, hpending, hcompleted⟩ := ih (moveTimedOut s id)
    rw [List.foldl_cons]
    have hone : (moveTimedOut s id).verifierPool = s.verifierPool ∧
        (moveTimedOut s id).assignments = s.assignments ∧
        (∀ other, (moveTimedOut s id).pending.lookup other
          = if other = id then none else s.pending.lookup other) ∧
        (∀ other r, (moveTimedOut s id).completed.lookup other = some r →
          s.completed.lookup other = some r ∨ r.verified = false) := by
      cases hp : s.pending.lookup id with
      | none =>
        have hmove : moveTimedOut s id = s := by rw [moveTimedOut, hp]
        rw [hmove]
        refine ⟨rfl, rfl, fun other => ?_, fun other r hr => Or.inl hr⟩
        split
        · next heq => rw [heq, hp]
        · rfl
      | some request =>
        have hmove : moveTimedOut s id
            = (s.erasePending id).setCompleted id (timeoutResult id request) := by
          rw [moveTimedOut, hp]
        rw [hmove]
        refine ⟨rfl, rfl, fun other => ?_, fun other r hr => ?_⟩
        · show (s.pending.erase id).lookup other = _
          split
          · next heq => rw [heq, Finmap.lookup_erase]
          · next hne => rw [Finmap.lookup_erase_ne hne]
        · have hr' : (s.completed.insert id (timeoutResult id request)).lookup other = some r := hr
          by_cases heq : other = id
          · rw [heq, Finmap.lookup_insert] at hr'
            exact Or.inr (Option.some.inj hr' ▸ rfl)
          · rw [Finmap.lookup_insert_of_ne _ heq] at hr'
            exact Or.inl hr'
    refine ⟨hpool.trans hone.1, hassignments.trans hone.2.1, fun other => ?_, fun other r hr => ?_⟩
    · rw [hpending, hone.2.2.1]
      by_cases heq : other = id
      · simp [heq]
      · simp [heq]
    · rcases hcompleted other r hr with hold | hfalse
      · exact hone.2.2.2 other r hold
      · exact Or.inr hfalse

theorem outcome_timeouts (t : Traced) (order : RequestOrder) (clock : H256 → UInt64) :
    Outcome t (.checkTimeouts order clock) (t.step (.checkTimeouts order clock)) := by
  obtain ⟨hpool, hassignments, hpending, hcompleted⟩ :=
    foldl_moveTimedOut (t.verifier.expired order clock) (t.verifier.markTimeouts clock)
  refine .timeouts hpool (fun id => ?_) hassignments fun id r hr => hcompleted id r hr
  refine (hpending id).trans ?_
  have hmark : (t.verifier.markTimeouts clock).pending.lookup id
      = (t.verifier.pending.lookup id).map fun r => (r.checkTimeout (clock id)).2 :=
    Column.lookup_mapValues ..
  rw [hmark]
  cases hp : t.verifier.pending.lookup id with
  | none => simp
  | some request =>
    cases htimeout : (request.checkTimeout (clock id)).1 with
    | true => rw [if_pos (mem_expired.mpr ⟨request, hp, htimeout⟩), Option.filter, htimeout]; rfl
    | false =>
      have hnot : id ∉ t.verifier.expired order clock := by
        intro hmem
        obtain ⟨r, hr, htrue⟩ := mem_expired.mp hmem
        rw [hp] at hr
        rw [← Option.some.inj hr, htimeout] at htrue
        cases htrue
      -- what has not expired is left as it was
      have hsame : (request.checkTimeout (clock id)).2 = request := by
        rw [checkTimeout] at htimeout ⊢
        split at htimeout
        · cases htimeout
        · next hfresh => rw [if_neg hfresh]
      rw [if_neg hnot, Option.map_some, hsame, Option.filter, htimeout]
      rfl

theorem step_outcome (h : Sound t) (op : Op) : Outcome t op (t.step op) := by
  cases op with
  | registerVerifier address => exact outcome_pool h (Or.inl rfl)
  | unregisterVerifier address => exact outcome_pool h (Or.inr rfl)
  | requestVerification jobId primaryHash primaryNode method now =>
    exact outcome_request h jobId primaryHash primaryNode method now
  | submitResult jobId result now => exact outcome_submit h jobId result now
  | fileDispute jobId reason => exact outcome_dispute h jobId reason
  | checkTimeouts order clock => exact outcome_timeouts t order clock

/-! ## One call at a time -/

/-- One request put under its job, and nothing else moved. -/
theorem Sound.put (h : Sound t) (hpool : t'.verifier.verifierPool = t.verifier.verifierPool)
    (hpending : t'.verifier.pending = t.verifier.pending.insert jobId request)
    (hothers : ∀ id, id ≠ jobId → t'.asked.lookup id = t.asked.lookup id ∧
      t'.verifier.assignments.lookup id = t.verifier.assignments.lookup id)
    (hasked : t'.asked.lookup jobId = some a)
    (hassigned : t'.verifier.assignments.lookup jobId = some a.assigned)
    (hfollows : Follows request a) (hsound : a.Sound) : Sound t' where
  pool := hpool ▸ h.pool
  pending := by
    intro id q hq
    rw [hpending] at hq
    by_cases hid : id = jobId
    · subst hid
      rw [Finmap.lookup_insert] at hq
      rw [← Option.some.inj hq]
      exact ⟨a, hasked, hassigned, hfollows, hsound⟩
    · rw [Finmap.lookup_insert_of_ne _ hid] at hq
      rw [(hothers id hid).1, (hothers id hid).2]
      exact h.pending id q hq

theorem Outcome.sound {op : Op} (ho : Outcome t op t') (h : Sound t) : Sound t' := by
  cases ho with
  | quiet hpool hpending hassignments =>
    refine ⟨hpool, fun id q hq => ?_⟩
    dsimp only at hq ⊢
    rw [hpending] at hq
    rw [hassignments]
    exact h.pending id q hq
  | requested hmethod hfollows hsound hpool hpending hassignments =>
    refine h.put hpool hpending (fun id hid => ⟨Finmap.lookup_insert_of_ne _ hid, ?_⟩)
      (Finmap.lookup_insert _) ?_ hfollows hsound
    · rw [Traced.requested, hassignments, Finmap.lookup_insert_of_ne _ hid]
    · rw [Traced.requested, hassignments, Finmap.lookup_insert]
  | late hp =>
    obtain ⟨a, hasked, hassigned, hfollows, hsound⟩ := h.pending _ _ hp
    exact h.put rfl rfl (fun _ _ => ⟨rfl, rfl⟩) hasked hassigned
      ⟨hfollows.primaryHash, hfollows.method, hfollows.quorum, hfollows.deadline, hfollows.results,
        hfollows.room, hfollows.ofMethod, undecided_of (Or.inr (Or.inr rfl))⟩ hsound
  | taken hp ha hfollows hsound =>
    exact h.put rfl rfl (fun id hid => ⟨Finmap.lookup_insert_of_ne _ hid, rfl⟩)
      (Finmap.lookup_insert _) ha hfollows hsound
  | @decided jobId result now request a s hp hassigned hcompletes hfollows hsound hpool hpending
      hassignments =>
    refine ⟨by rw [Traced.decided, hpool]; exact h.pool, fun id q hq => ?_⟩
    rw [Traced.decided, hpending] at hq
    have hid : id ≠ jobId := by
      rintro rfl
      rw [Finmap.lookup_erase] at hq
      cases hq
    rw [Finmap.lookup_erase_ne hid] at hq
    rw [Traced.decided, hassignments, Finmap.lookup_erase_ne hid, Finmap.lookup_insert_of_ne _ hid]
    exact h.pending id q hq
  | timeouts hpool hpending hassignments =>
    refine ⟨hpool ▸ h.pool, fun id q hq => ?_⟩
    dsimp only at hq ⊢
    rw [hpending, Option.filter_eq_some_iff] at hq
    rw [hassignments]
    exact h.pending id q hq.1

/-- Where no verified result is new, nothing is to be shown. -/
theorem Quorate.mono (h : Quorate t) (hsettled : t'.settled = t.settled)
    (hcompleted : ∀ id r, t'.verifier.completed.lookup id = some r → r.method ≠ .none →
      r.verified = true → t.verifier.completed.lookup id = some r) : Quorate t' := by
  intro id r hr hmethod hverified
  rw [hsettled]
  exact h id r (hcompleted id r hr hmethod hverified) hmethod hverified

/-- The deciding call is right exactly when the hashes bear out the flags. -/
theorem quorate_decided_iff (h : Quorate t) {s : ResultVerifier}
    (hp : t.verifier.pending.lookup jobId = some request)
    (hassigned : ¬ t.verifier.Unassigned jobId result.verifier)
    (hcompletes : request.Completes result now) (hfollows : Follows request a)
    (hsound : (a.accept result now).Sound)
    (hcompleted : s.completed = t.verifier.completed.insert jobId
      (finalResult jobId (request.withResult result).finalize)) :
    Quorate (t.decided s jobId (a.accept result now)) ↔
      (Op.submitResult jobId result now).Honest t.verifier := by
  have hagree : (request.withResult result).agreeing = (a.accept result now).agreeing.length :=
    agreeing_eq hfollows.primaryHash hfollows.results_accept fun e he => (hsound.accepted e he).2
  have hbacked : (a.accept result now).Backed ↔
      2 * request.quorum.toNat ≤ 3 * (request.withResult result).agreeing := by
    rw [hsound.quorumBacked_iff, hagree, hfollows.quorum]
    rfl
  have hmethod : request.method ≠ .none := by
    intro hnone
    have hroom := hfollows.room
    rw [hfollows.ofMethod, hnone] at hroom
    exact absurd hroom (Nat.not_lt_zero _)
  have hfinal : finalResult jobId (request.withResult result).finalize
      = ⟨jobId, decide (request.withResult result).Passes,
        (request.withResult result).results.length.toUInt32, request.method⟩ := by
    rw [finalResult, finalize_eq]
    rfl
  constructor
  · intro hquorate request' hrequest _ _ hpasses
    rw [hp] at hrequest
    obtain rfl := Option.some.inj hrequest
    obtain ⟨a', ha', -, hback⟩ := hquorate jobId _
      (by rw [Traced.decided, hcompleted, Finmap.lookup_insert, hfinal]) hmethod
      (decide_eq_true hpasses)
    rw [Traced.decided, Finmap.lookup_insert] at ha'
    rw [← Option.some.inj ha'] at hback
    exact hbacked.mp hback
  · intro hhonest id r hr hnot hverified
    rw [Traced.decided, hcompleted] at hr
    by_cases hid : id = jobId
    · subst hid
      rw [Finmap.lookup_insert, hfinal] at hr
      obtain rfl := Option.some.inj hr
      refine ⟨a.accept result now, Finmap.lookup_insert _, hfollows.method.symm, hbacked.mpr ?_⟩
      exact hhonest request hp hassigned hcompletes (of_decide_eq_true hverified)
    · rw [Finmap.lookup_insert_of_ne _ hid] at hr
      obtain ⟨a', ha', hrest⟩ := h id r hr hnot hverified
      exact ⟨a', by rw [Traced.decided, Finmap.lookup_insert_of_ne _ hid, ha'], hrest⟩

theorem Outcome.quorate_iff {op : Op} (ho : Outcome t op t') (h : Quorate t) :
    Quorate t' ↔ op.Honest t.verifier := by
  cases ho with
  | quiet hpool hpending hassignments hcompleted hhonest =>
    exact iff_of_true (h.mono rfl fun id r hr hmethod _ => hcompleted id r hr hmethod) hhonest
  | requested hmethod hfollows hsound hpool hpending hassignments hcompleted =>
    refine iff_of_true (h.mono rfl fun id r hr _ _ => ?_) trivial
    rwa [Traced.requested, hcompleted] at hr
  | late hp hhonest => exact iff_of_true (h.mono rfl fun _ _ hr _ _ => hr) hhonest
  | taken hp ha hfollows hsound hhonest =>
    exact iff_of_true (h.mono rfl fun _ _ hr _ _ => hr) hhonest
  | decided hp hassigned hcompletes hfollows hsound hpool hpending hassignments hcompleted =>
    exact quorate_decided_iff h hp hassigned hcompletes hfollows hsound hcompleted
  | timeouts hpool hpending hassignments hcompleted =>
    refine iff_of_true (h.mono rfl fun id r hr _ hverified => ?_) trivial
    refine (hcompleted id r hr).resolve_right fun hfalse => ?_
    rw [hverified] at hfalse
    cases hfalse

theorem Outcome.listed_iff {op : Op} (ho : Outcome t op t') (h : Listed t) :
    Listed t' ↔ op.Timely t.verifier := by
  cases ho with
  | quiet hpool hpending hassignments hcompleted hhonest htimely =>
    refine iff_of_true (fun id => ?_) htimely
    dsimp only
    rw [hpending, hassignments]
    exact h id
  | requested hmethod hfollows hsound hpool hpending hassignments =>
    refine iff_of_true (fun id => ?_) trivial
    rw [Traced.requested, hpending, hassignments, Finmap.mem_insert, Finmap.mem_insert, h id]
  | late hp =>
    refine iff_of_true (fun id => ?_) trivial
    show id ∈ t.verifier.assignments ↔ id ∈ t.verifier.pending.insert _ _
    rw [Finmap.mem_insert, h id, eq_comm, or_iff_right_of_imp]
    rintro rfl
    exact Finmap.mem_of_lookup_eq_some hp
  | taken hp =>
    refine iff_of_true (fun id => ?_) trivial
    show id ∈ t.verifier.assignments ↔ id ∈ t.verifier.pending.insert _ _
    rw [Finmap.mem_insert, h id, eq_comm, or_iff_right_of_imp]
    rintro rfl
    exact Finmap.mem_of_lookup_eq_some hp
  | decided hp hassigned hcompletes hfollows hsound hpool hpending hassignments =>
    refine iff_of_true (fun id => ?_) trivial
    rw [Traced.decided, hpending, hassignments, Finmap.mem_erase, Finmap.mem_erase, h id]
  | @timeouts order clock s hpool hpending hassignments =>
    have hleft : ∀ id, id ∈ s.pending ↔ ∃ r, t.verifier.pending.lookup id = some r ∧
        (r.checkTimeout (clock id)).1 = false := by
      intro id
      rw [Finmap.mem_iff]
      refine exists_congr fun r => ?_
      rw [hpending, Option.filter_eq_some_iff, Bool.not_eq_true']
    have hlisted : Listed { t with verifier := s } ↔
        ∀ id, id ∈ t.verifier.pending → id ∈ s.pending := by
      refine forall_congr' fun id => ?_
      dsimp only
      rw [hassignments, h id]
      refine ⟨Iff.mp, fun hkept => ⟨hkept, fun hmem => ?_⟩⟩
      obtain ⟨r, hr, -⟩ := (hleft id).mp hmem
      exact Finmap.mem_of_lookup_eq_some hr
    rw [hlisted]
    refine forall_congr' fun id => ⟨fun hkept request hp => ?_, fun htimely hmem => ?_⟩
    · obtain ⟨r, hr, hfresh⟩ := (hleft id).mp (hkept (Finmap.mem_of_lookup_eq_some hp))
      rw [hp] at hr
      rwa [Option.some.inj hr]
    · obtain ⟨r, hr⟩ := Finmap.mem_iff.mp hmem
      exact (hleft id).mpr ⟨r, hr, htimely r hr⟩

/-! ## Runs -/

theorem sound_run (ops : List Op) : Sound (Traced.run ops) := by
  induction ops using List.reverseRecOn with
  | nil =>
    refine ⟨List.nodup_nil, fun id request hp => ?_⟩
    cases hp
  | append_singleton ops op ih =>
    rw [Traced.run_snoc]
    exact (step_outcome ih op).sound ih

/-- **Verified results.** In every run a verified result has two thirds of its quorum
behind it exactly when the deciding calls are honest, what is assigned is what is pending
exactly when no timeout check finds an expired request, and the calls that get done are
those that do not reach the quorum. -/
theorem verified_iff (ops : List Op) :
    ((∀ pre, pre <+: ops → Quorate (Traced.run pre)) ↔
        ∀ pre op, pre ++ [op] <+: ops → op.Honest (Traced.run pre).verifier) ∧
      ((∀ pre, pre <+: ops → Listed (Traced.run pre)) ↔
        ∀ pre op, pre ++ [op] <+: ops → op.Timely (Traced.run pre).verifier) ∧
      ((∀ pre op, pre ++ [op] <+: ops → op.Finishes (Traced.run pre).verifier) ↔
        ∀ pre op, pre ++ [op] <+: ops → ¬ op.ReachesQuorum (Traced.run pre).verifier) := by
  refine ⟨forall_prefixes_iff ?_ fun pre op _ h => ?_,
    forall_prefixes_iff (fun id => Iff.rfl) fun pre op _ h => ?_, ?_⟩
  · intro id r hr
    cases hr
  · rw [Traced.run_snoc]
    exact (step_outcome (sound_run pre) op).quorate_iff h
  · rw [Traced.run_snoc]
    exact (step_outcome (sound_run pre) op).listed_iff h
  · exact forall_congr' fun pre => forall_congr' fun op => imp_congr_right fun _ => op.finishes_iff

/-- One verifier, whose result is not the primary one and says so. -/
def disagreement : List Op :=
  [.registerVerifier ⟨Vector.replicate 20 1⟩,
    .requestVerification .zero ⟨Vector.replicate 32 1⟩ ⟨Vector.replicate 20 0⟩ .single 0,
    .submitResult .zero ⟨⟨Vector.replicate 20 1⟩, .zero, false⟩ 1]

/-- It is verified all the same, and the call that says so never returns. -/
theorem disagreement_not_quorate :
    ((Traced.run disagreement).verifier.completed.lookup .zero = some ⟨.zero, true, 1, .single⟩ ∧
        ¬ Quorate (Traced.run disagreement)) ∧
      ¬ (Op.submitResult .zero ⟨⟨Vector.replicate 20 1⟩, .zero, false⟩ 1).Finishes
        (Traced.run (disagreement.take 2)).verifier := by
  have hcompleted : (Traced.run disagreement).verifier.completed.lookup .zero
      = some ⟨.zero, true, 1, .single⟩ := by decide
  have hnone : ∀ a ∈ (Traced.run disagreement).settled.lookup .zero,
      ¬ 2 * a.request.quorum.toNat ≤ 3 * a.agreeing.length := by decide
  refine ⟨⟨hcompleted, fun h => ?_⟩, ?_⟩
  · obtain ⟨a, ha, -, hback⟩ := h .zero _ hcompleted (by decide) rfl
    exact hnone a ha hback.enough
  · rw [Op.finishes_iff, not_not]
    exact ⟨_, rfl, by decide, by decide⟩

end Pyrax.Ai
