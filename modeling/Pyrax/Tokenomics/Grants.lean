import Mathlib.Order.Bounds.Basic
import Pyrax.Base.Run
import Pyrax.Base.Sums
import Pyrax.Tokenomics.Vesting

/-!
# What becomes of a grant

A grant should go three ways and no further: what its beneficiary has claimed, what a
revocation gave back, and what can still be claimed; and its contract should stay what it
is (`Conserved`). Contracts do not touch each other, so this is said of one, from the
call that makes it over all calls that follow. Beside the calls a log is kept: the
contracts as they were granted, the claims and the revocations with their times.

`grant_conserved_iff`: a grant is conserved throughout exactly when its schedule pays in full
before the clock ends and every call is careful with it. Two calls may not be. A contract
goes under an id hashed from the beneficiary, the amount and a clock of whole seconds,
and a second one with the same id replaces it. And `revoke` gives back what is not vested
and closes the contract: what is vested and not yet claimed is lost to both sides.
Milestones and emissions pay no claim at all, they are handled elsewhere.
-/

namespace Pyrax.Tokenomics

open Base Word VestingSchedule

inductive VestingEvent where
  | granted (contract : VestingContract)
  | claimed (contractId : H256) (now amount : UInt64)
  | returned (contractId : H256) (now amount : UInt64)
  deriving DecidableEq

namespace VestingEvent

/-- The contract an event is about. -/
def contract : VestingEvent → H256
  | granted contract => contract.id
  | claimed contractId _ _ => contractId
  | returned contractId _ _ => contractId

def grant : VestingEvent → Option VestingContract
  | granted contract => some contract
  | claimed .. | returned .. => none

def claimedAmount : VestingEvent → Nat
  | claimed _ _ amount => amount.toNat
  | granted _ | returned .. => 0

def returnedAmount : VestingEvent → Nat
  | returned _ _ amount => amount.toNat
  | granted _ | claimed .. => 0

end VestingEvent

open VestingEvent

/-- The contracts as they were granted. -/
def grants (log : List VestingEvent) : List VestingContract := log.filterMap grant

def claimedFrom (id : H256) (log : List VestingEvent) : Nat :=
  sumAt VestingEvent.contract claimedAmount id log

def returnedFrom (id : H256) (log : List VestingEvent) : Nat :=
  sumAt VestingEvent.contract returnedAmount id log

inductive VestingOp where
  | setTge (timestamp : UInt64)
  | create (idAt createdAt : UInt64) (beneficiary : Address) (totalAmount : UInt64)
      (schedule : VestingSchedule) (revocable : Bool) (notes : String)
  | claim (now claimedAt : UInt64) (contractId : H256)
  | claimAll (clock : Nat → UInt64 × UInt64) (beneficiary : Address)
  | revoke (now revokedAt : UInt64) (contractId : H256)

/-- The claims of `claim_all` that succeed. -/
def VestingManager.claimsOf (m : VestingManager) :
    List H256 → (Nat → UInt64 × UInt64) → List VestingEvent
  | [], _ => []
  | id :: contractIds, clock =>
    match m.claim (clock 0).1 (clock 0).2 id with
    | .ok (m, amount) =>
      .claimed id (clock 0).1 amount :: m.claimsOf contractIds fun i => clock (i + 1)
    | .error _ => m.claimsOf contractIds fun i => clock (i + 1)

/-- The readings lie between two moments, the later ones after the earlier. -/
def Ticks (start finish : UInt64) (clock : Nat → UInt64 × UInt64) : Prop :=
  start ≤ (clock 0).1 ∧
    ∀ i, (clock i).1 ≤ (clock i).2 ∧ (clock i).2 ≤ (clock (i + 1)).1 ∧ (clock i).2 ≤ finish

namespace VestingOp

def apply (C : Crypto) (m : VestingManager) : VestingOp → VestingManager
  | setTge timestamp => m.setTge timestamp
  | create idAt createdAt beneficiary totalAmount schedule revocable notes =>
    match m.createContract C idAt createdAt beneficiary totalAmount schedule revocable notes with
    | .ok (m, _) => m
    | .error _ => m
  | claim now claimedAt contractId =>
    match m.claim now claimedAt contractId with
    | .ok (m, _) => m
    | .error _ => m
  | claimAll clock beneficiary => (m.claimAll clock beneficiary).1
  | revoke now revokedAt contractId =>
    match m.revoke now revokedAt contractId with
    | .ok (m, _) => m
    | .error _ => m

/-- What a call that succeeds does to a grant. -/
def events (C : Crypto) (m : VestingManager) : VestingOp → List VestingEvent
  | setTge _ => []
  | create idAt createdAt beneficiary totalAmount schedule revocable notes =>
    match m.createContract C idAt createdAt beneficiary totalAmount schedule revocable notes with
    | .ok (m, id) => ((m.contracts.lookup id).map VestingEvent.granted).toList
    | .error _ => []
  | claim now claimedAt contractId =>
    match m.claim now claimedAt contractId with
    | .ok (_, amount) => [.claimed contractId now amount]
    | .error _ => []
  | claimAll clock beneficiary =>
    m.claimsOf ((m.byBeneficiary.lookup beneficiary).getD []) clock
  | revoke now revokedAt contractId =>
    match m.revoke now revokedAt contractId with
    | .ok (_, amount) => [.returned contractId now amount]
    | .error _ => []

def run (C : Crypto) (m : VestingManager) (ops : List VestingOp) : VestingManager :=
  ops.foldl (apply C) m

def log (C : Crypto) (m : VestingManager) : List VestingOp → List VestingEvent
  | [] => []
  | op :: ops => op.events C m ++ log C (op.apply C m) ops

/-- The call takes place between two moments. -/
def Between (start finish : UInt64) : VestingOp → Prop
  | setTge _ => start ≤ finish
  | create idAt createdAt .. => start ≤ idAt ∧ idAt ≤ createdAt ∧ createdAt ≤ finish
  | claim now claimedAt _ => start ≤ now ∧ now ≤ claimedAt ∧ claimedAt ≤ finish
  | claimAll clock _ => Ticks start finish clock
  | revoke now revokedAt _ => start ≤ now ∧ now ≤ revokedAt ∧ revokedAt ≤ finish

/-- No other contract is made under the id of a contract, and when it is revoked it has
nothing left to claim. -/
def Careful (C : Crypto) (id : H256) (m : VestingManager) : VestingOp → Prop
  | create idAt _ beneficiary totalAmount .. =>
    m.tgeTimestamp ≠ 0 → VestingContract.generateId C idAt beneficiary totalAmount ≠ id
  | revoke now _ contractId => contractId = id → ∀ c ∈ m.contracts.lookup id,
      c.revocable = true → c.revoked = false → c.claimableAmount now = 0
  | setTge _ | claim .. | claimAll .. => True

end VestingOp

namespace VestingContract

/-- What claims at these readings pay in all. -/
def claimsAt (c : VestingContract) : List (UInt64 × UInt64) → Nat
  | [] => 0
  | (now, claimedAt) :: rest =>
    match c.claim now claimedAt with
    | .ok (c, amount) => amount.toNat + c.claimsAt rest
    | .error _ => c.claimsAt rest

/-- `n` is the most that claims from `now` on can pay. -/
def Obtainable (c : VestingContract) (now : UInt64) (n : Nat) : Prop :=
  IsGreatest {n | ∃ clock : List (UInt64 × UInt64), clock.Pairwise (fun r r' => r.1 ≤ r'.1) ∧
    (∀ r ∈ clock, now ≤ r.1) ∧ c.claimsAt clock = n} n

/-- The contract stands as it was granted, whatever was paid. -/
structure SameTerms (g c : VestingContract) : Prop where
  id : c.id = g.id
  beneficiary : c.beneficiary = g.beneficiary
  schedule : c.schedule = g.schedule
  startTimestamp : c.startTimestamp = g.startTimestamp
  revocable : c.revocable = g.revocable

/-- What is vested of the grant, revoked or not. -/
def vestedOf (g : VestingContract) (now : UInt64) : UInt64 :=
  g.schedule.calculateVested g.totalAmount g.startTimestamp now

/-- All of the grant is vested before the clock ends. -/
def PaysInFull (g : VestingContract) : Prop :=
  g.totalAmount = 0 ∨ g.schedule.Completes g.startTimestamp

end VestingContract

open VestingContract

/-- What is promised of a grant, after the calls in the log. -/
structure Conserved (g : VestingContract) (m : VestingManager) (log : List VestingEvent)
    (now : UInt64) : Prop where
  own : ∀ g' ∈ grants log, g'.id ≠ g.id
  kept : ∃ c rest, m.contracts.lookup g.id = some c ∧ SameTerms g c ∧ c.Obtainable now rest ∧
    claimedFrom g.id log + returnedFrom g.id log + rest = g.totalAmount.toNat ∧
    ∀ time amount, .returned g.id time amount ∈ log →
      (g.vestedOf time).toNat ≤ claimedFrom g.id log + rest
  capped : ∀ pre time amount post, log = pre ++ .claimed g.id time amount :: post →
    claimedFrom g.id (pre ++ [.claimed g.id time amount]) ≤ (g.vestedOf time).toNat

/-! ## One contract -/

namespace VestingContract

variable {g c c' : VestingContract} {now time amount : UInt64}

theorem vestedOf_le (c : VestingContract) (now : UInt64) :
    (c.vestedOf now).toNat ≤ c.totalAmount.toNat :=
  UInt64.le_iff_toNat_le.mp (calculateVested_le _ _ _ _)

/-- On the same terms the same is vested, while the total is the same. -/
theorem SameTerms.vestedOf_eq (h : SameTerms g c) (htotal : c.totalAmount = g.totalAmount)
    (time : UInt64) : c.vestedOf time = g.vestedOf time := by
  rw [vestedOf, vestedOf, h.schedule, h.startTimestamp, htotal]

theorem vestedAmount_of_open (h : c.revoked = false) (now : UInt64) :
    c.vestedAmount now = c.vestedOf now := by
  rw [vestedAmount, h]
  rfl

theorem claimableAmount_of_open (h : c.revoked = false) (now : UInt64) :
    (c.claimableAmount now).toNat = (c.vestedOf now).toNat - c.releasedAmount.toNat := by
  rw [claimableAmount, vestedAmount_of_open h]
  exact toNat_saturatingSub _ _

theorem claim_ok (h : c.claim now time = .ok (c', amount)) :
    c.revoked = false ∧ c.releasedAmount < c.vestedOf now ∧
      amount.toNat = (c.vestedOf now).toNat - c.releasedAmount.toNat ∧
      c' = { c with releasedAmount := c.vestedOf now, lastClaimAt := some time } := by
  unfold claim at h
  split at h
  · cases h
  next hopen =>
  dsimp only at h
  split at h
  · cases h
  next hsome =>
  have hopen : c.revoked = false := Bool.eq_false_of_not_eq_true hopen
  have hclaimable := claimableAmount_of_open hopen now
  have hpos : (c.claimableAmount now).toNat ≠ 0 := fun hzero => hsome (UInt64.toNat_inj.mp hzero)
  have hlt : c.releasedAmount < c.vestedOf now := by
    rw [UInt64.lt_iff_toNat_lt]
    omega
  have hsum : c.releasedAmount + c.claimableAmount now = c.vestedOf now := by
    have hbound := (c.vestedOf now).toNat_lt
    refine UInt64.toNat_inj.mp ?_
    rw [toNat_add_of_lt (by omega)]
    omega
  rw [hsum] at h
  cases h
  exact ⟨hopen, hlt, hclaimable, rfl⟩

theorem revoke_ok (h : c.revoke now time = .ok (c', amount)) :
    c.revocable = true ∧ c.revoked = false ∧
      amount.toNat = c.totalAmount.toNat - (c.vestedOf now).toNat ∧
      c' = { c with revoked := true, revokedAt := some time, totalAmount := c.vestedOf now } := by
  unfold revoke at h
  split at h
  · cases h
  next hrevocable =>
  split at h
  · cases h
  next hopen =>
  have hopen : c.revoked = false := Bool.eq_false_of_not_eq_true hopen
  dsimp only at h
  rw [vestedAmount_of_open hopen] at h
  cases h
  exact ⟨by simpa using hrevocable, hopen, toNat_sub_of_le (c.vestedOf_le now), rfl⟩

theorem exists_revoke (hrevocable : c.revocable = true) (hopen : c.revoked = false)
    (now time : UInt64) : ∃ c' amount, c.revoke now time = .ok (c', amount) := by
  unfold revoke
  rw [hrevocable, hopen]
  exact ⟨_, _, rfl⟩

theorem claimsAt_of_revoked (h : c.revoked = true) :
    ∀ clock : List (UInt64 × UInt64), c.claimsAt clock = 0
  | [] => rfl
  | (now, time) :: rest => by
    have herror : c.claim now time = .error .contractRevoked := if_pos h
    rw [claimsAt, herror]
    exact claimsAt_of_revoked h rest

/-- Claims pay no more than what vests until the clock ends. -/
theorem claimsAt_le : ∀ (clock : List (UInt64 × UInt64)) (c : VestingContract),
    c.claimsAt clock ≤ (c.vestedOf lastSecond).toNat - c.releasedAmount.toNat
  | [], _ => Nat.zero_le _
  | (now, time) :: rest, c => by
    rw [claimsAt]
    split
    · next c' amount hok =>
      obtain ⟨_, hlt, hamount, rfl⟩ := claim_ok hok
      have hle : (c.vestedOf now).toNat ≤ (c.vestedOf lastSecond).toNat :=
        UInt64.le_iff_toNat_le.mp (calculateVested_mono _ _ _ (le_lastSecond now))
      have hrest := claimsAt_le rest { c with
        releasedAmount := c.vestedOf now
        lastClaimAt := some time }
      rw [UInt64.lt_iff_toNat_lt] at hlt
      change _ ≤ (c.vestedOf lastSecond).toNat - (c.vestedOf now).toNat at hrest
      omega
    · exact claimsAt_le rest c

theorem obtainable_of_revoked (h : c.revoked = true) (now : UInt64) : c.Obtainable now 0 := by
  refine ⟨⟨[], List.Pairwise.nil, fun _ hr => absurd hr List.not_mem_nil, rfl⟩, ?_⟩
  rintro _ ⟨clock, _, _, rfl⟩
  exact (claimsAt_of_revoked h clock).le

/-- Of an open contract all that vests until the clock ends can be claimed. -/
theorem obtainable_of_open (hopen : c.revoked = false) (now : UInt64) :
    c.Obtainable now ((c.vestedOf lastSecond).toNat - c.releasedAmount.toNat) := by
  refine ⟨⟨[(lastSecond, lastSecond)], List.pairwise_singleton _ _, ?_, ?_⟩, ?_⟩
  · intro r hr
    rw [List.mem_singleton.mp hr]
    exact le_lastSecond now
  · rw [claimsAt]
    split
    · next c' amount hok => exact (claim_ok hok).2.2.1
    · next e herror =>
      -- nothing is left
      unfold claim at herror
      rw [hopen, if_neg Bool.false_ne_true] at herror
      dsimp only at herror
      split at herror
      · next hzero =>
        have hclaimable := claimableAmount_of_open hopen lastSecond
        rw [hzero] at hclaimable
        exact hclaimable
      · cases herror
  · rintro _ ⟨clock, _, _, rfl⟩
    exact claimsAt_le clock c

theorem vestedOf_lastSecond_iff (c : VestingContract) :
    c.vestedOf lastSecond = c.totalAmount ↔ c.PaysInFull := by
  constructor
  · intro h
    by_cases hnone : c.totalAmount = 0
    · exact .inl hnone
    · exact .inr (completes_of_calculateVested h hnone)
  · rintro (hnone | hcompletes)
    · have hle : c.vestedOf lastSecond ≤ c.totalAmount := calculateVested_le _ _ _ _
      rw [hnone] at hle ⊢
      exact UInt64.le_antisymm hle UInt64.zero_le
    · exact calculateVested_lastSecond hcompletes

end VestingContract

/-! ## One event -/

theorem grants_snoc (log : List VestingEvent) (e : VestingEvent) :
    grants (log ++ [e]) = grants log ++ e.grant.toList := by
  cases e <;> simp [grants, List.filterMap_append, grant]

theorem claimedFrom_snoc (id : H256) (log : List VestingEvent) (e : VestingEvent) :
    claimedFrom id (log ++ [e]) = claimedFrom id log
      + if e.contract = id then e.claimedAmount else 0 := sumAt_snoc _ _ _ _ _

theorem returnedFrom_snoc (id : H256) (log : List VestingEvent) (e : VestingEvent) :
    returnedFrom id (log ++ [e]) = returnedFrom id log
      + if e.contract = id then e.returnedAmount else 0 := sumAt_snoc _ _ _ _ _

/-- How a grant stands in the log against its contract. -/
structure Tracks (log : List VestingEvent) (now : UInt64) (g c : VestingContract) : Prop where
  terms : SameTerms g c
  claimed : claimedFrom g.id log = c.releasedAmount.toNat
  opened : c.revoked = false → c.totalAmount = g.totalAmount ∧ c.releasedAmount ≤ c.vestedOf now ∧
    returnedFrom g.id log = 0 ∧ ∀ time amount, .returned g.id time amount ∉ log
  closed : c.revoked = true →
    claimedFrom g.id log + returnedFrom g.id log = g.totalAmount.toNat ∧
    ∀ time amount, .returned g.id time amount ∈ log →
      (g.vestedOf time).toNat ≤ claimedFrom g.id log

/-- What careful calls carry along. -/
structure Standing (g : VestingContract) (contracts : Column H256 VestingContract)
    (log : List VestingEvent) (now : UInt64) : Prop where
  own : ∀ g' ∈ grants log, g'.id ≠ g.id
  kept : ∃ c, contracts.lookup g.id = some c ∧ Tracks log now g c
  capped : ∀ pre time amount post, log = pre ++ .claimed g.id time amount :: post →
    claimedFrom g.id (pre ++ [.claimed g.id time amount]) ≤ (g.vestedOf time).toNat

namespace Standing

variable {contracts contracts' : Column H256 VestingContract} {log : List VestingEvent}
  {now now' time amount : UInt64} {g c c' : VestingContract} {e : VestingEvent}

/-- A contract as it is made. -/
theorem nil (hg : contracts.lookup g.id = some g) (hreleased : g.releasedAmount = 0)
    (hopen : g.revoked = false) (now : UInt64) : Standing g contracts [] now where
  own _ hg' := absurd hg' List.not_mem_nil
  kept := by
    refine ⟨g, hg, ⟨rfl, rfl, rfl, rfl, rfl⟩, ?_, fun _ => ?_, fun hclosed => ?_⟩
    · rw [hreleased]
      rfl
    · exact ⟨rfl, hreleased ▸ UInt64.zero_le, rfl, fun _ _ => List.not_mem_nil⟩
    · rw [hopen] at hclosed
      cases hclosed
  capped pre time amount post h := by simp at h

/-- Time passes. -/
theorem later (h : Standing g contracts log now) (hle : now ≤ now') :
    Standing g contracts log now' := by
  obtain ⟨c, hc, htracks⟩ := h.kept
  refine ⟨h.own, ⟨c, hc, htracks.terms, htracks.claimed, fun hopen => ?_, htracks.closed⟩, h.capped⟩
  obtain ⟨htotal, hreleased, hreturned⟩ := htracks.opened hopen
  exact ⟨htotal, UInt64.le_trans hreleased (calculateVested_mono _ _ _ hle), hreturned⟩

/-- A claim is capped where it is made, and stays so. -/
theorem capped_snoc (h : Standing g contracts log now)
    (hlast : ∀ time amount, e = .claimed g.id time amount →
      claimedFrom g.id (log ++ [e]) ≤ (g.vestedOf time).toNat) :
    ∀ pre time amount post, log ++ [e] = pre ++ .claimed g.id time amount :: post →
      claimedFrom g.id (pre ++ [.claimed g.id time amount]) ≤ (g.vestedOf time).toNat := by
  intro pre time amount post heq
  rcases List.eq_nil_or_concat post with rfl | ⟨post', last, rfl⟩
  · -- the claim is the last event
    obtain ⟨rfl, hsame⟩ := List.append_inj' heq rfl
    obtain rfl := List.singleton_inj.mp hsame
    exact hlast time amount rfl
  · rw [List.concat_eq_append, ← List.cons_append, ← List.append_assoc] at heq
    obtain ⟨rfl, _⟩ := List.append_inj' heq rfl
    exact h.capped pre time amount post' rfl

/-- An event of another contract. -/
theorem other (h : Standing g contracts log now) (hne : e.contract ≠ g.id)
    (hsame : contracts'.lookup g.id = contracts.lookup g.id) :
    Standing g contracts' (log ++ [e]) now := by
  obtain ⟨c, hc, htracks⟩ := h.kept
  have hclaimed : claimedFrom g.id (log ++ [e]) = claimedFrom g.id log := by
    rw [claimedFrom_snoc, if_neg hne, Nat.add_zero]
  have hreturned : returnedFrom g.id (log ++ [e]) = returnedFrom g.id log := by
    rw [returnedFrom_snoc, if_neg hne, Nat.add_zero]
  have hmem : ∀ time amount, .returned g.id time amount ∈ log ++ [e] ↔
      .returned g.id time amount ∈ log := by
    intro time amount
    rw [List.mem_append, List.mem_singleton]
    refine or_iff_left ?_
    rintro rfl
    exact hne rfl
  refine ⟨?_, ⟨c, hsame.trans hc, htracks.terms, hclaimed.trans htracks.claimed, ?_, ?_⟩,
    h.capped_snoc ?_⟩
  · intro g' hg'
    rw [grants_snoc, List.mem_append, Option.mem_toList] at hg'
    rcases hg' with hold | hnew
    · exact h.own g' hold
    · cases e with
      | granted contract =>
        cases hnew
        exact hne
      | claimed => cases hnew
      | returned => cases hnew
  · simp only [hreturned, hmem]
    exact htracks.opened
  · simp only [hclaimed, hreturned, hmem]
    exact htracks.closed
  · rintro time amount rfl
    exact absurd rfl hne

/-- A claim pays up to what is vested. -/
theorem pay (h : Standing g contracts log now) (hc : contracts.lookup g.id = some c)
    (hok : c.claim now time = .ok (c', amount)) :
    Standing g (contracts.insert g.id c') (log ++ [.claimed g.id now amount]) now := by
  obtain ⟨c₀, hc₀, htracks⟩ := h.kept
  cases hc.symm.trans hc₀
  obtain ⟨hopen, hlt, hamount, rfl⟩ := claim_ok hok
  rw [UInt64.lt_iff_toNat_lt] at hlt
  obtain ⟨htotal, _, hreturned, hnone⟩ := htracks.opened hopen
  have hpaid : claimedFrom g.id (log ++ [.claimed g.id now amount]) = (c.vestedOf now).toNat := by
    rw [claimedFrom_snoc, if_pos (by rfl), htracks.claimed]
    show c.releasedAmount.toNat + amount.toNat = _
    omega
  refine ⟨?_, ⟨_, Finmap.lookup_insert _, ⟨htracks.terms.id, htracks.terms.beneficiary,
    htracks.terms.schedule, htracks.terms.startTimestamp, htracks.terms.revocable⟩, hpaid,
    fun _ => ⟨htotal, UInt64.le_refl _, ?_, ?_⟩, fun hclosed => ?_⟩, h.capped_snoc ?_⟩
  · rw [grants_snoc]
    simpa [grant] using h.own
  · rw [returnedFrom_snoc, if_pos (by rfl), hreturned]
    rfl
  · intro time' amount' hmem
    rcases List.mem_append.mp hmem with hold | hnew
    · exact hnone time' amount' hold
    · cases List.mem_singleton.mp hnew
  · exact absurd (hopen.symm.trans hclosed) Bool.false_ne_true
  · intro time' amount' hsame
    cases hsame
    rw [hpaid, htracks.terms.vestedOf_eq htotal]

/-- A revocation of a contract that has nothing left to claim gives back the rest. -/
theorem giveBack (h : Standing g contracts log now) (hc : contracts.lookup g.id = some c)
    (hok : c.revoke now time = .ok (c', amount)) (hnothing : c.claimableAmount now = 0) :
    Standing g (contracts.insert g.id c') (log ++ [.returned g.id now amount]) now := by
  obtain ⟨c₀, hc₀, htracks⟩ := h.kept
  cases hc.symm.trans hc₀
  obtain ⟨_, hopen, hamount, rfl⟩ := revoke_ok hok
  obtain ⟨htotal, hreleased, hreturned, hnone⟩ := htracks.opened hopen
  have hclaimed : claimedFrom g.id (log ++ [.returned g.id now amount])
      = c.releasedAmount.toNat := by
    rw [claimedFrom_snoc, if_pos (by rfl), htracks.claimed]
    rfl
  have hback : returnedFrom g.id (log ++ [.returned g.id now amount]) = amount.toNat := by
    rw [returnedFrom_snoc, if_pos (by rfl), hreturned]
    exact Nat.zero_add _
  -- what was claimed is what is vested
  have hvested : c.releasedAmount.toNat = (c.vestedOf now).toNat := by
    have hclaimable := claimableAmount_of_open hopen now
    rw [hnothing] at hclaimable
    rw [UInt64.le_iff_toNat_le] at hreleased
    have hzero : (0 : Nat) = (c.vestedOf now).toNat - c.releasedAmount.toNat := hclaimable
    omega
  refine ⟨?_, ⟨_, Finmap.lookup_insert _, ⟨htracks.terms.id, htracks.terms.beneficiary,
    htracks.terms.schedule, htracks.terms.startTimestamp, htracks.terms.revocable⟩, hclaimed,
    fun hclosed => ?_, fun _ => ⟨?_, ?_⟩⟩, h.capped_snoc ?_⟩
  · rw [grants_snoc]
    simpa [grant] using h.own
  · cases hclosed
  · have hle := c.vestedOf_le now
    rw [hclaimed, hback, hamount, ← htotal]
    omega
  · intro time' amount' hmem
    rcases List.mem_append.mp hmem with hold | hnew
    · exact absurd hold (hnone time' amount')
    · cases List.mem_singleton.mp hnew
      rw [hclaimed, hvested, htracks.terms.vestedOf_eq htotal]
  · intro _ _ hclaim
    cases hclaim

/-- A grant that stands is conserved, if it pays in full. -/
theorem conserved {m : VestingManager} (h : Standing g m.contracts log now)
    (hpays : g.PaysInFull) : Conserved g m log now := by
  obtain ⟨c, hc, htracks⟩ := h.kept
  refine ⟨h.own, ?_, h.capped⟩
  cases hrevoked : c.revoked with
  | true =>
    obtain ⟨hsum, hback⟩ := htracks.closed hrevoked
    exact ⟨c, 0, hc, htracks.terms, obtainable_of_revoked hrevoked now, hsum, hback⟩
  | false =>
    obtain ⟨htotal, hreleased, hreturned, hnone⟩ := htracks.opened hrevoked
    refine ⟨c, _, hc, htracks.terms, obtainable_of_open hrevoked now, ?_,
      fun time amount hmem => absurd hmem (hnone time amount)⟩
    have hfull : c.vestedOf lastSecond = g.totalAmount := by
      rw [htracks.terms.vestedOf_eq htotal]
      exact g.vestedOf_lastSecond_iff.mpr hpays
    have hle := UInt64.le_trans hreleased (calculateVested_mono _ _ _ (le_lastSecond now))
    rw [UInt64.le_iff_toNat_le] at hle
    change c.releasedAmount.toNat ≤ (c.vestedOf lastSecond).toNat at hle
    rw [htracks.claimed, hreturned, ← hfull]
    omega

/-- A grant that is conserved as it is made pays in full. -/
theorem paysInFull {m : VestingManager} (hg : m.contracts.lookup g.id = some g)
    (hreleased : g.releasedAmount = 0) (hopen : g.revoked = false) (h : Conserved g m [] now) :
    g.PaysInFull := by
  obtain ⟨c, rest, hc, _, hrest, hsum, _⟩ := h.kept
  cases hg.symm.trans hc
  have hunique := hrest.unique (obtainable_of_open hopen now)
  rw [hreleased] at hunique
  refine g.vestedOf_lastSecond_iff.mp (UInt64.toNat_inj.mp ?_)
  change 0 + 0 + rest = _ at hsum
  change rest = (g.vestedOf lastSecond).toNat - 0 at hunique
  omega

end Standing

/-! ## Whole runs -/

namespace VestingManager

variable {m m' : VestingManager} {now time amount start finish : UInt64} {id : H256}
  {log : List VestingEvent} {clock : Nat → UInt64 × UInt64} {g : VestingContract}

theorem claim_ok (h : m.claim now time id = .ok (m', amount)) :
    ∃ c c', m.contracts.lookup id = some c ∧ c.claim now time = .ok (c', amount) ∧
      m'.contracts = m.contracts.insert id c' := by
  unfold claim at h
  split at h
  · cases h
  next c hc =>
  split at h
  · cases h
  next c' claimed hok =>
  cases h
  exact ⟨c, c', hc, hok, rfl⟩

theorem revoke_ok (h : m.revoke now time id = .ok (m', amount)) :
    ∃ c c', m.contracts.lookup id = some c ∧ c.revoke now time = .ok (c', amount) ∧
      m'.contracts = m.contracts.insert id c' := by
  unfold revoke at h
  split at h
  · cases h
  next c hc =>
  split at h
  · cases h
  next c' unvested hok =>
  cases h
  exact ⟨c, c', hc, hok, rfl⟩

theorem revoke_eq {c c' : VestingContract} (hc : m.contracts.lookup id = some c)
    (hok : c.revoke now time = .ok (c', amount)) :
    m.revoke now time id = .ok ({ m with
      contracts := m.contracts.insert id c'
      stats := { m.stats with contractsRevoked := m.stats.contractsRevoked + 1 } }, amount) := by
  rw [revoke, hc]
  dsimp only
  rw [hok]

/-- A contract that is stored is found under its id. -/
theorem lookup_store (m : VestingManager) (c : VestingContract) :
    (m.store c).contracts.lookup c.id = some c :=
  Finmap.lookup_insert _

/-- A contract is made open, with nothing paid. -/
theorem createContract_ok {C : Crypto} {idAt createdAt totalAmount : UInt64}
    {beneficiary : Address} {schedule : VestingSchedule} {revocable : Bool} {notes : String}
    (h : m.createContract C idAt createdAt beneficiary totalAmount schedule revocable notes
      = .ok (m', g.id)) (hg : m'.contracts.lookup g.id = some g) :
    g.releasedAmount = 0 ∧ g.revoked = false := by
  unfold createContract at h
  dsimp only at h
  by_cases htge : m.tgeTimestamp = 0
  · rw [if_pos htge] at h
    cases h
  · rw [if_neg htge] at h
    obtain ⟨hm, hid⟩ := Prod.mk.inj (Except.ok.inj h)
    rw [← hm, ← hid, lookup_store] at hg
    rw [← Option.some.inj hg]
    exact ⟨rfl, rfl⟩

theorem le_of_ticks (h : Ticks start finish clock) : start ≤ finish := by
  obtain ⟨hstart, hticks⟩ := h
  obtain ⟨h₁, _, h₂⟩ := hticks 0
  exact UInt64.le_trans hstart (UInt64.le_trans h₁ h₂)

/-- A claim that is paid, of this contract or of another. -/
theorem standing_claim (h : Standing g m.contracts log now)
    (hclaim : m.claim now time id = .ok (m', amount)) :
    Standing g m'.contracts (log ++ [.claimed id now amount]) now := by
  obtain ⟨c, c', hc, hok, hcontracts⟩ := claim_ok hclaim
  rw [hcontracts]
  by_cases hid : id = g.id
  · subst hid
    exact h.pay hc hok
  · exact h.other hid (Finmap.lookup_insert_of_ne _ (Ne.symm hid))

theorem standing_claimEach : ∀ (contractIds : List H256) (m : VestingManager)
    (totalClaimed start : UInt64) (log : List VestingEvent) (clock : Nat → UInt64 × UInt64),
    Ticks start finish clock → Standing g m.contracts log start →
    Standing g (m.claimEach totalClaimed contractIds clock).1.contracts
      (log ++ m.claimsOf contractIds clock) finish
  | [], m, _, _, log, _, hticks, h => by
    rw [claimsOf, List.append_nil]
    exact h.later (le_of_ticks hticks)
  | contractId :: contractIds, m, totalClaimed, start, log, clock, hticks, h => by
    obtain ⟨hstart, hall⟩ := hticks
    have hnext : Ticks (clock 0).1 finish fun i => clock (i + 1) :=
      ⟨UInt64.le_trans (hall 0).1 (hall 0).2.1, fun i => hall (i + 1)⟩
    have hnow := h.later hstart
    rw [claimEach, claimsOf]
    cases hclaim : m.claim (clock 0).1 (clock 0).2 contractId with
    | error e => exact standing_claimEach contractIds m totalClaimed _ log _ hnext hnow
    | ok result =>
      obtain ⟨m', amount⟩ := result
      have hrest := standing_claimEach contractIds m' (totalClaimed + amount) _ _ _ hnext
        (standing_claim hnow hclaim)
      rw [List.append_assoc] at hrest
      exact hrest

end VestingManager

namespace VestingOp

variable {C : Crypto} {m : VestingManager} {op : VestingOp} {start finish : UInt64}
  {log : List VestingEvent} {g : VestingContract}

/-- **One careful call** leaves the grant standing. -/
theorem standing_apply (h : Standing g m.contracts log start) (hbetween : op.Between start finish)
    (hcareful : op.Careful C g.id m) :
    Standing g (op.apply C m).contracts (log ++ op.events C m) finish := by
  cases op with
  | setTge timestamp =>
    rw [events, List.append_nil]
    exact h.later hbetween
  | create idAt createdAt beneficiary totalAmount schedule revocable notes =>
    obtain ⟨h₁, h₂, h₃⟩ := hbetween
    have hlater := h.later (UInt64.le_trans h₁ (UInt64.le_trans h₂ h₃))
    rw [apply, events, VestingManager.createContract]
    by_cases htge : m.tgeTimestamp = 0
    · simp only [if_pos htge, List.append_nil]
      exact hlater
    · simp only [if_neg htge, VestingManager.lookup_store]
      have hne := hcareful htge
      exact hlater.other hne (Finmap.lookup_insert_of_ne _ (Ne.symm hne))
  | claim now claimedAt contractId =>
    obtain ⟨h₁, h₂, h₃⟩ := hbetween
    have hnow := h.later h₁
    rw [apply, events]
    cases hclaim : m.claim now claimedAt contractId with
    | error e =>
      simp only [List.append_nil]
      exact hnow.later (UInt64.le_trans h₂ h₃)
    | ok result =>
      exact (VestingManager.standing_claim hnow hclaim).later (UInt64.le_trans h₂ h₃)
  | claimAll clock beneficiary =>
    exact VestingManager.standing_claimEach _ m 0 start log clock hbetween h
  | revoke now revokedAt contractId =>
    obtain ⟨h₁, h₂, h₃⟩ := hbetween
    have hnow := h.later h₁
    rw [apply, events]
    cases hrevoke : m.revoke now revokedAt contractId with
    | error e =>
      simp only [List.append_nil]
      exact hnow.later (UInt64.le_trans h₂ h₃)
    | ok result =>
      obtain ⟨m', amount⟩ := result
      obtain ⟨c, c', hc, hok, hcontracts⟩ := VestingManager.revoke_ok hrevoke
      show Standing g m'.contracts (log ++ [.returned contractId now amount]) finish
      rw [hcontracts]
      refine Standing.later ?_ (UInt64.le_trans h₂ h₃)
      by_cases hid : contractId = g.id
      · subst hid
        obtain ⟨hrevocable, hopen, _⟩ := VestingContract.revoke_ok hok
        exact hnow.giveBack hc hok (hcareful rfl c hc hrevocable hopen)
      · exact hnow.other hid (Finmap.lookup_insert_of_ne _ (Ne.symm hid))

/-- A call that keeps a standing grant conserved was careful with it. -/
theorem careful_of_conserved (h : Standing g m.contracts log start)
    (hbetween : op.Between start finish)
    (h' : Conserved g (op.apply C m) (log ++ op.events C m) finish) : op.Careful C g.id m := by
  cases op with
  | setTge timestamp => trivial
  | create idAt createdAt beneficiary totalAmount schedule revocable notes =>
    intro htge hid
    have hmem : VestingContract.new C idAt createdAt beneficiary totalAmount schedule
        m.tgeTimestamp revocable notes
          ∈ grants (log ++ events C m (create idAt createdAt beneficiary totalAmount schedule
              revocable notes)) := by
      rw [events, VestingManager.createContract]
      simp only [if_neg htge, VestingManager.lookup_store, Option.map_some, Option.toList_some]
      rw [grants_snoc]
      exact List.mem_append_right _ (List.mem_singleton_self _)
    exact h'.own _ hmem hid
  | claim now claimedAt contractId => trivial
  | claimAll clock beneficiary => trivial
  | revoke now revokedAt contractId =>
    rintro rfl c hc hrevocable hopen
    obtain ⟨c₀, hc₀, htracks⟩ := (h.later hbetween.1).kept
    cases Option.mem_def.mp hc |>.symm.trans hc₀
    obtain ⟨htotal, hreleased, hreturned, _⟩ := htracks.opened hopen
    obtain ⟨c', amount, hok⟩ := exists_revoke hrevocable hopen now revokedAt
    have hrevoke := VestingManager.revoke_eq (Option.mem_def.mp hc) hok
    obtain ⟨_, _, hamount, rfl⟩ := VestingContract.revoke_ok hok
    obtain ⟨c'', rest, hc'', _, hrest, hsum, _⟩ := h'.kept
    rw [apply, hrevoke] at hc''
    cases (Finmap.lookup_insert _).symm.trans hc''
    -- nothing can be claimed any more, and what was vested was not given back
    rw [hrest.unique (obtainable_of_revoked rfl finish), events, hrevoke, claimedFrom_snoc,
      returnedFrom_snoc, if_pos (by rfl), if_pos (by rfl), htracks.claimed, hreturned] at hsum
    change c.releasedAmount.toNat + 0 + (0 + amount.toNat) + 0 = _ at hsum
    have hle := c.vestedOf_le now
    have hclaimable := claimableAmount_of_open hopen now
    rw [← htotal] at hsum
    rw [UInt64.le_iff_toNat_le] at hreleased
    refine UInt64.toNat_inj.mp ?_
    show (c.claimableAmount now).toNat = 0
    omega

theorem run_snoc (C : Crypto) (m : VestingManager) (ops : List VestingOp) (op : VestingOp) :
    run C m (ops ++ [op]) = op.apply C (run C m ops) := List.foldl_append ..

theorem log_snoc (C : Crypto) (op : VestingOp) : ∀ (ops : List VestingOp) (m : VestingManager),
    VestingOp.log C m (ops ++ [op]) = VestingOp.log C m ops ++ op.events C (run C m ops)
  | [], m => by
    rw [List.nil_append, VestingOp.log, VestingOp.log, VestingOp.log, List.append_nil]
    rfl
  | first :: ops, m => by
    rw [List.cons_append, VestingOp.log, log_snoc C op ops, VestingOp.log, List.append_assoc]
    rfl

/-- **A grant is conserved** after every call that follows it, whatever was called before,
exactly when its schedule pays in full and every call is careful with it. -/
theorem grant_conserved_iff (C : Crypto) (m m' : VestingManager) (g : VestingContract)
    (idAt createdAt : UInt64) (beneficiary : Address) (totalAmount : UInt64)
    (schedule : VestingSchedule) (revocable : Bool) (notes : String)
    (hgranted : m.createContract C idAt createdAt beneficiary totalAmount schedule revocable notes
      = .ok (m', g.id))
    (hg : m'.contracts.lookup g.id = some g) (ops : List VestingOp) (moment : Nat → UInt64)
    (htimes : ∀ pre op, pre ++ [op] <+: ops →
      op.Between (moment pre.length) (moment (pre.length + 1))) :
    (∀ pre, pre <+: ops →
      Conserved g (run C m' pre) (VestingOp.log C m' pre) (moment pre.length)) ↔
    g.PaysInFull ∧ ∀ pre op, pre ++ [op] <+: ops → op.Careful C g.id (run C m' pre) := by
  obtain ⟨hreleased, hopen⟩ := VestingManager.createContract_ok hgranted hg
  have hstart := Standing.nil hg hreleased hopen (moment 0)
  have hstep : ∀ pre op, pre ++ [op] <+: ops → op.Careful C g.id (run C m' pre) →
      Standing g (run C m' pre).contracts (VestingOp.log C m' pre) (moment pre.length) →
      Standing g (run C m' (pre ++ [op])).contracts (VestingOp.log C m' (pre ++ [op]))
        (moment (pre ++ [op]).length) := by
    intro pre op hpre hcareful h
    rw [run_snoc, log_snoc, List.length_append]
    exact standing_apply h (htimes pre op hpre) hcareful
  constructor
  · intro h
    have hcareful : ∀ pre op, pre ++ [op] <+: ops →
        Standing g (run C m' pre).contracts (VestingOp.log C m' pre) (moment pre.length) →
        op.Careful C g.id (run C m' pre) := by
      intro pre op hpre hpreStanding
      have h' := h (pre ++ [op]) hpre
      rw [run_snoc, log_snoc, List.length_append] at h'
      exact careful_of_conserved hpreStanding (htimes pre op hpre) h'
    have hstanding := forall_prefixes (P := fun pre => Standing g (run C m' pre).contracts
      (VestingOp.log C m' pre) (moment pre.length)) hstart fun pre op hpre hpreStanding =>
        hstep pre op hpre (hcareful pre op hpre hpreStanding) hpreStanding
    refine ⟨Standing.paysInFull hg hreleased hopen (h [] List.nil_prefix), fun pre op hpre => ?_⟩
    exact hcareful pre op hpre (hstanding pre ((List.prefix_append pre [op]).trans hpre))
  · rintro ⟨hpays, hcareful⟩ pre hpre
    refine Standing.conserved (forall_prefixes (P := fun pre => Standing g (run C m' pre).contracts
      (VestingOp.log C m' pre) (moment pre.length)) hstart ?_ pre hpre) hpays
    exact fun pre op hpre => hstep pre op hpre (hcareful pre op hpre)

/-- The ids of two grants of 1000, made in second 1200 and in second 1500. -/
def grantCrypto : Crypto := Crypto.ofTable
  [(List.replicate 20 1 ++ Wire.encU64 1000 ++ Wire.encU64 1200,
      H256.ofNatBE 0xb6293815c199afd8472f28c4ca64072f6cd18224bb38775f2be25ae6d18194b1),
    (List.replicate 20 2 ++ Wire.encU64 1000 ++ Wire.encU64 1500,
      H256.ofNatBE 0x2794aeae1b40cc363a028aa3603278303e5589c3f8cff957d11dce777e74d411)]

def grantId : H256 := generateId grantCrypto 1200 ⟨Vector.replicate 20 1⟩ 1000

def linearSchedule : VestingSchedule := ⟨.linear, 0, 1000, 0, ""⟩

/-- A grant of 1000 over 1000 seconds, after the start in second 1000. -/
def linearGrant : VestingContract :=
  .new grantCrypto 1200 1200 ⟨Vector.replicate 20 1⟩ 1000 linearSchedule 1000 true "Test"

/-- The manager with this grant. -/
def granted : VestingManager := (VestingManager.new.setTge 1000).store linearGrant

def createLinear : VestingOp :=
  create 1200 1200 ⟨Vector.replicate 20 1⟩ 1000 linearSchedule true "Test"

/-- A grant to somebody else, when half the time is over. -/
def createOther : VestingOp :=
  create 1500 1500 ⟨Vector.replicate 20 2⟩ 1000 linearSchedule true "Test"

/-- Half of the grant is claimed when half the time is over, the rest goes back. -/
theorem conserved_claim_and_revoke :
    let ops := [claim 1500 1500 grantId, createOther, revoke 1500 1500 grantId]
    Conserved linearGrant (run grantCrypto granted ops) (VestingOp.log grantCrypto granted ops)
        1500 ∧
      claimedFrom grantId (VestingOp.log grantCrypto granted ops) = 500 ∧
      returnedFrom grantId (VestingOp.log grantCrypto granted ops) = 500 := by
  intro ops
  refine ⟨?_, by decide +kernel, by decide +kernel⟩
  refine (grant_conserved_iff grantCrypto (VestingManager.new.setTge 1000) granted linearGrant 1200
    1200 ⟨Vector.replicate 20 1⟩ 1000 linearSchedule true "Test" rfl (Finmap.lookup_insert _) ops
    (fun i => [1200, 1500].getD i 1500) ?_).mpr ⟨?_, ?_⟩ ops List.prefix_rfl
  · refine forall_prefixes_snoc fun i hi => ?_
    rcases i with _ | _ | _ | i
    · exact ⟨by decide, by decide, by decide⟩
    · exact ⟨by decide, by decide, by decide⟩
    · exact ⟨by decide, by decide, by decide⟩
    · exact absurd hi (by simp [ops])
  · exact .inr (by decide : (1000 : Nat) + 1000 < 2 ^ 64)
  · refine forall_prefixes_snoc fun i hi => ?_
    rcases i with _ | _ | _ | i
    · trivial
    · intro _
      exact (by decide +kernel : generateId grantCrypto 1500 ⟨Vector.replicate 20 2⟩ 1000 ≠ grantId)
    · intro _ c hc _ _
      have hall : ∀ c ∈ (run grantCrypto granted
          [claim 1500 1500 grantId, createOther]).contracts.lookup grantId,
            c.claimableAmount 1500 = 0 := by
        decide +kernel
      exact hall c hc
    · exact absurd hi (by simp [ops])

/-- Half of a grant is vested and not claimed when it is revoked, and nobody has it; and of
two equal grants made in one second one record is left. -/
theorem grants_not_conserved :
    (let ops := [revoke 1500 1500 grantId];
      ¬ Conserved linearGrant (run grantCrypto granted ops) (VestingOp.log grantCrypto granted ops)
        1500 ∧
      returnedFrom grantId (VestingOp.log grantCrypto granted ops) = 500 ∧
      ∀ c ∈ (run grantCrypto granted ops).contracts.lookup grantId, c.Obtainable 1500 0) ∧
    (let ops := [createLinear];
      ¬ Conserved linearGrant (run grantCrypto granted ops) (VestingOp.log grantCrypto granted ops)
        1200 ∧
      (grants (VestingOp.log grantCrypto granted ops)).map (·.id) = [grantId] ∧
      (run grantCrypto granted ops).contracts.keys = {grantId}) := by
  have hrevoked : ∀ c ∈ (run grantCrypto granted [revoke 1500 1500 grantId]).contracts.lookup
      grantId, c.revoked = true := by
    decide +kernel
  have hnothing := fun c hc => obtainable_of_revoked (hrevoked c hc) 1500
  have hreturned : returnedFrom grantId
      (VestingOp.log grantCrypto granted [revoke 1500 1500 grantId]) = 500 := by
    decide +kernel
  have hsecond : (grants (VestingOp.log grantCrypto granted [createLinear])).map (·.id)
      = [grantId] := by
    decide +kernel
  refine ⟨⟨fun h => ?_, hreturned, hnothing⟩, ⟨fun h => ?_, hsecond, by decide +kernel⟩⟩
  · obtain ⟨c, rest, hc, _, hrest, hsum, _⟩ := h.kept
    rw [hrest.unique (hnothing c hc)] at hsum
    have hclaimed : claimedFrom grantId
        (VestingOp.log grantCrypto granted [revoke 1500 1500 grantId]) = 0 := by
      decide +kernel
    change claimedFrom grantId _ + returnedFrom grantId _ + 0 = 1000 at hsum
    rw [hclaimed, hreturned] at hsum
    cases hsum
  · have hmem : grantId ∈ (grants (VestingOp.log grantCrypto granted [createLinear])).map (·.id) := by
      rw [hsecond]
      exact List.mem_singleton_self _
    obtain ⟨g', hg', hid⟩ := List.mem_map.mp hmem
    exact h.own g' hg' hid

end VestingOp

end Pyrax.Tokenomics
