import Pyrax.Base.Sums
import Pyrax.Staking.Registry

/-!
# Stake that is taken out again

What a staker deposits with a validator should at any time be either bonded, or
begun to be unstaked and not yet returned, or returned; every unstake should be
returned once, as the amount that was begun and after its own period; and the
registry's total should be what was deposited less what was returned
(`Conserved`).

The specification is over the events of a run alone. An unstake is outstanding
from its beginning until a return of the same amount, to the same staker and late
enough, answers it (`outstanding`).

`staking/registry.rs` misses this. `begin_unstake` takes the amount out of the
record, so an emptied record is returned as nothing, an unstake of a part is never
returned at all, and stake delegated in the meantime is returned in its place.
`process_unbonding_queue` forgets what was due all the same. `conserved_iff`: the
books are right along a run exactly when the running total never overflows, every
completion that succeeds happens to find an amount that answers an outstanding
unstake, and the queue drops none that is still outstanding.
-/

namespace Pyrax.Staking

open Base Word

/-- An unstake that was begun. -/
structure Begun where
  staker : Address
  validator : Address
  amount : UInt64
  time : UInt64
  deriving DecidableEq

def Begun.pair (b : Begun) : Address × Address := (b.staker, b.validator)

/-- A return of this amount to this staker at this time answers the unstake. -/
def Begun.answeredBy (b : Begun) (period : UInt64) (pair : Address × Address)
    (amount now : UInt64) : Bool :=
  b.pair = pair ∧ b.amount = amount ∧ b.time.toNat + period.toNat ≤ now.toNat

/-- The outstanding unstakes after one more event. -/
def settle (period : UInt64) (waiting : List Begun) : StakeEvent → List Begun
  | .deposited .. => waiting
  | .begun staker validator amount time => waiting ++ [⟨staker, validator, amount, time⟩]
  | .returned staker validator amount time =>
    waiting.eraseP fun b => b.answeredBy period (staker, validator) amount time

/-- What was begun and not yet returned. -/
def outstanding (period : UInt64) (events : List StakeEvent) : List Begun :=
  events.foldl (settle period) []

/-- Every return answers an unstake that is outstanding at the time. -/
def Answered (period : UInt64) (events : List StakeEvent) : Prop :=
  ∀ pre staker validator amount time, pre ++ [.returned staker validator amount time] <+: events →
    ∃ b ∈ outstanding period pre, b.answeredBy period (staker, validator) amount time = true

/-- The amount an event hands back. -/
def StakeEvent.handed : StakeEvent → Nat
  | returned _ _ amount _ => amount.toNat
  | deposited .. | begun .. => 0

/-- All that was returned. -/
def returns (events : List StakeEvent) : Nat := (events.map StakeEvent.handed).sum

/-- What one staker deposited with one validator. -/
def depositedBy (pair : Address × Address) (events : List StakeEvent) : Nat :=
  sumAt StakeEvent.pair StakeEvent.deposit pair events

/-- What was returned of it. -/
def returnedTo (pair : Address × Address) (events : List StakeEvent) : Nat :=
  sumAt StakeEvent.pair StakeEvent.handed pair events

/-- What of it waits. -/
def waitingFor (pair : Address × Address) (waiting : List Begun) : Nat :=
  sumAt Begun.pair (fun b => b.amount.toNat) pair waiting

/-- **The books.** -/
structure Conserved (period : UInt64) (r : StakingRegistry) (events : List StakeEvent) : Prop where
  ledger : ∀ pair : Address × Address, depositedBy pair events
    = r.amountAt pair.1 pair.2 + waitingFor pair (outstanding period events)
      + returnedTo pair events
  answered : Answered period events
  /-- Whoever waits stands in the queue, under the time promised. -/
  queued : ∀ b ∈ outstanding period events,
    b.pair ∈ (r.unbondingQueue.lookup (b.time + period)).getD []
  total : r.totalStaked.toNat + returns events = deposits events

/-! ## One event -/

section Events

variable {period now amount : UInt64} {r r' : StakingRegistry} {events : List StakeEvent}
  {e : StakeEvent} {staker validator : Address} {pair : Address × Address}

theorem outstanding_snoc :
    outstanding period (events ++ [e]) = settle period (outstanding period events) e := by
  rw [outstanding, List.foldl_append]
  rfl

theorem returns_snoc : returns (events ++ [e]) = returns events + e.handed := by
  rw [returns, List.map_append, List.sum_append]
  rfl

theorem deposits_snoc : deposits (events ++ [e]) = deposits events + e.deposit :=
  deposits_append events [e]

/-- Only a deposit adds to what was deposited. -/
theorem depositedBy_deposited : depositedBy pair (events ++ [.deposited staker validator amount])
    = depositedBy pair events + if (staker, validator) = pair then amount.toNat else 0 :=
  sumAt_snoc ..

theorem depositedBy_of_deposit (he : e.deposit = 0) :
    depositedBy pair (events ++ [e]) = depositedBy pair events := by
  rw [depositedBy, sumAt_snoc, he, ite_self]
  rfl

/-- Only a return adds to what was returned. -/
theorem returnedTo_returned : returnedTo pair (events ++ [.returned staker validator amount now])
    = returnedTo pair events + if (staker, validator) = pair then amount.toNat else 0 :=
  sumAt_snoc ..

theorem returnedTo_of_handed (he : e.handed = 0) :
    returnedTo pair (events ++ [e]) = returnedTo pair events := by
  rw [returnedTo, sumAt_snoc, he, ite_self]
  rfl

theorem waitingFor_snoc {waiting : List Begun} :
    waitingFor pair (waiting ++ [⟨staker, validator, amount, now⟩])
      = waitingFor pair waiting + if (staker, validator) = pair then amount.toNat else 0 :=
  sumAt_snoc ..

/-- The amount of a pair that is not written. -/
theorem amountAt_of_ne (hm : StakingRegistry.Moves r r' staker validator)
    (hne : (staker, validator) ≠ pair) : r'.amountAt pair.1 pair.2 = r.amountAt pair.1 pair.2 :=
  hm.amountAt fun he => hne (Prod.ext he.1.symm he.2.symm)

/-- An event that returns nothing asks for no answer. -/
theorem answered_snoc (h : Answered period events)
    (he : ∀ staker validator amount time, e = .returned staker validator amount time →
      ∃ b ∈ outstanding period events, b.answeredBy period (staker, validator) amount time = true) :
    Answered period (events ++ [e]) := by
  intro pre staker validator amount time hpre
  rcases List.prefix_concat_iff.mp hpre with heq | hpre
  · obtain ⟨rfl, hlast⟩ := List.append_inj_left' heq rfl, List.append_inj_right' heq rfl
    exact he staker validator amount time (List.cons.inj hlast).1.symm
  · exact h pre staker validator amount time hpre

/-- What one account has, all together have: the total covers it. -/
theorem Conserved.covers (h : Conserved period r events) (pair : Address × Address) :
    r.amountAt pair.1 pair.2 + waitingFor pair (outstanding period events)
      ≤ r.totalStaked.toNat := by
  have hle := sum_add_le StakeEvent.pair StakeEvent.deposit StakeEvent.handed h.ledger pair
  have htotal := h.total
  rw [returns, deposits] at htotal
  omega

/-- A deposit is booked right exactly when the running total can hold it. -/
theorem conserved_deposit (h : Conserved period r events)
    (hm : StakingRegistry.Moves r r' staker validator)
    (hamount : r.amountAt staker validator + amount.toNat < 2 ^ 64 →
      r'.amountAt staker validator = r.amountAt staker validator + amount.toNat)
    (htotal : r'.totalStaked = r.totalStaked + amount)
    (hqueue : r'.unbondingQueue = r.unbondingQueue) :
    Conserved period r' (events ++ [.deposited staker validator amount]) ↔
      r.totalStaked.toNat + amount.toNat < 2 ^ 64 := by
  have hold := h.total
  constructor
  · intro h'
    have hnew := h'.total
    rw [htotal, returns_snoc, deposits_snoc, UInt64.toNat_add] at hnew
    have hmod := Nat.mod_lt (r.totalStaked.toNat + amount.toNat) (show 0 < 2 ^ 64 by decide)
    simp only [StakeEvent.handed, StakeEvent.deposit] at hnew
    omega
  · intro hfits
    have hcovers := h.covers (staker, validator)
    have hrec := hamount (by dsimp only at hcovers; omega)
    refine ⟨?_, answered_snoc h.answered nofun, ?_, ?_⟩
    · intro pair
      have hledger := h.ledger pair
      rw [depositedBy_deposited, outstanding_snoc, returnedTo_of_handed rfl]
      show _ = _ + waitingFor pair (outstanding period events) + _
      by_cases hpair : (staker, validator) = pair
      · subst hpair
        dsimp only at hledger ⊢
        rw [if_pos rfl, hrec]
        omega
      · rw [if_neg hpair, amountAt_of_ne hm hpair]
        exact hledger
    · rw [outstanding_snoc, hqueue]
      exact h.queued
    · rw [htotal, returns_snoc, deposits_snoc, toNat_add_of_lt hfits]
      simp only [StakeEvent.handed, StakeEvent.deposit]
      omega

/-- Beginning an unstake books the amount from the record to what waits. -/
theorem conserved_begin (h : Conserved period r events)
    (hm : StakingRegistry.Moves r r' staker validator)
    (hamount : r'.amountAt staker validator + amount.toNat = r.amountAt staker validator)
    (htotal : r'.totalStaked = r.totalStaked)
    (hqueue : r'.unbondingQueue = r.unbondingQueue.insert (now + period)
      ((r.unbondingQueue.lookup (now + period)).getD [] ++ [(staker, validator)])) :
    Conserved period r' (events ++ [.begun staker validator amount now]) := by
  have hwaiting : outstanding period (events ++ [.begun staker validator amount now])
      = outstanding period events ++ [⟨staker, validator, amount, now⟩] := outstanding_snoc
  refine ⟨?_, answered_snoc h.answered nofun, ?_, ?_⟩
  · intro pair
    have hledger := h.ledger pair
    rw [depositedBy_of_deposit rfl, hwaiting, waitingFor_snoc, returnedTo_of_handed rfl]
    by_cases hpair : (staker, validator) = pair
    · subst hpair
      dsimp only at hledger ⊢
      rw [if_pos rfl]
      omega
    · rw [if_neg hpair, amountAt_of_ne hm hpair]
      exact hledger
  · -- the queue only grows
    intro b hb
    rw [hwaiting, List.mem_append, List.mem_singleton] at hb
    rw [hqueue]
    rcases hb with hb | rfl
    · have hold := h.queued b hb
      by_cases htime : b.time + period = now + period
      · rw [htime] at hold
        rw [htime, Finmap.lookup_insert]
        exact List.mem_append_left _ hold
      · rw [Finmap.lookup_insert_of_ne _ htime]
        exact hold
    · rw [Finmap.lookup_insert]
      exact List.mem_append_right _ (List.mem_singleton_self _)
  · rw [htotal, returns_snoc, deposits_snoc]
    exact h.total

/-- A return is booked right exactly when it answers an outstanding unstake. -/
theorem conserved_return (h : Conserved period r events)
    (hok : r.completeUnbonding now staker validator = .ok (r', amount)) :
    Conserved period r' (events ++ [.returned staker validator amount now]) ↔
      ∃ b ∈ outstanding period events,
        b.answeredBy period (staker, validator) amount now = true := by
  constructor
  · intro h'
    exact h'.answered events staker validator amount now List.prefix_rfl
  · intro hanswer
    obtain ⟨_, _, _, hqueue, _⟩ := StakingRegistry.complete_moves hok
    have hamounts := StakingRegistry.amountAt_complete hok
    obtain ⟨stake, _, rfl, hr'⟩ := StakingRegistry.complete_ok_iff.mp hok
    -- one entry leaves the list, of this staker and of this amount
    have hwaiting : ∀ pair, waitingFor pair
        (outstanding period (events ++ [.returned staker validator stake.amount now]))
          + (if (staker, validator) = pair then stake.amount.toNat else 0)
        = waitingFor pair (outstanding period events) := by
      intro pair
      rw [outstanding_snoc]
      obtain ⟨b, hb, hsum⟩ :=
        sumAt_eraseP Begun.pair (fun b => b.amount.toNat) hanswer pair
      obtain ⟨hpair, hamount, _⟩ := of_decide_eq_true hb
      rw [hpair, hamount] at hsum
      exact hsum
    have hcovers := h.covers (staker, validator)
    have hone := hwaiting (staker, validator)
    rw [if_pos rfl] at hone
    refine ⟨?_, answered_snoc h.answered ?_, ?_, ?_⟩
    · intro pair
      have hledger := h.ledger pair
      have hpair := hwaiting pair
      rw [depositedBy_of_deposit rfl, returnedTo_returned, hamounts]
      omega
    · intro s v a t heq
      cases heq
      exact hanswer
    · intro b hb
      rw [hqueue]
      rw [outstanding_snoc] at hb
      exact h.queued b (List.mem_of_mem_eraseP hb)
    · have htotal : r'.totalStaked = r.totalStaked - stake.amount := by rw [hr']
      have hold := h.total
      rw [htotal, returns_snoc, deposits_snoc, toNat_sub_of_le (by omega)]
      show _ + (_ + stake.amount.toNat) = _ + 0
      omega

end Events

/-! ## One call -/

section Calls

variable {period now : UInt64} {r r' : StakingRegistry} {events : List StakeEvent}
  {entry : Address × Address} {entries order : List (Address × Address)}

/-- If the stake has waited out its time, what its record holds answers an
outstanding unstake. -/
def Settles (period now : UInt64) (books : StakingRegistry × List StakeEvent)
    (entry : Address × Address) : Prop :=
  ∀ stake, books.1.Matured now entry.1 entry.2 stake →
    ∃ b ∈ outstanding period books.2, b.answeredBy period entry stake.amount now = true

/-- One try to complete an entry, and its event. -/
def attempt (now : UInt64) (books : StakingRegistry × List StakeEvent)
    (entry : Address × Address) : StakingRegistry × List StakeEvent :=
  match books.1.completeUnbonding now entry.1 entry.2 with
  | .ok (r, amount) => (r, books.2 ++ [.returned entry.1 entry.2 amount now])
  | .error _ => books

/-- The entries of the queue, tried one after the other. -/
def attempts (now : UInt64) (books : StakingRegistry × List StakeEvent)
    (entries : List (Address × Address)) : StakingRegistry × List StakeEvent :=
  entries.foldl (attempt now) books

theorem attempts_snoc {books : StakingRegistry × List StakeEvent} :
    attempts now books (entries ++ [entry]) = attempt now (attempts now books entries) entry := by
  rw [attempts, List.foldl_append]
  rfl

theorem conserved_attempt (h : Conserved period r events) :
    Conserved period (attempt now (r, events) entry).1 (attempt now (r, events) entry).2 ↔
      Settles period now (r, events) entry := by
  unfold attempt
  cases hcall : r.completeUnbonding now entry.1 entry.2 with
  | ok result =>
    obtain ⟨stake, hmatured, hamount, _⟩ := StakingRegistry.complete_ok_iff.mp hcall
    refine (conserved_return h hcall).trans ?_
    rw [hamount]
    constructor
    · intro hanswer stake' hmatured'
      cases hmatured.1.symm.trans hmatured'.1
      exact hanswer
    · exact fun hsettles => hsettles stake hmatured
  | error e =>
    refine iff_of_true h fun stake hmatured => ?_
    have hok : r.completeUnbonding now entry.1 entry.2 = .ok _ :=
      StakingRegistry.complete_ok_iff.mpr ⟨stake, hmatured, rfl, rfl⟩
    rw [hcall] at hok
    cases hok

/-- The events of the queue's pass are those of the attempts. -/
theorem attempts_eq (now : UInt64) (events : List StakeEvent) : ∀ (entries : List (Address × Address))
    (acc : StakingRegistry × List (Address × Address × UInt64)),
    attempts now (acc.1, events ++ acc.2.map fun (s, v, a) => .returned s v a now) entries =
      ((entries.foldl (StakingRegistry.completeEntry now) acc).1,
        events ++ (entries.foldl (StakingRegistry.completeEntry now) acc).2.map
          fun (s, v, a) => .returned s v a now)
  | [], _ => rfl
  | entry :: entries, acc => by
    rw [List.foldl_cons, ← attempts_eq now events entries, attempts, List.foldl_cons]
    refine congrArg (fun books => List.foldl (attempt now) books entries) ?_
    unfold attempt StakingRegistry.completeEntry
    cases acc.1.completeUnbonding now entry.1 entry.2 with
    | ok result =>
      show (result.1, _ ++ [_]) = (result.1, events ++ List.map _ (acc.2 ++ [_]))
      rw [List.map_append, ← List.append_assoc]
      rfl
    | error e => rfl

/-- Tried one after the other, all are booked right exactly when each is. -/
theorem conserved_attempts (h : Conserved period r events) :
    (∀ pre, pre <+: entries → Conserved period (attempts now (r, events) pre).1
        (attempts now (r, events) pre).2) ↔
      ∀ pre entry, pre ++ [entry] <+: entries →
        Settles period now (attempts now (r, events) pre) entry := by
  refine forall_prefixes_iff h fun pre entry _ hpre => ?_
  rw [attempts_snoc]
  exact conserved_attempt hpre

/-- What was recorded is not taken back. -/
theorem attempts_events (now : UInt64) (books : StakingRegistry × List StakeEvent) :
    ∀ pre post, pre ++ post = entries →
      (attempts now books pre).2 <+: (attempts now books entries).2 := by
  intro pre post hsplit
  subst hsplit
  induction post using List.reverseRecOn with
  | nil => rw [List.append_nil]
  | append_singleton post entry ih =>
    refine ih.trans ?_
    rw [← List.append_assoc, attempts_snoc]
    unfold attempt
    split
    · exact List.prefix_append _ _
    · exact List.prefix_rfl

/-- Where all returns are answered, each attempt settles. -/
theorem settles_of_answered {books : StakingRegistry × List StakeEvent}
    {pre : List (Address × Address)} (h : Answered period (attempts now books entries).2)
    (hpre : pre ++ [entry] <+: entries) : Settles period now (attempts now books pre) entry := by
  intro stake hmatured
  obtain ⟨post, hpost⟩ := hpre
  have hevents := attempts_events now books (pre ++ [entry]) post hpost
  have hok : (attempts now books pre).1.completeUnbonding now entry.1 entry.2 = .ok _ :=
    StakingRegistry.complete_ok_iff.mpr ⟨stake, hmatured, rfl, rfl⟩
  rw [attempts_snoc, attempt, hok] at hevents
  exact h _ entry.1 entry.2 stake.amount now hevents

/-- Dropping times from the queue is right exactly when nobody waits under them. -/
theorem conserved_removeTimes {times : List UInt64} :
    Conserved period { r with
      unbondingQueue := StakingRegistry.removeTimes r.unbondingQueue times } events ↔
    Conserved period r events ∧ ∀ b ∈ outstanding period events, b.time + period ∉ times := by
  constructor
  · intro h
    have hqueued : ∀ b ∈ outstanding period events, b.time + period ∉ times ∧
        b.pair ∈ (r.unbondingQueue.lookup (b.time + period)).getD [] := by
      intro b hb
      have hb' := h.queued b hb
      rw [StakingRegistry.lookup_removeTimes] at hb'
      split at hb'
      · cases hb'
      · next hnot => exact ⟨hnot, hb'⟩
    exact ⟨⟨h.ledger, h.answered, fun b hb => (hqueued b hb).2, h.total⟩,
      fun b hb => (hqueued b hb).1⟩
  · rintro ⟨h, htimes⟩
    refine ⟨h.ledger, h.answered, fun b hb => ?_, h.total⟩
    rw [StakingRegistry.lookup_removeTimes, if_neg (htimes b hb)]
    exact h.queued b hb

/-- A pass over the queue drops nobody who still waits. -/
def DropsNone (period now : UInt64) (order : List UInt64) (waiting : List Begun) : Prop :=
  ∀ b ∈ waiting, b.time + period ∈ order → now < b.time + period

theorem conserved_process {order : List UInt64} (h : Conserved period r events) :
    Conserved period (r.processUnbondingQueue now order).1
        (events ++ (r.processUnbondingQueue now order).2.map
          fun (s, v, a) => .returned s v a now) ↔
      (∀ pre entry, pre ++ [entry] <+: r.dueEntries now order →
        Settles period now (attempts now (r, events) pre) entry) ∧
      DropsNone period now order
        (outstanding period (attempts now (r, events) (r.dueEntries now order)).2) := by
  have heq := attempts_eq now events (r.dueEntries now order) (r, [])
  rw [List.map_nil, List.append_nil] at heq
  have hfinal : Conserved period (r.processUnbondingQueue now order).1
        (events ++ (r.processUnbondingQueue now order).2.map fun (s, v, a) => .returned s v a now) ↔
      Conserved period (attempts now (r, events) (r.dueEntries now order)).1
          (attempts now (r, events) (r.dueEntries now order)).2 ∧
        DropsNone period now order
          (outstanding period (attempts now (r, events) (r.dueEntries now order)).2) := by
    rw [heq]
    refine conserved_removeTimes.trans (and_congr_right fun _ => ?_)
    refine forall_congr' fun b => imp_congr_right fun _ => ?_
    rw [List.mem_filter, decide_eq_true_eq, not_and, UInt64.not_le]
  rw [hfinal]
  refine and_congr_left fun _ => ?_
  constructor
  · intro hdone pre entry hpre
    exact settles_of_answered hdone.answered hpre
  · intro hsettles
    exact (conserved_attempts h).mpr hsettles _ List.prefix_rfl

end Calls

/-! ## Runs -/

namespace RegistryOp

open StakingRegistry

variable {period : UInt64} {r : StakingRegistry} {events' : List StakeEvent} {op : RegistryOp}

/-- The call leaves the books right: a deposit that is taken fits into the total, a
completion answers an outstanding unstake, and the queue drops none. -/
def BooksRight (period : UInt64) (r : StakingRegistry) (past : List StakeEvent) :
    RegistryOp → Prop
  | register now address operator pubkey initialStake commissionBps description =>
    ∀ r', r.registerValidator now address operator pubkey initialStake commissionBps description
      = .ok r' → r.totalStaked.toNat + initialStake.toNat < 2 ^ 64
  | delegate _ _ validatorAddr amount =>
    r.Delegable validatorAddr amount → r.totalStaked.toNat + amount.toNat < 2 ^ 64
  | completeUnbonding now staker validatorAddr =>
    Settles period now (r, past) (staker, validatorAddr)
  | processQueue now order =>
    (∀ pre entry, pre ++ [entry] <+: r.dueEntries now order →
      Settles period now (attempts now (r, past) pre) entry) ∧
    DropsNone period now order
      (outstanding period (attempts now (r, past) (r.dueEntries now order)).2)
  | activate _ | beginUnstake .. => True

/-- **One call** on right books leaves them right exactly when `BooksRight` says so. -/
theorem conserved_apply (hknown : Known r) (hperiod : r.config.unbondingPeriodSecs = period)
    {past : List StakeEvent} (h : Conserved period r past) :
    Conserved period (apply r op) (past ++ events r op) ↔ op.BooksRight period r past := by
  cases op with
  | register now address operator pubkey initialStake commissionBps description =>
    rw [BooksRight, apply, events]
    cases hcall : r.registerValidator now address operator pubkey initialStake commissionBps
      description with
    | ok r' =>
      obtain ⟨hnew, _, hstakes, _, htotal, hqueue⟩ := register_ok hcall
      refine (conserved_deposit h ((moves_putStake r address address _).congr hstakes) ?_ htotal
        hqueue).trans ?_
      · intro _
        rw [hknown.amountAt_of_notMem hnew, Nat.zero_add]
        exact amountAt_put hstakes
      · exact ⟨fun hfits _ _ => hfits, fun hfits => hfits r' rfl⟩
    | error e =>
      refine iff_of_true (by rwa [List.append_nil]) fun r' hok => ?_
      cases hok
  | activate address =>
    rw [BooksRight, apply, events, List.append_nil]
    split
    · next r' hok =>
      obtain ⟨val, hval, rfl⟩ := activate_ok hok
      exact iff_of_true ⟨h.ledger, h.answered, h.queued, h.total⟩ trivial
    · exact iff_of_true h trivial
  | delegate now delegator validatorAddr amount =>
    rw [BooksRight, apply, events]
    cases hcall : r.delegate now delegator validatorAddr amount with
    | ok r' =>
      obtain ⟨hdel, _, hstakes, _, htotal, hqueue⟩ := delegate_ok hcall
      refine (conserved_deposit h ((moves_putStake r delegator validatorAddr _).congr hstakes) ?_
        htotal hqueue).trans ?_
      · intro hfits
        rw [amountAt_put hstakes]
        exact delegatedStake_amount hfits
      · exact ⟨fun hfits _ => hfits, fun hfits => hfits hdel⟩
    | error e =>
      refine iff_of_true (by rwa [List.append_nil]) fun hdel => ?_
      obtain ⟨r', hok⟩ := delegate_of_delegable hdel now delegator
      rw [hcall] at hok
      cases hok
  | beginUnstake now staker validatorAddr amount =>
    rw [BooksRight, apply, events]
    cases hcall : r.beginUnstake now staker validatorAddr amount with
    | ok result =>
      obtain ⟨stake, hstake, _, hle, _, hstakes, _, htotal, hqueue⟩ := begin_ok hcall
      rw [hperiod] at hqueue
      refine iff_of_true (conserved_begin h
        ((moves_putStake r staker validatorAddr _).congr hstakes) ?_ htotal hqueue) trivial
      have hle' := UInt64.le_iff_toNat_le.mp hle
      rw [amountAt_put hstakes, unstaked_amount, toNat_saturatingSub, amountAt_of_getStake hstake]
      omega
    | error e => exact iff_of_true (by rwa [List.append_nil]) trivial
  | completeUnbonding now staker validatorAddr =>
    rw [BooksRight, ← conserved_attempt h, apply, events, attempt]
    cases hcall : r.completeUnbonding now staker validatorAddr with
    | ok result => exact Iff.rfl
    | error e => rw [List.append_nil]
  | processQueue now order => exact conserved_process h

/-- **Conservation of stake.** From an empty registry of any configuration, the books
are right after every call of a run exactly when every call leaves them right. -/
theorem conserved_iff (config : StakingConfig) (ops : List RegistryOp) :
    (∀ pre, pre <+: ops → Conserved config.unbondingPeriodSecs
        (run (StakingRegistry.new config) pre) (history (StakingRegistry.new config) pre)) ↔
      ∀ pre op, pre ++ [op] <+: ops → op.BooksRight config.unbondingPeriodSecs
        (run (StakingRegistry.new config) pre) (history (StakingRegistry.new config) pre) := by
  refine forall_prefixes_iff ⟨fun _ => rfl, ?_, nofun, rfl⟩ fun pre op _ h => ?_
  · intro pre staker validator amount time hpre
    exact absurd (List.prefix_nil.mp hpre)
      (List.append_ne_nil_of_right_ne_nil _ (List.cons_ne_nil _ _))
  · rw [run_snoc, history_snoc]
    exact conserved_apply (known_run config pre) (by rw [config_run]) h

/-- A delegator takes all of 100 out and comes back after seven days. -/
def unstakeAll : List RegistryOp :=
  [.register 0 (testAddress 1) (testAddress 1) (Vector.replicate 32 0) MIN_VALIDATOR_STAKE 500
      "Test Validator",
   .delegate 10 (testAddress 2) (testAddress 1) MIN_DELEGATION_STAKE,
   .beginUnstake 20 (testAddress 2) (testAddress 1) MIN_DELEGATION_STAKE,
   .completeUnbonding (20 + UNBONDING_PERIOD_SECS) (testAddress 2) (testAddress 1)]

/-- It is handed nothing, its record is gone, and the total still has its stake. -/
theorem unstake_returns_nothing :
    let start := StakingRegistry.new StakingConfig.default
    history start unstakeAll =
        [.deposited (testAddress 1) (testAddress 1) MIN_VALIDATOR_STAKE,
         .deposited (testAddress 2) (testAddress 1) MIN_DELEGATION_STAKE,
         .begun (testAddress 2) (testAddress 1) MIN_DELEGATION_STAKE 20,
         .returned (testAddress 2) (testAddress 1) 0 (20 + UNBONDING_PERIOD_SECS)] ∧
      (run start unstakeAll).getStake (testAddress 2) (testAddress 1) = none ∧
      (run start unstakeAll).totalStaked = MIN_VALIDATOR_STAKE + MIN_DELEGATION_STAKE ∧
      ¬ Conserved UNBONDING_PERIOD_SECS (run start unstakeAll) (history start unstakeAll) := by
  refine ⟨by decide +kernel, by decide +kernel, by decide +kernel, fun h => ?_⟩
  have hnone : ¬ ∃ b ∈ outstanding UNBONDING_PERIOD_SECS
      ((history (StakingRegistry.new StakingConfig.default) unstakeAll).take 3),
      b.answeredBy UNBONDING_PERIOD_SECS (testAddress 2, testAddress 1) 0
        (20 + UNBONDING_PERIOD_SECS) = true := by
    decide +kernel
  exact hnone (h.answered _ _ _ _ _ (by decide +kernel))

end RegistryOp

end Pyrax.Staking
