import Mathlib.Algebra.Order.Ring.Nat
import Pyrax.Base.Run
import Pyrax.Base.Word
import Pyrax.Types.Transaction

/-!
# Atomic swaps

The swap of `pyrax-node/src/bridge/cross_model_tx.rs`: an initiator and a
counterparty lock funds under the hash of a secret. The initiator reveals the secret
and claims; with the secret the counterparty claims. If the swap stalls, it can be
refunded after a deadline, the counterparty's half as far away as the initiator's.

What the states promise holds (`Steps`): claimed and refunded exclude each other, the
counterparty claims after a reveal only, and the final states are final. Two things
do not. Nothing records the initiator's lock, so every secret that is revealed is
revealed without it. And half of one hour is no hour: the counterparty's deadline is
then the moment of creation. `swapSafe_iff`: there is nothing else.

Every reading of the clock is an argument; no order among them is needed.
-/

namespace Pyrax.Bridge

open Base Word

inductive AddressType where
  | utxo
  | evm
  | unified
  deriving DecidableEq

structure UnifiedAddress where
  addressType : AddressType
  network : UInt8
  bytes : Vector UInt8 20
  checksum : Vector UInt8 4
  deriving DecidableEq

inductive SwapState where
  | initiated
  | accepted
  | revealed
  | completed
  | refunded
  | cancelled
  deriving DecidableEq

structure AtomicSwap where
  id : H256
  state : SwapState
  initiator : UnifiedAddress
  counterparty : UnifiedAddress
  initiatorGivesUtxo : Bool
  initiatorAmount : UInt64
  counterpartyAmount : UInt64
  hashLock : Vector UInt8 32
  secret : Option (Vector UInt8 32)
  initiatorTimelock : UInt64
  counterpartyTimelock : UInt64
  initiatorLockTx : Option H256
  counterpartyLockTx : Option H256
  initiatorClaimTx : Option H256
  counterpartyClaimTx : Option H256
  createdAt : UInt64
  expiresAt : UInt64
  deriving DecidableEq

namespace AtomicSwap

def hashSecret (C : Crypto) (secret : Vector UInt8 32) : Vector UInt8 32 :=
  (C.blake3 secret.toList).bytes

def generateId (C : Crypto) (idAt : UInt64) (initiator counterparty : UnifiedAddress)
    (hashLock : Vector UInt8 32) : H256 :=
  C.blake3 (initiator.bytes.toList ++ counterparty.bytes.toList ++ hashLock.toList ++
    toBeBytes idAt)

/-- `new`, with the clock read for the deadlines and again for the id. -/
def new (C : Crypto) (now idAt : UInt64) (initiator counterparty : UnifiedAddress)
    (initiatorGivesUtxo : Bool) (initiatorAmount counterpartyAmount : UInt64)
    (secret : Vector UInt8 32) (timelockHours : UInt64) : AtomicSwap :=
  let hashLock := hashSecret C secret
  { id := generateId C idAt initiator counterparty hashLock
    state := .initiated
    initiator := initiator
    counterparty := counterparty
    initiatorGivesUtxo := initiatorGivesUtxo
    initiatorAmount := initiatorAmount
    counterpartyAmount := counterpartyAmount
    hashLock := hashLock
    secret := some secret
    initiatorTimelock := now + timelockHours * 3600
    counterpartyTimelock := now + timelockHours / 2 * 3600
    initiatorLockTx := none
    counterpartyLockTx := none
    initiatorClaimTx := none
    counterpartyClaimTx := none
    createdAt := now
    expiresAt := now + timelockHours * 3600 }

def verifySecret (C : Crypto) (s : AtomicSwap) (secret : Vector UInt8 32) : Bool :=
  hashSecret C secret = s.hashLock

def accept (s : AtomicSwap) (lockTx : H256) : AtomicSwap :=
  if s.state = .initiated then { s with counterpartyLockTx := some lockTx, state := .accepted }
  else s

/-- `reveal`, with its answer. -/
def reveal (C : Crypto) (s : AtomicSwap) (secret : Vector UInt8 32) (claimTx : H256) :
    AtomicSwap × Bool :=
  if s.state ≠ .accepted then (s, false)
  else if ¬ s.verifySecret C secret then (s, false)
  else ({ s with
    secret := some secret
    initiatorClaimTx := some claimTx
    state := .revealed }, true)

def complete (s : AtomicSwap) (claimTx : H256) : AtomicSwap :=
  if s.state = .revealed then { s with counterpartyClaimTx := some claimTx, state := .completed }
  else s

def canRefund (s : AtomicSwap) (now : UInt64) : Bool :=
  match s.state with
  | .initiated => s.initiatorTimelock < now
  | .accepted => s.counterpartyTimelock < now
  | .revealed | .completed | .refunded | .cancelled => false

def refund (s : AtomicSwap) (now : UInt64) : AtomicSwap :=
  if s.canRefund now then { s with state := .refunded } else s

end AtomicSwap

/-- A call on a swap. -/
inductive SwapOp where
  | accept (lockTx : H256)
  | reveal (secret : Vector UInt8 32) (claimTx : H256)
  | complete (claimTx : H256)
  | refund (now : UInt64)

namespace SwapOp

open AtomicSwap

def apply (C : Crypto) (s : AtomicSwap) : SwapOp → AtomicSwap
  | accept lockTx => s.accept lockTx
  | reveal secret claimTx => (s.reveal C secret claimTx).1
  | complete claimTx => s.complete claimTx
  | refund now => s.refund now

def run (C : Crypto) (s : AtomicSwap) (ops : List SwapOp) : AtomicSwap := ops.foldl (apply C) s

theorem run_snoc (C : Crypto) (s : AtomicSwap) (ops : List SwapOp) (op : SwapOp) :
    run C s (ops ++ [op]) = op.apply C (run C s ops) :=
  List.foldl_concat ..

theorem run_append (C : Crypto) (s : AtomicSwap) (pre post : List SwapOp) :
    run C s (pre ++ post) = run C (run C s pre) post :=
  List.foldl_append ..

/-- What a swap should keep along a run from `s`. -/
structure SwapSafe (C : Crypto) (s : AtomicSwap) (ops : List SwapOp) : Prop where
  /-- Claimed at one time and refunded at another is excluded. -/
  exclusive : ∀ pre pre', pre <+: ops → pre' <+: ops →
    ¬ ((run C s pre).initiatorClaimTx.isSome ∧ (run C s pre').state = .refunded)
  /-- The counterparty claims after the secret was revealed. -/
  revealed : ∀ pre, pre <+: ops → (run C s pre).counterpartyClaimTx.isSome →
    ∃ earlier secret claimTx, earlier ++ [reveal secret claimTx] <+: pre ∧
      hashSecret C secret = s.hashLock
  final : ∀ pre post, pre ++ post <+: ops →
    (run C s pre).state = .completed ∨ (run C s pre).state = .refunded →
    (run C s (pre ++ post)).state = (run C s pre).state
  /-- Nothing is revealed before both have locked. -/
  locked : ∀ pre secret claimTx, pre ++ [reveal secret claimTx] <+: ops →
    ((run C s pre).reveal C secret claimTx).2 = true →
    (run C s pre).initiatorLockTx.isSome ∧ (run C s pre).counterpartyLockTx.isSome
  deadlines : s.createdAt < s.counterpartyTimelock ∧ s.counterpartyTimelock < s.initiatorTimelock

/-! ## One call -/

/-- What a call can do. -/
inductive Steps (C : Crypto) (s : AtomicSwap) : SwapOp → AtomicSwap → Prop where
  | idle (op : SwapOp) : Steps C s op s
  | accept (lockTx : H256) (h : s.state = .initiated) :
      Steps C s (.accept lockTx) { s with counterpartyLockTx := some lockTx, state := .accepted }
  | reveal (secret : Vector UInt8 32) (claimTx : H256) (h : s.state = .accepted)
      (hsecret : hashSecret C secret = s.hashLock) :
      Steps C s (.reveal secret claimTx)
        { s with secret := some secret, initiatorClaimTx := some claimTx, state := .revealed }
  | complete (claimTx : H256) (h : s.state = .revealed) :
      Steps C s (.complete claimTx)
        { s with counterpartyClaimTx := some claimTx, state := .completed }
  | refund (now : UInt64) (h : s.state = .initiated ∨ s.state = .accepted) :
      Steps C s (.refund now) { s with state := .refunded }

theorem steps_apply (C : Crypto) (s : AtomicSwap) (op : SwapOp) : Steps C s op (op.apply C s) := by
  cases op with
  | accept lockTx =>
    show Steps C s _ (s.accept lockTx)
    unfold AtomicSwap.accept
    split
    · next h => exact .accept lockTx h
    · exact .idle _
  | reveal secret claimTx =>
    show Steps C s _ (s.reveal C secret claimTx).1
    unfold AtomicSwap.reveal
    split
    · exact .idle _
    next hstate =>
    split
    · exact .idle _
    next hsecret =>
    exact .reveal secret claimTx (not_not.mp hstate) (of_decide_eq_true (not_not.mp hsecret))
  | complete claimTx =>
    show Steps C s _ (s.complete claimTx)
    unfold AtomicSwap.complete
    split
    · next h => exact .complete claimTx h
    · exact .idle _
  | refund now =>
    show Steps C s _ (s.refund now)
    unfold AtomicSwap.refund
    split
    · next hrefund =>
      refine .refund now ?_
      unfold canRefund at hrefund
      split at hrefund
      · next h => exact .inl h
      · next h => exact .inr h
      all_goals cases hrefund
    · exact .idle _

/-- A reveal succeeds on an accepted swap, with the secret. -/
theorem reveal_iff {C : Crypto} {s : AtomicSwap} {secret : Vector UInt8 32} {claimTx : H256} :
    (s.reveal C secret claimTx).2 = true ↔
      s.state = .accepted ∧ s.verifySecret C secret = true := by
  unfold AtomicSwap.reveal
  by_cases hstate : s.state = .accepted
  · rw [if_neg (not_not.mpr hstate)]
    by_cases hsecret : s.verifySecret C secret = true
    · rw [if_neg (not_not.mpr hsecret)]
      exact iff_of_true rfl ⟨hstate, hsecret⟩
    · rw [if_pos hsecret]
      exact iff_of_false nofun fun h => hsecret h.2
  · rw [if_pos hstate]
    exact iff_of_false nofun fun h => hstate h.1

/-! ## Runs -/

variable {C : Crypto} {s₀ : AtomicSwap} {ops pre : List SwapOp}

/-- What holds after every call: the states say who has claimed, and a claim of the
counterparty comes after a reveal. -/
structure Kept (C : Crypto) (s₀ : AtomicSwap) (pre : List SwapOp) : Prop where
  hashLock : (run C s₀ pre).hashLock = s₀.hashLock
  unlocked : (run C s₀ pre).initiatorLockTx = s₀.initiatorLockTx
  claimed : (run C s₀ pre).initiatorClaimTx.isSome →
    (run C s₀ pre).state = .revealed ∨ (run C s₀ pre).state = .completed
  shown : (run C s₀ pre).state = .revealed ∨ (run C s₀ pre).counterpartyClaimTx.isSome →
    ∃ earlier secret claimTx, earlier ++ [reveal secret claimTx] <+: pre ∧
      hashSecret C secret = s₀.hashLock

/-- A swap as it is made. -/
structure Fresh (s : AtomicSwap) : Prop where
  state : s.state = .initiated
  initiatorLockTx : s.initiatorLockTx = none
  initiatorClaimTx : s.initiatorClaimTx = none
  counterpartyClaimTx : s.counterpartyClaimTx = none

theorem kept_nil (h : Fresh s₀) : Kept C s₀ [] := by
  refine ⟨rfl, rfl, fun hclaimed => ?_, fun hshown => ?_⟩
  · have hnone : (run C s₀ []).initiatorClaimTx = none := h.initiatorClaimTx
    rw [hnone] at hclaimed
    cases hclaimed
  · have hstate : (run C s₀ []).state = .initiated := h.state
    have hnone : (run C s₀ []).counterpartyClaimTx = none := h.counterpartyClaimTx
    rw [hstate, hnone] at hshown
    rcases hshown with hshown | hshown
    · cases hshown
    · cases hshown

/-- Nobody has claimed from a swap that can be refunded. -/
theorem Kept.not_claimed (h : Kept C s₀ pre)
    (hstate : (run C s₀ pre).state = .initiated ∨ (run C s₀ pre).state = .accepted) :
    ¬ (run C s₀ pre).initiatorClaimTx.isSome := by
  intro hclaimed
  rcases h.claimed hclaimed with hlater | hlater
  · rw [hlater] at hstate
    rcases hstate with hbad | hbad
    · cases hbad
    · cases hbad
  · rw [hlater] at hstate
    rcases hstate with hbad | hbad
    · cases hbad
    · cases hbad

/-- One more call keeps it. -/
theorem Kept.snoc (h : Kept C s₀ pre) (op : SwapOp) : Kept C s₀ (pre ++ [op]) := by
  have hearlier : (run C s₀ pre).state = .revealed ∨ (run C s₀ pre).counterpartyClaimTx.isSome →
      ∃ earlier secret claimTx, earlier ++ [reveal secret claimTx] <+: pre ++ [op] ∧
        hashSecret C secret = s₀.hashLock := by
    intro hshown
    obtain ⟨earlier, secret, claimTx, hpre, hsecret⟩ := h.shown hshown
    exact ⟨earlier, secret, claimTx, hpre.trans (List.prefix_append _ _), hsecret⟩
  have hsteps := steps_apply C (run C s₀ pre) op
  rw [← run_snoc] at hsteps
  generalize hafter : run C s₀ (pre ++ [op]) = after at hsteps
  cases hsteps with
  | idle op =>
    exact ⟨hafter ▸ h.hashLock, hafter ▸ h.unlocked, hafter ▸ h.claimed, hafter ▸ hearlier⟩
  | accept lockTx hstate =>
    refine ⟨hafter ▸ h.hashLock, hafter ▸ h.unlocked, ?_, ?_⟩
    · rw [hafter]
      exact fun hsome => absurd hsome (h.not_claimed (.inl hstate))
    · rw [hafter]
      rintro (hbad | hsome)
      · cases hbad
      · exact hearlier (.inr hsome)
  | reveal secret claimTx hstate hsecret =>
    refine ⟨hafter ▸ h.hashLock, hafter ▸ h.unlocked, ?_, ?_⟩
    · rw [hafter]
      exact fun _ => .inl rfl
    · exact fun _ => ⟨pre, secret, claimTx, List.prefix_rfl, hsecret.trans h.hashLock⟩
  | complete claimTx hstate =>
    refine ⟨hafter ▸ h.hashLock, hafter ▸ h.unlocked, ?_, ?_⟩
    · rw [hafter]
      exact fun _ => .inr rfl
    · exact fun _ => hearlier (.inl hstate)
  | refund now hstate =>
    refine ⟨hafter ▸ h.hashLock, hafter ▸ h.unlocked, ?_, ?_⟩
    · rw [hafter]
      exact fun hsome => absurd hsome (h.not_claimed hstate)
    · rw [hafter]
      rintro (hbad | hsome)
      · cases hbad
      · exact hearlier (.inr hsome)

theorem kept_before (h : Fresh s₀) : ∀ pre, pre <+: ops → Kept C s₀ pre :=
  forall_prefixes (kept_nil h) fun _ l _ hkept => hkept.snoc l

/-- A claim of the initiator stays. -/
theorem claim_stays (C : Crypto) (s : AtomicSwap) (post : List SwapOp)
    (h : s.initiatorClaimTx.isSome) : (run C s post).initiatorClaimTx.isSome := by
  induction post using List.reverseRecOn with
  | nil => exact h
  | append_singleton post op ih =>
    have hsteps := steps_apply C (run C s post) op
    rw [← run_snoc] at hsteps
    generalize run C s (post ++ [op]) = after at hsteps
    cases hsteps with
    | idle _ => exact ih
    | accept _ _ => exact ih
    | reveal _ _ _ _ => rfl
    | complete _ _ => exact ih
    | refund _ _ => exact ih

/-- `Completed` and `Refunded` are never left. -/
theorem final_stays (C : Crypto) (s : AtomicSwap) (post : List SwapOp)
    (h : s.state = .completed ∨ s.state = .refunded) : (run C s post).state = s.state := by
  induction post using List.reverseRecOn with
  | nil => rfl
  | append_singleton post op ih =>
    have hsteps := steps_apply C (run C s post) op
    rw [← run_snoc] at hsteps
    generalize run C s (post ++ [op]) = after at hsteps
    rw [← ih] at h
    cases hsteps with
    | idle _ => exact ih
    | accept _ hstate => simp [hstate] at h
    | reveal _ _ hstate _ => simp [hstate] at h
    | complete _ hstate => simp [hstate] at h
    | refund _ hstate => rcases hstate with hstate | hstate <;> simp [hstate] at h

/-- A swap that is claimed at one time is refunded at no time. -/
theorem claim_or_refund (h : Fresh s₀) {pre' : List SwapOp} (hpre : pre <+: ops)
    (hpre' : pre' <+: ops) :
    ¬ ((run C s₀ pre).initiatorClaimTx.isSome ∧ (run C s₀ pre').state = .refunded) := by
  rintro ⟨hclaimed, hrefunded⟩
  -- at the later of the two moments it is both
  obtain ⟨last, hlast, hclaimed, hrefunded⟩ : ∃ last, last <+: ops ∧
      (run C s₀ last).initiatorClaimTx.isSome ∧ (run C s₀ last).state = .refunded := by
    rcases List.prefix_or_prefix_of_prefix hpre hpre' with ⟨post, hpost⟩ | ⟨post, hpost⟩
    · refine ⟨pre', hpre', ?_, hrefunded⟩
      rw [← hpost, run_append]
      exact claim_stays C _ post hclaimed
    · refine ⟨pre, hpre, hclaimed, ?_⟩
      rw [← hpost, run_append, final_stays C _ post (.inr hrefunded)]
      exact hrefunded
  rcases (kept_before h last hlast).claimed hclaimed with hbad | hbad
  · rw [hrefunded] at hbad
    cases hbad
  · rw [hrefunded] at hbad
    cases hbad

/-- A secret is revealed only while the lock of the initiator is missing. -/
theorem locked_iff (h : Fresh s₀) :
    (∀ pre secret claimTx, pre ++ [reveal secret claimTx] <+: ops →
      ((run C s₀ pre).reveal C secret claimTx).2 = true →
      (run C s₀ pre).initiatorLockTx.isSome ∧ (run C s₀ pre).counterpartyLockTx.isSome) ↔
    ∀ pre secret claimTx, pre ++ [reveal secret claimTx] <+: ops →
      ¬ ((run C s₀ pre).state = .accepted ∧ (run C s₀ pre).verifySecret C secret = true) := by
  refine forall_congr' fun pre => forall_congr' fun secret => forall_congr' fun claimTx =>
    forall_congr' fun hpre => ?_
  have hkept := kept_before (C := C) h pre ((List.prefix_append _ _).trans hpre)
  have hnone : (run C s₀ pre).initiatorLockTx = none := hkept.unlocked.trans h.initiatorLockTx
  rw [reveal_iff, hnone]
  simp only [Option.isSome_none, Bool.false_eq_true, false_and, imp_false]

/-! ## The deadlines -/

/-- The seconds of so many hours, on 64 bits. -/
def seconds (hours : Nat) : Nat := hours * 3600 % 2 ^ 64

/-- Half of the hours come to some seconds, all of them to more, and the clock can
show the last of them. -/
structure Timed (now timelockHours : UInt64) : Prop where
  half : 0 < seconds (timelockHours.toNat / 2)
  later : seconds (timelockHours.toNat / 2) < seconds timelockHours.toNat
  fits : now.toNat + seconds timelockHours.toNat < 2 ^ 64

/-- Adding a span to the clock goes forward exactly when it does not wrap. -/
theorem lt_add_iff {now span : UInt64} (x : Nat) (hx : now.toNat ≤ x) :
    x < (now + span).toNat ↔ x < now.toNat + span.toNat ∧ now.toNat + span.toNat < 2 ^ 64 := by
  have hnow := now.toNat_lt
  have hspan := span.toNat_lt
  rw [UInt64.toNat_add]
  omega

theorem deadlines_iff {now timelockHours : UInt64} :
    now < now + timelockHours / 2 * 3600 ∧
        now + timelockHours / 2 * 3600 < now + timelockHours * 3600 ↔
      Timed now timelockHours := by
  have hhalf : (timelockHours / 2 * 3600).toNat = seconds (timelockHours.toNat / 2) := by
    rw [UInt64.toNat_mul, UInt64.toNat_div]
    rfl
  have hfull : (timelockHours * 3600).toNat = seconds timelockHours.toNat := UInt64.toNat_mul ..
  rw [UInt64.lt_iff_toNat_lt, UInt64.lt_iff_toNat_lt, lt_add_iff _ le_rfl, hhalf]
  constructor
  · rintro ⟨⟨hpos, hlt⟩, hlater⟩
    have hsum : (now + timelockHours / 2 * 3600).toNat
        = now.toNat + seconds (timelockHours.toNat / 2) := by
      rw [toNat_add_of_lt (by rw [hhalf]; exact hlt), hhalf]
    rw [hsum, lt_add_iff _ (by omega), hfull] at hlater
    exact ⟨by omega, by omega, hlater.2⟩
  · rintro ⟨hpos, hlater, hfits⟩
    have hsum : (now + timelockHours / 2 * 3600).toNat
        = now.toNat + seconds (timelockHours.toNat / 2) := by
      rw [toNat_add_of_lt (by rw [hhalf]; omega), hhalf]
    rw [hsum, lt_add_iff _ (by omega), hfull]
    omega

/-- While the clock can show the deadlines, two hours are enough. -/
theorem timed_iff_two_le {now timelockHours : UInt64}
    (h : now.toNat + timelockHours.toNat * 3600 < 2 ^ 64) :
    Timed now timelockHours ↔ 2 ≤ timelockHours := by
  have hhalf : seconds (timelockHours.toNat / 2) = timelockHours.toNat / 2 * 3600 :=
    Nat.mod_eq_of_lt (by omega)
  have hfull : seconds timelockHours.toNat = timelockHours.toNat * 3600 :=
    Nat.mod_eq_of_lt (by omega)
  rw [UInt64.le_iff_toNat_le]
  show _ ↔ 2 ≤ timelockHours.toNat
  constructor
  · rintro ⟨hpos, _, _⟩
    rw [hhalf] at hpos
    omega
  · intro htwo
    refine ⟨?_, ?_, ?_⟩
    · rw [hhalf]; omega
    · rw [hhalf, hfull]; omega
    · rw [hfull]; exact h

/-- A swap is safe exactly when its deadlines are as they should be and no secret is
ever revealed. -/
theorem swapSafe_iff (C : Crypto) (now idAt : UInt64) (initiator counterparty : UnifiedAddress)
    (initiatorGivesUtxo : Bool) (initiatorAmount counterpartyAmount : UInt64)
    (secret : Vector UInt8 32) (timelockHours : UInt64) (ops : List SwapOp) :
    let s := new C now idAt initiator counterparty initiatorGivesUtxo initiatorAmount
      counterpartyAmount secret timelockHours
    SwapSafe C s ops ↔ Timed now timelockHours ∧
      ∀ pre shown claimTx, pre ++ [reveal shown claimTx] <+: ops →
        ¬ ((run C s pre).state = .accepted ∧ (run C s pre).verifySecret C shown = true) := by
  intro s
  have hfresh : Fresh s := ⟨rfl, rfl, rfl, rfl⟩
  constructor
  · intro h
    exact ⟨deadlines_iff.mp h.deadlines, (locked_iff hfresh).mp h.locked⟩
  · rintro ⟨htimed, hunrevealed⟩
    refine ⟨?_, ?_, ?_, (locked_iff hfresh).mpr hunrevealed, deadlines_iff.mpr htimed⟩
    · intro pre pre' hpre hpre'
      exact claim_or_refund hfresh hpre hpre'
    · intro pre hpre hclaimed
      exact (kept_before hfresh pre hpre).shown (.inr hclaimed)
    · intro pre post _ hfinal
      rw [run_append]
      exact final_stays C _ post hfinal

/-- A mainnet address. -/
def payerAddress : UnifiedAddress :=
  ⟨.unified, 0, Vector.replicate 20 1, #v[0xf6, 0x83, 0x20, 0x04]⟩

/-- A swap of so many hours between two mainnet addresses, made at the second
1700000000. -/
def swapOf (C : Crypto) (timelockHours : UInt64) : AtomicSwap :=
  new C 1700000000 1700000000 payerAddress
    ⟨.unified, 0, Vector.replicate 20 2, #v[0x56, 0xf8, 0x21, 0x9d]⟩ true 1000000000 500000000
    (Vector.replicate 32 42) timelockHours

/-- The hash of the secret. -/
def swapLock : H256 :=
  H256.ofNatBE 0x43341001a72623e00d590e8bf77f90b9ef99b7b31c91e80b820d4e7062f73937

def swapCrypto : Crypto := Crypto.ofTable
  [(List.replicate 32 42, swapLock),
    (List.replicate 20 1 ++ List.replicate 20 2 ++ swapLock.bytes.toList ++
        [0, 0, 0, 0, 0x65, 0x53, 0xf1, 0],
      H256.ofNatBE 0x2b67bbdd9c7a832e4a81e357cd7fe04fe4376857ccc709987d26b852417f2914)]

/-- The secret is revealed with nothing locked by the initiator; and a swap of one
hour gives the counterparty no time. -/
theorem revealed_unlocked :
    let ops := [accept ⟨Vector.replicate 32 1⟩,
      reveal (Vector.replicate 32 42) ⟨Vector.replicate 32 2⟩]
    let s := run swapCrypto (swapOf swapCrypto 24) ops
    ¬ SwapSafe swapCrypto (swapOf swapCrypto 24) ops ∧
      ¬ SwapSafe swapCrypto (swapOf swapCrypto 1) [] ∧
      s.initiatorLockTx = none ∧ s.initiatorClaimTx = some ⟨Vector.replicate 32 2⟩ ∧
      (swapOf swapCrypto 1).counterpartyTimelock = (swapOf swapCrypto 1).createdAt := by
  intro ops s
  refine ⟨fun h => ?_, fun h => ?_, by decide +kernel, by decide +kernel, by decide +kernel⟩
  · have hlocked := h.locked [accept ⟨Vector.replicate 32 1⟩] (Vector.replicate 32 42)
      ⟨Vector.replicate 32 2⟩ List.prefix_rfl (by decide +kernel)
    exact absurd hlocked.1 (by decide +kernel)
  · exact absurd h.deadlines.1 (by decide +kernel)

end SwapOp

end Pyrax.Bridge
