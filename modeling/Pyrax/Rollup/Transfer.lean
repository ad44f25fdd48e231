import Pyrax.Rollup.State
import Pyrax.Base.Word

/-!
# What a transfer moves

`L2State::transfer` should take an amount from one account and give it to another, count
the sender's nonce and leave everybody else alone, whichever the two addresses are
(`Moves`, one equation for all accounts). It reads both accounts before it writes either.
Between two accounts that is right. To oneself the second write undoes the first: the
amount is created, and the nonce stands still, even for an amount of zero.
`transfer_conservative_iff` says that nothing else goes wrong but a nonce that is full.
-/

namespace Pyrax.Rollup

open Base

variable {C : Crypto} {P : Platform} {s s' : L2State} {x y : Address} {amount : UInt64}

/-- What a transfer from `x` to `y` should do to the accounts. -/
structure Moves (s s' : L2State) (x y : Address) (amount : UInt64) : Prop where
  balance : ∀ z, (s'.getAccount z).balance.toNat + (if z = x then amount.toNat else 0)
    = (s.getAccount z).balance.toNat + (if z = y then amount.toNat else 0)
  nonce : ∀ z, (s'.getAccount z).nonce.toNat
    = (s.getAccount z).nonce.toNat + (if z = x then 1 else 0)
  others : ∀ z, z ≠ x → z ≠ y → s'.getAccount z = s.getAccount z
  total : totalBalance s' = totalBalance s

/-- The state a transfer leaves; it returns its error before the first write. -/
def afterTransfer (C : Crypto) (P : Platform) (s : L2State) (x y : Address) (amount : UInt64) :
    L2State :=
  match s.transfer C P x y amount with
  | .ok s' => s'
  | .error _ => s

/-- It is refused and changes nothing, or it moves the amount. -/
def Conservative (C : Crypto) (P : Platform) (s : L2State) (x y : Address) (amount : UInt64) :
    Prop :=
  (∃ e, s.transfer C P x y amount = .error e) ∧ afterTransfer C P s x y amount = s ∨
    (∃ s', s.transfer C P x y amount = .ok s') ∧ Moves s (afterTransfer C P s x y amount) x y amount

/-! ## Between two accounts -/

/-- Every account after a transfer: what is written last stays. -/
theorem getAccount_transfer (h : s.transfer C P x y amount = .ok s')
    (z : Address) : s'.getAccount z =
      if z = y then { s.getAccount y with balance := (s.getAccount y).balance + amount }
      else if z = x then { s.getAccount x with
        balance := (s.getAccount x).balance - amount, nonce := (s.getAccount x).nonce + 1 }
      else s.getAccount z := by
  obtain ⟨_, rfl⟩ := transfer_ok_iff.mp h
  rw [getAccount_updateAccount, getAccount_updateAccount]

theorem totalBalance_transfer (hne : x ≠ y) (h : s.transfer C P x y amount = .ok s')
    (hfit : (s.getAccount y).balance.toNat + amount.toNat < 2 ^ 64) :
    totalBalance s' = totalBalance s := by
  obtain ⟨hle, rfl⟩ := transfer_ok_iff.mp h
  have hnat := UInt64.le_iff_toNat_le.mp hle
  have h₁ := totalBalance_updateAccount (C := C) (P := P) s x { s.getAccount x with
    balance := (s.getAccount x).balance - amount, nonce := (s.getAccount x).nonce + 1 }
  have h₂ := totalBalance_updateAccount (C := C) (P := P)
    (s.updateAccount C P x { s.getAccount x with
      balance := (s.getAccount x).balance - amount, nonce := (s.getAccount x).nonce + 1 }) y
    { s.getAccount y with balance := (s.getAccount y).balance + amount }
  rw [getAccount_updateAccount, if_neg hne.symm, UInt64.toNat_add, Nat.mod_eq_of_lt hfit] at h₂
  rw [UInt64.toNat_sub_of_le _ _ hle] at h₁
  omega

theorem moves_of_ne (hne : x ≠ y) (h : s.transfer C P x y amount = .ok s')
    (hfit : (s.getAccount y).balance.toNat + amount.toNat < 2 ^ 64)
    (hnonce : (s.getAccount x).nonce.toNat + 1 < 2 ^ 64) : Moves s s' x y amount where
  balance z := by
    have hle := (transfer_ok_iff.mp h).1
    have hnat := UInt64.le_iff_toNat_le.mp hle
    rw [getAccount_transfer h z]
    by_cases hy : z = y
    · have hx : z ≠ x := fun hx => hne (hx.symm.trans hy)
      rw [if_pos hy, if_neg hx, if_pos hy, hy]
      exact Word.toNat_add_of_lt hfit
    · rw [if_neg hy, if_neg hy]
      by_cases hx : z = x
      · rw [if_pos hx, if_pos hx, hx]
        show ((s.getAccount x).balance - amount).toNat + _ = _
        rw [UInt64.toNat_sub_of_le _ _ hle]
        omega
      · rw [if_neg hx, if_neg hx]
  nonce z := by
    rw [getAccount_transfer h z]
    by_cases hy : z = y
    · have hx : z ≠ x := fun hx => hne (hx.symm.trans hy)
      rw [if_pos hy, if_neg hx, hy]
      rfl
    · rw [if_neg hy]
      by_cases hx : z = x
      · rw [if_pos hx, if_pos hx, hx]
        exact Word.toNat_add_of_lt hnonce
      · rw [if_neg hx, if_neg hx]
        rfl
  others z hx hy := by
    rw [getAccount_transfer h z, if_neg hy, if_neg hx]
  total := totalBalance_transfer hne h hfit

/-! ## All transfers -/

/-- **Transfers.** A transfer whose credit fits is conservative exactly when it is refused, or
goes to another account and finds room in the sender's nonce. -/
theorem transfer_conservative_iff (C : Crypto) (P : Platform) (s : L2State) (x y : Address)
    (amount : UInt64) (hfit : (s.getAccount y).balance.toNat + amount.toNat < 2 ^ 64) :
    Conservative C P s x y amount ↔
      (s.getAccount x).balance < amount ∨
        x ≠ y ∧ (s.getAccount x).nonce.toNat + 1 < 2 ^ 64 := by
  rw [Conservative, afterTransfer]
  by_cases hlt : (s.getAccount x).balance < amount
  · have herror : s.transfer C P x y amount
        = .error (.insufficientBalance (s.getAccount x).balance amount) := if_pos hlt
    rw [herror]
    exact iff_of_true (Or.inl ⟨⟨_, rfl⟩, rfl⟩) (Or.inl hlt)
  · obtain ⟨s', hok⟩ : ∃ s', s.transfer C P x y amount = .ok s' :=
      ⟨_, transfer_ok_iff.mpr ⟨UInt64.not_lt.mp hlt, rfl⟩⟩
    rw [hok]
    constructor
    · rintro (⟨⟨e, he⟩, _⟩ | ⟨_, hmoves⟩)
      · cases he
      · have hnonce := hmoves.nonce x
        rw [if_pos rfl] at hnonce
        refine Or.inr ⟨fun heq => ?_, ?_⟩
        · -- the second write has put the old nonce back
          subst heq
          rw [transfer_self hok, if_pos rfl] at hnonce
          dsimp only at hnonce
          omega
        · rw [← hnonce]
          exact UInt64.toNat_lt _
    · rintro (h | ⟨hne, hnonce⟩)
      · exact absurd h hlt
      · exact Or.inr ⟨⟨s', rfl⟩, moves_of_ne hne hok hfit hnonce⟩

/-! ## To oneself -/

/-- Alice has a thousand, as in the source's test. -/
noncomputable def creditedState : L2State :=
  (L2State.new (Crypto.ofTable [])).credit (Crypto.ofTable []) Platform.exact alice 1000

theorem creditedState_alice : creditedState.getAccount alice = ⟨0, 1000, H256.zero, H256.zero⟩ := by
  rw [creditedState, L2State.credit, getAccount_updateAccount, if_pos rfl]
  rfl

/-- Four hundred to Bob: she has them, and her nonce has a next one. -/
theorem transfer_conservative_bob :
    Conservative (Crypto.ofTable []) Platform.exact creditedState alice bob 400 := by
  have hbob : creditedState.getAccount bob = ⟨0, 0, H256.zero, H256.zero⟩ := by
    rw [creditedState, L2State.credit, getAccount_updateAccount, if_neg (by decide)]
    rfl
  refine (transfer_conservative_iff (Crypto.ofTable []) Platform.exact creditedState alice bob 400
    ?_).mpr (Or.inr ⟨by decide, ?_⟩)
  · rw [hbob]
    decide
  · rw [creditedState_alice]
    decide

/-- Four hundred to herself: she has fourteen hundred, and her nonce is what it was. -/
theorem transfer_to_self_mints :
    (∃ s', creditedState.transfer (Crypto.ofTable []) Platform.exact alice alice 400 = .ok s' ∧
      s'.getAccount alice = ⟨0, 1400, H256.zero, H256.zero⟩) ∧
    ¬ Conservative (Crypto.ofTable []) Platform.exact creditedState alice alice 400 := by
  obtain ⟨s', hok⟩ :
      ∃ s', creditedState.transfer (Crypto.ofTable []) Platform.exact alice alice 400 = .ok s' := by
    refine ⟨_, transfer_ok_iff.mpr ⟨?_, rfl⟩⟩
    rw [creditedState_alice]
    decide
  have hself := transfer_self hok alice
  rw [if_pos rfl, creditedState_alice] at hself
  refine ⟨⟨s', hok, hself⟩, ?_⟩
  rintro (⟨⟨e, he⟩, _⟩ | ⟨_, hmoves⟩)
  · rw [hok] at he
    cases he
  · have hnonce := hmoves.nonce alice
    rw [afterTransfer, hok] at hnonce
    dsimp only at hnonce
    rw [hself, creditedState_alice, if_pos rfl] at hnonce
    cases hnonce

end Pyrax.Rollup
