import Pyrax.Evm.State

/-!
# Readers before and after a commit

A commit should be invisible: what is read of an address right before it is read
right after it, and a deleted account reads as a fresh one until it is written again
(`CommitSafe`). For most histories both hold, whatever the order of the operations.
Three things break it:

* `get_account` does not look at the deleted addresses, so a deleted account goes on
  showing what was committed;
* `commit` removes the deleted addresses last, with what was written to them since;
* `is_empty` does not look at the storage, so an account with slots and nothing else
  is pruned.

`commitSafe_iff`: there is no fourth. The condition is on the state each operation
finds (`Harmless`): a commit must not find a deleted address that shows anything or
an empty account with a slot, and a deletion must not find a committed account.
-/

namespace Pyrax.Evm

open Base

/-- A call on the database. A snapshot is a copy that changes nothing, and what is
restored may be any. -/
inductive StateOp where
  | setAccount (address : Address) (account : AccountState)
  | addBalance (address : Address) (amount : U256)
  | subBalance (address : Address) (amount : U256)
  | incrementNonce (address : Address)
  | setCode (address : Address) (code : List UInt8)
  | setStorage (address : Address) (key : B256) (value : U256)
  | deleteAccount (address : Address)
  | snapshot
  | restore (taken : StateSnapshot)
  | revert
  | commit

namespace StateOp

open StateDB

def apply (C : Crypto) (s : StateDB) : StateOp → StateDB
  | setAccount address account => s.setAccount address account
  | addBalance address amount => s.addBalance address amount
  | subBalance address amount => (s.subBalance address amount).1
  | incrementNonce address => s.incrementNonce address
  | setCode address code => s.setCode C address code
  | setStorage address key value => s.setStorage address key value
  | deleteAccount address => s.deleteAccount address
  | snapshot => s
  | restore taken => s.restore taken
  | revert => s.revert
  | commit => s.commit C

def run (C : Crypto) (s : StateDB) (ops : List StateOp) : StateDB := ops.foldl (apply C) s

theorem run_snoc (C : Crypto) (s : StateDB) (ops : List StateOp) (op : StateOp) :
    run C s (ops ++ [op]) = op.apply C (run C s ops) :=
  List.foldl_concat ..

/-- The operation writes the address, or takes its deletion back. -/
def rewrites (a : Address) : StateOp → Bool
  | setAccount address _ | addBalance address _ | subBalance address _ | incrementNonce address
  | setCode address _ | setStorage address _ _ => address = a
  | restore _ | revert => true
  | deleteAccount _ | snapshot | commit => false

/-- All readers give the same answers for the address. -/
def SameView (s s' : StateDB) (a : Address) : Prop :=
  s'.getBalance a = s.getBalance a ∧ s'.getNonce a = s.getNonce a ∧ s'.getCode a = s.getCode a ∧
    ∀ key, s'.getStorage a key = s.getStorage a key

/-- All readers give the default answers. -/
def ReadsDefault (s : StateDB) (a : Address) : Prop :=
  s.getBalance a = U256.ZERO ∧ s.getNonce a = 0 ∧ s.getCode a = [] ∧
    ∀ key, s.getStorage a key = U256.ZERO

/-- What a database should keep along a run from `s`. That values written after a
deletion survive the commit is the first field at their address. -/
structure CommitSafe (C : Crypto) (s : StateDB) (ops : List StateOp) : Prop where
  same : ∀ pre, pre ++ [commit] <+: ops → ∀ a, SameView (run C s pre) (run C s (pre ++ [commit])) a
  deleted : ∀ pre a post, pre ++ [deleteAccount a] ++ post <+: ops →
    (∀ op ∈ post, op.rewrites a = false) → ReadsDefault (run C s (pre ++ [deleteAccount a] ++ post)) a

/-- What the operation must not find in the state. -/
def Harmless (s : StateDB) : StateOp → Prop
  | commit => ∀ a,
    (a ∈ s.deletedAccounts → ReadsDefault s a) ∧
    (a ∉ s.deletedAccounts → ∀ account, s.pendingChanges.lookup a = some account →
      account.isEmpty = true → ∀ key, account.getStorage key = U256.ZERO)
  | deleteAccount a => ∀ account, s.accounts.lookup a = some account →
    account.balance = U256.ZERO ∧ account.nonce = 0 ∧ account.code = [] ∧
      ∀ key, account.getStorage key = U256.ZERO
  | setAccount _ _ | addBalance _ _ | subBalance _ _ | incrementNonce _ | setCode _ _
  | setStorage _ _ _ | snapshot | restore _ | revert => True

/-! ## A commit -/

theorem isEmpty_iff {account : AccountState} : account.isEmpty = true ↔
    account.nonce = 0 ∧ account.balance = U256.ZERO ∧ account.code = [] := by
  have hzero : account.balance.isZero = true ↔ account.balance = U256.ZERO := by
    rw [U256.isZero_iff]
    exact ⟨fun h => U256.toNat_inj h, fun h => by rw [h]; rfl⟩
  simp only [AccountState.isEmpty, Bool.and_eq_true, decide_eq_true_eq, hzero, List.isEmpty_iff,
    and_assoc]

theorem sameView_empty {s s' : StateDB} {a : Address} (h : s'.getAccount a = .empty) :
    SameView s s' a ↔ ReadsDefault s a := by
  unfold SameView ReadsDefault getBalance getNonce getCode getStorage
  rw [h]
  exact and_congr eq_comm (and_congr eq_comm (and_congr eq_comm (forall_congr' fun _ => eq_comm)))

theorem sameView_of_eq {s s' : StateDB} {a : Address} (h : s'.getAccount a = s.getAccount a) :
    SameView s s' a := by
  unfold SameView getBalance getNonce getCode getStorage
  rw [h]
  exact ⟨rfl, rfl, rfl, fun _ => rfl⟩

/-- A commit is invisible exactly when it finds nothing it would drop. -/
theorem sameView_commit_iff (C : Crypto) (s : StateDB) :
    (∀ a, SameView s (s.commit C) a) ↔ Harmless s commit := by
  refine forall_congr' fun a => ?_
  have hcommit := getAccount_commit C s a
  by_cases hdeleted : a ∈ s.deletedAccounts
  · rw [if_pos hdeleted] at hcommit
    rw [sameView_empty hcommit]
    exact ⟨fun h => ⟨fun _ => h, fun hnot => absurd hdeleted hnot⟩, fun h => h.1 hdeleted⟩
  rw [if_neg hdeleted, lookup_applyPending] at hcommit
  cases hpending : s.pendingChanges.lookup a with
  | none =>
    -- nothing is pending: the committed account stays
    rw [hpending] at hcommit
    have hsame : (s.commit C).getAccount a = s.getAccount a := by
      rw [hcommit, getAccount, hpending]
    refine iff_of_true (sameView_of_eq hsame) ⟨fun h => absurd h hdeleted, ?_⟩
    intro _ account hsome
    cases hsome
  | some account =>
    have hget : s.getAccount a = account := by rw [getAccount, hpending]
    rw [hpending] at hcommit
    by_cases hempty : account.isEmpty = true
    · -- pruned: invisible if it had no slot either
      have hgone : (s.commit C).getAccount a = .empty := by
        rw [hcommit]
        simp only [hempty, if_true, Option.getD_none]
      obtain ⟨hnonce, hbalance, hcode⟩ := isEmpty_iff.mp hempty
      rw [sameView_empty hgone, ReadsDefault, getBalance, getNonce, getCode, hget]
      constructor
      · intro h
        refine ⟨fun hmem => absurd hmem hdeleted, fun _ account' hsome _ key => ?_⟩
        cases hsome
        rw [← hget]
        exact h.2.2.2 key
      · intro h
        refine ⟨hbalance, hnonce, hcode, fun key => ?_⟩
        rw [getStorage, hget]
        exact h.2 hdeleted account rfl hempty key
    · have hsame : (s.commit C).getAccount a = s.getAccount a := by
        rw [hcommit, hget]
        simp only [hempty, Bool.false_eq_true, if_false, Option.getD_some]
      refine iff_of_true (sameView_of_eq hsame) ⟨fun h => absurd h hdeleted, ?_⟩
      intro _ account' hsome hempty'
      cases hsome
      exact absurd hempty' hempty

/-! ## A deletion -/

/-- Nothing is pending at the address, and nothing is committed that shows. -/
def Gone (s : StateDB) (a : Address) : Prop :=
  s.pendingChanges.lookup a = none ∧ Harmless s (deleteAccount a)

theorem Gone.readsDefault {s : StateDB} {a : Address} (h : Gone s a) : ReadsDefault s a := by
  have hget : s.getAccount a = (s.accounts.lookup a).getD .empty := by rw [getAccount, h.1]
  unfold ReadsDefault getBalance getNonce getCode getStorage
  rw [hget]
  cases hcommitted : s.accounts.lookup a with
  | none => exact ⟨rfl, rfl, rfl, fun _ => rfl⟩
  | some account => exact h.2 account hcommitted

/-- A deleted account reads as a fresh one exactly when nothing committed shows. -/
theorem readsDefault_deleteAccount_iff {s : StateDB} {a : Address} :
    ReadsDefault (s.deleteAccount a) a ↔ Harmless s (deleteAccount a) := by
  constructor
  · intro h account hcommitted
    have hget : (s.deleteAccount a).getAccount a = account := by
      rw [getAccount, StateDB.deleteAccount]
      simp only [Finmap.lookup_erase, hcommitted, Option.getD_some]
    unfold ReadsDefault getBalance getNonce getCode getStorage at h
    rwa [hget] at h
  · intro h
    exact Gone.readsDefault ⟨Finmap.lookup_erase .., h⟩

theorem gone_modifyAccount {s : StateDB} {a b : Address} (h : Gone s a) (hne : b ≠ a)
    (f : AccountState → AccountState) : Gone (s.modifyAccount b f) a :=
  ⟨(Finmap.lookup_insert_of_ne _ (Ne.symm hne)).trans h.1, h.2⟩

/-- Nothing but a write brings a deleted account back. -/
theorem Gone.apply {s : StateDB} {a : Address} (h : Gone s a) (C : Crypto) (op : StateOp)
    (hop : op.rewrites a = false) : Gone (op.apply C s) a := by
  cases op with
  | setAccount b account => exact gone_modifyAccount h (of_decide_eq_false hop) fun _ => account
  | addBalance b amount => exact gone_modifyAccount h (of_decide_eq_false hop) _
  | subBalance b amount =>
    show Gone (s.subBalance b amount).1 a
    unfold StateDB.subBalance
    split
    · exact gone_modifyAccount h (of_decide_eq_false hop) _
    · exact h
  | incrementNonce b => exact gone_modifyAccount h (of_decide_eq_false hop) _
  | setCode b code => exact gone_modifyAccount h (of_decide_eq_false hop) _
  | setStorage b key value => exact gone_modifyAccount h (of_decide_eq_false hop) _
  | deleteAccount b =>
    refine ⟨?_, h.2⟩
    show (s.pendingChanges.erase b).lookup a = none
    by_cases hb : a = b
    · rw [hb, Finmap.lookup_erase]
    · rw [Finmap.lookup_erase_ne hb, h.1]
  | snapshot => exact h
  | restore taken => cases hop
  | revert => cases hop
  | commit =>
    refine ⟨rfl, fun account hcommitted => ?_⟩
    have hlookup : (s.commit C).accounts.lookup a = some account := hcommitted
    rw [lookup_commit] at hlookup
    split at hlookup
    · cases hlookup
    · rw [lookup_applyPending, h.1] at hlookup
      exact h.2 account hlookup

theorem Gone.run {s : StateDB} {a : Address} (h : Gone s a) (C : Crypto) {post : List StateOp}
    (hpost : ∀ op ∈ post, op.rewrites a = false) : Gone (run C s post) a := by
  induction post using List.reverseRecOn with
  | nil => exact h
  | append_singleton post op ih =>
    rw [run_snoc]
    refine (ih fun op' hop' => hpost op' (List.mem_append_left _ hop')).apply C op ?_
    exact hpost op (List.mem_append_right _ (List.mem_singleton_self op))

/-! ## Runs -/

/-- Readers see a commit or a deletion as they should exactly when no operation of the
run finds what it must not. -/
theorem commitSafe_iff (C : Crypto) (s : StateDB) (ops : List StateOp) :
    CommitSafe C s ops ↔ ∀ pre op, pre ++ [op] <+: ops → Harmless (run C s pre) op := by
  constructor
  · intro h pre op hpre
    cases op with
    | commit =>
      have hsame := h.same pre hpre
      rw [run_snoc] at hsame
      exact (sameView_commit_iff C _).mp hsame
    | deleteAccount a =>
      have hdefault := h.deleted pre a [] (by rwa [List.append_nil]) nofun
      rw [List.append_nil, run_snoc] at hdefault
      exact readsDefault_deleteAccount_iff.mp hdefault
    | setAccount _ _ => trivial
    | addBalance _ _ => trivial
    | subBalance _ _ => trivial
    | incrementNonce _ => trivial
    | setCode _ _ => trivial
    | setStorage _ _ _ => trivial
    | snapshot => trivial
    | restore _ => trivial
    | revert => trivial
  · intro h
    refine ⟨fun pre hpre => ?_, fun pre a post hpre hpost => ?_⟩
    · rw [run_snoc]
      exact (sameView_commit_iff C _).mpr (h pre commit hpre)
    · have hharmless := h pre (deleteAccount a) ((List.prefix_append _ post).trans hpre)
      have hgone : Gone (run C s (pre ++ [deleteAccount a])) a := by
        rw [run_snoc]
        exact ⟨Finmap.lookup_erase .., hharmless⟩
      have hrun : run C s (pre ++ [deleteAccount a] ++ post)
          = run C (run C s (pre ++ [deleteAccount a])) post := List.foldl_append ..
      rw [hrun]
      exact (hgone.run C hpost).readsDefault

/-- A committed balance shows after its deletion; a balance received after a deletion
is lost by the commit, and so is a slot of an account that has nothing else. -/
theorem commit_loses_writes :
    let C := Crypto.ofTable []
    let a : Address := Vector.replicate 20 1
    let key : B256 := Vector.replicate 32 2
    let paid := addBalance a (U256.fromU64 500)
    let shown := run C StateDB.new [paid, commit, deleteAccount a]
    let lost := run C StateDB.new [deleteAccount a, paid, commit]
    let pruned := run C StateDB.new [setStorage a key U256.ONE, commit]
    (¬ CommitSafe C StateDB.new [paid, commit, deleteAccount a] ∧
      shown.getBalance a = U256.fromU64 500) ∧
    (¬ CommitSafe C StateDB.new [deleteAccount a, paid, commit] ∧
      lost.getBalance a = U256.ZERO) ∧
    (¬ CommitSafe C StateDB.new [setStorage a key U256.ONE, commit] ∧
      pruned.getStorage a key = U256.ZERO) := by
  intro C a key paid shown lost pruned
  refine ⟨⟨fun h => ?_, by decide +kernel⟩, ⟨fun h => ?_, by decide +kernel⟩,
    ⟨fun h => ?_, by decide +kernel⟩⟩
  · have hdefault := h.deleted [paid, commit] a [] List.prefix_rfl nofun
    exact absurd hdefault.1 (by decide +kernel)
  · have hsame := h.same [deleteAccount a, paid] List.prefix_rfl a
    exact absurd hsame.1 (by decide +kernel)
  · have hsame := h.same [setStorage a key U256.ONE] List.prefix_rfl a
    exact absurd (hsame.2.2.2 key) (by decide +kernel)

end StateOp

end Pyrax.Evm
