import Mathlib.Algebra.BigOperators.Group.Finset.Piecewise
import Mathlib.Algebra.Order.BigOperators.Group.Finset
import Mathlib.Algebra.Order.Ring.Nat

/-!
# Sums by account, and shares

A list of entries, each with the account it is booked on. `sumAt` is what the
entries of one account add up to. What every single account has left over, all
accounts together have left over at least (`sum_add_le`): a total that counts all
entries is never short for one account.

`Posts` says that balances go over into others by debits and credits: such steps
compose, and all balances together change by the sums of the two (`Posts.sum`).

A pot that is shared out by weight, each share rounded down, is never overspent, and
is used up exactly when every share comes out even (`sum_share_eq_iff`).
-/

namespace Pyrax.Base

variable {α κ : Type} [DecidableEq κ] (key : α → κ) (f g : α → Nat)

/-- The sum over the entries of one account. -/
def sumAt (k : κ) (entries : List α) : Nat :=
  (entries.map fun a => if key a = k then f a else 0).sum

@[simp] theorem sumAt_nil (k : κ) : sumAt key f k [] = 0 := rfl

theorem sumAt_append (k : κ) (a b : List α) :
    sumAt key f k (a ++ b) = sumAt key f k a + sumAt key f k b := by
  rw [sumAt, List.map_append, List.sum_append]
  rfl

theorem sumAt_snoc (k : κ) (entries : List α) (a : α) :
    sumAt key f k (entries ++ [a]) = sumAt key f k entries + if key a = k then f a else 0 := by
  rw [sumAt_append]
  exact congrArg _ (Nat.add_zero _)

theorem sumAt_cons (k : κ) (a : α) (entries : List α) :
    sumAt key f k (a :: entries) = (if key a = k then f a else 0) + sumAt key f k entries := by
  rw [sumAt, List.map_cons, List.sum_cons]
  rfl

/-- Taking one entry out. -/
theorem sumAt_eraseP {p : α → Bool} {entries : List α} (h : ∃ a ∈ entries, p a = true) (k : κ) :
    ∃ a, p a = true ∧ sumAt key f k (entries.eraseP p) + (if key a = k then f a else 0)
      = sumAt key f k entries := by
  obtain ⟨a, ha, hp⟩ := h
  obtain ⟨b, l₁, l₂, _, hb, rfl, herase⟩ := List.exists_of_eraseP ha hp
  refine ⟨b, hb, ?_⟩
  rw [herase, sumAt_append, sumAt_append, sumAt_cons]
  omega

/-- All accounts together. -/
theorem sum_sumAt {accounts : Finset κ} {entries : List α} (h : ∀ a ∈ entries, key a ∈ accounts) :
    ∑ k ∈ accounts, sumAt key f k entries = (entries.map f).sum := by
  induction entries with
  | nil => simp
  | cons a entries ih =>
    have hrest := ih fun b hb => h b (List.mem_cons_of_mem _ hb)
    have hone : ∑ k ∈ accounts, (if key a = k then f a else 0) = f a := by
      rw [Finset.sum_ite_eq, if_pos (h a (List.mem_cons_self ..))]
    simp only [sumAt_cons]
    rw [Finset.sum_add_distrib, hone, hrest, List.map_cons, List.sum_cons]

/-- If on every account `f` leaves `x` over after `g`, so it does on all of them. -/
theorem sum_add_le {entries : List α} {x : κ → Nat}
    (h : ∀ k, sumAt key f k entries = x k + sumAt key g k entries) (k : κ) :
    (entries.map g).sum + x k ≤ (entries.map f).sum := by
  have hmem : ∀ a ∈ entries, key a ∈ insert k (entries.map key).toFinset := fun a ha =>
    Finset.mem_insert_of_mem (List.mem_toFinset.mpr (List.mem_map_of_mem ha))
  rw [← sum_sumAt key f hmem, ← sum_sumAt key g hmem, Finset.sum_congr rfl fun k _ => h k,
    Finset.sum_add_distrib, Nat.add_comm]
  have hle : x k ≤ ∑ k ∈ insert k (entries.map key).toFinset, x k :=
    Finset.single_le_sum (fun _ _ => Nat.zero_le _) (Finset.mem_insert_self _ _)
  omega

/-! ## Postings -/

section Postings

variable {κ : Type} [DecidableEq κ] {b b' b'' : κ → Nat} {debits credits : List (κ × Nat)}

/-- What the entries book on one account. -/
def posted (entries : List (κ × Nat)) (k : κ) : Nat := sumAt Prod.fst Prod.snd k entries

@[simp] theorem posted_nil (k : κ) : posted [] k = 0 := rfl

@[simp] theorem posted_cons (k : κ) (entry : κ × Nat) (entries : List (κ × Nat)) :
    posted (entry :: entries) k = (if entry.1 = k then entry.2 else 0) + posted entries k :=
  sumAt_cons _ _ _ _ _

/-- From the balances `b` to `b'`, by what is taken and what is given. -/
def Posts (b b' : κ → Nat) (debits credits : List (κ × Nat)) : Prop :=
  ∀ k, b' k + posted debits k = b k + posted credits k

theorem Posts.of_eq (h : ∀ k, b' k = b k) : Posts b b' [] [] := h

theorem Posts.trans {debits' credits' : List (κ × Nat)} (h : Posts b b' debits credits)
    (h' : Posts b' b'' debits' credits') : Posts b b'' (debits ++ debits') (credits ++ credits') := by
  intro k
  have hk := h k
  have hk' := h' k
  rw [posted, posted, sumAt_append, sumAt_append]
  unfold posted at hk hk'
  omega

/-- What all accounts together go through. -/
theorem Posts.sum {accounts : Finset κ} (h : Posts b b' debits credits)
    (hdebits : ∀ entry ∈ debits, entry.1 ∈ accounts)
    (hcredits : ∀ entry ∈ credits, entry.1 ∈ accounts) :
    ∑ k ∈ accounts, b' k + (debits.map Prod.snd).sum
      = ∑ k ∈ accounts, b k + (credits.map Prod.snd).sum := by
  rw [← sum_sumAt Prod.fst Prod.snd hdebits, ← sum_sumAt Prod.fst Prod.snd hcredits,
    ← Finset.sum_add_distrib, ← Finset.sum_add_distrib]
  exact Finset.sum_congr rfl fun k _ => h k

end Postings

/-! ## Shares -/

section Shares

variable {α : Type} {f : α → Nat} {pot whole : Nat} {entries : List α}

/-- What is shared out and what the rounding leaves. -/
theorem sum_share_add_rest (f : α → Nat) (pot whole : Nat) (entries : List α) :
    whole * (entries.map fun a => pot * f a / whole).sum
      + (entries.map fun a => pot * f a % whole).sum = pot * (entries.map f).sum := by
  induction entries with
  | nil => simp
  | cons a entries ih =>
    have hone := Nat.div_add_mod (pot * f a) whole
    simp only [List.map_cons, List.sum_cons, Nat.mul_add]
    omega

/-- No pot is overspent. -/
theorem sum_share_le (hwhole : (entries.map f).sum = whole) :
    (entries.map fun a => pot * f a / whole).sum ≤ pot := by
  rcases Nat.eq_zero_or_pos whole with rfl | hpos
  · simp
  · have hsum := sum_share_add_rest f pot whole entries
    rw [hwhole, Nat.mul_comm pot whole] at hsum
    exact Nat.le_of_mul_le_mul_left (by omega) hpos

/-- A pot is used up exactly when every share is even. -/
theorem sum_share_eq_iff (hwhole : (entries.map f).sum = whole) (hpos : 0 < whole) :
    (entries.map fun a => pot * f a / whole).sum = pot ↔ ∀ a ∈ entries, whole ∣ pot * f a := by
  have hsum := sum_share_add_rest f pot whole entries
  rw [hwhole, Nat.mul_comm pot whole] at hsum
  have hrest : (entries.map fun a => pot * f a % whole).sum = 0 ↔
      ∀ a ∈ entries, whole ∣ pot * f a := by
    rw [List.sum_eq_zero_iff]
    simp only [List.mem_map, forall_exists_index, and_imp, forall_apply_eq_imp_iff₂,
      Nat.dvd_iff_mod_eq_zero]
  rw [← hrest]
  constructor
  · intro heq
    rw [heq] at hsum
    omega
  · intro hnone
    rw [hnone, Nat.add_zero] at hsum
    exact Nat.eq_of_mul_eq_mul_left hpos hsum

end Shares

end Pyrax.Base
