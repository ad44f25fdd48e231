import Mathlib.Data.List.Basic

/-!
# Sequences of checks

Fallible code of the shape `if bad { return Err(e) }` one after the other, and
loops whose body may return early. `failIf` is one check, `>>=` runs the next
only when the last one passed, `foldlM` is the loop. What a caller needs of
such code is when it succeeds: `bind_eq_ok`, `failIf_eq_ok` and
`foldlM_cons_eq_ok` turn "returned `ok`" into the conjunction of what was checked.
-/

namespace Pyrax.Base

variable {ε α β σ : Type}

/-- `if c { return Err(e) }`. -/
def failIf (c : Prop) [Decidable c] (e : ε) : Except ε Unit := if c then .error e else .ok ()

@[simp] theorem failIf_eq_ok {c : Prop} [Decidable c] {e : ε} :
    failIf c e = .ok () ↔ ¬ c := by
  unfold failIf
  split
  · next h => simp [h]
  · next h => simp [h]

/-- `Option::ok_or`. -/
def okOr (o : Option α) (e : ε) : Except ε α :=
  match o with
  | some a => .ok a
  | none => .error e

@[simp] theorem okOr_eq_ok {o : Option α} {e : ε} {a : α} :
    okOr o e = .ok a ↔ o = some a := by
  cases o <;> simp [okOr]

/-- A sequence succeeds when the first part does and the rest does after it. -/
theorem bind_eq_ok {x : Except ε α} {f : α → Except ε β} {b : β} :
    (x >>= f) = .ok b ↔ ∃ a, x = .ok a ∧ f a = .ok b := by
  cases x with
  | error e => simp [bind, Except.bind]
  | ok a => simp [bind, Except.bind]

/-- The same when the first part returns nothing. -/
theorem bind_unit_eq_ok {x : Except ε Unit} {f : Unit → Except ε β} {b : β} :
    (x >>= f) = .ok b ↔ x = .ok () ∧ f () = .ok b := by
  rw [bind_eq_ok]
  exact ⟨fun ⟨_, hx, hf⟩ => ⟨hx, hf⟩, fun ⟨hx, hf⟩ => ⟨(), hx, hf⟩⟩

/-- A check in front of a sequence, as a branch. -/
theorem failIf_bind {c : Prop} [Decidable c] {e : ε} {f : Unit → Except ε β} :
    (failIf c e >>= f) = if c then .error e else f () := by
  unfold failIf
  split
  · rfl
  · rfl

/-- A check in front of a sequence. -/
theorem failIf_bind_eq_ok {c : Prop} [Decidable c] {e : ε} {f : Unit → Except ε β} {b : β} :
    (failIf c e >>= f) = .ok b ↔ ¬ c ∧ f () = .ok b := by
  rw [bind_unit_eq_ok, failIf_eq_ok]

/-- A loop that succeeds passes through its first element. -/
theorem foldlM_cons_eq_ok {f : σ → α → Except ε σ} {s s' : σ} {x : α} {xs : List α} :
    (x :: xs).foldlM f s = .ok s' ↔ ∃ s₁, f s x = .ok s₁ ∧ xs.foldlM f s₁ = .ok s' := by
  rw [List.foldlM_cons, bind_eq_ok]

end Pyrax.Base
