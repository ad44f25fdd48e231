import Mathlib.Logic.Relation

/-!
# Machines that go on or end

A deterministic machine: in each state it takes a turn to the next one or ends with a
result. `runFor` runs it for so many turns at most. Whatever number is given, a run that
ends does so in the one state in reach that has an end (`exists_end`, `end_unique`), so that
what is said of a run is said of the states in reach. A machine whose turns make some
measure smaller comes to an end (`exists_runFor_of_measure`).
-/

namespace Pyrax.Base.Machine

variable {σ ρ : Type*} {next : σ → σ ⊕ ρ} {s s' s₁ s₂ : σ} {r r' r₁ r₂ : ρ}

/-- One turn. -/
def Turn (next : σ → σ ⊕ ρ) (s s' : σ) : Prop := next s = .inl s'

/-- Some turns, one after the other. -/
def Reaches (next : σ → σ ⊕ ρ) : σ → σ → Prop := Relation.ReflTransGen (Turn next)

def runFor (next : σ → σ ⊕ ρ) : Nat → σ → Option ρ
  | 0, _ => none
  | fuel + 1, s =>
    match next s with
    | .inl s' => runFor next fuel s'
    | .inr r => some r

theorem Reaches.refl (s : σ) : Reaches next s s := Relation.ReflTransGen.refl

theorem Reaches.tail (h : Reaches next s s₁) (hturn : Turn next s₁ s₂) : Reaches next s s₂ :=
  Relation.ReflTransGen.tail h hturn

/-- What every turn from a state in reach keeps holds in all of them. -/
theorem Reaches.invariant {P : σ → Prop} (h : Reaches next s s') (h0 : P s)
    (hturn : ∀ s₁ s₂, Reaches next s s₁ → P s₁ → Turn next s₁ s₂ → P s₂) : P s' := by
  induction h with
  | refl => exact h0
  | tail hreach hlast ih => exact hturn _ _ hreach ih hlast

/-- The state after so many turns, if the machine does not end before. -/
def after (next : σ → σ ⊕ ρ) : Nat → σ → Option σ
  | 0, s => some s
  | n + 1, s =>
    match next s with
    | .inl s' => after next n s'
    | .inr _ => none

theorem reaches_of_after {n : Nat} (h : after next n s = some s') : Reaches next s s' := by
  induction n generalizing s with
  | zero =>
    cases h
    exact .refl _
  | succ n ih =>
    rw [after] at h
    split at h
    · next s₁ hturn => exact Relation.ReflTransGen.head hturn (ih h)
    · cases h

theorem exists_end {fuel : Nat} (h : runFor next fuel s = some r) :
    ∃ s', Reaches next s s' ∧ next s' = .inr r := by
  induction fuel generalizing s with
  | zero => cases h
  | succ fuel ih =>
    rw [runFor] at h
    split at h
    · next s₁ hturn =>
      obtain ⟨s', hreach, hend⟩ := ih h
      exact ⟨s', Relation.ReflTransGen.head hturn hreach, hend⟩
    · next r' hend =>
      cases h
      exact ⟨s, .refl s, hend⟩

/-- Nothing comes after an end, and there is one way to it. -/
theorem end_unique (h₁ : Reaches next s s₁) (h₂ : Reaches next s s₂) (hend₁ : next s₁ = .inr r₁)
    (hend₂ : next s₂ = .inr r₂) : s₁ = s₂ := by
  have hstays : ∀ {a b : σ} {r : ρ}, next a = .inr r → Reaches next a b → a = b := by
    intro a b r hend hreach
    rcases Relation.ReflTransGen.cases_head hreach with heq | ⟨c, hturn, -⟩
    · exact heq
    · exact nomatch hend.symm.trans hturn
  have hright : Relator.RightUnique (Turn next) := by
    intro a b c hb hc
    exact Sum.inl.inj (hb.symm.trans hc)
  rcases Relation.ReflTransGen.total_of_right_unique hright h₁ h₂ with h | h
  · exact hstays hend₁ h
  · exact (hstays hend₂ h).symm

/-- The state in which a run ended is the only one in reach with an end. -/
theorem result_of_end {fuel : Nat} (h : runFor next fuel s = some r) (hreach : Reaches next s s')
    (hend : next s' = .inr r') : r = r' := by
  obtain ⟨s₁, hreach₁, hend₁⟩ := exists_end h
  rw [end_unique hreach₁ hreach hend₁ hend, hend] at hend₁
  exact (Sum.inr.inj hend₁).symm

/-- Turns that make a measure smaller come to an end. -/
theorem exists_runFor_of_measure (measure : σ → Nat) (s : σ)
    (hless : ∀ s₁ s₂, Reaches next s s₁ → Turn next s₁ s₂ → measure s₂ < measure s₁) :
    ∃ fuel, (runFor next fuel s).isSome := by
  induction hm : measure s using Nat.strongRecOn generalizing s with
  | ind m ih =>
    cases hnext : next s with
    | inr r =>
      refine ⟨1, ?_⟩
      rw [runFor, hnext]
      rfl
    | inl s' =>
      have hsmaller := hless s s' (.refl s) hnext
      obtain ⟨fuel, hfuel⟩ := ih (measure s') (hm ▸ hsmaller) s'
        (fun s₁ s₂ hreach => hless s₁ s₂ (Relation.ReflTransGen.head hnext hreach)) rfl
      refine ⟨fuel + 1, ?_⟩
      rw [runFor, hnext]
      exact hfuel

end Pyrax.Base.Machine
