import Mathlib.Data.List.Basic
import Mathlib.Data.List.Induction

/-!
# Runs of a labelled transition system

`Run step s ls s'` says that the labels `ls`, taken in order, lead from `s` to
`s'`. It is kept apart from any particular system: a node, a store and a
mempool are all instances with their own `step`.

The rules a proof uses are `Run.invariant` (what every step keeps, every run
keeps) and `Run.invariant_of` (the same for what is said of the labels and the
state together, when a step keeps it only under a condition on its label). A
property of single steps is carried along a run with `Throughout`, which relates
the state before, the label and the state after.

Where the next state is a function of the labels taken, a run is its list of
labels, and what holds after every prefix is shown with `forall_prefixes` and
`forall_prefixes_iff`; what one moment of a run promises to all later ones, with
`forall_later_iff`.
-/

namespace Pyrax.Base

variable {σ ι : Type} {step : σ → ι → σ → Prop}

/-- Finite runs, with the list of labels taken. -/
inductive Run (step : σ → ι → σ → Prop) : σ → List ι → σ → Prop where
  | nil (s : σ) : Run step s [] s
  | snoc {s s₁ s₂ : σ} {ls : List ι} {l : ι} :
      Run step s ls s₁ → step s₁ l s₂ → Run step s (ls ++ [l]) s₂

namespace Run

/-- A property of states that holds at the start and is kept by every step
holds at the end of every run. -/
theorem invariant {P : σ → Prop} {s s' : σ} {ls : List ι} (hrun : Run step s ls s')
    (hstep : ∀ s₁ l s₂, P s₁ → step s₁ l s₂ → P s₂) (h0 : P s) : P s' := by
  induction hrun with
  | nil => exact h0
  | snoc _ hlast ih => exact hstep _ _ _ ih hlast

/-- The same with the labels in view: every label taken satisfies `Q`. -/
theorem invariant_of {P : List ι → σ → Prop} {Q : ι → Prop} {s s' : σ} {ls : List ι}
    (hrun : Run step s ls s') (hQ : ∀ l ∈ ls, Q l)
    (hstep : ∀ ls s₁ l s₂, P ls s₁ → Q l → step s₁ l s₂ → P (ls ++ [l]) s₂) (h0 : P [] s) :
    P ls s' := by
  induction hrun with
  | nil => exact h0
  | snoc _ hlast ih =>
    refine hstep _ _ _ _ (ih fun l hl => hQ l (List.mem_append_left _ hl)) ?_ hlast
    exact hQ _ (List.mem_append_right _ (List.mem_singleton_self _))

theorem single {s s' : σ} {l : ι} (h : step s l s') : Run step s [l] s' :=
  snoc (nil s) h

/-- One run after the other. -/
theorem append {s s₁ s₂ : σ} {ls ls' : List ι} (h : Run step s ls s₁) (h' : Run step s₁ ls' s₂) :
    Run step s (ls ++ ls') s₂ := by
  induction h' with
  | nil => rwa [List.append_nil]
  | snoc _ hlast ih =>
    rw [← List.append_assoc]
    exact snoc ih hlast

/-- A run along no label goes nowhere. -/
theorem of_nil {s s' : σ} (h : Run step s [] s') : s' = s := by
  generalize hls : ([] : List ι) = ls at h
  cases h with
  | nil => rfl
  | snoc _ _ => exact absurd hls.symm (List.append_ne_nil_of_right_ne_nil _ (List.cons_ne_nil _ _))

/-- A run along one more label has a last step. -/
theorem of_snoc {s s' : σ} {ls : List ι} {l : ι} (h : Run step s (ls ++ [l]) s') :
    ∃ s₁, Run step s ls s₁ ∧ step s₁ l s' := by
  generalize hls : ls ++ [l] = ls' at h
  cases h with
  | nil => exact absurd hls (List.append_ne_nil_of_right_ne_nil _ (List.cons_ne_nil _ _))
  | snoc hrun hlast =>
    obtain ⟨rfl, hl⟩ := List.append_inj_left' hls rfl, List.append_inj_right' hls rfl
    cases hl
    exact ⟨_, hrun, hlast⟩

/-- A run along one more label at the front has a first step. -/
theorem of_cons {s : σ} {l : ι} : ∀ {ls : List ι} {s' : σ}, Run step s (l :: ls) s' →
    ∃ s₁, step s l s₁ ∧ Run step s₁ ls s' := by
  intro ls
  induction ls using List.reverseRecOn with
  | nil =>
    intro s' h
    obtain ⟨s₁, h₁, hlast⟩ := of_snoc (show Run step s ([] ++ [l]) s' from h)
    rw [of_nil h₁] at hlast
    exact ⟨s', hlast, nil s'⟩
  | append_singleton ls l' ih =>
    intro s' h
    obtain ⟨s₂, h₂, hlast⟩ := of_snoc (show Run step s ((l :: ls) ++ [l']) s' from h)
    obtain ⟨s₁, hfirst, hrest⟩ := ih h₂
    exact ⟨s₁, hfirst, hrest.snoc hlast⟩

end Run

/-- `P` holds of every step taken along the labels `ls` from `s`. -/
def Throughout (step : σ → ι → σ → Prop) (s : σ) (ls : List ι) (P : σ → ι → σ → Prop) : Prop :=
  ∀ ls₁ l ls₂ s₁ s₂, ls = ls₁ ++ l :: ls₂ → Run step s ls₁ s₁ → step s₁ l s₂ → P s₁ l s₂

namespace Throughout

variable {P Q : σ → ι → σ → Prop} {s s₁ s₂ : σ} {ls : List ι} {l : ι}

/-- What is equivalent at every step is equivalent along every run. -/
theorem congr (h : ∀ s₁ l s₂, step s₁ l s₂ → (P s₁ l s₂ ↔ Q s₁ l s₂)) :
    Throughout step s ls P ↔ Throughout step s ls Q :=
  ⟨fun hP ls₁ l ls₂ s₁ s₂ hls hrun hstep => (h s₁ l s₂ hstep).mp (hP ls₁ l ls₂ s₁ s₂ hls hrun hstep),
    fun hQ ls₁ l ls₂ s₁ s₂ hls hrun hstep =>
      (h s₁ l s₂ hstep).mpr (hQ ls₁ l ls₂ s₁ s₂ hls hrun hstep)⟩

/-- The last step. -/
theorem last (h : Throughout step s (ls ++ [l]) P) (hrun : Run step s ls s₁)
    (hstep : step s₁ l s₂) : P s₁ l s₂ :=
  h ls l [] s₁ s₂ rfl hrun hstep

end Throughout

/-! ## Prefixes -/

/-- What holds at the start and is kept by every further label holds after every
prefix. -/
theorem forall_prefixes {ls : List ι} {P : List ι → Prop} (h0 : P [])
    (hstep : ∀ pre l, pre ++ [l] <+: ls → P pre → P (pre ++ [l])) : ∀ pre, pre <+: ls → P pre := by
  intro pre
  induction pre using List.reverseRecOn with
  | nil => exact fun _ => h0
  | append_singleton pre l ih =>
    intro hpre
    exact hstep pre l hpre (ih ((List.prefix_append pre [l]).trans hpre))

/-- If a label keeps it exactly under a condition, it holds after every prefix
exactly when every label meets the condition. -/
theorem forall_prefixes_iff {ls : List ι} {P : List ι → Prop} {Q : List ι → ι → Prop} (h0 : P [])
    (hstep : ∀ pre l, pre ++ [l] <+: ls → P pre → (P (pre ++ [l]) ↔ Q pre l)) :
    (∀ pre, pre <+: ls → P pre) ↔ ∀ pre l, pre ++ [l] <+: ls → Q pre l := by
  constructor
  · intro hall pre l hpre
    exact (hstep pre l hpre (hall pre ((List.prefix_append pre [l]).trans hpre))).mp
      (hall _ hpre)
  · intro hall
    exact forall_prefixes h0 fun pre l hpre h => (hstep pre l hpre h).mpr (hall pre l hpre)

/-- What is said of every label and what comes before it, label by label. -/
theorem forall_prefixes_snoc {ls : List ι} {Q : List ι → ι → Prop}
    (h : ∀ i (hi : i < ls.length), Q (ls.take i) ls[i]) : ∀ pre l, pre ++ [l] <+: ls → Q pre l := by
  rintro pre l ⟨post, rfl⟩
  have hat := h pre.length (by simp)
  simpa using hat

/-- A reflexive and transitive relation holds from every moment of a run to every
later one exactly when each single label keeps it. -/
theorem forall_later_iff {ls : List ι} {R : List ι → List ι → Prop} (hrefl : ∀ pre, R pre pre)
    (htrans : ∀ a b c, R a b → R b c → R a c) :
    (∀ pre post, pre ++ post <+: ls → R pre (pre ++ post)) ↔
      ∀ pre l, pre ++ [l] <+: ls → R pre (pre ++ [l]) := by
  constructor
  · intro h pre l hpre
    exact h pre [l] hpre
  · intro h pre post
    induction post using List.reverseRecOn with
    | nil =>
      intro _
      rw [List.append_nil]
      exact hrefl pre
    | append_singleton post l ih =>
      intro hpre
      rw [← List.append_assoc] at hpre ⊢
      exact htrans _ _ _ (ih ((List.prefix_append _ [l]).trans hpre)) (h _ l hpre)

end Pyrax.Base
