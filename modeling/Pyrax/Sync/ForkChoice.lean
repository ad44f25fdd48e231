import Pyrax.Sync.Chain
import Pyrax.Types.Target
import Mathlib.Data.Prod.Lex
import Mathlib.Order.OrderDual

/-!
# Fork choice does not depend on the order of the tips

`fork_choice` of `pyrax-node/src/sync/mod.rs` compares two tips; a node that knows of
several folds it over them in whatever order they came in. The comparison is that of a
rank in a linear order, the total difficulty first and the hash downwards after it, and
tips with distinct hashes have distinct ranks. So the fold ends at the one tip of the
highest rank (`forkChoice_perm`).
-/

namespace Pyrax.Sync

/-! ## Folding a comparison -/

section Select

variable {α κ : Type} [LinearOrder κ] {rank : α → κ} {select : α → α → α}

theorem mem_foldl_select (hselect : ∀ a b, select a b = if rank b < rank a then a else b)
    (l : List α) (a : α) : l.foldl select a ∈ a :: l := by
  induction l generalizing a with
  | nil => exact List.mem_singleton_self a
  | cons b l ih =>
    rw [List.foldl_cons]
    rcases List.mem_cons.mp (ih (select a b)) with h | h
    · rw [h, hselect]
      split
      · exact List.mem_cons_self ..
      · exact List.mem_cons_of_mem _ (List.mem_cons_self ..)
    · exact List.mem_cons_of_mem _ (List.mem_cons_of_mem _ h)

/-- No element of the list ranks above the one that the fold ends at. -/
theorem rank_le_foldl_select (hselect : ∀ a b, select a b = if rank b < rank a then a else b)
    (l : List α) (a : α) : ∀ x ∈ a :: l, rank x ≤ rank (l.foldl select a) := by
  induction l generalizing a with
  | nil =>
    intro x hx
    rw [List.mem_singleton.mp hx]
    exact le_refl _
  | cons b l ih =>
    have hle : rank a ≤ rank (select a b) ∧ rank b ≤ rank (select a b) := by
      rw [hselect]
      split
      · next h => exact ⟨le_refl _, le_of_lt h⟩
      · next h => exact ⟨not_lt.mp h, le_refl _⟩
    intro x hx
    rw [List.foldl_cons]
    have hfold := ih (select a b)
    rcases List.mem_cons.mp hx with rfl | hx
    · exact le_trans hle.1 (hfold _ (List.mem_cons_self ..))
    · rcases List.mem_cons.mp hx with rfl | hx
      · exact le_trans hle.2 (hfold _ (List.mem_cons_self ..))
      · exact hfold _ (List.mem_cons_of_mem _ hx)

end Select

/-! ## Tips -/

/-- The winner of two tips. -/
def selectTip (tipA tipB : ChainTip) : ChainTip :=
  match forkChoice tipA tipB with
  | .A => tipA
  | .B => tipB

/-- The winner of several, compared one after the other. -/
def selectTips : List ChainTip → Option ChainTip
  | [] => none
  | tip :: tips => some (tips.foldl selectTip tip)

/-- What `fork_choice` goes by: more difficulty, then the lower hash. -/
def rank (tip : ChainTip) : ℕ ×ₗ ℕᵒᵈ :=
  toLex (tip.totalDifficulty.toNat, OrderDual.toDual tip.hash.toNatBE)

theorem rank_lt_iff (a b : ChainTip) :
    rank b < rank a ↔ b.totalDifficulty < a.totalDifficulty ∨
      b.totalDifficulty = a.totalDifficulty ∧ a.hash.toNatBE < b.hash.toNatBE := by
  rw [rank, rank, Prod.Lex.toLex_lt_toLex, OrderDual.toDual_lt_toDual, UInt64.lt_iff_toNat_lt,
    UInt64.toNat_inj]

theorem selectTip_eq (a b : ChainTip) : selectTip a b = if rank b < rank a then a else b := by
  rw [selectTip, forkChoice]
  by_cases hgt : b.totalDifficulty < a.totalDifficulty
  · rw [if_pos hgt, if_pos ((rank_lt_iff a b).mpr (Or.inl hgt))]
  rw [if_neg hgt]
  by_cases hlt : a.totalDifficulty < b.totalDifficulty
  · rw [if_pos hlt, if_neg]
    rintro h
    rcases (rank_lt_iff a b).mp h with h | ⟨h, _⟩
    · exact hgt h
    · exact UInt64.ne_of_lt hlt h.symm
  rw [if_neg hlt]
  have htie : b.totalDifficulty = a.totalDifficulty :=
    UInt64.le_antisymm (UInt64.not_lt.mp hlt) (UInt64.not_lt.mp hgt)
  by_cases hhash : a.hash.toNatBE < b.hash.toNatBE
  · rw [if_pos ((H256.lt_iff _ _).mpr hhash), if_pos ((rank_lt_iff a b).mpr (Or.inr ⟨htie, hhash⟩))]
  · rw [if_neg fun h => hhash ((H256.lt_iff _ _).mp h), if_neg]
    rintro h
    rcases (rank_lt_iff a b).mp h with h | ⟨_, h⟩
    · exact hgt h
    · exact hhash h

variable {tips tips' : List ChainTip}

theorem selectTips_spec (hne : tips ≠ []) :
    ∃ tip ∈ tips, selectTips tips = some tip ∧ ∀ t ∈ tips, rank t ≤ rank tip := by
  cases tips with
  | nil => exact absurd rfl hne
  | cons tip tips =>
    exact ⟨_, mem_foldl_select selectTip_eq tips tip, rfl,
      rank_le_foldl_select selectTip_eq tips tip⟩

/-- Among tips with distinct hashes a rank names its tip. -/
theorem eq_of_rank_eq (hd : (tips.map (·.hash)).Nodup) {a b : ChainTip} (ha : a ∈ tips)
    (hb : b ∈ tips) (h : rank a = rank b) : a = b := by
  have hhash : a.hash.toNatBE = b.hash.toNatBE := by
    have := congrArg (fun k : ℕ ×ₗ ℕᵒᵈ => OrderDual.ofDual (ofLex k).2) h
    exact this
  exact List.inj_on_of_nodup_map hd ha hb (H256.toNatBE_inj hhash)

/-- **Order of arrival.** The winner of a non-empty list of tips with distinct hashes is
the winner of every reordering; it has the highest total difficulty, and among the tips
that share it the smallest hash. -/
theorem forkChoice_perm (tips tips' : List ChainTip) (hne : tips ≠ [])
    (hd : (tips.map (·.hash)).Nodup) (hperm : tips'.Perm tips) :
    ∃ tip ∈ tips, selectTips tips = some tip ∧ selectTips tips' = some tip ∧
      (∀ t ∈ tips, t.totalDifficulty ≤ tip.totalDifficulty) ∧
      ∀ t ∈ tips, t.totalDifficulty = tip.totalDifficulty → tip.hash.le t.hash = true := by
  obtain ⟨tip, hmem, hwins, hbest⟩ := selectTips_spec hne
  have hne' : tips' ≠ [] := fun h => hne (List.nil_perm.mp (h ▸ hperm))
  obtain ⟨tip', hmem', hwins', hbest'⟩ := selectTips_spec hne'
  have heq : tip' = tip := by
    have hin := hperm.mem_iff.mp hmem'
    refine eq_of_rank_eq hd hin hmem (le_antisymm (hbest tip' hin) ?_)
    exact hbest' tip (hperm.mem_iff.mpr hmem)
  rw [heq] at hwins'
  refine ⟨tip, hmem, hwins, hwins', fun t ht => ?_, fun t ht htie => ?_⟩
  · have hnot := (rank_lt_iff t tip).not.mp (not_lt.mpr (hbest t ht))
    exact UInt64.not_lt.mp fun h => hnot (Or.inl h)
  · have hnot := (rank_lt_iff t tip).not.mp (not_lt.mpr (hbest t ht))
    rw [H256.le_iff]
    exact Nat.not_lt.mp fun h => hnot (Or.inr ⟨htie.symm, h⟩)

/-- The two tips of the source's second test, which share their difficulty. -/
def tiedTip (b : UInt8) : ChainTip := ⟨100, ⟨Vector.replicate 32 b⟩, 1000⟩

theorem forkChoice_tied :
    ∃ tip ∈ [tiedTip 1, tiedTip 2], selectTips [tiedTip 1, tiedTip 2] = some tip ∧
      selectTips [tiedTip 2, tiedTip 1] = some tip ∧
      (∀ t ∈ [tiedTip 1, tiedTip 2], t.totalDifficulty ≤ tip.totalDifficulty) ∧
      ∀ t ∈ [tiedTip 1, tiedTip 2], t.totalDifficulty = tip.totalDifficulty →
        tip.hash.le t.hash = true :=
  forkChoice_perm [tiedTip 1, tiedTip 2] [tiedTip 2, tiedTip 1] (List.cons_ne_nil _ _)
    (by decide) (List.Perm.swap _ _ _)

end Pyrax.Sync
