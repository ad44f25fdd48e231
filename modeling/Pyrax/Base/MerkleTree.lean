import Mathlib.Data.List.Basic

/-!
# Merkle trees that duplicate the last node of an odd level

The hash tree of Bitcoin and its descendants: while a level has more than one
node, an odd level repeats its last node, and neighbouring nodes are combined
pairwise. `climb` is that loop (with the level's length as fuel), `Tower`
records a finished one as a derivation, with its height.

Such a tree does not commit to its leaves: a list and its extension by its own
padding have the same root, at *every* level. What is true, for a `combine`
that does not collide on the pairs it is applied to and whose values are never
leaves, is `Tower.binding`: two lists with the same root are equal, or one of
them repeats an element past its first position. The argument has two halves.

* Same height (`Tower.binding_of_height`): going down one level, equal levels
  come from equal padded lists, so the lists are equal or one is the other plus
  its last element (`eq_or_repeats_of_level_eq`); a repetition in a level is
  inherited by the level below (`RepeatsTail.of_level`).
* Different heights (`Tower.leaf_eq_combine`): some leaf of the lower tree is
  a combined node of the higher one.
-/

namespace Pyrax.Base.Merkle

variable {α : Type}

/-- Repeat the last node of an odd level. -/
def padOdd (l : List α) : List α :=
  if l.length % 2 = 1 then l ++ l.getLast?.toList else l

/-- Neighbours two by two. -/
def pairs : List α → List (α × α)
  | a :: b :: rest => (a, b) :: pairs rest
  | _ => []

/-- The next level up. -/
def level (combine : α → α → α) (l : List α) : List α :=
  (pairs (padOdd l)).map fun p => combine p.1 p.2

/-- The loop `while hashes.len() > 1`, on fuel. -/
def climb (combine : α → α → α) : Nat → List α → List α
  | 0, l => l
  | n + 1, l => if 1 < l.length then climb combine n (level combine l) else l

/-- Some element past the first position occurs twice. -/
def RepeatsTail (l : List α) : Prop :=
  ∃ i j, 1 ≤ i ∧ i < j ∧ j < l.length ∧ l[i]? = l[j]?

/-! ## Lengths and positions -/

theorem padOdd_of_even {l : List α} (h : l.length % 2 = 0) : padOdd l = l := by
  unfold padOdd
  rw [if_neg (by omega)]

theorem padOdd_of_odd {l : List α} (h : l.length % 2 = 1) :
    ∃ x, l[l.length - 1]? = some x ∧ padOdd l = l ++ [x] := by
  unfold padOdd
  rw [if_pos h, List.getLast?_eq_getElem?]
  have hlt : l.length - 1 < l.length := by omega
  exact ⟨l[l.length - 1], List.getElem?_eq_getElem hlt, by
    rw [List.getElem?_eq_getElem hlt]; rfl⟩

theorem padOdd_length (l : List α) : (padOdd l).length = 2 * ((l.length + 1) / 2) := by
  rcases Nat.mod_two_eq_zero_or_one l.length with h | h
  · rw [padOdd_of_even h]
    omega
  · obtain ⟨x, _, hx⟩ := padOdd_of_odd h
    rw [hx, List.length_append, List.length_singleton]
    omega

theorem padOdd_getElem? {l : List α} {i : Nat} (h : i < l.length) :
    (padOdd l)[i]? = l[i]? := by
  rcases Nat.mod_two_eq_zero_or_one l.length with hp | hp
  · rw [padOdd_of_even hp]
  · obtain ⟨x, _, hx⟩ := padOdd_of_odd hp
    rw [hx, List.getElem?_append_left h]

theorem mem_of_mem_padOdd {l : List α} {x : α} (h : x ∈ padOdd l) : x ∈ l := by
  rcases Nat.mod_two_eq_zero_or_one l.length with hp | hp
  · rwa [padOdd_of_even hp] at h
  · obtain ⟨y, hy, hx⟩ := padOdd_of_odd hp
    rw [hx, List.mem_append, List.mem_singleton] at h
    rcases h with h | rfl
    · exact h
    · exact List.mem_of_getElem? hy

theorem pairs_length : ∀ l : List α, (pairs l).length = l.length / 2
  | [] => by simp [pairs]
  | [_] => by simp [pairs]
  | _ :: _ :: rest => by
    rw [pairs, List.length_cons, pairs_length rest, List.length_cons, List.length_cons]
    omega

/-- The `i`-th pair is made of the elements `2i` and `2i + 1`. -/
theorem pairs_getElem? : ∀ (l : List α) (i : Nat) (p : α × α),
    (pairs l)[i]? = some p → l[2 * i]? = some p.1 ∧ l[2 * i + 1]? = some p.2
  | [], i, p, h => by simp [pairs] at h
  | [_], i, p, h => by simp [pairs] at h
  | a :: b :: rest, 0, p, h => by
    have hp : (a, b) = p := by simpa [pairs] using h
    subst hp
    simp
  | a :: b :: rest, i + 1, p, h => by
    rw [pairs, List.getElem?_cons_succ] at h
    have ih := pairs_getElem? rest i p h
    have h1 : 2 * (i + 1) = 2 * i + 1 + 1 := by omega
    have h2 : 2 * (i + 1) + 1 = (2 * i + 1) + 1 + 1 := by omega
    rw [h2, h1]
    simpa using ih

theorem mem_of_mem_pairs {l : List α} {p : α × α} (h : p ∈ pairs l) : p.1 ∈ l := by
  obtain ⟨i, hi⟩ := List.mem_iff_getElem?.mp h
  exact List.mem_of_getElem? (pairs_getElem? l i p hi).1

/-- Even-length lists are determined by their pairs. -/
theorem pairs_inj : ∀ {l m : List α}, l.length % 2 = 0 → m.length % 2 = 0 →
    pairs l = pairs m → l = m
  | [], [], _, _, _ => rfl
  | [], [_], _, hm, _ => by simp at hm
  | [_], _, hl, _, _ => by simp at hl
  | _ :: _ :: _, [_], _, hm, _ => by simp at hm
  | [], _ :: _ :: _, _, _, h => by simp [pairs] at h
  | _ :: _ :: _, [], _, _, h => by simp [pairs] at h
  | a :: b :: l, c :: d :: m, hl, hm, h => by
    simp only [pairs, List.cons.injEq, Prod.mk.injEq] at h
    obtain ⟨⟨rfl, rfl⟩, h⟩ := h
    simp only [List.length_cons] at hl hm
    rw [pairs_inj (by omega) (by omega) h]

variable {combine : α → α → α}

theorem level_length (l : List α) : (level combine l).length = (l.length + 1) / 2 := by
  rw [level, List.length_map, pairs_length, padOdd_length]
  omega

theorem mem_level {l : List α} {x : α} (h : x ∈ level combine l) :
    ∃ p ∈ pairs (padOdd l), x = combine p.1 p.2 := by
  obtain ⟨p, hp, rfl⟩ := List.mem_map.mp h
  exact ⟨p, hp, rfl⟩

/-! ## Finished trees -/

/-- `Tower k l r`: after `k` rounds the loop has turned `l` into the one node
`r`. -/
inductive Tower (combine : α → α → α) : Nat → List α → α → Prop where
  | leaf (x : α) : Tower combine 0 [x] x
  | step {k : Nat} {l : List α} {r : α} :
      1 < l.length → Tower combine k (level combine l) r → Tower combine (k + 1) l r

/-- The pairs the loop combines on its way up from `l`. -/
inductive Combines (combine : α → α → α) : List α → α × α → Prop where
  | here {l : List α} {p : α × α} :
      1 < l.length → p ∈ pairs (padOdd l) → Combines combine l p
  | up {l : List α} {p : α × α} :
      1 < l.length → Combines combine (level combine l) p → Combines combine l p

/-- A single node combines nothing. -/
theorem not_combines_of_length_le {l : List α} {p : α × α} (h : l.length ≤ 1) :
    ¬ Combines combine l p := by
  intro hc
  cases hc with
  | here hl _ => omega
  | up hl _ => omega

/-- Over two leaves only the leaves are combined. -/
theorem combines_pair {x y : α} {p : α × α} (h : Combines combine [x, y] p) : p = (x, y) := by
  cases h with
  | here _ hp => simpa [padOdd, pairs] using hp
  | up _ hup => exact absurd hup (not_combines_of_length_le (by simp [level_length]))

/-- The loop ends with one node: its fuel, the length of the list, is enough. -/
theorem climb_tower : ∀ (n : Nat) {l : List α}, l ≠ [] → l.length ≤ n + 1 →
    ∃ k r, Tower combine k l r ∧ climb combine n l = [r] := by
  intro n
  induction n with
  | zero =>
    intro l hne hlen
    have hpos : 0 < l.length := List.length_pos_iff.mpr hne
    obtain ⟨x, rfl⟩ := List.length_eq_one_iff.mp (show l.length = 1 by omega)
    exact ⟨0, x, Tower.leaf x, rfl⟩
  | succ n ih =>
    intro l hne hlen
    have hpos : 0 < l.length := List.length_pos_iff.mpr hne
    rw [climb]
    split
    next hl =>
      have hlev : (level combine l).length = (l.length + 1) / 2 := level_length l
      have hne' : level combine l ≠ [] := fun h => by
        rw [h, List.length_nil] at hlev
        omega
      obtain ⟨k, r, htower, hclimb⟩ := ih hne' (by omega)
      exact ⟨k + 1, r, Tower.step hl htower, hclimb⟩
    next hl =>
      obtain ⟨x, rfl⟩ := List.length_eq_one_iff.mp (show l.length = 1 by omega)
      exact ⟨0, x, Tower.leaf x, rfl⟩

/-! ## Same height -/

/-- `combine` does not collide on the pairs `S`. -/
def InjectiveOn (combine : α → α → α) (S : α × α → Prop) : Prop :=
  ∀ p q, S p → S q → combine p.1 p.2 = combine q.1 q.2 → p = q

theorem InjectiveOn.mono {S T : α × α → Prop} (h : InjectiveOn combine S)
    (hTS : ∀ p, T p → S p) : InjectiveOn combine T :=
  fun p q hp hq => h p q (hTS p hp) (hTS q hq)

theorem map_combine_inj {S : α × α → Prop} (hinj : InjectiveOn combine S) :
    ∀ {ps qs : List (α × α)}, (∀ p ∈ ps, S p) → (∀ q ∈ qs, S q) →
      ps.map (fun p => combine p.1 p.2) = qs.map (fun q => combine q.1 q.2) → ps = qs
  | [], [], _, _, _ => rfl
  | [], _ :: _, _, _, h => by simp at h
  | _ :: _, [], _, _, h => by simp at h
  | p :: ps, q :: qs, hp, hq, h => by
    simp only [List.map_cons, List.cons.injEq] at h
    have hpq := hinj p q (hp p (List.mem_cons_self ..)) (hq q (List.mem_cons_self ..)) h.1
    have htl := map_combine_inj hinj (fun x hx => hp x (List.mem_cons_of_mem _ hx))
      (fun x hx => hq x (List.mem_cons_of_mem _ hx)) h.2
    rw [hpq, htl]

/-- A list extended by its own last element repeats that element. -/
private theorem repeatsTail_concat_last {l : List α} {x : α} (hl : 1 < l.length)
    (hx : l[l.length - 1]? = some x) : RepeatsTail (l ++ [x]) := by
  refine ⟨l.length - 1, l.length, by omega, by omega, by simp, ?_⟩
  rw [List.getElem?_append_left (by omega), hx, List.getElem?_append_right (by omega)]
  simp

/-- Equal levels above come from equal lists, up to a repeated last element. -/
theorem eq_or_repeats_of_level_eq {l m : List α} (hl : 1 < l.length) (hm : 1 < m.length)
    (hinj : InjectiveOn combine fun p => p ∈ pairs (padOdd l) ∨ p ∈ pairs (padOdd m))
    (h : level combine l = level combine m) : l = m ∨ RepeatsTail l ∨ RepeatsTail m := by
  have hpairs : pairs (padOdd l) = pairs (padOdd m) :=
    map_combine_inj hinj (fun _ hp => Or.inl hp) (fun _ hq => Or.inr hq) h
  have hpad : padOdd l = padOdd m :=
    pairs_inj (by rw [padOdd_length]; omega) (by rw [padOdd_length]; omega) hpairs
  rcases Nat.mod_two_eq_zero_or_one l.length with hpl | hpl <;>
    rcases Nat.mod_two_eq_zero_or_one m.length with hpm | hpm
  · -- both even: nothing was padded
    rw [padOdd_of_even hpl, padOdd_of_even hpm] at hpad
    exact Or.inl hpad
  · -- one of them odd: the other one is its padded form
    obtain ⟨x, hx, hmx⟩ := padOdd_of_odd hpm
    rw [padOdd_of_even hpl, hmx] at hpad
    rw [hpad]
    exact Or.inr (Or.inl (repeatsTail_concat_last hm hx))
  · obtain ⟨x, hx, hlx⟩ := padOdd_of_odd hpl
    rw [padOdd_of_even hpm, hlx] at hpad
    rw [← hpad]
    exact Or.inr (Or.inr (repeatsTail_concat_last hl hx))
  · -- both odd: drop the padding on either side
    obtain ⟨x, _, hlx⟩ := padOdd_of_odd hpl
    obtain ⟨y, _, hmy⟩ := padOdd_of_odd hpm
    rw [hlx, hmy] at hpad
    exact Or.inl (List.append_inj_left' hpad rfl)

/-- A repetition in a level repeats the left children below. -/
theorem RepeatsTail.of_level {l : List α}
    (hinj : InjectiveOn combine fun p => p ∈ pairs (padOdd l))
    (h : RepeatsTail (level combine l)) : RepeatsTail l := by
  obtain ⟨i, j, hi, hij, hj, heq⟩ := h
  rw [level_length] at hj
  have hlen : (pairs (padOdd l)).length = (l.length + 1) / 2 := by
    rw [pairs_length, padOdd_length]
    omega
  have hpi : i < (pairs (padOdd l)).length := by omega
  have hpj : j < (pairs (padOdd l)).length := by omega
  rw [level, List.getElem?_map, List.getElem?_map, List.getElem?_eq_getElem hpi,
    List.getElem?_eq_getElem hpj] at heq
  -- equal nodes come from equal pairs; positions 2i and 2j hold their left halves
  have hpair := hinj _ _ (List.getElem_mem hpi) (List.getElem_mem hpj) (Option.some.inj heq)
  have hli := (pairs_getElem? _ i _ (List.getElem?_eq_getElem hpi)).1
  have hlj := (pairs_getElem? _ j _ (List.getElem?_eq_getElem hpj)).1
  rw [padOdd_getElem? (by omega)] at hli hlj
  exact ⟨2 * i, 2 * j, by omega, by omega, by omega, by rw [hli, hlj, hpair]⟩

/-- Two lists under one root at one height are equal, or one repeats an
element past its first position. -/
theorem Tower.binding_of_height {k : Nat} : ∀ {l m : List α} {r : α},
    Tower combine k l r → Tower combine k m r →
    InjectiveOn combine (fun p => Combines combine l p ∨ Combines combine m p) →
    l = m ∨ RepeatsTail l ∨ RepeatsTail m := by
  induction k with
  | zero =>
    intro l m r hl hm _
    cases hl
    cases hm
    exact Or.inl rfl
  | succ k ih =>
    intro l m r hl hm hinj
    cases hl with
    | step hl htl =>
      cases hm with
      | step hm htm =>
        have hup := ih htl htm (hinj.mono fun p hp =>
          hp.imp (Combines.up hl) (Combines.up hm))
        rcases hup with heq | hrep | hrep
        · exact eq_or_repeats_of_level_eq hl hm (hinj.mono fun p hp =>
            hp.imp (Combines.here hl) (Combines.here hm)) heq
        · exact Or.inr (Or.inl (RepeatsTail.of_level
            (hinj.mono fun p hp => Or.inl (Combines.here hl hp)) hrep))
        · exact Or.inr (Or.inr (RepeatsTail.of_level
            (hinj.mono fun p hp => Or.inr (Combines.here hm hp)) hrep))

/-! ## Different heights -/

/-- The left node of a pair combined above the leaves is itself combined. -/
theorem Combines.left_combined {l : List α} {p : α × α} (hl : 1 < l.length)
    (h : Combines combine (level combine l) p) :
    ∃ q, Combines combine l q ∧ p.1 = combine q.1 q.2 := by
  generalize hm : level combine l = m at h
  induction h generalizing l with
  | here _ hp =>
    subst hm
    obtain ⟨q, hq, heq⟩ := mem_level (mem_of_mem_padOdd (mem_of_mem_pairs hp))
    exact ⟨q, Combines.here hl hq, heq⟩
  | up hlen _ ih =>
    subst hm
    obtain ⟨q, hq, heq⟩ := ih hlen rfl
    exact ⟨q, Combines.up hl hq, heq⟩

/-- The root of a tree of positive height is a combined node. -/
theorem Tower.root_combined {k : Nat} {l : List α} {r : α}
    (h : Tower combine (k + 1) l r) : ∃ p, Combines combine l p ∧ r = combine p.1 p.2 := by
  induction k generalizing l with
  | zero =>
    cases h with
    | step hl htop =>
      have hr : r ∈ level combine l := by
        generalize level combine l = m at htop
        cases htop
        exact List.mem_singleton_self _
      obtain ⟨p, hp, heq⟩ := mem_level hr
      exact ⟨p, Combines.here hl hp, heq⟩
  | succ k ih =>
    cases h with
    | step hl htop =>
      obtain ⟨p, hp, heq⟩ := ih htop
      exact ⟨p, Combines.up hl hp, heq⟩

/-- So is the root over more than one leaf. -/
theorem Tower.root_combined_of_length {k : Nat} {l : List α} {r : α}
    (h : Tower combine k l r) (hl : 1 < l.length) :
    ∃ p, Combines combine l p ∧ r = combine p.1 p.2 := by
  cases k with
  | zero =>
    cases h
    exact absurd hl (by simp)
  | succ k => exact h.root_combined

/-- Trees of different heights under one root: a leaf of the lower one is a
combined node of the higher one. -/
theorem Tower.leaf_eq_combine {d k : Nat} : ∀ {l m : List α} {r : α},
    Tower combine k l r → Tower combine (k + d + 1) m r →
    InjectiveOn combine (fun p => Combines combine l p ∨ Combines combine m p) →
    ∃ x ∈ l, ∃ p, Combines combine m p ∧ x = combine p.1 p.2 := by
  induction k with
  | zero =>
    intro l m r hl hm _
    cases hl
    rw [Nat.zero_add] at hm
    -- the lower tree is one leaf, the root itself
    obtain ⟨p, hp, heq⟩ := hm.root_combined
    exact ⟨r, List.mem_singleton_self _, p, hp, heq⟩
  | succ k ih =>
    intro l m r hl hm hinj
    rw [show k + 1 + d + 1 = (k + d + 1) + 1 by omega] at hm
    cases hl with
    | step hl htl =>
      cases hm with
      | step hm htm =>
        obtain ⟨x, hx, p, hp, hxp⟩ := ih htl htm (hinj.mono fun p hp =>
          hp.imp (Combines.up hl) (Combines.up hm))
        obtain ⟨q, hq, hxq⟩ := mem_level hx
        -- the node above the leaves is combined in both trees, from one pair
        have hpq : q = p := hinj q p (Or.inl (Combines.here hl hq))
          (Or.inr (Combines.up hm hp)) (hxq.symm.trans hxp)
        obtain ⟨p', hp', heq⟩ := Combines.left_combined hm hp
        refine ⟨q.1, mem_of_mem_padOdd (mem_of_mem_pairs hq), p', hp', ?_⟩
        rw [hpq, heq]

/-- **Binding up to repetition.** When `combine` does not collide on the pairs
of the two trees and never yields one of their leaves, equal roots mean equal
lists, or a repeated element past the first position. -/
theorem Tower.binding {k₁ k₂ : Nat} {l m : List α} {r : α}
    (hl : Tower combine k₁ l r) (hm : Tower combine k₂ m r)
    (hinj : InjectiveOn combine fun p => Combines combine l p ∨ Combines combine m p)
    (hsep : ∀ x p, x ∈ l ∨ x ∈ m → Combines combine l p ∨ Combines combine m p →
      x ≠ combine p.1 p.2) :
    l = m ∨ RepeatsTail l ∨ RepeatsTail m := by
  rcases Nat.lt_trichotomy k₁ k₂ with hlt | heq | hgt
  · obtain ⟨d, rfl⟩ : ∃ d, k₂ = k₁ + d + 1 := ⟨k₂ - k₁ - 1, by omega⟩
    obtain ⟨x, hx, p, hp, hxp⟩ := hl.leaf_eq_combine hm hinj
    exact absurd hxp (hsep x p (Or.inl hx) (Or.inr hp))
  · subst heq
    exact hl.binding_of_height hm hinj
  · obtain ⟨d, rfl⟩ : ∃ d, k₁ = k₂ + d + 1 := ⟨k₁ - k₂ - 1, by omega⟩
    obtain ⟨x, hx, p, hp, hxp⟩ := hm.leaf_eq_combine hl (hinj.mono fun p hp => hp.symm)
    exact absurd hxp (hsep x p (Or.inr hx) (Or.inl hp))

end Pyrax.Base.Merkle
