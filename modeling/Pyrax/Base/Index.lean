import Pyrax.Base.Column
import Mathlib.Data.List.Nodup

/-!
# A list and its index

A list of records beside a map from a key of each record to its place, as a cache
keeps them to find a record without a search. `Indexes` says that the map knows
exactly the places of the list; then no two records share a key, and looking up a key
is looking for its record (`lookup_bind_eq_some_iff`). `reindex` builds the map anew.
-/

namespace Pyrax.Base

variable {K V : Type} [DecidableEq K] {key : V → K} {m : Column K Nat} {l : List V}

/-- The map sends a key to `i` exactly when the record at `i` has it. -/
def Indexes (key : V → K) (m : Column K Nat) (l : List V) : Prop :=
  ∀ k i, m.lookup k = some i ↔ ∃ v, l[i]? = some v ∧ key v = k

/-- The map a loop over the list with its places builds. -/
def reindex (key : V → K) (l : List V) : Column K Nat :=
  l.zipIdx.foldl (fun m e => m.insert (key e.1) e.2) ∅

theorem reindex_snoc (l : List V) (v : V) :
    reindex key (l ++ [v]) = (reindex key l).insert (key v) l.length := by
  rw [reindex, List.zipIdx_append, List.foldl_append]
  simp [reindex]

namespace Indexes

theorem nil : Indexes key ∅ ([] : List V) := by
  intro k i
  simp

theorem mem_iff (h : Indexes key m l) {k : K} : k ∈ m ↔ ∃ v ∈ l, key v = k := by
  rw [← Finmap.lookup_isSome, Option.isSome_iff_exists]
  constructor
  · rintro ⟨i, hi⟩
    obtain ⟨v, hv, hk⟩ := (h k i).mp hi
    exact ⟨v, List.mem_of_getElem? hv, hk⟩
  · rintro ⟨v, hv, hk⟩
    obtain ⟨i, hi⟩ := List.mem_iff_getElem?.mp hv
    exact ⟨i, (h k i).mpr ⟨v, hi, hk⟩⟩

/-- Looking a key up and reading the list there. -/
theorem lookup_bind_eq_some_iff (h : Indexes key m l) {k : K} {v : V} :
    ((m.lookup k).bind fun i => l[i]?) = some v ↔ v ∈ l ∧ key v = k := by
  rw [Option.bind_eq_some_iff]
  constructor
  · rintro ⟨i, hi, hv⟩
    obtain ⟨w, hw, hk⟩ := (h k i).mp hi
    cases hw.symm.trans hv
    exact ⟨List.mem_of_getElem? hv, hk⟩
  · rintro ⟨hv, hk⟩
    obtain ⟨i, hi⟩ := List.mem_iff_getElem?.mp hv
    exact ⟨i, (h k i).mpr ⟨v, hi, hk⟩, hi⟩

/-- No two records share a key. -/
theorem nodup (h : Indexes key m l) : (l.map key).Nodup := by
  rw [List.nodup_iff_injective_getElem]
  rintro ⟨i, hi⟩ ⟨j, hj⟩ heq
  rw [List.length_map] at hi hj
  simp only [List.getElem_map] at heq
  have hati := (h (key l[i]) i).mpr ⟨l[i], List.getElem?_eq_getElem hi, rfl⟩
  have hatj := (h (key l[i]) j).mpr ⟨l[j], List.getElem?_eq_getElem hj, heq.symm⟩
  exact Fin.ext (Option.some.inj (hati.symm.trans hatj))

/-- A record under a new key goes to the end of both. -/
theorem snoc (h : Indexes key m l) {v : V} (hnew : key v ∉ m) :
    Indexes key (m.insert (key v) l.length) (l ++ [v]) := by
  intro k i
  rcases Nat.lt_trichotomy i l.length with hi | rfl | hi
  · -- the old places
    rw [List.getElem?_append_left hi, ← h k i]
    by_cases hk : k = key v
    · rw [hk, Finmap.lookup_insert, Finmap.lookup_eq_none.mpr hnew, Option.some.injEq]
      constructor
      · intro hlen
        omega
      · intro hnone
        cases hnone
    · rw [Finmap.lookup_insert_of_ne _ hk]
  · -- the new one
    rw [List.getElem?_concat_length]
    by_cases hk : k = key v
    · rw [hk, Finmap.lookup_insert]
      simp
    · rw [Finmap.lookup_insert_of_ne _ hk, h k l.length, List.getElem?_eq_none (Nat.le_refl _)]
      simp [Ne.symm hk]
  · -- and none beyond
    have hnone : (l ++ [v])[i]? = none := by
      rw [List.getElem?_eq_none_iff, List.length_append, List.length_singleton]
      omega
    rw [hnone]
    by_cases hk : k = key v
    · rw [hk, Finmap.lookup_insert, Option.some.injEq]
      simp only [reduceCtorEq, false_and, exists_false, iff_false]
      omega
    · rw [Finmap.lookup_insert_of_ne _ hk, h k i, List.getElem?_eq_none (by omega)]

/-- A list without a repeated key is indexed by the map built from it. -/
theorem of_nodup (h : (l.map key).Nodup) : Indexes key (reindex key l) l := by
  induction l using List.reverseRecOn with
  | nil => exact nil
  | append_singleton l v ih =>
    rw [List.map_append, List.map_singleton, List.nodup_append] at h
    obtain ⟨hl, -, hnew⟩ := h
    rw [reindex_snoc]
    refine (ih hl).snoc fun hmem => ?_
    obtain ⟨w, hw, hkey⟩ := (ih hl).mem_iff.mp hmem
    exact hnew _ (List.mem_map_of_mem hw) _ (List.mem_singleton_self _) hkey

end Indexes

end Pyrax.Base
