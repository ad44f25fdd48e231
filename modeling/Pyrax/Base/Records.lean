import Mathlib.Algebra.BigOperators.Group.Finset.Piecewise
import Mathlib.Algebra.Order.BigOperators.Group.Finset
import Mathlib.Algebra.Order.BigOperators.Group.Multiset
import Mathlib.Data.List.Sort
import Pyrax.Base.Column

/-!
# The records of a column

What `Column.total` is for amounts, `Column.records` is for whole records: the
multiset of what a function reads off every entry. Putting under a fresh key adds
one record, erasing takes one away, and putting over a key replaces one, so the
number of records tells whether a key was fresh. A measure may take values in any
commutative monoid, and its sum over the records moves along; sorted by a label, the
lots add up to the whole (`total_eq_sum_total`). `Column.mapValues`
rewrites all entries in place, as a loop over `values_mut` does, `Column.filter`
keeps some of them, and a `KeyOrder` is one of the orders in which a loop can walk
them.
-/

namespace Pyrax.Base.Column

variable {K V W : Type}

/-- What `f` reads off every entry. -/
def records (f : V → W) (m : Column K V) : Multiset W := m.entries.map fun e => f e.2

/-- Rewrite every value, whatever the order. -/
def mapValues (g : K → V → V) (m : Column K V) : Column K V :=
  ⟨m.entries.map fun e => ⟨e.1, g e.1 e.2⟩, by
    have hkeys : (m.entries.map fun e => (⟨e.1, g e.1 e.2⟩ : Sigma fun _ : K => V)).keys
        = m.entries.keys := by
      rw [Multiset.keys, Multiset.keys, Multiset.map_map]
      rfl
    rw [← Multiset.nodup_keys, hkeys]
    exact m.nodupKeys.nodup_keys⟩

/-- Keep the entries that pass a test. -/
def filter (p : K → V → Bool) (m : Column K V) : Column K V :=
  ⟨m.entries.filter fun e => p e.1 e.2, by
    rw [← Multiset.nodup_keys]
    exact Multiset.nodup_of_le (Multiset.map_le_map (Multiset.filter_le _ _)) m.nodupKeys.nodup_keys⟩

variable [DecidableEq K] {m : Column K V} {k : K} {v w : V}

theorem lookup_filter (p : K → V → Bool) (m : Column K V) (k : K) :
    (filter p m).lookup k = (m.lookup k).filter (p k) := by
  refine Option.ext fun v => ?_
  rw [Option.filter_eq_some_iff, Finmap.lookup_eq_some_iff, Finmap.lookup_eq_some_iff, filter,
    Multiset.mem_filter]

theorem lookup_mapValues (g : K → V → V) (m : Column K V) (k : K) :
    (mapValues g m).lookup k = (m.lookup k).map (g k) := by
  induction m using Finmap.induction_on with
  | H l => exact List.dlookup_map₂ (f := g) k

/-- A measure that does not see the rewriting reads the same records. -/
theorem records_mapValues {f : V → W} {g : K → V → V}
    (h : ∀ k v, m.lookup k = some v → f (g k v) = f v) :
    records f (mapValues g m) = records f m := by
  rw [records, records, mapValues, Multiset.map_map]
  exact Multiset.map_congr rfl fun e he => h e.1 e.2 (Finmap.lookup_eq_some_iff.mpr he)

theorem records_insert_of_notMem (f : V → W) (v : V) (h : k ∉ m) :
    records f (m.insert k v) = f v ::ₘ records f m := by
  rw [records, records, Finmap.entries_insert_of_notMem h, Multiset.map_cons]

theorem insert_erase (h : m.lookup k = some v) : (m.erase k).insert k v = m := by
  refine Finmap.ext_lookup fun k' => ?_
  by_cases hk : k' = k
  · rw [hk, Finmap.lookup_insert, h]
  · rw [Finmap.lookup_insert_of_ne _ hk, Finmap.lookup_erase_ne hk]

theorem erase_insert (m : Column K V) (k : K) (v : V) : (m.erase k).insert k v = m.insert k v := by
  refine Finmap.ext_lookup fun k' => ?_
  by_cases hk : k' = k
  · rw [hk, Finmap.lookup_insert, Finmap.lookup_insert]
  · rw [Finmap.lookup_insert_of_ne _ hk, Finmap.lookup_insert_of_ne _ hk,
      Finmap.lookup_erase_ne hk]

theorem erase_insert_self (m : Column K V) (k : K) (v : V) : (m.insert k v).erase k = m.erase k := by
  refine Finmap.ext_lookup fun k' => ?_
  by_cases hk : k' = k
  · rw [hk, Finmap.lookup_erase, Finmap.lookup_erase]
  · rw [Finmap.lookup_erase_ne hk, Finmap.lookup_insert_of_ne _ hk, Finmap.lookup_erase_ne hk]

/-- Erasing where nothing stands changes nothing. -/
theorem erase_of_notMem (h : k ∉ m) : m.erase k = m := by
  refine Finmap.ext_lookup fun k' => ?_
  by_cases hk : k' = k
  · rw [hk, Finmap.lookup_erase, Finmap.lookup_eq_none.mpr h]
  · rw [Finmap.lookup_erase_ne hk]

theorem keys_insert (m : Column K V) (k : K) (v : V) : (m.insert k v).keys = insert k m.keys := by
  ext k'
  rw [Finmap.mem_keys, Finmap.mem_insert, Finset.mem_insert, Finmap.mem_keys]

theorem keys_erase (m : Column K V) (k : K) : (m.erase k).keys = m.keys.erase k := by
  ext k'
  rw [Finmap.mem_keys, Finmap.mem_erase, Finset.mem_erase, Finmap.mem_keys]

/-- Putting what stands there changes nothing. -/
theorem insert_of_lookup (h : m.lookup k = some v) : m.insert k v = m := by
  rw [← erase_insert, insert_erase h]

/-- Erasing takes away the one record that stood there. -/
theorem records_erase (f : V → W) (h : m.lookup k = some v) :
    f v ::ₘ records f (m.erase k) = records f m := by
  rw [← records_insert_of_notMem f v Finmap.notMem_erase_self, insert_erase h]

/-- Putting over a record replaces it. -/
theorem records_replace (f : V → W) (h : m.lookup k = some v) (w : V) :
    f v ::ₘ records f (m.insert k w) = f w ::ₘ records f m := by
  rw [← erase_insert, records_insert_of_notMem f w Finmap.notMem_erase_self, Multiset.cons_swap,
    records_erase f h]

/-- Where `f` sees no difference, replacing a record changes nothing. -/
theorem records_insert_same (f : V → W) (h : m.lookup k = some v) {w : V} (hf : f w = f v) :
    records f (m.insert k w) = records f m := by
  have hrep := records_replace f h w
  rw [hf] at hrep
  exact Multiset.cons_inj_right _ |>.mp hrep

/-- What holds of every record and of a new one holds after putting it. -/
theorem forall_lookup_insert {p : V → Prop} (h : ∀ k v, m.lookup k = some v → p v) (hv : p v) :
    ∀ k' v', (m.insert k v).lookup k' = some v' → p v' := by
  intro k' v' hlookup
  by_cases hk : k' = k
  · rw [hk, Finmap.lookup_insert] at hlookup
    exact Option.some.inj hlookup ▸ hv
  · rw [Finmap.lookup_insert_of_ne _ hk] at hlookup
    exact h k' v' hlookup

theorem forall_lookup_erase {p : V → Prop} (h : ∀ k v, m.lookup k = some v → p v) (k : K) :
    ∀ k' v', (m.erase k).lookup k' = some v' → p v' := by
  intro k' v' hlookup
  by_cases hk : k' = k
  · rw [hk, Finmap.lookup_erase] at hlookup
    cases hlookup
  · rw [Finmap.lookup_erase_ne hk] at hlookup
    exact h k' v' hlookup

/-! ## Sums -/

variable {M : Type} [AddCommMonoid M]

omit [DecidableEq K] in
theorem total_eq_sum (f : V → Nat) (m : Column K V) : total f m = (records f m).sum := rfl

theorem sum_records_insert (f : V → M) (v : V) (h : k ∉ m) :
    (records f (m.insert k v)).sum = f v + (records f m).sum := by
  rw [records_insert_of_notMem f v h, Multiset.sum_cons]

theorem sum_records_erase (f : V → M) (h : m.lookup k = some v) :
    f v + (records f (m.erase k)).sum = (records f m).sum := by
  rw [← records_erase f h, Multiset.sum_cons]

theorem sum_records_replace (f : V → M) (h : m.lookup k = some v) (w : V) :
    f v + (records f (m.insert k w)).sum = f w + (records f m).sum := by
  rw [← Multiset.sum_cons, records_replace f h, Multiset.sum_cons]

/-- A replaced record moves a total by its own change. -/
theorem total_replace (f : V → Nat) (h : m.lookup k = some v) (w : V) :
    total f (m.insert k w) + f v = total f m + f w := by
  have hinsert := total_insert f m k w
  rw [valueAt, h] at hinsert
  exact hinsert

/-- A record counts for no more than all of them. -/
theorem le_total (f : V → Nat) (h : m.lookup k = some v) : f v ≤ total f m := by
  have herase := total_erase f m k
  rw [valueAt, h] at herase
  exact herase ▸ Nat.le_add_left _ _

omit [DecidableEq K] in
theorem total_add (f g : V → Nat) (m : Column K V) :
    total (fun v => f v + g v) m = total f m + total g m :=
  Multiset.sum_map_add

omit [DecidableEq K] in
theorem total_mapValues (f : V → Nat) (g : V → V) (m : Column K V) :
    total f (mapValues (fun _ => g) m) = total (fun v => f (g v)) m := by
  rw [total, total, mapValues, Multiset.map_map]
  rfl

omit [DecidableEq K] in
/-- What counts for one at most counts up to the number of keys. -/
theorem total_le_card {f : V → Nat} (h : ∀ v, f v ≤ 1) (m : Column K V) :
    total f m ≤ m.keys.card := by
  have hone : total (fun _ => 1) m = m.keys.card := by
    rw [total, Multiset.map_const', Multiset.sum_replicate]
    exact (Nat.mul_one _).trans (Multiset.card_map _ _).symm
  rw [← hone]
  exact Multiset.sum_map_le_sum_map _ _ fun e _ => h e.2

omit [DecidableEq K] in
theorem total_le_total {f g : V → Nat} (h : ∀ k v, ⟨k, v⟩ ∈ m.entries → f v ≤ g v) :
    total f m ≤ total g m :=
  Multiset.sum_map_le_sum_map _ _ fun e he => h e.1 e.2 he

omit [DecidableEq K] in
/-- The entries sorted by a label, and each lot added up. -/
theorem total_eq_sum_total {ι : Type} [Fintype ι] [DecidableEq ι] (label : V → ι) (f : V → Nat)
    (m : Column K V) : total f m = ∑ i, total (fun v => if label v = i then f v else 0) m := by
  have hone : ∀ v, f v = ∑ i, if label v = i then f v else 0 := by
    intro v
    rw [Finset.sum_ite_eq, if_pos (Finset.mem_univ _)]
  calc total f m = (m.entries.map fun e => ∑ i, if label e.2 = i then f e.2 else 0).sum :=
        congrArg Multiset.sum (Multiset.map_congr rfl fun e _ => hone e.2)
    _ = ∑ i, total (fun v => if label v = i then f v else 0) m :=
        Multiset.sum_map_sum_map _ _

/-- A total is the sum over any keys among which all of its own are. -/
theorem total_eq_sum_valueAt (f : V → Nat) (m : Column K V) {s : Finset K} (h : m.keys ⊆ s) :
    total f m = ∑ k ∈ s, valueAt f m k := by
  have hout : ∀ k ∈ s, k ∉ m.keys → valueAt f m k = 0 := by
    intro k _ hk
    rw [valueAt, Finmap.lookup_eq_none.mpr fun hmem => hk (Finmap.mem_keys.mpr hmem)]
    rfl
  rw [← Finset.sum_subset h hout, total, Finset.sum]
  refine congrArg Multiset.sum ?_
  have hkeys : m.keys.val = m.entries.map Sigma.fst := rfl
  rw [hkeys, Multiset.map_map]
  refine Multiset.map_congr rfl fun e he => ?_
  rw [Function.comp_apply, valueAt, Finmap.lookup_eq_some_iff.mpr he]
  rfl

/-- What is no more under any key is no more in all. -/
theorem total_le_of_valueAt_le {f g : V → Nat} {m m' : Column K V}
    (h : ∀ k, valueAt f m k ≤ valueAt g m' k) : total f m ≤ total g m' := by
  have hleft : m.keys ⊆ m.keys ∪ m'.keys := Finset.subset_union_left
  have hright : m'.keys ⊆ m.keys ∪ m'.keys := Finset.subset_union_right
  rw [total_eq_sum_valueAt f m hleft, total_eq_sum_valueAt g m' hright]
  exact Finset.sum_le_sum fun k _ => h k

/-! ## Walking the entries -/

/-- The order in which a hash map yields its keys: any, as long as each comes
once. -/
structure KeyOrder (K V : Type) where
  keys : Column K V → List K
  nodup : ∀ m, (keys m).Nodup
  mem_iff : ∀ m k, k ∈ keys m ↔ k ∈ m

/-- The entries in that order. -/
def KeyOrder.entries (order : KeyOrder K V) (m : Column K V) : List (K × V) :=
  (order.keys m).filterMap fun k => (m.lookup k).map fun v => (k, v)

theorem KeyOrder.mem_entries {order : KeyOrder K V} :
    (k, v) ∈ order.entries m ↔ m.lookup k = some v := by
  rw [KeyOrder.entries, List.mem_filterMap]
  constructor
  · rintro ⟨k', _, h⟩
    obtain ⟨v', hv', heq⟩ := Option.map_eq_some_iff.mp h
    cases heq
    exact hv'
  · intro h
    exact ⟨k, (order.mem_iff m k).mpr (Finmap.mem_of_lookup_eq_some h), by rw [h]; rfl⟩

theorem KeyOrder.map_fst_entries (order : KeyOrder K V) (m : Column K V) :
    (order.entries m).map Prod.fst = order.keys m := by
  rw [KeyOrder.entries, List.map_filterMap]
  have hall : ∀ k ∈ order.keys m, ((m.lookup k).map fun v => (k, v)).map Prod.fst = some k := by
    intro k hk
    obtain ⟨v, hv⟩ := Finmap.mem_iff.mp ((order.mem_iff m k).mp hk)
    rw [hv]
    rfl
  rw [List.filterMap_congr hall]
  exact List.filterMap_some

/-- However they are walked, the entries are the same. -/
theorem KeyOrder.coe_entries (order : KeyOrder K V) (m : Column K V) :
    (↑(order.entries m) : Multiset (K × V)) = m.entries.map fun e => (e.1, e.2) := by
  refine (Multiset.Nodup.ext ?_ ?_).mpr fun e => ?_
  · refine Multiset.coe_nodup.mpr (List.Nodup.of_map Prod.fst ?_)
    rw [order.map_fst_entries]
    exact order.nodup m
  · refine m.nodup_entries.map fun e₁ e₂ heq => ?_
    obtain ⟨k₁, v₁⟩ := e₁
    obtain ⟨k₂, v₂⟩ := e₂
    cases heq
    rfl
  · rw [Multiset.mem_coe, Multiset.mem_map]
    constructor
    · intro he
      exact ⟨⟨e.1, e.2⟩, Finmap.lookup_eq_some_iff.mp (order.mem_entries.mp he), rfl⟩
    · rintro ⟨e', he', rfl⟩
      exact order.mem_entries.mpr (Finmap.lookup_eq_some_iff.mpr he')

theorem KeyOrder.sum_entries (order : KeyOrder K V) (f : V → Nat) (m : Column K V) :
    ((order.entries m).map fun e => f e.2).sum = total f m := by
  have hcoe := congrArg (fun entries => (Multiset.map (fun e : K × V => f e.2) entries).sum)
    (order.coe_entries m)
  rw [Multiset.map_map, Multiset.map_coe, Multiset.sum_coe] at hcoe
  exact hcoe

/-- One write for each entry, however they are walked. -/
theorem KeyOrder.lookup_write_entries (order : KeyOrder K V) {W : Type} (base : Column K W)
    (m : Column K V) {g : K → V → WriteOp K W} (hkey : ∀ k v, (g k v).key = k) (k : K) :
    (base.write ((order.entries m).map fun e => g e.1 e.2)).lookup k = match m.lookup k with
      | some v => (g k v).value
      | none => base.lookup k := by
  cases hk : m.lookup k with
  | none =>
    refine lookup_write_of_notMem fun op hop heq => ?_
    obtain ⟨e, he, rfl⟩ := List.mem_map.mp hop
    rw [hkey] at heq
    rw [← heq, order.mem_entries.mp he] at hk
    cases hk
  | some v =>
    have hmem : g k v ∈ (order.entries m).map fun e => g e.1 e.2 :=
      List.mem_map_of_mem (order.mem_entries.mpr hk)
    rw [lookup_write]
    cases hlast : lastWrite k ((order.entries m).map fun e => g e.1 e.2) with
    | none => exact absurd (hkey k v) (lastWrite_eq_none_iff.mp hlast _ hmem)
    | some r =>
      -- the operation that has the last word is the one of this entry
      obtain ⟨op, hop, hopkey, rfl⟩ := exists_of_lastWrite hlast
      obtain ⟨e, he, rfl⟩ := List.mem_map.mp hop
      rw [hkey] at hopkey
      rw [← hopkey, order.mem_entries.mp he] at hk
      cases hk
      rw [hopkey]
      rfl

theorem KeyOrder.length_keys (order : KeyOrder K V) (m : Column K V) :
    (order.keys m).length = m.keys.card := by
  have hkeys : (order.keys m).toFinset = m.keys := by
    ext k
    rw [List.mem_toFinset, order.mem_iff, Finmap.mem_keys]
  rw [← hkeys, List.toFinset_card_of_nodup (order.nodup m)]

/-- The order of the keys themselves, by insertion so that it can be evaluated. -/
def KeyOrder.sorted (r : K → K → Prop) [DecidableRel r] [IsTrans K r] [Std.Antisymm r]
    [Std.Total r] : KeyOrder K V where
  keys m := Quot.liftOn m.keys.val (List.insertionSort r) fun l l' h =>
    (((List.perm_insertionSort r l).trans h).trans (List.perm_insertionSort r l').symm).eq_of_pairwise'
      (List.pairwise_insertionSort r l) (List.pairwise_insertionSort r l')
  nodup m := by
    obtain ⟨l, hl⟩ := Quot.exists_rep m.keys.val
    have hcoe : (↑l : Multiset K) = m.keys.val := hl
    have hnodup : l.Nodup := by
      rw [← Multiset.coe_nodup, hcoe]
      exact m.keys.nodup
    rw [← hl]
    exact (List.perm_insertionSort r l).nodup_iff.mpr hnodup
  mem_iff m k := by
    obtain ⟨l, hl⟩ := Quot.exists_rep m.keys.val
    rw [← Finmap.mem_keys, ← Finset.mem_val, ← hl]
    exact (List.perm_insertionSort r l).mem_iff

/-- What is read off the entries in the order of their keys tells what is read off
under each key. -/
theorem KeyOrder.map_sorted_eq_iff (r : K → K → Prop) [DecidableRel r] [IsTrans K r]
    [Std.Antisymm r] [Std.Total r] {f : K → V → W}
    (hkey : ∀ {k k' v v'}, f k v = f k' v' → k = k') {m' : Column K V} :
    ((sorted r).entries m).map (fun e => f e.1 e.2) = ((sorted r).entries m').map (fun e => f e.1 e.2)
      ↔ ∀ k, (m.lookup k).map (f k) = (m'.lookup k).map (f k) := by
  constructor
  · -- an entry of one has a counterpart in the other, and it is under the same key
    have hone : ∀ {m m' : Column K V}, ((sorted r).entries m).map (fun e => f e.1 e.2)
        = ((sorted r).entries m').map (fun e => f e.1 e.2) → ∀ {k v}, m.lookup k = some v →
        ∃ v', m'.lookup k = some v' ∧ f k v = f k v' := by
      intro m m' h k v hk
      have hmem : f k v ∈ ((sorted r).entries m).map fun e => f e.1 e.2 :=
        List.mem_map_of_mem ((sorted r).mem_entries.mpr hk)
      rw [h] at hmem
      obtain ⟨⟨k', v'⟩, he, heq⟩ := List.mem_map.mp hmem
      obtain rfl : k' = k := hkey heq
      exact ⟨v', (sorted r).mem_entries.mp he, heq.symm⟩
    intro h k
    cases hk : m.lookup k with
    | some v =>
      obtain ⟨v', hv', heq⟩ := hone h hk
      rw [hv', Option.map_some, Option.map_some, heq]
    | none =>
      cases hk' : m'.lookup k with
      | none => rfl
      | some v' =>
        obtain ⟨v, hv, _⟩ := hone h.symm hk'
        rw [hk] at hv
        cases hv
  · intro h
    have hkeys : m.keys = m'.keys := by
      ext k
      have hk := congrArg Option.isSome (h k)
      rw [Option.isSome_map, Option.isSome_map] at hk
      rw [Finmap.mem_keys, Finmap.mem_keys, ← Finmap.lookup_isSome, ← Finmap.lookup_isSome, hk]
    rw [KeyOrder.entries, KeyOrder.entries, List.map_filterMap, List.map_filterMap]
    have hsorted : (sorted (V := V) r).keys m = (sorted r).keys m' := by
      show Quot.liftOn m.keys.val _ _ = Quot.liftOn m'.keys.val _ _
      rw [hkeys]
    rw [hsorted]
    refine List.filterMap_congr fun k _ => ?_
    rw [Option.map_map, Option.map_map]
    exact h k

/-- The order of a given list, as far as it names the keys; some order otherwise. -/
noncomputable def KeyOrder.ofList (l : List K) : KeyOrder K V where
  keys m :=
    if (l.filter (· ∈ m)).Nodup ∧ (l.filter (· ∈ m)).toFinset = m.keys then l.filter (· ∈ m)
    else m.keys.toList
  nodup m := by
    split
    · next h => exact h.1
    · exact Finset.nodup_toList _
  mem_iff m k := by
    split
    · next h => rw [← List.mem_toFinset, h.2, Finmap.mem_keys]
    · rw [Finset.mem_toList, Finmap.mem_keys]

end Pyrax.Base.Column
