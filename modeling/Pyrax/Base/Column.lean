import Mathlib.Data.Finmap
import Mathlib.Algebra.BigOperators.Group.Multiset.Basic
import Mathlib.Algebra.Order.Ring.Nat

/-!
# Key-value columns and write batches

A column of a key-value store is a finite map; a write batch is a list of
puts and deletes that takes effect in order. This is the whole interface an
embedded store such as RocksDB offers to a writer, and it is all the storage
theorems need.

Three groups of facts about `Column.write`:

* pointwise: a key no operation of the batch names is untouched
  (`lookup_write_of_notMem`), a key whose last operation is a delete reads
  `none`, and `lookup_write` gives the general answer through `lastWrite`;
* composition: writing a concatenation is writing one part after the other
  (`write_append`);
* accounting: with `total f` the exact sum of a measure over the entries, a
  batch that deletes pairwise distinct keys cannot leave more than the old
  total, less what stood at the deleted keys, plus what was put
  (`total_write_le`). Puts may overwrite, and a key may be put and deleted in
  either order: the bound holds whatever the interleaving.
-/

namespace Pyrax.Base

variable {K V : Type}

/-- One column: a finite map from keys to values. -/
abbrev Column (K V : Type) := Finmap fun _ : K => V

/-- One operation of a write batch. -/
inductive WriteOp (K V : Type) where
  | put (k : K) (v : V)
  | delete (k : K)
  deriving DecidableEq, Repr

namespace WriteOp

/-- The key an operation names. -/
def key : WriteOp K V → K
  | put k _ => k
  | delete k => k

/-- What a reader finds under that key afterwards. -/
def value : WriteOp K V → Option V
  | put _ v => some v
  | delete _ => none

/-- The keys a batch deletes, in order. -/
def deletes : List (WriteOp K V) → List K
  | [] => []
  | put _ _ :: ops => deletes ops
  | delete k :: ops => k :: deletes ops

/-- The values a batch puts, in order. -/
def puts : List (WriteOp K V) → List V
  | [] => []
  | put _ v :: ops => v :: puts ops
  | delete _ :: ops => puts ops

theorem deletes_append (a b : List (WriteOp K V)) :
    deletes (a ++ b) = deletes a ++ deletes b := by
  induction a with
  | nil => rfl
  | cons op a ih => cases op <;> simp [deletes, ih]

theorem puts_append (a b : List (WriteOp K V)) : puts (a ++ b) = puts a ++ puts b := by
  induction a with
  | nil => rfl
  | cons op a ih => cases op <;> simp [puts, ih]

end WriteOp

namespace Column

variable [DecidableEq K]

/-- Apply one operation. -/
def apply (m : Column K V) : WriteOp K V → Column K V
  | .put k v => m.insert k v
  | .delete k => m.erase k

/-- Apply a batch, first operation first. -/
def write (m : Column K V) (ops : List (WriteOp K V)) : Column K V := ops.foldl apply m

@[simp] theorem write_nil (m : Column K V) : m.write [] = m := rfl

@[simp] theorem write_cons (m : Column K V) (op : WriteOp K V) (ops : List (WriteOp K V)) :
    m.write (op :: ops) = (m.apply op).write ops := rfl

theorem write_append (m : Column K V) (a b : List (WriteOp K V)) :
    m.write (a ++ b) = (m.write a).write b := List.foldl_append ..

/-! ## Reading after a batch -/

theorem lookup_apply (m : Column K V) (op : WriteOp K V) (k : K) :
    (m.apply op).lookup k = if op.key = k then op.value else m.lookup k := by
  cases op with
  | put k' v =>
    by_cases h : k' = k
    · subst h
      simp [apply, WriteOp.key, WriteOp.value]
    · have h' : k ≠ k' := fun e => h e.symm
      simp [apply, WriteOp.key, h, Finmap.lookup_insert_of_ne m h']
  | delete k' =>
    by_cases h : k' = k
    · subst h
      simp [apply, WriteOp.key, WriteOp.value]
    · have h' : k ≠ k' := fun e => h e.symm
      simp [apply, WriteOp.key, h, Finmap.lookup_erase_ne h']

/-- What the last operation on `k` leaves there; `none` when the batch does
not name `k`. -/
def lastWrite (k : K) : List (WriteOp K V) → Option (Option V)
  | [] => none
  | op :: ops =>
    match lastWrite k ops with
    | some r => some r
    | none => if op.key = k then some op.value else none

theorem lookup_write (m : Column K V) (ops : List (WriteOp K V)) (k : K) :
    (m.write ops).lookup k = (lastWrite k ops).getD (m.lookup k) := by
  induction ops generalizing m with
  | nil => rfl
  | cons op ops ih =>
    rw [write_cons, ih, lookup_apply, lastWrite]
    cases hl : lastWrite k ops with
    | some r => rfl
    | none =>
      by_cases h : op.key = k
      · simp [h]
      · simp [h]

/-- The last write of a concatenation is the later part's, if it has one. -/
theorem lastWrite_append (k : K) : ∀ a b : List (WriteOp K V),
    lastWrite k (a ++ b) = (lastWrite k b).or (lastWrite k a)
  | [], b => by cases h : lastWrite k b <;> simp [lastWrite, h]
  | op :: a, b => by
    rw [List.cons_append, lastWrite, lastWrite_append k a b, lastWrite]
    cases lastWrite k b with
    | some r => rfl
    | none => rfl

/-- The last write of a key is an operation on it. -/
theorem exists_of_lastWrite {k : K} {r : Option V} : ∀ {ops : List (WriteOp K V)},
    lastWrite k ops = some r → ∃ op ∈ ops, op.key = k ∧ op.value = r
  | [], h => by cases h
  | op :: ops, h => by
    rw [lastWrite] at h
    cases hl : lastWrite k ops with
    | some r' =>
      rw [hl] at h
      obtain rfl := Option.some.inj h
      obtain ⟨o, ho, hk⟩ := exists_of_lastWrite hl
      exact ⟨o, List.mem_cons_of_mem _ ho, hk⟩
    | none =>
      rw [hl] at h
      by_cases hk : op.key = k
      · rw [if_pos hk] at h
        exact ⟨op, List.mem_cons_self .., hk, Option.some.inj h⟩
      · rw [if_neg hk] at h
        cases h

/-- There is no last write exactly of the keys a batch does not name. -/
theorem lastWrite_eq_none_iff {k : K} : ∀ {ops : List (WriteOp K V)},
    lastWrite k ops = none ↔ ∀ op ∈ ops, op.key ≠ k
  | [] => by simp [lastWrite]
  | op :: ops => by
    have ih : lastWrite k ops = none ↔ ∀ o ∈ ops, o.key ≠ k := lastWrite_eq_none_iff
    rw [List.forall_mem_cons, ← ih, lastWrite]
    cases lastWrite k ops with
    | some r => simp
    | none => simp

/-- A key that no operation names reads as before. -/
theorem lookup_write_of_notMem {m : Column K V} {ops : List (WriteOp K V)} {k : K}
    (h : ∀ op ∈ ops, op.key ≠ k) : (m.write ops).lookup k = m.lookup k := by
  induction ops generalizing m with
  | nil => rfl
  | cons op ops ih =>
    have hk : op.key ≠ k := h op (List.mem_cons_self ..)
    rw [write_cons, ih fun o ho => h o (List.mem_cons_of_mem _ ho), lookup_apply, if_neg hk]

/-- A key that the batch names, and only deletes, is gone. -/
theorem lookup_write_of_deleted {m : Column K V} {ops : List (WriteOp K V)} {k : K}
    (hmem : ∃ op ∈ ops, op.key = k) (hdel : ∀ op ∈ ops, op.key = k → op.value = none) :
    (m.write ops).lookup k = none := by
  induction ops generalizing m with
  | nil => obtain ⟨op, hop, _⟩ := hmem; cases hop
  | cons op ops ih =>
    have hdel' : ∀ o ∈ ops, o.key = k → o.value = none := fun o ho =>
      hdel o (List.mem_cons_of_mem _ ho)
    rw [write_cons]
    by_cases htl : ∃ o ∈ ops, o.key = k
    · exact ih htl hdel'
    -- the tail does not name the key, so the head is the operation that does
    · have hk : op.key = k := by
        obtain ⟨o, ho, hok⟩ := hmem
        rcases List.mem_cons.mp ho with rfl | ho'
        · exact hok
        · exact absurd ⟨o, ho', hok⟩ htl
      rw [lookup_write_of_notMem fun o ho hok => htl ⟨o, ho, hok⟩, lookup_apply, if_pos hk]
      exact hdel op (List.mem_cons_self ..) hk

/-- A batch followed by one that deletes, among others, every key the first one
puts: what either names is gone, the rest is as before. -/
theorem lookup_write_undo {m : Column K V} {ops undo : List (WriteOp K V)}
    (hundo : ∀ op ∈ undo, op.value = none)
    (hputs : ∀ op ∈ ops, op.value ≠ none → ∃ u ∈ undo, u.key = op.key) (k : K)
    [Decidable (∃ op ∈ ops ++ undo, op.key = k)] :
    ((m.write ops).write undo).lookup k
      = if ∃ op ∈ ops ++ undo, op.key = k then none else m.lookup k := by
  by_cases hu : ∃ op ∈ undo, op.key = k
  · obtain ⟨op, hop, hk⟩ := hu
    rw [if_pos ⟨op, List.mem_append_right _ hop, hk⟩]
    exact lookup_write_of_deleted ⟨op, hop, hk⟩ fun o ho _ => hundo o ho
  · rw [lookup_write_of_notMem fun op hop hk => hu ⟨op, hop, hk⟩]
    by_cases ho : ∃ op ∈ ops, op.key = k
    · obtain ⟨op, hop, hk⟩ := ho
      rw [if_pos ⟨op, List.mem_append_left _ hop, hk⟩]
      refine lookup_write_of_deleted ⟨op, hop, hk⟩ fun o ho hok => ?_
      -- a put under this key would be deleted by the second batch
      refine Classical.byContradiction fun hv => hu ?_
      obtain ⟨u, hu', huk⟩ := hputs o ho hv
      exact ⟨u, hu', huk.trans hok⟩
    · rw [if_neg, lookup_write_of_notMem fun op hop hk => ho ⟨op, hop, hk⟩]
      intro h
      obtain ⟨op, hop, hk⟩ := h
      rcases List.mem_append.mp hop with h | h
      · exact ho ⟨op, h, hk⟩
      · exact hu ⟨op, h, hk⟩

/-- So such a pair of batches restores the column iff no key they name was
present. -/
theorem write_undo_eq_iff {m : Column K V} {ops undo : List (WriteOp K V)}
    (hundo : ∀ op ∈ undo, op.value = none)
    (hputs : ∀ op ∈ ops, op.value ≠ none → ∃ u ∈ undo, u.key = op.key) :
    (m.write ops).write undo = m ↔ ∀ op ∈ ops ++ undo, m.lookup op.key = none := by
  classical
  constructor
  · intro h op hop
    have hl := lookup_write_undo (m := m) hundo hputs op.key
    rw [h, if_pos ⟨op, hop, rfl⟩] at hl
    exact hl
  · intro h
    refine Finmap.ext_lookup fun k => ?_
    rw [lookup_write_undo hundo hputs k]
    split
    · next hk =>
      obtain ⟨op, hop, rfl⟩ := hk
      exact (h op hop).symm
    · rfl

/-! ## Totals -/

/-- The exact sum of a measure over all entries of a column. -/
def total (f : V → Nat) (m : Column K V) : Nat := (m.entries.map fun e => f e.2).sum

/-- The measure of what stands under a key, `0` when nothing does. -/
def valueAt (f : V → Nat) (m : Column K V) (k : K) : Nat := ((m.lookup k).map f).getD 0

omit [DecidableEq K] in
theorem total_empty (f : V → Nat) : total f (∅ : Column K V) = 0 := rfl

theorem total_insert_of_notMem (f : V → Nat) {m : Column K V} {k : K} (v : V) (h : k ∉ m) :
    total f (m.insert k v) = f v + total f m := by
  rw [total, total, Finmap.entries_insert_of_notMem h, Multiset.map_cons, Multiset.sum_cons]

/-- Erasing takes away exactly what stood there. -/
theorem total_erase (f : V → Nat) (m : Column K V) (k : K) :
    total f (m.erase k) + valueAt f m k = total f m := by
  cases hk : m.lookup k with
  | none =>
    -- nothing stood there
    have herase : m.erase k = m := Finmap.ext_lookup fun k' => by
      by_cases h : k' = k
      · rw [h, Finmap.lookup_erase, hk]
      · rw [Finmap.lookup_erase_ne h]
    rw [herase, valueAt, hk]
    rfl
  | some v =>
    -- put back what was erased: the same column, one entry at a time
    have hback : (m.erase k).insert k v = m := Finmap.ext_lookup fun k' => by
      by_cases h : k' = k
      · rw [h, Finmap.lookup_insert, hk]
      · rw [Finmap.lookup_insert_of_ne _ h, Finmap.lookup_erase_ne h]
    have hins := total_insert_of_notMem f v (Finmap.notMem_erase_self (a := k) (s := m))
    rw [hback] at hins
    rw [hins, valueAt, hk]
    exact Nat.add_comm _ _

/-- Putting replaces what stood there. -/
theorem total_insert (f : V → Nat) (m : Column K V) (k : K) (v : V) :
    total f (m.insert k v) + valueAt f m k = total f m + f v := by
  have hsame : m.insert k v = (m.erase k).insert k v := Finmap.ext_lookup fun k' => by
    by_cases h : k' = k
    · rw [h, Finmap.lookup_insert, Finmap.lookup_insert]
    · rw [Finmap.lookup_insert_of_ne _ h, Finmap.lookup_insert_of_ne _ h,
        Finmap.lookup_erase_ne h]
  have hins := total_insert_of_notMem f v (Finmap.notMem_erase_self (a := k) (s := m))
  have herase := total_erase f m k
  rw [hsame, hins]
  omega

/-- Nothing adds up to nothing. -/
theorem total_eq_zero {f : V → Nat} {m : Column K V}
    (h : ∀ k v, m.lookup k = some v → f v = 0) : total f m = 0 := by
  rw [total]
  refine Multiset.sum_eq_zero fun n hn => ?_
  obtain ⟨e, he, rfl⟩ := Multiset.mem_map.mp hn
  exact h e.1 e.2 (Finmap.lookup_eq_some_iff.mpr he)

theorem valueAt_congr (f : V → Nat) {m m' : Column K V} {k : K}
    (h : m'.lookup k = m.lookup k) : valueAt f m' k = valueAt f m k := by
  rw [valueAt, valueAt, h]

/-- Along pairwise distinct keys, replacing one entry moves the sum of the
standing values by exactly that entry's change. -/
private theorem sum_valueAt_insert (f : V → Nat) (m : Column K V) (k : K) (v : V) :
    ∀ {ks : List K}, ks.Nodup →
      (ks.map (valueAt f (m.insert k v))).sum + (if k ∈ ks then valueAt f m k else 0)
        = (ks.map (valueAt f m)).sum + (if k ∈ ks then f v else 0)
  | [], _ => by simp
  | k' :: ks, hnd => by
    rw [List.nodup_cons] at hnd
    have ih := sum_valueAt_insert f m k v hnd.2
    by_cases hk : k = k'
    · subst hk
      have hnew : valueAt f (m.insert k v) k = f v := by simp [valueAt]
      rw [if_neg hnd.1, if_neg hnd.1] at ih
      rw [if_pos (List.mem_cons_self ..), if_pos (List.mem_cons_self ..), List.map_cons,
        List.map_cons, List.sum_cons, List.sum_cons, hnew]
      omega
    · have hsame : valueAt f (m.insert k v) k' = valueAt f m k' :=
        valueAt_congr f (Finmap.lookup_insert_of_ne m fun e => hk e.symm)
      have hmem : (k ∈ k' :: ks) ↔ k ∈ ks := by simp [hk]
      simp only [hmem, List.map_cons, List.sum_cons, hsame]
      omega

/-- **Batch accounting.** If a batch deletes pairwise distinct keys, the new
total plus what stood at the deleted keys is at most the old total plus what
was put. -/
theorem total_write_le (f : V → Nat) :
    ∀ (ops : List (WriteOp K V)) (m : Column K V), (WriteOp.deletes ops).Nodup →
      total f (m.write ops) + ((WriteOp.deletes ops).map (valueAt f m)).sum
        ≤ total f m + ((WriteOp.puts ops).map f).sum := by
  intro ops
  induction ops with
  | nil => intro m _; simp [WriteOp.deletes, WriteOp.puts]
  | cons op ops ih =>
    intro m hnd
    rw [write_cons]
    cases op with
    | put k v =>
      simp only [WriteOp.deletes, WriteOp.puts, List.map_cons, List.sum_cons] at hnd ⊢
      have ih' := ih (m.insert k v) hnd
      have htot := total_insert f m k v
      have hsum := sum_valueAt_insert f m k v hnd
      show total f (write (m.insert k v) ops) + _ ≤ _
      -- a key that is put here and deleted later cancels on both sides
      by_cases hk : k ∈ WriteOp.deletes ops
      · rw [if_pos hk, if_pos hk] at hsum
        omega
      · rw [if_neg hk, if_neg hk] at hsum
        omega
    | delete k =>
      simp only [WriteOp.deletes, List.nodup_cons] at hnd
      have ih' := ih (m.erase k) hnd.2
      have htot := total_erase f m k
      have hsame : (WriteOp.deletes ops).map (valueAt f (m.erase k))
          = (WriteOp.deletes ops).map (valueAt f m) := by
        refine List.map_congr_left fun k' hk' => valueAt_congr f ?_
        exact Finmap.lookup_erase_ne fun e => hnd.1 (e ▸ hk')
      rw [hsame] at ih'
      simp only [WriteOp.deletes, WriteOp.puts, List.map_cons, List.sum_cons]
      show total f (write (m.erase k) ops) + _ ≤ _
      omega

end Column

end Pyrax.Base
