import Pyrax.Wasm.Storage

/-!
# Three views of the writes of a call

What a contract has asked of `storage_write` and `storage_delete` in
`pyrax-node/src/wasm/host.rs` is seen by `storage_read`, is brought to the storage by `commit`
and is told by `state_changes`. The three are one list of operations (`asked`) read in three
ways: a deletion is shown as the empty value; the empty value is stored as a deletion; and
the record keeps 32 bytes of a key, filled up with zeros, and both kinds apart.

They agree where no key is last deleted or given the empty value, and the record of the
last write to every key falls on the key (`overlayAgrees_iff`).
-/

namespace Pyrax.Wasm

open Base

inductive StorageOp where
  | write (key : StorageKey) (value : StorageValue)
  | delete (key : StorageKey)
  deriving DecidableEq

namespace HostContext

def storageDelete (ctx : HostContext) (key : StorageKey) : HostContext :=
  if ctx.readOnly then ctx
  else { ctx with
    stateChanges := ctx.stateChanges ++
      [⟨ctx.contractAddress, arrayFromSlice 32 key, ctx.storageRead key, none⟩]
    pendingWrites := ctx.pendingWrites ++ [(key, [])] }

def perform (ctx : HostContext) : StorageOp → HostContext
  | .write key value => ctx.storageWrite key value
  | .delete key => ctx.storageDelete key

def performAll (ctx : HostContext) (ops : List StorageOp) : HostContext := ops.foldl perform ctx

/-- Nothing was asked yet. -/
structure Fresh (ctx : HostContext) : Prop where
  noWrites : ctx.pendingWrites = []
  noChanges : ctx.stateChanges = []

theorem fresh_new (now : UInt64) (contractAddress caller : Address) (value gasLimit : UInt64)
    (storage : ContractStorage) : (new now contractAddress caller value gasLimit storage).Fresh :=
  ⟨rfl, rfl⟩

end HostContext

/-- A change brought to a storage by its key and its new value. -/
def StateChange.replay (s : ContractStorage) (change : StateChange) : ContractStorage :=
  match change.newValue with
  | some value => s.set change.address change.key.toList value
  | none => s.delete change.address change.key.toList

theorem StateChange.get_replay (s : ContractStorage) (change : StateChange) (address : Address)
    (key : StorageKey) : (change.replay s).get address key
      = if address = change.address ∧ key = change.key.toList then change.newValue
        else s.get address key := by
  unfold replay
  cases change.newValue with
  | some value => exact ContractStorage.get_set ..
  | none => exact ContractStorage.get_delete ..

/-- The contract reads what will be stored, and the record tells it. -/
structure HostContext.OverlayAgrees (ctx : HostContext) (ops : List StorageOp) : Prop where
  read : ∀ key, (ctx.performAll ops).storageRead key
    = (ctx.performAll ops).commit.get ctx.contractAddress key
  told : ∀ address key,
    ((ctx.performAll ops).stateChanges.foldl StateChange.replay ctx.storage).get address key
      = (ctx.performAll ops).commit.get address key

/-! ## The operations as asked -/

namespace StorageOp

/-- The operation on a map of keys and values. -/
def asked : StorageOp → WriteOp StorageKey StorageValue
  | write key value => .put key value
  | delete key => .delete key

/-- What stands in the list of pending writes. -/
def pending : StorageOp → StorageKey × StorageValue
  | write key value => (key, value)
  | delete key => (key, [])

def key : StorageOp → StorageKey
  | write key _ => key
  | delete key => key

/-- The operation that the record tells: on the first 32 bytes of the key. -/
def recorded : StorageOp → WriteOp StorageKey StorageValue
  | write key value => .put (arrayFromSlice 32 key).toList value
  | delete key => .delete (arrayFromSlice 32 key).toList

theorem key_recorded (op : StorageOp) : op.recorded.key = (arrayFromSlice 32 op.key).toList := by
  cases op <;> simp only [recorded, WriteOp.key, key]

theorem value_recorded (op : StorageOp) : op.recorded.value = op.asked.value := by
  cases op <;> simp only [recorded, asked, WriteOp.value]

end StorageOp

/-- What the contract wants of the key in the end, if it asked for anything. -/
def lastAsked (ops : List StorageOp) (key : StorageKey) : Option (Option StorageValue) :=
  Column.lastWrite key (ops.map StorageOp.asked)

/-- What the record says last under a key. -/
def lastRecorded (ops : List StorageOp) (key : StorageKey) : Option (Option StorageValue) :=
  Column.lastWrite key (ops.map StorageOp.recorded)

/-- No key is last deleted or given the empty value; what the record says last of a key is
what the key holds; and a key that is not 32 bytes long holds in the end what it held. -/
structure Transparent (initial : StorageKey → Option StorageValue) (ops : List StorageOp) :
    Prop where
  filled : ∀ key r, lastAsked ops key = some r → r.getD [] ≠ []
  recorded : ∀ key r, lastRecorded ops key = some r → r = (lastAsked ops key).getD (initial key)
  restored : ∀ key r, key.length ≠ 32 → lastAsked ops key = some r → r = initial key

/-! ## What each view shows -/

section Views

variable {initial : StorageKey → Option StorageValue} {ops : List StorageOp}
variable {f : StorageOp → WriteOp StorageKey StorageValue}
variable {g : Option StorageValue → Option StorageValue}

/-- Operations on the same keys, with other values. -/
theorem lastWrite_map_asked (hkey : ∀ op, (f op).key = op.key)
    (hvalue : ∀ op, (f op).value = g op.asked.value) (ops : List StorageOp) (key : StorageKey) :
    Column.lastWrite key (ops.map f) = (lastAsked ops key).map g := by
  induction ops with
  | nil => rfl
  | cons op ops ih =>
    have hasked : op.asked.key = op.key := by cases op <;> rfl
    show _ = (Column.lastWrite key (op.asked :: ops.map StorageOp.asked)).map g
    rw [List.map_cons, Column.lastWrite, ih, Column.lastWrite, hkey, hvalue, hasked, lastAsked]
    cases Column.lastWrite key (ops.map StorageOp.asked) with
    | some r => rfl
    | none => exact (apply_ite (Option.map g) (op.key = key) (some op.asked.value) none).symm

/-- The record has nothing under a key that is not 32 bytes long. -/
theorem lastRecorded_eq_none {key : StorageKey} (h : key.length ≠ 32) :
    lastRecorded ops key = none := by
  rw [lastRecorded, Column.lastWrite_eq_none_iff]
  rintro op hop rfl
  obtain ⟨asked, _, rfl⟩ := List.mem_map.mp hop
  rw [asked.key_recorded] at h
  exact h (Vector.length_toList ..)

/-- A key of 32 bytes is recorded as it is. -/
theorem lastRecorded_ne_none {key : StorageKey} {r : Option StorageValue} (h : key.length = 32)
    (hlast : lastAsked ops key = some r) : lastRecorded ops key ≠ none := by
  obtain ⟨asked, hasked, hkey, -⟩ := Column.exists_of_lastWrite hlast
  obtain ⟨op, hop, rfl⟩ := List.mem_map.mp hasked
  have hsame : op.asked.key = op.key := by cases op <;> rfl
  rw [lastRecorded, Ne, Column.lastWrite_eq_none_iff]
  intro hnone
  refine hnone op.recorded (List.mem_map_of_mem hop) ?_
  rw [op.key_recorded, ← hsame, hkey, toList_arrayFromSlice h]

end Views

namespace HostContext

variable {ctx : HostContext} {ops : List StorageOp}

/-- The latest pending write of a key is what is read. -/
theorem storageRead_eq (ctx : HostContext) (key : StorageKey) : ctx.storageRead key
    = (Column.lastWrite key (ctx.pendingWrites.map fun w => .put w.1 w.2)).getD
        (ctx.storage.get ctx.contractAddress key) := by
  have hlast : ∀ writes : List (StorageKey × StorageValue),
      (writes.reverse.find? (·.1 = key)).map (fun w => some w.2)
        = Column.lastWrite key (writes.map fun w => .put w.1 w.2) := by
    intro writes
    induction writes with
    | nil => rfl
    | cons w writes ih =>
      rw [List.map_cons, Column.lastWrite, ← ih, List.reverse_cons, List.find?_append]
      cases writes.reverse.find? (·.1 = key) with
      | some w' => rfl
      | none =>
        by_cases hw : w.1 = key
        · simp [hw, WriteOp.key, WriteOp.value]
        · simp [hw, WriteOp.key]
  rw [← hlast, storageRead]
  cases ctx.pendingWrites.reverse.find? (·.1 = key) with
  | some w => rfl
  | none => rfl

/-- What one operation does to a context that is not read only. -/
theorem perform_spec (h : ctx.readOnly = false) (op : StorageOp) :
    (ctx.perform op).readOnly = false ∧ (ctx.perform op).storage = ctx.storage ∧
      (ctx.perform op).contractAddress = ctx.contractAddress ∧
      (ctx.perform op).pendingWrites = ctx.pendingWrites ++ [op.pending] ∧
      (ctx.perform op).stateChanges = ctx.stateChanges ++ [⟨ctx.contractAddress,
        arrayFromSlice 32 op.key, ctx.storageRead op.key, op.asked.value⟩] := by
  cases op with
  | write key value =>
    rw [perform, storageWrite, if_neg (by simp [h])]
    exact ⟨h, rfl, rfl, rfl, rfl⟩
  | delete key =>
    rw [perform, storageDelete, if_neg (by simp [h])]
    exact ⟨h, rfl, rfl, rfl, rfl⟩

/-- The changes of a list of operations, without the values they replaced. -/
theorem performAll_spec (h : ctx.readOnly = false) (ops : List StorageOp) :
    (ctx.performAll ops).storage = ctx.storage ∧
      (ctx.performAll ops).contractAddress = ctx.contractAddress ∧
      (ctx.performAll ops).pendingWrites = ctx.pendingWrites ++ ops.map StorageOp.pending ∧
      (ctx.performAll ops).stateChanges.map (fun c => (c.address, c.key, c.newValue))
        = ctx.stateChanges.map (fun c => (c.address, c.key, c.newValue)) ++
          ops.map fun op => (ctx.contractAddress, arrayFromSlice 32 op.key, op.asked.value) := by
  induction ops generalizing ctx with
  | nil => simp [performAll]
  | cons op ops ih =>
    obtain ⟨hwritable, hstorage, haddress, hpending, hchanges⟩ := perform_spec h op
    obtain ⟨hstorage', haddress', hpending', hchanges'⟩ := ih hwritable
    refine ⟨hstorage'.trans hstorage, haddress'.trans haddress, ?_, ?_⟩
    · show ((ctx.perform op).performAll ops).pendingWrites = _
      rw [hpending', hpending, List.map_cons, List.append_assoc]
      rfl
    · show ((ctx.perform op).performAll ops).stateChanges.map _ = _
      rw [hchanges', hchanges, haddress, List.map_append, List.map_cons, List.append_assoc]
      rfl

theorem performAll_readOnly (h : ctx.readOnly = true) (ops : List StorageOp) :
    ctx.performAll ops = ctx := by
  induction ops with
  | nil => rfl
  | cons op ops ih =>
    have hop : ctx.perform op = ctx := by
      cases op with
      | write key value => exact if_pos h
      | delete key => exact if_pos h
    rw [performAll, List.foldl_cons, hop]
    exact ih

/-- A deletion is read as the empty value. -/
theorem storageRead_performAll (hfresh : ctx.Fresh) (h : ctx.readOnly = false)
    (ops : List StorageOp) (key : StorageKey) : (ctx.performAll ops).storageRead key
      = ((lastAsked ops key).map fun r => some (r.getD [])).getD
          (ctx.storage.get ctx.contractAddress key) := by
  obtain ⟨hstorage, haddress, hpending, -⟩ := performAll_spec h ops
  have hshown := lastWrite_map_asked (f := fun op => .put op.pending.1 op.pending.2)
    (g := fun r => some (r.getD [])) (fun op => by cases op <;> rfl) (fun op => by cases op <;> rfl)
    ops key
  rw [storageRead_eq, hpending, hfresh.noWrites, List.nil_append, List.map_map, hstorage, haddress,
    ← hshown]
  rfl

/-- The empty value is stored as a deletion. -/
theorem get_commit_performAll (hfresh : ctx.Fresh) (h : ctx.readOnly = false)
    (ops : List StorageOp) (address : Address) (key : StorageKey) :
    (ctx.performAll ops).commit.get address key
      = if address = ctx.contractAddress then
          ((lastAsked ops key).map fun r => if r.getD [] = [] then none else r).getD
            (ctx.storage.get ctx.contractAddress key)
        else ctx.storage.get address key := by
  obtain ⟨hstorage, haddress, hpending, -⟩ := performAll_spec h ops
  have hstored := lastWrite_map_asked
    (f := fun op => if op.pending.2 = [] then .delete op.pending.1
      else .put op.pending.1 op.pending.2)
    (g := fun r => if r.getD [] = [] then none else r)
    (fun op => by
      show WriteOp.key (if op.pending.2 = [] then _ else _) = op.key
      split <;> cases op <;> rfl)
    (fun op => by
      cases op with
      | write key value =>
        show WriteOp.value (if value = [] then _ else _) = if value = [] then none else some value
        split <;> rfl
      | delete key => rfl)
    ops key
  rw [get_commit, haddress, expected, writes, hpending, hfresh.noWrites, List.nil_append,
    List.map_map, hstorage, haddress, ← hstored]
  rfl

/-- Replayed changes of one contract, as operations on its keys. -/
theorem get_replay (address : Address) (key : StorageKey) (contract : Address) :
    ∀ (changes : List StateChange) (ops : List StorageOp) (s : ContractStorage),
      changes.map (fun c => (c.address, c.key, c.newValue))
        = ops.map (fun op => (contract, arrayFromSlice 32 op.key, op.asked.value)) →
      (changes.foldl StateChange.replay s).get address key
        = if address = contract then (lastRecorded ops key).getD (s.get address key)
          else s.get address key
  | [], [], s, _ => by split <;> rfl
  | [], _ :: _, _, h => by cases h
  | _ :: _, [], _, h => by cases h
  | c :: changes, op :: ops, s, h => by
    rw [List.map_cons, List.map_cons, List.cons.injEq] at h
    obtain ⟨hc, hrest⟩ := h
    obtain ⟨haddress, hc⟩ := Prod.mk.inj hc
    obtain ⟨hkey, hvalue⟩ := Prod.mk.inj hc
    rw [List.foldl_cons, get_replay address key contract changes ops _ hrest, c.get_replay, haddress,
      hkey, hvalue, lastRecorded, lastRecorded, List.map_cons, Column.lastWrite, op.key_recorded,
      op.value_recorded]
    by_cases ha : address = contract
    · rw [if_pos ha, if_pos ha]
      cases Column.lastWrite key (ops.map StorageOp.recorded) with
      | some r => rfl
      | none =>
        by_cases hk : key = (arrayFromSlice 32 op.key).toList
        · rw [if_pos ⟨ha, hk⟩, if_pos hk.symm]
          rfl
        · rw [if_neg fun h => hk h.2, if_neg (Ne.symm hk)]
    · rw [if_neg ha, if_neg ha, if_neg fun h => ha h.1]

theorem get_told (hfresh : ctx.Fresh) (h : ctx.readOnly = false) (ops : List StorageOp)
    (address : Address) (key : StorageKey) :
    ((ctx.performAll ops).stateChanges.foldl StateChange.replay ctx.storage).get address key
      = if address = ctx.contractAddress then
          (lastRecorded ops key).getD (ctx.storage.get address key)
        else ctx.storage.get address key := by
  obtain ⟨-, -, -, hchanges⟩ := performAll_spec h ops
  refine get_replay address key ctx.contractAddress _ ops ctx.storage ?_
  rw [hchanges, hfresh.noChanges]
  rfl

/-- What is read is what is stored where no key is last deleted or emptied. -/
theorem read_iff_filled (hfresh : ctx.Fresh) (h : ctx.readOnly = false) :
    (∀ key, (ctx.performAll ops).storageRead key
        = (ctx.performAll ops).commit.get ctx.contractAddress key) ↔
      ∀ key r, lastAsked ops key = some r → r.getD [] ≠ [] := by
  refine forall_congr' fun key => ?_
  rw [storageRead_performAll hfresh h, get_commit_performAll hfresh h, if_pos rfl]
  cases hlast : lastAsked ops key with
  | none => simp
  | some r =>
    show some (r.getD []) = (if r.getD [] = [] then none else r) ↔ _
    split
    · next hempty => simp [hempty]
    · next hvalue =>
      cases r with
      | none => exact absurd rfl hvalue
      | some value => simpa using hvalue

/-- In a read-only context nothing happens, and nothing is told. -/
theorem overlayAgrees_of_readOnly (hfresh : ctx.Fresh) (h : ctx.readOnly = true)
    (ops : List StorageOp) : ctx.OverlayAgrees ops := by
  have hsame := performAll_readOnly h ops
  have hcommit : ctx.commit = ctx.storage := by
    rw [commit, hfresh.noWrites]
    rfl
  constructor
  · intro key
    rw [hsame, hcommit, storageRead, hfresh.noWrites]
    rfl
  · intro address key
    rw [hsame, hcommit, hfresh.noChanges]
    rfl

/-- Where no key is last deleted or emptied, what is told is what is stored where the record
ends like the operations. -/
theorem told_iff_lastRecorded (hfresh : ctx.Fresh) (h : ctx.readOnly = false)
    (hfilled : ∀ key r, lastAsked ops key = some r → r.getD [] ≠ []) :
    (∀ address key, ((ctx.performAll ops).stateChanges.foldl StateChange.replay ctx.storage).get
        address key = (ctx.performAll ops).commit.get address key) ↔
      ∀ key, (lastRecorded ops key).getD (ctx.storage.get ctx.contractAddress key)
        = (lastAsked ops key).getD (ctx.storage.get ctx.contractAddress key) := by
  have hstored : ∀ key, ((lastAsked ops key).map fun r => if r.getD [] = [] then none else r)
      = lastAsked ops key := by
    intro key
    cases hlast : lastAsked ops key with
    | none => rfl
    | some r => exact congrArg some (if_neg (hfilled key r hlast))
  constructor
  · intro htold key
    have hboth := htold ctx.contractAddress key
    rwa [get_told hfresh h, get_commit_performAll hfresh h, if_pos rfl, if_pos rfl, hstored]
      at hboth
  · intro hkey address key
    rw [get_told hfresh h, get_commit_performAll hfresh h, hstored]
    by_cases ha : address = ctx.contractAddress
    · rw [if_pos ha, if_pos ha, ha, hkey]
    · rw [if_neg ha, if_neg ha]

/-- The record ends like the operations where the operations are transparent. -/
theorem lastRecorded_eq_iff {initial : StorageKey → Option StorageValue} :
    (∀ key, (lastRecorded ops key).getD (initial key) = (lastAsked ops key).getD (initial key)) ↔
      (∀ key r, lastRecorded ops key = some r → r = (lastAsked ops key).getD (initial key)) ∧
        ∀ key r, key.length ≠ 32 → lastAsked ops key = some r → r = initial key := by
  constructor
  · intro hkey
    refine ⟨fun key r hlast => ?_, fun key r hlen hlast => ?_⟩
    · rw [← hkey key, hlast]
      rfl
    · have hnone := hkey key
      rw [lastRecorded_eq_none hlen, hlast] at hnone
      exact hnone.symm
  · rintro ⟨hrecorded, hrestored⟩ key
    cases hlast : lastRecorded ops key with
    | some r => exact hrecorded key r hlast
    | none =>
      cases hasked : lastAsked ops key with
      | none => rfl
      | some r =>
        refine (hrestored key r (fun hlen => ?_) hasked).symm
        exact lastRecorded_ne_none hlen hasked hlast

/-- **One history.** The three views agree exactly in a read-only context and where the
operations are transparent. -/
theorem overlayAgrees_iff (ctx : HostContext) (ops : List StorageOp) (hfresh : ctx.Fresh) :
    ctx.OverlayAgrees ops ↔ ctx.readOnly = true ∨
      Transparent (ctx.storage.get ctx.contractAddress) ops := by
  cases hreadOnly : ctx.readOnly with
  | true => exact iff_of_true (overlayAgrees_of_readOnly hfresh hreadOnly ops) (.inl rfl)
  | false =>
    rw [or_iff_right (by simp)]
    constructor
    · rintro ⟨hread, htold⟩
      have hfilled := (read_iff_filled hfresh hreadOnly).mp hread
      have hkey := (told_iff_lastRecorded hfresh hreadOnly hfilled).mp htold
      obtain ⟨hrecorded, hrestored⟩ := lastRecorded_eq_iff.mp hkey
      exact ⟨hfilled, hrecorded, hrestored⟩
    · rintro ⟨hfilled, hrecorded, hrestored⟩
      have hkey := lastRecorded_eq_iff.mpr ⟨hrecorded, hrestored⟩
      exact ⟨(read_iff_filled hfresh hreadOnly).mpr hfilled,
        (told_iff_lastRecorded hfresh hreadOnly hfilled).mpr hkey⟩

/-- Whole keys that are given values are told as they are asked. -/
theorem transparent_of_whole {initial : StorageKey → Option StorageValue}
    (h : ∀ op ∈ ops, op.key.length = 32 ∧ op.asked.value.getD [] ≠ []) :
    Transparent initial ops where
  filled key r hlast := by
    obtain ⟨asked, hasked, -, rfl⟩ := Column.exists_of_lastWrite hlast
    obtain ⟨op, hop, rfl⟩ := List.mem_map.mp hasked
    exact (h op hop).2
  recorded key r hlast := by
    have hsame : ops.map StorageOp.recorded = ops.map StorageOp.asked := by
      refine List.map_congr_left fun op hop => ?_
      have hkey := toList_arrayFromSlice (h op hop).1
      cases op with
      | write key value => exact congrArg (WriteOp.put · value) hkey
      | delete key => exact congrArg WriteOp.delete hkey
    rw [lastRecorded, hsame] at hlast
    rw [lastAsked, hlast]
    rfl
  restored key r hlen hlast := by
    obtain ⟨asked, hasked, hkey, -⟩ := Column.exists_of_lastWrite hlast
    obtain ⟨op, hop, rfl⟩ := List.mem_map.mp hasked
    have hsame : op.asked.key = op.key := by cases op <;> rfl
    rw [← hkey, hsame] at hlen
    exact absurd (h op hop).1 hlen

/-! ## Whole keys, and short ones -/

/-- A call of a contract with nothing in its storage. -/
def emptyContext : HostContext :=
  new 1700000000 ⟨Vector.replicate 20 1⟩ ⟨Vector.replicate 20 2⟩ 0 100000 .new

/-- Two keys, one of them written twice. -/
theorem overlayAgrees_whole_keys :
    emptyContext.OverlayAgrees [.write (List.replicate 32 1) [4, 5, 6],
      .write (List.replicate 32 2) [7], .write (List.replicate 32 1) [8]] :=
  (overlayAgrees_iff emptyContext _ (fresh_new ..)).mpr (.inr (transparent_of_whole (by decide)))

/-- A deleted key reads as the empty value and is not stored; a written key is told as one of 32
bytes. -/
theorem empty_disagrees :
    emptyContext.Fresh ∧
      (emptyContext.performAll [.delete [1]]).storageRead [1] = some [] ∧
      (emptyContext.performAll [.delete [1]]).commit.get emptyContext.contractAddress [1] = none ∧
      ¬ emptyContext.OverlayAgrees [.delete [1]] ∧
      ¬ emptyContext.OverlayAgrees [.write [1, 2, 3] [4, 5, 6]] := by
  refine ⟨fresh_new .., by decide, by decide, fun h => ?_, fun h => ?_⟩
  · exact absurd (h.read [1]) (by decide)
  · exact absurd (h.told emptyContext.contractAddress [1, 2, 3]) (by decide)

end HostContext

end Pyrax.Wasm
