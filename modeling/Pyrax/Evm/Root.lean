import Pyrax.Evm.Commit

/-!
# What the state root commits to

The root of a committed state is the BLAKE3 hash of its accounts in the order of their
addresses, each followed by its slots in the order of their keys, with nothing that
says where an account ends. It should tell exactly the states apart that differ in a
nonce, a balance, a code hash or a slot (`SameObservables`).

Behind the bytes stand records (`records`): what is hashed of each account. Equal
records are equal observations, and back for states that keep nothing that cannot be
observed (`Tidy`): a slot set to zero stays in the map and is hashed, and so is an
account with code under the hash of no code. Equal bytes are equal records only if
they are cut alike (`slotCounts`): an account with its slots and another account can
be the bytes of two accounts with the slots the other way round.

`stateRoot_canonical`: for tidy states that is all, and a state that is not tidy has
another history with the same observations and other bytes. The hash is assumed free
of collisions on the two byte strings at hand.
-/

namespace Pyrax.Evm

open Base

namespace StateDB

/-! ## Records -/

/-- What is hashed of an account. -/
structure RootRecord where
  address : Address
  nonce : UInt64
  balance : U256
  codeHash : B256
  slots : List (B256 × U256)
  deriving DecidableEq

def slotBytes (slot : B256 × U256) : List UInt8 := slot.1.toList ++ slot.2.toBeBytes.toList

namespace RootRecord

def headBytes (r : RootRecord) : List UInt8 :=
  r.address.toList ++ Word.toBeBytes r.nonce ++ r.balance.toBeBytes.toList ++ r.codeHash.toList

def bytes (r : RootRecord) : List UInt8 := r.headBytes ++ r.slots.flatMap slotBytes

end RootRecord

def slots (account : AccountState) : List (B256 × U256) :=
  (sortedEntries account.storage).map fun entry => (entry.1, entry.2.currentValue)

def record (address : Address) (account : AccountState) : RootRecord :=
  ⟨address, account.nonce, account.balance, account.codeHash, slots account⟩

def records (accounts : Column Address AccountState) : List RootRecord :=
  (sortedEntries accounts).map fun entry => record entry.1 entry.2

theorem rootBytes_eq_records (accounts : Column Address AccountState) :
    rootBytes accounts = (records accounts).flatMap RootRecord.bytes := by
  rw [rootBytes, records, List.flatMap_map]
  refine List.flatMap_congr fun entry _ => ?_
  rw [accountBytes, RootRecord.bytes, RootRecord.headBytes, record, slots, List.flatMap_map]
  rfl

theorem length_slotBytes (slot : B256 × U256) : (slotBytes slot).length = 64 := by
  simp [slotBytes]

theorem slotBytes_inj {slot slot' : B256 × U256} (h : slotBytes slot = slotBytes slot') :
    slot = slot' := by
  obtain ⟨hkey, hvalue⟩ := List.append_inj h (by simp)
  exact Prod.ext (Vector.toList_inj.mp hkey) (U256.toBeBytes_inj (Vector.toList_inj.mp hvalue))

theorem RootRecord.length_headBytes (r : RootRecord) : r.headBytes.length = 92 := by
  simp [headBytes]

theorem RootRecord.length_bytes (r : RootRecord) : r.bytes.length = 92 + 64 * r.slots.length := by
  rw [bytes, List.length_append, length_headBytes, List.length_flatMap]
  simp [length_slotBytes, Nat.mul_comm]

/-- The bytes of a single record are read in one way. -/
theorem RootRecord.bytes_inj {r r' : RootRecord} (h : r.bytes = r'.bytes) : r = r' := by
  obtain ⟨hhead, hslots⟩ := List.append_inj h (by rw [length_headBytes, length_headBytes])
  obtain ⟨hhead, hcode⟩ := List.append_inj hhead (by simp)
  obtain ⟨hhead, hbalance⟩ := List.append_inj hhead (by simp)
  obtain ⟨haddress, hnonce⟩ := List.append_inj hhead (by simp)
  have hmap := Wire.map_eq_of_flatMap_eq_of_width (by decide) length_slotBytes hslots
  obtain ⟨a, n, b, c, s⟩ := r
  obtain ⟨a', n', b', c', s'⟩ := r'
  obtain rfl : a = a' := Vector.toList_inj.mp haddress
  obtain rfl : n = n' := Word.toBeBytes_inj hnonce
  obtain rfl : b = b' := U256.toBeBytes_inj (Vector.toList_inj.mp hbalance)
  obtain rfl : c = c' := Vector.toList_inj.mp hcode
  obtain rfl : s = s' := List.map_injective_iff.mpr (fun _ _ => slotBytes_inj) hmap
  rfl

/-- How many slots each account holds, in the order of their addresses. -/
def slotCounts (accounts : Column Address AccountState) : List Nat :=
  (sortedEntries accounts).map fun entry => entry.2.storage.keys.card

theorem length_slots (account : AccountState) :
    (slots account).length = account.storage.keys.card := by
  have hkeys := (Column.KeyOrder.sorted byteLe).map_fst_entries account.storage
  have hlength := congrArg List.length hkeys
  rw [List.length_map] at hlength
  rw [slots, List.length_map]
  exact hlength.trans (Column.KeyOrder.length_keys ..)

theorem slotCounts_eq_records (accounts : Column Address AccountState) :
    slotCounts accounts = (records accounts).map fun r => r.slots.length := by
  rw [slotCounts, records, List.map_map]
  refine List.map_congr_left fun entry _ => ?_
  exact (length_slots entry.2).symm

/-- Bytes cut alike are the same records. -/
theorem records_eq_iff_bytes {m m' : Column Address AccountState} :
    records m = records m' ↔ rootBytes m = rootBytes m' ∧ slotCounts m = slotCounts m' := by
  rw [rootBytes_eq_records, rootBytes_eq_records, slotCounts_eq_records, slotCounts_eq_records]
  constructor
  · intro h
    rw [h]
    exact ⟨rfl, rfl⟩
  · rintro ⟨hbytes, hcounts⟩
    refine List.map_injective_iff.mpr (fun _ _ => RootRecord.bytes_inj)
      (Wire.map_eq_of_flatMap_eq ?_ hbytes)
    have hlengths := congrArg (List.map fun n => 92 + 64 * n) hcounts
    rw [List.map_map, List.map_map] at hlengths
    simp only [RootRecord.length_bytes]
    exact hlengths

theorem slots_eq_iff {x y : AccountState} : slots x = slots y ↔ ∀ key,
    (x.storage.lookup key).map (·.currentValue) = (y.storage.lookup key).map (·.currentValue) := by
  refine (Column.KeyOrder.map_sorted_eq_iff byteLe
    (f := fun (key : B256) (slot : StorageSlot) => (key, slot.currentValue))
    fun h => congrArg Prod.fst h).trans (forall_congr' fun key => ?_)
  cases x.storage.lookup key <;> cases y.storage.lookup key <;> simp

theorem records_eq_iff {m m' : Column Address AccountState} : records m = records m' ↔
    ∀ a, (m.lookup a).map (record a) = (m'.lookup a).map (record a) :=
  Column.KeyOrder.map_sorted_eq_iff byteLe fun h => congrArg RootRecord.address h

/-! ## Observations -/

/-- Every address has the same nonce, balance, code hash and slots. -/
def SameObservables (s s' : StateDB) : Prop :=
  ∀ a, s.getNonce a = s'.getNonce a ∧ s.getBalance a = s'.getBalance a ∧
    s.getCodeHash a = s'.getCodeHash a ∧ ∀ key, s.getStorage a key = s'.getStorage a key

/-- Nothing of the account can be observed. -/
def Hollow (account : AccountState) : Prop :=
  account.nonce = 0 ∧ account.balance = U256.ZERO ∧ account.codeHash = EMPTY_CODE_HASH ∧
    ∀ key, account.getStorage key = U256.ZERO

/-- No slot is kept that holds zero, and no account that shows nothing. -/
def Tidy (accounts : Column Address AccountState) : Prop :=
  ∀ a account, accounts.lookup a = some account →
    (∀ key slot, account.storage.lookup key = some slot → slot.currentValue ≠ U256.ZERO) ∧
    ¬ Hollow account

theorem mem_slots {account : AccountState} {key : B256} {value : U256} :
    (key, value) ∈ slots account ↔
      ∃ slot, account.storage.lookup key = some slot ∧ slot.currentValue = value := by
  rw [slots, List.mem_map]
  constructor
  · rintro ⟨⟨key', slot⟩, he, heq⟩
    cases heq
    exact ⟨slot, Column.KeyOrder.mem_entries.mp he, rfl⟩
  · rintro ⟨slot, hslot, rfl⟩
    exact ⟨(key, slot), Column.KeyOrder.mem_entries.mpr hslot, rfl⟩

/-- Tidy, as a check of the entries. -/
theorem tidy_iff {accounts : Column Address AccountState} : Tidy accounts ↔
    ∀ e ∈ sortedEntries accounts, (∀ slot ∈ slots e.2, slot.2 ≠ U256.ZERO) ∧
      ¬ (e.2.nonce = 0 ∧ e.2.balance = U256.ZERO ∧ e.2.codeHash = EMPTY_CODE_HASH ∧
        slots e.2 = []) := by
  have hone : ∀ account : AccountState,
      (∀ key slot, account.storage.lookup key = some slot → slot.currentValue ≠ U256.ZERO) ∧
          ¬ Hollow account ↔
        (∀ slot ∈ slots account, slot.2 ≠ U256.ZERO) ∧
          ¬ (account.nonce = 0 ∧ account.balance = U256.ZERO ∧
            account.codeHash = EMPTY_CODE_HASH ∧ slots account = []) := by
    intro account
    have hzero : (∀ key slot, account.storage.lookup key = some slot →
        slot.currentValue ≠ U256.ZERO) ↔ ∀ slot ∈ slots account, slot.2 ≠ U256.ZERO := by
      constructor
      · rintro h ⟨key, value⟩ hmem
        obtain ⟨slot, hslot, rfl⟩ := mem_slots.mp hmem
        exact h key slot hslot
      · intro h key slot hslot
        exact h (key, slot.currentValue) (mem_slots.mpr ⟨slot, hslot, rfl⟩)
    rw [hzero]
    refine and_congr_right fun hkept => not_congr (and_congr_right fun _ => and_congr_right fun _ =>
      and_congr_right fun _ => ?_)
    constructor
    · intro hall
      refine List.eq_nil_iff_forall_not_mem.mpr fun slot hmem => ?_
      obtain ⟨kept, hslot, hvalue⟩ := mem_slots.mp hmem
      have hread : account.getStorage slot.1 = slot.2 := by
        rw [AccountState.getStorage, hslot]
        exact hvalue
      exact hkept slot hmem (hread ▸ hall slot.1)
    · intro hnil key
      rw [AccountState.getStorage]
      cases hslot : account.storage.lookup key with
      | none => rfl
      | some slot =>
        have hmem := mem_slots.mpr ⟨slot, hslot, rfl⟩
        rw [hnil] at hmem
        cases hmem
  constructor
  · intro h e he
    exact (hone e.2).mp (h e.1 e.2 (Column.KeyOrder.mem_entries.mp he))
  · intro h a account ha
    exact (hone account).mpr (h (a, account) (Column.KeyOrder.mem_entries.mpr ha))

instance (accounts : Column Address AccountState) : Decidable (Tidy accounts) :=
  decidable_of_iff' _ tidy_iff

/-- Two accounts show the same. -/
def ShowsSame (x y : AccountState) : Prop :=
  x.nonce = y.nonce ∧ x.balance = y.balance ∧ x.codeHash = y.codeHash ∧
    ∀ key, x.getStorage key = y.getStorage key

theorem showsSame_refl (x : AccountState) : ShowsSame x x := ⟨rfl, rfl, rfl, fun _ => rfl⟩

theorem ShowsSame.symm {x y : AccountState} (h : ShowsSame x y) : ShowsSame y x :=
  ⟨h.1.symm, h.2.1.symm, h.2.2.1.symm, fun key => (h.2.2.2 key).symm⟩

theorem hollow_iff {x : AccountState} : Hollow x ↔ ShowsSame x .empty := Iff.rfl

theorem showsSame_of_record {a : Address} {x y : AccountState} (h : record a x = record a y) :
    ShowsSame x y := by
  refine ⟨congrArg RootRecord.nonce h, congrArg RootRecord.balance h,
    congrArg RootRecord.codeHash h, fun key => ?_⟩
  have hslots := slots_eq_iff.mp (congrArg RootRecord.slots h) key
  rw [AccountState.getStorage, AccountState.getStorage, hslots]

/-- Equal records are equal observations. -/
theorem showsSame_of_records {m m' : Column Address AccountState} (h : records m = records m')
    (a : Address) : ShowsSame ((m.lookup a).getD .empty) ((m'.lookup a).getD .empty) := by
  have ha := records_eq_iff.mp h a
  cases hm : m.lookup a with
  | none =>
    rw [hm] at ha
    rw [Option.map_eq_none_iff.mp ha.symm]
    exact showsSame_refl _
  | some x =>
    rw [hm] at ha
    obtain ⟨y, hy, hxy⟩ := Option.map_eq_some_iff.mp ha.symm
    rw [hy]
    exact showsSame_of_record hxy.symm

/-- What is kept of a slot is what is read of it, if no zero is kept. -/
theorem lookup_slot {x : AccountState}
    (h : ∀ key slot, x.storage.lookup key = some slot → slot.currentValue ≠ U256.ZERO)
    (key : B256) : (x.storage.lookup key).map (·.currentValue)
      = if x.getStorage key = U256.ZERO then none else some (x.getStorage key) := by
  rw [AccountState.getStorage]
  cases hkey : x.storage.lookup key with
  | none => rfl
  | some slot =>
    show some slot.currentValue = if slot.currentValue = U256.ZERO then none else _
    rw [if_neg (h key slot hkey)]
    rfl

theorem record_of_showsSame {a : Address} {x y : AccountState} (h : ShowsSame x y)
    (hx : ∀ key slot, x.storage.lookup key = some slot → slot.currentValue ≠ U256.ZERO)
    (hy : ∀ key slot, y.storage.lookup key = some slot → slot.currentValue ≠ U256.ZERO) :
    record a x = record a y := by
  obtain ⟨hnonce, hbalance, hcode, hstorage⟩ := h
  have hslots : slots x = slots y := by
    refine slots_eq_iff.mpr fun key => ?_
    rw [lookup_slot hx, lookup_slot hy, hstorage key]
  rw [record, record, hnonce, hbalance, hcode, hslots]

/-- Of tidy states, equal observations are equal records. -/
theorem records_of_showsSame {m m' : Column Address AccountState} (hm : Tidy m) (hm' : Tidy m')
    (h : ∀ a, ShowsSame ((m.lookup a).getD .empty) ((m'.lookup a).getD .empty)) :
    records m = records m' := by
  refine records_eq_iff.mpr fun a => ?_
  have ha := h a
  cases hx : m.lookup a with
  | none =>
    cases hy : m'.lookup a with
    | none => rfl
    | some y =>
      rw [hx, hy] at ha
      exact absurd (hollow_iff.mpr ha.symm) (hm' a y hy).2
  | some x =>
    cases hy : m'.lookup a with
    | none =>
      rw [hx, hy] at ha
      exact absurd (hollow_iff.mpr ha) (hm a x hx).2
    | some y =>
      rw [hx, hy] at ha
      have hrecord : record a x = record a y := record_of_showsSame ha (hm a x hx).1 (hm' a y hy).1
      rw [Option.map_some, Option.map_some, hrecord]

/-- For tidy accounts, the bytes are equal exactly when the observations are, if and
only if equal bytes are cut alike. -/
theorem bytes_canonical_iff {m m' : Column Address AccountState} (hm : Tidy m) (hm' : Tidy m') :
    (rootBytes m = rootBytes m' ↔
        ∀ a, ShowsSame ((m.lookup a).getD .empty) ((m'.lookup a).getD .empty)) ↔
      (rootBytes m = rootBytes m' → slotCounts m = slotCounts m') := by
  constructor
  · intro h hbytes
    exact (records_eq_iff_bytes.mp (records_of_showsSame hm hm' (h.mp hbytes))).2
  · intro hcut
    constructor
    · intro hbytes
      exact showsSame_of_records (records_eq_iff_bytes.mpr ⟨hbytes, hcut hbytes⟩)
    · intro hshows
      exact (records_eq_iff_bytes.mp (records_of_showsSame hm hm' hshows)).1

/-! ## States that are not tidy -/

/-- What an account adds to the bytes. -/
def width (account : AccountState) : Nat := 92 + 64 * account.storage.keys.card

theorem length_rootBytes (m : Column Address AccountState) :
    (rootBytes m).length = Column.total width m := by
  rw [rootBytes_eq_records, List.length_flatMap, records, List.map_map,
    ← (Column.KeyOrder.sorted byteLe).sum_entries width m]
  refine congrArg List.sum (List.map_congr_left fun entry _ => ?_)
  rw [Function.comp_apply, RootRecord.length_bytes, width, ← length_slots]
  rfl

/-- An account without one of its slots. -/
def dropSlot (account : AccountState) (key : B256) : AccountState :=
  { account with storage := account.storage.erase key }

theorem width_dropSlot_lt {account : AccountState} {key : B256} {slot : StorageSlot}
    (h : account.storage.lookup key = some slot) : width (dropSlot account key) < width account := by
  have hmem : key ∈ account.storage.keys :=
    Finmap.mem_keys.mpr (Finmap.mem_of_lookup_eq_some h)
  have hcard : (account.storage.erase key).keys.card = account.storage.keys.card - 1 := by
    rw [Finmap.keys_erase, Finset.card_erase_of_mem hmem]
  have hpos : 0 < account.storage.keys.card := Finset.card_pos.mpr ⟨key, hmem⟩
  rw [width, width, dropSlot, hcard]
  omega

theorem showsSame_dropSlot {account : AccountState} {key : B256} {slot : StorageSlot}
    (h : account.storage.lookup key = some slot) (hzero : slot.currentValue = U256.ZERO) :
    ShowsSame account (dropSlot account key) := by
  refine ⟨rfl, rfl, rfl, fun key' => ?_⟩
  rw [AccountState.getStorage, AccountState.getStorage, dropSlot]
  by_cases hkey : key' = key
  · rw [hkey, h, Finmap.lookup_erase]
    exact hzero
  · rw [Finmap.lookup_erase_ne hkey]

/-- Accounts that are not tidy show the same as others with fewer bytes. -/
theorem exists_shorter_of_not_tidy {m : Column Address AccountState} (h : ¬ Tidy m)
    (hm : ∀ a account, m.lookup a = some account → account.isEmpty = false) :
    ∃ m' : Column Address AccountState,
      (∀ a account, m'.lookup a = some account → account.isEmpty = false) ∧
      (∀ a, ShowsSame ((m.lookup a).getD .empty) ((m'.lookup a).getD .empty)) ∧
      (rootBytes m').length < (rootBytes m).length := by
  unfold Tidy at h
  push Not at h
  obtain ⟨a, account, ha, hkept⟩ := h
  rw [length_rootBytes]
  by_cases hzero : ∃ key slot, account.storage.lookup key = some slot ∧
      slot.currentValue = U256.ZERO
  · -- without the slot that holds zero
    obtain ⟨key, slot, hslot, hslot0⟩ := hzero
    refine ⟨m.insert a (dropSlot account key), ?_, fun b => ?_, ?_⟩
    · intro b x hx
      by_cases hb : b = a
      · rw [hb, Finmap.lookup_insert] at hx
        exact Option.some.inj hx ▸ hm a account ha
      · rw [Finmap.lookup_insert_of_ne _ hb] at hx
        exact hm b x hx
    · by_cases hb : b = a
      · rw [hb, ha, Finmap.lookup_insert]
        exact showsSame_dropSlot hslot hslot0
      · rw [Finmap.lookup_insert_of_ne _ hb]
        exact showsSame_refl _
    · have hinsert := Column.total_insert width m a (dropSlot account key)
      rw [Column.valueAt, ha] at hinsert
      have hlt := width_dropSlot_lt hslot
      rw [length_rootBytes]
      simp only [Option.map_some, Option.getD_some] at hinsert
      omega
  · -- without the account that shows nothing
    push Not at hzero
    have hhollow := hkept fun key slot hslot => hzero key slot hslot
    refine ⟨m.erase a, Column.forall_lookup_erase hm a, fun b => ?_, ?_⟩
    · by_cases hb : b = a
      · rw [hb, ha, Finmap.lookup_erase]
        exact hollow_iff.mp hhollow
      · rw [Finmap.lookup_erase_ne hb]
        exact showsSame_refl _
    · have herase := Column.total_erase width m a
      rw [Column.valueAt, ha] at herase
      simp only [Option.map_some, Option.getD_some, width] at herase
      rw [length_rootBytes]
      omega

end StateDB

/-! ## Histories -/

namespace StateOp

open StateDB

/-- The state after a history and a commit. -/
def committed (C : Crypto) (ops : List StateOp) : StateDB := run C StateDB.new (ops ++ [commit])

theorem committed_eq (C : Crypto) (ops : List StateOp) :
    committed C ops = (run C StateDB.new ops).commit C := run_snoc ..

theorem stateRoot_committed (C : Crypto) (ops : List StateOp) :
    (committed C ops).stateRoot = (C.blake3 (rootBytes (committed C ops).accounts)).bytes := by
  rw [committed_eq]
  rfl

theorem getAccount_committed (C : Crypto) (ops : List StateOp) (a : Address) :
    (committed C ops).getAccount a = ((committed C ops).accounts.lookup a).getD .empty := by
  rw [committed_eq]
  rfl

theorem sameObservables_committed {C : Crypto} {ops ops' : List StateOp} :
    SameObservables (committed C ops) (committed C ops') ↔
      ∀ a, ShowsSame (((committed C ops).accounts.lookup a).getD .empty)
        (((committed C ops').accounts.lookup a).getD .empty) := by
  refine forall_congr' fun a => ?_
  unfold getNonce getBalance getCodeHash getStorage
  rw [getAccount_committed, getAccount_committed]
  rfl

/-- No empty account is ever committed. -/
theorem accounts_not_isEmpty (C : Crypto) (ops : List StateOp) : ∀ a account,
    (run C StateDB.new ops).accounts.lookup a = some account → account.isEmpty = false := by
  induction ops using List.reverseRecOn with
  | nil =>
    intro a account h
    rw [show (run C StateDB.new []).accounts.lookup a = none from rfl] at h
    cases h
  | append_singleton ops op ih =>
    rw [run_snoc]
    cases op with
    | commit =>
      intro a account h
      rw [show (StateOp.commit.apply C (run C StateDB.new ops)) = (run C StateDB.new ops).commit C
        from rfl, lookup_commit] at h
      split at h
      · cases h
      rw [lookup_applyPending] at h
      split at h
      · split at h
        · cases h
        · next hempty =>
          cases h
          exact Bool.eq_false_of_not_eq_true hempty
      · exact ih a account h
    | subBalance b amount =>
      have haccounts : (StateOp.apply C (run C StateDB.new ops) (.subBalance b amount)).accounts
          = (run C StateDB.new ops).accounts := by
        show ((run C StateDB.new ops).subBalance b amount).1.accounts = _
        unfold StateDB.subBalance
        split <;> rfl
      rw [haccounts]
      exact ih
    | setAccount _ _ => exact ih
    | addBalance _ _ => exact ih
    | incrementNonce _ => exact ih
    | setCode _ _ => exact ih
    | setStorage _ _ _ => exact ih
    | deleteAccount _ => exact ih
    | snapshot => exact ih
    | restore _ => exact ih
    | revert => exact ih

/-- Setting accounts one by one is one batch of writes. -/
theorem run_setAccount (C : Crypto) : ∀ (entries : List (Address × AccountState)) (s : StateDB),
    run C s (entries.map fun e => setAccount e.1 e.2)
      = { s with pendingChanges := s.pendingChanges.write (entries.map fun e => .put e.1 e.2) }
  | [], _ => rfl
  | e :: entries, s => run_setAccount C entries (s.setAccount e.1 e.2)

/-- Any accounts that are not empty are the committed ones of some history. -/
theorem exists_history (C : Crypto) {m : Column Address AccountState}
    (h : ∀ a account, m.lookup a = some account → account.isEmpty = false) :
    ∃ ops, (committed C ops).accounts = m := by
  refine ⟨(sortedEntries m).map fun e => setAccount e.1 e.2, Finmap.ext_lookup fun a => ?_⟩
  rw [committed_eq, run_setAccount, lookup_commit]
  refine (if_neg (List.not_mem_nil (a := a))).trans ?_
  have hpending : ((∅ : Column Address AccountState).write
      ((sortedEntries m).map fun e => .put e.1 e.2)).lookup a = m.lookup a := by
    rw [sortedEntries, Column.KeyOrder.lookup_write_entries _ _ _ (fun _ _ => rfl)]
    cases m.lookup a <;> rfl
  cases ha : m.lookup a with
  | none => exact lookup_applyPending_of_none (hpending.trans ha)
  | some account =>
    refine (lookup_applyPending_of_some (hpending.trans ha)).trans ?_
    rw [h a account ha]
    rfl

/-- For tidy states the root is canonical exactly when equal bytes are cut alike; a
state that is not tidy shares its observations with one that has other bytes. -/
theorem stateRoot_canonical (C : Crypto) (ops ops' : List StateOp)
    (hcollision : C.blake3 (rootBytes (committed C ops).accounts)
        = C.blake3 (rootBytes (committed C ops').accounts) →
      rootBytes (committed C ops).accounts = rootBytes (committed C ops').accounts) :
    let s := committed C ops
    let s' := committed C ops'
    (Tidy s.accounts → Tidy s'.accounts →
      ((s.stateRoot = s'.stateRoot ↔ SameObservables s s') ↔
        (rootBytes s.accounts = rootBytes s'.accounts →
          slotCounts s.accounts = slotCounts s'.accounts))) ∧
    (¬ Tidy s.accounts → ∃ ops'', SameObservables s (committed C ops'') ∧
      rootBytes s.accounts ≠ rootBytes (committed C ops'').accounts) := by
  intro s s'
  refine ⟨fun htidy htidy' => ?_, fun htidy => ?_⟩
  · have hroot : s.stateRoot = s'.stateRoot ↔ rootBytes s.accounts = rootBytes s'.accounts := by
      rw [stateRoot_committed, stateRoot_committed]
      constructor
      · intro h
        refine hcollision ?_
        generalize C.blake3 (rootBytes s.accounts) = digest at h
        generalize C.blake3 (rootBytes s'.accounts) = digest' at h
        cases digest
        cases digest'
        exact congrArg H256.mk h
      · intro h
        rw [h]
    rw [hroot, sameObservables_committed]
    exact bytes_canonical_iff htidy htidy'
  · obtain ⟨m', hm', hshows, hlength⟩ :=
      exists_shorter_of_not_tidy htidy (accounts_not_isEmpty C (ops ++ [commit]))
    obtain ⟨ops'', hops''⟩ := exists_history C hm'
    refine ⟨ops'', sameObservables_committed.mpr (hops'' ▸ hshows), fun hbytes => ?_⟩
    rw [hops''] at hbytes
    rw [hbytes] at hlength
    exact absurd hlength (Nat.lt_irrefl _)

/-- The bytes hashed for an account of balance 500 and no more. -/
def paidBytes (byte : UInt8) : List UInt8 :=
  List.replicate 20 byte ++ List.replicate 8 0 ++ List.replicate 30 0 ++ [1, 0xf4] ++
    EMPTY_CODE_HASH.toList

/-- The digests of such an account, of another, and of the first with a zero slot. -/
def rootCrypto : Crypto := Crypto.ofTable
  [(paidBytes 1,
      H256.ofNatBE 0x70493644d1195ef6436d71996b8a14cf5b741271a0e81351193678e1d08904d7),
    (paidBytes 2,
      H256.ofNatBE 0xccd305be6fede05310fc8dbe42ebb71cfdde9e30ac58fa470735cfbc8fc0dfc9),
    (paidBytes 1 ++ List.replicate 32 2 ++ List.replicate 32 0,
      H256.ofNatBE 0xad172c04cefe8a5c7d5e648babbfd0cbf515c58f7acbd0cb35ffa8bb8516f8d5)]

def paid (byte : UInt8) : StateOp := addBalance (Vector.replicate 20 byte) (U256.fromU64 500)

/-- Two accounts, told apart by their roots. -/
theorem stateRoot_canonical_paid :
    let s := committed rootCrypto [paid 1]
    let s' := committed rootCrypto [paid 2]
    (s.stateRoot = s'.stateRoot ↔ SameObservables s s') ∧ s.stateRoot ≠ s'.stateRoot := by
  intro s s'
  have hdigest : rootCrypto.blake3 (rootBytes s.accounts)
      ≠ rootCrypto.blake3 (rootBytes s'.accounts) := by decide +kernel
  have hcanonical := stateRoot_canonical rootCrypto [paid 1] [paid 2]
    fun h => absurd h hdigest
  refine ⟨(hcanonical.1 (by decide +kernel) (by decide +kernel)).mpr fun _ => by decide +kernel, ?_⟩
  decide +kernel

/-- One account with a slot and one without. -/
def slotFirst : List StateOp :=
  [incrementNonce (Vector.replicate 20 1),
    setStorage (Vector.replicate 20 1)
      (arrayFromSlice 32 (List.replicate 20 2 ++ [0, 0, 0, 0, 0, 0, 0, 1]))
      (U256.fromU64 0x5c5d24601),
    incrementNonce (Vector.replicate 20 3),
    addBalance (Vector.replicate 20 3) (U256.fromU64 7)]

/-- The same bytes, with the slot at the second account. -/
def slotSecond : List StateOp :=
  [incrementNonce (Vector.replicate 20 1),
    setAccount (Vector.replicate 20 2)
      ⟨1, U256.fromU64 5, arrayFromSlice 32 ([0xc5, 0xd2, 0x46, 0x01] ++ List.replicate 20 3 ++
        [0, 0, 0, 0, 0, 0, 0, 1]), [0], ∅⟩,
    setStorage (Vector.replicate 20 2) (U256.fromU64 7).toBeBytes (U256.fromBeBytes EMPTY_CODE_HASH)]

/-- A slot that is set back to zero leaves another root; and two states with different
accounts have one root. -/
theorem stateRoot_not_canonical :
    let a : Address := Vector.replicate 20 1
    let key : B256 := Vector.replicate 32 2
    let zeroed := committed rootCrypto [paid 1, setStorage a key U256.ONE, setStorage a key U256.ZERO]
    let unwritten := committed rootCrypto [paid 1]
    let first := committed rootCrypto slotFirst
    let second := committed rootCrypto slotSecond
    (SameObservables zeroed unwritten ∧ zeroed.stateRoot ≠ unwritten.stateRoot) ∧
      (¬ SameObservables first second ∧ first.stateRoot = second.stateRoot) := by
  intro a key zeroed unwritten first second
  refine ⟨⟨?_, by decide +kernel⟩, ⟨fun h => ?_, by decide +kernel⟩⟩
  · let account : AccountState := ⟨0, U256.fromU64 500, EMPTY_CODE_HASH, [],
      Finmap.singleton key ⟨U256.ZERO, U256.ZERO⟩⟩
    have hzeroed : zeroed.accounts = Finmap.singleton a account := by decide +kernel
    have hunwritten : unwritten.accounts = Finmap.singleton a (dropSlot account key) := by
      decide +kernel
    refine sameObservables_committed.mpr fun b => ?_
    show ShowsSame ((zeroed.accounts.lookup b).getD .empty)
      ((unwritten.accounts.lookup b).getD .empty)
    rw [hzeroed, hunwritten]
    by_cases hb : b = a
    · rw [hb, Finmap.lookup_singleton_eq, Finmap.lookup_singleton_eq]
      exact showsSame_dropSlot Finmap.lookup_singleton_eq rfl
    · have hnone : ∀ x : AccountState,
          (Finmap.singleton a x : Column Address AccountState).lookup b = none := by
        intro x
        exact Finmap.lookup_eq_none.mpr fun hmem => hb ((Finmap.mem_singleton b a x).mp hmem)
      rw [hnone, hnone]
      exact showsSame_refl _
  · exact absurd (h (Vector.replicate 20 3)).1 (by decide +kernel)

end StateOp

end Pyrax.Evm
