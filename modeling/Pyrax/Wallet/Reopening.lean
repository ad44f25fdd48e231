import Pyrax.Base.Run
import Pyrax.Base.Wire
import Pyrax.Wallet.Keystore

/-!
# Opening the directory of a keystore anew

The store in memory and its directory can part in three ways. A key that is imported once
more, in another second and under another password, leaves its old file behind, and which of
the two files counts after the next start depends on the order in which the directory is
read. `remove` stops at the first file it finds. And the next address is derived at the number
of keys, so that after a removal, or an import of a key of the wallet's own, a number can come
again.

Along a run with none of these steps (`StepOk`) the directory opened anew is the store, a
removed key is gone, and every derived address is new (`reopening`).
-/

namespace Pyrax.Wallet

open Base

/-! ## Numbers in use -/

section Numbering

variable {α : Type} {number : UInt32 → Option α} {held : Finset α} {a : α}

/-- What is held of a numbering has numbers below how much is held. -/
def Ahead (number : UInt32 → Option α) (held : Finset α) : Prop :=
  ∀ i a, number i = some a → a ∈ held → i.toNat < held.card

/-- The number of what is held is free. -/
theorem Ahead.fresh (h : Ahead number held) (hcard : held.card < 2 ^ 32)
    (ha : number (UInt32.ofNat held.card) = some a) : a ∉ held := by
  intro hmem
  have hlt := h _ a ha hmem
  rw [UInt32.toNat_ofNat_of_lt' hcard] at hlt
  exact Nat.lt_irrefl _ hlt

/-- To take it keeps it so. -/
theorem Ahead.insert [DecidableEq α] (h : Ahead number held) (hcard : held.card < 2 ^ 32)
    (hfree : ∀ i j a, number i = some a → number j = some a → i = j)
    (ha : number (UInt32.ofNat held.card) = some a) : Ahead number (insert a held) := by
  intro i b hb hmem
  rw [Finset.card_insert_of_notMem (h.fresh hcard ha)]
  rcases Finset.mem_insert.mp hmem with rfl | hmem
  · rw [hfree i _ b hb ha, UInt32.toNat_ofNat_of_lt' hcard]
    exact Nat.lt_succ_self _
  · exact Nat.lt_succ_of_lt (h i b hb hmem)

end Numbering

namespace KeyStore

variable {V : Vault} {s : KeyStore V}

/-- The addresses of the first account of a wallet. -/
def numbered (wallet : V.HDWallet) (i : UInt32) : Option Address :=
  match V.derivePath wallet (DerivationPath.pyrax 0 0 i) with
  | .ok key => some (V.address key)
  | .error _ => none

/-- The derivation gives no address twice. -/
def CollisionFree (wallet : V.HDWallet) : Prop :=
  ∀ i j a, numbered wallet i = some a → numbered wallet j = some a → i = j

/-! ## What is promised -/

/-- The directory opened anew, read in whatever order, is the store. -/
structure Agrees (s : KeyStore V) : Prop where
  addresses : ∀ order a, a ∈ (new s.files order).keys ↔ a ∈ s.keys
  getKey : ∀ order a password, (new s.files order).getKey a password = s.getKey a password

/-- A removed key cannot be loaded any more, and a derived address is new. -/
def Kept (s : KeyStore V) : KeyOp V → Prop
  | .remove order address => ∀ name contents encrypted,
      (s.exec (.remove order address)).files.lookup name = some contents →
        loaded (name, contents) ≠ some (address, encrypted)
  | .deriveNextAddress now seed password => ∀ address,
      (s.deriveNextAddress now seed password).1 = .ok address → address ∉ s.keys
  | _ => True

/-! ## Which steps keep it -/

/-- A key may come again under the password it has, or in the second it came, and no number of
the wallet may get ahead of the number of keys. -/
structure Imports (s : KeyStore V) (now : UInt64) (key : V.PrivateKey) (password : String)
    (hdWallet : Option V.HDWallet) : Prop where
  file : ∀ encrypted, s.keys.lookup (V.address key) = some encrypted →
    V.decrypt encrypted.crypto password = .ok key ∨
      ∀ t, fileName t (V.address key) ∈ s.files → t = now
  ahead : ∀ wallet, hdWallet = some wallet →
    Ahead (numbered wallet) (insert (V.address key) s.keys.keys)

/-- What is removed has one file, and the numbers left stay below the number of keys left. -/
structure Removes (s : KeyStore V) (address : Address) : Prop where
  file : ∀ t t', fileName t address ∈ s.files → fileName t' address ∈ s.files → t = t'
  ahead : ∀ wallet, s.hdWallet = some wallet → Ahead (numbered wallet) (s.keys.keys.erase address)

def StepOk (s : KeyStore V) : KeyOp V → Prop
  | .createKey now _ key password => s.Imports now key password s.hdWallet
  | .importKey now _ key password => s.Imports now key password s.hdWallet
  | .importMnemonic now _ wallet password => ∀ key, deriveAccount wallet 0 = .ok key →
      s.Imports now key password (some wallet)
  | .deriveNextAddress .. => s.count < 2 ^ 32
  | .remove _ address => s.Removes address
  | .reopen _ => True

/-! ## The invariant -/

/-- Every file holds a key of the store as the store has it, and every key has a file. -/
structure Inv (s : KeyStore V) : Prop where
  file : ∀ name contents, s.files.lookup name = some contents →
    ∃ t seed key password encrypted, name = fileName t (V.address key) ∧
      contents = V.toJson (encryptKey seed key password) ∧
      s.keys.lookup (V.address key) = some encrypted ∧
      V.decrypt (V.encrypt seed key password) = V.decrypt encrypted.crypto
  filed : ∀ a, a ∈ s.keys → ∃ t, fileName t a ∈ s.files
  ahead : ∀ wallet, s.hdWallet = some wallet → Ahead (numbered wallet) s.keys.keys
  free : ∀ wallet, s.hdWallet = some wallet → CollisionFree wallet

theorem inv_empty : Inv (⟨∅, ∅, none⟩ : KeyStore V) where
  file name contents h := by
    rw [Finmap.lookup_empty] at h
    cases h
  filed a h := absurd h Finmap.notMem_empty
  ahead _ h := by cases h
  free _ h := by cases h

/-! ## Loading -/

theorem loaded_eq (hreads : V.Reads) (t : UInt64) (seed : V.Seed) (key : V.PrivateKey)
    (password : String) :
    loaded (fileName t (V.address key), V.toJson (encryptKey seed key password)) =
      some (V.address key, encryptKey seed key password) := by
  rw [loaded, if_pos (extension_fileName t _), hreads]
  dsimp only [Option.bind_eq_bind, Option.bind_some]
  rw [show (encryptKey seed key password : EncryptedKey V.Crypto).address =
    toHex (V.address key) from rfl, fromHex_toHex]
  rfl

theorem lookup_loadKeys {a : Address} {encrypted : EncryptedKey V.Crypto} :
    ∀ {files : List (String × V.Contents)} {keys : Column Address (EncryptedKey V.Crypto)},
      (loadKeys files keys).lookup a = some encrypted →
        (∃ file ∈ files, loaded file = some (a, encrypted)) ∨ keys.lookup a = some encrypted
  | [], _, h => .inr h
  | file :: files, keys, h => by
    rw [loadKeys, List.foldl_cons] at h
    rcases lookup_loadKeys h with ⟨file', hfile', hloaded⟩ | h
    · exact .inl ⟨file', List.mem_cons_of_mem _ hfile', hloaded⟩
    · cases hloaded : loaded file with
      | none =>
        rw [hloaded] at h
        exact .inr h
      | some entry =>
        rw [hloaded] at h
        dsimp only at h
        by_cases ha : a = entry.1
        · rw [ha, Finmap.lookup_insert] at h
          cases h
          exact .inl ⟨file, List.mem_cons_self .., by rw [hloaded, ha]⟩
        · rw [Finmap.lookup_insert_of_ne _ ha] at h
          exact .inr h

theorem mem_loadKeys {a : Address} :
    ∀ {files : List (String × V.Contents)} {keys : Column Address (EncryptedKey V.Crypto)},
      (a ∈ keys ∨ ∃ file ∈ files, ∃ encrypted, loaded file = some (a, encrypted)) →
        a ∈ loadKeys files keys
  | [], _, h => h.resolve_right fun ⟨_, hfile, _⟩ => (List.not_mem_nil hfile).elim
  | file :: files, keys, h => by
    rw [loadKeys, List.foldl_cons]
    refine mem_loadKeys ?_
    rcases h with hmem | ⟨file', hfile', encrypted, hloaded⟩
    · left
      cases loaded file with
      | none => exact hmem
      | some entry => exact Finmap.mem_insert.mpr (.inr hmem)
    · rcases List.mem_cons.mp hfile' with rfl | hfile'
      · left
        rw [hloaded]
        exact Finmap.mem_insert.mpr (.inl rfl)
      · exact .inr ⟨file', hfile', encrypted, hloaded⟩

/-- Only keys of the store are loaded, and they open as in the store. -/
theorem Inv.lookup_new (h : Inv s) (hreads : V.Reads) (order : Column.KeyOrder String V.Contents)
    {a : Address} {encrypted : EncryptedKey V.Crypto}
    (hlookup : (new s.files order).keys.lookup a = some encrypted) :
    ∃ e, s.keys.lookup a = some e ∧ V.decrypt encrypted.crypto = V.decrypt e.crypto := by
  rcases lookup_loadKeys hlookup with ⟨⟨name, contents⟩, hfile, hloaded⟩ | hempty
  · obtain ⟨t, seed, key, password, e, rfl, rfl, he, hopen⟩ :=
      h.file _ _ (Column.KeyOrder.mem_entries.mp hfile)
    rw [loaded_eq hreads, Option.some.injEq, Prod.mk.injEq] at hloaded
    obtain ⟨rfl, rfl⟩ := hloaded
    exact ⟨e, he, hopen⟩
  · rw [Finmap.lookup_empty] at hempty
    cases hempty

theorem Inv.mem_new (h : Inv s) (hreads : V.Reads) (order : Column.KeyOrder String V.Contents)
    {a : Address} (ha : a ∈ s.keys) : a ∈ (new s.files order).keys := by
  obtain ⟨t, ht⟩ := h.filed a ha
  obtain ⟨contents, hcontents⟩ := Finmap.mem_iff.mp ht
  obtain ⟨t', seed, key, password, e, hname, rfl, he, -⟩ := h.file _ _ hcontents
  have hkey : a = V.address key := by
    have hcontains := (contains_fileName t a a).mpr rfl
    rw [hname] at hcontains
    exact ((contains_fileName _ _ _).mp hcontains).symm
  refine mem_loadKeys (.inr ⟨_, Column.KeyOrder.mem_entries.mpr hcontents,
    encryptKey seed key password, ?_⟩)
  rw [hname, loaded_eq hreads, hkey]

theorem Inv.agrees (h : Inv s) (hreads : V.Reads) : Agrees s := by
  have haddresses : ∀ order a, a ∈ (new s.files order).keys ↔ a ∈ s.keys := by
    intro order a
    constructor
    · intro ha
      obtain ⟨encrypted, hencrypted⟩ := Finmap.mem_iff.mp ha
      obtain ⟨e, he, -⟩ := h.lookup_new hreads order hencrypted
      exact Finmap.mem_of_lookup_eq_some he
    · exact h.mem_new hreads order
  refine ⟨haddresses, fun order a password => ?_⟩
  unfold getKey
  cases hnew : (new s.files order).keys.lookup a with
  | none =>
    have ha : a ∉ s.keys := by
      rw [← haddresses order, ← Finmap.lookup_eq_none]
      exact hnew
    rw [Finmap.lookup_eq_none.mpr ha]
  | some encrypted =>
    obtain ⟨e, he, hopen⟩ := h.lookup_new hreads order hnew
    rw [he]
    exact congrFun hopen password

/-! ## One step -/

theorem eq_of_fileName_eq {t t' : UInt64} {a b : Address} (h : fileName t a = fileName t' b) :
    a = b := by
  have hcontains := (contains_fileName t a a).mpr rfl
  rw [h] at hcontains
  exact ((contains_fileName _ _ _).mp hcontains).symm

/-- Two encryptions of one key under one password open alike. -/
theorem decrypt_eq_of_opens (hopens : V.Opens) {seed seed' : V.Seed} {key key' : V.PrivateKey}
    {password password' : String}
    (h : V.decrypt (V.encrypt seed' key' password') password = .ok key) :
    V.decrypt (V.encrypt seed' key' password') = V.decrypt (V.encrypt seed key password) := by
  rw [hopens] at h
  split at h
  · next hpassword =>
    cases h
    funext p
    rw [hopens, hopens, hpassword]
  · cases h

theorem Inv.importKey (h : Inv s) (hopens : V.Opens) {now : UInt64} {seed : V.Seed}
    {key : V.PrivateKey} {password : String} {hdWallet : Option V.HDWallet}
    (himports : s.Imports now key password hdWallet)
    (hfree : ∀ wallet, hdWallet = some wallet → CollisionFree wallet) :
    Inv { (s.importKey now seed key password).2 with hdWallet := hdWallet } where
  file name contents hlookup := by
    by_cases hname : name = fileName now (V.address key)
    · rw [hname] at hlookup
      have hcontents := Finmap.lookup_insert (a := fileName now (V.address key))
        (b := V.toJson (encryptKey seed key password)) s.files
      rw [KeyStore.importKey, hcontents, Option.some.injEq] at hlookup
      exact ⟨now, seed, key, password, _, hname, hlookup.symm, Finmap.lookup_insert _, rfl⟩
    · rw [KeyStore.importKey, Finmap.lookup_insert_of_ne _ hname] at hlookup
      obtain ⟨t, seed', key', password', e, rfl, hcontents, he, hopen⟩ := h.file _ _ hlookup
      by_cases haddress : V.address key' = V.address key
      · -- an older file of the same address: it opens with the same password
        refine ⟨t, seed', key', password', encryptKey seed key password, rfl, hcontents, ?_, ?_⟩
        · rw [haddress]
          exact Finmap.lookup_insert _
        · rw [haddress] at he
          rcases himports.file e he with hdecrypt | honly
          · exact decrypt_eq_of_opens hopens (by rw [hopen, hdecrypt])
          · refine absurd ?_ hname
            have ht : t = now := honly t (haddress ▸ Finmap.mem_of_lookup_eq_some hlookup)
            rw [ht, haddress]
      · refine ⟨t, seed', key', password', e, rfl, hcontents, ?_, hopen⟩
        rw [← he]
        exact Finmap.lookup_insert_of_ne _ haddress
  filed a ha := by
    rcases Finmap.mem_insert.mp ha with rfl | ha
    · exact ⟨now, Finmap.mem_insert.mpr (.inl rfl)⟩
    · obtain ⟨t, ht⟩ := h.filed a ha
      exact ⟨t, Finmap.mem_insert.mpr (.inr ht)⟩
  ahead wallet hwallet := by
    have hkeys : (s.keys.insert (V.address key) (encryptKey seed key password)).keys =
        insert (V.address key) s.keys.keys := Column.keys_insert ..
    exact hkeys ▸ himports.ahead wallet hwallet
  free := hfree

/-- The file that is removed is the only one of its address. -/
theorem Inv.fileToRemove (h : Inv s) (order : Column.KeyOrder String V.Contents) {a : Address}
    (ha : a ∈ s.keys) (honly : ∀ t t', fileName t a ∈ s.files → fileName t' a ∈ s.files → t = t') :
    ∃ t, s.fileToRemove order a = some (fileName t a) ∧
      ∀ t', fileName t' a ∈ s.files → fileName t' a = fileName t a := by
  obtain ⟨t, ht⟩ := h.filed a ha
  have hfound : s.fileToRemove order a = some (fileName t a) := by
    cases hfind : s.fileToRemove order a with
    | none =>
      have hnone := List.find?_eq_none.mp hfind (fileName t a) ((order.mem_iff _ _).mpr ht)
      refine absurd ?_ hnone
      exact decide_eq_true ⟨extension_fileName t a, (contains_fileName t a a).mpr rfl⟩
    | some name =>
      rw [KeyStore.fileToRemove] at hfind
      have hmem : name ∈ s.files := (order.mem_iff _ _).mp (List.mem_of_find?_eq_some hfind)
      have hmatch : extension name = some "json" ∧ contains name (toHex a) = true := by
        have hfound := List.find?_some hfind
        exact of_decide_eq_true hfound
      obtain ⟨contents, hcontents⟩ := Finmap.mem_iff.mp hmem
      obtain ⟨t', seed, key, password, e, rfl, -, -, -⟩ := h.file _ _ hcontents
      have hkey := (contains_fileName _ _ _).mp hmatch.2
      rw [hkey] at hmem ⊢
      rw [honly t' t hmem ht]
  exact ⟨t, hfound, fun t' ht' => by rw [honly t' t ht' ht]⟩

theorem Inv.remove (h : Inv s) (order : Column.KeyOrder String V.Contents) {a : Address}
    (ha : a ∈ s.keys) (hremoves : s.Removes a) : Inv (s.remove order a).2 := by
  obtain ⟨t, hfound, honly⟩ := h.fileToRemove order ha hremoves.file
  rw [KeyStore.remove, if_pos ha, hfound]
  refine ⟨fun name contents hlookup => ?_, fun b hb => ?_, fun wallet hwallet => ?_, h.free⟩
  · have hname : name ≠ fileName t a := by
      rintro rfl
      rw [Finmap.lookup_erase] at hlookup
      cases hlookup
    rw [Finmap.lookup_erase_ne hname] at hlookup
    obtain ⟨t', seed, key, password, e, rfl, hcontents, he, hopen⟩ := h.file _ _ hlookup
    refine ⟨t', seed, key, password, e, rfl, hcontents, ?_, hopen⟩
    have hne : V.address key ≠ a := by
      rintro rfl
      exact hname (honly t' (Finmap.mem_of_lookup_eq_some hlookup))
    rw [← he]
    exact Finmap.lookup_erase_ne hne
  · obtain ⟨hne, hb⟩ := Finmap.mem_erase.mp hb
    obtain ⟨t', ht'⟩ := h.filed b hb
    exact ⟨t', Finmap.mem_erase.mpr ⟨fun heq => hne (eq_of_fileName_eq heq), ht'⟩⟩
  · have hkeys : (s.keys.erase a).keys = s.keys.keys.erase a := Column.keys_erase ..
    exact hkeys ▸ hremoves.ahead wallet hwallet

/-- The directory opened anew has the invariant as well. -/
theorem Inv.reopen (h : Inv s) (hreads : V.Reads) (order : Column.KeyOrder String V.Contents) :
    Inv (new s.files order) where
  file name contents hlookup := by
    obtain ⟨t, seed, key, password, e, hname, hcontents, he, hopen⟩ := h.file name contents hlookup
    have hmem := h.mem_new hreads order (Finmap.mem_of_lookup_eq_some he)
    obtain ⟨encrypted, hencrypted⟩ := Finmap.mem_iff.mp hmem
    obtain ⟨e', he', hopen'⟩ := h.lookup_new hreads order hencrypted
    rw [he, Option.some.injEq] at he'
    exact ⟨t, seed, key, password, encrypted, hname, hcontents, hencrypted,
      hopen.trans (he' ▸ hopen'.symm)⟩
  filed a ha := h.filed a (((h.agrees hreads).addresses order a).mp ha)
  ahead _ hwallet := by cases hwallet
  free _ hwallet := by cases hwallet

theorem numbered_eq {wallet : V.HDWallet} {i : UInt32} {key : V.PrivateKey}
    (h : V.derivePath wallet (DerivationPath.pyrax 0 0 i) = .ok key) :
    numbered wallet i = some (V.address key) := by
  rw [numbered, h]

/-- The derived address is new. -/
theorem Inv.derived_fresh (h : Inv s) {wallet : V.HDWallet} {key : V.PrivateKey}
    (hwallet : s.hdWallet = some wallet) (hcount : s.count < 2 ^ 32)
    (hkey : V.derivePath wallet (DerivationPath.pyrax 0 0 (UInt32.ofNat s.count)) = .ok key) :
    V.address key ∉ s.keys := by
  rw [← Finmap.mem_keys]
  exact (h.ahead wallet hwallet).fresh hcount (numbered_eq hkey)

theorem Inv.deriveNextAddress (h : Inv s) (hopens : V.Opens) {now : UInt64} {seed : V.Seed}
    {password : String} (hcount : s.count < 2 ^ 32) :
    Inv (s.deriveNextAddress now seed password).2 := by
  unfold KeyStore.deriveNextAddress
  split
  · exact h
  next wallet hwallet =>
  split
  · exact h
  next key hkey =>
  have hfresh := h.derived_fresh hwallet hcount hkey
  refine h.importKey hopens ⟨fun e he => ?_, fun wallet' hwallet' => ?_⟩ h.free
  · exact absurd (Finmap.mem_of_lookup_eq_some he) hfresh
  · rw [hwallet, Option.some.injEq] at hwallet'
    rw [← hwallet']
    exact (h.ahead wallet hwallet).insert hcount (h.free wallet hwallet) (numbered_eq hkey)

/-- **A step that meets its condition keeps the invariant.** -/
theorem Inv.exec (h : Inv s) (hopens : V.Opens) (hreads : V.Reads) {op : KeyOp V}
    (hfree : ∀ now seed wallet password, op = .importMnemonic now seed wallet password →
      CollisionFree wallet) (hok : s.StepOk op) : Inv (s.exec op) := by
  cases op with
  | createKey now seed key password => exact h.importKey hopens hok h.free
  | importKey now seed key password => exact h.importKey hopens hok h.free
  | importMnemonic now seed wallet password =>
    show Inv (s.importMnemonic now seed wallet password).2
    unfold KeyStore.importMnemonic
    split
    · exact h
    · next key hkey =>
      refine h.importKey hopens (hok key hkey) fun wallet' hwallet' => ?_
      cases hwallet'
      exact hfree now seed wallet password rfl
  | deriveNextAddress now seed password => exact h.deriveNextAddress hopens hok
  | remove order address =>
    by_cases ha : address ∈ s.keys
    · exact h.remove order ha hok
    · show Inv (s.remove order address).2
      rw [KeyStore.remove, if_neg ha]
      exact h
  | reopen order => exact h.reopen hreads order

/-- And what the step promises. -/
theorem Inv.kept (h : Inv s) (hreads : V.Reads) {op : KeyOp V} (hok : s.StepOk op)
    (hnext : Inv (s.exec op)) : s.Kept op := by
  cases op with
  | remove order address =>
    intro name contents encrypted hlookup hloaded
    obtain ⟨t, seed, key, password, e, rfl, rfl, he, -⟩ := hnext.file _ _ hlookup
    rw [loaded_eq hreads, Option.some.injEq, Prod.mk.injEq] at hloaded
    rw [hloaded.1] at he
    have hgone : (s.remove order address).2.keys.lookup address = none := by
      unfold KeyStore.remove
      split
      · exact Finmap.lookup_erase ..
      · next ha => exact Finmap.lookup_eq_none.mpr ha
    rw [show (s.exec (.remove order address)).keys = (s.remove order address).2.keys from rfl,
      hgone] at he
    cases he
  | deriveNextAddress now seed password =>
    intro address hderived
    unfold KeyStore.deriveNextAddress at hderived
    split at hderived
    · cases hderived
    next wallet hwallet =>
    split at hderived
    · cases hderived
    next key hkey =>
    cases hderived
    exact h.derived_fresh hwallet hok hkey
  | _ => trivial

/-! ## Runs -/

/-- **Along a run whose steps meet their conditions, the directory opened anew is the store,
removed keys are gone and derived addresses are new.** -/
theorem reopening (hopens : V.Opens) (hreads : V.Reads) {ops : List (KeyOp V)}
    (hfree : ∀ now seed wallet password, KeyOp.importMnemonic now seed wallet password ∈ ops →
      CollisionFree wallet)
    (hok : ∀ pre op, pre ++ [op] <+: ops → (after pre).StepOk op) :
    (∀ pre, pre <+: ops → Agrees (after pre)) ∧
      ∀ pre op, pre ++ [op] <+: ops → (after pre).Kept op := by
  have hmem : ∀ pre op, pre ++ [op] <+: ops → op ∈ ops := by
    intro pre op hpre
    exact hpre.subset (List.mem_append_right _ (List.mem_singleton_self op))
  have hstep : ∀ pre op, pre ++ [op] <+: ops → Inv (after pre) →
      Inv ((after pre).exec op) := by
    intro pre op hpre h
    refine h.exec hopens hreads (fun now seed wallet password hop => ?_) (hok pre op hpre)
    exact hfree now seed wallet password (hop ▸ hmem pre op hpre)
  have hinv : ∀ pre, pre <+: ops → Inv (after pre) := by
    refine forall_prefixes inv_empty fun pre op hpre h => ?_
    rw [after_concat]
    exact hstep pre op hpre h
  refine ⟨fun pre hpre => (hinv pre hpre).agrees hreads, fun pre op hpre => ?_⟩
  have hpre' := (List.prefix_append pre [op]).trans hpre
  exact (hinv pre hpre').kept hreads (hok pre op hpre) (hstep pre op hpre (hinv pre hpre'))

/-- Keys that are numbers, under a password that is kept beside them. -/
def plainVault : Vault where
  PrivateKey := UInt32
  address key := Address.fromSlice (Wire.encU32 key ++ List.replicate 16 0)
  HDWallet := Unit
  derivePath _ path := .ok (path.indices.getLastD 0)
  Seed := Unit
  uuid _ := ""
  Crypto := UInt32 × String
  encrypt _ key password := (key, password)
  decrypt crypto password :=
    if password = crypto.2 then .ok crypto.1 else .error .invalidPassword
  Contents := EncryptedKey (UInt32 × String)
  toJson encrypted := encrypted
  fromJson := some

theorem plainVault_opens : plainVault.Opens := fun _ _ _ _ => rfl

theorem plainVault_reads : plainVault.Reads := fun _ => rfl

theorem numbered_plainVault (i : UInt32) :
    numbered (V := plainVault) () i = some (plainVault.address i) := rfl

theorem plainVault_address_inj {i j : UInt32} (h : plainVault.address i = plainVault.address j) :
    i = j := by
  have hlen : ∀ k : UInt32, (Wire.encU32 k ++ List.replicate 16 0).length = 20 := by
    intro k
    rw [List.length_append, Wire.encU32_length, List.length_replicate]
  have hbytes := congrArg Address.asBytes h
  have hread : ∀ k : UInt32, (plainVault.address k).asBytes =
      Wire.encU32 k ++ List.replicate 16 0 := fun k => toList_arrayFromSlice (hlen k)
  rw [hread, hread] at hbytes
  exact Wire.encU32_inj (List.append_cancel_right hbytes)

theorem plainVault_free : CollisionFree (V := plainVault) () := by
  intro i j a hi hj
  rw [numbered_plainVault, Option.some.injEq] at hi hj
  exact plainVault_address_inj (hi.trans hj.symm)

theorem isTrans_names : IsTrans String fun a b => a ≤ b := inferInstance

theorem antisymm_names : Std.Antisymm fun a b : String => a ≤ b := inferInstance

theorem total_names : Std.Total fun a b : String => a ≤ b := inferInstance

def plainOrder : Column.KeyOrder String plainVault.Contents :=
  @Column.KeyOrder.sorted String plainVault.Contents (fun a b => a ≤ b) _ isTrans_names
    antisymm_names total_names

/-- A wallet and its second address. -/
def derivingRun : List (KeyOp plainVault) :=
  [.importMnemonic 0 () () "password", .deriveNextAddress 1 () "password"]

theorem derivingRun_ok : ∀ pre op, pre ++ [op] <+: derivingRun → (after pre).StepOk op := by
  refine forall_prefixes_snoc fun i hi => ?_
  match i, hi with
  | 0, _ =>
    intro key hkey
    cases hkey
    refine ⟨fun e he => ?_, fun wallet _ i a ha hmem => ?_⟩
    · rw [show (after (derivingRun.take 0)).keys = ∅ from rfl, Finmap.lookup_empty] at he
      cases he
    · -- the only address held is the one with the number 0
      rw [show numbered wallet i = some (plainVault.address i) from rfl, Option.some.injEq] at ha
      have haddress : a = plainVault.address (0 : UInt32) :=
        (Finset.mem_insert.mp hmem).resolve_right (Finset.notMem_empty a)
      rw [plainVault_address_inj (ha.trans haddress)]
      decide
  | 1, _ =>
    show (after (derivingRun.take 1)).count < 2 ^ 32
    decide

theorem reopening_deriving :
    (∀ pre, pre <+: derivingRun → Agrees (after pre)) ∧
      ∀ pre op, pre ++ [op] <+: derivingRun → (after pre).Kept op :=
  reopening plainVault_opens plainVault_reads (fun _ _ _ _ _ => plainVault_free) derivingRun_ok

/-- A wallet, its second address, the first one removed, and the next address. -/
def removalRun : List (KeyOp plainVault) :=
  [.importMnemonic 0 () () "password", .deriveNextAddress 1 () "password",
    .remove plainOrder (plainVault.address (0 : UInt32)), .deriveNextAddress 2 () "password"]

/-- **After a removal an address is derived again.** -/
theorem derived_again :
    ¬ ∀ (V : Vault) (ops : List (KeyOp V)), V.Opens → V.Reads →
      (∀ now seed wallet password, KeyOp.importMnemonic now seed wallet password ∈ ops →
        CollisionFree wallet) →
      (∀ pre, pre <+: ops → Agrees (after pre)) ∧
        ∀ pre op, pre ++ [op] <+: ops → (after pre).Kept op := by
  intro h
  have hkept := (h plainVault removalRun plainVault_opens plainVault_reads
    fun _ _ _ _ _ => plainVault_free).2 (removalRun.take 3) (.deriveNextAddress 2 () "password")
    ⟨[], rfl⟩
  exact hkept (plainVault.address (1 : UInt32)) rfl (by decide)

/-! ## A second file -/

theorem lookup_files_remove {order : Column.KeyOrder String V.Contents} {a : Address}
    {name : String} (hname : s.fileToRemove order a ≠ some name) :
    (s.remove order a).2.files.lookup name = s.files.lookup name := by
  unfold KeyStore.remove
  split
  · cases hfind : s.fileToRemove order a with
    | none => rfl
    | some name' =>
      rw [hfind, ne_eq, Option.some.injEq] at hname
      exact Finmap.lookup_erase_ne (Ne.symm hname)
  · rfl

/-- Of two files of an address, one is left after a removal. -/
theorem mem_new_remove (hreads : V.Reads) {t t' : UInt64} (ht : t ≠ t') {seed seed' : V.Seed}
    {key key' : V.PrivateKey} {password password' : String} {a : Address}
    (hkey : V.address key = a) (hkey' : V.address key' = a)
    (hfile : s.files.lookup (fileName t a) = some (V.toJson (encryptKey seed key password)))
    (hfile' : s.files.lookup (fileName t' a) =
      some (V.toJson (encryptKey seed' key' password')))
    (order order' : Column.KeyOrder String V.Contents) :
    a ∈ (new (s.remove order a).2.files order').keys := by
  by_cases hfirst : s.fileToRemove order a = some (fileName t a)
  · have hsecond : s.fileToRemove order a ≠ some (fileName t' a) := by
      rw [hfirst, ne_eq, Option.some.injEq]
      exact fun heq => ht (fileName_inj heq)
    rw [← lookup_files_remove hsecond] at hfile'
    refine mem_loadKeys (.inr ⟨_, Column.KeyOrder.mem_entries.mpr hfile',
      encryptKey seed' key' password', ?_⟩)
    rw [← hkey']
    exact loaded_eq hreads ..
  · rw [← lookup_files_remove hfirst] at hfile
    refine mem_loadKeys (.inr ⟨_, Column.KeyOrder.mem_entries.mpr hfile,
      encryptKey seed key password, ?_⟩)
    rw [← hkey]
    exact loaded_eq hreads ..

end KeyStore

end Pyrax.Wallet
