import Pyrax.Base.Hex
import Pyrax.Base.Records
import Pyrax.Wallet.DerivationPath

/-!
# The keystore and its directory

`KeyStore` of `pyrax-wallet/src/keystore.rs`. A store keeps its keys in memory by address,
and in a directory in files named after the second of the import and the address. Encryption,
key derivation and JSON are parameters (`Vault`), the clock, random bytes and the order in
which a directory is read are arguments. A directory is a map from names to contents, so no
reading or writing fails.

The master key of `unlock` is left out: nothing reads it.
-/

namespace Pyrax.Wallet

open Base

/-- What `encrypt_key` returns, `crypto` being cipher, parameters and digest. -/
structure EncryptedKey (Crypto : Type) where
  address : String
  crypto : Crypto
  id : String
  version : UInt32
  deriving DecidableEq

/-- What the keystore is built on. -/
structure Vault where
  PrivateKey : Type
  address : PrivateKey → Address
  HDWallet : Type
  derivePath : HDWallet → DerivationPath → Except WalletError PrivateKey
  /-- The random bytes of one encryption. -/
  Seed : Type
  uuid : Seed → String
  Crypto : Type
  encrypt : Seed → PrivateKey → String → Crypto
  decrypt : Crypto → String → Except WalletError PrivateKey
  /-- What a file holds. -/
  Contents : Type
  toJson : EncryptedKey Crypto → Contents
  fromJson : Contents → Option (EncryptedKey Crypto)

/-- Only the password of the encryption opens it. -/
def Vault.Opens (V : Vault) : Prop :=
  ∀ seed key password password', V.decrypt (V.encrypt seed key password) password' =
    if password' = password then .ok key else .error .invalidPassword

/-- What is written can be read. -/
def Vault.Reads (V : Vault) : Prop := ∀ encrypted, V.fromJson (V.toJson encrypted) = some encrypted

/-! ## Names of files -/

/-- `Address::to_hex`. -/
def toHex (address : Address) : String := Hex.encodeHex address.asBytes

/-- `Address::from_hex`, an error being `none`. -/
def fromHex (s : String) : Option Address :=
  (Hex.decodeHex (Hex.strip0x s)).bind fun bytes =>
    if bytes.length = 20 then some (Address.fromSlice bytes) else none

/-- `UTC--{seconds}--{address}.json`. -/
def fileName (now : UInt64) (address : Address) : String :=
  "UTC--" ++ toString now.toNat ++ "--" ++ toHex address ++ ".json"

/-- `Path::extension`: what follows the last dot, if something stands before it. -/
def extension (name : String) : Option String :=
  match name.toList.reverse.dropWhile (· ≠ '.') with
  | [] | [_] => none
  | _ => some (String.ofList (name.toList.reverse.takeWhile (· ≠ '.')).reverse)

/-- `name.contains(part)`. -/
def contains (name part : String) : Bool := decide (part.toList <:+: name.toList)

/-! ## The source -/

structure KeyStore (V : Vault) where
  files : Column String V.Contents
  keys : Column Address (EncryptedKey V.Crypto)
  hdWallet : Option V.HDWallet

namespace KeyStore

variable {V : Vault}

/-- The key that a file holds, if `load_keys` takes it. -/
def loaded (file : String × V.Contents) : Option (Address × EncryptedKey V.Crypto) :=
  if extension file.1 = some "json" then do
    let encrypted ← V.fromJson file.2
    let address ← fromHex encrypted.address
    some (address, encrypted)
  else none

def loadKeys (files : List (String × V.Contents)) (keys : Column Address (EncryptedKey V.Crypto)) :
    Column Address (EncryptedKey V.Crypto) :=
  files.foldl (fun keys file => match loaded file with
    | some (address, encrypted) => keys.insert address encrypted
    | none => keys) keys

/-- `KeyStore::new` on a directory, read in some order. -/
def new (files : Column String V.Contents) (order : Column.KeyOrder String V.Contents) :
    KeyStore V :=
  ⟨files, loadKeys (order.entries files) ∅, none⟩

def encryptKey (seed : V.Seed) (key : V.PrivateKey) (password : String) : EncryptedKey V.Crypto :=
  ⟨toHex (V.address key), V.encrypt seed key password, V.uuid seed, 3⟩

def importKey (s : KeyStore V) (now : UInt64) (seed : V.Seed) (key : V.PrivateKey)
    (password : String) : Address × KeyStore V :=
  let address := V.address key
  let encrypted := encryptKey seed key password
  (address, { s with
    files := s.files.insert (fileName now address) (V.toJson encrypted)
    keys := s.keys.insert address encrypted })

/-- `PrivateKey::random()` is the argument `key`. -/
def createKey (s : KeyStore V) (now : UInt64) (seed : V.Seed) (key : V.PrivateKey)
    (password : String) : Address × KeyStore V :=
  s.importKey now seed key password

def deriveAccount (wallet : V.HDWallet) (account : UInt32) : Except WalletError V.PrivateKey :=
  V.derivePath wallet (DerivationPath.pyrax account 0 0)

/-- `wallet` is what `mnemonic.to_hd_wallet(passphrase)` returns. -/
def importMnemonic (s : KeyStore V) (now : UInt64) (seed : V.Seed) (wallet : V.HDWallet)
    (password : String) : Except WalletError Address × KeyStore V :=
  match deriveAccount wallet 0 with
  | .error e => (.error e, s)
  | .ok key =>
    let (address, s) := s.importKey now seed key password
    (.ok address, { s with hdWallet := some wallet })

def getKey (s : KeyStore V) (address : Address) (password : String) :
    Except WalletError V.PrivateKey :=
  match s.keys.lookup address with
  | none => .error (.keyNotFound address)
  | some encrypted => V.decrypt encrypted.crypto password

/-- The first file that `remove` finds. -/
def fileToRemove (s : KeyStore V) (order : Column.KeyOrder String V.Contents) (address : Address) :
    Option String :=
  (order.keys s.files).find? fun name =>
    extension name = some "json" ∧ contains name (toHex address)

def remove (s : KeyStore V) (order : Column.KeyOrder String V.Contents) (address : Address) :
    Except WalletError Unit × KeyStore V :=
  if address ∈ s.keys then
    (.ok (), { s with
      files := match s.fileToRemove order address with
        | some name => s.files.erase name
        | none => s.files
      keys := s.keys.erase address })
  else (.error (.keyNotFound address), s)

/-- `self.keys.len()`. -/
def count (s : KeyStore V) : Nat := s.keys.keys.card

def deriveNextAddress (s : KeyStore V) (now : UInt64) (seed : V.Seed) (password : String) :
    Except WalletError Address × KeyStore V :=
  match s.hdWallet with
  | none => (.error .keystoreLocked, s)
  | some wallet =>
    match V.derivePath wallet (DerivationPath.pyrax 0 0 (UInt32.ofNat s.count)) with
    | .error e => (.error e, s)
    | .ok key =>
      let (address, s) := s.importKey now seed key password
      (.ok address, s)

end KeyStore

/-! ## Steps -/

/-- What is done with a store. To open the directory anew is a step as well. -/
inductive KeyOp (V : Vault) where
  | createKey (now : UInt64) (seed : V.Seed) (key : V.PrivateKey) (password : String)
  | importKey (now : UInt64) (seed : V.Seed) (key : V.PrivateKey) (password : String)
  | importMnemonic (now : UInt64) (seed : V.Seed) (wallet : V.HDWallet) (password : String)
  | deriveNextAddress (now : UInt64) (seed : V.Seed) (password : String)
  | remove (order : Column.KeyOrder String V.Contents) (address : Address)
  | reopen (order : Column.KeyOrder String V.Contents)

namespace KeyStore

variable {V : Vault}

def exec (s : KeyStore V) : KeyOp V → KeyStore V
  | .createKey now seed key password => (s.createKey now seed key password).2
  | .importKey now seed key password => (s.importKey now seed key password).2
  | .importMnemonic now seed wallet password => (s.importMnemonic now seed wallet password).2
  | .deriveNextAddress now seed password => (s.deriveNextAddress now seed password).2
  | .remove order address => (s.remove order address).2
  | .reopen order => new s.files order

/-- The store after some steps, from an empty directory. -/
def after (ops : List (KeyOp V)) : KeyStore V := ops.foldl exec ⟨∅, ∅, none⟩

theorem after_concat (ops : List (KeyOp V)) (op : KeyOp V) :
    after (ops ++ [op]) = (after ops).exec op := List.foldl_concat ..

end KeyStore

/-! ## Names and addresses -/

theorem digit_ne_x : ∀ n : Fin 16, Hex.digit n.val ≠ 'x' := by decide

theorem strip0x_encodeHex (bytes : List UInt8) :
    Hex.strip0x (Hex.encodeHex bytes) = Hex.encodeHex bytes := by
  unfold Hex.strip0x
  split
  · next rest h =>
    rw [Hex.encodeHex, String.toList_ofList] at h
    cases bytes with
    | nil => cases h
    | cons b bytes =>
      rw [Hex.encodeChars] at h
      have hb : b.toNat % 16 < 16 := Nat.mod_lt _ (by decide)
      exact absurd (List.cons.inj (List.cons.inj h).2).1 (digit_ne_x ⟨_, hb⟩)
  · rfl

theorem fromHex_toHex (address : Address) : fromHex (toHex address) = some address := by
  rw [fromHex, toHex, strip0x_encodeHex, Hex.decodeHex_encodeHex, Option.bind_some,
    if_pos address.asBytes_length, Address.fromSlice_asBytes]

theorem toHex_inj {a b : Address} (h : toHex a = toHex b) : a = b := by
  have ha := fromHex_toHex a
  rw [h, fromHex_toHex, Option.some.injEq] at ha
  exact ha.symm

section Infix

variable {α : Type} {x : α} {part : List α}

theorem prefix_of_prefix_append_cons : ∀ {front part rest : List α}, x ∉ part →
    part <+: front ++ x :: rest → part <+: front
  | [], [], _, _, _ => List.nil_prefix
  | [], y :: part, rest, hx, h => by
    rw [List.nil_append, List.cons_prefix_cons] at h
    rw [h.1] at hx
    exact absurd (List.mem_cons_self ..) hx
  | y :: front, [], _, _, _ => List.nil_prefix
  | y :: front, z :: part, rest, hx, h => by
    rw [List.cons_append, List.cons_prefix_cons] at h
    rw [List.cons_prefix_cons]
    exact ⟨h.1, prefix_of_prefix_append_cons (fun hmem => hx (List.mem_cons_of_mem _ hmem)) h.2⟩

/-- A part without `x` stands on one side of it. -/
theorem infix_of_infix_append_cons (hx : x ∉ part) {rest : List α} : ∀ {front : List α},
    part <:+: front ++ x :: rest → part <:+: front ∨ part <:+: rest
  | [], h => by
    rcases List.infix_cons_iff.mp h with hprefix | hinfix
    · exact .inl (prefix_of_prefix_append_cons hx hprefix : part <+: []).isInfix
    · exact .inr hinfix
  | y :: front, h => by
    rcases List.infix_cons_iff.mp h with hprefix | hinfix
    · exact .inl (prefix_of_prefix_append_cons hx hprefix : part <+: y :: front).isInfix
    · rcases infix_of_infix_append_cons hx hinfix with hfront | hrest
      · exact .inl (List.infix_cons hfront)
      · exact .inr hrest

end Infix

theorem encodeChars_length (bytes : List UInt8) :
    (Hex.encodeChars bytes).length = 2 * bytes.length := by
  induction bytes with
  | nil => rfl
  | cons b bytes ih =>
    rw [Hex.encodeChars, List.length_cons, List.length_cons, List.length_cons, ih]
    omega

/-- A character that is no hex digit does not stand in an address. -/
theorem not_mem_encodeChars {c : Char} (hc : Hex.nibble c = none) (bytes : List UInt8) :
    c ∉ Hex.encodeChars bytes := by
  have hne : ∀ n : Fin 16, Hex.digit n.val ≠ c := by
    intro n hn
    rw [← hn, Hex.nibble_digit] at hc
    cases hc
  induction bytes with
  | nil => exact List.not_mem_nil
  | cons b bytes ih =>
    have hhi : b.toNat / 16 < 16 := by
      have := b.toNat_lt
      omega
    have hlo : b.toNat % 16 < 16 := Nat.mod_lt _ (by decide)
    rw [Hex.encodeChars, List.mem_cons, List.mem_cons]
    rintro (h | h | h)
    · exact hne ⟨_, hhi⟩ h.symm
    · exact hne ⟨_, hlo⟩ h.symm
    · exact ih h

theorem toList_toHex (address : Address) : (toHex address).toList = Hex.encodeChars address.asBytes :=
  String.toList_ofList

theorem length_toHex (address : Address) : (toHex address).toList.length = 40 := by
  rw [toList_toHex, encodeChars_length, address.asBytes_length]

theorem not_mem_toHex {c : Char} (hc : Hex.nibble c = none) (address : Address) :
    c ∉ (toHex address).toList :=
  toList_toHex address ▸ not_mem_encodeChars hc _

/-- The seconds between their dashes. -/
theorem toList_fileName (now : UInt64) (address : Address) :
    (fileName now address).toList = ['U', 'T', 'C'] ++ '-' :: ([] ++ '-' ::
      (Nat.toDigits 10 now.toNat ++ '-' :: ([] ++ '-' ::
        ((toHex address).toList ++ '.' :: ['j', 's', 'o', 'n'])))) := by
  have hnow : (toString now.toNat).toList = Nat.toDigits 10 now.toNat := Nat.toList_repr
  simp only [fileName, String.toList_append, hnow, List.append_assoc]
  rfl

theorem length_seconds (now : UInt64) : (Nat.toDigits 10 now.toNat).length ≤ 20 :=
  (Nat.length_toDigits_le_iff (by decide) (by decide)).mpr
    (Nat.lt_of_lt_of_le now.toNat_lt (by decide))

/-- **The name of a file contains one address.** -/
theorem contains_fileName (now : UInt64) (a b : Address) :
    contains (fileName now a) (toHex b) = true ↔ a = b := by
  rw [contains, decide_eq_true_iff, toList_fileName]
  have hdash : '-' ∉ (toHex b).toList := not_mem_toHex (by decide) b
  have hdot : '.' ∉ (toHex b).toList := not_mem_toHex (by decide) b
  have hlong : ∀ {l : List Char}, l.length < 40 → ¬ (toHex b).toList <:+: l := by
    intro l hl h
    have hle := h.length_le
    rw [length_toHex] at hle
    omega
  constructor
  · intro h
    rcases infix_of_infix_append_cons hdash h with h | h
    · exact absurd h (hlong (by decide))
    rcases infix_of_infix_append_cons hdash h with h | h
    · exact absurd h (hlong (by decide))
    rcases infix_of_infix_append_cons hdash h with h | h
    · exact absurd h (hlong (Nat.lt_of_le_of_lt (length_seconds now) (by decide)))
    rcases infix_of_infix_append_cons hdash h with h | h
    · exact absurd h (hlong (by decide))
    rcases infix_of_infix_append_cons hdot h with h | h
    · have heq := h.eq_of_length (by rw [length_toHex, length_toHex])
      exact (toHex_inj (String.toList_inj.mp heq)).symm
    · exact absurd h (hlong (by decide))
  · rintro rfl
    exact ⟨['U', 'T', 'C', '-', '-'] ++ Nat.toDigits 10 now.toNat ++ ['-', '-'],
      '.' :: ['j', 's', 'o', 'n'], by simp⟩

theorem fileName_inj {now now' : UInt64} {address : Address}
    (h : fileName now address = fileName now' address) : now = now' := by
  have hlist := congrArg String.toList h
  rw [toList_fileName, toList_fileName] at hlist
  simp only [List.nil_append, List.cons_append, List.cons.injEq, true_and,
    List.append_cancel_right_eq] at hlist
  have hnat := congrArg (fun s => Nat.ofDigitChars 10 s 0) hlist
  simp only [Nat.ofDigitChars_ten_toDigits] at hnat
  exact UInt64.toNat_inj.mp hnat

theorem extension_fileName (now : UInt64) (address : Address) :
    extension (fileName now address) = some "json" := by
  have hreverse : (fileName now address).toList.reverse = ['n', 'o', 's', 'j'] ++ '.' ::
      ((toHex address).toList.reverse ++ ['-', '-'] ++ (Nat.toDigits 10 now.toNat).reverse ++
        ['-', '-', 'C', 'T', 'U']) := by
    rw [toList_fileName]
    simp
  unfold extension
  rw [hreverse, List.takeWhile_append_of_pos (by simp), List.dropWhile_append_of_pos (by simp),
    List.takeWhile_cons_of_neg (by decide), List.dropWhile_cons_of_neg (by decide)]
  split
  · next h => cases h
  · next h => simp at h
  · rfl

end Pyrax.Wallet
