import Pyrax.Base.Checks
import Pyrax.Base.Regroup
import Pyrax.Bridge.Swap

/-!
# The text of a unified address

`to_bech32` and `from_bech32` of `pyrax-node/src/bridge/unified_address.rs`: 25 bytes (a
type, an address, a checksum) in base32 behind a network prefix and the separator `1`. The
prefix takes the place of the network number, and the last character is filled up with
zero bits.

Base32 itself loses nothing (`base32Decode_base32Encode`). The two readings of a text and
of an address are not quite inverse, though. A number above 2 is written as the development
network, which is number 2. And `base32_decode` drops what is left over at the end without
a look at it: 25 bytes fill 40 characters, and a 41st, whichever it is, brings five bits
that are too few for a byte. `fromBech32_eq_ok_iff`: an address has its own text and that
text with any one character of the charset after it.
-/

namespace Pyrax.Bridge

open Base Regroup

inductive NetworkPrefix where
  | mainnet
  | testnet
  | devnet
  deriving DecidableEq

namespace NetworkPrefix

def asStr : NetworkPrefix → String
  | mainnet => "pyrax"
  | testnet => "tpyrax"
  | devnet => "dpyrax"

def fromStr (s : String) : Option NetworkPrefix :=
  if s = "pyrax" then some mainnet
  else if s = "tpyrax" then some testnet
  else if s = "dpyrax" then some devnet
  else none

/-- The number in an address: 0 = mainnet, 1 = testnet, 2 = devnet. -/
def number : NetworkPrefix → UInt8
  | mainnet => 0
  | testnet => 1
  | devnet => 2

end NetworkPrefix

namespace AddressType

/-- `address_type as u8`. -/
def toU8 : AddressType → UInt8
  | utxo => 0
  | evm => 1
  | unified => 2

def ofU8 (byte : UInt8) : Option AddressType :=
  if byte = 0 then some utxo
  else if byte = 1 then some evm
  else if byte = 2 then some unified
  else none

end AddressType

inductive AddressError where
  | decodingError (message : String)
  | invalidNetwork (hrp : String)
  | invalidLength (length : Nat)
  | invalidType (byte : UInt8)
  | invalidChecksum
  deriving DecidableEq

def BECH32_CHARSET : List Char := "qpzry9x8gf2tvdw0s3jn54khce6mua7l".toList

def base32Encode (data : List UInt8) : String :=
  String.ofList ((finish 5 (regroup 8 5 (data.map UInt8.toNat))).map (BECH32_CHARSET.getD · 'q'))

/-- `BECH32_CHARSET.iter().position(|&x| x as char == c)` for each character, up to the
first that has none. -/
def charIndices : List Char → Except String (List Nat)
  | [] => .ok []
  | c :: cs =>
    match BECH32_CHARSET.findIdx? (· = c) with
    | none => .error ("Invalid character: " ++ String.singleton c)
    | some idx => (charIndices cs).map (idx :: ·)

/-- The source looks a character up as it comes to it. -/
def base32Decode (s : String) : Except String (List UInt8) :=
  (charIndices s.toList).map fun idxs => (regroup 5 8 idxs).written.map UInt8.ofNat

/-- What stands before and after the last `sep` (`rfind`). -/
def splitAtLast (sep : Char) : List Char → Option (List Char × List Char)
  | [] => none
  | c :: cs =>
    match splitAtLast sep cs with
    | some (before, after) => some (c :: before, after)
    | none => if c = sep then some ([], cs) else none

namespace UnifiedAddress

def computeChecksum (C : Crypto) (bytes : Vector UInt8 20) (addrType : AddressType) :
    Vector UInt8 4 :=
  arrayFromSlice 4 (C.blake3 (addrType.toU8 :: bytes.toList)).asBytes

def fromBytes (C : Crypto) (bytes : Vector UInt8 20) (network : NetworkPrefix) : UnifiedAddress :=
  ⟨.unified, network.number, bytes, computeChecksum C bytes .unified⟩

def verifyChecksum (C : Crypto) (a : UnifiedAddress) : Bool :=
  a.checksum = computeChecksum C a.bytes a.addressType

def networkPrefix (a : UnifiedAddress) : NetworkPrefix :=
  if a.network = 0 then .mainnet else if a.network = 1 then .testnet else .devnet

/-- `[type_byte, 20 address bytes, 4 checksum bytes]`. -/
def data (a : UnifiedAddress) : List UInt8 :=
  a.addressType.toU8 :: (a.bytes.toList ++ a.checksum.toList)

/-- `to_bech32`, which never fails. -/
def toBech32 (a : UnifiedAddress) : String :=
  a.networkPrefix.asStr ++ "1" ++ base32Encode a.data

def fromBech32 (C : Crypto) (s : String) : Except AddressError UnifiedAddress := do
  let (hrp, dataPart) ← okOr (splitAtLast '1' s.toList) (.decodingError "Missing separator")
  let network ← okOr (NetworkPrefix.fromStr (.ofList hrp)) (.invalidNetwork (.ofList hrp))
  let bytes ← (base32Decode (.ofList dataPart)).mapError .decodingError
  failIf (bytes.length ≠ 25) (.invalidLength bytes.length)
  let addressType ← okOr (AddressType.ofU8 (bytes.getD 0 0)) (.invalidType (bytes.getD 0 0))
  let addr : UnifiedAddress :=
    ⟨addressType, network.number, arrayFromSlice 20 ((bytes.drop 1).take 20),
      arrayFromSlice 4 (bytes.drop 21)⟩
  failIf (addr.verifyChecksum C = false) .invalidChecksum
  return addr

end UnifiedAddress

/-! ## Characters and digits -/

variable {cs : List Char} {idxs : List Nat}

theorem charset_index : ∀ i : Fin 32,
    BECH32_CHARSET.findIdx? (· = BECH32_CHARSET.getD i.val 'q') = some i.val := by
  decide +kernel

theorem getD_of_index {c : Char} {i : Nat} (h : BECH32_CHARSET.findIdx? (· = c) = some i) :
    i < 32 ∧ BECH32_CHARSET.getD i 'q' = c := by
  obtain ⟨hi, hc, -⟩ := List.findIdx?_eq_some_iff_getElem.mp h
  have hlength : BECH32_CHARSET.length = 32 := by decide +kernel
  refine ⟨hlength ▸ hi, ?_⟩
  rw [List.getD_eq_getElem?_getD, List.getElem?_eq_getElem hi]
  exact of_decide_eq_true hc

theorem charIndices_map : ∀ {idxs : List Nat}, (∀ i ∈ idxs, i < 2 ^ 5) →
    charIndices (idxs.map (BECH32_CHARSET.getD · 'q')) = .ok idxs
  | [], _ => rfl
  | i :: idxs, h => by
    have hi := charset_index ⟨i, h i List.mem_cons_self⟩
    dsimp only at hi
    rw [List.map_cons, charIndices, hi]
    dsimp only
    rw [charIndices_map fun j hj => h j (List.mem_cons_of_mem _ hj)]
    rfl

/-- Only characters of the charset have indices, and these stand for them. -/
theorem charIndices_ok : ∀ {cs : List Char} {idxs : List Nat}, charIndices cs = .ok idxs →
    (∀ i ∈ idxs, i < 2 ^ 5) ∧ cs = idxs.map (BECH32_CHARSET.getD · 'q')
  | [], idxs, h => by
    cases h
    simp
  | c :: cs, idxs, h => by
    rw [charIndices] at h
    cases hc : BECH32_CHARSET.findIdx? (· = c) with
    | none =>
      rw [hc] at h
      cases h
    | some i =>
      rw [hc] at h
      dsimp only at h
      cases hrest : charIndices cs with
      | error e =>
        rw [hrest] at h
        cases h
      | ok rest =>
        rw [hrest] at h
        cases h
        obtain ⟨hi, hget⟩ := getD_of_index hc
        obtain ⟨hbound, hmap⟩ := charIndices_ok hrest
        refine ⟨List.forall_mem_cons.mpr ⟨hi, hbound⟩, ?_⟩
        rw [List.map_cons, hget, ← hmap]

theorem toNat_lt_of_mem {data : List UInt8} : ∀ d ∈ data.map UInt8.toNat, d < 2 ^ 8 := by
  intro d hd
  obtain ⟨b, -, rfl⟩ := List.mem_map.mp hd
  exact b.toNat_lt

theorem map_ofNat_map_toNat (data : List UInt8) :
    (data.map UInt8.toNat).map UInt8.ofNat = data := by
  rw [List.map_map]
  exact (List.map_congr_left fun b _ => UInt8.ofNat_toNat).trans (List.map_id _)

theorem map_toNat_map_ofNat {ns : List Nat} (h : ∀ n ∈ ns, n < 2 ^ 8) :
    (ns.map UInt8.ofNat).map UInt8.toNat = ns := by
  rw [List.map_map]
  refine (List.map_congr_left fun n hn => ?_).trans (List.map_id _)
  exact UInt8.toNat_ofNat_of_lt' (h n hn)

/-- The characters of a text and the digits of the bytes are the same. -/
theorem toList_base32Encode (data : List UInt8) :
    (base32Encode data).toList
      = (finish 5 (regroup 8 5 (data.map UInt8.toNat))).map (BECH32_CHARSET.getD · 'q') :=
  String.toList_ofList

/-- Every byte string is read back. -/
theorem base32Decode_base32Encode (data : List UInt8) :
    base32Decode (base32Encode data) = .ok data := by
  obtain ⟨_, hfilled⟩ := filled_finish (by decide : 0 < 8) (by decide : 0 < 5) (by decide)
    (@toNat_lt_of_mem data)
  rw [base32Decode, toList_base32Encode, charIndices_map hfilled.digits]
  show Except.ok ((regroup 5 8 _).written.map UInt8.ofNat) = _
  rw [regroup_finish (by decide) (by decide) (by decide) toNat_lt_of_mem, map_ofNat_map_toNat]

/-- What a text that is read gives, and when it is the text of what it gives. -/
theorem base32Decode_ok {s : String} {bytes : List UInt8} (h : base32Decode s = .ok bytes) :
    ∃ idxs, (∀ i ∈ idxs, i < 2 ^ 5) ∧ s.toList = idxs.map (BECH32_CHARSET.getD · 'q') ∧
      (regroup 5 8 idxs).written.map UInt8.ofNat = bytes := by
  rw [base32Decode] at h
  cases hidxs : charIndices s.toList with
  | error e =>
    rw [hidxs] at h
    cases h
  | ok idxs =>
    rw [hidxs] at h
    obtain ⟨hbound, hmap⟩ := charIndices_ok hidxs
    exact ⟨idxs, hbound, hmap, Except.ok.inj h⟩

/-- Forty characters are a text: 25 bytes and nothing left over. -/
theorem encode_of_length (h : ∀ i ∈ idxs, i < 2 ^ 5) (hlength : idxs.length = 40) :
    (base32Encode ((regroup 5 8 idxs).written.map UInt8.ofNat)).toList
        = idxs.map (BECH32_CHARSET.getD · 'q') ∧ (regroup 5 8 idxs).bits = 0 := by
  obtain ⟨hholds, hbits⟩ := holds_regroup (by decide : 0 < 5) (by decide : 0 < 8) (by decide) h
  have hcount := hholds.length
  have hzero : (regroup 5 8 idxs).bits = 0 := by omega
  refine ⟨?_, hzero⟩
  rw [toList_base32Encode, map_toNat_map_ofNat hholds.digits,
    (finish_regroup_iff (by decide) (by decide) (by decide) h).mpr]
  rw [hzero]
  exact ⟨by decide, Nat.mod_one _⟩

theorem length_base32Encode {bytes : List UInt8} (hlength : bytes.length = 25) :
    (base32Encode bytes).toList.length = 40 := by
  obtain ⟨_, hfilled⟩ := filled_finish (by decide : 0 < 8) (by decide : 0 < 5) (by decide)
    (@toNat_lt_of_mem bytes)
  have hcount := hfilled.length
  have hshort := hfilled.short
  rw [List.length_map, hlength] at hcount
  rw [toList_base32Encode, List.length_map]
  omega

/-- One more digit is too few bits for a byte. -/
theorem regroup_snoc {i : Nat} (h : (regroup 5 8 idxs).bits = 0) :
    (regroup 5 8 (idxs ++ [i])).written = (regroup 5 8 idxs).written := by
  have hsnoc : regroup 5 8 (idxs ++ [i]) = Regroup.read 5 8 (regroup 5 8 idxs) i := by
    rw [regroup, List.foldl_append]
    rfl
  rw [hsnoc, Regroup.read, h]
  rfl

/-- **The texts of 25 bytes**: theirs, and it with any one character after it. -/
theorem base32Decode_eq_ok_iff {s : String} {bytes : List UInt8} (hlength : bytes.length = 25) :
    base32Decode s = .ok bytes ↔ s.toList = (base32Encode bytes).toList ∨
      ∃ c ∈ BECH32_CHARSET, s.toList = (base32Encode bytes).toList ++ [c] := by
  constructor
  · intro h
    obtain ⟨idxs, hbound, htext, rfl⟩ := base32Decode_ok h
    obtain ⟨hholds, hbits⟩ :=
      holds_regroup (by decide : 0 < 5) (by decide : 0 < 8) (by decide) hbound
    have hcount := hholds.length
    rw [List.length_map] at hlength
    rw [htext]
    rcases (show idxs.length = 40 ∨ idxs.length = 41 by omega) with hforty | hmore
    · exact .inl (encode_of_length hbound hforty).1.symm
    · right
      have hne : idxs ≠ [] := List.length_pos_iff.mp (by omega)
      obtain ⟨init, i, rfl⟩ : ∃ init i, idxs = init ++ [i] :=
        ⟨idxs.dropLast, idxs.getLast hne, (List.dropLast_concat_getLast hne).symm⟩
      have hinit : ∀ j ∈ init, j < 2 ^ 5 := fun j hj => hbound j (List.mem_append_left _ hj)
      have hi : i < 32 := hbound i (List.mem_append_right _ (List.mem_singleton_self i))
      obtain ⟨hencode, hzero⟩ := encode_of_length hinit (by simpa using hmore)
      rw [regroup_snoc hzero, hencode, List.map_append]
      refine ⟨BECH32_CHARSET.getD i 'q', ?_, rfl⟩
      have hcharset : i < BECH32_CHARSET.length := hi
      rw [List.getD_eq_getElem?_getD, List.getElem?_eq_getElem hcharset]
      exact List.getElem_mem hcharset
  · intro h
    obtain ⟨_, hfilled⟩ := filled_finish (by decide : 0 < 8) (by decide : 0 < 5) (by decide)
      (@toNat_lt_of_mem bytes)
    have hback := base32Decode_base32Encode bytes
    rw [base32Decode, toList_base32Encode, charIndices_map hfilled.digits] at hback
    rw [base32Decode]
    rw [toList_base32Encode] at h
    rcases h with h | ⟨c, hc, h⟩
    · rw [h, charIndices_map hfilled.digits]
      exact hback
    · have hforty := length_base32Encode hlength
      rw [toList_base32Encode, List.length_map] at hforty
      have hzero := (encode_of_length hfilled.digits hforty).2
      obtain ⟨i, hi, rfl⟩ := List.getElem_of_mem hc
      have hget : BECH32_CHARSET[i] = BECH32_CHARSET.getD i 'q' := by
        rw [List.getD_eq_getElem?_getD, List.getElem?_eq_getElem hi]
        rfl
      have hbound : ∀ j ∈ finish 5 (regroup 8 5 (bytes.map UInt8.toNat)) ++ [i], j < 2 ^ 5 := by
        intro j hj
        rcases List.mem_append.mp hj with hj | hj
        · exact hfilled.digits j hj
        · exact List.mem_singleton.mp hj ▸ hi
      have htext : (finish 5 (regroup 8 5 (bytes.map UInt8.toNat))).map (BECH32_CHARSET.getD · 'q')
            ++ [BECH32_CHARSET.getD i 'q']
          = (finish 5 (regroup 8 5 (bytes.map UInt8.toNat)) ++ [i]).map
            (BECH32_CHARSET.getD · 'q') := by
        rw [List.map_append]
        rfl
      rw [h, hget, htext, charIndices_map hbound, ← hback]
      show Except.ok ((regroup 5 8 _).written.map UInt8.ofNat) = _
      rw [regroup_snoc hzero]
      rfl

/-! ## The prefix -/

theorem splitAtLast_of_notMem {sep : Char} (h : sep ∉ cs) : splitAtLast sep cs = none := by
  induction cs with
  | nil => rfl
  | cons c cs ih =>
    rw [List.mem_cons, not_or] at h
    rw [splitAtLast, ih h.2]
    exact if_neg (Ne.symm h.1)

theorem splitAtLast_append {sep : Char} {after : List Char} (h : sep ∉ after)
    (before : List Char) : splitAtLast sep (before ++ sep :: after) = some (before, after) := by
  induction before with
  | nil =>
    rw [List.nil_append, splitAtLast, splitAtLast_of_notMem h]
    exact if_pos rfl
  | cons c before ih => rw [List.cons_append, splitAtLast, ih]

theorem splitAtLast_eq_some {sep : Char} {before after : List Char}
    (h : splitAtLast sep cs = some (before, after)) : cs = before ++ sep :: after := by
  induction cs generalizing before with
  | nil => cases h
  | cons c cs ih =>
    rw [splitAtLast] at h
    cases hsplit : splitAtLast sep cs with
    | some parts =>
      rw [hsplit] at h
      cases h
      rw [ih hsplit, List.cons_append]
    | none =>
      rw [hsplit] at h
      dsimp only at h
      split at h
      · next hc =>
        cases h
        rw [hc, List.nil_append]
      · cases h

namespace NetworkPrefix

theorem fromStr_asStr (n : NetworkPrefix) : fromStr n.asStr = some n := by
  cases n with
  | mainnet => rfl
  | testnet => rfl
  | devnet => rfl

theorem asStr_of_fromStr {s : String} {n : NetworkPrefix} (h : fromStr s = some n) :
    n.asStr = s := by
  unfold fromStr at h
  split at h
  · next hs => cases h; exact hs.symm
  split at h
  · next hs => cases h; exact hs.symm
  split at h
  · next hs => cases h; exact hs.symm
  · cases h

end NetworkPrefix

namespace AddressType

theorem ofU8_toU8 (t : AddressType) : ofU8 t.toU8 = some t := by
  cases t with
  | utxo => rfl
  | evm => rfl
  | unified => rfl

theorem toU8_of_ofU8 {byte : UInt8} {t : AddressType} (h : ofU8 byte = some t) :
    t.toU8 = byte := by
  unfold ofU8 at h
  split at h
  · next hb => cases h; exact hb.symm
  split at h
  · next hb => cases h; exact hb.symm
  split at h
  · next hb => cases h; exact hb.symm
  · cases h

end AddressType

namespace UnifiedAddress

variable {C : Crypto} {a : UnifiedAddress} {s : String}

/-- The number of a prefix is read as that prefix. -/
theorem networkPrefix_of_number {n : NetworkPrefix} (h : a.network = n.number) :
    a.networkPrefix = n ∧ a.network ≤ 2 := by
  rw [networkPrefix, h]
  cases n with
  | mainnet => decide
  | testnet => decide
  | devnet => decide

/-- A number up to 2 is that of a prefix. -/
theorem number_networkPrefix (h : a.network ≤ 2) : a.networkPrefix.number = a.network := by
  have hle : a.network.toNat ≤ 2 := UInt8.le_iff_toNat_le.mp h
  unfold networkPrefix
  split
  · next hzero => exact hzero.symm
  split
  · next hone => exact hone.symm
  · next hzero hone =>
    have hne : a.network.toNat ≠ 0 := fun h => hzero (UInt8.toNat_inj.mp h)
    have hne' : a.network.toNat ≠ 1 := fun h => hone (UInt8.toNat_inj.mp h)
    refine UInt8.toNat_inj.mp ?_
    show 2 = _
    omega

@[simp] theorem data_length (a : UnifiedAddress) : a.data.length = 25 := by
  simp [data]

/-- The bytes of an address, and only they, give its parts. -/
theorem parts_of_data {t : AddressType} {bytes : List UInt8} (hlength : bytes.length = 25) :
    AddressType.ofU8 (bytes.getD 0 0) = some t ∧
        arrayFromSlice 20 ((bytes.drop 1).take 20) = a.bytes ∧
        arrayFromSlice 4 (bytes.drop 21) = a.checksum ∧ t = a.addressType ↔
      bytes = a.data ∧ t = a.addressType := by
  constructor
  · rintro ⟨htype, hbytes, hchecksum, rfl⟩
    refine ⟨?_, rfl⟩
    have hfirst := AddressType.toU8_of_ofU8 htype
    have hmiddle : a.bytes.toList = (bytes.drop 1).take 20 := by
      rw [← hbytes]
      exact toList_arrayFromSlice (by simp [hlength])
    have hlast : a.checksum.toList = bytes.drop 21 := by
      rw [← hchecksum]
      exact toList_arrayFromSlice (by simp [hlength])
    rw [data, hfirst, hmiddle, hlast]
    cases bytes with
    | nil => cases hlength
    | cons b rest =>
      show b :: rest = b :: (rest.take 20 ++ rest.drop 20)
      rw [List.take_append_drop]
  · rintro ⟨rfl, rfl⟩
    refine ⟨AddressType.ofU8_toU8 _, ?_, ?_, rfl⟩
    · show arrayFromSlice 20 ((a.bytes.toList ++ a.checksum.toList).take 20) = _
      rw [List.take_append_of_le_length (by simp), List.take_of_length_le (by simp),
        arrayFromSlice_toList]
    · show arrayFromSlice 4 ((a.bytes.toList ++ a.checksum.toList).drop 20) = _
      rw [List.drop_append_of_le_length (by simp), List.drop_of_length_le (by simp),
        List.nil_append, arrayFromSlice_toList]

/-- The separator is no character of a text that is read. -/
theorem separator_notMem {text : List Char} {bytes : List UInt8}
    (h : base32Decode (.ofList text) = .ok bytes) : '1' ∉ text := by
  obtain ⟨idxs, hbound, htext, -⟩ := base32Decode_ok h
  rw [String.toList_ofList] at htext
  have hcharset : ∀ i : Fin 32, BECH32_CHARSET.getD i.val 'q' ≠ '1' := by decide +kernel
  intro hmem
  rw [htext] at hmem
  obtain ⟨i, hi, heq⟩ := List.mem_map.mp hmem
  exact hcharset ⟨i, hbound i hi⟩ heq

/-- A text is read as an address whose checksum and network are right, and which its
second part spells. -/
theorem fromBech32_eq_ok : fromBech32 C s = .ok a ↔
    a.verifyChecksum C = true ∧ a.network ≤ 2 ∧ ∃ text,
      s.toList = a.networkPrefix.asStr.toList ++ '1' :: text ∧
      base32Decode (.ofList text) = .ok a.data := by
  constructor
  · intro h
    obtain ⟨⟨hrp, text⟩, hsplit, h⟩ := bind_eq_ok.mp h
    obtain ⟨network, hnetwork, h⟩ := bind_eq_ok.mp h
    obtain ⟨found, hbytes, h⟩ := bind_eq_ok.mp h
    obtain ⟨hlength, h⟩ := failIf_bind_eq_ok.mp h
    obtain ⟨t, htype, h⟩ := bind_eq_ok.mp h
    obtain ⟨hchecksum, h⟩ := failIf_bind_eq_ok.mp h
    have ha := Except.ok.inj h
    have hdecoded : base32Decode (.ofList text) = .ok found := by
      cases hdecode : base32Decode (.ofList text) with
      | error e =>
        rw [hdecode] at hbytes
        cases hbytes
      | ok read =>
        rw [hdecode] at hbytes
        cases hbytes
        rfl
    have hnamed : a.networkPrefix = network ∧ a.network ≤ 2 :=
      networkPrefix_of_number (by rw [← ha])
    have hmiddle : arrayFromSlice 20 ((found.drop 1).take 20) = a.bytes := by rw [← ha]
    have hlast : arrayFromSlice 4 (found.drop 21) = a.checksum := by rw [← ha]
    have hfirst : t = a.addressType := by rw [← ha]
    have hdata := (parts_of_data (not_not.mp hlength)).mp
      ⟨okOr_eq_ok.mp htype, hmiddle, hlast, hfirst⟩
    refine ⟨?_, hnamed.2, text, ?_, ?_⟩
    · rw [← ha]
      exact Bool.eq_true_of_not_eq_false hchecksum
    · rw [hnamed.1, NetworkPrefix.asStr_of_fromStr (okOr_eq_ok.mp hnetwork), String.toList_ofList]
      exact splitAtLast_eq_some (okOr_eq_ok.mp hsplit)
    · rw [hdecoded, hdata.1]
  · rintro ⟨hchecksum, hnetwork, text, htext, hdecode⟩
    obtain ⟨htype, hbytes, hlast, -⟩ := (parts_of_data a.data_length).mpr ⟨rfl, rfl⟩
    have hlength := a.data_length
    have hnamed := NetworkPrefix.fromStr_asStr a.networkPrefix
    rw [← String.ofList_toList (s := a.networkPrefix.asStr)] at hnamed
    generalize a.networkPrefix.asStr.toList = hrp at htext hnamed
    generalize a.data = bytes at hdecode htype hbytes hlast hlength
    rw [fromBech32, htext, splitAtLast_append (separator_notMem hdecode)]
    refine bind_eq_ok.mpr ⟨(hrp, text), rfl, ?_⟩
    refine bind_eq_ok.mpr ⟨_, okOr_eq_ok.mpr hnamed, ?_⟩
    refine bind_eq_ok.mpr ⟨bytes, by rw [hdecode]; rfl, ?_⟩
    refine failIf_bind_eq_ok.mpr ⟨not_not.mpr hlength, ?_⟩
    refine bind_eq_ok.mpr ⟨_, okOr_eq_ok.mpr htype, ?_⟩
    rw [hbytes, hlast, number_networkPrefix hnetwork]
    exact failIf_bind_eq_ok.mpr ⟨by rw [hchecksum]; decide, rfl⟩

theorem toList_toBech32 (a : UnifiedAddress) :
    a.toBech32.toList = a.networkPrefix.asStr.toList ++ '1' :: (base32Encode a.data).toList := by
  rw [toBech32, String.toList_append, String.toList_append, List.append_assoc]
  rfl

/-- **The texts of an address**: its own, and that with any one character after it. -/
theorem fromBech32_eq_ok_iff : fromBech32 C s = .ok a ↔
    a.verifyChecksum C = true ∧ a.network ≤ 2 ∧
      (s = a.toBech32 ∨ ∃ c ∈ BECH32_CHARSET, s = a.toBech32.push c) := by
  rw [fromBech32_eq_ok]
  refine and_congr_right fun _ => and_congr_right fun _ => ?_
  constructor
  · rintro ⟨text, htext, hdecode⟩
    rw [base32Decode_eq_ok_iff a.data_length, String.toList_ofList] at hdecode
    rcases hdecode with rfl | ⟨c, hc, rfl⟩
    · left
      rw [← String.toList_inj, htext, toList_toBech32]
    · right
      refine ⟨c, hc, ?_⟩
      rw [← String.toList_inj, htext, String.toList_push, toList_toBech32, List.append_assoc]
      rfl
  · intro h
    rcases h with rfl | ⟨c, hc, rfl⟩
    · refine ⟨(base32Encode a.data).toList, toList_toBech32 a, ?_⟩
      rw [String.ofList_toList]
      exact base32Decode_base32Encode a.data
    · refine ⟨(base32Encode a.data).toList ++ [c], ?_, ?_⟩
      · rw [String.toList_push, toList_toBech32, List.append_assoc]
        rfl
      · rw [base32Decode_eq_ok_iff a.data_length, String.toList_ofList]
        exact .inr ⟨c, hc, rfl⟩

/-- **Text and address.** Bytes come back from their text; an address comes back from its
text when its network is one of the three; and a text is the text of the address it is read
as when 40 characters follow the separator. With a 41st there are 33 texts of an address. -/
theorem respelled_iff (C : Crypto) :
    (∀ bytes, base32Decode (base32Encode bytes) = .ok bytes) ∧
    (∀ a, a.verifyChecksum C = true → (fromBech32 C a.toBech32 = .ok a ↔ a.network ≤ 2)) ∧
    (∀ s a, fromBech32 C s = .ok a → ∀ hrp text, s.toList = hrp ++ '1' :: text → '1' ∉ text →
      (a.toBech32 = s ↔ text.length = 40)) ∧
    ∀ a, a.verifyChecksum C = true → a.network ≤ 2 → ∀ s, (fromBech32 C s = .ok a ↔
      s = a.toBech32 ∨ ∃ c ∈ BECH32_CHARSET, s = a.toBech32.push c) := by
  refine ⟨base32Decode_base32Encode, ?_, ?_, ?_⟩
  · intro a hchecksum
    rw [fromBech32_eq_ok_iff]
    exact ⟨fun h => h.2.1, fun h => ⟨hchecksum, h, .inl rfl⟩⟩
  · intro s a h hrp text htext hnot
    obtain ⟨-, -, own, hown, hdecode⟩ := fromBech32_eq_ok.mp h
    -- the text is cut where it was put together
    have hcut := splitAtLast_append (separator_notMem hdecode) a.networkPrefix.asStr.toList
    rw [← hown, htext, splitAtLast_append hnot hrp] at hcut
    cases hcut
    have hlength := length_base32Encode a.data_length
    rw [← String.toList_inj, toList_toBech32, hown]
    rw [base32Decode_eq_ok_iff a.data_length, String.toList_ofList] at hdecode
    rcases hdecode with rfl | ⟨c, -, rfl⟩
    · exact iff_of_true rfl hlength
    · refine iff_of_false (fun heq => ?_) ?_
      · have hsame := congrArg List.length heq
        simp at hsame
      · rw [List.length_append, hlength]
        show ¬ 40 + 1 = 40
        decide
  · intro a hchecksum hnetwork s
    rw [fromBech32_eq_ok_iff]
    exact ⟨fun h => h.2.2, fun h => ⟨hchecksum, hnetwork, h⟩⟩

/-! ## One address -/

/-- The checksum of the address below. -/
def addressCrypto : Crypto := Crypto.ofTable
  [(2 :: List.replicate 20 42,
    H256.ofNatBE 0xee84bb41f7b2ee5288b9962fbd24b4d55253b72c1694e976624bd8d2d5f902c7)]

def sampleAddress : UnifiedAddress :=
  fromBytes addressCrypto (Vector.replicate 20 42) .mainnet

theorem sampleAddress_checksum : sampleAddress.verifyChecksum addressCrypto = true := by
  decide +kernel

theorem respelled_iff_sample :
    fromBech32 addressCrypto sampleAddress.toBech32 = .ok sampleAddress :=
  ((respelled_iff addressCrypto).2.1 sampleAddress sampleAddress_checksum).mpr (by decide)

/-- A character more makes another text of the address, and the address of a fourth network
has no text. -/
theorem sample_respelled :
    sampleAddress.toBech32 = "pyrax1qg4z52329g4z52329g4z52329g4z52329thgfw6p" ∧
      fromBech32 addressCrypto (sampleAddress.toBech32.push 'q') = .ok sampleAddress ∧
      sampleAddress.toBech32 ≠ sampleAddress.toBech32.push 'q' ∧
      { sampleAddress with network := 3 }.verifyChecksum addressCrypto = true ∧
      fromBech32 addressCrypto { sampleAddress with network := 3 }.toBech32
        ≠ .ok { sampleAddress with network := 3 } := by
  refine ⟨?_, ?_, ?_, by decide +kernel, ?_⟩
  · rw [← String.toList_inj]
    decide +kernel
  · exact fromBech32_eq_ok_iff.mpr
      ⟨sampleAddress_checksum, by decide, .inr ⟨'q', by decide, rfl⟩⟩
  · intro heq
    have hlength := congrArg (fun s => s.toList.length) heq
    simp at hlength
  · intro h
    exact absurd (fromBech32_eq_ok_iff.mp h).2.1 (by decide)

end UnifiedAddress

end Pyrax.Bridge
