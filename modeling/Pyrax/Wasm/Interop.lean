import Mathlib.Data.List.TakeWhile
import Pyrax.Base.Slice
import Pyrax.Base.Wire
import Pyrax.Wasm.Storage

/-!
# Calls between the two virtual machines

`AbiCodec` and `EvmWasmBridge` of `pyrax-node/src/wasm/interop.rs`. A call into a WASM
contract is the name of a function and the arguments, each behind its length in four bytes.
`decode_wasm_call` reads it back and never runs out of range, but whatever stands behind the
arguments it ignores.

A call into an EVM contract is the selector and one word: the first 32 bytes of the
arguments, filled up with zeros on the left. What is behind the 32nd byte is lost, and so are
zeros in front. Where the type of a call and the machine of its target do not go together,
the arguments alone are encoded, and neither name nor selector.
-/

namespace Pyrax.Wasm

open Base Wire

/-! ## The source -/

/-- `e` of `map_err(|e| e.to_string())` on `String::from_utf8` holds the bytes. -/
inductive DecodeError where
  | text (message : String)
  | fromUtf8 (bytes : List UInt8)
  deriving DecidableEq

namespace AbiCodec

/-- An argument in a word. -/
def padWord (arg : List UInt8) : List UInt8 :=
  List.replicate (32 - min arg.length 32) 0 ++ arg.take (min arg.length 32)

def encodeEvmCall (selector : Vector UInt8 4) (args : List (List UInt8)) : List UInt8 :=
  selector.toList ++ args.flatMap padWord

/-- `function.as_bytes()`. -/
def asBytes (function : String) : List UInt8 := function.toUTF8.data.toList

/-- A length `as u32` and the bytes. -/
def lengthPrefixed (bytes : List UInt8) : List UInt8 := encU32 (UInt32.ofNat bytes.length) ++ bytes

def encodeWasmCall (function : String) (args : List UInt8) : List UInt8 :=
  lengthPrefixed (asBytes function) ++ lengthPrefixed args

/-- `u32::from_le_bytes([data[i], data[i + 1], data[i + 2], data[i + 3]]) as usize`. -/
def u32At (data : List UInt8) (i : Nat) : Option Nat := do
  let b₀ ← data[i]?
  let b₁ ← data[i + 1]?
  let b₂ ← data[i + 2]?
  let b₃ ← data[i + 3]?
  some (leNat [b₀, b₁, b₂, b₃])

/-- An index out of range is `none`. -/
def decodeWasmCall (data : List UInt8) : Option (Except DecodeError (String × List UInt8)) :=
  if data.length < 8 then some (.error (.text "Data too short")) else do
  let nameLen ← u32At data 0
  if data.length < 4 + nameLen + 4 then some (.error (.text "Invalid name length")) else do
  let nameBytes ← sliceNat data 4 (4 + nameLen)
  match String.fromUTF8? nameBytes.toByteArray with
  | none => some (.error (.fromUtf8 nameBytes))
  | some name => do
    let argsLen ← u32At data (4 + nameLen)
    if data.length < 4 + nameLen + 4 + argsLen then some (.error (.text "Invalid args length"))
    else do
    let args ← sliceNat data (4 + nameLen + 4) (4 + nameLen + 4 + argsLen)
    some (.ok (name, args))

end AbiCodec

inductive CrossVmCallType where
  | evmToWasm
  | wasmToEvm
  | delegateCall
  | staticCall
  deriving DecidableEq

inductive VmType where
  | evm
  | wasm
  deriving DecidableEq

structure CrossVmCall where
  callType : CrossVmCallType
  «from» : Address
  «to» : Address
  selector : List UInt8
  functionName : Option String
  args : List UInt8
  value : UInt64
  gasLimit : UInt64
  depth : UInt32
  deriving DecidableEq

structure PreparedCall where
  call : CrossVmCall
  targetVm : VmType
  encodedData : List UInt8
  deriving DecidableEq

structure EvmWasmBridge where
  wasmContracts : Column Address Bool
  evmContracts : Column Address Bool
  callHistory : List CrossVmCall
  maxDepth : UInt32

namespace EvmWasmBridge

def new : EvmWasmBridge := ⟨∅, ∅, [], 10⟩

def registerWasmContract (b : EvmWasmBridge) (address : Address) : EvmWasmBridge :=
  { b with wasmContracts := b.wasmContracts.insert address true }

def registerEvmContract (b : EvmWasmBridge) (address : Address) : EvmWasmBridge :=
  { b with evmContracts := b.evmContracts.insert address true }

/-- An address registered with both machines is a WASM contract. -/
def getVmType (b : EvmWasmBridge) (address : Address) : Option VmType :=
  if address ∈ b.wasmContracts then some .wasm
  else if address ∈ b.evmContracts then some .evm
  else none

/-- The match of `prepare_call`. -/
def encode (call : CrossVmCall) (targetVm : VmType) : Except String (List UInt8) :=
  match call.callType, targetVm with
  | .evmToWasm, .wasm =>
    match call.functionName with
    | none => .error "Function name required for WASM call"
    | some function => .ok (AbiCodec.encodeWasmCall function call.args)
  | .wasmToEvm, .evm =>
    if call.selector.length < 4 then .error "Selector required for EVM call"
    else .ok (AbiCodec.encodeEvmCall (arrayFromSlice 4 (call.selector.take 4)) [call.args])
  | _, _ => .ok call.args

def prepareCall (b : EvmWasmBridge) (call : CrossVmCall) :
    Except String PreparedCall × EvmWasmBridge :=
  if b.maxDepth ≤ call.depth then (.error "Max call depth exceeded", b) else
  match b.getVmType call.«to» with
  | none => (.error "Unknown contract type", b)
  | some targetVm =>
    match encode call targetVm with
    | .error e => (.error e, b)
    | .ok encodedData =>
      (.ok ⟨call, targetVm, encodedData⟩, { b with callHistory := b.callHistory ++ [call] })

end EvmWasmBridge

/-! ## The length-prefixed codec -/

namespace AbiCodec

variable {data bytes args : List UInt8} {name : String}

theorem fromUTF8?_eq_some_iff :
    String.fromUTF8? bytes.toByteArray = some name ↔ asBytes name = bytes := by
  unfold String.fromUTF8? asBytes
  rw [String.toUTF8_eq_toByteArray]
  split
  · next hvalid =>
    rw [Option.some.injEq]
    constructor
    · intro h
      rw [← h]
      exact List.toList_data_toByteArray
    · intro h
      refine String.toByteArray_inj.mp ?_
      show bytes.toByteArray = name.toByteArray
      rw [← h]
      exact ByteArray.ext (by rw [List.data_toByteArray, Array.toArray_toList])
  · next hinvalid =>
    refine iff_of_false (by simp) fun h => hinvalid ?_
    have hbytes : bytes.toByteArray = name.toByteArray := by
      rw [← h]
      exact ByteArray.ext (by rw [List.data_toByteArray, Array.toArray_toList])
    rw [hbytes]
    exact name.isValidUTF8

theorem u32At_eq (data : List UInt8) (i : Nat) :
    u32At data i = (sliceNat data i (i + 4)).map leNat := by
  have hget : ∀ k, data[i + k]? = (data.drop i)[k]? := fun k => by rw [List.getElem?_drop]
  have hlen : (data.drop i).length = data.length - i := List.length_drop
  unfold u32At sliceNat
  rw [show data[i]? = (data.drop i)[0]? from hget 0, hget 1, hget 2, hget 3, Nat.add_sub_cancel_left]
  match hdrop : data.drop i with
  | [] | [_] | [_, _] | [_, _, _] =>
    rw [hdrop] at hlen
    simp only [List.length_cons, List.length_nil] at hlen
    rw [if_neg (by omega)]
    rfl
  | b₀ :: b₁ :: b₂ :: b₃ :: rest =>
    rw [hdrop] at hlen
    simp only [List.length_cons] at hlen
    rw [if_pos (by omega)]
    rfl

theorem leNat_lt {bytes : List UInt8} (h : bytes.length = 4) : leNat bytes < 2 ^ 32 := by
  have hbytes := leNat_leBytes bytes.length (leNat bytes)
  rw [leBytes_leNat, h] at hbytes
  omega

/-- Four bytes are read as the number they encode. -/
theorem u32At_eq_some_iff {i n : Nat} :
    u32At data i = some n ↔ n < 2 ^ 32 ∧ ∃ front rest,
      data = front ++ encU32 (UInt32.ofNat n) ++ rest ∧ front.length = i := by
  rw [u32At_eq, Option.map_eq_some_iff]
  constructor
  · rintro ⟨bytes, hslice, rfl⟩
    obtain ⟨front, rest, hdata, hfront, hlen⟩ := sliceNat_eq_some_iff.mp hslice
    have hlt : leNat bytes < 2 ^ 32 := leNat_lt (by omega)
    refine ⟨hlt, front, rest, ?_, hfront⟩
    rw [encU32, UInt32.toNat_ofNat_of_lt' hlt, show 4 = bytes.length by omega, leBytes_leNat]
    exact hdata
  · rintro ⟨hlt, front, rest, hdata, hfront⟩
    refine ⟨_, sliceNat_eq_some_iff.mpr ⟨front, rest, hdata, hfront, ?_⟩, ?_⟩
    · rw [encU32_length]
    · rw [encU32, UInt32.toNat_ofNat_of_lt' hlt, leNat_leBytes, Nat.mod_eq_of_lt (by omega)]

/-- The lengths of a name and of arguments fit their four bytes. -/
def Fits (name : String) (args : List UInt8) : Prop :=
  (asBytes name).length < 2 ^ 32 ∧ args.length < 2 ^ 32

theorem decode_encode (h : Fits name args) (extra : List UInt8) :
    decodeWasmCall (encodeWasmCall name args ++ extra) = some (.ok (name, args)) := by
  have hdata : encodeWasmCall name args ++ extra =
      encU32 (UInt32.ofNat (asBytes name).length) ++ asBytes name ++
        encU32 (UInt32.ofNat args.length) ++ args ++ extra := by
    simp only [encodeWasmCall, lengthPrefixed, List.append_assoc]
  have hlen : (encodeWasmCall name args ++ extra).length =
      4 + (asBytes name).length + 4 + args.length + extra.length := by
    rw [hdata]
    simp only [List.length_append, encU32_length]
  have hname : u32At (encodeWasmCall name args ++ extra) 0 = some (asBytes name).length :=
    u32At_eq_some_iff.mpr ⟨h.1, [], asBytes name ++ (encU32 (UInt32.ofNat args.length) ++
      (args ++ extra)), by rw [hdata]; simp only [List.append_assoc, List.nil_append], rfl⟩
  have hbytes : sliceNat (encodeWasmCall name args ++ extra) 4 (4 + (asBytes name).length) =
      some (asBytes name) :=
    sliceNat_eq_some_iff.mpr ⟨encU32 (UInt32.ofNat (asBytes name).length),
      encU32 (UInt32.ofNat args.length) ++ (args ++ extra),
      by rw [hdata]; simp only [List.append_assoc], encU32_length _, rfl⟩
  have hargs : u32At (encodeWasmCall name args ++ extra) (4 + (asBytes name).length) =
      some args.length :=
    u32At_eq_some_iff.mpr ⟨h.2, encU32 (UInt32.ofNat (asBytes name).length) ++ asBytes name,
      args ++ extra, by rw [hdata]; simp only [List.append_assoc],
      by rw [List.length_append, encU32_length]⟩
  have hrest : sliceNat (encodeWasmCall name args ++ extra) (4 + (asBytes name).length + 4)
      (4 + (asBytes name).length + 4 + args.length) = some args :=
    sliceNat_eq_some_iff.mpr ⟨_, extra, hdata,
      by simp only [List.length_append, encU32_length], rfl⟩
  unfold decodeWasmCall
  rw [if_neg (by omega), hname]
  dsimp only [Option.bind_eq_bind, Option.bind_some]
  rw [if_neg (by omega), hbytes]
  dsimp only [Option.bind_some]
  rw [fromUTF8?_eq_some_iff.mpr rfl]
  dsimp only
  rw [hargs]
  dsimp only [Option.bind_some]
  rw [if_neg (by omega), hrest]
  rfl

theorem exists_u32At (data : List UInt8) (i : Nat) (h : i + 4 ≤ data.length) :
    ∃ n, u32At data i = some n := by
  obtain ⟨bytes, hbytes⟩ := exists_sliceNat data (Nat.le_add_right i 4) h
  exact ⟨leNat bytes, by rw [u32At_eq, hbytes]; rfl⟩

/-- A field that follows another one in the data. -/
theorem append_of_append_eq {front rest front' rest' : List UInt8} {n : Nat}
    (h : data = front ++ rest) (h' : data = front' ++ rest') (hlen : front.length = n)
    (hlen' : front'.length = n) : front' = front ∧ rest' = rest :=
  List.append_inj (h'.symm.trans h) (hlen'.trans hlen.symm)

/-- Whatever is accepted is the encoding of a call and perhaps more. -/
theorem eq_encode_of_fields {nameLen argsLen : Nat} (hname : u32At data 0 = some nameLen)
    (hnameBytes : sliceNat data 4 (4 + nameLen) = some (asBytes name))
    (hargsLen : u32At data (4 + nameLen) = some argsLen)
    (hargs : sliceNat data (4 + nameLen + 4) (4 + nameLen + 4 + argsLen) = some args) :
    Fits name args ∧ ∃ extra, data = encodeWasmCall name args ++ extra := by
  obtain ⟨hnameLt, front₀, rest₀, hdata₀, hfront₀⟩ := u32At_eq_some_iff.mp hname
  obtain ⟨front₁, rest₁, hdata₁, hfront₁, hlen₁⟩ := sliceNat_eq_some_iff.mp hnameBytes
  obtain ⟨hargsLt, front₂, rest₂, hdata₂, hfront₂⟩ := u32At_eq_some_iff.mp hargsLen
  obtain ⟨front₃, extra, hdata₃, hfront₃, hlen₃⟩ := sliceNat_eq_some_iff.mp hargs
  have hnameLen : (asBytes name).length = nameLen := by omega
  have hargsLen' : args.length = argsLen := by omega
  rw [List.length_eq_zero_iff.mp hfront₀, List.nil_append] at hdata₀
  rw [List.append_assoc] at hdata₁
  obtain ⟨h₁, -⟩ := append_of_append_eq hdata₀ hdata₁ (encU32_length _) hfront₁
  rw [← List.append_assoc, h₁] at hdata₁
  rw [List.append_assoc] at hdata₂
  obtain ⟨h₂, -⟩ := append_of_append_eq hdata₁ hdata₂
    (by rw [List.length_append, encU32_length, hnameLen]) hfront₂
  rw [← List.append_assoc, h₂] at hdata₂
  rw [List.append_assoc] at hdata₃
  obtain ⟨h₃, -⟩ := append_of_append_eq hdata₂ hdata₃
    (by rw [List.length_append, List.length_append, encU32_length, encU32_length, hnameLen])
    hfront₃
  refine ⟨⟨by omega, by omega⟩, extra, ?_⟩
  rw [hdata₃, h₃, encodeWasmCall, lengthPrefixed, lengthPrefixed, hnameLen, hargsLen']
  simp only [List.append_assoc]

theorem decode_spec (data : List UInt8) :
    ∃ r, decodeWasmCall data = some r ∧ ∀ name args, r = .ok (name, args) →
      Fits name args ∧ ∃ extra, data = encodeWasmCall name args ++ extra := by
  unfold decodeWasmCall
  split
  · exact ⟨_, rfl, fun _ _ h => by cases h⟩
  next hshort =>
  obtain ⟨nameLen, hnameLen⟩ := exists_u32At data 0 (by omega)
  rw [hnameLen]
  dsimp only [Option.bind_eq_bind, Option.bind_some]
  split
  · exact ⟨_, rfl, fun _ _ h => by cases h⟩
  next hname =>
  obtain ⟨nameBytes, hnameBytes⟩ := exists_sliceNat data
    (Nat.le_add_right 4 nameLen) (by omega)
  rw [hnameBytes, Option.bind_some]
  split
  · exact ⟨_, rfl, fun _ _ h => by cases h⟩
  next name hutf8 =>
  obtain ⟨argsLen, hargsLen⟩ := exists_u32At data (4 + nameLen) (by omega)
  rw [hargsLen, Option.bind_some]
  split
  · exact ⟨_, rfl, fun _ _ h => by cases h⟩
  next hargs =>
  obtain ⟨args, hargsBytes⟩ := exists_sliceNat data
    (Nat.le_add_right (4 + nameLen + 4) argsLen) (by omega)
  rw [hargsBytes]
  refine ⟨_, rfl, fun name' args' hok => ?_⟩
  cases hok
  rw [← fromUTF8?_eq_some_iff.mp hutf8] at hnameBytes
  exact eq_encode_of_fields hnameLen hnameBytes hargsLen hargsBytes

/-- **What is accepted.** -/
theorem decode_eq_ok_iff : decodeWasmCall data = some (.ok (name, args)) ↔
    Fits name args ∧ ∃ extra, data = encodeWasmCall name args ++ extra := by
  constructor
  · intro h
    obtain ⟨r, hr, hok⟩ := decode_spec data
    rw [hr, Option.some.injEq] at h
    exact hok name args h
  · rintro ⟨hfits, extra, rfl⟩
    exact decode_encode hfits extra

/-- One string is the beginning of no two calls. -/
theorem encode_append_inj {name' : String} {args' extra extra' : List UInt8} (h : Fits name args)
    (h' : Fits name' args')
    (heq : encodeWasmCall name args ++ extra = encodeWasmCall name' args' ++ extra') :
    name = name' ∧ args = args' ∧ extra = extra' := by
  have hdecode := decode_encode h extra
  rw [heq, decode_encode h' extra'] at hdecode
  simp only [Option.some.injEq, Except.ok.injEq, Prod.mk.injEq] at hdecode
  obtain ⟨rfl, rfl⟩ := hdecode
  exact ⟨rfl, rfl, List.append_cancel_left heq⟩

/-! ## Words -/

/-- What a word keeps of an argument. -/
def significant (arg : List UInt8) : List UInt8 := (arg.take 32).dropWhile (· == 0)

theorem dropWhile_replicate_append (n : Nat) (l : List UInt8) :
    (List.replicate n 0 ++ l).dropWhile (· == 0) = l.dropWhile (· == 0) := by
  induction n with
  | zero => rfl
  | succ n ih => rw [List.replicate_succ, List.cons_append, List.dropWhile_cons_of_pos rfl, ih]

theorem eq_replicate_append (l : List UInt8) :
    l = List.replicate (l.length - (l.dropWhile (· == 0)).length) 0 ++ l.dropWhile (· == 0) := by
  have hsplit := List.takeWhile_append_dropWhile (p := (· == 0)) (l := l)
  have hlen := congrArg List.length hsplit
  rw [List.length_append] at hlen
  have hzeros : l.takeWhile (· == 0) = List.replicate (l.takeWhile (· == 0)).length 0 :=
    List.eq_replicate_iff.mpr ⟨rfl, fun b hb =>
      eq_of_beq (List.mem_takeWhile_imp (p := fun b => b == 0) hb)⟩
  rw [show l.length - (l.dropWhile (· == 0)).length = (l.takeWhile (· == 0)).length by omega,
    ← hzeros, hsplit]

theorem padWord_length (arg : List UInt8) : (padWord arg).length = 32 := by
  rw [padWord, List.length_append, List.length_replicate, List.length_take]
  omega

theorem dropWhile_padWord (arg : List UInt8) :
    (padWord arg).dropWhile (· == 0) = significant arg := by
  rw [padWord, dropWhile_replicate_append, significant]
  congr 1
  rcases Nat.le_total arg.length 32 with hle | hle
  · rw [Nat.min_eq_left hle, List.take_length, List.take_of_length_le hle]
  · rw [Nat.min_eq_right hle]

theorem padWord_eq_iff {args' : List UInt8} :
    padWord args = padWord args' ↔ significant args = significant args' := by
  constructor
  · intro h
    rw [← dropWhile_padWord, h, dropWhile_padWord]
  · intro h
    rw [eq_replicate_append (padWord args), eq_replicate_append (padWord args'),
      dropWhile_padWord, dropWhile_padWord, padWord_length, padWord_length, h]

end AbiCodec

/-! ## What a call delivers -/

open AbiCodec

/-- The encoding of a call, and something behind it. -/
def Trailing (data : List UInt8) : Prop :=
  ∃ name args extra, Fits name args ∧ extra ≠ [] ∧ data = encodeWasmCall name args ++ extra

namespace CrossVmCall

/-- What the machine of the target finds the function by. -/
def SameMethod (c d : CrossVmCall) : VmType → Prop
  | .wasm => c.functionName = d.functionName
  | .evm => c.selector = d.selector

/-- The names are not of different lengths with the same four bytes for it, or the names with
what follows them differ nevertheless. -/
def NamesApart (c d : CrossVmCall) : Prop :=
  ∀ name name', c.functionName = some name → d.functionName = some name' →
    (asBytes name).length % 2 ^ 32 = (asBytes name').length % 2 ^ 32 →
      asBytes name ++ lengthPrefixed c.args = asBytes name' ++ lengthPrefixed d.args →
        (asBytes name).length = (asBytes name').length

/-- What two calls of one type to one machine must differ in where they differ at all. -/
def Apart (c d : CrossVmCall) (targetVm : VmType) : Prop :=
  match c.callType, targetVm with
  | .evmToWasm, .wasm => NamesApart c d
  | .wasmToEvm, .evm =>
    c.selector.take 4 ≠ d.selector.take 4 ∨ significant c.args ≠ significant d.args ∨
      c.selector = d.selector ∧ c.args = d.args
  | _, targetVm => c.args ≠ d.args ∨ SameMethod c d targetVm

end CrossVmCall

/-- The codec reads back what it wrote and nothing else, and what `prepare_call` hands on
tells two calls apart. -/
structure Delivers (name : String) (args data : List UInt8) (p q : PreparedCall) : Prop where
  roundTrip : Fits name args →
    decodeWasmCall (encodeWasmCall name args) = some (.ok (name, args))
  inRange : decodeWasmCall data ≠ none
  onlyEncoded : ∀ n a, decodeWasmCall data = some (.ok (n, a)) → data = encodeWasmCall n a
  told : p.encodedData = q.encodedData →
    p.call.SameMethod q.call p.targetVm ∧ p.call.args = q.call.args

theorem onlyEncoded_iff (data : List UInt8) :
    (∀ n a, decodeWasmCall data = some (.ok (n, a)) → data = encodeWasmCall n a) ↔
      ¬ Trailing data := by
  constructor
  · intro honly htrailing
    obtain ⟨name, args, extra, hfits, hextra, hdata⟩ := htrailing
    have heq := honly name args (decode_eq_ok_iff.mpr ⟨hfits, extra, hdata⟩)
    rw [hdata] at heq
    exact hextra (List.append_right_eq_self.mp heq)
  · intro htrailing name args hok
    obtain ⟨hfits, extra, hdata⟩ := decode_eq_ok_iff.mp hok
    by_cases hextra : extra = []
    · rw [hdata, hextra, List.append_nil]
    · exact absurd ⟨name, args, extra, hfits, hextra, hdata⟩ htrailing

/-- The encoding of a call is no shorter call with something behind it. -/
theorem not_trailing_encode {name : String} {args : List UInt8} (h : Fits name args) :
    ¬ Trailing (encodeWasmCall name args) := by
  rintro ⟨name', args', extra, hfits, hextra, hdata⟩
  have heq : encodeWasmCall name args ++ [] = encodeWasmCall name' args' ++ extra := by
    rw [List.append_nil, hdata]
  exact hextra (encode_append_inj h hfits heq).2.2.symm

/-! ## Two calls -/

theorem lengthPrefixed_inj {bytes bytes' : List UInt8}
    (h : lengthPrefixed bytes = lengthPrefixed bytes') : bytes = bytes' := by
  rw [lengthPrefixed, lengthPrefixed] at h
  exact (List.append_inj h (by rw [encU32_length, encU32_length])).2

theorem asBytes_inj {name name' : String} (h : asBytes name = asBytes name') : name = name' := by
  have hname := fromUTF8?_eq_some_iff.mpr (rfl : asBytes name = asBytes name)
  rw [h, fromUTF8?_eq_some_iff.mpr rfl, Option.some.injEq] at hname
  exact hname.symm

/-- The four bytes of a length are its remainder. -/
theorem encU32_ofNat_inj_iff {m n : Nat} :
    encU32 (UInt32.ofNat m) = encU32 (UInt32.ofNat n) ↔ m % 2 ^ 32 = n % 2 ^ 32 := by
  constructor
  · intro h
    have hnat := congrArg UInt32.toNat (encU32_inj h)
    rwa [UInt32.toNat_ofNat', UInt32.toNat_ofNat'] at hnat
  · intro h
    congr 1
    refine UInt32.toNat_inj.mp ?_
    rwa [UInt32.toNat_ofNat', UInt32.toNat_ofNat']

theorem encodeWasmCall_eq_iff {name name' : String} {args args' : List UInt8} :
    encodeWasmCall name args = encodeWasmCall name' args' ↔
      (asBytes name).length % 2 ^ 32 = (asBytes name').length % 2 ^ 32 ∧
        asBytes name ++ lengthPrefixed args = asBytes name' ++ lengthPrefixed args' := by
  have hcall : ∀ n a, encodeWasmCall n a =
      encU32 (UInt32.ofNat (asBytes n).length) ++ (asBytes n ++ lengthPrefixed a) :=
    fun n a => List.append_assoc ..
  rw [← encU32_ofNat_inj_iff, hcall, hcall]
  constructor
  · intro h
    exact List.append_inj h (by rw [encU32_length, encU32_length])
  · intro h
    rw [h.1, h.2]

theorem encodeEvmCall_eq_iff {selector selector' : List UInt8} {args args' : List UInt8}
    (h : 4 ≤ selector.length) (h' : 4 ≤ selector'.length) :
    encodeEvmCall (arrayFromSlice 4 (selector.take 4)) [args] =
        encodeEvmCall (arrayFromSlice 4 (selector'.take 4)) [args'] ↔
      selector.take 4 = selector'.take 4 ∧ significant args = significant args' := by
  have hlen : (selector.take 4).length = 4 := by rw [List.length_take]; omega
  have hlen' : (selector'.take 4).length = 4 := by rw [List.length_take]; omega
  rw [encodeEvmCall, encodeEvmCall, toList_arrayFromSlice hlen, toList_arrayFromSlice hlen',
    ← padWord_eq_iff]
  simp only [List.flatMap_cons, List.flatMap_nil, List.append_nil]
  constructor
  · intro heq
    exact List.append_inj heq (hlen.trans hlen'.symm)
  · intro heq
    rw [heq.1, heq.2]

namespace EvmWasmBridge

variable {b b' : EvmWasmBridge} {c d : CrossVmCall} {p q : PreparedCall} {targetVm : VmType}
  {x y : List UInt8}

theorem prepareCall_eq_ok (h : (b.prepareCall c).1 = .ok p) :
    c.depth < b.maxDepth ∧ b.getVmType c.«to» = some p.targetVm ∧ p.call = c ∧
      encode c p.targetVm = .ok p.encodedData := by
  unfold prepareCall at h
  split at h
  · cases h
  next hdepth =>
  split at h
  · cases h
  next targetVm hvm =>
  split at h
  · cases h
  next encodedData hencode =>
  cases h
  exact ⟨UInt32.not_le.mp hdepth, hvm, rfl, hencode⟩

/-- A call that is refused leaves the bridge as it was. -/
theorem prepareCall_eq_error {e : String} (h : (b.prepareCall c).1 = .error e) :
    (b.prepareCall c).2 = b := by
  unfold prepareCall at h ⊢
  split
  · rfl
  next hdepth =>
  rw [if_neg hdepth] at h
  cases hvm : b.getVmType c.«to» with
  | none => rfl
  | some targetVm =>
    rw [hvm] at h
    dsimp only at h ⊢
    cases hencode : encode c targetVm with
    | error e' => rfl
    | ok encodedData =>
      rw [hencode] at h
      cases h

theorem told_evmToWasm_iff {name name' : String} (hc : c.functionName = some name)
    (hd : d.functionName = some name') :
    (encodeWasmCall name c.args = encodeWasmCall name' d.args →
        c.SameMethod d .wasm ∧ c.args = d.args) ↔ c.NamesApart d := by
  rw [encodeWasmCall_eq_iff, CrossVmCall.SameMethod, hc, hd]
  constructor
  · intro htold n n' hn hn' hmod heq
    rw [hc, Option.some.injEq] at hn
    rw [hd, Option.some.injEq] at hn'
    subst hn hn'
    have hsame := (htold ⟨hmod, heq⟩).1
    rw [Option.some.injEq] at hsame
    rw [hsame]
  · intro hapart heq
    have hlen := hapart name name' hc hd heq.1 heq.2
    obtain ⟨hname, hargs⟩ := List.append_inj heq.2 hlen
    exact ⟨congrArg some (asBytes_inj hname), lengthPrefixed_inj hargs⟩

theorem told_other_iff :
    (c.args = d.args → c.SameMethod d targetVm ∧ c.args = d.args) ↔
      c.args ≠ d.args ∨ c.SameMethod d targetVm := by
  by_cases hargs : c.args = d.args <;> simp [hargs]

/-- Where type and machine do not go together. -/
theorem encode_other (hwasm : c.callType = .evmToWasm → targetVm = .wasm → False)
    (hevm : c.callType = .wasmToEvm → targetVm = .evm → False) : encode c targetVm = .ok c.args := by
  unfold encode
  split
  · next htype => cases hwasm htype rfl
  · next htype => cases hevm htype rfl
  · rfl

/-- Two encodings differ exactly where the calls are `Apart`. -/
theorem told_iff (hc : encode c targetVm = .ok x) (hd : encode d targetVm = .ok y)
    (htype : c.callType = d.callType) :
    (x = y → c.SameMethod d targetVm ∧ c.args = d.args) ↔ c.Apart d targetVm := by
  unfold CrossVmCall.Apart
  split
  · next hevm =>
    unfold encode at hc hd
    rw [← htype, hevm] at hd
    rw [hevm] at hc
    dsimp only at hc hd
    split at hc
    · cases hc
    next name hname =>
    split at hd
    · cases hd
    next name' hname' =>
    cases hc
    cases hd
    exact told_evmToWasm_iff hname hname'
  · next hwasm =>
    unfold encode at hc hd
    rw [← htype, hwasm] at hd
    rw [hwasm] at hc
    dsimp only at hc hd
    split at hc
    · cases hc
    next hselector =>
    split at hd
    · cases hd
    next hselector' =>
    cases hc
    cases hd
    rw [encodeEvmCall_eq_iff (by omega) (by omega), CrossVmCall.SameMethod]
    tauto
  · next hwasm hevm =>
    rw [encode_other hwasm hevm] at hc
    rw [htype] at hwasm hevm
    rw [encode_other hwasm hevm] at hd
    cases hc
    cases hd
    exact told_other_iff

end EvmWasmBridge

/-! ## When the arguments are delivered -/

/-- **Everything is delivered exactly where nothing stands behind a call in the string, and
the two calls are apart.** -/
theorem delivers_iff {b b' : EvmWasmBridge} {c d : CrossVmCall} {p q : PreparedCall}
    (hp : (b.prepareCall c).1 = .ok p) (hq : (b'.prepareCall d).1 = .ok q)
    (htype : c.callType = d.callType) (hvm : p.targetVm = q.targetVm)
    (name : String) (args data : List UInt8) :
    Delivers name args data p q ↔ ¬ Trailing data ∧ c.Apart d p.targetVm := by
  obtain ⟨-, -, hcall, hencode⟩ := EvmWasmBridge.prepareCall_eq_ok hp
  obtain ⟨-, -, hcall', hencode'⟩ := EvmWasmBridge.prepareCall_eq_ok hq
  rw [← hvm] at hencode'
  have htold := EvmWasmBridge.told_iff hencode hencode' htype
  constructor
  · intro h
    have hpair := h.told
    rw [hcall, hcall'] at hpair
    exact ⟨(onlyEncoded_iff data).mp h.onlyEncoded, htold.mp hpair⟩
  · intro h
    refine ⟨fun hfits => decode_eq_ok_iff.mpr ⟨hfits, [], (List.append_nil _).symm⟩, ?_,
      (onlyEncoded_iff data).mpr h.1, ?_⟩
    · obtain ⟨r, hr, -⟩ := decode_spec data
      rw [hr]
      exact Option.some_ne_none r
    · rw [hcall, hcall']
      exact htold.mpr h.2

def pairBridge : EvmWasmBridge :=
  (EvmWasmBridge.new.registerEvmContract ⟨Vector.replicate 20 2⟩).registerWasmContract
    ⟨Vector.replicate 20 1⟩

def transferCall (args : List UInt8) : CrossVmCall :=
  ⟨.evmToWasm, ⟨Vector.replicate 20 2⟩, ⟨Vector.replicate 20 1⟩, [], some "transfer", args, 0,
    100000, 0⟩

def transferPrepared (args : List UInt8) : PreparedCall :=
  ⟨transferCall args, .wasm, encodeWasmCall "transfer" args⟩

theorem transferCall_accepted (args : List UInt8) :
    (pairBridge.prepareCall (transferCall args)).1 = .ok (transferPrepared args) := rfl

theorem transferCall_apart (args args' : List UInt8) :
    (transferCall args).Apart (transferCall args') .wasm := by
  show CrossVmCall.NamesApart _ _
  intro name name' hname hname' _ _
  rw [← Option.some.inj hname, ← Option.some.inj hname']

theorem delivers_iff_transfer :
    Delivers "transfer" [1, 2, 3, 4] (encodeWasmCall "transfer" [1, 2, 3, 4])
      (transferPrepared [1, 2, 3, 4]) (transferPrepared [5]) :=
  (delivers_iff (transferCall_accepted [1, 2, 3, 4]) (transferCall_accepted [5]) rfl rfl
    _ _ _).mpr ⟨not_trailing_encode ⟨by decide, by decide⟩, transferCall_apart _ _⟩

/-- A call of the EVM contract, with 32 zeros and one more byte as arguments. -/
def lastByteCall (last : UInt8) : CrossVmCall :=
  ⟨.wasmToEvm, ⟨Vector.replicate 20 1⟩, ⟨Vector.replicate 20 2⟩, [1, 2, 3, 4], none,
    List.replicate 32 0 ++ [last], 0, 100000, 0⟩

/-- **The 33rd byte of the arguments is lost.** -/
theorem lastByte_lost :
    ¬ ∀ (b b' : EvmWasmBridge) (c d : CrossVmCall) (p q : PreparedCall),
      (b.prepareCall c).1 = .ok p → (b'.prepareCall d).1 = .ok q → c.callType = d.callType →
        c.«to» = d.«to» → p.targetVm = q.targetVm →
          ∀ name args data, Delivers name args data p q := by
  intro h
  have hdelivers := h pairBridge pairBridge (lastByteCall 1) (lastByteCall 2)
    ⟨_, .evm, [1, 2, 3, 4] ++ List.replicate 32 0⟩ ⟨_, .evm, [1, 2, 3, 4] ++ List.replicate 32 0⟩
    rfl rfl rfl rfl rfl "" [] []
  have hargs : (lastByteCall 1).args = (lastByteCall 2).args := (hdelivers.told rfl).2
  exact absurd hargs (by decide)

end Pyrax.Wasm
