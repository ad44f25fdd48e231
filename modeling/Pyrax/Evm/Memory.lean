import Pyrax.Base.WordStack
import Pyrax.Evm.Arithmetic
import Pyrax.Evm.Indexing

/-!
# The memory byte by byte

The memory of the interpreter as bytes without end, zero beyond its length (`bytesOf`).
Growing it changes none of them (`bytesOf_expandMemory`), and at an offset where nothing
wraps and the memory reaches, `MSTORE` writes and `MLOAD` reads a word as `Base.WordStack`
does. So does a `PUSH`, off the code (`word_pushWord`).
-/

namespace Pyrax.Evm

open Base Word WordStack

namespace U256

/-- The word as one of 32 bytes. -/
def word (a : U256) : BitVec (8 * 32) := BitVec.ofNat (8 * 32) a.toNat

@[simp] theorem toNat_word (a : U256) : a.word.toNat = a.toNat := by
  rw [word, BitVec.toNat_ofNat]
  exact Nat.mod_eq_of_lt a.toNat_lt

theorem word_eq_iff {a : U256} {w : BitVec (8 * 32)} : a.word = w ↔ a.toNat = w.toNat := by
  rw [← BitVec.toNat_inj, toNat_word]

theorem word_inj {a b : U256} : a.word = b.word ↔ a = b := by
  rw [word_eq_iff, toNat_word]
  exact ⟨toNat_inj, congrArg toNat⟩

theorem toList_toBeBytes_eq (a : U256) : a.toBeBytes.toList = beBytes 32 a.toNat := by
  refine beNat_inj (by rw [Vector.length_toList, beBytes_length]) ?_
  rw [beNat_toBeBytes, beNat_beBytes]
  exact (Nat.mod_eq_of_lt a.toNat_lt).symm

theorem word_fromBeBytes (bytes : B256) :
    (fromBeBytes bytes).word = BitVec.ofNat (8 * 32) (beNat bytes.toList) := by
  rw [word, toNat_fromBeBytes]

end U256

namespace EvmInterpreter

/-- The memory without end. -/
def bytesOf (memory : List UInt8) : Nat → UInt8 := fun i => memory.getD i 0

variable {vm : EvmInterpreter} {memory : List UInt8} {offset size : UInt64}

theorem bytesOf_padTo {n : Nat} (h : memory.length ≤ n) :
    bytesOf (padTo n memory) = bytesOf memory := by
  funext i
  unfold bytesOf
  by_cases hi : i < n
  · have hlt : i < (padTo n memory).length := by rwa [length_padTo]
    rw [List.getD_eq_getElem _ _ hlt, getElem_padTo, List.getD_eq_getElem?_getD]
  · rw [List.getD_eq_default _ _ (by rw [length_padTo]; omega),
      List.getD_eq_default _ _ (by omega)]

/-- Whole words hold what is asked for. -/
theorem le_words (h : size.toNat + 31 < 2 ^ 64) :
    size.toNat ≤ ((size + 31) / 32 * 32).toNat := by
  have hsum : (size + 31).toNat = size.toNat + 31 := toNat_add_of_lt h
  have hdiv : ((size + 31) / 32).toNat = (size.toNat + 31) / 32 := by
    rw [UInt64.toNat_div, hsum]
    rfl
  have hmul : ((size + 31) / 32 * 32).toNat = (size.toNat + 31) / 32 * 32 := by
    rw [UInt64.toNat_mul, hdiv]
    exact Nat.mod_eq_of_lt (by show _ * 32 < _; omega)
  omega

theorem bytesOf_expandMemory (h : size.toNat + 31 < 2 ^ 64) :
    bytesOf (vm.expandMemory size).memory = bytesOf vm.memory := by
  unfold expandMemory
  split
  · next hlt =>
    have hle := le_words h
    exact bytesOf_padTo (by omega)
  · rfl

theorem le_length_expandMemory (h : size.toNat + 31 < 2 ^ 64) :
    size.toNat ≤ (vm.expandMemory size).memory.length := by
  unfold expandMemory
  split
  · exact (le_words h).trans (length_padTo _ _).ge
  · next hle => exact Nat.le_of_not_lt hle

theorem toNat_offset_add (h : offset.toNat + 32 < 2 ^ 64) {i : Nat} (hi : i < 32) :
    (offset + UInt64.ofNat i).toNat = offset.toNat + i := by
  have hi' : (UInt64.ofNat i).toNat = i :=
    UInt64.toNat_ofNat_of_lt' (hi.trans (by decide))
  rw [toNat_add_of_lt (by omega), hi']

/-- `MSTORE` within the memory. -/
theorem bytesOf_writeMemory (h : offset.toNat + 32 < 2 ^ 64)
    (hlength : offset.toNat + 32 ≤ memory.length) (v : U256) :
    bytesOf (writeMemory memory offset v) = writeWord (bytesOf memory) offset.toNat v.word := by
  have hfold : writeMemory memory offset v = (List.range 32).foldl (fun memory i =>
      memory.set (offset.toNat + i) (v.toBeBytes.toList.getD i 0)) memory := by
    refine List.foldl_ext _ _ _ fun memory i hi => ?_
    rw [toNat_offset_add h (List.mem_range.mp hi)]
  funext i
  rw [hfold, bytesOf, List.getD_eq_getElem?_getD, getElem?_foldl_set, writeWord, U256.toNat_word,
    ← U256.toList_toBeBytes_eq]
  -- the bytes are not looked at, or they would be computed
  generalize v.toBeBytes.toList = bytes
  by_cases hi : offset.toNat ≤ i ∧ i < offset.toNat + 32
  · rw [if_pos ⟨by omega, hi⟩, if_pos hi, Option.getD_some]
  · rw [if_neg fun hand => hi hand.2, if_neg hi, bytesOf, List.getD_eq_getElem?_getD]

/-- `MLOAD` at an offset that does not wrap. -/
theorem word_readMemory (h : offset.toNat + 32 < 2 ^ 64) :
    (readMemory memory offset).word = readWord (bytesOf memory) offset.toNat := by
  rw [readMemory, U256.word_fromBeBytes, readWord]
  refine congrArg (fun bytes => BitVec.ofNat (8 * 32) (beNat bytes)) ?_
  refine List.ext_getElem (by simp) fun i h₁ h₂ => ?_
  have hi : i < 32 := by rwa [Vector.length_toList] at h₁
  rw [List.getElem_map, List.getElem_range, Vector.getElem_toList, Vector.getElem_ofFn,
    toNat_offset_add h hi]
  rfl

/-- The bytes behind an opcode as a number, with zeros for those that are missing. -/
def immediate (code : List UInt8) (pc n : Nat) : BitVec (8 * 32) :=
  BitVec.ofNat (8 * 32) (beNat ((List.range n).map fun i => (code[pc + i]?).getD 0))

theorem beNat_zeros (n : Nat) (bytes : List UInt8) :
    beNat (List.replicate n 0 ++ bytes) = beNat bytes := by
  induction n with
  | zero => rfl
  | succ n ih =>
    rw [List.replicate_succ, List.cons_append, beNat, ih]
    exact (congrArg (· + _) (Nat.zero_mul _)).trans (Nat.zero_add _)

/-- `PUSH`, also at the end of the code. -/
theorem word_pushWord {n : Nat} (code : List UInt8) (pc : Nat) (h : n ≤ 32) :
    (pushWord code pc n).word = immediate code pc n := by
  have hlength : (List.replicate (32 - n) 0 ++ padTo n (code.drop pc)).length = 32 := by
    rw [List.length_append, List.length_replicate, length_padTo]
    omega
  have hbytes : padTo n (code.drop pc) = (List.range n).map fun i => (code[pc + i]?).getD 0 := by
    refine List.ext_getElem (by rw [length_padTo]; simp) fun i h₁ h₂ => ?_
    rw [getElem_padTo, List.getElem?_drop, List.getElem_map, List.getElem_range]
  rw [pushWord, U256.word_fromBeBytes, toList_arrayFromSlice hlength, beNat_zeros, hbytes,
    immediate]

end EvmInterpreter

end Pyrax.Evm
