import Mathlib.Data.List.Basic

/-!
# Bits in bytes

Eight bits to a byte, the first one lowest, the last byte filled up with zeros. What is read
back has the bits that were packed at their places, and `false` behind them
(`unpack_pack`): it is as long as the bytes are, not as long as the bits were.
-/

namespace Pyrax.Base.BitPack

/-- The bits of one byte, set one after the other. -/
def packByte (bits : List Bool) : UInt8 :=
  bits.zipIdx.foldl (fun byte e => if e.1 then byte ||| (1 <<< UInt8.ofNat e.2) else byte) 0

def unpackByte (byte : UInt8) : List Bool :=
  (List.range 8).map fun i => (byte >>> UInt8.ofNat i) &&& 1 == 1

/-- The bits by eights. -/
def pack (bits : List Bool) : List UInt8 :=
  (List.range ((bits.length + 7) / 8)).map fun j => packByte ((bits.drop (8 * j)).take 8)

def unpack (bytes : List UInt8) : List Bool := bytes.flatMap unpackByte

@[simp] theorem length_unpackByte (byte : UInt8) : (unpackByte byte).length = 8 := by
  simp [unpackByte]

theorem length_pack (bits : List Bool) : (pack bits).length = (bits.length + 7) / 8 := by
  simp [pack]

theorem length_unpack (bytes : List UInt8) : (unpack bytes).length = 8 * bytes.length := by
  induction bytes with
  | nil => rfl
  | cons byte bytes ih =>
    rw [unpack, List.flatMap_cons, List.length_append, length_unpackByte, List.length_cons,
      show bytes.flatMap unpackByte = unpack bytes from rfl, ih]
    omega

/-- One bit of a byte. -/
theorem unpackByte_getElem? (byte : UInt8) {i : Nat} (hi : i < 8) :
    (unpackByte byte)[i]? = some (byte.toNat.testBit i) := by
  have hbit : ((byte >>> UInt8.ofNat i) &&& 1 == 1) = byte.toNat.testBit i := by
    have hshift : ((byte >>> UInt8.ofNat i) &&& 1).toNat = byte.toNat / 2 ^ i % 2 := by
      rw [UInt8.toNat_and, UInt8.toNat_shiftRight, UInt8.toNat_ofNat', Nat.shiftRight_eq_div_pow,
        Nat.mod_eq_of_lt (show i < 2 ^ 8 by omega), Nat.mod_eq_of_lt hi]
      exact Nat.and_one_is_mod _
    rw [Nat.testBit_eq_decide_div_mod_eq, ← hshift, Bool.eq_iff_iff, beq_iff_eq, decide_eq_true_iff,
      ← UInt8.toNat_inj]
    rfl
  rw [unpackByte, List.getElem?_map, List.getElem?_range hi, Option.map_some, hbit]

/-- A bit of the bytes stands in the byte of its eight. -/
theorem unpack_getElem? : ∀ (bytes : List UInt8) (i : Nat),
    (unpack bytes)[i]? = (bytes[i / 8]?).map fun byte => byte.toNat.testBit (i % 8)
  | [], _ => rfl
  | byte :: bytes, i => by
    rw [unpack, List.flatMap_cons]
    by_cases hi : i < 8
    · rw [List.getElem?_append_left (by rwa [length_unpackByte]), unpackByte_getElem? byte hi,
        Nat.div_eq_of_lt hi, Nat.mod_eq_of_lt hi]
      rfl
    · rw [List.getElem?_append_right (by rw [length_unpackByte]; omega), length_unpackByte,
        show bytes.flatMap unpackByte = unpack bytes from rfl, unpack_getElem? bytes (i - 8),
        show i / 8 = (i - 8) / 8 + 1 by omega, List.getElem?_cons_succ,
        show i % 8 = (i - 8) % 8 by omega]

/-- Setting one bit of a byte. -/
theorem testBit_set (byte : UInt8) {k : Nat} (hk : k < 8) (i : Nat) :
    (byte ||| (1 <<< UInt8.ofNat k)).toNat.testBit i = (byte.toNat.testBit i || decide (k = i)) := by
  have hone : ((1 : UInt8) <<< UInt8.ofNat k).toNat = 2 ^ k := by
    rw [UInt8.toNat_shiftLeft, UInt8.toNat_ofNat', Nat.mod_eq_of_lt (show k < 2 ^ 8 by omega),
      Nat.mod_eq_of_lt hk, Nat.shiftLeft_eq]
    have hlt : 2 ^ k ≤ 2 ^ 7 := Nat.pow_le_pow_right (by decide) (by omega)
    rw [show UInt8.toNat 1 = 1 from rfl, Nat.one_mul, Nat.mod_eq_of_lt (by omega)]
  rw [UInt8.toNat_or, Nat.testBit_or, hone, Nat.testBit_two_pow]

/-- The loop over the bits of one byte, from the `k`-th on. -/
theorem testBit_packFrom (i : Nat) : ∀ (bits : List Bool) (k : Nat) (byte : UInt8),
    k + bits.length ≤ 8 →
    ((bits.zipIdx k).foldl (fun byte e => if e.1 then byte ||| (1 <<< UInt8.ofNat e.2) else byte)
      byte).toNat.testBit i
        = (byte.toNat.testBit i || (decide (k ≤ i) && bits.getD (i - k) false))
  | [], k, byte, _ => by simp
  | bit :: bits, k, byte, hlen => by
    rw [List.length_cons] at hlen
    rw [List.zipIdx_cons, List.foldl_cons, testBit_packFrom i bits (k + 1) _ (by omega)]
    have hhere : (if bit then byte ||| (1 <<< UInt8.ofNat k) else byte).toNat.testBit i
        = (byte.toNat.testBit i || (bit && decide (k = i))) := by
      cases bit with
      | false => simp
      | true =>
        rw [if_pos rfl, testBit_set byte (by omega), Bool.true_and]
    rw [hhere, Bool.or_assoc]
    congr 1
    rcases Nat.lt_trichotomy k i with hlt | rfl | hgt
    · have hget : (bit :: bits).getD (i - k) false = bits.getD (i - (k + 1)) false := by
        rw [show i - k = i - (k + 1) + 1 by omega, List.getD_cons_succ]
      rw [hget, decide_eq_false (show ¬ k = i by omega), decide_eq_true (show k + 1 ≤ i by omega),
        decide_eq_true (show k ≤ i by omega), Bool.and_false, Bool.false_or]
    · rw [decide_eq_false (show ¬ k + 1 ≤ k by omega)]
      simp
    · rw [decide_eq_false (show ¬ k = i by omega), decide_eq_false (show ¬ k + 1 ≤ i by omega),
        decide_eq_false (show ¬ k ≤ i by omega), Bool.and_false, Bool.false_and, Bool.false_and]
      rfl

theorem testBit_packByte {bits : List Bool} (h : bits.length ≤ 8) (i : Nat) :
    (packByte bits).toNat.testBit i = bits.getD i false := by
  rw [packByte, testBit_packFrom i bits 0 0 (by omega)]
  simp

/-- **Read back.** The bits at their places, and zeros in the rest of the last byte. -/
theorem unpack_pack (bits : List Bool) {i : Nat} (hi : i < 8 * ((bits.length + 7) / 8)) :
    (unpack (pack bits))[i]? = some (bits.getD i false) := by
  rw [unpack_getElem?, pack, List.getElem?_map, List.getElem?_range (by omega), Option.map_some,
    Option.map_some, testBit_packByte (by rw [List.length_take]; omega),
    List.getD_eq_getElem?_getD, List.getElem?_take, if_pos (by omega), List.getElem?_drop,
    show 8 * (i / 8) + i % 8 = i by omega, ← List.getD_eq_getElem?_getD]

end Pyrax.Base.BitPack
