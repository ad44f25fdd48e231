import Mathlib.Data.List.Basic

/-!
# Hexadecimal text

Lower-case encoding and case-insensitive decoding of byte strings, as the
`hex` crate does it, and the removal of a leading `0x`. Text is handled as the
list of its characters; `encodeHex` and `decodeHex` convert at the edges.
-/

namespace Pyrax.Base.Hex

/-- The digit of a nibble. -/
def digit (n : Nat) : Char := "0123456789abcdef".toList.getD n '0'

/-- The nibble of a digit, in either case. -/
def nibble (c : Char) : Option Nat :=
  if '0' ≤ c ∧ c ≤ '9' then some (c.toNat - '0'.toNat)
  else if 'a' ≤ c ∧ c ≤ 'f' then some (c.toNat - 'a'.toNat + 10)
  else if 'A' ≤ c ∧ c ≤ 'F' then some (c.toNat - 'A'.toNat + 10)
  else none

/-- Two digits a byte, high nibble first. -/
def encodeChars : List UInt8 → List Char
  | [] => []
  | b :: bs => digit (b.toNat / 16) :: digit (b.toNat % 16) :: encodeChars bs

/-- Inverse of `encodeChars`; an odd length or a foreign character fails. -/
def decodeChars : List Char → Option (List UInt8)
  | [] => some []
  | [_] => none
  | c :: d :: rest => do
    let hi ← nibble c
    let lo ← nibble d
    let bs ← decodeChars rest
    pure (UInt8.ofNat (16 * hi + lo) :: bs)

def encodeHex (bs : List UInt8) : String := String.ofList (encodeChars bs)

def decodeHex (s : String) : Option (List UInt8) := decodeChars s.toList

/-- One leading `0x` is dropped (`strip_prefix("0x").unwrap_or(..)`). -/
def strip0x (s : String) : String :=
  match s.toList with
  | '0' :: 'x' :: rest => String.ofList rest
  | _ => s

/-- All leading `0x` are dropped (`trim_start_matches("0x")`). -/
def trim0xChars : List Char → List Char
  | '0' :: 'x' :: rest => trim0xChars rest
  | cs => cs

def trim0x (s : String) : String := String.ofList (trim0xChars s.toList)

theorem nibble_digit : ∀ n : Fin 16, nibble (digit n.val) = some n.val := by decide

theorem decodeChars_encodeChars : ∀ bs : List UInt8, decodeChars (encodeChars bs) = some bs
  | [] => rfl
  | b :: bs => by
    have hb : b.toNat < 256 := b.toNat_lt
    have hhi := nibble_digit ⟨b.toNat / 16, by omega⟩
    have hlo := nibble_digit ⟨b.toNat % 16, by omega⟩
    have hval : UInt8.ofNat (16 * (b.toNat / 16) + b.toNat % 16) = b := by
      rw [Nat.div_add_mod, UInt8.ofNat_toNat]
    simp only at hhi hlo
    rw [encodeChars, decodeChars, hhi, hlo, decodeChars_encodeChars bs]
    show some (UInt8.ofNat (16 * (b.toNat / 16) + b.toNat % 16) :: bs) = _
    rw [hval]

/-- Reading back what was written. -/
theorem decodeHex_encodeHex (bs : List UInt8) : decodeHex (encodeHex bs) = some bs := by
  rw [decodeHex, encodeHex, String.toList_ofList, decodeChars_encodeChars]

theorem toList_0x (bs : List UInt8) :
    ("0x" ++ encodeHex bs).toList = '0' :: 'x' :: encodeChars bs := by
  simp [encodeHex]

/-- The text `0x…` is read back by a reader that strips one prefix. -/
theorem decodeHex_strip0x (bs : List UInt8) :
    decodeHex (strip0x ("0x" ++ encodeHex bs)) = some bs := by
  rw [strip0x, toList_0x]
  exact decodeHex_encodeHex bs

/-! ## Numbers -/

/-- The number a list of digits stands for; a foreign character counts as `0`. -/
def ofDigits (cs : List Char) : Nat := cs.foldl (fun n c => 16 * n + (nibble c).getD 0) 0

theorem nibble_digitChar : ∀ n : Fin 16, nibble n.val.digitChar = some n.val := by decide

theorem ofDigits_snoc (cs : List Char) (c : Char) :
    ofDigits (cs ++ [c]) = 16 * ofDigits cs + (nibble c).getD 0 := by
  rw [ofDigits, List.foldl_append]
  rfl

theorem ofDigits_toDigits (n : Nat) : ofDigits (Nat.toDigits 16 n) = n := by
  induction n using Nat.strongRecOn with
  | ind n ih =>
    rcases Nat.lt_or_ge n 16 with hn | hn
    · rw [Nat.toDigits_of_lt_base hn]
      show 16 * 0 + (nibble n.digitChar).getD 0 = n
      rw [nibble_digitChar ⟨n, hn⟩]
      simp
    · rw [Nat.toDigits_of_base_le (by decide) hn, ofDigits_snoc, ih (n / 16) (by omega),
        nibble_digitChar ⟨n % 16, Nat.mod_lt n (by decide)⟩]
      show 16 * (n / 16) + n % 16 = n
      omega

theorem ofDigits_replicate_append (k : Nat) (cs : List Char) :
    ofDigits (List.replicate k '0' ++ cs) = ofDigits cs := by
  rw [ofDigits, ofDigits, List.foldl_append]
  congr 1
  induction k with
  | zero => rfl
  | succ k ih =>
    rw [List.replicate_succ', List.foldl_append, ih]
    rfl

end Pyrax.Base.Hex
