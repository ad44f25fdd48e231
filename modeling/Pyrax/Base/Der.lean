import Mathlib.Data.List.Basic
import Mathlib.Data.UInt

/-!
# The distinguished encoding of two integers

A value is written as a tag, one byte with the length of its contents, and the contents.
That is the short form, for contents of less than 128 bytes, and all that two integers of
32 bytes need.

Since the length stands in front, a value tells where it ends. In particular none is
another value less its last byte (`signature_ne_dropLast`).
-/

namespace Pyrax.Base.Der

def value (tag : UInt8) (contents : List UInt8) : List UInt8 :=
  tag :: UInt8.ofNat contents.length :: contents

/-- The contents of a natural number given by its big-endian bytes: no leading zeros, but
one where the first bit would be read as a sign. -/
def magnitude (bytes : List UInt8) : List UInt8 :=
  match bytes.dropWhile (· == 0) with
  | [] => [0]
  | b :: rest => if b < 0x80 then b :: rest else 0 :: b :: rest

def integer (bytes : List UInt8) : List UInt8 := value 0x02 (magnitude bytes)

/-- The sequence of two integers. -/
def signature (r s : List UInt8) : List UInt8 := value 0x30 (integer r ++ integer s)

variable {tag tag' : UInt8} {contents contents' : List UInt8}

theorem value_length (tag : UInt8) (contents : List UInt8) :
    (value tag contents).length = contents.length + 2 := rfl

theorem magnitude_length_le (bytes : List UInt8) :
    (magnitude bytes).length ≤ bytes.length + 1 := by
  have hdrop : (bytes.dropWhile (· == 0)).length ≤ bytes.length :=
    (List.dropWhile_suffix _).length_le
  rw [magnitude]
  split
  · exact Nat.succ_le_succ (Nat.zero_le _)
  · next b rest heq =>
    rw [heq, List.length_cons] at hdrop
    split
    · rw [List.length_cons]
      omega
    · rw [List.length_cons, List.length_cons]
      omega

theorem signature_length_le (r s : List UInt8) :
    (signature r s).length ≤ r.length + s.length + 8 := by
  have hr := magnitude_length_le r
  have hs := magnitude_length_le s
  rw [signature, value_length, List.length_append, integer, integer, value_length, value_length]
  omega

/-- The second byte tells the length. -/
theorem value_length_eq (h : contents.length < 256) :
    (value tag contents).length = ((value tag contents).getD 1 0).toNat + 2 := by
  show contents.length + 2 = (UInt8.ofNat contents.length).toNat + 2
  rw [UInt8.toNat_ofNat_of_lt' h]

/-- A value less a byte is no value. -/
theorem value_ne_dropLast (h : contents.length < 256) (h' : contents'.length < 256)
    (hne : contents' ≠ []) : value tag contents ≠ (value tag' contents').dropLast := by
  intro heq
  have hsecond : (value tag' contents').dropLast.getD 1 0 = (value tag' contents').getD 1 0 := by
    obtain ⟨b, rest, rfl⟩ := List.exists_cons_of_ne_nil hne
    rfl
  have hlength := congrArg List.length heq
  rw [List.length_dropLast, value_length_eq h, heq, hsecond, ← value_length_eq h',
    value_length] at hlength
  omega

theorem signature_ne_dropLast {r s r' s' : List UInt8} (h : (signature r s).length < 256)
    (h' : (signature r' s').length < 256) : signature r s ≠ (signature r' s').dropLast := by
  rw [signature, value_length] at h h'
  exact value_ne_dropLast (by omega) (by omega) (List.cons_ne_nil _ _)

end Pyrax.Base.Der
