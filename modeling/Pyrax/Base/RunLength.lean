import Mathlib.Data.List.Basic

/-!
# Run lengths behind an escape byte

A byte string is written with long runs replaced by the escape byte, their length and the
byte they repeat. A lone escape byte is written as a run of one, so that an escape never
stands for itself, and every other byte stands for itself. The reader takes an escape for
a run only where both bytes after it are there; the writer always puts them there, so what
it wrote is read back whatever it was (`decodeRuns_encodeRuns`). The escape byte, the
length from which a run is replaced and the longest one are parameters.
-/

namespace Pyrax.Base

variable (esc short long : UInt8)

/-- The loop that counts a run, up to the longest: `count` of the byte are there already. -/
def extendRun (byte count : UInt8) : List UInt8 → UInt8
  | [] => count
  | b :: rest => if b = byte ∧ count < long then extendRun byte (count + 1) rest else count

/-- The writer, with the length of its input for fuel. -/
def encodeRuns : Nat → List UInt8 → List UInt8
  | 0, _ => []
  | _ + 1, [] => []
  | fuel + 1, byte :: rest =>
    let count := extendRun long byte 1 rest
    if short < count then
      esc :: count :: byte :: encodeRuns fuel (rest.drop (count.toNat - 1))
    else if byte = esc then esc :: 1 :: esc :: encodeRuns fuel rest
    else byte :: encodeRuns fuel rest

/-- The reader. -/
def decodeRuns : List UInt8 → List UInt8
  | [] => []
  | [b] => [b]
  | [b, c] => [b, c]
  | b :: c :: d :: rest =>
    if b = esc then List.replicate c.toNat d ++ decodeRuns rest
    else b :: decodeRuns (c :: d :: rest)

variable {esc short long : UInt8}

theorem decodeRuns_run (count byte : UInt8) (rest : List UInt8) :
    decodeRuns esc (esc :: count :: byte :: rest)
      = List.replicate count.toNat byte ++ decodeRuns esc rest := by
  rw [decodeRuns, if_pos rfl]

theorem decodeRuns_literal {byte : UInt8} (h : byte ≠ esc) (rest : List UInt8) :
    decodeRuns esc (byte :: rest) = byte :: decodeRuns esc rest := by
  cases rest with
  | nil => rfl
  | cons c rest =>
    cases rest with
    | nil => rfl
    | cons d rest => rw [decodeRuns, if_neg h]

/-- What is counted is there: the count grows by copies of the byte and no others. -/
theorem extendRun_spec (byte : UInt8) : ∀ (rest : List UInt8) (count : UInt8),
    ∃ k, (extendRun long byte count rest).toNat = count.toNat + k ∧
      rest = List.replicate k byte ++ rest.drop k
  | [], count => ⟨0, rfl, rfl⟩
  | b :: rest, count => by
    rw [extendRun]
    split
    · next h =>
      obtain ⟨rfl, hlt⟩ := h
      -- below the longest run there is room for one more
      have hnat := UInt8.lt_iff_toNat_lt.mp hlt
      have hmax : long.toNat < 256 := long.toNat_lt
      have hsucc : (count + 1).toNat = count.toNat + 1 := by
        rw [UInt8.toNat_add]
        exact Nat.mod_eq_of_lt (by show count.toNat + 1 < 256; omega)
      obtain ⟨k, hk, hrest⟩ := extendRun_spec b rest (count + 1)
      refine ⟨k + 1, by omega, ?_⟩
      rw [List.replicate_succ, List.cons_append, List.drop_succ_cons, ← hrest]
    · exact ⟨0, rfl, rfl⟩

/-- **Round trip.** -/
theorem decodeRuns_encodeRuns : ∀ (fuel : Nat) (data : List UInt8), data.length ≤ fuel →
    decodeRuns esc (encodeRuns esc short long fuel data) = data
  | 0, data, h => by
    rw [List.length_eq_zero_iff.mp (Nat.le_zero.mp h)]
    rfl
  | fuel + 1, [], _ => rfl
  | fuel + 1, byte :: rest, h => by
    have hrest : rest.length ≤ fuel := Nat.le_of_succ_le_succ h
    rw [encodeRuns]
    split
    · -- a run: the byte and what was counted behind it
      obtain ⟨k, hk, hsplit⟩ :
          ∃ k, (extendRun long byte 1 rest).toNat = (1 : UInt8).toNat + k ∧
            rest = List.replicate k byte ++ rest.drop k := extendRun_spec byte rest 1
      have hone : (1 : UInt8).toNat = 1 := rfl
      have hcount : (extendRun long byte 1 rest).toNat - 1 = k := by omega
      have hdrop : (rest.drop k).length ≤ fuel :=
        Nat.le_trans (by rw [List.length_drop]; omega) hrest
      rw [decodeRuns_run, hcount, decodeRuns_encodeRuns fuel _ hdrop, hk, hone, Nat.add_comm,
        List.replicate_succ, List.cons_append, ← hsplit]
    · split
      · next hesc =>
        rw [decodeRuns_run, decodeRuns_encodeRuns fuel rest hrest, hesc]
        rfl
      · next hesc => rw [decodeRuns_literal hesc, decodeRuns_encodeRuns fuel rest hrest]

end Pyrax.Base
