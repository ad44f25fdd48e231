import Pyrax.Base.BigEndian

/-!
# Stack machines of words

The word and stack opcodes of a machine with words of `k` bytes: arithmetic is modulo the
range of a word, the memory has a byte at every number, and a push onto a stack at its limit
fails (`exec`, with nothing for a failure). Words are stored with their highest byte first,
and a word that was stored is the one that is loaded (`readWord_writeWord`).
-/

namespace Pyrax.Base.WordStack

variable {k : Nat}

/-- The stack has its top first. -/
@[ext] structure Machine (k : Nat) where
  stack : List (BitVec (8 * k))
  memory : Nat → UInt8

inductive Instr (k : Nat) where
  | add
  | mul
  | sub
  | eq
  | isZero
  | push (word : BitVec (8 * k))
  | drop
  | dup (n : Nat)
  | swap (n : Nat)
  | load
  | store

/-- The word of `k` bytes at an offset. -/
def readWord (memory : Nat → UInt8) (offset : Nat) : BitVec (8 * k) :=
  BitVec.ofNat (8 * k) (beNat ((List.range k).map fun i => memory (offset + i)))

/-- The memory with a word at an offset. -/
def writeWord (memory : Nat → UInt8) (offset : Nat) (word : BitVec (8 * k)) : Nat → UInt8 :=
  fun i => if offset ≤ i ∧ i < offset + k then (beBytes k word.toNat).getD (i - offset) 0
    else memory i

def truth (b : Bool) : BitVec (8 * k) := if b then 1 else 0

namespace Machine

def push (limit : Nat) (m : Machine k) (word : BitVec (8 * k)) : Option (Machine k) :=
  if m.stack.length < limit then some { m with stack := word :: m.stack } else none

/-- One operand off the stack, one result on it. -/
def unary (limit : Nat) (f : BitVec (8 * k) → BitVec (8 * k)) (m : Machine k) :
    Option (Machine k) :=
  match m.stack with
  | a :: rest => ({ m with stack := rest } : Machine k).push limit (f a)
  | [] => none

/-- Two operands off the stack, one result on it. -/
def binary (limit : Nat) (f : BitVec (8 * k) → BitVec (8 * k) → BitVec (8 * k)) (m : Machine k) :
    Option (Machine k) :=
  match m.stack with
  | a :: b :: rest => ({ m with stack := rest } : Machine k).push limit (f a b)
  | _ => none

/-- One opcode. -/
def exec (limit : Nat) (m : Machine k) : Instr k → Option (Machine k)
  | .add => m.binary limit fun a b => a + b
  | .mul => m.binary limit fun a b => a * b
  | .sub => m.binary limit fun a b => a - b
  | .eq => m.binary limit fun a b => truth (a = b)
  | .isZero => m.unary limit fun a => truth (a = 0)
  | .push word => m.push limit word
  | .drop =>
    match m.stack with
    | _ :: rest => some { m with stack := rest }
    | [] => none
  | .dup n =>
    match m.stack[n - 1]? with
    | some a => m.push limit a
    | none => none
  | .swap n =>
    match m.stack[0]?, m.stack[n]? with
    | some a, some b => some { m with stack := (m.stack.set 0 b).set n a }
    | _, _ => none
  | .load => m.unary limit fun offset => readWord m.memory offset.toNat
  | .store =>
    match m.stack with
    | offset :: word :: rest => some ⟨rest, writeWord m.memory offset.toNat word⟩
    | _ => none

end Machine

/-- The bytes of a word that is written are those of its number. -/
theorem map_writeWord (memory : Nat → UInt8) (offset : Nat) (word : BitVec (8 * k)) :
    (List.range k).map (fun i => writeWord memory offset word (offset + i))
      = beBytes k word.toNat := by
  refine List.ext_getElem (by simp) fun i h₁ h₂ => ?_
  rw [List.length_map, List.length_range] at h₁
  rw [List.getElem_map, List.getElem_range, writeWord, if_pos ⟨by omega, by omega⟩,
    Nat.add_sub_cancel_left, List.getD_eq_getElem?_getD, List.getElem?_eq_getElem h₂]
  rfl

/-- What is stored is what is loaded. -/
theorem readWord_writeWord (memory : Nat → UInt8) (offset : Nat) (word : BitVec (8 * k)) :
    readWord (writeWord memory offset word) offset = word := by
  have hrange : word.toNat < 256 ^ k := by
    have hlt := word.isLt
    rwa [Nat.pow_mul] at hlt
  rw [readWord, map_writeWord, beNat_beBytes, Nat.mod_eq_of_lt hrange, BitVec.ofNat_toNat,
    BitVec.setWidth_eq]

end Pyrax.Base.WordStack
