import Mathlib.Data.List.GetD
import Pyrax.Base.Decoding
import Pyrax.Evm.Arithmetic
import Pyrax.Evm.Turns

/-!
# Where jumps land

The instructions of a code are those of its linear decoding from the first byte, in which a
`PUSH` takes its immediate bytes with it (`StartsAt`). A run that jumps to instructions only
executes instructions only: what stands behind one is another (`startsAt_of_turn`).

`JUMP` and `JUMPI` look at the low 64 bits of a destination and at the byte they point to, not
at the decoding and not at the other limbs, so a jump may land inside the data of a `PUSH`, or
at the remainder of a destination from `2 ^ 64` on (`jumps_astray`). Runs in which none does
are those that keep to the instructions (`jumps_land_iff`).
-/

namespace Pyrax.Evm

open Base Word Machine

/-- The bytes an opcode takes, its own and its immediate data. -/
def Opcode.size : Opcode → Nat
  | push n => n + 1
  | _ => 1

theorem Opcode.size_pos (op : Opcode) : 1 ≤ op.size := by
  unfold size
  split
  · exact Nat.le_add_left 1 _
  · exact Nat.le_refl 1

/-- An instruction of the linear decoding starts here. -/
def StartsAt (code : List UInt8) (i : Nat) : Prop :=
  (Decoding.starts (fun byte => (Opcode.decode byte).size) 0 code)[i]? = some true

instance (code : List UInt8) (i : Nat) : Decidable (StartsAt code i) :=
  inferInstanceAs (Decidable (_ = _))

/-- The whole word is the position of a `JUMPDEST` instruction. -/
def IsJumpdest (code : List UInt8) (dest : U256) : Prop :=
  ∃ d : UInt64, dest.toNat = d.toNat ∧ StartsAt code d.toNat ∧ code[d.toNat]? = some 0x5B

namespace EvmInterpreter

/-- The opcode takes a jump to this destination: a `JUMP`, or a `JUMPI` whose condition is not
zero. -/
def JumpsTo (vm : EvmInterpreter) (dest : U256) : Opcode → Prop
  | .jump => ∃ rest, vm.stack = dest :: rest
  | .jumpi => ∃ c rest, vm.stack = dest :: c :: rest ∧ c.isZero = false
  | _ => False

/-- What a run from a machine and a database is to keep to: it fetches instructions, and a
jump to anything but a `JUMPDEST` fails. -/
structure JumpsLand (start : EvmInterpreter × StateDB) : Prop where
  fetches : ∀ m, Reaches next start m → m.1.Fetches → StartsAt m.1.code m.1.pc
  fails : ∀ m, Reaches next start m → m.1.Fetches → ∀ dest,
    m.1.JumpsTo dest (Opcode.decode m.1.fetched) → ¬ IsJumpdest m.1.code dest →
    ∃ e, next m = .inr (m.2, .failed e)

/-- The jump about to be taken, if it is one that passes the test, is to an instruction and
less than `2 ^ 64`. -/
def JumpsStraight (vm : EvmInterpreter) : Prop :=
  ∀ dest, vm.JumpsTo dest (Opcode.decode vm.fetched) → Lands vm.code dest →
    dest.toNat < 2 ^ 64 ∧ StartsAt vm.code dest.lowU64.toNat

variable {vm : EvmInterpreter} {state : StateDB} {m m' start : EvmInterpreter × StateDB}
  {op : Opcode} {dest : U256}

/-- The counter goes on behind the instruction, or to where an opcode jumps. -/
theorem pcAfter_cases (vm : EvmInterpreter) (op : Opcode) :
    vm.pcAfter op + 1 = vm.pc + op.size ∨
    ∃ dest, vm.JumpsTo dest op ∧ vm.pcAfter op = dest.lowU64.toNat + 1 := by
  cases op with
  | push n => exact .inl (Nat.add_assoc ..)
  | jump =>
    rw [pcAfter]
    split
    · next dest rest hstack => exact .inr ⟨dest, ⟨rest, hstack⟩, rfl⟩
    · exact .inl rfl
  | jumpi =>
    rw [pcAfter]
    split
    · next dest c rest hstack =>
      split
      · exact .inl rfl
      · next hcond => exact .inr ⟨dest, ⟨c, rest, hstack, Bool.eq_false_iff.mpr hcond⟩, rfl⟩
    · exact .inl rfl
  | _ => exact .inl rfl

/-- A jump is the test of its destination, on the code of the machine. -/
theorem step_of_jumpsTo (state : StateDB) (h : vm.JumpsTo dest op) :
    ∃ vm₁ : EvmInterpreter, vm₁.code = vm.code ∧ vm.step state op = vm₁.jumpTo dest := by
  cases op with
  | jump =>
    obtain ⟨rest, hstack⟩ := h
    refine ⟨{ vm with stack := rest }, rfl, ?_⟩
    rw [step, pop, hstack]
    rfl
  | jumpi =>
    obtain ⟨c, rest, hstack, hcond⟩ := h
    refine ⟨{ vm with stack := rest }, rfl, ?_⟩
    rw [step, pop, hstack]
    show (if c.isZero then _ else jumpTo { vm with stack := rest } dest) = _
    rw [if_neg (Bool.eq_false_iff.mp hcond)]
  | _ => exact h.elim

theorem lands_of_turn (h : Turn next m m')
    (hjump : m.1.JumpsTo dest (Opcode.decode m.1.fetched)) : Lands m.1.code dest := by
  have hcharged : m.1.charged.JumpsTo dest (Opcode.decode m.1.fetched) := hjump
  obtain ⟨vm₁, hcode, hstep⟩ := step_of_jumpsTo m.2 hcharged
  have hlands := (jumpTo_eq_ok_iff.mp (hstep.symm.trans (step_of_turn h))).1
  rwa [hcode] at hlands

/-- A jump that does not pass the test ends the run. -/
theorem next_of_not_lands (hfetch : m.1.Fetches)
    (hjump : m.1.JumpsTo dest (Opcode.decode m.1.fetched)) (h : ¬ Lands m.1.code dest) :
    ∃ e, next m = .inr (m.2, .failed e) := by
  cases hnext : next m with
  | inl m' => exact absurd (lands_of_turn hnext hjump) h
  | inr out =>
    obtain ⟨hnot, -⟩ | ⟨hgas, -⟩ | ⟨e, -, -, rfl⟩ := end_cases hnext
    · exact absurd hfetch.1 hnot
    · exact absurd hfetch.2 (UInt64.not_lt.mpr hgas.2)
    · exact ⟨e, rfl⟩

/-- One that passes it does not. -/
theorem lands_of_not_fails (hfetch : m.1.Fetches)
    (hjump : m.1.JumpsTo dest (Opcode.decode m.1.fetched)) (h : Lands m.1.code dest) :
    ¬ ∃ e, next m = .inr (m.2, .failed e) := by
  have hcharged : m.1.charged.JumpsTo dest (Opcode.decode m.1.fetched) := hjump
  obtain ⟨vm₁, hcode, hstep⟩ := step_of_jumpsTo m.2 hcharged
  have hok := hstep.trans (jumpTo_eq_ok_iff.mpr ⟨by rw [hcode]; exact h, rfl⟩)
  rintro ⟨e, hend⟩
  have hturn : Turn next m _ := turn_iff.mpr ⟨hfetch, bind_eq_ok.mpr ⟨_, hok, rfl⟩⟩
  exact nomatch hend.symm.trans hturn

/-- **One turn**: from an instruction to an instruction, if its jump is straight. -/
theorem startsAt_of_turn (h : Turn next m m') (hstraight : m.1.JumpsStraight)
    (hstart : StartsAt m.1.code m.1.pc) (hlt : m'.1.pc < m'.1.code.length) :
    StartsAt m'.1.code m'.1.pc := by
  have htouches := touches_of_turn h
  have hpc : m.1.pc < m.1.code.length := (turn_iff.mp h).1.1.2
  rw [htouches.code] at hlt ⊢
  obtain hbehind | ⟨dest, hjump, hdest⟩ :=
    m.1.charged.pcAfter_cases (Opcode.decode m.1.fetched)
  · have hcounter : m'.1.pc = m.1.pc + (Opcode.decode m.1.fetched).size := by
      have hcharged : m.1.charged.pc = m.1.pc + 1 := rfl
      have hpcAfter := htouches.pc
      omega
    have hbyte : m.1.code[m.1.pc]? = some m.1.fetched := by
      rw [List.getElem?_eq_getElem hpc, fetched, List.getD_eq_getElem _ _ hpc]
    rw [hcounter] at hlt ⊢
    exact Decoding.starts_next (Opcode.size_pos _) hstart hbyte hlt
  · have hlands := lands_of_turn h hjump
    have hbyte : m.1.code[dest.lowU64.toNat]? = some 0x5B := by
      rw [List.getElem?_eq_getElem hlands.1, ← List.getD_eq_getElem _ 0 hlands.1, hlands.2]
    rw [htouches.pc, hdest] at hlt ⊢
    have hstart := (hstraight dest hjump hlands).2
    have hnext : StartsAt m.1.code (dest.lowU64.toNat + (Opcode.decode 0x5B).size) :=
      Decoding.starts_next (Opcode.size_pos _) hstart hbyte hlt
    exact hnext

/-- A run whose jumps are straight fetches instructions. -/
theorem startsAt_of_reaches (hpc : start.1.pc = 0) (hreach : Reaches next start m)
    (hstraight : ∀ m, Reaches next start m → m.1.Fetches → m.1.JumpsStraight) :
    m.1.pc < m.1.code.length → StartsAt m.1.code m.1.pc := by
  refine hreach.invariant
    (P := fun m => m.1.pc < m.1.code.length → StartsAt m.1.code m.1.pc) ?_ ?_
  · rw [hpc]
    exact fun hlt => Decoding.starts_zero hlt
  · intro m m' hreach ih hturn
    have hfetch := (turn_iff.mp hturn).1
    exact startsAt_of_turn hturn (hstraight m hreach hfetch) (ih hfetch.1.2)

/-- A destination that passes the test is a `JUMPDEST` exactly where it is straight. -/
theorem isJumpdest_iff {code : List UInt8} (h : Lands code dest) : IsJumpdest code dest ↔
    dest.toNat < 2 ^ 64 ∧ StartsAt code dest.lowU64.toNat := by
  have hlow := dest.toNat_lowU64
  constructor
  · rintro ⟨d, hdest, hstart, -⟩
    have hd := d.toNat_lt
    have hsame : dest.lowU64.toNat = d.toNat := by omega
    rw [hsame]
    exact ⟨by omega, hstart⟩
  · rintro ⟨hsmall, hstart⟩
    refine ⟨dest.lowU64, by omega, hstart, ?_⟩
    rw [List.getElem?_eq_getElem h.1, ← List.getD_eq_getElem _ 0 h.1, h.2]

/-- **Every run** of every code on every input and database executes instructions only, and
fails at each jump to anything but a `JUMPDEST`, exactly where each jump of it that passes the
test has a destination below `2 ^ 64` at which an instruction starts. -/
theorem jumps_land_iff (code input : List UInt8) (caller address : Address) (value : U256)
    (gasLimit : UInt64) (ctx : TransactionContext) (state : StateDB) :
    JumpsLand (new code input caller address value gasLimit ctx, state) ↔
      ∀ m, Reaches next (new code input caller address value gasLimit ctx, state) m →
        m.1.Fetches → m.1.JumpsStraight := by
  constructor
  · intro h m hreach hfetch dest hjump hlands
    refine (isJumpdest_iff hlands).mp (by_contra fun hnot => ?_)
    exact lands_of_not_fails hfetch hjump hlands (h.fails m hreach hfetch dest hjump hnot)
  · intro h
    refine ⟨fun m hreach hfetch => ?_, fun m hreach hfetch dest hjump hnot => ?_⟩
    · exact startsAt_of_reaches rfl hreach h hfetch.1.2
    · refine next_of_not_lands hfetch hjump fun hlands => hnot ?_
      exact (isJumpdest_iff hlands).mpr (h m hreach hfetch dest hjump hlands)

/-- A call of a code with gas enough. -/
def running (code : List UInt8) : EvmInterpreter :=
  new code [] (Vector.replicate 20 0) (Vector.replicate 20 0) U256.ZERO 100 .default

/-- `PUSH2 0x5B00; PUSH1 1; JUMP`: to the first of the two pushed bytes. -/
def intoData : EvmInterpreter := running [0x61, 0x5B, 0x00, 0x60, 0x01, 0x56]

/-- `JUMPDEST; PUSH9 2^64; JUMP`: to the remainder, which is 0. -/
def pastWord : EvmInterpreter :=
  running [0x5B, 0x68, 0x01, 0x00, 0x00, 0x00, 0x00, 0x00, 0x00, 0x00, 0x00, 0x56]

/-- One run executes a byte of pushed data, the other jumps where no code is and goes on. -/
theorem jumps_astray : ¬ JumpsLand (intoData, .new) ∧ ¬ JumpsLand (pastWord, .new) := by
  constructor
  · have hafter : (after next 3 (intoData, .new)).map
        (fun m => decide (m.1.Fetches ∧ ¬ StartsAt m.1.code m.1.pc)) = some true := by
      decide +kernel
    obtain ⟨m, hm, hdata⟩ := Option.map_eq_some_iff.mp hafter
    obtain ⟨hfetch, hnot⟩ := of_decide_eq_true hdata
    exact fun h => hnot (h.fetches m (reaches_of_after hm) hfetch)
  · have hafter : (after next 2 (pastWord, .new)).map
        (fun m => decide (m.1.Fetches ∧ m.1.fetched = 0x56 ∧ m.1.stack = [⟨#v[0, 1, 0, 0]⟩] ∧
          m.1.code = pastWord.code)) = some true := by
      decide +kernel
    obtain ⟨m, hm, hjump⟩ := Option.map_eq_some_iff.mp hafter
    obtain ⟨hfetch, hfetched, hstack, hcode⟩ := of_decide_eq_true hjump
    have hjumpsTo : m.1.JumpsTo ⟨#v[0, 1, 0, 0]⟩ (Opcode.decode m.1.fetched) := by
      rw [hfetched]
      exact ⟨[], hstack⟩
    have hlands : Lands m.1.code ⟨#v[0, 1, 0, 0]⟩ := by
      rw [hcode]
      exact ⟨by decide, by decide⟩
    intro h
    refine lands_of_not_fails hfetch hjumpsTo hlands
      (h.fails m (reaches_of_after hm) hfetch _ hjumpsTo fun hdest => ?_)
    exact absurd ((isJumpdest_iff hlands).mp hdest).1 (by decide +kernel)

end EvmInterpreter

end Pyrax.Evm
