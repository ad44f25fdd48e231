import Pyrax.Evm.Memory

/-!
# Word and stack opcodes against the machine of words

The interpreter seen as a stack machine of words (`view`), and each opcode for words and the
stack next to the instruction it stands for (`instruction`): the two agree, failure included,
exactly where the stack that is left has room for what is pushed and a sum, a difference or a
product is one of a word (`follows_iff`). `ADD` and `SUB` saturate, `MUL` is zero where
`checked_mul` finds an overflow, and what is pushed onto a full stack is dropped
(`words_astray`).
-/

namespace Pyrax.Evm

open Base Word WordStack

namespace U256

variable {a b : U256}

/-- A sum that saturates is the one modulo the range of words where it does not. -/
theorem word_saturatingAdd_iff :
    (a.saturatingAdd b).word = a.word + b.word ↔ a.toNat + b.toNat < 2 ^ 256 := by
  have ha := a.toNat_lt
  have hb := b.toNat_lt
  rw [word_eq_iff, toNat_saturatingAdd, BitVec.toNat_add, toNat_word, toNat_word]
  omega

theorem word_saturatingSub_iff :
    (a.saturatingSub b).word = a.word - b.word ↔ b.toNat ≤ a.toNat := by
  have ha := a.toNat_lt
  have hb := b.toNat_lt
  have hsub : (a.saturatingSub b).toNat = a.toNat - b.toNat := by
    unfold saturatingSub
    cases hc : a.checkedSub b with
    | none =>
      have := checkedSub_eq_none_iff.mp hc
      rw [Option.getD_none, toNat_zero]
      omega
    | some c =>
      have := checkedSub_eq_some_iff.mp hc
      rw [Option.getD_some]
      omega
  rw [word_eq_iff, hsub, BitVec.toNat_sub, toNat_word, toNat_word]
  omega

/-- Nothing is lost that is missed, and the product is in range, or nothing but what is out of
range. -/
def Multiplies (a b : U256) : Prop :=
  ¬ a.Loses b ∧ (a.toNat * b.toNat < 2 ^ 256 ∨ 2 ^ 256 ∣ a.toNat * b.toNat)

theorem word_checkedMul_iff :
    ((a.checkedMul b).getD ZERO).word = a.word * b.word ↔ Multiplies a b := by
  rw [word_eq_iff, BitVec.toNat_mul, toNat_word, toNat_word]
  unfold Multiplies
  by_cases hloses : a.Loses b
  · obtain ⟨c, hc, hvalue⟩ := checkedMul_of_loses hloses
    have hlt := c.toNat_lt
    have hsmall := hloses.2
    rw [hc, Option.getD_some]
    generalize a.toNat * b.toNat = product at *
    have hnot : ¬ ¬ a.Loses b := not_not.mpr hloses
    refine iff_of_false (fun heq => ?_) fun h => hnot h.1
    omega
  · cases hc : a.checkedMul b with
    | some c =>
      have hvalue := (checkedMul_eq_some_iff hloses).mp hc
      have hlt := c.toNat_lt
      rw [Option.getD_some, hvalue]
      exact iff_of_true (Nat.mod_eq_of_lt hlt).symm ⟨hloses, .inl hlt⟩
    | none =>
      have hle : ¬ a.toNat * b.toNat < 2 ^ 256 := by
        intro hlt
        obtain ⟨c, hc'⟩ := exists_toNat hlt
        rw [(checkedMul_eq_some_iff hloses).mpr hc'.symm] at hc
        cases hc
      rw [Option.getD_none, toNat_zero]
      constructor
      · intro hzero
        exact ⟨hloses, .inr (Nat.dvd_of_mod_eq_zero hzero.symm)⟩
      · rintro ⟨-, hlt | hdvd⟩
        · exact absurd hlt hle
        · exact (Nat.mod_eq_zero_of_dvd hdvd).symm

end U256

namespace EvmInterpreter

/-- The stack as words and the memory as bytes. -/
def view (vm : EvmInterpreter) : Machine 32 := ⟨vm.stack.map U256.word, bytesOf vm.memory⟩

/-- What an opcode stands for, if it is one for words or the stack. The words that come from
elsewhere are those the interpreter has. -/
def instruction (vm : EvmInterpreter) : Opcode → Option (Instr 32)
  | .add => some .add
  | .mul => some .mul
  | .sub => some .sub
  | .eq => some .eq
  | .iszero => some .isZero
  | .address => some (.push (addressWord vm.address).word)
  | .caller => some (.push (addressWord vm.caller).word)
  | .callvalue => some (.push vm.value.word)
  | .calldatasize => some (.push (U256.fromU64 (UInt64.ofNat vm.input.length)).word)
  | .codesize => some (.push (U256.fromU64 (UInt64.ofNat vm.code.length)).word)
  | .number => some (.push (U256.fromU64 vm.ctx.blockNumber).word)
  | .chainid => some (.push (U256.fromU64 vm.ctx.chainId).word)
  | .gas => some (.push (U256.fromU64 (saturatingSub vm.gasLimit vm.gasUsed)).word)
  | .push n => some (.push (immediate vm.code vm.pc n))
  | .pop => some .drop
  | .dup n => some (.dup n)
  | .swap n => some (.swap n)
  | .mload => some .load
  | .mstore => some .store
  | _ => none

/-- The machine charged for an opcode. -/
def spent (vm : EvmInterpreter) (byte : UInt8) : EvmInterpreter :=
  { vm with gasUsed := vm.gasUsed + opcodeGas byte }

/-- An opcode does to the words and the bytes what the instruction does, and fails where it
fails. -/
def Follows (vm : EvmInterpreter) (byte : UInt8) (state : StateDB) (instr : Instr 32) : Prop :=
  (vm.executeOpcode byte state).toOption.map (fun out => out.1.view) = vm.view.exec 1024 instr

/-- Offsets into the memory whose end is below `2 ^ 63`. -/
def OffsetWithin (vm : EvmInterpreter) : Opcode → Prop
  | .mload | .mstore => ∀ o rest, vm.stack = o :: rest → o.toNat + 32 < 2 ^ 63
  | _ => True

/-- A word that is pushed finds room on the stack that is left. -/
def HasRoom (vm : EvmInterpreter) : Opcode → Prop
  | .pop | .swap _ | .mstore => True
  | .iszero | .mload => vm.stack.length < 1025
  | .add | .mul | .sub | .eq => vm.stack.length < 1026
  | _ => vm.stack.length < 1024

/-- The sum, difference or product of the operands is within the range of words. -/
def InRange (vm : EvmInterpreter) : Opcode → Prop
  | .add => ∀ a b rest, vm.stack = a :: b :: rest → a.toNat + b.toNat < 2 ^ 256
  | .sub => ∀ a b rest, vm.stack = a :: b :: rest → b.toNat ≤ a.toNat
  | .mul => ∀ a b rest, vm.stack = a :: b :: rest → a.Multiplies b
  | _ => True

/-- What an `MSTORE` stores an `MLOAD` on that memory loads. -/
def LoadsBack (vm : EvmInterpreter) (state : StateDB) : Prop :=
  ∀ o v rest, vm.stack = o :: v :: rest → o.toNat + 32 < 2 ^ 63 →
    ∃ vm₁, vm.executeOpcode 0x52 state = .ok (vm₁, state) ∧
      ∀ (vm₂ : EvmInterpreter) (rest₂ : List U256), vm₂.memory = vm₁.memory →
        vm₂.stack = o :: rest₂ → rest₂.length < 1024 →
        ∃ vm₃, vm₂.executeOpcode 0x51 state = .ok (vm₃, state) ∧ vm₃.stack = v :: rest₂

variable {vm : EvmInterpreter} {state : StateDB} {op : Opcode} {instr : Instr 32}

/-- A push agrees where there is room and the word is the same. -/
theorem push_follows_iff {v : U256} {w : BitVec (8 * 32)} :
    some (vm.push v).view = vm.view.push 1024 w ↔ vm.stack.length < 1024 ∧ v.word = w := by
  have hlength : vm.view.stack.length = vm.stack.length := List.length_map ..
  unfold push Machine.push
  rw [hlength]
  by_cases hroom : vm.stack.length < 1024
  · rw [if_pos hroom, if_pos hroom, Option.some.injEq, view, Machine.mk.injEq, List.map_cons,
      List.cons.injEq]
    exact ⟨fun h => ⟨hroom, h.1.1⟩, fun h => ⟨⟨h.2, rfl⟩, rfl⟩⟩
  · rw [if_neg hroom, if_neg hroom]
    exact iff_of_false nofun fun h => hroom h.1

theorem binary_follows_iff {f : U256 → U256 → U256}
    {g : BitVec (8 * 32) → BitVec (8 * 32) → BitVec (8 * 32)} {P : U256 → U256 → Prop}
    (hP : ∀ a b, (f a b).word = g a.word b.word ↔ P a b) :
    (vm.binary f).toOption.map view = vm.view.binary 1024 g ↔
      vm.stack.length < 1026 ∧ ∀ a b rest, vm.stack = a :: b :: rest → P a b := by
  unfold binary pop Machine.binary
  have hview : vm.view.stack = vm.stack.map U256.word := rfl
  rw [hview]
  match hstack : vm.stack with
  | [] => exact iff_of_true rfl ⟨by decide, nofun⟩
  | [a] => exact iff_of_true rfl ⟨by simp, nofun⟩
  | a :: b :: rest =>
    show some (({ vm with stack := rest } : EvmInterpreter).push (f a b)).view
      = ({ vm with stack := rest } : EvmInterpreter).view.push 1024 (g a.word b.word) ↔ _
    rw [push_follows_iff, hP, List.length_cons, List.length_cons]
    constructor
    · rintro ⟨hroom, h⟩
      refine ⟨Nat.add_lt_add_right hroom 2, fun a' b' rest' heq => ?_⟩
      cases heq
      exact h
    · rintro ⟨hroom, h⟩
      exact ⟨Nat.lt_of_add_lt_add_right (n := 2) hroom, h a b rest rfl⟩

/-- The memory grown for a word at an offset, with the rest of the stack. -/
def grown (vm : EvmInterpreter) (o : U256) (rest : List U256) : EvmInterpreter :=
  ({ vm with stack := rest } : EvmInterpreter).expandMemory (o.lowU64 + 32)

theorem stack_grown (vm : EvmInterpreter) (o : U256) (rest : List U256) :
    (vm.grown o rest).stack = rest := by
  unfold grown expandMemory
  split
  · rfl
  · rfl

section Offset

variable {o : U256} (ho : o.toNat + 32 < 2 ^ 63)
include ho

theorem toNat_lowU64_of_lt : o.lowU64.toNat = o.toNat := by
  rw [U256.toNat_lowU64]
  omega

theorem toNat_offset_end : (o.lowU64 + 32).toNat = o.toNat + 32 := by
  have hlow := toNat_lowU64_of_lt ho
  rw [toNat_add_of_lt (by rw [hlow]; show _ + 32 < _; omega), hlow]
  rfl

theorem bytesOf_grown (vm : EvmInterpreter) (rest : List U256) :
    bytesOf (vm.grown o rest).memory = bytesOf vm.memory :=
  bytesOf_expandMemory (by rw [toNat_offset_end ho]; omega)

theorem view_grown (vm : EvmInterpreter) (rest : List U256) :
    (vm.grown o rest).view = ⟨rest.map U256.word, bytesOf vm.memory⟩ := by
  rw [view, stack_grown, bytesOf_grown ho]

/-- What is read at an offset of the grown memory. -/
theorem word_readMemory_grown (vm : EvmInterpreter) (rest : List U256) :
    (readMemory (vm.grown o rest).memory o.lowU64).word
      = readWord (bytesOf vm.memory) o.word.toNat := by
  have hlow := toNat_lowU64_of_lt ho
  rw [word_readMemory (by omega), bytesOf_grown ho, hlow, U256.toNat_word]

/-- And what is written. -/
theorem bytesOf_writeMemory_grown (vm : EvmInterpreter) (rest : List U256) (v : U256) :
    bytesOf (writeMemory (vm.grown o rest).memory o.lowU64 v)
      = writeWord (bytesOf vm.memory) o.word.toNat v.word := by
  have hlow := toNat_lowU64_of_lt ho
  have hend := toNat_offset_end ho
  have hreach : o.toNat + 32 ≤ (vm.grown o rest).memory.length :=
    hend.symm.le.trans (le_length_expandMemory (by omega))
  rw [bytesOf_writeMemory (by omega) (by omega), bytesOf_grown ho, hlow, U256.toNat_word]

end Offset

theorem word_boolWord (b : Bool) : (boolWord b).word = truth b := by
  cases b with
  | false => decide +kernel
  | true => decide +kernel

theorem isZero_eq (a : U256) : a.isZero = decide (a.word = 0) := by
  rw [Bool.eq_iff_iff, U256.isZero_iff, decide_eq_true_iff, U256.word_eq_iff]
  rfl

theorem iszero_follows_iff :
    (vm.step state .iszero).toOption.map view = vm.view.exec 1024 .isZero ↔
      vm.stack.length < 1025 := by
  rw [step, Machine.exec, pop, Machine.unary]
  have hview : vm.view.stack = vm.stack.map U256.word := rfl
  rw [hview]
  cases hstack : vm.stack with
  | nil => exact iff_of_true rfl (by decide)
  | cons a rest =>
    show some (({ vm with stack := rest } : EvmInterpreter).push (boolWord a.isZero)).view
      = ({ vm with stack := rest } : EvmInterpreter).view.push 1024 (truth (a.word = 0)) ↔ _
    rw [push_follows_iff, word_boolWord, isZero_eq, List.length_cons]
    exact ⟨fun h => Nat.succ_lt_succ h.1, fun h => ⟨Nat.lt_of_succ_lt_succ h, rfl⟩⟩

theorem mload_follows_iff (hoffset : vm.OffsetWithin .mload) :
    (vm.step state .mload).toOption.map view = vm.view.exec 1024 .load ↔
      vm.stack.length < 1025 := by
  rw [step, Machine.exec, pop, Machine.unary]
  have hview : vm.view.stack = vm.stack.map U256.word := rfl
  rw [hview]
  cases hstack : vm.stack with
  | nil => exact iff_of_true rfl (by decide)
  | cons o rest =>
    have ho := hoffset o rest hstack
    show some ((vm.grown o rest).push (readMemory (vm.grown o rest).memory o.lowU64)).view
      = Machine.push 1024 ⟨rest.map U256.word, bytesOf vm.memory⟩
        (readWord (bytesOf vm.memory) o.word.toNat) ↔ _
    rw [← view_grown ho, push_follows_iff, stack_grown, List.length_cons]
    exact ⟨fun h => Nat.succ_lt_succ h.1,
      fun h => ⟨Nat.lt_of_succ_lt_succ h, word_readMemory_grown ho vm rest⟩⟩

theorem mstore_follows (hoffset : vm.OffsetWithin .mstore) :
    (vm.step state .mstore).toOption.map view = vm.view.exec 1024 .store := by
  rw [step, Machine.exec, pop]
  have hview : vm.view.stack = vm.stack.map U256.word := rfl
  rw [hview]
  cases hstack : vm.stack with
  | nil => rfl
  | cons o tail =>
    cases htail : tail with
    | nil => rfl
    | cons v rest =>
      have ho := hoffset o (v :: rest) (hstack.trans (congrArg _ htail))
      have hwritten := bytesOf_writeMemory_grown ho vm rest v
      show some (view { vm.grown o rest with
          memory := writeMemory (vm.grown o rest).memory o.lowU64 v })
        = some ⟨rest.map U256.word, writeWord (bytesOf vm.memory) o.word.toNat v.word⟩
      rw [← hwritten]
      generalize writeMemory (vm.grown o rest).memory o.lowU64 v = written
      rw [view]
      show some (Machine.mk ((vm.grown o rest).stack.map U256.word) _) = _
      rw [stack_grown]

theorem dup_follows_iff {n : Nat} (h : 1 ≤ n ∧ n ≤ 16) :
    (vm.step state (.dup n)).toOption.map view = vm.view.exec 1024 (.dup n) ↔
      vm.stack.length < 1024 := by
  rw [step, Machine.exec]
  have hview : vm.view.stack = vm.stack.map U256.word := rfl
  rw [hview, List.getElem?_map]
  by_cases hlt : vm.stack.length < n
  · rw [if_pos hlt, List.getElem?_eq_none (by omega)]
    exact iff_of_true rfl (by omega)
  · rw [if_neg hlt, List.getElem?_eq_getElem (by omega),
      List.getD_eq_getElem _ _ (by omega : n - 1 < vm.stack.length)]
    show some (vm.push vm.stack[n - 1]).view = vm.view.push 1024 vm.stack[n - 1].word ↔ _
    rw [push_follows_iff]
    exact and_iff_left rfl

theorem swap_follows {n : Nat} :
    (vm.step state (.swap n)).toOption.map view = vm.view.exec 1024 (.swap n) := by
  rw [step, Machine.exec]
  have hview : vm.view.stack = vm.stack.map U256.word := rfl
  rw [hview, List.getElem?_map, List.getElem?_map]
  by_cases hle : vm.stack.length ≤ n
  · rw [if_pos hle, List.getElem?_eq_none hle]
    cases vm.stack[0]? with
    | none => rfl
    | some a => rfl
  · have hn : n < vm.stack.length := Nat.lt_of_not_le hle
    have h0 : 0 < vm.stack.length := by omega
    rw [if_neg hle, List.getElem?_eq_getElem hn, List.getElem?_eq_getElem h0, swapTop,
      List.getD_eq_getElem _ _ hn, List.getD_eq_getElem _ _ h0]
    show some (Machine.mk (((vm.stack.set 0 vm.stack[n]).set n vm.stack[0]).map U256.word) _)
      = some (Machine.mk (((vm.stack.map U256.word).set 0 vm.stack[n].word).set n
        vm.stack[0].word) _)
    rw [List.map_set, List.map_set]
    rfl

theorem pop_follows : (vm.step state .pop).toOption.map view = vm.view.exec 1024 .drop := by
  rw [step, Machine.exec, pop]
  have hview : vm.view.stack = vm.stack.map U256.word := rfl
  rw [hview]
  cases vm.stack with
  | nil => rfl
  | cons a rest => rfl

/-- **Each opcode**, its own byte behind the counter and charged. -/
theorem step_follows_iff (h : vm.instruction op = some instr) (hop : op.inRange = true)
    (hoffset : vm.OffsetWithin op) :
    (vm.step state op).toOption.map view = vm.view.exec 1024 instr ↔
      vm.HasRoom op ∧ vm.InRange op := by
  have hpush : ∀ v : U256, some (vm.push v).view = vm.view.push 1024 v.word ↔
      vm.stack.length < 1024 ∧ True := by
    intro v
    rw [push_follows_iff]
    exact and_congr_right fun _ => iff_of_true rfl trivial
  cases op with
  | add => cases h; exact binary_follows_iff fun _ _ => U256.word_saturatingAdd_iff
  | mul =>
    cases h
    have hstep : vm.step state .mul = vm.binary fun a b => (a.checkedMul b).getD U256.ZERO := rfl
    rw [hstep]
    exact binary_follows_iff fun _ _ => U256.word_checkedMul_iff
  | sub => cases h; exact binary_follows_iff fun _ _ => U256.word_saturatingSub_iff
  | eq =>
    cases h
    have heq : ∀ a b : U256, (boolWord (a = b)).word = truth (a.word = b.word) := by
      intro a b
      rw [word_boolWord, decide_eq_decide.mpr U256.word_inj]
    refine (binary_follows_iff (g := fun a b => truth (a = b)) (P := fun _ _ => True)
      fun a b => iff_of_true (heq a b) trivial).trans ?_
    exact and_congr_right fun _ => iff_of_true (fun _ _ _ _ => trivial) trivial
  | iszero => cases h; exact iszero_follows_iff.trans (and_iff_left trivial).symm
  | address => cases h; exact hpush _
  | caller => cases h; exact hpush _
  | callvalue => cases h; exact hpush _
  | calldatasize => cases h; exact hpush _
  | codesize => cases h; exact hpush _
  | number => cases h; exact hpush _
  | chainid => cases h; exact hpush _
  | gas => cases h; exact hpush _
  | push n =>
    cases h
    have hn : n ≤ 32 := (of_decide_eq_true hop).2
    refine Iff.trans ?_ (hpush (pushWord vm.code vm.pc n))
    rw [word_pushWord _ _ hn]
    exact Iff.rfl
  | pop => cases h; exact iff_of_true pop_follows ⟨trivial, trivial⟩
  | dup n =>
    cases h
    exact (dup_follows_iff (of_decide_eq_true hop)).trans (and_iff_left trivial).symm
  | swap n => cases h; exact iff_of_true swap_follows ⟨trivial, trivial⟩
  | mload => cases h; exact (mload_follows_iff hoffset).trans (and_iff_left trivial).symm
  | mstore => cases h; exact iff_of_true (mstore_follows hoffset) ⟨trivial, trivial⟩
  | _ => cases h

theorem executeOpcode_mstore {o v : U256} {rest : List U256} (h : vm.stack = o :: v :: rest) :
    vm.executeOpcode 0x52 state = .ok ({ (vm.spent 0x52).grown o rest with
      memory := writeMemory ((vm.spent 0x52).grown o rest).memory o.lowU64 v }, state) := by
  have hdecode : Opcode.decode 0x52 = .mstore := by decide
  have hstack : (vm.spent 0x52).stack = o :: v :: rest := h
  show ((vm.spent 0x52).step state (Opcode.decode 0x52)).bind _ = _
  rw [hdecode, step, pop, hstack]
  rfl

theorem executeOpcode_mload {o : U256} {rest : List U256} (h : vm.stack = o :: rest) :
    vm.executeOpcode 0x51 state = .ok (((vm.spent 0x51).grown o rest).push
      (readMemory ((vm.spent 0x51).grown o rest).memory o.lowU64), state) := by
  have hdecode : Opcode.decode 0x51 = .mload := by decide
  have hstack : (vm.spent 0x51).stack = o :: rest := h
  show ((vm.spent 0x51).step state (Opcode.decode 0x51)).bind _ = _
  rw [hdecode, step, pop, hstack]
  rfl

/-- A word that is stored is loaded. -/
theorem loadsBack (vm : EvmInterpreter) (state : StateDB) : vm.LoadsBack state := by
  intro o v rest hstack ho
  refine ⟨_, executeOpcode_mstore hstack, fun vm₂ rest₂ hmemory hstack₂ hroom => ?_⟩
  refine ⟨_, executeOpcode_mload hstack₂, ?_⟩
  have hwritten := bytesOf_writeMemory_grown ho (vm.spent 0x52) rest v
  -- the written bytes are not looked at, or they would be computed
  generalize writeMemory ((vm.spent 0x52).grown o rest).memory o.lowU64 v = written
    at hwritten hmemory
  have hmemory : bytesOf (vm₂.spent 0x51).memory
      = writeWord (bytesOf (vm.spent 0x52).memory) o.word.toNat v.word := by
    rw [← hwritten]
    exact congrArg bytesOf hmemory
  have hread : readMemory ((vm₂.spent 0x51).grown o rest₂).memory o.lowU64 = v := by
    rw [← U256.word_inj, word_readMemory_grown ho, hmemory, readWord_writeWord]
  have hlength : ((vm₂.spent 0x51).grown o rest₂).stack.length < 1024 := by rwa [stack_grown]
  rw [hread, push, if_pos hlength, stack_grown]

theorem follows_iff {byte : UInt8}
    (h : (vm.spent byte).instruction (Opcode.decode byte) = some instr)
    (hoffset : vm.OffsetWithin (Opcode.decode byte)) :
    vm.Follows byte state instr ↔
      vm.HasRoom (Opcode.decode byte) ∧ vm.InRange (Opcode.decode byte) := by
  have hopcode : (vm.executeOpcode byte state).toOption.map (fun out => out.1.view)
      = ((vm.spent byte).step state (Opcode.decode byte)).toOption.map view := by
    unfold executeOpcode
    show (((vm.spent byte).step state (Opcode.decode byte)).bind _).toOption.map _ = _
    generalize (vm.spent byte).step state (Opcode.decode byte) = stepped
    cases stepped with
    | error e => rfl
    | ok vm' => rfl
  unfold Follows
  rw [hopcode]
  exact step_follows_iff h (Opcode.inRange_decode byte) hoffset

/-- **Word and stack opcodes.** On every machine, an opcode does what its instruction does,
exactly where the stack has room for what it pushes and its sum, difference or product is one
of a word; and a word stored below `2 ^ 63` is the one loaded. -/
theorem words_follow_iff (vm : EvmInterpreter) (byte : UInt8) (state : StateDB) (instr : Instr 32)
    (h : (vm.spent byte).instruction (Opcode.decode byte) = some instr)
    (hoffset : vm.OffsetWithin (Opcode.decode byte)) :
    (vm.Follows byte state instr ↔
      vm.HasRoom (Opcode.decode byte) ∧ vm.InRange (Opcode.decode byte)) ∧
    vm.LoadsBack state :=
  ⟨follows_iff h hoffset, loadsBack vm state⟩

/-- A machine with these words on its stack. -/
def holding (stack : List U256) : EvmInterpreter :=
  { new [] [] (Vector.replicate 20 0) (Vector.replicate 20 0) U256.ZERO 100 .default with
    stack := stack }

/-- A one is stored at 64, and loaded from there. -/
theorem words_follow_store :
    (holding [U256.fromU64 64, U256.ONE]).Follows 0x52 .new .store ∧
      (holding [U256.fromU64 64, U256.ONE]).LoadsBack .new := by
  have hdecode : Opcode.decode 0x52 = .mstore := by decide
  have hfollow := words_follow_iff (holding [U256.fromU64 64, U256.ONE]) 0x52 .new .store
    (by rw [hdecode]; rfl) (by
      rw [hdecode]
      intro o rest hstack
      cases hstack
      decide +kernel)
  rw [hdecode] at hfollow
  exact ⟨hfollow.1.mpr ⟨trivial, trivial⟩, hfollow.2⟩

/-- One more than the greatest word is not zero here, and one word too many does not fail. -/
theorem words_astray :
    ¬ (holding [U256.MAX, U256.ONE]).Follows 0x01 .new .add ∧
      ¬ (holding (List.replicate 1024 U256.ZERO)).Follows 0x60 .new (.push (immediate [] 0 1)) := by
  have hadd : Opcode.decode 0x01 = .add := by decide
  have hpush : Opcode.decode 0x60 = .push 1 := by decide
  constructor
  · intro h
    have hrange := ((follows_iff (by rw [hadd]; rfl) (by rw [hadd]; trivial)).mp h).2
    rw [hadd] at hrange
    exact absurd (hrange U256.MAX U256.ONE [] rfl) (by decide +kernel)
  · intro h
    have hroom := ((follows_iff (by rw [hpush]; rfl) (by rw [hpush]; trivial)).mp h).1
    rw [hpush] at hroom
    have hroom : (List.replicate 1024 U256.ZERO).length < 1024 := hroom
    rw [List.length_replicate] at hroom
    exact absurd hroom (Nat.lt_irrefl 1024)

end EvmInterpreter

end Pyrax.Evm
