import Mathlib.Data.List.GetD
import Pyrax.Base.Fill
import Pyrax.Evm.Turns

/-!
# The interpreter with its indexing

The model reads lists with a default and writes them where the index is within; the source
indexes slices, and an index out of range is a panic. Here are the same opcodes with every
index as the source has it (`stepChecked`, `nextChecked`; `none` is the panic), the stack with
its top last, and none of them panics (`nextChecked_eq`).
-/

namespace Pyrax.Evm

open Base Word Machine

namespace EvmInterpreter

/-- `MLOAD`: `if o + i < self.memory.len() { b[i] = self.memory[o + i] }`. -/
def readChecked (memory : List UInt8) (offset : UInt64) : Option U256 :=
  (fill (fun i =>
    if (offset + UInt64.ofNat i).toNat < memory.length then
      (memory[(offset + UInt64.ofNat i).toNat]?).map some
    else some none) (List.replicate 32 0) 0 32).map fun b => U256.fromBeBytes (arrayFromSlice 32 b)

/-- `MSTORE`: `if o + i < self.memory.len() { self.memory[o + i] = b[i] }`. -/
def writeChecked (memory : List UInt8) (offset : UInt64) (word : U256) : Option (List UInt8) :=
  (List.range 32).foldlM (fun memory i =>
    if (offset + UInt64.ofNat i).toNat < memory.length then
      (word.toBeBytes.toList[i]?).bind fun byte =>
        setIndex memory (offset + UInt64.ofNat i).toNat byte
    else some memory) memory

/-- `PUSH`: `if self.pc + i < self.code.len() { b[32 - n + i] = self.code[self.pc + i] }`. -/
def pushChecked (code : List UInt8) (pc n : Nat) : Option U256 :=
  if 32 < n then none
  else
    (fill (fun i => if pc + i < code.length then (code[pc + i]?).map some else some none)
      (List.replicate 32 0) (32 - n) n).map fun b => U256.fromBeBytes (arrayFromSlice 32 b)

def jumpChecked (vm : EvmInterpreter) (dest : U256) : Option (Except String EvmInterpreter) :=
  let d := dest.lowU64.toNat
  if d < vm.code.length then
    (vm.code[d]?).map fun byte =>
      if byte = 0x5B then .ok { vm with pc := d + 1 } else .error "Bad jump"
  else some (.error "Bad jump")

/-- The opcodes that index, and the others as they are. -/
def stepChecked (vm : EvmInterpreter) (state : StateDB) :
    Opcode → Option (Except String EvmInterpreter)
  | .mload =>
    match vm.pop with
    | .error e => some (.error e)
    | .ok (o, vm) =>
      let vm := vm.expandMemory (o.lowU64 + 32)
      (readChecked vm.memory o.lowU64).map fun word => .ok (vm.push word)
  | .mstore =>
    match vm.pop with
    | .error e => some (.error e)
    | .ok (o, vm) =>
      match vm.pop with
      | .error e => some (.error e)
      | .ok (v, vm) =>
        let vm := vm.expandMemory (o.lowU64 + 32)
        (writeChecked vm.memory o.lowU64 v).map fun memory => .ok { vm with memory := memory }
  | .jump =>
    match vm.pop with
    | .error e => some (.error e)
    | .ok (d, vm) => vm.jumpChecked d
  | .jumpi =>
    match vm.pop with
    | .error e => some (.error e)
    | .ok (d, vm) =>
      match vm.pop with
      | .error e => some (.error e)
      | .ok (c, vm) => if c.isZero then some (.ok vm) else vm.jumpChecked d
  | .push n =>
    (pushChecked vm.code vm.pc n).map fun word => .ok { vm.push word with pc := vm.pc + n }
  | .dup n =>
    if vm.stack.length < n then some (.error "Underflow")
    else (vm.stack.reverse[vm.stack.length - n]?).map fun word => .ok (vm.push word)
  | .swap n =>
    if vm.stack.length ≤ n then some (.error "Underflow")
    else
      (swapIndex vm.stack.reverse (vm.stack.length - 1) (vm.stack.length - 1 - n)).map fun stack =>
        .ok { vm with stack := stack.reverse }
  | op => some (vm.step state op)

/-- One pass of the loop, fetching with `self.code[self.pc]`. -/
def nextChecked (m : EvmInterpreter × StateDB) :
    Option ((EvmInterpreter × StateDB) ⊕ (StateDB × ExecutionResult)) :=
  if m.1.Running then
    if m.1.gasLimit ≤ m.1.gasUsed then some (.inr (m.2, .failed "Out of gas"))
    else
      (m.1.code[m.1.pc]?).bind fun byte =>
        let charged :=
          { m.1 with pc := m.1.pc + 1, gasUsed := m.1.gasUsed + opcodeGas byte }
        (charged.stepChecked m.2 (Opcode.decode byte)).map fun
          | .error e => .inr (m.2, .failed e)
          | .ok vm => .inl (vm, charged.store m.2 (Opcode.decode byte))
  else some (.inr (m.2, m.1.result))

/-! ## None of it panics -/

variable {vm vm' : EvmInterpreter} {state : StateDB}

theorem readChecked_eq (memory : List UInt8) (offset : UInt64) :
    readChecked memory offset = some (readMemory memory offset) := by
  have hread : ∀ i < 32, (fun i => if (offset + UInt64.ofNat i).toNat < memory.length then
        (memory[(offset + UInt64.ofNat i).toNat]?).map some else some none) i
      = some ((fun i => memory[(offset + UInt64.ofNat i).toNat]?) i) := by
    intro i _
    dsimp only
    split
    · next h => rw [List.getElem?_eq_getElem h]; rfl
    · next h => rw [List.getElem?_eq_none (Nat.le_of_not_lt h)]
  rw [readChecked, fill_eq _ 0 32 hread (by simp), Option.map_some, readMemory]
  refine congrArg (fun b => some (U256.fromBeBytes b)) (Vector.ext fun i hi => ?_)
  simp only [arrayFromSlice, Vector.getElem_ofFn, List.getD_eq_getElem?_getD, List.getElem?_mapIdx,
    List.getElem?_replicate, if_pos hi, Option.map_some, Option.getD_some, Nat.sub_zero]
  rw [if_pos (by omega)]

theorem writeChecked_eq (memory : List UInt8) (offset : UInt64) (word : U256) :
    writeChecked memory offset word = some (writeMemory memory offset word) := by
  have hfold : ∀ (places : List Nat), (∀ i ∈ places, i < 32) → ∀ memory : List UInt8,
      places.foldlM (fun memory i =>
        if (offset + UInt64.ofNat i).toNat < memory.length then
          (word.toBeBytes.toList[i]?).bind fun byte =>
            setIndex memory (offset + UInt64.ofNat i).toNat byte
        else some memory) memory
      = some (places.foldl (fun memory i =>
        memory.set (offset + UInt64.ofNat i).toNat (word.toBeBytes.toList.getD i 0)) memory) := by
    intro places
    induction places with
    | nil => exact fun _ _ => rfl
    | cons i places ih =>
      intro hplaces memory
      have hi : i < word.toBeBytes.toList.length := by
        rw [Vector.length_toList]
        exact hplaces i (List.mem_cons_self ..)
      rw [List.foldlM_cons, List.foldl_cons]
      split
      · next h =>
        rw [List.getElem?_eq_getElem hi, Option.bind_some, setIndex_of_lt h, Option.bind_eq_bind,
          Option.bind_some, ih fun j hj => hplaces j (List.mem_cons_of_mem _ hj),
          List.getD_eq_getElem _ _ hi]
      · next h =>
        rw [Option.bind_eq_bind, Option.bind_some,
          ih fun j hj => hplaces j (List.mem_cons_of_mem _ hj),
          List.set_eq_of_length_le (Nat.le_of_not_lt h)]
  exact hfold _ (fun i hi => List.mem_range.mp hi) memory

theorem length_padTo (n : Nat) (bytes : List UInt8) : (padTo n bytes).length = n := by
  rw [padTo, List.length_append, List.length_take, List.length_replicate]
  omega

/-- What is not there reads as zero. -/
theorem getElem_padTo {n i : Nat} {bytes : List UInt8} (h : i < (padTo n bytes).length) :
    (padTo n bytes)[i] = (bytes[i]?).getD 0 := by
  have hn : i < n := by rwa [length_padTo] at h
  simp only [padTo]
  rw [List.getElem_append]
  split
  · next hi =>
    rw [List.length_take] at hi
    rw [List.getElem_take, List.getElem?_eq_getElem (by omega)]
    rfl
  · next hi =>
    rw [List.length_take] at hi
    rw [List.getElem_replicate, List.getElem?_eq_none (by omega)]
    rfl

theorem pushChecked_eq {n : Nat} (code : List UInt8) (pc : Nat) (h : n ≤ 32) :
    pushChecked code pc n = some (pushWord code pc n) := by
  have hread : ∀ i < n, (fun i => if pc + i < code.length then (code[pc + i]?).map some else some none) i
      = some ((fun i => code[pc + i]?) i) := by
    intro i _
    dsimp only
    split
    · next h => rw [List.getElem?_eq_getElem h]; rfl
    · next h => rw [List.getElem?_eq_none (Nat.le_of_not_lt h)]
  rw [pushChecked, if_neg (Nat.not_lt.mpr h),
    fill_eq _ (32 - n) n hread (by rw [List.length_replicate]; omega), Option.map_some, pushWord]
  refine congrArg (fun b => some (U256.fromBeBytes (arrayFromSlice 32 b))) ?_
  refine List.ext_getElem ?_ fun j h₁ h₂ => ?_
  · rw [List.length_mapIdx, List.length_append, List.length_replicate, List.length_replicate,
      length_padTo]
    omega
  · rw [List.length_mapIdx, List.length_replicate] at h₁
    rw [List.getElem_mapIdx, List.getElem_replicate, List.getElem_append]
    simp only [List.length_replicate]
    by_cases hj : j < 32 - n
    · rw [if_neg (by omega), dif_pos hj, List.getElem_replicate]
    · rw [if_pos (by omega), dif_neg hj, getElem_padTo, List.getElem?_drop]

theorem jumpChecked_eq (vm : EvmInterpreter) (dest : U256) :
    vm.jumpChecked dest = some (vm.jumpTo dest) := by
  unfold jumpChecked jumpTo
  dsimp only
  split
  · next h =>
    rw [List.getElem?_eq_getElem h, Option.map_some, List.getD_eq_getElem _ _ h]
    simp only [h, true_and]
  · next h => rw [if_neg fun hlands => h hlands.1]

theorem dupChecked_eq {n : Nat} (h : 1 ≤ n) (hstack : n ≤ vm.stack.length) :
    vm.stack.reverse[vm.stack.length - n]? = some (vm.stack.getD (n - 1) U256.ZERO) := by
  rw [List.getElem?_reverse (by omega), List.getD_eq_getElem?_getD]
  have hindex : vm.stack.length - 1 - (vm.stack.length - n) = n - 1 := by omega
  rw [hindex, List.getElem?_eq_getElem (by omega)]
  rfl

theorem swapChecked_eq {n : Nat} (hstack : n < vm.stack.length) :
    (swapIndex vm.stack.reverse (vm.stack.length - 1) (vm.stack.length - 1 - n)).map List.reverse
      = some (swapTop vm.stack n) := by
  have hswap := swapIndex_reverse (l := vm.stack) (i := 0) (j := n) (by omega) hstack
  rw [Nat.sub_zero] at hswap
  rw [hswap, Option.map_some, List.reverse_reverse, swapTop, List.getD_eq_getElem _ _ hstack,
    List.getD_eq_getElem _ _ (by omega)]

/-- No opcode panics. -/
theorem stepChecked_eq {op : Opcode} (h : op.inRange = true) :
    vm.stepChecked state op = some (vm.step state op) := by
  cases op with
  | mload =>
    rw [stepChecked, step]
    cases vm.pop with
    | error e => rfl
    | ok popped =>
      dsimp only
      rw [readChecked_eq]
      rfl
  | mstore =>
    rw [stepChecked, step]
    cases vm.pop with
    | error e => rfl
    | ok popped =>
      show (match popped.2.pop with | .error e => _ | .ok (v, vm) => _)
        = some (popped.2.pop.bind _)
      cases popped.2.pop with
      | error e => rfl
      | ok popped' =>
        dsimp only
        rw [writeChecked_eq]
        rfl
  | jump =>
    rw [stepChecked, step]
    cases vm.pop with
    | error e => rfl
    | ok popped => exact jumpChecked_eq popped.2 popped.1
  | jumpi =>
    rw [stepChecked, step]
    cases vm.pop with
    | error e => rfl
    | ok popped =>
      show (match popped.2.pop with | .error e => _ | .ok (c, vm) => _)
        = some (popped.2.pop.bind _)
      cases popped.2.pop with
      | error e => rfl
      | ok popped' =>
        show (if popped'.1.isZero then _ else popped'.2.jumpChecked popped.1)
          = some (if popped'.1.isZero then _ else popped'.2.jumpTo popped.1)
        split
        · rfl
        · exact jumpChecked_eq popped'.2 popped.1
  | push n =>
    have hn : n ≤ 32 := (of_decide_eq_true h).2
    rw [stepChecked, step, pushChecked_eq vm.code vm.pc hn]
    rfl
  | dup n =>
    have hn : 1 ≤ n := (of_decide_eq_true h).1
    rw [stepChecked, step]
    split
    · rfl
    · next hstack =>
      rw [dupChecked_eq hn (Nat.le_of_not_lt hstack)]
      rfl
  | swap n =>
    rw [stepChecked, step]
    split
    · rfl
    · next hstack =>
      obtain ⟨stack, hstack, hreverse⟩ :=
        Option.map_eq_some_iff.mp (swapChecked_eq (Nat.lt_of_not_le hstack))
      rw [hstack, Option.map_some, hreverse]
  | _ => rfl

/-- **No turn panics**: neither the fetch nor the opcode indexes out of range. -/
theorem nextChecked_eq (m : EvmInterpreter × StateDB) : nextChecked m = some (next m) := by
  unfold nextChecked next
  split
  · next hrun =>
    split
    · rfl
    · have hpc : m.1.pc < m.1.code.length := hrun.2
      have hfetched : m.1.code[m.1.pc] = m.1.fetched := (List.getD_eq_getElem _ _ hpc).symm
      rw [List.getElem?_eq_getElem hpc, Option.bind_some]
      rw [hfetched]
      dsimp only
      rw [stepChecked_eq (Opcode.inRange_decode _), Option.map_some]
      refine congrArg some ?_
      unfold executeOpcode
      dsimp only
      generalize step _ _ _ = stepped
      cases stepped with
      | error e => rfl
      | ok vm => rfl
  · rfl

end EvmInterpreter

end Pyrax.Evm
