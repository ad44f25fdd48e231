import Pyrax.Base.Machine
import Pyrax.Evm.Interpreter

/-!
# The interpreter turn by turn

The loop of `EvmInterpreter::execute` as a machine that goes on or ends (`loop_eq_runFor`):
what holds in every state it passes is said of the states in reach. A turn fetches an opcode
where the machine is running and has gas left (`turn_iff`), and there are three ends: the
machine is not running any more, it is out of gas, or an opcode fails (`end_cases`).

What one opcode does to the code, the counter, the stack and the memory is `Touches`, opcode
by opcode (`touches_step`); a turn adds the price (`charged_of_turn`).
-/

namespace Pyrax.Evm

open Base Word Machine

/-- The numbers that stand in an opcode. -/
def Opcode.inRange : Opcode → Bool
  | push n => 1 ≤ n ∧ n ≤ 32
  | dup n => 1 ≤ n ∧ n ≤ 16
  | swap n => 1 ≤ n ∧ n ≤ 16
  | _ => true

theorem Opcode.inRange_decode (byte : UInt8) : (decode byte).inRange = true := by
  have hall : ∀ n < 256, (decode (UInt8.ofNat n)).inRange = true := by decide +kernel
  have h := hall byte.toNat byte.toNat_lt
  rwa [UInt8.ofNat_toNat] at h

namespace EvmInterpreter

/-- `!self.stopped && self.pc < self.code.len()`. -/
def Running (vm : EvmInterpreter) : Prop := vm.stopped = false ∧ vm.pc < vm.code.length

instance (vm : EvmInterpreter) : Decidable vm.Running := inferInstanceAs (Decidable (_ ∧ _))

/-- Running, with no gas left. -/
def OutOfGas (vm : EvmInterpreter) : Prop := vm.Running ∧ vm.gasLimit ≤ vm.gasUsed

/-- About to fetch an opcode and to execute it. -/
def Fetches (vm : EvmInterpreter) : Prop := vm.Running ∧ vm.gasUsed < vm.gasLimit

instance (vm : EvmInterpreter) : Decidable vm.Fetches := inferInstanceAs (Decidable (_ ∧ _))

/-- `self.code[self.pc]`. -/
def fetched (vm : EvmInterpreter) : UInt8 := vm.code.getD vm.pc 0

/-- One pass of the loop: another machine and database, or the database and the result. -/
def next (m : EvmInterpreter × StateDB) :
    (EvmInterpreter × StateDB) ⊕ (StateDB × ExecutionResult) :=
  if m.1.Running then
    if m.1.gasLimit ≤ m.1.gasUsed then .inr (m.2, .failed "Out of gas")
    else
      match ({ m.1 with pc := m.1.pc + 1 } : EvmInterpreter).executeOpcode m.1.fetched m.2 with
      | .error e => .inr (m.2, .failed e)
      | .ok m' => .inl m'
  else .inr (m.2, m.1.result)

theorem loop_eq_runFor (fuel : Nat) (vm : EvmInterpreter) (state : StateDB) :
    loop fuel vm state = runFor next fuel (vm, state) := by
  induction fuel generalizing vm state with
  | zero => rfl
  | succ fuel ih =>
    rw [loop, runFor, next]
    by_cases hrun : vm.stopped = false ∧ vm.pc < vm.code.length
    · have hrunning : vm.Running := hrun
      simp only [if_pos hrun, if_pos hrunning]
      split
      · rfl
      · rw [show vm.code.getD vm.pc 0 = vm.fetched from rfl]
        cases ({ vm with pc := vm.pc + 1 } : EvmInterpreter).executeOpcode vm.fetched state with
        | error e => rfl
        | ok m => exact ih m.1 m.2
    · have hends : ¬ vm.Running := hrun
      simp only [if_neg hrun, if_neg hends]

variable {m m' start : EvmInterpreter × StateDB} {out : StateDB × ExecutionResult}

theorem turn_iff : Turn next m m' ↔ m.1.Fetches ∧
    ({ m.1 with pc := m.1.pc + 1 } : EvmInterpreter).executeOpcode m.1.fetched m.2 = .ok m' := by
  unfold Turn next Fetches
  split
  · next hrun =>
    split
    · next hgas =>
      have hnot : ¬ m.1.gasUsed < m.1.gasLimit := UInt64.not_lt.mpr hgas
      simp [hnot]
    · next hgas =>
      have hlt : m.1.gasUsed < m.1.gasLimit := UInt64.not_le.mp hgas
      split
      · next e herr => simp [herr]
      · next m₁ hok => simp [hok, hrun, hlt]
  · next hrun => simp [hrun]

theorem end_cases (h : next m = .inr out) :
    (¬ m.1.Running ∧ out = (m.2, m.1.result)) ∨
    (m.1.OutOfGas ∧ out = (m.2, .failed "Out of gas")) ∨
    ∃ e, m.1.Fetches ∧
      ({ m.1 with pc := m.1.pc + 1 } : EvmInterpreter).executeOpcode m.1.fetched m.2 = .error e ∧
      out = (m.2, .failed e) := by
  unfold next at h
  split at h
  · next hrun =>
    split at h
    · next hgas =>
      cases h
      exact .inr (.inl ⟨⟨hrun, hgas⟩, rfl⟩)
    · next hgas =>
      split at h
      · next e herr =>
        cases h
        exact .inr (.inr ⟨e, ⟨hrun, UInt64.not_le.mp hgas⟩, herr, rfl⟩)
      · cases h
  · next hrun =>
    cases h
    exact .inl ⟨hrun, rfl⟩

theorem next_of_not_running (h : ¬ m.1.Running) : next m = .inr (m.2, m.1.result) := if_neg h

theorem next_of_outOfGas (h : m.1.OutOfGas) : next m = .inr (m.2, .failed "Out of gas") := by
  unfold next
  rw [if_pos h.1, if_pos h.2]

/-- A turn costs the price of its opcode. -/
theorem charged_of_turn (h : Turn next m m') : Charged m.1 m.1.fetched m.2 m'.1 m'.2 := by
  have hopcode := charged_of_executeOpcode (turn_iff.mp h).2
  exact ⟨hopcode.address, hopcode.gasLimit, hopcode.gasUsed, hopcode.stores⟩

theorem gasLimit_of_reaches (h : Reaches next start m) : m.1.gasLimit = start.1.gasLimit :=
  h.invariant (P := fun m => m.1.gasLimit = start.1.gasLimit) rfl
    fun _ _ _ hlimit hturn => (charged_of_turn hturn).gasLimit.trans hlimit

/-! ## What an opcode touches -/

/-- The length the memory has after a request for so many bytes. -/
def expanded (vm : EvmInterpreter) (size : UInt64) : Nat := (vm.expandMemory size).memory.length

/-- Where the counter stands afterwards. -/
def pcAfter (vm : EvmInterpreter) : Opcode → Nat
  | .push n => vm.pc + n
  | .jump =>
    match vm.stack with
    | d :: _ => d.lowU64.toNat + 1
    | [] => vm.pc
  | .jumpi =>
    match vm.stack with
    | d :: c :: _ => if c.isZero then vm.pc else d.lowU64.toNat + 1
    | _ => vm.pc
  | _ => vm.pc

/-- How many bytes of memory an opcode asks for, if it asks for any and has its operands. -/
def request (vm : EvmInterpreter) : Opcode → Option UInt64
  | .mload =>
    match vm.stack with
    | o :: _ => some (o.lowU64 + 32)
    | [] => none
  | .mstore =>
    match vm.stack with
    | o :: _ :: _ => some (o.lowU64 + 32)
    | _ => none
  | .ret | .revert =>
    match vm.stack with
    | o :: s :: _ => some (o.lowU64 + s.lowU64)
    | _ => none
  | _ => none

/-- How long the memory is afterwards. -/
def memoryAfter (vm : EvmInterpreter) (op : Opcode) : Nat :=
  match vm.request op with
  | some size => vm.expanded size
  | none => vm.memory.length

/-- The code stays, the counter and the length of the memory are given, and a stack within its
limit stays within it. -/
structure Touches (vm vm' : EvmInterpreter) (pc memory : Nat) : Prop where
  code : vm'.code = vm.code
  pc : vm'.pc = pc
  memory : vm'.memory.length = memory
  stack : vm.stack.length ≤ 1024 → vm'.stack.length ≤ 1024

variable {vm vm' vm'' : EvmInterpreter} {state : StateDB} {v : U256}

theorem Touches.refl (vm : EvmInterpreter) : Touches vm vm vm.pc vm.memory.length :=
  ⟨rfl, rfl, rfl, id⟩

theorem Touches.trans {pc memory pc' memory' : Nat} (h : Touches vm vm' pc memory)
    (h' : Touches vm' vm'' pc' memory') : Touches vm vm'' pc' memory' :=
  ⟨h'.code.trans h.code, h'.pc, h'.memory, fun hstack => h'.stack (h.stack hstack)⟩

theorem touches_push (vm : EvmInterpreter) (v : U256) :
    Touches vm (vm.push v) vm.pc vm.memory.length := by
  unfold push
  split
  · next h => exact ⟨rfl, rfl, rfl, fun _ => h⟩
  · exact .refl vm

theorem touches_expandMemory (vm : EvmInterpreter) (size : UInt64) :
    Touches vm (vm.expandMemory size) vm.pc (vm.expanded size) := by
  unfold expanded expandMemory
  split
  · exact ⟨rfl, rfl, rfl, id⟩
  · exact .refl vm

theorem pop_eq_ok_iff : vm.pop = .ok (v, vm') ↔
    ∃ stack, vm.stack = v :: stack ∧ vm' = { vm with stack := stack } := by
  unfold pop
  split
  · next hstack => simp [hstack]
  · next v' stack hstack =>
    rw [hstack]
    constructor
    · intro h
      cases h
      exact ⟨stack, rfl, rfl⟩
    · rintro ⟨stack', heq, rfl⟩
      cases heq
      rfl

theorem touches_pop {stack : List U256} (h : vm.stack = v :: stack) :
    Touches vm { vm with stack := stack } vm.pc vm.memory.length := by
  refine ⟨rfl, rfl, rfl, fun hle => ?_⟩
  rw [h, List.length_cons] at hle
  exact Nat.le_of_succ_le hle

theorem touches_binary {f : U256 → U256 → U256} (h : vm.binary f = .ok vm') :
    Touches vm vm' vm.pc vm.memory.length := by
  obtain ⟨⟨a, vm₁⟩, h₁, h⟩ := bind_eq_ok.mp h
  obtain ⟨⟨b, vm₂⟩, h₂, h⟩ := bind_eq_ok.mp h
  cases h
  obtain ⟨stack₁, hstack₁, rfl⟩ := pop_eq_ok_iff.mp h₁
  obtain ⟨stack₂, hstack₂, rfl⟩ := pop_eq_ok_iff.mp h₂
  exact ((touches_pop hstack₁).trans (touches_pop hstack₂)).trans (touches_push _ _)

/-- The test of a destination: a byte of the code at its low 64 bits, and that byte. -/
def Lands (code : List UInt8) (dest : U256) : Prop :=
  dest.lowU64.toNat < code.length ∧ code.getD dest.lowU64.toNat 0 = 0x5B

theorem jumpTo_eq_ok_iff {dest : U256} : vm.jumpTo dest = .ok vm' ↔
    Lands vm.code dest ∧ vm' = { vm with pc := dest.lowU64.toNat + 1 } := by
  by_cases hlands : dest.lowU64.toNat < vm.code.length ∧ vm.code.getD dest.lowU64.toNat 0 = 0x5B
  · have hjump : vm.jumpTo dest = .ok { vm with pc := dest.lowU64.toNat + 1 } := if_pos hlands
    rw [hjump, Except.ok.injEq]
    exact ⟨fun h => ⟨hlands, h.symm⟩, fun h => h.2.symm⟩
  · have hjump : vm.jumpTo dest = .error "Bad jump" := if_neg hlands
    rw [hjump]
    constructor
    · intro h
      cases h
    · intro h
      exact absurd h.1 hlands

theorem touches_jumpTo {dest : U256} (h : vm.jumpTo dest = .ok vm') :
    Touches vm vm' (dest.lowU64.toNat + 1) vm.memory.length := by
  obtain ⟨-, rfl⟩ := jumpTo_eq_ok_iff.mp h
  exact ⟨rfl, rfl, rfl, id⟩

theorem length_writeMemory (memory : List UInt8) (offset : UInt64) (word : U256) :
    (writeMemory memory offset word).length = memory.length := by
  have hfold : ∀ (places : List Nat) (memory : List UInt8),
      (places.foldl (fun memory i =>
        memory.set (offset + UInt64.ofNat i).toNat (word.toBeBytes.toList.getD i 0)) memory).length
      = memory.length := by
    intro places
    induction places with
    | nil => exact fun _ => rfl
    | cons i places ih =>
      intro memory
      rw [List.foldl_cons, ih, List.length_set]
  exact hfold _ memory

theorem touches_writeMemory (vm : EvmInterpreter) (offset : UInt64) (word : U256) :
    Touches vm { vm with memory := writeMemory vm.memory offset word } vm.pc vm.memory.length := by
  -- the written bytes are not looked at, or they would be computed
  have hlength := length_writeMemory vm.memory offset word
  generalize writeMemory vm.memory offset word = written at hlength ⊢
  exact ⟨rfl, rfl, hlength, id⟩

theorem length_swapTop (stack : List U256) (n : Nat) : (swapTop stack n).length = stack.length := by
  rw [swapTop, List.length_set, List.length_set]

theorem touches_finish {reverted : Bool} (h : vm.finish reverted = .ok vm') :
    ∃ o s rest, vm.stack = o :: s :: rest ∧
      Touches vm vm' vm.pc (vm.expanded (o.lowU64 + s.lowU64)) := by
  obtain ⟨⟨o, vm₁⟩, h₁, h⟩ := bind_eq_ok.mp h
  obtain ⟨⟨s, vm₂⟩, h₂, h⟩ := bind_eq_ok.mp h
  cases h
  obtain ⟨stack₁, hstack₁, rfl⟩ := pop_eq_ok_iff.mp h₁
  obtain ⟨stack₂, hstack₂, rfl⟩ := pop_eq_ok_iff.mp h₂
  have hstack₂ : stack₁ = s :: stack₂ := hstack₂
  have hpops := (touches_pop hstack₁).trans (touches_pop hstack₂)
  have hall := hpops.trans (touches_expandMemory _ (o.lowU64 + s.lowU64))
  have hsame : ∀ size, expanded { vm with stack := stack₂ } size = vm.expanded size := by
    intro size
    unfold expanded expandMemory
    dsimp only
    split
    · rfl
    · rfl
  refine ⟨o, s, stack₂, by rw [hstack₁, hstack₂], hall.code, hall.pc, ?_, hall.stack⟩
  rw [← hsame]
  exact hall.memory

/-- **One opcode**, its own byte behind the counter already. -/
theorem touches_step {op : Opcode} (h : vm.step state op = .ok vm') :
    Touches vm vm' (vm.pcAfter op) (vm.memoryAfter op) := by
  have hsame : ∀ (stack : List U256) (size : UInt64),
      expanded { vm with stack := stack } size = vm.expanded size := by
    intro stack size
    unfold expanded expandMemory
    dsimp only
    split
    · rfl
    · rfl
  cases op with
  | stop => cases h; exact ⟨rfl, rfl, rfl, id⟩
  | add => exact touches_binary h
  | mul => exact touches_binary (f := fun a b => (a.checkedMul b).getD U256.ZERO) h
  | sub => exact touches_binary h
  | eq => exact touches_binary (f := fun a b => boolWord (a = b)) h
  | iszero =>
    obtain ⟨⟨a, vm₁⟩, h₁, h⟩ := bind_eq_ok.mp h
    cases h
    obtain ⟨stack, hstack, rfl⟩ := pop_eq_ok_iff.mp h₁
    exact (touches_pop hstack).trans (touches_push _ _)
  | address => cases h; exact touches_push vm _
  | caller => cases h; exact touches_push vm _
  | callvalue => cases h; exact touches_push vm _
  | calldatasize => cases h; exact touches_push vm _
  | codesize => cases h; exact touches_push vm _
  | number => cases h; exact touches_push vm _
  | chainid => cases h; exact touches_push vm _
  | pop =>
    obtain ⟨⟨a, vm₁⟩, h₁, h⟩ := bind_eq_ok.mp h
    cases h
    obtain ⟨stack, hstack, rfl⟩ := pop_eq_ok_iff.mp h₁
    exact touches_pop hstack
  | mload =>
    obtain ⟨⟨o, vm₁⟩, h₁, h⟩ := bind_eq_ok.mp h
    cases h
    obtain ⟨stack, hstack, rfl⟩ := pop_eq_ok_iff.mp h₁
    have hexpand := (touches_pop hstack).trans (touches_expandMemory _ (o.lowU64 + 32))
    have hmemory : vm.memoryAfter .mload = vm.expanded (o.lowU64 + 32) := by
      rw [memoryAfter, request, hstack]
    rw [hmemory, ← hsame stack]
    exact ⟨(touches_push _ _).code.trans hexpand.code, (touches_push _ _).pc.trans hexpand.pc,
      (touches_push _ _).memory, fun hle => (touches_push _ _).stack (hexpand.stack hle)⟩
  | mstore =>
    obtain ⟨⟨o, vm₁⟩, h₁, h⟩ := bind_eq_ok.mp h
    obtain ⟨⟨v, vm₂⟩, h₂, h⟩ := bind_eq_ok.mp h
    cases h
    obtain ⟨stack₁, hstack₁, rfl⟩ := pop_eq_ok_iff.mp h₁
    obtain ⟨stack₂, hstack₂, rfl⟩ := pop_eq_ok_iff.mp h₂
    have hexpand := ((touches_pop hstack₁).trans (touches_pop hstack₂)).trans
      (touches_expandMemory _ (o.lowU64 + 32))
    have hstack₂ : stack₁ = v :: stack₂ := hstack₂
    have hmemory : vm.memoryAfter .mstore = vm.expanded (o.lowU64 + 32) := by
      rw [memoryAfter, request, hstack₁, hstack₂]
    rw [hmemory, ← hsame stack₂]
    have hwrite := touches_writeMemory (expandMemory { vm with stack := stack₂ } (o.lowU64 + 32))
      o.lowU64 v
    exact ⟨hwrite.code.trans hexpand.code, hwrite.pc.trans hexpand.pc, hwrite.memory,
      fun hle => hwrite.stack (hexpand.stack hle)⟩
  | sload =>
    obtain ⟨⟨k, vm₁⟩, h₁, h⟩ := bind_eq_ok.mp h
    cases h
    obtain ⟨stack, hstack, rfl⟩ := pop_eq_ok_iff.mp h₁
    exact (touches_pop hstack).trans (touches_push _ _)
  | sstore =>
    obtain ⟨⟨k, vm₁⟩, h₁, h⟩ := bind_eq_ok.mp h
    obtain ⟨⟨v, vm₂⟩, h₂, h⟩ := bind_eq_ok.mp h
    cases h
    obtain ⟨stack₁, hstack₁, rfl⟩ := pop_eq_ok_iff.mp h₁
    obtain ⟨stack₂, hstack₂, rfl⟩ := pop_eq_ok_iff.mp h₂
    exact (touches_pop hstack₁).trans (touches_pop hstack₂)
  | jump =>
    obtain ⟨⟨d, vm₁⟩, h₁, h⟩ := bind_eq_ok.mp h
    obtain ⟨stack, hstack, rfl⟩ := pop_eq_ok_iff.mp h₁
    rw [pcAfter, hstack]
    exact (touches_pop hstack).trans (touches_jumpTo h)
  | jumpi =>
    obtain ⟨⟨d, vm₁⟩, h₁, h⟩ := bind_eq_ok.mp h
    obtain ⟨⟨c, vm₂⟩, h₂, h⟩ := bind_eq_ok.mp h
    obtain ⟨stack₁, hstack₁, rfl⟩ := pop_eq_ok_iff.mp h₁
    obtain ⟨stack₂, hstack₂, rfl⟩ := pop_eq_ok_iff.mp h₂
    have hstack₂ : stack₁ = c :: stack₂ := hstack₂
    have hpops := (touches_pop hstack₁).trans (touches_pop hstack₂)
    have h : (if c.isZero then pure { vm with stack := stack₂ }
      else jumpTo { vm with stack := stack₂ } d) = Except.ok vm' := h
    rw [pcAfter, hstack₁, hstack₂]
    dsimp only
    split at h
    · next hzero =>
      cases h
      rw [if_pos hzero]
      exact hpops
    · next hzero =>
      rw [if_neg hzero]
      exact hpops.trans (touches_jumpTo h)
  | jumpdest => cases h; exact .refl vm
  | gas => cases h; exact touches_push vm _
  | push n =>
    cases h
    have hpush := touches_push vm (pushWord vm.code vm.pc n)
    exact ⟨hpush.code, rfl, hpush.memory, hpush.stack⟩
  | dup n =>
    have h : (if vm.stack.length < n then Except.error "Underflow"
      else .ok (vm.push (vm.stack.getD (n - 1) U256.ZERO))) = .ok vm' := h
    split at h
    · cases h
    · cases h
      exact touches_push vm _
  | swap n =>
    have h : (if vm.stack.length ≤ n then Except.error "Underflow"
      else .ok { vm with stack := swapTop vm.stack n }) = .ok vm' := h
    split at h
    · cases h
    · cases h
      exact ⟨rfl, rfl, rfl, fun hle => (length_swapTop _ _).trans_le hle⟩
  | ret =>
    obtain ⟨o, s, rest, hstack, htouches⟩ := touches_finish h
    rw [memoryAfter, request, hstack]
    exact htouches
  | revert =>
    obtain ⟨o, s, rest, hstack, htouches⟩ := touches_finish h
    rw [memoryAfter, request, hstack]
    exact htouches
  | unknown => cases h; exact .refl vm

/-- The machine that executes the opcode it has fetched: behind it, and charged. -/
def charged (vm : EvmInterpreter) : EvmInterpreter :=
  { vm with pc := vm.pc + 1, gasUsed := vm.gasUsed + opcodeGas vm.fetched }

theorem step_of_turn (h : Turn next m m') :
    m.1.charged.step m.2 (Opcode.decode m.1.fetched) = .ok m'.1 := by
  obtain ⟨vm₁, hstep, h⟩ := bind_eq_ok.mp (turn_iff.mp h).2
  cases h
  exact hstep

theorem touches_of_turn (h : Turn next m m') :
    Touches m.1 m'.1 (m.1.charged.pcAfter (Opcode.decode m.1.fetched))
      (m.1.memoryAfter (Opcode.decode m.1.fetched)) := by
  have htouches := touches_step (step_of_turn h)
  have hmemory : m.1.charged.memoryAfter (Opcode.decode m.1.fetched)
      = m.1.memoryAfter (Opcode.decode m.1.fetched) := by
    have hexpanded : ∀ size, m.1.charged.expanded size = m.1.expanded size := by
      intro size
      unfold expanded expandMemory charged
      dsimp only
      split
      · rfl
      · rfl
    unfold memoryAfter
    show (match m.1.request _ with | some size => m.1.charged.expanded size | none => _) = _
    split
    · exact hexpanded _
    · rfl
  rw [← hmemory]
  exact ⟨htouches.code, htouches.pc, htouches.memory, htouches.stack⟩

end EvmInterpreter

end Pyrax.Evm
