import Pyrax.Evm.Indexing

/-!
# Gas, memory and the end of a run

A run stops, indexes within range, pays for every opcode and keeps its stack and its memory
within bounds (`Bounded`). The stack and the indices are so in every run; the rest is so
exactly where each opcode about to be executed fits (`runs_bounded`): the gas counter does not
wrap, and the memory asked for, in whole words, is not beyond 32 bytes for each unit of the
gas limit. Nothing in the code looks at that: an `MLOAD` costs 3 wherever it reads
(`load_outgrows_gas`).

The measure of the loop is the gas left, as jumps go back.
-/

namespace Pyrax.Evm

open Base Word Machine

namespace EvmInterpreter

/-- What a run from a machine and a database is to keep to. -/
structure Bounded (start : EvmInterpreter × StateDB) : Prop where
  stops : ∃ fuel, (loop fuel start.1 start.2).isSome
  indexes : ∀ m, Reaches next start m → nextChecked m = some (next m)
  gas : ∀ m, Reaches next start m → m.1.Fetches → m.1.gasUsed < m.1.charged.gasUsed
  stack : ∀ m, Reaches next start m → m.1.stack.length ≤ 1024
  memory : ∀ m, Reaches next start m → m.1.memory.length ≤ 32 * m.1.gasLimit.toNat

/-- The opcode to be executed leaves the gas counter and the memory within bounds. -/
structure Fits (vm : EvmInterpreter) : Prop where
  gas : vm.gasUsed.toNat + (opcodeGas vm.fetched).toNat < 2 ^ 64
  memory : ∀ size, vm.request (Opcode.decode vm.fetched) = some size →
    vm.memory.length < size.toNat → ((size + 31) / 32 * 32).toNat ≤ 32 * vm.gasLimit.toNat

variable {vm : EvmInterpreter} {state : StateDB} {m m' start : EvmInterpreter × StateDB}
  {op : Opcode} {size : UInt64}

theorem expanded_eq (vm : EvmInterpreter) (size : UInt64) : vm.expanded size =
    if vm.memory.length < size.toNat then ((size + 31) / 32 * 32).toNat
    else vm.memory.length := by
  unfold expanded expandMemory
  split
  · exact length_padTo _ _
  · rfl

/-- The counter moves forward unless it wraps. -/
theorem lt_charged_iff (vm : EvmInterpreter) : vm.gasUsed < vm.charged.gasUsed ↔
    vm.gasUsed.toNat + (opcodeGas vm.fetched).toNat < 2 ^ 64 := by
  have hprice := opcodeGas_bounds vm.fetched
  have hused := vm.gasUsed.toNat_lt
  have hsum : vm.charged.gasUsed.toNat
      = (vm.gasUsed.toNat + (opcodeGas vm.fetched).toNat) % 2 ^ 64 := UInt64.toNat_add _ _
  rw [UInt64.lt_iff_toNat_lt, hsum]
  omega

/-- An opcode that asks for memory has its operands, and does not fail. -/
theorem step_of_request (vm : EvmInterpreter) (state : StateDB)
    (h : vm.request op = some size) : ∃ vm', vm.step state op = .ok vm' := by
  unfold request at h
  split at h
  · split at h
    · next o rest hstack =>
      rw [step, pop, hstack]
      exact ⟨_, rfl⟩
    · cases h
  · split at h
    · next o v rest hstack =>
      rw [step, pop, hstack]
      exact ⟨_, rfl⟩
    · cases h
  · split at h
    · next o s rest hstack =>
      rw [step, finish, pop, hstack]
      exact ⟨_, rfl⟩
    · cases h
  · split at h
    · next o s rest hstack =>
      rw [step, finish, pop, hstack]
      exact ⟨_, rfl⟩
    · cases h
  · cases h

theorem turn_of_step {vm' : EvmInterpreter} (hfetch : m.1.Fetches)
    (h : m.1.charged.step m.2 (Opcode.decode m.1.fetched) = .ok vm') : ∃ m', Turn next m m' := by
  refine ⟨(vm', m.1.charged.store m.2 (Opcode.decode m.1.fetched)), turn_iff.mpr ⟨hfetch, ?_⟩⟩
  exact bind_eq_ok.mpr ⟨vm', h, rfl⟩

/-- A turn leaves the memory as it was, or as large as was asked for. -/
theorem length_memory_of_turn (h : Turn next m m') : m'.1.memory.length = m.1.memory.length ∨
    ∃ size, m.1.request (Opcode.decode m.1.fetched) = some size ∧
      m.1.memory.length < size.toNat ∧ m'.1.memory.length = ((size + 31) / 32 * 32).toNat := by
  have hmemory := (touches_of_turn h).memory
  unfold memoryAfter at hmemory
  split at hmemory
  · next size hrequest =>
    rw [expanded_eq] at hmemory
    split at hmemory
    · next hlt => exact .inr ⟨size, hrequest, hlt, hmemory⟩
    · exact .inl hmemory
  · exact .inl hmemory

/-- No run has more than 1024 words on its stack. -/
theorem stack_of_reaches (hstart : start.1.stack = []) (h : Reaches next start m) :
    m.1.stack.length ≤ 1024 := by
  refine h.invariant (P := fun m => m.1.stack.length ≤ 1024) ?_
    fun _ _ _ hstack hturn => (touches_of_turn hturn).stack hstack
  rw [hstart]
  exact Nat.zero_le _

/-- Where opcodes fit, the gas left is less after each turn. -/
theorem left_of_turn (h : Turn next m m') (hfits : m.1.Fits) :
    m'.1.gasLimit.toNat - m'.1.gasUsed.toNat < m.1.gasLimit.toNat - m.1.gasUsed.toNat := by
  have hcharged := charged_of_turn h
  have hfetches := (turn_iff.mp h).1
  have hleft : m.1.gasUsed.toNat < m.1.gasLimit.toNat := hfetches.2
  have hforward : m.1.gasUsed.toNat < m'.1.gasUsed.toNat := by
    rw [hcharged.gasUsed]
    exact (lt_charged_iff m.1).mpr hfits.gas
  rw [hcharged.gasLimit]
  omega

theorem memory_of_turn (h : Turn next m m') (hfits : m.1.Fits)
    (hmemory : m.1.memory.length ≤ 32 * m.1.gasLimit.toNat) :
    m'.1.memory.length ≤ 32 * m'.1.gasLimit.toNat := by
  rw [(charged_of_turn h).gasLimit]
  obtain hsame | ⟨size, hrequest, hlt, hgrown⟩ := length_memory_of_turn h
  · rw [hsame]
    exact hmemory
  · rw [hgrown]
    exact hfits.memory size hrequest hlt

theorem fits_of_bounded (h : Bounded start) (hreach : Reaches next start m)
    (hfetch : m.1.Fetches) : m.1.Fits := by
  refine ⟨(lt_charged_iff m.1).mp (h.gas m hreach hfetch), fun size hrequest hlt => ?_⟩
  obtain ⟨vm', hstep⟩ := step_of_request m.1.charged m.2 hrequest
  obtain ⟨m', hturn⟩ := turn_of_step hfetch hstep
  have hbound := h.memory m' (hreach.tail hturn)
  rw [(charged_of_turn hturn).gasLimit, (touches_of_turn hturn).memory, memoryAfter, hrequest]
    at hbound
  dsimp only at hbound
  rwa [expanded_eq, if_pos hlt] at hbound

theorem bounded_of_fits (hstack : start.1.stack = []) (hmemory : start.1.memory = [])
    (h : ∀ m, Reaches next start m → m.1.Fetches → m.1.Fits) : Bounded start := by
  have hfits : ∀ m m', Reaches next start m → Turn next m m' → m.1.Fits :=
    fun m m' hreach hturn => h m hreach (turn_iff.mp hturn).1
  refine ⟨?_, fun m _ => nextChecked_eq m, ?_, fun m => stack_of_reaches hstack, ?_⟩
  · -- the measure is the gas left
    obtain ⟨fuel, hfuel⟩ := exists_runFor_of_measure
      (fun m : EvmInterpreter × StateDB => m.1.gasLimit.toNat - m.1.gasUsed.toNat) start
      fun m m' hreach hturn => left_of_turn hturn (hfits m m' hreach hturn)
    refine ⟨fuel, ?_⟩
    rw [loop_eq_runFor]
    exact hfuel
  · intro m hreach hfetch
    exact (lt_charged_iff m.1).mpr (h m hreach hfetch).gas
  · intro m hreach
    refine hreach.invariant (P := fun m => m.1.memory.length ≤ 32 * m.1.gasLimit.toNat) ?_
      fun m m' hreach hmemory hturn => memory_of_turn hturn (hfits m m' hreach hturn) hmemory
    rw [hmemory]
    exact Nat.zero_le _

/-- **Every run** of every code, input and gas limit on every database stops, indexes within
range, pays for each opcode and keeps to its stack and its memory, exactly where no opcode it
comes to wraps the gas counter or asks for more memory than the gas limit stands for. -/
theorem runs_bounded (code input : List UInt8) (caller address : Address) (value : U256)
    (gasLimit : UInt64) (ctx : TransactionContext) (state : StateDB) :
    Bounded (new code input caller address value gasLimit ctx, state) ↔
      ∀ m, Reaches next (new code input caller address value gasLimit ctx, state) m →
        m.1.Fetches → m.1.Fits := by
  constructor
  · intro h m hreach hfetch
    exact fits_of_bounded h hreach hfetch
  · exact bounded_of_fits rfl rfl

/-- `PUSH1 0xFF; MLOAD`, with gas for the two and one more. -/
def loadFar : EvmInterpreter :=
  new [0x60, 0xFF, 0x51] [] (Vector.replicate 20 0) (Vector.replicate 20 0) U256.ZERO 7 .default

/-- It reads at 255 for 6 gas, and the memory is 288 bytes long where 7 gas stand for 224. -/
theorem load_outgrows_gas : ¬ Bounded (loadFar, .new) := by
  have hafter : (after next 2 (loadFar, .new)).map
      (fun m => (m.1.memory.length, m.1.gasLimit)) = some (288, 7) := by decide +kernel
  obtain ⟨m, hm, hlengths⟩ := Option.map_eq_some_iff.mp hafter
  obtain ⟨hlength, hlimit⟩ := Prod.mk.inj hlengths
  intro h
  have hmemory := h.memory m (reaches_of_after hm)
  rw [hlength, hlimit] at hmemory
  exact absurd hmemory (by decide)

end EvmInterpreter

end Pyrax.Evm
