import Pyrax.Base.Slice
import Pyrax.Wasm.Runtime

/-!
# The host functions and the memory of the contract

The closures that `register_host_functions` of `pyrax-node/src/wasm/runtime.rs` links, with
the pointers they are called with. A pointer or a length is an `i32` and becomes a `usize` by
sign extension. `read_memory` and `write_memory` compare a sum with the size of the memory,
and the sum wraps: a negative length, or a pointer just below zero, can pass the comparison
and then panics in the slice. `get_caller`, `get_self` and the topics of `emit_log` do not
even compare. And where the comparison fails, the contract is not told: it goes on with no
bytes read or written, and with an answer like any other (`not_told`).

So the host survives exactly the calls with no such access (`safe_iff`), and treats the
contract as it should exactly where every access is in range.
-/

namespace Pyrax.Wasm

open Base

/-- At most 65536 pages of 64 KiB. -/
structure LinearMemory where
  bytes : List UInt8
  fits : bytes.length ≤ 2 ^ 32

namespace LinearMemory

def size (m : LinearMemory) : Nat := m.bytes.length

/-- `data[start..stop].copy_from_slice(src)`. -/
def copy (m : LinearMemory) (start stop : UInt64) (src : List UInt8) : Option LinearMemory :=
  match h : copyInto m.bytes start stop src with
  | some bytes => some ⟨bytes, by rw [length_of_copyInto h]; exact m.fits⟩
  | none => none

def readMemory (m : LinearMemory) (offset len : UInt64) : Option (List UInt8) :=
  if (offset + len).toNat ≤ m.size then slice m.bytes offset (offset + len) else some []

def writeMemory (m : LinearMemory) (offset : UInt64) (data : List UInt8) : Option LinearMemory :=
  if (offset + UInt64.ofNat data.length).toNat ≤ m.size then
    m.copy offset (offset + UInt64.ofNat data.length) data
  else some m

end LinearMemory

/-- `as usize`. -/
def usize (n : Int32) : UInt64 := n.toInt64.toUInt64

/-- `topic.copy_from_slice(&data)`. -/
def copyTopic (data : List UInt8) : Option (Vector UInt8 32) :=
  if h : data.length = 32 then some ⟨data.toArray, h⟩ else none

/-- What a host function is given. -/
structure Caller where
  context : HostContext
  memory : LinearMemory

/-- A call of a host function, as the contract makes it. -/
inductive HostFn where
  | storageRead (keyPtr keyLen valuePtr : Int32)
  | storageWrite (keyPtr keyLen valuePtr valueLen : Int32)
  | emitLog (topicsPtr topicsCount dataPtr dataLen : Int32)
  | getCaller (ptr : Int32)
  | getSelf (ptr : Int32)
  | blake3 (inputPtr inputLen outputPtr : Int32)
  | keccak256 (inputPtr inputLen outputPtr : Int32)
  | debugPrint (msgPtr msgLen : Int32)
  deriving DecidableEq

namespace HostFn

/-- The name it is linked under. -/
def name : HostFn → String
  | storageRead .. => "storage_read"
  | storageWrite .. => "storage_write"
  | emitLog .. => "emit_log"
  | getCaller .. => "get_caller"
  | getSelf .. => "get_self"
  | blake3 .. => "blake3"
  | keccak256 .. => "keccak256"
  | debugPrint .. => "debug_print"

/-- `topics_ptr as usize + (i as usize * 32)`. -/
def topicPtr (topicsPtr : Int32) (i : Nat) : UInt64 := usize topicsPtr + UInt64.ofNat i * 32

def readTopic (memory : LinearMemory) (topicsPtr : Int32) (i : Nat) :
    Option (Vector UInt8 32) := do
  let topicData ← memory.readMemory (topicPtr topicsPtr i) 32
  copyTopic topicData

/-- A hash of a part of the memory, put into the memory. -/
def hashMemory (hash : List UInt8 → H256) (caller : Caller) (inputPtr inputLen outputPtr : Int32) :
    Option (Option Int32 × Caller) := do
  let input ← caller.memory.readMemory (usize inputPtr) (usize inputLen)
  let memory ← caller.memory.writeMemory (usize outputPtr) (hash input).asBytes
  some (none, { caller with memory := memory })

/-- 20 bytes put into the memory, wherever that is. -/
def putAddress (address : Address) (caller : Caller) (ptr : Int32) :
    Option (Option Int32 × Caller) := do
  let memory ← caller.memory.copy (usize ptr) (usize ptr + 20) address.asBytes
  some (none, { caller with memory := memory })

/-- The result, if the function has one, and what it leaves. A panic is `none`. -/
def run (C : Crypto) (caller : Caller) : HostFn → Option (Option Int32 × Caller)
  | storageRead keyPtr keyLen valuePtr => do
    let key ← caller.memory.readMemory (usize keyPtr) (usize keyLen)
    match caller.context.storageRead key with
    | some v =>
      let memory ← caller.memory.writeMemory (usize valuePtr) v
      some (some (Int32.ofNat v.length), { caller with memory := memory })
    | none => some (some (-1), caller)
  | storageWrite keyPtr keyLen valuePtr valueLen => do
    let key ← caller.memory.readMemory (usize keyPtr) (usize keyLen)
    let value ← caller.memory.readMemory (usize valuePtr) (usize valueLen)
    some (none, { caller with context := caller.context.storageWrite key value })
  | emitLog topicsPtr topicsCount dataPtr dataLen => do
    let topics ← (List.range topicsCount.toInt.toNat).mapM (readTopic caller.memory topicsPtr)
    let data ← caller.memory.readMemory (usize dataPtr) (usize dataLen)
    some (none, { caller with context := caller.context.emitLog topics data })
  | getCaller ptr => putAddress caller.context.caller caller ptr
  | getSelf ptr => putAddress caller.context.contractAddress caller ptr
  | blake3 inputPtr inputLen outputPtr => hashMemory C.blake3 caller inputPtr inputLen outputPtr
  | keccak256 inputPtr inputLen outputPtr =>
    hashMemory C.keccak256 caller inputPtr inputLen outputPtr
  | debugPrint msgPtr msgLen => do
    let _ ← caller.memory.readMemory (usize msgPtr) (usize msgLen)
    some (none, caller)

end HostFn

/-! ## Accesses -/

/-- A stretch of the memory that a call reads or writes, and whether it goes on where the
stretch is found to be out of range. -/
structure Access where
  offset : UInt64
  len : Nat
  lenient : Bool

def Access.InRange (a : Access) (size : Nat) : Prop := a.offset.toNat + a.len ≤ size

/-- The host does not survive it. -/
def Access.Crashes (a : Access) (size : Nat) : Prop :=
  if a.lenient then WrapsInto a.offset a.len size else ¬ a.InRange size

instance (a : Access) (size : Nat) : Decidable (a.InRange size) :=
  inferInstanceAs (Decidable (_ ≤ _))

instance (a : Access) (size : Nat) : Decidable (a.Crashes size) :=
  inferInstanceAs (Decidable (if a.lenient then _ else _))

/-- The bytes of a stretch, none where it is out of range. -/
def LinearMemory.bytesAt (m : LinearMemory) (offset len : UInt64) : List UInt8 :=
  if offset.toNat + len.toNat ≤ m.size then (m.bytes.drop offset.toNat).take len.toNat else []

namespace HostFn

/-- What a call reads and writes, in order. -/
def accesses (caller : Caller) : HostFn → List Access
  | storageRead keyPtr keyLen valuePtr =>
    ⟨usize keyPtr, (usize keyLen).toNat, true⟩ ::
      (caller.context.storageRead (caller.memory.bytesAt (usize keyPtr) (usize keyLen))).toList.map
        fun v => ⟨usize valuePtr, v.length, true⟩
  | storageWrite keyPtr keyLen valuePtr valueLen =>
    [⟨usize keyPtr, (usize keyLen).toNat, true⟩, ⟨usize valuePtr, (usize valueLen).toNat, true⟩]
  | emitLog topicsPtr topicsCount dataPtr dataLen =>
    (List.range topicsCount.toInt.toNat).map (fun i => ⟨topicPtr topicsPtr i, 32, false⟩) ++
      [⟨usize dataPtr, (usize dataLen).toNat, true⟩]
  | getCaller ptr => [⟨usize ptr, 20, false⟩]
  | getSelf ptr => [⟨usize ptr, 20, false⟩]
  | blake3 inputPtr inputLen outputPtr =>
    [⟨usize inputPtr, (usize inputLen).toNat, true⟩, ⟨usize outputPtr, 32, true⟩]
  | keccak256 inputPtr inputLen outputPtr =>
    [⟨usize inputPtr, (usize inputLen).toNat, true⟩, ⟨usize outputPtr, 32, true⟩]
  | debugPrint msgPtr msgLen => [⟨usize msgPtr, (usize msgLen).toNat, true⟩]

/-- Every access of the call is in range. -/
def InRange (caller : Caller) (call : HostFn) : Prop :=
  ∀ a ∈ call.accesses caller, a.InRange caller.memory.size

/-- The result tells the contract that something was out of range: no call of the function
with all accesses in range, whatever it finds, has this result. -/
def Told (C : Crypto) (call : HostFn) (result : Option Int32) : Prop :=
  ∀ (other : HostFn) (caller caller' : Caller), other.name = call.name → other.InRange caller →
    other.run C caller ≠ some (result, caller')

/-- The host survives the call, and an access out of range is reported. -/
structure Safe (C : Crypto) (caller : Caller) (call : HostFn) : Prop where
  survives : call.run C caller ≠ none
  reported : ¬ call.InRange caller → ∀ result caller',
    call.run C caller = some (result, caller') → Told C call result

end HostFn

/-! ## What crashes -/

variable {C : Crypto} {caller : Caller} {m : LinearMemory} {offset len : UInt64}

namespace LinearMemory

theorem size_lt (m : LinearMemory) : m.size < 2 ^ 64 :=
  Nat.lt_of_le_of_lt m.fits (by decide)

theorem copy_eq_none_iff {start stop : UInt64} {src : List UInt8} :
    m.copy start stop src = none ↔ copyInto m.bytes start stop src = none := by
  unfold copy
  split <;> simp_all

theorem wrapsInto_not_inRange {len : Nat} (h : WrapsInto offset len m.size) :
    ¬ offset.toNat + len ≤ m.size := by
  have hsize := m.size_lt
  have hwraps := h.1
  omega

/-- `read_memory` panics where the sum wraps into the memory, and reads nothing elsewhere out
of range. -/
theorem readMemory_spec (m : LinearMemory) (offset len : UInt64) :
    (m.readMemory offset len = none ↔ WrapsInto offset len.toNat m.size) ∧
      (¬ WrapsInto offset len.toNat m.size →
        m.readMemory offset len = some (m.bytesAt offset len)) := by
  have hsize := m.size_lt
  have hoffset := offset.toNat_lt
  have hlen := len.toNat_lt
  unfold readMemory
  split
  · next hsum =>
    obtain ⟨hnone, hsome⟩ := slice_sum len hsum
    refine ⟨hnone, fun hwraps => ?_⟩
    have hfits : offset.toNat + len.toNat ≤ m.size := by
      rw [UInt64.toNat_add] at hsum
      unfold WrapsInto at hwraps
      omega
    rw [hsome hwraps, bytesAt, if_pos hfits]
  · next hsum =>
    rw [UInt64.toNat_add] at hsum
    refine ⟨iff_of_false (by simp) fun hwraps => hsum hwraps.2, fun _ => ?_⟩
    rw [bytesAt, if_neg fun hfits => ?_]
    rw [Nat.mod_eq_of_lt (by omega)] at hsum
    exact hsum hfits

theorem readMemory_eq_none_iff :
    m.readMemory offset len = none ↔ WrapsInto offset len.toNat m.size :=
  (m.readMemory_spec offset len).1

theorem writeMemory_eq_none_iff {data : List UInt8} :
    m.writeMemory offset data = none ↔ WrapsInto offset data.length m.size := by
  unfold writeMemory
  split
  · next hsum => rw [copy_eq_none_iff, copyInto_sum_eq_none_iff hsum]; rfl
  · next hsum =>
    rw [toNat_add_ofNat] at hsum
    exact iff_of_false (by simp) fun hwraps => hsum hwraps.2

end LinearMemory

namespace HostFn

theorem bind_eq_none_iff {α β : Type} {o : Option α} {f : α → Option β} :
    (o >>= f) = none ↔ o = none ∨ ∃ x, o = some x ∧ f x = none := by
  cases o with
  | none => simp
  | some x => simp

theorem bind_some_eq_none_iff {α β : Type} {o : Option α} {f : α → β} :
    (o >>= fun x => some (f x)) = none ↔ o = none := by
  cases o with
  | none => simp
  | some x => simp

/-- A topic is copied exactly where its 32 bytes are in range. -/
theorem readTopic_eq_none_iff (m : LinearMemory) (topicsPtr : Int32) (i : Nat) :
    readTopic m topicsPtr i = none ↔ ¬ (topicPtr topicsPtr i).toNat + 32 ≤ m.size := by
  obtain ⟨hnone, hsome⟩ := m.readMemory_spec (topicPtr topicsPtr i) 32
  unfold readTopic
  by_cases hwraps : WrapsInto (topicPtr topicsPtr i) 32 m.size
  · rw [hnone.mpr hwraps]
    exact iff_of_true rfl (LinearMemory.wrapsInto_not_inRange hwraps)
  · rw [hsome hwraps]
    show copyTopic (m.bytesAt (topicPtr topicsPtr i) 32) = none ↔ _
    unfold copyTopic LinearMemory.bytesAt
    rw [dite_eq_right_iff, show UInt64.toNat 32 = 32 from rfl]
    constructor
    · intro hlen hfits
      refine absurd (hlen ?_) (by simp)
      rw [if_pos hfits, List.length_take, List.length_drop]
      have hbytes : m.bytes.length = m.size := rfl
      omega
    · intro hfits hlen
      rw [if_neg hfits] at hlen
      cases hlen

theorem mapM_eq_none_iff {α β : Type} {f : α → Option β} : ∀ {l : List α},
    l.mapM f = none ↔ ∃ x ∈ l, f x = none
  | [] => by simp
  | x :: l => by
    rw [List.mapM_cons, bind_eq_none_iff, List.exists_mem_cons_iff,
      ← mapM_eq_none_iff (l := l)]
    cases hx : f x with
    | none => simp
    | some y =>
      simp only [reduceCtorEq, Option.some.injEq, false_or, exists_eq_left']
      cases hl : l.mapM f with
      | none => simp
      | some ys => simp

theorem putAddress_eq_none_iff (address : Address) (ptr : Int32) :
    putAddress address caller ptr = none ↔ ¬ (usize ptr).toNat + 20 ≤ caller.memory.size := by
  have hlen : address.asBytes.length = 20 := address.asBytes_length
  have hcopy : copyInto caller.memory.bytes (usize ptr)
      (usize ptr + UInt64.ofNat address.asBytes.length) address.asBytes = none ↔ _ :=
    copyInto_eq_none_iff caller.memory.size_lt (by rw [hlen]; decide)
  rw [hlen] at hcopy
  rw [putAddress, bind_eq_none_iff, LinearMemory.copy_eq_none_iff,
    show (20 : UInt64) = UInt64.ofNat 20 from rfl, hcopy]
  simp [LinearMemory.size]

theorem hashMemory_eq_none_iff (hash : List UInt8 → H256) (inputPtr inputLen outputPtr : Int32) :
    hashMemory hash caller inputPtr inputLen outputPtr = none ↔
      WrapsInto (usize inputPtr) (usize inputLen).toNat caller.memory.size ∨
        WrapsInto (usize outputPtr) 32 caller.memory.size := by
  have hwrite : ∀ input : List UInt8,
      caller.memory.writeMemory (usize outputPtr) (hash input).asBytes = none ↔
        WrapsInto (usize outputPtr) 32 caller.memory.size := by
    intro input
    rw [LinearMemory.writeMemory_eq_none_iff, H256.asBytes_length]
  obtain ⟨hnone, hsome⟩ := caller.memory.readMemory_spec (usize inputPtr) (usize inputLen)
  rw [hashMemory, bind_eq_none_iff, hnone]
  by_cases hwraps : WrapsInto (usize inputPtr) (usize inputLen).toNat caller.memory.size
  · exact iff_of_true (.inl hwraps) (.inl hwraps)
  · rw [hsome hwraps]
    simp only [Option.some.injEq, exists_eq_left', bind_some_eq_none_iff, hwrite]

/-- **What the host does not survive.** -/
theorem run_eq_none_iff (C : Crypto) (caller : Caller) (call : HostFn) :
    call.run C caller = none ↔ ∃ a ∈ call.accesses caller, a.Crashes caller.memory.size := by
  cases call with
  | storageRead keyPtr keyLen valuePtr =>
    obtain ⟨hnone, hsome⟩ := caller.memory.readMemory_spec (usize keyPtr) (usize keyLen)
    rw [run, bind_eq_none_iff, hnone, accesses, List.exists_mem_cons_iff]
    by_cases hwraps : WrapsInto (usize keyPtr) (usize keyLen).toNat caller.memory.size
    · exact iff_of_true (.inl hwraps) (.inl hwraps)
    · rw [hsome hwraps]
      simp only [Option.some.injEq, exists_eq_left', Access.Crashes, hwraps, if_true, false_or]
      cases caller.context.storageRead (caller.memory.bytesAt (usize keyPtr) (usize keyLen)) with
      | none => simp
      | some v =>
        dsimp only
        rw [bind_some_eq_none_iff, LinearMemory.writeMemory_eq_none_iff]
        simp
  | storageWrite keyPtr keyLen valuePtr valueLen =>
    obtain ⟨hnone, hsome⟩ := caller.memory.readMemory_spec (usize keyPtr) (usize keyLen)
    rw [run, bind_eq_none_iff, hnone, accesses, List.exists_mem_cons_iff]
    by_cases hwraps : WrapsInto (usize keyPtr) (usize keyLen).toNat caller.memory.size
    · exact iff_of_true (.inl hwraps) (.inl hwraps)
    · rw [hsome hwraps]
      simp only [Option.some.injEq, exists_eq_left', bind_some_eq_none_iff,
        LinearMemory.readMemory_eq_none_iff]
      simp [Access.Crashes, hwraps]
  | emitLog topicsPtr topicsCount dataPtr dataLen =>
    rw [run, bind_eq_none_iff, mapM_eq_none_iff]
    simp only [readTopic_eq_none_iff, accesses, List.mem_append, List.mem_map, List.mem_singleton]
    constructor
    · rintro (⟨i, hi, hout⟩ | ⟨topics, _, hdata⟩)
      · exact ⟨_, .inl ⟨i, hi, rfl⟩, hout⟩
      · refine ⟨_, .inr rfl, ?_⟩
        rwa [bind_some_eq_none_iff, LinearMemory.readMemory_eq_none_iff] at hdata
    · rintro ⟨a, ⟨i, hi, rfl⟩ | rfl, hcrash⟩
      · exact .inl ⟨i, hi, hcrash⟩
      · cases htopics :
            (List.range topicsCount.toInt.toNat).mapM (readTopic caller.memory topicsPtr) with
        | none =>
          obtain ⟨i, hi, hout⟩ := mapM_eq_none_iff.mp htopics
          exact .inl ⟨i, hi, (readTopic_eq_none_iff _ _ _).mp hout⟩
        | some topics =>
          refine .inr ⟨topics, rfl, ?_⟩
          rw [bind_some_eq_none_iff, LinearMemory.readMemory_eq_none_iff]
          exact hcrash
  | getCaller ptr =>
    rw [run, putAddress_eq_none_iff]
    simp [accesses, Access.Crashes, Access.InRange]
  | getSelf ptr =>
    rw [run, putAddress_eq_none_iff]
    simp [accesses, Access.Crashes, Access.InRange]
  | blake3 inputPtr inputLen outputPtr =>
    rw [run, hashMemory_eq_none_iff]
    simp [accesses, Access.Crashes]
  | keccak256 inputPtr inputLen outputPtr =>
    rw [run, hashMemory_eq_none_iff]
    simp [accesses, Access.Crashes]
  | debugPrint msgPtr msgLen =>
    rw [run, bind_some_eq_none_iff, LinearMemory.readMemory_eq_none_iff]
    simp [accesses, Access.Crashes]

/-! ## What a call asks of the context -/

/-- The call with the bytes it reads, as the host context serves it. -/
def served (caller : Caller) : HostFn → HostCall
  | storageRead keyPtr keyLen _ =>
    .storageRead (caller.memory.bytesAt (usize keyPtr) (usize keyLen))
  | storageWrite keyPtr keyLen valuePtr valueLen =>
    .storageWrite (caller.memory.bytesAt (usize keyPtr) (usize keyLen))
      (caller.memory.bytesAt (usize valuePtr) (usize valueLen))
  | emitLog topicsPtr topicsCount dataPtr dataLen =>
    .emitLog ((List.range topicsCount.toInt.toNat).map fun i =>
        arrayFromSlice 32 (caller.memory.bytesAt (topicPtr topicsPtr i) 32))
      (caller.memory.bytesAt (usize dataPtr) (usize dataLen))
  | getCaller _ => .getCaller
  | getSelf _ => .getSelf
  | blake3 inputPtr inputLen _ =>
    .blake3 (caller.memory.bytesAt (usize inputPtr) (usize inputLen))
  | keccak256 inputPtr inputLen _ =>
    .keccak256 (caller.memory.bytesAt (usize inputPtr) (usize inputLen))
  | debugPrint msgPtr msgLen => .debugPrint (caller.memory.bytesAt (usize msgPtr) (usize msgLen))

theorem readMemory_eq_some {data : List UInt8} (h : m.readMemory offset len = some data) :
    data = m.bytesAt offset len := by
  obtain ⟨hnone, hsome⟩ := m.readMemory_spec offset len
  by_cases hwraps : WrapsInto offset len.toNat m.size
  · rw [hnone.mpr hwraps] at h
    cases h
  · exact Option.some.inj (h.symm.trans (hsome hwraps))

theorem readTopic_eq_some {topicsPtr : Int32} {i : Nat} {topic : Vector UInt8 32}
    (h : readTopic m topicsPtr i = some topic) :
    topic = arrayFromSlice 32 (m.bytesAt (topicPtr topicsPtr i) 32) := by
  obtain ⟨data, hdata, htopic⟩ := Option.bind_eq_some_iff.mp h
  unfold copyTopic at htopic
  split at htopic
  · next hlen =>
    cases htopic
    rw [← readMemory_eq_some hdata]
    exact (arrayFromSlice_toList _).symm
  · cases htopic

theorem mapM_eq_some_map {α β : Type} {f : α → Option β} {g : α → β}
    (hf : ∀ x y, f x = some y → y = g x) : ∀ {l : List α} {ys : List β},
      l.mapM f = some ys → ys = l.map g
  | [], ys, h => (Option.some.inj h).symm
  | x :: l, ys, h => by
    rw [List.mapM_cons] at h
    obtain ⟨y, hy, h⟩ := Option.bind_eq_some_iff.mp h
    obtain ⟨ys', hys, h⟩ := Option.bind_eq_some_iff.mp h
    rw [← Option.some.inj h, hf x y hy, mapM_eq_some_map hf hys]
    rfl

/-- A call that the host survives does to the context what the host function does that is
given the bytes. -/
theorem run_context {call : HostFn} {result : Option Int32} {caller' : Caller}
    (h : call.run C caller = some (result, caller')) :
    caller'.context = (caller.context.serve C (call.served caller)).1 := by
  cases call with
  | storageRead keyPtr keyLen valuePtr =>
    obtain ⟨key, _, h⟩ := Option.bind_eq_some_iff.mp h
    split at h
    · obtain ⟨memory, _, h⟩ := Option.bind_eq_some_iff.mp h
      cases h
      rfl
    · cases h
      rfl
  | storageWrite keyPtr keyLen valuePtr valueLen =>
    obtain ⟨key, hkey, h⟩ := Option.bind_eq_some_iff.mp h
    obtain ⟨value, hvalue, h⟩ := Option.bind_eq_some_iff.mp h
    cases h
    rw [readMemory_eq_some hkey, readMemory_eq_some hvalue]
    rfl
  | emitLog topicsPtr topicsCount dataPtr dataLen =>
    obtain ⟨topics, htopics, h⟩ := Option.bind_eq_some_iff.mp h
    obtain ⟨data, hdata, h⟩ := Option.bind_eq_some_iff.mp h
    cases h
    rw [readMemory_eq_some hdata, mapM_eq_some_map (fun _ _ => readTopic_eq_some) htopics]
    rfl
  | getCaller ptr =>
    obtain ⟨memory, _, h⟩ := Option.bind_eq_some_iff.mp h
    cases h
    rfl
  | getSelf ptr =>
    obtain ⟨memory, _, h⟩ := Option.bind_eq_some_iff.mp h
    cases h
    rfl
  | blake3 inputPtr inputLen outputPtr =>
    obtain ⟨input, _, h⟩ := Option.bind_eq_some_iff.mp h
    obtain ⟨memory, _, h⟩ := Option.bind_eq_some_iff.mp h
    cases h
    rfl
  | keccak256 inputPtr inputLen outputPtr =>
    obtain ⟨input, _, h⟩ := Option.bind_eq_some_iff.mp h
    obtain ⟨memory, _, h⟩ := Option.bind_eq_some_iff.mp h
    cases h
    rfl
  | debugPrint msgPtr msgLen =>
    obtain ⟨message, _, h⟩ := Option.bind_eq_some_iff.mp h
    cases h
    rfl

/-! ## What is not reported -/

/-- The same function, all pointers and lengths zero. -/
def zeroed : HostFn → HostFn
  | storageRead .. => storageRead 0 0 0
  | storageWrite .. => storageWrite 0 0 0 0
  | emitLog .. => emitLog 0 0 0 0
  | getCaller _ => getCaller 0
  | getSelf _ => getSelf 0
  | blake3 .. => blake3 0 0 0
  | keccak256 .. => keccak256 0 0 0
  | debugPrint .. => debugPrint 0 0

theorem name_zeroed (call : HostFn) : call.zeroed.name = call.name := by
  cases call <;> rfl

/-- Only `storage_read` has a result. -/
def answers : HostFn → Bool
  | storageRead .. => true
  | _ => false

theorem answers_zeroed (call : HostFn) : call.zeroed.answers = call.answers := by
  cases call <;> rfl

theorem isSome_of_bind {α : Type} {o : Option α} {f : α → Option Int32 × Caller}
    {result : Option Int32} {caller' : Caller} {b : Bool} (hf : ∀ x, (f x).1.isSome = b)
    (h : (o >>= fun x => some (f x)) = some (result, caller')) : result.isSome = b := by
  obtain ⟨x, _, hx⟩ := Option.bind_eq_some_iff.mp h
  rw [← hf x, Option.some.inj hx]

theorem isSome_result {call : HostFn} {result : Option Int32} {caller' : Caller}
    (h : call.run C caller = some (result, caller')) : result.isSome = call.answers := by
  cases call with
  | storageRead keyPtr keyLen valuePtr =>
    obtain ⟨key, _, h⟩ := Option.bind_eq_some_iff.mp h
    split at h
    · exact isSome_of_bind (fun _ => rfl) h
    · cases h
      rfl
  | storageWrite keyPtr keyLen valuePtr valueLen =>
    obtain ⟨key, _, h⟩ := Option.bind_eq_some_iff.mp h
    exact isSome_of_bind (fun _ => rfl) h
  | emitLog topicsPtr topicsCount dataPtr dataLen =>
    obtain ⟨topics, _, h⟩ := Option.bind_eq_some_iff.mp h
    exact isSome_of_bind (fun _ => rfl) h
  | getCaller ptr => exact isSome_of_bind (fun _ => rfl) h
  | getSelf ptr => exact isSome_of_bind (fun _ => rfl) h
  | blake3 inputPtr inputLen outputPtr =>
    obtain ⟨input, _, h⟩ := Option.bind_eq_some_iff.mp h
    exact isSome_of_bind (fun _ => rfl) h
  | keccak256 inputPtr inputLen outputPtr =>
    obtain ⟨input, _, h⟩ := Option.bind_eq_some_iff.mp h
    exact isSome_of_bind (fun _ => rfl) h
  | debugPrint msgPtr msgLen => exact isSome_of_bind (fun _ => rfl) h

/-- What is in range does not crash. -/
theorem InRange.survives {call : HostFn} (h : call.InRange caller) : call.run C caller ≠ none := by
  rw [Ne, run_eq_none_iff]
  rintro ⟨a, ha, hcrash⟩
  have hin := h a ha
  unfold Access.Crashes at hcrash
  split at hcrash
  · exact LinearMemory.wrapsInto_not_inRange hcrash hin
  · exact hcrash hin

/-- A contract with some storage and a memory of zeros. -/
def callerWith (storage : ContractStorage) (size : Nat) (h : size ≤ 2 ^ 32) : Caller where
  context := HostContext.new 0 Address.ZERO Address.ZERO 0 0 storage
  memory := ⟨List.replicate size 0, by rwa [List.length_replicate]⟩

instance (caller : Caller) (call : HostFn) : Decidable (call.InRange caller) :=
  inferInstanceAs (Decidable (∀ a ∈ call.accesses caller, a.InRange caller.memory.size))

theorem zeroed_inRange (call : HostFn) :
    call.zeroed.InRange (callerWith .new 32 (by decide)) := by
  cases call <;> dsimp only [zeroed] <;> decide

/-- `storage_read` has every number as a result in range: the lengths, and -1. -/
theorem storageRead_answers (C : Crypto) (code : Int32) :
    ∃ caller caller', (storageRead 0 0 0).InRange caller ∧
      (storageRead 0 0 0).run C caller = some (some code, caller') := by
  by_cases hnone : code = -1
  · subst hnone
    exact ⟨callerWith .new 0 (by decide), _, by decide, rfl⟩
  · have hlt : code.toUInt32.toNat < 2 ^ 32 := code.toUInt32.toNat_lt
    generalize hn : code.toUInt32.toNat = n at hlt
    have hfits : n ≤ 2 ^ 32 := by omega
    let caller := callerWith (ContractStorage.new.set Address.ZERO [] (List.replicate n 0)) n hfits
    have hsize : caller.memory.size = n := List.length_replicate ..
    have hkey : caller.memory.bytesAt (usize 0) (usize 0) = [] := by
      unfold LinearMemory.bytesAt
      split <;> rfl
    have hread : caller.context.storageRead [] = some (List.replicate n 0) := by
      show (ContractStorage.new.set Address.ZERO [] (List.replicate n 0)).get Address.ZERO [] = _
      rw [ContractStorage.get_set, if_pos ⟨rfl, rfl⟩]
    have hin : (storageRead 0 0 0).InRange caller := by
      intro a ha
      rw [accesses, hkey, hread] at ha
      rw [hsize]
      rcases List.mem_cons.mp ha with rfl | ha
      · exact Nat.zero_le n
      · cases List.mem_singleton.mp ha
        show (usize 0).toNat + (List.replicate n (0 : UInt8)).length ≤ n
        rw [List.length_replicate]
        exact Nat.le_of_eq (Nat.zero_add n)
    obtain ⟨⟨result, caller'⟩, hrun⟩ := Option.ne_none_iff_exists'.mp (hin.survives (C := C))
    refine ⟨caller, caller', hin, ?_⟩
    rw [hrun]
    have hwraps : ¬ WrapsInto (usize 0) (usize 0).toNat caller.memory.size := by
      intro hwraps
      exact absurd hwraps.1 (by decide)
    rw [run, (caller.memory.readMemory_spec _ _).2 hwraps, hkey, Option.bind_eq_bind,
      Option.bind_some, hread] at hrun
    dsimp only at hrun
    rw [Option.bind_eq_bind, Option.bind_eq_some_iff] at hrun
    obtain ⟨memory, _, hrun⟩ := hrun
    cases hrun
    rw [List.length_replicate, ← hn]
    have hcode : Int32.ofNat code.toUInt32.toNat = code := by
      refine Int32.toBitVec_inj.mp ?_
      show BitVec.ofNat 32 code.toBitVec.toNat = code.toBitVec
      rw [BitVec.ofNat_toNat, BitVec.setWidth_eq]
    rw [hcode]

/-- **The contract cannot know.** Whatever result a call has, some call of the same function
with all accesses in range has it too. -/
theorem not_told {call : HostFn} {result : Option Int32} {caller' : Caller}
    (h : call.run C caller = some (result, caller')) : ¬ Told C call result := by
  intro htold
  have hanswers := isSome_result h
  cases result with
  | none =>
    have hin := call.zeroed_inRange
    obtain ⟨⟨result', caller''⟩, hrun⟩ := Option.ne_none_iff_exists'.mp (hin.survives (C := C))
    have hsame := (isSome_result hrun).trans (call.answers_zeroed.trans hanswers.symm)
    cases result' with
    | none => exact htold _ _ _ call.name_zeroed hin hrun
    | some code => cases hsame
  | some code =>
    have hzeroed : call.zeroed = storageRead 0 0 0 := by
      cases call with
      | storageRead keyPtr keyLen valuePtr => rfl
      | _ => cases hanswers
    obtain ⟨found, found', hin, hrun⟩ := storageRead_answers C code
    exact htold _ _ _ (hzeroed ▸ call.name_zeroed) hin hrun

/-- So a call is as it should be exactly where all its accesses are in range. -/
theorem safe_iff_inRange {call : HostFn} : Safe C caller call ↔ call.InRange caller := by
  constructor
  · intro hsafe
    by_contra hout
    obtain ⟨⟨result, caller'⟩, hrun⟩ := Option.ne_none_iff_exists'.mp hsafe.survives
    exact not_told hrun (hsafe.reported hout result caller' hrun)
  · intro hin
    exact ⟨hin.survives, fun hout => absurd hin hout⟩

/-- **Contracts and the host.** The host survives exactly the calls without an access that
crashes, and reports what is out of range as well exactly where nothing is. -/
theorem safe_iff (C : Crypto) (caller : Caller) (call : HostFn) :
    (call.run C caller ≠ none ↔ ∀ a ∈ call.accesses caller, ¬ a.Crashes caller.memory.size) ∧
      (Safe C caller call ↔ call.InRange caller) := by
  refine ⟨?_, safe_iff_inRange⟩
  rw [Ne, run_eq_none_iff]
  simp only [not_exists, not_and]

/-! ## One page -/

/-- A contract with a memory of one page and nothing in its storage. -/
def onePage : Caller := callerWith .new 65536 (by decide)

theorem onePage_size : onePage.memory.size = 65536 := List.length_replicate ..

/-- The last 16 bytes are too few for an address, a key of length -1 ends before it begins, and
a key behind the memory is looked up as the empty one. -/
theorem onePage_unsafe :
    (getCaller 65520).run (Crypto.ofTable []) onePage = none ∧
      (storageWrite 8 (-1) 0 0).run (Crypto.ofTable []) onePage = none ∧
      ¬ Safe (Crypto.ofTable []) onePage (storageRead 65536 4 0) := by
  refine ⟨?_, ?_, ?_⟩
  · rw [run_eq_none_iff, onePage_size]
    exact ⟨_, List.mem_singleton_self _, by decide⟩
  · rw [run_eq_none_iff, onePage_size]
    exact ⟨_, List.mem_cons_self .., by decide⟩
  · rw [safe_iff_inRange]
    intro hin
    have hkey := hin _ (List.mem_cons_self ..)
    rw [onePage_size] at hkey
    exact absurd hkey (by decide)

end HostFn

end Pyrax.Wasm
