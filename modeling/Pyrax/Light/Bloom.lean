import Mathlib.Algebra.Order.Ring.Nat
import Pyrax.Base.BitPack

/-!
# The bloom filter of a light client

`pyrax-node/src/light_client/bloom.rs`. An item sets `hash_count` bits, each at its hash
modulo `size`. On the wire the bits go by eights, and whoever decodes them takes the number
of bits that came for the size. So the peer looks at the hashes modulo a larger number
unless the size was a multiple of eight, and finds an item only where those places happen
to be set (`noFalseNegatives_iff`). `AddressFilter::new` makes a filter of 1438 bits for a
rate of one in a thousand.

The hasher of the standard library is a parameter: `hash` is what it finishes with on an
item and a seed. A filter of size zero divides by zero, which panics (`none`). The sizes
that `with_fp_rate` gets from floating-point arithmetic are arguments.
-/

namespace Pyrax.Light

open Base

/-- Filter and size agree from the constructors on. -/
structure BloomFilter where
  bits : List Bool
  size : Nat
  hashCount : Nat
  length_bits : bits.length = size

namespace BloomFilter

def new (size hashCount : Nat) : BloomFilter where
  bits := List.replicate size false
  size := size
  hashCount := hashCount
  length_bits := List.length_replicate ..

def setBit (f : BloomFilter) (idx : Nat) : BloomFilter :=
  { f with
    bits := f.bits.set idx true
    length_bits := by rw [List.length_set, f.length_bits] }

section

variable {T : Type} (hash : T → Nat → UInt64)

def hashIndex (f : BloomFilter) (item : T) (seed : Nat) : Option Nat :=
  if f.size = 0 then none else some ((hash item seed).toNat % f.size)

/-- One turn of the loop of `add`. -/
def addAt (item : T) (f : BloomFilter) (i : Nat) : Option BloomFilter :=
  (f.hashIndex hash item i).map f.setBit

def add (f : BloomFilter) (item : T) : Option BloomFilter :=
  (List.range f.hashCount).foldlM (addAt hash item) f

/-- The loop of `contains` over the seeds that are left. -/
def containsFrom (f : BloomFilter) (item : T) : List Nat → Option Bool
  | [] => some true
  | i :: seeds => do
    let idx ← f.hashIndex hash item i
    if f.bits.getD idx false then f.containsFrom item seeds else some false

def contains (f : BloomFilter) (item : T) : Option Bool :=
  f.containsFrom hash item (List.range f.hashCount)

/-- The items one after the other. -/
def addAll (f : BloomFilter) (items : List T) : Option BloomFilter := items.foldlM (add hash) f

end

def toBytes (f : BloomFilter) : List UInt8 := BitPack.pack f.bits

def fromBytes (bytes : List UInt8) (hashCount : Nat) : BloomFilter where
  bits := BitPack.unpack bytes
  size := (BitPack.unpack bytes).length
  hashCount := hashCount
  length_bits := rfl

/-- Every item that was added is found, in the filter and in what a peer decodes. -/
def NoFalseNegatives {T : Type} (hash : T → Nat → UInt64) (size hashCount : Nat)
    (items : List T) : Prop :=
  ∃ f, (new size hashCount).addAll hash items = some f ∧ ∀ x ∈ items,
    f.contains hash x = some true ∧ (fromBytes f.toBytes hashCount).contains hash x = some true

/-- The places of the items in the longer filter are among those that were set in the
shorter one. -/
def Covered {T : Type} (hash : T → Nat → UInt64) (size hashCount : Nat) (items : List T) : Prop :=
  ∀ x ∈ items, ∀ i < hashCount, ∃ y ∈ items, ∃ j < hashCount,
    (hash y j).toNat % size = (hash x i).toNat % (8 * ((size + 7) / 8))

/-! ## What is set -/

/-- One bit. -/
def has (f : BloomFilter) (j : Nat) : Bool := f.bits.getD j false

@[simp] theorem size_setBit (f : BloomFilter) (idx : Nat) : (f.setBit idx).size = f.size := rfl

@[simp] theorem hashCount_setBit (f : BloomFilter) (idx : Nat) :
    (f.setBit idx).hashCount = f.hashCount := rfl

theorem has_setBit (f : BloomFilter) {idx : Nat} (h : idx < f.size) (j : Nat) :
    (f.setBit idx).has j = (f.has j || decide (idx = j)) := by
  rw [has, has, List.getD_eq_getElem?_getD, List.getD_eq_getElem?_getD]
  show ((f.bits.set idx true)[j]?).getD false = _
  rw [List.getElem?_set, f.length_bits]
  by_cases hj : idx = j
  · rw [if_pos hj, if_pos h, decide_eq_true hj, Bool.or_true]
    rfl
  · rw [if_neg hj, decide_eq_false hj, Bool.or_false]

theorem has_new (size hashCount j : Nat) : (new size hashCount).has j = false := by
  show (List.replicate size false).getD j false = false
  rw [List.getD_eq_getElem?_getD, List.getElem?_replicate]
  split <;> rfl

variable {T : Type} {hash : T → Nat → UInt64} {f : BloomFilter}

/-- What `add` does over some of the seeds: the filter keeps its shape, and the bits at the
hashes are set beside those that were. -/
theorem addAt_foldlM (hash : T → Nat → UInt64) (hsize : 0 < f.size) (x : T) (seeds : List Nat) :
    ∃ g, seeds.foldlM (addAt hash x) f = some g ∧ g.size = f.size ∧ g.hashCount = f.hashCount ∧
      ∀ j, g.has j = true ↔ f.has j = true ∨ ∃ i ∈ seeds, (hash x i).toNat % f.size = j := by
  induction seeds generalizing f with
  | nil =>
    refine ⟨f, rfl, rfl, rfl, fun j => ?_⟩
    simp
  | cons i seeds ih =>
    have hindex : f.hashIndex hash x i = some ((hash x i).toNat % f.size) :=
      if_neg (Nat.ne_of_gt hsize)
    have hlt := Nat.mod_lt (hash x i).toNat hsize
    obtain ⟨g, hg, hgsize, hgcount, hhas⟩ := ih (f := f.setBit ((hash x i).toNat % f.size)) hsize
    refine ⟨g, ?_, hgsize, hgcount, fun j => ?_⟩
    · rw [List.foldlM_cons, addAt, hindex]
      exact hg
    · rw [hhas, has_setBit f hlt, size_setBit, Bool.or_eq_true, decide_eq_true_iff, or_assoc,
        List.exists_mem_cons_iff]

theorem add_spec (hash : T → Nat → UInt64) (hsize : 0 < f.size) (x : T) :
    ∃ g, f.add hash x = some g ∧ g.size = f.size ∧ g.hashCount = f.hashCount ∧
      ∀ j, g.has j = true ↔
        f.has j = true ∨ ∃ i < f.hashCount, (hash x i).toNat % f.size = j := by
  obtain ⟨g, hg, hgsize, hgcount, hhas⟩ := addAt_foldlM hash hsize x (List.range f.hashCount)
  refine ⟨g, hg, hgsize, hgcount, fun j => ?_⟩
  simpa only [List.mem_range] using hhas j

theorem addAll_spec (hash : T → Nat → UInt64) (hsize : 0 < f.size) (items : List T) :
    ∃ g, f.addAll hash items = some g ∧ g.size = f.size ∧ g.hashCount = f.hashCount ∧
      ∀ j, g.has j = true ↔ f.has j = true ∨
        ∃ y ∈ items, ∃ i < f.hashCount, (hash y i).toNat % f.size = j := by
  induction items generalizing f with
  | nil =>
    refine ⟨f, rfl, rfl, rfl, fun j => ?_⟩
    simp
  | cons x items ih =>
    obtain ⟨f', hf', hsize', hcount', hhas'⟩ := add_spec hash hsize x
    obtain ⟨g, hg, hgsize, hgcount, hhas⟩ := ih (f := f') (by rwa [hsize'])
    refine ⟨g, ?_, hgsize.trans hsize', hgcount.trans hcount', fun j => ?_⟩
    · rw [addAll, List.foldlM_cons, hf']
      exact hg
    · rw [hhas, hhas', hsize', hcount', or_assoc, List.exists_mem_cons_iff]

/-- An item is found exactly where all its bits are set. -/
theorem contains_eq_true_iff (hsize : 0 < f.size) (x : T) :
    f.contains hash x = some true ↔
      ∀ i < f.hashCount, f.has ((hash x i).toNat % f.size) = true := by
  have hloop : ∀ seeds, f.containsFrom hash x seeds = some true ↔
      ∀ i ∈ seeds, f.has ((hash x i).toNat % f.size) = true := by
    intro seeds
    induction seeds with
    | nil => simp [containsFrom]
    | cons i seeds ih =>
      have hindex : f.hashIndex hash x i = some ((hash x i).toNat % f.size) :=
        if_neg (Nat.ne_of_gt hsize)
      rw [containsFrom, hindex, List.forall_mem_cons, ← ih]
      show (if f.has _ then _ else _) = _ ↔ _
      split
      · next hset => simp [hset]
      · next hset => simp [hset]
  rw [contains, hloop]
  simp only [List.mem_range]

/-- The filter that a peer decodes: the same bits, in a longer filter. -/
theorem size_fromBytes (f : BloomFilter) (hashCount : Nat) :
    (fromBytes f.toBytes hashCount).size = 8 * ((f.size + 7) / 8) := by
  show (BitPack.unpack (BitPack.pack f.bits)).length = _
  rw [BitPack.length_unpack, BitPack.length_pack, f.length_bits]

theorem has_fromBytes (f : BloomFilter) (hashCount : Nat) {j : Nat}
    (hj : j < 8 * ((f.size + 7) / 8)) : (fromBytes f.toBytes hashCount).has j = f.has j := by
  show (BitPack.unpack (BitPack.pack f.bits)).getD j false = _
  rw [List.getD_eq_getElem?_getD, BitPack.unpack_pack _ (by rwa [f.length_bits])]
  rfl

variable {size hashCount : Nat} {items : List T}

/-- The filter itself finds what was added. The peer finds it exactly where its places are
covered. -/
theorem addAll_contains (hash : T → Nat → UInt64) (hashCount : Nat) (items : List T)
    (hsize : 0 < size) :
    ∃ f, (new size hashCount).addAll hash items = some f ∧
      (∀ x ∈ items, f.contains hash x = some true) ∧
      ((∀ x ∈ items, (fromBytes f.toBytes hashCount).contains hash x = some true) ↔
        Covered hash size hashCount items) := by
  obtain ⟨f, hf, hfsize, hfcount, hhas⟩ :=
    addAll_spec hash (f := new size hashCount) hsize items
  have hset : ∀ j, f.has j = true ↔
      ∃ y ∈ items, ∃ i < hashCount, (hash y i).toNat % size = j := by
    intro j
    rw [hhas, has_new]
    simp [new]
  have hfsize' : f.size = size := hfsize
  have hfcount' : f.hashCount = hashCount := hfcount
  refine ⟨f, hf, fun x hx => ?_, ?_⟩
  · rw [contains_eq_true_iff (by omega), hfsize', hfcount']
    intro i hi
    exact (hset _).mpr ⟨x, hx, i, hi, rfl⟩
  · refine forall₂_congr fun x hx => ?_
    have hlong : 0 < 8 * ((f.size + 7) / 8) := by omega
    rw [contains_eq_true_iff (by rwa [size_fromBytes]), size_fromBytes]
    refine forall₂_congr fun i hi => ?_
    rw [has_fromBytes f hashCount (Nat.mod_lt _ hlong), hset, hfsize']

/-- Nothing is rounded up, and every place is its own. -/
theorem covered_of_dvd (hash : T → Nat → UInt64) (hashCount : Nat) (items : List T)
    (h : size % 8 = 0) : Covered hash size hashCount items := by
  intro x hx i hi
  refine ⟨x, hx, i, hi, ?_⟩
  rw [show 8 * ((size + 7) / 8) = size by omega]

/-- In every other filter there is an item to miss. -/
theorem exists_not_covered (hsize : size < 2 ^ 64) (h : size % 8 ≠ 0) (hcount : 0 < hashCount) :
    ∃ hash : Unit → Nat → UInt64, ¬ Covered hash size hashCount [()] := by
  refine ⟨fun _ _ => UInt64.ofNat size, fun hcovered => ?_⟩
  obtain ⟨y, _, j, _, hplace⟩ := hcovered () (List.mem_singleton_self _) 0 hcount
  rw [UInt64.toNat_ofNat_of_lt' hsize, Nat.mod_self, Nat.mod_eq_of_lt (by omega)] at hplace
  omega

end BloomFilter

/-! ## Watched addresses -/

/-- `[u8; 20]`. -/
abbrev RawAddress := Vector UInt8 20

structure AddressFilter where
  filter : BloomFilter
  addresses : List RawAddress

namespace AddressFilter

variable (hash : RawAddress → Nat → UInt64)

/-- With the size and the number of hashes that follow from the rate. -/
def new (size hashCount : Nat) : AddressFilter := ⟨.new size hashCount, []⟩

def addAddress (w : AddressFilter) (address : RawAddress) : Option AddressFilter := do
  let filter ← w.filter.add hash address
  some ⟨filter, w.addresses ++ [address]⟩

def getFilterBytes (w : AddressFilter) : List UInt8 := w.filter.toBytes

/-- A peer that decodes the filter finds every watched address. -/
def PeerFinds (size hashCount : Nat) (addresses : List RawAddress) : Prop :=
  ∃ w, addresses.foldlM (addAddress hash) (new size hashCount) = some w ∧ ∀ address ∈ addresses,
    (BloomFilter.fromBytes w.getFilterBytes hashCount).contains hash address = some true

/-- The filter goes its own way. -/
theorem filter_addAddresses (addresses : List RawAddress) : ∀ w : AddressFilter,
    (addresses.foldlM (addAddress hash) w).map AddressFilter.filter
      = w.filter.addAll hash addresses := by
  induction addresses with
  | nil => exact fun _ => rfl
  | cons address addresses ih =>
    intro w
    rw [BloomFilter.addAll, List.foldlM_cons, List.foldlM_cons, addAddress]
    cases w.filter.add hash address with
    | none => rfl
    | some filter => exact ih ⟨filter, w.addresses ++ [address]⟩

end AddressFilter

/-- **No false negatives** on the wire, exactly where the places of the items in the longer
filter are covered; in particular for the addresses that a peer is sent. -/
theorem BloomFilter.noFalseNegatives_iff {T : Type} (hash : T → Nat → UInt64)
    (addressHash : RawAddress → Nat → UInt64) (size hashCount : Nat) (items : List T)
    (addresses : List RawAddress) (hsize : 1 ≤ size) :
    (NoFalseNegatives hash size hashCount items ↔ Covered hash size hashCount items) ∧
      (AddressFilter.PeerFinds addressHash size hashCount addresses ↔
        Covered addressHash size hashCount addresses) := by
  constructor
  · obtain ⟨f, hf, hown, hpeer⟩ := addAll_contains hash hashCount items hsize
    rw [← hpeer]
    constructor
    · rintro ⟨f', hf', hall⟩ x hx
      cases hf.symm.trans hf'
      exact (hall x hx).2
    · intro hall
      exact ⟨f, hf, fun x hx => ⟨hown x hx, hall x hx⟩⟩
  · obtain ⟨f, hf, -, hpeer⟩ := addAll_contains addressHash hashCount addresses hsize
    rw [← hpeer]
    have hfilter := AddressFilter.filter_addAddresses addressHash addresses
      (.new size hashCount)
    rw [show (AddressFilter.new size hashCount).filter = new size hashCount from rfl, hf,
      Option.map_eq_some_iff] at hfilter
    obtain ⟨w, hw, rfl⟩ := hfilter
    constructor
    · rintro ⟨w', hw', hall⟩
      cases hw.symm.trans hw'
      exact hall
    · intro hall
      exact ⟨w, hw, hall⟩

/-! ## One address -/

def watchedAddress : RawAddress := Vector.replicate 20 1

/-- What the hasher finishes with on the address and each of ten seeds. -/
def watchedHash (address : RawAddress) (seed : Nat) : UInt64 :=
  if address = watchedAddress then
    [0x6afa0e5e6a37b5f3, 0xc440b363496d1b57, 0x457d1ad912c1f2d4, 0x751eea3cfad9b74e,
      0xfa2eafbf6e05225e, 0x544bbcbb5f6e7e32, 0x52eab84ea0cfb224, 0x6c474890a990c467,
      0x901ffb3ead650efc, 0x54c44e5dbe7b8d54].getD seed 0
  else 0

/-- In a filter of whole bytes the peer finds it. -/
theorem BloomFilter.noFalseNegatives_iff_watched :
    NoFalseNegatives watchedHash 64 3 [watchedAddress] ∧
      AddressFilter.PeerFinds watchedHash 64 3 [watchedAddress] := by
  obtain ⟨hown, hpeer⟩ := noFalseNegatives_iff watchedHash watchedHash 64 3 [watchedAddress]
    [watchedAddress] (by decide)
  have hcovered : Covered watchedHash 64 3 [watchedAddress] := covered_of_dvd watchedHash 3 _ rfl
  exact ⟨hown.mpr hcovered, hpeer.mpr hcovered⟩

/-- The filter of `AddressFilter::new(0.001)`, one address in it: the peer does not find it. -/
theorem AddressFilter.watched_missed :
    ¬ AddressFilter.PeerFinds watchedHash 1438 10 [watchedAddress] := by
  rintro ⟨w, hw, hall⟩
  obtain ⟨f, hf, -, hpeer⟩ := BloomFilter.addAll_contains watchedHash 10 [watchedAddress]
    (show 0 < 1438 by decide)
  have hfilter := filter_addAddresses watchedHash [watchedAddress] (.new 1438 10)
  rw [hw, show (AddressFilter.new 1438 10).filter = BloomFilter.new 1438 10 from rfl, hf,
    Option.map_some, Option.some.injEq] at hfilter
  rw [getFilterBytes, hfilter] at hall
  obtain ⟨y, hy, hplace⟩ := hpeer.mp hall watchedAddress (List.mem_singleton_self _) 0 (by decide)
  rw [List.mem_singleton] at hy
  rw [hy] at hplace
  exact absurd hplace (by decide +kernel)

end Pyrax.Light
