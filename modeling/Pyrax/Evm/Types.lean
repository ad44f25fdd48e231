import Mathlib.Algebra.Order.Ring.Nat
import Pyrax.Base.Limbs
import Pyrax.Types.Primitives

/-!
# Words and transactions of the EVM

`pyrax-node/src/evm/types.rs`. A `U256` is four 64-bit limbs, the lowest first, with
its arithmetic written out limb by limb; `toNat` is the number it stands for, and
every operation is the one on numbers until it would leave 256 bits
(`checkedAdd_eq_some_iff`, `checkedSub_eq_some_iff`, `checkedMul_fromU64`).

`checked_mul` sums its columns in `u128`, which is too narrow for two full columns:
it is exact for the products of two `u64`, the only ones the gas accounting takes.
-/

namespace Pyrax.Evm

open Base Word Limbs

/-- `Address = [u8; 20]`. -/
abbrev Address := Vector UInt8 20

/-- `B256 = [u8; 32]`. -/
abbrev B256 := Vector UInt8 32

structure U256 where
  limbs : Vector UInt64 4
  deriving DecidableEq

namespace U256

def ZERO : U256 := ⟨#v[0, 0, 0, 0]⟩
def ONE : U256 := ⟨#v[1, 0, 0, 0]⟩
def MAX : U256 := ⟨Vector.replicate 4 0xFFFFFFFFFFFFFFFF⟩

/-- `U256(result)`, the array filled by a loop. -/
def ofLoop (limbs : List UInt64) : U256 := ⟨Vector.ofFn fun i => limbs.getD i.val 0⟩

def fromBeBytes (bytes : B256) : U256 :=
  ⟨Vector.ofFn fun i => Word.fromBeBytes ((bytes.toList.drop ((3 - i.val) * 8)).take 8)⟩

def toBeBytes (a : U256) : B256 :=
  arrayFromSlice 32 (a.limbs.toList.reverse.flatMap Word.toBeBytes)

def fromU64 (value : UInt64) : U256 := ⟨#v[value, 0, 0, 0]⟩

def lowU64 (a : U256) : UInt64 := a.limbs[0]

def isZero (a : U256) : Bool := a.limbs.toList.all (· = 0)

def checkedAdd (a b : U256) : Option U256 :=
  let (result, carry) := walk addLimb a.limbs.toList b.limbs.toList 0
  if 0 < carry then none else some (ofLoop result)

def checkedSub (a b : U256) : Option U256 :=
  let (result, borrow) := walk subLimb a.limbs.toList b.limbs.toList 0
  if 0 < borrow then none else some (ofLoop result)

/-- `result[k]` before the carries: the products of limbs whose places add to `k`. -/
def column (a b : U256) (k : Nat) : Nat :=
  ((List.range (k + 1)).map fun i =>
    (a.limbs.toList.getD i 0).toNat * (b.limbs.toList.getD (k - i) 0).toNat).sum % 2 ^ 128

/-- Propagate carries. -/
def carryColumns : List Nat → Nat → List UInt64 × Nat
  | [], carry => ([], carry)
  | column :: columns, carry =>
    let sum := (column + carry) % 2 ^ 128
    let (limbs, last) := carryColumns columns (sum / 2 ^ 64)
    (UInt64.ofNat sum :: limbs, last)

def checkedMul (a b : U256) : Option U256 :=
  -- two limbs whose product has no place
  if ∃ i j : Fin 4, a.limbs[i] ≠ 0 ∧ 4 ≤ i.val + j.val ∧ b.limbs[j] ≠ 0 then none
  else
    let (result, carry) := carryColumns ((List.range 4).map (column a b)) 0
    if 0 < carry then none else some (ofLoop result)

def saturatingAdd (a b : U256) : U256 := (a.checkedAdd b).getD MAX

def saturatingSub (a b : U256) : U256 := (a.checkedSub b).getD ZERO

/-! ## Numbers -/

/-- The number of a word. -/
def toNat (a : U256) : Nat := value a.limbs.toList

theorem toNat_lt (a : U256) : a.toNat < 2 ^ 256 := by
  have h := value_lt a.limbs.toList
  rwa [Vector.length_toList] at h

theorem toNat_inj {a b : U256} (h : a.toNat = b.toNat) : a = b := by
  have hlimbs := value_inj (by rw [Vector.length_toList, Vector.length_toList]) h
  cases a
  cases b
  simpa [Vector.toList_inj] using hlimbs

theorem toList_ofLoop {limbs : List UInt64} (h : limbs.length = 4) :
    (ofLoop limbs).limbs.toList = limbs := by
  refine List.ext_getElem (by rw [Vector.length_toList, h]) fun i h₁ h₂ => ?_
  simp [ofLoop, List.getElem?_eq_getElem h₂]

theorem toNat_ofLoop {limbs : List UInt64} (h : limbs.length = 4) :
    (ofLoop limbs).toNat = value limbs := by
  rw [toNat, toList_ofLoop h]

@[simp] theorem toNat_zero : ZERO.toNat = 0 := rfl

@[simp] theorem toNat_max : MAX.toNat = 2 ^ 256 - 1 := by decide +kernel

@[simp] theorem toNat_fromU64 (x : UInt64) : (fromU64 x).toNat = x.toNat := by
  show x.toNat + 2 ^ 64 * (0 + 2 ^ 64 * (0 + 2 ^ 64 * (0 + 2 ^ 64 * 0))) = x.toNat
  omega

theorem isZero_iff {a : U256} : a.isZero = true ↔ a.toNat = 0 := by
  have hzero : a.isZero = true ↔ a.limbs.toList = List.replicate 4 0 := by
    rw [isZero, List.all_eq_true, List.eq_replicate_iff, Vector.length_toList]
    simp
  rw [hzero]
  constructor
  · intro h
    rw [toNat, h, value_replicate_zero]
  · intro h
    refine value_inj (by rw [Vector.length_toList, List.length_replicate]) ?_
    rw [value_replicate_zero]
    exact h

/-- The loop of `checked_add` and what is left over. -/
theorem add_loop (a b : U256) :
    value (walk addLimb a.limbs.toList b.limbs.toList 0).1
        + 2 ^ 256 * (walk addLimb a.limbs.toList b.limbs.toList 0).2.toNat
      = a.toNat + b.toNat := by
  have h := @walk_addLimb a.limbs.toList b.limbs.toList 0
    (by rw [Vector.length_toList, Vector.length_toList]) (Nat.zero_le 1)
  rwa [Vector.length_toList] at h

theorem sub_loop (a b : U256) :
    a.toNat + 2 ^ 256 * (walk subLimb a.limbs.toList b.limbs.toList 0).2.toNat
      = value (walk subLimb a.limbs.toList b.limbs.toList 0).1 + b.toNat := by
  have h := @walk_subLimb a.limbs.toList b.limbs.toList 0
    (by rw [Vector.length_toList, Vector.length_toList]) (Nat.zero_le 1)
  rwa [Vector.length_toList] at h

theorem length_loop (f : UInt64 → UInt64 → UInt64 → UInt64 × UInt64) (a b : U256) :
    (walk f a.limbs.toList b.limbs.toList 0).1.length = 4 := by
  rw [length_walk f 0 (by rw [Vector.length_toList, Vector.length_toList]), Vector.length_toList]

/-- What a loop returns: its limbs, if nothing is left over. -/
theorem checked_eq_some_iff {result : List UInt64} {carry : UInt64} {c : U256}
    (h : result.length = 4) :
    (if 0 < carry then none else some (ofLoop result)) = some c ↔
      carry.toNat = 0 ∧ value result = c.toNat := by
  rw [← toNat_ofLoop h]
  split
  · next hcarry =>
    have hpos : 0 < carry.toNat := UInt64.lt_iff_toNat_lt.mp hcarry
    refine iff_of_false nofun fun hzero => ?_
    omega
  · next hcarry =>
    have hzero : carry.toNat = 0 := by
      by_contra hne
      exact hcarry (UInt64.lt_iff_toNat_lt.mpr (Nat.pos_of_ne_zero hne))
    rw [Option.some.injEq]
    constructor
    · rintro rfl
      exact ⟨hzero, rfl⟩
    · rintro ⟨_, hvalue⟩
      exact toNat_inj hvalue

theorem checkedAdd_eq_some_iff {a b c : U256} :
    a.checkedAdd b = some c ↔ a.toNat + b.toNat = c.toNat := by
  have hloop := add_loop a b
  have hresult := length_loop addLimb a b
  have hc := c.toNat_lt
  refine (checked_eq_some_iff hresult).trans ?_
  have hfits := value_lt (walk addLimb a.limbs.toList b.limbs.toList 0).1
  rw [hresult] at hfits
  omega

theorem checkedSub_eq_some_iff {a b c : U256} :
    a.checkedSub b = some c ↔ a.toNat = c.toNat + b.toNat := by
  have hloop := sub_loop a b
  have hresult := length_loop subLimb a b
  have ha := a.toNat_lt
  refine (checked_eq_some_iff hresult).trans ?_
  have hfits := value_lt (walk subLimb a.limbs.toList b.limbs.toList 0).1
  rw [hresult] at hfits
  omega

/-- The word of a number below `2 ^ 256`. -/
theorem exists_toNat {n : Nat} (h : n < 2 ^ 256) : ∃ a : U256, a.toNat = n := by
  refine ⟨ofLoop [.ofNat n, .ofNat (n / 2 ^ 64), .ofNat (n / 2 ^ 128), .ofNat (n / 2 ^ 192)], ?_⟩
  rw [toNat_ofLoop rfl]
  simp only [value, UInt64.toNat_ofNat']
  omega

theorem checkedAdd_eq_none_iff {a b : U256} :
    a.checkedAdd b = none ↔ 2 ^ 256 ≤ a.toNat + b.toNat := by
  rw [Option.eq_none_iff_forall_ne_some]
  constructor
  · intro h
    by_contra hlt
    obtain ⟨c, hc⟩ := exists_toNat (Nat.lt_of_not_le hlt)
    exact h c (checkedAdd_eq_some_iff.mpr hc.symm)
  · intro hle c hc
    have hlt := c.toNat_lt
    rw [checkedAdd_eq_some_iff] at hc
    omega

theorem checkedSub_eq_none_iff {a b : U256} : a.checkedSub b = none ↔ a.toNat < b.toNat := by
  rw [Option.eq_none_iff_forall_ne_some]
  constructor
  · intro h
    by_contra hle
    have ha := a.toNat_lt
    obtain ⟨c, hc⟩ := exists_toNat (show a.toNat - b.toNat < 2 ^ 256 by omega)
    exact h c (checkedSub_eq_some_iff.mpr (by omega))
  · intro hlt c hc
    rw [checkedSub_eq_some_iff] at hc
    omega

theorem toNat_saturatingAdd (a b : U256) :
    (a.saturatingAdd b).toNat = min (a.toNat + b.toNat) (2 ^ 256 - 1) := by
  unfold saturatingAdd
  cases hsum : a.checkedAdd b with
  | none =>
    rw [checkedAdd_eq_none_iff] at hsum
    rw [Option.getD_none, toNat_max]
    omega
  | some c =>
    rw [checkedAdd_eq_some_iff] at hsum
    have hc := c.toNat_lt
    rw [Option.getD_some]
    omega

theorem toNat_saturatingAdd_of_lt {a b : U256} (h : a.toNat + b.toNat < 2 ^ 256) :
    (a.saturatingAdd b).toNat = a.toNat + b.toNat := by
  rw [toNat_saturatingAdd]
  omega

theorem mul_toNat_lt (x y : UInt64) : x.toNat * y.toNat < 2 ^ 128 :=
  calc x.toNat * y.toNat ≤ x.toNat * 2 ^ 64 := Nat.mul_le_mul_left _ y.toNat_lt.le
    _ < 2 ^ 64 * 2 ^ 64 := Nat.mul_lt_mul_of_pos_right x.toNat_lt (by decide)
    _ = 2 ^ 128 := by decide

theorem columns_fromU64 (x y : UInt64) :
    (List.range 4).map (column (fromU64 x) (fromU64 y)) = [x.toNat * y.toNat, 0, 0, 0] := by
  have hfirst : column (fromU64 x) (fromU64 y) 0 = x.toNat * y.toNat := by
    show (x.toNat * y.toNat + 0) % 2 ^ 128 = _
    exact Nat.mod_eq_of_lt (mul_toNat_lt x y)
  have hlater : ∀ k ∈ [1, 2, 3], column (fromU64 x) (fromU64 y) k = 0 := by
    intro k hk
    simp only [List.mem_cons, List.not_mem_nil, or_false] at hk
    rcases hk with rfl | rfl | rfl <;> simp [column, fromU64, List.range_succ]
  show [_, _, _, _] = _
  rw [hfirst, hlater 1 (by decide), hlater 2 (by decide), hlater 3 (by decide)]

/-- Two `u64` are multiplied exactly. -/
theorem checkedMul_fromU64 (x y : UInt64) :
    ∃ c, (fromU64 x).checkedMul (fromU64 y) = some c ∧ c.toNat = x.toNat * y.toNat := by
  have hproduct := mul_toNat_lt x y
  have hplaces : ¬ ∃ i j : Fin 4, (fromU64 x).limbs[i] ≠ 0 ∧ 4 ≤ i.val + j.val ∧
      (fromU64 y).limbs[j] ≠ 0 := by
    rintro ⟨i, j, hi, hij, -⟩
    have hj := j.isLt
    match i with
    | 0 => exact absurd hij (by simp)
    | 1 | 2 | 3 => exact hi rfl
  have hcarries : carryColumns [x.toNat * y.toNat, 0, 0, 0] 0
      = ([.ofNat (x.toNat * y.toNat), .ofNat (x.toNat * y.toNat / 2 ^ 64), 0, 0], 0) := by
    have h₀ : (x.toNat * y.toNat + 0) % 2 ^ 128 = x.toNat * y.toNat := by omega
    have h₁ : (0 + x.toNat * y.toNat / 2 ^ 64) % 2 ^ 128 = x.toNat * y.toNat / 2 ^ 64 := by omega
    have h₂ : x.toNat * y.toNat / 2 ^ 64 / 2 ^ 64 = 0 := by omega
    simp only [carryColumns, h₀, h₁, h₂]
    rfl
  refine ⟨ofLoop [.ofNat (x.toNat * y.toNat), .ofNat (x.toNat * y.toNat / 2 ^ 64), 0, 0], ?_, ?_⟩
  · rw [checkedMul, if_neg hplaces, columns_fromU64, hcarries]
    rfl
  · rw [toNat_ofLoop rfl]
    simp only [value, UInt64.toNat_ofNat', UInt64.toNat_zero]
    omega

/-! ## Bytes -/

theorem toList_toBeBytes (a : U256) :
    a.toBeBytes.toList = a.limbs.toList.reverse.flatMap Word.toBeBytes := by
  refine toList_arrayFromSlice ?_
  simp [List.length_flatMap]

theorem toBeBytes_inj {a b : U256} (h : a.toBeBytes = b.toBeBytes) : a = b := by
  have hbytes := congrArg Vector.toList h
  rw [toList_toBeBytes, toList_toBeBytes] at hbytes
  have hmap := Wire.map_eq_of_flatMap_eq_of_width (by decide) length_toBeBytes hbytes
  have hlimbs := List.reverse_injective (List.map_injective_iff.mpr (fun _ _ => Word.toBeBytes_inj)
    hmap)
  cases a
  cases b
  simpa [Vector.toList_inj] using hlimbs

end U256

/-! ## Transactions -/

structure AccessListItem where
  address : Address
  storageKeys : List B256
  deriving DecidableEq

structure EvmTransaction where
  txType : UInt8
  chainId : UInt64
  nonce : UInt64
  maxPriorityFeePerGas : UInt64
  maxFeePerGas : UInt64
  gasLimit : UInt64
  /-- `to`; without it the transaction makes a contract. -/
  recipient : Option Address
  value : U256
  input : List UInt8
  accessList : List AccessListItem
  v : UInt64
  r : B256
  s : B256
  deriving DecidableEq

namespace EvmTransaction

def hash (C : Crypto) (tx : EvmTransaction) : B256 :=
  (C.blake3 (tx.txType :: Word.toBeBytes tx.chainId ++ Word.toBeBytes tx.nonce ++
    Word.toBeBytes tx.maxPriorityFeePerGas ++ Word.toBeBytes tx.maxFeePerGas ++
    Word.toBeBytes tx.gasLimit ++ (tx.recipient.map Vector.toList).getD [] ++
    tx.value.toBeBytes.toList ++ tx.input)).bytes

def effectiveGasPrice (tx : EvmTransaction) (baseFee : UInt64) : UInt64 :=
  let priorityFee := min tx.maxPriorityFeePerGas (Word.saturatingSub tx.maxFeePerGas baseFee)
  Word.saturatingAdd baseFee priorityFee

/-- `gas_limit * max_fee`, as it is charged in advance. -/
def maxGasCost (tx : EvmTransaction) : U256 :=
  ((U256.fromU64 tx.gasLimit).checkedMul (U256.fromU64 tx.maxFeePerGas)).getD U256.MAX

def maxCost (tx : EvmTransaction) : U256 := (tx.maxGasCost.checkedAdd tx.value).getD U256.MAX

theorem toNat_maxGasCost (tx : EvmTransaction) :
    tx.maxGasCost.toNat = tx.gasLimit.toNat * tx.maxFeePerGas.toNat := by
  obtain ⟨c, hc, hvalue⟩ := U256.checkedMul_fromU64 tx.gasLimit tx.maxFeePerGas
  rw [maxGasCost, hc]
  exact hvalue

/-- Up to its bound, the most a transaction can cost is gas and value. -/
theorem toNat_maxCost (tx : EvmTransaction) :
    tx.maxCost.toNat = min (tx.gasLimit.toNat * tx.maxFeePerGas.toNat + tx.value.toNat)
      (2 ^ 256 - 1) := by
  rw [← toNat_maxGasCost]
  exact U256.toNat_saturatingAdd tx.maxGasCost tx.value

/-- Where the base fee is covered, the price is the base fee and the tip, up to the
most the sender pays. -/
theorem toNat_effectiveGasPrice {tx : EvmTransaction} {baseFee : UInt64}
    (h : baseFee ≤ tx.maxFeePerGas) :
    (tx.effectiveGasPrice baseFee).toNat
      = min (baseFee.toNat + tx.maxPriorityFeePerGas.toNat) tx.maxFeePerGas.toNat := by
  rw [UInt64.le_iff_toNat_le] at h
  have hmax := tx.maxFeePerGas.toNat_lt
  have hmin : (min tx.maxPriorityFeePerGas (Word.saturatingSub tx.maxFeePerGas baseFee)).toNat
      = min tx.maxPriorityFeePerGas.toNat (tx.maxFeePerGas.toNat - baseFee.toNat) := by
    rw [toNat_min, toNat_saturatingSub]
  rw [effectiveGasPrice, toNat_saturatingAdd_of_lt (by omega), hmin]
  omega

end EvmTransaction

structure SignedTransaction where
  transaction : EvmTransaction
  signatureHash : B256
  sender : Address
  deriving DecidableEq

namespace SignedTransaction

def new (C : Crypto) (transaction : EvmTransaction) (sender : Address) : SignedTransaction :=
  ⟨transaction, transaction.hash C, sender⟩

def hash (tx : SignedTransaction) : B256 := tx.signatureHash

def recoverSender (tx : SignedTransaction) : Option Address := some tx.sender

end SignedTransaction

end Pyrax.Evm
