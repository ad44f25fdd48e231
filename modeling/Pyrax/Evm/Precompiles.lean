import Pyrax.Evm.Types

/-!
# Precompiled contracts

`pyrax-node/src/evm/precompiles.rs`: twelve functions at fixed addresses, each with a
price in gas. What they call in other crates stands in `Curves` (elliptic curves) and
`Crypto` (hashes); BLAKE2's compression is the repository's own and is written out.

Eleven of them check the gas against the price first and then charge the price,
whether they succeed or not: `metered` says it once. `blake2f` looks at the length of
its input before that. All an executor needs to know is `gasUsed_le_of_success`: what
succeeds has stayed within its gas.

`G1Affine::new` and `G2Affine::new` assert that the point is on the curve, so the
`None` after them is never reached: a point off the curve panics. A panic is `none`
here.
-/

namespace Pyrax.Evm

open Base Word

structure PrecompileResult where
  success : Bool
  output : List UInt8
  gasUsed : UInt64
  deriving DecidableEq

namespace PrecompileResult

def ofSuccess (output : List UInt8) (gasUsed : UInt64) : PrecompileResult := ⟨true, output, gasUsed⟩

def error (gasUsed : UInt64) : PrecompileResult := ⟨false, [], gasUsed⟩

end PrecompileResult

/-- What is called in `secp256k1` and `ark_bn254`. -/
structure Curves where
  /-- From a digest, `r || s` and a recovery id to the uncompressed public key. -/
  recoverEcdsa : List UInt8 → List UInt8 → Nat → Option (Vector UInt8 65)
  G1 : Type
  G2 : Type
  g1Identity : G1
  /-- `G1Affine::new` of two coordinates in bytes. -/
  g1New : List UInt8 → List UInt8 → Option G1
  /-- `is_on_curve() && is_in_correct_subgroup_assuming_on_curve()`. -/
  g1Valid : G1 → Bool
  g1IsZero : G1 → Bool
  g1Add : G1 → G1 → G1
  /-- By a scalar in bytes, taken modulo the order. -/
  g1Mul : G1 → List UInt8 → G1
  g1X : G1 → Vector UInt8 32
  g1Y : G1 → Vector UInt8 32
  g2Identity : G2
  /-- `G2Affine::new` of the real and imaginary parts of two coordinates. -/
  g2New : List UInt8 → List UInt8 → List UInt8 → List UInt8 → Option G2
  g2Valid : G2 → Bool
  /-- `multi_pairing(..).is_zero()`. -/
  pairingIsZero : List G1 → List G2 → Bool

/-- Curves without points, for inputs that call none of it. -/
def Curves.none : Curves where
  recoverEcdsa _ _ _ := Option.none
  G1 := Unit
  G2 := Unit
  g1Identity := ()
  g1New _ _ := Option.none
  g1Valid _ := false
  g1IsZero _ := true
  g1Add _ _ := ()
  g1Mul _ _ := ()
  g1X _ := Vector.replicate 32 0
  g1Y _ := Vector.replicate 32 0
  g2Identity := ()
  g2New _ _ _ _ := Option.none
  g2Valid _ := false
  pairingIsZero _ _ := false

/-- How a precompile ends once it is paid for: it panics, fails or returns bytes. -/
inductive Outcome where
  | panics
  | fails
  | returns (output : List UInt8)

/-- The price checked against the gas, then charged. -/
def metered (gasCost gasLimit : UInt64) (outcome : Outcome) : Option PrecompileResult :=
  if gasLimit < gasCost then some (.error gasLimit)
  else match outcome with
    | .panics => none
    | .fails => some (.error gasCost)
    | .returns output => some (.ofSuccess output gasCost)

/-- A price that grows with the words of the input. -/
def wordGas (base perWord : UInt64) (input : List UInt8) : UInt64 :=
  base + perWord * UInt64.ofNat ((input.length + 31) / 32)

/-- `bytes[start..start + len]`. -/
def slice (bytes : List UInt8) (start len : Nat) : List UInt8 := (bytes.drop start).take len

/-- Cut or padded with zeros to a length. -/
def padTo (len : Nat) (bytes : List UInt8) : List UInt8 :=
  bytes.take len ++ List.replicate (len - bytes.length) 0

/-- `vec![0u8; 32]` with a last byte. -/
def flag (byte : UInt8) : List UInt8 := List.replicate 31 0 ++ [byte]

namespace Precompiles

/-! ## Hashes, identity and signatures -/

def ecrecoverOutput (K : Curves) (C : Crypto) (input : List UInt8) : List UInt8 :=
  let v := input.getD 63 0
  if v = 27 ∨ v = 0 ∨ v = 28 ∨ v = 1 then
    let recoveryId := if v = 27 ∨ v = 0 then 0 else 1
    match K.recoverEcdsa (slice input 0 32) (slice input 64 64) recoveryId with
    | none => List.replicate 32 0
    | some pubkey =>
      List.replicate 12 0 ++ (C.keccak256 (pubkey.toList.drop 1)).asBytes.drop 12
  else List.replicate 32 0

def ecrecover (K : Curves) (C : Crypto) (input : List UInt8) (gasLimit : UInt64) :
    Option PrecompileResult :=
  let padded := if input.length < 128 then padTo 128 input else input
  metered 3000 gasLimit (.returns (ecrecoverOutput K C padded))

def sha256 (C : Crypto) (input : List UInt8) (gasLimit : UInt64) : Option PrecompileResult :=
  metered (wordGas 60 12 input) gasLimit (.returns (C.sha256 input).toList)

def ripemd160 (C : Crypto) (input : List UInt8) (gasLimit : UInt64) : Option PrecompileResult :=
  metered (wordGas 600 120 input) gasLimit
    (.returns (List.replicate 12 0 ++ (C.ripemd160 input).toList))

def identity (input : List UInt8) (gasLimit : UInt64) : Option PrecompileResult :=
  metered (wordGas 15 3 input) gasLimit (.returns input)

def blake3 (C : Crypto) (input : List UInt8) (gasLimit : UInt64) : Option PrecompileResult :=
  metered (wordGas 30 6 input) gasLimit (.returns (C.blake3 input).asBytes)

/-! ## Modular exponentiation -/

/-- `BigUint::from_bytes_be`. -/
def beNat (bytes : List UInt8) : Nat := Wire.leNat bytes.reverse

def modexpOutput (input : List UInt8) : List UInt8 :=
  if input.length < 96 then []
  else
    -- the lengths are read from bytes 24 to 27 of their words
    let baseLen := beNat (slice input 24 4)
    let expLen := beNat (slice input 56 4)
    let modLen := beNat (slice input 88 4)
    if modLen = 0 then []
    else
      let padded := if input.length < 96 + baseLen + expLen + modLen
        then padTo (96 + baseLen + expLen + modLen) input else input
      let base := beNat (slice padded 96 baseLen)
      let exp := beNat (slice padded (96 + baseLen) expLen)
      let modulus := beNat (slice padded (96 + baseLen + expLen) modLen)
      if modulus = 0 then List.replicate modLen 0
      -- the result is below the modulus, so its bytes fit
      else (Wire.leBytes modLen (base ^ exp % modulus)).reverse

def modexp (input : List UInt8) (gasLimit : UInt64) : Option PrecompileResult :=
  metered 200 gasLimit (.returns (modexpOutput input))

/-! ## BN128 -/

section

variable (K : Curves)

/-- `parse_g1_point`; the outer `none` is the panic of `G1Affine::new`. -/
def parseG1Point (data : List UInt8) : Option (Option K.G1) :=
  if data.length ≠ 64 then some none
  else if data.all (· = 0) then some (some K.g1Identity)
  else (K.g1New (slice data 0 32) (slice data 32 32)).map fun point =>
    if K.g1Valid point then some point else none

def parseG2Point (data : List UInt8) : Option (Option K.G2) :=
  if data.length ≠ 128 then some none
  else if data.all (· = 0) then some (some K.g2Identity)
  else (K.g2New (slice data 32 32) (slice data 0 32) (slice data 96 32) (slice data 64 32)).map
    fun point => if K.g2Valid point then some point else none

def encodeG1Point (point : K.G1) : List UInt8 :=
  if K.g1IsZero point then List.replicate 64 0
  else (K.g1X point).toList ++ (K.g1Y point).toList

/-- `match parse(..) { Some(p) => .., None => return error }`. -/
def withPoint {P : Type} (parsed : Option (Option P)) (f : P → Outcome) : Outcome :=
  match parsed with
  | none => .panics
  | some none => .fails
  | some (some point) => f point

def bn128Add (input : List UInt8) (gasLimit : UInt64) : Option PrecompileResult :=
  let padded := padTo 128 input
  metered 150 gasLimit <|
    withPoint (parseG1Point K (slice padded 0 64)) fun p1 =>
      withPoint (parseG1Point K (slice padded 64 64)) fun p2 =>
        .returns (encodeG1Point K (K.g1Add p1 p2))

def bn128Mul (input : List UInt8) (gasLimit : UInt64) : Option PrecompileResult :=
  let padded := padTo 96 input
  metered 6000 gasLimit <|
    withPoint (parseG1Point K (slice padded 0 64)) fun point =>
      .returns (encodeG1Point K (K.g1Mul point (slice padded 64 32)))

/-- The loop over the chunks, with the points parsed so far. -/
def pairingLoop : List (List UInt8) → List K.G1 → List K.G2 → Outcome
  | [], g1Points, g2Points => .returns (flag (if K.pairingIsZero g1Points g2Points then 1 else 0))
  | chunk :: chunks, g1Points, g2Points =>
    withPoint (parseG1Point K (slice chunk 0 64)) fun g1 =>
      withPoint (parseG2Point K (slice chunk 64 128)) fun g2 =>
        pairingLoop chunks (g1Points ++ [g1]) (g2Points ++ [g2])

def bn128Pairing (input : List UInt8) (gasLimit : UInt64) : Option PrecompileResult :=
  let k := input.length / 192
  metered (45000 + 34000 * UInt64.ofNat k) gasLimit <|
    if input.isEmpty then .returns (flag 1)
    else if input.length % 192 ≠ 0 then .fails
    else pairingLoop K ((List.range k).map fun i => slice input (192 * i) 192) [] []

end

/-! ## BLAKE2 -/

def blake2bIv : Vector UInt64 8 :=
  #v[0x6a09e667f3bcc908, 0xbb67ae8584caa73b, 0x3c6ef372fe94f82b, 0xa54ff53a5f1d36f1,
    0x510e527fade682d1, 0x9b05688c2b3e6c1f, 0x1f83d9abfb41bd6b, 0x5be0cd19137e2179]

def blake2bSigma : Vector (Vector (Fin 16) 16) 10 :=
  #v[#v[0, 1, 2, 3, 4, 5, 6, 7, 8, 9, 10, 11, 12, 13, 14, 15],
    #v[14, 10, 4, 8, 9, 15, 13, 6, 1, 12, 0, 2, 11, 7, 5, 3],
    #v[11, 8, 12, 0, 5, 2, 15, 13, 10, 14, 3, 6, 7, 1, 9, 4],
    #v[7, 9, 3, 1, 13, 12, 11, 14, 2, 6, 5, 10, 4, 0, 15, 8],
    #v[9, 0, 5, 7, 2, 4, 10, 15, 14, 1, 11, 12, 6, 8, 3, 13],
    #v[2, 12, 6, 10, 0, 11, 8, 3, 4, 13, 7, 5, 15, 14, 1, 9],
    #v[12, 5, 1, 15, 14, 13, 4, 10, 0, 7, 6, 3, 9, 2, 8, 11],
    #v[13, 11, 7, 14, 12, 1, 3, 9, 5, 0, 15, 4, 8, 6, 2, 10],
    #v[6, 15, 14, 9, 11, 3, 0, 8, 12, 2, 13, 7, 1, 4, 10, 5],
    #v[10, 2, 8, 4, 7, 6, 1, 5, 15, 11, 9, 14, 3, 12, 13, 0]]

def rotateRight (x : UInt64) (n : UInt64) : UInt64 := x >>> n ||| x <<< (64 - n)

/-- The mixing function. -/
def blake2bG (v : Vector UInt64 16) (a b c d : Fin 16) (x y : UInt64) : Vector UInt64 16 :=
  let v := v.set a (v[a] + v[b] + x)
  let v := v.set d (rotateRight (v[d] ^^^ v[a]) 32)
  let v := v.set c (v[c] + v[d])
  let v := v.set b (rotateRight (v[b] ^^^ v[c]) 24)
  let v := v.set a (v[a] + v[b] + y)
  let v := v.set d (rotateRight (v[d] ^^^ v[a]) 16)
  let v := v.set c (v[c] + v[d])
  v.set b (rotateRight (v[b] ^^^ v[c]) 63)

def blake2bRound (m : Vector UInt64 16) (v : Vector UInt64 16) (i : Nat) : Vector UInt64 16 :=
  let s := blake2bSigma[i % 10]
  let v := blake2bG v 0 4 8 12 m[s[0]] m[s[1]]
  let v := blake2bG v 1 5 9 13 m[s[2]] m[s[3]]
  let v := blake2bG v 2 6 10 14 m[s[4]] m[s[5]]
  let v := blake2bG v 3 7 11 15 m[s[6]] m[s[7]]
  let v := blake2bG v 0 5 10 15 m[s[8]] m[s[9]]
  let v := blake2bG v 1 6 11 12 m[s[10]] m[s[11]]
  let v := blake2bG v 2 7 8 13 m[s[12]] m[s[13]]
  blake2bG v 3 4 9 14 m[s[14]] m[s[15]]

def blake2bCompress (h : Vector UInt64 8) (m : Vector UInt64 16) (t0 t1 : UInt64) (f : Bool)
    (rounds : Nat) : Vector UInt64 8 :=
  let v : Vector UInt64 16 := h ++ blake2bIv
  let v := v.set 12 (v[12] ^^^ t0)
  let v := v.set 13 (v[13] ^^^ t1)
  let v := if f then v.set 14 (~~~ v[14]) else v
  let v := (List.range rounds).foldl (blake2bRound m) v
  Vector.ofFn fun i : Fin 8 => h[i] ^^^ (v[i.val] ^^^ v[i.val + 8])

/-- `u64::from_le_bytes` of eight bytes from an offset on. -/
def leWord (input : List UInt8) (offset : Nat) : UInt64 :=
  UInt64.ofNat (Wire.leNat (slice input offset 8))

def blake2fOutcome (input : List UInt8) (rounds : Nat) : Outcome :=
  let h : Vector UInt64 8 := Vector.ofFn fun i => leWord input (4 + i.val * 8)
  let m : Vector UInt64 16 := Vector.ofFn fun i => leWord input (68 + i.val * 8)
  let f := input.getD 212 0
  if f ≠ 0 ∧ f ≠ 1 then .fails
  else .returns ((blake2bCompress h m (leWord input 196) (leWord input 204) (f = 1) rounds).toList
    |>.flatMap Wire.encU64)

def blake2f (input : List UInt8) (gasLimit : UInt64) : Option PrecompileResult :=
  if input.length ≠ 213 then some (.error 0)
  else
    let rounds := beNat (slice input 0 4)
    metered (UInt64.ofNat rounds) gasLimit (blake2fOutcome input rounds)

/-! ## PYRAX's own -/

/-- A placeholder: every proof of the right shape verifies. -/
def verifyZkProof (input : List UInt8) (gasLimit : UInt64) : Option PrecompileResult :=
  metered 100000 gasLimit (if input.length < 64 then .fails else .returns (flag 1))

def l1Bridge (C : Crypto) (input : List UInt8) (gasLimit : UInt64) : Option PrecompileResult :=
  metered 50000 gasLimit <|
    match input with
    | [] => .fails
    | op :: rest =>
      if op = 0 then .returns (flag 1)
      else if op = 1 then
        if input.length < 53 then .fails else .returns (C.blake3 rest).asBytes
      else .fails

end Precompiles

/-! ## The registry -/

/-- `addr`, and `addr2` for the last two bytes. -/
def precompileAddress (b18 b19 : UInt8) : Address :=
  arrayFromSlice 20 (List.replicate 18 0 ++ [b18, b19])

abbrev PrecompileFn := List UInt8 → UInt64 → Option PrecompileResult

namespace PrecompileRegistry

open Precompiles

def precompiles (K : Curves) (C : Crypto) : List (Address × PrecompileFn) :=
  [(precompileAddress 0 1, ecrecover K C), (precompileAddress 0 2, Precompiles.sha256 C),
    (precompileAddress 0 3, Precompiles.ripemd160 C), (precompileAddress 0 4, identity),
    (precompileAddress 0 5, modexp), (precompileAddress 0 6, bn128Add K),
    (precompileAddress 0 7, bn128Mul K), (precompileAddress 0 8, bn128Pairing K),
    (precompileAddress 0 9, blake2f), (precompileAddress 1 0, Precompiles.blake3 C),
    (precompileAddress 1 1, verifyZkProof), (precompileAddress 1 2, l1Bridge C)]

def isPrecompile (K : Curves) (C : Crypto) (address : Address) : Bool :=
  ((precompiles K C).lookup address).isSome

/-- `execute`; the outer `none` is an address without a precompile. -/
def execute (K : Curves) (C : Crypto) (address : Address) (input : List UInt8)
    (gasLimit : UInt64) : Option (Option PrecompileResult) :=
  ((precompiles K C).lookup address).map fun f => f input gasLimit

/-! ## Gas -/

/-- A success costs no more than the gas there is. -/
def WithinGas (f : PrecompileFn) : Prop :=
  ∀ input gasLimit r, f input gasLimit = some r → r.success = true → r.gasUsed ≤ gasLimit

theorem gasUsed_le_of_metered {gasCost gasLimit : UInt64} {outcome : Outcome}
    {r : PrecompileResult} (h : metered gasCost gasLimit outcome = some r)
    (hsuccess : r.success = true) : r.gasUsed ≤ gasLimit := by
  unfold metered at h
  split at h
  · cases h
    cases hsuccess
  · next hgas =>
    cases outcome with
    | panics => cases h
    | fails =>
      cases h
      cases hsuccess
    | returns output =>
      cases h
      exact UInt64.not_lt.mp hgas

theorem withinGas_of_metered {f : PrecompileFn}
    (h : ∀ input gasLimit, ∃ gasCost outcome, f input gasLimit = metered gasCost gasLimit outcome) :
    WithinGas f := by
  intro input gasLimit r hrun hsuccess
  obtain ⟨gasCost, outcome, heq⟩ := h input gasLimit
  rw [heq] at hrun
  exact gasUsed_le_of_metered hrun hsuccess

/-- An input of another length fails for free. -/
theorem withinGas_blake2f : WithinGas blake2f := by
  intro input gasLimit r hrun hsuccess
  unfold blake2f at hrun
  split at hrun
  · cases hrun
    cases hsuccess
  · exact gasUsed_le_of_metered hrun hsuccess

theorem withinGas_of_mem (K : Curves) (C : Crypto) :
    ∀ entry ∈ precompiles K C, WithinGas entry.2 := by
  simp only [precompiles, List.forall_mem_cons]
  refine ⟨?_, ?_, ?_, ?_, ?_, ?_, ?_, ?_, withinGas_blake2f, ?_, ?_, ?_, nofun⟩
  · intro input gasLimit r h
    unfold ecrecover at h
    exact gasUsed_le_of_metered h
  all_goals exact withinGas_of_metered fun _ _ => ⟨_, _, rfl⟩

/-- What succeeds has stayed within its gas. -/
theorem gasUsed_le_of_success {K : Curves} {C : Crypto} {address : Address} {input : List UInt8}
    {gasLimit : UInt64} {r : PrecompileResult}
    (h : execute K C address input gasLimit = some (some r)) (hsuccess : r.success = true) :
    r.gasUsed ≤ gasLimit := by
  obtain ⟨f, hf, hrun⟩ := Option.map_eq_some_iff.mp h
  obtain ⟨l₁, l₂, hlist, -⟩ := List.lookup_eq_some_iff.mp hf
  have hmem : (address, f) ∈ precompiles K C := by
    rw [hlist]
    exact List.mem_append_right _ (List.mem_cons_self ..)
  exact withinGas_of_mem K C _ hmem input gasLimit r hrun hsuccess

end PrecompileRegistry

end Pyrax.Evm
