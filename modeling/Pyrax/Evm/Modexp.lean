import Pyrax.Base.BigEndian
import Pyrax.Evm.Precompiles

/-!
# Modular exponentiation

What `modexp` of `pyrax-node/src/evm/precompiles.rs` should answer: three lengths of 32
bytes, three numbers of these lengths, all big-endian and continued by zeros, and the power
in as many bytes as the modulus has (`exponentiation`).

`modexp` reads 4 bytes of each length, and of 32 they are the bytes 24 to 27, not the last
ones. A length below `2 ^ 32` has zeros there, so it is read as no length at all, and the
answer is empty for every base, exponent and modulus that a caller can send
(`modexpOutput_of_encoded`). That is right where the modulus has no bytes, and nowhere else
(`modexp_follows_iff`).
-/

namespace Pyrax.Evm.Precompiles

open Base

/-- The bytes from a place on, with zeros after the end. -/
def field (input : List UInt8) (start len : Nat) : List UInt8 :=
  (List.range len).map fun i => input.getD (start + i) 0

/-- The power in as many bytes as the modulus has; zeros for a modulus of zero. -/
def power (base exp modulus : List UInt8) : List UInt8 :=
  beBytes modulus.length
    (if Base.beNat modulus = 0 then 0 else Base.beNat base ^ Base.beNat exp % Base.beNat modulus)

/-- What an input asks for. -/
def exponentiation (input : List UInt8) : List UInt8 :=
  let baseLen := Base.beNat (field input 0 32)
  let expLen := Base.beNat (field input 32 32)
  let modLen := Base.beNat (field input 64 32)
  power (field input 96 baseLen) (field input (96 + baseLen) expLen)
    (field input (96 + baseLen + expLen) modLen)

/-- The three lengths, then the three strings. -/
def encode (base exp modulus : List UInt8) : List UInt8 :=
  beBytes 32 base.length ++ beBytes 32 exp.length ++ beBytes 32 modulus.length ++ base ++ exp ++
    modulus

variable {base exp modulus : List UInt8}

@[simp] theorem field_length (input : List UInt8) (start len : Nat) :
    (field input start len).length = len := by
  simp [field]

/-- What stands in the middle is read there. -/
theorem field_append (as bs cs : List UInt8) {start len : Nat} (hstart : start = as.length)
    (hlen : len = bs.length) : field (as ++ (bs ++ cs)) start len = bs := by
  subst hstart hlen
  refine List.ext_getElem (field_length _ _ _) fun i h₁ h₂ => ?_
  have hget : (as ++ (bs ++ cs))[as.length + i]? = some bs[i] := by
    rw [List.getElem?_append_right (Nat.le_add_right _ _), Nat.add_sub_cancel_left,
      List.getElem?_append_left h₂, List.getElem?_eq_getElem h₂]
  simp [field, List.getD_eq_getElem?_getD, hget]

theorem length_of_encoded (h : base.length < 2 ^ 32) :
    Base.beNat (beBytes 32 base.length) = base.length := by
  rw [beNat_beBytes]
  exact Nat.mod_eq_of_lt (Nat.lt_trans h (by decide))

/-- A part of an input that is written as what is before it, the part and the rest. -/
theorem field_of_split {input p bs q : List UInt8} {start len : Nat}
    (h : input = p ++ (bs ++ q)) (hstart : start = p.length) (hlen : len = bs.length) :
    field input start len = bs := by
  rw [h]
  exact field_append p bs q hstart hlen

/-- An encoding asks for the power of its three numbers. -/
theorem exponentiation_encode (hbase : base.length < 2 ^ 32) (hexp : exp.length < 2 ^ 32)
    (hmod : modulus.length < 2 ^ 32) :
    exponentiation (encode base exp modulus) = power base exp modulus := by
  have hlen₁ : field (encode base exp modulus) 0 32 = beBytes 32 base.length :=
    field_of_split (p := []) (by simp only [encode, List.append_assoc]; rfl) rfl (by simp)
  have hlen₂ : field (encode base exp modulus) 32 32 = beBytes 32 exp.length :=
    field_of_split (p := beBytes 32 base.length)
      (by simp only [encode, List.append_assoc]; rfl) (by simp) (by simp)
  have hlen₃ : field (encode base exp modulus) 64 32 = beBytes 32 modulus.length :=
    field_of_split (p := beBytes 32 base.length ++ beBytes 32 exp.length)
      (by simp only [encode, List.append_assoc]; rfl) (by simp) (by simp)
  have hpart₁ : field (encode base exp modulus) 96 base.length = base :=
    field_of_split
      (p := beBytes 32 base.length ++ beBytes 32 exp.length ++ beBytes 32 modulus.length)
      (by simp only [encode, List.append_assoc]; rfl) (by simp) rfl
  have hpart₂ : field (encode base exp modulus) (96 + base.length) exp.length = exp :=
    field_of_split
      (p := beBytes 32 base.length ++ beBytes 32 exp.length ++ beBytes 32 modulus.length ++ base)
      (by simp only [encode, List.append_assoc]; rfl) (by simp; omega) rfl
  have hpart₃ : field (encode base exp modulus) (96 + base.length + exp.length) modulus.length
      = modulus :=
    field_of_split (q := [])
      (p := beBytes 32 base.length ++ beBytes 32 exp.length ++ beBytes 32 modulus.length ++ base
        ++ exp)
      (by simp only [encode, List.append_assoc, List.append_nil]) (by simp; omega) rfl
  rw [exponentiation, hlen₁, hlen₂, hlen₃, length_of_encoded hbase, length_of_encoded hexp,
    length_of_encoded hmod, hpart₁, hpart₂, hpart₃]

/-! ## The answer of the source -/

/-- Of a length below `2 ^ 32` the bytes that are read are zero. -/
theorem slice_beBytes {n : Nat} (h : n < 2 ^ 32) :
    slice (beBytes 32 n) 24 4 = List.replicate 4 0 := by
  refine List.ext_getElem (by simp [slice]) fun i h₁ h₂ => ?_
  have hi : i < 4 := by simpa using h₂
  have hsmall : n < 256 ^ (32 - 1 - (24 + i)) := by
    refine Nat.lt_of_lt_of_le h ?_
    calc 2 ^ 32 = 256 ^ 4 := by decide
      _ ≤ 256 ^ (32 - 1 - (24 + i)) := Nat.pow_le_pow_right (by decide) (by omega)
  simp only [slice, List.getElem_take, List.getElem_drop, beBytes_getElem, List.getElem_replicate]
  rw [Nat.div_eq_of_lt hsmall]
  rfl

/-- The answer is empty, whatever is asked. -/
theorem modexpOutput_of_encoded (base exp : List UInt8) (hmod : modulus.length < 2 ^ 32) (n : Nat) :
    modexpOutput ((encode base exp modulus).take n) = [] := by
  unfold modexpOutput
  split
  · rfl
  next hheader =>
  have hn : 92 ≤ n := by
    rw [List.length_take] at hheader
    omega
  have hread : slice ((encode base exp modulus).take n) 88 4 = List.replicate 4 0 := by
    rw [← slice_beBytes hmod]
    have hsplit : encode base exp modulus = (beBytes 32 base.length ++ beBytes 32 exp.length) ++
        (beBytes 32 modulus.length ++ (base ++ (exp ++ modulus))) := by
      simp only [encode, List.append_assoc]
    have hdrop : (encode base exp modulus).drop 88
        = (beBytes 32 modulus.length).drop 24 ++ (base ++ (exp ++ modulus)) := by
      rw [hsplit, List.drop_append, List.drop_of_length_le (by simp), List.nil_append,
        List.length_append, beBytes_length, beBytes_length]
      exact List.drop_append_of_le_length (by simp)
    rw [slice, List.drop_take, hdrop, List.take_take, min_eq_left (by omega),
      List.take_append_of_le_length (by simp)]
    rfl
  rw [hread]
  rfl

/-- **Modular exponentiation.** For strings below `2 ^ 32` bytes, encoded and cut off
anywhere, and gas for the call: the answer is the power that the input asks for exactly
where the modulus it asks for has no bytes. The whole encoding asks for the power of the
three numbers. -/
theorem modexp_follows_iff (base exp modulus : List UInt8) (hbase : base.length < 2 ^ 32)
    (hexp : exp.length < 2 ^ 32) (hmod : modulus.length < 2 ^ 32) (n : Nat) {gasLimit : UInt64}
    (hgas : 200 ≤ gasLimit) :
    (modexp ((encode base exp modulus).take n) gasLimit
        = some (.ofSuccess (exponentiation ((encode base exp modulus).take n)) 200) ↔
      Base.beNat (field ((encode base exp modulus).take n) 64 32) = 0) ∧
    exponentiation (encode base exp modulus) = power base exp modulus := by
  refine ⟨?_, exponentiation_encode hbase hexp hmod⟩
  generalize hinput : (encode base exp modulus).take n = input
  have hcode : modexp input gasLimit = some (.ofSuccess [] 200) := by
    rw [modexp, ← hinput, modexpOutput_of_encoded base exp hmod n]
    exact if_neg (UInt64.not_lt.mpr hgas)
  have hlength : (exponentiation input).length = Base.beNat (field input 64 32) := by
    rw [exponentiation, power, beBytes_length, field_length]
  rw [hcode, Option.some.injEq, PrecompileResult.ofSuccess, PrecompileResult.ofSuccess,
    PrecompileResult.mk.injEq, ← hlength, List.length_eq_zero_iff]
  constructor
  · intro h
    exact h.2.1.symm
  · intro h
    exact ⟨rfl, h.symm, rfl⟩

/-- Three to the power of five modulo seven is asked for in one byte of the modulus. -/
theorem modexp_answers_nothing :
    exponentiation (encode [3] [5] [7]) = [5] ∧
      modexp (encode [3] [5] [7]) 200 = some (.ofSuccess [] 200) := by
  decide +kernel

theorem modexp_follows_iff_empty :
    modexp ((encode [3] [5] []).take 98) 200
      = some (.ofSuccess (exponentiation ((encode [3] [5] []).take 98)) 200) :=
  (modexp_follows_iff [3] [5] [] (by decide) (by decide) (by decide) 98 (by decide)).1.mpr
    (by decide +kernel)

end Pyrax.Evm.Precompiles
