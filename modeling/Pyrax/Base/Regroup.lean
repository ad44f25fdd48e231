import Mathlib.Algebra.Order.Ring.Nat
import Mathlib.Data.Nat.Digits.Defs
import Mathlib.Data.UInt

/-!
# Regrouping bits

Digits of one width rewritten as digits of another, the way base32 and base64 do it: a
32-bit word takes in the digits, a counter says how many of its low bits are still to be
written, and a digit leaves as soon as there are enough of them. The word is never
masked: what was written long ago runs out at its top.

Only its low bits matter. After every digit the number read so far is the number
written, followed by the bits still to be written (`holds_regroup`). So with the last
digit filled up by zeros (`finish`) the way back gives the same digits
(`regroup_finish`), and the other way round the leftover bits decide
(`finish_regroup_iff`).
-/

namespace Pyrax.Base

/-- The number of `w`-bit digits, the first the most significant. -/
def digitsNat (w : Nat) (ds : List Nat) : Nat := Nat.ofDigits (2 ^ w) ds.reverse

@[simp] theorem digitsNat_nil (w : Nat) : digitsNat w [] = 0 := rfl

theorem digitsNat_snoc (w : Nat) (ds : List Nat) (d : Nat) :
    digitsNat w (ds ++ [d]) = digitsNat w ds * 2 ^ w + d := by
  rw [digitsNat, List.reverse_append, List.reverse_singleton, List.singleton_append,
    Nat.ofDigits_cons, digitsNat, Nat.mul_comm]
  exact Nat.add_comm _ _

theorem digitsNat_inj {w : Nat} {ds es : List Nat} (hw : 0 < w) (hlength : ds.length = es.length)
    (hds : ∀ d ∈ ds, d < 2 ^ w) (hes : ∀ e ∈ es, e < 2 ^ w)
    (h : digitsNat w ds = digitsNat w es) : ds = es := by
  refine List.reverse_injective (Nat.ofDigits_inj_of_len_eq (Nat.one_lt_two_pow hw.ne') ?_ ?_ ?_ h)
  · rw [List.length_reverse, List.length_reverse, hlength]
  · intro d hd
    exact hds d (List.mem_reverse.mp hd)
  · intro e he
    exact hes e (List.mem_reverse.mp he)

/-- Two lengths that agree up to less than a digit. -/
theorem eq_of_mul_add_eq {w a b r s : Nat} (hr : r < w) (hs : s < w)
    (h : w * a + r = w * b + s) : a = b := by
  have hw : 0 < w := Nat.zero_lt_of_lt hr
  calc a = (w * a + r) / w := by
        rw [Nat.mul_add_div hw, Nat.div_eq_of_lt hr, Nat.add_zero]
    _ = (w * b + s) / w := by rw [h]
    _ = b := by rw [Nat.mul_add_div hw, Nat.div_eq_of_lt hs, Nat.add_zero]

/-- The variables of the loop over the digits. -/
structure Regroup where
  acc : UInt32
  bits : Nat
  written : List Nat
  deriving DecidableEq

namespace Regroup

/-- `(acc >> n) & mask`, the mask of `v` bits. -/
def digitAt (v : Nat) (acc : UInt32) (n : Nat) : Nat :=
  ((acc >>> UInt32.ofNat n) &&& UInt32.ofNat (2 ^ v - 1)).toNat

/-- `while bits >= v { bits -= v; push((acc >> bits) & mask) }`, for at most `n` turns. -/
def flush (v : Nat) : Nat → Regroup → Regroup
  | 0, g => g
  | n + 1, g =>
    if v ≤ g.bits then
      flush v n { g with
        bits := g.bits - v, written := g.written ++ [digitAt v g.acc (g.bits - v)] }
    else g

/-- `acc = (acc << w) | d; bits += w`, and the inner loop. -/
def read (w v : Nat) (g : Regroup) (d : Nat) : Regroup :=
  flush v (g.bits + w) { g with
    acc := (g.acc <<< UInt32.ofNat w) ||| UInt32.ofNat d, bits := g.bits + w }

/-- The whole loop, from `acc = 0` and `bits = 0`. -/
def regroup (w v : Nat) (ds : List Nat) : Regroup := ds.foldl (read w v) ⟨0, 0, []⟩

/-- The last digit: `if bits > 0 { push((acc << (v - bits)) & mask) }`. -/
def finish (v : Nat) (g : Regroup) : List Nat :=
  if 0 < g.bits then
    g.written ++ [((g.acc <<< UInt32.ofNat (v - g.bits)) &&& UInt32.ofNat (2 ^ v - 1)).toNat]
  else g.written

variable {w v n : Nat} {g : Regroup} {ds : List Nat}

/-! ## The word -/

theorem toNat_mask (acc : UInt32) (h : v < 32) :
    (acc &&& UInt32.ofNat (2 ^ v - 1)).toNat = acc.toNat % 2 ^ v := by
  have hmask : (UInt32.ofNat (2 ^ v - 1)).toNat = 2 ^ v - 1 := by
    have hle : 2 ^ v ≤ 2 ^ 32 := Nat.pow_le_pow_right Nat.two_pos h.le
    have hpos : 0 < 2 ^ v := Nat.two_pow_pos v
    rw [UInt32.toNat_ofNat']
    exact Nat.mod_eq_of_lt (by omega)
  rw [UInt32.toNat_and, hmask, Nat.and_two_pow_sub_one_eq_mod]

theorem toNat_shift (h : n < 32) : (UInt32.ofNat n).toNat % 32 = n := by
  rw [UInt32.toNat_ofNat']
  omega

theorem digitAt_eq (acc : UInt32) (hv : v < 32) (hn : n < 32) :
    digitAt v acc n = acc.toNat / 2 ^ n % 2 ^ v := by
  rw [digitAt, toNat_mask _ hv, UInt32.toNat_shiftRight, toNat_shift hn, Nat.shiftRight_eq_div_pow]

/-- What is shifted in stands below what was there, and the top is lost. -/
theorem toNat_shiftIn (acc : UInt32) {d : Nat} (hw : w < 32) (hd : d < 2 ^ w) :
    ((acc <<< UInt32.ofNat w) ||| UInt32.ofNat d).toNat
      = acc.toNat % 2 ^ (32 - w) * 2 ^ w + d := by
  have hle : 2 ^ w ≤ 2 ^ 32 := Nat.pow_le_pow_right Nat.two_pos hw.le
  have hsplit : 2 ^ 32 = 2 ^ (32 - w) * 2 ^ w := by
    rw [← Nat.pow_add, Nat.sub_add_cancel hw.le]
  have hshift : acc.toNat <<< w % 2 ^ 32 = (acc.toNat % 2 ^ (32 - w)) <<< w := by
    rw [Nat.shiftLeft_eq, Nat.shiftLeft_eq, hsplit, Nat.mul_mod_mul_right]
  have hdigit : d % 2 ^ 32 = d := Nat.mod_eq_of_lt (by omega)
  rw [UInt32.toNat_or, UInt32.toNat_shiftLeft, toNat_shift hw, hshift, UInt32.toNat_ofNat',
    hdigit, ← Nat.shiftLeft_add_eq_or_of_lt hd, Nat.shiftLeft_eq]

/-- Below a digit that is shifted in, cutting off cuts off what was there. -/
theorem shiftIn_mod {a d k m : Nat} (hk : 0 < k) (hd : d < m) :
    (a * m + d) % (k * m) = a % k * m + d := by
  have hsplit : a * m + d = k * m * (a / k) + (a % k * m + d) := by
    conv_lhs => rw [← Nat.div_add_mod a k]
    ring
  have hlt : a % k * m + d < k * m := by
    have hmod : a % k + 1 ≤ k := Nat.mod_lt a hk
    calc a % k * m + d < a % k * m + m := by omega
      _ = (a % k + 1) * m := by ring
      _ ≤ k * m := Nat.mul_le_mul_right m hmod
  rw [hsplit, Nat.mul_add_mod, Nat.mod_eq_of_lt hlt]

/-! ## The loop -/

/-- The digits read are the digits written and the bits still to be written. -/
structure Holds (w v : Nat) (ds : List Nat) (g : Regroup) : Prop where
  length : w * ds.length = v * g.written.length + g.bits
  value : digitsNat w ds = digitsNat v g.written * 2 ^ g.bits + g.acc.toNat % 2 ^ g.bits
  digits : ∀ d ∈ g.written, d < 2 ^ v

/-- Writing a digit takes it off the bits. -/
theorem Holds.write (h : Holds w v ds g) (hv : v < 32) (hg : g.bits ≤ 32) (hbits : v ≤ g.bits)
    (hpos : 0 < v) :
    Holds w v ds { g with
      bits := g.bits - v, written := g.written ++ [digitAt v g.acc (g.bits - v)] } := by
  have hdigit := digitAt_eq g.acc hv (show g.bits - v < 32 by omega)
  have hsplit : 2 ^ g.bits = 2 ^ (g.bits - v) * 2 ^ v := by
    rw [← Nat.pow_add, Nat.sub_add_cancel hbits]
  refine ⟨?_, ?_, ?_⟩
  · have hlength := h.length
    dsimp only
    rw [List.length_append, List.length_singleton, Nat.mul_add]
    omega
  · rw [h.value]
    dsimp only
    rw [digitsNat_snoc, hdigit, hsplit, Nat.mod_mul]
    ring
  · intro d hd
    rcases List.mem_append.mp hd with hd | hd
    · exact h.digits d hd
    · rw [List.mem_singleton.mp hd, hdigit]
      exact Nat.mod_lt _ (Nat.two_pow_pos v)

/-- The inner loop, which leaves less than a digit. -/
theorem Holds.flush (hv : v < 32) (hpos : 0 < v) : ∀ {n : Nat} {g : Regroup}, Holds w v ds g →
    g.bits ≤ 32 → g.bits ≤ n → Holds w v ds (flush v n g) ∧ (flush v n g).bits < v
  | 0, g, h, _, hn => ⟨h, by rw [Regroup.flush]; omega⟩
  | n + 1, g, h, hg, hn => by
    rw [Regroup.flush]
    split
    · next hbits =>
      exact (h.write hv hg hbits hpos).flush hv hpos (by dsimp only; omega) (by dsimp only; omega)
    · next hbits => exact ⟨h, Nat.lt_of_not_le hbits⟩

/-- One digit more. -/
theorem Holds.read {d : Nat} (h : Holds w v ds g) (hw : 0 < w) (hv : 0 < v) (hfit : w + v ≤ 32)
    (hbits : g.bits < v) (hd : d < 2 ^ w) :
    Holds w v (ds ++ [d]) (read w v g d) ∧ (read w v g d).bits < v := by
  have hword := toNat_shiftIn g.acc (show w < 32 by omega) hd
  refine Holds.flush (by omega) hv ⟨?_, ?_, h.digits⟩ (by dsimp only; omega) le_rfl
  · have hlength := h.length
    dsimp only
    rw [List.length_append, List.length_singleton, Nat.mul_add]
    omega
  · dsimp only
    -- the low bits of the word are the old ones and the digit
    have hlow : (g.acc.toNat % 2 ^ (32 - w) * 2 ^ w + d) % 2 ^ (g.bits + w)
        = g.acc.toNat % 2 ^ g.bits * 2 ^ w + d := by
      have hdvd : 2 ^ g.bits ∣ 2 ^ (32 - w) := Nat.pow_dvd_pow 2 (by omega)
      rw [Nat.pow_add, shiftIn_mod (Nat.two_pow_pos _) hd, Nat.mod_mod_of_dvd _ hdvd]
    rw [digitsNat_snoc, h.value, hword, hlow, Nat.pow_add]
    ring

/-- The invariant of the whole loop. -/
theorem holds_regroup (hw : 0 < w) (hv : 0 < v) (hfit : w + v ≤ 32) (hds : ∀ d ∈ ds, d < 2 ^ w) :
    Holds w v ds (regroup w v ds) ∧ (regroup w v ds).bits < v := by
  induction ds using List.reverseRecOn with
  | nil => exact ⟨⟨by simp [regroup], by simp [regroup], by simp [regroup]⟩, hv⟩
  | append_singleton ds d ih =>
    obtain ⟨h, hbits⟩ := ih fun e he => hds e (List.mem_append_left _ he)
    have hd := hds d (List.mem_append_right _ (List.mem_singleton_self d))
    have hsnoc : regroup w v (ds ++ [d]) = Regroup.read w v (regroup w v ds) d := by
      rw [regroup, List.foldl_append]
      rfl
    rw [hsnoc]
    exact h.read hw hv hfit hbits hd

/-! ## There and back -/

/-- The last digit is filled up with zeros. -/
structure Filled (w v : Nat) (ds es : List Nat) (pad : Nat) : Prop where
  short : pad < v
  length : v * es.length = w * ds.length + pad
  value : digitsNat v es = digitsNat w ds * 2 ^ pad
  digits : ∀ e ∈ es, e < 2 ^ v

/-- The word shifted up by what the last digit is short of. -/
theorem toNat_lastDigit (acc : UInt32) {k : Nat} (hk : k < v) (hv : v < 32) :
    ((acc <<< UInt32.ofNat (v - k)) &&& UInt32.ofNat (2 ^ v - 1)).toNat
      = acc.toNat % 2 ^ k * 2 ^ (v - k) := by
  have hdvd : 2 ^ v ∣ 2 ^ 32 := Nat.pow_dvd_pow 2 hv.le
  have hsplit : 2 ^ v = 2 ^ k * 2 ^ (v - k) := by
    rw [← Nat.pow_add, Nat.add_sub_cancel' hk.le]
  rw [toNat_mask _ hv, UInt32.toNat_shiftLeft, toNat_shift (by omega), Nat.mod_mod_of_dvd _ hdvd,
    Nat.shiftLeft_eq, hsplit, Nat.mul_mod_mul_right]

theorem filled_finish (hw : 0 < w) (hv : 0 < v) (hfit : w + v ≤ 32) (hds : ∀ d ∈ ds, d < 2 ^ w) :
    ∃ pad, Filled w v ds (finish v (regroup w v ds)) pad := by
  obtain ⟨h, hbits⟩ := holds_regroup hw hv hfit hds
  generalize regroup w v ds = g at h hbits
  have hlength := h.length
  have hvalue := h.value
  unfold finish
  split
  · next hleft =>
    have hlast := toNat_lastDigit g.acc hbits (show v < 32 by omega)
    have hsplit : 2 ^ v = 2 ^ g.bits * 2 ^ (v - g.bits) := by
      rw [← Nat.pow_add, Nat.add_sub_cancel' hbits.le]
    refine ⟨v - g.bits, by omega, ?_, ?_, ?_⟩
    · rw [List.length_append, List.length_singleton, Nat.mul_add]
      omega
    · rw [digitsNat_snoc, hlast, hvalue, hsplit]
      ring
    · intro e he
      rcases List.mem_append.mp he with he | he
      · exact h.digits e he
      · rw [List.mem_singleton.mp he, toNat_mask _ (by omega)]
        exact Nat.mod_lt _ (Nat.two_pow_pos v)
  · next hleft =>
    have hzero : g.bits = 0 := by omega
    rw [hzero, Nat.pow_zero, Nat.mod_one, Nat.mul_one, Nat.add_zero] at hvalue
    exact ⟨0, hv, by omega, by rw [hvalue, Nat.pow_zero, Nat.mul_one], h.digits⟩

/-- There is one way to fill up. -/
theorem Filled.unique {es fs : List Nat} {p q : Nat} (hv : 0 < v) (he : Filled w v ds es p)
    (hf : Filled w v ds fs q) : es = fs := by
  have hes := he.length
  have hfs := hf.length
  have hlength : es.length = fs.length :=
    eq_of_mul_add_eq hf.short he.short (by omega)
  rw [hlength] at hes
  have hpad : p = q := by omega
  refine digitsNat_inj hv hlength he.digits hf.digits ?_
  rw [he.value, hf.value, hpad]

/-- **There and back.** What was filled up is less than a digit of the old width, and is
left over. -/
theorem regroup_finish (hv : 0 < v) (hle : v ≤ w) (hfit : w + v ≤ 32) (hds : ∀ d ∈ ds, d < 2 ^ w) :
    (regroup v w (finish v (regroup w v ds))).written = ds := by
  obtain ⟨pad, hfilled⟩ := filled_finish (Nat.lt_of_lt_of_le hv hle) hv hfit hds
  obtain ⟨h, hbits⟩ := holds_regroup hv (Nat.lt_of_lt_of_le hv hle) (by omega) hfilled.digits
  generalize finish v (regroup w v ds) = es at h hbits hfilled
  generalize regroup v w es = g at h hbits
  have hlength := h.length
  rw [hfilled.length] at hlength
  have hsame : g.written.length = ds.length :=
    eq_of_mul_add_eq hbits (Nat.lt_of_lt_of_le hfilled.short hle) hlength.symm
  rw [hsame] at hlength
  have hpad : pad = g.bits := by omega
  refine digitsNat_inj (Nat.lt_of_lt_of_le hv hle) hsame h.digits hds ?_
  have hvalue := h.value
  rw [hfilled.value, hpad] at hvalue
  have hlow : g.acc.toNat % 2 ^ g.bits < 2 ^ g.bits := Nat.mod_lt _ (Nat.two_pow_pos _)
  calc digitsNat w g.written
      = (digitsNat w g.written * 2 ^ g.bits + g.acc.toNat % 2 ^ g.bits) / 2 ^ g.bits := by
        rw [Nat.mul_comm, Nat.mul_add_div (Nat.two_pow_pos _), Nat.div_eq_of_lt hlow, Nat.add_zero]
    _ = digitsNat w ds * 2 ^ g.bits / 2 ^ g.bits := by rw [← hvalue]
    _ = digitsNat w ds := Nat.mul_div_cancel _ (Nat.two_pow_pos _)

/-- **Back and there.** The digits come back if the bits left over are no digit, and zero. -/
theorem finish_regroup_iff {es : List Nat} (hv : 0 < v) (hw : 0 < w) (hfit : w + v ≤ 32)
    (hes : ∀ e ∈ es, e < 2 ^ v) :
    finish v (regroup w v (regroup v w es).written) = es ↔
      (regroup v w es).bits < v ∧
        (regroup v w es).acc.toNat % 2 ^ (regroup v w es).bits = 0 := by
  obtain ⟨h, -⟩ := holds_regroup hv hw (by omega) hes
  generalize regroup v w es = g at h
  obtain ⟨pad, hfilled⟩ := filled_finish hw hv hfit h.digits
  have hlength := h.length
  have hvalue := h.value
  constructor
  · intro heq
    rw [heq] at hfilled
    have hpad : pad = g.bits := by
      have hfill := hfilled.length
      omega
    have hshort := hfilled.short
    have hfill := hfilled.value
    rw [hpad] at hfill hshort
    exact ⟨hshort, by omega⟩
  · intro hleft
    refine hfilled.unique hv (q := g.bits) ⟨hleft.1, hlength, ?_, hes⟩
    rw [hvalue, hleft.2, Nat.add_zero]

end Regroup

end Pyrax.Base
