import Pyrax.Base.Wire

/-!
# Big-endian numbers

The number that a byte string denotes with its first byte the most significant
(`beNat`), and the bytes of a number (`beBytes`). Two strings of one length compare
byte by byte from the first on as their numbers do (`lt_iff_beNat_lt`), so a
comparison of slices is one of numbers.
-/

namespace Pyrax.Base

/-- The number of a byte string. -/
def beNat : List UInt8 → Nat
  | [] => 0
  | b :: bs => b.toNat * 256 ^ bs.length + beNat bs

/-- The `k` low-order bytes of `n`, the most significant first. -/
def beBytes : Nat → Nat → List UInt8
  | 0, _ => []
  | k + 1, n => UInt8.ofNat (n / 256 ^ k) :: beBytes k n

theorem beNat_lt : ∀ bs : List UInt8, beNat bs < 256 ^ bs.length
  | [] => Nat.one_pos
  | b :: bs => by
    have hb : b.toNat < 256 := b.toNat_lt
    have htail := beNat_lt bs
    rw [beNat, List.length_cons, Nat.pow_succ]
    calc b.toNat * 256 ^ bs.length + beNat bs
        < b.toNat * 256 ^ bs.length + 256 ^ bs.length := by omega
      _ = (b.toNat + 1) * 256 ^ bs.length := by rw [Nat.succ_mul]
      _ ≤ 256 * 256 ^ bs.length := Nat.mul_le_mul_right _ (by omega)
      _ = 256 ^ bs.length * 256 := Nat.mul_comm _ _

theorem beNat_append : ∀ as bs : List UInt8,
    beNat (as ++ bs) = beNat as * 256 ^ bs.length + beNat bs
  | [], bs => by rw [List.nil_append, beNat, Nat.zero_mul, Nat.zero_add]
  | a :: as, bs => by
    rw [List.cons_append, beNat, beNat, beNat_append as bs, List.length_append, Nat.pow_add,
      Nat.add_mul, Nat.mul_assoc, Nat.add_assoc]

/-- Read backwards, the number of the little-endian reading. -/
theorem beNat_reverse : ∀ bs : List UInt8, beNat bs.reverse = Wire.leNat bs
  | [] => rfl
  | b :: bs => by
    rw [List.reverse_cons, beNat_append, beNat_reverse bs, Wire.leNat, List.length_singleton,
      Nat.pow_one, beNat, List.length_nil, Nat.pow_zero, beNat]
    omega

/-- Below one power of the base the leading digits decide. -/
theorem digit_lt_iff {a b m n w : Nat} (hm : m < w) (hn : n < w) :
    a * w + m < b * w + n ↔ a < b ∨ a = b ∧ m < n := by
  constructor
  · intro h
    rcases Nat.lt_trichotomy a b with hab | rfl | hab
    · exact Or.inl hab
    · exact Or.inr ⟨rfl, by omega⟩
    · have hle : (b + 1) * w ≤ a * w := Nat.mul_le_mul_right w hab
      rw [Nat.succ_mul] at hle
      omega
  · rintro (hab | ⟨rfl, hmn⟩)
    · have hle : (a + 1) * w ≤ b * w := Nat.mul_le_mul_right w hab
      rw [Nat.succ_mul] at hle
      omega
    · omega

/-- The order of two strings of one length is that of their numbers. -/
theorem lt_iff_beNat_lt : ∀ {as bs : List UInt8}, as.length = bs.length →
    (as < bs ↔ beNat as < beNat bs)
  | [], [], _ => by simp [beNat]
  | a :: as, b :: bs, h => by
    have hlength : as.length = bs.length := Nat.succ.inj h
    have has := beNat_lt as
    rw [hlength] at has
    rw [List.cons_lt_cons_iff, beNat, beNat, hlength, digit_lt_iff has (beNat_lt bs),
      lt_iff_beNat_lt hlength, UInt8.lt_iff_toNat_lt, UInt8.toNat_inj]

theorem le_iff_beNat_le {as bs : List UInt8} (h : as.length = bs.length) :
    as ≤ bs ↔ beNat as ≤ beNat bs := by
  rw [← List.not_lt, lt_iff_beNat_lt h.symm, Nat.not_lt]

theorem beNat_inj : ∀ {as bs : List UInt8}, as.length = bs.length → beNat as = beNat bs → as = bs
  | [], [], _, _ => rfl
  | a :: as, b :: bs, h, heq => by
    have hlength : as.length = bs.length := Nat.succ.inj h
    have has := beNat_lt as
    have hbs := beNat_lt bs
    rw [beNat, beNat, hlength] at heq
    rw [hlength] at has
    have hab : a.toNat = b.toNat := by
      have h₁ := (digit_lt_iff (a := a.toNat) (b := b.toNat) has hbs).not.mp (by omega)
      have h₂ := (digit_lt_iff (a := b.toNat) (b := a.toNat) hbs has).not.mp (by omega)
      omega
    rw [hab] at heq
    rw [UInt8.toNat_inj.mp hab, beNat_inj hlength (Nat.add_left_cancel heq)]

@[simp] theorem beBytes_length : ∀ k n : Nat, (beBytes k n).length = k
  | 0, _ => rfl
  | k + 1, n => congrArg Nat.succ (beBytes_length k n)

theorem beNat_beBytes : ∀ k n : Nat, beNat (beBytes k n) = n % 256 ^ k
  | 0, n => by simp [beBytes, beNat, Nat.mod_one]
  | k + 1, n => by
    have hbyte : (UInt8.ofNat (n / 256 ^ k)).toNat = n / 256 ^ k % 256 := UInt8.toNat_ofNat'
    rw [beBytes, beNat, beNat_beBytes k n, beBytes_length, hbyte, Nat.mod_pow_succ, Nat.add_comm,
      Nat.mul_comm]

theorem beBytes_getElem : ∀ (k n i : Nat) (h : i < (beBytes k n).length),
    (beBytes k n)[i] = UInt8.ofNat (n / 256 ^ (k - 1 - i))
  | k + 1, n, 0, _ => rfl
  | k + 1, n, i + 1, h => by
    have hexp : k + 1 - 1 - (i + 1) = k - 1 - i := by omega
    rw [hexp]
    exact beBytes_getElem k n i (Nat.lt_of_succ_lt_succ h)

/-! ## Dividing twice -/

/-- A small divisor comes back from its quotient. -/
theorem div_div_cancel {n d : Nat} (hd : 0 < d) (h : d * d ≤ n) : n / (n / d) = d := by
  have hq : d ≤ n / d := (Nat.le_div_iff_mul_le hd).mpr h
  have hmod : n % d < d := Nat.mod_lt n hd
  have hn : d * (n / d) + n % d = n := Nat.div_add_mod n d
  refine Nat.div_eq_of_lt_le (by omega) ?_
  rw [Nat.succ_mul]
  omega

end Pyrax.Base
