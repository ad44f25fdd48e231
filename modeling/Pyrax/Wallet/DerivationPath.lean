import Pyrax.Types.Primitives

/-!
# Derivation paths

`DerivationPath` of `pyrax-wallet/src/hd.rs`. An index is one 32-bit word, and its highest
bit says that it is hardened. A path is written with the number and a mark behind it, `'` or
`h`, and `to_string` and `parse` are inverse (`parse_toString`).

The other way `parse` asks for less than a path promises: the number may use all 32 bits, so
that an unmarked `2147483648` is the hardened `0'`, and it may begin with `+`. Where no
component is written so, a path is read as it looks (`unambiguous_iff`).

Text is a list of characters, and a slice of it counts bytes, so it may end within a
character (`none`).
-/

namespace Pyrax.Wallet

/-- `keyNotFound` has the text of the address. -/
inductive WalletError where
  | invalidPrivateKey (reason : String)
  | invalidDerivationPath (reason : String)
  | decryptionError (reason : String)
  | keyNotFound (address : Address)
  | invalidPassword
  | keystoreLocked
  deriving DecidableEq

/-! ## Text -/

/-- `s.len()`. -/
def byteLen (s : List Char) : Nat := (s.map Char.utf8Size).sum

/-- `&s[..n]`. -/
def sliceTo : List Char → Nat → Option (List Char)
  | _, 0 => some []
  | [], _ + 1 => none
  | c :: s, n + 1 =>
    if c.utf8Size ≤ n + 1 then (sliceTo s (n + 1 - c.utf8Size)).map (c :: ·) else none

/-- One digit more, unless the number outgrows its 32 bits. -/
def pushDigit (n : Nat) (c : Char) : Option Nat :=
  if c.isDigit ∧ 10 * n + (c.toNat - '0'.toNat) < 2 ^ 32 then
    some (10 * n + (c.toNat - '0'.toNat))
  else none

def u32Digits (s : List Char) : Option UInt32 := (s.foldlM pushDigit 0).map UInt32.ofNat

/-- `s.parse::<u32>()`: a sign is allowed, and no number without digits. -/
def parseU32 : List Char → Option UInt32
  | [] => none
  | ['+'] => none
  | '+' :: s => u32Digits s
  | s => u32Digits s

/-! ## The source -/

structure DerivationPath where
  indices : List UInt32
  deriving DecidableEq

namespace DerivationPath

def apostrophe : Char := Char.ofNat 0x27

/-- `s.ends_with` of either mark. -/
def Marked (s : List Char) : Prop := s.getLast? = some apostrophe ∨ s.getLast? = some 'h'

instance (s : List Char) : Decidable (Marked s) := inferInstanceAs (Decidable (_ ∨ _))

def splitMark (s : List Char) : Option (List Char × Bool) :=
  if Marked s then (sliceTo s (byteLen s - 1)).map (·, true) else some (s, false)

def parseIndex (s : List Char) : Option (Except WalletError UInt32) := do
  let (numStr, hardened) ← splitMark s
  match parseU32 numStr with
  | none => some (.error (.invalidDerivationPath ("Invalid index: " ++ String.ofList s)))
  | some num => some (.ok (if hardened then num ||| 0x80000000 else num))

/-- `collect` into a `Result`: the first error is the result. -/
def parseIndices : List (List Char) → Option (Except WalletError (List UInt32))
  | [] => some (.ok [])
  | s :: rest => do
    match ← parseIndex s with
    | .error e => some (.error e)
    | .ok index =>
      match ← parseIndices rest with
      | .error e => some (.error e)
      | .ok indices => some (.ok (index :: indices))

/-- `path.strip_prefix("m/").unwrap_or(path)`. -/
def stripRoot : List Char → List Char
  | 'm' :: '/' :: path => path
  | path => path

/-- What stands between the slashes. -/
def components (path : String) : List (List Char) :=
  ((stripRoot path.toList).splitOn '/').filter (· ≠ [])

def parse (path : String) : Option (Except WalletError DerivationPath) := do
  match ← parseIndices (components path) with
  | .error e => some (.error e)
  | .ok indices => some (.ok ⟨indices⟩)

def pyrax (account change index : UInt32) : DerivationPath :=
  ⟨[44 ||| 0x80000000, 60 ||| 0x80000000, account ||| 0x80000000, change, index]⟩

def part (i : UInt32) : List Char :=
  if 0x80000000 ≤ i then Nat.toDigits 10 (i &&& 0x7FFFFFFF).toNat ++ [apostrophe]
  else Nat.toDigits 10 i.toNat

def toString (p : DerivationPath) : String :=
  String.ofList ('m' :: '/' :: ['/'].intercalate (p.indices.map part))

end DerivationPath

/-! ## Numbers -/

variable {s digits : List Char}

/-- A number in decimal digits, below a limit. -/
def Numeral (limit : Nat) (s : List Char) : Prop :=
  s ≠ [] ∧ (∀ c ∈ s, c.isDigit) ∧ Nat.ofDigitChars 10 s 0 < limit

theorem le_ofDigitChars (s : List Char) (n : Nat) : n ≤ Nat.ofDigitChars 10 s n := by
  induction s generalizing n with
  | nil => rw [Nat.ofDigitChars_nil]
  | cons c s ih =>
    rw [Nat.ofDigitChars_cons]
    exact Nat.le_trans (by omega) (ih _)

/-- Digit by digit a number is read as long as it fits. -/
theorem foldlM_pushDigit {m n : Nat} (hm : m < 2 ^ 32) :
    s.foldlM pushDigit m = some n ↔
      (∀ c ∈ s, c.isDigit) ∧ Nat.ofDigitChars 10 s m = n ∧ n < 2 ^ 32 := by
  induction s generalizing m with
  | nil =>
    rw [Nat.ofDigitChars_nil]
    simp only [List.foldlM_nil, Option.pure_def, Option.some.injEq, List.not_mem_nil]
    constructor
    · intro h
      exact ⟨fun _ h => h.elim, h, h ▸ hm⟩
    · intro h
      exact h.2.1
  | cons c s ih =>
    have hle := le_ofDigitChars s (10 * m + (c.toNat - '0'.toNat))
    rw [List.foldlM_cons, Nat.ofDigitChars_cons, List.forall_mem_cons, pushDigit]
    split
    · next h =>
      rw [Option.bind_eq_bind, Option.bind_some, ih h.2]
      exact ⟨fun h' => ⟨⟨h.1, h'.1⟩, h'.2⟩, fun h' => ⟨h'.1.2, h'.2⟩⟩
    · next h =>
      refine iff_of_false (by simp) fun h' => h ⟨h'.1.1, ?_⟩
      have hn := h'.2.1
      have hlt := h'.2.2
      omega

theorem u32Digits_eq_some_iff {n : UInt32} : u32Digits s = some n ↔
    (∀ c ∈ s, c.isDigit) ∧ Nat.ofDigitChars 10 s 0 < 2 ^ 32 ∧
      n = UInt32.ofNat (Nat.ofDigitChars 10 s 0) := by
  rw [u32Digits, Option.map_eq_some_iff]
  constructor
  · rintro ⟨m, hm, rfl⟩
    obtain ⟨hdigits, rfl, hlt⟩ := (foldlM_pushDigit (by decide)).mp hm
    exact ⟨hdigits, hlt, rfl⟩
  · rintro ⟨hdigits, hlt, rfl⟩
    exact ⟨_, (foldlM_pushDigit (by decide)).mpr ⟨hdigits, rfl, hlt⟩, rfl⟩

/-- What `parse::<u32>` accepts. -/
theorem parseU32_eq_some_iff {n : UInt32} : parseU32 s = some n ↔
    ∃ digits, Numeral (2 ^ 32) digits ∧ (s = digits ∨ s = '+' :: digits) ∧
      n = UInt32.ofNat (Nat.ofDigitChars 10 digits 0) := by
  have hplus : ∀ {cs : List Char}, ¬ ∀ c ∈ '+' :: cs, c.isDigit := by
    intro cs h
    exact absurd (h '+' (List.mem_cons_self ..)) (by decide)
  unfold parseU32
  split
  · refine iff_of_false (by simp) ?_
    rintro ⟨digits, hdigits, hs | hs, -⟩
    · exact hdigits.1 hs.symm
    · cases hs
  · refine iff_of_false (by simp) ?_
    rintro ⟨digits, hdigits, hs | hs, -⟩
    · exact hplus (hs ▸ hdigits.2.1)
    · exact hdigits.1 (List.cons.inj hs).2.symm
  · next cs hne =>
    rw [u32Digits_eq_some_iff]
    constructor
    · intro h
      exact ⟨cs, ⟨fun hnil => hne hnil, h.1, h.2.1⟩, .inr rfl, h.2.2⟩
    · rintro ⟨digits, hdigits, hs | hs, hn⟩
      · exact absurd (hs ▸ hdigits.2.1) hplus
      · cases (List.cons.inj hs).2
        exact ⟨hdigits.2.1, hdigits.2.2, hn⟩
  · next hnil _ hcons =>
    rw [u32Digits_eq_some_iff]
    constructor
    · intro h
      exact ⟨s, ⟨fun h => hnil h, h.1, h.2.1⟩, .inl rfl, h.2.2⟩
    · rintro ⟨digits, hdigits, hs | hs, hn⟩
      · cases hs
        exact ⟨hdigits.2.1, hdigits.2.2, hn⟩
      · exact (hcons digits hs).elim

theorem numeral_toDigits {n limit : Nat} (h : n < limit) : Numeral limit (Nat.toDigits 10 n) := by
  refine ⟨Nat.toDigits_ne_nil, fun c hc => ?_, ?_⟩
  · exact Nat.isDigit_of_mem_toDigits (by decide) (by decide) hc
  · rwa [Nat.ofDigitChars_ten_toDigits]

theorem parseU32_toDigits {n : Nat} (h : n < 2 ^ 32) :
    parseU32 (Nat.toDigits 10 n) = some (UInt32.ofNat n) :=
  parseU32_eq_some_iff.mpr ⟨_, numeral_toDigits h, .inl rfl, by rw [Nat.ofDigitChars_ten_toDigits]⟩

/-! ## Slices -/

theorem sliceTo_zero (s : List Char) : sliceTo s 0 = some [] := by
  cases s <;> rfl

/-- A slice up to the end of a character. -/
theorem sliceTo_byteLen (s rest : List Char) : sliceTo (s ++ rest) (byteLen s) = some s := by
  induction s with
  | nil => exact sliceTo_zero rest
  | cons c s ih =>
    have hpos := c.utf8Size_pos
    obtain ⟨n, hn⟩ : ∃ n, c.utf8Size + byteLen s = n + 1 := ⟨_, (Nat.succ_pred (by omega)).symm⟩
    have hlen : byteLen (c :: s) = n + 1 := by
      rw [← hn, byteLen, List.map_cons, List.sum_cons]
      rfl
    rw [List.cons_append, hlen, sliceTo, if_pos (by omega),
      show n + 1 - c.utf8Size = byteLen s by omega, ih]
    rfl

namespace DerivationPath

/-- The component without its mark. -/
def number (s : List Char) : List Char := if Marked s then s.dropLast else s

theorem utf8Size_mark {c : Char} (h : c = apostrophe ∨ c = 'h') : c.utf8Size = 1 := by
  rcases h with rfl | rfl <;> rfl

theorem splitMark_eq (s : List Char) : splitMark s = some (number s, decide (Marked s)) := by
  unfold splitMark number
  split
  · next hmarked =>
    obtain ⟨c, hc, hmark⟩ : ∃ c, s.getLast? = some c ∧ (c = apostrophe ∨ c = 'h') := by
      rcases hmarked with h | h
      · exact ⟨_, h, .inl rfl⟩
      · exact ⟨_, h, .inr rfl⟩
    obtain ⟨front, rfl⟩ := List.getLast?_eq_some_iff.mp hc
    have hlen : byteLen (front ++ [c]) - 1 = byteLen front := by
      rw [byteLen, List.map_append, List.sum_append, List.map_singleton, List.sum_singleton,
        utf8Size_mark hmark]
      rfl
    rw [hlen, sliceTo_byteLen, List.dropLast_concat]
    simp [hmarked]
  · next hunmarked => simp [hunmarked]

/-- The index that a component stands for. -/
def indexOf (s : List Char) (num : UInt32) : UInt32 := if Marked s then num ||| 0x80000000 else num

theorem parseIndex_eq (s : List Char) :
    parseIndex s = some (match parseU32 (number s) with
      | none => .error (.invalidDerivationPath ("Invalid index: " ++ String.ofList s))
      | some num => .ok (indexOf s num)) := by
  rw [parseIndex, splitMark_eq]
  dsimp only [Option.bind_eq_bind, Option.bind_some]
  cases parseU32 (number s) with
  | none => rfl
  | some num => simp [indexOf]

theorem parseIndex_eq_ok_iff {i : UInt32} : parseIndex s = some (.ok i) ↔
    ∃ num, parseU32 (number s) = some num ∧ i = indexOf s num := by
  rw [parseIndex_eq]
  cases parseU32 (number s) with
  | none => simp
  | some num => simp [eq_comm]

theorem parseIndices_ne_none : ∀ l : List (List Char), parseIndices l ≠ none
  | [] => by simp [parseIndices]
  | s :: rest => by
    obtain ⟨r, hr⟩ := Option.ne_none_iff_exists'.mp (parseIndices_ne_none rest)
    rw [parseIndices, parseIndex_eq, hr]
    dsimp only [Option.bind_eq_bind, Option.bind_some]
    split
    · exact Option.some_ne_none _
    · split <;> exact Option.some_ne_none _

/-- An accepted path has an index for every component. -/
theorem parseIndices_eq_ok_iff : ∀ {l : List (List Char)} {indices : List UInt32},
    parseIndices l = some (.ok indices) ↔
      List.Forall₂ (fun i s => parseIndex s = some (.ok i)) indices l
  | [], indices => by simp [parseIndices, eq_comm]
  | s :: rest, indices => by
    obtain ⟨r, hr⟩ := Option.ne_none_iff_exists'.mp (parseIndices_ne_none rest)
    have ih : ∀ tail, r = .ok tail ↔
        List.Forall₂ (fun i s => parseIndex s = some (.ok i)) tail rest := by
      intro tail
      rw [← parseIndices_eq_ok_iff, hr, Option.some.injEq]
    obtain ⟨first, hfirst⟩ : ∃ first, parseIndex s = some first := ⟨_, parseIndex_eq s⟩
    rw [parseIndices, List.forall₂_cons_right_iff, hfirst, hr]
    dsimp only [Option.bind_eq_bind, Option.bind_some]
    cases first with
    | error e => simp
    | ok index =>
      cases r with
      | error e => simp [← ih]
      | ok tail =>
        simp only [Option.some.injEq, Except.ok.injEq, ← ih]
        constructor
        · rintro rfl
          exact ⟨index, tail, rfl, rfl, rfl⟩
        · rintro ⟨i, u, rfl, rfl, rfl⟩
          rfl

theorem parse_eq_ok_iff {path : String} {p : DerivationPath} : parse path = some (.ok p) ↔
    List.Forall₂ (fun i s => parseIndex s = some (.ok i)) p.indices (components path) := by
  obtain ⟨r, hr⟩ := Option.ne_none_iff_exists'.mp (parseIndices_ne_none (components path))
  rw [← parseIndices_eq_ok_iff, parse, hr]
  dsimp only [Option.bind_eq_bind, Option.bind_some]
  cases r with
  | error e => simp
  | ok indices =>
    obtain ⟨indices'⟩ := p
    simp

theorem parse_ne_none (path : String) : parse path ≠ none := by
  obtain ⟨r, hr⟩ := Option.ne_none_iff_exists'.mp (parseIndices_ne_none (components path))
  rw [parse, hr]
  cases r <;> exact Option.some_ne_none _

/-! ## Printing -/

theorem not_mem_toDigits {c : Char} (hc : c.isDigit = false) (n : Nat) :
    c ∉ Nat.toDigits 10 n := by
  intro h
  rw [Nat.isDigit_of_mem_toDigits (by decide) (by decide) h] at hc
  cases hc

theorem not_marked_toDigits (n : Nat) : ¬ Marked (Nat.toDigits 10 n) := by
  rintro (h | h)
  · exact not_mem_toDigits (by decide) n (List.mem_of_getLast? h)
  · exact not_mem_toDigits (by decide) n (List.mem_of_getLast? h)

theorem part_ne_nil (i : UInt32) : part i ≠ [] := by
  unfold part
  split
  · exact List.append_ne_nil_of_right_ne_nil _ (List.cons_ne_nil _ _)
  · exact Nat.toDigits_ne_nil

theorem slash_not_mem_part (i : UInt32) : '/' ∉ part i := by
  unfold part
  split
  · rw [List.mem_append, List.mem_singleton]
    rintro (h | h)
    · exact not_mem_toDigits (by decide) _ h
    · exact absurd h (by decide)
  · exact not_mem_toDigits (by decide) _

/-- The number and the highest bit make up the word. -/
theorem number_or_hardened {i : UInt32} (h : 0x80000000 ≤ i) :
    (i &&& 0x7FFFFFFF) ||| 0x80000000 = i := by
  have hge : 2 ^ 31 ≤ i.toNat := UInt32.le_iff_toNat_le.mp h
  have hlt : i.toNat < 2 ^ 32 := i.toNat_lt
  refine UInt32.toNat_inj.mp ?_
  rw [UInt32.toNat_or, UInt32.toNat_and, show (0x7FFFFFFF : UInt32).toNat = 2 ^ 31 - 1 from rfl,
    show (0x80000000 : UInt32).toNat = 2 ^ 31 * 1 from rfl, Nat.and_two_pow_sub_one_eq_mod,
    Nat.or_comm, ← Nat.two_pow_add_eq_or_of_lt (Nat.mod_lt _ (by decide))]
  omega

theorem parseIndex_part (i : UInt32) : parseIndex (part i) = some (.ok i) := by
  rw [parseIndex_eq_ok_iff]
  unfold part
  split
  · next h =>
    have hmarked : Marked (Nat.toDigits 10 (i &&& 0x7FFFFFFF).toNat ++ [apostrophe]) :=
      .inl List.getLast?_concat
    refine ⟨i &&& 0x7FFFFFFF, ?_, ?_⟩
    · rw [number, if_pos hmarked, List.dropLast_concat, parseU32_toDigits (UInt32.toNat_lt _),
        UInt32.ofNat_toNat]
    · rw [indexOf, if_pos hmarked, number_or_hardened h]
  · refine ⟨i, ?_, ?_⟩
    · rw [number, if_neg (not_marked_toDigits _), parseU32_toDigits i.toNat_lt, UInt32.ofNat_toNat]
    · rw [indexOf, if_neg (not_marked_toDigits _)]

theorem components_toString (p : DerivationPath) : components p.toString = p.indices.map part := by
  have hne : (p.indices.map part).filter (fun s => decide (s ≠ [])) = p.indices.map part := by
    refine List.filter_eq_self.mpr fun s hs => ?_
    obtain ⟨i, -, rfl⟩ := List.mem_map.mp hs
    exact decide_eq_true (part_ne_nil i)
  rw [components, toString, String.toList_ofList, stripRoot]
  by_cases hnil : p.indices.map part = []
  · rw [hnil]
    rfl
  · rw [List.splitOn_intercalate '/' ?_ hnil, hne]
    intro s hs
    obtain ⟨i, -, rfl⟩ := List.mem_map.mp hs
    exact slash_not_mem_part i

/-- **A printed path is read back.** -/
theorem parse_toString (p : DerivationPath) : parse p.toString = some (.ok p) := by
  rw [parse_eq_ok_iff, components_toString, List.forall₂_map_right_iff]
  exact List.forall₂_same.mpr fun i _ => parseIndex_part i

/-! ## What a path looks like -/

/-- A decimal number below `2^31`, and perhaps a mark. -/
def Decimal (s : List Char) : Prop := Numeral (2 ^ 31) (number s)

/-- Paths are printed so that they can be read, no slice goes wrong, and a path is read as
it looks. -/
structure Unambiguous (p : DerivationPath) (path : String) : Prop where
  roundTrip : parse p.toString = some (.ok p)
  inBounds : parse path ≠ none
  decimal : ∀ q, parse path = some (.ok q) → ∀ s ∈ components path, Decimal s
  hardened : ∀ q, parse path = some (.ok q) →
    List.Forall₂ (fun i s => 0x80000000 ≤ i ↔ Marked s) q.indices (components path)

/-- The number is one of 32 bits, perhaps behind a plus. -/
def Readable (s : List Char) : Prop :=
  ∃ digits, Numeral (2 ^ 32) digits ∧ (number s = digits ∨ number s = '+' :: digits)

/-- No plus, and the number leaves the highest bit alone. -/
def Plain (s : List Char) : Prop :=
  (number s).head? ≠ some '+' ∧ Nat.ofDigitChars 10 (number s) 0 < 2 ^ 31

theorem readable_iff : Readable s ↔ ∃ i, parseIndex s = some (.ok i) := by
  constructor
  · rintro ⟨digits, hdigits, hs⟩
    exact ⟨_, parseIndex_eq_ok_iff.mpr
      ⟨_, parseU32_eq_some_iff.mpr ⟨digits, hdigits, hs, rfl⟩, rfl⟩⟩
  · rintro ⟨i, hi⟩
    obtain ⟨num, hnum, -⟩ := parseIndex_eq_ok_iff.mp hi
    obtain ⟨digits, hdigits, hs, -⟩ := parseU32_eq_some_iff.mp hnum
    exact ⟨digits, hdigits, hs⟩

theorem exists_forall₂_iff {α β : Type} {r : α → β → Prop} : ∀ {l : List β},
    (∃ l', List.Forall₂ r l' l) ↔ ∀ b ∈ l, ∃ a, r a b
  | [] => by simp
  | b :: l => by
    rw [List.forall_mem_cons, ← exists_forall₂_iff]
    constructor
    · rintro ⟨_, h⟩
      cases h with
      | cons hhead htail => exact ⟨⟨_, hhead⟩, _, htail⟩
    · rintro ⟨⟨a, hhead⟩, l', htail⟩
      exact ⟨a :: l', .cons hhead htail⟩

/-- A path is accepted where every component is readable. -/
theorem accepted_iff (path : String) :
    (∃ q, parse path = some (.ok q)) ↔ ∀ s ∈ components path, Readable s := by
  simp only [readable_iff, ← exists_forall₂_iff, parse_eq_ok_iff]
  exact ⟨fun ⟨q, hq⟩ => ⟨q.indices, hq⟩, fun ⟨indices, h⟩ => ⟨⟨indices⟩, h⟩⟩

theorem decimal_iff_plain (h : Readable s) : Decimal s ↔ Plain s := by
  obtain ⟨digits, hdigits, hs | hs⟩ := h
  · have hplus : digits.head? ≠ some '+' := by
      intro hhead
      exact absurd (hdigits.2.1 '+' (List.mem_of_mem_head? hhead)) (by decide)
    rw [Decimal, Plain, hs]
    exact ⟨fun hd => ⟨hplus, hd.2.2⟩, fun hp => ⟨hdigits.1, hdigits.2.1, hp.2⟩⟩
  · rw [Decimal, Plain, hs]
    refine iff_of_false (fun hd => ?_) fun hp => hp.1 rfl
    exact absurd (hd.2.1 '+' (List.mem_cons_self ..)) (by decide)

/-- With a number below `2^31` the highest bit is the mark. -/
theorem hardened_iff_marked {i : UInt32} (h : parseIndex s = some (.ok i)) (hs : Decimal s) :
    0x80000000 ≤ i ↔ Marked s := by
  obtain ⟨num, hnum, rfl⟩ := parseIndex_eq_ok_iff.mp h
  obtain ⟨digits, hdigits, hspell, rfl⟩ := parseU32_eq_some_iff.mp hnum
  rw [UInt32.le_iff_toNat_le, show (0x80000000 : UInt32).toNat = 2 ^ 31 from rfl, indexOf]
  split
  · next hmarked =>
    refine iff_of_true ?_ hmarked
    rw [UInt32.toNat_or]
    exact Nat.right_le_or
  · next hunmarked =>
    refine iff_of_false ?_ hunmarked
    have hdigits' : number s = digits := by
      refine hspell.resolve_right fun hplus => ?_
      rw [Decimal, hplus] at hs
      exact absurd (hs.2.1 '+' (List.mem_cons_self ..)) (by decide)
    have hlt : Nat.ofDigitChars 10 digits 0 < 2 ^ 31 := hdigits' ▸ hs.2.2
    rw [UInt32.toNat_ofNat_of_lt' hdigits.2.2]
    omega

/-- **A path is read as it looks exactly where no component of a readable path begins with a
plus or has a number from `2^31` on.** -/
theorem unambiguous_iff (p : DerivationPath) (path : String) :
    Unambiguous p path ↔
      ((∀ s ∈ components path, Readable s) → ∀ s ∈ components path, Plain s) := by
  constructor
  · intro h hreadable s hs
    obtain ⟨q, hq⟩ := (accepted_iff path).mpr hreadable
    exact (decimal_iff_plain (hreadable s hs)).mp (h.decimal q hq s hs)
  · intro h
    have hdecimal : ∀ q, parse path = some (.ok q) → ∀ s ∈ components path, Decimal s := by
      intro q hq s hs
      have hreadable := (accepted_iff path).mp ⟨q, hq⟩
      exact (decimal_iff_plain (hreadable s hs)).mpr (h hreadable s hs)
    refine ⟨parse_toString p, parse_ne_none path, hdecimal, fun q hq => ?_⟩
    obtain ⟨hlen, hget⟩ := List.forall₂_iff_get.mp (parse_eq_ok_iff.mp hq)
    exact List.forall₂_iff_get.mpr ⟨hlen, fun i hi hi' =>
      hardened_iff_marked (hget i hi hi') (hdecimal q hq _ (List.get_mem ..))⟩

/-- **An unmarked number selects a hardened key**: the same as `0'`. -/
theorem unmarked_hardened : ¬ ∀ p path, Unambiguous p path := by
  intro h
  have hplain := (h ⟨[]⟩ "m/2147483648").decimal ⟨[0x80000000]⟩ (by decide)
    "2147483648".toList (by decide)
  exact absurd hplain.2.2 (by decide)

end DerivationPath

end Pyrax.Wallet
