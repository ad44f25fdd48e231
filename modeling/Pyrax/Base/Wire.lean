import Mathlib.Algebra.Order.Ring.Nat
import Mathlib.Data.List.Basic
import Mathlib.Data.UInt

/-!
# Fixed-width little-endian wire formats

A byte-level codec kit: little-endian integers of a fixed number of bytes,
length-prefixed vectors, and decoders that consume a prefix and hand back the
tail. It is the shape of every "fixint" binary serialiser: no field is
delimited, so a decoder must know exactly how much to take.

The one relation everything is stated with is `Reads d bs x`: on *any* input
that starts with `bs`, the decoder `d` returns `x` and leaves exactly what
followed. `Reads` composes along `>>=` (`Reads.bind`), so the round trip of a
record is the concatenation of the round trips of its fields, and it is the
source of injectivity too: two values read from the same bytes are equal
(`Reads.unique`), also when different tails follow (`Reads.append_inj`).
-/

namespace Pyrax.Wire

/-! ## Little-endian naturals -/

/-- The `n` low-order bytes of `x`, least significant first. -/
def leBytes : Nat → Nat → List UInt8
  | 0, _ => []
  | n + 1, x => UInt8.ofNat x :: leBytes n (x / 256)

/-- The natural number a little-endian byte string denotes. -/
def leNat : List UInt8 → Nat
  | [] => 0
  | b :: bs => b.toNat + 256 * leNat bs

@[simp] theorem leBytes_length (n x : Nat) : (leBytes n x).length = n := by
  induction n generalizing x with
  | zero => rfl
  | succ n ih => simp [leBytes, ih]

/-- Decoding the `n` low bytes gives the value modulo `256 ^ n`. -/
theorem leNat_leBytes (n x : Nat) : leNat (leBytes n x) = x % 256 ^ n := by
  induction n generalizing x with
  | zero => simp [leBytes, leNat, Nat.mod_one]
  | succ n ih =>
    have hbyte : (UInt8.ofNat x).toNat = x % 256 := UInt8.toNat_ofNat'
    rw [leBytes, leNat, ih, hbyte, Nat.pow_succ', Nat.mod_mul]

/-- Bytes that are read are written again. -/
theorem leBytes_leNat : ∀ bs : List UInt8, leBytes bs.length (leNat bs) = bs
  | [] => rfl
  | b :: bs => by
    have hb : b.toNat < 256 := b.toNat_lt
    have hdiv : (b.toNat + 256 * leNat bs) / 256 = leNat bs := by omega
    have hmod : UInt8.ofNat (b.toNat + 256 * leNat bs) = b := by
      refine UInt8.toNat_inj.mp ?_
      rw [UInt8.toNat_ofNat']
      show (b.toNat + 256 * leNat bs) % 256 = b.toNat
      omega
    rw [leNat, List.length_cons, leBytes, hdiv, hmod, leBytes_leNat bs]

/-- Bytes are combined one by one. -/
theorem leBytes_xor (n x y : Nat) :
    leBytes n (x ^^^ y) = List.zipWith (· ^^^ ·) (leBytes n x) (leBytes n y) := by
  induction n generalizing x y with
  | zero => rfl
  | succ n ih =>
    have hrest : (x ^^^ y) / 256 = x / 256 ^^^ y / 256 := by
      have hshift := Nat.shiftRight_xor_distrib (a := x) (b := y) (i := 8)
      rwa [Nat.shiftRight_eq_div_pow, Nat.shiftRight_eq_div_pow, Nat.shiftRight_eq_div_pow] at hshift
    rw [leBytes, leBytes, leBytes, List.zipWith_cons_cons, hrest, ih, UInt8.ofNat_xor]

/-! ## Decoders -/

/-- A decoder takes a byte string and, on success, returns a value and the
bytes it did not consume. -/
abbrev Decoder (α : Type) := StateT (List UInt8) Option α

/-- On every input that starts with `bs` the decoder yields `x` and leaves the
rest. -/
def Reads {α : Type} (d : Decoder α) (bs : List UInt8) (x : α) : Prop :=
  ∀ rest, d.run (bs ++ rest) = some (x, rest)

section Reads

variable {α β : Type} {d : Decoder α} {bs cs r s : List UInt8} {x y : α}

theorem Reads.pure (x : α) : Reads (Pure.pure x) [] x := by
  intro rest
  rfl

/-- Sequencing decoders concatenates what they read. -/
theorem Reads.bind {f : α → Decoder β} {z : β} (hd : Reads d bs x)
    (hf : Reads (f x) cs z) : Reads (d >>= f) (bs ++ cs) z := by
  intro rest
  have h1 := hd (cs ++ rest)
  have h2 := hf rest
  rw [List.append_assoc, StateT.run_bind, h1]
  exact h2

/-- A decoder that ends in a `pure` reads nothing more. -/
theorem Reads.map {f : α → Decoder β} {z : β} (hd : Reads d bs x)
    (hf : Reads (f x) [] z) : Reads (d >>= f) bs z := by
  have h := hd.bind hf
  rwa [List.append_nil] at h

/-- Two values read off inputs that agree are equal, and so are the tails. -/
theorem Reads.append_inj (hx : Reads d bs x) (hy : Reads d cs y)
    (h : bs ++ r = cs ++ s) : x = y ∧ r = s := by
  have h1 := hx r
  rw [h, hy s] at h1
  simp only [Option.some.injEq, Prod.mk.injEq] at h1
  exact ⟨h1.1.symm, h1.2.symm⟩

/-- One byte string carries at most one value. -/
theorem Reads.unique (hx : Reads d bs x) (hy : Reads d bs y) : x = y :=
  (hx.append_inj hy rfl : x = y ∧ ([] : List UInt8) = []).1

end Reads

/-- Take exactly `n` bytes; fail at the end of the input. -/
def takeBytes (n : Nat) : Decoder (List UInt8) := fun bs =>
  if bs.length < n then none else some (bs.take n, bs.drop n)

theorem reads_takeBytes {n : Nat} {bs : List UInt8} (h : bs.length = n) :
    Reads (takeBytes n) bs bs := by
  intro rest
  show takeBytes n (bs ++ rest) = _
  unfold takeBytes
  rw [if_neg (by rw [List.length_append]; omega), List.take_left' h, List.drop_left' h]

/-! ## Machine integers -/

def encU8 (x : UInt8) : List UInt8 := [x]

def encU32 (x : UInt32) : List UInt8 := leBytes 4 x.toNat

def encU64 (x : UInt64) : List UInt8 := leBytes 8 x.toNat

@[simp] theorem encU8_length (x : UInt8) : (encU8 x).length = 1 := rfl

@[simp] theorem encU32_length (x : UInt32) : (encU32 x).length = 4 := leBytes_length ..

@[simp] theorem encU64_length (x : UInt64) : (encU64 x).length = 8 := leBytes_length ..

def decU8 : Decoder UInt8 := do
  let bs ← takeBytes 1
  pure (bs.headD 0)

def decU32 : Decoder UInt32 := do
  let bs ← takeBytes 4
  pure (UInt32.ofNat (leNat bs))

def decU64 : Decoder UInt64 := do
  let bs ← takeBytes 8
  pure (UInt64.ofNat (leNat bs))

theorem reads_u8 (x : UInt8) : Reads decU8 (encU8 x) x :=
  (reads_takeBytes (n := 1) rfl).map (Reads.pure x)

theorem reads_u32 (x : UInt32) : Reads decU32 (encU32 x) x := by
  refine (reads_takeBytes (encU32_length x)).map ?_
  have hx : x.toNat < 256 ^ 4 := x.toNat_lt
  have h : UInt32.ofNat (leNat (encU32 x)) = x := by
    rw [encU32, leNat_leBytes, Nat.mod_eq_of_lt hx, UInt32.ofNat_toNat]
  rw [h]
  exact Reads.pure x

theorem reads_u64 (x : UInt64) : Reads decU64 (encU64 x) x := by
  refine (reads_takeBytes (encU64_length x)).map ?_
  have hx : x.toNat < 256 ^ 8 := x.toNat_lt
  have h : UInt64.ofNat (leNat (encU64 x)) = x := by
    rw [encU64, leNat_leBytes, Nat.mod_eq_of_lt hx, UInt64.ofNat_toNat]
  rw [h]
  exact Reads.pure x

/-- A little-endian `u32` determines the number it encodes. -/
theorem encU32_inj {x y : UInt32} (h : encU32 x = encU32 y) : x = y :=
  Reads.unique (h ▸ reads_u32 x) (reads_u32 y)

/-- A little-endian `u64` determines the number it encodes. -/
theorem encU64_inj {x y : UInt64} (h : encU64 x = encU64 y) : x = y :=
  Reads.unique (h ▸ reads_u64 x) (reads_u64 y)

/-- Any eight bytes are those of a word. -/
theorem exists_encU64 {bs : List UInt8} (h : bs.length = 8) : ∃ x : UInt64, encU64 x = bs := by
  refine ⟨UInt64.ofNat (leNat bs), ?_⟩
  have hlt : leNat bs < 2 ^ 64 := by
    have := leNat_leBytes bs.length (leNat bs)
    rw [leBytes_leNat, h] at this
    omega
  rw [encU64, UInt64.toNat_ofNat_of_lt' hlt, ← h, leBytes_leNat]

/-! ## Length-prefixed vectors -/

section Vec

variable {α : Type}

/-- A vector is its length as a `u64` followed by its elements. -/
def encVec (enc : α → List UInt8) (xs : List α) : List UInt8 :=
  leBytes 8 xs.length ++ xs.flatMap enc

/-- Read `n` elements one after the other. -/
def decMany (d : Decoder α) : Nat → Decoder (List α)
  | 0 => pure []
  | n + 1 => do
    let x ← d
    let xs ← decMany d n
    pure (x :: xs)

def decVec (d : Decoder α) : Decoder (List α) := do
  let n ← decU64
  decMany d n.toNat

theorem encVec_length (enc : α → List UInt8) (xs : List α) :
    (encVec enc xs).length = 8 + (xs.map fun x => (enc x).length).sum := by
  rw [encVec, List.length_append, leBytes_length, List.length_flatMap]

theorem reads_decMany {d : Decoder α} {enc : α → List UInt8} :
    ∀ {xs : List α}, (∀ x ∈ xs, Reads d (enc x) x) →
      Reads (decMany d xs.length) (xs.flatMap enc) xs
  | [], _ => Reads.pure []
  | x :: xs, h => by
    have ih : Reads (decMany d xs.length) (xs.flatMap enc) xs :=
      reads_decMany fun y hy => h y (List.mem_cons_of_mem _ hy)
    rw [List.flatMap_cons]
    exact (h x (List.mem_cons_self ..)).bind (ih.map (Reads.pure _))

/-- A vector whose length fits the prefix is read back, element by element. -/
theorem reads_vec {d : Decoder α} {enc : α → List UInt8} {xs : List α}
    (hlen : xs.length < 2 ^ 64) (h : ∀ x ∈ xs, Reads d (enc x) x) :
    Reads (decVec d) (encVec enc xs) xs := by
  have hpre : encU64 (UInt64.ofNat xs.length) = leBytes 8 xs.length := by
    rw [encU64, UInt64.toNat_ofNat_of_lt' hlen]
  have hn : (UInt64.ofNat xs.length).toNat = xs.length := UInt64.toNat_ofNat_of_lt' hlen
  have hread := reads_u64 (UInt64.ofNat xs.length)
  rw [hpre] at hread
  refine hread.bind ?_
  rw [hn]
  exact reads_decMany h

/-- The same with the length as a `u32`. -/
def encVec32 (enc : α → List UInt8) (xs : List α) : List UInt8 :=
  encU32 (UInt32.ofNat xs.length) ++ xs.flatMap enc

def decVec32 (d : Decoder α) : Decoder (List α) := do
  let n ← decU32
  decMany d n.toNat

theorem reads_vec32 {d : Decoder α} {enc : α → List UInt8} {xs : List α}
    (hlen : xs.length < 2 ^ 32) (h : ∀ x ∈ xs, Reads d (enc x) x) :
    Reads (decVec32 d) (encVec32 enc xs) xs := by
  have hn : (UInt32.ofNat xs.length).toNat = xs.length := UInt32.toNat_ofNat_of_lt' hlen
  refine (reads_u32 (UInt32.ofNat xs.length)).bind ?_
  rw [hn]
  exact reads_decMany h

theorem encVec32_bytes (bs : List UInt8) :
    encVec32 encU8 bs = encU32 (UInt32.ofNat bs.length) ++ bs := by
  have hbytes : ∀ bs : List UInt8, bs.flatMap encU8 = bs := by
    intro bs
    induction bs with
    | nil => rfl
    | cons b bs ih => rw [List.flatMap_cons, ih]; rfl
  rw [encVec32, hbytes]

/-- The bytes of a vector are at least as many as its elements' bytes. -/
theorem length_mul_le_encVec (enc : α → List UInt8) (k : Nat) (xs : List α)
    (h : ∀ x ∈ xs, k ≤ (enc x).length) : k * xs.length ≤ (encVec enc xs).length := by
  rw [encVec_length]
  have hsum : k * xs.length ≤ (xs.map fun x => (enc x).length).sum := by
    induction xs with
    | nil => simp
    | cons x xs ih =>
      have hx := h x (List.mem_cons_self ..)
      have ih' := ih fun y hy => h y (List.mem_cons_of_mem _ hy)
      rw [List.length_cons, List.map_cons, List.sum_cons, Nat.mul_succ]
      omega
  omega

end Vec

/-! ## Longer inputs -/

/-- What follows the bytes that are taken does not matter. -/
def Local {α : Type} (d : Decoder α) : Prop :=
  ∀ bs x r, d.run bs = some (x, r) → ∀ tail, d.run (bs ++ tail) = some (x, r ++ tail)

section Local

variable {α β : Type} {d : Decoder α}

theorem local_pure (x : α) : Local (pure x) := by
  intro bs y r h tail
  cases h
  rfl

theorem Local.bind {f : α → Decoder β} (hd : Local d) (hf : ∀ x, Local (f x)) :
    Local (d >>= f) := by
  intro bs z r h tail
  rw [StateT.run_bind] at h
  obtain ⟨⟨x, s⟩, hx, hz⟩ := Option.bind_eq_some_iff.mp h
  rw [StateT.run_bind, hd bs x s hx tail]
  exact hf x s z r hz tail

theorem local_takeBytes (n : Nat) : Local (takeBytes n) := by
  intro bs x r h tail
  change takeBytes n bs = some (x, r) at h
  show takeBytes n (bs ++ tail) = some (x, r ++ tail)
  unfold takeBytes at h ⊢
  split at h
  · cases h
  · next hlen =>
    cases h
    rw [if_neg (by rw [List.length_append]; omega), List.take_append_of_le_length (by omega),
      List.drop_append_of_le_length (by omega)]

theorem local_u32 : Local decU32 := (local_takeBytes 4).bind fun _ => local_pure _

theorem local_u64 : Local decU64 := (local_takeBytes 8).bind fun _ => local_pure _

theorem Local.decMany (hd : Local d) : ∀ n : Nat, Local (decMany d n)
  | 0 => local_pure []
  | n + 1 => hd.bind fun _ => (Local.decMany hd n).bind fun _ => local_pure _

end Local
/-! ## Concatenations without lengths -/

/-- Where the pieces are as long, a concatenation is read in one way. -/
theorem map_eq_of_flatMap_eq {β : Type} {f : α → List β} {xs ys : List α}
    (hlengths : xs.map (fun x => (f x).length) = ys.map fun y => (f y).length)
    (h : xs.flatMap f = ys.flatMap f) : xs.map f = ys.map f := by
  rw [List.flatMap_def, List.flatMap_def] at h
  refine List.eq_iff_flatten_eq.mpr ⟨h, ?_⟩
  rw [List.map_map, List.map_map]
  exact hlengths

/-- Pieces of one width are cut at its multiples. -/
theorem map_eq_of_flatMap_eq_of_width {β : Type} {f : α → List β} {w : Nat} (hw : 0 < w)
    (hwidth : ∀ x, (f x).length = w) {xs ys : List α} (h : xs.flatMap f = ys.flatMap f) :
    xs.map f = ys.map f := by
  have hlength : ∀ zs : List α, (zs.flatMap f).length = zs.length * w := by
    intro zs
    simp [List.length_flatMap, hwidth]
  have hcount : xs.length = ys.length := by
    have hboth := congrArg List.length h
    rw [hlength, hlength] at hboth
    exact Nat.eq_of_mul_eq_mul_right hw hboth
  refine map_eq_of_flatMap_eq ?_ h
  simp [hwidth, hcount]

/-- Pieces that end by themselves are read off their concatenation in one way. -/
theorem map_eq_of_flatMap_eq_of_reads {β : Type} {d : Decoder β} {enc : α → List UInt8}
    {g : α → β} (hne : ∀ x, enc x ≠ []) :
    ∀ {xs ys : List α}, (∀ x ∈ xs, Reads d (enc x) (g x)) → (∀ y ∈ ys, Reads d (enc y) (g y)) →
      xs.flatMap enc = ys.flatMap enc → xs.map g = ys.map g
  | [], [], _, _, _ => rfl
  | [], y :: ys, _, _, h => by
    rw [List.flatMap_nil, List.flatMap_cons] at h
    exact absurd (List.append_eq_nil_iff.mp h.symm).1 (hne y)
  | x :: xs, [], _, _, h => by
    rw [List.flatMap_nil, List.flatMap_cons] at h
    exact absurd (List.append_eq_nil_iff.mp h).1 (hne x)
  | x :: xs, y :: ys, hx, hy, h => by
    rw [List.flatMap_cons, List.flatMap_cons] at h
    obtain ⟨hhead, htail⟩ :=
      (hx x (List.mem_cons_self ..)).append_inj (hy y (List.mem_cons_self ..)) h
    rw [List.map_cons, List.map_cons, hhead,
      map_eq_of_flatMap_eq_of_reads hne (fun z hz => hx z (List.mem_cons_of_mem _ hz))
        (fun z hz => hy z (List.mem_cons_of_mem _ hz)) htail]

/-- What two readings of the members tell together, they tell of the whole lists. -/
theorem map_eq_of_maps {β γ δ : Type} {f : α → β} {g : α → γ} {k : α → δ} :
    ∀ {xs ys : List α}, xs.map f = ys.map f → xs.map g = ys.map g →
      (∀ x ∈ xs, ∀ y ∈ ys, f x = f y → g x = g y → k x = k y) → xs.map k = ys.map k
  | [], [], _, _, _ => rfl
  | x :: xs, y :: ys, hf, hg, hk => by
    obtain ⟨hfhead, hftail⟩ := List.cons_eq_cons.mp hf
    obtain ⟨hghead, hgtail⟩ := List.cons_eq_cons.mp hg
    have hhead := hk x (List.mem_cons_self ..) y (List.mem_cons_self ..) hfhead hghead
    have htail : xs.map k = ys.map k := map_eq_of_maps hftail hgtail fun z hz w hw =>
      hk z (List.mem_cons_of_mem _ hz) w (List.mem_cons_of_mem _ hw)
    rw [List.map_cons, List.map_cons, hhead, htail]

/-! ## Byte strings as big-endian magnitudes -/

/-- No byte string of a given length exceeds the all-ones string of that
length in the lexicographic order. -/
theorem le_replicate_ff : ∀ bs : List UInt8, bs ≤ List.replicate bs.length 255
  | [] => by simp
  | b :: bs => by
    rw [List.length_cons, List.replicate_succ, List.cons_le_cons_iff]
    have hb : b.toNat ≤ 255 := Nat.le_of_lt_succ b.toNat_lt
    rcases Nat.lt_or_ge b.toNat 255 with hlt | hge
    · exact Or.inl (UInt8.lt_iff_toNat_lt.mpr hlt)
    · exact Or.inr ⟨UInt8.toNat_inj.mp (Nat.le_antisymm hb hge), le_replicate_ff bs⟩

end Pyrax.Wire
