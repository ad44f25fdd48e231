import Pyrax.Stratum.Dag

/-!
# The two caches of an epoch

The manager of `dag.rs` mixes an item with the item it chooses, `generate_cache` of `kawpow.rs`,
whose cache the stratum server checks shares with, the item *before* it. A hash without
collisions that tells the two apart moves marks around (`marks`). An item is tagged, or not; the
hash keeps the tags, and counts how often a tagged item is hashed. Every item chooses the first
one. With its own item as a partner the first item loses its tag, and the others keep theirs;
with the item before as a partner they all lose theirs one after the other.
-/

namespace Pyrax.Stratum

open Base

/-! ## What is hashed -/

section Hashed

variable (C : Crypto) (keccak512 : List UInt8 → Item) (epoch : UInt64)

/-- What Keccak-512 is called with for the two caches of an epoch. -/
def hashed : List (List UInt8) :=
  let n := (getCacheSize epoch).toNat / 64
  let m := memoHash keccak512
  let items := m.chain (keccak512 (computeSeed C epoch).asBytes) (n - 1)
  (computeSeed C epoch).asBytes :: (items.dropLast ++
    (m.mixed (m.withOwn n) items (MemoHash.rounds n CACHE_ROUNDS) ++
      m.mixed (m.withPrevious n) items (MemoHash.rounds n 3))).map Vector.toList

/-- No two of them have the same hash. -/
def CollisionFree : Prop :=
  ∀ x ∈ hashed C keccak512 epoch, ∀ y ∈ hashed C keccak512 epoch, keccak512 x = keccak512 y → x = y

end Hashed

/-! ## Marks -/

structure Mark where
  tagged : Bool
  count : UInt64
  deriving DecidableEq

def marks : MemoHash Mark where
  zero := ⟨false, 0⟩
  xor a b := ⟨a.tagged ^^ b.tagged, a.count ^^^ b.count⟩
  hash a := if a.tagged then ⟨true, a.count + 1⟩ else a
  index _ := 0

theorem marks_hash_inj {a b : Mark} (h : marks.hash a = marks.hash b) : a = b := by
  obtain ⟨_ | _, c⟩ := a <;> obtain ⟨_ | _, d⟩ := b
  · exact h
  · cases congrArg Mark.tagged h
  · cases congrArg Mark.tagged h
  · have hcount : c + 1 = d + 1 := congrArg Mark.count h
    rw [add_right_cancel hcount]

theorem chain_tagged {k : Nat} {a x : Mark} (h : a.tagged = true) (hx : x ∈ marks.chain a k) :
    x.tagged = true ∧ x.count.toNat ≤ a.count.toNat + k := by
  induction k generalizing a with
  | zero =>
    rw [List.mem_singleton.mp hx]
    exact ⟨h, Nat.le_refl _⟩
  | succ k ih =>
    rcases List.mem_cons.mp hx with rfl | hx
    · exact ⟨h, Nat.le_add_right ..⟩
    · have hhash : marks.hash a = ⟨true, a.count + 1⟩ := if_pos h
      obtain ⟨htagged, hcount⟩ := ih (by rw [hhash]) hx
      have hsum : (a.count + 1).toNat ≤ a.count.toNat + 1 := by
        rw [UInt64.toNat_add]
        exact Nat.mod_le ..
      rw [hhash] at hcount
      refine ⟨htagged, hcount.trans ?_⟩
      dsimp only
      omega

section Rounds

variable {n b i j : Nat} {cache : List Mark}

/-- A tagged mark that is hashed has been hashed so often at most. -/
def Mark.Within (b : Nat) (a : Mark) : Prop := a.tagged = true → a.count.toNat ≤ b

/-! ### With its own item -/

/-- All items but the first are tagged. -/
structure Tags (n b : Nat) (cache : List Mark) : Prop where
  length : cache.length = n
  first : marks.item cache 0 = ⟨false, 0⟩
  others : ∀ j, 0 < j → j < n → (marks.item cache j).tagged = true ∧
    (marks.item cache j).count.toNat ≤ b

theorem withOwn_marks (cache : List Mark) (i : Nat) :
    marks.withOwn n cache i = marks.xor (marks.item cache i) (marks.item cache 0) := by
  rw [MemoHash.withOwn]
  exact congrArg (fun i' => marks.xor (marks.item cache i) (marks.item cache i')) (Nat.zero_mod n)

theorem marks_xor_self (a : Mark) : marks.xor a a = ⟨false, 0⟩ := by
  show (⟨a.tagged ^^ a.tagged, a.count ^^^ a.count⟩ : Mark) = _
  rw [Bool.xor_self, UInt64.xor_self]

theorem marks_xor_zero (a : Mark) : marks.xor a ⟨false, 0⟩ = a := by
  show (⟨a.tagged ^^ false, a.count ^^^ 0⟩ : Mark) = _
  rw [Bool.xor_false, UInt64.xor_zero]

/-- The first item loses its tag when it is mixed with itself. -/
theorem Tags.start (hlen : cache.length = n) (hn : 0 < n)
    (h : ∀ j, 0 < j → j < n → (marks.item cache j).tagged = true ∧
      (marks.item cache j).count.toNat ≤ b) :
    Tags n b (marks.rewrite (marks.withOwn n) cache 0) where
  length := MemoHash.length_rewrite.trans hlen
  first := by
    rw [MemoHash.item_rewrite_self (by omega), withOwn_marks, marks_xor_self]
    rfl
  others j hj hjn := by
    rw [MemoHash.item_rewrite_of_ne (by omega)]
    exact h j hj hjn

theorem Tags.step (h : Tags n b cache) (hi : i < n) :
    Tags n (b + 1) (marks.rewrite (marks.withOwn n) cache i) ∧
      (marks.withOwn n cache i).Within b := by
  by_cases hzero : i = 0
  · rw [hzero, withOwn_marks, marks_xor_self]
    refine ⟨Tags.start h.length (by omega) fun j hj hjn => ?_, fun htagged => by cases htagged⟩
    exact ⟨(h.others j hj hjn).1, Nat.le_succ_of_le (h.others j hj hjn).2⟩
  · have hmix : marks.withOwn n cache i = marks.item cache i := by
      rw [withOwn_marks, h.first, marks_xor_zero]
    obtain ⟨htagged, hcount⟩ := h.others i (by omega) hi
    refine ⟨⟨MemoHash.length_rewrite.trans h.length, ?_, fun j hj hjn => ?_⟩,
      fun _ => hmix ▸ hcount⟩
    · rw [MemoHash.item_rewrite_of_ne (Ne.symm hzero)]
      exact h.first
    · by_cases hji : j = i
      · have hhash : marks.hash (marks.item cache i) = ⟨true, (marks.item cache i).count + 1⟩ :=
          if_pos htagged
        rw [hji, MemoHash.item_rewrite_self (h.length ▸ hi), hmix, hhash]
        refine ⟨rfl, ?_⟩
        show ((marks.item cache i).count + 1).toNat ≤ b + 1
        rw [UInt64.toNat_add]
        exact (Nat.mod_le ..).trans (Nat.succ_le_succ hcount)
      · rw [MemoHash.item_rewrite_of_ne hji]
        exact ⟨(h.others j hj hjn).1, Nat.le_succ_of_le (h.others j hj hjn).2⟩

/-! ### With the item before -/

/-- The items from `i` on are tagged. -/
structure Cleared (n i : Nat) (cache : List Mark) : Prop where
  length : cache.length = n
  tagged : ∀ j < n, (marks.item cache j).tagged = decide (i ≤ j)

theorem withPrevious_marks (cache : List Mark) (i : Nat) :
    marks.withPrevious n cache i =
      marks.xor (marks.item cache (if i = 0 then n - 1 else i - 1)) (marks.item cache 0) := by
  rw [MemoHash.withPrevious]
  exact congrArg (fun i' => marks.xor (marks.item cache _) (marks.item cache i')) (Nat.zero_mod n)

/-- What is hashed is untagged: either both are tagged, or none. -/
theorem Cleared.mixed (h : Cleared n i cache) (hj : j < n) (hij : j = i ∨ i = n) :
    (marks.withPrevious n cache j).tagged = false := by
  rw [withPrevious_marks]
  show ((marks.item cache _).tagged ^^ (marks.item cache 0).tagged) = false
  have hboth : decide (i ≤ if j = 0 then n - 1 else j - 1) = decide (i ≤ 0) := by
    rw [decide_eq_decide]
    split <;> omega
  rw [h.tagged 0 (by omega), h.tagged _ (by split <;> omega), hboth, Bool.xor_self]

/-- An untagged mark is its own hash. -/
theorem Cleared.rewrite (h : Cleared n i cache) (hj : j < n) (hij : j = i ∨ i = n) {k : Nat}
    (hkj : j < k) (hk : ∀ j' < n, j' ≠ j → (k ≤ j' ↔ i ≤ j')) :
    Cleared n k (marks.rewrite (marks.withPrevious n) cache j) where
  length := MemoHash.length_rewrite.trans h.length
  tagged j' hj' := by
    by_cases hjj : j' = j
    · have hmix := h.mixed hj hij
      have hhash : marks.hash (marks.withPrevious n cache j) = marks.withPrevious n cache j :=
        if_neg (by rw [hmix]; decide)
      rw [hjj, MemoHash.item_rewrite_self (h.length ▸ hj), hhash, hmix]
      exact (decide_eq_false (Nat.not_le.mpr hkj)).symm
    · rw [MemoHash.item_rewrite_of_ne hjj, h.tagged j' hj', decide_eq_decide]
      exact (hk j' hj' hjj).symm

/-! ### Both runs -/

/-- From a chain of tagged marks: the second item, and what is hashed on the way. -/
theorem marks_withOwn (hn : 2 ≤ n) :
    let items := marks.chain ⟨true, 0⟩ (n - 1)
    (marks.item (marks.pass (marks.withOwn n) items (MemoHash.rounds n CACHE_ROUNDS)) 1).tagged
        = true ∧
      ∀ x ∈ marks.mixed (marks.withOwn n) items (MemoHash.rounds n CACHE_ROUNDS),
        x.Within (4 * n) := by
  intro items
  have hlen : items.length = n := by
    rw [MemoHash.length_chain]
    omega
  have hitems : ∀ j, 0 < j → j < n → (marks.item items j).tagged = true ∧
      (marks.item items j).count.toNat ≤ n := by
    intro j _ hj
    obtain ⟨htagged, hcount⟩ := chain_tagged rfl (MemoHash.item_mem (hlen ▸ hj))
    refine ⟨htagged, hcount.trans ?_⟩
    show (0 : UInt64).toNat + (n - 1) ≤ n
    rw [UInt64.toNat_zero]
    omega
  -- the very first step is not one between an untagged item and a tagged one
  obtain ⟨is, his⟩ : ∃ is, MemoHash.rounds n CACHE_ROUNDS = 0 :: is := by
    obtain ⟨k, rfl⟩ : ∃ k, n = k + 1 := ⟨n - 1, by omega⟩
    rw [CACHE_ROUNDS, MemoHash.rounds_succ, List.range_succ_eq_map]
    exact ⟨_, rfl⟩
  have hcount : is.length + 1 = 3 * n := by
    rw [← List.length_cons, ← his, MemoHash.length_rounds, CACHE_ROUNDS]
  obtain ⟨htags, hmixed⟩ := MemoHash.pass_bound is (P := Tags n) (Q := Mark.Within)
    (fun hb hx htagged => (hx htagged).trans hb)
    (fun b cache i hi h => h.step (MemoHash.mem_rounds (his ▸ List.mem_cons_of_mem 0 hi)))
    (Tags.start hlen (by omega) hitems)
  rw [his]
  refine ⟨(htags.others 1 (by decide) (by omega)).1, fun x hx => ?_⟩
  rcases List.mem_cons.mp hx with rfl | hx
  · rw [withOwn_marks, marks_xor_self]
    exact fun htagged => by cases htagged
  · exact fun htagged => (hmixed x hx htagged).trans (by omega)

theorem marks_withPrevious (hn : 2 ≤ n) :
    let items := marks.chain ⟨true, 0⟩ (n - 1)
    (marks.item (marks.pass (marks.withPrevious n) items (MemoHash.rounds n 3)) 1).tagged
        = false ∧
      ∀ x ∈ marks.mixed (marks.withPrevious n) items (MemoHash.rounds n 3), x.tagged = false := by
  intro items
  have hlen : items.length = n := by
    rw [MemoHash.length_chain]
    omega
  have hitems : Cleared n 0 items := by
    refine ⟨hlen, fun j hj => ?_⟩
    have htagged := (chain_tagged rfl (MemoHash.item_mem (m := marks) (hlen ▸ hj))).1
    exact htagged.trans (decide_eq_true (Nat.zero_le j)).symm
  obtain ⟨hfirst, hmixed⟩ := MemoHash.pass_range (P := Cleared n) (Q := fun x => x.tagged = false)
    (fun i cache hi h => ⟨h.rewrite hi (.inl rfl) (Nat.lt_succ_self i) (by omega),
      h.mixed hi (.inl rfl)⟩) hitems
  obtain ⟨hall, hlater⟩ := MemoHash.pass_bound (MemoHash.rounds n 2)
    (P := fun _ => Cleared n n) (Q := fun _ x => x.tagged = false) (b := 0) (fun _ h => h)
    (fun _ cache i hi h => ⟨h.rewrite (MemoHash.mem_rounds hi) (.inr rfl) (MemoHash.mem_rounds hi)
      (by omega), h.mixed (MemoHash.mem_rounds hi) (.inr rfl)⟩) hfirst
  rw [MemoHash.rounds_succ, MemoHash.pass_append, MemoHash.mixed_append]
  refine ⟨(hall.tagged 1 (by omega)).trans (decide_eq_false (by omega)), fun x hx => ?_⟩
  rcases List.mem_append.mp hx with hx | hx
  · exact hmixed x hx
  · exact hlater x hx

end Rounds

/-! ## Marks as items -/

namespace Mark

/-- The first four bytes, by which an item chooses, are zero. -/
def bytes (a : Mark) : List UInt8 :=
  List.replicate 4 0 ++ (UInt8.ofNat a.tagged.toNat :: (Wire.encU64 a.count ++ List.replicate 51 0))

def ofBytes (bytes : List UInt8) : Mark :=
  ⟨bytes.getD 4 0 = 1, UInt64.ofNat (Wire.leNat ((bytes.drop 5).take 8))⟩

def item (a : Mark) : Item := arrayFromSlice 64 a.bytes

theorem length_bytes (a : Mark) : a.bytes.length = 64 := by
  simp [bytes]

theorem toList_item (a : Mark) : a.item.toList = a.bytes := toList_arrayFromSlice a.length_bytes

theorem ofBytes_bytes (a : Mark) : ofBytes a.bytes = a := by
  have hlen : (Wire.encU64 a.count).length = 8 := Wire.encU64_length _
  have hcount : a.count.toNat < 256 ^ 8 := a.count.toNat_lt
  have htake : (a.bytes.drop 5).take 8 = Wire.encU64 a.count := List.take_left' hlen
  rw [ofBytes, htake, Wire.encU64, Wire.leNat_leBytes, Nat.mod_eq_of_lt hcount, UInt64.ofNat_toNat]
  obtain ⟨_ | _, c⟩ := a <;> rfl

theorem bytes_inj {a b : Mark} (h : a.bytes = b.bytes) : a = b := by
  rw [← ofBytes_bytes a, h, ofBytes_bytes]

theorem item_inj {a b : Mark} (h : a.item = b.item) : a = b :=
  bytes_inj (by rw [← toList_item, h, toList_item])

theorem bytes_xor (a b : Mark) :
    (marks.xor a b).bytes = List.zipWith (· ^^^ ·) a.bytes b.bytes := by
  have hcount : Wire.encU64 (a.count ^^^ b.count)
      = List.zipWith (· ^^^ ·) (Wire.encU64 a.count) (Wire.encU64 b.count) := by
    rw [Wire.encU64, UInt64.toNat_xor, Wire.leBytes_xor]
    rfl
  have htag : UInt8.ofNat (a.tagged ^^ b.tagged).toNat
      = UInt8.ofNat a.tagged.toNat ^^^ UInt8.ofNat b.tagged.toNat := by
    cases a.tagged <;> cases b.tagged <;> rfl
  show List.replicate 4 0 ++ (UInt8.ofNat (a.tagged ^^ b.tagged).toNat ::
    (Wire.encU64 (a.count ^^^ b.count) ++ List.replicate 51 0)) = _
  rw [bytes, bytes, List.zipWith_append rfl, List.zipWith_cons_cons,
    List.zipWith_append (by rw [Wire.encU64_length, Wire.encU64_length]), ← hcount, ← htag]
  rfl

end Mark

/-- Keccak-512 on marks, and on anything else the first mark. -/
def markHash (bytes : List UInt8) : Item :=
  if bytes.length = 64 then (marks.hash (Mark.ofBytes bytes)).item else Mark.item ⟨true, 0⟩

theorem markHash_bytes (a : Mark) : markHash a.bytes = (marks.hash a).item := by
  rw [markHash, if_pos a.length_bytes, Mark.ofBytes_bytes]

theorem markHash_seed (seed : H256) : markHash seed.asBytes = Mark.item ⟨true, 0⟩ :=
  if_neg (by rw [seed.asBytes_length]; decide)

/-- Items under this hash are marks. -/
theorem hom_marks : MemoHash.Hom marks (memoHash markHash) Mark.item where
  zero := by decide +kernel
  xor a b := by
    refine Vector.toList_inj.mp ?_
    rw [Mark.toList_item, Mark.bytes_xor, memoHash_xor, Vector.toList_zipWith, Mark.toList_item,
      Mark.toList_item]
  hash a := by
    rw [memoHash_hash, Mark.toList_item, markHash_bytes]
  index a := by
    have hzeros : a.bytes.take 4 = List.replicate 4 0 := List.take_left' List.length_replicate
    rw [memoHash_index, Mark.toList_item, hzeros]
    rfl

/-! ## The refutation -/

section Refutation

variable {C : Crypto} {epoch : UInt64}

/-- A cache that has items has 2048 of them. -/
theorem two_le_items (h : 0 < (getCacheSize epoch).toNat / 64) :
    2 ≤ (getCacheSize epoch).toNat / 64 := by
  have hsize : (getCacheSize epoch).toNat = (2 ^ 24 + 2 ^ 17 * epoch.toNat) % 2 ^ 64 := by
    rw [getCacheSize, UInt64.toNat_add, UInt64.toNat_mul]
    show (2 ^ 24 + (2 ^ 17 * epoch.toNat) % 2 ^ 64) % 2 ^ 64 = _
    rw [Nat.add_mod_mod]
  omega

/-- What is hashed is the seed, or a mark that has not been hashed `2 ^ 64 - 1` times. -/
theorem mem_hashed (h : 0 < (getCacheSize epoch).toNat / 64) {x : List UInt8}
    (hx : x ∈ hashed C markHash epoch) :
    x = (computeSeed C epoch).asBytes ∨ ∃ a : Mark, a.Within (2 ^ 64 - 2) ∧ x = a.bytes := by
  have hn := two_le_items h
  have hle : (getCacheSize epoch).toNat / 64 ≤ 2 ^ 58 := by
    have hsize := (getCacheSize epoch).toNat_lt
    omega
  unfold hashed at hx
  dsimp only at hx
  rw [markHash_seed, hom_marks.chain, hom_marks.mixed (fun _ _ => hom_marks.withOwn _ _ _),
    hom_marks.mixed (fun _ _ => hom_marks.withPrevious _ _ _), ← List.map_dropLast,
    ← List.map_append, ← List.map_append, List.map_map] at hx
  generalize (getCacheSize epoch).toNat / 64 = n at *
  rcases List.mem_cons.mp hx with hx | hx
  · exact .inl hx
  · obtain ⟨a, ha, rfl⟩ := List.mem_map.mp hx
    refine .inr ⟨a, fun htagged => ?_, Mark.toList_item a⟩
    rcases List.mem_append.mp ha with ha | ha
    · have hcount := (chain_tagged rfl (List.mem_of_mem_dropLast ha)).2
      rw [UInt64.toNat_zero] at hcount
      omega
    · rcases List.mem_append.mp ha with ha | ha
      · exact ((marks_withOwn hn).2 a ha htagged).trans (by omega)
      · rw [(marks_withPrevious hn).2 a ha] at htagged
        cases htagged

theorem collisionFree_markHash (h : 0 < (getCacheSize epoch).toNat / 64) :
    CollisionFree C markHash epoch := by
  have hseed : ∀ (a : Mark), a.Within (2 ^ 64 - 2) →
      markHash a.bytes ≠ markHash (computeSeed C epoch).asBytes := by
    intro a ha heq
    rw [markHash_bytes, markHash_seed] at heq
    have hhash := Mark.item_inj heq
    have htagged : a.tagged = true := by
      by_contra hnot
      have hself : marks.hash a = a := if_neg hnot
      rw [hself] at hhash
      exact hnot (congrArg Mark.tagged hhash)
    have hnext : marks.hash a = ⟨true, a.count + 1⟩ := if_pos htagged
    have hzero : (a.count + 1).toNat = 0 :=
      congrArg (fun b : Mark => b.count.toNat) (hnext.symm.trans hhash)
    have hcount := ha htagged
    rw [UInt64.toNat_add] at hzero
    change (a.count.toNat + 1) % 2 ^ 64 = 0 at hzero
    omega
  intro x hx y hy heq
  rcases mem_hashed h hx with rfl | ⟨a, ha, rfl⟩ <;> rcases mem_hashed h hy with rfl | ⟨b, hb, rfl⟩
  · rfl
  · exact absurd heq.symm (hseed b hb)
  · exact absurd heq (hseed a ha)
  · rw [markHash_bytes, markHash_bytes] at heq
    rw [marks_hash_inj (Mark.item_inj heq)]

theorem generateCache_markHash_ne (h : 0 < (getCacheSize epoch).toNat / 64) :
    DagManager.generateCache C markHash epoch ≠
      generateCache markHash (computeSeed C epoch) (getCacheSize epoch) := by
  have hn := two_le_items h
  rw [DagManager.generateCache, generateCache]
  rw [markHash_seed, hom_marks.chain, hom_marks.pass (fun _ _ => hom_marks.withOwn _ _ _),
    hom_marks.pass (fun _ _ => hom_marks.withPrevious _ _ _)]
  intro heq
  have hmarks := List.map_injective_iff.mpr (fun _ _ hitem => Mark.item_inj hitem) heq
  have htag := (marks_withOwn hn).1
  rw [hmarks, (marks_withPrevious hn).1] at htag
  cases htag

end Refutation

/-- **The two caches of an epoch differ.** Keccak-512 can be free of collisions, on all that is
hashed for either, such that no load of an epoch, whatever was done with the manager before,
installs the cache that shares are checked against. -/
theorem caches_differ (C : Crypto) (epoch : UInt64)
    (hitems : 0 < (getCacheSize epoch).toNat / 64) :
    ∃ keccak512, CollisionFree C keccak512 epoch ∧ ∀ ops,
      ((DagManager.after C keccak512 ops).loadEpoch C keccak512 epoch .complete).1 = .ok () ∧
        ∀ write,
          ((DagManager.after C keccak512 ops).loadEpoch C keccak512 epoch write).1 = .ok () →
            ((DagManager.after C keccak512 ops).loadEpoch C keccak512 epoch write).2.cache ≠
              some (generateCache keccak512 (computeSeed C epoch) (getCacheSize epoch)) := by
  refine ⟨markHash, collisionFree_markHash hitems, fun ops => ⟨DagManager.loadEpoch_complete, ?_⟩⟩
  intro write hok heq
  rw [(DagManager.loadEpoch_ok (DagManager.own_after ops) hok).2, Option.some.injEq] at heq
  exact generateCache_markHash_ne hitems heq

theorem caches_differ_zero : 0 < (getCacheSize 0).toNat / 64 ∧
    ∃ keccak512, CollisionFree (Crypto.ofTable []) keccak512 0 ∧
      ((DagManager.new ∅).loadEpoch (Crypto.ofTable []) keccak512 0 .complete).2.cache ≠
        some (generateCache keccak512 (computeSeed (Crypto.ofTable []) 0) (getCacheSize 0)) := by
  have hitems : 0 < (getCacheSize 0).toNat / 64 := by decide
  obtain ⟨keccak512, hfree, hall⟩ := caches_differ (Crypto.ofTable []) 0 hitems
  exact ⟨hitems, keccak512, hfree, (hall []).2 .complete (hall []).1⟩

/-- The first epoch, loaded into an empty directory under the hash of the marks. -/
theorem firstCache_differs : ¬ ∀ (C : Crypto) (keccak512 : List UInt8 → Item) (epoch : UInt64),
    0 < (getCacheSize epoch).toNat / 64 → CollisionFree C keccak512 epoch → ∀ ops write,
      ((DagManager.after C keccak512 ops).loadEpoch C keccak512 epoch write).1 = .ok () →
        ((DagManager.after C keccak512 ops).loadEpoch C keccak512 epoch write).2.cache =
          some (generateCache keccak512 (computeSeed C epoch) (getCacheSize epoch)) := by
  intro hall
  have hitems : 0 < (getCacheSize 0).toNat / 64 := by decide
  have hcache := hall (Crypto.ofTable []) markHash 0 hitems (collisionFree_markHash hitems) []
    .complete DagManager.loadEpoch_complete
  have hown : DagManager.Own (Crypto.ofTable []) markHash (DagManager.after _ markHash []) :=
    DagManager.own_after []
  rw [(DagManager.loadEpoch_ok hown DagManager.loadEpoch_complete).2, Option.some.injEq] at hcache
  exact generateCache_markHash_ne hitems hcache

end Pyrax.Stratum
