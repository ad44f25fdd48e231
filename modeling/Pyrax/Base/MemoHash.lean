import Mathlib.Data.List.Basic

/-!
# RandMemoHash

Passes over an array of items. Every step replaces one item by the hash of a mixture of two
others, of which the old item chooses one (`withOwn`, `withPrevious`). What an item is, and
how it is hashed, is left open (`MemoHash`), so that a run over bytes is the image of a run over
anything that is mixed and hashed in the same way (`Hom`, `Hom.pass`): indices and all.
-/

namespace Pyrax.Base

/-- Items that can be mixed and hashed, and choose an index. -/
structure MemoHash (β : Type) where
  zero : β
  xor : β → β → β
  hash : β → β
  index : β → Nat

namespace MemoHash

variable {α β : Type} (m : MemoHash β)

/-- An item and so many more, each the hash of the one before. -/
def chain : β → Nat → List β
  | x, 0 => [x]
  | x, k + 1 => x :: chain (m.hash x) k

def item (cache : List β) (i : Nat) : β := cache.getD i m.zero

/-- The item itself and the one it chooses. -/
def withOwn (n : Nat) (cache : List β) (i : Nat) : β :=
  m.xor (m.item cache i) (m.item cache (m.index (m.item cache i) % n))

/-- The item before it and the one it chooses. -/
def withPrevious (n : Nat) (cache : List β) (i : Nat) : β :=
  m.xor (m.item cache (if i = 0 then n - 1 else i - 1))
    (m.item cache (m.index (m.item cache i) % n))

def rewrite (mix : List β → Nat → β) (cache : List β) (i : Nat) : List β :=
  cache.set i (m.hash (mix cache i))

def pass (mix : List β → Nat → β) (cache : List β) (is : List Nat) : List β :=
  is.foldl (m.rewrite mix) cache

/-- What is hashed on the way. -/
def mixed (mix : List β → Nat → β) : List β → List Nat → List β
  | _, [] => []
  | cache, i :: is => mix cache i :: mixed mix (m.rewrite mix cache i) is

/-- The indices of some rounds over `n` items. -/
def rounds (n k : Nat) : List Nat := (List.replicate k (List.range n)).flatten

/-! ## Runs -/

variable {m} {mix : List β → Nat → β} {cache : List β} {is js : List Nat} {n i j k : Nat}

theorem pass_append : m.pass mix cache (is ++ js) = m.pass mix (m.pass mix cache is) js :=
  List.foldl_append

theorem mixed_append : m.mixed mix cache (is ++ js)
    = m.mixed mix cache is ++ m.mixed mix (m.pass mix cache is) js := by
  induction is generalizing cache with
  | nil => rfl
  | cons i is ih => rw [List.cons_append, mixed, mixed, ih, List.cons_append]; rfl

theorem mem_rounds (h : i ∈ rounds n k) : i < n := by
  obtain ⟨l, hl, hi⟩ := List.mem_flatten.mp h
  rw [List.eq_of_mem_replicate hl] at hi
  exact List.mem_range.mp hi

theorem rounds_succ (n k : Nat) : rounds n (k + 1) = List.range n ++ rounds n k := by
  rw [rounds, List.replicate_succ, List.flatten_cons, rounds]

theorem length_rounds (n k : Nat) : (rounds n k).length = k * n := by
  induction k with
  | zero => exact (Nat.zero_mul n).symm
  | succ k ih =>
    rw [rounds_succ, List.length_append, List.length_range, ih, Nat.succ_mul, Nat.add_comm]

theorem length_chain (x : β) (k : Nat) : (m.chain x k).length = k + 1 := by
  induction k generalizing x with
  | zero => rfl
  | succ k ih => rw [chain, List.length_cons, ih]

theorem item_mem (h : i < cache.length) : m.item cache i ∈ cache := by
  rw [item, List.getD_eq_getElem?_getD, List.getElem?_eq_getElem h, Option.getD_some]
  exact List.getElem_mem h

theorem length_rewrite : (m.rewrite mix cache i).length = cache.length := List.length_set

theorem length_pass : (m.pass mix cache is).length = cache.length := by
  induction is generalizing cache with
  | nil => rfl
  | cons i is ih => exact ih.trans length_rewrite

theorem item_rewrite_self (h : i < cache.length) :
    m.item (m.rewrite mix cache i) i = m.hash (mix cache i) := by
  rw [item, rewrite, List.getD_eq_getElem?_getD, List.getElem?_set_self h, Option.getD_some]

theorem item_rewrite_of_ne (h : j ≠ i) :
    m.item (m.rewrite mix cache i) j = m.item cache j := by
  rw [item, item, rewrite, List.getD_eq_getElem?_getD, List.getElem?_set_ne h.symm,
    List.getD_eq_getElem?_getD]

/-- One round: what step `i` takes from `i` to `i + 1`, with what it hashes. -/
theorem pass_range {P : Nat → List β → Prop} {Q : β → Prop}
    (hstep : ∀ i cache, i < n → P i cache → P (i + 1) (m.rewrite mix cache i) ∧ Q (mix cache i))
    (h : P 0 cache) : P n (m.pass mix cache (List.range n)) ∧
      ∀ x ∈ m.mixed mix cache (List.range n), Q x := by
  induction n with
  | zero => exact ⟨h, fun _ hx => absurd hx List.not_mem_nil⟩
  | succ n ih =>
    obtain ⟨hpass, hmixed⟩ := ih fun i cache hi => hstep i cache (Nat.lt_succ_of_lt hi)
    obtain ⟨hnext, hmix⟩ := hstep n _ (Nat.lt_succ_self n) hpass
    rw [List.range_succ, pass_append, mixed_append]
    refine ⟨hnext, fun x hx => ?_⟩
    rcases List.mem_append.mp hx with hx | hx
    · exact hmixed x hx
    · rw [List.mem_singleton.mp hx]
      exact hmix

/-- What every step keeps at a cost of one, with what it hashes, a run keeps at the cost of its
length. -/
theorem pass_bound (is : List Nat) {P : Nat → List β → Prop} {Q : Nat → β → Prop}
    (hmono : ∀ {b b' x}, b ≤ b' → Q b x → Q b' x)
    (hstep : ∀ b cache i, i ∈ is → P b cache →
      P (b + 1) (m.rewrite mix cache i) ∧ Q b (mix cache i)) :
    ∀ {b : Nat} {cache : List β}, P b cache →
      P (b + is.length) (m.pass mix cache is) ∧ ∀ x ∈ m.mixed mix cache is, Q (b + is.length) x := by
  induction is with
  | nil => exact fun h => ⟨h, fun _ hx => absurd hx List.not_mem_nil⟩
  | cons i is ih =>
    intro b cache h
    obtain ⟨hnext, hmix⟩ := hstep b cache i (List.mem_cons_self ..) h
    obtain ⟨hpass, hmixed⟩ := ih (fun b cache j hj => hstep b cache j (List.mem_cons_of_mem _ hj))
      hnext
    rw [List.length_cons, show b + (is.length + 1) = b + 1 + is.length by omega]
    refine ⟨hpass, fun x hx => ?_⟩
    rcases List.mem_cons.mp hx with rfl | hx
    · exact hmono (by omega) hmix
    · exact hmixed x hx

/-! ## Images -/

/-- A map under which mixing, hashing and choosing are the same. -/
structure Hom (m : MemoHash α) (m' : MemoHash β) (f : α → β) : Prop where
  zero : f m.zero = m'.zero
  xor : ∀ a b, f (m.xor a b) = m'.xor (f a) (f b)
  hash : ∀ a, f (m.hash a) = m'.hash (f a)
  index : ∀ a, m'.index (f a) = m.index a

namespace Hom

variable {m : MemoHash α} {m' : MemoHash β} {f : α → β} (h : Hom m m' f)
  {mix : List α → Nat → α} {mix' : List β → Nat → β}
include h

theorem chain (x : α) (k : Nat) : m'.chain (f x) k = (m.chain x k).map f := by
  induction k generalizing x with
  | zero => rfl
  | succ k ih => rw [MemoHash.chain, MemoHash.chain, List.map_cons, ← h.hash, ih]

theorem item (cache : List α) (i : Nat) : m'.item (cache.map f) i = f (m.item cache i) := by
  rw [MemoHash.item, MemoHash.item, List.getD_eq_getElem?_getD, List.getElem?_map, ← h.zero,
    List.getD_eq_getElem?_getD, Option.getD_map]

theorem withOwn (n : Nat) (cache : List α) (i : Nat) :
    m'.withOwn n (cache.map f) i = f (m.withOwn n cache i) := by
  rw [MemoHash.withOwn, MemoHash.withOwn, h.item, h.index, h.item, h.xor]

theorem withPrevious (n : Nat) (cache : List α) (i : Nat) :
    m'.withPrevious n (cache.map f) i = f (m.withPrevious n cache i) := by
  rw [MemoHash.withPrevious, MemoHash.withPrevious, h.item cache i, h.index, h.item, h.item, h.xor]

theorem rewrite (hmix : ∀ cache i, mix' (cache.map f) i = f (mix cache i)) (cache : List α)
    (i : Nat) : m'.rewrite mix' (cache.map f) i = (m.rewrite mix cache i).map f := by
  rw [MemoHash.rewrite, MemoHash.rewrite, List.map_set, hmix, h.hash]

/-- A run over images is the image of the run. -/
theorem pass (hmix : ∀ cache i, mix' (cache.map f) i = f (mix cache i)) (cache : List α)
    (is : List Nat) : m'.pass mix' (cache.map f) is = (m.pass mix cache is).map f := by
  induction is generalizing cache with
  | nil => rfl
  | cons i is ih =>
    rw [MemoHash.pass, List.foldl_cons, h.rewrite hmix]
    exact ih _

theorem mixed (hmix : ∀ cache i, mix' (cache.map f) i = f (mix cache i)) (cache : List α)
    (is : List Nat) : m'.mixed mix' (cache.map f) is = (m.mixed mix cache is).map f := by
  induction is generalizing cache with
  | nil => rfl
  | cons i is ih =>
    rw [MemoHash.mixed, MemoHash.mixed, List.map_cons, hmix, h.rewrite hmix, ih]

end Hom

end MemoHash

end Pyrax.Base
