import Pyrax.Base.MerkleDescent
import Pyrax.Light.Spv

/-!
# What an accepted inclusion proof proves

The proof that `SpvClient::verify_proof` reads is made by whoever wants it accepted, and it
says the same thing three times: by `tx_index`, by the flags and by the number of siblings.
The loop follows the flags, halves the index beside them and never compares the two, and
nothing says how many siblings a proof must have. So what a proof proves is decided by its
shape, and `sound_iff_placed` says by which: the node that the flags lead to must be the
transaction at `tx_index`. Shorter proofs stop at an inner node, and the empty one at the
root itself.

`known` stands for the pairs that anybody has hashed: they are taken not to collide, and
the tree's own are among them.
-/

namespace Pyrax

open Base

namespace SpvClient

variable {C : Crypto} {hashes : List H256} {known : H256 × H256 → Prop} {h root : H256}
variable {txIndex : UInt64} {count : Nat} {flags : List Bool}

/-- The nodes at the bottom of the tree. Without transactions the root is the zero hash. -/
def bottom (hashes : List H256) : List H256 :=
  if hashes.isEmpty then [H256.zero] else hashes

/-- The sides that `verify_proof` goes by: without siblings it does not read the flags. -/
def sides (count : Nat) (flags : List Bool) : List Bool :=
  if count = 0 then [] else flags

/-- Whatever hash and siblings somebody puts into a proof of this shape, it is accepted for
the transaction at its index only. -/
def Sound (C : Crypto) (known : H256 × H256 → Prop) (hashes : List H256) (txIndex : UInt64)
    (count : Nat) (flags : List Bool) : Prop :=
  ∀ h siblings, siblings.length = count →
    (∀ e ∈ Merkle.ascendPairs (hashPair C) h (siblings.zip flags), known e) →
    verifyProof C h (computeMerkleRoot C hashes) ⟨txIndex, siblings, flags⟩ = .valid →
      ∃ i, hashes[i]? = some h ∧ txIndex.toNat = i

/-- The sides lead to the transaction at the index. Sides that go on below the bottom must
not lead to anything else. -/
def Placed (C : Crypto) (known : H256 × H256 → Prop) (hashes : List H256) (txIndex : UInt64)
    (sides : List Bool) : Prop :=
  if sides.length ≤ Merkle.height (bottom hashes).length then
    ∀ node, ((Merkle.level (hashPair C))^[Merkle.height (bottom hashes).length - sides.length]
        (bottom hashes))[Merkle.place ((Merkle.level (hashPair C))^[
          Merkle.height (bottom hashes).length - sides.length] (bottom hashes)).length sides]?
            = some node → hashes[txIndex.toNat]? = some node
  else
    ∀ leaf below, (bottom hashes)[Merkle.place (bottom hashes).length
        (sides.drop (sides.length - Merkle.height (bottom hashes).length))]? = some leaf →
      Merkle.Opens (hashPair C) known
        (sides.take (sides.length - Merkle.height (bottom hashes).length)) below leaf →
          hashes[txIndex.toNat]? = some below

/-! ## Accepted proofs -/

/-- A proof is accepted when it is well formed and its way up ends on the root. -/
theorem verifyProof_eq_valid {siblings : List H256} :
    verifyProof C h root ⟨txIndex, siblings, flags⟩ = .valid ↔
      (siblings.length = 0 ∨ siblings.length = flags.length) ∧
        Merkle.ascend (hashPair C) h (siblings.zip flags) = root := by
  unfold verifyProof
  cases siblings with
  | nil =>
    show (if h = root then ProofVerificationResult.valid else .invalid) = .valid ↔
      (_ ∨ _) ∧ h = root
    split <;> simp_all
  | cons s siblings =>
    rw [if_neg (by simp)]
    split
    · next hlen => simp_all
    · next hlen =>
      rw [not_not] at hlen
      split <;> simp_all

/-- Somebody has a proof of this shape for `h` exactly when `h` opens the root. -/
theorem exists_valid_iff (txIndex : UInt64) :
    (∃ siblings, siblings.length = count ∧
      (∀ e ∈ Merkle.ascendPairs (hashPair C) h (siblings.zip flags), known e) ∧
      verifyProof C h root ⟨txIndex, siblings, flags⟩ = .valid) ↔
    (count = 0 ∨ count = flags.length) ∧
      Merkle.Opens (hashPair C) known (sides count flags) h root := by
  constructor
  · rintro ⟨siblings, rfl, hknown, hvalid⟩
    obtain ⟨hshape, hup⟩ := verifyProof_eq_valid.mp hvalid
    refine ⟨hshape, siblings.zip flags, ?_, hknown, hup⟩
    unfold sides
    split
    · next hnone =>
      rw [List.length_eq_zero_iff.mp hnone]
      rfl
    · next hsome => exact List.map_snd_zip (Nat.le_of_eq (hshape.resolve_left hsome).symm)
  · rintro ⟨hshape, path, hsides, hknown, hup⟩
    have hlen : (path.map Prod.fst).length = count := by
      rw [List.length_map, ← List.length_map (f := Prod.snd), hsides, sides]
      split
      · next hnone => exact hnone.symm
      · next hsome => exact (hshape.resolve_left hsome).symm
    have hzip : (path.map Prod.fst).zip flags = path := by
      by_cases hnone : count = 0
      · rw [sides, if_pos hnone, List.map_eq_nil_iff] at hsides
        rw [hsides]
        rfl
      · rw [sides, if_neg hnone] at hsides
        rw [← hsides, ← List.unzip_fst, ← List.unzip_snd, List.zip_unzip]
    refine ⟨path.map Prod.fst, hlen, ?_, ?_⟩
    · rw [hzip]
      exact hknown
    · rw [verifyProof_eq_valid, hzip, hlen]
      exact ⟨hshape, hup⟩

/-- So a shape is sound when nothing else opens the root along its sides. -/
theorem sound_iff_opens : Sound C known hashes txIndex count flags ↔
    (count = 0 ∨ count = flags.length) → ∀ h,
      Merkle.Opens (hashPair C) known (sides count flags) h (computeMerkleRoot C hashes) →
        hashes[txIndex.toNat]? = some h := by
  have hplace : ∀ h : H256, (∃ i, hashes[i]? = some h ∧ txIndex.toNat = i) ↔
      hashes[txIndex.toNat]? = some h := by
    intro h
    constructor
    · rintro ⟨i, hi, rfl⟩
      exact hi
    · intro hi
      exact ⟨_, hi, rfl⟩
  constructor
  · intro hsound hshape h hopens
    obtain ⟨siblings, hlen, hknown, hvalid⟩ :=
      (exists_valid_iff txIndex).mpr ⟨hshape, hopens⟩
    exact (hplace h).mp (hsound h siblings hlen hknown hvalid)
  · intro hall h siblings hlen hknown hvalid
    obtain ⟨hshape, hopens⟩ := (exists_valid_iff txIndex).mp ⟨siblings, hlen, hknown, hvalid⟩
    exact (hplace h).mpr (hall hshape h hopens)

/-- The tree over the bottom nodes, of the height that their number gives. -/
theorem tower_bottom (C : Crypto) (hashes : List H256) :
    Merkle.Tower (hashPair C) (Merkle.height (bottom hashes).length) (bottom hashes)
      (computeMerkleRoot C hashes) := by
  by_cases hne : hashes = []
  · rw [hne]
    have hzero : Merkle.Tower (hashPair C) 0 (bottom []) (computeMerkleRoot C []) := .leaf _
    exact hzero.height_eq ▸ hzero
  · obtain ⟨k, htower, -⟩ := computeMerkleRoot_of_ne_nil (C := C) hne
    rw [bottom, if_neg (by simpa using hne)]
    exact htower.height_eq ▸ htower

theorem combines_bottom {e : H256 × H256} (he : Merkle.Combines (hashPair C) (bottom hashes) e) :
    Merkle.Combines (hashPair C) hashes e := by
  by_cases hne : hashes = []
  · rw [hne] at he
    exact absurd he (Merkle.not_combines_of_length_le (Nat.le_refl 1))
  · rwa [bottom, if_neg (by simpa using hne)] at he

/-- What opens the root along some sides, by how far they go. -/
theorem placed_iff_opens {sides : List Bool} (hinj : Merkle.InjectiveOn (hashPair C) known)
    (hown : ∀ e, Merkle.Combines (hashPair C) hashes e → known e) :
    Placed C known hashes txIndex sides ↔ ∀ h,
      Merkle.Opens (hashPair C) known sides h (computeMerkleRoot C hashes) →
        hashes[txIndex.toNat]? = some h := by
  have htower := tower_bottom C hashes
  have hown' := fun e he => hown e (combines_bottom he)
  unfold Placed
  split
  · next hreach => simp only [htower.opens_iff_row hinj hown' hreach]
  · next hbeyond =>
    generalize hd : sides.length - Merkle.height (bottom hashes).length = d
    have hupper : (sides.drop d).length = Merkle.height (bottom hashes).length := by
      rw [List.length_drop]
      omega
    have hbelow : ∀ x, Merkle.Opens (hashPair C) known (sides.take d ++ sides.drop d) x
        (computeMerkleRoot C hashes) ↔ _ := fun x => htower.opens_iff_below hinj hown' hupper
    rw [List.take_append_drop] at hbelow
    simp only [hbelow]
    constructor
    · rintro hall x ⟨leaf, hleaf, hx⟩
      exact hall leaf x hleaf hx
    · intro hall leaf x hleaf hx
      exact hall x ⟨leaf, hleaf, hx⟩

/-- **The shape of a sound proof.** It is malformed, or its sides lead to the transaction at
its index. -/
theorem sound_iff_placed (C : Crypto) (known : H256 × H256 → Prop) (hashes : List H256)
    (txIndex : UInt64) (count : Nat) (flags : List Bool)
    (hinj : Merkle.InjectiveOn (hashPair C) known)
    (hown : ∀ e, Merkle.Combines (hashPair C) hashes e → known e) :
    Sound C known hashes txIndex count flags ↔
      (count ≠ 0 ∧ count ≠ flags.length) ∨
        Placed C known hashes txIndex (sides count flags) := by
  rw [sound_iff_opens, ← placed_iff_opens hinj hown, ← not_or]
  exact imp_iff_not_or

/-- Where no hash of the list is itself the hash of a known pair, the shape must be the one
that `create_proof` gives: as many sides as the tree has levels, and they spell the index.
Longer proofs are sound because nobody has one. -/
theorem placed_iff_of_separate {sides : List Bool}
    (hown : ∀ e, Merkle.Combines (hashPair C) hashes e → known e)
    (hne : hashes ≠ []) (hnodup : hashes.Nodup)
    (hsep : ∀ e, known e → hashPair C e.1 e.2 ∉ hashes) :
    Placed C known hashes txIndex sides ↔
      Merkle.height hashes.length < sides.length ∨
        (sides.length = Merkle.height hashes.length ∧
          Merkle.place hashes.length sides = txIndex.toNat) := by
  have hbottom : bottom hashes = hashes := if_neg (by simpa using hne)
  have htower := tower_bottom C hashes
  rw [hbottom] at htower
  unfold Placed
  rw [hbottom]
  rcases Nat.lt_trichotomy sides.length (Merkle.height hashes.length) with hlt | heq | hgt
  · -- an inner node, and it is in the list
    rw [if_pos (Nat.le_of_lt hlt)]
    refine iff_of_false (fun hall => ?_) (by omega)
    obtain ⟨d, hd⟩ := Nat.exists_eq_add_of_lt hlt
    obtain ⟨hrow, hsub⟩ := htower.row (Nat.sub_le _ sides.length)
    rw [Nat.sub_sub_self (Nat.le_of_lt hlt)] at hrow
    obtain ⟨node, hnode, -⟩ := hrow.opens (fun e he => hown e (hsub e he))
      (show sides.length = sides.length from rfl)
    have hmem := List.mem_of_getElem? hnode
    rw [show Merkle.height hashes.length - sides.length = d + 1 by omega] at hmem
    obtain ⟨e, he, hcombined⟩ := htower.combined_of_row (by omega) hmem
    refine hsep e (hown e he) ?_
    rw [← hcombined]
    exact List.mem_of_getElem? (hall node hnode)
  · rw [if_pos (Nat.le_of_eq heq), heq, Nat.sub_self]
    obtain ⟨leaf, hleaf, -⟩ := htower.opens hown heq
    have hplace := (List.getElem?_eq_some_iff.mp hleaf).1
    constructor
    · intro hall
      have hindex := (hall leaf hleaf).trans hleaf.symm
      exact .inr ⟨rfl, (List.getElem?_inj hplace hnodup).mp hindex.symm⟩
    · rintro (hlt | ⟨-, hindex⟩) node hnode
      · omega
      · rwa [← hindex]
  · -- below a leaf, which would be the hash of a pair
    rw [if_neg (Nat.not_le.mpr hgt)]
    refine iff_of_true (fun leaf below hleaf hopens => ?_) (.inl hgt)
    have hlower : sides.take (sides.length - Merkle.height hashes.length) ≠ [] := by
      rw [← List.length_pos_iff, List.length_take]
      omega
    obtain ⟨e, he, rfl⟩ := hopens.known_pair hlower
    exact absurd (List.mem_of_getElem? hleaf) (hsep e he)

/-! ## Two transactions -/

/-- The one pair of the tree over the two. -/
def KnownPair (e : H256 × H256) : Prop :=
  e = (LightClient.rewardTxid, LightClient.paymentTxid)

theorem knownPair_injective : Merkle.InjectiveOn (hashPair LightClient.paymentCrypto) KnownPair :=
  fun _ _ hp hq _ => hp.trans hq.symm

theorem knownPair_own (e : H256 × H256)
    (he : Merkle.Combines (hashPair LightClient.paymentCrypto)
      [LightClient.rewardTxid, LightClient.paymentTxid] e) : KnownPair e :=
  Merkle.combines_pair he

/-- One sibling on the left proves the second transaction, and nothing else. -/
theorem sound_iff_placed_payment :
    Sound LightClient.paymentCrypto KnownPair [LightClient.rewardTxid, LightClient.paymentTxid]
      1 1 [true] := by
  refine (sound_iff_placed _ _ _ _ _ _ knownPair_injective knownPair_own).mpr (.inr ?_)
  refine (placed_iff_of_separate knownPair_own (List.cons_ne_nil _ _) (by decide) ?_).mpr
    (.inr ⟨by decide, by decide⟩)
  rintro _ rfl
  decide +kernel

/-- The root is accepted as a transaction, and the first transaction at the second place. -/
theorem root_accepted :
    Merkle.InjectiveOn (hashPair LightClient.paymentCrypto) KnownPair ∧
      [LightClient.rewardTxid, LightClient.paymentTxid].Nodup ∧
      computeMerkleRoot LightClient.paymentCrypto
        [LightClient.rewardTxid, LightClient.paymentTxid] = LightClient.clientRoot ∧
      verifyProof LightClient.paymentCrypto LightClient.clientRoot LightClient.clientRoot
        ⟨0, [], []⟩ = .valid ∧
      LightClient.clientRoot ∉ [LightClient.rewardTxid, LightClient.paymentTxid] ∧
      verifyProof LightClient.paymentCrypto LightClient.rewardTxid LightClient.clientRoot
        ⟨1, [LightClient.paymentTxid], [false]⟩ = .valid ∧
      [LightClient.rewardTxid, LightClient.paymentTxid][1]? ≠ some LightClient.rewardTxid :=
  ⟨knownPair_injective, by decide, by decide +kernel, by decide, by decide, by decide +kernel,
    by decide⟩

end SpvClient

end Pyrax
