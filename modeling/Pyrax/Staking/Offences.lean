import Mathlib.Data.Sym.Sym2
import Pyrax.Staking.Penalty

/-!
# One offence, one slash

`submit_evidence` of `staking/slashing.rs` remembers what it has accepted by a hash of the
kind, the validator, the height and the two items in their order. The offence itself has no
order, and signing twice can be reported as two kinds: swapped or renamed, the same two
items are slashed for again. And of an equivocation `verify` only asks that the first item
is not zero, so two equal ones are a conflict too.

`one_slash_iff`: there is nothing else. From a new manager no offence is slashed twice and
no conflict has equal items exactly when nothing of this kind is submitted.
-/

namespace Pyrax.Staking

open Base

/-- Signing or voting twice. -/
def SlashingOffense.isDouble : SlashingOffense → Bool
  | doubleSign | doubleVote => true
  | downtime | invalidBlock | equivocation => false

/-- A conflict of two items. -/
def SlashingOffense.isConflict : SlashingOffense → Bool
  | doubleSign | doubleVote | equivocation => true
  | downtime | invalidBlock => false

namespace SlashingEvidence

/-- The same two items held against the same validator at one height, as a double signature
or a double vote. -/
structure SameConflict (e e' : SlashingEvidence) : Prop where
  double : e.offense.isDouble = true
  double' : e'.offense.isDouble = true
  validator : e.validator = e'.validator
  height : e.height = e'.height
  items : s(e.evidenceA, e.evidenceB) = s(e'.evidenceA, e'.evidenceB)

/-- All that the hash is made of. -/
structure SameReport (e e' : SlashingEvidence) : Prop where
  offense : e.offense = e'.offense
  validator : e.validator = e'.validator
  height : e.height = e'.height
  evidenceA : e.evidenceA = e'.evidenceA
  evidenceB : e.evidenceB = e'.evidenceB

variable {C : Crypto} {e e' f f' : SlashingEvidence}

theorem SameReport.hash_eq (h : SameReport e e') : e.hash C = e'.hash C := by
  rw [hash, hash, h.offense, h.validator, h.height, h.evidenceA, h.evidenceB]

theorem SameConflict.symm (h : SameConflict e e') : SameConflict e' e :=
  ⟨h.double', h.double, h.validator.symm, h.height.symm, h.items.symm⟩

/-- A conflict is one of any reports of its two sides. -/
theorem SameConflict.congr (h : SameConflict e e') (he : SameReport f e) (he' : SameReport f' e') :
    SameConflict f f' where
  double := by rw [he.offense]; exact h.double
  double' := by rw [he'.offense]; exact h.double'
  validator := by rw [he.validator, he'.validator]; exact h.validator
  height := by rw [he.height, he'.height]; exact h.height
  items := by rw [he.evidenceA, he.evidenceB, he'.evidenceA, he'.evidenceB]; exact h.items

/-- With the kind and the first item all of it is the same. -/
theorem SameConflict.sameReport (h : SameConflict e e') (hkind : e.offense = e'.offense)
    (hfirst : e.evidenceA = e'.evidenceA) : SameReport e e' := by
  refine ⟨hkind, h.validator, h.height, hfirst, ?_⟩
  rcases Sym2.eq_iff.mp h.items with ⟨_, hb⟩ | ⟨ha, hb⟩
  · exact hb
  · exact hb.trans (hfirst.symm.trans ha)

theorem verify_double (h : e.offense.isDouble = true) :
    e.verify = true ↔ e.evidenceA ≠ e.evidenceB := by
  unfold verify
  cases hkind : e.offense with
  | doubleSign => exact decide_eq_true_iff
  | doubleVote => exact decide_eq_true_iff
  | downtime => rw [hkind] at h; cases h
  | invalidBlock => rw [hkind] at h; cases h
  | equivocation => rw [hkind] at h; cases h

theorem verify_equivocation (h : e.offense = .equivocation) :
    e.verify = true ↔ e.evidenceA ≠ H256.zero := by
  rw [verify, h]
  exact decide_eq_true_iff

end SlashingEvidence

open SlashingEvidence

/-! ## Runs of submissions -/

/-- A call of `submit_evidence`, with the validator it is held against. -/
structure Submission where
  now : UInt64
  slashedAt : UInt64
  evidence : SlashingEvidence
  validator : Validator

namespace SlashingManager

/-- What is accepted of a list of submissions, in order. -/
def accepted (C : Crypto) : SlashingManager → List Submission → List SlashingEvidence
  | _, [] => []
  | m, sub :: subs =>
    match m.submitEvidence C sub.now sub.slashedAt sub.evidence sub.validator with
    | .ok (m', _, _) => sub.evidence :: accepted C m' subs
    | .error _ => accepted C m subs

/-- No offence is slashed twice, and the two items of a conflict differ. -/
structure OneSlash (es : List SlashingEvidence) : Prop where
  once : es.Pairwise fun e e' => ¬ SameConflict e e'
  differ : ∀ e ∈ es, e.offense.isConflict = true → e.evidenceA ≠ e.evidenceB

/-- No offence is reported in two orders or as two kinds, and no equivocation with equal
items that are not zero. -/
structure Unambiguous (es : List SlashingEvidence) : Prop where
  oneWay : ∀ e ∈ es, ∀ e' ∈ es, SameConflict e e' → e.evidenceA ≠ e.evidenceB →
    e.offense = e'.offense ∧ e.evidenceA = e'.evidenceA
  zero : ∀ e ∈ es, e.offense = .equivocation → e.evidenceA = e.evidenceB → e.evidenceA = H256.zero

variable {C : Crypto} {m : SlashingManager} {e : SlashingEvidence} {sub : Submission}
  {subs : List Submission}

/-- A submission is accepted, and its hash is known from then on, or it changes nothing. -/
theorem accepted_cons (C : Crypto) (m : SlashingManager) (sub : Submission)
    (subs : List Submission) :
    (m.Accepts C sub.evidence ∧ ∃ m', m'.evidenceHashes
        = m.evidenceHashes.insert (sub.evidence.hash C) true ∧
      accepted C m (sub :: subs) = sub.evidence :: accepted C m' subs) ∨
    (¬ m.Accepts C sub.evidence ∧ accepted C m (sub :: subs) = accepted C m subs) := by
  by_cases hacc : m.Accepts C sub.evidence
  · obtain ⟨m', v', r, hok, hknown⟩ : ∃ m' v' r, m.submitEvidence C sub.now sub.slashedAt
        sub.evidence sub.validator = .ok (m', v', r) ∧
        m'.evidenceHashes = m.evidenceHashes.insert (sub.evidence.hash C) true :=
      ⟨_, _, _, submitEvidence_eq hacc sub.now sub.slashedAt sub.validator, rfl⟩
    refine .inl ⟨hacc, m', hknown, ?_⟩
    rw [accepted, hok]
  · obtain ⟨err, herr⟩ := submitEvidence_of_not_accepts hacc sub.now sub.slashedAt sub.validator
    refine .inr ⟨hacc, ?_⟩
    rw [accepted, herr]

/-- What is accepted was submitted, is valid and was not known. -/
theorem mem_accepted : ∀ {subs : List Submission} {m : SlashingManager},
    e ∈ accepted C m subs →
      e ∈ subs.map Submission.evidence ∧ e.verify = true ∧ e.hash C ∉ m.evidenceHashes
  | [], _, h => by cases h
  | sub :: subs, m, h => by
    rcases accepted_cons C m sub subs with ⟨hacc, m', hknown, heq⟩ | ⟨_, heq⟩
    · rw [heq] at h
      rcases List.mem_cons.mp h with rfl | h
      · exact ⟨List.mem_cons_self .., hacc⟩
      · obtain ⟨hmem, hverify, hnew⟩ := mem_accepted h
        rw [hknown, Finmap.mem_insert, not_or] at hnew
        exact ⟨List.mem_cons_of_mem _ hmem, hverify, hnew.2⟩
    · rw [heq] at h
      obtain ⟨hmem, hverify, hnew⟩ := mem_accepted h
      exact ⟨List.mem_cons_of_mem _ hmem, hverify, hnew⟩

/-- No hash is accepted twice. -/
theorem accepted_pairwise : ∀ (subs : List Submission) (m : SlashingManager),
    (accepted C m subs).Pairwise fun e e' => e.hash C ≠ e'.hash C
  | [], _ => .nil
  | sub :: subs, m => by
    rcases accepted_cons C m sub subs with ⟨_, m', hknown, heq⟩ | ⟨_, heq⟩
    · rw [heq, List.pairwise_cons]
      refine ⟨fun e he hsame => ?_, accepted_pairwise subs m'⟩
      obtain ⟨_, _, hnew⟩ := mem_accepted he
      rw [hknown, Finmap.mem_insert, not_or] at hnew
      exact hnew.1 hsame.symm
    · rw [heq]
      exact accepted_pairwise subs m

/-- Valid evidence is accepted, or its hash is known or accepted before it. -/
theorem exists_accepted : ∀ {subs : List Submission} {m : SlashingManager}, sub ∈ subs →
    sub.evidence.verify = true → sub.evidence.hash C ∈ m.evidenceHashes ∨
      ∃ e ∈ accepted C m subs, e.hash C = sub.evidence.hash C
  | first :: subs, m, hmem, hverify => by
    rcases accepted_cons C m first subs with ⟨_, m', hknown, heq⟩ | ⟨hnot, heq⟩
    · rw [heq]
      rcases List.mem_cons.mp hmem with rfl | hmem
      · exact .inr ⟨_, List.mem_cons_self .., rfl⟩
      · rcases exists_accepted hmem hverify with hold | ⟨e, he, hsame⟩
        · rw [hknown, Finmap.mem_insert] at hold
          rcases hold with hfirst | hold
          · exact .inr ⟨_, List.mem_cons_self .., hfirst.symm⟩
          · exact .inl hold
        · exact .inr ⟨e, List.mem_cons_of_mem _ he, hsame⟩
    · rw [heq]
      rcases List.mem_cons.mp hmem with rfl | hmem
      · exact .inl (not_not.mp fun hnew => hnot ⟨hverify, hnew⟩)
      · exact exists_accepted hmem hverify

/-- Of a new manager: what is valid is accepted under some report of it. -/
theorem exists_sameReport
    (hcollide : ∀ e ∈ subs.map Submission.evidence, ∀ e' ∈ subs.map Submission.evidence,
      e.hash C = e'.hash C → SameReport e e')
    (hmem : e ∈ subs.map Submission.evidence) (hverify : e.verify = true) :
    ∃ f ∈ accepted C new subs, SameReport f e := by
  obtain ⟨sub, hsub, rfl⟩ := List.mem_map.mp hmem
  rcases exists_accepted (C := C) (m := new) hsub hverify with hknown | ⟨f, hf, hsame⟩
  · exact absurd hknown Finmap.notMem_empty
  · exact ⟨f, hf, hcollide f (mem_accepted hf).1 _ hmem hsame⟩

/-- **One offence, one slash.** For all submissions to a new manager that do not collide
under the hash, what is accepted holds no offence twice and no conflict of equal items
exactly when the submissions are unambiguous. -/
theorem one_slash_iff (C : Crypto) (subs : List Submission)
    (hcollide : ∀ e ∈ subs.map Submission.evidence, ∀ e' ∈ subs.map Submission.evidence,
      e.hash C = e'.hash C → SameReport e e') :
    OneSlash (accepted C new subs) ↔ Unambiguous (subs.map Submission.evidence) := by
  constructor
  · intro h
    constructor
    · intro e he e' he' hsame hdiffer
      have hdiffer' : e'.evidenceA ≠ e'.evidenceB := by
        intro heq
        have hitems := hsame.items
        rw [heq] at hitems
        rcases Sym2.eq_iff.mp hitems with ⟨ha, hb⟩ | ⟨ha, hb⟩
        · exact hdiffer (ha.trans hb.symm)
        · exact hdiffer (ha.trans hb.symm)
      obtain ⟨f, hf, hreport⟩ :=
        exists_sameReport hcollide he ((verify_double hsame.double).mpr hdiffer)
      obtain ⟨f', hf', hreport'⟩ :=
        exists_sameReport hcollide he' ((verify_double hsame.double').mpr hdiffer')
      -- both were slashed for, so they are one and the same
      have hone : f = f' := by
        by_contra hne
        have hsymm : Std.Symm fun e e' : SlashingEvidence => ¬ SameConflict e e' :=
          ⟨fun _ _ hno hyes => hno hyes.symm⟩
        exact h.once.forall hf hf' hne (hsame.congr hreport hreport')
      subst hone
      exact ⟨hreport.offense.symm.trans hreport'.offense,
        hreport.evidenceA.symm.trans hreport'.evidenceA⟩
    · intro e he hkind hitems
      by_contra hzero
      obtain ⟨f, hf, hreport⟩ :=
        exists_sameReport hcollide he ((verify_equivocation hkind).mpr hzero)
      refine h.differ f hf ?_ ?_
      · rw [hreport.offense, hkind]
        rfl
      · rw [hreport.evidenceA, hreport.evidenceB, hitems]
  · intro h
    constructor
    · refine (accepted_pairwise subs new).imp_of_mem fun {e e'} he he' hhash hsame => ?_
      obtain ⟨hmem, hverify, _⟩ := mem_accepted he
      obtain ⟨hmem', _, _⟩ := mem_accepted he'
      obtain ⟨hkind, hfirst⟩ :=
        h.oneWay e hmem e' hmem' hsame ((verify_double hsame.double).mp hverify)
      exact hhash (hsame.sameReport hkind hfirst).hash_eq
    · intro e he hconflict heq
      obtain ⟨hmem, hverify, _⟩ := mem_accepted he
      by_cases hdouble : e.offense.isDouble = true
      · exact (verify_double hdouble).mp hverify heq
      · have hkind : e.offense = .equivocation := by
          revert hconflict hdouble
          cases e.offense <;> decide
        exact (verify_equivocation hkind).mp hverify (h.zero e hmem hkind heq)

/-! ## Swapped -/

/-- The double signature of the tests, its items in the other order. -/
def swappedEvidence : SlashingEvidence :=
  { SlashingOp.doubleSignEvidence with
    evidenceA := ⟨Vector.replicate 32 2⟩
    evidenceB := ⟨Vector.replicate 32 1⟩ }

/-- BLAKE3 of both orders. -/
def swapCrypto : Crypto := Crypto.ofTable
  [(0 :: List.replicate 20 1 ++ [0, 0, 0, 0, 0, 0, 0, 100] ++ List.replicate 32 1 ++
      List.replicate 32 2,
    H256.ofNatBE 0x82790206bc98529209e8e29e0b1d8b305ce2e3d806e1569103d4d3f034897df1),
   (0 :: List.replicate 20 1 ++ [0, 0, 0, 0, 0, 0, 0, 100] ++ List.replicate 32 2 ++
      List.replicate 32 1,
    H256.ofNatBE 0xd5b62d64be719c55cfc7ed2836a27e3d05c95ed813f580fb91a139010006230a)]

/-- The calls that a run makes: the evidence against the active validator of the tests. -/
def submitAll (es : List SlashingEvidence) : List Submission :=
  es.map fun e => ⟨1000, 1000, e, SlashingOp.caughtValidator⟩

/-- The same items at the next height. -/
def laterEvidence : SlashingEvidence := { SlashingOp.doubleSignEvidence with height := 101 }

/-- BLAKE3 of the two offences. -/
def offencesCrypto : Crypto := Crypto.ofTable
  [(0 :: List.replicate 20 1 ++ [0, 0, 0, 0, 0, 0, 0, 100] ++ List.replicate 32 1 ++
      List.replicate 32 2,
    H256.ofNatBE 0x82790206bc98529209e8e29e0b1d8b305ce2e3d806e1569103d4d3f034897df1),
   (0 :: List.replicate 20 1 ++ [0, 0, 0, 0, 0, 0, 0, 101] ++ List.replicate 32 1 ++
      List.replicate 32 2,
    H256.ofNatBE 0xf665c284a0a7f74e29586a638aec27a6fa421fe73b2d080a24a46f553c89e5a8)]

/-- Two offences of one validator, each reported twice and slashed once. -/
theorem one_slash_two_offences :
    let subs := submitAll [SlashingOp.doubleSignEvidence, laterEvidence,
      SlashingOp.doubleSignEvidence, laterEvidence]
    accepted offencesCrypto new subs = [SlashingOp.doubleSignEvidence, laterEvidence] ∧
      OneSlash (accepted offencesCrypto new subs) := by
  intro subs
  have hmem : ∀ e ∈ subs.map Submission.evidence,
      e = SlashingOp.doubleSignEvidence ∨ e = laterEvidence := by
    intro e he
    simpa [subs, submitAll, or_comm, or_left_comm] using he
  refine ⟨by decide +kernel, (one_slash_iff offencesCrypto _ ?_).mpr ⟨?_, ?_⟩⟩
  · intro e he e' he' hhash
    rcases hmem e he with rfl | rfl <;> rcases hmem e' he' with rfl | rfl
    · exact ⟨rfl, rfl, rfl, rfl, rfl⟩
    · exact absurd hhash (by decide +kernel)
    · exact absurd hhash (by decide +kernel)
    · exact ⟨rfl, rfl, rfl, rfl, rfl⟩
  · intro e he e' he' _ _
    rcases hmem e he with rfl | rfl <;> rcases hmem e' he' with rfl | rfl <;> exact ⟨rfl, rfl⟩
  · intro e he hkind
    rcases hmem e he with rfl | rfl <;> cases hkind

/-- In both orders the double signature is slashed for twice. -/
theorem swapped_is_slashed_again :
    accepted swapCrypto new (submitAll [SlashingOp.doubleSignEvidence, swappedEvidence])
      = [SlashingOp.doubleSignEvidence, swappedEvidence] ∧
    ¬ OneSlash
      (accepted swapCrypto new (submitAll [SlashingOp.doubleSignEvidence, swappedEvidence])) := by
  have hboth : accepted swapCrypto new (submitAll [SlashingOp.doubleSignEvidence, swappedEvidence])
      = [SlashingOp.doubleSignEvidence, swappedEvidence] := by decide +kernel
  refine ⟨hboth, fun h => ?_⟩
  have honce := h.once
  rw [hboth, List.pairwise_cons] at honce
  exact honce.1 _ (List.mem_singleton_self _) ⟨rfl, rfl, rfl, rfl, Sym2.eq_swap⟩

end SlashingManager

end Pyrax.Staking
