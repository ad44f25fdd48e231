import Pyrax.Base.Run
import Pyrax.Bridge.DualState

/-!
# What backs the minted balances

What is minted and the fees should never exceed what is locked, and the minted
total should be what the completed conversions say (`Backed`).

For the first to last, a lock that still waits for its mint must have its amount
left over (`Funded`); every lock brings it and every mint uses it up. It fails
where a conversion is completed a second time, where a new conversion takes the
place of a completed one, and where more is unlocked than was minted, since the
total then stops at zero. `backed_iff`: a run in which none of these happens is
backed throughout, and one that is backed throughout has none of them, except
that a second unlock goes unseen while nothing is minted.
-/

namespace Pyrax.Bridge

open Base Word

/-! ## The records -/

namespace ConversionRequest

/-- What the conversion has minted. -/
def mintedNet (c : ConversionRequest) : Nat :=
  if c.status = .completed ∧ c.direction = .utxoToAccount then c.netAmount.toNat else 0

/-- What the conversion has taken back. -/
def unlockedAmount (c : ConversionRequest) : Nat :=
  if c.status = .completed ∧ c.direction = .accountToUtxo then c.amount.toNat else 0

/-- What is locked for a mint to come. -/
def awaitedAmount (c : ConversionRequest) : Nat :=
  if c.status ≠ .completed ∧ c.direction = .utxoToAccount then c.amount.toNat else 0

variable {c : ConversionRequest}

theorem Priced.completed (h : c.Priced) (now : UInt64) (hash : H256) :
    (c.markProcessing.markCompleted now hash).Priced := by
  obtain ⟨_, _, hamount, hfee, hnet⟩ := c.completed_fields now hash
  refine ⟨?_, ?_⟩
  · rw [hnet, hfee, hamount]
    exact h.split
  · rw [hnet]
    exact h.net_pos

theorem sums_of_minted (hstatus : c.status = .completed)
    (hdirection : c.direction = .utxoToAccount) :
    c.mintedNet = c.netAmount.toNat ∧ c.unlockedAmount = 0 ∧ c.awaitedAmount = 0 := by
  simp [mintedNet, unlockedAmount, awaitedAmount, hstatus, hdirection]

theorem sums_of_unlocked (hstatus : c.status = .completed)
    (hdirection : c.direction = .accountToUtxo) :
    c.mintedNet = 0 ∧ c.unlockedAmount = c.amount.toNat ∧ c.awaitedAmount = 0 := by
  simp [mintedNet, unlockedAmount, awaitedAmount, hstatus, hdirection]

theorem sums_of_waiting (hstatus : c.status ≠ .completed) :
    c.mintedNet = 0 ∧ c.unlockedAmount = 0 ∧
      c.awaitedAmount = if c.direction = .utxoToAccount then c.amount.toNat else 0 := by
  simp [mintedNet, unlockedAmount, awaitedAmount, hstatus]

end ConversionRequest

namespace DualStateBridge

open ConversionRequest

/-- Covered by what is locked, and accounted for by the completed conversions. -/
structure Backed (s : DualStateBridge) : Prop where
  covered : s.totalMinted.toNat + s.totalFees.toNat ≤ s.totalLocked.toNat
  verified : s.verifyInvariant = true
  accounted : s.totalMinted.toNat + Column.total unlockedAmount s.conversions
    = Column.total mintedNet s.conversions

/-- A completed conversion has this id. -/
def Taken (s : DualStateBridge) (id : H256) : Prop :=
  ∃ c, s.conversions.lookup id = some c ∧ c.status = .completed

end DualStateBridge

namespace DualStateOp

open ConversionRequest

/-- What is locked with the call fits the total. -/
def Fits (s : DualStateBridge) : DualStateOp → Prop
  | lock _ _ _ outpoint _ amount _ _ =>
    s.AcceptsLock outpoint amount → s.totalLocked.toNat + amount.toNat < 2 ^ 64
  | burn .. | updateHeights .. | processConfirmations .. | getNextReady | completeMint ..
  | completeUnlock .. | pause | resume | emergencyStop => True

/-- The call replaces no completed conversion, completes none again, and unlocks no
more than was minted. -/
def Sound (C : Crypto) (s : DualStateBridge) : DualStateOp → Prop
  | lock idAt _ _ outpoint lockTxHash amount utxoOwner _ =>
    s.AcceptsLock outpoint amount → ¬ s.Taken (generateId C idAt lockTxHash utxoOwner amount)
  | burn idAt _ burnTxHash amount evmBurner _ =>
    s.AcceptsBurn amount → ¬ s.Taken (generateId C idAt burnTxHash ⟨evmBurner⟩ amount)
  | completeMint _ _ conversionId _ _ =>
    ∀ c, s.conversions.lookup conversionId = some c → c.direction = .utxoToAccount →
      c.status ≠ .completed
  | completeUnlock _ conversionId _ =>
    ∀ c, s.conversions.lookup conversionId = some c → c.direction = .accountToUtxo →
      c.status ≠ .completed ∧ c.amount ≤ s.totalMinted
  | updateHeights .. | processConfirmations .. | getNextReady | pause | resume
  | emergencyStop => True

/-- A completed burn is unlocked again, and nothing is minted: the minted total stays
at zero. -/
def Unseen (s : DualStateBridge) : DualStateOp → Prop
  | completeUnlock _ conversionId _ =>
    ∃ c, s.conversions.lookup conversionId = some c ∧ c.direction = .accountToUtxo ∧
      c.status = .completed ∧ s.totalMinted = 0
  | lock .. | burn .. | updateHeights .. | processConfirmations .. | getNextReady
  | completeMint .. | pause | resume | emergencyStop => False

end DualStateOp

/-! ## One call -/

namespace DualStateBridge

open ConversionRequest

variable {C : Crypto} {s s' : DualStateBridge} {id : H256} {c c' r : ConversionRequest}
  {direction : ConversionDirection} {amount : UInt64}

/-- Backed, with the amount of every waiting lock left over. -/
structure Funded (s : DualStateBridge) : Prop where
  backed : Backed s
  reserve : s.totalMinted.toNat + s.totalFees.toNat + Column.total awaitedAmount s.conversions
    ≤ s.totalLocked.toNat
  priced : ∀ id c, s.conversions.lookup id = some c → c.Priced

theorem verifyInvariant_of_covered
    (h : s.totalMinted.toNat + s.totalFees.toNat ≤ s.totalLocked.toNat) :
    s.verifyInvariant = true := by
  have hlt := s.totalLocked.toNat_lt
  refine decide_eq_true (UInt64.le_iff_toNat_le.mpr ?_)
  rw [toNat_add_of_lt (by omega)]
  exact h

theorem funded_new : Funded new :=
  ⟨⟨Nat.le_refl _, rfl, rfl⟩, Nat.le_refl _, nofun⟩

/-- Where totals and sums are as before. -/
theorem Funded.of_same (h : Funded s) (hlocked : s'.totalLocked = s.totalLocked)
    (hminted : s'.totalMinted = s.totalMinted) (hfees : s'.totalFees = s.totalFees)
    (hsums : ∀ f ∈ [mintedNet, unlockedAmount, awaitedAmount],
      Column.total f s'.conversions = Column.total f s.conversions)
    (hpriced : ∀ id c, s'.conversions.lookup id = some c → c.Priced) : Funded s' := by
  have hnet := hsums mintedNet (by simp)
  have hunlocked := hsums unlockedAmount (by simp)
  have hawaited := hsums awaitedAmount (by simp)
  have hcovered : s'.totalMinted.toNat + s'.totalFees.toNat ≤ s'.totalLocked.toNat := by
    rw [hlocked, hminted, hfees]
    exact h.backed.covered
  refine ⟨⟨hcovered, verifyInvariant_of_covered hcovered, ?_⟩, ?_, hpriced⟩
  · rw [hminted, hnet, hunlocked]
    exact h.backed.accounted
  · rw [hlocked, hminted, hfees, hawaited]
    exact h.reserve

theorem Funded.processConfirmations (h : Funded s) (order : ConversionOrder) :
    Funded (s.processConfirmations order) := by
  refine h.of_same rfl rfl rfl (fun f hf => ?_) fun id c hc => ?_
  · show Column.total f (s.conversions.mapValues _) = _
    rw [Column.total_eq_sum, Column.total_eq_sum, Column.records_mapValues]
    intro _ c _
    obtain ⟨hstatus, hdirection, hamount, _, hnet⟩ := c.confirm_fields s.utxoHeight s.evmHeight
    simp only [List.mem_cons, List.not_mem_nil, or_false] at hf
    obtain rfl | rfl | rfl := hf
    · simp only [mintedNet, hstatus, hdirection, hnet]
    · simp only [unlockedAmount, hstatus, hdirection, hamount]
    · simp only [awaitedAmount, ne_eq, hstatus, hdirection, hamount]
  · change (s.conversions.mapValues _).lookup id = some c at hc
    rw [Column.lookup_mapValues] at hc
    obtain ⟨c₀, hc₀, rfl⟩ := Option.map_eq_some_iff.mp hc
    obtain ⟨_, _, hamount, hfee, hnet⟩ := c₀.confirm_fields s.utxoHeight s.evmHeight
    obtain ⟨hsplit, hpos⟩ := h.priced id c₀ hc₀
    exact ⟨by rw [hamount, hfee, hnet]; exact hsplit, by rw [hnet]; exact hpos⟩

/-- What is not completed counts among the waiting ones only. -/
theorem valueAt_of_not_taken (h : ¬ s.Taken id) :
    Column.valueAt mintedNet s.conversions id = 0 ∧
      Column.valueAt unlockedAmount s.conversions id = 0 := by
  rw [Column.valueAt, Column.valueAt]
  cases hc : s.conversions.lookup id with
  | none => exact ⟨rfl, rfl⟩
  | some c =>
    have hsums := sums_of_waiting fun hcompleted => h ⟨c, hc, hcompleted⟩
    exact ⟨hsums.1, hsums.2.1⟩

/-- A completed conversion has moved the minted total by something. -/
theorem valueAt_of_taken (h : Funded s) (htaken : s.Taken id) :
    Column.valueAt mintedNet s.conversions id ≠ Column.valueAt unlockedAmount s.conversions id := by
  obtain ⟨c, hc, hstatus⟩ := htaken
  obtain ⟨hsplit, hpos⟩ := h.priced id c hc
  rw [Column.valueAt, Column.valueAt, hc]
  show mintedNet c ≠ unlockedAmount c
  cases hdirection : c.direction with
  | utxoToAccount =>
    obtain ⟨hnet, hunlocked, _⟩ := sums_of_minted hstatus hdirection
    omega
  | accountToUtxo =>
    obtain ⟨hnet, hunlocked, _⟩ := sums_of_unlocked hstatus hdirection
    omega

/-- **A new conversion** with the amount it locks keeps the bridge funded where it
replaces no completed one. -/
theorem Funded.opened (h : Funded s) (hfree : ¬ s.Taken r.id) (hfresh : r.Fresh direction amount)
    (hconversions : s'.conversions = s.conversions.insert r.id r)
    (hlocked : s'.totalLocked.toNat = s.totalLocked.toNat + r.awaitedAmount)
    (hminted : s'.totalMinted = s.totalMinted) (hfees : s'.totalFees = s.totalFees) :
    Funded s' := by
  obtain ⟨hnet₀, hunlocked₀⟩ := valueAt_of_not_taken hfree
  have hwaiting : r.status ≠ .completed := by
    rw [hfresh.status]
    nofun
  obtain ⟨hnet, hunlocked, _⟩ := sums_of_waiting hwaiting
  have htotal := fun f => Column.total_insert f s.conversions r.id r
  have haccounted := h.backed.accounted
  have hreserve := h.reserve
  have hcovered : s'.totalMinted.toNat + s'.totalFees.toNat ≤ s'.totalLocked.toNat := by
    rw [hlocked, hminted, hfees]
    omega
  refine ⟨⟨hcovered, verifyInvariant_of_covered hcovered, ?_⟩, ?_, ?_⟩
  · have h₁ := htotal mintedNet
    have h₂ := htotal unlockedAmount
    rw [hminted, hconversions]
    omega
  · have h₁ := htotal awaitedAmount
    rw [hlocked, hminted, hfees, hconversions]
    omega
  · rw [hconversions]
    exact Column.forall_lookup_insert h.priced hfresh.priced

/-- Over a completed conversion the account is lost. -/
theorem not_backed_of_taken (h : Funded s) (htaken : s.Taken r.id)
    (hfresh : r.Fresh direction amount)
    (hconversions : s'.conversions = s.conversions.insert r.id r)
    (hminted : s'.totalMinted = s.totalMinted) : ¬ Backed s' := by
  intro h'
  have hne := valueAt_of_taken h htaken
  have hwaiting : r.status ≠ .completed := by
    rw [hfresh.status]
    nofun
  obtain ⟨hnet, hunlocked, _⟩ := sums_of_waiting hwaiting
  have haccounted := h.backed.accounted
  have haccounted' := h'.accounted
  have h₁ := Column.total_insert mintedNet s.conversions r.id r
  have h₂ := Column.total_insert unlockedAmount s.conversions r.id r
  rw [hminted, hconversions] at haccounted'
  omega

/-- What completing a conversion does to the sums. -/
theorem total_completed (f : ConversionRequest → Nat) (hc : s.conversions.lookup id = some c)
    (hconversions : s'.conversions = s.conversions.insert id c') :
    Column.total f s'.conversions + f c = Column.total f s.conversions + f c' := by
  have htotal := Column.total_insert f s.conversions id c'
  rw [Column.valueAt, hc] at htotal
  rw [hconversions]
  exact htotal

/-- **A mint** keeps the bridge funded if the conversion was not completed before, and
then only. -/
theorem Funded.completeMint {mintedAt completedAt mintBlock : UInt64} {mintTxHash : Vector UInt8 32}
    (h : Funded s) (hok : s.completeMint mintedAt completedAt id mintTxHash mintBlock = .ok s')
    (hc : s.conversions.lookup id = some c) :
    (c.status ≠ .completed → Funded s') ∧ (c.status = .completed → ¬ Backed s') := by
  obtain ⟨c₀, hc₀, hdirection, hconversions, hlocked, hminted, hfees⟩ := completeMint_ok hok
  cases hc.symm.trans hc₀
  obtain ⟨hstatus', hdirection', _, _, hnet'⟩ :=
    c.completed_fields completedAt ⟨mintTxHash⟩
  obtain ⟨hnew₁, hnew₂, hnew₃⟩ := sums_of_minted hstatus' (hdirection'.trans hdirection)
  have htotal := fun f => total_completed f hc hconversions
  have hsums := And.intro (htotal mintedNet) (And.intro (htotal unlockedAmount)
    (htotal awaitedAmount))
  rw [hnew₁, hnew₂, hnew₃, hnet'] at hsums
  have haccounted := h.backed.accounted
  obtain ⟨hsplit, hpos⟩ := h.priced id c hc
  have hlt := s.totalLocked.toNat_lt
  constructor
  · intro hstatus
    have hreserve := h.reserve
    obtain ⟨hold₁, hold₂, hold₃⟩ := sums_of_waiting hstatus
    rw [if_pos hdirection] at hold₃
    have hminted' : s'.totalMinted.toNat = s.totalMinted.toNat + c.netAmount.toNat := by
      rw [hminted]
      exact toNat_add_of_lt (by omega)
    have hfees' : s'.totalFees.toNat = s.totalFees.toNat + c.fee.toNat := by
      rw [hfees]
      exact toNat_add_of_lt (by omega)
    have hcovered : s'.totalMinted.toNat + s'.totalFees.toNat ≤ s'.totalLocked.toNat := by
      rw [hlocked]
      omega
    refine ⟨⟨hcovered, verifyInvariant_of_covered hcovered, by omega⟩, ?_, ?_⟩
    · rw [hlocked]
      omega
    · rw [hconversions]
      exact Column.forall_lookup_insert h.priced ((h.priced id c hc).completed _ _)
  · intro hstatus h'
    -- the sums stay, and the total moves by less than a whole turn
    have haccounted' := h'.accounted
    obtain ⟨hold₁, hold₂, _⟩ := sums_of_minted hstatus hdirection
    have hnet := c.netAmount.toNat_lt
    have hmod := UInt64.toNat_add s.totalMinted c.netAmount
    rw [← hminted] at hmod
    omega

/-- **An unlock** keeps the bridge funded if the conversion was not completed before and
no more than the minted total is taken, and then only, unless nothing is minted. -/
theorem Funded.completeUnlock {completedAt : UInt64} {unlockTxHash : H256} (h : Funded s)
    (hok : s.completeUnlock completedAt id unlockTxHash = .ok s')
    (hc : s.conversions.lookup id = some c) :
    (c.status ≠ .completed ∧ c.amount ≤ s.totalMinted → Funded s') ∧
      (Backed s' → (c.status ≠ .completed ∧ c.amount ≤ s.totalMinted) ∨
        (c.status = .completed ∧ s.totalMinted = 0)) := by
  obtain ⟨c₀, hc₀, hdirection, hconversions, hlocked, hminted, hfees⟩ := completeUnlock_ok hok
  cases hc.symm.trans hc₀
  obtain ⟨hstatus', hdirection', hamount', _, _⟩ := c.completed_fields completedAt unlockTxHash
  obtain ⟨hnew₁, hnew₂, hnew₃⟩ := sums_of_unlocked hstatus' (hdirection'.trans hdirection)
  have htotal := fun f => total_completed f hc hconversions
  have hsums := And.intro (htotal mintedNet) (And.intro (htotal unlockedAmount)
    (htotal awaitedAmount))
  rw [hnew₁, hnew₂, hnew₃, hamount'] at hsums
  have haccounted := h.backed.accounted
  obtain ⟨hsplit, hpos⟩ := h.priced id c hc
  have hminted' : s'.totalMinted.toNat = s.totalMinted.toNat - c.amount.toNat := by
    rw [hminted]
    exact toNat_saturatingSub _ _
  constructor
  · rintro ⟨hstatus, hle⟩
    have hle' := UInt64.le_iff_toNat_le.mp hle
    have hreserve := h.reserve
    have hlt := s.totalLocked.toNat_lt
    obtain ⟨hold₁, hold₂, hold₃⟩ := sums_of_waiting hstatus
    rw [hdirection, if_neg nofun] at hold₃
    have hlocked' : s'.totalLocked.toNat = s.totalLocked.toNat - c.netAmount.toNat := by
      rw [hlocked]
      exact toNat_saturatingSub _ _
    have hfees' : s'.totalFees.toNat = s.totalFees.toNat + c.fee.toNat := by
      rw [hfees]
      exact toNat_add_of_lt (by omega)
    have hcovered : s'.totalMinted.toNat + s'.totalFees.toNat ≤ s'.totalLocked.toNat := by
      omega
    refine ⟨⟨hcovered, verifyInvariant_of_covered hcovered, by omega⟩, by omega, ?_⟩
    rw [hconversions]
    exact Column.forall_lookup_insert h.priced ((h.priced id c hc).completed _ _)
  · intro h'
    have haccounted' := h'.accounted
    by_cases hstatus : c.status = .completed
    · obtain ⟨hold₁, hold₂, _⟩ := sums_of_unlocked hstatus hdirection
      refine .inr ⟨hstatus, UInt64.toNat_inj.mp ?_⟩
      show s.totalMinted.toNat = 0
      omega
    · obtain ⟨hold₁, hold₂, _⟩ := sums_of_waiting hstatus
      refine .inl ⟨hstatus, UInt64.le_iff_toNat_le.mpr ?_⟩
      omega

end DualStateBridge

namespace DualStateOp

open ConversionRequest DualStateBridge

variable {C : Crypto} {s : DualStateBridge} {op : DualStateOp}

/-- **One sound call** keeps the bridge funded. -/
theorem funded_apply (h : Funded s) (hfits : op.Fits s) (hsound : op.Sound C s) :
    Funded (op.apply C s) := by
  cases op with
  | lock idAt createdAt lockedAt outpoint lockTxHash amount utxoOwner evmRecipient =>
    rw [apply]
    split
    · next s' id hok =>
      obtain ⟨haccepts, r, hid, hfresh, hconversions, hlocked, hminted, hfees⟩ := lockUtxo_ok hok
      refine h.opened (hid ▸ hsound haccepts) hfresh hconversions ?_ hminted hfees
      have hawaited : r.awaitedAmount = amount.toNat := by
        rw [awaitedAmount, hfresh.status, hfresh.amount, if_pos ⟨by decide, hfresh.direction⟩]
      rw [hlocked, hawaited]
      exact toNat_add_of_lt (hfits haccepts)
    · exact h
  | burn idAt createdAt burnTxHash amount evmBurner utxoRecipient =>
    rw [apply]
    split
    · next s' id hok =>
      obtain ⟨haccepts, r, hid, hfresh, hconversions, hlocked, hminted, hfees⟩ := burnForUtxo_ok hok
      refine h.opened (hid ▸ hsound haccepts) hfresh hconversions ?_ hminted hfees
      have hawaited : r.awaitedAmount = 0 := by
        rw [awaitedAmount, hfresh.direction]
        exact if_neg (by simp)
      rw [hlocked, hawaited, Nat.add_zero]
    · exact h
  | completeMint mintedAt completedAt conversionId mintTxHash mintBlock =>
    rw [apply]
    split
    · next s' hok =>
      obtain ⟨c, hc, hdirection, _⟩ := completeMint_ok hok
      exact (h.completeMint hok hc).1 (hsound c hc hdirection)
    · exact h
  | completeUnlock completedAt conversionId unlockTxHash =>
    rw [apply]
    split
    · next s' hok =>
      obtain ⟨c, hc, hdirection, _⟩ := completeUnlock_ok hok
      exact (h.completeUnlock hok hc).1 (hsound c hc hdirection)
    · exact h
  | processConfirmations order => exact h.processConfirmations order
  | updateHeights => exact h.of_same rfl rfl rfl (fun _ _ => rfl) h.priced
  | getNextReady => exact h.of_same rfl rfl rfl (fun _ _ => rfl) h.priced
  | pause => exact h.of_same rfl rfl rfl (fun _ _ => rfl) h.priced
  | resume => exact h.of_same rfl rfl rfl (fun _ _ => rfl) h.priced
  | emergencyStop => exact h.of_same rfl rfl rfl (fun _ _ => rfl) h.priced

/-- A call that is not sound shows, or it is a second unlock while nothing is
minted. -/
theorem sound_of_backed (h : Funded s) (h' : Backed (op.apply C s)) (hseen : ¬ op.Unseen s) :
    op.Sound C s := by
  cases op with
  | lock idAt createdAt lockedAt outpoint lockTxHash amount utxoOwner evmRecipient =>
    intro haccepts htaken
    obtain ⟨s', id, hok⟩ := exists_lockUtxo haccepts
    rw [apply, hok] at h'
    obtain ⟨_, r, hid, hfresh, hconversions, _, hminted, _⟩ := lockUtxo_ok hok
    exact not_backed_of_taken h (hid ▸ htaken) hfresh hconversions hminted h'
  | burn idAt createdAt burnTxHash amount evmBurner utxoRecipient =>
    intro haccepts htaken
    obtain ⟨s', id, hok⟩ := exists_burnForUtxo haccepts
    rw [apply, hok] at h'
    obtain ⟨_, r, hid, hfresh, hconversions, _, hminted, _⟩ := burnForUtxo_ok hok
    exact not_backed_of_taken h (hid ▸ htaken) hfresh hconversions hminted h'
  | completeMint mintedAt completedAt conversionId mintTxHash mintBlock =>
    intro c hc hdirection hstatus
    obtain ⟨s', hok⟩ := exists_completeMint hc hdirection
    rw [apply, hok] at h'
    exact (h.completeMint hok hc).2 hstatus h'
  | completeUnlock completedAt conversionId unlockTxHash =>
    intro c hc hdirection
    obtain ⟨s', hok⟩ := exists_completeUnlock hc hdirection
    rw [apply, hok] at h'
    rcases (h.completeUnlock hok hc).2 h' with hsound | ⟨hstatus, hnone⟩
    · exact hsound
    · exact absurd ⟨c, hc, hdirection, hstatus, hnone⟩ hseen
  | processConfirmations => trivial
  | updateHeights => trivial
  | getNextReady => trivial
  | pause => trivial
  | resume => trivial
  | emergencyStop => trivial

theorem not_unseen_of_sound (h : op.Sound C s) : ¬ op.Unseen s := by
  cases op with
  | completeUnlock completedAt conversionId unlockTxHash =>
    rintro ⟨c, hc, hdirection, hstatus, _⟩
    exact (h c hc hdirection).1 hstatus
  | lock => exact not_false
  | burn => exact not_false
  | updateHeights => exact not_false
  | processConfirmations => exact not_false
  | getNextReady => exact not_false
  | completeMint => exact not_false
  | pause => exact not_false
  | resume => exact not_false
  | emergencyStop => exact not_false

/-! ## Runs -/

/-- **Backing.** Where what is locked fits the total, a run is backed after every call,
and unlocks no completed burn again while nothing is minted, exactly when every
call of it is sound. -/
theorem backed_iff (C : Crypto) (ops : List DualStateOp)
    (hfits : ∀ pre op, pre ++ [op] <+: ops → op.Fits (run C DualStateBridge.new pre)) :
    ((∀ pre, pre <+: ops → Backed (run C DualStateBridge.new pre)) ∧
        ∀ pre op, pre ++ [op] <+: ops → ¬ op.Unseen (run C DualStateBridge.new pre)) ↔
      ∀ pre op, pre ++ [op] <+: ops → op.Sound C (run C DualStateBridge.new pre) := by
  constructor
  · rintro ⟨hbacked, hseen⟩
    have hsound : ∀ pre op, pre ++ [op] <+: ops → Funded (run C DualStateBridge.new pre) →
        op.Sound C (run C DualStateBridge.new pre) := by
      intro pre op hpre h
      have h' := hbacked (pre ++ [op]) hpre
      rw [run_snoc] at h'
      exact sound_of_backed h h' (hseen pre op hpre)
    have hfunded : ∀ pre, pre <+: ops → Funded (run C DualStateBridge.new pre) := by
      refine forall_prefixes funded_new fun pre op hpre h => ?_
      rw [run_snoc]
      exact funded_apply h (hfits pre op hpre) (hsound pre op hpre h)
    intro pre op hpre
    exact hsound pre op hpre (hfunded pre ((List.prefix_append pre [op]).trans hpre))
  · intro hsound
    have hfunded : ∀ pre, pre <+: ops → Funded (run C DualStateBridge.new pre) := by
      refine forall_prefixes funded_new fun pre op hpre h => ?_
      rw [run_snoc]
      exact funded_apply h (hfits pre op hpre) (hsound pre op hpre)
    exact ⟨fun pre hpre => (hfunded pre hpre).backed,
      fun pre op hpre => not_unseen_of_sound (hsound pre op hpre)⟩

/-- The id of the lock below. -/
def lockId : H256 :=
  H256.ofNatBE 0x80bcf14d01ce679ca132995bd64fa1c3e218d2f6e9d98051bd1227d19e6ce778

def lockCrypto : Crypto := Crypto.ofTable
  [(List.replicate 32 2 ++ List.replicate 20 1 ++ [0, 0, 0, 0, 0x3b, 0x9a, 0xca, 0] ++
      [0, 0, 0, 0, 0x65, 0x53, 0xf1, 0], lockId)]

/-- Ten PYRAX locked at the second 1700000000. -/
def lockTen : DualStateOp :=
  .lock 1700000000 1700000000 1700000000 ⟨⟨Vector.replicate 32 1⟩, 0⟩ ⟨Vector.replicate 32 2⟩
    1000000000 ⟨Vector.replicate 20 1⟩ (Vector.replicate 20 2)

def mintTen : DualStateOp :=
  .completeMint 1700000100 1700000100 lockId (Vector.replicate 32 3) 51

/-- Locked, confirmed and minted once. -/
noncomputable def mintedOnce : List DualStateOp :=
  [.updateHeights 100 50, lockTen, .updateHeights 106 50,
    .processConfirmations (.ofList [lockId]), mintTen]

theorem backed_minted_once :
    Backed (run lockCrypto DualStateBridge.new mintedOnce) ∧
      (run lockCrypto DualStateBridge.new mintedOnce).totalMinted = 999000000 := by
  refine ⟨((backed_iff lockCrypto mintedOnce ?_).mpr ?_).1 _ List.prefix_rfl, by decide +kernel⟩
  · refine forall_prefixes_snoc fun i hi => ?_
    match i, hi with
    | 0, _ => trivial
    | 1, _ => exact fun _ => by decide +kernel
    | 2, _ => trivial
    | 3, _ => trivial
    | 4, _ => trivial
  · refine forall_prefixes_snoc fun i hi => ?_
    match i, hi with
    | 0, _ => trivial
    | 1, _ =>
      rintro _ ⟨c, hc, _⟩
      cases hc
    | 2, _ => trivial
    | 3, _ => trivial
    | 4, _ =>
      intro c hc _ hcompleted
      have hconfirmed : ((run lockCrypto DualStateBridge.new (mintedOnce.take 4)).conversions.lookup
          lockId).map (fun c => c.status) = some .confirmed := by
        decide +kernel
      rw [hc, Option.map_some, hcompleted] at hconfirmed
      cases hconfirmed

/-- One lock, minted twice: twice as much as is locked. -/
theorem minted_twice :
    let s := run lockCrypto DualStateBridge.new
      [.updateHeights 100 50, lockTen, .updateHeights 106 50, mintTen, mintTen]
    s.verifyInvariant = false ∧
      (s.totalLocked.toNat, s.totalMinted.toNat, s.totalFees.toNat)
        = (1000000000, 1998000000, 2000000) ∧
      (s.conversions.lookup lockId).map (fun c => (c.status, c.netAmount.toNat))
        = some (.completed, 999000000) := by
  decide +kernel

end DualStateOp

end Pyrax.Bridge
