import Pyrax.Base.Run
import Pyrax.Light.Headers

/-!
# What a light client's headers form

Headers come from peers, in any order and with any content. Whatever they are, the index
finds exactly the retained ones and there are never more than the limit
(`run_wellFormed`). A *chain* they are only under a condition on what is sent:

* `add_header` looks a parent up anywhere in the index, so that a header on a side branch
  is put behind the tip;
* it lets a header of height `0` pass at any time, and the height of the chain falls back;
* `get_at_height(0)` answers with the oldest retained header, which is not the genesis
  header once that is pruned.

`chained_iff` says that there is nothing else: the calls on a chain see a chain, with
heights that never decrease and the difficulty of all that was accepted, exactly when every
header that passes the tests extends the tip (and the sum of difficulties stays in range)
and height `0` is asked for only while the oldest header has it.
-/

namespace Pyrax

open Base

namespace HeaderChain

/-- The calls of a run. -/
inductive Call where
  | addHeader (header : LightHeader)
  | getAtHeight (height : UInt64)
  deriving DecidableEq

/-- The tests of `add_header` for a header that is not in the index. -/
def Takes (c : HeaderChain) (header : LightHeader) : Prop :=
  header.hash ∉ c.byHash ∧
    (0 < header.height → header.parentHash ∈ c.byHash ∧ header.height = c.height + 1)

instance (c : HeaderChain) (header : LightHeader) : Decidable (c.Takes header) :=
  inferInstanceAs (Decidable (_ ∧ _))

/-- The chain after a call of `add_header`; a refused header leaves it as it is. -/
def after (c : HeaderChain) (header : LightHeader) : HeaderChain :=
  match c.addHeader header with
  | .ok c' => c'
  | .error _ => c

/-- `LightClient::sync_headers`: the headers of a peer one after the other, and how many
were not refused. -/
def syncHeaders (c : HeaderChain) (headers : List LightHeader) : HeaderChain × UInt64 :=
  headers.foldl (fun s header =>
    match s.1.addHeader header with
    | .ok c' => (c', s.2 + 1)
    | .error _ => s) (c, 0)

/-- A chain and all the headers it has accepted. -/
structure Traced where
  chain : HeaderChain
  accepted : List LightHeader

namespace Traced

def start (maxHeaders : Nat) : Traced := ⟨new maxHeaders, [LightHeader.genesis]⟩

def step (t : Traced) : Call → Traced
  | .addHeader header =>
    ⟨t.chain.after header,
      if t.chain.Takes header then t.accepted ++ [header] else t.accepted⟩
  | .getAtHeight _ => t

def run (maxHeaders : Nat) (calls : List Call) : Traced := calls.foldl step (start maxHeaders)

theorem run_snoc (maxHeaders : Nat) (calls : List Call) (call : Call) :
    run maxHeaders (calls ++ [call]) = (run maxHeaders calls).step call := by
  rw [run, List.foldl_append]
  rfl

end Traced

variable {c : HeaderChain} {t : Traced} {header tip : LightHeader} {maxHeaders : Nat}

/-! ## One call -/

theorem after_of_takes (h : c.Takes header) : c.after header = (c.push header).prune := by
  obtain ⟨hnew, hfollows⟩ := h
  unfold after addHeader
  rw [if_neg hnew, if_neg fun hn => hn.1 (hfollows hn.2).1,
    if_neg fun hn => hn.1 (hfollows hn.2).2]

theorem after_of_not_takes (h : ¬ c.Takes header) : c.after header = c := by
  unfold after
  split
  · next c' hadd =>
    rcases addHeader_cases hadd with ⟨-, hsame⟩ | ⟨hnew, hfollows, -⟩
    · exact hsame
    · exact absurd ⟨hnew, hfollows⟩ h
  · rfl

theorem step_of_takes (h : t.chain.Takes header) :
    t.step (.addHeader header) = ⟨(t.chain.push header).prune, t.accepted ++ [header]⟩ := by
  rw [Traced.step, after_of_takes h, if_pos h]

theorem step_of_not_takes (h : ¬ t.chain.Takes header) : t.step (.addHeader header) = t := by
  rw [Traced.step, after_of_not_takes h, if_neg h]

/-- A batch of headers is a run of `add_header`. -/
theorem syncHeaders_fst (headers : List LightHeader) (t : Traced) :
    (t.chain.syncHeaders headers).1 = ((headers.map Call.addHeader).foldl Traced.step t).chain := by
  unfold syncHeaders
  generalize (0 : UInt64) = added
  induction headers generalizing t added with
  | nil => rfl
  | cons header headers ih =>
    rw [List.map_cons, List.foldl_cons, List.foldl_cons]
    cases hadd : t.chain.addHeader header with
    | ok c' =>
      have hstep : (t.step (.addHeader header)).chain = c' := by
        rw [Traced.step, after, hadd]
      rw [← ih _ (added + 1), hstep]
    | error e =>
      have hstep : (t.step (.addHeader header)).chain = t.chain := by
        rw [Traced.step, after, hadd]
      rw [← ih _ added, hstep]

theorem step_wellFormed (h : t.chain.WellFormed) (call : Call) : (t.step call).chain.WellFormed := by
  cases call with
  | addHeader header =>
    by_cases htakes : t.chain.Takes header
    · rw [step_of_takes htakes]
      exact h.pushed htakes.1
    · rw [step_of_not_takes htakes]
      exact h
  | getAtHeight height => exact h

theorem step_maxHeaders (t : Traced) (call : Call) :
    (t.step call).chain.maxHeaders = t.chain.maxHeaders := by
  cases call with
  | addHeader header =>
    by_cases htakes : t.chain.Takes header
    · rw [step_of_takes htakes]
      exact prune_maxHeaders _
    · rw [step_of_not_takes htakes]
  | getAtHeight height => rfl

/-- Whatever is sent, the index is exact and the limit is kept. -/
theorem run_wellFormed (hmax : 1 ≤ maxHeaders) (calls : List Call) :
    (Traced.run maxHeaders calls).chain.WellFormed ∧
      (Traced.run maxHeaders calls).chain.maxHeaders = maxHeaders := by
  induction calls using List.reverseRecOn with
  | nil => exact ⟨wellFormed_new hmax, rfl⟩
  | append_singleton calls call ih =>
    rw [Traced.run_snoc]
    exact ⟨step_wellFormed ih.1 call, (step_maxHeaders _ call).trans ih.2⟩

/-! ## A chain -/

/-- What the header chain of a light client is meant to be. -/
structure Chained (maxHeaders : Nat) (t : Traced) : Prop where
  consecutive : t.chain.headers.IsChain fun a b => b.height.toNat = a.height.toNat + 1
  linked : t.chain.headers.IsChain fun a b => b.parentHash = a.hash
  found : ∀ hash header, t.chain.getByHash hash = some header ↔
    header ∈ t.chain.headers ∧ header.hash = hash
  bounded : t.chain.headers.length ≤ maxHeaders
  work : t.chain.totalDifficulty.toNat = (t.accepted.map (·.difficulty.toNat)).sum

/-- A question about a height is answered with a header of that height, or not at all. -/
def Answers (c : HeaderChain) : Call → Prop
  | .addHeader _ => True
  | .getAtHeight height => ∀ header, c.getAtHeight height = some header → header.height = height

/-- The header goes behind the tip. With room for one header alone, one of height `0` may
also take the place of another. -/
def Extends (c : HeaderChain) (header : LightHeader) : Prop :=
  (header.height ≠ 0 ∧ c.headers.getLast?.map (·.hash) = some header.parentHash) ∨
    (header.height = 0 ∧ c.maxHeaders = 1 ∧ c.height = 0)

/-- The condition on a call. -/
def Fits (c : HeaderChain) : Call → Prop
  | .addHeader header => c.Takes header →
    c.Extends header ∧ c.totalDifficulty.toNat + header.difficulty.toNat < 2 ^ 128
  | .getAtHeight height => height = 0 → c.headers.head?.map (·.height) = some 0

instance (c : HeaderChain) (header : LightHeader) : Decidable (c.Extends header) :=
  inferInstanceAs (Decidable (_ ∨ _))

instance (c : HeaderChain) : (call : Call) → Decidable (c.Fits call)
  | .addHeader header => inferInstanceAs (Decidable (c.Takes header → _))
  | .getAtHeight height => inferInstanceAs (Decidable (height = 0 → _))

theorem chained_start (hmax : 1 ≤ maxHeaders) : Chained maxHeaders (Traced.start maxHeaders) where
  consecutive := List.isChain_singleton _
  linked := List.isChain_singleton _
  found _ _ := (wellFormed_new hmax).getByHash_eq_some_iff
  bounded := hmax
  work := rfl

theorem height_of_getLast? (htip : c.headers.getLast? = some tip) : c.height = tip.height := by
  rw [height, htip]
  rfl

/-- The newest part of a list with one more element is linked when the list is and the
element follows its last one, unless nothing else is kept. -/
theorem isChain_pushed_iff {α : Type} {R : α → α → Prop} {l : List α} {x y : α} {n : Nat}
    (hl : l.IsChain R) (hlast : l.getLast? = some x) (hlen : l.length ≤ n) :
    ((l ++ [y]).drop (l.length + 1 - n)).IsChain R ↔ n = 1 ∨ R x y := by
  have hpos : 0 < l.length := List.length_pos_iff.mpr fun hnil => by
    rw [hnil] at hlast
    cases hlast
  rcases Nat.lt_or_ge 1 n with hn | hn
  · have hkept : l.length + 1 - n < l.length := by omega
    have hlast' : (l.drop (l.length + 1 - n)).getLast? = some x := by
      rw [List.getLast?_drop, if_neg (by omega), hlast]
    rw [List.drop_append_of_le_length hkept.le, List.isChain_append, hlast']
    simp [hl.drop, hn.ne']
  · have hone : l.length = 1 := by omega
    obtain ⟨z, rfl⟩ := List.length_eq_one_iff.mp hone
    have hn1 : n = 1 := by omega
    simp [hn1]

theorem getLast?_pushed (hw : c.WellFormed) (header : LightHeader) :
    (c.push header).prune.headers.getLast? = some header := by
  have hpos : 0 < c.headers.length := List.length_pos_iff.mpr hw.nonempty
  have hmax := hw.bounded
  rw [headers_pushed, List.getLast?_drop, if_neg, List.getLast?_concat]
  rw [List.length_append, List.length_singleton]
  omega

/-- With room for one header alone, the only parent in the index is the tip. -/
theorem parent_eq_of_one (hw : c.WellFormed) (hone : c.maxHeaders = 1)
    (htip : c.headers.getLast? = some tip) {hash : H256} (h : hash ∈ c.byHash) : hash = tip.hash := by
  have hlen := hw.bounded
  have hpos : 0 < c.headers.length := List.length_pos_iff.mpr hw.nonempty
  obtain ⟨z, hz⟩ := List.length_eq_one_iff.mp (show c.headers.length = 1 by omega)
  obtain ⟨v, hv, hhash⟩ := hw.indexed.mem_iff.mp h
  rw [hz] at hv htip
  cases List.mem_singleton.mp hv
  rw [← hhash]
  exact congrArg LightHeader.hash (Option.some.inj htip)

/-- The successor of a word is greater unless it is `0`. -/
theorem toNat_succ_of_ne_zero {x y : UInt64} (h : y = x + 1) (hne : y ≠ 0) :
    y.toNat = x.toNat + 1 := by
  have hx := x.toNat_lt
  have hy : y.toNat = (x.toNat + 1) % 2 ^ 64 := by
    rw [h, UInt64.toNat_add]
    rfl
  have hpos : y.toNat ≠ 0 := fun hz => hne (UInt64.toNat_inj.mp hz)
  omega

/-- A header that passes the tests makes a longer chain exactly when it extends the tip. -/
theorem extends_iff (hw : c.WellFormed) (htakes : c.Takes header)
    (hcons : c.headers.IsChain fun a b => b.height.toNat = a.height.toNat + 1)
    (hlinked : c.headers.IsChain fun a b => b.parentHash = a.hash) :
    (((c.push header).prune.headers.IsChain fun a b => b.height.toNat = a.height.toNat + 1) ∧
      ((c.push header).prune.headers.IsChain fun a b => b.parentHash = a.hash) ∧
      c.height ≤ (c.push header).prune.height) ↔ c.Extends header := by
  obtain ⟨tip, htip⟩ : ∃ tip, c.headers.getLast? = some tip :=
    Option.ne_none_iff_exists'.mp fun hnone => hw.nonempty (List.getLast?_eq_none_iff.mp hnone)
  obtain ⟨-, hfollows⟩ := htakes
  rw [headers_pushed, isChain_pushed_iff hcons htip hw.bounded,
    isChain_pushed_iff hlinked htip hw.bounded, height_of_getLast? (getLast?_pushed hw header),
    Extends, htip, height_of_getLast? htip]
  rw [height_of_getLast? htip] at hfollows
  by_cases hzero : header.height = 0
  · -- height `0` behind a header of any height
    rw [hzero]
    have hle : tip.height ≤ 0 ↔ tip.height = 0 := UInt64.le_zero_iff
    simp [hle]
    tauto
  · obtain ⟨hparent, hnext⟩ := hfollows (UInt64.pos_iff_ne_zero.mpr hzero)
    have hnat := toNat_succ_of_ne_zero hnext hzero
    have hle : tip.height ≤ header.height := UInt64.le_iff_toNat_le.mpr (by omega)
    have hone : c.maxHeaders = 1 → header.parentHash = tip.hash :=
      fun hmax => parent_eq_of_one hw hmax htip hparent
    have hlast : Option.map (·.hash) (some tip) = some header.parentHash ↔
        header.parentHash = tip.hash := by
      rw [Option.map_some, Option.some.injEq, eq_comm]
    rw [hlast]
    constructor
    · rintro ⟨-, hmax | hlink, -⟩
      · exact .inl ⟨hzero, hone hmax⟩
      · exact .inl ⟨hzero, hlink⟩
    · rintro (⟨-, hlink⟩ | ⟨hcontra, -⟩)
      · exact ⟨.inr hnat, .inr hlink, hle⟩
      · exact absurd hcontra hzero

/-- In a chain the place of a header tells its height. -/
theorem height_getElem? {l : List LightHeader} {first : LightHeader}
    (hl : l.IsChain fun a b => b.height.toNat = a.height.toNat + 1) (hfirst : l.head? = some first)
    {i : Nat} (h : l[i]? = some header) : header.height.toNat = first.height.toNat + i := by
  induction i generalizing header with
  | zero =>
    rw [List.head?_eq_getElem?, h] at hfirst
    rw [Option.some.inj hfirst, Nat.add_zero]
  | succ i ih =>
    obtain ⟨hi, hget⟩ := List.getElem?_eq_some_iff.mp h
    have hprev := ih (List.getElem?_eq_getElem (show i < l.length by omega))
    have hstep := hl.getElem i hi
    rw [hget] at hstep
    omega

/-- A question is answered right except, it may be, the one about height `0`. -/
theorem answers_iff (hw : c.WellFormed)
    (hcons : c.headers.IsChain fun a b => b.height.toNat = a.height.toNat + 1) (n : UInt64) :
    c.Answers (.getAtHeight n) ↔ c.Fits (.getAtHeight n) := by
  obtain ⟨first, hfirst⟩ : ∃ first, c.headers.head? = some first :=
    Option.ne_none_iff_exists'.mp fun hnone => hw.nonempty (List.head?_eq_none_iff.mp hnone)
  by_cases hn : n = 0
  · simp [Answers, Fits, getAtHeight, hfirst, hn]
  · refine iff_of_true ?_ fun hz => absurd hz hn
    intro header hheader
    rw [getAtHeight, if_neg hn, hfirst, Option.map_some, Option.getD_some] at hheader
    dsimp only at hheader
    split at hheader
    · cases hheader
    · next hge =>
      have hge' : first.height.toNat ≤ n.toNat := UInt64.le_iff_toNat_le.mp (UInt64.not_lt.mp hge)
      have hat := height_getElem? hcons hfirst hheader
      rw [UInt64.toNat_sub_of_le n first.height (UInt64.le_iff_toNat_le.mpr hge')] at hat
      exact UInt64.toNat_inj.mp (by omega)

/-! ## One call and a whole run -/

/-- What a call sees and leaves is all right exactly when it fits. -/
theorem step_iff (hw : t.chain.WellFormed) (hmax : t.chain.maxHeaders = maxHeaders)
    (hc : Chained maxHeaders t) (call : Call) :
    (Chained maxHeaders (t.step call) ∧ t.chain.height ≤ (t.step call).chain.height ∧
      t.chain.Answers call) ↔ t.chain.Fits call := by
  cases call with
  | getAtHeight n =>
    rw [← answers_iff hw hc.consecutive n]
    exact ⟨fun h => h.2.2, fun h => ⟨hc, UInt64.le_refl _, h⟩⟩
  | addHeader header =>
    by_cases htakes : t.chain.Takes header
    · have hw' := hw.pushed htakes.1
      have hadd : ((t.chain.push header).prune.totalDifficulty).toNat
          = (t.chain.totalDifficulty.toNat + header.difficulty.toNat) % 2 ^ 128 := by
        rw [prune_totalDifficulty, push, BitVec.toNat_add, BitVec.toNat_ofNat, Nat.add_mod_mod]
      have hsum : ((t.accepted ++ [header]).map (·.difficulty.toNat)).sum
          = t.chain.totalDifficulty.toNat + header.difficulty.toNat := by
        rw [hc.work, List.map_append, List.sum_append]
        simp
      have hiff := extends_iff hw htakes hc.consecutive hc.linked
      rw [step_of_takes htakes, Fits, ← hiff]
      constructor
      · rintro ⟨hc', hle, -⟩ -
        have hwork := hc'.work
        rw [hadd, hsum] at hwork
        exact ⟨⟨hc'.consecutive, hc'.linked, hle⟩, by omega⟩
      · intro h
        obtain ⟨⟨hcons, hlinked, hle⟩, hlt⟩ := h htakes
        refine ⟨⟨hcons, hlinked, fun _ _ => hw'.getByHash_eq_some_iff, ?_, ?_⟩, hle, trivial⟩
        · rw [← hmax]
          exact hw'.bounded.trans_eq (prune_maxHeaders _)
        · rw [hadd, hsum, Nat.mod_eq_of_lt hlt]
    · rw [step_of_not_takes htakes]
      exact iff_of_true ⟨hc, UInt64.le_refl _, trivial⟩ fun h => absurd h htakes

/-- **The light header chain.** Over every run of calls: the retained headers are a chain
that the index finds and the limit bounds, with the work of all that was accepted, the
height never decreases and every question about a height is answered right, exactly when
every call fits. -/
theorem chained_iff (hmax : 1 ≤ maxHeaders) (calls : List Call) :
    ((∀ pre, pre <+: calls → Chained maxHeaders (Traced.run maxHeaders pre)) ∧
      (∀ pre post, pre ++ post <+: calls →
        (Traced.run maxHeaders pre).chain.height
          ≤ (Traced.run maxHeaders (pre ++ post)).chain.height) ∧
      (∀ pre call, pre ++ [call] <+: calls → (Traced.run maxHeaders pre).chain.Answers call)) ↔
      ∀ pre call, pre ++ [call] <+: calls → (Traced.run maxHeaders pre).chain.Fits call := by
  have hstep : ∀ pre, Chained maxHeaders (Traced.run maxHeaders pre) → ∀ call,
      (Chained maxHeaders (Traced.run maxHeaders (pre ++ [call])) ∧
        (Traced.run maxHeaders pre).chain.height
          ≤ (Traced.run maxHeaders (pre ++ [call])).chain.height ∧
        (Traced.run maxHeaders pre).chain.Answers call) ↔
        (Traced.run maxHeaders pre).chain.Fits call := by
    intro pre hc call
    rw [Traced.run_snoc]
    obtain ⟨hw, hsame⟩ := run_wellFormed hmax pre
    exact step_iff hw hsame hc call
  constructor
  · rintro ⟨hall, hmono, hanswers⟩ pre call hpre
    have hbefore := hall pre ((List.prefix_append pre [call]).trans hpre)
    exact (hstep pre hbefore call).mp
      ⟨hall _ hpre, hmono pre [call] hpre, hanswers pre call hpre⟩
  · intro hfits
    have hall : ∀ pre, pre <+: calls → Chained maxHeaders (Traced.run maxHeaders pre) :=
      forall_prefixes (chained_start hmax) fun pre call hpre hc =>
        ((hstep pre hc call).mpr (hfits pre call hpre)).1
    have hsteps : ∀ pre call, pre ++ [call] <+: calls → _ := fun pre call hpre =>
      (hstep pre (hall pre ((List.prefix_append pre [call]).trans hpre)) call).mpr
        (hfits pre call hpre)
    refine ⟨hall, ?_, fun pre call hpre => (hsteps pre call hpre).2.2⟩
    refine (forall_later_iff (R := fun pre pre' => (Traced.run maxHeaders pre).chain.height
      ≤ (Traced.run maxHeaders pre').chain.height) (fun _ => UInt64.le_refl _)
      fun _ _ _ => UInt64.le_trans).mpr ?_
    exact fun pre call hpre => (hsteps pre call hpre).2.1

/-- A header with its hash and its parent, of difficulty `1`. -/
def numbered (height : UInt64) (hash parent : UInt8) : LightHeader :=
  ⟨height, ⟨Vector.replicate 32 hash⟩, ⟨Vector.replicate 32 parent⟩, H256.zero, 1000, 1, 0⟩

/-- Two headers behind the genesis header, which is then pruned; a peer may send them in one
batch. -/
theorem chained_two_headers :
    (∀ pre, pre <+: [Call.addHeader (numbered 1 1 0), .addHeader (numbered 2 2 1),
        .getAtHeight 2] → Chained 2 (Traced.run 2 pre)) ∧
      (Traced.run 2 [.addHeader (numbered 1 1 0), .addHeader (numbered 2 2 1)]).chain.headers
        = [numbered 1 1 0, numbered 2 2 1] ∧
      ((new 2).syncHeaders [numbered 1 1 0, numbered 2 2 1]).1.headers
        = [numbered 1 1 0, numbered 2 2 1] := by
  have hheaders : (Traced.run 2 [.addHeader (numbered 1 1 0),
      .addHeader (numbered 2 2 1)]).chain.headers = [numbered 1 1 0, numbered 2 2 1] := by
    decide +kernel
  refine ⟨((chained_iff (by decide) _).mpr (forall_prefixes_snoc ?_)).1, hheaders, ?_⟩
  · decide +kernel
  · exact (congrArg HeaderChain.headers (syncHeaders_fst _ (.start 2))).trans hheaders

/-- A header on a side branch is put behind the tip, one of height `0` takes the height back,
and after pruning the oldest header answers for height `0`. -/
theorem headers_not_chained :
    ¬ Chained 10 (Traced.run 10 [.addHeader (numbered 1 1 0), .addHeader (numbered 2 2 0)]) ∧
      (Traced.run 10 [.addHeader (numbered 1 1 0), .addHeader (numbered 0 2 0)]).chain.height
        < (Traced.run 10 [.addHeader (numbered 1 1 0)]).chain.height ∧
      ¬ (Traced.run 2 [.addHeader (numbered 1 1 0),
        .addHeader (numbered 2 2 1)]).chain.Answers (.getAtHeight 0) := by
  refine ⟨fun h => ?_, by decide +kernel, fun h => ?_⟩
  · have hheaders : (Traced.run 10 [.addHeader (numbered 1 1 0),
        .addHeader (numbered 2 2 0)]).chain.headers
          = [LightHeader.genesis, numbered 1 1 0, numbered 2 2 0] := by
      decide +kernel
    have hlink := h.linked
    rw [hheaders] at hlink
    exact absurd (hlink.getElem 1 (by decide)) (by decide)
  · exact absurd (h (numbered 1 1 0) (by decide +kernel)) (by decide)

end HeaderChain

end Pyrax
