import Mathlib.Data.List.Chain
import Pyrax.Base.Word
import Pyrax.Sync.Order

/-!
# The queue of pending headers

`process_headers` queues what connects, and `process_block` takes the block's header out
again. The queue is a chain on top of a stored block (`Chained`) over every run of the two
calls exactly when every call meets its condition (`SyncOp.Careful`, `pendingChain_iff`):

* a header right above the tip is queued while the queue is empty: `process_headers` does
  not look at the queue there;
* a header with another height that comes to an empty queue is right above its parent:
  there only the parent is looked up, and not its height;
* a block whose header is queued is the last one in the queue, or the first one and valid:
  `retain` takes a header out wherever it stands.

Stored blocks are found by their hash, so BLAKE3 must not collide on the headers in play.
-/

namespace Pyrax.Sync

open Base ChainDB Validation Ledger

inductive SyncOp where
  | processHeaders (now : UInt64) (headers : List BlockHeader)
  | processBlock (now : UInt64) (block : Block)

namespace SyncOp

def run (C : Crypto) (s : ChainSync) : SyncOp → ChainSync
  | processHeaders now headers => (s.processHeaders C now headers).1
  | processBlock now block => (s.processBlock C now block).1

/-- The headers an operation brings. -/
def headers : SyncOp → List BlockHeader
  | processHeaders _ headers => headers
  | processBlock _ block => [block.header]

end SyncOp

/-- The calls one after the other, on a new synchroniser. -/
def syncRun (C : Crypto) (db : ChainDB) (ops : List SyncOp) : ChainSync :=
  ops.foldl (SyncOp.run C) (ChainSync.new db)

theorem syncRun_snoc (C : Crypto) (db : ChainDB) (ops : List SyncOp) (op : SyncOp) :
    syncRun C db (ops ++ [op]) = op.run C (syncRun C db ops) := by
  rw [syncRun, List.foldl_append]
  rfl

/-! ## The law and the condition -/

/-- One header on top of another. -/
def Links (t t' : BlockDownloadTask) : Prop :=
  t'.header.parentHash = t.hash ∧ t'.height.toNat = t.height.toNat + 1

/-- A header on top of a stored block. -/
def Rooted (db : ChainDB) (t : BlockDownloadTask) : Prop :=
  ∃ p, db.getBlock t.header.parentHash = some p ∧ p.height.toNat + 1 = t.height.toNat

/-- The queue is a chain on top of a stored block. -/
structure Chained (db : ChainDB) (queue : List BlockDownloadTask) : Prop where
  linked : queue.IsChain Links
  rooted : ∀ t ∈ queue.head?, Rooted db t
  heights : (queue.map (·.height)).Nodup

/-- The checks of `process_headers`, with the queue as it is. -/
structure Queued (C : Crypto) (now : UInt64) (s : ChainSync) (queue : List BlockDownloadTask)
    (header : BlockHeader) : Prop where
  unknown : s.db.hasBlock (header.hash C) = false
  fresh : (queue.any fun t => t.hash == header.hash C) = false
  connects : s.connects queue header = true
  valid : validateHeader C now header = .ok ()

/-- The queue after some of the headers of a call. -/
def queueAfter (C : Crypto) (now : UInt64) (s : ChainSync) (headers : List BlockHeader) :
    List BlockDownloadTask :=
  (headers.foldl (ChainSync.addHeader C now s) (s.pendingHeaders, 0)).1

/-- The condition on a header that is queued. -/
def HeaderCareful (C : Crypto) (now : UInt64) (s : ChainSync) (queue : List BlockDownloadTask)
    (header : BlockHeader) : Prop :=
  Queued C now s queue header →
    match queue.getLast? with
    | none => header.height ≠ s.db.tip.height + 1 →
      ∃ p, s.db.getBlock header.parentHash = some p ∧ p.height.toNat + 1 = header.height.toNat
    | some last => header.height ≠ s.db.tip.height + 1 ∧ last.height + 1 ≠ 0

/-- The condition on a call, of the synchroniser before it. -/
def SyncOp.Careful (C : Crypto) (s : ChainSync) : SyncOp → Prop
  | .processHeaders now headers => ∀ pre header, pre ++ [header] <+: headers →
    HeaderCareful C now s (queueAfter C now s pre) header
  | .processBlock now block => ∀ t ∈ s.pendingHeaders, t.hash = block.hash C →
    s.pendingHeaders.getLast? = some t ∨
      (s.pendingHeaders.head? = some t ∧ validateBlock C now block s.db = .ok ())

variable {C : Crypto} {H : BlockHeader → Prop} {db : ChainDB} {s : ChainSync} {now : UInt64}
  {queue : List BlockDownloadTask} {header : BlockHeader} {b : Block}

/-! ## Chains -/

theorem nodup_heights (h : queue.IsChain Links) : (queue.map (·.height)).Nodup := by
  have hlt : (queue.map (·.height)).IsChain (· < ·) := by
    rw [List.isChain_map]
    refine h.imp fun t t' hlink => UInt64.lt_iff_toNat_lt.mpr ?_
    rw [hlink.2]
    exact Nat.lt_succ_self _
  have htrans : Trans (α := UInt64) (· < ·) (· < ·) (· < ·) := ⟨UInt64.lt_trans⟩
  exact List.Pairwise.imp (fun hab => UInt64.ne_of_lt hab) (List.isChain_iff_pairwise.mp hlt)

theorem Chained.of_linked (h : queue.IsChain Links) (hroot : ∀ t ∈ queue.head?, Rooted db t) :
    Chained db queue := ⟨h, hroot, nodup_heights h⟩

theorem chained_nil (db : ChainDB) : Chained db [] :=
  .of_linked List.isChain_nil fun t ht => by cases ht

/-- The queue grows at the back. -/
theorem Chained.snoc_iff (h : Chained db queue) (t : BlockDownloadTask) :
    Chained db (queue ++ [t]) ↔ match queue.getLast? with
      | none => Rooted db t
      | some last => Links last t := by
  cases hlast : queue.getLast? with
  | none =>
    have hnil : queue = [] := List.getLast?_eq_none_iff.mp hlast
    subst hnil
    constructor
    · exact fun h' => h'.rooted t rfl
    · intro hroot
      refine .of_linked (List.isChain_singleton t) fun t' ht' => ?_
      cases ht'
      exact hroot
  | some last =>
    constructor
    · exact fun h' => (List.isChain_append.mp h'.linked).2.2 last hlast t rfl
    · intro hlink
      refine .of_linked (List.isChain_append.mpr ⟨h.linked, List.isChain_singleton t,
        fun x hx y hy => ?_⟩) fun t' ht' => ?_
      · cases hlast.symm.trans hx
        cases hy
        exact hlink
      · cases queue with
        | nil => cases hlast
        | cons u queue => exact h.rooted t' ht'

/-- What is queued first is a chain if the whole queue is. -/
theorem Chained.of_prefix {queue' : List BlockDownloadTask} (h : Chained db queue')
    (hpre : queue <+: queue') : Chained db queue := by
  obtain ⟨rest, rfl⟩ := hpre
  refine .of_linked (List.isChain_append.mp h.linked).1 fun t ht => ?_
  cases queue with
  | nil => cases ht
  | cons u queue => exact h.rooted t ht

/-- Two queued headers of one height are one. -/
theorem Chained.height_inj (h : Chained db queue) {t t' : BlockDownloadTask} (ht : t ∈ queue)
    (ht' : t' ∈ queue) (heq : t.height = t'.height) : t = t' :=
  List.inj_on_of_nodup_map h.heights ht ht' heq

/-! ## What stays as it is -/

/-- A queued header under its hash, of a block that is not stored. -/
structure Awaited (C : Crypto) (H : BlockHeader → Prop) (db : ChainDB) (t : BlockDownloadTask) :
    Prop where
  hash : t.hash = t.header.hash C
  height : t.height = t.header.height
  inPlay : H t.header
  absent : db.getBlock t.hash = none

/-- The tip is a stored block of its height. -/
def TipStored (db : ChainDB) : Prop :=
  ∃ p, db.getBlock db.tip.hash = some p ∧ p.height = db.tip.height

structure Ready (C : Crypto) (H : BlockHeader → Prop) (s : ChainSync) : Prop where
  tip : TipStored s.db
  stored : StoredIn C H s.db
  awaited : ∀ t ∈ s.pendingHeaders, Awaited C H s.db t
  buffered : ∀ k, k ∈ s.pendingBlocks → k = 0

theorem hasBlock_eq_false_iff {k : H256} : db.hasBlock k = false ↔ db.getBlock k = none := by
  rw [hasBlock, getBlock, Option.isSome_eq_false_iff, Option.isNone_iff_eq_none]

/-! ## Headers -/

/-- The task of a header. -/
def taskOf (C : Crypto) (header : BlockHeader) : BlockDownloadTask :=
  ⟨header.hash C, header.height, header⟩

/-- One turn of the loop queues the header or changes nothing. -/
theorem addHeader_cases (now : UInt64) (s : ChainSync) (acc : List BlockDownloadTask × Nat)
    (header : BlockHeader) :
    (Queued C now s acc.1 header ∧
        s.addHeader C now acc header = (acc.1 ++ [taskOf C header], acc.2 + 1)) ∨
      (¬ Queued C now s acc.1 header ∧ s.addHeader C now acc header = acc) := by
  unfold ChainSync.addHeader
  by_cases hknown : s.db.hasBlock (header.hash C) = true
  · rw [if_pos hknown]
    exact Or.inr ⟨fun h => Bool.false_ne_true (h.unknown.symm.trans hknown), rfl⟩
  · rw [if_neg hknown]
    by_cases hpending : (acc.1.any fun t => t.hash == header.hash C) = true
    · rw [if_pos hpending]
      exact Or.inr ⟨fun h => Bool.false_ne_true (h.fresh.symm.trans hpending), rfl⟩
    · rw [if_neg hpending]
      by_cases hconnects : s.connects acc.1 header = false
      · rw [if_pos hconnects]
        exact Or.inr ⟨fun h => Bool.false_ne_true (hconnects.symm.trans h.connects), rfl⟩
      · rw [if_neg hconnects]
        cases hvalid : validateHeader C now header with
        | error e =>
          refine Or.inr ⟨fun h => ?_, rfl⟩
          have hok := h.valid
          rw [hvalid] at hok
          cases hok
        | ok u =>
          exact Or.inl ⟨⟨Bool.eq_false_iff.mpr hknown, Bool.eq_false_iff.mpr hpending,
            Bool.not_eq_false _ ▸ hconnects, hvalid⟩, rfl⟩

theorem queueAfter_snoc (now : UInt64) (s : ChainSync) (pre : List BlockHeader)
    (header : BlockHeader) :
    (Queued C now s (queueAfter C now s pre) header ∧
        queueAfter C now s (pre ++ [header]) = queueAfter C now s pre ++ [taskOf C header]) ∨
      (¬ Queued C now s (queueAfter C now s pre) header ∧
        queueAfter C now s (pre ++ [header]) = queueAfter C now s pre) := by
  unfold queueAfter
  rw [List.foldl_append, List.foldl_cons, List.foldl_nil]
  rcases addHeader_cases (C := C) now s
    (pre.foldl (ChainSync.addHeader C now s) (s.pendingHeaders, 0)) header with ⟨hq, h⟩ | ⟨hq, h⟩
  · exact Or.inl ⟨hq, by rw [h]⟩
  · exact Or.inr ⟨hq, by rw [h]⟩

/-- The queue grows during a call. -/
theorem queueAfter_mono (now : UInt64) (s : ChainSync) {pre headers : List BlockHeader}
    (hpre : pre <+: headers) : queueAfter C now s pre <+: queueAfter C now s headers := by
  obtain ⟨post, rfl⟩ := hpre
  induction post using List.reverseRecOn with
  | nil => rw [List.append_nil]
  | append_singleton post header ih =>
    rw [← List.append_assoc]
    rcases queueAfter_snoc (C := C) now s (pre ++ post) header with ⟨-, h⟩ | ⟨-, h⟩
    · rw [h]
      exact ih.trans (List.prefix_append _ _)
    · rw [h]
      exact ih

theorem queueAfter_awaited (hready : Ready C H s) (now : UInt64) {headers : List BlockHeader}
    (hH : ∀ header ∈ headers, H header) :
    ∀ pre, pre <+: headers → ∀ t ∈ queueAfter C now s pre, Awaited C H s.db t := by
  refine forall_prefixes hready.awaited fun pre header hpre h => ?_
  rcases queueAfter_snoc (C := C) now s pre header with ⟨hq, heq⟩ | ⟨-, heq⟩
  · rw [heq]
    intro t ht
    rcases List.mem_append.mp ht with hold | hnew
    · exact h t hold
    · rw [List.mem_singleton.mp hnew]
      have hmem : header ∈ headers :=
        hpre.subset (List.mem_append_right _ (List.mem_singleton_self _))
      exact ⟨rfl, rfl, hH header hmem, hasBlock_eq_false_iff.mp hq.unknown⟩
  · rw [heq]
    exact h

/-- A queued header keeps the chain exactly when it meets the condition. -/
theorem chained_snoc_iff (hready : Ready C H s) (hnext : s.db.tip.height + 1 ≠ 0)
    (hawaited : ∀ t ∈ queue, Awaited C H s.db t) (h : Chained s.db queue)
    (hq : Queued C now s queue header) :
    Chained s.db (queue ++ [taskOf C header]) ↔ HeaderCareful C now s queue header := by
  rw [h.snoc_iff, HeaderCareful, imp_iff_right hq]
  obtain ⟨p, hp, hheight⟩ := hready.tip
  have hconnects := hq.connects
  unfold ChainSync.connects at hconnects
  cases hlast : queue.getLast? with
  | none =>
    dsimp only
    by_cases htip : header.height = s.db.tip.height + 1
    · -- the tip itself is the parent
      rw [if_pos htip] at hconnects
      have hparent : header.parentHash = s.db.tip.hash := LawfulBEq.eq_of_beq hconnects
      refine iff_of_true ⟨p, by rw [← hp, ← hparent]; rfl, ?_⟩ fun hne => absurd htip hne
      show p.height.toNat + 1 = header.height.toNat
      rw [htip, succ_toNat hnext, hheight]
    · exact ⟨fun hroot _ => hroot, fun hroot => hroot htip⟩
  | some last =>
    dsimp only
    have habsent := (hawaited last (List.mem_of_getLast? hlast)).absent
    by_cases htip : header.height = s.db.tip.height + 1
    · rw [if_pos htip] at hconnects
      have hparent : header.parentHash = s.db.tip.hash := LawfulBEq.eq_of_beq hconnects
      refine iff_of_false (fun hlink => ?_) fun hc => hc.1 htip
      -- the last header's block is not stored, the tip is
      have hhash : last.hash = s.db.tip.hash := hlink.1.symm.trans hparent
      rw [hhash, hp] at habsent
      cases habsent
    · rw [if_neg htip, hlast, Bool.and_eq_true] at hconnects
      have hparent : header.parentHash = last.hash := LawfulBEq.eq_of_beq hconnects.1
      have hheight : header.height = last.height + 1 := LawfulBEq.eq_of_beq hconnects.2
      constructor
      · rintro ⟨-, hnat⟩
        refine ⟨htip, fun hzero => ?_⟩
        have hz : header.height.toNat = last.height.toNat + 1 := hnat
        rw [hheight, hzero] at hz
        exact absurd hz (Nat.succ_ne_zero _).symm
      · rintro ⟨-, hne⟩
        refine ⟨hparent, ?_⟩
        show header.height.toNat = _
        rw [hheight, succ_toNat hne]

/-- **Headers.** A call keeps the chain exactly when every header it queues meets the
condition. -/
theorem chained_headers_iff (hready : Ready C H s) (hnext : s.db.tip.height + 1 ≠ 0)
    (h : Chained s.db s.pendingHeaders) {headers : List BlockHeader}
    (hH : ∀ header ∈ headers, H header) :
    Chained s.db (queueAfter C now s headers) ↔
      ∀ pre header, pre ++ [header] <+: headers →
        HeaderCareful C now s (queueAfter C now s pre) header := by
  have hall : Chained s.db (queueAfter C now s headers) ↔
      ∀ pre, pre <+: headers → Chained s.db (queueAfter C now s pre) :=
    ⟨fun hc pre hpre => hc.of_prefix (queueAfter_mono now s hpre),
      fun hc => hc headers List.prefix_rfl⟩
  rw [hall]
  refine forall_prefixes_iff h fun pre header hpre hc => ?_
  have hawaited := queueAfter_awaited hready now hH pre
    ((List.prefix_append pre [header]).trans hpre)
  rcases queueAfter_snoc (C := C) now s pre header with ⟨hq, heq⟩ | ⟨hq, heq⟩
  · rw [heq]
    exact chained_snoc_iff hready hnext hawaited hc hq
  · rw [heq]
    exact iff_of_true hc fun hq' => absurd hq' hq

/-! ## Blocks -/

theorem commitLoop_of_none {ourHeight : UInt64} {committed : Nat} (fuel : Nat)
    (h : s.pendingBlocks.lookup (ourHeight + UInt64.ofNat committed + 1) = none) :
    s.commitLoop C ourHeight fuel committed = (s, .ok committed) := by
  cases fuel with
  | zero => rfl
  | succ fuel =>
    rw [ChainSync.commitLoop]
    dsimp only
    rw [h]

/-- Nothing is buffered for the height above the tip. -/
theorem tryCommitBlocks_of_none (h : s.pendingBlocks.lookup (s.db.tip.height + 1) = none) :
    s.tryCommitBlocks C = (s, .ok 0) := by
  have hzero : s.db.tip.height + UInt64.ofNat 0 + 1 = s.db.tip.height + 1 := by simp
  rw [ChainSync.tryCommitBlocks, commitLoop_of_none _ (hzero ▸ h)]
  rfl

/-- Only the block above the tip is buffered, beside what stands at height 0. -/
theorem tryCommitBlocks_next (hv : BlockValid C now b s.db) (h0 : b.height ≠ 0)
    (hnext : s.db.tip.height + 1 + 1 ≠ 0) (hb : s.pendingBlocks.lookup b.height = some b)
    (hbuf : ∀ k, k ∈ s.pendingBlocks → k = 0 ∨ k = b.height) :
    ∃ state, (s.tryCommitBlocks C).1 = { s with
      db := committed C s.db b
      state := state
      pendingBlocks := s.pendingBlocks.erase b.height } := by
  have hlink := hv.link
  rw [if_neg h0] at hlink
  have hfirst : s.db.tip.height + UInt64.ofNat 0 + 1 = b.height := by
    rw [hlink.2]
    simp
  have hsecond : s.db.tip.height + UInt64.ofNat 1 + 1 = b.height + 1 := by
    rw [hlink.2]
    rfl
  have hempty : (s.pendingBlocks.erase b.height).lookup (b.height + 1) = none := by
    refine Finmap.lookup_eq_none.mpr fun hmem => ?_
    obtain ⟨hne, hold⟩ := Finmap.mem_erase.mp hmem
    rcases hbuf _ hold with hzero | heq
    · exact hnext (hlink.2 ▸ hzero)
    · exact hne heq
  have hloop : s.commitLoop C s.db.tip.height (s.pendingBlocks.keys.card + 1) 0
      = ({ s with
          db := committed C s.db b
          pendingBlocks := s.pendingBlocks.erase b.height }, .ok 1) := by
    rw [ChainSync.commitLoop, hfirst, hb]
    simp only [commitBlock_of_valid hv, hlink.1, ne_eq, not_true_eq_false, if_false]
    rw [commitLoop_of_none]
    rw [hsecond]
    exact hempty
  rw [ChainSync.tryCommitBlocks, hloop]
  exact ⟨_, rfl⟩

/-- What a call with a block leaves: its header is forgotten, and the block is committed if
it is valid and not another genesis block. -/
theorem processBlock_effect (now : UInt64) (b : Block) (hbuf : ∀ k, k ∈ s.pendingBlocks → k = 0)
    (hnext : s.db.tip.height + 1 ≠ 0) (hnext' : s.db.tip.height + 1 + 1 ≠ 0) :
    (s.processBlock C now b).1.pendingHeaders
        = (s.pendingHeaders.filter fun t => t.hash ≠ b.hash C) ∧
      (∀ k, k ∈ (s.processBlock C now b).1.pendingBlocks → k = 0) ∧
      ((BlockValid C now b s.db ∧ b.height ≠ 0 ∧
          (s.processBlock C now b).1.db = committed C s.db b) ∨
        (¬ (BlockValid C now b s.db ∧ b.height ≠ 0) ∧ (s.processBlock C now b).1.db = s.db)) := by
  unfold ChainSync.processBlock
  dsimp only
  cases he : validateBlock C now b s.db with
  | error e =>
    refine ⟨rfl, hbuf, Or.inr ⟨fun hv => ?_, rfl⟩⟩
    rw [validateBlock_ok_iff.mpr hv.1] at he
    cases he
  | ok u =>
    have hv : BlockValid C now b s.db := validateBlock_ok_iff.mp he
    dsimp only
    by_cases h0 : b.height = 0
    · -- it stays in the buffer, where nothing asks for height 0
      have hnone : (s.pendingBlocks.insert b.height b).lookup (s.db.tip.height + 1) = none := by
        rw [h0, Finmap.lookup_insert_of_ne _ hnext]
        exact Finmap.lookup_eq_none.mpr fun hmem => hnext (hbuf _ hmem)
      rw [tryCommitBlocks_of_none hnone]
      refine ⟨rfl, fun k hk => ?_, Or.inr ⟨fun hv' => hv'.2 h0, rfl⟩⟩
      rcases Finmap.mem_insert.mp hk with rfl | hold
      · exact h0
      · exact hbuf k hold
    · obtain ⟨state, hstate⟩ := tryCommitBlocks_next
        (s := ChainSync.forgetHeader
          (ChainSync.buffer { s with downloading := s.downloading.erase (b.hash C) } b)
          (b.hash C)) hv h0 hnext' (Finmap.lookup_insert _)
        fun k hk => (Finmap.mem_insert.mp hk).symm.imp_left (hbuf k)
      rw [hstate]
      refine ⟨rfl, fun k hk => ?_, Or.inl ⟨hv, h0, rfl⟩⟩
      obtain ⟨hne, hmem⟩ := Finmap.mem_erase.mp hk
      exact hbuf k ((Finmap.mem_insert.mp hmem).resolve_left hne)

/-- Headers in play of one hash are one. -/
theorem header_eq_of_hash (hcf : CollisionFree C H) {h h' : BlockHeader} (hh : H h) (hh' : H h')
    (heq : h.hash C = h'.hash C) : h = h' :=
  BlockHeader.preimage_inj (hcf h h' hh hh' heq)

/-- A commit keeps what is rooted: a stored block is replaced by one of the same header. -/
theorem Rooted.committed (hcf : CollisionFree C H) (hst : StoredIn C H db) (hb : H b.header)
    {t : BlockDownloadTask} (h : Rooted db t) : Rooted (ChainDB.committed C db b) t := by
  obtain ⟨p, hp, hheight⟩ := h
  by_cases hkey : t.header.parentHash = b.hash C
  · refine ⟨b, by rw [hkey]; exact committed_getBlock_self db b, ?_⟩
    obtain ⟨hhash, hin⟩ := hst _ p hp
    have hheader : b.header = p.header :=
      header_eq_of_hash hcf hb hin (hkey.symm.trans hhash)
    rw [← hheight]
    exact congrArg (fun header => header.height.toNat + 1) hheader
  · exact ⟨p, by rw [committed_getBlock_of_ne hkey]; exact hp, hheight⟩

theorem Chained.mono {db' : ChainDB} (h : Chained db queue)
    (hroot : ∀ t, Rooted db t → Rooted db' t) : Chained db' queue :=
  ⟨h.linked, fun t ht => hroot t (h.rooted t ht), h.heights⟩

/-- The queue without one of its headers. -/
theorem filter_split {l₁ l₂ : List BlockDownloadTask} {t : BlockDownloadTask}
    (hnodup : (l₁ ++ t :: l₂).Nodup) {hash : H256} (hhash : t.hash = hash)
    (honly : ∀ u ∈ l₁ ++ t :: l₂, u.hash = hash → u = t) :
    ((l₁ ++ t :: l₂).filter fun u => u.hash ≠ hash) = l₁ ++ l₂ := by
  obtain ⟨-, hnodup₂, hdisj⟩ := List.nodup_append.mp hnodup
  have hleft : (l₁.filter fun u => u.hash ≠ hash) = l₁ := by
    refine List.filter_eq_self.mpr fun u hu => decide_eq_true fun heq => ?_
    exact hdisj u hu t List.mem_cons_self (honly u (List.mem_append_left _ hu) heq)
  have hright : (l₂.filter fun u => u.hash ≠ hash) = l₂ := by
    refine List.filter_eq_self.mpr fun u hu => decide_eq_true fun heq => ?_
    have heq' := honly u (List.mem_append_right _ (List.mem_cons_of_mem _ hu)) heq
    exact (List.nodup_cons.mp hnodup₂).1 (heq' ▸ hu)
  rw [List.filter_append, List.filter_cons_of_neg (by simp [hhash]), hleft, hright]

/-- **A block.** The call keeps the chain exactly when it meets the condition. -/
theorem chained_block_iff (hcf : CollisionFree C H) (hready : Ready C H s)
    (hnext : s.db.tip.height + 1 ≠ 0) (hnext' : s.db.tip.height + 1 + 1 ≠ 0)
    (h : Chained s.db s.pendingHeaders) (hb : H b.header) :
    Chained (s.processBlock C now b).1.db (s.processBlock C now b).1.pendingHeaders ↔
      (SyncOp.processBlock now b).Careful C s := by
  obtain ⟨hqueue, -, hdb⟩ := processBlock_effect (C := C) now b hready.buffered hnext hnext'
  have hroot : ∀ t, Rooted s.db t → Rooted (s.processBlock C now b).1.db t := by
    intro t ht
    rcases hdb with ⟨-, -, heq⟩ | ⟨-, heq⟩
    · rw [heq]
      exact ht.committed hcf hready.stored hb
    · rw [heq]
      exact ht
  rw [hqueue]
  by_cases hex : ∃ t ∈ s.pendingHeaders, t.hash = b.hash C
  · obtain ⟨t, ht, hhash⟩ := hex
    have hheader : ∀ u ∈ s.pendingHeaders, u.hash = b.hash C → u.header = b.header := by
      intro u hu huh
      have ha := hready.awaited u hu
      exact header_eq_of_hash hcf ha.inPlay hb (ha.hash.symm.trans huh)
    have hheight : ∀ u ∈ s.pendingHeaders, u.hash = b.hash C → u.height = b.height := fun u hu huh =>
      (hready.awaited u hu).height.trans (congrArg BlockHeader.height (hheader u hu huh))
    have honly : ∀ u ∈ s.pendingHeaders, u.hash = b.hash C → u = t := fun u hu huh =>
      h.height_inj hu ht ((hheight u hu huh).trans (hheight t ht hhash).symm)
    obtain ⟨l₁, l₂, hsplit⟩ := List.append_of_mem ht
    have hnodup : (l₁ ++ t :: l₂).Nodup := hsplit ▸ List.Nodup.of_map _ h.heights
    obtain ⟨-, hnodup₂, hdisj⟩ := List.nodup_append.mp hnodup
    have hlinked := h.linked
    rw [hsplit] at hlinked honly
    have hcareful : (SyncOp.processBlock now b).Careful C s ↔
        l₂ = [] ∨ (l₁ = [] ∧ BlockValid C now b s.db) := by
      constructor
      · intro hc
        rcases hc t ht hhash with hlast | ⟨hfirst, hv⟩
        · refine Or.inl (by_contra fun hne => ?_)
          rw [hsplit, List.getLast?_append, List.getLast?_cons] at hlast
          obtain ⟨u, hu⟩ := Option.isSome_iff_exists.mp (List.getLast?_isSome.mpr hne)
          rw [hu] at hlast
          have heq : u = t := Option.some.inj hlast
          exact (List.nodup_cons.mp hnodup₂).1 (heq ▸ List.mem_of_getLast? hu)
        · refine Or.inr ⟨by_contra fun hne => ?_, validateBlock_ok_iff.mp hv⟩
          obtain ⟨u, l, rfl⟩ := List.exists_cons_of_ne_nil hne
          rw [hsplit] at hfirst
          cases hfirst
          exact hdisj t List.mem_cons_self t List.mem_cons_self rfl
      · intro hc u hu huh
        rw [hsplit] at hu ⊢
        rw [honly u hu huh]
        rcases hc with rfl | ⟨rfl, hv⟩
        · exact Or.inl List.getLast?_concat
        · exact Or.inr ⟨rfl, validateBlock_ok_iff.mpr hv⟩
    rw [hsplit, filter_split hnodup hhash honly, hcareful]
    cases l₂ with
    | nil =>
      rw [List.append_nil]
      refine iff_of_true ?_ (Or.inl rfl)
      exact (h.of_prefix (hsplit ▸ List.prefix_append l₁ [t])).mono hroot
    | cons u l₃ =>
      rw [or_iff_right (List.cons_ne_nil u l₃)]
      obtain ⟨hchain₁, hchain₂, hbetween⟩ := List.isChain_append.mp hlinked
      obtain ⟨hlink, hchain₃⟩ := List.isChain_cons_cons.mp hchain₂
      cases hl₁ : l₁.getLast? with
      | none =>
        obtain rfl : l₁ = [] := List.getLast?_eq_none_iff.mp hl₁
        rw [and_iff_right rfl, List.nil_append]
        constructor
        · intro hc
          by_contra hv
          obtain ⟨p, hp, -⟩ := hc.rooted u rfl
          rcases hdb with ⟨hv', -, -⟩ | ⟨-, heq⟩
          · exact hv hv'
          · rw [heq, hlink.1, (hready.awaited t ht).absent] at hp
            cases hp
        · intro hv
          refine .of_linked hchain₃ fun u' hu' => ?_
          cases hu'
          have hth := hheight t ht hhash
          have h0 : b.height ≠ 0 := by
            intro hzero
            obtain ⟨p, -, hp⟩ := h.rooted t (by rw [hsplit]; rfl)
            rw [hth, hzero] at hp
            exact absurd hp (Nat.succ_ne_zero _)
          rcases hdb with ⟨-, -, heq⟩ | ⟨hnot, -⟩
          · refine ⟨b, ?_, ?_⟩
            · rw [heq, hlink.1, hhash]
              exact committed_getBlock_self s.db b
            · rw [hlink.2, hth]
          · exact absurd ⟨hv, h0⟩ hnot
      | some w =>
        -- two heights apart, a header is missing between them
        refine iff_of_false (fun hc => ?_) fun hc => ?_
        · have hskip := (List.isChain_append.mp hc.linked).2.2 w hl₁ u rfl
          have hstep := hbetween w hl₁ t rfl
          have hw := hskip.2
          rw [hlink.2, hstep.2] at hw
          omega
        · rw [hc.1] at hl₁
          cases hl₁
  · have hall : (s.pendingHeaders.filter fun t => t.hash ≠ b.hash C) = s.pendingHeaders :=
      List.filter_eq_self.mpr fun t ht => decide_eq_true fun heq => hex ⟨t, ht, heq⟩
    rw [hall]
    exact iff_of_true (h.mono hroot) fun t ht heq => absurd ⟨t, ht, heq⟩ hex

/-! ## Runs -/

theorem Ready.processHeaders (h : Ready C H s) {headers : List BlockHeader}
    (hH : ∀ header ∈ headers, H header) : Ready C H (s.processHeaders C now headers).1 :=
  ⟨h.tip, h.stored, queueAfter_awaited h now hH headers List.prefix_rfl, h.buffered⟩

theorem Ready.processBlock (h : Ready C H s) (now : UInt64) (hb : H b.header)
    (hnext : s.db.tip.height + 1 ≠ 0) (hnext' : s.db.tip.height + 1 + 1 ≠ 0) :
    Ready C H (s.processBlock C now b).1 ∧
      (s.processBlock C now b).1.db.tip.height.toNat ≤ s.db.tip.height.toNat + 1 := by
  obtain ⟨hqueue, hbuf, hdb⟩ := processBlock_effect (C := C) now b h.buffered hnext hnext'
  have hmem : ∀ t ∈ (s.processBlock C now b).1.pendingHeaders,
      t ∈ s.pendingHeaders ∧ t.hash ≠ b.hash C := by
    intro t ht
    rw [hqueue] at ht
    exact ⟨(List.mem_filter.mp ht).1, of_decide_eq_true (List.mem_filter.mp ht).2⟩
  rcases hdb with ⟨hv, h0, heq⟩ | ⟨-, heq⟩
  · have hlink := hv.link
    rw [if_neg h0] at hlink
    refine ⟨⟨?_, ?_, fun t ht => ?_, hbuf⟩, ?_⟩
    · rw [heq]
      exact ⟨b, committed_getBlock_self s.db b, rfl⟩
    · rw [heq]
      exact storedIn_committed h.stored hb
    · obtain ⟨hold, hne⟩ := hmem t ht
      obtain ⟨hhash, hheight, hin, habsent⟩ := h.awaited t hold
      refine ⟨hhash, hheight, hin, ?_⟩
      rw [heq, committed_getBlock_of_ne hne]
      exact habsent
    · rw [heq]
      show b.height.toNat ≤ _
      rw [hlink.2, succ_toNat hnext]
  · refine ⟨⟨?_, ?_, fun t ht => ?_, hbuf⟩, ?_⟩
    · rw [heq]
      exact h.tip
    · rw [heq]
      exact h.stored
    · rw [heq]
      exact h.awaited t (hmem t ht).1
    · rw [heq]
      exact Nat.le_succ _

/-- The headers in play: of the stored blocks, and those the calls bring. -/
def QueueInPlay (db : ChainDB) (ops : List SyncOp) (header : BlockHeader) : Prop :=
  (∃ k p, db.getBlock k = some p ∧ p.header = header) ∨ ∃ op ∈ ops, header ∈ op.headers

/-- The height above a tip that is far from the last word, twice. -/
theorem succ_ne_zero_of_lt {height : UInt64} (h : height.toNat + 2 < 2 ^ 64) :
    height + 1 ≠ 0 ∧ height + 1 + 1 ≠ 0 := by
  have hone : (height + 1).toNat = height.toNat + 1 := Word.toNat_add_of_lt (by
    show height.toNat + 1 < _
    omega)
  have htwo : (height + 1 + 1).toNat = height.toNat + 2 := by
    rw [Word.toNat_add_of_lt (by
      rw [hone]
      show height.toNat + 1 + 1 < _
      omega), hone]
    rfl
  constructor
  · intro hzero
    rw [hzero] at hone
    exact absurd hone (Nat.succ_ne_zero _).symm
  · intro hzero
    rw [hzero] at htwo
    exact absurd htwo (Nat.succ_ne_zero _).symm

/-- **The header queue.** In every run the queue is a chain on top of a stored block exactly
when every call meets its condition. -/
theorem pendingChain_iff {ops : List SyncOp} (hstored : ∀ k p, db.getBlock k = some p → k = p.hash C)
    (htip : TipStored db) (hcf : CollisionFree C (QueueInPlay db ops))
    (hlen : db.tip.height.toNat + ops.length + 1 < 2 ^ 64) :
    (∀ pre, pre <+: ops →
        Chained (syncRun C db pre).db (syncRun C db pre).pendingHeaders) ↔
      ∀ pre op, pre ++ [op] <+: ops → op.Careful C (syncRun C db pre) := by
  have hmem : ∀ {pre op}, pre ++ [op] <+: ops → ∀ header ∈ op.headers,
      QueueInPlay db ops header := fun hpre header hh => Or.inr ⟨_,
    hpre.subset (List.mem_append_right _ (List.mem_singleton_self _)), hh⟩
  have hnexts : ∀ {pre op}, pre ++ [op] <+: ops →
      (syncRun C db pre).db.tip.height.toNat ≤ db.tip.height.toNat + pre.length →
      (syncRun C db pre).db.tip.height + 1 ≠ 0 ∧
        (syncRun C db pre).db.tip.height + 1 + 1 ≠ 0 := by
    intro pre op hpre hle
    have hlength := hpre.length_le
    rw [List.length_append, List.length_singleton] at hlength
    exact succ_ne_zero_of_lt (by omega)
  have hready : ∀ pre, pre <+: ops → Ready C (QueueInPlay db ops) (syncRun C db pre) ∧
      (syncRun C db pre).db.tip.height.toNat ≤ db.tip.height.toNat + pre.length := by
    refine forall_prefixes ⟨⟨htip, fun k p hp => ⟨hstored k p hp, Or.inl ⟨k, p, hp, rfl⟩⟩,
      fun t ht => absurd ht List.not_mem_nil, fun k hk => absurd hk Finmap.notMem_empty⟩,
      le_refl _⟩ ?_
    rintro pre op hpre ⟨h, hle⟩
    rw [syncRun_snoc, List.length_append, List.length_singleton]
    cases op with
    | processHeaders now headers =>
      exact ⟨h.processHeaders (hmem hpre), Nat.le_succ_of_le hle⟩
    | processBlock now block =>
      obtain ⟨hnext, hnext'⟩ := hnexts hpre hle
      obtain ⟨h', hle'⟩ :=
        h.processBlock now (hmem hpre _ (List.mem_singleton_self _)) hnext hnext'
      exact ⟨h', hle'.trans (Nat.succ_le_succ hle)⟩
  refine forall_prefixes_iff (chained_nil db) fun pre op hpre h => ?_
  obtain ⟨hr, hle⟩ := hready pre ((List.prefix_append pre [op]).trans hpre)
  obtain ⟨hnext, hnext'⟩ := hnexts hpre hle
  rw [syncRun_snoc]
  cases op with
  | processHeaders now headers => exact chained_headers_iff hr hnext h (hmem hpre)
  | processBlock now block =>
    exact chained_block_iff hcf hr hnext hnext' h (hmem hpre _ (List.mem_singleton_self _))

/-! ## A new devnet -/

theorem syncRun_headers (db : ChainDB) (now : UInt64) (headers : List BlockHeader) :
    (syncRun C db [.processHeaders now headers]).pendingHeaders
      = queueAfter C now (ChainSync.new db) headers := rfl

/-- One header on an empty queue is the last. -/
theorem getLast?_queueAfter_single (db : ChainDB) (now : UInt64) (header : BlockHeader)
    {t : BlockDownloadTask} (ht : t ∈ queueAfter C now (ChainSync.new db) [header]) :
    (queueAfter C now (ChainSync.new db) [header]).getLast? = some t := by
  rcases queueAfter_snoc (C := C) now (ChainSync.new db) [] header with ⟨-, heq⟩ | ⟨-, heq⟩
  · have hone : queueAfter C now (ChainSync.new db) [header] = [taskOf C header] := heq
    rw [hone] at ht ⊢
    rw [List.mem_singleton.mp ht]
    rfl
  · have hnone : queueAfter C now (ChainSync.new db) [header] = [] := heq
    rw [hnone] at ht
    exact absurd ht List.not_mem_nil

theorem queueInPlay_devnet {header : BlockHeader}
    (h : QueueInPlay devnetOpen [.processHeaders 1735689600 [devnetFirst.header],
      .processBlock 1735689600 devnetFirst] header) :
    header = (Genesis.genesisBlock devnetCrypto NetworkId.DEVNET).header ∨
      header = devnetFirst.header := by
  rcases h with ⟨k, p, hp, rfl⟩ | ⟨op, hop, hh⟩
  · exact Or.inl (storedIn_openNew (C := devnetCrypto)
      (H := fun h => h = (Genesis.genesisBlock devnetCrypto NetworkId.DEVNET).header)
      NetworkId.DEVNET rfl k p hp).2
  · rcases List.mem_pair.mp hop with rfl | rfl
    · exact Or.inr (List.mem_singleton.mp hh)
    · exact Or.inr (List.mem_singleton.mp hh)

theorem chained_devnetFirst :
    Chained (syncRun devnetCrypto devnetOpen [.processHeaders 1735689600 [devnetFirst.header],
        .processBlock 1735689600 devnetFirst]).db
      (syncRun devnetCrypto devnetOpen [.processHeaders 1735689600 [devnetFirst.header],
        .processBlock 1735689600 devnetFirst]).pendingHeaders := by
  have hpair : CollisionFree devnetCrypto fun h =>
      h = (Genesis.genesisBlock devnetCrypto NetworkId.DEVNET).header ∨
        h = devnetFirst.header := collisionFree_pair (by decide +kernel)
  refine (pendingChain_iff (fun k p hp => ?_) ⟨_, openNew_getBlock_tip _ _, rfl⟩
    (hpair.mono fun _ => queueInPlay_devnet) (by decide +kernel)).mpr
    (forall_prefixes_snoc fun i hi => ?_) _ List.prefix_rfl
  · exact (storedIn_openNew (C := devnetCrypto) (H := fun _ => True)
      NetworkId.DEVNET trivial k p hp).1
  · cases i with
    | zero =>
      refine forall_prefixes_snoc fun j hj => ?_
      obtain rfl : j = 0 := Nat.lt_one_iff.mp hj
      intro _ hne
      exact absurd (easyBlock_height [devnetCoinbase]) hne
    | succ i =>
      obtain rfl : i = 0 := Nat.lt_one_iff.mp (Nat.lt_of_succ_lt_succ hi)
      intro t ht _
      rw [List.take_succ_cons, List.take_zero, syncRun_headers] at ht ⊢
      exact Or.inl (getLast?_queueAfter_single devnetOpen 1735689600 devnetFirst.header ht)

/-- BLAKE3 of the devnet's first headers and of four more on top of them. -/
def queueCrypto : Crypto :=
  let genesis := 0xfb9b0e3a9e57f1325309d251f117712de619335d9a09b6ec3190835df84995fa
  let first := 0x1cedbdd76bf57a9172931720e6c3d442a847f999e30fffdbb3471fdf49af5703
  let rival := 0x883e09ecf0819d5bd26ac2f9b272b70791521a68afd8495b136936c86f288227
  let far := 0x50156fb63223f96cd8ba631df3b557978392e92fd720df4d0efb6decf67dca85
  let second := 0x2d2aad473f36066c5392c652956615303bf93868212db09b1d88d7f88a25fcd9
  let third := 0x86906c2fc822f5c3bf9465aba3a0e0287abbf09d937933c74b4057dfd3ab7a64
  Crypto.ofTable (devnetTable ++
    [((tableHeader genesis 0 1).preimage, H256.ofNatBE rival),
     ((tableHeader genesis 0 5).preimage, H256.ofNatBE far),
     ((tableHeader first 0 2).preimage, H256.ofNatBE second),
     ((tableHeader second 0 3).preimage, H256.ofNatBE third)])

def queueOpen : ChainDB := openNew queueCrypto NetworkId.DEVNET

/-- A header on the devnet's genesis block. -/
def genesisChild (height : UInt64) : BlockHeader :=
  tableHeader 0xfb9b0e3a9e57f1325309d251f117712de619335d9a09b6ec3190835df84995fa 0 height

/-- The second and the third header of a chain. -/
def laterHeaders : List BlockHeader :=
  [tableHeader 0x1cedbdd76bf57a9172931720e6c3d442a847f999e30fffdbb3471fdf49af5703 0 2,
    tableHeader 0x2d2aad473f36066c5392c652956615303bf93868212db09b1d88d7f88a25fcd9 0 3]

/-- Two headers above the tip, a header that leaves out four heights, and a chain whose second
block comes before the first. -/
theorem queue_not_chained :
    ¬ Chained (syncRun queueCrypto queueOpen [.processHeaders 1735689600
          [devnetFirst.header, genesisChild 1]]).db
        (syncRun queueCrypto queueOpen [.processHeaders 1735689600
          [devnetFirst.header, genesisChild 1]]).pendingHeaders ∧
      ¬ Chained (syncRun queueCrypto queueOpen [.processHeaders 1735689600 [genesisChild 5]]).db
        (syncRun queueCrypto queueOpen
          [.processHeaders 1735689600 [genesisChild 5]]).pendingHeaders ∧
      ¬ Chained (syncRun queueCrypto queueOpen [
          .processHeaders 1735689600 (devnetFirst.header :: laterHeaders),
          .processBlock 1735689600 ⟨laterHeaders.head (by decide), []⟩]).db
        (syncRun queueCrypto queueOpen [
          .processHeaders 1735689600 (devnetFirst.header :: laterHeaders),
          .processBlock 1735689600 ⟨laterHeaders.head (by decide), []⟩]).pendingHeaders := by
  refine ⟨fun h => ?_, fun h => ?_, fun h => ?_⟩
  · exact absurd h.heights (by decide +kernel)
  · have hparent : ∀ p ∈ queueOpen.getBlock (genesisChild 5).parentHash, p.height = 0 := by
      decide +kernel
    have hqueue : (syncRun queueCrypto queueOpen [.processHeaders 1735689600
        [genesisChild 5]]).pendingHeaders = [taskOf queueCrypto (genesisChild 5)] := by
      decide +kernel
    obtain ⟨p, hp, hheight⟩ := h.rooted (taskOf queueCrypto (genesisChild 5)) (by rw [hqueue]; rfl)
    rw [hparent p hp] at hheight
    exact absurd hheight (by decide)
  · have hqueue : (syncRun queueCrypto queueOpen [
        .processHeaders 1735689600 (devnetFirst.header :: laterHeaders),
        .processBlock 1735689600 ⟨laterHeaders.head (by decide), []⟩]).pendingHeaders
          = [taskOf queueCrypto devnetFirst.header,
            taskOf queueCrypto (laterHeaders.getLast (by decide))] := by
      decide +kernel
    have hlinked := h.linked
    rw [hqueue] at hlinked
    exact absurd (List.isChain_cons_cons.mp hlinked).1.2 (by decide)

end Pyrax.Sync
