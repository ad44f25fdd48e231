import Pyrax.Types.Block
import Pyrax.Base.Run
import Mathlib.Data.Finset.Card
import Mathlib.Data.Finset.Image
import Mathlib.Data.List.Infix

/-!
# Snap sync

`pyrax-node/src/sync/snap_sync.rs`, the chunk accounting of `SnapSyncManager`:
`start` queues the ids `0..n`, `get_chunks_to_download` moves ids from the queue
to the set being downloaded, `process_chunk` moves an id on to the completed
ones, or back to the queue when its proof is bad. State download is over when as
many chunks are completed as there are.

Peers choose the ids they send, and `process_chunk` never asks whether it is
waiting for one. `accounted_iff_expected` says what follows: the books are right
in every state of a run exactly when every chunk handed in was being downloaded,
or repeats a completed one with a good proof.
-/

namespace Pyrax

inductive SyncMode where
  | full
  | fast
  | snap
  | warp
  deriving DecidableEq

structure AccountState where
  address : Address
  nonce : UInt64
  balance : BitVec 128
  codeHash : H256
  storageRoot : H256
  deriving DecidableEq

structure StateChunk where
  chunkId : UInt64
  startKey : H256
  endKey : H256
  accounts : List AccountState
  proof : List UInt8
  deriving DecidableEq

inductive SnapSyncState where
  | idle
  | discoveringPivot
  | downloadingHeaders
  | downloadingState
  | healingState
  | downloadingBlocks
  | complete
  deriving DecidableEq

/-- The counters the chunk accounting keeps. -/
structure SnapSyncStats where
  stateChunksTotal : UInt64 := 0
  stateChunksDownloaded : UInt64 := 0
  stateBytesDownloaded : UInt64 := 0
  pivotBlock : Option UInt64 := none
  deriving DecidableEq

structure PivotBlock where
  height : UInt64
  hash : H256
  stateRoot : H256
  confirmedBy : List String
  deriving DecidableEq

structure SnapSyncManager where
  mode : SyncMode
  state : SnapSyncState
  stats : SnapSyncStats
  pivot : Option PivotBlock
  pendingChunks : List UInt64
  downloadingChunks : Finset UInt64
  completedChunks : Finset UInt64

namespace SnapSyncManager

def new (mode : SyncMode) : SnapSyncManager := ⟨mode, .idle, {}, none, [], ∅, ∅⟩

/-- The ids of `0..total`. -/
def chunkIds (total : UInt64) : List UInt64 := (List.range total.toNat).map UInt64.ofNat

def start (m : SnapSyncManager) (pivot : PivotBlock) (totalChunks : UInt64) : SnapSyncManager :=
  { m with
    pivot := some pivot
    stats := { m.stats with pivotBlock := some pivot.height, stateChunksTotal := totalChunks }
    state := .downloadingState
    pendingChunks := m.pendingChunks ++ chunkIds totalChunks }

/-- The loop of `get_chunks_to_download`: the rest of the queue, the set being
downloaded and the ids handed out. -/
def takeChunks (max : Nat) : List UInt64 → Finset UInt64 → List UInt64 →
    List UInt64 × Finset UInt64 × List UInt64
  | [], downloading, chunks => ([], downloading, chunks)
  | id :: pending, downloading, chunks =>
    if chunks.length < max then
      if id ∈ downloading then takeChunks max pending downloading chunks
      else takeChunks max pending (insert id downloading) (chunks ++ [id])
    else (id :: pending, downloading, chunks)

def getChunksToDownload (max : Nat) (m : SnapSyncManager) : SnapSyncManager × List UInt64 :=
  let r := takeChunks max m.pendingChunks m.downloadingChunks []
  ({ m with pendingChunks := r.1, downloadingChunks := r.2.1 }, r.2.2)

/-- `verify_chunk_proof`: no proof is checked, one has to be there. -/
def verifyChunkProof (chunk : StateChunk) : Bool := !chunk.proof.isEmpty || chunk.accounts.isEmpty

def processChunk (chunk : StateChunk) (m : SnapSyncManager) :
    SnapSyncManager × Except String Unit :=
  let id := chunk.chunkId
  if verifyChunkProof chunk = false then
    ({ m with
        downloadingChunks := m.downloadingChunks.erase id
        pendingChunks := m.pendingChunks ++ [id] },
      .error "Invalid chunk proof")
  else
    let completed := insert id m.completedChunks
    let stats :=
      { m.stats with
        stateChunksDownloaded := m.stats.stateChunksDownloaded + 1
        stateBytesDownloaded :=
          m.stats.stateBytesDownloaded + UInt64.ofNat chunk.accounts.length * 100 }
    ({ m with
        downloadingChunks := m.downloadingChunks.erase id
        completedChunks := completed
        stats := stats
        state :=
          if stats.stateChunksTotal ≤ UInt64.ofNat completed.card then .healingState
          else m.state },
      .ok ())

end SnapSyncManager

namespace Sync

open Base SnapSyncManager

/-- What happens to a manager once it is started. -/
inductive SnapOp where
  | getChunks (max : Nat)
  | process (chunk : StateChunk)

/-- The manager after an operation. -/
def SnapOp.run (m : SnapSyncManager) : SnapOp → SnapSyncManager
  | getChunks max => (m.getChunksToDownload max).1
  | process chunk => (m.processChunk chunk).1

def runSnap (m : SnapSyncManager) (ops : List SnapOp) : SnapSyncManager := ops.foldl SnapOp.run m

/-- A manager started on a pivot with `n` chunks. -/
def started (mode : SyncMode) (pivot : PivotBlock) (n : UInt64) : SnapSyncManager :=
  (SnapSyncManager.new mode).start pivot n

/-- A chunk with this id and a good proof was among what was processed. -/
def Verified (ops : List SnapOp) (id : UInt64) : Prop :=
  ∃ chunk, SnapOp.process chunk ∈ ops ∧ chunk.chunkId = id ∧ verifyChunkProof chunk = true

/-- The books are right: every id below `n` and no other is in exactly one place,
in the queue only once, and healing starts when every chunk was verified. -/
structure Accounted (n : UInt64) (ops : List SnapOp) (m : SnapSyncManager) : Prop where
  range : ∀ id, id ∈ m.pendingChunks ∨ id ∈ m.downloadingChunks ∨ id ∈ m.completedChunks → id < n
  placed : ∀ id, id < n →
    id ∈ m.pendingChunks ∨ id ∈ m.downloadingChunks ∨ id ∈ m.completedChunks
  pending_apart : ∀ id ∈ m.pendingChunks, id ∉ m.downloadingChunks ∧ id ∉ m.completedChunks
  downloading_apart : ∀ id ∈ m.downloadingChunks, id ∉ m.completedChunks
  queue : m.pendingChunks.Nodup
  healing : m.state = .healingState → ∀ id, id < n → Verified ops id

/-- A chunk that is waited for, or a good one again. -/
def SnapOp.Expected (m : SnapSyncManager) : SnapOp → Prop
  | getChunks _ => True
  | process chunk => chunk.chunkId ∈ m.downloadingChunks ∨
      verifyChunkProof chunk = true ∧ chunk.chunkId ∈ m.completedChunks

variable {mode : SyncMode} {pivot : PivotBlock} {n : UInt64} {ops : List SnapOp} {op : SnapOp}
  {m : SnapSyncManager} {chunk : StateChunk}

theorem runSnap_snoc (m : SnapSyncManager) (ops : List SnapOp) (op : SnapOp) :
    runSnap m (ops ++ [op]) = op.run (runSnap m ops) := by
  rw [runSnap, runSnap, List.foldl_append]
  rfl

theorem Verified.snoc {id : UInt64} (h : Verified ops id) (op : SnapOp) :
    Verified (ops ++ [op]) id := by
  obtain ⟨chunk, hmem, hid⟩ := h
  exact ⟨chunk, List.mem_append_left _ hmem, hid⟩

/-! ## The ids -/

theorem mem_chunkIds {id : UInt64} : id ∈ chunkIds n ↔ id < n := by
  rw [chunkIds, List.mem_map, UInt64.lt_iff_toNat_lt]
  constructor
  · intro h
    obtain ⟨i, hi, rfl⟩ := h
    have hlt := List.mem_range.mp hi
    have hn := n.toNat_lt
    rw [UInt64.toNat_ofNat']
    omega
  · intro h
    exact ⟨id.toNat, List.mem_range.mpr h, UInt64.ofNat_toNat⟩

theorem nodup_chunkIds (n : UInt64) : (chunkIds n).Nodup := by
  refine List.Nodup.map_on (fun i hi j hj hij => ?_) List.nodup_range
  have hi := List.mem_range.mp hi
  have hj := List.mem_range.mp hj
  have hn := n.toNat_lt
  have hnat := congrArg UInt64.toNat hij
  rw [UInt64.toNat_ofNat', UInt64.toNat_ofNat'] at hnat
  omega

/-- A set of ids below `n` with at least `n` of them is all of them. -/
theorem mem_of_card_le {ids : Finset UInt64} (hsub : ∀ id ∈ ids, id < n)
    (hcard : n.toNat ≤ ids.card) {id : UInt64} (hid : id < n) : id ∈ ids := by
  have hall : ids ⊆ (chunkIds n).toFinset := fun x hx =>
    List.mem_toFinset.mpr (mem_chunkIds.mpr (hsub x hx))
  have hlen : (chunkIds n).toFinset.card = n.toNat := by
    rw [List.toFinset_card_of_nodup (nodup_chunkIds n), chunkIds, List.length_map,
      List.length_range]
  rw [Finset.eq_of_subset_of_card_le hall (hlen ▸ hcard), List.mem_toFinset]
  exact mem_chunkIds.mpr hid

/-! ## One operation -/

theorem accounted_started (mode : SyncMode) (pivot : PivotBlock) (n : UInt64) :
    Accounted n [] (started mode pivot n) where
  range id h := by
    rcases h with h | h | h
    · exact mem_chunkIds.mp h
    · exact absurd h (Finset.notMem_empty _)
    · exact absurd h (Finset.notMem_empty _)
  placed id h := Or.inl (mem_chunkIds.mpr h)
  pending_apart _ _ := ⟨Finset.notMem_empty _, Finset.notMem_empty _⟩
  downloading_apart _ h := absurd h (Finset.notMem_empty _)
  queue := nodup_chunkIds n
  healing h := by cases h

/-- From a clean queue the loop moves a prefix over. -/
theorem takeChunks_spec (max : Nat) : ∀ (pending : List UInt64) (downloading : Finset UInt64)
    (chunks : List UInt64), pending.Nodup → (∀ id ∈ pending, id ∉ downloading) →
      ∃ taken, pending = taken ++ (takeChunks max pending downloading chunks).1 ∧
        ∀ id, id ∈ (takeChunks max pending downloading chunks).2.1 ↔
          id ∈ downloading ∨ id ∈ taken
  | [], downloading, chunks, _, _ => ⟨[], rfl, fun id => by simp [takeChunks]⟩
  | x :: pending, downloading, chunks, hnd, hout => by
    rw [List.nodup_cons] at hnd
    unfold takeChunks
    split
    · rw [if_neg (hout x (List.mem_cons_self ..))]
      have hout' : ∀ id ∈ pending, id ∉ insert x downloading := by
        intro id hid hmem
        rcases Finset.mem_insert.mp hmem with rfl | hmem
        · exact hnd.1 hid
        · exact hout id (List.mem_cons_of_mem _ hid) hmem
      obtain ⟨taken, hsplit, hdl⟩ :=
        takeChunks_spec max pending (insert x downloading) (chunks ++ [x]) hnd.2 hout'
      refine ⟨x :: taken, ?_, fun id => ?_⟩
      · rw [List.cons_append, ← hsplit]
      · rw [hdl, Finset.mem_insert, List.mem_cons]
        tauto
    · exact ⟨[], rfl, fun id => by simp⟩

theorem accounted_getChunks (h : Accounted n ops m) (max : Nat) :
    Accounted n (ops ++ [.getChunks max]) ((SnapOp.getChunks max).run m) := by
  obtain ⟨taken, hsplit, hdl⟩ := takeChunks_spec max m.pendingChunks m.downloadingChunks []
    h.queue fun id hid => (h.pending_apart id hid).1
  let r := takeChunks max m.pendingChunks m.downloadingChunks []
  have hmem : ∀ id, id ∈ m.pendingChunks ↔ id ∈ taken ∨ id ∈ r.1 := fun id => by
    rw [hsplit]
    exact List.mem_append
  have hnd := h.queue
  rw [hsplit, List.nodup_append'] at hnd
  exact
    { range := fun id hid => by
        refine h.range id ?_
        rcases hid with hid | hid | hid
        · exact Or.inl ((hmem id).mpr (Or.inr hid))
        · rcases (hdl id).mp hid with hid | hid
          · exact Or.inr (Or.inl hid)
          · exact Or.inl ((hmem id).mpr (Or.inl hid))
        · exact Or.inr (Or.inr hid)
      placed := fun id hid => by
        rcases h.placed id hid with hp | hd | hc
        · rcases (hmem id).mp hp with hp | hp
          · exact Or.inr (Or.inl ((hdl id).mpr (Or.inr hp)))
          · exact Or.inl hp
        · exact Or.inr (Or.inl ((hdl id).mpr (Or.inl hd)))
        · exact Or.inr (Or.inr hc)
      pending_apart := fun id hid => by
        have hold := h.pending_apart id ((hmem id).mpr (Or.inr hid))
        refine ⟨fun hd => ?_, hold.2⟩
        rcases (hdl id).mp hd with hd | hd
        · exact hold.1 hd
        · exact hnd.2.2 hd hid
      downloading_apart := fun id hid => by
        rcases (hdl id).mp hid with hid | hid
        · exact h.downloading_apart id hid
        · exact (h.pending_apart id ((hmem id).mpr (Or.inl hid))).2
      queue := hnd.2.1
      healing := fun hs id hid => (h.healing hs id hid).snoc _ }

/-- A chunk whose proof is bad goes back to the queue. -/
theorem accounted_retry (h : Accounted n ops m) (hbad : verifyChunkProof chunk = false)
    (hwait : chunk.chunkId ∈ m.downloadingChunks) :
    Accounted n (ops ++ [.process chunk]) ((SnapOp.process chunk).run m) := by
  have hrun : (SnapOp.process chunk).run m =
      { m with
        downloadingChunks := m.downloadingChunks.erase chunk.chunkId
        pendingChunks := m.pendingChunks ++ [chunk.chunkId] } := by
    rw [SnapOp.run, processChunk, if_pos hbad]
  have hnew : chunk.chunkId ∉ m.pendingChunks := fun hp => (h.pending_apart _ hp).1 hwait
  rw [hrun]
  exact
    { range := fun id hid => by
        refine h.range id ?_
        rcases hid with hid | hid | hid
        · rcases List.mem_append.mp hid with hid | hid
          · exact Or.inl hid
          · exact Or.inr (Or.inl (List.mem_singleton.mp hid ▸ hwait))
        · exact Or.inr (Or.inl (Finset.mem_of_mem_erase hid))
        · exact Or.inr (Or.inr hid)
      placed := fun id hid => by
        rcases h.placed id hid with hp | hd | hc
        · exact Or.inl (List.mem_append_left _ hp)
        · by_cases heq : id = chunk.chunkId
          · exact Or.inl (List.mem_append_right _ (List.mem_singleton.mpr heq))
          · exact Or.inr (Or.inl (Finset.mem_erase.mpr ⟨heq, hd⟩))
        · exact Or.inr (Or.inr hc)
      pending_apart := fun id hid => by
        rcases List.mem_append.mp hid with hid | hid
        · exact ⟨fun hd => (h.pending_apart id hid).1 (Finset.mem_of_mem_erase hd),
            (h.pending_apart id hid).2⟩
        · rw [List.mem_singleton.mp hid]
          exact ⟨Finset.notMem_erase _ _, h.downloading_apart _ hwait⟩
      downloading_apart := fun id hid => h.downloading_apart id (Finset.mem_of_mem_erase hid)
      queue := by
        show (m.pendingChunks ++ [chunk.chunkId]).Nodup
        refine List.nodup_append'.mpr ⟨h.queue, List.nodup_singleton _, ?_⟩
        intro id hid hid'
        exact hnew (List.mem_singleton.mp hid' ▸ hid)
      healing := fun hs id hid => (h.healing hs id hid).snoc _ }

/-- A good chunk that is waited for, or was completed before, is completed. -/
theorem accounted_complete (h : Accounted n ops m) (htotal : m.stats.stateChunksTotal = n)
    (hver : ∀ id ∈ m.completedChunks, Verified ops id) (hgood : verifyChunkProof chunk = true)
    (hwait : chunk.chunkId ∈ m.downloadingChunks ∨ chunk.chunkId ∈ m.completedChunks) :
    Accounted n (ops ++ [.process chunk]) ((SnapOp.process chunk).run m) := by
  have hnew : chunk.chunkId ∉ m.pendingChunks := by
    intro hp
    rcases hwait with hw | hw
    · exact (h.pending_apart _ hp).1 hw
    · exact (h.pending_apart _ hp).2 hw
  have hlt : chunk.chunkId < n := h.range _ (Or.inr hwait)
  have hcompleted : ∀ id ∈ insert chunk.chunkId m.completedChunks, id < n := by
    intro id hid
    rcases Finset.mem_insert.mp hid with rfl | hid
    · exact hlt
    · exact h.range id (Or.inr (Or.inr hid))
  rw [SnapOp.run, processChunk, if_neg (by simp [hgood])]
  exact
    { range := fun id hid => by
        rcases hid with hid | hid | hid
        · exact h.range id (Or.inl hid)
        · exact h.range id (Or.inr (Or.inl (Finset.mem_of_mem_erase hid)))
        · exact hcompleted id hid
      placed := fun id hid => by
        rcases h.placed id hid with hp | hd | hc
        · exact Or.inl hp
        · by_cases heq : id = chunk.chunkId
          · exact Or.inr (Or.inr (heq ▸ Finset.mem_insert_self _ _))
          · exact Or.inr (Or.inl (Finset.mem_erase.mpr ⟨heq, hd⟩))
        · exact Or.inr (Or.inr (Finset.mem_insert_of_mem hc))
      pending_apart := fun id hid => by
        obtain ⟨hd, hc⟩ := h.pending_apart id hid
        refine ⟨fun hd' => hd (Finset.mem_of_mem_erase hd'), fun hc' => ?_⟩
        rcases Finset.mem_insert.mp hc' with rfl | hc'
        · exact hnew hid
        · exact hc hc'
      downloading_apart := fun id hid hc => by
        obtain ⟨hne, hd⟩ := Finset.mem_erase.mp hid
        rcases Finset.mem_insert.mp hc with heq | hc
        · exact hne heq
        · exact h.downloading_apart id hd hc
      queue := h.queue
      healing := fun hs id hid => by
        -- all ids are completed, and every completed one was verified
        have hall : Verified ops id ∨ id ∈ insert chunk.chunkId m.completedChunks := by
          simp only at hs
          split at hs
          · next hfull =>
            refine Or.inr (mem_of_card_le hcompleted ?_ hid)
            rw [htotal, UInt64.le_iff_toNat_le, UInt64.toNat_ofNat'] at hfull
            exact hfull.trans (Nat.mod_le _ _)
          · exact Or.inl (h.healing hs id hid)
        rcases hall with hv | hmem
        · exact hv.snoc _
        · rcases Finset.mem_insert.mp hmem with rfl | hmem
          · exact ⟨chunk, List.mem_append_right _ (List.mem_singleton_self _), rfl, hgood⟩
          · exact (hver id hmem).snoc _ }

/-- A chunk nobody waits for puts its id into two places, or out of range. -/
theorem expected_of_accounted (h : Accounted n ops m)
    (h' : Accounted n (ops ++ [.process chunk]) ((SnapOp.process chunk).run m)) :
    (SnapOp.process chunk).Expected m := by
  refine or_iff_not_imp_left.mpr fun hnot => ?_
  rw [SnapOp.run, processChunk] at h'
  by_cases hbad : verifyChunkProof chunk = false
  · -- it went to the queue, where it is or where it has no business
    rw [if_pos hbad] at h'
    have hmem : chunk.chunkId ∈ m.pendingChunks ++ [chunk.chunkId] :=
      List.mem_append_right _ (List.mem_singleton_self _)
    rcases h.placed _ (h'.range _ (Or.inl hmem)) with hp | hd | hc
    · have hnd := (List.nodup_append'.mp h'.queue).2.2
      exact absurd (List.mem_singleton_self _) (hnd hp)
    · exact absurd hd hnot
    · exact absurd hc (h'.pending_apart _ hmem).2
  · rw [if_neg hbad] at h'
    have hgood : verifyChunkProof chunk = true := by simpa using hbad
    have hmem : chunk.chunkId ∈ insert chunk.chunkId m.completedChunks :=
      Finset.mem_insert_self _ _
    rcases h.placed _ (h'.range _ (Or.inr (Or.inr hmem))) with hp | hd | hc
    · exact absurd hmem (h'.pending_apart _ hp).2
    · exact absurd hd hnot
    · exact ⟨hgood, hc⟩

/-! ## Whole runs -/

/-- The number of chunks stays, and only verified chunks are completed. -/
theorem completed_verified (mode : SyncMode) (pivot : PivotBlock) (n : UInt64) :
    ∀ ops : List SnapOp,
      (runSnap (started mode pivot n) ops).stats.stateChunksTotal = n ∧
        ∀ id ∈ (runSnap (started mode pivot n) ops).completedChunks, Verified ops id := by
  intro ops
  induction ops using List.reverseRecOn with
  | nil => exact ⟨rfl, fun id h => absurd h (Finset.notMem_empty _)⟩
  | append_singleton ops op ih =>
    rw [runSnap_snoc]
    cases op with
    | getChunks max => exact ⟨ih.1, fun id hid => (ih.2 id hid).snoc _⟩
    | process chunk =>
      rw [SnapOp.run, processChunk]
      split
      · exact ⟨ih.1, fun id hid => (ih.2 id hid).snoc _⟩
      · next hgood =>
        refine ⟨ih.1, fun id hid => ?_⟩
        rcases Finset.mem_insert.mp hid with rfl | hid
        · exact ⟨chunk, List.mem_append_right _ (List.mem_singleton_self _), rfl,
            by simpa using hgood⟩
        · exact (ih.2 id hid).snoc _

/-- **One operation** on right books leaves right books exactly when it is an
expected one. -/
theorem accounted_step_iff (h : Accounted n ops (runSnap (started mode pivot n) ops)) :
    Accounted n (ops ++ [op]) (runSnap (started mode pivot n) (ops ++ [op])) ↔
      op.Expected (runSnap (started mode pivot n) ops) := by
  obtain ⟨htotal, hver⟩ := completed_verified mode pivot n ops
  rw [runSnap_snoc]
  cases op with
  | getChunks max => exact iff_of_true (accounted_getChunks h max) trivial
  | process chunk =>
    refine ⟨expected_of_accounted h, fun hexp => ?_⟩
    by_cases hbad : verifyChunkProof chunk = false
    · refine accounted_retry h hbad (hexp.resolve_right fun hc => ?_)
      rw [hbad] at hc
      exact Bool.false_ne_true hc.1
    · exact accounted_complete h htotal hver (by simpa using hbad) (hexp.imp id (·.2))

/-- **Snap-sync accounting.** Along any sequence of operations after `start`, the
books are right after every operation exactly when every processed chunk was
being downloaded at that time, or was completed before and comes again with a
good proof. -/
theorem accounted_iff_expected (mode : SyncMode) (pivot : PivotBlock) (n : UInt64)
    (ops : List SnapOp) :
    (∀ pre, pre <+: ops → Accounted n pre (runSnap (started mode pivot n) pre)) ↔
      ∀ pre op, pre ++ [op] <+: ops → op.Expected (runSnap (started mode pivot n) pre) := by
  refine forall_prefixes_iff (accounted_started mode pivot n) ?_
  intro pre op _ h
  exact accounted_step_iff h

/-- A chunk without accounts, which needs no proof. -/
def emptyChunk (id : UInt64) : StateChunk := ⟨id, H256.zero, H256.zero, [], []⟩

/-- One unrequested chunk, with an id that does not exist, ends the download of a
state of one chunk. -/
theorem snap_not_accounted :
    ¬ ∀ (mode : SyncMode) (pivot : PivotBlock) (n : UInt64) (ops : List SnapOp), 1 ≤ n →
      Accounted n ops (runSnap (started mode pivot n) ops) := by
  intro hall
  have h := hall .snap ⟨0, H256.zero, H256.zero, []⟩ 1 [.process (emptyChunk 7)] (by decide)
  have hlt := h.range 7 (Or.inr (Or.inr (Finset.mem_insert_self _ _)))
  exact absurd hlt (by decide)

end Sync

end Pyrax
