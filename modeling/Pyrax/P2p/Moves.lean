import Mathlib.Data.Option.Basic
import Pyrax.Base.Run
import Pyrax.P2p.Connections

/-!
# What a call of the connection manager can do

A call first notes its own event (`Call.opening`): the peer that connected, closed, failed
or was found. Everything after that is the manager's own, and is a chain of moves
(`Call.moves`): a peer put in the dial queue, a round of `process_dial_queue`, a change of
the network state along an allowed edge, a round of pruning, a question to the discovery, or
a change of the peer store that neither forgets a peer nor connects one (`PeerStore.Keeps`).
An invariant is checked once for the openings and once for each kind of move.
-/

namespace Pyrax.P2p

open Base

variable {P : Type} [DecidableEq P]

/-! ## The peer store on the manager's own account -/

/-- The same peer, not newly connected. -/
def PeerData.Kept (d d' : PeerData) : Prop :=
  d'.isBootnode = d.isBootnode ∧ d'.connectedAt = d.connectedAt ∧
    (d'.state = .connected → d.state = .connected)

theorem PeerData.Kept.refl (d : PeerData) : d.Kept d := ⟨rfl, rfl, id⟩

theorem PeerData.Kept.trans {a b c : PeerData} (h : a.Kept b) (h' : b.Kept c) : a.Kept c :=
  ⟨h'.1.trans h.1, h'.2.1.trans h.2.1, fun hc => h.2.2 (h'.2.2 hc)⟩

namespace PeerStore

variable {s s' s'' : PeerStore P} {p : P} {env : Env P}

/-- The same peers, none newly connected. -/
def Keeps (s s' : PeerStore P) : Prop :=
  ∀ p, Option.Rel PeerData.Kept (s.peers.lookup p) (s'.peers.lookup p)

theorem Keeps.of_eq (h : s'.peers = s.peers) : s.Keeps s' := by
  intro p
  rw [h]
  cases s.peers.lookup p with
  | none => exact .none
  | some d => exact .some (.refl d)

theorem Keeps.trans (h : s.Keeps s') (h' : s'.Keeps s'') : s.Keeps s'' := by
  intro p
  have h₁ := h p
  have h₂ := h' p
  cases hs : s.peers.lookup p <;> cases hs' : s'.peers.lookup p <;>
    cases hs'' : s''.peers.lookup p <;> rw [hs, hs'] at h₁ <;> rw [hs', hs''] at h₂ <;>
    cases h₁ <;> cases h₂
  · exact .none
  · next h₁ h₂ => exact .some (h₁.trans h₂)

/-- What is known before is known after. -/
theorem Keeps.lookup (h : s.Keeps s') {d : PeerData} (hd : s.peers.lookup p = some d) :
    ∃ d', s'.peers.lookup p = some d' ∧ d.Kept d' := by
  have hp := h p
  rw [hd] at hp
  cases hs' : s'.peers.lookup p with
  | none => rw [hs'] at hp; cases hp
  | some d' =>
    rw [hs'] at hp
    cases hp with
    | some hkept => exact ⟨d', rfl, hkept⟩

/-- What is known after was known before. -/
theorem Keeps.lookup_of (h : s.Keeps s') {d' : PeerData} (hd : s'.peers.lookup p = some d') :
    ∃ d, s.peers.lookup p = some d ∧ d.Kept d' := by
  have hp := h p
  rw [hd] at hp
  cases hs : s.peers.lookup p with
  | none => rw [hs] at hp; cases hp
  | some d =>
    rw [hs] at hp
    cases hp with
    | some hkept => exact ⟨d, rfl, hkept⟩

/-- Another record of a known peer. -/
theorem keeps_insert {d d' : PeerData} {backoffs : Column P DialBackoff} {banned : Column P Nat}
    (h : s.peers.lookup p = some d) (hkept : d.Kept d') :
    s.Keeps { s with peers := s.peers.insert p d', backoffs, banned } := by
  intro p'
  by_cases hp : p' = p
  · rw [hp, h, Finmap.lookup_insert]
    exact .some hkept
  · rw [Finmap.lookup_insert_of_ne _ hp]
    exact Keeps.of_eq rfl p'

theorem lookup_modify (f : PeerData → PeerData) (p p' : P) : (s.modify p f).peers.lookup p'
    = if p' = p then (s.peers.lookup p).map f else s.peers.lookup p' := by
  rw [modify]
  split_ifs with hp
  · cases hd : s.peers.lookup p with
    | none => rw [hp]; exact hd
    | some d => rw [hp]; exact Finmap.lookup_insert _
  · cases s.peers.lookup p with
    | none => rfl
    | some d => exact Finmap.lookup_insert_of_ne _ hp

theorem keeps_modify {f : PeerData → PeerData} (h : ∀ d : PeerData, d.Kept (f d)) :
    s.Keeps (s.modify p f) := by
  rw [modify]
  split
  · next d hd => exact keeps_insert hd (h d)
  · exact .of_eq rfl

theorem keeps_clearBackoff (config : PeerStoreConfig) (now : Nat) :
    s.Keeps (s.clearBackoff config now p) := by
  rw [clearBackoff]
  split <;> exact .of_eq rfl

theorem keeps_rescore (env : Env P) : s.Keeps (s.rescore env p) := by
  rw [rescore]
  split
  · exact .of_eq rfl
  · next d hd =>
    dsimp only
    split
    · exact keeps_insert hd ⟨rfl, rfl, fun h => absurd h (by simp)⟩
    · exact keeps_insert hd ⟨rfl, rfl, id⟩

theorem keeps_updateAllScores (env : Env P) : s.Keeps (s.updateAllScores env) := by
  rw [updateAllScores]
  generalize env.peerOrder.keys s.peers = ps
  induction ps generalizing s with
  | nil => exact .of_eq rfl
  | cons p ps ih => exact (keeps_rescore env).trans ih

/-- What `cleanup` makes of a peer. -/
theorem lookup_cleanup (now : Nat) : (s.cleanup now).peers.lookup p
    = (s.peers.lookup p).map fun d =>
        if d.state = .banned && ((s.cleanup now).banned.lookup p).isNone then
          { d with state := .disconnected } else d :=
  Column.lookup_mapValues _ _ _

theorem keeps_cleanup (now : Nat) : s.Keeps (s.cleanup now) := by
  intro p
  rw [lookup_cleanup]
  cases s.peers.lookup p with
  | none => exact .none
  | some d =>
    refine .some ?_
    dsimp only
    split
    · exact ⟨rfl, rfl, fun h => absurd h (by simp)⟩
    · exact .refl d

theorem valueAt_connected (s : PeerStore P) (p : P) :
    Column.valueAt (fun d : PeerData => if d.state = .connected then 1 else 0) s.peers p
      = if s.isConnected p then 1 else 0 := by
  rw [Column.valueAt, PeerStore.isConnected]
  cases s.peers.lookup p with
  | none => rfl
  | some d => simp

/-- Where nobody is newly connected, no more are. -/
theorem connectedCount_le (h : ∀ p, s.isConnected p = false → s'.isConnected p = false) :
    s'.connectedCount ≤ s.connectedCount := by
  refine Column.total_le_of_valueAt_le fun p => ?_
  rw [valueAt_connected, valueAt_connected]
  cases hp : s.isConnected p with
  | false => rw [h p hp]
  | true =>
    split
    · exact le_rfl
    · exact Nat.zero_le _

theorem lookup_upsertPeer (s : PeerStore P) (now : Nat) (p : P) :
    ∃ d, (s.upsertPeer now p).peers.lookup p = some d := by
  rw [upsertPeer]
  split
  · next d hd => exact ⟨d, hd⟩
  · exact ⟨_, Finmap.lookup_insert _⟩

theorem nodup_lowestScoredConnected (env : Env P) (count : Nat) :
    (s.lowestScoredConnected env count).Nodup := by
  have hentries : ((env.peerOrder.entries s.peers).map Prod.fst).Nodup := by
    rw [Column.KeyOrder.map_fst_entries]
    exact env.peerOrder.nodup _
  rw [lowestScoredConnected, List.map_take]
  refine List.Nodup.sublist (List.take_sublist _ _) ?_
  refine ((List.mergeSort_perm _ _).map _).nodup_iff.mpr ?_
  exact hentries.sublist (List.filter_sublist.map _)

theorem length_lowestScoredConnected (env : Env P) (count : Nat) :
    (s.lowestScoredConnected env count).length ≤ count := by
  rw [lowestScoredConnected, List.length_map]
  exact List.length_take_le _ _

theorem mem_lowestScoredConnected {count : Nat} (h : p ∈ s.lowestScoredConnected env count) :
    ∃ d, s.peers.lookup p = some d ∧ d.state = .connected ∧ d.isBootnode = false := by
  rw [lowestScoredConnected] at h
  obtain ⟨⟨p', d⟩, he, rfl⟩ := List.mem_map.mp h
  have hmem := List.mem_mergeSort.mp (List.mem_of_mem_take he)
  obtain ⟨hentry, hkeep⟩ := List.mem_filter.mp hmem
  simp only [Bool.and_eq_true, decide_eq_true_eq, Bool.not_eq_true'] at hkeep
  exact ⟨d, Column.KeyOrder.mem_entries.mp hentry, hkeep⟩

theorem Keeps.isConnected (h : s.Keeps s') (hp : s.isConnected p = false) :
    s'.isConnected p = false := by
  rw [PeerStore.isConnected] at hp ⊢
  cases hs' : s'.peers.lookup p with
  | none => rfl
  | some d' =>
    obtain ⟨d, hd, hkept⟩ := h.lookup_of hs'
    rw [hd] at hp
    exact decide_eq_false fun hc => of_decide_eq_false hp (hkept.2.2 hc)

theorem Keeps.connectedCount_le (h : s.Keeps s') : s'.connectedCount ≤ s.connectedCount :=
  PeerStore.connectedCount_le fun _ hp => h.isConnected hp

end PeerStore

/-! ## The peer store and the swarm's events -/

namespace PeerStore

variable {s s' s'' : PeerStore P} {p : P} {x : Option P}

/-- Nobody is forgotten, no bootnode loses its flag, and nobody is newly connected but `x`. -/
structure Marks (x : Option P) (s s' : PeerStore P) : Prop where
  known : ∀ p d, s.peers.lookup p = some d →
    ∃ d', s'.peers.lookup p = some d' ∧ (d.isBootnode = true → d'.isBootnode = true)
  idle : ∀ p, x ≠ some p → s.isConnected p = false → s'.isConnected p = false

theorem Marks.of_eq (h : s'.peers = s.peers) : Marks x s s' := by
  refine ⟨fun p d hd => ⟨d, by rw [h, hd], id⟩, fun p _ hp => ?_⟩
  rw [isConnected, h]
  exact hp

theorem Marks.trans (h : Marks x s s') (h' : Marks x s' s'') : Marks x s s'' := by
  refine ⟨fun p d hd => ?_, fun p hx hp => h'.idle p hx (h.idle p hx hp)⟩
  obtain ⟨d', hd', hboot⟩ := h.known p d hd
  obtain ⟨d'', hd'', hboot'⟩ := h'.known p d' hd'
  exact ⟨d'', hd'', hboot' ∘ hboot⟩

theorem marks_modify {f : PeerData → PeerData}
    (hboot : ∀ d : PeerData, d.isBootnode = true → (f d).isBootnode = true)
    (hstate : x = some p ∨ ∀ d : PeerData, (f d).state = .connected → d.state = .connected) :
    Marks x s (s.modify p f) := by
  refine ⟨fun p' d hd => ?_, fun p' hx hp' => ?_⟩
  · rw [lookup_modify]
    split_ifs with hp
    · rw [← hp, hd]
      exact ⟨f d, rfl, hboot d⟩
    · exact ⟨d, hd, id⟩
  · rw [isConnected] at hp' ⊢
    rw [lookup_modify]
    split_ifs with hp
    · rw [← hp]
      cases hd : s.peers.lookup p' with
      | none => rfl
      | some d =>
        rw [hd] at hp'
        rcases hstate with hx' | hstate
        · exact absurd (hx'.trans (congrArg some hp.symm)) hx
        · exact decide_eq_false fun hc => of_decide_eq_false hp' (hstate d hc)
    · exact hp'

theorem marks_upsertPeer (now : Nat) : Marks x s (s.upsertPeer now p) := by
  rw [upsertPeer]
  split
  · exact .of_eq rfl
  · next hnone =>
    refine ⟨fun p' d hd => ⟨d, ?_, id⟩, fun p' _ hp' => ?_⟩
    · exact (Finmap.lookup_insert_of_ne _ fun h => by rw [h, hnone] at hd; cases hd).trans hd
    · by_cases hp : p' = p
      · rw [hp, isConnected, Finmap.lookup_insert]
        rfl
      · rw [isConnected, Finmap.lookup_insert_of_ne _ hp]
        exact hp'

theorem marks_addAddress (address : String) : Marks x s (s.addAddress p address) := by
  refine marks_modify (fun d h => ?_) (.inr fun d h => ?_)
  · split
    · exact h
    · exact h
  · split at h
    · exact h
    · exact h

theorem marks_addAddresses (addresses : List String) :
    Marks x s (s.addAddresses p addresses) := by
  rw [addAddresses]
  induction addresses generalizing s with
  | nil => exact .of_eq rfl
  | cons address addresses ih => exact (marks_addAddress address).trans ih

theorem marks_peerConnected (config : PeerStoreConfig) (now : Nat)
    (direction : ConnectionDirection) :
    Marks (some p) s (s.peerConnected config now p direction) := by
  rw [peerConnected]
  split
  · have hmodify : Marks (some p) s (s.modify p fun d => { d with
        state := .connected, direction := some direction, connectedAt := some now }) :=
      marks_modify (fun _ h => h) (.inl rfl)
    refine hmodify.trans ?_
    rw [clearBackoff]
    split <;> exact .of_eq rfl
  · exact .of_eq rfl

theorem marks_recordDialFailure (config : PeerStoreConfig) (now : Nat) :
    Marks x s (s.recordDialFailure config now p) := by
  have hmodify : Marks x s (s.modify p fun d => { d with
      state := .disconnected
      consecutiveFailures := d.consecutiveFailures + 1
      lastFailureTime := some now }) :=
    marks_modify (fun _ h => h) (.inr fun _ h => absurd h (by simp))
  exact hmodify.trans (.of_eq rfl)

end PeerStore

/-! ## The moves -/

/-- The changes of the network state. -/
def NetworkState.Follows : NetworkState → NetworkState → Bool
  | _, dialingBootnode | _, shuttingDown => true
  | dialingBootnode, identifying | identifying, bootstrappingDiscovery
  | bootstrappingDiscovery, fillingPeers | fillingPeers, maintaining
  | maintaining, fillingPeers => true
  | _, _ => false

variable {config : ConnectionManagerConfig} {env : Env P} {m m' : ConnectionManager P}

/-- One thing the manager does on its own account. -/
inductive Move (config : ConnectionManagerConfig) (env : Env P) (m : ConnectionManager P) :
    ConnectionManager P → Prop where
  | queueDial (p : P) (address : String) : Move config env m (m.queueDial env.now p address)
  | processDialQueue : Move config env m (m.processDialQueue config env.now)
  | transitionTo (s : NetworkState) (h : m.state.Follows s) :
      Move config env m (m.transitionTo env.now s)
  | prune : Move config env m (m.pruneExcessPeers config env)
  | discover : Move config env m (m.triggerDiscovery env.now)
  | bootstrap : Move config env m (m.emit env.now .triggerKademliaBootstrap)
  | withStore (s : PeerStore P) (h : m.peerStore.Keeps s) : Move config env m (m.withStore s)
  | cleanup : Move config env m (m.cleanupWrongPeerIdEntries env.now)

/-- Some moves. -/
abbrev Moves (config : ConnectionManagerConfig) (env : Env P) :
    ConnectionManager P → ConnectionManager P → Prop :=
  Relation.ReflTransGen (Move config env)

namespace Moves

theorem one (h : Move config env m m') : Moves config env m m' := .single h

theorem foldl {ι : Type} {f : ConnectionManager P → ι → ConnectionManager P}
    (h : ∀ m i, Moves config env m (f m i)) (is : List ι) (m : ConnectionManager P) :
    Moves config env m (is.foldl f m) := by
  induction is generalizing m with
  | nil => exact .refl
  | cons i is ih => exact (h m i).trans (ih (f m i))

end Moves

/-! ## The loop of `process_dial_queue` -/

namespace ConnectionManager

/-- What skipping an entry and beginning a dial keep, the loop keeps. -/
theorem dialLoop_rule {now slots : Nat}
    {I : ConnectionManager P → List (P × String) → List (DialEntry P) → Prop}
    (hskip : ∀ m ds e q, m.skips config now e → I m ds (e :: q) → I m ds q)
    (hdial : ∀ m ds e q, ds.length < slots → ¬ m.skips config now e → I m ds (e :: q) →
      I (m.beginDial e.peerId) (ds ++ [(e.peerId, e.address)]) q) :
    ∀ (q : List (DialEntry P)) (m : ConnectionManager P) (ds : List (P × String)), I m ds q →
      ∃ m₁ q₁, (dialLoop config now slots m ds q).1 = { m₁ with dialQueue := q₁ } ∧
        I m₁ (dialLoop config now slots m ds q).2 q₁
  | [], m, ds, h => ⟨m, [], rfl, h⟩
  | e :: q, m, ds, h => by
    rw [dialLoop]
    split
    · exact ⟨m, e :: q, rfl, h⟩
    · next hroom =>
      split
      · next hs => exact dialLoop_rule hskip hdial q m ds (hskip m ds e q hs h)
      · next hs =>
        exact dialLoop_rule hskip hdial q _ _ (hdial m ds e q (Nat.lt_of_not_le hroom) hs h)

/-- A round of `process_dial_queue` is the loop and one event for what it dials. -/
theorem processDialQueue_rule (config : ConnectionManagerConfig) (m : ConnectionManager P)
    (now : Nat) {I : ConnectionManager P → List (P × String) → List (DialEntry P) → Prop}
    (hskip : ∀ m ds e q, m.skips config now e → I m ds (e :: q) → I m ds q)
    (hdial : ∀ m₁ ds e q, ds.length < config.maxConcurrentDials - m.dialing.card →
      ¬ m₁.skips config now e → I m₁ ds (e :: q) →
      I (m₁.beginDial e.peerId) (ds ++ [(e.peerId, e.address)]) q)
    (h : I m [] m.dialQueue) :
    m.processDialQueue config now = m ∨ ∃ m₁ ds q, I m₁ ds q ∧
      (ds = [] ∧ m.processDialQueue config now = { m₁ with dialQueue := q } ∨
        ds ≠ [] ∧ m.processDialQueue config now
          = { m₁ with dialQueue := q }.emit now (.dialPeers ds)) := by
  obtain ⟨m₁, q, heq, hI⟩ := dialLoop_rule hskip hdial m.dialQueue m [] h
  rw [processDialQueue]
  split
  · exact .inl rfl
  · refine .inr ⟨m₁, _, q, hI, ?_⟩
    rw [← heq]
    by_cases hnil : (dialLoop config now (config.maxConcurrentDials - m.dialing.card) m []
        m.dialQueue).2 = []
    · exact .inl ⟨hnil, if_pos hnil⟩
    · exact .inr ⟨hnil, if_neg hnil⟩

/-! ## Frames -/

/-- The part of the manager that dialling leaves alone. -/
structure SameFrame (m m' : ConnectionManager P) : Prop where
  state : m'.state = m.state
  fillingPeersSince : m'.fillingPeersSince = m.fillingPeersSince
  bootnodes : m'.bootnodes = m.bootnodes
  recentlyDisconnected : m'.recentlyDisconnected = m.recentlyDisconnected
  lastPrune : m'.lastPrune = m.lastPrune
  wrongPeerIdPeers : m'.wrongPeerIdPeers = m.wrongPeerIdPeers

theorem SameFrame.refl (m : ConnectionManager P) : SameFrame m m :=
  ⟨rfl, rfl, rfl, rfl, rfl, rfl⟩

theorem SameFrame.trans {m₁ m₂ m₃ : ConnectionManager P} (h : SameFrame m₁ m₂)
    (h' : SameFrame m₂ m₃) : SameFrame m₁ m₃ :=
  ⟨h'.1.trans h.1, h'.2.trans h.2, h'.3.trans h.3, h'.4.trans h.4, h'.5.trans h.5,
    h'.6.trans h.6⟩

theorem queueDial_cases (m : ConnectionManager P) (now : Nat) (p : P) (address : String) :
    m.queueDial now p address = m ∨
      ((address = "" ∨ isRoutableAddress address = true) ∧ p ∉ m.dialing ∧
        m.peerStore.isConnected p = false ∧ (∀ e ∈ m.dialQueue, e.peerId ≠ p) ∧
        m.queueDial now p address = { m with dialQueue := m.dialQueue ++ [⟨p, address, now⟩] }) := by
  rw [queueDial]
  split_ifs with haddr hdialing hconn hback hdup
  · exact .inl rfl
  · exact .inl rfl
  · exact .inl rfl
  · exact .inl rfl
  · exact .inl rfl
  · refine .inr ⟨?_, hdialing, by simpa using hconn, fun e he heq => hdup ?_, rfl⟩
    · rcases Decidable.not_and_iff_or_not.mp haddr with h | h
      · exact .inl (Decidable.not_not.mp h)
      · exact .inr (by simpa using h)
    · exact List.any_eq_true.mpr ⟨e, he, decide_eq_true heq⟩

/-- A round of pruning does nothing, or names the peers it disconnects. -/
theorem pruneExcessPeers_cases (config : ConnectionManagerConfig) (m : ConnectionManager P)
    (env : Env P) : m.pruneExcessPeers config env = m ∨ ∃ toPrune : List P,
      toPrune ≠ [] ∧ toPrune.Nodup ∧ config.minPruneInterval ≤ env.now - m.lastPrune ∧
      config.targetPeers + toPrune.length ≤ m.connected ∧
      (∀ p ∈ toPrune, ∃ d, m.peerStore.peers.lookup p = some d ∧ d.state = .connected ∧
        d.isBootnode = false ∧ config.minConnectionAge / SECOND / 60 ≤ d.uptimeMinutes env.now) ∧
      m.pruneExcessPeers config env = { m with
        pruneEvents := m.pruneEvents + UInt64.ofNat toPrune.length
        lastPrune := env.now }.emit env.now (.disconnectPeers toPrune) := by
  rw [pruneExcessPeers]
  split
  · exact .inl rfl
  · next hinterval =>
    dsimp only
    split
    · exact .inl rfl
    · next hexcess =>
      generalize hprune : ((m.peerStore.lowestScoredConnected env
        (m.connected - config.targetPeers)).filter _) = toPrune
      split
      · exact .inl rfl
      · next hnil =>
        refine .inr ⟨toPrune, hnil, ?_, Nat.le_of_not_lt hinterval, ?_, fun p hp => ?_, rfl⟩
        · rw [← hprune]
          exact (PeerStore.nodup_lowestScoredConnected env _).filter _
        · have hlen : toPrune.length ≤ m.connected - config.targetPeers := by
            rw [← hprune]
            exact (List.length_filter_le _ _).trans (PeerStore.length_lowestScoredConnected env _)
          omega
        · rw [← hprune, List.mem_filter] at hp
          obtain ⟨d, hd, hconn, -⟩ := PeerStore.mem_lowestScoredConnected hp.1
          have hkeep := hp.2
          rw [hd] at hkeep
          simp only [Bool.and_eq_true, Bool.not_eq_true', decide_eq_false_iff_not] at hkeep
          exact ⟨d, hd, hconn, hkeep.1, Nat.le_of_not_lt hkeep.2⟩

theorem sameFrame_queueDial (now : Nat) (p : P) (address : String) :
    SameFrame m (m.queueDial now p address) := by
  rcases m.queueDial_cases now p address with h | ⟨_, _, _, _, h⟩
  · rw [h]
    exact .refl m
  · rw [h]
    exact ⟨rfl, rfl, rfl, rfl, rfl, rfl⟩

theorem sameFrame_processDialQueue (config : ConnectionManagerConfig) (m : ConnectionManager P)
    (now : Nat) : SameFrame m (m.processDialQueue config now) := by
  rcases processDialQueue_rule config m now (I := fun m₁ _ _ => SameFrame m m₁)
    (fun _ _ _ _ _ h => h) (fun _ _ _ _ _ _ h => h.trans ⟨rfl, rfl, rfl, rfl, rfl, rfl⟩) (.refl m) with
    h | ⟨m₁, ds, q, h, ⟨_, heq⟩ | ⟨_, heq⟩⟩
  · rw [h]
    exact .refl m
  · rw [heq]
    exact h.trans ⟨rfl, rfl, rfl, rfl, rfl, rfl⟩
  · rw [heq]
    exact h.trans ⟨rfl, rfl, rfl, rfl, rfl, rfl⟩

theorem sameFrame_queueDials (now : Nat) (p : P) (addresses : List String) :
    SameFrame m (m.queueDials now p addresses) := by
  rw [queueDials]
  induction addresses generalizing m with
  | nil => exact .refl m
  | cons address addresses ih => exact (sameFrame_queueDial now p address).trans ih

theorem sameFrame_queueBootnodes {prepare : ConnectionManager P → P → ConnectionManager P}
    (h : ∀ m p, SameFrame m (prepare m p)) : SameFrame m (m.queueBootnodes env prepare) := by
  rw [queueBootnodes]
  generalize (env.bootnodeOrder.keys m.bootnodes).filterMap _ = addrs
  induction addrs generalizing m with
  | nil => exact .refl m
  | cons entry addrs ih => exact ((h m entry.1).trans (sameFrame_queueDials _ _ _)).trans ih

theorem sameFrame_redialBootnodes : SameFrame m (m.redialBootnodes config env) := by
  have hqueue : SameFrame m (m.queueBootnodes env fun m p =>
      m.withStore (m.peerStore.clearBackoff config.store env.now p)) :=
    sameFrame_queueBootnodes fun _ _ => ⟨rfl, rfl, rfl, rfl, rfl, rfl⟩
  exact hqueue.trans (sameFrame_processDialQueue config _ env.now)

end ConnectionManager

/-! ## Every handler is a chain of moves -/

namespace Moves

theorem queueDials (p : P) (addresses : List String) :
    Moves config env m (m.queueDials env.now p addresses) :=
  foldl (fun _ address => one (.queueDial p address)) addresses m

theorem queueBootnodes {prepare : ConnectionManager P → P → ConnectionManager P}
    (h : ∀ m p, Moves config env m (prepare m p)) :
    Moves config env m (m.queueBootnodes env prepare) :=
  foldl (f := fun m (entry : P × List String) =>
      (prepare m entry.1).queueDials env.now entry.1 entry.2)
    (fun m entry => (h m entry.1).trans (queueDials entry.1 entry.2)) _ m

theorem start : Moves config env m (m.start config env) :=
  ((one (.transitionTo .dialingBootnode rfl)).trans
    (queueBootnodes fun _ _ => Relation.ReflTransGen.refl)).trans (one .processDialQueue)

theorem updateStateOnConnection :
    Moves config env m (m.updateStateOnConnection config env.now) := by
  rw [ConnectionManager.updateStateOnConnection]
  split
  · next h => exact one (.transitionTo _ (by rw [h]; rfl))
  · next h =>
    split
    · exact one (.transitionTo _ (by rw [h]; rfl))
    · exact .refl
  · exact .refl

theorem updateStateOnDisconnection :
    Moves config env m (m.updateStateOnDisconnection config env) := by
  rw [ConnectionManager.updateStateOnDisconnection]
  split_ifs with hnone hfew
  · exact (one (.transitionTo _ rfl)).trans start
  · exact one (.transitionTo _ (by rw [hfew.2]; rfl))
  · exact .refl

theorem tryFillPeers : Moves config env m (m.tryFillPeers config env) := by
  rw [ConnectionManager.tryFillPeers]
  dsimp only
  split_ifs
  · exact .refl
  · exact one .discover
  · exact .refl
  · refine Relation.ReflTransGen.trans (foldl (fun m p => ?_) _ m) (one .processDialQueue)
    split
    · next address _ => exact one (.queueDial p address)
    · exact .refl

theorem redialBootnodes : Moves config env m (m.redialBootnodes config env) :=
  (queueBootnodes fun _ _ => one (.withStore _ (PeerStore.keeps_clearBackoff _ _))).trans
    (one .processDialQueue)

theorem maintainPeers (h : m.state = .maintaining) :
    Moves config env m (m.maintainPeers config env) := by
  rw [ConnectionManager.maintainPeers]
  dsimp only
  generalize hm₁ : (if !m.bootnodeConnected env ∧ m.bootnodes.keys ≠ ∅ then
    m.redialBootnodes config env else m) = m₁
  have h₁ : Moves config env m m₁ ∧ m₁.state = .maintaining := by
    rw [← hm₁]
    split
    · exact ⟨redialBootnodes, ConnectionManager.sameFrame_redialBootnodes.state.trans h⟩
    · exact ⟨.refl, h⟩
  refine h₁.1.trans ?_
  split
  · have hfill : Moves config env m₁ ((m₁.transitionTo env.now .fillingPeers).triggerDiscovery
        env.now) := (one (.transitionTo _ (by rw [h₁.2]; rfl))).trans (one .discover)
    split
    · exact hfill.trans (one .bootstrap)
    · exact hfill
  · have h₂ : Moves config env m₁ (if m.connected < config.targetPeers then
        m₁.tryFillPeers config env else m₁) := by
      split
      · exact tryFillPeers
      · exact .refl
    refine h₂.trans ?_
    generalize (if m.connected < config.targetPeers then m₁.tryFillPeers config env else m₁) = m₂
    have h₃ : Moves config env m₂ (if config.maxPeers < m.connected then
        m₂.pruneExcessPeers config env else m₂) := by
      split
      · exact one .prune
      · exact .refl
    refine h₃.trans ?_
    generalize (if config.maxPeers < m.connected then m₂.pruneExcessPeers config env else m₂) = m₃
    split
    · exact one .discover
    · exact .refl

theorem tickState : Moves config env m (m.tickState config env).1 := by
  rw [ConnectionManager.tickState]
  split
  · next h =>
    split
    · exact one (.transitionTo _ (by rw [h]; rfl))
    · exact .refl
  · next h =>
    split_ifs
    · exact one (.transitionTo _ (by rw [h]; rfl))
    · exact one (.transitionTo _ (by rw [h]; rfl))
    · exact tryFillPeers
  · next h => exact maintainPeers h
  · exact .refl

theorem tick : Moves config env m (m.tick config env) := by
  have hbefore : Moves config env m (((m.withStore (m.peerStore.cleanup env.now)).cleanupWrongPeerIdEntries
      env.now).processDialQueue config env.now) :=
    ((one (.withStore _ (PeerStore.keeps_cleanup env.now))).trans (one .cleanup)).trans
      (one .processDialQueue)
  rw [ConnectionManager.tick]
  generalize ((m.withStore (m.peerStore.cleanup env.now)).cleanupWrongPeerIdEntries
    env.now).processDialQueue config env.now = m₁ at hbefore ⊢
  have hstate : Moves config env m₁ (m₁.tickState config env).1 := tickState
  split
  · next m₂ heq =>
    rw [heq] at hstate
    exact hbefore.trans hstate
  · next m₂ heq =>
    rw [heq] at hstate
    exact (hbefore.trans hstate).trans
      (one (.withStore _ (PeerStore.keeps_updateAllScores env)))

end Moves

namespace Call

/-- What a call notes of its event, before the manager moves. -/
def opening (config : ConnectionManagerConfig) (m : ConnectionManager P) (env : Env P) :
    Call P → ConnectionManager P
  | addBootnode p addresses => m.addBootnode env.now p addresses
  | connectionEstablished p address isInbound => m.markConnected config env p address isInbound
  | connectionClosed p =>
    if (m.forgetDisconnects env.now).isDuplicateClose env.now p then m.forgetDisconnects env.now
    else (m.forgetDisconnects env.now).markClosed env.now p
  | dialFailure p => m.onDialFailure config env p
  | wrongPeerId p => m.onWrongPeerId config env p
  | peerIdentified p agentVersion listenAddrs => m.markIdentified p agentVersion listenAddrs
  | pingResult p answered => m.onPingResult p answered
  | peerDiscovered p addresses =>
    if p = env.localPeerId ∨ addresses.filter isRoutableAddress = [] then m
    else m.markDiscovered env.now p (addresses.filter isRoutableAddress)
  | start | queueDial _ _ | kademliaBootstrapComplete | tick | shutdown => m

/-- What an opening leaves as it was, and whose dial it ends. -/
structure Opened (c : Call P) (m m₁ : ConnectionManager P) : Prop where
  state : m₁.state = m.state
  fillingPeersSince : m₁.fillingPeersSince = m.fillingPeersSince
  lastPrune : m₁.lastPrune = m.lastPrune
  dialQueue : m₁.dialQueue = m.dialQueue
  dialAttempts : m₁.dialAttempts = m.dialAttempts
  outbox : m₁.outbox = m.outbox
  store : m₁.dialing = m.dialing ∧ PeerStore.Marks none m.peerStore m₁.peerStore ∨
    ∃ p, c.ends = some p ∧ m₁.dialing = m.dialing.erase p ∧
      PeerStore.Marks (some p) m.peerStore m₁.peerStore

theorem opened (c : Call P) (config : ConnectionManagerConfig) (env : Env P)
    (m : ConnectionManager P) : Opened c m (c.opening config m env) := by
  have hsame : Opened c m m := ⟨rfl, rfl, rfl, rfl, rfl, rfl, .inl ⟨rfl, .of_eq rfl⟩⟩
  cases c with
  | addBootnode p addresses =>
    refine ⟨rfl, rfl, rfl, rfl, rfl, rfl, .inl ⟨rfl, ?_⟩⟩
    have hflag : PeerStore.Marks none m.peerStore (m.peerStore.addBootnode p) :=
      have hset : PeerStore.Marks none m.peerStore
          { m.peerStore with bootnodes := insert p m.peerStore.bootnodes } := .of_eq rfl
      hset.trans (PeerStore.marks_modify (fun _ _ => rfl) (.inr fun _ h => h))
    refine (hflag.trans (PeerStore.marks_upsertPeer env.now (p := p))).trans ?_
    refine PeerStore.Marks.trans ?_ (PeerStore.marks_addAddresses addresses)
    exact PeerStore.marks_modify (fun _ _ => rfl) (.inr fun _ h => h)
  | connectionEstablished p address isInbound =>
    have hstore : PeerStore.Marks (some p) m.peerStore
        (((m.peerStore.upsertPeer env.now p).addAddress p address).peerConnected config.store
          env.now p (if isInbound then .inbound else .outbound)) :=
      ((PeerStore.marks_upsertPeer _).trans (PeerStore.marks_addAddress address)).trans
        (PeerStore.marks_peerConnected _ _ _)
    cases isInbound <;>
      exact ⟨rfl, rfl, rfl, rfl, rfl, rfl, .inr ⟨p, rfl, rfl, hstore⟩⟩
  | connectionClosed p =>
    rw [opening]
    split
    · exact ⟨rfl, rfl, rfl, rfl, rfl, rfl, .inl ⟨rfl, .of_eq rfl⟩⟩
    · exact ⟨rfl, rfl, rfl, rfl, rfl, rfl, .inr ⟨p, rfl, rfl,
        PeerStore.marks_modify (fun _ h => h) (.inl rfl)⟩⟩
  | dialFailure p =>
    exact ⟨rfl, rfl, rfl, rfl, rfl, rfl, .inr ⟨p, rfl, rfl,
      PeerStore.marks_recordDialFailure _ _⟩⟩
  | wrongPeerId p =>
    refine ⟨rfl, rfl, rfl, rfl, rfl, rfl, .inr ⟨p, rfl, rfl, ?_⟩⟩
    have hrounds : ∀ (rounds : List Nat) (s : PeerStore P), PeerStore.Marks (some p) s
        (rounds.foldl (fun s _ => s.recordDialFailure config.store env.now p) s) := by
      intro rounds
      induction rounds with
      | nil => exact fun s => .of_eq rfl
      | cons _ rounds ih => exact fun s => (PeerStore.marks_recordDialFailure _ _).trans (ih _)
    refine (hrounds (List.range 5) m.peerStore).trans ?_
    exact PeerStore.marks_modify (fun _ h => h) (.inl rfl)
  | peerIdentified p agentVersion listenAddrs =>
    have hversion : PeerStore.Marks none m.peerStore (m.peerStore.modify p fun d =>
        { d with clientVersion := agentVersion }) :=
      PeerStore.marks_modify (fun _ h => h) (.inr fun _ h => h)
    exact ⟨rfl, rfl, rfl, rfl, rfl, rfl, .inl ⟨rfl,
      hversion.trans (PeerStore.marks_addAddresses listenAddrs)⟩⟩
  | pingResult p answered =>
    cases answered with
    | false => exact hsame
    | true =>
      exact ⟨rfl, rfl, rfl, rfl, rfl, rfl, .inl ⟨rfl,
        PeerStore.marks_modify (fun _ h => h) (.inr fun _ h => h)⟩⟩
  | peerDiscovered p addresses =>
    rw [opening]
    split
    · exact hsame
    · exact ⟨rfl, rfl, rfl, rfl, rfl, rfl, .inl ⟨rfl,
        (PeerStore.marks_upsertPeer _).trans (PeerStore.marks_addAddresses _)⟩⟩
  | start | queueDial _ _ | kademliaBootstrapComplete | tick | shutdown => exact hsame

/-- A call is its opening and some moves. -/
theorem moves (c : Call P) : Moves config env (c.opening config m env) (c.apply config m env) := by
  cases c with
  | addBootnode p addresses => exact .refl
  | start => exact Moves.start
  | queueDial p address => exact Moves.one (.queueDial p address)
  | connectionEstablished p address isInbound =>
    refine Relation.ReflTransGen.trans Moves.updateStateOnConnection ?_
    rw [apply, ConnectionManager.onConnectionEstablished]
    dsimp only [opening]
    split
    · exact Moves.one .prune
    · exact .refl
  | connectionClosed p =>
    rw [apply, ConnectionManager.onConnectionClosed, opening]
    dsimp only
    split
    · exact .refl
    · refine Relation.ReflTransGen.trans Moves.updateStateOnDisconnection ?_
      split
      · exact Moves.one .discover
      · exact .refl
  | dialFailure p => exact .refl
  | wrongPeerId p => exact .refl
  | peerIdentified p agentVersion listenAddrs =>
    rw [apply, ConnectionManager.onPeerIdentified, opening]
    split
    · next h => exact (Moves.one (.transitionTo _ (by rw [h]; rfl))).trans (Moves.one .bootstrap)
    · exact .refl
  | pingResult p answered => exact .refl
  | kademliaBootstrapComplete =>
    rw [apply, ConnectionManager.onKademliaBootstrapComplete, opening]
    split
    · next h => exact Moves.one (.transitionTo _ (by rw [h]; rfl))
    · exact .refl
  | peerDiscovered p addresses =>
    rw [apply, ConnectionManager.onPeerDiscovered, opening]
    dsimp only
    split_ifs
    · exact .refl
    · split
      · next address _ => exact Moves.one (.queueDial p address)
      · exact .refl
    · exact .refl
  | tick => exact Moves.tick
  | shutdown => exact Moves.one (.transitionTo _ (by cases m.state <;> rfl))

end Call

end Pyrax.P2p
