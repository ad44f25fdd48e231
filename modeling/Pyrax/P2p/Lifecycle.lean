import Pyrax.P2p.Dialling

/-!
# Disconnects, pruning and the state of the network

More results about whole runs of the connection manager. A peer that was reported closed
is left alone for three seconds (`redial_waits`): the grace period of thirty seconds is cut
short, since `on_connection_closed` forgets a disconnect after five. A peer whose address led to
another is skipped by the event loop for half an hour (`skipped_after_wrongPeerId`), though not by
the manager, whose slot such a dial keeps (`dials_starve`). A round of pruning spares
the bootnodes and the young connections and keeps to the target and to its interval
(`pruned_fairly`). The events `StateChanged` tell the whole history of the state
(`told_run`), and the manager does not stay in `FillingPeers` with a peer connected
(`filling_ends`).
-/

namespace Pyrax.P2p

open Base

variable {P : Type} [DecidableEq P] {config : ConnectionManagerConfig} {env : Env P}
  {m m' : ConnectionManager P}

/-- The clock does not go back. -/
def Clocked (start : Nat) (calls : List (Env P × Call P)) : Prop :=
  (start :: calls.map fun call => call.1.now).Pairwise (· ≤ ·)

theorem Clocked.snoc {start : Nat} {calls : List (Env P × Call P)} {call : Env P × Call P}
    (h : Clocked start (calls ++ [call])) : Clocked start calls ∧ start ≤ call.1.now ∧
      ∀ past ∈ calls, past.1.now ≤ call.1.now := by
  rw [Clocked, List.map_append, ← List.cons_append, List.pairwise_append] at h
  obtain ⟨hpast, -, hle⟩ := h
  refine ⟨hpast, hle start List.mem_cons_self _ (List.mem_singleton_self _), fun past hmem => ?_⟩
  exact hle _ (List.mem_cons_of_mem _ (List.mem_map_of_mem hmem)) _ (List.mem_singleton_self _)

/-! ## After a disconnect -/

/-- No move touches the record of disconnects or the bootnodes. -/
theorem Move.sameRest (h : Move config env m m') :
    m'.recentlyDisconnected = m.recentlyDisconnected ∧ m'.bootnodes = m.bootnodes := by
  cases h with
  | queueDial p address =>
    have hframe := ConnectionManager.sameFrame_queueDial (m := m) env.now p address
    exact ⟨hframe.recentlyDisconnected, hframe.bootnodes⟩
  | processDialQueue =>
    have hframe := m.sameFrame_processDialQueue config env.now
    exact ⟨hframe.recentlyDisconnected, hframe.bootnodes⟩
  | transitionTo s _ =>
    rw [ConnectionManager.transitionTo]
    split <;> exact ⟨rfl, rfl⟩
  | prune =>
    rcases m.pruneExcessPeers_cases config env with heq | ⟨_, _, _, _, _, _, heq⟩ <;>
      · rw [heq]
        exact ⟨rfl, rfl⟩
  | discover | bootstrap | withStore _ _ | cleanup => exact ⟨rfl, rfl⟩

/-- The disconnect a call reports, with the time. -/
def closeOf (call : Env P × Call P) : Option (Nat × P) :=
  match call.2 with
  | .connectionClosed p => some (call.1.now, p)
  | _ => none

/-- A reported disconnect is three seconds old, or the record still has one that is no more
than two seconds older. -/
def Resting (closes : List (Nat × P)) (now : Nat) (m : ConnectionManager P) : Prop :=
  ∀ close ∈ closes, close.1 + 3 * SECOND ≤ now ∨
    ∃ time, m.recentlyDisconnected.lookup close.2 = some time ∧ time ≤ now ∧
      close.1 < time + 2 * SECOND

namespace Resting

variable {closes : List (Nat × P)} {now later : Nat}

theorem mono (h : Resting closes now m) (hle : now ≤ later) : Resting closes later m := by
  intro close hclose
  rcases h close hclose with hold | ⟨time, hlookup, hpast, hrecent⟩
  · exact .inl (hold.trans hle)
  · exact .inr ⟨time, hlookup, hpast.trans hle, hrecent⟩

theorem of_eq (h : Resting closes now m)
    (heq : m'.recentlyDisconnected = m.recentlyDisconnected) : Resting closes now m' := by
  rw [Resting, heq]
  exact h

/-- What is forgotten after five seconds is then five seconds old. -/
theorem forget (h : Resting closes now m) : Resting closes now (m.forgetDisconnects now) := by
  intro close hclose
  rcases h close hclose with hold | ⟨time, hlookup, hpast, hrecent⟩
  · exact .inl hold
  · by_cases hkeep : now - time < 5 * SECOND
    · refine .inr ⟨time, ?_, hpast, hrecent⟩
      exact (Column.lookup_filter _ _ _).trans
        (by rw [hlookup, Option.filter_some, if_pos (decide_eq_true hkeep)])
    · exact .inl (by omega)

/-- A new entry stands for the older ones of its peer. -/
theorem mark (h : Resting closes now m) (p : P) :
    Resting (closes ++ [(now, p)]) now (m.markClosed now p) := by
  have hsecond := second_pos
  intro close hclose
  by_cases hp : close.2 = p
  · rcases List.mem_append.mp hclose with hmem | hmem
    · rcases h close hmem with hold | ⟨time, -, hpast, hrecent⟩
      · exact .inl hold
      · exact .inr ⟨now, by rw [hp]; exact Finmap.lookup_insert _, le_rfl, by omega⟩
    · rw [List.mem_singleton.mp hmem]
      exact .inr ⟨now, Finmap.lookup_insert _, le_rfl, by omega⟩
  · rcases List.mem_append.mp hclose with hmem | hmem
    · rcases h close hmem with hold | ⟨time, hlookup, hpast, hrecent⟩
      · exact .inl hold
      · exact .inr ⟨time, (Finmap.lookup_insert_of_ne _ hp).trans hlookup, hpast, hrecent⟩
    · exact absurd (by rw [List.mem_singleton.mp hmem]) hp

/-- A repeated report has its entry already. -/
theorem again {p : P} (h : Resting closes now m) (hpast : ∀ time,
    m.recentlyDisconnected.lookup p = some time → time ≤ now)
    (hdup : m.isDuplicateClose now p = true) : Resting (closes ++ [(now, p)]) now m := by
  intro close hclose
  rcases List.mem_append.mp hclose with hmem | hmem
  · exact h close hmem
  · rw [ConnectionManager.isDuplicateClose] at hdup
    rw [List.mem_singleton.mp hmem]
    cases hlookup : m.recentlyDisconnected.lookup p with
    | none =>
      rw [hlookup] at hdup
      cases hdup
    | some time =>
      rw [hlookup] at hdup
      have hage := of_decide_eq_true hdup
      have hle := hpast time hlookup
      exact .inr ⟨time, rfl, hle, by dsimp only; omega⟩

end Resting

/-- The record of disconnects holds no time to come. -/
def Recorded (now : Nat) (m : ConnectionManager P) : Prop :=
  ∀ p time, m.recentlyDisconnected.lookup p = some time → time ≤ now

theorem recorded_forget {now : Nat} (h : Recorded now m) :
    Recorded now (m.forgetDisconnects now) := by
  intro p time hlookup
  have hfilter : (m.recentlyDisconnected.lookup p).filter
      (fun time => decide (now - time < 5 * SECOND)) = some time :=
    (Column.lookup_filter (fun (_ : P) (time : Nat) => decide (now - time < 5 * SECOND))
      m.recentlyDisconnected p).symm.trans hlookup
  exact h p time (Option.filter_eq_some_iff.mp hfilter).1

/-- The opening of a call puts its disconnect on record. -/
theorem resting_opening (config : ConnectionManagerConfig) {closes : List (Nat × P)}
    (call : Env P × Call P) (h : Resting closes call.1.now m) (hrec : Recorded call.1.now m) :
    Resting (closes ++ (closeOf call).toList) call.1.now (call.2.opening config m call.1) ∧
      Recorded call.1.now (call.2.opening config m call.1) := by
  obtain ⟨env, c⟩ := call
  have hother : closes ++ (none : Option (Nat × P)).toList = closes := List.append_nil _
  cases c with
  | connectionClosed p =>
    have hforget := h.forget
    have hrecf := recorded_forget hrec
    show Resting (closes ++ [(env.now, p)]) env.now _ ∧ _
    rw [Call.opening]
    split
    · next hdup => exact ⟨hforget.again (hrecf p) hdup, hrecf⟩
    · refine ⟨hforget.mark p, fun p' time hlookup => ?_⟩
      change ((m.forgetDisconnects env.now).recentlyDisconnected.insert p env.now).lookup p'
        = some time at hlookup
      by_cases hp : p' = p
      · rw [hp, Finmap.lookup_insert] at hlookup
        exact (Option.some.inj hlookup).ge
      · rw [Finmap.lookup_insert_of_ne _ hp] at hlookup
        exact hrecf p' time hlookup
  | connectionEstablished p address isInbound =>
    cases isInbound <;> exact ⟨by rw [closeOf, hother]; exact h.of_eq rfl, hrec⟩
  | peerDiscovered p addresses =>
    rw [closeOf, hother, Call.opening]
    split <;> exact ⟨h.of_eq rfl, hrec⟩
  | pingResult p answered =>
    cases answered <;> exact ⟨by rw [closeOf, hother]; exact h.of_eq rfl, hrec⟩
  | addBootnode _ _ | start | queueDial _ _ | dialFailure _ | wrongPeerId _
  | peerIdentified _ _ _ | kademliaBootstrapComplete | tick | shutdown =>
    exact ⟨by rw [closeOf, hother]; exact h.of_eq rfl, hrec⟩

/-- The disconnects reported by some calls. -/
def closes (calls : List (Env P × Call P)) : List (Nat × P) := calls.filterMap closeOf

theorem closes_snoc (calls : List (Env P × Call P)) (call : Env P × Call P) :
    closes (calls ++ [call]) = closes calls ++ (closeOf call).toList := by
  rw [closes, List.filterMap_append, closes]
  cases h : closeOf call <;> simp [h]

theorem resting_run (config : ConnectionManagerConfig) {start now : Nat}
    {calls : List (Env P × Call P)} (h : Clocked start calls)
    (hnow : ∀ call ∈ calls, call.1.now ≤ now) :
    Resting (closes calls) now (run config start calls) ∧
      Recorded now (run config start calls) := by
  induction calls using List.reverseRecOn generalizing now with
  | nil =>
    refine ⟨fun close hclose => absurd hclose List.not_mem_nil, fun p time hlookup => ?_⟩
    have hnone : none = some time := (Finmap.lookup_empty p).symm.trans hlookup
    cases hnone
  | append_singleton calls call ih =>
    obtain ⟨hpast, -, hle⟩ := h.snoc
    obtain ⟨hrest, hrec⟩ := ih hpast hle
    obtain ⟨hrest, hrec⟩ := resting_opening config call hrest hrec
    have hlast : call.1.now ≤ now := hnow call (by simp)
    rw [closes_snoc, run_snoc]
    have hcall := Call.rule (I := fun m => Resting (closes calls ++ (closeOf call).toList) call.1.now m ∧
        Recorded call.1.now m) call.2
      (fun m m' hm hmove => ⟨hm.1.of_eq hmove.sameRest.1, by
        rw [Recorded, hmove.sameRest.1]
        exact hm.2⟩) ⟨hrest, hrec⟩
    exact ⟨hcall.1.mono hlast, fun p time hlookup => (hcall.2 p time hlookup).trans hlast⟩

/-- A peer that is not a bootnode is dialled at the earliest three seconds after every disconnect
reported of it, the one of the very call included. -/
theorem redial_waits (config : ConnectionManagerConfig) (start : Nat)
    (calls : List (Env P × Call P)) (call : Env P × Call P)
    (hclock : Clocked start (calls ++ [call])) :
    ∃ ds, (run config start (calls ++ [call])).dials = (run config start calls).dials ++ ds ∧
      ∀ x ∈ ds, x.1 ∉ (run config start (calls ++ [call])).bootnodes →
        ∀ close ∈ closes (calls ++ [call]), close.2 = x.1 →
          close.1 + 3 * SECOND ≤ call.1.now := by
  obtain ⟨hpast, -, hle⟩ := hclock.snoc
  obtain ⟨hrest, hrec⟩ := resting_run config hpast hle
  obtain ⟨hrest, -⟩ := resting_opening config call hrest hrec
  rw [closes_snoc, run_snoc]
  generalize closes calls ++ (closeOf call).toList = cs at hrest
  suffices h : Resting cs call.1.now (call.2.apply config (run config start calls) call.1) ∧
      ∃ ds, (call.2.apply config (run config start calls) call.1).dials
          = (run config start calls).dials ++ ds ∧
        ∀ x ∈ ds, x.1 ∉ (call.2.apply config (run config start calls) call.1).bootnodes →
          ∀ close ∈ cs, close.2 = x.1 → close.1 + 3 * SECOND ≤ call.1.now from h.2
  refine call.2.rule (I := fun m => Resting cs call.1.now m ∧ ∃ ds,
      m.dials = (run config start calls).dials ++ ds ∧ ∀ x ∈ ds, x.1 ∉ m.bootnodes →
        ∀ close ∈ cs, close.2 = x.1 → close.1 + 3 * SECOND ≤ call.1.now)
    (fun m m' h hmove => ?_) ⟨hrest, [], ?_, fun x hx => absurd hx List.not_mem_nil⟩
  · obtain ⟨hresting, ds, hdials, hall⟩ := h
    refine ⟨hresting.of_eq hmove.sameRest.1, ?_⟩
    rw [hmove.sameRest.2]
    rcases hmove.dials with ⟨hsame, -⟩ | ⟨passed, ds', hr⟩
    · exact ⟨ds, hsame.trans hdials, hall⟩
    · refine ⟨ds ++ ds', by rw [hr.dials, hdials, List.append_assoc], fun x hx hboot => ?_⟩
      rcases List.mem_append.mp hx with hx | hx
      · exact hall x hx hboot
      · intro close hclose hp
        rcases hresting close hclose with hold | ⟨time, hlookup, hbefore, hrecent⟩
        · exact hold
        · -- the loop has looked at the entry: it is thirty seconds old
          have hgrace := hr.grace x hx hboot
          rw [ConnectionManager.isRecentlyDisconnected, ← hp, hlookup] at hgrace
          have hage := of_decide_eq_false hgrace
          omega
  · rw [ConnectionManager.dials, (call.2.opened ..).outbox, List.append_nil]
    rfl

/-- Peer 7 closes, and at the end is dialled seven seconds later: the close of peer 8 has taken
its entry off the record. -/
theorem redial_waits_sample :
    (run sampleConfig 0 ([(sampleEnv 1, .connectionClosed 7), (sampleEnv 6, .connectionClosed 8),
      discovered 7 7] ++ [ticked 8])).dials = [(7, "/ip4/8.8.8.8/tcp/9000")] ∧
    ∃ ds, (run sampleConfig 0 ([(sampleEnv 1, .connectionClosed 7),
        (sampleEnv 6, .connectionClosed 8), discovered 7 7] ++ [ticked 8])).dials
      = (run sampleConfig 0 [(sampleEnv 1, .connectionClosed 7),
        (sampleEnv 6, .connectionClosed 8), discovered 7 7]).dials ++ ds ∧
      ∀ x ∈ ds, x.1 ∉ (run sampleConfig 0 ([(sampleEnv 1, .connectionClosed 7),
        (sampleEnv 6, .connectionClosed 8), discovered 7 7] ++ [ticked 8])).bootnodes →
          ∀ close ∈ closes ([(sampleEnv 1, .connectionClosed 7),
            (sampleEnv 6, .connectionClosed 8), discovered 7 7] ++ [ticked 8]), close.2 = x.1 →
              close.1 + 3 * SECOND ≤ (ticked 8).1.now :=
  ⟨by decide +kernel, redial_waits sampleConfig 0 _ _ (by rw [Clocked]; decide +kernel)⟩

/-! ## After a wrong peer id -/

/-- A peer of whom a wrong id was reported at `since` or later. -/
def Wrong (p : P) (since : Nat) (m : ConnectionManager P) : Prop :=
  ∃ time, m.wrongPeerIdPeers.lookup p = some time ∧ since ≤ time

namespace Wrong

variable {p : P} {since : Nat}

theorem move (h : Wrong p since m) (hnow : env.now < since + 1800 * SECOND)
    (hmove : Move config env m m') : Wrong p since m' := by
  have hsame : m'.wrongPeerIdPeers = m.wrongPeerIdPeers ∨
      m' = m.cleanupWrongPeerIdEntries env.now := by
    cases hmove with
    | queueDial p address =>
      rcases m.queueDial_cases env.now p address with heq | ⟨-, -, -, -, heq⟩ <;>
        · rw [heq]
          exact .inl rfl
    | processDialQueue => exact .inl (m.sameFrame_processDialQueue config env.now).wrongPeerIdPeers
    | transitionTo s _ =>
      rw [ConnectionManager.transitionTo]
      split <;> exact .inl rfl
    | prune =>
      rcases m.pruneExcessPeers_cases config env with heq | ⟨_, _, _, _, _, _, heq⟩ <;>
        · rw [heq]
          exact .inl rfl
    | cleanup => exact .inr rfl
    | discover | bootstrap | withStore _ _ => exact .inl rfl
  rcases hsame with hsame | rfl
  · rw [Wrong, hsame]
    exact h
  · -- the entry is not old enough to go
    obtain ⟨time, hlookup, hle⟩ := h
    have hsecond := second_pos
    refine ⟨time, (Column.lookup_filter _ _ _).trans ?_, hle⟩
    rw [hlookup, Option.filter_some, if_pos (decide_eq_true (by omega))]

theorem opening (h : Wrong p since m) (hnow : since ≤ env.now) (c : Call P) :
    Wrong p since (c.opening config m env) := by
  cases c with
  | wrongPeerId q =>
    by_cases hq : p = q
    · rw [hq]
      exact ⟨env.now, Finmap.lookup_insert _, hnow⟩
    · obtain ⟨time, hlookup, hle⟩ := h
      exact ⟨time, (Finmap.lookup_insert_of_ne _ hq).trans hlookup, hle⟩
  | connectionEstablished _ _ isInbound => cases isInbound <;> exact h
  | connectionClosed _ =>
    rw [Call.opening]
    split <;> exact h
  | pingResult _ answered => cases answered <;> exact h
  | peerDiscovered _ _ =>
    rw [Call.opening]
    split <;> exact h
  | addBootnode _ _ | start | queueDial _ _ | dialFailure _ | peerIdentified _ _ _
  | kademliaBootstrapComplete | tick | shutdown => exact h

end Wrong

/-- A peer whose address led to someone else is not dialled by the event loop for half an hour,
whatever is reported of it meanwhile, unless it is a bootnode. -/
theorem skipped_after_wrongPeerId (config : ConnectionManagerConfig) (start : Nat)
    (before after : List (Env P × Call P)) (env : Env P) (p : P) (now : Nat)
    (hclock : Clocked start (before ++ (env, .wrongPeerId p) :: after))
    (hpast : ∀ call ∈ after, call.1.now ≤ now) (hnow : now < env.now + 1800 * SECOND)
    (hboot : p ∉ (run config start (before ++ (env, .wrongPeerId p) :: after)).bootnodes) :
    (run config start (before ++ (env, .wrongPeerId p) :: after)).shouldSkipDial now p = true := by
  have hwrong : Wrong p env.now
      (run config start (before ++ (env, .wrongPeerId p) :: after)) := by
    clear hboot
    induction after using List.reverseRecOn with
    | nil =>
      rw [run_snoc]
      exact ⟨env.now, Finmap.lookup_insert _, le_rfl⟩
    | append_singleton after call ih =>
      rw [← List.cons_append, ← List.append_assoc] at hclock ⊢
      obtain ⟨hbefore, -, hle⟩ := hclock.snoc
      have hstep := ih hbefore fun call' hmem => hpast call' (List.mem_append_left _ hmem)
      have hlast : call.1.now ≤ now := hpast call (by simp)
      rw [run_snoc]
      refine call.2.rule (fun m m' h hmove => h.move (by omega) hmove) (hstep.opening ?_ call.2)
      exact hle (env, .wrongPeerId p) (by simp)
  obtain ⟨time, hlookup, hle⟩ := hwrong
  have hsecond := second_pos
  rw [ConnectionManager.shouldSkipDial, if_neg hboot, hlookup, Option.any_some,
    if_pos (decide_eq_true (by omega))]

/-- Half an hour less a second after the report. -/
theorem skipped_after_wrongPeerId_sample :
    (run sampleConfig 0 ([discovered 1 7] ++ (sampleEnv 2, .wrongPeerId 7) ::
      [discovered 900 7, ticked 1801])).shouldSkipDial (1801 * SECOND) 7 = true :=
  skipped_after_wrongPeerId sampleConfig 0 _ _ (sampleEnv 2) 7 _ (by rw [Clocked]; decide +kernel)
    (by decide +kernel) (by decide) (by decide +kernel)

/-! ## Pruning -/

/-- A move keeps the peers, and names peers to disconnect in a round of pruning alone. -/
theorem Move.prunes (h : Move config env m m') : m.peerStore.Keeps m'.peerStore ∧
    ((∃ new, m'.outbox = m.outbox ++ new ∧ m'.lastPrune = m.lastPrune ∧
      ∀ x ∈ new, ∀ peers, x.2 ≠ .disconnectPeers peers) ∨ m' = m.pruneExcessPeers config env) := by
  have hsame : ∀ {m : ConnectionManager P}, m.peerStore.Keeps m.peerStore :=
    PeerStore.Keeps.of_eq rfl
  cases h with
  | queueDial p address =>
    rcases m.queueDial_cases env.now p address with heq | ⟨-, -, -, -, heq⟩ <;>
      · rw [heq]
        exact ⟨hsame, .inl ⟨[], (List.append_nil _).symm, rfl, by simp⟩⟩
  | processDialQueue =>
    obtain ⟨passed, ds, hr⟩ := m.round_processDialQueue config env.now
    have hframe := m.sameFrame_processDialQueue config env.now
    refine ⟨hr.store, .inl ⟨_, hr.outbox, hframe.lastPrune, fun x hx peers => ?_⟩⟩
    split_ifs at hx
    · exact absurd hx List.not_mem_nil
    · rw [List.mem_singleton.mp hx]
      simp
  | transitionTo s _ =>
    rw [ConnectionManager.transitionTo]
    split
    · exact ⟨hsame, .inl ⟨_, rfl, rfl, by simp⟩⟩
    · exact ⟨hsame, .inl ⟨[], (List.append_nil _).symm, rfl, by simp⟩⟩
  | prune =>
    refine ⟨?_, .inr rfl⟩
    rcases m.pruneExcessPeers_cases config env with heq | ⟨_, _, _, _, _, _, heq⟩ <;>
      · rw [heq]
        exact hsame
  | discover | bootstrap => exact ⟨hsame, .inl ⟨_, rfl, rfl, by simp⟩⟩
  | withStore s hkeeps =>
    exact ⟨hkeeps, .inl ⟨[], (List.append_nil _).symm, rfl, by simp⟩⟩
  | cleanup => exact ⟨hsame, .inl ⟨[], (List.append_nil _).symm, rfl, by simp⟩⟩

/-- Every bootnode is known, and known to be one. -/
def Flagged (m : ConnectionManager P) : Prop :=
  ∀ p ∈ m.bootnodes, ∃ d, m.peerStore.peers.lookup p = some d ∧ d.isBootnode = true

/-- An opening forgets nobody and takes no flag away. -/
theorem Call.Opened.known {c : Call P} (h : c.Opened m m') {p : P} {d : PeerData}
    (hd : m.peerStore.peers.lookup p = some d) :
    ∃ d', m'.peerStore.peers.lookup p = some d' ∧ (d.isBootnode = true → d'.isBootnode = true) := by
  rcases h.store with ⟨-, hmarks⟩ | ⟨x, -, -, hmarks⟩
  · exact hmarks.known p d hd
  · exact hmarks.known p d hd

/-- Only `add_bootnode` adds a bootnode. -/
theorem Call.bootnodes_opening (c : Call P) (config : ConnectionManagerConfig) (env : Env P)
    (m : ConnectionManager P) : (c.opening config m env).bootnodes = m.bootnodes ∨
    ∃ p addresses, c = .addBootnode p addresses := by
  cases c with
  | addBootnode p addresses => exact .inr ⟨p, addresses, rfl⟩
  | connectionEstablished p address isInbound => cases isInbound <;> exact .inl rfl
  | connectionClosed p =>
    rw [Call.opening]
    split <;> exact .inl rfl
  | pingResult p answered => cases answered <;> exact .inl rfl
  | peerDiscovered p addresses =>
    rw [Call.opening]
    split <;> exact .inl rfl
  | start | queueDial _ _ | dialFailure _ | wrongPeerId _ | peerIdentified _ _ _
  | kademliaBootstrapComplete | tick | shutdown => exact .inl rfl

theorem flagged_opening (config : ConnectionManagerConfig) (env : Env P) (c : Call P)
    (h : Flagged m) : Flagged (c.opening config m env) := by
  have hopened := c.opened config env m
  have hold : ∀ p ∈ m.bootnodes, ∃ d,
      (c.opening config m env).peerStore.peers.lookup p = some d ∧ d.isBootnode = true := by
    intro p hp
    obtain ⟨d, hd, hboot⟩ := h p hp
    obtain ⟨d', hd', himp⟩ := hopened.known hd
    exact ⟨d', hd', himp hboot⟩
  rcases c.bootnodes_opening config env m with
    heq | ⟨p, addresses, rfl⟩
  · rw [Flagged, heq]
    exact hold
  · intro p' hp'
    rcases Finmap.mem_insert.mp hp' with rfl | hp'
    · -- the new one: it has a record, which is flagged before the addresses are added
      have hflag : ∃ d, (((m.peerStore.addBootnode p').upsertPeer env.now p').modify p' fun d =>
          { d with isBootnode := true }).peers.lookup p' = some d ∧ d.isBootnode = true := by
        obtain ⟨d, hd⟩ := PeerStore.lookup_upsertPeer (m.peerStore.addBootnode p') env.now p'
        rw [PeerStore.lookup_modify, if_pos rfl, hd]
        exact ⟨_, rfl, rfl⟩
      obtain ⟨d, hd, hboot⟩ := hflag
      obtain ⟨d', hd', himp⟩ := (PeerStore.marks_addAddresses (x := none) addresses).known p' d hd
      exact ⟨d', hd', himp hboot⟩
    · exact hold p' hp'

/-- Every bootnode is known to be one, in every run. -/
theorem flagged_run (config : ConnectionManagerConfig) (start : Nat)
    (calls : List (Env P × Call P)) : Flagged (run config start calls) := by
  refine run_rule start (fun p hp => absurd hp Finmap.notMem_empty)
    (fun m env c h => flagged_opening config env c h) (fun env m m' h hmove p hp => ?_) calls
  rw [hmove.sameRest.2] at hp
  obtain ⟨d, hd, hboot⟩ := h p hp
  obtain ⟨d', hd', hkept⟩ := hmove.prunes.1.lookup hd
  exact ⟨d', hd', hkept.1.trans hboot⟩

/-- A fair choice of peers to disconnect, after `past` was sent and from the manager `m`. -/
structure FairPrune (config : ConnectionManagerConfig) (now : Nat)
    (past : List (Nat × ConnectionEvent P)) (m : ConnectionManager P) (peers : List P) : Prop where
  nonempty : peers ≠ []
  nodup : peers.Nodup
  remaining : config.targetPeers + peers.length ≤ m.connected
  spaced : ∀ t peers', (t, .disconnectPeers peers') ∈ past → t + config.minPruneInterval ≤ now
  each : ∀ p ∈ peers, p ∉ m.bootnodes ∧ ∃ d, m.peerStore.peers.lookup p = some d ∧
    d.state = .connected ∧ config.minConnectionAge / SECOND / 60 ≤ d.uptimeMinutes now

/-- What was disconnected was disconnected by the last round, or before it. -/
structure Pruned (now : Nat) (m : ConnectionManager P) : Prop where
  last : ∀ t peers, (t, .disconnectPeers peers) ∈ m.outbox → t ≤ m.lastPrune
  past : m.lastPrune ≤ now

namespace Pruned

variable {now : Nat}

theorem move (h : Pruned env.now m) (hmove : Move config env m m') : Pruned env.now m' := by
  rcases hmove.prunes.2 with ⟨new, hout, hlast, hnew⟩ | rfl
  · refine ⟨fun t peers hmem => ?_, hlast ▸ h.past⟩
    rw [hout] at hmem
    rw [hlast]
    rcases List.mem_append.mp hmem with hmem | hmem
    · exact h.last t peers hmem
    · exact absurd rfl (hnew _ hmem peers)
  · rcases m.pruneExcessPeers_cases config env with heq | ⟨toPrune, -, -, -, -, -, heq⟩
    · rw [heq]
      exact h
    · rw [heq]
      refine ⟨fun t peers hmem => ?_, le_rfl⟩
      rcases List.mem_append.mp hmem with hmem | hmem
      · exact (h.last t peers hmem).trans h.past
      · cases List.mem_singleton.mp hmem
        exact le_rfl

theorem opened {c : Call P} (h : Pruned now m) (ho : c.Opened m m') : Pruned now m' := by
  refine ⟨?_, ?_⟩
  · rw [ho.outbox, ho.lastPrune]
    exact h.last
  · rw [ho.lastPrune]
    exact h.past

end Pruned

/-- The manager `m'` in the course of a call that opened at `m`. -/
structure Since (config : ConnectionManagerConfig) (env : Env P) (m m' : ConnectionManager P) :
    Prop where
  keeps : m.peerStore.Keeps m'.peerStore
  pruned : Pruned env.now m'
  fair : ∃ new, m'.outbox = m.outbox ++ new ∧
    ∀ t peers, (t, .disconnectPeers peers) ∈ new → t = env.now ∧
      FairPrune config env.now m.outbox m peers

namespace Since

theorem start (h : Pruned env.now m) : Since config env m m :=
  ⟨.of_eq rfl, h, [], (List.append_nil _).symm, fun _ _ hmem => absurd hmem List.not_mem_nil⟩

/-- What holds of the peers when they are chosen held of them when the call opened. -/
theorem fairPrune (h : Since config env m m') (hflagged : Flagged m) {toPrune : List P}
    (hnil : toPrune ≠ []) (hnodup : toPrune.Nodup)
    (hinterval : config.minPruneInterval ≤ env.now - m'.lastPrune)
    (hexcess : config.targetPeers + toPrune.length ≤ m'.connected)
    (heach : ∀ p ∈ toPrune, ∃ d, m'.peerStore.peers.lookup p = some d ∧ d.state = .connected ∧
      d.isBootnode = false ∧ config.minConnectionAge / SECOND / 60 ≤ d.uptimeMinutes env.now) :
    FairPrune config env.now m.outbox m toPrune := by
  obtain ⟨new, hout, -⟩ := h.fair
  refine ⟨hnil, hnodup, hexcess.trans h.keeps.connectedCount_le, fun t peers hmem => ?_,
    fun p hp => ?_⟩
  · have hlast := h.pruned.last t peers (by rw [hout]; exact List.mem_append_left _ hmem)
    have hpast := h.pruned.past
    omega
  · obtain ⟨d', hd', hconn, hboot, hage⟩ := heach p hp
    obtain ⟨d, hd, hkept⟩ := h.keeps.lookup_of hd'
    refine ⟨fun hmem => ?_, d, hd, hkept.2.2 hconn, ?_⟩
    · obtain ⟨d₁, hd₁, hboot₁⟩ := hflagged p hmem
      rw [hd] at hd₁
      rw [← Option.some.inj hd₁, ← hkept.1, hboot] at hboot₁
      cases hboot₁
    · rw [PeerData.uptimeMinutes, ← hkept.2.1]
      exact hage

theorem move {m₁ : ConnectionManager P} (h : Since config env m m₁) (hflagged : Flagged m)
    (hmove : Move config env m₁ m') : Since config env m m' := by
  obtain ⟨new, hout, hfair⟩ := h.fair
  refine ⟨h.keeps.trans hmove.prunes.1, h.pruned.move hmove, ?_⟩
  rcases hmove.prunes.2 with ⟨more, hmore, -, hnone⟩ | rfl
  · refine ⟨new ++ more, by rw [hmore, hout, List.append_assoc], fun t peers hmem => ?_⟩
    rcases List.mem_append.mp hmem with hmem | hmem
    · exact hfair t peers hmem
    · exact absurd rfl (hnone _ hmem peers)
  · rcases m₁.pruneExcessPeers_cases config env with
      heq | ⟨toPrune, hnil, hnodup, hinterval, hexcess, heach, heq⟩
    · rw [heq]
      exact ⟨new, hout, hfair⟩
    · refine ⟨new ++ [(env.now, .disconnectPeers toPrune)], ?_, fun t peers hmem => ?_⟩
      · rw [heq, ← List.append_assoc, ← hout]
        rfl
      · rcases List.mem_append.mp hmem with hmem | hmem
        · exact hfair t peers hmem
        · cases List.mem_singleton.mp hmem
          exact ⟨rfl, h.fairPrune hflagged hnil hnodup hinterval hexcess heach⟩

end Since

theorem pruned_run (config : ConnectionManagerConfig) {start now : Nat}
    {calls : List (Env P × Call P)} (h : Clocked start calls) (hstart : start ≤ now)
    (hnow : ∀ call ∈ calls, call.1.now ≤ now) : Pruned now (run config start calls) := by
  induction calls using List.reverseRecOn generalizing now with
  | nil => exact ⟨fun t peers hmem => absurd hmem List.not_mem_nil, hstart⟩
  | append_singleton calls call ih =>
    obtain ⟨hpast, hbegin, hle⟩ := h.snoc
    have hlast : call.1.now ≤ now := hnow call (by simp)
    have hbefore := ih hpast hbegin hle
    rw [run_snoc]
    have hcall := Call.rule (I := Pruned call.1.now) call.2 (fun m m' hm hmove => hm.move hmove)
      (hbefore.opened (call.2.opened config call.1 _))
    exact ⟨hcall.last, hcall.past.trans hlast⟩

/-- Whenever a call makes the manager disconnect peers, in any run, the choice is fair: distinct
peers, connected, old enough and no bootnodes, no more than there are above the target, and no
sooner after the last time than the interval allows. -/
theorem pruned_fairly (config : ConnectionManagerConfig) (start : Nat)
    (calls : List (Env P × Call P)) (call : Env P × Call P)
    (hclock : Clocked start (calls ++ [call])) :
    ∃ new, (run config start (calls ++ [call])).outbox
        = (run config start calls).outbox ++ new ∧
      ∀ t peers, (t, .disconnectPeers peers) ∈ new → t = call.1.now ∧
        FairPrune config call.1.now (run config start calls).outbox
          (call.2.opening config (run config start calls) call.1) peers := by
  obtain ⟨hpast, hbegin, hle⟩ := hclock.snoc
  have hopened := call.2.opened config call.1 (run config start calls)
  have hpruned := (pruned_run config hpast hbegin hle).opened hopened
  have hflagged := flagged_opening config call.1 call.2 (flagged_run config start calls)
  rw [run_snoc]
  refine (call.2.rule (I := fun m' =>
    Since config call.1 (call.2.opening config (run config start calls) call.1) m')
    (fun m m' h hmove => h.move hflagged hmove) (.start hpruned)).fair.imp fun new h => ?_
  rw [hopened.outbox] at h
  exact h

/-- Two peers connect, and the network comes up. -/
def sampleConnected : List (Env Nat × Call Nat) :=
  [(sampleEnv 1, .start), (sampleEnv 2, .connectionEstablished 7 "" true),
    (sampleEnv 3, .peerIdentified 7 "pyrax" []), (sampleEnv 4, .kademliaBootstrapComplete),
    (sampleEnv 5, .connectionEstablished 8 "" true)]

/-- One of them is one too many, and is old enough at the tick. -/
theorem pruned_fairly_sample :
    (run sampleConfig 0 sampleConnected).connected = 2 ∧
    ∃ new, (run sampleConfig 0 (sampleConnected ++ [ticked 200])).outbox
        = (run sampleConfig 0 sampleConnected).outbox ++ new ∧
      ∀ t peers, (t, .disconnectPeers peers) ∈ new → t = (ticked 200).1.now ∧
        FairPrune sampleConfig (ticked 200).1.now (run sampleConfig 0 sampleConnected).outbox
          ((ticked 200).2.opening sampleConfig (run sampleConfig 0 sampleConnected)
            (ticked 200).1) peers :=
  ⟨by decide +kernel, pruned_fairly sampleConfig 0 _ _ (by rw [Clocked]; decide +kernel)⟩

/-! ## The state of the network -/

def ConnectionEvent.newState : ConnectionEvent P → Option NetworkState
  | stateChanged state => some state
  | _ => none

/-- The states that were announced, with the times. -/
def ConnectionManager.history (m : ConnectionManager P) : List (Nat × NetworkState) :=
  m.outbox.filterMap fun sent => sent.2.newState.map fun state => (sent.1, state)

/-- The announced states follow one another from `Starting` to the present one, and the clock of
`FillingPeers` was started with the last of them. -/
structure Told (m : ConnectionManager P) : Prop where
  path : (NetworkState.starting :: m.history.map Prod.snd).IsChain fun a b => a.Follows b ∧ a ≠ b
  state : (NetworkState.starting :: m.history.map Prod.snd).getLast? = some m.state
  since : m.fillingPeersSince
    = if m.state = .fillingPeers then m.history.getLast?.map Prod.fst else none

namespace Told

/-- Other events tell nothing of the state. -/
theorem of_eq {new : List (Nat × ConnectionEvent P)} (h : Told m) (hstate : m'.state = m.state)
    (hsince : m'.fillingPeersSince = m.fillingPeersSince) (hout : m'.outbox = m.outbox ++ new)
    (hnew : ∀ x ∈ new, x.2.newState = none) : Told m' := by
  have hsame : m'.history = m.history := by
    rw [ConnectionManager.history, hout, List.filterMap_append]
    have hnone : (new.filterMap fun sent => sent.2.newState.map fun state => (sent.1, state))
        = [] := by
      rw [List.filterMap_eq_nil_iff]
      intro x hx
      rw [hnew x hx]
      rfl
    rw [hnone, List.append_nil]
    rfl
  exact ⟨by rw [hsame]; exact h.path, by rw [hsame, hstate]; exact h.state,
    by rw [hsame, hstate, hsince]; exact h.since⟩

theorem transitionTo (h : Told m) (now : Nat) {s : NetworkState} (hs : m.state.Follows s) :
    Told (m.transitionTo now s) := by
  rw [ConnectionManager.transitionTo]
  split
  · next hne =>
    have hhistory : ({ m with
        state := s
        fillingPeersSince :=
          if s = NetworkState.fillingPeers then some now else none }.emit now
            (.stateChanged s)).history = m.history ++ [(now, s)] := by
      rw [ConnectionManager.history, ConnectionManager.emit, List.filterMap_append]
      rfl
    refine ⟨?_, ?_, ?_⟩
    · rw [hhistory, List.map_append, ← List.cons_append, List.isChain_append]
      refine ⟨h.path, List.isChain_singleton _, fun a ha b hb => ?_⟩
      rw [h.state] at ha
      cases ha
      cases hb
      exact ⟨hs, hne⟩
    · rw [hhistory, List.map_append, ← List.cons_append]
      exact List.getLast?_concat ..
    · rw [hhistory, List.getLast?_concat]
      rfl
  · exact h

theorem move (h : Told m) (hmove : Move config env m m') : Told m' := by
  cases hmove with
  | queueDial p address =>
    have hframe := ConnectionManager.sameFrame_queueDial (m := m) env.now p address
    rcases m.queueDial_cases env.now p address with heq | ⟨-, -, -, -, heq⟩ <;>
      · rw [heq]
        exact h.of_eq rfl rfl (List.append_nil _).symm (by simp)
  | processDialQueue =>
    obtain ⟨passed, ds, hr⟩ := m.round_processDialQueue config env.now
    have hframe := m.sameFrame_processDialQueue config env.now
    refine h.of_eq hframe.state hframe.fillingPeersSince hr.outbox fun x hx => ?_
    split_ifs at hx
    · exact absurd hx List.not_mem_nil
    · rw [List.mem_singleton.mp hx]
      rfl
  | transitionTo s hs => exact h.transitionTo env.now hs
  | prune =>
    rcases m.pruneExcessPeers_cases config env with heq | ⟨_, _, _, _, _, _, heq⟩
    · rw [heq]
      exact h
    · rw [heq]
      exact h.of_eq rfl rfl rfl (by simp [ConnectionEvent.newState])
  | discover | bootstrap => exact h.of_eq rfl rfl rfl (by simp [ConnectionEvent.newState])
  | withStore _ _ | cleanup => exact h.of_eq rfl rfl (List.append_nil _).symm (by simp)

theorem opening (h : Told m) (c : Call P) : Told (c.opening config m env) := by
  have hopened := c.opened config env m
  exact h.of_eq hopened.state hopened.fillingPeersSince
    (hopened.outbox.trans (List.append_nil _).symm) (by simp)

theorem start (now : Nat) : Told (ConnectionManager.new now : ConnectionManager P) :=
  ⟨List.isChain_singleton _, rfl, rfl⟩

end Told

/-- In every run the `StateChanged` events are a path of the state machine from `Starting` to the
state the manager is in, no state twice in a row, and `filling_peers_since` is the time of the
last event exactly when that is `FillingPeers`. -/
theorem told_run (config : ConnectionManagerConfig) (start : Nat)
    (calls : List (Env P × Call P)) : Told (run config start calls) :=
  run_rule start (.start start) (fun _ _ c h => h.opening c) (fun _ _ _ h hmove => h.move hmove)
    calls

/-- What a tick does first connects and disconnects nobody. -/
theorem connected_tick (config : ConnectionManagerConfig) (m : ConnectionManager P) (now : Nat) :
    (((m.withStore (m.peerStore.cleanup now)).cleanupWrongPeerIdEntries now).processDialQueue
      config now).connected = m.connected := by
  obtain ⟨passed, ds, hr⟩ := ((m.withStore (m.peerStore.cleanup now)).cleanupWrongPeerIdEntries
    now).round_processDialQueue config now
  have hcleanup : ∀ p, m.peerStore.isConnected p = true →
      (m.peerStore.cleanup now).isConnected p = true := by
    intro p hp
    rw [PeerStore.isConnected] at hp ⊢
    rw [PeerStore.lookup_cleanup]
    cases hd : m.peerStore.peers.lookup p with
    | none =>
      rw [hd] at hp
      cases hp
    | some d =>
      rw [hd] at hp
      have hstate := of_decide_eq_true hp
      dsimp only [Option.map_some]
      rw [if_neg (by simp [hstate])]
      exact hp
  refine le_antisymm ?_ ?_
  · exact ((PeerStore.keeps_cleanup now).trans hr.store).connectedCount_le
  · refine PeerStore.connectedCount_le fun p hp => ?_
    refine Bool.eq_false_iff.mpr fun hc => ?_
    rw [Bool.eq_false_iff] at hp
    exact hp (hr.connected p (hcleanup p hc))

/-- The manager does not stay in `FillingPeers` while a peer is connected: the first tick more than
sixty seconds after it announced the state takes it to `Maintaining`. -/
theorem filling_ends (config : ConnectionManagerConfig) (start : Nat)
    (calls : List (Env P × Call P)) (env : Env P)
    (hstate : (run config start calls).state = .fillingPeers)
    (hconn : 1 ≤ (run config start calls).connected) :
    ∃ since, (run config start calls).history.getLast? = some (since, .fillingPeers) ∧
      (since + 60 * SECOND < env.now →
        (run config start (calls ++ [(env, .tick)])).state = .maintaining) := by
  have htold : Told (run config start calls) :=
    run_rule start (.start start) (fun _ _ c h => h.opening c) (fun _ _ _ h hmove => h.move hmove)
      calls
  rw [run_snoc]
  generalize run config start calls = m at hstate hconn htold ⊢
  have hlast := htold.state
  rw [hstate] at hlast
  -- the history is not empty, for the state is not the first
  rcases List.eq_nil_or_concat m.history with hnil | ⟨past, ⟨since, s⟩, hhistory⟩
  · rw [hnil] at hlast
    cases hlast
  · rw [List.concat_eq_append] at hhistory
    rw [hhistory, List.map_append, ← List.cons_append] at hlast
    obtain rfl : s = .fillingPeers := Option.some.inj ((List.getLast?_concat ..).symm.trans hlast)
    have hsince := htold.since
    rw [if_pos hstate, hhistory, List.getLast?_concat] at hsince
    refine ⟨since, by rw [hhistory]; exact List.getLast?_concat .., fun hlate => ?_⟩
    have hconnected := connected_tick config m env.now
    have hframe := ((m.withStore (m.peerStore.cleanup env.now)).cleanupWrongPeerIdEntries
      env.now).sameFrame_processDialQueue config env.now
    show (m.tick config env).state = .maintaining
    rw [ConnectionManager.tick]
    generalize ((m.withStore (m.peerStore.cleanup env.now)).cleanupWrongPeerIdEntries
      env.now).processDialQueue config env.now = m₁ at hconnected hframe ⊢
    have hstate₁ : m₁.state = .fillingPeers := hframe.state.trans hstate
    have hsince₁ : m₁.fillingPeersSince = some since := hframe.fillingPeersSince.trans hsince
    have hdiffer : m₁.state ≠ .maintaining := by
      rw [hstate₁]
      decide
    rw [ConnectionManager.tickState, hstate₁]
    dsimp only
    by_cases hmin : config.minPeers ≤ m₁.connected
    · rw [if_pos hmin, ConnectionManager.transitionTo, if_pos hdiffer]
      rfl
    · rw [if_neg hmin, hconnected, hsince₁, if_pos ⟨hconn, by
        rw [Option.any_some]
        exact decide_eq_true (by omega)⟩, ConnectionManager.transitionTo, if_pos hdiffer]
      rfl

/-- One peer of two connected, and the minute is over. -/
theorem filling_ends_sample :
    ∃ since, (run sampleConfig 0 (sampleConnected.take 4)).history.getLast?
        = some (since, .fillingPeers) ∧
      (since + 60 * SECOND < (sampleEnv 65).now →
        (run sampleConfig 0 (sampleConnected.take 4 ++ [(sampleEnv 65, .tick)])).state
          = .maintaining) :=
  filling_ends sampleConfig 0 _ (sampleEnv 65) (by decide +kernel) (by decide +kernel)

end Pyrax.P2p
