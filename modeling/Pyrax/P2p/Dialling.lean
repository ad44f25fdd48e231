import Mathlib.Data.Finset.Card
import Mathlib.Data.List.Nodup
import Mathlib.Data.List.Count
import Pyrax.P2p.Moves

/-!
# The dials of the connection manager

Results over whole runs of the manager, from a new one and whatever calls come in: what is
in the dial queue, being dialled and sent out (`dialSafe_run`), and that a slot of the dialling
set is given back by the swarm's events alone (`dials_answered`, `dials_starve`).
-/

namespace Pyrax.P2p

open Base

variable {P : Type} [DecidableEq P] {config : ConnectionManagerConfig} {env : Env P}
  {m m' : ConnectionManager P}

/-! ## Runs -/

/-- What holds after the opening and through every move holds after the call. -/
theorem Call.rule {I : ConnectionManager P → Prop} (c : Call P)
    (hmove : ∀ m m', I m → Move config env m m' → I m') (h : I (c.opening config m env)) :
    I (c.apply config m env) := by
  have hmoves : Moves config env (c.opening config m env) (c.apply config m env) := c.moves
  generalize c.apply config m env = m' at hmoves
  induction hmoves with
  | refl => exact h
  | tail _ hlast ih => exact hmove _ _ ih hlast

/-- The manager after some calls. -/
def run (config : ConnectionManagerConfig) (start : Nat) (calls : List (Env P × Call P)) :
    ConnectionManager P :=
  calls.foldl (fun m call => call.2.apply config m call.1) (.new start)

theorem run_snoc (config : ConnectionManagerConfig) (start : Nat) (calls : List (Env P × Call P))
    (call : Env P × Call P) : run config start (calls ++ [call])
      = call.2.apply config (run config start calls) call.1 := by
  rw [run, List.foldl_append]
  rfl

/-- What every opening and every move keeps holds of every run. -/
theorem run_rule {I : ConnectionManager P → Prop} (start : Nat) (hnew : I (.new start))
    (hopen : ∀ m env (c : Call P), I m → I (c.opening config m env))
    (hmove : ∀ env m m', I m → Move config env m m' → I m') (calls : List (Env P × Call P)) :
    I (run config start calls) := by
  induction calls using List.reverseRecOn with
  | nil => exact hnew
  | append_singleton calls call ih =>
    rw [run_snoc]
    exact call.2.rule (hmove call.1) (hopen _ _ _ ih)

/-! ## What goes out -/

def ConnectionEvent.dials : ConnectionEvent P → List (P × String)
  | dialPeers peers => peers
  | _ => []

/-- Every dial asked for, in order. -/
def ConnectionManager.dials (m : ConnectionManager P) : List (P × String) :=
  m.outbox.flatMap fun sent => sent.2.dials

/-- No address at all, or one that passes the test. -/
def Dialable (address : String) : Prop := address = "" ∨ isRoutableAddress address = true

instance (address : String) : Decidable (Dialable address) :=
  inferInstanceAs (Decidable (_ ∨ _))

/-! ## One round of the dial queue -/

/-- What a round of `process_dial_queue` does: it takes `passed` off the queue and dials `ds`. -/
structure Round (config : ConnectionManagerConfig) (now : Nat) (m m' : ConnectionManager P)
    (passed : List (DialEntry P)) (ds : List (P × String)) : Prop where
  queue : m.dialQueue = passed ++ m'.dialQueue
  drawn : ∀ x ∈ ds, ∃ e ∈ passed, x = (e.peerId, e.address)
  idle : ∀ x ∈ ds, x.1 ∉ m.dialing ∧ m.peerStore.isConnected x.1 = false
  grace : ∀ x ∈ ds, x.1 ∉ m.bootnodes → m.isRecentlyDisconnected now x.1 = false
  nodup : (ds.map Prod.fst).Nodup
  room : ds.length ≤ config.maxConcurrentDials - m.dialing.card
  dialing : m'.dialing = m.dialing ∪ (ds.map Prod.fst).toFinset
  attempts : m'.dialAttempts = m.dialAttempts + UInt64.ofNat ds.length
  store : m.peerStore.Keeps m'.peerStore
  connected : ∀ p, m.peerStore.isConnected p = true → m'.peerStore.isConnected p = true
  outbox : m'.outbox = m.outbox ++ if ds = [] then [] else [(now, .dialPeers ds)]

theorem Round.nothing {now : Nat} (m : ConnectionManager P) : Round config now m m [] [] where
  queue := rfl
  drawn := fun _ hx => absurd hx List.not_mem_nil
  idle := fun _ hx => absurd hx List.not_mem_nil
  grace := fun _ hx => absurd hx List.not_mem_nil
  nodup := List.nodup_nil
  room := Nat.zero_le _
  dialing := (Finset.union_empty _).symm
  attempts := (UInt64.add_zero _).symm
  store := .of_eq rfl
  connected := fun _ hp => hp
  outbox := (List.append_nil _).symm

namespace ConnectionManager

theorem keeps_beginDial (p : P) : m.peerStore.Keeps (m.beginDial p).peerStore :=
  PeerStore.keeps_modify fun _ => ⟨rfl, rfl, fun h => absurd h (by simp)⟩

theorem isConnected_beginDial {p p' : P} (h : p' ≠ p) :
    (m.beginDial p).peerStore.isConnected p' = m.peerStore.isConnected p' := by
  rw [PeerStore.isConnected, PeerStore.isConnected, beginDial, PeerStore.lookup_modify, if_neg h]

/-- What the loop has done when it has come to the rest `q` of the queue. -/
private structure Looped (config : ConnectionManagerConfig) (now : Nat)
    (m m₁ : ConnectionManager P) (ds : List (P × String)) (q : List (DialEntry P)) : Prop where
  round : ∃ passed, Round config now m { m₁ with
    dialQueue := q, outbox := m.outbox ++ if ds = [] then [] else [(now, .dialPeers ds)] } passed ds
  outbox : m₁.outbox = m.outbox
  frame : SameFrame m m₁
  others : ∀ p ∉ m₁.dialing, m₁.peerStore.isConnected p = m.peerStore.isConnected p

private theorem Looped.skip {now : Nat} {m₁ : ConnectionManager P} {ds : List (P × String)}
    {e : DialEntry P} {q : List (DialEntry P)} (h : Looped config now m m₁ ds (e :: q)) :
    Looped config now m m₁ ds q := by
  obtain ⟨⟨passed, hr⟩, hout, hframe, hothers⟩ := h
  refine ⟨⟨passed ++ [e], ?_, fun x hx => ?_, hr.idle, hr.grace, hr.nodup, hr.room, hr.dialing,
    hr.attempts, hr.store, hr.connected, rfl⟩, hout, hframe, hothers⟩
  · rw [List.append_assoc]
    exact hr.queue
  · obtain ⟨e', he', heq⟩ := hr.drawn x hx
    exact ⟨e', List.mem_append_left _ he', heq⟩

private theorem Looped.dial {now : Nat} {m₁ : ConnectionManager P} {ds : List (P × String)}
    {e : DialEntry P} {q : List (DialEntry P)} (h : Looped config now m m₁ ds (e :: q))
    (hroom : ds.length < config.maxConcurrentDials - m.dialing.card)
    (hskip : ¬ m₁.skips config now e) :
    Looped config now m (m₁.beginDial e.peerId) (ds ++ [(e.peerId, e.address)]) q := by
  obtain ⟨⟨passed, hr⟩, hout, hframe, hothers⟩ := h
  have hskips : m₁.skips config now e = false := Bool.eq_false_of_not_eq_true hskip
  rw [skips] at hskips
  simp only [Bool.or_eq_false_iff, decide_eq_false_iff_not, Bool.and_eq_false_iff] at hskips
  obtain ⟨⟨⟨hdialing, hconn⟩, -⟩, hgrace⟩ := hskips
  have hdial : m₁.dialing = m.dialing ∪ (ds.map Prod.fst).toFinset := hr.dialing
  have hnot : e.peerId ∉ m.dialing ∧ e.peerId ∉ ds.map Prod.fst := by
    rw [hdial, Finset.mem_union, List.mem_toFinset, not_or] at hdialing
    exact hdialing
  have hqueue : m.dialQueue = (passed ++ [e]) ++ q := by
    rw [List.append_assoc]
    exact hr.queue
  refine ⟨⟨passed ++ [e], hqueue, ?_, ?_, ?_, ?_, ?_, ?_, ?_, ?_, ?_, rfl⟩, hout, ?_, ?_⟩
  · intro x hx
    rcases List.mem_append.mp hx with hx | hx
    · obtain ⟨e', he', heq⟩ := hr.drawn x hx
      exact ⟨e', List.mem_append_left _ he', heq⟩
    · exact ⟨e, List.mem_append_right _ (List.mem_singleton_self e), List.mem_singleton.mp hx⟩
  · intro x hx
    rcases List.mem_append.mp hx with hx | hx
    · exact hr.idle x hx
    · rw [List.mem_singleton.mp hx]
      exact ⟨hnot.1, (hothers _ hdialing).symm.trans hconn⟩
  · intro x hx hboot
    rcases List.mem_append.mp hx with hx | hx
    · exact hr.grace x hx hboot
    · rw [List.mem_singleton.mp hx] at hboot ⊢
      rw [isRecentlyDisconnected, hframe.recentlyDisconnected, hframe.bootnodes] at hgrace
      rcases hgrace with hgrace | hboot'
      · exact hgrace
      · exact absurd hboot (by simpa using hboot')
  · rw [List.map_append, List.map_singleton]
    exact hr.nodup.append (List.nodup_singleton _) (List.disjoint_singleton.mpr hnot.2)
  · rw [List.length_append, List.length_singleton]
    exact hroom
  · rw [List.map_append, List.map_singleton, List.toFinset_append, ← Finset.union_assoc, ← hdial]
    show insert e.peerId m₁.dialing = m₁.dialing ∪ {e.peerId}
    rw [Finset.union_comm]
    rfl
  · show m₁.dialAttempts + 1 = _
    have hatt : m₁.dialAttempts = m.dialAttempts + UInt64.ofNat ds.length := hr.attempts
    rw [hatt, List.length_append, List.length_singleton, UInt64.ofNat_add, UInt64.add_assoc]
    rfl
  · exact hr.store.trans (keeps_beginDial e.peerId)
  · intro p hp
    have hp₁ : m₁.peerStore.isConnected p = true := hr.connected p hp
    refine (isConnected_beginDial fun heq => ?_).trans hp₁
    rw [heq, hconn] at hp₁
    cases hp₁
  · exact hframe.trans ⟨rfl, rfl, rfl, rfl, rfl, rfl⟩
  · intro p hp
    have hp' : p ≠ e.peerId ∧ p ∉ m₁.dialing := by
      rw [beginDial, Finset.mem_insert, not_or] at hp
      exact hp
    rw [isConnected_beginDial hp'.1, hothers p hp'.2]

theorem round_processDialQueue (config : ConnectionManagerConfig) (m : ConnectionManager P)
    (now : Nat) : ∃ passed ds, Round config now m (m.processDialQueue config now) passed ds := by
  have hstart : Looped config now m m [] m.dialQueue :=
    ⟨⟨[], { Round.nothing m with outbox := rfl }⟩, rfl, .refl m, fun _ _ => rfl⟩
  rcases processDialQueue_rule config m now (I := Looped config now m)
    (fun _ _ _ _ _ h => h.skip) (fun _ _ _ _ hroom hskip h => h.dial hroom hskip) hstart with
    h | ⟨m₁, ds, q, hL, h⟩
  · rw [h]
    exact ⟨[], [], .nothing m⟩
  · obtain ⟨⟨passed, hr⟩, hout, -⟩ := hL
    refine ⟨passed, ds, ?_⟩
    rcases h with ⟨hds, heq⟩ | ⟨hds, heq⟩
    · rw [heq]
      rw [if_pos hds, List.append_nil, ← hout] at hr
      exact hr
    · rw [heq]
      rw [if_neg hds, ← hout] at hr
      exact hr

end ConnectionManager

/-! ## The queue, the dialling set and what is sent -/

/-- The peers of one `DialPeers`. -/
structure Sendable (config : ConnectionManagerConfig) (peers : List (P × String)) : Prop where
  nonempty : peers ≠ []
  length_le : peers.length ≤ config.maxConcurrentDials
  nodup : (peers.map Prod.fst).Nodup
  addressed : ∀ x ∈ peers, Dialable x.2

/-- The queue names each peer once and none that is being dialled, nobody is dialled while
connected, the slots are kept to, and what went out was fit to go. -/
structure DialSafe (config : ConnectionManagerConfig) (m : ConnectionManager P) : Prop where
  slots : m.dialing.card ≤ config.maxConcurrentDials
  idle : ∀ p ∈ m.dialing, m.peerStore.isConnected p = false
  nodup : (m.dialQueue.map DialEntry.peerId).Nodup
  apart : ∀ e ∈ m.dialQueue, e.peerId ∉ m.dialing
  addressed : ∀ e ∈ m.dialQueue, Dialable e.address
  sent : ∀ x ∈ m.outbox, ∀ peers, x.2 = .dialPeers peers → Sendable config peers
  attempts : m.dialAttempts = UInt64.ofNat m.dials.length

namespace Round

variable {now : Nat} {passed : List (DialEntry P)} {ds : List (P × String)}

theorem dials (h : Round config now m m' passed ds) : m'.dials = m.dials ++ ds := by
  rw [ConnectionManager.dials, ConnectionManager.dials, h.outbox, List.flatMap_append]
  split_ifs with hds
  · rw [hds]
    rfl
  · rw [List.flatMap_singleton]
    rfl

theorem card_dialing (h : Round config now m m' passed ds) :
    m'.dialing.card = m.dialing.card + ds.length := by
  rw [h.dialing, Finset.card_union_of_disjoint, List.toFinset_card_of_nodup h.nodup,
    List.length_map]
  refine Finset.disjoint_right.mpr fun p hp => ?_
  obtain ⟨x, hx, rfl⟩ := List.mem_map.mp (List.mem_toFinset.mp hp)
  exact (h.idle x hx).1

theorem dialSafe (hr : Round config now m m' passed ds) (h : DialSafe config m) :
    DialSafe config m' := by
  have hnodup := h.nodup
  rw [hr.queue, List.map_append] at hnodup
  obtain ⟨-, hrest, hdisj⟩ := List.nodup_append.mp hnodup
  have hmem : ∀ e ∈ m'.dialQueue, e ∈ m.dialQueue := by
    intro e he
    rw [hr.queue]
    exact List.mem_append_right _ he
  refine ⟨?_, fun p hp => ?_, hrest, fun e he hp => ?_, fun e he => h.addressed e (hmem e he),
    fun x hx peers hpeers => ?_, ?_⟩
  · have hroom := hr.room
    rw [hr.card_dialing]
    have hslots := h.slots
    omega
  · have hbefore : m.peerStore.isConnected p = false := by
      rw [hr.dialing, Finset.mem_union, List.mem_toFinset] at hp
      rcases hp with hp | hp
      · exact h.idle p hp
      · obtain ⟨x, hx, rfl⟩ := List.mem_map.mp hp
        exact (hr.idle x hx).2
    exact hr.store.isConnected hbefore
  · rw [hr.dialing, Finset.mem_union, List.mem_toFinset] at hp
    rcases hp with hp | hp
    · exact h.apart e (hmem e he) hp
    · -- what was dialled stood before what is left
      obtain ⟨x, hx, hxe⟩ := List.mem_map.mp hp
      obtain ⟨e', he', rfl⟩ := hr.drawn x hx
      exact hdisj _ (List.mem_map_of_mem he') _ (List.mem_map_of_mem he) hxe
  · rw [hr.outbox] at hx
    rcases List.mem_append.mp hx with hx | hx
    · exact h.sent x hx peers hpeers
    · split_ifs at hx with hds
      · exact absurd hx List.not_mem_nil
      · rw [List.mem_singleton.mp hx] at hpeers
        cases hpeers
        refine ⟨hds, hr.room.trans (Nat.sub_le _ _), hr.nodup, fun x hx => ?_⟩
        obtain ⟨e, he, rfl⟩ := hr.drawn x hx
        refine h.addressed e ?_
        rw [hr.queue]
        exact List.mem_append_left _ he
  · rw [hr.attempts, h.attempts, hr.dials, List.length_append, UInt64.ofNat_add]

end Round

namespace DialSafe

/-- Any other event. -/
theorem emit (h : DialSafe config m) (now : Nat) {event : ConnectionEvent P}
    (hevent : ∀ peers, event ≠ .dialPeers peers) : DialSafe config (m.emit now event) := by
  have hdials : event.dials = [] := by
    cases event with
    | dialPeers peers => exact absurd rfl (hevent peers)
    | disconnectPeers _ | triggerKademliaBootstrap | triggerKademliaQuery | stateChanged _ => rfl
  refine ⟨h.slots, h.idle, h.nodup, h.apart, h.addressed, fun x hx peers hpeers => ?_, ?_⟩
  · rcases List.mem_append.mp hx with hx | hx
    · exact h.sent x hx peers hpeers
    · rw [List.mem_singleton.mp hx] at hpeers
      exact absurd hpeers (hevent peers)
  · have hsame : (m.emit now event).dials = m.dials := by
      rw [ConnectionManager.dials, ConnectionManager.emit, List.flatMap_append,
        List.flatMap_singleton, hdials, List.append_nil]
      rfl
    rw [hsame]
    exact h.attempts

theorem move (h : DialSafe config m) (hmove : Move config env m m') : DialSafe config m' := by
  cases hmove with
  | queueDial p address =>
    rcases m.queueDial_cases env.now p address with heq | ⟨haddr, hdialing, -, hfresh, heq⟩
    · rw [heq]
      exact h
    · rw [heq]
      refine ⟨h.slots, h.idle, ?_, fun e he => ?_, fun e he => ?_, h.sent, h.attempts⟩
      · rw [List.map_append, List.map_singleton]
        refine h.nodup.append (List.nodup_singleton _) (List.disjoint_singleton.mpr fun hp => ?_)
        obtain ⟨e, he, hep⟩ := List.mem_map.mp hp
        exact hfresh e he hep
      · rcases List.mem_append.mp he with he | he
        · exact h.apart e he
        · rw [List.mem_singleton.mp he]
          exact hdialing
      · rcases List.mem_append.mp he with he | he
        · exact h.addressed e he
        · rw [List.mem_singleton.mp he]
          exact haddr
  | processDialQueue =>
    obtain ⟨passed, ds, hr⟩ := m.round_processDialQueue config env.now
    exact hr.dialSafe h
  | transitionTo s _ =>
    rw [ConnectionManager.transitionTo]
    split
    · exact emit (m := { m with
          state := s
          fillingPeersSince := if s = NetworkState.fillingPeers then some env.now else none })
        ⟨h.slots, h.idle, h.nodup, h.apart, h.addressed, h.sent, h.attempts⟩ env.now (by simp)
    · exact h
  | prune =>
    rcases m.pruneExcessPeers_cases config env with heq | ⟨_, _, _, _, _, _, heq⟩
    · rw [heq]
      exact h
    · rw [heq]
      exact emit (m := { m with pruneEvents := _, lastPrune := env.now })
        ⟨h.slots, h.idle, h.nodup, h.apart, h.addressed, h.sent, h.attempts⟩ env.now (by simp)
  | discover =>
    exact emit (m := { m with lastDiscovery := env.now })
      ⟨h.slots, h.idle, h.nodup, h.apart, h.addressed, h.sent, h.attempts⟩ env.now (by simp)
  | bootstrap => exact h.emit env.now (by simp)
  | withStore s hkeeps =>
    exact ⟨h.slots, fun p hp => hkeeps.isConnected (h.idle p hp), h.nodup, h.apart, h.addressed,
      h.sent, h.attempts⟩
  | cleanup => exact ⟨h.slots, h.idle, h.nodup, h.apart, h.addressed, h.sent, h.attempts⟩

theorem opened {c : Call P} (h : DialSafe config m) (ho : c.Opened m m') : DialSafe config m' := by
  have hdialing : m'.dialing ⊆ m.dialing := by
    rcases ho.store with ⟨hsame, -⟩ | ⟨p, -, herase, -⟩
    · rw [hsame]
    · rw [herase]
      exact Finset.erase_subset p _
  refine ⟨(Finset.card_le_card hdialing).trans h.slots, fun p hp => ?_, ?_, fun e he hp => ?_,
    fun e he => ?_, ?_, ?_⟩
  · rcases ho.store with ⟨hsame, hmarks⟩ | ⟨x, -, herase, hmarks⟩
    · exact hmarks.idle p (by simp) (h.idle p (hdialing hp))
    · rw [herase] at hp
      exact hmarks.idle p (fun hx => (Finset.mem_erase.mp hp).1 (Option.some.inj hx).symm)
        (h.idle p (Finset.mem_of_mem_erase hp))
  · rw [ho.dialQueue]
    exact h.nodup
  · rw [ho.dialQueue] at he
    exact h.apart e he (hdialing hp)
  · rw [ho.dialQueue] at he
    exact h.addressed e he
  · rw [ho.outbox]
    exact h.sent
  · rw [ho.dialAttempts, ConnectionManager.dials, ho.outbox]
    exact h.attempts

end DialSafe

/-- In every run, at every moment: at most `max_concurrent_dials` peers are being dialled and
none of them is connected, the queue names each peer once and none that is being dialled, every
address queued or sent is empty or routable, every `DialPeers` names distinct peers and no more
than there are slots, and the counter of dial attempts is the number of dials sent. -/
theorem dialSafe_run (config : ConnectionManagerConfig) (start : Nat)
    (calls : List (Env P × Call P)) : DialSafe config (run config start calls) := by
  refine run_rule start ?_ (fun m env c h => h.opened (c.opened ..)) (fun env m m' h hm => h.move hm)
    calls
  refine ⟨Nat.zero_le _, ?_, List.nodup_nil, ?_, ?_, ?_, rfl⟩
  · exact fun p hp => absurd hp (Finset.notMem_empty p)
  · exact fun e he => absurd he List.not_mem_nil
  · exact fun e he => absurd he List.not_mem_nil
  · exact fun x hx => absurd hx List.not_mem_nil

/-! ## Slots are given back by the swarm's events alone -/

/-- A move dials in a round of the queue and not otherwise. -/
theorem Move.dials (h : Move config env m m') :
    (m'.dials = m.dials ∧ m'.dialing = m.dialing) ∨
      ∃ passed ds, Round config env.now m m' passed ds := by
  have hemit : ∀ (m : ConnectionManager P) (event : ConnectionEvent P), event.dials = [] →
      (m.emit env.now event).dials = m.dials := by
    intro m event hevent
    rw [ConnectionManager.dials, ConnectionManager.emit, List.flatMap_append,
      List.flatMap_singleton, hevent, List.append_nil]
    rfl
  cases h with
  | queueDial p address =>
    rcases m.queueDial_cases env.now p address with heq | ⟨-, -, -, -, heq⟩ <;>
      · rw [heq]
        exact .inl ⟨rfl, rfl⟩
  | processDialQueue => exact .inr (m.round_processDialQueue config env.now)
  | transitionTo s _ =>
    rw [ConnectionManager.transitionTo]
    split
    · exact .inl ⟨hemit _ _ rfl, rfl⟩
    · exact .inl ⟨rfl, rfl⟩
  | prune =>
    rcases m.pruneExcessPeers_cases config env with heq | ⟨_, _, _, _, _, _, heq⟩
    · rw [heq]
      exact .inl ⟨rfl, rfl⟩
    · rw [heq]
      exact .inl ⟨hemit _ _ rfl, rfl⟩
  | discover => exact .inl ⟨hemit _ _ rfl, rfl⟩
  | bootstrap => exact .inl ⟨hemit _ _ rfl, rfl⟩
  | withStore _ _ | cleanup => exact .inl ⟨rfl, rfl⟩

/-- The peer whose dial a call ends: it is reported on, is found in the dialling set and is
taken out of it. A closing reported again within two seconds takes nothing out. -/
def freed (config : ConnectionManagerConfig) (m : ConnectionManager P) (call : Env P × Call P) :
    Option P :=
  call.2.ends.filter fun p => p ∈ m.dialing ∧ p ∉ (call.2.opening config m call.1).dialing

/-- The dials that were ended along a run, in order. -/
def ended (config : ConnectionManagerConfig) (m : ConnectionManager P) :
    List (Env P × Call P) → List P
  | [] => []
  | call :: calls =>
    (freed config m call).toList ++ ended config (call.2.apply config m call.1) calls

theorem ended_snoc (m : ConnectionManager P) (calls : List (Env P × Call P))
    (call : Env P × Call P) : ended config m (calls ++ [call]) = ended config m calls ++
      (freed config (calls.foldl (fun m call => call.2.apply config m call.1) m) call).toList := by
  induction calls generalizing m with
  | nil => exact List.append_nil _
  | cons first calls ih =>
    rw [List.cons_append, ended, ih, ended, List.append_assoc]
    rfl

/-- Every dial sent was ended or is under way, one for one. -/
structure Answered (heard : List P) (m : ConnectionManager P) : Prop where
  each : ∀ p, (m.dials.map Prod.fst).count p = heard.count p + if p ∈ m.dialing then 1 else 0
  all : m.dials.length = heard.length + m.dialing.card

namespace Answered

variable {heard : List P}

theorem move (h : Answered heard m) (hmove : Move config env m m') : Answered heard m' := by
  rcases hmove.dials with ⟨hdials, hdialing⟩ | ⟨passed, ds, hr⟩
  · exact ⟨by rw [hdials, hdialing]; exact h.each, by rw [hdials, hdialing]; exact h.all⟩
  · refine ⟨fun p => ?_, ?_⟩
    · have hp := h.each p
      rw [hr.dials, List.map_append, List.count_append]
      by_cases hmem : p ∈ ds.map Prod.fst
      · -- dialled now, so not under way before
        have hidle : p ∉ m.dialing := by
          obtain ⟨x, hx, rfl⟩ := List.mem_map.mp hmem
          exact (hr.idle x hx).1
        have hnow : p ∈ m'.dialing := by
          rw [hr.dialing]
          exact Finset.mem_union_right _ (List.mem_toFinset.mpr hmem)
        rw [if_neg hidle] at hp
        rw [if_pos hnow, List.count_eq_one_of_mem hr.nodup hmem]
        omega
      · have hsame : p ∈ m'.dialing ↔ p ∈ m.dialing := by
          rw [hr.dialing, Finset.mem_union, List.mem_toFinset, or_iff_left hmem]
        rw [List.count_eq_zero_of_not_mem hmem]
        simp only [hsame]
        exact hp
    · have hall := h.all
      rw [hr.dials, List.length_append, hr.card_dialing]
      omega

theorem opened (h : Answered heard m) (call : Env P × Call P) :
    Answered (heard ++ (freed config m call).toList) (call.2.opening config m call.1) := by
  have ho := call.2.opened config call.1 m
  have hdials : (call.2.opening config m call.1).dials = m.dials := by
    rw [ConnectionManager.dials, ho.outbox]
    rfl
  -- the dialling set is as it was and nothing ended, or one peer is out of it
  have hout : (call.2.opening config m call.1).dialing = m.dialing ∧ freed config m call = none ∨
      ∃ x ∈ m.dialing, (call.2.opening config m call.1).dialing = m.dialing.erase x ∧
        freed config m call = some x := by
    rw [freed]
    rcases ho.store with ⟨hsame, -⟩ | ⟨x, hends, herase, -⟩
    · refine .inl ⟨hsame, Option.filter_eq_none_iff.mpr fun p _ => ?_⟩
      simp [hsame]
    · rw [hends, herase]
      by_cases hx : x ∈ m.dialing
      · exact .inr ⟨x, hx, rfl, by simp [hx]⟩
      · exact .inl ⟨Finset.erase_eq_of_notMem hx, by simp [hx]⟩
  rcases hout with ⟨hsame, hnone⟩ | ⟨x, hx, herase, hsome⟩
  · rw [hnone, Option.toList_none, List.append_nil]
    exact ⟨by rw [hdials, hsame]; exact h.each, by rw [hdials, hsame]; exact h.all⟩
  · rw [hsome, Option.toList_some]
    refine ⟨fun p => ?_, ?_⟩
    · have hp := h.each p
      rw [hdials, herase, List.count_append]
      by_cases hpx : p = x
      · subst hpx
        rw [if_pos hx] at hp
        rw [if_neg (Finset.notMem_erase p _), List.count_singleton_self]
        omega
      · rw [List.count_eq_zero_of_not_mem (fun hmem => hpx (List.mem_singleton.mp hmem))]
        simp only [Finset.mem_erase, ne_eq, hpx, not_false_eq_true, true_and]
        exact hp
    · have hall := h.all
      have hcard := Finset.card_erase_add_one hx
      rw [hdials, herase, List.length_append, List.length_singleton]
      omega

end Answered

/-- In every run, the dials asked for of a peer are the reports that ended a dial of it, and one
more if it is being dialled: a peer is dialled again only when the swarm has reported on the
last time. All dials together are the dials ended and the peers being dialled. -/
theorem dials_answered (config : ConnectionManagerConfig) (start : Nat)
    (calls : List (Env P × Call P)) :
    Answered (ended config (.new start) calls) (run config start calls) := by
  induction calls using List.reverseRecOn with
  | nil => exact ⟨fun _ => rfl, rfl⟩
  | append_singleton calls call ih =>
    rw [run_snoc, ended_snoc]
    exact call.2.rule (fun m m' h hmove => h.move hmove) (ih.opened call)

/-- When all slots are taken and none of the peers that take them is reported on, nothing is
dialled any more, whatever else happens. -/
theorem dials_starve (config : ConnectionManagerConfig) (start : Nat)
    (before after : List (Env P × Call P))
    (hfull : config.maxConcurrentDials ≤ (run config start before).dialing.card)
    (hsilent : ∀ call ∈ after, ∀ p ∈ (run config start before).dialing, call.2.ends ≠ some p) :
    (run config start (before ++ after)).dials = (run config start before).dials := by
  suffices h : (run config start (before ++ after)).dials = (run config start before).dials ∧
      (run config start (before ++ after)).dialing = (run config start before).dialing from h.1
  generalize hm : run config start before = m at hfull hsilent ⊢
  induction after using List.reverseRecOn with
  | nil =>
    rw [List.append_nil, hm]
    exact ⟨rfl, rfl⟩
  | append_singleton after call ih =>
    have ih := ih fun call' hcall => hsilent call' (List.mem_append_left _ hcall)
    rw [← List.append_assoc, run_snoc]
    refine call.2.rule (I := fun m' => m'.dials = m.dials ∧ m'.dialing = m.dialing)
      (fun m₁ m₂ h hmove => ?_) ?_
    · rcases hmove.dials with ⟨hdials, hdialing⟩ | ⟨passed, ds, hr⟩
      · exact ⟨hdials.trans h.1, hdialing.trans h.2⟩
      · have hnone : ds = [] := by
          have hroom := hr.room
          rw [h.2] at hroom
          exact List.eq_nil_of_length_eq_zero (by omega)
        have hdials := hr.dials
        have hdialing := hr.dialing
        rw [hnone] at hdials hdialing
        exact ⟨(hdials.trans (List.append_nil _)).trans h.1,
          (hdialing.trans (Finset.union_empty _)).trans h.2⟩
    · have ho := call.2.opened config call.1 (run config start (before ++ after))
      refine ⟨?_, ?_⟩
      · rw [ConnectionManager.dials, ho.outbox]
        exact ih.1
      · rcases ho.store with ⟨hsame, -⟩ | ⟨x, hends, herase, -⟩
        · exact hsame.trans ih.2
        · rw [herase, ih.2]
          refine Finset.erase_eq_of_notMem fun hx => ?_
          exact hsilent call (List.mem_append_right _ (List.mem_singleton_self call)) x hx hends

/-! ### A small network -/

def sampleConfig : ConnectionManagerConfig where
  targetPeers := 1
  minPeers := 2
  maxPeers := 1
  maxConcurrentDials := 1
  dialTimeout := 15 * SECOND
  peerRefreshInterval := 120 * SECOND
  minPruneInterval := 120 * SECOND
  minConnectionAge := 60 * SECOND
  store := ⟨10 * SECOND, fun backoff => 2 * backoff⟩

def sampleEnv (seconds : Nat) : Env Nat where
  now := seconds * SECOND
  peerOrder := .sorted (· ≤ ·)
  bootnodeOrder := .sorted (· ≤ ·)
  scores := fun _ => 0
  subnetCount := fun _ => 0
  localPeerId := 0

def discovered (seconds p : Nat) : Env Nat × Call Nat :=
  (sampleEnv seconds, .peerDiscovered p ["/ip4/8.8.8.8/tcp/9000"])

def ticked (seconds : Nat) : Env Nat × Call Nat := (sampleEnv seconds, .tick)

/-- Peer 7 is dialled and never heard of again; peer 9 is found, and waits for good. -/
theorem dials_starve_sample :
    (run sampleConfig 0 [discovered 1 7, ticked 2]).dials = [(7, "/ip4/8.8.8.8/tcp/9000")] ∧
    (run sampleConfig 0 ([discovered 1 7, ticked 2] ++ [discovered 3 9, ticked 4, ticked 900])).dials
      = (run sampleConfig 0 [discovered 1 7, ticked 2]).dials :=
  ⟨by decide +kernel, dials_starve sampleConfig 0 _ _ (by decide +kernel) (by decide +kernel)⟩

end Pyrax.P2p
