import Mathlib.Logic.Relation
import Pyrax.P2p.PeerStore

/-!
# The connection manager

`pyrax-node/src/p2p/connection_manager.rs`: a queue of peers to dial, the set of peers being
dialled, and the state of the network, which the swarm's events and a periodic tick move.
What the manager asks for goes out over a channel, and `outbox` is everything it tried to
send, with the time.

One lemma says what a call can do: it is a chain of moves (`Call.moves`), and a move either
leaves the dial queue and the set alone or is one of `queue_dial`, `process_dial_queue` and
the end of a dial. Every invariant is checked move by move.

Left out: logs, the metrics event, and the readers of the manager.
-/

namespace Pyrax.P2p

open Base

inductive NetworkState where
  | starting
  | dialingBootnode
  | identifying
  | bootstrappingDiscovery
  | fillingPeers
  | maintaining
  | shuttingDown
  deriving DecidableEq

structure ConnectionManagerConfig where
  targetPeers : Nat
  minPeers : Nat
  maxPeers : Nat
  maxConcurrentDials : Nat
  dialTimeout : Nat
  peerRefreshInterval : Nat
  minPruneInterval : Nat
  minConnectionAge : Nat
  store : PeerStoreConfig

/-- `Default`. -/
def ConnectionManagerConfig.default (store : PeerStoreConfig) : ConnectionManagerConfig where
  targetPeers := 50
  minPeers := 3
  maxPeers := 60
  maxConcurrentDials := 5
  dialTimeout := 15 * SECOND
  peerRefreshInterval := 120 * SECOND
  minPruneInterval := 120 * SECOND
  minConnectionAge := 300 * SECOND
  store := store

inductive ConnectionEvent (P : Type) where
  | dialPeers (peers : List (P × String))
  | disconnectPeers (peers : List P)
  | triggerKademliaBootstrap
  | triggerKademliaQuery
  | stateChanged (state : NetworkState)
  deriving DecidableEq

structure DialEntry (P : Type) where
  peerId : P
  address : String
  queuedAt : Nat
  deriving DecidableEq

structure ConnectionManager (P : Type) [DecidableEq P] where
  peerStore : PeerStore P
  state : NetworkState
  dialQueue : List (DialEntry P)
  dialing : Finset P
  lastPrune : Nat
  lastDiscovery : Nat
  bootnodes : Column P Unit
  dialAttempts : UInt64
  dialSuccesses : UInt64
  dialFailures : UInt64
  pruneEvents : UInt64
  recentlyDisconnected : Column P Nat
  fillingPeersSince : Option Nat
  wrongPeerIdPeers : Column P Nat
  /-- what was sent, with the time -/
  outbox : List (Nat × ConnectionEvent P)

namespace ConnectionManager

variable {P : Type} [DecidableEq P]

def new (now : Nat) : ConnectionManager P where
  peerStore := .new
  state := .starting
  dialQueue := []
  dialing := ∅
  lastPrune := now
  lastDiscovery := now
  bootnodes := ∅
  dialAttempts := 0
  dialSuccesses := 0
  dialFailures := 0
  pruneEvents := 0
  recentlyDisconnected := ∅
  fillingPeersSince := none
  wrongPeerIdPeers := ∅
  outbox := []

/-- `event_tx.try_send(..)`. -/
def emit (m : ConnectionManager P) (now : Nat) (event : ConnectionEvent P) :
    ConnectionManager P :=
  { m with outbox := m.outbox ++ [(now, event)] }

def connected (m : ConnectionManager P) : Nat := m.peerStore.connectedCount

def addBootnode (m : ConnectionManager P) (now : Nat) (p : P) (addresses : List String) :
    ConnectionManager P :=
  { m with
    bootnodes := m.bootnodes.insert p ()
    peerStore := ((((m.peerStore.addBootnode p).upsertPeer now p).modify p fun d =>
      { d with isBootnode := true }).addAddresses p addresses) }

def transitionTo (m : ConnectionManager P) (now : Nat) (newState : NetworkState) :
    ConnectionManager P :=
  if m.state ≠ newState then
    { m with
      state := newState
      fillingPeersSince :=
        if newState = NetworkState.fillingPeers then some now else none }.emit now
          (.stateChanged newState)
  else m

def queueDial (m : ConnectionManager P) (now : Nat) (p : P) (address : String) :
    ConnectionManager P :=
  if address ≠ "" ∧ !isRoutableAddress address then m
  else if p ∈ m.dialing then m
  else if m.peerStore.isConnected p then m
  else if !m.peerStore.canDial now p then m
  else if m.dialQueue.any fun e => e.peerId = p then m
  else { m with dialQueue := m.dialQueue ++ [⟨p, address, now⟩] }

def queueDials (m : ConnectionManager P) (now : Nat) (p : P) (addresses : List String) :
    ConnectionManager P :=
  addresses.foldl (fun m address => m.queueDial now p address) m

/-- Less than thirty seconds since the disconnect on record. -/
def isRecentlyDisconnected (m : ConnectionManager P) (now : Nat) (p : P) : Bool :=
  match m.recentlyDisconnected.lookup p with
  | some time => now - time < 30 * SECOND
  | none => false

/-- The entries that `process_dial_queue` drops. -/
def skips (config : ConnectionManagerConfig) (m : ConnectionManager P) (now : Nat)
    (e : DialEntry P) : Bool :=
  e.peerId ∈ m.dialing || m.peerStore.isConnected e.peerId ||
    config.dialTimeout < now - e.queuedAt ||
    (m.isRecentlyDisconnected now e.peerId && e.peerId ∉ m.bootnodes)

/-- The marks of a dial. -/
def beginDial (m : ConnectionManager P) (p : P) : ConnectionManager P :=
  { m with
    dialing := insert p m.dialing
    dialAttempts := m.dialAttempts + 1
    peerStore := m.peerStore.modify p fun d => { d with state := .dialing } }

/-- The loop of `process_dial_queue` over what is left of the queue. -/
def dialLoop (config : ConnectionManagerConfig) (now slots : Nat) :
    ConnectionManager P → List (P × String) → List (DialEntry P) →
      ConnectionManager P × List (P × String)
  | m, toDial, [] => ({ m with dialQueue := [] }, toDial)
  | m, toDial, e :: queue =>
    if slots ≤ toDial.length then ({ m with dialQueue := e :: queue }, toDial)
    else if m.skips config now e then dialLoop config now slots m toDial queue
    else dialLoop config now slots (m.beginDial e.peerId) (toDial ++ [(e.peerId, e.address)]) queue

def processDialQueue (config : ConnectionManagerConfig) (m : ConnectionManager P) (now : Nat) :
    ConnectionManager P :=
  let availableSlots := config.maxConcurrentDials - m.dialing.card
  if availableSlots = 0 then m
  else
    let (m', toDial) := dialLoop config now availableSlots m [] m.dialQueue
    if toDial = [] then m' else m'.emit now (.dialPeers toDial)

/-- The dials of the bootnodes, at every address known of them. -/
def queueBootnodes (m : ConnectionManager P) (env : Env P) (prepare : ConnectionManager P → P →
    ConnectionManager P) : ConnectionManager P :=
  let addrs := (env.bootnodeOrder.keys m.bootnodes).filterMap fun p =>
    (m.peerStore.peers.lookup p).map fun d => (p, d.addresses)
  addrs.foldl (fun m entry => (prepare m entry.1).queueDials env.now entry.1 entry.2) m

def start (config : ConnectionManagerConfig) (m : ConnectionManager P) (env : Env P) :
    ConnectionManager P :=
  ((m.transitionTo env.now .dialingBootnode).queueBootnodes env fun m _ => m).processDialQueue
    config env.now

def triggerDiscovery (m : ConnectionManager P) (now : Nat) : ConnectionManager P :=
  { m with lastDiscovery := now }.emit now .triggerKademliaQuery

def pruneExcessPeers (config : ConnectionManagerConfig) (m : ConnectionManager P) (env : Env P) :
    ConnectionManager P :=
  if env.now - m.lastPrune < config.minPruneInterval then m
  else
    let excess := m.connected - config.targetPeers
    if excess = 0 then m
    else
      let toPrune := (m.peerStore.lowestScoredConnected env excess).filter fun p =>
        match m.peerStore.peers.lookup p with
        | some d =>
          !d.isBootnode && !(d.uptimeMinutes env.now < config.minConnectionAge / SECOND / 60)
        | none => false
      if toPrune = [] then m
      else
        { m with
          pruneEvents := m.pruneEvents + UInt64.ofNat toPrune.length
          lastPrune := env.now }.emit env.now (.disconnectPeers toPrune)

def updateStateOnConnection (config : ConnectionManagerConfig) (m : ConnectionManager P)
    (now : Nat) : ConnectionManager P :=
  match m.state with
  | .dialingBootnode => m.transitionTo now .identifying
  | .fillingPeers => if config.minPeers ≤ m.connected then m.transitionTo now .maintaining else m
  | _ => m

def updateStateOnDisconnection (config : ConnectionManagerConfig) (m : ConnectionManager P)
    (env : Env P) : ConnectionManager P :=
  if m.connected = 0 then (m.transitionTo env.now .dialingBootnode).start config env
  else if m.connected < config.minPeers ∧ m.state = .maintaining then
    m.transitionTo env.now .fillingPeers
  else m

/-- `dialing.remove(..)`. -/
def endDial (m : ConnectionManager P) (p : P) : ConnectionManager P :=
  { m with dialing := m.dialing.erase p }

def withStore (m : ConnectionManager P) (peerStore : PeerStore P) : ConnectionManager P :=
  { m with peerStore }

/-- The marks of a new connection. -/
def markConnected (config : ConnectionManagerConfig) (m : ConnectionManager P) (env : Env P) (p : P)
    (address : String) (isInbound : Bool) : ConnectionManager P :=
  let m := m.endDial p
  let m := m.withStore (((m.peerStore.upsertPeer env.now p).addAddress p address).peerConnected
    config.store env.now p (if isInbound then .inbound else .outbound))
  if isInbound then m else { m with dialSuccesses := m.dialSuccesses + 1 }

def onConnectionEstablished (config : ConnectionManagerConfig) (m : ConnectionManager P)
    (env : Env P) (p : P) (address : String) (isInbound : Bool) : ConnectionManager P :=
  let m := m.markConnected config env p address isInbound
  let connected := m.connected
  let m := m.updateStateOnConnection config env.now
  if config.maxPeers < connected then m.pruneExcessPeers config env else m

/-- The disconnects of the last five seconds. -/
def forgetDisconnects (m : ConnectionManager P) (now : Nat) : ConnectionManager P :=
  { m with recentlyDisconnected :=
    Column.filter (fun _ time => now - time < 5 * SECOND) m.recentlyDisconnected }

/-- A disconnect of the peer was processed in the last two seconds. -/
def isDuplicateClose (m : ConnectionManager P) (now : Nat) (p : P) : Bool :=
  match m.recentlyDisconnected.lookup p with
  | some lastDisconnect => now - lastDisconnect < 2 * SECOND
  | none => false

/-- The marks of a closed connection. -/
def markClosed (m : ConnectionManager P) (now : Nat) (p : P) : ConnectionManager P :=
  let m := { m with recentlyDisconnected := m.recentlyDisconnected.insert p now }.endDial p
  m.withStore (m.peerStore.peerDisconnected p)

def onConnectionClosed (config : ConnectionManagerConfig) (m : ConnectionManager P) (env : Env P)
    (p : P) : ConnectionManager P :=
  let m := m.forgetDisconnects env.now
  if m.isDuplicateClose env.now p then m
  else
    let m := m.markClosed env.now p
    let connected := m.connected
    let m := m.updateStateOnDisconnection config env
    if connected < config.minPeers then m.triggerDiscovery env.now else m

def onDialFailure (config : ConnectionManagerConfig) (m : ConnectionManager P) (env : Env P)
    (p : P) : ConnectionManager P :=
  let m := { m.endDial p with dialFailures := m.dialFailures + 1 }
  m.withStore (m.peerStore.recordDialFailure config.store env.now p)

def onWrongPeerId (config : ConnectionManagerConfig) (m : ConnectionManager P) (env : Env P)
    (p : P) : ConnectionManager P :=
  let m := m.endDial p
  let store := (List.range 5).foldl
    (fun s _ => s.recordDialFailure config.store env.now p) m.peerStore
  { m.withStore (store.clearAddresses p) with
    wrongPeerIdPeers := m.wrongPeerIdPeers.insert p env.now }

def markIdentified (m : ConnectionManager P) (p : P) (agentVersion : String)
    (listenAddrs : List String) : ConnectionManager P :=
  m.withStore ((m.peerStore.modify p fun d =>
    { d with clientVersion := agentVersion }).addAddresses p listenAddrs)

def onPeerIdentified (m : ConnectionManager P) (env : Env P) (p : P) (agentVersion : String)
    (listenAddrs : List String) : ConnectionManager P :=
  let m := m.markIdentified p agentVersion listenAddrs
  if m.state = .identifying then
    (m.transitionTo env.now .bootstrappingDiscovery).emit env.now .triggerKademliaBootstrap
  else m

def onPingResult (m : ConnectionManager P) (p : P) (answered : Bool) : ConnectionManager P :=
  if answered then m.withStore (m.peerStore.modify p fun d => { d with consecutiveFailures := 0 })
  else m

def onKademliaBootstrapComplete (m : ConnectionManager P) (now : Nat) : ConnectionManager P :=
  if m.state = .bootstrappingDiscovery then m.transitionTo now .fillingPeers else m

/-- The record of a discovered peer, at its routable addresses. -/
def markDiscovered (m : ConnectionManager P) (now : Nat) (p : P) (routableAddrs : List String) :
    ConnectionManager P :=
  m.withStore ((m.peerStore.upsertPeer now p).addAddresses p routableAddrs)

def onPeerDiscovered (config : ConnectionManagerConfig) (m : ConnectionManager P) (env : Env P)
    (p : P) (addresses : List String) : ConnectionManager P :=
  let routableAddrs := addresses.filter isRoutableAddress
  if p = env.localPeerId ∨ routableAddrs = [] then m
  else
    let m := m.markDiscovered env.now p routableAddrs
    if m.connected < config.targetPeers then
      match getBestDialAddress routableAddrs with
      | some address => m.queueDial env.now p address
      | none => m
    else m

def tryFillPeers (config : ConnectionManagerConfig) (m : ConnectionManager P) (env : Env P) :
    ConnectionManager P :=
  let needed := config.targetPeers - m.connected
  if needed = 0 then m
  else
    let candidates := m.peerStore.bestDialCandidates env needed
    if candidates = [] then
      if 10 * SECOND < env.now - m.lastDiscovery then m.triggerDiscovery env.now else m
    else
      (candidates.foldl (fun m p =>
        match (m.peerStore.peers.lookup p).bind fun d => getBestDialAddress d.addresses with
        | some address => m.queueDial env.now p address
        | none => m) m).processDialQueue config env.now

def bootnodeConnected (m : ConnectionManager P) (env : Env P) : Bool :=
  (env.bootnodeOrder.keys m.bootnodes).any m.peerStore.isConnected

/-- Back to the bootnodes, their backoff cleared. -/
def redialBootnodes (config : ConnectionManagerConfig) (m : ConnectionManager P) (env : Env P) :
    ConnectionManager P :=
  (m.queueBootnodes env fun m p =>
    m.withStore (m.peerStore.clearBackoff config.store env.now p)).processDialQueue config env.now

def maintainPeers (config : ConnectionManagerConfig) (m : ConnectionManager P) (env : Env P) :
    ConnectionManager P :=
  let connected := m.connected
  let m := if !m.bootnodeConnected env ∧ m.bootnodes.keys ≠ ∅ then m.redialBootnodes config env
    else m
  if connected < config.minPeers then
    let m := (m.transitionTo env.now .fillingPeers).triggerDiscovery env.now
    if connected < 3 then m.emit env.now .triggerKademliaBootstrap else m
  else
    let m := if connected < config.targetPeers then m.tryFillPeers config env else m
    let m := if config.maxPeers < connected then m.pruneExcessPeers config env else m
    if config.peerRefreshInterval < env.now - m.lastDiscovery ∧ connected < config.targetPeers then
      m.triggerDiscovery env.now
    else m

def cleanupWrongPeerIdEntries (m : ConnectionManager P) (now : Nat) : ConnectionManager P :=
  { m with wrongPeerIdPeers :=
    Column.filter (fun _ time => now - time < 1800 * SECOND) m.wrongPeerIdPeers }

/-- The state's own part of `tick`, with whether it returns at once. -/
def tickState (config : ConnectionManagerConfig) (m : ConnectionManager P) (env : Env P) :
    ConnectionManager P × Bool :=
  let connected := m.connected
  match m.state with
  | .dialingBootnode =>
    (if 0 < connected then m.transitionTo env.now .identifying else m, false)
  | .fillingPeers =>
    if config.minPeers ≤ connected then (m.transitionTo env.now .maintaining, false)
    else if 1 ≤ connected ∧ m.fillingPeersSince.any fun since => 60 * SECOND < env.now - since then
      (m.transitionTo env.now .maintaining, true)
    else (m.tryFillPeers config env, false)
  | .maintaining => (m.maintainPeers config env, false)
  | _ => (m, false)

def tick (config : ConnectionManagerConfig) (m : ConnectionManager P) (env : Env P) :
    ConnectionManager P :=
  let m := m.withStore (m.peerStore.cleanup env.now)
  let m := (m.cleanupWrongPeerIdEntries env.now).processDialQueue config env.now
  match m.tickState config env with
  | (m, true) => m
  | (m, false) => m.withStore (m.peerStore.updateAllScores env)

def shutdown (m : ConnectionManager P) (now : Nat) : ConnectionManager P :=
  m.transitionTo now .shuttingDown

/-- What the event loop asks before it dials. -/
def shouldSkipDial (m : ConnectionManager P) (now : Nat) (p : P) : Bool :=
  if p ∈ m.bootnodes then false
  else if (m.wrongPeerIdPeers.lookup p).any fun time => now - time < 1800 * SECOND then true
  else
    match m.peerStore.peers.lookup p with
    | some d => 3 ≤ d.consecutiveFailures &&
      d.lastFailureTime.any fun time => now - time < 300 * SECOND
    | none => false

end ConnectionManager

/-- A call of the manager. -/
inductive Call (P : Type) [DecidableEq P] where
  | addBootnode (p : P) (addresses : List String)
  | start
  | queueDial (p : P) (address : String)
  | connectionEstablished (p : P) (address : String) (isInbound : Bool)
  | connectionClosed (p : P)
  | dialFailure (p : P)
  | wrongPeerId (p : P)
  | peerIdentified (p : P) (agentVersion : String) (listenAddrs : List String)
  | pingResult (p : P) (answered : Bool)
  | kademliaBootstrapComplete
  | peerDiscovered (p : P) (addresses : List String)
  | tick
  | shutdown

namespace Call

variable {P : Type} [DecidableEq P]

def apply (config : ConnectionManagerConfig) (m : ConnectionManager P) (env : Env P) :
    Call P → ConnectionManager P
  | addBootnode p addresses => m.addBootnode env.now p addresses
  | start => m.start config env
  | queueDial p address => m.queueDial env.now p address
  | connectionEstablished p address isInbound =>
    m.onConnectionEstablished config env p address isInbound
  | connectionClosed p => m.onConnectionClosed config env p
  | dialFailure p => m.onDialFailure config env p
  | wrongPeerId p => m.onWrongPeerId config env p
  | peerIdentified p agentVersion listenAddrs => m.onPeerIdentified env p agentVersion listenAddrs
  | pingResult p answered => m.onPingResult p answered
  | kademliaBootstrapComplete => m.onKademliaBootstrapComplete env.now
  | peerDiscovered p addresses => m.onPeerDiscovered config env p addresses
  | tick => m.tick config env
  | shutdown => m.shutdown env.now

/-- The peer whose dial a call ends. -/
def ends : Call P → Option P
  | connectionEstablished p _ _ | connectionClosed p | dialFailure p | wrongPeerId p => some p
  | _ => none

end Call

end Pyrax.P2p
