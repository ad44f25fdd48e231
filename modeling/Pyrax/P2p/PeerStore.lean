import Mathlib.Data.List.Basic
import Pyrax.Base.Records
import Pyrax.Base.Word

/-!
# Peers and the addresses they are dialled at

`pyrax-node/src/p2p/peer_store.rs`, and the two address tests of
`p2p/connection_manager.rs`. The store knows a peer's addresses, its connection, its score,
its failures and its dial backoff, and which peers are banned.

Instants are nanoseconds, and a call reads the clock once. What is computed in floating
point is given: the score of a peer, and the next backoff from the last. Subnets only weigh
in the order of the dial candidates, and are given with the call too (`Env`). Round-trip
times, interactions, connection quality and the event lists behind the hourly counts only
feed the score and the metrics, and are left out.
-/

namespace Pyrax.P2p

open Base

/-- Nanoseconds. -/
def SECOND : Nat := 1000000000

theorem second_pos : 0 < SECOND := by decide

/-! ## Addresses -/

/-- A decimal number as `Ipv4Addr::from_str` reads an octet: at most three digits, no
leading zero, at most 255. -/
def parseOctet (digits : List Char) : Option Nat :=
  if digits = [] ∨ 3 < digits.length ∨ !digits.all Char.isDigit then none
  else if 1 < digits.length ∧ digits.head? = some '0' then none
  else
    let n := Nat.ofDigitChars 10 digits 0
    if n ≤ 255 then some n else none

/-- `Ipv4Addr::from_str`, as its four octets. -/
def parseIpv4 (text : List Char) : Option (Nat × Nat × Nat × Nat) :=
  match text.splitOn '.' with
  | [a, b, c, d] => do
    let a ← parseOctet a
    let b ← parseOctet b
    let c ← parseOctet c
    let d ← parseOctet d
    return (a, b, c, d)
  | _ => none

/-- `u16::from_str`: an optional plus sign and decimal digits. -/
def parsePort (text : List Char) : Option Nat :=
  let digits := if text.head? = some '+' then text.tail else text
  if digits = [] ∨ !digits.all Char.isDigit then none
  else
    let n := Nat.ofDigitChars 10 digits 0
    if n < 65536 then some n else none

/-- `is_loopback() || is_private() || is_link_local() || is_unspecified()`. -/
def notPublic : Nat × Nat × Nat × Nat → Bool
  | (a, b, c, d) =>
    a = 127 || a = 10 || (a = 172 && 16 ≤ b && b ≤ 31) || (a = 192 && b = 168) ||
      (a = 169 && b = 254) || (a = 0 && b = 0 && c = 0 && d = 0)

/-- `text.matches(pattern).count()`: from the left, without overlaps. -/
def countMatches (pattern : List Char) : Nat → List Char → Nat
  | 0, _ => 0
  | _, [] => 0
  | fuel + 1, c :: rest =>
    if pattern <+: c :: rest then
      countMatches pattern fuel ((c :: rest).drop pattern.length) + 1
    else countMatches pattern fuel rest

def circuitCount (address : String) : Nat :=
  countMatches "/p2p-circuit".toList address.length address.toList

/-- What the loop over the parts has seen. -/
structure Seen where
  hasValidIp : Bool
  port : Option Nat
  deriving DecidableEq

/-- The loop over the parts of an address: `none` where it returns `false`. -/
def scanParts : Seen → List (List Char) → Option Seen
  | seen, [] => some seen
  | seen, part :: rest =>
    if part = "ip4".toList then
      match rest.head?.bind parseIpv4 with
      | some ip =>
        if notPublic ip then none else scanParts { seen with hasValidIp := true } rest
      | none => scanParts seen rest
    else if part = "tcp".toList then
      match rest.head? with
      | some port => scanParts { seen with port := parsePort port } rest
      | none => scanParts seen rest
    else scanParts seen rest

def portAllowed (port : Nat) : Bool :=
  port < 32768 && (1024 ≤ port || port = 443 || port = 80)

/-- `ConnectionManager::is_routable_address`. -/
def isRoutableAddress (address : String) : Bool :=
  let text := address.toList
  if "/p2p/".toList <+: text ∧ ¬ "/ip4/".toList <:+: text ∧ ¬ "/ip6/".toList <:+: text then false
  else if 1 < circuitCount address then false
  else if circuitCount address = 1 then true
  else
    match scanParts ⟨false, none⟩ (text.splitOn '/') with
    | none => false
    | some seen => seen.hasValidIp && seen.port.all portAllowed

/-- `ConnectionManager::get_best_dial_address`: a relay before a direct address. -/
def getBestDialAddress (addresses : List String) : Option String :=
  match addresses.find? fun address => circuitCount address = 1 with
  | some relay => some relay
  | none => addresses.find? isRoutableAddress

/-! ## Peers -/

inductive ConnectionDirection where
  | inbound
  | outbound
  deriving DecidableEq

inductive PeerState where
  | disconnected
  | dialing
  | connected
  | disconnecting
  | banned
  deriving DecidableEq

structure PeerData where
  addresses : List String
  state : PeerState
  direction : Option ConnectionDirection
  discoveredAt : Nat
  connectedAt : Option Nat
  score : Int
  isBootnode : Bool
  clientVersion : String
  consecutiveFailures : UInt32
  lastFailureTime : Option Nat
  deriving DecidableEq

namespace PeerData

def new (now : Nat) : PeerData where
  addresses := []
  state := .disconnected
  direction := none
  discoveredAt := now
  connectedAt := none
  score := 0
  isBootnode := false
  clientVersion := ""
  consecutiveFailures := 0
  lastFailureTime := none

def uptimeMinutes (d : PeerData) (now : Nat) : Nat :=
  match d.connectedAt with
  | some t => (now - t) / SECOND / 60
  | none => 0

/-- A score at the floor, after a grace period of 1800 seconds. -/
def shouldBan (d : PeerData) (now : Nat) : Bool :=
  if now - d.discoveredAt < 1800 * SECOND then false else d.score ≤ -300

end PeerData

structure DialBackoff where
  nextDialAt : Nat
  currentBackoff : Nat
  failureCount : UInt32
  deriving DecidableEq

/-- `grow` is the multiplication in `secs_f64`, capped at the maximum. -/
structure PeerStoreConfig where
  initialBackoff : Nat
  grow : Nat → Nat

namespace DialBackoff

def new (now initialBackoff : Nat) : DialBackoff := ⟨now, initialBackoff, 0⟩

def recordFailure (b : DialBackoff) (config : PeerStoreConfig) (now : Nat) : DialBackoff :=
  let backoff := config.grow b.currentBackoff
  ⟨now + backoff, backoff, b.failureCount + 1⟩

def clear (_ : DialBackoff) (now initialBackoff : Nat) : DialBackoff := ⟨now, initialBackoff, 0⟩

end DialBackoff

structure PeerStore (P : Type) [DecidableEq P] where
  peers : Column P PeerData
  backoffs : Column P DialBackoff
  bootnodes : Finset P
  /-- with the end of the ban -/
  banned : Column P Nat

/-- What a call is given: the clock, the orders in which the hash maps are walked, the
scores and the peers per subnet, and the id that stands for the node's own. -/
structure Env (P : Type) [DecidableEq P] where
  now : Nat
  peerOrder : Column.KeyOrder P PeerData
  bootnodeOrder : Column.KeyOrder P Unit
  scores : P → Int
  subnetCount : P → Nat
  localPeerId : P

namespace PeerStore

variable {P : Type} [DecidableEq P]

def new : PeerStore P := ⟨∅, ∅, ∅, ∅⟩

/-- `get_peer_mut` and a change of what it finds. -/
def modify (s : PeerStore P) (p : P) (f : PeerData → PeerData) : PeerStore P :=
  match s.peers.lookup p with
  | some d => { s with peers := s.peers.insert p (f d) }
  | none => s

def addBootnode (s : PeerStore P) (p : P) : PeerStore P :=
  { s with bootnodes := insert p s.bootnodes }.modify p fun d => { d with isBootnode := true }

def upsertPeer (s : PeerStore P) (now : Nat) (p : P) : PeerStore P :=
  match s.peers.lookup p with
  | some _ => s
  | none =>
    { s with peers := s.peers.insert p { PeerData.new now with isBootnode := p ∈ s.bootnodes } }

def addAddress (s : PeerStore P) (p : P) (address : String) : PeerStore P :=
  s.modify p fun d =>
    if address ∈ d.addresses then d else { d with addresses := d.addresses ++ [address] }

def addAddresses (s : PeerStore P) (p : P) (addresses : List String) : PeerStore P :=
  addresses.foldl (fun s address => s.addAddress p address) s

def clearAddresses (s : PeerStore P) (p : P) : PeerStore P :=
  s.modify p fun d => { d with addresses := [] }

def clearBackoff (s : PeerStore P) (config : PeerStoreConfig) (now : Nat) (p : P) : PeerStore P :=
  match s.backoffs.lookup p with
  | some b => { s with backoffs := s.backoffs.insert p (b.clear now config.initialBackoff) }
  | none => s

def peerConnected (s : PeerStore P) (config : PeerStoreConfig) (now : Nat) (p : P)
    (direction : ConnectionDirection) : PeerStore P :=
  match s.peers.lookup p with
  | some _ => (s.modify p fun d => { d with
      state := .connected, direction := some direction, connectedAt := some now }).clearBackoff
        config now p
  | none => s

def peerDisconnected (s : PeerStore P) (p : P) : PeerStore P :=
  s.modify p fun d => { d with state := .disconnected, direction := none, connectedAt := none }

def recordDialFailure (s : PeerStore P) (config : PeerStoreConfig) (now : Nat) (p : P) :
    PeerStore P :=
  let s := s.modify p fun d => { d with
    state := .disconnected
    consecutiveFailures := d.consecutiveFailures + 1
    lastFailureTime := some now }
  let backoff := (s.backoffs.lookup p).getD (.new now config.initialBackoff)
  { s with backoffs := s.backoffs.insert p (backoff.recordFailure config now) }

def isBanned (s : PeerStore P) (now : Nat) (p : P) : Bool :=
  match s.banned.lookup p with
  | some expiry => now < expiry
  | none => false

def canDial (s : PeerStore P) (now : Nat) (p : P) : Bool :=
  if s.isBanned now p then false
  else
    match s.backoffs.lookup p with
    | some b => b.nextDialAt ≤ now
    | none => true

/-- `get_peer(..)` and its state. -/
def isConnected (s : PeerStore P) (p : P) : Bool :=
  match s.peers.lookup p with
  | some d => d.state = .connected
  | none => false

def connectedCount (s : PeerStore P) : Nat :=
  Column.total (fun d => if d.state = .connected then 1 else 0) s.peers

/-- One round of the loop in `update_all_scores`. -/
def rescore (s : PeerStore P) (env : Env P) (p : P) : PeerStore P :=
  match s.peers.lookup p with
  | none => s
  | some d =>
    let d := { d with score := env.scores p }
    if d.shouldBan env.now && !d.isBootnode && d.state ≠ .banned then
      { s with
        peers := s.peers.insert p { d with state := .banned }
        banned := s.banned.insert p (env.now + 900 * SECOND) }
    else { s with peers := s.peers.insert p d }

def updateAllScores (s : PeerStore P) (env : Env P) : PeerStore P :=
  (env.peerOrder.keys s.peers).foldl (fun s p => s.rescore env p) s

/-- Connected peers that are not bootnodes, lowest scores first. -/
def lowestScoredConnected (s : PeerStore P) (env : Env P) (count : Nat) : List P :=
  ((((env.peerOrder.entries s.peers).filter fun e =>
    e.2.state = .connected && !e.2.isBootnode).mergeSort fun a b => a.2.score ≤ b.2.score).take
      count).map (·.1)

/-- The underrepresented subnets first, then the high scores. -/
def bestDialCandidates (s : PeerStore P) (env : Env P) (count : Nat) : List P :=
  ((((env.peerOrder.entries s.peers).filter fun e =>
    e.2.state = .disconnected && !e.2.addresses.isEmpty && s.canDial env.now e.1).mergeSort
      fun a b => env.subnetCount a.1 < env.subnetCount b.1 ||
        (env.subnetCount a.1 = env.subnetCount b.1 && b.2.score ≤ a.2.score)).take
          count).map (·.1)

def cleanup (s : PeerStore P) (now : Nat) : PeerStore P :=
  let banned := Column.filter (fun _ expiry => now < expiry) s.banned
  { s with
    banned
    peers := Column.mapValues (fun p d =>
      if d.state = .banned && (banned.lookup p).isNone then { d with state := .disconnected }
      else d) s.peers }

end PeerStore

end Pyrax.P2p
