import SygmaRelayer.Spec.StartProtocol

/-! `initiate` of `tss/coordinator.go` in full, for an ECDSA or FROST signing process: ready
messages, excluded peers, the ticker that repeats the initiate message and a cancelled
context. `Ready`, `StartParams` and `readyParticipants` of `tss/ecdsa/signing` and
`tss/frost/signing` are the same functions. -/

namespace Sygma.Initiate

/-- A call of `initiate`: the key share of the process, the host, and the peers a failed attempt
has excluded. -/
structure Call (Bytes : Type) where
  codec : Start.Codec Bytes
  /-- `json.Marshal` does not fail on a byte slice -/
  marshals : ∀ params, (codec.marshalStartMessage params).isSome
  order : PeerOrder
  sortPeersForSession : List PeerID → List PeerID
  sorts : ∀ peers, order.SortPeersForSession peers (sortPeersForSession peers)
  host : PeerID
  keyPeers : List PeerID
  threshold : ℕ
  excludedPeers : List PeerID
  /-- the number of `tssProcesses` -/
  processes : ℕ

inductive Event
  | ready (sender : PeerID)
  /-- the ticker -/
  | tick
  /-- the context is cancelled -/
  | done
deriving DecidableEq, Repr

inductive Action (Bytes : Type)
  | broadcastInitiate
  | broadcastStart (payload : Bytes)
  /-- `Run` of a process -/
  | run (process : ℕ) (params : Bytes)
deriving DecidableEq, Repr

/-- Where the loop of `initiate` stands. -/
inductive Pc
  | listening (readyPeers : List PeerID)
  /-- the loop has been left -/
  | left
deriving DecidableEq, Repr

variable {Bytes : Type} (c : Call Bytes)

def readyParticipants (readyPeers : List PeerID) : List PeerID :=
  readyPeers.filter fun p => p ∈ c.keyPeers

/-- `Signing.Ready` -/
def ready (readyPeers : List PeerID) : Bool :=
  (readyParticipants c readyPeers).length = c.threshold + 1

/-- The loop of `Signing.StartParams`. -/
def peerSubset (readyPeers : List PeerID) : List PeerID :=
  (c.sortPeersForSession (readyParticipants c readyPeers)).take (c.threshold + 1)

/-- `Signing.StartParams` -/
def startParams (readyPeers : List PeerID) : Bytes :=
  c.codec.marshalPeers (peerSubset c readyPeers)

def addReadyPeer (readyPeers : List PeerID) (sender : PeerID) : List PeerID :=
  if sender ∉ c.excludedPeers ∧ sender ∉ readyPeers then readyPeers ++ [sender] else readyPeers

/-- One turn of the loop, and what it does. -/
def step : Pc → Event → Pc × List (Action Bytes)
  | .left, _ => (.left, [])
  | .listening readyPeers, .ready sender =>
    let readyPeers := addReadyPeer c readyPeers sender
    if ready c readyPeers then
      let params := startParams c readyPeers
      match c.codec.marshalStartMessage params with
      | none => (.left, [])
      | some payload =>
        (.left, .broadcastStart payload :: (List.range c.processes).map fun i => .run i params)
    else (.listening readyPeers, [])
  | .listening readyPeers, .tick => (.listening readyPeers, [.broadcastInitiate])
  | .listening _, .done => (.left, [])

def loop : Pc → List Event → List (Action Bytes)
  | _, [] => []
  | pc, e :: es => (step c pc e).2 ++ loop (step c pc e).1 es

def initiate (es : List Event) : List (Action Bytes) :=
  .broadcastInitiate :: loop c (.listening [c.host]) es

end Sygma.Initiate
