import Mathlib.Logic.Function.Basic
import SygmaRelayer.Lib.Runs
import SygmaRelayer.Spec.Election

/-! The start of a signing session across relayers: `start`, `initiate` and
`waitForStart` of `tss/coordinator.go` with the signing processes of `tss/ecdsa` and
`tss/frost`, for the first attempt of each relayer: one `Execute` of the session, up to
`handleError`. The coordinator broadcasts a start message with the signing subset once
enough peers are ready; the others run when they receive it. The network may delay,
drop, repeat and reorder messages, and every peer but the static coordinator may send
what it likes under its own name. -/

namespace Sygma.Start

/-- The JSON codecs of the start message and of the signing subset. -/
structure Codec (Bytes : Type) where
  marshalPeers : List PeerID → Bytes
  unmarshalPeers : Bytes → Option (List PeerID)
  marshalStartMessage : Bytes → Option Bytes
  unmarshalStartMessage : Bytes → Option Bytes
  /-- `peer.Decode` reads it back -/
  decodes : PeerID → Prop
  peers_roundtrip : ∀ l, (∀ p ∈ l, decodes p) → unmarshalPeers (marshalPeers l) = some l
  start_roundtrip : ∀ params payload, marshalStartMessage params = some payload →
    unmarshalStartMessage payload = some params

/-- A signing session: every relayer has a key share with the same peers, which their hashes tell
apart, and `coordinator` is the relayer the static elector chooses. -/
structure Session (Bytes : Type) where
  codec : Codec Bytes
  order : PeerOrder
  keyPeers : PeerID → List PeerID
  threshold : PeerID → ℕ
  coordinator : PeerID
  samePeers : ∀ r p, p ∈ keyPeers r ↔ p ∈ keyPeers coordinator
  decodes : ∀ p ∈ keyPeers coordinator, codec.decodes p
  distinct : order.Distinct (keyPeers coordinator)
  static : ∃ sorted, order.SortPeersForSession (keyPeers coordinator) sorted ∧
    sorted.head? = some coordinator
  /-- `waitForStart` takes the empty ID for "any sender" -/
  named : coordinator ≠ ""

variable {Bytes : Type} (se : Session Bytes)

/-- How `Run` of a signing process begins. -/
inductive RunResult
  /-- the start params cannot be read -/
  | invalidParams
  /-- `SubsetError`: the host is not in the subset -/
  | subsetError
  /-- a tss party is started with the subset -/
  | party (subset : List PeerID)
deriving DecidableEq, Repr

def run (host : PeerID) (params : Bytes) : RunResult :=
  match se.codec.unmarshalPeers params with
  | none => .invalidParams
  | some subset => if host ∈ subset then .party subset else .subsetError

def readyParticipants (r : PeerID) (readyPeers : List PeerID) : List PeerID :=
  readyPeers.filter fun p => p ∈ se.keyPeers r

/-- `Signing.Ready` -/
def ready (r : PeerID) (readyPeers : List PeerID) : Bool :=
  (readyParticipants se r readyPeers).length = se.threshold r + 1

/-- `Signing.StartParams` on the sorted ready participants. -/
def startParams (r : PeerID) (sorted : List PeerID) : Bytes :=
  se.codec.marshalPeers (sorted.take (se.threshold r + 1))

/-- Where a relayer stands in its first attempt. -/
inductive Pc
  | idle
  | initiating (readyPeers : List PeerID)
  | waiting (coordinator : PeerID)
  /-- `Run` was called -/
  | running
  /-- the attempt ended without `Run`: a timeout, a start message that cannot be read, a cancelled
  context -/
  | ended
  /-- in `handleError` -/
  | retrying
deriving DecidableEq

/-- A call of `Run` in the first attempt of a relayer. -/
structure Call (Bytes : Type) where
  relayer : PeerID
  params : Bytes
  result : RunResult

structure State (Bytes : Type) where
  pc : PeerID → Pc
  /-- the start messages sent so far, under their senders -/
  starts : List (PeerID × Bytes)
  calls : List (Call Bytes)

def init : State Bytes := ⟨fun _ => .idle, [], []⟩

inductive Event (Bytes : Type)
  /-- `Execute` sorts the peers of the key share and enters `initiate` or `waitForStart` -/
  | execute (r : PeerID) (sorted : List PeerID)
  /-- `initiate` receives a ready message; `sorted` is used if it now starts -/
  | ready (r sender : PeerID) (sorted : List PeerID)
  /-- `waitForStart` receives an initiate message and may answer with a ready message, which any
  peer may send anyway -/
  | initiate (r sender : PeerID)
  /-- `waitForStart` receives a start message -/
  | start (r sender : PeerID) (payload : Bytes)
  | stop (r : PeerID)
  | handleError (r : PeerID)
  /-- a start message from a peer that need not follow the code, or that retries -/
  | send (sender : PeerID) (payload : Bytes)
deriving DecidableEq

@[simp] def State.setPc (s : State Bytes) (r : PeerID) (pc : Pc) : State Bytes :=
  { s with pc := Function.update s.pc r pc }

@[simp] def State.broadcast (s : State Bytes) (r : PeerID) (payload : Bytes) : State Bytes :=
  { s with starts := s.starts ++ [(r, payload)] }

@[simp] def State.callRun (s : State Bytes) (r : PeerID) (params : Bytes) : State Bytes :=
  { s.setPc r .running with calls := s.calls ++ [⟨r, params, run se r params⟩] }

/-- `initiate` once enough peers are ready. -/
def broadcastStart (s : State Bytes) (r : PeerID) (sorted : List PeerID) : State Bytes :=
  let params := startParams se r sorted
  match se.codec.marshalStartMessage params with
  | none => s.setPc r .ended
  | some payload => (s.broadcast r payload).callRun se r params

def step [DecidableEq Bytes] (s : State Bytes) : Event Bytes → Option (State Bytes)
  | .execute r sorted =>
    if s.pc r = .idle ∧ se.order.SortPeersForSession (se.keyPeers r) sorted then
      let coordinator := PeerOrder.coordinator sorted
      if coordinator = r then some (s.setPc r (.initiating [r]))
      else some (s.setPc r (.waiting coordinator))
    else none
  | .ready r sender sorted =>
    match s.pc r with
    | .initiating readyPeers =>
      let readyPeers := if sender ∈ readyPeers then readyPeers else readyPeers ++ [sender]
      if ready se r readyPeers then
        if se.order.SortPeersForSession (readyParticipants se r readyPeers) sorted then
          some (broadcastStart se s r sorted)
        else none
      else some (s.setPc r (.initiating readyPeers))
    | _ => none
  | .initiate r _ =>
    match s.pc r with
    | .waiting _ => some s
    | _ => none
  | .start r sender payload =>
    match s.pc r with
    | .waiting coordinator =>
      if (sender, payload) ∈ s.starts then
        if coordinator ≠ "" ∧ sender ≠ coordinator then some s
        else
          match se.codec.unmarshalStartMessage payload with
          | none => some (s.setPc r .ended)
          | some params => some (s.callRun se r params)
      else none
    | _ => none
  | .stop r =>
    match s.pc r with
    | .initiating _ | .waiting _ => some (s.setPc r .ended)
    | _ => none
  | .handleError r =>
    match s.pc r with
    | .running | .ended => some (s.setPc r .retrying)
    | _ => none
  | .send sender payload =>
    if sender ≠ se.coordinator ∨ s.pc sender = .retrying then some (s.broadcast sender payload)
    else none

/-- The start messages of one sender. -/
def startsFrom (s : State Bytes) (sender : PeerID) : List Bytes :=
  (s.starts.filter fun m => m.1 = sender).map Prod.snd

end Sygma.Start
