import SygmaRelayer.Lib.Runs
import SygmaRelayer.Spec.Election

/-! The bully coordinator elector (`comm/elector/bully.go`): one call of `Coordinator`
with its two goroutines, `listen` and `startBullyCoordination`, and the channels between
them. Any peer may send any message at any time; messages wait on `msgChan` and are
received in any order. Timers may elapse at any time. -/

namespace Sygma.Bully

/-- The message types `listen` subscribes to. -/
inductive MessageType
  | coordinatorPingMsg
  | coordinatorElectionMsg
  | coordinatorAliveMsg
  | coordinatorPingResponseMsg
  | coordinatorSelectMsg
  | coordinatorLeaveMsg
deriving DecidableEq, Repr

structure WrappedMessage where
  messageType : MessageType
  /-- `From` -/
  sender : PeerID
deriving DecidableEq, Repr

structure Broadcast where
  peers : List PeerID
  messageType : MessageType
deriving DecidableEq, Repr

structure Config where
  order : PeerOrder
  hostID : PeerID
  /-- the argument of `Coordinator` -/
  peers : List PeerID

/-- The loop of `isPeerIDHigher` for one of its peers; a peer that is not listed keeps 0. -/
def index (sortedPeers : List PeerID) (p : PeerID) : ℕ :=
  sortedPeers.zipIdx.foldl (fun i q => if p = q.1 then q.2 else i) 0

def isPeerIDHigher (sortedPeers : List PeerID) (p1 p2 : PeerID) : Bool :=
  index sortedPeers p1 < index sortedPeers p2

/-- Where the goroutine of `listen` stands. -/
inductive Listener
  | listening
  /-- sends on the full `electionChan`, for 500 ms at most -/
  | sending (msg : WrappedMessage)
  /-- sends on `receiveChan` -/
  | forwarding (msg : WrappedMessage)
  /-- sends on `pingChan`, from which nothing receives -/
  | pinging (msg : WrappedMessage)
  | stopped
deriving DecidableEq, Repr

/-- Where the goroutine of `startBullyCoordination` stands. -/
inductive Coordination
  | notStarted
  /-- in the select of `elect` -/
  | waiting
  /-- at `receiveChan` -/
  | receiving
deriving DecidableEq, Repr

structure State where
  sortedPeers : List PeerID
  coordinator : PeerID
  listener : Listener
  coordination : Coordination
  /-- the messages that wait to be received -/
  msgChan : List WrappedMessage
  /-- has room for one message -/
  electionChan : Option WrappedMessage
  broadcasts : List Broadcast
  /-- the result of `Coordinator`, which cancels the context -/
  returned : Option PeerID
deriving DecidableEq

def init (c : Config) : State where
  sortedPeers := []
  coordinator := c.hostID
  listener := .listening
  coordination := .notStarted
  msgChan := []
  electionChan := none
  broadcasts := []
  returned := none

inductive Event
  /-- `Coordinator` sorts the peers and `startBullyCoordination` begins -/
  | start (sorted : List PeerID)
  /-- a message reaches `msgChan` -/
  | reach (msg : WrappedMessage)
  /-- `listen` receives from `msgChan` -/
  | listen (msg : WrappedMessage)
  /-- the 500 ms of `listen` elapse -/
  | giveUp
  /-- `elect` receives from `electionChan` -/
  | alive
  /-- `ElectionWaitTime` elapses -/
  | timeout
  /-- `startBullyCoordination` receives what `listen` sends -/
  | receive
  /-- `BullyWaitTime` elapses -/
  | finish
  /-- `listen` sees that the context is cancelled -/
  | stop
deriving DecidableEq

variable (c : Config)

@[simp] def State.broadcast (s : State) (peers : List PeerID) (type : MessageType) : State :=
  { s with broadcasts := s.broadcasts ++ [⟨peers, type⟩] }

def setCoordinator (s : State) (ID : PeerID) : State :=
  if isPeerIDHigher s.sortedPeers ID s.coordinator ∨ ID = c.hostID then
    { s with coordinator := ID }
  else s

/-- `elect` up to its select. -/
def elect (s : State) : State :=
  let higher := s.sortedPeers.filter fun p => isPeerIDHigher s.sortedPeers p c.hostID
  { s with
    coordination := .waiting
    broadcasts := s.broadcasts ++ higher.map fun p => ⟨[p], .coordinatorElectionMsg⟩ }

/-- `listen` on a message. -/
def listen (s : State) (msg : WrappedMessage) : State :=
  match msg.messageType with
  | .coordinatorAliveMsg =>
    if isPeerIDHigher s.sortedPeers c.hostID msg.sender then
      match s.electionChan with
      | none => { s with electionChan := some msg }
      | some _ => { s with listener := .sending msg }
    else s
  | .coordinatorSelectMsg | .coordinatorElectionMsg => { s with listener := .forwarding msg }
  | .coordinatorPingResponseMsg => { s with listener := .pinging msg }
  | .coordinatorPingMsg => s.broadcast [msg.sender] .coordinatorPingResponseMsg
  | .coordinatorLeaveMsg => s

/-- `startBullyCoordination` on a message. -/
def receive (s : State) (msg : WrappedMessage) : State :=
  if msg.messageType = .coordinatorElectionMsg ∧
      ¬ isPeerIDHigher s.sortedPeers msg.sender c.hostID then
    elect c (s.broadcast [msg.sender] .coordinatorAliveMsg)
  else if msg.messageType = .coordinatorSelectMsg then setCoordinator c s msg.sender
  else s

/-- `elect` takes the message of `electionChan`; one that `listen` is sending takes its place. -/
def takeAlive (s : State) : State :=
  match s.listener with
  | .sending msg => { s with electionChan := some msg, listener := .listening }
  | _ => { s with electionChan := none }

def step (s : State) : Event → Option State
  | .start sorted =>
    if s.coordination = .notStarted ∧ c.order.SortPeersForSession c.peers sorted then
      some (elect c { s with sortedPeers := sorted })
    else none
  | .reach msg => some { s with msgChan := s.msgChan ++ [msg] }
  | .listen msg =>
    if s.listener = .listening ∧ msg ∈ s.msgChan then
      some (listen c { s with msgChan := s.msgChan.erase msg } msg)
    else none
  | .giveUp =>
    match s.listener with
    | .sending _ => some { s with listener := .listening }
    | _ => none
  | .alive =>
    if s.coordination = .waiting ∧ s.electionChan.isSome then
      some (takeAlive { s with coordination := .receiving })
    else none
  | .timeout =>
    if s.coordination = .waiting then
      some ((setCoordinator c { s with coordination := .receiving } c.hostID).broadcast
        s.sortedPeers .coordinatorSelectMsg)
    else none
  | .receive =>
    match s.coordination, s.listener with
    | .receiving, .forwarding msg => some (receive c { s with listener := .listening } msg)
    | _, _ => none
  | .finish =>
    if s.coordination ≠ .notStarted ∧ s.returned = none then
      some { s with returned := some s.coordinator }
    else none
  | .stop =>
    if s.listener = .listening ∧ s.returned.isSome then some { s with listener := .stopped }
    else none

end Sygma.Bully
