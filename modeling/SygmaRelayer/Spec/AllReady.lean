import SygmaRelayer.Spec.TssPeers

/-! `initiate` of `tss/coordinator.go` for the processes every peer has to take part in:
keygen and resharing of `tss/ecdsa` and `tss/frost`. `Ready` compares the number of ready
peers with the size of the host's peerstore; `StartParams` reads the peerstore again, and so does
the broadcast of the start message. `LoadPeers` (`comm/p2p/host.go`) may change it at any time. A
ready message may come from any peer that is connected, listed or not. -/

namespace Sygma.AllReady

open TssPeers

/-- What `StartParams` of a process depends on. -/
inductive Process (Bytes : Type)
  | ecdsaKeygen
  | frostKeygen
  | ecdsaResharing (threshold : ℤ) (keyPeers : List PeerID)
  /-- the JSON of the public key and the verification shares -/
  | frostResharing (params : Bytes)
deriving DecidableEq, Repr

structure Call (Bytes : Type) where
  process : Process Bytes
  host : PeerID
  excludedPeers : List PeerID
  /-- the number of `tssProcesses` -/
  processes : ℕ
  /-- the JSON of the start params of an ECDSA resharing -/
  marshalStartParams : ℤ → List PeerID → Bytes
  /-- `[]byte{}` -/
  empty : Bytes

/-- `Keygen.Ready` -/
def keygenReady (readyPeers excludedPeers peerstore : List PeerID) : Except String Bool :=
  if excludedPeers.length > 0 then .error "error"
  else .ok (readyPeers.length = peerstore.length)

/-- `Resharing.Ready` -/
def resharingReady (readyPeers _excludedPeers peerstore : List PeerID) : Except String Bool :=
  .ok (readyPeers.length = peerstore.length)

variable {Bytes : Type} (c : Call Bytes)

/-- `Ready` of the process. -/
def ready (readyPeers peerstore : List PeerID) : Except String Bool :=
  match c.process with
  | .ecdsaKeygen | .frostKeygen => keygenReady readyPeers c.excludedPeers peerstore
  | .ecdsaResharing _ _ | .frostResharing _ => resharingReady readyPeers c.excludedPeers peerstore

/-- `StartParams` of the process. -/
def startParams (peerstore : List PeerID) : Bytes :=
  match c.process with
  | .ecdsaKeygen | .frostKeygen => c.empty
  | .ecdsaResharing threshold keyPeers =>
    c.marshalStartParams threshold (peersIntersection keyPeers peerstore)
  | .frostResharing params => params

inductive Event
  | ready (sender : PeerID)
  /-- the ticker -/
  | tick
  /-- the context is cancelled -/
  | done
  /-- `StartParams` is called -/
  | startParams
  /-- the start message is broadcast, and the processes are run -/
  | start
  /-- an operation of `LoadPeers` -/
  | peers (op : PeerOp)
deriving DecidableEq, Repr

inductive Action (Bytes : Type)
  | broadcastInitiate (peers : List PeerID)
  | broadcastStart (peers : List PeerID) (params : Bytes)
  /-- `Run` of a process -/
  | run (process : ℕ) (params : Bytes)
deriving DecidableEq, Repr

/-- Where `initiate` stands. -/
inductive Pc (Bytes : Type)
  | listening (readyPeers : List PeerID)
  /-- `Ready` has returned true -/
  | ready
  /-- `StartParams` has returned -/
  | params (startParams : Bytes)
  | left
  /-- `Ready` has returned an error -/
  | failed (err : String)
deriving DecidableEq, Repr

structure State (Bytes Store : Type) where
  pc : Pc Bytes
  peerstore : Store
  actions : List (Action Bytes)
deriving DecidableEq

variable {Store : Type} (store : Peerstore Store)

def init (peerstore : Store) : State Bytes Store where
  pc := .listening [c.host]
  peerstore := peerstore
  actions := [.broadcastInitiate (store.peers peerstore)]

def addReadyPeer (readyPeers : List PeerID) (sender : PeerID) : List PeerID :=
  if sender ∉ c.excludedPeers ∧ sender ∉ readyPeers then readyPeers ++ [sender] else readyPeers

def step (s : State Bytes Store) : Event → Option (State Bytes Store)
  | .ready sender =>
    match s.pc with
    | .listening readyPeers =>
      let readyPeers := addReadyPeer c readyPeers sender
      match ready c readyPeers (store.peers s.peerstore) with
      | .error err => some { s with pc := .failed err }
      | .ok false => some { s with pc := .listening readyPeers }
      | .ok true => some { s with pc := .ready }
    | _ => none
  | .tick =>
    match s.pc with
    | .listening _ =>
      some { s with actions := s.actions ++ [.broadcastInitiate (store.peers s.peerstore)] }
    | _ => none
  | .done =>
    match s.pc with
    | .listening _ => some { s with pc := .left }
    | _ => none
  | .startParams =>
    match s.pc with
    | .ready => some { s with pc := .params (startParams c (store.peers s.peerstore)) }
    | _ => none
  | .start =>
    match s.pc with
    | .params params =>
      some { s with
        pc := .left
        actions := s.actions ++ .broadcastStart (store.peers s.peerstore) params ::
          (List.range c.processes).map fun i => .run i params }
    | _ => none
  | .peers op => some { s with peerstore := store.apply s.peerstore op }

end Sygma.AllReady
