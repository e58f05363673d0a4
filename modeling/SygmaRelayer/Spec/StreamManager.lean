import Mathlib.Logic.Function.Basic
import SygmaRelayer.Lib.Runs
import SygmaRelayer.Spec.Election

/-! Streams of the communication layer: `StreamManager` (`comm/p2p/manager.go`) and the calls of
`sendMessage` and `CloseSession` (`comm/p2p/libp2p.go`) that use it. The methods of the
manager hold its lock, so each is one step, and any number of `sendMessage` calls take their
steps in any order. -/

namespace Sygma.Streams

/-- An entry of `streamsBySessionID`; streams are numbered in the order they are opened. -/
structure Entry where
  session : String
  peer : PeerID
  stream : ℕ
deriving DecidableEq, Repr

/-- Where a `sendMessage` call stands. -/
inductive SendPc
  | idle
  /-- past `resolveDNS` -/
  | resolved (session : String) (peer : PeerID)
  /-- the manager had no stream -/
  | opening (session : String) (peer : PeerID)
  /-- `NewStream` has returned a stream -/
  | adding (session : String) (peer : PeerID) (stream : ℕ)
  | writing (session : String) (peer : PeerID) (stream : ℕ)
  | returned
deriving DecidableEq, Repr

/-- The session of a call that has not returned. -/
def SendPc.session : SendPc → Option String
  | .idle | .returned => none
  | .resolved session _ | .opening session _ | .adding session _ _ | .writing session _ _ =>
    some session

structure State where
  entries : List Entry
  /-- for whom each stream was opened -/
  opened : List (String × PeerID)
  /-- how often each stream was closed -/
  closes : ℕ → ℕ
  sends : ℕ → SendPc

def init : State := ⟨[], [], fun _ => 0, fun _ => .idle⟩

namespace State

/-- `StreamManager.Stream` -/
def stream (s : State) (session : String) (peer : PeerID) : Option ℕ :=
  (s.entries.find? fun e => e.session = session ∧ e.peer = peer).map (·.stream)

/-- `StreamManager.AddStream`: an entry that is there stays. -/
def addStream (s : State) (session : String) (peer : PeerID) (stream : ℕ) : State :=
  if (s.stream session peer).isSome then s
  else { s with entries := s.entries ++ [⟨session, peer, stream⟩] }

/-- `StreamManager.ReleaseStreams`; an error of `Close` is logged. -/
def releaseStreams (s : State) (session : String) : State :=
  let streams := (s.entries.filter fun e => e.session = session).map (·.stream)
  { s with
    entries := s.entries.filter fun e => e.session ≠ session
    closes := fun k => s.closes k + streams.count k }

@[simp] def setSend (s : State) (t : ℕ) (pc : SendPc) : State :=
  { s with sends := Function.update s.sends t pc }

end State

inductive Event
  /-- `sendMessage` is called, and `resolveDNS` succeeds or not -/
  | send (t : ℕ) (session : String) (peer : PeerID) (ok : Bool)
  | stream (t : ℕ)
  | newStream (t : ℕ) (ok : Bool)
  | addStream (t : ℕ)
  /-- `WriteStream` ends, with an error or not -/
  | write (t : ℕ)
  | closeSession (session : String)
deriving DecidableEq, Repr

def step (s : State) : Event → Option State
  | .send t session peer ok =>
    match s.sends t with
    | .idle => some (s.setSend t (if ok then .resolved session peer else .returned))
    | _ => none
  | .stream t =>
    match s.sends t with
    | .resolved session peer =>
      match s.stream session peer with
      | some k => some (s.setSend t (.writing session peer k))
      | none => some (s.setSend t (.opening session peer))
    | _ => none
  | .newStream t ok =>
    match s.sends t with
    | .opening session peer =>
      if ok then
        some { s.setSend t (.adding session peer s.opened.length) with
          opened := s.opened ++ [(session, peer)] }
      else some (s.setSend t .returned)
    | _ => none
  | .addStream t =>
    match s.sends t with
    | .adding session peer k =>
      some ((s.addStream session peer k).setSend t (.writing session peer k))
    | _ => none
  | .write t =>
    match s.sends t with
    | .writing _ _ _ => some (s.setSend t .returned)
    | _ => none
  | .closeSession session => some (s.releaseStreams session)

end Sygma.Streams
