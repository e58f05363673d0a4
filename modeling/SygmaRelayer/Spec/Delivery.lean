import SygmaRelayer.Spec.PartyStore
import SygmaRelayer.Spec.WireMessages

/-! Messages from relayer to relayer: `Broadcast`, the writes of `sendMessage` and
`ProcessMessagesFromStream` (`comm/p2p/libp2p.go`) of all relayers, with the messages that an ECDSA
process sends and takes (`tss/ecdsa/common/base.go`). `Broadcast` starts a goroutine for each
peer, a stream is read line by line, and another goroutine hands the message to each subscriber, so
that everything happens in any order. Peers that are not relayers of this program write what
they like to the streams they open. -/

namespace Sygma.Delivery

open Framing Comm

/-- A stream, by the peer that opened it and the one that reads it. -/
structure Link where
  sender : PeerID
  receiver : PeerID
  number : ℕ
deriving DecidableEq, Repr

/-- A goroutine of `Broadcast`, with the `Write`s it has still to make. -/
structure Send where
  link : Link
  wMsg : WrappedMessage
  writes : List (List UInt8)
  own : wMsg.fromPeer = link.sender
  suffix : writes <:+ writeStream (marshal wMsg)

/-- The first `Write` has been made. -/
def Send.Begun (x : Send) : Prop := x.writes ≠ writeStream (marshal x.wMsg)

instance (x : Send) : Decidable x.Begun := inferInstanceAs (Decidable (_ ≠ _))

/-- The next `Write`. -/
def Send.write (x : Send) : Option (List UInt8 × Send) :=
  match h : x.writes with
  | [] => none
  | chunk :: rest =>
    some (chunk, { x with writes := rest, suffix := (List.suffix_cons chunk rest).trans (h ▸ x.suffix) })

/-- The goroutines of a `Broadcast`. `stream` names the stream that `sendMessage` finds or opens for
a peer, and has none where it fails before it writes. -/
def broadcast (hostID : PeerID) (peers : List PeerID) (msg : Option (List UInt8))
    (msgType : MessageType) (sessionID : String) (stream : PeerID → Option ℕ) : List Send :=
  let wMsg : WrappedMessage := ⟨msgType, sessionID, msg, hostID⟩
  peers.filterMap fun peerID =>
    if hostID = peerID then none
    else (stream peerID).map fun number =>
      ⟨⟨hostID, peerID, number⟩, wMsg, writeStream (marshal wMsg), rfl, List.suffix_rfl⟩

structure State (Chan : Type) where
  sends : List Send
  /-- what was written to a stream and has not been read -/
  unread : Link → List UInt8
  /-- `ProcessMessagesFromStream` of the stream has returned -/
  stopped : Link → Bool
  managers : PeerID → SubscriptionManager Chan
  /-- the goroutines that wait to put a message on a channel of a relayer -/
  handing : List (PeerID × Chan × WrappedMessage)
  /-- what was taken from a channel of a relayer -/
  received : PeerID → Chan → List WrappedMessage

variable {Chan : Type}

def init : State Chan := ⟨[], fun _ => [], fun _ => false, fun _ => .empty, [], fun _ _ => []⟩

inductive Event (Chan : Type)
  | broadcast (hostID : PeerID) (peers : List PeerID) (msg : Option (List UInt8))
      (msgType : MessageType) (sessionID : String) (stream : PeerID → Option ℕ)
  | write (i : ℕ)
  /-- a peer writes to a stream of its own in another way -/
  | inject (link : Link) (bytes : List UInt8)
  | read (link : Link)
  | hand (i : ℕ)
  | subscribe (host : PeerID) (sessionID : String) (msgType : MessageType) (channel : Chan)
      (now : Int64)
  | unSubscribe (host : PeerID) (subscriptionID : String)

def State.append (s : State Chan) (link : Link) (bytes : List UInt8) : Link → List UInt8 :=
  Function.update s.unread link (s.unread link ++ bytes)

/-- The goroutines that `ProcessMessagesFromStream` starts for a message. -/
def State.handTo (s : State Chan) (host : PeerID) (wMsg : WrappedMessage) :
    List (PeerID × Chan × WrappedMessage) :=
  ((s.managers host).getSubscribers wMsg.sessionID wMsg.messageType).map fun sub => (host, sub, wMsg)

def State.setManager (s : State Chan) (host : PeerID) (m : SubscriptionManager Chan) : State Chan :=
  { s with managers := Function.update s.managers host m }

def step [DecidableEq Chan] (s : State Chan) : Event Chan → Option (State Chan)
  | .broadcast hostID peers msg msgType sessionID stream =>
    some { s with sends := s.sends ++ broadcast hostID peers msg msgType sessionID stream }
  | .write i =>
    (s.sends[i]?).bind fun x => x.write.map fun (chunk, x') =>
      { s with sends := s.sends.set i x', unread := s.append x.link chunk }
  | .inject link bytes => some { s with unread := s.append link bytes }
  | .read link =>
    if s.stopped link then none
    else match readStream (s.unread link) with
    -- the rest of the line is still to come
    | .error _ => none
    | .ok (msgBytes, rest) =>
      match unmarshal Wire.decodeWrapped msgBytes with
      | none => some { s with
          unread := Function.update s.unread link rest
          stopped := Function.update s.stopped link true }
      | some wrappedMsg => some { s with
          unread := Function.update s.unread link rest
          handing := s.handing ++ s.handTo link.receiver { wrappedMsg with fromPeer := link.sender } }
  | .hand i =>
    (s.handing[i]?).map fun (host, channel, wMsg) => { s with
      handing := s.handing.eraseIdx i
      received := Function.update s.received host
        (Function.update (s.received host) channel (s.received host channel ++ [wMsg])) }
  | .subscribe host sessionID msgType channel now =>
    some (s.setManager host ((s.managers host).subscribeTo sessionID msgType channel now).1)
  | .unSubscribe host subscriptionID =>
    some (s.setManager host ((s.managers host).unSubscribeFrom subscriptionID))

/-! ### ECDSA processes -/

/-- A `tss.Message` with the bytes and the flag of `WireBytes`. -/
structure OutMessage where
  wireBytes : List UInt8
  isBroadcast : Bool
  getTo : List PartyStore.PartyID
deriving DecidableEq, Repr

/-- `BroadcastPeers` of a process with these peers; the ID of a party is that of its peer. -/
def broadcastPeers (peers : List PeerID) (msg : OutMessage) : List PeerID :=
  if msg.isBroadcast then peers else msg.getTo.map fun party => party.id

/-- What `ProcessOutboundMessages` passes to `Broadcast`. -/
def outboundPayload (msg : OutMessage) : Option (List UInt8) :=
  some (Wire.marshalTssMessage (some msg.wireBytes) msg.isBroadcast)

/-- A call of `UpdateFromBytes`. -/
structure Update where
  wireBytes : Option (List UInt8)
  sender : Option PartyStore.PartyID
  isBroadcast : Bool
deriving DecidableEq, Repr

/-- `ProcessInboundMessages`: the calls of `UpdateFromBytes` for the messages from the channel. The
party returns an error or panics where `accepts` does not hold, which ends the loop. -/
def processInboundMessages (partyStore : PeerID → Option PartyStore.PartyID)
    (accepts : List Update → Update → Bool) (past : List Update) :
    List WrappedMessage → List Update
  | [] => past
  | wMsg :: rest =>
    match Wire.unmarshalTssMessage wMsg.payload with
    | none => past
    | some msg =>
      let update : Update := ⟨msg.msgBytes, partyStore wMsg.fromPeer, msg.isBroadcast⟩
      if accepts past update then
        processInboundMessages partyStore accepts (past ++ [update]) rest
      else past ++ [update]

end Sygma.Delivery
