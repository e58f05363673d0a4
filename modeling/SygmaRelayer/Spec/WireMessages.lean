import SygmaRelayer.Lib.JsonReader
import SygmaRelayer.Spec.PartyStore
import SygmaRelayer.Spec.StreamFraming

/-! The messages of the relayers in JSON: what `json.Unmarshal` decodes a `WrappedMessage`
(`comm/communication.go`) from, and the messages of a TSS process and of a coordinator
(`tss/message/message.go`) that travel as its payload. -/

namespace Sygma.Wire

open JsonReader Framing

/-- The fields of `comm.WrappedMessage` with a JSON name. -/
def setWrapped (name : String) (v : Value) (wMsg : WrappedMessage) : Option WrappedMessage :=
  if name = "message_type" then
    (setUint8 wMsg.messageType v).map fun t => { wMsg with messageType := t }
  else if name = "message_id" then
    (setString wMsg.sessionID v).map fun id => { wMsg with sessionID := id }
  else if name = "payload" then (setBytes wMsg.payload v).map fun bs => { wMsg with payload := bs }
  else some wMsg

/-- What the fields of a `WrappedMessage` are decoded from, once the syntax has been checked. -/
def decodeWrapped (data : List UInt8) : Option WrappedMessage :=
  (valueOf data).bind
    (decodeStruct ["message_type", "message_id", "payload"] setWrapped ⟨0, "", none, ""⟩)

/-- `message.TssMessage` -/
structure TssMessage where
  msgBytes : Option (List UInt8)
  isBroadcast : Bool
deriving DecidableEq, Repr

/-- `MarshalTssMessage` -/
def marshalTssMessage (msgBytes : Option (List UInt8)) (isBroadcast : Bool) : List UInt8 :=
  JsonWriter.object "msgBytes" (JsonWriter.bytes msgBytes)
    [("isBroadcast", JsonWriter.boolean isBroadcast)]

def setTss (name : String) (v : Value) (msg : TssMessage) : Option TssMessage :=
  if name = "msgBytes" then (setBytes msg.msgBytes v).map fun bs => { msg with msgBytes := bs }
  else if name = "isBroadcast" then
    (setBool msg.isBroadcast v).map fun b => { msg with isBroadcast := b }
  else some msg

/-- `UnmarshalTssMessage`; a nil slice is the empty text. -/
def unmarshalTssMessage (msgBytes : Option (List UInt8)) : Option TssMessage :=
  unmarshalStruct ["msgBytes", "isBroadcast"] setTss ⟨none, false⟩ (msgBytes.getD [])

/-- `message.StartMessage` -/
structure StartMessage where
  params : Option (List UInt8)
deriving DecidableEq, Repr

/-- `MarshalStartMessage` -/
def marshalStartMessage (params : Option (List UInt8)) : List UInt8 :=
  JsonWriter.object "params" (JsonWriter.bytes params) []

def setStart (name : String) (v : Value) (msg : StartMessage) : Option StartMessage :=
  if name = "params" then (setBytes msg.params v).map fun bs => ⟨bs⟩ else some msg

/-- `UnmarshalStartMessage` -/
def unmarshalStartMessage (msgBytes : Option (List UInt8)) : Option StartMessage :=
  unmarshalStruct ["params"] setStart ⟨none⟩ (msgBytes.getD [])

/-! ### The subset of a signing process

A peer ID is written as its base58 text; `decodeID` is `peer.Decode`. -/

/-- The start params that `Signing.StartParams` makes of its subset. -/
def marshalPeers (peerSubset : List PeerID) : List UInt8 := JsonWriter.strings peerSubset

/-- `Signing.unmarshallStartParams`: `UnmarshalJSON` of a peer ID decodes the string it reads. -/
def unmarshallStartParams (decodeID : String → Option PeerID) (paramBytes : Option (List UInt8)) :
    Option (List PeerID) :=
  (unmarshalStrings (paramBytes.getD [])).bind fun ids => ids.mapM decodeID

/-- What `initiate` broadcasts for the subset. -/
def startPayload (peerSubset : List PeerID) : Option (List UInt8) :=
  some (marshalStartMessage (some (marshalPeers peerSubset)))

/-- `Run` of a signing process for a line of a stream that is the start message `waitForStart`
waits for. -/
def runStart (order : PartyStore.PartyOrder) (decodeID : String → Option PeerID) (host : PeerID)
    (s : PartyStore.Signing) (msgBytes : List UInt8) :
    Option (PartyStore.Signing × PartyStore.Beginning) := do
  let wMsg ← unmarshal decodeWrapped msgBytes
  let msg ← unmarshalStartMessage wMsg.payload
  return PartyStore.run order host s (unmarshallStartParams decodeID msg.params)

end Sygma.Wire
