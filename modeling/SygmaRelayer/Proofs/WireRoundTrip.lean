import SygmaRelayer.Proofs.PartyStore
import SygmaRelayer.Proofs.SharedStream
import SygmaRelayer.Spec.StartProtocol
import SygmaRelayer.Spec.WireMessages

/-! The messages of the relayers come back from their JSON. Each is a struct whose fields are
written in order, so its text is read as an object with these members, and the members set the
fields one after another. -/

namespace Sygma.Wire

open JsonReader JsonScanner Framing

theorem decodeWrapped_marshal (wMsg : WrappedMessage) :
    decodeWrapped (marshal wMsg) = some { wMsg with fromPeer := "" } := by
  obtain ⟨payload, hpayload, hset⟩ := readsAs_bytes wMsg.payload
  have hfields : FieldsReadAs [("message_id", JsonWriter.quote wMsg.sessionID),
      ("payload", JsonWriter.bytes wMsg.payload)]
      [("message_id".toList, .string wMsg.sessionID.toList), ("payload".toList, payload)] :=
    .cons ⟨rfl, readsAs_quote _⟩ (.cons ⟨rfl, hpayload⟩ .nil)
  unfold decodeWrapped marshal
  rw [valueOf_object (readsAs_decimal wMsg.messageType) hfields, Option.bind_some]
  have hdecode := @decodeStruct_object _ ["message_type", "message_id", "payload"] setWrapped
    ⟨0, "", none, ""⟩ [("message_type", .number (JsonWriter.decimal wMsg.messageType)),
      ("message_id", .string wMsg.sessionID.toList), ("payload", payload)] (by simp)
  refine hdecode.trans ?_
  simp [setWrapped, setUint8_decimal, setString, hset]

theorem objectText_marshalTssMessage (msgBytes : Option (List UInt8)) (isBroadcast : Bool) :
    ObjectText (marshalTssMessage msgBytes isBroadcast) :=
  JsonWriter.objectText_object ⟨0x6d, _, rfl, by decide, by decide⟩
    (JsonWriter.value_bytes msgBytes) (by simp [JsonWriter.value_boolean])

theorem unmarshalTssMessage_marshal (msgBytes : Option (List UInt8)) (isBroadcast : Bool) :
    unmarshalTssMessage (some (marshalTssMessage msgBytes isBroadcast)) =
      some ⟨msgBytes, isBroadcast⟩ := by
  obtain ⟨v, hv, hset⟩ := readsAs_bytes msgBytes
  have hfields : FieldsReadAs [("isBroadcast", JsonWriter.boolean isBroadcast)]
      [("isBroadcast".toList, .bool isBroadcast)] := .cons ⟨rfl, readsAs_boolean _⟩ .nil
  unfold unmarshalTssMessage unmarshalStruct
  rw [Option.getD_some, if_pos (objectText_marshalTssMessage msgBytes isBroadcast).valid,
    marshalTssMessage, valueOf_object hv hfields, Option.bind_some]
  have hdecode := @decodeStruct_object _ ["msgBytes", "isBroadcast"] setTss ⟨none, false⟩
    [("msgBytes", v), ("isBroadcast", .bool isBroadcast)] (by simp)
  refine hdecode.trans ?_
  simp [setTss, setBool, hset]

theorem objectText_marshalStartMessage (params : Option (List UInt8)) :
    ObjectText (marshalStartMessage params) :=
  JsonWriter.objectText_object ⟨0x70, _, rfl, by decide, by decide⟩
    (JsonWriter.value_bytes params) (by simp)

theorem unmarshalStartMessage_marshal (params : Option (List UInt8)) :
    unmarshalStartMessage (some (marshalStartMessage params)) = some ⟨params⟩ := by
  obtain ⟨v, hv, hset⟩ := readsAs_bytes params
  unfold unmarshalStartMessage unmarshalStruct
  rw [Option.getD_some, if_pos (objectText_marshalStartMessage params).valid,
    marshalStartMessage, valueOf_object hv .nil, Option.bind_some]
  have hdecode := @decodeStruct_object _ ["params"] setStart ⟨none⟩ [("params", v)] (by simp)
  refine hdecode.trans ?_
  simp [setStart, hset]

theorem unmarshallStartParams_marshalPeers {decodeID : String → Option PeerID}
    {peerSubset : List PeerID} (hids : ∀ p ∈ peerSubset, decodeID p = some p) :
    unmarshallStartParams decodeID (some (marshalPeers peerSubset)) = some peerSubset := by
  rw [unmarshallStartParams, Option.getD_some, marshalPeers, unmarshalStrings_strings,
    Option.bind_some]
  induction peerSubset with
  | nil => rfl
  | cons p peerSubset ih =>
    rw [List.mapM_cons, hids p List.mem_cons_self, ih fun r hr => hids r (List.mem_cons_of_mem p hr)]
    rfl

/-- The codec of the start of a signing session. -/
def startCodec (decodeID : String → Option PeerID) : Start.Codec (Option (List UInt8)) where
  marshalPeers peerSubset := some (marshalPeers peerSubset)
  unmarshalPeers := unmarshallStartParams decodeID
  marshalStartMessage params := some (some (marshalStartMessage params))
  unmarshalStartMessage payload := (unmarshalStartMessage payload).map StartMessage.params
  decodes p := decodeID p = some p
  peers_roundtrip _ h := unmarshallStartParams_marshalPeers h
  start_roundtrip params _ h := by
    cases h
    rw [unmarshalStartMessage_marshal]
    rfl

/-- The subset goes through three texts, each a string of the next one. A process that gets the
start message runs with the subset that the coordinator chose, in its order. -/
theorem runStart_startPayload (order : PartyStore.PartyOrder) (decodeID : String → Option PeerID)
    (host coordinator : PeerID) (s : PartyStore.Signing) {peerSubset : List PeerID}
    (hids : ∀ p ∈ peerSubset, decodeID p = some p) (msgType : UInt8) (sessionID : String)
    (rest : List UInt8) :
    ∃ msgBytes, readStream (frame ⟨msgType, sessionID, startPayload peerSubset, coordinator⟩ ++ rest) =
        .ok (msgBytes, rest) ∧
      runStart order decodeID host s msgBytes =
        some (PartyStore.run order host s (some peerSubset)) := by
  set wMsg : WrappedMessage := ⟨msgType, sessionID, startPayload peerSubset, coordinator⟩
  refine ⟨marshal wMsg, ?_, ?_⟩
  · rw [frame, List.append_assoc]
    exact readStream_line (newline_notMem_marshal wMsg) rest
  · unfold runStart
    rw [unmarshal_marshal, decodeWrapped_marshal, Option.bind_eq_bind, Option.bind_some,
      show wMsg.payload = startPayload peerSubset from rfl, startPayload,
      unmarshalStartMessage_marshal, Option.bind_eq_bind, Option.bind_some,
      unmarshallStartParams_marshalPeers hids]
    rfl

theorem runStart_startPayload_pair :
    ∃ msgBytes, readStream (frame ⟨6, "sessionID", startPayload [secondPeer, firstPeer], secondPeer⟩ ++
        [0x7b]) = .ok (msgBytes, [0x7b]) ∧
      runStart PartyStore.keyOrder decodePeer firstPeer
          (PartyStore.newSigning [firstPeer, secondPeer, thirdPeer]) msgBytes =
        some (PartyStore.run PartyStore.keyOrder firstPeer
          (PartyStore.newSigning [firstPeer, secondPeer, thirdPeer]) (some [secondPeer, firstPeer])) :=
  runStart_startPayload PartyStore.keyOrder decodePeer firstPeer secondPeer _ (by decide) 6 "sessionID" [0x7b]

end Sygma.Wire
