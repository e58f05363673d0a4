import SygmaRelayer.Spec.FungibleCodec

/-! Non-fungible and permissionless generic transfers: the deposit handlers
(`chains/evm/listener/depositHandlers/erc721.go` and `permissionless.go`) that take
calldata apart and the message handlers (`chains/evm/executor/message-handler.go`) that
put the data of a proposal together. The payload and the calldata of a generic transfer
have their fields in different orders. -/

namespace Sygma

open Go

/-- `message.NewMessage` with the data of a transfer. -/
def DepositHeader.transfer (h : DepositHeader) (gasLimit : Option UInt64)
    (payload : List PayloadItem) (type : TransferType) : Message where
  source := h.sourceID
  destination := h.destID
  data := ⟨h.nonce, h.resourceID, gasLimit, payload, type⟩
  id := h.messageID
  timestamp := h.timestamp

namespace Evm

/-- `Erc721DepositHandler.HandleDeposit` -/
def erc721HandleDeposit (h : DepositHeader) (calldata _handlerResponse : Slice UInt8) :
    Outcome Message := do
  if calldata.elems.length < 64 then
    throw (.error "invalid calldata length: less than 84 bytes")
  let tokenId ← calldata.read 0 32
  let recipientAddressLength := int64 (Bytes.toNat (← calldata.read 32 64))
  let recipientEnd := int64 (64 + recipientAddressLength)
  let recipientAddress ← calldata.read 64 recipientEnd
  let metadataStart := int64 (recipientEnd + 32)
  let metadataLength := Bytes.toNat (← calldata.read recipientEnd metadataStart)
  -- without metadata the slice stays nil
  let metadata ← if metadataLength > 0 then
      calldata.read metadataStart (int64 (metadataStart + int64 metadataLength))
    else pure []
  return h.transfer none [.bytes tokenId, .bytes recipientAddress, .bytes metadata]
    .nonFungibleTransfer

/-- `PermissionlessGenericDepositHandler.HandleDeposit` -/
def permissionlessGenericHandleDeposit (h : DepositHeader)
    (calldata _handlerResponse : Slice UInt8) : Outcome Message := do
  if calldata.elems.length < 76 then
    throw (.error "invalid calldata length: less than 76 bytes")
  let maxFee ← calldata.read 0 32
  let functionSigLen := int64 (Bytes.toNat (← calldata.read 32 34))
  let functionSigEnd := int64 (34 + functionSigLen)
  let functionSig ← calldata.read 34 functionSigEnd
  let contractAddressStart := int64 (functionSigEnd + 1)
  let contractAddressLen :=
    int64 (Bytes.toNat (← calldata.read functionSigEnd contractAddressStart))
  let contractAddressEnd := int64 (contractAddressStart + contractAddressLen)
  let contractAddress ← calldata.read contractAddressStart contractAddressEnd
  let depositorStart := int64 (contractAddressEnd + 1)
  let depositorLen := int64 (Bytes.toNat (← calldata.read contractAddressEnd depositorStart))
  let depositorEnd := int64 (depositorStart + depositorLen)
  let depositorAddress ← calldata.read depositorStart depositorEnd
  let executionData ← calldata.read depositorEnd calldata.elems.length
  return h.transfer (some (UInt64.ofInt (int64 (Bytes.toNat maxFee))))
    [.bytes functionSig, .bytes contractAddress, .bytes maxFee, .bytes depositorAddress,
      .bytes executionData] .permissionlessGenericTransfer

/-- The token ID and the recipient and the metadata, each with its length. -/
def encodeNonFungible (tokenID recipient metadata : List UInt8) : List UInt8 :=
  Bytes.leftPad tokenID 32 ++ Bytes.leftPad (Bytes.ofNat recipient.length) 32 ++ recipient ++
    Bytes.leftPad (Bytes.ofNat metadata.length) 32 ++ metadata

def erc721MessageHandler (m : Message) : Outcome TransferProposal := do
  match m.data.payload with
  | [tokenID, recipient, metadata] =>
    let tokenID ← tokenID.asBytes "wrong payload tokenID format"
    let recipient ← recipient.asBytes "wrong payload recipient format"
    let metadata ← metadata.asBytes "wrong payload metadata format"
    return m.proposal (encodeNonFungible tokenID recipient metadata)
  | _ => throw (.error "malformed payload. Len  of payload should be 3")

/-- The fields of a generic call in the order of the wire. -/
def encodeGeneric (maxFee functionSig contractAddress depositor executionData : List UInt8) :
    List UInt8 :=
  Bytes.leftPad maxFee 32 ++ Bytes.leftPad (Bytes.ofNat functionSig.length) 2 ++ functionSig ++
    [UInt8.ofNat contractAddress.length] ++ contractAddress ++
    [UInt8.ofNat depositor.length] ++ depositor ++ executionData

/-- `Payload[i]` asserted to be a `[]byte`; the length of the payload is not checked before. -/
def payloadBytes (payload : List PayloadItem) (i : ℕ) (text : String) : Outcome (List UInt8) :=
  match payload[i]? with
  | none => .error .panic
  | some item => item.asBytes text

def permissionlessGenericMessageHandler (m : Message) : Outcome TransferProposal := do
  let payload := m.data.payload
  let executeFunctionSignature ← payloadBytes payload 0 "wrong function signature format"
  let executeContractAddress ← payloadBytes payload 1 "wrong contract address format"
  let maxFee ← payloadBytes payload 2 "wrong max fee format"
  let depositor ← payloadBytes payload 3 "wrong depositor data format"
  let executionData ← payloadBytes payload 4 "wrong execution data format"
  return m.proposal (encodeGeneric maxFee executeFunctionSignature executeContractAddress
    depositor executionData)

end Evm

end Sygma
