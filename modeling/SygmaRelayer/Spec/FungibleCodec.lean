import SygmaRelayer.Lib.Bytes
import SygmaRelayer.Spec.EvmExecutor
import SygmaRelayer.Spec.Transfer

/-! Fungible transfers on their way between chains. The deposit handlers of EVM
(`chains/evm/listener/depositHandlers/erc20.go`) and Substrate
(`chains/substrate/listener/deposit-handler.go`) take calldata apart, and the message
handlers (`chains/evm/executor/message-handler.go`,
`chains/substrate/executor/message-handler.go`) put the data of a proposal together. -/

namespace Sygma

open Go

def OPTIONAL_REVERT_GAS : ℕ := 100000

/-- The arguments of a deposit handler that it copies into its message. -/
structure DepositHeader where
  sourceID : UInt8
  destID : UInt8
  nonce : UInt64
  resourceID : ResourceID
  messageID : String
  timestamp : ℤ
deriving DecidableEq, Repr

/-- `message.NewMessage` with the data of a fungible transfer. -/
def DepositHeader.message (h : DepositHeader) (gasLimit : Option UInt64)
    (payload : List PayloadItem) : Message where
  source := h.sourceID
  destination := h.destID
  data := ⟨h.nonce, h.resourceID, gasLimit, payload, .fungibleTransfer⟩
  id := h.messageID
  timestamp := h.timestamp

namespace Evm

/-- The amount: the one the bridge handler converted it to, if it did. -/
def erc20Amount (calldata handlerResponse : Slice UInt8) : Outcome (List UInt8) :=
  if handlerResponse.elems.length > 0 then handlerResponse.read 0 32 else calldata.read 0 32

/-- The fee of the optional message with the gas for a revert added, and the message in
`calldata[lo:]` with that fee in the place of its own, `calldata[lo:hi]`. -/
def erc20OptionalMessage (calldata : Slice UInt8) (lo hi : ℤ) : Outcome (ℕ × List UInt8) := do
  let maxFee := Bytes.toNat (← calldata.read lo hi) + OPTIONAL_REVERT_GAS
  -- `copy` fills 32 bytes, however long the new fee is
  let fee := (Bytes.leftPad (Bytes.ofNat maxFee) 32).take 32
  return (maxFee, fee ++ (← calldata.read hi calldata.elems.length))

/-- `Erc20DepositHandler.HandleDeposit` -/
def erc20HandleDeposit (h : DepositHeader) (calldata handlerResponse : Slice UInt8) :
    Outcome Message := do
  let len : ℤ := calldata.elems.length
  if len < 84 then
    throw (.error "invalid calldata length: less than 84 bytes")
  let amount ← erc20Amount calldata handlerResponse
  let recipientAddressLength := int64 (Bytes.toNat (← calldata.read 32 64))
  let recipientEnd := int64 (64 + recipientAddressLength)
  let recipientAddress ← calldata.read 64 recipientEnd
  let payload := [.bytes amount, .bytes recipientAddress]
  let feeEnd := int64 (96 + recipientAddressLength)
  if len > feeEnd then
    let (maxFee, optionalMessage) ← erc20OptionalMessage calldata recipientEnd feeEnd
    return h.message (some (UInt64.ofNat maxFee)) (payload ++ [.bytes optionalMessage])
  return h.message none payload

end Evm

namespace Substrate

/-- `FungibleTransferHandler`; `IntBytesToBigInt` reads two's complement. -/
def fungibleTransferHandler (h : DepositHeader) (calldata : Slice UInt8) : Outcome Message := do
  if calldata.elems.length < 84 then
    throw (.error "invalid calldata length: less than 84 bytes")
  let amount ← calldata.read 0 32
  let recipientAddressLength := int64 (Bytes.toInt (← calldata.read 32 64))
  let recipientAddress ← calldata.read 64 (int64 (64 + recipientAddressLength))
  return h.message none [.bytes amount, .bytes recipientAddress]

end Substrate

/-- A payload item asserted to be a `[]byte`. -/
def PayloadItem.asBytes (item : PayloadItem) (text : String) : Outcome (List UInt8) :=
  match item with
  | .bytes b => .ok b
  | .bigInts _ => .error (.error text)

/-- `proposal.NewProposal` for a message. -/
def Message.proposal (m : Message) (data : List UInt8) : Evm.TransferProposal where
  source := m.source
  destination := m.destination
  data := ⟨m.data.depositNonce, m.data.resourceId, m.data.gasLimit, data⟩
  messageID := m.id

/-- The amount and the recipient with its length. -/
def encodeFungible (amount recipient : List UInt8) : List UInt8 :=
  Bytes.leftPad amount 32 ++ Bytes.leftPad (Bytes.ofNat recipient.length) 32 ++ recipient

namespace Evm

def erc20MessageHandler (m : Message) : Outcome TransferProposal := do
  match m.data.payload with
  | [amount, recipient] =>
    let amount ← amount.asBytes "wrong payload amount format"
    let recipient ← recipient.asBytes "wrong payload recipient format"
    return m.proposal (encodeFungible amount recipient)
  | [amount, recipient, optionalMessage] =>
    let amount ← amount.asBytes "wrong payload amount format"
    let recipient ← recipient.asBytes "wrong payload recipient format"
    let optionalMessage ← optionalMessage.asBytes "wrong optional message format"
    return m.proposal (encodeFungible amount recipient ++ optionalMessage)
  | payload => throw (.error ("wrong payload length " ++ payload.length.repr))

end Evm

namespace Substrate

def fungibleTransferMessageHandler (m : Message) : Outcome Evm.TransferProposal := do
  match m.data.payload with
  | [amount, recipient] =>
    let amount ← amount.asBytes "wrong payload amount format"
    let recipient ← recipient.asBytes "wrong payload recipient format"
    return m.proposal (encodeFungible amount recipient)
  | _ => throw (.error "malformed payload. Len  of payload should be 2")

end Substrate

end Sygma
