import SygmaRelayer.Lib.AbiTypes
import SygmaRelayer.Spec.TransferCodec

/-! Semi-fungible and permissioned generic transfers: `Erc1155DepositHandler`
(`chains/evm/listener/depositHandlers/erc1155.go`), which unpacks its calldata as contract
arguments, the message handlers of both, and `TransferMessageHandler`
(`chains/evm/executor/message-handler.go`), which chooses the message handler by the type of a
transfer. -/

namespace Sygma

open Go

/-- A payload item asserted to be a `[]*big.Int`. -/
def PayloadItem.asBigInts (item : PayloadItem) (text : String) : Outcome (List ℤ) :=
  match item with
  | .bigInts l => .ok l
  | .bytes _ => .error (.error text)

namespace Evm

/-- `uint256` -/
abbrev uint256 : Abi.Ty := .uint 256 Abi.bits256

/-- `GetErc1155Type`: the token IDs, the amounts, the recipient and the transfer data. -/
abbrev erc1155Type : Abi.Tys :=
  .cons (.slice uint256) (.cons (.slice uint256) (.cons .bytes (.cons .bytes .nil)))

-- `PackValues` and `UnpackValues` of the `abi` package for `erc1155Type`
variable (abi : Abi.Codec erc1155Type)

/-- `Erc1155DepositHandler.HandleDeposit` -/
def erc1155HandleDeposit (h : DepositHeader) (calldata _handlerResponse : Slice UInt8) :
    Outcome Message :=
  match abi.unpackValues calldata.elems with
  | .error err => .error (.error err)
  | .ok (tokenIDs, amounts, recipient, transferData, ()) =>
    .ok (h.transfer none [.bigInts (tokenIDs.map fun n => n.toNat),
      .bigInts (amounts.map fun n => n.toNat), .bytes recipient, .bytes transferData]
      .semiFungibleTransfer)

/-- `ERC1155MessageHandler`; `PackValues` brings a number into 256 bits. -/
def erc1155MessageHandler (m : Message) : Outcome TransferProposal := do
  match m.data.payload with
  | [tokenIDs, amounts, recipient, transferData] =>
    let tokenIDs ← tokenIDs.asBigInts "wrong payload tokenID format"
    let amounts ← amounts.asBigInts "wrong payload amount format"
    let recipient ← recipient.asBytes "wrong payload recipient format"
    if recipient.length ≠ 20 then
      throw (.error "malformed payload. Len  of recipient should be 20")
    let transferData ← transferData.asBytes "wrong payload transferData format"
    return m.proposal (abi.pack (tokenIDs.map (BitVec.ofInt 256),
      amounts.map (BitVec.ofInt 256), recipient, transferData, ()))
  | _ => throw (.error "malformed payload. Len  of payload should be 4")

/-- `GenericMessageHandler` -/
def genericMessageHandler (m : Message) : Outcome TransferProposal := do
  match m.data.payload with
  | [metadata] =>
    let metadata ← metadata.asBytes "wrong payload metadata format"
    return m.proposal (Bytes.leftPad (Bytes.ofNat metadata.length) 32 ++ metadata)
  | _ => throw (.error "malformed payload. Len  of payload should be 1")

/-- `TransferMessageHandler.HandleMessage` -/
def transferHandleMessage (m : Message) : Outcome TransferProposal :=
  match m.data.type with
  | .fungibleTransfer => erc20MessageHandler m
  | .semiFungibleTransfer => erc1155MessageHandler abi m
  | .nonFungibleTransfer => erc721MessageHandler m
  | .permissionedGenericTransfer => genericMessageHandler m
  | .permissionlessGenericTransfer => permissionlessGenericMessageHandler m

end Evm

end Sygma
