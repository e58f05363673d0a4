import SygmaRelayer.Lib.Go
import SygmaRelayer.Spec.PropStore

/-! Transfer messages (`relayer/transfer`): what a deposit handler of the source chain
hands to the message handler of the destination chain. -/

namespace Sygma

inductive TransferType
  | fungibleTransfer
  | semiFungibleTransfer
  | nonFungibleTransfer
  | permissionedGenericTransfer
  | permissionlessGenericTransfer
deriving DecidableEq, Repr

/-- An `interface{}` of a payload. -/
inductive PayloadItem
  | bytes (b : List UInt8)
  | bigInts (l : List ℤ)
deriving DecidableEq, Repr

structure TransferMessageData where
  depositNonce : UInt64
  resourceId : ResourceID
  /-- `Metadata["gasLimit"]` -/
  gasLimit : Option UInt64
  payload : List PayloadItem
  type : TransferType
deriving DecidableEq, Repr

/-- A `message.Message` of type `TransferMessageType`. -/
structure Message where
  source : UInt8
  destination : UInt8
  data : TransferMessageData
  id : String
  timestamp : ℤ
deriving DecidableEq, Repr

/-- The key a message's proposal has in the status store. -/
def Message.key (m : Message) : PropKey := ⟨m.source, m.destination, m.data.depositNonce⟩

end Sygma
