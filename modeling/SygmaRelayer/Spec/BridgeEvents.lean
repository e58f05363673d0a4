import SygmaRelayer.Spec.EventListener
import SygmaRelayer.Spec.ProposalsHash
import SygmaRelayer.Spec.RetryEvents
import SygmaRelayer.Spec.SemiFungibleCodec

/-! The events of the bridge and the retry contract as the listener unpacks them
(`chains/evm/calls/events`), the registration of deposit handlers (`app/app.go`,
`chains/evm/listener/depositHandlers/deposit-handler.go`), and V2 retries:
`RetryV2EventHandler` (`chains/evm/listener/eventHandlers/retry.go`), which turns an event into a
message for the chain of the deposit, and `RetryMessageHandler`
(`chains/evm/executor/message-handler.go`), which has that chain process the block once more. -/

namespace Sygma

open Go

namespace Listener

/-- The arguments of the event `Deposit` that are not indexed. -/
abbrev depositArgs : Abi.Tys :=
  .cons (.uint 8 Abi.bits8) (.cons (.fixedBytes 32 Abi.size32) (.cons (.uint 64 Abi.bits64)
    (.cons .bytes (.cons .bytes .nil))))

/-- `UnpackIntoInterface` for `Deposit`. -/
def unpackDeposit (abi : Abi.Codec depositArgs) (data : List UInt8) : Except String DepositData := do
  let (destinationDomainID, resourceID, depositNonce, data, handlerResponse, ()) ←
    abi.unpackValues data
  return ⟨UInt8.ofBitVec destinationDomainID, BitVec.ofNat 256 (Bytes.toNat resourceID.1),
    UInt64.ofBitVec depositNonce, data, handlerResponse⟩

structure RetryV2Event where
  sourceDomainID : UInt8
  destinationDomainID : UInt8
  blockHeight : ℕ
  resourceID : ResourceID
deriving DecidableEq, Repr

/-- The arguments of the event `Retry` of the retry contract. -/
abbrev retryV2Args : Abi.Tys :=
  .cons (.uint 8 Abi.bits8) (.cons (.uint 8 Abi.bits8) (.cons (.uint 256 Abi.bits256)
    (.cons (.fixedBytes 32 Abi.size32) .nil)))

/-- `UnpackIntoInterface` for `Retry`. -/
def unpackRetryV2 (abi : Abi.Codec retryV2Args) (data : List UInt8) : Except String RetryV2Event := do
  let (sourceDomainID, destinationDomainID, blockHeight, resourceID, ()) ← abi.unpackValues data
  return ⟨UInt8.ofBitVec sourceDomainID, UInt8.ofBitVec destinationDomainID, blockHeight.toNat,
    BitVec.ofNat 256 (Bytes.toNat resourceID.1)⟩

/-- One turn of the loops over the logs of an event: a log that does not unpack is passed over. -/
def appendUnpacked {α : Type} (unpack : List UInt8 → Except String α) (events : List α) (l : Log) :
    List α :=
  match unpack l.data with
  | .error _ => events
  | .ok event => events ++ [event]

/-- The functions that fetch events, on what `FetchEventLogs` returned. -/
def fetchEvents {α : Type} (unpack : List UInt8 → Except String α)
    (logs : Except String (List Log)) : Except String (List α) :=
  match logs with
  | .error err => .error err
  | .ok logs => .ok (logs.foldl (appendUnpacked unpack) [])

/-- `RetryV2Sig` -/
def retryV2Sig : String := "Retry(uint8,uint8,uint256,bytes32)"

def fetchRetryV2Events (abi : Abi.Codec retryV2Args) :
    Except String (List Log) → Except String (List RetryV2Event) :=
  fetchEvents (unpackRetryV2 abi)

end Listener

namespace Evm

open Listener (Address RetryV2Event)

/-! ### Deposit handlers -/

/-- `HandlerConfig` -/
structure HandlerConfig where
  address : List UInt8
  type : String
deriving DecidableEq, Repr

/-- The deposit handler that `Run` makes for a type of the configuration. -/
def depositHandlerOf (abi : Abi.Codec erc1155Type) : String → Option DepositHandler
  | "erc20" | "native" => some erc20HandleDeposit
  | "permissionlessGeneric" => some permissionlessGenericHandleDeposit
  | "erc721" => some erc721HandleDeposit
  | "erc1155" => some (erc1155HandleDeposit abi)
  | _ => none

/-- `common.HexToAddress` -/
def addressOf (s : List UInt8) : Address := BitVec.ofNat 160 (Bytes.toNat (BtcListener.hexToAddress s))

/-- The loop of `Run` over the handlers with `RegisterDepositHandler`: an empty address is passed
over, and of two handlers for one address the later one stays. -/
def registerDepositHandlers (abi : Abi.Codec erc1155Type) (handlers : List HandlerConfig) :
    Address → Option DepositHandler :=
  handlers.foldl (fun depositHandlers handler =>
    match depositHandlerOf abi handler.type with
    | none => depositHandlers
    | some depositHandler =>
      if handler.address = [] then depositHandlers
      else Function.update depositHandlers (addressOf handler.address) (some depositHandler))
    fun _ => none

/-! ### V2 retries -/

/-- A message of type `RetryMessageType`; its data are those of the event. -/
structure RetryMessage where
  source : UInt8
  destination : UInt8
  data : RetryV2Event
  id : String
deriving DecidableEq, Repr

/-- `RetryV2EventHandler.HandleEvents` on what `FetchRetryV2Events` returned: the messages, each of
which is sent on `msgChan` by a goroutine of its own. -/
def retryV2HandleEvents (domainID : UInt8) (retryEvents : Except String (List RetryV2Event)) :
    Except String (List RetryMessage) :=
  match retryEvents with
  | .error err => .error ("unable to fetch retry v2 events because of: " ++ err)
  | .ok retryEvents => .ok (retryEvents.map fun e =>
      ⟨domainID, e.sourceDomainID, e,
        "retry-" ++ e.sourceDomainID.toNat.repr ++ "-" ++ e.destinationDomainID.toNat.repr⟩)

/-- `RetryMessageHandler.HandleMessage`: the slice it sends on `msgChan`, if any, and the store it
leaves. -/
def retryHandleMessage (latestBlock : Except String ℤ) (blockConfirmations : ℤ)
    (processDeposits : ℕ → ℕ → Outcome DomainDeposits) (st : PropStorer) (msg : RetryMessage) :
    Outcome (Option (List Message)) × PropStorer :=
  match latestBlock with
  | .error err => (.error (.error err), st)
  | .ok latestBlock =>
    let confirmed := msg.data.blockHeight + blockConfirmations
    if latestBlock ≤ confirmed then
      (.error (.error ("latest block " ++ toString latestBlock ++
        " higher than receipt block number + block confirmations " ++ toString confirmed)), st)
    else
      match processDeposits msg.data.blockHeight msg.data.blockHeight with
      | .error fault => (.error fault, st)
      | .ok domainDeposits =>
        let (filteredDeposits, st) :=
          filterDeposits st domainDeposits msg.data.resourceID msg.data.destinationDomainID
        (.ok (if filteredDeposits = [] then none else some filteredDeposits), st)

end Evm

end Sygma
