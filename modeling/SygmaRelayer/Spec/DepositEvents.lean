import SygmaRelayer.Lib.Grouping
import SygmaRelayer.Spec.FungibleCodec

/-! Deposit events of EVM (`chains/evm/listener/eventHandlers/deposit.go`) and Substrate
(`chains/substrate/listener/event-handlers.go`). `ProcessDeposits` turns the events of a
block range into messages and groups them by destination; every deposit is handled in a
closure of its own, which recovers from a panic. `HandleEvents` sends each group on
`msgChan`. -/

namespace Sygma

open Go

/-- `map[uint8][]*message.Message` -/
abbrev DomainDeposits := Grouping.Groups UInt8 Message

/-- `domainDeposits[m.Destination] = append(domainDeposits[m.Destination], m)` -/
def appendDeposit (domainDeposits : DomainDeposits) (m : Message) : DomainDeposits :=
  Grouping.add domainDeposits m.destination m

/-- What the closure around a deposit does with its outcome: an error is logged, a panic is
recovered from, and an event that is no deposit is passed over. -/
def resolveDeposit (domainDeposits : DomainDeposits) :
    Outcome (Option Message) → DomainDeposits
  | .ok (some m) => appendDeposit domainDeposits m
  | .ok none | .error _ => domainDeposits

/-- `slices` is what `HandleEvents` puts on `msgChan`: the groups, in any order. -/
def PutsOnMsgChan (processed : Outcome DomainDeposits) (slices : List (List Message)) : Prop :=
  match processed with
  | .ok domainDeposits => slices.Perm (Grouping.values domainDeposits)
  | .error _ => slices = []

namespace Evm

/-- `events.Deposit` without the sender, which nothing reads. -/
structure Deposit where
  destinationDomainID : UInt8
  resourceID : ResourceID
  depositNonce : UInt64
  data : Slice UInt8
  handlerResponse : Slice UInt8
  timestamp : ℤ

/-- A deposit handler: the header of the message, `calldata` and `handlerResponse`. With an error
it returns no message. -/
abbrev DepositHandler := DepositHeader → Slice UInt8 → Slice UInt8 → Outcome Message

/-- `ETHDepositHandler.HandleDeposit` -/
def ethHandleDeposit {Address : Type}
    (getHandlerAddressForResourceID : ResourceID → Except String Address)
    (depositHandlers : Address → Option DepositHandler) : DepositHandler :=
  fun h calldata handlerResponse =>
    match getHandlerAddressForResourceID h.resourceID with
    | .error err => .error (.error err)
    | .ok handlerAddr =>
      match depositHandlers handlerAddr with
      | none => .error (.error "no corresponding deposit handler for this address exists")
      | some depositHandler => depositHandler h calldata handlerResponse

/-- A fetched deposit and the deposit handler as it answers to this call. -/
structure Fetched where
  deposit : Deposit
  handleDeposit : DepositHandler

/-- The call of `HandleDeposit` for a deposit of the chain `domainID`. -/
def Fetched.message (f : Fetched) (domainID : UInt8) (messageID : UInt8 → String) :
    Outcome Message :=
  let d := f.deposit
  f.handleDeposit ⟨domainID, d.destinationDomainID, d.depositNonce, d.resourceID,
    messageID d.destinationDomainID, d.timestamp⟩ d.data d.handlerResponse

/-- `DepositEventHandler.ProcessDeposits` on what `FetchDeposits` returned. -/
def processDeposits (domainID : UInt8) (startBlock endBlock : ℕ)
    (fetched : Except String (List Fetched)) : Outcome DomainDeposits :=
  match fetched with
  | .error err => .error (.error ("unable to fetch deposit events because of: " ++ err))
  | .ok deposits =>
    .ok (deposits.foldl (fun domainDeposits f => resolveDeposit domainDeposits
      (some <$> f.message domainID fun dest => depositMessageID domainID dest startBlock endBlock)) ∅)

end Evm

namespace Substrate

inductive EventName
  | depositEvent
  | retryEvent
  | other
deriving DecidableEq, Repr

structure Deposit where
  destDomainID : UInt8
  resourceID : ResourceID
  depositNonce : UInt64
  transferType : UInt8
  callData : Slice UInt8
  handler : UInt8
  timestamp : ℤ

structure Retry where
  /-- a nil `big.Int` unless the event names it -/
  depositOnBlockHeight : Option ℕ
  destDomainID : UInt8

/-- `mapstructure.Decode` of a value into the types of the fields. -/
structure Mapstructure (V : Type) where
  u8 : V → Outcome UInt8
  u64 : V → Outcome UInt64
  u128 : V → Outcome ℕ
  bytes32 : V → Outcome ResourceID
  bytes : V → Outcome (Slice UInt8)
  bytes1 : V → Outcome UInt8
  time : V → Outcome ℤ

variable {V : Type} (decode : Mapstructure V)

/-- One turn of the loop in `DecodeDepositEvent`. -/
def decodeDepositField (d : Deposit) (evtField : String × V) : Outcome Deposit := do
  match evtField.1 with
  | "dest_domain_id" => return { d with destDomainID := ← decode.u8 evtField.2 }
  | "resource_id" => return { d with resourceID := ← decode.bytes32 evtField.2 }
  | "deposit_nonce" => return { d with depositNonce := ← decode.u64 evtField.2 }
  | "sygma_traits_TransferType" => return { d with transferType := ← decode.u8 evtField.2 }
  | "deposit_data" => return { d with callData := ← decode.bytes evtField.2 }
  | "handler_response" => return { d with handler := ← decode.bytes1 evtField.2 }
  | "block_timestamp" => return { d with timestamp := ← decode.time evtField.2 }
  | _ => return d

def decodeDepositEvent (evtFields : List (String × V)) : Outcome Deposit :=
  evtFields.foldlM (decodeDepositField decode) ⟨0, 0, 0, 0, Slice.nil, 0, 0⟩

/-- `DecodeRetryEvent` -/
def decodeRetryEvent (evtFields : List (String × V)) : Outcome Retry :=
  evtFields.foldlM (fun er evtField => do
    match evtField.1 with
    | "deposit_on_block_height" =>
      return { er with depositOnBlockHeight := some (← decode.u128 evtField.2) }
    | "dest_domain_id" => return { er with destDomainID := ← decode.u8 evtField.2 }
    | _ => return er) ⟨none, 0⟩

/-- A deposit handler: the header of the message, the calldata and the transfer type. -/
abbrev DepositHandler := DepositHeader → Slice UInt8 → UInt8 → Outcome Message

/-- `SubstrateDepositHandler.HandleDeposit` -/
def substrateHandleDeposit
    (depositHandlers : TransferType → Option (DepositHeader → Slice UInt8 → Outcome Message)) :
    DepositHandler :=
  fun h calldata transferType =>
    let unknown := Except.error
      (.error "no corresponding deposit handler for this transfer type exists")
    if transferType = 0 then
      match depositHandlers .fungibleTransfer with
      | none => unknown
      | some depositHandler => depositHandler h calldata
    else unknown

/-- A `parser.Event` and the deposit handler as it answers if it is called for it. -/
structure Fetched (V : Type) where
  name : EventName
  fields : List (String × V)
  handleDeposit : DepositHandler

/-- `DecodeDepositEvent` and the call of `HandleDeposit`, for a deposit event. -/
def Fetched.message (evt : Fetched V) (domainID : UInt8) (messageID : UInt8 → String) :
    Outcome (Option Message) := do
  if evt.name = .depositEvent then
    let d ← decodeDepositEvent decode evt.fields
    let m ← evt.handleDeposit ⟨domainID, d.destDomainID, d.depositNonce, d.resourceID,
      messageID d.destDomainID, d.timestamp⟩ d.callData d.transferType
    return some m
  else return none

/-- `FungibleTransferEventHandler.ProcessDeposits` on what `FetchEvents` returned. -/
def processDeposits (domainID : UInt8) (startBlock endBlock : ℕ)
    (fetched : Except String (List (Fetched V))) : Outcome DomainDeposits :=
  match fetched with
  | .error err => .error (.error err)
  | .ok evts =>
    .ok (evts.foldl (fun domainDeposits evt => resolveDeposit domainDeposits
      (evt.message decode domainID fun dest =>
        Evm.depositMessageID domainID dest startBlock endBlock)) ∅)

end Substrate

end Sygma
