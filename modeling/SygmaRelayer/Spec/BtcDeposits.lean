import SygmaRelayer.Spec.DepositEvents
import SygmaRelayer.Spec.Election

/-! Bitcoin deposits (`chains/btc/listener`): `DecodeDepositEvent` reads a transaction for
one resource, `ProcessDeposits` asks it for the configured resources, in the order in
which Go happens to iterate over their map, until one counts the transaction as a
deposit. -/

namespace Sygma.BtcListener

open Go

/-- The script types the listener tells apart. -/
inductive ScriptType
  /-- `OP_RETURN`, "nulldata" -/
  | opReturn
  /-- "witness_v1_taproot" -/
  | witnessV1Taproot
  | other
deriving DecidableEq, Repr

structure Vout where
  /-- `int64(vout.Value*1e8)` -/
  sat : ℤ
  type : ScriptType
  /-- `ScriptPubKey.Hex`, the bytes of a Go string -/
  hex : List UInt8
  address : String
deriving DecidableEq, Repr

structure TxRawResult where
  hash : String
  vout : List Vout
  blocktime : ℤ
deriving DecidableEq, Repr

/-- `config.Resource`, as far as the listener reads it. -/
structure Resource where
  address : String
  feeAmount : ℤ
  resourceID : ResourceID
deriving DecidableEq, Repr

/-- The resources of the configuration, a map by their IDs. -/
structure Resources where
  list : List Resource
  nodup : (list.map Resource.resourceID).Nodup

structure Deposit where
  resourceID : ResourceID
  senderAddress : String
  amount : ℤ
  data : List UInt8
deriving DecidableEq, Repr

def fromHexChar (c : UInt8) : Option UInt8 :=
  if 48 ≤ c ∧ c ≤ 57 then some (c - 48)
  else if 97 ≤ c ∧ c ≤ 102 then some (c - 97 + 10)
  else if 65 ≤ c ∧ c ≤ 70 then some (c - 65 + 10)
  else none

/-- `hex.DecodeString`: the bytes up to the first fault, and whether there was none. -/
def hexDecode : List UInt8 → List UInt8 × Bool
  | [] => ([], true)
  | [_] => ([], false)
  | a :: b :: src =>
    match fromHexChar a, fromHexChar b with
    | some x, some y => ((16 * x + y) :: (hexDecode src).1, (hexDecode src).2)
    | _, _ => ([], false)

/-- The variables of the loop in `DecodeDepositEvent`. -/
structure Reading where
  amount : ℤ
  feeAmount : ℤ
  isBridgeDeposit : Bool
  data : List UInt8
  resourceID : ResourceID
deriving DecidableEq, Repr

/-- The data of an `OP_RETURN` output, which takes the place of any read before. -/
def readOpReturn (data : List UInt8) (vout : Vout) : Outcome (List UInt8) :=
  if vout.type = .opReturn then
    match hexDecode vout.hex with
    | (_, false) => .error (.error "encoding/hex")
    -- `opReturnData[2:]`
    | (opReturnData, true) =>
      if 2 ≤ opReturnData.length then .ok (opReturnData.drop 2) else .error .panic
  else .ok data

/-- One turn of the loop in `DecodeDepositEvent`. -/
def readVout (resource : Resource) (feeAddress : String) (r : Reading) (vout : Vout) :
    Outcome Reading := do
  let data ← readOpReturn r.data vout
  let paysResource := resource.address = vout.address
  return {
    amount := if paysResource ∧ vout.type = .witnessV1Taproot then r.amount + vout.sat else r.amount
    feeAmount := if feeAddress = vout.address then r.feeAmount + vout.sat else r.feeAmount
    isBridgeDeposit := paysResource ∨ r.isBridgeDeposit
    data := data
    resourceID := if paysResource then resource.resourceID else r.resourceID }

/-- `DecodeDepositEvent`; `none` if the transaction is no deposit of the resource. -/
def decodeDepositEvent (evt : TxRawResult) (resource : Resource) (feeAddress : String) :
    Outcome (Option Deposit) := do
  let r ← evt.vout.foldlM (readVout resource feeAddress) ⟨0, 0, false, [], 0⟩
  if !r.isBridgeDeposit ∨ r.feeAmount < resource.feeAmount then return none
  else return some ⟨r.resourceID, "", r.amount, r.data⟩

/-- `common.HexToAddress(s).Bytes()`: as much as can be decoded, cut or padded to 20 bytes. -/
def hexToAddress (s : List UInt8) : List UInt8 :=
  let digits := if s.take 2 = [48, 120] ∨ s.take 2 = [48, 88] then s.drop 2 else s
  let even := if digits.length % 2 = 1 then 48 :: digits else digits
  let b := (hexDecode even).1
  Bytes.leftPad (b.drop (b.length - 20)) 20

/-- `strconv.ParseUint(s, 10, 8)` -/
def parseUint8 (s : List UInt8) : Except String UInt8 :=
  if s ≠ [] ∧ s.all fun c => 48 ≤ c ∧ c ≤ 57 then
    let n := s.foldl (fun n c => 10 * n + (c - 48).toNat) 0
    if n < 256 then .ok (UInt8.ofNat n) else .error "value out of range"
  else .error "invalid syntax"

/-- The arguments of a Bitcoin deposit handler. -/
structure DepositArgs where
  sourceID : UInt8
  depositNonce : UInt64
  resourceID : ResourceID
  amount : ℤ
  data : List UInt8
  blockNumber : ℕ
  timestamp : ℤ
deriving DecidableEq, Repr

/-- `BtcDepositHandler.HandleDeposit` -/
def btcHandleDeposit (a : DepositArgs) : Outcome Message :=
  let parsedData := a.data.splitOn 95
  let evmAdd := hexToAddress (parsedData.headD [])
  match parsedData[1]? with
  | none => .error .panic
  | some dest =>
    match parseUint8 dest with
    | .error err => .error (.error err)
    | .ok destDomainID =>
      let payload := [.bytes (Bytes.ofNat (a.amount * 10 ^ 10).natAbs), .bytes evmAdd]
      .ok {
        source := a.sourceID
        destination := destDomainID
        data := ⟨a.depositNonce, a.resourceID, none, payload, .fungibleTransfer⟩
        id := Evm.btcMessageID a.sourceID destDomainID a.blockNumber
        timestamp := a.timestamp }

/-- The chain the listener is configured for. -/
structure Config where
  domainID : UInt8
  feeAddress : String
  sha256 : String → List UInt8

/-- `CalculateNonce` -/
def calculateNonce (cfg : Config) (blockNumber : ℕ) (transactionHash : String) : UInt64 :=
  let hashBytes := cfg.sha256 (blockNumber.repr ++ "-" ++ transactionHash)
  (List.range 4).foldl
    (fun result i => result ^^^ UInt64.ofNat (bigEndianUint64 (hashBytes.drop (i * 8)))) 0

abbrev DepositHandler := DepositArgs → Outcome Message

/-- The loop over the resources for one transaction. -/
def visitResources (cfg : Config) (blockNumber : ℕ) (handleDeposit : DepositHandler)
    (evt : TxRawResult) : List Resource → Outcome (Option Message)
  | [] => .ok none
  | resource :: rest =>
    match decodeDepositEvent evt resource cfg.feeAddress with
    | .error fault => .error fault
    | .ok none => visitResources cfg blockNumber handleDeposit evt rest
    | .ok (some d) => some <$> handleDeposit ⟨cfg.domainID, calculateNonce cfg blockNumber evt.hash,
        d.resourceID, d.amount, d.data, blockNumber, evt.blocktime⟩

/-- A transaction, the order in which the loop visits the resources for it, and the deposit handler
as it answers if it is called for it. -/
structure Visit where
  evt : TxRawResult
  order : List Resource
  handleDeposit : DepositHandler

def Visit.message (cfg : Config) (blockNumber : ℕ) (v : Visit) : Outcome (Option Message) :=
  visitResources cfg blockNumber v.handleDeposit v.evt v.order

/-- `FungibleTransferEventHandler.ProcessDeposits` on what `FetchEvents` returned. -/
def processDeposits (cfg : Config) (blockNumber : ℕ) (fetched : Except String (List Visit)) :
    Outcome DomainDeposits :=
  match fetched with
  | .error err => .error (.error err)
  | .ok visits =>
    .ok (visits.foldl (fun domainDeposits v => resolveDeposit domainDeposits
      (v.message cfg blockNumber)) ∅)

end Sygma.BtcListener
