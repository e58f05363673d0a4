import SygmaRelayer.Lib.Go
import Mathlib.Data.BitVec

/-! Deposits read from logs (`chains/evm/calls/events/listener.go`). `FetchDeposits` asks the
node for the logs of the `Deposit` event; `FetchRetryDepositEvents` goes through the logs in the
receipt of a transaction. -/

namespace Sygma

namespace Listener

open Go

abbrev Address := BitVec 160

abbrev Hash := BitVec 256

structure Log where
  address : Address
  topics : List Hash
  data : List UInt8
  blockNumber : UInt64
deriving DecidableEq, Repr

/-- What the data of a `Deposit` event unpacks to. -/
structure DepositData where
  destinationDomainID : UInt8
  resourceID : Hash
  depositNonce : UInt64
  data : List UInt8
  handlerResponse : List UInt8
deriving DecidableEq, Repr

structure Deposit extends DepositData where
  senderAddress : Address
  /-- in seconds -/
  timestamp : ℤ
deriving DecidableEq, Repr

/-- What the client of a `Listener` answers about the logs of one call. -/
structure Client where
  /-- the time of the block of a log, which `BlockByNumber` may fail to give -/
  blockByNumber : Log → Except String UInt64
  /-- `time.Now()` after it has failed -/
  now : Log → ℤ

/-- `DepositSig` -/
def depositSig : String := "Deposit(uint8,bytes32,uint64,address,bytes,bytes)"

def Client.timestamp (client : Client) (dl : Log) : ℤ :=
  match client.blockByNumber dl with
  | .ok time => int64 time.toNat
  | .error _ => client.now dl

-- `unpack` is `abi.UnpackIntoInterface` for the event `Deposit`
variable (unpack : List UInt8 → Except String DepositData) (client : Client)

def parseDeposit (dl : Log) : Outcome Deposit :=
  match unpack dl.data with
  | .error err => .error (.error err)
  | .ok d =>
    match dl.topics[1]? with
    | none => .error .panic
    | some topic =>
      .ok { d with
        -- `common.BytesToAddress` keeps the last 20 bytes
        senderAddress := topic.setWidth 160
        timestamp := client.timestamp dl }

/-- One turn of the loops over the logs: a log that does not parse is passed over. -/
def appendParsed (deposits : List Deposit) (dl : Log) : Outcome (List Deposit) :=
  match parseDeposit unpack client dl with
  | .error (.error _) => .ok deposits
  | .error .panic => .error .panic
  | .ok d => .ok (deposits ++ [d])

/-- `FetchDeposits` on what `FetchEventLogs` returned. -/
def fetchDeposits (logs : Except String (List Log)) : Outcome (List Deposit) :=
  match logs with
  | .error err => .error (.error err)
  | .ok logs => logs.foldlM (appendParsed unpack client) []

/-- What `FetchEventLogs` selects for an event: its logs of a contract. -/
def eventLogs (keccak256 : String → Hash) (contractAddress : Address) (event : String)
    (logs : List Log) : List Log :=
  logs.filter fun l => l.address = contractAddress ∧ l.topics.head? = some (keccak256 event)

structure Receipt where
  blockNumber : ℤ
  logs : List Log
deriving DecidableEq, Repr

/-- `FetchRetryDepositEvents` for the transaction `txHash`, on the answers of
`WaitAndReturnTxReceipt` and `LatestBlock`. -/
def fetchRetryDepositEvents (txHash : String) (receipt : Except String Receipt)
    (latestBlock : Except String ℤ) (bridgeAddress : Address) (blockConfirmations : ℤ) :
    Outcome (List Deposit) :=
  match receipt, latestBlock with
  | .error err, _ => .error (.error
      ("unable to fetch logs for retried deposit " ++ txHash ++ ", because of: " ++ err))
  | .ok _, .error err => .error (.error err)
  | .ok receipt, .ok latestBlock =>
    -- `Add` writes its sum to `receipt.BlockNumber`, which the text adds to once more
    let added := receipt.blockNumber + blockConfirmations
    if latestBlock ≤ added then
      .error (.error ("latest block " ++ toString latestBlock ++
        " higher than receipt block number + block confirmations " ++
        toString (added + blockConfirmations)))
    else
      receipt.logs.foldlM (fun depositEvents lg =>
        if lg.address ≠ bridgeAddress then .ok depositEvents
        else appendParsed unpack client depositEvents lg) []

end Listener

end Sygma
