import Mathlib.Data.UInt
import SygmaRelayer.Lib.Sorting
import SygmaRelayer.Spec.BtcExecutor

/-! Assembly of the unsigned Bitcoin transaction: `MempoolAPI.Utxos`
(`chains/btc/mempool/mempool.go`) and `rawTx`, `outputs`, `inputs` and `fee` of
`chains/btc/executor/executor.go`. Amounts are `uint64` and wrap. -/

namespace Sygma.Btc

def INPUT_SIZE : UInt64 := 180
def OUTPUT_SIZE : UInt64 := 34
def FEE_ROUNDING_FACTOR : UInt64 := 5

/-- `mempool.Status` -/
structure UtxoStatus where
  confirmed : Bool
  blockHeight : UInt64
  blockHash : String
  blockTime : UInt64
deriving DecidableEq, Repr

structure Utxo where
  txID : String
  vout : UInt32
  value : UInt64
  status : UtxoStatus
deriving DecidableEq, Repr

/-- The comparison `Utxos` passes to `sort.Slice`. -/
def utxoLess (a b : Utxo) : Bool :=
  if a.status.blockTime = b.status.blockTime then a.txID < b.txID
  else a.status.blockTime < b.status.blockTime

/-- A reply of the mempool service and what `MempoolAPI.Utxos` makes of it, for any behaviour
of `sort.Slice`. -/
structure Listing where
  response : List Utxo
  utxos : List Utxo
  sorts : Sorting.SortsTo utxoLess response utxos

/-- The parts of btcd the executor calls, for the configured network. -/
structure BtcLib (Address Script Hash : Type) where
  decodeAddress : String → Except String Address
  payToAddrScript : Address → Except String Script
  nullDataScript : String → Except String Script
  newHashFromStr : String → Except String Hash

structure OutPoint (Hash : Type) where
  hash : Hash
  index : UInt32
deriving DecidableEq, Repr

structure TxOut (Script : Type) where
  value : Int64
  pkScript : Script
deriving DecidableEq, Repr

/-- `wire.MsgTx` before signing; an input is its previous outpoint. -/
structure MsgTx (Script Hash : Type) where
  txIn : List (OutPoint Hash)
  txOut : List (TxOut Script)
deriving DecidableEq, Repr

/-- What the services answer during one run of `rawTx`: `RecommendedFee` is asked twice. -/
structure Answers where
  upload : List (UInt8 × UInt64) → Except String String
  feeEstimate : Except String UInt64
  listing : Except String Listing
  economyFee : Except String UInt64

variable {Address Script Hash : Type} (lib : BtcLib Address Script Hash)

/-- One turn of the loop in `outputs`. -/
def addOutput (acc : UInt64 × List (TxOut Script)) (prop : BtcTransferProposal) :
    Except String (UInt64 × List (TxOut Script)) := do
  let addr ← lib.decodeAddress prop.data.recipient
  let script ← lib.payToAddrScript addr
  return (acc.1 + prop.data.amount, acc.2 ++ [⟨prop.data.amount.toInt64, script⟩])

def outputs (upload : List (UInt8 × UInt64) → Except String String)
    (proposals : List BtcTransferProposal) : Except String (UInt64 × List (TxOut Script)) := do
  let (outputAmount, outs) ← proposals.foldlM (addOutput lib) (0, [])
  let cid ← upload (proposals.map fun p => (p.source, p.data.depositNonce))
  let opReturnScript ← lib.nullDataScript ("syg_" ++ cid)
  return (outputAmount, outs ++ [⟨0, opReturnScript⟩])

/-- The loop of `inputs`, with what it has accumulated: amount, UTXOs and inputs. -/
def inputsLoop (outputAmount : UInt64) : List Utxo → UInt64 → List Utxo → List (OutPoint Hash) →
    Except String (UInt64 × List Utxo × List (OutPoint Hash))
  | [], inputAmount, usedUtxos, txIn => .ok (inputAmount, usedUtxos, txIn)
  | utxo :: utxos, inputAmount, usedUtxos, txIn =>
    match lib.newHashFromStr utxo.txID with
    | .error err => .error err
    | .ok hash =>
      if inputAmount + utxo.value > outputAmount then
        .ok (inputAmount + utxo.value, usedUtxos ++ [utxo], txIn ++ [⟨hash, utxo.vout⟩])
      else
        inputsLoop outputAmount utxos (inputAmount + utxo.value) (usedUtxos ++ [utxo])
          (txIn ++ [⟨hash, utxo.vout⟩])

def inputs (utxos : List Utxo) (outputAmount : UInt64) :
    Except String (UInt64 × List Utxo × List (OutPoint Hash)) :=
  inputsLoop lib outputAmount utxos 0 [] []

def fee (economyFee numOfInputs numOfOutputs : UInt64) : UInt64 :=
  (numOfInputs * INPUT_SIZE + numOfOutputs * OUTPUT_SIZE) *
    (economyFee / FEE_ROUNDING_FACTOR * FEE_ROUNDING_FACTOR + FEE_ROUNDING_FACTOR)

/-- Extra funds go back to the bridge. -/
def returnOutput (address : Address) (returnAmount : UInt64) :
    Except String (List (TxOut Script)) :=
  if returnAmount > 0 then do
    let returnScript ← lib.payToAddrScript address
    return [⟨returnAmount.toInt64, returnScript⟩]
  else
    return []

def rawTx (a : Answers) (proposals : List BtcTransferProposal) (address : Address) :
    Except String (MsgTx Script Hash × List Utxo) := do
  let numOfProposals := UInt64.ofNat proposals.length
  let (outputAmount, outs) ← outputs lib a.upload proposals
  let quote ← a.feeEstimate
  let listing ← a.listing
  let (inputAmount, utxos, txIn) ←
    inputs lib listing.utxos (outputAmount + fee quote numOfProposals numOfProposals)
  if inputAmount < outputAmount then
    throw s!"utxo input amount {inputAmount} less than output amount {outputAmount}"
  else do
    let quote ← a.economyFee
    let returnOuts ← returnOutput lib address
      (inputAmount - fee quote (UInt64.ofNat utxos.length) (numOfProposals + 1) - outputAmount)
    return (⟨txIn, outs ++ returnOuts⟩, utxos)

end Sygma.Btc
