import SygmaRelayer.Lib.Bytes
import SygmaRelayer.Spec.EvmExecutor

/-! The Substrate executor (`chains/substrate/executor/executor.go`): the loop of `Execute`
that asks the pallet which proposals are executed, the signing session, and
`watchExecution`. A call is described by what it does, in order, and by the errors it
returns. -/

namespace Sygma.Substrate

open Evm (TransferProposal)

/-- A proposal with the answer `IsProposalExecuted` gives to it. -/
abbrev Queried := TransferProposal × Except String Bool

/-- `common.SignatureData` -/
structure SignatureData where
  r : List UInt8
  s : List UInt8
  signatureRecovery : List UInt8
deriving DecidableEq, Repr

inductive Effect
  /-- `ProposalsHash` -/
  | hash (proposals : List TransferProposal)
  /-- `Coordinator.Execute` with a signing process -/
  | sign (msg : ℕ) (sessionID : String)
  /-- `ExecuteProposals` -/
  | submit (proposals : List TransferProposal) (signature : List UInt8)
  /-- a broadcast `TssFailMsg` -/
  | fail (sessionID : String)
  /-- `TrackExtrinsic` -/
  | track (extHash : List UInt8)
deriving DecidableEq, Repr

/-- What a call did so far, and its errors once it has returned. -/
structure Trace where
  effects : List Effect
  result : Option (List String)
deriving DecidableEq, Repr

/-- What the pallet, the keyshare store and the coordinator answer. -/
structure Services where
  proposalsHash : List TransferProposal → Except String (List UInt8)
  newSigning : Except String Unit
  coordinator : Except String Unit

/-- What `watchExecution` receives. -/
inductive WatchEvent
  /-- a value on `sigChn`, with the answers of `ExecuteProposals` and `TrackExtrinsic` -/
  | sigResult (result : Option SignatureData) (executed : Except String (List UInt8))
      (tracked : Except String Unit)
  | tick (isProposalExecuted : TransferProposal → Except String Bool)
  | timeout
  | done

/-- The signature `executeProposal` submits: V is moved from 0/1 to 27/28. -/
def signatureBytes (sig : SignatureData) : List UInt8 :=
  let bytes := Bytes.leftPad sig.r 32 ++ Bytes.leftPad sig.s 32 ++ sig.signatureRecovery
  bytes.dropLast ++ (bytes.getLast?.map (· + 27)).toList

def areProposalsExecuted (isProposalExecuted : TransferProposal → Except String Bool)
    (proposals : List TransferProposal) : Bool :=
  proposals.all fun p =>
    match isProposalExecuted p with
    | .ok isExecuted => isExecuted
    | .error _ => false

/-- The loop of `watchExecution`: what it does, and what it returns if it does. -/
def watchExecution (proposals : List TransferProposal) (sessionID : String) :
    List WatchEvent → List Effect × Option (Except String Unit)
  | [] => ([], none)
  | .sigResult none _ _ :: events => watchExecution proposals sessionID events
  | .sigResult (some sig) executed tracked :: _ =>
    match executed with
    | .error err =>
      ([.submit proposals (signatureBytes sig), .fail sessionID], some (.error err))
    | .ok extHash => ([.submit proposals (signatureBytes sig), .track extHash], some tracked)
  | .tick isProposalExecuted :: events =>
    if areProposalsExecuted isProposalExecuted proposals then ([], some (.ok ()))
    else watchExecution proposals sessionID events
  | .timeout :: _ => ([], some (.error "execution timed out in 30m0s"))
  | .done :: _ => ([], some (.ok ()))

/-- The error of a goroutine, as the pool collects it. -/
def errorOf : Except String Unit → List String
  | .ok () => []
  | .error err => [err]

/-- `Execute` after its loop. -/
def session (svc : Services) (transferProposals : List TransferProposal)
    (events : List WatchEvent) : Trace :=
  match svc.proposalsHash transferProposals with
  | .error err => ⟨[.hash transferProposals], some [err]⟩
  | .ok propHash =>
    match svc.newSigning with
    | .error err => ⟨[.hash transferProposals], some [err]⟩
    | .ok () =>
      -- `transferProposals[0]`: the list is not empty here
      let messageID := (transferProposals.head?.map (·.messageID)).getD ""
      let watched := watchExecution transferProposals messageID events
      ⟨.hash transferProposals :: .sign (Bytes.toNat propHash) messageID :: watched.1,
        watched.2.map fun err => errorOf svc.coordinator ++ errorOf err⟩

/-- One turn of the loop, on the slices `transferProposals` and `proposals`. -/
def addProposal (acc : List TransferProposal × List TransferProposal) (q : Queried) :
    Except String (List TransferProposal × List TransferProposal) := do
  let transferProposals := acc.1 ++ [q.1]
  if ← q.2 then
    return (transferProposals, acc.2)
  else
    return (transferProposals, acc.2 ++ [q.1])

def execute (svc : Services) (queried : List Queried) (events : List WatchEvent) : Trace :=
  -- `range` fixes the elements of the loop before `proposals` is appended to
  match queried.foldlM addProposal ([], queried.map Prod.fst) with
  | .error err => ⟨[], some [err]⟩
  | .ok (transferProposals, proposals) =>
    if proposals = [] then ⟨[], some []⟩ else session svc transferProposals events

end Sygma.Substrate
