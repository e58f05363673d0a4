import Mathlib.Data.UInt
import SygmaRelayer.Lib.Runs
import SygmaRelayer.Lib.Text
import SygmaRelayer.Spec.PropStore

/-! The EVM executor (`chains/evm/executor/executor.go`): `proposalBatches`, and the
loop of `Execute` that starts one goroutine per batch. The goroutines read the loop
variable `i`, which they share, when they form their session ID. Calls are fed by
deposits, V1 retries and V2 retries, which also give them their message ID
(`chains/evm/listener/eventHandlers`, `RetryMessageHandler`; deposits and retries of Substrate
have the same ones, and those of BTC come from `chains/btc/listener/deposit-handler.go`). -/

namespace Sygma.Evm

structure TransferProposalData where
  depositNonce : UInt64
  resourceId : ResourceID
  /-- `Metadata["gasLimit"]` -/
  gasLimit : Option UInt64
  data : List UInt8
deriving DecidableEq, Repr

structure TransferProposal where
  source : UInt8
  destination : UInt8
  data : TransferProposalData
  messageID : String
deriving DecidableEq, Repr

structure Batch where
  proposals : List TransferProposal
  gasLimit : UInt64
deriving DecidableEq, Repr

/-- `batch.proposals[0].MessageID` -/
def Batch.messageID (b : Batch) : String := (b.proposals.head?.map (·.messageID)).getD ""

structure Config where
  transactionMaxGas : UInt64
  transferGasCost : UInt64

/-- What the bridge contract answers to `IsProposalExecuted`. -/
abbrev Bridge := TransferProposal → Except String Bool

variable (cfg : Config)

def propGasLimit (p : TransferProposal) : UInt64 :=
  match p.data.gasLimit with
  | some l => l + cfg.transferGasCost
  | none => cfg.transferGasCost

/-- The finished batches and the current one after a proposal that is to be executed. -/
def placeProposal (acc : List Batch × Batch) (p : TransferProposal) : List Batch × Batch :=
  let gasLimit := acc.2.gasLimit + propGasLimit cfg p
  if gasLimit ≥ cfg.transactionMaxGas then
    -- the gas of `p` stays with the batch that is closed
    (acc.1 ++ [⟨acc.2.proposals, gasLimit⟩], ⟨[p], 0⟩)
  else
    (acc.1, ⟨acc.2.proposals ++ [p], gasLimit⟩)

/-- One turn of the loop in `proposalBatches`. -/
def addProposal (isProposalExecuted : Bridge) (acc : List Batch × Batch) (p : TransferProposal) :
    Except String (List Batch × Batch) := do
  if ← isProposalExecuted p then
    return acc
  else
    return placeProposal cfg acc p

def proposalBatches (isProposalExecuted : Bridge) (proposals : List TransferProposal) :
    Except String (List Batch) := do
  let (batches, currentBatch) ←
    proposals.foldlM (addProposal cfg isProposalExecuted) ([], ⟨[], 0⟩)
  return batches ++ [currentBatch]

/-- Where the messages of an `Execute` call come from. -/
inductive Feed
  | deposits (source destination : UInt8) (startBlock endBlock : ℕ)
  | btcDeposits (source destination : UInt8) (blockNumber : ℕ)
  | retryV1 (source destination : UInt8) (startBlock endBlock : ℕ)
  | retryV2 (source destination : UInt8) (blockHeight : ℕ) (resource : ResourceID)
deriving DecidableEq, Repr

/-- The message ID of `ProcessDeposits`. -/
def depositMessageID (source destination : UInt8) (startBlock endBlock : ℕ) : String :=
  source.toNat.repr ++ "-" ++ destination.toNat.repr ++ "-" ++ startBlock.repr ++ "-" ++
    endBlock.repr

/-- The message ID of a BTC deposit. -/
def btcMessageID (source destination : UInt8) (blockNumber : ℕ) : String :=
  source.toNat.repr ++ "-" ++ destination.toNat.repr ++ "-" ++ blockNumber.repr

namespace Feed

def messageID : Feed → String
  | deposits source destination startBlock endBlock =>
    depositMessageID source destination startBlock endBlock
  | btcDeposits source destination blockNumber => btcMessageID source destination blockNumber
  | retryV1 source destination startBlock endBlock =>
    "retry" ++ "-" ++ source.toNat.repr ++ "-" ++ destination.toNat.repr ++ "-" ++
      startBlock.repr ++ "-" ++ endBlock.repr
  -- `HandleMessage` calls `ProcessDeposits(BlockHeight, BlockHeight)`
  | retryV2 source destination blockHeight _ =>
    depositMessageID source destination blockHeight blockHeight

def source : Feed → UInt8
  | deposits s _ _ _ | btcDeposits s _ _ | retryV1 s _ _ _ | retryV2 s _ _ _ => s

def destination : Feed → UInt8
  | deposits _ d _ _ | btcDeposits _ d _ | retryV1 _ d _ _ | retryV2 _ d _ _ => d

/-- The resource a V2 retry is filtered by. -/
def resource : Feed → Option ResourceID
  | deposits _ _ _ _ | btcDeposits _ _ _ | retryV1 _ _ _ _ => none
  | retryV2 _ _ _ r => some r

/-- The proposal can come from the feed. -/
def Delivers (f : Feed) (p : TransferProposal) : Prop :=
  p.messageID = f.messageID ∧ p.source = f.source ∧ p.destination = f.destination ∧
    (f.resource = none ∨ f.resource = some p.data.resourceId)

instance (f : Feed) (p : TransferProposal) : Decidable (f.Delivers p) :=
  inferInstanceAs (Decidable (_ ∧ _ ∧ _ ∧ (_ ∨ _)))

/-- A block range of a source and whether V1 retries of it are meant: a V2 retry asks for the
range of one block, and BTC names a block and no end. -/
def range : Feed → Bool × UInt8 × UInt8 × ℕ × Option ℕ
  | deposits s d a b => (false, s, d, a, some b)
  | btcDeposits s d h => (false, s, d, h, none)
  | retryV1 s d a b => (true, s, d, a, some b)
  | retryV2 s d h _ => (false, s, d, h, some h)

end Feed

/-- The argument of an `Execute` call. -/
structure Delivery where
  feed : Feed
  proposals : List TransferProposal
  delivers : ∀ p ∈ proposals, feed.Delivers p

/-- Where an `Execute` call stands. -/
inductive LoopPc
  | idle
  /-- `next` batches have had their turn, so the loop variable `i` is `next - 1` -/
  | running (d : Delivery) (batches : List Batch) (next : ℕ)
  | returned

/-- Where the goroutine of one batch stands. -/
inductive GoPc
  | idle
  | spawned
  /-- the session ID is formed -/
  | named (sessionID : String)
  /-- in `Coordinator.Execute`, which found the session not pending -/
  | checked (sessionID : String)
  /-- in `Coordinator.Execute`, which has set the session pending -/
  | signing (sessionID : String)
  /-- `Coordinator.Execute` returned, `watchExecution` has not -/
  | watching
  | returned
deriving DecidableEq, Repr

structure State where
  pendingProcesses : String → Bool
  loop : ℕ → LoopPc
  go : ℕ → ℕ → GoPc

def init : State := ⟨fun _ => false, fun _ => .idle, fun _ _ => .idle⟩

inductive Event
  | execute (t : ℕ) (d : Delivery) (isProposalExecuted : Bridge)
  /-- the loop takes its next turn -/
  | iterate (t : ℕ)
  /-- `ProposalsHash` or `NewSigning` failed -/
  | fail (t k : ℕ)
  | name (t k : ℕ)
  | check (t k : ℕ)
  | set (t k : ℕ)
  | clear (t k : ℕ)
  | watchEnd (t k : ℕ)
  | ret (t : ℕ)

@[simp] def State.setLoop (s : State) (t : ℕ) (pc : LoopPc) : State :=
  { s with loop := Function.update s.loop t pc }

@[simp] def State.setGo (s : State) (t k : ℕ) (pc : GoPc) : State :=
  { s with go := Function.update s.go t (Function.update (s.go t) k pc) }

@[simp] def State.setPending (s : State) (sessionID : String) (b : Bool) : State :=
  { s with pendingProcesses := Function.update s.pendingProcesses sessionID b }

/-- The goroutine is not started or has returned. -/
def GoPc.ended : GoPc → Bool
  | .idle | .returned => true
  | .spawned | .named _ | .checked _ | .signing _ | .watching => false

def step (s : State) : Event → Option State
  | .execute t d isProposalExecuted =>
    match s.loop t with
    | .idle =>
      match proposalBatches cfg isProposalExecuted d.proposals with
      | .error _ => some (s.setLoop t .returned)
      | .ok batches => some (s.setLoop t (.running d batches 0))
    | _ => none
  | .iterate t =>
    match s.loop t with
    | .running d batches next =>
      match batches[next]? with
      | some batch =>
        if batch.proposals = [] then some (s.setLoop t (.running d batches (next + 1)))
        else some ((s.setGo t next .spawned).setLoop t (.running d batches (next + 1)))
      | none => none
    | _ => none
  | .fail t k =>
    match s.go t k with
    | .spawned | .named _ => some (s.setGo t k .returned)
    | _ => none
  | .name t k =>
    match s.loop t, s.go t k with
    | .running _ batches next, .spawned =>
      -- `messageID` belongs to the turn, `i` to the whole loop
      match batches[k]? with
      | some batch =>
        some (s.setGo t k (.named (batch.messageID ++ "-" ++ (next - 1).repr)))
      | none => none
    | _, _ => none
  | .check t k =>
    match s.go t k with
    | .named sessionID =>
      if s.pendingProcesses sessionID then some (s.setGo t k .returned)
      else some (s.setGo t k (.checked sessionID))
    | _ => none
  | .set t k =>
    match s.go t k with
    | .checked sessionID => some ((s.setPending sessionID true).setGo t k (.signing sessionID))
    | _ => none
  | .clear t k =>
    match s.go t k with
    | .signing sessionID => some ((s.setPending sessionID false).setGo t k .watching)
    | _ => none
  | .watchEnd t k =>
    match s.go t k with
    | .watching => some (s.setGo t k .returned)
    | _ => none
  | .ret t =>
    match s.loop t with
    | .running _ batches next =>
      if next = batches.length ∧ ∀ k < batches.length, (s.go t k).ended = true then
        some (s.setLoop t .returned)
      else none
    | _ => none

/-- Batch `k` of call `t`, which is `b`, is being signed under `sessionID`. -/
def Signs (s : State) (t k : ℕ) (sessionID : String) (b : Batch) : Prop :=
  ∃ d batches next, s.loop t = .running d batches next ∧ batches[k]? = some b ∧
    s.go t k = .signing sessionID

end Sygma.Evm
