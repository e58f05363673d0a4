import SygmaRelayer.Spec.EvmExecutor
import SygmaRelayer.Spec.SubstrateExecutor

/-! What becomes of `Execute` calls (`chains/evm/executor/executor.go`). Each batch gets two
goroutines, one in `Coordinator.Execute` and one in `watchExecution`. They share `sigChn`, which
has no buffer: `processEndMessage` (`tss/ecdsa/signing/signing.go`) stays at its send until the
loop of `watchExecution` takes the result. A call holds the exit lock for reading, and `Run`
(`app/app.go`) takes it for writing before the relayer exits. The executors of all chains share that
lock; here are its readers on EVM chains, and those of Substrate and BTC are not part of the state. -/

namespace Sygma.EvmExecution

open Evm (TransferProposal Batch Config Bridge proposalBatches)
open Substrate (SignatureData signatureBytes)

def areProposalsExecuted (isProposalExecuted : Bridge) (proposals : List TransferProposal) : Bool :=
  Substrate.areProposalsExecuted isProposalExecuted proposals

inductive Action
  /-- `ExecuteProposals` of the bridge contract -/
  | executeProposals (proposals : List TransferProposal) (signature : List UInt8)
      (gasLimit : UInt64)
  /-- `TssFailMsg` to all peers -/
  | broadcastFail (sessionID : String)
deriving DecidableEq, Repr

/-- The goroutine in `Coordinator.Execute`. -/
inductive SignPc
  | executing
  /-- `processEndMessage` is at its send, which is in no `select` -/
  | sending (sigResult : Option SignatureData)
  | returned (err : Option String)
deriving DecidableEq, Repr

/-- The goroutine in `watchExecution`. -/
inductive WatchPc
  | watching
  | executeBatch (signatureData : SignatureData)
  | returned (err : Option String)
deriving DecidableEq, Repr

/-- The two goroutines of a batch, with what they have sent. -/
structure Session where
  sessionID : String
  sign : SignPc
  watch : WatchPc
  actions : List Action
deriving DecidableEq, Repr

inductive SessionEvent
  /-- the signing process has a result: a signature if this relayer is its coordinator -/
  | result (sigResult : Option SignatureData)
  /-- `Coordinator.Execute` returns -/
  | coordinated (err : Option String)
  /-- the loop takes the result from `sigChn` -/
  | receive
  /-- `executeBatch` returns -/
  | submitted (hash : Except String String)
  /-- the ticker, with what `IsProposalExecuted` answers -/
  | tick (isProposalExecuted : Bridge)
  | timeout
  /-- `cancelWatch` is noticed -/
  | done

namespace Session

def start (sessionID : String) : Session := ⟨sessionID, .executing, .watching, []⟩

def step (batch : Batch) (x : Session) : SessionEvent → Option Session
  | .result sigResult =>
    match x.sign with
    | .executing => some { x with sign := .sending sigResult }
    | _ => none
  | .coordinated err =>
    -- the pools wait for `processEndMessage`
    match x.sign with
    | .executing => some { x with sign := .returned err }
    | _ => none
  | .receive =>
    match x.sign, x.watch with
    | .sending none, .watching => some { x with sign := .executing }
    | .sending (some signatureData), .watching =>
      some { x with sign := .executing, watch := .executeBatch signatureData }
    | _, _ => none
  | .submitted hash =>
    match x.watch with
    | .executeBatch signatureData =>
      let actions := x.actions ++
        [.executeProposals batch.proposals (signatureBytes signatureData) batch.gasLimit]
      match hash with
      | .error err =>
        some { x with watch := .returned (some err), actions := actions ++ [.broadcastFail x.sessionID] }
      | .ok _ => some { x with watch := .watching, actions := actions }
    | _ => none
  | .tick isProposalExecuted =>
    match x.watch with
    | .watching =>
      if areProposalsExecuted isProposalExecuted batch.proposals then
        some { x with watch := .returned none }
      else some x
    | _ => none
  | .timeout =>
    match x.watch with
    | .watching => some { x with watch := .returned (some "execution timed out in 30m0s") }
    | _ => none
  | .done =>
    match x.sign, x.watch with
    | .returned (some _), .watching => some { x with watch := .returned none }
    | _, _ => none

/-- What `ep.Wait()` returns, once it does. -/
def errors (x : Session) : Option (List String) :=
  match x.sign, x.watch with
  | .returned err, .returned err' => some (err.toList ++ err'.toList)
  | _, _ => none

end Session

/-- The goroutine that a turn of the loop of `Execute` starts. -/
inductive GoPc
  | idle
  | spawned
  /-- `ProposalsHash` or `NewSigning` failed -/
  | failed (err : String)
  | session (x : Session)
deriving DecidableEq, Repr

/-- The errors of a goroutine, none while it runs. -/
def GoPc.errors : GoPc → Option (List String)
  | .idle => some []
  | .spawned => none
  | .failed err => some [err]
  | .session x => x.errors

inductive CallPc
  | idle
  /-- `next` batches have had their turn -/
  | running (proposals : List TransferProposal) (batches : List Batch) (next : ℕ)
  | returned (proposals : List TransferProposal) (errs : List String)
deriving DecidableEq, Repr

/-- `Run` after the relayer is started. -/
inductive ExitPc
  | running
  /-- in `exitLock.Lock()` -/
  | locking
  | exited
deriving DecidableEq, Repr

structure State where
  calls : ℕ → CallPc
  go : ℕ → ℕ → GoPc
  /-- how many calls hold the exit lock -/
  readers : ℕ
  exit : ExitPc

def init : State := ⟨fun _ => .idle, fun _ _ => .idle, 0, .running⟩

inductive Event
  | execute (t : ℕ) (cfg : Config) (proposals : List TransferProposal) (isProposalExecuted : Bridge)
  | iterate (t : ℕ)
  | fail (t k : ℕ) (err : String)
  /-- the session ID is formed and the two goroutines are started -/
  | launch (t k : ℕ)
  | session (t k : ℕ) (e : SessionEvent)
  | ret (t : ℕ)
  /-- the relayer is told to stop -/
  | signal
  | exit

@[simp] def State.setCall (s : State) (t : ℕ) (pc : CallPc) : State :=
  { s with calls := Function.update s.calls t pc }

@[simp] def State.setGo (s : State) (t k : ℕ) (pc : GoPc) : State :=
  { s with go := Function.update s.go t (Function.update (s.go t) k pc) }

/-- The errors that `p.Wait()` joins, once all goroutines have returned. -/
def joinErrors (go : ℕ → GoPc) : ℕ → Option (List String)
  | 0 => some []
  | n + 1 => do
    let errs ← joinErrors go n
    return errs ++ (← (go n).errors)

def step (s : State) : Event → Option State
  | .execute t cfg proposals isProposalExecuted =>
    -- a writer that waits for the lock keeps new readers out
    match s.exit, s.calls t with
    | .running, .idle =>
      match proposalBatches cfg isProposalExecuted proposals with
      | .error err => some (s.setCall t (.returned proposals [err]))
      | .ok batches =>
        some { s.setCall t (.running proposals batches 0) with readers := s.readers + 1 }
    | _, _ => none
  | .iterate t =>
    match s.calls t with
    | .running proposals batches next =>
      match batches[next]? with
      | some batch =>
        if batch.proposals = [] then some (s.setCall t (.running proposals batches (next + 1)))
        else some ((s.setGo t next .spawned).setCall t (.running proposals batches (next + 1)))
      | none => none
    | _ => none
  | .fail t k err =>
    match s.calls t, s.go t k with
    | .running _ _ _, .spawned => some (s.setGo t k (.failed err))
    | _, _ => none
  | .launch t k =>
    match s.calls t, s.go t k with
    | .running _ batches next, .spawned =>
      match batches[k]? with
      | some batch =>
        -- `messageID` belongs to the turn, `i` to the whole loop
        some (s.setGo t k
          (.session (.start (batch.messageID ++ "-" ++ (next - 1).repr))))
      | none => none
    | _, _ => none
  | .session t k e =>
    match s.calls t, s.go t k with
    | .running _ batches _, .session x =>
      match batches[k]? with
      | some batch => (x.step batch e).map fun x' => s.setGo t k (.session x')
      | none => none
    | _, _ => none
  | .ret t =>
    match s.calls t with
    | .running proposals batches next =>
      if next = batches.length then
        (joinErrors (s.go t) batches.length).map fun errs =>
          { s.setCall t (.returned proposals errs) with readers := s.readers - 1 }
      else none
    | _ => none
  | .signal =>
    match s.exit with
    | .running => some { s with exit := .locking }
    | _ => none
  | .exit =>
    match s.exit with
    | .locking => if s.readers = 0 then some { s with exit := .exited } else none
    | _ => none

end Sygma.EvmExecution
