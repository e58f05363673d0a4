import SygmaRelayer.Lib.Runs
import SygmaRelayer.Spec.PropStore

/-! The bookkeeping of the BTC executor (`chains/btc/executor/executor.go`): any
number of `Execute` calls and of retry handlers share one status store. Every
access to the store and to `propMutex` is a step of its own. `Execute` and
`storeProposalsStatus` take `propMutex`; the retry handlers do not. -/

namespace Sygma.Btc

structure BtcTransferProposalData where
  amount : UInt64
  recipient : String
  depositNonce : UInt64
  resourceId : ResourceID
deriving DecidableEq, Repr

structure BtcTransferProposal where
  source : UInt8
  destination : UInt8
  data : BtcTransferProposalData
deriving DecidableEq, Repr

/-- The `proposal.Proposal` a BTC message handler builds. -/
structure Proposal where
  source : UInt8
  destination : UInt8
  data : BtcTransferProposalData
  messageID : String
deriving DecidableEq, Repr

def BtcTransferProposal.key (p : BtcTransferProposal) : PropKey :=
  ⟨p.source, p.destination, p.data.depositNonce⟩

def Proposal.key (p : Proposal) : PropKey :=
  ⟨p.source, p.destination, p.data.depositNonce⟩

/-- The copy `proposalsForExecution` returns. -/
def Proposal.toBtc (p : Proposal) : BtcTransferProposal :=
  ⟨p.source, p.destination, p.data⟩

@[simp] theorem Proposal.key_toBtc (p : Proposal) : p.toBtc.key = p.key := rfl

/-- `Executor.isExecuted` on the status it read: a pending proposal counts as executed. -/
def isExecuted : PropStatus → Bool
  | .missing | .failed => false
  | .pending | .executed => true

/-- `propsPerResource[r]` of `Execute`. -/
def propsPerResource (props : List BtcTransferProposal) (r : ResourceID) :
    List BtcTransferProposal :=
  props.filter fun p => p.data.resourceId = r

def keys (props : List BtcTransferProposal) : List PropKey := props.map BtcTransferProposal.key

/-- Where an `Execute` call stands. -/
inductive CallPc
  /-- no call under this number yet -/
  | idle
  /-- about to lock `propMutex` in `proposalsForExecution` -/
  | locking (proposals : List Proposal)
  /-- about to read the status of the first proposal of `todo` -/
  | reading (todo : List Proposal) (props : List BtcTransferProposal)
  /-- the status read allows an execution, about to store `pending` -/
  | marking (prop : Proposal) (todo : List Proposal) (props : List BtcTransferProposal)
  /-- the store failed: `proposalsForExecution` returned the error, `propMutex` stays locked -/
  | failed
  /-- `proposalsForExecution` returned `props` -/
  | started (props : List BtcTransferProposal)
deriving DecidableEq, Repr

/-- The proposals marked so far by a call still inside `proposalsForExecution`. -/
def CallPc.collected : CallPc → List BtcTransferProposal
  | .reading _ props | .marking _ _ props => props
  | .idle | .locking _ | .failed | .started _ => []

/-- The proposals returned by `proposalsForExecution`. -/
def CallPc.startedProps : CallPc → List BtcTransferProposal
  | .started props => props
  | .idle | .locking _ | .reading _ _ | .marking _ _ _ | .failed => []

/-- Where the goroutine of one resource of a started call stands. -/
inductive GroupPc
  /-- `executeResourceProps` is at work and `sendTx` has not been called -/
  | running
  /-- `sendTx` returned, `storeProposalsStatus` is about to lock `propMutex` -/
  | locking (status : PropStatus)
  | storing (status : PropStatus) (todo : List BtcTransferProposal)
  /-- `storeProposalsStatus` is done, `executeResourceProps` has not returned -/
  | closing (status : PropStatus)
  | returned
deriving DecidableEq, Repr

/-- Where one `isExecuted` of the retry handling stands. -/
inductive RetryPc
  | idle
  /-- `pending` was read, `failed` is about to be written -/
  | resetting (k : PropKey)
  | done
deriving DecidableEq, Repr

structure State where
  status : PropStore
  propMutex : Bool
  call : ℕ → CallPc
  group : ℕ → ResourceID → GroupPc
  retry : ℕ → RetryPc

/-- A start of the relayer on whatever statuses the database holds. -/
def init (st : PropStore) : State :=
  ⟨st, false, fun _ => .idle, fun _ _ => .running, fun _ => .idle⟩

/-- One step; `ok` is what the database or the Bitcoin node answers. -/
inductive Event
  | execute (t : ℕ) (proposals : List Proposal)
  | lock (t : ℕ)
  | read (t : ℕ) (ok : Bool)
  | mark (t : ℕ) (ok : Bool)
  | unlock (t : ℕ)
  /-- the goroutine of a resource ends and stores nothing: the resource is unknown, `rawTx`
  or the construction of the signing processes failed, signing failed or timed out -/
  | abort (t : ℕ) (r : ResourceID)
  | send (t : ℕ) (r : ResourceID) (ok : Bool)
  | storeLock (t : ℕ) (r : ResourceID)
  | store (t : ℕ) (r : ResourceID) (ok : Bool)
  | storeUnlock (t : ℕ) (r : ResourceID)
  | ret (t : ℕ) (r : ResourceID)
  | retryRead (j : ℕ) (k : PropKey) (ok : Bool)
  | retryStore (j : ℕ) (ok : Bool)
deriving DecidableEq, Repr

@[simp] def State.setCall (s : State) (t : ℕ) (pc : CallPc) : State :=
  { s with call := Function.update s.call t pc }

@[simp] def State.setGroup (s : State) (t : ℕ) (r : ResourceID) (pc : GroupPc) : State :=
  { s with group := Function.update s.group t (Function.update (s.group t) r pc) }

@[simp] def State.setRetry (s : State) (j : ℕ) (pc : RetryPc) : State :=
  { s with retry := Function.update s.retry j pc }

@[simp] def State.setStatus (s : State) (k : PropKey) (v : PropStatus) : State :=
  { s with status := s.status.storePropStatus k v }

@[simp] def State.setMutex (s : State) (b : Bool) : State := { s with propMutex := b }

/-- The proposals of resource `r` that call `t` executes, empty unless the call has started. -/
def State.groupProps (s : State) (t : ℕ) (r : ResourceID) : List BtcTransferProposal :=
  propsPerResource (s.call t).startedProps r

def step (s : State) : Event → Option State
  | .execute t proposals =>
    match s.call t, proposals with
    -- `proposals[0].MessageID` is read first: an empty list panics
    | .idle, p :: ps => some (s.setCall t (.locking (p :: ps)))
    | _, _ => none
  | .lock t =>
    match s.call t, s.propMutex with
    | .locking proposals, false => some ((s.setMutex true).setCall t (.reading proposals []))
    | _, _ => none
  | .read t ok =>
    match s.call t with
    | .reading (p :: todo) props =>
      if ok then
        if isExecuted (s.status p.key) then some (s.setCall t (.reading todo props))
        else some (s.setCall t (.marking p todo props))
      else some (s.setCall t .failed)
    | _ => none
  | .mark t ok =>
    match s.call t with
    | .marking p todo props =>
      if ok then
        some ((s.setStatus p.key .pending).setCall t (.reading todo (props ++ [p.toBtc])))
      else some (s.setCall t .failed)
    | _ => none
  | .unlock t =>
    match s.call t with
    | .reading [] props => some ((s.setMutex false).setCall t (.started props))
    | _ => none
  | .abort t r =>
    match s.groupProps t r, s.group t r with
    | _ :: _, .running => some (s.setGroup t r .returned)
    | _, _ => none
  | .send t r ok =>
    match s.groupProps t r, s.group t r with
    | _ :: _, .running => some (s.setGroup t r (.locking (if ok then .executed else .failed)))
    | _, _ => none
  | .storeLock t r =>
    match s.group t r, s.propMutex with
    | .locking v, false => some ((s.setMutex true).setGroup t r (.storing v (s.groupProps t r)))
    | _, _ => none
  | .store t r ok =>
    match s.group t r with
    | .storing v (p :: todo) =>
      -- a failed write is logged and the loop goes on
      some ((if ok then s.setStatus p.key v else s).setGroup t r (.storing v todo))
    | _ => none
  | .storeUnlock t r =>
    match s.group t r with
    | .storing v [] => some ((s.setMutex false).setGroup t r (.closing v))
    | _ => none
  | .ret t r =>
    match s.group t r with
    | .closing _ => some (s.setGroup t r .returned)
    | _ => none
  | .retryRead j k ok =>
    match s.retry j with
    | .idle =>
      if ok && retryIsExecuted (s.status k) == .resetFirst then some (s.setRetry j (.resetting k))
      else some (s.setRetry j .done)
    | _ => none
  | .retryStore j ok =>
    match s.retry j with
    | .resetting k => some ((if ok then s.setStatus k .failed else s).setRetry j .done)
    | _ => none

/-- The proposals an event makes `proposalsForExecution` return. -/
def returnedProps (s : State) : Event → List BtcTransferProposal
  | .unlock t =>
    match s.call t with
    | .reading [] props => props
    | _ => []
  | _ => []

/-- Execution `(t, r)` of proposal `k` is in flight: `proposalsForExecution` has returned `k`
to call `t` and the `executeResourceProps` of its resource has not returned. -/
def InFlight (s : State) (t : ℕ) (r : ResourceID) (k : PropKey) : Prop :=
  k ∈ keys (s.groupProps t r) ∧ s.group t r ≠ .returned

/-- Call `t` has marked `k` and `proposalsForExecution` has not returned yet. -/
def Collects (s : State) (t : ℕ) (k : PropKey) : Prop := k ∈ keys (s.call t).collected

/-- No call is working on `k`. -/
def Unattended (s : State) (k : PropKey) : Prop :=
  ∀ t, ¬ Collects s t k ∧ ∀ r, ¬ InFlight s t r k

/-- The proposal is stuck: marked pending and left by every call. -/
def Stuck (s : State) (k : PropKey) : Prop := s.status k = .pending ∧ Unattended s k

end Sygma.Btc
