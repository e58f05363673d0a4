import Mathlib.Logic.Function.Basic
import SygmaRelayer.Lib.Runs

/-! Tss processes of one relayer and `Coordinator.Execute` (`tss/coordinator.go`):
any number of processes are constructed and passed to concurrent `Execute` calls,
which share `pendingProcesses`; the processes share the mutexes of the two keyshare
stores. A `Lock` on a mutex that is held is a step that is not enabled. -/

namespace Sygma.Tss

inductive Store
  | ecdsa
  | frost
deriving DecidableEq, Repr

/-- The implementations of `TssProcess`. -/
inductive Kind
  | ecdsaKeygen
  | ecdsaResharing
  | ecdsaSigning
  | frostKeygen
  | frostResharing
  | frostSigning
deriving DecidableEq, Repr

namespace Kind

def store : Kind → Store
  | ecdsaKeygen | ecdsaResharing | ecdsaSigning => .ecdsa
  | frostKeygen | frostResharing | frostSigning => .frost

/-- The constructor returns with the keyshare locked. -/
def locksInNew : Kind → Bool
  | ecdsaResharing | frostKeygen | frostResharing => true
  | ecdsaKeygen | ecdsaSigning | frostSigning => false

/-- The constructor locks the keyshare and unlocks it before it returns. -/
def signs : Kind → Bool
  | ecdsaSigning | frostSigning => true
  | ecdsaKeygen | ecdsaResharing | frostKeygen | frostResharing => false

/-- `Run` locks the keyshare. -/
def locksInRun : Kind → Bool
  | ecdsaKeygen => true
  | ecdsaResharing | ecdsaSigning | frostKeygen | frostResharing | frostSigning => false

/-- `Stop` unlocks the keyshare. -/
def unlocksInStop : Kind → Bool
  | ecdsaKeygen | ecdsaResharing | frostKeygen | frostResharing => true
  | ecdsaSigning | frostSigning => false

def retryable : Kind → Bool
  | ecdsaSigning | frostSigning => true
  | ecdsaKeygen | ecdsaResharing | frostKeygen | frostResharing => false

end Kind

structure Process where
  id : ℕ
  kind : Kind
  sessionID : String
deriving DecidableEq, Repr

/-- Where a process stands. -/
inductive ProcPc
  | absent
  /-- a signing constructor has locked the keyshare to read it -/
  | reading
  | constructed
  /-- in the list of an `Execute` call -/
  | passed
  /-- the goroutine that calls `Run` is started -/
  | launched
  /-- inside `Run`, past its locking of the keyshare if it does so -/
  | running
  /-- `Run` returned -/
  | ran
  /-- `Stop` returned -/
  | stopped
deriving DecidableEq, Repr

/-- Where an `Execute` call stands. -/
inductive CallPc
  | idle
  /-- about to read `pendingProcesses` -/
  | checking (procs : List Process)
  /-- the check passed, about to set `pendingProcesses` -/
  | setting (procs : List Process)
  /-- waiting for the start of the processes or for their end -/
  | working (procs : List Process)
  /-- in the deferred function, about to clear `pendingProcesses` -/
  | clearing (procs : List Process)
  /-- in the deferred function, `todo` are still to be stopped -/
  | stopping (todo procs : List Process)
  /-- returned with "process already pending" -/
  | rejected (procs : List Process)
  | returned (procs : List Process)
deriving DecidableEq, Repr

structure State where
  pendingProcesses : String → Bool
  /-- who locked the mutex, if it is locked -/
  mutex : Store → Option Process
  pc : Process → ProcPc
  call : ℕ → CallPc
  /-- the relayer died from unlocking a mutex that was not locked -/
  crashed : Bool

def init : State := ⟨fun _ => false, fun _ => none, fun _ => .absent, fun _ => .idle, false⟩

inductive Event
  | new (p : Process)
  /-- a signing constructor unlocks the keyshare and returns -/
  | newDone (p : Process)
  | execute (c : ℕ) (procs : List Process)
  | check (c : ℕ)
  | set (c : ℕ)
  /-- a start message was sent or received: the processes are launched -/
  | start (c : ℕ)
  | run (p : Process)
  /-- `Run` returns: invalid start params, an error, a cancelled context or success -/
  | runEnd (p : Process)
  /-- no process is at work and `Execute` enters its deferred function: success, a coordinator
  timeout, a fail message, a tss timeout, a bad start message, a cancelled context, or an error
  of `Run` that is not retried -/
  | finish (c : ℕ)
  | clear (c : ℕ)
  | stop (c : ℕ)
  | ret (c : ℕ)
deriving DecidableEq, Repr

@[simp] def State.setPc (s : State) (p : Process) (pc : ProcPc) : State :=
  { s with pc := Function.update s.pc p pc }

@[simp] def State.setPcs (s : State) (procs : List Process) (pc : ProcPc) : State :=
  { s with pc := fun p => if p ∈ procs then pc else s.pc p }

@[simp] def State.setCall (s : State) (c : ℕ) (pc : CallPc) : State :=
  { s with call := Function.update s.call c pc }

@[simp] def State.setPending (s : State) (sessionID : String) (b : Bool) : State :=
  { s with pendingProcesses := Function.update s.pendingProcesses sessionID b }

@[simp] def State.lock (s : State) (p : Process) : State :=
  { s with mutex := Function.update s.mutex p.kind.store (some p) }

/-- `UnlockKeyshare`: Go does not ask who locked the mutex, and unlocking a free one is fatal. -/
def State.unlock (s : State) (st : Store) : State :=
  match s.mutex st with
  | some _ => { s with mutex := Function.update s.mutex st none }
  | none => { s with crashed := true }

/-- `tssProcesses[0].SessionID()` -/
def headSession : List Process → String
  | [] => ""
  | p :: _ => p.sessionID

/-- `tssProcesses[0].Retryable()` -/
def headRetryable : List Process → Bool
  | [] => false
  | p :: _ => p.kind.retryable

/-- A list `Execute` can be called with: its processes are new and different. -/
def Callable (s : State) (procs : List Process) : Prop :=
  procs ≠ [] ∧ procs.Nodup ∧ ∀ p ∈ procs, s.pc p = .constructed

instance (s : State) (procs : List Process) : Decidable (Callable s procs) :=
  inferInstanceAs (Decidable (_ ∧ _ ∧ _))

/-- The processes can be launched: for the first time, or again by `handleError`. -/
def Launchable (s : State) (procs : List Process) : Prop :=
  ∀ p ∈ procs, s.pc p = .passed ∨ headRetryable procs = true ∧ s.pc p = .ran

instance (s : State) (procs : List Process) : Decidable (Launchable s procs) :=
  inferInstanceAs (Decidable (∀ p ∈ procs, _))

/-- No goroutine of the call calls `Run` or is inside it. -/
def Quiet (s : State) (procs : List Process) : Prop :=
  ∀ p ∈ procs, s.pc p = .passed ∨ s.pc p = .ran

instance (s : State) (procs : List Process) : Decidable (Quiet s procs) :=
  inferInstanceAs (Decidable (∀ p ∈ procs, _))

def stepEvent (s : State) : Event → Option State
  | .new p =>
    match s.pc p, p.kind.locksInNew || p.kind.signs, s.mutex p.kind.store with
    | .absent, true, none =>
      some ((s.lock p).setPc p (if p.kind.signs then .reading else .constructed))
    | .absent, false, _ => some (s.setPc p .constructed)
    | _, _, _ => none
  | .newDone p =>
    if p.kind.signs ∧ s.pc p = .reading then
      some ((s.unlock p.kind.store).setPc p .constructed)
    else none
  | .execute c procs =>
    if s.call c = .idle ∧ Callable s procs then
      some ((s.setPcs procs .passed).setCall c (.checking procs))
    else none
  | .check c =>
    match s.call c with
    | .checking procs =>
      if s.pendingProcesses (headSession procs) then some (s.setCall c (.rejected procs))
      else some (s.setCall c (.setting procs))
    | _ => none
  | .set c =>
    match s.call c with
    | .setting procs => some ((s.setPending (headSession procs) true).setCall c (.working procs))
    | _ => none
  | .start c =>
    match s.call c with
    | .working procs => if Launchable s procs then some (s.setPcs procs .launched) else none
    | _ => none
  | .run p =>
    match s.pc p, p.kind.locksInRun, s.mutex p.kind.store with
    | .launched, true, none => some ((s.lock p).setPc p .running)
    | .launched, false, _ => some (s.setPc p .running)
    | _, _, _ => none
  | .runEnd p => if s.pc p = .running then some (s.setPc p .ran) else none
  | .finish c =>
    match s.call c with
    | .working procs => if Quiet s procs then some (s.setCall c (.clearing procs)) else none
    | _ => none
  | .clear c =>
    match s.call c with
    | .clearing procs =>
      some ((s.setPending (headSession procs) false).setCall c (.stopping procs procs))
    | _ => none
  | .stop c =>
    match s.call c with
    | .stopping (p :: todo) procs =>
      some (((if p.kind.unlocksInStop then s.unlock p.kind.store else s).setPc p .stopped).setCall c
        (.stopping todo procs))
    | _ => none
  | .ret c =>
    match s.call c with
    | .stopping [] procs => some (s.setCall c (.returned procs))
    | _ => none

/-- One step; a crashed relayer takes none. -/
def step (s : State) (e : Event) : Option State := if s.crashed then none else stepEvent s e

end Sygma.Tss
