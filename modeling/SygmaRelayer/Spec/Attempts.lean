import Mathlib.Data.Fin.Basic
import SygmaRelayer.Spec.Coordinator
import SygmaRelayer.Spec.Election

/-! One `Coordinator.Execute` call from the inside (`tss/coordinator.go`): the first attempt,
`handleError` with the second one, and the subscriptions made on the way by the
coordinator, the processes and the bully elector. A `Subscribe` or `UnSubscribe` is a step
of its own; a subscription is named by the call that makes it, and no call is made twice. -/

namespace Sygma.Attempts

open Tss (Kind)

/-- The errors `handleError` tells apart. -/
inductive Err
  | coordinatorError (peer : PeerID)
  | communicationError
  /-- `tss.Error`, with the peers `PeersFromParties` finds for the culprits -/
  | tssError (culprits : Option (List PeerID))
  | subsetError
  | other
  /-- several errors that a pool has combined into one -/
  | combined
deriving DecidableEq, Repr

/-- `Wait` of a pool whose tasks failed with these errors. -/
def poolWait : List Err → Option Err
  | [] => none
  | [err] => some err
  | _ :: _ :: _ => some .combined

/-- What `handleError` does besides launching `watchExecution`. -/
inductive Branch
  | retry (excludedPeers : List PeerID)
  | waitForStart
  | return
deriving DecidableEq, Repr

/-- The type switch of `handleError`. -/
def handleError : Err → Branch
  | .coordinatorError peer => .retry [peer]
  | .communicationError => .retry []
  | .tssError (some excludedPeers) => .retry excludedPeers
  | .tssError none => .return
  | .subsetError => .waitForStart
  | .other | .combined => .return

/-- The pool of `Execute` and the one of `handleError`. -/
inductive Attempt
  | first
  | second
deriving DecidableEq, Repr

/-- The subscriptions of `initiate` and `waitForStart`. -/
inductive StartSub
  /-- `TssReadyMsg`, in `initiate` -/
  | ready
  /-- `TssInitiateMsg`, in `waitForStart` -/
  | init
  /-- `TssStartMsg`, in `waitForStart` -/
  | start
deriving DecidableEq, Repr

/-- The subscriptions of an `Execute` call with `n + 1` processes. -/
inductive Sub (n : ℕ)
  /-- `TssFailMsg`, in `watchExecution` -/
  | fail (a : Attempt)
  | starting (a : Attempt) (w : StartSub)
  /-- in `Run` of a process -/
  | run (a : Attempt) (i : Fin (n + 1))
  /-- one of the six in `listen` of the bully elector -/
  | elector (k : Fin 6)
deriving DecidableEq, Repr

inductive WatchPc
  | idle
  | launched
  | watching
  | done (result : Option Err)
deriving DecidableEq, Repr

/-- The task of a pool besides `watchExecution`: `start`, `retry` or `waitForStart`. -/
inductive TaskPc
  | idle
  /-- the bully elector is at work -/
  | electing
  /-- about to call `initiate` or `waitForStart`; only the latter if `initiates` is false -/
  | starting (initiates : Bool)
  /-- between the two `Subscribe` calls of `waitForStart` -/
  | subscribing
  /-- in the loop of `initiate` or `waitForStart` -/
  | waiting (subs : List StartSub)
  /-- the processes are running -/
  | running (subs : List StartSub)
  /-- the deferred `UnSubscribe` calls -/
  | leaving (subs : List StartSub) (result : Option Err)
  | done (result : Option Err)
deriving DecidableEq, Repr

/-- The subscriptions a task has open. -/
def TaskPc.subs : TaskPc → List StartSub
  | .idle | .electing | .starting _ | .done _ => []
  | .subscribing => [.init]
  | .waiting subs | .running subs | .leaving subs _ => subs

/-- `Run` of a process. -/
inductive RunPc
  | idle
  | launched
  | subscribed
  /-- returned, after it had subscribed if `late` is true -/
  | done (late : Bool) (result : Option Err)
deriving DecidableEq, Repr

def RunPc.hasSubscribed : RunPc → Bool
  | .idle | .launched => false
  | .subscribed => true
  | .done late _ => late

def RunPc.error : RunPc → Option Err
  | .idle | .launched | .subscribed => none
  | .done _ result => result

inductive MainPc
  /-- in the first `p.Wait()` -/
  | waiting
  /-- in `rp.Wait()` of `handleError` -/
  | handling (branch : Branch)
  /-- in the deferred function: the processes before `i` are stopped -/
  | stopping (i : ℕ)
deriving DecidableEq, Repr

/-- `Run` subscribes before anything in it can fail. -/
def subscribesFirst : Kind → Bool
  | .frostKeygen | .frostResharing => true
  | .ecdsaKeygen | .ecdsaResharing | .ecdsaSigning | .frostSigning => false

variable {n : ℕ}

structure State (n : ℕ) where
  main : MainPc
  /-- the context of `Execute` is done -/
  cancelled : Bool
  watch : Attempt → WatchPc
  task : Attempt → TaskPc
  run : Attempt → Fin (n + 1) → RunPc
  /-- the field `subscriptionID` of each process -/
  subscriptionID : Fin (n + 1) → Option Attempt
  /-- how many subscriptions `listen` has made, once the elector has launched it -/
  elector : Option ℕ
  registered : Sub n → Bool

/-- Both tasks of the first pool are launched. -/
def init (n : ℕ) : State n where
  main := .waiting
  cancelled := false
  watch := Function.update (fun _ => .idle) .first .launched
  task := Function.update (fun _ => .idle) .first (.starting true)
  run := fun _ _ => .idle
  subscriptionID := fun _ => none
  elector := none
  registered := fun _ => false

@[simp] def State.setWatch (s : State n) (a : Attempt) (pc : WatchPc) : State n :=
  { s with watch := Function.update s.watch a pc }

@[simp] def State.setTask (s : State n) (a : Attempt) (pc : TaskPc) : State n :=
  { s with task := Function.update s.task a pc }

@[simp] def State.setRun (s : State n) (a : Attempt) (i : Fin (n + 1)) (pc : RunPc) : State n :=
  { s with run := Function.update s.run a (Function.update (s.run a) i pc) }

@[simp] def State.subscribe (s : State n) (sub : Sub n) : State n :=
  { s with registered := Function.update s.registered sub true }

@[simp] def State.unSubscribe (s : State n) (sub : Sub n) : State n :=
  { s with registered := Function.update s.registered sub false }

/-- The context of a pool is done: with the one of `Execute`, or because a task of the pool has
returned an error. -/
def State.ctxDone (s : State n) (a : Attempt) : Bool :=
  s.cancelled ||
    (match s.watch a with | .done (some _) => true | _ => false) ||
    (match s.task a with | .done (some _) => true | _ => false)

/-- The results of the processes, as the pool in `initiate` or `waitForStart` collects them. -/
def State.runErrors (s : State n) (a : Attempt) : List Err :=
  (List.finRange (n + 1)).filterMap fun i => (s.run a i).error

/-- `Execute` returns through the deferred function, which cancels the context first. -/
def State.leave (s : State n) : State n := { s with main := .stopping 0, cancelled := true }

/-- `handleError`, up to `rp.Wait()` or its return. -/
def State.handleError (s : State n) (err : Err) : State n :=
  let s := s.setWatch .second .launched
  match Attempts.handleError err with
  | .retry excludedPeers =>
    { s.setTask .second .electing with main := .handling (.retry excludedPeers), elector := some 0 }
  | .waitForStart => { s.setTask .second (.starting false) with main := .handling .waitForStart }
  | .return => s.leave

/-- What `watchExecution` may return. -/
def watchResult (ctxDone : Bool) : Option Err → Bool
  | none => ctxDone
  | some err => err = .other

/-- What the loop of `initiate` or `waitForStart` may return. -/
def waitResult (ctxDone : Bool) (subs : List StartSub) : Option Err → Bool
  | none => ctxDone
  | some (.coordinatorError _) => .start ∈ subs
  | some err => err = .other

/-- What `Run` may return before it subscribes. -/
def earlyResult (kind : Kind) : Option Err → Bool
  | some .subsetError => kind.signs
  | some .other => !subscribesFirst kind
  | _ => false

/-- What `Run` may return after it has subscribed. -/
def lateResult : Option Err → Bool
  | some .subsetError | some (.coordinatorError _) => false
  | _ => true

inductive Event (n : ℕ)
  /-- the caller cancels the context -/
  | cancel
  | watchSubscribe (a : Attempt)
  | watchReturn (a : Attempt) (result : Option Err)
  /-- the next `Subscribe` of the goroutine `listen` -/
  | electorSubscribe
  /-- `BullyWaitTime` is over -/
  | elected
  | subscribe (a : Attempt) (w : StartSub)
  /-- the loop of `initiate` or `waitForStart` ends without a start -/
  | waitReturn (a : Attempt) (result : Option Err)
  /-- enough peers are ready, or the start message is there -/
  | launch (a : Attempt)
  | runSubscribe (a : Attempt) (i : Fin (n + 1))
  | runReturn (a : Attempt) (i : Fin (n + 1)) (result : Option Err)
  /-- the pool of the processes is done -/
  | runsReturned (a : Attempt)
  | unSubscribe (a : Attempt)
  | taskReturn (a : Attempt)
  /-- `p.Wait()` returns -/
  | wait
  /-- `rp.Wait()` returns -/
  | waitSecond
  /-- `Stop` of the next process -/
  | stop
deriving DecidableEq, Repr

variable (kind : Fin (n + 1) → Kind)

def step (s : State n) : Event n → Option (State n)
  | .cancel => some { s with cancelled := true }
  | .watchSubscribe a =>
    match s.watch a with
    | .launched => some ((s.subscribe (.fail a)).setWatch a .watching)
    | _ => none
  | .watchReturn a result =>
    match s.watch a with
    | .watching =>
      if watchResult (s.ctxDone a) result then
        some ((s.unSubscribe (.fail a)).setWatch a (.done result))
      else none
    | _ => none
  | .electorSubscribe =>
    match s.elector with
    | some k =>
      if h : k < 6 then some { s.subscribe (.elector ⟨k, h⟩) with elector := some (k + 1) } else none
    | none => none
  | .elected =>
    match s.task .second with
    | .electing => some (s.setTask .second (.starting true))
    | _ => none
  | .subscribe a w =>
    match s.task a, w with
    | .starting true, .ready => some ((s.subscribe (.starting a .ready)).setTask a (.waiting [.ready]))
    | .starting _, .init => some ((s.subscribe (.starting a .init)).setTask a .subscribing)
    | .subscribing, .start =>
      -- deferred calls run last in, first out
      some ((s.subscribe (.starting a .start)).setTask a (.waiting [.start, .init]))
    | _, _ => none
  | .waitReturn a result =>
    match s.task a with
    | .waiting subs =>
      if waitResult (s.ctxDone a) subs result then some (s.setTask a (.leaving subs result)) else none
    | _ => none
  | .launch a =>
    match s.task a with
    | .waiting subs =>
      some { s.setTask a (.running subs) with run := Function.update s.run a fun _ => .launched }
    | _ => none
  | .runSubscribe a i =>
    match s.run a i with
    | .launched =>
      some { (s.subscribe (.run a i)).setRun a i .subscribed with
        subscriptionID := Function.update s.subscriptionID i (some a) }
    | _ => none
  | .runReturn a i result =>
    match s.run a i with
    | .launched =>
      if earlyResult (kind i) result then some (s.setRun a i (.done false result)) else none
    | .subscribed => if lateResult result then some (s.setRun a i (.done true result)) else none
    | _ => none
  | .runsReturned a =>
    match s.task a with
    | .running subs =>
      if ∀ i, s.run a i ≠ .launched ∧ s.run a i ≠ .subscribed then
        some (s.setTask a (.leaving subs (poolWait (s.runErrors a))))
      else none
    | _ => none
  | .unSubscribe a =>
    match s.task a with
    | .leaving (w :: subs) result =>
      some ((s.unSubscribe (.starting a w)).setTask a (.leaving subs result))
    | _ => none
  | .taskReturn a =>
    match s.task a with
    | .leaving [] result =>
      -- the first attempt cancels the context if it succeeds
      some { s.setTask a (.done result) with
        cancelled := s.cancelled || (a = .first && result.isNone) }
    | _ => none
  | .wait =>
    match s.main, s.task .first, s.watch .first with
    | .waiting, .done result, .done watchResult =>
      match poolWait (result.toList ++ watchResult.toList) with
      | none => some s.leave
      | some err => if (kind 0).retryable then some (s.handleError err) else some s.leave
    | _, _, _ => none
  | .waitSecond =>
    match s.main, s.task .second, s.watch .second with
    | .handling _, .done _, .done _ => some s.leave
    | _, _, _ => none
  | .stop =>
    match s.main with
    | .stopping i =>
      if h : i < n + 1 then
        -- `UnSubscribe` of an empty ID does nothing
        let s := match s.subscriptionID ⟨i, h⟩ with
          | some a => s.unSubscribe (.run a ⟨i, h⟩)
          | none => s
        some { s with main := .stopping (i + 1) }
      else none
    | _ => none

/-- The error that `Execute` calls `handleError` with, once the first attempt is over. -/
def State.handled (s : State n) : Option Err :=
  match s.task .first, s.watch .first with
  | .done result, .done watched =>
    if (kind 0).retryable then poolWait (result.toList ++ watched.toList) else none
  | _, _ => none

/-- `Execute` has returned. Goroutines it has not waited for may go on. -/
def Returned (s : State n) : Prop := s.main = .stopping (n + 1)

end Sygma.Attempts
