import SygmaRelayer.Spec.PropStore

/-! `watchExecution` of `chains/btc/executor/executor.go`: it collects the signatures of the
inputs of a transaction, one for each, in whatever order the signing processes of
`tss/frost/signing` send them, and then sends the transaction. -/

namespace Sygma.BtcWatch

/-- `signing.Signature` -/
structure Signature where
  id : ℕ
  bytes : List UInt8
deriving DecidableEq, Repr

inductive Event
  /-- a result on `sigChn`, which may be nil, and what `SendRawTransaction` answers if it is called
  for it -/
  | result (sigResult : Option Signature) (sent : Except String String)
  /-- the ticker -/
  | timeout
  /-- the context is cancelled -/
  | done

inductive Action
  | cancelExecution
  /-- `sendTx`, with the witnesses it gives to the inputs -/
  | sendTx (witnesses : List (List (List UInt8)))
  /-- `TssFailMsg` to all peers -/
  | broadcastFail
  | storeProposalsStatus (status : PropStatus)
deriving DecidableEq, Repr

/-- Where the loop stands. -/
inductive Pc
  /-- a signature that has not arrived is empty -/
  | watching (signatures : List (List UInt8))
  | returned (err : Option String)
  | panicked
deriving DecidableEq, Repr

structure State where
  pc : Pc
  actions : List Action
deriving DecidableEq, Repr

/-- The loop for a transaction with `n` inputs. -/
def init (n : ℕ) : State := ⟨.watching (List.replicate n []), []⟩

def signaturesFilled (signatures : List (List UInt8)) : Bool :=
  signatures.all fun signature => signature.length ≠ 0

/-- `sendTx` and what follows it. -/
def send (s : State) (signatures : List (List UInt8)) (sent : Except String String) : State :=
  let actions := s.actions ++ [.cancelExecution, .sendTx (signatures.map fun sig => [sig])]
  match sent with
  | .error err =>
    ⟨.returned (some err),
      actions ++ [.broadcastFail, .storeProposalsStatus .failed, .cancelExecution]⟩
  | .ok _ => ⟨.returned none, actions ++ [.storeProposalsStatus .executed, .cancelExecution]⟩

/-- One turn of the loop; nobody listens any more once it has ended. -/
def step (s : State) (e : Event) : State :=
  match s.pc, e with
  | .watching _, .result none _ => s
  | .watching signatures, .result (some sig) sent =>
    if sig.id < signatures.length then
      let signatures := signatures.set sig.id sig.bytes
      if signaturesFilled signatures then send s signatures sent
      else { s with pc := .watching signatures }
    else ⟨.panicked, s.actions ++ [.cancelExecution]⟩
  | .watching _, .timeout =>
    ⟨.returned (some "execution timed out in 30m0s"), s.actions ++ [.cancelExecution]⟩
  | .watching _, .done => ⟨.returned none, s.actions ++ [.cancelExecution]⟩
  | .returned _, _ | .panicked, _ => s

def watchExecution (n : ℕ) (es : List Event) : State := es.foldl step (init n)

end Sygma.BtcWatch
