import SygmaRelayer.Spec.BtcTx
import SygmaRelayer.Spec.BtcWatch

/-! How a goroutine of `Execute` ends (`executeResourceProps` of `chains/btc/executor/executor.go`
and `NewSigning` of `tss/frost/signing/signing.go`): the lookup of the resource, `rawTx`, the
construction of a signing process for each input, and `watchExecution`. `runStep` is the executor
of `Spec/BtcExecutor` with this in place of the events that end a goroutine. -/

namespace Sygma.Btc

/-- `config.Resource`, under its `ResourceID`; the executor does not read the fee. -/
structure Resource (Address Script : Type) where
  address : Address
  script : Script
  tweak : String

/-- What `executeResourceProps` and `NewSigning` call of btcd, of `encoding/hex` and of the
multi-party-sig library. -/
structure SigningLib (Script Hash Scalar Keyshare : Type) where
  calcTaprootSignatureHash : MsgTx Script Hash → List (OutPoint Hash × TxOut Script) → ℕ →
    Except String (List UInt8)
  decodeString : String → Except String (List UInt8)
  unmarshalScalar : List UInt8 → Except String Scalar
  /-- the share with `Key` derived by the tweak -/
  derive : Keyshare → Scalar → Except String Keyshare

structure Executor (Address Script Hash Scalar Keyshare : Type) where
  lib : BtcLib Address Script Hash
  signing : SigningLib Script Hash Scalar Keyshare
  resources : ResourceID → Option (Resource Address Script)

/-- What one goroutine meets with: the services' answers to `rawTx`, the share `GetKeyshare` returns
for the process of each input, and the results that arrive on `sigChn` before the ticker. -/
structure Run (Keyshare : Type) where
  answers : Answers
  getKeyshare : ℕ → Except String Keyshare
  results : List (Option BtcWatch.Signature × Except String String)

/-- `signing.Signing` -/
structure Signing (Keyshare : Type) where
  id : ℕ
  key : Keyshare
  msg : List UInt8

/-- How a goroutine ends: `watchExecution`'s error, or the one that keeps it from running to its
end, and the status it stores for the proposals. -/
inductive Ending
  | returned (err : Option String) (stored : Option PropStatus)
  | panicked
deriving DecidableEq, Repr

section Goroutine

variable {Address Script Hash Scalar Keyshare : Type}

def newSigning (lib : SigningLib Script Hash Scalar Keyshare) (id : ℕ) (msg : List UInt8)
    (tweak : String) (getKeyshare : Except String Keyshare) :
    Except String (Signing Keyshare) := do
  let key ← getKeyshare
  let tweakBytes ← lib.decodeString tweak
  let h ← lib.unmarshalScalar tweakBytes
  let key ← lib.derive key h
  return ⟨id, key, msg⟩

variable (x : Executor Address Script Hash Scalar Keyshare)

/-- The map of previous outputs, in the order of its assignments. -/
def prevOuts (lib : BtcLib Address Script Hash) (script : Script) (utxos : List Utxo) :
    Except String (List (OutPoint Hash × TxOut Script)) :=
  utxos.mapM fun utxo => do
    let hash ← lib.newHashFromStr utxo.txID
    return (⟨hash, utxo.vout⟩, ⟨utxo.value.toInt64, script⟩)

/-- The signing process of input `i`. -/
def tssProcess (resource : Resource Address Script) (tx : MsgTx Script Hash)
    (outs : List (OutPoint Hash × TxOut Script)) (getKeyshare : ℕ → Except String Keyshare)
    (i : ℕ) : Except String (Signing Keyshare) := do
  let signingHash ← x.signing.calcTaprootSignatureHash tx outs i
  newSigning x.signing i signingHash resource.tweak (getKeyshare i)

/-- `executeResourceProps` until it starts the coordinator. -/
def constructed (props : List BtcTransferProposal) (resource : Resource Address Script)
    (run : Run Keyshare) : Except String (MsgTx Script Hash × List (Signing Keyshare)) := do
  let (tx, utxos) ← rawTx x.lib run.answers props resource.address
  let outs ← prevOuts x.lib resource.script utxos
  let tssProcesses ←
    (List.range tx.txIn.length).mapM (tssProcess x resource tx outs run.getKeyshare)
  return (tx, tssProcesses)

/-- The events of `watchExecution`: its context is cancelled only after it has returned, and a
failure of the coordinator brings no result, so that what is left is the ticker. -/
def Run.events (run : Run Keyshare) : List BtcWatch.Event :=
  run.results.map (fun result => .result result.1 result.2) ++ [.timeout]

/-- The status `watchExecution` stores. -/
def storedStatus (s : BtcWatch.State) : Option PropStatus :=
  s.actions.findSome? fun
    | .storeProposalsStatus status => some status
    | _ => none

def executeResourceProps (props : List BtcTransferProposal) (resource : Resource Address Script)
    (run : Run Keyshare) : Ending :=
  match constructed x props resource run with
  -- the deferred `cancelWatch` ends `watchExecution`, which stores nothing
  | .error err => .returned (some err) none
  -- `Coordinator.Execute` reads the first process
  | .ok (_, []) => .panicked
  | .ok (tx, _ :: _) =>
    let watched := BtcWatch.watchExecution tx.txIn.length run.events
    match watched.pc with
    | .returned err => .returned err (storedStatus watched)
    | .watching _ | .panicked => .panicked

/-- The goroutine of resource `r`. -/
def executeResource (r : ResourceID) (props : List BtcTransferProposal) (run : Run Keyshare) :
    Ending :=
  match x.resources r with
  | none => .returned (some ("no resource for ID " ++ r.toHex)) none
  | some resource => executeResourceProps x props resource run

inductive RunEvent (Keyshare : Type)
  /-- the goroutine of resource `r` of call `t` runs until it stores a status or has ended -/
  | goroutine (t : ℕ) (r : ResourceID) (run : Run Keyshare)
  | other (e : Event)

/-- The event of the executor that a step stands for. -/
def baseEvent (s : State) : RunEvent Keyshare → Event
  | .goroutine t r run =>
    match executeResource x r (s.groupProps t r) run with
    | .returned _ (some status) => .send t r (status = .executed)
    | .returned _ none | .panicked => .abort t r
  | .other e => e

def runStep (s : State) : RunEvent Keyshare → Option State
  | .goroutine t r run =>
    match executeResource x r (s.groupProps t r) run with
    | .returned .. => step s (baseEvent x s (.goroutine t r run))
    -- the relayer is gone
    | .panicked => none
  -- a goroutine ends as its run says
  | .other (.abort ..) | .other (.send ..) => none
  | .other e => step s e

end Goroutine

end Sygma.Btc
