import Mathlib.Logic.Function.Basic
import SygmaRelayer.Spec.Coordinator
import SygmaRelayer.Spec.Keyshare

/-! The keygen event handlers (`chains/evm/listener/eventHandlers/tss.go`) on the two keyshare
stores. A call is handed a block range, fetches the keygen events in it and runs a keygen
process, whose `processEndMessage` stores the new share. -/

namespace Sygma.KeygenEvents

open KeyshareStore

/-- The stores of a relayer, and the threshold of its topology. -/
structure Relayer where
  Key : Tss.Store → Type
  scheme : ∀ store, Scheme (Keyshare (Key store))
  threshold : ℤ

/-- What a keygen process ends with once the protocol has generated a key: `StoreKeyshare` with the
peers of the process. -/
structure Generated (Key : Type) where
  key : Key
  peers : List PeerID
  disk : Disk

/-- A `HandleEvents` call of the handler of one scheme. -/
structure Call (r : Relayer) where
  store : Tss.Store
  startBlock : ℕ
  endBlock : ℕ
  /-- the block numbers of the events `FetchKeygenEvents` or `FetchFrostKeygenEvents` returns -/
  keygenEvents : Except String (List UInt64)
  /-- what `Coordinator.Execute` comes to, if it is called -/
  generated : Option (Generated (r.Key store))

structure State where
  file : Tss.Store → File
  /-- the sessions of the keygen processes that were started -/
  started : List (Tss.Store × String)

variable {r : Relayer}

def sessionID : Tss.Store → UInt64 → String
  | .ecdsa, block => "keygen-" ++ block.toNat.repr
  | .frost, block => "frost-keygen-" ++ block.toNat.repr

/-- `NewKeygen` and `Coordinator.Execute`, whose error is logged. -/
def executeKeygen (s : State) (c : Call r) (block : UInt64) : State :=
  let started := s.started ++ [(c.store, sessionID c.store block)]
  match c.generated with
  | none => { s with started := started }
  | some g =>
    let file := (storeKeyshare (r.scheme c.store) g.disk (s.file c.store)
      ⟨g.key, r.threshold, g.peers⟩).1
    { file := Function.update s.file c.store file, started := started }

/-- `FrostKeygenEventHandler.HandleEvents`, and what both handlers do after they looked at the
store. -/
def fetchAndExecute (s : State) (c : Call r) : State × Except String Unit :=
  match c.keygenEvents with
  | .error err => (s, .error ("unable to fetch keygen events because of: " ++ err))
  | .ok [] => (s, .ok ())
  | .ok (block :: _) => (executeKeygen s c block, .ok ())

def handleEvents (s : State) (c : Call r) : State × Except String Unit :=
  match c.store with
  | .frost => fetchAndExecute s c
  | .ecdsa =>
    match getKeyshare (r.scheme .ecdsa) (s.file .ecdsa) with
    | .ok key => if key.threshold ≠ 0 then (s, .ok ()) else fetchAndExecute s c
    | .error _ => fetchAndExecute s c

/-- The calls one after the other. -/
def run (s : State) (calls : List (Call r)) : State :=
  calls.foldl (fun s c => (handleEvents s c).1) s

end Sygma.KeygenEvents
