import Mathlib.Data.List.Dedup
import Mathlib.Logic.Function.Basic
import SygmaRelayer.Lib.Runs
import SygmaRelayer.Spec.Coordinator
import SygmaRelayer.Spec.PartyStore
import SygmaRelayer.Spec.Peerstore

/-! Peers and parties of the keygen and resharing processes (`tss/ecdsa`, `tss/frost`). A
process takes a listing of the host's peerstore when it is constructed, which
`processEndMessage` stores with the new share, and `Run` reads the peerstore again for the
parties of the protocol. Any number of `LoadPeers` calls (`comm/p2p/host.go`) run beside
the processes, one peerstore operation after the other. -/

namespace Sygma.TssPeers

/-- What `Peerstore.Peers` lists, and the peers of a stored share, which were listed that way. -/
structure PeerSet where
  peers : List PeerID
  nodup : peers.Nodup
deriving DecidableEq

structure Config extends PartyStore.PartyOrder where
  host : PeerID
  /-- `slices.Sort` -/
  sortIDs : List PeerID → List PeerID
  sortIDs_perm : ∀ l, (sortIDs l).Perm l

/-- Where a process stands. -/
inductive Pc
  | constructed
  /-- in `Run` of an ECDSA resharing, with start params that passed `validateStartParams` -/
  | validated (oldSubset : List PeerID)
  /-- the protocol runs with these parties -/
  | running (parties : List PeerID)
  | ended
deriving DecidableEq, Repr

structure Process where
  kind : Tss.Kind
  /-- `Peers` of the process -/
  peers : List PeerID
  /-- the peers of the share the constructor read, none if it could not -/
  keyPeers : PeerSet
  pc : Pc
deriving DecidableEq

/-- A share that was stored, with the parties that produced it. -/
structure Stored where
  process : ℕ
  peers : List PeerID
  parties : List PeerID
deriving DecidableEq, Repr

structure State (Store : Type) where
  peerstore : Store
  /-- what each `LoadPeers` call has left to do -/
  loads : ℕ → List PeerOp
  process : ℕ → Option Process
  stored : List Stored

def init {Store : Type} (peerstore : Store) : State Store :=
  ⟨peerstore, fun _ => [], fun _ => none, []⟩

inductive Event
  /-- `LoadPeers` is called with the peers of a topology and their first addresses, and lists the
  peers to remove in this order -/
  | loadPeers (t : ℕ) (listed : List PeerID) (topology : List (PeerID × String))
  | loadStep (t : ℕ)
  /-- `NewKeygen` or `NewResharing` -/
  | new (i : ℕ) (kind : Tss.Kind) (keyPeers : PeerSet)
  /-- `Run` of an ECDSA resharing checks its start params -/
  | validate (i : ℕ) (oldThreshold : ℤ) (oldSubset : List PeerID)
  /-- `Run` makes the parties and starts the protocol -/
  | run (i : ℕ)
  /-- the protocol has ended and `StoreKeyshare` succeeds or not -/
  | finish (i : ℕ) (ok : Bool)
  | fail (i : ℕ)

variable (c : Config) {Store : Type} (store : Peerstore Store)

/-- `common.PeersIntersection` -/
def peersIntersection (oldPeers newPeers : List PeerID) : List PeerID :=
  oldPeers.filter fun p => p ∈ newPeers

/-- `Resharing.validateStartParams` -/
def validateStartParams (keyPeers peerstore : List PeerID) (oldThreshold : ℤ)
    (oldSubset : List PeerID) : Except String Unit :=
  if oldThreshold ≤ 0 then .error "threshold too small"
  else if oldSubset.length < oldThreshold then .error "threshold bigger then subset"
  else if keyPeers.length ≠ 0 ∧
      c.sortIDs oldSubset ≠ peersIntersection (c.sortIDs keyPeers) peerstore then
    .error "invalid peers subset in start params"
  else .ok ()

/-- `Resharing.sortParties`: the old parties are copied to the front of an array with room for
the new ones, and the others stored behind them; `none` is an index out of range. -/
def sortParties (parties oldParties : List PeerID) : Option (List PeerID) :=
  let others := parties.filter fun p => p ∉ oldParties
  if others ≠ [] ∧ parties.length < oldParties.length + others.length then none
  else some (oldParties.take parties.length ++ others)

/-- `common.PartyIDSFromPeers` -/
def partyIDsFromPeers (peers : List PeerID) : List PeerID := peers.dedup

/-- Whether `Run` can make its parties now, and which: the inner `none` is a panic. -/
def parties (p : Process) (peerstore : List PeerID) : Option (Option (List PeerID)) :=
  match p.kind, p.pc with
  | .ecdsaKeygen, .constructed => some (some (c.sortPartyIDs peerstore))
  | .frostKeygen, .constructed | .frostResharing, .constructed =>
    some (some (partyIDsFromPeers (peerstore ++ [c.host])))
  | .ecdsaResharing, .validated oldSubset =>
    some (sortParties (c.sortPartyIDs peerstore) (c.sortPartyIDs oldSubset))
  | _, _ => none

@[simp] def State.setProcess (s : State Store) (i : ℕ) (p : Process) : State Store :=
  { s with process := Function.update s.process i (some p) }

def step (s : State Store) : Event → Option (State Store)
  | .loadPeers t listed topology =>
    if s.loads t = [] ∧ listed.Perm (store.peers s.peerstore) then
      some { s with
        loads := Function.update s.loads t
          (listed.map .remove ++ topology.map fun e => .add e.1 e.2) }
    else none
  | .loadStep t =>
    match s.loads t with
    | [] => none
    | op :: ops =>
      some { s with
        peerstore := store.apply s.peerstore op
        loads := Function.update s.loads t ops }
  | .new i kind keyPeers =>
    if s.process i = none ∧ kind.signs = false then
      some (s.setProcess i ⟨kind, store.peers s.peerstore, keyPeers, .constructed⟩)
    else none
  | .validate i oldThreshold oldSubset =>
    match s.process i with
    | some p =>
      if p.kind = .ecdsaResharing ∧ p.pc = .constructed then
        match validateStartParams c p.keyPeers.peers (store.peers s.peerstore) oldThreshold oldSubset with
        | .error _ => some (s.setProcess i { p with pc := .ended })
        -- `slices.Sort` has sorted the subset in place
        | .ok () => some (s.setProcess i { p with pc := .validated (c.sortIDs oldSubset) })
      else none
    | none => none
  | .run i =>
    match s.process i with
    | some p =>
      match parties c p (store.peers s.peerstore) with
      | none => none
      | some none => some (s.setProcess i { p with pc := .ended })
      | some (some ps) => some (s.setProcess i { p with pc := .running ps })
    | none => none
  | .finish i ok =>
    match s.process i with
    | some p =>
      match p.pc with
      | .running ps =>
        let stored := if ok then s.stored ++ [⟨i, p.peers, ps⟩] else s.stored
        some { s.setProcess i { p with pc := .ended } with stored := stored }
      | _ => none
    | none => none
  | .fail i =>
    match s.process i with
    | some p => some (s.setProcess i { p with pc := .ended })
    | none => none

end Sygma.TssPeers
