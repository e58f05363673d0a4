import Mathlib.Logic.Function.Basic
import SygmaRelayer.Spec.Election

/-! The parties of an ECDSA signing process (`tss/ecdsa/signing/signing.go`,
`tss/ecdsa/common`). `NewSigning` makes the party store, `Run` adds the parties of its peer
subset to it, and `ProcessInboundMessages` looks the sender of a message up in it.
`Coordinator.retry` calls `Run` of the same process again, with the subset of the new
coordinator. -/

namespace Sygma.PartyStore

/-- `tss.PartyID` -/
structure PartyID where
  id : PeerID
  index : ℕ
deriving DecidableEq, Repr

/-- The order in which `tss.SortPartyIDs` puts the parties of these peers. -/
structure PartyOrder where
  sortPartyIDs : List PeerID → List PeerID
  sortPartyIDs_perm : ∀ l, (sortPartyIDs l).Perm l

variable (order : PartyOrder)

/-- `common.PartiesFromPeers`; `SortPartyIDs` numbers the parties. -/
def partiesFromPeers (peers : List PeerID) : List PartyID :=
  (order.sortPartyIDs peers).zipIdx.map fun p => ⟨p.1, p.2⟩

structure Signing where
  /-- `PartyStore` -/
  partyStore : PeerID → Option PartyID
  /-- `Peers` -/
  peers : List PeerID

/-- `NewSigning` with a key share of these peers. -/
def newSigning (keyPeers : List PeerID) : Signing := ⟨fun _ => none, keyPeers⟩

/-- `PopulatePartyStore` -/
def populatePartyStore (partyStore : PeerID → Option PartyID) (parties : List PartyID) :
    PeerID → Option PartyID :=
  parties.foldl (fun store party => Function.update store party.id (some party)) partyStore

/-- How `Run` begins. -/
inductive Beginning
  /-- `unmarshallStartParams` returns an error -/
  | invalidParams
  /-- `SubsetError` -/
  | subsetError
  /-- the parties have been stored -/
  | stored
deriving DecidableEq, Repr

/-- `Run` of the process up to the party, on what the start params unmarshal to. -/
def run (host : PeerID) (s : Signing) (params : Option (List PeerID)) : Signing × Beginning :=
  match params with
  | none => (s, .invalidParams)
  | some peerSubset =>
    if host ∈ peerSubset then
      (⟨populatePartyStore s.partyStore (partiesFromPeers order peerSubset), peerSubset⟩, .stored)
    else (s, .subsetError)

/-- The process after some calls of `Run`. -/
def runs (host : PeerID) (s : Signing) (params : List (Option (List PeerID))) : Signing :=
  params.foldl (fun s p => (run order host s p).1) s

/-- The party to which `ProcessInboundMessages` attributes a message; nil if there is none. -/
def attributed (s : Signing) (sender : PeerID) : Option PartyID := s.partyStore sender

end Sygma.PartyStore
