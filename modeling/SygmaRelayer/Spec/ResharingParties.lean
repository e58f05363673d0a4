import SygmaRelayer.Spec.TssPeers

/-! The parties of an ECDSA resharing (`tss/ecdsa/resharing/resharing.go`). `Run` numbers the old
parties as they stand in their own committee and puts the other peers of the peerstore behind
them, in an array that has one place for each peer of the peerstore. -/

namespace Sygma.Resharing

open PartyStore

/-- The loop of `sortParties`: the array with its nil entries, and the next index. -/
structure Placing where
  newParties : List (Option PartyID)
  index : ℕ
deriving DecidableEq, Repr

/-- One turn of the loop; `none` is an index out of range. -/
def place (oldPeers : List PeerID) (s : Placing) (party : PartyID) : Option Placing :=
  if party.id ∈ oldPeers then some s
  else if s.index < s.newParties.length then
    some ⟨s.newParties.set s.index (some { party with index := s.index }), s.index + 1⟩
  else none

/-- `make` and `copy`: as many old parties as there is room for, and nil entries after them. -/
def copyParties (length : ℕ) (oldParties : List PartyID) : List (Option PartyID) :=
  (oldParties.take length).map some ++ List.replicate (length - oldParties.length) none

/-- `Resharing.sortParties` -/
def sortParties (parties oldParties : List PartyID) : Option (List (Option PartyID)) := do
  let s ← parties.foldlM (place (oldParties.map PartyID.id))
    ⟨copyParties parties.length oldParties, oldParties.length⟩
  return s.newParties

variable (c : TssPeers.Config)

/-- `oldParties` of `Run`; `slices.Sort` in `validateStartParams` has sorted the subset in place. -/
def oldParties (oldSubset : List PeerID) : List PartyID :=
  partiesFromPeers c.toPartyOrder (c.sortIDs oldSubset)

/-- `newParties` of `Run` -/
def newParties (oldSubset peerstore : List PeerID) : Option (List (Option PartyID)) :=
  sortParties (partiesFromPeers c.toPartyOrder peerstore) (oldParties c oldSubset)

end Sygma.Resharing
