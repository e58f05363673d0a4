import Mathlib.Algebra.Group.Nat.Defs
import SygmaRelayer.Lib.Sorting

/-! Ordering the peers of a session: `SortPeersForSession` and `SortablePeerSlice`
(`tss/util`) and the static coordinator elector (`comm/elector/static.go`). -/

namespace Sygma

/-- A peer ID in the text form of `Pretty`, which determines it. -/
abbrev PeerID := String

/-- `binary.BigEndian.Uint64` -/
def bigEndianUint64 (bytes : List UInt8) : ℕ :=
  (bytes.take 8).foldl (fun n b => n * 256 + b.toNat) 0

/-- What the order of the peers of a session depends on. -/
structure PeerOrder where
  keccak256 : String → List UInt8
  sessionID : String

namespace PeerOrder

def hash (o : PeerOrder) (p : PeerID) : ℕ := bigEndianUint64 (o.keccak256 (p ++ o.sessionID))

/-- `SortablePeerSlice.Less` -/
def less (o : PeerOrder) (p q : PeerID) : Bool := o.hash p > o.hash q

/-- `sorted` is a result of `SortPeersForSession`; `sort.Sort` is not stable. -/
def SortPeersForSession (o : PeerOrder) (peers sorted : List PeerID) : Prop :=
  Sorting.SortsTo o.less peers sorted

instance (o : PeerOrder) (peers sorted : List PeerID) :
    Decidable (o.SortPeersForSession peers sorted) :=
  inferInstanceAs (Decidable (Sorting.SortsTo _ _ _))

/-- The 8-byte prefixes tell the peers apart. -/
def Distinct (o : PeerOrder) (peers : List PeerID) : Prop :=
  ∀ p ∈ peers, ∀ q ∈ peers, o.hash p = o.hash q → p = q

instance (o : PeerOrder) (peers : List PeerID) : Decidable (o.Distinct peers) :=
  inferInstanceAs (Decidable (∀ p ∈ _, ∀ q ∈ _, _))

/-- `staticCoordinatorElector.Coordinator` on the sorted peers. -/
def coordinator (sorted : List PeerID) : PeerID := sorted.headD ""

/-- `c` is a result of `staticCoordinatorElector.Coordinator`, which sorts the peers once to see
whether there are any and once more to take the first one. -/
def StaticCoordinator (o : PeerOrder) (peers : List PeerID) (c : PeerID) : Prop :=
  ∃ sortedPeers sortedAgain, o.SortPeersForSession peers sortedPeers ∧
    o.SortPeersForSession peers sortedAgain ∧
    c = if sortedPeers.length = 0 then "" else coordinator sortedAgain

/-- The election does not depend on the order the peers are listed in. -/
theorem coordinator_unique {o : PeerOrder} {peers peers' sorted sorted' : List PeerID} {c : PeerID}
    (hd : o.Distinct peers) (hset : ∀ p, p ∈ peers' ↔ p ∈ peers)
    (hs : o.SortPeersForSession peers sorted) (hs' : o.SortPeersForSession peers' sorted')
    (hc : sorted.head? = some c) : coordinator sorted' = c := by
  have hcmem : c ∈ peers := hs.perm.subset (List.mem_of_mem_head? hc)
  have hcmem' : c ∈ sorted' := hs'.perm.mem_iff.2 ((hset c).2 hcmem)
  obtain ⟨c', t, rfl⟩ := List.exists_cons_of_ne_nil (List.ne_nil_of_mem hcmem')
  have hc'mem : c' ∈ peers := (hset c').1 (hs'.perm.subset List.mem_cons_self)
  change c' = c
  rcases hs.not_less_head hc c' hc'mem with h | h
  · exact h
  rcases hs'.not_less_head rfl c ((hset c).2 hcmem) with h' | h'
  · exact h'.symm
  simp only [less, gt_iff_lt, decide_eq_false_iff_not, not_lt] at h h'
  exact hd c' hc'mem c hcmem (le_antisymm h h')

end PeerOrder

def hashBytes (hash : BitVec 256) : List UInt8 :=
  (List.range 32).map fun i => UInt8.ofNat (hash.toNat / 256 ^ (31 - i))

/-- The order of the peers `a`, `b` and `c` in one session: Keccak-256 puts `c` first and `b`
last. -/
def sampleOrder : PeerOrder where
  sessionID := "1-2-100-104-0"
  keccak256 s :=
    if s = "a1-2-100-104-0" then
      hashBytes 0xbfdf05458a16e52b486da594f8c2fa4b49f2d30cd2fa12d6209f7db5cc85be3d
    else if s = "b1-2-100-104-0" then
      hashBytes 0x39866491e71e1c7739a8bc4cecee03c2f704ab96c2f3cca2db6bc22a1509bf2c
    else if s = "c1-2-100-104-0" then
      hashBytes 0xe1b791ae4b2a3f999ce8afddcb63cbbb31d3d4d4b00d506f7ee381b00b809818
    else []

example : sampleOrder.SortPeersForSession ["a", "b", "c"] ["c", "a", "b"] := by decide

def firstPeer : PeerID := "QmZHPnN3CKiTAp8VaJqszbf8m7v4mPh15M421KpVdYHF54"

def secondPeer : PeerID := "QmcW3oMdSqoEcjbyd51auqC23vhKX6BqfcZcY2HJ3sKAZR"

def thirdPeer : PeerID := "QmYayosTHxL2xa4jyrQ2PmbhGbrkSxsGM1kzXLTT8SsLVy"

/-- `peer.Decode` on the texts of these peers. -/
def decodePeer (s : String) : Option PeerID :=
  if s ∈ [firstPeer, secondPeer, thirdPeer] then some s else none

/-- The order of these peers in a session: Keccak-256 puts the second first and the third last. -/
def peerOrder : PeerOrder where
  sessionID := "sessionID"
  keccak256 s :=
    if s = firstPeer ++ "sessionID" then
      hashBytes 0x85ba86fe3947be22b7da1168d75f4d76e7140f2d4c0a7a070b54edf664a79be8
    else if s = secondPeer ++ "sessionID" then
      hashBytes 0xfc0e3439b70ed5e61995ef963254e88f30b240d063339a6c3d4c792e90618ba9
    else if s = thirdPeer ++ "sessionID" then
      hashBytes 0x18e104c4b3de90f8ad4791dbe80894ba512a5978aee506cb61d0a325a83ea6a3
    else []

end Sygma
