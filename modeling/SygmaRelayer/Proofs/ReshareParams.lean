import Mathlib.Data.List.Sort
import Mathlib.Data.String.Basic
import SygmaRelayer.Proofs.PartyStore
import SygmaRelayer.Spec.AllReady

/-! The start params of an ECDSA resharing. A relayer that has a share compares the subset
with the peers it knows, in sorted order, but not the threshold with that of its share; and
either relayer asks for as many members as the threshold, where resharing needs one more. -/

namespace Sygma.TssPeers

variable {c : Config} {peerstore oldSubset : List PeerID} {oldThreshold : ℤ}

theorem validateStartParams_eq_ok {keyPeers : List PeerID} :
    validateStartParams c keyPeers peerstore oldThreshold oldSubset = .ok () ↔
      0 < oldThreshold ∧ oldThreshold ≤ oldSubset.length ∧
        (keyPeers ≠ [] →
          c.sortIDs oldSubset = peersIntersection (c.sortIDs keyPeers) peerstore) := by
  unfold validateStartParams
  split_ifs with hpos hlength hpeers
  · simp [hpos]
  · simp [hlength]
  · simp only [List.length_eq_zero_iff, ne_eq] at hpeers
    simp [hpeers]
  · simp only [List.length_eq_zero_iff, ne_eq, not_and, not_not] at hpeers
    simpa using ⟨by omega, by omega, hpeers⟩

/-- A key share, as far as resharing reads it. -/
structure Share where
  threshold : ℤ
  peers : PeerSet
  nonempty : peers.peers ≠ []

theorem accepted_perm {key : Share}
    (h : validateStartParams c key.peers.peers peerstore oldThreshold oldSubset = .ok ()) :
    oldSubset.Perm (peersIntersection key.peers.peers peerstore) := by
  obtain ⟨-, -, hsorted⟩ := validateStartParams_eq_ok.1 h
  calc oldSubset
    _ |>.Perm (c.sortIDs oldSubset) := (c.sortIDs_perm oldSubset).symm
    _ = peersIntersection (c.sortIDs key.peers.peers) peerstore := hsorted key.nonempty
    _ |>.Perm (peersIntersection key.peers.peers peerstore) := (c.sortIDs_perm _).filter _

/-- The start params can reshare the key: the threshold is that of the share, and the subset
lists the peers of the share that are in the peerstore, more of them than the threshold. -/
structure CanReshare (key : Share) (peerstore : List PeerID) (oldThreshold : ℤ)
    (oldSubset : List PeerID) : Prop where
  threshold : oldThreshold = key.threshold
  nodup : oldSubset.Nodup
  mem_iff : ∀ p, p ∈ oldSubset ↔ p ∈ key.peers.peers ∧ p ∈ peerstore
  enough : key.threshold + 1 ≤ oldSubset.length

/-- A relayer that sorts by an order of the peer IDs. -/
structure OrderedConfig extends Config where
  le : PeerID → PeerID → Prop
  le_antisymm : ∀ p q, le p q → le q p → p = q
  sorted : ∀ l, (sortIDs l).Pairwise le

/-- `slices.Sort` as insertion. -/
def insertionSorting : OrderedConfig where
  toPartyOrder := PartyStore.keyOrder
  host := "a"
  sortIDs := List.insertionSort (· ≤ ·)
  sortIDs_perm := List.perm_insertionSort _
  le := (· ≤ ·)
  le_antisymm _ _ := le_antisymm
  sorted := List.pairwise_insertionSort _

/-- Start params that a share holder accepts can reshare its key exactly if they name the
threshold of the share and the peerstore has enough of its peers. A newcomer accepts start params
without enough distinct members exactly if the threshold lies between their number and the
length of the subset. -/
theorem accepted_can_reshare_iff :
    (∀ key : Share,
      validateStartParams c key.peers.peers peerstore oldThreshold oldSubset = .ok () →
        (CanReshare key peerstore oldThreshold oldSubset ↔ oldThreshold = key.threshold ∧
          key.threshold < key.peers.peers.countP fun p => p ∈ peerstore)) ∧
    ((validateStartParams c [] peerstore oldThreshold oldSubset = .ok () ∧
        ¬ oldThreshold + 1 ≤ oldSubset.dedup.length) ↔
      0 < oldThreshold ∧ oldSubset.dedup.length ≤ oldThreshold ∧
        oldThreshold ≤ oldSubset.length) := by
  refine ⟨?_, ?_⟩
  · intro key h
    have hperm := accepted_perm h
    have hlength : oldSubset.length = key.peers.peers.countP fun p => p ∈ peerstore := by
      rw [hperm.length_eq, List.countP_eq_length_filter]
      rfl
    refine ⟨?_, ?_⟩
    · intro hcan
      have := hcan.enough
      exact ⟨hcan.threshold, by omega⟩
    · rintro ⟨hthreshold, henough⟩
      refine ⟨hthreshold, hperm.nodup_iff.2 (key.peers.nodup.filter _), ?_, by omega⟩
      intro p
      rw [hperm.mem_iff]
      simp [peersIntersection]
  · rw [validateStartParams_eq_ok]
    refine ⟨?_, ?_⟩
    · rintro ⟨⟨hpos, hlength, -⟩, hfew⟩
      exact ⟨hpos, by omega, hlength⟩
    · rintro ⟨hpos, hfew, hlength⟩
      exact ⟨⟨hpos, hlength, by simp⟩, by omega⟩

/-- A share of three peers, any three of which can sign. -/
def shareABC : Share := ⟨2, ⟨["c", "a", "b"], by decide⟩, by decide⟩

theorem accepted_can_reshare_all :
    validateStartParams insertionSorting.toConfig shareABC.peers.peers ["d", "b", "c", "a"] 2
        ["b", "a", "c"] = .ok () ∧
      CanReshare shareABC ["d", "b", "c", "a"] 2 ["b", "a", "c"] := by
  have haccepted : validateStartParams insertionSorting.toConfig shareABC.peers.peers
      ["d", "b", "c", "a"] 2 ["b", "a", "c"] = .ok () := rfl
  exact ⟨haccepted, (accepted_can_reshare_iff.1 shareABC haccepted).2 (by decide)⟩

/-- A threshold that is not that of the share, a subset as large as the threshold, and a subset
that lists one member twice. -/
theorem accepted_cannot_reshare :
    (validateStartParams insertionSorting.toConfig shareABC.peers.peers ["a", "b", "c"] 1
        ["a", "b", "c"] = .ok () ∧ ¬ CanReshare shareABC ["a", "b", "c"] 1 ["a", "b", "c"]) ∧
      (validateStartParams insertionSorting.toConfig shareABC.peers.peers ["a", "b"] 2
        ["a", "b"] = .ok () ∧ ¬ CanReshare shareABC ["a", "b"] 2 ["a", "b"]) ∧
      validateStartParams insertionSorting.toConfig [] ["a", "b"] 2 ["a", "a"] = .ok () ∧
        ¬ 2 + 1 ≤ (["a", "a"] : List PeerID).dedup.length := by
  refine ⟨⟨rfl, fun h => ?_⟩, ⟨rfl, fun h => ?_⟩, rfl, by decide⟩
  · exact absurd h.threshold (by decide)
  · exact absurd h.enough (by decide)

/-- Sorting and intersecting may be done in either order. -/
theorem OrderedConfig.sortIDs_peersIntersection (c : OrderedConfig)
    {keyPeers keyPeers' peerstore peerstore' : List PeerID} (hpeers : keyPeers'.Perm keyPeers)
    (hstore : ∀ p, p ∈ peerstore' ↔ p ∈ peerstore) :
    c.sortIDs (peersIntersection keyPeers peerstore) =
      peersIntersection (c.sortIDs keyPeers') peerstore' := by
  have hfilter : peersIntersection (c.sortIDs keyPeers') peerstore' =
      peersIntersection (c.sortIDs keyPeers') peerstore := by
    unfold peersIntersection
    simp only [hstore]
  rw [hfilter]
  apply List.Perm.eq_of_pairwise (fun p q _ _ => c.le_antisymm p q) (c.sorted _)
    ((c.sorted keyPeers').filter _)
  have hsorted : (c.sortIDs keyPeers').Perm keyPeers := (c.sortIDs_perm keyPeers').trans hpeers
  exact (c.sortIDs_perm _).trans (hsorted.filter _).symm

section Honest

variable {Bytes : Type} {call : AllReady.Call Bytes} {unmarshal : Bytes → ℤ × List PeerID}

/-- What `StartParams` of an old member produces passes `validateStartParams` of any other. -/
theorem honest_params_accepted (c : OrderedConfig)
    (hlossless : ∀ threshold subset,
      unmarshal (call.marshalStartParams threshold subset) = (threshold, subset))
    {key key' : Share}
    (hcall : call.process = .ecdsaResharing key.threshold key.peers.peers)
    (hpeers : key'.peers.peers.Perm key.peers.peers) (hpos : 1 ≤ key.threshold)
    {peerstore peerstore' : PeerSet}
    (hstore : peerstore'.peers.Perm peerstore.peers)
    (henough : key.threshold ≤ key.peers.peers.countP fun p => p ∈ peerstore.peers) :
    let params := unmarshal (AllReady.startParams call peerstore.peers)
    validateStartParams c.toConfig key'.peers.peers peerstore'.peers params.1 params.2 =
      .ok () := by
  have hparams : unmarshal (AllReady.startParams call peerstore.peers) =
      (key.threshold, peersIntersection key.peers.peers peerstore.peers) := by
    unfold AllReady.startParams
    rw [hcall]
    exact hlossless _ _
  rw [hparams]
  refine validateStartParams_eq_ok.2 ⟨by omega, ?_, fun _ => ?_⟩
  · rw [List.countP_eq_length_filter] at henough
    exact henough
  · exact c.sortIDs_peersIntersection hpeers fun p => hstore.mem_iff

end Honest

/-- The start params are their own encoding. -/
def resharingCall (key : Share) : AllReady.Call (ℤ × List PeerID) :=
  ⟨.ecdsaResharing key.threshold key.peers.peers, "a", [], 1, Prod.mk, (0, [])⟩

/-- The members list the peers of the share and of the peerstore in two orders. -/
theorem honest_params_accepted_two_orders :
    validateStartParams insertionSorting.toConfig ["b", "c", "a"] ["a", "c", "d"] 2
      (peersIntersection ["c", "a", "b"] ["d", "c", "a"]) = .ok () := by
  have haccepted := @honest_params_accepted _ (resharingCall shareABC) id insertionSorting
    (fun _ _ => rfl) shareABC ⟨2, ⟨["b", "c", "a"], by decide⟩, by decide⟩ rfl (by decide)
    (by decide) ⟨["d", "c", "a"], by decide⟩ ⟨["a", "c", "d"], by decide⟩ (by decide) (by decide)
  exact haccepted

end Sygma.TssPeers
