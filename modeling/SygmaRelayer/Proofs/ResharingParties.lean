import SygmaRelayer.Proofs.PartyStore
import SygmaRelayer.Proofs.ReshareParams
import SygmaRelayer.Spec.ResharingParties

/-! The new committee of an ECDSA resharing. The array of the new parties is well formed exactly if
the old subset lists peers of the peerstore, each once. A relayer that has a share has compared the
subset with its own peers; a newcomer takes it as it comes. -/

namespace Sygma.Resharing

open PartyStore TssPeers

variable {c : Config} {peers peers' oldPeers oldSubset : List PeerID} {k : ℕ}

section Numbering

/-- The parties of these peers, numbered from `k` on. -/
def numbered (k : ℕ) (peers : List PeerID) : List PartyID :=
  (peers.zipIdx k).map fun p => ⟨p.1, p.2⟩

@[simp] theorem numbered_nil : numbered k [] = [] := rfl

@[simp] theorem numbered_cons {p : PeerID} :
    numbered k (p :: peers) = ⟨p, k⟩ :: numbered (k + 1) peers := rfl

theorem numbered_append :
    numbered k (peers ++ peers') = numbered k peers ++ numbered (k + peers.length) peers' := by
  simp [numbered, List.zipIdx_append]

@[simp] theorem map_id_numbered : (numbered k peers).map PartyID.id = peers := by
  induction peers generalizing k with
  | nil => rfl
  | cons p peers ih => rw [numbered_cons, List.map_cons, ih]

@[simp] theorem length_numbered : (numbered k peers).length = peers.length := by
  simp [numbered]

theorem index_numbered {i : ℕ} {party : PartyID} (h : (numbered k peers)[i]? = some party) :
    party.index = k + i := by
  obtain ⟨p, -, rfl⟩ : ∃ p, peers[i]? = some p ∧ ⟨p, k + i⟩ = party := by simpa [numbered] using h
  rfl

theorem partiesFromPeers_eq {order : PartyOrder} :
    partiesFromPeers order peers = numbered 0 (order.sortPartyIDs peers) := rfl

end Numbering

section Loop

/-- The peers that are not in the old committee. -/
def others (oldPeers peers : List PeerID) : List PeerID := peers.filter fun p => p ∉ oldPeers

theorem others_cons_of_mem {p : PeerID} (h : p ∈ oldPeers) :
    others oldPeers (p :: peers) = others oldPeers peers := by simp [others, h]

theorem others_cons_of_notMem {p : PeerID} (h : p ∉ oldPeers) :
    others oldPeers (p :: peers) = p :: others oldPeers peers := by simp [others, h]

theorem place_of_mem {s : Placing} {party : PartyID} (h : party.id ∈ oldPeers) :
    place oldPeers s party = some s := if_pos h

/-- The loop fills the array behind what has been placed, if there is room for the others. -/
theorem foldlM_place {parties : List PartyID} {front rest : List (Option PartyID)} :
    parties.foldlM (place oldPeers) ⟨front ++ rest, front.length⟩ =
      let new := others oldPeers (parties.map PartyID.id)
      if new.length ≤ rest.length then
        some ⟨front ++ (numbered front.length new).map some ++ rest.drop new.length,
          front.length + new.length⟩
      else none := by
  induction parties generalizing front rest with
  | nil => simp [others]
  | cons party parties ih =>
    rw [List.foldlM_cons, List.map_cons]
    by_cases hold : party.id ∈ oldPeers
    · rw [others_cons_of_mem hold, place_of_mem hold]
      exact ih
    · rw [others_cons_of_notMem hold]
      cases rest with
      | nil => simp [place, hold]
      | cons entry rest =>
        -- the party takes the first free place
        have hplace : place oldPeers ⟨front ++ entry :: rest, front.length⟩ party =
            some ⟨(front ++ [some ⟨party.id, front.length⟩]) ++ rest,
              (front ++ [some (⟨party.id, front.length⟩ : PartyID)]).length⟩ := by
          simp [place, hold]
        rw [hplace, Option.bind_eq_bind, Option.bind_some, ih]
        simp [Nat.add_assoc, Nat.add_comm 1]

theorem foldlM_place_full {parties : List PartyID} {s : Placing}
    (h : s.newParties.length ≤ s.index) :
    parties.foldlM (place oldPeers) s =
      if others oldPeers (parties.map PartyID.id) = [] then some s else none := by
  induction parties with
  | nil => simp [others]
  | cons party parties ih =>
    rw [List.foldlM_cons, List.map_cons]
    by_cases hold : party.id ∈ oldPeers
    · rw [others_cons_of_mem hold, place_of_mem hold]
      exact ih
    · have hfull : ¬ s.index < s.newParties.length := Nat.not_lt.2 h
      rw [others_cons_of_notMem hold, place, if_neg hold, if_neg hfull]
      simp

/-- Where the old committee fits, the others come behind it. -/
theorem sortParties_of_le {parties oldParties : List PartyID}
    (h : oldParties.length ≤ parties.length) :
    sortParties parties oldParties =
      let new := others (oldParties.map PartyID.id) (parties.map PartyID.id)
      if oldParties.length + new.length ≤ parties.length then
        some ((oldParties ++ numbered oldParties.length new).map some ++
          List.replicate (parties.length - (oldParties.length + new.length)) none)
      else none := by
  have hcopy : copyParties parties.length oldParties =
      oldParties.map some ++ List.replicate (parties.length - oldParties.length) none := by
    rw [copyParties, List.take_of_length_le h]
  have hloop := @foldlM_place (oldParties.map PartyID.id) parties (oldParties.map some)
    (List.replicate (parties.length - oldParties.length) none)
  rw [List.length_map, ← hcopy] at hloop
  rw [sortParties, hloop]
  simp only [List.length_replicate, Nat.le_sub_iff_add_le' h, List.drop_replicate]
  split_ifs
  · simp [Nat.sub_sub]
  · rfl

theorem sortParties_of_lt {parties oldParties : List PartyID}
    (h : parties.length < oldParties.length) :
    sortParties parties oldParties =
      if others (oldParties.map PartyID.id) (parties.map PartyID.id) = [] then
        some ((oldParties.take parties.length).map some)
      else none := by
  have hcopy : copyParties parties.length oldParties = (oldParties.take parties.length).map some := by
    simp [copyParties, Nat.sub_eq_zero_of_le h.le]
  rw [sortParties, foldlM_place_full (by simp [hcopy]), hcopy]
  split_ifs <;> rfl

end Loop

theorem append_others_perm (hold : oldPeers.Nodup) (hpeers : peers.Nodup)
    (hsub : ∀ p ∈ oldPeers, p ∈ peers) : (oldPeers ++ others oldPeers peers).Perm peers := by
  have hnodup : (oldPeers ++ others oldPeers peers).Nodup := by
    refine List.nodup_append'.2 ⟨hold, hpeers.filter _, fun p hp hothers => ?_⟩
    simpa [hp] using (List.mem_filter.1 hothers).2
  refine (List.perm_ext_iff_of_nodup hnodup hpeers).2 fun p => ?_
  by_cases hp : p ∈ oldPeers
  · simp [hp, hsub p hp]
  · simp [others, hp]

theorem length_le_of_nodup (hpeers : peers.Nodup) :
    peers.length ≤ oldPeers.length + (others oldPeers peers).length := by
  have hcommon : (peers.filter fun p => p ∈ oldPeers).length ≤ oldPeers.length := by
    refine ((hpeers.filter _).subperm fun p hp => ?_).length_le
    simpa using (List.mem_filter.1 hp).2
  have hsplit := List.length_eq_length_filter_add (l := peers) fun p => p ∈ oldPeers
  simp only [← decide_not] at hsplit
  rw [hsplit]
  exact Nat.add_le_add_right hcommon _

theorem map_id_sortParties {parties oldParties : List PartyID}
    (hnodup : (parties.map PartyID.id).Nodup) :
    (sortParties parties oldParties).map (List.map (Option.map PartyID.id)) =
      (TssPeers.sortParties (parties.map PartyID.id) (oldParties.map PartyID.id)).map
        (List.map some) := by
  have hnil := @length_le_of_nodup _ (oldParties.map PartyID.id) hnodup
  rw [List.length_map, List.length_map] at hnil
  have hclosed : TssPeers.sortParties (parties.map PartyID.id) (oldParties.map PartyID.id) =
      let new := others (oldParties.map PartyID.id) (parties.map PartyID.id)
      if new ≠ [] ∧ parties.length < oldParties.length + new.length then none
      else some ((oldParties.map PartyID.id).take parties.length ++ new) := by
    simp only [TssPeers.sortParties, others, List.length_map]
    congr
  rcases Nat.lt_or_ge parties.length oldParties.length with hlt | hle
  · rw [hclosed, sortParties_of_lt hlt]
    by_cases hnew : others (oldParties.map PartyID.id) (parties.map PartyID.id) = []
    · simp [hnew, List.map_take]
    · simp [hnew, Nat.lt_add_right _ hlt]
  · rw [hclosed, sortParties_of_le hle]
    by_cases hfits : oldParties.length +
        (others (oldParties.map PartyID.id) (parties.map PartyID.id)).length ≤ parties.length
    · have htake : (oldParties.map PartyID.id).take parties.length = oldParties.map PartyID.id :=
        List.take_of_length_le (by simpa using hle)
      have hmap : ∀ l : List PartyID,
          (l.map some).map (Option.map PartyID.id) = (l.map PartyID.id).map some := by simp
      simp [hfits, Nat.not_lt.2 hfits, Nat.sub_eq_zero_of_le hnil, htake, -List.map_map, hmap]
    · have hnew : others (oldParties.map PartyID.id) (parties.map PartyID.id) ≠ [] := by
        intro hnew
        simp [hnew, hle] at hfits
      simp [hfits, Nat.not_le.1 hfits, hnew]

/-- What `sortParties` should return: the peers of the peerstore, each once, the old parties first,
and every party at its index. -/
def WellFormed (peerstore : List PeerID) (oldParties : List PartyID)
    (newParties : Option (List (Option PartyID))) : Prop :=
  ∃ parties : List PartyID, newParties = some (parties.map some) ∧
    (parties.map PartyID.id).Perm peerstore ∧ oldParties <+: parties ∧
    ∀ (i : ℕ) (party : PartyID), parties[i]? = some party → party.index = i

theorem wellFormed_congr {oldParties : List PartyID} {newParties : Option (List (Option PartyID))}
    (h : peers.Perm peers') :
    WellFormed peers oldParties newParties ↔ WellFormed peers' oldParties newParties := by
  simp only [WellFormed, h.congr_right]

/-- The new parties are well formed iff the old peers are peers of the peerstore, each once. -/
theorem sortParties_wellFormed_iff (hpeers : peers.Nodup) :
    WellFormed peers (numbered 0 oldPeers) (sortParties (numbered 0 peers) (numbered 0 oldPeers)) ↔
      oldPeers.Nodup ∧ ∀ p ∈ oldPeers, p ∈ peers := by
  refine ⟨?_, ?_⟩
  · rintro ⟨parties, -, hperm, hold, -⟩
    have hold' : oldPeers <+: parties.map PartyID.id := by
      simpa using hold.map PartyID.id
    refine ⟨(hperm.nodup_iff.2 hpeers).sublist hold'.sublist, fun p hp => ?_⟩
    exact hperm.subset (hold'.subset hp)
  · rintro ⟨hold, hsub⟩
    have hperm := append_others_perm hold hpeers hsub
    have hlength := hperm.length_eq
    rw [List.length_append] at hlength
    refine ⟨numbered 0 (oldPeers ++ others oldPeers peers), ?_, by simpa using hperm, ?_, ?_⟩
    · rw [sortParties_of_le (by simp; omega)]
      simp [hlength, numbered_append]
    · rw [numbered_append]
      exact List.prefix_append _ _
    · intro i party h
      simpa using index_numbered h

theorem newParties_iff {peerstore : PeerSet} :
    WellFormed peerstore.peers (oldParties c oldSubset) (newParties c oldSubset peerstore.peers) ↔
      oldSubset.Nodup ∧ ∀ p ∈ oldSubset, p ∈ peerstore.peers := by
  have hstore := c.sortPartyIDs_perm peerstore.peers
  have hold := (c.sortPartyIDs_perm (c.sortIDs oldSubset)).trans (c.sortIDs_perm oldSubset)
  have hiff := @sortParties_wellFormed_iff _ (c.sortPartyIDs (c.sortIDs oldSubset))
    (hstore.nodup_iff.2 peerstore.nodup)
  simp only [hold.nodup_iff, hold.mem_iff, hstore.mem_iff, wellFormed_congr hstore] at hiff
  rw [newParties, oldParties, partiesFromPeers_eq, partiesFromPeers_eq]
  exact hiff

/-- Start params that were accepted give a well-formed committee iff they list peers of the
peerstore, each once; a relayer that has a share has made sure of that, unless a peer has left the
peerstore since. -/
theorem accepted_committee_iff {keyPeers : List PeerID} {validated peerstore : PeerSet}
    {oldThreshold : ℤ}
    (h : validateStartParams c keyPeers validated.peers oldThreshold oldSubset = .ok ()) :
    (WellFormed peerstore.peers (oldParties c oldSubset) (newParties c oldSubset peerstore.peers) ↔
      oldSubset.Nodup ∧ ∀ p ∈ oldSubset, p ∈ peerstore.peers) ∧
    (keyPeers ≠ [] → keyPeers.Nodup → WellFormed validated.peers (oldParties c oldSubset)
      (newParties c oldSubset validated.peers)) := by
  refine ⟨newParties_iff, fun hne hnodup => newParties_iff.2 ?_⟩
  have hperm := @accepted_perm c validated.peers oldSubset oldThreshold ⟨0, ⟨keyPeers, hnodup⟩, hne⟩ h
  refine ⟨hperm.nodup_iff.2 (hnodup.filter _), fun p hp => ?_⟩
  simpa using (List.mem_filter.1 (hperm.subset hp)).2

def peersABCD : PeerSet := ⟨["d", "b", "c", "a"], by decide⟩

/-- A relayer with a share of three peers and a peerstore of four. -/
theorem accepted_committee_abc :
    validateStartParams insertionSorting.toConfig ["c", "a", "b"] peersABCD.peers 2
        ["b", "a", "c"] = .ok () ∧
      WellFormed peersABCD.peers (oldParties insertionSorting.toConfig ["b", "a", "c"])
        (newParties insertionSorting.toConfig ["b", "a", "c"] peersABCD.peers) := by
  have haccepted : validateStartParams insertionSorting.toConfig ["c", "a", "b"] peersABCD.peers 2
      ["b", "a", "c"] = .ok () := by rfl
  have hiff := @accepted_committee_iff _ _ _ _ peersABCD _ haccepted
  exact ⟨haccepted, hiff.2 (by decide) (by decide)⟩

/-- A newcomer indexes out of range for a subset with a stranger and for one that lists a peer
twice; and where the subset fills the array, it leaves out a peer of the peerstore. -/
theorem newcomer_committee :
    (validateStartParams insertionSorting.toConfig [] ["a", "b"] 1 ["c"] = .ok () ∧
      newParties insertionSorting.toConfig ["c"] ["a", "b"] = none) ∧
    (validateStartParams insertionSorting.toConfig [] ["a", "b"] 2 ["a", "a"] = .ok () ∧
      newParties insertionSorting.toConfig ["a", "a"] ["a", "b"] = none) ∧
    (validateStartParams insertionSorting.toConfig [] ["b", "c"] 2 ["a", "b", "c"] = .ok () ∧
      newParties insertionSorting.toConfig ["a", "b", "c"] ["b", "c"] =
        some [some ⟨"a", 0⟩, some ⟨"b", 1⟩]) := by
  refine ⟨⟨rfl, ?_⟩, ⟨rfl, ?_⟩, rfl, ?_⟩
  · decide +kernel
  · decide +kernel
  · decide +kernel

end Sygma.Resharing
