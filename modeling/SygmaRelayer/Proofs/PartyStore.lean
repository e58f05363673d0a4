import Mathlib.Data.List.Induction
import Mathlib.Data.List.Sort
import SygmaRelayer.Lib.Bytes
import SygmaRelayer.Spec.PartyStore

/-! The party store of a signing process is never cleared. After a call of `Run` it has the
parties of that call's subset, and those of earlier subsets that have left it. -/

namespace Sygma.PartyStore

variable {order : PartyOrder} {host : PeerID} {store : PeerID → Option PartyID} {parties : List PartyID} {p : PeerID}

theorem populate_of_notMem (h : ∀ party ∈ parties, party.id ≠ p) :
    populatePartyStore store parties p = store p := by
  induction parties generalizing store with
  | nil => rfl
  | cons party rest ih =>
    obtain ⟨hparty, hrest⟩ := List.forall_mem_cons.1 h
    rw [populatePartyStore, List.foldl_cons]
    exact (ih hrest).trans (Function.update_of_ne hparty.symm _ _)

theorem populate_of_mem (h : ∃ party ∈ parties, party.id = p) :
    ∃ party ∈ parties, party.id = p ∧ populatePartyStore store parties p = some party := by
  induction parties generalizing store with
  | nil => simp at h
  | cons party rest ih =>
    by_cases hrest : ∃ party ∈ rest, party.id = p
    · obtain ⟨party', hmem, hid, hstore⟩ := ih hrest
      exact ⟨party', List.mem_cons_of_mem party hmem, hid, hstore⟩
    · have hid : party.id = p := by simpa [hrest] using h
      refine ⟨party, List.mem_cons_self, hid, ?_⟩
      have hnone : ∀ party' ∈ rest, party'.id ≠ p := fun party' hmem heq => hrest ⟨party', hmem, heq⟩
      rw [populatePartyStore, List.foldl_cons]
      exact (populate_of_notMem hnone).trans (by rw [← hid, Function.update_self])

theorem mem_partiesFromPeers {subset : List PeerID} {party : PartyID} :
    party ∈ partiesFromPeers order subset ↔ (order.sortPartyIDs subset)[party.index]? = some party.id := by
  obtain ⟨id, index⟩ := party
  simp [partiesFromPeers, List.mem_zipIdx_iff_getElem?]

theorem exists_party_iff {subset : List PeerID} :
    (∃ party ∈ partiesFromPeers order subset, party.id = p) ↔ p ∈ subset := by
  rw [← (order.sortPartyIDs_perm subset).mem_iff, List.mem_iff_getElem?]
  constructor
  · rintro ⟨party, hmem, rfl⟩
    exact ⟨party.index, mem_partiesFromPeers.1 hmem⟩
  · rintro ⟨i, hi⟩
    exact ⟨⟨p, i⟩, mem_partiesFromPeers.2 hi, rfl⟩

theorem populate_isSome_iff {subset : List PeerID} :
    (populatePartyStore store (partiesFromPeers order subset) p).isSome ↔
      p ∈ subset ∨ (store p).isSome := by
  by_cases hp : p ∈ subset
  · obtain ⟨party, -, -, hstore⟩ := @populate_of_mem store (partiesFromPeers order subset) _
      (exists_party_iff.2 hp)
    simp [hstore, hp]
  · have hnone : ∀ party ∈ partiesFromPeers order subset, party.id ≠ p :=
      fun party hmem hid => hp (exists_party_iff.1 ⟨party, hmem, hid⟩)
    simp [populate_of_notMem hnone, hp]

/-- The subsets that were stored. -/
def storedSubsets (host : PeerID) (params : List (Option (List PeerID))) : List (List PeerID) :=
  params.filterMap fun
    | some subset => if host ∈ subset then some subset else none
    | none => none

/-- The store has an entry for every peer of every subset that was ever stored. -/
theorem runs_isSome_iff (keyPeers : List PeerID) (params : List (Option (List PeerID))) :
    ((runs order host (newSigning keyPeers) params).partyStore p).isSome ↔
      ∃ subset ∈ storedSubsets host params, p ∈ subset := by
  induction params using List.reverseRecOn with
  | nil => simp [runs, newSigning, storedSubsets]
  | append_singleton params last ih =>
    have hruns : runs order host (newSigning keyPeers) (params ++ [last]) =
        (run order host (runs order host (newSigning keyPeers) params) last).1 := by
      simp [runs]
    have hstored : storedSubsets host (params ++ [last]) =
        storedSubsets host params ++ storedSubsets host [last] := by
      simp [storedSubsets]
    rw [hruns, hstored]
    cases last with
    | none => simpa [run, storedSubsets] using ih
    | some subset =>
      by_cases hhost : host ∈ subset
      · have hlast : storedSubsets host [some subset] = [subset] := by simp [storedSubsets, hhost]
        rw [run, if_pos hhost, populate_isSome_iff, ih, hlast]
        simp only [List.mem_append, List.mem_singleton, or_and_right, exists_or, exists_eq_left]
        exact or_comm
      · have hlast : storedSubsets host [some subset] = [] := by simp [storedSubsets, hhost]
        rw [run, if_neg hhost, ih, hlast, List.append_nil]

/-- The store has the parties of the subset and no others. -/
structure Exact (order : PartyOrder) (s : Signing) (subset : List PeerID) : Prop where
  entries : ∀ p, (s.partyStore p).isSome ↔ p ∈ subset
  index : ∀ p party, s.partyStore p = some party →
    party.id = p ∧ (order.sortPartyIDs subset)[party.index]? = some p

theorem Exact.attributed_eq_none {s : Signing} {subset : List PeerID} (h : Exact order s subset)
    (hp : p ∉ subset) : attributed s p = none := by
  rw [← h.entries p] at hp
  simpa [attributed] using hp

/-- After a `Run` the store is exact if and only if no peer of an earlier subset has left. -/
theorem partyStore_exact_iff (keyPeers : List PeerID) (params : List (Option (List PeerID)))
    {subset : List PeerID} (hhost : host ∈ subset) :
    Exact order (run order host (runs order host (newSigning keyPeers) params) (some subset)).1 subset ↔
      ∀ earlier ∈ storedSubsets host params, ∀ p ∈ earlier, p ∈ subset := by
  rw [run, if_pos hhost]
  constructor
  · intro hexact earlier hearlier p hp
    rw [← hexact.entries p, populate_isSome_iff, runs_isSome_iff]
    exact Or.inr ⟨earlier, hearlier, hp⟩
  · intro hsub
    have hentries : ∀ p, (populatePartyStore (runs order host (newSigning keyPeers) params).partyStore
        (partiesFromPeers order subset) p).isSome ↔ p ∈ subset := by
      intro p
      rw [populate_isSome_iff, runs_isSome_iff]
      constructor
      · rintro (hp | ⟨earlier, hearlier, hp⟩)
        · exact hp
        · exact hsub earlier hearlier p hp
      · exact Or.inl
    refine ⟨hentries, fun p party hstore => ?_⟩
    change populatePartyStore _ _ p = some party at hstore
    have hp : p ∈ subset := (hentries p).1 (by rw [hstore]; rfl)
    obtain ⟨party', hmem, rfl, hstore'⟩ := populate_of_mem (exists_party_iff.2 hp)
    obtain rfl : party = party' := Option.some.inj (hstore.symm.trans hstore')
    exact ⟨rfl, mem_partiesFromPeers.1 hmem⟩

/-- The key of a party: the bytes of the peer ID as a number. -/
def partyKey (peerID : PeerID) : ℕ := Bytes.toNat (peerID.toList.flatMap String.utf8EncodeChar)

/-- The parties sorted by their keys. -/
def keyOrder : PartyOrder where
  sortPartyIDs := List.insertionSort fun p q => partyKey p ≤ partyKey q
  sortPartyIDs_perm := List.perm_insertionSort _

/-- A retry after a subset that could not be read, with one more peer than the first attempt. -/
theorem partyStore_exact_iff_larger :
    Exact keyOrder (run keyOrder "a" (runs keyOrder "a" (newSigning ["a", "b", "c"])
      [some ["b", "a"], none]) (some ["c", "a", "b"])).1 ["c", "a", "b"] :=
  (partyStore_exact_iff ["a", "b", "c"] [some ["b", "a"], none] (by decide)).2 (by decide)

/-- The first attempt was made with `b`, the retry is made with `c`. -/
def retried : Signing :=
  (run keyOrder "a" (runs keyOrder "a" (newSigning ["a", "b", "c"]) [some ["a", "b"]])
    (some ["a", "c"])).1

/-- A message of `b` is still attributed to a party, under the number that `c` now has. -/
theorem party_survives :
    attributed retried "b" = some ⟨"b", 1⟩ ∧ attributed retried "c" = some ⟨"c", 1⟩ ∧
      ¬ Exact keyOrder retried ["a", "c"] := by
  refine ⟨by decide, by decide, fun hexact => ?_⟩
  have hnone := hexact.attributed_eq_none (p := "b") (by decide)
  revert hnone
  decide

end Sygma.PartyStore
