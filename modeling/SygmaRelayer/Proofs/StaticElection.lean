import SygmaRelayer.Spec.Election

/-! The static elector. Where the hashes tell the peers of a session apart, there is one
sorted list of them, whatever order they are listed in and however the sort treats ties;
so every relayer elects the same coordinator. -/

namespace Sygma.PeerOrder

variable {o : PeerOrder} {peers peers' sorted sorted' : List PeerID}

/-- Higher hashes come first. -/
def rank (o : PeerOrder) (p : PeerID) : ℕᵒᵈ := OrderDual.toDual (o.hash p)

theorem less_iff_rank (p q : PeerID) : o.less p q = true ↔ o.rank p < o.rank q := by
  simp [less, rank, OrderDual.toDual_lt_toDual]

theorem Distinct.rank (hd : o.Distinct peers) :
    ∀ p ∈ peers, ∀ q ∈ peers, o.rank p = o.rank q → p = q := by
  intro p hp q hq h
  exact hd p hp q hq (OrderDual.toDual.injective h)

theorem sortPeersForSession_unique (hd : o.Distinct peers) (hperm : peers'.Perm peers)
    (hs : o.SortPeersForSession peers sorted) (hs' : o.SortPeersForSession peers' sorted') :
    sorted' = sorted :=
  Sorting.SortsTo.unique hs hs' less_iff_rank hperm hd.rank

theorem sortPeersForSession_perm (hperm : peers'.Perm peers)
    (hs : o.SortPeersForSession peers sorted) : o.SortPeersForSession peers' sorted :=
  ⟨hs.perm.trans hperm.symm, hs.sorted⟩

theorem sortPeersForSession_strict (hd : o.Distinct peers) (hnodup : peers.Nodup)
    (hs : o.SortPeersForSession peers sorted) :
    sorted.Pairwise fun p q => o.hash q < o.hash p := by
  have hkey : Sorting.ByKey o.rank sorted := hs.byKey less_iff_rank
  refine (hkey.strict (hs.perm.nodup_iff.2 hnodup) ?_).imp fun h => OrderDual.toDual_lt_toDual.1 h
  intro p hp q hq
  exact hd.rank p (hs.perm.subset hp) q (hs.perm.subset hq)

/-- Where the sorted list is unique, so is the result of the elector. -/
theorem staticCoordinator_iff (huniq : ∀ l, o.SortPeersForSession peers l ↔ l = sorted)
    (c : PeerID) : o.StaticCoordinator peers c ↔ c = coordinator sorted := by
  constructor
  · rintro ⟨l, l', hl, hl', rfl⟩
    obtain rfl := (huniq l).1 hl
    obtain rfl := (huniq l').1 hl'
    split_ifs with hlen
    · simp [coordinator, List.eq_nil_of_length_eq_zero hlen]
    · rfl
  · rintro rfl
    refine ⟨sorted, sorted, (huniq sorted).2 rfl, (huniq sorted).2 rfl, ?_⟩
    split_ifs with hlen
    · simp [coordinator, List.eq_nil_of_length_eq_zero hlen]
    · rfl

theorem coordinator_mem (hs : o.SortPeersForSession peers sorted) (hne : peers ≠ []) :
    coordinator sorted ∈ peers := by
  cases sorted with
  | nil => exact absurd hs.perm.symm.eq_nil hne
  | cons c t => exact hs.perm.subset List.mem_cons_self

/-- The sorted list and the coordinator of a set of peers, for every order they are listed in. -/
theorem static_election (hnodup : peers.Nodup) (hd : o.Distinct peers) :
    ∃ sorted c, sorted.Perm peers ∧ (sorted.Pairwise fun p q => o.hash q < o.hash p) ∧
      (∀ peers', peers'.Perm peers →
        (∀ l, o.SortPeersForSession peers' l ↔ l = sorted) ∧
        (∀ c', o.StaticCoordinator peers' c' ↔ c' = c)) ∧
      (peers ≠ [] → c ∈ peers) ∧ (peers = [] → c = "") ∧
      ("" ∉ peers → (c = "" ↔ peers = [])) := by
  obtain ⟨sorted, hs⟩ : ∃ sorted, o.SortPeersForSession peers sorted :=
    Sorting.exists_sortsTo less_iff_rank peers
  have huniq : ∀ peers', peers'.Perm peers →
      ∀ l, o.SortPeersForSession peers' l ↔ l = sorted := by
    intro peers' hperm l
    refine ⟨sortPeersForSession_unique hd hperm hs, ?_⟩
    rintro rfl
    exact sortPeersForSession_perm hperm hs
  have hempty : peers = [] → coordinator sorted = "" := by
    rintro rfl
    simp [coordinator, hs.perm.eq_nil]
  refine ⟨sorted, coordinator sorted, hs.perm, sortPeersForSession_strict hd hnodup hs,
    fun peers' hperm => ⟨huniq peers' hperm, staticCoordinator_iff (huniq peers' hperm)⟩,
    coordinator_mem hs, hempty, fun hnamed => ⟨fun hc => ?_, hempty⟩⟩
  by_contra hne
  exact hnamed (hc ▸ coordinator_mem hs hne)

/-- Every listing of `a`, `b` and `c` is sorted to `c`, `a`, `b`, and `c` is elected. -/
theorem static_election_sample : sampleOrder.Distinct ["a", "b", "c"] ∧
    ∀ peers' : List PeerID, peers'.Perm ["a", "b", "c"] →
      (∀ l, sampleOrder.SortPeersForSession peers' l ↔ l = ["c", "a", "b"]) ∧
      ∀ c', sampleOrder.StaticCoordinator peers' c' ↔ c' = "c" := by
  obtain ⟨sorted, c, -, -, h, -⟩ := @static_election sampleOrder ["a", "b", "c"]
    (by decide) (by decide)
  have hsorted : sorted = ["c", "a", "b"] :=
    (((h _ (List.Perm.refl _)).1 ["c", "a", "b"]).1 (by decide)).symm
  have hc : c = "c" := by
    have := staticCoordinator_iff (h _ (List.Perm.refl _)).1 c
    rw [hsorted] at this
    exact this.1 (((h _ (List.Perm.refl _)).2 c).2 rfl)
  rw [hsorted, hc] at h
  exact ⟨by decide, h⟩

end Sygma.PeerOrder
