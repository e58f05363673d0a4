import SygmaRelayer.Proofs.BullySteps

/-! The coordinator of the bully elector is a candidate: the host or one of the peers
`Coordinator` was called with. A select message counts by the position of its sender in
the sorted peers, and a sender that is not listed counts as the first one; so an outsider
takes over from every coordinator but the first. -/

namespace Sygma.Bully

open Runs

variable {c : Config} {s s' : State} {e : Event}

def Candidate (c : Config) (s : State) : Prop := s.coordinator = c.hostID ∨ s.coordinator ∈ c.peers

/-- The select message of an outsider is received only while the coordinator is at position 0. -/
def OutranksOutsiders (c : Config) (s : State) : Event → Prop
  | .receive => ∀ p, s.coordination = .receiving →
      s.listener = .forwarding ⟨.coordinatorSelectMsg, p⟩ →
      p = c.hostID ∨ p ∈ c.peers ∨ index s.sortedPeers s.coordinator = 0
  | _ => True

structure Inv (c : Config) (s : State) : Prop where
  candidate : Candidate c s
  /-- once the coordination runs, the sorted peers are those of the call -/
  listed : s.coordination ≠ .notStarted → ∀ p, p ∈ s.sortedPeers ↔ p ∈ c.peers

theorem inv_init : Inv c (init c) where
  candidate := Or.inl rfl
  listed h := absurd rfl h

theorem receive_outsider {p : PeerID} (hp : p ∉ s.sortedPeers) (hhost : p ≠ c.hostID) :
    (receive c s ⟨.coordinatorSelectMsg, p⟩).coordinator =
      if index s.sortedPeers s.coordinator = 0 then s.coordinator else p := by
  simp only [receive, setCoordinator, isPeerIDHigher, index_of_notMem hp, hhost]
  by_cases h : index s.sortedPeers s.coordinator = 0
  · simp [h]
  · simp [h, Nat.pos_of_ne_zero h]

theorem inv_step (h : Inv c s) (hG : OutranksOutsiders c s e) (hs : step c s e = some s') :
    Inv c s' := by
  cases step_cases hs with
  | start hc hsort =>
    exact ⟨h.candidate, fun _ p => hsort.perm.mem_iff⟩
  | move hmove =>
    have hf := hmove.frame
    refine ⟨?_, fun hc p => ?_⟩
    · unfold Candidate
      rw [hf.coordinator]
      exact h.candidate
    · rw [hf.sortedPeers]
      exact h.listed (hf.coordination ▸ hc) p
  | alive hc he =>
    have hf := @frame_takeAlive { s with coordination := .receiving }
    refine ⟨?_, fun _ p => ?_⟩
    · unfold Candidate
      rw [hf.coordinator]
      exact h.candidate
    · rw [hf.sortedPeers]
      exact h.listed (by simp [hc]) p
  | timeout hc => exact ⟨Or.inl rfl, fun _ => h.listed (by simp [hc])⟩
  | @receive msg hc hl =>
    have hlisted := h.listed (by simp [hc])
    refine ⟨?_, fun _ p => ?_⟩
    · unfold Candidate
      rcases receive_coordinator (c := c) (s := { s with listener := .listening }) msg with
        hsame | hhost | ⟨htype, hhigher, hsender⟩
      · rw [hsame]
        exact h.candidate
      · exact Or.inl hhost
      · rw [hsender]
        rcases hG msg.sender hc (by rw [hl, ← htype]) with hp | hp | hzero
        · exact Or.inl hp
        · exact Or.inr hp
        · -- nothing ranks above position 0
          simp [isPeerIDHigher, hzero] at hhigher
    · rw [receive_sortedPeers]
      exact hlisted p

theorem outranks_of_candidate (h : Inv c s) (hs : step c s e = some s') (hcand : Candidate c s') :
    OutranksOutsiders c s e := by
  cases step_cases hs with
  | start | alive | timeout => trivial
  | move hmove => cases hmove <;> trivial
  | @receive msg hc hl =>
    intro p _ hp
    obtain rfl : msg = ⟨.coordinatorSelectMsg, p⟩ := by simpa [hl] using hp
    by_contra hno
    push Not at hno
    obtain ⟨hhost, hpeers, hzero⟩ := hno
    have hlisted := h.listed (by simp [hc]) p
    have hrec := receive_outsider (c := c) (s := { s with listener := .listening })
      (fun hmem => hpeers (hlisted.1 hmem)) hhost
    rw [if_neg hzero] at hrec
    rw [Candidate, hrec] at hcand
    exact hcand.elim hhost hpeers

/-- The coordinator is a candidate throughout a run exactly when outsiders are received only by a
coordinator at position 0. -/
theorem candidate_throughout_iff (c : Config) (es : List Event) :
    Throughout (step c) (Candidate c) (init c) es ↔
      Along (step c) (OutranksOutsiders c) (init c) es := by
  refine throughout_iff_along (fun _ => Inv.candidate)
    (fun _ _ _ h hs hcand => outranks_of_candidate h hs hcand) (fun _ _ _ => inv_step) ?_ inv_init
  intro s e hnone
  cases e with
  | receive =>
    intro p hc hl
    simp [step, hc, hl] at hnone
  | _ => trivial

/-- The host `b` ranks below its peer `a`, and the excluded peer `c` is not listed. -/
def twoPeers : Config where
  order := sampleOrder
  hostID := "b"
  peers := ["b", "a"]

/-- The host has selected itself when a select message of `c` arrives, and `Coordinator` returns
`c`. -/
theorem outsider_selected :
    ∃ s, exec (step twoPeers) (init twoPeers) [.start ["a", "b"], .timeout,
        .reach ⟨.coordinatorSelectMsg, "c"⟩, .listen ⟨.coordinatorSelectMsg, "c"⟩, .receive,
        .finish] = some s ∧
      s.coordinator = "c" ∧ s.returned = some "c" ∧ ¬ Candidate twoPeers s :=
  ⟨_, rfl, rfl, rfl, by unfold Candidate; decide⟩

end Sygma.Bully
