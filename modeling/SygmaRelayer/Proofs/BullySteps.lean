import SygmaRelayer.Spec.Bully

/-! What the steps of the bully elector do to the sorted peers and to the coordinator.
The peers are sorted once; the coordinator becomes the host when an election times out
and the sender of a select message that ranks above it. -/

namespace Sygma.Bully

variable {c : Config} {s s' : State} {e : Event}

theorem loop_of_notMem {sortedPeers : List PeerID} {p : PeerID} (h : p ∉ sortedPeers) (k i : ℕ) :
    (sortedPeers.zipIdx k).foldl (fun i q => if p = q.1 then q.2 else i) i = i := by
  induction sortedPeers generalizing k with
  | nil => rfl
  | cons q l ih =>
    rw [List.mem_cons, not_or] at h
    rw [List.zipIdx_cons, List.foldl_cons, if_neg h.1]
    exact ih h.2 (k + 1)

theorem index_of_notMem {sortedPeers : List PeerID} {p : PeerID} (h : p ∉ sortedPeers) :
    index sortedPeers p = 0 := loop_of_notMem h 0 0

/-- What a step leaves alone that only moves messages. -/
structure Frame (s s' : State) : Prop where
  sortedPeers : s'.sortedPeers = s.sortedPeers
  coordinator : s'.coordinator = s.coordinator
  coordination : s'.coordination = s.coordination

theorem frame_listen (msg : WrappedMessage) : Frame s (listen c s msg) := by
  unfold listen
  split
  · split_ifs
    · split <;> exact ⟨rfl, rfl, rfl⟩
    · exact ⟨rfl, rfl, rfl⟩
  all_goals exact ⟨rfl, rfl, rfl⟩

theorem electionChan_listen (msg : WrappedMessage) (h : s.electionChan ≠ none) :
    (listen c s msg).electionChan ≠ none := by
  unfold listen
  split
  · split_ifs
    · split
      · simp
      · exact h
    · exact h
  all_goals exact h

theorem frame_takeAlive : Frame s (takeAlive s) := by
  unfold takeAlive
  split <;> exact ⟨rfl, rfl, rfl⟩

theorem broadcasts_takeAlive : (takeAlive s).broadcasts = s.broadcasts := by
  unfold takeAlive
  split <;> rfl

theorem setCoordinator_host :
    setCoordinator c s c.hostID = { s with coordinator := c.hostID } := by
  rw [setCoordinator, if_pos (Or.inr rfl)]

theorem receive_sortedPeers (msg : WrappedMessage) :
    (receive c s msg).sortedPeers = s.sortedPeers := by
  unfold receive setCoordinator
  split_ifs <;> rfl

/-- A message makes its sender coordinator only if it is a select message and the sender ranks
above the coordinator. -/
theorem receive_coordinator (msg : WrappedMessage) :
    (receive c s msg).coordinator = s.coordinator ∨ (receive c s msg).coordinator = c.hostID ∨
      msg.messageType = .coordinatorSelectMsg ∧
        isPeerIDHigher s.sortedPeers msg.sender s.coordinator ∧
        (receive c s msg).coordinator = msg.sender := by
  unfold receive setCoordinator
  split_ifs with h1 h2 h3
  · exact Or.inl rfl
  · rcases h3 with h3 | h3
    · exact Or.inr (Or.inr ⟨h2, h3, rfl⟩)
    · exact Or.inr (Or.inl h3)
  · exact Or.inl rfl
  · exact Or.inl rfl

/-- The steps that only move messages, and the end of the election. -/
inductive Move (c : Config) (s : State) : Event → State → Prop
  | reach {msg} : Move c s (.reach msg) { s with msgChan := s.msgChan ++ [msg] }
  | listen {msg} (hl : s.listener = .listening) (hmsg : msg ∈ s.msgChan) :
    Move c s (.listen msg) (listen c { s with msgChan := s.msgChan.erase msg } msg)
  | giveUp {msg} (hl : s.listener = .sending msg) :
    Move c s .giveUp { s with listener := .listening }
  | finish (hc : s.coordination ≠ .notStarted) (hr : s.returned = none) :
    Move c s .finish { s with returned := some s.coordinator }
  | stop (hl : s.listener = .listening) (hr : s.returned ≠ none) :
    Move c s .stop { s with listener := .stopped }

theorem Move.frame (h : Move c s e s') : Frame s s' := by
  cases h with
  | reach | giveUp | finish | stop => exact ⟨rfl, rfl, rfl⟩
  | @listen msg =>
    have hf := frame_listen (c := c) (s := { s with msgChan := s.msgChan.erase msg }) msg
    exact ⟨hf.sortedPeers, hf.coordinator, hf.coordination⟩

theorem Move.electionChan (h : Move c s e s') (hchan : s.electionChan ≠ none) :
    s'.electionChan ≠ none := by
  cases h with
  | reach | giveUp | finish | stop => exact hchan
  | listen => exact electionChan_listen _ hchan

/-- The transitions of `step`. -/
inductive Step (c : Config) (s : State) : Event → State → Prop
  | start {sorted} (hc : s.coordination = .notStarted)
    (hs : c.order.SortPeersForSession c.peers sorted) :
    Step c s (.start sorted) (elect c { s with sortedPeers := sorted })
  | move {e : Event} {s' : State} (h : Move c s e s') : Step c s e s'
  | alive (hc : s.coordination = .waiting) (he : s.electionChan ≠ none) :
    Step c s .alive (takeAlive { s with coordination := .receiving })
  | timeout (hc : s.coordination = .waiting) :
    Step c s .timeout (State.broadcast { s with
      coordination := .receiving, coordinator := c.hostID } s.sortedPeers .coordinatorSelectMsg)
  | receive {msg} (hc : s.coordination = .receiving) (hl : s.listener = .forwarding msg) :
    Step c s .receive (receive c { s with listener := .listening } msg)

theorem step_cases (h : step c s e = some s') : Step c s e s' := by
  cases e with
  | start sorted =>
    simp only [step] at h
    split_ifs at h with hs
    cases h
    exact .start hs.1 hs.2
  | reach msg =>
    cases h
    exact .move .reach
  | listen msg =>
    simp only [step] at h
    split_ifs at h with hl
    cases h
    exact .move (.listen hl.1 hl.2)
  | giveUp =>
    simp only [step] at h
    split at h
    · rename_i hl
      cases h
      exact .move (.giveUp hl)
    · cases h
  | alive =>
    simp only [step] at h
    split_ifs at h with ha
    cases h
    exact .alive ha.1 (Option.isSome_iff_ne_none.1 ha.2)
  | timeout =>
    simp only [step] at h
    split_ifs at h with hc
    cases h
    rw [setCoordinator_host]
    exact .timeout hc
  | receive =>
    simp only [step] at h
    split at h
    · rename_i hc hl
      cases h
      exact .receive hc hl
    · cases h
  | finish =>
    simp only [step] at h
    split_ifs at h with hf
    cases h
    exact .move (.finish hf.1 hf.2)
  | stop =>
    simp only [step] at h
    split_ifs at h with hl
    cases h
    exact .move (.stop hl.1 (Option.isSome_iff_ne_none.1 hl.2))

end Sygma.Bully
