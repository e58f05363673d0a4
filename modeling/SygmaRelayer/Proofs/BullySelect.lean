import SygmaRelayer.Proofs.BullySteps

/-! Select messages commute. Between two timeouts of its own election the elector keeps the
higher ranked of its coordinator and the sender of each select message, so it ends with the
highest ranked of them all, in whatever order the messages arrive. -/

namespace Sygma.Bully

open Runs Sorting

variable {c : Config} {s s' : State} {e : Event} {sortedPeers : List PeerID}

theorem loop_of_mem (hnodup : sortedPeers.Nodup) {p : PeerID} (hp : p ∈ sortedPeers) (k i : ℕ) :
    (sortedPeers.zipIdx k).foldl (fun i q => if p = q.1 then q.2 else i) i =
      k + sortedPeers.idxOf p := by
  induction sortedPeers generalizing k i with
  | nil => cases hp
  | cons q l ih =>
    obtain ⟨hq, hl⟩ := List.nodup_cons.1 hnodup
    rw [List.zipIdx_cons, List.foldl_cons]
    by_cases hpq : p = q
    · subst hpq
      rw [if_pos rfl, loop_of_notMem hq, List.idxOf_cons_self, Nat.add_zero]
    · have hpl : p ∈ l := (List.mem_cons.1 hp).resolve_left hpq
      rw [if_neg hpq, ih hl hpl, List.idxOf_cons_ne l (Ne.symm hpq)]
      omega

theorem index_eq_idxOf (hnodup : sortedPeers.Nodup) {p : PeerID} (hp : p ∈ sortedPeers) :
    index sortedPeers p = sortedPeers.idxOf p := by
  rw [index, loop_of_mem hnodup hp, Nat.zero_add]

/-- The sender of the select message that an event hands to `startBullyCoordination`. -/
def selects (s : State) : Event → List PeerID
  | .receive =>
    match s.coordination, s.listener with
    | .receiving, .forwarding msg =>
      if msg.messageType = .coordinatorSelectMsg then [msg.sender] else []
    | _, _ => []
  | _ => []

/-- The senders of the select messages that the events of a run hand over, in their order. -/
def selected (c : Config) (s : State) (es : List Event) : List PeerID :=
  outputs (step c) selects s es

/-- What `setCoordinator` makes of the coordinator on another peer than the host. -/
def higher (sortedPeers : List PeerID) (coordinator p : PeerID) : PeerID :=
  if isPeerIDHigher sortedPeers p coordinator then p else coordinator

/-- The peer that comes first in the sorted list. -/
def HighestRanked (sortedPeers peers : List PeerID) (p : PeerID) : Prop :=
  Least (fun q => sortedPeers.idxOf q) peers p

/-- The coordination runs on these sorted peers. -/
structure Running (sortedPeers : List PeerID) (s : State) : Prop where
  started : s.coordination ≠ .notStarted
  sortedPeers : s.sortedPeers = sortedPeers

theorem receive_coordination (msg : WrappedMessage) (h : s.coordination ≠ .notStarted) :
    (receive c s msg).coordination ≠ .notStarted := by
  unfold receive setCoordinator elect
  split_ifs <;> simp_all

theorem running_step (h : Running sortedPeers s) (hs : step c s e = some s') :
    Running sortedPeers s' := by
  cases step_cases hs with
  | start hc => exact absurd hc h.started
  | move hmove =>
    have hf := hmove.frame
    exact ⟨hf.coordination ▸ h.started, hf.sortedPeers.trans h.sortedPeers⟩
  | alive hc =>
    have hf := @frame_takeAlive { s with coordination := .receiving }
    exact ⟨by simp [hf.coordination], hf.sortedPeers.trans h.sortedPeers⟩
  | timeout => exact ⟨by simp, h.sortedPeers⟩
  | @receive msg hc hl =>
    exact ⟨receive_coordination msg h.started, (receive_sortedPeers msg).trans h.sortedPeers⟩

theorem receive_select {msg : WrappedMessage} (hhost : msg.sender ≠ c.hostID)
    (htype : msg.messageType = .coordinatorSelectMsg) :
    (receive c s msg).coordinator = higher s.sortedPeers s.coordinator msg.sender := by
  simp only [receive, htype, setCoordinator, hhost, or_false, higher, reduceCtorEq, false_and,
    if_false, if_true]
  split_ifs <;> rfl

theorem receive_other {msg : WrappedMessage} (htype : msg.messageType ≠ .coordinatorSelectMsg) :
    (receive c s msg).coordinator = s.coordinator := by
  unfold receive
  rw [if_neg htype]
  split_ifs <;> rfl

theorem step_coordinator (hrunning : Running sortedPeers s) (htimeout : e ≠ .timeout)
    (hhost : ∀ p ∈ selects s e, p ≠ c.hostID) (hs : step c s e = some s') :
    s'.coordinator = (selects s e).foldl (higher sortedPeers) s.coordinator := by
  cases step_cases hs with
  | start hc => exact absurd hc hrunning.started
  | move hmove =>
    have hnone : selects s e = [] := by cases hmove <;> rfl
    rw [hnone, hmove.frame.coordinator]
    rfl
  | alive hc => exact frame_takeAlive.coordinator
  | timeout => exact absurd rfl htimeout
  | @receive msg hc hl =>
    have hselects : selects s .receive =
        if msg.messageType = .coordinatorSelectMsg then [msg.sender] else [] := by
      simp only [selects, hc, hl]
    rw [hselects] at hhost ⊢
    by_cases htype : msg.messageType = .coordinatorSelectMsg
    · rw [if_pos htype] at hhost ⊢
      rw [receive_select (hhost _ List.mem_cons_self) htype, ← hrunning.sortedPeers]
      rfl
    · rw [if_neg htype, receive_other htype]
      rfl

/-- After a run without a timeout no peer of the coordinator and the senders has a lower index
than the coordinator. -/
theorem exec_coordinator {es : List Event} (hrunning : Running sortedPeers s)
    (htimeout : .timeout ∉ es) (hhost : ∀ p ∈ selected c s es, p ≠ c.hostID)
    (hrun : exec (step c) s es = some s') :
    Least (index sortedPeers) (s.coordinator :: selected c s es) s'.coordinator := by
  have hfold : s'.coordinator = (selected c s es).foldl (higher sortedPeers) s.coordinator :=
    exec_foldl (fun _ _ _ => running_step) (fun _ _ _ => step_coordinator) hrunning
      (fun e he heq => htimeout (heq ▸ he)) hhost hrun
  rw [hfold]
  refine least_foldl (fun a b => ?_) _ _
  simp only [higher, isPeerIDHigher, decide_eq_true_eq]

/-- Without a timeout of its own the elector ends with the highest ranked of its coordinator and
the senders of the select messages it received; so electors that received the same messages in
different orders agree. -/
theorem select_commutes {es : List Event} (hnodup : c.peers.Nodup)
    (hsorted : c.order.SortPeersForSession c.peers s.sortedPeers)
    (hstarted : s.coordination ≠ .notStarted) (hcoordinator : s.coordinator ∈ c.peers)
    (htimeout : .timeout ∉ es)
    (hselected : ∀ p ∈ selected c s es, p ∈ c.peers ∧ p ≠ c.hostID)
    (hrun : exec (step c) s es = some s') :
    HighestRanked s.sortedPeers (s.coordinator :: selected c s es) s'.coordinator ∧
      ∀ (c₂ : Config) (s₂ s₂' : State) (es₂ : List Event),
        s₂.sortedPeers = s.sortedPeers → s₂.coordinator = s.coordinator →
        s₂.coordination ≠ .notStarted → .timeout ∉ es₂ →
        (selected c₂ s₂ es₂).Perm (selected c s es) →
        (∀ p ∈ selected c₂ s₂ es₂, p ≠ c₂.hostID) →
        exec (step c₂) s₂ es₂ = some s₂' → s₂'.coordinator = s'.coordinator := by
  have hlisted : ∀ p ∈ s.coordinator :: selected c s es, p ∈ s.sortedPeers := by
    intro p hp
    apply hsorted.perm.mem_iff.2
    rcases List.mem_cons.1 hp with rfl | hp
    · exact hcoordinator
    · exact (hselected p hp).1
  have hnodup' : s.sortedPeers.Nodup := hsorted.perm.nodup_iff.2 hnodup
  have hleast := exec_coordinator ⟨hstarted, rfl⟩ htimeout (fun p hp => (hselected p hp).2) hrun
  have hindex : ∀ p ∈ s.coordinator :: selected c s es,
      index s.sortedPeers p = s.sortedPeers.idxOf p :=
    fun p hp => index_eq_idxOf hnodup' (hlisted p hp)
  refine ⟨⟨hleast.1, fun q hq => ?_⟩, ?_⟩
  · change s.sortedPeers.idxOf _ ≤ s.sortedPeers.idxOf q
    rw [← hindex q hq, ← hindex _ hleast.1]
    exact hleast.2 q hq
  · intro c₂ s₂ s₂' es₂ hsorted₂ hcoordinator₂ hstarted₂ htimeout₂ hperm hhost₂ hrun₂
    have hleast₂ := exec_coordinator ⟨hstarted₂, hsorted₂⟩ htimeout₂ hhost₂ hrun₂
    refine hleast.unique hleast₂ (fun p => ?_) fun p hp q hq heq => ?_
    · rw [hcoordinator₂]
      exact (hperm.cons s.coordinator).mem_iff.symm
    · rw [hindex p hp, hindex q hq] at heq
      exact (List.idxOf_inj (hlisted p hp)).1 heq

/-- The lowest ranked of three peers, which has not yet heard of a coordinator. -/
def lowest : Config where
  order := sampleOrder
  hostID := "b"
  peers := ["a", "b", "c"]

def lowestState : State :=
  { init lowest with sortedPeers := ["c", "a", "b"], coordination := .receiving }

/-- The events with which a select message is received. -/
def receiveSelect (p : PeerID) : List Event :=
  [.reach ⟨.coordinatorSelectMsg, p⟩, .listen ⟨.coordinatorSelectMsg, p⟩, .receive]

/-- `a` and `c` select themselves, and their messages arrive in both orders. -/
theorem select_commutes_lowest :
    ∃ s₁ s₂, exec (step lowest) lowestState (receiveSelect "a" ++ receiveSelect "c") = some s₁ ∧
      exec (step lowest) lowestState (receiveSelect "c" ++ receiveSelect "a") = some s₂ ∧
      HighestRanked ["c", "a", "b"] ["b", "a", "c"] s₁.coordinator ∧
      s₂.coordinator = s₁.coordinator := by
  refine ⟨_, _, rfl, rfl, ?_⟩
  obtain ⟨hhighest, hagree⟩ := @select_commutes lowest lowestState _
    (receiveSelect "a" ++ receiveSelect "c") (by decide) (by decide) (by decide) (by decide)
    (by decide) (by decide) rfl
  exact ⟨hhighest, hagree lowest lowestState _ (receiveSelect "c" ++ receiveSelect "a") rfl rfl
    (by decide) (by decide) (by decide) (by decide) rfl⟩

end Sygma.Bully
