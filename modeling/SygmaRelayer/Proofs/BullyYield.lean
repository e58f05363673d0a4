import SygmaRelayer.Proofs.BullySteps

/-! When `elect` yields to an alive message. `listen` passes on the alive messages of the
peers that the host ranks above, not of those that rank above the host, and passes on
nothing while it waits to hand over another message. So `elect` yields to a higher
peer only if an alive message of a lower one waits on `electionChan` already. -/

namespace Sygma.Bully

open Runs

variable {c : Config} {s m m' : State}

/-- The two ways out of the select of `elect`. -/
def Event.EndsElect (e : Event) : Prop := e = .alive ∨ e = .timeout

/-- The messages that reach the elector. -/
def arrivals (es : List Event) : List WrappedMessage :=
  es.filterMap fun
    | .reach msg => some msg
    | _ => none

/-- `listen` has no message to receive or cannot hand over the one it has to an elector that
waits in `elect`. -/
def Listener.Quiet : Listener → List WrappedMessage → Prop
  | .listening, msgChan => msgChan = []
  | .sending _, _ => False
  | .forwarding _, _ | .pinging _, _ | .stopped, _ => True

/-- The goroutines are faster than the timer: `ElectionWaitTime` elapses only when neither `elect`
nor `listen` can go on. -/
def Prompt (s : State) (e : Event) : Prop :=
  e = .timeout → s.electionChan = none ∧ s.listener.Quiet s.msgChan

/-- The alive message of a peer that ranks above the host. -/
def HigherAlive (c : Config) (s : State) (msg : WrappedMessage) : Prop :=
  msg.messageType = .coordinatorAliveMsg ∧ msg.sender ∈ s.sortedPeers ∧
    isPeerIDHigher s.sortedPeers msg.sender c.hostID

/-- If a higher peer's alive message arrives before the call of `elect` that waits in `s` ends, the
call ends without a new coordinator and without a broadcast. -/
def Yields (c : Config) (s : State) : Prop :=
  ∀ es m e m', exec (step c) s es = some m → (∀ e ∈ es, ¬ e.EndsElect) →
    (∃ msg ∈ arrivals es, HigherAlive c s msg) →
    step c m e = some m' → e.EndsElect → Prompt m e →
    m'.coordinator = m.coordinator ∧ m'.broadcasts = m.broadcasts

theorem electionChan_exec {es : List Event} (hs : exec (step c) s es = some m)
    (hes : ∀ e ∈ es, ¬ e.EndsElect) (hw : s.coordination = .waiting) (hchan : s.electionChan ≠ none) :
    m.coordination = .waiting ∧ m.electionChan ≠ none := by
  refine exec_inv (G := fun _ e => ¬ e.EndsElect)
    (I := fun s => s.coordination = .waiting ∧ s.electionChan ≠ none) (fun s e s' hI hG hs => ?_)
    ⟨hw, hchan⟩ (along_of_forall_mem fun e he _ => hes e he) hs
  cases step_cases hs with
  | start hc hsort => simp [hI.1] at hc
  | move hmove => exact ⟨hmove.frame.coordination.trans hI.1, hmove.electionChan hI.2⟩
  | alive hc he => exact absurd (Or.inl rfl) hG
  | timeout hc => exact absurd (Or.inr rfl) hG
  | receive hc hl => simp [hI.1] at hc

theorem yields_of_electionChan (hw : s.coordination = .waiting) (hchan : s.electionChan ≠ none) :
    Yields c s := by
  intro es m e m' hm hes _ hstep hends hprompt
  obtain ⟨-, hchan'⟩ := electionChan_exec hm hes hw hchan
  rcases hends with rfl | rfl
  · cases step_cases hstep with
    | move hmove => cases hmove
    | alive hc he => exact ⟨frame_takeAlive.coordinator, broadcasts_takeAlive⟩
  · exact absurd (hprompt rfl).1 hchan'

/-- The timer elapses on a quiet listener after the message of a higher peer has arrived. -/
theorem not_yields {es : List Event} {msg : WrappedMessage} (hm : exec (step c) s es = some m)
    (hes : ∀ e ∈ es, ¬ e.EndsElect) (hmsg : msg ∈ arrivals es) (hhigher : HigherAlive c s msg)
    (hw : m.coordination = .waiting) (hchan : m.electionChan = none)
    (hquiet : m.listener.Quiet m.msgChan) : ¬ Yields c s := by
  intro hy
  have hstep : step c m .timeout = some (State.broadcast { m with
      coordination := .receiving, coordinator := c.hostID } m.sortedPeers .coordinatorSelectMsg) := by
    simp only [step, if_pos hw, setCoordinator_host]
  have hb := (hy es m .timeout _ hm hes ⟨msg, hmsg, hhigher⟩ hstep (Or.inr rfl)
    fun _ => ⟨hchan, hquiet⟩).2
  simp at hb

/-- A listening elector drops the alive message of the higher peer `p`, and a select message then
keeps it from receiving more. -/
def jam (p : PeerID) : List Event :=
  [.reach ⟨.coordinatorAliveMsg, p⟩, .listen ⟨.coordinatorAliveMsg, p⟩,
    .reach ⟨.coordinatorSelectMsg, p⟩, .listen ⟨.coordinatorSelectMsg, p⟩]

theorem exec_jam {p : PeerID} (hl : s.listener = .listening)
    (hp : isPeerIDHigher s.sortedPeers p c.hostID) :
    ∃ m, exec (step c) s (jam p) = some m ∧ m.coordination = s.coordination ∧
      m.electionChan = s.electionChan ∧ m.listener = .forwarding ⟨.coordinatorSelectMsg, p⟩ := by
  have hdrop : isPeerIDHigher s.sortedPeers c.hostID p = false := by
    simp only [isPeerIDHigher, decide_eq_true_eq, decide_eq_false_iff_not] at hp ⊢
    omega
  simp [jam, exec, step, listen, hl, hdrop]

/-- The call of `elect` that waits in `s` yields to higher peers exactly when the message of a
lower peer is there to be taken, or no peer ranks above the host. -/
theorem yields_iff (hw : s.coordination = .waiting) :
    Yields c s ↔ s.electionChan ≠ none ∨
      ∀ p ∈ s.sortedPeers, ¬ isPeerIDHigher s.sortedPeers p c.hostID := by
  constructor
  · intro hy
    by_contra hno
    push Not at hno
    obtain ⟨hchan, p, hmem, hp⟩ := hno
    have hhigher : HigherAlive c s ⟨.coordinatorAliveMsg, p⟩ := ⟨rfl, hmem, hp⟩
    have harrives : ⟨.coordinatorAliveMsg, p⟩ ∈ arrivals (jam p) := by simp [arrivals, jam]
    cases hl : s.listener with
    | listening =>
      obtain ⟨m, hm, hmw, hmc, hml⟩ := exec_jam (c := c) hl hp
      refine not_yields hm ?_ harrives hhigher (hmw.trans hw) (hmc.trans hchan) ?_ hy
      · simp [jam, Event.EndsElect]
      · simp [hml, Listener.Quiet]
    | sending msg =>
      have hgive : step c s .giveUp = some { s with listener := .listening } := by
        simp only [step, hl]
      obtain ⟨m, hm, hmw, hmc, hml⟩ := exec_jam (c := c) (s := { s with listener := .listening })
        rfl hp
      refine not_yields (exec_cons.2 ⟨_, hgive, hm⟩) ?_ harrives hhigher (hmw.trans hw)
        (hmc.trans hchan) ?_ hy
      · simp [jam, Event.EndsElect]
      · simp [hml, Listener.Quiet]
    | forwarding msg | pinging msg | stopped =>
      have hm : exec (step c) s [.reach ⟨.coordinatorAliveMsg, p⟩] = some { s with
        msgChan := s.msgChan ++ [⟨.coordinatorAliveMsg, p⟩] } := rfl
      refine not_yields hm ?_ List.mem_cons_self hhigher hw hchan ?_ hy
      · simp [Event.EndsElect]
      · simp [hl, Listener.Quiet]
  · rintro (hchan | hnone)
    · exact yields_of_electionChan hw hchan
    · rintro es m e m' - - ⟨msg, -, -, hmem, hp⟩
      exact absurd hp (hnone _ hmem)

/-- The host `a` ranks between `c` and `b`. -/
def threePeers : Config where
  order := sampleOrder
  hostID := "a"
  peers := ["a", "b", "c"]

theorem yields_after_lower_alive :
    ∃ s, exec (step threePeers) (init threePeers) [.start ["c", "a", "b"],
        .reach ⟨.coordinatorAliveMsg, "b"⟩, .listen ⟨.coordinatorAliveMsg, "b"⟩] = some s ∧
      isPeerIDHigher s.sortedPeers "c" threePeers.hostID ∧ Yields threePeers s :=
  ⟨_, rfl, by decide, (yields_iff rfl).2 (Or.inl (by decide))⟩

/-- The alive message of the higher peer is dropped, or waits behind an election message that
`startBullyCoordination` does not receive while it is in `elect`; the host selects itself. -/
theorem selects_despite_alive :
    (∃ s s', exec (step threePeers) (init threePeers) [.start ["c", "a", "b"],
        .reach ⟨.coordinatorAliveMsg, "c"⟩, .listen ⟨.coordinatorAliveMsg, "c"⟩] = some s ∧
      HigherAlive threePeers s ⟨.coordinatorAliveMsg, "c"⟩ ∧ Prompt s .timeout ∧
      step threePeers s .timeout = some s' ∧ s'.coordinator = "a" ∧
      ⟨["c", "a", "b"], .coordinatorSelectMsg⟩ ∈ s'.broadcasts) ∧
    ∃ s s', exec (step threePeers) (init threePeers) [.start ["c", "a", "b"],
        .reach ⟨.coordinatorElectionMsg, "b"⟩, .listen ⟨.coordinatorElectionMsg, "b"⟩,
        .reach ⟨.coordinatorAliveMsg, "c"⟩] = some s ∧
      HigherAlive threePeers s ⟨.coordinatorAliveMsg, "c"⟩ ∧ Prompt s .timeout ∧
      step threePeers s .timeout = some s' ∧ s'.coordinator = "a" ∧
      ⟨["c", "a", "b"], .coordinatorSelectMsg⟩ ∈ s'.broadcasts :=
  ⟨⟨_, _, rfl, ⟨rfl, by decide, by decide⟩, fun _ => ⟨rfl, rfl⟩, rfl, rfl, by decide⟩,
    _, _, rfl, ⟨rfl, by decide, by decide⟩, fun _ => ⟨rfl, trivial⟩, rfl, rfl, by decide⟩

end Sygma.Bully
