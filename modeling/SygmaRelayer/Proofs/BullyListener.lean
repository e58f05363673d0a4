import SygmaRelayer.Proofs.BullyCandidate
import SygmaRelayer.Proofs.BullySteps
import SygmaRelayer.Proofs.StaticElection

/-! Where the listener of the bully elector waits to send. What it sends on `electionChan`
it gives up after a while, and what it sends on `receiveChan` is received once the call of
`elect` under way has ended. Nothing receives from `pingChan`: one ping response stops
the listener for good. -/

namespace Sygma.Bully

open Runs

variable {c : Config} {s s' : State} {e : Event} {msg : WrappedMessage}

/-- The listener waits to send on a channel. -/
def Listener.Blocked : Listener → Prop
  | .sending _ | .forwarding _ | .pinging _ => True
  | .listening | .stopped => False

/-- The listener waits to send and, whatever happens while the election runs, waits on. -/
def Jammed (c : Config) (s : State) : Prop :=
  s.returned = none ∧ s.listener.Blocked ∧
    ∀ es s', exec (step c) s es = some s' → s'.returned = none → s'.listener = s.listener

/-- A ping response is received only after the election. -/
def NoPingResponse (s : State) : Event → Prop
  | .listen ⟨.coordinatorPingResponseMsg, p⟩ =>
    s.listener = .listening → ⟨.coordinatorPingResponseMsg, p⟩ ∈ s.msgChan → s.returned ≠ none
  | _ => True

/-- What a step does to the listener. -/
inductive ListenerStep (c : Config) (s : State) : Event → Listener → Prop
  | keep {e : Event} : ListenerStep c s e s.listener
  | listen {msg : WrappedMessage} (hl : s.listener = .listening) (hmsg : msg ∈ s.msgChan)
    {s' : State} (hs' : s'.listener = .listening) :
    ListenerStep c s (.listen msg) (listen c s' msg).listener
  | free {e : Event} {msg : WrappedMessage}
    (hl : s.listener = .sending msg ∨ s.listener = .forwarding msg) : ListenerStep c s e .listening
  | stop (hl : s.listener = .listening) : ListenerStep c s .stop .stopped

theorem listener_receive (msg : WrappedMessage) : (receive c s msg).listener = s.listener := by
  unfold receive setCoordinator
  split_ifs <;> rfl

theorem listener_step (hs : step c s e = some s') : ListenerStep c s e s'.listener := by
  cases step_cases hs with
  | start | timeout => exact .keep
  | move hmove =>
    cases hmove with
    | reach | finish => exact .keep
    | listen hl hmsg => exact .listen hl hmsg hl
    | giveUp hl => exact .free (Or.inl hl)
    | stop hl => exact .stop hl
  | alive =>
    unfold takeAlive
    split
    · rename_i hl
      exact .free (Or.inl hl)
    · exact .keep
  | receive _ hl =>
    rw [listener_receive]
    exact .free (Or.inr hl)

theorem returned_listen (msg : WrappedMessage) : (listen c s msg).returned = s.returned := by
  unfold listen
  split
  · split_ifs
    · split <;> rfl
    · rfl
  all_goals rfl

theorem returned_step (hs : step c s e = some s') : s'.returned = s.returned ∨ e = .finish := by
  cases step_cases hs with
  | start | timeout => exact Or.inl rfl
  | move hmove =>
    cases hmove with
    | reach | giveUp | stop => exact Or.inl rfl
    | listen => exact Or.inl (returned_listen _)
    | finish => exact Or.inr rfl
  | alive =>
    unfold takeAlive
    split <;> exact Or.inl rfl
  | receive =>
    unfold receive setCoordinator
    split_ifs <;> exact Or.inl rfl

theorem pinging_listen (hl : s.listener = .listening)
    (hp : ∃ m, (listen c s msg).listener = .pinging m) :
    msg.messageType = .coordinatorPingResponseMsg := by
  obtain ⟨m, hm⟩ := hp
  unfold listen at hm
  split at hm
  · split_ifs at hm
    · split at hm
      · simp [hl] at hm
      · cases hm
    · simp [hl] at hm
  · cases hm
  · cases hm
  · assumption
  · simp [hl] at hm
  · simp [hl] at hm

/-- Nothing takes the listener out of its send on `pingChan`. -/
theorem pinging_step (hl : s.listener = .pinging msg) (hs : step c s e = some s') :
    s'.listener = .pinging msg := by
  have h := listener_step hs
  generalize s'.listener = l at h
  cases h with
  | keep => exact hl
  | listen hl' | stop hl' => simp [hl] at hl'
  | free hl' => simp [hl] at hl'

theorem jammed_of_pinging (hr : s.returned = none) (hl : s.listener = .pinging msg) :
    Jammed c s := by
  refine ⟨hr, by simp [hl, Listener.Blocked], fun es s' hs _ => ?_⟩
  rw [hl]
  exact exec_preserves (fun _ _ _ => pinging_step) hl hs

theorem exists_receive (hl : s.listener = .forwarding msg) :
    ∃ es s', exec (step c) s es = some s' ∧ s'.returned = s.returned ∧
      s'.listener = .listening := by
  -- at `receiveChan`, then in `elect`, then before the coordination
  have hreceiving : ∀ s : State, s.listener = .forwarding msg → s.coordination = .receiving →
      ∃ s', step c s .receive = some s' ∧ s'.returned = s.returned ∧ s'.listener = .listening := by
    intro s hl hc
    have hs : step c s .receive = some (receive c { s with listener := .listening } msg) := by
      simp only [step, hc, hl]
    exact ⟨_, hs, (returned_step hs).resolve_right (by decide), listener_receive msg⟩
  have hwaiting : ∀ s : State, s.listener = .forwarding msg → s.coordination = .waiting →
      ∃ s', exec (step c) s [.timeout, .receive] = some s' ∧ s'.returned = s.returned ∧
        s'.listener = .listening := by
    intro s hl hc
    obtain ⟨s', hs, hr, hl'⟩ := hreceiving (State.broadcast { s with
      coordination := .receiving, coordinator := c.hostID } s.sortedPeers .coordinatorSelectMsg)
      hl rfl
    refine ⟨s', exec_cons.2 ⟨_, ?_, exec_cons.2 ⟨s', hs, rfl⟩⟩, hr, hl'⟩
    simp only [step, if_pos hc, setCoordinator_host]
  cases hc : s.coordination with
  | receiving =>
    obtain ⟨s', hs, h⟩ := hreceiving s hl hc
    exact ⟨[.receive], s', exec_cons.2 ⟨s', hs, rfl⟩, h⟩
  | waiting =>
    obtain ⟨s', hs, h⟩ := hwaiting s hl hc
    exact ⟨_, s', hs, h⟩
  | notStarted =>
    obtain ⟨sorted, hsort⟩ := Sorting.exists_sortsTo c.order.less_iff_rank c.peers
    obtain ⟨s', hs, h⟩ := hwaiting (elect c { s with sortedPeers := sorted }) hl rfl
    refine ⟨.start sorted :: [.timeout, .receive], s', exec_cons.2 ⟨_, ?_, hs⟩, h⟩
    exact if_pos ⟨hc, hsort⟩

/-- Only a ping response jams the listener. -/
theorem jammed_iff : Jammed c s ↔ s.returned = none ∧ ∃ msg, s.listener = .pinging msg := by
  constructor
  · rintro ⟨hr, hb, hjam⟩
    refine ⟨hr, ?_⟩
    cases hl : s.listener with
    | pinging msg => exact ⟨msg, rfl⟩
    | listening | stopped => simp [hl, Listener.Blocked] at hb
    | sending msg =>
      have := hjam [.giveUp] { s with listener := .listening } (by simp [exec, step, hl]) hr
      simp [hl] at this
    | forwarding msg =>
      obtain ⟨es, s', hs, hr', hl'⟩ := exists_receive (c := c) hl
      have := hjam es s' hs (hr'.trans hr)
      simp [hl, hl'] at this
  · rintro ⟨hr, msg, hl⟩
    exact jammed_of_pinging hr hl

theorem not_jammed_step (h : ¬ Jammed c s) (hG : NoPingResponse s e) (hs : step c s e = some s') :
    ¬ Jammed c s' := by
  rw [jammed_iff] at h ⊢
  rintro ⟨hr', m, hl'⟩
  have hr : s.returned = none := by
    rcases returned_step hs with heq | rfl
    · rw [← heq, hr']
    · cases step_cases hs with
      | move hmove =>
        cases hmove with
        | finish _ hr => exact hr
  have hstep := listener_step hs
  rw [hl'] at hstep
  generalize hl : Listener.pinging m = l at hstep
  cases hstep with
  | keep => exact h ⟨hr, m, hl.symm⟩
  | @listen msg hlisten hmsg s₀ hs₀ =>
    have htype := pinging_listen hs₀ ⟨m, hl.symm⟩
    obtain ⟨type, p⟩ := msg
    obtain rfl : type = .coordinatorPingResponseMsg := htype
    exact hG hlisten hmsg hr
  | free | stop => cases hl

theorem noPingResponse_of_not_jammed (hs : step c s e = some s') (hP : ¬ Jammed c s') :
    NoPingResponse s e := by
  cases e with
  | listen msg =>
    obtain ⟨type, p⟩ := msg
    cases type with
    | coordinatorPingResponseMsg =>
      intro hl hmsg hr
      simp only [step, if_pos (And.intro hl hmsg)] at hs
      cases hs
      exact hP (jammed_of_pinging hr rfl)
    | _ => trivial
  | _ => trivial

/-- The listener is never jammed during an election exactly when it receives no ping response. -/
theorem unjammed_throughout_iff (c : Config) (es : List Event) :
    Throughout (step c) (fun s => ¬ Jammed c s) (init c) es ↔
      Along (step c) NoPingResponse (init c) es := by
  refine throughout_iff_along (fun _ h => h) (fun _ _ _ _ => noPingResponse_of_not_jammed)
    (fun _ _ _ => not_jammed_step) (fun s e hnone => ?_) ?_
  · cases e with
    | listen msg =>
      obtain ⟨type, p⟩ := msg
      cases type with
      | coordinatorPingResponseMsg =>
        intro hl hmsg
        simp [step, hl, hmsg] at hnone
      | _ => trivial
    | _ => trivial
  · rw [jammed_iff]
    rintro ⟨-, m, hm⟩
    cases hm

/-- A ping response that nobody asked for stops the listener of `b`; the select message of `a`
that arrives after it is never received. -/
theorem jammed_by_ping_response :
    ∃ s, exec (step twoPeers) (init twoPeers) [.start ["a", "b"],
        .reach ⟨.coordinatorPingResponseMsg, "c"⟩, .listen ⟨.coordinatorPingResponseMsg, "c"⟩,
        .reach ⟨.coordinatorSelectMsg, "a"⟩] = some s ∧ Jammed twoPeers s :=
  ⟨_, rfl, jammed_of_pinging rfl rfl⟩

end Sygma.Bully
