import SygmaRelayer.Proofs.WireRoundTrip

/-! Agreement on the signing subset. Every relayer elects the same coordinator from its
key share, takes start messages only from it, and the coordinator broadcasts one start
message; so all relayers that run in their first attempt run with its start params. -/

namespace Sygma.Start

open Runs
open Function (forall_update_iff)

variable {Bytes : Type} [DecidableEq Bytes] {se : Session Bytes}

/-- The static coordinator does not enter `handleError`. -/
def FirstAttempt (se : Session Bytes) (_ : State Bytes) (e : Event Bytes) : Prop :=
  e ≠ .handleError se.coordinator

/-- All calls of `Run` have the start params of the one start message of the coordinator, and those
of relayers outside its subset start no party. -/
structure Agreement (se : Session Bytes) (s : State Bytes) : Prop where
  single : ∀ c ∈ s.calls, ∃ payload, startsFrom s se.coordinator = [payload] ∧
    se.codec.unmarshalStartMessage payload = some c.params
  outside : ∀ c ∈ s.calls, ∃ subset, se.codec.unmarshalPeers c.params = some subset ∧
    (c.relayer ∉ subset → c.result = .subsetError)

/-- The transitions of `step`, one constructor for each branch. -/
inductive Step (se : Session Bytes) (s : State Bytes) : Event Bytes → State Bytes → Prop
  | initiates {r sorted} (hp : s.pc r = .idle)
    (hs : se.order.SortPeersForSession (se.keyPeers r) sorted)
    (hc : PeerOrder.coordinator sorted = r) :
    Step se s (.execute r sorted) (s.setPc r (.initiating [r]))
  | waits {r sorted} (hp : s.pc r = .idle)
    (hs : se.order.SortPeersForSession (se.keyPeers r) sorted)
    (hc : PeerOrder.coordinator sorted ≠ r) :
    Step se s (.execute r sorted) (s.setPc r (.waiting (PeerOrder.coordinator sorted)))
  | starts {r sender sorted rs} (hp : s.pc r = .initiating rs)
    (hsorted : sorted ⊆ se.keyPeers r) :
    Step se s (.ready r sender sorted) (broadcastStart se s r sorted)
  | collects {r sender sorted rs} (rs') (hp : s.pc r = .initiating rs) :
    Step se s (.ready r sender sorted) (s.setPc r (.initiating rs'))
  | ignores {r e c} (hp : s.pc r = .waiting c) : Step se s e s
  | runs {r c sender payload params} (hp : s.pc r = .waiting c) (hm : (sender, payload) ∈ s.starts)
    (hc : c ≠ "" → sender = c) (hu : se.codec.unmarshalStartMessage payload = some params) :
    Step se s (.start r sender payload) (s.callRun se r params)
  | ends {r e} (hp : (∃ c, s.pc r = .waiting c) ∨ ∃ rs, s.pc r = .initiating rs) :
    Step se s e (s.setPc r .ended)
  | retries {r} (hp : s.pc r = .running ∨ s.pc r = .ended) :
    Step se s (.handleError r) (s.setPc r .retrying)
  | sends {sender payload} (hp : sender ≠ se.coordinator ∨ s.pc sender = .retrying) :
    Step se s (.send sender payload) (s.broadcast sender payload)

omit [DecidableEq Bytes] in
theorem sorted_subset {r : PeerID} {readyPeers sorted : List PeerID}
    (h : se.order.SortPeersForSession (readyParticipants se r readyPeers) sorted) :
    sorted ⊆ se.keyPeers r :=
  fun _ hp => of_decide_eq_true (List.mem_filter.1 (h.perm.subset hp)).2

theorem step_cases {s s' : State Bytes} {e : Event Bytes} (h : step se s e = some s') :
    Step se s e s' := by
  cases e with
  | execute r sorted =>
    simp only [step] at h
    split_ifs at h with hp hc
    · cases h; exact .initiates hp.1 hp.2 hc
    · cases h; exact .waits hp.1 hp.2 hc
  | ready r sender sorted =>
    simp only [step] at h
    split at h
    · split_ifs at h
      all_goals
        first
          | cases h; exact .starts ‹_› (sorted_subset ‹_›)
          | cases h; exact .collects _ ‹_›
    · cases h
  | initiate r sender =>
    simp only [step] at h
    split at h
    · cases h; exact .ignores ‹_›
    · cases h
  | start r sender payload =>
    simp only [step] at h
    split at h
    · rename_i c hp
      split_ifs at h with hm hc
      · cases h; exact .ignores hp
      · split at h
        · cases h; exact .ends (Or.inl ⟨c, hp⟩)
        · cases h
          refine .runs hp hm (fun hne => ?_) ‹_›
          by_contra hs
          exact hc ⟨hne, hs⟩
    · cases h
  | stop r =>
    simp only [step] at h
    split at h
    · rename_i rs hp
      cases h; exact .ends (Or.inr ⟨rs, hp⟩)
    · rename_i c hp
      cases h; exact .ends (Or.inl ⟨c, hp⟩)
    · cases h
  | handleError r =>
    simp only [step] at h
    split at h
    · cases h; exact .retries (Or.inl ‹_›)
    · cases h; exact .retries (Or.inr ‹_›)
    · cases h
  | send sender payload =>
    simp only [step] at h
    split_ifs at h with hp
    cases h
    exact .sends hp

omit [DecidableEq Bytes] in
theorem elects {r : PeerID} {sorted : List PeerID}
    (hs : se.order.SortPeersForSession (se.keyPeers r) sorted) :
    PeerOrder.coordinator sorted = se.coordinator := by
  obtain ⟨sorted₀, hs₀, hc⟩ := se.static
  exact PeerOrder.coordinator_unique se.distinct (se.samePeers r) hs₀ hs hc

structure Inv (se : Session Bytes) (s : State Bytes) : Prop where
  initiator : ∀ r rs, s.pc r = .initiating rs → r = se.coordinator
  waiter : ∀ r c, s.pc r = .waiting c → c = se.coordinator ∧ r ≠ se.coordinator
  noRetry : s.pc se.coordinator ≠ .retrying
  quiet : s.pc se.coordinator ≠ .running → startsFrom s se.coordinator = []
  called : s.pc se.coordinator = .running → s.calls ≠ []
  sent : ∀ c ∈ s.calls, c.result = run se c.relayer c.params ∧
    ∃ sorted payload, sorted ⊆ se.keyPeers se.coordinator ∧
      c.params = startParams se se.coordinator sorted ∧
      se.codec.marshalStartMessage c.params = some payload ∧
      startsFrom s se.coordinator = [payload]

omit [DecidableEq Bytes] in
theorem inv_init : Inv se (init : State Bytes) where
  initiator _ _ h := by cases h
  waiter _ _ h := by cases h
  noRetry := by simp [init]
  quiet _ := rfl
  called h := by cases h
  sent _ h := by cases h

omit [DecidableEq Bytes] in
theorem Inv.agreement {s : State Bytes} (h : Inv se s) : Agreement se s where
  single c hc := by
    obtain ⟨-, sorted, payload, -, -, hm, hs⟩ := h.sent c hc
    exact ⟨payload, hs, se.codec.start_roundtrip c.params payload hm⟩
  outside c hc := by
    obtain ⟨hresult, sorted, payload, hsorted, hparams, -, -⟩ := h.sent c hc
    have hround := se.codec.peers_roundtrip (sorted.take (se.threshold se.coordinator + 1))
      fun p hp => se.decodes p (hsorted (List.mem_of_mem_take hp))
    rw [startParams] at hparams
    rw [← hparams] at hround
    refine ⟨_, hround, fun hout => ?_⟩
    rw [hresult, run, hround]
    exact if_neg hout

section Preservation

variable {s : State Bytes}

omit [DecidableEq Bytes] in
theorem Inv.setPc (h : Inv se s) {r : PeerID} {pc : Pc}
    (hold : r = se.coordinator → s.pc r ≠ .running)
    (hini : ∀ rs, pc = .initiating rs → r = se.coordinator)
    (hwait : ∀ c, pc = .waiting c → c = se.coordinator ∧ r ≠ se.coordinator)
    (hret : pc = .retrying → r ≠ se.coordinator) (hrun : pc ≠ .running) :
    Inv se (s.setPc r pc) := by
  refine ⟨?_, ?_, ?_, fun hq => ?_, fun hq => ?_, h.sent⟩
  · exact (forall_update_iff s.pc fun q v => ∀ rs, v = .initiating rs → q = se.coordinator).2
      ⟨hini, fun q _ => h.initiator q⟩
  · exact (forall_update_iff s.pc fun q v => ∀ c, v = .waiting c →
      c = se.coordinator ∧ q ≠ se.coordinator).2 ⟨hwait, fun q _ => h.waiter q⟩
  · by_cases he : se.coordinator = r
    · subst he
      simpa using fun hp => hret hp rfl
    · simpa [Function.update_of_ne he] using h.noRetry
  · refine h.quiet fun hc => hq ?_
    have he : se.coordinator ≠ r := fun he => hold he.symm (he ▸ hc)
    simpa [Function.update_of_ne he] using hc
  · have he : se.coordinator ≠ r := by
      rintro rfl
      exact hrun (by simpa using hq)
    exact h.called (by simpa [Function.update_of_ne he] using hq)

omit [DecidableEq Bytes] in
theorem Inv.calls_eq_nil (h : Inv se s) (hc : s.pc se.coordinator ≠ .running) : s.calls = [] := by
  refine List.eq_nil_iff_forall_not_mem.2 fun c hmem => ?_
  obtain ⟨-, _, _, -, -, -, hs⟩ := h.sent c hmem
  rw [h.quiet hc] at hs
  cases hs

omit [DecidableEq Bytes] in
/-- A relayer calls `Run` with the params of the coordinator's start message. -/
theorem Inv.callRun (h : Inv se s) {r : PeerID} {params : Bytes} {starts : List (PeerID × Bytes)}
    (hsent : ∃ sorted payload, sorted ⊆ se.keyPeers se.coordinator ∧
      params = startParams se se.coordinator sorted ∧
      se.codec.marshalStartMessage params = some payload ∧
      startsFrom { s with starts := starts } se.coordinator = [payload])
    (hsame : s.calls = [] ∧ r = se.coordinator ∨ starts = s.starts) :
    Inv se (State.callRun se { s with starts := starts } r params) := by
  refine ⟨?_, ?_, ?_, fun hq => ?_, by simp, fun c hc => ?_⟩
  · exact (forall_update_iff s.pc fun q v => ∀ rs, v = .initiating rs → q = se.coordinator).2
      ⟨nofun, fun q _ => h.initiator q⟩
  · exact (forall_update_iff s.pc fun q v => ∀ c, v = .waiting c →
      c = se.coordinator ∧ q ≠ se.coordinator).2 ⟨nofun, fun q _ => h.waiter q⟩
  · by_cases he : se.coordinator = r
    · simp [he]
    · simpa [Function.update_of_ne he] using h.noRetry
  · have he : se.coordinator ≠ r := by
      rintro rfl
      simp at hq
    rcases hsame with ⟨-, hr⟩ | rfl
    · exact absurd hr.symm he
    · exact h.quiet fun hp => hq (by simpa [Function.update_of_ne he] using hp)
  · rcases List.mem_append.1 hc with hc | hc
    · rcases hsame with ⟨hno, -⟩ | rfl
      · simp [hno] at hc
      · exact h.sent c hc
    · obtain rfl := List.mem_singleton.1 hc
      exact ⟨rfl, hsent⟩

omit [DecidableEq Bytes] in
theorem Inv.broadcastStart (h : Inv se s) {rs : List PeerID}
    (hp : s.pc se.coordinator = .initiating rs) {sorted : List PeerID}
    (hsorted : sorted ⊆ se.keyPeers se.coordinator) :
    Inv se (broadcastStart se s se.coordinator sorted) := by
  have hnot : s.pc se.coordinator ≠ .running := by simp [hp]
  have hquiet := h.quiet hnot
  unfold Start.broadcastStart
  dsimp only
  split
  · exact h.setPc (fun _ => hnot) (by simp) (by simp) (by simp) (by simp)
  · rename_i payload hm
    refine h.callRun ⟨sorted, payload, hsorted, rfl, hm, ?_⟩ (Or.inl ⟨h.calls_eq_nil hnot, rfl⟩)
    unfold startsFrom at hquiet ⊢
    rw [List.filter_append, List.map_append, hquiet]
    simp

omit [DecidableEq Bytes] in
theorem Inv.runs (h : Inv se s) {r : PeerID} {payload params : Bytes}
    (hm : (se.coordinator, payload) ∈ s.starts)
    (hu : se.codec.unmarshalStartMessage payload = some params) :
    Inv se (s.callRun se r params) := by
  have hmem : payload ∈ startsFrom s se.coordinator := by
    simpa [startsFrom] using hm
  -- the coordinator has sent it, so it has run
  have hc : s.pc se.coordinator = .running := by
    by_contra hno
    rw [h.quiet hno] at hmem
    cases hmem
  obtain ⟨c, hcall⟩ := List.exists_mem_of_ne_nil _ (h.called hc)
  obtain ⟨-, sorted, payload₀, hsorted, hparams, hpay, hs⟩ := h.sent c hcall
  obtain rfl : payload = payload₀ := by simpa [hs] using hmem
  obtain rfl : c.params = params :=
    Option.some.inj ((se.codec.start_roundtrip _ _ hpay).symm.trans hu)
  exact h.callRun ⟨sorted, payload, hsorted, hparams, hpay, hs⟩ (Or.inr rfl)

end Preservation

theorem inv_step {s s' : State Bytes} {e : Event Bytes} (h : Inv se s) (hG : FirstAttempt se s e)
    (hs : step se s e = some s') : Inv se s' := by
  cases step_cases hs with
  | initiates hp hsort hc =>
    exact h.setPc (fun _ => by simp [hp]) (fun _ _ => hc.symm.trans (elects hsort)) (by simp)
      (by simp) (by simp)
  | waits hp hsort hc =>
    refine h.setPc (fun _ => by simp [hp]) (by simp) ?_ (by simp) (by simp)
    rintro _ ⟨⟩
    exact ⟨elects hsort, fun hr => hc ((elects hsort).trans hr.symm)⟩
  | starts hp hsorted =>
    have hr := h.initiator _ _ hp
    subst hr
    exact h.broadcastStart hp hsorted
  | collects rs' hp =>
    exact h.setPc (fun _ => by simp [hp]) (fun _ _ => h.initiator _ _ hp) (by simp) (by simp) (by simp)
  | ignores hp => exact h
  | runs hp hm hc hu =>
    obtain ⟨hcoord, -⟩ := h.waiter _ _ hp
    have hsender := hc (hcoord ▸ se.named)
    rw [hsender, hcoord] at hm
    exact h.runs hm hu
  | ends hp =>
    refine h.setPc (fun _ => ?_) (by simp) (by simp) (by simp) (by simp)
    rcases hp with ⟨c, hp⟩ | ⟨rs, hp⟩ <;> simp [hp]
  | @retries r hp =>
    have hr : r ≠ se.coordinator := fun hr => hG (hr ▸ rfl)
    exact h.setPc (fun he => absurd he hr) (by simp) (by simp) (fun _ => hr) (by simp)
  | @sends sender payload hp =>
    have hne : sender ≠ se.coordinator := by
      rcases hp with hp | hp
      · exact hp
      · rintro rfl
        exact h.noRetry hp
    have hsame : startsFrom (s.broadcast sender payload) se.coordinator =
        startsFrom s se.coordinator := by
      simp [startsFrom, hne]
    exact ⟨h.initiator, h.waiter, h.noRetry, fun hq => hsame.trans (h.quiet hq), h.called,
      fun c hc => by rw [hsame]; exact h.sent c hc⟩

/-- Relayers that run in their first attempt agree on the start params. -/
theorem first_attempt_agreement {es : List (Event Bytes)} {s : State Bytes}
    (hG : Along (step se) (FirstAttempt se) init es) (h : exec (step se) init es = some s) :
    Agreement se s :=
  (exec_inv (fun _ _ _ => inv_step) inv_init hG h).agreement

/-- Three relayers of which two sign; the first lists the peers in an order of its own. -/
def threeRelayers : Session (Option (List UInt8)) where
  codec := Wire.startCodec decodePeer
  order := peerOrder
  keyPeers r :=
    if r = firstPeer then [secondPeer, firstPeer, thirdPeer] else [firstPeer, secondPeer, thirdPeer]
  threshold _ := 1
  coordinator := secondPeer
  samePeers r p := by
    by_cases hr : r = firstPeer
    · simp [hr, show secondPeer ≠ firstPeer by decide]
      tauto
    · simp [hr, show secondPeer ≠ firstPeer by decide]
  decodes := by
    change ∀ p ∈ _, decodePeer p = some p
    decide
  distinct := by decide +kernel
  static := ⟨[secondPeer, firstPeer, thirdPeer], by decide +kernel, rfl⟩
  named := by decide

/-- The first relayer sends a start message of its own and is left out of the subset. -/
def outsiderRun : List (Event (Option (List UInt8))) :=
  [.execute secondPeer [secondPeer, firstPeer, thirdPeer],
    .execute thirdPeer [secondPeer, firstPeer, thirdPeer],
    .execute firstPeer [secondPeer, firstPeer, thirdPeer],
    .send firstPeer (Wire.startPayload [firstPeer]),
    .start thirdPeer firstPeer (Wire.startPayload [firstPeer]),
    .ready secondPeer thirdPeer [secondPeer, thirdPeer],
    .start firstPeer secondPeer (Wire.startPayload [secondPeer, thirdPeer]), .handleError firstPeer,
    .start thirdPeer secondPeer (Wire.startPayload [secondPeer, thirdPeer])]

theorem first_attempt_agreement_outsider :
    ∃ s, exec (step threeRelayers) init outsiderRun = some s ∧ Agreement threeRelayers s ∧
      s.calls.map (fun c => (c.relayer, c.result)) = [(secondPeer, .party [secondPeer, thirdPeer]),
        (firstPeer, .subsetError), (thirdPeer, .party [secondPeer, thirdPeer])] := by
  have hG : ∀ e ∈ outsiderRun, e ≠ .handleError threeRelayers.coordinator := by decide +kernel
  have hrun : (exec (step threeRelayers) init outsiderRun).map
      (fun s => s.calls.map fun c => (c.relayer, c.result)) =
        some [(secondPeer, .party [secondPeer, thirdPeer]), (firstPeer, .subsetError),
          (thirdPeer, .party [secondPeer, thirdPeer])] := by decide +kernel
  obtain ⟨s, hs, hcalls⟩ := Option.map_eq_some_iff.1 hrun
  exact ⟨s, hs, first_attempt_agreement (along_of_forall_mem fun e he _ => hG e he) hs, hcalls⟩

end Sygma.Start
