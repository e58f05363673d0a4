import SygmaRelayer.Proofs.EvmBatchOrder
import SygmaRelayer.Proofs.ExecutionSteps

/-! What an `Execute` call of the EVM executor stands for: that it returns no error only if the
bridge contract has reported each of its proposals as executed, and that a session submits every
signature it gets, once. -/

namespace Sygma.EvmExecution

open Evm (TransferProposal Batch Config Bridge proposalBatches outstanding)
open Substrate (SignatureData signatureBytes)
open Fallible
open Runs

theorem joinErrors_succ {go : ℕ → GoPc} {n : ℕ} {errs : List String} :
    joinErrors go (n + 1) = some errs ↔
      ∃ errs' errs'', joinErrors go n = some errs' ∧ (go n).errors = some errs'' ∧
        errs = errs' ++ errs'' := by
  simp only [joinErrors, Option.bind_eq_bind, Option.bind_eq_some_iff, Option.pure_def,
    Option.some.injEq]
  constructor
  · rintro ⟨errs', hbefore, errs'', hlast, rfl⟩
    exact ⟨errs', errs'', hbefore, hlast, rfl⟩
  · rintro ⟨errs', errs'', hbefore, hlast, rfl⟩
    exact ⟨errs', hbefore, errs'', hlast, rfl⟩

theorem errors_of_joinErrors {go : ℕ → GoPc} {n : ℕ} (h : joinErrors go n = some []) :
    ∀ k < n, (go k).errors = some [] := by
  induction n with
  | zero => simp
  | succ n ih =>
    obtain ⟨errs, errs', hbefore, hlast, happend⟩ := joinErrors_succ.1 h
    obtain ⟨rfl, rfl⟩ := List.append_eq_nil_iff.1 happend.symm
    intro k hk
    rcases Nat.lt_succ_iff_lt_or_eq.1 hk with hk | rfl
    · exact ih hbefore k hk
    · exact hlast

section Session

variable {b : Batch} {sessionID : String} {es : List SessionEvent} {x x' : Session}

/-- The tick that ends the loop: all proposals of the batch are executed, and no tick follows. -/
def EndingTick (b : Batch) (es : List SessionEvent) (br : Bridge) : Prop :=
  ∃ pre post, es = pre ++ .tick br :: post ∧ (∀ br', .tick br' ∉ post) ∧
    ∀ p ∈ b.proposals, br p = .ok true

theorem areProposalsExecuted_iff {br : Bridge} {ps : List TransferProposal} :
    areProposalsExecuted br ps = true ↔ ∀ p ∈ ps, br p = .ok true := by
  unfold areProposalsExecuted Substrate.areProposalsExecuted
  rw [List.all_eq_true]
  refine forall₂_congr fun p _ => ?_
  cases br p <;> simp

/-- The loop of `watchExecution` has ended well: it saw all proposals executed, or it was cancelled
because `Coordinator.Execute` failed. -/
def EndedWell (b : Batch) (past : List SessionEvent) (x : Session) : Prop :=
  x.watch = .returned none →
    (∃ br, EndingTick b past br) ∨ ∃ err, x.sign = .returned (some err)

theorem EndingTick.later {past : List SessionEvent} {br : Bridge} {e : SessionEvent}
    (h : EndingTick b past br) (he : ∀ br', e ≠ .tick br') : EndingTick b (past ++ [e]) br := by
  obtain ⟨pre, post, rfl, hpost, hexecuted⟩ := h
  refine ⟨pre, post ++ [e], by simp, fun br' hmem => ?_, hexecuted⟩
  rcases List.mem_append.1 hmem with hmem | hmem
  · exact hpost br' hmem
  · exact he br' (List.mem_singleton.1 hmem).symm

/-- While the signing goroutine runs, what ended the loop is a tick. -/
theorem EndedWell.tick {past : List SessionEvent} (h : EndedWell b past x)
    (hwatch : x.watch = .returned none) (hsign : x.sign = .executing) :
    ∃ br, EndingTick b past br := by
  rcases h hwatch with htick | ⟨err, herr⟩
  · exact htick
  · rw [hsign] at herr
    cases herr

theorem EndedWell.move {past : List SessionEvent} {e : SessionEvent} (h : EndedWell b past x)
    (hmove : Session.Move b x e x') : EndedWell b (past ++ [e]) x' := by
  intro hwatch
  cases hmove with
  | result hsign =>
    obtain ⟨br, hbr⟩ := h.tick hwatch hsign
    exact Or.inl ⟨br, hbr.later (by simp)⟩
  | coordinated hsign =>
    obtain ⟨br, hbr⟩ := h.tick hwatch hsign
    exact Or.inl ⟨br, hbr.later (by simp)⟩
  | receiveNil _ hwatching =>
    rw [hwatching] at hwatch
    cases hwatch
  | receive => cases hwatch
  | rejected => cases hwatch
  | accepted => cases hwatch
  | @executed br _ hexecuted =>
    exact Or.inl ⟨br, past, [], rfl, by simp, areProposalsExecuted_iff.1 hexecuted⟩
  | outstanding hwatching =>
    rw [hwatching] at hwatch
    cases hwatch
  | timeout => cases hwatch
  | @done err hsign _ => exact Or.inr ⟨err, hsign⟩

theorem endedWell_exec (h : exec (Session.step b) (.start sessionID) es = some x) :
    EndedWell b es x := by
  have hended : EndedWell b ([] ++ es) x :=
    exec_history (fun _ _ _ _ h _ hstep => h.move (Session.step_move hstep))
      (fun hwatch => by cases hwatch) along_true h
  rwa [List.nil_append] at hended

theorem seen_of_errors_nil (h : exec (Session.step b) (.start sessionID) es = some x)
    (herrs : x.errors = some []) : ∃ br, EndingTick b es br := by
  unfold Session.errors at herrs
  split at herrs
  next err err' hsign hwatch =>
    obtain ⟨herr, herr'⟩ := List.append_eq_nil_iff.1 (Option.some.inj herrs)
    rw [Option.toList_eq_nil_iff] at herr herr'
    subst herr herr'
    rcases endedWell_exec h hwatch with hbr | ⟨err, herr⟩
    · exact hbr
    · rw [hsign] at herr
      cases herr
  next => cases herrs

end Session

/-- The bridge contract has answered in the call that the proposal is executed: when the batches
were made, or in the tick that ended the loop of its batch. -/
def Reported (events : List Event) (t : ℕ) (ps : List TransferProposal) (p : TransferProposal) :
    Prop :=
  (∃ cfg br, .execute t cfg ps br ∈ events ∧ br p = .ok true) ∨
    ∃ bs k b br, Formed events t ps bs ∧ bs[k]? = some b ∧ p ∈ b.proposals ∧
      EndingTick b (sessionEvents t k events) br

/-- A proposal is reported as executed when the batches are made, or it is in one of them. -/
theorem mem_batch_of_proposalBatches {cfg : Config} {br : Bridge} {ps : List TransferProposal}
    {bs : List Batch} (h : proposalBatches cfg br ps = .ok bs) {p : TransferProposal}
    (hp : p ∈ ps) : br p = .ok true ∨ ∃ b ∈ bs, p ∈ b.proposals := by
  have hanswer : ∃ executed, br p = .ok executed := by
    obtain ⟨acc, hacc, -⟩ := bind_eq_ok.1 h
    refine foldlM_ok (P := fun _ done => ∀ p ∈ done, ∃ executed, br p = .ok executed) (by simp) ?_
      hacc p hp
    intro acc acc' done p' hdone hp' q hq
    rcases List.mem_append.1 hq with hq | hq
    · exact hdone q hq
    · obtain rfl := List.mem_singleton.1 hq
      obtain ⟨executed, hexecuted, -⟩ := bind_eq_ok.1 hp'
      exact ⟨executed, hexecuted⟩
  obtain ⟨executed, hexecuted⟩ := hanswer
  cases executed with
  | true => exact Or.inl hexecuted
  | false =>
    have hout : p ∈ outstanding br ps := List.mem_filter.2 ⟨hp, by simp [hexecuted]⟩
    rw [← Evm.proposalBatches_flatMap h, List.mem_flatMap] at hout
    exact Or.inr hout

/-- An `Execute` call that returns no error has had each of its proposals reported as executed. -/
theorem execute_ok {events : List Event} {s : State} {t : ℕ} {ps : List TransferProposal}
    (h : exec step init events = some s) (hret : s.calls t = .returned ps []) :
    ∀ p ∈ ps, Reported events t ps p := by
  intro p hp
  have hcall := callsOk_exec h t
  rw [hret] at hcall
  rcases hcall with ⟨hne, -⟩ | ⟨bs, hformed, herrs, hgo⟩
  · exact absurd rfl hne
  obtain ⟨cfg, br, hexecute, hbatches⟩ := hformed
  rcases mem_batch_of_proposalBatches hbatches hp with hreported | ⟨b, hb, hpb⟩
  · exact Or.inl ⟨cfg, br, hexecute, hreported⟩
  · obtain ⟨k, hk, hbk⟩ := List.getElem_of_mem hb
    have hbatch : bs[k]? = some b := by rw [List.getElem?_eq_getElem hk, hbk]
    have hnil := errors_of_joinErrors herrs k hk
    have hok := hgo k
    cases hpc : s.go t k with
    | idle =>
      rw [hpc] at hok
      rw [hok.2 hk b hbatch] at hpb
      cases hpb
    | spawned =>
      rw [hpc] at hnil
      cases hnil
    | failed err =>
      rw [hpc] at hnil
      cases hnil
    | session x =>
      rw [hpc] at hok hnil
      obtain ⟨-, b', sessionID, hb', hrun⟩ := hok
      obtain rfl : b = b' := Option.some.inj (hbatch.symm.trans hb')
      obtain ⟨br', htick⟩ := seen_of_errors_nil hrun hnil
      exact Or.inr ⟨bs, k, b, br', ⟨cfg, br, hexecute, hbatches⟩, hbatch, hpb, htick⟩

def executedProposal : TransferProposal := ⟨1, 2, ⟨1, 3, none, []⟩, "1-2-20-24"⟩

def outstandingProposal : TransferProposal := ⟨1, 2, ⟨2, 3, none, []⟩, "1-2-20-24"⟩

def pairProposals : List TransferProposal := [executedProposal, outstandingProposal]

/-- One proposal is executed when the call is made; the other one is signed, submitted and then seen
to be executed. -/
def executePair : List Event :=
  [.execute 0 ⟨100, 10⟩ pairProposals fun p => .ok (p.data.depositNonce = 1), .iterate 0, .launch 0 0,
    .session 0 0 (.result (some ⟨[1], [2], [0]⟩)), .session 0 0 .receive,
    .session 0 0 (.submitted (.ok "0x01")), .session 0 0 (.coordinated none),
    .session 0 0 (.tick fun _ => .ok true), .ret 0]

theorem execute_ok_pair : ∃ s, exec step init executePair = some s ∧
    s.calls 0 = .returned pairProposals [] ∧ ∀ p ∈ pairProposals, Reported executePair 0 pairProposals p := by
  have hcall : (exec step init executePair).map (fun s => s.calls 0) =
      some (.returned pairProposals []) := by
    decide +kernel
  obtain ⟨s, hs, hret⟩ := Option.map_eq_some_iff.1 hcall
  exact ⟨s, hs, hret, execute_ok hs hret⟩

section Submissions

/-- What `executeBatch` sends for a signature. -/
def transaction (b : Batch) (sig : SignatureData) : Action :=
  .executeProposals b.proposals (signatureBytes sig) b.gasLimit

def WatchPc.inHand : WatchPc → List SignatureData
  | .executeBatch sig => [sig]
  | .watching | .returned _ => []

def SignPc.inHand : SignPc → List SignatureData
  | .sending (some sig) => [sig]
  | .sending none | .executing | .returned _ => []

/-- The signatures that are not submitted yet. -/
def Session.inHand (x : Session) : List SignatureData := x.watch.inHand ++ x.sign.inHand

/-- The signatures that the signing processes came to. -/
def produced (es : List SessionEvent) : List SignatureData :=
  es.filterMap fun
    | .result sigResult => sigResult
    | _ => none

/-- What the failed submissions are answered with. -/
def failures (sessionID : String) (es : List SessionEvent) : List Action :=
  es.filterMap fun
    | .submitted (.error _) => some (.broadcastFail sessionID)
    | _ => none

variable {b : Batch} {sessionID : String} {past es : List SessionEvent} {e : SessionEvent}
  {x x' : Session}

@[simp] theorem produced_append : produced (past ++ es) = produced past ++ produced es :=
  List.filterMap_append

@[simp] theorem failures_append :
    failures sessionID (past ++ es) = failures sessionID past ++ failures sessionID es :=
  List.filterMap_append

/-- Every signature is submitted or in hand, and a failed submission is the last action. -/
structure Accounted (b : Batch) (sessionID : String) (past : List SessionEvent) (x : Session) :
    Prop where
  id : x.sessionID = sessionID
  failed : failures sessionID past ≠ [] → ∃ err, x.watch = .returned err
  actions : ∃ submitted, submitted ++ x.inHand = produced past ∧
    x.actions = submitted.map (transaction b) ++ failures sessionID past

theorem Accounted.failures_nil (h : Accounted b sessionID past x)
    (hwatch : ∀ err, x.watch ≠ .returned err) : failures sessionID past = [] := by
  by_contra hne
  obtain ⟨err, herr⟩ := h.failed hne
  exact hwatch err herr

theorem Accounted.same (h : Accounted b sessionID past x) (hid : x'.sessionID = x.sessionID)
    (hactions : x'.actions = x.actions) (hfailures : failures sessionID [e] = [])
    (hwatch : ∀ err, x.watch = .returned err → x'.watch = .returned err)
    (hhand : x'.inHand = x.inHand ++ produced [e]) : Accounted b sessionID (past ++ [e]) x' where
  id := hid.trans h.id
  failed := by
    rw [failures_append, hfailures, List.append_nil]
    intro hne
    obtain ⟨err, herr⟩ := h.failed hne
    exact ⟨err, hwatch err herr⟩
  actions := by
    obtain ⟨submitted, hproduced, hsent⟩ := h.actions
    refine ⟨submitted, ?_, ?_⟩
    · rw [hhand, produced_append, ← hproduced, List.append_assoc]
    · rw [hactions, hsent, failures_append, hfailures, List.append_nil]

/-- The submission of the signature that the loop holds. -/
theorem Accounted.submit {sig : SignatureData} (h : Accounted b sessionID past x)
    (hwatch : x.watch = .executeBatch sig) (hid : x'.sessionID = x.sessionID)
    (hactions : x'.actions = x.actions ++ [transaction b sig] ++ failures sessionID [e])
    (hfailed : failures sessionID [e] ≠ [] → ∃ err, x'.watch = .returned err)
    (hhand : x'.inHand = x.sign.inHand) (hproduced : produced [e] = []) :
    Accounted b sessionID (past ++ [e]) x' := by
  have hnil := h.failures_nil (by simp [hwatch])
  obtain ⟨submitted, hsubmitted, hsent⟩ := h.actions
  refine ⟨hid.trans h.id, ?_, submitted ++ [sig], ?_, ?_⟩
  · rw [failures_append, hnil, List.nil_append]
    exact hfailed
  · rw [hhand, produced_append, hproduced, List.append_nil, ← hsubmitted, Session.inHand, hwatch]
    simp [WatchPc.inHand]
  · rw [hactions, hsent, failures_append, hnil]
    simp

theorem Accounted.move (h : Accounted b sessionID past x) (hmove : Session.Move b x e x') :
    Accounted b sessionID (past ++ [e]) x' := by
  cases hmove with
  | @result sigResult hsign =>
    refine h.same rfl rfl rfl (fun _ hw => hw) ?_
    cases sigResult <;> simp [Session.inHand, hsign, SignPc.inHand, produced]
  | coordinated hsign =>
    refine h.same rfl rfl rfl (fun _ hw => hw) ?_
    simp [Session.inHand, hsign, SignPc.inHand, produced]
  | receiveNil hsign hwatch =>
    refine h.same rfl rfl rfl (fun _ hw => hw) ?_
    simp [Session.inHand, hsign, SignPc.inHand, produced]
  | receive hsign hwatch =>
    refine h.same rfl rfl rfl (by simp [hwatch]) ?_
    simp [Session.inHand, hsign, hwatch, SignPc.inHand, WatchPc.inHand, produced]
  | @rejected sig err hwatch =>
    refine h.submit hwatch rfl ?_ (fun _ => ⟨_, rfl⟩) rfl rfl
    simp [transaction, failures, h.id]
  | @accepted sig hash hwatch =>
    refine h.submit hwatch rfl ?_ (fun hne => absurd rfl hne) rfl rfl
    simp [transaction, failures]
  | executed hwatch _ =>
    refine h.same rfl rfl rfl (by simp [hwatch]) ?_
    simp [Session.inHand, hwatch, WatchPc.inHand, produced]
  | outstanding hwatch => exact h.same rfl rfl rfl (fun _ hw => hw) (by simp [produced])
  | timeout hwatch =>
    refine h.same rfl rfl rfl (by simp [hwatch]) ?_
    simp [Session.inHand, hwatch, WatchPc.inHand, produced]
  | done hsign hwatch =>
    refine h.same rfl rfl rfl (by simp [hwatch]) ?_
    simp [Session.inHand, hwatch, WatchPc.inHand, produced]

theorem accounted_exec (h : exec (Session.step b) (.start sessionID) es = some x) :
    Accounted b sessionID es x := by
  have haccounted : Accounted b sessionID ([] ++ es) x :=
    exec_history (fun _ _ _ _ h _ hstep => h.move (Session.step_move hstep))
      ⟨rfl, fun hne => absurd rfl hne, [], rfl, rfl⟩ along_true h
  rwa [List.nil_append] at haccounted

end Submissions

/-- Whatever else runs, a session submits the signatures of its own signing processes, each once
and in order, for the proposals of its own batch and at their gas limit. The submissions that fail,
and no others, are announced to the peers. -/
theorem submits_signatures {events : List Event} {s : State} {t k : ℕ} {x : Session}
    (h : exec step init events = some s) (hgo : s.go t k = .session x) :
    ∃ ps bs b submitted, Formed events t ps bs ∧ bs[k]? = some b ∧
      submitted ++ x.inHand = produced (sessionEvents t k events) ∧
      x.actions = submitted.map (transaction b) ++
        failures x.sessionID (sessionEvents t k events) := by
  obtain ⟨ps, bs, b, sessionID, hformed, hb, hrun⟩ := session_run h hgo
  have haccounted := accounted_exec hrun
  obtain ⟨submitted, hsubmitted, hactions⟩ := haccounted.actions
  rw [← haccounted.id] at hactions
  exact ⟨ps, bs, b, submitted, hformed, hb, hsubmitted, hactions⟩

theorem submits_signatures_pair : ∃ s x, exec step init executePair = some s ∧
    s.go 0 0 = .session x ∧ ∃ ps bs b submitted, Formed executePair 0 ps bs ∧ bs[0]? = some b ∧
      submitted ++ x.inHand = produced (sessionEvents 0 0 executePair) ∧
      x.actions = submitted.map (transaction b) ++
        failures x.sessionID (sessionEvents 0 0 executePair) := by
  have hgo : (exec step init executePair).map (fun s => s.go 0 0) = some (.session
      ⟨"1-2-20-24-0", .returned none, .returned none,
        [transaction ⟨[outstandingProposal], 10⟩ ⟨[1], [2], [0]⟩]⟩) := by
    decide +kernel
  obtain ⟨s, hs, hgo⟩ := Option.map_eq_some_iff.1 hgo
  exact ⟨s, _, hs, hgo, submits_signatures hs hgo⟩

end Sygma.EvmExecution
