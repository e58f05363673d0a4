import SygmaRelayer.Spec.EvmExecution

/-! The steps of the EVM executor's goroutines, one case for each branch, and the sessions of a
run: whatever the other goroutines do meanwhile, the two goroutines of a batch make a run of their
own. -/

namespace Sygma.EvmExecution

open Evm (TransferProposal Batch Config Bridge proposalBatches)
open Substrate (SignatureData signatureBytes)
open Runs

/-- The transitions of `Session.step`. -/
inductive Session.Move (batch : Batch) (x : Session) : SessionEvent → Session → Prop
  | result {sigResult : Option SignatureData} (hsign : x.sign = .executing) :
    Move batch x (.result sigResult) { x with sign := .sending sigResult }
  | coordinated {err : Option String} (hsign : x.sign = .executing) :
    Move batch x (.coordinated err) { x with sign := .returned err }
  | receiveNil (hsign : x.sign = .sending none) (hwatch : x.watch = .watching) :
    Move batch x .receive { x with sign := .executing }
  | receive {sig : SignatureData} (hsign : x.sign = .sending (some sig))
      (hwatch : x.watch = .watching) :
    Move batch x .receive { x with sign := .executing, watch := .executeBatch sig }
  | rejected {sig : SignatureData} {err : String} (hwatch : x.watch = .executeBatch sig) :
    Move batch x (.submitted (.error err))
      { x with watch := .returned (some err),
               actions := x.actions ++
                 [.executeProposals batch.proposals (signatureBytes sig) batch.gasLimit] ++
                 [.broadcastFail x.sessionID] }
  | accepted {sig : SignatureData} {hash : String} (hwatch : x.watch = .executeBatch sig) :
    Move batch x (.submitted (.ok hash))
      { x with watch := .watching,
               actions := x.actions ++
                 [.executeProposals batch.proposals (signatureBytes sig) batch.gasLimit] }
  | executed {isProposalExecuted : Bridge} (hwatch : x.watch = .watching)
      (hexecuted : areProposalsExecuted isProposalExecuted batch.proposals = true) :
    Move batch x (.tick isProposalExecuted) { x with watch := .returned none }
  | outstanding {isProposalExecuted : Bridge} (hwatch : x.watch = .watching) :
    Move batch x (.tick isProposalExecuted) x
  | timeout (hwatch : x.watch = .watching) :
    Move batch x .timeout { x with watch := .returned (some "execution timed out in 30m0s") }
  | done {err : String} (hsign : x.sign = .returned (some err)) (hwatch : x.watch = .watching) :
    Move batch x .done { x with watch := .returned none }

theorem Session.step_move {batch : Batch} {x x' : Session} {e : SessionEvent}
    (h : x.step batch e = some x') : Session.Move batch x e x' := by
  cases e with
  | result sigResult =>
    simp only [Session.step] at h
    split at h
    next hsign =>
      cases h
      exact .result hsign
    next => cases h
  | coordinated err =>
    simp only [Session.step] at h
    split at h
    next hsign =>
      cases h
      exact .coordinated hsign
    next => cases h
  | receive =>
    simp only [Session.step] at h
    split at h
    next hsign hwatch =>
      cases h
      exact .receiveNil hsign hwatch
    next sig hsign hwatch =>
      cases h
      exact .receive hsign hwatch
    next => cases h
  | submitted hash =>
    simp only [Session.step] at h
    split at h
    next sig hwatch =>
      cases hash with
      | error err =>
        cases h
        exact .rejected hwatch
      | ok hash =>
        cases h
        exact .accepted hwatch
    next => cases h
  | tick isProposalExecuted =>
    simp only [Session.step] at h
    split at h
    next hwatch =>
      split at h
      next hexecuted =>
        cases h
        exact .executed hwatch hexecuted
      next =>
        cases h
        exact .outstanding hwatch
    next => cases h
  | timeout =>
    simp only [Session.step] at h
    split at h
    next hwatch =>
      cases h
      exact .timeout hwatch
    next => cases h
  | done =>
    simp only [Session.step] at h
    split at h
    next err hsign hwatch =>
      cases h
      exact .done hsign hwatch
    next => cases h

/-- The transitions of `step`. -/
inductive Move (s : State) : Event → State → Prop
  | refused {t : ℕ} {cfg : Config} {ps : List TransferProposal} {br : Bridge} {err : String}
      (hcall : s.calls t = .idle) :
    Move s (.execute t cfg ps br) (s.setCall t (.returned ps [err]))
  | execute {t : ℕ} {cfg : Config} {ps : List TransferProposal} {br : Bridge} {bs : List Batch}
      (hexit : s.exit = .running) (hcall : s.calls t = .idle)
      (hbatches : proposalBatches cfg br ps = .ok bs) :
    Move s (.execute t cfg ps br)
      { s.setCall t (.running ps bs 0) with readers := s.readers + 1 }
  | skip {t : ℕ} {ps : List TransferProposal} {bs : List Batch} {n : ℕ} {batch : Batch}
      (hcall : s.calls t = .running ps bs n) (hbatch : bs[n]? = some batch)
      (hempty : batch.proposals = []) :
    Move s (.iterate t) (s.setCall t (.running ps bs (n + 1)))
  | spawn {t : ℕ} {ps : List TransferProposal} {bs : List Batch} {n : ℕ} {batch : Batch}
      (hcall : s.calls t = .running ps bs n) (hbatch : bs[n]? = some batch) :
    Move s (.iterate t) ((s.setGo t n .spawned).setCall t (.running ps bs (n + 1)))
  | fail {t k : ℕ} {ps : List TransferProposal} {bs : List Batch} {n : ℕ} {err : String}
      (hcall : s.calls t = .running ps bs n) (hgo : s.go t k = .spawned) :
    Move s (.fail t k err) (s.setGo t k (.failed err))
  | launch {t k : ℕ} {ps : List TransferProposal} {bs : List Batch} {n : ℕ} {batch : Batch}
      {sessionID : String} (hcall : s.calls t = .running ps bs n) (hgo : s.go t k = .spawned)
      (hbatch : bs[k]? = some batch) :
    Move s (.launch t k) (s.setGo t k (.session (.start sessionID)))
  | session {t k : ℕ} {ps : List TransferProposal} {bs : List Batch} {n : ℕ} {batch : Batch}
      {x x' : Session} {e : SessionEvent} (hcall : s.calls t = .running ps bs n)
      (hgo : s.go t k = .session x) (hbatch : bs[k]? = some batch)
      (hstep : x.step batch e = some x') :
    Move s (.session t k e) (s.setGo t k (.session x'))
  | ret {t : ℕ} {ps : List TransferProposal} {bs : List Batch} {errs : List String}
      (hcall : s.calls t = .running ps bs bs.length)
      (herrs : joinErrors (s.go t) bs.length = some errs) :
    Move s (.ret t) { s.setCall t (.returned ps errs) with readers := s.readers - 1 }
  | signal (hexit : s.exit = .running) : Move s .signal { s with exit := .locking }
  | exit (hexit : s.exit = .locking) (hreaders : s.readers = 0) :
    Move s .exit { s with exit := .exited }

theorem step_move {s s' : State} {e : Event} (h : step s e = some s') : Move s e s' := by
  cases e with
  | execute t cfg ps br =>
    simp only [step] at h
    split at h
    next hexit hcall =>
      split at h
      next err herr =>
        cases h
        exact .refused hcall
      next bs hbatches =>
        cases h
        exact .execute hexit hcall hbatches
    next => cases h
  | iterate t =>
    simp only [step] at h
    split at h
    next ps bs n hcall =>
      split at h
      next batch hbatch =>
        split at h
        next hempty =>
          cases h
          exact .skip hcall hbatch hempty
        next =>
          cases h
          exact .spawn hcall hbatch
      next => cases h
    next => cases h
  | fail t k err =>
    simp only [step] at h
    split at h
    next ps bs n hcall hgo =>
      cases h
      exact .fail hcall hgo
    next => cases h
  | launch t k =>
    simp only [step] at h
    split at h
    next ps bs n hcall hgo =>
      split at h
      next batch hbatch =>
        cases h
        exact .launch hcall hgo hbatch
      next => cases h
    next => cases h
  | session t k e =>
    simp only [step] at h
    split at h
    next ps bs n x hcall hgo =>
      split at h
      next batch hbatch =>
        obtain ⟨x', hstep, rfl⟩ := Option.map_eq_some_iff.1 h
        exact .session hcall hgo hbatch hstep
      next => cases h
    next => cases h
  | ret t =>
    simp only [step] at h
    split at h
    next ps bs n hcall =>
      split at h
      next hlast =>
        subst hlast
        obtain ⟨errs, herrs, rfl⟩ := Option.map_eq_some_iff.1 h
        exact .ret hcall herrs
      next => cases h
    next => cases h
  | signal =>
    simp only [step] at h
    split at h
    next hexit =>
      cases h
      exact .signal hexit
    next => cases h
  | exit =>
    simp only [step] at h
    split at h
    next hexit =>
      split at h
      next hreaders =>
        cases h
        exact .exit hexit hreaders
      next => cases h
    next => cases h

/-- The events of one batch. -/
def sessionEvents (t k : ℕ) (events : List Event) : List SessionEvent :=
  events.filterMap fun
    | .session t' k' e => if t' = t ∧ k' = k then some e else none
    | _ => none

theorem sessionEvents_append_self (t k : ℕ) (past : List Event) (e : SessionEvent) :
    sessionEvents t k (past ++ [.session t k e]) = sessionEvents t k past ++ [e] := by
  simp [sessionEvents]

theorem sessionEvents_append_of_ne {t k : ℕ} {e : Event} (h : ∀ e', e ≠ .session t k e')
    (past : List Event) : sessionEvents t k (past ++ [e]) = sessionEvents t k past := by
  unfold sessionEvents
  rw [List.filterMap_append, List.filterMap_cons_none, List.filterMap_nil, List.append_nil]
  cases e with
  | session t' k' e' =>
    have hne : ¬ (t' = t ∧ k' = k) := by
      rintro ⟨rfl, rfl⟩
      exact h e' rfl
    exact if_neg hne
  | _ => rfl

/-- The call was made with `ps`, and these are its batches. -/
def Formed (past : List Event) (t : ℕ) (ps : List TransferProposal) (bs : List Batch) : Prop :=
  ∃ cfg br, .execute t cfg ps br ∈ past ∧ proposalBatches cfg br ps = .ok bs

/-- What holds of the goroutine of batch `k` of a call whose loop has made `n` turns, after the
events `es` of the batch. -/
def GoOk (bs : List Batch) (n k : ℕ) (es : List SessionEvent) : GoPc → Prop
  | .idle => es = [] ∧ (k < n → ∀ b, bs[k]? = some b → b.proposals = [])
  | .spawned | .failed _ => es = [] ∧ k < n
  | .session x => k < n ∧ ∃ b sessionID, bs[k]? = some b ∧
      exec (Session.step b) (.start sessionID) es = some x

/-- No goroutine of the call was started. -/
def Untouched (past : List Event) (t : ℕ) (go : ℕ → GoPc) : Prop :=
  ∀ k, go k = .idle ∧ sessionEvents t k past = []

def CallOk (past : List Event) (t : ℕ) (go : ℕ → GoPc) : CallPc → Prop
  | .idle => Untouched past t go
  | .running ps bs n => Formed past t ps bs ∧ n ≤ bs.length ∧
      ∀ k, GoOk bs n k (sessionEvents t k past) (go k)
  | .returned ps errs => (errs ≠ [] ∧ Untouched past t go) ∨
      ∃ bs, Formed past t ps bs ∧ joinErrors go bs.length = some errs ∧
        ∀ k, GoOk bs bs.length k (sessionEvents t k past) (go k)

theorem Formed.mono {past : List Event} {t : ℕ} {ps : List TransferProposal} {bs : List Batch}
    (h : Formed past t ps bs) (e : Event) : Formed (past ++ [e]) t ps bs := by
  obtain ⟨cfg, br, hmem, hbatches⟩ := h
  exact ⟨cfg, br, List.mem_append_left _ hmem, hbatches⟩

theorem CallOk.mono {past : List Event} {t : ℕ} {go : ℕ → GoPc} {pc : CallPc} {e : Event}
    (h : CallOk past t go pc) (he : ∀ k e', e ≠ .session t k e') : CallOk (past ++ [e]) t go pc := by
  have hsame : ∀ k, sessionEvents t k (past ++ [e]) = sessionEvents t k past :=
    fun k => sessionEvents_append_of_ne (he k) past
  cases pc with
  | idle =>
    intro k
    rw [hsame]
    exact h k
  | running ps bs n =>
    obtain ⟨hformed, hn, hgo⟩ := h
    refine ⟨hformed.mono e, hn, fun k => ?_⟩
    rw [hsame]
    exact hgo k
  | returned ps errs =>
    rcases h with ⟨hne, huntouched⟩ | ⟨bs, hformed, herrs, hgo⟩
    · refine Or.inl ⟨hne, fun k => ?_⟩
      rw [hsame]
      exact huntouched k
    · refine Or.inr ⟨bs, hformed.mono e, herrs, fun k => ?_⟩
      rw [hsame]
      exact hgo k

theorem CallOk.update {past : List Event} {t k n : ℕ} {go : ℕ → GoPc} {ps : List TransferProposal}
    {bs : List Batch} {e : Event} {pc : GoPc} (h : CallOk past t go (.running ps bs n))
    (he : ∀ j e', j ≠ k → e ≠ .session t j e')
    (hpc : GoOk bs n k (sessionEvents t k (past ++ [e])) pc) :
    CallOk (past ++ [e]) t (Function.update go k pc) (.running ps bs n) := by
  obtain ⟨hformed, hn, hgo⟩ := h
  refine ⟨hformed.mono e, hn, fun j => ?_⟩
  by_cases hj : j = k
  · subst hj
    rwa [Function.update_self]
  · rw [Function.update_of_ne hj, sessionEvents_append_of_ne (he j · hj)]
    exact hgo j

theorem GoOk.next {bs : List Batch} {n k : ℕ} {es : List SessionEvent} {pc : GoPc}
    (h : GoOk bs n k es pc) (hn : k = n → ∀ b, bs[k]? = some b → b.proposals = []) :
    GoOk bs (n + 1) k es pc := by
  cases pc with
  | idle =>
    refine ⟨h.1, fun hk => ?_⟩
    rcases Nat.lt_succ_iff_lt_or_eq.1 hk with hk | hk
    · exact h.2 hk
    · exact hn hk
  | spawned => exact ⟨h.1, Nat.lt_succ_of_lt h.2⟩
  | failed err => exact ⟨h.1, Nat.lt_succ_of_lt h.2⟩
  | session x => exact ⟨Nat.lt_succ_of_lt h.1, h.2⟩

theorem GoOk.eq_nil {bs : List Batch} {n : ℕ} {es : List SessionEvent} {pc : GoPc}
    (h : GoOk bs n n es pc) : es = [] := by
  cases pc with
  | idle | spawned | failed => exact h.1
  | session => exact absurd h.1 (lt_irrefl n)

theorem exec_snoc {batch : Batch} {x x' x'' : Session} {es : List SessionEvent} {e : SessionEvent}
    (h : exec (Session.step batch) x es = some x') (hstep : x'.step batch e = some x'') :
    exec (Session.step batch) x (es ++ [e]) = some x'' :=
  exec_append h (exec_cons.2 ⟨x'', hstep, rfl⟩)

/-- What every event keeps of every call. -/
def CallsOk (past : List Event) (s : State) : Prop := ∀ t, CallOk past t (s.go t) (s.calls t)

theorem CallsOk.move {past : List Event} {s s' : State} {e : Event} {t : ℕ} (h : CallsOk past s)
    (hcalls : ∀ u, u ≠ t → s'.calls u = s.calls u) (hgo : ∀ u, u ≠ t → s'.go u = s.go u)
    (he : ∀ u k e', u ≠ t → e ≠ .session u k e')
    (ht : CallOk (past ++ [e]) t (s'.go t) (s'.calls t)) : CallsOk (past ++ [e]) s' := by
  intro u
  by_cases hu : u = t
  · subst hu
    exact ht
  · rw [hcalls u hu, hgo u hu]
    exact (h u).mono fun k e' => he u k e' hu

theorem CallsOk.setGo {past : List Event} {s : State} {e : Event} {t k n : ℕ}
    {ps : List TransferProposal} {bs : List Batch} {pc : GoPc} (h : CallsOk past s)
    (hcall : s.calls t = .running ps bs n) (he : ∀ u j e', ¬(u = t ∧ j = k) → e ≠ .session u j e')
    (hpc : GoOk bs n k (sessionEvents t k past) (s.go t k) →
      GoOk bs n k (sessionEvents t k (past ++ [e])) pc) :
    CallsOk (past ++ [e]) (s.setGo t k pc) := by
  refine h.move (t := t) (fun _ _ => rfl) (fun u hu => by simp [hu])
    (fun u j e' hu => he u j e' fun hsame => hu hsame.1) ?_
  simp only [State.setGo, Function.update_self]
  have hrunning := h t
  rw [hcall] at hrunning ⊢
  exact hrunning.update (fun j e' hj => he t j e' fun hsame => hj hsame.2) (hpc (hrunning.2.2 k))

theorem callsOk_init : CallsOk [] init := fun _ _ => ⟨rfl, rfl⟩

theorem callsOk_move {past : List Event} {s s' : State} {e : Event} (h : CallsOk past s)
    (hmove : Move s e s') : CallsOk (past ++ [e]) s' := by
  cases hmove with
  | @refused t cfg ps br err hcall =>
    refine h.move (t := t) (fun u hu => by simp [hu]) (fun _ _ => rfl) (by simp) ?_
    have hidle := (h t).mono (e := .execute t cfg ps br) (by simp)
    rw [hcall] at hidle
    simp only [State.setCall, Function.update_self]
    exact Or.inl ⟨by simp, hidle⟩
  | @execute t cfg ps br bs hexit hcall hbatches =>
    refine h.move (t := t) (fun u hu => by simp [hu]) (fun _ _ => rfl) (by simp) ?_
    have hidle := (h t).mono (e := .execute t cfg ps br) (by simp)
    rw [hcall] at hidle
    simp only [State.setCall, Function.update_self]
    refine ⟨⟨cfg, br, by simp, hbatches⟩, Nat.zero_le _, fun k => ?_⟩
    rw [(hidle k).1]
    exact ⟨(hidle k).2, fun hk => absurd hk (Nat.not_lt_zero k)⟩
  | @skip t ps bs n batch hcall hbatch hempty =>
    refine h.move (t := t) (fun u hu => by simp [hu]) (fun _ _ => rfl) (by simp) ?_
    have hrunning := (h t).mono (e := .iterate t) (by simp)
    rw [hcall] at hrunning
    obtain ⟨hformed, -, hgo⟩ := hrunning
    simp only [State.setCall, Function.update_self]
    refine ⟨hformed, (List.getElem?_eq_some_iff.1 hbatch).1, fun k => (hgo k).next ?_⟩
    rintro rfl b hb
    rw [hbatch] at hb
    exact Option.some.inj hb ▸ hempty
  | @spawn t ps bs n batch hcall hbatch =>
    refine h.move (t := t) (fun u hu => by simp [hu]) (fun u hu => by simp [hu]) (by simp) ?_
    have hrunning := (h t).mono (e := .iterate t) (by simp)
    rw [hcall] at hrunning
    obtain ⟨hformed, -, hgo⟩ := hrunning
    simp only [State.setCall, State.setGo, Function.update_self]
    refine ⟨hformed, (List.getElem?_eq_some_iff.1 hbatch).1, fun k => ?_⟩
    by_cases hk : k = n
    · subst hk
      rw [Function.update_self]
      -- the loop had not come to it
      exact ⟨(hgo k).eq_nil, Nat.lt_succ_self k⟩
    · rw [Function.update_of_ne hk]
      exact (hgo k).next fun hkn => absurd hkn hk
  | @fail t k ps bs n err hcall hgo =>
    refine h.setGo hcall (by simp) fun hspawned => ?_
    rw [hgo] at hspawned
    rw [sessionEvents_append_of_ne (by simp)]
    exact hspawned
  | @launch t k ps bs n batch sessionID hcall hgo hbatch =>
    refine h.setGo hcall (by simp) fun hspawned => ?_
    rw [hgo] at hspawned
    rw [sessionEvents_append_of_ne (by simp), hspawned.1]
    exact ⟨hspawned.2, batch, sessionID, hbatch, rfl⟩
  | @session t k ps bs n batch x x' e hcall hgo hbatch hstep =>
    refine h.setGo hcall (fun u j e' hne heq => hne (by cases heq; exact ⟨rfl, rfl⟩)) ?_
    intro hsession
    rw [hgo] at hsession
    obtain ⟨hk, b, sessionID, hb, hrun⟩ := hsession
    obtain rfl : batch = b := Option.some.inj (hbatch.symm.trans hb)
    rw [sessionEvents_append_self]
    exact ⟨hk, batch, sessionID, hb, exec_snoc hrun hstep⟩
  | @ret t ps bs errs hcall herrs =>
    refine h.move (t := t) (fun u hu => by simp [hu]) (fun _ _ => rfl) (by simp) ?_
    have hrunning := (h t).mono (e := .ret t) (by simp)
    rw [hcall] at hrunning
    simp only [State.setCall, Function.update_self]
    exact Or.inr ⟨bs, hrunning.1, herrs, hrunning.2.2⟩
  | signal hexit => exact fun u => (h u).mono (by simp)
  | exit hexit hreaders => exact fun u => (h u).mono (by simp)

theorem callsOk_exec {events : List Event} {s : State} (h : exec step init events = some s) :
    CallsOk events s := by
  have hok : CallsOk ([] ++ events) s :=
    exec_history (fun past s e s' h _ hstep => callsOk_move h (step_move hstep)) callsOk_init
      along_true h
  rwa [List.nil_append] at hok

/-- In a run of the executor, the two goroutines of a batch make a run of their own. -/
theorem session_run {events : List Event} {s : State} {t k : ℕ} {x : Session}
    (h : exec step init events = some s) (hgo : s.go t k = .session x) :
    ∃ ps bs b sessionID, Formed events t ps bs ∧ bs[k]? = some b ∧
      exec (Session.step b) (.start sessionID) (sessionEvents t k events) = some x := by
  have hcall := callsOk_exec h t
  cases hpc : s.calls t with
  | idle =>
    rw [hpc] at hcall
    rw [(hcall k).1] at hgo
    cases hgo
  | running ps bs n =>
    rw [hpc] at hcall
    obtain ⟨hformed, -, hall⟩ := hcall
    have hk := hall k
    rw [hgo] at hk
    obtain ⟨-, b, sessionID, hb, hrun⟩ := hk
    exact ⟨ps, bs, b, sessionID, hformed, hb, hrun⟩
  | returned ps errs =>
    rw [hpc] at hcall
    rcases hcall with ⟨-, huntouched⟩ | ⟨bs, hformed, -, hall⟩
    · rw [(huntouched k).1] at hgo
      cases hgo
    · have hk := hall k
      rw [hgo] at hk
      obtain ⟨-, b, sessionID, hb, hrun⟩ := hk
      exact ⟨ps, bs, b, sessionID, hformed, hb, hrun⟩

end Sygma.EvmExecution
