import SygmaRelayer.Proofs.BtcOwnership

/-! A proposal stored as executed. The retry handlers read the status and write
`failed` in two steps outside `propMutex`, so an execution can finish in between
and its `executed` is lost. Where retries reset stuck proposals only, `executed`
is final and the proposal is never returned for execution again. -/

namespace Sygma.Btc

open Runs

theorem executed_step {s s' : State} {e : Event} (hi : Inv s) (hG : ResetsStuck s e)
    (h : step s e = some s') {k : PropKey} (hk : s.status k = .executed) :
    s'.status k = .executed := by
  by_contra hne
  rcases status_step (step_cases h) (by rwa [hk]) with ⟨t, todo, props, p, _, hc, rfl, _⟩ |
    ⟨t, r, v, p, todo, _, hg, rfl, _⟩ | ⟨j, rfl, hr, _⟩
  · have := hi.taken t p todo props hc
    rw [hk] at this
    simp [isExecuted] at this
  · have := hi.owned t p.key (Or.inr ⟨r, by simp [Settles, hg, GroupPc.unsettled, keys]⟩)
    rw [hk] at this
    cases this
  · rcases hG k hr with hf | ⟨hp, _⟩
    · rw [hk] at hf; cases hf
    · rw [hk] at hp; cases hp

theorem not_returned_of_executed {s : State} (hi : Inv s) (e : Event) {k : PropKey}
    (hk : s.status k = .executed) : k ∉ keys (returnedProps s e) := by
  intro hmem
  cases e with
  | unlock t =>
    have ho : Owns s t k := by
      refine Or.inl ?_
      unfold returnedProps at hmem
      cases hc : s.call t with
      | reading todo props =>
        cases todo with
        | nil => simpa [Collects, hc, CallPc.collected] using hmem
        | cons p todo => simp [hc, keys] at hmem
      | _ => simp [hc, keys] at hmem
    rw [hi.owned t k ho] at hk
    cases hk
  | _ => simp [returnedProps, keys] at hmem

/-- After `es` every proposal stored as executed stays executed through `es'`, and no event
after that makes `proposalsForExecution` return it. -/
def ExecutedFinal (st : PropStore) (es es' : List Event) : Prop :=
  ∀ s s' k, exec step (init st) es = some s → s.status k = .executed →
    exec step s es' = some s' →
      s'.status k = .executed ∧ ∀ e s'', step s' e = some s'' → k ∉ keys (returnedProps s' e)

theorem executed_final {st : PropStore} {es es' : List Event}
    (hG : Along step ResetsStuck (init st) (es ++ es')) : ExecutedFinal st es es' := by
  intro s s' k h hk h'
  obtain ⟨hG, hG'⟩ := (along_append h).1 hG
  have hi : Inv s := exec_inv (fun _ _ _ => inv_step) (inv_init st) hG h
  have hJ : Inv s' ∧ s'.status k = .executed :=
    exec_inv (I := fun s => Inv s ∧ s.status k = .executed)
      (fun _ _ _ hs hg hst => ⟨inv_step hs.1 hg hst, executed_step hs.1 hg hst hs.2⟩) ⟨hi, hk⟩ hG' h'
  exact ⟨hJ.2, fun e _ _ => not_returned_of_executed hJ.1 e hJ.2⟩

/-- A transfer of deposit `nonce` from domain 1 to domain 4. -/
def transferProposal (nonce : UInt64) : Proposal :=
  ⟨1, 4, ⟨10, "bc1", nonce, 5⟩, "1-4-100-104"⟩

/-- Call `t` takes the proposal and its goroutine starts. -/
def takes (t : ℕ) (p : Proposal) : List Event :=
  [.execute t [p], .lock t, .read t true, .mark t true, .unlock t]

/-- The goroutine sends the transaction and stores what came of it. -/
def settles (t : ℕ) (ok : Bool) : List Event :=
  [.send t 5 ok, .storeLock t 5, .store t 5 true, .storeUnlock t 5]

/-- A proposal left pending by a crash, reset by a retry and executed by call 0. -/
def resetAndPaid : List Event :=
  [.retryRead 0 (transferProposal 3).key true, .retryStore 0 true] ++
    (takes 0 (transferProposal 3) ++ settles 0 true)

/-- Call 1 is offered the same proposal and finds nothing to do. -/
def offeredAgain : List Event :=
  [.execute 1 [transferProposal 3], .lock 1, .read 1 true, .unlock 1]

theorem executed_final_after_reset :
    (exec step (init fun _ => .pending) (resetAndPaid ++ offeredAgain)).map
        (fun s => (s.status (transferProposal 3).key, s.call 1)) = some (.executed, .started []) ∧
      ExecutedFinal (fun _ => .pending) resetAndPaid offeredAgain := by
  refine ⟨by decide, executed_final ?_⟩
  refine ⟨trivial, fun s hs => ⟨fun k hk => Or.inr ?_, fun _ _ => ?_⟩⟩
  · obtain rfl : _ = s := Option.some.inj hs
    obtain rfl : (transferProposal 3).key = k := by simpa using hk
    exact ⟨rfl, fun t => ⟨by simp [Collects, init, CallPc.collected, keys], fun r h => by
      simp [InFlight, State.groupProps, init, CallPc.startedProps, propsPerResource, keys] at h⟩⟩
  · exact along_of_forall_mem (by simp [takes, settles, ResetsStuck, offeredAgain])

/-- The retry reads pending, the execution stores executed, the retry writes failed. -/
theorem executed_overwritten_by_retry :
    ¬ ExecutedFinal (fun _ => .missing)
      (takes 0 (transferProposal 3) ++ [.retryRead 0 (transferProposal 3).key true] ++
        settles 0 true) [.retryStore 0 true] := by
  intro h
  have := (h _ _ (transferProposal 3).key rfl rfl rfl).1
  revert this
  decide

end Sygma.Btc
