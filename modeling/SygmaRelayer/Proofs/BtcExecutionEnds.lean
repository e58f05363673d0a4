import SygmaRelayer.Lib.Text
import SygmaRelayer.Proofs.BtcFeeCoverage
import SygmaRelayer.Proofs.BtcSettlement
import SygmaRelayer.Proofs.BtcSignatures
import SygmaRelayer.Spec.BtcDeposits
import SygmaRelayer.Spec.BtcExecution

/-! Which ways a goroutine of `Execute` can end leave its proposals pending. It stores a status
exactly if its resource is configured, its transaction and signing processes could be built, and
the last missing signature arrived before the ticker. -/

namespace Sygma.BtcWatch

/-- A result on `sigChn`, with what `SendRawTransaction` answers if it is called for it. -/
abbrev Result := Option Signature × Except String String

def Result.event (result : Result) : Event := .result result.1 result.2

/-- The last signature for each of `n` inputs is there. -/
def Filled (n : ℕ) (results : List Result) : Prop :=
  ∀ i < n, lastSignature (results.map Result.event) i ≠ []

instance (n : ℕ) (results : List Result) : Decidable (Filled n results) :=
  inferInstanceAs (Decidable (∀ i < n, _))

/-- The result with which the signatures of `n` inputs are there for the first time. -/
def completing (n : ℕ) (results : List Result) : Option Result :=
  (results.inits.find? fun front => Filled n front).bind List.getLast?

section Completing

variable {n : ℕ} {results : List Result} {result : Result}

theorem signaturesFilled_iff_filled :
    signaturesFilled (placed n (results.map Result.event)) = true ↔ Filled n results := by
  unfold signaturesFilled placed Filled
  simp only [List.all_map, List.all_eq_true, List.mem_range, Function.comp_apply,
    decide_eq_true_eq, ne_eq, List.length_eq_zero_iff]

theorem not_filled_nil (hn : 1 ≤ n) : ¬ Filled n [] := fun h => h 0 hn rfl

theorem find?_eq_none_of_completing (hn : 1 ≤ n) (h : completing n results = none) :
    results.inits.find? (fun front => Filled n front) = none := by
  by_contra hne
  obtain ⟨front, hfind⟩ := Option.ne_none_iff_exists'.1 hne
  have hfront := List.find?_some hfind
  rw [completing, hfind, Option.bind_some, List.getLast?_eq_none_iff] at h
  subst h
  exact not_filled_nil hn (of_decide_eq_true hfront)

theorem not_filled_of_completing_eq_none (hn : 1 ≤ n) (h : completing n results = none) :
    ¬ Filled n results := by
  intro hfilled
  have hfind := List.find?_eq_none.1 (find?_eq_none_of_completing hn h) results
    ((List.mem_inits _ _).2 (List.prefix_refl _))
  exact hfind (decide_eq_true hfilled)

theorem completing_concat_of_some {first : Result} (h : completing n results = some first) :
    completing n (results ++ [result]) = some first := by
  obtain ⟨front, hfind, hlast⟩ := Option.bind_eq_some_iff.1 h
  rw [completing, List.inits_append, List.find?_append, hfind]
  exact hlast

theorem completing_concat_of_none (hn : 1 ≤ n) (h : completing n results = none) :
    completing n (results ++ [result]) =
      if Filled n (results ++ [result]) then some result else none := by
  rw [completing, List.inits_append, List.find?_append, find?_eq_none_of_completing hn h]
  by_cases hfilled : Filled n (results ++ [result])
  · simp [hfilled]
  · simp [hfilled]

/-- A turn of the loop that is still watching: with the last missing signature it sends the
transaction. -/
theorem step_watching (hn : 1 ≤ n) (hnone : completing n results = none)
    (h : (step ⟨.watching (placed n (results.map Result.event)), []⟩ result.event).pc ≠ .panicked) :
    step ⟨.watching (placed n (results.map Result.event)), []⟩ result.event =
      if Filled n (results ++ [result]) then
        send ⟨.watching (placed n (results.map Result.event)), []⟩
          (placed n ((results ++ [result]).map Result.event)) result.2
      else ⟨.watching (placed n ((results ++ [result]).map Result.event)), []⟩ := by
  simp only [← signaturesFilled_iff_filled, List.map_append, List.map_singleton]
  obtain ⟨sigResult, sent⟩ := result
  cases sigResult with
  | none =>
    have hfilled := mt signaturesFilled_iff_filled.1 (not_filled_of_completing_eq_none hn hnone)
    rw [placed_append_none rfl, if_neg hfilled]
    rfl
  | some sig =>
    have hlength : (placed n (results.map Result.event)).length = n := by simp [placed]
    rw [placed_append_some rfl]
    by_cases hid : sig.id < n
    · simp [step, Result.event, hlength, hid]
    · simp [step, Result.event, hlength, hid] at h

/-- The loop before the ticker, unless it has panicked: it waits for a signature that is missing,
or has sent the transaction with the result that brought the last one. -/
theorem watchExecution_completing (hn : 1 ≤ n)
    (h : (watchExecution n (results.map Result.event)).pc ≠ .panicked) :
    (completing n results = none → watchExecution n (results.map Result.event) =
      ⟨.watching (placed n (results.map Result.event)), []⟩) ∧
    ∀ first, completing n results = some first → ∃ signatures placed,
      watchExecution n (results.map Result.event) =
        send ⟨.watching signatures, []⟩ placed first.2 := by
  induction results using List.reverseRecOn with
  | nil =>
    have hnone : completing n [] = none := by simp [completing, not_filled_nil hn]
    refine ⟨fun _ => watchExecution_of_not_complete (by simp) fun hc => hc 0 hn rfl, ?_⟩
    intro first hfirst
    rw [hnone] at hfirst
    cases hfirst
  | append_singleton results result ih =>
    have hlast : watchExecution n ((results ++ [result]).map Result.event) =
        step (watchExecution n (results.map Result.event)) result.event := by
      rw [List.map_append, List.map_singleton, watchExecution_append, List.foldl_cons,
        List.foldl_nil]
    rw [hlast] at h ⊢
    have hbefore := ih fun hpanicked => h (by simp [step, hpanicked])
    cases hcompleting : completing n results with
    | some first =>
      obtain ⟨signatures, placed, hsend⟩ := hbefore.2 first hcompleting
      obtain ⟨err, herr⟩ := send_returned ⟨.watching signatures, []⟩ placed first.2
      rw [completing_concat_of_some hcompleting, hsend]
      refine ⟨by simp, fun first' hfirst => ⟨signatures, placed, ?_⟩⟩
      rw [← Option.some.inj hfirst]
      exact foldl_step_returned herr [result.event]
    | none =>
      rw [hbefore.1 hcompleting] at h ⊢
      rw [completing_concat_of_none hn hcompleting, step_watching hn hcompleting h]
      by_cases hfilled : Filled n (results ++ [result])
      · simp only [if_pos hfilled]
        refine ⟨by simp, fun first hfirst => ?_⟩
        obtain rfl := Option.some.inj hfirst
        exact ⟨_, _, rfl⟩
      · simp [hfilled]

end Completing

end Sygma.BtcWatch

namespace Sygma.Btc

open Runs Fallible BtcWatch

section Ending

variable {Address Script Hash Scalar Keyshare : Type}
  (x : Executor Address Script Hash Scalar Keyshare)

/-- The resource is configured, and the transaction with its `n` inputs and a signing process for
each can be built. -/
def Prepared (r : ResourceID) (props : List BtcTransferProposal) (run : Run Keyshare) (n : ℕ) :
    Prop :=
  ∃ resource tx utxos outs, x.resources r = some resource ∧
    rawTx x.lib run.answers props resource.address = .ok (tx, utxos) ∧
    prevOuts x.lib resource.script utxos = .ok outs ∧
    (∀ i < tx.txIn.length, ∃ process, tssProcess x resource tx outs run.getKeyshare i = .ok process) ∧
    n = tx.txIn.length

/-- The last missing signature comes before the ticker, and `SendRawTransaction` answers `sent`. -/
def Sends (r : ResourceID) (props : List BtcTransferProposal) (run : Run Keyshare)
    (sent : Except String String) : Prop :=
  ∃ n sig, Prepared x r props run n ∧ completing n run.results = some (sig, sent)

variable {x} {r : ResourceID} {props : List BtcTransferProposal} {run : Run Keyshare}

theorem constructed_eq_ok {resource : Resource Address Script} {tx : MsgTx Script Hash}
    {processes : List (Signing Keyshare)} :
    constructed x props resource run = .ok (tx, processes) ↔
      ∃ utxos outs, rawTx x.lib run.answers props resource.address = .ok (tx, utxos) ∧
        prevOuts x.lib resource.script utxos = .ok outs ∧
        (List.range tx.txIn.length).mapM (tssProcess x resource tx outs run.getKeyshare) =
          .ok processes := by
  simp only [constructed, bind_eq_ok]
  constructor
  · rintro ⟨⟨tx', utxos⟩, htx, outs, houts, processes', hprocesses, heq⟩
    obtain ⟨rfl, rfl⟩ := Prod.mk.inj (Except.ok.inj heq)
    exact ⟨utxos, outs, htx, houts, hprocesses⟩
  · rintro ⟨utxos, outs, htx, houts, hprocesses⟩
    exact ⟨(tx, utxos), htx, outs, houts, processes, hprocesses, rfl⟩

theorem prepared_iff {n : ℕ} : Prepared x r props run n ↔
    ∃ resource tx processes, x.resources r = some resource ∧
      constructed x props resource run = .ok (tx, processes) ∧ n = tx.txIn.length := by
  simp only [constructed_eq_ok]
  constructor
  · rintro ⟨resource, tx, utxos, outs, hr, htx, houts, hprocesses, hn⟩
    obtain ⟨processes, hprocesses⟩ := exists_mapM_eq_ok.2
      fun i hi => hprocesses i (List.mem_range.1 hi)
    exact ⟨resource, tx, processes, hr, ⟨utxos, outs, htx, houts, hprocesses⟩, hn⟩
  · rintro ⟨resource, tx, processes, hr, ⟨utxos, outs, htx, houts, hprocesses⟩, hn⟩
    exact ⟨resource, tx, utxos, outs, hr, htx, houts,
      fun i hi => exists_mapM_eq_ok.1 ⟨_, hprocesses⟩ i (List.mem_range.2 hi), hn⟩

theorem length_constructed {resource : Resource Address Script} {tx : MsgTx Script Hash}
    {processes : List (Signing Keyshare)}
    (h : constructed x props resource run = .ok (tx, processes)) :
    processes.length = tx.txIn.length := by
  obtain ⟨_, _, _, _, hprocesses⟩ := constructed_eq_ok.1 h
  simpa using (mapM_eq_ok.1 hprocesses).length_eq.symm

theorem sends_iff {sent : Except String String} : Sends x r props run sent ↔
    ∃ resource tx processes sig, x.resources r = some resource ∧
      constructed x props resource run = .ok (tx, processes) ∧
      completing tx.txIn.length run.results = some (sig, sent) := by
  constructor
  · rintro ⟨n, sig, hp, hcompleting⟩
    obtain ⟨resource, tx, processes, hr, hc, rfl⟩ := prepared_iff.1 hp
    exact ⟨resource, tx, processes, sig, hr, hc, hcompleting⟩
  · rintro ⟨resource, tx, processes, sig, hr, hc, hcompleting⟩
    exact ⟨_, sig, prepared_iff.2 ⟨resource, tx, processes, hr, hc, rfl⟩, hcompleting⟩

theorem storedStatus_send (signatures placed : List (List UInt8)) (sent : Except String String) :
    storedStatus (send ⟨.watching signatures, []⟩ placed sent) = some (outcome sent.isOk) := by
  cases sent <;> rfl

/-- `watchExecution` stores what became of the transaction, and nothing when the ticker ends it. -/
theorem storedStatus_watchExecution {n : ℕ} {err : Option String} (hn : 1 ≤ n)
    (h : (watchExecution n run.events).pc = .returned err) :
    storedStatus (watchExecution n run.events) =
      (completing n run.results).map fun first => outcome first.2.isOk := by
  have hlast : watchExecution n run.events =
      BtcWatch.step (watchExecution n (run.results.map Result.event)) .timeout :=
    watchExecution_append _ _
  rw [hlast] at h ⊢
  have hpc : (watchExecution n (run.results.map Result.event)).pc ≠ .panicked := by
    intro hpanicked
    simp [BtcWatch.step, hpanicked] at h
  have hbefore := watchExecution_completing hn hpc
  cases hcompleting : completing n run.results with
  | none =>
    rw [hbefore.1 hcompleting]
    rfl
  | some first =>
    obtain ⟨signatures, placed, hsend⟩ := hbefore.2 first hcompleting
    obtain ⟨err, herr⟩ := send_returned ⟨.watching signatures, []⟩ placed first.2
    have hstep := foldl_step_returned herr [.timeout]
    rw [List.foldl_cons, List.foldl_nil] at hstep
    rw [hsend, hstep, storedStatus_send]
    rfl

theorem executeResourceProps_stored {resource : Resource Address Script} {err : Option String}
    {stored : Option PropStatus}
    (h : executeResourceProps x props resource run = .returned err stored) (status : PropStatus) :
    stored = some status ↔ ∃ tx processes sig sent,
      constructed x props resource run = .ok (tx, processes) ∧
      completing tx.txIn.length run.results = some (sig, sent) ∧ status = outcome sent.isOk := by
  unfold executeResourceProps at h
  cases hc : constructed x props resource run with
  | error err =>
    rw [hc] at h
    obtain ⟨-, rfl⟩ := Ending.returned.inj h
    simp
  | ok built =>
    obtain ⟨tx, processes⟩ := built
    rw [hc] at h
    cases processes with
    | nil => cases h
    | cons process processes =>
      have hn : 1 ≤ tx.txIn.length := by
        rw [← length_constructed hc]
        simp
      dsimp only at h
      split at h
      · rename_i hpc
        obtain ⟨rfl, rfl⟩ := Ending.returned.inj h
        rw [storedStatus_watchExecution hn hpc]
        constructor
        · intro hstored
          obtain ⟨⟨sig, sent⟩, hcompleting, rfl⟩ := Option.map_eq_some_iff.1 hstored
          exact ⟨tx, _, sig, sent, rfl, hcompleting, rfl⟩
        · rintro ⟨_, _, sig, sent, heq, hcompleting, rfl⟩
          obtain ⟨rfl, rfl⟩ := Prod.mk.inj (Except.ok.inj heq)
          rw [hcompleting]
          rfl
      · cases h
      · cases h

theorem executeResource_stored {err : Option String} {stored : Option PropStatus}
    (h : executeResource x r props run = .returned err stored) (status : PropStatus) :
    stored = some status ↔ ∃ sent, Sends x r props run sent ∧ status = outcome sent.isOk := by
  simp only [sends_iff]
  unfold executeResource at h
  cases hr : x.resources r with
  | none =>
    rw [hr] at h
    obtain ⟨-, rfl⟩ := Ending.returned.inj h
    simp
  | some resource =>
    rw [hr] at h
    rw [executeResourceProps_stored h]
    constructor
    · rintro ⟨tx, processes, sig, sent, hc, hcompleting, hstatus⟩
      exact ⟨sent, ⟨resource, tx, processes, sig, rfl, hc, hcompleting⟩, hstatus⟩
    · rintro ⟨sent, ⟨_, tx, processes, sig, heq, hc, hcompleting⟩, hstatus⟩
      obtain rfl := Option.some.inj heq
      exact ⟨tx, processes, sig, sent, hc, hcompleting, hstatus⟩

end Ending

section Run

variable {Address Script Hash Scalar Keyshare : Type}
  {x : Executor Address Script Hash Scalar Keyshare} {s s' : State} {t : ℕ} {r : ResourceID}
  {run : Run Keyshare} {es : List (RunEvent Keyshare)}

/-- The writes of call `t` succeed, and nobody else writes the statuses of its proposals. -/
def RunEvent.Proper (t : ℕ) (s : State) : RunEvent Keyshare → Prop
  | .goroutine .. => True
  | .other e => Btc.Proper t s e

/-- A step of the executor with its goroutines' ends is a step of the executor. -/
theorem step_of_runStep {e : RunEvent Keyshare} (h : runStep x s e = some s') :
    step s (baseEvent x s e) = some s' := by
  cases e with
  | goroutine t r run =>
    simp only [runStep] at h
    split at h
    · exact h
    · cases h
  | other e =>
    cases e <;> first | exact h | cases h

theorem baseEvent_cases (h : runStep x s (.goroutine t r run) = some s') :
    (∃ sent, (∀ sent', Sends x r (s.groupProps t r) run sent' → sent'.isOk = sent.isOk) ∧
      Sends x r (s.groupProps t r) run sent ∧
      baseEvent x s (.goroutine t r run) = .send t r sent.isOk) ∨
    (∀ sent, ¬ Sends x r (s.groupProps t r) run sent) ∧
      baseEvent x s (.goroutine t r run) = .abort t r := by
  cases hending : executeResource x r (s.groupProps t r) run with
  | panicked =>
    simp only [runStep, hending] at h
    cases h
  | returned err stored =>
    have hstored := executeResource_stored hending
    cases stored with
    | none =>
      refine .inr ⟨fun sent hsent => ?_, by simp only [baseEvent, hending]⟩
      cases (hstored _).2 ⟨sent, hsent, rfl⟩
    | some status =>
      obtain ⟨sent, hsent, rfl⟩ := (hstored status).1 rfl
      have hinj : ∀ ok ok', outcome ok = outcome ok' → ok = ok' := by decide
      refine .inl ⟨sent, fun sent' hsent' => ?_, hsent, ?_⟩
      · exact hinj _ _ (Option.some.inj ((hstored _).2 ⟨sent', hsent', rfl⟩)).symm
      · have hok : ∀ ok, decide (outcome ok = .executed) = ok := by decide
        simp only [baseEvent, hending, hok]

theorem call_started_step {e : Event} {props : List BtcTransferProposal} (hs : Step s e s')
    (h : s.call t = .started props) : s'.call t = .started props := by
  have hset : ∀ t' pc, s.call t' ≠ .started props → (s.setCall t' pc).call t = .started props := by
    intro t' pc hne
    have ht : t ≠ t' := by
      rintro rfl
      exact hne h
    simpa [ht] using h
  cases hs with
  | execute hc | lock hc | readSkip hc | readTake hc | readErr hc | mark hc | markErr hc
    | unlock hc => exact hset _ _ (by simp [hc])
  | abort | send | storeLock | store | storeErr | storeUnlock | ret | retryRead | retryErr
    | retryStore => exact h

theorem call_started_exec {props : List BtcTransferProposal}
    (h : exec (runStep x) s es = some s') (hcall : s.call t = .started props) :
    s'.call t = .started props :=
  exec_preserves (I := fun s => s.call t = .started props)
    (fun _ _ _ hcall hs => call_started_step (step_cases (step_of_runStep hs)) hcall) hcall h

/-- A goroutine runs for the proposals of its resource that the call returned with. -/
theorem groupProps_of_goroutine {m n : State} {props : List BtcTransferProposal}
    (hm : runStep x m (.goroutine t r run) = some n) (h : exec (runStep x) n es = some s)
    (hcall : s.call t = .started props) : m.groupProps t r = propsPerResource props r := by
  have hne : m.groupProps t r ≠ [] := by
    have hstep := step_cases (step_of_runStep hm)
    rcases baseEvent_cases hm with ⟨sent, -, -, hbase⟩ | ⟨-, hbase⟩
    · rw [hbase] at hstep
      cases hstep with
      | send _ hp _ => exact hp
    · rw [hbase] at hstep
      cases hstep with
      | abort hp _ => exact hp
  cases hpc : m.call t with
  | started ps =>
    have hs : s.call t = .started ps :=
      call_started_exec h (call_started_step (step_cases (step_of_runStep hm)) hpc)
    rw [hcall] at hs
    obtain rfl := CallPc.started.inj hs
    simp [State.groupProps, hpc, CallPc.startedProps]
  | idle | locking | reading | marking | failed =>
    exact absurd (by simp [State.groupProps, hpc, CallPc.startedProps, propsPerResource]) hne

/-- The run of the executor that a run with the goroutines' ends stands for. -/
def baseEvents (x : Executor Address Script Hash Scalar Keyshare) (st : PropStore)
    (es : List (RunEvent Keyshare)) : List Event :=
  Runs.outputs (runStep x) (fun s e => [baseEvent x s e]) (init st) es

variable {st : PropStore}

theorem exec_baseEvent {e : RunEvent Keyshare} (h : runStep x s e = some s') :
    exec step s [baseEvent x s e] = some s' :=
  exec_cons.2 ⟨s', step_of_runStep h, rfl⟩

theorem exec_baseEvents (h : exec (runStep x) (init st) es = some s) :
    exec step (init st) (baseEvents x st es) = some s :=
  exec_outputs (f := id) (fun _ _ _ => exec_baseEvent) h

theorem along_baseEvents (hp : Along (runStep x) (RunEvent.Proper t) (init st) es)
    (h : exec (runStep x) (init st) es = some s) :
    Along step (Proper t) (init st) (baseEvents x st es) := by
  refine along_outputs (f := id) (fun _ _ _ => exec_baseEvent) h (hp.imp fun s e he => ?_)
  refine ⟨?_, fun _ _ => trivial⟩
  cases e with
  | goroutine t' r run =>
    simp only [baseEvent]
    split <;> simp [Proper, Undisturbed]
  | other e => exact he

section Ends

variable {props : List BtcTransferProposal} (h : exec (runStep x) (init st) es = some s)
  (hcall : s.call t = .started props)

include h hcall

theorem baseEvent_of_goroutine (hrun : .goroutine t r run ∈ es) :
    ∃ m n, runStep x m (.goroutine t r run) = some n ∧
      m.groupProps t r = propsPerResource props r ∧
      baseEvent x m (.goroutine t r run) ∈ baseEvents x st es := by
  obtain ⟨pre, post, m, n, hes, hpre, hm, hpost⟩ := exec_of_mem h hrun
  refine ⟨m, n, hm, groupProps_of_goroutine hm hpost hcall, ?_⟩
  exact (mem_outputs_iff h).2 ⟨pre, _, post, m, n, hes, hpre, hm, hpost, List.mem_singleton_self _⟩

theorem goroutine_of_baseEvent {e : Event} (he : (∃ ok, e = .send t r ok) ∨ e = .abort t r)
    (hmem : e ∈ baseEvents x st es) :
    ∃ run m n, .goroutine t r run ∈ es ∧ runStep x m (.goroutine t r run) = some n ∧
      m.groupProps t r = propsPerResource props r ∧ e = baseEvent x m (.goroutine t r run) := by
  obtain ⟨pre, e', post, m, n, rfl, hpre, hm, hpost, hbase⟩ := (mem_outputs_iff h).1 hmem
  obtain rfl := List.mem_singleton.1 hbase
  cases e' with
  | other e' =>
    rcases he with ⟨ok, he⟩ | he <;>
    · obtain rfl : e' = _ := he
      cases hm
  | goroutine t' r' run =>
    obtain ⟨rfl, rfl⟩ : t' = t ∧ r' = r := by
      rcases baseEvent_cases hm with ⟨_, -, -, hbase⟩ | ⟨-, hbase⟩ <;> rw [hbase] at he
      · simpa using he
      · simpa using he
    exact ⟨run, m, n, by simp, hm, groupProps_of_goroutine hm hpost hcall, rfl⟩

theorem send_mem_iff (ok : Bool) : .send t r ok ∈ baseEvents x st es ↔
    ∃ run sent, .goroutine t r run ∈ es ∧ Sends x r (propsPerResource props r) run sent ∧
      ok = sent.isOk := by
  constructor
  · intro hmem
    obtain ⟨run, m, n, hrun, hm, hprops, hbase⟩ :=
      goroutine_of_baseEvent h hcall (.inl ⟨ok, rfl⟩) hmem
    rcases baseEvent_cases hm with ⟨sent, -, hsends, hsend⟩ | ⟨-, habort⟩
    · rw [hsend] at hbase
      exact ⟨run, sent, hrun, hprops ▸ hsends, (Event.send.inj hbase).2.2⟩
    · rw [habort] at hbase
      cases hbase
  · rintro ⟨run, sent, hrun, hsends, rfl⟩
    obtain ⟨m, n, hm, hprops, hmem⟩ := baseEvent_of_goroutine h hcall hrun
    rw [← hprops] at hsends
    rcases baseEvent_cases hm with ⟨sent', hunique, -, hsend⟩ | ⟨hnot, -⟩
    · rwa [hsend, ← hunique sent hsends] at hmem
    · exact absurd hsends (hnot sent)

theorem abort_mem_iff : .abort t r ∈ baseEvents x st es ↔
    ∃ run, .goroutine t r run ∈ es ∧ ∀ sent, ¬ Sends x r (propsPerResource props r) run sent := by
  constructor
  · intro hmem
    obtain ⟨run, m, n, hrun, hm, hprops, hbase⟩ := goroutine_of_baseEvent h hcall (.inr rfl) hmem
    rcases baseEvent_cases hm with ⟨_, -, -, hsend⟩ | ⟨hnot, -⟩
    · rw [hsend] at hbase
      cases hbase
    · exact ⟨run, hrun, hprops ▸ hnot⟩
  · rintro ⟨run, hrun, hnot⟩
    obtain ⟨m, n, hm, hprops, hmem⟩ := baseEvent_of_goroutine h hcall hrun
    rw [← hprops] at hnot
    rcases baseEvent_cases hm with ⟨sent, -, hsends, -⟩ | ⟨-, habort⟩
    · exact absurd hsends (hnot sent)
    · rwa [habort] at hmem

end Ends

/-- The status of each proposal says what `SendRawTransaction` answered for its transaction. -/
def SettledRun (x : Executor Address Script Hash Scalar Keyshare) (es : List (RunEvent Keyshare))
    (s : State) (t : ℕ) (props : List BtcTransferProposal) : Prop :=
  ∀ p ∈ props, (s.status p.key = .executed ∨ s.status p.key = .failed) ∧
    (s.status p.key = .executed ↔ ∃ run hash, .goroutine t p.data.resourceId run ∈ es ∧
      Sends x p.data.resourceId (propsPerResource props p.data.resourceId) run (.ok hash))

/-- A call that returns has settled its proposals exactly if the resource of each is configured,
the transaction and the signing processes for it could be built, and the signatures were complete
before the ticker. One that stops at a failed read leaves what it has marked pending. -/
theorem settled_iff {st : PropStore} {es : List (RunEvent Keyshare)}
    (hp : Along (runStep x) (RunEvent.Proper t) (init st) es)
    (h : exec (runStep x) (init st) es = some s) :
    (∀ props, Returned s t props →
      (SettledRun x es s t props ↔
        ∀ p ∈ props, ∀ run, .goroutine t p.data.resourceId run ∈ es →
          ∃ sent, Sends x p.data.resourceId (propsPerResource props p.data.resourceId) run sent)) ∧
    ∀ s', runStep x s (.other (.read t false)) = some s' →
      ∀ p ∈ (s.call t).collected, s'.status p.key = .pending := by
  have hexec := exec_baseEvents h
  have hproper := along_baseEvents hp h
  refine ⟨fun props hreturned => ?_, fun s' hs' => pending_of_failed_read hproper hexec hs'⟩
  have hsettled : SettledRun x es s t props ↔ Settled (baseEvents x st es) s t props := by
    unfold SettledRun Settled
    refine forall₂_congr fun p _ => and_congr_right fun _ => iff_congr Iff.rfl ?_
    rw [send_mem_iff h hreturned.1]
    constructor
    · rintro ⟨run, hash, hrun, hsends⟩
      exact ⟨run, _, hrun, hsends, rfl⟩
    · rintro ⟨run, sent, hrun, hsends, hok⟩
      cases sent with
      | error err => cases hok
      | ok hash => exact ⟨run, hash, hrun, hsends⟩
  rw [hsettled, settled_iff_not_abort hproper hexec hreturned]
  simp only [abort_mem_iff h hreturned.1, not_exists, not_and, not_forall, not_not]

end Run

/-- The order of secp256k1. -/
def secp256k1Order : ℕ := 0xFFFFFFFFFFFFFFFFFFFFFFFFFFFFFFFEBAAEDCE6AF48A03BBFD25E8CD0364141

def decodeHex (s : String) : Except String (List UInt8) :=
  let (bytes, ok) := BtcListener.hexDecode (Text.ascii s)
  if ok then .ok bytes else .error "encoding/hex: odd length hex string"

/-- A share is its secret scalar, to which the tweak is added. The hash is that of `changeTx`. -/
def sampleSigning : SigningLib String String ℕ ℕ where
  calcTaprootSignatureHash tx _ _ :=
    if tx = changeTx then
      decodeHex "c8dedd1ee2c0d605198f8fecde5a8b75f81aeeb876485766db68ee3e28949566"
    else .error "unknown transaction"
  decodeString := decodeHex
  unmarshalScalar bytes :=
    if bytes.length = 32 ∧ Bytes.toNat bytes < secp256k1Order then .ok (Bytes.toNat bytes)
    else .error "invalid length for secp256k1 scalar"
  derive share h := .ok ((share + h) % secp256k1Order)

def sampleExecutor (resources : ResourceID → Option (Resource String String)) :
    Executor String String String ℕ ℕ where
  lib := sampleLib
  signing := sampleSigning
  resources := resources

/-- The resource of `payout` is the only one. -/
def oneResource (r : ResourceID) : Option (Resource String String) :=
  if r = 5 then
    some ⟨bridgeAddress, "512079be667ef9dcbbac55a06295ce870b07029bfcdb2dce28d959f2815b16f81798",
      "c82aa6ae534bb28aaafeb3660c31d6a52e187d8f05d48bb6bdb9b733a9b42212"⟩
  else none

/-- The signature of the input arrives, and the node accepts the transaction. -/
def acceptedRun : Run ℕ where
  answers := answersOf (oneUtxo 5000)
  getKeyshare _ := .ok 7
  results := [(none, .ok ""), (some ⟨0, List.replicate 64 9⟩,
    .ok "e22052be5aec2c0e1cc8d766cd8d1f77d62319fae75492863c05e40c2be668c9")]

/-- Call 0 takes the proposal of `payout`, its goroutine runs, and the call returns; `stores` are
the steps after a status has been chosen. -/
def payoutCall (run : Run ℕ) (stores : List Event) : List (RunEvent ℕ) :=
  (takes 0 ⟨1, 4, ⟨1000, recipient, 3, 5⟩, "1-4-100-104"⟩).map .other ++
    [.goroutine 0 5 run] ++ stores.map .other

def storesAndReturns : List Event := [.storeLock 0 5, .store 0 5 true, .storeUnlock 0 5, .ret 0 5]

/-- What a run of the call leaves: the status of its proposal and where it stands. -/
def payoutState (s : State) : PropStatus × CallPc × GroupPc :=
  (s.status ⟨1, 4, 3⟩, s.call 0, s.group 0 5)

theorem returned_payout {s : State} {status : PropStatus}
    (h : payoutState s = (status, .started payout, .returned)) : Returned s 0 payout := by
  refine ⟨(Prod.mk.inj (Prod.mk.inj h).2).1, fun r hne => ?_⟩
  obtain ⟨p, hp⟩ := List.exists_mem_of_ne_nil _ hne
  obtain ⟨hp, hr⟩ := List.mem_filter.1 hp
  obtain rfl := List.mem_singleton.1 hp
  obtain rfl : 5 = r := of_decide_eq_true hr
  exact (Prod.mk.inj (Prod.mk.inj h).2).2

theorem settled_after_payment :
    ∃ s, exec (runStep (sampleExecutor oneResource)) (init fun _ => .missing)
        (payoutCall acceptedRun storesAndReturns) = some s ∧
      payoutState s = (.executed, .started payout, .returned) ∧
      SettledRun (sampleExecutor oneResource) (payoutCall acceptedRun storesAndReturns) s 0
        payout := by
  have hrun : (exec (runStep (sampleExecutor oneResource)) (init fun _ => .missing)
      (payoutCall acceptedRun storesAndReturns)).map payoutState =
        some (.executed, .started payout, .returned) := by decide +kernel
  obtain ⟨s, hs, hstate⟩ := Option.map_eq_some_iff.1 hrun
  have hproper : Along (runStep (sampleExecutor oneResource)) (RunEvent.Proper 0)
      (init fun _ => .missing) (payoutCall acceptedRun storesAndReturns) :=
    along_of_forall_mem
      (by simp [payoutCall, takes, storesAndReturns, RunEvent.Proper, Proper, Undisturbed])
  have hending : executeResource (sampleExecutor oneResource) 5 payout acceptedRun =
      .returned none (some .executed) := by decide +kernel
  obtain ⟨sent, hsends, -⟩ := (executeResource_stored hending .executed).1 rfl
  refine ⟨s, hs, hstate, ((settled_iff hproper hs).1 payout (returned_payout hstate)).2 ?_⟩
  intro p hp run hrun
  obtain rfl := List.mem_singleton.1 hp
  obtain rfl : run = acceptedRun := by
    simpa [payoutCall, takes, storesAndReturns] using hrun
  exact ⟨sent, hsends⟩

/-- Four ways to end before a status is stored: no such resource, no answer from the mempool
service, no key share, no signature before the ticker. -/
def earlyEnds : List (Executor String String String ℕ ℕ × Run ℕ) :=
  [(sampleExecutor fun _ => none, acceptedRun),
    (sampleExecutor oneResource,
      { acceptedRun with answers := { acceptedRun.answers with listing := .error "502" } }),
    (sampleExecutor oneResource,
      { acceptedRun with getKeyshare := fun _ => .error "open keyshare: no such file or directory" }),
    (sampleExecutor oneResource, { acceptedRun with results := [] })]

theorem left_pending_by_early_end : earlyEnds.map (fun early =>
    (exec (runStep early.1) (init fun _ => .missing) (payoutCall early.2 [])).map payoutState) =
      List.replicate 4 (some (.pending, .started payout, .returned)) := by
  decide +kernel

end Sygma.Btc
