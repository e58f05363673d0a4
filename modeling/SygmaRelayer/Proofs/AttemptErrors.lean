import SygmaRelayer.Proofs.AttemptSteps

/-! The errors of the processes on their way to `handleError`. They pass two pools, and each
of them combines several errors into one that the type switch does not know: what all
processes fail with reaches the switch only if there is one process and the watcher of the
first attempt has not failed as well. -/

namespace Sygma.Attempts

open Tss (Kind)
open Runs

variable {n : ℕ} {kind : Fin (n + 1) → Kind} {s s' : State n} {e : Event n}

/-- The result of a task that has ended its work. -/
def TaskPc.result : TaskPc → Option (Option Err)
  | .leaving _ result | .done result => some result
  | .idle | .electing | .starting _ | .subscribing | .waiting _ | .running _ => none

theorem runErrors_congr {a : Attempt} (h : s'.run a = s.run a) : s'.runErrors a = s.runErrors a := by
  simp [State.runErrors, h]

/-- A task gets its result when its loop ends or when its processes have returned, and no process
returns after that. -/
theorem result_step (h : Phases s) (hs : Step kind s e s') {a : Attempt} {r : Option Err}
    (hr : (s'.task a).result = some r) :
    s'.run a = s.run a ∧ ((s.task a).result = some r ∨ (∀ i, s.run a i = .idle) ∨
      r = poolWait (s.runErrors a)) := by
  cases hs with
  | @waitHandle _ _ err =>
    rw [handleError_run]
    refine ⟨rfl, Or.inl ?_⟩
    cases a with
    | first => simpa using hr
    | second =>
      obtain ⟨_, _, _, htask, _⟩ | ⟨_, _, htask, _⟩ | ⟨_, _, htask, _⟩ := handleError_cases s err
      · simp [htask, TaskPc.result] at hr
      · simp [htask, TaskPc.result] at hr
      · rwa [htask] at hr
  | @subscribeReady b | @subscribeInit b | @subscribeStart b | @launch b =>
    have ha : a ≠ b := by
      rintro rfl
      simp [TaskPc.result] at hr
    exact ⟨by simp [ha], Or.inl (by simpa [ha] using hr)⟩
  | elected =>
    cases a with
    | first => exact ⟨rfl, Or.inl (by simpa using hr)⟩
    | second => simp [TaskPc.result] at hr
  | @waitReturn b _ _ ht =>
    refine ⟨rfl, ?_⟩
    by_cases ha : a = b
    · subst ha
      exact Or.inr (Or.inl (h.before a (by rw [ht]; rfl)))
    · exact Or.inl (by simpa [ha] using hr)
  | @runsReturned b =>
    refine ⟨rfl, ?_⟩
    by_cases ha : a = b
    · subst ha
      exact Or.inr (Or.inr (by simpa [TaskPc.result] using hr.symm))
    · exact Or.inl (by simpa [ha] using hr)
  | @unSubscribe b _ _ _ ht | @taskReturn b _ ht =>
    refine ⟨rfl, Or.inl ?_⟩
    by_cases ha : a = b
    · subst ha
      simpa [ht, TaskPc.result] using hr
    · simpa [ha] using hr
  | @runSubscribe b j hrun | @runEarly b j _ hrun | @runLate b j _ hrun =>
    have ha : a ≠ b := by
      rintro rfl
      obtain ⟨subs, ht⟩ := h.running (by simp [hrun] : s.run a j = .launched ∨ s.run a j = .subscribed)
      simp [ht, TaskPc.result] at hr
    exact ⟨by simp [ha], Or.inl hr⟩
  | waitLeave | waitSecond | cancel | watchSubscribe | watchReturn | electorSubscribe =>
    exact ⟨rfl, Or.inl hr⟩
  | stop => exact ⟨by simp, Or.inl (by simpa using hr)⟩

theorem signs_step (hs : Step kind s e s')
    (h : ∀ a i late, s.run a i = .done late (some .subsetError) → (kind i).signs = true)
    {a : Attempt} {i : Fin (n + 1)} {late : Bool}
    (hr : s'.run a i = .done late (some .subsetError)) : (kind i).signs = true := by
  cases hs with
  | @runSubscribe b j | @runEarly b j _ _ hk | @runLate b j _ _ hk =>
    by_cases hsame : a = b ∧ i = j
    · obtain ⟨rfl, rfl⟩ := hsame
      simp_all [earlyResult, lateResult]
    · exact h a i late ((setRun_run_ne hsame).symm.trans hr)
  | @launch b =>
    have ha : a ≠ b := by
      rintro rfl
      simp at hr
    exact h a i late (by simpa [ha] using hr)
  | waitHandle | stop => exact h a i late (by simpa using hr)
  | _ => exact h a i late hr

/-- What is known of the results that the pools of the processes have collected. -/
structure Reported (kind : Fin (n + 1) → Kind) (s : State n) : Prop extends Phases s where
  results : ∀ a r, (s.task a).result = some r →
    (∀ i, s.run a i = .idle) ∨ r = poolWait (s.runErrors a)
  signs : ∀ a i late, s.run a i = .done late (some .subsetError) → (kind i).signs = true

theorem reported_init : Reported kind (init n) where
  toPhases := phases_init n
  results := fun _ _ _ => Or.inl fun _ => rfl
  signs := by simp [init]

theorem reported_step (h : Reported kind s) (hs : step kind s e = some s') : Reported kind s' := by
  have hs := step_cases hs
  refine ⟨phases_step h.toPhases hs, fun a r hr => ?_, fun _ _ _ => signs_step hs h.signs⟩
  obtain ⟨hrun, hresult⟩ := result_step h.toPhases hs hr
  rw [hrun, runErrors_congr hrun]
  rcases hresult with hresult | hidle | hpool
  · exact h.results a r hresult
  · exact Or.inl hidle
  · exact Or.inr hpool

theorem reported_exec {es : List (Event n)} (h : exec (step kind) (init n) es = some s) :
    Reported kind s :=
  exec_preserves (fun _ _ _ => reported_step) reported_init h

theorem poolWait_runErrors {a : Attempt} {err : Err} (hall : ∀ i, (s.run a i).error = some err) :
    poolWait (s.runErrors a) = some (if n = 0 then err else .combined) := by
  have heq : s.runErrors a = List.replicate (n + 1) err := by
    unfold State.runErrors
    simp only [hall]
    rw [List.filterMap_eq_map', List.map_const', List.length_finRange]
  rw [heq]
  cases n with
  | zero => rfl
  | succ n => rfl

theorem poolWait_execute {err x : Err} {watched : Option Err}
    (hx : x = if n = 0 then err else .combined) :
    poolWait ((some x).toList ++ watched.toList) =
      some (if n = 0 ∧ watched = none then err else .combined) := by
  subst hx
  cases watched with
  | none => by_cases hn : n = 0 <;> simp [poolWait, hn]
  | some err' => simp [poolWait]

theorem handleError_main {err : Err} {branch : Branch} (hne : branch ≠ .return) :
    (s.handleError err).main = .handling branch ↔ Attempts.handleError err = branch := by
  obtain ⟨_, hb, hmain, _⟩ | ⟨hb, hmain, _⟩ | ⟨hb, hmain, _⟩ := handleError_cases s err
  · simp [hb, hmain]
  · simp [hb, hmain]
  · simp [hb, hmain, hne.symm]

/-- The branch of `handleError` that `Execute` enters when all processes fail with `err`. -/
theorem wait_branch (h : Reported kind s) (hw : step kind s .wait = some s') {err : Err}
    (hall : ∀ i, (s.run .first i).error = some err) {branch : Branch}
    (hbranch : Attempts.handleError err = branch) (hne : branch ≠ .return) :
    s'.main = .handling branch ↔
      (kind 0).retryable = true ∧ n = 0 ∧ s.watch .first = .done none := by
  have hresult : ∀ result, s.task .first = .done result →
      result = some (if n = 0 then err else .combined) := by
    intro result ht
    rcases h.results .first result (by rw [ht]; rfl) with hidle | hpool
    · have := hall 0
      simp [hidle 0, RunPc.error] at this
    · rw [hpool, poolWait_runErrors hall]
  cases step_cases hw with
  | @waitLeave result watched _ ht hwatch hp =>
    rw [hresult result ht, poolWait_execute rfl] at hp
    simp_all
  | @waitHandle result watched err' _ ht hwatch hp hk =>
    rw [hresult result ht, poolWait_execute rfl] at hp
    have herr := Option.some.inj hp
    by_cases hone : n = 0 ∧ watched = none
    · rw [if_pos hone] at herr
      subst herr
      exact iff_of_true ((handleError_main hne).2 hbranch) ⟨hk, hone.1, hone.2 ▸ hwatch⟩
    · rw [if_neg hone] at herr
      subst herr
      rw [handleError_main hne]
      refine iff_of_false (fun hcombined => hne hcombined.symm) ?_
      rintro ⟨-, hn, hnone⟩
      rw [hwatch] at hnone
      exact hone ⟨hn, WatchPc.done.inj hnone⟩

theorem retryable_of_signs {k : Kind} (h : k.signs = true) : k.retryable = true := by
  cases k <;> simp_all [Kind.signs, Kind.retryable]

/-- `Execute` enters the branch that is meant for the error of its processes exactly if there is one
process, and its watcher has not failed. -/
theorem failure_branch_iff {es : List (Event n)} (h : exec (step kind) (init n) es = some s)
    (hw : step kind s .wait = some s') :
    ((∀ i, (s.run .first i).error = some .subsetError) →
      (s'.main = .handling .waitForStart ↔ n = 0 ∧ s.watch .first = .done none)) ∧
    ((∀ i, (s.run .first i).error = some .communicationError) →
      (s'.main = .handling (.retry []) ↔
        (kind 0).retryable = true ∧ n = 0 ∧ s.watch .first = .done none)) := by
  have hr := reported_exec h
  refine ⟨fun hall => ?_, fun hall => wait_branch hr hw hall rfl (by simp)⟩
  have hsigns : (kind 0).signs = true := by
    cases hrun : s.run .first 0 with
    | done late result =>
      have := hall 0
      rw [hrun] at this
      exact hr.signs .first 0 late (by rw [hrun]; exact congrArg _ this)
    | idle | launched | subscribed =>
      have := hall 0
      simp [hrun, RunPc.error] at this
  have hbranch : handleError .subsetError = .waitForStart := rfl
  rw [wait_branch hr hw hall hbranch (by simp)]
  exact and_iff_right (retryable_of_signs hsigns)

/-- The first attempt waits for the start message, and every process fails with `err`. -/
def allFail (n : ℕ) (err : Err) : List (Event n) :=
  [.watchSubscribe .first, .subscribe .first .init, .subscribe .first .start, .launch .first] ++
    (List.finRange (n + 1)).map (.runReturn .first · (some err)) ++
    [.runsReturned .first, .unSubscribe .first, .unSubscribe .first, .taskReturn .first,
      .watchReturn .first none]

theorem subset_branch_one_process :
    ∃ s s', exec (step fun _ => Kind.frostSigning) (init 0) (allFail 0 .subsetError) = some s ∧
      step (fun _ => Kind.frostSigning) s .wait = some s' ∧ s'.main = .handling .waitForStart := by
  refine ⟨_, _, rfl, rfl, ?_⟩
  have := @failure_branch_iff 0 (fun _ => .frostSigning) _ _ (allFail 0 .subsetError) rfl rfl
  exact (this.1 (by decide)).2 ⟨rfl, rfl⟩

/-- Two processes outside the subset: `Execute` returns instead of waiting for the next start. -/
theorem subset_branch_two_processes :
    ∃ s s', exec (step fun _ => Kind.frostSigning) (init 1) (allFail 1 .subsetError) = some s ∧
      (∀ i, (s.run .first i).error = some .subsetError) ∧
      step (fun _ => Kind.frostSigning) s .wait = some s' ∧ s'.main = .stopping 0 :=
  ⟨_, _, rfl, by decide, rfl, rfl⟩

end Sygma.Attempts
