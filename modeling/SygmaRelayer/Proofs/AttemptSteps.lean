import SygmaRelayer.Spec.Attempts

/-! What one step of an `Execute` call can do, and how its parts hang together: the second
attempt begins when the first is over, processes run while their task waits for them, and
when the deferred function runs, everything but the watcher of `handleError` and the
elector's listener has ended. -/

namespace Sygma.Attempts

open Tss (Kind)

variable {n : ℕ} {kind : Fin (n + 1) → Kind} {s s' : State n} {e : Event n}

/-- `Stop` of process `i`. -/
def State.stop (s : State n) (i : Fin (n + 1)) : State n :=
  { (match s.subscriptionID i with
      | some a => s.unSubscribe (.run a i)
      | none => s) with main := .stopping (i + 1) }

/-- The transitions of `step`, one constructor for each branch. -/
inductive Step (kind : Fin (n + 1) → Kind) (s : State n) : Event n → State n → Prop
  | cancel : Step kind s .cancel { s with cancelled := true }
  | watchSubscribe {a} (hw : s.watch a = .launched) :
    Step kind s (.watchSubscribe a) ((s.subscribe (.fail a)).setWatch a .watching)
  | watchReturn {a result} (hw : s.watch a = .watching)
    (hr : watchResult (s.ctxDone a) result = true) :
    Step kind s (.watchReturn a result) ((s.unSubscribe (.fail a)).setWatch a (.done result))
  | electorSubscribe {k} (hk : k < 6) (he : s.elector = some k) :
    Step kind s .electorSubscribe { s.subscribe (.elector ⟨k, hk⟩) with elector := some (k + 1) }
  | elected (ht : s.task .second = .electing) :
    Step kind s .elected (s.setTask .second (.starting true))
  | subscribeReady {a} (ht : s.task a = .starting true) :
    Step kind s (.subscribe a .ready)
      ((s.subscribe (.starting a .ready)).setTask a (.waiting [.ready]))
  | subscribeInit {a b} (ht : s.task a = .starting b) :
    Step kind s (.subscribe a .init) ((s.subscribe (.starting a .init)).setTask a .subscribing)
  | subscribeStart {a} (ht : s.task a = .subscribing) :
    Step kind s (.subscribe a .start)
      ((s.subscribe (.starting a .start)).setTask a (.waiting [.start, .init]))
  | waitReturn {a subs result} (ht : s.task a = .waiting subs)
    (hr : waitResult (s.ctxDone a) subs result = true) :
    Step kind s (.waitReturn a result) (s.setTask a (.leaving subs result))
  | launch {a subs} (ht : s.task a = .waiting subs) :
    Step kind s (.launch a)
      { s.setTask a (.running subs) with run := Function.update s.run a fun _ => .launched }
  | runSubscribe {a i} (hr : s.run a i = .launched) :
    Step kind s (.runSubscribe a i) { (s.subscribe (.run a i)).setRun a i .subscribed with
      subscriptionID := Function.update s.subscriptionID i (some a) }
  | runEarly {a i result} (hr : s.run a i = .launched) (hk : earlyResult (kind i) result = true) :
    Step kind s (.runReturn a i result) (s.setRun a i (.done false result))
  | runLate {a i result} (hr : s.run a i = .subscribed) (hl : lateResult result = true) :
    Step kind s (.runReturn a i result) (s.setRun a i (.done true result))
  | runsReturned {a subs} (ht : s.task a = .running subs)
    (hall : ∀ i, s.run a i ≠ .launched ∧ s.run a i ≠ .subscribed) :
    Step kind s (.runsReturned a) (s.setTask a (.leaving subs (poolWait (s.runErrors a))))
  | unSubscribe {a w subs result} (ht : s.task a = .leaving (w :: subs) result) :
    Step kind s (.unSubscribe a)
      ((s.unSubscribe (.starting a w)).setTask a (.leaving subs result))
  | taskReturn {a result} (ht : s.task a = .leaving [] result) :
    Step kind s (.taskReturn a) { s.setTask a (.done result) with
      cancelled := s.cancelled || (a = .first && result.isNone) }
  | waitLeave {result watched} (hm : s.main = .waiting) (ht : s.task .first = .done result)
    (hw : s.watch .first = .done watched)
    (hp : poolWait (result.toList ++ watched.toList) = none ∨ (kind 0).retryable = false) :
    Step kind s .wait s.leave
  | waitHandle {result watched err} (hm : s.main = .waiting) (ht : s.task .first = .done result)
    (hw : s.watch .first = .done watched)
    (hp : poolWait (result.toList ++ watched.toList) = some err)
    (hk : (kind 0).retryable = true) :
    Step kind s .wait (s.handleError err)
  | waitSecond {branch result watched} (hm : s.main = .handling branch)
    (ht : s.task .second = .done result) (hw : s.watch .second = .done watched) :
    Step kind s .waitSecond s.leave
  | stop {i} (hm : s.main = .stopping i.val) : Step kind s .stop (s.stop i)

theorem step_cases (h : step kind s e = some s') : Step kind s e s' := by
  cases e with
  | cancel =>
    cases h
    exact .cancel
  | watchSubscribe a =>
    simp only [step] at h
    split at h
    · cases h; exact .watchSubscribe ‹_›
    · cases h
  | watchReturn a result =>
    simp only [step] at h
    split at h
    · split_ifs at h with hr
      cases h; exact .watchReturn ‹_› hr
    · cases h
  | electorSubscribe =>
    simp only [step] at h
    split at h
    · split_ifs at h with hk
      cases h; exact .electorSubscribe hk ‹_›
    · cases h
  | elected =>
    simp only [step] at h
    split at h
    · cases h; exact .elected ‹_›
    · cases h
  | subscribe a w =>
    simp only [step] at h
    split at h
    · cases h; exact .subscribeReady ‹_›
    · cases h; exact .subscribeInit ‹_›
    · cases h; exact .subscribeStart ‹_›
    · cases h
  | waitReturn a result =>
    simp only [step] at h
    split at h
    · split_ifs at h with hr
      cases h; exact .waitReturn ‹_› hr
    · cases h
  | launch a =>
    simp only [step] at h
    split at h
    · cases h; exact .launch ‹_›
    · cases h
  | runSubscribe a i =>
    simp only [step] at h
    split at h
    · cases h; exact .runSubscribe ‹_›
    · cases h
  | runReturn a i result =>
    simp only [step] at h
    split at h
    · split_ifs at h with hk
      cases h; exact .runEarly ‹_› hk
    · split_ifs at h with hl
      cases h; exact .runLate ‹_› hl
    · cases h
  | runsReturned a =>
    simp only [step] at h
    split at h
    · split_ifs at h with hall
      cases h; exact .runsReturned ‹_› hall
    · cases h
  | unSubscribe a =>
    simp only [step] at h
    split at h
    · cases h; exact .unSubscribe ‹_›
    · cases h
  | taskReturn a =>
    simp only [step] at h
    split at h
    · cases h; exact .taskReturn ‹_›
    · cases h
  | wait =>
    simp only [step] at h
    split at h
    · split at h
      · cases h; exact .waitLeave ‹_› ‹_› ‹_› (Or.inl ‹_›)
      · split_ifs at h with hk
        · cases h; exact .waitHandle ‹_› ‹_› ‹_› ‹_› hk
        · cases h; exact .waitLeave ‹_› ‹_› ‹_› (Or.inr (by simpa using hk))
    · cases h
  | waitSecond =>
    simp only [step] at h
    split at h
    · cases h; exact .waitSecond ‹_› ‹_› ‹_›
    · cases h
  | stop =>
    simp only [step] at h
    split at h
    · split_ifs at h with hi
      rename_i i hm
      cases h
      exact .stop (i := ⟨i, hi⟩) hm
    · cases h

section Fields

variable (s) (err : Err) (i : Fin (n + 1))

@[simp] theorem leave_main : s.leave.main = .stopping 0 := rfl
@[simp] theorem leave_watch : s.leave.watch = s.watch := rfl
@[simp] theorem leave_task : s.leave.task = s.task := rfl
@[simp] theorem leave_run : s.leave.run = s.run := rfl
@[simp] theorem leave_subscriptionID : s.leave.subscriptionID = s.subscriptionID := rfl
@[simp] theorem leave_elector : s.leave.elector = s.elector := rfl
@[simp] theorem leave_registered : s.leave.registered = s.registered := rfl

theorem stop_eq : s.stop i =
    { s with registered := (s.stop i).registered, main := .stopping (i + 1) } := by
  unfold State.stop
  cases s.subscriptionID i <;> rfl

@[simp] theorem stop_main : (s.stop i).main = .stopping (i + 1) := by rw [stop_eq]
@[simp] theorem stop_watch : (s.stop i).watch = s.watch := by rw [stop_eq]
@[simp] theorem stop_task : (s.stop i).task = s.task := by rw [stop_eq]
@[simp] theorem stop_run : (s.stop i).run = s.run := by rw [stop_eq]
@[simp] theorem stop_subscriptionID : (s.stop i).subscriptionID = s.subscriptionID := by rw [stop_eq]
@[simp] theorem stop_elector : (s.stop i).elector = s.elector := by rw [stop_eq]

theorem stop_registered (sub : Sub n) :
    (s.stop i).registered sub =
      if ∃ a, s.subscriptionID i = some a ∧ sub = .run a i then false else s.registered sub := by
  unfold State.stop
  cases h : s.subscriptionID i with
  | none => simp
  | some a => simp [Function.update_apply]

/-- `handleError` launches the watcher of the second attempt and changes nothing of the first. -/
theorem handleError_eq : s.handleError err = { s with
    main := (s.handleError err).main
    cancelled := (s.handleError err).cancelled
    watch := Function.update s.watch .second .launched
    task := Function.update s.task .second ((s.handleError err).task .second)
    elector := (s.handleError err).elector } := by
  unfold State.handleError
  cases Attempts.handleError err <;> simp [State.leave]

@[simp] theorem handleError_watch :
    (s.handleError err).watch = Function.update s.watch .second .launched := by
  rw [handleError_eq]
@[simp] theorem handleError_task_first : (s.handleError err).task .first = s.task .first := by
  rw [handleError_eq]
  rfl
@[simp] theorem handleError_run : (s.handleError err).run = s.run := by rw [handleError_eq]
@[simp] theorem handleError_subscriptionID :
    (s.handleError err).subscriptionID = s.subscriptionID := by
  rw [handleError_eq]
@[simp] theorem handleError_registered : (s.handleError err).registered = s.registered := by
  rw [handleError_eq]

theorem handleError_cases :
    (∃ excludedPeers, Attempts.handleError err = .retry excludedPeers ∧
      (s.handleError err).main = .handling (.retry excludedPeers) ∧
      (s.handleError err).task .second = .electing ∧ (s.handleError err).elector = some 0) ∨
    (Attempts.handleError err = .waitForStart ∧ (s.handleError err).main = .handling .waitForStart ∧
      (s.handleError err).task .second = .starting false ∧
      (s.handleError err).elector = s.elector) ∨
    (Attempts.handleError err = .return ∧ (s.handleError err).main = .stopping 0 ∧
      (s.handleError err).task .second = s.task .second ∧
      (s.handleError err).elector = s.elector) := by
  unfold State.handleError
  cases Attempts.handleError err <;> simp [State.leave]

end Fields

/-- The processes have not been launched yet. -/
def TaskPc.beforeRun : TaskPc → Bool
  | .idle | .electing | .starting _ | .subscribing | .waiting _ => true
  | .running _ | .leaving _ _ | .done _ => false

/-- The task waits for nothing any more. -/
def TaskPc.afterRun : TaskPc → Bool
  | .leaving _ _ | .done _ => true
  | .idle | .electing | .starting _ | .subscribing | .waiting _ | .running _ => false

/-- How the parts of the call hang together. -/
structure Phases (s : State n) : Prop where
  idle : s.main = .waiting → s.watch .second = .idle ∧ s.task .second = .idle ∧ s.elector = none
  past : s.main ≠ .waiting → (∃ r, s.task .first = .done r) ∧ ∃ r, s.watch .first = .done r
  ended : ∀ i, s.main = .stopping i → s.task .second = .idle ∨ ∃ r, s.task .second = .done r
  before : ∀ a, (s.task a).beforeRun = true → ∀ i, s.run a i = .idle
  after : ∀ a, (s.task a).afterRun = true → ∀ i, s.run a i ≠ .launched ∧ s.run a i ≠ .subscribed

theorem phases_init (n : ℕ) : Phases (init n) where
  idle := by simp [init]
  past := by simp [init]
  ended := by simp [init]
  before := by simp [init]
  after := by simp [init]

theorem idle_step (h : Phases s) (hs : Step kind s e s') (hm : s'.main = .waiting) :
    s'.watch .second = .idle ∧ s'.task .second = .idle ∧ s'.elector = none := by
  cases hs with
  | @waitHandle _ _ err =>
    obtain ⟨_, _, hmain, _⟩ | ⟨_, hmain, _⟩ | ⟨_, hmain, _⟩ := handleError_cases s err <;>
      simp [hmain] at hm
  | waitLeave | waitSecond | stop => simp at hm
  | @watchSubscribe a | @watchReturn a | @subscribeReady a | @subscribeInit a | @subscribeStart a
  | @waitReturn a | @launch a | @runsReturned a | @unSubscribe a | @taskReturn a =>
    have := h.idle hm
    cases a <;> simp_all
  | electorSubscribe | elected =>
    have := h.idle hm
    simp_all
  | cancel | runSubscribe | runEarly | runLate => exact h.idle hm

theorem past_step (h : Phases s) (hs : Step kind s e s') (hm : s'.main ≠ .waiting) :
    (∃ r, s'.task .first = .done r) ∧ ∃ r, s'.watch .first = .done r := by
  cases hs with
  | waitLeave _ ht hw => exact ⟨⟨_, ht⟩, _, hw⟩
  | waitHandle _ ht hw => exact ⟨⟨_, by simpa using ht⟩, _, by simpa using hw⟩
  | waitSecond hm' | stop hm' => simpa using h.past (by simp [hm'])
  | @watchSubscribe a | @watchReturn a | @subscribeReady a | @subscribeInit a | @subscribeStart a
  | @waitReturn a | @launch a | @runsReturned a | @unSubscribe a | @taskReturn a =>
    obtain ⟨⟨r, ht⟩, r', hw⟩ := h.past hm
    cases a <;> simp_all
  | elected => simpa using h.past hm
  | cancel | electorSubscribe | runSubscribe | runEarly | runLate => exact h.past hm

theorem ended_step (h : Phases s) (hs : Step kind s e s') {i : ℕ} (hm : s'.main = .stopping i) :
    s'.task .second = .idle ∨ ∃ r, s'.task .second = .done r := by
  cases hs with
  | waitLeave hm' => exact Or.inl (h.idle hm').2.1
  | @waitHandle _ _ err hm' =>
    obtain ⟨_, _, hmain, _⟩ | ⟨_, hmain, _⟩ | ⟨_, _, htask, _⟩ := handleError_cases s err
    · simp [hmain] at hm
    · simp [hmain] at hm
    · exact Or.inl (htask.trans (h.idle hm').2.1)
  | waitSecond _ ht => exact Or.inr ⟨_, ht⟩
  | stop hm' => simpa using h.ended _ hm'
  | @subscribeReady a | @subscribeInit a | @subscribeStart a
  | @waitReturn a | @launch a | @runsReturned a | @unSubscribe a | @taskReturn a =>
    rcases h.ended i hm with ht | ⟨r, ht⟩ <;> cases a <;> simp_all
  | elected => rcases h.ended i hm with ht | ⟨r, ht⟩ <;> simp_all
  | cancel | watchSubscribe | watchReturn | electorSubscribe | runSubscribe | runEarly | runLate =>
    exact h.ended i hm

theorem setRun_run_ne {a b : Attempt} {i j : Fin (n + 1)} {pc : RunPc} (h : ¬(b = a ∧ j = i)) :
    (s.setRun a i pc).run b j = s.run b j := by
  by_cases hb : b = a
  · subst hb
    have hj : j ≠ i := fun hj => h ⟨rfl, hj⟩
    simp [hj]
  · simp [hb]

theorem before_step (h : Phases s) (hs : Step kind s e s') {a : Attempt}
    (hb : (s'.task a).beforeRun = true) (i : Fin (n + 1)) : s'.run a i = .idle := by
  cases hs with
  | @waitHandle _ _ err hm =>
    rw [handleError_run]
    cases a with
    | first => exact h.before .first (by simpa using hb) i
    | second => exact h.before .second (by rw [(h.idle hm).2.1]; rfl) i
  | @subscribeReady b ht | @subscribeInit b _ ht | @subscribeStart b ht =>
    by_cases ha : a = b
    · subst ha
      exact h.before a (by rw [ht]; rfl) i
    · exact h.before a (by simpa [ha] using hb) i
  | @waitReturn b | @launch b | @runsReturned b | @unSubscribe b | @taskReturn b =>
    have ha : a ≠ b := by
      rintro rfl
      simp [TaskPc.beforeRun] at hb
    simpa [ha] using h.before a (by simpa [ha] using hb) i
  | elected ht =>
    cases a with
    | first => exact h.before .first (by simpa using hb) i
    | second => exact h.before .second (by rw [ht]; rfl) i
  | @runSubscribe b j hr | @runEarly b j _ hr _ | @runLate b j _ hr _ =>
    have hidle := h.before a hb
    have hne : ¬(a = b ∧ i = j) := by
      rintro ⟨rfl, rfl⟩
      simp [hidle i] at hr
    exact (setRun_run_ne hne).trans (hidle i)
  | waitLeave | waitSecond | cancel | watchSubscribe | watchReturn | electorSubscribe =>
    exact h.before a hb i
  | stop => simpa using h.before a (by simpa using hb) i

theorem after_step (h : Phases s) (hs : Step kind s e s') {a : Attempt}
    (hb : (s'.task a).afterRun = true) (i : Fin (n + 1)) :
    s'.run a i ≠ .launched ∧ s'.run a i ≠ .subscribed := by
  cases hs with
  | @waitHandle _ _ err hm =>
    rw [handleError_run]
    cases a with
    | first => exact h.after .first (by simpa using hb) i
    | second => simp [h.before .second (by rw [(h.idle hm).2.1]; rfl) i]
  | @subscribeReady b | @subscribeInit b | @subscribeStart b | @launch b =>
    have ha : a ≠ b := by
      rintro rfl
      simp [TaskPc.afterRun] at hb
    simpa [ha] using h.after a (by simpa [ha] using hb) i
  | @waitReturn b _ _ ht =>
    by_cases ha : a = b
    · -- the processes were never launched
      subst ha
      simp [h.before a (by rw [ht]; rfl) i]
    · exact h.after a (by simpa [ha] using hb) i
  | @runsReturned b _ _ hall =>
    by_cases ha : a = b
    · subst ha
      exact hall i
    · exact h.after a (by simpa [ha] using hb) i
  | @unSubscribe b _ _ _ ht | @taskReturn b _ ht =>
    by_cases ha : a = b
    · subst ha
      exact h.after a (by rw [ht]; rfl) i
    · exact h.after a (by simpa [ha] using hb) i
  | elected ht =>
    cases a with
    | first => exact h.after .first (by simpa using hb) i
    | second => simp [TaskPc.afterRun] at hb
  | @runSubscribe b j hr | @runEarly b j _ hr _ | @runLate b j _ hr _ =>
    have hafter := h.after a hb
    have hne : ¬(a = b ∧ i = j) := by
      rintro ⟨rfl, rfl⟩
      simpa [hr] using hafter i
    exact ⟨fun hl => (hafter i).1 ((setRun_run_ne hne).symm.trans hl),
      fun hl => (hafter i).2 ((setRun_run_ne hne).symm.trans hl)⟩
  | waitLeave | waitSecond | cancel | watchSubscribe | watchReturn | electorSubscribe =>
    exact h.after a hb i
  | stop => simpa using h.after a (by simpa using hb) i

theorem phases_step (h : Phases s) (hs : Step kind s e s') : Phases s' where
  idle := idle_step h hs
  past := past_step h hs
  ended := fun _ => ended_step h hs
  before := fun _ => before_step h hs
  after := fun _ => after_step h hs

theorem Phases.running (h : Phases s) {a : Attempt} {i : Fin (n + 1)}
    (hr : s.run a i = .launched ∨ s.run a i = .subscribed) :
    ∃ subs, s.task a = .running subs := by
  have hbefore := h.before a
  have hafter := h.after a
  cases ht : s.task a with
  | running subs => exact ⟨subs, rfl⟩
  | idle | electing | starting | subscribing | waiting =>
    have := hbefore (by rw [ht]; rfl) i
    simp [this] at hr
  | leaving | done =>
    have := hafter (by rw [ht]; rfl) i
    simp [this] at hr

/-- While a process runs the deferred function does not, and a process of the first attempt runs
before the second attempt has begun. -/
theorem Phases.main_of_running (h : Phases s) {a : Attempt} {i : Fin (n + 1)}
    (hr : s.run a i = .launched ∨ s.run a i = .subscribed) :
    (∀ j, s.main ≠ .stopping j) ∧ (a = .first → s.main = .waiting) := by
  obtain ⟨subs, ht⟩ := h.running hr
  cases a with
  | first =>
    have hm : s.main = .waiting := by
      by_contra hm
      obtain ⟨⟨r, hdone⟩, -⟩ := h.past hm
      simp [ht] at hdone
    exact ⟨fun j => by simp [hm], fun _ => hm⟩
  | second =>
    refine ⟨fun j hm => ?_, fun ha => by cases ha⟩
    rcases h.ended j hm with hidle | ⟨r, hdone⟩
    · simp [ht] at hidle
    · simp [ht] at hdone

end Sygma.Attempts
