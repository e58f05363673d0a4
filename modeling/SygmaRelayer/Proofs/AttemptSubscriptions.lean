import SygmaRelayer.Proofs.AttemptSteps

/-! Every subscription of an `Execute` call accounted for. The coordinator removes its own,
with one exception: `handleError` may return before its watcher. `Stop` removes the last
subscription of a process, so one that runs twice leaves the first, and nobody removes those
of the elector. -/

namespace Sygma.Attempts

open Tss (Kind)
open Runs

variable {n : ℕ} {kind : Fin (n + 1) → Kind} {s s' : State n} {e : Event n}

/-- `Stop` of process `i` has returned. -/
def Stopped (s : State n) (i : Fin (n + 1)) : Prop := ∃ j, s.main = .stopping j ∧ i.val < j

/-- Who has which subscription. -/
structure Accounted (s : State n) : Prop extends Phases s where
  fail : ∀ a, s.registered (.fail a) = true ↔ s.watch a = .watching
  subs : ∀ a w, s.registered (.starting a w) = true ↔ w ∈ (s.task a).subs
  nodup : ∀ a, (s.task a).subs.Nodup
  runs : ∀ a i, s.registered (.run a i) = true ↔ (s.run a i).hasSubscribed = true ∧
    ¬(Stopped s i ∧ s.subscriptionID i = some a)
  elections : ∀ k, s.registered (.elector k) = true ↔ ∃ m, s.elector = some m ∧ k.val < m
  last : ∀ i, s.subscriptionID i = if (s.run .second i).hasSubscribed then some .second
    else if (s.run .first i).hasSubscribed then some .first else none

theorem accounted_init (n : ℕ) : Accounted (init n) where
  toPhases := phases_init n
  fail := by intro a; cases a <;> simp [init]
  subs := by intro a w; cases a <;> simp [init, TaskPc.subs]
  nodup := by intro a; cases a <;> simp [init, TaskPc.subs]
  runs := by simp [init, RunPc.hasSubscribed]
  elections := by simp [init]
  last := by simp [init, RunPc.hasSubscribed]

theorem handleError_subs (hidle : s.task .second = .idle) (err : Err) :
    ((s.handleError err).task .second).subs = [] := by
  obtain ⟨_, _, _, htask, _⟩ | ⟨_, _, htask, _⟩ | ⟨_, _, htask, _⟩ := handleError_cases s err
  · rw [htask, TaskPc.subs]
  · rw [htask, TaskPc.subs]
  · rw [htask, hidle, TaskPc.subs]

theorem fail_step (h : Accounted s) (hs : Step kind s e s') (a : Attempt) :
    s'.registered (.fail a) = true ↔ s'.watch a = .watching := by
  have hfail := h.fail a
  cases hs with
  | @watchSubscribe b | @watchReturn b =>
    by_cases ha : a = b
    · subst ha
      simp
    · simpa [ha] using hfail
  | waitHandle hm =>
    cases a with
    | first => simpa using hfail
    | second =>
      have := (h.idle hm).1
      simp_all
  | stop => simpa [stop_registered] using hfail
  | _ => simpa using hfail

theorem subs_step (h : Accounted s) (hs : Step kind s e s') (a : Attempt) (w : StartSub) :
    (s'.registered (.starting a w) = true ↔ w ∈ (s'.task a).subs) := by
  have hsubs := h.subs a w
  cases hs with
  | @subscribeReady b ht | @subscribeInit b _ ht | @subscribeStart b ht =>
    by_cases ha : a = b
    · subst ha
      rw [ht] at hsubs
      cases w <;> simp_all [TaskPc.subs]
    · simpa [ha] using hsubs
  | @unSubscribe b w' subs _ ht =>
    by_cases ha : a = b
    · subst ha
      have hnodup := h.nodup a
      rw [ht] at hsubs hnodup
      by_cases hw : w = w'
      · subst hw
        simpa [TaskPc.subs] using (List.nodup_cons.1 hnodup).1
      · simpa [TaskPc.subs, hw] using hsubs
    · simpa [ha] using hsubs
  | @waitReturn b _ _ ht | @launch b _ ht | @runsReturned b _ ht | @taskReturn b _ ht =>
    by_cases ha : a = b
    · subst ha
      rw [ht] at hsubs
      simpa [TaskPc.subs] using hsubs
    · simpa [ha] using hsubs
  | elected ht =>
    cases a with
    | first => simpa using hsubs
    | second => simpa [ht, TaskPc.subs] using hsubs
  | @waitHandle _ _ err hm =>
    cases a with
    | first => simpa using hsubs
    | second =>
      have hidle := (h.idle hm).2.1
      rw [hidle] at hsubs
      rw [handleError_registered, handleError_subs hidle]
      exact hsubs
  | stop => simpa [stop_registered] using hsubs
  | _ => simpa using hsubs

theorem nodup_step (h : Accounted s) (hs : Step kind s e s') (a : Attempt) :
    (s'.task a).subs.Nodup := by
  have hnodup := h.nodup a
  cases hs with
  | @subscribeReady b | @subscribeInit b | @subscribeStart b =>
    by_cases ha : a = b
    · subst ha
      simp [TaskPc.subs]
    · simpa [ha] using hnodup
  | @unSubscribe b _ _ _ ht | @waitReturn b _ _ ht | @launch b _ ht | @runsReturned b _ ht
  | @taskReturn b _ ht =>
    by_cases ha : a = b
    · subst ha
      rw [ht] at hnodup
      simp_all [TaskPc.subs]
    · simpa [ha] using hnodup
  | elected =>
    cases a with
    | first => simpa using hnodup
    | second => simp [TaskPc.subs]
  | @waitHandle _ _ err hm =>
    cases a with
    | first => simpa using hnodup
    | second =>
      rw [handleError_subs (h.idle hm).2.1]
      exact List.nodup_nil
  | stop => simpa using hnodup
  | _ => exact hnodup

theorem elections_step (h : Accounted s) (hs : Step kind s e s') (k : Fin 6) :
    s'.registered (.elector k) = true ↔ ∃ m, s'.elector = some m ∧ k.val < m := by
  have helections := h.elections k
  cases hs with
  | @electorSubscribe j hj he =>
    rw [he] at helections
    by_cases hk : k = ⟨j, hj⟩
    · simp [hk]
    · have hne : k.val ≠ j := fun heq => hk (Fin.ext heq)
      have hsame : (s.subscribe (.elector ⟨j, hj⟩)).registered (.elector k) =
          s.registered (.elector k) := by
        simp [hk]
      apply (Iff.of_eq (congrArg (· = true) hsame)).trans
      rw [helections]
      simp only [Option.some.injEq, exists_eq_left']
      omega
  | @waitHandle _ _ err hm =>
    rw [handleError_registered, helections, (h.idle hm).2.2]
    obtain ⟨_, _, _, _, helector⟩ | ⟨_, _, _, helector⟩ | ⟨_, _, _, helector⟩ :=
      handleError_cases s err
    · simp [helector]
    · simp [helector, (h.idle hm).2.2]
    · simp [helector, (h.idle hm).2.2]
  | stop => simpa [stop_registered] using helections
  | _ => simpa using helections

theorem hasSubscribed_step (h : Phases s) (hs : Step kind s e s') {a : Attempt} {i : Fin (n + 1)}
    (he : e ≠ .runSubscribe a i) : (s'.run a i).hasSubscribed = (s.run a i).hasSubscribed := by
  cases hs with
  | @launch b _ ht =>
    by_cases ha : a = b
    · subst ha
      simp [h.before a (by rw [ht]; rfl) i, RunPc.hasSubscribed]
    · simp [ha]
  | @runSubscribe b j | @runEarly b j _ hr | @runLate b j _ hr =>
    by_cases hsame : a = b ∧ i = j
    · obtain ⟨rfl, rfl⟩ := hsame
      simp_all [RunPc.hasSubscribed]
    · exact congrArg _ (setRun_run_ne hsame)
  | waitHandle | stop => simp
  | _ => rfl

theorem last_step (h : Accounted s) (hs : Step kind s e s') (i : Fin (n + 1)) :
    s'.subscriptionID i = if (s'.run .second i).hasSubscribed then some .second
      else if (s'.run .first i).hasSubscribed then some .first else none := by
  have hlast := h.last i
  by_cases he : ∃ a, e = .runSubscribe a i
  · obtain ⟨a, rfl⟩ := he
    cases hs with
    | runSubscribe hr =>
      cases a with
      | second => simp [RunPc.hasSubscribed]
      | first =>
        -- the second attempt has not begun
        have hm := (h.main_of_running (Or.inl hr)).2 rfl
        have hidle := h.before .second (by rw [(h.idle hm).2.1]; rfl) i
        simp [hidle, RunPc.hasSubscribed]
  · have hne : ∀ a, e ≠ .runSubscribe a i := fun a ha => he ⟨a, ha⟩
    rw [hasSubscribed_step h.toPhases hs (hne .first), hasSubscribed_step h.toPhases hs (hne .second),
      ← hlast]
    cases hs with
    | @runSubscribe b j =>
      have hi : i ≠ j := by
        rintro rfl
        exact hne b rfl
      simp [hi]
    | waitHandle | stop => simp
    | _ => rfl

theorem not_stopped_of_main {i : Fin (n + 1)} (h : ∀ j, s.main = .stopping j → j = 0) :
    ¬ Stopped s i := by
  rintro ⟨j, hm, hlt⟩
  have := h j hm
  omega

theorem not_stopped_handleError (err : Err) (i : Fin (n + 1)) : ¬ Stopped (s.handleError err) i := by
  apply not_stopped_of_main
  obtain ⟨_, _, hmain, _⟩ | ⟨_, hmain, _⟩ | ⟨_, hmain, _⟩ := handleError_cases s err
  · simp [hmain]
  · simp [hmain]
  · simp [hmain, eq_comm]

theorem stopped_stop {i j : Fin (n + 1)} (hm : s.main = .stopping j.val) :
    Stopped (s.stop j) i ↔ i = j ∨ Stopped s i := by
  simp only [Stopped, stop_main, hm, MainPc.stopping.injEq, exists_eq_left', Fin.ext_iff]
  omega

theorem stop_registered_run (a : Attempt) (i j : Fin (n + 1)) :
    (s.stop j).registered (.run a i) =
      if i = j ∧ s.subscriptionID j = some a then false else s.registered (.run a i) := by
  rw [stop_registered]
  apply if_congr _ rfl rfl
  simp only [Sub.run.injEq]
  grind

theorem runs_step (h : Accounted s) (hs : Step kind s e s') (a : Attempt) (i : Fin (n + 1)) :
    s'.registered (.run a i) = true ↔ (s'.run a i).hasSubscribed = true ∧
      ¬(Stopped s' i ∧ s'.subscriptionID i = some a) := by
  have hruns := h.runs a i
  have hsame : e ≠ .runSubscribe a i →
      (s'.run a i).hasSubscribed = (s.run a i).hasSubscribed := hasSubscribed_step h.toPhases hs
  -- until the deferred function has stopped the process, it keeps what it has
  have hkeeps : ¬ Stopped s i → (s.registered (.run a i) = true ↔
      (s.run a i).hasSubscribed = true) := fun hnot => by simpa [hnot] using hruns
  cases hs with
  | @runSubscribe b j hr =>
    have hmain := (h.main_of_running (Or.inl hr)).1
    have hnot : ¬ Stopped s i := not_stopped_of_main fun j hj => absurd hj (hmain j)
    rw [and_iff_left fun hstopped => hnot hstopped.1]
    by_cases heq : a = b ∧ i = j
    · obtain ⟨rfl, rfl⟩ := heq
      simp [RunPc.hasSubscribed]
    · rw [hsame (by simpa [eq_comm] using heq), ← hkeeps hnot]
      have hne : Sub.run a i ≠ Sub.run b j := by simpa using heq
      simp [hne]
  | waitLeave hm | waitSecond hm =>
    have hnot : ¬ Stopped s.leave i := not_stopped_of_main (by simp [eq_comm])
    rw [and_iff_left fun hstopped => hnot hstopped.1]
    exact hkeeps (not_stopped_of_main (by simp [hm]))
  | @waitHandle _ _ err hm =>
    rw [and_iff_left fun hstopped => not_stopped_handleError err i hstopped.1,
      handleError_registered, handleError_run]
    exact hkeeps (not_stopped_of_main (by simp [hm]))
  | @stop j hm =>
    rw [stopped_stop hm, stop_registered_run, stop_run, stop_subscriptionID]
    by_cases hij : i = j
    · subst hij
      have hnot : ¬ Stopped s i := by simp [Stopped, hm]
      by_cases hid : s.subscriptionID i = some a
      · simp [hid]
      · simp [hid, hkeeps hnot]
    · simpa [hij] using hruns
  | _ =>
    rw [hsame (by simp)]
    simpa [Stopped] using hruns

theorem accounted_step (h : Accounted s) (hs : step kind s e = some s') : Accounted s' :=
  have hs := step_cases hs
  { toPhases := phases_step h.toPhases hs
    fail := fail_step h hs
    subs := subs_step h hs
    nodup := nodup_step h hs
    runs := runs_step h hs
    elections := elections_step h hs
    last := last_step h hs }

theorem accounted_exec {es : List (Event n)} (h : exec (step kind) (init n) es = some s) :
    Accounted s :=
  exec_preserves (fun _ _ _ => accounted_step) (accounted_init n) h

def RunTwice (s : State n) (i : Fin (n + 1)) : Prop :=
  (s.run .first i).hasSubscribed = true ∧ (s.run .second i).hasSubscribed = true

theorem Accounted.run_left (h : Accounted s) (hret : Returned s) (a : Attempt) (i : Fin (n + 1)) :
    s.registered (.run a i) = true ↔ a = .first ∧ RunTwice s i := by
  have hstopped : Stopped s i := ⟨n + 1, hret, i.isLt⟩
  rw [h.runs, h.last i]
  unfold RunTwice
  cases a <;> cases (s.run .first i).hasSubscribed <;> cases (s.run .second i).hasSubscribed <;>
    simp [hstopped]

/-- When `Execute` has returned, exactly three kinds of subscriptions can be left. -/
theorem Accounted.left (h : Accounted s) (hret : Returned s) (sub : Sub n) :
    s.registered sub = true ↔
      (sub = .fail .second ∧ s.watch .second = .watching) ∨
      (∃ i, sub = .run .first i ∧ RunTwice s i) ∨
      ∃ k m, sub = .elector k ∧ s.elector = some m ∧ k.val < m := by
  obtain ⟨⟨r, htask⟩, r', hwatch⟩ := h.past (by rw [hret]; simp)
  cases sub with
  | fail a =>
    rw [h.fail]
    cases a <;> simp [hwatch]
  | starting a w =>
    rw [h.subs]
    cases a with
    | first => simp [htask, TaskPc.subs]
    | second =>
      rcases h.ended _ hret with hidle | ⟨r, hdone⟩
      · simp [hidle, TaskPc.subs]
      · simp [hdone, TaskPc.subs]
  | run a i =>
    rw [h.run_left hret]
    simp
  | elector k =>
    rw [h.elections]
    simp

theorem first_step (h : Phases s) (hm : s.main ≠ .waiting) (hs : Step kind s e s') :
    s'.task .first = s.task .first ∧ s'.watch .first = s.watch .first := by
  obtain ⟨⟨r, htask⟩, r', hwatch⟩ := h.past hm
  cases hs with
  | @watchSubscribe a hw | @watchReturn a _ hw =>
    cases a <;> simp_all
  | @subscribeReady a ht | @subscribeInit a _ ht | @subscribeStart a ht | @waitReturn a _ _ ht
  | @launch a _ ht | @runsReturned a _ ht | @unSubscribe a _ _ _ ht | @taskReturn a _ ht =>
    cases a <;> simp_all
  | waitLeave hm' | waitHandle hm' => exact absurd hm' hm
  | elected | stop => simp
  | cancel | electorSubscribe | runSubscribe | runEarly | runLate | waitSecond => exact ⟨rfl, rfl⟩

/-- Only a `handleError` that does not come to `rp.Wait()` leaves its watcher behind. -/
def Watched (kind : Fin (n + 1) → Kind) (s : State n) : Prop :=
  ∀ i, s.main = .stopping i → s.watch .second = .launched ∨ s.watch .second = .watching →
    (s.handled kind).map handleError = some .return

theorem watched_step (h : Phases s) (hw : Watched kind s) (hs : Step kind s e s') :
    Watched kind s' := by
  intro i hm hwatch
  -- the first attempt is over, so the error stays what it was
  have hkeeps : ∀ {j}, s.main = .stopping j →
      s.watch .second = .launched ∨ s.watch .second = .watching →
      (s'.handled kind).map handleError = some .return := by
    intro j hm' hwatch'
    obtain ⟨htask, hfirst⟩ := first_step h (by simp [hm']) hs
    rw [State.handled, htask, hfirst]
    exact hw j hm' hwatch'
  cases hs with
  | waitLeave hm' => simp [(h.idle hm').1] at hwatch
  | @waitHandle result watched err hm' ht hw' hp hk =>
    obtain ⟨_, _, hmain, _⟩ | ⟨_, hmain, _⟩ | ⟨hbranch, _⟩ := handleError_cases s err
    · simp [hmain] at hm
    · simp [hmain] at hm
    · simp [State.handled, ht, hw', hp, hk, hbranch]
  | waitSecond _ _ hdone => simp [hdone] at hwatch
  | stop hm' => exact hkeeps hm' (by simpa using hwatch)
  | @watchSubscribe a hl =>
    apply hkeeps hm
    cases a with
    | first => simpa using hwatch
    | second => exact Or.inl hl
  | @watchReturn a =>
    apply hkeeps hm
    cases a with
    | first => simpa using hwatch
    | second => simp at hwatch
  | _ => exact hkeeps hm hwatch

theorem watched_exec {es : List (Event n)} (h : exec (step kind) (init n) es = some s) :
    Watched kind s := by
  have hinv : Phases s ∧ Watched kind s :=
    exec_preserves (I := fun s => Phases s ∧ Watched kind s)
      (fun _ _ _ h hs => ⟨phases_step h.1 (step_cases hs), watched_step h.1 h.2 (step_cases hs)⟩)
      ⟨phases_init n, by simp [Watched, init]⟩ h
  exact hinv.2

/-- Where a watcher stands, told by the events. -/
def WatchHistory (past : List (Event n)) (s : State n) : Prop :=
  ∀ a, (.watchSubscribe a ∈ past ↔ s.watch a = .watching ∨ ∃ r, s.watch a = .done r) ∧
    ((∃ r, .watchReturn a r ∈ past) ↔ ∃ r, s.watch a = .done r)

theorem watchHistory_step {past : List (Event n)} (hp : Phases s) (h : WatchHistory past s)
    (hs : Step kind s e s') : WatchHistory (past ++ [e]) s' := by
  intro a
  obtain ⟨hsubscribed, hreturned⟩ := h a
  simp only [List.mem_append, exists_or, hsubscribed, hreturned]
  cases hs with
  | @watchSubscribe b hw | @watchReturn b _ hw =>
    by_cases hab : a = b
    · subst hab
      simp [hw]
    · simp [hab]
  | waitHandle hm =>
    cases a with
    | first => simp
    | second => simp [(hp.idle hm).1]
  | _ => simp

theorem watchHistory_exec {es : List (Event n)} (h : exec (step kind) (init n) es = some s) :
    WatchHistory es s := by
  have hinit : WatchHistory [] (init n) := fun a => by cases a <;> simp [init]
  have hinv : Phases s ∧ WatchHistory ([] ++ es) s :=
    exec_history (G := fun _ _ => True) (I := fun past s => Phases s ∧ WatchHistory past s)
      (fun _ _ _ _ h _ hs => ⟨phases_step h.1 (step_cases hs),
        watchHistory_step h.1 h.2 (step_cases hs)⟩) ⟨phases_init n, hinit⟩ along_true h
  exact hinv.2

theorem watching_iff {es : List (Event n)} (h : exec (step kind) (init n) es = some s)
    (hret : Returned s) :
    s.watch .second = .watching ↔ (s.handled kind).map handleError = some .return ∧
      .watchSubscribe .second ∈ es ∧ ∀ r, .watchReturn .second r ∉ es := by
  obtain ⟨hsubscribed, hreturned⟩ := watchHistory_exec h .second
  rw [hsubscribed]
  constructor
  · intro hwatch
    refine ⟨watched_exec h _ hret (Or.inr hwatch), Or.inl hwatch, fun r hr => ?_⟩
    obtain ⟨r', hdone⟩ := hreturned.1 ⟨r, hr⟩
    simp [hwatch] at hdone
  · rintro ⟨-, hwatch | hdone, hnot⟩
    · exact hwatch
    · obtain ⟨r, hr⟩ := hreturned.2 hdone
      exact absurd hr (hnot r)

/-- Nothing is registered after `Execute` has returned exactly if three things did not happen:
`handleError` returned at once, for an error it does not retry after, and left its watcher
subscribed; a process subscribed in both attempts; the elector made a subscription. -/
theorem no_subscription_left_iff {es : List (Event n)}
    (h : exec (step kind) (init n) es = some s) (hret : Returned s) :
    (∀ sub, s.registered sub = false) ↔
      ¬((s.handled kind).map handleError = some .return ∧
        .watchSubscribe .second ∈ es ∧ ∀ r, .watchReturn .second r ∉ es) ∧
      (∀ i, ¬RunTwice s i) ∧ s.elector.getD 0 = 0 := by
  rw [← watching_iff h hret]
  have hacc := accounted_exec h
  have hleft := fun sub => hacc.left hret sub
  constructor
  · intro hnone
    have hgone : ∀ sub, ¬s.registered sub = true := fun sub => by simp [hnone sub]
    refine ⟨fun hwatch => ?_, fun i htwice => ?_, ?_⟩
    · exact hgone _ ((hleft (.fail .second)).2 (Or.inl ⟨rfl, hwatch⟩))
    · exact hgone _ ((hleft (.run .first i)).2 (Or.inr (Or.inl ⟨i, rfl, htwice⟩)))
    · -- the first of the elector's subscriptions is there as soon as any is
      cases hm : s.elector with
      | none => rfl
      | some m =>
        by_contra hpos
        have hlt : 0 < m := Nat.pos_of_ne_zero hpos
        exact hgone _ ((hleft (.elector 0)).2 (Or.inr (Or.inr ⟨0, m, rfl, hm, hlt⟩)))
  · rintro ⟨hwatch, htwice, helector⟩ sub
    rw [Bool.eq_false_iff, ne_eq, hleft]
    rintro (⟨-, hwatching⟩ | ⟨i, -, hi⟩ | ⟨k, m, -, hm, hlt⟩)
    · exact hwatch hwatching
    · exact htwice i hi
    · rw [hm, Option.getD_some] at helector
      omega

/-- A coordinator's first attempt with one process. -/
def firstAttempt (result : Option Err) : List (Event 0) :=
  [.watchSubscribe .first, .subscribe .first .ready, .launch .first, .runSubscribe .first 0,
    .runReturn .first 0 result, .runsReturned .first, .unSubscribe .first, .taskReturn .first,
    .watchReturn .first none, .wait]

theorem nothing_left_after_success :
    ∃ s, exec (step fun _ => .ecdsaSigning) (init 0) (firstAttempt none ++ [.stop]) = some s ∧
      Returned s ∧ ∀ sub, s.registered sub = false := by
  have hrun : exec (step fun _ => .ecdsaSigning) (init 0) (firstAttempt none ++ [.stop]) = some _ :=
    rfl
  refine ⟨_, hrun, rfl, (no_subscription_left_iff hrun rfl).2 ⟨?_, ?_, rfl⟩⟩
  · rintro ⟨-, hsubscribed, -⟩
    exact absurd hsubscribed (by decide)
  · rintro i ⟨-, hsecond⟩
    exact Bool.noConfusion hsecond

/-- A retry through the bully elector that goes well: the process is stopped, and both its first
subscription and those of the elector are left. -/
theorem subscriptions_left_by_retry :
    ∃ s, exec (step fun _ => .ecdsaSigning) (init 0)
        (firstAttempt (some .communicationError) ++
          [.watchSubscribe .second, .electorSubscribe, .elected, .subscribe .second .ready,
            .launch .second, .runSubscribe .second 0, .runReturn .second 0 none,
            .runsReturned .second, .unSubscribe .second, .taskReturn .second,
            -- nobody cancels the watcher of `handleError`: it ends with its timer
            .watchReturn .second (some .other), .waitSecond, .stop]) = some s ∧
      Returned s ∧ s.registered (.run .first 0) = true ∧ s.registered (.elector 0) = true :=
  ⟨_, rfl, rfl, rfl, rfl⟩

end Sygma.Attempts
