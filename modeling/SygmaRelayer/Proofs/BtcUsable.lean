import SygmaRelayer.Proofs.BtcSteps

/-! Can `propMutex` always be taken again? `proposalsForExecution` unlocks it on its last line
only, so an error on the way leaves it locked, and the statuses it has marked stay pending. As
long as no access to the store fails there, whoever holds the mutex gets to its unlock. -/

namespace Sygma.Btc

open Runs

variable {s s' : State} {e : Event} {t : ℕ}

/-- An access of `proposalsForExecution` to the store fails. -/
def Event.Fails : Event → Prop
  | .read _ ok | .mark _ ok => ok = false
  | _ => False

section Own

/-- The steps of `proposalsForExecution` in call `t`. -/
def Event.OfCall (t : ℕ) : Event → Prop
  | .lock t' | .read t' _ | .mark t' _ | .unlock t' => t' = t
  | _ => False

/-- What the steps `past` of call `t` have done to the statuses `st`. -/
structure MarksOf (t : ℕ) (st : PropStore) (past : List Event) (s : State) : Prop where
  locked : (s.call t).locked → s.propMutex = true
  pending : ∀ k, s.status k = st k ∨ s.status k = .pending
  unmarked : Event.mark t true ∉ past → s.status = st
  marked : Event.mark t true ∈ past → ∃ k, st k ≠ .pending ∧ s.status k = .pending
  marking : ∀ p todo props, s.call t = .marking p todo props → isExecuted (s.status p.key) = false

theorem MarksOf.frame {st : PropStore} {past : List Event} (h : MarksOf t st past s)
    (hstatus : s'.status = s.status) (he : e ≠ .mark t true)
    (hlocked : (s'.call t).locked → s'.propMutex = true)
    (hmarking : ∀ p todo props, s'.call t = .marking p todo props →
      isExecuted (s.status p.key) = false) : MarksOf t st (past ++ [e]) s' := by
  have hmem : Event.mark t true ∈ past ++ [e] ↔ Event.mark t true ∈ past := by
    simp [he.symm]
  refine ⟨hlocked, ?_, ?_, ?_, ?_⟩
  · rw [hstatus]
    exact h.pending
  · rw [hstatus, hmem]
    exact h.unmarked
  · rw [hstatus, hmem]
    exact h.marked
  · rw [hstatus]
    exact hmarking

theorem marksOf_step {st : PropStore} {past : List Event} (h : MarksOf t st past s)
    (he : e.OfCall t) (hs : Step s e s') : MarksOf t st (past ++ [e]) s' := by
  have hlocked := h.locked
  cases hs with
  | lock hc =>
    obtain rfl := he
    exact h.frame rfl (by simp) (fun _ => rfl) (by simp)
  | readSkip hc hx =>
    obtain rfl := he
    exact h.frame rfl (by simp) (fun _ => hlocked (by simp [hc, CallPc.locked])) (by simp)
  | readTake hc hx =>
    obtain rfl := he
    refine h.frame rfl (by simp) (fun _ => hlocked (by simp [hc, CallPc.locked])) ?_
    intro p todo props hp
    obtain ⟨rfl, -, -⟩ : _ ∧ _ ∧ _ := by simpa using hp
    exact hx
  | readErr hc | markErr hc =>
    obtain rfl := he
    exact h.frame rfl (by simp) (fun _ => hlocked (by simp [hc, CallPc.locked])) (by simp)
  | @mark _ p todo props hc =>
    obtain rfl := he
    -- the status allowed an execution, so it is one the call has not marked
    have hx := h.marking p todo props hc
    have hold : st p.key ≠ .pending := by
      rcases h.pending p.key with hst | hst
      · rw [← hst]
        intro hpending
        simp [hpending, isExecuted] at hx
      · simp [hst, isExecuted] at hx
    refine ⟨fun _ => hlocked (by simp [hc, CallPc.locked]), fun k => ?_,
      fun hnot => absurd (by simp) hnot, fun _ => ⟨p.key, hold, by simp⟩, by simp⟩
    by_cases hk : k = p.key
    · simp [hk]
    · simpa [hk] using h.pending k
  | unlock hc =>
    obtain rfl := he
    exact h.frame rfl (by simp) (by simp [CallPc.locked]) (by simp)
  | execute | abort | send | storeLock | store | storeErr | storeUnlock | ret | retryRead |
    retryStore | retryErr => cases he

theorem left_by_error {proposals : List Proposal} {es : List Event}
    (hcall : s.call t = .locking proposals) (hown : ∀ e ∈ es, e.OfCall t)
    (hrun : exec step s es = some s') (hfailed : s'.call t = .failed) :
    s'.propMutex = true ∧ (s'.status = s.status ↔ Event.mark t true ∉ es) := by
  have hstart : MarksOf t s.status [] s :=
    ⟨by simp [hcall, CallPc.locked], fun _ => Or.inl rfl, fun _ => rfl, by simp, by simp [hcall]⟩
  have hend := exec_history (fun _ _ _ _ hi he hs => marksOf_step hi he (step_cases hs)) hstart
    (along_of_forall_mem fun e he _ => hown e he) hrun
  rw [List.nil_append] at hend
  refine ⟨hend.locked (by simp [hfailed, CallPc.locked]), fun hsame hmarked => ?_, hend.unmarked⟩
  obtain ⟨k, hold, hnew⟩ := hend.marked hmarked
  exact hold (by rw [← hsame, hnew])

end Own

section Failed

/-- Some call has returned an error from `proposalsForExecution`. -/
def SomeFailed (s : State) : Prop := ∃ t, s.call t = .failed

theorem someFailed_setCall {pc : CallPc} (hold : s.call t ≠ .failed) (hnew : pc ≠ .failed) :
    SomeFailed (s.setCall t pc) ↔ SomeFailed s := by
  refine ⟨?_, ?_⟩
  · rintro ⟨t', h⟩
    rcases setCall_cases (P := fun pc => pc = .failed) h with ⟨-, hpc⟩ | h
    · exact absurd hpc hnew
    · exact ⟨t', h⟩
  · rintro ⟨t', h⟩
    have ht : t' ≠ t := fun heq => hold (heq ▸ h)
    exact ⟨t', by simpa [ht] using h⟩

theorem someFailed_step (hs : Step s e s') : SomeFailed s' ↔ SomeFailed s ∨ e.Fails := by
  cases hs with
  | execute hc | lock hc | readSkip hc | readTake hc | mark hc | unlock hc =>
    simp only [Event.Fails, Bool.true_eq_false, or_false]
    exact someFailed_setCall (by simp [hc]) (by simp)
  | @readErr t _ _ _ hc | @markErr t _ _ _ hc =>
    simp only [Event.Fails, or_true, iff_true]
    exact ⟨t, by simp⟩
  | abort | send | storeLock | store | storeErr | storeUnlock | ret | retryRead | retryStore |
    retryErr =>
    simp only [Event.Fails, or_false]
    rfl

theorem someFailed_iff {st : PropStore} {es : List Event} (h : exec step (init st) es = some s) :
    SomeFailed s ↔ ∃ e ∈ es, e.Fails := by
  have hinit : SomeFailed (init st) ↔ ∃ e ∈ ([] : List Event), e.Fails := by
    simp [SomeFailed, init]
  have hall := exec_history (I := fun past s => SomeFailed s ↔ ∃ e ∈ past, e.Fails) ?_ hinit
    along_true h
  · rwa [List.nil_append] at hall
  · intro past s e s' hi _ hs
    rw [someFailed_step (step_cases hs), hi]
    simp [or_and_right, exists_or]

end Failed

section Held

theorem inside_setCall_of {pc : CallPc} (hpc : (s.call t).locked → pc.locked) {a : Thread}
    (h : Inside s a) : Inside (s.setCall t pc) a := by
  rcases a with t' | ⟨t', r⟩
  · by_cases ht : t' = t
    · subst ht
      simpa [Inside] using hpc h
    · simpa [Inside, ht] using h
  · exact h

theorem inside_setGroup_of {r : ResourceID} {pc : GroupPc}
    (hpc : (s.group t r).locked → pc.locked) {a : Thread} (h : Inside s a) :
    Inside (s.setGroup t r pc) a := by
  rcases a with t' | ⟨t', r'⟩
  · exact h
  · by_cases ht : t' = t
    · subst ht
      by_cases hr : r' = r
      · subst hr
        simpa [Inside] using hpc h
      · simpa [Inside, hr] using h
    · simpa [Inside, ht] using h

theorem held_step (h : Mutex.Held s.propMutex (Inside s)) (hs : Step s e s') :
    Mutex.Held s'.propMutex (Inside s') := by
  cases hs with
  | @lock t _ hc hm => exact fun _ => ⟨.call t, by simp [Inside, CallPc.locked]⟩
  | @storeLock t r _ hg hm => exact fun _ => ⟨.store t r, by simp [Inside, GroupPc.locked]⟩
  | unlock hc | storeUnlock hg => exact fun hflag => by simp at hflag
  | execute hc | readSkip hc | readTake hc | readErr hc | mark hc | markErr hc =>
    exact h.mono fun _ ha => inside_setCall_of (by simp [hc, CallPc.locked]) ha
  | abort _ hg | send _ _ hg | store hg | storeErr hg | ret hg =>
    exact h.mono fun _ ha => inside_setGroup_of (by simp [hg, GroupPc.locked]) ha
  | retryRead | retryStore | retryErr => exact h

end Held

section Release

/-- Whoever waits for the mutex still does. -/
structure Waits (s s' : State) : Prop where
  call : ∀ t ps, s.call t = .locking ps → s'.call t = .locking ps
  group : ∀ t r v, s.group t r = .locking v → s'.group t r = .locking v

theorem Waits.trans {s'' : State} (h : Waits s s') (h' : Waits s' s'') : Waits s s'' :=
  ⟨fun t ps ht => h'.call t ps (h.call t ps ht), fun t r v hr => h'.group t r v (h.group t r v hr)⟩

theorem waits_of_call {pc : CallPc} (ht : ∀ ps, s.call t ≠ .locking ps)
    (hcall : s'.call = Function.update s.call t pc) (hgroup : s'.group = s.group) :
    Waits s s' := by
  refine ⟨?_, ?_⟩
  · intro u ps hu
    have hne : u ≠ t := fun heq => ht ps (heq ▸ hu)
    rw [hcall, Function.update_of_ne hne]
    exact hu
  · rw [hgroup]
    exact fun _ _ _ => id

theorem waits_of_group {r : ResourceID} {pc : GroupPc} (hr : ∀ v, s.group t r ≠ .locking v)
    (hcall : s'.call = s.call)
    (hgroup : s'.group = Function.update s.group t (Function.update (s.group t) r pc)) :
    Waits s s' := by
  refine ⟨?_, ?_⟩
  · rw [hcall]
    exact fun _ _ => id
  · intro u r' v hu
    rw [hgroup]
    by_cases ht : u = t
    · subst ht
      have hne : r' ≠ r := fun heq => hr v (heq ▸ hu)
      simpa [hne] using hu
    · simpa [ht] using hu

/-- The mutex can be brought to be free while everybody waits. -/
def Releases (s : State) : Prop :=
  ∃ es s', exec step s es = some s' ∧ s'.propMutex = false ∧ Waits s s'

theorem Releases.step (h : Releases s') (hs : step s e = some s') (hw : Waits s s') :
    Releases s := by
  obtain ⟨es, m, hrun, hfree, hw'⟩ := h
  exact ⟨e :: es, m, exec_cons.2 ⟨s', hs, hrun⟩, hfree, hw.trans hw'⟩

theorem releases_of_free (h : s.propMutex = false) : Releases s :=
  ⟨[], s, rfl, h, ⟨fun _ _ => id, fun _ _ _ => id⟩⟩

theorem releases_marking {p : Proposal} {todo : List Proposal}
    (hnext : ∀ s props, s.call t = .reading todo props → Releases s)
    {props : List BtcTransferProposal} (h : s.call t = .marking p todo props) : Releases s := by
  have hs : step s (.mark t true) =
      some ((s.setStatus p.key .pending).setCall t (.reading todo (props ++ [p.toBtc]))) := by
    simp [step, h]
  exact (hnext _ _ (Function.update_self ..)).step hs (waits_of_call (by simp [h]) rfl rfl)

/-- A call that reads on without an error comes to its unlock. -/
theorem releases_reading {todo : List Proposal} {props : List BtcTransferProposal}
    (h : s.call t = .reading todo props) : Releases s := by
  induction todo generalizing s props with
  | nil =>
    have hs : step s (.unlock t) = some ((s.setMutex false).setCall t (.started props)) := by
      simp [step, h]
    exact (releases_of_free rfl).step hs (waits_of_call (by simp [h]) rfl rfl)
  | cons p todo ih =>
    have hw (pc : CallPc) : Waits s (s.setCall t pc) := waits_of_call (by simp [h]) rfl rfl
    by_cases hx : isExecuted (s.status p.key) = true
    · have hs : step s (.read t true) = some (s.setCall t (.reading todo props)) := by
        simp [step, h, hx]
      exact (ih (Function.update_self ..)).step hs (hw _)
    · have hs : step s (.read t true) = some (s.setCall t (.marking p todo props)) := by
        simp [step, h, hx]
      exact (releases_marking (fun _ _ => ih) (Function.update_self ..)).step hs (hw _)

/-- `storeProposalsStatus` comes to its unlock whatever the store answers. -/
theorem releases_storing {r : ResourceID} {v : PropStatus} {todo : List BtcTransferProposal}
    (h : s.group t r = .storing v todo) : Releases s := by
  induction todo generalizing s with
  | nil =>
    have hs : step s (.storeUnlock t r) = some ((s.setMutex false).setGroup t r (.closing v)) := by
      simp [step, h]
    exact (releases_of_free rfl).step hs (waits_of_group (by simp [h]) rfl rfl)
  | cons p todo ih =>
    have hs : step s (.store t r false) = some (s.setGroup t r (.storing v todo)) := by
      simp [step, h]
    exact (ih (by simp)).step hs (waits_of_group (by simp [h]) rfl rfl)

theorem releases_of_held (h : Mutex.Held s.propMutex (Inside s)) (hno : ¬ SomeFailed s) :
    Releases s := by
  cases hm : s.propMutex with
  | false => exact releases_of_free hm
  | true =>
    obtain ⟨a, ha⟩ := h hm
    cases a with
    | call t =>
      cases hc : s.call t with
      | reading todo props => exact releases_reading hc
      | marking p todo props => exact releases_marking (fun _ _ => releases_reading) hc
      | failed => exact absurd ⟨t, hc⟩ hno
      | idle | locking ps | started props => simp [Inside, hc, CallPc.locked] at ha
    | store t r =>
      cases hg : s.group t r with
      | storing v todo => exact releases_storing hg
      | running | locking v | closing v | returned => simp [Inside, hg, GroupPc.locked] at ha

end Release

section Usable

/-- A further `Execute` or `storeProposalsStatus` can acquire the mutex. -/
structure Usable (s : State) : Prop where
  execute : ∀ t proposals, s.call t = .idle → proposals ≠ [] →
    ∃ es s', exec step s (.execute t proposals :: es) = some s' ∧ (step s' (.lock t)).isSome
  store : ∀ t r v, s.group t r = .locking v →
    ∃ es s', exec step s es = some s' ∧ (step s' (.storeLock t r)).isSome

theorem usable_of_held (h : Mutex.Held s.propMutex (Inside s)) (hno : ¬ SomeFailed s) :
    Usable s := by
  refine ⟨?_, ?_⟩
  · intro t proposals hc hne
    cases proposals with
    | nil => exact absurd rfl hne
    | cons p ps =>
      have hs : step s (.execute t (p :: ps)) = some (s.setCall t (.locking (p :: ps))) := by
        simp [step, hc]
      have hno' : ¬ SomeFailed (s.setCall t (.locking (p :: ps))) := by
        rwa [someFailed_setCall (by simp [hc]) (by simp)]
      obtain ⟨es, s', hrun, hfree, hw⟩ := releases_of_held (held_step h (step_cases hs)) hno'
      have hwait := hw.call t (p :: ps) (by simp)
      exact ⟨es, s', exec_cons.2 ⟨_, hs, hrun⟩, by simp [step, hwait, hfree]⟩
  · intro t r v hg
    obtain ⟨es, s', hrun, hfree, hw⟩ := releases_of_held h hno
    exact ⟨es, s', hrun, by simp [step, hw.group t r v hg, hfree]⟩

/-- After an error nobody gets the mutex any more. -/
theorem locked_of_failed {es : List Event} (hm : Mutex.Exclusive s.propMutex (Inside s))
    (h : SomeFailed s) (hrun : exec step s es = some s') : s'.propMutex = true := by
  have hboth := exec_preserves (I := fun s => Mutex.Exclusive s.propMutex (Inside s) ∧ SomeFailed s)
    (fun s e s' hi hs => ⟨exclusive_step hi.1 (step_cases hs),
      (someFailed_step (step_cases hs)).2 (Or.inl hi.2)⟩) ⟨hm, h⟩ hrun
  obtain ⟨hexclusive, t, ht⟩ := hboth
  exact hexclusive.locked (.call t) (by simp [Inside, ht, CallPc.locked])

theorem idle_setCall (h : ∃ n, ∀ u, n ≤ u → s.call u = .idle) (pc : CallPc) :
    ∃ n, ∀ u, n ≤ u → (s.setCall t pc).call u = .idle := by
  obtain ⟨n, hn⟩ := h
  refine ⟨max n (t + 1), fun u hu => ?_⟩
  have hne : u ≠ t := by omega
  simpa [hne] using hn u (by omega)

theorem idle_step (h : ∃ n, ∀ u, n ≤ u → s.call u = .idle) (hs : Step s e s') :
    ∃ n, ∀ u, n ≤ u → s'.call u = .idle := by
  cases hs with
  | execute | lock | readSkip | readTake | readErr | mark | markErr | unlock =>
    exact idle_setCall h _
  | abort | send | storeLock | store | storeErr | storeUnlock | ret | retryRead | retryStore |
    retryErr => exact h

theorem exists_idle {st : PropStore} {es : List Event} (h : exec step (init st) es = some s) :
    ∃ t, s.call t = .idle := by
  have hinit : ∃ n, ∀ u, n ≤ u → (init st).call u = .idle := ⟨0, fun _ _ => rfl⟩
  obtain ⟨n, hn⟩ := exec_preserves (fun _ _ _ hi hs => idle_step hi (step_cases hs)) hinit h
  exact ⟨n, hn n (Nat.le_refl n)⟩

theorem not_usable_of_failed {st : PropStore} {es : List Event}
    (hrun : exec step (init st) es = some s) (h : SomeFailed s) : ¬ Usable s := by
  intro husable
  have hm := exec_preserves (fun _ _ _ hi hs => exclusive_step hi (step_cases hs))
    (exclusive_init st) hrun
  obtain ⟨t, ht⟩ := exists_idle hrun
  obtain ⟨es', s', hrun', hlock⟩ := husable.execute t [⟨0, 0, ⟨0, "", 0, 0⟩, ""⟩] ht (by simp)
  obtain ⟨s'', hs''⟩ := Option.isSome_iff_exists.1 hlock
  have hlocked := locked_of_failed hm h hrun'
  cases step_cases hs'' with
  | lock _ hfree => simp [hlocked] at hfree

theorem usable_of_not_failed {st : PropStore} {es : List Event}
    (hrun : exec step (init st) es = some s) (hno : ¬ SomeFailed s) : Usable s := by
  have hinit : Mutex.Held (init st).propMutex (Inside (init st)) := fun hflag => by cases hflag
  exact usable_of_held (exec_preserves (fun _ _ _ hi hs => held_step hi (step_cases hs)) hinit hrun)
    hno

end Usable

/-- An error of `proposalsForExecution` leaves the mutex locked, and the statuses as they were only
if it had not marked any. So the executor stays usable exactly as long as no access to the store
fails there. -/
theorem usable_iff_no_failure {st : PropStore} {es : List Event}
    (hrun : exec step (init st) es = some s) :
    (∀ t proposals es' s', s.call t = .locking proposals → (∀ e ∈ es', e.OfCall t) →
      exec step s es' = some s' → s'.call t = .failed →
        s'.propMutex = true ∧ (s'.status = s.status ↔ Event.mark t true ∉ es')) ∧
    (Usable s ↔ ∀ e ∈ es, ¬ e.Fails) := by
  refine ⟨fun t proposals es' s' => left_by_error, ?_⟩
  have hfailed : ¬ SomeFailed s ↔ ∀ e ∈ es, ¬ e.Fails := by
    rw [someFailed_iff hrun]
    push Not
    rfl
  rw [← hfailed]
  refine ⟨fun husable h => ?_, usable_of_not_failed hrun⟩
  exact not_usable_of_failed hrun h husable

def transferOne : Proposal := ⟨1, 4, ⟨1000, "", 1, 0⟩, "1-4-10-14"⟩

def transferTwo : Proposal := ⟨1, 4, ⟨1000, "", 2, 0⟩, "1-4-10-14"⟩

/-- A call has just taken the mutex. -/
theorem usable_while_locked :
    ∃ s, exec step (init fun _ => .missing) [.execute 0 [transferOne], .lock 0] = some s ∧
      s.propMutex = true ∧ Usable s := by
  have hrun : exec step (init fun _ => .missing) [.execute 0 [transferOne], .lock 0] = some _ := rfl
  refine ⟨_, hrun, rfl, (usable_iff_no_failure hrun).2.2 ?_⟩
  simp [Event.Fails]

/-- The status of the second proposal cannot be read: the first stays pending and the mutex locked,
and no other call gets it. -/
theorem locked_after_failed_read :
    ∃ s, exec step (init fun _ => .missing) [.execute 0 [transferOne, transferTwo], .lock 0,
        .read 0 true, .mark 0 true, .read 0 false] = some s ∧
      s.call 0 = .failed ∧ s.propMutex = true ∧ s.status transferOne.key = .pending ∧
      ¬ Usable s := by
  have hrun : exec step (init fun _ => .missing) [.execute 0 [transferOne, transferTwo], .lock 0,
      .read 0 true, .mark 0 true, .read 0 false] = some _ := rfl
  exact ⟨_, hrun, rfl, rfl, rfl, not_usable_of_failed hrun ⟨0, rfl⟩⟩

end Sygma.Btc
