import SygmaRelayer.Proofs.BtcFinality

/-! Mutual exclusion of executions. The pending status keeps a second call away
from a proposal, unless a retry resets it while the first is in flight, or the
first has stored `failed` and has not returned yet. -/

namespace Sygma.Btc

open Runs

/-- Every proposal belongs to at most one execution in flight. -/
def SingleExecution (s : State) : Prop :=
  ∀ k t r t' r', InFlight s t r k → InFlight s t' r' k → t = t' ∧ r = r'

/-- A call reads the status `failed` of a proposal only after the execution that stored it has
returned. -/
def ReadsAfterReturn (s : State) : Event → Prop
  | .read t true => ∀ p todo props, s.call t = .reading (p :: todo) props →
      s.status p.key = .failed → ∀ t' r, InFlight s t' r p.key → s.group t' r ≠ .closing .failed
  | _ => True

/-- The condition under which executions exclude each other. -/
def WellTimed (s : State) (e : Event) : Prop := ResetsStuck s e ∧ ReadsAfterReturn s e

/-- Call `t` is about to mark `k`. -/
def Marks (s : State) (t : ℕ) (k : PropKey) : Prop :=
  ∃ p todo props, s.call t = .marking p todo props ∧ k = p.key

/-- Call `t` is at work on `k`, from its read of the status to its return. -/
def Attends (s : State) (t : ℕ) (k : PropKey) : Prop :=
  Collects s t k ∨ Marks s t k ∨ ∃ r, InFlight s t r k

/-- Goroutine `(t, r)` stores `failed`, or has stored it and has not returned. -/
def Fails (s : State) (t : ℕ) (r : ResourceID) : Prop :=
  s.group t r = .closing .failed ∨ ∃ todo, s.group t r = .storing .failed todo

/-- The goroutine is about to store `v`. -/
def GroupPc.Stores (v : PropStatus) (pc : GroupPc) : Prop :=
  pc = .locking v ∨ ∃ todo, pc = .storing v todo

structure Inv2 (s : State) : Prop extends Inv s where
  final : ∀ t r v, (s.group t r).Stores v → v ≠ .missing
  settled : ∀ t r k, InFlight s t r k → s.status k ≠ .missing ∧
    (s.status k = .failed → Fails s t r)
  alone : ∀ t t' k, Attends s t k → Attends s t' k → t = t'

theorem inv2_init (st : PropStore) : Inv2 (init st) := by
  have hno : ∀ t r k, ¬ InFlight (init st) t r k := by
    rintro t r k ⟨h, _⟩
    simp [State.groupProps, init, CallPc.startedProps, propsPerResource, keys] at h
  refine ⟨inv_init st, ?_, fun t r k h => absurd h (hno t r k), ?_⟩
  · rintro t r v (h | ⟨todo, h⟩) <;> cases h
  · rintro t t' k (h | ⟨p, todo, props, h, _⟩ | ⟨r, h⟩) _
    · simp [Collects, init, CallPc.collected, keys] at h
    · simp [init] at h
    · exact absurd h (hno t r k)

theorem final_step {s s' : State} {e : Event} (hi : Inv2 s) (hs : Step s e s') {t : ℕ}
    {r : ResourceID} {v : PropStatus} (h : (s'.group t r).Stores v) : v ≠ .missing := by
  cases hs with
  | abort _ hg | storeUnlock hg | ret hg =>
    rcases setGroup_cases (P := GroupPc.Stores v) h with ⟨-, -, hpc⟩ | h
    · simp [GroupPc.Stores] at hpc
    · exact hi.final t r v h
  | send ok _ hg =>
    rcases setGroup_cases (P := GroupPc.Stores v) h with ⟨-, -, hpc⟩ | h
    · cases ok <;> simp [GroupPc.Stores] at hpc <;> simp [← hpc]
    · exact hi.final t r v h
  | storeLock hg _ =>
    rcases setGroup_cases (P := GroupPc.Stores v) h with ⟨rfl, rfl, hpc⟩ | h
    · exact hi.final t r v (Or.inl (by simpa [GroupPc.Stores, hg] using hpc))
    · exact hi.final t r v h
  | store hg | storeErr hg =>
    rcases setGroup_cases (P := GroupPc.Stores v) h with ⟨rfl, rfl, hpc⟩ | h
    · exact hi.final t r v (Or.inr (by simpa [GroupPc.Stores, hg] using hpc))
    · exact hi.final t r v h
  | _ => exact hi.final t r v h

theorem inFlight_setCall_ne {s : State} {t t' : ℕ} {pc : CallPc} {r : ResourceID} {k : PropKey}
    (ht : t' ≠ t) : InFlight (s.setCall t pc) t' r k ↔ InFlight s t' r k := by
  simp [InFlight, State.groupProps, ht]

theorem inFlight_step {s s' : State} {e : Event} (hs : Step s e s') {t : ℕ} {r : ResourceID}
    {k : PropKey} (h : InFlight s' t r k) :
    InFlight s t r k ∨ (e = .unlock t ∧ Collects s t k) := by
  cases hs with
  | @execute t' _ _ hc | @lock t' _ hc _ | @readSkip t' _ _ _ hc _ | @readTake t' _ _ _ hc _
  | @readErr t' _ _ _ hc | @mark t' _ _ _ hc | @markErr t' _ _ _ hc =>
    left
    by_cases ht : t = t'
    · subst ht
      simp [InFlight, State.groupProps, CallPc.startedProps, propsPerResource, keys] at h
    · exact (inFlight_setCall_ne ht).1 h
  | @unlock t' props hc =>
    by_cases ht : t = t'
    · subst ht
      refine Or.inr ⟨rfl, mem_keys_propsPerResource (r := r) ?_⟩
      simpa [InFlight, State.groupProps, CallPc.startedProps, hc, CallPc.collected] using h.1
    · exact Or.inl ((inFlight_setCall_ne ht).1 h)
  | abort _ hg | send _ _ hg | storeLock hg | store hg | storeErr hg | storeUnlock hg | ret hg =>
    refine Or.inl ⟨h.1, ?_⟩
    rcases setGroup_cases (P := (· ≠ .returned)) h.2 with ⟨rfl, rfl, -⟩ | h
    · simp [hg]
    · exact h
  | retryRead | retryStore | retryErr => exact Or.inl h

theorem collects_step {s s' : State} {e : Event} (hs : Step s e s') {t : ℕ} {k : PropKey}
    (h : Collects s' t k) : Collects s t k ∨ (e = .mark t true ∧ Marks s t k) := by
  cases hs with
  | @execute t' _ _ hc | @lock t' _ hc _ | @readSkip t' _ _ _ hc _ | @readTake t' _ _ _ hc _
  | @readErr t' _ _ _ hc | @markErr t' _ _ _ hc | @unlock t' _ hc =>
    left
    by_cases ht : t = t'
    · subst ht
      simp_all [Collects, CallPc.collected, keys]
    · simpa [Collects, ht] using h
  | @mark t' p todo props hc =>
    by_cases ht : t = t'
    · subst ht
      simp only [Collects, State.setCall, Function.update_self, CallPc.collected, keys,
        List.map_append, List.mem_append, List.map_cons, List.map_nil, List.mem_singleton] at h
      rcases h with h | rfl
      · exact Or.inl (by simpa [Collects, hc, CallPc.collected, keys] using h)
      · exact Or.inr ⟨rfl, p, todo, props, hc, rfl⟩
    · exact Or.inl (by simpa [Collects, ht] using h)
  | _ => exact Or.inl h

theorem marks_step {s s' : State} {e : Event} (hs : Step s e s') {t : ℕ} {k : PropKey}
    (h : Marks s' t k) : Marks s t k ∨
      (e = .read t true ∧ ∃ p todo props, s.call t = .reading (p :: todo) props ∧ k = p.key ∧
        isExecuted (s.status p.key) = false) := by
  obtain ⟨p, todo, props, hc', rfl⟩ := h
  cases hs with
  | execute hc | lock hc | readSkip hc | readErr hc | mark hc | markErr hc | unlock hc =>
    rcases setCall_cases (P := (· = .marking p todo props)) hc' with ⟨-, hpc⟩ | hc'
    · cases hpc
    · exact Or.inl ⟨p, todo, props, hc', rfl⟩
  | readTake hc hx =>
    rcases setCall_cases (P := (· = .marking p todo props)) hc' with ⟨rfl, hpc⟩ | hc'
    · cases hpc
      exact Or.inr ⟨rfl, p, todo, props, hc, rfl, hx⟩
    · exact Or.inl ⟨p, todo, props, hc', rfl⟩
  | _ => exact Or.inl ⟨p, todo, props, hc', rfl⟩

theorem attends_step {s s' : State} {e : Event} (hs : Step s e s') {t : ℕ} {k : PropKey}
    (h : Attends s' t k) : Attends s t k ∨
      (e = .read t true ∧ ∃ p todo props, s.call t = .reading (p :: todo) props ∧ k = p.key ∧
        isExecuted (s.status p.key) = false) := by
  rcases h with h | h | ⟨r, h⟩
  · rcases collects_step hs h with h | ⟨-, h⟩
    · exact Or.inl (Or.inl h)
    · exact Or.inl (Or.inr (Or.inl h))
  · rcases marks_step hs h with h | h
    · exact Or.inl (Or.inr (Or.inl h))
    · exact Or.inr h
  · rcases inFlight_step hs h with h | ⟨_, h⟩
    · exact Or.inl (Or.inr (Or.inr ⟨r, h⟩))
    · exact Or.inl (Or.inl h)

theorem Inv2.not_attends {s : State} (hi : Inv2 s) {t t' : ℕ} {p : Proposal}
    {todo : List Proposal} {props : List BtcTransferProposal}
    (hG : ReadsAfterReturn s (.read t true)) (hc : s.call t = .reading (p :: todo) props)
    (hx : isExecuted (s.status p.key) = false) : ¬ Attends s t' p.key := by
  have hin : Inside s (.call t) := by simp [Inside, hc, CallPc.locked]
  rintro (h | ⟨q, todo', props', h, _⟩ | ⟨r, h⟩)
  · rw [hi.owned t' _ (Or.inl h)] at hx
    simp [isExecuted] at hx
  · obtain rfl : t = t' := by
      have := hi.mutex.single _ _ hin
        (show Inside s (.call t') by simp [Inside, h, CallPc.locked])
      cases this; rfl
    rw [hc] at h
    cases h
  · obtain ⟨hmiss, hfail⟩ := hi.settled t' r _ h
    have hst : s.status p.key = .failed := by
      cases hv : s.status p.key <;> simp_all [isExecuted]
    rcases hfail hst with hg | ⟨todo', hg⟩
    · exact hG p todo props hc hst t' r h hg
    · have := hi.mutex.single _ _ hin
        (show Inside s (.store t' r) by simp [Inside, hg, GroupPc.locked])
      cases this

theorem alone_step {s s' : State} {e : Event} (hi : Inv2 s) (hG : ReadsAfterReturn s e)
    (hs : Step s e s') {t t' : ℕ} {k : PropKey} (h : Attends s' t k) (h' : Attends s' t' k) :
    t = t' := by
  rcases attends_step hs h with ha | ⟨rfl, p, todo, props, hc, rfl, hx⟩
  · rcases attends_step hs h' with ha' | ⟨rfl, p, todo, props, hc, rfl, hx⟩
    · exact hi.alone t t' k ha ha'
    · exact absurd ha (hi.not_attends hG hc hx)
  · rcases attends_step hs h' with ha' | ⟨he, _⟩
    · exact absurd ha' (hi.not_attends hG hc hx)
    · cases he; rfl

theorem Inv2.singleExecution {s : State} (hi : Inv2 s) : SingleExecution s := by
  intro k t r t' r' h h'
  obtain rfl := hi.alone t t' k (Or.inr (Or.inr ⟨r, h⟩)) (Or.inr (Or.inr ⟨r', h'⟩))
  exact ⟨rfl, resource_unique (hi.nodup t).2 h.1 h'.1⟩

theorem fails_step {s s' : State} {e : Event} (hs : Step s e s') {t : ℕ} {r : ResourceID}
    (h : Fails s t r) : Fails s' t r ∨ s'.group t r = .returned := by
  cases hs with
  | @abort t' r' _ hg | @send t' r' _ _ hg | @storeLock t' r' _ hg _ | @store t' r' _ _ _ hg
  | @storeErr t' r' _ _ _ hg | @storeUnlock t' r' _ hg | @ret t' r' _ hg =>
    by_cases ht : t = t' <;> by_cases hr : r = r'
    · subst ht hr; simp_all [Fails]
    all_goals exact Or.inl (by simpa [Fails, ht, hr] using h)
  | _ => exact Or.inl h

theorem settled_step {s s' : State} {e : Event} (hi : Inv2 s) (hG : ResetsStuck s e)
    (hs : Step s e s') {t : ℕ} {r : ResourceID} {k : PropKey} (h : InFlight s' t r k) :
    s'.status k ≠ .missing ∧ (s'.status k = .failed → Fails s' t r) := by
  by_cases hst : s'.status k = s.status k
  · rw [hst]
    rcases inFlight_step hs h with h0 | ⟨_, hcol⟩
    · obtain ⟨hmiss, hfail⟩ := hi.settled t r k h0
      refine ⟨hmiss, fun hf => ?_⟩
      exact (fails_step hs (hfail hf)).resolve_right h.2
    · simp [hi.owned t k (Or.inl hcol)]
  rcases status_step hs hst with ⟨_, _, _, _, _, _, _, hp⟩ | ⟨t', r', v, p, todo, rfl, hg, rfl, hv⟩ |
    ⟨j, rfl, hr, _⟩
  · simp [hp]
  · -- only the goroutine that settles `k` has it in flight
    have h' : InFlight s t' r' p.key :=
      hi.settles_subset (by simp [Settles, hg, GroupPc.unsettled, keys])
    have h0 : InFlight s t r p.key := (inFlight_step hs h).resolve_right (by simp)
    obtain ⟨rfl, rfl⟩ := hi.singleExecution _ _ _ _ _ h0 h'
    rw [hv]
    refine ⟨hi.final t r v (Or.inr ⟨_, hg⟩), ?_⟩
    rintro rfl
    cases hs with
    | store hg' =>
      rw [hg] at hg'
      cases hg'
      exact Or.inr ⟨todo, by simp⟩
  · rcases hG k hr with hf | ⟨_, hu⟩
    · cases hs with
      | retryStore hr' =>
        rw [hr] at hr'
        cases hr'
        simp [hf] at hst
    · exact absurd ((inFlight_step hs h).resolve_right (by simp)) ((hu t).2 r)

theorem inv2_step {s s' : State} {e : Event} (hi : Inv2 s)
    (hG : WellTimed s e) (h : step s e = some s') : Inv2 s' :=
  have hs := step_cases h
  { inv_step hi.toInv hG.1 h with
    final := fun _ _ _ => final_step hi hs
    settled := fun _ _ _ => settled_step hi hG.1 hs
    alone := fun _ _ _ => alone_step hi hG.2 hs }

theorem single_execution {st : PropStore} {es : List Event} {s : State}
    (hG : Along step WellTimed (init st) es)
    (h : exec step (init st) es = some s) : SingleExecution s :=
  (exec_inv (fun _ _ _ => inv2_step) (inv2_init st) hG h).singleExecution

/-- Call 0 marks the proposal, fails to send it and returns; call 1 enters. -/
def failedSend : List Event :=
  [.mark 0 true, .unlock 0] ++ settles 0 false ++
    [.ret 0 5, .execute 1 [transferProposal 3], .lock 1]

def failedThenTaken : List Event :=
  [.execute 0 [transferProposal 3], .lock 0, .read 0 true] ++
    (failedSend ++ [.read 1 true, .mark 1 true, .unlock 1])

theorem wellTimed_failedThenTaken : Along step WellTimed (init fun _ => .missing) failedThenTaken := by
  refine (along_cons rfl).2 ⟨⟨trivial, trivial⟩, (along_cons rfl).2 ⟨⟨trivial, trivial⟩,
    (along_cons rfl).2 ⟨⟨trivial, ?_⟩, (@along_append _ _ step WellTimed _ _ failedSend _ rfl).2
      ⟨?_, (along_cons rfl).2 ⟨⟨trivial, ?_⟩, ?_⟩⟩⟩⟩⟩
  · intro p todo props _ hf
    cases hf
  · exact along_of_forall_mem (by simp [failedSend, settles, WellTimed, ResetsStuck, ReadsAfterReturn])
  · intro p todo props hc _ t r hin
    -- the only goroutine that ever closed has returned
    by_cases ht : t = 0 <;> by_cases hr : r = 5#256
    · subst ht hr; exact absurd rfl hin.2
    all_goals simp [ht, hr, init]
  · exact along_of_forall_mem (by simp [WellTimed, ResetsStuck, ReadsAfterReturn])

theorem single_execution_after_failure :
    ∃ s, exec step (init fun _ => .missing) failedThenTaken = some s ∧
      InFlight s 1 5 (transferProposal 3).key ∧ SingleExecution s :=
  ⟨_, rfl, ⟨by decide, by decide⟩, single_execution wellTimed_failedThenTaken rfl⟩

/-- Without its premise the result fails: a retry resets the proposal while call 0 executes it,
or call 1 reads the `failed` that call 0 has stored and call 0 has not returned. -/
theorem two_executions_in_flight :
    (∃ s, exec step (init fun _ => .missing) (takes 0 (transferProposal 3) ++
        [.retryRead 0 (transferProposal 3).key true, .retryStore 0 true] ++
        takes 1 (transferProposal 3)) = some s ∧ ¬ SingleExecution s) ∧
    ∃ s, exec step (init fun _ => .missing) (takes 0 (transferProposal 3) ++ settles 0 false ++
        takes 1 (transferProposal 3)) = some s ∧ ¬ SingleExecution s := by
  constructor
  · refine ⟨_, rfl, fun h => ?_⟩
    have := (h (transferProposal 3).key 0 5 1 5 ⟨by decide, by decide⟩ ⟨by decide, by decide⟩).1
    cases this
  · refine ⟨_, rfl, fun h => ?_⟩
    have := (h (transferProposal 3).key 0 5 1 5 ⟨by decide, by decide⟩ ⟨by decide, by decide⟩).1
    cases this

end Sygma.Btc
