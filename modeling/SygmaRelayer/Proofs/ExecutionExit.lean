import SygmaRelayer.Lib.Mutex
import SygmaRelayer.Proofs.ExecutionOutcome

/-! Whether the relayer can exit when only EVM chains have called `Execute`. `Run` waits for all
calls, and a call waits for the two goroutines of each batch. They always come to an end, except
when the loop of `watchExecution` ends while `processEndMessage` is at its send: nobody takes the
result any more, and the send is not part of a `select`. -/

namespace Sygma.EvmExecution

open Evm (TransferProposal Batch Config Bridge proposalBatches)
open Runs Mutex

variable {events : List Event} {s s' : State} {e : Event} {t k : ℕ} {x x' : Session} {b : Batch}

/-- The result is being sent, and the loop that would take it has ended. -/
def Session.stuck (x : Session) : Bool :=
  match x.sign, x.watch with
  | .sending _, .returned _ => true
  | _, _ => false

/-- No session is stuck. -/
def Free (s : State) : Prop := ∀ t k x, s.go t k = .session x → x.stuck = false

def CallPc.isRunning : CallPc → Bool
  | .running _ _ _ => true
  | .idle | .returned _ _ => false

/-- The calls that run are counted, and once `Run` has the lock there are none. -/
structure Counted (s : State) : Prop where
  readers : Readers s.readers fun t => (s.calls t).isRunning = true
  exited : s.exit = .exited → s.readers = 0

theorem counted_init : Counted init := ⟨readers_zero (by simp [init, CallPc.isRunning]), by simp [init]⟩

theorem Counted.same (h : Counted s) (hcalls : ∀ t, (s'.calls t).isRunning = (s.calls t).isRunning)
    (hreaders : s'.readers = s.readers) (hexit : s'.exit = .exited → s.readers = 0) : Counted s' where
  readers := by
    rw [hreaders]
    exact h.readers.congr fun t => by rw [hcalls]
  exited hexited := hreaders.trans (hexit hexited)

theorem isRunning_setCall {pc : CallPc} (h : pc.isRunning = (s.calls t).isRunning) (u : ℕ) :
    ((s.setCall t pc).calls u).isRunning = (s.calls u).isRunning := by
  by_cases hu : u = t
  · subst hu
    simpa using h
  · simp [hu]

theorem Counted.move (h : Counted s) (hmove : Move s e s') : Counted s' := by
  cases hmove with
  | refused hcall =>
    exact h.same (isRunning_setCall (by rw [hcall]; rfl)) rfl h.exited
  | @execute t _ _ _ _ hexit hcall _ =>
    refine ⟨h.readers.acquire (c := t) (by simp [hcall, CallPc.isRunning]) fun u => ?_, ?_⟩
    · by_cases hu : u = t
      · subst hu
        simp [CallPc.isRunning]
      · simp [hu]
    · intro hexited
      rw [show s.exit = .exited from hexited] at hexit
      cases hexit
  | skip hcall =>
    exact h.same (isRunning_setCall (by rw [hcall]; rfl)) rfl h.exited
  | @spawn t _ _ n _ hcall =>
    exact h.same (isRunning_setCall (s := s.setGo t n .spawned) (by simp [hcall, CallPc.isRunning]))
      rfl h.exited
  | fail => exact h.same (fun _ => rfl) rfl h.exited
  | launch => exact h.same (fun _ => rfl) rfl h.exited
  | session => exact h.same (fun _ => rfl) rfl h.exited
  | @ret t _ _ _ hcall _ =>
    refine ⟨h.readers.release (c := t) (by simp [hcall, CallPc.isRunning]) fun u => ?_, ?_⟩
    · by_cases hu : u = t
      · subst hu
        simp [CallPc.isRunning]
      · simp [hu]
    · intro hexited
      have hzero := h.exited hexited
      simp [hzero]
  | signal => exact h.same (fun _ => rfl) rfl (by simp)
  | exit _ hreaders => exact h.same (fun _ => rfl) rfl fun _ => hreaders

theorem counted_exec (h : exec step init events = some s) : Counted s :=
  exec_preserves (fun _ _ _ h hstep => h.move (step_move hstep)) counted_init h

/-- Nothing moves a stuck session. -/
theorem Session.step_of_stuck (h : x.stuck = true) (e : SessionEvent) : x.step b e = none := by
  obtain ⟨sessionID, sign, watch, actions⟩ := x
  cases sign with
  | sending sigResult =>
    cases watch with
    | returned err => cases e <;> cases sigResult <;> rfl
    | _ => cases h
  | _ => cases h

theorem Session.errors_of_stuck (h : x.stuck = true) : x.errors = none := by
  obtain ⟨sessionID, sign, watch, actions⟩ := x
  cases sign with
  | sending sigResult => rfl
  | _ => cases h

theorem errors_isSome_of_joinErrors {go : ℕ → GoPc} {n : ℕ} {errs : List String}
    (h : joinErrors go n = some errs) : ∀ k < n, ∃ errs', (go k).errors = some errs' := by
  induction n generalizing errs with
  | zero => simp
  | succ n ih =>
    obtain ⟨errs', errs'', hbefore, hlast, -⟩ := joinErrors_succ.1 h
    intro k hk
    rcases Nat.lt_succ_iff_lt_or_eq.1 hk with hk | rfl
    · exact ih hbefore k hk
    · exact ⟨errs'', hlast⟩

/-- The session of a running call is stuck. -/
def Stuck (t k : ℕ) (s : State) : Prop :=
  ∃ ps bs n x, s.calls t = .running ps bs n ∧ k < n ∧ n ≤ bs.length ∧ s.go t k = .session x ∧
    x.stuck = true

theorem setGo_of_ne {u j : ℕ} {pc : GoPc} (h : ¬ (t = u ∧ k = j)) :
    (s.setGo u j pc).go t k = s.go t k := by
  by_cases ht : t = u
  · subst ht
    have hk : k ≠ j := fun hk => h ⟨rfl, hk⟩
    simp [hk]
  · simp [ht]

theorem Stuck.frame (h : Stuck t k s) (hcalls : s'.calls t = s.calls t)
    (hgo : s'.go t k = s.go t k) : Stuck t k s' := by
  obtain ⟨ps, bs, n, x, hcall, hk, hn, hx, hstuck⟩ := h
  exact ⟨ps, bs, n, x, hcalls.trans hcall, hk, hn, hgo.trans hx, hstuck⟩

theorem Stuck.iterate {u m : ℕ} {ps : List TransferProposal} {bs : List Batch}
    (h : Stuck t k s) (hcall : s.calls u = .running ps bs m) (hm : m < bs.length)
    (hgo : s'.go t k = s.go t k) (hcalls : s'.calls = Function.update s.calls u (.running ps bs (m + 1))) :
    Stuck t k s' := by
  obtain ⟨ps', bs', n, x, hcall', hk, hn, hx, hstuck⟩ := h
  by_cases ht : t = u
  · subst ht
    rw [hcall] at hcall'
    cases hcall'
    exact ⟨ps, bs, m + 1, x, by rw [hcalls, Function.update_self], Nat.lt_succ_of_lt hk, hm,
      hgo.trans hx, hstuck⟩
  · exact ⟨ps', bs', n, x, by rw [hcalls, Function.update_of_ne ht, hcall'], hk, hn, hgo.trans hx,
      hstuck⟩

theorem Stuck.move (h : Stuck t k s) (hmove : Move s e s') : Stuck t k s' := by
  have hrunning := h
  obtain ⟨ps, bs, n, x, hcall, hk, hn, hx, hstuck⟩ := hrunning
  cases hmove with
  | @refused u _ _ _ _ hidle =>
    have ht : t ≠ u := by
      rintro rfl
      rw [hcall] at hidle
      cases hidle
    exact h.frame (by simp [ht]) rfl
  | @execute u _ _ _ _ _ hidle _ =>
    have ht : t ≠ u := by
      rintro rfl
      rw [hcall] at hidle
      cases hidle
    exact h.frame (by simp [ht]) rfl
  | skip hcall' hbatch _ =>
    exact h.iterate hcall' (List.getElem?_eq_some_iff.1 hbatch).1 rfl rfl
  | @spawn u _ _ m _ hcall' hbatch =>
    refine h.iterate hcall' (List.getElem?_eq_some_iff.1 hbatch).1 (setGo_of_ne ?_) rfl
    rintro ⟨rfl, rfl⟩
    rw [hcall] at hcall'
    cases hcall'
    exact lt_irrefl _ hk
  | @fail u j _ _ _ _ _ hspawned =>
    refine h.frame rfl (setGo_of_ne ?_)
    rintro ⟨rfl, rfl⟩
    rw [hx] at hspawned
    cases hspawned
  | @launch u j _ _ _ _ _ _ hspawned _ =>
    refine h.frame rfl (setGo_of_ne ?_)
    rintro ⟨rfl, rfl⟩
    rw [hx] at hspawned
    cases hspawned
  | @session u j _ _ _ batch y y' e' _ hy _ hstep =>
    refine h.frame rfl (setGo_of_ne ?_)
    rintro ⟨rfl, rfl⟩
    rw [hx] at hy
    cases hy
    rw [Session.step_of_stuck hstuck] at hstep
    cases hstep
  | @ret u _ _ errs hcall' herrs =>
    have ht : t ≠ u := by
      rintro rfl
      rw [hcall] at hcall'
      cases hcall'
      obtain ⟨errs', hsome⟩ := errors_isSome_of_joinErrors herrs k hk
      rw [hx] at hsome
      rw [GoPc.errors, Session.errors_of_stuck hstuck] at hsome
      cases hsome
    exact h.frame (by simp [ht]) rfl
  | signal => exact h.frame rfl rfl
  | exit => exact h.frame rfl rfl

theorem stuck_of_exec (h : exec step init events = some s) (hgo : s.go t k = .session x)
    (hstuck : x.stuck = true) : Stuck t k s := by
  have hcall := callsOk_exec h t
  cases hpc : s.calls t with
  | idle =>
    rw [hpc] at hcall
    rw [(hcall k).1] at hgo
    cases hgo
  | running ps bs n =>
    rw [hpc] at hcall
    obtain ⟨-, hn, hall⟩ := hcall
    have hk := hall k
    rw [hgo] at hk
    exact ⟨ps, bs, n, x, hpc, hk.1, hn, hgo, hstuck⟩
  | returned ps errs =>
    rw [hpc] at hcall
    rcases hcall with ⟨-, huntouched⟩ | ⟨bs, -, herrs, hall⟩
    · rw [(huntouched k).1] at hgo
      cases hgo
    · have hk := hall k
      rw [hgo] at hk
      obtain ⟨errs', hsome⟩ := errors_isSome_of_joinErrors herrs k hk.1
      rw [hgo, GoPc.errors, Session.errors_of_stuck hstuck] at hsome
      cases hsome

/-- As long as a session is stuck, `Run` does not get the lock. -/
theorem Stuck.not_exited (h : Stuck t k s) (hcounted : Counted s) : s.exit ≠ .exited := by
  obtain ⟨ps, bs, n, x, hcall, -⟩ := h
  intro hexited
  refine (hcounted.readers.eq_zero_iff.1 (hcounted.exited hexited)) t ?_
  rw [hcall]
  rfl

section Finish

theorem Session.reaches_errors (b : Batch) (h : x.stuck = false) :
    Reaches (Session.step b) x fun x' => ∃ errs, x'.errors = some errs := by
  obtain ⟨sessionID, sign, watch, actions⟩ := x
  cases sign with
  | executing =>
    cases watch with
    | watching => exact ⟨[.coordinated none, .timeout], _, rfl, _, rfl⟩
    | executeBatch sig => exact ⟨[.coordinated none, .submitted (.error "")], _, rfl, _, rfl⟩
    | returned err => exact ⟨[.coordinated none], _, rfl, _, rfl⟩
  | sending sigResult =>
    cases watch with
    | watching =>
      cases sigResult with
      | none => exact ⟨[.receive, .coordinated none, .timeout], _, rfl, _, rfl⟩
      | some sig =>
        exact ⟨[.receive, .coordinated none, .submitted (.error "")], _, rfl, _, rfl⟩
    | executeBatch sig =>
      -- the result in hand is submitted first
      cases sigResult with
      | none => exact ⟨[.submitted (.ok ""), .receive, .coordinated none, .timeout], _, rfl, _, rfl⟩
      | some sig =>
        exact ⟨[.submitted (.ok ""), .receive, .coordinated none, .submitted (.error "")], _, rfl, _,
          rfl⟩
    | returned err => cases h
  | returned err =>
    cases watch with
    | watching => exact ⟨[.timeout], _, rfl, _, rfl⟩
    | executeBatch sig => exact ⟨[.submitted (.error "")], _, rfl, _, rfl⟩
    | returned err' => exact ⟨[], _, rfl, _, rfl⟩

theorem Session.not_stuck_of_errors {errs : List String} (h : x.errors = some errs) :
    x.stuck = false := by
  cases hstuck : x.stuck with
  | false => rfl
  | true =>
    rw [Session.errors_of_stuck hstuck] at h
    cases h

/-- A run of a session is one of the executor, in which nothing else moves. -/
theorem exec_session {ps : List TransferProposal} {bs : List Batch} {n : ℕ}
    {es : List SessionEvent} (hcall : s.calls t = .running ps bs n) (hb : bs[k]? = some b)
    (hgo : s.go t k = .session x) (h : exec (Session.step b) x es = some x') :
    exec step s (es.map (.session t k)) = some (s.setGo t k (.session x')) := by
  induction es generalizing s x with
  | nil =>
    obtain rfl : x = x' := by simpa using h
    rw [List.map_nil, exec_nil, State.setGo, ← hgo]
    simp
  | cons e es ih =>
    obtain ⟨m, hm, h⟩ := exec_cons.1 h
    refine exec_cons.2 ⟨s.setGo t k (.session m), ?_, ?_⟩
    · simp only [step, hcall, hgo, hb, hm, Option.map_some]
    · rw [ih (s := s.setGo t k (.session m)) hcall (by simp) h]
      simp

/-- A reachable state in which no session is stuck. -/
structure Finishable (s : State) : Prop where
  reachable : ∃ events, exec step init events = some s
  free : Free s

theorem Finishable.reaches {P : State → Prop} (h : Finishable s)
    (hreach : Reaches step s fun s' => Free s' ∧ P s') :
    Reaches step s fun s' => Finishable s' ∧ P s' := by
  obtain ⟨events, hevents⟩ := h.reachable
  obtain ⟨es, s', hs', hfree, hP⟩ := hreach
  exact ⟨es, s', hs', ⟨⟨events ++ es, exec_append hevents hs'⟩, hfree⟩, hP⟩

theorem Free.setGo {pc : GoPc} (h : Free s) (hpc : ∀ x, pc = .session x → x.stuck = false) :
    Free (s.setGo t k pc) := by
  intro u j x hx
  by_cases huj : u = t ∧ j = k
  · obtain ⟨rfl, rfl⟩ := huj
    exact hpc x (by simpa using hx)
  · rw [setGo_of_ne huj] at hx
    exact h u j x hx

theorem ended_setGo {pc : GoPc} (hpc : ∃ errs, pc.errors = some errs) (j : ℕ)
    (hj : ∃ errs, (s.go t j).errors = some errs) :
    ∃ errs, ((s.setGo t k pc).go t j).errors = some errs := by
  by_cases hjk : j = k
  · subst hjk
    simpa using hpc
  · rwa [setGo_of_ne fun h => hjk h.2]

theorem Finishable.reaches_ended {ps : List TransferProposal} {bs : List Batch} {n : ℕ}
    (h : Finishable s) (hcall : s.calls t = .running ps bs n) (k : ℕ) :
    Reaches step s fun s' => Finishable s' ∧ s'.calls = s.calls ∧
      (∃ errs, (s'.go t k).errors = some errs) ∧
      ∀ j, (∃ errs, (s.go t j).errors = some errs) → ∃ errs, (s'.go t j).errors = some errs := by
  apply h.reaches
  cases hgo : s.go t k with
  | idle => exact .refl ⟨h.free, rfl, ⟨_, by rw [hgo]; rfl⟩, fun _ hj => hj⟩
  | failed err => exact .refl ⟨h.free, rfl, ⟨_, by rw [hgo]; rfl⟩, fun _ hj => hj⟩
  | spawned =>
    have hstep : step s (.fail t k "") = some (s.setGo t k (.failed "")) := by
      simp only [step, hcall, hgo]
    exact .single hstep ⟨h.free.setGo (by simp), rfl, ⟨_, by simp; rfl⟩, ended_setGo ⟨_, rfl⟩⟩
  | session x =>
    obtain ⟨events, hevents⟩ := h.reachable
    have hok := callsOk_exec hevents t
    rw [hcall] at hok
    have hk := hok.2.2 k
    rw [hgo] at hk
    obtain ⟨-, b, sessionID, hb, -⟩ := hk
    obtain ⟨es, x', hrun, errs, herrs⟩ := Session.reaches_errors b (h.free t k x hgo)
    refine ⟨_, _, exec_session hcall hb hgo hrun, h.free.setGo ?_, rfl, ⟨errs, by simpa⟩,
      ended_setGo ⟨errs, herrs⟩⟩
    rintro _ ⟨⟩
    exact Session.not_stuck_of_errors herrs

theorem Finishable.reaches_turns {ps : List TransferProposal} {bs : List Batch} {n : ℕ}
    (h : Finishable s) (hcall : s.calls t = .running ps bs n) (hn : n ≤ bs.length) :
    Reaches step s fun s' => Finishable s' ∧
      s'.calls = Function.update s.calls t (.running ps bs bs.length) := by
  -- by induction on the turns that are left
  obtain ⟨m, hm⟩ : ∃ m, bs.length - n = m := ⟨_, rfl⟩
  induction m generalizing s n with
  | zero =>
    obtain rfl : n = bs.length := by omega
    refine .refl ⟨h, ?_⟩
    rw [← hcall, Function.update_eq_self]
  | succ m ih =>
    have hlt : n < bs.length := by omega
    have hturn : Reaches step s fun s' => Finishable s' ∧
        s'.calls = Function.update s.calls t (.running ps bs (n + 1)) := by
      apply h.reaches
      by_cases hempty : bs[n].proposals = []
      · have hstep : step s (.iterate t) = some (s.setCall t (.running ps bs (n + 1))) := by
          simp only [step, hcall, List.getElem?_eq_getElem hlt, if_pos hempty]
        exact .single hstep ⟨h.free, rfl⟩
      · have hstep : step s (.iterate t) =
            some ((s.setGo t n .spawned).setCall t (.running ps bs (n + 1))) := by
          simp only [step, hcall, List.getElem?_eq_getElem hlt, if_neg hempty]
        exact .single hstep ⟨h.free.setGo (by simp), rfl⟩
    refine hturn.trans fun s' hs' => ?_
    obtain ⟨hfinish, hcalls⟩ := hs'
    have hcall' : s'.calls t = .running ps bs (n + 1) := by rw [hcalls, Function.update_self]
    refine (ih hfinish hcall' hlt (by omega)).trans fun s'' hs'' => .refl ⟨hs''.1, ?_⟩
    rw [hs''.2, hcalls, Function.update_idem]

theorem exists_joinErrors {go : ℕ → GoPc} {n : ℕ}
    (h : ∀ k < n, ∃ errs, (go k).errors = some errs) : ∃ errs, joinErrors go n = some errs := by
  induction n with
  | zero => exact ⟨[], rfl⟩
  | succ n ih =>
    obtain ⟨errs, herrs⟩ := ih fun k hk => h k (Nat.lt_succ_of_lt hk)
    obtain ⟨errs', herrs'⟩ := h n (Nat.lt_succ_self n)
    exact ⟨errs ++ errs', joinErrors_succ.2 ⟨errs, errs', herrs, herrs', rfl⟩⟩

/-- A call can be brought to its return. -/
theorem Finishable.reaches_returned (t : ℕ) (h : Finishable s) :
    Reaches step s fun s' => Finishable s' ∧ (s'.calls t).isRunning = false ∧
      ∀ u, (s.calls u).isRunning = false → (s'.calls u).isRunning = false := by
  cases hcall : s.calls t with
  | idle => exact .refl ⟨h, by rw [hcall]; rfl, fun _ hu => hu⟩
  | returned ps errs => exact .refl ⟨h, by rw [hcall]; rfl, fun _ hu => hu⟩
  | running ps bs n =>
    obtain ⟨events, hevents⟩ := h.reachable
    have hok := callsOk_exec hevents t
    rw [hcall] at hok
    refine (h.reaches_turns hcall hok.2.1).trans fun s₁ hs₁ => ?_
    obtain ⟨h₁, hcalls₁⟩ := hs₁
    have hcall₁ : s₁.calls t = .running ps bs bs.length := by rw [hcalls₁, Function.update_self]
    -- then the goroutines, one after the other
    have hall : Reaches step s₁ fun s' => (Finishable s' ∧ s'.calls = s₁.calls) ∧
        ∀ k ∈ List.range bs.length, ∃ errs, (s'.go t k).errors = some errs := by
      refine reaches_all (fun k s' hs' => ?_) _ ⟨h₁, rfl⟩
      have hcall' : s'.calls t = .running ps bs bs.length := by rw [hs'.2, hcall₁]
      refine (hs'.1.reaches_ended hcall' k).trans fun s'' hs'' => .refl ?_
      exact ⟨⟨hs''.1, hs''.2.1.trans hs'.2⟩, hs''.2.2⟩
    refine hall.trans fun s₂ hs₂ => ?_
    obtain ⟨⟨h₂, hcalls₂⟩, hended⟩ := hs₂
    obtain ⟨errs, herrs⟩ := exists_joinErrors fun k hk => hended k (List.mem_range.2 hk)
    have hstep : step s₂ (.ret t) = some
        { s₂.setCall t (.returned ps errs) with readers := s₂.readers - 1 } := by
      simp only [step, hcalls₂, hcall₁, herrs, if_true, Option.map_some]
    refine h₂.reaches (.single hstep ⟨h₂.free, ?_, fun u hu => ?_⟩)
    · simp [CallPc.isRunning]
    · by_cases hut : u = t
      · subst hut
        simp [CallPc.isRunning]
      · simpa [hut, hcalls₂, hcalls₁] using hu

theorem reaches_exited (h : s.readers = 0) : Reaches step s fun s' => s'.exit = .exited := by
  cases hexit : s.exit with
  | running =>
    have hsignal : step s .signal = some { s with exit := .locking } := by simp only [step, hexit]
    have hexited : step { s with exit := .locking } .exit = some { s with exit := .exited } := by
      simp only [step, h, if_true]
    exact (Reaches.single hsignal rfl).trans fun m hm => .single (hm ▸ hexited) rfl
  | locking =>
    have hexited : step s .exit = some { s with exit := .exited } := by
      simp only [step, hexit, h, if_true]
    exact .single hexited rfl
  | exited => exact .refl hexit

end Finish

/-- As far as the calls on EVM chains go, the relayer can still exit iff no session is stuck: the
result of a signing process meets a loop that has ended, because the proposals were seen executed,
the time was up or a submission failed. -/
theorem exits_iff (h : exec step init events = some s) :
    (∃ es s', exec step s es = some s' ∧ s'.exit = .exited) ↔
      ∀ t k x, s.go t k = .session x → x.stuck = false := by
  constructor
  · rintro ⟨es, s', hs', hexited⟩ t k x hgo
    by_contra hne
    have hstuck : Stuck t k s := stuck_of_exec h hgo (by simpa using hne)
    have hstuck' : Stuck t k s' :=
      exec_preserves (fun _ _ _ h hstep => h.move (step_move hstep)) hstuck hs'
    exact hstuck'.not_exited (counted_exec (exec_append h hs')) hexited
  · intro hfree
    have hfinish : Finishable s := ⟨⟨events, h⟩, hfree⟩
    obtain ⟨l, hl⟩ := (counted_exec h).readers.exists_list
    have hall : Reaches step s fun s' => (Finishable s' ∧
        ∀ u, (s.calls u).isRunning = false → (s'.calls u).isRunning = false) ∧
        ∀ u ∈ l, (s'.calls u).isRunning = false := by
      refine reaches_all (fun u s' hs' => ?_) l ⟨hfinish, fun _ hu => hu⟩
      refine (hs'.1.reaches_returned u).trans fun s'' hs'' => .refl ?_
      exact ⟨⟨hs''.1, fun v hv => hs''.2.2 v (hs'.2 v hv)⟩, hs''.2⟩
    refine hall.trans fun s' hs' => reaches_exited ?_
    obtain ⟨⟨⟨⟨events', hevents'⟩, -⟩, hidle⟩, hreturned⟩ := hs'
    refine (counted_exec hevents').readers.eq_zero_iff.2 fun u => ?_
    rw [Bool.not_eq_true]
    cases hu : (s.calls u).isRunning with
    | false => exact hidle u hu
    | true => exact hreturned u (hl u hu)

/-- Another relayer's transaction is seen while the result of the own signing process is sent. -/
def stuckPair : List Event :=
  [.execute 0 ⟨100, 10⟩ pairProposals fun p => .ok (p.data.depositNonce = 1), .iterate 0, .launch 0 0,
    .session 0 0 (.result none), .session 0 0 (.tick fun _ => .ok true), .signal]

theorem exits_iff_stuckPair : ∃ s, exec step init stuckPair = some s ∧
    ¬ ∃ es s', exec step s es = some s' ∧ s'.exit = .exited := by
  have hgo : (exec step init stuckPair).map (fun s => s.go 0 0) = some (.session
      ⟨"1-2-20-24-0", .sending none, .returned none, []⟩) := by
    decide +kernel
  obtain ⟨s, hs, hgo⟩ := Option.map_eq_some_iff.1 hgo
  refine ⟨s, hs, fun hexits => ?_⟩
  have hfree := (exits_iff hs).1 hexits 0 0 _ hgo
  cases hfree

end Sygma.EvmExecution
