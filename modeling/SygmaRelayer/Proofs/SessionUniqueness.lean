import Mathlib.Data.List.Nodup
import SygmaRelayer.Proofs.CoordinatorSteps

/-! One running process per session. `Execute` records only the session of its first
process, and it reads `pendingProcesses` before it takes the lock that the write is
made under, so the law needs that the flag is still free at the write and that lists
share sessions at most between their first processes. -/

namespace Sygma.Tss

open Runs

/-- No two processes run in one session. -/
def OneRunning (s : State) : Prop :=
  ∀ p q, s.pc p = .running → s.pc q = .running → p.sessionID = q.sessionID → p = q

/-- Between the write that sets `pendingProcesses` and the one that clears it. -/
def CallPc.inFlight : CallPc → Bool
  | .working _ | .clearing _ => true
  | .idle | .checking _ | .setting _ | .stopping _ _ | .rejected _ | .returned _ => false

/-- When `Execute` sets `pendingProcesses`, the flag is still free, the processes of its list have
different sessions, and lists in flight share a session only between their first processes. -/
def SetsFreeSession (s : State) : Event → Prop
  | .set c => s.pendingProcesses (headSession (s.call c).procs) = false ∧
      ((s.call c).procs.map Process.sessionID).Nodup ∧
      ∀ d, (s.call d).inFlight = true → ∀ p ∈ (s.call c).procs, ∀ q ∈ (s.call d).procs,
        p.sessionID = q.sessionID →
          (s.call c).procs.head? = some p ∧ (s.call d).procs.head? = some q
  | _ => True

theorem headSession_eq {procs : List Process} {p : Process} (h : procs.head? = some p) :
    headSession procs = p.sessionID := by
  cases procs with
  | nil => cases h
  | cons q procs => exact congrArg Process.sessionID (Option.some.inj h)

theorem headSession_mem {procs : List Process} (h : procs ≠ []) :
    ∃ p ∈ procs, p.sessionID = headSession procs := by
  cases procs with
  | nil => exact absurd rfl h
  | cons q procs => exact ⟨q, List.mem_cons_self, rfl⟩

/-- The lists in flight. -/
structure Apart (pending : String → Bool) (call : ℕ → CallPc) : Prop where
  flagged : ∀ c, (call c).inFlight = true → pending (headSession (call c).procs) = true
  distinct : ∀ c, (call c).inFlight = true → ((call c).procs.map Process.sessionID).Nodup
  apart : ∀ c d, c ≠ d → (call c).inFlight = true → (call d).inFlight = true →
    ∀ p ∈ (call c).procs, ∀ q ∈ (call d).procs, p.sessionID ≠ q.sessionID

namespace Apart

variable {pending : String → Bool} {call : ℕ → CallPc} {c : ℕ} {cp : CallPc}

theorem leave (h : Apart pending call) (hcp : cp.inFlight = false) :
    Apart pending (Function.update call c cp) := by
  have hne : ∀ d, ((Function.update call c cp) d).inFlight = true →
      (Function.update call c cp) d = call d := by
    intro d hd
    refine Function.update_of_ne ?_ _ _
    rintro rfl
    simp [hcp] at hd
  refine ⟨fun d hd => ?_, fun d hd => ?_, fun d e hde hd he => ?_⟩
  · have hd' := hne d hd
    rw [hd'] at hd ⊢
    exact h.flagged d hd
  · have hd' := hne d hd
    rw [hd'] at hd ⊢
    exact h.distinct d hd
  · have hd' := hne d hd
    have he' := hne e he
    rw [hd'] at hd ⊢
    rw [he'] at he ⊢
    exact h.apart d e hde hd he

theorem stay (h : Apart pending call) (hc : (call c).inFlight = true)
    (hprocs : cp.procs = (call c).procs) (hcp : cp.inFlight = true) :
    Apart pending (Function.update call c cp) := by
  have hin : ∀ d, ((Function.update call c cp) d).inFlight = (call d).inFlight :=
    (Function.forall_update_iff call fun d cp => cp.inFlight = (call d).inFlight).2
      ⟨hcp.trans hc.symm, fun _ _ => rfl⟩
  have hpr : ∀ d, ((Function.update call c cp) d).procs = (call d).procs :=
    (Function.forall_update_iff call fun d cp => cp.procs = (call d).procs).2
      ⟨hprocs, fun _ _ => rfl⟩
  refine ⟨fun d hd => ?_, fun d hd => ?_, fun d e hde hd he => ?_⟩
  · rw [hpr]
    exact h.flagged d (by rwa [hin] at hd)
  · rw [hpr]
    exact h.distinct d (by rwa [hin] at hd)
  · rw [hpr, hpr]
    exact h.apart d e hde (by rwa [hin] at hd) (by rwa [hin] at he)

theorem enter (h : Apart pending call) {procs : List Process} (hc : (call c).inFlight = false)
    (hfree : pending (headSession procs) = false) (hnd : (procs.map Process.sessionID).Nodup)
    (hshare : ∀ d, (call d).inFlight = true → ∀ p ∈ procs, ∀ q ∈ (call d).procs,
      p.sessionID = q.sessionID → procs.head? = some p ∧ (call d).procs.head? = some q) :
    Apart (Function.update pending (headSession procs) true)
      (Function.update call c (.working procs)) := by
  -- two lists can share a session only between their first processes, and there the flag tells
  have hdiff : ∀ d, (call d).inFlight = true → ∀ p ∈ procs, ∀ q ∈ (call d).procs,
      p.sessionID ≠ q.sessionID := by
    intro d hd p hp q hq he
    obtain ⟨hph, hqh⟩ := hshare d hd p hp q hq he
    have hset := h.flagged d hd
    rw [headSession_eq hqh, ← he, ← headSession_eq hph, hfree] at hset
    cases hset
  refine ⟨fun d hd => ?_, fun d hd => ?_, fun d e hde hd he => ?_⟩
  · by_cases hdc : d = c
    · subst hdc
      simp [CallPc.procs]
    · rw [Function.update_of_ne hdc] at hd ⊢
      rw [Function.update_apply]
      split_ifs
      · rfl
      · exact h.flagged d hd
  · by_cases hdc : d = c
    · subst hdc
      simpa [CallPc.procs] using hnd
    · rw [Function.update_of_ne hdc] at hd ⊢
      exact h.distinct d hd
  · by_cases hdc : d = c
    · subst hdc
      have hed : e ≠ d := Ne.symm hde
      rw [Function.update_of_ne hed] at he ⊢
      simpa [CallPc.procs] using hdiff e he
    · rw [Function.update_of_ne hdc] at hd ⊢
      by_cases hec : e = c
      · subst hec
        intro p hp q hq
        exact (hdiff d hd q (by simpa [CallPc.procs] using hq) p hp).symm
      · rw [Function.update_of_ne hec] at he ⊢
        exact h.apart d e hde hd he

/-- The flag of a list that leaves is no other list's flag. -/
theorem clear (h : Apart pending call) (hne : ∀ d, call d ≠ .idle → (call d).procs ≠ [])
    (hc : (call c).inFlight = true) (hcp : cp.inFlight = false) :
    Apart (Function.update pending (headSession (call c).procs) false)
      (Function.update call c cp) := by
  have hleft : Apart pending (Function.update call c cp) := h.leave hcp
  refine ⟨fun d hd => ?_, hleft.distinct, hleft.apart⟩
  have hdc : d ≠ c := by
    rintro rfl
    simp [hcp] at hd
  have hflag := hleft.flagged d hd
  rw [Function.update_of_ne hdc] at hd hflag ⊢
  have hidle : ∀ d, (call d).inFlight = true → call d ≠ .idle := by
    intro d hd he
    rw [he] at hd
    cases hd
  obtain ⟨p, hp, hps⟩ := headSession_mem (hne c (hidle c hc))
  obtain ⟨q, hq, hqs⟩ := headSession_mem (hne d (hidle d hd))
  rw [Function.update_of_ne]
  · exact hflag
  · rw [← hps, ← hqs]
    exact h.apart d c hdc hd hc q hq p hp

end Apart

structure SessionInv (s : State) : Prop where
  linked : Linked s.call s.pc
  apart : Apart s.pendingProcesses s.call

theorem sessionInv_init : SessionInv init where
  linked := linked_init
  apart := ⟨fun _ h => by simp [init, CallPc.inFlight] at h,
    fun _ h => by simp [init, CallPc.inFlight] at h,
    fun _ _ _ h => by simp [init, CallPc.inFlight] at h⟩

theorem SessionInv.oneRunning {s : State} (h : SessionInv s) : OneRunning s := by
  intro p q hp hq he
  obtain ⟨c, ps, hc, hpm⟩ := h.linked.inCall p (Or.inr hp)
  obtain ⟨d, qs, hd, hqm⟩ := h.linked.inCall q (Or.inr hq)
  have hcf : (s.call c).inFlight = true := by rw [hc]; rfl
  have hdf : (s.call d).inFlight = true := by rw [hd]; rfl
  have hpc : p ∈ (s.call c).procs := by rw [hc]; exact hpm
  have hqd : q ∈ (s.call d).procs := by rw [hd]; exact hqm
  by_cases hcd : c = d
  · subst hcd
    exact List.inj_on_of_nodup_map (h.apart.distinct c hcf) hpc hqd he
  · exact absurd he (h.apart.apart c d hcd hcf hdf p hpc q hqd)

theorem sessionInv_step {s s' : State} {e : Event} (h : SessionInv s) (hG : SetsFreeSession s e)
    (hs : step s e = some s') : SessionInv s' := by
  refine ⟨linked_step h.linked hs, ?_⟩
  obtain ⟨-, hs⟩ := step_cases hs
  cases hs with
  | newHold hp hk hm | newRead hp hk hm | newPlain hp hk | start hc hl | runLock hp hk hm
  | run hp hk | runEnd hp => exact h.apart
  | newDone hk hp =>
    simp only [State.setPc, unlock_pending, unlock_call]
    exact h.apart
  | execute hc hn => exact h.apart.leave rfl
  | checkReject hc hp | checkPass hc hp | ret hc => exact h.apart.leave rfl
  | set hc =>
    simp only [SetsFreeSession, hc] at hG
    exact h.apart.enter (by rw [hc]; rfl) hG.1 hG.2.1 hG.2.2
  | finish hc hq => exact h.apart.stay (by rw [hc]; rfl) (by rw [hc]; rfl) rfl
  | @clear c procs hc =>
    have := @Apart.clear _ _ c (.stopping procs procs) h.apart h.linked.nonempty
      (by rw [hc]; rfl) rfl
    rw [hc] at this
    exact this
  | @stop c p todo procs hc =>
    have := @Apart.leave _ _ c (.stopping todo procs) h.apart rfl
    split_ifs <;> simpa using this

/-- Every run that meets the condition has at most one running process per session. -/
theorem one_running_per_session {es : List Event} {s : State}
    (hG : Along step SetsFreeSession init es) (h : exec step init es = some s) : OneRunning s :=
  (exec_inv (fun _ _ _ => sessionInv_step) sessionInv_init hG h).oneRunning

def signing (id : ℕ) (sessionID : String) : Process := ⟨id, .frostSigning, sessionID⟩

def constructs (p : Process) : List Event := [.new p, .newDone p]

/-- Up to the write that sets `pendingProcesses`. -/
def checkedTogether : List Event :=
  constructs (signing 0 "a1") ++ constructs (signing 1 "b2") ++ constructs (signing 2 "a1") ++
    [.execute 0 [signing 0 "a1", signing 1 "b2"], .check 0]

/-- Two inputs of one transaction are signed together, and a second attempt for the first input
is rejected. -/
def signedTogether : List Event :=
  checkedTogether ++ .set 0 :: [.start 0, .run (signing 0 "a1"), .run (signing 1 "b2"),
    .execute 1 [signing 2 "a1"], .check 1]

theorem setsFree_signedTogether : Along step SetsFreeSession init signedTogether := by
  have htriv : ∀ e : Event, (∀ c, e ≠ .set c) → ∀ s, SetsFreeSession s e := by
    intro e he s
    cases e <;> first | trivial | exact absurd rfl (he _)
  refine (@along_append _ _ step SetsFreeSession _ _ checkedTogether _ rfl).2 ⟨?_, ?_, ?_⟩
  · refine along_of_forall_mem fun e he => htriv e ?_
    rintro c rfl
    simp [checkedTogether, constructs] at he
  · refine ⟨rfl, by decide, fun d hd => ?_⟩
    -- the other calls are idle
    by_cases h0 : d = 0
    · subst h0
      cases hd
    · simp [init, CallPc.inFlight, h0] at hd
  · intro s _
    refine along_of_forall_mem fun e he => htriv e ?_
    rintro c rfl
    simp at he

theorem one_running_signedTogether :
    ∃ s, exec step init signedTogether = some s ∧ OneRunning s ∧
      s.pc (signing 0 "a1") = .running ∧ s.pc (signing 1 "b2") = .running ∧
      s.call 1 = .rejected [signing 2 "a1"] :=
  ⟨_, rfl, @one_running_per_session signedTogether _ setsFree_signedTogether rfl, rfl, rfl, rfl⟩

/-- Both calls read the flag before either sets it; and a session that is not the first of its
list is not recorded at all. -/
theorem two_running_in_one_session :
    (exec step init (constructs (signing 0 "a1") ++ constructs (signing 1 "a1") ++
      [.execute 0 [signing 0 "a1"], .execute 1 [signing 1 "a1"], .check 0, .check 1, .set 0, .set 1,
        .start 0, .start 1, .run (signing 0 "a1"), .run (signing 1 "a1")])).map
      (fun s => (s.pc (signing 0 "a1"), s.pc (signing 1 "a1"))) = some (.running, .running) ∧
    (exec step init (constructs (signing 0 "a1") ++ constructs (signing 1 "b2") ++
      constructs (signing 2 "b2") ++ [.execute 0 [signing 0 "a1", signing 1 "b2"], .check 0, .set 0,
        .start 0, .run (signing 1 "b2"), .execute 1 [signing 2 "b2"], .check 1, .set 1, .start 1,
        .run (signing 2 "b2")])).map
      (fun s => (s.pc (signing 1 "b2"), s.pc (signing 2 "b2"))) = some (.running, .running) := by
  decide

end Sygma.Tss
