import SygmaRelayer.Proofs.CoordinatorSteps

/-! The keyshare mutex. Resharing and FROST keygen lock it when they are
constructed, ECDSA keygen when it runs, and all of them unlock it in `Stop`. That
fits together when no process that is constructed with the lock is rejected as
already pending and no ECDSA keygen ends before it has run. -/

namespace Sygma.Tss

open Runs

/-- The discipline of the keyshare mutexes. -/
structure LockDiscipline (s : State) : Prop where
  /-- a process whose `Stop` is about to unlock the keyshare has locked it -/
  unlocksOwn : ∀ c p todo procs, s.call c = .stopping (p :: todo) procs →
    p.kind.unlocksInStop = true → s.mutex p.kind.store = some p
  /-- after `Execute` has returned none of its processes holds the mutex -/
  freed : ∀ c procs, s.call c = .returned procs ∨ s.call c = .rejected procs →
    ∀ p ∈ procs, s.mutex p.kind.store ≠ some p
  alive : s.crashed = false

/-- No process that holds the lock from its construction is rejected as already pending, and no
`Execute` ends before its ECDSA keygen has run. -/
def StopsHoldingLock (s : State) : Event → Prop
  | .check c => s.pendingProcesses (headSession (s.call c).procs) = true →
      ∀ p ∈ (s.call c).procs, p.kind.locksInNew = false
  | .finish c => ∀ p ∈ (s.call c).procs, p.kind.locksInRun = true → s.pc p = .ran
  | _ => True

instance (s : State) : (e : Event) → Decidable (StopsHoldingLock s e)
  | .check _ => inferInstanceAs (Decidable (_ → ∀ p ∈ _, _))
  | .finish _ => inferInstanceAs (Decidable (∀ p ∈ _, _))
  | .new _ | .newDone _ | .execute _ _ | .set _ | .start _ | .run _ | .runEnd _ | .clear _
  | .stop _ | .ret _ => inferInstanceAs (Decidable True)

/-- The process holds the mutex of its store. -/
def Kind.mustHold (k : Kind) : ProcPc → Bool
  | .absent | .stopped => false
  | .reading => k.signs
  | .constructed | .passed | .launched => k.locksInNew
  | .running | .ran => k.locksInNew || k.locksInRun

/-- The process may hold the mutex of its store: an ECDSA keygen that is run again holds it. -/
def Kind.mayHold (k : Kind) : ProcPc → Bool
  | .launched => k.locksInNew || k.locksInRun
  | pc => k.mustHold pc

/-- The mutexes are held by the processes that should hold them. -/
structure Held (mutex : Store → Option Process) (pc : Process → ProcPc) : Prop where
  must : ∀ p, p.kind.mustHold (pc p) = true → mutex p.kind.store = some p
  may : ∀ st p, mutex st = some p → p.kind.store = st ∧ p.kind.mayHold (pc p) = true

namespace Held

variable {mutex : Store → Option Process} {pc pc' : Process → ProcPc} {p : Process} {v : ProcPc}

theorem mono (h : Held mutex pc)
    (hmust : ∀ p : Process, p.kind.mustHold (pc' p) = true → p.kind.mustHold (pc p) = true)
    (hmay : ∀ p : Process, p.kind.mayHold (pc p) = true → p.kind.mayHold (pc' p) = true) :
    Held mutex pc' where
  must p hp := h.must p (hmust p hp)
  may st p hp := ⟨(h.may st p hp).1, hmay p (h.may st p hp).2⟩

theorem setPcs (h : Held mutex pc) {procs : List Process}
    (hmust : ∀ p ∈ procs, p.kind.mustHold v = true → p.kind.mustHold (pc p) = true)
    (hmay : ∀ p ∈ procs, p.kind.mayHold (pc p) = true → p.kind.mayHold v = true) :
    Held mutex (fun p => if p ∈ procs then v else pc p) := by
  refine h.mono (fun q hq => ?_) (fun q hq => ?_)
  · split_ifs at hq with hmem
    · exact hmust q hmem hq
    · exact hq
  · split_ifs with hmem
    · exact hmay q hmem hq
    · exact hq

theorem setPc (h : Held mutex pc)
    (hmust : p.kind.mustHold v = true → p.kind.mustHold (pc p) = true)
    (hmay : p.kind.mayHold (pc p) = true → p.kind.mayHold v = true) :
    Held mutex (Function.update pc p v) := by
  have heq : Function.update pc p v = fun q => if q ∈ [p] then v else pc q := by
    funext q
    simp [Function.update_apply]
  rw [heq]
  exact h.setPcs (by simpa using hmust) (by simpa using hmay)

theorem setHolder {holder : Option Process} (h : Held mutex pc)
    (hmine : ∀ q, mutex p.kind.store = some q → q = p)
    (hmay : ∀ q, holder = some q → q = p ∧ p.kind.mayHold v = true)
    (hmust : p.kind.mustHold v = true → holder = some p) :
    Held (Function.update mutex p.kind.store holder) (Function.update pc p v) where
  must q hq := by
    by_cases he : q = p
    · subst he
      simpa using hmust (by simpa using hq)
    · rw [Function.update_of_ne he] at hq
      have hm := h.must q hq
      have hst : q.kind.store ≠ p.kind.store := by
        intro hst
        rw [hst] at hm
        exact he (hmine q hm)
      rwa [Function.update_of_ne hst]
  may st q hq := by
    by_cases hst : st = p.kind.store
    · subst hst
      rw [Function.update_self] at hq
      obtain ⟨rfl, hmay⟩ := hmay q hq
      exact ⟨rfl, by simpa using hmay⟩
    · rw [Function.update_of_ne hst] at hq
      obtain ⟨hs, hm⟩ := h.may st q hq
      have he : q ≠ p := by
        rintro rfl
        exact hst hs.symm
      exact ⟨hs, by rwa [Function.update_of_ne he]⟩

theorem acquire (h : Held mutex pc) (hfree : mutex p.kind.store = none)
    (hmay : p.kind.mayHold v = true) :
    Held (Function.update mutex p.kind.store (some p)) (Function.update pc p v) := by
  refine h.setHolder (fun q hq => ?_) (fun q hq => ⟨(Option.some.inj hq).symm, hmay⟩) fun _ => rfl
  rw [hfree] at hq
  cases hq

theorem release (h : Held mutex pc) (hmine : mutex p.kind.store = some p)
    (hmust : p.kind.mustHold v = false) :
    Held (Function.update mutex p.kind.store none) (Function.update pc p v) := by
  refine h.setHolder (fun q hq => ?_) (fun q hq => nomatch hq) fun hv => ?_
  · exact Option.some.inj (hq.symm.trans hmine)
  · rw [hmust] at hv
    cases hv

end Held

/-- What the condition on the calls leaves behind. -/
structure Ended (call : ℕ → CallPc) (pc : Process → ProcPc) : Prop where
  rejected : ∀ c procs, call c = .rejected procs → ∀ p ∈ procs, p.kind.locksInNew = false
  clearing : ∀ c procs, call c = .clearing procs →
    ∀ p ∈ procs, p.kind.locksInRun = true → pc p = .ran
  stopping : ∀ c todo procs, call c = .stopping todo procs →
    ∀ p ∈ todo, p.kind.locksInRun = true → pc p = .ran

namespace Ended

variable {call : ℕ → CallPc} {pc pc' : Process → ProcPc}

theorem frame (h : Ended call pc) (hl : Linked call pc)
    (hpc : ∀ c, (∀ procs, call c ≠ .working procs) → ∀ q ∈ (call c).procs, pc' q = pc q) :
    Ended call pc' where
  rejected := h.rejected
  clearing c procs hc p hp hk := by
    rw [hpc c (by simp [hc]) p (by rw [hc]; exact hp)]
    exact h.clearing c procs hc p hp hk
  stopping c todo procs hc p hp hk := by
    rw [hpc c (by simp [hc]) p (by rw [hc]; exact (hl.todo c todo procs hc).2 hp)]
    exact h.stopping c todo procs hc p hp hk

theorem setPc (h : Ended call pc) (hl : Linked call pc) {p : Process} {v : ProcPc}
    (hp : ∀ c, (∀ procs, call c ≠ .working procs) → p ∉ (call c).procs) :
    Ended call (Function.update pc p v) := by
  refine h.frame hl fun c hc q hq => Function.update_of_ne ?_ _ _
  rintro rfl
  exact hp c hc hq

theorem setCall (h : Ended call pc) {c : ℕ} {cp : CallPc}
    (hrej : ∀ procs, cp = .rejected procs → ∀ p ∈ procs, p.kind.locksInNew = false)
    (hclr : ∀ procs, cp = .clearing procs → ∀ p ∈ procs, p.kind.locksInRun = true → pc p = .ran)
    (hstop : ∀ todo procs, cp = .stopping todo procs →
      ∀ p ∈ todo, p.kind.locksInRun = true → pc p = .ran) :
    Ended (Function.update call c cp) pc where
  rejected := (Function.forall_update_iff call fun _ cp => ∀ procs, cp = .rejected procs →
    ∀ p ∈ procs, p.kind.locksInNew = false).2 ⟨hrej, fun d _ => h.rejected d⟩
  clearing := (Function.forall_update_iff call fun _ cp => ∀ procs, cp = .clearing procs →
    ∀ p ∈ procs, p.kind.locksInRun = true → pc p = .ran).2 ⟨hclr, fun d _ => h.clearing d⟩
  stopping := (Function.forall_update_iff call fun _ cp => ∀ todo procs, cp = .stopping todo procs →
    ∀ p ∈ todo, p.kind.locksInRun = true → pc p = .ran).2 ⟨hstop, fun d _ => h.stopping d⟩

theorem stop (h : Ended call pc) (hl : Linked call pc) {c : ℕ} {p : Process}
    {todo procs : List Process} (hc : call c = .stopping (p :: todo) procs) :
    Ended (Function.update call c (.stopping todo procs)) (Function.update pc p .stopped) := by
  obtain ⟨hnd, hsub⟩ := hl.todo c _ _ hc
  have hshrunk : Ended (Function.update call c (.stopping todo procs)) pc := by
    refine h.setCall (by simp) (by simp) ?_
    rintro _ _ ⟨⟩ q hq hk
    exact h.stopping c _ _ hc q (List.mem_cons_of_mem p hq) hk
  have hpc : p ∈ (call c).procs := by
    rw [hc]
    exact hsub List.mem_cons_self
  have hpt : p ∉ todo := (List.nodup_cons.1 hnd).1
  have hother : ∀ d, d ≠ c → ∀ q ∈ (call d).procs, q ≠ p := by
    rintro d hd q hq rfl
    exact hd (hl.unique d c q hq hpc)
  refine ⟨hshrunk.rejected, fun d ps hd q hq hk => ?_, fun d td ps hd q hq hk => ?_⟩
  · have hdc : d ≠ c := by
      rintro rfl
      simp at hd
    have hcd : call d = .clearing ps := by rwa [Function.update_of_ne hdc] at hd
    rw [Function.update_of_ne (hother d hdc q (by rw [hcd]; exact hq))]
    exact hshrunk.clearing d ps hd q hq hk
  · have hne : q ≠ p := by
      by_cases hdc : d = c
      · subst hdc
        obtain ⟨rfl, -⟩ : todo = td ∧ procs = ps := by simpa using hd
        rintro rfl
        exact hpt hq
      · have hcd : call d = .stopping td ps := by rwa [Function.update_of_ne hdc] at hd
        exact hother d hdc q (by rw [hcd]; exact (hl.todo d _ _ hcd).2 hq)
    rw [Function.update_of_ne hne]
    exact hshrunk.stopping d td ps hd q hq hk

end Ended

structure LockInv (s : State) : Prop where
  linked : Linked s.call s.pc
  held : Held s.mutex s.pc
  ended : Ended s.call s.pc
  alive : s.crashed = false

theorem lockInv_init : LockInv init where
  linked := linked_init
  held := ⟨fun p hp => by simp [init, Kind.mustHold] at hp, fun st p hp => by simp [init] at hp⟩
  ended := ⟨fun _ _ h => by simp [init] at h, fun _ _ h => by simp [init] at h,
    fun _ _ _ h => by simp [init] at h⟩
  alive := rfl

/-- A process that is stopped holds the mutex if `Stop` unlocks it. -/
theorem LockInv.holds_of_stopping {s : State} (h : LockInv s) {c : ℕ} {p : Process}
    {todo procs : List Process} (hc : s.call c = .stopping (p :: todo) procs)
    (hk : p.kind.unlocksInStop = true) : s.mutex p.kind.store = some p := by
  have hran := h.ended.stopping c _ _ hc p List.mem_cons_self
  have hall := h.linked.allows_of hc ((h.linked.todo c _ _ hc).2 List.mem_cons_self)
  refine h.held.must p ?_
  rcases hall with ⟨-, hpc⟩ | ⟨hnot, -⟩
  · cases hkind : p.kind <;> rw [hkind] at hk hran <;> grind [Kind.mustHold, Kind.locksInNew,
      Kind.locksInRun, Kind.unlocksInStop]
  · simp at hnot

theorem LockInv.not_mayHold_of_stopping {s : State} (h : LockInv s) {c : ℕ} {p : Process}
    {todo procs : List Process} (hc : s.call c = .stopping (p :: todo) procs)
    (hk : p.kind.unlocksInStop ≠ true) : p.kind.mayHold (s.pc p) ≠ true := by
  have hmem := (h.linked.todo c _ _ hc).2 List.mem_cons_self
  rcases h.linked.allows_of hc hmem with ⟨-, hpc | hpc⟩ | ⟨-, hpc⟩ <;>
    cases hkind : p.kind <;>
    simp_all [Kind.mayHold, Kind.mustHold, Kind.unlocksInStop, Kind.locksInNew, Kind.locksInRun]

theorem LockInv.discipline {s : State} (h : LockInv s) : LockDiscipline s where
  unlocksOwn c p todo procs hc hk := h.holds_of_stopping hc hk
  freed c procs hc p hp hm := by
    obtain ⟨-, hmay⟩ := h.held.may _ p hm
    rcases hc with hc | hc
    · have hst : s.pc p = .stopped := h.linked.allows_of hc hp
      simp [hst, Kind.mayHold, Kind.mustHold] at hmay
    · have hst : s.pc p = .passed := h.linked.allows_of hc hp
      simp [hst, Kind.mayHold, Kind.mustHold, h.ended.rejected c procs hc p hp] at hmay
  alive := h.alive

theorem unlock_of_held {s : State} {st : Store} {p : Process} (h : s.mutex st = some p) :
    s.unlock st = { s with mutex := Function.update s.mutex st none } := by
  unfold State.unlock
  rw [h]

theorem notMem_of_active {call : ℕ → CallPc} {pc : Process → ProcPc} (hl : Linked call pc)
    {p : Process} (hp : pc p = .launched ∨ pc p = .running) (c : ℕ)
    (hc : ∀ procs, call c ≠ .working procs) : p ∉ (call c).procs := by
  intro hmem
  obtain ⟨d, procs, hd, hpd⟩ := hl.inCall p hp
  obtain rfl := hl.unique c d p hmem (by rw [hd]; exact hpd)
  exact hc procs hd

theorem ended_step {s s' : State} {e : Event} (h : LockInv s) (hG : StopsHoldingLock s e)
    (hs : Step s e s') : Ended s'.call s'.pc := by
  have hl := h.linked
  cases hs with
  | newHold hp hk hm | newRead hp hk hm | newPlain hp hk =>
    exact h.ended.setPc hl fun c _ => hl.notMem_of_fresh (Or.inl hp) c
  | newDone hk hp =>
    simp only [State.setPc, unlock_call, unlock_pc]
    exact h.ended.setPc hl fun c _ => hl.notMem_of_fresh (Or.inr (Or.inl hp)) c
  | execute hc hn =>
    refine Ended.setCall (h.ended.frame hl fun c _ q hq => if_neg fun hmem => ?_) (by simp) (by simp)
      (by simp)
    exact hl.notMem_of_fresh (Or.inr (Or.inr (hn.2.2 q hmem))) c hq
  | checkReject hc hp =>
    refine h.ended.setCall ?_ (by simp) (by simp)
    rintro _ ⟨⟩
    simp only [StopsHoldingLock, hc] at hG
    exact hG hp
  | @start c procs hc hlaunch =>
    refine h.ended.frame hl fun d hd q hq => if_neg fun hmem => ?_
    obtain rfl := hl.unique d c q hq (by rw [hc]; exact hmem)
    exact hd procs hc
  | runLock hp hk hm | run hp hk =>
    exact h.ended.setPc hl fun c hc => notMem_of_active hl (Or.inl hp) c hc
  | runEnd hp => exact h.ended.setPc hl fun c hc => notMem_of_active hl (Or.inr hp) c hc
  | finish hc hq =>
    refine h.ended.setCall (by simp) ?_ (by simp)
    rintro _ ⟨⟩
    simp only [StopsHoldingLock, hc] at hG
    exact hG
  | clear hc =>
    refine h.ended.setCall (by simp) (by simp) ?_
    rintro _ _ ⟨⟩
    exact h.ended.clearing _ _ hc
  | stop hc =>
    have := h.ended.stop hl hc
    split_ifs <;> simpa using this
  | checkPass | set | ret => exact h.ended.setCall (by simp) (by simp) (by simp)

theorem mustHold_launched {k : Kind} {pc : ProcPc} (hpc : pc = .passed ∨ pc = .ran)
    (h : k.mustHold .launched = true) : k.mustHold pc = true := by
  rcases hpc with rfl | rfl <;> simp_all [Kind.mustHold]

theorem mayHold_launched {k : Kind} {pc : ProcPc} (hpc : pc = .passed ∨ pc = .ran)
    (h : k.mayHold pc = true) : k.mayHold .launched = true := by
  rcases hpc with rfl | rfl <;> simp_all [Kind.mustHold, Kind.mayHold]

theorem held_step {s s' : State} {e : Event} (h : LockInv s) (hs : Step s e s') :
    Held s'.mutex s'.pc ∧ s'.crashed = false := by
  have hh := h.held
  cases hs with
  | newHold hp hk hm | newRead hp hk hm =>
    exact ⟨hh.acquire hm (by simpa [Kind.mayHold, Kind.mustHold] using hk), h.alive⟩
  | @newPlain p hp hk =>
    refine ⟨hh.setPc (fun hm => ?_) (fun hm => ?_), h.alive⟩
    · cases hkind : p.kind <;> simp_all [Kind.mustHold, Kind.locksInNew, Kind.locksInRun]
    · simp [hp, Kind.mayHold, Kind.mustHold] at hm
  | @newDone p hk hp =>
    have hmine := hh.must p (by simp [hp, hk, Kind.mustHold])
    rw [unlock_of_held hmine]
    refine ⟨hh.release hmine ?_, h.alive⟩
    cases hkind : p.kind <;> simp_all [Kind.mustHold, Kind.locksInNew, Kind.signs]
  | execute hc hn =>
    refine ⟨hh.setPcs (fun p hmem hm => ?_) (fun p hmem hm => ?_), h.alive⟩
    · simpa [hn.2.2 p hmem, Kind.mustHold] using hm
    · simpa [hn.2.2 p hmem, Kind.mayHold, Kind.mustHold] using hm
  | start hc hlaunch =>
    have hpc : ∀ p ∈ _, s.pc p = .passed ∨ s.pc p = .ran := fun p hp =>
      (hlaunch p hp).imp id And.right
    exact ⟨hh.setPcs (fun p hp => mustHold_launched (hpc p hp))
      (fun p hp => mayHold_launched (hpc p hp)), h.alive⟩
  | runLock hp hk hm => exact ⟨hh.acquire hm (by simp [Kind.mayHold, Kind.mustHold, hk]), h.alive⟩
  | run hp hk =>
    refine ⟨hh.setPc (fun hm => ?_) (fun hm => ?_), h.alive⟩
    · simpa [hp, hk, Kind.mustHold] using hm
    · simpa [hp, hk, Kind.mayHold, Kind.mustHold] using hm
  | runEnd hp =>
    refine ⟨hh.setPc (fun hm => ?_) (fun hm => ?_), h.alive⟩
    · simpa [hp, Kind.mustHold] using hm
    · simpa [hp, Kind.mayHold, Kind.mustHold] using hm
  | @stop c p todo procs hc =>
    by_cases hk : p.kind.unlocksInStop = true
    · have hmine := h.holds_of_stopping hc hk
      rw [if_pos hk, unlock_of_held hmine]
      exact ⟨hh.release hmine rfl, h.alive⟩
    · rw [if_neg hk]
      have hnot := h.not_mayHold_of_stopping hc hk
      exact ⟨hh.setPc (fun hm => by cases hm) (fun hm => absurd hm hnot), h.alive⟩
  | checkReject | checkPass | set | finish | clear | ret => exact ⟨hh, h.alive⟩

theorem lockInv_step {s s' : State} {e : Event} (h : LockInv s) (hG : StopsHoldingLock s e)
    (hs : step s e = some s') : LockInv s' := by
  obtain ⟨-, hcase⟩ := step_cases hs
  obtain ⟨hheld, halive⟩ := held_step h hcase
  exact ⟨linked_step h.linked hs, hheld, ended_step h hG hcase, halive⟩

/-- The keyshare mutexes are handled right in every run that meets the condition. -/
theorem lock_discipline {es : List Event} {s : State} (hG : Along step StopsHoldingLock init es)
    (h : exec step init es = some s) : LockDiscipline s :=
  (exec_inv (fun _ _ _ => lockInv_step) lockInv_init hG h).discipline

/-- An `Execute` call with one process that runs to its end. -/
def executes (c : ℕ) (p : Process) : List Event :=
  [.execute c [p], .check c, .set c, .start c, .run p, .runEnd p, .finish c, .clear c, .stop c,
    .ret c]

def ecdsaKeygen : Process := ⟨0, .ecdsaKeygen, "keygen-100"⟩
def ecdsaResharing : Process := ⟨1, .ecdsaResharing, "resharing-200"⟩

/-- A keygen and then a resharing. -/
def keygenThenResharing : List Event :=
  .new ecdsaKeygen :: executes 0 ecdsaKeygen ++ .new ecdsaResharing :: executes 1 ecdsaResharing

theorem lock_discipline_keygen :
    ∃ s, exec step init keygenThenResharing = some s ∧ LockDiscipline s ∧
      s.call 0 = .returned [ecdsaKeygen] ∧ s.call 1 = .returned [ecdsaResharing] :=
  ⟨_, rfl, @lock_discipline keygenThenResharing _ (by decide) rfl, rfl, rfl⟩

def frostSigning : Process := ⟨2, .frostSigning, "frost-keygen-300"⟩
def frostKeygen : Process := ⟨3, .frostKeygen, "frost-keygen-300"⟩

/-- An ECDSA keygen whose coordinator never sends the start message dies unlocking a free mutex;
a FROST keygen that is rejected keeps the mutex locked. -/
theorem unlock_not_held :
    (exec step init [.new ecdsaKeygen, .execute 0 [ecdsaKeygen], .check 0, .set 0, .finish 0,
      .clear 0]).map (fun s => (s.call 0, s.mutex .ecdsa)) =
        some (.stopping [ecdsaKeygen] [ecdsaKeygen], none) ∧
    (exec step init [.new ecdsaKeygen, .execute 0 [ecdsaKeygen], .check 0, .set 0, .finish 0,
      .clear 0, .stop 0]).map State.crashed = some true ∧
    (exec step init [.new frostSigning, .newDone frostSigning, .execute 0 [frostSigning], .check 0,
      .set 0, .new frostKeygen, .execute 1 [frostKeygen], .check 1]).map
        (fun s => (s.call 1, s.mutex .frost)) =
          some (.rejected [frostKeygen], some frostKeygen) := by
  decide

end Sygma.Tss
