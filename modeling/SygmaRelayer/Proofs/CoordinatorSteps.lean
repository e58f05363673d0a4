import SygmaRelayer.Spec.Coordinator

/-! What one step of the coordinator can do, and how its calls and processes hang
together in every state: a process belongs to at most one call, and where the call
stands bounds where the process stands. -/

namespace Sygma.Tss

open Function (forall_update_iff update_of_ne)

/-- The transitions of `stepEvent`, one constructor for each branch. -/
inductive Step (s : State) : Event → State → Prop
  | newHold {p} (hp : s.pc p = .absent) (hk : p.kind.locksInNew = true)
    (hm : s.mutex p.kind.store = none) :
    Step s (.new p) ((s.lock p).setPc p .constructed)
  | newRead {p} (hp : s.pc p = .absent) (hk : p.kind.signs = true)
    (hm : s.mutex p.kind.store = none) :
    Step s (.new p) ((s.lock p).setPc p .reading)
  | newPlain {p} (hp : s.pc p = .absent) (hk : p.kind.locksInRun = true) :
    Step s (.new p) (s.setPc p .constructed)
  | newDone {p} (hk : p.kind.signs = true) (hp : s.pc p = .reading) :
    Step s (.newDone p) ((s.unlock p.kind.store).setPc p .constructed)
  | execute {c procs} (hc : s.call c = .idle) (hn : Callable s procs) :
    Step s (.execute c procs) ((s.setPcs procs .passed).setCall c (.checking procs))
  | checkReject {c procs} (hc : s.call c = .checking procs)
    (hp : s.pendingProcesses (headSession procs) = true) :
    Step s (.check c) (s.setCall c (.rejected procs))
  | checkPass {c procs} (hc : s.call c = .checking procs)
    (hp : s.pendingProcesses (headSession procs) = false) :
    Step s (.check c) (s.setCall c (.setting procs))
  | set {c procs} (hc : s.call c = .setting procs) :
    Step s (.set c) ((s.setPending (headSession procs) true).setCall c (.working procs))
  | start {c procs} (hc : s.call c = .working procs) (hl : Launchable s procs) :
    Step s (.start c) (s.setPcs procs .launched)
  | runLock {p} (hp : s.pc p = .launched) (hk : p.kind.locksInRun = true)
    (hm : s.mutex p.kind.store = none) :
    Step s (.run p) ((s.lock p).setPc p .running)
  | run {p} (hp : s.pc p = .launched) (hk : p.kind.locksInRun = false) :
    Step s (.run p) (s.setPc p .running)
  | runEnd {p} (hp : s.pc p = .running) : Step s (.runEnd p) (s.setPc p .ran)
  | finish {c procs} (hc : s.call c = .working procs) (hq : Quiet s procs) :
    Step s (.finish c) (s.setCall c (.clearing procs))
  | clear {c procs} (hc : s.call c = .clearing procs) :
    Step s (.clear c) ((s.setPending (headSession procs) false).setCall c (.stopping procs procs))
  | stop {c p todo procs} (hc : s.call c = .stopping (p :: todo) procs) :
    Step s (.stop c) (((if p.kind.unlocksInStop then s.unlock p.kind.store else s).setPc p
      .stopped).setCall c (.stopping todo procs))
  | ret {c procs} (hc : s.call c = .stopping [] procs) :
    Step s (.ret c) (s.setCall c (.returned procs))

theorem step_cases {s s' : State} {e : Event} (h : step s e = some s') :
    s.crashed = false ∧ Step s e s' := by
  unfold step at h
  split_ifs at h with hcr
  refine ⟨by simpa using hcr, ?_⟩
  cases e with
  | new p =>
    simp only [stepEvent] at h
    split at h
    · rename_i hp hk hm
      cases h
      cases hkind : p.kind <;> simp only [hkind, Kind.locksInNew, Kind.signs] at hk ⊢
      · cases hk
      · exact .newHold hp (by rw [hkind]; rfl) hm
      · exact .newRead hp (by rw [hkind]; rfl) hm
      · exact .newHold hp (by rw [hkind]; rfl) hm
      · exact .newHold hp (by rw [hkind]; rfl) hm
      · exact .newRead hp (by rw [hkind]; rfl) hm
    · rename_i hp hk
      cases h
      refine .newPlain hp ?_
      cases hkind : p.kind <;> simp [hkind, Kind.locksInNew, Kind.signs] at hk ⊢
      rfl
    · cases h
  | newDone p =>
    simp only [stepEvent] at h
    split_ifs at h with hp
    cases h
    exact .newDone hp.1 hp.2
  | execute c procs =>
    simp only [stepEvent] at h
    split_ifs at h with hc
    cases h
    exact .execute hc.1 hc.2
  | check c =>
    simp only [stepEvent] at h
    split at h
    · split_ifs at h with hp
      · cases h; exact .checkReject ‹_› hp
      · cases h; exact .checkPass ‹_› (by simpa using hp)
    · cases h
  | set c =>
    simp only [stepEvent] at h
    split at h
    · cases h; exact .set ‹_›
    · cases h
  | start c =>
    simp only [stepEvent] at h
    split at h
    · split_ifs at h with hl
      cases h
      exact .start ‹_› hl
    · cases h
  | run p =>
    simp only [stepEvent] at h
    split at h
    · cases h; exact .runLock ‹_› ‹_› ‹_›
    · cases h; exact .run ‹_› ‹_›
    · cases h
  | runEnd p =>
    simp only [stepEvent] at h
    split_ifs at h with hp
    cases h
    exact .runEnd hp
  | finish c =>
    simp only [stepEvent] at h
    split at h
    · split_ifs at h with hq
      cases h
      exact .finish ‹_› hq
    · cases h
  | clear c =>
    simp only [stepEvent] at h
    split at h
    · cases h; exact .clear ‹_›
    · cases h
  | stop c =>
    simp only [stepEvent] at h
    split at h
    · cases h; exact .stop ‹_›
    · cases h
  | ret c =>
    simp only [stepEvent] at h
    split at h
    · cases h; exact .ret ‹_›
    · cases h

@[simp] theorem unlock_pc (s : State) (st : Store) : (s.unlock st).pc = s.pc := by
  unfold State.unlock
  split <;> rfl

@[simp] theorem unlock_call (s : State) (st : Store) : (s.unlock st).call = s.call := by
  unfold State.unlock
  split <;> rfl

@[simp] theorem unlock_pending (s : State) (st : Store) :
    (s.unlock st).pendingProcesses = s.pendingProcesses := by
  unfold State.unlock
  split <;> rfl

/-- The list an `Execute` call was given. -/
def CallPc.procs : CallPc → List Process
  | .idle => []
  | .checking procs | .setting procs | .working procs | .clearing procs | .stopping _ procs
  | .rejected procs | .returned procs => procs

/-- Where a process of the call may stand. -/
def CallPc.Allows : CallPc → Process → ProcPc → Prop
  | .idle, _, _ => False
  | .checking _, _, pc | .setting _, _, pc | .rejected _, _, pc => pc = .passed
  | .working _, _, pc => pc = .passed ∨ pc = .launched ∨ pc = .running ∨ pc = .ran
  | .clearing _, _, pc => pc = .passed ∨ pc = .ran
  | .stopping todo _, p, pc => p ∈ todo ∧ (pc = .passed ∨ pc = .ran) ∨ p ∉ todo ∧ pc = .stopped
  | .returned _, _, pc => pc = .stopped

/-- Calls and processes hang together. -/
structure Linked (call : ℕ → CallPc) (pc : Process → ProcPc) : Prop where
  allows : ∀ c p, p ∈ (call c).procs → (call c).Allows p (pc p)
  unique : ∀ c d p, p ∈ (call c).procs → p ∈ (call d).procs → c = d
  inCall : ∀ p, pc p = .launched ∨ pc p = .running → ∃ c procs, call c = .working procs ∧ p ∈ procs
  todo : ∀ c todo procs, call c = .stopping todo procs → todo.Nodup ∧ todo ⊆ procs
  nodup : ∀ c, (call c).procs.Nodup
  nonempty : ∀ c, call c ≠ .idle → (call c).procs ≠ []

theorem linked_init : Linked init.call init.pc where
  allows _ _ h := by simp [init, CallPc.procs] at h
  unique _ _ _ h := by simp [init, CallPc.procs] at h
  inCall _ h := by simp [init] at h
  todo _ _ _ h := by simp [init] at h
  nodup _ := by simp [init, CallPc.procs]
  nonempty _ h := absurd rfl h

namespace Linked

variable {call : ℕ → CallPc} {pc : Process → ProcPc} {c : ℕ} {p : Process}

theorem allows_of (h : Linked call pc) {cp : CallPc} (hc : call c = cp) (hp : p ∈ cp.procs) :
    cp.Allows p (pc p) := by
  subst hc
  exact h.allows c p hp

theorem notMem_of_fresh (h : Linked call pc)
    (hp : pc p = .absent ∨ pc p = .reading ∨ pc p = .constructed) (c : ℕ) :
    p ∉ (call c).procs := by
  intro hmem
  have := h.allows c p hmem
  cases hc : call c <;> simp only [hc, CallPc.Allows] at this <;> grind

theorem setPc (h : Linked call pc) {v : ProcPc}
    (hall : ∀ c, p ∈ (call c).procs → (call c).Allows p v)
    (hin : v = .launched ∨ v = .running → ∃ c procs, call c = .working procs ∧ p ∈ procs) :
    Linked call (Function.update pc p v) where
  allows c := (forall_update_iff pc fun q v => q ∈ (call c).procs → (call c).Allows q v).2
    ⟨hall c, fun q _ => h.allows c q⟩
  unique := h.unique
  inCall := (forall_update_iff pc fun q v => v = .launched ∨ v = .running →
    ∃ c procs, call c = .working procs ∧ q ∈ procs).2 ⟨hin, fun q _ => h.inCall q⟩
  todo := h.todo
  nodup := h.nodup
  nonempty := h.nonempty

theorem inCall_update (h : Linked call pc) {cp : CallPc} {q : Process}
    (hin : ∀ procs, call c = .working procs → q ∉ procs)
    (hq : pc q = .launched ∨ pc q = .running) :
    ∃ d procs, Function.update call c cp d = .working procs ∧ q ∈ procs := by
  obtain ⟨d, procs, hd, hmem⟩ := h.inCall q hq
  have he : d ≠ c := by
    rintro rfl
    exact hin procs hd hmem
  exact ⟨d, procs, by rwa [update_of_ne he], hmem⟩

theorem setCall (h : Linked call pc) {cp : CallPc} (hidle : call c ≠ .idle)
    (hprocs : cp.procs = (call c).procs)
    (hall : ∀ p ∈ cp.procs, cp.Allows p (pc p))
    (hin : ∀ procs, call c = .working procs → ∀ p ∈ procs, pc p = .passed ∨ pc p = .ran)
    (htodo : ∀ todo procs, cp = .stopping todo procs → todo.Nodup ∧ todo ⊆ procs) :
    Linked (Function.update call c cp) pc := by
  have hsame : ∀ d, (Function.update call c cp d).procs = (call d).procs :=
    (forall_update_iff call fun d cp => cp.procs = (call d).procs).2 ⟨hprocs, fun _ _ => rfl⟩
  refine ⟨?_, fun d e q hd he => h.unique d e q (hsame d ▸ hd) (hsame e ▸ he), fun q hq => ?_, ?_,
    fun d => hsame d ▸ h.nodup d, ?_⟩
  · exact (forall_update_iff call fun _ cp => ∀ q, q ∈ cp.procs → cp.Allows q (pc q)).2
      ⟨hall, fun d _ => h.allows d⟩
  · refine h.inCall_update (fun procs hw hmem => ?_) hq
    rcases hin procs hw q hmem with h' | h' <;> simp [h'] at hq
  · exact (forall_update_iff call fun _ cp => ∀ todo procs, cp = .stopping todo procs →
      todo.Nodup ∧ todo ⊆ procs).2 ⟨htodo, fun d _ => h.todo d⟩
  · exact (forall_update_iff call fun _ cp => cp ≠ .idle → cp.procs ≠ []).2
      ⟨fun _ => hprocs ▸ h.nonempty c hidle, fun d _ => h.nonempty d⟩

theorem advance (h : Linked call pc) {cp cp' : CallPc} (hc : call c = cp) (hidle : cp ≠ .idle)
    (hprocs : cp'.procs = cp.procs) (hwork : ∀ procs, cp ≠ .working procs)
    (hstop : ∀ todo procs, cp' ≠ .stopping todo procs)
    (hall : ∀ p, cp.Allows p (pc p) → cp'.Allows p (pc p)) :
    Linked (Function.update call c cp') pc := by
  subst hc
  refine h.setCall hidle hprocs (fun p hp => hall p (h.allows c p (hprocs ▸ hp)))
    (fun procs hw => absurd hw (hwork procs)) fun todo procs he => absurd he (hstop todo procs)

theorem setPc_inCall (h : Linked call pc) {v : ProcPc} (hp : pc p = .launched ∨ pc p = .running)
    (hv : v = .running ∨ v = .ran) : Linked call (Function.update pc p v) := by
  obtain ⟨d, procs, hd, hmem⟩ := h.inCall p hp
  refine h.setPc (fun c hc => ?_) fun _ => ⟨d, procs, hd, hmem⟩
  obtain rfl := h.unique c d p hc (by rw [hd]; exact hmem)
  rw [hd]
  exact Or.inr (Or.inr hv)

theorem execute (h : Linked call pc) {procs : List Process} (hc : call c = .idle)
    (hne : procs ≠ []) (hnd : procs.Nodup) (hnew : ∀ p ∈ procs, pc p = .constructed) :
    Linked (Function.update call c (.checking procs))
      (fun p => if p ∈ procs then .passed else pc p) := by
  have hfresh : ∀ p ∈ procs, ∀ d, p ∉ (call d).procs := fun p hp d =>
    h.notMem_of_fresh (Or.inr (Or.inr (hnew p hp))) d
  refine ⟨?_, ?_, fun q hq => ?_, ?_, ?_, ?_⟩
  · refine (forall_update_iff call fun _ cp => ∀ q, q ∈ cp.procs →
      cp.Allows q (if q ∈ procs then .passed else pc q)).2 ⟨fun q hq => if_pos hq, fun d _ q hq => ?_⟩
    rw [if_neg fun hmem => hfresh q hmem d hq]
    exact h.allows d q hq
  · -- the processes of the new call are in no other one
    refine (forall_update_iff call fun d cp => ∀ e q, q ∈ cp.procs →
      q ∈ (Function.update call c (.checking procs) e).procs → d = e).2 ⟨?_, fun d hd => ?_⟩
    · refine (forall_update_iff call fun e cp => ∀ q, q ∈ procs → q ∈ cp.procs → c = e).2
        ⟨fun _ _ _ => rfl, fun e _ q hq hqe => absurd hqe (hfresh q hq e)⟩
    · refine (forall_update_iff call fun e cp => ∀ q, q ∈ (call d).procs → q ∈ cp.procs → d = e).2
        ⟨fun q hqd hq => absurd hqd (hfresh q hq d), fun e _ q => h.unique d e q⟩
  · split_ifs at hq with hmem
    · simp at hq
    · exact h.inCall_update (fun _ hw => by rw [hc] at hw; cases hw) hq
  · exact (forall_update_iff call fun _ cp => ∀ todo procs, cp = .stopping todo procs →
      todo.Nodup ∧ todo ⊆ procs).2 ⟨nofun, fun d _ => h.todo d⟩
  · exact (forall_update_iff call fun _ cp => cp.procs.Nodup).2 ⟨hnd, fun d _ => h.nodup d⟩
  · exact (forall_update_iff call fun _ cp => cp ≠ .idle → cp.procs ≠ []).2
      ⟨fun _ => hne, fun d _ => h.nonempty d⟩

theorem start (h : Linked call pc) {procs : List Process} (hc : call c = .working procs) :
    Linked call (fun p => if p ∈ procs then .launched else pc p) := by
  refine ⟨fun d q hq => ?_, h.unique, fun q hq => ?_, h.todo, h.nodup, h.nonempty⟩
  · split_ifs with hmem
    · obtain rfl := h.unique d c q hq (by rw [hc]; exact hmem)
      rw [hc]
      exact Or.inr (Or.inl rfl)
    · exact h.allows d q hq
  · split_ifs at hq with hmem
    · exact ⟨c, procs, hc, hmem⟩
    · exact h.inCall q hq

theorem stop (h : Linked call pc) {todo procs : List Process}
    (hc : call c = .stopping (p :: todo) procs) :
    Linked (Function.update call c (.stopping todo procs)) (Function.update pc p .stopped) := by
  obtain ⟨hnd, hsub⟩ := h.todo c _ _ hc
  obtain ⟨hpt, hnd'⟩ := List.nodup_cons.1 hnd
  have hpc : p ∈ (call c).procs := by
    rw [hc]
    exact hsub List.mem_cons_self
  have hsame : ∀ d, (Function.update call c (.stopping todo procs) d).procs = (call d).procs :=
    (forall_update_iff call fun d cp => cp.procs = (call d).procs).2
      ⟨by rw [hc]; rfl, fun _ _ => rfl⟩
  refine ⟨?_, fun d e q hd he => h.unique d e q (hsame d ▸ hd) (hsame e ▸ he), ?_, ?_,
    fun d => hsame d ▸ h.nodup d, ?_⟩
  · refine (forall_update_iff call fun _ cp => ∀ q, q ∈ cp.procs →
      cp.Allows q (Function.update pc p .stopped q)).2 ⟨?_, fun d hd q hq => ?_⟩
    · refine (forall_update_iff pc fun q v => q ∈ procs →
        CallPc.Allows (.stopping todo procs) q v).2 ⟨fun _ => Or.inr ⟨hpt, rfl⟩, fun q hqp hq => ?_⟩
      have hall := h.allows_of hc hq
      simpa only [CallPc.Allows, List.mem_cons, hqp, false_or] using hall
    · have hqp : q ≠ p := fun hqp => hd (h.unique d c q hq (hqp ▸ hpc))
      rw [update_of_ne hqp]
      exact h.allows d q hq
  · refine (forall_update_iff pc fun q v => v = .launched ∨ v = .running → ∃ d procs',
      Function.update call c (.stopping todo procs) d = .working procs' ∧ q ∈ procs').2
      ⟨by simp, fun q _ => h.inCall_update fun _ hw => by rw [hc] at hw; cases hw⟩
  · refine (forall_update_iff call fun _ cp => ∀ todo procs, cp = .stopping todo procs →
      todo.Nodup ∧ todo ⊆ procs).2 ⟨?_, fun d _ => h.todo d⟩
    rintro _ _ ⟨⟩
    exact ⟨hnd', fun q hq => hsub (List.mem_cons_of_mem p hq)⟩
  · refine (forall_update_iff call fun _ cp => cp ≠ .idle → cp.procs ≠ []).2
      ⟨fun _ => ?_, fun d _ => h.nonempty d⟩
    exact List.ne_nil_of_mem (hsub List.mem_cons_self)

end Linked

theorem linked_step {s s' : State} {e : Event} (h : Linked s.call s.pc)
    (hs : step s e = some s') : Linked s'.call s'.pc := by
  obtain ⟨-, hs⟩ := step_cases hs
  cases hs with
  | newHold hp hk hm | newRead hp hk hm | newPlain hp hk =>
    exact h.setPc (fun c hc => absurd hc (h.notMem_of_fresh (Or.inl hp) c)) (by simp)
  | newDone hk hp =>
    simp only [State.setPc, unlock_call, unlock_pc]
    exact h.setPc (fun c hc => absurd hc (h.notMem_of_fresh (Or.inr (Or.inl hp)) c)) (by simp)
  | execute hc hn => exact h.execute hc hn.1 hn.2.1 hn.2.2
  | checkReject hc hp | checkPass hc hp => exact h.advance hc nofun rfl nofun nofun fun _ => id
  | set hc => exact h.advance hc nofun rfl nofun nofun fun _ => Or.inl
  | start hc hl => exact h.start hc
  | runLock hp hk hm | run hp hk => exact h.setPc_inCall (Or.inl hp) (Or.inl rfl)
  | runEnd hp => exact h.setPc_inCall (Or.inr hp) (Or.inr rfl)
  | finish hc hq =>
    refine h.setCall (by simp [hc]) (by rw [hc]; rfl) hq (fun procs hw p hp => ?_) nofun
    rw [hc] at hw
    cases hw
    exact hq p hp
  | @clear c procs hc =>
    refine h.setCall (by simp [hc]) (by rw [hc]; rfl) (fun p hp => ?_)
      (fun _ hw => by rw [hc] at hw; cases hw) ?_
    · exact Or.inl ⟨hp, h.allows_of hc hp⟩
    · rintro _ _ ⟨⟩
      have := h.nodup c
      rw [hc] at this
      exact ⟨this, List.Subset.refl _⟩
  | stop hc =>
    have := h.stop hc
    split_ifs <;> simpa using this
  | ret hc => exact h.advance hc nofun rfl nofun nofun fun p => by simp [CallPc.Allows]

end Sygma.Tss
