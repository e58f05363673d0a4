import SygmaRelayer.Proofs.BtcSingleExecution

/-! What an `Execute` call leaves behind. A goroutine that called `sendTx` stores the
outcome for its proposals before it returns; one that ends earlier stores nothing, and its
proposals stay pending. So do the proposals of a call that stops at a failed read. -/

namespace Sygma.Btc

open Runs

/-- What `storeProposalsStatus` is called with after `sendTx`. -/
def outcome (ok : Bool) : PropStatus := if ok then .executed else .failed

/-- Call `t` has marked the proposal `k`, and perhaps settled it since. -/
def Held (s : State) (t : ℕ) (k : PropKey) : Prop :=
  k ∈ keys (s.call t).collected ∨ k ∈ keys (s.call t).startedProps

/-- Nobody but call `t` writes the status of a proposal that it has marked. -/
def Undisturbed (t : ℕ) (s : State) : Event → Prop
  | .mark t' true => t' ≠ t → ∀ p todo props, s.call t' = .marking p todo props → ¬ Held s t p.key
  | .store t' r true => t' ≠ t → ∀ v p todo, s.group t' r = .storing v (p :: todo) →
      ¬ Held s t p.key
  | .retryStore j true => ∀ k, s.retry j = .resetting k → ¬ Held s t k
  | _ => True

/-- The writes of call `t` succeed, and nobody else writes the statuses of its proposals. -/
def Proper (t : ℕ) (s : State) (e : Event) : Prop :=
  Undisturbed t s e ∧ ∀ r, e ≠ .store t r false

/-- Goroutine `(t, r)` called `sendTx` once, with the result `ok`. -/
def Sent (past : List Event) (t : ℕ) (r : ResourceID) (ok : Bool) : Prop :=
  .send t r ok ∈ past ∧ .send t r (!ok) ∉ past ∧ .abort t r ∉ past

/-- Where goroutine `(t, r)` stands, the events that led there, and the statuses of the proposals
of its group. -/
inductive Track (past : List Event) (t : ℕ) (r : ResourceID) (status : PropStore)
    (props : List BtcTransferProposal) : GroupPc → Prop
  | running (hsend : ∀ ok, .send t r ok ∉ past) (habort : .abort t r ∉ past)
    (hp : ∀ p ∈ props, status p.key = .pending) : Track past t r status props .running
  | locking {ok} (hsent : Sent past t r ok) : Track past t r status props (.locking (outcome ok))
  | storing {ok todo} (hsent : Sent past t r ok)
    (hp : ∀ p ∈ props, p ∈ todo ∨ status p.key = outcome ok) :
    Track past t r status props (.storing (outcome ok) todo)
  | closing {ok} (hsent : Sent past t r ok) (hp : ∀ p ∈ props, status p.key = outcome ok) :
    Track past t r status props (.closing (outcome ok))
  | aborted (habort : .abort t r ∈ past) (hp : ∀ p ∈ props, status p.key = .pending) :
    Track past t r status props .returned
  | settled {ok} (hsent : Sent past t r ok) (hp : ∀ p ∈ props, status p.key = outcome ok) :
    Track past t r status props .returned

section Track

variable {past : List Event} {t : ℕ} {r : ResourceID} {status status' : PropStore}
  {props : List BtcTransferProposal} {pc : GroupPc} {e : Event}

theorem Sent.later {ok : Bool} (h : Sent past t r ok) (hsend : ∀ ok, e ≠ .send t r ok)
    (habort : e ≠ .abort t r) : Sent (past ++ [e]) t r ok := by
  refine ⟨List.mem_append_left _ h.1, ?_, ?_⟩
  · simpa [h.2.1] using (hsend (!ok)).symm
  · simpa [h.2.2] using habort.symm

theorem Track.frame (h : Track past t r status props pc) (hsend : ∀ ok, e ≠ .send t r ok)
    (habort : e ≠ .abort t r) (hst : ∀ p ∈ props, status' p.key = status p.key) :
    Track (past ++ [e]) t r status' props pc := by
  cases h with
  | running hs ha hp =>
    refine .running (fun ok => ?_) ?_ fun p hmem => (hst p hmem).trans (hp p hmem)
    · simpa [hs ok] using (hsend ok).symm
    · simpa [ha] using habort.symm
  | locking hsent => exact .locking (hsent.later hsend habort)
  | storing hsent hp =>
    refine .storing (hsent.later hsend habort) fun p hmem => ?_
    rw [hst p hmem]
    exact hp p hmem
  | closing hsent hp =>
    exact .closing (hsent.later hsend habort) fun p hmem => (hst p hmem).trans (hp p hmem)
  | aborted ha hp =>
    exact .aborted (List.mem_append_left _ ha) fun p hmem => (hst p hmem).trans (hp p hmem)
  | settled hsent hp =>
    exact .settled (hsent.later hsend habort) fun p hmem => (hst p hmem).trans (hp p hmem)

theorem Track.abort (h : Track past t r status props .running) :
    Track (past ++ [.abort t r]) t r status props .returned := by
  cases h with
  | running _ _ hp => exact .aborted (by simp) hp

theorem Track.send (h : Track past t r status props .running) (ok : Bool) :
    Track (past ++ [.send t r ok]) t r status props (.locking (outcome ok)) := by
  cases h with
  | running hs ha _ => exact .locking ⟨by simp, by simp [hs], by simp [ha]⟩

theorem Track.storeLock {v : PropStatus} (h : Track past t r status props (.locking v)) :
    Track (past ++ [.storeLock t r]) t r status props (.storing v props) := by
  cases h with
  | locking hsent => exact .storing (hsent.later (by simp) (by simp)) fun p hmem => Or.inl hmem

theorem Track.store {v : PropStatus} {p : BtcTransferProposal} {todo : List BtcTransferProposal}
    (h : Track past t r status props (.storing v (p :: todo))) :
    Track (past ++ [.store t r true]) t r (status.storePropStatus p.key v) props
      (.storing v todo) := by
  cases h with
  | storing hsent hp =>
    refine .storing (hsent.later (by simp) (by simp)) fun q hmem => ?_
    by_cases hk : q.key = p.key
    · exact Or.inr (by simp [hk])
    · rcases hp q hmem with hq | hq
      · rcases List.mem_cons.1 hq with rfl | hq
        · exact absurd rfl hk
        · exact Or.inl hq
      · exact Or.inr (by simpa [hk] using hq)

theorem Track.storeUnlock {v : PropStatus} (h : Track past t r status props (.storing v [])) :
    Track (past ++ [.storeUnlock t r]) t r status props (.closing v) := by
  cases h with
  | storing hsent hp =>
    exact .closing (hsent.later (by simp) (by simp)) fun p hmem => by simpa using hp p hmem

theorem Track.ret {v : PropStatus} (h : Track past t r status props (.closing v)) :
    Track (past ++ [.ret t r]) t r status props .returned := by
  cases h with
  | closing hsent hp => exact .settled (hsent.later (by simp) (by simp)) hp

theorem Track.returned_iff (h : Track past t r status props .returned) (hne : props ≠ []) :
    (∀ p ∈ props, (status p.key = .executed ∨ status p.key = .failed) ∧
      (status p.key = .executed ↔ .send t r true ∈ past)) ↔ .abort t r ∉ past := by
  obtain ⟨p, hmem⟩ := List.exists_mem_of_ne_nil props hne
  cases h with
  | aborted ha hp =>
    refine iff_of_false (fun h => ?_) (not_not.2 ha)
    have := (h p hmem).1
    simp [hp p hmem] at this
  | @settled ok hsent hp =>
    refine iff_of_true (fun p hmem => ?_) hsent.2.2
    rw [hp p hmem]
    cases ok with
    | true => simpa [outcome] using hsent.1
    | false => simpa [outcome] using hsent.2.1

end Track

/-- What holds of the calls and goroutines whatever the retries do. -/
structure Shape (s : State) : Prop where
  mutex : Mutex.Exclusive s.propMutex (Inside s)
  fresh : ∀ t r, (s.call t).startedProps = [] → s.group t r = .running
  suffix : ∀ t r v todo, s.group t r = .storing v todo → todo <:+ s.groupProps t r
  taken : ∀ t p todo props, s.call t = .marking p todo props → isExecuted (s.status p.key) = false

theorem shape_init (st : PropStore) : Shape (init st) :=
  have hi := inv_init st
  ⟨hi.mutex, hi.fresh, hi.suffix, hi.taken⟩

theorem shape_step {s s' : State} {e : Event} (h : Shape s) (hs : Step s e s') : Shape s' where
  mutex := exclusive_step h.mutex hs
  fresh := fun _ _ => fresh_step h.fresh hs
  suffix := fun _ _ _ _ => suffix_step h.fresh h.suffix hs
  taken := fun _ _ _ _ => taken_step h.mutex h.taken hs

/-- Call `t`: the proposals it has marked are pending, and each of its goroutines is on track. -/
structure Settling (t : ℕ) (past : List Event) (s : State) : Prop where
  shape : Shape s
  nodup : (keys (s.call t).collected).Nodup ∧ (keys (s.call t).startedProps).Nodup
  pending : ∀ k ∈ keys (s.call t).collected, s.status k = .pending
  track : ∀ r, Track past t r s.status (s.groupProps t r) (s.group t r)

theorem settling_init (t : ℕ) (st : PropStore) : Settling t [] (init st) where
  shape := shape_init st
  nodup := by simp [init, CallPc.collected, CallPc.startedProps, keys]
  pending := by simp [init, CallPc.collected, keys]
  track := fun r => .running (by simp) (by simp)
    (by simp [init, State.groupProps, CallPc.startedProps, propsPerResource])

section Step

variable {past : List Event} {s s' : State} {e : Event} {t : ℕ} {r : ResourceID}

/-- The statuses of the proposals of call `t` change in its own writes only. -/
theorem status_held (hu : Undisturbed t s e) (hs : Step s e s') {k : PropKey} (hk : Held s t k)
    (hmark : e ≠ .mark t true) (hstore : ∀ r, e ≠ .store t r true) :
    s'.status k = s.status k := by
  by_contra hne
  rcases status_step hs hne with ⟨t', todo, props, p, rfl, hc, rfl, -⟩ |
    ⟨t', r, v, p, todo, rfl, hg, rfl, -⟩ | ⟨j, rfl, hr, -⟩
  · exact hu (fun ht => hmark (by rw [ht])) p todo props hc hk
  · exact hu (fun ht => hstore r (by rw [ht])) v p todo hg hk
  · exact hu k hr hk

theorem held_of_mem_groupProps {p : BtcTransferProposal} (h : p ∈ s.groupProps t r) :
    Held s t p.key :=
  Or.inr (mem_keys_propsPerResource (List.mem_map_of_mem h))

theorem Settling.mem_keys_of_storing (h : Settling t past s) {v : PropStatus}
    {p : BtcTransferProposal} {todo : List BtcTransferProposal}
    (hg : s.group t r = .storing v (p :: todo)) : p.key ∈ keys (s.groupProps t r) :=
  List.mem_map_of_mem ((h.shape.suffix t r v _ hg).subset List.mem_cons_self)

theorem pending_step (h : Settling t past s) (hu : Undisturbed t s e) (hs : Step s e s')
    {k : PropKey} (hk : Collects s' t k) : s'.status k = .pending := by
  rcases collects_step hs hk with hc | ⟨rfl, p, todo, props, hc, rfl⟩
  · by_cases hmark : e = .mark t true
    · by_contra hne
      subst hmark
      rcases status_step hs (by rwa [h.pending k hc]) with ⟨_, _, _, _, _, _, _, hp⟩ |
        ⟨_, _, _, _, _, he, _⟩ | ⟨_, he, _⟩
      · exact hne hp
      · cases he
      · cases he
    · have hstore : ∀ r, e ≠ .store t r true := by
        rintro r rfl
        cases hs with
        | store hg => exact not_collects_of_started (h.mem_keys_of_storing hg) hc
      rw [status_held hu hs (Or.inl hc) hmark hstore]
      exact h.pending k hc
  · cases hs with
    | mark hc' =>
      rw [hc] at hc'
      cases hc'
      simp

theorem nodup_settling (h : Settling t past s) (hs : Step s e s') :
    (keys (s'.call t).collected).Nodup ∧ (keys (s'.call t).startedProps).Nodup := by
  apply nodup_step h.nodup _ hs
  intro p todo props hc hmem
  have hp := h.pending p.key (by simpa [hc, CallPc.collected] using hmem)
  have htaken := h.shape.taken t p todo props hc
  rw [hp] at htaken
  simp [isExecuted] at htaken

theorem Settling.frame (h : Settling t past s) (hgroup : s'.group t r = s.group t r)
    (hprops : s'.groupProps t r = s.groupProps t r) (hsend : ∀ ok, e ≠ .send t r ok)
    (habort : e ≠ .abort t r) (hst : ∀ p ∈ s.groupProps t r, s'.status p.key = s.status p.key) :
    Track (past ++ [e]) t r s'.status (s'.groupProps t r) (s'.group t r) := by
  rw [hgroup, hprops]
  exact (h.track r).frame hsend habort hst

theorem groupProps_setCall {t' : ℕ} {pc : CallPc}
    (h : pc.startedProps = (s.call t').startedProps) :
    (s.setCall t' pc).groupProps t r = s.groupProps t r := by
  by_cases ht : t = t'
  · subst ht
    simp [State.groupProps, h]
  · simp [State.groupProps, ht]

theorem Settling.setGroup (h : Settling t past s) (t' : ℕ) (r' : ResourceID) {pc : GroupPc}
    (hprops : s'.groupProps t r = s.groupProps t r)
    (hgroup : s'.group t r = (s.setGroup t' r' pc).group t r)
    (hevent : ¬(t' = t ∧ r' = r) → (∀ ok, e ≠ .send t r ok) ∧ e ≠ .abort t r)
    (hst : ¬(t' = t ∧ r' = r) → ∀ p ∈ s.groupProps t r, s'.status p.key = s.status p.key)
    (hown : t' = t → r' = r → Track (past ++ [e]) t r s'.status (s.groupProps t r) pc) :
    Track (past ++ [e]) t r s'.status (s'.groupProps t r) (s'.group t r) := by
  by_cases hsame : t' = t ∧ r' = r
  · obtain ⟨rfl, rfl⟩ := hsame
    rw [hprops, hgroup]
    simpa using hown rfl rfl
  · refine h.frame ?_ hprops (hevent hsame).1 (hevent hsame).2 (hst hsame)
    rw [hgroup]
    by_cases ht : t = t'
    · subst ht
      have hr : r ≠ r' := fun hr => hsame ⟨rfl, hr.symm⟩
      simp [hr]
    · simp [ht]

theorem Settling.starts (h : Settling t past s) {props : List BtcTransferProposal}
    (hc : s.call t = .reading [] props) (r : ResourceID) :
    Track (past ++ [.unlock t]) t r s.status (propsPerResource props r) (s.group t r) := by
  have htrack := h.track r
  rw [h.shape.fresh t r (by simp [hc, CallPc.startedProps])] at htrack ⊢
  cases htrack with
  | running hsend habort _ =>
    refine .running (by simpa using hsend) (by simpa using habort) fun p hmem => ?_
    apply h.pending p.key
    rw [hc]
    exact mem_keys_propsPerResource (List.mem_map_of_mem hmem)

theorem Settling.status_store (h : Settling t past s) {t' : ℕ} {r' : ResourceID} {v : PropStatus}
    {p : BtcTransferProposal} {todo : List BtcTransferProposal}
    (hu : Undisturbed t s (.store t' r' true)) (hg : s.group t' r' = .storing v (p :: todo))
    (hne : ¬(t' = t ∧ r' = r)) :
    ∀ q ∈ s.groupProps t r, ((s.setStatus p.key v).setGroup t' r' (.storing v todo)).status q.key =
      s.status q.key := by
  intro q hq
  by_cases ht : t' = t
  · subst ht
    have hk : q.key ≠ p.key := by
      intro hk
      have hp := h.mem_keys_of_storing hg
      rw [← hk] at hp
      exact hne ⟨rfl, (resource_unique h.nodup.2 (List.mem_map_of_mem hq) hp).symm⟩
    simp [hk]
  · exact status_held hu (.store hg) (held_of_mem_groupProps hq) (by simp) (by simp [ht])

theorem track_step (h : Settling t past s) (hp : Proper t s e) (hs : Step s e s') (r : ResourceID) :
    Track (past ++ [e]) t r s'.status (s'.groupProps t r) (s'.group t r) := by
  obtain ⟨hu, hok⟩ := hp
  cases hs with
  | execute hc | lock hc | readSkip hc | readTake hc | readErr hc | markErr hc =>
    exact h.frame rfl (groupProps_setCall (by simp [hc, CallPc.startedProps])) (by simp) (by simp)
      fun _ _ => rfl
  | @mark t' p todo props hc =>
    refine h.frame rfl (groupProps_setCall (by simp [hc, CallPc.startedProps])) (by simp) (by simp)
      fun q hq => ?_
    have ht : t' ≠ t := by
      rintro rfl
      simp [State.groupProps, hc, CallPc.startedProps, propsPerResource] at hq
    exact status_held hu (.mark hc) (held_of_mem_groupProps hq) (by simpa using ht) (by simp)
  | @unlock t' props hc =>
    by_cases ht : t = t'
    · subst ht
      simpa [State.groupProps, CallPc.startedProps] using h.starts hc r
    · exact h.frame rfl (by simp [State.groupProps, ht]) (by simp) (by simp) fun _ _ => rfl
  | @abort t' r' _ hg =>
    refine h.setGroup t' r' rfl rfl (by simp +contextual) (fun _ _ _ => rfl) ?_
    rintro rfl rfl
    exact (hg ▸ h.track r').abort
  | @send t' r' ok _ hg =>
    refine h.setGroup t' r' rfl rfl (by simp +contextual) (fun _ _ _ => rfl) ?_
    rintro rfl rfl
    exact (hg ▸ h.track r').send ok
  | @storeLock t' r' v hg hm =>
    refine h.setGroup t' r' rfl rfl (by simp) (fun _ _ _ => rfl) ?_
    rintro rfl rfl
    exact (hg ▸ h.track r').storeLock
  | @store t' r' v p todo hg =>
    refine h.setGroup t' r' rfl rfl (by simp) (h.status_store hu hg) ?_
    rintro rfl rfl
    exact (hg ▸ h.track r').store
  | @storeErr t' r' v p todo hg =>
    refine h.setGroup t' r' rfl rfl (by simp) (fun _ _ _ => rfl) ?_
    rintro rfl rfl
    exact absurd rfl (hok r')
  | @storeUnlock t' r' v hg =>
    refine h.setGroup t' r' rfl rfl (by simp) (fun _ _ _ => rfl) ?_
    rintro rfl rfl
    exact (hg ▸ h.track r').storeUnlock
  | @ret t' r' v hg =>
    refine h.setGroup t' r' rfl rfl (by simp) (fun _ _ _ => rfl) ?_
    rintro rfl rfl
    exact (hg ▸ h.track r').ret
  | retryRead => exact h.frame rfl rfl (by simp) (by simp) fun _ _ => rfl
  | retryErr => exact h.frame rfl rfl (by simp) (by simp) fun _ _ => rfl
  | retryStore hr =>
    exact h.frame rfl rfl (by simp) (by simp) fun p hmem =>
      status_held hu (.retryStore hr) (held_of_mem_groupProps hmem) (by simp) (by simp)

theorem settling_step (h : Settling t past s) (hp : Proper t s e) (hs : step s e = some s') :
    Settling t (past ++ [e]) s' :=
  have hs := step_cases hs
  { shape := shape_step h.shape hs
    nodup := nodup_settling h hs
    pending := fun _ => pending_step h hp.1 hs
    track := track_step h hp hs }

end Step

theorem settling_exec {t : ℕ} {st : PropStore} {es : List Event} {s : State}
    (hp : Along step (Proper t) (init st) es) (h : exec step (init st) es = some s) :
    Settling t es s :=
  exec_history (fun _ _ _ _ => settling_step) (settling_init t st) hp h

/-- All goroutines of call `t` have returned. -/
def Returned (s : State) (t : ℕ) (props : List BtcTransferProposal) : Prop :=
  s.call t = .started props ∧ ∀ r, propsPerResource props r ≠ [] → s.group t r = .returned

/-- The status of each proposal says what became of its transaction. -/
def Settled (es : List Event) (s : State) (t : ℕ) (props : List BtcTransferProposal) : Prop :=
  ∀ p ∈ props, (s.status p.key = .executed ∨ s.status p.key = .failed) ∧
    (s.status p.key = .executed ↔ .send t p.data.resourceId true ∈ es)

/-- A call that returns has settled its proposals exactly if none of its goroutines aborted. -/
theorem settled_iff_not_abort {t : ℕ} {st : PropStore} {es : List Event} {s : State}
    (hp : Along step (Proper t) (init st) es) (h : exec step (init st) es = some s)
    {props : List BtcTransferProposal} (hreturned : Returned s t props) :
    Settled es s t props ↔ ∀ p ∈ props, .abort t p.data.resourceId ∉ es := by
  have hinv := settling_exec hp h
  obtain ⟨hcall, hreturned⟩ := hreturned
  have hgroup : ∀ p ∈ props, p ∈ propsPerResource props p.data.resourceId := by
    intro p hmem
    simpa [propsPerResource] using hmem
  have htrack : ∀ p ∈ props, (∀ q ∈ propsPerResource props p.data.resourceId,
      (s.status q.key = .executed ∨ s.status q.key = .failed) ∧
        (s.status q.key = .executed ↔ .send t p.data.resourceId true ∈ es)) ↔
      .abort t p.data.resourceId ∉ es := by
    intro p hmem
    have hne := List.ne_nil_of_mem (hgroup p hmem)
    have := hinv.track p.data.resourceId
    rw [hreturned _ hne, State.groupProps, hcall] at this
    exact this.returned_iff hne
  constructor
  · intro hsettled p hmem
    apply (htrack p hmem).1
    intro q hq
    obtain ⟨hq, hr⟩ := List.mem_filter.1 hq
    rw [← of_decide_eq_true hr]
    exact hsettled q hq
  · intro habort p hmem
    exact (htrack p hmem).2 (habort p hmem) p (hgroup p hmem)

theorem pending_of_failed_read {t : ℕ} {st : PropStore} {es : List Event} {s s' : State}
    (hp : Along step (Proper t) (init st) es) (h : exec step (init st) es = some s)
    (hs : step s (.read t false) = some s') :
    ∀ p ∈ (s.call t).collected, s'.status p.key = .pending := by
  intro p hmem
  cases step_cases hs with
  | readErr hc => exact (settling_exec hp h).pending p.key (List.mem_map_of_mem hmem)

end Sygma.Btc
