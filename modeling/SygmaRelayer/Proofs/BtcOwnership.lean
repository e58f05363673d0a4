import Mathlib.Data.List.Nodup
import SygmaRelayer.Proofs.BtcSteps

/-! Ownership of proposals. A call owns a proposal from the step that marks it
pending to the step that stores its final status. As long as retries reset stuck
proposals only, an owned proposal is pending and has one owner. -/

namespace Sygma.Btc

theorem mem_keys_propsPerResource {props : List BtcTransferProposal} {r : ResourceID}
    {k : PropKey} (h : k ∈ keys (propsPerResource props r)) : k ∈ keys props := by
  obtain ⟨p, hp, rfl⟩ := List.mem_map.1 h
  exact List.mem_map_of_mem (List.mem_filter.1 hp |>.1)

/-- Where the keys are distinct, a key belongs to the group of one resource only. -/
theorem resource_unique {props : List BtcTransferProposal} (hn : (keys props).Nodup)
    {r r' : ResourceID} {k : PropKey} (h : k ∈ keys (propsPerResource props r))
    (h' : k ∈ keys (propsPerResource props r')) : r = r' := by
  obtain ⟨p, hp, rfl⟩ := List.mem_map.1 h
  obtain ⟨p', hp', he⟩ := List.mem_map.1 h'
  obtain ⟨hp, hr⟩ := List.mem_filter.1 hp
  obtain ⟨hp', hr'⟩ := List.mem_filter.1 hp'
  obtain rfl : p' = p := List.inj_on_of_nodup_map hn hp' hp he
  simp only [decide_eq_true_eq] at hr hr'
  exact hr.symm.trans hr'

theorem nodup_propsPerResource {props : List BtcTransferProposal} (hn : (keys props).Nodup)
    (r : ResourceID) : (keys (propsPerResource props r)).Nodup :=
  hn.sublist (List.filter_sublist.map _)

theorem not_collects_of_started {s : State} {t : ℕ} {r : ResourceID} {k k' : PropKey}
    (h : k ∈ keys (s.groupProps t r)) : ¬ Collects s t k' := by
  intro hc
  have hs : (s.call t).startedProps = [] := by
    cases hpc : s.call t <;> simp_all [Collects, CallPc.collected, CallPc.startedProps, keys]
  simp [State.groupProps, hs, propsPerResource, keys] at h

/-- The proposals of its group whose final status a goroutine has still to store. -/
def GroupPc.unsettled (props : List BtcTransferProposal) : GroupPc → List BtcTransferProposal
  | .running | .locking _ => props
  | .storing _ todo => todo
  | .closing _ | .returned => []

/-- Goroutine `(t, r)` has still to settle `k`. -/
def Settles (s : State) (t : ℕ) (r : ResourceID) (k : PropKey) : Prop :=
  k ∈ keys ((s.group t r).unsettled (s.groupProps t r))

/-- Call `t` has marked `k` and has not settled it. -/
def Owns (s : State) (t : ℕ) (k : PropKey) : Prop := Collects s t k ∨ ∃ r, Settles s t r k

/-- What holds of the statuses as long as retries reset stuck proposals only. -/
structure Inv (s : State) : Prop where
  mutex : Mutex.Exclusive s.propMutex (Inside s)
  fresh : ∀ t r, (s.call t).startedProps = [] → s.group t r = .running
  nodup : ∀ t, (keys (s.call t).collected).Nodup ∧ (keys (s.call t).startedProps).Nodup
  suffix : ∀ t r v todo, s.group t r = .storing v todo → todo <:+ s.groupProps t r
  owned : ∀ t k, Owns s t k → s.status k = .pending
  taken : ∀ t p todo props, s.call t = .marking p todo props → isExecuted (s.status p.key) = false
  unique : ∀ t t' k, Owns s t k → Owns s t' k → t = t'

theorem inv_init (st : PropStore) : Inv (init st) := by
  have hno : ∀ t k, ¬ Owns (init st) t k := by
    rintro t k (h | ⟨r, h⟩)
    · simp [Collects, init, CallPc.collected, keys] at h
    · simp [Settles, init, GroupPc.unsettled, State.groupProps, CallPc.startedProps,
        propsPerResource, keys] at h
  refine ⟨exclusive_init st, fun _ _ _ => rfl, fun t => ?_, ?_, fun t k h => absurd h (hno t k), ?_,
    fun t t' k h => absurd h (hno t k)⟩
  · simp [init, CallPc.collected, CallPc.startedProps, keys]
  · intro t r v todo h; simp [init] at h
  · intro t p todo props h; simp [init] at h

theorem owns_setCall_ne {s : State} {t t' : ℕ} {pc : CallPc} {k : PropKey} (ht : t' ≠ t) :
    Owns (s.setCall t pc) t' k ↔ Owns s t' k := by
  simp [Owns, Collects, Settles, State.groupProps, ht]

theorem owns_setCall_sub {s : State} {t t' : ℕ} {pc : CallPc} {k : PropKey}
    (hcol : ∀ p ∈ pc.collected, p ∈ (s.call t).collected)
    (hst : pc.startedProps = (s.call t).startedProps)
    (h : Owns (s.setCall t pc) t' k) : Owns s t' k := by
  by_cases ht : t' = t
  · subst ht
    rcases h with h | ⟨r, h⟩
    · obtain ⟨p, hp, rfl⟩ := List.mem_map.1 h
      exact Or.inl (List.mem_map_of_mem (hcol p (by simpa using hp)))
    · exact Or.inr ⟨r, by simpa [Settles, State.groupProps, hst] using h⟩
  · exact (owns_setCall_ne ht).1 h

theorem owns_setGroup_sub {s : State} {t t' : ℕ} {r : ResourceID} {pc : GroupPc} {k : PropKey}
    (hsub : ∀ p ∈ pc.unsettled (s.groupProps t r), p ∈ (s.group t r).unsettled (s.groupProps t r))
    (h : Owns (s.setGroup t r pc) t' k) : Owns s t' k := by
  rcases h with h | ⟨r', h⟩
  · exact Or.inl h
  refine Or.inr ⟨r', ?_⟩
  by_cases ht : t' = t
  · subst ht
    by_cases hr : r' = r
    · subst hr
      obtain ⟨p, hp, rfl⟩ := List.mem_map.1 h
      exact List.mem_map_of_mem (hsub p (by simpa [State.groupProps] using hp))
    · simpa [Settles, State.groupProps, hr] using h
  · simpa [Settles, State.groupProps, ht] using h

theorem owns_step {s s' : State} {e : Event} (hi : Inv s) (hs : Step s e s') {t : ℕ} {k : PropKey}
    (h : Owns s' t k) : Owns s t k ∨
      (e = .mark t true ∧ ∃ p todo props, s.call t = .marking p todo props ∧ k = p.key) := by
  cases hs with
  | execute hc | lock hc | readSkip hc | readTake hc | readErr hc | markErr hc =>
    exact Or.inl (owns_setCall_sub (by simp [hc, CallPc.collected])
      (by simp [hc, CallPc.startedProps]) h)
  | @mark t' p todo props hc =>
    by_cases ht : t = t'
    · subst ht
      rcases h with h | ⟨r, h⟩
      · simp only [Collects, State.setCall, Function.update_self, CallPc.collected, keys,
          List.map_append, List.mem_append, List.map_cons, List.map_nil, List.mem_singleton] at h
        rcases h with h | rfl
        · exact Or.inl (Or.inl (by simpa [Collects, hc, CallPc.collected, keys] using h))
        · exact Or.inr ⟨rfl, p, todo, props, hc, rfl⟩
      · refine Or.inl (Or.inr ⟨r, ?_⟩)
        simpa [Settles, State.groupProps, hc, CallPc.startedProps] using h
    · exact Or.inl ((owns_setCall_ne ht).1 h)
  | @unlock t' props hc =>
    left
    by_cases ht : t = t'
    · subst ht
      rcases h with h | ⟨r, h⟩
      · simp [Collects, CallPc.collected, keys] at h
      · have hf := hi.fresh t r (by simp [hc, CallPc.startedProps])
        refine Or.inl (mem_keys_propsPerResource (r := r) ?_)
        simpa [Settles, State.groupProps, hf, GroupPc.unsettled, hc, CallPc.startedProps,
          CallPc.collected] using h
    · exact (owns_setCall_ne ht).1 h
  | abort _ hg | send _ _ hg | storeLock hg | storeErr hg | storeUnlock hg | ret hg =>
    exact Or.inl (owns_setGroup_sub (by simp +contextual [hg, GroupPc.unsettled]) h)
  | @store t' r v p todo hg =>
    exact Or.inl (owns_setGroup_sub (s := s) (by simp +contextual [hg, GroupPc.unsettled]) h)
  | retryRead | retryStore | retryErr => exact Or.inl h

/-- The status of a proposal changes only where a call marks it, where its goroutine settles
it or where a retry resets it. -/
theorem status_step {s s' : State} {e : Event} (hs : Step s e s') {k : PropKey}
    (hne : s'.status k ≠ s.status k) :
    (∃ t todo props p, e = .mark t true ∧ s.call t = .marking p todo props ∧ p.key = k ∧
      s'.status k = .pending) ∨
    (∃ t r v p todo, e = .store t r true ∧ s.group t r = .storing v (p :: todo) ∧ p.key = k ∧
      s'.status k = v) ∨
    (∃ j, e = .retryStore j true ∧ s.retry j = .resetting k ∧ s'.status k = .failed) := by
  cases hs with
  | @mark t p todo props hc =>
    have hk : k = p.key := by by_contra hk; simp [hk] at hne
    exact Or.inl ⟨t, todo, props, p, rfl, hc, hk.symm, by simp [hk]⟩
  | @store t r v p todo hg =>
    have hk : k = p.key := by by_contra hk; simp [hk] at hne
    exact Or.inr (Or.inl ⟨t, r, v, p, todo, rfl, hg, hk.symm, by simp [hk]⟩)
  | @retryStore j k' hr =>
    have hk : k = k' := by by_contra hk; simp [hk] at hne
    exact Or.inr (Or.inr ⟨j, rfl, hk ▸ hr, by simp [hk]⟩)
  | _ => exact absurd rfl hne

/-- A retry resets only what is stuck; on a failed proposal its write changes nothing. -/
def ResetsStuck (s : State) : Event → Prop
  | .retryStore j true => ∀ k, s.retry j = .resetting k → s.status k = .failed ∨ Stuck s k
  | _ => True

theorem Inv.settles_subset {s : State} (hi : Inv s) {t : ℕ} {r : ResourceID} {k : PropKey}
    (h : Settles s t r k) : k ∈ keys (s.groupProps t r) ∧ s.group t r ≠ .returned := by
  unfold Settles at h
  cases hg : s.group t r with
  | running | locking v => exact ⟨by simpa [hg, GroupPc.unsettled] using h, by simp⟩
  | storing v todo =>
    rw [hg] at h
    exact ⟨List.map_subset _ (hi.suffix t r v todo hg).subset h, by simp⟩
  | closing v | returned => simp [hg, GroupPc.unsettled, keys] at h

theorem Inv.not_owns_of_unattended {s : State} (hi : Inv s) {t : ℕ} {k : PropKey}
    (hu : Unattended s k) : ¬ Owns s t k := by
  rintro (h | ⟨r, h⟩)
  · exact (hu t).1 h
  · exact (hu t).2 r (hi.settles_subset h)

theorem Inv.not_owns_store {s : State} (hi : Inv s) {t : ℕ} {r : ResourceID} {v : PropStatus}
    {p : BtcTransferProposal} {todo : List BtcTransferProposal}
    (hg : s.group t r = .storing v (p :: todo)) :
    ¬ Owns ((s.setStatus p.key v).setGroup t r (.storing v todo)) t p.key := by
  have hsuf := hi.suffix t r v _ hg
  have hn := (hi.nodup t).2
  have hin : p.key ∈ keys (s.groupProps t r) :=
    List.mem_map_of_mem (hsuf.subset List.mem_cons_self)
  rintro (h | ⟨r', h⟩)
  · exact not_collects_of_started hin h
  · by_cases hr : r' = r
    · subst hr
      have hnd : (keys (p :: todo)).Nodup :=
        (nodup_propsPerResource hn r').sublist (hsuf.sublist.map _)
      have hmem : p.key ∈ keys todo := by
        simpa [Settles, GroupPc.unsettled] using h
      exact (List.nodup_cons.1 hnd).1 hmem
    · have hs : Settles s t r' p.key := by
        simpa [Settles, State.groupProps, hr] using h
      exact hr (resource_unique hn (hi.settles_subset hs).1 hin)

theorem Inv.not_owns_taken {s : State} (hi : Inv s) {t t' : ℕ} {p : Proposal}
    {todo : List Proposal} {props : List BtcTransferProposal}
    (hc : s.call t = .marking p todo props) : ¬ Owns s t' p.key := by
  intro h
  have := hi.taken t p todo props hc
  rw [hi.owned t' p.key h] at this
  simp [isExecuted] at this

theorem owned_step {s s' : State} {e : Event} (hi : Inv s) (hG : ResetsStuck s e)
    (hs : Step s e s') {t : ℕ} {k : PropKey} (h : Owns s' t k) : s'.status k = .pending := by
  by_contra hne
  rcases owns_step hi hs h with ho | ⟨rfl, p, todo, props, hc, rfl⟩
  · have hk := hi.owned t k ho
    rcases status_step hs (by rwa [hk]) with ⟨_, _, _, _, _, _, _, hp⟩ |
      ⟨t', r, v, p, todo, rfl, hg, rfl, _⟩ | ⟨j, rfl, hr, _⟩
    · exact hne hp
    · -- the settling call owned `k`, so it is `t`, and it owns `k` no more
      have ho' : Owns s t' p.key := Or.inr ⟨r, by simp [Settles, hg, GroupPc.unsettled, keys]⟩
      obtain rfl := hi.unique t t' _ ho ho'
      cases hs with
      | store hg' =>
        rw [hg] at hg'
        cases hg'
        exact hi.not_owns_store hg h
    · rcases hG k hr with hf | hst
      · rw [hk] at hf; cases hf
      · exact hi.not_owns_of_unattended hst.2 ho
  · cases hs with
    | mark hc' =>
      rw [hc] at hc'
      cases hc'
      simp at hne

theorem unique_step {s s' : State} {e : Event} (hi : Inv s) (hs : Step s e s') {t t' : ℕ}
    {k : PropKey} (h : Owns s' t k) (h' : Owns s' t' k) : t = t' := by
  rcases owns_step hi hs h with ho | ⟨rfl, p, todo, props, hc, rfl⟩
  · rcases owns_step hi hs h' with ho' | ⟨rfl, p, todo, props, hc, rfl⟩
    · exact hi.unique t t' k ho ho'
    · exact absurd ho (hi.not_owns_taken hc)
  · rcases owns_step hi hs h' with ho' | ⟨he, _⟩
    · exact absurd ho' (hi.not_owns_taken hc)
    · cases he; rfl

theorem taken_step {s s' : State} {e : Event}
    (hmutex : Mutex.Exclusive s.propMutex (Inside s))
    (htaken : ∀ t p todo props, s.call t = .marking p todo props → isExecuted (s.status p.key) = false)
    (hs : Step s e s') {t : ℕ} {p : Proposal} {todo : List Proposal} {props : List BtcTransferProposal}
    (hc : s'.call t = .marking p todo props) : isExecuted (s'.status p.key) = false := by
  -- `t` is inside the mutex, so nobody else marks or settles
  cases hs with
  | readTake hc' hx =>
    rcases setCall_cases (P := (· = .marking p todo props)) hc with ⟨rfl, hpc⟩ | hc
    · cases hpc
      exact hx
    · exact htaken t p todo props hc
  | execute hc' | lock hc' | readSkip hc' | readErr hc' | markErr hc' | unlock hc' =>
    rcases setCall_cases (P := (· = .marking p todo props)) hc with ⟨-, hpc⟩ | hc
    · cases hpc
    · exact htaken t p todo props hc
  | @mark t' _ _ _ hc' =>
    rcases setCall_cases (P := (· = .marking p todo props)) hc with ⟨-, hpc⟩ | hold
    · cases hpc
    · have hold : s.call t = .marking p todo props := hold
      have hsame := hmutex.single (.call t) (.call t') (by simp [Inside, hold, CallPc.locked])
        (by simp [Inside, hc', CallPc.locked])
      cases hsame
      simp at hc
  | @store t' r _ _ _ hg =>
    have hc : s.call t = .marking p todo props := hc
    have := hmutex.single (.call t) (.store t' r) (by simp [Inside, hc, CallPc.locked])
      (by simp [Inside, hg, GroupPc.locked])
    simp at this
  | @retryStore j k hr =>
    have := htaken t p todo props hc
    by_cases hk : p.key = k
    · simp [hk, isExecuted]
    · simpa [hk] using this
  | abort | send | storeLock | storeErr | storeUnlock | ret | retryRead | retryErr =>
    exact htaken t p todo props hc

theorem fresh_step {s s' : State} {e : Event}
    (hfresh : ∀ t r, (s.call t).startedProps = [] → s.group t r = .running) (hs : Step s e s')
    {t : ℕ} {r : ResourceID} (h : (s'.call t).startedProps = []) : s'.group t r = .running := by
  cases hs with
  | execute hc | lock hc | readSkip hc | readTake hc | readErr hc | mark hc | markErr hc
  | unlock hc =>
    rcases setCall_cases (P := (·.startedProps = [])) h with ⟨rfl, -⟩ | h
    · exact hfresh t r (by simp [hc, CallPc.startedProps])
    · exact hfresh t r h
  | @abort t' r' hp hg | @send t' r' _ hp hg =>
    have ht : t ≠ t' := by
      rintro rfl
      have h : (s.call t).startedProps = [] := h
      exact hp (by simp [State.groupProps, h, propsPerResource])
    simpa [ht] using hfresh t r h
  | @storeLock t' r' _ hg _ | @store t' r' _ _ _ hg | @storeErr t' r' _ _ _ hg
  | @storeUnlock t' r' _ hg | @ret t' r' _ hg =>
    have ht : t ≠ t' := by
      rintro rfl
      have := hfresh t r' h
      rw [hg] at this
      cases this
    simpa [ht] using hfresh t r h
  | retryRead | retryStore | retryErr => exact hfresh t r h

theorem nodup_step {s s' : State} {e : Event} {t : ℕ}
    (hn : (keys (s.call t).collected).Nodup ∧ (keys (s.call t).startedProps).Nodup)
    (hnew : ∀ p todo props, s.call t = .marking p todo props → p.key ∉ keys props)
    (hs : Step s e s') :
    (keys (s'.call t).collected).Nodup ∧ (keys (s'.call t).startedProps).Nodup := by
  cases hs with
  | @mark t' p todo props hc =>
    by_cases ht : t = t'
    · subst ht
      have hp := hnew p todo props hc
      rw [hc] at hn
      refine ⟨?_, by simp [CallPc.startedProps, keys]⟩
      simp only [State.setCall, Function.update_self, CallPc.collected, keys, List.map_append,
        List.map_cons, List.map_nil, Proposal.key_toBtc]
      exact List.nodup_append.2 ⟨hn.1, by simp, by
        rintro a ha b hb rfl
        rw [List.mem_singleton.1 hb] at ha
        exact hp ha⟩
    · simpa [ht] using hn
  | @execute t' _ _ hc | @lock t' _ hc _ | @readSkip t' _ _ _ hc _ | @readTake t' _ _ _ hc _
  | @readErr t' _ _ _ hc | @markErr t' _ _ _ hc | @unlock t' _ hc =>
    by_cases ht : t = t'
    · subst ht
      rw [hc] at hn
      simp_all [CallPc.collected, CallPc.startedProps, keys]
    · simpa [ht] using hn
  | abort | send | storeLock | store | storeErr | storeUnlock | ret | retryRead | retryStore
  | retryErr => exact hn

theorem suffix_step {s s' : State} {e : Event}
    (hfresh : ∀ t r, (s.call t).startedProps = [] → s.group t r = .running)
    (hsuffix : ∀ t r v todo, s.group t r = .storing v todo → todo <:+ s.groupProps t r)
    (hs : Step s e s') {t : ℕ} {r : ResourceID} {v : PropStatus} {todo : List BtcTransferProposal}
    (h : s'.group t r = .storing v todo) : todo <:+ s'.groupProps t r := by
  cases hs with
  | @execute t' _ _ hc | @lock t' _ hc _ | @readSkip t' _ _ _ hc _ | @readTake t' _ _ _ hc _
  | @readErr t' _ _ _ hc | @mark t' _ _ _ hc | @markErr t' _ _ _ hc | @unlock t' _ hc =>
    have hg : s.group t r = .storing v todo := h
    have ht : t ≠ t' := by
      rintro rfl
      have := hfresh t r (by simp [hc, CallPc.startedProps])
      rw [hg] at this
      cases this
    simpa [State.groupProps, ht] using hsuffix t r v todo hg
  | abort _ hg | send _ _ hg | storeUnlock hg | ret hg =>
    rcases setGroup_cases (P := (· = .storing v todo)) h with ⟨-, -, hpc⟩ | h
    · cases hpc
    · exact hsuffix t r v todo h
  | storeLock hg _ =>
    rcases setGroup_cases (P := (· = .storing v todo)) h with ⟨rfl, rfl, hpc⟩ | h
    · cases hpc
      exact List.suffix_refl _
    · exact hsuffix t r v todo h
  | store hg | storeErr hg =>
    rcases setGroup_cases (P := (· = .storing v todo)) h with ⟨rfl, rfl, hpc⟩ | h
    · cases hpc
      exact (List.suffix_cons _ _).trans (hsuffix t r _ _ hg)
    · exact hsuffix t r v todo h
  | retryRead | retryStore | retryErr => exact hsuffix t r v todo h

theorem inv_step {s s' : State} {e : Event} (hi : Inv s) (hG : ResetsStuck s e)
    (h : step s e = some s') : Inv s' :=
  have hs := step_cases h
  { mutex := exclusive_step hi.mutex hs
    fresh := fun _ _ => fresh_step hi.fresh hs
    nodup := fun t => nodup_step (hi.nodup t) (fun p _ props hc h => hi.not_owns_taken hc
      (Or.inl (by simpa [Collects, hc, CallPc.collected] using h) : Owns s t p.key)) hs
    suffix := fun _ _ _ _ => suffix_step hi.fresh hi.suffix hs
    owned := fun _ _ => owned_step hi hG hs
    taken := fun _ _ _ _ => taken_step hi.mutex hi.taken hs
    unique := fun _ _ _ => unique_step hi hs }

end Sygma.Btc
