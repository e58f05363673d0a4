import SygmaRelayer.Lib.Mutex
import SygmaRelayer.Spec.BtcExecutor

/-! What one step of the BTC executor can do: the branches of `step`, and the
threads that stand inside `propMutex`. A call whose store access failed never
leaves it. -/

namespace Sygma.Btc

/-- The transitions of `step`, one constructor for each branch. -/
inductive Step (s : State) : Event → State → Prop
  | execute {t p ps} (hc : s.call t = .idle) :
    Step s (.execute t (p :: ps)) (s.setCall t (.locking (p :: ps)))
  | lock {t ps} (hc : s.call t = .locking ps) (hm : s.propMutex = false) :
    Step s (.lock t) ((s.setMutex true).setCall t (.reading ps []))
  | readSkip {t p todo props} (hc : s.call t = .reading (p :: todo) props)
    (hx : isExecuted (s.status p.key) = true) :
    Step s (.read t true) (s.setCall t (.reading todo props))
  | readTake {t p todo props} (hc : s.call t = .reading (p :: todo) props)
    (hx : isExecuted (s.status p.key) = false) :
    Step s (.read t true) (s.setCall t (.marking p todo props))
  | readErr {t p todo props} (hc : s.call t = .reading (p :: todo) props) :
    Step s (.read t false) (s.setCall t .failed)
  | mark {t p todo props} (hc : s.call t = .marking p todo props) :
    Step s (.mark t true)
      ((s.setStatus p.key .pending).setCall t (.reading todo (props ++ [p.toBtc])))
  | markErr {t p todo props} (hc : s.call t = .marking p todo props) :
    Step s (.mark t false) (s.setCall t .failed)
  | unlock {t props} (hc : s.call t = .reading [] props) :
    Step s (.unlock t) ((s.setMutex false).setCall t (.started props))
  | abort {t r} (hp : s.groupProps t r ≠ []) (hg : s.group t r = .running) :
    Step s (.abort t r) (s.setGroup t r .returned)
  | send {t r} (ok : Bool) (hp : s.groupProps t r ≠ []) (hg : s.group t r = .running) :
    Step s (.send t r ok) (s.setGroup t r (.locking (if ok then .executed else .failed)))
  | storeLock {t r v} (hg : s.group t r = .locking v) (hm : s.propMutex = false) :
    Step s (.storeLock t r) ((s.setMutex true).setGroup t r (.storing v (s.groupProps t r)))
  | store {t r v p todo} (hg : s.group t r = .storing v (p :: todo)) :
    Step s (.store t r true) ((s.setStatus p.key v).setGroup t r (.storing v todo))
  | storeErr {t r v p todo} (hg : s.group t r = .storing v (p :: todo)) :
    Step s (.store t r false) (s.setGroup t r (.storing v todo))
  | storeUnlock {t r v} (hg : s.group t r = .storing v []) :
    Step s (.storeUnlock t r) ((s.setMutex false).setGroup t r (.closing v))
  | ret {t r v} (hg : s.group t r = .closing v) :
    Step s (.ret t r) (s.setGroup t r .returned)
  | retryRead {j k} (ok : Bool) (pc : RetryPc) :
    Step s (.retryRead j k ok) (s.setRetry j pc)
  | retryStore {j k} (hr : s.retry j = .resetting k) :
    Step s (.retryStore j true) ((s.setStatus k .failed).setRetry j .done)
  | retryErr {j} : Step s (.retryStore j false) (s.setRetry j .done)

theorem step_cases {s s' : State} {e : Event} (h : step s e = some s') : Step s e s' := by
  cases e with
  | execute t proposals =>
    simp only [step] at h
    split at h
    · cases h; exact .execute ‹_›
    · cases h
  | lock t =>
    simp only [step] at h
    split at h
    · cases h; exact .lock ‹_› ‹_›
    · cases h
  | read t ok =>
    simp only [step] at h
    split at h
    · split_ifs at h with hok hx
      · cases h; subst hok; exact .readSkip ‹_› hx
      · cases h; subst hok; exact .readTake ‹_› (by simpa using hx)
      · cases h
        obtain rfl : ok = false := by simpa using hok
        exact .readErr ‹_›
    · cases h
  | mark t ok =>
    simp only [step] at h
    split at h
    · split_ifs at h with hok
      · cases h; subst hok; exact .mark ‹_›
      · cases h
        obtain rfl : ok = false := by simpa using hok
        exact .markErr ‹_›
    · cases h
  | unlock t =>
    simp only [step] at h
    split at h
    · cases h; exact .unlock ‹_›
    · cases h
  | abort t r =>
    simp only [step] at h
    split at h
    · cases h; exact .abort (by simp [*]) ‹_›
    · cases h
  | send t r ok =>
    simp only [step] at h
    split at h
    · cases h; exact .send ok (by simp [*]) ‹_›
    · cases h
  | storeLock t r =>
    simp only [step] at h
    split at h
    · cases h; exact .storeLock ‹_› ‹_›
    · cases h
  | store t r ok =>
    simp only [step] at h
    split at h
    · cases h
      cases ok
      · exact .storeErr ‹_›
      · exact .store ‹_›
    · cases h
  | storeUnlock t r =>
    simp only [step] at h
    split at h
    · cases h; exact .storeUnlock ‹_›
    · cases h
  | ret t r =>
    simp only [step] at h
    split at h
    · cases h; exact .ret ‹_›
    · cases h
  | retryRead j k ok =>
    simp only [step] at h
    split at h
    · split_ifs at h
      · cases h; exact .retryRead ok _
      · cases h; exact .retryRead ok _
    · cases h
  | retryStore j ok =>
    simp only [step] at h
    split at h
    · cases h
      cases ok
      · exact .retryErr
      · exact .retryStore ‹_›
    · cases h

section Frame

variable {s : State} {t t' : ℕ} {r r' : ResourceID}

/-- What holds of a call after an update of the calls held of it before, or of the new value. -/
theorem setCall_cases {P : CallPc → Prop} {pc : CallPc} (h : P ((s.setCall t pc).call t')) :
    t' = t ∧ P pc ∨ P (s.call t') := by
  by_cases ht : t' = t
  · subst ht
    exact Or.inl ⟨rfl, by simpa using h⟩
  · exact Or.inr (by simpa [ht] using h)

theorem setGroup_cases {P : GroupPc → Prop} {pc : GroupPc}
    (h : P ((s.setGroup t r pc).group t' r')) :
    t' = t ∧ r' = r ∧ P pc ∨ P (s.group t' r') := by
  by_cases ht : t' = t
  · subst ht
    by_cases hr : r' = r
    · subst hr
      exact Or.inl ⟨rfl, rfl, by simpa using h⟩
    · exact Or.inr (by simpa [hr] using h)
  · exact Or.inr (by simpa [ht] using h)

end Frame

/-- The threads between `propMutex.Lock` and `propMutex.Unlock`. -/
inductive Thread
  | call (t : ℕ)
  | store (t : ℕ) (r : ResourceID)

def CallPc.locked : CallPc → Bool
  | .reading _ _ | .marking _ _ _ | .failed => true
  | .idle | .locking _ | .started _ => false

def GroupPc.locked : GroupPc → Bool
  | .storing _ _ => true
  | .running | .locking _ | .closing _ | .returned => false

def Inside (s : State) : Thread → Prop
  | .call t => (s.call t).locked
  | .store t r => (s.group t r).locked

theorem inside_setCall {s : State} {t : ℕ} {pc : CallPc} {a : Thread}
    (h : Inside (s.setCall t pc) a) : Inside s a ∨ a = .call t := by
  rcases a with t' | ⟨t', r⟩
  · rcases setCall_cases (P := fun pc => pc.locked) h with ⟨rfl, -⟩ | h
    · exact Or.inr rfl
    · exact Or.inl h
  · exact Or.inl h

theorem inside_setGroup {s : State} {t : ℕ} {r : ResourceID} {pc : GroupPc} {a : Thread}
    (h : Inside (s.setGroup t r pc) a) : Inside s a ∨ a = .store t r := by
  rcases a with t' | ⟨t', r'⟩
  · exact Or.inl h
  · rcases setGroup_cases (P := fun pc => pc.locked) h with ⟨rfl, rfl, -⟩ | h
    · exact Or.inr rfl
    · exact Or.inl h

theorem inside_setCall_same {s : State} {t : ℕ} {pc : CallPc} (hpc : pc.locked → (s.call t).locked)
    {a : Thread} (h : Inside (s.setCall t pc) a) : Inside s a := by
  rcases inside_setCall h with h' | rfl
  · exact h'
  · exact hpc (by simpa [Inside] using h)

theorem inside_setGroup_same {s : State} {t : ℕ} {r : ResourceID} {pc : GroupPc}
    (hpc : pc.locked → (s.group t r).locked) {a : Thread} (h : Inside (s.setGroup t r pc) a) :
    Inside s a := by
  rcases inside_setGroup h with h' | rfl
  · exact h'
  · exact hpc (by simpa [Inside] using h)

theorem exclusive_init (st : PropStore) :
    Mutex.Exclusive (init st).propMutex (Inside (init st)) := by
  have hout : ∀ a, ¬ Inside (init st) a := by
    intro a
    cases a <;> simp [Inside, init, CallPc.locked, GroupPc.locked]
  exact ⟨fun a ha => absurd ha (hout a), fun a _ ha => absurd ha (hout a)⟩

theorem exclusive_step {s s' : State} {e : Event} (h : Mutex.Exclusive s.propMutex (Inside s))
    (hs : Step s e s') : Mutex.Exclusive s'.propMutex (Inside s') := by
  cases hs with
  | lock hc hm => exact (hm ▸ h).acquire fun _ ha => inside_setCall ha
  | storeLock hg hm => exact (hm ▸ h).acquire fun _ ha => inside_setGroup ha
  | @unlock t _ hc =>
    refine h.release (c := .call t) (by simp [Inside, hc, CallPc.locked]) fun a ha => ?_
    refine ⟨inside_setCall_same (by simp [CallPc.locked]) ha, ?_⟩
    rintro rfl
    simp [Inside, CallPc.locked] at ha
  | @storeUnlock t r _ hg =>
    refine h.release (c := .store t r) (by simp [Inside, hg, GroupPc.locked]) fun a ha => ?_
    refine ⟨inside_setGroup_same (by simp [GroupPc.locked]) ha, ?_⟩
    rintro rfl
    simp [Inside, GroupPc.locked] at ha
  | execute hc | readSkip hc | readTake hc | readErr hc | mark hc | markErr hc =>
    exact h.mono fun _ ha => inside_setCall_same (by simp [hc, CallPc.locked]) ha
  | abort _ hg | send _ _ hg | store hg | storeErr hg | ret hg =>
    exact h.mono fun _ ha => inside_setGroup_same (by simp [hg, GroupPc.locked]) ha
  | retryRead | retryStore | retryErr => exact h

end Sygma.Btc
