import SygmaRelayer.Proofs.TopologySteps

/-! The topology of a relayer whose EVM domains announce refreshes, over every order in which
their handlers, restarts and crashes come about.

As long as no store is cut off while it has the file open, a relayer that once had a topology in its
file only ever works with that one and with topologies whose hash was announced. If refreshes do
not overlap, then between them the gate, the peerstore and a readable file agree. -/

namespace Sygma.Topology

open Runs
open KeyshareStore (File)

variable {Store : Type} {r : Relayer Store} {s s' : State Store} {file : File}

/-! ### Announced topologies -/

/-- The topology was fetched in one of the events, under a hash that was announced last. -/
def Announced (r : Relayer Store) (events : List Event) (t : NetworkTopology) : Prop :=
  ∃ d hashes hash response, Event.handleEvents d (.ok hashes) response ∈ events ∧
    hashes.getLast? = some hash ∧ hash ≠ "" ∧ networkTopology r.toProvider hash response = .ok t

theorem Announced.mono {events events' : List Event} {t : NetworkTopology}
    (h : Announced r events t) (hsub : events ⊆ events') : Announced r events' t := by
  obtain ⟨d, hashes, hash, response, hmem, hrest⟩ := h
  exact ⟨d, hashes, hash, response, hsub hmem, hrest⟩

theorem announced_threshold {events : List Event} {t : NetworkTopology}
    (h : Announced r events t) : 1 ≤ t.threshold := by
  obtain ⟨-, -, hash, response, -, -, -, hfetch⟩ := h
  obtain ⟨-, -, text, -, -, -, -, hread⟩ := networkTopology_eq_ok hfetch
  obtain ⟨raw, -, hraw⟩ := Fallible.bind_eq_ok.1 hread
  obtain ⟨peers, -, hraw⟩ := Fallible.bind_eq_ok.1 hraw
  split at hraw
  · cases hraw
  · split_ifs at hraw with hlt
    obtain rfl := Except.ok.inj hraw
    exact Int.not_lt.1 hlt

/-- What a thread works with. -/
def Pc.topology : Pc → Option NetworkTopology
  | .idle => none
  | .storing t | .writing t | .stored t | .loading t | .clearing t _ | .adding t _ | .resharing t =>
    some t

/-- The thread is in `StoreTopology`. -/
def Pc.stores : Pc → Bool
  | .storing _ | .writing _ => true
  | _ => false

/-- The thread is between the fetch of a topology and the end of `LoadPeers`. -/
def Pc.busy : Pc → Bool
  | .idle | .resharing _ => false
  | _ => true

theorem Pc.ne_of_stores {pc : Pc} (h : pc.stores = false) (t : NetworkTopology) :
    pc ≠ .storing t ∧ pc ≠ .writing t := by
  refine ⟨?_, ?_⟩ <;> rintro rfl <;> cases h

/-- A store that has the file open keeps it open or leaves it readable. -/
def Undisturbed (r : Relayer Store) (s : State Store) (e : Event) : Prop :=
  ∀ s' ∈ step r s e, s.mu = none ∨ s'.mu = s.mu ∨ (topology r s'.file).isOk = true

instance : DecidableRel (Undisturbed r) := fun s e =>
  inferInstanceAs (Decidable (∀ s' ∈ step r s e, _))

/-- The relayer had the topology in its file at first, or it was announced. -/
def Known (r : Relayer Store) (first : NetworkTopology) (past : List Event) (t : NetworkTopology) : Prop :=
  t = first ∨ Announced r past t

/-- What a thread may work with. -/
def MayUse (r : Relayer Store) (first : NetworkTopology) (past : List Event) :
    Thread → NetworkTopology → Prop
  | .run => Known r first past
  | .handler _ => Announced r past

/-- Everything the relayer works with is known. -/
structure Sound (r : Relayer Store) (first : NetworkTopology) (past : List Event) (s : State Store) : Prop where
  gate : ∀ t, s.gate = some t → Known r first past t
  threads : ∀ th t, (s.pc th).topology = some t → MayUse r first past th t
  /-- `Run` finds its topology in the file -/
  run_finds : ∀ t, s.pc .run ≠ .storing t
  handlers_down : s.up = false → ∀ d, s.pc (.handler d) = .idle

/-- So is what it has in its file, unless a thread has emptied it to write. -/
structure Trusted (r : Relayer Store) (first : NetworkTopology) (past : List Event) (s : State Store) : Prop
    extends Sound r first past s where
  holder : ∀ th, s.mu = some th ↔ ∃ t, s.pc th = .writing t
  emptied : s.mu ≠ none → s.file = .ok []
  readable : s.mu = none → ∃ t, topology r s.file = .ok (some t) ∧ Known r first past t

variable {first : NetworkTopology} {past : List Event} {e : Event} {th : Thread} {pc : Pc}
  {t : NetworkTopology}

theorem MayUse.known (h : MayUse r first past th t) : Known r first past t := by
  cases th with
  | run => exact h
  | handler d => exact Or.inr h

theorem Known.mono {events : List Event} (h : Known r first past t) (hsub : past ⊆ events) :
    Known r first events t := h.imp_right fun h => h.mono hsub

theorem MayUse.mono {events : List Event} (h : MayUse r first past th t) (hsub : past ⊆ events) :
    MayUse r first events th t := by
  cases th with
  | run => exact Known.mono h hsub
  | handler d => exact Announced.mono h hsub

theorem Trusted.mono {events : List Event} (h : Trusted r first past s) (hsub : past ⊆ events) :
    Trusted r first events s where
  gate t ht := (h.gate t ht).mono hsub
  threads th t ht := (h.threads th t ht).mono hsub
  run_finds := h.run_finds
  handlers_down := h.handlers_down
  holder := h.holder
  emptied := h.emptied
  readable hmu := by
    obtain ⟨t, ht, hknown⟩ := h.readable hmu
    exact ⟨t, ht, hknown.mono hsub⟩

theorem trusted_down {file : File} (hread : topology r file = .ok (some t))
    (ht : Known r first past t) : Trusted r first past (down r file) where
  gate _ h := nomatch h
  threads _ _ h := nomatch h
  run_finds _ h := nomatch h
  handlers_down _ _ := rfl
  holder _ := by simp [down]
  emptied h := absurd rfl h
  readable _ := ⟨t, hread, ht⟩

theorem Sound.eq_run (h : Sound r first past s) (hup : s.up = false) (hth : s.pc th ≠ .idle) :
    th = .run := by
  cases th with
  | run => rfl
  | handler d => exact absurd (h.handlers_down hup d) hth

theorem Sound.goto (h : Sound r first past s) (hpc : s'.pc = (s.goto th pc).pc)
    (hgate : ∀ t, s'.gate = some t → Known r first past t)
    (hup : s'.up = false → s.up = false ∧ th = .run)
    (htop : ∀ t, pc.topology = some t → MayUse r first past th t)
    (hfinds : ∀ t, pc = .storing t → th ≠ .run) : Sound r first past s' where
  gate := hgate
  threads th' t ht := by
    rw [hpc] at ht
    by_cases hth : th' = th
    · subst hth
      rw [goto_pc_self] at ht
      exact htop t ht
    · rw [goto_pc_of_ne hth] at ht
      exact h.threads th' t ht
  run_finds t ht := by
    rw [hpc] at ht
    by_cases hth : th = .run
    · subst hth
      rw [goto_pc_self] at ht
      exact hfinds t ht rfl
    · rw [goto_pc_of_ne (Ne.symm hth)] at ht
      exact h.run_finds t ht
  handlers_down hdown d := by
    obtain ⟨hdown, rfl⟩ := hup hdown
    rw [hpc, goto_pc_of_ne (by simp)]
    exact h.handlers_down hdown d

theorem Sound.next (h : Sound r first past s) (ht : (s.pc th).topology = some t)
    (hpc : s'.pc = (s.goto th pc).pc) (hnext : pc.topology = some t ∨ pc = .idle)
    (hfinds : ∀ t, pc ≠ .storing t) (hup : s'.up = s.up ∨ s'.up = true)
    (hgate : s'.gate = s.gate ∨ s'.gate = some t) : Sound r first past s' := by
  have hmay := h.threads th t ht
  refine h.goto hpc (fun t' ht' => ?_) (fun hdown => ?_) (fun t' ht' => ?_)
    fun t' ht' => absurd ht' (hfinds t')
  · rcases hgate with hgate | hgate
    · exact h.gate t' (hgate ▸ ht')
    · obtain rfl : t = t' := Option.some.inj (hgate.symm.trans ht')
      exact hmay.known
  · rcases hup with hup | hup
    · rw [hup] at hdown
      refine ⟨hdown, h.eq_run hdown fun hidle => ?_⟩
      simp [hidle, Pc.topology] at ht
    · simp [hup] at hdown
  · rcases hnext with hnext | rfl
    · obtain rfl : t = t' := Option.some.inj (hnext.symm.trans ht')
      exact hmay
    · cases ht'

theorem Trusted.goto (h : Trusted r first past s) (hsound : Sound r first past s')
    (hpc : s'.pc = (s.goto th pc).pc) (hfile : s'.file = s.file) (hmu : s'.mu = s.mu)
    (hfrom : ∀ t, s.pc th ≠ .writing t) (hto : ∀ t, pc ≠ .writing t) :
    Trusted r first past s' where
  toSound := hsound
  holder th' := by
    rw [hmu, h.holder th', hpc]
    by_cases hth : th' = th
    · subst hth
      rw [goto_pc_self]
      exact ⟨fun ⟨t, ht⟩ => absurd ht (hfrom t), fun ⟨t, ht⟩ => absurd ht (hto t)⟩
    · rw [goto_pc_of_ne hth]
  emptied := by
    rw [hmu, hfile]
    exact h.emptied
  readable := by
    rw [hmu, hfile]
    exact h.readable

theorem Trusted.next (h : Trusted r first past s) (ht : (s.pc th).topology = some t)
    (hfrom : (s.pc th).stores = false) (hpc : s'.pc = (s.goto th pc).pc)
    (hnext : pc.topology = some t ∨ pc = .idle) (hto : pc.stores = false)
    (hfile : s'.file = s.file) (hmu : s'.mu = s.mu) (hup : s'.up = s.up ∨ s'.up = true)
    (hgate : s'.gate = s.gate ∨ s'.gate = some t) : Trusted r first past s' := by
  have hsound := h.toSound.next ht hpc hnext (fun t => (Pc.ne_of_stores hto t).1) hup hgate
  exact h.goto hsound hpc hfile hmu (fun t => (Pc.ne_of_stores hfrom t).2)
    fun t => (Pc.ne_of_stores hto t).2

theorem Trusted.opened (h : Trusted r first past s) (hpc : s.pc th = .storing t)
    (hmu : s.mu = none) :
    Trusted r first past ({ s with file := .ok [], mu := some th }.goto th (.writing t)) where
  toSound := h.toSound.next (by rw [hpc]; rfl) rfl (Or.inl rfl) (fun _ ht => by cases ht)
    (Or.inl rfl) (Or.inl rfl)
  holder th' := by
    by_cases hth : th' = th
    · subst hth
      simp [State.goto]
    · have hno := (h.holder th').2
      rw [hmu] at hno
      rw [goto_pc_of_ne hth]
      exact ⟨fun heq => absurd (Option.some.inj heq).symm hth, fun hex => by cases hno hex⟩
  emptied _ := rfl
  readable hnone := by cases hnone

theorem Trusted.written {kb : List UInt8} (h : Trusted r first past s)
    (hpc : s.pc th = .writing t) (hkb : r.json.unmarshal kb = .ok (some t)) :
    Trusted r first past ({ s with file := .ok kb, mu := none }.goto th (.stored t)) where
  toSound := h.toSound.next (by rw [hpc]; rfl) rfl (Or.inl rfl) (fun _ ht => by cases ht)
    (Or.inl rfl) (Or.inl rfl)
  holder th' := by
    by_cases hth : th' = th
    · subst hth
      simp [State.goto]
    · have hholds := (h.holder th).2 ⟨t, hpc⟩
      have hno := (h.holder th').2
      rw [hholds] at hno
      rw [goto_pc_of_ne hth]
      exact ⟨fun heq => (by cases heq), fun hex => absurd (Option.some.inj (hno hex)).symm hth⟩
  emptied hne := absurd rfl hne
  readable _ := ⟨t, hkb, (h.threads th t (by rw [hpc]; rfl)).known⟩

/-- No store is cut off such that it leaves a file that cannot be read. -/
theorem Undisturbed.not_cut (hu : Undisturbed r s e) (hstep : step r s e = some s')
    (hholds : s.mu = some th) (hmu : s'.mu = none)
    (hfile : ∃ err, topology r s'.file = .error err) : False := by
  obtain ⟨err, hfile⟩ := hfile
  rcases hu s' hstep with hnone | heq | hok
  · simp [hnone] at hholds
  · simp [heq, hholds] at hmu
  · simp [hfile, Except.isOk, Except.toBool] at hok

theorem topology_empty (r : Relayer Store) : ∃ err, topology r (.ok []) = .error err := r.json.empty

theorem Trusted.dies (h : Trusted r first past s) (hu : Undisturbed r s e)
    (hstep : step r s e = some (down r s.file)) : Trusted r first past (down r s.file) := by
  cases hmu : s.mu with
  | none =>
    obtain ⟨t, hread, ht⟩ := h.readable hmu
    exact trusted_down hread ht
  | some th =>
    have hfile : s.file = .ok [] := h.emptied (by simp [hmu])
    exact (hu.not_cut hstep hmu rfl (hfile ▸ topology_empty r)).elim

theorem Trusted.mu_of_down (h : Trusted r first past s) (hup : s.up = false)
    (hpc : s.pc .run = .idle) : s.mu = none := by
  cases hmu : s.mu with
  | none => rfl
  | some th =>
    obtain ⟨t, hth⟩ := (h.holder th).1 hmu
    have hrun : th = .run := h.eq_run hup (by simp [hth])
    simp [← hrun, hth] at hpc

theorem storeFailed_mu (s : State Store) (th : Thread) : (s.storeFailed r th).mu = none := by
  cases th <;> rfl

theorem storeFailed_file (s : State Store) (th : Thread) : (s.storeFailed r th).file = s.file := by
  cases th <;> rfl

theorem Trusted.move (h : Trusted r first past s) (hu : Undisturbed r s e)
    (hstep : step r s e = some s') : Trusted r first (past ++ [e]) s' := by
  have h := h.mono (List.subset_append_left past [e])
  cases step_move hstep with
  | stays => exact h
  | dies => exact h.dies hu hstep
  | @found _ t hup hpc hread =>
    obtain ⟨t', hread', hknown⟩ := h.readable (h.mu_of_down hup hpc)
    rw [hread] at hread'
    obtain rfl : t = t' := by simpa using hread'
    refine h.goto (h.toSound.goto rfl h.gate (fun hup => ⟨hup, rfl⟩) ?_ ?_) rfl rfl rfl ?_ ?_
    · intro t' ht
      obtain rfl := Option.some.inj ht
      exact hknown
    · exact fun _ ht => nomatch ht
    · exact fun _ ht => nomatch hpc.symm.trans ht
    · exact fun _ ht => nomatch ht
  | fetched hup hpc hread hfetch =>
    obtain ⟨t', hread', -⟩ := h.readable (h.mu_of_down hup hpc)
    simp [hread] at hread'
  | @refreshed d hashes hash response t hup hpc hlast hne hfetch =>
    refine h.goto (h.toSound.goto rfl h.gate (fun hdown => ?_) ?_ ?_) rfl rfl rfl ?_ ?_
    · exact nomatch hup.symm.trans hdown
    · intro t' ht
      obtain rfl := Option.some.inj ht
      exact ⟨d, hashes, hash, response, by simp, hlast, hne, hfetch⟩
    · exact fun _ _ hth => nomatch hth
    · exact fun _ ht => nomatch hpc.symm.trans ht
    · exact fun _ ht => nomatch ht
  | @unopened th t err hpc hmu =>
    cases th with
    | run => exact absurd hpc (h.run_finds t)
    | handler d =>
      have hsound : Sound r first _ (s.storeFailed r (.handler d)) :=
        h.toSound.next (by rw [hpc]; rfl) rfl (Or.inr rfl) (fun _ ht => nomatch ht)
          (Or.inl rfl) (Or.inl rfl)
      exact h.goto hsound rfl rfl hmu.symm (fun _ ht => nomatch hpc.symm.trans ht)
        fun _ ht => nomatch ht
  | opened hpc hmu => exact h.opened hpc hmu
  | @unmarshalled th t n hpc =>
    have hholds := (h.holder th).2 ⟨t, hpc⟩
    have hfile : s.file = .ok [] := h.emptied (by simp [hholds])
    refine (hu.not_cut hstep hholds (storeFailed_mu s th) ?_).elim
    rw [storeFailed_file, hfile]
    exact topology_empty r
  | @cut th t n front hpc hfront =>
    refine (hu.not_cut hstep ((h.holder th).2 ⟨t, hpc⟩) (storeFailed_mu _ th) ?_).elim
    rwa [storeFailed_file]
  | written hpc hkb => exact h.written hpc hkb
  | sets hpc =>
    exact h.next (by rw [hpc]; rfl) (by rw [hpc]; rfl) rfl (Or.inl rfl) rfl rfl rfl (Or.inl rfl)
      (Or.inr rfl)
  | lists hpc | clears hpc | cleared hpc | adds hpc haddr =>
    exact h.next (by rw [hpc]; rfl) (by rw [hpc]; rfl) rfl (Or.inl rfl) rfl rfl rfl (Or.inl rfl)
      (Or.inl rfl)
  | @loaded th t hpc =>
    cases th with
    | run =>
      exact h.next (by rw [hpc]; rfl) (by rw [hpc]; rfl) rfl (Or.inr rfl) rfl rfl rfl (Or.inr rfl)
        (Or.inl rfl)
    | handler d =>
      exact h.next (by rw [hpc]; rfl) (by rw [hpc]; rfl) rfl (Or.inl rfl) rfl rfl rfl (Or.inl rfl)
        (Or.inl rfl)
  | executed hpc =>
    exact h.next (by rw [hpc]; rfl) (by rw [hpc]; rfl) rfl (Or.inr rfl) rfl rfl rfl (Or.inl rfl)
      (Or.inl rfl)

/-- Started with a readable file, a relayer whose stores are not cut off lets in only peers of the
topology in that file and of topologies fetched under announced hashes, and reshares its key only
with thresholds of the latter, which are positive. -/
theorem gate_announced (hread : topology r file = .ok (some first)) {events : List Event}
    (hu : Along (step r) (Undisturbed r) (down r file) events)
    (hexec : exec (step r) (down r file) events = some s) :
    (∀ topology peer, s.gate = some topology →
      ConnectionGate.interceptSecured topology peer = true →
        ∃ t, Known r first events t ∧ ∃ p ∈ t.peers, p.id = peer) ∧
    ∀ d t, s.pc (.handler d) = .resharing t → Announced r events t ∧ 1 ≤ t.threshold := by
  have h : Trusted r first ([] ++ events) s :=
    exec_history (fun past s e s' h hu hstep => h.move hu hstep)
      (trusted_down hread (Or.inl rfl)) hu hexec
  rw [List.nil_append] at h
  constructor
  · intro t peer hgate hallowed
    simp only [ConnectionGate.interceptSecured, NetworkTopology.isAllowedPeer, List.any_eq_true,
      decide_eq_true_eq] at hallowed
    exact ⟨t, h.gate t hgate, hallowed⟩
  · intro d t hpc
    have ht : Announced r events t := h.threads (.handler d) t (by rw [hpc]; rfl)
    exact ⟨ht, announced_threshold ht⟩

/-- The relayer comes up with the first topology. -/
def startEvents : List Event := .start (.ok []) :: List.replicate 5 (.advance .run)

/-- The second topology is announced. -/
def announceEvent : Event := .handleEvents 1 (.ok ["", secondHash]) (.ok (Text.ascii secondText))

/-- It is stored and loaded. -/
def loadEvents : List Event :=
  .openFile (.handler 1) none :: .write (.handler 1) (storedText secondTopology).length ::
    List.replicate 6 (.advance (.handler 1))

def refreshEvents : List Event := startEvents ++ announceEvent :: loadEvents

def firstFile : File := .ok (storedText firstTopology)

def startedState : State (List (PeerID × String)) :=
  (exec (step pairRelayer) (down pairRelayer firstFile) startEvents).getD
    (down pairRelayer firstFile)

def announcedState : State (List (PeerID × String)) :=
  startedState.goto (.handler 1) (.storing secondTopology)

theorem exec_startEvents :
    exec (step pairRelayer) (down pairRelayer firstFile) startEvents = some startedState := by
  have hsome : (exec (step pairRelayer) (down pairRelayer firstFile) startEvents).isSome = true := by
    decide +kernel
  obtain ⟨s, hs⟩ := Option.isSome_iff_exists.1 hsome
  rw [startedState, hs]
  rfl

theorem step_announceEvent : step pairRelayer startedState announceEvent = some announcedState := by
  have hidle : startedState.up = true ∧ startedState.pc (.handler 1) = .idle := by decide +kernel
  have hne : secondHash ≠ "" := hexEncodeToString_ne_empty (by decide)
  have hlast : ["", secondHash].getLast? = some secondHash := rfl
  have hrefreshed := refreshedTopology_of_fetched (r := pairRelayer) hlast hne
    networkTopology_secondText
  simp only [step, announceEvent, hidle, and_self, if_true, hrefreshed]
  rfl

/-- No thread is busy. -/
def quiet (s : State (List (PeerID × String))) : Bool :=
  !(s.pc .run).busy && (List.range 256).all fun n => !(s.pc (.handler (UInt8.ofNat n))).busy

theorem not_busy_of_quiet {s : State (List (PeerID × String))} (h : quiet s = true) (th : Thread) :
    (s.pc th).busy = false := by
  obtain ⟨hrun, hhandlers⟩ : (s.pc .run).busy = false ∧ ∀ n < 256, _ := by
    simpa [quiet] using h
  cases th with
  | run => exact hrun
  | handler d => simpa using hhandlers d.toNat d.toNat_lt

/-- What the run leaves. -/
def refreshOutcome (s : State (List (PeerID × String))) :
    Option NetworkTopology × Pc × Bool × Bool :=
  (s.gate, s.pc (.handler 1), s.up, quiet s)

theorem exec_refreshEvents : ∃ s,
    exec (step pairRelayer) (down pairRelayer firstFile) refreshEvents = some s ∧
      refreshOutcome s = (some secondTopology, .resharing secondTopology, true, true) := by
  have hload : (exec (step pairRelayer) announcedState loadEvents).map refreshOutcome =
      some (some secondTopology, .resharing secondTopology, true, true) := by
    decide +kernel
  obtain ⟨s, hs, houtcome⟩ := Option.map_eq_some_iff.1 hload
  exact ⟨s, exec_append exec_startEvents (exec_cons.2 ⟨_, step_announceEvent, hs⟩), houtcome⟩

theorem gate_announced_pair :
    ∃ s, exec (step pairRelayer) (down pairRelayer firstFile) refreshEvents = some s ∧
      s.gate = some secondTopology ∧ s.pc (.handler 1) = .resharing secondTopology ∧
      Announced pairRelayer refreshEvents secondTopology := by
  have hread : topology pairRelayer firstFile = .ok (some firstTopology) := by decide +kernel
  have hu : Along (step pairRelayer) (Undisturbed pairRelayer) (down pairRelayer firstFile)
      refreshEvents := by
    rw [refreshEvents, along_append exec_startEvents, along_cons step_announceEvent]
    have hmu : startedState.mu = none := by decide +kernel
    exact ⟨by decide +kernel, fun _ _ => Or.inl hmu, by decide +kernel⟩
  obtain ⟨s, hs, houtcome⟩ := exec_refreshEvents
  obtain ⟨hgate, hpc, -⟩ : s.gate = _ ∧ s.pc (.handler 1) = _ ∧ _ := by
    simpa only [refreshOutcome, Prod.mk.injEq] using houtcome
  exact ⟨s, hs, hgate, hpc, ((gate_announced hread hu hs).2 1 secondTopology hpc).1⟩

/-! ### Agreement -/

/-- A refresh begins when no other one is under way; a call without a topology to store does not
matter. -/
def Apart (r : Relayer Store) (s : State Store) : Event → Prop
  | .handleEvents _ refreshEvents response =>
    (∃ t, refreshedTopology r refreshEvents response = .ok (some t)) → ∀ th, (s.pc th).busy = false
  | _ => True

/-- The peerstore lists the peers, with the first address of each, and nothing else. -/
structure Loaded (store : Peerstore Store) (peerstore : Store) (peers : List AddrInfo) : Prop where
  listed : ∀ id, id ∈ store.peers peerstore ↔ ∃ p ∈ peers, p.id = id
  addrs : ∀ id addr, addr ∈ store.addrs peerstore id ↔
    ∃ p ∈ peers, p.id = id ∧ p.addrs.head? = some addr

/-- The relayer works with one topology, and so it will when it is started again. -/
structure Settled (r : Relayer Store) (s : State Store) (t : NetworkTopology) : Prop where
  gate : s.gate = some t
  peers : Loaded r.store s.peerstore t.peers
  file : ∀ t', topology r s.file = .ok t' → t' = some t

/-- What holds while a thread is somewhere and no other one is busy. -/
def Consistent (r : Relayer Store) (s : State Store) : Pc → Prop
  | .idle | .resharing _ | .storing _ | .writing _ => s.up = true → ∃ t, Settled r s t
  | .stored t => topology r s.file = .ok (some t)
  | .loading t => topology r s.file = .ok (some t) ∧ s.gate = some t
  | .clearing t ids => topology r s.file = .ok (some t) ∧ s.gate = some t ∧
      ∀ id ∈ r.store.peers s.peerstore, id ∈ ids
  | .adding t rest => topology r s.file = .ok (some t) ∧ s.gate = some t ∧
      ∃ added, t.peers = added ++ rest ∧ Loaded r.store s.peerstore added

structure Agreeing (r : Relayer Store) (s : State Store) : Prop where
  handlers_down : s.up = false → ∀ d, s.pc (.handler d) = .idle
  run_up : s.up = true → s.pc .run = .idle
  active : ∃ th, (∀ th', th' ≠ th → (s.pc th').busy = false) ∧ Consistent r s (s.pc th)

theorem agreeing_down (file : File) : Agreeing r (down r file) where
  handlers_down _ _ := rfl
  run_up h := nomatch h
  active := ⟨.run, fun _ _ => rfl, fun h => nomatch h⟩

theorem Agreeing.settled (h : Agreeing r s) (hup : s.up = true) (hbusy : ∀ th, (s.pc th).busy = false) :
    ∃ t, Settled r s t := by
  obtain ⟨th, -, hth⟩ := h.active
  have hnot := hbusy th
  cases hpc : s.pc th with
  | idle | resharing t =>
    rw [hpc] at hth
    exact hth hup
  | _ => simp [hpc, Pc.busy] at hnot

theorem Agreeing.of_busy (h : Agreeing r s) (hpc : s.pc th = pc) (hbusy : pc.busy = true) :
    (∀ th', th' ≠ th → (s.pc th').busy = false) ∧ Consistent r s pc := by
  obtain ⟨th', hothers, hconsistent⟩ := h.active
  obtain rfl : th = th' := by
    by_contra hne
    simp [← hpc, hothers th hne] at hbusy
  exact ⟨hothers, hpc ▸ hconsistent⟩

theorem Agreeing.goto (h : Agreeing r s) (hpc : s'.pc = (s.goto th pc).pc)
    (hothers : ∀ th', th' ≠ th → (s.pc th').busy = false)
    (hdown : s'.up = false → s.up = false ∧ th = .run)
    (hup : s'.up = true → (s.up = true ∧ th ≠ .run) ∨ (th = .run ∧ pc = .idle))
    (hconsistent : Consistent r s' pc) : Agreeing r s' where
  handlers_down hs' d := by
    obtain ⟨hs, rfl⟩ := hdown hs'
    rw [hpc, goto_pc_of_ne (by simp)]
    exact h.handlers_down hs d
  run_up hs' := by
    rw [hpc]
    rcases hup hs' with ⟨hs, hne⟩ | ⟨rfl, rfl⟩
    · rw [goto_pc_of_ne (Ne.symm hne)]
      exact h.run_up hs
    · rw [goto_pc_self]
  active := by
    refine ⟨th, fun th' hne => ?_, ?_⟩
    · rw [hpc, goto_pc_of_ne hne]
      exact hothers th' hne
    · rwa [hpc, goto_pc_self]

theorem Agreeing.next {pc' : Pc} (h : Agreeing r s) (hpc : s.pc th = pc) (hbusy : pc.busy = true)
    (hpc' : s'.pc = (s.goto th pc').pc) (hup : s'.up = s.up) (hconsistent : Consistent r s' pc') :
    Agreeing r s' := by
  refine h.goto hpc' (h.of_busy hpc hbusy).1 (fun hs' => ?_) (fun hs' => Or.inl ?_) hconsistent
  · rw [hup] at hs'
    cases th with
    | run => exact ⟨hs', rfl⟩
    | handler d => simp [← hpc, h.handlers_down hs' d, Pc.busy] at hbusy
  · rw [hup] at hs'
    refine ⟨hs', ?_⟩
    rintro rfl
    simp [← hpc, h.run_up hs', Pc.busy] at hbusy

/-- A file that cannot be read does not matter. -/
theorem Settled.of_file (h : Settled r s t) (hgate : s'.gate = s.gate)
    (hpeers : s'.peerstore = s.peerstore)
    (hfile : s'.file = s.file ∨ ∃ err, topology r s'.file = .error err) : Settled r s' t where
  gate := hgate.trans h.gate
  peers := hpeers ▸ h.peers
  file t' ht' := by
    rcases hfile with hfile | ⟨err, hfile⟩
    · exact h.file t' (hfile ▸ ht')
    · simp [hfile] at ht'

/-- A store fails, and `HandleEvents` returns or `Run` panics. -/
theorem Agreeing.storeFailed (h : Agreeing r s) (hpc : s.pc th = .storing t ∨ s.pc th = .writing t)
    {file : File} (hfile : file = s.file ∨ ∃ err, topology r file = .error err) :
    Agreeing r ({ s with file := file }.storeFailed r th) := by
  cases th with
  | run => exact agreeing_down file
  | handler d =>
    rcases hpc with hpc | hpc
    all_goals
      refine h.next hpc rfl rfl rfl fun hup => ?_
      obtain ⟨t, ht⟩ := (h.of_busy hpc rfl).2 hup
      exact ⟨t, ht.of_file rfl rfl hfile⟩

theorem loaded_nil {store : Peerstore Store} {peerstore : Store}
    (h : ∀ id, id ∉ store.peers peerstore) : Loaded store peerstore [] where
  listed id := by simp [h id]
  addrs id addr := by
    have hnone : addr ∉ store.addrs peerstore id := fun haddr => h id (store.mem_peers_of_mem_addrs haddr)
    simp [hnone]

theorem Loaded.add {store : Peerstore Store} {peerstore : Store} {peers : List AddrInfo}
    {p : AddrInfo} {addr : String} (h : Loaded store peerstore peers)
    (haddr : p.addrs.head? = some addr) :
    Loaded store (store.addAddr peerstore p.id addr) (peers ++ [p]) where
  listed id := by
    rw [store.mem_peers_addAddr, h.listed]
    simp only [List.mem_append, List.mem_singleton, or_and_right, exists_or, exists_eq_left]
    exact or_congr_right eq_comm
  addrs id addr' := by
    rw [store.mem_addrs_addAddr, h.addrs]
    simp only [List.mem_append, List.mem_singleton, or_and_right, exists_or, exists_eq_left, haddr,
      Option.some.injEq]
    exact or_congr_right (and_congr eq_comm eq_comm)

theorem Agreeing.executed {d : UInt8} (h : Agreeing r s) (hpc : s.pc (.handler d) = .resharing t) :
    Agreeing r (s.goto (.handler d) .idle) where
  handlers_down hdown d' := by
    by_cases hd : d' = d
    · rw [hd, goto_pc_self]
    · rw [goto_pc_of_ne (by simp [hd])]
      exact h.handlers_down hdown d'
  run_up hup := by
    rw [goto_pc_of_ne (by simp)]
    exact h.run_up hup
  active := by
    obtain ⟨th, hothers, hconsistent⟩ := h.active
    refine ⟨th, fun th' hne => ?_, ?_⟩
    · by_cases hth : th' = .handler d
      · rw [hth, goto_pc_self]
        rfl
      · rw [goto_pc_of_ne hth]
        exact hothers th' hne
    · have hsame : Consistent r (s.goto (.handler d) .idle) (s.pc th) := by
        cases hth : s.pc th <;> rw [hth] at hconsistent
        case idle | resharing | storing | writing =>
          intro hup
          obtain ⟨t, ht⟩ := hconsistent hup
          exact ⟨t, ht.of_file rfl rfl (Or.inl rfl)⟩
        all_goals exact hconsistent
      by_cases hth : th = .handler d
      · rw [hth, hpc] at hsame
        rw [hth, goto_pc_self]
        exact hsame
      · rwa [goto_pc_of_ne hth]

theorem Agreeing.move (h : Agreeing r s) (hapart : Apart r s e) (hstep : step r s e = some s') :
    Agreeing r s' := by
  cases step_move hstep with
  | stays => exact h
  | dies => exact agreeing_down s.file
  | found hup hpc hread =>
    refine h.goto rfl (fun th' hne => ?_) (fun hdown => ⟨hdown, rfl⟩)
      (fun hup' => nomatch hup.symm.trans hup') hread
    cases th' with
    | run => exact absurd rfl hne
    | handler d => rw [h.handlers_down hup d]; rfl
  | fetched hup hpc hread hfetch =>
    refine h.goto rfl (fun th' hne => ?_) (fun hdown => ⟨hdown, rfl⟩)
      (fun hup' => nomatch hup.symm.trans hup') fun hup' => nomatch hup.symm.trans hup'
    cases th' with
    | run => exact absurd rfl hne
    | handler d => rw [h.handlers_down hup d]; rfl
  | refreshed hup hpc hlast hne hfetch =>
    have hidle := hapart ⟨_, refreshedTopology_of_fetched hlast hne hfetch⟩
    refine h.goto rfl (fun th' _ => hidle th') (fun hdown => nomatch hup.symm.trans hdown)
      (fun _ => Or.inl ⟨hup, by simp⟩) fun _ => ?_
    obtain ⟨t, ht⟩ := h.settled hup hidle
    exact ⟨t, ht.of_file rfl rfl (Or.inl rfl)⟩
  | unopened hpc hmu => exact h.storeFailed (Or.inl hpc) (Or.inl rfl)
  | opened hpc hmu =>
    refine h.next hpc rfl rfl rfl fun hup => ?_
    obtain ⟨t, ht⟩ := (h.of_busy hpc rfl).2 hup
    exact ⟨t, ht.of_file rfl rfl (Or.inr (topology_empty r))⟩
  | unmarshalled hpc => exact h.storeFailed (Or.inr hpc) (Or.inl rfl)
  | cut hpc hfront => exact h.storeFailed (Or.inr hpc) (Or.inr hfront)
  | written hpc hkb => exact h.next hpc rfl rfl rfl hkb
  | sets hpc =>
    exact h.next hpc rfl rfl rfl ⟨(h.of_busy hpc rfl).2, rfl⟩
  | lists hpc =>
    obtain ⟨hread, hgate⟩ := (h.of_busy hpc rfl).2
    exact h.next hpc rfl rfl rfl ⟨hread, hgate, fun id hid => hid⟩
  | clears hpc =>
    obtain ⟨hread, hgate, hids⟩ := (h.of_busy hpc rfl).2
    refine h.next hpc rfl rfl rfl ⟨hread, hgate, fun id hid => ?_⟩
    obtain ⟨hmem, hne⟩ := r.store.mem_peers_removePeer.1 hid
    exact (List.mem_cons.1 (hids id hmem)).resolve_left hne
  | cleared hpc =>
    obtain ⟨hread, hgate, hids⟩ := (h.of_busy hpc rfl).2
    have hnone : ∀ id, id ∉ r.store.peers s.peerstore :=
      fun id hid => absurd (hids id hid) List.not_mem_nil
    exact h.next hpc rfl rfl rfl ⟨hread, hgate, [], rfl, loaded_nil hnone⟩
  | @adds th t p addr peers hpc haddr =>
    obtain ⟨hread, hgate, added, hpeers, hloaded⟩ := (h.of_busy hpc rfl).2
    exact h.next hpc rfl rfl rfl ⟨hread, hgate, added ++ [p], by simp [hpeers], hloaded.add haddr⟩
  | @loaded th t hpc =>
    obtain ⟨hothers, hread, hgate, added, hpeers, hloaded⟩ := h.of_busy hpc rfl
    have hsettled : Settled r s t := by
      refine ⟨hgate, ?_, fun t' ht' => ?_⟩
      · rwa [hpeers, List.append_nil]
      · exact (Except.ok.inj (hread.symm.trans ht')).symm
    cases th with
    | run =>
      refine h.goto rfl hothers (fun hdown => nomatch hdown) (fun _ => Or.inr ⟨rfl, rfl⟩) fun _ => ?_
      exact ⟨t, hsettled.of_file rfl rfl (Or.inl rfl)⟩
    | handler d =>
      refine h.next hpc rfl rfl rfl fun _ => ?_
      exact ⟨t, hsettled.of_file rfl rfl (Or.inl rfl)⟩
  | executed hpc => exact h.executed hpc

end Sygma.Topology
