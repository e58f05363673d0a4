import SygmaRelayer.Proofs.SigningQuorum
import SygmaRelayer.Spec.AllReady

/-! Keygen and resharing start when as many peers are ready as the peerstore lists. These are
the listed peers if every peer that was counted is listed then, and they are those the start
message goes to if none is loaded before it; a ready message of a peer that is connected but no
longer listed takes the place of one that is missing. -/

namespace Sygma.AllReady

open Runs TssPeers

variable {Bytes Store : Type} {c : Call Bytes} {store : Peerstore Store} {s s' : State Bytes Store}
  {e : Event}

def readySenders (es : List Event) : List PeerID :=
  es.filterMap fun
    | .ready sender => some sender
    | _ => none

/-- The transitions of `step`, one constructor for each outcome. -/
inductive Step (c : Call Bytes) (store : Peerstore Store) (s : State Bytes Store) :
    Event → State Bytes Store → Prop
  | collect {rs p} (hpc : s.pc = .listening rs)
    (hready : ready c (addReadyPeer c rs p) (store.peers s.peerstore) = .ok false) :
    Step c store s (.ready p) { s with pc := .listening (addReadyPeer c rs p) }
  | fail {rs p err} (hpc : s.pc = .listening rs)
    (hready : ready c (addReadyPeer c rs p) (store.peers s.peerstore) = .error err) :
    Step c store s (.ready p) { s with pc := .failed err }
  | ready {rs p} (hpc : s.pc = .listening rs)
    (hready : ready c (addReadyPeer c rs p) (store.peers s.peerstore) = .ok true) :
    Step c store s (.ready p) { s with pc := .ready }
  | tick {rs} (hpc : s.pc = .listening rs) :
    Step c store s .tick
      { s with actions := s.actions ++ [.broadcastInitiate (store.peers s.peerstore)] }
  | done {rs} (hpc : s.pc = .listening rs) : Step c store s .done { s with pc := .left }
  | startParams (hpc : s.pc = .ready) :
    Step c store s .startParams
      { s with pc := .params (startParams c (store.peers s.peerstore)) }
  | start {params} (hpc : s.pc = .params params) :
    Step c store s .start { s with
      pc := .left
      actions := s.actions ++ .broadcastStart (store.peers s.peerstore) params ::
        (List.range c.processes).map fun i => .run i params }
  | peers {op} : Step c store s (.peers op) { s with peerstore := store.apply s.peerstore op }

theorem step_cases (h : step c store s e = some s') : Step c store s e s' := by
  cases e with
  | ready p =>
    simp only [step] at h
    split at h
    · rename_i rs hpc
      split at h
      · rename_i hready
        cases h
        exact .fail hpc hready
      · rename_i hready
        cases h
        exact .collect hpc hready
      · rename_i hready
        cases h
        exact .ready hpc hready
    · cases h
  | tick =>
    simp only [step] at h
    split at h
    · rename_i rs hpc
      cases h
      exact .tick hpc
    · cases h
  | done =>
    simp only [step] at h
    split at h
    · rename_i rs hpc
      cases h
      exact .done hpc
    · cases h
  | startParams =>
    simp only [step] at h
    split at h
    · rename_i hpc
      cases h
      exact .startParams hpc
    · cases h
  | start =>
    simp only [step] at h
    split at h
    · rename_i params hpc
      cases h
      exact .start hpc
    · cases h
  | peers op =>
    cases h
    exact .peers

theorem length_of_keygenReady {rs excluded peerstore : List PeerID}
    (h : keygenReady rs excluded peerstore = .ok true) : rs.length = peerstore.length := by
  unfold keygenReady at h
  split_ifs at h
  simpa using h

theorem length_of_resharingReady {rs excluded peerstore : List PeerID}
    (h : resharingReady rs excluded peerstore = .ok true) : rs.length = peerstore.length := by
  simpa [resharingReady] using h

theorem length_of_ready {rs peerstore : List PeerID} (h : ready c rs peerstore = .ok true) :
    rs.length = peerstore.length := by
  unfold ready at h
  cases hprocess : c.process with
  | ecdsaKeygen | frostKeygen =>
    rw [hprocess] at h
    exact length_of_keygenReady h
  | ecdsaResharing | frostResharing =>
    rw [hprocess] at h
    exact length_of_resharingReady h

/-- The ready peers the loop has collected. -/
structure Collected (c : Call Bytes) (es : List Event) (rs : List PeerID) : Prop where
  nodup : rs.Nodup
  mem_iff : ∀ p, p ∈ rs ↔ p = c.host ∨ p ∈ readySenders es ∧ p ∉ c.excludedPeers

theorem Collected.addReadyPeer {es : List Event} {rs : List PeerID} (h : Collected c es rs)
    (p : PeerID) : Collected c (es ++ [.ready p]) (addReadyPeer c rs p) where
  nodup := Initiate.nodup_collect h.nodup
  mem_iff q := by
    have hsenders : readySenders (es ++ [.ready p]) = readySenders es ++ [p] := by
      simp [readySenders]
    rw [hsenders]
    exact Initiate.mem_collect h.mem_iff q

/-- Whether `Ready` has returned true and the start message is still to be broadcast. -/
def Pc.starting : Pc Bytes → Prop
  | .ready | .params _ => True
  | .listening _ | .left | .failed _ => False

/-- The run has come to where `Ready` returned true, having read a peerstore that listed `listed`: as
many peers as were collected. -/
def ReadyAt (c : Call Bytes) (store : Peerstore Store) (peerstore : Store) (es : List Event)
    (listed : List PeerID) : Prop :=
  ∃ before p after s, es = before ++ .ready p :: after ∧
    exec (step c store) (init c store peerstore) (before ++ [.ready p]) = some s ∧ s.pc = .ready ∧
    listed = store.peers s.peerstore ∧ ∃ rs, Collected c es rs ∧ rs.length = listed.length

structure Inv (c : Call Bytes) (store : Peerstore Store) (peerstore : Store) (es : List Event)
    (s : State Bytes Store) : Prop where
  run : exec (step c store) (init c store peerstore) es = some s
  collected : ∀ rs, s.pc = .listening rs → Collected c es rs
  idle : ∀ rs, s.pc = .listening rs → ∀ peers params, .broadcastStart peers params ∉ s.actions
  starting : s.pc.starting → ∃ listed, ReadyAt c store peerstore es listed
  started : ∀ peers params, .broadcastStart peers params ∈ s.actions →
    peers.Nodup ∧ ∃ listed, ReadyAt c store peerstore es listed

theorem inv_init (peerstore : Store) : Inv c store peerstore [] (init c store peerstore) where
  run := rfl
  collected rs hpc := by
    cases hpc
    exact ⟨List.nodup_singleton _, by simp [readySenders]⟩
  idle rs _ peers params h := by simp [init] at h
  starting h := h.elim
  started peers params h := by simp [init] at h

theorem Collected.other {es : List Event} {rs : List PeerID} (h : Collected c es rs)
    (he : readySenders [e] = []) : Collected c (es ++ [e]) rs where
  nodup := h.nodup
  mem_iff := by
    have hsenders : readySenders (es ++ [e]) = readySenders es := by
      rw [readySenders, List.filterMap_append]
      change readySenders es ++ readySenders [e] = _
      rw [he, List.append_nil]
    rw [hsenders]
    exact h.mem_iff

theorem ReadyAt.other {peerstore : Store} {es : List Event} {listed : List PeerID}
    (h : ReadyAt c store peerstore es listed) (he : readySenders [e] = []) :
    ReadyAt c store peerstore (es ++ [e]) listed := by
  obtain ⟨before, p, after, s, rfl, hrun, hpc, hlisted, rs, hrs, hlen⟩ := h
  exact ⟨before, p, after ++ [e], s, by simp, hrun, hpc, hlisted, rs, hrs.other he, hlen⟩

theorem exec_snoc {peerstore : Store} {es : List Event}
    (h : exec (step c store) (init c store peerstore) es = some s)
    (hs : step c store s e = some s') :
    exec (step c store) (init c store peerstore) (es ++ [e]) = some s' :=
  exec_append h (exec_cons.2 ⟨s', hs, rfl⟩)

theorem Inv.other {peerstore : Store} {es : List Event} (h : Inv c store peerstore es s)
    (hs : step c store s e = some s') (he : readySenders [e] = [])
    (hlistening : ∀ rs, s'.pc = .listening rs → s.pc = .listening rs)
    (hidle : ∀ rs, s'.pc = .listening rs → ∀ peers params,
      .broadcastStart peers params ∈ s'.actions → .broadcastStart peers params ∈ s.actions)
    (hstarting : s'.pc.starting → s.pc.starting)
    (hactions : ∀ peers params, .broadcastStart peers params ∈ s'.actions →
      .broadcastStart peers params ∈ s.actions ∨ peers.Nodup ∧ s.pc.starting) :
    Inv c store peerstore (es ++ [e]) s' where
  run := exec_snoc h.run hs
  collected rs hrs := (h.collected rs (hlistening rs hrs)).other he
  idle rs hrs peers params hmem :=
    h.idle rs (hlistening rs hrs) peers params (hidle rs hrs peers params hmem)
  starting hpc := by
    obtain ⟨listed, hlisted⟩ := h.starting (hstarting hpc)
    exact ⟨listed, hlisted.other he⟩
  started peers params hmem := by
    obtain ⟨hnodup, listed, hlisted⟩ : peers.Nodup ∧
        ∃ listed, ReadyAt c store peerstore es listed := by
      rcases hactions peers params hmem with hold | ⟨hnodup, hpc⟩
      · exact h.started peers params hold
      · exact ⟨hnodup, h.starting hpc⟩
    exact ⟨hnodup, listed, hlisted.other he⟩

theorem inv_step {peerstore : Store} {es : List Event} (h : Inv c store peerstore es s)
    (hs : step c store s e = some s') : Inv c store peerstore (es ++ [e]) s' := by
  cases step_cases hs with
  | @collect rs p hpc hready =>
    have hidle := h.idle rs hpc
    refine ⟨exec_snoc h.run hs, ?_, fun _ _ => hidle, fun hstarting => hstarting.elim,
      fun peers params hmem => absurd hmem (hidle peers params)⟩
    intro rs' hrs'
    cases hrs'
    exact (h.collected rs hpc).addReadyPeer p
  | @fail rs p err hpc =>
    have hidle := h.idle rs hpc
    exact ⟨exec_snoc h.run hs, fun _ hrs => (nomatch hrs), fun _ hrs => (nomatch hrs),
      fun hstarting => hstarting.elim, fun peers params hmem => absurd hmem (hidle peers params)⟩
  | @ready rs p hpc hready =>
    have hidle := h.idle rs hpc
    have hrun := exec_snoc h.run hs
    refine ⟨hrun, fun _ hrs => (nomatch hrs), fun _ hrs => (nomatch hrs), fun _ => ?_,
      fun peers params hmem => absurd hmem (hidle peers params)⟩
    exact ⟨_, es, p, [], _, rfl, hrun, rfl, rfl, _, (h.collected rs hpc).addReadyPeer p,
      length_of_ready hready⟩
  | tick hpc =>
    have hold : ∀ peers params, .broadcastStart peers params ∈
        s.actions ++ [.broadcastInitiate (store.peers s.peerstore)] →
        .broadcastStart peers params ∈ s.actions := by simp
    exact h.other hs rfl (fun _ hrs => hrs) (fun _ _ => hold) id
      fun peers params hmem => .inl (hold peers params hmem)
  | done hpc =>
    exact h.other hs rfl (fun _ hrs => nomatch hrs) (fun _ hrs => nomatch hrs)
      (fun hstarting => hstarting.elim) fun _ _ hmem => .inl hmem
  | startParams hpc =>
    have hstarting : s.pc.starting := by rw [hpc]; trivial
    exact h.other hs rfl (fun _ hrs => nomatch hrs) (fun _ hrs => nomatch hrs)
      (fun _ => hstarting) fun _ _ hmem => .inl hmem
  | @start params hpc =>
    have hstarting : s.pc.starting := by rw [hpc]; trivial
    refine h.other hs rfl (fun _ hrs => nomatch hrs) (fun _ hrs => nomatch hrs)
      (fun hleft => hleft.elim) fun peers params' hmem => ?_
    rcases List.mem_append.1 hmem with hold | hnew
    · exact .inl hold
    · simp only [List.mem_cons, Action.broadcastStart.injEq, List.mem_map, reduceCtorEq,
        and_false, exists_false, or_false] at hnew
      rw [hnew.1]
      exact .inr ⟨store.nodup_peers _, hstarting⟩
  | peers =>
    exact h.other hs rfl (fun _ hrs => hrs) (fun _ _ _ _ hmem => hmem) id
      fun _ _ hmem => .inl hmem

/-- Every listed peer is the host or has sent a ready message. -/
def EveryoneReady (c : Call Bytes) (es : List Event) (peers : List PeerID) : Prop :=
  ∀ p ∈ peers, p = c.host ∨ p ∈ readySenders es

/-- The host and every peer whose ready message was counted are listed. -/
def OnlyListed (c : Call Bytes) (es : List Event) (peers : List PeerID) : Prop :=
  ∀ p, p = c.host ∨ p ∈ readySenders es ∧ p ∉ c.excludedPeers → p ∈ peers

/-- If the start message is broadcast to `peers`, `Ready` has returned true before, on a peerstore that
listed `listed`. Everyone is ready if only listed peers were counted then and none was loaded
since; and if no peers were excluded and none was removed since, only then. -/
theorem start_everyoneReady {es : List Event} {peers : List PeerID} {params : Bytes}
    (peerstore : Store) (hrun : exec (step c store) (init c store peerstore) es = some s)
    (hstart : .broadcastStart peers params ∈ s.actions) :
    ∃ before p after s', es = before ++ .ready p :: after ∧
      exec (step c store) (init c store peerstore) (before ++ [.ready p]) = some s' ∧
      s'.pc = .ready ∧ ∀ listed, listed = store.peers s'.peerstore →
      (OnlyListed c es listed → peers ⊆ listed → EveryoneReady c es peers) ∧
      (c.excludedPeers = [] → listed ⊆ peers →
        (EveryoneReady c es peers ↔ OnlyListed c es listed ∧ peers ⊆ listed)) := by
  have hinv : Inv c store peerstore es s :=
    exec_history (fun _ _ _ _ h _ hs => inv_step h hs) (inv_init peerstore) along_true hrun
  obtain ⟨hnodup, listed, before, p, after, s', hes, hready, hpc, hlisted, rs, hrs, hlen⟩ :=
    hinv.started peers params hstart
  refine ⟨before, p, after, s', hes, hready, hpc, ?_⟩
  rintro _ rfl
  rw [← hlisted]
  have hlistedNodup : listed.Nodup := hlisted ▸ store.nodup_peers _
  -- of two lists of the same length without duplicates, one contains the other if they agree
  have hevery : OnlyListed c es listed → peers ⊆ listed → EveryoneReady c es peers := by
    intro honly hsince q hq
    have hsub : rs ⊆ listed := fun q hq => honly q ((hrs.mem_iff q).1 hq)
    have hperm := (List.subperm_of_subset hrs.nodup hsub).perm_of_length_le hlen.ge
    exact ((hrs.mem_iff q).1 (hperm.mem_iff.2 (hsince hq))).imp_right And.left
  refine ⟨hevery, fun hexcluded hkept => ⟨fun hall => ?_, fun h => hevery h.1 h.2⟩⟩
  have hpeers : peers ⊆ rs := by
    intro q hq
    rw [hrs.mem_iff, hexcluded]
    simpa using hall q hq
  have hperm := (List.subperm_of_subset hlistedNodup fun q hq => hpeers (hkept hq)).perm_of_length_le
    hlen.le
  exact ⟨fun q hq => hperm.mem_iff.2 ((hrs.mem_iff q).2 hq),
    fun q hq => hperm.mem_iff.2 (hpeers hq)⟩

/-- A keygen of the host `a`. -/
def sampleCall : Call (List UInt8) where
  process := .ecdsaKeygen
  host := "a"
  excludedPeers := []
  processes := 1
  marshalStartParams _ _ := []
  empty := []

/-- Peers with an address each. -/
def storeOf (peers : List PeerID) : List (PeerID × String) := peers.map fun p => (p, "/dns4/" ++ p)

def sampleEvents : List Event := [.ready "b", .tick, .ready "c", .startParams, .start]

theorem start_everyoneReady_sample :
    ∃ s, exec (step sampleCall listPeerstore)
        (init sampleCall listPeerstore (storeOf ["a", "b", "c"])) sampleEvents = some s ∧
      .broadcastStart ["a", "b", "c"] [] ∈ s.actions ∧
      EveryoneReady sampleCall sampleEvents ["a", "b", "c"] := by
  have hrun : exec (step sampleCall listPeerstore)
      (init sampleCall listPeerstore (storeOf ["a", "b", "c"])) sampleEvents = some _ := rfl
  refine ⟨_, hrun, by decide, ?_⟩
  obtain ⟨before, p, after, s', hes, hready, -, hiff⟩ := @start_everyoneReady _ _ sampleCall
    listPeerstore _ sampleEvents ["a", "b", "c"] [] _ hrun (by decide)
  -- no peer is loaded in this run
  have hlisted : ["a", "b", "c"] = listPeerstore.peers s'.peerstore := by
    match before with
    | [] | [_, _] =>
      cases hes
      cases hready
      rfl
    | [_] | [_, _, _] | [_, _, _, _] => cases hes
    | _ :: _ :: _ :: _ :: _ :: before => simp [sampleEvents] at hes
  refine (hiff _ hlisted).1 (fun q hq => ?_) (List.Subset.refl _)
  have hmem : q = "a" ∨ q = "b" ∨ q = "c" := by simpa [sampleCall, readySenders, sampleEvents] using hq
  simpa using hmem

/-- `x` is ready when a new topology replaces it with `c`; its connection stays, and the keygen
starts without `c`. It does so too if all of the old topology are ready, and `c` is loaded between
`Ready` and the broadcast. -/
theorem start_without_listed_peer :
    (∃ s, exec (step sampleCall listPeerstore)
        (init sampleCall listPeerstore (storeOf ["a", "b", "x"]))
        [.ready "x", .peers (.remove "x"), .peers (.add "c" "/dns4/c"), .ready "b", .startParams,
          .start] = some s ∧
      .broadcastStart ["a", "b", "c"] [] ∈ s.actions ∧
      ¬ EveryoneReady sampleCall
        [.ready "x", .peers (.remove "x"), .peers (.add "c" "/dns4/c"), .ready "b", .startParams,
          .start] ["a", "b", "c"]) ∧
    ∃ s, exec (step sampleCall listPeerstore) (init sampleCall listPeerstore (storeOf ["a", "b"]))
        [.ready "b", .peers (.add "c" "/dns4/c"), .startParams, .start] = some s ∧
      .broadcastStart ["a", "b", "c"] [] ∈ s.actions ∧
      ¬ EveryoneReady sampleCall
        [.ready "b", .peers (.add "c" "/dns4/c"), .startParams, .start] ["a", "b", "c"] := by
  refine ⟨⟨_, rfl, by decide, ?_⟩, ⟨_, rfl, by decide, ?_⟩⟩ <;>
  · intro hevery
    have hc := hevery "c" (by decide)
    simp [sampleCall, readySenders] at hc

end Sygma.AllReady
