import SygmaRelayer.Lib.Runs
import SygmaRelayer.Proofs.FrostRoundTrip
import SygmaRelayer.Proofs.TopologyFetch

/-! What the steps of a relayer do to its topology, and when it comes up at all: a topology file
with a peer that has no address stops every start in `LoadPeers`. -/

namespace Sygma.Topology

open Runs
open JsonWriter
open KeyshareStore (File Json Table)

variable {Store : Type} {r : Relayer Store} {s s' : State Store} {file : File}

/-- The moves of a relayer. -/
inductive Move (r : Relayer Store) (s : State Store) : Event → State Store → Prop
  | stays {d refreshEvents response} : Move r s (.handleEvents d refreshEvents response) s
  /-- the process ends, by itself or in a panic -/
  | dies {e} : Move r s e (down r s.file)
  | found {response t} (hup : s.up = false) (hpc : s.pc .run = .idle)
      (hread : topology r s.file = .ok (some t)) :
      Move r s (.start response) (s.goto .run (.stored t))
  | fetched {response t err} (hup : s.up = false) (hpc : s.pc .run = .idle)
      (hread : topology r s.file = .error err)
      (hfetch : networkTopology r.toProvider "" response = .ok t) :
      Move r s (.start response) (s.goto .run (.storing t))
  | refreshed {d hashes hash response t} (hup : s.up = true) (hpc : s.pc (.handler d) = .idle)
      (hlast : hashes.getLast? = some hash) (hne : hash ≠ "")
      (hfetch : networkTopology r.toProvider hash response = .ok t) :
      Move r s (.handleEvents d (.ok hashes) response) (s.goto (.handler d) (.storing t))
  | unopened {th t err} (hpc : s.pc th = .storing t) (hmu : s.mu = none) :
      Move r s (.openFile th (some err)) (s.storeFailed r th)
  | opened {th t} (hpc : s.pc th = .storing t) (hmu : s.mu = none) :
      Move r s (.openFile th none)
        ({ s with file := .ok [], mu := some th }.goto th (.writing t))
  | unmarshalled {th t n} (hpc : s.pc th = .writing t) :
      Move r s (.write th n) (s.storeFailed r th)
  | cut {th t n front} (hpc : s.pc th = .writing t)
      (hfront : ∃ err, r.json.unmarshal front = .error err) :
      Move r s (.write th n) ({ s with file := .ok front }.storeFailed r th)
  | written {th t n kb} (hpc : s.pc th = .writing t) (hkb : r.json.unmarshal kb = .ok (some t)) :
      Move r s (.write th n) ({ s with file := .ok kb, mu := none }.goto th (.stored t))
  | sets {th t} (hpc : s.pc th = .stored t) :
      Move r s (.advance th) ({ s with gate := some t }.goto th (.loading t))
  | lists {th t} (hpc : s.pc th = .loading t) :
      Move r s (.advance th) (s.goto th (.clearing t (r.store.peers s.peerstore)))
  | clears {th t id peers} (hpc : s.pc th = .clearing t (id :: peers)) :
      Move r s (.advance th)
        ({ s with peerstore := r.store.removePeer s.peerstore id }.goto th (.clearing t peers))
  | cleared {th t} (hpc : s.pc th = .clearing t []) :
      Move r s (.advance th) (s.goto th (.adding t t.peers))
  | adds {th t p addr peers} (hpc : s.pc th = .adding t (p :: peers))
      (haddr : p.addrs.head? = some addr) :
      Move r s (.advance th)
        ({ s with peerstore := r.store.addAddr s.peerstore p.id addr }.goto th (.adding t peers))
  | loaded {th t} (hpc : s.pc th = .adding t []) : Move r s (.advance th) (s.loaded t th)
  | executed {d t} (hpc : s.pc (.handler d) = .resharing t) :
      Move r s (.executed d) (s.goto (.handler d) .idle)

theorem refreshedTopology_eq_some {refreshEvents : Except String (List String)}
    {response : Except String (List UInt8)} {t : NetworkTopology}
    (h : refreshedTopology r refreshEvents response = .ok (some t)) :
    ∃ hashes hash, refreshEvents = .ok hashes ∧ hashes.getLast? = some hash ∧ hash ≠ "" ∧
      networkTopology r.toProvider hash response = .ok t := by
  unfold refreshedTopology at h
  split at h
  · cases h
  · rename_i hashes
    split at h
    · cases h
    · rename_i hash hlast
      by_cases hne : hash = ""
      · simp [hne] at h
      · rw [if_neg hne] at h
        split at h
        · rename_i t' hfetch
          obtain rfl : t' = t := by simpa using h
          exact ⟨hashes, hash, rfl, hlast, hne, hfetch⟩
        · cases h
        · cases h

theorem refreshedTopology_of_fetched {hashes : List String} {hash : String}
    {response : Except String (List UInt8)} {t : NetworkTopology}
    (hlast : hashes.getLast? = some hash) (hne : hash ≠ "")
    (hfetch : networkTopology r.toProvider hash response = .ok t) :
    refreshedTopology r (.ok hashes) response = .ok (some t) := by
  simp [refreshedTopology, hlast, hne, hfetch]

theorem start_move {response : Except String (List UInt8)} (hup : s.up = false)
    (hpc : s.pc .run = .idle) : Move r s (.start response) (s.start r response) := by
  unfold State.start
  split
  · rename_i t hread
    exact .found hup hpc hread
  · exact .dies
  · rename_i err hread
    split
    · rename_i t hfetch
      exact .fetched hup hpc hread hfetch
    · exact .dies

theorem write_move {th : Thread} {t : NetworkTopology} {n : ℕ} (hpc : s.pc th = .writing t)
    (h : s.write r th t n = some s') : Move r s (.write th n) s' := by
  unfold State.write at h
  split at h
  · obtain rfl := Option.some.inj h
    exact .unmarshalled hpc
  · rename_i kb hkb
    split_ifs at h with hn hlt
    · obtain rfl := Option.some.inj h
      exact .written hpc (r.roundTrip hkb)
    · obtain rfl := Option.some.inj h
      refine .cut hpc (r.json.truncated hkb (List.take_prefix n kb) fun heq => ?_)
      have hlength := congrArg List.length heq
      rw [List.length_take] at hlength
      omega

theorem advance_move {th : Thread} (h : s.advance r th = some s') : Move r s (.advance th) s' := by
  unfold State.advance at h
  split at h <;> rename_i hpc
  · obtain rfl := Option.some.inj h
    exact .sets hpc
  · obtain rfl := Option.some.inj h
    exact .lists hpc
  · obtain rfl := Option.some.inj h
    exact .clears hpc
  · obtain rfl := Option.some.inj h
    exact .cleared hpc
  · split at h <;> rename_i haddrs
    · obtain rfl := Option.some.inj h
      exact .dies
    · obtain rfl := Option.some.inj h
      exact .adds hpc (by rw [haddrs]; rfl)
  · obtain rfl := Option.some.inj h
    exact .loaded hpc
  · cases h

theorem step_move {e : Event} (h : step r s e = some s') : Move r s e s' := by
  cases e with
  | start response =>
    simp only [step] at h
    split_ifs at h with hdown
    obtain rfl := Option.some.inj h
    exact start_move hdown.1 hdown.2
  | handleEvents d refreshEvents response =>
    simp only [step] at h
    split_ifs at h with hidle
    split at h
    · rename_i t hrefresh
      obtain rfl := Option.some.inj h
      obtain ⟨hashes, hash, rfl, hlast, hne, hfetch⟩ := refreshedTopology_eq_some hrefresh
      exact .refreshed hidle.1 hidle.2 hlast hne hfetch
    · obtain rfl := Option.some.inj h
      exact .stays
    · obtain rfl := Option.some.inj h
      exact .stays
    · obtain rfl := Option.some.inj h
      exact .dies
  | openFile th err =>
    simp only [step] at h
    split at h
    · rename_i t hpc hmu
      cases err with
      | some err =>
        obtain rfl := Option.some.inj h
        exact .unopened hpc hmu
      | none =>
        obtain rfl := Option.some.inj h
        exact .opened hpc hmu
    · cases h
  | write th n =>
    simp only [step] at h
    split at h
    · rename_i t hpc
      exact write_move hpc h
    · cases h
  | advance th => exact advance_move h
  | executed d =>
    simp only [step] at h
    split at h
    · rename_i t hpc
      obtain rfl := Option.some.inj h
      exact .executed hpc
    · cases h
  | crash =>
    obtain rfl := Option.some.inj h
    exact .dies

/-! ### Coming up -/

/-- A thread that has stored a topology with such a peer has still to add one. -/
def Pc.Stuck (t : NetworkTopology) : Pc → Prop
  | .idle => True
  | .stored t' | .loading t' | .clearing t' _ => t' = t
  | .adding t' peers => t' = t ∧ ∃ p ∈ peers, p.addrs = []
  | _ => False

/-- The relayer is not up, and cannot get there with its file. -/
structure Stopped (file : File) (t : NetworkTopology) (s : State Store) : Prop where
  file_eq : s.file = file
  not_up : s.up = false
  handlers : ∀ d, s.pc (.handler d) = .idle
  run : (s.pc .run).Stuck t

theorem stopped_down (r : Relayer Store) (file : File) (t : NetworkTopology) :
    Stopped file t (down r file) :=
  ⟨rfl, rfl, fun _ => rfl, trivial⟩

@[simp] theorem goto_pc_self (s : State Store) (th : Thread) (pc : Pc) : (s.goto th pc).pc th = pc := by
  simp [State.goto]

theorem goto_pc_of_ne {th th' : Thread} (h : th' ≠ th) (s : State Store) (pc : Pc) :
    (s.goto th pc).pc th' = s.pc th' := by
  simp [State.goto, h]

theorem Stopped.run_to {t : NetworkTopology} {pc : Pc} (h : Stopped file t s)
    (hfile : s'.file = s.file) (hup : s'.up = s.up) (hpc : s'.pc = (s.goto .run pc).pc)
    (hstuck : pc.Stuck t) : Stopped file t s' := by
  refine ⟨hfile.trans h.file_eq, hup.trans h.not_up, fun d => ?_, ?_⟩
  · rw [hpc, goto_pc_of_ne (by simp), h.handlers d]
  · rwa [hpc, goto_pc_self]

theorem Stopped.eq_run {t : NetworkTopology} (h : Stopped file t s) {th : Thread}
    (hth : s.pc th ≠ .idle) : th = .run := by
  cases th with
  | run => rfl
  | handler d => exact absurd (h.handlers d) hth

theorem Stopped.move {t : NetworkTopology} {e : Event} (hread : topology r file = .ok (some t))
    (hbare : ∃ p ∈ t.peers, p.addrs = []) (h : Stopped file t s) (hm : Move r s e s') :
    Stopped file t s' := by
  have hrun := h.run
  cases hm with
  | stays => exact h
  | dies =>
    rw [h.file_eq]
    exact stopped_down r file t
  | found hup hpc hread' =>
    rw [h.file_eq, hread] at hread'
    obtain rfl : t = _ := by simpa using hread'
    exact h.run_to rfl rfl rfl rfl
  | fetched hup hpc hread' hfetch =>
    rw [h.file_eq, hread] at hread'
    cases hread'
  | refreshed hup => simp [h.not_up] at hup
  | executed hpc => simp [h.handlers] at hpc
  | unopened hpc hmu | opened hpc hmu | unmarshalled hpc | cut hpc hfront | written hpc hkb =>
    obtain rfl := h.eq_run (by rw [hpc]; simp)
    rw [hpc] at hrun
    exact hrun.elim
  | sets hpc =>
    obtain rfl := h.eq_run (by rw [hpc]; simp)
    rw [hpc] at hrun
    exact h.run_to rfl rfl rfl hrun
  | lists hpc =>
    obtain rfl := h.eq_run (by rw [hpc]; simp)
    rw [hpc] at hrun
    exact h.run_to rfl rfl rfl hrun
  | clears hpc =>
    obtain rfl := h.eq_run (by rw [hpc]; simp)
    rw [hpc] at hrun
    exact h.run_to rfl rfl rfl hrun
  | cleared hpc =>
    obtain rfl := h.eq_run (by rw [hpc]; simp)
    rw [hpc] at hrun
    obtain rfl : _ = t := hrun
    exact h.run_to rfl rfl rfl ⟨rfl, hbare⟩
  | adds hpc haddr =>
    obtain rfl := h.eq_run (by rw [hpc]; simp)
    rw [hpc] at hrun
    obtain ⟨ht, p, hp, hnone⟩ := hrun
    -- the peer that was added has an address, so the other one is still to come
    rcases List.mem_cons.1 hp with rfl | hp
    · simp [hnone] at haddr
    · exact h.run_to rfl rfl rfl ⟨ht, p, hp, hnone⟩
  | loaded hpc =>
    obtain rfl := h.eq_run (by rw [hpc]; simp)
    rw [hpc] at hrun
    obtain ⟨-, p, hp, -⟩ := hrun
    cases hp

/-- The second loop of `LoadPeers` ends if every peer has an address. -/
theorem exec_adding {t : NetworkTopology} {peers : List AddrInfo}
    (haddrs : ∀ p ∈ peers, p.addrs ≠ []) (hpc : s.pc .run = .adding t peers) :
    ∃ s', exec (step r) s (List.replicate (peers.length + 1) (.advance .run)) = some s' ∧
      s'.up = true := by
  induction peers generalizing s with
  | nil =>
    refine ⟨s.loaded t .run, exec_cons.2 ⟨_, ?_, rfl⟩, rfl⟩
    simp only [step, State.advance, hpc]
  | cons p peers ih =>
    obtain ⟨addr, rest, haddr⟩ := List.exists_cons_of_ne_nil (haddrs p List.mem_cons_self)
    obtain ⟨s', hs', hup⟩ := ih (fun q hq => haddrs q (List.mem_cons_of_mem p hq))
      (goto_pc_self { s with peerstore := r.store.addAddr s.peerstore p.id addr } .run (.adding t peers))
    refine ⟨s', exec_cons.2 ⟨_, ?_, hs'⟩, hup⟩
    simp only [step, State.advance, hpc, haddr]

theorem exec_clearing {t : NetworkTopology} {peers : List PeerID}
    (hpc : s.pc .run = .clearing t peers) :
    ∃ s', exec (step r) s (List.replicate (peers.length + 1) (.advance .run)) = some s' ∧
      s'.pc .run = .adding t t.peers := by
  induction peers generalizing s with
  | nil =>
    refine ⟨s.goto .run (.adding t t.peers), exec_cons.2 ⟨_, ?_, rfl⟩, goto_pc_self _ _ _⟩
    simp only [step, State.advance, hpc]
  | cons p peers ih =>
    obtain ⟨s', hs', hadding⟩ := ih (goto_pc_self
      { s with peerstore := r.store.removePeer s.peerstore p } .run (.clearing t peers))
    refine ⟨s', exec_cons.2 ⟨_, ?_, hs'⟩, hadding⟩
    simp only [step, State.advance, hpc]

theorem exec_start {t : NetworkTopology} (hread : topology r file = .ok (some t)) :
    ∃ s, exec (step r) (down r file) [.start (.ok []), .advance .run, .advance .run] = some s ∧
      s.pc .run = .clearing t (r.store.peers r.store.fresh) := by
  have hstart : step r (down r file) (.start (.ok [])) =
      some ((down r file).goto .run (.stored t)) := by
    simp [step, State.start, down, hread]
  have hload : exec (step r) ((down r file).goto .run (.stored t)) [.advance .run, .advance .run] =
      some ((({ down r file with gate := some t }.goto .run (.stored t)).goto .run (.loading t)).goto
        .run (.clearing t (r.store.peers r.store.fresh))) := rfl
  exact ⟨_, exec_cons.2 ⟨_, hstart, hload⟩, goto_pc_self _ _ _⟩

/-- A relayer whose file holds a topology can come up with it iff every peer has an address. If one
has none, nothing the servers answer and no number of starts helps. -/
theorem comes_up_iff {t : NetworkTopology} (hread : topology r file = .ok (some t)) :
    (∃ events s, exec (step r) (down r file) events = some s ∧ s.up = true) ↔
      ∀ p ∈ t.peers, p.addrs ≠ [] := by
  constructor
  · rintro ⟨events, s, hexec, hup⟩
    by_contra hbare
    push Not at hbare
    have hstopped : Stopped file t s := by
      refine exec_preserves (fun s e s' h hstep => ?_) (stopped_down r file t) hexec
      exact h.move hread hbare (step_move hstep)
    rw [hstopped.not_up] at hup
    cases hup
  · intro haddrs
    obtain ⟨s, hs, hclearing⟩ := exec_start hread
    obtain ⟨s', hs', hadding⟩ := exec_clearing (r := r) hclearing
    obtain ⟨s'', hs'', hup⟩ := exec_adding (r := r) haddrs hadding
    exact ⟨_, s'', exec_append hs (exec_append hs' hs''), hup⟩

def firstTopology : NetworkTopology := ⟨[⟨relayer1, ["/dns4/relayer1/tcp/9000"]⟩], 1⟩

/-- A peer that is given by its ID alone. -/
def bareTopology : NetworkTopology := ⟨[⟨relayer1, []⟩], 1⟩

/-- The text of a topology with a threshold of one digit. -/
def storedText (t : NetworkTopology) : List UInt8 :=
  object "Peers"
    (jsonArray (t.peers.map fun p => object "ID" (quote p.id) [("Addrs", strings p.addrs)]))
    [("Threshold", decimal (UInt8.ofInt t.threshold))]

def storedTable : Table (Option NetworkTopology) :=
  [firstTopology, secondTopology, bareTopology].map fun t => (some t, storedText t, some t)

theorem storedTable_closed : storedTable.Closed := by
  constructor <;> decide +kernel

theorem storedTable_same : ∀ e ∈ storedTable, ∀ e' ∈ storedTable, e.2.1 = e'.2.1 → e'.2.2 = e.1 := by
  decide +kernel

theorem unmarshal_storedTable {t : NetworkTopology} {text : List UInt8}
    (h : (storedTable.toJson storedTable_closed).marshal (some t) = .ok text) :
    (storedTable.toJson storedTable_closed).unmarshal text = .ok (some t) := by
  obtain ⟨t', ht', rfl⟩ := Table.unmarshal_marshal (R := fun a b => b = a) storedTable_same h
  exact ht'

/-- A relayer that fetches and stores these topologies. -/
def pairRelayer : Relayer (List (PeerID × String)) where
  toProvider := pairProvider
  store := listPeerstore
  json := storedTable.toJson storedTable_closed
  roundTrip := unmarshal_storedTable

theorem comes_up_iff_bare :
    topology pairRelayer (.ok (storedText bareTopology)) = .ok (some bareTopology) ∧
    ¬ ∃ events s, exec (step pairRelayer) (down pairRelayer (.ok (storedText bareTopology))) events =
      some s ∧ s.up = true := by
  have hread : topology pairRelayer (.ok (storedText bareTopology)) = .ok (some bareTopology) := by
    decide +kernel
  refine ⟨hread, fun hup => ?_⟩
  have haddrs := (comes_up_iff hread).1 hup
  exact haddrs _ List.mem_cons_self rfl

end Sygma.Topology
