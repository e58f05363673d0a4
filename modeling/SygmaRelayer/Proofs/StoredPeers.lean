import SygmaRelayer.Proofs.ReshareParams

/-! Does a stored share name the parties that produced it? The peerstore is read when a process
is constructed and again when it runs. The two agree if no `LoadPeers` call touches the
peerstore in between, the host is in it where FROST adds the host, and the old parties of
an ECDSA resharing are in it. -/

namespace Sygma.TssPeers

open Runs

variable {c : Config} {Store : Type} {store : Peerstore Store} {s s' : State Store}

/-- The process has listed its peers and not yet made its parties. -/
def Process.pending (p : Process) : Prop := p.pc = .constructed ∨ ∃ old, p.pc = .validated old

/-- Peers and parties are the same set. -/
def SameSet (a b : List PeerID) : Prop := ∀ p, p ∈ a ↔ p ∈ b

/-- `LoadPeers` waits for pending processes; the host of a FROST process is in its peerstore; the
start params of an ECDSA resharing, where the relayer has no share to check them against, list
peers of the peerstore without repetition. -/
def Undisturbed (c : Config) (store : Peerstore Store) (s : State Store) : Event → Prop
  | .loadStep _ => ∀ i p, s.process i = some p → ¬ p.pending
  | .new _ kind _ => kind.store = .frost → c.host ∈ store.peers s.peerstore
  | .validate i _ oldSubset => ∀ p, s.process i = some p → p.keyPeers.peers = [] →
    oldSubset.Nodup ∧ ∀ q ∈ oldSubset, q ∈ store.peers s.peerstore
  | _ => True

/-- The transitions of `step`, one constructor for each branch. -/
inductive Step (c : Config) (store : Peerstore Store) (s : State Store) :
    Event → State Store → Prop
  | loads {t listed topology} (loads : ℕ → List PeerOp) :
    Step c store s (.loadPeers t listed topology) { s with loads := loads }
  | loadStep {t} (op : PeerOp) (loads : ℕ → List PeerOp) :
    Step c store s (.loadStep t) { s with peerstore := store.apply s.peerstore op, loads := loads }
  | new {i kind} {keyPeers : PeerSet} (hkind : kind.signs = false) :
    Step c store s (.new i kind keyPeers)
      (s.setProcess i ⟨kind, store.peers s.peerstore, keyPeers, .constructed⟩)
  | validates {i oldThreshold oldSubset p} (hp : s.process i = some p) (hpc : p.pc = .constructed)
    (hok : validateStartParams c p.keyPeers.peers (store.peers s.peerstore) oldThreshold
      oldSubset = .ok ()) :
    Step c store s (.validate i oldThreshold oldSubset)
      (s.setProcess i { p with pc := .validated (c.sortIDs oldSubset) })
  | runs {i p ps} (hp : s.process i = some p)
    (hps : parties c p (store.peers s.peerstore) = some (some ps)) :
    Step c store s (.run i) (s.setProcess i { p with pc := .running ps })
  | stores {i p ps} (hp : s.process i = some p) (hpc : p.pc = .running ps) :
    Step c store s (.finish i true) { s.setProcess i { p with pc := .ended } with
      stored := s.stored ++ [⟨i, p.peers, ps⟩] }
  | ends {i e p} (hp : s.process i = some p) : Step c store s e (s.setProcess i { p with pc := .ended })

theorem step_cases {e : Event} (h : step c store s e = some s') : Step c store s e s' := by
  cases e with
  | loadPeers t listed topology =>
    simp only [step] at h
    split_ifs at h
    cases h
    exact .loads _
  | loadStep t =>
    simp only [step] at h
    split at h
    · cases h
    · cases h
      exact .loadStep _ _
  | new i kind keyPeers =>
    simp only [step] at h
    split_ifs at h with hc
    cases h
    exact .new hc.2
  | validate i oldThreshold oldSubset =>
    simp only [step] at h
    split at h
    · rename_i p hp
      split_ifs at h with hk
      split at h
      · cases h
        exact .ends hp
      · rename_i hok
        cases h
        exact .validates hp hk.2 hok
    · cases h
  | run i =>
    simp only [step] at h
    split at h
    · rename_i p hp
      split at h
      · cases h
      · cases h
        exact .ends hp
      · rename_i ps hps
        cases h
        exact .runs hp hps
    · cases h
  | finish i ok =>
    simp only [step] at h
    split at h
    · rename_i p hp
      split at h
      · rename_i ps hpc
        cases h
        cases ok with
        | true => exact .stores hp hpc
        | false => exact .ends hp
      · cases h
    · cases h
  | fail i =>
    simp only [step] at h
    split at h
    · rename_i p hp
      cases h
      exact .ends hp
    · cases h

/-- What is known of a process while the peerstore lists `peerstore`. -/
def Sound (c : Config) (peerstore : List PeerID) (p : Process) : Prop :=
  match p.pc with
  | .constructed => SameSet p.peers peerstore ∧ (p.kind.store = .frost → c.host ∈ peerstore)
  | .validated old => SameSet p.peers peerstore ∧ old.Nodup ∧ ∀ q ∈ old, q ∈ peerstore
  | .running parties => SameSet p.peers parties
  | .ended => True

structure Inv (c : Config) (store : Peerstore Store) (s : State Store) : Prop where
  process : ∀ i p, s.process i = some p → Sound c (store.peers s.peerstore) p
  stored : ∀ d ∈ s.stored, SameSet d.peers d.parties

/-- Old parties of the peerstore take exactly the places that are not left for the others. -/
theorem mem_sortParties {parties old l : List PeerID} (hold : old.Nodup)
    (hsub : ∀ q ∈ old, q ∈ parties) (h : sortParties parties old = some l) :
    SameSet parties l := by
  simp only [sortParties] at h
  split_ifs at h
  obtain rfl := Option.some.inj h
  have hlen : old.length ≤ parties.length := (List.subperm_of_subset hold hsub).length_le
  rw [List.take_of_length_le hlen]
  intro q
  rw [List.mem_append, List.mem_filter, decide_eq_true_eq]
  by_cases hq : q ∈ old
  · simp [hq, hsub q hq]
  · simp [hq]

theorem sameSet_addHost {peers peerstore : List PeerID} (h : SameSet peers peerstore)
    (hhost : c.host ∈ peerstore) : SameSet peers (partyIDsFromPeers (peerstore ++ [c.host])) := by
  intro q
  rw [h q, partyIDsFromPeers, List.mem_dedup, List.mem_append, List.mem_singleton]
  constructor
  · exact Or.inl
  · rintro (hq | rfl)
    · exact hq
    · exact hhost

theorem parties_sound {peerstore ps : List PeerID} {p : Process} (h : Sound c peerstore p)
    (hps : parties c p peerstore = some (some ps)) : SameSet p.peers ps := by
  obtain ⟨kind, peers, keyPeers, pc⟩ := p
  unfold parties at hps
  cases pc with
  | running | ended => cases kind <;> cases hps
  | constructed =>
    obtain ⟨hsame, hhost⟩ := h
    cases kind with
    | ecdsaKeygen =>
      cases hps
      intro q
      rw [(c.sortPartyIDs_perm peerstore).mem_iff]
      exact hsame q
    | frostKeygen | frostResharing =>
      cases hps
      exact sameSet_addHost hsame (hhost rfl)
    | ecdsaResharing | ecdsaSigning | frostSigning => cases hps
  | validated old =>
    obtain ⟨hsame, hnodup, hsub⟩ := h
    cases kind with
    | ecdsaResharing =>
      have hold := c.sortPartyIDs_perm old
      have hstore := c.sortPartyIDs_perm peerstore
      have hparties := mem_sortParties (hold.nodup_iff.2 hnodup)
        (fun q hq => hstore.mem_iff.2 (hsub q (hold.subset hq))) (Option.some.inj hps)
      intro q
      rw [hsame q, ← hstore.mem_iff]
      exact hparties q
    | ecdsaKeygen | ecdsaSigning | frostKeygen | frostResharing | frostSigning => cases hps

theorem validate_sound {peerstore old : List PeerID} {keyPeers : PeerSet} {oldThreshold : ℤ}
    (h : validateStartParams c keyPeers.peers peerstore oldThreshold old = .ok ())
    (hnew : keyPeers.peers = [] → old.Nodup ∧ ∀ q ∈ old, q ∈ peerstore) :
    (c.sortIDs old).Nodup ∧ ∀ q ∈ c.sortIDs old, q ∈ peerstore := by
  have hperm := c.sortIDs_perm old
  by_cases hkey : keyPeers.peers = []
  · obtain ⟨hnodup, hsub⟩ := hnew hkey
    refine ⟨hperm.nodup_iff.2 hnodup, fun q hq => hsub q (hperm.subset hq)⟩
  · -- the relayer has compared the subset with the peers of its share
    rw [(validateStartParams_eq_ok.1 h).2.2 hkey]
    refine ⟨((c.sortIDs_perm _).nodup_iff.2 keyPeers.nodup).filter _, fun q hq => ?_⟩
    simpa using (List.mem_filter.1 hq).2

theorem inv_init (peerstore : Store) : Inv c store (init peerstore) where
  process i p h := by cases h
  stored d h := by cases h

theorem Inv.setProcess {i : ℕ} {p : Process} (h : Inv c store s) (hp : Sound c (store.peers s.peerstore) p) :
    Inv c store (s.setProcess i p) where
  process j q hq := by
    by_cases hj : j = i
    · subst hj
      obtain rfl : p = q := by simpa using hq
      exact hp
    · exact h.process j q (by simpa [hj] using hq)
  stored := h.stored

theorem inv_step {e : Event} (h : Inv c store s) (hG : Undisturbed c store s e)
    (hstep : step c store s e = some s') :
    Inv c store s' := by
  cases step_cases hstep with
  | loads => exact ⟨h.process, h.stored⟩
  | loadStep op loads =>
    -- no process depends on the peerstore now
    refine ⟨fun i p hp => ?_, h.stored⟩
    have hsound := h.process i p hp
    have hidle := hG i p hp
    unfold Process.pending at hidle
    unfold Sound at hsound ⊢
    cases hpc : p.pc with
    | constructed => exact absurd (Or.inl hpc) hidle
    | validated old => exact absurd (Or.inr ⟨old, hpc⟩) hidle
    | running parties => simpa only [hpc] using hsound
    | ended => trivial
  | new hkind => exact h.setProcess ⟨fun _ => Iff.rfl, hG⟩
  | @validates i oldThreshold oldSubset p hp hpc hok =>
    have hsound := h.process i p hp
    unfold Sound at hsound
    rw [hpc] at hsound
    exact h.setProcess ⟨hsound.1, validate_sound hok (hG p hp)⟩
  | @runs i p ps hp hps =>
    have hsame := parties_sound (h.process i p hp) hps
    exact h.setProcess hsame
  | @stores i p ps hp hpc =>
    have hsound := h.process i p hp
    unfold Sound at hsound
    rw [hpc] at hsound
    have hended : Inv c store (s.setProcess i { p with pc := .ended }) := h.setProcess trivial
    refine ⟨hended.process, fun d hd => ?_⟩
    rcases List.mem_append.1 hd with hd | hd
    · exact h.stored d hd
    · obtain rfl := List.mem_singleton.1 hd
      exact hsound
  | ends => exact h.setProcess trivial

/-- Every share that is stored names the parties that produced it, if nothing disturbs the
peerstore between construction and `Run`. -/
theorem stored_peers_eq_parties {peerstore : Store} {es : List Event}
    (hG : Along (step c store) (Undisturbed c store) (init peerstore) es)
    (hrun : exec (step c store) (init peerstore) es = some s) :
    ∀ d ∈ s.stored, ∀ p, p ∈ d.peers ↔ p ∈ d.parties :=
  (exec_inv (fun _ _ _ => inv_step) (inv_init peerstore) hG hrun).stored

def relayerA : Config := insertionSorting.toConfig

def peersAB : List (PeerID × String) := [("a", "/dns4/a"), ("b", "/dns4/b")]

/-- The peers `a`, `b` and `c` are loaded. -/
def refresh : List Event :=
  [.loadPeers 0 ["a", "b"] (peersAB ++ [("c", "/dns4/c")]), .loadStep 0, .loadStep 0, .loadStep 0,
    .loadStep 0, .loadStep 0]

/-- A FROST keygen after a refresh. -/
def keygenAfterRefresh : List Event :=
  refresh ++ [.new 0 .frostKeygen ⟨[], by decide⟩, .run 0, .finish 0 true]

theorem stored_peers_after_refresh :
    ∃ s, exec (step relayerA listPeerstore) (init peersAB) keygenAfterRefresh = some s ∧
      s.stored = [⟨0, ["a", "b", "c"], ["b", "c", "a"]⟩] ∧
      ∀ d ∈ s.stored, ∀ p, p ∈ d.peers ↔ p ∈ d.parties := by
  have hrun : exec (step relayerA listPeerstore) (init peersAB) keygenAfterRefresh = some _ := rfl
  have hnone : ∀ (_ : ℕ) (p : Process), none = some p → ¬ p.pending := fun _ _ h => nomatch h
  have hG : Along (step relayerA listPeerstore) (Undisturbed relayerA listPeerstore) (init peersAB)
      keygenAfterRefresh := by
    refine (along_cons rfl).2 ⟨trivial, ?_⟩
    iterate 5 refine (along_cons rfl).2 ⟨hnone, ?_⟩
    refine (along_cons rfl).2 ⟨fun _ => by decide, ?_⟩
    exact (along_cons rfl).2 ⟨trivial, (along_cons rfl).2 ⟨trivial, trivial⟩⟩
  exact ⟨_, hrun, rfl, stored_peers_eq_parties hG hrun⟩

/-- A refresh between `NewKeygen` and `Run`: three parties generate the key, and the share names
two of them. -/
theorem refresh_before_run :
    (exec (step relayerA listPeerstore) (init peersAB) (.new 0 .ecdsaKeygen ⟨[], by decide⟩ ::
      refresh ++ [.run 0, .finish 0 true])).map (·.stored) =
        some [⟨0, ["a", "b"], ["a", "b", "c"]⟩] := rfl

end Sygma.TssPeers
