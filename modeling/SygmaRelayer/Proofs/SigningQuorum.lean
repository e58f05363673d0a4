import Mathlib.Data.List.Dedup
import Mathlib.Data.List.Induction
import Mathlib.Data.List.Infix
import SygmaRelayer.Proofs.StaticElection
import SygmaRelayer.Proofs.WireRoundTrip
import SygmaRelayer.Spec.Initiate

/-! The signing quorum. `Ready` compares with equality, so it matters that one message adds
at most one participant: the start message is broadcast at the first message that brings
the number of ready participants to the threshold plus one, with exactly these. -/

namespace Sygma.Initiate

variable {Bytes : Type} {c : Call Bytes}

def readySenders (es : List Event) : List PeerID :=
  es.filterMap fun
    | .ready sender => some sender
    | _ => none

/-- The distinct, non-excluded, share-holding peers that are ready, with the coordinator. -/
def participants (c : Call Bytes) (es : List Event) : List PeerID :=
  ((c.host :: readySenders es).filter fun p => p ∉ c.excludedPeers ∧ p ∈ c.keyPeers).dedup

/-- `subset` consists of the participants, who are one more than the threshold. -/
structure IsQuorum (c : Call Bytes) (es : List Event) (subset : List PeerID) : Prop where
  nodup : subset.Nodup
  length : subset.length = c.threshold + 1
  mem_iff : ∀ p, p ∈ subset ↔ p ∈ participants c es
  holders : ∀ p ∈ subset, p ∈ c.keyPeers
  notExcluded : ∀ p ∈ subset, p ∉ c.excludedPeers
  host : c.host ∈ subset
  sorted : c.order.SortPeersForSession (participants c es) subset

/-- Where the loop stands after some events. -/
def pcAfter (c : Call Bytes) (es : List Event) : Pc :=
  es.foldl (fun pc e => (step c pc e).1) (.listening [c.host])

theorem pcAfter_concat (es : List Event) (e : Event) :
    pcAfter c (es ++ [e]) = (step c (pcAfter c es) e).1 := by
  simp [pcAfter]

theorem loop_append (pc : Pc) (es es' : List Event) :
    loop c pc (es ++ es') =
      loop c pc es ++ loop c (es.foldl (fun pc e => (step c pc e).1) pc) es' := by
  induction es generalizing pc with
  | nil => rfl
  | cons e es ih => simp [loop, ih]

theorem initiate_concat (es : List Event) (e : Event) :
    initiate c (es ++ [e]) = initiate c es ++ (step c (pcAfter c es) e).2 := by
  simp [initiate, loop_append, loop, pcAfter]

theorem readySenders_concat_ready (es : List Event) (p : PeerID) :
    readySenders (es ++ [.ready p]) = readySenders es ++ [p] := by
  simp [readySenders]

theorem mem_participants {es : List Event} {p : PeerID} :
    p ∈ participants c es ↔
      (p = c.host ∨ p ∈ readySenders es) ∧ p ∉ c.excludedPeers ∧ p ∈ c.keyPeers := by
  simp [participants]

/-- The ready peers the loop has collected. -/
structure Collected (c : Call Bytes) (es : List Event) (readyPeers : List PeerID) : Prop where
  nodup : readyPeers.Nodup
  mem_iff : ∀ p, p ∈ readyPeers ↔ p = c.host ∨ p ∈ readySenders es ∧ p ∉ c.excludedPeers

theorem Collected.perm {es : List Event} {rs : List PeerID} (h : Collected c es rs)
    (hexcl : c.host ∉ c.excludedPeers) : (readyParticipants c rs).Perm (participants c es) := by
  apply (List.perm_ext_iff_of_nodup (h.nodup.filter _) (List.nodup_dedup _)).2
  intro p
  change p ∈ readyParticipants c rs ↔ p ∈ participants c es
  rw [mem_participants, readyParticipants, List.mem_filter, h.mem_iff, decide_eq_true_eq]
  by_cases hp : p = c.host
  · subst hp
    simp [hexcl]
  · simp [hp, and_assoc]

theorem collected_nil : Collected c [] [c.host] where
  nodup := List.nodup_singleton _
  mem_iff p := by simp [readySenders]

theorem Collected.tick {es : List Event} {rs : List PeerID} (h : Collected c es rs) :
    Collected c (es ++ [.tick]) rs where
  nodup := h.nodup
  mem_iff p := by simpa [readySenders] using h.mem_iff p

theorem mem_collect {host p : PeerID} {excludedPeers senders rs : List PeerID}
    (h : ∀ q, q ∈ rs ↔ q = host ∨ q ∈ senders ∧ q ∉ excludedPeers) (q : PeerID) :
    (q ∈ if p ∉ excludedPeers ∧ p ∉ rs then rs ++ [p] else rs) ↔
      q = host ∨ q ∈ senders ++ [p] ∧ q ∉ excludedPeers := by
  rw [List.mem_append, List.mem_singleton]
  split_ifs with hp
  · rw [List.mem_append, List.mem_singleton, h]
    by_cases hq : q = p
    · subst hq
      simp [hp.1]
    · simp [hq]
  · rw [h]
    by_cases hq : q = p
    · -- an excluded sender, or one that is counted already
      subst hq
      rw [h] at hp
      tauto
    · simp [hq]

theorem nodup_collect {p : PeerID} {excludedPeers rs : List PeerID} (h : rs.Nodup) :
    (if p ∉ excludedPeers ∧ p ∉ rs then rs ++ [p] else rs).Nodup := by
  split_ifs with hp
  · refine List.nodup_append.2 ⟨h, List.nodup_singleton p, ?_⟩
    intro a ha b hb hab
    rw [List.mem_singleton.1 hb] at hab
    exact hp.2 (hab ▸ ha)
  · exact h

theorem Collected.addReadyPeer {es : List Event} {rs : List PeerID} (h : Collected c es rs)
    (p : PeerID) : Collected c (es ++ [.ready p]) (addReadyPeer c rs p) where
  nodup := nodup_collect h.nodup
  mem_iff q := by
    rw [readySenders_concat_ready]
    exact mem_collect h.mem_iff q

theorem length_addReadyPeer_le (rs : List PeerID) (p : PeerID) :
    (readyParticipants c (addReadyPeer c rs p)).length ≤ (readyParticipants c rs).length + 1 := by
  unfold addReadyPeer
  split_ifs
  · rw [readyParticipants, List.filter_append, List.length_append]
    have := List.length_filter_le (fun q => decide (q ∈ c.keyPeers)) [p]
    simp only [List.length_singleton] at this
    simp only [readyParticipants]
    omega
  · omega

theorem ready_iff {es : List Event} {rs : List PeerID} (h : Collected c es rs)
    (hexcl : c.host ∉ c.excludedPeers) :
    ready c rs = true ↔ (participants c es).length = c.threshold + 1 := by
  simp [ready, (h.perm hexcl).length_eq]

theorem step_ready (rs : List PeerID) (p : PeerID) :
    (ready c (addReadyPeer c rs p) = true ∧ ∃ payload,
      c.codec.marshalStartMessage (startParams c (addReadyPeer c rs p)) = some payload ∧
      step c (.listening rs) (.ready p) = (.left, .broadcastStart payload ::
        (List.range c.processes).map fun i => .run i (startParams c (addReadyPeer c rs p)))) ∨
    (ready c (addReadyPeer c rs p) = false ∧
      step c (.listening rs) (.ready p) = (.listening (addReadyPeer c rs p), [])) := by
  cases hr : ready c (addReadyPeer c rs p) with
  | false => exact Or.inr ⟨rfl, by simp [step, hr]⟩
  | true =>
    obtain ⟨payload, hm⟩ := Option.isSome_iff_exists.1
      (c.marshals (startParams c (addReadyPeer c rs p)))
    exact Or.inl ⟨rfl, payload, hm, by simp [step, hr, hm]⟩

/-- What the events so far tell about the place in the loop. -/
inductive Progress (c : Call Bytes) (es : List Event) : Pc → Prop
  | listening {rs : List PeerID} (collected : Collected c es rs)
      (below : ∀ pre, pre <+: es → (participants c pre).length < c.threshold + 1)
      (notDone : .done ∉ es) : Progress c es (.listening rs)
  | left (h : .done ∈ es ∨ ∃ pre, pre <+: es ∧ (participants c pre).length = c.threshold + 1) :
      Progress c es .left

theorem forall_prefix_concat {P : List Event → Prop} {es : List Event} {e : Event}
    (h : ∀ pre, pre <+: es → P pre) (he : P (es ++ [e])) : ∀ pre, pre <+: es ++ [e] → P pre := by
  intro pre hpre
  rcases List.prefix_concat_iff.1 hpre with rfl | hpre
  · exact he
  · exact h pre hpre

theorem progress_step {es : List Event} {pc : Pc} (hexcl : c.host ∉ c.excludedPeers)
    (h : Progress c es pc) (e : Event) : Progress c (es ++ [e]) (step c pc e).1 := by
  cases h with
  | left h =>
    apply Progress.left
    rcases h with h | ⟨pre, hpre, hq⟩
    · exact Or.inl (List.mem_append_left _ h)
    · exact Or.inr ⟨pre, hpre.trans (List.prefix_append _ _), hq⟩
  | @listening rs collected below notDone =>
    have hcount := (collected.perm hexcl).length_eq
    have hes := below es (List.prefix_refl es)
    cases e with
    | done => exact .left (Or.inl (by simp))
    | tick =>
      have hcount' := (collected.tick.perm hexcl).length_eq
      exact .listening collected.tick (forall_prefix_concat below (by omega))
        (by simpa using notDone)
    | ready p =>
      have hnew := collected.addReadyPeer p
      have hcount' := (hnew.perm hexcl).length_eq
      have hgrow := @length_addReadyPeer_le _ c rs p
      rcases step_ready (c := c) rs p with ⟨hr, payload, -, hstep⟩ | ⟨hr, hstep⟩
      · rw [hstep]
        exact .left (Or.inr ⟨_, List.prefix_refl _, (ready_iff hnew hexcl).1 hr⟩)
      · have hne : (participants c (es ++ [.ready p])).length ≠ c.threshold + 1 := by
          rw [Ne, ← ready_iff hnew hexcl, hr]
          exact Bool.false_ne_true
        rw [hstep]
        exact .listening hnew (forall_prefix_concat below (by omega)) (by simpa using notDone)

theorem progress (ht : 1 ≤ c.threshold) (hexcl : c.host ∉ c.excludedPeers) (es : List Event) :
    Progress c es (pcAfter c es) := by
  induction es using List.reverseRecOn with
  | nil =>
    refine .listening collected_nil ?_ (by simp)
    intro pre hpre
    rw [List.prefix_nil.1 hpre, ← (collected_nil.perm hexcl).length_eq]
    have := List.length_filter_le (fun q => decide (q ∈ c.keyPeers)) [c.host]
    simp only [List.length_singleton] at this
    simp only [readyParticipants]
    omega
  | append_singleton es e ih =>
    rw [pcAfter_concat]
    exact progress_step hexcl ih e

/-- Of exactly as many participants as are needed, the subset leaves none out. -/
theorem Collected.isQuorum {es : List Event} {rs : List PeerID} (h : Collected c es rs)
    (hhost : c.host ∈ c.keyPeers) (hexcl : c.host ∉ c.excludedPeers) (hr : ready c rs = true) :
    IsQuorum c es (peerSubset c rs) := by
  have hlen : (readyParticipants c rs).length = c.threshold + 1 := by simpa [ready] using hr
  have hsorts := c.sorts (readyParticipants c rs)
  have hall : peerSubset c rs = c.sortPeersForSession (readyParticipants c rs) := by
    apply List.take_of_length_le
    rw [hsorts.perm.length_eq, hlen]
  have hperm := h.perm hexcl
  have hmem : ∀ p, p ∈ peerSubset c rs ↔ p ∈ participants c es := by
    intro p
    rw [hall, hsorts.perm.mem_iff, hperm.mem_iff]
  rw [hall] at hmem ⊢
  refine ⟨?_, ?_, hmem, ?_, ?_, ?_, ?_⟩
  · exact hsorts.perm.nodup_iff.2 (h.nodup.filter _)
  · rw [hsorts.perm.length_eq, hlen]
  · intro p hp
    exact (mem_participants.1 ((hmem p).1 hp)).2.2
  · intro p hp
    exact (mem_participants.1 ((hmem p).1 hp)).2.1
  · exact (hmem _).2 (mem_participants.2 ⟨Or.inl rfl, hexcl, hhost⟩)
  · exact PeerOrder.sortPeersForSession_perm hperm.symm hsorts

/-- The start message is broadcast exactly at the first message that makes a quorum, and names
that quorum. -/
theorem start_at_quorum (ht : 1 ≤ c.threshold) (hhost : c.host ∈ c.keyPeers)
    (hexcl : c.host ∉ c.excludedPeers) (es : List Event) (e : Event) :
    ∃ new, initiate c (es ++ [e]) = initiate c es ++ new ∧
      ((∃ payload, .broadcastStart payload ∈ new) ↔
        .done ∉ es ∧ (∃ sender, e = .ready sender) ∧
        (participants c (es ++ [e])).length = c.threshold + 1 ∧
        ∀ pre, pre <+: es → (participants c pre).length < c.threshold + 1) ∧
      ∀ payload, .broadcastStart payload ∈ new → ∃ subset,
        c.codec.marshalStartMessage (c.codec.marshalPeers subset) = some payload ∧
        IsQuorum c (es ++ [e]) subset := by
  refine ⟨_, initiate_concat es e, ?_⟩
  have hprogress := progress ht hexcl es
  generalize pcAfter c es = pc at hprogress
  cases hprogress with
  | left h =>
    have hnone : ∀ payload, .broadcastStart payload ∉ (step c .left e).2 := by simp [step]
    refine ⟨iff_of_false (fun ⟨payload, hmem⟩ => hnone payload hmem) ?_,
      fun payload hmem => absurd hmem (hnone payload)⟩
    rintro ⟨hdone, -, -, hbelow⟩
    rcases h with h | ⟨pre, hpre, hq⟩
    · exact hdone h
    · have := hbelow pre hpre
      omega
  | @listening rs collected below notDone =>
    cases e with
    | done => simp [step]
    | tick => simp [step]
    | ready p =>
      have hnew := collected.addReadyPeer p
      rcases step_ready (c := c) rs p with ⟨hr, payload, hm, hstep⟩ | ⟨hr, hstep⟩
      · rw [hstep]
        refine ⟨iff_of_true ⟨payload, List.mem_cons_self⟩
          ⟨notDone, ⟨p, rfl⟩, (ready_iff hnew hexcl).1 hr, below⟩, ?_⟩
        intro payload' hmem
        obtain rfl : payload' = payload := by simpa using hmem
        exact ⟨_, hm, hnew.isQuorum hhost hexcl hr⟩
      · rw [hstep]
        refine ⟨iff_of_false (by simp) ?_, by simp⟩
        rintro ⟨-, -, hq, -⟩
        rw [← ready_iff hnew hexcl, hr] at hq
        cases hq

theorem insertionSort_sorts (o : PeerOrder) (peers : List PeerID) :
    o.SortPeersForSession peers (peers.insertionSort fun p q => o.rank p ≤ o.rank q) where
  perm := List.perm_insertionSort _ _
  sorted := by
    have := List.pairwise_insertionSort (fun p q => o.rank p ≤ o.rank q) peers
    refine this.imp fun h => ?_
    rw [← Bool.not_eq_true, PeerOrder.less_iff_rank]
    exact not_lt_of_ge h

/-- The second peer coordinates; two of three peers sign, and the third is excluded. -/
def twoOfThree : Call (Option (List UInt8)) where
  codec := Wire.startCodec decodePeer
  marshals _ := rfl
  order := peerOrder
  sortPeersForSession peers := peers.insertionSort fun p q => peerOrder.rank p ≤ peerOrder.rank q
  sorts := insertionSort_sorts peerOrder
  host := secondPeer
  keyPeers := [firstPeer, secondPeer, thirdPeer]
  threshold := 1
  excludedPeers := [thirdPeer]
  processes := 1

/-- Messages of an excluded peer, of one without a share and of the coordinator itself. -/
def noQuorum : List Event :=
  [.ready thirdPeer, .ready "QmYAYuLUPNwYEBYJaKHcE7NKjUhiUV8txx2xDXHvcYa1xK", .tick,
    .ready secondPeer]

theorem start_at_quorum_excluded :
    ∃ new, initiate twoOfThree (noQuorum ++ [.ready firstPeer]) =
        initiate twoOfThree noQuorum ++ new ∧
      ∃ payload, .broadcastStart payload ∈ new := by
  obtain ⟨new, hnew, hiff, -⟩ := start_at_quorum (c := twoOfThree) (by decide) (by decide)
    (by decide) noQuorum (.ready firstPeer)
  have hbelow : ∀ pre ∈ noQuorum.inits, (participants twoOfThree pre).length < 2 := by decide
  refine ⟨new, hnew, hiff.2 ⟨by decide, ⟨firstPeer, rfl⟩, by decide, fun pre hpre => ?_⟩⟩
  exact hbelow pre ((List.mem_inits pre noQuorum).2 hpre)

example : initiate twoOfThree (noQuorum ++ [.ready firstPeer, .ready thirdPeer]) =
    [.broadcastInitiate, .broadcastInitiate,
      .broadcastStart (Wire.startPayload [secondPeer, firstPeer]),
      .run 0 (some (Wire.marshalPeers [secondPeer, firstPeer]))] := by decide +kernel

end Sygma.Initiate
