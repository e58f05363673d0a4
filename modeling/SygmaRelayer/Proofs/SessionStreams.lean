import Mathlib.Data.List.Nodup
import SygmaRelayer.Spec.StreamManager

/-! Does closing a session close its streams? A stream is in the hands of the call that opened
it until `AddStream`, then held by the manager until the session is closed. The stream of
an `AddStream` that meets an occupied slot is neither, and nobody closes it. So all streams
of a session are closed exactly when every `AddStream` of the session met a free slot. -/

namespace Sygma.Streams

open Runs

variable {s s' : State} {session : String}

/-- Every `AddStream` of the session meets a free slot. -/
def FreeSlot (session : String) (s : State) : Event → Prop
  | .addStream t => ∀ peer k, s.sends t = .adding session peer k → s.stream session peer = none
  | _ => True

instance FreeSlot.decidable (session : String) (s : State) :
    ∀ e, Decidable (FreeSlot session s e)
  | .addStream t =>
    match h : s.sends t with
    | .adding session' peer _ =>
      decidable_of_iff (session' = session → s.stream session' peer = none) (by
        simp only [FreeSlot, h, SendPc.adding.injEq]
        constructor
        · rintro hfree peer k ⟨rfl, rfl, rfl⟩
          exact hfree rfl
        · rintro hfree rfl
          exact hfree peer _ ⟨rfl, rfl, rfl⟩)
    | .idle | .resolved _ _ | .opening _ _ | .writing _ _ _ | .returned =>
      isTrue (by simp [FreeSlot, h])
  | .send _ _ _ _ | .stream _ | .newStream _ _ | .write _ | .closeSession _ => isTrue trivial

/-- The streams the manager holds. -/
def State.held (s : State) : List ℕ := s.entries.map (·.stream)

@[simp] theorem sends_addStream (s : State) (session : String) (peer : PeerID) (k : ℕ) :
    (s.addStream session peer k).sends = s.sends := by
  unfold State.addStream
  split <;> rfl

/-- The transitions of `step`, one constructor for each branch. -/
inductive Step (s : State) : Event → State → Prop
  /-- a call goes on without touching a stream -/
  | moves {e t pc} (hadd : ∀ session peer k, s.sends t ≠ .adding session peer k)
    (hpc : ∀ session peer k, pc ≠ .adding session peer k) (he : ∀ t, e ≠ .addStream t) :
    Step s e (s.setSend t pc)
  | opens {t session peer} (hp : s.sends t = .opening session peer) :
    Step s (.newStream t true) { s.setSend t (.adding session peer s.opened.length) with
      opened := s.opened ++ [(session, peer)] }
  | adds {t session peer k} (hp : s.sends t = .adding session peer k)
    (hfree : s.stream session peer = none) :
    Step s (.addStream t)
      { s.setSend t (.writing session peer k) with entries := s.entries ++ [⟨session, peer, k⟩] }
  | drops {t session peer k} (hp : s.sends t = .adding session peer k)
    (hslot : s.stream session peer ≠ none) :
    Step s (.addStream t) (s.setSend t (.writing session peer k))
  | closes {closed : String} : Step s (.closeSession closed) (s.releaseStreams closed)

theorem step_cases {e : Event} (h : step s e = some s') : Step s e s' := by
  cases e with
  | send t session peer ok =>
    simp only [step] at h
    split at h
    · rename_i hp
      cases h
      exact .moves (by simp [hp]) (by cases ok <;> simp) (by simp)
    · cases h
  | stream t =>
    simp only [step] at h
    split at h
    · rename_i hp
      split at h <;> cases h <;> exact .moves (by simp [hp]) (by simp) (by simp)
    · cases h
  | newStream t ok =>
    simp only [step] at h
    split at h
    · rename_i hp
      cases ok with
      | true =>
        cases h
        exact .opens hp
      | false =>
        cases h
        exact .moves (by simp [hp]) (by simp) (by simp)
    · cases h
  | addStream t =>
    simp only [step] at h
    split at h
    · rename_i session peer k hp
      cases h
      unfold State.addStream
      cases hslot : s.stream session peer with
      | none => exact .adds hp hslot
      | some k' => exact .drops hp (by simp [hslot])
    · cases h
  | write t =>
    simp only [step] at h
    split at h
    · rename_i hp
      cases h
      exact .moves (by simp [hp]) (by simp) (by simp)
    · cases h
  | closeSession session =>
    cases h
    exact .closes

/-- Where a stream can be. -/
structure Inv (s : State) : Prop where
  entry : ∀ e ∈ s.entries, s.opened[e.stream]? = some (e.session, e.peer) ∧ s.closes e.stream = 0
  nodup : s.held.Nodup
  hand : ∀ t session peer k, s.sends t = .adding session peer k →
    s.opened[k]? = some (session, peer) ∧ s.closes k = 0 ∧ k ∉ s.held
  owner : ∀ t t' session session' peer peer' k, s.sends t = .adding session peer k →
    s.sends t' = .adding session' peer' k → t = t'
  fresh : ∀ k, s.opened.length ≤ k → s.closes k = 0

/-- The stream is in the hands of a call, held by the manager, or was closed once. -/
def Accounted (s : State) (k : ℕ) : Prop :=
  (∃ t session peer, s.sends t = .adding session peer k) ∨ k ∈ s.held ∨ s.closes k = 1

/-- No stream of the session was dropped. -/
def NoneDropped (session : String) (s : State) : Prop :=
  ∀ k peer, s.opened[k]? = some (session, peer) → Accounted s k

theorem inv_init : Inv init where
  entry e h := by cases h
  nodup := List.nodup_nil
  hand t session peer k h := by cases h
  owner t t' session session' peer peer' k h := by cases h
  fresh k h := rfl

theorem sends_adding_iff {t u : ℕ} {pc : SendPc} {session' : String} {peer : PeerID} {k : ℕ}
    (hadd : ∀ session peer k, s.sends t ≠ .adding session peer k)
    (hpc : ∀ session peer k, pc ≠ .adding session peer k) :
    (s.setSend t pc).sends u = .adding session' peer k ↔ s.sends u = .adding session' peer k := by
  by_cases hu : u = t
  · subst hu
    simp [hadd, hpc]
  · simp [hu]

section Moves

variable {t : ℕ} {pc : SendPc} (hadd : ∀ session peer k, s.sends t ≠ .adding session peer k)
  (hpc : ∀ session peer k, pc ≠ .adding session peer k)

include hadd hpc

theorem Inv.moves (h : Inv s) : Inv (s.setSend t pc) where
  entry := h.entry
  nodup := h.nodup
  hand u session peer k hu := h.hand u session peer k ((sends_adding_iff hadd hpc).1 hu)
  owner u u' session session' peer peer' k hu hu' :=
    h.owner u u' session session' peer peer' k ((sends_adding_iff hadd hpc).1 hu)
      ((sends_adding_iff hadd hpc).1 hu')
  fresh := h.fresh

theorem accounted_moves (k : ℕ) : Accounted (s.setSend t pc) k ↔ Accounted s k := by
  unfold Accounted
  simp only [sends_adding_iff hadd hpc]
  exact Iff.rfl

end Moves

theorem Inv.session_eq (h : Inv s) {e : Entry} (he : e ∈ s.entries) {o : String × PeerID}
    (ho : s.opened[e.stream]? = some o) : e.session = o.1 := by
  rw [(h.entry e he).1, Option.some_inj] at ho
  rw [← ho]

theorem Inv.lt_of_mem_held (h : Inv s) {k : ℕ} (hk : k ∈ s.held) : k < s.opened.length := by
  obtain ⟨e, he, rfl⟩ := List.mem_map.1 hk
  exact (List.getElem?_eq_some_iff.1 (h.entry e he).1).1

theorem Inv.lt_of_adding (h : Inv s) {t k : ℕ} {session : String} {peer : PeerID}
    (ht : s.sends t = .adding session peer k) : k < s.opened.length :=
  (List.getElem?_eq_some_iff.1 (h.hand t session peer k ht).1).1

theorem opened_concat {k : ℕ} {o o' : String × PeerID} (h : s.opened[k]? = some o) :
    (s.opened ++ [o'])[k]? = some o := by
  rw [List.getElem?_append_left (List.getElem?_eq_some_iff.1 h).1]
  exact h

section Opens

variable {t : ℕ} {session' : String} {peer : PeerID}
  (hadd : ∀ session peer k, s.sends t ≠ .adding session peer k)

include hadd

theorem sends_opens_iff {u k : ℕ} {a : String} {b : PeerID} :
    (s.setSend t (.adding session' peer s.opened.length)).sends u = .adding a b k ↔
      (u = t ∧ session' = a ∧ peer = b ∧ s.opened.length = k) ∨ s.sends u = .adding a b k := by
  by_cases hu : u = t
  · subst hu
    simp [hadd]
  · simp [hu]

theorem Inv.opens (h : Inv s) : Inv { s.setSend t (.adding session' peer s.opened.length) with
    opened := s.opened ++ [(session', peer)] } where
  entry e he := ⟨opened_concat (h.entry e he).1, (h.entry e he).2⟩
  nodup := h.nodup
  hand u a b k hu := by
    rcases (sends_opens_iff hadd).1 hu with ⟨-, rfl, rfl, rfl⟩ | hu
    · exact ⟨List.getElem?_concat_length, h.fresh _ le_rfl,
        fun hk => absurd (h.lt_of_mem_held hk) (lt_irrefl _)⟩
    · obtain ⟨ho, hc, hheld⟩ := h.hand u a b k hu
      exact ⟨opened_concat ho, hc, hheld⟩
  owner u u' a a' b b' k hu hu' := by
    rcases (sends_opens_iff hadd).1 hu with ⟨rfl, -, -, rfl⟩ | old
    · rcases (sends_opens_iff hadd).1 hu' with ⟨rfl, -⟩ | old'
      · rfl
      · exact absurd (h.lt_of_adding old') (lt_irrefl _)
    · rcases (sends_opens_iff hadd).1 hu' with ⟨rfl, -, -, rfl⟩ | old'
      · exact absurd (h.lt_of_adding old) (lt_irrefl _)
      · exact h.owner u u' a a' b b' k old old'
  fresh k hk := h.fresh k (by
    simp only [List.length_append, List.length_singleton] at hk
    omega)

theorem noneDropped_opens :
    NoneDropped session { s.setSend t (.adding session' peer s.opened.length) with
      opened := s.opened ++ [(session', peer)] } ↔ NoneDropped session s := by
  unfold NoneDropped Accounted
  simp only [sends_opens_iff hadd]
  constructor
  · intro hall k b hk
    rcases hall k b (opened_concat hk) with ⟨u, a, b', ⟨-, -, -, rfl⟩ | hu⟩ | hrest
    · exact absurd (List.getElem?_eq_some_iff.1 hk).1 (lt_irrefl _)
    · exact Or.inl ⟨u, a, b', hu⟩
    · exact Or.inr hrest
  · intro hall k b hk
    by_cases hlt : k < s.opened.length
    · rw [List.getElem?_append_left hlt] at hk
      rcases hall k b hk with ⟨u, a, b', hu⟩ | hrest
      · exact Or.inl ⟨u, a, b', Or.inr hu⟩
      · exact Or.inr hrest
    · have hle := (List.getElem?_eq_some_iff.1 hk).1
      simp only [List.length_append, List.length_singleton] at hle
      exact Or.inl ⟨t, session', peer, Or.inl ⟨rfl, rfl, rfl, by omega⟩⟩

end Opens

section Adds

variable {t k : ℕ} {session' : String} {peer : PeerID}
  (hp : s.sends t = .adding session' peer k) (h : Inv s)

include hp h

theorem sends_writing_iff {u k' : ℕ} {a : String} {b : PeerID} :
    (s.setSend t (.writing session' peer k)).sends u = .adding a b k' ↔
      s.sends u = .adding a b k' ∧ k' ≠ k := by
  by_cases hu : u = t
  · subst hu
    simp only [State.setSend, Function.update_self, reduceCtorEq, false_iff, not_and, not_not]
    intro hu'
    rw [hp] at hu'
    cases hu'
    rfl
  · simp only [State.setSend, Function.update_of_ne hu, iff_self_and]
    rintro hu' rfl
    exact hu (h.owner u t a session' b peer k' hu' hp)

theorem Inv.drops : Inv (s.setSend t (.writing session' peer k)) where
  entry := h.entry
  nodup := h.nodup
  hand u a b k' hu := h.hand u a b k' ((sends_writing_iff hp h).1 hu).1
  owner u u' a a' b b' k' hu hu' := h.owner u u' a a' b b' k' ((sends_writing_iff hp h).1 hu).1
    ((sends_writing_iff hp h).1 hu').1
  fresh := h.fresh

theorem Inv.adds : Inv { s.setSend t (.writing session' peer k) with
    entries := s.entries ++ [⟨session', peer, k⟩] } where
  entry e he := by
    rcases List.mem_append.1 he with he | he
    · exact h.entry e he
    · obtain rfl := List.mem_singleton.1 he
      obtain ⟨ho, hc, -⟩ := h.hand t session' peer k hp
      exact ⟨ho, hc⟩
  nodup := by
    simp only [State.held, List.map_append, List.map_cons, List.map_nil]
    exact List.nodup_append_comm.1 (h.nodup.cons (h.hand t session' peer k hp).2.2)
  hand u a b k' hu := by
    obtain ⟨hu, hne⟩ := (sends_writing_iff hp h).1 hu
    obtain ⟨ho, hc, hheld⟩ := h.hand u a b k' hu
    refine ⟨ho, hc, ?_⟩
    simp only [State.held, List.map_append, List.map_cons, List.map_nil, List.mem_append,
      List.mem_singleton]
    rintro (hk | hk)
    · exact hheld hk
    · exact hne hk
  owner := (h.drops hp).owner
  fresh := h.fresh

theorem accounted_adds (k' : ℕ) :
    Accounted { s.setSend t (.writing session' peer k) with
      entries := s.entries ++ [⟨session', peer, k⟩] } k' ↔ Accounted s k' := by
  unfold Accounted
  simp only [sends_writing_iff hp h, State.held, List.map_append, List.map_cons, List.map_nil,
    List.mem_append, List.mem_singleton]
  by_cases hk : k' = k
  · subst hk
    exact iff_of_true (Or.inr (Or.inl (Or.inr rfl))) (Or.inl ⟨t, session', peer, hp⟩)
  · simp only [ne_eq, hk, not_false_iff, and_true, or_false]
    exact Iff.rfl

theorem accounted_drops {k' : ℕ} :
    Accounted (s.setSend t (.writing session' peer k)) k' ↔ Accounted s k' ∧ k' ≠ k := by
  unfold Accounted
  simp only [sends_writing_iff hp h]
  obtain ⟨-, hc, hheld⟩ := h.hand t session' peer k hp
  constructor
  · rintro (⟨u, a, b, hu, hk⟩ | hk | hk)
    · exact ⟨Or.inl ⟨u, a, b, hu⟩, hk⟩
    · exact ⟨Or.inr (Or.inl hk), fun heq => hheld (heq ▸ hk)⟩
    · refine ⟨Or.inr (Or.inr hk), ?_⟩
      rintro rfl
      exact absurd (hc.symm.trans hk) (by decide)
  · rintro ⟨⟨u, a, b, hu⟩ | hrest, hk⟩
    · exact Or.inl ⟨u, a, b, hu, hk⟩
    · exact Or.inr hrest

theorem noneDropped_drops :
    NoneDropped session (s.setSend t (.writing session' peer k)) ↔
      NoneDropped session s ∧ session' ≠ session := by
  have ho := (h.hand t session' peer k hp).1
  constructor
  · intro hall
    refine ⟨fun k' b hk => ((accounted_drops hp h).1 (hall k' b hk)).1, ?_⟩
    rintro rfl
    exact ((accounted_drops hp h).1 (hall k peer ho)).2 rfl
  · rintro ⟨hall, hne⟩ k' b hk
    refine (accounted_drops hp h).2 ⟨hall k' b hk, ?_⟩
    rintro rfl
    exact hne (congrArg Prod.fst (Option.some_injective _ (ho.symm.trans hk)))

end Adds

section Closes

variable {closed : String}

theorem held_releaseStreams {k : ℕ} (hk : k ∈ (s.releaseStreams closed).held) : k ∈ s.held :=
  ((List.filter_sublist (l := s.entries)).map _).subset hk

theorem closes_of_not_held {k : ℕ} (hk : k ∉ s.held) :
    (s.releaseStreams closed).closes k = s.closes k := by
  have hnot : k ∉ (s.entries.filter fun e => e.session = closed).map (·.stream) :=
    fun h => hk ((List.filter_sublist.map _).subset h)
  simp only [State.releaseStreams, List.count_eq_zero_of_not_mem hnot, Nat.add_zero]

theorem Inv.closes_other (h : Inv s) {k : ℕ} {a : String} {b : PeerID}
    (hk : s.opened[k]? = some (a, b)) (ha : a ≠ closed) :
    (s.releaseStreams closed).closes k = s.closes k := by
  have hnot : k ∉ (s.entries.filter fun e => e.session = closed).map (·.stream) := by
    intro hmem
    obtain ⟨e, he, rfl⟩ := List.mem_map.1 hmem
    obtain ⟨he, hsession⟩ := List.mem_filter.1 he
    exact ha ((h.session_eq he hk).symm.trans (of_decide_eq_true hsession))
  simp only [State.releaseStreams, List.count_eq_zero_of_not_mem hnot, Nat.add_zero]

theorem Inv.closes_held (h : Inv s) {k : ℕ} {b : PeerID} (hk : s.opened[k]? = some (closed, b))
    (hheld : k ∈ s.held) : (s.releaseStreams closed).closes k = 1 := by
  obtain ⟨e, he, rfl⟩ := List.mem_map.1 hheld
  have hmem : e.stream ∈ (s.entries.filter fun e => e.session = closed).map (·.stream) :=
    List.mem_map_of_mem (List.mem_filter.2 ⟨he, decide_eq_true (h.session_eq he hk)⟩)
  have hnd := h.nodup.sublist ((List.filter_sublist (p := fun e => e.session = closed)).map _)
  simp only [State.releaseStreams, (h.entry e he).2, List.count_eq_one_of_mem hnd hmem]

theorem Inv.closes (h : Inv s) : Inv (s.releaseStreams closed) where
  entry e he := by
    obtain ⟨he, hne⟩ := List.mem_filter.1 he
    obtain ⟨ho, hc⟩ := h.entry e he
    exact ⟨ho, (h.closes_other ho (of_decide_eq_true hne)).trans hc⟩
  nodup := h.nodup.sublist (List.filter_sublist.map _)
  hand t a b k ht := by
    obtain ⟨ho, hc, hheld⟩ := h.hand t a b k ht
    exact ⟨ho, (closes_of_not_held hheld).trans hc, fun hk => hheld (held_releaseStreams hk)⟩
  owner := h.owner
  fresh k hk :=
    (closes_of_not_held fun hheld => absurd (h.lt_of_mem_held hheld) (not_lt.2 hk)).trans
      (h.fresh k hk)

theorem accounted_closes (h : Inv s) {k : ℕ} {b : PeerID} (hk : s.opened[k]? = some (session, b)) :
    Accounted (s.releaseStreams closed) k ↔ Accounted s k := by
  by_cases hheld : k ∈ s.held
  · refine iff_of_true ?_ (Or.inr (Or.inl hheld))
    by_cases hs : session = closed
    · subst hs
      exact Or.inr (Or.inr (h.closes_held hk hheld))
    · obtain ⟨e, he, rfl⟩ := List.mem_map.1 hheld
      have hne : e.session ≠ closed := fun heq => hs ((h.session_eq he hk).symm.trans heq)
      exact Or.inr (Or.inl (List.mem_map_of_mem (List.mem_filter.2 ⟨he, decide_eq_true hne⟩)))
  · have hheld' : k ∉ (s.releaseStreams closed).held := fun hk' => hheld (held_releaseStreams hk')
    unfold Accounted
    simp only [hheld, hheld', closes_of_not_held hheld, false_or]
    exact Iff.rfl

end Closes

theorem inv_step {e : Event} (h : Inv s) (hs : step s e = some s') : Inv s' := by
  cases step_cases hs with
  | moves hadd hpc _ => exact h.moves hadd hpc
  | opens hp => exact h.opens (by simp [hp])
  | adds hp _ => exact h.adds hp
  | drops hp _ => exact h.drops hp
  | closes => exact h.closes

theorem noneDropped_step {e : Event} (h : Inv s) (hs : step s e = some s') :
    NoneDropped session s' ↔ NoneDropped session s ∧ FreeSlot session s e := by
  cases step_cases hs with
  | @moves _ t pc hadd hpc he =>
    have hfree : FreeSlot session s e := by
      unfold FreeSlot
      split
      · exact absurd rfl (he _)
      · trivial
    simp only [hfree, and_true]
    exact forall₃_congr fun k b _ => accounted_moves hadd hpc k
  | opens hp =>
    simp only [FreeSlot, and_true]
    exact noneDropped_opens (by simp [hp])
  | @adds t a b k hp hslot =>
    have hfree : FreeSlot session s (.addStream t) := by
      intro b' k' ht
      rw [hp] at ht
      cases ht
      exact hslot
    simp only [hfree, and_true]
    exact forall₃_congr fun k' b' _ => accounted_adds hp h k'
  | @drops t a b k hp hslot =>
    rw [noneDropped_drops hp h]
    refine and_congr_right fun _ => ?_
    simp only [FreeSlot, hp]
    constructor
    · rintro hne b' k' ⟨⟩
      exact absurd rfl hne
    · rintro hfree rfl
      exact hslot (hfree b k rfl)
  | closes =>
    simp only [FreeSlot, and_true]
    exact forall₃_congr fun k b hk => accounted_closes h hk

theorem inv_run {es : List Event} (hrun : exec step init es = some s) : Inv s :=
  exec_preserves (fun _ _ _ => inv_step) inv_init hrun

theorem noneDropped_run {es : List Event} (hrun : exec step init es = some s) :
    NoneDropped session s ↔ Along step (FreeSlot session) init es := by
  have hnone : NoneDropped session init := fun k b hk => by simp [init] at hk
  simpa [hnone] using exec_iff_along (P := NoneDropped session) (fun _ _ _ => inv_step)
    (fun _ _ _ => noneDropped_step) inv_init hrun

/-- No stream is closed before its session is. -/
def OpenUntilClosed (past : List Event) (s : State) : Prop :=
  ∀ k session peer, s.opened[k]? = some (session, peer) → Event.closeSession session ∉ past →
    s.closes k = 0

theorem openUntilClosed_step {past : List Event} {e : Event} (h : Inv s)
    (hopen : OpenUntilClosed past s) (hs : step s e = some s') :
    OpenUntilClosed (past ++ [e]) s' := by
  intro k a b hk hnot
  simp only [List.mem_append, List.mem_singleton, not_or] at hnot
  cases step_cases hs with
  | moves => exact hopen k a b hk hnot.1
  | opens =>
    by_cases hlt : k < s.opened.length
    · exact hopen k a b (by simpa only [List.getElem?_append_left hlt] using hk) hnot.1
    · exact h.fresh k (not_lt.1 hlt)
  | adds => exact hopen k a b hk hnot.1
  | drops => exact hopen k a b hk hnot.1
  | @closes closed =>
    have hne : a ≠ closed := fun heq => hnot.2 (heq ▸ rfl)
    exact (h.closes_other hk hne).trans (hopen k a b hk hnot.1)

theorem openUntilClosed_run {es : List Event} (hrun : exec step init es = some s) :
    OpenUntilClosed es s := by
  have hinit : Inv init ∧ OpenUntilClosed [] init := ⟨inv_init, fun _ _ _ _ _ => rfl⟩
  have hall := exec_history (I := fun past s => Inv s ∧ OpenUntilClosed past s)
    (fun past s e s' h _ hs => ⟨inv_step h.1 hs, openUntilClosed_step h.1 h.2 hs⟩) hinit
    along_true hrun
  exact hall.2

theorem stream_releaseStreams_self (s : State) (session : String) (peer : PeerID) :
    (s.releaseStreams session).stream session peer = none := by
  simp only [State.stream, State.releaseStreams, Option.map_eq_none_iff, List.find?_eq_none]
  intro e he heq
  have hne := of_decide_eq_true (List.mem_filter.1 he).2
  exact hne (of_decide_eq_true heq).1

theorem stream_releaseStreams_of_ne {other : String} (h : other ≠ session) (peer : PeerID) :
    (s.releaseStreams session).stream other peer = s.stream other peer := by
  simp only [State.stream, State.releaseStreams, List.find?_filter]
  congr 2
  funext e
  simp only [decide_eq_true_eq, decide_eq_decide]
  constructor
  · exact fun ⟨_, he⟩ => he
  · rintro ⟨rfl, hpeer⟩
    exact ⟨h, rfl, hpeer⟩

theorem Inv.closes_of_stream (h : Inv s) {peer : PeerID} {k : ℕ}
    (hk : s.stream session peer = some k) : s.closes k = 0 := by
  obtain ⟨e, he, rfl⟩ := Option.map_eq_some_iff.1 hk
  exact (h.entry e (List.mem_of_find?_eq_some he)).2

/-- What `CloseSession` is for, from the state `s` that the events led to. -/
structure ClosesSession (es : List Event) (session : String) (s s' : State) : Prop where
  closed : ∀ k peer, s.opened[k]? = some (session, peer) → s'.closes k = 1
  released : ∀ peer, s'.stream session peer = none
  kept : ∀ other, other ≠ session → ∀ peer, s'.stream other peer = s.stream other peer
  /-- a stream of another session is untouched, -/
  untouched : ∀ other, other ≠ session → ∀ k peer, s.opened[k]? = some (other, peer) →
    s'.closes k = s.closes k
  /-- and open if that session was not closed or still has the stream -/
  stillOpen : ∀ other, other ≠ session → ∀ k peer, s.opened[k]? = some (other, peer) →
    Event.closeSession other ∉ es ∨ s'.stream other peer = some k → s'.closes k = 0

/-- When no call of the session is running, its streams are closed unless one was dropped. -/
theorem closes_eq_one_iff (h : Inv s) (hdone : ∀ t, (s.sends t).session ≠ some session) {k : ℕ}
    {peer : PeerID} (hk : s.opened[k]? = some (session, peer)) :
    (s.releaseStreams session).closes k = 1 ↔ Accounted s k := by
  rw [← accounted_closes h hk]
  refine ⟨fun hc => Or.inr (Or.inr hc), ?_⟩
  rintro (⟨t, a, b, ht⟩ | hheld | hc)
  · have hopened := (h.hand t a b k ht).1
    rw [hk, Option.some_inj, Prod.mk.injEq] at hopened
    refine absurd ?_ (hdone t)
    have ht' : s.sends t = .adding a b k := ht
    rw [ht', hopened.1]
    rfl
  · obtain ⟨e, he, rfl⟩ := List.mem_map.1 hheld
    obtain ⟨he, hne⟩ := List.mem_filter.1 he
    exact absurd (h.session_eq he hk) (of_decide_eq_true hne)
  · exact hc

/-- Once its calls have returned, closing a session does what it is for exactly when every
`AddStream` of the session met a free slot. -/
theorem closeSession_iff {es : List Event} (hrun : exec step init es = some s)
    (hdone : ∀ t, (s.sends t).session ≠ some session)
    (hclose : step s (.closeSession session) = some s') :
    ClosesSession es session s s' ↔ Along step (FreeSlot session) init es := by
  have h := inv_run hrun
  obtain rfl : s.releaseStreams session = s' := Option.some.inj hclose
  rw [← noneDropped_run hrun]
  constructor
  · intro hcloses k peer hk
    exact (closes_eq_one_iff h hdone hk).1 (hcloses.closed k peer hk)
  · intro hnone
    refine ⟨fun k peer hk => (closes_eq_one_iff h hdone hk).2 (hnone k peer hk),
      stream_releaseStreams_self s session, fun other hne => stream_releaseStreams_of_ne hne,
      fun other hne k peer hk => h.closes_other hk hne, ?_⟩
    rintro other hne k peer hk (hnot | hheld)
    · exact (h.closes_other hk hne).trans (openUntilClosed_run hrun k other peer hk hnot)
    · exact h.closes.closes_of_stream hheld

/-- Two calls to one peer, one after the other, while a call of another session is writing. -/
theorem closeSession_sequential :
    ∃ s s', exec step init
      [.send 0 "keygen" "peer" true, .stream 0, .newStream 0 true, .addStream 0, .write 0,
        .send 1 "signing" "peer" true, .stream 1, .newStream 1 true, .addStream 1,
        .send 2 "keygen" "peer" true, .stream 2, .write 2] = some s ∧
      step s (.closeSession "keygen") = some s' ∧ ClosesSession
        [.send 0 "keygen" "peer" true, .stream 0, .newStream 0 true, .addStream 0, .write 0,
          .send 1 "signing" "peer" true, .stream 1, .newStream 1 true, .addStream 1,
          .send 2 "keygen" "peer" true, .stream 2, .write 2] "keygen" s s' := by
  refine ⟨_, _, rfl, rfl, (closeSession_iff rfl ?_ rfl).2 (by decide)⟩
  intro t
  match t with
  | 0 => decide
  | 1 => decide
  | 2 => decide
  | n + 3 => simp [init, SendPc.session]

/-- Two calls to one peer both find no stream. The stream of the second `AddStream` is
dropped, and the message is written to it, but it is never closed. -/
theorem closeSession_leaks_stream :
    ∃ s s', exec step init
      [.send 0 "keygen" "peer" true, .stream 0, .send 1 "keygen" "peer" true, .stream 1,
        .newStream 0 true, .addStream 0, .write 0, .newStream 1 true, .addStream 1, .write 1] =
        some s ∧
      (∀ t, (s.sends t).session ≠ some "keygen") ∧
      step s (.closeSession "keygen") = some s' ∧
      s.opened = [("keygen", "peer"), ("keygen", "peer")] ∧ s'.closes 0 = 1 ∧ s'.closes 1 = 0 := by
  refine ⟨_, _, rfl, ?_, rfl, rfl, rfl, rfl⟩
  intro t
  match t with
  | 0 => decide
  | 1 => decide
  | n + 2 => simp [init, SendPc.session]

end Sygma.Streams
