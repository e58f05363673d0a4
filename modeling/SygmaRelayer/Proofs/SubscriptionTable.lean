import SygmaRelayer.Proofs.SubscriptionIds

/-! The subscription table against the subscriptions its callers hold. The table
stores a subscription under what `Unwrap` reads from its ID, so it is exact as long
as no new subscription takes the place of a live one and `UnSubscribeFrom` finds
the subscription whose ID it is given. -/

namespace Sygma.Comm

open Text Runs

variable {Chan : Type}

theorem filter_imp_of_length {α : Type} {p q : α → Bool} {l : List α}
    (himp : ∀ x, p x = true → q x = true) (hlen : (l.filter p).length = (l.filter q).length) :
    ∀ x ∈ l, q x = true → p x = true := by
  intro x hx hq
  have hsub : (l.filter p).Sublist (l.filter q) := List.monotone_filter_right l himp
  have hmem : x ∈ l.filter p := by
    rw [hsub.eq_of_length hlen]
    exact List.mem_filter.2 ⟨hx, hq⟩
  exact (List.mem_filter.1 hmem).2

section Maps

variable {k : String} {c : Chan} {subs : Subscribers Chan}

theorem length_keys (subs : Subscribers Chan) : subs.keys.length = subs.entries.length :=
  List.length_map _

theorem length_insert_of_mem (h : k ∈ subs) :
    (subs.insert k c).entries.length = subs.entries.length := by
  have hmem := AList.mem_keys.1 h
  have hpos := List.length_pos_of_mem hmem
  rw [← length_keys, AList.keys_insert, List.length_cons, List.length_erase_of_mem hmem,
    ← length_keys]
  omega

theorem erase_entries (k : String) (subs : Subscribers Chan) :
    (subs.erase k).entries = subs.entries.filter fun e => e.1 ≠ k := by
  change subs.entries.kerase k = _
  have hnd := subs.nodupKeys
  generalize subs.entries = l at hnd
  induction l with
  | nil => rfl
  | cons e l ih =>
    obtain ⟨hne, hl⟩ := List.nodupKeys_cons.1 hnd
    by_cases he : k = e.1
    · rw [List.kerase_cons_eq he, List.filter_cons_of_neg (by simp [he])]
      symm
      rw [List.filter_eq_self]
      intro e' he'
      have hmem : e'.1 ∈ l.keys := List.mem_map_of_mem he'
      simpa [he] using fun h : e'.1 = e.1 => hne (h ▸ hmem)
    · rw [List.kerase_cons_ne he, List.filter_cons_of_pos (by simpa using Ne.symm he), ih hl]

end Maps

/-- The entry the table should hold for a subscription. -/
def Subscription.entry (l : Subscription Chan) : Sigma fun _ : String => Chan :=
  ⟨subscriptionIdentifier l.id, l.channel⟩

/-- The table holds the live subscriptions, each under its own identifier. -/
def Table.Agrees (t : Table Chan) : Prop :=
  ∀ s ty, (t.manager.subscribers s ty).entries.Perm ((t.liveFor s ty).map Subscription.entry)

/-- What a call has to meet for the table to stay exact. -/
def Table.Meets (t : Table Chan) : Call Chan → Prop
  | .subscribeTo s ty _ now => ∀ l ∈ t.liveFor s ty,
      Plain s ty ∧ l.now.toUInt64.toUInt32 ≠ now.toUInt64.toUInt32
  | .unSubscribeFrom id =>
      (∀ l ∈ t.live, l.id = id → Plain l.sessionID l.msgType) ∧
      ∀ l ∈ t.live, unwrap id = .ok (l.sessionID, l.msgType, l.now.toUInt64.toUInt32.toNat.repr) →
        l.id = id

theorem Table.mem_liveFor {t : Table Chan} {s : String} {ty : MessageType} {l : Subscription Chan} :
    l ∈ t.liveFor s ty ↔ l ∈ t.live ∧ l.sessionID = s ∧ l.msgType = ty := by
  simp [Table.liveFor]

theorem Table.Agrees.exact {t : Table Chan} (h : t.Agrees) : t.Exact := by
  intro s ty
  have := (h s ty).map Sigma.snd
  simpa [SubscriptionManager.getSubscribers, Function.comp_def, Subscription.entry] using this

theorem Table.Agrees.length {t : Table Chan} (h : t.Agrees) (s : String) (ty : MessageType) :
    (t.manager.subscribers s ty).entries.length = (t.liveFor s ty).length := by
  simpa using (h s ty).length_eq

theorem Table.Exact.length {t : Table Chan} (h : t.Exact) (s : String) (ty : MessageType) :
    (t.manager.subscribers s ty).entries.length = (t.liveFor s ty).length := by
  simpa [SubscriptionManager.getSubscribers] using (h s ty).length_eq

theorem Table.Agrees.mem {t : Table Chan} (h : t.Agrees) {s k : String} {ty : MessageType} :
    k ∈ t.manager.subscribers s ty ↔ ∃ l ∈ t.liveFor s ty, subscriptionIdentifier l.id = k := by
  rw [AList.mem_keys, AList.keys, List.keys, ((h s ty).map Sigma.fst).mem_iff]
  simp [Subscription.entry]

theorem Table.liveFor_subscribeTo (t : Table Chan) (s s' : String) (ty ty' : MessageType) (c : Chan)
    (now : Int64) :
    (t.call (.subscribeTo s ty c now)).liveFor s' ty' =
      t.liveFor s' ty' ++ if s' = s ∧ ty' = ty then [⟨s, ty, now, c⟩] else [] := by
  by_cases h : s' = s ∧ ty' = ty
  · obtain ⟨rfl, rfl⟩ := h
    simp [Table.call, Table.liveFor]
  · have h' : ¬ (s = s' ∧ ty = ty') := fun he => h ⟨he.1.symm, he.2.symm⟩
    simp [Table.call, Table.liveFor, h, h']

theorem Table.liveFor_unSubscribeFrom (t : Table Chan) (id s : String) (ty : MessageType) :
    (t.call (.unSubscribeFrom id)).liveFor s ty = (t.liveFor s ty).filter fun l => l.id ≠ id := by
  simp only [Table.call, Table.liveFor, List.filter_filter]
  congr 1
  funext l
  exact Bool.and_comm _ _

theorem Table.init_agrees : (Table.empty : Table Chan).Agrees := by
  intro s ty
  simp [Table.empty, Table.liveFor]

section Subscribe

variable {t : Table Chan} {s : String} {ty : MessageType} {c : Chan} {now : Int64}

theorem meets_subscribeTo_iff (h : t.Agrees) :
    t.Meets (.subscribeTo s ty c now) ↔
      subscriptionIdentifier (newSubscriptionID s ty now) ∉ t.manager.subscribers s ty := by
  rw [h.mem]
  constructor
  · rintro hm ⟨l, hl, hid⟩
    obtain ⟨-, rfl, rfl⟩ := Table.mem_liveFor.1 hl
    obtain ⟨hp, hne⟩ := hm l hl
    exact hne ((identifier_eq_iff _ _ _ _).1 hid hp)
  · intro hfree l hl
    by_contra hno
    refine hfree ⟨l, hl, ?_⟩
    obtain ⟨-, rfl, rfl⟩ := Table.mem_liveFor.1 hl
    refine (identifier_eq_iff _ _ _ _).2 fun hp => ?_
    by_contra hne
    exact hno ⟨hp, hne⟩

theorem subscribers_subscribeTo (s' : String) (ty' : MessageType) :
    (t.call (.subscribeTo s ty c now)).manager.subscribers s' ty' =
      if s' = s ∧ ty' = ty then
        (t.manager.subscribers s ty).insert
          (subscriptionIdentifier (newSubscriptionID s ty now)) c
      else t.manager.subscribers s' ty' :=
  SubscriptionManager.subscribers_assign _ _ _ _ _ _

theorem agrees_subscribeTo (h : t.Agrees) (hm : t.Meets (.subscribeTo s ty c now)) :
    (t.call (.subscribeTo s ty c now)).Agrees := by
  have hfree := (meets_subscribeTo_iff h).1 hm
  intro s' ty'
  rw [subscribers_subscribeTo, Table.liveFor_subscribeTo]
  by_cases he : s' = s ∧ ty' = ty
  · obtain ⟨rfl, rfl⟩ := he
    rw [if_pos ⟨rfl, rfl⟩, if_pos ⟨rfl, rfl⟩, AList.entries_insert_of_notMem hfree, List.map_append]
    exact ((h s' ty').cons _).trans (List.perm_append_singleton _ _).symm
  · rw [if_neg he, if_neg he, List.append_nil]
    exact h s' ty'

theorem meets_of_exact_subscribeTo (h : t.Agrees)
    (hex : (t.call (.subscribeTo s ty c now)).Exact) : t.Meets (.subscribeTo s ty c now) := by
  rw [meets_subscribeTo_iff h]
  intro hmem
  -- the new subscription replaces a live one, so the table does not grow
  have hlen := hex.length s ty
  rw [subscribers_subscribeTo, Table.liveFor_subscribeTo, if_pos ⟨rfl, rfl⟩, if_pos ⟨rfl, rfl⟩,
    length_insert_of_mem hmem, h.length, List.length_append] at hlen
  simp at hlen

end Subscribe

section UnSubscribe

variable {t : Table Chan} {id : String}

theorem Subscription.identifier_eq {l : Subscription Chan} (h : Plain l.sessionID l.msgType) :
    subscriptionIdentifier l.id = l.now.toUInt64.toUInt32.toNat.repr :=
  identifier_of_plain h l.now

theorem Subscription.unwrap_plain {l : Subscription Chan} (h : Plain l.sessionID l.msgType) :
    unwrap l.id = .ok (l.sessionID, l.msgType, l.now.toUInt64.toUInt32.toNat.repr) :=
  unwrap_of_plain h l.now

theorem Subscription.unwrap_not_plain {l : Subscription Chan} (h : ¬ Plain l.sessionID l.msgType) :
    ∃ err, unwrap l.id = .error err :=
  unwrap_of_not_plain h l.now

theorem unSubscribeFrom_error {err : UnwrapError} (he : unwrap id = .error err) :
    t.manager.unSubscribeFrom id = t.manager := by
  simp [SubscriptionManager.unSubscribeFrom, he]

theorem subscribers_unSubscribeFrom {s i : String} {ty : MessageType}
    (hu : unwrap id = .ok (s, ty, i)) (s' : String) (ty' : MessageType) :
    ((t.manager.unSubscribeFrom id).subscribers s' ty').entries =
      (t.manager.subscribers s' ty').entries.filter
        fun e => ¬ (s' = s ∧ ty' = ty ∧ e.1 = i) := by
  simp only [SubscriptionManager.unSubscribeFrom, hu]
  split_ifs with hi
  · rw [SubscriptionManager.subscribers_assign]
    split_ifs with he
    · obtain ⟨rfl, rfl⟩ := he
      simp [erase_entries]
    · symm
      rw [List.filter_eq_self]
      intro e _
      exact decide_eq_true fun h => he ⟨h.1, h.2.1⟩
  · symm
    rw [List.filter_eq_self]
    intro e hmem
    refine decide_eq_true ?_
    rintro ⟨rfl, rfl, rfl⟩
    exact hi (AList.mem_keys.2 (List.mem_map_of_mem hmem))

theorem Subscription.unwrap_id {l : Subscription Chan} {s i : String} {ty : MessageType}
    (hu : unwrap l.id = .ok (s, ty, i)) :
    l.sessionID = s ∧ l.msgType = ty ∧ subscriptionIdentifier l.id = i := by
  have hi : subscriptionIdentifier l.id = i := by
    unfold subscriptionIdentifier
    rw [hu]
  by_cases hp : Plain l.sessionID l.msgType
  · rw [Subscription.unwrap_plain hp] at hu
    cases hu
    exact ⟨rfl, rfl, hi⟩
  · obtain ⟨err, herr⟩ := Subscription.unwrap_not_plain hp
    rw [herr] at hu
    cases hu

/-- The subscription `Unwrap` finds in an ID, in the words of the condition. -/
theorem unwrap_eq_of_identifier {l : Subscription Chan} {s i : String} {ty : MessageType}
    (hu : unwrap id = .ok (s, ty, i)) (hs : l.sessionID = s) (ht : l.msgType = ty)
    (hi : subscriptionIdentifier l.id = i) :
    unwrap id = .ok (l.sessionID, l.msgType, l.now.toUInt64.toUInt32.toNat.repr) := by
  subst hs ht hi
  rw [hu, Subscription.identifier_eq (plain_of_unwrap hu)]

theorem not_live_of_unwrap_error {err : UnwrapError} (he : unwrap id = .error err)
    (hm : t.Meets (.unSubscribeFrom id)) : ∀ l ∈ t.live, l.id ≠ id := by
  intro l hl hid
  have hp := Subscription.unwrap_plain (hm.1 l hl hid)
  rw [hid, he] at hp
  cases hp

theorem agrees_unSubscribeFrom (h : t.Agrees) (hm : t.Meets (.unSubscribeFrom id)) :
    (t.call (.unSubscribeFrom id)).Agrees := by
  intro s' ty'
  rw [Table.liveFor_unSubscribeFrom]
  cases hu : unwrap id with
  | error err =>
    have hnot := not_live_of_unwrap_error hu hm
    rw [List.filter_eq_self.2 fun l hl => by simpa using hnot l (Table.mem_liveFor.1 hl).1]
    simpa [Table.call, unSubscribeFrom_error hu] using h s' ty'
  | ok r =>
    obtain ⟨s, ty, i⟩ := r
    have hiff : ∀ l ∈ t.liveFor s' ty',
        (¬ (s' = s ∧ ty' = ty ∧ l.entry.1 = i)) ↔ l.id ≠ id := by
      intro l hl
      obtain ⟨hlive, rfl, rfl⟩ := Table.mem_liveFor.1 hl
      refine not_congr ⟨fun ⟨hs, ht, hi⟩ => ?_, fun hid => ?_⟩
      · exact hm.2 l hlive (unwrap_eq_of_identifier hu hs ht hi)
      · exact Subscription.unwrap_id (hid ▸ hu)
    change ((t.manager.unSubscribeFrom id).subscribers s' ty').entries.Perm _
    rw [subscribers_unSubscribeFrom hu]
    refine ((h s' ty').filter _).trans (.of_eq ?_)
    rw [List.filter_map]
    congr 1
    exact List.filter_congr fun l hl => decide_eq_decide.2 (hiff l hl)

theorem meets_of_exact_unSubscribeFrom (h : t.Agrees)
    (hex : (t.call (.unSubscribeFrom id)).Exact) : t.Meets (.unSubscribeFrom id) := by
  have hlen : ∀ s ty, ((t.manager.unSubscribeFrom id).subscribers s ty).entries.length =
      ((t.liveFor s ty).filter fun l => l.id ≠ id).length := fun s ty => by
    rw [← Table.liveFor_unSubscribeFrom]
    exact hex.length s ty
  refine ⟨fun l hl hid => ?_, fun l hl hu => ?_⟩
  · -- an ID that cannot be read back leaves its subscription in the table
    by_contra hp
    obtain ⟨err, herr⟩ := Subscription.unwrap_not_plain hp
    have := hlen l.sessionID l.msgType
    rw [unSubscribeFrom_error (hid ▸ herr), h.length] at this
    have hall := List.length_filter_eq_length_iff.1 this.symm l
      (Table.mem_liveFor.2 ⟨hl, rfl, rfl⟩)
    simp [hid] at hall
  · -- the subscription that is found loses its place, so its ID must be the one given
    by_contra hid
    have hfound := hlen l.sessionID l.msgType
    rw [subscribers_unSubscribeFrom hu, ((h _ _).filter _).length_eq, List.filter_map,
      List.length_map] at hfound
    refine absurd ?_ hid
    have hmem := Table.mem_liveFor.2 ⟨hl, rfl, rfl⟩
    have hall := filter_imp_of_length (fun l' hne => ?_) hfound l hmem (by simpa using hid)
    · simp [Subscription.entry, Subscription.identifier_eq (plain_of_unwrap hu)] at hall
    · refine decide_eq_true fun hid' => of_decide_eq_true hne ?_
      exact ⟨rfl, rfl, (Subscription.unwrap_id (hid' ▸ hu)).2.2⟩

end UnSubscribe

theorem agrees_step {t t' : Table Chan} {c : Call Chan} (h : t.Agrees) (hm : t.Meets c)
    (hs : t.step c = some t') : t'.Agrees := by
  obtain rfl := Option.some.inj hs
  cases c with
  | subscribeTo s ty c now => exact agrees_subscribeTo h hm
  | unSubscribeFrom id => exact agrees_unSubscribeFrom h hm

theorem meets_of_exact_step {t t' : Table Chan} {c : Call Chan} (h : t.Agrees)
    (hs : t.step c = some t') (hex : t'.Exact) : t.Meets c := by
  obtain rfl := Option.some.inj hs
  cases c with
  | subscribeTo s ty c now => exact meets_of_exact_subscribeTo h hex
  | unSubscribeFrom id => exact meets_of_exact_unSubscribeFrom h hex

/-- The table is exact after every call of a sequence exactly when every call meets the
condition. -/
theorem exact_throughout_iff (calls : List (Call Chan)) :
    Throughout Table.step Table.Exact Table.empty calls ↔
      Along Table.step Table.Meets Table.empty calls :=
  throughout_iff_along (fun _ => Table.Agrees.exact)
    (fun _ _ _ h hs hex => meets_of_exact_step h hs hex)
    (fun _ _ _ h hm hs => agrees_step h hm hs) (fun _ _ h => by cases h) Table.init_agrees

/-- Both subscriptions are stored under the empty identifier and the first one is lost; and the
ID of a subscription of the session cannot be used to end it. -/
theorem inexact_with_dash :
    let twice : List (Call String) := [.subscribeTo "keygen-100" 0 "a" 1000,
      .subscribeTo "keygen-100" 0 "b" 2000]
    let ended : List (Call String) := [.subscribeTo "keygen-100" 0 "a" 1000,
      .unSubscribeFrom (newSubscriptionID "keygen-100" 0 1000)]
    (exec Table.step Table.empty twice).map (fun t =>
      (t.manager.getSubscribers "keygen-100" 0, (t.liveFor "keygen-100" 0).map (·.channel))) =
        some (["b"], ["a", "b"]) ∧
    (exec Table.step Table.empty ended).map (fun t =>
      (t.manager.getSubscribers "keygen-100" 0, (t.liveFor "keygen-100" 0).map (·.channel))) =
        some (["a"], []) := by
  decide

end Sygma.Comm
