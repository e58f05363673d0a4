import SygmaRelayer.Proofs.Delivery
import SygmaRelayer.Proofs.SubscriptionTable

/-! What an ECDSA party is updated with. A process has a channel of its own for the messages of its
session, so each call of `UpdateFromBytes` that names the party of an honest peer is for a message
that the peer's own party put out and that its process addressed to this relayer. -/

namespace Sygma.Delivery

open Framing Comm Runs PartyStore

variable {Chan : Type} {p q : PeerID} {sessionID : String}
  {msgType : MessageType} {c : Chan} {s s' : State Chan}

/-! ### The channel of a process -/

/-- The relayer subscribes the channel for these messages only. -/
def SubscribesFor (q : PeerID) (sessionID : String) (msgType : MessageType) (c : Chan) :
    Event Chan → Prop
  | .subscribe host sid t channel _ => host = q → channel = c → sid = sessionID ∧ t = msgType
  | _ => True

/-- Only these messages come to the channel. -/
structure Dedicated (q : PeerID) (sessionID : String) (msgType : MessageType) (c : Chan)
    (s : State Chan) : Prop where
  subscribed : ∀ sid t, c ∈ (s.managers q).getSubscribers sid t → sid = sessionID ∧ t = msgType
  handing : ∀ m, (q, c, m) ∈ s.handing → m.sessionID = sessionID ∧ m.messageType = msgType
  received : ∀ m ∈ s.received q c, m.sessionID = sessionID ∧ m.messageType = msgType

theorem getSubscribers_subscribeTo {m : SubscriptionManager Chan} {sid sid' : String}
    {t t' : MessageType} {channel : Chan} {now : Int64}
    (h : c ∈ (m.subscribeTo sid t channel now).1.getSubscribers sid' t') :
    c ∈ m.getSubscribers sid' t' ∨ (channel = c ∧ sid' = sid ∧ t' = t) := by
  simp only [SubscriptionManager.getSubscribers, SubscriptionManager.subscribeTo,
    SubscriptionManager.subscribers_assign] at h ⊢
  split_ifs at h with heq
  · obtain ⟨rfl, rfl⟩ := heq
    rw [AList.entries_insert, List.map_cons, List.mem_cons] at h
    rcases h with rfl | h
    · exact Or.inr ⟨rfl, rfl, rfl⟩
    · left
      obtain ⟨e, he, rfl⟩ := List.mem_map.1 h
      exact List.mem_map.2 ⟨e, (List.kerase_sublist _ _).subset he, rfl⟩
  · exact Or.inl h

/-- The event subscribes the channel. -/
def subscribes (q : PeerID) (c : Chan) [DecidableEq Chan] : Event Chan → Bool
  | .subscribe host _ _ channel _ => host = q ∧ channel = c
  | _ => false

theorem getSubscribers_unSubscribeFrom (m : SubscriptionManager Chan) (sid id : String)
    (t : MessageType) :
    ((m.unSubscribeFrom id).getSubscribers sid t).Sublist (m.getSubscribers sid t) := by
  unfold SubscriptionManager.unSubscribeFrom
  split
  · exact List.Sublist.refl _
  · split_ifs
    · simp only [SubscriptionManager.getSubscribers, SubscriptionManager.subscribers_assign]
      split_ifs with heq
      · obtain ⟨rfl, rfl⟩ := heq
        rw [erase_entries]
        exact List.filter_sublist.map _
      · exact List.Sublist.refl _
    · exact List.Sublist.refl _

theorem Dedicated.setManager (h : Dedicated q sessionID msgType c s) {host : PeerID}
    {m : SubscriptionManager Chan}
    (hm : host = q → ∀ sid t, c ∈ m.getSubscribers sid t → sid = sessionID ∧ t = msgType) :
    Dedicated q sessionID msgType c (s.setManager host m) where
  subscribed sid t hc := by
    by_cases hq : q = host
    · subst hq
      simp only [State.setManager, Function.update_self] at hc
      exact hm rfl sid t hc
    · simp only [State.setManager, Function.update_of_ne hq] at hc
      exact h.subscribed sid t hc
  handing := h.handing
  received := h.received

theorem dedicated_init : Dedicated q sessionID msgType c (init : State Chan) where
  subscribed sid t h := by cases h
  handing m hm := by cases hm
  received m hm := by cases hm

variable [DecidableEq Chan]

theorem mem_handingTo {m : WrappedMessage} {handing : List (PeerID × Chan × WrappedMessage)} :
    m ∈ handingTo q c handing ↔ (q, c, m) ∈ handing := by
  simp [handingTo, and_assoc]

theorem dedicated_step {e : Event Chan} (h : Dedicated q sessionID msgType c s)
    (hG : SubscribesFor q sessionID msgType c e) (hs : Step s e s') :
    Dedicated q sessionID msgType c s' := by
  cases hs with
  | broadcast | write | inject | undecoded => exact ⟨h.subscribed, h.handing, h.received⟩
  | decoded =>
    refine ⟨h.subscribed, fun m hm => ?_, h.received⟩
    rcases List.mem_append.1 hm with hm | hm
    · exact h.handing m hm
    · obtain ⟨sub, hsub, heq⟩ := List.mem_map.1 hm
      cases heq
      exact h.subscribed _ _ hsub
  | @hand i host channel m hi =>
    have hmem := List.mem_of_getElem? hi
    refine ⟨h.subscribed, fun m' hm' => h.handing m' (List.mem_of_mem_eraseIdx hm'),
      fun m' hm' => ?_⟩
    dsimp only at hm'
    rw [received_hand] at hm'
    rcases List.mem_append.1 hm' with hm' | hm'
    · exact h.received m' hm'
    · cases List.mem_singleton.1 (mem_handingTo.1 hm')
      exact h.handing m hmem
  | subscribe =>
    refine h.setManager fun hq sid' t' hc => ?_
    subst hq
    rcases getSubscribers_subscribeTo hc with hc | ⟨hchannel, rfl, rfl⟩
    · exact h.subscribed sid' t' hc
    · exact hG rfl hchannel
  | unSubscribe =>
    refine h.setManager fun hq sid t hc => ?_
    subst hq
    exact h.subscribed sid t ((getSubscribers_unSubscribeFrom _ _ _ _).subset hc)

/-- The channel is subscribed at most as often as it was asked for. -/
def Bounded (q : PeerID) (c : Chan) (past : List (Event Chan)) (s : State Chan) : Prop :=
  ∀ sid t, ((s.managers q).getSubscribers sid t).count c ≤ past.countP (subscribes q c)

theorem count_subscribeTo (m : SubscriptionManager Chan) (sid sid' : String) (t t' : MessageType)
    (channel : Chan) (now : Int64) :
    ((m.subscribeTo sid t channel now).1.getSubscribers sid' t').count c ≤
      (m.getSubscribers sid' t').count c + if channel = c then 1 else 0 := by
  simp only [SubscriptionManager.getSubscribers, SubscriptionManager.subscribeTo,
    SubscriptionManager.subscribers_assign]
  split_ifs with heq hc hc
  · obtain ⟨rfl, rfl⟩ := heq
    rw [AList.entries_insert, List.map_cons, List.count_cons, if_pos (by simp [hc])]
    exact Nat.add_le_add_right (((List.kerase_sublist _ _).map _).count_le c) 1
  · obtain ⟨rfl, rfl⟩ := heq
    rw [AList.entries_insert, List.map_cons, List.count_cons, if_neg (by simp [hc])]
    exact ((List.kerase_sublist _ _).map _).count_le c
  · exact Nat.le_add_right _ _
  · exact Nat.le_add_right _ _

theorem Bounded.later {past : List (Event Chan)} {e : Event Chan} (h : Bounded q c past s)
    (hmanagers : s'.managers = s.managers) : Bounded q c (past ++ [e]) s' := by
  intro sid t
  rw [hmanagers, List.countP_append]
  exact (h sid t).trans (Nat.le_add_right _ _)

theorem bounded_step {past : List (Event Chan)} {e : Event Chan} (h : Bounded q c past s)
    (hs : Step s e s') : Bounded q c (past ++ [e]) s' := by
  cases hs with
  | broadcast | write | inject | undecoded | decoded | hand => exact h.later rfl
  | @subscribe host _ _ channel =>
    intro sid' t'
    have hpast := h sid' t'
    rw [List.countP_append]
    by_cases hq : q = host
    · subst hq
      simp only [State.setManager, Function.update_self]
      refine (count_subscribeTo _ _ _ _ _ _ _).trans (Nat.add_le_add hpast ?_)
      by_cases hc : channel = c
      · simp [hc, subscribes]
      · simp [hc]
    · simp only [State.setManager, Function.update_of_ne hq]
      exact hpast.trans (Nat.le_add_right _ _)
  | @unSubscribe host id =>
    intro sid t
    have hpast := h sid t
    rw [List.countP_append]
    by_cases hq : q = host
    · subst hq
      simp only [State.setManager, Function.update_self]
      have hle := (getSubscribers_unSubscribeFrom (s.managers q) sid id t).count_le c
      exact (hle.trans hpast).trans (Nat.le_add_right _ _)
    · simp only [State.setManager, Function.update_of_ne hq]
      exact hpast.trans (Nat.le_add_right _ _)

theorem heard_eq {e : Event Chan} {r : WrappedMessage × ℕ} (h : r ∈ heard p q c s e) :
    ∃ sid t, r.2 = ((s.managers q).getSubscribers sid t).count c := by
  unfold heard at h
  split at h
  · split_ifs at h
    · split at h
      · cases h
      · split at h
        · cases h
        · obtain rfl := List.mem_singleton.1 h
          exact ⟨_, _, rfl⟩
    · cases h
  · cases h

theorem heard_le_one {es : List (Event Chan)} (h : exec step init es = some s)
    (honce : es.countP (subscribes q c) ≤ 1) : ∀ e ∈ reads p q c es, e.2 ≤ 1 := by
  intro e he
  obtain ⟨pre, e', post, m, n, rfl, hpre, -, -, hheard⟩ := (mem_outputs_iff h).1 he
  have hbounded : Bounded q c ([] ++ pre) m :=
    exec_history (fun _ _ _ _ hs _ hstep => bounded_step hs (step_cases hstep)) (fun _ _ => Nat.zero_le _)
      along_true hpre
  rw [List.countP_append] at honce
  have hcount : ∀ sid t, ((m.managers q).getSubscribers sid t).count c ≤ 1 :=
    fun sid t => (hbounded sid t).trans (le_of_add_le_left honce)
  obtain ⟨sid, t, heq⟩ := heard_eq hheard
  rw [heq]
  exact hcount sid t

theorem copies_sublist {reads : List (WrappedMessage × ℕ)} (h : ∀ e ∈ reads, e.2 ≤ 1) :
    (copies reads).Sublist (reads.map Prod.fst) := by
  induction reads with
  | nil => exact List.Sublist.slnil
  | cons e reads ih =>
    obtain ⟨he, hreads⟩ := List.forall_mem_cons.1 h
    have hfirst : (List.replicate e.2 e.1).Sublist [e.1] :=
      (List.replicate_sublist_replicate e.1).2 he
    exact hfirst.append (ih hreads)

/-! ### The messages of the other process -/

/-- What the peer broadcasts for the session are messages of its process, which may be run again
with other peers. -/
def SendsOutbound (p : PeerID) (sessionID : String) (msgType : MessageType) : Event Chan → Prop
  | .broadcast hostID to' msg t sid _ => hostID = p → sid = sessionID → t = msgType →
      ∃ (peers : List PeerID) (out : OutMessage),
        to' = broadcastPeers peers out ∧ msg = outboundPayload out
  | _ => True

/-- The process of `p` has put out the message and addressed it to `q`. -/
def PutOut (p q : PeerID) (sessionID : String) (msgType : MessageType) (es : List (Event Chan))
    (out : OutMessage) : Prop :=
  ∃ peers stream, .broadcast p (broadcastPeers peers out) (outboundPayload out) msgType sessionID
    stream ∈ es ∧ q ∈ broadcastPeers peers out

/-- A message of the session on its way is one that the process addressed to the receiver. -/
def Outbound (p : PeerID) (sessionID : String) (msgType : MessageType) (past : List (Event Chan))
    (s : State Chan) : Prop :=
  ∀ x ∈ s.sends, x.link.sender = p → x.wMsg.sessionID = sessionID → x.wMsg.messageType = msgType →
    ∃ out, PutOut p x.link.receiver sessionID msgType past out ∧
      x.wMsg.payload = outboundPayload out

omit [DecidableEq Chan] in
theorem Outbound.later {past : List (Event Chan)} {e : Event Chan}
    (h : Outbound p sessionID msgType past s) (hsends : s'.sends = s.sends) :
    Outbound p sessionID msgType (past ++ [e]) s' := by
  intro x hx hp hsid ht
  rw [hsends] at hx
  obtain ⟨out, ⟨peers, stream, hmem, hq⟩, hpayload⟩ := h x hx hp hsid ht
  exact ⟨out, ⟨peers, stream, List.mem_append_left _ hmem, hq⟩, hpayload⟩

theorem outbound_step {past : List (Event Chan)} {e : Event Chan}
    (h : Outbound p sessionID msgType past s) (hG : SendsOutbound p sessionID msgType e)
    (hs : Step s e s') : Outbound p sessionID msgType (past ++ [e]) s' := by
  cases hs with
  | @broadcast hostID _ _ t sid stream =>
    intro x hx hp hsid ht
    rcases List.mem_append.1 hx with hx | hx
    · exact h.later rfl x hx hp hsid ht
    · obtain ⟨peerID, hpeer, hx⟩ := List.mem_filterMap.1 hx
      split_ifs at hx
      obtain ⟨number, -, rfl⟩ := Option.map_eq_some_iff.1 hx
      obtain ⟨peers, out, rfl, rfl⟩ := hG hp hsid ht
      obtain ⟨rfl, rfl, rfl⟩ : hostID = p ∧ sid = sessionID ∧ t = msgType := ⟨hp, hsid, ht⟩
      exact ⟨out, ⟨peers, stream, by simp, hpeer⟩, rfl⟩
  | @write i x _ x' hx hwrite =>
    obtain ⟨-, hlink, hmsg⟩ := Send.write_eq_some hwrite
    have hlater : Outbound p sessionID msgType (past ++ [.write i]) s := h.later rfl
    intro y hy
    rcases List.mem_or_eq_of_mem_set hy with hy | rfl
    · exact hlater y hy
    · rw [hlink, hmsg]
      exact hlater x (List.mem_of_getElem? hx)
  | inject | undecoded | decoded | hand | subscribe | unSubscribe => exact h.later rfl

/-! ### Updates -/

/-- The updates follow the first messages of the channel, one for each. -/
theorem processInboundMessages_eq (partyStore : PeerID → Option PartyID)
    (accepts : List Update → Update → Bool) (past : List Update) (msgs : List WrappedMessage) :
    ∃ front updates, front <+: msgs ∧
      processInboundMessages partyStore accepts past msgs = past ++ updates ∧
      List.Forall₂ (fun m u => Wire.unmarshalTssMessage m.payload = some ⟨u.wireBytes, u.isBroadcast⟩ ∧
        u.sender = partyStore m.fromPeer) front updates := by
  induction msgs generalizing past with
  | nil => exact ⟨[], [], List.prefix_rfl, (List.append_nil past).symm, .nil⟩
  | cons m msgs ih =>
    unfold processInboundMessages
    cases hmsg : Wire.unmarshalTssMessage m.payload with
    | none => exact ⟨[], [], List.nil_prefix, (List.append_nil past).symm, .nil⟩
    | some msg =>
      set u : Update := ⟨msg.msgBytes, partyStore m.fromPeer, msg.isBroadcast⟩
      dsimp only
      split_ifs
      · obtain ⟨front, updates, hfront, heq, hupdates⟩ := ih (past ++ [u])
        exact ⟨m :: front, u :: updates, (List.prefix_cons_inj m).2 hfront,
          heq.trans (List.append_assoc past [u] updates),
          .cons ⟨hmsg, rfl⟩ hupdates⟩
      · exact ⟨[m], [u], by simp, rfl, .cons ⟨hmsg, rfl⟩ .nil⟩

/-- The payload that gives an update. -/
def updatePayload (u : Update) : Option (List UInt8) :=
  some (Wire.marshalTssMessage u.wireBytes u.isBroadcast)

theorem update_of_outbound {out : OutMessage} {u : Update}
    (h : Wire.unmarshalTssMessage (outboundPayload out) = some ⟨u.wireBytes, u.isBroadcast⟩) :
    u.wireBytes = some out.wireBytes ∧ u.isBroadcast = out.isBroadcast := by
  rw [outboundPayload, Wire.unmarshalTssMessage_marshal] at h
  obtain ⟨hbytes, hflag⟩ : some out.wireBytes = u.wireBytes ∧ out.isBroadcast = u.isBroadcast := by
    simpa using h
  exact ⟨hbytes.symm, hflag.symm⟩

omit [DecidableEq Chan] in
/-- The updates for the messages of one peer, if each message of the peer is one of its process. -/
theorem updates_of_peer {es : List (Event Chan)} {partyStore : PeerID → Option PartyID} {P : PartyID}
    (hstore : ∀ r, partyStore r = some P ↔ r = p) {front : List WrappedMessage}
    {updates : List Update}
    (hupdates : List.Forall₂ (fun m u => Wire.unmarshalTssMessage m.payload =
      some ⟨u.wireBytes, u.isBroadcast⟩ ∧ u.sender = partyStore m.fromPeer) front updates)
    (hfront : ∀ m ∈ fromPeer p front, ∃ out, PutOut p q sessionID msgType es out ∧
      m.payload = outboundPayload out) :
    (updates.filter fun u => u.sender = some P).map updatePayload =
        (fromPeer p front).map (fun m => m.payload) ∧
      ∀ u ∈ updates, u.sender = some P → ∃ out, PutOut p q sessionID msgType es out ∧
        u.wireBytes = some out.wireBytes ∧ u.isBroadcast = out.isBroadcast := by
  induction hupdates with
  | nil => exact ⟨rfl, by simp⟩
  | @cons m u front updates hm _ ih =>
    have hsub : fromPeer p front ⊆ fromPeer p (m :: front) :=
      List.filter_subset _ (List.subset_cons_self m front)
    obtain ⟨hmap, hall⟩ := ih fun m' hm' => hfront m' (hsub hm')
    have hsender : u.sender = some P ↔ m.fromPeer = p := by rw [hm.2, hstore]
    by_cases hp : m.fromPeer = p
    · obtain ⟨out, hq, hpayload⟩ := hfront m (by simp [fromPeer, hp])
      obtain ⟨hbytes, hflag⟩ := update_of_outbound (hpayload ▸ hm.1)
      have hu : updatePayload u = m.payload := by
        rw [hpayload, updatePayload, hbytes, hflag, outboundPayload]
      refine ⟨?_, ?_⟩
      · simpa [fromPeer, hsender, hp, hu] using hmap
      · intro u' hu' hP
        rcases List.mem_cons.1 hu' with rfl | hu'
        · exact ⟨out, hq, hbytes, hflag⟩
        · exact hall u' hu' hP
    · refine ⟨?_, ?_⟩
      · simpa [fromPeer, hsender, hp] using hmap
      · intro u' hu' hP
        rcases List.mem_cons.1 hu' with rfl | hu'
        · exact absurd (hsender.1 hP) hp
        · exact hall u' hu' hP

/-- The payloads of a session and a message type. -/
def payloads (sessionID : String) (msgType : MessageType) (msgs : List WrappedMessage) :
    List (Option (List UInt8)) :=
  (msgs.filter fun m => m.sessionID = sessionID ∧ m.messageType = msgType).map fun m => m.payload

theorem payloads_subperm {msgs msgs' : List WrappedMessage} (h : msgs.Subperm msgs') :
    (payloads sessionID msgType msgs).Subperm (payloads sessionID msgType msgs') := by
  obtain ⟨l, hperm, hsub⟩ := h.filter fun m => m.sessionID = sessionID ∧ m.messageType = msgType
  exact ⟨l.map fun m => m.payload, hperm.map _, hsub.map _⟩

omit [DecidableEq Chan] in
theorem Outbound.of_sentTo {past : List (Event Chan)} (h : Outbound p sessionID msgType past s)
    {m : WrappedMessage} (hm : m ∈ sentTo p q s.sends) (hsid : m.sessionID = sessionID)
    (ht : m.messageType = msgType) :
    ∃ out, PutOut p q sessionID msgType past out ∧ m.payload = outboundPayload out := by
  obtain ⟨x, hx, rfl⟩ := List.mem_map.1 hm
  obtain ⟨hx, hlink⟩ := List.mem_filter.1 hx
  obtain ⟨hsender, hreceiver⟩ := of_decide_eq_true hlink
  obtain ⟨out, hout, hpayload⟩ := h x hx hsender hsid ht
  exact ⟨out, hreceiver ▸ hout, hpayload⟩

/-! ### The party store -/

/-- The party of a peer bears its ID. -/
def Keyed (partyStore : PeerID → Option PartyID) : Prop :=
  ∀ r P, partyStore r = some P → P.id = r

theorem keyed_populate {partyStore : PeerID → Option PartyID} (h : Keyed partyStore)
    (parties : List PartyID) : Keyed (populatePartyStore partyStore parties) := by
  unfold populatePartyStore
  induction parties generalizing partyStore with
  | nil => exact h
  | cons party parties ih =>
    apply ih
    intro r P hP
    dsimp only at hP
    by_cases hr : r = party.id
    · rw [hr, Function.update_self] at hP
      cases hP
      exact hr.symm
    · rw [Function.update_of_ne hr] at hP
      exact h r P hP

theorem keyed_run {order : PartyOrder} {host : PeerID} {process : Signing} (h : Keyed process.partyStore)
    (params : Option (List PeerID)) : Keyed (run order host process params).1.partyStore := by
  cases params with
  | none => exact h
  | some peerSubset =>
    simp only [run]
    split_ifs
    · exact keyed_populate h _
    · exact h

theorem keyed_runs {order : PartyOrder} {host : PeerID} {process : Signing}
    (h : Keyed process.partyStore) (params : List (Option (List PeerID))) : Keyed (runs order host process params).partyStore := by
  unfold runs
  induction params generalizing process with
  | nil => exact h
  | cons p params ih => exact ih (keyed_run h p)

theorem keyed_newSigning (keyPeers : List PeerID) : Keyed (newSigning keyPeers).partyStore := by
  intro r P hP
  cases hP

/-- A process has a channel of its own, which it subscribes once, and the honest peer `p` broadcasts
for the session what its party puts out, in one attempt or in several. Whatever `Run`s stored the
parties, each update in the name of the party of `p` is for a message that it put out for this
relayer, and no payload makes more updates than it was sent. -/
theorem updates_from_peer (order : PartyOrder) (keyPeers : List PeerID)
    (params : List (Option (List PeerID))) (accepts : List Update → Update → Bool) {P : PartyID} {es : List (Event Chan)}
    (hP : attributed (runs order q (newSigning keyPeers) params) p = some P)
    (hG : Along step (fun s e => Untorn p q s e ∧ Honest p q e) init es)
    (hown : ∀ e ∈ es, SubscribesFor q sessionID msgType c e)
    (honce : es.countP (subscribes q c) ≤ 1)
    (hout : ∀ e ∈ es, SendsOutbound p sessionID msgType e) (h : exec step init es = some s) :
    let updates := (processInboundMessages (attributed (runs order q (newSigning keyPeers) params)) accepts []
      (s.received q c)).filter fun u => u.sender = some P
    (updates.map updatePayload).Subperm (payloads sessionID msgType (sentTo p q s.sends)) ∧
      ∀ u ∈ updates, ∃ out, PutOut p q sessionID msgType es out ∧
        u.wireBytes = some out.wireBytes ∧ u.isBroadcast = out.isBroadcast := by
  have hkeyed : Keyed (runs order q (newSigning keyPeers) params).partyStore :=
    keyed_runs (keyed_newSigning keyPeers) params
  have hstore : ∀ r, attributed (runs order q (newSigning keyPeers) params) r = some P ↔ r = p :=
    fun r => ⟨fun hr => (hkeyed r P hr).symm.trans (hkeyed p P hP), fun hr => hr ▸ hP⟩
  have hdedicated : Dedicated q sessionID msgType c s :=
    exec_inv (fun _ _ _ hs hG hstep => dedicated_step hs hG (step_cases hstep)) dedicated_init
      (along_of_forall_mem fun e he _ => hown e he) h
  have houtbound : Outbound p sessionID msgType ([] ++ es) s :=
    exec_history (fun _ _ _ _ hs hG hstep => outbound_step hs hG (step_cases hstep)) (fun x hx => by cases hx)
      (along_of_forall_mem fun e he _ => hout e he) h
  -- what came to the channel from the peer was read once, and so it was sent
  have hreceived : (fromPeer p (s.received q c)).Subperm (sentTo p q s.sends) := by
    obtain ⟨transit, htracks⟩ := tracks_exec (c := c) hG h
    have hcopies := copies_sublist (heard_le_one (p := p) h honce)
    exact ((List.sublist_append_left _ _).subperm.trans (handed_exec h).subperm).trans
      (hcopies.subperm.trans htracks.subperm)
  obtain ⟨front, updates, hfront, heq, hupdates⟩ :=
    processInboundMessages_eq (attributed (runs order q (newSigning keyPeers) params)) accepts []
      (s.received q c)
  have hsession : ∀ m ∈ fromPeer p front, m.sessionID = sessionID ∧ m.messageType = msgType :=
    fun m hm => hdedicated.received m (hfront.subset (List.mem_filter.1 hm).1)
  have hsent : (fromPeer p front).Subperm (sentTo p q s.sends) :=
    (hfront.sublist.filter _).subperm.trans hreceived
  obtain ⟨hmap, hall⟩ := updates_of_peer hstore hupdates fun m hm =>
    houtbound.of_sentTo (hsent.subset hm) (hsession m hm).1 (hsession m hm).2
  rw [heq, List.nil_append]
  refine ⟨?_, fun u hu => ?_⟩
  · rw [hmap]
    have hsame : (fromPeer p front).map (fun m => m.payload) =
        payloads sessionID msgType (fromPeer p front) := by
      rw [payloads, List.filter_eq_self.2 (by simpa using hsession)]
    rw [hsame]
    exact payloads_subperm hsent
  · obtain ⟨hu, hP⟩ := List.mem_filter.1 hu
    exact hall u hu (by simpa using hP)

theorem signing_attributed :
    attributed (runs keyOrder "b" (newSigning []) [some ["b", "a"]]) "a" = some ⟨"a", 0⟩ := by
  decide +kernel

theorem updates_from_peer_signing :
    let updates := (processInboundMessages (attributed (runs keyOrder "b" (newSigning []) [some ["b", "a"]]))
      (fun _ _ => true) [] [signingWrapped]).filter fun u => u.sender = some ⟨"a", 0⟩
    updates = [⟨some [1, 2], some ⟨"a", 0⟩, true⟩] ∧ ∀ u ∈ updates, ∃ out,
      PutOut "a" "b" "s" 1 signingEvents out ∧ u.wireBytes = some out.wireBytes ∧
        u.isBroadcast = out.isBroadcast := by
  have hown : ∀ e ∈ signingEvents, SubscribesFor "b" "s" 1 0 e := by
    simp [signingEvents, SubscribesFor]
  have honce : signingEvents.countP (subscribes "b" 0) ≤ 1 := by
    simp [signingEvents, subscribes]
  have hout : ∀ e ∈ signingEvents, SendsOutbound "a" "s" 1 e := by
    simp only [signingEvents, List.forall_mem_cons]
    exact ⟨trivial, fun _ _ _ => ⟨["b", "a"], signingMessage, rfl, rfl⟩, trivial, trivial, trivial,
      by simp⟩
  refine ⟨?_, (updates_from_peer keyOrder [] [some ["b", "a"]] (fun _ _ => true) signing_attributed
    along_signingEvents hown honce hout exec_signingEvents).2⟩
  have hpayload : Wire.unmarshalTssMessage signingWrapped.payload = some ⟨some [1, 2], true⟩ :=
    Wire.unmarshalTssMessage_marshal _ _
  have hsender : attributed (runs keyOrder "b" (newSigning []) [some ["b", "a"]]) signingWrapped.fromPeer =
      some ⟨"a", 0⟩ := signing_attributed
  simp [processInboundMessages, hpayload, hsender]

end Sygma.Delivery
