import SygmaRelayer.Proofs.StreamRoundTrip
import SygmaRelayer.Proofs.WireRoundTrip
import SygmaRelayer.Spec.Delivery

/-! Is a message handed over once, and only if the peer it is attributed to sent it? On a stream of
an honest peer the bytes that were written, with those still to be written of the last
message, are the lines of the messages that have not been read. So each message whose
first `Write` was made is on its stream or has been read, and the reads of a run say how often each
message goes to a channel. -/

namespace Sygma.Delivery

open Framing Comm Runs BufferedReader

variable {Chan : Type}

/-! ### Steps -/

/-- What a step can do. -/
inductive Step [DecidableEq Chan] (s : State Chan) : Event Chan → State Chan → Prop
  | broadcast {hostID peers msg msgType sessionID stream} :
    Step s (.broadcast hostID peers msg msgType sessionID stream)
      { s with sends := s.sends ++ broadcast hostID peers msg msgType sessionID stream }
  | write {i x chunk x'} (hx : s.sends[i]? = some x) (hwrite : x.write = some (chunk, x')) :
    Step s (.write i) { s with sends := s.sends.set i x', unread := s.append x.link chunk }
  | inject {link bytes} : Step s (.inject link bytes) { s with unread := s.append link bytes }
  | undecoded {link msgBytes rest} (hread : readStream (s.unread link) = .ok (msgBytes, rest))
    (hm : unmarshal Wire.decodeWrapped msgBytes = none) :
    Step s (.read link) { s with
      unread := Function.update s.unread link rest
      stopped := Function.update s.stopped link true }
  | decoded {link msgBytes rest m} (hread : readStream (s.unread link) = .ok (msgBytes, rest))
    (hm : unmarshal Wire.decodeWrapped msgBytes = some m) :
    Step s (.read link) { s with
      unread := Function.update s.unread link rest
      handing := s.handing ++ s.handTo link.receiver { m with fromPeer := link.sender } }
  | hand {i host channel m} (hi : s.handing[i]? = some (host, channel, m)) :
    Step s (.hand i) { s with
      handing := s.handing.eraseIdx i
      received := Function.update s.received host
        (Function.update (s.received host) channel (s.received host channel ++ [m])) }
  | subscribe {host sid t channel now} : Step s (.subscribe host sid t channel now)
      (s.setManager host ((s.managers host).subscribeTo sid t channel now).1)
  | unSubscribe {host id} : Step s (.unSubscribe host id)
      (s.setManager host ((s.managers host).unSubscribeFrom id))

theorem step_cases [DecidableEq Chan] {s s' : State Chan} {e : Event Chan}
    (h : step s e = some s') : Step s e s' := by
  cases e with
  | broadcast =>
    cases h
    exact .broadcast
  | write i =>
    obtain ⟨x, hx, h⟩ := Option.bind_eq_some_iff.1 h
    obtain ⟨⟨chunk, x'⟩, hwrite, rfl⟩ := Option.map_eq_some_iff.1 h
    exact .write hx hwrite
  | inject =>
    cases h
    exact .inject
  | read link =>
    simp only [step] at h
    split_ifs at h
    split at h
    · cases h
    · split at h <;> cases h
      · exact .undecoded ‹_› ‹_›
      · exact .decoded ‹_› ‹_›
  | hand i =>
    obtain ⟨⟨host, channel, m⟩, hi, rfl⟩ := Option.map_eq_some_iff.1 h
    exact .hand hi
  | subscribe =>
    cases h
    exact .subscribe
  | unSubscribe =>
    cases h
    exact .unSubscribe

/-! ### Messages on a stream -/

theorem Send.write_eq_some {x x' : Send} {chunk : List UInt8} (h : x.write = some (chunk, x')) :
    x.writes = chunk :: x'.writes ∧ x'.link = x.link ∧ x'.wMsg = x.wMsg := by
  unfold Send.write at h
  split at h
  · cases h
  · cases h
    exact ⟨by assumption, rfl, rfl⟩

theorem writeStream_ne_nil (msg : List UInt8) : writeStream msg ≠ [] := by
  intro h
  have hflat := flatten_bufferedWrites (msg ++ [newline])
  rw [← writeStream, h] at hflat
  simp at hflat

theorem flatten_writes (wMsg : WrappedMessage) : (writeStream (marshal wMsg)).flatten = frame wMsg :=
  flatten_bufferedWrites _

theorem Send.begun_of_write {x x' : Send} {chunk : List UInt8}
    (h : x.write = some (chunk, x')) : x'.Begun := by
  obtain ⟨hwrites, -, hmsg⟩ := Send.write_eq_some h
  have hle := x.suffix.length_le
  intro heq
  rw [hwrites, ← hmsg, ← heq, List.length_cons] at hle
  omega

theorem Send.begun_of_done {x : Send} (h : x.writes = []) : x.Begun := by
  unfold Send.Begun
  rw [h]
  exact (writeStream_ne_nil _).symm

/-- The lines of messages. -/
def lines (msgs : List WrappedMessage) : List UInt8 := msgs.flatMap frame

theorem lines_eq_nil {msgs : List WrappedMessage} (h : lines msgs = []) : msgs = [] := by
  cases msgs with
  | nil => rfl
  | cons wMsg msgs => simp [lines, frame] at h

/-- What is read from a stream that goes on to be lines of messages is the first of them. -/
theorem readStream_lines {unread tail msgBytes rest : List UInt8} {msgs : List WrappedMessage}
    (hlines : unread ++ tail = lines msgs) (hread : readStream unread = .ok (msgBytes, rest)) :
    ∃ wMsg msgs', msgs = wMsg :: msgs' ∧ msgBytes = marshal wMsg ∧ rest ++ tail = lines msgs' := by
  have hmem : newline ∈ unread := by
    by_contra h
    rw [readStream_end h] at hread
    cases hread
  obtain ⟨line, rest', rfl, hline⟩ := List.eq_append_cons_of_mem hmem
  obtain ⟨rfl, rfl⟩ : line = msgBytes ∧ rest' = rest := by
    simpa [readStream_line hline] using hread
  cases msgs with
  | nil => simp [lines] at hlines
  | cons wMsg msgs =>
    have hcut : line ++ newline :: (rest' ++ tail) = marshal wMsg ++ newline :: lines msgs := by
      simpa [lines, frame] using hlines
    obtain ⟨hmsg, hrest⟩ := Reader.cut_unique hline (newline_notMem_marshal wMsg) hcut
    exact ⟨wMsg, msgs, rfl, hmsg, hrest⟩

/-! ### Where the messages are -/

section

variable {p q : PeerID} {c : Chan} {s s' : State Chan}

/-- The stream is one from `p` to `q`. -/
abbrev Link.Between (p q : PeerID) (l : Link) : Prop := l.sender = p ∧ l.receiver = q

/-- The messages on streams from `p` to `q`. -/
def sentTo (p q : PeerID) (sends : List Send) : List WrappedMessage :=
  (sends.filter fun x => x.link.Between p q).map fun x => x.wMsg

def begunTo (p q : PeerID) (sends : List Send) : List WrappedMessage :=
  sentTo p q (sends.filter fun x => x.Begun)

/-- The messages in flight on a stream. -/
def onLink (l : Link) (transit : List (Link × WrappedMessage)) : List WrappedMessage :=
  (transit.filter fun m => m.1 = l).map Prod.snd

/-- `tail` is what is still to be written of the message that is being written to the stream. -/
structure Remains (sends : List Send) (l : Link) (tail : List UInt8) : Prop where
  same : ∀ x ∈ sends, x.link = l → x.Begun → x.writes ≠ [] → x.writes.flatten = tail
  some : tail ≠ [] → ∃ x ∈ sends, x.link = l ∧ x.Begun ∧ x.writes ≠ []

/-- Where the messages of the honest peer `p` to `q` are: `done` have been read, `transit` are on
their streams. -/
structure Tracks (p q : PeerID) (done : List WrappedMessage) (s : State Chan)
    (transit : List (Link × WrappedMessage)) : Prop where
  bytes : ∀ l : Link, l.Between p q →
    ∃ tail, s.unread l ++ tail = lines (onLink l transit) ∧ Remains s.sends l tail
  running : ∀ l : Link, l.Between p q → s.stopped l = false
  own : ∀ m ∈ transit, m.1.Between p q ∧ m.2.fromPeer = p
  counted : (done ++ transit.map Prod.snd).Perm (begunTo p q s.sends)

/-! ### What the events keep -/

/-- On the streams from `p` to `q` no `Write` comes between two `Write`s of another message. -/
def Untorn (p q : PeerID) (s : State Chan) : Event Chan → Prop
  | .write i => ∀ x ∈ s.sends[i]?, x.link.Between p q → ∀ y ∈ s.sends.eraseIdx i,
      y.link = x.link → y.Begun → y.writes = []
  | _ => True

/-- Nothing but messages of `Broadcast` is written to the streams from `p` to `q`. -/
def Honest (p q : PeerID) : Event Chan → Prop
  | .inject link _ => ¬ link.Between p q
  | _ => True

theorem sentTo_append (sends sends' : List Send) :
    sentTo p q (sends ++ sends') = sentTo p q sends ++ sentTo p q sends' := by
  simp [sentTo]

theorem sentTo_eq_nil {x : Send} (h : ¬ x.link.Between p q) : sentTo p q [x] = [] := by
  simp [sentTo, h]

theorem begunTo_append (sends sends' : List Send) :
    begunTo p q (sends ++ sends') = begunTo p q sends ++ begunTo p q sends' := by
  simp [begunTo, sentTo_append]

theorem begunTo_cons (x : Send) (sends : List Send) : begunTo p q (x :: sends) =
    (if x.Begun then sentTo p q [x] else []) ++ begunTo p q sends := by
  by_cases hx : x.Begun
  · rw [if_pos hx, begunTo, List.filter_cons_of_pos (by simpa using hx), ← List.singleton_append,
      sentTo_append]
    rfl
  · rw [if_neg hx, begunTo, List.filter_cons_of_neg (by simpa using hx)]
    rfl

theorem onLink_append (l : Link) (transit transit' : List (Link × WrappedMessage)) :
    onLink l (transit ++ transit') = onLink l transit ++ onLink l transit' := by
  simp [onLink]

theorem onLink_cons_of_ne {l l' : Link} (h : l ≠ l') (m : WrappedMessage)
    (transit : List (Link × WrappedMessage)) :
    onLink l' ((l, m) :: transit) = onLink l' transit := by
  simp [onLink, h]

/-- The first message on a stream, among those in flight. -/
theorem first_onLink {l : Link} {transit : List (Link × WrappedMessage)} {m : WrappedMessage}
    {msgs : List WrappedMessage} (h : onLink l transit = m :: msgs) :
    ∃ a b, transit = a ++ (l, m) :: b ∧ onLink l a = [] ∧ onLink l b = msgs := by
  obtain ⟨⟨l', m'⟩, tail, hfilter, rfl, htail⟩ := List.map_eq_cons_iff.1 h
  obtain ⟨a, b, rfl, ha, hl, hb⟩ := List.filter_eq_cons_iff.1 hfilter
  obtain rfl : l' = l := by simpa using hl
  refine ⟨a, b, rfl, ?_, ?_⟩
  · rw [onLink, List.filter_eq_nil_iff.2 (by simpa using ha)]
    rfl
  · rw [onLink, hb, htail]

theorem lines_append (msgs msgs' : List WrappedMessage) :
    lines (msgs ++ msgs') = lines msgs ++ lines msgs' := by
  simp [lines]

theorem not_begun_of_mem_broadcast {hostID : PeerID} {peers : List PeerID}
    {msg : Option (List UInt8)} {t : MessageType} {sid : String} {stream : PeerID → Option ℕ}
    {x : Send} (hx : x ∈ broadcast hostID peers msg t sid stream) : ¬ x.Begun := by
  obtain ⟨peerID, -, hx⟩ := List.mem_filterMap.1 hx
  split_ifs at hx
  obtain ⟨number, -, rfl⟩ := Option.map_eq_some_iff.1 hx
  simp [Send.Begun]

variable {done : List WrappedMessage} {transit : List (Link × WrappedMessage)}

theorem Tracks.append_sends (h : Tracks p q done s transit) {new : List Send}
    (hnew : ∀ x ∈ new, ¬ x.Begun) :
    Tracks p q done { s with sends := s.sends ++ new } transit where
  bytes l hl := by
    obtain ⟨tail, hbytes, hremains⟩ := h.bytes l hl
    refine ⟨tail, hbytes, fun x hx hlink hbegun => ?_, fun htail => ?_⟩
    · rcases List.mem_append.1 hx with hx | hx
      · exact hremains.same x hx hlink hbegun
      · exact absurd hbegun (hnew x hx)
    · obtain ⟨x, hx, hrest⟩ := hremains.some htail
      exact ⟨x, List.mem_append_left _ hx, hrest⟩
  running := h.running
  own := h.own
  counted := by
    have hnone : begunTo p q new = [] := by
      simp only [begunTo]
      rw [List.filter_eq_nil_iff.2 (by simpa using hnew)]
      rfl
    simpa [begunTo_append, hnone] using h.counted

theorem split_at_index {α : Type*} {l : List α} {i : ℕ} {x : α} (h : l[i]? = some x) :
    ∃ a b, l = a ++ x :: b ∧ l.eraseIdx i = a ++ b ∧ ∀ y, l.set i y = a ++ y :: b := by
  obtain ⟨hi, rfl⟩ := List.getElem?_eq_some_iff.1 h
  refine ⟨l.take i, l.drop (i + 1), ?_, List.eraseIdx_eq_take_drop_succ l i, fun y => ?_⟩
  · rw [← List.drop_eq_getElem_cons hi, List.take_append_drop]
  · rw [List.set_eq_take_append_cons_drop, if_pos hi]

theorem mem_of_middle {α : Type*} {a b : List α} {x y : α} (hy : y ∈ a ++ x :: b) :
    y = x ∨ y ∈ a ++ b := by
  simp only [List.mem_append, List.mem_cons] at hy ⊢
  tauto

theorem Remains.of_ne {a b : List Send} {x x' : Send} {l : Link} {tail : List UInt8}
    (h : Remains (a ++ x :: b) l tail) (hx : x.link ≠ l) (hlink : x'.link = x.link) :
    Remains (a ++ x' :: b) l tail where
  same y hy hl := by
    rcases mem_of_middle hy with rfl | hy
    · exact absurd (hlink.symm.trans hl) hx
    · exact h.same y (by simp only [List.mem_append, List.mem_cons] at hy ⊢; tauto) hl
  some htail := by
    obtain ⟨y, hy, hl, hrest⟩ := h.some htail
    rcases mem_of_middle hy with rfl | hy
    · exact absurd hl hx
    · exact ⟨y, by simp only [List.mem_append, List.mem_cons] at hy ⊢; tauto, hl, hrest⟩

theorem remains_alone {a b : List Send} {x : Send} (hbegun : x.Begun)
    (halone : ∀ y ∈ a ++ b, y.link = x.link → y.Begun → y.writes = []) :
    Remains (a ++ x :: b) x.link x.writes.flatten where
  same y hy hl hy' hne := by
    rcases mem_of_middle hy with rfl | hy
    · rfl
    · exact absurd (halone y hy hl hy') hne
  some htail := by
    refine ⟨x, by simp, rfl, hbegun, fun hnil => ?_⟩
    simp [hnil] at htail

/-- What the next `Write` of a message leaves of it: the whole message, if it is the first one. -/
theorem Tracks.write_bytes (h : Tracks p q done s transit) {a b : List Send}
    {x x' : Send} {chunk : List UInt8} (hsends : s.sends = a ++ x :: b)
    (hwrite : x.write = some (chunk, x'))
    (halone : ∀ y ∈ a ++ b, y.link = x.link → y.Begun → y.writes = [])
    (hlink : x.link.Between p q) :
    s.unread x.link ++ (chunk ++ x'.writes.flatten) =
      lines (onLink x.link transit ++ if x.Begun then [] else [x.wMsg]) := by
  obtain ⟨hwrites, -, -⟩ := Send.write_eq_some hwrite
  obtain ⟨tail, hbytes, hremains⟩ := h.bytes x.link hlink
  rw [hsends] at hremains
  have hflat : x.writes.flatten = chunk ++ x'.writes.flatten := by rw [hwrites, List.flatten_cons]
  split_ifs with hbegun
  · have htail := hremains.same x (by simp) rfl hbegun (by simp [hwrites])
    rw [← hflat, htail, hbytes, List.append_nil]
  · have htail : tail = [] := by
      by_contra hne
      obtain ⟨y, hy, hl, hy', hnil⟩ := hremains.some hne
      rcases mem_of_middle hy with rfl | hy
      · exact hbegun hy'
      · exact hnil (halone y hy hl hy')
    have hall : x.writes = writeStream (marshal x.wMsg) := not_not.1 hbegun
    rw [htail, List.append_nil] at hbytes
    rw [← hflat, hall, flatten_writes, hbytes, lines_append]
    simp [lines]

theorem begunTo_write {a b : List Send} {x x' : Send} {chunk : List UInt8}
    (hwrite : x.write = some (chunk, x')) :
    (begunTo p q (a ++ x :: b) ++ if x.Begun then [] else sentTo p q [x]).Perm
      (begunTo p q (a ++ x' :: b)) := by
  obtain ⟨-, hlink, hmsg⟩ := Send.write_eq_some hwrite
  have hsame : sentTo p q [x'] = sentTo p q [x] := by
    simp only [sentTo, List.filter_cons, List.filter_nil, hlink]
    split_ifs <;> simp [hmsg]
  rw [begunTo_append, begunTo_append, begunTo_cons, begunTo_cons,
    if_pos (Send.begun_of_write hwrite), hsame]
  split_ifs with hx
  · simp
  · rw [List.nil_append, List.append_assoc]
    exact List.perm_append_comm.append_left _

/-- A `Write` to a stream from `p` to `q`; the message enters it with the first one. -/
theorem Tracks.write (h : Tracks p q done s transit) {a b : List Send} {x x' : Send}
    {chunk : List UInt8} (hsends : s.sends = a ++ x :: b) (hwrite : x.write = some (chunk, x'))
    (hbetween : x.link.Between p q)
    (halone : ∀ y ∈ a ++ b, y.link = x.link → y.Begun → y.writes = []) :
    Tracks p q done { s with sends := a ++ x' :: b, unread := s.append x.link chunk }
      (transit ++ if x.Begun then [] else [(x.link, x.wMsg)]) := by
  obtain ⟨hwrites, hlink, hmsg⟩ := Send.write_eq_some hwrite
  have hbegun := Send.begun_of_write hwrite
  refine ⟨fun l hl => ?_, h.running, fun m hm => ?_, ?_⟩
  · by_cases hxl : x.link = l
    · subst hxl
      refine ⟨x'.writes.flatten, ?_, ?_⟩
      · have hbytes := h.write_bytes hsends hwrite halone hl
        simp only [State.append, Function.update_self, List.append_assoc]
        rw [hbytes, onLink_append]
        congr 2
        split_ifs
        · rfl
        · simp [onLink]
      · rw [← hlink]
        exact remains_alone hbegun (by rwa [hlink])
    · obtain ⟨tail, hbytes, hremains⟩ := h.bytes l hl
      rw [hsends] at hremains
      refine ⟨tail, ?_, hremains.of_ne hxl hlink⟩
      simp only [State.append, Function.update_of_ne (Ne.symm hxl)]
      rw [hbytes, onLink_append]
      split_ifs
      · simp [onLink]
      · simp [onLink, hxl]
  · rcases List.mem_append.1 hm with hm | hm
    · exact h.own m hm
    · split_ifs at hm
      · cases hm
      · obtain rfl := List.mem_singleton.1 hm
        exact ⟨hbetween, x.own.trans hbetween.1⟩
  · have hcounted := h.counted
    rw [hsends] at hcounted
    refine List.Perm.trans ?_ (begunTo_write hwrite)
    rw [List.map_append, ← List.append_assoc]
    have hnew : sentTo p q [x] = [x.wMsg] := by simp [sentTo, hbetween]
    split_ifs with hx
    · simpa using hcounted
    · rw [hnew]
      exact hcounted.append_right _

theorem Tracks.foreign (h : Tracks p q done s transit) {link : Link} (hlink : ¬ link.Between p q)
    (hunread : ∀ l, l ≠ link → s'.unread l = s.unread l)
    (hstopped : ∀ l, l ≠ link → s'.stopped l = s.stopped l) (hsends : s'.sends = s.sends) :
    Tracks p q done s' transit := by
  have hne : ∀ l : Link, l.Between p q → l ≠ link := by
    rintro l hl rfl
    exact hlink hl
  refine ⟨fun l hl => ?_, fun l hl => ?_, h.own, ?_⟩
  · rw [hunread l (hne l hl), hsends]
    exact h.bytes l hl
  · exact (hstopped l (hne l hl)).trans (h.running l hl)
  · rw [hsends]
    exact h.counted

theorem Tracks.write_foreign (h : Tracks p q done s transit) {a b : List Send} {x x' : Send}
    {chunk : List UInt8} (hsends : s.sends = a ++ x :: b) (hwrite : x.write = some (chunk, x'))
    (hbetween : ¬ x.link.Between p q) :
    Tracks p q done { s with sends := a ++ x' :: b, unread := s.append x.link chunk } transit := by
  obtain ⟨-, hlink, -⟩ := Send.write_eq_some hwrite
  refine ⟨fun l hl => ?_, h.running, h.own, ?_⟩
  · have hne : x.link ≠ l := by
      rintro rfl
      exact hbetween hl
    obtain ⟨tail, hbytes, hremains⟩ := h.bytes l hl
    rw [hsends] at hremains
    refine ⟨tail, ?_, hremains.of_ne hne hlink⟩
    simpa only [State.append, Function.update_of_ne (Ne.symm hne)] using hbytes
  · have hcounted := h.counted
    rw [hsends] at hcounted
    refine hcounted.trans (List.Perm.trans ?_ (begunTo_write hwrite))
    rw [sentTo_eq_nil hbetween]
    simp

theorem Tracks.read (h : Tracks p q done s transit) {link : Link} (hlink : link.Between p q)
    {msgBytes rest : List UInt8} (hread : readStream (s.unread link) = .ok (msgBytes, rest)) :
    ∃ m transit', unmarshal Wire.decodeWrapped msgBytes = some { m with fromPeer := "" } ∧
      m.fromPeer = p ∧ ∀ handing, Tracks p q (done ++ [m])
        { s with unread := Function.update s.unread link rest, handing := handing } transit' := by
  obtain ⟨tail, hbytes, hremains⟩ := h.bytes link hlink
  obtain ⟨m, msgs, hmsgs, rfl, hrest⟩ := readStream_lines hbytes hread
  obtain ⟨a, b, rfl, ha, hb⟩ := first_onLink hmsgs
  refine ⟨m, a ++ b, ?_, (h.own (link, m) (by simp)).2, fun handing => ⟨fun l hl => ?_,
    h.running, fun m' hm => ?_, ?_⟩⟩
  · rw [unmarshal_marshal, Wire.decodeWrapped_marshal]
  · dsimp only
    by_cases hl' : l = link
    · subst hl'
      exact ⟨tail, by rw [Function.update_self, hrest, onLink_append, ha, hb]; rfl, hremains⟩
    · obtain ⟨tail', hbytes', hremains'⟩ := h.bytes l hl
      rw [onLink_append, onLink_cons_of_ne (Ne.symm hl'), ← onLink_append] at hbytes'
      exact ⟨tail', by rw [Function.update_of_ne hl', hbytes'], hremains'⟩
  · apply h.own m'
    simp only [List.mem_append, List.mem_cons] at hm ⊢
    tauto
  · refine List.Perm.trans ?_ h.counted
    simp only [List.map_append, List.map_cons, List.append_assoc, List.singleton_append]
    exact (List.perm_middle.symm).append_left _

theorem tracks_init : Tracks p q [] (init : State Chan) [] where
  bytes _ _ := ⟨[], rfl, by simp [init], by simp⟩
  running _ _ := rfl
  own := by simp
  counted := .nil

variable [DecidableEq Chan]

/-- The message that `q` reads from a stream of `p`, and how often the channel is subscribed to its
session and type at that moment. -/
def heard (p q : PeerID) (c : Chan) (s : State Chan) : Event Chan → List (WrappedMessage × ℕ)
  | .read link =>
    if link.Between p q then
      match readStream (s.unread link) with
      | .error _ => []
      | .ok (msgBytes, _) =>
        match unmarshal Wire.decodeWrapped msgBytes with
        | none => []
        | some m => [({ m with fromPeer := p },
            ((s.managers q).getSubscribers m.sessionID m.messageType).count c)]
    else []
  | _ => []

theorem heard_read {link : Link} (hlink : link.Between p q) {msgBytes rest : List UInt8}
    (hread : readStream (s.unread link) = .ok (msgBytes, rest)) {m : WrappedMessage}
    (hm : unmarshal Wire.decodeWrapped msgBytes = some m) :
    heard p q c s (.read link) = [({ m with fromPeer := p },
      ((s.managers q).getSubscribers m.sessionID m.messageType).count c)] := by
  rw [heard, if_pos hlink]
  simp only [hread, hm]

theorem tracks_step {past : List (WrappedMessage × ℕ)} {e : Event Chan}
    (h : ∃ transit, Tracks p q (past.map Prod.fst) s transit)
    (hG : Untorn p q s e ∧ Honest p q e) (hs : Step s e s') :
    ∃ transit, Tracks p q ((past ++ heard p q c s e).map Prod.fst) s' transit := by
  obtain ⟨transit, h⟩ := h
  obtain ⟨huntorn, hhonest⟩ := hG
  have hnone : heard p q c s e = [] →
      (past ++ heard p q c s e).map Prod.fst = past.map Prod.fst := by
    intro hnil
    rw [hnil, List.append_nil]
  cases hs with
  | broadcast =>
    rw [hnone rfl]
    exact ⟨transit, h.append_sends fun x hx => not_begun_of_mem_broadcast hx⟩
  | @write i x chunk x' hx hwrite =>
    obtain ⟨a, b, hsends, herase, hset⟩ := split_at_index hx
    rw [Untorn, hx, herase] at huntorn
    rw [hnone rfl]
    simp only [hset]
    by_cases hbetween : x.link.Between p q
    · exact ⟨_, h.write hsends hwrite hbetween (huntorn x rfl hbetween)⟩
    · exact ⟨_, h.write_foreign hsends hwrite hbetween⟩
  | inject =>
    rw [hnone rfl]
    exact ⟨transit, h.foreign hhonest (fun l hl => Function.update_of_ne hl _ _) (fun _ _ => rfl) rfl⟩
  | @undecoded link _ _ hread hm =>
    -- what an honest peer writes is decoded
    have hlink : ¬ link.Between p q := by
      intro hlink
      obtain ⟨m, -, hm', -⟩ := h.read hlink hread
      rw [hm] at hm'
      cases hm'
    rw [hnone (if_neg hlink)]
    exact ⟨transit, h.foreign hlink (fun l hl => Function.update_of_ne hl _ _)
      (fun l hl => Function.update_of_ne hl _ _) rfl⟩
  | @decoded link _ _ m hread hm =>
    by_cases hlink : link.Between p q
    · obtain ⟨m', transit', hm', hp, h'⟩ := h.read hlink hread
      obtain rfl := Option.some.inj (hm.symm.trans hm')
      refine ⟨transit', ?_⟩
      subst hp
      rw [heard_read hlink hread hm, List.map_append, List.map_singleton]
      exact h' _
    · rw [hnone (if_neg hlink)]
      exact ⟨transit, h.foreign hlink (fun l hl => Function.update_of_ne hl _ _)
        (fun _ _ => rfl) rfl⟩
  | hand | subscribe | unSubscribe =>
    rw [hnone rfl]
    exact ⟨transit, h.bytes, h.running, h.own, h.counted⟩

/-! ### Handing over -/

def fromPeer (p : PeerID) (msgs : List WrappedMessage) : List WrappedMessage :=
  msgs.filter fun m => m.fromPeer = p

/-- The messages that goroutines of a relayer hand to a channel. -/
def handingTo (q : PeerID) (c : Chan) (handing : List (PeerID × Chan × WrappedMessage)) :
    List WrappedMessage :=
  (handing.filter fun h => h.1 = q ∧ h.2.1 = c).map fun h => h.2.2

/-- Each message as often as it is handed over. -/
def copies (reads : List (WrappedMessage × ℕ)) : List WrappedMessage :=
  reads.flatMap fun e => List.replicate e.2 e.1

/-- The channel has got the messages of the peer that were read, or is about to get them. -/
def Handed (p q : PeerID) (c : Chan) (reads : List (WrappedMessage × ℕ)) (s : State Chan) : Prop :=
  (fromPeer p (s.received q c) ++ fromPeer p (handingTo q c s.handing)).Perm (copies reads)

theorem fromPeer_append (msgs msgs' : List WrappedMessage) :
    fromPeer p (msgs ++ msgs') = fromPeer p msgs ++ fromPeer p msgs' := by
  simp [fromPeer]

theorem handingTo_append (handing handing' : List (PeerID × Chan × WrappedMessage)) :
    handingTo q c (handing ++ handing') = handingTo q c handing ++ handingTo q c handing' := by
  simp [handingTo]

theorem copies_append (reads reads' : List (WrappedMessage × ℕ)) :
    copies (reads ++ reads') = copies reads ++ copies reads' := by
  simp [copies]

/-- A message is handed to a channel as often as the channel is subscribed. -/
theorem handingTo_handTo (m : WrappedMessage) : handingTo q c (s.handTo q m) = List.replicate
    (((s.managers q).getSubscribers m.sessionID m.messageType).count c) m := by
  have hfilter : ((fun h : PeerID × Chan × WrappedMessage => decide (h.1 = q ∧ h.2.1 = c)) ∘
      fun sub => (q, sub, m)) = fun sub => decide (sub = c) := by
    funext sub
    simp
  simp only [handingTo, State.handTo, List.filter_map, List.map_map]
  rw [hfilter, List.filter_eq, List.map_replicate]
  rfl

theorem fromPeer_handTo (link : Link) {msgBytes rest : List UInt8}
    (hread : readStream (s.unread link) = .ok (msgBytes, rest)) {m : WrappedMessage}
    (hm : unmarshal Wire.decodeWrapped msgBytes = some m) :
    fromPeer p (handingTo q c (s.handTo link.receiver { m with fromPeer := link.sender })) =
      copies (heard p q c s (.read link)) := by
  by_cases hlink : link.Between p q
  · rw [heard_read hlink hread hm, hlink.1, hlink.2, handingTo_handTo]
    simp [fromPeer, copies]
  · have hheard : heard p q c s (.read link) = [] := if_neg hlink
    rw [hheard]
    by_cases hq : link.receiver = q
    · have hp : link.sender ≠ p := fun hp => hlink ⟨hp, hq⟩
      simp [fromPeer, handingTo, State.handTo, copies, hp]
    · simp [fromPeer, handingTo, State.handTo, copies, hq]

theorem received_hand (received : PeerID → Chan → List WrappedMessage) (host : PeerID)
    (channel : Chan) (m : WrappedMessage) :
    Function.update received host
      (Function.update (received host) channel (received host channel ++ [m])) q c =
      received q c ++ handingTo q c [(host, channel, m)] := by
  by_cases hq : q = host
  · subst hq
    by_cases hc : c = channel
    · subst hc
      simp [handingTo]
    · simp [handingTo, Function.update_of_ne hc, Ne.symm hc]
  · simp [handingTo, Function.update_of_ne hq, Ne.symm hq]

theorem handed_step {past : List (WrappedMessage × ℕ)} {e : Event Chan}
    (h : Handed p q c past s) (hs : Step s e s') :
    Handed p q c (past ++ heard p q c s e) s' := by
  have hnone : heard p q c s e = [] → Handed p q c past s' →
      Handed p q c (past ++ heard p q c s e) s' := by
    intro hnil h'
    rwa [hnil, List.append_nil]
  cases hs with
  | broadcast | write | inject | subscribe | unSubscribe => exact hnone rfl h
  | undecoded hread hm =>
    refine hnone ?_ h
    simp only [heard, hread, hm, ite_self]
  | @decoded link _ _ _ hread hm =>
    unfold Handed
    dsimp only
    rw [handingTo_append, fromPeer_append, fromPeer_handTo link hread hm, copies_append,
      ← List.append_assoc]
    exact h.append_right _
  | hand hi =>
    obtain ⟨a, b, hhanding, herase, -⟩ := split_at_index hi
    refine hnone rfl (List.Perm.trans ?_ h)
    dsimp only
    rw [received_hand, herase, hhanding, List.append_cons]
    simp only [handingTo_append, fromPeer_append, List.append_assoc]
    refine List.Perm.append_left _ ?_
    rw [← List.append_assoc, ← List.append_assoc]
    exact List.perm_append_comm.append_right _

/-! ### Runs -/

/-- Nothing is under way from `p` to `q`. -/
structure Quiet (p q : PeerID) (s : State Chan) : Prop where
  written : ∀ x ∈ s.sends, x.link.Between p q → x.writes = []
  read : ∀ l : Link, l.Between p q → s.unread l = []

theorem begunTo_sublist (sends : List Send) : (begunTo p q sends).Sublist (sentTo p q sends) :=
  ((List.filter_sublist).filter _).map _

omit [DecidableEq Chan] in
theorem Tracks.subperm (h : Tracks p q done s transit) : done.Subperm (sentTo p q s.sends) :=
  (List.sublist_append_left _ _).subperm.trans
    (h.counted.subperm.trans (begunTo_sublist s.sends).subperm)

omit [DecidableEq Chan] in
theorem Tracks.onLink_eq_nil (h : Tracks p q done s transit) (hquiet : Quiet p q s) {l : Link}
    (hl : l.Between p q) : onLink l transit = [] := by
  obtain ⟨tail, hbytes, hremains⟩ := h.bytes l hl
  have htail : tail = [] := by
    by_contra hne
    obtain ⟨x, hx, rfl, -, hwrites⟩ := hremains.some hne
    exact hwrites (hquiet.written x hx hl)
  rw [hquiet.read l hl, htail] at hbytes
  exact lines_eq_nil hbytes.symm

omit [DecidableEq Chan] in
theorem Tracks.perm_of_quiet (h : Tracks p q done s transit) (hquiet : Quiet p q s) :
    done.Perm (sentTo p q s.sends) := by
  have htransit : transit = [] := by
    apply List.eq_nil_iff_forall_not_mem.2
    rintro ⟨l, m⟩ hm
    have hmem : m ∈ onLink l transit := List.mem_map.2 ⟨(l, m), List.mem_filter.2 ⟨hm, by simp⟩, rfl⟩
    rw [h.onLink_eq_nil hquiet (h.own _ hm).1] at hmem
    cases hmem
  have hbegun : begunTo p q s.sends = sentTo p q s.sends := by
    simp only [begunTo, sentTo, List.filter_filter]
    congr 1
    apply List.filter_congr
    intro x hx
    by_cases hl : x.link.Between p q
    · simp [hl, Send.begun_of_done (hquiet.written x hx hl)]
    · simp [hl]
  have hcounted := h.counted
  rwa [htransit, hbegun, List.map_nil, List.append_nil] at hcounted

/-- What `q` reads from streams of `p` in a run, with how often the channel is subscribed to it. -/
def reads (p q : PeerID) (c : Chan) (es : List (Event Chan)) : List (WrappedMessage × ℕ) :=
  Runs.outputs step (heard p q c) init es

theorem tracks_exec {es : List (Event Chan)}
    (hG : Along step (fun s e => Untorn p q s e ∧ Honest p q e) init es)
    (h : exec step init es = some s) :
    ∃ transit, Tracks p q ((reads p q c es).map Prod.fst) s transit := by
  rw [← List.nil_append (reads p q c es)]
  exact outputs_inv (I := fun past s => ∃ transit, Tracks p q (past.map Prod.fst) s transit)
    (fun _ _ _ _ hs hG hstep => tracks_step hs hG (step_cases hstep)) ⟨[], tracks_init⟩ hG h

theorem handed_exec {es : List (Event Chan)} (h : exec step init es = some s) :
    Handed p q c (reads p q c es) s := by
  rw [← List.nil_append (reads p q c es)]
  exact outputs_inv (I := Handed p q c) (fun _ _ _ _ hs _ hstep => handed_step hs (step_cases hstep)) .nil
    along_true h

/-- However the goroutines of all relayers, the bytes of other peers, subscriptions and their ends
come between one another: as long as the messages from the honest peer `p` to `q` are written one
after the other, each is read at most once, and once nothing is under way each has been. A channel
of `q` has got it, or is about to get it, as often as it was subscribed when the message was read. -/
theorem delivered_once {es : List (Event Chan)}
    (hG : Along step (fun s e => Untorn p q s e ∧ Honest p q e) init es)
    (h : exec step init es = some s) (c : Chan) :
    ((reads p q c es).map Prod.fst).Subperm (sentTo p q s.sends) ∧
      (Quiet p q s → ((reads p q c es).map Prod.fst).Perm (sentTo p q s.sends)) ∧
      (fromPeer p (s.received q c) ++ fromPeer p (handingTo q c s.handing)).Perm
        (copies (reads p q c es)) := by
  obtain ⟨transit, htracks⟩ := tracks_exec (c := c) hG h
  exact ⟨htracks.subperm, htracks.perm_of_quiet, handed_exec h⟩

end

/-! A message of a signing process from one relayer to another. -/

def signingLink : Link := ⟨"a", "b", 0⟩

def signingMessage : OutMessage := ⟨[1, 2], true, []⟩

def signingWrapped : WrappedMessage := ⟨1, "s", outboundPayload signingMessage, "a"⟩

def signingEvents : List (Event ℕ) :=
  [.subscribe "b" "s" 1 0 0,
   .broadcast "a" (broadcastPeers ["b", "a"] signingMessage) (outboundPayload signingMessage) 1 "s"
    fun _ => some 0,
   .write 0, .read signingLink, .hand 0]

/-- A state of the run after the subscription. -/
def signingState (writes : List (List UInt8)) (hwrites : writes <:+ writeStream (marshal signingWrapped))
    (unread : List UInt8) (handing : List (PeerID × ℕ × WrappedMessage))
    (received : List WrappedMessage) : State ℕ where
  sends := [⟨signingLink, signingWrapped, writes, rfl, hwrites⟩]
  unread := Function.update (fun _ => []) signingLink unread
  stopped := fun _ => false
  managers := Function.update (fun _ => .empty) "b" (SubscriptionManager.empty.subscribeTo "s" 1 0 0).1
  handing := handing
  received := Function.update (fun _ _ => []) "b" (Function.update (fun _ => []) 0 received)

theorem signing_broadcast : exec step init (signingEvents.take 2) =
    some (signingState _ List.suffix_rfl [] [] []) := by
  simp [signingEvents, exec, step, broadcast, broadcastPeers, signingMessage, signingState,
    signingLink, signingWrapped, init, State.setManager]

theorem signing_subscribers : ((SubscriptionManager.empty : SubscriptionManager ℕ).subscribeTo
    "s" 1 0 0).1.getSubscribers "s" 1 = [0] := by
  simp [SubscriptionManager.getSubscribers, SubscriptionManager.subscribeTo,
    SubscriptionManager.subscribers_assign]

theorem signing_write : step (signingState _ List.suffix_rfl [] [] []) (.write 0) =
    some (signingState [] List.nil_suffix (frame signingWrapped) [] []) := by
  have hshort : (marshal signingWrapped).length < defaultBufferSize := by
    decide +kernel
  simp [step, signingState, Send.write, writeStream_short hshort, State.append]

theorem signing_read : step (signingState [] List.nil_suffix (frame signingWrapped) [] [])
    (.read signingLink) =
    some (signingState [] List.nil_suffix [] [("b", 0, signingWrapped)] []) := by
  have hread : readStream (frame signingWrapped) = .ok (marshal signingWrapped, []) :=
    readStream_line (newline_notMem_marshal signingWrapped) []
  simp only [step, signingState, Function.update_self, hread, unmarshal_marshal,
    Wire.decodeWrapped_marshal]
  simp [State.handTo, signing_subscribers, signingLink, signingWrapped]

theorem signing_hand : step (signingState [] List.nil_suffix [] [("b", 0, signingWrapped)] [])
    (.hand 0) = some (signingState [] List.nil_suffix [] [] [signingWrapped]) := by
  simp [step, signingState]

theorem exec_signingEvents :
    exec step init signingEvents = some (signingState [] List.nil_suffix [] [] [signingWrapped]) :=
  exec_append signing_broadcast
    (exec_cons.2 ⟨_, signing_write, exec_cons.2 ⟨_, signing_read, exec_cons.2 ⟨_, signing_hand, rfl⟩⟩⟩)

theorem along_signingEvents : Along step (fun s e => Untorn "a" "b" s e ∧ Honest "a" "b" e) init
    signingEvents := by
  refine (along_append signing_broadcast).2 ⟨?_, ?_⟩
  · exact along_of_forall_mem (by simp [signingEvents, Untorn, Honest])
  · rw [along_cons signing_write, along_cons signing_read, along_cons signing_hand]
    simp [Untorn, Honest, signingState, Along]

theorem quiet_signingEvents :
    Quiet "a" "b" (signingState [] List.nil_suffix [] [] [signingWrapped]) where
  written := by simp [signingState]
  read := by simp [signingState]

/-- The message is read once, and goes to the channel that is subscribed. -/
theorem delivered_once_signing :
    ((reads "a" "b" 0 signingEvents).map Prod.fst).Perm [signingWrapped] ∧
      (copies (reads "a" "b" 0 signingEvents)).Perm [signingWrapped] := by
  obtain ⟨-, hquiet, hhanded⟩ := delivered_once along_signingEvents exec_signingEvents 0
  exact ⟨hquiet quiet_signingEvents, hhanded.symm⟩

end Sygma.Delivery
