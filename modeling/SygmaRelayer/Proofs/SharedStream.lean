import Mathlib.Data.List.TakeWhile
import SygmaRelayer.Lib.Runs
import SygmaRelayer.Spec.StreamFraming

/-! Do the calls that share a stream keep their messages apart? A message that fits the buffer
with its newline is one `Write`, and then the stream is a sequence of whole messages in
some order. A longer one is torn where another call writes in between: the line that
starts with its first part is not JSON, and the receiver gives up the stream. -/

namespace Sygma.Framing

open Runs JsonScanner

variable {decode : List UInt8 → Option WrappedMessage} {remotePeerID : PeerID}

/-! ### The messages on the wire -/

theorem fields_value (wMsg : WrappedMessage) :
    ∀ field ∈ [("message_id", JsonWriter.quote wMsg.sessionID),
      ("payload", JsonWriter.bytes wMsg.payload)], JsonWriter.Value field.2 := by
  simp [JsonWriter.value_quote, JsonWriter.value_bytes]

theorem objectText_marshal (wMsg : WrappedMessage) : ObjectText (marshal wMsg) :=
  JsonWriter.objectText_object ⟨0x6d, _, rfl, by decide, by decide⟩
    (JsonWriter.value_decimal wMsg.messageType) (fields_value wMsg)

theorem newline_notMem_marshal (wMsg : WrappedMessage) : newline ∉ marshal wMsg := by
  intro h
  have hprinted := JsonWriter.printed_object (JsonWriter.value_decimal wMsg.messageType)
    (fields_value wMsg) newline h
  exact absurd hprinted (by decide)

theorem payload_le_marshal (messageType : Comm.MessageType) (sessionID : String)
    (payload : List UInt8) (fromPeer : PeerID) : 4 * ((payload.length + 2) / 3) ≤
      (marshal ⟨messageType, sessionID, some payload, fromPeer⟩).length := by
  simp only [marshal, JsonWriter.object, JsonWriter.bytes, List.length_append, List.length_cons,
    List.flatMap_cons, JsonWriter.length_base64]
  omega

theorem unmarshal_marshal (decode : List UInt8 → Option WrappedMessage) (wMsg : WrappedMessage) :
    unmarshal decode (marshal wMsg) = decode (marshal wMsg) :=
  if_pos (objectText_marshal wMsg).valid

/-- What `WriteStream` writes for a message. -/
def frame (wMsg : WrappedMessage) : List UInt8 := marshal wMsg ++ [newline]

theorem flatten_bufferedWrites (s : List UInt8) : (bufferedWrites s).flatten = s := by
  induction s using bufferedWrites.induct with
  | case1 h => simp [bufferedWrites]
  | case2 s h hne => simp [bufferedWrites, h, hne]
  | case3 s h ih =>
    rw [bufferedWrites, if_neg h, List.flatten_cons, ih, List.take_append_drop]

theorem writeStream_short {wMsg : WrappedMessage} (h : (marshal wMsg).length < defaultBufferSize) :
    writeStream (marshal wMsg) = [frame wMsg] := by
  have hle : (marshal wMsg ++ [newline]).length ≤ defaultBufferSize := by
    simp only [List.length_append, List.length_singleton]
    omega
  unfold writeStream
  rw [bufferedWrites, if_pos hle, if_neg (by simp)]
  rfl

theorem writeStream_long {wMsg : WrappedMessage} (h : defaultBufferSize ≤ (marshal wMsg).length) :
    ∃ rest, writeStream (marshal wMsg) = (marshal wMsg).take defaultBufferSize :: rest := by
  have hlt : ¬ (marshal wMsg ++ [newline]).length ≤ defaultBufferSize := by
    simp only [List.length_append, List.length_singleton]
    omega
  unfold writeStream
  rw [bufferedWrites, if_neg hlt, List.take_append_of_le_length h]
  exact ⟨_, rfl⟩

/-! ### Reading lines -/

theorem dropWhile_newline {line : List UInt8} (h : newline ∉ line) :
    line.dropWhile (· = newline) = line := by
  cases line with
  | nil => rfl
  | cons b line =>
    have hb : b ≠ newline := fun heq => h (heq ▸ List.mem_cons_self)
    exact List.dropWhile_cons_of_neg (by simpa using hb)

theorem trim_line {line : List UInt8} (h : newline ∉ line) : trim (line ++ [newline]) = line := by
  have hback : (newline :: line.reverse).dropWhile (· = newline) = line.reverse := by
    rw [List.dropWhile_cons_of_pos (by simp)]
    exact dropWhile_newline (by simpa using h)
  unfold trim
  rw [List.dropWhile_append]
  rw [dropWhile_newline h]
  cases line with
  | nil => rfl
  | cons b line =>
    simp only [List.isEmpty_cons, Bool.false_eq_true, if_false, List.reverse_append,
      List.reverse_singleton, List.singleton_append]
    rw [hback, List.reverse_reverse]

theorem readStream_line {line : List UInt8} (h : newline ∉ line) (rest : List UInt8) :
    readStream (line ++ newline :: rest) = .ok (line, rest) := by
  have hne : ∀ b ∈ line, decide (b ≠ newline) = true := fun b hb =>
    decide_eq_true fun heq => h (heq ▸ hb)
  have hread : readString (line ++ newline :: rest) = .ok (line ++ [newline], rest) := by
    unfold readString
    rw [List.dropWhile_append_of_pos hne, List.takeWhile_append_of_pos hne]
    simp
  unfold readStream
  rw [hread]
  simp [trim_line h]

theorem readStream_end {stream : List UInt8} (h : newline ∉ stream) :
    readStream stream = .error "EOF" := by
  have hdrop : stream.dropWhile (· ≠ newline) = [] :=
    List.dropWhile_eq_nil_iff.2 fun b hb => decide_eq_true fun heq => h (heq ▸ hb)
  have hread : readString stream = .error "EOF" := by rw [readString, hdrop]
  rw [readStream, hread]

theorem process_end {stream : List UInt8} (h : newline ∉ stream) :
    processMessagesFromStream decode remotePeerID stream = [] := by
  rw [processMessagesFromStream]
  split
  · rfl
  · rename_i msgBytes rest hok
    rw [readStream_end h] at hok
    cases hok

theorem process_line {line : List UInt8} (h : newline ∉ line) (rest : List UInt8) :
    processMessagesFromStream decode remotePeerID (line ++ newline :: rest) =
      match unmarshal decode line with
      | none => []
      | some wrappedMsg => { wrappedMsg with fromPeer := remotePeerID } ::
          processMessagesFromStream decode remotePeerID rest := by
  rw [processMessagesFromStream]
  split
  · rename_i err herr
    rw [readStream_line h] at herr
    cases herr
  · rename_i msgBytes rest' hok
    rw [readStream_line h] at hok
    cases hok
    rfl

theorem process_frames {msgs : List WrappedMessage} (hfrom : ∀ m ∈ msgs, m.fromPeer = remotePeerID)
    (hjson : ∀ m ∈ msgs, decode (marshal m) = some { m with fromPeer := "" }) :
    processMessagesFromStream decode remotePeerID (msgs.flatMap frame) = msgs := by
  induction msgs with
  | nil => exact process_end (by simp)
  | cons m msgs ih =>
    rw [List.forall_mem_cons] at hfrom hjson
    have hline : (m :: msgs).flatMap frame = marshal m ++ newline :: msgs.flatMap frame := by
      simp [frame]
    rw [hline, process_line (newline_notMem_marshal m), unmarshal_marshal, hjson.1]
    simp only [ih hfrom.2 hjson.2]
    rw [← hfrom.1]

/-- The receiver gives up at a message that was torn by another. -/
theorem process_torn {m m' : WrappedMessage} {front : List UInt8} (hfront : front <+: marshal m)
    (hne : front ≠ []) (rest : List UInt8) :
    processMessagesFromStream decode remotePeerID (front ++ frame m' ++ rest) = [] := by
  have hnewline : newline ∉ front ++ marshal m' := by
    rw [List.mem_append, not_or]
    exact ⟨fun h => newline_notMem_marshal m (hfront.subset h), newline_notMem_marshal m'⟩
  have hline : front ++ frame m' ++ rest = front ++ marshal m' ++ newline :: rest := by
    simp [frame]
  rw [hline, process_line hnewline, unmarshal,
    if_neg ((objectText_marshal m).not_valid_append (objectText_marshal m') hfront hne)]

/-! ### The calls -/

variable {msgs : List WrappedMessage} {s s' : State}

theorem step_cases {i : ℕ} (h : step s i = some s') :
    ∃ chunk rest, s.pending i = chunk :: rest ∧
      s' = ⟨Function.update s.pending i rest, s.stream ++ chunk⟩ := by
  unfold step at h
  cases hp : s.pending i with
  | nil => simp [hp] at h
  | cons chunk rest => exact ⟨chunk, rest, rfl, by simpa [hp] using h.symm⟩

theorem start_pending {i : ℕ} {m : WrappedMessage} (h : msgs[i]? = some m) :
    (start msgs).pending i = writeStream (marshal m) := by
  simp [start, h]

theorem start_pending_none {i : ℕ} (h : msgs[i]? = none) : (start msgs).pending i = [] := by
  simp [start, h]

theorem stream_one {m : WrappedMessage} {es : List ℕ} (hrun : exec step (start [m]) es = some s)
    (hdone : s.Done) : s.stream = [m].flatMap frame := by
  have hinit : (∀ i ≠ 0, (start [m]).pending i = []) ∧
      (start [m]).stream ++ ((start [m]).pending 0).flatten = frame m := by
    refine ⟨fun i hi => start_pending_none (by simp; omega), ?_⟩
    rw [start_pending (by rfl), writeStream, flatten_bufferedWrites]
    rfl
  have hall := exec_preserves
    (I := fun s => (∀ i ≠ 0, s.pending i = []) ∧ s.stream ++ (s.pending 0).flatten = frame m)
    (fun s i s' h hs => ?_) hinit hrun
  · simpa [hdone 0] using hall.2
  · obtain ⟨chunk, rest, hp, rfl⟩ := step_cases hs
    have hi : i = 0 := by
      by_contra hne
      simp [h.1 i hne] at hp
    subst hi
    refine ⟨fun j hj => ?_, ?_⟩
    · simpa [hj] using h.1 j hj
    · simpa [hp] using h.2

/-- The messages of the calls, in the order of the calls' `Write`s. -/
def sent (msgs : List WrappedMessage) (es : List ℕ) : List WrappedMessage :=
  es.filterMap fun i => msgs[i]?

/-- When every message is one `Write`, the stream is what the calls so far have sent. -/
structure Whole (msgs : List WrappedMessage) (past : List ℕ) (s : State) : Prop where
  nodup : past.Nodup
  bound : ∀ i ∈ past, i < msgs.length
  stream : s.stream = (sent msgs past).flatMap frame
  written : ∀ i ∈ past, s.pending i = []
  waiting : ∀ i ∉ past, s.pending i = (start msgs).pending i

theorem whole_step (hshort : ∀ m ∈ msgs, (marshal m).length < defaultBufferSize) {past : List ℕ}
    {i : ℕ} (h : Whole msgs past s) (hs : step s i = some s') : Whole msgs (past ++ [i]) s' := by
  obtain ⟨chunk, rest, hp, rfl⟩ := step_cases hs
  have hnot : i ∉ past := fun hi => by simp [h.written i hi] at hp
  rw [h.waiting i hnot] at hp
  cases hm : msgs[i]? with
  | none => simp [start_pending_none hm] at hp
  | some m =>
    rw [start_pending hm, writeStream_short (hshort m (List.mem_of_getElem? hm)),
      List.cons.injEq] at hp
    obtain ⟨rfl, rfl⟩ := hp
    refine ⟨?_, ?_, ?_, ?_, ?_⟩
    · exact List.nodup_append_comm.1 (h.nodup.cons hnot)
    · intro j hj
      rcases List.mem_append.1 hj with hj | hj
      · exact h.bound j hj
      · obtain rfl := List.mem_singleton.1 hj
        exact (List.getElem?_eq_some_iff.1 hm).1
    · simp [sent, hm, h.stream]
    · intro j hj
      by_cases hji : j = i
      · simp [hji]
      · have hj : j ∈ past := by simpa [hji] using hj
        simpa [hji] using h.written j hj
    · intro j hj
      simp only [List.mem_append, List.mem_singleton, not_or] at hj
      simpa [hj.2] using h.waiting j hj.1

theorem sent_range (msgs : List WrappedMessage) : sent msgs (List.range msgs.length) = msgs := by
  have hmap : (List.range msgs.length).map (fun i => msgs[i]?) = msgs.map some := by
    apply List.ext_getElem
    · simp
    · intro i h h'
      simp at h
      simp [h]
  have hsent := congrArg (List.filterMap id) hmap
  rw [List.filterMap_map, List.filterMap_map] at hsent
  simpa [sent] using hsent

/-- Calls whose messages fit the buffer write whole messages, each its own. -/
theorem stream_short (hshort : ∀ m ∈ msgs, (marshal m).length < defaultBufferSize) {es : List ℕ}
    (hrun : exec step (start msgs) es = some s) (hdone : s.Done) :
    ∃ order : List WrappedMessage, order.Perm msgs ∧ s.stream = order.flatMap frame := by
  have hinit : Whole msgs [] (start msgs) := ⟨by simp, by simp, rfl, by simp, fun _ _ => rfl⟩
  have h : Whole msgs es s := by
    simpa using exec_history (fun past s i s' h _ hs => whole_step hshort h hs) hinit
      along_true hrun
  have hall : ∀ i, i ∈ es ↔ i ∈ List.range msgs.length := by
    intro i
    rw [List.mem_range]
    refine ⟨h.bound i, fun hi => ?_⟩
    by_contra hnot
    have hp := h.waiting i hnot
    rw [hdone i, start_pending (List.getElem?_eq_getElem hi),
      writeStream_short (hshort _ (List.getElem_mem hi))] at hp
    cases hp
  have hperm : es.Perm (List.range msgs.length) :=
    (List.perm_ext_iff_of_nodup h.nodup List.nodup_range).2 hall
  refine ⟨sent msgs es, ?_, h.stream⟩
  have hsent := hperm.filterMap fun i => msgs[i]?
  rwa [← sent, ← sent, sent_range] at hsent

/-! ### Letting calls finish -/

theorem exec_drain (s : State) (i : ℕ) :
    exec step s (List.replicate (s.pending i).length i) =
      some ⟨Function.update s.pending i [], s.stream ++ (s.pending i).flatten⟩ := by
  generalize hp : s.pending i = chunks
  induction chunks generalizing s with
  | nil =>
    rw [← hp, Function.update_eq_self, hp]
    simp
  | cons chunk rest ih =>
    have hstep : step s i = some ⟨Function.update s.pending i rest, s.stream ++ chunk⟩ := by
      simp [step, hp]
    have hrest := ih ⟨Function.update s.pending i rest, s.stream ++ chunk⟩ (by simp)
    rw [List.length_cons, List.replicate_succ]
    refine exec_cons.2 ⟨_, hstep, hrest.trans ?_⟩
    simp

theorem exec_drain_below (n : ℕ) (s : State) :
    ∃ es s', exec step s es = some s' ∧ s.stream <+: s'.stream ∧ (∀ i < n, s'.pending i = []) ∧
      ∀ i, n ≤ i → s'.pending i = s.pending i := by
  induction n with
  | zero => exact ⟨[], s, rfl, List.prefix_rfl, by simp, fun _ _ => rfl⟩
  | succ n ih =>
    obtain ⟨es, m, hrun, hstream, hdone, hrest⟩ := ih
    refine ⟨es ++ _, _, exec_append hrun (exec_drain m n), ?_, ?_, ?_⟩
    · exact hstream.trans (List.prefix_append _ _)
    · intro i hi
      by_cases hin : i = n
      · simp [hin]
      · simpa [hin] using hdone i (by omega)
    · intro i hi
      have hin : i ≠ n := by omega
      simpa [hin] using hrest i (by omega)

/-- A message that does not fit the buffer can be torn by any other. -/
theorem exists_torn {i j : ℕ} {m m' : WrappedMessage} (hi : msgs[i]? = some m)
    (hj : msgs[j]? = some m') (hij : i ≠ j) (hlong : defaultBufferSize ≤ (marshal m).length) :
    ∃ es s, exec step (start msgs) es = some s ∧ s.Done ∧
      ∀ decode remotePeerID, processMessagesFromStream decode remotePeerID s.stream = [] := by
  obtain ⟨rest, hwrites⟩ := writeStream_long hlong
  have hlen : ∀ {k m}, msgs[k]? = some m → k < msgs.length :=
    fun h => (List.getElem?_eq_some_iff.1 h).1
  -- the first part of the long message, then the whole of the other one
  have hfirst : exec step (start msgs) [i] = some
      ⟨Function.update (start msgs).pending i rest, (marshal m).take defaultBufferSize⟩ := by
    refine exec_cons.2 ⟨_, ?_, rfl⟩
    simp only [step, start_pending hi, hwrites]
    rfl
  have hother := exec_drain
    ⟨Function.update (start msgs).pending i rest, (marshal m).take defaultBufferSize⟩ j
  simp only [Function.update_of_ne hij.symm, start_pending hj, writeStream,
    flatten_bufferedWrites] at hother
  obtain ⟨es, s, hrun, hstream, hdone, hrest⟩ := exec_drain_below msgs.length _
  refine ⟨_, s, exec_append hfirst (exec_append hother hrun), fun k => ?_, ?_⟩
  · by_cases hk : k < msgs.length
    · exact hdone k hk
    · have hki : k ≠ i := fun heq => hk (heq ▸ hlen hi)
      have hkj : k ≠ j := fun heq => hk (heq ▸ hlen hj)
      rw [hrest k (not_lt.1 hk)]
      simpa [hki, hkj] using start_pending_none (List.getElem?_eq_none (not_lt.1 hk))
  · intro decode remotePeerID
    obtain ⟨tail, htail⟩ := hstream
    rw [← htail]
    refine process_torn (List.take_prefix _ _) ?_ tail
    intro hnil
    have hlength := congrArg List.length hnil
    rw [List.length_take, List.length_nil, min_eq_left hlong] at hlength
    exact absurd hlength (by decide)

/-- The receiver decodes the messages sent, each once, in every order of the `Write`s exactly when
no message has to share the stream or all fit the buffer with their newline. -/
theorem shared_stream_iff (hfrom : ∀ m ∈ msgs, m.fromPeer = remotePeerID)
    (hjson : ∀ m ∈ msgs, decode (marshal m) = some { m with fromPeer := "" }) :
    (∀ es s, exec step (start msgs) es = some s → s.Done →
      (processMessagesFromStream decode remotePeerID s.stream).Perm msgs) ↔
      msgs.length ≤ 1 ∨ ∀ m ∈ msgs, (marshal m).length < defaultBufferSize := by
  constructor
  · intro hall
    by_contra hnot
    simp only [not_or, not_le, not_forall, not_lt, exists_prop] at hnot
    obtain ⟨hlength, m, hm, hlong⟩ := hnot
    obtain ⟨i, hi⟩ := List.mem_iff_getElem?.1 hm
    -- some other call
    obtain ⟨j, hij, hj⟩ : ∃ j, i ≠ j ∧ j < msgs.length := by
      by_cases h0 : i = 0
      · exact ⟨1, by omega, hlength⟩
      · exact ⟨0, h0, by omega⟩
    obtain ⟨es, s, hrun, hdone, htorn⟩ :=
      exists_torn hi (List.getElem?_eq_getElem hj) hij hlong
    have hperm := hall es s hrun hdone
    rw [htorn, List.nil_perm] at hperm
    simp [hperm] at hlength
  · intro hcond es s hrun hdone
    obtain ⟨order, hperm, hstream⟩ : ∃ order : List WrappedMessage, order.Perm msgs ∧
        s.stream = order.flatMap frame := by
      rcases hcond with hone | hshort
      · match msgs, hone with
        | [], _ => exact stream_short (by simp) hrun hdone
        | [m], _ => exact ⟨[m], List.Perm.refl _, stream_one hrun hdone⟩
      · exact stream_short hshort hrun hdone
    rw [hstream, process_frames (fun m hm => hfrom m (hperm.subset hm))
      fun m hm => hjson m (hperm.subset hm)]
    exact hperm

/-- A decoder that knows the messages. -/
def decodeAmong (msgs : List WrappedMessage) (data : List UInt8) : Option WrappedMessage :=
  (msgs.find? fun m => marshal m = data).map fun m => { m with fromPeer := "" }

def shortMessages : List WrappedMessage :=
  [⟨0, "keygen", some [1, 2, 3], "relayer"⟩, ⟨4, "keygen", none, "relayer"⟩]

/-- Two short messages arrive whole in every order of the `Write`s. -/
theorem shared_stream_short_messages :
    (∀ m ∈ shortMessages, (marshal m).length < defaultBufferSize) ∧
    ∀ es s, exec step (start shortMessages) es = some s → s.Done →
      (processMessagesFromStream (decodeAmong shortMessages) "relayer" s.stream).Perm
        shortMessages := by
  have hshort : ∀ m ∈ shortMessages, (marshal m).length < defaultBufferSize := by decide
  exact ⟨hshort, (shared_stream_iff (by decide) (by decide)).2 (Or.inr hshort)⟩

/-- A message with 16000 bytes of payload needs two `Write`s. With another call's message between
them the receiver decodes neither, however it decodes the fields. -/
theorem shared_stream_torn :
    ∃ es s, exec step (start [⟨0, "keygen", some (List.replicate 16000 0), "relayer"⟩,
      ⟨4, "keygen", none, "relayer"⟩]) es = some s ∧ s.Done ∧
      ∀ decode, processMessagesFromStream decode "relayer" s.stream = [] := by
  have hlong : defaultBufferSize ≤
      (marshal ⟨0, "keygen", some (List.replicate 16000 0), "relayer"⟩).length := by
    have hlength := payload_le_marshal 0 "keygen" (List.replicate 16000 0) "relayer"
    rw [List.length_replicate] at hlength
    exact le_trans (by decide) hlength
  obtain ⟨es, s, hrun, hdone, htorn⟩ := @exists_torn
    [⟨0, "keygen", some (List.replicate 16000 0), "relayer"⟩, ⟨4, "keygen", none, "relayer"⟩]
    0 1 _ _ rfl rfl (by decide) hlong
  exact ⟨es, s, hrun, hdone, fun decode => htorn decode "relayer"⟩

end Sygma.Framing
