import SygmaRelayer.Proofs.SharedStream
import SygmaRelayer.Spec.StreamReader

/-! Messages that were written with `WriteStream` are read back with `ReadStream`, however the
stream splits their bytes. A reader returns what the bytes as a whole say, so what holds of
`ProcessMessagesFromStream` on the bytes holds on every split of them. -/

namespace Sygma.StreamReader

open BufferedReader Framing

variable {r r' : Reader UInt8 String} {line rest : List UInt8}

theorem ok_newReader {s : Stream} (h : s.Patient) : (newReader s).Ok where
  patient := h
  ended e he := by cases he

theorem readStream_line (h : r.Ok) (hcontent : r.content = line ++ newline :: rest)
    (hline : newline ∉ line) :
    ∃ r', readStream r = (.ok line, r') ∧ r'.content = rest ∧ r'.rd.final = r.rd.final ∧ r'.Ok := by
  obtain ⟨r', hread, hrest⟩ := h.readString_line hcontent hline
  refine ⟨r', ?_, hrest⟩
  simp [readStream, hread, trim_line hline]

theorem readStream_end (h : r.Ok) (hcontent : newline ∉ r.content) :
    ∃ r', readStream r = (.error r.rd.final, r') := by
  obtain ⟨r', hread⟩ := h.readString_end hcontent
  exact ⟨r', by simp [readStream, hread, errorText]⟩

section Process

variable {decode : List UInt8 → Option WrappedMessage} {remotePeerID : PeerID}

theorem process_ok {msgBytes : List UInt8} (h : readStream r = (.ok msgBytes, r')) :
    processMessagesFromStream decode remotePeerID r =
      match unmarshal decode msgBytes with
      | none => []
      | some wrappedMsg => { wrappedMsg with fromPeer := remotePeerID } ::
          processMessagesFromStream decode remotePeerID r' := by
  rw [processMessagesFromStream]
  split
  · simp_all
  · rename_i msgBytes' r₁ hread
    obtain ⟨rfl, rfl⟩ : msgBytes = msgBytes' ∧ r' = r₁ := by simpa [hread, eq_comm] using h
    rfl

theorem process_error {err : String} (h : readStream r = (.error err, r')) :
    processMessagesFromStream decode remotePeerID r = [] := by
  rw [processMessagesFromStream]
  split <;> simp_all

theorem process_eq (h : r.Ok) :
    processMessagesFromStream decode remotePeerID r =
      Framing.processMessagesFromStream decode remotePeerID r.content := by
  generalize hstream : r.content = stream
  induction hn : stream.length using Nat.strong_induction_on generalizing r stream with
  | _ n ih =>
    by_cases hmem : newline ∈ stream
    · obtain ⟨line, rest, rfl, hline⟩ := List.eq_append_cons_of_mem hmem
      obtain ⟨r', hread, hrest, -, hok⟩ := readStream_line h hstream hline
      have hnext := ih rest.length (by simp at hn; omega) hok rest hrest rfl
      rw [process_ok hread, process_line hline]
      cases unmarshal decode line with
      | none => rfl
      | some wrappedMsg => simp only [hnext]
    · subst hstream
      obtain ⟨r', hread⟩ := readStream_end h hmem
      rw [process_error hread, process_end hmem]

end Process

theorem readMessages_ok {msgBytes : List UInt8} (h : readStream r = (.ok msgBytes, r')) :
    readMessages r = (msgBytes :: (readMessages r').1, (readMessages r').2) := by
  rw [readMessages]
  split <;> simp_all

theorem readMessages_error {err : String} (h : readStream r = (.error err, r')) :
    readMessages r = ([], err) := by
  rw [readMessages]
  split <;> simp_all

theorem flatten_writeStream (msgs : List (List UInt8)) :
    (msgs.flatMap writeStream).flatten = msgs.flatMap (· ++ [newline]) := by
  induction msgs with
  | nil => rfl
  | cons msg msgs ih =>
    rw [List.flatMap_cons, List.flatten_append, ih, writeStream, flatten_bufferedWrites,
      List.flatMap_cons]

theorem readMessages_lines {msgs : List (List UInt8)} (hmsgs : ∀ msg ∈ msgs, newline ∉ msg)
    (h : r.Ok) (hcontent : r.content = msgs.flatMap (· ++ [newline])) :
    readMessages r = (msgs, r.rd.final) := by
  induction msgs generalizing r with
  | nil =>
    obtain ⟨r', hread⟩ := readStream_end h (by simp [hcontent])
    exact readMessages_error hread
  | cons msg msgs ih =>
    obtain ⟨hmsg, hmsgs⟩ := List.forall_mem_cons.1 hmsgs
    have hline : r.content = msg ++ newline :: msgs.flatMap (· ++ [newline]) := by simp [hcontent]
    obtain ⟨r', hread, hrest, hfinal, hok⟩ := readStream_line h hline hmsg
    rw [readMessages_ok hread, ih hmsgs hok hrest, hfinal]

/-- The messages come back in order, and then the error at the end of the stream. An empty message
would come back too; a stream that delivers only non-empty pieces is patient. -/
theorem written_messages_are_read {msgs : List (List UInt8)} (hmsgs : ∀ msg ∈ msgs, newline ∉ msg)
    {s : Stream} (hpatient : s.Patient) (hbytes : s.content = (msgs.flatMap writeStream).flatten) :
    readMessages (newReader s) = (msgs, s.final) := by
  rw [flatten_writeStream] at hbytes
  exact readMessages_lines hmsgs (ok_newReader hpatient) hbytes

/-- Two messages in three pieces, the middle one with parts of both. -/
def splitStream : Stream := ⟨[[97], [98, 10, 99], [100, 10]], "EOF", true⟩

theorem written_messages_are_read_split :
    splitStream.content = (([[97, 98], [99, 100]] : List (List UInt8)).flatMap writeStream).flatten ∧
      readMessages (newReader splitStream) = ([[97, 98], [99, 100]], "EOF") := by
  have hbytes : splitStream.content =
      (([[97, 98], [99, 100]] : List (List UInt8)).flatMap writeStream).flatten := by
    rw [flatten_writeStream]
    rfl
  have hmsgs : ∀ msg ∈ ([[97, 98], [99, 100]] : List (List UInt8)), newline ∉ msg := by decide
  have hpatient : splitStream.Patient := Transport.patient_of_ne_nil (by decide)
  exact ⟨hbytes, written_messages_are_read hmsgs hpatient hbytes⟩

end Sygma.StreamReader
