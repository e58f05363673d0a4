import SygmaRelayer.Lib.BufferedReader
import SygmaRelayer.Spec.StreamFraming

/-! `ReadStream` (`comm/p2p/util.go`) on the `bufio.Reader` that `ProcessMessagesFromStream`
(`comm/p2p/libp2p.go`) makes of a stream, which delivers its bytes in pieces. -/

namespace Sygma.StreamReader

open BufferedReader Framing

/-- What the reader gets from `Read` of the stream. -/
abbrev Stream := Transport UInt8 String

/-- `bufio.NewReader` -/
def newReader (s : Stream) : Reader UInt8 String := ⟨4096, by decide, [], none, s⟩

def errorText : Fault String → String
  | .read err => err
  | .noProgress => "multiple Read calls return no data or error"

/-- `ReadStream` -/
def readStream (r : Reader UInt8 String) : Except String (List UInt8) × Reader UInt8 String :=
  match r.readString newline with
  | (_, some err, r') => (.error (errorText err), r')
  | (msg, none, r') =>
    if msg = [] then (.error "end of stream reached", r') else (.ok (trim msg), r')

theorem readStream_length {r r' : Reader UInt8 String} {msgBytes : List UInt8}
    (h : readStream r = (.ok msgBytes, r')) : r'.content.length < r.content.length := by
  have hcontent := congrArg List.length (r.content_readString newline)
  unfold readStream at h
  split at h
  · cases h
  · rename_i msg r₁ hread
    split_ifs at h with hmsg
    · cases h
    · cases h
      have hpos := List.length_pos_iff.2 hmsg
      simp only [hread, List.length_append] at hcontent
      omega

/-- What repeated calls of `ReadStream` return, and the error that ends them. -/
def readMessages (r : Reader UInt8 String) : List (List UInt8) × String :=
  match _hread : readStream r with
  | (.error err, _) => ([], err)
  | (.ok msgBytes, r') => (msgBytes :: (readMessages r').1, (readMessages r').2)
termination_by r.content.length
decreasing_by
  exact readStream_length _hread

/-- `ProcessMessagesFromStream` -/
def processMessagesFromStream (decode : List UInt8 → Option WrappedMessage) (remotePeerID : PeerID)
    (r : Reader UInt8 String) : List WrappedMessage :=
  match _hread : readStream r with
  | (.error _, _) => []
  | (.ok msgBytes, r') =>
    match unmarshal decode msgBytes with
    | none => []
    | some wrappedMsg =>
      { wrappedMsg with fromPeer := remotePeerID } ::
        processMessagesFromStream decode remotePeerID r'
termination_by r.content.length
decreasing_by exact readStream_length _hread

end Sygma.StreamReader
