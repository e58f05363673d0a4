import Mathlib.Logic.Function.Basic
import SygmaRelayer.Lib.JsonWriter
import SygmaRelayer.Spec.Election
import SygmaRelayer.Spec.Subscription

/-! Messages on a stream: `WriteStream` and `ReadStream` (`comm/p2p/util.go`), the write that ends
`sendMessage` and the loop of `ProcessMessagesFromStream` (`comm/p2p/libp2p.go`). Calls that
share a stream have a `bufio.Writer` each, so their `Write`s come in any order. -/

namespace Sygma.Framing

/-- `comm.WrappedMessage`; a nil payload is `none`. -/
structure WrappedMessage where
  messageType : Comm.MessageType
  sessionID : String
  payload : Option (List UInt8)
  fromPeer : PeerID
deriving DecidableEq, Repr

/-- `json.Marshal` of a message; `From` is left out. -/
def marshal (wMsg : WrappedMessage) : List UInt8 :=
  JsonWriter.object "message_type" (JsonWriter.decimal wMsg.messageType)
    [("message_id", JsonWriter.quote wMsg.sessionID), ("payload", JsonWriter.bytes wMsg.payload)]

/-- `json.Unmarshal`: the syntax is checked before the fields are decoded. -/
def unmarshal (decode : List UInt8 → Option WrappedMessage) (data : List UInt8) :
    Option WrappedMessage :=
  if JsonScanner.Valid data then decode data else none

def defaultBufferSize : ℕ := 20480

def newline : UInt8 := 0x0a

/-- The `Write`s of an empty `bufio.Writer` for a `WriteString` and a `Flush`. -/
def bufferedWrites (s : List UInt8) : List (List UInt8) :=
  if s.length ≤ defaultBufferSize then if s = [] then [] else [s]
  else s.take defaultBufferSize :: bufferedWrites (s.drop defaultBufferSize)
termination_by s.length
decreasing_by
  simp only [List.length_drop, defaultBufferSize] at *
  omega

/-- `WriteStream` -/
def writeStream (msg : List UInt8) : List (List UInt8) := bufferedWrites (msg ++ [newline])

/-- `ReadString` up to the first newline: what it returns, and what is left of the stream. -/
def readString (stream : List UInt8) : Except String (List UInt8 × List UInt8) :=
  match stream.dropWhile (· ≠ newline) with
  | [] => .error "EOF"
  | delim :: rest => .ok (stream.takeWhile (· ≠ newline) ++ [delim], rest)

def trim (msg : List UInt8) : List UInt8 :=
  ((msg.dropWhile (· = newline)).reverse.dropWhile (· = newline)).reverse

/-- `ReadStream` -/
def readStream (stream : List UInt8) : Except String (List UInt8 × List UInt8) :=
  match readString stream with
  | .error err => .error err
  | .ok (msg, rest) => if msg = [] then .error "end of stream reached" else .ok (trim msg, rest)

theorem readString_length {stream msg rest : List UInt8}
    (h : readString stream = .ok (msg, rest)) : rest.length < stream.length := by
  unfold readString at h
  split at h
  · cases h
  · rename_i delim tail hdrop
    cases h
    have hle := (List.dropWhile_suffix (l := stream) (· ≠ newline)).length_le
    rw [hdrop] at hle
    exact hle

theorem readStream_length {stream msgBytes rest : List UInt8}
    (h : readStream stream = .ok (msgBytes, rest)) : rest.length < stream.length := by
  unfold readStream at h
  split at h
  · cases h
  · rename_i msg tail hread
    split_ifs at h
    cases h
    exact readString_length hread

/-- `ProcessMessagesFromStream`: the messages decoded from the bytes of the stream. -/
def processMessagesFromStream (decode : List UInt8 → Option WrappedMessage)
    (remotePeerID : PeerID) (stream : List UInt8) : List WrappedMessage :=
  match _hread : readStream stream with
  | .error _ => []
  | .ok (msgBytes, rest) =>
    match unmarshal decode msgBytes with
    | none => []
    | some wrappedMsg =>
      { wrappedMsg with fromPeer := remotePeerID } ::
        processMessagesFromStream decode remotePeerID rest
termination_by stream.length
decreasing_by exact readStream_length ‹_›

/-- Calls of `sendMessage` that share a stream: the `Write`s each has still to make, and what
was written. -/
structure State where
  pending : ℕ → List (List UInt8)
  stream : List UInt8

def start (msgs : List WrappedMessage) : State where
  pending i := match msgs[i]? with
    | some wMsg => writeStream (marshal wMsg)
    | none => []
  stream := []

/-- The call makes its next `Write`. -/
def step (s : State) (i : ℕ) : Option State :=
  match s.pending i with
  | [] => none
  | chunk :: rest => some ⟨Function.update s.pending i rest, s.stream ++ chunk⟩

/-- All calls have returned. -/
def State.Done (s : State) : Prop := ∀ i, s.pending i = []

end Sygma.Framing
