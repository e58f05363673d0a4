import Mathlib.Logic.Function.Basic
import SygmaRelayer.Lib.Abi
import SygmaRelayer.Lib.CounterMode
import SygmaRelayer.Lib.Text
import SygmaRelayer.Spec.BtcDeposits
import SygmaRelayer.Spec.Keyshare
import SygmaRelayer.Spec.Peerstore

/-! The topology of the relayers: how it is published (`cli/topology/encryptTopology.go`), fetched
(`topology/topology.go`, `topology/encryption.go`) and kept (`topology/store.go`), and who uses it:
the connection gate (`comm/p2p/gater.go`), the peerstore of the host (`comm/p2p/host.go`), `Run`
(`app/app.go`) when it starts and the `RefreshEventHandler` of each EVM domain
(`chains/evm/listener/eventHandlers/tss.go`) when a refresh is announced. -/

namespace Sygma.Topology

open Go
open BtcListener (hexDecode)
open KeyshareStore (File Json)

/-- `peer.AddrInfo`; an address is its text. -/
structure AddrInfo where
  id : PeerID
  addrs : List String
deriving DecidableEq, Repr

structure NetworkTopology where
  peers : List AddrInfo
  threshold : ℤ
deriving DecidableEq, Repr

def NetworkTopology.isAllowedPeer (nt : NetworkTopology) (peer : PeerID) : Bool :=
  nt.peers.any fun p => p.id = peer

structure RawPeer where
  peerAddress : String
deriving DecidableEq, Repr

structure RawTopology where
  peers : List RawPeer
  threshold : String
deriving DecidableEq, Repr

/-! ### Publishing and fetching -/

/-- The libraries a `TopologyProvider` calls, and AES with its key. -/
structure Provider where
  sha256 : List UInt8 → Abi.FixedBytes 32
  block : List UInt8 → List UInt8
  /-- the text of the error of `hex.DecodeString` -/
  hexError : List UInt8 → String
  /-- `json.Unmarshal` into a `RawTopology` -/
  unmarshalRaw : List UInt8 → Except String RawTopology
  addrInfoFromString : String → Except String AddrInfo
  /-- `strconv.ParseInt(s, 0, 0)` -/
  parseInt : String → Except String ℤ

/-- `hex.EncodeToString` -/
def hexEncodeToString (src : List UInt8) : String :=
  String.ofList (src.flatMap fun b => [Nat.digitChar (b.toNat / 16), Nat.digitChar (b.toNat % 16)])

/-- `strings.TrimSuffix(s, "\n")` -/
def trimNewline (s : List UInt8) : List UInt8 := if s.getLast? = some 10 then s.dropLast else s

variable (p : Provider)

/-- `AESEncryption.Decrypt`: `ct[aes.BlockSize:]` panics on less than a block. -/
def decrypt (ct : List UInt8) : Outcome (List UInt8) :=
  if ct.length < 16 then .error .panic
  else .ok (CounterMode.xorKeyStream p.block (ct.take 16) (ct.drop 16))

/-- `AESEncryption.Encrypt` with the `iv` that `rand.Read` gave. -/
def encrypt (iv data : List UInt8) : List UInt8 := iv ++ CounterMode.xorKeyStream p.block iv data

def parsePeer (peer : RawPeer) : Except String AddrInfo :=
  match p.addrInfoFromString peer.peerAddress with
  | .error err => .error ("invalid peer address " ++ peer.peerAddress ++ ": " ++ err)
  | .ok addrInfo => .ok addrInfo

def processRawTopology (rawTopology : RawTopology) : Except String NetworkTopology := do
  let peers ← rawTopology.peers.mapM (parsePeer p)
  match p.parseInt rawTopology.threshold with
  | .error err => .error ("unable to parse mpc threshold from topology " ++ err)
  | .ok threshold =>
    -- the error in the text is the one of `ParseInt`
    if threshold < 1 then .error "mpc threshold must be bigger then 0 <nil>"
    else .ok ⟨peers, threshold⟩

/-- What a topology file stands for. -/
def readRaw (text : List UInt8) : Except String NetworkTopology :=
  p.unmarshalRaw text >>= processRawTopology p

/-- `TopologyProvider.NetworkTopology` on the answer of the server. -/
def networkTopology (hash : String) (response : Except String (List UInt8)) :
    Outcome NetworkTopology := do
  let body ← response.mapError .error
  let (ct, true) := hexDecode (trimNewline body) |
    .error (.error (p.hexError (trimNewline body)))
  let eh := hexEncodeToString (p.sha256 ct).1
  if hash ≠ "" ∧ eh ≠ hash then
    .error (.error ("topology hash " ++ eh ++ " not matching expected hash " ++ hash))
  else
    let unecryptedBody ← decrypt p ct
    (readRaw p unecryptedBody).mapError .error

/-- `encryptTopology`: the encrypted topology and the hash it prints. -/
def encryptTopology (iv file : List UInt8) : Except String (String × String) := do
  match p.unmarshalRaw file with
  | .error err => .error ("topology was wrong formed " ++ err)
  | .ok _ =>
    let ct := encrypt p iv file
    return (hexEncodeToString ct, hexEncodeToString (p.sha256 ct).1)

/-! ### The connection gate -/

namespace ConnectionGate

def interceptPeerDial (topology : NetworkTopology) (peer : PeerID) : Bool :=
  topology.isAllowedPeer peer

def interceptSecured (topology : NetworkTopology) (peer : PeerID) : Bool :=
  topology.isAllowedPeer peer

end ConnectionGate

/-! ### A relayer -/

/-- A provider, the peerstore of the host, and `encoding/json` on the pointer to a topology that the
store writes and reads; a `nil` pointer has the text `null`. -/
structure Relayer (Store : Type) extends Provider where
  store : Peerstore Store
  json : Json (Option NetworkTopology)
  roundTrip : ∀ {t text}, json.marshal (some t) = .ok text → json.unmarshal text = .ok (some t)

/-- `Run` until it has made the host, and the `RefreshEventHandler`s after that. -/
inductive Thread
  | run
  | handler (domainID : UInt8)
deriving DecidableEq, Repr

/-- Where a thread is. -/
inductive Pc
  | idle
  /-- calls `StoreTopology` -/
  | storing (t : NetworkTopology)
  /-- has opened the file, which is empty now, and holds `mu` -/
  | writing (t : NetworkTopology)
  /-- `StoreTopology` has returned `nil` -/
  | stored (t : NetworkTopology)
  /-- calls `LoadPeers` -/
  | loading (t : NetworkTopology)
  /-- the first loop of `LoadPeers`, with the peers still to remove -/
  | clearing (t : NetworkTopology) (peers : List PeerID)
  /-- the second loop, with the peers still to add -/
  | adding (t : NetworkTopology) (peers : List AddrInfo)
  /-- in `Execute` of the resharing -/
  | resharing (t : NetworkTopology)
deriving DecidableEq, Repr

structure State (Store : Type) where
  file : File
  gate : Option NetworkTopology
  /-- the peerstore of the host, which `Run` makes after the gate -/
  peerstore : Store
  /-- the mutex of the topology store -/
  mu : Option Thread
  pc : Thread → Pc
  /-- `Run` has made the host, and the listeners run -/
  up : Bool

variable {Store : Type}

def State.goto (s : State Store) (th : Thread) (pc : Pc) : State Store :=
  { s with pc := Function.update s.pc th pc }

variable (r : Relayer Store)

/-- The relayer does not run. -/
def down (file : File) : State Store := ⟨file, none, r.store.fresh, none, fun _ => .idle, false⟩

/-- `TopologyStore.Topology` -/
def topology (file : File) : Except String (Option NetworkTopology) := file >>= r.json.unmarshal

/-- What `HandleEvents` of a refresh handler does before it stores a topology, on the hashes that
`FetchRefreshEvents` returned; there may be nothing to store. -/
def refreshedTopology (refreshEvents : Except String (List String))
    (response : Except String (List UInt8)) : Outcome (Option NetworkTopology) :=
  match refreshEvents with
  | .error err => .error (.error ("unable to fetch keygen events because of: " ++ err))
  | .ok refreshEvents =>
    match refreshEvents.getLast? with
    | none => .ok none
    | some hash =>
      if hash = "" then .ok none
      else match networkTopology r.toProvider hash response with
        | .ok topology => .ok (some topology)
        | .error (.error _) => .ok none
        | .error .panic => .error .panic

inductive Event
  /-- the program is started; `response` is what the server answers if it is asked -/
  | start (response : Except String (List UInt8))
  | handleEvents (domainID : UInt8) (refreshEvents : Except String (List String))
      (response : Except String (List UInt8))
  /-- `Lock` and `OpenFile`, which may fail -/
  | openFile (th : Thread) (err : Option String)
  /-- `Marshal`, and `Write`, which ends after `n` bytes -/
  | write (th : Thread) (n : ℕ)
  /-- `SetTopology` or `NewConnectionGate`, and then `LoadPeers` one access after the other -/
  | advance (th : Thread)
  /-- `Execute` returns -/
  | executed (domainID : UInt8)
  | crash
deriving DecidableEq

/-- `StoreTopology` returns an error, on which `Run` panics and `HandleEvents` returns. -/
def State.storeFailed (s : State Store) : Thread → State Store
  | .run => down r s.file
  | .handler d => { s with mu := none }.goto (.handler d) .idle

/-- `LoadPeers` is done. -/
def State.loaded (s : State Store) (t : NetworkTopology) : Thread → State Store
  | .run => { s with up := true }.goto .run .idle
  | .handler d => s.goto (.handler d) (.resharing t)

def State.advance (s : State Store) (th : Thread) : Option (State Store) :=
  match s.pc th with
  | .stored t => some ({ s with gate := some t }.goto th (.loading t))
  | .loading t => some (s.goto th (.clearing t (r.store.peers s.peerstore)))
  | .clearing t (p :: peers) =>
    some ({ s with peerstore := r.store.removePeer s.peerstore p }.goto th (.clearing t peers))
  | .clearing t [] => some (s.goto th (.adding t t.peers))
  | .adding t (p :: peers) =>
    match p.addrs with
    -- the index `Addrs[0]` is out of range
    | [] => some (down r s.file)
    | addr :: _ =>
      some ({ s with peerstore := r.store.addAddr s.peerstore p.id addr }.goto th (.adding t peers))
  | .adding t [] => some (s.loaded t th)
  | _ => none

/-- `Run` from its first lines to the call of `NewConnectionGate` or `StoreTopology`. -/
def State.start (s : State Store) (response : Except String (List UInt8)) : State Store :=
  match topology r s.file with
  | .ok (some t) => s.goto .run (.stored t)
  -- `NewHost` reads the peers of a nil pointer
  | .ok none => down r s.file
  | .error _ =>
    match networkTopology r.toProvider "" response with
    | .ok t => s.goto .run (.storing t)
    | .error _ => down r s.file

def State.write (s : State Store) (th : Thread) (t : NetworkTopology) (n : ℕ) : Option (State Store) :=
  match r.json.marshal (some t) with
  | .error _ => some (s.storeFailed r th)
  | .ok kb =>
    if n = kb.length then some ({ s with file := .ok kb, mu := none }.goto th (.stored t))
    else if n < kb.length then some ({ s with file := .ok (kb.take n) }.storeFailed r th)
    else none

def step (s : State Store) : Event → Option (State Store)
  | .start response => if s.up = false ∧ s.pc .run = .idle then some (s.start r response) else none
  | .handleEvents d refreshEvents response =>
    if s.up = true ∧ s.pc (.handler d) = .idle then
      match refreshedTopology r refreshEvents response with
      | .ok (some t) => some (s.goto (.handler d) (.storing t))
      | .ok none | .error (.error _) => some s
      | .error .panic => some (down r s.file)
    else none
  | .openFile th err =>
    match s.pc th, s.mu with
    | .storing t, none =>
      match err with
      | some _ => some (s.storeFailed r th)
      | none => some ({ s with file := .ok [], mu := some th }.goto th (.writing t))
    | _, _ => none
  | .write th n =>
    match s.pc th with
    | .writing t => s.write r th t n
    | _ => none
  | .advance th => s.advance r th
  | .executed d =>
    match s.pc (.handler d) with
    | .resharing _ => some (s.goto (.handler d) .idle)
    | _ => none
  | .crash => some (down r s.file)

end Sygma.Topology
