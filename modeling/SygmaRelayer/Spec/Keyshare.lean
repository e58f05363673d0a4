import SygmaRelayer.Lib.Fallible
import SygmaRelayer.Spec.Election

/-! The keyshare stores (`keyshare/ecdsa.go`, `keyshare/frost.go`): `StoreKeyshare` and
`GetKeyshare` on the keyshare file. `StoreKeyshare` truncates the file when it opens it,
before the share is serialised and written. -/

namespace Sygma.KeyshareStore

open Fallible

/-- `ECDSAKeyshare`, `FrostKeyshare` and `frostKeyshareStore` -/
structure Keyshare (Key : Type) where
  key : Key
  threshold : ℤ
  peers : List PeerID
deriving DecidableEq, Repr

/-- `frost.TaprootConfig`; a map is the list of its entries in the order a `range` visits them. -/
structure TaprootConfig (Scalar Point : Type) where
  id : String
  threshold : ℤ
  privateShare : Scalar
  publicKey : List UInt8
  chainKey : List UInt8
  verificationShares : List (String × Point)
deriving DecidableEq, Repr

/-- `frostKey` -/
structure FrostKey where
  id : String
  threshold : ℤ
  privateShare : List UInt8
  publicKey : List UInt8
  chainKey : List UInt8
  verificationShares : List (String × List UInt8)
deriving DecidableEq, Repr

/-- `encoding/json` on a struct type: its text ends with the brace that closes it, so nothing
shorter is a text. -/
structure Json (α : Type) where
  marshal : α → Except String (List UInt8)
  unmarshal : List UInt8 → Except String α
  truncated : ∀ {a text front}, marshal a = .ok text → front <+: text → front ≠ text →
    ∃ err, unmarshal front = .error err
  empty : ∃ err, unmarshal [] = .error err

/-- The binary encodings of the curve library. -/
structure Curve (Scalar Point : Type) where
  marshalScalar : Scalar → Except String (List UInt8)
  unmarshalScalar : List UInt8 → Except String Scalar
  marshalPoint : Point → Except String (List UInt8)
  unmarshalPoint : List UInt8 → Except String Point

/-- How a store writes and reads a key share. -/
structure Scheme (Share : Type) where
  serialise : Share → Except String (List UInt8)
  parse : List UInt8 → Except String Share
  truncated : ∀ {share kb front}, serialise share = .ok kb → front <+: kb → front ≠ kb →
    ∃ err, parse front = .error err
  empty : ∃ err, parse [] = .error err

section Schemes

variable {Key Scalar Point : Type}

/-- `json.Unmarshal` with the error of `GetKeyshare`. -/
def unmarshalFile {α : Type} (json : Json α) (kb : List UInt8) : Except String α :=
  match json.unmarshal kb with
  | .error err => .error ("error on unmarshaling keyshare file: " ++ err)
  | .ok a => .ok a

theorem unmarshalFile_error {α : Type} {json : Json α} {kb : List UInt8}
    (h : ∃ err, json.unmarshal kb = .error err) : ∃ err, unmarshalFile json kb = .error err := by
  obtain ⟨err, h⟩ := h
  exact ⟨_, by rw [unmarshalFile, h]⟩

/-- `ECDSAKeyshareStore` -/
def ecdsa (json : Json (Keyshare Key)) : Scheme (Keyshare Key) where
  serialise := json.marshal
  parse := unmarshalFile json
  truncated h hfront hne := unmarshalFile_error (json.truncated h hfront hne)
  empty := unmarshalFile_error json.empty

variable (curve : Curve Scalar Point) (json : Json (Keyshare FrostKey))

/-- What `FrostKeyshareStore.StoreKeyshare` makes of a share. -/
def toFrostKeyshareStore (keyshare : Keyshare (TaprootConfig Scalar Point)) :
    Except String (Keyshare FrostKey) := do
  let privateShare ← curve.marshalScalar keyshare.key.privateShare
  let verificationShares ← keyshare.key.verificationShares.mapM fun (id, point) => do
    return (id, ← curve.marshalPoint point)
  return ⟨⟨keyshare.key.id, keyshare.key.threshold, privateShare, keyshare.key.publicKey,
    keyshare.key.chainKey, verificationShares⟩, keyshare.threshold, keyshare.peers⟩

/-- What `FrostKeyshareStore.GetKeyshare` makes of what it has read. -/
def ofFrostKeyshareStore (fStore : Keyshare FrostKey) :
    Except String (Keyshare (TaprootConfig Scalar Point)) := do
  let privateShare ← curve.unmarshalScalar fStore.key.privateShare
  let verificationShares ← fStore.key.verificationShares.mapM fun (id, pointBytes) => do
    return (id, ← curve.unmarshalPoint pointBytes)
  return ⟨⟨fStore.key.id, fStore.key.threshold, privateShare, fStore.key.publicKey,
    fStore.key.chainKey, verificationShares⟩, fStore.threshold, fStore.peers⟩

theorem ofFile_error {kb : List UInt8} (h : ∃ err, json.unmarshal kb = .error err) :
    ∃ err, (unmarshalFile json kb >>= ofFrostKeyshareStore curve) = .error err := by
  obtain ⟨err, h⟩ := unmarshalFile_error h
  exact ⟨err, by rw [h]; rfl⟩

/-- `FrostKeyshareStore` -/
def frost : Scheme (Keyshare (TaprootConfig Scalar Point)) where
  serialise keyshare := toFrostKeyshareStore curve keyshare >>= json.marshal
  parse kb := unmarshalFile json kb >>= ofFrostKeyshareStore curve
  truncated h hfront hne := by
    obtain ⟨fStore, -, h⟩ := bind_eq_ok.1 h
    exact ofFile_error curve json (json.truncated h hfront hne)
  empty := ofFile_error curve json json.empty

end Schemes

/-- The keyshare file: its bytes, or why it cannot be read. -/
abbrev File := Except String (List UInt8)

/-- How the file operations of a `StoreKeyshare` call end; a failed `Write` has written some of
the bytes. -/
structure Disk where
  openFile : Option String
  write : Option (ℕ × String)
deriving DecidableEq, Repr

variable {Share : Type} (s : Scheme Share)

/-- `StoreKeyshare`: the file it leaves, and its result. -/
def storeKeyshare (disk : Disk) (file : File) (keyshare : Share) : File × Except String Unit :=
  match disk.openFile with
  | some err => (file, .error err)
  | none =>
    match s.serialise keyshare with
    | .error err => (.ok [], .error err)
    | .ok kb =>
      match disk.write with
      | some (n, err) => (.ok (kb.take n), .error err)
      | none => (.ok kb, .ok ())

def getKeyshare (file : File) : Except String Share :=
  match file with
  | .error err => .error ("error on reading keyshare file: " ++ err)
  | .ok kb => s.parse kb

end Sygma.KeyshareStore
