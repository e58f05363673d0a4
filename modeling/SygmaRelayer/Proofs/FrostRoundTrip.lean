import Mathlib.Data.List.Perm.Basic
import SygmaRelayer.Lib.JsonWriter
import SygmaRelayer.Spec.Keyshare

/-! A FROST key share that was stored is read back. The share read is compared with the one stored
up to the order in which its map is ranged over. -/

namespace Sygma.KeyshareStore

open Fallible

theorem storeKeyshare_eq_ok {Share : Type} {s : Scheme Share} {disk : Disk} {file file' : File}
    {keyshare : Share} :
    storeKeyshare s disk file keyshare = (file', .ok ()) ↔
      disk = ⟨none, none⟩ ∧ ∃ kb, s.serialise keyshare = .ok kb ∧ file' = .ok kb := by
  obtain ⟨openFile, write⟩ := disk
  unfold storeKeyshare
  cases openFile with
  | some err => simp
  | none =>
    cases s.serialise keyshare with
    | error err => simp
    | ok kb => cases write <;> simp [eq_comm]

variable {Scalar Point : Type} {curve : Curve Scalar Point} {json : Json (Keyshare FrostKey)}
  {keyshare : Keyshare (TaprootConfig Scalar Point)} {fStore : Keyshare FrostKey}

/-- The two shares differ at most in the order of the map's entries. -/
def SameShare (keyshare keyshare' : Keyshare (TaprootConfig Scalar Point)) : Prop :=
  ∃ entries, entries.Perm keyshare.key.verificationShares ∧
    keyshare' = { keyshare with key := { keyshare.key with verificationShares := entries } }

/-- The same for what is written to the file. -/
def SameStore (fStore fStore' : Keyshare FrostKey) : Prop :=
  ∃ stored, stored.Perm fStore.key.verificationShares ∧
    fStore' = { fStore with key := { fStore.key with verificationShares := stored } }

/-- The curve library reads back what it wrote for the scalar and the points of the key. -/
structure Curve.Inverse (curve : Curve Scalar Point) (key : TaprootConfig Scalar Point) : Prop where
  scalar : ∀ b, curve.marshalScalar key.privateShare = .ok b →
    curve.unmarshalScalar b = .ok key.privateShare
  point : ∀ entry ∈ key.verificationShares, ∀ b, curve.marshalPoint entry.2 = .ok b →
    curve.unmarshalPoint b = .ok entry.2

/-- JSON reads back what it wrote for this structure. -/
def Json.Lossless (json : Json (Keyshare FrostKey)) (fStore : Keyshare FrostKey) : Prop :=
  ∀ kb, json.marshal fStore = .ok kb →
    ∃ fStore', json.unmarshal kb = .ok fStore' ∧ SameStore fStore fStore'

theorem toFrostKeyshareStore_eq_ok :
    toFrostKeyshareStore curve keyshare = .ok fStore ↔
      ∃ privateShare stored, curve.marshalScalar keyshare.key.privateShare = .ok privateShare ∧
        List.Forall₂ (fun entry e => e.1 = entry.1 ∧ curve.marshalPoint entry.2 = .ok e.2)
          keyshare.key.verificationShares stored ∧
        fStore = ⟨⟨keyshare.key.id, keyshare.key.threshold, privateShare, keyshare.key.publicKey,
          keyshare.key.chainKey, stored⟩, keyshare.threshold, keyshare.peers⟩ := by
  simp only [toFrostKeyshareStore, bind_eq_ok, mapM_entries_eq_ok]
  simp [pure, Except.pure, eq_comm]

theorem ofFrostKeyshareStore_eq_ok :
    ofFrostKeyshareStore curve fStore = .ok keyshare ↔
      ∃ privateShare entries, curve.unmarshalScalar fStore.key.privateShare = .ok privateShare ∧
        List.Forall₂ (fun e entry => entry.1 = e.1 ∧ curve.unmarshalPoint e.2 = .ok entry.2)
          fStore.key.verificationShares entries ∧
        keyshare = ⟨⟨fStore.key.id, fStore.key.threshold, privateShare, fStore.key.publicKey,
          fStore.key.chainKey, entries⟩, fStore.threshold, fStore.peers⟩ := by
  simp only [ofFrostKeyshareStore, bind_eq_ok, mapM_entries_eq_ok]
  simp [pure, Except.pure, eq_comm]

/-- What was stored, its map in another order, becomes the share with its map in that order. -/
theorem ofFrostKeyshareStore_same (hinv : curve.Inverse keyshare.key)
    (h : toFrostKeyshareStore curve keyshare = .ok fStore) {fStore' : Keyshare FrostKey}
    (hsame : SameStore fStore fStore') :
    ∃ keyshare', ofFrostKeyshareStore curve fStore' = .ok keyshare' ∧
      SameShare keyshare keyshare' := by
  obtain ⟨privateShare, stored, hscalar, hpoints, rfl⟩ := toFrostKeyshareStore_eq_ok.1 h
  obtain ⟨stored', hperm, rfl⟩ := hsame
  have hback : List.Forall₂ (fun e entry => entry.1 = e.1 ∧ curve.unmarshalPoint e.2 = .ok entry.2)
      stored keyshare.key.verificationShares := by
    have hmem := (List.forall₂_and_left _ _).2 ⟨hinv.point, hpoints⟩
    refine List.Forall₂.flip (hmem.imp fun entry e ⟨hinv, hid, hpoint⟩ => ?_)
    exact ⟨hid.symm, hinv e.2 hpoint⟩
  obtain ⟨entries, hentries, hperm'⟩ := List.perm_comp_forall₂ hperm hback
  refine ⟨_, ofFrostKeyshareStore_eq_ok.2 ⟨_, entries, hinv.scalar _ hscalar, hentries, rfl⟩, ?_⟩
  exact ⟨entries, hperm', rfl⟩

/-- A share that `StoreKeyshare` stored is the one `GetKeyshare` returns, whatever the file held. -/
theorem stored_share_is_read {disk : Disk} {file file' : File} (hinv : curve.Inverse keyshare.key)
    (hjson : ∀ fStore, toFrostKeyshareStore curve keyshare = .ok fStore → json.Lossless fStore)
    (hstore : storeKeyshare (frost curve json) disk file keyshare = (file', .ok ())) :
    (∃ keyshare', getKeyshare (frost curve json) file' = .ok keyshare' ∧
      SameShare keyshare keyshare') ∧
    ∀ previous, storeKeyshare (frost curve json) disk previous keyshare = (file', .ok ()) := by
  obtain ⟨hdisk, kb, hkb, rfl⟩ := storeKeyshare_eq_ok.1 hstore
  refine ⟨?_, fun previous => storeKeyshare_eq_ok.2 ⟨hdisk, kb, hkb, rfl⟩⟩
  obtain ⟨fStore, hfStore, hmarshal⟩ := bind_eq_ok.1 hkb
  obtain ⟨fStore', hunmarshal, hsame⟩ := hjson fStore hfStore kb hmarshal
  obtain ⟨keyshare', hof, hshare⟩ := ofFrostKeyshareStore_same hinv hfStore hsame
  have hfile : unmarshalFile json kb = .ok fStore' := by rw [unmarshalFile, hunmarshal]
  exact ⟨keyshare', bind_eq_ok.2 ⟨fStore', hfile, hof⟩, hshare⟩

section Tabled

variable {α : Type}

/-- A table of values, with the text of each and what is read from it. -/
abbrev Table (α : Type) := List (α × List UInt8 × α)

def Table.marshal [DecidableEq α] (table : Table α) (a : α) : Except String (List UInt8) :=
  match table.find? (·.1 = a) with
  | some e => .ok e.2.1
  | none => .error "json: unsupported value"

/-- Anything that is not in the table ends early. -/
def Table.unmarshal (table : Table α) (text : List UInt8) : Except String α :=
  match table.find? (·.2.1 = text) with
  | some e => .ok e.2.2
  | none => .error "unexpected end of JSON input"

/-- No text of the table is empty or the beginning of another. -/
structure Table.Closed (table : Table α) : Prop where
  fronts : ∀ e ∈ table, ∀ e' ∈ table, e.2.1 <+: e'.2.1 → e.2.1 = e'.2.1
  empty : ∀ e ∈ table, e.2.1 ≠ []

variable {table : Table α}

theorem Table.unmarshal_of_notMem {text : List UInt8} (h : ∀ e ∈ table, e.2.1 ≠ text) :
    table.unmarshal text = .error "unexpected end of JSON input" := by
  have hnone : table.find? (·.2.1 = text) = none := by
    rw [List.find?_eq_none]
    intro e he
    simpa using h e he
  rw [Table.unmarshal, hnone]

variable [DecidableEq α]

theorem Table.marshal_eq_ok {a : α} {text : List UInt8} (h : table.marshal a = .ok text) :
    ∃ e ∈ table, e.1 = a ∧ e.2.1 = text := by
  unfold Table.marshal at h
  cases ha : table.find? (·.1 = a) with
  | none => simp [ha] at h
  | some e =>
    simp only [ha, Except.ok.injEq] at h
    exact ⟨e, List.mem_of_find?_eq_some ha, by simpa using List.find?_some ha, h⟩

theorem Table.unmarshal_cut (hclosed : table.Closed) {a : α} {text front : List UInt8}
    (h : table.marshal a = .ok text) (hfront : front <+: text) (hne : front ≠ text) :
    table.unmarshal front = .error "unexpected end of JSON input" := by
  obtain ⟨e, he, -, rfl⟩ := Table.marshal_eq_ok h
  refine Table.unmarshal_of_notMem fun e' he' heq => hne ?_
  subst heq
  exact hclosed.fronts e' he' e he hfront

theorem Table.unmarshal_marshal {R : α → α → Prop}
    (hsame : ∀ e ∈ table, ∀ e' ∈ table, e.2.1 = e'.2.1 → R e.1 e'.2.2) {a : α}
    {text : List UInt8} (h : table.marshal a = .ok text) :
    ∃ a', table.unmarshal text = .ok a' ∧ R a a' := by
  obtain ⟨e, he, rfl, rfl⟩ := Table.marshal_eq_ok h
  unfold Table.unmarshal
  cases hread : table.find? (·.2.1 = e.2.1) with
  | none => simpa using List.find?_eq_none.1 hread e he
  | some e' =>
    have htext : e'.2.1 = e.2.1 := by simpa using List.find?_some hread
    exact ⟨_, rfl, hsame e he e' (List.mem_of_find?_eq_some hread) htext.symm⟩

/-- JSON on the values of a table. -/
def Table.toJson (table : Table α) (hclosed : table.Closed) : Json α where
  marshal := table.marshal
  unmarshal := table.unmarshal
  truncated h hfront hne := ⟨_, Table.unmarshal_cut hclosed h hfront hne⟩
  empty := ⟨_, Table.unmarshal_of_notMem hclosed.empty⟩

end Tabled

/-- A scalar by its encoding. -/
abbrev ScalarBytes := { b : List UInt8 // b.length = 32 }

/-- A point by its encoding. -/
abbrev PointBytes := { b : List UInt8 // b.length = 33 }

def encodedCurve : Curve ScalarBytes PointBytes where
  marshalScalar k := .ok k.1
  unmarshalScalar b :=
    if h : b.length = 32 then .ok ⟨b, h⟩ else .error "invalid length for secp256k1 scalar"
  marshalPoint p := .ok p.1
  unmarshalPoint b :=
    if h : b.length = 33 then .ok ⟨b, h⟩ else .error "invalid length for secp256k1Point"

theorem encodedCurve_inverse (key : TaprootConfig ScalarBytes PointBytes) :
    encodedCurve.Inverse key where
  scalar b h := by
    obtain rfl : key.privateShare.1 = b := Except.ok.inj h
    exact dif_pos key.privateShare.2
  point entry _ b h := by
    obtain rfl : entry.2.1 = b := Except.ok.inj h
    exact dif_pos entry.2.2

def privateShare : ScalarBytes :=
  ⟨[0x86, 0x95, 0x31, 0xf4, 0xcf, 0xdd, 0x37, 0xb9, 0x40, 0x17, 0x6d, 0x09, 0xba, 0x6d, 0xff, 0xe2,
    0xc8, 0x26, 0x7e, 0xdc, 0xb9, 0x5b, 0x85, 0x4d, 0x78, 0x6a, 0x04, 0x10, 0x1d, 0x7c, 0xf3, 0xbd],
    rfl⟩

def firstPoint : PointBytes :=
  ⟨[0x02, 0xed, 0x5e, 0xf5, 0xfa, 0x4c, 0x46, 0x3f, 0x7d, 0xc9, 0x3c, 0x9d, 0x02, 0x32, 0x86, 0x19,
    0xaf, 0x47, 0xee, 0x6f, 0xe3, 0x12, 0x91, 0x2f, 0xc9, 0x25, 0x26, 0x4e, 0xed, 0x71, 0x61, 0x1f,
    0x61], rfl⟩

def secondPoint : PointBytes :=
  ⟨[0x02, 0x79, 0xbe, 0x66, 0x7e, 0xf9, 0xdc, 0xbb, 0xac, 0x55, 0xa0, 0x62, 0x95, 0xce, 0x87, 0x0b,
    0x07, 0x02, 0x9b, 0xfc, 0xdb, 0x2d, 0xce, 0x28, 0xd9, 0x59, 0xf2, 0x81, 0x5b, 0x16, 0xf8, 0x17,
    0x98], rfl⟩

/-- A FROST share of two peers. -/
def frostShare (threshold : UInt8) : Keyshare (TaprootConfig ScalarBytes PointBytes) :=
  ⟨⟨firstPeer, 1, privateShare, [], [], [(secondPeer, secondPoint), (firstPeer, firstPoint)]⟩,
    threshold.toNat, [firstPeer, secondPeer]⟩

/-- The share as it is stored, with its map in the order given. -/
def frostShareStore (threshold : UInt8) (stored : List (String × PointBytes)) : Keyshare FrostKey :=
  ⟨⟨firstPeer, 1, privateShare.1, [], [], stored.map fun e => (e.1, e.2.1)⟩, threshold.toNat,
    [firstPeer, secondPeer]⟩

section Texts

open JsonWriter

/-- The text of the share; the keys of a map are sorted. -/
def frostShareText (threshold : UInt8) : List UInt8 :=
  object "Key"
    (object "ID" (quote firstPeer) [("Threshold", decimal 1),
      ("PrivateShare", bytes (some privateShare.1)), ("PublicKey", bytes (some [])),
      ("ChainKey", bytes (some [])),
      ("VerificationShares", object firstPeer (bytes (some firstPoint.1))
        [(secondPeer, bytes (some secondPoint.1))])])
    [("Threshold", decimal threshold), ("Peers", strings [firstPeer, secondPeer])]

end Texts

/-- Two shares, each read with its map in the order of the text. -/
def frostShareTable : Table (Keyshare FrostKey) :=
  [2, 3].map fun threshold =>
    (frostShareStore threshold [(secondPeer, secondPoint), (firstPeer, firstPoint)],
      frostShareText threshold,
      frostShareStore threshold [(firstPeer, firstPoint), (secondPeer, secondPoint)])

theorem frostShareTable_closed : frostShareTable.Closed := by
  constructor <;> decide +kernel

theorem frostShareText_inj : ∀ t ∈ [2, 3], ∀ t' ∈ [2, 3],
    frostShareText t = frostShareText t' → t = t' := by
  decide +kernel

theorem frostShareTable_same : ∀ e ∈ frostShareTable, ∀ e' ∈ frostShareTable,
    e.2.1 = e'.2.1 → SameStore e.1 e'.2.2 := by
  intro e he e' he' htext
  obtain ⟨t, ht, rfl⟩ := List.mem_map.1 he
  obtain ⟨t', ht', rfl⟩ := List.mem_map.1 he'
  obtain rfl := frostShareText_inj t ht t' ht' htext
  exact ⟨_, List.Perm.swap _ _ _, rfl⟩

def frostShareJson : Json (Keyshare FrostKey) := frostShareTable.toJson frostShareTable_closed

theorem frostShareJson_lossless (fStore : Keyshare FrostKey) : frostShareJson.Lossless fStore :=
  fun _ hkb => Table.unmarshal_marshal frostShareTable_same hkb

/-- The file held something else, and the map is read in another order than it was ranged over. -/
theorem stored_share_is_read_swapped :
    storeKeyshare (frost encodedCurve frostShareJson) ⟨none, none⟩ (.ok [1, 2, 3]) (frostShare 2) =
      (.ok (frostShareText 2), .ok ()) ∧
    (∃ keyshare', getKeyshare (frost encodedCurve frostShareJson) (.ok (frostShareText 2)) =
      .ok keyshare' ∧ SameShare (frostShare 2) keyshare') ∧
    ∀ previous, storeKeyshare (frost encodedCurve frostShareJson) ⟨none, none⟩ previous
      (frostShare 2) = (.ok (frostShareText 2), .ok ()) := by
  have hstore : storeKeyshare (frost encodedCurve frostShareJson) ⟨none, none⟩ (.ok [1, 2, 3])
      (frostShare 2) = (.ok (frostShareText 2), .ok ()) := by decide +kernel
  have hinv : encodedCurve.Inverse (frostShare 2).key := encodedCurve_inverse _
  have hjson : ∀ fStore, toFrostKeyshareStore encodedCurve (frostShare 2) = .ok fStore →
      frostShareJson.Lossless fStore := fun fStore _ => frostShareJson_lossless fStore
  exact ⟨hstore, stored_share_is_read hinv hjson hstore⟩

end Sygma.KeyshareStore
