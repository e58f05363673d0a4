import SygmaRelayer.Proofs.FrostRoundTrip

/-! What a failed `StoreKeyshare` leaves behind. Once the file is open the old share is gone:
`GetKeyshare` returns what it did before only if opening failed, if the failed call wrote all of
a share that is the same as the old one, or if the old file ended early as the new one does. -/

namespace Sygma.KeyshareStore

open Fallible

/-- How `json.Unmarshal` fails on a text that ends early. -/
def unexpectedEnd : String := "unexpected end of JSON input"

/-- JSON gives back what it wrote, up to `Same`, and less than a text ends early. -/
structure Json.Faithful {α : Type} (json : Json α) (Same : α → α → Prop) : Prop where
  back : ∀ {a text}, json.marshal a = .ok text →
    ∃ a', json.unmarshal text = .ok a' ∧ Same a a'
  cut : ∀ {a text front}, json.marshal a = .ok text → front <+: text → front ≠ text →
    json.unmarshal front = .error unexpectedEnd
  empty : json.unmarshal [] = .error unexpectedEnd

/-- What `GetKeyshare` says of a file that ends early. -/
def cutShort : String := "error on unmarshaling keyshare file: " ++ unexpectedEnd

variable {Share : Type} {s : Scheme Share} {Same : Share → Share → Prop} {disk : Disk}
  {file file' : File} {keyshare : Share} {err : String}

/-- The same for what a store writes. -/
structure Scheme.Faithful (s : Scheme Share) (Same : Share → Share → Prop) : Prop where
  equivalence : Equivalence Same
  back : ∀ {share kb}, s.serialise share = .ok kb → ∃ share', s.parse kb = .ok share' ∧ Same share share'
  cut : ∀ {share kb front}, s.serialise share = .ok kb → front <+: kb → front ≠ kb →
    s.parse front = .error cutShort
  empty : s.parse [] = .error cutShort

theorem unmarshalFile_unexpectedEnd {α : Type} {json : Json α} {kb : List UInt8}
    (h : json.unmarshal kb = .error unexpectedEnd) : unmarshalFile json kb = .error cutShort := by
  rw [unmarshalFile, h]
  rfl

theorem ecdsa_faithful {Key : Type} {json : Json (Keyshare Key)} (h : json.Faithful Eq) :
    (ecdsa json).Faithful Eq where
  equivalence := eq_equivalence
  back {share kb} hser := by
    obtain ⟨share', hread, rfl⟩ := h.back hser
    have hfile : unmarshalFile json kb = .ok share := by rw [unmarshalFile, hread]
    exact ⟨share, hfile, rfl⟩
  cut hser hfront hne := unmarshalFile_unexpectedEnd (h.cut hser hfront hne)
  empty := unmarshalFile_unexpectedEnd h.empty

section Frost

variable {Scalar Point : Type} {curve : Curve Scalar Point} {json : Json (Keyshare FrostKey)}

theorem sameShare_equivalence :
    Equivalence (@SameShare Scalar Point) where
  refl keyshare := ⟨_, .refl _, rfl⟩
  symm := by
    rintro keyshare _ ⟨entries, hperm, rfl⟩
    exact ⟨_, hperm.symm, rfl⟩
  trans := by
    rintro keyshare _ _ ⟨entries, hperm, rfl⟩ ⟨entries', hperm', rfl⟩
    exact ⟨entries', hperm'.trans hperm, rfl⟩

theorem frost_faithful (hcurve : ∀ key, curve.Inverse key) (h : json.Faithful SameStore) :
    (frost curve json).Faithful SameShare where
  equivalence := sameShare_equivalence
  back {share kb} hser := by
    obtain ⟨fStore, hstore, hmarshal⟩ := bind_eq_ok.1 hser
    obtain ⟨fStore', hread, hsame⟩ := h.back hmarshal
    obtain ⟨share', hof, hshare⟩ := ofFrostKeyshareStore_same (hcurve share.key) hstore hsame
    have hfile : unmarshalFile json kb = .ok fStore' := by rw [unmarshalFile, hread]
    exact ⟨share', bind_eq_ok.2 ⟨fStore', hfile, hof⟩, hshare⟩
  cut {share kb front} hser hfront hne := by
    obtain ⟨fStore, -, hmarshal⟩ := bind_eq_ok.1 hser
    change unmarshalFile json front >>= ofFrostKeyshareStore curve = _
    rw [unmarshalFile_unexpectedEnd (h.cut hmarshal hfront hne)]
    rfl
  empty := by
    change unmarshalFile json [] >>= ofFrostKeyshareStore curve = _
    rw [unmarshalFile_unexpectedEnd h.empty]
    rfl

end Frost

/-- Two results of `GetKeyshare` are the same. -/
def SameResult (Same : Share → Share → Prop) : Except String Share → Except String Share → Prop
  | .ok share, .ok share' => Same share share'
  | .error err, .error err' => err = err'
  | _, _ => False

theorem SameResult.refl (hequiv : Equivalence Same) (r : Except String Share) :
    SameResult Same r r := by
  cases r with
  | ok share => exact hequiv.refl share
  | error err => rfl

/-- The share is serialised, and all its bytes are written before `Write` fails. -/
def FullyWritten (s : Scheme Share) (disk : Disk) (keyshare : Share) : Prop :=
  ∃ kb n err, s.serialise keyshare = .ok kb ∧ disk.write = some (n, err) ∧ kb.length ≤ n

/-- A failed call that had opened the file leaves all of the share or a file that ends early. -/
theorem failed_store_reads (hs : s.Faithful Same) (hopen : disk.openFile = none)
    (h : storeKeyshare s disk file keyshare = (file', .error err)) :
    (FullyWritten s disk keyshare ∧
      ∃ share, getKeyshare s file' = .ok share ∧ Same keyshare share) ∨
    (¬ FullyWritten s disk keyshare ∧ getKeyshare s file' = .error cutShort) := by
  unfold storeKeyshare at h
  rw [hopen] at h
  cases hser : s.serialise keyshare with
  | error e =>
    simp only [hser, Prod.mk.injEq] at h
    obtain ⟨rfl, -⟩ := h
    exact .inr ⟨by simp [FullyWritten, hser], hs.empty⟩
  | ok kb =>
    cases hwrite : disk.write with
    | none => simp [hser, hwrite] at h
    | some w =>
      obtain ⟨n, e⟩ := w
      simp only [hser, hwrite, Prod.mk.injEq] at h
      obtain ⟨rfl, -⟩ := h
      change _ ∧ (∃ share, s.parse (kb.take n) = .ok share ∧ _) ∨
        _ ∧ s.parse (kb.take n) = .error cutShort
      by_cases hle : kb.length ≤ n
      · rw [List.take_of_length_le hle]
        exact .inl ⟨⟨kb, n, e, hser, hwrite, hle⟩, hs.back hser⟩
      · refine .inr ⟨?_, hs.cut hser (List.take_prefix n kb) fun heq => hle ?_⟩
        · rintro ⟨kb', n', e', hkb', hn', hle'⟩
          cases hser.symm.trans hkb'
          cases hwrite.symm.trans hn'
          exact hle hle'
        · simpa using congrArg List.length heq

section Samples

open JsonWriter

/-- A share whose key is the one of `NewLocalPartySaveData(0)`. -/
def ecdsaShare (threshold : UInt8) : Keyshare Unit :=
  ⟨(), threshold.toNat, [firstPeer, secondPeer]⟩

def ecdsaShareText (threshold : UInt8) : List UInt8 :=
  object "Key"
    (object "PaillierSK" (bytes none)
      (["NTildei", "H1i", "H2i", "Alpha", "Beta", "P", "Q", "Xi", "ShareID"].map
          (fun field => (field, bytes none)) ++
        ["Ks", "NTildej", "H1j", "H2j", "BigXj", "PaillierPKs"].map
          (fun field => (field, strings [])) ++
        [("ECDSAPub", bytes none)]))
    [("Threshold", decimal threshold), ("Peers", strings [firstPeer, secondPeer])]

end Samples

def ecdsaShareTable : Table (Keyshare Unit) :=
  [2, 3].map fun threshold =>
    (ecdsaShare threshold, ecdsaShareText threshold, ecdsaShare threshold)

theorem ecdsaShareTable_closed : ecdsaShareTable.Closed := by
  constructor <;> decide +kernel

def ecdsaShareJson : Json (Keyshare Unit) := ecdsaShareTable.toJson ecdsaShareTable_closed

theorem getKeyshare_ecdsaShareText :
    getKeyshare (ecdsa ecdsaShareJson) (.ok (ecdsaShareText 2)) = .ok (ecdsaShare 2) := by
  decide +kernel

theorem Table.faithful {α : Type} [DecidableEq α] {table : Table α} {Same : α → α → Prop}
    (hclosed : table.Closed)
    (hsame : ∀ e ∈ table, ∀ e' ∈ table, e.2.1 = e'.2.1 → Same e.1 e'.2.2) :
    (table.toJson hclosed).Faithful Same where
  back h := Table.unmarshal_marshal hsame h
  cut h hfront hne := Table.unmarshal_cut hclosed h hfront hne
  empty := Table.unmarshal_of_notMem hclosed.empty

theorem ecdsaShareJson_faithful : ecdsaShareJson.Faithful Eq :=
  Table.faithful ecdsaShareTable_closed (by decide +kernel)

theorem frostShareJson_faithful : frostShareJson.Faithful SameStore :=
  Table.faithful frostShareTable_closed frostShareTable_same

def diskFull : Disk := ⟨none, some (0, "no space left on device")⟩

/-- `Write` reports an error though it has written everything. -/
def diskFails : Disk := ⟨none, some (900, "input/output error")⟩

end Sygma.KeyshareStore
