import SygmaRelayer.Lib.JsonWriter
import SygmaRelayer.Spec.Topology

/-! What a fetched topology is worth. The text that `encryptTopology` prints is accepted under the
hash it prints and gives the topology of the file, and whatever else the server may answer is
accepted under that hash only if it collides with the published text. Without a hash, as when
`Run` finds no topology in its file, anything goes that decrypts to a topology. -/

namespace Sygma.Topology

open Go Text Fallible JsonWriter
open BtcListener (fromHexChar hexDecode)

variable {p : Provider}

/-! ### Hexadecimal texts -/

theorem fromHexChar_digitChar (n : ℕ) (hn : n < 16) :
    fromHexChar (UInt8.ofNat (Nat.digitChar n).toNat) = some (UInt8.ofNat n) := by
  interval_cases n <;> rfl

@[simp] theorem hexDecode_hexEncodeToString (src : List UInt8) :
    hexDecode (ascii (hexEncodeToString src)) = (src, true) := by
  induction src with
  | nil => rfl
  | cons b src ih =>
    have hb := b.toNat_lt
    have hhigh := fromHexChar_digitChar (b.toNat / 16) (by omega)
    have hlow := fromHexChar_digitChar (b.toNat % 16) (by omega)
    have hcons : ascii (hexEncodeToString (b :: src)) =
        UInt8.ofNat (Nat.digitChar (b.toNat / 16)).toNat ::
          UInt8.ofNat (Nat.digitChar (b.toNat % 16)).toNat :: ascii (hexEncodeToString src) := by
      simp [ascii, hexEncodeToString]
    rw [hcons]
    simp only [hexDecode, hhigh, hlow, ih, Bytes.sixteen_mul_add_digits]

theorem hexEncodeToString_inj {a b : List UInt8} (h : hexEncodeToString a = hexEncodeToString b) :
    a = b := by
  have hdecode := hexDecode_hexEncodeToString a
  rw [h, hexDecode_hexEncodeToString] at hdecode
  exact (Prod.mk.inj hdecode).1.symm

theorem hexEncodeToString_ne_empty {src : List UInt8} (h : src ≠ []) :
    hexEncodeToString src ≠ "" := fun hempty => h (hexEncodeToString_inj hempty)

theorem notMem_newline : ∀ {text src : List UInt8}, hexDecode text = (src, true) → 10 ∉ text
  | [], _, _ => by simp
  | [_], _, h => by simp [hexDecode] at h
  | a :: b :: text, src, h => by
    have hnewline : fromHexChar 10 = none := rfl
    cases ha : fromHexChar a with
    | none => simp [hexDecode, ha] at h
    | some x =>
      cases hb : fromHexChar b with
      | none => simp [hexDecode, ha, hb] at h
      | some y =>
        simp only [hexDecode, ha, hb, Prod.mk.injEq] at h
        have hrest : (10 : UInt8) ∉ text := notMem_newline (Prod.ext rfl h.2)
        simp only [List.mem_cons, not_or]
        refine ⟨?_, ?_, hrest⟩
        · rintro rfl
          simp [hnewline] at ha
        · rintro rfl
          simp [hnewline] at hb

/-- A newline at the end of the answer does not matter. -/
theorem trimNewline_of_decodes {text src body : List UInt8} (h : hexDecode text = (src, true))
    (hbody : body = text ∨ body = text ++ [10]) : trimNewline body = text := by
  rcases hbody with rfl | rfl
  · refine if_neg fun hlast => notMem_newline h (List.mem_of_getLast? hlast)
  · simp [trimNewline]

/-! ### Decryption -/

theorem decrypt_encrypt {iv data : List UInt8} (hiv : iv.length = 16) :
    decrypt p (encrypt p iv data) = .ok data := by
  have hlength : ¬ (encrypt p iv data).length < 16 := by
    rw [encrypt, List.length_append]
    omega
  rw [decrypt, if_neg hlength, encrypt, List.take_left' hiv, List.drop_left' hiv,
    CounterMode.xorKeyStream_xorKeyStream]

/-! ### Published topologies -/

theorem networkTopology_of_decodes {hash : String} {body ct : List UInt8}
    (h : hexDecode (trimNewline body) = (ct, true)) :
    networkTopology p hash (.ok body) =
      if hash ≠ "" ∧ hexEncodeToString (p.sha256 ct).1 ≠ hash then
        .error (.error ("topology hash " ++ hexEncodeToString (p.sha256 ct).1 ++
          " not matching expected hash " ++ hash))
      else decrypt p ct >>= fun text => (readRaw p text).mapError .error := by
  simp only [networkTopology, Except.mapError, ok_bind, h]

/-- What is accepted under a hash has it. -/
theorem networkTopology_eq_ok {hash : String} {response : Except String (List UInt8)}
    {t : NetworkTopology} (h : networkTopology p hash response = .ok t) :
    ∃ body ct text, response = .ok body ∧ hexDecode (trimNewline body) = (ct, true) ∧
      (hash ≠ "" → hexEncodeToString (p.sha256 ct).1 = hash) ∧ decrypt p ct = .ok text ∧
      readRaw p text = .ok t := by
  cases response with
  | error err => cases h
  | ok body =>
    rcases hdecode : hexDecode (trimNewline body) with ⟨ct, valid⟩
    cases valid with
    | false => simp [networkTopology, Except.mapError, ok_bind, hdecode] at h
    | true =>
      rw [networkTopology_of_decodes hdecode] at h
      split_ifs at h with hhash
      obtain ⟨text, htext, h⟩ := bind_eq_ok.1 h
      refine ⟨body, ct, text, rfl, hdecode, ?_, htext, ?_⟩
      · intro hne
        by_contra hdiffers
        exact hhash ⟨hne, hdiffers⟩
      · cases hraw : readRaw p text with
        | error err => simp [hraw, Except.mapError] at h
        | ok t' =>
          rw [hraw] at h
          exact congrArg Except.ok (Except.ok.inj h)

/-- If the text of the answer has the hash of `published`, it is the same. -/
def NoCollision (p : Provider) (published body : List UInt8) : Prop :=
  ∀ ct, hexDecode (trimNewline body) = (ct, true) → p.sha256 ct = p.sha256 published → ct = published

theorem encryptTopology_eq_ok {iv file : List UInt8} {text hash : String}
    (h : encryptTopology p iv file = .ok (text, hash)) :
    text = hexEncodeToString (encrypt p iv file) ∧
      hash = hexEncodeToString (p.sha256 (encrypt p iv file)).1 := by
  unfold encryptTopology at h
  cases hraw : p.unmarshalRaw file with
  | error err => simp [hraw] at h
  | ok raw =>
    simp only [hraw] at h
    obtain ⟨htext, hhash⟩ := Prod.mk.inj (Except.ok.inj h)
    exact ⟨htext.symm, hhash.symm⟩

/-- The printed text, with or without a newline, is accepted without a hash and under the printed
one, and is read as the file; under any other hash it is refused. An answer that is accepted
under the printed hash and does not collide is read as the file too. -/
theorem published_topology {iv file : List UInt8} {text hash : String} (hiv : iv.length = 16)
    (h : encryptTopology p iv file = .ok (text, hash)) :
    (∀ expected, ∀ body, body = ascii text ∨ body = ascii text ++ [10] →
      networkTopology p expected (.ok body) =
        if expected = "" ∨ expected = hash then (readRaw p file).mapError .error
        else .error (.error
          ("topology hash " ++ hash ++ " not matching expected hash " ++ expected))) ∧
    ∀ body t, NoCollision p (encrypt p iv file) body →
      networkTopology p hash (.ok body) = .ok t → readRaw p file = .ok t := by
  obtain ⟨rfl, rfl⟩ := encryptTopology_eq_ok h
  constructor
  · intro expected body hbody
    have htrim := trimNewline_of_decodes (hexDecode_hexEncodeToString _) hbody
    have hdecode := hexDecode_hexEncodeToString (encrypt p iv file)
    rw [← htrim] at hdecode
    rw [networkTopology_of_decodes hdecode, decrypt_encrypt hiv, ok_bind]
    by_cases hempty : expected = ""
    · simp [hempty]
    · by_cases hhash : expected = hexEncodeToString (p.sha256 (encrypt p iv file)).1
      · simp [hhash]
      · rw [if_pos ⟨hempty, Ne.symm hhash⟩, if_neg (not_or.2 ⟨hempty, hhash⟩)]
  · intro body t hcollision haccept
    obtain ⟨body', ct, text, hbody, hdecode, hhash, htext, hread⟩ := networkTopology_eq_ok haccept
    obtain rfl := Except.ok.inj hbody
    have hne : (p.sha256 (encrypt p iv file)).1 ≠ [] := by
      intro hnil
      have := (p.sha256 (encrypt p iv file)).2
      rw [hnil] at this
      cases this
    have hsum := hexEncodeToString_inj (hhash (hexEncodeToString_ne_empty hne))
    obtain rfl := hcollision ct hdecode (Subtype.ext hsum)
    rw [decrypt_encrypt hiv] at htext
    obtain rfl := Except.ok.inj htext
    exact hread

/-! ### A published file -/

def jsonArray (items : List (List UInt8)) : List UInt8 :=
  0x5b :: (items.intersperse [0x2c]).flatten ++ [0x5d]

def relayer1 : PeerID := "QmcvEg7jGvuxdsUFRUiE4VdrL2P1Yeju5L83BsJvvXz7zX"

def relayer2 : PeerID := "QmeTuMtdpPB7zKDgmobEwSvxodrf5aFVSmBXX3SQJVjJaT"

/-- A topology file with the second relayer. -/
def secondRaw : RawTopology := ⟨[⟨"/dns4/relayer2/tcp/9001/p2p/" ++ relayer2⟩], "1"⟩

def secondFile : List UInt8 :=
  object "peers"
    (jsonArray (secondRaw.peers.map fun p => object "peerAddress" (quote p.peerAddress) []))
    [("threshold", quote secondRaw.threshold)]

def secondTopology : NetworkTopology := ⟨[⟨relayer2, ["/dns4/relayer2/tcp/9001"]⟩], 1⟩

def secondIv : List UInt8 :=
  [0x7a, 0x3f, 0x09, 0xc2, 0xd1, 0x5e, 0x8b, 0x60, 0x4c, 0x91, 0xf7, 0xe3, 0xad, 0x28, 0x4f, 0x06]

/-- AES-128 under the key `v8y/B?E(H+MbQeTh`, on the counters that start at `secondIv`. -/
def secondKeystream : List (List UInt8) :=
  [[0x16, 0xcc, 0xb4, 0x00, 0x44, 0xa9, 0xd8, 0x9f, 0x78, 0xe3, 0x01, 0x53, 0x90, 0xd1, 0xf3, 0xac],
    [0xc9, 0x82, 0x13, 0x73, 0x3b, 0xc9, 0x31, 0x62, 0xad, 0xed, 0x1c, 0xa3, 0xc0, 0xc5, 0xc2, 0x2d],
    [0x20, 0xca, 0x25, 0xf1, 0xfa, 0x6e, 0x33, 0x2e, 0xb9, 0xe7, 0xea, 0x13, 0x28, 0x34, 0x00, 0x3d],
    [0xeb, 0x00, 0x05, 0xf7, 0xcd, 0x31, 0x71, 0xf1, 0xb0, 0x6a, 0xc0, 0x85, 0x55, 0x71, 0xb0, 0x72],
    [0xdb, 0x82, 0xf4, 0x4f, 0xaf, 0xc0, 0x71, 0xfa, 0x5f, 0x65, 0x26, 0x69, 0xc4, 0x57, 0xdb, 0xf7],
    [0x2a, 0xd3, 0xe9, 0x6c, 0xa4, 0xc0, 0x9b, 0x1c, 0x77, 0x1d, 0xe9, 0xee, 0x85, 0x47, 0x8f, 0xd8],
    [0x2e, 0x71, 0x7b, 0xb0, 0x7c, 0x36, 0xd6, 0xe3, 0x6a, 0x4f, 0xa7, 0x7a, 0xc5, 0x7f, 0x79, 0xe3],
    [0x2d, 0x18, 0xe2, 0xff, 0xd8, 0x20, 0xb3, 0xab, 0x78, 0x9d, 0x2b, 0x65, 0x02, 0xef, 0x2a, 0x97]]

/-- The file encrypted, after `secondIv`. -/
def secondCt : List UInt8 :=
  [0x7a, 0x3f, 0x09, 0xc2, 0xd1, 0x5e, 0x8b, 0x60, 0x4c, 0x91, 0xf7, 0xe3, 0xad, 0x28, 0x4f,
    0x06, 0x6d, 0xee, 0xc4, 0x65, 0x21, 0xdb, 0xab, 0xbd, 0x42, 0xb8, 0x7a, 0x71, 0xe0, 0xb4,
    0x96, 0xde, 0x88, 0xe6, 0x77, 0x01, 0x5e, 0xba, 0x42, 0x40, 0x97, 0xcf, 0x33, 0xc7, 0xae,
    0xb6, 0xf6, 0x02, 0x52, 0xaf, 0x49, 0x90, 0x83, 0x0b, 0x41, 0x1c, 0x96, 0x93, 0x89, 0x63,
    0x07, 0x0d, 0x30, 0x0d, 0xda, 0x2f, 0x75, 0xc5, 0xbd, 0x1e, 0x20, 0x9c, 0xd5, 0x3e, 0xb5,
    0xc8, 0x21, 0x15, 0xc0, 0x22, 0x99, 0xb5, 0x8e, 0x04, 0xeb, 0xa7, 0x1c, 0x95, 0x3d, 0x20,
    0x51, 0x3a, 0xb2, 0x2f, 0xb4, 0x93, 0x58, 0xb5, 0xdc, 0x0d, 0xe2, 0x96, 0xc8, 0x71, 0x35,
    0x45, 0xb1, 0xdd, 0xd6, 0x16, 0xc5, 0x8e, 0x44, 0x3b, 0x1a, 0xe4, 0x5e, 0x4b, 0x8b, 0xcf,
    0x48, 0x3b, 0xcf, 0x08, 0xa0, 0x0c, 0x11, 0x8c, 0x41, 0x7c, 0xc0, 0xc5, 0xfa, 0x11, 0x91,
    0xd6]

/-- SHA-256 of `secondCt`. -/
def secondDigest : List UInt8 :=
  [0xf0, 0x87, 0xe4, 0x9c, 0xfb, 0x96, 0x77, 0xac, 0x67, 0x9e, 0x1a, 0x68, 0xb0, 0x58, 0x27,
    0x6b, 0xef, 0xaf, 0x5f, 0x50, 0xa2, 0x96, 0x8e, 0x4a, 0x16, 0x52, 0xc8, 0xf7, 0x8c, 0x1c,
    0xd2, 0x52]

theorem length_secondDigest : secondDigest.length = 32 := rfl

/-- The libraries on what they are asked about the file. -/
def pairProvider : Provider where
  sha256 src :=
    if src = secondCt then ⟨secondDigest, length_secondDigest⟩
    else ⟨Abi.word (Bytes.toNat src), Abi.length_word _⟩
  block counter := secondKeystream.getD (Bytes.toNat counter - Bytes.toNat secondIv) []
  hexError _ := "encoding/hex: odd length hex string"
  unmarshalRaw text :=
    if text = secondFile then .ok secondRaw else .error "unexpected end of JSON input"
  addrInfoFromString address :=
    match split '/' address with
    | ["", "dns4", host, "tcp", port, "p2p", id] => .ok ⟨id, ["/dns4/" ++ host ++ "/tcp/" ++ port]⟩
    | ["", "p2p", id] => .ok ⟨id, []⟩
    | _ => .error "invalid p2p multiaddr"
  parseInt s :=
    match Text.parseInt 64 s with
    | some n => .ok n
    | none => .error "invalid syntax"

/-- What the command prints for the file. -/
def secondText : String := hexEncodeToString secondCt

def secondHash : String := hexEncodeToString secondDigest

theorem encrypt_secondFile : encrypt pairProvider secondIv secondFile = secondCt := by
  decide +kernel

theorem readRaw_secondFile : readRaw pairProvider secondFile = .ok secondTopology := by
  decide +kernel

theorem sha256_secondCt :
    pairProvider.sha256 secondCt = ⟨secondDigest, length_secondDigest⟩ := by
  simp [pairProvider]

theorem networkTopology_secondText :
    networkTopology pairProvider secondHash (.ok (ascii secondText)) = .ok secondTopology := by
  have hdecode : hexDecode (ascii secondText) = (secondCt, true) :=
    hexDecode_hexEncodeToString secondCt
  rw [networkTopology_of_decodes (by rwa [trimNewline_of_decodes hdecode (Or.inl rfl)]),
    sha256_secondCt, if_neg (by simp [secondHash]), ← encrypt_secondFile, decrypt_encrypt rfl,
    ok_bind, readRaw_secondFile]
  rfl

theorem published_topology_pair :
    encryptTopology pairProvider secondIv secondFile = .ok (secondText, secondHash) ∧
    networkTopology pairProvider secondHash (.ok (ascii secondText ++ [10])) =
      .ok secondTopology := by
  have hencrypt : encryptTopology pairProvider secondIv secondFile =
      .ok (secondText, secondHash) := by
    have hraw : pairProvider.unmarshalRaw secondFile = .ok secondRaw := by simp [pairProvider]
    simp only [encryptTopology, hraw, encrypt_secondFile, sha256_secondCt]
    rfl
  have haccept := (published_topology rfl hencrypt).1 secondHash _ (Or.inr rfl)
  rw [if_pos (Or.inr rfl), readRaw_secondFile] at haccept
  exact ⟨hencrypt, haccept⟩

end Sygma.Topology
