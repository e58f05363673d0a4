import SygmaRelayer.Lib.JsonWriter

/-! What Go's `encoding/json` reads from a text whose syntax it has checked: the value, with the
escapes of its strings, and from the value a struct. Keys name a field whatever their case, fields
that no key names keep the value they had, and a byte slice stands as base64. What `JsonWriter`
writes is read back. -/

namespace JsonReader

open JsonScanner JsonWriter
open Text (ascii)

/-! ### Strings -/

def hexValue (c : UInt8) : Option ℕ :=
  if 0x30 ≤ c ∧ c ≤ 0x39 then some (c.toNat - 0x30)
  else if 0x61 ≤ c ∧ c ≤ 0x66 then some (c.toNat - 0x57)
  else if 0x41 ≤ c ∧ c ≤ 0x46 then some (c.toNat - 0x37)
  else none

/-- `getu4` -/
def getu4 : List UInt8 → Option (ℕ × List UInt8)
  | b :: u :: w :: x :: y :: z :: rest =>
    if b = 0x5c ∧ u = 0x75 then
      (hexValue w).bind fun w => (hexValue x).bind fun x => (hexValue y).bind fun y =>
        (hexValue z).map fun z => (((w * 16 + x) * 16 + y) * 16 + z, rest)
    else none
  | _ => none

def replacementChar : Char := Char.ofNat 0xfffd

def isSurrogate (r : ℕ) : Prop := 0xd800 ≤ r ∧ r < 0xe000

instance (r : ℕ) : Decidable (isSurrogate r) := inferInstanceAs (Decidable (_ ∧ _))

/-- `utf16.DecodeRune` -/
def decodeSurrogates (high low : ℕ) : Option Char :=
  if 0xd800 ≤ high ∧ high < 0xdc00 ∧ 0xdc00 ≤ low ∧ low < 0xe000 then
    some (Char.ofNat ((high - 0xd800) * 0x400 + (low - 0xdc00) + 0x10000))
  else none

/-- The character a backslash and this byte stand for. -/
def escaped (c : UInt8) : Option Char :=
  if c = 0x22 ∨ c = 0x5c ∨ c = 0x2f ∨ c = 0x27 then some (Char.ofNat c.toNat)
  else if c = 0x62 then some (Char.ofNat 0x08)
  else if c = 0x66 then some (Char.ofNat 0x0c)
  else if c = 0x6e then some (Char.ofNat 0x0a)
  else if c = 0x72 then some (Char.ofNat 0x0d)
  else if c = 0x74 then some (Char.ofNat 0x09)
  else none

/-- The character at a backslash. Half a surrogate pair is replaced. -/
def readEscape (text : List UInt8) : Option (Char × List UInt8) :=
  match getu4 text with
  | some (r, rest) =>
    if isSurrogate r then
      match getu4 rest with
      | some (r', rest') =>
        match decodeSurrogates r r' with
        | some c => some (c, rest')
        | none => some (replacementChar, rest)
      | none => some (replacementChar, rest)
    else some (Char.ofNat r, rest)
  | none =>
    match text with
    | _ :: c :: rest => (escaped c).map fun c => (c, rest)
    | _ => none

/-- `utf8.DecodeRune`, which takes one byte of what is not UTF-8. -/
def decodeRune (text : List UInt8) : Char × List UInt8 :=
  match text.toByteArray.utf8DecodeChar? 0 with
  | some c => (c, text.drop c.utf8Size)
  | none => (replacementChar, text.drop 1)

def readChar : List UInt8 → Option (Char × List UInt8)
  | [] => none
  | b :: text => if b = 0x5c then readEscape (b :: text) else some (decodeRune (b :: text))

theorem getu4_length {text rest : List UInt8} {r : ℕ} (h : getu4 text = some (r, rest)) :
    rest.length < text.length := by
  unfold getu4 at h
  split at h
  · split_ifs at h
    simp only [Option.bind_eq_some_iff, Option.map_eq_some_iff] at h
    obtain ⟨w, -, x, -, y, -, z, -, h⟩ := h
    cases h
    simp only [List.length_cons]
    omega
  · cases h

theorem readEscape_length {text rest : List UInt8} {c : Char}
    (h : readEscape text = some (c, rest)) : rest.length < text.length := by
  unfold readEscape at h
  split at h
  · rename_i r rest₁ hget
    have hrest := getu4_length hget
    split_ifs at h
    · split at h
      · rename_i r' rest₂ hget'
        have hrest' := getu4_length hget'
        split at h <;> cases h
        · exact hrest'.trans hrest
        · exact hrest
      · cases h
        exact hrest
    · cases h
      exact hrest
  · split at h
    · obtain ⟨c', -, h⟩ := Option.map_eq_some_iff.1 h
      cases h
      simp only [List.length_cons]
      omega
    · cases h

theorem readChar_length {text rest : List UInt8} {c : Char}
    (h : readChar text = some (c, rest)) : rest.length < text.length := by
  cases text with
  | nil => cases h
  | cons b text =>
    simp only [readChar] at h
    split_ifs at h
    · exact readEscape_length h
    · have hpos : ∀ k, 0 < k → ((b :: text).drop k).length < (b :: text).length := by
        intro k hk
        simp only [List.length_drop, List.length_cons]
        omega
      unfold decodeRune at h
      split at h <;> cases h
      · exact hpos _ (Char.utf8Size_pos _)
      · exact hpos 1 one_pos

/-- The rest of a string after its opening quote. -/
def readString (text : List UInt8) : Option (List Char × List UInt8) :=
  if text.head? = some 0x22 then some ([], text.tail)
  else
    match _hread : readChar text with
    | none => none
    | some (c, rest) => (readString rest).map fun read => (c :: read.1, read.2)
termination_by text.length
decreasing_by exact readChar_length _hread

/-! ### Values -/

inductive Value
  | null
  | bool (b : Bool)
  | number (literal : List UInt8)
  | string (s : List Char)
  | array (items : List Value)
  | object (members : List (List Char × Value))

def skipSpace (text : List UInt8) : List UInt8 := text.dropWhile fun c => decide (isSpace c)

/-- What follows the byte, with any space before it. -/
def expectByte (b : UInt8) (text : List UInt8) : Option (List UInt8) :=
  match skipSpace text with
  | [] => none
  | c :: rest => if c = b then some rest else none

def isLiteral (c : UInt8) : Prop := ¬ isSpace c ∧ c ≠ 0x2c ∧ c ≠ 0x5d ∧ c ≠ 0x7d

instance (c : UInt8) : Decidable (isLiteral c) := inferInstanceAs (Decidable (_ ∧ _ ∧ _ ∧ _))

def literalValue (literal : List UInt8) : Value :=
  if literal = ascii "null" then .null
  else if literal = ascii "true" then .bool true
  else if literal = ascii "false" then .bool false
  else .number literal

def readLiteral (text : List UInt8) : Value × List UInt8 :=
  (literalValue (text.takeWhile fun c => decide (isLiteral c)),
    text.dropWhile fun c => decide (isLiteral c))

section Composite

variable (read : List UInt8 → Option (Value × List UInt8))

/-- The members of an object from a key on, at most so many of them. -/
def readMembers : ℕ → List UInt8 → Option (List (List Char × Value) × List UInt8)
  | 0, _ => none
  | k + 1, text =>
    (expectByte 0x22 text).bind fun text => (readString text).bind fun (key, text) =>
      (expectByte 0x3a text).bind fun text => (read text).bind fun (value, text) =>
        match skipSpace text with
        | [] => none
        | c :: rest =>
          if c = 0x2c then (readMembers k rest).map fun (members, rest) => ((key, value) :: members, rest)
          else if c = 0x7d then some ([(key, value)], rest)
          else none

/-- The items of an array from an item on, at most so many of them. -/
def readItems : ℕ → List UInt8 → Option (List Value × List UInt8)
  | 0, _ => none
  | k + 1, text =>
    (read text).bind fun (item, text) =>
      match skipSpace text with
      | [] => none
      | c :: rest =>
        if c = 0x2c then (readItems k rest).map fun (items, rest) => (item :: items, rest)
        else if c = 0x5d then some ([item], rest)
        else none

end Composite

/-- A value that nests at most so deep, and the text after it. A text has fewer members and items
than bytes. -/
def readValue : ℕ → List UInt8 → Option (Value × List UInt8)
  | 0, _ => none
  | depth + 1, text =>
    match skipSpace text with
    | [] => none
    | c :: rest =>
      if c = 0x22 then (readString rest).map fun (s, rest) => (.string s, rest)
      else if c = 0x7b then
        match expectByte 0x7d rest with
        | some rest => some (.object [], rest)
        | none => (readMembers (readValue depth) rest.length rest).map fun (members, rest) =>
            (.object members, rest)
      else if c = 0x5b then
        match expectByte 0x5d rest with
        | some rest => some (.array [], rest)
        | none => (readItems (readValue depth) rest.length rest).map fun (items, rest) =>
            (.array items, rest)
      else some (readLiteral (c :: rest))

/-- The value of a text whose syntax is right. -/
def valueOf (text : List UInt8) : Option Value := (readValue (maxNestingDepth + 1) text).map Prod.fst

/-! ### Go values -/

/-- `ParseUint` of a number for a `uint8`; null leaves the value as it is. -/
def setUint8 (old : UInt8) : Value → Option UInt8
  | .null => some old
  | .number literal =>
    (Text.parseDigits (literal.map fun c => Char.ofNat c.toNat)).bind fun n =>
      if n < 256 then some (UInt8.ofNat n) else none
  | _ => none

def setBool (old : Bool) : Value → Option Bool
  | .null => some old
  | .bool b => some b
  | _ => none

def setString (old : String) : Value → Option String
  | .null => some old
  | .string s => some (String.ofList s)
  | _ => none

def sextetValue (c : UInt8) : Option ℕ := alphabet.idxOf? c

/-- `StdEncoding.Decode` of a text without line breaks: groups of four, padded at the end. -/
def decode64 : List UInt8 → Option (List UInt8)
  | [] => some []
  | a :: b :: c :: d :: rest =>
    (sextetValue a).bind fun v => (sextetValue b).bind fun w =>
      if d = 0x3d ∧ rest = [] then
        if c = 0x3d then some [UInt8.ofNat (v * 4 + w / 16)]
        else (sextetValue c).map fun x =>
          [UInt8.ofNat (v * 4 + w / 16), UInt8.ofNat (w % 16 * 16 + x / 4)]
      else (sextetValue c).bind fun x => (sextetValue d).bind fun y =>
        (decode64 rest).map fun bs =>
          UInt8.ofNat (v * 4 + w / 16) :: UInt8.ofNat (w % 16 * 16 + x / 4) ::
            UInt8.ofNat (x % 4 * 64 + y) :: bs
  | _ => none

/-- `StdEncoding.Decode`, which passes over line breaks. -/
def fromBase64 (text : List UInt8) : Option (List UInt8) :=
  decode64 (text.filter fun c => c ≠ 0x0a ∧ c ≠ 0x0d)

/-- A byte slice: base64, the bytes one by one, or nil. Where a byte is null the one that the slice
had there stays; behind its end it had zeros. -/
def setBytes (old : Option (List UInt8)) : Value → Option (Option (List UInt8))
  | .null => some none
  | .string s => (fromBase64 (s.flatMap String.utf8EncodeChar)).map some
  | .array items =>
    (items.zipIdx.mapM fun item => setUint8 ((old.getD []).getD item.2 0) item.1).map some
  | _ => none

/-- The strings of a slice that was nil. One that is null is left empty, also where a method of the
item's type goes on from the string. -/
def setStrings : Value → Option (List String)
  | .null => some []
  | .array items => items.mapM (setString "")
  | _ => none

/-! ### Structs -/

/-- Letters that a key need not have in the case of the field's name; the kelvin sign and the long
s count as letters. -/
def foldCase (c : Char) : Char :=
  if c.toNat = 0x212a then 'k' else if c.toNat = 0x17f then 's' else c.toLower

/-- The field that a key names. -/
def fieldOf (names : List String) (key : List Char) : Option String :=
  if String.ofList key ∈ names then some (String.ofList key)
  else names.find? fun name => name.toList.map foldCase = key.map foldCase

/-- A struct is filled member by member; keys that name no field are passed over. -/
def decodeStruct {σ : Type*} (names : List String) (set : String → Value → σ → Option σ) (zero : σ) :
    Value → Option σ
  | .null => some zero
  | .object members => members.foldlM (fun s member =>
      match fieldOf names member.1 with
      | some name => set name member.2 s
      | none => some s) zero
  | _ => none

/-- `json.Unmarshal` into a struct. -/
def unmarshalStruct {σ : Type*} (names : List String) (set : String → Value → σ → Option σ) (zero : σ)
    (text : List UInt8) : Option σ :=
  if Valid text then (valueOf text).bind (decodeStruct names set zero) else none

/-- `json.Unmarshal` into a nil slice of strings, or of what a method reads from a string. -/
def unmarshalStrings (text : List UInt8) : Option (List String) :=
  if Valid text then (valueOf text).bind setStrings else none

/-! ### Reading back what was written -/

theorem hexValue_hexDigit : ∀ k < 16, hexValue (hexDigit k) = some k := by decide

theorem getu4_unicode {w x y z : ℕ} (hw : w < 16) (hx : x < 16) (hy : y < 16) (hz : z < 16)
    (rest : List UInt8) :
    getu4 (0x5c :: 0x75 :: hexDigit w :: hexDigit x :: hexDigit y :: hexDigit z :: rest) =
      some (((w * 16 + x) * 16 + y) * 16 + z, rest) := by
  simp [getu4, hexValue_hexDigit w hw, hexValue_hexDigit x hx, hexValue_hexDigit y hy,
    hexValue_hexDigit z hz]

theorem not_isSurrogate (c : Char) : ¬ isSurrogate c.toNat := by
  have h := c.valid
  simp only [UInt32.isValidChar, Nat.isValidChar] at h
  change ¬ isSurrogate c.val.toNat
  unfold isSurrogate
  omega

theorem readChar_unicode {c : Char} {w x y z : ℕ} (hw : w < 16) (hx : x < 16) (hy : y < 16)
    (hz : z < 16) (hc : c.toNat = ((w * 16 + x) * 16 + y) * 16 + z) (rest : List UInt8) :
    readChar (0x5c :: 0x75 :: hexDigit w :: hexDigit x :: hexDigit y :: hexDigit z :: rest) =
      some (c, rest) := by
  simp only [readChar, ↓reduceIte, readEscape, getu4_unicode hw hx hy hz, ← hc,
    if_neg (not_isSurrogate c), Char.ofNat_toNat]

theorem readChar_escaped {e : UInt8} {c : Char} (he : e ≠ 0x75) (h : escaped e = some c)
    (rest : List UInt8) : readChar (0x5c :: e :: rest) = some (c, rest) := by
  have hget : getu4 (0x5c :: e :: rest) = none := by
    unfold getu4
    split
    · rename_i heq
      cases heq
      simp [he]
    · rfl
  simp only [readChar, ↓reduceIte, readEscape, hget, h, Option.map_some]

theorem utf8EncodeChar_ne_nil (c : Char) : String.utf8EncodeChar c ≠ [] := by
  rw [← List.length_pos_iff, String.length_utf8EncodeChar]
  exact Char.utf8Size_pos c

theorem readChar_utf8 {c : Char} (hc : ∀ b ∈ String.utf8EncodeChar c, b ≠ 0x5c)
    (rest : List UInt8) : readChar (String.utf8EncodeChar c ++ rest) = some (c, rest) := by
  have hdecode : decodeRune (String.utf8EncodeChar c ++ rest) = (c, rest) := by
    unfold decodeRune
    rw [List.toByteArray_append, ByteArray.utf8DecodeChar?_utf8EncodeChar_append]
    simp only [← String.length_utf8EncodeChar, List.drop_left]
  cases hbytes : String.utf8EncodeChar c with
  | nil => exact absurd hbytes (utf8EncodeChar_ne_nil c)
  | cons b tail =>
    rw [hbytes] at hdecode hc
    simp only [List.cons_append] at hdecode ⊢
    simp only [readChar, hdecode, if_neg (hc b List.mem_cons_self)]

theorem readChar_escape (c : Char) (rest : List UInt8) :
    readChar (escape c ++ rest) = some (c, rest) := by
  have hchar : ∀ {k}, c.toNat = k → Char.ofNat k = c := by
    rintro k rfl
    exact Char.ofNat_toNat c
  unfold escape
  split_ifs with h1 h2 h3 h4 h5 h6
  · rcases h1 with h1 | h1 <;> rw [h1, ← hchar h1] <;>
      exact readChar_escaped (by decide) rfl rest
  · rw [← hchar h2]
    exact readChar_escaped (by decide) rfl rest
  · rw [← hchar h3]
    exact readChar_escaped (by decide) rfl rest
  · rw [← hchar h4]
    exact readChar_escaped (by decide) rfl rest
  · exact readChar_unicode (w := 0) (x := 0) (by decide) (by decide) (by omega) (by omega)
      (by omega) rest
  · exact readChar_unicode (w := 2) (x := 0) (y := 2) (by decide) (by decide) (by decide)
      (by omega) (by omega) rest
  · exact readChar_utf8 (fun b hb =>
      (plain_utf8EncodeChar (by omega) (by omega) (by omega) b hb).2.2) rest

theorem head_escape (c : Char) (rest : List UInt8) : (escape c ++ rest).head? ≠ some 0x22 := by
  unfold escape
  split_ifs with h1 h2 h3 h4 h5 h6
  · simp
  iterate 5 simp [ascii]
  · intro hhead
    cases hbytes : String.utf8EncodeChar c with
    | nil => exact utf8EncodeChar_ne_nil c hbytes
    | cons b tail =>
      rw [hbytes] at hhead
      obtain rfl : b = 0x22 := by simpa using hhead
      have hplain := plain_utf8EncodeChar (c := c) (by omega) (by omega) (by omega)
      exact (hplain 0x22 (by simp [hbytes])).2.1 rfl

theorem readString_quote (rest : List UInt8) : readString (0x22 :: rest) = some ([], rest) := by
  rw [readString]
  simp

theorem readString_char {text rest : List UInt8} {c : Char} (hhead : text.head? ≠ some 0x22)
    (hread : readChar text = some (c, rest)) :
    readString text = (readString rest).map fun read => (c :: read.1, read.2) := by
  rw [readString, if_neg hhead]
  split <;> simp_all

theorem readString_chars (s : List Char) (rest : List UInt8) :
    readString (s.flatMap escape ++ 0x22 :: rest) = some (s, rest) := by
  induction s with
  | nil => exact readString_quote rest
  | cons c s ih =>
    rw [List.flatMap_cons, List.append_assoc, readString_char (head_escape c _) (readChar_escape c _), ih]
    rfl

/-- A byte of a string that stands for itself, as a character. -/
theorem utf8EncodeChar_ascii {b : UInt8} (hb : b < 0x80) :
    String.utf8EncodeChar (Char.ofNat b.toNat) = [b] := by
  have hlt : b.toNat < 0x80 := UInt8.lt_iff_toNat_lt.1 hb
  have hchar : (Char.ofNat b.toNat).val.toNat = b.toNat := by
    have hvalid : b.toNat.isValidChar := Or.inl (by omega)
    rw [Char.ofNat, dif_pos hvalid]
    rfl
  unfold String.utf8EncodeChar
  simp only [hchar, if_pos (show b.toNat ≤ 0x7f by omega), UInt8.ofNat_toNat]

theorem readString_plain {text : List UInt8} (htext : ∀ b ∈ text, Plain b ∧ b < 0x80) :
    ∃ s, (∀ rest, readString (text ++ 0x22 :: rest) = some (s, rest)) ∧
      s.flatMap String.utf8EncodeChar = text := by
  induction text with
  | nil => exact ⟨[], readString_quote, rfl⟩
  | cons b text ih =>
    obtain ⟨⟨hplain, hb⟩, htext⟩ := List.forall_mem_cons.1 htext
    obtain ⟨s, hread, hs⟩ := ih htext
    have henc := utf8EncodeChar_ascii hb
    refine ⟨Char.ofNat b.toNat :: s, fun rest => ?_, ?_⟩
    · have hchar : readChar ([b] ++ (text ++ 0x22 :: rest)) =
          some (Char.ofNat b.toNat, text ++ 0x22 :: rest) := by
        rw [← henc]
        exact readChar_utf8 (by simpa [henc] using hplain.2.2) _
      rw [List.cons_append, ← List.singleton_append,
        readString_char (by simpa using hplain.2.1) hchar, hread]
      rfl
    · rw [List.flatMap_cons, henc, hs]
      rfl

theorem sextetValue_sextet : ∀ k < 64, sextetValue (sextet k) = some k := by decide

theorem sextet_ne_pad : ∀ k < 64, sextet k ≠ 0x3d := by decide

theorem ofNat_eq {b : UInt8} {k : ℕ} (h : k = b.toNat) : UInt8.ofNat k = b := by
  rw [h, UInt8.ofNat_toNat]

theorem decode64_base64 (bs : List UInt8) : decode64 (base64 bs) = some bs := by
  have hlt : ∀ b : UInt8, b.toNat < 256 := UInt8.toNat_lt
  induction bs using base64.induct with
  | case1 => rfl
  | case2 a =>
    have ha := hlt a
    simp (disch := omega) only [base64, decode64, sextetValue_sextet, Option.bind_some, and_self,
      ↓reduceIte]
    rw [ofNat_eq (b := a) (by omega)]
  | case3 a b =>
    have ha := hlt a
    have hb := hlt b
    simp (disch := omega) only [base64, decode64, sextetValue_sextet, Option.bind_some, and_self,
      ↓reduceIte, if_neg (sextet_ne_pad (b.toNat % 16 * 4) (by omega)), Option.map_some]
    rw [ofNat_eq (b := a) (by omega), ofNat_eq (b := b) (by omega)]
  | case4 a b c rest ih =>
    have ha := hlt a
    have hb := hlt b
    have hc := hlt c
    have hd : ¬ (sextet (c.toNat % 64) = 0x3d ∧ base64 rest = []) := fun h =>
      sextet_ne_pad _ (by omega) h.1
    simp (disch := omega) only [base64, decode64, sextetValue_sextet, Option.bind_some, if_neg hd,
      ih, Option.map_some]
    rw [ofNat_eq (b := a) (by omega), ofNat_eq (b := b) (by omega), ofNat_eq (b := c) (by omega)]

theorem mem_base64 (bs : List UInt8) : ∀ b ∈ base64 bs, b ∈ 0x3d :: alphabet := by
  have hsextet : ∀ k, sextet k ∈ 0x3d :: alphabet := by
    intro k
    unfold sextet
    rw [List.getD_eq_getElem?_getD]
    cases hk : alphabet[k]? with
    | none => exact List.mem_cons_self
    | some b => exact List.mem_cons_of_mem _ (List.mem_of_getElem? hk)
  have hpad : (0x3d : UInt8) ∈ 0x3d :: alphabet := List.mem_cons_self
  induction bs using base64.induct with
  | case1 => simp [base64]
  | case2 a =>
    simp only [base64, List.forall_mem_cons, hsextet, hpad, true_and]
    simp
  | case3 a b =>
    simp only [base64, List.forall_mem_cons, hsextet, hpad, true_and]
    simp
  | case4 a b c rest ih =>
    simp only [base64, List.forall_mem_cons, hsextet, true_and]
    exact ih

theorem plain_pad_alphabet : ∀ b ∈ 0x3d :: alphabet, Plain b ∧ b < 0x80 :=
  List.all_iff_forall_prop.1 rfl

theorem fromBase64_base64 (bs : List UInt8) : fromBase64 (base64 bs) = some bs := by
  unfold fromBase64
  rw [List.filter_eq_self.2, decode64_base64]
  intro b hb
  have hplain := (plain_pad_alphabet b (mem_base64 bs b hb)).1.1
  have hne : ∀ c : UInt8, c < 0x20 → b ≠ c := by
    rintro c hc rfl
    exact absurd hplain (UInt8.not_le.2 hc)
  simp [hne 0x0a (by decide), hne 0x0d (by decide)]

theorem skipSpace_cons {c : UInt8} (h : ¬ isSpace c) (rest : List UInt8) :
    skipSpace (c :: rest) = c :: rest := by
  simp [skipSpace, h]

theorem expectByte_cons {b : UInt8} (h : ¬ isSpace b) (rest : List UInt8) :
    expectByte b (b :: rest) = some rest := by
  simp [expectByte, skipSpace_cons h]

/-- The text of a value that is read as `v` where a comma or a closing bracket follows. -/
def ReadsAs (text : List UInt8) (v : Value) : Prop :=
  ∀ depth, ∀ c ∈ [0x2c, 0x7d, 0x5d], ∀ rest,
    readValue (depth + 1) (text ++ c :: rest) = some (v, c :: rest)

theorem readsAs_string {text : List UInt8} {s : List Char}
    (h : ∀ rest, readString (text ++ 0x22 :: rest) = some (s, rest)) :
    ReadsAs (0x22 :: text ++ [0x22]) (.string s) := by
  intro depth c _ rest
  simp [readValue, skipSpace_cons (show ¬ isSpace 0x22 by decide), h]

theorem readsAs_quote (s : String) : ReadsAs (quote s) (.string s.toList) :=
  readsAs_string (readString_chars s.toList)

theorem readsAs_literal {c : UInt8} {text : List UInt8} (htext : ∀ b ∈ c :: text, isLiteral b)
    (hc : c ≠ 0x22 ∧ c ≠ 0x7b ∧ c ≠ 0x5b) : ReadsAs (c :: text) (literalValue (c :: text)) := by
  intro depth d hd rest
  have hend : ¬ isLiteral d := by
    simp only [List.mem_cons, List.not_mem_nil, or_false] at hd
    rcases hd with rfl | rfl | rfl <;> decide
  have htake : (c :: text ++ d :: rest).takeWhile (fun b => decide (isLiteral b)) = c :: text := by
    rw [List.takeWhile_append_of_pos (by simpa using htext)]
    simp [hend]
  have hdrop : (c :: text ++ d :: rest).dropWhile (fun b => decide (isLiteral b)) = d :: rest := by
    rw [List.dropWhile_append_of_pos (by simpa using htext)]
    simp [hend]
  have hspace := (List.forall_mem_cons.1 htext).1.1
  rw [List.cons_append] at htake hdrop ⊢
  simp only [readValue, skipSpace_cons hspace, hc.1, hc.2.1, hc.2.2, ↓reduceIte, readLiteral,
    htake, hdrop]

theorem digitChar_spec : ∀ k < 10, (Char.ofNat (digit k).toNat).isDigit ∧
    (Char.ofNat (digit k).toNat).toNat - '0'.toNat = k := by decide

theorem parseDigits_digits {ds : List ℕ} (hds : ∀ d ∈ ds, d < 10) (hne : ds ≠ []) :
    Text.parseDigits ((ds.map digit).map fun c => Char.ofNat c.toNat) =
      some (ds.foldl (fun n d => 10 * n + d) 0) := by
  have hall : ((ds.map digit).map fun c => Char.ofNat c.toNat).all Char.isDigit = true := by
    simp only [List.map_map, List.all_map, List.all_eq_true, Function.comp_apply]
    exact fun d hd => (digitChar_spec d (hds d hd)).1
  have hvalue : ∀ init, Nat.ofDigitChars 10 ((ds.map digit).map fun c => Char.ofNat c.toNat) init =
      ds.foldl (fun n d => 10 * n + d) init := by
    clear hall hne
    induction ds with
    | nil => exact fun _ => rfl
    | cons d ds ih =>
      obtain ⟨hd, hds⟩ := List.forall_mem_cons.1 hds
      intro init
      rw [List.map_cons, List.map_cons, Nat.ofDigitChars_cons, (digitChar_spec d hd).2, ih hds]
      rfl
  unfold Text.parseDigits
  rw [if_neg (by simpa using hne), if_pos hall, hvalue]

/-- The digits of a `uint8`. -/
theorem decimal_digits (b : UInt8) : ∃ ds : List ℕ, decimal b = ds.map digit ∧ ds ≠ [] ∧
    (∀ d ∈ ds, d < 10) ∧ ds.foldl (fun n d => 10 * n + d) 0 = b.toNat := by
  have hb : b.toNat < 256 := b.toNat_lt
  unfold decimal
  split_ifs with h10 h100
  · exact ⟨[b.toNat], rfl, by simp, by simpa using h10, by simp⟩
  · refine ⟨[b.toNat / 10, b.toNat % 10], rfl, by simp, ?_, ?_⟩
    · simp; omega
    · simp; omega
  · refine ⟨[b.toNat / 100, b.toNat / 10 % 10, b.toNat % 10], rfl, by simp, ?_, ?_⟩
    · simp; omega
    · simp; omega

theorem setUint8_decimal (old b : UInt8) : setUint8 old (.number (decimal b)) = some b := by
  obtain ⟨ds, hdec, hne, hds, hvalue⟩ := decimal_digits b
  simp only [setUint8, hdec, parseDigits_digits hds hne, hvalue, Option.bind_some,
    if_pos b.toNat_lt, UInt8.ofNat_toNat]

theorem isLiteral_digit : ∀ k < 10, isLiteral (digit k) := by decide

theorem digit_ne_bracket : ∀ k < 10, digit k ≠ 0x22 ∧ digit k ≠ 0x7b ∧ digit k ≠ 0x5b := by decide

theorem digit_ne_letter : ∀ k < 10, digit k ≠ 0x6e ∧ digit k ≠ 0x74 ∧ digit k ≠ 0x66 := by decide

theorem readsAs_decimal (b : UInt8) : ReadsAs (decimal b) (.number (decimal b)) := by
  obtain ⟨ds, hdec, hne, hds, -⟩ := decimal_digits b
  cases ds with
  | nil => exact absurd rfl hne
  | cons d ds =>
    rw [hdec]
    have hd := hds d List.mem_cons_self
    have hliteral : ∀ c ∈ (d :: ds).map digit, isLiteral c := by
      simp only [List.forall_mem_map]
      exact fun d' hd' => isLiteral_digit d' (hds d' hd')
    have hreads := readsAs_literal hliteral (digit_ne_bracket d hd)
    have hvalue : literalValue ((d :: ds).map digit) = .number ((d :: ds).map digit) := by
      simp [literalValue, ascii, digit_ne_letter d hd]
    rw [← hvalue]
    exact hreads

theorem readsAs_boolean (b : Bool) : ReadsAs (boolean b) (.bool b) := by
  cases b
  · exact @readsAs_literal 0x66 (ascii "alse") (List.all_iff_forall_prop.1 rfl) (by decide)
  · exact @readsAs_literal 0x74 (ascii "rue") (List.all_iff_forall_prop.1 rfl) (by decide)

/-- A byte slice is read as a value from which it is set. -/
theorem readsAs_bytes (bs : Option (List UInt8)) :
    ∃ v, ReadsAs (bytes bs) v ∧ ∀ old, setBytes old v = some bs := by
  cases bs with
  | none =>
    have hnull := @readsAs_literal 0x6e (ascii "ull") (List.all_iff_forall_prop.1 rfl) (by decide)
    exact ⟨.null, hnull, fun _ => rfl⟩
  | some bs =>
    obtain ⟨s, hread, hs⟩ := readString_plain fun b hb => plain_pad_alphabet b (mem_base64 bs b hb)
    refine ⟨.string s, readsAs_string hread, fun old => ?_⟩
    simp only [setBytes, hs, fromBase64_base64, Option.map_some]

/-! ### Objects -/

/-- The fields after the first one, as an object has them. -/
def fieldsText (fields : List (String × List UInt8)) : List UInt8 :=
  fields.flatMap fun field => 0x2c :: quote field.1 ++ 0x3a :: field.2

theorem fieldsText_cons (field : String × List UInt8) (fields : List (String × List UInt8)) :
    fieldsText (field :: fields) = 0x2c :: (quote field.1 ++ 0x3a :: (field.2 ++ fieldsText fields)) := by
  simp [fieldsText]

theorem object_eq (key : String) (value : List UInt8) (fields : List (String × List UInt8)) :
    object key value fields =
      0x7b :: (quote key ++ 0x3a :: (value ++ (fieldsText fields ++ [0x7d]))) := by
  simp [object, fieldsText]

theorem length_fieldsText (fields : List (String × List UInt8)) :
    fields.length ≤ (fieldsText fields).length := by
  induction fields with
  | nil => exact Nat.zero_le _
  | cons field fields ih =>
    simp only [fieldsText_cons, List.length_append, List.length_cons]
    omega

/-- The fields of an object and the members they are read as. -/
def FieldsReadAs (fields : List (String × List UInt8)) (members : List (List Char × Value)) : Prop :=
  List.Forall₂ (fun field member => field.1.toList = member.1 ∧ ReadsAs field.2 member.2)
    fields members

theorem readMembers_member {key : String} {value : List UInt8} {v : Value}
    (hvalue : ReadsAs value v) (depth k : ℕ) {c : UInt8} (hc : c ∈ [0x2c, 0x7d])
    (rest : List UInt8) :
    readMembers (readValue (depth + 1)) (k + 1) (quote key ++ 0x3a :: (value ++ c :: rest)) =
      if c = 0x2c then (readMembers (readValue (depth + 1)) k rest).map fun (members, rest) =>
        ((key.toList, v) :: members, rest)
      else some ([(key.toList, v)], rest) := by
  have hspace : ¬ isSpace c := by
    simp only [List.mem_cons, List.not_mem_nil, or_false] at hc
    rcases hc with rfl | rfl <;> decide
  have hends : c ∈ [0x2c, 0x7d, 0x5d] := by
    simp only [List.mem_cons] at hc ⊢
    tauto
  have hquote : ∀ text, expectByte 0x22 (0x22 :: text) = some text :=
    expectByte_cons (by decide)
  have hcolon : ∀ text, expectByte 0x3a (0x3a :: text) = some text :=
    expectByte_cons (by decide)
  simp only [readMembers, quote, List.cons_append, List.append_assoc, List.nil_append, hquote,
    hcolon, readString_chars, Option.bind_some, hvalue depth c hends, skipSpace_cons hspace]
  split_ifs with hcomma hbrace
  · rfl
  · rfl
  · simp [hcomma, hbrace] at hc

theorem readMembers_fields {key : String} {value : List UInt8} {v : Value}
    {fields : List (String × List UInt8)} {members : List (List Char × Value)}
    (hvalue : ReadsAs value v) (hfields : FieldsReadAs fields members) (depth : ℕ) {k : ℕ}
    (hk : fields.length < k) (rest : List UInt8) :
    readMembers (readValue (depth + 1)) k
      (quote key ++ 0x3a :: (value ++ (fieldsText fields ++ 0x7d :: rest))) =
      some ((key.toList, v) :: members, rest) := by
  induction hfields generalizing key value v k with
  | nil =>
    obtain ⟨k, rfl⟩ := Nat.exists_eq_succ_of_ne_zero (Nat.ne_zero_of_lt hk)
    change readMembers _ _ (quote key ++ 0x3a :: (value ++ 0x7d :: rest)) = _
    rw [readMembers_member hvalue depth k (by simp)]
    rfl
  | @cons field member fields members hfield hfields ih =>
    obtain ⟨k, rfl⟩ := Nat.exists_eq_succ_of_ne_zero (Nat.ne_zero_of_lt hk)
    have hnext := @ih field.1 _ _ hfield.2 k (by simpa using hk)
    simp only [fieldsText_cons, List.append_assoc, List.cons_append]
    rw [readMembers_member hvalue depth _ (by simp), if_pos rfl, hnext, hfield.1]
    rfl

/-- An object that was written is read with its members in order. -/
theorem readValue_object {key : String} {value : List UInt8} {v : Value}
    {fields : List (String × List UInt8)} {members : List (List Char × Value)}
    (hvalue : ReadsAs value v) (hfields : FieldsReadAs fields members) (depth : ℕ) :
    readValue (depth + 2) (object key value fields) =
      some (.object ((key.toList, v) :: members), []) := by
  have hbrace : ∀ text, expectByte 0x7d (quote key ++ text) = none := by
    intro text
    simp [expectByte, quote, skipSpace_cons (show ¬ isSpace 0x22 by decide)]
  have hlength := length_fieldsText fields
  rw [object_eq, readValue, skipSpace_cons (by decide)]
  simp only [hbrace]
  rw [readMembers_fields hvalue hfields depth (by simp; omega)]
  rfl

theorem valueOf_object {key : String} {value : List UInt8} {v : Value}
    {fields : List (String × List UInt8)} {members : List (List Char × Value)}
    (hvalue : ReadsAs value v) (hfields : FieldsReadAs fields members) :
    valueOf (object key value fields) = some (.object ((key.toList, v) :: members)) := by
  change Option.map Prod.fst (readValue (9999 + 2) _) = _
  rw [readValue_object hvalue hfields]
  rfl

theorem fieldOf_mem {names : List String} {key : String} (h : key ∈ names) :
    fieldOf names key.toList = some key := by
  simp [fieldOf, h]

/-- The members set the fields they are named after, in order. -/
theorem decodeStruct_object {σ : Type*} {names : List String} {set : String → Value → σ → Option σ}
    {zero : σ} {members : List (String × Value)} (h : ∀ member ∈ members, member.1 ∈ names) :
    decodeStruct names set zero (.object (members.map fun member => (member.1.toList, member.2))) =
      members.foldlM (fun s member => set member.1 member.2 s) zero := by
  simp only [decodeStruct]
  induction members generalizing zero with
  | nil => rfl
  | cons member members ih =>
    obtain ⟨hmember, hmembers⟩ := List.forall_mem_cons.1 h
    rw [List.map_cons, List.foldlM_cons, List.foldlM_cons, fieldOf_mem hmember]
    exact bind_congr fun s => ih hmembers

/-! ### Arrays -/

theorem readItems_strings (s : String) (rest : List String) (depth : ℕ) {k : ℕ}
    (hk : rest.length < k) (tail : List UInt8) :
    readItems (readValue (depth + 1)) k
      (quote s ++ (rest.flatMap (fun s => 0x2c :: quote s) ++ 0x5d :: tail)) =
      some ((s :: rest).map fun s => .string s.toList, tail) := by
  induction rest generalizing s k with
  | nil =>
    obtain ⟨k, rfl⟩ := Nat.exists_eq_succ_of_ne_zero (Nat.ne_zero_of_lt hk)
    rw [List.flatMap_nil, List.nil_append, readItems, readsAs_quote s depth 0x5d (by simp)]
    simp only [Option.bind_some, skipSpace_cons (show ¬ isSpace 0x5d by decide)]
    rfl
  | cons s' rest ih =>
    obtain ⟨k, rfl⟩ := Nat.exists_eq_succ_of_ne_zero (Nat.ne_zero_of_lt hk)
    have hnext := @ih s' k (by simpa using hk)
    rw [List.flatMap_cons, List.append_assoc, List.cons_append, readItems,
      readsAs_quote s depth 0x2c (by simp)]
    simp only [Option.bind_some, skipSpace_cons (show ¬ isSpace 0x2c by decide), ↓reduceIte, hnext]
    rfl

theorem valueOf_strings (l : List String) :
    valueOf (strings l) = some (.array (l.map fun s => .string s.toList)) := by
  cases l with
  | nil => rfl
  | cons s rest =>
    have hbracket : ∀ text, expectByte 0x5d (quote s ++ text) = none := by
      intro text
      simp [expectByte, quote, skipSpace_cons (show ¬ isSpace 0x22 by decide)]
    have hlength : rest.length ≤ (rest.flatMap fun s => 0x2c :: quote s).length := by
      induction rest with
      | nil => exact Nat.zero_le _
      | cons s' rest ih =>
        simp only [List.flatMap_cons, List.length_append, List.length_cons]
        omega
    change Option.map Prod.fst (readValue (9999 + 2) _) = _
    unfold strings
    simp only [List.cons_append, List.append_assoc]
    rw [readValue, skipSpace_cons (by decide)]
    simp only [hbracket]
    rw [readItems_strings s rest 9999 (by simp only [List.length_append, List.length_cons]; omega)]
    rfl

theorem unmarshalStrings_strings (l : List String) : unmarshalStrings (strings l) = some l := by
  unfold unmarshalStrings
  rw [if_pos (valid_strings l), valueOf_strings, Option.bind_some]
  induction l with
  | nil => rfl
  | cons s l ih =>
    simp only [setStrings] at ih ⊢
    rw [List.map_cons, List.mapM_cons, ih]
    simp [setString]

end JsonReader
