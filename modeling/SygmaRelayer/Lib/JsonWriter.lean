import Mathlib.Data.Bool.AllAny
import Mathlib.Tactic.IntervalCases
import SygmaRelayer.Lib.JsonScanner
import SygmaRelayer.Lib.Text

/-! What Go's `encoding/json` writes for strings, byte slices, small numbers and structs, and what
the texts do to the scanner. None of them has a control byte in it, so a newline never
occurs in them. -/

namespace JsonWriter

open JsonScanner
open Text (ascii)

def hexDigit (k : ℕ) : UInt8 := UInt8.ofNat (if k < 10 then 0x30 + k else 0x57 + k)

/-- A character of a string. -/
def escape (c : Char) : List UInt8 :=
  if c.toNat = 0x22 ∨ c.toNat = 0x5c then [0x5c, UInt8.ofNat c.toNat]
  else if c.toNat = 0x0a then ascii "\\n"
  else if c.toNat = 0x0d then ascii "\\r"
  else if c.toNat = 0x09 then ascii "\\t"
  else if c.toNat < 0x20 ∨ c.toNat = 0x3c ∨ c.toNat = 0x3e ∨ c.toNat = 0x26 then
    ascii "\\u00" ++ [hexDigit (c.toNat / 16), hexDigit (c.toNat % 16)]
  else if c.toNat = 0x2028 ∨ c.toNat = 0x2029 then ascii "\\u202" ++ [hexDigit (c.toNat % 16)]
  else String.utf8EncodeChar c

def quote (s : String) : List UInt8 := 0x22 :: s.toList.flatMap escape ++ [0x22]

def alphabet : List UInt8 :=
  ascii "ABCDEFGHIJKLMNOPQRSTUVWXYZabcdefghijklmnopqrstuvwxyz0123456789+/"

def sextet (k : ℕ) : UInt8 := alphabet.getD k 0x3d

/-- The standard encoding, padded. -/
def base64 : List UInt8 → List UInt8
  | [] => []
  | [a] => [sextet (a.toNat / 4), sextet (a.toNat % 4 * 16), 0x3d, 0x3d]
  | [a, b] =>
    [sextet (a.toNat / 4), sextet (a.toNat % 4 * 16 + b.toNat / 16), sextet (b.toNat % 16 * 4),
      0x3d]
  | a :: b :: c :: rest =>
    sextet (a.toNat / 4) :: sextet (a.toNat % 4 * 16 + b.toNat / 16) ::
      sextet (b.toNat % 16 * 4 + c.toNat / 64) :: sextet (c.toNat % 64) :: base64 rest

/-- A byte slice, `none` for nil. -/
def bytes : Option (List UInt8) → List UInt8
  | none => ascii "null"
  | some bs => 0x22 :: base64 bs ++ [0x22]

def digit (k : ℕ) : UInt8 := UInt8.ofNat (0x30 + k)

/-- A `uint8` in decimal. -/
def decimal (b : UInt8) : List UInt8 :=
  if b.toNat < 10 then [digit b.toNat]
  else if b.toNat < 100 then [digit (b.toNat / 10), digit (b.toNat % 10)]
  else [digit (b.toNat / 100), digit (b.toNat / 10 % 10), digit (b.toNat % 10)]

/-- A `bool`. -/
def boolean (b : Bool) : List UInt8 := ascii (if b then "true" else "false")

/-- A struct with at least one field, the names and texts of the fields in order. -/
def object (key : String) (value : List UInt8) (rest : List (String × List UInt8)) : List UInt8 :=
  0x7b :: quote key ++ 0x3a :: value ++
    rest.flatMap (fun field => 0x2c :: quote field.1 ++ 0x3a :: field.2) ++ [0x7d]

/-- A slice of strings. -/
def strings : List String → List UInt8
  | [] => ascii "[]"
  | s :: rest => 0x5b :: quote s ++ rest.flatMap (fun s => 0x2c :: quote s) ++ [0x5d]

theorem length_base64 (bs : List UInt8) : (base64 bs).length = 4 * ((bs.length + 2) / 3) := by
  induction bs using base64.induct with
  | case1 => rfl
  | case2 a => simp [base64]
  | case3 a b => simp [base64]
  | case4 a b c rest ih =>
    simp only [base64, List.length_cons, ih]
    omega

/-! ### Strings -/

/-- The inside of a string. -/
structure StringPart (text : List UInt8) : Prop where
  printed : ∀ b ∈ text, 0x20 ≤ b
  scans : ∀ stack, scan ⟨.inString, stack⟩ text = ⟨.inString, stack⟩

theorem StringPart.append {front back : List UInt8} (h : StringPart front) (h' : StringPart back) :
    StringPart (front ++ back) where
  printed b hb := (List.mem_append.1 hb).elim (h.printed b) (h'.printed b)
  scans stack := by rw [scan_append, h.scans, h'.scans]

theorem StringPart.flatMap {α : Type*} {f : α → List UInt8} {l : List α}
    (h : ∀ a ∈ l, StringPart (f a)) : StringPart (l.flatMap f) := by
  induction l with
  | nil => exact ⟨by simp, fun _ => rfl⟩
  | cons a l ih =>
    rw [List.flatMap_cons]
    exact (h a List.mem_cons_self).append (ih fun b hb => h b (List.mem_cons_of_mem a hb))

/-- A byte that stands for itself in a string. -/
def Plain (b : UInt8) : Prop := 0x20 ≤ b ∧ b ≠ 0x22 ∧ b ≠ 0x5c

instance (b : UInt8) : Decidable (Plain b) := inferInstanceAs (Decidable (_ ∧ _ ∧ _))

theorem StringPart.singleton {b : UInt8} (h : Plain b) : StringPart [b] where
  printed b' hb := by
    obtain rfl := List.mem_singleton.1 hb
    exact h.1
  scans stack := by simp [next, expect, h.1, h.2.1, h.2.2]

theorem StringPart.of_plain {text : List UInt8} (h : ∀ b ∈ text, Plain b) : StringPart text := by
  rw [← List.flatMap_singleton' text]
  exact StringPart.flatMap fun b hb => StringPart.singleton (h b hb)

theorem plain_ofNat {k : ℕ} (h : 0x20 ≤ k) (hlt : k < 256) (hquote : k ≠ 0x22)
    (hback : k ≠ 0x5c) : Plain (UInt8.ofNat k) := by
  refine ⟨?_, ?_, ?_⟩
  · rw [UInt8.le_iff_toNat_le, UInt8.toNat_ofNat_of_lt' hlt]
    exact h
  · rw [ne_eq, ← UInt8.toNat_inj, UInt8.toNat_ofNat_of_lt' hlt]
    exact hquote
  · rw [ne_eq, ← UInt8.toNat_inj, UInt8.toNat_ofNat_of_lt' hlt]
    exact hback

theorem plain_utf8EncodeChar {c : Char} (h : 0x20 ≤ c.toNat) (hquote : c.toNat ≠ 0x22)
    (hback : c.toNat ≠ 0x5c) : ∀ b ∈ String.utf8EncodeChar c, Plain b := by
  have hc : c.val.toNat = c.toNat := rfl
  unfold String.utf8EncodeChar
  simp only [hc]
  intro b hb
  split_ifs at hb <;> simp only [List.mem_cons, List.not_mem_nil, or_false] at hb
  · subst hb
    exact plain_ofNat h (by omega) hquote hback
  · rcases hb with rfl | rfl <;> exact plain_ofNat (by omega) (by omega) (by omega) (by omega)
  · rcases hb with rfl | rfl | rfl <;>
      exact plain_ofNat (by omega) (by omega) (by omega) (by omega)
  · rcases hb with rfl | rfl | rfl | rfl <;>
      exact plain_ofNat (by omega) (by omega) (by omega) (by omega)

theorem isHex_hexDigit : ∀ k < 16, isHex (hexDigit k) ∧ 0x20 ≤ hexDigit k := by decide

/-- An escape by code point. -/
theorem StringPart.unicode {a b c d : UInt8} (ha : isHex a ∧ 0x20 ≤ a) (hb : isHex b ∧ 0x20 ≤ b)
    (hc : isHex c ∧ 0x20 ≤ c) (hd : isHex d ∧ 0x20 ≤ d) : StringPart [0x5c, 0x75, a, b, c, d] where
  printed := by simp [ha.2, hb.2, hc.2, hd.2]
  scans stack := by simp [next, stateInStringEsc, expect, ha.1, hb.1, hc.1, hd.1]

theorem stringPart_escape (c : Char) : StringPart (escape c) := by
  unfold escape
  split_ifs with h1 h2 h3 h4 h5 h6
  · rcases h1 with h1 | h1 <;> rw [h1] <;> exact ⟨List.all_iff_forall_prop.1 rfl, fun _ => rfl⟩
  · exact ⟨List.all_iff_forall_prop.1 rfl, fun _ => rfl⟩
  · exact ⟨List.all_iff_forall_prop.1 rfl, fun _ => rfl⟩
  · exact ⟨List.all_iff_forall_prop.1 rfl, fun _ => rfl⟩
  · have hhigh := isHex_hexDigit (c.toNat / 16) (by omega)
    have hlow := isHex_hexDigit (c.toNat % 16) (by omega)
    exact StringPart.unicode (by decide) (by decide) hhigh hlow
  · have hlow := isHex_hexDigit (c.toNat % 16) (by omega)
    exact StringPart.unicode (by decide) (by decide) (by decide) hlow
  · exact StringPart.of_plain (plain_utf8EncodeChar (by omega) (by omega) (by omega))

theorem stringPart_chars (s : String) : StringPart (s.toList.flatMap escape) :=
  StringPart.flatMap fun c _ => stringPart_escape c

theorem plain_sextet (k : ℕ) : Plain (sextet k) := by
  have hall : ∀ b ∈ alphabet, Plain b := List.all_iff_forall_prop.1 rfl
  unfold sextet
  rw [List.getD_eq_getElem?_getD]
  cases hk : alphabet[k]? with
  | none => decide
  | some b => exact hall b (List.mem_of_getElem? hk)

theorem plain_base64 (bs : List UInt8) : ∀ b ∈ base64 bs, Plain b := by
  have hpad : Plain 0x3d := by decide
  induction bs using base64.induct with
  | case1 => simp [base64]
  | case2 a => simp [base64, plain_sextet, hpad]
  | case3 a b => simp [base64, plain_sextet, hpad]
  | case4 a b c rest ih =>
    simp only [base64, List.forall_mem_cons, plain_sextet, true_and]
    exact ih

/-! ### Values -/

/-- The text of a value that a comma or a closing bracket ends. -/
structure Value (text : List UInt8) : Prop where
  printed : ∀ b ∈ text, 0x20 ≤ b
  ends : ∀ stack, ∀ c ∈ [0x2c, 0x7d, 0x5d],
    next (scan ⟨.beginValue, stack⟩ text) c = stateEndValue stack c

theorem StringPart.value {text : List UInt8} (h : StringPart text) :
    Value (0x22 :: text ++ [0x22]) where
  printed b hb := by
    simp only [List.cons_append, List.mem_cons, List.mem_append, List.not_mem_nil, or_false] at hb
    rcases hb with rfl | hb | rfl
    · decide
    · exact h.printed b hb
    · decide
  ends stack c _ := by
    rw [List.cons_append, scan_cons, scan_append]
    change next (scan (scan ⟨.inString, stack⟩ text) [0x22]) c = _
    rw [h.scans]
    rfl

theorem value_quote (s : String) : Value (quote s) := (stringPart_chars s).value

theorem value_bytes (bs : Option (List UInt8)) : Value (bytes bs) := by
  cases bs with
  | none => exact ⟨List.all_iff_forall_prop.1 rfl, fun _ _ _ => rfl⟩
  | some bs => exact (StringPart.of_plain (plain_base64 bs)).value

theorem digit_spec : ∀ k < 10, isDigit (digit k) ∧ 0x20 ≤ digit k := by decide

theorem next_digit {k : ℕ} (hk : k < 10) (stack : List Frame) :
    next ⟨.num1, stack⟩ (digit k) = ⟨.num1, stack⟩ := by
  simp [next, (digit_spec k hk).1]

theorem next_first_digit {k : ℕ} (h0 : 0 < k) (hk : k < 10) (stack : List Frame) :
    next ⟨.beginValue, stack⟩ (digit k) = ⟨.num1, stack⟩ := by
  interval_cases k <;> rfl

theorem next_num1 (stack : List Frame) {c : UInt8} (hc : c ∈ [0x2c, 0x7d, 0x5d]) :
    next ⟨.num1, stack⟩ c = stateEndValue stack c := by
  simp only [List.mem_cons, List.not_mem_nil, or_false] at hc
  rcases hc with rfl | rfl | rfl <;> rfl

theorem value_decimal (b : UInt8) : Value (decimal b) := by
  have hb : b.toNat < 256 := b.toNat_lt
  unfold decimal
  split_ifs with h10 h100
  · refine ⟨by simpa using (digit_spec _ h10).2, fun stack c hc => ?_⟩
    by_cases h0 : b.toNat = 0
    · rw [h0]
      simp only [List.mem_cons, List.not_mem_nil, or_false] at hc
      rcases hc with rfl | rfl | rfl <;> rfl
    · rw [scan_cons, next_first_digit (by omega) h10]
      exact next_num1 stack hc
  · refine ⟨?_, fun stack c hc => ?_⟩
    · simp [(digit_spec (b.toNat / 10) (by omega)).2, (digit_spec (b.toNat % 10) (by omega)).2]
    · rw [scan_cons, scan_cons, next_first_digit (by omega) (by omega), next_digit (by omega)]
      exact next_num1 stack hc
  · refine ⟨?_, fun stack c hc => ?_⟩
    · simp [(digit_spec (b.toNat / 100) (by omega)).2,
        (digit_spec (b.toNat / 10 % 10) (by omega)).2, (digit_spec (b.toNat % 10) (by omega)).2]
    · rw [scan_cons, scan_cons, scan_cons, next_first_digit (by omega) (by omega),
        next_digit (by omega), next_digit (by omega)]
      exact next_num1 stack hc

theorem value_boolean (b : Bool) : Value (boolean b) := by
  cases b <;> exact ⟨List.all_iff_forall_prop.1 rfl, fun _ _ _ => rfl⟩

/-! ### Objects -/

/-- A key and its colon. -/
theorem scan_key (s : String) (stack : List Frame) {mode : Mode}
    (hmode : mode = .beginString ∨ mode = .beginStringOrEmpty) (text : List UInt8) :
    scan ⟨mode, .objectKey :: stack⟩ (quote s ++ 0x3a :: text) =
      scan ⟨.beginValue, .objectValue :: stack⟩ text := by
  have hopen : next ⟨mode, .objectKey :: stack⟩ 0x22 = ⟨.inString, .objectKey :: stack⟩ := by
    rcases hmode with rfl | rfl <;> rfl
  unfold quote
  rw [List.append_assoc, List.cons_append, scan_cons, hopen, scan_append,
    (stringPart_chars s).scans]
  rfl

/-- The fields after a value, up to the closing brace. -/
theorem scan_fields {value : List UInt8} {rest : List (String × List UInt8)} (hvalue : Value value)
    (hrest : ∀ field ∈ rest, Value field.2) (stack : List Frame) :
    scan ⟨.beginValue, .objectValue :: stack⟩ (value ++
      (rest.flatMap (fun field => 0x2c :: quote field.1 ++ 0x3a :: field.2) ++ [0x7d])) =
      ended stack := by
  induction rest generalizing value with
  | nil =>
    rw [scan_append, List.flatMap_nil, List.nil_append, scan_cons,
      hvalue.ends _ 0x7d (by simp)]
    rfl
  | cons field rest ih =>
    rw [scan_append, List.flatMap_cons, List.append_assoc, List.cons_append, List.cons_append,
      scan_cons, hvalue.ends _ 0x2c (by simp), List.append_assoc, List.cons_append]
    change scan ⟨.beginString, .objectKey :: stack⟩ _ = _
    rw [scan_key field.1 stack (Or.inl rfl)]
    exact ih (hrest field List.mem_cons_self) fun f hf => hrest f (List.mem_cons_of_mem field hf)

theorem objectText_object {key : String} {value : List UInt8} {rest : List (String × List UInt8)}
    (hkey : ∃ k tail, quote key = 0x22 :: k :: tail ∧ 0x61 ≤ k ∧ k ≤ 0x7a) (hvalue : Value value)
    (hrest : ∀ field ∈ rest, Value field.2) : ObjectText (object key value rest) where
  starts := by
    obtain ⟨k, tail, hquote, hk⟩ := hkey
    exact ⟨k, _, by rw [object, hquote]; rfl, hk⟩
  ends stack hdepth := by
    have hopen : next ⟨.beginValue, stack⟩ 0x7b = ⟨.beginStringOrEmpty, .objectKey :: stack⟩ := by
      simp [next, stateBeginValue, isSpace, pushParseState, hdepth]
    unfold object
    simp only [List.cons_append, List.append_assoc]
    rw [scan_cons, hopen, scan_key key stack (Or.inr rfl)]
    exact scan_fields hvalue hrest stack

/-- The strings after a first one, up to the closing bracket. -/
theorem scan_strings {value : List UInt8} (hvalue : Value value) (rest : List String)
    (stack : List Frame) :
    scan ⟨.beginValue, .arrayValue :: stack⟩ (value ++
      (rest.flatMap (fun s => 0x2c :: quote s) ++ [0x5d])) = ended stack := by
  induction rest generalizing value with
  | nil =>
    rw [scan_append, List.flatMap_nil, List.nil_append, scan_cons,
      hvalue.ends _ 0x5d (by simp)]
    rfl
  | cons s rest ih =>
    rw [scan_append, List.flatMap_cons, List.append_assoc, List.cons_append, scan_cons,
      hvalue.ends _ 0x2c (by simp)]
    change scan ⟨.beginValue, .arrayValue :: stack⟩ _ = _
    exact ih (value_quote s)

theorem valid_strings (l : List String) : Valid (strings l) := by
  cases l with
  | nil => decide
  | cons s rest =>
    have hopen : scan ⟨.beginValue, []⟩ (strings (s :: rest)) =
        scan ⟨.beginValue, [.arrayValue]⟩ (quote s ++
          (rest.flatMap (fun s => 0x2c :: quote s) ++ [0x5d])) := by
      unfold strings
      simp only [List.cons_append, List.append_assoc]
      rfl
    unfold Valid
    rw [hopen, scan_strings (value_quote s)]
    decide

theorem printed_object {key : String} {value : List UInt8} {rest : List (String × List UInt8)}
    (hvalue : Value value) (hrest : ∀ field ∈ rest, Value field.2) :
    ∀ b ∈ object key value rest, 0x20 ≤ b := by
  have hcolon : ∀ (s : String) {v : List UInt8}, Value v →
      ∀ b ∈ quote s ++ 0x3a :: v, 0x20 ≤ b := by
    intro s v hv
    rw [List.forall_mem_append, List.forall_mem_cons]
    exact ⟨(value_quote s).printed, by decide, hv.printed⟩
  unfold object
  refine List.forall_mem_append.2
    ⟨List.forall_mem_append.2 ⟨?_, fun b hb => ?_⟩, List.all_iff_forall_prop.1 rfl⟩
  · rw [List.cons_append, List.forall_mem_cons]
    exact ⟨by decide, hcolon key hvalue⟩
  · obtain ⟨field, hfield, hb⟩ := List.mem_flatMap.1 hb
    rcases List.mem_cons.1 hb with rfl | hb
    · decide
    · exact hcolon field.1 (hrest field hfield) b hb

end JsonWriter
