import Mathlib.Tactic.Common

/-! The syntax check of JSON, a byte at a time, as Go's `encoding/json` runs it over a text
before decoding anything. What a text does to the scanner is the same at every depth of
nesting, and a text that follows a torn one is never accepted. -/

namespace JsonScanner

/-- `parseState`: where the enclosing values stand. -/
inductive Frame
  | objectKey
  | objectValue
  | arrayValue
deriving DecidableEq, Repr

/-- The step functions of the scanner. -/
inductive Mode
  | beginValueOrEmpty | beginValue | beginStringOrEmpty | beginString
  | endValue | endTop
  | inString | inStringEsc | inStringEscU | inStringEscU1 | inStringEscU12 | inStringEscU123
  | neg | num1 | num0 | dot | dot0 | exp | expSign | exp0
  | t | tr | tru | f | fa | fal | fals | n | nu | nul
  | error
deriving DecidableEq, Repr

structure State where
  mode : Mode
  stack : List Frame
deriving DecidableEq, Repr

def maxNestingDepth : ℕ := 10000

def isSpace (c : UInt8) : Prop := c = 0x20 ∨ c = 0x09 ∨ c = 0x0d ∨ c = 0x0a

def isDigit (c : UInt8) : Prop := 0x30 ≤ c ∧ c ≤ 0x39

def isHex (c : UInt8) : Prop :=
  isDigit c ∨ (0x61 ≤ c ∧ c ≤ 0x66) ∨ (0x41 ≤ c ∧ c ≤ 0x46)

instance (c : UInt8) : Decidable (isSpace c) := inferInstanceAs (Decidable (_ ∨ _ ∨ _ ∨ _))
instance (c : UInt8) : Decidable (isDigit c) := inferInstanceAs (Decidable (_ ∧ _))
instance (c : UInt8) : Decidable (isHex c) := inferInstanceAs (Decidable (_ ∨ _ ∨ _))

/-- After a value that leaves these enclosing ones. -/
def ended : List Frame → State
  | [] => ⟨.endTop, []⟩
  | frame :: stack => ⟨.endValue, frame :: stack⟩

def pushParseState (stack : List Frame) (frame : Frame) (mode : Mode) : State :=
  ⟨if stack.length < maxNestingDepth then mode else .error, frame :: stack⟩

def stateEndTop (stack : List Frame) (c : UInt8) : State :=
  ⟨if isSpace c then .endTop else .error, stack⟩

def stateEndValue (stack : List Frame) (c : UInt8) : State :=
  match stack with
  | [] => stateEndTop [] c
  | frame :: rest =>
    if isSpace c then ⟨.endValue, stack⟩
    else match frame with
    | .objectKey => if c = 0x3a then ⟨.beginValue, .objectValue :: rest⟩ else ⟨.error, stack⟩
    | .objectValue =>
      if c = 0x2c then ⟨.beginString, .objectKey :: rest⟩
      else if c = 0x7d then ended rest
      else ⟨.error, stack⟩
    | .arrayValue =>
      if c = 0x2c then ⟨.beginValue, stack⟩
      else if c = 0x5d then ended rest
      else ⟨.error, stack⟩

def stateBeginValue (stack : List Frame) (c : UInt8) : State :=
  if isSpace c then ⟨.beginValue, stack⟩
  else if c = 0x7b then pushParseState stack .objectKey .beginStringOrEmpty
  else if c = 0x5b then pushParseState stack .arrayValue .beginValueOrEmpty
  else if c = 0x22 then ⟨.inString, stack⟩
  else if c = 0x2d then ⟨.neg, stack⟩
  else if c = 0x30 then ⟨.num0, stack⟩
  else if c = 0x74 then ⟨.t, stack⟩
  else if c = 0x66 then ⟨.f, stack⟩
  else if c = 0x6e then ⟨.n, stack⟩
  else if isDigit c then ⟨.num1, stack⟩
  else ⟨.error, stack⟩

def stateBeginString (stack : List Frame) (c : UInt8) : State :=
  ⟨if isSpace c then .beginString else if c = 0x22 then .inString else .error, stack⟩

def stateInStringEsc (stack : List Frame) (c : UInt8) : State :=
  ⟨if c ∈ [0x62, 0x66, 0x6e, 0x72, 0x74, 0x5c, 0x2f, 0x22] then .inString
    else if c = 0x75 then .inStringEscU else .error, stack⟩

/-- A byte of one kind leads on, any other is an error. -/
def expect (p : Prop) [Decidable p] (mode : Mode) (stack : List Frame) : State :=
  ⟨if p then mode else .error, stack⟩

def state0 (stack : List Frame) (c : UInt8) : State :=
  if c = 0x2e then ⟨.dot, stack⟩
  else if c = 0x65 ∨ c = 0x45 then ⟨.exp, stack⟩
  else stateEndValue stack c

def next (s : State) (c : UInt8) : State :=
  match s.mode with
  | .beginValueOrEmpty =>
    if isSpace c then s
    else if c = 0x5d then stateEndValue s.stack c
    else stateBeginValue s.stack c
  | .beginValue => stateBeginValue s.stack c
  | .beginStringOrEmpty =>
    if isSpace c then s
    else if c = 0x7d then stateEndValue (.objectValue :: s.stack.tail) c
    else stateBeginString s.stack c
  | .beginString => stateBeginString s.stack c
  | .endValue => stateEndValue s.stack c
  | .endTop => stateEndTop s.stack c
  | .inString =>
    if c = 0x22 then ⟨.endValue, s.stack⟩
    else if c = 0x5c then ⟨.inStringEsc, s.stack⟩
    else expect (0x20 ≤ c) .inString s.stack
  | .inStringEsc => stateInStringEsc s.stack c
  | .inStringEscU => expect (isHex c) .inStringEscU1 s.stack
  | .inStringEscU1 => expect (isHex c) .inStringEscU12 s.stack
  | .inStringEscU12 => expect (isHex c) .inStringEscU123 s.stack
  | .inStringEscU123 => expect (isHex c) .inString s.stack
  | .neg => if c = 0x30 then ⟨.num0, s.stack⟩ else expect (isDigit c) .num1 s.stack
  | .num1 => if isDigit c then s else state0 s.stack c
  | .num0 => state0 s.stack c
  | .dot => expect (isDigit c) .dot0 s.stack
  | .dot0 =>
    if isDigit c then s
    else if c = 0x65 ∨ c = 0x45 then ⟨.exp, s.stack⟩
    else stateEndValue s.stack c
  | .exp => if c = 0x2b ∨ c = 0x2d then ⟨.expSign, s.stack⟩ else expect (isDigit c) .exp0 s.stack
  | .expSign => expect (isDigit c) .exp0 s.stack
  | .exp0 => if isDigit c then s else stateEndValue s.stack c
  | .t => expect (c = 0x72) .tr s.stack
  | .tr => expect (c = 0x75) .tru s.stack
  | .tru => expect (c = 0x65) .endValue s.stack
  | .f => expect (c = 0x61) .fa s.stack
  | .fa => expect (c = 0x6c) .fal s.stack
  | .fal => expect (c = 0x73) .fals s.stack
  | .fals => expect (c = 0x65) .endValue s.stack
  | .n => expect (c = 0x75) .nu s.stack
  | .nu => expect (c = 0x6c) .nul s.stack
  | .nul => expect (c = 0x6c) .endValue s.stack
  | .error => s

def scan (s : State) (text : List UInt8) : State := text.foldl next s

/-- `eof`: a space ends what can end here. -/
def State.Accepts (s : State) : Prop := (next s 0x20).mode = .endTop

/-- `checkValid` -/
def Valid (text : List UInt8) : Prop := (scan ⟨.beginValue, []⟩ text).Accepts

instance (s : State) : Decidable s.Accepts := inferInstanceAs (Decidable (_ = _))
instance (text : List UInt8) : Decidable (Valid text) :=
  inferInstanceAs (Decidable (State.Accepts _))

@[simp] theorem scan_nil (s : State) : scan s [] = s := rfl

@[simp] theorem scan_cons (s : State) (c : UInt8) (text : List UInt8) :
    scan s (c :: text) = scan (next s c) text := rfl

theorem scan_append (s : State) (front back : List UInt8) :
    scan s (front ++ back) = scan (scan s front) back := List.foldl_append

theorem next_error {s : State} (h : s.mode = .error) (c : UInt8) : next s c = s := by
  obtain ⟨mode, stack⟩ := s
  cases h
  rfl

/-- An error stays. -/
theorem scan_error {s : State} (h : s.mode = .error) (text : List UInt8) :
    (scan s text).mode = .error := by
  induction text generalizing s with
  | nil => exact h
  | cons c text ih =>
    rw [scan_cons, next_error h]
    exact ih h

theorem not_accepts_of_error {s : State} (h : s.mode = .error) : ¬ s.Accepts := by
  simp [State.Accepts, next_error h, h]

/-! ### Inside a value -/

/-- The scanner is inside an object or an array, or past the text's value. -/
def Started (s : State) : Prop := s.stack ≠ [] ∨ s.mode = .endTop ∨ s.mode = .error

theorem Started.stack_ne_nil {s : State} (h : Started s) (htop : s.mode ≠ .endTop)
    (herr : s.mode ≠ .error) : s.stack ≠ [] := by
  rcases h with h | h | h
  · exact h
  · exact absurd h htop
  · exact absurd h herr

theorem started_ended (stack : List Frame) : Started (ended stack) := by
  cases stack with
  | nil => exact Or.inr (Or.inl rfl)
  | cons frame stack => exact Or.inl (by simp [ended])

theorem started_ite {p : Prop} [Decidable p] {s s' : State} (h : Started s) (h' : Started s') :
    Started (if p then s else s') := by
  split
  · exact h
  · exact h'

theorem started_stateEndValue {stack : List Frame} (h : stack ≠ []) (c : UInt8) :
    Started (stateEndValue stack c) := by
  cases stack with
  | nil => exact absurd rfl h
  | cons frame rest =>
    have hopen : ∀ mode frame, Started ⟨mode, frame :: rest⟩ := fun mode frame => Or.inl (by simp)
    unfold stateEndValue
    apply started_ite (hopen _ _)
    cases frame with
    | objectKey => exact started_ite (hopen _ _) (hopen _ _)
    | objectValue =>
      exact started_ite (hopen _ _) (started_ite (started_ended rest) (hopen _ _))
    | arrayValue => exact started_ite (hopen _ _) (started_ite (started_ended rest) (hopen _ _))

theorem started_stateBeginValue {stack : List Frame} (h : stack ≠ []) (c : UInt8) :
    Started (stateBeginValue stack c) := by
  have hkeep : ∀ mode, Started ⟨mode, stack⟩ := fun mode => Or.inl h
  have hpush : ∀ frame mode, Started (pushParseState stack frame mode) := fun frame mode =>
    Or.inl (by simp [pushParseState])
  unfold stateBeginValue
  repeat' first
    | exact hkeep _
    | exact hpush _ _
    | apply started_ite

theorem started_state0 {stack : List Frame} (h : stack ≠ []) (c : UInt8) :
    Started (state0 stack c) :=
  started_ite (Or.inl h) (started_ite (Or.inl h) (started_stateEndValue h c))

/-- Inside an object or an array every byte leads on, to an error or past it. -/
theorem started_next_of_stack (mode : Mode) {stack : List Frame} (h : stack ≠ []) (c : UInt8) :
    Started (next ⟨mode, stack⟩ c) := by
  have hkeep : ∀ mode, Started ⟨mode, stack⟩ := fun mode => Or.inl h
  have hclose : Started (stateEndValue (.objectValue :: stack.tail) c) :=
    started_stateEndValue (by simp) c
  cases mode <;> dsimp only [next] <;> repeat' first
    | exact hkeep _
    | exact hclose
    | exact started_stateEndValue h c
    | exact started_stateBeginValue h c
    | exact started_state0 h c
    | apply started_ite

theorem started_next {s : State} (h : Started s) (c : UInt8) : Started (next s c) := by
  obtain ⟨mode, stack⟩ := s
  by_cases hstack : stack = []
  · rcases h with h | h | h
    · exact absurd hstack h
    · obtain rfl : mode = .endTop := h
      change Started (stateEndTop stack c)
      unfold stateEndTop
      split_ifs
      · exact Or.inr (Or.inl rfl)
      · exact Or.inr (Or.inr rfl)
    · obtain rfl : mode = .error := h
      exact Or.inr (Or.inr rfl)
  · exact started_next_of_stack mode hstack c

theorem started_scan {s : State} (h : Started s) (text : List UInt8) : Started (scan s text) := by
  induction text generalizing s with
  | nil => exact h
  | cons c text ih => exact ih (started_next h c)

/-! ### Objects after one another -/

/-- The text of an object: it starts with a key whose first letter is lower case, and at any depth
it leaves the scanner where a complete value does. -/
structure ObjectText (text : List UInt8) : Prop where
  starts : ∃ k rest, text = 0x7b :: 0x22 :: k :: rest ∧ 0x61 ≤ k ∧ k ≤ 0x7a
  ends : ∀ stack, stack.length < maxNestingDepth → scan ⟨.beginValue, stack⟩ text = ended stack

theorem ObjectText.valid {text : List UInt8} (h : ObjectText text) : Valid text := by
  unfold Valid
  rw [h.ends [] (by decide)]
  decide

theorem ObjectText.started {text : List UInt8} (h : ObjectText text) {front : List UInt8}
    (hfront : front <+: text) (hne : front ≠ []) : Started (scan ⟨.beginValue, []⟩ front) := by
  obtain ⟨k, rest, rfl, -, -⟩ := h.starts
  cases front with
  | nil => exact absurd rfl hne
  | cons c front =>
    obtain ⟨rfl, -⟩ := List.cons_prefix_cons.1 hfront
    exact started_scan (s := ⟨.beginStringOrEmpty, [.objectKey]⟩) (Or.inl (by simp)) front

/-- Where no value can begin, a brace is an error. -/
theorem next_brace {s : State} (hs : s.mode ≠ .beginValue) (hs' : s.mode ≠ .beginValueOrEmpty)
    (hstring : s.mode ≠ .inString) : (next s 0x7b).mode = .error := by
  obtain ⟨mode, stack⟩ := s
  have hend : (stateEndValue stack 0x7b).mode = .error := by
    cases stack with
    | nil => rfl
    | cons frame stack => cases frame <;> rfl
  cases mode <;> first | rfl | exact hend | contradiction

/-- A letter does not follow a string. -/
theorem endValue_letter (stack : List Frame) {k : UInt8} (hk : 0x61 ≤ k ∧ k ≤ 0x7a) :
    (stateEndValue stack k).mode = .error := by
  have hne : ∀ c, ¬ (0x61 ≤ c ∧ c ≤ 0x7a) → k ≠ c := by
    rintro c hc rfl
    exact hc hk
  have hspace : ¬ isSpace k := by
    simp [isSpace, hne 0x20 (by decide), hne 0x09 (by decide), hne 0x0d (by decide),
      hne 0x0a (by decide)]
  cases stack with
  | nil => simp [stateEndValue, stateEndTop, hspace]
  | cons frame stack =>
    cases frame <;> simp [stateEndValue, hspace, hne 0x3a (by decide), hne 0x2c (by decide),
      hne 0x7d (by decide), hne 0x5d (by decide)]

/-- What follows a started text cannot complete it. -/
theorem ObjectText.not_accepts {text : List UInt8} (h : ObjectText text) {s : State}
    (hs : Started s) : ¬ (scan s text).Accepts := by
  obtain ⟨k, rest, htext, hk⟩ := h.starts
  obtain ⟨mode, stack⟩ := s
  -- an object that begins as a value leaves the enclosing one open
  have hvalue : stack ≠ [] → ¬ (scan ⟨.beginValue, stack⟩ text).Accepts := by
    intro hstack
    by_cases hdepth : stack.length < maxNestingDepth
    · rw [h.ends stack hdepth]
      cases stack with
      | nil => exact absurd rfl hstack
      | cons frame stack => simp [ended, State.Accepts, next, stateEndValue, isSpace]
    · rw [htext, scan_cons]
      refine not_accepts_of_error (scan_error ?_ _)
      simp [next, stateBeginValue, isSpace, pushParseState, hdepth]
  by_cases hbegin : mode = .beginValue
  · subst hbegin
    exact hvalue (hs.stack_ne_nil (by simp) (by simp))
  by_cases hempty : mode = .beginValueOrEmpty
  · subst hempty
    have hsame : scan ⟨.beginValueOrEmpty, stack⟩ text = scan ⟨.beginValue, stack⟩ text := by
      rw [htext, scan_cons, scan_cons]
      rfl
    rw [hsame]
    exact hvalue (hs.stack_ne_nil (by simp) (by simp))
  by_cases hstring : mode = .inString
  · subst hstring
    rw [htext]
    -- the quote of the first key ends the string
    exact not_accepts_of_error (scan_error (endValue_letter stack hk) rest)
  · rw [htext, scan_cons]
    exact not_accepts_of_error (scan_error (next_brace hbegin hempty hstring) _)

/-- A text that follows a torn object is not JSON. -/
theorem ObjectText.not_valid_append {text text' front : List UInt8} (h : ObjectText text)
    (h' : ObjectText text') (hfront : front <+: text) (hne : front ≠ []) :
    ¬ Valid (front ++ text') := by
  unfold Valid
  rw [scan_append]
  exact h'.not_accepts (h.started hfront hne)

end JsonScanner
