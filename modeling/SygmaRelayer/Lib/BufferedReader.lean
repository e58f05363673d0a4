import Mathlib.Data.List.Infix
import Mathlib.Data.List.TakeWhile
import Mathlib.Tactic.Common

/-! A buffered reader over a transport that delivers its data in pieces. What it reads up to a
delimiter does not depend on the pieces, as long as the transport does not deliver nothing too
often in a row. -/

namespace BufferedReader

variable {β ε : Type*}

/-- A transport: the pieces it delivers to calls of `Read`, and the error at its end, which may come
together with the last piece. -/
structure Transport (β ε : Type*) where
  pieces : List (List β)
  final : ε
  together : Bool
deriving DecidableEq, Repr

/-- What `Read` returns, and what is left of the transport. -/
structure Answer (β ε : Type*) where
  data : List β
  err : Option ε
  rest : Transport β ε
deriving DecidableEq, Repr

/-- How often a reader asks again after `Read` returned nothing. -/
def maxConsecutiveEmptyReads : ℕ := 100

namespace Transport

variable {t : Transport β ε} {n : ℕ}

def content (t : Transport β ε) : List β := t.pieces.flatten

/-- `Read` into a buffer with room for `n`. -/
def read (t : Transport β ε) (n : ℕ) : Answer β ε :=
  match t.pieces with
  | [] => ⟨[], some t.final, t⟩
  | piece :: rest =>
    if piece.length ≤ n then
      ⟨piece, if rest.isEmpty && t.together then some t.final else none, { t with pieces := rest }⟩
    else ⟨piece.take n, none, { t with pieces := piece.drop n :: rest }⟩

/-- The transport never delivers nothing so often that a reader gives up. -/
def Patient (t : Transport β ε) : Prop := ¬ List.replicate maxConsecutiveEmptyReads [] <:+: t.pieces

theorem Patient.tail {piece : List β} {rest : List (List β)} (h : t.Patient)
    (hpieces : t.pieces = piece :: rest) : { t with pieces := rest }.Patient := by
  refine fun hrest => h ?_
  rw [hpieces]
  exact hrest.trans (List.suffix_cons piece rest).isInfix

/-- What a `Read` can do: find the end, deliver a piece, or the front of one that does not fit. -/
inductive Reads (t : Transport β ε) (n : ℕ) : Answer β ε → Prop
  | ended (h : t.pieces = []) : Reads t n ⟨[], some t.final, t⟩
  | whole {piece rest err} (h : t.pieces = piece :: rest)
      (hlast : ∀ e, err = some e → e = t.final ∧ rest = []) :
      Reads t n ⟨piece, err, { t with pieces := rest }⟩
  | front {piece rest} (h : t.pieces = piece :: rest) (hlt : n < piece.length) :
      Reads t n ⟨piece.take n, none, { t with pieces := piece.drop n :: rest }⟩

theorem reads_read (t : Transport β ε) (n : ℕ) : Reads t n (t.read n) := by
  unfold read
  split
  · exact .ended ‹_›
  · rename_i piece rest hpieces
    by_cases hfits : piece.length ≤ n
    · rw [if_pos hfits]
      refine .whole hpieces fun e he => ?_
      split_ifs at he with hlast
      simp only [Bool.and_eq_true, List.isEmpty_iff] at hlast
      exact ⟨(Option.some.inj he).symm, hlast.1⟩
    · rw [if_neg hfits]
      exact .front hpieces (Nat.not_le.1 hfits)

namespace Reads

variable {a : Answer β ε}

theorem content_eq (h : Reads t n a) : a.data ++ a.rest.content = t.content := by
  cases h with
  | ended h => rfl
  | whole h hlast => simp [content, h]
  | front h hlt => simp [content, h, ← List.append_assoc]

theorem final_eq (h : Reads t n a) : a.rest.final = t.final := by
  cases h <;> rfl

/-- An error comes at the end of the transport. -/
theorem err_eq {e : ε} (h : Reads t n a) (he : a.err = some e) :
    e = t.final ∧ a.rest.pieces = [] := by
  cases h with
  | ended h => exact ⟨(Option.some.inj he).symm, h⟩
  | whole h hlast => exact hlast e he
  | front h hlt => cases he

/-- If there is room, a `Read` that returns nothing has used up an empty piece. -/
theorem of_empty (h : Reads t n a) (hn : 0 < n) (herr : a.err = none) (hdata : a.data = []) :
    t.pieces = [] :: a.rest.pieces := by
  cases h with
  | ended h => cases herr
  | @whole piece rest err h hlast =>
    obtain rfl : piece = [] := hdata
    exact h
  | front h hlt =>
    have hlength := congrArg List.length hdata
    rw [List.length_take, List.length_nil] at hlength
    omega

theorem patient (h : Reads t n a) (ht : t.Patient) : a.rest.Patient := by
  cases h with
  | ended h => exact ht
  | whole h hlast => exact ht.tail h
  | @front piece rest h hlt =>
    intro hrest
    rcases List.infix_cons_iff.1 hrest with hfront | hrest
    · -- what is left of the piece is not empty
      have hhead : ([] : List β) = piece.drop n := (List.cons_prefix_cons.1 hfront).1
      have hlength := congrArg List.length hhead
      rw [List.length_drop, List.length_nil] at hlength
      omega
    · exact ht.tail h hrest

end Reads

theorem Patient.leading (h : t.Patient) :
    (t.pieces.takeWhile List.isEmpty).length < maxConsecutiveEmptyReads := by
  by_contra hge
  have hempty : t.pieces.takeWhile List.isEmpty =
      List.replicate (t.pieces.takeWhile List.isEmpty).length [] := by
    refine List.eq_replicate_iff.2 ⟨rfl, fun piece hpiece => ?_⟩
    exact List.isEmpty_iff.1 (List.mem_takeWhile_imp hpiece)
  have hfront : List.replicate maxConsecutiveEmptyReads [] <+: t.pieces.takeWhile List.isEmpty := by
    rw [hempty]
    exact (List.prefix_replicate_iff).2 ⟨by simpa using hge, by simp⟩
  exact h (hfront.trans (List.takeWhile_prefix _)).isInfix

theorem patient_of_ne_nil (h : [] ∉ t.pieces) : t.Patient := by
  intro hempty
  exact h (hempty.subset (List.mem_replicate.2 ⟨by decide, rfl⟩))

end Transport

/-- The errors a reader keeps for its next call. -/
inductive Fault (ε : Type*)
  | read (e : ε)
  | noProgress
deriving DecidableEq, Repr

/-- The reader, with what it has buffered and not returned yet. -/
structure Reader (β ε : Type*) where
  size : ℕ
  size_pos : 0 < size
  buf : List β
  err : Option (Fault ε)
  rd : Transport β ε

namespace Reader

variable {b b' : Reader β ε}

def content (b : Reader β ε) : List β := b.buf ++ b.rd.content

/-- The reader with what `Read` has returned. -/
def accept (b : Reader β ε) (a : Answer β ε) : Reader β ε :=
  { b with buf := b.buf ++ a.data, err := (a.err.map .read).or b.err, rd := a.rest }

@[simp] theorem buf_accept (b : Reader β ε) (a : Answer β ε) :
    (b.accept a).buf = b.buf ++ a.data := rfl

@[simp] theorem rd_accept (b : Reader β ε) (a : Answer β ε) : (b.accept a).rd = a.rest := rfl

@[simp] theorem size_accept (b : Reader β ε) (a : Answer β ε) : (b.accept a).size = b.size := rfl

@[simp] theorem err_accept (b : Reader β ε) (a : Answer β ε) :
    (b.accept a).err = (a.err.map .read).or b.err := rfl

/-- One `Read` into what is free of the buffer. -/
def readRoom (b : Reader β ε) : Answer β ε := b.rd.read (b.size - b.buf.length)

theorem reads_readRoom (b : Reader β ε) : b.rd.Reads (b.size - b.buf.length) b.readRoom :=
  b.rd.reads_read _

/-- `fill` with so many `Read`s left. -/
def fillWith : ℕ → Reader β ε → Reader β ε
  | 0, b => { b with err := some .noProgress }
  | tries + 1, b =>
    if b.readRoom.err.isNone && b.readRoom.data.isEmpty then fillWith tries (b.accept b.readRoom)
    else b.accept b.readRoom

def fill (b : Reader β ε) : Reader β ε := fillWith maxConsecutiveEmptyReads b

theorem content_accept (b : Reader β ε) : (b.accept b.readRoom).content = b.content := by
  simp [content, b.reads_readRoom.content_eq]

theorem content_fillWith (tries : ℕ) (b : Reader β ε) : (fillWith tries b).content = b.content := by
  induction tries generalizing b with
  | zero => rfl
  | succ tries ih =>
    rw [fillWith]
    split_ifs
    · rw [ih, content_accept]
    · rw [content_accept]

/-- `fill` ends with an error or with more in the buffer. -/
theorem fillWith_progress (tries : ℕ) (b : Reader β ε) :
    (fillWith tries b).err ≠ none ∨ b.buf.length < (fillWith tries b).buf.length := by
  induction tries generalizing b with
  | zero => exact Or.inl (by simp [fillWith])
  | succ tries ih =>
    rw [fillWith]
    split_ifs with hempty
    · refine (ih _).imp_right fun hlt => ?_
      rw [buf_accept, List.length_append] at hlt
      omega
    · by_cases herr : b.readRoom.err = none
      · have hdata : b.readRoom.data ≠ [] := by simpa [herr] using hempty
        have hpos := List.length_pos_iff.2 hdata
        exact Or.inr (by rw [buf_accept, List.length_append]; omega)
      · obtain ⟨e, he⟩ := Option.ne_none_iff_exists'.1 herr
        exact Or.inl (by simp [he])

/-- What is not buffered yet gets less. -/
theorem content_rd_fill_lt (h : b.fill.err = none) :
    b.fill.rd.content.length < b.rd.content.length := by
  have hcontent := congrArg List.length (content_fillWith maxConsecutiveEmptyReads b)
  have hprogress := (fillWith_progress maxConsecutiveEmptyReads b).resolve_left (not_not.2 h)
  simp only [content, List.length_append] at hcontent
  unfold fill
  omega

section ReadString

variable [DecidableEq β] (delim : β)

/-- How `ReadSlice` ends. -/
inductive Ending (ε : Type*)
  | found
  | bufferFull
  | fault (e : Fault ε)
deriving DecidableEq, Repr

/-- `ReadSlice` -/
def readSlice (b : Reader β ε) : List β × Ending ε × Reader β ε :=
  match b.buf.idxOf? delim with
  | some i => (b.buf.take (i + 1), .found, { b with buf := b.buf.drop (i + 1) })
  | none =>
    match _herr : b.err with
    | some e => (b.buf, .fault e, { b with buf := [], err := none })
    | none =>
      if b.size ≤ b.buf.length then (b.buf, .bufferFull, { b with buf := [] })
      else readSlice b.fill
termination_by if b.err = none then b.rd.content.length + 1 else 0
decreasing_by
  rw [if_pos _herr]
  split_ifs with h
  · exact Nat.add_lt_add_right (content_rd_fill_lt h) 1
  · exact Nat.succ_pos _

variable {delim}

theorem readSlice_found {i : ℕ} (h : b.buf.idxOf? delim = some i) :
    b.readSlice delim = (b.buf.take (i + 1), .found, { b with buf := b.buf.drop (i + 1) }) := by
  rw [readSlice, h]

theorem readSlice_fault {e : Fault ε} (h : b.buf.idxOf? delim = none) (herr : b.err = some e) :
    b.readSlice delim = (b.buf, .fault e, { b with buf := [], err := none }) := by
  rw [readSlice, h]
  dsimp only
  split <;> simp_all

theorem readSlice_full (h : b.buf.idxOf? delim = none) (herr : b.err = none)
    (hfull : b.size ≤ b.buf.length) :
    b.readSlice delim = (b.buf, .bufferFull, { b with buf := [] }) := by
  rw [readSlice, h]
  dsimp only
  split <;> simp_all

theorem readSlice_fill (h : b.buf.idxOf? delim = none) (herr : b.err = none)
    (hroom : ¬ b.size ≤ b.buf.length) : b.readSlice delim = b.fill.readSlice delim := by
  rw [readSlice, h]
  dsimp only
  split
  · simp_all
  · rw [if_neg hroom]

variable (delim) in
theorem content_readSlice (b : Reader β ε) :
    (b.readSlice delim).1 ++ (b.readSlice delim).2.2.content = b.content := by
  induction b using readSlice.induct delim with
  | case1 b i hfound =>
    rw [readSlice_found hfound]
    simp [content, ← List.append_assoc]
  | case2 b hnone e herr =>
    rw [readSlice_fault hnone herr]
    simp [content]
  | case3 b hnone herr hfull =>
    rw [readSlice_full hnone herr hfull]
    simp [content]
  | case4 b hnone herr hroom ih =>
    rw [readSlice_fill hnone herr hroom, ih]
    exact content_fillWith _ b

/-- A full buffer is not empty. -/
theorem readSlice_ne_nil (h : (b.readSlice delim).2.1 = .bufferFull) :
    (b.readSlice delim).1 ≠ [] := by
  induction b using readSlice.induct delim with
  | case1 b i hfound =>
    rw [readSlice_found hfound] at h
    cases h
  | case2 b hnone e herr =>
    rw [readSlice_fault hnone herr] at h
    cases h
  | case3 b hnone herr hfull =>
    rw [readSlice_full hnone herr hfull]
    exact List.length_pos_iff.1 (b.size_pos.trans_le hfull)
  | case4 b hnone herr hroom ih =>
    rw [readSlice_fill hnone herr hroom] at h ⊢
    exact ih h

variable (delim) in
/-- `ReadString`: the buffers that were full, and what came up to the delimiter or the error. -/
def readString (b : Reader β ε) : List β × Option (Fault ε) × Reader β ε :=
  match _hslice : b.readSlice delim with
  | (line, .found, b') => (line, none, b')
  | (line, .fault e, b') => (line, some e, b')
  | (line, .bufferFull, b') => (line ++ (readString b').1, (readString b').2)
termination_by b.content.length
decreasing_by
  have hcontent := congrArg List.length (content_readSlice delim b)
  have hne : (b.readSlice delim).1 ≠ [] := readSlice_ne_nil (by rw [_hslice])
  have hpos := List.length_pos_iff.2 hne
  simp only [_hslice, List.length_append] at hcontent hpos
  omega

theorem readString_of_found {line : List β} (h : b.readSlice delim = (line, .found, b')) :
    b.readString delim = (line, none, b') := by
  rw [readString]
  split <;> simp_all

theorem readString_of_fault {line : List β} {e : Fault ε}
    (h : b.readSlice delim = (line, .fault e, b')) :
    b.readString delim = (line, some e, b') := by
  rw [readString]
  split <;> simp_all

theorem readString_of_bufferFull {line : List β} (h : b.readSlice delim = (line, .bufferFull, b')) :
    b.readString delim = (line ++ (b'.readString delim).1, (b'.readString delim).2) := by
  rw [readString]
  split <;> simp_all

variable (delim) in
theorem content_readString (b : Reader β ε) :
    (b.readString delim).1 ++ (b.readString delim).2.2.content = b.content := by
  induction b using readString.induct delim with
  | case1 b line b' hslice =>
    rw [readString_of_found hslice, ← content_readSlice delim b, hslice]
  | case2 b line e b' hslice =>
    rw [readString_of_fault hslice, ← content_readSlice delim b, hslice]
  | case3 b line b' hslice ih =>
    rw [readString_of_bufferFull hslice, ← content_readSlice delim b, hslice, List.append_assoc, ih]

end ReadString

/-- The transport keeps to the limit, and an error that is kept is the one at its end. -/
structure Ok (b : Reader β ε) : Prop where
  patient : b.rd.Patient
  ended : ∀ e, b.err = some e → e = .read b.rd.final ∧ b.rd.pieces = []

theorem Ok.accept (h : b.Ok) (herr : b.err = none) : (b.accept b.readRoom).Ok where
  patient := b.reads_readRoom.patient h.patient
  ended e he := by
    rw [err_accept, herr, Option.or_none, Option.map_eq_some_iff] at he
    obtain ⟨e', he', rfl⟩ := he
    obtain ⟨rfl, hpieces⟩ := b.reads_readRoom.err_eq he'
    exact ⟨congrArg _ b.reads_readRoom.final_eq.symm, hpieces⟩

/-- With more `Read`s left than there are empty pieces at the front, `fill` does not give up. -/
theorem Ok.fillWith (h : b.Ok) (herr : b.err = none) (hroom : b.buf.length < b.size) {tries : ℕ}
    (htries : (b.rd.pieces.takeWhile List.isEmpty).length < tries) :
    (b.fillWith tries).Ok ∧ (b.fillWith tries).rd.final = b.rd.final := by
  induction tries generalizing b with
  | zero => exact absurd htries (Nat.not_lt_zero _)
  | succ tries ih =>
    have hok := h.accept herr
    have hfinal : (b.accept b.readRoom).rd.final = b.rd.final :=
      b.reads_readRoom.final_eq
    rw [Reader.fillWith]
    split_ifs with hempty
    · simp only [Bool.and_eq_true, Option.isNone_iff_eq_none, List.isEmpty_iff] at hempty
      have hpieces : b.rd.pieces = [] :: (b.accept b.readRoom).rd.pieces :=
        b.reads_readRoom.of_empty (by omega) hempty.1 hempty.2
      rw [hpieces] at htries
      have hnext := ih hok (by simp [hempty, herr]) (by simpa [hempty] using hroom)
        (by simpa using htries)
      rw [hfinal] at hnext
      exact hnext
    · exact ⟨hok, hfinal⟩

/-- The reader has returned `line`, and stands behind it. -/
structure Follows (b : Reader β ε) (line : List β) (b' : Reader β ε) : Prop where
  content : b.content = line ++ b'.content
  final : b'.rd.final = b.rd.final
  ok : b'.Ok


theorem Follows.trans {b'' : Reader β ε} {line line' : List β} (h : b.Follows line b')
    (h' : b'.Follows line' b'') : b.Follows (line ++ line') b'' where
  content := by rw [h.content, h'.content, List.append_assoc]
  final := h'.final.trans h.final
  ok := h'.ok

/-- The part before the first delimiter is determined. -/
theorem cut_unique {delim : β} {l l' r r' : List β} (hl : delim ∉ l) (hl' : delim ∉ l')
    (h : l ++ delim :: r = l' ++ delim :: r') : l = l' ∧ r = r' := by
  induction l generalizing l' with
  | nil =>
    cases l' with
    | nil => exact ⟨rfl, List.cons.inj h |>.2⟩
    | cons a l' => exact absurd (List.mem_cons.2 (Or.inl (List.cons.inj h).1)) hl'
  | cons a l ih =>
    cases l' with
    | nil => exact absurd (List.mem_cons.2 (Or.inl (List.cons.inj h).1.symm)) hl
    | cons a' l' =>
      obtain ⟨rfl, htail⟩ := List.cons.inj h
      obtain ⟨rfl, hr⟩ := ih (List.not_mem_of_not_mem_cons hl) (List.not_mem_of_not_mem_cons hl')
        htail
      exact ⟨rfl, hr⟩

/-- What a call that ends this way has read. -/
def Ending.Meets (delim : β) (line : List β) (b' : Reader β ε) : Ending ε → Prop
  | .found => ∃ front, line = front ++ [delim] ∧ delim ∉ front
  | .bufferFull => delim ∉ line
  | .fault e => delim ∉ line ∧ e = .read b'.rd.final ∧ b'.content = []

/-- The error of `ReadString`, as `ReadSlice` reports it. -/
def ending : Option (Fault ε) → Ending ε
  | none => .found
  | some e => .fault e

variable {delim : β} {line rest : List β}

/-- Full buffers that came before do not change how a call has ended. -/
theorem Ending.Meets.append {err : Option (Fault ε)} (hline : delim ∉ line)
    (h : (ending err).Meets delim rest b') : (ending err).Meets delim (line ++ rest) b' := by
  cases err with
  | none =>
    obtain ⟨front, rfl, hfront⟩ := h
    exact ⟨line ++ front, (List.append_assoc line front [delim]).symm, by simp [hline, hfront]⟩
  | some e =>
    obtain ⟨hrest, he, hcontent⟩ := h
    exact ⟨by simp [hline, hrest], he, hcontent⟩

variable [DecidableEq β]

theorem take_idxOf? {l : List β} {i : ℕ} (h : l.idxOf? delim = some i) :
    ∃ front, l.take (i + 1) = front ++ [delim] ∧ delim ∉ front := by
  obtain ⟨hi, heq, hfirst⟩ := List.idxOf?_eq_some_iff.1 h
  refine ⟨l.take i, by rw [List.take_succ_eq_append_getElem hi, heq], fun hmem => ?_⟩
  obtain ⟨j, hj, hjeq⟩ := List.mem_take_iff_getElem.1 hmem
  exact hfirst j (by omega) hjeq

theorem Ok.of_readSlice {ending : Ending ε} (h : b.Ok)
    (hslice : b.readSlice delim = (line, ending, b')) :
    b.Follows line b' ∧ ending.Meets delim line b' := by
  have hcontent := (content_readSlice delim b).symm
  rw [hslice] at hcontent
  induction b using readSlice.induct delim with
  | case1 b i hfound =>
    rw [readSlice_found hfound] at hslice
    cases hslice
    exact ⟨⟨hcontent, rfl, h.patient, h.ended⟩, take_idxOf? hfound⟩
  | case2 b hnone e herr =>
    rw [readSlice_fault hnone herr] at hslice
    cases hslice
    obtain ⟨rfl, hpieces⟩ := h.ended e herr
    refine ⟨⟨hcontent, rfl, h.patient, by simp⟩, List.idxOf?_eq_none_iff.1 hnone, rfl, ?_⟩
    simp [content, Transport.content, hpieces]
  | case3 b hnone herr hfull =>
    rw [readSlice_full hnone herr hfull] at hslice
    cases hslice
    exact ⟨⟨hcontent, rfl, h.patient, h.ended⟩, List.idxOf?_eq_none_iff.1 hnone⟩
  | case4 b hnone herr hroom ih =>
    obtain ⟨hok, hfinal⟩ := h.fillWith herr (Nat.not_le.1 hroom) h.patient.leading
    have hfill : b.fill.content = line ++ b'.content := (content_fillWith _ b).trans hcontent
    rw [readSlice_fill hnone herr hroom] at hslice
    obtain ⟨hfollows, hmeets⟩ := ih hok hslice hfill
    exact ⟨⟨hcontent, hfollows.final.trans hfinal, hfollows.ok⟩, hmeets⟩

theorem Ok.of_readString {err : Option (Fault ε)} (h : b.Ok)
    (hread : b.readString delim = (line, err, b')) :
    b.Follows line b' ∧ (ending err).Meets delim line b' := by
  induction b using readString.induct delim generalizing line with
  | case1 b line b' hslice =>
    rw [readString_of_found hslice] at hread
    cases hread
    exact h.of_readSlice hslice
  | case2 b line e b' hslice =>
    rw [readString_of_fault hslice] at hread
    cases hread
    exact h.of_readSlice hslice
  | case3 b line b₁ hslice ih =>
    obtain ⟨hfollows, hline⟩ := h.of_readSlice hslice
    rw [readString_of_bufferFull hslice] at hread
    obtain ⟨rfl, hrest⟩ := Prod.mk.inj hread
    obtain ⟨hrest, hmeets⟩ := ih hfollows.ok (Prod.ext rfl hrest)
    exact ⟨hfollows.trans hrest, hmeets.append hline⟩

/-- A line is read whole, however the transport delivers it. -/
theorem Ok.readString_line (h : b.Ok) (hcontent : b.content = line ++ delim :: rest)
    (hline : delim ∉ line) :
    ∃ b', b.readString delim = (line ++ [delim], none, b') ∧ b'.content = rest ∧
      b'.rd.final = b.rd.final ∧ b'.Ok := by
  rcases hread : b.readString delim with ⟨line', _ | e, b'⟩
  · obtain ⟨hfollows, front, rfl, hfront⟩ := h.of_readString hread
    have heq : front ++ delim :: b'.content = line ++ delim :: rest := by
      rw [← hcontent, hfollows.content]
      simp
    obtain ⟨rfl, hrest⟩ := cut_unique hfront hline heq
    exact ⟨b', rfl, hrest, hfollows.final, hfollows.ok⟩
  · obtain ⟨hfollows, hnone, -, hempty⟩ := h.of_readString hread
    have hmem : delim ∈ line' ++ b'.content := by
      rw [← hfollows.content, hcontent]
      simp
    rw [hempty, List.append_nil] at hmem
    exact absurd hmem hnone

/-- Without a delimiter all is read, and the error is the one at the end of the transport. -/
theorem Ok.readString_end (h : b.Ok) (hcontent : delim ∉ b.content) :
    ∃ b', b.readString delim = (b.content, some (.read b.rd.final), b') := by
  rcases hread : b.readString delim with ⟨line, _ | e, b'⟩
  · obtain ⟨hfollows, front, rfl, -⟩ := h.of_readString hread
    exact absurd (by simp [hfollows.content]) hcontent
  · obtain ⟨hfollows, -, rfl, hempty⟩ := h.of_readString hread
    refine ⟨b', ?_⟩
    rw [hfollows.content, hempty, List.append_nil, hfollows.final]

end Reader

end BufferedReader
