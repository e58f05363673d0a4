import Mathlib.Algebra.Group.Nat.Defs
import Mathlib.Data.Int.Notation
import Mathlib.Tactic.Common

/-! Texts made of parts with a separator between them, and numbers printed in
decimal: what splitting and parsing give back. -/

namespace Text

/-- The bytes of a text in ASCII. -/
def ascii (s : String) : List UInt8 := s.toList.map fun c => UInt8.ofNat c.toNat

/-- The parts of `s` between the separators; there is always at least one. -/
def split (sep : Char) (s : String) : List String := (s.toList.splitOn sep).map String.ofList

theorem split_of_notMem {sep : Char} {s : String} (h : sep ∉ s.toList) : split sep s = [s] := by
  unfold split
  rw [List.splitOn_eq_singleton h]
  simp

theorem split_append_sep (sep : Char) (a b : String) :
    split sep (a ++ String.singleton sep ++ b) = split sep a ++ split sep b := by
  unfold split
  simp [List.splitOn_append_cons_self]

theorem split_ne_nil (sep : Char) (s : String) : split sep s ≠ [] := by
  simp [split, List.splitOn_ne_nil]

theorem two_le_length_split {sep : Char} {s : String} (h : sep ∈ s.toList) :
    2 ≤ (split sep s).length := by
  obtain ⟨a, b, hab⟩ := List.append_of_mem h
  have hs : s = String.ofList a ++ String.singleton sep ++ String.ofList b := by
    apply String.toList_injective
    simp [hab]
  rw [hs, split_append_sep, List.length_append]
  have ha := List.length_pos_iff.2 (split_ne_nil sep (String.ofList a))
  have hb := List.length_pos_iff.2 (split_ne_nil sep (String.ofList b))
  omega

theorem notMem_of_mem_split {sep : Char} {s part : String} (h : part ∈ split sep s) :
    sep ∉ part.toList := by
  obtain ⟨cs, hcs, rfl⟩ := List.mem_map.1 h
  rw [String.toList_ofList]
  clear h
  generalize s.toList = l at hcs
  induction l generalizing cs with
  | nil => simp_all
  | cons c l ih =>
    rw [List.splitOn_cons_eq_if_modifyHead] at hcs
    split_ifs at hcs with hc
    · rcases List.mem_cons.1 hcs with rfl | hcs
      · simp
      · exact ih cs hcs
    · cases hl : l.splitOn sep with
      | nil => simp [hl] at hcs
      | cons d ds =>
        rw [hl, List.modifyHead_cons] at hcs
        rw [hl] at ih
        rcases List.mem_cons.1 hcs with rfl | hcs
        · rw [List.mem_cons, not_or]
          exact ⟨fun he => hc (by simp [he]), ih d List.mem_cons_self⟩
        · exact ih cs (List.mem_cons_of_mem d hcs)

/-- The last part and what stands before it can be read back. -/
theorem append_sep_inj {sep : Char} {a a' b b' : String} (hb : sep ∉ b.toList)
    (hb' : sep ∉ b'.toList)
    (h : a ++ String.singleton sep ++ b = a' ++ String.singleton sep ++ b') : a = a' ∧ b = b' := by
  have hs := congrArg (split sep) h
  rw [split_append_sep, split_append_sep, split_of_notMem hb, split_of_notMem hb'] at hs
  obtain ⟨-, hbb⟩ := List.append_inj' hs rfl
  obtain rfl : b = b' := by simpa using hbb
  have hl := congrArg String.toList h
  simp only [String.toList_append, List.append_cancel_right_eq] at hl
  exact ⟨String.toList_injective hl, rfl⟩

theorem notMem_repr {c : Char} (hc : c.isDigit = false) (n : ℕ) : c ∉ n.repr.toList := by
  intro h
  rw [Nat.toList_repr] at h
  simpa [hc] using Nat.isDigit_of_mem_toDigits (by decide) (by decide) h

/-- `strconv.ParseUint` in base 10, without its bound. -/
def parseDigits (s : List Char) : Option ℕ :=
  if s = [] then none
  else if s.all Char.isDigit then some (Nat.ofDigitChars 10 s 0)
  else none

/-- `strconv.ParseInt` in base 10 for an integer of `bits` bits. -/
def parseInt (bits : ℕ) (s : String) : Option ℤ :=
  match s.toList with
  | '-' :: ds => (parseDigits ds).bind fun n => if n ≤ 2 ^ (bits - 1) then some (-(n : ℤ)) else none
  | '+' :: ds => (parseDigits ds).bind fun n => if n < 2 ^ (bits - 1) then some (n : ℤ) else none
  | ds => (parseDigits ds).bind fun n => if n < 2 ^ (bits - 1) then some (n : ℤ) else none

theorem parseDigits_toDigits (n : ℕ) : parseDigits (Nat.toDigits 10 n) = some n := by
  have hall : (Nat.toDigits 10 n).all Char.isDigit = true := by
    rw [List.all_eq_true]
    intro c hc
    exact Nat.isDigit_of_mem_toDigits (by decide) (by decide) hc
  simp [parseDigits, Nat.toDigits_ne_nil, hall]

@[simp] theorem repr_inj {m n : ℕ} : m.repr = n.repr ↔ m = n := by
  constructor
  · intro h
    have hdigits := congrArg (fun s : String => parseDigits s.toList) h
    simpa only [Nat.toList_repr, parseDigits_toDigits, Option.some.injEq] using hdigits
  · exact congrArg Nat.repr

theorem parseInt_repr (bits n : ℕ) :
    parseInt bits n.repr = if n < 2 ^ (bits - 1) then some (n : ℤ) else none := by
  have hsign : ∀ c : Char, c.isDigit = false → ∀ ds, n.repr.toList ≠ c :: ds := by
    intro c hc ds h
    exact notMem_repr hc n (by simp [h])
  unfold parseInt
  split
  · rename_i ds h
    exact absurd h (hsign '-' (by decide) ds)
  · rename_i ds h
    exact absurd h (hsign '+' (by decide) ds)
  · rw [Nat.toList_repr, parseDigits_toDigits]
    rfl

theorem parseInt_nonneg {bits : ℕ} {s : String} {v : ℤ} (hs : '-' ∉ s.toList)
    (h : parseInt bits s = some v) : 0 ≤ v := by
  unfold parseInt at h
  split at h
  · rename_i ds hds
    simp [hds] at hs
  all_goals
    obtain ⟨n, -, h⟩ := Option.bind_eq_some_iff.1 h
    split_ifs at h
    obtain rfl := Option.some.inj h
    exact Int.natCast_nonneg n

end Text
