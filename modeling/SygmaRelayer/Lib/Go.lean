import Mathlib.Algebra.Group.Nat.Defs
import Mathlib.Data.Int.Notation
import Mathlib.Tactic.Common

/-! What Go functions do beyond returning a value: they return an error or panic, their
integers wrap, and a slice expression may reach behind the elements of a slice, up to
the capacity of its array. -/

namespace Go

/-- How a call fails. -/
inductive Fault
  | error (text : String)
  | panic
deriving DecidableEq, Repr

abbrev Outcome (α : Type) := Except Fault α

theorem ok_bind {α β : Type} (a : α) (f : α → Outcome β) : (Except.ok a >>= f) = f a := by
  simp only [bind, Except.bind]

/-- An integer brought into an `int64`. -/
def int64 (x : ℤ) : ℤ := x.bmod (2 ^ 64)

theorem int64_of_lt {n : ℕ} (h : n < 2 ^ 63) : int64 n = n := by
  unfold int64
  have h64 : (2 : ℕ) ^ 64 = 18446744073709551616 := rfl
  have h63 : (2 : ℕ) ^ 63 = 9223372036854775808 := rfl
  rw [h64]
  apply Int.bmod_eq_of_le <;> omega

theorem int64_add_of_lt {a b : ℕ} (h : a + b < 2 ^ 63) : int64 (a + b) = (a + b : ℕ) := by
  rw [← Int.natCast_add, int64_of_lt h]

/-- The call returns a value or panics. -/
def NoError {α : Type} (o : Outcome α) : Prop := ∀ text, o ≠ .error (.error text)

theorem noError_ok {α : Type} (a : α) : NoError (.ok a : Outcome α) := fun _ h => nomatch h

theorem NoError.bind {α β : Type} {o : Outcome α} {f : α → Outcome β} (ho : NoError o)
    (hf : ∀ a, NoError (f a)) : NoError (o >>= f) := by
  intro text h
  cases o with
  | ok a => exact hf a text h
  | error fault =>
    cases fault with
    | error text' => exact ho text' rfl
    | panic => cases h

/-- A slice of an array that holds `spare` behind the elements; the heap has addresses of 48
bits. -/
structure Slice (α : Type) where
  elems : List α
  spare : List α
  fits : elems.length + spare.length < 2 ^ 48

namespace Slice

variable {α : Type}

def nil : Slice α := ⟨[], [], by simp⟩

/-- The elements of `s[lo:hi]`. -/
def read (s : Slice α) (lo hi : ℤ) : Outcome (List α) :=
  if 0 ≤ lo ∧ lo ≤ hi ∧ hi ≤ s.elems.length + s.spare.length then
    .ok (((s.elems ++ s.spare).take hi.toNat).drop lo.toNat)
  else .error .panic

theorem length_lt (s : Slice α) : s.elems.length < 2 ^ 48 :=
  Nat.lt_of_le_of_lt (Nat.le_add_right _ _) s.fits

/-- No offset into a slice comes near the end of the `int64`s. -/
theorem lt_of_le_capacity (s : Slice α) {n k : ℕ} (h : n ≤ s.elems.length + s.spare.length)
    (hk : k ≤ 2 ^ 32) : n + k < 2 ^ 63 :=
  calc n + k < 2 ^ 48 + 2 ^ 32 := Nat.add_lt_add_of_lt_of_le (Nat.lt_of_le_of_lt h s.fits) hk
    _ ≤ 2 ^ 63 := by decide

theorem lt_of_le_length (s : Slice α) {n : ℕ} (h : n ≤ s.elems.length) : n < 2 ^ 63 :=
  s.lt_of_le_capacity (Nat.le_add_right_of_le h) (Nat.zero_le _)

/-- Within the elements nothing else is seen. -/
theorem read_of_le {s : Slice α} {lo hi : ℕ} (hlo : lo ≤ hi) (hhi : hi ≤ s.elems.length) :
    s.read lo hi = .ok ((s.elems.take hi).drop lo) := by
  have hin : (0 : ℤ) ≤ lo ∧ (lo : ℤ) ≤ hi ∧ (hi : ℤ) ≤ s.elems.length + s.spare.length := by omega
  rw [read, if_pos hin, Int.toNat_natCast, Int.toNat_natCast, List.take_append_of_le_length hhi]

theorem noError_read (s : Slice α) (lo hi : ℤ) : NoError (s.read lo hi) := by
  intro text h
  unfold read at h
  split_ifs at h
  cases h

theorem le_of_read {s : Slice α} {lo hi : ℤ} {x : List α} (h : s.read lo hi = .ok x) :
    0 ≤ lo ∧ lo ≤ hi ∧ hi ≤ s.elems.length + s.spare.length := by
  unfold read at h
  split_ifs at h with hin
  exact hin

theorem length_of_read {s : Slice α} {lo hi : ℕ} {x : List α} (h : s.read lo hi = .ok x) :
    x.length = hi - lo := by
  have hin := (le_of_read h).2.2
  rw [read, if_pos (le_of_read h)] at h
  obtain rfl := Except.ok.inj h
  rw [Int.toNat_natCast, Int.toNat_natCast, List.length_drop, List.length_take, List.length_append]
  omega

/-- What is read within the elements. -/
theorem eq_of_read {s : Slice α} {lo hi : ℕ} {x : List α} (h : s.read lo hi = .ok x)
    (hhi : hi ≤ s.elems.length) : x = (s.elems.take hi).drop lo := by
  have hlo : lo ≤ hi := by exact_mod_cast (le_of_read h).2.1
  rw [read_of_le hlo hhi] at h
  exact (Except.ok.inj h).symm

/-- Reading on from an offset: the next part of the elements, and what is left behind it. -/
theorem read_next {s : Slice α} {p q : ℕ} {x rest : List α} (hp : p ≤ s.elems.length)
    (h : s.elems.drop p = x ++ rest) (hq : q = p + x.length) :
    s.read p q = .ok x ∧ q ≤ s.elems.length ∧ s.elems.drop q = rest := by
  subst hq
  have hlen := congrArg List.length h
  rw [List.length_drop, List.length_append] at hlen
  have hle : p + x.length ≤ s.elems.length := by omega
  refine ⟨?_, hle, ?_⟩
  · rw [read_of_le (Nat.le_add_right p x.length) hle, ← List.take_drop, h, List.take_left]
  · rw [← List.drop_drop, h, List.drop_left]

end Slice

end Go
