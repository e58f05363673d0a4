import Mathlib.Data.Finset.Card
import Mathlib.Tactic.Common

/-! A mutex without an owner: a flag, and the threads that stand between their
`Lock` and their `Unlock`. The readers of a read-write lock are counted instead. -/

namespace Mutex

variable {α : Type*} {flag : Bool} {Inside Inside' : α → Prop}

/-- At most one thread is inside, and only while the flag is set. -/
structure Exclusive (flag : Bool) (Inside : α → Prop) : Prop where
  locked : ∀ a, Inside a → flag = true
  single : ∀ a b, Inside a → Inside b → a = b

theorem Exclusive.mono (h : Exclusive flag Inside) (hsub : ∀ a, Inside' a → Inside a) :
    Exclusive flag Inside' :=
  ⟨fun a ha => h.locked a (hsub a ha), fun a b ha hb => h.single a b (hsub a ha) (hsub b hb)⟩

theorem Exclusive.not_inside (h : Exclusive false Inside) (a : α) : ¬ Inside a :=
  fun ha => by simpa using h.locked a ha

theorem Exclusive.acquire {c : α} (h : Exclusive false Inside)
    (hsub : ∀ a, Inside' a → Inside a ∨ a = c) : Exclusive true Inside' := by
  have hc : ∀ a, Inside' a → a = c := fun a ha => (hsub a ha).resolve_left (h.not_inside a)
  exact ⟨fun _ _ => rfl, fun a b ha hb => (hc a ha).trans (hc b hb).symm⟩

theorem Exclusive.release {c : α} {flag' : Bool} (h : Exclusive flag Inside) (hc : Inside c)
    (hsub : ∀ a, Inside' a → Inside a ∧ a ≠ c) : Exclusive flag' Inside' := by
  have hno : ∀ a, ¬ Inside' a := fun a ha => (hsub a ha).2 (h.single a c (hsub a ha).1 hc)
  exact ⟨fun a ha => absurd ha (hno a), fun a _ ha => absurd ha (hno a)⟩

/-- While the flag is set, some thread is inside and can clear it. -/
def Held (flag : Bool) (Inside : α → Prop) : Prop := flag = true → ∃ a, Inside a

/-- A step that keeps the flag keeps the mutex held if the thread inside stays there. -/
theorem Held.mono (h : Held flag Inside) (hsub : ∀ a, Inside a → Inside' a) : Held flag Inside' :=
  fun hflag => (h hflag).imp hsub

/-- As many threads are inside as are counted. -/
def Readers (count : ℕ) (Inside : α → Prop) : Prop :=
  ∃ S : Finset α, S.card = count ∧ ∀ a, a ∈ S ↔ Inside a

section Readers

variable {count : ℕ} {c : α}

theorem readers_zero (h : ∀ a, ¬ Inside a) : Readers 0 Inside :=
  ⟨∅, rfl, fun a => by simp [h a]⟩

theorem Readers.congr (h : Readers count Inside) (hsame : ∀ a, Inside' a ↔ Inside a) :
    Readers count Inside' := by
  obtain ⟨S, hcard, hS⟩ := h
  exact ⟨S, hcard, fun a => (hS a).trans (hsame a).symm⟩

theorem Readers.acquire (h : Readers count Inside) (hc : ¬ Inside c)
    (hsame : ∀ a, Inside' a ↔ a = c ∨ Inside a) : Readers (count + 1) Inside' := by
  classical
  obtain ⟨S, hcard, hS⟩ := h
  refine ⟨insert c S, ?_, fun a => ?_⟩
  · rw [Finset.card_insert_of_notMem (mt (hS c).1 hc), hcard]
  · rw [Finset.mem_insert, hS, hsame]

theorem Readers.release (h : Readers count Inside) (hc : Inside c)
    (hsame : ∀ a, Inside' a ↔ a ≠ c ∧ Inside a) : Readers (count - 1) Inside' := by
  classical
  obtain ⟨S, hcard, hS⟩ := h
  refine ⟨S.erase c, ?_, fun a => ?_⟩
  · rw [Finset.card_erase_of_mem ((hS c).2 hc), hcard]
  · rw [Finset.mem_erase, hS, hsame]

theorem Readers.eq_zero_iff (h : Readers count Inside) : count = 0 ↔ ∀ a, ¬ Inside a := by
  obtain ⟨S, rfl, hS⟩ := h
  rw [Finset.card_eq_zero, Finset.eq_empty_iff_forall_notMem]
  exact forall_congr' fun a => not_congr (hS a)

theorem Readers.exists_list (h : Readers count Inside) : ∃ l : List α, ∀ a, Inside a → a ∈ l := by
  obtain ⟨S, -, hS⟩ := h
  exact ⟨S.toList, fun a ha => Finset.mem_toList.2 ((hS a).2 ha)⟩

end Readers

end Mutex
