import Mathlib.Data.List.Forall2
import Mathlib.Tactic.Common

/-! Taking a successful `Except` computation apart. -/

namespace Fallible

universe u

variable {ε α β : Type u}

theorem bind_ok (a : α) (f : α → Except ε β) : (Except.ok a >>= f) = f a := rfl

theorem bind_eq_ok {x : Except ε α} {f : α → Except ε β} {b : β} :
    (x >>= f) = .ok b ↔ ∃ a, x = .ok a ∧ f a = .ok b := by
  cases x <;> simp [bind, Except.bind]

/-- A map that succeeds does so at every element. -/
theorem mapM_eq_ok {f : α → Except ε β} {l : List α} {l' : List β} :
    l.mapM f = .ok l' ↔ List.Forall₂ (fun a b => f a = .ok b) l l' := by
  induction l generalizing l' with
  | nil => simp [pure, Except.pure, eq_comm]
  | cons a l ih =>
    simp only [List.mapM_cons, bind_eq_ok, ih, List.forall₂_cons_left_iff]
    refine ⟨?_, ?_⟩
    · rintro ⟨b, hb, bs, hbs, heq⟩
      exact ⟨b, bs, hb, hbs, (Except.ok.inj heq).symm⟩
    · rintro ⟨b, bs, hb, hbs, rfl⟩
      exact ⟨b, hb, bs, hbs, rfl⟩

theorem exists_mapM_eq_ok {f : α → Except ε β} {l : List α} :
    (∃ l', l.mapM f = .ok l') ↔ ∀ a ∈ l, ∃ b, f a = .ok b := by
  simp only [mapM_eq_ok]
  induction l with
  | nil => simp
  | cons a l ih =>
    simp only [List.forall₂_cons_left_iff, List.forall_mem_cons, ← ih]
    constructor
    · rintro ⟨_, b, bs, hb, hbs, rfl⟩
      exact ⟨⟨b, hb⟩, bs, hbs⟩
    · rintro ⟨⟨b, hb⟩, bs, hbs⟩
      exact ⟨b :: bs, b, bs, hb, hbs, rfl⟩

/-- The map changes the values of a list of entries and keeps their keys. -/
theorem mapM_entries_eq_ok {κ : Type u} {f : α → Except ε β} {l : List (κ × α)} {l' : List (κ × β)} :
    (l.mapM fun (k, a) => do return (k, ← f a)) = .ok l' ↔
      List.Forall₂ (fun e e' => e'.1 = e.1 ∧ f e.2 = .ok e'.2) l l' := by
  have hturn : ∀ (e : κ × α) (e' : κ × β),
      (do return (e.1, ← f e.2) : Except ε (κ × β)) = .ok e' ↔ e'.1 = e.1 ∧ f e.2 = .ok e'.2 := by
    intro e e'
    rw [bind_eq_ok]
    refine ⟨?_, fun ⟨hk, h⟩ => ⟨e'.2, h, by rw [← hk]; rfl⟩⟩
    rintro ⟨b, hb, heq⟩
    obtain rfl : (e.1, b) = e' := Except.ok.inj heq
    exact ⟨rfl, hb⟩
  simp only [mapM_eq_ok, hturn]

/-- A fold that succeeds carries along what each of its turns establishes. -/
theorem foldlM_ok {f : α → β → Except ε α} {P : α → List β → Prop} {a a' : α} {l : List β}
    (h0 : P a [])
    (hstep : ∀ c d done b, P c done → f c b = .ok d → P d (done ++ [b]))
    (h : l.foldlM f a = .ok a') : P a' l := by
  suffices ∀ (l done : List β) (a : α), P a done → l.foldlM f a = .ok a' → P a' (done ++ l) by
    simpa using this l [] a h0 h
  intro l
  induction l with
  | nil =>
    intro done a ha h
    obtain rfl : a = a' := by simpa [pure, Except.pure] using h
    simpa using ha
  | cons b l ih =>
    intro done a ha h
    rw [List.foldlM_cons, bind_eq_ok] at h
    obtain ⟨d, hd, h⟩ := h
    simpa using ih (done ++ [b]) d (hstep a d done b ha hd) h

/-- A fold succeeds if none of its turns can fail. -/
theorem foldlM_total {f : α → β → Except ε α} {l : List β}
    (h : ∀ b ∈ l, ∀ a, ∃ a', f a b = .ok a') (a : α) : ∃ a', l.foldlM f a = .ok a' := by
  induction l generalizing a with
  | nil => exact ⟨a, rfl⟩
  | cons b l ih =>
    obtain ⟨c, hc⟩ := h b List.mem_cons_self a
    obtain ⟨a', ha'⟩ := ih (fun b hb => h b (List.mem_cons_of_mem _ hb)) c
    exact ⟨a', by rw [List.foldlM_cons, bind_eq_ok]; exact ⟨c, hc, ha'⟩⟩

end Fallible
