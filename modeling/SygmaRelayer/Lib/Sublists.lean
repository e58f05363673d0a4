import Mathlib.Data.List.Flatten
import Mathlib.Data.List.Pairwise

/-! When leaving elements out of a list leaves nothing out of what is made of it. -/

namespace Sublists

variable {α β : Type} {keep : α → Option β}

/-- Two ways to keep elements, which keep the same ones, give the same list after filtering and
without it exactly if nothing is kept of an element that is filtered out and the same of the
others. -/
theorem filterMap_filter_eq_iff {keep' : α → Option β} {p : α → Bool}
    (h : ∀ a, (keep a).isSome = (keep' a).isSome) (l : List α) :
    (l.filter p).filterMap keep = l.filterMap keep' ↔
      ∀ a ∈ l, (p a = false → keep a = none) ∧ (p a = true → keep a = keep' a) := by
  induction l with
  | nil => simp
  | cons a l ih =>
    have ha := h a
    rw [List.forall_mem_cons, ← ih]
    cases hp : p a with
    | true =>
      rw [List.filter_cons_of_pos hp]
      cases hkeep : keep a <;> cases hkeep' : keep' a <;> simp_all
    | false =>
      rw [List.filter_cons_of_neg (by simp [hp])]
      cases hkeep : keep a with
      | none =>
        have hkeep' : keep' a = none := by simpa [hkeep] using ha.symm
        simp [hkeep']
      | some b =>
        obtain ⟨b', hkeep'⟩ : ∃ b', keep' a = some b' := by
          simpa [hkeep, Option.isSome_iff_exists] using ha.symm
        rw [List.filterMap_cons_some hkeep']
        refine iff_of_false (fun heq => ?_) (fun hall => nomatch hall.1.1 rfl)
        -- the list on the left is no longer than the tail of the one on the right
        have hlength : (l.filterMap keep).length = (l.filterMap keep').length := by
          simp [List.length_filterMap_eq_countP, h]
        have hle : ((l.filter p).filterMap keep).length ≤ (l.filterMap keep).length :=
          (List.filter_sublist.filterMap keep).length_le
        rw [heq, List.length_cons] at hle
        omega

/-- Stopping at the first failure loses nothing exactly if nothing to keep stands behind a
failure. -/
theorem filterMap_takeWhile_eq_iff {fails : α → Bool}
    (hkeep : ∀ a, fails a = true → keep a = none) (l : List α) :
    (l.takeWhile (!fails ·)).filterMap keep = l.filterMap keep ↔
      l.Pairwise fun f a => fails f = true → keep a = none := by
  induction l with
  | nil => simp
  | cons a l ih =>
    rw [List.pairwise_cons]
    cases ha : fails a with
    | true =>
      have hall : (∀ x ∈ l, keep x = none) → l.Pairwise fun f a => fails f = true → keep a = none :=
        fun h => List.pairwise_of_forall_mem_list fun _ _ b hb _ => h b hb
      simp only [List.takeWhile_cons, ha, Bool.not_true, List.filterMap_nil, List.filterMap_cons,
        hkeep a ha, Bool.false_eq_true, if_false, forall_const]
      rw [eq_comm, List.filterMap_eq_nil_iff]
      exact ⟨fun h => ⟨h, hall h⟩, fun h => h.1⟩
    | false =>
      simp only [List.takeWhile_cons, ha, Bool.not_false, if_true, List.filterMap_cons,
        Bool.false_eq_true, false_implies, implies_true, true_and, ← ih]
      cases keep a <;> simp

/-- Parts that may each lose elements lose none together exactly if none of them does. -/
theorem flatMap_eq_iff {part whole : α → List β} (h : ∀ a, (part a).Sublist (whole a))
    (l : List α) : l.flatMap part = l.flatMap whole ↔ ∀ a ∈ l, part a = whole a := by
  induction l with
  | nil => simp
  | cons a l ih =>
    rw [List.flatMap_cons, List.flatMap_cons, List.forall_mem_cons, ← ih]
    refine ⟨?_, ?_⟩
    · intro heq
      have ha : part a = whole a := by
        -- neither part can be longer on the left, and the lengths add up
        apply (h a).eq_of_length_le
        have hlen := congrArg List.length heq
        have hrest := (List.Sublist.flatMap_right l fun b _ => h b).length_le
        rw [List.length_append, List.length_append] at hlen
        omega
      rw [ha, List.append_cancel_left_eq] at heq
      exact ⟨ha, heq⟩
    · rintro ⟨ha, hl⟩
      rw [ha, hl]

section Cut

variable {γ : Type} {fails : α → Bool} (items : γ → List α)

theorem filterMap_takeWhile_sublist (l : List α) :
    ((l.takeWhile (!fails ·)).filterMap keep).Sublist (l.filterMap keep) :=
  (List.takeWhile_sublist _).filterMap keep

theorem flatMap_takeWhile_sublist (l : List γ) :
    (l.flatMap fun c => ((items c).takeWhile (!fails ·)).filterMap keep).Sublist
      (l.flatMap fun c => (items c).filterMap keep) :=
  List.Sublist.flatMap_right l fun c _ => filterMap_takeWhile_sublist (items c)

/-- Several lists, each with its own first failure. -/
theorem flatMap_takeWhile_eq_iff (hkeep : ∀ a, fails a = true → keep a = none) (l : List γ) :
    (l.flatMap fun c => ((items c).takeWhile (!fails ·)).filterMap keep) =
        l.flatMap (fun c => (items c).filterMap keep) ↔
      ∀ c ∈ l, (items c).Pairwise fun f a => fails f = true → keep a = none := by
  rw [flatMap_eq_iff fun c => filterMap_takeWhile_sublist (items c)]
  exact forall₂_congr fun c _ => filterMap_takeWhile_eq_iff hkeep (items c)

end Cut

end Sublists
