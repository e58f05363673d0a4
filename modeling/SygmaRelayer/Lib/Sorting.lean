import Mathlib.Data.List.Sort
import Mathlib.Tactic.Common

/-! Sorting by a key without stability. A sort may return any permutation of its
input that is sorted for the comparison, so elements with equal keys may come out
in any order, and only a prefix of elements with unique keys is determined. -/

namespace Sorting

variable {α β : Type*} [LinearOrder β] {key : α → β}

/-- `l'` is a result an unstable sort of `l` by `less` may return. -/
structure SortsTo (less : α → α → Bool) (l l' : List α) : Prop where
  perm : l'.Perm l
  sorted : l'.Pairwise fun a b => less b a = false

instance {α : Type*} [DecidableEq α] (less : α → α → Bool) (l l' : List α) :
    Decidable (SortsTo less l l') :=
  decidable_of_iff (l'.Perm l ∧ l'.Pairwise fun a b => less b a = false)
    ⟨fun h => ⟨h.1, h.2⟩, fun h => ⟨h.1, h.2⟩⟩

omit [LinearOrder β] in
/-- Nothing comes before the first element. -/
theorem SortsTo.not_less_head {less : α → α → Bool} {l l' : List α} {c : α}
    (h : SortsTo less l l') (hc : l'.head? = some c) : ∀ a ∈ l, a = c ∨ less a c = false := by
  intro a ha
  have hmem := h.perm.mem_iff.2 ha
  have hsorted := h.sorted
  cases l' with
  | nil => cases hc
  | cons b t =>
    obtain rfl : b = c := Option.some.inj hc
    rcases List.mem_cons.1 hmem with rfl | hat
    · exact Or.inl rfl
    · exact Or.inr ((List.pairwise_cons.1 hsorted).1 a hat)

/-- The list is sorted by `key`. -/
def ByKey (key : α → β) (l : List α) : Prop := l.Pairwise fun a b => key a ≤ key b

theorem SortsTo.byKey {less : α → α → Bool} {l l' : List α} (h : SortsTo less l l')
    (hless : ∀ a b, less a b = true ↔ key a < key b) : ByKey key l' := by
  refine h.sorted.imp fun {a b} hab => ?_
  rw [← not_lt, ← hless b a, hab]
  simp

/-- Elements with unique keys at the front come out the same from every sort. -/
theorem prefix_of_perm {p t l : List α} (hpt : ByKey key (p ++ t)) (hl : ByKey key l)
    (hperm : l.Perm (p ++ t)) (huniq : ∀ a ∈ p, ∀ b ∈ p ++ t, key a = key b → a = b) :
    p <+: l := by
  induction p generalizing l with
  | nil => exact List.nil_prefix
  | cons a p ih =>
    cases l with
    | nil => simpa using hperm.length_eq
    | cons b l =>
      obtain ⟨ha, hpt'⟩ := List.pairwise_cons.1 hpt
      obtain ⟨hb, hl'⟩ := List.pairwise_cons.1 hl
      have hbmem : b ∈ a :: (p ++ t) := hperm.subset List.mem_cons_self
      have hamem : a ∈ b :: l := hperm.symm.subset List.mem_cons_self
      have hab : key a ≤ key b := by
        rcases List.mem_cons.1 hbmem with rfl | h
        · exact le_rfl
        · exact ha b h
      have hba : key b ≤ key a := by
        rcases List.mem_cons.1 hamem with rfl | h
        · exact le_rfl
        · exact hb a h
      obtain rfl := huniq a List.mem_cons_self b hbmem (le_antisymm hab hba)
      rw [List.prefix_cons_inj]
      exact ih hpt' hl' (List.Perm.cons_inv hperm) fun x hx y hy =>
        huniq x (List.mem_cons_of_mem a hx) y (List.mem_cons_of_mem a hy)

/-- Where the keys are unique, every sort of a permutation of the list comes out the same. -/
theorem SortsTo.unique {less : α → α → Bool} {l₁ l₁' l₂ l₂' : List α} (h₁ : SortsTo less l₁ l₁')
    (h₂ : SortsTo less l₂ l₂') (hless : ∀ a b, less a b = true ↔ key a < key b)
    (hperm : l₂.Perm l₁) (huniq : ∀ a ∈ l₁, ∀ b ∈ l₁, key a = key b → a = b) : l₂' = l₁' := by
  have hp : l₂'.Perm l₁' := h₂.perm.trans (hperm.trans h₁.perm.symm)
  have hpre : l₁' <+: l₂' := by
    refine prefix_of_perm (t := []) (by simpa using h₁.byKey hless) (h₂.byKey hless)
      (by simpa using hp) ?_
    intro a ha b hb
    exact huniq a (h₁.perm.subset ha) b (h₁.perm.subset (by simpa using hb))
  exact (hpre.eq_of_length hp.length_eq.symm).symm

/-- Where the keys are unique, a sorted list is strictly sorted. -/
theorem ByKey.strict {l : List α} (hl : ByKey key l) (hnodup : l.Nodup)
    (huniq : ∀ a ∈ l, ∀ b ∈ l, key a = key b → a = b) : l.Pairwise fun a b => key a < key b := by
  refine List.Pairwise.imp_of_mem ?_ (hl.and hnodup)
  rintro a b ha hb ⟨hle, hne⟩
  exact lt_of_le_of_ne hle fun heq => hne (huniq a ha b hb heq)

/-- There is always something a sort may return. -/
theorem exists_sortsTo {less : α → α → Bool} (hless : ∀ a b, less a b = true ↔ key a < key b)
    (l : List α) : ∃ l', SortsTo less l l' := by
  refine ⟨l.mergeSort fun a b => !less b a, List.mergeSort_perm _ _, ?_⟩
  have hle : ∀ a b, (!less b a) = true ↔ key a ≤ key b := by
    intro a b
    rw [Bool.not_eq_true', ← not_lt, ← hless b a, Bool.not_eq_true]
  refine (List.pairwise_mergeSort ?_ ?_ l).imp fun h => by simpa using h
  · intro a b c hab hbc
    exact (hle a c).2 (le_trans ((hle a b).1 hab) ((hle b c).1 hbc))
  · intro a b
    rw [Bool.or_eq_true, hle, hle]
    exact le_total (key a) (key b)

/-- In a sorted list the elements up to a key stand at the front. -/
theorem filter_le_prefix {l : List α} (hl : ByKey key l) (c : β) :
    l.filter (fun a => key a ≤ c) <+: l := by
  induction l with
  | nil => exact List.prefix_refl _
  | cons a l ih =>
    obtain ⟨ha, hl'⟩ := List.pairwise_cons.1 hl
    by_cases hac : key a ≤ c
    · rw [List.filter_cons_of_pos (by simpa using hac), List.prefix_cons_inj]
      exact ih hl'
    · have hnil : (a :: l).filter (fun a => key a ≤ c) = [] := by
        rw [List.filter_eq_nil_iff]
        intro x hx
        rcases List.mem_cons.1 hx with rfl | hx
        · simpa using hac
        · have := ha x hx
          simpa using lt_of_lt_of_le (not_le.1 hac) this
      rw [hnil]
      exact List.nil_prefix

/-- Up to a unique key, the elements at the front are those the key bounds. -/
theorem filter_le_eq {q t : List α} {w : α} (hl : ByKey key (q ++ w :: t))
    (hw : ∀ b ∈ t, key w ≠ key b) :
    (q ++ w :: t).filter (fun a => key a ≤ key w) = q ++ [w] := by
  obtain ⟨_, hwt, hq⟩ := List.pairwise_append.1 hl
  have hle : ∀ a ∈ q, key a ≤ key w := fun a ha => hq a ha w List.mem_cons_self
  have hgt : ∀ b ∈ t, key w < key b := fun b hb =>
    lt_of_le_of_ne ((List.pairwise_cons.1 hwt).1 b hb) (hw b hb)
  rw [List.filter_append, List.filter_cons_of_pos (by simp),
    List.filter_eq_self.2 (by simpa using hle),
    List.filter_eq_nil_iff.2 (by simpa using hgt)]

/-- The first element that ties with a later one; before it all keys are unique. -/
theorem exists_first_tie {l : List α} (h : ∃ a ∈ l, ∃ b ∈ l, a ≠ b ∧ key a = key b) :
    ∃ p x t, l = p ++ x :: t ∧ (∃ y ∈ t, key y = key x) ∧
      ∀ w ∈ p, ∀ b ∈ l, key w = key b → b = w := by
  induction l with
  | nil => simp at h
  | cons c l ih =>
    by_cases hc : ∃ y ∈ l, key y = key c
    · exact ⟨[], c, l, rfl, hc, by simp⟩
    · push Not at hc
      obtain ⟨a, ha, b, hb, hne, hab⟩ := h
      have hal : a ∈ l := by
        rcases List.mem_cons.1 ha with rfl | ha
        · rcases List.mem_cons.1 hb with rfl | hb
          · exact absurd rfl hne
          · exact absurd hab.symm (hc b hb)
        · exact ha
      have hbl : b ∈ l := by
        rcases List.mem_cons.1 hb with rfl | hb
        · exact absurd hab (hc a hal)
        · exact hb
      obtain ⟨p, x, t, rfl, htie, huniq⟩ := ih ⟨a, hal, b, hbl, hne, hab⟩
      refine ⟨c :: p, x, t, rfl, htie, ?_⟩
      intro w hw d hd hwd
      rcases List.mem_cons.1 hw with rfl | hwp
      · rcases List.mem_cons.1 hd with rfl | hd
        · rfl
        · exact absurd hwd.symm (hc d hd)
      · rcases List.mem_cons.1 hd with rfl | hd
        · exact absurd hwd (hc w (List.mem_append_left _ hwp))
        · exact huniq w hwp d hd hwd

/-- A tied element may as well come first. -/
theorem ByKey.swap {p t₁ t₂ : List α} {x y : α} (hl : ByKey key (p ++ x :: (t₁ ++ y :: t₂)))
    (hxy : key y = key x) : ByKey key (p ++ y :: x :: (t₁ ++ t₂)) := by
  unfold ByKey at hl ⊢
  simp only [List.pairwise_append, List.pairwise_cons, List.mem_append, List.mem_cons] at hl ⊢
  obtain ⟨hp, ⟨hx, h₁, ⟨hy, h₂⟩, h₁₂⟩, hpx⟩ := hl
  refine ⟨hp, ⟨?_, ?_, h₁, h₂, fun a ha b hb => h₁₂ a ha b (Or.inr hb)⟩, ?_⟩
  · rintro b (rfl | hb | hb)
    · exact hxy.le
    · exact hxy.trans_le (hx b (Or.inl hb))
    · exact hy b hb
  · rintro b (hb | hb)
    · exact hx b (Or.inl hb)
    · exact hx b (Or.inr (Or.inr hb))
  · rintro a ha b (rfl | rfl | hb | hb)
    · exact hpx a ha b (Or.inr (Or.inr (Or.inl rfl)))
    · exact hpx a ha b (Or.inl rfl)
    · exact hpx a ha b (Or.inr (Or.inl hb))
    · exact hpx a ha b (Or.inr (Or.inr (Or.inr hb)))

/-- One of the elements with the least key. -/
def Least (key : α → β) (l : List α) (a : α) : Prop := a ∈ l ∧ ∀ b ∈ l, key a ≤ key b

/-- Where keys are unique, so is the least element, whatever order the elements come in. -/
theorem Least.unique {l l' : List α} {a a' : α} (h : Least key l a) (h' : Least key l' a')
    (hmem : ∀ b, b ∈ l ↔ b ∈ l') (hinj : ∀ b ∈ l, ∀ b' ∈ l, key b = key b' → b = b') : a' = a := by
  have ha' : a' ∈ l := (hmem a').2 h'.1
  exact hinj a' ha' a h.1 (le_antisymm (h'.2 a ((hmem a).1 h.1)) (h.2 a' ha'))

/-- A pass that keeps the smaller of two elements ends with the least. -/
theorem least_foldl {keep : α → α → α} (hkeep : ∀ a b, keep a b = if key b < key a then b else a)
    (a : α) (l : List α) : Least key (a :: l) (l.foldl keep a) := by
  induction l generalizing a with
  | nil => exact ⟨List.mem_cons_self, by simp⟩
  | cons b l ih =>
    obtain ⟨hmem, hle⟩ := ih (keep a b)
    rw [List.foldl_cons]
    have hkept : (keep a b = a ∨ keep a b = b) ∧ key (keep a b) ≤ key a ∧ key (keep a b) ≤ key b := by
      rw [hkeep]
      split_ifs with hlt
      · exact ⟨Or.inr rfl, hlt.le, le_rfl⟩
      · exact ⟨Or.inl rfl, le_rfl, not_lt.1 hlt⟩
    have hbest := hle (keep a b) List.mem_cons_self
    refine ⟨?_, fun x hx => ?_⟩
    · rcases List.mem_cons.1 hmem with heq | htail
      · rw [heq]
        rcases hkept.1 with h | h <;> simp [h]
      · exact List.mem_cons_of_mem a (List.mem_cons_of_mem b htail)
    · rcases List.mem_cons.1 hx with rfl | hx
      · exact hbest.trans hkept.2.1
      rcases List.mem_cons.1 hx with rfl | hx
      · exact hbest.trans hkept.2.2
      · exact hle x (List.mem_cons_of_mem _ hx)

end Sorting
