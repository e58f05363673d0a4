import Mathlib.Data.List.AList
import Mathlib.Data.List.Perm.Basic

/-! Elements collected in a map from keys to lists. What a map holds is said by the list
it was filled with: under each key the elements with that key, in their order, and no
other key. Two lists that fill a map alike have the same elements. -/

namespace Grouping

variable {κ α : Type} [DecidableEq κ] {key : α → κ}

abbrev Groups (κ α : Type) := AList fun _ : κ => List α

/-- `g[k] = append(g[k], a)` -/
def add (g : Groups κ α) (k : κ) (a : α) : Groups κ α := g.insert k ((g.lookup k).getD [] ++ [a])

/-- The lists of the map, each once, in some order. -/
def values (g : Groups κ α) : List (List α) := g.entries.map Sigma.snd

/-- The map has under each key exactly the elements of `l` with that key, and no other key. -/
def Holds (key : α → κ) (g : Groups κ α) (l : List α) : Prop :=
  ∀ k, g.lookup k = if l.filter (key · = k) = [] then none else some (l.filter (key · = k))

theorem lookup_add (g : Groups κ α) (k k' : κ) (a : α) :
    (add g k a).lookup k' =
      if k' = k then some ((g.lookup k).getD [] ++ [a]) else g.lookup k' := by
  unfold add
  split_ifs with h
  · subst h
    exact AList.lookup_insert _
  · exact AList.lookup_insert_ne h

/-- Ranging over the map and passing over all keys but one handles the group of that key. -/
theorem foldl_entries {β : Type} {f : β → List α → β} (hnil : ∀ b, f b [] = b) (g : Groups κ α)
    (k : κ) (b : β) :
    g.entries.foldl (fun b entry => if entry.1 ≠ k then b else f b entry.2) b =
      f b ((g.lookup k).getD []) := by
  obtain ⟨entries, hnodup⟩ := g
  change _ = f b ((List.dlookup k entries).getD [])
  induction entries generalizing b with
  | nil => exact (hnil b).symm
  | cons entry rest ih =>
    rw [List.foldl_cons]
    obtain ⟨hnotMem, hrest⟩ := List.nodupKeys_cons.1 hnodup
    by_cases hk : entry.1 = k
    · subst hk
      have hnone : List.dlookup entry.1 rest = none := List.dlookup_eq_none.2 hnotMem
      rw [if_neg (not_not.2 rfl), ih _ hrest, hnone, List.dlookup_cons_eq]
      exact hnil _
    · rw [if_pos hk, ih _ hrest, List.dlookup_cons_ne rest entry (Ne.symm hk)]

theorem holds_empty : Holds key ∅ [] := fun _ => rfl

theorem Holds.getD {g : Groups κ α} {l : List α} (h : Holds key g l) (k : κ) :
    (g.lookup k).getD [] = l.filter (key · = k) := by
  rw [h k]
  split_ifs with hnil
  · exact hnil.symm
  · rfl

theorem Holds.add {g : Groups κ α} {l : List α} (h : Holds key g l) (a : α) :
    Holds key (add g (key a) a) (l ++ [a]) := by
  intro k
  rw [lookup_add, h.getD (key a), List.filter_append]
  by_cases hk : k = key a
  · subst hk
    simp
  · rw [if_neg hk, h k]
    simp [Ne.symm hk]

theorem Holds.mem_values {g : Groups κ α} {l : List α} (h : Holds key g l) {slice : List α} :
    slice ∈ values g ↔ slice ≠ [] ∧ ∃ k, slice = l.filter (key · = k) := by
  have hlookup : slice ∈ values g ↔ ∃ k, g.lookup k = some slice := by
    constructor
    · intro hmem
      obtain ⟨⟨k, v⟩, hkv, rfl⟩ := List.mem_map.1 hmem
      exact ⟨k, AList.mem_lookup_iff.2 hkv⟩
    · rintro ⟨k, hk⟩
      exact List.mem_map.2 ⟨⟨k, slice⟩, AList.mem_lookup_iff.1 hk, rfl⟩
  rw [hlookup]
  constructor
  · rintro ⟨k, hk⟩
    rw [h k] at hk
    split_ifs at hk with hnil
    obtain rfl := Option.some.inj hk
    exact ⟨hnil, k, rfl⟩
  · rintro ⟨hne, k, rfl⟩
    exact ⟨k, by rw [h k, if_neg hne]⟩

/-- No two lists of the map have elements with the same key. -/
theorem Holds.pairwise_values {g : Groups κ α} {l : List α} (h : Holds key g l) :
    (values g).Pairwise fun slice slice' => ∀ a ∈ slice, ∀ b ∈ slice', key a ≠ key b := by
  have hkey : ∀ entry ∈ g.entries, ∀ a ∈ entry.2, key a = entry.1 := by
    intro entry hentry a ha
    have hlookup : g.lookup entry.1 = some entry.2 := AList.mem_lookup_iff.2 hentry
    have hfilter := h.getD entry.1
    rw [hlookup, Option.getD_some] at hfilter
    rw [hfilter] at ha
    simpa using (List.mem_filter.1 ha).2
  rw [values, List.pairwise_map]
  refine (List.nodupKeys_iff_pairwise.1 g.nodupKeys).imp_of_mem ?_
  intro entry entry' hentry hentry' hne a ha b hb heq
  exact hne (by rw [← hkey entry hentry a ha, heq, hkey entry' hentry' b hb])

theorem Holds.filter_eq {g : Groups κ α} {l l' : List α} (h : Holds key g l)
    (h' : Holds key g l') (k : κ) : l.filter (key · = k) = l'.filter (key · = k) := by
  rw [← h.getD k, h'.getD k]

theorem perm_of_filter_eq [DecidableEq α] {l l' : List α}
    (h : ∀ k, l.filter (key · = k) = l'.filter (key · = k)) : l.Perm l' := by
  rw [List.perm_iff_count]
  intro a
  have hcount : ∀ m : List α, (m.filter (key · = key a)).count a = m.count a := fun m =>
    List.count_filter (by simp)
  rw [← hcount l, ← hcount l', h]

/-- Filled alike, the lists have the same elements. -/
theorem Holds.perm [DecidableEq α] {g : Groups κ α} {l l' : List α} (h : Holds key g l)
    (h' : Holds key g l') : l.Perm l' :=
  perm_of_filter_eq (h.filter_eq h')

theorem Holds.eq_of_sublist [DecidableEq α] {g : Groups κ α} {l l' : List α} (h : Holds key g l)
    (h' : Holds key g l') (hsub : l.Sublist l') : l = l' :=
  hsub.eq_of_length (h.perm h').length_eq

/-- The elements put into an empty map one after the other. -/
def collect (key : α → κ) (l : List α) : Groups κ α := l.foldl (fun g a => Grouping.add g (key a) a) ∅

theorem holds_collect (l : List α) : Holds key (collect key l) l := by
  suffices ∀ (l done : List α) (g : Groups κ α), Holds key g done →
      Holds key (l.foldl (fun g a => Grouping.add g (key a) a) g) (done ++ l) by
    simpa [collect] using this l [] ∅ holds_empty
  intro l
  induction l with
  | nil =>
    intro done g h
    simpa using h
  | cons a l ih =>
    intro done g h
    simpa using ih (done ++ [a]) _ (h.add a)

/-- Filled alike, the maps have the same lists. -/
theorem Holds.values_perm {g g' : Groups κ α} {l : List α} (h : Holds key g l)
    (h' : Holds key g' l) : (values g).Perm (values g') := by
  have hlookup : ∀ k, g.lookup k = g'.lookup k := fun k => (h k).trans (h' k).symm
  apply List.Perm.map
  apply List.lookup_ext g.nodupKeys g'.nodupKeys
  intro k v
  exact iff_of_eq (congrArg (v ∈ ·) (hlookup k))

theorem Holds.filter_eq_of_subset {g g' : Groups κ α} {l l' : List α} (h : Holds key g l)
    (h' : Holds key g' l') (hsub : values g ⊆ values g') {k : κ}
    (hne : l.filter (key · = k) ≠ []) : l.filter (key · = k) = l'.filter (key · = k) := by
  obtain ⟨-, k', heq⟩ := h'.mem_values.1 (hsub (h.mem_values.2 ⟨hne, k, rfl⟩))
  obtain ⟨a, ha⟩ := List.exists_mem_of_ne_nil _ hne
  -- any element of the list tells its key
  have hk : key a = k := of_decide_eq_true (List.mem_filter.1 ha).2
  rw [heq] at ha
  have hk' : key a = k' := of_decide_eq_true (List.mem_filter.1 ha).2
  rw [heq, ← hk, ← hk']

/-- Maps with the same lists were filled alike. -/
theorem Holds.filter_eq_of_values {g g' : Groups κ α} {l l' : List α} (h : Holds key g l)
    (h' : Holds key g' l') (hperm : (values g).Perm (values g')) (k : κ) :
    l.filter (key · = k) = l'.filter (key · = k) := by
  by_cases hne : l.filter (key · = k) = []
  · by_contra hne'
    have heq := h'.filter_eq_of_subset h hperm.symm.subset fun h' => hne' (hne.trans h'.symm)
    exact hne' heq.symm
  · exact h.filter_eq_of_subset h' hperm.subset hne

end Grouping
