import Mathlib.Data.List.Induction
import Mathlib.Data.List.Pairwise
import SygmaRelayer.Spec.EnvConfig

/-! The order of the environment variables does not matter as long as no name continues another
one: no variable is mounted where another has put a value, or over a map that holds one. -/

namespace Sygma.Env

open NestedMap

variable {m : Structure} {i j k : String} {p q : List String} {v w : String}

/-- What `mountMap` puts at the first segment. -/
def mounted (entry : Option (Node String String)) : List String → String → Option (Node String String)
  | [], v => some (.leaf v)
  | j :: rest, v =>
    match entry.getD (.map empty) with
    | .map asMap => some (.map (mountMap asMap j rest v))
    | .leaf _ => entry

theorem mountMap_eq (m : Structure) (i : String) (p : List String) (v : String) :
    mountMap m i p v = Function.update m i (mounted (m i) p v) := by
  cases p with
  | nil => rfl
  | cons j rest =>
    rcases hm : m i with _ | a | asMap
    · simp [mountMap, mounted, hm]
    · change _ = Function.update m i (some (.leaf a))
      rw [← hm, Function.update_eq_self]
      simp [mountMap, hm]
    · simp [mountMap, mounted, hm]

theorem mountMap_of_ne (h : k ≠ i) : mountMap m i p v k = m k := by
  rw [mountMap_eq, Function.update_of_ne h]

theorem mountMap_self (m : Structure) (i : String) (p : List String) (v : String) :
    mountMap m i p v i = mounted (m i) p v := by
  rw [mountMap_eq, Function.update_self]

/-- Neither list of segments continues the other. -/
def Apart (p q : List String) : Prop := ¬ p <+: q ∧ ¬ q <+: p

instance (p q : List String) : Decidable (Apart p q) := inferInstanceAs (Decidable (_ ∧ _))

theorem Apart.symm (h : Apart p q) : Apart q p := ⟨h.2, h.1⟩

theorem Apart.tail (h : Apart (i :: p) (i :: q)) : Apart p q :=
  ⟨fun hp => h.1 ((List.prefix_cons_inj i).2 hp), fun hq => h.2 ((List.prefix_cons_inj i).2 hq)⟩

theorem Apart.ne_nil (h : Apart p q) : p ≠ [] := by
  rintro rfl
  exact h.1 (List.nil_prefix)

theorem mountMap_comm_of_ne (hij : i ≠ j) :
    mountMap (mountMap m i p v) j q w = mountMap (mountMap m j q w) i p v := by
  simp only [mountMap_eq, Function.update_of_ne hij, Function.update_of_ne hij.symm]
  exact Function.update_comm hij _ _ _

theorem mountMap_comm (h : Apart (i :: p) (j :: q)) :
    mountMap (mountMap m i p v) j q w = mountMap (mountMap m j q w) i p v := by
  induction p generalizing m i j q with
  | nil =>
    refine mountMap_comm_of_ne ?_
    rintro rfl
    exact h.tail.ne_nil rfl
  | cons i' p ih =>
    by_cases hij : i = j
    · subst hij
      obtain ⟨j', q, rfl⟩ := List.exists_cons_of_ne_nil h.tail.symm.ne_nil
      simp only [mountMap_eq _ i, Function.update_self, Function.update_idem]
      -- below the common segment, either both are mounted in one map or there is a value
      rcases m i with _ | a | asMap
      · simp [mounted, ih h.tail]
      · simp [mounted]
      · simp [mounted, ih h.tail]
    · exact mountMap_comm_of_ne hij

/-- If what is there already stands apart, the value is mounted and the rest stays as it is. -/
theorem leafAt_mountMap (h : ∀ path a, leafAt m path = some a → Apart (i :: p) path)
    (path : List String) :
    leafAt (mountMap m i p v) path = if path = i :: p then some v else leafAt m path := by
  induction p generalizing m i path with
  | nil =>
    cases path with
    | nil => simp
    | cons k path =>
      by_cases hk : k = i
      · subst hk
        have hnone : leafAt m (k :: path) = none := by
          by_contra hsome
          obtain ⟨a, ha⟩ := Option.ne_none_iff_exists'.1 hsome
          exact (h _ a ha).tail.ne_nil rfl
        rw [hnone]
        cases path with
        | nil => simp [leafAt, mountMap]
        | cons k' path => simp [leafAt, mountMap]
      · rw [leafAt_congr (mountMap_of_ne hk), if_neg (by simp [hk])]
  | cons j p ih =>
    cases path with
    | nil => simp
    | cons k path =>
      by_cases hk : k = i
      · subst hk
        have hself := mountMap_self m k (j :: p) v
        rcases hm : m k with _ | a | asMap
        · rw [hm] at hself
          rw [leafAt_of_map hself, leafAt_of_none hm, ih (by simp)]
          simp
        · exact absurd (List.prefix_append [k] (j :: p)) (h [k] a (leafAt_of_leaf hm)).2
        · rw [hm] at hself
          rw [leafAt_of_map hself, leafAt_of_map hm, ih]
          · simp
          · intro path a ha
            exact (h (k :: path) a (by rw [leafAt_of_map hm, ha])).tail
      · rw [leafAt_congr (mountMap_of_ne hk), if_neg (by simp [hk])]

theorem mount_eq (x : Var) :
    ∃ i p, x.segments = i :: p ∧ ∀ m, mount m x = mountMap m i p x.value :=
  ⟨_, _, (List.cons_head_tail x.segments_ne_nil).symm, fun _ => rfl⟩

theorem mount_comm {x y : Var} (h : Apart x.segments y.segments) (m : Structure) :
    mount (mount m x) y = mount (mount m y) x := by
  obtain ⟨i, p, hx, hmountx⟩ := mount_eq x
  obtain ⟨j, q, hy, hmounty⟩ := mount_eq y
  rw [hx, hy] at h
  rw [hmountx, hmounty, hmountx, hmounty, mountMap_comm h]

theorem leafAt_mountAll {vars : List Var}
    (h : vars.Pairwise fun x y => Apart x.segments y.segments) (path : List String) (v : String) :
    leafAt (mountAll vars) path = some v ↔ ∃ x ∈ vars, x.segments = path ∧ x.value = v := by
  induction vars using List.reverseRecOn generalizing path v with
  | nil => simp [mountAll]
  | append_singleton vars x ih =>
    obtain ⟨hvars, -, hx⟩ := List.pairwise_append.1 h
    obtain ⟨i, p, hsegments, hmount⟩ := mount_eq x
    have happart : ∀ path a, leafAt (mountAll vars) path = some a → Apart (i :: p) path := by
      intro path a ha
      obtain ⟨y, hy, rfl, -⟩ := (ih hvars path a).1 ha
      rw [← hsegments]
      exact (hx y hy x List.mem_cons_self).symm
    have hlast : mountAll (vars ++ [x]) = mountMap (mountAll vars) i p x.value := by
      rw [← hmount]
      simp [mountAll]
    rw [hlast, leafAt_mountMap happart, ← hsegments]
    by_cases hpath : path = x.segments
    · subst hpath
      have hnew : ∀ y ∈ vars, y.segments ≠ x.segments := fun y hy heq =>
        (hx y hy x List.mem_cons_self).1 (heq ▸ List.prefix_refl _)
      simp only [if_true, Option.some.injEq, List.mem_append, List.mem_singleton]
      refine ⟨fun hv => ⟨x, Or.inr rfl, rfl, hv⟩, ?_⟩
      rintro ⟨y, hy | rfl, hsame, hv⟩
      · exact absurd hsame (hnew y hy)
      · exact hv
    · rw [if_neg hpath, ih hvars]
      simp [Ne.symm hpath, or_and_right, exists_or]

theorem mountAll_perm {vars vars' : List Var}
    (h : vars.Pairwise fun x y => Apart x.segments y.segments) (hperm : vars'.Perm vars) :
    mountAll vars' = mountAll vars := by
  have : Std.Symm fun x y : Var => Apart x.segments y.segments := ⟨fun _ _ => Apart.symm⟩
  refine (hperm.symm.foldl_eq' (fun x hx y hy m => ?_) empty).symm
  by_cases hxy : x = y
  · rw [hxy]
  · exact mount_comm (h.forall hx hy hxy) m

section Environ

/-- The variable as `os.Environ` lists it. -/
def Var.entry (x : Var) : String := x.name ++ "=" ++ x.value

/-- A variable that `loadENVToJsonStructure` reads: the text may stand in its value. -/
def Var.Read (x : Var) : Prop := EnvPrefix.toList <:+: x.entry.toList

instance (x : Var) : Decidable x.Read := inferInstanceAs (Decidable (_ <:+: _))

theorem splitPair_entry {x : Var} (h : '=' ∉ x.name.toList) : splitPair x.entry = some x := by
  have hname : ∀ c ∈ x.name.toList, decide (c ≠ '=') = true := fun c hc =>
    decide_eq_true fun heq => h (heq ▸ hc)
  have hentry : x.entry.toList = x.name.toList ++ '=' :: x.value.toList := by
    simp [Var.entry]
  unfold splitPair
  rw [hentry, List.dropWhile_append_of_pos hname, List.takeWhile_append_of_pos hname]
  simp

theorem loadEntry_entry {x : Var} (h : '=' ∉ x.name.toList) (m : Structure) :
    loadEntry m x.entry = some (if x.Read then mount m x else m) := by
  unfold loadEntry
  rw [splitPair_entry h]
  by_cases hread : x.Read
  · rw [if_pos hread]
    exact if_pos hread
  · rw [if_neg hread]
    exact if_neg hread

/-- The variables that are read are mounted. -/
theorem loadENVToJsonStructure_eq {vars : List Var} (h : ∀ x ∈ vars, '=' ∉ x.name.toList) :
    loadENVToJsonStructure (vars.map Var.entry) = some (mountAll (vars.filter (·.Read))) := by
  have hfrom : ∀ m, (vars.map Var.entry).foldlM loadEntry m =
      some ((vars.filter (·.Read)).foldl mount m) := by
    induction vars with
    | nil => exact fun _ => rfl
    | cons x vars ih =>
      obtain ⟨hx, hvars⟩ := List.forall_mem_cons.1 h
      intro m
      rw [List.map_cons, List.foldlM_cons, loadEntry_entry hx]
      by_cases hread : x.Read
      · rw [if_pos hread, List.filter_cons_of_pos (by simpa using hread)]
        exact ih hvars (mount m x)
      · rw [if_neg hread, List.filter_cons_of_neg (by simpa using hread)]
        exact ih hvars m
  exact hfrom empty

/-- The structure that is loaded does not depend on the order in which the environment is listed. -/
theorem loadENVToJsonStructure_perm {vars vars' : List Var} (hperm : vars'.Perm vars)
    (hnames : ∀ x ∈ vars, '=' ∉ x.name.toList)
    (h : (vars.filter (·.Read)).Pairwise fun x y => Apart x.segments y.segments) :
    loadENVToJsonStructure (vars'.map Var.entry) = loadENVToJsonStructure (vars.map Var.entry) := by
  have hnames' : ∀ x ∈ vars', '=' ∉ x.name.toList := fun x hx => hnames x (hperm.mem_iff.1 hx)
  rw [loadENVToJsonStructure_eq hnames, loadENVToJsonStructure_eq hnames',
    mountAll_perm h (hperm.filter _)]

end Environ

/-- Variables none of whose names continues another one are mounted to the same structure in any
order, and the structure holds their values and no others. -/
theorem mounted_in_any_order {vars : List Var}
    (h : vars.Pairwise fun x y => Apart x.segments y.segments) :
    (∀ vars' : List Var, vars'.Perm vars → mountAll vars' = mountAll vars) ∧
      ∀ path v, leafAt (mountAll vars) path = some v ↔
        ∃ x ∈ vars, x.segments = path ∧ x.value = v :=
  ⟨fun _ => mountAll_perm h, leafAt_mountAll h⟩

/-- Three settings of a relayer, two of them below one key. -/
def settings : List Var :=
  [⟨"SYG_RELAYER_ID", "1"⟩, ⟨"SYG_CHAINS", "[]"⟩, ⟨"SYG_RELAYER_ENV", "TEST"⟩]

theorem mounted_in_any_order_settings :
    mountAll settings.reverse = mountAll settings ∧
      leafAt (mountAll settings) ["SYG", "RELAYER", "ENV"] = some "TEST" := by
  have h : settings.Pairwise fun x y => Apart x.segments y.segments := by decide
  obtain ⟨hsame, hvalues⟩ := mounted_in_any_order h
  exact ⟨hsame _ (List.reverse_perm _), (hvalues _ _).2 ⟨⟨"SYG_RELAYER_ENV", "TEST"⟩, by decide⟩⟩

end Sygma.Env
