import Mathlib.Logic.Function.Basic

/-! Maps whose entries are values or maps again, and the values that stand at their paths. -/

namespace NestedMap

/-- What stands at a key. -/
inductive Node (κ α : Type)
  | leaf (a : α)
  | map (entries : κ → Option (Node κ α))

variable {κ α : Type}

def empty : κ → Option (Node κ α) := fun _ => none

/-- The value at the end of a path of keys, if the path ends at one. -/
def leafAt : (κ → Option (Node κ α)) → List κ → Option α
  | _, [] => none
  | m, k :: path =>
    match m k, path with
    | some (.leaf a), [] => some a
    | some (.map entries), path => leafAt entries path
    | _, _ => none

@[simp] theorem leafAt_nil (m : κ → Option (Node κ α)) : leafAt m [] = none := rfl

theorem leafAt_of_none {m : κ → Option (Node κ α)} {k : κ} (h : m k = none) (path : List κ) :
    leafAt m (k :: path) = none := by
  simp [leafAt, h]

theorem leafAt_of_leaf {m : κ → Option (Node κ α)} {k : κ} {a : α} (h : m k = some (.leaf a)) :
    leafAt m [k] = some a := by
  simp [leafAt, h]

theorem leafAt_of_map {m entries : κ → Option (Node κ α)} {k : κ} (h : m k = some (.map entries))
    (path : List κ) : leafAt m (k :: path) = leafAt entries path := by
  simp [leafAt, h]

/-- Only the entry of the first key matters. -/
theorem leafAt_congr {m m' : κ → Option (Node κ α)} {k : κ} (h : m k = m' k) (path : List κ) :
    leafAt m (k :: path) = leafAt m' (k :: path) := by
  unfold leafAt
  rw [h]

@[simp] theorem leafAt_empty (path : List κ) : leafAt (empty : κ → Option (Node κ α)) path = none := by
  cases path with
  | nil => rfl
  | cons k path => exact leafAt_of_none rfl path

end NestedMap
