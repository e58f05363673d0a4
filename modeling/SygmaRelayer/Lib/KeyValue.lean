import Mathlib.Data.List.Induction
import SygmaRelayer.Lib.Fallible

/-! A database that is a map: a key reads as what was last written under it, and a key under which
nothing was written as an error of its own. Writes may fail. -/

namespace KeyValue

structure Db (κ ν ε : Type) where
  State : Type
  empty : State
  get : State → κ → Except ε ν
  set : State → κ → ν → Except ε State
  notFound : ε
  get_empty : ∀ k, get empty k = .error notFound
  get_set : ∀ {s s' k v}, set s k v = .ok s' → get s' k = .ok v
  get_set_of_ne : ∀ {s s' k k' v}, set s k v = .ok s' → k' ≠ k → get s' k' = get s k'

variable {κ κ' ν ε : Type}

section LastWrite

variable [DecidableEq κ] [DecidableEq κ']

/-- What the last write under the key has written. -/
def lastWrite (writes : List (κ × ν)) (k : κ) : Option ν :=
  ((writes.filter fun w => w.1 = k).getLast?).map Prod.snd

theorem lastWrite_append (writes : List (κ × ν)) (w : κ × ν) (k : κ) :
    lastWrite (writes ++ [w]) k = if k = w.1 then some w.2 else lastWrite writes k := by
  unfold lastWrite
  rw [List.filter_append]
  by_cases hk : k = w.1
  · simp [hk]
  · simp [hk, Ne.symm hk]

/-- Writes under keys that are made of others. -/
theorem lastWrite_map {key : κ → κ'} (hkey : Function.Injective key) (writes : List (κ × ν)) (k : κ) :
    lastWrite (writes.map (Prod.map key id)) (key k) = lastWrite writes k := by
  induction writes using List.reverseRecOn with
  | nil => rfl
  | append_singleton writes w ih =>
    rw [List.map_append, List.map_singleton, lastWrite_append, lastWrite_append, ih]
    simp [hkey.eq_iff]

end LastWrite

namespace Db

variable (db : Db κ ν ε)

/-- One write after the other, until one fails. -/
def setAll (s : db.State) (writes : List (κ × ν)) : Except ε db.State :=
  writes.foldlM (fun s w => db.set s w.1 w.2) s

variable {db} {s s' : db.State} {writes : List (κ × ν)}

theorem get_setAll [DecidableEq κ] (h : db.setAll s writes = .ok s') (k : κ) :
    db.get s' k = match lastWrite writes k with
      | some v => .ok v
      | none => db.get s k := by
  revert k
  refine Fallible.foldlM_ok (P := fun s' writes => ∀ k, db.get s' k = match lastWrite writes k with
    | some v => .ok v
    | none => db.get s k) (fun _ => rfl) ?_ h
  intro s₁ s₂ writes w ih hset k
  rw [lastWrite_append]
  by_cases hk : k = w.1
  · subst hk
    simp [db.get_set hset]
  · simp [db.get_set_of_ne hset hk, hk, ih]

end Db

end KeyValue
