import SygmaRelayer.Lib.AbiTypes

/-! Types of structured data and what is given as their values, before anything is made of it: a
number of any size, the text of an address. How they are hashed is left to a hasher over a hash of
texts. As long as the texts that it makes of two values do not collide, it tells the values
apart. -/

namespace TypedData

open Abi (FixedBytes)

mutual

inductive Ty
  | uint (bits : ℕ) (h : bits ≤ 256)
  | address
  | string
  | bytes32
  | bytes
  | array (elem : Ty)
  | struct (name : String) (members : Tys)

/-- The members of a struct, by their names. -/
inductive Tys
  | nil
  | cons (name : String) (first : Ty) (rest : Tys)

end

mutual

@[reducible]
def Ty.Data : Ty → Type
  | .uint _ _ => ℤ
  | .address | .string | .bytes => List UInt8
  | .bytes32 => FixedBytes 32
  | .array elem => List elem.Data
  | .struct _ members => members.Data

@[reducible]
def Tys.Data : Tys → Type
  | .nil => Unit
  | .cons _ first rest => first.Data × rest.Data

end

section

variable (addressOf : List UInt8 → List UInt8)

mutual

/-- The data are the same, except that an address may have several texts. -/
def Ty.Same : (t : Ty) → t.Data → t.Data → Prop
  | .uint _ _, n, n' => n = n'
  | .address, a, a' => addressOf a = addressOf a'
  | .string, b, b' | .bytes, b, b' => b = b'
  | .bytes32, b, b' => b = b'
  | .array elem, l, l' => List.Forall₂ elem.Same l l'
  | .struct _ members, v, v' => members.Same v v'

def Tys.Same : (ts : Tys) → ts.Data → ts.Data → Prop
  | .nil, _, _ => True
  | .cons _ first rest, v, v' => first.Same v.1 v'.1 ∧ rest.Same v.2 v'.2

end

end

/-! ### Hashers -/

section

variable (hash : List UInt8 → FixedBytes 32)

/-- No two of the texts have one hash. -/
def CollisionFree (T : List (List UInt8)) : Prop := ∀ a ∈ T, ∀ b ∈ T, hash a = hash b → a = b

instance (T : List (List UInt8)) : Decidable (CollisionFree hash T) :=
  inferInstanceAs (Decidable (∀ a ∈ T, ∀ b ∈ T, hash a = hash b → a = b))

variable {hash}

theorem CollisionFree.mono {T T' : List (List UInt8)} (h : CollisionFree hash T) (hT' : T' ⊆ T) :
    CollisionFree hash T' :=
  fun a ha b hb => h a (hT' ha) b (hT' hb)

end

/-- A hash of structs. What it asks `hash` for a struct are its `queries`. -/
structure Hasher (addressOf : List UInt8 → List UInt8) where
  hash : List UInt8 → FixedBytes 32
  hashStruct : String → (members : Tys) → members.Data → Except String (FixedBytes 32)
  queries : String → (members : Tys) → members.Data → List (List UInt8)
  hashStruct_eq_iff : ∀ {name members v v' digest digest'},
    hashStruct name members v = .ok digest → hashStruct name members v' = .ok digest' →
    CollisionFree hash (queries name members v ++ queries name members v') →
    (digest = digest' ↔ members.Same addressOf v v')

end TypedData
