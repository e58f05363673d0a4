import Mathlib.Data.BitVec
import SygmaRelayer.Lib.Bytes

/-! Types of contract arguments and their values. A type says which values it has, so that only
those can be packed. How they are packed is left to a codec, of which no more is known than that a
packed value unpacks to itself. -/

namespace Abi

mutual

/-- The types in use; `string` is packed as `bytes`. A tuple has a first element. -/
inductive Ty
  | uint (bits : ℕ) (h : bits ≤ 256)
  | fixedBytes (size : ℕ) (h : size ≤ 32)
  | bytes
  | slice (elem : Ty)
  | tuple (first : Ty) (rest : Tys)

/-- The elements of a tuple, or the arguments of a method. -/
inductive Tys
  | nil
  | cons (first : Ty) (rest : Tys)

end

/-! The widths in use. -/

theorem bits8 : 8 ≤ 256 := by decide

theorem bits64 : 64 ≤ 256 := by decide

theorem bits256 : 256 ≤ 256 := Nat.le_refl 256

theorem size32 : 32 ≤ 32 := Nat.le_refl 32

/-- A byte array. -/
abbrev FixedBytes (size : ℕ) := { bytes : List UInt8 // bytes.length = size }

mutual

@[reducible]
def Ty.Val : Ty → Type
  | .uint bits _ => BitVec bits
  | .fixedBytes size _ => FixedBytes size
  | .bytes => List UInt8
  | .slice elem => List elem.Val
  | .tuple first rest => first.Val × rest.Val

@[reducible]
def Tys.Val : Tys → Type
  | .nil => Unit
  | .cons first rest => first.Val × rest.Val

end

/-- A number in 32 bytes. -/
def word (n : ℕ) : List UInt8 := Bytes.leftPad (Bytes.ofNat (n % 2 ^ 256)) 32

@[simp] theorem length_word (n : ℕ) : (word n).length = 32 := by
  have hle : (Bytes.ofNat (n % 2 ^ 256)).length ≤ 32 :=
    Bytes.length_ofNat_le.2 (Nat.mod_lt _ (by decide))
  rw [word, Bytes.leftPad, List.length_leftpad, max_eq_left hle]

theorem toNat_word {n : ℕ} (h : n < 2 ^ 256) : Bytes.toNat (word n) = n := by
  rw [word, Bytes.toNat_leftPad, Bytes.toNat_ofNat, Nat.mod_eq_of_lt h]

/-! ### Codecs -/

/-- Functions that pack and unpack arguments. Offsets and lengths are `int`s, so that nothing is
asked of a value that does not fit. -/
structure Codec (args : Tys) where
  pack : args.Val → List UInt8
  unpackValues : List UInt8 → Except String args.Val
  unpackValues_pack : ∀ v, (pack v).length < 2 ^ 63 → unpackValues (pack v) = .ok v

namespace Codec

variable {args : Tys} (codec : Codec args)

/-- What unpacks from bytes in memory fits when it is packed again. -/
def Repacks : Prop :=
  ∀ data v, codec.unpackValues data = .ok v → data.length < 2 ^ 48 → (codec.pack v).length < 2 ^ 63

variable {codec}

theorem pack_inj {v v' : args.Val} (hfits : (codec.pack v).length < 2 ^ 63)
    (heq : codec.pack v = codec.pack v') : v = v' := by
  have hv' := codec.unpackValues_pack v' (heq ▸ hfits)
  rw [← heq, codec.unpackValues_pack v hfits, Except.ok.injEq] at hv'
  exact hv'

end Codec

end Abi
