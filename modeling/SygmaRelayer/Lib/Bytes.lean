import Mathlib.Data.Nat.Digits.Lemmas

/-! Numbers as big-endian byte strings: reading a string of any length, writing a number
without leading zeros, and padding it to a width. A string of a given width is
determined by the number it spells. -/

namespace Bytes

/-- The number a byte string spells, most significant byte first. -/
def toNat (bytes : List UInt8) : ℕ := bytes.foldl (fun n b => n * 256 + b.toNat) 0

/-- The byte string of a number, without leading zeros. -/
def ofNat (n : ℕ) : List UInt8 := ((Nat.digits 256 n).map UInt8.ofNat).reverse

/-- Zeros on the left up to the width; a longer string is left alone. -/
def leftPad (bytes : List UInt8) (width : ℕ) : List UInt8 := bytes.leftpad width 0

/-- The number a byte string spells in two's complement. -/
def toInt (bytes : List UInt8) : ℤ :=
  if 2 * toNat bytes < 256 ^ bytes.length then toNat bytes
  else toNat bytes - 256 ^ bytes.length

theorem toNat_append_singleton (bytes : List UInt8) (b : UInt8) :
    toNat (bytes ++ [b]) = toNat bytes * 256 + b.toNat := by
  simp [toNat]

theorem toNat_eq_ofDigits (bytes : List UInt8) :
    toNat bytes = Nat.ofDigits 256 (bytes.reverse.map UInt8.toNat) := by
  induction bytes using List.reverseRecOn with
  | nil => rfl
  | append_singleton bytes b ih =>
    rw [toNat_append_singleton, ih, List.reverse_append, List.reverse_singleton, List.map_append,
      List.map_singleton, List.singleton_append, Nat.ofDigits_cons]
    ring

theorem toNat_lt (bytes : List UInt8) : toNat bytes < 256 ^ bytes.length := by
  rw [toNat_eq_ofDigits]
  refine lt_of_lt_of_eq (Nat.ofDigits_lt_base_pow_length (by decide) ?_) (by simp)
  intro d hd
  obtain ⟨b, -, rfl⟩ := List.mem_map.1 hd
  exact b.toNat_lt

theorem toNat_inj {a b : List UInt8} (hlen : a.length = b.length) (h : toNat a = toNat b) :
    a = b := by
  rw [toNat_eq_ofDigits, toNat_eq_ofDigits] at h
  have hdigits : ∀ l : List UInt8, ∀ d ∈ l.reverse.map UInt8.toNat, d < 256 := by
    intro l d hd
    obtain ⟨x, -, rfl⟩ := List.mem_map.1 hd
    exact x.toNat_lt
  have hrev := Nat.ofDigits_inj_of_len_eq (by decide) (by simpa using hlen) (hdigits a) (hdigits b) h
  have hmap : a.reverse = b.reverse := List.map_injective_iff.2 (fun _ _ => UInt8.toNat.inj) hrev
  exact List.reverse_injective hmap

theorem toNat_ofNat (n : ℕ) : toNat (ofNat n) = n := by
  have hdigits : (Nat.digits 256 n).map (UInt8.toNat ∘ UInt8.ofNat) = Nat.digits 256 n := by
    refine (List.map_congr_left fun d hd => ?_).trans (List.map_id _)
    have hlt : d < 256 := Nat.digits_lt_base (by decide) hd
    exact UInt8.toNat_ofNat_of_lt' hlt
  rw [toNat_eq_ofDigits, ofNat, List.reverse_reverse, List.map_map, hdigits, Nat.ofDigits_digits]

theorem length_ofNat_le {n width : ℕ} : (ofNat n).length ≤ width ↔ n < 256 ^ width := by
  simp [ofNat, Nat.digits_length_le_iff]

theorem toNat_leftPad (bytes : List UInt8) (width : ℕ) :
    toNat (leftPad bytes width) = toNat bytes := by
  unfold leftPad List.leftpad
  induction width - bytes.length with
  | zero => simp
  | succ n ih => simpa [toNat, List.replicate_succ] using ih

theorem leftPad_of_le {bytes : List UInt8} {width : ℕ} (h : width ≤ bytes.length) :
    leftPad bytes width = bytes := by
  simp [leftPad, List.leftpad, Nat.sub_eq_zero_of_le h]

/-- A string of the given width is what its number is written as. -/
theorem leftPad_ofNat_toNat {bytes : List UInt8} {width : ℕ} (h : bytes.length = width) :
    leftPad (ofNat (toNat bytes)) width = bytes := by
  have hle : (ofNat (toNat bytes)).length ≤ width := length_ofNat_le.2 (h ▸ toNat_lt bytes)
  refine toNat_inj ?_ (by rw [toNat_leftPad, toNat_ofNat])
  rw [leftPad, List.length_leftpad, max_eq_left hle, h]

/-- A byte is put together from its two hexadecimal digits. -/
theorem sixteen_mul_add_digits (b : UInt8) :
    16 * UInt8.ofNat (b.toNat / 16) + UInt8.ofNat (b.toNat % 16) = b := by
  have hb := b.toNat_lt
  apply UInt8.toNat_inj.1
  rw [UInt8.toNat_add, UInt8.toNat_mul, UInt8.toNat_ofNat', UInt8.toNat_ofNat',
    show UInt8.toNat 16 = 16 from rfl]
  omega

/-- Small numbers read the same in two's complement. -/
theorem toInt_of_lt {bytes : List UInt8} (h : 2 * toNat bytes < 256 ^ bytes.length) :
    toInt bytes = toNat bytes := if_pos h

end Bytes
