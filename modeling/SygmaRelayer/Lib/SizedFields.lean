import SygmaRelayer.Lib.Bytes
import SygmaRelayer.Lib.Go

/-! Fields of a byte string that stand behind their length, a big-endian number of a fixed
width. A reader of a Go slice that goes by these lengths finds the fields, and its `int64`
offsets do not wrap. -/

namespace SizedFields

open Go

/-- A length in `k` bytes. -/
def word (k n : ℕ) : List UInt8 := Bytes.leftPad (Bytes.ofNat n) k

/-- A field behind its length. -/
def field (k : ℕ) (x : List UInt8) : List UInt8 := word k x.length ++ x

theorem length_word {k n : ℕ} (h : n < 256 ^ k) : (word k n).length = k := by
  rw [word, Bytes.leftPad, List.length_leftpad, max_eq_left (Bytes.length_ofNat_le.2 h)]

theorem toNat_word (k n : ℕ) : Bytes.toNat (word k n) = n := by
  rw [word, Bytes.toNat_leftPad, Bytes.toNat_ofNat]

theorem word_toNat {w : List UInt8} {k : ℕ} (h : w.length = k) : word k (Bytes.toNat w) = w :=
  Bytes.leftPad_ofNat_toNat h

/-- One byte tells a length below 256. -/
theorem word_one {n : ℕ} (h : n < 2 ^ 8) : word 1 n = [UInt8.ofNat n] := by
  have hbyte : Bytes.toNat [UInt8.ofNat n] = n := by
    simpa [Bytes.toNat] using UInt8.toNat_ofNat_of_lt' h
  conv_lhs => rw [← hbyte]
  exact word_toNat rfl

/-- What stands behind a number, as long as the number tells, is a field with it. -/
theorem drop_eq_field {l : List UInt8} {p k q : ℕ}
    (hq : q = p + k + Bytes.toNat ((l.take (p + k)).drop p)) (h : q ≤ l.length) :
    ∃ x, x.length < 256 ^ k ∧ l.drop p = field k x ++ l.drop q := by
  obtain ⟨n, hn⟩ : ∃ n, n = Bytes.toNat ((l.take (p + k)).drop p) := ⟨_, rfl⟩
  rw [← hn] at hq
  subst hq
  have hw : ((l.take (p + k)).drop p).length = k := by
    rw [List.length_drop, List.length_take]
    omega
  have hx : ((l.drop (p + k)).take n).length = n := by
    rw [List.length_take, List.length_drop]
    omega
  have hword : word k n = (l.drop p).take k := by
    rw [hn, word_toNat hw, List.take_drop]
  have hbehind : (l.drop (p + k)).take n ++ l.drop (p + k + n) = (l.drop p).drop k := by
    rw [List.drop_drop, ← List.drop_drop (i := n), List.take_append_drop]
  refine ⟨(l.drop (p + k)).take n, ?_, ?_⟩
  · calc ((l.drop (p + k)).take n).length = Bytes.toNat ((l.take (p + k)).drop p) := hx.trans hn
      _ < 256 ^ ((l.take (p + k)).drop p).length := Bytes.toNat_lt _
      _ = 256 ^ k := by rw [hw]
  · rw [field, hx, hword, List.append_assoc, hbehind, List.take_append_drop]

/-- What a reader sees of the field `x` at the offset `p`. -/
structure Reads (s : Slice UInt8) (p k : ℕ) (x : List UInt8) : Prop where
  word : s.read p (p + k : ℕ) = .ok (word k x.length)
  start : int64 (p + k) = (p + k : ℕ)
  length : int64 x.length = x.length
  finish : int64 ((p + k : ℕ) + x.length) = (p + k + x.length : ℕ)
  field : s.read (p + k : ℕ) (p + k + x.length : ℕ) = .ok x

theorem reads_field {s : Slice UInt8} {p k : ℕ} {x rest : List UInt8} (hp : p ≤ s.elems.length)
    (h : s.elems.drop p = field k x ++ rest) (hx : x.length < 256 ^ k) :
    Reads s p k x ∧ p + k + x.length ≤ s.elems.length ∧ s.elems.drop (p + k + x.length) = rest := by
  rw [field, List.append_assoc] at h
  obtain ⟨hword, hstart, hdrop⟩ := Slice.read_next hp h (by rw [length_word hx])
  obtain ⟨hfield, hfinish, hrest⟩ := Slice.read_next hstart hdrop rfl
  have hlength : x.length ≤ s.elems.length := by omega
  exact ⟨⟨hword, int64_add_of_lt (s.lt_of_le_length hstart), int64_of_lt (s.lt_of_le_length hlength),
    int64_add_of_lt (s.lt_of_le_length hfinish), hfield⟩, hfinish, hrest⟩

/-- What fits into a slice has a length of 32 bytes. -/
theorem lt_of_le_slice (s : Slice UInt8) {n : ℕ} (h : n ≤ s.elems.length) : n < 256 ^ 32 :=
  calc n < 2 ^ 63 := s.lt_of_le_length h
    _ ≤ 256 ^ 32 := by decide

/-- A length of a few bytes does not make an offset wrap, whatever it announces. -/
theorem int64_announced {s : Slice UInt8} {p q : ℕ} {w : List UInt8} (h : s.read p q = .ok w)
    (hq : q ≤ p + 4) : int64 (q + int64 (Bytes.toNat w)) = (q + Bytes.toNat w : ℕ) := by
  have hcapacity : q ≤ s.elems.length + s.spare.length := by exact_mod_cast (Slice.le_of_read h).2.2
  have hw : Bytes.toNat w ≤ 2 ^ 32 := by
    calc Bytes.toNat w ≤ 256 ^ w.length := (Bytes.toNat_lt w).le
      _ ≤ 256 ^ 4 := Nat.pow_le_pow_right (by decide) (by rw [Slice.length_of_read h]; omega)
      _ = 2 ^ 32 := by decide
  have hlt := s.lt_of_le_capacity hcapacity hw
  rw [int64_of_lt (Nat.lt_of_le_of_lt (Nat.le_add_left _ _) hlt), int64_add_of_lt hlt]

end SizedFields
