import SygmaRelayer.Lib.Bytes

/-! Counter mode of a block cipher with blocks of 16 bytes, as `cipher.NewCTR` has it. The cipher
enters only through the keystream: byte `n` of a text is added to byte `n` of the encrypted
counters, so that adding the keystream twice changes nothing, whatever the cipher. -/

namespace CounterMode

variable (encrypt : List UInt8 → List UInt8)

/-- The block that is encrypted for the `k`th block of a text; the counter wraps. -/
def counterBlock (iv : List UInt8) (k : ℕ) : List UInt8 :=
  Bytes.leftPad (Bytes.ofNat ((Bytes.toNat iv + k) % 2 ^ 128)) 16

def keystream (iv : List UInt8) (n : ℕ) : UInt8 :=
  (encrypt (counterBlock iv (n / 16))).getD (n % 16) 0

/-- `XORKeyStream` -/
def xorKeyStream (iv src : List UInt8) : List UInt8 :=
  src.mapIdx fun n b => b ^^^ keystream encrypt iv n

@[simp] theorem length_xorKeyStream (iv src : List UInt8) :
    (xorKeyStream encrypt iv src).length = src.length := by
  simp [xorKeyStream]

theorem xorKeyStream_xorKeyStream (iv src : List UInt8) :
    xorKeyStream encrypt iv (xorKeyStream encrypt iv src) = src := by
  apply List.ext_getElem
  · simp
  · intro n _ _
    simp only [xorKeyStream, List.getElem_mapIdx, UInt8.xor_assoc, UInt8.xor_self, UInt8.xor_zero]

end CounterMode
