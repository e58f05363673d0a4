import SygmaRelayer.Lib.AbiTypes
import SygmaRelayer.Lib.Fallible

/-! A codec of contract arguments: the contract ABI of Ethereum. A value is packed in words of 32
bytes. Values of a fixed size stand in a row, the heads; in the place of another value stands its
offset, and the value comes after the heads, among the tails. -/

namespace Abi

mutual

/-- Whether an offset stands in the place of a value. -/
def Ty.isDynamic : Ty → Bool
  | .uint .. | .fixedBytes .. => false
  | .bytes | .slice _ => true
  | .tuple first rest => first.isDynamic || rest.isDynamic

def Tys.isDynamic : Tys → Bool
  | .nil => false
  | .cons first rest => first.isDynamic || rest.isDynamic

end

mutual

/-- The size of the head. -/
def Ty.size : Ty → ℕ
  | .uint .. | .fixedBytes .. | .bytes | .slice _ => 32
  | .tuple first rest =>
    if first.isDynamic || rest.isDynamic then 32 else first.size + rest.size

def Tys.size : Tys → ℕ
  | .nil => 0
  | .cons first rest => first.size + rest.size

end

/-! ### Packing -/

def rightPad (bytes : List UInt8) (width : ℕ) : List UInt8 := bytes.rightpad width 0

/-- The heads of packed values, of which the flag tells the dynamic ones. -/
def heads (offset : ℕ) : List (Bool × List UInt8) → List UInt8
  | [] => []
  | (true, packed) :: rest => word offset ++ heads (offset + packed.length) rest
  | (false, packed) :: rest => packed ++ heads offset rest

def tails (items : List (Bool × List UInt8)) : List UInt8 :=
  items.flatMap fun item => if item.1 then item.2 else []

mutual

def Ty.pack : (t : Ty) → t.Val → List UInt8
  | .uint _ _, n => word n.toNat
  | .fixedBytes _ _, b => rightPad b.1 32
  | .bytes, b => word b.length ++ rightPad b ((b.length + 31) / 32 * 32)
  | .slice elem, l =>
    let items := l.map fun v => (elem.isDynamic, elem.pack v)
    word l.length ++ (heads (elem.size * l.length) items ++ tails items)
  | .tuple first rest, v =>
    let items := (first.isDynamic, first.pack v.1) :: rest.items v.2
    heads (first.size + rest.size) items ++ tails items

def Tys.items : (ts : Tys) → ts.Val → List (Bool × List UInt8)
  | .nil, _ => []
  | .cons first rest, v => (first.isDynamic, first.pack v.1) :: rest.items v.2

end

def Tys.pack (ts : Tys) (v : ts.Val) : List UInt8 :=
  heads ts.size (ts.items v) ++ tails (ts.items v)

/-! ### Unpacking -/

inductive Error
  | insufficient
  | offset
  | int64
  | length
  | badUint
deriving DecidableEq, Repr

def Error.text : Error → String
  | insufficient => "the word lies beyond the end"
  | offset => "the offset points beyond the end"
  | int64 => "an offset or a length does not fit 63 bits"
  | length => "the contents reach beyond the end"
  | badUint => "the number does not fit its type"

def wordAt (index : ℕ) (output : List UInt8) : Except Error (FixedBytes 32) :=
  if h : index + 32 ≤ output.length then
    .ok ⟨(output.drop index).take 32, by simp; omega⟩
  else .error .insufficient

/-- Where the contents begin, and their length. -/
def lengthPrefixPointsTo (returnOutput : FixedBytes 32) (output : List UInt8) :
    Except Error (ℕ × ℕ) :=
  let offsetEnd := Bytes.toNat returnOutput.1 + 32
  if offsetEnd > output.length then .error .offset
  else if 2 ^ 63 ≤ offsetEnd then .error .int64
  else
    let length := Bytes.toNat ((output.drop (offsetEnd - 32)).take 32)
    if 2 ^ 63 ≤ offsetEnd + length then .error .int64
    else if offsetEnd + length > output.length then .error .length
    else .ok (offsetEnd, length)

def tuplePointsTo (returnOutput : FixedBytes 32) (output : List UInt8) : Except Error ℕ :=
  let offset := Bytes.toNat returnOutput.1
  if offset > output.length then .error .offset
  else if 2 ^ 63 ≤ offset then .error .int64
  else .ok offset

/-- Where the elements of a tuple begin. -/
def tupleStart (dynamic : Bool) (index : ℕ) (output : List UInt8) : Except Error ℕ := do
  let returnOutput ← wordAt index output
  if dynamic then tuplePointsTo returnOutput output else .ok index

def forEachUnpack {α : Type} (read : ℕ → Except Error α) (elemSize : ℕ) :
    ℕ → ℕ → Except Error (List α)
  | _, 0 => .ok []
  | i, size + 1 => do
    let inter ← read i
    let rest ← forEachUnpack read elemSize (i + elemSize) size
    return inter :: rest

mutual

def Ty.unpack : (t : Ty) → ℕ → List UInt8 → Except Error t.Val
  | .uint bits _, index, output => do
    let returnOutput ← wordAt index output
    let ret := Bytes.toNat returnOutput.1
    if ret < 2 ^ bits then .ok (BitVec.ofNat bits ret) else .error .badUint
  | .fixedBytes size h, index, output => do
    let returnOutput ← wordAt index output
    return ⟨returnOutput.1.take size, by rw [List.length_take, returnOutput.2]; omega⟩
  | .bytes, index, output => do
    let (start, length) ← lengthPrefixPointsTo (← wordAt index output) output
    return (output.drop start).take length
  | .slice elem, index, output => do
    let (start, size) ← lengthPrefixPointsTo (← wordAt index output) output
    if 32 * size > (output.drop start).length then .error .length
    else forEachUnpack (fun i => elem.unpack i (output.drop start)) elem.size 0 size
  | .tuple first rest, index, output => do
    let start ← tupleStart (first.isDynamic || rest.isDynamic) index output
    let v ← first.unpack 0 (output.drop start)
    let vs ← rest.unpack first.size (output.drop start)
    return (v, vs)

def Tys.unpack : (ts : Tys) → ℕ → List UInt8 → Except Error ts.Val
  | .nil, _, _ => .ok ()
  | .cons first rest, index, output => do
    let v ← first.unpack index output
    let vs ← rest.unpack (index + first.size) output
    return (v, vs)

end

def Tys.unpackValues (ts : Tys) (data : List UInt8) : Except Error ts.Val := ts.unpack 0 data

theorem rightPad_eq_append (bytes : List UInt8) (width : ℕ) :
    rightPad bytes width = bytes ++ List.replicate (width - bytes.length) 0 := rfl

/-! ### Where bytes stand -/

/-- The bytes stand in the output from the index on. -/
def At (output : List UInt8) (index : ℕ) (bytes : List UInt8) : Prop :=
  bytes <+: output.drop index

section

variable {output a b : List UInt8} {index : ℕ}

theorem at_append : At output index (a ++ b) ↔ At output index a ∧ At output (index + a.length) b := by
  constructor
  · rintro ⟨rest, h⟩
    refine ⟨⟨b ++ rest, by rw [← h, List.append_assoc]⟩, ⟨rest, ?_⟩⟩
    rw [← List.drop_drop, ← h, List.append_assoc, List.drop_left]
  · rintro ⟨⟨rest, h⟩, hb⟩
    unfold At at hb ⊢
    rw [← List.drop_drop, ← h, List.drop_left] at hb
    rw [← h]
    exact (List.prefix_append_right_inj a).2 hb

theorem at_drop {start : ℕ} : At (output.drop start) index a ↔ At output (start + index) a := by
  rw [At, At, List.drop_drop]

theorem At.take (h : At output index a) : (output.drop index).take a.length = a :=
  List.prefix_iff_eq_take.1 h |>.symm

theorem At.le (h : At output index a) (ha : 0 < a.length) : index + a.length ≤ output.length := by
  have hle := h.length_le
  rw [List.length_drop] at hle
  omega

theorem wordAt_of_at (h : At output index a) (ha : a.length = 32) :
    wordAt index output = .ok ⟨a, ha⟩ := by
  have hle := h.le (by omega)
  have htake := h.take
  rw [ha] at hle htake
  simp only [wordAt, dif_pos hle, htake]

theorem lengthPrefixPointsTo_of_at {offset length : ℕ} (hlen : output.length < 2 ^ 63)
    (h : At output offset (word length ++ a)) (ha : length ≤ a.length) :
    lengthPrefixPointsTo ⟨word offset, length_word offset⟩ output = .ok (offset + 32, length) := by
  have hle := h.le (by simp)
  rw [List.length_append, length_word] at hle
  have hword := (at_append.1 h).1.take
  rw [length_word] at hword
  unfold lengthPrefixPointsTo
  dsimp only
  rw [toNat_word (by omega), Nat.add_sub_cancel, hword, toNat_word (by omega), if_neg (by omega),
    if_neg (by omega), if_neg (by omega), if_neg (by omega)]

end

/-! ### Sizes -/

theorem Ty.le_size : ∀ t : Ty, 32 ≤ t.size
  | .uint .. | .fixedBytes .. | .bytes | .slice _ => by simp [Ty.size]
  | .tuple first rest => by
    have hfirst := first.le_size
    rw [Ty.size]
    split_ifs <;> omega

/-- The size of a head. -/
def headSize (item : Bool × List UInt8) : ℕ := if item.1 then 32 else item.2.length

theorem length_heads (offset : ℕ) (items : List (Bool × List UInt8)) :
    (heads offset items).length = (items.map headSize).sum := by
  induction items generalizing offset with
  | nil => rfl
  | cons item items ih =>
    obtain ⟨dynamic, packed⟩ := item
    cases dynamic <;> simp [heads, headSize, ih]

theorem tails_eq_nil {items : List (Bool × List UInt8)} (h : ∀ item ∈ items, item.1 = false) :
    tails items = [] := by
  rw [tails, List.flatMap_eq_nil_iff]
  intro item hitem
  rw [h item hitem]
  rfl

theorem Tys.static_of_mem {item : Bool × List UInt8} : ∀ {ts : Tys} {v : ts.Val},
    ts.isDynamic = false → item ∈ ts.items v → item.1 = false
  | .nil, _, _, hitem => by simp [Tys.items] at hitem
  | .cons first rest, v, hts, hitem => by
    rw [Tys.isDynamic, Bool.or_eq_false_iff] at hts
    rw [Tys.items, List.mem_cons] at hitem
    rcases hitem with rfl | hitem
    · exact hts.1
    · exact Tys.static_of_mem hts.2 hitem

mutual

theorem Ty.headSize_pack : ∀ (t : Ty) (v : t.Val), headSize (t.isDynamic, t.pack v) = t.size
  | .uint .., n => by simp [headSize, Ty.isDynamic, Ty.pack, Ty.size]
  | .fixedBytes size h, b => by
    have hb := b.2
    simp only [headSize, Ty.isDynamic, Ty.pack, Ty.size, rightPad_eq_append]
    simp
    omega
  | .bytes, _ | .slice _, _ => by simp [headSize, Ty.isDynamic, Ty.size]
  | .tuple first rest, v => by
    rw [Ty.isDynamic, Ty.size, headSize]
    split_ifs with h
    · rfl
    · simp only [Bool.not_eq_true, Bool.or_eq_false_iff] at h
      have hstatic : ∀ item ∈ (first.isDynamic, first.pack v.1) :: rest.items v.2, item.1 = false := by
        intro item hitem
        rcases List.mem_cons.1 hitem with rfl | hitem
        · exact h.1
        · exact Tys.static_of_mem h.2 hitem
      rw [Ty.pack, tails_eq_nil hstatic, List.append_nil, length_heads, List.map_cons, List.sum_cons,
        first.headSize_pack, rest.sum_headSize]

theorem Tys.sum_headSize : ∀ (ts : Tys) (v : ts.Val), ((ts.items v).map headSize).sum = ts.size
  | .nil, _ => rfl
  | .cons first rest, v => by
    rw [Tys.items, List.map_cons, List.sum_cons, first.headSize_pack, rest.sum_headSize, Tys.size]

end

/-- A packed value has at least one word. -/
theorem Ty.le_length_pack (t : Ty) (v : t.Val) : 32 ≤ (t.pack v).length := by
  have hsize := t.headSize_pack v
  have hle := t.le_size
  rw [headSize] at hsize
  split_ifs at hsize with h
  · cases t with
    | uint | fixedBytes => simp [Ty.isDynamic] at h
    | bytes | slice => simp [Ty.pack]
    | tuple first rest =>
      have hfirst := first.le_size
      rw [Ty.pack, List.length_append, length_heads, List.map_cons, List.sum_cons,
        first.headSize_pack]
      omega
  · exact hle.trans_eq hsize.symm

/-! ### Round trip -/

theorem at_heads_cons {output : List UInt8} {index offset : ℕ} {item : Bool × List UInt8}
    {items : List (Bool × List UInt8)} (hheads : At output index (heads offset (item :: items)))
    (htails : At output offset (tails (item :: items))) :
    (At output index (heads offset [item]) ∧ At output offset (tails [item])) ∧
      ∃ offset', At output (index + headSize item) (heads offset' items) ∧
        At output offset' (tails items) := by
  obtain ⟨dynamic, packed⟩ := item
  cases dynamic with
  | true =>
    have hcons : tails ((true, packed) :: items) = packed ++ tails items := rfl
    rw [heads, at_append, length_word] at hheads
    rw [hcons, at_append] at htails
    exact ⟨⟨by simpa [heads] using hheads.1, by simpa [tails] using htails.1⟩, _, hheads.2, htails.2⟩
  | false =>
    have hcons : tails ((false, packed) :: items) = tails items := rfl
    rw [heads, at_append] at hheads
    exact ⟨⟨by simpa [heads] using hheads.1, by simp [tails, At]⟩, _, hheads.2, hcons ▸ htails⟩

theorem at_heads_static {output packed : List UInt8} {index offset : ℕ} :
    At output index (heads offset [(false, packed)]) ↔ At output index packed := by
  simp [heads]

theorem at_heads_dynamic {output packed : List UInt8} {index offset : ℕ} :
    At output index (heads offset [(true, packed)]) ↔ At output index (word offset) := by
  simp [heads]

theorem at_tails_dynamic {output packed : List UInt8} {offset : ℕ} :
    At output offset (tails [(true, packed)]) ↔ At output offset packed := by
  simp [tails]

theorem tupleStart_of_at {dynamic : Bool} {output packed : List UInt8} {index offset : ℕ}
    (hlen : output.length < 2 ^ 63) (hpacked : 32 ≤ packed.length)
    (hhead : At output index (heads offset [(dynamic, packed)]))
    (htail : At output offset (tails [(dynamic, packed)])) :
    ∃ start, tupleStart dynamic index output = .ok start ∧ At output start packed := by
  cases dynamic with
  | true =>
    rw [at_heads_dynamic] at hhead
    rw [at_tails_dynamic] at htail
    have hle := htail.le (by omega)
    refine ⟨offset, ?_, htail⟩
    rw [tupleStart, wordAt_of_at hhead (length_word _), Fallible.bind_ok, if_pos rfl, tuplePointsTo]
    dsimp only
    rw [toNat_word (by omega), if_neg (by omega), if_neg (by omega)]
  | false =>
    rw [at_heads_static] at hhead
    have hle := hhead.le (by omega)
    refine ⟨index, ?_, hhead⟩
    rw [tupleStart, wordAt, dif_pos (by omega), Fallible.bind_ok]
    rfl

/-- The loop over the elements of a slice, for a type whose values are read where they stand. -/
theorem forEachUnpack_at {t : Ty} {output : List UInt8}
    (ht : ∀ v index offset, At output index (heads offset [(t.isDynamic, t.pack v)]) →
      At output offset (tails [(t.isDynamic, t.pack v)]) → t.unpack index output = .ok v)
    (l : List t.Val) (index offset : ℕ)
    (hheads : At output index (heads offset (l.map fun v => (t.isDynamic, t.pack v))))
    (htails : At output offset (tails (l.map fun v => (t.isDynamic, t.pack v)))) :
    forEachUnpack (fun i => t.unpack i output) t.size index l.length = .ok l := by
  induction l generalizing index offset with
  | nil => rfl
  | cons v l ih =>
    rw [List.map_cons] at hheads htails
    obtain ⟨⟨hhead, htail⟩, offset', hheads', htails'⟩ := at_heads_cons hheads htails
    rw [t.headSize_pack] at hheads'
    rw [List.length_cons, forEachUnpack, ht v index offset hhead htail, ih _ _ hheads' htails']
    rfl

theorem sum_headSize_map (t : Ty) (l : List t.Val) :
    ((l.map fun v => (t.isDynamic, t.pack v)).map headSize).sum = t.size * l.length := by
  induction l with
  | nil => rfl
  | cons v l ih =>
    rw [List.map_cons, List.map_cons, List.sum_cons, t.headSize_pack, ih, List.length_cons]
    ring

/-- What stands after the heads of a row. -/
theorem at_layout {output : List UInt8} {start : ℕ} {items : List (Bool × List UInt8)}
    (h : At output start (heads (items.map headSize).sum items ++ tails items)) :
    At (output.drop start) 0 (heads (items.map headSize).sum items) ∧
      At (output.drop start) (items.map headSize).sum (tails items) := by
  rw [at_append, length_heads] at h
  exact ⟨at_drop.2 h.1, at_drop.2 h.2⟩

mutual

/-- A value is read from its head and its tail, wherever they stand. -/
theorem Ty.unpack_at : ∀ (t : Ty) (v : t.Val) {output : List UInt8} {index offset : ℕ},
    output.length < 2 ^ 63 → At output index (heads offset [(t.isDynamic, t.pack v)]) →
      At output offset (tails [(t.isDynamic, t.pack v)]) → t.unpack index output = .ok v
  | .uint bits h, n, output, index, offset, _, hhead, _ => by
    rw [Ty.isDynamic, at_heads_static, Ty.pack] at hhead
    have hn := n.isLt
    have hle : 2 ^ bits ≤ 2 ^ 256 := Nat.pow_le_pow_right (by decide) h
    rw [Ty.unpack, wordAt_of_at hhead (length_word _)]
    simp [bind, Except.bind, toNat_word (hn.trans_le hle), hn]
  | .fixedBytes size h, b, output, index, offset, _, hhead, _ => by
    rw [Ty.isDynamic, at_heads_static, Ty.pack, rightPad_eq_append, b.2] at hhead
    rw [Ty.unpack, wordAt_of_at hhead (by simp [b.2]; omega)]
    refine congrArg Except.ok (Subtype.ext ?_)
    exact List.take_left' b.2
  | .bytes, b, output, index, offset, hlen, hhead, htail => by
    rw [Ty.isDynamic, at_heads_dynamic] at hhead
    rw [Ty.isDynamic, at_tails_dynamic, Ty.pack, rightPad_eq_append] at htail
    have hcontents := (at_append.1 (at_append.1 htail).2).1.take
    rw [length_word] at hcontents
    rw [Ty.unpack, wordAt_of_at hhead (length_word _), Fallible.bind_ok,
      lengthPrefixPointsTo_of_at hlen htail (by simp), Fallible.bind_ok]
    exact congrArg Except.ok hcontents
  | .slice elem, l, output, index, offset, hlen, hhead, htail => by
    rw [Ty.isDynamic, at_heads_dynamic] at hhead
    rw [Ty.isDynamic, at_tails_dynamic, Ty.pack] at htail
    rw [← sum_headSize_map] at htail
    have hrow := (at_append.1 htail).2
    rw [length_word] at hrow
    obtain ⟨hheads, htails⟩ := at_layout hrow
    have hsize : 32 * l.length ≤ ((l.map fun v => (elem.isDynamic, elem.pack v)).map headSize).sum := by
      rw [sum_headSize_map]
      exact Nat.mul_le_mul_right _ elem.le_size
    have hrest := hheads.length_le
    rw [length_heads, List.drop_zero] at hrest
    rw [Ty.unpack, wordAt_of_at hhead (length_word _), Fallible.bind_ok,
      lengthPrefixPointsTo_of_at hlen htail (by rw [List.length_append, length_heads]; omega), Fallible.bind_ok]
    dsimp only
    rw [if_neg (by omega)]
    exact forEachUnpack_at (fun v i o hh ht => elem.unpack_at v
      (by rw [List.length_drop]; omega) hh ht) l 0 _ hheads htails
  | .tuple first rest, v, output, index, offset, hlen, hhead, htail => by
    set items := (first.isDynamic, first.pack v.1) :: rest.items v.2 with hitems
    have hsum : (items.map headSize).sum = first.size + rest.size := by
      rw [hitems, List.map_cons, List.sum_cons, first.headSize_pack, rest.sum_headSize]
    have hpack : Ty.pack (.tuple first rest) v =
        heads (items.map headSize).sum items ++ tails items := by rw [hsum, Ty.pack]
    obtain ⟨start, hstart, hrow⟩ :=
      tupleStart_of_at hlen (Ty.le_length_pack (.tuple first rest) v) hhead htail
    rw [hpack] at hrow
    obtain ⟨hheads, htails⟩ := at_layout hrow
    obtain ⟨⟨hhead', htail'⟩, offset', hheads', htails'⟩ := at_heads_cons hheads htails
    rw [first.headSize_pack, zero_add] at hheads'
    have hlen' : (output.drop start).length < 2 ^ 63 := by
      rw [List.length_drop]
      omega
    rw [Ty.isDynamic] at hstart
    rw [Ty.unpack, hstart, Fallible.bind_ok, first.unpack_at v.1 hlen' hhead' htail', Fallible.bind_ok,
      rest.unpack_at v.2 hlen' hheads' htails']
    rfl

theorem Tys.unpack_at : ∀ (ts : Tys) (v : ts.Val) {output : List UInt8} {index offset : ℕ},
    output.length < 2 ^ 63 → At output index (heads offset (ts.items v)) →
      At output offset (tails (ts.items v)) → ts.unpack index output = .ok v
  | .nil, _, _, _, _, _, _, _ => rfl
  | .cons first rest, v, output, index, offset, hlen, hheads, htails => by
    rw [Tys.items] at hheads htails
    obtain ⟨⟨hhead, htail⟩, offset', hheads', htails'⟩ := at_heads_cons hheads htails
    rw [first.headSize_pack] at hheads'
    rw [Tys.unpack, first.unpack_at v.1 hlen hhead htail, rest.unpack_at v.2 hlen hheads' htails']
    rfl

end

/-- Packed arguments unpack to themselves, whatever comes after them. -/
theorem Tys.unpackValues_pack (ts : Tys) (v : ts.Val) (hlen : (ts.pack v).length < 2 ^ 63) :
    ts.unpackValues (ts.pack v) = .ok v := by
  have hrow : At (ts.pack v) 0 (ts.pack v) := List.prefix_rfl
  rw [Tys.pack, ← ts.sum_headSize v] at hrow
  obtain ⟨hheads, htails⟩ := at_layout hrow
  rw [ts.sum_headSize v] at hheads htails
  exact ts.unpack_at v hlen hheads htails

theorem mapError_eq_ok {ε ε' α : Type} {f : ε → ε'} {r : Except ε α} {a : α} :
    r.mapError f = .ok a ↔ r = .ok a := by
  cases r <;> simp [Except.mapError]

def Tys.codec (ts : Tys) : Codec ts where
  pack := ts.pack
  unpackValues data := (ts.unpackValues data).mapError Error.text
  unpackValues_pack v hlen := mapError_eq_ok.2 (ts.unpackValues_pack v hlen)

/-- The input of a call: the arguments behind the selector of the method. -/
def Tys.callCodec (ts : Tys) (selector : FixedBytes 4) : Codec ts where
  pack v := selector.1 ++ ts.pack v
  unpackValues data := (ts.unpackValues (data.drop 4)).mapError Error.text
  unpackValues_pack v hlen := by
    rw [List.length_append] at hlen
    rw [List.drop_left' selector.2]
    exact mapError_eq_ok.2 (ts.unpackValues_pack v (by omega))

/-! ### How much is unpacked

Offsets may point to the same contents, so that values take more room when they are packed again.
Each of them is no longer than what it was unpacked from. -/

theorem Tys.unpack_cons_eq_ok {first : Ty} {rest : Tys} {index : ℕ} {output : List UInt8}
    {v : (Tys.cons first rest).Val} : (Tys.cons first rest).unpack index output = .ok v ↔
      first.unpack index output = .ok v.1 ∧ rest.unpack (index + first.size) output = .ok v.2 := by
  obtain ⟨a, b⟩ := v
  rw [Tys.unpack]
  simp only [Fallible.bind_eq_ok]
  constructor
  · rintro ⟨a', ha, b', hb, heq⟩
    cases heq
    exact ⟨ha, hb⟩
  · rintro ⟨ha, hb⟩
    exact ⟨a, ha, b, hb, rfl⟩

theorem Tys.length_pack (ts : Tys) (v : ts.Val) :
    (ts.pack v).length = ts.size + (tails (ts.items v)).length := by
  rw [Tys.pack, List.length_append, length_heads, ts.sum_headSize]

theorem lengthPrefixPointsTo_le {returnOutput : FixedBytes 32} {output : List UInt8}
    {start length : ℕ} (h : lengthPrefixPointsTo returnOutput output = .ok (start, length)) :
    start + length ≤ output.length := by
  unfold lengthPrefixPointsTo at h
  dsimp only at h
  split_ifs at h
  cases h
  omega

theorem length_forEachUnpack {α : Type} {read : ℕ → Except Error α} {elemSize index size : ℕ}
    {l : List α} (h : forEachUnpack read elemSize index size = .ok l) : l.length = size := by
  induction size generalizing index l with
  | zero =>
    cases h
    rfl
  | succ size ih =>
    obtain ⟨inter, -, h⟩ := Fallible.bind_eq_ok.1 h
    obtain ⟨rest, hrest, h⟩ := Fallible.bind_eq_ok.1 h
    cases h
    rw [List.length_cons, ih hrest]

theorem length_unpack_bytes {index : ℕ} {output b : List UInt8}
    (h : Ty.bytes.unpack index output = .ok b) : b.length ≤ output.length := by
  rw [Ty.unpack] at h
  obtain ⟨returnOutput, -, h⟩ := Fallible.bind_eq_ok.1 h
  obtain ⟨⟨start, length⟩, hpoints, h⟩ := Fallible.bind_eq_ok.1 h
  cases h
  have hle := lengthPrefixPointsTo_le hpoints
  rw [List.length_take]
  omega

theorem length_unpack_slice {elem : Ty} {index : ℕ} {output : List UInt8} {l : List elem.Val}
    (h : (Ty.slice elem).unpack index output = .ok l) : 32 * l.length ≤ output.length := by
  rw [Ty.unpack] at h
  obtain ⟨returnOutput, -, h⟩ := Fallible.bind_eq_ok.1 h
  obtain ⟨⟨start, size⟩, -, h⟩ := Fallible.bind_eq_ok.1 h
  dsimp only at h
  split_ifs at h with hle
  rw [length_forEachUnpack h]
  rw [List.length_drop] at hle
  omega

theorem length_pack_bytes_le (b : List UInt8) : (Ty.bytes.pack b).length ≤ b.length + 64 := by
  rw [Ty.pack, List.length_append, length_word, rightPad_eq_append, List.length_append,
    List.length_replicate]
  omega

theorem length_pack_uints (bits : ℕ) (h : bits ≤ 256) (l : List (BitVec bits)) :
    ((Ty.slice (.uint bits h)).pack l).length = 32 * l.length + 32 := by
  have hstatic : ∀ item ∈ l.map fun v => ((Ty.uint bits h).isDynamic, (Ty.uint bits h).pack v),
      item.1 = false := by
    intro item hitem
    obtain ⟨v, -, rfl⟩ := List.mem_map.1 hitem
    rfl
  rw [Ty.pack, tails_eq_nil hstatic, List.length_append, length_word, List.append_nil, length_heads,
    sum_headSize_map, Ty.size, add_comm]

end Abi
