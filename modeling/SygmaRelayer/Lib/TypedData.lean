import SygmaRelayer.Lib.Fallible
import SygmaRelayer.Lib.TypedDataTypes

/-! A hasher of structured data: the typed data of EIP-712. Every member of a struct is encoded in
32 bytes: a number as a word, and anything longer as the hash of its contents. A value can be read
off its encoding as long as none of the texts that are hashed for it collide. -/

namespace TypedData

open Abi (FixedBytes word length_word toNat_word)

/-! ### Values -/

mutual

@[reducible]
def Ty.Val : Ty → Type
  | .uint bits _ => BitVec bits
  | .address => FixedBytes 20
  | .string | .bytes => List UInt8
  | .bytes32 => FixedBytes 32
  | .array elem => List elem.Val
  | .struct _ members => members.Val

@[reducible]
def Tys.Val : Tys → Type
  | .nil => Unit
  | .cons _ first rest => first.Val × rest.Val

end

section Read

variable (parseAddress : List UInt8 → Except String (FixedBytes 20))

mutual

/-- What is given as a value need not be one. -/
def Ty.read : (t : Ty) → t.Data → Except String t.Val
  | .uint bits _, n =>
    if 0 ≤ n ∧ n < 2 ^ bits then .ok (BitVec.ofInt bits n)
    else .error "the number does not fit its type"
  | .address, a => parseAddress a
  | .string, b | .bytes, b => .ok b
  | .bytes32, b => .ok b
  | .array elem, l => l.mapM elem.read
  | .struct _ members, v => members.read v

def Tys.read : (ts : Tys) → ts.Data → Except String ts.Val
  | .nil, _ => .ok ()
  | .cons _ first rest, v => do
    let x ← first.read v.1
    let xs ← rest.read v.2
    return (x, xs)

end

variable {parseAddress} {addressOf : List UInt8 → List UInt8}

theorem ofInt_eq_iff {bits : ℕ} {n n' : ℤ} (hn : 0 ≤ n ∧ n < 2 ^ bits)
    (hn' : 0 ≤ n' ∧ n' < 2 ^ bits) : BitVec.ofInt bits n = BitVec.ofInt bits n' ↔ n = n' := by
  constructor
  · intro h
    have hnat := congrArg BitVec.toNat h
    rw [BitVec.toNat_ofInt, BitVec.toNat_ofInt] at hnat
    push_cast at hnat
    rw [Int.emod_eq_of_lt hn.1 hn.2, Int.emod_eq_of_lt hn'.1 hn'.2] at hnat
    omega
  · rintro rfl
    rfl

theorem forall₂_eq_iff {α β : Type} {R : α → β → Prop} {Same : α → α → Prop}
    (hR : ∀ a a' b b', R a b → R a' b' → (b = b' ↔ Same a a')) {l l' : List α} {m m' : List β}
    (h : List.Forall₂ R l m) (h' : List.Forall₂ R l' m') : m = m' ↔ List.Forall₂ Same l l' := by
  induction h generalizing l' m' with
  | nil =>
    cases h' with
    | nil => simp
    | cons => simp
  | cons ha _ ih =>
    cases h' with
    | nil => simp
    | cons ha' hl' => rw [List.cons.injEq, List.forall₂_cons, hR _ _ _ _ ha ha', ih hl']

mutual

theorem Ty.read_eq_iff (hparse : ∀ {a x}, parseAddress a = .ok x → x.1 = addressOf a) :
    ∀ (t : Ty) (v v' : t.Data) (x x' : t.Val), t.read parseAddress v = .ok x →
      t.read parseAddress v' = .ok x' → (x = x' ↔ t.Same addressOf v v')
  | .uint bits h, n, n', x, x', hx, hx' => by
    rw [Ty.read] at hx hx'
    split_ifs at hx with hn
    split_ifs at hx' with hn'
    cases hx
    cases hx'
    exact ofInt_eq_iff hn hn'
  | .address, a, a', x, x', hx, hx' => by
    rw [Ty.Same, Subtype.ext_iff, hparse hx, hparse hx']
  | .string, b, b', x, x', hx, hx' | .bytes, b, b', x, x', hx, hx' => by
    cases hx
    cases hx'
    rfl
  | .bytes32, b, b', x, x', hx, hx' => by
    cases hx
    cases hx'
    rfl
  | .array elem, l, l', x, x', hx, hx' =>
    forall₂_eq_iff (elem.read_eq_iff hparse) (Fallible.mapM_eq_ok.1 hx) (Fallible.mapM_eq_ok.1 hx')
  | .struct _ members, v, v', x, x', hx, hx' => members.read_eq_iff hparse v v' x x' hx hx'

theorem Tys.read_eq_iff (hparse : ∀ {a x}, parseAddress a = .ok x → x.1 = addressOf a) :
    ∀ (ts : Tys) (v v' : ts.Data) (x x' : ts.Val), ts.read parseAddress v = .ok x →
      ts.read parseAddress v' = .ok x' → (x = x' ↔ ts.Same addressOf v v')
  | .nil, _, _, _, _, _, _ => by simp [Tys.Same]
  | .cons _ first rest, v, v', x, x', hx, hx' => by
    rw [Tys.read] at hx hx'
    obtain ⟨y, hy, hx⟩ := Fallible.bind_eq_ok.1 hx
    obtain ⟨ys, hys, hx⟩ := Fallible.bind_eq_ok.1 hx
    obtain ⟨y', hy', hx'⟩ := Fallible.bind_eq_ok.1 hx'
    obtain ⟨ys', hys', hx'⟩ := Fallible.bind_eq_ok.1 hx'
    cases hx
    cases hx'
    rw [Tys.Same, Prod.mk.injEq, first.read_eq_iff hparse _ _ _ _ hy hy',
      rest.read_eq_iff hparse _ _ _ _ hys hys']

end

end Read

/-! ### Encodings -/

variable (hash : List UInt8 → FixedBytes 32) (encodeType : String → Tys → List UInt8)

mutual

/-- What stands for a value in the struct it is a member of. -/
def Ty.encode : (t : Ty) → t.Val → List UInt8
  | .uint _ _, n => word n.toNat
  | .address, a => List.replicate 12 0 ++ a.1
  | .bytes32, b => b.1
  | .string, b | .bytes, b => (hash b).1
  | .array elem, l => (hash (l.flatMap elem.encode)).1
  | .struct name members, v => (hash ((hash (encodeType name members)).1 ++ members.encode v)).1

def Tys.encode : (ts : Tys) → ts.Val → List UInt8
  | .nil, _ => []
  | .cons _ first rest, v => first.encode v.1 ++ rest.encode v.2

end

/-- The text that is hashed for a struct: its type and its members. -/
def structText (name : String) (members : Tys) (v : members.Val) : List UInt8 :=
  (hash (encodeType name members)).1 ++ members.encode hash encodeType v

mutual

/-- What is hashed to encode a value, but for the texts of the types. -/
def Ty.queries : (t : Ty) → t.Val → List (List UInt8)
  | .uint _ _, _ | .address, _ | .bytes32, _ => []
  | .string, b | .bytes, b => [b]
  | .array elem, l => l.flatMap (elem.encode hash encodeType) :: l.flatMap elem.queries
  | .struct name members, v => structText hash encodeType name members v :: members.queries v

def Tys.queries : (ts : Tys) → ts.Val → List (List UInt8)
  | .nil, _ => []
  | .cons _ first rest, v => first.queries v.1 ++ rest.queries v.2

end

variable {hash encodeType} {T : List (List UInt8)}

theorem text_eq (h : CollisionFree hash T) {a b : List UInt8} (ha : a ∈ T) (hb : b ∈ T)
    (heq : (hash a).1 = (hash b).1) : a = b :=
  h a ha b hb (Subtype.ext heq)

theorem Ty.length_encode (t : Ty) (v : t.Val) : (t.encode hash encodeType v).length = 32 := by
  cases t with
  | uint => simp [Ty.encode]
  | address =>
    rw [Ty.encode, List.length_append, List.length_replicate, v.2]
  | bytes32 => exact v.2
  | string | bytes | array | struct =>
    rw [Ty.encode]
    exact (hash _).2

/-- A row of elements is read off their encodings, if each element is. -/
theorem flatMap_encode_inj {t : Ty} {l l' : List t.Val}
    (ht : ∀ v ∈ l, ∀ v' ∈ l', t.encode hash encodeType v = t.encode hash encodeType v' → v = v')
    (heq : l.flatMap (t.encode hash encodeType) = l'.flatMap (t.encode hash encodeType)) :
    l = l' := by
  induction l generalizing l' with
  | nil =>
    cases l' with
    | nil => rfl
    | cons v' l' =>
      have hlength := congrArg List.length heq
      simp [Ty.length_encode] at hlength
      omega
  | cons v l ih =>
    cases l' with
    | nil =>
      have hlength := congrArg List.length heq
      simp [Ty.length_encode] at hlength
    | cons v' l' =>
      rw [List.flatMap_cons, List.flatMap_cons] at heq
      obtain ⟨hv, hl⟩ := List.append_inj heq (by rw [t.length_encode, t.length_encode])
      rw [ht v List.mem_cons_self v' List.mem_cons_self hv, ih (fun w hw w' hw' =>
        ht w (List.mem_cons_of_mem v hw) w' (List.mem_cons_of_mem v' hw')) hl]

mutual

theorem Ty.encode_inj (hT : CollisionFree hash T) : ∀ (t : Ty) {v v' : t.Val},
    t.queries hash encodeType v ⊆ T → t.queries hash encodeType v' ⊆ T →
      t.encode hash encodeType v = t.encode hash encodeType v' → v = v'
  | .uint bits h, n, n', _, _, heq => by
    have hle : 2 ^ bits ≤ 2 ^ 256 := Nat.pow_le_pow_right (by decide) h
    have hword := congrArg Bytes.toNat heq
    rw [Ty.encode, Ty.encode, toNat_word (n.isLt.trans_le hle), toNat_word (n'.isLt.trans_le hle)]
      at hword
    exact BitVec.eq_of_toNat_eq hword
  | .address, a, a', _, _, heq => Subtype.ext (List.append_cancel_left heq)
  | .bytes32, b, b', _, _, heq => Subtype.ext heq
  | .string, b, b', hq, hq', heq | .bytes, b, b', hq, hq', heq =>
    text_eq hT (hq List.mem_cons_self) (hq' List.mem_cons_self) heq
  | .array elem, l, l', hq, hq', heq => by
    rw [Ty.queries, List.cons_subset] at hq hq'
    rw [Ty.encode, Ty.encode] at heq
    refine flatMap_encode_inj (fun v hv v' hv' => ?_) (text_eq hT hq.1 hq'.1 heq)
    exact elem.encode_inj hT (fun q hmem => hq.2 (List.mem_flatMap.2 ⟨v, hv, hmem⟩))
      (fun q hmem => hq'.2 (List.mem_flatMap.2 ⟨v', hv', hmem⟩))
  | .struct name members, v, v', hq, hq', heq => by
    rw [Ty.queries, List.cons_subset] at hq hq'
    rw [Ty.encode, Ty.encode] at heq
    exact members.encode_inj hT hq.2 hq'.2 (List.append_cancel_left (text_eq hT hq.1 hq'.1 heq))

theorem Tys.encode_inj (hT : CollisionFree hash T) : ∀ (ts : Tys) {v v' : ts.Val},
    ts.queries hash encodeType v ⊆ T → ts.queries hash encodeType v' ⊆ T →
      ts.encode hash encodeType v = ts.encode hash encodeType v' → v = v'
  | .nil, _, _, _, _, _ => rfl
  | .cons _ first rest, v, v', hq, hq', heq => by
    rw [Tys.queries, List.append_subset] at hq hq'
    rw [Tys.encode, Tys.encode] at heq
    obtain ⟨hfirst, hrest⟩ := List.append_inj heq (by rw [first.length_encode, first.length_encode])
    exact Prod.ext (first.encode_inj hT hq.1 hq'.1 hfirst) (rest.encode_inj hT hq.2 hq'.2 hrest)

end

/-! ### The hasher -/

section Hasher

variable (hash encodeType) (parseAddress : List UInt8 → Except String (FixedBytes 20))

def hashStruct (name : String) (members : Tys) (v : members.Data) :
    Except String (FixedBytes 32) := do
  let x ← members.read parseAddress v
  return hash (structText hash encodeType name members x)

def structQueries (name : String) (members : Tys) (v : members.Data) : List (List UInt8) :=
  match members.read parseAddress v with
  | .ok x => (Ty.struct name members).queries hash encodeType x
  | .error _ => []

variable {hash encodeType parseAddress} {addressOf : List UInt8 → List UInt8}

theorem hashStruct_eq_iff (hparse : ∀ {a x}, parseAddress a = .ok x → x.1 = addressOf a)
    {name : String} {members : Tys} {v v' : members.Data} {digest digest' : FixedBytes 32}
    (h : hashStruct hash encodeType parseAddress name members v = .ok digest)
    (h' : hashStruct hash encodeType parseAddress name members v' = .ok digest')
    (hfree : CollisionFree hash (structQueries hash encodeType parseAddress name members v ++
      structQueries hash encodeType parseAddress name members v')) :
    digest = digest' ↔ members.Same addressOf v v' := by
  obtain ⟨x, hx, hdigest⟩ := Fallible.bind_eq_ok.1 h
  obtain ⟨x', hx', hdigest'⟩ := Fallible.bind_eq_ok.1 h'
  cases hdigest
  cases hdigest'
  rw [structQueries, structQueries, hx, hx'] at hfree
  rw [← members.read_eq_iff hparse _ _ _ _ hx hx']
  constructor
  · intro heq
    exact (Ty.struct name members).encode_inj hfree (List.subset_append_left _ _)
      (List.subset_append_right _ _) (congrArg Subtype.val heq)
  · rintro rfl
    rfl

def hasher (hash : List UInt8 → FixedBytes 32) (encodeType : String → Tys → List UInt8)
    (parseAddress : List UInt8 → Except String (FixedBytes 20))
    (hparse : ∀ {a x}, parseAddress a = .ok x → x.1 = addressOf a) : Hasher addressOf where
  hash := hash
  hashStruct := hashStruct hash encodeType parseAddress
  queries := structQueries hash encodeType parseAddress
  hashStruct_eq_iff := hashStruct_eq_iff hparse

end Hasher

end TypedData
