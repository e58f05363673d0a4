import SygmaRelayer.Proofs.BtcDepositAmounts

/-! The text in the OP_RETURN output of a Bitcoin deposit, `receiverEVMAddress_destinationDomainID`.
Two bytes of the script are cut off whatever the push opcode is, the text is split at every
underscore but only two parts are read, and an address is made of whatever the first part is. So
every well-formed text of a direct push is read as it should be, and some other texts are read
as well. -/

namespace Sygma.BtcListener

open Go Fallible
open Text (ascii)

section Hex

theorem length_of_hexDecode {s : List UInt8} (h : (hexDecode s).2 = true) :
    s.length = 2 * (hexDecode s).1.length := by
  fun_induction hexDecode s with
  | case1 => rfl
  | case2 => cases h
  | case3 a b s x y hx hy ih =>
    have := ih h
    simp only [List.length_cons]
    omega
  | case4 => cases h

theorem fromHexChar_of_hexDecode {s : List UInt8} (h : (hexDecode s).2 = true) :
    ∀ c ∈ s, fromHexChar c ≠ none := by
  fun_induction hexDecode s with
  | case1 => simp
  | case2 => cases h
  | case3 a b s x y hx hy ih => simpa [hx, hy] using ih h
  | case4 => cases h

/-- The text of the 20 bytes `address` in hex, with or without 0x. -/
def IsAddress (text address : List UInt8) : Prop :=
  address.length = 20 ∧
    ∃ digits, hexDecode digits = (address, true) ∧ (text = digits ∨ text = 48 :: 120 :: digits)

theorem hexToAddress_of_isAddress {text address : List UInt8} (h : IsAddress text address) :
    hexToAddress text = address := by
  obtain ⟨hlength, digits, hdigits, htext⟩ := h
  have hvalid : (hexDecode digits).2 = true := by rw [hdigits]
  have heven : digits.length = 40 := by
    rw [length_of_hexDecode hvalid, hdigits, hlength]
  -- neither x nor X is a digit, so the digits do not start with 0x themselves
  have hx : ∀ c, fromHexChar c = none → digits.take 2 ≠ [48, c] := by
    intro c hc htake
    have hin : c ∈ digits := List.mem_of_mem_take (by rw [htake]; simp)
    exact fromHexChar_of_hexDecode hvalid c hin hc
  have hstrip : (if text.take 2 = [48, 120] ∨ text.take 2 = [48, 88] then text.drop 2 else text) =
      digits := by
    rcases htext with rfl | rfl
    · rw [if_neg (by simp [hx 120 rfl, hx 88 rfl])]
    · rfl
  unfold hexToAddress
  rw [hstrip]
  simp only [heven, Nat.reduceMod, zero_ne_one, if_false, hdigits, hlength, Nat.sub_self,
    List.drop_zero]
  exact Bytes.leftPad_of_le (by omega)

end Hex

section Decimal

/-- The number some digits spell. -/
def decimalValue (digits : List UInt8) : ℕ :=
  Nat.ofDigits 10 (digits.reverse.map fun c => (c - 48).toNat)

/-- The text of the number `d` in decimal. -/
def IsDecimal (text : List UInt8) (d : UInt8) : Prop :=
  text ≠ [] ∧ (∀ c ∈ text, 48 ≤ c ∧ c ≤ 57) ∧ decimalValue text = d.toNat

theorem decimalValue_eq_foldl (digits : List UInt8) :
    digits.foldl (fun n c => 10 * n + (c - 48).toNat) 0 = decimalValue digits := by
  unfold decimalValue
  induction digits using List.reverseRecOn with
  | nil => rfl
  | append_singleton digits c ih =>
    rw [List.foldl_append, ih, List.reverse_append, List.reverse_singleton, List.singleton_append,
      List.map_cons, Nat.ofDigits_cons, List.foldl_cons, List.foldl_nil, add_comm]

theorem parseUint8_eq_ok {text : List UInt8} {d : UInt8} :
    parseUint8 text = .ok d ↔ IsDecimal text d := by
  unfold parseUint8 IsDecimal
  dsimp only
  rw [decimalValue_eq_foldl]
  split_ifs with hdigits hlt
  · simp only [List.all_eq_true, decide_eq_true_eq] at hdigits
    refine ⟨?_, ?_⟩
    · intro h
      obtain rfl := Except.ok.inj h
      exact ⟨hdigits.1, hdigits.2, (UInt8.toNat_ofNat_of_lt' hlt).symm⟩
    · rintro ⟨-, -, hvalue⟩
      rw [hvalue, UInt8.ofNat_toNat]
  · refine ⟨?_, ?_⟩
    · intro h
      cases h
    · rintro ⟨-, -, hvalue⟩
      have := d.toNat_lt
      omega
  · simp only [List.all_eq_true, decide_eq_true_eq] at hdigits
    refine ⟨?_, ?_⟩
    · intro h
      cases h
    · rintro ⟨hne, hall, -⟩
      exact absurd ⟨hne, hall⟩ hdigits

end Decimal

section Parts

/-- The message is to `address` on domain `d`. -/
def Yields (result : Outcome Message) (address : List UInt8) (d : UInt8) : Prop :=
  ∃ m amount, result = .ok m ∧ m.data.payload = [amount, .bytes address] ∧ m.destination = d

/-- What the handler reads: an address of what stands before the first underscore, and a number
of what stands between it and the second. -/
def ReadAs (data address : List UInt8) (d : UInt8) : Prop :=
  ∃ first second rest, data.splitOn 95 = first :: second :: rest ∧ hexToAddress first = address ∧
    IsDecimal second d

/-- There is an underscore, but no number of 8 bits between it and the next. -/
def NoDestination (data : List UInt8) : Prop :=
  ∃ first second rest, data.splitOn 95 = first :: second :: rest ∧ ∀ d, ¬ IsDecimal second d

theorem readAs_iff_of_splitOn {data first second address : List UInt8} {rest : List (List UInt8)}
    {d : UInt8} (h : data.splitOn 95 = first :: second :: rest) :
    ReadAs data address d ↔ hexToAddress first = address ∧ parseUint8 second = .ok d := by
  unfold ReadAs
  rw [h, parseUint8_eq_ok]
  refine ⟨?_, ?_⟩
  · rintro ⟨first', second', rest', heq, haddress, hd⟩
    cases heq
    exact ⟨haddress, hd⟩
  · rintro ⟨haddress, hd⟩
    exact ⟨first, second, rest, rfl, haddress, hd⟩

theorem noDestination_iff_of_splitOn {data first second : List UInt8} {rest : List (List UInt8)}
    (h : data.splitOn 95 = first :: second :: rest) :
    NoDestination data ↔ ∀ d, parseUint8 second ≠ .ok d := by
  unfold NoDestination
  rw [h]
  refine ⟨?_, ?_⟩
  · rintro ⟨first', second', rest', heq, hnot⟩ d hd
    cases heq
    exact hnot d (parseUint8_eq_ok.1 hd)
  · intro hnot
    exact ⟨first, second, rest, rfl, fun d hd => hnot d (parseUint8_eq_ok.2 hd)⟩

theorem btcHandleDeposit_parts (a : DepositArgs) :
    (∃ part, a.data.splitOn 95 = [part] ∧ btcHandleDeposit a = .error .panic) ∨
      ∃ first second rest, a.data.splitOn 95 = first :: second :: rest ∧
        match parseUint8 second with
        | .error text => btcHandleDeposit a = .error (.error text)
        | .ok d => Yields (btcHandleDeposit a) (hexToAddress first) d := by
  cases hsplit : a.data.splitOn 95 with
  | nil => exact absurd hsplit (List.splitOn_ne_nil _ _)
  | cons first parts =>
    cases parts with
    | nil => exact Or.inl ⟨first, rfl, by simp [btcHandleDeposit, hsplit]⟩
    | cons second rest =>
      refine Or.inr ⟨first, second, rest, rfl, ?_⟩
      cases hparse : parseUint8 second with
      | error text => simp [btcHandleDeposit, hsplit, hparse]
      | ok d => simp [Yields, btcHandleDeposit, hsplit, hparse]

theorem ReadAs.unique {data address address' : List UInt8} {d d' : UInt8}
    (h : ReadAs data address d) (h' : ReadAs data address' d') : address = address' ∧ d = d' := by
  obtain ⟨first, second, rest, hsplit, rfl, hd⟩ := h
  obtain ⟨haddress, hd'⟩ := (readAs_iff_of_splitOn hsplit).1 h'
  rw [parseUint8_eq_ok.2 hd] at hd'
  exact ⟨haddress, Except.ok.inj hd'⟩

theorem NoDestination.not_readAs {data address : List UInt8} {d : UInt8} (h : NoDestination data) :
    ¬ ReadAs data address d := by
  rintro ⟨first, second, rest, hsplit, -, hd⟩
  exact (noDestination_iff_of_splitOn hsplit).1 h d (parseUint8_eq_ok.2 hd)

theorem Yields.unique {result : Outcome Message} {address address' : List UInt8} {d d' : UInt8}
    (h : Yields result address d) (h' : Yields result address' d') : address = address' ∧ d = d' := by
  obtain ⟨m, amount, hm, hpayload, rfl⟩ := h
  obtain ⟨m', amount', hm', hpayload', rfl⟩ := h'
  obtain rfl : m = m' := Except.ok.inj (hm.symm.trans hm')
  rw [hpayload] at hpayload'
  cases hpayload'
  exact ⟨rfl, rfl⟩

theorem yields_iff_readAs (a : DepositArgs) (address : List UInt8) (d : UInt8) :
    Yields (btcHandleDeposit a) address d ↔ ReadAs a.data address d := by
  rcases btcHandleDeposit_parts a with ⟨part, hsplit, hpanic⟩ | ⟨first, second, rest, hsplit, h⟩
  · simp [Yields, ReadAs, hpanic, hsplit]
  · rw [readAs_iff_of_splitOn hsplit]
    cases hparse : parseUint8 second with
    | error text =>
      simp only [hparse] at h
      simp [Yields, h]
    | ok d' =>
      simp only [hparse] at h
      refine ⟨?_, ?_⟩
      · intro hyields
        obtain ⟨rfl, rfl⟩ := h.unique hyields
        exact ⟨rfl, rfl⟩
      · rintro ⟨rfl, hd⟩
        obtain rfl := Except.ok.inj hd
        exact h

theorem fails_iff_noDestination (a : DepositArgs) :
    (∃ text, btcHandleDeposit a = .error (.error text)) ↔ NoDestination a.data := by
  rcases btcHandleDeposit_parts a with ⟨part, hsplit, hpanic⟩ | ⟨first, second, rest, hsplit, h⟩
  · simp [NoDestination, hpanic, hsplit]
  · rw [noDestination_iff_of_splitOn hsplit]
    cases hparse : parseUint8 second with
    | error text =>
      simp only [hparse] at h
      simp [h]
    | ok d =>
      simp only [hparse] at h
      obtain ⟨m, amount, hm, -⟩ := h
      simp [hm]

end Parts

section Script

inductive PushKind
  | direct
  | pushData1
deriving DecidableEq, Repr

def PushKind.maxLength : PushKind → ℕ
  | .direct => 75
  | .pushData1 => 255

/-- A data push. -/
structure Push where
  kind : PushKind
  bytes : List UInt8
  fits : bytes.length ≤ kind.maxLength

/-- The script `OP_RETURN` with the push. -/
def Push.script (p : Push) : List UInt8 :=
  match p.kind with
  | .direct => 0x6a :: UInt8.ofNat p.bytes.length :: p.bytes
  | .pushData1 => 0x6a :: 0x4c :: UInt8.ofNat p.bytes.length :: p.bytes

/-- What is left of the script: a push by `OP_PUSHDATA1` keeps its length. -/
def Push.data (p : Push) : List UInt8 :=
  match p.kind with
  | .direct => p.bytes
  | .pushData1 => UInt8.ofNat p.bytes.length :: p.bytes

theorem data_of_decodeDepositEvent {evt : TxRawResult} {resource : Resource} {feeAddress : String}
    {dep : Deposit} {v : Vout} {p : Push}
    (hone : evt.vout.filter (fun v => v.type = .opReturn) = [v])
    (hscript : hexDecode v.hex = (p.script, true))
    (h : decodeDepositEvent evt resource feeAddress = .ok (some dep)) : dep.data = p.data := by
  have htype : v.type = .opReturn := by
    have hv : v ∈ evt.vout.filter fun v => v.type = .opReturn := by simp [hone]
    simpa using (List.mem_filter.1 hv).2
  have hdata : opReturnData evt.vout [] = .ok p.data := by
    rw [← opReturnData_filter, hone]
    unfold opReturnData readOpReturn
    unfold Push.script at hscript
    unfold Push.data
    cases hkind : p.kind with
    | direct =>
      rw [hkind] at hscript
      simp [htype, hscript]
    | pushData1 =>
      rw [hkind] at hscript
      simp [htype, hscript]
  have hspec := decodeDepositEvent_spec resource feeAddress evt
  rw [hdata, h] at hspec
  obtain hnone | ⟨d, hd, hread, -⟩ := hspec
  · cases hnone
  · obtain rfl : dep = d := by simpa using hd
    exact hread

end Script

section Text

/-- The text of an address, an underscore and the text of a number of 8 bits. -/
def WellFormed (push address : List UInt8) (d : UInt8) : Prop :=
  ∃ text digits, push = text ++ 95 :: digits ∧ IsAddress text address ∧ IsDecimal digits d

theorem IsAddress.notMem {text address : List UInt8} (h : IsAddress text address) : 95 ∉ text := by
  obtain ⟨-, digits, hdigits, htext⟩ := h
  have hmem := fromHexChar_of_hexDecode (s := digits) (by rw [hdigits])
  have hnot : (95 : UInt8) ∉ digits := fun hin => hmem 95 hin (by decide)
  rcases htext with rfl | rfl
  · exact hnot
  · simpa using hnot

theorem IsAddress.length_le {text address : List UInt8} (h : IsAddress text address) :
    40 ≤ text.length := by
  obtain ⟨hlength, digits, hdigits, htext⟩ := h
  have heven := length_of_hexDecode (s := digits) (by rw [hdigits])
  rw [hdigits, hlength] at heven
  rcases htext with rfl | rfl
  · exact heven.ge
  · simp only [List.length_cons]
    omega

theorem IsDecimal.notMem {text : List UInt8} {d : UInt8} (h : IsDecimal text d) : 95 ∉ text :=
  fun hin => absurd (h.2.1 95 hin) (by decide)

theorem WellFormed.length_le {push address : List UInt8} {d : UInt8}
    (h : WellFormed push address d) : 40 ≤ push.length := by
  obtain ⟨text, digits, rfl, haddress, -⟩ := h
  rw [List.length_append]
  exact le_add_right haddress.length_le

theorem WellFormed.readAs {push address : List UInt8} {d : UInt8} (h : WellFormed push address d) :
    ReadAs push address d := by
  obtain ⟨text, digits, rfl, haddress, hd⟩ := h
  refine ⟨text, digits, [], ?_, hexToAddress_of_isAddress haddress, hd⟩
  rw [List.splitOn_append_cons_self, List.splitOn_eq_singleton haddress.notMem,
    List.splitOn_eq_singleton hd.notMem]
  rfl

/-- The result is right for the pushed text: a message for a well-formed one, and an error for
any other. -/
def Exact (push : List UInt8) (result : Outcome Message) : Prop :=
  (∀ address d, Yields result address d ↔ WellFormed push address d) ∧
    ((∀ address d, ¬ WellFormed push address d) → ∃ text, result = .error (.error text))

theorem exact_iff (push : List UInt8) (a : DepositArgs) :
    Exact push (btcHandleDeposit a) ↔
      (∃ address d, WellFormed push address d ∧ ReadAs a.data address d) ∨
        ((∀ address d, ¬ WellFormed push address d) ∧ NoDestination a.data) := by
  unfold Exact
  simp only [yields_iff_readAs, fails_iff_noDestination]
  refine ⟨?_, ?_⟩
  · rintro ⟨hyields, hfails⟩
    by_cases hwell : ∃ address d, WellFormed push address d
    · obtain ⟨address, d, hwell⟩ := hwell
      exact Or.inl ⟨address, d, hwell, (hyields address d).2 hwell⟩
    · push Not at hwell
      exact Or.inr ⟨hwell, hfails hwell⟩
  · rintro (⟨address, d, hwell, hread⟩ | ⟨hnot, hno⟩)
    · refine ⟨fun address' d' => ⟨fun hread' => ?_, fun hwell' => ?_⟩, fun hnot => ?_⟩
      · obtain ⟨rfl, rfl⟩ := hread.unique hread'
        exact hwell
      · obtain ⟨rfl, rfl⟩ := hwell.readAs.unique hwell'.readAs
        exact hread
      · exact absurd hwell (hnot address d)
    · refine ⟨fun address d => ⟨fun hread => ?_, fun hwell => ?_⟩, fun _ => hno⟩
      · exact absurd hread hno.not_readAs
      · exact absurd hwell (hnot address d)

end Text

/-- A deposit of 5000 satoshi with the given OP_RETURN script. -/
def depositWith (hex : String) : TxRawResult where
  hash := "9a1c"
  vout := [⟨5000, .witnessV1Taproot, [], "bc1q"⟩, ⟨0, .opReturn, ascii hex, ""⟩]
  blocktime := 0

def listenerConfig : Config := ⟨4, "fee", fun _ => List.replicate 32 0⟩

/-- What the deposit with the script is handled to. -/
def handledScript (hex : String) : Outcome (Option Message) :=
  visitResources listenerConfig 10 btcHandleDeposit (depositWith hex) [⟨"bc1q", 0, 7⟩]

def receiver : List UInt8 :=
  [0xf3, 0x9f, 0xd6, 0xe5, 0x1a, 0xad, 0x88, 0xf6, 0xf4, 0xce, 0x6a, 0xb8, 0x82, 0x72, 0x79, 0xcf,
    0xff, 0xb9, 0x22, 0x66]

/-- `receiver` on domain 1, as a depositor writes it. -/
def receiverText : String := "0xf39Fd6e51aad88F6F4ce6aB8827279cffFb92266_1"

theorem wellFormed_receiverText : WellFormed (ascii receiverText) receiver 1 := by
  refine ⟨ascii "0xf39Fd6e51aad88F6F4ce6aB8827279cffFb92266", ascii "1", ?_, ⟨rfl,
    ascii "f39Fd6e51aad88F6F4ce6aB8827279cffFb92266", ?_, Or.inr ?_⟩, parseUint8_eq_ok.1 rfl⟩
  all_goals decide

/-- The script of `receiverText` behind its first two bytes or three. -/
def receiverHex : String :=
  "30786633394664366535316161643838463646346365" ++
    "36614238383237323739636666466239323236365f31"

end Sygma.BtcListener
