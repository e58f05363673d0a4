import SygmaRelayer.Lib.Fallible
import SygmaRelayer.Lib.SizedFields
import SygmaRelayer.Spec.TransferCodec

/-! Permissionless generic calldata. The deposit handler accepts exactly the encodings of
five fields, each of a size that the prefix for its length can tell, and the message
handler writes these encodings. -/

namespace Sygma.Evm

open Go Fallible SizedFields

/-- The fields of a permissionless generic call. -/
structure GenericCall where
  maxFee : List UInt8
  functionSig : List UInt8
  contractAddress : List UInt8
  depositor : List UInt8
  executionData : List UInt8
  maxFee_length : maxFee.length = 32
  functionSig_lt : functionSig.length < 2 ^ 16
  contractAddress_lt : contractAddress.length < 2 ^ 8
  depositor_lt : depositor.length < 2 ^ 8

namespace GenericCall

variable (c : GenericCall)

def encode : List UInt8 :=
  encodeGeneric c.maxFee c.functionSig c.contractAddress c.depositor c.executionData

def message (h : DepositHeader) : Message :=
  h.transfer (some (UInt64.ofInt (int64 (Bytes.toNat c.maxFee))))
    [.bytes c.functionSig, .bytes c.contractAddress, .bytes c.maxFee, .bytes c.depositor,
      .bytes c.executionData] .permissionlessGenericTransfer

theorem encode_eq : c.encode = c.maxFee ++ (field 2 c.functionSig ++
    (field 1 c.contractAddress ++ (field 1 c.depositor ++ c.executionData))) := by
  rw [encode, encodeGeneric, Bytes.leftPad_of_le c.maxFee_length.ge, field, field, field,
    word_one c.contractAddress_lt, word_one c.depositor_lt, word]
  simp only [List.append_assoc]

end GenericCall

theorem permissionlessGenericMessageHandler_payload {m : Message}
    {maxFee functionSig contractAddress depositor executionData : List UInt8}
    (hpayload : m.data.payload = [.bytes functionSig, .bytes contractAddress, .bytes maxFee,
      .bytes depositor, .bytes executionData]) :
    permissionlessGenericMessageHandler m =
      .ok (m.proposal (encodeGeneric maxFee functionSig contractAddress depositor
        executionData)) := by
  unfold permissionlessGenericMessageHandler
  rw [hpayload]
  rfl

section Offsets

variable (calldata : List UInt8)

def functionSigEnd : ℕ := 34 + Bytes.toNat ((calldata.take 34).drop 32)

def contractAddressEnd : ℕ := functionSigEnd calldata + 1 +
  Bytes.toNat ((calldata.take (functionSigEnd calldata + 1)).drop (functionSigEnd calldata))

def depositorEnd : ℕ := contractAddressEnd calldata + 1 +
  Bytes.toNat ((calldata.take (contractAddressEnd calldata + 1)).drop (contractAddressEnd calldata))

variable {calldata}

theorem exists_genericCall (hend : depositorEnd calldata ≤ calldata.length) :
    ∃ c : GenericCall, calldata = c.encode := by
  have haddressEnd : contractAddressEnd calldata + 1 ≤ depositorEnd calldata :=
    Nat.le_add_right _ _
  have hsigEnd : functionSigEnd calldata + 1 ≤ contractAddressEnd calldata := Nat.le_add_right _ _
  have hfeeEnd : 34 ≤ functionSigEnd calldata := Nat.le_add_right _ _
  obtain ⟨functionSig, hsig, hsigDrop⟩ :=
    @drop_eq_field calldata 32 2 (functionSigEnd calldata) rfl (by omega)
  obtain ⟨contractAddress, haddress, haddressDrop⟩ :=
    @drop_eq_field calldata (functionSigEnd calldata) 1 (contractAddressEnd calldata) rfl (by omega)
  obtain ⟨depositor, hdepositor, hdepositorDrop⟩ :=
    @drop_eq_field calldata (contractAddressEnd calldata) 1 (depositorEnd calldata) rfl hend
  have hfee : (calldata.take 32).length = 32 := by
    rw [List.length_take]
    omega
  refine ⟨⟨calldata.take 32, functionSig, contractAddress, depositor,
    calldata.drop (depositorEnd calldata), hfee, hsig, haddress, hdepositor⟩, ?_⟩
  rw [GenericCall.encode_eq, ← hdepositorDrop, ← haddressDrop, ← hsigDrop, List.take_append_drop]

end Offsets

section Decoding

variable {h : DepositHeader} {calldata handlerResponse : Slice UInt8}

/-- An encoded call is decoded to its fields. -/
theorem permissionlessGenericHandleDeposit_encode (c : GenericCall)
    (hdata : calldata.elems = c.encode) (hlen : 76 ≤ calldata.elems.length) :
    permissionlessGenericHandleDeposit h calldata handlerResponse = .ok (c.message h) := by
  have hstart : calldata.elems.drop 0 = c.maxFee ++ (field 2 c.functionSig ++
      (field 1 c.contractAddress ++ (field 1 c.depositor ++ c.executionData))) := by
    rw [List.drop_zero, hdata, c.encode_eq]
  -- the reader moves from field to field
  obtain ⟨hmaxFee, hle, hrest⟩ :=
    Slice.read_next (q := 32) (Nat.zero_le _) hstart (by rw [c.maxFee_length])
  obtain ⟨hsig, hle, hrest⟩ := reads_field hle hrest c.functionSig_lt
  obtain ⟨haddress, hle, hrest⟩ := reads_field hle hrest c.contractAddress_lt
  obtain ⟨hdepositor, hle, hrest⟩ := reads_field hle hrest c.depositor_lt
  have hexecution := Slice.read_of_le hle le_rfl
  rw [List.take_length, hrest] at hexecution
  -- in the code the offsets 32 and 34 are literals
  have hsigWord : calldata.read 32 34 = .ok (word 2 c.functionSig.length) := hsig.word
  have hsigEnd : int64 (34 + (c.functionSig.length : ℤ)) = (32 + 2 + c.functionSig.length : ℕ) :=
    hsig.finish
  have hsigField : calldata.read 34 (32 + 2 + c.functionSig.length : ℕ) = .ok c.functionSig :=
    hsig.field
  have haddressStart := haddress.start
  have hdepositorStart := hdepositor.start
  rw [Nat.cast_one] at haddressStart hdepositorStart
  rw [permissionlessGenericHandleDeposit, if_neg (by omega)]
  rw [show calldata.read 0 32 = .ok c.maxFee from hmaxFee]
  simp only [ok_bind, hsigWord, toNat_word, hsig.length, hsigEnd, hsigField,
    haddressStart, haddress.word, haddress.length, haddress.finish, haddress.field,
    hdepositorStart, hdepositor.word, hdepositor.length, hdepositor.finish, hdepositor.field,
    hexecution]
  rfl

theorem noError_permissionlessGeneric (hlen : 76 ≤ calldata.elems.length) :
    NoError (permissionlessGenericHandleDeposit h calldata handlerResponse) := by
  rw [permissionlessGenericHandleDeposit, if_neg (by omega)]
  have hread := Slice.noError_read calldata
  exact (hread _ _).bind fun _ => (hread _ _).bind fun _ => (hread _ _).bind fun _ =>
    (hread _ _).bind fun _ => (hread _ _).bind fun _ => (hread _ _).bind fun _ =>
    (hread _ _).bind fun _ => (hread _ _).bind fun _ => noError_ok _

theorem lengthByte {lo : ℤ} {p : ℕ} {x w : List UInt8} (hx : calldata.read lo p = .ok x)
    (hw : calldata.read p (int64 (p + 1)) = .ok w) :
    calldata.read p (p + 1 : ℕ) = .ok w ∧
      int64 (int64 (p + 1) + int64 (Bytes.toNat w)) = (p + 1 + Bytes.toNat w : ℕ) := by
  have hp : p ≤ calldata.elems.length + calldata.spare.length := by
    exact_mod_cast (Slice.le_of_read hx).2.2
  have hstart : int64 ((p : ℤ) + 1) = (p + 1 : ℕ) :=
    int64_add_of_lt (calldata.lt_of_le_capacity hp (by decide))
  rw [hstart] at hw ⊢
  exact ⟨hw, int64_announced hw (by omega)⟩

/-- Calldata that is accepted does not point behind its end, and neither behind its array: the
last slice expression has no upper bound. -/
theorem depositorEnd_le {m : Message}
    (hok : permissionlessGenericHandleDeposit h calldata handlerResponse = .ok m) :
    76 ≤ calldata.elems.length ∧ depositorEnd calldata.elems ≤ calldata.elems.length := by
  unfold permissionlessGenericHandleDeposit at hok
  split_ifs at hok with hlen
  · cases hok
  simp only [bind_eq_ok] at hok
  obtain ⟨maxFee, -, sigLen, hsigLen, sig, hsig, addressLen, haddressLen, address, haddress,
    depositorLen, hdepositorLen, depositor, hdepositor, execution, hexecution, -⟩ := hok
  have hsigLenEq := @Slice.eq_of_read _ calldata 32 34 _ hsigLen (by omega)
  have hsigEnd : int64 (34 + int64 (Bytes.toNat sigLen)) = functionSigEnd calldata.elems := by
    rw [functionSigEnd, ← hsigLenEq]
    exact int64_announced (p := 32) (q := 34) hsigLen (by decide)
  rw [hsigEnd] at hsig haddressLen haddress hdepositorLen hdepositor hexecution
  obtain ⟨haddressLen, haddressEnd⟩ := lengthByte hsig haddressLen
  rw [haddressEnd] at haddress hdepositorLen hdepositor hexecution
  obtain ⟨hdepositorLen, hdepositorEnd⟩ := lengthByte haddress hdepositorLen
  rw [hdepositorEnd] at hdepositor hexecution
  -- so the offsets are those of the calldata itself, and not of what stands behind it
  have hend := (Slice.le_of_read hexecution).2.1
  rw [Nat.cast_le] at hend
  have haddressLenEq := Slice.eq_of_read haddressLen (by omega)
  have haddressEq : functionSigEnd calldata.elems + 1 + Bytes.toNat addressLen =
      contractAddressEnd calldata.elems := by
    rw [contractAddressEnd, ← haddressLenEq]
  rw [haddressEq] at hdepositorLen hend
  have hdepositorLenEq := Slice.eq_of_read hdepositorLen (by omega)
  rw [hdepositorLenEq] at hend
  exact ⟨by omega, hend⟩

end Decoding

/-- What the deposit handler does not panic on comes out of the message handler as it was, and
what the message handler writes is read back. -/
theorem generic_codec :
    (∀ (h : DepositHeader) (calldata handlerResponse : Slice UInt8), 76 ≤ calldata.elems.length →
      permissionlessGenericHandleDeposit h calldata handlerResponse ≠ .error .panic →
      ∃ m, permissionlessGenericHandleDeposit h calldata handlerResponse = .ok m ∧
        permissionlessGenericMessageHandler m = .ok (m.proposal calldata.elems)) ∧
    ∀ (m : Message) (functionSig contractAddress maxFee depositor executionData : List UInt8),
      m.data.payload = [.bytes functionSig, .bytes contractAddress, .bytes maxFee,
        .bytes depositor, .bytes executionData] →
      functionSig.length < 2 ^ 16 → contractAddress.length < 2 ^ 8 → depositor.length < 2 ^ 8 →
      maxFee.length ≤ 32 →
      ∃ p, permissionlessGenericMessageHandler m = .ok p ∧
        ∀ (h : DepositHeader) (calldata handlerResponse : Slice UInt8),
          calldata.elems = p.data.data → 76 ≤ calldata.elems.length →
          ∃ m', permissionlessGenericHandleDeposit h calldata handlerResponse = .ok m' ∧
            m'.data.payload = [.bytes functionSig, .bytes contractAddress,
              .bytes (Bytes.leftPad maxFee 32), .bytes depositor, .bytes executionData] := by
  refine ⟨fun h calldata handlerResponse hlen hpanic => ?_,
    fun m functionSig contractAddress maxFee depositor executionData hpayload hsig haddress
      hdepositor hfee => ?_⟩
  · cases hok : permissionlessGenericHandleDeposit h calldata handlerResponse with
    | error fault =>
      cases fault with
      | error text => exact absurd hok (noError_permissionlessGeneric hlen text)
      | panic => exact absurd hok hpanic
    | ok m =>
      obtain ⟨c, hc⟩ := exists_genericCall (depositorEnd_le hok).2
      rw [permissionlessGenericHandleDeposit_encode c hc hlen] at hok
      obtain rfl := Except.ok.inj hok
      refine ⟨_, rfl, ?_⟩
      rw [hc]
      exact permissionlessGenericMessageHandler_payload rfl
  · refine ⟨_, permissionlessGenericMessageHandler_payload hpayload, ?_⟩
    intro h calldata handlerResponse hdata hlen
    have hwidth : (Bytes.leftPad maxFee 32).length = 32 := by
      rw [Bytes.leftPad, List.length_leftpad, max_eq_left hfee]
    let c : GenericCall := ⟨Bytes.leftPad maxFee 32, functionSig, contractAddress, depositor,
      executionData, hwidth, hsig, haddress, hdepositor⟩
    have hencode : c.encode =
        encodeGeneric maxFee functionSig contractAddress depositor executionData := by
      rw [GenericCall.encode, encodeGeneric, Bytes.leftPad_of_le hwidth.ge, encodeGeneric]
    exact ⟨_, permissionlessGenericHandleDeposit_encode c (hdata.trans hencode.symm) hlen, rfl⟩

/-- A call with a selector, two 20-byte addresses and 32 bytes of data. -/
def sampleCall : GenericCall where
  maxFee := Bytes.leftPad [0x03, 0x0d, 0x40] 32
  functionSig := [0x65, 0x4c, 0xf8, 0x8c]
  contractAddress := List.replicate 20 0x5c
  depositor := List.replicate 20 0xd1
  executionData := List.replicate 32 0x01
  maxFee_length := by decide
  functionSig_lt := by decide
  contractAddress_lt := by decide
  depositor_lt := by decide

def sampleGenericCalldata : Slice UInt8 := ⟨sampleCall.encode, [], by decide⟩

theorem generic_codec_sample :
    (∃ m, permissionlessGenericHandleDeposit ⟨1, 2, 7, 0, "1-2-10-14", 0⟩ sampleGenericCalldata
        Slice.nil = .ok m ∧
      permissionlessGenericMessageHandler m = .ok (m.proposal sampleCall.encode)) ∧
    ∃ m, permissionlessGenericHandleDeposit ⟨1, 2, 7, 0, "1-2-10-14", 0⟩ sampleGenericCalldata
        Slice.nil = .ok m ∧
      m.data.payload = [.bytes sampleCall.functionSig, .bytes sampleCall.contractAddress,
        .bytes (Bytes.leftPad [0x03, 0x0d, 0x40] 32), .bytes sampleCall.depositor,
        .bytes sampleCall.executionData] := by
  obtain ⟨hroundtrip, hback⟩ := generic_codec
  refine ⟨hroundtrip _ sampleGenericCalldata _ (by decide) ?_, ?_⟩
  · rw [permissionlessGenericHandleDeposit_encode sampleCall rfl (by decide)]
    exact fun hpanic => nomatch hpanic
  · obtain ⟨p, hp, hdecode⟩ := hback (DepositHeader.transfer ⟨1, 2, 7, 0, "1-2-10-14", 0⟩ none
      [.bytes sampleCall.functionSig, .bytes sampleCall.contractAddress,
        .bytes [0x03, 0x0d, 0x40], .bytes sampleCall.depositor, .bytes sampleCall.executionData]
      .permissionlessGenericTransfer) _ _ _ _ _ rfl (by decide) (by decide) (by decide) (by decide)
    obtain rfl := Except.ok.inj hp
    exact hdecode _ _ _ rfl (by decide)

end Sygma.Evm
