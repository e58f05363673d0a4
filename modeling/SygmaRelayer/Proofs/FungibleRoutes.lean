import SygmaRelayer.Spec.FungibleCodec

/-! Fungible calldata on its four routes between EVM and Substrate. Both deposit handlers
cut the calldata at the same places and both message handlers write the parts down in the
same way, so the proposal of the destination chain carries the calldata up to the end of
the recipient. -/

namespace Sygma

open Go

/-- The recipient length `L` that stands at bytes 32 to 64. -/
def recipientLength (calldata : List UInt8) : ℕ := Bytes.toNat ((calldata.take 64).drop 32)

theorem encodeFungible_calldata {calldata amount : List UInt8} (hamount : amount.length = 32)
    (hfit : 64 + recipientLength calldata ≤ calldata.length) :
    encodeFungible amount ((calldata.take (64 + recipientLength calldata)).drop 64) =
      amount ++ (calldata.take (64 + recipientLength calldata)).drop 32 := by
  set L := recipientLength calldata with hL
  have hlen : ((calldata.take (64 + L)).drop 64).length = L := by simp; omega
  have hword : Bytes.leftPad (Bytes.ofNat L) 32 = (calldata.take 64).drop 32 :=
    Bytes.leftPad_ofNat_toNat (by simp; omega)
  have hsplit : (calldata.take (64 + L)).drop 32 =
      (calldata.take 64).drop 32 ++ (calldata.take (64 + L)).drop 64 := by
    rw [List.take_add, List.drop_append_of_le_length (by simp; omega),
      List.drop_append_of_le_length (by simp; omega)]
    simp
  rw [encodeFungible, Bytes.leftPad_of_le hamount.ge, hlen, hword, hsplit, List.append_assoc]

/-- Both message handlers turn the message into a proposal with the data. -/
def Delivers (m : Message) (data : List UInt8) : Prop :=
  Evm.erc20MessageHandler m = .ok (m.proposal data) ∧
    Substrate.fungibleTransferMessageHandler m = .ok (m.proposal data)

theorem delivers_message (h : DepositHeader) (gasLimit : Option UInt64)
    {amount recipient data : List UInt8} (hdata : encodeFungible amount recipient = data) :
    Delivers (h.message gasLimit [.bytes amount, .bytes recipient]) data := by
  subst hdata
  exact ⟨rfl, rfl⟩

/-- The first 32 bytes of the handler response, if there is one, and else of the calldata. -/
def depositAmount (calldata handlerResponse : List UInt8) : List UInt8 :=
  if handlerResponse = [] then calldata.take 32 else handlerResponse.take 32

section Decoding

variable {calldata : Slice UInt8} (hlen : 84 ≤ calldata.elems.length)
  (hfit : 64 + recipientLength calldata.elems ≤ calldata.elems.length)

include hlen

theorem read_amount : calldata.read 0 32 = .ok (calldata.elems.take 32) :=
  @Slice.read_of_le _ calldata 0 32 (by decide) (by omega)

theorem read_lengthWord : calldata.read 32 64 = .ok ((calldata.elems.take 64).drop 32) :=
  @Slice.read_of_le _ calldata 32 64 (by decide) (by omega)

theorem erc20Amount_eq {handlerResponse : Slice UInt8}
    (hresponse : handlerResponse.elems = [] ∨ 32 ≤ handlerResponse.elems.length) :
    Evm.erc20Amount calldata handlerResponse =
      .ok (depositAmount calldata.elems handlerResponse.elems) := by
  unfold Evm.erc20Amount depositAmount
  rcases hresponse with hnil | hlong
  · simp [hnil, read_amount hlen]
  · have hne : handlerResponse.elems ≠ [] := by
      intro hnil
      simp [hnil] at hlong
    rw [if_pos (by omega), if_neg hne]
    exact @Slice.read_of_le _ handlerResponse 0 32 (by decide) hlong

omit hlen in
include hfit in
theorem read_recipient :
    calldata.read 64 ((64 + recipientLength calldata.elems : ℕ) : ℤ) =
      .ok ((calldata.elems.take (64 + recipientLength calldata.elems)).drop 64) :=
  @Slice.read_of_le _ calldata 64 _ (by omega) hfit

omit hlen in
include hfit in
/-- The offsets around the recipient do not leave the range of an `int`. -/
theorem int64_offsets :
    int64 (recipientLength calldata.elems) = recipientLength calldata.elems ∧
      int64 (64 + recipientLength calldata.elems) = (64 + recipientLength calldata.elems : ℕ) ∧
      int64 (96 + recipientLength calldata.elems) = (96 + recipientLength calldata.elems : ℕ) := by
  have hlt : ∀ n ≤ 96, n + recipientLength calldata.elems < 2 ^ 63 := by
    intro n hn
    rw [Nat.add_comm]
    exact calldata.lt_of_le_capacity (by omega) (hn.trans (by decide))
  refine ⟨int64_of_lt ?_, int64_add_of_lt (hlt 64 (by decide)), int64_add_of_lt (hlt 96 le_rfl)⟩
  simpa using hlt 0 (Nat.zero_le _)

include hfit

theorem fungibleTransferHandler_eq (h : DepositHeader) :
    Substrate.fungibleTransferHandler h calldata = .ok (h.message none
      [.bytes (calldata.elems.take 32),
        .bytes ((calldata.elems.take (64 + recipientLength calldata.elems)).drop 64)]) := by
  have hword : Bytes.toInt ((calldata.elems.take 64).drop 32) = recipientLength calldata.elems := by
    have hlt := calldata.length_lt
    have hwidth : ((calldata.elems.take 64).drop 32).length = 32 := by simp; omega
    refine Bytes.toInt_of_lt ?_
    rw [hwidth]
    calc 2 * recipientLength calldata.elems < 2 * 2 ^ 48 := by omega
      _ < 256 ^ 32 := by decide
  obtain ⟨hL, h64, -⟩ := int64_offsets hfit
  rw [Substrate.fungibleTransferHandler, if_neg (by omega)]
  simp only [read_amount hlen, read_lengthWord hlen, ok_bind, hword, hL, h64,
    read_recipient hfit]
  rfl

theorem erc20HandleDeposit_eq (h : DepositHeader) {handlerResponse : Slice UInt8}
    (hresponse : handlerResponse.elems = [] ∨ 32 ≤ handlerResponse.elems.length)
    (hshort : calldata.elems.length ≤ 96 + recipientLength calldata.elems) :
    Evm.erc20HandleDeposit h calldata handlerResponse = .ok (h.message none
      [.bytes (depositAmount calldata.elems handlerResponse.elems),
        .bytes ((calldata.elems.take (64 + recipientLength calldata.elems)).drop 64)]) := by
  obtain ⟨hL, h64, h96⟩ := int64_offsets hfit
  have hword : Bytes.toNat ((calldata.elems.take 64).drop 32) = recipientLength calldata.elems := rfl
  rw [Evm.erc20HandleDeposit, if_neg (by omega)]
  simp only [erc20Amount_eq hlen hresponse, read_lengthWord hlen, ok_bind, hword, hL, h64, h96,
    read_recipient hfit]
  rw [if_neg (by omega)]
  rfl

end Decoding

/-- Fungible calldata arrives as it was deposited, up to the end of the recipient; the handler
response of an EVM deposit takes the place of the amount. -/
theorem fungible_routes (h : DepositHeader) {calldata : Slice UInt8}
    (hlen : 84 ≤ calldata.elems.length)
    (hfit : 64 + recipientLength calldata.elems ≤ calldata.elems.length) :
    (∃ m, Substrate.fungibleTransferHandler h calldata = .ok m ∧
      Delivers m (calldata.elems.take (64 + recipientLength calldata.elems))) ∧
    (calldata.elems.length ≤ 96 + recipientLength calldata.elems →
      ∀ handlerResponse : Slice UInt8,
        (handlerResponse.elems = [] → ∃ m,
          Evm.erc20HandleDeposit h calldata handlerResponse = .ok m ∧
          Delivers m (calldata.elems.take (64 + recipientLength calldata.elems))) ∧
        (32 ≤ handlerResponse.elems.length → ∃ m,
          Evm.erc20HandleDeposit h calldata handlerResponse = .ok m ∧
          Delivers m (handlerResponse.elems.take 32 ++
            (calldata.elems.take (64 + recipientLength calldata.elems)).drop 32))) := by
  have hown : encodeFungible (calldata.elems.take 32)
      ((calldata.elems.take (64 + recipientLength calldata.elems)).drop 64) =
        calldata.elems.take (64 + recipientLength calldata.elems) := by
    rw [encodeFungible_calldata (by simp; omega) hfit]
    conv_rhs => rw [← List.take_append_drop 32 (calldata.elems.take _), List.take_take]
    congr 2
    omega
  refine ⟨⟨_, fungibleTransferHandler_eq hlen hfit h, ?_⟩,
    fun hshort handlerResponse => ⟨fun hnil => ?_, fun hlong => ?_⟩⟩
  · exact delivers_message h none hown
  · refine ⟨_, erc20HandleDeposit_eq hlen hfit h (Or.inl hnil) hshort, delivers_message h none ?_⟩
    rw [depositAmount, if_pos hnil, hown]
  · have hne : handlerResponse.elems ≠ [] := by
      intro hnil
      simp [hnil] at hlong
    refine ⟨_, erc20HandleDeposit_eq hlen hfit h (Or.inr hlong) hshort, delivers_message h none ?_⟩
    rw [depositAmount, if_neg hne, encodeFungible_calldata (by simp; omega) hfit]

/-- 100 tokens for a 20-byte recipient, as a deposit on an EVM chain encodes them. -/
def sampleCalldata : Slice UInt8 where
  elems := Bytes.leftPad [100] 32 ++ Bytes.leftPad [20] 32 ++ List.replicate 20 0x5c
  spare := []
  fits := by decide

/-- A bridge handler that has converted the amount to 18 decimals: `0x0de0b6b3a7640000`. -/
def sampleResponse : Slice UInt8 where
  elems := Bytes.leftPad [0x0d, 0xe0, 0xb6, 0xb3, 0xa7, 0x64, 0, 0] 32
  spare := []
  fits := by decide

def sampleHeader : DepositHeader := ⟨1, 2, 7, 0, "1-2-10-14", 0⟩

theorem fungible_routes_sample :
    (∃ m, Substrate.fungibleTransferHandler sampleHeader sampleCalldata = .ok m ∧
        Delivers m sampleCalldata.elems) ∧
      ∃ m, Evm.erc20HandleDeposit sampleHeader sampleCalldata sampleResponse = .ok m ∧
        Delivers m (sampleResponse.elems ++ sampleCalldata.elems.drop 32) := by
  obtain ⟨hsubstrate, hevm⟩ := @fungible_routes sampleHeader sampleCalldata (by decide) (by decide)
  exact ⟨hsubstrate, (hevm (by decide) sampleResponse).2 (by decide)⟩

end Sygma
