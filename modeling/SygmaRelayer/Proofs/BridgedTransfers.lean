import SygmaRelayer.Proofs.GenericCodec
import SygmaRelayer.Proofs.NonFungibleCodec
import SygmaRelayer.Proofs.OptionalMessage
import SygmaRelayer.Proofs.SemiFungibleRoute
import SygmaRelayer.Spec.DepositEvents

/-! The transfers that can be deposited on a bridge, and what becomes of their calldata on the way
through the deposit handler of the source and the message handler of the destination. It arrives
as it was deposited, except that a converted amount takes the place of the amount and that the gas
for a revert is added to the fee of a message. -/

namespace Sygma.Evm

open Go

/-- What is deposited, as the handler contracts of the bridge have their calldata. -/
inductive Transfer
  | fungible (amount : Abi.FixedBytes 32) (recipient : List UInt8) (h : 20 ≤ recipient.length)
  /-- with a message for the recipient and the fee for executing it -/
  | fungibleMessage (amount : Abi.FixedBytes 32) (recipient : List UInt8) (fee : ℕ)
      (message : List UInt8) (hfee : fee + OPTIONAL_REVERT_GAS < 2 ^ 64) (h : message ≠ [])
  | nonFungible (tokenID : Abi.FixedBytes 32) (recipient metadata : List UInt8)
  | semiFungible (v : erc1155Type.Val) (h : v.2.2.1.length = 20)
  | generic (call : GenericCall) (h : 76 ≤ call.encode.length)

namespace Transfer

variable (abi : Abi.Codec erc1155Type)

def handler : Transfer → DepositHandler
  | fungible .. | fungibleMessage .. => erc20HandleDeposit
  | nonFungible .. => erc721HandleDeposit
  | semiFungible .. => erc1155HandleDeposit abi
  | generic .. => permissionlessGenericHandleDeposit

def calldata : Transfer → List UInt8
  | fungible amount recipient _ => encodeFungible amount.1 recipient
  | fungibleMessage amount recipient fee message _ _ =>
    encodeFungible amount.1 recipient ++ (Bytes.leftPad (Bytes.ofNat fee) 32 ++ message)
  | nonFungible tokenID recipient metadata => encodeNonFungible tokenID.1 recipient metadata
  | semiFungible v _ => abi.pack v
  | generic call _ => call.encode

/-- The amount the recipient gets: the one the handler contract converted it to, if it did. -/
def credited (amount : Abi.FixedBytes 32) (handlerResponse : List UInt8) : List UInt8 :=
  if handlerResponse = [] then amount.1 else handlerResponse.take 32

/-- What is to arrive at the destination. -/
def submitted (handlerResponse : List UInt8) : Transfer → List UInt8
  | fungible amount recipient _ => encodeFungible (credited amount handlerResponse) recipient
  | fungibleMessage amount recipient fee message _ _ =>
    encodeFungible (credited amount handlerResponse) recipient ++
      (Bytes.leftPad (Bytes.ofNat (fee + OPTIONAL_REVERT_GAS)) 32 ++ message)
  | t@(nonFungible ..) | t@(semiFungible ..) | t@(generic ..) => t.calldata abi

def gasLimit : Transfer → Option UInt64
  | fungibleMessage _ _ fee _ _ _ => some (UInt64.ofNat (fee + OPTIONAL_REVERT_GAS))
  | generic call _ => some (UInt64.ofInt (int64 (Bytes.toNat call.maxFee)))
  | fungible .. | nonFungible .. | semiFungible .. => none

end Transfer

section Fungible

variable {amount : Abi.FixedBytes 32} {recipient rest : List UInt8}

theorem encodeFungible_append (amount : Abi.FixedBytes 32) (recipient rest : List UInt8) :
    encodeFungible amount.1 recipient ++ rest =
      amount.1 ++ (SizedFields.word 32 recipient.length ++ (recipient ++ rest)) := by
  rw [encodeFungible, Bytes.leftPad_of_le amount.2.ge, SizedFields.word]
  simp only [List.append_assoc]

theorem fungible_parts {data : List UInt8} (hdata : data = encodeFungible amount.1 recipient ++ rest)
    (hlen : data.length < 2 ^ 48) :
    data.length = 64 + recipient.length + rest.length ∧ data.take 32 = amount.1 ∧
      recipientLength data = recipient.length ∧
      (data.take (64 + recipient.length)).drop 64 = recipient ∧
      data.drop (64 + recipient.length) = rest := by
  rw [encodeFungible_append] at hdata
  have hsmall : recipient.length < 256 ^ 32 := by
    have : recipient.length ≤ data.length := by
      rw [hdata]
      simp only [List.length_append]
      omega
    exact lt_of_le_of_lt this (hlen.trans (by decide))
  have hword := SizedFields.length_word hsmall
  have hdrop : data.drop 32 = SizedFields.word 32 recipient.length ++ (recipient ++ rest) := by
    rw [hdata, List.drop_left' amount.2]
  have hdrop' : data.drop 64 = recipient ++ rest := by
    rw [show 64 = 32 + 32 from rfl, ← List.drop_drop, hdrop, List.drop_left' hword]
  refine ⟨?_, ?_, ?_, ?_, ?_⟩
  · rw [hdata]
    simp only [List.length_append, amount.2, hword]
    omega
  · rw [hdata, List.take_left' amount.2]
  · rw [recipientLength, show 64 = 32 + 32 from rfl, ← List.take_drop, hdrop, List.take_left' hword,
      SizedFields.toNat_word]
  · rw [← List.take_drop, hdrop', List.take_left]
  · rw [← List.drop_drop, hdrop', List.drop_left]

theorem depositAmount_eq {data handlerResponse : List UInt8} (h : data.take 32 = amount.1) :
    depositAmount data handlerResponse = Transfer.credited amount handlerResponse := by
  rw [depositAmount, Transfer.credited, h]

end Fungible

/-- The proposal for a deposit with this header. -/
def Transfer.proposal (abi : Abi.Codec erc1155Type) (t : Transfer) (h : DepositHeader)
    (handlerResponse : List UInt8) : TransferProposal :=
  ⟨h.sourceID, h.destID, ⟨h.nonce, h.resourceID, t.gasLimit, t.submitted abi handlerResponse⟩,
    h.messageID⟩

/-- The message of a deposit keeps its header, and its proposal carries what it ought to. -/
def Carries (abi : Abi.Codec erc1155Type) (t : Transfer) (h : DepositHeader)
    (handlerResponse : List UInt8) (m : Message) : Prop :=
  m.destination = h.destID ∧ m.key = ⟨h.sourceID, h.destID, h.nonce⟩ ∧
    m.data.resourceId = h.resourceID ∧
    transferHandleMessage abi m = .ok (t.proposal abi h handlerResponse)

section Handlers

variable (abi : Abi.Codec erc1155Type) (h : DepositHeader) {calldata handlerResponse : Slice UInt8}

theorem carries_fungible {amount : Abi.FixedBytes 32} {recipient : List UInt8}
    (hrecipient : 20 ≤ recipient.length)
    (hdata : calldata.elems = encodeFungible amount.1 recipient)
    (hresponse : handlerResponse.elems = [] ∨ 32 ≤ handlerResponse.elems.length) :
    ∃ m, erc20HandleDeposit h calldata handlerResponse = .ok m ∧
      Carries abi (.fungible amount recipient hrecipient) h handlerResponse.elems m := by
  obtain ⟨hlength, hamount, hL, hrec, -⟩ :=
    fungible_parts (hdata.trans (List.append_nil _).symm) calldata.length_lt
  rw [List.length_nil] at hlength
  have hhandle := @erc20HandleDeposit_eq calldata (by omega) (by omega) h _ hresponse (by omega)
  rw [hL, hrec, depositAmount_eq hamount] at hhandle
  exact ⟨_, hhandle, rfl, rfl, rfl, rfl⟩

theorem carries_fungibleMessage {amount : Abi.FixedBytes 32} {recipient message : List UInt8}
    {fee : ℕ} (hfee : fee + OPTIONAL_REVERT_GAS < 2 ^ 64) (hmessage : message ≠ [])
    (hdata : calldata.elems =
      encodeFungible amount.1 recipient ++ (Bytes.leftPad (Bytes.ofNat fee) 32 ++ message))
    (hresponse : handlerResponse.elems = [] ∨ 32 ≤ handlerResponse.elems.length) :
    ∃ m, erc20HandleDeposit h calldata handlerResponse = .ok m ∧
      Carries abi (.fungibleMessage amount recipient fee message hfee hmessage) h handlerResponse.elems
        m := by
  obtain ⟨hlength, hamount, hL, hrec, hrest⟩ := fungible_parts hdata calldata.length_lt
  have hpos := List.length_pos_iff.2 hmessage
  have hword : (Bytes.leftPad (Bytes.ofNat fee) 32).length = 32 :=
    SizedFields.length_word (lt_of_le_of_lt (Nat.le_add_right _ _) (hfee.trans (by decide)))
  rw [List.length_append, hword] at hlength
  have hfeeWord : feeWord calldata.elems = fee := by
    rw [feeWord, hL, show 96 + recipient.length = 64 + recipient.length + 32 by omega,
      ← List.take_drop, hrest, List.take_left' hword, Bytes.toNat_leftPad, Bytes.toNat_ofNat]
  have hbehind : calldata.elems.drop (96 + recipient.length) = message := by
    rw [show 96 + recipient.length = 64 + recipient.length + 32 by omega, ← List.drop_drop, hrest,
      List.drop_left' hword]
  have hnew : (Bytes.leftPad (Bytes.ofNat (fee + OPTIONAL_REVERT_GAS)) 32).length = 32 :=
    SizedFields.length_word (hfee.trans (by decide))
  have hhandle := @erc20HandleDeposit_optional h calldata handlerResponse _ (by omega)
    (erc20Amount_eq (by omega) hresponse)
  rw [maxFee, hfeeWord, hL, hrec, hbehind, List.take_of_length_le hnew.le,
    depositAmount_eq hamount] at hhandle
  exact ⟨_, hhandle, rfl, rfl, rfl, rfl⟩

theorem carries_semiFungible {v : erc1155Type.Val} (hv : v.2.2.1.length = 20)
    (hdata : calldata.elems = abi.pack v) :
    ∃ m, erc1155HandleDeposit abi h calldata handlerResponse = .ok m ∧
      Carries abi (.semiFungible v hv) h handlerResponse.elems m := by
  have hunpack : abi.unpackValues calldata.elems = .ok v := by
    have hpack := abi.unpackValues_pack v
    rw [← hdata] at hpack
    exact hpack (calldata.length_lt.trans (by decide))
  obtain ⟨m, hm⟩ : ∃ m, erc1155HandleDeposit abi h calldata handlerResponse = .ok m := by
    obtain ⟨tokenIDs, amounts, recipient, transferData, ⟨⟩⟩ := v
    exact ⟨_, by rw [erc1155HandleDeposit, hunpack]⟩
  have hhandle := transferHandleMessage_erc1155 hunpack hm
  rw [if_pos hv] at hhandle
  rw [erc1155HandleDeposit, hunpack] at hm
  cases hm
  exact ⟨_, by rw [erc1155HandleDeposit, hunpack], rfl, rfl, rfl, hhandle⟩

theorem exists_carries (t : Transfer) (hdata : calldata.elems = t.calldata abi)
    (hresponse : handlerResponse.elems = [] ∨ 32 ≤ handlerResponse.elems.length) :
    ∃ m, t.handler abi h calldata handlerResponse = .ok m ∧
      Carries abi t h handlerResponse.elems m := by
  cases t with
  | fungible amount recipient hrecipient => exact carries_fungible abi h hrecipient hdata hresponse
  | fungibleMessage amount recipient fee message hfee hmessage =>
    exact carries_fungibleMessage abi h hfee hmessage hdata hresponse
  | nonFungible tokenID recipient metadata =>
    have hhandle := @erc721HandleDeposit_encode h calldata handlerResponse _ _ _ []
      tokenID.2 (hdata.trans (List.append_nil _).symm)
    exact ⟨_, hhandle, rfl, rfl, rfl, rfl⟩
  | semiFungible v hv => exact carries_semiFungible abi h hv hdata
  | generic call hlen =>
    have hhandle := @permissionlessGenericHandleDeposit_encode h calldata handlerResponse call
      hdata (by rw [hdata]; exact hlen)
    exact ⟨_, hhandle, rfl, rfl, rfl, rfl⟩

end Handlers

end Sygma.Evm
