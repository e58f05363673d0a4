import SygmaRelayer.Proofs.GenericCodec
import SygmaRelayer.Proofs.NonFungibleCodec
import SygmaRelayer.Proofs.OptionalMessage

/-! Malformed calldata. The deposit handlers return an error for calldata that is shorter
than a fixed minimum and for no other. Behind that check a length that points past the end
of the calldata makes them panic, or is squeezed into an `int64` or into the spare capacity
of the slice and accepted. -/

namespace Sygma

open Go Evm

/-- Malformed input is answered with an error and any other with a message. -/
structure Strict (malformed : Prop) (decoded : Outcome Message) : Prop where
  rejects : malformed → ∃ text, decoded = .error (.error text)
  accepts : ¬ malformed → ∃ m, decoded = .ok m

/-- A decoder that returns errors for short input only is strict where short and malformed are
the same. -/
theorem strict_iff {short malformed : Prop} {decoded : Outcome Message}
    (hshort : short → ∃ text, decoded = .error (.error text))
    (hlong : ¬ short → NoError decoded)
    (hok : ¬ short → ¬ malformed → ∃ m, decoded = .ok m) :
    Strict malformed decoded ↔ (short ↔ malformed) := by
  by_cases hs : short
  · obtain ⟨text, htext⟩ := hshort hs
    constructor
    · intro hstrict
      refine iff_of_true hs ?_
      by_contra hwell
      obtain ⟨m, hm⟩ := hstrict.accepts hwell
      rw [htext] at hm
      cases hm
    · intro hiff
      exact ⟨fun _ => ⟨text, htext⟩, fun hwell => absurd (hiff.1 hs) hwell⟩
  · constructor
    · intro hstrict
      refine iff_of_false hs fun hmalformed => ?_
      obtain ⟨text, htext⟩ := hstrict.rejects hmalformed
      exact hlong hs text htext
    · intro hiff
      exact ⟨fun hmalformed => absurd (hiff.2 hmalformed) hs, hok hs⟩

/-- A handler response that is too short for an amount. -/
def ShortResponse (handlerResponse : List UInt8) : Prop :=
  handlerResponse ≠ [] ∧ handlerResponse.length < 32

section NoError

variable {h : DepositHeader} {calldata handlerResponse : Slice UInt8}

theorem noError_erc20 (hlen : 84 ≤ calldata.elems.length) :
    NoError (erc20HandleDeposit h calldata handlerResponse) := by
  have hread := Slice.noError_read calldata
  have hamount : NoError (erc20Amount calldata handlerResponse) := by
    unfold erc20Amount
    split_ifs
    · exact Slice.noError_read _ _ _
    · exact hread _ _
  rw [erc20HandleDeposit, if_neg (by omega)]
  refine hamount.bind fun _ => (hread _ _).bind fun _ => (hread _ _).bind fun _ => ?_
  dsimp only
  split_ifs
  · refine NoError.bind ?_ fun _ => noError_ok _
    exact (hread _ _).bind fun _ => (hread _ _).bind fun _ => noError_ok _
  · exact noError_ok _

theorem noError_erc721 (hlen : 64 ≤ calldata.elems.length) :
    NoError (erc721HandleDeposit h calldata handlerResponse) := by
  have hread := Slice.noError_read calldata
  rw [erc721HandleDeposit, if_neg (by omega)]
  refine (hread _ _).bind fun _ => (hread _ _).bind fun _ => (hread _ _).bind fun _ =>
    (hread _ _).bind fun _ => ?_
  dsimp only
  split_ifs
  · exact (hread _ _).bind fun _ => noError_ok _
  · exact noError_ok _

theorem noError_fungibleTransfer (hlen : 84 ≤ calldata.elems.length) :
    NoError (Substrate.fungibleTransferHandler h calldata) := by
  have hread := Slice.noError_read calldata
  rw [Substrate.fungibleTransferHandler, if_neg (by omega)]
  exact (hread _ _).bind fun _ => (hread _ _).bind fun _ => (hread _ _).bind fun _ => noError_ok _

end NoError

section Handlers

variable (h : DepositHeader) (calldata handlerResponse : Slice UInt8)

theorem strict_erc20 : Strict (calldata.elems.length < 64 + recipientLength calldata.elems ∨
      ShortResponse handlerResponse.elems) (erc20HandleDeposit h calldata handlerResponse) ↔
    (calldata.elems.length < 84 ↔ calldata.elems.length < 64 + recipientLength calldata.elems ∨
      ShortResponse handlerResponse.elems) := by
  refine strict_iff (fun hshort => ?_) (fun hlong => noError_erc20 (not_lt.1 hlong))
    fun hlong hwell => ?_
  · rw [erc20HandleDeposit, if_pos (by omega)]
    exact ⟨_, rfl⟩
  · rw [not_or, not_lt] at hwell
    have hresponse : handlerResponse.elems = [] ∨ 32 ≤ handlerResponse.elems.length := by
      by_cases hnil : handlerResponse.elems = []
      · exact Or.inl hnil
      · exact Or.inr (not_lt.1 fun hlt => hwell.2 ⟨hnil, hlt⟩)
    rcases le_or_gt calldata.elems.length (96 + recipientLength calldata.elems) with hle | hgt
    · exact ⟨_, erc20HandleDeposit_eq (not_lt.1 hlong) hwell.1 h hresponse hle⟩
    · exact ⟨_, erc20HandleDeposit_optional hgt (erc20Amount_eq (not_lt.1 hlong) hresponse)⟩

theorem strict_erc721 : Strict (calldata.elems.length < nonFungibleEnd calldata.elems ∨
      ShortResponse handlerResponse.elems) (erc721HandleDeposit h calldata handlerResponse) ↔
    (calldata.elems.length < 64 ↔ calldata.elems.length < nonFungibleEnd calldata.elems ∨
      ShortResponse handlerResponse.elems) := by
  refine strict_iff (fun hshort => ?_) (fun hlong => noError_erc721 (not_lt.1 hlong))
    fun _ hwell => ?_
  · rw [erc721HandleDeposit, if_pos hshort]
    exact ⟨_, rfl⟩
  · rw [not_or, not_lt] at hwell
    obtain ⟨_, _, _, -, hhandle⟩ := erc721HandleDeposit_of_le hwell.1
    exact ⟨_, hhandle⟩

theorem strict_permissionlessGeneric :
    Strict (calldata.elems.length < depositorEnd calldata.elems ∨
      ShortResponse handlerResponse.elems)
      (permissionlessGenericHandleDeposit h calldata handlerResponse) ↔
    (calldata.elems.length < 76 ↔ calldata.elems.length < depositorEnd calldata.elems ∨
      ShortResponse handlerResponse.elems) := by
  refine strict_iff (fun hshort => ?_) (fun hlong => noError_permissionlessGeneric (not_lt.1 hlong))
    fun hlong hwell => ?_
  · rw [permissionlessGenericHandleDeposit, if_pos hshort]
    exact ⟨_, rfl⟩
  · rw [not_or, not_lt] at hwell
    obtain ⟨c, hc⟩ := exists_genericCall hwell.1
    exact ⟨_, permissionlessGenericHandleDeposit_encode c hc (not_lt.1 hlong)⟩

theorem strict_fungibleTransfer :
    Strict (calldata.elems.length < 64 + recipientLength calldata.elems)
      (Substrate.fungibleTransferHandler h calldata) ↔
    (calldata.elems.length < 84 ↔
      calldata.elems.length < 64 + recipientLength calldata.elems) := by
  refine strict_iff (fun hshort => ?_) (fun hlong => noError_fungibleTransfer (not_lt.1 hlong))
    fun hlong hwell => ?_
  · rw [Substrate.fungibleTransferHandler, if_pos hshort]
    exact ⟨_, rfl⟩
  · exact ⟨_, fungibleTransferHandler_eq (not_lt.1 hlong) (not_lt.1 hwell) h⟩

/-- Each deposit handler is strict exactly on the input for which its minimum length decides
whether it is malformed. -/
theorem strict_deposit_handlers :
    (Strict (calldata.elems.length < 64 + recipientLength calldata.elems ∨
          ShortResponse handlerResponse.elems) (erc20HandleDeposit h calldata handlerResponse) ↔
        (calldata.elems.length < 84 ↔
          calldata.elems.length < 64 + recipientLength calldata.elems ∨
            ShortResponse handlerResponse.elems)) ∧
      (Strict (calldata.elems.length < nonFungibleEnd calldata.elems ∨
          ShortResponse handlerResponse.elems) (erc721HandleDeposit h calldata handlerResponse) ↔
        (calldata.elems.length < 64 ↔ calldata.elems.length < nonFungibleEnd calldata.elems ∨
          ShortResponse handlerResponse.elems)) ∧
      (Strict (calldata.elems.length < depositorEnd calldata.elems ∨
          ShortResponse handlerResponse.elems)
          (permissionlessGenericHandleDeposit h calldata handlerResponse) ↔
        (calldata.elems.length < 76 ↔ calldata.elems.length < depositorEnd calldata.elems ∨
          ShortResponse handlerResponse.elems)) ∧
      (Strict (calldata.elems.length < 64 + recipientLength calldata.elems)
          (Substrate.fungibleTransferHandler h calldata) ↔
        (calldata.elems.length < 84 ↔
          calldata.elems.length < 64 + recipientLength calldata.elems)) :=
  ⟨strict_erc20 h calldata handlerResponse, strict_erc721 h calldata handlerResponse,
    strict_permissionlessGeneric h calldata handlerResponse, strict_fungibleTransfer h calldata⟩

end Handlers

/-- A recipient of 20 bytes behind the length `lengthWord`. -/
def announcedCalldata (lengthWord : List UInt8) (hword : lengthWord.length = 32) :
    Slice UInt8 where
  elems := Bytes.leftPad [100] 32 ++ lengthWord ++ List.replicate 20 0x5c
  spare := []
  fits := by
    rw [List.length_append, List.length_append, hword]
    decide

/-- One byte more than the calldata has. -/
def overlongCalldata : Slice UInt8 := announcedCalldata (Bytes.leftPad [21] 32) rfl

/-- A length of `2 ^ 64 + 20`. -/
def wrappedCalldata : Slice UInt8 :=
  announcedCalldata (Bytes.leftPad [1, 0, 0, 0, 0, 0, 0, 0, 20] 32) rfl

/-- Of two lengths that point past the end, the first makes the handlers panic and the second is
taken for 20. -/
theorem malformed_not_rejected :
    overlongCalldata.elems.length < 64 + recipientLength overlongCalldata.elems ∧
    erc20HandleDeposit sampleHeader overlongCalldata Slice.nil = .error .panic ∧
    Substrate.fungibleTransferHandler sampleHeader overlongCalldata = .error .panic ∧
    wrappedCalldata.elems.length < 64 + recipientLength wrappedCalldata.elems ∧
    (erc20HandleDeposit sampleHeader wrappedCalldata Slice.nil).isOk = true ∧
    (Substrate.fungibleTransferHandler sampleHeader wrappedCalldata).isOk = true := by
  decide

end Sygma
