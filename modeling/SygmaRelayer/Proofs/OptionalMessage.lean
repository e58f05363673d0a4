import SygmaRelayer.Proofs.FungibleRoutes

/-! The optional message of ERC20 calldata: a fee and a message behind the recipient. The
deposit handler adds the gas for a revert to the fee. The sum is a `big.Int`, but the gas
limit takes its lower 64 bits and the calldata its first 32 bytes, and neither is checked. -/

namespace Sygma.Evm

open Go

/-- The fee `F` that stands behind the recipient. -/
def feeWord (calldata : List UInt8) : ℕ :=
  Bytes.toNat ((calldata.take (96 + recipientLength calldata)).drop (64 + recipientLength calldata))

def maxFee (calldata : List UInt8) : ℕ := feeWord calldata + OPTIONAL_REVERT_GAS

section Decoding

variable {h : DepositHeader} {calldata handlerResponse : Slice UInt8} {amount : List UInt8}

theorem erc20OptionalMessage_eq (hlen : 96 + recipientLength calldata.elems < calldata.elems.length) :
    erc20OptionalMessage calldata (64 + recipientLength calldata.elems : ℕ)
        (96 + recipientLength calldata.elems : ℕ) =
      .ok (maxFee calldata.elems, (Bytes.leftPad (Bytes.ofNat (maxFee calldata.elems)) 32).take 32 ++
        calldata.elems.drop (96 + recipientLength calldata.elems)) := by
  have hfee := @Slice.read_of_le _ calldata (64 + recipientLength calldata.elems)
    (96 + recipientLength calldata.elems) (by omega) hlen.le
  have hrest := Slice.read_of_le hlen.le le_rfl
  rw [List.take_length] at hrest
  rw [erc20OptionalMessage, hfee, ok_bind, hrest]
  rfl

theorem erc20HandleDeposit_optional
    (hlen : 96 + recipientLength calldata.elems < calldata.elems.length)
    (hamount : erc20Amount calldata handlerResponse = .ok amount) :
    erc20HandleDeposit h calldata handlerResponse = .ok (h.message
      (some (UInt64.ofNat (maxFee calldata.elems)))
      [.bytes amount, .bytes ((calldata.elems.take (64 + recipientLength calldata.elems)).drop 64),
        .bytes ((Bytes.leftPad (Bytes.ofNat (maxFee calldata.elems)) 32).take 32 ++
          calldata.elems.drop (96 + recipientLength calldata.elems))]) := by
  have hmin : 84 ≤ calldata.elems.length := by omega
  have hfit : 64 + recipientLength calldata.elems ≤ calldata.elems.length := by omega
  obtain ⟨hL, h64, h96⟩ := int64_offsets hfit
  have hword : Bytes.toNat ((calldata.elems.take 64).drop 32) = recipientLength calldata.elems := rfl
  rw [Evm.erc20HandleDeposit, if_neg (by omega)]
  simp only [hamount, read_lengthWord hmin, ok_bind, hword, hL, h64, h96, read_recipient hfit,
    erc20OptionalMessage_eq hlen]
  rw [if_pos (by omega)]
  rfl

theorem length_amount (hamount : erc20Amount calldata handlerResponse = .ok amount) :
    amount.length = 32 := by
  unfold erc20Amount at hamount
  split_ifs at hamount
  · exact @Slice.length_of_read _ handlerResponse 0 32 _ hamount
  · exact @Slice.length_of_read _ calldata 0 32 _ hamount

theorem erc20Amount_nil (hmin : 84 ≤ calldata.elems.length) :
    erc20Amount calldata Slice.nil = .ok (calldata.elems.take 32) := by
  rw [erc20Amount, if_neg (by decide), read_amount hmin]

/-- What the proposal carries behind the amount: the recipient, the new fee in the place of the
old one, and the message. -/
def behindAmount (calldata : List UInt8) : List UInt8 :=
  (calldata.take (64 + recipientLength calldata)).drop 32 ++
    (Bytes.leftPad (Bytes.ofNat (maxFee calldata)) 32 ++
      calldata.drop (96 + recipientLength calldata))

theorem erc20_optional_of_lt (h : DepositHeader)
    (hlen : 96 + recipientLength calldata.elems < calldata.elems.length)
    (hamount : erc20Amount calldata handlerResponse = .ok amount)
    (hfee : maxFee calldata.elems < 2 ^ 64) :
    ∃ m, erc20HandleDeposit h calldata handlerResponse = .ok m ∧
      (∃ gasLimit : UInt64, m.data.gasLimit = some gasLimit ∧
        gasLimit.toNat = maxFee calldata.elems) ∧
      erc20MessageHandler m = .ok (m.proposal (amount ++ behindAmount calldata.elems)) := by
  refine ⟨_, erc20HandleDeposit_optional hlen hamount, ⟨_, rfl, UInt64.toNat_ofNat_of_lt' hfee⟩, ?_⟩
  have hfit : (Bytes.ofNat (maxFee calldata.elems)).length ≤ 32 :=
    Bytes.length_ofNat_le.2 (hfee.trans (by decide))
  have hwidth : (Bytes.leftPad (Bytes.ofNat (maxFee calldata.elems)) 32).length = 32 := by
    rw [Bytes.leftPad, List.length_leftpad, max_eq_left hfit]
  have hencode := @encodeFungible_calldata calldata.elems _ (length_amount hamount) (by omega)
  rw [List.take_of_length_le hwidth.le, behindAmount, ← List.append_assoc, ← hencode]
  rfl

end Decoding

/-- The data of the proposal as it ought to be. -/
def optionalData (calldata : List UInt8) : List UInt8 :=
  calldata.take (64 + recipientLength calldata) ++
    Bytes.leftPad (Bytes.ofNat (maxFee calldata)) 32 ++
    calldata.drop (96 + recipientLength calldata)

theorem optionalData_eq (calldata : List UInt8) :
    optionalData calldata = calldata.take 32 ++ behindAmount calldata := by
  have htake : calldata.take (64 + recipientLength calldata) =
      calldata.take 32 ++ (calldata.take (64 + recipientLength calldata)).drop 32 := by
    conv_lhs => rw [← List.take_append_drop 32 (calldata.take _), List.take_take]
    congr 2
    omega
  rw [optionalData, htake, behindAmount]
  simp only [List.append_assoc]

/-- The new fee is handed on as it is, in the gas limit and in the data, or the deposit handler
returns an error if it is no `uint64`. -/
structure ExactGas (h : DepositHeader) (calldata handlerResponse : Slice UInt8) : Prop where
  exact : ∀ m, erc20HandleDeposit h calldata handlerResponse = .ok m →
    (∃ gasLimit : UInt64, m.data.gasLimit = some gasLimit ∧
      gasLimit.toNat = maxFee calldata.elems) ∧
    erc20MessageHandler m = .ok (m.proposal (optionalData calldata.elems))
  fits : 2 ^ 64 ≤ maxFee calldata.elems →
    ∃ text, erc20HandleDeposit h calldata handlerResponse = .error (.error text)

/-- The new fee is handed on as it is exactly if it is a `uint64`; and the data begins with the
calldata exactly if the handler response does not convert the amount. -/
theorem exactGas_iff (h : DepositHeader) {calldata handlerResponse : Slice UInt8}
    {amount : List UInt8}
    (hlen : 96 + recipientLength calldata.elems < calldata.elems.length)
    (hamount : erc20Amount calldata handlerResponse = .ok amount) :
    ExactGas h calldata handlerResponse ↔
      maxFee calldata.elems < 2 ^ 64 ∧ amount = calldata.elems.take 32 := by
  constructor
  · rintro ⟨hexact, hfits⟩
    have hfee : maxFee calldata.elems < 2 ^ 64 := by
      by_contra hlarge
      obtain ⟨text, htext⟩ := hfits (Nat.le_of_not_lt hlarge)
      rw [erc20HandleDeposit_optional hlen hamount] at htext
      cases htext
    refine ⟨hfee, ?_⟩
    obtain ⟨m, hm, -, hdata⟩ := erc20_optional_of_lt h hlen hamount hfee
    have hproposal := Except.ok.inj ((hexact m hm).2.symm.trans hdata)
    have heq : optionalData calldata.elems = amount ++ behindAmount calldata.elems :=
      congrArg (fun p => p.data.data) hproposal
    rw [optionalData_eq] at heq
    exact (List.append_cancel_right heq).symm
  · rintro ⟨hfee, rfl⟩
    refine ⟨fun m hm => ?_, fun hlarge => absurd hfee (Nat.not_lt_of_le hlarge)⟩
    obtain ⟨m', hm', hgas, hdata⟩ := erc20_optional_of_lt h hlen hamount hfee
    obtain rfl := Except.ok.inj (hm.symm.trans hm')
    rw [optionalData_eq]
    exact ⟨hgas, hdata⟩

/-- A fee of 200000 and a message of four bytes. -/
def smallFeeCalldata : Slice UInt8 where
  elems := sampleCalldata.elems ++ Bytes.leftPad [0x03, 0x0d, 0x40] 32 ++ [1, 2, 3, 4]
  spare := []
  fits := by decide

theorem exactGas_iff_sample : ExactGas sampleHeader smallFeeCalldata Slice.nil := by
  have hamount := @erc20Amount_nil smallFeeCalldata (by decide)
  exact (exactGas_iff sampleHeader (by decide) hamount).2 ⟨by decide, rfl⟩

/-- A fee of `2 ^ 64 - 1`. -/
def largeFeeCalldata : Slice UInt8 where
  elems := sampleCalldata.elems ++ Bytes.leftPad (List.replicate 8 0xff) 32 ++ [1, 2, 3, 4]
  spare := []
  fits := by decide

/-- The deposit is accepted with a gas limit of 99999. -/
theorem gasLimit_wraps :
    feeWord largeFeeCalldata.elems = 2 ^ 64 - 1 ∧
      (∃ m, erc20HandleDeposit sampleHeader largeFeeCalldata Slice.nil = .ok m ∧
        m.data.gasLimit = some 99999) ∧
      ¬ ExactGas sampleHeader largeFeeCalldata Slice.nil := by
  have hfee : maxFee largeFeeCalldata.elems = 2 ^ 64 - 1 + 100000 := by decide
  have hhandle := @erc20HandleDeposit_optional sampleHeader largeFeeCalldata Slice.nil _ (by decide)
    (erc20Amount_nil (by decide))
  refine ⟨by decide, ⟨_, hhandle, ?_⟩, ?_⟩
  · rw [hfee]
    rfl
  · intro hexact
    obtain ⟨text, htext⟩ := hexact.fits (by decide)
    rw [hhandle] at htext
    cases htext

end Sygma.Evm
