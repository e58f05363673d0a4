import SygmaRelayer.Lib.SizedFields
import SygmaRelayer.Proofs.FungibleRoutes
import SygmaRelayer.Spec.TransferCodec

/-! ERC721 calldata. The deposit handler reads the token ID, the recipient and the metadata
from the front of the calldata, and the message handler writes them down as they stood
there; what follows the metadata is dropped. -/

namespace Sygma.Evm

open Go SizedFields

/-- The metadata length `M` that stands behind the recipient. -/
def metadataLength (calldata : List UInt8) : ℕ :=
  Bytes.toNat ((calldata.take (96 + recipientLength calldata)).drop (64 + recipientLength calldata))

/-- Where the metadata ends. -/
def nonFungibleEnd (calldata : List UInt8) : ℕ :=
  96 + recipientLength calldata + metadataLength calldata

theorem encodeNonFungible_eq {tokenID : List UInt8} (htoken : tokenID.length = 32)
    (recipient metadata : List UInt8) :
    encodeNonFungible tokenID recipient metadata =
      tokenID ++ (field 32 recipient ++ field 32 metadata) := by
  rw [encodeNonFungible, Bytes.leftPad_of_le htoken.ge, field, field, word, word]
  simp only [List.append_assoc]

theorem take_nonFungibleEnd {calldata : List UInt8}
    (hend : nonFungibleEnd calldata ≤ calldata.length) :
    ∃ tokenID recipient metadata, tokenID.length = 32 ∧
      calldata.take (nonFungibleEnd calldata) = encodeNonFungible tokenID recipient metadata := by
  obtain ⟨p, hp⟩ : ∃ p, p = 64 + recipientLength calldata := ⟨_, rfl⟩
  have hmetadataEnd : nonFungibleEnd calldata =
      p + 32 + Bytes.toNat ((calldata.take (p + 32)).drop p) := by
    rw [nonFungibleEnd, metadataLength, hp, Nat.add_right_comm 64]
  obtain ⟨recipient, -, hrecipientDrop⟩ := @drop_eq_field calldata 32 32 p hp (by omega)
  obtain ⟨metadata, -, hmetadataDrop⟩ :=
    @drop_eq_field calldata p 32 (nonFungibleEnd calldata) hmetadataEnd hend
  have htoken : (calldata.take 32).length = 32 := by
    rw [List.length_take]
    omega
  refine ⟨calldata.take 32, recipient, metadata, htoken, ?_⟩
  rw [encodeNonFungible_eq htoken]
  -- the calldata is the encoding and the rest of it
  have hsplit : calldata = calldata.take 32 ++ (field 32 recipient ++ field 32 metadata) ++
      calldata.drop (nonFungibleEnd calldata) := by
    rw [List.append_assoc, List.append_assoc, ← hmetadataDrop, ← hrecipientDrop,
      List.take_append_drop]
  have hall := List.take_append_drop (nonFungibleEnd calldata) calldata
  conv_rhs at hall => rw [hsplit]
  exact List.append_cancel_right hall

section Decoding

variable {h : DepositHeader} {calldata handlerResponse : Slice UInt8}

theorem erc721HandleDeposit_encode {tokenID recipient metadata rest : List UInt8}
    (htoken : tokenID.length = 32)
    (hdata : calldata.elems = encodeNonFungible tokenID recipient metadata ++ rest) :
    erc721HandleDeposit h calldata handlerResponse = .ok (h.transfer none
      [.bytes tokenID, .bytes recipient, .bytes metadata] .nonFungibleTransfer) := by
  rw [encodeNonFungible_eq htoken] at hdata
  have hlength := congrArg List.length hdata
  simp only [field, List.length_append, htoken] at hlength
  have hstart : calldata.elems.drop 0 =
      tokenID ++ (field 32 recipient ++ (field 32 metadata ++ rest)) := by
    rw [List.drop_zero, hdata]
    simp only [List.append_assoc]
  -- the reader moves from field to field
  obtain ⟨htokenID, hle, hrest⟩ :=
    Slice.read_next (q := 32) (Nat.zero_le _) hstart (by rw [htoken])
  obtain ⟨hrecipient, hle, hrest⟩ := reads_field hle hrest (lt_of_le_slice calldata (by omega))
  obtain ⟨hmetadata, hle, -⟩ := reads_field hle hrest (lt_of_le_slice calldata (by omega))
  -- in the code the offsets 32 and 64 are literals
  have hword : calldata.read 32 64 = .ok (word 32 recipient.length) := hrecipient.word
  have hfinish : int64 (64 + (recipient.length : ℤ)) = (32 + 32 + recipient.length : ℕ) :=
    hrecipient.finish
  have hfield : calldata.read 64 (32 + 32 + recipient.length : ℕ) = .ok recipient :=
    hrecipient.field
  have hmetadataStart := hmetadata.start
  rw [Nat.cast_ofNat] at hmetadataStart
  rw [erc721HandleDeposit, if_neg (by omega)]
  rw [show calldata.read 0 32 = .ok tokenID from htokenID]
  simp only [ok_bind, hword, toNat_word, hrecipient.length, hfinish, hfield, hmetadataStart,
    hmetadata.word, hmetadata.length, hmetadata.finish]
  split_ifs with hpos
  · rw [hmetadata.field]
    rfl
  · -- without metadata nothing is read, which is the same
    rw [List.eq_nil_of_length_eq_zero (Nat.eq_zero_of_not_pos hpos)]
    rfl

/-- Calldata whose lengths stay within it is decoded to the fields it begins with. -/
theorem erc721HandleDeposit_of_le (hend : nonFungibleEnd calldata.elems ≤ calldata.elems.length) :
    ∃ tokenID recipient metadata,
      calldata.elems.take (nonFungibleEnd calldata.elems) =
        encodeNonFungible tokenID recipient metadata ∧
      erc721HandleDeposit h calldata handlerResponse = .ok (h.transfer none
        [.bytes tokenID, .bytes recipient, .bytes metadata] .nonFungibleTransfer) := by
  obtain ⟨tokenID, recipient, metadata, htoken, htake⟩ := take_nonFungibleEnd hend
  have hdata : calldata.elems = encodeNonFungible tokenID recipient metadata ++
      calldata.elems.drop (nonFungibleEnd calldata.elems) := by
    rw [← htake, List.take_append_drop]
  exact ⟨tokenID, recipient, metadata, htake, erc721HandleDeposit_encode htoken hdata⟩

end Decoding

/-- ERC721 calldata comes out of the message handler up to the end of its metadata, and what the
message handler writes is read back. -/
theorem nonFungible_codec :
    (∀ (h : DepositHeader) (calldata handlerResponse : Slice UInt8),
      nonFungibleEnd calldata.elems ≤ calldata.elems.length →
      ∃ m, erc721HandleDeposit h calldata handlerResponse = .ok m ∧
        erc721MessageHandler m =
          .ok (m.proposal (calldata.elems.take (nonFungibleEnd calldata.elems)))) ∧
    ∀ (m : Message) (tokenID recipient metadata : List UInt8), tokenID.length = 32 →
      m.data.payload = [.bytes tokenID, .bytes recipient, .bytes metadata] →
      ∃ p, erc721MessageHandler m = .ok p ∧
        ∀ (h : DepositHeader) (calldata handlerResponse : Slice UInt8),
          calldata.elems = p.data.data →
          ∃ m', erc721HandleDeposit h calldata handlerResponse = .ok m' ∧
            m'.data.payload = [.bytes tokenID, .bytes recipient, .bytes metadata] := by
  refine ⟨fun h calldata handlerResponse hend => ?_,
    fun m tokenID recipient metadata htoken hpayload => ?_⟩
  · obtain ⟨tokenID, recipient, metadata, htake, hhandle⟩ := erc721HandleDeposit_of_le hend
    refine ⟨_, hhandle, ?_⟩
    rw [htake]
    rfl
  · refine ⟨m.proposal (encodeNonFungible tokenID recipient metadata), ?_, ?_⟩
    · unfold erc721MessageHandler
      rw [hpayload]
      rfl
    · intro h calldata handlerResponse hdata
      have hencode : calldata.elems = encodeNonFungible tokenID recipient metadata ++ [] := by
        rw [List.append_nil, hdata]
        rfl
      exact ⟨_, erc721HandleDeposit_encode htoken hencode, rfl⟩

/-- Token 5 for a 20-byte recipient, with four bytes of metadata and one byte behind them. -/
def sampleTokenCalldata : Slice UInt8 where
  elems := encodeNonFungible [5] (List.replicate 20 0x5c) [0x69, 0x70, 0x66, 0x73] ++ [0xff]
  spare := []
  fits := by decide

/-- The same token without metadata. -/
def plainTokenCalldata : Slice UInt8 where
  elems := encodeNonFungible [5] (List.replicate 20 0x5c) []
  spare := []
  fits := by decide

theorem nonFungible_codec_sample :
    (∃ m, erc721HandleDeposit sampleHeader sampleTokenCalldata Slice.nil = .ok m ∧
      erc721MessageHandler m = .ok (m.proposal
        (encodeNonFungible [5] (List.replicate 20 0x5c) [0x69, 0x70, 0x66, 0x73]))) ∧
    ∃ p, erc721MessageHandler (sampleHeader.transfer none [.bytes (Bytes.leftPad [5] 32),
        .bytes (List.replicate 20 0x5c), .bytes []] .nonFungibleTransfer) = .ok p ∧
      plainTokenCalldata.elems = p.data.data ∧
      ∃ m', erc721HandleDeposit sampleHeader plainTokenCalldata Slice.nil = .ok m' ∧
        m'.data.payload = [.bytes (Bytes.leftPad [5] 32), .bytes (List.replicate 20 0x5c),
          .bytes []] := by
  obtain ⟨hroundtrip, hback⟩ := nonFungible_codec
  refine ⟨hroundtrip sampleHeader sampleTokenCalldata Slice.nil (by decide), ?_⟩
  obtain ⟨p, hp, hdecode⟩ := hback (sampleHeader.transfer none [.bytes (Bytes.leftPad [5] 32),
    .bytes (List.replicate 20 0x5c), .bytes []] .nonFungibleTransfer) _ _ _ (by decide) rfl
  have hdata : plainTokenCalldata.elems = p.data.data := by
    cases hp
    rfl
  exact ⟨p, hp, hdata, hdecode sampleHeader plainTokenCalldata Slice.nil hdata⟩

end Sygma.Evm
