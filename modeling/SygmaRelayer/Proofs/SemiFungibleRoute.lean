import SygmaRelayer.Lib.Abi
import SygmaRelayer.Spec.SemiFungibleCodec

/-! A semi-fungible deposit on its way to another EVM chain. The calldata of a deposit need not be
what `PackValues` makes of its values: offsets may be out of order or point to the same contents.
The data of the proposal always is, and it unpacks to the values of the deposit. -/

namespace Sygma.Evm

open Go Abi

theorem map_ofInt_toNat (l : List (BitVec 256)) :
    (l.map fun n => (n.toNat : ℤ)).map (BitVec.ofInt 256) = l := by
  rw [List.map_map]
  refine (List.map_congr_left fun n _ => ?_).trans (List.map_id l)
  simp

variable {abi : Codec erc1155Type}

theorem transferHandleMessage_erc1155 {h : DepositHeader} {calldata handlerResponse : Slice UInt8}
    {v : erc1155Type.Val} {m : Message} (hv : abi.unpackValues calldata.elems = .ok v)
    (hm : erc1155HandleDeposit abi h calldata handlerResponse = .ok m) :
    transferHandleMessage abi m = if v.2.2.1.length = 20 then .ok (m.proposal (abi.pack v))
      else .error (.error "malformed payload. Len  of recipient should be 20") := by
  obtain ⟨tokenIDs, amounts, recipient, transferData, ⟨⟩⟩ := v
  have htokenIDs := map_ofInt_toNat tokenIDs
  have hamounts := map_ofInt_toNat amounts
  rw [erc1155HandleDeposit, hv] at hm
  cases hm
  simp only [transferHandleMessage, DepositHeader.transfer, erc1155MessageHandler,
    PayloadItem.asBigInts, PayloadItem.asBytes, Go.ok_bind, htokenIDs, hamounts]
  by_cases hlength : recipient.length = 20
  · rw [if_pos hlength, if_neg (not_not.2 hlength)]
    rfl
  · rw [if_neg hlength, if_pos hlength]
    rfl

/-- Whatever calldata a semi-fungible deposit has, its message gets a proposal exactly if the
recipient has 20 bytes, and the bridge unpacks from the proposal what the handler unpacked. -/
theorem erc1155_route (habi : abi.Repacks) (h : DepositHeader)
    (calldata handlerResponse : Slice UInt8) {m : Message}
    (hm : erc1155HandleDeposit abi h calldata handlerResponse = .ok m) :
    ∃ v, abi.unpackValues calldata.elems = .ok v ∧
      (v.2.2.1.length = 20 → ∃ p, transferHandleMessage abi m = .ok p ∧
        abi.unpackValues p.data.data = .ok v ∧ p.source = h.sourceID ∧
        p.destination = h.destID ∧ p.data.depositNonce = h.nonce ∧ p.data.resourceId = h.resourceID) ∧
      (v.2.2.1.length ≠ 20 → transferHandleMessage abi m =
        .error (.error "malformed payload. Len  of recipient should be 20")) := by
  cases hv : abi.unpackValues calldata.elems with
  | error err =>
    rw [erc1155HandleDeposit, hv] at hm
    cases hm
  | ok v =>
    have hmessage := transferHandleMessage_erc1155 hv hm
    refine ⟨v, rfl, fun hlength => ?_, fun hlength => ?_⟩
    · rw [if_pos hlength] at hmessage
      have hround := abi.unpackValues_pack v (habi _ v hv calldata.length_lt)
      rw [erc1155HandleDeposit, hv] at hm
      cases hm
      exact ⟨_, hmessage, hround, rfl, rfl, rfl, rfl⟩
    · rwa [if_neg hlength] at hmessage

/-! ### The contract ABI -/

theorem repacks_erc1155 : erc1155Type.codec.Repacks := by
  intro data v h hdata
  have h : erc1155Type.unpackValues data = .ok v := mapError_eq_ok.1 h
  obtain ⟨tokenIDs, amounts, recipient, transferData, ⟨⟩⟩ := v
  obtain ⟨htokenIDs, h⟩ := Tys.unpack_cons_eq_ok.1 h
  obtain ⟨hamounts, h⟩ := Tys.unpack_cons_eq_ok.1 h
  obtain ⟨hrecipient, h⟩ := Tys.unpack_cons_eq_ok.1 h
  obtain ⟨htransferData, -⟩ := Tys.unpack_cons_eq_ok.1 h
  have htokenIDs : 32 * tokenIDs.length ≤ data.length := length_unpack_slice htokenIDs
  have hamounts : 32 * amounts.length ≤ data.length := length_unpack_slice hamounts
  have hrecipient : recipient.length ≤ data.length := length_unpack_bytes hrecipient
  have htransferData : transferData.length ≤ data.length := length_unpack_bytes htransferData
  have hrecipient' := length_pack_bytes_le recipient
  have htransferData' := length_pack_bytes_le transferData
  have htails : (tails (erc1155Type.items (tokenIDs, amounts, recipient, transferData, ()))).length =
      (32 * tokenIDs.length + 32) + ((32 * amounts.length + 32) +
        ((Ty.bytes.pack recipient).length + (Ty.bytes.pack transferData).length)) := by
    simp [Tys.items, tails, Ty.isDynamic, length_pack_uints]
  rw [Tys.codec, Tys.length_pack, htails]
  simp only [Tys.size, Ty.size]
  omega

/-- Calldata in which the token IDs, the amounts and the transfer data share their contents. -/
def sharedCalldata : Slice UInt8 where
  elems := List.replicate 31 0 ++ [128] ++ List.replicate 31 0 ++ [128] ++ List.replicate 31 0 ++ [192] ++
    List.replicate 31 0 ++ [128] ++ List.replicate 31 0 ++ [1] ++ List.replicate 31 0 ++ [7] ++
    List.replicate 31 0 ++ [20] ++ List.replicate 20 1 ++ List.replicate 12 0
  spare := []
  fits := by decide +kernel

theorem erc1155_route_shared : ∃ p,
    transferHandleMessage erc1155Type.codec (DepositHeader.transfer ⟨1, 2, 3, 4, "", 0⟩ none
      [.bigInts [7], .bigInts [7], .bytes (List.replicate 20 1), .bytes [0]] .semiFungibleTransfer) = .ok p ∧
    erc1155Type.codec.unpackValues p.data.data = .ok ([7], [7], List.replicate 20 1, [0], ()) := by
  have hv : erc1155Type.codec.unpackValues sharedCalldata.elems =
      .ok ([7], [7], List.replicate 20 1, [0], ()) := by decide +kernel
  have hm : erc1155HandleDeposit erc1155Type.codec ⟨1, 2, 3, 4, "", 0⟩ sharedCalldata
        ⟨[], [], by decide⟩ =
      .ok (DepositHeader.transfer ⟨1, 2, 3, 4, "", 0⟩ none
        [.bigInts [7], .bigInts [7], .bytes (List.replicate 20 1), .bytes [0]] .semiFungibleTransfer) := by
    rw [erc1155HandleDeposit, hv]
    rfl
  obtain ⟨v, hv', hok, -⟩ := erc1155_route repacks_erc1155 _ _ _ hm
  cases hv'.symm.trans hv
  obtain ⟨p, hp, hdata, -⟩ := hok rfl
  exact ⟨p, hp, hdata⟩

end Sygma.Evm
