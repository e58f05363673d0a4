import SygmaRelayer.Lib.Text
import SygmaRelayer.Lib.TypedDataTypes
import SygmaRelayer.Spec.BtcDeposits
import SygmaRelayer.Spec.EvmExecutor

/-! What is signed for a batch of proposals and what is submitted with the signature:
`chains.ProposalsHash` (`chains/proposal.go`), which hashes the batch as typed data, and
`ProposalsHash` and `ExecuteProposals` of the bridge contract
(`chains/evm/calls/contracts/bridge/bridge.go`). How typed data are hashed and how the arguments of
a call are packed is left to the libraries the relayer uses. A Go string is the list of its
bytes. -/

namespace Sygma.Evm

open Text
open Abi (FixedBytes)
open BtcListener (hexToAddress)

/-! ### Typed data -/

/-- `EIP712Domain` -/
abbrev domainMembers : TypedData.Tys :=
  .cons "name" .string (.cons "version" .string (.cons "chainId" (.uint 256 Abi.bits256)
    (.cons "verifyingContract" .address .nil)))

/-- `Proposal` -/
abbrev proposalMembers : TypedData.Tys :=
  .cons "originDomainID" (.uint 8 Abi.bits8) (.cons "depositNonce" (.uint 64 Abi.bits64)
    (.cons "resourceID" .bytes32 (.cons "data" .bytes .nil)))

/-- `Proposals` -/
abbrev proposalsMembers : TypedData.Tys :=
  .cons "proposals" (.array (.struct "Proposal" proposalMembers)) .nil

/-- The bytes of a resource. -/
def resourceBytes (r : ResourceID) : FixedBytes 32 := ⟨Abi.word r.toNat, Abi.length_word _⟩

/-- An element of `formattedProps`; the text of the resource has its bytes in hexadecimal digits. -/
def formatProposal (prop : TransferProposal) : proposalMembers.Data :=
  (prop.source.toNat, prop.data.depositNonce.toNat, resourceBytes prop.data.resourceId,
    prop.data.data, ())

/-- `typedData.Domain` -/
def typedDomain (chainID : Int64) (verifContract bridgeVersion : List UInt8) : domainMembers.Data :=
  (ascii "Bridge", bridgeVersion, chainID.toInt, verifContract, ())

/-- `rawData` -/
def rawData (domainSeparator typedDataHash : FixedBytes 32) : List UInt8 :=
  0x19 :: 0x01 :: (domainSeparator.1 ++ typedDataHash.1)

-- `hashStruct` is `HashStruct` of `apitypes`, and `hash` is `crypto.Keccak256`
variable (lib : TypedData.Hasher hexToAddress)

/-- `chains.ProposalsHash` -/
def proposalsHash (proposals : List TransferProposal) (chainID : Int64)
    (verifContract bridgeVersion : List UInt8) : Except String (FixedBytes 32) := do
  let domainSeparator ← lib.hashStruct "EIP712Domain" domainMembers
    (typedDomain chainID verifContract bridgeVersion)
  let typedDataHash ← lib.hashStruct "Proposals" proposalsMembers
    (proposals.map formatProposal, ())
  return lib.hash (rawData domainSeparator typedDataHash)

/-! ### The bridge contract -/

/-- `bridgeVersion` -/
def bridgeVersion : List UInt8 := ascii "3.1.0"

/-- `BridgeContract.ProposalsHash` on what `ChainID` returned, for the contract whose address has
this text. -/
def bridgeProposalsHash (contractAddress : List UInt8) (chainID : Except String ℤ)
    (proposals : List TransferProposal) : Except String (FixedBytes 32) := do
  let chainID ← chainID
  proposalsHash lib proposals (Int64.ofInt chainID) contractAddress bridgeVersion

/-- `Pallet.ProposalsHash` (`chains/substrate/pallet/pallet.go`), of the same version, under a
contract that stands for all pallets. -/
def palletProposalsHash (chainID : ℤ) (proposals : List TransferProposal) :
    Except String (FixedBytes 32) :=
  proposalsHash lib proposals (Int64.ofInt chainID)
    (ascii "6CdE2Cd82a4F8B74693Ff5e194c19CA08c2d1c68") bridgeVersion

/-- `BridgeProposal`, as the ABI of the bridge orders its fields. -/
abbrev bridgeProposalType : Abi.Ty :=
  .tuple (.uint 8 Abi.bits8)
    (.cons (.uint 64 Abi.bits64) (.cons (.fixedBytes 32 Abi.size32) (.cons .bytes .nil)))

/-- The arguments of the method `executeProposals`. -/
abbrev executeProposalsType : Abi.Tys := .cons (.slice bridgeProposalType) (.cons .bytes .nil)

/-- An element of `bridgeProposals`. -/
def bridgeProposal (prop : TransferProposal) : bridgeProposalType.Val :=
  (prop.source.toBitVec, prop.data.depositNonce.toBitVec, resourceBytes prop.data.resourceId,
    prop.data.data, ())

/-- `BridgeContract.ExecuteProposals`: the input of the transaction, which `ExecuteTransaction`
packs and the contract unpacks. -/
def executeProposals (input : Abi.Codec executeProposalsType) (proposals : List TransferProposal)
    (signature : List UInt8) : List UInt8 :=
  input.pack (proposals.map bridgeProposal, signature, ())

end Sygma.Evm
