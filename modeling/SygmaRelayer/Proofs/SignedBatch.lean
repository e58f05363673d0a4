import SygmaRelayer.Lib.Abi
import SygmaRelayer.Lib.TypedData
import SygmaRelayer.Spec.ProposalsHash

/-! What a signature for a batch stands for. As long as the hash does not collide on what it is
asked for two batches, equal digests mean the same domain, origins, nonces, resources and data in
the same order, and these are what `ExecuteProposals` submits. A digest says nothing of
destinations, gas limits and message IDs. -/

namespace Sygma.Evm

open Text
open Abi (FixedBytes)
open TypedData (CollisionFree Hasher)
open BtcListener (fromHexChar hexToAddress)

theorem resourceBytes_inj {r r' : ResourceID} (h : resourceBytes r = resourceBytes r') : r = r' := by
  have hword := congrArg (fun b : FixedBytes 32 => Bytes.toNat b.1) h
  simp only [resourceBytes, Abi.toNat_word r.isLt, Abi.toNat_word r'.isLt] at hword
  exact BitVec.eq_of_toNat_eq hword

/-- The proposals agree on what is signed. -/
def SameSigned (p p' : TransferProposal) : Prop :=
  p.source = p'.source ∧ p.data.depositNonce = p'.data.depositNonce ∧
    p.data.resourceId = p'.data.resourceId ∧ p.data.data = p'.data.data

theorem same_formatProposal_iff {p p' : TransferProposal} :
    proposalMembers.Same hexToAddress (formatProposal p) (formatProposal p') ↔ SameSigned p p' := by
  simp only [TypedData.Tys.Same, TypedData.Ty.Same, formatProposal, SameSigned, and_true,
    Int.natCast_inj, UInt8.toNat_inj, UInt64.toNat_inj]
  exact and_congr_right' (and_congr_right' (and_congr_left' ⟨resourceBytes_inj, congrArg _⟩))

theorem bridgeProposal_eq_iff {p p' : TransferProposal} :
    bridgeProposal p = bridgeProposal p' ↔ SameSigned p p' := by
  simp only [bridgeProposal, SameSigned, Prod.mk.injEq, and_true, UInt8.toBitVec_inj,
    UInt64.toBitVec_inj]
  exact and_congr_right' (and_congr_right' (and_congr_left' ⟨resourceBytes_inj, congrArg _⟩))

theorem map_bridgeProposal_eq_iff {proposals proposals' : List TransferProposal} :
    proposals.map bridgeProposal = proposals'.map bridgeProposal ↔
      List.Forall₂ SameSigned proposals proposals' := by
  rw [← List.forall₂_eq_eq_eq, List.forall₂_map_left_iff, List.forall₂_map_right_iff]
  exact ⟨fun h => h.imp fun _ _ => bridgeProposal_eq_iff.1,
    fun h => h.imp fun _ _ => bridgeProposal_eq_iff.2⟩

/-! ### Digests -/

section

variable {lib : Hasher hexToAddress} {proposals proposals' : List TransferProposal}
  {chainID chainID' : Int64} {verifContract verifContract' version version' : List UInt8}

theorem same_typedDomain_iff :
    domainMembers.Same hexToAddress (typedDomain chainID verifContract version)
        (typedDomain chainID' verifContract' version') ↔
      chainID = chainID' ∧ hexToAddress verifContract = hexToAddress verifContract' ∧
        version = version' := by
  simp only [TypedData.Tys.Same, TypedData.Ty.Same, typedDomain, true_and, and_true, Int64.toInt_inj]
  tauto

theorem same_proposals_iff :
    proposalsMembers.Same hexToAddress (proposals.map formatProposal, ())
        (proposals'.map formatProposal, ()) ↔ List.Forall₂ SameSigned proposals proposals' := by
  rw [TypedData.Tys.Same, TypedData.Tys.Same, and_true, TypedData.Ty.Same,
    List.forall₂_map_left_iff, List.forall₂_map_right_iff]
  exact ⟨fun h => h.imp fun _ _ => same_formatProposal_iff.1,
    fun h => h.imp fun _ _ => same_formatProposal_iff.2⟩

/-- What is hashed for a batch and a domain. -/
def hashQueries (lib : Hasher hexToAddress) (proposals : List TransferProposal) (chainID : Int64)
    (verifContract version : List UInt8) : List (List UInt8) :=
  let domain := typedDomain chainID verifContract version
  let message := (proposals.map formatProposal, ())
  (match lib.hashStruct "EIP712Domain" domainMembers domain,
      lib.hashStruct "Proposals" proposalsMembers message with
    | .ok domainSeparator, .ok typedDataHash => [rawData domainSeparator typedDataHash]
    | _, _ => []) ++
    (lib.queries "EIP712Domain" domainMembers domain ++
      lib.queries "Proposals" proposalsMembers message)

theorem rawData_eq_iff {a a' b b' : FixedBytes 32} :
    rawData a b = rawData a' b' ↔ a = a' ∧ b = b' := by
  constructor
  · intro h
    rw [rawData, rawData, List.cons.injEq, List.cons.injEq] at h
    obtain ⟨ha, hb⟩ := List.append_inj h.2.2 (a.2.trans a'.2.symm)
    exact ⟨Subtype.ext ha, Subtype.ext hb⟩
  · rintro ⟨rfl, rfl⟩
    rfl

theorem digest_eq_iff {digest digest' : FixedBytes 32}
    (h : proposalsHash lib proposals chainID verifContract version = .ok digest)
    (h' : proposalsHash lib proposals' chainID' verifContract' version' = .ok digest')
    (hfree : CollisionFree lib.hash (hashQueries lib proposals chainID verifContract version ++
      hashQueries lib proposals' chainID' verifContract' version')) :
    digest = digest' ↔ domainMembers.Same hexToAddress (typedDomain chainID verifContract version)
        (typedDomain chainID' verifContract' version') ∧
      List.Forall₂ SameSigned proposals proposals' := by
  obtain ⟨separator, hseparator, h⟩ := Fallible.bind_eq_ok.1 h
  obtain ⟨message, hmessage, hdigest⟩ := Fallible.bind_eq_ok.1 h
  obtain ⟨separator', hseparator', h'⟩ := Fallible.bind_eq_ok.1 h'
  obtain ⟨message', hmessage', hdigest'⟩ := Fallible.bind_eq_ok.1 h'
  cases hdigest
  cases hdigest'
  simp only [hashQueries, hseparator, hmessage, hseparator', hmessage'] at hfree
  have hdomain := lib.hashStruct_eq_iff hseparator hseparator'
    (hfree.mono fun q hq => by simp only [List.mem_append] at hq ⊢; tauto)
  have hprops := lib.hashStruct_eq_iff hmessage hmessage'
    (hfree.mono fun q hq => by simp only [List.mem_append] at hq ⊢; tauto)
  rw [same_proposals_iff] at hprops
  rw [← hdomain, ← hprops, ← rawData_eq_iff]
  exact ⟨hfree _ (by simp) _ (by simp), congrArg _⟩

/-- Two digests are equal exactly if they are for the same chain, contract and version, and for
proposals that agree in order on what is signed. -/
theorem proposalsHash_eq_iff {digest digest' : FixedBytes 32}
    (h : proposalsHash lib proposals chainID verifContract version = .ok digest)
    (h' : proposalsHash lib proposals' chainID' verifContract' version' = .ok digest')
    (hfree : CollisionFree lib.hash (hashQueries lib proposals chainID verifContract version ++
      hashQueries lib proposals' chainID' verifContract' version')) :
    digest = digest' ↔ (chainID = chainID' ∧ hexToAddress verifContract = hexToAddress verifContract' ∧
      version = version') ∧ List.Forall₂ SameSigned proposals proposals' := by
  rw [digest_eq_iff h h' hfree, same_typedDomain_iff]

end

/-! ### The bridge contract -/

section

variable {lib : Hasher hexToAddress} {input : Abi.Codec executeProposalsType}
  {contractAddress : List UInt8} {chainID : ℤ} {proposals proposals' : List TransferProposal}
  {digest digest' : FixedBytes 32}

theorem executeProposals_eq_iff {signature signature' : List UInt8}
    (hsize : (executeProposals input proposals signature).length < 2 ^ 63) :
    executeProposals input proposals signature = executeProposals input proposals' signature' ↔
      List.Forall₂ SameSigned proposals proposals' ∧ signature = signature' := by
  rw [← map_bridgeProposal_eq_iff]
  constructor
  · intro heq
    have hargs := Abi.Codec.pack_inj hsize heq
    simp only [Prod.mk.injEq, and_true] at hargs
    exact hargs
  · rintro ⟨hprops, rfl⟩
    rw [executeProposals, executeProposals, hprops]

/-- Two batches of a bridge have one digest exactly if `ExecuteProposals` sends the same input for
them with the same signature: what a signature allows is what is submitted with it. -/
theorem signed_iff_submitted
    (h : bridgeProposalsHash lib contractAddress (.ok chainID) proposals = .ok digest)
    (h' : bridgeProposalsHash lib contractAddress (.ok chainID) proposals' = .ok digest')
    (hfree : CollisionFree lib.hash
      (hashQueries lib proposals (Int64.ofInt chainID) contractAddress bridgeVersion ++
        hashQueries lib proposals' (Int64.ofInt chainID) contractAddress bridgeVersion))
    (signature : List UInt8) (hsize : (executeProposals input proposals signature).length < 2 ^ 63) :
    digest = digest' ↔
      executeProposals input proposals signature = executeProposals input proposals' signature := by
  rw [digest_eq_iff h h' hfree, executeProposals_eq_iff hsize]
  constructor
  · rintro ⟨-, hprops⟩
    exact ⟨hprops, rfl⟩
  · rintro ⟨hprops, -⟩
    exact ⟨same_typedDomain_iff.2 ⟨rfl, rfl, rfl⟩, hprops⟩

end

/-! ### A batch of one proposal

Keccak-256 on the texts that typed data make of it. -/

/-- `common.IsHexAddress` -/
def isHexAddress (s : List UInt8) : Bool :=
  let digits := if s.take 2 = [48, 120] ∨ s.take 2 = [48, 88] then s.drop 2 else s
  digits.length = 40 ∧ digits.all fun c => (fromHexChar c).isSome

theorem length_hexToAddress (s : List UInt8) : (hexToAddress s).length = 20 := by
  simp only [hexToAddress, Bytes.leftPad, List.length_leftpad, List.length_drop]
  omega

def parseAddress (s : List UInt8) : Except String (FixedBytes 20) :=
  if isHexAddress s then .ok ⟨hexToAddress s, length_hexToAddress s⟩
  else .error "provided data is no address"

theorem parseAddress_eq {s : List UInt8} {a : FixedBytes 20} (h : parseAddress s = .ok a) :
    a.1 = hexToAddress s := by
  unfold parseAddress at h
  split_ifs at h
  cases h
  rfl

def encodeType : String → TypedData.Tys → List UInt8
  | "EIP712Domain", _ =>
    ascii "EIP712Domain(string name,string version,uint256 chainId,address verifyingContract)"
  | "Proposal", _ =>
    ascii "Proposal(uint8 originDomainID,uint64 depositNonce,bytes32 resourceID,bytes data)"
  | _, _ =>
    ascii ("Proposals(Proposal[] proposals)" ++
      "Proposal(uint8 originDomainID,uint64 depositNonce,bytes32 resourceID,bytes data)")

/-- An amount of 100000000000000 for a recipient of 36 bytes. -/
def signedData : List UInt8 :=
  Abi.word 100000000000000 ++ Abi.word 36 ++
    [0, 1, 1, 0, 212, 53, 147, 199, 21, 253, 211, 28, 97, 20, 26, 189, 4, 169, 159, 214, 130, 44, 133,
      88, 133, 76, 205, 227, 154, 86, 132, 231, 165, 109, 162, 125]

def keccakTable : List (List UInt8 × ℕ) :=
  [(encodeType "EIP712Domain" .nil,
      0x8b73c3c69bb8fe3d512ecc4cf759cc79239f7b179b0ffacaa9a75d522b39400f),
    (encodeType "Proposal" .nil,
      0xcc13634e956dd3d4ec8d808ee8bf294e1cd05a38f63fe7f234b079a0a4c36a70),
    (encodeType "Proposals" .nil,
      0x989d14110ba109ccad392cc18511d1f6ae3a85165c5960e49d72c2c67682fde5),
    (ascii "Bridge", 0x7aa5ae620294318af92bf4e2b2a729646c932a80312a5fa630da993a2ef5cc10),
    (ascii "3.1.0", 0x0e23d0b508e2034d01a5c31f12e9d9bbb31708c5518057dde31201ab93b17cef),
    -- the domain
    (Abi.word 0x8b73c3c69bb8fe3d512ecc4cf759cc79239f7b179b0ffacaa9a75d522b39400f ++
        Abi.word 0x7aa5ae620294318af92bf4e2b2a729646c932a80312a5fa630da993a2ef5cc10 ++
        Abi.word 0x0e23d0b508e2034d01a5c31f12e9d9bbb31708c5518057dde31201ab93b17cef ++
        Abi.word 5 ++ Abi.word 0x6cde2cd82a4f8b74693ff5e194c19ca08c2d1c68,
      0x25068876a4cd95e3bcc5832946c0736bacdb95c8b66c2d4cfa85a96cd8ce3f42),
    (signedData, 0xae2ad58cf14d0e7e0ff9652ab09a99b1d4f428552968e2b4f90e355f90905c29),
    -- the proposal, the array that holds it and the message
    (Abi.word 0xcc13634e956dd3d4ec8d808ee8bf294e1cd05a38f63fe7f234b079a0a4c36a70 ++ Abi.word 1 ++
        Abi.word 15078986465725403975 ++ Abi.word (3 * 2 ^ 248) ++
        Abi.word 0xae2ad58cf14d0e7e0ff9652ab09a99b1d4f428552968e2b4f90e355f90905c29,
      0x287a40de2c5feb63c33981f9092f54d226bee5096f22f869030c9cf5689bb94c),
    (Abi.word 0x287a40de2c5feb63c33981f9092f54d226bee5096f22f869030c9cf5689bb94c,
      0xfabdbc05b1ace1d82b8b3a880c6c118efc6e67f168d0fade93a9c0c50832a9f8),
    (Abi.word 0x989d14110ba109ccad392cc18511d1f6ae3a85165c5960e49d72c2c67682fde5 ++
        Abi.word 0xfabdbc05b1ace1d82b8b3a880c6c118efc6e67f168d0fade93a9c0c50832a9f8,
      0x09b11b50428070148e59a4581760aee8080295bd58b1b977f4e5806654cfda89),
    (0x19 :: 0x01 :: (Abi.word 0x25068876a4cd95e3bcc5832946c0736bacdb95c8b66c2d4cfa85a96cd8ce3f42 ++
        Abi.word 0x09b11b50428070148e59a4581760aee8080295bd58b1b977f4e5806654cfda89),
      0xde7b5c9e087ab4f5fb0e9f73a7e5bd0bdf9eeb04aabbd0e8f8de58a204a33e55)]

def tableHash (text : List UInt8) : FixedBytes 32 :=
  ⟨Abi.word ((keccakTable.lookup text).getD 0), Abi.length_word _⟩

def tableHasher : Hasher hexToAddress := TypedData.hasher tableHash encodeType parseAddress parseAddress_eq

def signedProposal (destination : UInt8) (gasLimit : Option UInt64) : TransferProposal :=
  ⟨1, destination, ⟨15078986465725403975, 3 * 2 ^ 248, gasLimit, signedData⟩, ""⟩

/-- The digest of the test of `ProposalsHash`. -/
def signedDigest : FixedBytes 32 :=
  ⟨Abi.word 0xde7b5c9e087ab4f5fb0e9f73a7e5bd0bdf9eeb04aabbd0e8f8de58a204a33e55, Abi.length_word _⟩

theorem proposalsHash_eq_iff_signedProposal :
    palletProposalsHash tableHasher 5 [signedProposal 2 none] = .ok signedDigest ∧
      proposalsHash tableHasher [signedProposal 3 (some 9)] 5
        (ascii "0x6cde2cd82a4f8b74693ff5e194c19ca08c2d1c68") bridgeVersion = .ok signedDigest ∧
      List.Forall₂ SameSigned [signedProposal 2 none] [signedProposal 3 (some 9)] := by
  have h : palletProposalsHash tableHasher 5 [signedProposal 2 none] = .ok signedDigest := by
    decide +kernel
  have h' : proposalsHash tableHasher [signedProposal 3 (some 9)] 5
      (ascii "0x6cde2cd82a4f8b74693ff5e194c19ca08c2d1c68") bridgeVersion = .ok signedDigest := by
    decide +kernel
  exact ⟨h, h', ((proposalsHash_eq_iff h h' (by decide +kernel)).1 rfl).2⟩

def bridgeInput : Abi.Codec executeProposalsType :=
  executeProposalsType.callCodec ⟨[0x1f, 0x5c, 0x64, 0xc1], rfl⟩

theorem signed_iff_submitted_signedProposal :
    executeProposals bridgeInput [signedProposal 2 none] [0] =
      executeProposals bridgeInput [signedProposal 3 (some 9)] [0] := by
  have h (destination : UInt8) (gasLimit : Option UInt64) :
      bridgeProposalsHash tableHasher (ascii "0x6CdE2Cd82a4F8B74693Ff5e194c19CA08c2d1c68") (.ok 5)
        [signedProposal destination gasLimit] = .ok signedDigest := by
    change bridgeProposalsHash tableHasher (ascii "0x6CdE2Cd82a4F8B74693Ff5e194c19CA08c2d1c68") (.ok 5)
      [signedProposal 2 none] = .ok signedDigest
    decide +kernel
  exact (signed_iff_submitted (h 2 none) (h 3 (some 9)) (by decide +kernel) [0] (by decide +kernel)).1
    rfl

end Sygma.Evm
