import SygmaRelayer.Proofs.BridgedTransfers
import SygmaRelayer.Proofs.DepositIsolation
import SygmaRelayer.Proofs.EvmBatchOrder
import SygmaRelayer.Proofs.RetriedDeposits
import SygmaRelayer.Proofs.SignedBatch
import SygmaRelayer.Spec.BridgeEvents

/-! From the logs of one bridge to the transactions for another. The deposits that a bridge logs in
a block range are read back from the logs, grouped by destination, turned into proposals, put into
batches and packed into calldata, and none of these steps loses, repeats, reorders or alters one of
them. -/

namespace Sygma.Evm

open Go
open Listener (Address Hash Log Client depositArgs)

/-! ### Logs -/

theorem toNat_resourceBytes (r : ResourceID) : BitVec.ofNat 256 (Bytes.toNat (resourceBytes r).1) = r := by
  rw [resourceBytes, Abi.toNat_word r.isLt, BitVec.ofNat_toNat, BitVec.setWidth_eq]

/-- A deposit as the bridge makes it. -/
structure BridgeDeposit where
  destinationDomainID : UInt8
  resourceID : ResourceID
  depositNonce : UInt64
  transfer : Transfer
  handlerResponse : List UInt8
  user : Address
  blockNumber : UInt64
  response : handlerResponse = [] ∨ 32 ≤ handlerResponse.length

/-- The key of its proposal in the status store. -/
def BridgeDeposit.key (d : BridgeDeposit) (domainID : UInt8) : PropKey :=
  ⟨domainID, d.destinationDomainID, d.depositNonce⟩

/-- A chain with a bridge, as its relayer reads it. -/
structure Source where
  depositAbi : Abi.Codec depositArgs
  erc1155Abi : Abi.Codec erc1155Type
  keccak256 : String → Hash
  bridgeAddress : Address
  client : Client
  getHandlerAddressForResourceID : ResourceID → Except String Address
  handlers : List HandlerConfig

namespace Source

variable (c : Source)

/-- What the bridge logs for a deposit. -/
def log (d : BridgeDeposit) : Log :=
  ⟨c.bridgeAddress, [c.keccak256 Listener.depositSig, d.user.setWidth 256],
    c.depositAbi.pack (d.destinationDomainID.toBitVec, resourceBytes d.resourceID,
      d.depositNonce.toBitVec, d.transfer.calldata c.erc1155Abi, d.handlerResponse, ()),
    d.blockNumber⟩

/-- The deposit as it is to be fetched. -/
def deposit (d : BridgeDeposit) : Listener.Deposit :=
  ⟨⟨d.destinationDomainID, d.resourceID, d.depositNonce, d.transfer.calldata c.erc1155Abi,
    d.handlerResponse⟩, d.user, c.client.timestamp (c.log d)⟩

/-- The proposal for it, under the message ID of its destination. -/
def proposal (domainID : UInt8) (messageID : UInt8 → String) (d : BridgeDeposit) :
    TransferProposal :=
  d.transfer.proposal c.erc1155Abi ⟨domainID, d.destinationDomainID, d.depositNonce, d.resourceID,
    messageID d.destinationDomainID, 0⟩ d.handlerResponse

/-- `FetchDeposits` for blocks with these logs. -/
def fetchDeposits (logs : List Log) : Outcome (List Listener.Deposit) :=
  Listener.fetchDeposits (Listener.unpackDeposit c.depositAbi) c.client
    (.ok (Listener.eventLogs c.keccak256 c.bridgeAddress Listener.depositSig logs))

def handleDeposit : DepositHandler :=
  ethHandleDeposit c.getHandlerAddressForResourceID
    (registerDepositHandlers c.erc1155Abi c.handlers)

/-- A fetched deposit as `ProcessDeposits` gets it: its slices may have more behind their
elements. -/
structure InMemory (d : Listener.Deposit) (f : Fetched) : Prop where
  destinationDomainID : f.deposit.destinationDomainID = d.destinationDomainID
  resourceID : f.deposit.resourceID = d.resourceID
  depositNonce : f.deposit.depositNonce = d.depositNonce
  data : f.deposit.data.elems = d.data
  handlerResponse : f.deposit.handlerResponse.elems = d.handlerResponse
  timestamp : f.deposit.timestamp = d.timestamp
  handleDeposit : f.handleDeposit = c.handleDeposit

/-- The bridge names a handler for the resource of the deposit, and it is registered as one for its
kind of transfer. -/
def Registered (d : BridgeDeposit) : Prop :=
  ∃ address, c.getHandlerAddressForResourceID d.resourceID = .ok address ∧
    registerDepositHandlers c.erc1155Abi c.handlers address = some (d.transfer.handler c.erc1155Abi)

/-- `ProcessDeposits` gets `fetched` from the logs, in which the bridge has put `deposits`. -/
structure Reads (logs : List Log) (deposits : List BridgeDeposit) (fetched : List Fetched) :
    Prop where
  logged : Listener.eventLogs c.keccak256 c.bridgeAddress Listener.depositSig logs =
    deposits.map c.log
  fits : ∀ d ∈ deposits, (c.log d).data.length < 2 ^ 63
  registered : ∀ d ∈ deposits, c.Registered d
  fetched : ∃ found, c.fetchDeposits logs = .ok found ∧ List.Forall₂ c.InMemory found fetched

variable {c}

theorem parseDeposit_log {d : BridgeDeposit} (hfits : (c.log d).data.length < 2 ^ 63) :
    Listener.parseDeposit (Listener.unpackDeposit c.depositAbi) c.client (c.log d) =
      .ok (c.deposit d) := by
  have hunpack : Listener.unpackDeposit c.depositAbi (c.log d).data =
      .ok (c.deposit d).toDepositData := by
    rw [Listener.unpackDeposit, log, c.depositAbi.unpackValues_pack _ hfits, Fallible.bind_ok]
    dsimp only
    rw [toNat_resourceBytes]
    rfl
  have huser : (d.user.setWidth 256).setWidth 160 = d.user := by
    rw [BitVec.setWidth_setWidth_of_le _ (by decide), BitVec.setWidth_eq]
  have htopic : (c.log d).topics[1]? = some (d.user.setWidth 256) := rfl
  simp only [Listener.parseDeposit, hunpack, htopic, huser]
  rfl

/-- `FetchDeposits` returns the deposits that the bridge has logged. -/
theorem fetchDeposits_logs {logs : List Log} {deposits : List BridgeDeposit}
    (hlogged : Listener.eventLogs c.keccak256 c.bridgeAddress Listener.depositSig logs =
      deposits.map c.log)
    (hfits : ∀ d ∈ deposits, (c.log d).data.length < 2 ^ 63) :
    c.fetchDeposits logs = .ok (deposits.map c.deposit) := by
  rw [fetchDeposits, hlogged, Listener.fetchDeposits_eq_ok]
  have hparse : ∀ d ∈ deposits, Listener.parseDeposit (Listener.unpackDeposit c.depositAbi) c.client
      (c.log d) = .ok (c.deposit d) :=
    fun d hd => parseDeposit_log (hfits d hd)
  constructor
  · intro dl hdl
    obtain ⟨d, hd, rfl⟩ := List.mem_map.1 hdl
    simp [hparse d hd]
  · rw [List.filterMap_map]
    symm
    rw [← List.filterMap_eq_map]
    apply List.filterMap_congr
    intro d hd
    simp [Listener.parsed, hparse d hd, Except.toOption]

/-! ### Messages -/

/-- The message of a deposit. -/
structure Resolves (c : Source) (domainID : UInt8) (messageID : UInt8 → String) (d : BridgeDeposit)
    (m : Message) : Prop where
  destination : m.destination = d.destinationDomainID
  key : m.key = d.key domainID
  resourceId : m.data.resourceId = d.resourceID
  proposal : transferHandleMessage c.erc1155Abi m = .ok (c.proposal domainID messageID d)

theorem InMemory.resolves {d : BridgeDeposit} {f : Fetched} (h : c.InMemory (c.deposit d) f)
    (hregistered : c.Registered d) (domainID : UInt8) (messageID : UInt8 → String) :
    ∃ m, f.message domainID messageID = .ok m ∧ c.Resolves domainID messageID d m := by
  obtain ⟨address, haddress, hhandler⟩ := hregistered
  have hdata : f.deposit.data.elems = d.transfer.calldata c.erc1155Abi := h.data
  have hresponse : f.deposit.handlerResponse.elems = d.handlerResponse := h.handlerResponse
  have hlength := d.response
  rw [← hresponse] at hlength
  obtain ⟨m, hm, hdestination, hkey, hresource, hproposal⟩ := exists_carries c.erc1155Abi
    ⟨domainID, d.destinationDomainID, d.depositNonce, d.resourceID,
      messageID d.destinationDomainID, f.deposit.timestamp⟩ d.transfer hdata hlength
  refine ⟨m, ?_, hdestination, hkey, hresource, ?_⟩
  · simp only [Fetched.message, h.handleDeposit, Source.handleDeposit, ethHandleDeposit,
      h.destinationDomainID, h.resourceID, h.depositNonce, deposit, haddress, hhandler, hm]
  · rw [hproposal, hresponse]
    rfl

theorem Reads.resolves {logs : List Log} {deposits : List BridgeDeposit} {fetched : List Fetched}
    (h : c.Reads logs deposits fetched) (domainID : UInt8) (messageID : UInt8 → String) :
    List.Forall₂ (c.Resolves domainID messageID) deposits
      (fetched.filterMap fun f => delivered (some <$> f.message domainID messageID)) := by
  obtain ⟨found, hfound, hmemory⟩ := h.fetched
  rw [fetchDeposits_logs h.logged h.fits] at hfound
  obtain rfl := Except.ok.inj hfound
  have hregistered := h.registered
  rw [List.forall₂_map_left_iff] at hmemory
  clear h hfound
  induction hmemory with
  | nil => exact .nil
  | @cons d f deposits fetched hf _ ih =>
    obtain ⟨m, hm, hresolves⟩ := hf.resolves (hregistered d List.mem_cons_self) domainID messageID
    rw [List.filterMap_cons, hm]
    exact .cons hresolves (ih fun d' hd' => hregistered d' (List.mem_cons_of_mem d hd'))

section

variable {domainID : UInt8} {messageID : UInt8 → String} {deposits : List BridgeDeposit}
  {messages : List Message}

theorem Resolves.filter (h : List.Forall₂ (c.Resolves domainID messageID) deposits messages)
    (destination : UInt8) :
    List.Forall₂ (c.Resolves domainID messageID)
      (deposits.filter (·.destinationDomainID = destination))
      (messages.filter (·.destination = destination)) :=
  List.rel_filter (fun d m hm => by simp [hm.destination]) h

theorem map_key (h : List.Forall₂ (c.Resolves domainID messageID) deposits messages) :
    messages.map Message.key = deposits.map (·.key domainID) := by
  induction h with
  | nil => rfl
  | cons hm _ ih => rw [List.map_cons, List.map_cons, hm.key, ih]

theorem mapM_transferHandleMessage
    (h : List.Forall₂ (c.Resolves domainID messageID) deposits messages) :
    messages.mapM (transferHandleMessage c.erc1155Abi) =
      .ok (deposits.map (c.proposal domainID messageID)) := by
  rw [Fallible.mapM_eq_ok, List.forall₂_map_right_iff]
  exact h.flip.imp fun _ _ hm => hm.proposal

end

end Source

/-! ### Transactions -/

/-- What the bridge unpacks from the input of a transaction. -/
def unpackedProposals (input : Abi.Codec executeProposalsType) (data : List UInt8) :
    List bridgeProposalType.Val :=
  match input.unpackValues data with
  | .ok (proposals, _, ()) => proposals
  | .error _ => []

theorem unpackedProposals_batches {input : Abi.Codec executeProposalsType} {cfg : Config}
    {isProposalExecuted : Bridge} {proposals : List TransferProposal} {batches : List Batch}
    (h : proposalBatches cfg isProposalExecuted proposals = .ok batches)
    {signature : Batch → List UInt8}
    (hsize : ∀ b ∈ batches, (executeProposals input b.proposals (signature b)).length < 2 ^ 63) :
    batches.flatMap (fun b =>
        unpackedProposals input (executeProposals input b.proposals (signature b))) =
      (outstanding isProposalExecuted proposals).map bridgeProposal := by
  rw [← proposalBatches_flatMap h, List.map_flatMap]
  refine List.flatMap_congr fun b hb => ?_
  rw [unpackedProposals, executeProposals, input.unpackValues_pack _ (hsize b hb)]

def tokenDeposit : BridgeDeposit :=
  ⟨2, 3, 7, .nonFungible ⟨Abi.word 5, Abi.length_word 5⟩ (List.replicate 20 0x5c) [0x69], [], 0xa, 20,
    Or.inl rfl⟩

def amountDeposit : BridgeDeposit :=
  ⟨2, 4, 8, .fungible ⟨Abi.word 9, Abi.length_word 9⟩ (List.replicate 20 0x5c) (by simp), Abi.word 90,
    0xb, 20, Or.inr (Abi.length_word 90).ge⟩

/-- Keccak-256 of the events in use. -/
def eventHash (event : String) : Hash :=
  if event = Listener.depositSig then
    0x17bc3181e17a9620a479c24e6c606e474ba84fc036877b768926872e8cd0e11f
  else if event = Listener.retryV2Sig then
    0x65d45138b1e3691f74d8f1df30225e7e36036cd84416a0a82bd26f371b2e89a9
  else 0

def bridgeSource : Source where
  depositAbi := depositArgs.codec
  erc1155Abi := erc1155Type.codec
  keccak256 := eventHash
  bridgeAddress := 0xb1
  client := ⟨fun _ => .ok 12, fun _ => 0⟩
  getHandlerAddressForResourceID r :=
    if r = 3 then .ok (addressOf (Text.ascii "0x21")) else .ok (addressOf (Text.ascii "0x20"))
  handlers := [⟨Text.ascii "0x21", "erc721"⟩, ⟨Text.ascii "0x20", "native"⟩]

/-- The logs of the deposits and one of another contract. -/
def bridgeLogs : List Log :=
  [bridgeSource.log tokenDeposit, ⟨0xb2, [], [], 20⟩, bridgeSource.log amountDeposit]

/-- What `ProcessDeposits` gets for a deposit whose slices end with their elements. -/
def fetchedOf (d : Listener.Deposit) (hdata : d.data.length < 2 ^ 48)
    (hresponse : d.handlerResponse.length < 2 ^ 48) : Fetched :=
  ⟨⟨d.destinationDomainID, d.resourceID, d.depositNonce, ⟨d.data, [], hdata⟩,
    ⟨d.handlerResponse, [], hresponse⟩, d.timestamp⟩, bridgeSource.handleDeposit⟩

theorem inMemory_fetchedOf {d : Listener.Deposit} (hdata : d.data.length < 2 ^ 48)
    (hresponse : d.handlerResponse.length < 2 ^ 48) :
    bridgeSource.InMemory d (fetchedOf d hdata hresponse) :=
  ⟨rfl, rfl, rfl, rfl, rfl, rfl, rfl⟩

theorem length_tokenDeposit : (bridgeSource.deposit tokenDeposit).data.length < 2 ^ 48 ∧
    (bridgeSource.deposit tokenDeposit).handlerResponse.length < 2 ^ 48 := by
  decide +kernel

theorem length_amountDeposit : (bridgeSource.deposit amountDeposit).data.length < 2 ^ 48 ∧
    (bridgeSource.deposit amountDeposit).handlerResponse.length < 2 ^ 48 := by
  decide +kernel

def bridgeFetched : List Fetched :=
  [fetchedOf (bridgeSource.deposit tokenDeposit) length_tokenDeposit.1 length_tokenDeposit.2,
    fetchedOf (bridgeSource.deposit amountDeposit) length_amountDeposit.1 length_amountDeposit.2]

theorem reads_bridge : bridgeSource.Reads bridgeLogs [tokenDeposit, amountDeposit] bridgeFetched := by
  have hlogged : Listener.eventLogs eventHash 0xb1 Listener.depositSig bridgeLogs =
      [tokenDeposit, amountDeposit].map bridgeSource.log := by decide +kernel
  have hfits : ∀ d ∈ [tokenDeposit, amountDeposit], (bridgeSource.log d).data.length < 2 ^ 63 := by
    decide +kernel
  refine ⟨hlogged, hfits, ?_, _, Source.fetchDeposits_logs hlogged hfits, ?_⟩
  · rintro d (_ | ⟨_, _ | ⟨_, ⟨⟩⟩⟩)
    · exact ⟨_, rfl, rfl⟩
    · exact ⟨_, rfl, rfl⟩
  · exact .cons (inMemory_fetchedOf _ _) (.cons (inMemory_fetchedOf _ _) .nil)

def bridgeProposals : List TransferProposal :=
  [tokenDeposit, amountDeposit].map
    (bridgeSource.proposal 1 fun dest => depositMessageID 1 dest 20 24)

end Sygma.Evm
