import SygmaRelayer.Proofs.Bridging
import SygmaRelayer.Proofs.FilterDeposits

/-! V2 retries. What the retry contract logs on one chain has another chain process a block of its
own once more. Of the deposits in this block those are sent again that the retry names and that the
store does not have as executed, and the relayers sign for them what they signed before. -/

namespace Sygma.Evm

open Go
open Listener (Address Hash Log RetryV2Event retryV2Args)

/-- The log of the retry contract for a V2 retry. -/
def retryLog (abi : Abi.Codec retryV2Args) (keccak256 : String → Hash) (retryAddress : Address)
    (blockNumber : UInt64) (e : RetryV2Event) : Log :=
  ⟨retryAddress, [keccak256 Listener.retryV2Sig],
    abi.pack (e.sourceDomainID.toBitVec, e.destinationDomainID.toBitVec,
      BitVec.ofNat 256 e.blockHeight, resourceBytes e.resourceID, ()), blockNumber⟩

theorem fetchEvents_map {α β : Type} {unpack : List UInt8 → Except String α} {toLog : β → Log}
    {value : β → α} {events : List β} (h : ∀ e ∈ events, unpack (toLog e).data = .ok (value e)) :
    Listener.fetchEvents unpack (.ok (events.map toLog)) = .ok (events.map value) := by
  suffices ∀ done : List α, (events.map toLog).foldl (Listener.appendUnpacked unpack) done =
      done ++ events.map value by
    rw [Listener.fetchEvents, this, List.nil_append]
  induction events with
  | nil => simp
  | cons e events ih =>
    intro done
    rw [List.map_cons, List.foldl_cons, Listener.appendUnpacked, h e List.mem_cons_self,
      ih fun e' he' => h e' (List.mem_cons_of_mem e he')]
    simp

section

variable {abi : Abi.Codec retryV2Args} {keccak256 : String → Hash} {retryAddress : Address}

theorem unpackRetryV2_log {e : UInt64 × RetryV2Event} (hheight : e.2.blockHeight < 2 ^ 256)
    (hfits : (retryLog abi keccak256 retryAddress e.1 e.2).data.length < 2 ^ 63) :
    Listener.unpackRetryV2 abi (retryLog abi keccak256 retryAddress e.1 e.2).data = .ok e.2 := by
  rw [retryLog] at hfits ⊢
  rw [Listener.unpackRetryV2, abi.unpackValues_pack _ hfits, Fallible.bind_ok]
  dsimp only
  rw [toNat_resourceBytes, BitVec.toNat_ofNat, Nat.mod_eq_of_lt hheight]
  rfl

theorem retryV2Messages_logs (domainID : UInt8) {events : List (UInt64 × RetryV2Event)}
    (hheight : ∀ e ∈ events, e.2.blockHeight < 2 ^ 256)
    (hfits : ∀ e ∈ events, (retryLog abi keccak256 retryAddress e.1 e.2).data.length < 2 ^ 63) :
    retryV2HandleEvents domainID (Listener.fetchRetryV2Events abi
        (.ok (events.map fun e => retryLog abi keccak256 retryAddress e.1 e.2))) =
      .ok (events.map fun e => ⟨domainID, e.2.sourceDomainID, e.2,
        "retry-" ++ e.2.sourceDomainID.toNat.repr ++ "-" ++
          e.2.destinationDomainID.toNat.repr⟩) := by
  rw [Listener.fetchRetryV2Events,
    fetchEvents_map fun e he => unpackRetryV2_log (hheight e he) (hfits e he)]
  simp [retryV2HandleEvents]

end

/-- The deposits that a retry names and the store lets pass. -/
def retried (st : PropStorer) (domainID : UInt8) (e : RetryV2Event) (deposits : List BridgeDeposit) :
    List BridgeDeposit :=
  deposits.filter fun d => d.destinationDomainID = e.destinationDomainID ∧
    d.resourceID = e.resourceID ∧ Retryable st (d.key domainID)

/-- A retry sends the proposals for its deposits once more, with what was signed for them before,
and has set those of them that were pending to failed. -/
structure Redelivers (c : Source) (st : PropStorer) (domainID : UInt8) (e : RetryV2Event)
    (deposits : List BridgeDeposit) (result : Outcome (Option (List Message)) × PropStorer) :
    Prop where
  proposals : ∃ slice proposals, result.1 = .ok slice ∧
    (slice.getD []).mapM (transferHandleMessage c.erc1155Abi) = .ok proposals ∧
    ∀ messageID, List.Forall₂ SameSigned proposals
      ((retried st domainID e deposits).map (c.proposal domainID messageID))
  status : ∀ k, result.2.status k =
    if st.status k = .pending ∧ ∃ d ∈ retried st domainID e deposits, d.key domainID = k then .failed
    else st.status k

theorem sameSigned_proposal (c : Source) (d : BridgeDeposit) (domainID : UInt8)
    (messageID messageID' : UInt8 → String) :
    SameSigned (c.proposal domainID messageID d) (c.proposal domainID messageID' d) :=
  ⟨rfl, rfl, rfl, rfl⟩

theorem forall₂_retried {c : Source} {st : PropStorer} {domainID : UInt8} {messageID : UInt8 → String}
    {deposits : List BridgeDeposit} {messages : List Message} (e : RetryV2Event)
    (h : List.Forall₂ (c.Resolves domainID messageID) deposits messages) :
    List.Forall₂ (c.Resolves domainID messageID) (retried st domainID e deposits)
      ((messages.filter (·.destination = e.destinationDomainID)).filter fun m =>
        m.data.resourceId = e.resourceID ∧ Retryable st m.key) := by
  rw [List.filter_filter]
  refine List.rel_filter (fun d m hm => ?_) h
  simp only [hm.destination, hm.resourceId, hm.key, Bool.and_eq_true, decide_eq_true_eq]
  tauto

theorem retryHandleMessage_confirmed {latestBlock blockConfirmations : ℤ} {msg : RetryMessage}
    (hconfirmed : msg.data.blockHeight + blockConfirmations < latestBlock)
    {process : ℕ → ℕ → Outcome DomainDeposits} {domainDeposits : DomainDeposits}
    (hprocess : process msg.data.blockHeight msg.data.blockHeight = .ok domainDeposits)
    {st st' : PropStorer} {filtered : List Message}
    (hfilter : filterDeposits st domainDeposits msg.data.resourceID msg.data.destinationDomainID =
      (filtered, st')) :
    ∃ slice, retryHandleMessage (.ok latestBlock) blockConfirmations process st msg =
      (.ok slice, st') ∧ slice.getD [] = filtered := by
  refine ⟨if filtered = [] then none else some filtered, ?_, ?_⟩
  · simp only [retryHandleMessage, if_neg (Int.not_le.2 hconfirmed), hprocess, hfilter]
  · split_ifs with hnil
    · exact hnil.symm
    · rfl

theorem redelivers {c : Source} {logs : List Log} {deposits : List BridgeDeposit}
    {fetched : List Fetched} (hreads : c.Reads logs deposits fetched) (msg : RetryMessage) {latestBlock blockConfirmations : ℤ}
    (hconfirmed : msg.data.blockHeight + blockConfirmations < latestBlock) (domainID : UInt8)
    (st : PropStorer) :
    Redelivers c st domainID msg.data deposits
      (retryHandleMessage (.ok latestBlock) blockConfirmations
        (fun startBlock endBlock => processDeposits domainID startBlock endBlock (.ok fetched)) st
        msg) := by
  obtain ⟨messageID, hmessageID⟩ : ∃ messageID, messageID = fun dest =>
    depositMessageID domainID dest msg.data.blockHeight msg.data.blockHeight := ⟨_, rfl⟩
  have hretried : List.Forall₂ _ (retried st domainID msg.data deposits) _ :=
    forall₂_retried msg.data (hreads.resolves domainID messageID)
  obtain ⟨domainDeposits, hprocessed, hholds⟩ := (isolates_foldl
    (fun f : Fetched => some <$> f.message domainID messageID) fetched).1
  rw [hmessageID] at hprocessed
  -- what `FilterDeposits` returns and writes
  obtain ⟨hreturned, hwritten⟩ := @foldl_filterDeposit st msg.data.resourceID ([], st)
    (written_nil st) ((domainDeposits.lookup msg.data.destinationDomainID).getD [])
  rw [← filterDeposits_eq] at hreturned hwritten
  rw [List.nil_append, hholds.getD] at hreturned
  rw [← hreturned] at hretried
  rcases hfilter : filterDeposits st domainDeposits msg.data.resourceID
    msg.data.destinationDomainID with ⟨filtered, st'⟩
  rw [hfilter] at hwritten hretried
  obtain ⟨slice, hresult, hslice⟩ := @retryHandleMessage_confirmed _ _ _ hconfirmed
    (fun startBlock endBlock => processDeposits domainID startBlock endBlock (.ok fetched)) _
    hprocessed _ _ _ hfilter
  rw [hresult]
  constructor
  · refine ⟨slice, _, rfl, hslice ▸ Source.mapM_transferHandleMessage hretried, fun messageID' => ?_⟩
    rw [List.forall₂_map_left_iff, List.forall₂_map_right_iff, List.forall₂_same]
    exact fun d _ => sameSigned_proposal c d domainID messageID messageID'
  · intro k
    have hkeys : (∃ m ∈ filtered, m.key = k) ↔
        ∃ d ∈ retried st domainID msg.data deposits, d.key domainID = k := by
      rw [← List.mem_map, ← List.mem_map, Source.map_key hretried]
    rw [hwritten.status k]
    simp only [hkeys]

end Sygma.Evm
