import Mathlib.Data.List.TakeWhile
import SygmaRelayer.Lib.Fallible
import SygmaRelayer.Proofs.RetryIsolation

/-! A retry event of Substrate names a destination, which `DecodeRetryEvent` reads and
`HandleEvents` does not look at: every deposit of the block is retried. -/

namespace Sygma

open Go Grouping

/-- Exactly these messages are put on `msgChan`, a slice for each destination, in order. -/
def Sends (processed : Outcome DomainDeposits) (messages : List Message) : Prop :=
  ∀ slices, PutsOnMsgChan processed slices ↔
    slices.Perm (values (collect Message.destination messages))

theorem sends_ok_iff {d : DomainDeposits} {messages sent : List Message}
    (h : Holds Message.destination d sent) (hsub : messages.Sublist sent) :
    Sends (.ok d) messages ↔ messages = sent := by
  constructor
  · intro hsends
    have hvalues := (hsends (values d)).1 (List.Perm.refl _)
    have hperm := perm_of_filter_eq (h.filter_eq_of_values (holds_collect messages) hvalues)
    exact hsub.eq_of_length hperm.length_eq.symm
  · rintro rfl slices
    have hvalues := h.values_perm (holds_collect messages)
    exact ⟨fun hs => hs.trans hvalues, fun hs => hs.trans hvalues.symm⟩

theorem sends_error_iff {fault : Fault} {messages : List Message} :
    Sends (.error fault) messages ↔ messages = [] := by
  constructor
  · intro hsends
    have hnil := ((hsends []).1 rfl).symm.eq_nil
    by_contra hne
    obtain ⟨m, hm⟩ := List.exists_mem_of_ne_nil _ hne
    have hmem : messages.filter (·.destination = m.destination) ∈
        values (collect Message.destination messages) :=
      (holds_collect messages).mem_values.2 ⟨List.ne_nil_of_mem
        (List.mem_filter.2 ⟨hm, decide_eq_true rfl⟩), m.destination, rfl⟩
    rw [hnil] at hmem
    cases hmem
  · rintro rfl slices
    exact List.perm_nil.symm

namespace Substrate

variable {V : Type} (decode : Mapstructure V) (domainID : UInt8) (messageID : UInt8 → String)

/-- The event decodes as a deposit to this destination. -/
def Fetched.goesTo (evt : Fetched V) (dest : UInt8) : Bool :=
  match decodeDepositEvent decode evt.fields with
  | .ok d => d.destDomainID = dest
  | .error _ => false

/-- The messages a retry event asks for: of the deposits in the block it names, if that is
finalized, those to the destination it names. -/
def RetryFetched.requested (evt : RetryFetched V) (finalizedBlockNumber : ℕ) : List Message :=
  match evt.name, decodeRetryEvent decode evt.fields with
  | .retryEvent, .ok ⟨some height, dest⟩ =>
    match decide (height ≤ finalizedBlockNumber), evt.blockEvents height with
    | true, .ok bEvts => (bEvts.filter (·.goesTo decode dest)).filterMap
        fun event => delivered (event.message decode domainID messageID)
    | _, _ => []
  | _, _ => []

/-- The deposit goes where the retry event says. -/
def RetryFetched.asksFor (evt : RetryFetched V) (event : Fetched V) : Bool :=
  match decodeRetryEvent decode evt.fields with
  | .ok er => event.goesTo decode er.destDomainID
  | .error _ => false

variable {decode domainID messageID}

theorem requested_eq (evt : RetryFetched V) {finalizedBlockNumber : ℕ}
    (h : finalizedBlockNumber < 2 ^ 63) :
    evt.requested decode domainID messageID finalizedBlockNumber =
      ((evt.resolved decode finalizedBlockNumber).filter (evt.asksFor decode)).filterMap
        fun event => delivered (event.message decode domainID messageID) := by
  unfold RetryFetched.requested RetryFetched.resolved RetryFetched.resolve RetryFetched.asksFor
  cases evt.name with
  | depositEvent | other => rfl
  | retryEvent =>
    cases decodeRetryEvent decode evt.fields with
    | error fault => rfl
    | ok er =>
      obtain ⟨_ | height, dest⟩ := er
      · rfl
      · by_cases hheight : height ≤ finalizedBlockNumber
        · -- a height that is finalized is a `uint64`
          have hmod : height % 2 ^ 64 = height := Nat.mod_eq_of_lt (by omega)
          simp only [ok_bind, if_neg (Nat.not_lt.2 hheight), hmod, decide_eq_true hheight]
          cases evt.blockEvents height <;> rfl
        · simp only [ok_bind, if_pos (Nat.lt_of_not_le hheight), decide_eq_false hheight]
          rfl

theorem message_eq_none_iff {event : Fetched V} {m : Option Message}
    (h : event.message decode domainID messageID = .ok m) :
    m = none ↔ event.name ≠ .depositEvent := by
  unfold Fetched.message at h
  by_cases hname : event.name = .depositEvent
  · rw [if_pos hname] at h
    obtain ⟨d, -, h⟩ := Fallible.bind_eq_ok.1 h
    obtain ⟨m', -, h⟩ := Fallible.bind_eq_ok.1 h
    obtain rfl := Except.ok.inj h
    simp [hname]
  · rw [if_neg hname] at h
    obtain rfl := Except.ok.inj h
    simp [hname]

theorem delivered_eq_none_iff {event : Fetched V}
    (h : event.fails decode domainID messageID = false) :
    delivered (event.message decode domainID messageID) = none ↔ event.name ≠ .depositEvent := by
  cases hm : event.message decode domainID messageID with
  | error fault => simp [Fetched.fails, hm] at h
  | ok m => exact message_eq_none_iff hm

theorem holds_retryTurns {evts : List (RetryFetched V)} {finalizedBlockNumber : ℕ}
    (hhandled : ∀ evt ∈ evts, ∀ event ∈ evt.resolved decode finalizedBlockNumber,
      event.fails decode domainID messageID = false)
    (herr : ∀ evt ∈ evts, evt.error decode domainID messageID finalizedBlockNumber = none) :
    ∃ d, evts.foldlM (retryTurn decode domainID messageID finalizedBlockNumber) ∅ = .ok d ∧
      Holds Message.destination d (evts.flatMap fun evt =>
        (evt.resolved decode finalizedBlockNumber).filterMap
          fun event => delivered (event.message decode domainID messageID)) := by
  obtain ⟨hholds, hok⟩ := @retryTurns_spec V decode domainID messageID evts finalizedBlockNumber
    ∅ [] holds_empty
  obtain ⟨d, hd⟩ := hok.2 herr
  have hall : ∀ evt ∈ evts, ((evt.resolved decode finalizedBlockNumber).takeWhile
      (!·.fails decode domainID messageID)) = evt.resolved decode finalizedBlockNumber :=
    fun evt hevt => List.takeWhile_eq_self_iff.2 fun event hevent => by
      simp [hhandled evt hevt event hevent]
  refine ⟨d, hd, ?_⟩
  have hsent := hholds d hd
  rw [List.nil_append] at hsent
  convert hsent using 1
  apply List.flatMap_congr
  intro evt hevt
  rw [hall evt hevt]

theorem requested_sublist (evt : RetryFetched V) {finalizedBlockNumber : ℕ}
    (h : finalizedBlockNumber < 2 ^ 63) :
    (evt.requested decode domainID messageID finalizedBlockNumber).Sublist
      ((evt.resolved decode finalizedBlockNumber).filterMap
        fun event => delivered (event.message decode domainID messageID)) := by
  rw [requested_eq evt h]
  exact List.filter_sublist.filterMap _

theorem requested_eq_all_iff {evt : RetryFetched V} {finalizedBlockNumber : ℕ}
    (h : finalizedBlockNumber < 2 ^ 63)
    (hhandled : ∀ event ∈ evt.resolved decode finalizedBlockNumber,
      event.fails decode domainID messageID = false) :
    evt.requested decode domainID messageID finalizedBlockNumber =
        (evt.resolved decode finalizedBlockNumber).filterMap
          (fun event => delivered (event.message decode domainID messageID)) ↔
      ∀ event ∈ evt.resolved decode finalizedBlockNumber, event.name = .depositEvent →
        evt.asksFor decode event = true := by
  rw [requested_eq evt h, Sublists.filterMap_filter_eq_iff fun _ => rfl]
  refine forall₂_congr fun event hevent => ?_
  rw [delivered_eq_none_iff (hhandled event hevent)]
  cases evt.asksFor decode event <;> simp

/-- The retries reach only the requested destinations exactly if there is nothing else in the named
blocks; or if an event makes `HandleEvents` fail and no message was requested. The finalized height
is an `int64`. -/
theorem retries_requested_iff {V : Type} (decode : Mapstructure V) (domainID : UInt8)
    (startBlock endBlock : ℕ) (evts : List (RetryFetched V)) (finalizedBlockNumber : ℕ)
    (hfinalized : finalizedBlockNumber < 2 ^ 63)
    (hhandled : ∀ evt ∈ evts, ∀ event ∈ evt.resolved decode finalizedBlockNumber,
      event.fails decode domainID (Evm.retryMessageID domainID startBlock endBlock) = false) :
    let messageID := Evm.retryMessageID domainID startBlock endBlock
    Sends (handleRetryEvents decode domainID startBlock endBlock (.ok evts)
        (.ok finalizedBlockNumber))
      (evts.flatMap (·.requested decode domainID messageID finalizedBlockNumber)) ↔
    (∀ evt ∈ evts, evt.error decode domainID messageID finalizedBlockNumber = none ∧
      ∀ event ∈ evt.resolved decode finalizedBlockNumber, event.name = .depositEvent →
        evt.asksFor decode event = true) ∨
    (∃ evt ∈ evts, evt.error decode domainID messageID finalizedBlockNumber ≠ none) ∧
      ∀ evt ∈ evts, evt.requested decode domainID messageID finalizedBlockNumber = [] := by
  intro messageID
  change Sends (evts.foldlM (retryTurn decode domainID messageID finalizedBlockNumber) ∅) _ ↔ _
  by_cases herr : ∀ evt ∈ evts, evt.error decode domainID messageID finalizedBlockNumber = none
  · obtain ⟨d, hd, hsent⟩ := holds_retryTurns hhandled herr
    have hnone : ¬∃ evt ∈ evts, evt.error decode domainID messageID finalizedBlockNumber ≠ none :=
      fun ⟨evt, hevt, h⟩ => h (herr evt hevt)
    have hsub := fun evt : RetryFetched V =>
      @requested_sublist V decode domainID messageID evt finalizedBlockNumber hfinalized
    rw [hd, sends_ok_iff hsent (List.Sublist.flatMap_right evts fun evt _ => hsub evt),
      Sublists.flatMap_eq_iff hsub, or_iff_left fun h => hnone h.1]
    refine forall₂_congr fun evt hevt => ?_
    rw [requested_eq_all_iff hfinalized (hhandled evt hevt), and_iff_right (herr evt hevt)]
  · have hfails := (@retryTurns_spec V decode domainID messageID evts finalizedBlockNumber
      ∅ [] holds_empty).2.not.2 herr
    have hsome : ∃ evt ∈ evts, evt.error decode domainID messageID finalizedBlockNumber ≠ none := by
      simpa using herr
    rw [or_iff_right fun h => herr fun evt hevt => (h evt hevt).1, and_iff_right hsome]
    cases hresult : evts.foldlM (retryTurn decode domainID messageID finalizedBlockNumber) ∅ with
    | ok d => exact absurd ⟨d, hresult⟩ hfails
    | error fault => rw [sends_error_iff, List.flatMap_eq_nil_iff]

/-- A deposit of 5 to the domain `dest`. -/
def depositTo (dest : ℕ) : Fetched ℕ where
  name := .depositEvent
  fields := [("dest_domain_id", dest), ("deposit_data", 0)]
  handleDeposit := substrateHandleDeposit fun _ => some fungibleTransferHandler

/-- A retry of the deposits to the domain `dest` in block 9. -/
def retryFor (dest : ℕ) (bEvts : List (Fetched ℕ)) : RetryFetched ℕ where
  name := .retryEvent
  fields := [("deposit_on_block_height", 9), ("dest_domain_id", dest)]
  blockEvents _ := .ok bEvts

theorem retries_requested_iff_alone :
    Sends (handleRetryEvents numberFields 1 10 14 (.ok [retryFor 2 [depositTo 2]]) (.ok 12))
      ([retryFor 2 [depositTo 2]].flatMap
        (·.requested numberFields 1 (Evm.retryMessageID 1 10 14) 12)) :=
  (retries_requested_iff numberFields 1 10 14 [retryFor 2 [depositTo 2]] 12 (by decide) (by
    intro evt hevt event hevent
    obtain rfl := List.mem_singleton.1 hevt
    obtain rfl := List.mem_singleton.1 hevent
    rfl)).2 (.inl (by
      intro evt hevt
      obtain rfl := List.mem_singleton.1 hevt
      refine ⟨rfl, fun event hevent _ => ?_⟩
      obtain rfl := List.mem_singleton.1 hevent
      rfl))

/-- The block holds a deposit to domain 3 besides the one to domain 2 that was asked for. -/
theorem retry_sends_unrequested :
    let evt := retryFor 2 [depositTo 2, depositTo 3]
    (evt.requested numberFields 1 (Evm.retryMessageID 1 10 14) 12).map Message.destination = [2] ∧
      (fun d => (values d).map (·.map Message.destination)) <$>
        handleRetryEvents numberFields 1 10 14 (.ok [evt]) (.ok 12) = .ok [[3], [2]] :=
  ⟨rfl, rfl⟩

end Substrate

end Sygma
