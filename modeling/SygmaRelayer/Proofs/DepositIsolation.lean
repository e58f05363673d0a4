import SygmaRelayer.Spec.BtcDeposits

/-! Deposits are handled one by one. Whatever becomes of each of them, the map of
`ProcessDeposits` holds the messages of those that were handled successfully, grouped by
destination, and `HandleEvents` sends slices of one destination each. -/

namespace Sygma

open Go Grouping

/-- The message of a deposit that was handled successfully. -/
def delivered : Outcome (Option Message) → Option Message
  | .ok m => m
  | .error _ => none

theorem holds_resolveDeposit {d : DomainDeposits} {messages : List Message}
    (h : Holds Message.destination d messages) (o : Outcome (Option Message)) :
    Holds Message.destination (resolveDeposit d o) (messages ++ (delivered o).toList) := by
  cases o with
  | error fault => simpa [resolveDeposit, delivered] using h
  | ok m =>
    cases m with
    | none => simpa [resolveDeposit, delivered] using h
    | some m => exact h.add m

theorem holds_foldl_resolveDeposit {α : Type} (message : α → Outcome (Option Message))
    (evts : List α) {d : DomainDeposits} {messages : List Message}
    (h : Holds Message.destination d messages) :
    Holds Message.destination (evts.foldl (fun d evt => resolveDeposit d (message evt)) d)
      (messages ++ evts.filterMap fun evt => delivered (message evt)) := by
  induction evts generalizing d messages with
  | nil => simpa using h
  | cons evt evts ih =>
    have := ih (holds_resolveDeposit h (message evt))
    rw [List.append_assoc] at this
    rw [List.foldl_cons, List.filterMap_cons]
    cases hm : delivered (message evt) <;> simpa [hm] using this

/-- The messages come out grouped by destination, each once and in order, and every slice sent has
one destination. -/
def Isolates (processed : Outcome DomainDeposits) (messages : List Message) : Prop :=
  (∃ d, processed = .ok d ∧ Holds Message.destination d messages) ∧
    ∀ slices, PutsOnMsgChan processed slices → ∀ slice ∈ slices,
      slice ≠ [] ∧ ∃ k, slice = messages.filter (·.destination = k)

theorem isolates_of_holds {d : DomainDeposits} {messages : List Message}
    (h : Holds Message.destination d messages) : Isolates (.ok d) messages := by
  refine ⟨⟨d, rfl, h⟩, fun slices hslices slice hslice => ?_⟩
  exact h.mem_values.1 (hslices.subset hslice)

theorem isolates_foldl {α : Type} (message : α → Outcome (Option Message)) (evts : List α) :
    Isolates (.ok (evts.foldl (fun d evt => resolveDeposit d (message evt)) ∅))
      (evts.filterMap fun evt => delivered (message evt)) :=
  isolates_of_holds (by simpa using holds_foldl_resolveDeposit message evts holds_empty)

theorem delivered_map_some (o : Outcome Message) : delivered (some <$> o) = o.toOption := by
  cases o <;> rfl

theorem Substrate.delivered_message {V : Type} (decode : Mapstructure V) (evt : Fetched V)
    (domainID : UInt8) (messageID : UInt8 → String) :
    delivered (evt.message decode domainID messageID) =
      if evt.name = .depositEvent then
        (decodeDepositEvent decode evt.fields).toOption.bind fun d =>
          (evt.handleDeposit ⟨domainID, d.destDomainID, d.depositNonce, d.resourceID,
            messageID d.destDomainID, d.timestamp⟩ d.callData d.transferType).toOption
      else none := by
  unfold Fetched.message
  split_ifs
  · cases decodeDepositEvent decode evt.fields with
    | error fault => rfl
    | ok d => exact delivered_map_some _
  · rfl

/-- No deposit disturbs another one, on any of the chains: the messages are the answers of the
deposit handlers to the events one by one. -/
theorem deposits_isolated {V : Type} (domainID : UInt8) (startBlock endBlock : ℕ)
    (decode : Substrate.Mapstructure V) (cfg : BtcListener.Config)
    (deposits : List Evm.Fetched) (evts : List (Substrate.Fetched V))
    (visits : List BtcListener.Visit) :
    let messageID := fun dest => Evm.depositMessageID domainID dest startBlock endBlock
    Isolates (Evm.processDeposits domainID startBlock endBlock (.ok deposits))
        (deposits.filterMap fun f =>
          (f.handleDeposit ⟨domainID, f.deposit.destinationDomainID, f.deposit.depositNonce,
            f.deposit.resourceID, messageID f.deposit.destinationDomainID, f.deposit.timestamp⟩
            f.deposit.data f.deposit.handlerResponse).toOption) ∧
      Isolates (Substrate.processDeposits decode domainID startBlock endBlock (.ok evts))
        (evts.filterMap fun evt =>
          if evt.name = .depositEvent then
            (Substrate.decodeDepositEvent decode evt.fields).toOption.bind fun d =>
              (evt.handleDeposit ⟨domainID, d.destDomainID, d.depositNonce, d.resourceID,
                messageID d.destDomainID, d.timestamp⟩ d.callData d.transferType).toOption
          else none) ∧
      Isolates (BtcListener.processDeposits cfg startBlock (.ok visits))
        (visits.filterMap fun v => delivered
          (BtcListener.visitResources cfg startBlock v.handleDeposit v.evt v.order)) := by
  intro messageID
  have hevm := isolates_foldl
    (fun f : Evm.Fetched => some <$> f.message domainID messageID) deposits
  have hsubstrate := isolates_foldl
    (fun evt : Substrate.Fetched V => evt.message decode domainID messageID) evts
  simp only [delivered_map_some] at hevm
  simp only [Substrate.delivered_message] at hsubstrate
  exact ⟨hevm, hsubstrate, isolates_foldl _ visits⟩

end Sygma
