import SygmaRelayer.Lib.Sublists
import SygmaRelayer.Proofs.DepositIsolation
import SygmaRelayer.Proofs.RetryStatus

/-! Retried deposits are not handled one by one. On EVM the first deposit of a retry event
that fails, with an error or a panic, takes the deposits behind it with it. On Substrate a
panic does the same, and an error makes `HandleEvents` fail as a whole. -/

namespace Sygma

open Go Grouping

namespace Evm

variable (domainID : UInt8) (messageID : UInt8 → String) (st : PropStorer)

/-- The deposit handler does not return a message. -/
def Fetched.fails (f : Fetched) : Bool :=
  match f.message domainID messageID with
  | .ok _ => false
  | .error _ => true

/-- The message of a retried deposit that was handled successfully and is not marked executed. -/
def Fetched.due (f : Fetched) : Option Message :=
  match f.message domainID messageID with
  | .ok m => if (st.isExecuted m.key).2 = some false then some m else none
  | .error _ => none

theorem due_of_fails (f : Fetched) (h : f.fails domainID messageID = true) :
    f.due domainID messageID st = none := by
  cases hm : f.message domainID messageID with
  | ok m => simp [Fetched.fails, hm] at h
  | error fault => simp [Fetched.due, hm]

variable {domainID messageID st}

theorem retryDeposits_cons {f : Fetched} {deposits : List Fetched} {m : Message}
    {d : DomainDeposits} {st' : PropStorer} (hm : f.message domainID messageID = .ok m) :
    retryDeposits domainID messageID (f :: deposits) (d, st') =
      retryDeposits domainID messageID deposits
        (if (st'.isExecuted m.key).2 = some false then appendDeposit d m else d,
          (st'.isExecuted m.key).1) := by
  rw [retryDeposits, hm]
  rcases hx : st'.isExecuted m.key with ⟨st₁, _ | _ | _⟩ <;> simp [hx]

/-- The deposits a retry event resolves to. -/
def resolved (event : Outcome (List Fetched)) : List Fetched :=
  match event with
  | .ok deposits => deposits
  | .error _ => []

/-- A retry event adds the messages that are due up to its first failing deposit. -/
theorem holds_retryDeposits (deposits : List Fetched) {d : DomainDeposits} {messages : List Message}
    {st' : PropStorer} (h : Holds Message.destination d messages) (hst : SameAnswers st st') :
    Holds Message.destination (retryDeposits domainID messageID deposits (d, st')).1
        (messages ++ (deposits.takeWhile (!·.fails domainID messageID)).filterMap
          (·.due domainID messageID st)) ∧
      SameAnswers st (retryDeposits domainID messageID deposits (d, st')).2 := by
  induction deposits generalizing d messages st' with
  | nil => exact ⟨by simpa [retryDeposits] using h, hst⟩
  | cons f deposits ih =>
    cases hm : f.message domainID messageID with
    | error fault =>
      have hfails : f.fails domainID messageID = true := by simp [Fetched.fails, hm]
      have hstop : retryDeposits domainID messageID (f :: deposits) (d, st') = (d, st') := by
        cases fault <;> simp [retryDeposits, hm]
      rw [hstop]
      exact ⟨by simpa [hfails] using h, hst⟩
    | ok m =>
      have hfails : f.fails domainID messageID = false := by simp [Fetched.fails, hm]
      have hst₁ : SameAnswers st (st'.isExecuted m.key).1 := fun k =>
        (sameAnswers_isExecuted st' m.key k).trans (hst k)
      rw [List.takeWhile_cons_of_pos (by simp [hfails]), retryDeposits_cons hm]
      by_cases hanswer : (st'.isExecuted m.key).2 = some false
      · have hdue : f.due domainID messageID st = some m := by
          simp [Fetched.due, hm, ← hst m.key, hanswer]
        rw [if_pos hanswer]
        simpa [hdue, appendDeposit] using ih (h.add m) hst₁
      · have hdue : f.due domainID messageID st = none := by
          simp [Fetched.due, hm, ← hst m.key, hanswer]
        rw [if_neg hanswer]
        simpa [hdue] using ih h hst₁

theorem holds_retryEvents (retryEvents : List (Outcome (List Fetched))) {d : DomainDeposits}
    {messages : List Message} {st' : PropStorer} (h : Holds Message.destination d messages)
    (hst : SameAnswers st st') :
    Holds Message.destination (retryEvents.foldl (fun s event =>
        match event with
        | .error _ => s
        | .ok deposits => retryDeposits domainID messageID deposits s) (d, st')).1
      (messages ++ retryEvents.flatMap fun event => (resolved event).takeWhile
        (!·.fails domainID messageID) |>.filterMap (·.due domainID messageID st)) := by
  induction retryEvents generalizing d messages st' with
  | nil => simpa using h
  | cons event retryEvents ih =>
    rw [List.foldl_cons, List.flatMap_cons, ← List.append_assoc]
    cases event with
    | error fault => exact ih (by simpa [resolved] using h) hst
    | ok deposits =>
      obtain ⟨hd, hst₁⟩ := holds_retryDeposits deposits h hst
      exact ih hd hst₁

end Evm

namespace Substrate

variable {V : Type} (decode : Mapstructure V) (domainID : UInt8) (messageID : UInt8 → String)

/-- The event is a deposit that cannot be decoded or handled. -/
def Fetched.fails (evt : Fetched V) : Bool :=
  match evt.message decode domainID messageID with
  | .ok _ => false
  | .error _ => true

theorem delivered_of_fails (evt : Fetched V) (h : evt.fails decode domainID messageID = true) :
    delivered (evt.message decode domainID messageID) = none := by
  cases hm : evt.message decode domainID messageID with
  | ok m => simp [Fetched.fails, hm] at h
  | error fault => rfl

/-- The error of the first deposit of a block that fails, unless it panics. -/
def blockError : List (Fetched V) → Option String
  | [] => none
  | evt :: rest =>
    match evt.message decode domainID messageID with
    | .ok _ => blockError rest
    | .error (.error err) => some err
    | .error .panic => none

/-- The events of the block a retry event resolves to. -/
def RetryFetched.resolved (evt : RetryFetched V) (finalizedBlockNumber : ℕ) : List (Fetched V) :=
  match evt.name, evt.resolve decode finalizedBlockNumber with
  | .retryEvent, .ok bEvts => bEvts
  | _, _ => []

/-- The error with which the closure around an event returns: the block cannot be resolved, or its
first failing deposit has an error. -/
def RetryFetched.error (evt : RetryFetched V) (finalizedBlockNumber : ℕ) : Option String :=
  match evt.name, evt.resolve decode finalizedBlockNumber with
  | .retryEvent, .ok bEvts => blockError decode domainID messageID bEvts
  | .retryEvent, .error (.error err) => some err
  | _, _ => none

variable {decode domainID messageID}

theorem retryBlock_spec (bEvts : List (Fetched V)) {d : DomainDeposits} {messages : List Message}
    (h : Holds Message.destination d messages) :
    Holds Message.destination (retryBlock decode domainID messageID bEvts d).1
        (messages ++ (bEvts.takeWhile (!·.fails decode domainID messageID)).filterMap
          fun evt => delivered (evt.message decode domainID messageID)) ∧
      (retryBlock decode domainID messageID bEvts d).2 =
        blockError decode domainID messageID bEvts := by
  induction bEvts generalizing d messages with
  | nil => exact ⟨by simpa [retryBlock] using h, rfl⟩
  | cons evt bEvts ih =>
    cases hm : evt.message decode domainID messageID with
    | error fault =>
      have hfails : evt.fails decode domainID messageID = true := by simp [Fetched.fails, hm]
      cases fault <;> simpa [retryBlock, blockError, hm, hfails] using h
    | ok m =>
      have hfails : evt.fails decode domainID messageID = false := by simp [Fetched.fails, hm]
      rw [List.takeWhile_cons_of_pos (by simp [hfails])]
      cases m with
      | none => simpa [retryBlock, blockError, hm, delivered] using ih h
      | some m =>
        simpa [retryBlock, blockError, hm, delivered, appendDeposit] using ih (h.add m)

theorem retryEvent_spec (evt : RetryFetched V) (finalizedBlockNumber : ℕ) {d : DomainDeposits}
    {messages : List Message} (h : Holds Message.destination d messages) :
    Holds Message.destination
        (retryEvent decode domainID messageID finalizedBlockNumber d evt).1
        (messages ++ ((evt.resolved decode finalizedBlockNumber).takeWhile
          (!·.fails decode domainID messageID)).filterMap
            fun evt => delivered (evt.message decode domainID messageID)) ∧
      (retryEvent decode domainID messageID finalizedBlockNumber d evt).2 =
        evt.error decode domainID messageID finalizedBlockNumber := by
  unfold retryEvent RetryFetched.resolved RetryFetched.error
  cases evt.name with
  | depositEvent | other => simpa using h
  | retryEvent =>
    cases evt.resolve decode finalizedBlockNumber with
    | ok bEvts => simpa using retryBlock_spec bEvts h
    | error fault => cases fault <;> simpa using h

theorem retryTurn_eq (evt : RetryFetched V) (finalizedBlockNumber : ℕ) (d : DomainDeposits) :
    retryTurn decode domainID messageID finalizedBlockNumber d evt =
      match (retryEvent decode domainID messageID finalizedBlockNumber d evt).2 with
      | some err => .error (.error err)
      | none => .ok (retryEvent decode domainID messageID finalizedBlockNumber d evt).1 := by
  unfold retryTurn
  rcases retryEvent decode domainID messageID finalizedBlockNumber d evt with ⟨d', _ | err⟩ <;> rfl

/-- All events, one after the other: the loop ends without an error exactly if no closure returns
one. -/
theorem retryTurns_spec (evts : List (RetryFetched V)) (finalizedBlockNumber : ℕ)
    {d : DomainDeposits} {messages : List Message} (h : Holds Message.destination d messages) :
    (∀ d', evts.foldlM (retryTurn decode domainID messageID finalizedBlockNumber) d = .ok d' →
      Holds Message.destination d' (messages ++ evts.flatMap fun evt =>
        ((evt.resolved decode finalizedBlockNumber).takeWhile
          (!·.fails decode domainID messageID)).filterMap
            fun evt => delivered (evt.message decode domainID messageID))) ∧
    ((∃ d', evts.foldlM (retryTurn decode domainID messageID finalizedBlockNumber) d = .ok d') ↔
      ∀ evt ∈ evts, evt.error decode domainID messageID finalizedBlockNumber = none) := by
  induction evts generalizing d messages with
  | nil =>
    refine ⟨fun d' hd' => ?_, iff_of_true ⟨d, rfl⟩ (by simp)⟩
    obtain rfl : d = d' := Except.ok.inj hd'
    simpa using h
  | cons evt evts ih =>
    obtain ⟨hd, herr⟩ := retryEvent_spec evt finalizedBlockNumber h
    rw [List.foldlM_cons, List.flatMap_cons, ← List.append_assoc, List.forall_mem_cons,
      retryTurn_eq, herr]
    cases evt.error decode domainID messageID finalizedBlockNumber with
    | some err => exact ⟨fun d' hd' => (by cases hd'), iff_of_false (by rintro ⟨d', hd'⟩; cases hd')
        (by simp)⟩
    | none => simpa [ok_bind] using ih hd

end Substrate

theorem isolates_iff {processed : Outcome DomainDeposits} {taken all : List Message}
    (h : ∀ d, processed = .ok d → Holds Message.destination d taken) (hsub : taken.Sublist all) :
    Isolates processed all ↔ (∃ d, processed = .ok d) ∧ taken = all := by
  constructor
  · rintro ⟨⟨d, rfl, hall⟩, -⟩
    exact ⟨⟨d, rfl⟩, (h d rfl).eq_of_sublist hall hsub⟩
  · rintro ⟨⟨d, rfl⟩, rfl⟩
    exact isolates_of_holds (h d rfl)

/-- Retries put exactly the messages they should on `msgChan` when no failing deposit of a retry
event stands before one that is to be sent and, on Substrate, no closure returns an error. -/
theorem retries_isolated_iff {V : Type} (domainID : UInt8) (startBlock endBlock : ℕ)
    (st : PropStorer) (retryEvents : List (Outcome (List Evm.Fetched)))
    (decode : Substrate.Mapstructure V) (finalizedBlockNumber : ℕ)
    (evts : List (Substrate.RetryFetched V)) :
    let messageID := Evm.retryMessageID domainID startBlock endBlock
    (Isolates (Prod.fst <$>
          Evm.handleRetryV1Events domainID startBlock endBlock st (.ok retryEvents))
        (retryEvents.flatMap fun event =>
          (Evm.resolved event).filterMap (·.due domainID messageID st)) ↔
      ∀ event ∈ retryEvents, (Evm.resolved event).Pairwise fun f g =>
        f.fails domainID messageID = true → g.due domainID messageID st = none) ∧
    (Isolates (Substrate.handleRetryEvents decode domainID startBlock endBlock (.ok evts)
          (.ok finalizedBlockNumber))
        (evts.flatMap fun evt => (evt.resolved decode finalizedBlockNumber).filterMap
          fun evt => delivered (evt.message decode domainID messageID)) ↔
      ∀ evt ∈ evts, evt.error decode domainID messageID finalizedBlockNumber = none ∧
        (evt.resolved decode finalizedBlockNumber).Pairwise fun f g =>
          f.fails decode domainID messageID = true →
            delivered (g.message decode domainID messageID) = none) := by
  intro messageID
  constructor
  · have hholds := @Evm.holds_retryEvents domainID messageID st retryEvents ∅ [] st holds_empty
      fun _ => rfl
    rw [isolates_iff (fun d hd => by cases hd; exact hholds) (Sublists.flatMap_takeWhile_sublist _ _),
      Sublists.flatMap_takeWhile_eq_iff _ (Evm.due_of_fails domainID messageID st)]
    exact and_iff_right ⟨_, rfl⟩
  · obtain ⟨hholds, hok⟩ := @Substrate.retryTurns_spec V decode domainID messageID evts
      finalizedBlockNumber ∅ [] holds_empty
    apply (isolates_iff hholds (Sublists.flatMap_takeWhile_sublist _ _)).trans
    rw [List.nil_append,
      Sublists.flatMap_takeWhile_eq_iff _ (Substrate.delivered_of_fails decode domainID messageID)]
    exact (and_congr_left' hok).trans forall₂_and.symm

/-- The calldata of a transfer of 5 to a recipient of 32 bytes. -/
def retriedCalldata : Slice UInt8 where
  elems := Bytes.leftPad [5] 32 ++ Bytes.leftPad [32] 32 ++ List.replicate 32 0xa1
  spare := []
  fits := by decide

def retriedDeposit (depositNonce : UInt64) (data : Slice UInt8) : Evm.Fetched where
  deposit := ⟨2, 0, depositNonce, data, Slice.nil, 0⟩
  handleDeposit := Evm.ethHandleDeposit (fun _ => .ok ()) fun _ => some Evm.erc20HandleDeposit

def retriedEvent (transferType : ℕ) : Substrate.Fetched ℕ where
  name := .depositEvent
  fields := [("deposit_data", 0), ("sygma_traits_TransferType", transferType)]
  handleDeposit := Substrate.substrateHandleDeposit fun _ => some Substrate.fungibleTransferHandler

/-- Fields that are numbers, and `retriedCalldata` wherever bytes are expected. -/
def numberFields : Substrate.Mapstructure ℕ where
  u8 n := .ok (UInt8.ofNat n)
  u64 n := .ok (UInt64.ofNat n)
  u128 n := .ok n
  bytes32 _ := .ok 0
  bytes _ := .ok retriedCalldata
  bytes1 n := .ok (UInt8.ofNat n)
  time n := .ok n

/-- A deposit without calldata fails and the one behind it is lost with it; a deposit of an unknown
transfer type fails and makes `HandleEvents` fail, and the one before it is lost. -/
theorem retry_loses_deposit :
    let messageID := Evm.retryMessageID 1 10 14
    let st : PropStorer := ⟨fun _ => .missing, fun _ => false, fun _ => false⟩
    ((retriedDeposit 8 retriedCalldata).due 1 messageID st).isSome ∧
      Prod.fst <$> Evm.handleRetryV1Events 1 10 14 st
        (.ok [.ok [retriedDeposit 7 Slice.nil, retriedDeposit 8 retriedCalldata]]) = .ok ∅ ∧
      (delivered ((retriedEvent 0).message numberFields 1 messageID)).isSome ∧
      Substrate.handleRetryEvents numberFields 1 10 14
          (.ok [⟨.retryEvent, [("deposit_on_block_height", 9)],
            fun _ => .ok [retriedEvent 0, retriedEvent 1]⟩]) (.ok 12) =
        .error (.error "no corresponding deposit handler for this transfer type exists") := by
  exact ⟨rfl, rfl, rfl, rfl⟩

end Sygma
