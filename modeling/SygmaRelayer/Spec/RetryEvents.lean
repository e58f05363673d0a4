import SygmaRelayer.Spec.DepositEvents

/-! Retried deposits: `FilterDeposits` (`relayer/retry/retry.go`), `RetryV1EventHandler`
(`chains/evm/listener/eventHandlers/retry.go`) and the `RetryEventHandler` of Substrate
(`chains/substrate/listener/event-handlers.go`).
The closure that recovers from a panic stands around a retry event with all its
deposits, not around a deposit. -/

namespace Sygma

open Go

/-- A status store whose accesses may fail. -/
structure PropStorer where
  status : PropStore
  readFails : PropKey → Bool
  writeFails : PropKey → Bool

/-- `isExecuted` of the retry handlers; `none` is an error. -/
def PropStorer.isExecuted (st : PropStorer) (k : PropKey) : PropStorer × Option Bool :=
  if st.readFails k then (st, none)
  else
    match retryIsExecuted (st.status k) with
    | .executed => (st, some true)
    | .retryable => (st, some false)
    | .resetFirst =>
      if st.writeFails k then (st, none)
      else ({ st with status := st.status.storePropStatus k .failed }, some false)

/-- The body of the inner loop of `FilterDeposits`. -/
def filterDeposit (resourceID : ResourceID) (s : List Message × PropStorer) (deposit : Message) :
    List Message × PropStorer :=
  if deposit.data.resourceId ≠ resourceID then s
  else
    match s.2.isExecuted deposit.key with
    | (st, none) | (st, some true) => (s.1, st)
    | (st, some false) => (s.1 ++ [deposit], st)

/-- `FilterDeposits`: the deposits it returns, with a nil error, and the store it leaves. The map
is ranged over in some order. -/
def filterDeposits (st : PropStorer) (domainDeposits : DomainDeposits) (resourceID : ResourceID)
    (destination : UInt8) : List Message × PropStorer :=
  domainDeposits.entries.foldl (fun s entry =>
    if entry.1 ≠ destination then s else entry.2.foldl (filterDeposit resourceID) s) ([], st)

namespace Evm

/-- The message ID of a V1 retry. -/
def retryMessageID (domainID : UInt8) (startBlock endBlock : ℕ) (dest : UInt8) : String :=
  (Feed.retryV1 domainID dest startBlock endBlock).messageID

/-- The loop over the deposits of one retry event. -/
def retryDeposits (domainID : UInt8) (messageID : UInt8 → String) :
    List Fetched → DomainDeposits × PropStorer → DomainDeposits × PropStorer
  | [], s => s
  | f :: rest, (retriesByDomain, st) =>
    match f.message domainID messageID with
    -- the log reads `msg.ID`, and with an error `msg` is nil
    | .error (.error _) => (retriesByDomain, st)
    | .error .panic => (retriesByDomain, st)
    | .ok msg =>
      match st.isExecuted msg.key with
      | (st, none) | (st, some true) => retryDeposits domainID messageID rest (retriesByDomain, st)
      | (st, some false) =>
        retryDeposits domainID messageID rest (appendDeposit retriesByDomain msg, st)

/-- `RetryV1EventHandler.HandleEvents` on what `FetchRetryV1Events` returned; each event comes with
the answer of `FetchRetryDepositEvents`. The groups of the result are sent on `msgChan`. -/
def handleRetryV1Events (domainID : UInt8) (startBlock endBlock : ℕ) (st : PropStorer)
    (fetched : Except String (List (Outcome (List Fetched)))) :
    Outcome (DomainDeposits × PropStorer) :=
  match fetched with
  | .error err => .error (.error ("unable to fetch retry events because of: " ++ err))
  | .ok retryEvents =>
    .ok (retryEvents.foldl (fun s event =>
      match event with
      | .error _ => s
      | .ok deposits =>
        retryDeposits domainID (retryMessageID domainID startBlock endBlock) deposits s) (∅, st))

end Evm

namespace Substrate

variable {V : Type} (decode : Mapstructure V)

/-- An event of the block range, and what `GetBlockHash` and `GetBlockEvents` answer for a height
while it is handled. -/
structure RetryFetched (V : Type) where
  name : EventName
  fields : List (String × V)
  blockEvents : ℕ → Outcome (List (Fetched V))

/-- The events of the block a retry event names; none if the block is not finalized. -/
def RetryFetched.resolve (evt : RetryFetched V) (finalizedBlockNumber : ℕ) :
    Outcome (List (Fetched V)) := do
  let er ← decodeRetryEvent decode evt.fields
  match er.depositOnBlockHeight with
  -- a nil `big.Int` is compared
  | none => throw .panic
  | some height =>
    if finalizedBlockNumber < height then return []
    else evt.blockEvents (height % 2 ^ 64)

/-- The loop over the events of a block: the map, and the error with which the closure returns.
After a panic it returns none. -/
def retryBlock (domainID : UInt8) (messageID : UInt8 → String) :
    List (Fetched V) → DomainDeposits → DomainDeposits × Option String
  | [], domainDeposits => (domainDeposits, none)
  | event :: rest, domainDeposits =>
    match event.message decode domainID messageID with
    | .ok none => retryBlock domainID messageID rest domainDeposits
    | .ok (some m) => retryBlock domainID messageID rest (appendDeposit domainDeposits m)
    | .error (.error err) => (domainDeposits, some err)
    | .error .panic => (domainDeposits, none)

/-- The closure around a retry event. -/
def retryEvent (domainID : UInt8) (messageID : UInt8 → String) (finalizedBlockNumber : ℕ)
    (domainDeposits : DomainDeposits) (evt : RetryFetched V) : DomainDeposits × Option String :=
  if evt.name = .retryEvent then
    match evt.resolve decode finalizedBlockNumber with
    | .error (.error err) => (domainDeposits, some err)
    | .error .panic => (domainDeposits, none)
    | .ok bEvts => retryBlock decode domainID messageID bEvts domainDeposits
  else (domainDeposits, none)

/-- One turn of the loop over the events: an error of the closure is returned. -/
def retryTurn (domainID : UInt8) (messageID : UInt8 → String) (finalizedBlockNumber : ℕ)
    (domainDeposits : DomainDeposits) (evt : RetryFetched V) : Outcome DomainDeposits :=
  match retryEvent decode domainID messageID finalizedBlockNumber domainDeposits evt with
  | (_, some err) => .error (.error err)
  | (domainDeposits, none) => .ok domainDeposits

/-- `RetryEventHandler.HandleEvents` on what `FetchEvents` returned and on the number of the
finalized block. The groups of the result are sent on `msgChan`. -/
def handleRetryEvents (domainID : UInt8) (startBlock endBlock : ℕ)
    (fetched : Except String (List (RetryFetched V))) (finalized : Except String ℕ) :
    Outcome DomainDeposits :=
  match fetched, finalized with
  | .error err, _ => .error (.error err)
  | .ok _, .error err => .error (.error err)
  | .ok evts, .ok finalizedBlockNumber =>
    evts.foldlM (retryTurn decode domainID (Evm.retryMessageID domainID startBlock endBlock)
      finalizedBlockNumber) ∅

end Substrate

end Sygma
