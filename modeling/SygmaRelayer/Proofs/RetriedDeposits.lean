import SygmaRelayer.Lib.Sublists
import SygmaRelayer.Spec.EventListener

/-! The deposits of a retried transaction are those `FetchDeposits` found in it unless the bridge
has logged something else there whose data unpacks as that of a deposit, or the node gives the
time of a block in one call and not in the other: `FetchRetryDepositEvents` looks at the address
of a log and not at its first topic, and both take the time of day for a block they cannot
get. -/

namespace Sygma.Listener

open Go

variable {unpack : List UInt8 → Except String DepositData} {client client' : Client}

/-- The deposit a log parses to. -/
def parsed (unpack : List UInt8 → Except String DepositData) (client : Client) (dl : Log) :
    Option Deposit :=
  (parseDeposit unpack client dl).toOption

theorem unpack_error_iff {dl : Log} :
    (∃ err, unpack dl.data = .error err) ↔
      parsed unpack client dl = none ∧ parseDeposit unpack client' dl ≠ .error .panic := by
  unfold parsed parseDeposit
  cases unpack dl.data with
  | error err => simp [Except.toOption]
  | ok d => cases dl.topics[1]? <;> simp [Except.toOption]

theorem parseDeposit_ne_panic {dl : Log} (h : dl.topics.length = 2) :
    parseDeposit unpack client dl ≠ .error .panic := by
  obtain ⟨topic, htopic⟩ : ∃ topic, dl.topics[1]? = some topic :=
    ⟨_, List.getElem?_eq_getElem (by omega)⟩
  unfold parseDeposit
  rw [htopic]
  cases unpack dl.data <;> simp

theorem appendParsed_of_ne_panic {dl : Log} (h : parseDeposit unpack client dl ≠ .error .panic)
    (deposits : List Deposit) :
    appendParsed unpack client deposits dl = .ok (deposits ++ (parsed unpack client dl).toList) := by
  unfold appendParsed parsed
  cases hparse : parseDeposit unpack client dl with
  | ok d => rfl
  | error fault =>
    cases fault with
    | error err => simp [Except.toOption]
    | panic => exact absurd hparse h

theorem foldlM_appendParsed (logs : List Log) (deposits result : List Deposit) :
    logs.foldlM (appendParsed unpack client) deposits = .ok result ↔
      (∀ dl ∈ logs, parseDeposit unpack client dl ≠ .error .panic) ∧
        result = deposits ++ logs.filterMap (parsed unpack client) := by
  induction logs generalizing deposits with
  | nil => simp [pure, Except.pure, eq_comm]
  | cons dl logs ih =>
    rw [List.foldlM_cons, List.forall_mem_cons]
    by_cases hpanic : parseDeposit unpack client dl = .error .panic
    · have hturn : appendParsed unpack client deposits dl = .error .panic := by
        rw [appendParsed, hpanic]
      rw [hturn]
      exact iff_of_false (fun h => nomatch h) fun h => h.1.1 hpanic
    · rw [appendParsed_of_ne_panic hpanic, ok_bind, ih, List.append_assoc]
      cases hparsed : parsed unpack client dl <;> simp [hpanic, hparsed]

theorem fetchDeposits_eq_ok {logs : List Log} {deposits : List Deposit} :
    fetchDeposits unpack client (.ok logs) = .ok deposits ↔
      (∀ dl ∈ logs, parseDeposit unpack client dl ≠ .error .panic) ∧
        deposits = logs.filterMap (parsed unpack client) := by
  unfold fetchDeposits
  rw [foldlM_appendParsed, List.nil_append]

variable {txHash : String} {receipt : Receipt} {latestBlock blockConfirmations : ℤ}
  {bridgeAddress : Address}

/-- A retry does with all logs of the bridge what `FetchDeposits` does with those of its event. -/
theorem fetchRetryDepositEvents_eq (h : receipt.blockNumber + blockConfirmations < latestBlock) :
    fetchRetryDepositEvents unpack client txHash (.ok receipt) (.ok latestBlock) bridgeAddress
        blockConfirmations =
      fetchDeposits unpack client (.ok (receipt.logs.filter (·.address = bridgeAddress))) := by
  unfold fetchRetryDepositEvents fetchDeposits
  dsimp only
  rw [if_neg (Int.not_le.2 h), List.foldlM_filter]
  congr 1
  funext deposits lg
  by_cases hbridge : lg.address = bridgeAddress <;> simp [hbridge, pure, Except.pure]

theorem eventLogs_eq (keccak256 : String → Hash) (event : String) (logs : List Log) :
    eventLogs keccak256 bridgeAddress event logs =
      (logs.filter (·.address = bridgeAddress)).filter
        (·.topics.head? = some (keccak256 event)) := by
  unfold eventLogs
  rw [List.filter_filter]
  congr 1
  funext l
  rw [Bool.decide_and, Bool.and_comm]

theorem isSome_parsed (dl : Log) :
    (parsed unpack client dl).isSome = (parsed unpack client' dl).isSome := by
  unfold parsed parseDeposit
  cases unpack dl.data with
  | error err => rfl
  | ok d => cases dl.topics[1]? <;> rfl

theorem parsed_eq_iff {dl : Log} (h : dl.topics.length = 2) :
    parsed unpack client dl = parsed unpack client' dl ↔
      ∀ d, unpack dl.data = .ok d → client'.timestamp dl = client.timestamp dl := by
  obtain ⟨topic, htopic⟩ : ∃ topic, dl.topics[1]? = some topic :=
    ⟨_, List.getElem?_eq_getElem (by omega)⟩
  unfold parsed parseDeposit
  rw [htopic]
  cases unpack dl.data with
  | error err => simp [Except.toOption]
  | ok d => simp [Except.toOption, eq_comm]

/-- For a transaction that is confirmed, the retried deposits are the original ones exactly if no
other log of the bridge has data that unpacks, and for each log of a deposit the two calls get the
same time, be it that of its block or the time of day. -/
theorem retried_deposits_iff (unpack : List UInt8 → Except String DepositData)
    (client client' : Client) (keccak256 : String → Hash) (txHash : String)
    (receipt : Receipt) (latestBlock blockConfirmations : ℤ) (bridgeAddress : Address)
    (hconfirmed : receipt.blockNumber + blockConfirmations < latestBlock)
    (htopics : ∀ dl ∈ eventLogs keccak256 bridgeAddress depositSig receipt.logs,
      dl.topics.length = 2) :
    (∃ deposits,
      fetchDeposits unpack client
        (.ok (eventLogs keccak256 bridgeAddress depositSig receipt.logs)) = .ok deposits ∧
      fetchRetryDepositEvents unpack client' txHash (.ok receipt) (.ok latestBlock) bridgeAddress
        blockConfirmations = .ok deposits) ↔
      ∀ lg ∈ receipt.logs, lg.address = bridgeAddress →
        (lg.topics.head? ≠ some (keccak256 depositSig) → ∃ err, unpack lg.data = .error err) ∧
        (lg.topics.head? = some (keccak256 depositSig) → ∀ d, unpack lg.data = .ok d →
          client'.timestamp lg = client.timestamp lg) := by
  rw [fetchRetryDepositEvents_eq hconfirmed]
  rw [eventLogs_eq] at htopics ⊢
  set logs := receipt.logs.filter (·.address = bridgeAddress) with hlogs
  simp only [fetchDeposits_eq_ok]
  have htwo : ∀ lg ∈ logs, lg.topics.head? = some (keccak256 depositSig) → lg.topics.length = 2 :=
    fun lg hlg htopic => htopics lg (List.mem_filter.2 ⟨hlg, decide_eq_true htopic⟩)
  have hforall : (∀ lg ∈ receipt.logs, lg.address = bridgeAddress →
      (lg.topics.head? ≠ some (keccak256 depositSig) → ∃ err, unpack lg.data = .error err) ∧
      (lg.topics.head? = some (keccak256 depositSig) → ∀ d, unpack lg.data = .ok d →
        client'.timestamp lg = client.timestamp lg)) ↔
      ∀ lg ∈ logs,
        (lg.topics.head? ≠ some (keccak256 depositSig) →
          parsed unpack client lg = none ∧ parseDeposit unpack client' lg ≠ .error .panic) ∧
        (lg.topics.head? = some (keccak256 depositSig) →
          parsed unpack client lg = parsed unpack client' lg) := by
    simp only [hlogs, List.mem_filter, decide_eq_true_eq, and_imp]
    refine forall₃_congr fun lg hlg haddress => ?_
    refine and_congr (imp_congr_right fun _ => unpack_error_iff) ?_
    refine forall_congr' fun htopic => (parsed_eq_iff ?_).symm
    exact htwo lg (List.mem_filter.2 ⟨hlg, decide_eq_true haddress⟩) htopic
  rw [hforall]
  constructor
  · rintro ⟨_, ⟨-, rfl⟩, hpanic, heq⟩ lg hlg
    have h := (Sublists.filterMap_filter_eq_iff isSome_parsed logs).1 heq lg hlg
    exact ⟨fun htopic => ⟨h.1 (decide_eq_false htopic), hpanic lg hlg⟩,
      fun htopic => h.2 (decide_eq_true htopic)⟩
  · intro h
    refine ⟨_, ⟨fun lg hlg => ?_, rfl⟩, fun lg hlg => ?_, ?_⟩
    · obtain ⟨hlg, htopic⟩ := List.mem_filter.1 hlg
      exact parseDeposit_ne_panic (htwo lg hlg (of_decide_eq_true htopic))
    · by_cases htopic : lg.topics.head? = some (keccak256 depositSig)
      · exact parseDeposit_ne_panic (htwo lg hlg htopic)
      · exact ((h lg hlg).1 htopic).2
    · refine (Sublists.filterMap_filter_eq_iff isSome_parsed logs).2 fun lg hlg => ?_
      exact ⟨fun htopic => ((h lg hlg).1 (of_decide_eq_false htopic)).1,
        fun htopic => (h lg hlg).2 (of_decide_eq_true htopic)⟩

/-- An unpacker that takes any data of one byte for a deposit to that domain. -/
def oneByte : List UInt8 → Except String DepositData
  | [dest] => .ok ⟨dest, 0, 7, [], []⟩
  | _ => .error "abi: attempting to unmarshal an empty string while arguments are expected"

/-- A client that gets every block. -/
def atTwelve : Client := ⟨fun _ => .ok 12, fun _ => 0⟩

/-- A client that gets none. -/
def noBlocks : Client := ⟨fun _ => .error "not found", fun _ => 90⟩

/-- A hash under which the signature of `Deposit` has the topic 1. -/
def topicOne (_event : String) : Hash := 1

def logOf (topics : List Hash) (data : List UInt8) : Log := ⟨0xb1, topics, data, 20⟩

theorem retried_deposits_iff_paused :
    ∃ deposits,
      fetchDeposits oneByte atTwelve (.ok (eventLogs topicOne 0xb1 depositSig
        [logOf [1, 0xa] [3], logOf [2] []])) = .ok deposits ∧
      fetchRetryDepositEvents oneByte atTwelve "0xf2"
        (.ok ⟨20, [logOf [1, 0xa] [3], logOf [2] []]⟩) (.ok 26) 0xb1 5 = .ok deposits :=
  (retried_deposits_iff oneByte atTwelve atTwelve topicOne "0xf2"
    ⟨20, [logOf [1, 0xa] [3], logOf [2] []]⟩ 26 5 0xb1 (by decide) (by decide)).2 (by
      intro lg hlg _
      refine ⟨fun htopic => ?_, fun _ _ _ => rfl⟩
      rcases List.mem_cons.1 hlg with rfl | hlg
      · exact absurd rfl htopic
      · obtain rfl := List.mem_singleton.1 hlg
        exact ⟨_, rfl⟩)

/-- Another event of the bridge is retried as a deposit; with one topic only, it makes the retry
panic. And a deposit is retried at another time if its block is not found again. -/
theorem retried_other_event :
    fetchDeposits oneByte atTwelve
        (.ok (eventLogs topicOne 0xb1 depositSig [logOf [2, 0xa] [3]])) = .ok [] ∧
      fetchRetryDepositEvents oneByte atTwelve "0xf2" (.ok ⟨20, [logOf [2, 0xa] [3]]⟩) (.ok 26)
        0xb1 5 = .ok [⟨⟨3, 0, 7, [], []⟩, 0xa, 12⟩] ∧
      fetchRetryDepositEvents oneByte atTwelve "0xf2" (.ok ⟨20, [logOf [2] [3]]⟩) (.ok 26) 0xb1 5 =
        .error .panic ∧
      fetchDeposits oneByte atTwelve
        (.ok (eventLogs topicOne 0xb1 depositSig [logOf [1, 0xa] [3]])) =
          .ok [⟨⟨3, 0, 7, [], []⟩, 0xa, 12⟩] ∧
      fetchRetryDepositEvents oneByte noBlocks "0xf2" (.ok ⟨20, [logOf [1, 0xa] [3]]⟩) (.ok 26)
        0xb1 5 = .ok [⟨⟨3, 0, 7, [], []⟩, 0xa, 90⟩] := by
  decide +kernel

end Sygma.Listener
