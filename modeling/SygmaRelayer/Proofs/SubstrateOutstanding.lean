import SygmaRelayer.Spec.SubstrateExecutor

/-! Does the Substrate executor submit the outstanding proposals? The loop of `Execute` fills
the list that is hashed, signed and submitted before it asks whether a proposal is executed,
and it filters by appending to the list it ranges over. So the list it goes on with is the
whole list, and the call is right exactly when nothing in it is executed. -/

namespace Sygma.Substrate

open Evm (TransferProposal)

/-- The proposals not yet executed, in order, or the first error of `IsProposalExecuted`. -/
def outstanding : List Queried → Except String (List TransferProposal)
  | [] => .ok []
  | (p, .ok false) :: qs => (outstanding qs).map (p :: ·)
  | (_, .ok true) :: qs => outstanding qs
  | (_, .error err) :: _ => .error err

/-- The lists that were hashed. -/
def hashed (effects : List Effect) : List (List TransferProposal) :=
  effects.filterMap fun
    | .hash proposals => some proposals
    | _ => none

/-- The messages a signing session was started for. -/
def signed (effects : List Effect) : List ℕ :=
  effects.filterMap fun
    | .sign msg _ => some msg
    | _ => none

/-- The lists that were submitted. -/
def submitted (effects : List Effect) : List (List TransferProposal) :=
  effects.filterMap fun
    | .submit proposals _ => some proposals
    | _ => none

/-- The event ends the loop of `watchExecution`. -/
def WatchEvent.ends (proposals : List TransferProposal) : WatchEvent → Bool
  | .sigResult result _ _ => result.isSome
  | .tick isProposalExecuted => areProposalsExecuted isProposalExecuted proposals
  | .timeout | .done => true

def WatchEvent.isSigResult : WatchEvent → Bool
  | .sigResult .. => true
  | .tick _ | .timeout | .done => false

/-- The loop of `watchExecution` ends with a signature. -/
def signatureArrives (proposals : List TransferProposal) (events : List WatchEvent) : Bool :=
  (events.find? (WatchEvent.ends proposals)).any WatchEvent.isSigResult

/-- The message that is signed for a list of proposals, if a signing process can be made. -/
def signingMessage (svc : Services) (proposals : List TransferProposal) : Option ℕ :=
  match svc.proposalsHash proposals, svc.newSigning with
  | .ok propHash, .ok () => some (Bytes.toNat propHash)
  | _, _ => none

/-- The call hashes, signs and submits exactly `out`, and does nothing if that is empty. -/
structure Handles (svc : Services) (out : List TransferProposal) (events : List WatchEvent)
    (t : Trace) : Prop where
  idle : out = [] → t = ⟨[], some []⟩
  hashed : out ≠ [] → hashed t.effects = [out]
  signed : out ≠ [] → signed t.effects = (signingMessage svc out).toList
  submitted : out ≠ [] → submitted t.effects =
    if (signingMessage svc out).isSome && signatureArrives out events then [out] else []

/-- What a call should do: stop at a failed query, and handle the outstanding proposals
otherwise. -/
def ExecutesOutstanding (svc : Services) (queried : List Queried) (events : List WatchEvent)
    (t : Trace) : Prop :=
  match outstanding queried with
  | .ok out => Handles svc out events t
  | .error err => t = ⟨[], some [err]⟩

theorem watchExecution_effects (proposals : List TransferProposal) (sessionID : String)
    (events : List WatchEvent) :
    hashed (watchExecution proposals sessionID events).1 = [] ∧
    signed (watchExecution proposals sessionID events).1 = [] ∧
    submitted (watchExecution proposals sessionID events).1 =
      if signatureArrives proposals events then [proposals] else [] := by
  induction events with
  | nil => exact ⟨rfl, rfl, rfl⟩
  | cons e events ih =>
    cases e with
    | sigResult result executed tracked =>
      cases result with
      | none => exact ih
      | some sig => cases executed <;> exact ⟨rfl, rfl, rfl⟩
    | tick isProposalExecuted =>
      by_cases h : areProposalsExecuted isProposalExecuted proposals = true
      · have harrives : signatureArrives proposals (.tick isProposalExecuted :: events) = false := by
          simp [signatureArrives, WatchEvent.ends, WatchEvent.isSigResult, h]
        rw [harrives, watchExecution, if_pos h]
        exact ⟨rfl, rfl, rfl⟩
      · have harrives : signatureArrives proposals (.tick isProposalExecuted :: events) =
            signatureArrives proposals events := by
          simp [signatureArrives, WatchEvent.ends, h]
        rw [harrives, watchExecution, if_neg h]
        exact ih
    | timeout => exact ⟨rfl, rfl, rfl⟩
    | done => exact ⟨rfl, rfl, rfl⟩

theorem session_effects_none {svc : Services} {proposals : List TransferProposal}
    (h : signingMessage svc proposals = none) (events : List WatchEvent) :
    (session svc proposals events).effects = [.hash proposals] := by
  unfold signingMessage at h
  unfold session
  cases hh : svc.proposalsHash proposals with
  | error err => rfl
  | ok propHash =>
    cases hs : svc.newSigning with
    | error err => rfl
    | ok u => simp [hh, hs] at h

theorem session_effects_some {svc : Services} {proposals : List TransferProposal} {msg : ℕ}
    (h : signingMessage svc proposals = some msg) (events : List WatchEvent) :
    ∃ sessionID, (session svc proposals events).effects = .hash proposals ::
      .sign msg sessionID :: (watchExecution proposals sessionID events).1 := by
  unfold signingMessage at h
  unfold session
  cases hh : svc.proposalsHash proposals with
  | error err => simp [hh] at h
  | ok propHash =>
    cases hs : svc.newSigning with
    | error err => simp [hh, hs] at h
    | ok u =>
      obtain rfl : Bytes.toNat propHash = msg := by simpa [hh, hs] using h
      exact ⟨_, rfl⟩

theorem session_handles (svc : Services) {proposals : List TransferProposal}
    (hne : proposals ≠ []) (events : List WatchEvent) :
    Handles svc proposals events (session svc proposals events) := by
  cases hmsg : signingMessage svc proposals with
  | none =>
    have heffects := session_effects_none hmsg events
    refine ⟨fun h => absurd h hne, fun _ => ?_, fun _ => ?_, fun _ => ?_⟩ <;> rw [heffects]
    · rfl
    · rw [hmsg]
      rfl
    · rw [hmsg]
      rfl
  | some msg =>
    obtain ⟨sessionID, heffects⟩ := session_effects_some hmsg events
    obtain ⟨hhash, hsign, hsubmit⟩ := watchExecution_effects proposals sessionID events
    refine ⟨fun h => absurd h hne, fun _ => ?_, fun _ => ?_, fun _ => ?_⟩ <;> rw [heffects]
    · exact congrArg (proposals :: ·) hhash
    · rw [hmsg]
      exact congrArg (msg :: ·) hsign
    · rw [hmsg, Option.isSome_some, Bool.true_and]
      exact hsubmit

/-- The loop goes on with every proposal, and with the outstanding ones a second time. -/
theorem loop_eq (queried : List Queried) (acc : List TransferProposal × List TransferProposal) :
    queried.foldlM addProposal acc =
      (outstanding queried).map fun out => (acc.1 ++ queried.map Prod.fst, acc.2 ++ out) := by
  induction queried generalizing acc with
  | nil => simp [outstanding, pure, Except.pure, Except.map]
  | cons q qs ih =>
    obtain ⟨p, answer⟩ := q
    rw [List.foldlM_cons]
    cases answer with
    | error err => rfl
    | ok isExecuted =>
      cases isExecuted with
      | true =>
        have hturn : addProposal acc (p, .ok true) = .ok (acc.1 ++ [p], acc.2) := rfl
        rw [hturn]
        change qs.foldlM addProposal _ = _
        rw [ih]
        simp [outstanding]
      | false =>
        have hturn : addProposal acc (p, .ok false) = .ok (acc.1 ++ [p], acc.2 ++ [p]) := rfl
        rw [hturn]
        change qs.foldlM addProposal _ = _
        rw [ih]
        cases hout : outstanding qs <;> simp [outstanding, Except.map, hout]

theorem execute_eq (svc : Services) (queried : List Queried) (events : List WatchEvent) :
    execute svc queried events =
      match outstanding queried with
      | .error err => ⟨[], some [err]⟩
      | .ok _ =>
        if queried = [] then ⟨[], some []⟩ else session svc (queried.map Prod.fst) events := by
  unfold execute
  rw [loop_eq]
  cases hout : outstanding queried with
  | error err => rfl
  | ok out =>
    cases queried with
    | nil =>
      cases hout
      rfl
    | cons q qs => rfl

theorem outstanding_sublist {queried : List Queried} {out : List TransferProposal}
    (h : outstanding queried = .ok out) : out.Sublist (queried.map Prod.fst) := by
  induction queried generalizing out with
  | nil =>
    cases h
    exact .slnil
  | cons q qs ih =>
    match q, h with
    | (p, .ok true), h => exact (ih h).cons p
    | (p, .ok false), h =>
      cases hout : outstanding qs with
      | error err => simp [outstanding, hout, Except.map] at h
      | ok out' =>
        obtain rfl : p :: out' = out := by simpa [outstanding, hout, Except.map] using h
        exact (ih hout).cons_cons p

theorem outstanding_eq_all_iff {queried : List Queried} {out : List TransferProposal}
    (h : outstanding queried = .ok out) :
    out = queried.map Prod.fst ↔ ∀ q ∈ queried, q.2 ≠ .ok true := by
  induction queried generalizing out with
  | nil =>
    cases h
    simp
  | cons q qs ih =>
    match q, h with
    | (p, .ok true), h =>
      have hlen := (@outstanding_sublist qs out h).length_le
      have hne : out ≠ p :: qs.map Prod.fst := by
        intro heq
        rw [heq] at hlen
        simp at hlen
      simp [hne]
    | (p, .ok false), h =>
      cases hout : outstanding qs with
      | error err => simp [outstanding, hout, Except.map] at h
      | ok out' =>
        obtain rfl : p :: out' = out := by simpa [outstanding, hout, Except.map] using h
        simpa using ih hout

/-- A call executes the outstanding proposals iff a query fails or no proposal is executed. -/
theorem execute_outstanding_iff (svc : Services) (queried : List Queried)
    (events : List WatchEvent) :
    ExecutesOutstanding svc queried events (execute svc queried events) ↔
      (∃ err, outstanding queried = .error err) ∨ ∀ q ∈ queried, q.2 ≠ .ok true := by
  unfold ExecutesOutstanding
  rw [execute_eq]
  cases hout : outstanding queried with
  | error err => simp
  | ok out =>
    have hall := outstanding_eq_all_iff hout
    by_cases hnil : queried = []
    · subst hnil
      cases hout
      simpa using ⟨fun _ => rfl, fun h => absurd rfl h, fun h => absurd rfl h,
        fun h => absurd rfl h⟩
    · have hmap : queried.map Prod.fst ≠ [] := by simpa using hnil
      have hsession := session_handles svc hmap events
      simp only [if_neg hnil, reduceCtorEq, exists_false, false_or, ← hall]
      constructor
      · intro hhandles
        -- an empty list would have been hashed by no call, and this one hashes the whole list
        have hne : out ≠ [] := by
          intro hempty
          have := hsession.hashed hmap
          rw [hhandles.idle hempty] at this
          cases this
        have hboth := (hhandles.hashed hne).symm.trans (hsession.hashed hmap)
        exact List.singleton_injective hboth
      · intro heq
        rw [heq]
        exact hsession

def transferOf (nonce : UInt64) : TransferProposal :=
  ⟨1, 3, ⟨nonce, 1, none, [0]⟩, "1-3-10-15"⟩

/-- A hash that lists the nonces. -/
def nonceServices : Services :=
  ⟨fun ps => .ok (ps.map fun p => p.data.depositNonce.toUInt8), .ok (), .ok ()⟩

def oneSignature : List WatchEvent := [.sigResult (some ⟨[1], [2], [0]⟩) (.ok [9]) (.ok ())]

/-- An executed transfer is hashed, signed and submitted again, also if nothing else is. -/
theorem execute_resubmits_executed :
    (let t := execute nonceServices [(transferOf 7, .ok true), (transferOf 8, .ok false)] oneSignature
     hashed t.effects = [[transferOf 7, transferOf 8]] ∧
     submitted t.effects = [[transferOf 7, transferOf 8]]) ∧
    (let t := execute nonceServices [(transferOf 7, .ok true)] oneSignature
     signed t.effects = [7] ∧ submitted t.effects = [[transferOf 7]]) :=
  ⟨⟨rfl, rfl⟩, rfl, rfl⟩

end Sygma.Substrate
