import Mathlib.Data.List.Induction
import SygmaRelayer.Lib.Runs
import SygmaRelayer.Spec.BtcWatch

/-! The signatures of the inputs arrive in any order and more than once. The loop keeps the last
one for each input, and sends the transaction when it has one for every input. -/

namespace Sygma.BtcWatch

open Runs

variable {n : ℕ} {es : List Event} {e : Event}

/-- A result on `sigChn` as the signing processes of `n` inputs send it. -/
def Event.Valid (n : ℕ) : Event → Prop
  | .result (some sig) _ => sig.id < n ∧ sig.bytes ≠ []
  | .result none _ => True
  | .timeout | .done => False

def Event.signature? : Event → Option Signature
  | .result sigResult _ => sigResult
  | .timeout | .done => none

/-- The signatures that have arrived for input `i`. -/
def arrived (es : List Event) (i : ℕ) : List Signature :=
  (es.filterMap Event.signature?).filter fun sig => sig.id = i

/-- There is a signature for every input. -/
def Complete (n : ℕ) (es : List Event) : Prop := ∀ i < n, arrived es i ≠ []

instance (n : ℕ) (es : List Event) : Decidable (Complete n es) :=
  inferInstanceAs (Decidable (∀ i < n, _))

/-- The last signature for input `i`, empty if there is none. -/
def lastSignature (es : List Event) (i : ℕ) : List UInt8 :=
  ((arrived es i).getLast?.map Signature.bytes).getD []

def placed (n : ℕ) (es : List Event) : List (List UInt8) := (List.range n).map (lastSignature es)

/-- The witnesses of the `sendTx` calls. -/
def sendTxs (s : State) : List (List (List (List UInt8))) :=
  s.actions.filterMap fun
    | .sendTx witnesses => some witnesses
    | _ => none

theorem arrived_append (es : List Event) (e : Event) (i : ℕ) :
    arrived (es ++ [e]) i = arrived es i ++ arrived [e] i := by
  simp [arrived]

theorem Complete.append (h : Complete n es) (e : Event) : Complete n (es ++ [e]) := by
  intro i hi
  rw [arrived_append]
  exact fun hnil => h i hi (List.append_eq_nil_iff.1 hnil).1

theorem lastSignature_append_none (h : e.signature? = none) (i : ℕ) :
    lastSignature (es ++ [e]) i = lastSignature es i := by
  simp [lastSignature, arrived, h]

theorem lastSignature_append_some {sig : Signature} (h : e.signature? = some sig) (i : ℕ) :
    lastSignature (es ++ [e]) i = if sig.id = i then sig.bytes else lastSignature es i := by
  unfold lastSignature
  rw [arrived_append]
  by_cases hi : sig.id = i
  · simp [arrived, h, hi]
  · simp [arrived, h, hi]

/-- A signature goes to its own place. -/
theorem placed_append_some {sig : Signature} (h : e.signature? = some sig) :
    placed n (es ++ [e]) = (placed n es).set sig.id sig.bytes := by
  apply List.ext_getElem
  · simp [placed]
  · intro i _ _
    rw [List.getElem_set]
    simp [placed, lastSignature_append_some h]

theorem placed_append_none (h : e.signature? = none) : placed n (es ++ [e]) = placed n es :=
  List.map_congr_left fun i _ => lastSignature_append_none h i

theorem valid_of_mem_arrived (hvalid : ∀ e ∈ es, e.Valid n) {i : ℕ} {sig : Signature}
    (h : sig ∈ arrived es i) : sig.id < n ∧ sig.bytes ≠ [] := by
  obtain ⟨e, he, hsig⟩ := List.mem_filterMap.1 ((List.mem_filter.1 h).1)
  have := hvalid e he
  cases e with
  | result sigResult sent =>
    obtain rfl : sigResult = some sig := hsig
    exact this
  | timeout => cases hsig
  | done => cases hsig

theorem lastSignature_ne_nil_iff (hvalid : ∀ e ∈ es, e.Valid n) (i : ℕ) :
    lastSignature es i ≠ [] ↔ arrived es i ≠ [] := by
  unfold lastSignature
  cases hlast : (arrived es i).getLast? with
  | none => simp [List.getLast?_eq_none_iff.1 hlast]
  | some sig =>
    have hmem := List.mem_of_getLast? hlast
    have hne : arrived es i ≠ [] := List.ne_nil_of_mem hmem
    simp [(valid_of_mem_arrived hvalid hmem).2, hne]

theorem signaturesFilled_placed_iff (hvalid : ∀ e ∈ es, e.Valid n) :
    signaturesFilled (placed n es) = true ↔ Complete n es := by
  unfold signaturesFilled placed Complete
  simp only [List.all_map, List.all_eq_true, List.mem_range, Function.comp_apply,
    decide_eq_true_eq, ← lastSignature_ne_nil_iff hvalid, ne_eq, List.length_eq_zero_iff]

theorem watchExecution_append (es es' : List Event) :
    watchExecution n (es ++ es') = es'.foldl step (watchExecution n es) :=
  List.foldl_append

theorem step_placed (he : e.Valid n) (es : List Event) (actions : List Action) :
    ∃ sent, step ⟨.watching (placed n es), actions⟩ e =
      if signaturesFilled (placed n (es ++ [e])) = true ∧ e.signature? ≠ none then
        send ⟨.watching (placed n es), actions⟩ (placed n (es ++ [e])) sent
      else ⟨.watching (placed n (es ++ [e])), actions⟩ := by
  cases e with
  | timeout => cases he
  | done => cases he
  | result sigResult sent =>
    refine ⟨sent, ?_⟩
    cases sigResult with
    | none =>
      rw [if_neg (by simp [Event.signature?]), placed_append_none rfl]
      rfl
    | some sig =>
      have hlength : sig.id < (placed n es).length := by simpa [placed] using he.1
      simp [step, Event.signature?, hlength, placed_append_some]

/-- As long as a signature is missing, the last ones are in place and nothing has been done. -/
theorem watchExecution_of_not_complete (hvalid : ∀ e ∈ es, e.Valid n) (h : ¬ Complete n es) :
    watchExecution n es = ⟨.watching (placed n es), []⟩ := by
  induction es using List.reverseRecOn with
  | nil =>
    have hempty : placed n [] = List.replicate n [] := by
      change (List.range n).map (Function.const ℕ []) = _
      rw [List.map_const, List.length_range]
    rw [hempty]
    rfl
  | append_singleton es e ih =>
    have hfilled := signaturesFilled_placed_iff hvalid
    rw [List.forall_mem_append, List.forall_mem_singleton] at hvalid
    have hbefore := ih hvalid.1 fun hc => h (hc.append e)
    obtain ⟨sent, hstep⟩ := step_placed hvalid.2 es []
    rw [watchExecution_append, hbefore, List.foldl_cons, List.foldl_nil, hstep, if_neg]
    exact fun hsend => h (hfilled.1 hsend.1)

/-- With the last missing signature the transaction is sent. -/
theorem watchExecution_of_complete (hvalid : ∀ e' ∈ es ++ [e], e'.Valid n) (h : ¬ Complete n es)
    (hc : Complete n (es ++ [e])) :
    ∃ sent, watchExecution n (es ++ [e]) =
      send ⟨.watching (placed n es), []⟩ (placed n (es ++ [e])) sent := by
  have hfilled := (signaturesFilled_placed_iff hvalid).2 hc
  rw [List.forall_mem_append, List.forall_mem_singleton] at hvalid
  obtain ⟨sent, hstep⟩ := step_placed hvalid.2 es []
  refine ⟨sent, ?_⟩
  rw [watchExecution_append, watchExecution_of_not_complete hvalid.1 h, List.foldl_cons,
    List.foldl_nil, hstep, if_pos]
  refine ⟨hfilled, fun hnone => h fun i hi => ?_⟩
  have := hc i hi
  rw [arrived_append] at this
  simpa [arrived, hnone] using this

theorem foldl_step_returned {s : State} {err : Option String} (h : s.pc = .returned err)
    (es : List Event) : es.foldl step s = s := by
  induction es with
  | nil => rfl
  | cons e es ih =>
    have hstep : step s e = s := by
      unfold step
      rw [h]
    rw [List.foldl_cons, hstep, ih]

theorem sendTxs_send (signatures placed : List (List UInt8)) (sent : Except String String) :
    sendTxs (send ⟨.watching signatures, []⟩ placed sent) = [placed.map fun sig => [sig]] := by
  cases sent <;> rfl

theorem send_returned (s : State) (signatures : List (List UInt8)) (sent : Except String String) :
    ∃ err, (send s signatures sent).pc = .returned err := by
  cases sent with
  | error err => exact ⟨some err, rfl⟩
  | ok hash => exact ⟨none, rfl⟩

/-- The transaction is sent once, when the last missing signature arrives, and the witness of each
input is the last signature for it. -/
theorem signatures_placed (hn : 1 ≤ n) (hvalid : ∀ e ∈ es, e.Valid n) :
    (¬ Complete n es → sendTxs (watchExecution n es) = []) ∧
    (Complete n es → ∃ pre e post witnesses, es = pre ++ e :: post ∧
      ¬ Complete n pre ∧ sendTxs (watchExecution n pre) = [] ∧
      Complete n (pre ++ [e]) ∧ sendTxs (watchExecution n (pre ++ [e])) = [witnesses] ∧
      sendTxs (watchExecution n es) = [witnesses] ∧
      witnesses.length = n ∧
      ∀ i < n, ∃ sig, (arrived (pre ++ [e]) i).getLast? = some sig ∧
        witnesses[i]? = some [sig.bytes]) := by
  refine ⟨?_, ?_⟩
  · intro h
    rw [watchExecution_of_not_complete hvalid h]
    rfl
  · intro h
    have h0 : ¬ Complete n [] := fun hc => hc 0 hn rfl
    obtain ⟨pre, e, post, rfl, hpre, hfirst⟩ := exists_first h0 h
    have hvalid' : ∀ e' ∈ pre ++ [e], e'.Valid n := fun e' he' => hvalid e' (by
      rw [List.append_cons]
      exact List.mem_append_left _ he')
    obtain ⟨sent, hsent⟩ := watchExecution_of_complete hvalid' hpre hfirst
    have hwitnesses : sendTxs (watchExecution n (pre ++ [e])) =
        [(placed n (pre ++ [e])).map fun sig => [sig]] := by
      rw [hsent, sendTxs_send]
    refine ⟨pre, e, post, _, rfl, hpre, ?_, hfirst, hwitnesses, ?_, by simp [placed], ?_⟩
    · rw [watchExecution_of_not_complete (fun e' he' => hvalid' e' (List.mem_append_left _ he')) hpre]
      rfl
    · obtain ⟨err, herr⟩ := send_returned ⟨.watching (placed n pre), []⟩ (placed n (pre ++ [e])) sent
      rw [List.append_cons, watchExecution_append, hsent, foldl_step_returned herr, ← hsent,
        hwitnesses]
    · intro i hi
      obtain ⟨sig, hsig⟩ := Option.ne_none_iff_exists'.1
        (mt List.getLast?_eq_none_iff.1 (hfirst i hi))
      refine ⟨sig, hsig, ?_⟩
      simp [placed, hi, lastSignature, hsig]

/-- Two signatures for the second input, and nil, before that for the first. -/
def outOfOrder : List Event :=
  [.result (some ⟨1, [7]⟩) (.ok ""), .result none (.ok ""), .result (some ⟨1, [8]⟩) (.ok ""),
    .result (some ⟨0, [9]⟩) (.ok ""), .result (some ⟨1, [6]⟩) (.ok "")]

theorem signatures_placed_out_of_order :
    ∃ pre e post, outOfOrder = pre ++ e :: post ∧ sendTxs (watchExecution 2 pre) = [] ∧
      sendTxs (watchExecution 2 outOfOrder) = [[[[9]], [[8]]]] := by
  have hvalid : ∀ e ∈ outOfOrder, e.Valid 2 := by
    simp [outOfOrder, Event.Valid]
  have hcomplete : Complete 2 outOfOrder := by decide
  obtain ⟨pre, e, post, _, hsplit, -, hbefore, -⟩ :=
    (signatures_placed (by decide) hvalid).2 hcomplete
  exact ⟨pre, e, post, hsplit, hbefore, rfl⟩

end Sygma.BtcWatch
