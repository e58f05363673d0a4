import Mathlib.Algebra.BigOperators.Group.List.Basic
import SygmaRelayer.Lib.Fallible
import SygmaRelayer.Lib.Text
import SygmaRelayer.Proofs.BtcDepositAgreement

/-! The amount and the fee of a Bitcoin deposit are sums over the outputs that pay the resource
and the fee address, so only the data depends on the order of the outputs. -/

namespace Sygma.BtcListener

open Go Fallible

/-- What the outputs pay to an address. -/
def paidTo (address : String) (vout : List Vout) : ℤ :=
  ((vout.filter fun v => v.address = address).map Vout.sat).sum

/-- What the taproot outputs pay to an address. -/
def taprootPaidTo (address : String) (vout : List Vout) : ℤ :=
  ((vout.filter fun v => v.address = address ∧ v.type = .witnessV1Taproot).map Vout.sat).sum

/-- The scripts of the OP_RETURN outputs are hex of at least two bytes. -/
def ValidScripts (vout : List Vout) : Prop :=
  ∀ v ∈ vout, v.type = .opReturn → ∃ script, hexDecode v.hex = (script, true) ∧ 2 ≤ script.length

theorem paidTo_perm {vout vout' : List Vout} (h : vout'.Perm vout) (address : String) :
    paidTo address vout' = paidTo address vout :=
  ((h.filter _).map _).sum_eq

theorem taprootPaidTo_perm {vout vout' : List Vout} (h : vout'.Perm vout) (address : String) :
    taprootPaidTo address vout' = taprootPaidTo address vout :=
  ((h.filter _).map _).sum_eq

theorem ValidScripts.perm {vout vout' : List Vout} (hvalid : ValidScripts vout)
    (h : vout'.Perm vout) : ValidScripts vout' :=
  fun v hv => hvalid v (h.mem_iff.1 hv)

section Data

theorem readOpReturn_of_ne {v : Vout} (h : v.type ≠ .opReturn) (data : List UInt8) :
    readOpReturn data v = .ok data :=
  if_neg h

theorem readOpReturn_total {vout : List Vout} (hvalid : ValidScripts vout) :
    ∀ v ∈ vout, ∀ data, ∃ data', readOpReturn data v = .ok data' := by
  intro v hv data
  by_cases htype : v.type = .opReturn
  · obtain ⟨script, hscript, hlength⟩ := hvalid v hv htype
    exact ⟨script.drop 2, by simp [readOpReturn, htype, hscript, hlength]⟩
  · exact ⟨data, readOpReturn_of_ne htype data⟩

theorem opReturnData_filter (vout : List Vout) (data : List UInt8) :
    opReturnData (vout.filter fun v => v.type = .opReturn) data = opReturnData vout data := by
  unfold opReturnData
  induction vout generalizing data with
  | nil => rfl
  | cons v vout ih =>
    by_cases htype : v.type = .opReturn
    · rw [List.filter_cons_of_pos (by simpa using htype), List.foldlM_cons, List.foldlM_cons]
      exact bind_congr ih
    · rw [List.filter_cons_of_neg (by simpa using htype), List.foldlM_cons,
        readOpReturn_of_ne htype, ok_bind, ih]

/-- A single OP_RETURN output may stand anywhere. -/
theorem opReturnData_perm {vout vout' : List Vout} (h : vout'.Perm vout)
    (hone : (vout.filter fun v => v.type = .opReturn).length ≤ 1) (data : List UInt8) :
    opReturnData vout' data = opReturnData vout data := by
  have hfilter := h.filter fun v => decide (v.type = .opReturn)
  rw [← opReturnData_filter vout', ← opReturnData_filter vout]
  cases hopReturn : vout.filter fun v => decide (v.type = .opReturn) with
  | nil =>
    rw [hopReturn] at hfilter
    rw [hfilter.eq_nil]
  | cons v rest =>
    rw [hopReturn] at hone hfilter
    obtain rfl : rest = [] := by simpa using hone
    rw [hfilter.eq_singleton]

end Data

section Sums

variable (resource : Resource) (feeAddress : String)

/-- What the variables of the loop stand for after the outputs `done`. -/
structure Sums (r : Reading) (done : List Vout) : Prop where
  amount : r.amount = taprootPaidTo resource.address done
  feeAmount : r.feeAmount = paidTo feeAddress done
  isBridgeDeposit : r.isBridgeDeposit = true ↔ ∃ v ∈ done, v.address = resource.address

variable {resource feeAddress}

theorem sums_step {r r' : Reading} {done : List Vout} {v : Vout}
    (h : Sums resource feeAddress r done) (hv : readVout resource feeAddress r v = .ok r') :
    Sums resource feeAddress r' (done ++ [v]) := by
  obtain ⟨data, -, hr'⟩ := bind_eq_ok.1 hv
  obtain rfl := Except.ok.inj hr'
  refine ⟨?_, ?_, ?_⟩
  · have := h.amount
    unfold taprootPaidTo at this ⊢
    by_cases hpays : v.address = resource.address ∧ v.type = .witnessV1Taproot
    · simp [this, hpays]
    · simp [this, hpays, @eq_comm _ resource.address]
  · have := h.feeAmount
    unfold paidTo at this ⊢
    by_cases hpays : v.address = feeAddress
    · simp [this, hpays]
    · simp [this, hpays, @eq_comm _ feeAddress]
  · have hpaid : (∃ w ∈ done ++ [v], w.address = resource.address) ↔
        (∃ w ∈ done, w.address = resource.address) ∨ v.address = resource.address := by
      simp [or_and_right, exists_or]
    rw [hpaid, ← h.isBridgeDeposit, @eq_comm _ v.address]
    exact decide_eq_true_iff.trans or_comm

variable (resource feeAddress) in
/-- The transaction is a deposit: it pays the resource, and enough to the fee address. -/
def Reported (vout : List Vout) : Prop :=
  (∃ v ∈ vout, v.address = resource.address) ∧ resource.feeAmount ≤ paidTo feeAddress vout

theorem Sums.reported_iff {r : Reading} {vout : List Vout} (h : Sums resource feeAddress r vout) :
    Reported resource feeAddress vout ↔
      ¬ (!r.isBridgeDeposit ∨ r.feeAmount < resource.feeAmount) := by
  unfold Reported
  rw [← h.isBridgeDeposit, ← h.feeAmount, not_or, not_lt, Bool.not_eq_true', Bool.not_eq_false]

/-- With valid scripts the result is a function of the sums and the data. -/
theorem decodeDepositEvent_cases {evt : TxRawResult} (hvalid : ValidScripts evt.vout) :
    ∃ data, opReturnData evt.vout [] = .ok data ∧
      (Reported resource feeAddress evt.vout → decodeDepositEvent evt resource feeAddress =
        .ok (some ⟨resource.resourceID, "", taprootPaidTo resource.address evt.vout, data⟩)) ∧
      (¬ Reported resource feeAddress evt.vout →
        decodeDepositEvent evt resource feeAddress = .ok none) := by
  obtain ⟨data, hdata⟩ := foldlM_total (readOpReturn_total hvalid) []
  have hloop := @readVouts_spec resource feeAddress evt.vout ⟨0, 0, false, [], 0⟩
    (by simp [Reading.Marked])
  simp only [opReturnData, hdata] at hloop
  obtain ⟨r, hr, rfl, hmarked⟩ := hloop
  have hsums : Sums resource feeAddress r evt.vout :=
    foldlM_ok ⟨rfl, rfl, by simp⟩ (fun _ _ _ _ h hv => sums_step h hv) hr
  refine ⟨r.data, hdata, ?_, ?_⟩
  · intro hreported
    have hnot := hsums.reported_iff.1 hreported
    have hpaid : r.isBridgeDeposit = true := hsums.isBridgeDeposit.2 hreported.1
    unfold decodeDepositEvent
    rw [hr, ok_bind, if_neg hnot, hmarked hpaid, hsums.amount]
    rfl
  · intro hreported
    rw [hsums.reported_iff, not_not] at hreported
    unfold decodeDepositEvent
    rw [hr, ok_bind, if_pos hreported]
    rfl

theorem reported_perm {vout vout' : List Vout} (h : vout'.Perm vout) :
    Reported resource feeAddress vout' ↔ Reported resource feeAddress vout := by
  unfold Reported
  rw [paidTo_perm h]
  simp only [h.mem_iff]

theorem decodeDepositEvent_perm {evt evt' : TxRawResult} (hvalid : ValidScripts evt.vout)
    (hone : (evt.vout.filter fun v => v.type = .opReturn).length ≤ 1)
    (h : evt'.vout.Perm evt.vout) :
    decodeDepositEvent evt' resource feeAddress = decodeDepositEvent evt resource feeAddress := by
  obtain ⟨data, hdata, hyes, hno⟩ := @decodeDepositEvent_cases resource feeAddress _ hvalid
  obtain ⟨data', hdata', hyes', hno'⟩ :=
    @decodeDepositEvent_cases resource feeAddress evt' (hvalid.perm h)
  rw [opReturnData_perm h hone, hdata] at hdata'
  obtain rfl := Except.ok.inj hdata'
  rw [reported_perm h] at hyes' hno'
  by_cases hreported : Reported resource feeAddress evt.vout
  · rw [hyes' hreported, hyes hreported, taprootPaidTo_perm h]
  · rw [hno' hreported, hno hreported]

end Sums

/-- A deposit is reported exactly if the resource and the fee are paid, its amount is what the
taproot outputs pay to the resource, and with one OP_RETURN output at most the outputs may come in
any order. -/
theorem deposit_sums {evt : TxRawResult} (hvalid : ValidScripts evt.vout) (resource : Resource)
    (feeAddress : String) :
    ((∃ d, decodeDepositEvent evt resource feeAddress = .ok (some d)) ↔
      (∃ v ∈ evt.vout, v.address = resource.address) ∧
        resource.feeAmount ≤ paidTo feeAddress evt.vout) ∧
    (∀ d, decodeDepositEvent evt resource feeAddress = .ok (some d) →
      d.amount = taprootPaidTo resource.address evt.vout) ∧
    ((evt.vout.filter fun v => v.type = .opReturn).length ≤ 1 →
      ∀ evt' : TxRawResult, evt'.vout.Perm evt.vout →
        decodeDepositEvent evt' resource feeAddress =
          decodeDepositEvent evt resource feeAddress) := by
  obtain ⟨data, -, hyes, hno⟩ := @decodeDepositEvent_cases resource feeAddress evt hvalid
  refine ⟨?_, ?_, fun hone evt' h => decodeDepositEvent_perm hvalid hone h⟩
  · refine ⟨?_, ?_⟩
    · rintro ⟨d, hd⟩
      by_contra hreported
      rw [hno hreported] at hd
      cases hd
    · intro hreported
      exact ⟨_, hyes hreported⟩
  · intro d hd
    by_cases hreported : Reported resource feeAddress evt.vout
    · rw [hyes hreported] at hd
      cases hd
      rfl
    · rw [hno hreported] at hd
      cases hd

/-- One output pays the resource from taproot, one does not, and the fee address is paid twice. -/
def splitPayment : TxRawResult where
  hash := "7b02"
  vout := [⟨60, .other, [], "fee"⟩, ⟨5000, .witnessV1Taproot, [], "bc1p"⟩,
    ⟨0, .opReturn, Text.ascii "6a0131", ""⟩,
    ⟨900, .other, [], "bc1p"⟩, ⟨40, .other, [], "fee"⟩]
  blocktime := 0

theorem deposit_sums_split :
    ∃ d, decodeDepositEvent splitPayment ⟨"bc1p", 100, 7⟩ "fee" = .ok (some d) ∧ d.amount = 5000 := by
  have hvalid : ValidScripts splitPayment.vout := by
    intro v hv htype
    simp only [splitPayment, List.mem_cons, List.not_mem_nil, or_false] at hv
    rcases hv with rfl | rfl | rfl | rfl | rfl
    · cases htype
    · cases htype
    · exact ⟨[0x6a, 1, 0x31], by decide, by decide⟩
    · cases htype
    · cases htype
  obtain ⟨hiff, hamount, -⟩ := deposit_sums hvalid ⟨"bc1p", 100, 7⟩ "fee"
  obtain ⟨d, hd⟩ := hiff.2 (by decide)
  exact ⟨d, hd, by rw [hamount d hd]; decide⟩

end Sygma.BtcListener
