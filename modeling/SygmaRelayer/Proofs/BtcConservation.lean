import Mathlib.Algebra.Group.Nat.Defs
import SygmaRelayer.Proofs.BtcTxAgreement

/-! Value conservation of an assembled transaction. Amounts are added and subtracted as
`uint64` and stored as `int64`, coin selection stops at an estimate of the fee, and the only
guard leaves the fee out. The transaction balances exactly when the shortest front of the UTXOs
worth more than the estimated total also pays for the outputs and the final fee, and all totals
fit. -/

namespace Sygma.Btc

open Fallible

variable {Address Script Hash : Type} {lib : BtcLib Address Script Hash}

/-- The exact value of the UTXOs spent. -/
def spent (used : List Utxo) : ℕ := (used.map fun u => u.value.toNat).sum

/-- The exact amount the proposals ask for. -/
def requested (proposals : List BtcTransferProposal) : ℕ :=
  (proposals.map fun p => p.data.amount.toNat).sum

/-- `outputAmount` in `rawTx` -/
def outputAmount (proposals : List BtcTransferProposal) : UInt64 :=
  (proposals.map fun p => p.data.amount).sum

/-- `feeEstimate` in `rawTx` -/
def estimatedFee (quote : UInt64) (proposals : List BtcTransferProposal) : UInt64 :=
  fee quote (UInt64.ofNat proposals.length) (UInt64.ofNat proposals.length)

/-- `fee` in `rawTx` -/
def finalFee (quote : UInt64) (proposals : List BtcTransferProposal) (used : List Utxo) : UInt64 :=
  fee quote (UInt64.ofNat used.length) (UInt64.ofNat proposals.length + 1)

/-- `returnAmount` in `rawTx` -/
def returnAmount (quote : UInt64) (proposals : List BtcTransferProposal) (used : List Utxo) :
    UInt64 :=
  sumValues used - finalFee quote proposals used - outputAmount proposals

/-- The values of the outputs `rawTx` adds, with `r` going back to the bridge. -/
def outputValues (proposals : List BtcTransferProposal) (r : UInt64) : List Int64 :=
  proposals.map (fun p => p.data.amount.toInt64) ++ [0] ++ if 0 < r then [r.toInt64] else []

/-- The transaction conserves value, and none of the totals on the way wraps. -/
structure Conserves (quote quote' : UInt64) (proposals : List BtcTransferProposal)
    (tx : MsgTx Script Hash) (used : List Utxo) : Prop where
  nonneg : ∀ o ∈ tx.txOut, 0 ≤ o.value
  balanced : (spent used : ℤ) =
    (tx.txOut.map fun o => o.value.toInt).sum + (finalFee quote' proposals used).toNat
  outputAmount : (outputAmount proposals).toNat = requested proposals
  target : (targetAmount proposals quote).toNat =
    requested proposals + (estimatedFee quote proposals).toNat
  inputAmount : (sumValues used).toNat = spent used
  returnAmount : ((returnAmount quote' proposals used).toNat : ℤ) =
    spent used - (finalFee quote' proposals used).toNat - requested proposals

theorem toNat_sum_mod (xs : List UInt64) : xs.sum.toNat = (xs.map UInt64.toNat).sum % 2 ^ 64 := by
  induction xs with
  | nil => rfl
  | cons x xs ih => simp [ih]

theorem toNat_sum_iff (xs : List UInt64) :
    xs.sum.toNat = (xs.map UInt64.toNat).sum ↔ (xs.map UInt64.toNat).sum < 2 ^ 64 := by
  rw [toNat_sum_mod]
  omega

theorem toNat_sumValues_iff (used : List Utxo) :
    (sumValues used).toNat = spent used ↔ spent used < 2 ^ 64 := by
  have h := toNat_sum_iff (used.map Utxo.value)
  rw [List.map_map] at h
  exact h

theorem toNat_outputAmount_iff (proposals : List BtcTransferProposal) :
    (outputAmount proposals).toNat = requested proposals ↔ requested proposals < 2 ^ 64 := by
  have h := toNat_sum_iff (proposals.map fun p => p.data.amount)
  rw [List.map_map] at h
  exact h

theorem toInt_toInt64 (x : UInt64) :
    x.toInt64.toInt = if x.toNat < 2 ^ 63 then (x.toNat : ℤ) else x.toNat - 2 ^ 64 := by
  have h : x.toInt64.toInt = x.toBitVec.toInt := rfl
  have hx : x.toBitVec.toNat = x.toNat := rfl
  rw [h, BitVec.toInt_eq_toNat_cond, hx]
  split_ifs <;> omega

theorem toInt_toInt64_of_lt {x : UInt64} (h : x.toNat < 2 ^ 63) : x.toInt64.toInt = x.toNat := by
  rw [toInt_toInt64, if_pos h]

theorem toInt64_nonneg_iff (x : UInt64) : 0 ≤ x.toInt64 ↔ x.toNat < 2 ^ 63 := by
  have hx := x.toNat_lt
  rw [Int64.le_iff_toInt_le, toInt_toInt64, Int64.toInt_zero]
  split_ifs <;> omega

theorem returnOutput_values {address : Address} {amount : UInt64} {rets : List (TxOut Script)}
    (h : returnOutput lib address amount = .ok rets) :
    rets.map TxOut.value = if 0 < amount then [amount.toInt64] else [] := by
  unfold returnOutput at h
  split_ifs at h with hpos
  · obtain ⟨script, _, h⟩ := bind_eq_ok.1 h
    obtain rfl : _ = rets := by simpa [pure, Except.pure] using h
    simp [hpos]
  · obtain rfl : [] = rets := by simpa [pure, Except.pure] using h
    simp [hpos]

theorem rawTx_values {a : Answers} {proposals : List BtcTransferProposal} {address : Address}
    {tx : MsgTx Script Hash} {used : List Utxo} {quote' : UInt64} (hq' : a.economyFee = .ok quote')
    (h : rawTx lib a proposals address = .ok (tx, used)) :
    tx.txOut.map TxOut.value = outputValues proposals (returnAmount quote' proposals used) := by
  obtain ⟨outAmount, outs, _, l, inAmount, quote, rets, hout, -, -, hin, -, hquote, hr, htx⟩ :=
    rawTx_eq_ok.1 h
  obtain rfl : quote = quote' := Except.ok.inj (hquote.symm.trans hq')
  obtain ⟨rfl, -⟩ := inputs_spec hin
  obtain ⟨rfl, hvalues⟩ := outputs_spec hout
  rw [htx, List.map_append, hvalues, returnOutput_values hr]
  rfl

theorem nonneg_outputValues_iff (proposals : List BtcTransferProposal) (r : UInt64) :
    (∀ v ∈ outputValues proposals r, 0 ≤ v) ↔
      (∀ p ∈ proposals, p.data.amount.toNat < 2 ^ 63) ∧ r.toNat < 2 ^ 63 := by
  have hret : (∀ v ∈ (if 0 < r then [r.toInt64] else []), (0 : Int64) ≤ v) ↔ r.toNat < 2 ^ 63 := by
    split_ifs with hpos
    · rw [List.forall_mem_singleton, toInt64_nonneg_iff]
    · have : r.toNat = 0 := by
        rw [UInt64.lt_iff_toNat_lt] at hpos
        simpa using hpos
      simp [this]
  unfold outputValues
  rw [List.forall_mem_append, List.forall_mem_append, hret]
  simp [toInt64_nonneg_iff]

theorem sum_amounts {proposals : List BtcTransferProposal}
    (hp : ∀ p ∈ proposals, p.data.amount.toNat < 2 ^ 63) :
    ((proposals.map fun p => p.data.amount.toInt64).map Int64.toInt).sum = requested proposals := by
  induction proposals with
  | nil => rfl
  | cons p ps ih =>
    rw [List.forall_mem_cons] at hp
    simp only [requested, List.map_cons, List.sum_cons, toInt_toInt64_of_lt hp.1] at ih ⊢
    rw [ih hp.2, Nat.cast_add]

theorem sum_outputValues {proposals : List BtcTransferProposal} {r : UInt64}
    (hp : ∀ p ∈ proposals, p.data.amount.toNat < 2 ^ 63) (hr : r.toNat < 2 ^ 63) :
    ((outputValues proposals r).map Int64.toInt).sum = requested proposals + r.toNat := by
  have hret : ((if 0 < r then [r.toInt64] else []).map Int64.toInt).sum = r.toNat := by
    split_ifs with hpos
    · simp [toInt_toInt64_of_lt hr]
    · have : r.toNat = 0 := by
        rw [UInt64.lt_iff_toNat_lt] at hpos
        simpa using hpos
      simp [this]
  unfold outputValues
  rw [List.map_append, List.map_append, List.sum_append, List.sum_append, hret, sum_amounts hp]
  simp

theorem toNat_returnAmount {proposals : List BtcTransferProposal} {used : List Utxo}
    {quote' : UInt64} (hin : (sumValues used).toNat = spent used)
    (hout : (outputAmount proposals).toNat = requested proposals)
    (hle : requested proposals + (finalFee quote' proposals used).toNat ≤ spent used) :
    (returnAmount quote' proposals used).toNat + (finalFee quote' proposals used).toNat +
      requested proposals = spent used := by
  have hfee : finalFee quote' proposals used ≤ sumValues used := by
    rw [UInt64.le_iff_toNat_le]
    omega
  have hrest : outputAmount proposals ≤ sumValues used - finalFee quote' proposals used := by
    rw [UInt64.le_iff_toNat_le, UInt64.toNat_sub_of_le _ _ hfee]
    omega
  unfold returnAmount
  rw [UInt64.toNat_sub_of_le _ _ hrest, UInt64.toNat_sub_of_le _ _ hfee]
  omega

@[simp] theorem spent_append (us vs : List Utxo) : spent (us ++ vs) = spent us + spent vs := by
  simp [spent]

@[simp] theorem spent_cons (u : Utxo) (us : List Utxo) :
    spent (u :: us) = u.value.toNat + spent us := by
  simp [spent]

theorem spent_le_of_isPrefix {us vs : List Utxo} (h : us <+: vs) : spent us ≤ spent vs := by
  obtain ⟨t, rfl⟩ := h
  rw [spent_append]
  exact Nat.le_add_right _ _

/-- The shortest front of the UTXOs worth more than `target`, or all of them if there is none. -/
def shortest (target : ℕ) : List Utxo → List Utxo
  | [] => []
  | u :: us =>
    if target < u.value.toNat then [u] else u :: shortest (target - u.value.toNat) us

theorem length_shortest_le {target : ℕ} {us q : List Utxo} (hq : q <+: us)
    (h : target < spent q) : (shortest target us).length ≤ q.length := by
  induction us generalizing target q with
  | nil =>
    rw [List.prefix_nil.1 hq] at h
    simp [spent] at h
  | cons u us ih =>
    cases q with
    | nil => simp [spent] at h
    | cons v q =>
      obtain ⟨rfl, hrest⟩ := List.cons_prefix_cons.1 hq
      rw [spent_cons] at h
      unfold shortest
      split_ifs with hgt
      · simp
      · have := ih hrest (show target - v.value.toNat < spent q by omega)
        simpa using this

theorem shortest_exceeds_or (target : ℕ) (us : List Utxo) :
    target < spent (shortest target us) ∨ shortest target us = us ∧ spent us ≤ target := by
  induction us generalizing target with
  | nil => exact .inr ⟨rfl, Nat.zero_le _⟩
  | cons u us ih =>
    unfold shortest
    split_ifs with hgt
    · exact .inl (by simpa [spent] using hgt)
    · rw [spent_cons, spent_cons, List.cons.injEq]
      rcases ih (target - u.value.toNat) with h | ⟨hall, hle⟩
      · exact .inl (by omega)
      · exact .inr ⟨⟨rfl, hall⟩, by omega⟩

/-- As long as the running total fits, the loop of `inputs` takes the shortest front. -/
theorem chosen_eq_shortest {target amount : UInt64} {us : List Utxo} (hle : amount ≤ target)
    (hfits : amount.toNat + spent (chosen target amount us) < 2 ^ 64 ∨
      amount.toNat + spent (shortest (target.toNat - amount.toNat) us) < 2 ^ 64) :
    chosen target amount us = shortest (target.toNat - amount.toNat) us := by
  induction us generalizing amount with
  | nil => rfl
  | cons u us ih =>
    -- both begin with `u`, so that the next total fits in either case
    have hnext : amount.toNat + u.value.toNat < 2 ^ 64 := by
      unfold chosen shortest at hfits
      rcases hfits with h | h <;> split_ifs at h <;> simp only [spent_cons] at h <;> omega
    have hadd : (amount + u.value).toNat = amount.toNat + u.value.toNat := by
      rw [UInt64.toNat_add, Nat.mod_eq_of_lt hnext]
    have hstop : target < amount + u.value ↔ target.toNat - amount.toNat < u.value.toNat := by
      rw [UInt64.lt_iff_toNat_lt, hadd]
      rw [UInt64.le_iff_toNat_le] at hle
      omega
    unfold chosen shortest at hfits ⊢
    by_cases hgt : target < amount + u.value
    · rw [if_pos hgt, if_pos (hstop.1 hgt)]
    · rw [if_neg hgt, if_neg (hgt ∘ hstop.2)] at hfits ⊢
      have hrest : target.toNat - amount.toNat - u.value.toNat =
          target.toNat - (amount + u.value).toNat := by omega
      rw [hrest] at hfits ⊢
      rw [ih (UInt64.not_lt.1 hgt) (by simp only [spent_cons] at hfits; omega)]

/-- The rounded fee rate, as an exact number. -/
def roundedRate (quote : UInt64) : ℕ := quote.toNat / 5 * 5 + 5

/-- The fee for so many inputs and outputs, as an exact number. -/
def feeFor (quote : UInt64) (numOfInputs numOfOutputs : ℕ) : ℕ :=
  (numOfInputs * INPUT_SIZE.toNat + numOfOutputs * OUTPUT_SIZE.toNat) * roundedRate quote

theorem toNat_fee (quote : UInt64) (n m : ℕ) :
    (fee quote (UInt64.ofNat n) (UInt64.ofNat m)).toNat = feeFor quote n m % 2 ^ 64 := by
  simp [fee, feeFor, roundedRate, FEE_ROUNDING_FACTOR, Nat.mul_mod, Nat.add_mod]

theorem toNat_estimatedFee (quote : UInt64) (proposals : List BtcTransferProposal) :
    (estimatedFee quote proposals).toNat =
      feeFor quote proposals.length proposals.length % 2 ^ 64 :=
  toNat_fee quote _ _

theorem toNat_finalFee (quote : UInt64) (proposals : List BtcTransferProposal)
    (used : List Utxo) :
    (finalFee quote proposals used).toNat =
      feeFor quote used.length (proposals.length + 1) % 2 ^ 64 := by
  rw [← toNat_fee, UInt64.ofNat_add]
  rfl

/-- What the first quote asks coin selection to exceed. -/
def exactTarget (quote : UInt64) (proposals : List BtcTransferProposal) : ℕ :=
  requested proposals + feeFor quote proposals.length proposals.length % 2 ^ 64

/-- The amounts, the coins and the two quotes fit together: the coins pay for the amounts and the
fee of the second quote, and nothing leaves its type. -/
structure Payable (quote quote' : UInt64) (proposals : List BtcTransferProposal)
    (coins : List Utxo) : Prop where
  amounts : ∀ p ∈ proposals, p.data.amount.toNat < 2 ^ 63
  target : exactTarget quote proposals < 2 ^ 64
  total : spent coins < 2 ^ 64
  covered : requested proposals + feeFor quote' coins.length (proposals.length + 1) % 2 ^ 64 ≤
    spent coins
  change : spent coins <
    requested proposals + feeFor quote' coins.length (proposals.length + 1) % 2 ^ 64 + 2 ^ 63

theorem rawTx_used {a : Answers} {proposals : List BtcTransferProposal} {address : Address}
    {tx : MsgTx Script Hash} {used : List Utxo} {listing : Listing} {quote : UInt64}
    (hl : a.listing = .ok listing) (hq : a.feeEstimate = .ok quote)
    (h : rawTx lib a proposals address = .ok (tx, used)) :
    used = chosen (targetAmount proposals quote) 0 listing.utxos := by
  obtain ⟨amount, hin⟩ := rawTx_inputs hl hq h
  exact inputsLoop_chosen hin

/-- If the target and the coins fit, `rawTx` spends the shortest front above the target. -/
theorem rawTx_spends_shortest {a : Answers} {proposals : List BtcTransferProposal}
    {address : Address} {tx : MsgTx Script Hash} {used : List Utxo} {listing : Listing}
    {quote : UInt64} (hl : a.listing = .ok listing) (hq : a.feeEstimate = .ok quote)
    (h : rawTx lib a proposals address = .ok (tx, used))
    (htarget : exactTarget quote proposals < 2 ^ 64)
    (hfits : spent used < 2 ^ 64 ∨
      spent (shortest (exactTarget quote proposals) listing.utxos) < 2 ^ 64) :
    used = shortest (exactTarget quote proposals) listing.utxos := by
  have hout : (outputAmount proposals).toNat = requested proposals :=
    (toNat_outputAmount_iff proposals).2 (by unfold exactTarget at htarget; omega)
  have hsum : targetAmount proposals quote =
      outputAmount proposals + estimatedFee quote proposals := rfl
  have hexact : (targetAmount proposals quote).toNat = exactTarget quote proposals := by
    rw [hsum, UInt64.toNat_add, hout, toNat_estimatedFee]
    exact Nat.mod_eq_of_lt htarget
  rw [rawTx_used hl hq h, ← hexact] at hfits ⊢
  exact chosen_eq_shortest UInt64.zero_le (by simpa using hfits)

theorem conserves_iff {proposals : List BtcTransferProposal} {tx : MsgTx Script Hash}
    {used : List Utxo} {quote quote' : UInt64}
    (hvalues : tx.txOut.map TxOut.value =
      outputValues proposals (returnAmount quote' proposals used)) :
    Conserves quote quote' proposals tx used ↔ Payable quote quote' proposals used := by
  have hnonneg : (∀ o ∈ tx.txOut, 0 ≤ o.value) ↔
      ∀ v ∈ outputValues proposals (returnAmount quote' proposals used), 0 ≤ v := by
    rw [← hvalues]
    simp
  have hfinal := toNat_finalFee quote' proposals used
  have hestimate := toNat_estimatedFee quote proposals
  rw [nonneg_outputValues_iff] at hnonneg
  constructor
  · intro hc
    obtain ⟨hamounts, hret⟩ := hnonneg.1 hc.nonneg
    have htarget := (targetAmount proposals quote).toNat_lt
    have hreturn := hc.returnAmount
    rw [hc.target] at htarget
    refine ⟨hamounts, ?_, (toNat_sumValues_iff used).1 hc.inputAmount, by omega, by omega⟩
    unfold exactTarget
    omega
  · rintro ⟨hamounts, htarget, hspent, hle, hlt⟩
    unfold exactTarget at htarget
    have hin := (toNat_sumValues_iff used).2 hspent
    have hout := (toNat_outputAmount_iff proposals).2 (by omega)
    have hpays : requested proposals + (finalFee quote' proposals used).toNat ≤ spent used := by
      omega
    have hret := toNat_returnAmount hin hout hpays
    have hr : (returnAmount quote' proposals used).toNat < 2 ^ 63 := by omega
    refine ⟨hnonneg.2 ⟨hamounts, hr⟩, ?_, hout, ?_, hin, by omega⟩
    · have hsum := sum_outputValues hamounts hr
      rw [← hvalues, List.map_map] at hsum
      change (tx.txOut.map fun o => o.value.toInt).sum = _ at hsum
      omega
    · have htar : targetAmount proposals quote =
          outputAmount proposals + estimatedFee quote proposals := rfl
      rw [htar, UInt64.toNat_add, hout]
      omega

/-- An assembled transaction conserves value iff the shortest front of the listed UTXOs above the
estimated total pays for the amounts and the final fee, and every amount and total fits its
type. -/
theorem rawTx_conserves_iff {a : Answers} {proposals : List BtcTransferProposal}
    {address : Address} {tx : MsgTx Script Hash} {used : List Utxo} {listing : Listing}
    {quote quote' : UInt64} (hl : a.listing = .ok listing) (hq : a.feeEstimate = .ok quote)
    (hq' : a.economyFee = .ok quote') (h : rawTx lib a proposals address = .ok (tx, used)) :
    Conserves quote quote' proposals tx used ↔
      Payable quote quote' proposals
        (shortest (exactTarget quote proposals) listing.utxos) := by
  have hiff : Conserves quote quote' proposals tx used ↔ Payable quote quote' proposals used :=
    conserves_iff (rawTx_values hq' h)
  rw [hiff]
  constructor <;> intro hp
  · rwa [← rawTx_spends_shortest hl hq h hp.target (.inl hp.total)]
  · rwa [rawTx_spends_shortest hl hq h hp.target (.inr hp.total)]

/-- One confirmed UTXO of the given value. -/
def oneUtxo (value : UInt64) : Listing :=
  ⟨[⟨txID, 0, value, ⟨true, 800000, "00", 10⟩⟩], [⟨txID, 0, value, ⟨true, 800000, "00", 10⟩⟩],
    .refl _, by simp⟩

theorem rawTx_conserves_large_utxo :
    ∃ tx used, rawTx sampleLib (answersOf (oneUtxo 5000)) payout bridgeAddress = .ok (tx, used) ∧
      Conserves 3 4 payout tx used := by
  have hrun : rawTx sampleLib (answersOf (oneUtxo 5000)) payout bridgeAddress = .ok _ := rfl
  have hpayable : Payable 3 4 payout (shortest (exactTarget 3 payout) (oneUtxo 5000).utxos) := by
    constructor <;> decide
  exact ⟨_, _, hrun, (rawTx_conserves_iff rfl rfl rfl hrun).2 hpayable⟩

/-- What `rawTx` makes of `payout` and a UTXO of 2100 satoshi. -/
def negativeTx : MsgTx String String :=
  ⟨[⟨txID, 0⟩], [⟨1000, "0014751e76e8199196d454941c45d1b3a323f1433bd6"⟩,
    ⟨0, "6a077379675f636964"⟩,
    ⟨-140, "512079be667ef9dcbbac55a06295ce870b07029bfcdb2dce28d959f2815b16f81798"⟩]⟩

/-- The UTXO passes the estimate of 1000 + 1070, but the final fee is 1240: the return amount
wraps to a negative output. -/
theorem rawTx_return_wraps :
    rawTx sampleLib (answersOf (oneUtxo 2100)) payout bridgeAddress =
      .ok (negativeTx, (oneUtxo 2100).utxos) ∧
    ¬ Conserves 3 4 payout negativeTx (oneUtxo 2100).utxos := by
  refine ⟨rfl, fun hc => ?_⟩
  have hneg : ∃ o ∈ negativeTx.txOut, o.value < 0 := by decide
  obtain ⟨o, ho, hlt⟩ := hneg
  exact absurd (hc.nonneg o ho) (Int64.not_le.2 hlt)

end Sygma.Btc
