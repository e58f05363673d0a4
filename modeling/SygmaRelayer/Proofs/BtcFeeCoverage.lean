import Mathlib.Tactic.Ring
import SygmaRelayer.Proofs.BtcConservation

/-! Does the fee cover the transaction? `rawTx` counts one output more than there are proposals,
and adds two when there is change: the OP_RETURN output and the change itself. -/

namespace Sygma.Btc

variable {Address Script Hash : Type} {lib : BtcLib Address Script Hash}

/-- What the transaction has to pay for its inputs and outputs. -/
def requiredFee (quote : UInt64) (tx : MsgTx Script Hash) : ℕ :=
  (tx.txIn.length * INPUT_SIZE.toNat + tx.txOut.length * OUTPUT_SIZE.toNat) * roundedRate quote

/-- What the transaction leaves to the miners. -/
def leftToMiners (tx : MsgTx Script Hash) (used : List Utxo) : ℤ :=
  spent used - (tx.txOut.map fun o => o.value.toInt).sum

/-- What the coins leave after the amounts and the fee, as an exact number. -/
def exactReturn (quote : UInt64) (proposals : List BtcTransferProposal) (coins : List Utxo) : ℤ :=
  spent coins - feeFor quote coins.length (proposals.length + 1) - requested proposals

/-- How often `2 ^ 64` is lost: at amounts that are negative as `int64`, and at the change. -/
def wraps (quote : UInt64) (proposals : List BtcTransferProposal) (coins : List Utxo) : ℤ :=
  proposals.countP (fun p => 2 ^ 63 ≤ p.data.amount.toNat) +
    (exactReturn quote proposals coins + 2 ^ 63) / 2 ^ 64

/-- What a change output costs, if there is one. -/
def changeFee (quote : UInt64) (proposals : List BtcTransferProposal) (coins : List Utxo) : ℕ :=
  if exactReturn quote proposals coins % 2 ^ 64 = 0 then 0
  else OUTPUT_SIZE.toNat * roundedRate quote

/-- The amounts, the estimated total, the coins and what they leave fit their types. -/
structure Fits (quote quote' : UInt64) (proposals : List BtcTransferProposal)
    (coins : List Utxo) : Prop where
  amounts : ∀ p ∈ proposals, p.data.amount.toNat < 2 ^ 63
  target : exactTarget quote proposals < 2 ^ 64
  total : spent coins < 2 ^ 64
  low : -2 ^ 63 ≤ exactReturn quote' proposals coins
  high : exactReturn quote' proposals coins < 2 ^ 63

theorem toNat_returnAmount_mod (quote : UInt64) (proposals : List BtcTransferProposal)
    (used : List Utxo) :
    ((returnAmount quote proposals used).toNat : ℤ) = exactReturn quote proposals used % 2 ^ 64 := by
  have hin : (sumValues used).toNat = spent used % 2 ^ 64 := by
    rw [sumValues, toNat_sum_mod, List.map_map]
    rfl
  have hout : (outputAmount proposals).toNat = requested proposals % 2 ^ 64 := by
    rw [outputAmount, toNat_sum_mod, List.map_map]
    rfl
  unfold returnAmount exactReturn
  rw [UInt64.toNat_sub, UInt64.toNat_sub, hin, hout, toNat_finalFee]
  omega

theorem toInt_returnAmount (quote : UInt64) (proposals : List BtcTransferProposal)
    (used : List Utxo) :
    (returnAmount quote proposals used).toInt64.toInt =
      exactReturn quote proposals used -
        2 ^ 64 * ((exactReturn quote proposals used + 2 ^ 63) / 2 ^ 64) := by
  have hmod := toNat_returnAmount_mod quote proposals used
  rw [toInt_toInt64]
  split_ifs <;> omega

theorem sum_toInt64_amounts (proposals : List BtcTransferProposal) :
    ((proposals.map fun p => p.data.amount.toInt64).map Int64.toInt).sum =
      requested proposals -
        2 ^ 64 * (proposals.countP fun p => 2 ^ 63 ≤ p.data.amount.toNat : ℤ) := by
  induction proposals with
  | nil => rfl
  | cons p ps ih =>
    rw [List.map_cons, List.map_cons, List.sum_cons, ih, toInt_toInt64, List.countP_cons]
    unfold requested
    rw [List.map_cons, List.sum_cons]
    simp only [decide_eq_true_eq]
    split_ifs <;> omega

theorem sum_toInt64_outputValues (proposals : List BtcTransferProposal) (r : UInt64) :
    ((outputValues proposals r).map Int64.toInt).sum =
      ((proposals.map fun p => p.data.amount.toInt64).map Int64.toInt).sum + r.toInt64.toInt := by
  unfold outputValues
  split_ifs with hpos
  · simp
  · obtain rfl : r = 0 := by simpa using hpos
    simp

theorem leftToMiners_eq {proposals : List BtcTransferProposal} {tx : MsgTx Script Hash}
    {used : List Utxo} {quote : UInt64}
    (hvalues : tx.txOut.map TxOut.value =
      outputValues proposals (returnAmount quote proposals used)) :
    leftToMiners tx used = feeFor quote used.length (proposals.length + 1) +
      2 ^ 64 * wraps quote proposals used := by
  have hsum := sum_toInt64_outputValues proposals (returnAmount quote proposals used)
  rw [← hvalues, List.map_map, sum_toInt64_amounts, toInt_returnAmount] at hsum
  change (tx.txOut.map fun o => o.value.toInt).sum = _ at hsum
  unfold leftToMiners wraps
  rw [hsum]
  unfold exactReturn
  omega

theorem length_txOut {proposals : List BtcTransferProposal} {tx : MsgTx Script Hash} {r : UInt64}
    (hvalues : tx.txOut.map TxOut.value = outputValues proposals r) :
    tx.txOut.length = proposals.length + 1 + if 0 < r then 1 else 0 := by
  have hlength := congrArg List.length hvalues
  rw [List.length_map] at hlength
  rw [hlength]
  unfold outputValues
  split_ifs <;> simp

theorem requiredFee_eq {proposals : List BtcTransferProposal} {tx : MsgTx Script Hash}
    {used : List Utxo} {quote : UInt64} (hin : tx.txIn.length = used.length)
    (hvalues : tx.txOut.map TxOut.value =
      outputValues proposals (returnAmount quote proposals used)) :
    requiredFee quote tx =
      feeFor quote used.length (proposals.length + 1) + changeFee quote proposals used := by
  have hout := length_txOut hvalues
  have hchange : 0 < returnAmount quote proposals used ↔
      exactReturn quote proposals used % 2 ^ 64 ≠ 0 := by
    have hmod := toNat_returnAmount_mod quote proposals used
    rw [UInt64.lt_iff_toNat_lt, UInt64.toNat_zero]
    omega
  unfold requiredFee feeFor changeFee
  rw [hin, hout]
  by_cases hzero : exactReturn quote proposals used % 2 ^ 64 = 0
  · rw [if_neg fun hpos => hchange.1 hpos hzero, if_pos hzero, add_zero, add_zero]
  · rw [if_pos (hchange.2 hzero), if_neg hzero]
    ring

theorem wraps_eq_zero {quote quote' : UInt64} {proposals : List BtcTransferProposal}
    {coins : List Utxo} (h : Fits quote quote' proposals coins) :
    wraps quote' proposals coins = 0 := by
  have hcount : proposals.countP (fun p => 2 ^ 63 ≤ p.data.amount.toNat) = 0 := by
    rw [List.countP_eq_zero]
    intro p hp
    simpa using h.amounts p hp
  have hlow := h.low
  have hhigh := h.high
  unfold wraps
  rw [hcount]
  omega

theorem changeFee_le_zero_iff {quote quote' : UInt64} {proposals : List BtcTransferProposal}
    {coins : List Utxo} (h : Fits quote quote' proposals coins) :
    changeFee quote' proposals coins ≤ 0 ↔
      requested proposals + feeFor quote' coins.length (proposals.length + 1) = spent coins := by
  have hrate : 0 < OUTPUT_SIZE.toNat * roundedRate quote' :=
    Nat.mul_pos (by decide) (by unfold roundedRate; omega)
  have hlow := h.low
  have hhigh := h.high
  unfold changeFee
  unfold exactReturn at hlow hhigh ⊢
  split_ifs <;> omega

/-- The fee covers the transaction exactly if the coins taken for the estimated total leave no
change to pay for, or if what is lost by wrapping around pays for it. When everything fits, the
coins are the shortest front of the listed UTXOs above the estimated total, and they have to be
worth the amounts and the fee to the satoshi. -/
theorem rawTx_fee_covers_iff {a : Answers} {proposals : List BtcTransferProposal}
    {address : Address} {tx : MsgTx Script Hash} {used : List Utxo} {listing : Listing}
    {quote quote' : UInt64} (hl : a.listing = .ok listing) (hq : a.feeEstimate = .ok quote)
    (hq' : a.economyFee = .ok quote') (h : rawTx lib a proposals address = .ok (tx, used)) :
    (∀ coins, coins = chosen (targetAmount proposals quote) 0 listing.utxos →
      ((requiredFee quote' tx : ℤ) ≤ leftToMiners tx used ↔
        changeFee quote' proposals coins ≤ 2 ^ 64 * wraps quote' proposals coins)) ∧
    ∀ coins, coins = shortest (exactTarget quote proposals) listing.utxos →
      Fits quote quote' proposals coins →
      ((requiredFee quote' tx : ℤ) ≤ leftToMiners tx used ↔
        requested proposals + feeFor quote' coins.length (proposals.length + 1) =
          spent coins) := by
  have hvalues := rawTx_values hq' h
  obtain ⟨amount, hinputs⟩ := rawTx_inputs hl hq h
  have hin : tx.txIn.length = used.length := (inputs_spec hinputs).2.isInput.length_eq.symm
  have hiff : (requiredFee quote' tx : ℤ) ≤ leftToMiners tx used ↔
      (changeFee quote' proposals used : ℤ) ≤ 2 ^ 64 * wraps quote' proposals used := by
    rw [leftToMiners_eq hvalues, requiredFee_eq hin hvalues, Nat.cast_add]
    exact add_le_add_iff_left _
  refine ⟨?_, ?_⟩
  · rintro coins rfl
    rwa [← rawTx_used hl hq h]
  · rintro coins rfl hfits
    have hused := rawTx_spends_shortest hl hq h hfits.target (.inr hfits.total)
    rw [hiff, hused, wraps_eq_zero hfits, ← changeFee_le_zero_iff hfits]
    omega

/-- A UTXO that pays for the payout and the fee of 1240 satoshi and leaves no change. -/
theorem rawTx_fee_covers_no_change :
    ∃ tx used, rawTx sampleLib (answersOf (oneUtxo 2240)) payout bridgeAddress = .ok (tx, used) ∧
      (requiredFee 4 tx : ℤ) ≤ leftToMiners tx used := by
  have hrun : rawTx sampleLib (answersOf (oneUtxo 2240)) payout bridgeAddress = .ok _ := rfl
  have hfits : Fits 3 4 payout (shortest (exactTarget 3 payout) (oneUtxo 2240).utxos) := by
    constructor <;> decide
  exact ⟨_, _, hrun, ((rawTx_fee_covers_iff rfl rfl rfl hrun).2 _ rfl hfits).2 (by decide)⟩

/-- What `rawTx` makes of `payout` and a UTXO of 5000 satoshi. -/
def changeTx : MsgTx String String :=
  ⟨[⟨txID, 0⟩], [⟨1000, "0014751e76e8199196d454941c45d1b3a323f1433bd6"⟩,
    ⟨0, "6a077379675f636964"⟩,
    ⟨2760, "512079be667ef9dcbbac55a06295ce870b07029bfcdb2dce28d959f2815b16f81798"⟩]⟩

/-- The change output costs 170 satoshi that are not paid. -/
theorem rawTx_fee_misses_change :
    rawTx sampleLib (answersOf (oneUtxo 5000)) payout bridgeAddress =
      .ok (changeTx, (oneUtxo 5000).utxos) ∧
    leftToMiners changeTx (oneUtxo 5000).utxos = 1240 ∧ requiredFee 4 changeTx = 1410 :=
  ⟨rfl, by decide, by decide⟩

end Sygma.Btc
