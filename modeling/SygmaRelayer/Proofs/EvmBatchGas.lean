import Mathlib.Algebra.BigOperators.Group.List.Basic
import SygmaRelayer.Proofs.EvmBatchOrder

/-! The gas limits of the batches. When a batch is full, the gas of the proposal that did not
fit is left with it, and the new batch begins with that proposal and no gas. So the gas
limits are right as long as nothing has to be split, and hardly ever after that. -/

namespace Sygma.Evm

variable {cfg : Config}

/-- The gas a proposal asks for, as an exact number. -/
def cost (cfg : Config) (p : TransferProposal) : ℕ :=
  (p.data.gasLimit.elim 0 UInt64.toNat) + cfg.transferGasCost.toNat

def totalCost (cfg : Config) (ps : List TransferProposal) : ℕ := (ps.map (cost cfg)).sum

/-- The batch pays for its own proposals, and several of them fit into a transaction. -/
def Batch.Accounted (cfg : Config) (b : Batch) : Prop :=
  b.gasLimit.toNat = totalCost cfg b.proposals ∧
    (1 < b.proposals.length → totalCost cfg b.proposals < cfg.transactionMaxGas.toNat)

@[simp] theorem totalCost_nil : totalCost cfg [] = 0 := rfl

@[simp] theorem totalCost_cons (p : TransferProposal) (ps : List TransferProposal) :
    totalCost cfg (p :: ps) = cost cfg p + totalCost cfg ps := by
  simp [totalCost]

@[simp] theorem totalCost_append (ps qs : List TransferProposal) :
    totalCost cfg (ps ++ qs) = totalCost cfg ps + totalCost cfg qs := by
  simp [totalCost]

theorem totalCost_eq_zero {ps : List TransferProposal} (h : ∀ p ∈ ps, cost cfg p = 0) :
    totalCost cfg ps = 0 := by
  apply List.sum_eq_zero
  simpa using h

theorem toNat_propGasLimit (p : TransferProposal) :
    (propGasLimit cfg p).toNat = cost cfg p % 2 ^ 64 := by
  unfold propGasLimit cost
  cases p.data.gasLimit with
  | none =>
    have := cfg.transferGasCost.toNat_lt
    simp only [Option.elim_none]
    omega
  | some l => simp [UInt64.toNat_add]

section Split

/-- What the loop has done with `done`: everything is in one batch, or the current batch was begun
by a proposal that it does not pay for. -/
structure Placed (cfg : Config) (acc : List Batch × Batch) (done : List TransferProposal) :
    Prop where
  below : acc.2.gasLimit < cfg.transactionMaxGas
  whole : (acc.1 = [] ∧ acc.2.proposals = done ∧
      acc.2.gasLimit.toNat = totalCost cfg done % 2 ^ 64) ∨
    ∃ p t, acc.2.proposals = p :: t ∧ cost cfg p ≠ 0 ∧
      acc.2.gasLimit.toNat = totalCost cfg t % 2 ^ 64

theorem placed_step {acc : List Batch × Batch} {done : List TransferProposal}
    (h : Placed cfg acc done) (p : TransferProposal) :
    Placed cfg (placeProposal cfg acc p) (done ++ [p]) := by
  have hgas : (acc.2.gasLimit + propGasLimit cfg p).toNat =
      (acc.2.gasLimit.toNat + cost cfg p) % 2 ^ 64 := by
    rw [UInt64.toNat_add, toNat_propGasLimit]
    omega
  have hbelow : acc.2.gasLimit.toNat < cfg.transactionMaxGas.toNat :=
    UInt64.lt_iff_toNat_lt.1 h.below
  unfold placeProposal
  dsimp only
  split_ifs with hfull
  · -- a proposal that asks for nothing would have fitted
    have hcost : cost cfg p ≠ 0 := by
      intro hzero
      have hle := UInt64.le_iff_toNat_le.1 hfull
      rw [hgas, hzero] at hle
      have := acc.2.gasLimit.toNat_lt
      omega
    refine ⟨UInt64.lt_iff_toNat_lt.2 ?_, Or.inr ⟨p, [], rfl, hcost, rfl⟩⟩
    change 0 < _
    omega
  · refine ⟨UInt64.not_le.1 hfull, ?_⟩
    rcases h.whole with ⟨hclosed, hdone, hsum⟩ | ⟨q, t, hq, hcost, hsum⟩
    · refine Or.inl ⟨hclosed, by rw [← hdone], ?_⟩
      rw [hgas, hsum, totalCost_append, totalCost_cons, totalCost_nil]
      omega
    · refine Or.inr ⟨q, t ++ [p], by rw [hq]; rfl, hcost, ?_⟩
      rw [hgas, hsum, totalCost_append, totalCost_cons, totalCost_nil]
      omega

theorem placed_foldl (hmax : 0 < cfg.transactionMaxGas) (ps : List TransferProposal) :
    Placed cfg (ps.foldl (placeProposal cfg) ([], ⟨[], 0⟩)) ps := by
  induction ps using List.reverseRecOn with
  | nil => exact ⟨hmax, Or.inl ⟨rfl, rfl, rfl⟩⟩
  | append_singleton ps p ih =>
    rw [List.foldl_append]
    exact placed_step ih p

theorem Placed.total_lt {acc : List Batch × Batch} {ps : List TransferProposal}
    (h : Placed cfg acc ps) (hacc : acc.2.Accounted cfg) :
    totalCost cfg ps < cfg.transactionMaxGas.toNat := by
  have hbelow := UInt64.lt_iff_toNat_lt.1 h.below
  have hexact := hacc.1
  rcases h.whole with ⟨-, hps, -⟩ | ⟨p, t, hp, hcost, hsum⟩
  · rw [hps] at hexact
    omega
  · rw [hp, totalCost_cons] at hexact
    omega

theorem foldl_of_lt {ps : List TransferProposal}
    (hlt : totalCost cfg ps < cfg.transactionMaxGas.toNat) :
    ∃ gasLimit, ps.foldl (placeProposal cfg) ([], ⟨[], 0⟩) = ([], ⟨ps, gasLimit⟩) ∧
      gasLimit.toNat = totalCost cfg ps := by
  induction ps using List.reverseRecOn with
  | nil => exact ⟨0, rfl, rfl⟩
  | append_singleton ps p ih =>
    rw [totalCost_append, totalCost_cons, totalCost_nil] at hlt
    obtain ⟨gasLimit, hfold, hsum⟩ := ih (by omega)
    have hmax := cfg.transactionMaxGas.toNat_lt
    have hgas : (gasLimit + propGasLimit cfg p).toNat = totalCost cfg (ps ++ [p]) := by
      rw [UInt64.toNat_add, toNat_propGasLimit, hsum, totalCost_append, totalCost_cons,
        totalCost_nil]
      omega
    refine ⟨gasLimit + propGasLimit cfg p, ?_, hgas⟩
    rw [List.foldl_append, hfold]
    apply if_neg
    rw [ge_iff_le, UInt64.le_iff_toNat_le, hgas, totalCost_append, totalCost_cons, totalCost_nil]
    omega

end Split

section NoGas

theorem place_of_max_zero (hmax : cfg.transactionMaxGas = 0) (acc : List Batch × Batch)
    (p : TransferProposal) : placeProposal cfg acc p =
      (acc.1 ++ [⟨acc.2.proposals, acc.2.gasLimit + propGasLimit cfg p⟩], ⟨[p], 0⟩) := by
  apply if_pos
  rw [hmax]
  exact UInt64.zero_le

theorem accounted_singleton {p : TransferProposal} :
    (⟨[p], 0⟩ : Batch).Accounted cfg ↔ cost cfg p = 0 := by
  simp [Batch.Accounted, eq_comm]

theorem propGasLimit_eq_zero {p : TransferProposal} (h : cost cfg p = 0) :
    propGasLimit cfg p = 0 := by
  apply UInt64.toNat.inj
  rw [toNat_propGasLimit, h]
  rfl

/-- From a batch of one proposal on, all batches are right exactly if nobody asks for gas. -/
theorem accounted_of_max_zero (hmax : cfg.transactionMaxGas = 0) (closed : List Batch)
    (p : TransferProposal) (ps : List TransferProposal) :
    let acc := ps.foldl (placeProposal cfg) (closed, ⟨[p], 0⟩)
    (∀ b ∈ acc.1 ++ [acc.2], b.Accounted cfg) ↔
      (∀ b ∈ closed, b.Accounted cfg) ∧ ∀ q ∈ p :: ps, cost cfg q = 0 := by
  induction ps generalizing closed p with
  | nil => simp [or_imp, forall_and, accounted_singleton]
  | cons q ps ih =>
    dsimp only at ih ⊢
    rw [List.foldl_cons, place_of_max_zero hmax, ih, List.forall_mem_append,
      List.forall_mem_singleton, and_assoc, @List.forall_mem_cons _ _ p (q :: ps)]
    refine and_congr_right fun _ => and_congr_left fun hq => ?_
    rw [propGasLimit_eq_zero (hq q List.mem_cons_self)]
    exact accounted_singleton

end NoGas

/-- The gas limits are right exactly if everything outstanding fits into one transaction, or nothing
of it asks for gas. -/
theorem batch_gas_iff {isProposalExecuted : Bridge} {ps : List TransferProposal}
    {batches : List Batch} (h : proposalBatches cfg isProposalExecuted ps = .ok batches) :
    (∀ b ∈ batches, b.gasLimit.toNat = totalCost cfg b.proposals ∧
      (1 < b.proposals.length → totalCost cfg b.proposals < cfg.transactionMaxGas.toNat)) ↔
      totalCost cfg (outstanding isProposalExecuted ps) < cfg.transactionMaxGas.toNat ∨
        ∀ p ∈ outstanding isProposalExecuted ps, cost cfg p = 0 := by
  obtain ⟨acc, hacc, rfl⟩ := proposalBatches_eq h
  change (∀ b ∈ acc.1 ++ [acc.2], b.Accounted cfg) ↔ _
  generalize outstanding isProposalExecuted ps = qs at hacc ⊢
  constructor
  · intro hall
    by_cases hmax : cfg.transactionMaxGas = 0
    · right
      cases qs with
      | nil => simp
      | cons q qs =>
        rw [List.foldl_cons, place_of_max_zero hmax] at hacc
        subst hacc
        exact ((accounted_of_max_zero hmax _ q qs).1 hall).2
    · left
      have hpos : 0 < cfg.transactionMaxGas := UInt64.pos_iff_ne_zero.2 hmax
      exact (hacc ▸ placed_foldl hpos qs).total_lt (hall acc.2 (by simp))
  · intro hfits
    by_cases hlt : totalCost cfg qs < cfg.transactionMaxGas.toNat
    · obtain ⟨gasLimit, hfold, hsum⟩ := foldl_of_lt hlt
      rw [hacc, hfold, List.nil_append, List.forall_mem_singleton]
      exact ⟨hsum, fun _ => hlt⟩
    · have hzero := hfits.resolve_left hlt
      have hmax : cfg.transactionMaxGas = 0 := by
        apply UInt64.toNat.inj
        rw [totalCost_eq_zero hzero] at hlt
        simpa using hlt
      cases qs with
      | nil => simp [hacc, Batch.Accounted]
      | cons q qs =>
        rw [List.foldl_cons, place_of_max_zero hmax] at hacc
        subst hacc
        refine (accounted_of_max_zero hmax _ q qs).2 ⟨?_, hzero⟩
        -- the first batch stays empty
        simp [Batch.Accounted, propGasLimit_eq_zero (hzero q List.mem_cons_self)]

/-- Two transfers of 60 gas each where a transaction may have 100. -/
def tightGas : Config := ⟨100, 60⟩

def plainTransfer (depositNonce : UInt64) : TransferProposal :=
  ⟨1, 2, ⟨depositNonce, 0, none, []⟩, "1-2-10-14"⟩

/-- The transfer with nonce 7 is executed. -/
def sevenExecuted : Bridge := fun p => .ok (p.data.depositNonce = 7)

theorem batch_gas_one_outstanding :
    ∃ batches, proposalBatches tightGas sevenExecuted [plainTransfer 7, plainTransfer 8] =
        .ok batches ∧
      ∀ b ∈ batches, b.gasLimit.toNat = totalCost tightGas b.proposals ∧
        (1 < b.proposals.length →
          totalCost tightGas b.proposals < tightGas.transactionMaxGas.toNat) := by
  have hrun : proposalBatches tightGas sevenExecuted [plainTransfer 7, plainTransfer 8] =
      .ok _ := rfl
  exact ⟨_, hrun, (batch_gas_iff hrun).2 (Or.inl (by decide))⟩

/-- The batch of the first transfer pays for both, and that of the second for none. -/
theorem batch_gas_misplaced :
    proposalBatches tightGas (fun _ => .ok false) [plainTransfer 7, plainTransfer 8] =
        .ok [⟨[plainTransfer 7], 120⟩, ⟨[plainTransfer 8], 0⟩] ∧
      totalCost tightGas [plainTransfer 7] = 60 ∧ totalCost tightGas [plainTransfer 8] = 60 :=
  ⟨rfl, rfl, rfl⟩

end Sygma.Evm
