import SygmaRelayer.Lib.Fallible
import SygmaRelayer.Spec.EvmExecutor

/-! What the batches hold. Whatever gas the proposals ask for, a turn of the loop puts the
proposal behind all others, into the current batch or into a new one. -/

namespace Sygma.Evm

open Fallible

variable {cfg : Config}

/-- The proposals that are not executed yet. -/
def outstanding (isProposalExecuted : Bridge) (ps : List TransferProposal) :
    List TransferProposal :=
  ps.filter fun p => isProposalExecuted p matches .ok false

/-- The loop skips the executed proposals and places the others. -/
theorem proposalBatches_eq {isProposalExecuted : Bridge} {ps : List TransferProposal}
    {batches : List Batch} (h : proposalBatches cfg isProposalExecuted ps = .ok batches) :
    ∃ acc, acc = (outstanding isProposalExecuted ps).foldl (placeProposal cfg) ([], ⟨[], 0⟩) ∧
      batches = acc.1 ++ [acc.2] := by
  obtain ⟨acc, hacc, hbatches⟩ := bind_eq_ok.1 h
  refine ⟨acc, ?_, by simpa [pure, Except.pure] using hbatches.symm⟩
  refine foldlM_ok (P := fun acc done =>
    acc = (outstanding isProposalExecuted done).foldl (placeProposal cfg) ([], ⟨[], 0⟩)) rfl ?_ hacc
  intro acc acc' done p hdone hp
  obtain ⟨executed, hexecuted, hp⟩ := bind_eq_ok.1 hp
  unfold outstanding at hdone ⊢
  rw [List.filter_append, List.foldl_append, ← hdone]
  cases executed with
  | true =>
    obtain rfl : acc = acc' := by simpa [pure, Except.pure] using hp
    simp [hexecuted]
  | false =>
    obtain rfl : placeProposal cfg acc p = acc' := by simpa [pure, Except.pure] using hp
    simp [hexecuted]

/-- The proposals of the finished batches and of the current one. -/
def placed (acc : List Batch × Batch) : List (List TransferProposal) :=
  acc.1.map Batch.proposals ++ [acc.2.proposals]

theorem placed_placeProposal (acc : List Batch × Batch) (p : TransferProposal) :
    placed (placeProposal cfg acc p) = placed acc ++ [[p]] ∨
      placed (placeProposal cfg acc p) =
        acc.1.map Batch.proposals ++ [acc.2.proposals ++ [p]] := by
  unfold placeProposal
  dsimp only
  split_ifs
  · left
    simp [placed]
  · right
    rfl

/-- The batches after `done` hold `done`, and none but the first can be empty. -/
structure Ordered (acc : List Batch × Batch) (done : List TransferProposal) : Prop where
  flatten : (placed acc).flatten = done
  nonempty : ∀ ps ∈ (placed acc).tail, ps ≠ []

theorem ordered_step {acc : List Batch × Batch} {done : List TransferProposal}
    (h : Ordered acc done) (p : TransferProposal) :
    Ordered (placeProposal cfg acc p) (done ++ [p]) := by
  obtain ⟨hflatten, hnonempty⟩ := h
  rcases @placed_placeProposal cfg acc p with hnew | hcurrent
  · have hne : placed acc ≠ [] := by simp [placed]
    refine ⟨?_, ?_⟩
    · rw [hnew, List.flatten_append, hflatten]
      simp
    · rw [hnew, List.tail_append_of_ne_nil hne]
      intro ps hps
      rcases List.mem_append.1 hps with hps | hps
      · exact hnonempty ps hps
      · simp [List.mem_singleton.1 hps]
  · unfold placed at hflatten hnonempty
    refine ⟨?_, ?_⟩
    · rw [hcurrent, ← hflatten]
      simp
    · rw [hcurrent]
      -- the current batch is the first one as long as none is finished
      cases hclosed : acc.1 with
      | nil => simp
      | cons b closed =>
        rw [hclosed] at hnonempty
        intro ps hps
        simp only [List.map_cons, List.cons_append, List.tail_cons, List.mem_append,
          List.mem_singleton] at hnonempty hps
        rcases hps with hps | rfl
        · exact hnonempty ps (Or.inl hps)
        · simp

theorem ordered_foldl (ps : List TransferProposal) :
    Ordered (ps.foldl (placeProposal cfg) ([], ⟨[], 0⟩)) ps := by
  induction ps using List.reverseRecOn with
  | nil => exact ⟨rfl, by simp [placed]⟩
  | append_singleton ps p ih =>
    rw [List.foldl_append]
    exact ordered_step ih p

theorem proposalBatches_flatMap {isProposalExecuted : Bridge} {ps : List TransferProposal}
    {batches : List Batch} (h : proposalBatches cfg isProposalExecuted ps = .ok batches) :
    batches.flatMap Batch.proposals = outstanding isProposalExecuted ps := by
  obtain ⟨acc, hacc, rfl⟩ := proposalBatches_eq h
  have hordered := (@ordered_foldl cfg (outstanding isProposalExecuted ps)).flatten
  rw [← hacc] at hordered
  rw [← hordered, List.flatMap_def]
  simp [placed]

theorem proposalBatches_nonempty {isProposalExecuted : Bridge} {ps : List TransferProposal}
    {batches : List Batch} (h : proposalBatches cfg isProposalExecuted ps = .ok batches) :
    ∀ b ∈ batches.tail, b.proposals ≠ [] := by
  obtain ⟨acc, hacc, rfl⟩ := proposalBatches_eq h
  have hordered := (@ordered_foldl cfg (outstanding isProposalExecuted ps)).nonempty
  have hplaced : placed acc = (acc.1 ++ [acc.2]).map Batch.proposals := by simp [placed]
  rw [← hacc, hplaced, ← List.map_tail] at hordered
  exact fun b hb => hordered _ (List.mem_map_of_mem hb)

theorem proposalBatches_total {isProposalExecuted : Bridge} {ps : List TransferProposal}
    (h : ∀ p ∈ ps, ∃ executed, isProposalExecuted p = .ok executed) :
    ∃ batches, proposalBatches cfg isProposalExecuted ps = .ok batches := by
  have hturn : ∀ p ∈ ps, ∀ acc, ∃ acc', addProposal cfg isProposalExecuted acc p = .ok acc' := by
    intro p hp acc
    obtain ⟨executed, hexecuted⟩ := h p hp
    unfold addProposal
    rw [hexecuted]
    cases executed with
    | false => exact ⟨_, rfl⟩
    | true => exact ⟨_, rfl⟩
  obtain ⟨acc, hacc⟩ := foldlM_total hturn ([], ⟨[], 0⟩)
  exact ⟨acc.1 ++ [acc.2], by unfold proposalBatches; rw [hacc]; rfl⟩

/-- Batching keeps the outstanding proposals and their order, and begins no batch in vain. -/
theorem batches_hold_outstanding {isProposalExecuted : Bridge} {ps : List TransferProposal}
    (h : ∀ p ∈ ps, ∃ executed, isProposalExecuted p = .ok executed) :
    ∃ batches, proposalBatches cfg isProposalExecuted ps = .ok batches ∧
      batches.flatMap Batch.proposals = outstanding isProposalExecuted ps ∧
      ∀ b ∈ batches.tail, b.proposals ≠ [] := by
  obtain ⟨batches, hbatches⟩ := @proposalBatches_total cfg _ _ h
  exact ⟨batches, hbatches, proposalBatches_flatMap hbatches, proposalBatches_nonempty hbatches⟩

def transferOf (depositNonce : UInt64) (gasLimit : Option UInt64) : TransferProposal :=
  ⟨1, 3, ⟨depositNonce, 0, gasLimit, []⟩, "1-3-20-24"⟩

/-- A proposal over the limit, one whose gas wraps around and one that is executed. -/
theorem batches_hold_outstanding_over_limit :
    ∃ batches, proposalBatches ⟨100, 10⟩ (fun p => .ok (p.data.depositNonce = 3))
        [transferOf 1 (some 200), transferOf 2 (some (-5)), transferOf 3 none, transferOf 1 none] =
        .ok batches ∧
      batches.flatMap Batch.proposals =
        [transferOf 1 (some 200), transferOf 2 (some (-5)), transferOf 1 none] ∧
      ∀ b ∈ batches.tail, b.proposals ≠ [] :=
  batches_hold_outstanding fun _ _ => ⟨_, rfl⟩

end Sygma.Evm
