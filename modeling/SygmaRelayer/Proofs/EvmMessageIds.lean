import SygmaRelayer.Proofs.EvmBatchOrder

/-! Message IDs of the EVM executor. A message ID names the block range of its feed and
nothing else, and every batch of a call carries the message ID of the call's feed. -/

namespace Sygma.Evm

open Text

variable {cfg : Config}

theorem split_depositMessageID (s d : UInt8) (a b : ℕ) :
    split '-' (depositMessageID s d a b) = [s.toNat.repr, d.toNat.repr, a.repr, b.repr] := by
  have hdash : "-" = String.singleton '-' := rfl
  unfold depositMessageID
  rw [hdash]
  simp only [split_append_sep, split_of_notMem (notMem_repr (by decide : '-'.isDigit = false) _)]
  rfl

theorem split_btcMessageID (s d : UInt8) (h : ℕ) :
    split '-' (btcMessageID s d h) = [s.toNat.repr, d.toNat.repr, h.repr] := by
  have hdash : "-" = String.singleton '-' := rfl
  unfold btcMessageID
  rw [hdash]
  simp only [split_append_sep, split_of_notMem (notMem_repr (by decide : '-'.isDigit = false) _)]
  rfl

theorem split_retryV1 (s d : UInt8) (a b : ℕ) :
    split '-' (Feed.retryV1 s d a b).messageID =
      ["retry", s.toNat.repr, d.toNat.repr, a.repr, b.repr] := by
  have hdash : "-" = String.singleton '-' := rfl
  have hretry : split '-' "retry" = ["retry"] := by decide
  unfold Feed.messageID
  rw [hdash]
  simp only [split_append_sep, split_of_notMem (notMem_repr (by decide : '-'.isDigit = false) _),
    hretry]
  rfl

/-- The parts of a message ID are the block range of its feed. -/
def printRange : Bool × UInt8 × UInt8 × ℕ × Option ℕ → List String
  | (v1, s, d, a, b) =>
    (if v1 then ["retry"] else []) ++ [s.toNat.repr, d.toNat.repr, a.repr] ++ (b.map Nat.repr).toList

theorem split_messageID (f : Feed) : split '-' f.messageID = printRange f.range := by
  cases f with
  | deposits s d a b => exact split_depositMessageID s d a b
  | btcDeposits s d h => exact split_btcMessageID s d h
  | retryV1 s d a b => exact split_retryV1 s d a b
  | retryV2 s d h r => exact split_depositMessageID s d h h

theorem retry_ne_repr (n : ℕ) : "retry" ≠ n.repr := by
  intro h
  have hr : 'r' ∈ n.repr.toList := by
    rw [← h]
    decide
  exact notMem_repr (by decide) n hr

theorem printRange_inj {r r' : Bool × UInt8 × UInt8 × ℕ × Option ℕ}
    (h : printRange r = printRange r') : r = r' := by
  obtain ⟨v, s, d, a, b⟩ := r
  obtain ⟨v', s', d', a', b'⟩ := r'
  -- `retry` is no number, and whether there is an end can be told from the number of parts
  cases v <;> cases v' <;> cases b <;> cases b' <;>
    simp [printRange, UInt8.toNat_inj, retry_ne_repr, (retry_ne_repr _).symm] at h ⊢ <;>
    exact h

/-- Feeds share a message ID only if they are about the same block range. -/
theorem range_eq_of_messageID_eq {f f' : Feed} (h : f.messageID = f'.messageID) :
    f.range = f'.range := by
  apply printRange_inj
  rw [← split_messageID, ← split_messageID, h]

theorem sessionID_inj {m m' : String} {k k' : ℕ} (h : m ++ "-" ++ k.repr = m' ++ "-" ++ k'.repr) :
    m = m' ∧ k = k' := by
  have hdash : "-" = String.singleton '-' := rfl
  rw [hdash] at h
  obtain ⟨hm, hk⟩ := append_sep_inj (notMem_repr (by decide) k) (notMem_repr (by decide) k') h
  exact ⟨hm, repr_inj.1 hk⟩

theorem proposalBatches_mem {br : Bridge} {proposals : List TransferProposal} {bs : List Batch}
    (h : proposalBatches cfg br proposals = .ok bs) :
    ∀ b ∈ bs, ∀ p ∈ b.proposals, p ∈ proposals := by
  intro b hb p hp
  have hmem : p ∈ outstanding br proposals := by
    rw [← proposalBatches_flatMap h]
    exact List.mem_flatMap.2 ⟨b, hb, hp⟩
  exact List.mem_of_mem_filter hmem

theorem messageID_of_delivery {br : Bridge} {d : Delivery} {bs : List Batch}
    (h : proposalBatches cfg br d.proposals = .ok bs) :
    ∀ b ∈ bs, ∀ p ∈ b.proposals, p.messageID = d.feed.messageID := fun b hb p hp =>
  (d.delivers p (proposalBatches_mem h b hb p hp)).1

theorem Batch.messageID_eq {b : Batch} {m : String} (hne : b.proposals ≠ [])
    (h : ∀ p ∈ b.proposals, p.messageID = m) : b.messageID = m := by
  unfold Batch.messageID
  cases hb : b.proposals with
  | nil => exact absurd hb hne
  | cons p ps => simpa using h p (by simp [hb])

end Sygma.Evm
