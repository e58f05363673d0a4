import SygmaRelayer.Proofs.BtcConservation

/-! Coin selection in exact amounts: the running total does not wrap if the values of all UTXOs
fit together, and then `inputs` takes the shortest prefix above the target. -/

namespace Sygma.Btc

variable {Address Script Hash : Type} {lib : BtcLib Address Script Hash}

theorem inputsLoop_total {utxos : List Utxo}
    (h : ∀ u ∈ utxos, ∃ hash, lib.newHashFromStr u.txID = .ok hash) (target amount : UInt64)
    (used : List Utxo) (ins : List (OutPoint Hash)) :
    ∃ r, inputsLoop lib target utxos amount used ins = .ok r := by
  induction utxos generalizing amount used ins with
  | nil => exact ⟨_, rfl⟩
  | cons u us ih =>
    rw [List.forall_mem_cons] at h
    obtain ⟨hash, hhash⟩ := h.1
    unfold inputsLoop
    rw [hhash]
    dsimp only
    split_ifs
    · exact ⟨_, rfl⟩
    · exact ih h.2 _ _ _

/-- `inputs` takes the shortest prefix above the target, or everything if there is none. -/
theorem inputs_shortest {utxos : List Utxo}
    (hids : ∀ u ∈ utxos, ∃ hash, lib.newHashFromStr u.txID = .ok hash)
    (hfits : spent utxos < 2 ^ 64) (target : UInt64) :
    ∃ amount used ins, inputs lib utxos target = .ok (amount, used, ins) ∧
      used <+: utxos ∧ amount.toNat = spent used ∧ List.Forall₂ (IsInput lib) used ins ∧
      ((target.toNat < spent used ∧
          ∀ q, q <+: utxos → target.toNat < spent q → used.length ≤ q.length) ∨
        (used = utxos ∧ ∀ q, q <+: utxos → spent q ≤ target.toNat)) := by
  obtain ⟨⟨amount, used, ins⟩, hrun⟩ := inputsLoop_total hids target 0 [] []
  obtain ⟨hamount, hsel⟩ := inputs_spec hrun
  have hle := spent_le_of_isPrefix hsel.front
  have hexact : (sumValues used).toNat = spent used := (toNat_sumValues_iff used).2 (by omega)
  have hchosen : used = chosen target 0 utxos := inputsLoop_chosen hrun
  have hshort : used = shortest target.toNat utxos := by
    rw [hchosen] at hle ⊢
    exact chosen_eq_shortest UInt64.zero_le (.inl (by simpa using by omega))
  refine ⟨amount, used, ins, hrun, hsel.front, by rw [hamount, hexact], hsel.isInput, ?_⟩
  rcases shortest_exceeds_or target.toNat utxos with hgt | ⟨hall, hall_le⟩
  · left
    rw [hshort]
    exact ⟨hgt, fun q hq hexceeds => length_shortest_le hq hexceeds⟩
  · right
    exact ⟨hshort.trans hall, fun q hq => (spent_le_of_isPrefix hq).trans hall_le⟩

def coin (vout : UInt32) (value : UInt64) : Utxo := ⟨txID, vout, value, ⟨true, 800000, "00", 10⟩⟩

/-- A total equal to the target is not enough: the third UTXO is taken. -/
theorem inputs_shortest_boundary :
    ∃ amount used ins,
      inputs sampleLib [coin 0 600, coin 1 400, coin 2 50, coin 3 70] 1000 =
        .ok (amount, used, ins) ∧
      used = [coin 0 600, coin 1 400, coin 2 50] ∧ amount.toNat = 1050 := by
  have hids : ∀ u ∈ [coin 0 600, coin 1 400, coin 2 50, coin 3 70],
      ∃ hash, sampleLib.newHashFromStr u.txID = .ok hash := by
    have hid : sampleLib.newHashFromStr txID = .ok _ := rfl
    simp [coin, hid]
  obtain ⟨amount, used, ins, hrun, -, hamount, -⟩ := inputs_shortest hids (by decide) 1000
  have hused : used = [coin 0 600, coin 1 400, coin 2 50] :=
    congrArg (fun r => r.2.1) (Except.ok.inj hrun).symm
  exact ⟨amount, used, ins, hrun, hused, by rw [hamount, hused]; rfl⟩

end Sygma.Btc
