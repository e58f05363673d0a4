import Mathlib.Algebra.BigOperators.Group.List.Basic
import SygmaRelayer.Spec.BtcTx

/-! Coin selection: what the loop of `inputs` takes from a list of UTXOs. -/

namespace Sygma.Btc

variable {Address Script Hash : Type} {lib : BtcLib Address Script Hash}

/-- The running total of `inputs`. -/
def sumValues (us : List Utxo) : UInt64 := (us.map Utxo.value).sum

@[simp] theorem sumValues_nil : sumValues [] = 0 := rfl

@[simp] theorem sumValues_cons (u : Utxo) (us : List Utxo) :
    sumValues (u :: us) = u.value + sumValues us := by
  simp [sumValues]

theorem sumValues_perm {us us' : List Utxo} (h : us.Perm us') : sumValues us = sumValues us' :=
  (h.map Utxo.value).sum_eq

/-- The input `inputs` adds for a UTXO. -/
def IsInput (lib : BtcLib Address Script Hash) (u : Utxo) (o : OutPoint Hash) : Prop :=
  lib.newHashFromStr u.txID = .ok o.hash ∧ o.index = u.vout

/-- `sel` is what the loop takes from `us` when it starts at `amount`: it stops at the first
total above the target. -/
structure Selects (lib : BtcLib Address Script Hash) (target amount : UInt64) (us sel : List Utxo)
    (ins : List (OutPoint Hash)) : Prop where
  front : sel <+: us
  isInput : List.Forall₂ (IsInput lib) sel ins
  minimal : ∀ q, q <+: sel → q ≠ sel → q ≠ [] → amount + sumValues q ≤ target
  stops : sel = us ∨ target < amount + sumValues sel

theorem inputsLoop_spec {target amount amount' : UInt64} {us used used' : List Utxo}
    {ins ins' : List (OutPoint Hash)}
    (h : inputsLoop lib target us amount used ins = .ok (amount', used', ins')) :
    ∃ sel selIn, used' = used ++ sel ∧ ins' = ins ++ selIn ∧ amount' = amount + sumValues sel ∧
      Selects lib target amount us sel selIn := by
  induction us generalizing amount used ins with
  | nil =>
    simp only [inputsLoop, Except.ok.injEq, Prod.mk.injEq] at h
    obtain ⟨rfl, rfl, rfl⟩ := h
    refine ⟨[], [], by simp, by simp, by simp, List.prefix_refl _, .nil, ?_, Or.inl rfl⟩
    intro q hq hne
    exact absurd (List.prefix_nil.1 hq) hne
  | cons u us ih =>
    unfold inputsLoop at h
    split at h
    · cases h
    · rename_i hash hh
      split_ifs at h with hgt
      · simp only [Except.ok.injEq, Prod.mk.injEq] at h
        obtain ⟨rfl, rfl, rfl⟩ := h
        refine ⟨[u], [⟨hash, u.vout⟩], rfl, rfl, by simp, by simp, .cons ⟨hh, rfl⟩ .nil, ?_, ?_⟩
        · intro q hq hne hnil
          obtain ⟨t, ht⟩ := hq
          cases q with
          | nil => exact absurd rfl hnil
          | cons a q => simp_all
        · exact Or.inr (by simpa using hgt)
      · obtain ⟨sel, selIn, rfl, rfl, rfl, hsel⟩ := ih h
        refine ⟨u :: sel, ⟨hash, u.vout⟩ :: selIn, by simp, by simp, by simp [add_assoc],
          List.prefix_cons_inj u |>.2 hsel.front, .cons ⟨hh, rfl⟩ hsel.isInput, ?_, ?_⟩
        · intro q hq hne hnil
          cases q with
          | nil => exact absurd rfl hnil
          | cons a q =>
            obtain ⟨rfl, hq'⟩ := List.cons_prefix_cons.1 hq
            by_cases hq0 : q = []
            · subst hq0
              simpa using hgt
            · have := hsel.minimal q hq' (fun he => hne (by rw [he])) hq0
              simpa [add_assoc] using this
        · rcases hsel.stops with rfl | hst
          · exact Or.inl rfl
          · exact Or.inr (by simpa [add_assoc] using hst)

/-- What the loop takes if no transaction ID makes it fail. -/
def chosen (target : UInt64) : UInt64 → List Utxo → List Utxo
  | _, [] => []
  | amount, u :: us =>
    if target < amount + u.value then [u] else u :: chosen target (amount + u.value) us

theorem inputsLoop_chosen {target amount amount' : UInt64} {us used used' : List Utxo}
    {ins ins' : List (OutPoint Hash)}
    (h : inputsLoop lib target us amount used ins = .ok (amount', used', ins')) :
    used' = used ++ chosen target amount us := by
  induction us generalizing amount used ins with
  | nil =>
    cases h
    simp [chosen]
  | cons u us ih =>
    unfold inputsLoop at h
    unfold chosen
    split at h
    · cases h
    · split_ifs at h with hgt
      · cases h
        rw [if_pos hgt]
      · rw [ih h, if_neg hgt, List.append_assoc, List.singleton_append]

theorem inputsLoop_congr {target amount amount' : UInt64} {us us' used sel : List Utxo}
    {ins ins' : List (OutPoint Hash)}
    (h : inputsLoop lib target us amount used ins = .ok (amount', used ++ sel, ins'))
    (hle : amount ≤ target) (hgt : target < amount') (hp : sel <+: us') :
    inputsLoop lib target us' amount used ins = .ok (amount', used ++ sel, ins') := by
  induction us generalizing amount used ins sel us' with
  | nil =>
    simp only [inputsLoop, Except.ok.injEq, Prod.mk.injEq] at h
    rw [h.1] at hle
    exact absurd hgt (UInt64.not_lt.2 hle)
  | cons u us ih =>
    unfold inputsLoop at h
    split at h
    · cases h
    · rename_i hash hh
      split_ifs at h with hstop
      · simp only [Except.ok.injEq, Prod.mk.injEq, List.append_cancel_left_eq] at h
        obtain ⟨rfl, rfl, rfl⟩ := h
        obtain ⟨t, rfl⟩ := hp
        simp [inputsLoop, hh, hstop]
      · obtain ⟨sel', _, hsel, _, _, _⟩ := inputsLoop_spec h
        obtain rfl : sel = u :: sel' := by simpa using hsel
        obtain ⟨t, rfl⟩ := hp
        have hs : used ++ u :: sel' = used ++ [u] ++ sel' := by simp
        rw [hs] at h ⊢
        have := ih h (UInt64.not_lt.1 hstop) (List.prefix_append sel' t)
        simpa [inputsLoop, hh, hstop] using this

theorem inputs_spec {target amount : UInt64} {us used : List Utxo} {ins : List (OutPoint Hash)}
    (h : inputs lib us target = .ok (amount, used, ins)) :
    amount = sumValues used ∧ Selects lib target 0 us used ins := by
  obtain ⟨sel, selIn, rfl, rfl, rfl, hsel⟩ := inputsLoop_spec h
  exact ⟨by simp, hsel⟩

end Sygma.Btc
