import SygmaRelayer.Spec.RetryEvents

/-! The status store under the retry handlers. `isExecuted` writes to it only to turn a pending
deposit into a failed one, and is asked about both alike. -/

namespace Sygma

variable {st : PropStorer}

/-- The status can be read and is not executed, and if it is pending it can be written. -/
def Retryable (st : PropStorer) (k : PropKey) : Prop :=
  st.readFails k = false ∧ st.status k ≠ .executed ∧
    (st.status k = .pending → st.writeFails k = false)

instance (st : PropStorer) (k : PropKey) : Decidable (Retryable st k) :=
  inferInstanceAs (Decidable (_ ∧ _ ∧ _))

/-- The status of a pending deposit is set to failed. -/
def reset (st : PropStorer) (k : PropKey) : PropStorer :=
  if st.status k = .pending then { st with status := st.status.storePropStatus k .failed } else st

theorem isExecuted_of_retryable {k : PropKey} (h : Retryable st k) :
    st.isExecuted k = (reset st k, some false) := by
  obtain ⟨hread, hexecuted, hwrite⟩ := h
  unfold PropStorer.isExecuted reset
  rw [hread, if_neg Bool.false_ne_true]
  cases hstatus : st.status k with
  | missing | failed => rfl
  | executed => exact absurd hstatus hexecuted
  | pending =>
    simp only [retryIsExecuted, hwrite hstatus]
    rfl

theorem isExecuted_of_not_retryable {k : PropKey} (h : ¬ Retryable st k) :
    st.isExecuted k = (st, none) ∨ st.isExecuted k = (st, some true) := by
  unfold Retryable at h
  unfold PropStorer.isExecuted
  cases hread : st.readFails k with
  | true => exact Or.inl rfl
  | false =>
    cases hstatus : st.status k with
    | missing | failed => simp [hread, hstatus] at h
    | executed => exact Or.inr rfl
    | pending =>
      have hwrite : st.writeFails k = true := by simpa [hread, hstatus] using h
      simp [retryIsExecuted, hwrite]

@[simp] theorem reset_readFails (st : PropStorer) (k : PropKey) :
    (reset st k).readFails = st.readFails := by
  unfold reset
  split_ifs <;> rfl

@[simp] theorem reset_writeFails (st : PropStorer) (k : PropKey) :
    (reset st k).writeFails = st.writeFails := by
  unfold reset
  split_ifs <;> rfl

theorem reset_status (st : PropStorer) (k k' : PropKey) :
    (reset st k).status k' =
      if k' = k ∧ st.status k = .pending then .failed else st.status k' := by
  unfold reset
  split_ifs with hpending hk hk
  · simp [hk.1]
  · have hne : k' ≠ k := fun heq => hk ⟨heq, hpending⟩
    simp [hne]
  · exact absurd hk.2 hpending
  · rfl

/-- What `isExecuted` answers on a status. -/
def retryAnswer (readFails writeFails : Bool) (status : PropStatus) : Option Bool :=
  match readFails, status, writeFails with
  | true, _, _ => none
  | false, .executed, _ => some true
  | false, .pending, true => none
  | false, _, _ => some false

theorem isExecuted_answer (st : PropStorer) (k : PropKey) :
    (st.isExecuted k).2 = retryAnswer (st.readFails k) (st.writeFails k) (st.status k) := by
  unfold PropStorer.isExecuted
  cases st.readFails k <;> cases st.status k <;> cases st.writeFails k <;> rfl

/-- The status store gives the same answers. -/
def SameAnswers (st st' : PropStorer) : Prop := ∀ k, (st'.isExecuted k).2 = (st.isExecuted k).2

theorem sameAnswers_reset {k : PropKey} (h : Retryable st k) : SameAnswers st (reset st k) := by
  intro k'
  rw [isExecuted_answer, isExecuted_answer, reset_readFails, reset_writeFails, reset_status]
  split_ifs with hk
  · obtain ⟨rfl, hpending⟩ := hk
    rw [hpending, h.1, h.2.2 hpending]
    rfl
  · rfl

/-- The retry handlers' own writes do not change what `isExecuted` answers. -/
theorem sameAnswers_isExecuted (st : PropStorer) (k : PropKey) :
    SameAnswers st (st.isExecuted k).1 := by
  by_cases h : Retryable st k
  · rw [isExecuted_of_retryable h]
    exact sameAnswers_reset h
  · rcases isExecuted_of_not_retryable h with heq | heq <;>
    · rw [heq]
      exact fun _ => rfl

end Sygma
