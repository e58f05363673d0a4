import SygmaRelayer.Proofs.RetryStatus

/-! `FilterDeposits` is a filter with an effect on the status store. What it returns depends
on the store as it was before the call only: its own writes turn pending deposits into failed
ones, which pass the filter as well. -/

namespace Sygma

variable {st : PropStorer} {resourceID : ResourceID}

section Step

variable {s : List Message × PropStorer} {d : Message}

theorem filterDeposit_skip (h : ¬ (d.data.resourceId = resourceID ∧ Retryable s.2 d.key)) :
    filterDeposit resourceID s d = s := by
  unfold filterDeposit
  split_ifs with hresource
  · rfl
  · have hnot : ¬ Retryable s.2 d.key := fun hd => h ⟨not_not.1 hresource, hd⟩
    rcases isExecuted_of_not_retryable hnot with heq | heq <;> rw [heq]

theorem filterDeposit_keep (hresource : d.data.resourceId = resourceID)
    (hd : Retryable s.2 d.key) :
    filterDeposit resourceID s d = (s.1 ++ [d], reset s.2 d.key) := by
  unfold filterDeposit
  rw [if_neg (not_not.2 hresource), isExecuted_of_retryable hd]

end Step

/-- A store in which the pending deposits among those returned so far have been written. -/
structure Written (st : PropStorer) (returned : List Message) (st' : PropStorer) : Prop where
  readFails : st'.readFails = st.readFails
  writeFails : st'.writeFails = st.writeFails
  status : ∀ k, st'.status k =
    if st.status k = .pending ∧ ∃ d ∈ returned, d.key = k then .failed else st.status k
  retryable : ∀ d ∈ returned, Retryable st d.key

theorem written_nil (st : PropStorer) : Written st [] st where
  readFails := rfl
  writeFails := rfl
  status k := by simp
  retryable := by simp

variable {returned : List Message} {st' : PropStorer} {d : Message}

theorem Written.retryable_iff (h : Written st returned st') (k : PropKey) :
    Retryable st' k ↔ Retryable st k := by
  unfold Retryable
  rw [h.readFails, h.writeFails, h.status k]
  split_ifs with hk
  · obtain ⟨hpending, d, hd, rfl⟩ := hk
    have hretryable := h.retryable d hd
    simp [hpending, hretryable.1, hretryable.2.2 hpending]
  · rfl

theorem Written.add (h : Written st returned st') (hd : Retryable st d.key) :
    Written st (returned ++ [d]) (reset st' d.key) where
  readFails := (reset_readFails st' d.key).trans h.readFails
  writeFails := (reset_writeFails st' d.key).trans h.writeFails
  status k := by
    rw [reset_status, h.status k, h.status d.key]
    by_cases hk : k = d.key
    · subst hk
      by_cases hpending : st.status d.key = .pending <;>
        by_cases hdup : ∃ d' ∈ returned, d'.key = d.key <;> simp [hpending, hdup]
    · simp [hk, Ne.symm hk, or_and_right, exists_or]
  retryable := by
    simp only [List.forall_mem_append, List.forall_mem_singleton]
    exact ⟨h.retryable, hd⟩

/-- Over a list of deposits the returned ones are those that are retryable in the store as it was
before the first. -/
theorem foldl_filterDeposit {s : List Message × PropStorer} (h : Written st s.1 s.2)
    (deposits : List Message) :
    (deposits.foldl (filterDeposit resourceID) s).1 = s.1 ++ deposits.filter (fun d =>
        d.data.resourceId = resourceID ∧ Retryable st d.key) ∧
      Written st (deposits.foldl (filterDeposit resourceID) s).1
        (deposits.foldl (filterDeposit resourceID) s).2 := by
  induction deposits generalizing s with
  | nil => exact ⟨by simp, h⟩
  | cons d deposits ih =>
    rw [List.foldl_cons]
    by_cases hd : d.data.resourceId = resourceID ∧ Retryable st d.key
    · have hkeep := filterDeposit_keep hd.1 ((h.retryable_iff d.key).2 hd.2)
      obtain ⟨hreturned, hwritten⟩ := @ih (filterDeposit resourceID s d)
        (by rw [hkeep]; exact h.add hd.2)
      refine ⟨?_, hwritten⟩
      rw [hreturned, hkeep, List.filter_cons_of_pos (by simpa using hd), List.append_assoc]
      rfl
    · have hskip : filterDeposit resourceID s d = s := by
        apply filterDeposit_skip
        rw [h.retryable_iff]
        exact hd
      obtain ⟨hreturned, hwritten⟩ := @ih s h
      rw [hskip, List.filter_cons_of_neg (by simpa using hd)]
      exact ⟨hreturned, hwritten⟩

/-- Ranging over the map visits the deposits of the destination and no others. -/
theorem filterDeposits_eq (st : PropStorer) (domainDeposits : DomainDeposits)
    (resourceID : ResourceID) (destination : UInt8) :
    filterDeposits st domainDeposits resourceID destination =
      ((domainDeposits.lookup destination).getD []).foldl (filterDeposit resourceID) ([], st) :=
  Grouping.foldl_entries (f := fun s deposits => deposits.foldl (filterDeposit resourceID) s)
    (fun _ => rfl) domainDeposits destination ([], st)

/-- `FilterDeposits` returns the retryable deposits with the resource ID that are listed under the
destination, sets those of them that were pending to failed, and leaves every other status
alone. -/
theorem filterDeposits_spec (st : PropStorer) (domainDeposits : DomainDeposits)
    (resourceID : ResourceID) (destination : UInt8) :
    (filterDeposits st domainDeposits resourceID destination).1 =
        ((domainDeposits.lookup destination).getD []).filter (fun d =>
          d.data.resourceId = resourceID ∧ Retryable st d.key) ∧
      (∀ d ∈ (filterDeposits st domainDeposits resourceID destination).1,
        st.status d.key = .pending →
        (filterDeposits st domainDeposits resourceID destination).2.status d.key = .failed) ∧
      ∀ k, ¬ (st.status k = .pending ∧
          ∃ d ∈ (filterDeposits st domainDeposits resourceID destination).1, d.key = k) →
        (filterDeposits st domainDeposits resourceID destination).2.status k = st.status k := by
  rw [filterDeposits_eq]
  obtain ⟨hreturned, hwritten⟩ := @foldl_filterDeposit st resourceID ([], st) (written_nil st)
    ((domainDeposits.lookup destination).getD [])
  refine ⟨hreturned, fun d hd hpending => ?_, fun k hk => ?_⟩
  · rw [hwritten.status, if_pos ⟨hpending, d, hd, rfl⟩]
  · rw [hwritten.status, if_neg hk]

/-- A deposit from domain 1 to domain 2. -/
def depositOf (nonce : UInt64) : Message :=
  ⟨1, 2, ⟨nonce, 0, none, [], .fungibleTransfer⟩, "retry-1-2-10-14", 0⟩

/-- Deposit 7 is pending and deposit 8 executed. -/
def sampleStorer : PropStorer where
  status k := if k.depositNonce = 7 then .pending else if k.depositNonce = 8 then .executed
    else .missing
  readFails _ := false
  writeFails _ := false

/-- Deposit 7 is listed twice and returned twice. -/
theorem filterDeposits_spec_duplicate :
    (filterDeposits sampleStorer (AList.singleton 2 [depositOf 7, depositOf 8, depositOf 7])
        0 2).1 = [depositOf 7, depositOf 7] ∧
      (filterDeposits sampleStorer (AList.singleton 2 [depositOf 7, depositOf 8, depositOf 7])
        0 2).2.status (depositOf 7).key = .failed ∧
      (filterDeposits sampleStorer (AList.singleton 2 [depositOf 7, depositOf 8, depositOf 7])
        0 2).2.status (depositOf 8).key = .executed := by
  obtain ⟨hreturned, hpending, hframe⟩ := filterDeposits_spec sampleStorer
    (AList.singleton 2 [depositOf 7, depositOf 8, depositOf 7]) 0 2
  have hlist : (filterDeposits sampleStorer
      (AList.singleton 2 [depositOf 7, depositOf 8, depositOf 7]) 0 2).1 =
        [depositOf 7, depositOf 7] := hreturned.trans (by decide)
  refine ⟨hlist, hpending (depositOf 7) ?_ (by decide), hframe (depositOf 8).key ?_⟩
  · rw [hlist]
    exact List.mem_cons_self
  · decide

end Sygma
