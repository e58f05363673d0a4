import SygmaRelayer.Spec.Subscription

/-! Printing a subscription ID and reading it back. The round trip works for a
session ID without a dash and a known message type, and fails otherwise. -/

namespace Sygma.Comm

open Text

/-- A session ID and a message type whose subscription IDs can be read back. -/
def Plain (sessionID : String) (msgType : MessageType) : Prop :=
  '-' ∉ sessionID.toList ∧ msgType ≤ MessageType.Unknown

theorem split_newSubscriptionID (s : String) (t : MessageType) (now : Int64) :
    split '-' (newSubscriptionID s t now) =
      split '-' s ++ [t.toNat.repr, now.toUInt64.toUInt32.toNat.repr] := by
  have hdash : "-" = String.singleton '-' := rfl
  unfold newSubscriptionID
  rw [hdash, split_append_sep, split_append_sep, split_of_notMem (notMem_repr (by decide) _),
    split_of_notMem (notMem_repr (by decide) _)]
  simp

theorem ofInt_natCast (n : ℕ) : UInt8.ofInt n = UInt8.ofNat n := by
  unfold UInt8.ofInt
  apply UInt8.toNat.inj
  simp only [UInt8.toNat_ofNat']
  omega

theorem unwrap_of_plain {s : String} {t : MessageType} (h : Plain s t) (now : Int64) :
    unwrap (newSubscriptionID s t now) = .ok (s, t, now.toUInt64.toUInt32.toNat.repr) := by
  have ht : t.toNat ≤ 13 := UInt8.le_iff_toNat_le.1 h.2
  unfold unwrap
  rw [split_newSubscriptionID, split_of_notMem h.1]
  simp only [List.cons_append, List.nil_append, parseInt_repr]
  rw [if_pos (by omega)]
  simp only [gt_iff_lt]
  rw [if_neg (by omega), ofInt_natCast, UInt8.ofNat_toNat]

theorem unwrap_of_not_plain {s : String} {t : MessageType} (h : ¬ Plain s t) (now : Int64) :
    ∃ err, unwrap (newSubscriptionID s t now) = .error err := by
  unfold unwrap
  rw [split_newSubscriptionID]
  by_cases hs : '-' ∈ s.toList
  · -- a dash in the session ID makes more than three parts
    have hlen := two_le_length_split hs
    split
    · rename_i a b c heq
      have := congrArg List.length heq
      simp at this
      omega
    · exact ⟨_, rfl⟩
  · have ht : 13 < t.toNat := by
      by_contra hle
      exact h ⟨hs, UInt8.le_iff_toNat_le.2 (not_lt.1 hle)⟩
    rw [split_of_notMem hs]
    simp only [List.cons_append, List.nil_append, parseInt_repr]
    by_cases hr : t.toNat < 2 ^ (8 - 1)
    · rw [if_pos hr]
      simp only [gt_iff_lt]
      rw [if_pos (by omega)]
      exact ⟨_, rfl⟩
    · rw [if_neg hr]
      exact ⟨_, rfl⟩

/-- What `Unwrap` reads is plain, whoever made the ID. -/
theorem plain_of_unwrap {sID s i : String} {t : MessageType} (h : unwrap sID = .ok (s, t, i)) :
    Plain s t := by
  unfold unwrap at h
  split at h
  · rename_i s' t' i' hsplit
    split at h
    · cases h
    · rename_i v hv
      split_ifs at h with hle
      simp only [Except.ok.injEq, Prod.mk.injEq] at h
      obtain ⟨rfl, rfl, rfl⟩ := h
      have hmem : ∀ p ∈ [s', t', i'], '-' ∉ p.toList := fun p hp =>
        notMem_of_mem_split (hsplit ▸ hp)
      have hv0 := parseInt_nonneg (hmem t' (by simp)) hv
      refine ⟨hmem s' (by simp), ?_⟩
      obtain ⟨n, rfl⟩ := Int.eq_ofNat_of_zero_le hv0
      rw [ofInt_natCast, UInt8.le_iff_toNat_le, UInt8.toNat_ofNat']
      have : n ≤ 13 := by omega
      exact (Nat.mod_le _ _).trans this
  · cases h

theorem identifier_of_plain {s : String} {t : MessageType} (h : Plain s t) (now : Int64) :
    subscriptionIdentifier (newSubscriptionID s t now) = now.toUInt64.toUInt32.toNat.repr := by
  unfold subscriptionIdentifier
  rw [unwrap_of_plain h]

theorem identifier_of_not_plain {s : String} {t : MessageType} (h : ¬ Plain s t) (now : Int64) :
    subscriptionIdentifier (newSubscriptionID s t now) = "" := by
  obtain ⟨err, herr⟩ := unwrap_of_not_plain h now
  unfold subscriptionIdentifier
  rw [herr]

/-- Two subscriptions to one session and type take the same place unless they are plain and their
clock readings differ in the lower 32 bits. -/
theorem identifier_eq_iff (s : String) (t : MessageType) (now now' : Int64) :
    subscriptionIdentifier (newSubscriptionID s t now) =
      subscriptionIdentifier (newSubscriptionID s t now') ↔
      (Plain s t → now.toUInt64.toUInt32 = now'.toUInt64.toUInt32) := by
  by_cases h : Plain s t
  · rw [identifier_of_plain h, identifier_of_plain h, repr_inj, UInt32.toNat_inj]
    simp [h]
  · rw [identifier_of_not_plain h, identifier_of_not_plain h]
    simp [h]

end Sygma.Comm
