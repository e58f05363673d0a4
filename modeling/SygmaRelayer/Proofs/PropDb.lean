import SygmaRelayer.Lib.Text
import SygmaRelayer.Spec.PropDb

/-! The proposal store is a map from the triples to the statuses: the key of a triple can be read
back from its parts, so a database that is a map on keys is one on triples. -/

namespace Sygma.PropDb

open KeyValue Text

theorem split_keyS (k : PropKey) :
    split ':' (keyS k) = ["source", k.source.toNat.repr, "destination", k.destination.toNat.repr,
      "depositNonce", k.depositNonce.toNat.repr] := by
  have hsource : "source:" = "source" ++ String.singleton ':' := rfl
  have hdestination : ":destination:" =
      String.singleton ':' ++ ("destination" ++ String.singleton ':') := rfl
  have hnonce : ":depositNonce:" =
      String.singleton ':' ++ ("depositNonce" ++ String.singleton ':') := rfl
  have hwords : split ':' "source" = ["source"] ∧ split ':' "destination" = ["destination"] ∧
      split ':' "depositNonce" = ["depositNonce"] := by decide
  unfold keyS
  rw [hsource, hdestination, hnonce]
  simp only [← String.append_assoc, split_append_sep, hwords,
    split_of_notMem (notMem_repr (by decide : ':'.isDigit = false) _)]
  rfl

theorem keyS_injective : Function.Injective keyS := by
  intro k k' h
  have hparts := congrArg (split ':') h
  rw [split_keyS, split_keyS] at hparts
  simp only [List.cons.injEq, repr_inj, UInt8.toNat_inj, UInt64.toNat_inj, true_and,
    and_true] at hparts
  obtain ⟨hsource, hdestination, hnonce⟩ := hparts
  cases k
  cases k'
  simp_all

theorem key_injective : Function.Injective key := fun _ _ h =>
  keyS_injective (String.toByteArray_inj.1 h)

variable {ε : Type} [DecidableEq ε] {db : Db ByteArray ByteArray ε} {s s' : db.State}
  {calls : List (PropKey × ByteArray)}

theorem propStatus_storePropStatus {k : PropKey} {status : ByteArray}
    (h : storePropStatus db s k status = .ok s') (k' : PropKey) :
    propStatus db s' k' = if k' = k then (status, none) else propStatus db s k' := by
  unfold propStatus
  by_cases hk : k' = k
  · subst hk
    simp [db.get_set h]
  · have hkey : key k' ≠ key k := fun heq => hk (key_injective heq)
    rw [db.get_set_of_ne h hkey, if_neg hk]

/-- The status of the last call for the triple is read, or missing if there was none. -/
theorem propStatus_storeAll (h : storeAll db db.empty calls = .ok s) (k : PropKey) :
    propStatus db s k = ((lastWrite calls k).getD PropStatus.missing.text, none) := by
  have hset : db.setAll db.empty (calls.map (Prod.map key id)) = .ok s := by
    rw [← h, Db.setAll, List.foldlM_map]
    rfl
  unfold propStatus
  rw [Db.get_setAll hset, lastWrite_map key_injective, db.get_empty]
  cases lastWrite calls k with
  | none => simp
  | some status => rfl

section Refinement

/-- The database holds the statuses of the abstract store. -/
def Represents (db : Db ByteArray ByteArray ε) (s : db.State) (st : PropStore) : Prop :=
  ∀ k, propStatus db s k = ((st k).text, none)

theorem represents_empty (db : Db ByteArray ByteArray ε) :
    Represents db db.empty fun _ => .missing := by
  have hnone : storeAll db db.empty [] = .ok db.empty := rfl
  exact fun k => propStatus_storeAll hnone k

theorem Represents.store {st : PropStore} {k : PropKey} {status : PropStatus}
    (h : Represents db s st) (hs : storePropStatus db s k status.text = .ok s') :
    Represents db s' (st.storePropStatus k status) := by
  intro k'
  rw [propStatus_storePropStatus hs, h k', PropStore.storePropStatus_apply]
  by_cases hk : k' = k
  · simp [hk]
  · simp [hk]

theorem represents_storeAll {calls : List (PropKey × PropStatus)}
    (h : storeAll db db.empty (calls.map (Prod.map id PropStatus.text)) = .ok s) :
    Represents db s (calls.foldl (fun st call => st.storePropStatus call.1 call.2)
      fun _ => .missing) := by
  unfold storeAll at h
  rw [List.foldlM_map] at h
  refine Fallible.foldlM_ok (P := fun s calls => Represents db s
    (calls.foldl (fun st call => st.storePropStatus call.1 call.2) fun _ => .missing))
    (represents_empty db) ?_ h
  intro s₁ s₂ calls call hrep hs
  rw [List.foldl_append]
  exact hrep.store hs

end Refinement

/-- The proposal store is a map: it reads the status of the last call for exactly that triple, or
missing, and a call for another triple changes nothing. -/
theorem store_is_map (h : storeAll db db.empty calls = .ok s) :
    (∀ k, propStatus db s k = ((lastWrite calls k).getD PropStatus.missing.text, none)) ∧
      ∀ k status s', storePropStatus db s k status = .ok s' →
        ∀ k', k' ≠ k → propStatus db s' k' = propStatus db s k' := by
  refine ⟨propStatus_storeAll h, ?_⟩
  intro k status s' hs k' hk
  rw [propStatus_storePropStatus hs, if_neg hk]

/-- A database in memory. -/
def memoryDb : Db ByteArray ByteArray String where
  State := ByteArray → Option ByteArray
  empty := fun _ => none
  get s k := match s k with
    | none => .error "leveldb: not found"
    | some v => .ok v
  set s k v := .ok (@Function.update _ _ ByteArray.instDecidableEq s k (some v))
  notFound := "leveldb: not found"
  get_empty _ := rfl
  get_set {s s' k v} h := by
    obtain rfl : @Function.update _ _ ByteArray.instDecidableEq s k (some v) = s' := Except.ok.inj h
    simp
  get_set_of_ne {s s' k k' v} h hk := by
    obtain rfl : @Function.update _ _ ByteArray.instDecidableEq s k (some v) = s' := Except.ok.inj h
    simp [hk]

/-- The numbers of two triples are made of the same digits. -/
theorem store_is_map_same_digits :
    ∃ s, storeAll memoryDb memoryDb.empty [(⟨1, 12, 3⟩, PropStatus.pending.text),
        (⟨11, 2, 3⟩, PropStatus.executed.text), (⟨1, 12, 3⟩, PropStatus.failed.text)] = .ok s ∧
      propStatus memoryDb s ⟨1, 12, 3⟩ = (PropStatus.failed.text, none) ∧
      propStatus memoryDb s ⟨11, 2, 3⟩ = (PropStatus.executed.text, none) ∧
      propStatus memoryDb s ⟨1, 1, 23⟩ = (PropStatus.missing.text, none) := by
  have hrun : storeAll memoryDb memoryDb.empty [(⟨1, 12, 3⟩, PropStatus.pending.text),
      (⟨11, 2, 3⟩, PropStatus.executed.text), (⟨1, 12, 3⟩, PropStatus.failed.text)] = .ok _ := rfl
  obtain ⟨hread, -⟩ := store_is_map hrun
  exact ⟨_, hrun, hread _, hread _, hread _⟩

end Sygma.PropDb
