import SygmaRelayer.Proofs.KeyshareFailure
import SygmaRelayer.Spec.KeygenEvents

/-! Does a keygen event replace a key? The ECDSA handler looks at the store first and the FROST
handler does not, so a FROST share is kept exactly as long as no range that is handed to the
FROST handler, for the first time or again, has a keygen event. -/

namespace Sygma.KeygenEvents

open KeyshareStore

variable {r : Relayer} {s : State} {c : Call r} {store : Tss.Store}

/-- The range of the call has a keygen event. -/
def Call.hasEvents (c : Call r) : Bool :=
  match c.keygenEvents with
  | .ok (_ :: _) => true
  | _ => false

/-- The handler of the scheme would find the share it looks for. -/
def Guarded (r : Relayer) (s : State) (store : Tss.Store) : Prop :=
  store = .ecdsa ∧ ∃ k, getKeyshare (r.scheme .ecdsa) (s.file .ecdsa) = .ok k ∧ k.threshold ≠ 0

/-- The keygen sessions of a scheme. -/
def startedFor (store : Tss.Store) (s : State) : List String :=
  (s.started.filter fun p => p.1 = store).map Prod.snd

theorem fetchAndExecute_cases (s : State) (c : Call r) :
    ((fetchAndExecute s c).1 = s ∧ c.hasEvents = false) ∨
    (c.hasEvents = true ∧ ∃ block, (fetchAndExecute s c).1 = executeKeygen s c block) := by
  unfold fetchAndExecute Call.hasEvents
  rcases c.keygenEvents with err | _ | ⟨block, blocks⟩
  · exact Or.inl ⟨rfl, rfl⟩
  · exact Or.inl ⟨rfl, rfl⟩
  · exact Or.inr ⟨rfl, block, rfl⟩

theorem handleEvents_guarded (h : Guarded r s c.store) : (handleEvents s c).1 = s := by
  obtain ⟨hstore, k, hread, hk⟩ := h
  unfold handleEvents
  rw [hstore]
  simp only [hread, if_pos hk]

theorem handleEvents_open (h : ¬ Guarded r s c.store) : handleEvents s c = fetchAndExecute s c := by
  unfold handleEvents
  cases hstore : c.store with
  | frost => rfl
  | ecdsa =>
    cases hread : getKeyshare (r.scheme .ecdsa) (s.file .ecdsa) with
    | error err => rfl
    | ok k =>
      have hk : ¬ k.threshold ≠ 0 := by
        intro hk
        rw [hstore] at h
        exact h ⟨rfl, k, hread, hk⟩
      simp only [if_neg hk]

theorem handleEvents_cases (s : State) (c : Call r) :
    ((handleEvents s c).1 = s ∧ (c.hasEvents = false ∨ Guarded r s c.store)) ∨
    (c.hasEvents = true ∧ ¬ Guarded r s c.store ∧
      ∃ block, (handleEvents s c).1 = executeKeygen s c block) := by
  by_cases hg : Guarded r s c.store
  · exact Or.inl ⟨handleEvents_guarded hg, Or.inr hg⟩
  · rw [handleEvents_open hg]
    rcases fetchAndExecute_cases s c with ⟨hs, hq⟩ | ⟨he, hs⟩
    · exact Or.inl ⟨hs, Or.inl hq⟩
    · exact Or.inr ⟨he, hg, hs⟩

theorem executeKeygen_started (s : State) (c : Call r) (block : UInt64) :
    (executeKeygen s c block).started = s.started ++ [(c.store, sessionID c.store block)] := by
  unfold executeKeygen
  cases c.generated <;> rfl

theorem executeKeygen_file_of_ne (h : c.store ≠ store) (block : UInt64) :
    (executeKeygen s c block).file store = s.file store := by
  unfold executeKeygen
  cases c.generated with
  | none => rfl
  | some g => exact Function.update_of_ne h.symm _ _

theorem startedFor_executeKeygen_of_ne (h : c.store ≠ store) (block : UInt64) :
    startedFor store (executeKeygen s c block) = startedFor store s := by
  simp [startedFor, executeKeygen_started, h]

theorem length_startedFor_executeKeygen (s : State) (c : Call r) (block : UInt64) :
    (startedFor c.store (executeKeygen s c block)).length = (startedFor c.store s).length + 1 := by
  simp [startedFor, executeKeygen_started]

theorem length_startedFor_le (store : Tss.Store) (s : State) (c : Call r) :
    (startedFor store s).length ≤ (startedFor store (handleEvents s c).1).length := by
  rcases handleEvents_cases s c with ⟨hs, -⟩ | ⟨-, -, block, hs⟩
  · rw [hs]
  · rw [hs]
    by_cases hstore : c.store = store
    · subst hstore
      rw [length_startedFor_executeKeygen]
      omega
    · rw [startedFor_executeKeygen_of_ne hstore]

theorem run_cons (s : State) (c : Call r) (calls : List (Call r)) :
    run s (c :: calls) = run (handleEvents s c).1 calls := rfl

theorem length_startedFor_run_le (store : Tss.Store) (s : State) (calls : List (Call r)) :
    (startedFor store s).length ≤ (startedFor store (run s calls)).length := by
  induction calls generalizing s with
  | nil => exact le_rfl
  | cons c calls ih => exact (length_startedFor_le store s c).trans (ih _)

/-- The share of a scheme and its sessions are the same after every call. -/
def Kept (r : Relayer) (store : Tss.Store) (s : State) (calls : List (Call r)) : Prop :=
  (∀ front, front <+: calls → getKeyshare (r.scheme store) ((run s front).file store) =
    getKeyshare (r.scheme store) (s.file store)) ∧
  startedFor store (run s calls) = startedFor store s

theorem kept_nil : Kept r store s [] := by
  refine ⟨fun front hfront => ?_, rfl⟩
  rw [List.prefix_nil.1 hfront]
  rfl

theorem kept_cons (hfile : (handleEvents s c).1.file store = s.file store)
    (hstarted : startedFor store (handleEvents s c).1 = startedFor store s)
    (calls : List (Call r)) :
    Kept r store s (c :: calls) ↔ Kept r store (handleEvents s c).1 calls := by
  unfold Kept
  rw [run_cons, hfile, hstarted]
  apply and_congr_left'
  constructor
  · intro h front hfront
    exact h (c :: front) ((List.prefix_cons_inj c).2 hfront)
  · intro h front hfront
    cases front with
    | nil => rfl
    | cons c' front =>
      obtain ⟨rfl, hrest⟩ := List.cons_prefix_cons.1 hfront
      exact h front hrest

/-- A call that starts a process ends it. -/
theorem not_kept_of_executeKeygen {block : UInt64}
    (h : (handleEvents s c).1 = executeKeygen s c block) (calls : List (Call r)) :
    ¬ Kept r c.store s (c :: calls) := by
  rintro ⟨-, hstarted⟩
  have hle := length_startedFor_run_le c.store (handleEvents s c).1 calls
  rw [run_cons] at hstarted
  rw [hstarted, h, length_startedFor_executeKeygen] at hle
  omega

theorem guarded_iff {k : Keyshare (r.Key store)}
    (hread : getKeyshare (r.scheme store) (s.file store) = .ok k) :
    Guarded r s store ↔ store = .ecdsa ∧ k.threshold ≠ 0 := by
  apply and_congr_right
  intro hstore
  subst hstore
  rw [hread]
  simp

/-- A readable share is kept iff the handler looks for it, or no range it is handed has a keygen
event. -/
theorem keygen_keeps_share_iff {k : Keyshare (r.Key store)}
    (hread : getKeyshare (r.scheme store) (s.file store) = .ok k) (calls : List (Call r)) :
    Kept r store s calls ↔
      (store = .ecdsa ∧ k.threshold ≠ 0) ∨ ∀ c ∈ calls, c.store = store → c.hasEvents = false := by
  induction calls generalizing s with
  | nil => simp [kept_nil]
  | cons c calls ih =>
    have hguard := guarded_iff hread
    rw [List.forall_mem_cons]
    rcases handleEvents_cases s c with ⟨hs, hreason⟩ | ⟨hevents, hopen, block, hs⟩
    · -- nothing happens, for a reason the right side names if it concerns this scheme
      have hc : (store = .ecdsa ∧ k.threshold ≠ 0) ∨ (c.store = store → c.hasEvents = false) := by
        rw [← hguard]
        by_cases hstore : c.store = store
        · subst hstore
          rcases hreason with hq | hg
          · exact Or.inr fun _ => hq
          · exact Or.inl hg
        · exact Or.inr fun h => absurd h hstore
      refine (kept_cons (by rw [hs]) (by rw [hs]) calls).trans ?_
      rw [hs, ih hread, or_and_left, and_iff_right hc]
    · by_cases hstore : c.store = store
      · subst hstore
        refine iff_of_false (not_kept_of_executeKeygen hs calls) ?_
        rw [← hguard]
        rintro (h | h)
        · exact hopen h
        · exact absurd (h.1 rfl) (by simp [hevents])
      · have hfile : (handleEvents s c).1.file store = s.file store := by
          rw [hs, executeKeygen_file_of_ne hstore]
        refine (kept_cons hfile (by rw [hs, startedFor_executeKeygen_of_ne hstore]) calls).trans ?_
        have hother : c.store = store → c.hasEvents = false := fun h => absurd h hstore
        rw [@ih (handleEvents s c).1 (by rw [hfile, hread]), and_iff_right hother]

/-- A relayer whose topology has threshold 3. -/
def topologyOfThree : Relayer where
  Key
    | .ecdsa => Unit
    | .frost => TaprootConfig ScalarBytes PointBytes
  scheme
    | .ecdsa => ecdsa ecdsaShareJson
    | .frost => frost encodedCurve frostShareJson
  threshold := 3

/-- Both stores hold a share with threshold 2. -/
def bothStored : State where
  file
    | .ecdsa => .ok (ecdsaShareText 2)
    | .frost => .ok (frostShareText 2)
  started := []

/-- A range with the keygen event of block 100 is handed to the handler of a scheme. -/
def replayed : (store : Tss.Store) → Call topologyOfThree
  | .ecdsa => ⟨.ecdsa, 100, 104, .ok [100], some ⟨(), [firstPeer, secondPeer], ⟨none, none⟩⟩⟩
  | .frost =>
    ⟨.frost, 100, 104, .ok [100], some ⟨(frostShare 3).key, [firstPeer, secondPeer], ⟨none, none⟩⟩⟩

theorem keygen_keeps_ecdsa_share :
    (replayed .ecdsa).hasEvents = true ∧
    Kept topologyOfThree .ecdsa bothStored [replayed .frost, replayed .ecdsa] := by
  have hread : getKeyshare (topologyOfThree.scheme .ecdsa) (bothStored.file .ecdsa) =
      .ok (ecdsaShare 2) := getKeyshare_ecdsaShareText
  exact ⟨rfl, (keygen_keeps_share_iff hread _).2 (Or.inl ⟨rfl, by decide⟩)⟩

/-- The FROST handler starts a keygen for the same range, and its result replaces the share. -/
theorem frost_keygen_replaces_share :
    (getKeyshare (topologyOfThree.scheme .frost) (bothStored.file .frost)).map (·.threshold) =
      .ok 2 ∧
    startedFor .frost (run bothStored [replayed .frost]) = ["frost-keygen-100"] ∧
    (getKeyshare (topologyOfThree.scheme .frost)
      ((run bothStored [replayed .frost]).file .frost)).map (·.threshold) = .ok 3 :=
  ⟨by decide +kernel, by decide +kernel, by decide +kernel⟩

end Sygma.KeygenEvents
