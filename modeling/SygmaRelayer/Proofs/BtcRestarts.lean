import Mathlib.Data.List.Induction
import SygmaRelayer.Proofs.BtcBlockOrder

/-! Does the Bitcoin listener miss blocks across restarts? Within a run it handles consecutive
blocks, but a run does not read the block store: it starts at the head it meets. So nothing
is skipped exactly when that head is at most one above the last block stored, at every
restart that handles a block. -/

namespace Sygma.BtcListener

variable {l : Listener}

/-- The blocks event handlers were called on. -/
def handled (actions : List Action) : List ℤ :=
  actions.filterMap fun
    | .handleEvents _ block _ => some block
    | _ => none

/-- The blocks that were stored. -/
def stored (actions : List Action) : List ℤ :=
  actions.filterMap fun
    | .storeBlock block true => some block
    | _ => none

@[simp] theorem handled_append (as bs : List Action) :
    handled (as ++ bs) = handled as ++ handled bs := List.filterMap_append

@[simp] theorem stored_append (as bs : List Action) :
    stored (as ++ bs) = stored as ++ stored bs := List.filterMap_append

theorem mem_handled {as : List Action} {b : ℤ} :
    b ∈ handled as ↔ ∃ i ok, .handleEvents i b ok ∈ as := by
  unfold handled
  rw [List.mem_filterMap]
  constructor
  · rintro ⟨a, ha, hb⟩
    cases a <;> simp at hb
    subst hb
    exact ⟨_, _, ha⟩
  · rintro ⟨i, ok, ha⟩
    exact ⟨_, ha, rfl⟩

theorem mem_stored {as : List Action} {b : ℤ} : b ∈ stored as ↔ .storeBlock b true ∈ as := by
  unfold stored
  rw [List.mem_filterMap]
  constructor
  · rintro ⟨a, ha, hb⟩
    match a, hb with
    | .storeBlock b' true, hb =>
      obtain rfl : b' = b := by simpa using hb
      exact ha
  · intro ha
    exact ⟨_, ha, rfl⟩

/-- What the runs did, one after the other. -/
def history (l : Listener) (runs : List AppRun) : List Action := runs.flatMap (AppRun.actions l)

/-- After a restart the first block handled is at most one above the last block stored. -/
def Resumes (l : Listener) (runs : List AppRun) : Prop :=
  ∀ before r after, runs = before ++ r :: after → ∀ s f,
    (stored (history l before)).getLast? = some s → (handled (r.actions l)).head? = some f →
    f ≤ s + 1

/-- From a stored block on, every block up to one that is handled has been handled. -/
def NoGap (l : Listener) (runs : List AppRun) : Prop :=
  ∀ before r after, runs = before ++ r :: after →
    ∀ b₁ ∈ stored (history l (before ++ [r])), ∀ b₂ ∈ handled (r.actions l),
    ∀ b, b₁ ≤ b → b ≤ b₂ → b ∈ handled (history l (before ++ [r]))

section Cut

variable {block block' : ℤ} {poll : Poll} {actions as : List Action}
  {turns : List (Poll × List Action)}

theorem cut_cases {xs ys : List Action} (h : as <+: xs ++ ys) :
    as <+: xs ∨ ∃ bs, as = xs ++ bs ∧ bs <+: ys := by
  obtain ⟨t, ht⟩ := h
  rcases List.append_eq_append_iff.1 ht with ⟨rest, rfl, -⟩ | ⟨bs, rfl, rfl⟩
  · exact Or.inl (List.prefix_append _ _)
  · exact Or.inr ⟨bs, rfl, List.prefix_append _ _⟩

theorem Turn.eq_of_mem_handled (h : Turn l block poll block' actions) {b : ℤ}
    (hb : b ∈ handled actions) : b = block := by
  obtain ⟨i, ok, ha⟩ := mem_handled.1 hb
  exact h.block_eq.1 _ ha

theorem Turn.handler_lt (h : Turn l block poll block' actions) {i : ℕ} {b : ℤ} {ok : Bool}
    (ha : .handleEvents i b ok ∈ actions) : i < l.eventHandlers := by
  cases h with
  | idle => cases ha
  | failed _ hi =>
    obtain ha | ⟨j, hj, _, ha⟩ := mem_handlersUpTo ha
    · cases ha
    · cases ha
      omega
  | passed =>
    have : i < l.eventHandlers ∧ block = b ∧ ok = true := by simpa [allHandlers] using ha
    exact this.1

theorem Listens.handlers_pos (h : Listens l block turns) {b : ℤ}
    (hb : b ∈ handled (turns.flatMap Prod.snd)) : 0 < l.eventHandlers := by
  induction h with
  | nil => cases hb
  | cons h _ ih =>
    rw [List.flatMap_cons, handled_append, List.mem_append] at hb
    rcases hb with hb | hb
    · obtain ⟨i, ok, ha⟩ := mem_handled.1 hb
      have := h.handler_lt ha
      omega
    · exact ih hb

theorem mem_handled_passed (hpos : 0 < l.eventHandlers) (ok : Bool) :
    block ∈ handled (allHandlers l block ++ [.storeBlock block ok]) := by
  rw [mem_handled]
  exact ⟨0, true, by simpa [allHandlers] using hpos⟩

theorem Listens.handled_of_le (h : Listens l block turns) (has : as <+: turns.flatMap Prod.snd)
    {b b' : ℤ} (hb : b ∈ handled as) (hle : block ≤ b') (hle' : b' ≤ b) : b' ∈ handled as := by
  induction h generalizing as with
  | nil =>
    rw [List.prefix_nil.1 has] at hb
    cases hb
  | @cons block next poll actions turns h hrest ih =>
    rcases cut_cases has with has | ⟨bs, rfl, hbs⟩
    · have hin : b ∈ handled actions := (has.filterMap _).subset hb
      have := h.eq_of_mem_handled hin
      obtain rfl : b' = b := by omega
      exact hb
    · rw [handled_append, List.mem_append] at hb ⊢
      rcases hb with hb | hb
      · have := h.eq_of_mem_handled hb
        obtain rfl : b' = b := by omega
        exact Or.inl hb
      · cases h with
        | idle => exact Or.inr (ih hbs hb hle)
        | failed => exact Or.inr (ih hbs hb hle)
        | passed =>
          have hpos := hrest.handlers_pos ((hbs.filterMap _).subset hb)
          by_cases heq : b' = block
          · subst heq
            exact Or.inl (mem_handled_passed hpos _)
          · exact Or.inr (ih hbs hb (by omega))

theorem Listens.head_handled (h : Listens l block turns) (has : as <+: turns.flatMap Prod.snd)
    {f : ℤ} (hf : (handled as).head? = some f) : f = block := by
  induction h generalizing as with
  | nil =>
    rw [List.prefix_nil.1 has] at hf
    cases hf
  | @cons block next poll actions turns h hrest ih =>
    rcases cut_cases has with has | ⟨bs, rfl, hbs⟩
    · exact h.eq_of_mem_handled ((has.filterMap _).subset (List.mem_of_mem_head? hf))
    · rw [handled_append] at hf
      by_cases hnil : handled actions = []
      · rw [hnil, List.nil_append] at hf
        cases h with
        | idle => exact ih hbs hf
        | failed => exact ih hbs hf
        | @passed _ _ ok _ _ =>
          have hpos := hrest.handlers_pos ((hbs.filterMap _).subset (List.mem_of_mem_head? hf))
          exact absurd hnil (List.ne_nil_of_mem (mem_handled_passed hpos ok))
      · rw [List.head?_append_of_ne_nil _ hnil] at hf
        exact h.eq_of_mem_handled (List.mem_of_mem_head? hf)

/-- A block is stored after it is handled. -/
theorem Listens.handled_of_stored (h : Listens l block turns) (hpos : 0 < l.eventHandlers)
    (has : as <+: turns.flatMap Prod.snd) {b : ℤ} (hb : b ∈ stored as) : b ∈ handled as := by
  obtain ⟨before, after, rfl⟩ := List.append_of_mem (mem_stored.1 hb)
  obtain ⟨rest, hrest⟩ := has
  rw [List.append_assoc] at hrest
  obtain ⟨hsuf, -⟩ := h.storeBlock_order hrest.symm
  have hmem : Action.handleEvents 0 b true ∈ before :=
    hsuf.subset (by simpa [allHandlers] using hpos)
  exact mem_handled.2 ⟨0, true, by simp [hmem]⟩

end Cut

section Run

variable (r : AppRun)

theorem AppRun.actions_prefix :
    r.actions l <+: (listenToEvents l none r.polls).flatMap Prod.snd := List.take_prefix _ _

theorem AppRun.head_handled {f : ℤ} (hf : (handled (r.actions l)).head? = some f) :
    f = firstBlock none r.polls :=
  (listens l none r.polls).head_handled (r.actions_prefix) hf

theorem AppRun.handled_of_le {b b' : ℤ} (hb : b ∈ handled (r.actions l))
    (hle : firstBlock none r.polls ≤ b') (hle' : b' ≤ b) : b' ∈ handled (r.actions l) :=
  (listens l none r.polls).handled_of_le r.actions_prefix hb hle hle'

theorem AppRun.handled_of_stored (hpos : 0 < l.eventHandlers) {b : ℤ}
    (hb : b ∈ stored (r.actions l)) : b ∈ handled (r.actions l) :=
  (listens l none r.polls).handled_of_stored hpos r.actions_prefix hb

theorem AppRun.firstBlock_le {b : ℤ} (hb : b ∈ handled (r.actions l)) :
    firstBlock none r.polls ≤ b := by
  obtain ⟨i, ok, ha⟩ := mem_handled.1 hb
  exact (listens l none r.polls).le_block _ (r.actions_prefix.subset ha)

theorem AppRun.handlers_pos {b : ℤ} (hb : b ∈ handled (r.actions l)) : 0 < l.eventHandlers :=
  (listens l none r.polls).handlers_pos ((r.actions_prefix.filterMap _).subset hb)

end Run

/-- Everything from a stored block to the last one stored has been handled. -/
def Covered (past : List Action) : Prop :=
  ∀ b₁ ∈ stored past, ∀ s, (stored past).getLast? = some s →
    ∀ b, b₁ ≤ b → b ≤ s → b ∈ handled past

/-- A run that resumes leaves no gap. -/
theorem handled_between {past : List Action} {r : AppRun} (hpast : Covered past)
    (hresume : ∀ s, (stored past).getLast? = some s → handled (r.actions l) ≠ [] →
      firstBlock none r.polls ≤ s + 1)
    {b₁ b₂ b : ℤ} (h₁ : b₁ ∈ stored (past ++ r.actions l)) (h₂ : b₂ ∈ handled (r.actions l))
    (hle₁ : b₁ ≤ b) (hle₂ : b ≤ b₂) : b ∈ handled (past ++ r.actions l) := by
  rw [handled_append, List.mem_append]
  by_cases hfirst : firstBlock none r.polls ≤ b
  · exact Or.inr (r.handled_of_le h₂ hfirst hle₂)
  · left
    rw [stored_append, List.mem_append] at h₁
    rcases h₁ with h₁ | h₁
    · have hs := List.getLast?_eq_some_getLast (List.ne_nil_of_mem h₁)
      have := hresume _ hs (List.ne_nil_of_mem h₂)
      exact hpast b₁ h₁ _ hs b hle₁ (by omega)
    · -- a block of this run is not below its first one
      have := r.firstBlock_le (r.handled_of_stored (r.handlers_pos h₂) h₁)
      omega

@[simp] theorem history_append (runs runs' : List AppRun) :
    history l (runs ++ runs') = history l runs ++ history l runs' := List.flatMap_append

@[simp] theorem history_singleton (r : AppRun) : history l [r] = r.actions l := by
  simp [history]

/-- Each restart that handles a block meets a head at most one above the last block stored. -/
def MeetsNextHead (l : Listener) (runs : List AppRun) : Prop :=
  ∀ before r after, runs = before ++ r :: after → ∀ s,
    (stored (history l before)).getLast? = some s → handled (r.actions l) ≠ [] →
    firstBlock none r.polls ≤ s + 1

theorem covered_history {runs : List AppRun} (hpos : 0 < l.eventHandlers)
    (h : MeetsNextHead l runs) : Covered (history l runs) := by
  induction runs using List.reverseRecOn with
  | nil => simp [Covered, history, stored]
  | append_singleton runs r ih =>
    have hpast : Covered (history l runs) := by
      refine ih fun before r' after heq => ?_
      refine h before r' (after ++ [r]) ?_
      rw [heq]
      simp
    rw [history_append, history_singleton]
    intro b₁ h₁ s hs b hle₁ hle₂
    rw [stored_append, List.getLast?_append] at hs
    cases hlast : (stored (r.actions l)).getLast? with
    | none =>
      -- this run stores nothing
      have hnil := List.getLast?_eq_none_iff.1 hlast
      rw [stored_append, hnil, List.append_nil] at h₁
      rw [hlast, Option.none_or] at hs
      rw [handled_append]
      exact List.mem_append_left _ (hpast b₁ h₁ s hs b hle₁ hle₂)
    | some s' =>
      rw [hlast, Option.some_or, Option.some_inj] at hs
      subst hs
      have hs' := r.handled_of_stored hpos (List.mem_of_getLast? hlast)
      exact handled_between hpast (fun s => h runs r [] rfl s) h₁ hs' hle₁ hle₂

/-- No block is skipped across restarts iff each restart meets a head that continues the blocks
stored. -/
theorem restarts_iff (l : Listener) (runs : List AppRun) :
    Resumes l runs ∧ NoGap l runs ↔ MeetsNextHead l runs := by
  constructor
  · intro ⟨hresumes, _⟩ before r after heq s hs hne
    obtain ⟨f, hf⟩ : ∃ f, (handled (r.actions l)).head? = some f :=
      ⟨_, List.head?_eq_some_head hne⟩
    rw [← r.head_handled hf]
    exact hresumes before r after heq s f hs hf
  · intro h
    constructor
    · intro before r after heq s f hs hf
      rw [r.head_handled hf]
      exact h before r after heq s hs (by
        intro hnil
        simp [hnil] at hf)
    · intro before r after heq b₁ h₁ b₂ h₂ b hle₁ hle₂
      have hbefore : MeetsNextHead l before := by
        intro before' r' after' heq'
        refine h before' r' (after' ++ r :: after) ?_
        rw [heq, heq']
        simp
      rw [history_append, history_singleton] at h₁ ⊢
      exact handled_between (covered_history (r.handlers_pos h₂) hbefore)
        (fun s => h before r after heq s) h₁ h₂ hle₁ hle₂

/-- A run that handles and stores block 10, and a restart at head 20. -/
def tenThenTwenty : List AppRun :=
  [⟨[.block 10 (fun _ => true) true, .block 15 (fun _ => true) true], 3⟩,
    ⟨[.block 20 (fun _ => true) true, .block 25 (fun _ => true) true], 3⟩]

/-- With five confirmations the blocks from 11 to 19 are never handled. -/
theorem restart_skips_blocks :
    stored (history ⟨1, 5⟩ tenThenTwenty) = [10, 20] ∧
    handled (history ⟨1, 5⟩ tenThenTwenty) = [10, 20] ∧ ¬ Resumes ⟨1, 5⟩ tenThenTwenty := by
  refine ⟨rfl, rfl, fun h => ?_⟩
  exact absurd (h [_] _ [] rfl 10 20 rfl rfl) (by decide)

end Sygma.BtcListener
