import SygmaRelayer.Spec.BtcListener

/-! The Bitcoin listener takes the confirmed blocks one after the other. A turn is idle if the
block it stands at is not confirmed, fails on it if a handler does, and passes and stores it
otherwise; whatever the turns meet with, the blocks passed are consecutive. -/

namespace Sygma.BtcListener

/-- All handlers are called on the block, and succeed. -/
def allHandlers (l : Listener) (block : ℤ) : List Action :=
  .fetchingEvents block :: (List.range l.eventHandlers).map (.handleEvents · block true)

/-- The block on which all event handlers succeeded in a turn. -/
def succeeded (l : Listener) : List Action → Option ℤ
  | .fetchingEvents block :: actions =>
    if allHandlers l block <+: .fetchingEvents block :: actions then some block else none
  | _ => none

def Poll.head : Poll → Option ℤ
  | .bestBlockHashError | .blockVerboseTxError => none
  | .block head _ _ => some head

/-- The block the listener starts with: the one given or the head at the first successful poll. -/
def firstBlock (startBlock : Option ℤ) (polls : List Poll) : ℤ :=
  startBlock.getD ((polls.findSome? Poll.head).getD 0)

def Action.block : Action → ℤ
  | .fetchingEvents block | .handleEvents _ block _ | .storeBlock block _ => block

/-- The handlers before `i` are called on the block and succeed, and `i` fails. -/
def handlersUpTo (block : ℤ) (i : ℕ) : List Action :=
  .fetchingEvents block :: (List.range i).map (.handleEvents · block true) ++
    [.handleEvents i block false]

/-- What a turn can do when the listener stands at `block`. -/
inductive Turn (l : Listener) (block : ℤ) : Poll → ℤ → List Action → Prop
  | idle {poll} (hwait : ∀ head, poll.head = some head → head < block + l.blockConfirmations) :
    Turn l block poll block []
  | failed {head handleEvents stored i} (hconf : block + l.blockConfirmations ≤ head)
    (hi : i < l.eventHandlers) (hfail : handleEvents i = false)
    (hbefore : ∀ j < i, handleEvents j = true) :
    Turn l block (.block head handleEvents stored) block (handlersUpTo block i)
  | passed {head handleEvents stored} (hconf : block + l.blockConfirmations ≤ head)
    (hall : ∀ i < l.eventHandlers, handleEvents i = true) :
    Turn l block (.block head handleEvents stored) (block + 1)
      (allHandlers l block ++ [.storeBlock block stored])

theorem callHandlers_spec (handleEvents : ℕ → Bool) (block : ℤ) (handler n : ℕ) :
    ((∀ i < n, handleEvents (handler + i) = true) ∧ callHandlers handleEvents block handler n =
        ((List.range n).map fun i => .handleEvents (handler + i) block true, true)) ∨
      ∃ i < n, handleEvents (handler + i) = false ∧
        (∀ j < i, handleEvents (handler + j) = true) ∧
        callHandlers handleEvents block handler n =
          ((List.range i).map (fun i => .handleEvents (handler + i) block true) ++
            [.handleEvents (handler + i) block false], false) := by
  induction n generalizing handler with
  | zero => exact Or.inl ⟨by simp, rfl⟩
  | succ n ih =>
    unfold callHandlers
    by_cases hok : handleEvents handler
    · rw [if_pos hok]
      have hcons : ∀ m, (∀ i < m, handleEvents (handler + 1 + i) = true) →
          ∀ i < m + 1, handleEvents (handler + i) = true := by
        intro m hm i hi
        cases i with
        | zero => exact hok
        | succ i =>
          rw [Nat.add_comm i 1, ← Nat.add_assoc]
          exact hm i (by omega)
      rcases ih (handler + 1) with ⟨hall, h⟩ | ⟨i, hi, hfail, hbefore, h⟩
      · left
        refine ⟨hcons n hall, ?_⟩
        simp [h, List.range_succ_eq_map, Nat.add_comm, Nat.add_left_comm,
          Function.comp_def]
      · right
        refine ⟨i + 1, by omega, ?_, hcons i hbefore, ?_⟩
        · rwa [Nat.add_comm i 1, ← Nat.add_assoc]
        · simp [h, List.range_succ_eq_map, Nat.add_comm, Nat.add_left_comm,
            Function.comp_def]
    · rw [if_neg hok]
      exact Or.inr ⟨0, by omega, by simpa using hok, by simp, by simp⟩

theorem turn_cases (l : Listener) (startBlock : Option ℤ) (poll : Poll) (polls : List Poll) :
    Turn l (firstBlock startBlock (poll :: polls)) poll
      (firstBlock (turn l startBlock poll).1 polls) (turn l startBlock poll).2 := by
  cases poll with
  | bestBlockHashError | blockVerboseTxError => exact .idle (by simp [Poll.head])
  | block head handleEvents stored =>
    simp only [turn]
    by_cases hnew : head - startBlock.getD head < l.blockConfirmations
    · rw [if_pos hnew]
      refine .idle fun head' hhead => ?_
      obtain rfl : head = head' := Option.some.inj hhead
      change head < startBlock.getD head + l.blockConfirmations
      omega
    · rw [if_neg hnew]
      have hconf : startBlock.getD head + l.blockConfirmations ≤ head := by omega
      rcases callHandlers_spec handleEvents (startBlock.getD head) 0 l.eventHandlers with
        ⟨hall, h⟩ | ⟨i, hi, hfail, hbefore, h⟩
      · simp only [Nat.zero_add] at h hall
        simp only [h, if_true]
        exact .passed hconf hall
      · simp only [Nat.zero_add] at h hfail hbefore
        simp only [h, Bool.false_eq_true, if_false]
        exact .failed hconf hi hfail hbefore

/-- Turns one after the other, from the block the listener stands at. -/
inductive Listens (l : Listener) : ℤ → List (Poll × List Action) → Prop
  | nil {block} : Listens l block []
  | cons {block block' poll actions turns} (h : Turn l block poll block' actions)
    (hrest : Listens l block' turns) : Listens l block ((poll, actions) :: turns)

theorem listens (l : Listener) (startBlock : Option ℤ) (polls : List Poll) :
    Listens l (firstBlock startBlock polls) (listenToEvents l startBlock polls) := by
  induction polls generalizing startBlock with
  | nil => exact .nil
  | cons poll polls ih =>
    exact .cons (turn_cases l startBlock poll polls) (ih (turn l startBlock poll).1)

section Turns

variable {l : Listener} {block block' : ℤ} {poll : Poll} {actions : List Action}
  {turns : List (Poll × List Action)}

theorem succeeded_passed (ok : Bool) :
    succeeded l (allHandlers l block ++ [.storeBlock block ok]) = some block := by
  have hpre : allHandlers l block <+: allHandlers l block ++ [.storeBlock block ok] :=
    List.prefix_append _ _
  exact if_pos hpre

theorem succeeded_failed {i : ℕ} (hi : i < l.eventHandlers) :
    succeeded l (handlersUpTo block i) = none := by
  apply if_neg
  intro hpre
  -- the call of handler `i` did not succeed
  have hmem : Action.handleEvents i block true ∈ allHandlers l block := by
    simpa [allHandlers] using hi
  simpa using hpre.subset hmem

theorem mem_handlersUpTo {i : ℕ} {a : Action} (h : a ∈ handlersUpTo block i) :
    a = .fetchingEvents block ∨ ∃ j ≤ i, ∃ ok, a = .handleEvents j block ok := by
  simp only [handlersUpTo, List.cons_append, List.mem_cons, List.mem_append, List.mem_map,
    List.mem_range, List.not_mem_nil, or_false] at h
  obtain rfl | ⟨j, hj, rfl⟩ | rfl := h
  · exact .inl rfl
  · exact .inr ⟨j, hj.le, true, rfl⟩
  · exact .inr ⟨i, le_rfl, false, rfl⟩

/-- All that happens in a turn is about the block the listener stands at, and it stays there or
goes to the next. -/
theorem Turn.block_eq (h : Turn l block poll block' actions) :
    (∀ a ∈ actions, a.block = block) ∧ block ≤ block' := by
  cases h with
  | idle => simp
  | failed =>
    refine ⟨fun a ha => ?_, by omega⟩
    obtain rfl | ⟨j, -, ok, rfl⟩ := mem_handlersUpTo ha <;> rfl
  | passed =>
    refine ⟨fun a ha => ?_, by omega⟩
    simp only [allHandlers, List.cons_append, List.mem_cons, List.mem_append, List.mem_map,
      List.not_mem_nil, or_false] at ha
    obtain rfl | ⟨j, -, rfl⟩ | rfl := ha <;> rfl

theorem Turn.confirmed (h : Turn l block poll block' actions) {a : Action} (ha : a ∈ actions) :
    ∃ head, poll.head = some head ∧ block + l.blockConfirmations ≤ head := by
  cases h with
  | idle => cases ha
  | failed hconf => exact ⟨_, rfl, hconf⟩
  | passed hconf => exact ⟨_, rfl, hconf⟩

theorem Listens.succeeded_eq (h : Listens l block turns) :
    ∃ k : ℕ, turns.filterMap (fun t => succeeded l t.2) = (List.range k).map fun j : ℕ => block + j := by
  induction h with
  | nil => exact ⟨0, rfl⟩
  | cons h _ ih =>
    obtain ⟨k, ih⟩ := ih
    cases h with
    | idle => exact ⟨k, ih⟩
    | failed _ hi =>
      refine ⟨k, ?_⟩
      rw [List.filterMap_cons]
      simp only [succeeded_failed hi, ih]
    | passed =>
      refine ⟨k + 1, ?_⟩
      rw [List.filterMap_cons]
      simp only [succeeded_passed, ih]
      rw [List.range_succ_eq_map, List.map_cons, List.map_map]
      simp only [Int.natCast_zero, Int.add_zero, List.cons.injEq, true_and, List.map_inj_left]
      intro j _
      simp only [Function.comp_apply, Nat.succ_eq_add_one, Int.natCast_add, Int.natCast_one]
      omega

theorem Listens.confirmed (h : Listens l block turns) :
    ∀ t ∈ turns, ∀ a ∈ t.2, ∃ head, t.1.head = some head ∧
      a.block + l.blockConfirmations ≤ head := by
  induction h with
  | nil => simp
  | cons h _ ih =>
    intro t ht a ha
    rcases List.mem_cons.1 ht with rfl | ht
    · rw [h.block_eq.1 a ha]
      exact h.confirmed ha
    · exact ih t ht a ha

theorem Listens.le_block (h : Listens l block turns) :
    ∀ a ∈ turns.flatMap Prod.snd, block ≤ a.block := by
  induction h with
  | nil => simp
  | cons h _ ih =>
    intro a ha
    obtain ⟨heq, hle⟩ := h.block_eq
    rcases List.mem_append.1 ha with ha | ha
    · have := heq a ha
      omega
    · have := ih a ha
      omega

/-- A turn calls `StoreBlock` last, after all handlers have succeeded. -/
theorem Turn.storeBlock_last (h : Turn l block poll block' actions) {before after : List Action}
    {b : ℤ} {ok : Bool} (heq : actions = before ++ .storeBlock b ok :: after) :
    before = allHandlers l b := by
  have hmem : Action.storeBlock b ok ∈ actions := by simp [heq]
  cases h with
  | idle => cases hmem
  | failed =>
    obtain h | ⟨j, -, ok', h⟩ := mem_handlersUpTo hmem <;> cases h
  | passed =>
    have hno : Action.storeBlock b ok ∉ allHandlers l block := by simp [allHandlers]
    obtain ⟨hbefore, hstore, -⟩ := (List.append_cons_inj_of_notMem hno (by simp)).1 heq
    cases hstore
    exact hbefore.symm

theorem Listens.storeBlock_order (h : Listens l block turns) {before after : List Action} {b : ℤ}
    {ok : Bool} (heq : turns.flatMap Prod.snd = before ++ .storeBlock b ok :: after) :
    allHandlers l b <:+ before ∧ ∀ a ∈ before, a.block ≤ b := by
  induction h generalizing before with
  | nil => simp at heq
  | @cons block block' poll actions turns h hrest ih =>
    rw [List.flatMap_cons, List.append_eq_append_iff] at heq
    rcases heq with ⟨before', rfl, hturns⟩ | ⟨rest, hactions, hrest'⟩
    · obtain ⟨hsuf, hle⟩ := ih hturns
      refine ⟨hsuf.trans (List.suffix_append _ _), fun a ha => ?_⟩
      rcases List.mem_append.1 ha with ha | ha
      · have hb := hrest.le_block (.storeBlock b ok) (by simp [hturns])
        obtain ⟨hblock, hnext⟩ := h.block_eq
        have ha := hblock a ha
        have hb : block' ≤ b := hb
        omega
      · exact hle a ha
    · cases rest with
      | nil =>
        -- the store would be the first action of the later turns
        obtain ⟨hsuf, -⟩ := @ih [] hrest'.symm
        simp [allHandlers] at hsuf
      | cons a rest =>
        obtain ⟨rfl, -⟩ := List.cons.inj hrest'
        change actions = _ at hactions
        have hb : b = block := h.block_eq.1 (.storeBlock b ok) (by simp [hactions])
        refine ⟨(h.storeBlock_last hactions) ▸ List.suffix_refl _, fun a ha => ?_⟩
        have := h.block_eq.1 a (by simp [hactions, ha])
        omega

/-- What a turn does when the listener stands at `block`: nothing until the block is confirmed, and
then the handlers up to the first that fails, or all of them and `StoreBlock`. -/
structure Takes (l : Listener) (block : ℤ) (poll : Poll) (actions : List Action) : Prop where
  waits : (∀ head, poll.head = some head → head < block + l.blockConfirmations) → actions = []
  passes : ∀ head handleEvents stored, poll = .block head handleEvents stored →
    block + l.blockConfirmations ≤ head → (∀ i < l.eventHandlers, handleEvents i = true) →
    actions = allHandlers l block ++ [.storeBlock block stored]
  fails : ∀ head handleEvents stored i, poll = .block head handleEvents stored →
    block + l.blockConfirmations ≤ head → i < l.eventHandlers → handleEvents i = false →
    (∀ j < i, handleEvents j = true) → actions = handlersUpTo block i

theorem Turn.takes (h : Turn l block poll block' actions) : Takes l block poll actions := by
  cases h with
  | idle hwait =>
    refine ⟨fun _ => rfl, ?_, ?_⟩
    · rintro head handleEvents stored rfl hconf
      have := hwait head rfl
      omega
    · rintro head handleEvents stored i rfl hconf
      have := hwait head rfl
      omega
  | @failed head handleEvents stored i hconf hi hfail hbefore =>
    refine ⟨fun hwait => ?_, ?_, ?_⟩
    · have := hwait head rfl
      omega
    · intro _ _ _ hpoll _ hall
      cases hpoll
      simp [hall i hi] at hfail
    · intro _ _ _ j hpoll _ hj hfail' hbefore'
      cases hpoll
      -- there is only one first handler that fails
      rcases Nat.lt_trichotomy i j with hlt | rfl | hgt
      · simp [hbefore' i hlt] at hfail
      · rfl
      · simp [hbefore j hgt] at hfail'
  | @passed head handleEvents stored hconf hall =>
    refine ⟨fun hwait => ?_, ?_, ?_⟩
    · have := hwait head rfl
      omega
    · intro _ _ _ hpoll _ _
      cases hpoll
      rfl
    · intro _ _ _ i hpoll _ hi hfail _
      cases hpoll
      simp [hall i hi] at hfail

theorem Turn.next_eq (h : Turn l block poll block' actions) :
    block' = block + (succeeded l actions).toList.length := by
  cases h with
  | idle => simp [succeeded]
  | failed _ hi => simp [succeeded_failed hi]
  | passed => simp [succeeded_passed]

theorem Listens.takes (h : Listens l block turns) {before after : List (Poll × List Action)}
    {p : Poll} {as : List Action} (heq : turns = before ++ (p, as) :: after) :
    Takes l (block + (before.filterMap fun t => succeeded l t.2).length) p as := by
  induction h generalizing before with
  | nil => simp at heq
  | @cons block block' poll actions turns h _ ih =>
    cases before with
    | nil =>
      obtain ⟨ht, -⟩ := List.cons.inj heq
      cases ht
      simpa using h.takes
    | cons t before =>
      obtain ⟨rfl, hrest⟩ := List.cons.inj heq
      have htakes := ih hrest
      rw [h.next_eq, Int.add_assoc] at htakes
      rw [List.filterMap_cons]
      cases hs : succeeded l actions with
      | none => simpa [hs] using htakes
      | some b => simpa [hs, Int.add_comm] using htakes

theorem Turn.stored (h : Turn l block poll block' actions) {b : ℤ} (hle : block ≤ b)
    (hlt : b < block') : ∃ ok, .storeBlock b ok ∈ actions := by
  cases h with
  | idle => omega
  | failed => omega
  | @passed _ _ stored =>
    obtain rfl : b = block := by omega
    exact ⟨stored, by simp⟩

/-- When the listener gets to a block, `StoreBlock` has been called on all before it. -/
theorem Listens.stored_before (h : Listens l block turns) {before after : List Action} {a : Action}
    (heq : turns.flatMap Prod.snd = before ++ a :: after) {b : ℤ} (hle : block ≤ b)
    (hlt : b < a.block) : ∃ ok, .storeBlock b ok ∈ before := by
  induction h generalizing before with
  | nil => simp at heq
  | @cons block block' poll actions turns h _ ih =>
    -- the listener leaves `b` with this turn or with a later one
    have hleaves : b < block' → ∃ ok, .storeBlock b ok ∈ actions := h.stored hle
    rw [List.flatMap_cons, List.append_eq_append_iff] at heq
    rcases heq with ⟨before', rfl, hturns⟩ | ⟨rest, hactions, hrest⟩
    · by_cases hnext : b < block'
      · obtain ⟨ok, hmem⟩ := hleaves hnext
        exact ⟨ok, List.mem_append_left _ hmem⟩
      · obtain ⟨ok, hmem⟩ := ih hturns (by omega)
        exact ⟨ok, List.mem_append_right _ hmem⟩
    · change actions = before ++ rest at hactions
      cases rest with
      | nil =>
        rw [List.append_nil] at hactions
        by_cases hnext : b < block'
        · exact hactions ▸ hleaves hnext
        · obtain ⟨ok, hmem⟩ := @ih [] hrest.symm (by omega)
          cases hmem
      | cons a' rest =>
        obtain ⟨rfl, -⟩ := List.cons.inj hrest
        have := h.block_eq.1 a (by simp [hactions])
        omega

end Turns

theorem map_fst_listenToEvents (l : Listener) (startBlock : Option ℤ) (polls : List Poll) :
    (listenToEvents l startBlock polls).map Prod.fst = polls := by
  induction polls generalizing startBlock with
  | nil => rfl
  | cons poll polls ih =>
    unfold listenToEvents
    rw [List.map_cons, ih]

/-- The listener handles every confirmed block in order, whatever it meets with: each poll is a turn
that takes the block after those passed so far, so that a confirmed block is handled, and stored
or tried again; the blocks passed are consecutive; and a block is stored before a handler sees a
later one. -/
theorem blocks_in_order (l : Listener) (startBlock : Option ℤ) (polls : List Poll) :
    let turns := listenToEvents l startBlock polls
    (∃ k : ℕ, turns.filterMap (fun t => succeeded l t.2) =
      (List.range k).map fun j : ℕ => firstBlock startBlock polls + j) ∧
    (turns.map Prod.fst = polls ∧ ∀ before poll actions after,
      turns = before ++ (poll, actions) :: after →
      Takes l (firstBlock startBlock polls +
        (before.filterMap fun t => succeeded l t.2).length) poll actions) ∧
    (∀ t ∈ turns, ∀ i block ok, .handleEvents i block ok ∈ t.2 →
      ∃ head, t.1.head = some head ∧ block + l.blockConfirmations ≤ head) ∧
    (∀ before block ok after, turns.flatMap Prod.snd = before ++ .storeBlock block ok :: after →
      allHandlers l block <:+ before ∧
        ∀ i block' ok', .handleEvents i block' ok' ∈ before → block' ≤ block) ∧
    ∀ before i block ok after,
      turns.flatMap Prod.snd = before ++ .handleEvents i block ok :: after →
      ∀ b, firstBlock startBlock polls ≤ b → b < block → ∃ ok', .storeBlock b ok' ∈ before := by
  have h := listens l startBlock polls
  refine ⟨h.succeeded_eq, ⟨map_fst_listenToEvents l startBlock polls, ?_⟩,
    fun t ht i block ok ha => h.confirmed t ht _ ha, ?_, ?_⟩
  · intro before poll actions after heq
    exact h.takes heq
  · intro before block ok after heq
    obtain ⟨hsuf, hle⟩ := h.storeBlock_order heq
    exact ⟨hsuf, fun i block' ok' ha => hle _ ha⟩
  · intro before i block ok after heq b hle hlt
    exact h.stored_before heq hle hlt

def twoHandlers : Listener := ⟨2, 3⟩

/-- Block 7 is confirmed at height 10; its second handler fails once, and a reorganisation comes
between. -/
def retriedPolls : List Poll :=
  [.bestBlockHashError, .block 9 (fun _ => true) true, .block 10 (· = 0) true,
    .block 9 (fun _ => true) true, .block 11 (fun _ => true) false, .block 11 (fun _ => true) true]

theorem blocks_in_order_retried :
    (listenToEvents twoHandlers (some 7) retriedPolls).flatMap Prod.snd =
      handlersUpTo 7 1 ++ (allHandlers twoHandlers 7 ++ [.storeBlock 7 false]) ++
        (allHandlers twoHandlers 8 ++ [.storeBlock 8 true]) ∧
    (∃ k : ℕ, (listenToEvents twoHandlers (some 7) retriedPolls).filterMap
      (fun t => succeeded twoHandlers t.2) = (List.range k).map fun j : ℕ => 7 + (j : ℤ)) ∧
    ∀ before i block ok after, (listenToEvents twoHandlers (some 7) retriedPolls).flatMap Prod.snd =
      before ++ .handleEvents i block ok :: after →
      ∀ b, 7 ≤ b → b < block → ∃ ok', .storeBlock b ok' ∈ before := by
  obtain ⟨horder, -, -, -, hstored⟩ := blocks_in_order twoHandlers (some 7) retriedPolls
  exact ⟨by decide, horder, hstored⟩

end Sygma.BtcListener
