import SygmaRelayer.Proofs.EvmMessageIds

/-! Session IDs of the EVM executor. A goroutine forms its session ID from the shared
loop variable, so it signs under its own number only if the loop has not moved on, and
two calls stay apart only if their message IDs differ. -/

namespace Sygma.Evm

open Runs
open Function (forall_update_iff)

variable {cfg : Config}

/-- The session ID a goroutine has formed and not yet given up. -/
def GoPc.session? : GoPc → Option String
  | .named sid | .checked sid | .signing sid => some sid
  | .idle | .spawned | .watching | .returned => none

/-- What holds of one call while the loop waits for its goroutines. -/
structure CallOk (pc : LoopPc) (go : ℕ → GoPc) : Prop where
  fresh : pc = .idle → ∀ k, go k = .idle
  quiet : pc = .returned → ∀ k, (go k).ended = true
  ids : ∀ d bs n, pc = .running d bs n →
    ∀ b ∈ bs, ∀ p ∈ b.proposals, p.messageID = d.feed.messageID
  turn : ∀ d bs n, pc = .running d bs n → ∀ k, n ≤ k → go k = .idle
  taken : ∀ d bs n, pc = .running d bs n → ∀ k, go k ≠ .idle →
    ∃ b, bs[k]? = some b ∧ b.proposals ≠ []
  spawned : ∀ d bs n, pc = .running d bs n → ∀ k, go k = .spawned → k + 1 = n
  named : ∀ d bs n, pc = .running d bs n → ∀ k sid, (go k).session? = some sid →
    sid = d.feed.messageID ++ "-" ++ k.repr

/-- The loop waits until its goroutines have formed their session IDs, and a call with the block
range of a call in flight has the same batches. -/
def Orderly (cfg : Config) (s : State) : Event → Prop
  | .iterate t => ∀ k, s.go t k ≠ .spawned
  | .execute _ d br => ∀ u d' bs n, s.loop u = .running d' bs n → d.feed.range = d'.feed.range →
      proposalBatches cfg br d.proposals = .ok bs
  | _ => True

/-- The calls in flight with one block range have the same batches. -/
def SameRangeSameBatches (loop : ℕ → LoopPc) : Prop :=
  ∀ t u d d' bs bs' n n', loop t = .running d bs n → loop u = .running d' bs' n' →
    d.feed.range = d'.feed.range → bs = bs'

structure Inv (s : State) : Prop where
  calls : ∀ t, CallOk (s.loop t) (s.go t)
  apart : SameRangeSameBatches s.loop

theorem inv_init : Inv init where
  calls _ := ⟨fun _ _ => rfl, fun _ _ => rfl, fun _ _ _ h => by simp [init] at h,
    fun _ _ _ h => by simp [init] at h, fun _ _ _ h => by simp [init] at h,
    fun _ _ _ h => by simp [init] at h, fun _ _ _ h => by simp [init] at h⟩
  apart _ _ _ _ _ _ _ _ h := by simp [init] at h

/-- The transitions of `step`, one constructor for each branch. -/
inductive Step (cfg : Config) (s : State) : Event → State → Prop
  | executeErr {t d br} (hl : s.loop t = .idle) : Step cfg s (.execute t d br) (s.setLoop t .returned)
  | execute {t d br bs} (hl : s.loop t = .idle) (hb : proposalBatches cfg br d.proposals = .ok bs) :
    Step cfg s (.execute t d br) (s.setLoop t (.running d bs 0))
  | skip {t d bs n} (hl : s.loop t = .running d bs n) :
    Step cfg s (.iterate t) (s.setLoop t (.running d bs (n + 1)))
  | spawn {t d bs n b} (hl : s.loop t = .running d bs n) (hb : bs[n]? = some b)
    (hne : b.proposals ≠ []) :
    Step cfg s (.iterate t) ((s.setGo t n .spawned).setLoop t (.running d bs (n + 1)))
  | fail {t k} (hg : (s.go t k).ended = false) : Step cfg s (.fail t k) (s.setGo t k .returned)
  | name {t k d bs n b} (hl : s.loop t = .running d bs n) (hg : s.go t k = .spawned)
    (hb : bs[k]? = some b) :
    Step cfg s (.name t k) (s.setGo t k (.named (b.messageID ++ "-" ++ (n - 1).repr)))
  | checkReject {t k sid} (hg : s.go t k = .named sid) :
    Step cfg s (.check t k) (s.setGo t k .returned)
  | check {t k sid} (hg : s.go t k = .named sid) : Step cfg s (.check t k) (s.setGo t k (.checked sid))
  | set {t k sid} (hg : s.go t k = .checked sid) :
    Step cfg s (.set t k) ((s.setPending sid true).setGo t k (.signing sid))
  | clear {t k sid} (hg : s.go t k = .signing sid) :
    Step cfg s (.clear t k) ((s.setPending sid false).setGo t k .watching)
  | watchEnd {t k} (hg : s.go t k = .watching) : Step cfg s (.watchEnd t k) (s.setGo t k .returned)
  | ret {t d bs n} (hl : s.loop t = .running d bs n) (hn : n = bs.length)
    (hk : ∀ k < bs.length, (s.go t k).ended = true) : Step cfg s (.ret t) (s.setLoop t .returned)

theorem step_cases {s s' : State} {e : Event} (h : step cfg s e = some s') : Step cfg s e s' := by
  cases e with
  | execute t d br =>
    simp only [step] at h
    split at h
    · split at h
      · cases h; exact .executeErr ‹_›
      · cases h; exact .execute ‹_› ‹_›
    · cases h
  | iterate t =>
    simp only [step] at h
    split at h
    · split at h
      · split_ifs at h with hne
        · cases h; exact .skip ‹_›
        · cases h; exact .spawn ‹_› ‹_› hne
      · cases h
    · cases h
  | fail t k =>
    simp only [step] at h
    split at h
    · rename_i hg
      cases h; exact .fail (by rw [hg]; rfl)
    · rename_i sid hg
      cases h; exact .fail (by rw [hg]; rfl)
    · cases h
  | name t k =>
    simp only [step] at h
    split at h
    · split at h
      · cases h; exact .name ‹_› ‹_› ‹_›
      · cases h
    · cases h
  | check t k =>
    simp only [step] at h
    split at h
    · split_ifs at h
      · cases h; exact .checkReject ‹_›
      · cases h; exact .check ‹_›
    · cases h
  | set t k =>
    simp only [step] at h
    split at h
    · cases h; exact .set ‹_›
    · cases h
  | clear t k =>
    simp only [step] at h
    split at h
    · cases h; exact .clear ‹_›
    · cases h
  | watchEnd t k =>
    simp only [step] at h
    split at h
    · cases h; exact .watchEnd ‹_›
    · cases h
  | ret t =>
    simp only [step] at h
    split at h
    · split_ifs at h with hret
      cases h
      exact .ret ‹_› hret.1 hret.2
    · cases h

namespace CallOk

variable {pc : LoopPc} {go : ℕ → GoPc} {k : ℕ} {v : GoPc}

theorem messageID_eq (h : CallOk pc go) {d : Delivery} {bs : List Batch} {n : ℕ} {b : Batch}
    (hpc : pc = .running d bs n) (hg : go k ≠ .idle) (hb : bs[k]? = some b) :
    b.messageID = d.feed.messageID := by
  obtain ⟨b', hb', hne⟩ := h.taken d bs n hpc k hg
  obtain rfl : b = b' := by simpa [hb] using hb'
  exact Batch.messageID_eq hne (h.ids d bs n hpc b (List.mem_of_getElem? hb))

theorem setGo (h : CallOk pc go) (hg : (go k).ended = false) (hv : v ≠ .spawned)
    (hsid : ∀ d bs n, pc = .running d bs n → ∀ sid, v.session? = some sid →
      sid = d.feed.messageID ++ "-" ++ k.repr) : CallOk pc (Function.update go k v) where
  fresh hpc := by
    rw [h.fresh hpc k] at hg
    cases hg
  quiet hpc := by
    rw [h.quiet hpc k] at hg
    cases hg
  ids := h.ids
  turn d bs n hpc := by
    refine (forall_update_iff go fun j v => n ≤ j → v = .idle).2
      ⟨fun hk => ?_, fun j _ => h.turn d bs n hpc j⟩
    rw [h.turn d bs n hpc k hk] at hg
    cases hg
  taken d bs n hpc := by
    refine (forall_update_iff go fun j v => v ≠ .idle → ∃ b, bs[j]? = some b ∧ b.proposals ≠ []).2
      ⟨fun _ => h.taken d bs n hpc k fun hidle => ?_, fun j _ => h.taken d bs n hpc j⟩
    rw [hidle] at hg
    cases hg
  spawned d bs n hpc := (forall_update_iff go fun j v => v = .spawned → j + 1 = n).2
    ⟨fun hs => absurd hs hv, fun j _ => h.spawned d bs n hpc j⟩
  named d bs n hpc := (forall_update_iff go fun j v => ∀ sid, v.session? = some sid →
    sid = d.feed.messageID ++ "-" ++ j.repr).2 ⟨hsid d bs n hpc, fun j _ => h.named d bs n hpc j⟩

theorem keepSession (h : CallOk pc go) {sid : String} (hg : (go k).session? = some sid)
    (hv : v.session? = some sid ∨ v.session? = none) (hvs : v ≠ .spawned) :
    CallOk pc (Function.update go k v) := by
  refine h.setGo ?_ hvs fun d bs n hpc sid' hsid' => ?_
  · cases hk : go k <;> simp_all [GoPc.session?, GoPc.ended]
  · refine h.named d bs n hpc k sid' ?_
    rcases hv with hv | hv
    · rw [hg, ← hv, hsid']
    · rw [hv] at hsid'
      cases hsid'

theorem start (h : CallOk .idle go) {d : Delivery} {bs : List Batch}
    (hids : ∀ b ∈ bs, ∀ p ∈ b.proposals, p.messageID = d.feed.messageID) :
    CallOk (.running d bs 0) go where
  fresh hpc := by cases hpc
  quiet hpc := by cases hpc
  ids _ _ _ hpc := by cases hpc; exact hids
  turn _ _ _ _ k _ := h.fresh rfl k
  taken _ _ _ _ k hk := absurd (h.fresh rfl k) hk
  spawned _ _ _ _ k hk := by rw [h.fresh rfl k] at hk; cases hk
  named _ _ _ _ k sid hk := by rw [h.fresh rfl k] at hk; cases hk

theorem returned (hended : ∀ k, (go k).ended = true) : CallOk .returned go where
  fresh hpc := by cases hpc
  quiet _ := hended
  ids _ _ _ hpc := by cases hpc
  turn _ _ _ hpc := by cases hpc
  taken _ _ _ hpc := by cases hpc
  spawned _ _ _ hpc := by cases hpc
  named _ _ _ hpc := by cases hpc

theorem skip {d : Delivery} {bs : List Batch} {n : ℕ} (h : CallOk (.running d bs n) go)
    (hno : ∀ k, go k ≠ .spawned) : CallOk (.running d bs (n + 1)) go where
  fresh hpc := by cases hpc
  quiet hpc := by cases hpc
  ids _ _ _ hpc := by cases hpc; exact h.ids d bs n rfl
  turn _ _ _ hpc k hk := by cases hpc; exact h.turn d bs n rfl k (by omega)
  taken _ _ _ hpc k hk := by cases hpc; exact h.taken d bs n rfl k hk
  spawned _ _ _ _ k hk := absurd hk (hno k)
  named _ _ _ hpc k sid hk := by cases hpc; exact h.named d bs n rfl k sid hk

theorem spawn {d : Delivery} {bs : List Batch} {n : ℕ} {b : Batch}
    (h : CallOk (.running d bs n) go) (hno : ∀ k, go k ≠ .spawned) (hb : bs[n]? = some b)
    (hne : b.proposals ≠ []) :
    CallOk (.running d bs (n + 1)) (Function.update go n .spawned) where
  fresh hpc := by cases hpc
  quiet hpc := by cases hpc
  ids _ _ _ hpc := by cases hpc; exact h.ids d bs n rfl
  turn _ _ _ hpc := by
    cases hpc
    exact (forall_update_iff go fun k v => n + 1 ≤ k → v = .idle).2
      ⟨fun hk => by omega, fun k _ hk => h.turn d bs n rfl k (by omega)⟩
  taken _ _ _ hpc := by
    cases hpc
    exact (forall_update_iff go fun k v => v ≠ .idle → ∃ b, bs[k]? = some b ∧ b.proposals ≠ []).2
      ⟨fun _ => ⟨b, hb, hne⟩, fun k _ => h.taken d bs n rfl k⟩
  spawned _ _ _ hpc := by
    cases hpc
    exact (forall_update_iff go fun k v => v = .spawned → k + 1 = n + 1).2
      ⟨fun _ => rfl, fun k _ hk => absurd hk (hno k)⟩
  named _ _ _ hpc := by
    cases hpc
    exact (forall_update_iff go fun k v => ∀ sid, v.session? = some sid →
      sid = d.feed.messageID ++ "-" ++ k.repr).2 ⟨nofun, fun k _ => h.named d bs n rfl k⟩

end CallOk

section Frame

variable {s : State} {t : ℕ} {pc : LoopPc} {go : ℕ → GoPc}

theorem callOk_update (h : Inv s) (hok : CallOk pc go) (u : ℕ) :
    CallOk (Function.update s.loop t pc u) (Function.update s.go t go u) := by
  by_cases hu : u = t
  · subst hu
    simpa using hok
  · simpa [Function.update_of_ne hu] using h.calls u

theorem callOk_setLoop (h : Inv s) (hok : CallOk pc (s.go t)) (u : ℕ) :
    CallOk (Function.update s.loop t pc u) (s.go u) := by
  simpa using callOk_update (t := t) h hok u

theorem callOk_setGo (h : Inv s) (hok : CallOk (s.loop t) go) (u : ℕ) :
    CallOk (s.loop u) (Function.update s.go t go u) := by
  simpa using callOk_update (t := t) h hok u

end Frame

theorem calls_step {s s' : State} {e : Event} (h : Inv s) (hG : Orderly cfg s e)
    (hs : Step cfg s e s') : ∀ t, CallOk (s'.loop t) (s'.go t) := by
  cases hs with
  | @executeErr t d br hl =>
    refine callOk_setLoop h (.returned fun k => ?_)
    rw [(h.calls t).fresh hl k]
    rfl
  | @execute t d br bs hl hb =>
    refine callOk_setLoop h (CallOk.start ?_ (messageID_of_delivery hb))
    have := h.calls t
    rwa [hl] at this
  | @skip t d bs n hl =>
    have := h.calls t
    rw [hl] at this
    exact callOk_setLoop h (this.skip hG)
  | @spawn t d bs n b hl hb hne =>
    have := h.calls t
    rw [hl] at this
    exact callOk_update h (this.spawn hG hb hne)
  | @fail t k hg => exact callOk_setGo h ((h.calls t).setGo hg (by simp) (by simp [GoPc.session?]))
  | @name t k d bs n b hl hg hb =>
    refine callOk_setGo h ((h.calls t).setGo (by rw [hg]; rfl) (by simp) ?_)
    rintro d' bs' n' hrun sid ⟨⟩
    rw [hl] at hrun
    cases hrun
    -- the loop has not moved since the goroutine was started
    rw [(h.calls t).messageID_eq hl (by simp [hg]) hb, ← (h.calls t).spawned d bs n hl k hg]
    rfl
  | @checkReject t k sid hg =>
    exact callOk_setGo h ((h.calls t).keepSession (by rw [hg]; rfl) (Or.inr rfl) (by simp))
  | @check t k sid hg =>
    exact callOk_setGo h ((h.calls t).keepSession (by rw [hg]; rfl) (Or.inl rfl) (by simp))
  | @set t k sid hg =>
    exact callOk_setGo h ((h.calls t).keepSession (by rw [hg]; rfl) (Or.inl rfl) (by simp))
  | @clear t k sid hg =>
    exact callOk_setGo h ((h.calls t).keepSession (by rw [hg]; rfl) (Or.inr rfl) (by simp))
  | @watchEnd t k hg =>
    exact callOk_setGo h ((h.calls t).setGo (by rw [hg]; rfl) (by simp) (by simp [GoPc.session?]))
  | @ret t d bs n hl hn hk =>
    refine callOk_setLoop h (.returned fun k => ?_)
    by_cases hlt : k < bs.length
    · exact hk k hlt
    · rw [(h.calls t).turn d bs n hl k (by omega)]
      rfl

theorem SameRangeSameBatches.setLoop {loop : ℕ → LoopPc} (h : SameRangeSameBatches loop) {t : ℕ}
    {pc : LoopPc} (hnew : ∀ d bs n, pc = .running d bs n →
      ∀ u, u ≠ t → ∀ d' bs' n', loop u = .running d' bs' n' → d.feed.range = d'.feed.range → bs = bs') :
    SameRangeSameBatches (Function.update loop t pc) := by
  intro v u d d' bs bs' n n' hv hu hr
  by_cases hvt : v = t <;> by_cases hut : u = t
  · subst hvt hut
    rw [hv] at hu
    cases hu
    rfl
  · subst hvt
    rw [Function.update_self] at hv
    rw [Function.update_of_ne hut] at hu
    exact hnew d bs n hv u hut d' bs' n' hu hr
  · subst hut
    rw [Function.update_self] at hu
    rw [Function.update_of_ne hvt] at hv
    exact (hnew d' bs' n' hu v hvt d bs n hv hr.symm).symm
  · rw [Function.update_of_ne hvt] at hv
    rw [Function.update_of_ne hut] at hu
    exact h v u d d' bs bs' n n' hv hu hr

theorem apart_step {s s' : State} {e : Event} (h : Inv s) (hG : Orderly cfg s e)
    (hs : Step cfg s e s') : SameRangeSameBatches s'.loop := by
  cases hs with
  | executeErr hl | ret hl hn hk => exact h.apart.setLoop fun _ _ _ he => by cases he
  | execute hl hb =>
    refine h.apart.setLoop ?_
    rintro _ _ _ ⟨⟩ u - d' bs' n' hu hr
    have := hG u d' bs' n' hu hr
    rw [hb] at this
    exact Except.ok.inj this
  | @skip t d bs n hl | @spawn t d bs n b hl hb hne =>
    refine h.apart.setLoop ?_
    rintro _ _ _ ⟨⟩ u - d' bs' n' hu hr
    exact h.apart t u d d' bs bs' n n' hl hu hr
  | fail hg | name hl hg hb | checkReject hg | check hg | set hg | clear hg | watchEnd hg =>
    exact h.apart

theorem inv_step {s s' : State} {e : Event} (h : Inv s) (hG : Orderly cfg s e)
    (hs : step cfg s e = some s') : Inv s' :=
  ⟨calls_step h hG (step_cases hs), apart_step h hG (step_cases hs)⟩

/-- Batches are signed under their own number, and different batches under different sessions. -/
structure OwnSessions (s : State) : Prop where
  ownNumber : ∀ t k sid b, Signs s t k sid b → sid = b.messageID ++ "-" ++ k.repr
  apart : ∀ t k sid b t' k' b', Signs s t k sid b → Signs s t' k' sid b' →
    b.proposals = b'.proposals

theorem Inv.signs {s : State} (h : Inv s) {t k : ℕ} {sid : String} {b : Batch}
    (hs : Signs s t k sid b) : ∃ d bs n, s.loop t = .running d bs n ∧ bs[k]? = some b ∧
      b.messageID = d.feed.messageID ∧ sid = d.feed.messageID ++ "-" ++ k.repr := by
  obtain ⟨d, bs, n, hl, hb, hg⟩ := hs
  exact ⟨d, bs, n, hl, hb, (h.calls t).messageID_eq hl (by simp [hg]) hb,
    (h.calls t).named d bs n hl k sid (by rw [hg]; rfl)⟩

theorem Inv.ownSessions {s : State} (h : Inv s) : OwnSessions s where
  ownNumber t k sid b hs := by
    obtain ⟨d, bs, n, -, -, hm, hsid⟩ := h.signs hs
    rw [hm, hsid]
  apart t k sid b t' k' b' hs hs' := by
    obtain ⟨d, bs, n, hl, hb, -, rfl⟩ := h.signs hs
    obtain ⟨d', bs', n', hl', hb', -, he⟩ := h.signs hs'
    obtain ⟨hm, rfl⟩ := sessionID_inj he
    obtain rfl := h.apart t t' d d' bs bs' n n' hl hl' (range_eq_of_messageID_eq hm)
    obtain rfl : b = b' := by simpa [hb] using hb'
    rfl

/-- Every run that meets the condition keeps the sessions of its batches apart. -/
theorem own_sessions {es : List Event} {s : State} (hG : Along (step cfg) (Orderly cfg) init es)
    (h : exec (step cfg) init es = some s) : OwnSessions s :=
  (exec_inv (fun _ _ _ => inv_step) inv_init hG h).ownSessions

/-- Two transfers fill a batch. -/
def smallGas : Config := ⟨100, 60⟩

/-- Nothing is executed yet. -/
def noneExecuted : Bridge := fun _ => .ok false

def transfer (nonce : UInt64) (resource : ResourceID) (messageID : String) : TransferProposal :=
  ⟨1, 2, ⟨nonce, resource, none, []⟩, messageID⟩

/-- Two deposits that make two batches. -/
def twoDeposits : Delivery :=
  ⟨.deposits 1 2 100 104, [transfer 1 7 "1-2-100-104", transfer 2 8 "1-2-100-104"], by decide⟩

def inOrder : List Event :=
  [.execute 0 twoDeposits noneExecuted, .iterate 0, .name 0 0, .iterate 0, .name 0 1, .check 0 0,
    .check 0 1, .set 0 0, .set 0 1]

theorem orderly_inOrder : Along (step smallGas) (Orderly smallGas) init inOrder := by
  refine (along_cons rfl).2 ⟨?_, (along_cons rfl).2 ⟨?_, (along_cons rfl).2 ⟨trivial,
    (along_cons rfl).2 ⟨?_, along_of_forall_mem ?_⟩⟩⟩⟩
  · intro u d' bs n hu
    cases hu
  · intro k hk
    cases hk
  · intro k hk
    by_cases h0 : k = 0
    · subst h0
      cases hk
    · simp [init, h0] at hk
  · intro e he s
    simp only [List.mem_cons, List.not_mem_nil, or_false] at he
    rcases he with rfl | rfl | rfl | rfl | rfl <;> trivial

theorem own_sessions_inOrder :
    ∃ s b b', exec (step smallGas) init inOrder = some s ∧ OwnSessions s ∧
      Signs s 0 0 "1-2-100-104-0" b ∧ Signs s 0 1 "1-2-100-104-1" b' :=
  ⟨_, _, _, rfl, @own_sessions smallGas inOrder _ orderly_inOrder rfl,
    ⟨_, _, _, rfl, rfl, rfl⟩, ⟨_, _, _, rfl, rfl, rfl⟩⟩

def retryOf (resource : ResourceID) : Delivery :=
  ⟨.retryV2 1 2 100 resource, [transfer 1 resource "1-2-100-100"], by
    have hid : "1-2-100-100" = depositMessageID 1 2 100 100 := by decide
    intro p hp
    obtain rfl : p = transfer 1 resource "1-2-100-100" := by simpa using hp
    exact ⟨hid, rfl, rfl, Or.inr rfl⟩⟩

/-- The loop moves on before its first goroutine has formed its session ID: both batches are
signed under number 1. And two resources are retried at one height: both calls sign under one
session. -/
theorem batches_share_session :
    (∃ s b b', exec (step smallGas) init [.execute 0 twoDeposits noneExecuted, .iterate 0,
        .iterate 0, .name 0 0, .name 0 1, .check 0 0, .check 0 1, .set 0 0, .set 0 1] = some s ∧
      Signs s 0 0 "1-2-100-104-1" b ∧ Signs s 0 1 "1-2-100-104-1" b' ∧
      b.proposals ≠ b'.proposals) ∧
    (∃ s b b', exec (step smallGas) init [.execute 0 (retryOf 7) noneExecuted,
        .execute 1 (retryOf 8) noneExecuted, .iterate 0, .iterate 1, .name 0 0, .name 1 0,
        .check 0 0, .check 1 0, .set 0 0, .set 1 0] = some s ∧
      Signs s 0 0 "1-2-100-100-0" b ∧ Signs s 1 0 "1-2-100-100-0" b' ∧
      b.proposals ≠ b'.proposals) :=
  ⟨⟨_, _, _, rfl, ⟨_, _, _, rfl, rfl, rfl⟩, ⟨_, _, _, rfl, rfl, rfl⟩, by decide⟩,
    ⟨_, _, _, rfl, ⟨_, _, _, rfl, rfl, rfl⟩, ⟨_, _, _, rfl, rfl, rfl⟩, by decide⟩⟩

end Sygma.Evm
