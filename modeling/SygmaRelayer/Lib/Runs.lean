import Mathlib.Data.List.Induction
import Mathlib.Tactic.Common

/-! Runs of a partial step function. A system is a function
`step : σ → ε → Option σ`: the event names who moves and what the environment
answers, and `none` says that the event is not enabled. Safety of every
interleaving is then a statement about every list of events. -/

namespace Runs

variable {σ ε : Type*} {step : σ → ε → Option σ}

/-- The state after the events, `none` once one of them is not enabled. -/
def exec (step : σ → ε → Option σ) : σ → List ε → Option σ
  | s, [] => some s
  | s, e :: es => (step s e).bind fun s' => exec step s' es

/-- Every event of the run meets `G` in the state it is taken from. -/
def Along (step : σ → ε → Option σ) (G : σ → ε → Prop) : σ → List ε → Prop
  | _, [] => True
  | s, e :: es => G s e ∧ ∀ s', step s e = some s' → Along step G s' es

instance Along.decidable {G : σ → ε → Prop} [∀ s e, Decidable (G s e)] :
    ∀ (s : σ) (es : List ε), Decidable (Along step G s es)
  | _, [] => isTrue trivial
  | s, e :: es =>
    match h : step s e with
    | none => decidable_of_iff (G s e) (by simp [Along, h])
    | some m =>
      have := Along.decidable (G := G) m es
      decidable_of_iff (G s e ∧ Along step G m es) (by simp [Along, h])

@[simp] theorem exec_nil (s : σ) : exec step s [] = some s := rfl

theorem exec_cons {s s' : σ} {e : ε} {es : List ε} :
    exec step s (e :: es) = some s' ↔ ∃ m, step s e = some m ∧ exec step m es = some s' := by
  simp [exec, Option.bind_eq_some_iff]

theorem exec_append {s m s' : σ} {es es' : List ε} (h : exec step s es = some m)
    (h' : exec step m es' = some s') : exec step s (es ++ es') = some s' := by
  induction es generalizing s with
  | nil =>
    obtain rfl : s = m := by simpa using h
    exact h'
  | cons e es ih =>
    obtain ⟨n, hn, h⟩ := exec_cons.1 h
    exact exec_cons.2 ⟨n, hn, ih h⟩

/-- An event of a run is taken from the state that the events before it have led to. -/
theorem exec_of_mem {s s' : σ} {e : ε} {es : List ε} (h : exec step s es = some s') (he : e ∈ es) :
    ∃ pre post m n, es = pre ++ e :: post ∧ exec step s pre = some m ∧ step m e = some n ∧
      exec step n post = some s' := by
  induction es generalizing s with
  | nil => cases he
  | cons e' es ih =>
    obtain ⟨n, hn, hes⟩ := exec_cons.1 h
    rcases List.mem_cons.1 he with rfl | he
    · exact ⟨[], es, s, n, rfl, rfl, hn, hes⟩
    · obtain ⟨pre, post, m, n', rfl, hpre, hrest⟩ := ih hes he
      exact ⟨e' :: pre, post, m, n', rfl, exec_cons.2 ⟨n, hn, hpre⟩, hrest⟩

theorem along_cons {G : σ → ε → Prop} {s m : σ} {e : ε} {es : List ε} (hm : step s e = some m) :
    Along step G s (e :: es) ↔ G s e ∧ Along step G m es := by
  simp [Along, hm]

theorem along_append {G : σ → ε → Prop} {s m : σ} {es es' : List ε}
    (hm : exec step s es = some m) :
    Along step G s (es ++ es') ↔ Along step G s es ∧ Along step G m es' := by
  induction es generalizing s with
  | nil =>
    obtain rfl : s = m := by simpa using hm
    simp [Along]
  | cons e es ih =>
    obtain ⟨n, hn, h⟩ := exec_cons.1 hm
    rw [List.cons_append, along_cons hn, along_cons hn, ih h, and_assoc]

theorem Along.imp {G G' : σ → ε → Prop} (hG : ∀ s e, G s e → G' s e) {s : σ} {es : List ε}
    (h : Along step G s es) : Along step G' s es := by
  induction es generalizing s with
  | nil => trivial
  | cons e es ih => exact ⟨hG s e h.1, fun s' hs' => ih (h.2 s' hs')⟩

theorem along_of_forall_mem {G : σ → ε → Prop} {s : σ} {es : List ε}
    (h : ∀ e ∈ es, ∀ s, G s e) : Along step G s es := by
  induction es generalizing s with
  | nil => trivial
  | cons e es ih =>
    exact ⟨h e List.mem_cons_self s, fun _ _ => ih fun e' he' => h e' (List.mem_cons_of_mem e he')⟩

theorem along_true {s : σ} {es : List ε} : Along step (fun _ _ => True) s es :=
  along_of_forall_mem fun _ _ _ => trivial

/-- The invariant rule: what every step meeting `G` preserves holds after the run. -/
theorem exec_inv {G : σ → ε → Prop} {I : σ → Prop}
    (hstep : ∀ s e s', I s → G s e → step s e = some s' → I s')
    {s s' : σ} {es : List ε} (hs : I s) (hG : Along step G s es)
    (h : exec step s es = some s') : I s' := by
  induction es generalizing s with
  | nil => obtain rfl : s = s' := by simpa using h
           exact hs
  | cons e es ih =>
    obtain ⟨m, hm, h⟩ := exec_cons.1 h
    exact ih (hstep s e m hs hG.1 hm) (hG.2 m hm) h

/-- The invariant rule for what every step preserves. -/
theorem exec_preserves {I : σ → Prop} (hstep : ∀ s e s', I s → step s e = some s' → I s')
    {s s' : σ} {es : List ε} (hs : I s) (h : exec step s es = some s') : I s' :=
  exec_inv (fun s e s' hi _ hs => hstep s e s' hi hs) hs along_true h

/-- The invariant rule for what is said of a state and of the events that led to it. -/
theorem exec_history {G : σ → ε → Prop} {I : List ε → σ → Prop}
    (hstep : ∀ past s e s', I past s → G s e → step s e = some s' → I (past ++ [e]) s')
    {s s' : σ} {past es : List ε} (hs : I past s) (hG : Along step G s es)
    (h : exec step s es = some s') : I (past ++ es) s' := by
  induction es generalizing s past with
  | nil =>
    obtain rfl : s = s' := by simpa using h
    simpa using hs
  | cons e es ih =>
    obtain ⟨m, hm, h⟩ := exec_cons.1 h
    simpa using ih (hstep past s e m hs hG.1 hm) (hG.2 m hm) h

/-- What does not hold at the start and holds in the end comes about at some event. -/
theorem exists_first {P : List ε → Prop} {es : List ε} (h0 : ¬ P []) (h : P es) :
    ∃ pre e post, es = pre ++ e :: post ∧ ¬ P pre ∧ P (pre ++ [e]) := by
  induction es using List.reverseRecOn with
  | nil => exact absurd h h0
  | append_singleton es e ih =>
    by_cases hes : P es
    · obtain ⟨pre, e', post, rfl, hpre, hfirst⟩ := ih hes
      exact ⟨pre, e', post ++ [e], by simp, hpre, hfirst⟩
    · exact ⟨es, e, [], rfl, hes, h⟩

section Outputs

variable {α β : Type*} {out : σ → ε → List α}

/-- What the events of a run put out, each in the state it is taken from. -/
def outputs (step : σ → ε → Option σ) (out : σ → ε → List α) : σ → List ε → List α
  | _, [] => []
  | s, e :: es => out s e ++ ((step s e).map fun s' => outputs step out s' es).getD []

theorem outputs_cons {s m : σ} {e : ε} (hm : step s e = some m) (es : List ε) :
    outputs step out s (e :: es) = out s e ++ outputs step out m es := by
  simp [outputs, hm]

/-- A value that every step folds its output into has folded in the output of the run. -/
theorem exec_foldl {I : σ → Prop} {G : ε → Prop} {Q : α → Prop} {f : σ → β} {g : β → α → β}
    (hI : ∀ s e s', I s → step s e = some s' → I s')
    (hf : ∀ s e s', I s → G e → (∀ a ∈ out s e, Q a) → step s e = some s' →
      f s' = (out s e).foldl g (f s))
    {s s' : σ} {es : List ε} (hs : I s) (hG : ∀ e ∈ es, G e)
    (hQ : ∀ a ∈ outputs step out s es, Q a) (h : exec step s es = some s') :
    f s' = (outputs step out s es).foldl g (f s) := by
  induction es generalizing s with
  | nil =>
    obtain rfl : s = s' := by simpa using h
    rfl
  | cons e es ih =>
    obtain ⟨m, hm, h⟩ := exec_cons.1 h
    rw [outputs_cons hm] at hQ ⊢
    obtain ⟨hQe, hQes⟩ := List.forall_mem_append.1 hQ
    rw [List.foldl_append, ← hf s e m hs (hG e List.mem_cons_self) hQe hm]
    exact ih (hI s e m hs hm) (fun e' he' => hG e' (List.mem_cons_of_mem e he')) hQes h

/-- The invariant rule for what is said of a state and of what the run has put out. -/
theorem outputs_inv {G : σ → ε → Prop} {I : List α → σ → Prop}
    (hstep : ∀ past s e s', I past s → G s e → step s e = some s' → I (past ++ out s e) s')
    {s s' : σ} {past : List α} {es : List ε} (hs : I past s) (hG : Along step G s es)
    (h : exec step s es = some s') : I (past ++ outputs step out s es) s' := by
  induction es generalizing s past with
  | nil =>
    obtain rfl : s = s' := by simpa using h
    simpa [outputs] using hs
  | cons e es ih =>
    obtain ⟨m, hm, h⟩ := exec_cons.1 h
    rw [outputs_cons hm, ← List.append_assoc]
    exact ih (hstep past s e m hs hG.1 hm) (hG.2 m hm) h

theorem mem_outputs_iff {s s' : σ} {es : List ε} (h : exec step s es = some s') {a : α} :
    a ∈ outputs step out s es ↔ ∃ pre e post m n, es = pre ++ e :: post ∧
      exec step s pre = some m ∧ step m e = some n ∧ exec step n post = some s' ∧ a ∈ out m e := by
  induction es generalizing s with
  | nil => simp [outputs]
  | cons e es ih =>
    obtain ⟨n, hn, h⟩ := exec_cons.1 h
    rw [outputs_cons hn, List.mem_append, ih h]
    constructor
    · rintro (ha | ⟨pre, e', post, m, n', rfl, hpre, hrest⟩)
      · exact ⟨[], e, es, s, n, rfl, rfl, hn, h, ha⟩
      · exact ⟨e :: pre, e', post, m, n', rfl, exec_cons.2 ⟨n, hn, hpre⟩, hrest⟩
    · rintro ⟨pre, e', post, m, n', hes, hpre, hstep, hpost, ha⟩
      cases pre with
      | nil =>
        obtain ⟨rfl, rfl⟩ := List.cons.inj hes
        obtain rfl : s = m := by simpa using hpre
        exact .inl ha
      | cons e'' pre =>
        obtain ⟨rfl, rfl⟩ := List.cons.inj hes
        obtain ⟨k, hk, hpre⟩ := exec_cons.1 hpre
        obtain rfl := Option.some.inj (hn.symm.trans hk)
        exact .inr ⟨pre, e', post, m, n', rfl, hpre, hstep, hpost, ha⟩

section Refinement

variable {τ : Type*} {step' : τ → α → Option τ} {f : σ → τ}

/-- If each step is a run of another machine, a run is one of that machine. -/
theorem exec_outputs
    (hsim : ∀ s e s', step s e = some s' → exec step' (f s) (out s e) = some (f s'))
    {s s' : σ} {es : List ε} (h : exec step s es = some s') :
    exec step' (f s) (outputs step out s es) = some (f s') := by
  induction es generalizing s with
  | nil =>
    obtain rfl : s = s' := by simpa using h
    rfl
  | cons e es ih =>
    obtain ⟨m, hm, h⟩ := exec_cons.1 h
    rw [outputs_cons hm]
    exact exec_append (hsim s e m hm) (ih h)

theorem along_outputs {G : τ → α → Prop}
    (hsim : ∀ s e s', step s e = some s' → exec step' (f s) (out s e) = some (f s'))
    {s s' : σ} {es : List ε} (h : exec step s es = some s')
    (hG : Along step (fun s e => Along step' G (f s) (out s e)) s es) :
    Along step' G (f s) (outputs step out s es) := by
  induction es generalizing s with
  | nil => trivial
  | cons e es ih =>
    obtain ⟨m, hm, h⟩ := exec_cons.1 h
    rw [outputs_cons hm, along_append (hsim s e m hm)]
    exact ⟨hG.1, ih h (hG.2 m hm)⟩

end Refinement

end Outputs

/-- If from every state of an invariant `P` survives exactly the steps that meet `G`, it survives
exactly the runs that meet `G` along the way. -/
theorem exec_iff_along {G : σ → ε → Prop} {I P : σ → Prop}
    (hI : ∀ s e s', I s → step s e = some s' → I s')
    (hP : ∀ s e s', I s → step s e = some s' → (P s' ↔ P s ∧ G s e))
    {s s' : σ} {es : List ε} (hs : I s) (h : exec step s es = some s') :
    P s' ↔ P s ∧ Along step G s es := by
  induction es generalizing s with
  | nil =>
    obtain rfl : s = s' := by simpa using h
    simp [Along]
  | cons e es ih =>
    obtain ⟨m, hm, h⟩ := exec_cons.1 h
    rw [ih (hI s e m hs hm) h, hP s e m hs hm, along_cons hm, and_assoc]

/-- `P` holds in every state of the run. -/
def Throughout (step : σ → ε → Option σ) (P : σ → Prop) (s : σ) (es : List ε) : Prop :=
  ∀ pre m, pre <+: es → exec step s pre = some m → P m

theorem throughout_cons {P : σ → Prop} {s : σ} {e : ε} {es : List ε} :
    Throughout step P s (e :: es) ↔ P s ∧ ∀ m, step s e = some m → Throughout step P m es := by
  constructor
  · intro h
    refine ⟨h [] s List.nil_prefix rfl, fun m hm pre n hpre hn => ?_⟩
    exact h (e :: pre) n ((List.prefix_cons_inj e).2 hpre) (exec_cons.2 ⟨m, hm, hn⟩)
  · rintro ⟨hs, h⟩ pre n hpre hn
    cases pre with
    | nil => exact (Option.some.inj hn) ▸ hs
    | cons a pre =>
      obtain ⟨rfl, hpre'⟩ := List.cons_prefix_cons.1 hpre
      obtain ⟨m, hm, hn⟩ := exec_cons.1 hn
      exact h m hm pre n hpre' hn

/-- `G` is exactly what each step has to meet for `P` to hold throughout a run, if it is so from
every state that satisfies the invariant `I`. -/
theorem throughout_iff_along {G : σ → ε → Prop} {I P : σ → Prop} (hP : ∀ s, I s → P s)
    (hnec : ∀ s e s', I s → step s e = some s' → P s' → G s e)
    (hstep : ∀ s e s', I s → G s e → step s e = some s' → I s')
    (hen : ∀ s e, step s e = none → G s e) {s : σ} {es : List ε} (hs : I s) :
    Throughout step P s es ↔ Along step G s es := by
  induction es generalizing s with
  | nil =>
    refine ⟨fun _ => trivial, fun _ pre m hpre hm => ?_⟩
    obtain rfl := List.prefix_nil.1 hpre
    exact (Option.some.inj hm) ▸ hP s hs
  | cons e es ih =>
    rw [throughout_cons]
    cases he : step s e with
    | none => simp [Along, he, hP s hs, hen s e he]
    | some m =>
      rw [along_cons he]
      constructor
      · rintro ⟨-, h⟩
        have hm := h m rfl
        have hG := hnec s e m hs he (hm [] m List.nil_prefix rfl)
        exact ⟨hG, (ih (hstep s e m hs hG he)).1 hm⟩
      · rintro ⟨hG, h⟩
        refine ⟨hP s hs, fun m' hm' => ?_⟩
        obtain rfl := Option.some.inj hm'
        exact (ih (hstep s e m hs hG he)).2 h

/-- Some run from `s` ends in a state of `P`. -/
def Reaches (step : σ → ε → Option σ) (s : σ) (P : σ → Prop) : Prop :=
  ∃ es s', exec step s es = some s' ∧ P s'

section Reaches

variable {P Q : σ → Prop} {s m : σ} {e : ε}

theorem Reaches.refl (h : P s) : Reaches step s P := ⟨[], s, rfl, h⟩

theorem Reaches.single (hstep : step s e = some m) (h : P m) : Reaches step s P :=
  ⟨[e], m, exec_cons.2 ⟨m, hstep, rfl⟩, h⟩

theorem Reaches.trans (h : Reaches step s P) (h' : ∀ m, P m → Reaches step m Q) :
    Reaches step s Q := by
  obtain ⟨es, m, hm, hP⟩ := h
  obtain ⟨es', s', hs', hQ⟩ := h' m hP
  exact ⟨es ++ es', s', exec_append hm hs', hQ⟩

/-- Goals that can be reached one at a time, without giving up those reached before, can all be
reached. -/
theorem reaches_all {ι : Type*} {I : σ → Prop} {Done : ι → σ → Prop}
    (h : ∀ i s, I s → Reaches step s fun s' => I s' ∧ Done i s' ∧ ∀ j, Done j s → Done j s')
    (l : List ι) (hs : I s) : Reaches step s fun s' => I s' ∧ ∀ i ∈ l, Done i s' := by
  induction l generalizing s with
  | nil => exact .refl ⟨hs, by simp⟩
  | cons i l ih =>
    refine (ih hs).trans fun m hm => ?_
    refine (h i m hm.1).trans fun n hn => .refl ⟨hn.1, fun j hj => ?_⟩
    rcases List.mem_cons.1 hj with rfl | hj
    · exact hn.2.1
    · exact hn.2.2 j (hm.2 j hj)

end Reaches

end Runs
