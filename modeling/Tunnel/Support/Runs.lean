import Mathlib.Data.List.Basic

/-!
# Support — Runs

Runs of a labelled transition relation, and the rules that carry a fact from one step to a whole
run.

* `Run.invariant`, `Reachable.invariant`: a fact every step keeps holds wherever a run arrives; with
  `Run.invariant_of_labels`, one that every step with such a label keeps.
* `Run.reaches_of_rank`: enough steps that lower a rank lead to the goal.
* `Run.mono_of_invariant`: a run of one relation is a run of another, where an invariant of the
  first makes each of its steps a step of the second.
* `Run.lift`: a run of states that carry more, beside one of those that do not.
* `Run.of_allAlong`: labels that each pass a test, at the state they come to, make a run.
* `Run.guarded_congr`, `Run.keeping_iff_guarded`: the runs whose steps all meet a condition, compared
  with those that meet another, and with those all of whose states have a property.
-/

namespace Support

variable {σ ε : Type} {step step' : σ → ε → σ → Prop}

/-- `Run step s es s'`: the labels `es`, in order, lead from `s` to `s'`. -/
inductive Run (step : σ → ε → σ → Prop) : σ → List ε → σ → Prop where
  | refl (s : σ) : Run step s [] s
  | more {s s₁ s' : σ} {e : ε} {es : List ε}
      (h : step s e s₁) (t : Run step s₁ es s') : Run step s (e :: es) s'

theorem Run.one {s s' : σ} {e : ε} (h : step s e s') : Run step s [e] s' := .more h (.refl _)

theorem Run.trans {s s₁ s' : σ} {es fs : List ε}
    (h₁ : Run step s es s₁) (h₂ : Run step s₁ fs s') : Run step s (es ++ fs) s' := by
  induction h₁ with
  | refl => exact h₂
  | more h _ ih => exact .more h (ih h₂)

/-- A run of more than its first labels passes through a state between. -/
theorem Run.split {s s' : σ} {es fs : List ε} (h : Run step s (es ++ fs) s') :
    ∃ s₁, Run step s es s₁ ∧ Run step s₁ fs s' := by
  induction es generalizing s with
  | nil => exact ⟨s, .refl s, h⟩
  | cons e es ih =>
      cases h with
      | more h t =>
          obtain ⟨s₁, h₁, h₂⟩ := ih t
          exact ⟨s₁, .more h h₁, h₂⟩

/-- The labels of a run and the state it starts from say where it arrives, if a step's do. -/
theorem Run.deterministic (hstep : ∀ s e s₁ s₂, step s e s₁ → step s e s₂ → s₁ = s₂)
    {s s₁ s₂ : σ} {es : List ε} (h₁ : Run step s es s₁) (h₂ : Run step s es s₂) : s₁ = s₂ := by
  induction h₁ with
  | refl => cases h₂; rfl
  | more h _ ih =>
      cases h₂ with
      | more h' t' =>
          cases hstep _ _ _ _ h h'
          exact ih t'

/-- What every step keeps, a run keeps. -/
theorem Run.invariant {I : σ → Prop} (hstep : ∀ s e s', I s → step s e s' → I s')
    {s s' : σ} {es : List ε} (h : Run step s es s') (hs : I s) : I s' := by
  induction h with
  | refl => exact hs
  | more h _ ih => exact ih (hstep _ _ _ hs h)

/-- What every step with such a label keeps, a run of such labels keeps. -/
theorem Run.invariant_of_labels {I : σ → Prop} {L : ε → Prop}
    (hstep : ∀ s e s', I s → L e → step s e s' → I s')
    {s s' : σ} {es : List ε} (h : Run step s es s') (hl : ∀ e ∈ es, L e) (hs : I s) : I s' := by
  induction h with
  | refl => exact hs
  | more h _ ih =>
      obtain ⟨he, hes⟩ := List.forall_mem_cons.mp hl
      exact ih hes (hstep _ _ _ hs he h)

/-- Until they are at the goal, the steps of `own` lower the rank, and no other raises it: what is left
of it after a run, with the steps of `own` in the run, is what there was. -/
theorem Run.reaches_of_rank {I G : σ → Prop} {L : ε → Prop} (own : ε → Bool) (rank : σ → ℕ)
    (hstay : ∀ s e s', G s → L e → step s e s' → G s')
    (hstep : ∀ s e s', I s → ¬ G s → L e → step s e s' →
      G s' ∨ (I s' ∧ rank s' ≤ rank s ∧ (own e = true → rank s' < rank s)))
    {s s' : σ} {es : List ε} (h : Run step s es s') (hl : ∀ e ∈ es, L e) (hs : I s) :
    G s' ∨ (I s' ∧ rank s' + es.countP own ≤ rank s) := by
  induction h with
  | refl => exact .inr ⟨hs, Nat.le_refl _⟩
  | @more s s₁ s' e es h t ih =>
      obtain ⟨he, hes⟩ := List.forall_mem_cons.mp hl
      by_cases hG : G s
      · exact .inl (t.invariant_of_labels hstay hes (hstay s e s₁ hG he h))
      rcases hstep s e s₁ hs hG he h with hG | ⟨hs₁, hle, hlt⟩
      · exact .inl (t.invariant_of_labels hstay hes hG)
      refine (ih hes hs₁).imp_right fun ⟨hs', hr⟩ => ⟨hs', ?_⟩
      rw [List.countP_cons]
      split
      · next ho =>
          have := hlt ho
          omega
      · omega

theorem Run.mono_of_invariant {I : σ → Prop}
    (hstep : ∀ s e s', I s → step s e s' → step' s e s' ∧ I s')
    {s s' : σ} {es : List ε} (h : Run step s es s') (hs : I s) : Run step' s es s' := by
  induction h with
  | refl => exact .refl _
  | more h _ ih => exact .more (hstep _ _ _ hs h).1 (ih (hstep _ _ _ hs h).2)

/-- A run of a relation is the run of one on states that carry more, where each step is. -/
theorem Run.lift {τ : Type} {more : τ → ε → τ → Prop} (f : τ → σ)
    (hlift : ∀ t e s', step (f t) e s' → ∃ t', more t e t' ∧ f t' = s') {t : τ} {s' : σ}
    {es : List ε} (h : Run step (f t) es s') : ∃ t', Run more t es t' ∧ f t' = s' := by
  generalize hs : f t = s at h
  induction h generalizing t with
  | refl => exact ⟨t, .refl t, hs⟩
  | more h _ ih =>
      subst hs
      obtain ⟨t₁, h₁, ht₁⟩ := hlift _ _ _ h
      obtain ⟨t', hr, ht'⟩ := ih ht₁
      exact ⟨t', .more h₁ hr, ht'⟩

/-! ### Runs that compute -/

/-- Each of the labels passes a test at the state that those before it lead to. -/
def allAlong (next : σ → ε → σ) (test : σ → ε → Bool) (s : σ) : List ε → Bool
  | [] => true
  | e :: es => test s e && allAlong next test (next s e) es

theorem Run.of_allAlong {next : σ → ε → σ} {test : σ → ε → Bool} {I : σ → Prop}
    (hI : ∀ s e s', I s → step s e s' → I s')
    (hstep : ∀ s e, I s → test s e = true → step s e (next s e)) {s : σ} {es : List ε}
    (h : allAlong next test s es = true) (hs : I s) : Run step s es (es.foldl next s) := by
  induction es generalizing s with
  | nil => exact .refl s
  | cons e es ih =>
      obtain ⟨h₁, h₂⟩ := Bool.and_eq_true_iff.mp h
      have he := hstep s e hs h₁
      exact .more he (ih h₂ (hI _ _ _ hs he))

/-! ### Reachable states -/

/-- The states some run leads to from an initial one. -/
def Reachable (start : σ → Prop) (step : σ → ε → σ → Prop) (s : σ) : Prop :=
  ∃ s₀ es, start s₀ ∧ Run step s₀ es s

variable {start : σ → Prop}

theorem Reachable.of_start {s : σ} (h : start s) : Reachable start step s := ⟨s, [], h, .refl s⟩

theorem Reachable.run {s s' : σ} {es : List ε} (h : Reachable start step s)
    (hr : Run step s es s') : Reachable start step s' := by
  obtain ⟨s₀, es₀, h₀, h₁⟩ := h
  exact ⟨s₀, es₀ ++ es, h₀, h₁.trans hr⟩

theorem Reachable.invariant {I : σ → Prop} (hstart : ∀ s, start s → I s)
    (hstep : ∀ s e s', I s → step s e s' → I s') {s : σ} (h : Reachable start step s) :
    I s := by
  obtain ⟨s₀, es, h₀, hr⟩ := h
  exact hr.invariant (I := I) hstep (hstart s₀ h₀)

/-! ### Restricted runs -/

/-- The steps that arrive at a state with `P`. -/
def Keeping (P : σ → Prop) (step : σ → ε → σ → Prop) (s : σ) (e : ε) (s' : σ) : Prop :=
  step s e s' ∧ P s'

/-- The steps that meet a condition on the state they leave and their label. -/
def Guarded (G : σ → ε → Prop) (step : σ → ε → σ → Prop) (s : σ) (e : ε) (s' : σ) : Prop :=
  step s e s' ∧ G s e

/-- Conditions have the same runs when an invariant of the steps that meet one of them makes them
equivalent. -/
theorem Run.guarded_congr {G G' : σ → ε → Prop} {I : σ → Prop}
    (hI : ∀ s e s', I s → G' s e → step s e s' → I s') (hG : ∀ s e, I s → (G s e ↔ G' s e))
    {s s' : σ} {es : List ε} (hs : I s) :
    Run (Guarded G step) s es s' ↔ Run (Guarded G' step) s es s' := by
  constructor <;> intro h
  · refine h.mono_of_invariant (I := I) (fun s e s' hi he => ?_) hs
    have hg := (hG s e hi).mp he.2
    exact ⟨⟨he.1, hg⟩, hI s e s' hi hg he.1⟩
  · refine h.mono_of_invariant (I := I) (fun s e s' hi he => ?_) hs
    exact ⟨⟨he.1, (hG s e hi).mpr he.2⟩, hI s e s' hi he.2 he.1⟩

/-- Where a condition is exactly what a step needs to keep `P`, the runs that stay in `P` are the
runs whose steps all meet the condition. -/
theorem Run.keeping_iff_guarded {P : σ → Prop} {G : σ → ε → Prop} {I : σ → Prop}
    (hI : ∀ s e s', I s → step s e s' → I s')
    (hstep : ∀ s e s', I s → P s → step s e s' → (P s' ↔ G s e))
    {s s' : σ} {es : List ε} (hs : I s) (hP : P s) :
    Run (Keeping P step) s es s' ↔ Run (Guarded G step) s es s' := by
  constructor <;> intro h
  · exact h.mono_of_invariant (I := fun s => I s ∧ P s)
      (fun _ _ _ i h => ⟨⟨h.1, (hstep _ _ _ i.1 i.2 h.1).mp h.2⟩, hI _ _ _ i.1 h.1, h.2⟩) ⟨hs, hP⟩
  · exact h.mono_of_invariant (I := fun s => I s ∧ P s)
      (fun _ _ _ i h => ⟨⟨h.1, (hstep _ _ _ i.1 i.2 h.1).mpr h.2⟩, hI _ _ _ i.1 h.1,
        (hstep _ _ _ i.1 i.2 h.1).mpr h.2⟩) ⟨hs, hP⟩

end Support
