import Mathlib.Tactic.Common

/-!
# Runs of a labelled step relation

A step relation `step s e t` says that event `e` can take state `s` to state `t`.
`Run step s es t` chains steps along a list of events. Everything that holds of a
whole run is derived from one rule: a property that the first state has and that
every step keeps holds of the last state. `Along` restricts a relation to the
steps that meet a condition, so that the same rule also serves the runs all of
whose steps meet it.
-/

namespace Transition

variable {σ τ ε : Type*}

/-- The states reached from `s` by the events `es`, in order. -/
inductive Run (step : σ → ε → σ → Prop) : σ → List ε → σ → Prop where
  | refl (s) : Run step s [] s
  | cons {s e t es u} : step s e t → Run step t es u → Run step s (e :: es) u

/-- The steps of `step` whose event meets `C` in the state it is taken from. -/
def Along (C : σ → ε → Prop) (step : σ → ε → σ → Prop) : σ → ε → σ → Prop :=
  fun s e t => C s e ∧ step s e t

/-- The steps of `step` that lead to a state of `P`. -/
def Into (P : σ → Prop) (step : σ → ε → σ → Prop) : σ → ε → σ → Prop :=
  fun s e t => step s e t ∧ P t

namespace Run

variable {step : σ → ε → σ → Prop}

@[simp] theorem nil_iff {s t : σ} : Run step s [] t ↔ s = t := by
  constructor
  · intro h
    cases h
    rfl
  · rintro rfl
    exact .refl s

theorem cons_iff {s t : σ} {e : ε} {es : List ε} :
    Run step s (e :: es) t ↔ ∃ u, step s e u ∧ Run step u es t := by
  constructor
  · intro h
    cases h with
    | cons hs hr => exact ⟨_, hs, hr⟩
  · rintro ⟨u, hs, hr⟩
    exact .cons hs hr

/-- Runs compose; their event lists are appended. -/
theorem trans {s t u : σ} {es fs : List ε} (h₁ : Run step s es t) (h₂ : Run step t fs u) :
    Run step s (es ++ fs) u := by
  induction h₁ with
  | refl => exact h₂
  | cons hs _ ih => exact .cons hs (ih h₂)

/-- Every cut of the event list yields two runs. -/
theorem append_iff {s u : σ} {es fs : List ε} :
    Run step s (es ++ fs) u ↔ ∃ t, Run step s es t ∧ Run step t fs u := by
  constructor
  · intro h
    induction es generalizing s with
    | nil => exact ⟨s, .refl s, h⟩
    | cons e es ih =>
        obtain ⟨v, hs, hr⟩ := cons_iff.mp h
        obtain ⟨t, ht, hu⟩ := ih hr
        exact ⟨t, .cons hs ht, hu⟩
  · rintro ⟨t, h₁, h₂⟩
    exact h₁.trans h₂

/-- The invariant rule: a property of the first state that every step keeps. -/
theorem invariant {I : σ → Prop} {s t : σ} {es : List ε} (h : Run step s es t)
    (init : I s) (keep : ∀ ⦃s e t⦄, I s → step s e t → I t) : I t := by
  induction h with
  | refl => exact init
  | cons hs _ ih => exact ih (keep init hs)

theorem mono {step' : σ → ε → σ → Prop} {s t : σ} {es : List ε} (h : Run step s es t)
    (imp : ∀ ⦃s e t⦄, step s e t → step' s e t) : Run step' s es t := by
  induction h with
  | refl => exact .refl _
  | cons hs _ ih => exact .cons (imp hs) ih

/-- Forgetting the condition of a restricted run. -/
theorem of_along {C : σ → ε → Prop} {s t : σ} {es : List ε} (h : Run (Along C step) s es t) :
    Run step s es t :=
  h.mono fun _ _ _ hs => hs.2

/-- A run either meets the condition in all its steps, and `I` holds at its end, or it has
left the condition behind for good, and `B` holds at its end. -/
theorem along_or {C : σ → ε → Prop} {I B : σ → Prop} {s t : σ} {es : List ε}
    (h : Run step s es t) (init : I s)
    (keep : ∀ ⦃s e t⦄, I s → C s e → step s e t → I t)
    (leave : ∀ ⦃s e t⦄, I s → ¬C s e → step s e t → B t)
    (stay : ∀ ⦃s e t⦄, B s → step s e t → B t) :
    Run (Along C step) s es t ∧ I t ∨ B t := by
  induction h with
  | refl s => exact .inl ⟨.refl s, init⟩
  | @cons s e u es t hs hr ih =>
      by_cases hC : C s e
      · obtain ⟨hrun, ht⟩ | ht := ih (keep init hC hs)
        · exact .inl ⟨.cons ⟨hC, hs⟩ hrun, ht⟩
        · exact .inr ht
      · exact .inr (hr.invariant (leave init hC hs) stay)

/-- A property that each step keeps exactly when it meets the condition, and that never comes
back, holds at the end of a run exactly when all steps met the condition. -/
theorem along_iff {C : σ → ε → Prop} {J P : σ → Prop} {s t : σ} {es : List ε}
    (h : Run step s es t) (inv : J s) (good : P s)
    (keep : ∀ ⦃s e t⦄, J s → step s e t → J t)
    (exact : ∀ ⦃s e t⦄, J s → P s → step s e t → (P t ↔ C s e))
    (stay : ∀ ⦃s e t⦄, J s → ¬P s → step s e t → ¬P t) :
    P t ↔ Run (Along C step) s es t := by
  constructor
  · intro hP
    have hor := h.along_or (I := fun s => J s ∧ P s) (B := fun s => J s ∧ ¬P s) ⟨inv, good⟩
      (fun s e t hs hC hstep => ⟨keep hs.1 hstep, (exact hs.1 hs.2 hstep).mpr hC⟩)
      (fun s e t hs hC hstep => ⟨keep hs.1 hstep, mt (exact hs.1 hs.2 hstep).mp hC⟩)
      fun s e t hs hstep => ⟨keep hs.1 hstep, stay hs.1 hs.2 hstep⟩
    obtain ⟨hrun, -⟩ | hbad := hor
    · exact hrun
    · exact absurd hP hbad.2
  · intro hrun
    have hend := hrun.invariant (I := fun s => J s ∧ P s) ⟨inv, good⟩
      fun s e t hs hstep => ⟨keep hs.1 hstep.2, (exact hs.1 hs.2 hstep.2).mpr hstep.1⟩
    exact hend.2

/-- A property that each step keeps exactly when it meets the condition holds in every state
of a run exactly when all steps of the run met the condition. -/
theorem into_iff_along {C : σ → ε → Prop} {J P : σ → Prop} {s t : σ} {es : List ε} (inv : J s)
    (good : P s) (keep : ∀ ⦃s e t⦄, J s → step s e t → J t)
    (exact : ∀ ⦃s e t⦄, J s → P s → step s e t → (P t ↔ C s e)) :
    Run (Into P step) s es t ↔ Run (Along C step) s es t := by
  induction es generalizing s with
  | nil => rw [nil_iff, nil_iff]
  | cons e es ih =>
      rw [cons_iff, cons_iff]
      constructor
      · rintro ⟨u, ⟨hstep, hu⟩, hrun⟩
        exact ⟨u, ⟨(exact inv good hstep).mp hu, hstep⟩, (ih (keep inv hstep) hu).mp hrun⟩
      · rintro ⟨u, ⟨hC, hstep⟩, hrun⟩
        have hu := (exact inv good hstep).mpr hC
        exact ⟨u, ⟨hstep, hu⟩, (ih (keep inv hstep) hu).mpr hrun⟩

/-- When each step that meets the condition leads to a state of `P`, all steps of a run that
meet it do. -/
theorem into_of_along {C : σ → ε → Prop} {J P : σ → Prop} {s t : σ} {es : List ε}
    (h : Run (Along C step) s es t) (inv : J s)
    (keep : ∀ ⦃s e t⦄, J s → C s e → step s e t → J t ∧ P t) : Run (Into P step) s es t := by
  induction h with
  | refl => exact .refl _
  | cons hs _ ih =>
      obtain ⟨ht, hP⟩ := keep inv hs.1 hs.2
      exact .cons ⟨hs.2, hP⟩ (ih ht)

/-- All entries of a log are good exactly when the steps that met the condition are all steps,
where the condition says of each step that what it logs is good. -/
theorem log_iff {α : Type*} {C : σ → ε → Prop} {J : σ → Prop} {log : σ → List α} {good : α → Prop}
    {s t : σ} {es : List ε} (h : Run step s es t) (inv : J s) (empty : log s = [])
    (keep : ∀ ⦃s e t⦄, J s → step s e t → J t)
    (logged : ∀ ⦃s e t⦄, J s → step s e t →
      ∃ new, log t = log s ++ new ∧ (C s e ↔ ∀ x ∈ new, good x)) :
    (∀ x ∈ log t, good x) ↔ Run (Along C step) s es t := by
  apply h.along_iff inv (by simp [empty]) keep
  · intro s e t hs hgood hstep
    obtain ⟨new, hlog, hC⟩ := logged hs hstep
    rw [hlog, List.forall_mem_append, hC]
    exact and_iff_right hgood
  · intro s e t hs hbad hstep hgood
    obtain ⟨new, hlog, -⟩ := logged hs hstep
    rw [hlog, List.forall_mem_append] at hgood
    exact hbad hgood.1

end Run

/-! ## Steps that are computed -/

/-- The events `es` from `s` on all meet the condition `p`, when an event `e` takes `s` to
`after s e`. -/
def Checked (p : σ → ε → Prop) (after : σ → ε → σ) : σ → List ε → Prop
  | _, [] => True
  | s, e :: es => p s e ∧ Checked p after (after s e) es

instance Checked.decidable (p : σ → ε → Prop) [∀ s e, Decidable (p s e)] (after : σ → ε → σ) :
    (s : σ) → (es : List ε) → Decidable (Checked p after s es)
  | _, [] => isTrue trivial
  | s, e :: es =>
      have := Checked.decidable p after (after s e) es
      inferInstanceAs (Decidable (p s e ∧ Checked p after (after s e) es))

/-- Checked events are a run to the state that they compute. -/
theorem Run.of_checked {step : σ → ε → σ → Prop} {p : σ → ε → Prop} {after : σ → ε → σ} {s : σ}
    {es : List ε} (computed : ∀ s e, p s e → step s e (after s e)) (h : Checked p after s es) :
    Run step s es (es.foldl after s) := by
  induction es generalizing s with
  | nil => exact .refl s
  | cons e es ih => exact .cons (computed s e h.1) (ih h.2)

end Transition
