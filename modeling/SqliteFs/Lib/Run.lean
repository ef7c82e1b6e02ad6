import Mathlib.Tactic

/-!
Runs of a system that is given by a partial step function. A run records the
events taken, and every event is taken in a state that allows it. The two
rules used everywhere are `Run.invariant` (what one allowed step keeps, a run
keeps) and `Along.throughout` with its converse (a property of states that
each step keeps when a condition on the step holds is true in every state of a
run when the condition is true of every step).
-/

namespace SqliteFs.Lib

variable {σ ε : Type*}

/-- `Run step allowed s es t`: the events `es` lead from `s` to `t`, each of
them allowed in the state it is taken in. -/
inductive Run (step : σ → ε → Option σ) (allowed : σ → ε → Prop) : σ → List ε → σ → Prop where
  | nil (s : σ) : Run step allowed s [] s
  | cons {s t u : σ} {e : ε} {es : List ε} (hallowed : allowed s e)
      (hstep : step s e = some t) (hrest : Run step allowed t es u) :
      Run step allowed s (e :: es) u

variable {step : σ → ε → Option σ} {allowed : σ → ε → Prop}

/-- A predicate that every allowed step keeps holds at the end of a run that
starts with it. -/
theorem Run.invariant (inv : σ → Prop)
    (hkeep : ∀ s e t, inv s → allowed s e → step s e = some t → inv t)
    {s t : σ} {es : List ε} (hrun : Run step allowed s es t) (hs : inv s) : inv t := by
  induction hrun with
  | nil _ => exact hs
  | cons hallowed hstep _ ih => exact ih (hkeep _ _ _ hs hallowed hstep)

/-- What is known of the events of a run may be taken for allowed. -/
theorem Run.restrict {p : ε → Prop} {s t : σ} {es : List ε} (hrun : Run step allowed s es t)
    (hp : ∀ e ∈ es, p e) : Run step (fun s e => allowed s e ∧ p e) s es t := by
  induction hrun with
  | nil s => exact .nil s
  | @cons _ _ _ e _ hallowed hstep _ ih =>
      exact .cons ⟨hallowed, hp e List.mem_cons_self⟩ hstep
        (ih fun e' he' => hp e' (List.mem_cons_of_mem e he'))

theorem Run.single {s t : σ} {e : ε} (hallowed : allowed s e) (hstep : step s e = some t) :
    Run step allowed s [e] t :=
  .cons hallowed hstep (.nil t)

/-- The state after a list of events, if all of them can be taken. -/
def steps (step : σ → ε → Option σ) : σ → List ε → Option σ
  | s, [] => some s
  | s, e :: es => (step s e).bind fun t => steps step t es

/-- Computing a run whose events are allowed in any state. -/
theorem Run.of_steps {s t : σ} {es : List ε} (hallowed : ∀ e ∈ es, ∀ s, allowed s e)
    (hsteps : steps step s es = some t) : Run step allowed s es t := by
  induction es generalizing s with
  | nil =>
      obtain rfl := Option.some.inj hsteps
      exact .nil s
  | cons e es ih =>
      obtain ⟨u, hstep, hrest⟩ := Option.bind_eq_some_iff.mp hsteps
      exact .cons (hallowed e List.mem_cons_self s) hstep
        (ih (fun e' he' => hallowed e' (List.mem_cons_of_mem e he')) hrest)

/-- What is true at the end of a run and not at its start becomes so at one of
its events. -/
theorem steps_becomes {p : σ → Prop} {s t : σ} {es : List ε} (hsteps : steps step s es = some t)
    (hs : ¬p s) (ht : p t) :
    ∃ es₁ e es₂ u v, es = es₁ ++ e :: es₂ ∧ steps step s es₁ = some u ∧ step u e = some v ∧
      ¬p u ∧ p v := by
  induction es generalizing s with
  | nil =>
      obtain rfl := Option.some.inj hsteps
      exact absurd ht hs
  | cons e es ih =>
      obtain ⟨u, hstep, hrest⟩ := Option.bind_eq_some_iff.mp hsteps
      by_cases hu : p u
      · exact ⟨[], e, es, s, u, rfl, rfl, hstep, hs, hu⟩
      · obtain ⟨es₁, e', es₂, u', v, hes, hsteps', hstep', hu', hv⟩ := ih hrest hu
        refine ⟨e :: es₁, e', es₂, u', v, congrArg (e :: ·) hes, ?_, hstep', hu', hv⟩
        exact Option.bind_eq_some_iff.mpr ⟨u, hstep, hsteps'⟩

/-- The state after a list of events that can be taken. -/
def after (step : σ → ε → Option σ) (s : σ) (es : List ε) : σ := (steps step s es).getD s

theorem Run.of_after {s : σ} {es : List ε} (hallowed : ∀ e ∈ es, ∀ s, allowed s e)
    (hsteps : (steps step s es).isSome) : Run step allowed s es (after step s es) := by
  obtain ⟨t, ht⟩ := Option.isSome_iff_exists.mp hsteps
  refine Run.of_steps hallowed ?_
  rw [after, ht, Option.getD_some]

theorem after_single {s : σ} {e : ε} (h : (step s e).isSome) :
    step s e = some (after step s [e]) := by
  obtain ⟨t, ht⟩ := Option.isSome_iff_exists.mp h
  simp [after, steps, ht]

/-- `good` holds in the first state and after each of the events. -/
def Throughout (step : σ → ε → Option σ) (good : σ → Prop) : σ → List ε → Prop
  | s, [] => good s
  | s, e :: es => good s ∧ ∀ t, step s e = some t → Throughout step good t es

/-- `cond` holds of every event in the state it is taken in. -/
def Along (step : σ → ε → Option σ) (cond : σ → ε → Prop) : σ → List ε → Prop
  | _, [] => True
  | s, e :: es => cond s e ∧ ∀ t, step s e = some t → Along step cond t es

theorem Along.cons_after {cond : σ → ε → Prop} {s : σ} {e : ε} {es : List ε}
    (hstep : (step s e).isSome) (he : cond s e) (hrest : Along step cond (after step s [e]) es) :
    Along step cond s (e :: es) := by
  refine ⟨he, fun t ht => ?_⟩
  obtain rfl := Option.some.inj ((after_single hstep).symm.trans ht)
  exact hrest

/-- Computing a run whose events are allowed where they are taken. -/
theorem Run.of_along {s : σ} {es : List ε} (hallowed : Along step allowed s es)
    (hsteps : (steps step s es).isSome) : Run step allowed s es (after step s es) := by
  induction es generalizing s with
  | nil => exact .nil s
  | cons e es ih =>
      obtain ⟨t, hstep, hrest⟩ : ∃ t, step s e = some t ∧ (steps step t es).isSome := by
        obtain ⟨u, hu⟩ := Option.isSome_iff_exists.mp hsteps
        obtain ⟨t, hstep, hrest⟩ := Option.bind_eq_some_iff.mp hu
        exact ⟨t, hstep, by rw [hrest]; rfl⟩
      have hafter : after step s (e :: es) = after step t es := by
        obtain ⟨u, hu⟩ := Option.isSome_iff_exists.mp hrest
        simp only [after, steps, hstep, Option.bind_some, hu, Option.getD_some]
      rw [hafter]
      exact .cons hallowed.1 hstep (ih (hallowed.2 t hstep) hrest)

/-- Whether the events can be taken one after the other, each where `cond` holds. -/
def checks (step : σ → ε → Option σ) (cond : σ → ε → Prop) [∀ s e, Decidable (cond s e)] :
    σ → List ε → Bool
  | _, [] => true
  | s, e :: es => decide (cond s e) && (step s e).any fun t => checks step cond t es

theorem along_of_checks {cond : σ → ε → Prop} [∀ s e, Decidable (cond s e)]
    (himp : ∀ s e, cond s e → allowed s e) {s : σ} {es : List ε}
    (h : checks step cond s es = true) :
    Along step allowed s es ∧ (steps step s es).isSome := by
  induction es generalizing s with
  | nil => exact ⟨trivial, rfl⟩
  | cons e es ih =>
      simp only [checks, Bool.and_eq_true, decide_eq_true_eq] at h
      obtain ⟨hcond, hany⟩ := h
      obtain ⟨t, hstep, hrest⟩ := (Option.any_eq_true _ _).mp hany
      obtain ⟨halong, hsteps⟩ := ih hrest
      refine ⟨⟨himp s e hcond, fun u hu => ?_⟩, ?_⟩
      · obtain rfl := Option.some.inj (hstep.symm.trans hu)
        exact halong
      · rw [steps, hstep]
        exact hsteps

theorem Run.of_checks {cond : σ → ε → Prop} [∀ s e, Decidable (cond s e)]
    (himp : ∀ s e, cond s e → allowed s e) {s : σ} {es : List ε}
    (h : checks step cond s es = true) : Run step allowed s es (after step s es) :=
  Run.of_along (along_of_checks himp h).1 (along_of_checks himp h).2

/-- The condition on the steps of a run may be made part of what is allowed. -/
theorem Run.along {cond : σ → ε → Prop} {s t : σ} {es : List ε} (hrun : Run step allowed s es t)
    (halong : Along step cond s es) : Run step (fun s e => allowed s e ∧ cond s e) s es t := by
  induction hrun with
  | nil s => exact .nil s
  | cons hallowed hstep _ ih =>
      exact .cons ⟨hallowed, halong.1⟩ hstep (ih (halong.2 _ hstep))

theorem Run.of_single {s t : σ} {e : ε} (hrun : Run step allowed s [e] t) :
    allowed s e ∧ step s e = some t := by
  cases hrun with
  | cons hallowed hstep hrest =>
      cases hrest
      exact ⟨hallowed, hstep⟩

theorem Along.append {cond : σ → ε → Prop} {s t : σ} {es es' : List ε}
    (hrun : Run step allowed s es t) (h : Along step cond s es) (h' : Along step cond t es') :
    Along step cond s (es ++ es') := by
  induction hrun with
  | nil _ => exact h'
  | cons _ hstep _ ih =>
      refine ⟨h.1, fun u hu => ?_⟩
      obtain rfl := Option.some.inj (hstep.symm.trans hu)
      exact ih (h.2 _ hstep) h'

theorem Along.of_forall {cond : σ → ε → Prop} {s : σ} {es : List ε}
    (h : ∀ e ∈ es, ∀ s, cond s e) : Along step cond s es := by
  induction es generalizing s with
  | nil => trivial
  | cons e es ih =>
      exact ⟨h e List.mem_cons_self s, fun t _ => ih fun e he => h e (List.mem_cons_of_mem _ he)⟩

theorem Run.append {s t u : σ} {es es' : List ε} (hrun : Run step allowed s es t)
    (hrun' : Run step allowed t es' u) : Run step allowed s (es ++ es') u := by
  induction hrun with
  | nil _ => exact hrun'
  | cons hallowed hstep _ ih => exact .cons hallowed hstep (ih hrun')

theorem Throughout.first {good : σ → Prop} {s : σ} {es : List ε}
    (h : Throughout step good s es) : good s := by
  cases es with
  | nil => exact h
  | cons e es => exact h.1

theorem Throughout.mono {good good' : σ → Prop} (himp : ∀ s, good s → good' s) {s : σ}
    {es : List ε} (h : Throughout step good s es) : Throughout step good' s es := by
  induction es generalizing s with
  | nil => exact himp s h
  | cons e es ih => exact ⟨himp s h.1, fun t ht => ih (h.2 t ht)⟩

section

variable {inv good : σ → Prop} {cond : σ → ε → Prop}
  (hkeep : ∀ s e t, inv s → allowed s e → step s e = some t → inv t)
include hkeep

/-- Of two conditions on steps that every allowed step from the invariant relates. -/
theorem Along.imp {cond' : σ → ε → Prop}
    (himp : ∀ s e t, inv s → allowed s e → step s e = some t → cond s e → cond' s e)
    {s t : σ} {es : List ε} (hrun : Run step allowed s es t) (hinv : inv s)
    (halong : Along step cond s es) : Along step cond' s es := by
  induction hrun with
  | nil _ => trivial
  | cons hallowed hstep _ ih =>
      refine ⟨himp _ _ _ hinv hallowed hstep halong.1, fun t' ht' => ?_⟩
      obtain rfl := Option.some.inj (hstep.symm.trans ht')
      exact ih (hkeep _ _ _ hinv hallowed hstep) (halong.2 _ hstep)

/-- When a step that meets `cond` leads from a good state to a good one, so
does a run all of whose steps meet `cond`. -/
theorem Along.throughout
    (hgood : ∀ s e t, inv s → good s → allowed s e → step s e = some t → cond s e → good t)
    {s t : σ} {es : List ε} (hrun : Run step allowed s es t) (hinv : inv s) (hs : good s)
    (halong : Along step cond s es) : Throughout step good s es := by
  induction hrun with
  | nil _ => exact hs
  | cons hallowed hstep _ ih =>
      refine ⟨hs, fun t' ht' => ?_⟩
      obtain rfl := Option.some.inj (hstep.symm.trans ht')
      exact ih (hkeep _ _ _ hinv hallowed hstep)
        (hgood _ _ _ hinv hs hallowed hstep halong.1) (halong.2 _ hstep)

/-- When a step from a good state to a good state meets `cond`, so does every
step of a run through good states. -/
theorem Throughout.along
    (hcond : ∀ s e t, inv s → good s → allowed s e → step s e = some t → good t → cond s e)
    {s t : σ} {es : List ε} (hrun : Run step allowed s es t) (hinv : inv s)
    (hthrough : Throughout step good s es) : Along step cond s es := by
  induction hrun with
  | nil _ => trivial
  | cons hallowed hstep _ ih =>
      have hafter := hthrough.2 _ hstep
      refine ⟨hcond _ _ _ hinv hthrough.1 hallowed hstep hafter.first, fun t' ht' => ?_⟩
      obtain rfl := Option.some.inj (hstep.symm.trans ht')
      exact ih (hkeep _ _ _ hinv hallowed hstep) hafter

end

/-- Two systems in step: as long as the condition holds the states stay
related, and in related states the two conditions agree. -/
theorem Along.congr {τ : Type*} {step' : τ → ε → Option τ} {rel : σ → τ → Prop} {p : ε → Prop}
    {cond : σ → ε → Prop} {cond' : τ → ε → Prop}
    (hcond : ∀ s s' e, rel s s' → p e → (cond s e ↔ cond' s' e))
    (hkeep : ∀ s s' e, rel s s' → p e → cond s e → Option.Rel rel (step s e) (step' s' e))
    {es : List ε} (hp : ∀ e ∈ es, p e) {s : σ} {s' : τ} (hrel : rel s s') :
    Along step cond s es ↔ Along step' cond' s' es := by
  induction es generalizing s s' with
  | nil => exact Iff.rfl
  | cons e es ih =>
      have he := hp e List.mem_cons_self
      have hes : ∀ e' ∈ es, p e' := fun e' he' => hp e' (List.mem_cons_of_mem e he')
      simp only [Along, ← hcond s s' e hrel he]
      apply and_congr_right
      intro hholds
      have hnext := hkeep s s' e hrel he hholds
      generalize step s e = o, step' s' e = o' at hnext
      cases hnext with
      | none => simp only [reduceCtorEq, false_implies, implies_true]
      | some hnext => simpa only [Option.some.injEq, forall_eq'] using ih hes hnext

/-- Carry a value along a run: `update` computes the next one from the state
before the event, the event and what the system answered. -/
def tracked {γ ρ : Type*} (step : σ → ε → Option (σ × ρ)) (update : σ → ε → ρ → γ → γ) :
    σ × γ → ε → Option (σ × γ) :=
  fun sg e => (step sg.1 e).map fun out => (out.1, update sg.1 e out.2 sg.2)

theorem tracked_eq_some {γ ρ : Type*} {step : σ → ε → Option (σ × ρ)}
    {update : σ → ε → ρ → γ → γ} {s t : σ} {g g' : γ} {e : ε} :
    tracked step update (s, g) e = some (t, g') ↔
      ∃ answer, step s e = some (t, answer) ∧ update s e answer g = g' := by
  simp [tracked, Option.map_eq_some_iff, Prod.ext_iff]

/-- Whatever is carried along, a run has a value for it at its end. -/
theorem Run.track {γ ρ : Type*} {step : σ → ε → Option (σ × ρ)}
    (update : σ → ε → ρ → γ → γ) {s t : σ} {es : List ε}
    (hrun : Run (fun s e => (step s e).map Prod.fst) allowed s es t) (g : γ) :
    ∃ g', Run (tracked step update) (fun sg => allowed sg.1) (s, g) es (t, g') := by
  induction hrun generalizing g with
  | nil s => exact ⟨g, .nil (s, g)⟩
  | @cons s _ _ e _ hallowed hstep _ ih =>
      obtain ⟨⟨u, answer⟩, heq, rfl⟩ := Option.map_eq_some_iff.mp hstep
      obtain ⟨g', hrest⟩ := ih (update s e answer g)
      exact ⟨g', .cons hallowed (tracked_eq_some.mpr ⟨answer, heq, rfl⟩) hrest⟩

end SqliteFs.Lib
