import Mathlib.Init

/-!
# Runs of a transition function

`step s e` is the state after the event `e`, or `none` where `e` cannot happen in `s`.
`Always step P s es` says that `P` holds in every state the events `es` lead through from
`s`, and `EachStep step C s es` that `C` holds of every step taken. Nothing here depends on
what a state or an event is.
-/

namespace Ma35d1.Machine.Trace

variable {σ ε : Type*} {step : σ → ε → Option σ} {P Q : σ → Prop} {C : σ → ε → Prop}
  {s t : σ} {es : List ε}

/-- The state after the events. -/
def run (step : σ → ε → Option σ) : σ → List ε → Option σ
  | s, [] => some s
  | s, e :: es => (step s e).bind fun t => run step t es

/-- `P` holds in every state met. -/
def Always (step : σ → ε → Option σ) (P : σ → Prop) : σ → List ε → Prop
  | s, [] => P s
  | s, e :: es => P s ∧ ∀ t, step s e = some t → Always step P t es

/-- `C` holds of every step taken. -/
def EachStep (step : σ → ε → Option σ) (C : σ → ε → Prop) : σ → List ε → Prop
  | _, [] => True
  | s, e :: es => ∀ t, step s e = some t → C s e ∧ EachStep step C t es

/-- Whether the condition holds along a run can be computed. -/
def decidableEachStep [∀ s e, Decidable (C s e)] : ∀ s es, Decidable (EachStep step C s es)
  | _, [] => .isTrue trivial
  | s, e :: es =>
    match h : step s e with
    | none => .isTrue fun t ht => by simp [h] at ht
    | some t =>
      have := decidableEachStep t es
      decidable_of_iff (C s e ∧ EachStep step C t es)
        ⟨fun hc u hu => by rw [h, Option.some.injEq] at hu; exact hu ▸ hc, fun hc => hc t h⟩

instance [∀ s e, Decidable (C s e)] (s : σ) (es : List ε) : Decidable (EachStep step C s es) :=
  decidableEachStep s es

theorem run_append {es' : List ε} :
    run step s (es ++ es') = (run step s es).bind fun t => run step t es' := by
  induction es generalizing s with
  | nil => rfl
  | cons e es ih =>
    rw [List.cons_append, run, run, Option.bind_assoc]
    exact congrArg _ (funext fun t => ih)

theorem Always.head (h : Always step P s es) : P s := by
  cases es with
  | nil => exact h
  | cons e es => exact h.1

theorem Always.mono (hPQ : ∀ s, P s → Q s) (h : Always step P s es) : Always step Q s es := by
  induction es generalizing s with
  | nil => exact hPQ s h
  | cons e es ih => exact ⟨hPQ s h.1, fun t ht => ih (h.2 t ht)⟩

/-- The last state is one of those met. -/
theorem Always.last (h : Always step P s es) (hr : run step s es = some t) : P t := by
  induction es generalizing s with
  | nil =>
    obtain rfl := Option.some.inj hr
    exact h
  | cons e es ih =>
    obtain ⟨u, hu, hr⟩ := Option.bind_eq_some_iff.mp hr
    exact ih (h.2 u hu) hr

/-- The first step of a run, and the rest. -/
theorem EachStep.cons {e : ε} (h : step s e = some t) (he : C s e) (hes : EachStep step C t es) :
    EachStep step C s (e :: es) := by
  intro u hu
  obtain rfl := Option.some.inj (h.symm.trans hu)
  exact ⟨he, hes⟩

/-- The rest of a run from the state that its beginning leads to. -/
theorem EachStep.append {es' : List ε} (h : EachStep step C s (es ++ es'))
    (hr : run step s es = some t) : EachStep step C t es' := by
  induction es generalizing s with
  | nil =>
    obtain rfl := Option.some.inj hr
    exact h
  | cons e es ih =>
    obtain ⟨u, hu, hr⟩ := Option.bind_eq_some_iff.mp hr
    exact ih (h u hu).2 hr

/-- An invariant whose steps need a condition holds while the condition does. -/
theorem always_of_eachStep (hstep : ∀ s e t, P s → C s e → step s e = some t → P t) (h0 : P s)
    (hc : EachStep step C s es) : Always step P s es := by
  induction es generalizing s with
  | nil => exact h0
  | cons e es ih =>
    refine ⟨h0, fun t ht => ?_⟩
    obtain ⟨he, hes⟩ := hc t ht
    exact ih (hstep s e t h0 he ht) hes

/-- A condition that every step meets. -/
theorem eachStep_of_step (hstep : ∀ s e t, step s e = some t → C s e) : EachStep step C s es := by
  induction es generalizing s with
  | nil => trivial
  | cons e es ih => exact fun t ht => ⟨hstep s e t ht, ih⟩

/-- What a step under the condition does, every step of a run does. -/
theorem eachStep_of_eachStep {D : σ → ε → Prop}
    (hstep : ∀ s e t, P s → C s e → step s e = some t → P t ∧ D s e) (h0 : P s)
    (hc : EachStep step C s es) : EachStep step D s es := by
  induction es generalizing s with
  | nil => trivial
  | cons e es ih =>
    intro t ht
    obtain ⟨he, hes⟩ := hc t ht
    obtain ⟨hPt, hD⟩ := hstep s e t h0 he ht
    exact ⟨hD, ih hPt hes⟩

/-- Where an invariant makes two conditions on a step the same, they are the same along a run. -/
theorem eachStep_congr {D : σ → ε → Prop} (hP : ∀ s e t, P s → step s e = some t → P t)
    (hstep : ∀ s e t, P s → step s e = some t → (C s e ↔ D s e)) (h0 : P s) :
    EachStep step C s es ↔ EachStep step D s es := by
  induction es generalizing s with
  | nil => exact Iff.rfl
  | cons e es ih =>
    exact forall_congr' fun t => imp_congr_right fun ht =>
      and_congr (hstep s e t h0 ht) (ih (hP s e t h0 ht))

/-- An invariant that every step keeps. -/
theorem always_of_step (hstep : ∀ s e t, P s → step s e = some t → P t) (h0 : P s) :
    Always step P s es :=
  always_of_eachStep (C := fun _ _ => True) (fun s e t hs _ ht => hstep s e t hs ht) h0
    (eachStep_of_step fun _ _ _ _ => trivial)

/-- Where a step keeps `Q` exactly under `C`, given an invariant `P` of all runs, `Q` holds
along a run exactly when `C` holds of its steps. -/
theorem always_iff_eachStep (hP : ∀ s e t, P s → step s e = some t → P t)
    (hstep : ∀ s e t, P s → Q s → step s e = some t → (Q t ↔ C s e)) (h0 : P s) (hQ : Q s) :
    Always step Q s es ↔ EachStep step C s es := by
  induction es generalizing s with
  | nil => exact iff_of_true hQ trivial
  | cons e es ih =>
    constructor
    · intro h t ht
      have hQt := (h.2 t ht).head
      exact ⟨(hstep s e t h0 hQ ht).1 hQt, (ih (hP s e t h0 ht) hQt).1 (h.2 t ht)⟩
    · intro h
      refine ⟨hQ, fun t ht => ?_⟩
      obtain ⟨he, hes⟩ := h t ht
      exact (ih (hP s e t h0 ht) ((hstep s e t h0 hQ ht).2 he)).2 hes

/-- Where `Q` survives a step only under `C`, and an invariant that gives `Q` is kept under
`C`, `Q` holds along a run exactly when `C` holds of its steps. -/
theorem always_iff_of_kept (hkeep : ∀ s e t, P s → C s e → step s e = some t → P t)
    (hQ : ∀ s, P s → Q s) (hbreak : ∀ s e t, P s → step s e = some t → Q t → C s e)
    (h0 : P s) : Always step Q s es ↔ EachStep step C s es := by
  induction es generalizing s with
  | nil => exact iff_of_true (hQ s h0) trivial
  | cons e es ih =>
    constructor
    · intro h t ht
      have hC := hbreak s e t h0 ht (h.2 t ht).head
      exact ⟨hC, (ih (hkeep s e t h0 hC ht)).1 (h.2 t ht)⟩
    · intro h
      refine ⟨hQ s h0, fun t ht => ?_⟩
      obtain ⟨hC, hes⟩ := h t ht
      exact (ih (hkeep s e t h0 hC ht)).2 hes

end Ma35d1.Machine.Trace
