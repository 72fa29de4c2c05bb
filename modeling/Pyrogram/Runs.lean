import Mathlib.Data.Option.Defs
import Mathlib.Tactic.Common

/-!
# Runs of a labelled step function

A system is a step function `step : σ → ε → Option σ`: the event `e` takes the
state `s` to `step s e`, or is not enabled there.  Every choice the environment
makes (a schedule, a fault, an answer) is part of the event, so one step
function describes all behaviours and a behaviour can be replayed by evaluating
it.

## Main definitions

* `run` — the state a list of events leads to.
* `AllSteps` — a property of every step taken along a list of events.
* `LeftAt` — a state at which a list of events may be left.

## Main results

* `run_of_invariant` — what every step preserves holds after every run.
* `run_of_invariant_of_allSteps` — the same for steps that are preserved only
  where a side condition holds.
* `allSteps_and_iff` — a step property that is known may be added to another.
* `AllSteps.of_append` — the steps after a state of a run.
* `exists_step_of_mem` — the step of an event of a run.
* `not_allSteps_of_check` — refuting a step property by evaluation.
* `allSteps_of_invariant`, `allSteps_iff` — transferring step properties along an
  invariant.
* `rel_run` — the runs of two systems whose steps correspond.
-/

namespace Runs

variable {σ ε : Type*} {step : σ → ε → Option σ}

/-- The state a list of events leads to; `none` once an event is not enabled. -/
def run (step : σ → ε → Option σ) : σ → List ε → Option σ
  | s, [] => some s
  | s, e :: es => (step s e).bind fun s' => run step s' es

/-- `P` holds of every step taken along a list of events: the state before, the
event and the state after.  Nothing is asked once an event is not enabled. -/
def AllSteps (step : σ → ε → Option σ) (P : σ → ε → σ → Prop) : σ → List ε → Prop
  | _, [] => True
  | s, e :: es => ∀ s', step s e = some s' → P s e s' ∧ AllSteps step P s' es

theorem run_cons (s : σ) (e : ε) (es : List ε) :
    run step s (e :: es) = (step s e).bind fun s' => run step s' es := rfl

theorem run_append (es fs : List ε) (s : σ) :
    run step s (es ++ fs) = (run step s es).bind fun s' => run step s' fs := by
  induction es generalizing s with
  | nil => rfl
  | cons e es ih =>
    rw [List.cons_append, run_cons, run_cons]
    cases step s e with
    | none => rfl
    | some s' => exact ih s'

/-- A run of one more event ends with a step. -/
theorem run_cons_eq_some {s t : σ} {e : ε} {es : List ε} (h : run step s (e :: es) = some t) :
    ∃ s', step s e = some s' ∧ run step s' es = some t :=
  Option.bind_eq_some_iff.mp h

/-- **The invariant rule, with a side condition on the steps.**  A property the
steps preserve wherever `P` holds of them is true after every run all of whose
steps satisfy `P`. -/
theorem run_of_invariant_of_allSteps {I : σ → Prop} {P : σ → ε → σ → Prop}
    (hstep : ∀ s e s', I s → P s e s' → step s e = some s' → I s') :
    ∀ {es : List ε} {s t : σ}, I s → AllSteps step P s es → run step s es = some t → I t := by
  intro es
  induction es with
  | nil =>
    intro s t hs _ hrun
    obtain rfl : s = t := Option.some.inj hrun
    exact hs
  | cons e es ih =>
    intro s t hs hall hrun
    obtain ⟨s', hs', hrun'⟩ := run_cons_eq_some hrun
    obtain ⟨hP, hall'⟩ := hall s' hs'
    exact ih (hstep s e s' hs hP hs') hall' hrun'

/-- A property of every step holds vacuously of the trivial condition. -/
theorem allSteps_true : ∀ (es : List ε) (s : σ), AllSteps step (fun _ _ _ => True) s es
  | [], _ => trivial
  | _ :: es, _ => fun s' _ => ⟨trivial, allSteps_true es s'⟩

/-- What holds of every step holds along every run. -/
theorem allSteps_of_step {P : σ → ε → σ → Prop} (h : ∀ s e s', step s e = some s' → P s e s') :
    ∀ (es : List ε) (s : σ), AllSteps step P s es
  | [], _ => trivial
  | _ :: es, _ => fun s' hs' => ⟨h _ _ s' hs', allSteps_of_step h es s'⟩

/-- A property of the events of a run is one of its steps. -/
theorem allSteps_of_forall_mem {C : ε → Prop} :
    ∀ {es : List ε} {s : σ}, (∀ e ∈ es, C e) → AllSteps step (fun _ e _ => C e) s es
  | [], _, _ => trivial
  | e :: _, _, h => fun _ _ =>
      ⟨h e List.mem_cons_self, allSteps_of_forall_mem fun e' he' =>
        h e' (List.mem_cons_of_mem e he')⟩

/-- **The invariant rule.**  What every step preserves holds after every run. -/
theorem run_of_invariant {I : σ → Prop} (hstep : ∀ s e s', I s → step s e = some s' → I s')
    {es : List ε} {s t : σ} (hs : I s) (hrun : run step s es = some t) : I t := by
  refine run_of_invariant_of_allSteps (P := fun _ _ _ => True) ?_ hs (allSteps_true es s) hrun
  intro s e s' hI _ h
  exact hstep s e s' hI h

/-- The step of an event of a run: the invariant holds before it, and the run goes on
after it. -/
theorem exists_step_of_mem {I : σ → Prop} (hstep : ∀ s e s', I s → step s e = some s' → I s')
    {es : List ε} {e : ε} {s t : σ} (hs : I s) (he : e ∈ es) (hrun : run step s es = some t) :
    ∃ q q' post, I q ∧ step q e = some q' ∧ run step q' post = some t := by
  obtain ⟨pre, post, rfl⟩ := List.append_of_mem he
  rw [run_append] at hrun
  obtain ⟨q, hpre, hrun⟩ := Option.bind_eq_some_iff.mp hrun
  obtain ⟨q', hq', hpost⟩ := run_cons_eq_some hrun
  exact ⟨q, q', post, run_of_invariant hstep hs hpre, hq', hpost⟩

/-- The state at which a list of events is left after some of them. -/
def LeftAt (step : σ → ε → Option σ) (es : List ε) (s t : σ) : Prop :=
  ∃ done, done <+: es ∧ run step s done = some t

/-- One more step in front, for a step that is known. -/
theorem AllSteps.cons {P : σ → ε → σ → Prop} {s s' : σ} {e : ε} {es : List ε}
    (hs : step s e = some s') (hP : P s e s') (h : AllSteps step P s' es) :
    AllSteps step P s (e :: es) := by
  intro t ht
  obtain rfl : s' = t := Option.some.inj (hs.symm.trans ht)
  exact ⟨hP, h⟩

theorem AllSteps.and {P Q : σ → ε → σ → Prop} : ∀ {es : List ε} {s : σ}, AllSteps step P s es →
    AllSteps step Q s es → AllSteps step (fun s e s' => P s e s' ∧ Q s e s') s es
  | [], _, _, _ => trivial
  | _ :: _, _, hP, hQ => fun s' hs' =>
      ⟨⟨(hP s' hs').1, (hQ s' hs').1⟩, (hP s' hs').2.and (hQ s' hs').2⟩

theorem AllSteps.imp {P Q : σ → ε → σ → Prop} (h : ∀ s e s', P s e s' → Q s e s') :
    ∀ {es : List ε} {s : σ}, AllSteps step P s es → AllSteps step Q s es
  | [], _, _ => trivial
  | _ :: _, _, hP => fun s' hs' => ⟨h _ _ s' (hP s' hs').1, (hP s' hs').2.imp h⟩

/-- What holds of every step may be asked of every step besides. -/
theorem allSteps_and_iff {P Q : σ → ε → σ → Prop} {es : List ε} {s : σ}
    (hQ : AllSteps step Q s es) :
    AllSteps step (fun s e s' => P s e s' ∧ Q s e s') s es ↔ AllSteps step P s es :=
  ⟨AllSteps.imp fun _ _ _ h => h.1, fun hP => hP.and hQ⟩

/-- What holds of the steps of a run holds of the steps after any of its states. -/
theorem AllSteps.of_append {P : σ → ε → σ → Prop} {fs : List ε} :
    ∀ {es : List ε} {s t : σ}, AllSteps step P s (es ++ fs) → run step s es = some t →
      AllSteps step P t fs := by
  intro es
  induction es with
  | nil =>
    intro s t h hrun
    obtain rfl : s = t := Option.some.inj hrun
    exact h
  | cons e es ih =>
    intro s t h hrun
    obtain ⟨s', hs', hrun'⟩ := run_cons_eq_some hrun
    exact ih (h s' hs').2 hrun'

/-- **Refuting a step property by evaluation**: the last step of a run violates it. -/
theorem not_allSteps_of_check {P : σ → ε → σ → Prop} {s : σ} {es : List ε} {e : ε}
    (check : σ → σ → Bool) (hcheck : ∀ t t', check t t' = true → ¬ P t e t')
    (h : ((run step s es).bind fun t => (step t e).map (check t)) = some true) :
    ¬ AllSteps step P s (es ++ [e]) := by
  intro hall
  obtain ⟨t, hrun, h⟩ := Option.bind_eq_some_iff.mp h
  obtain ⟨t', hstep, h⟩ := Option.map_eq_some_iff.mp h
  exact hcheck t t' h (hall.of_append hrun t' hstep).1

/-- Step properties transfer along an invariant that the property itself maintains. -/
theorem allSteps_of_invariant {I : σ → Prop} {P Q : σ → ε → σ → Prop}
    (himp : ∀ s e s', I s → step s e = some s' → P s e s' → Q s e s')
    (hstep : ∀ s e s', I s → step s e = some s' → P s e s' → I s') :
    ∀ {es : List ε} {s : σ}, I s → AllSteps step P s es → AllSteps step Q s es := by
  intro es
  induction es with
  | nil => intro s _ _; trivial
  | cons e es ih =>
    intro s hs hall s' hs'
    obtain ⟨hP, hall'⟩ := hall s' hs'
    exact ⟨himp s e s' hs hs' hP, ih (hstep s e s' hs hs' hP) hall'⟩

/-- **Two step properties that agree wherever the invariant holds are the same
property of runs.**  The invariant need only survive the steps that satisfy them. -/
theorem allSteps_iff {I : σ → Prop} {P Q : σ → ε → σ → Prop}
    (hiff : ∀ s e s', I s → step s e = some s' → (P s e s' ↔ Q s e s'))
    (hstep : ∀ s e s', I s → step s e = some s' → P s e s' → I s') {es : List ε} {s : σ}
    (hs : I s) : AllSteps step P s es ↔ AllSteps step Q s es := by
  have hPQ : ∀ s e s', I s → step s e = some s' → P s e s' → Q s e s' := by
    intro s e s' hI h
    exact (hiff s e s' hI h).mp
  have hQP : ∀ s e s', I s → step s e = some s' → Q s e s' → P s e s' := by
    intro s e s' hI h
    exact (hiff s e s' hI h).mpr
  constructor
  · exact allSteps_of_invariant hPQ hstep hs
  · refine allSteps_of_invariant hQP ?_ hs
    intro s e s' hI h hQ
    exact hstep s e s' hI h (hQP s e s' hI h hQ)

/-! ### Two systems -/

theorem rel_map {α β α' β' : Type*} {R : α → β → Prop} {R' : α' → β' → Prop} {f : α → α'}
    {g : β → β'}
    (h : ∀ a b, R a b → R' (f a) (g b)) {x : Option α} {y : Option β} (hxy : Option.Rel R x y) :
    Option.Rel R' (x.map f) (y.map g) := by
  cases hxy with
  | none => exact .none
  | some hab => exact .some (h _ _ hab)

theorem map_eq_of_rel {α β γ : Type*} {R : α → β → Prop} {f : α → γ} {g : β → γ}
    (h : ∀ a b, R a b → f a = g b)
    {x : Option α} {y : Option β} (hxy : Option.Rel R x y) : x.map f = y.map g := by
  cases hxy with
  | none => rfl
  | some hab => exact congrArg some (h _ _ hab)

/-- **Two systems whose steps correspond** have runs that correspond; of the steps of the
first a property may be asked. -/
theorem rel_run {τ : Type*} {step' : τ → ε → Option τ} {R : σ → τ → Prop} {P : σ → ε → σ → Prop}
    (h : ∀ s t e, R s t → (∀ s', step s e = some s' → P s e s') →
      Option.Rel R (step s e) (step' t e)) :
    ∀ {es : List ε} {s : σ} {t : τ}, R s t → AllSteps step P s es →
      Option.Rel R (run step s es) (run step' t es) := by
  intro es
  induction es with
  | nil => intro s t hst _; exact .some hst
  | cons e es ih =>
    intro s t hst hall
    have hstep := h s t e hst fun s' hs' => (hall s' hs').1
    rw [run_cons, run_cons]
    generalize ht : step' t e = t' at hstep
    cases hs : step s e with
    | none =>
      rw [hs] at hstep
      cases hstep
      exact .none
    | some s' =>
      rw [hs] at hstep
      cases hstep with
      | some hst' => exact ih hst' (hall s' hs).2

end Runs
