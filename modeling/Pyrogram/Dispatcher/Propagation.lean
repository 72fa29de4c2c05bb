import Pyrogram.Dispatcher.Registry
import Pyrogram.Runs

/-!
# Propagation of an update

`handler_worker` takes an update through the groups of handlers; a callback that raises is
followed by the error handlers, in a loop of their own.  Handlers may be added and removed
while it waits for a check or a callback, which are the events of a run.

`Reference` says what should be run, on one list of registrations: it knows no nested loops,
and it asks an error handler for its check as well.

## Main definitions

* `Dispatcher`, `step` — the worker and the handlers.
* `Reference`, `Reference.step` — what should be run.
* `ErrorChecksPass` — the check of the error handler that is reached would not keep it from the
  exception.

## Main results

* `rel_step` — the two go on together.
* `propagation` — **the same callbacks are run** where no error handler is reached whose check
  fails.
* `propagation_errorCheck` — an error handler is run though its check fails.
-/

namespace Pyrogram

open Runs ByKey

namespace Dispatcher

variable {κ ε : Type}

/-- How a check ends. -/
inductive Check
  | passes
  | fails
  | raises
  deriving DecidableEq, Repr

/-- How a callback ends. -/
inductive Outcome (ε : Type)
  | returns
  | continuePropagation
  | stopPropagation
  /-- Any other `Exception`. -/
  | raises (exc : ε)
  deriving DecidableEq, Repr

/-- A callback that is run. -/
inductive Callback (κ ε : Type)
  | update (handler : Handler κ ε)
  | error (handler : Handler κ ε) (exc : ε)
  deriving DecidableEq, Repr

inductive Event (κ ε : Type)
  | addHandler (handler : Handler κ ε) (group : ℤ)
  | removeHandler (handler : Handler κ ε) (group : ℤ)
  /-- An update was taken from the queue, and its parser has returned the class of its
  handlers; `none` is `type(None)`. -/
  | parsed (handlerType : Option κ)
  | checked (check : Check)
  | ended (outcome : Outcome ε)
  deriving DecidableEq, Repr

/-- `isinstance(handler, handler_type)`, or a raw update handler. -/
def Handler.handles [DecidableEq κ] (handlerType : Option κ) (handler : Handler κ ε) : Bool :=
  match handler.kind with
  | .update type => handlerType = some type
  | .rawUpdate => true
  | .error _ => false

/-- An error handler for which `isinstance(exc, handler.exceptions)`. -/
def Handler.catches (isinstance : ε → ε → Bool) (exc : ε) (handler : Handler κ ε) : Bool :=
  match handler.kind with
  | .error exceptions => exceptions.any (isinstance exc)
  | .update _ | .rawUpdate => false

/-- What the worker awaits, with the rest of the loop over a group and of the loop over the
groups. -/
inductive Phase (κ ε : Type)
  /-- An update, and its parser. -/
  | waiting
  /-- `handler.check`. -/
  | checking (handlerType : Option κ) (handler : Handler κ ε) (group : List (Handler κ ε))
      (groups : Groups κ ε)
  /-- `handler.callback`. -/
  | running (handlerType : Option κ) (handler : Handler κ ε) (group : List (Handler κ ε))
      (groups : Groups κ ε)
  /-- The callback of an error handler; the update goes on with `groups`. -/
  | handling (handlerType : Option κ) (groups : Groups κ ε) (exc : ε) (handler : Handler κ ε)
      (errorGroup : List (Handler κ ε)) (errorGroups : Groups κ ε)
  deriving DecidableEq, Repr

end Dispatcher

structure Dispatcher (κ ε : Type) where
  groups : Dispatcher.Groups κ ε := []
  phase : Dispatcher.Phase κ ε := .waiting
  /-- The callbacks that have been run. -/
  ran : List (Dispatcher.Callback κ ε) := []
  deriving DecidableEq, Repr

namespace Dispatcher

/-- The loop over a group, up to a handler that is not skipped. -/
def scan (p : Handler κ ε → Bool) : List (Handler κ ε) → Option (Handler κ ε × List (Handler κ ε))
  | [] => none
  | handler :: group => if p handler then some (handler, group) else scan p group

/-- The loops over a group and the groups after it. -/
def seek (p : Handler κ ε → Bool) (group : List (Handler κ ε)) :
    Groups κ ε → Option (Handler κ ε × List (Handler κ ε) × Groups κ ε)
  | [] => (scan p group).map fun (handler, group) => (handler, group, [])
  | (key, handlers) :: groups =>
      match scan p group with
      | some (handler, group) => some (handler, group, (key, handlers) :: groups)
      | none => seek p handlers groups

section Worker

variable [DecidableEq κ] [DecidableEq ε] (isinstance : ε → ε → Bool)

/-- The loops of `handler_worker` go on. -/
def resume (handlerType : Option κ) (group : List (Handler κ ε)) (groups : Groups κ ε) :
    Phase κ ε :=
  match seek (Handler.handles handlerType) group groups with
  | some (handler, group, groups) => .checking handlerType handler group groups
  | none => .waiting

/-- The loops of `handle_update_handler_exception` go on, and then those of the worker. -/
def handle (handlerType : Option κ) (groups : Groups κ ε) (exc : ε)
    (errorGroup : List (Handler κ ε))
    (errorGroups : Groups κ ε) : Phase κ ε :=
  match seek (Handler.catches isinstance exc) errorGroup errorGroups with
  | some (handler, errorGroup, errorGroups) =>
      .handling handlerType groups exc handler errorGroup errorGroups
  | none => resume handlerType [] groups

/-- The callback that is run on the way to a phase. -/
def Phase.begun : Phase κ ε → List (Callback κ ε)
  | .waiting | .checking .. => []
  | .running _ handler _ _ => [.update handler]
  | .handling _ _ exc handler _ _ => [.error handler exc]

def enter (s : Dispatcher κ ε) (phase : Phase κ ε) : Dispatcher κ ε :=
  { s with phase, ran := s.ran ++ phase.begun }

/-- What follows an event, for the worker; `none` where it does not wait for that. -/
def Phase.next (groups : Groups κ ε) : Phase κ ε → Event κ ε → Option (Phase κ ε)
  | .waiting, .parsed handlerType => some (resume handlerType [] groups)
  | .checking handlerType handler group rest, .checked .passes =>
      some (.running handlerType handler group rest)
  | .checking handlerType _ group rest, .checked .fails
  | .checking handlerType _ group rest, .checked .raises => some (resume handlerType group rest)
  | .running handlerType _ group rest, .ended outcome =>
      match outcome with
      | .returns => some (resume handlerType [] rest)
      | .continuePropagation => some (resume handlerType group rest)
      | .stopPropagation => some .waiting
      | .raises exc => some (handle isinstance handlerType rest exc [] groups)
  | .handling handlerType rest exc _ errorGroup errorGroups, .ended outcome =>
      match outcome with
      | .returns | .raises _ => some (handle isinstance handlerType rest exc [] errorGroups)
      | .continuePropagation => some (handle isinstance handlerType rest exc errorGroup errorGroups)
      | .stopPropagation => some (resume handlerType [] rest)
  | _, _ => none

/-- One event; `none` where it is not enabled. -/
def step (s : Dispatcher κ ε) (e : Event κ ε) : Option (Dispatcher κ ε) :=
  match e with
  | .addHandler handler group =>
      some { s with groups := Dispatcher.addHandler s.groups handler group }
  -- a `ValueError` leaves the groups as they are
  | .removeHandler handler group =>
      some { s with groups := (Dispatcher.removeHandler s.groups handler group).getD s.groups }
  | e => (s.phase.next isinstance s.groups e).map s.enter

/-! ### What should be run -/

/-- The handlers that are considered: in the order of their groups, then of registration. -/
def considered (p : Handler κ ε → Bool) (registered : List (ℤ × Handler κ ε)) :
    List (ℤ × Handler κ ε) :=
  (byKey Prod.fst registered).filter fun r => p r.2

/-- What is left of them after a group. -/
def leave (group : ℤ) (rest : List (ℤ × Handler κ ε)) : List (ℤ × Handler κ ε) :=
  rest.filter fun r => r.1 ≠ group

/-- What is awaited, with the handlers that are left. -/
inductive RefPhase (κ ε : Type)
  | waiting
  | checking (current : ℤ × Handler κ ε) (rest : List (ℤ × Handler κ ε))
  | running (current : ℤ × Handler κ ε) (rest : List (ℤ × Handler κ ε))
  | handling (rest : List (ℤ × Handler κ ε)) (exc : ε) (current : ℤ × Handler κ ε)
      (errors : List (ℤ × Handler κ ε))
  deriving DecidableEq, Repr

/-- The next handler is checked. -/
def RefPhase.resume : List (ℤ × Handler κ ε) → RefPhase κ ε
  | [] => .waiting
  | current :: rest => .checking current rest

/-- The next error handler is run. -/
def RefPhase.handle (rest : List (ℤ × Handler κ ε)) (exc : ε) : List (ℤ × Handler κ ε) →
    RefPhase κ ε
  | [] => .resume rest
  | current :: errors => .handling rest exc current errors

def RefPhase.begun : RefPhase κ ε → List (Callback κ ε)
  | .waiting | .checking .. => []
  | .running current _ => [.update current.2]
  | .handling _ exc current _ => [.error current.2 exc]

/-- The rules: a check that passes lets the callback run, and the group ends with it unless it
continues; an exception goes to the error handlers, each with its check, and ends the group. -/
def RefPhase.next (errorCheck : Handler κ ε → Check) (registered : List (ℤ × Handler κ ε)) :
    RefPhase κ ε → Event κ ε → Option (RefPhase κ ε)
  | .waiting, .parsed handlerType =>
      some (.resume (considered (Handler.handles handlerType) registered))
  | .checking current rest, .checked .passes => some (.running current rest)
  | .checking _ rest, .checked .fails | .checking _ rest, .checked .raises => some (.resume rest)
  | .running current rest, .ended outcome =>
      match outcome with
      | .returns => some (.resume (leave current.1 rest))
      | .continuePropagation => some (.resume rest)
      | .stopPropagation => some .waiting
      | .raises exc => some (.handle (leave current.1 rest) exc
          (considered (fun handler => handler.catches isinstance exc && errorCheck handler =
            .passes) registered))
  | .handling rest exc current errors, .ended outcome =>
      match outcome with
      | .returns | .raises _ => some (.handle rest exc (leave current.1 errors))
      | .continuePropagation => some (.handle rest exc errors)
      | .stopPropagation => some (.resume rest)
  | _, _ => none

/-- What should be run, on the registrations in their order. -/
structure Reference (κ ε : Type) where
  registered : List (ℤ × Handler κ ε) := []
  phase : RefPhase κ ε := .waiting
  ran : List (Callback κ ε) := []
  deriving DecidableEq, Repr

def Reference.enter (s : Reference κ ε) (phase : RefPhase κ ε) : Reference κ ε :=
  { s with phase, ran := s.ran ++ phase.begun }

def Reference.step (errorCheck : Handler κ ε → Check) (s : Reference κ ε) (e : Event κ ε) :
    Option (Reference κ ε) :=
  match e with
  | .addHandler handler group => some { s with registered := s.registered ++ [(group, handler)] }
  | .removeHandler handler group =>
      some { s with registered := s.registered.erase (group, handler) }
  | e => (s.phase.next isinstance errorCheck s.registered e).map s.enter

/-- The error handler that is reached, once a callback has ended. -/
def Phase.reached (groups : Groups κ ε) : Phase κ ε → Outcome ε → Option (Handler κ ε)
  | .running .., .raises exc => (seek (Handler.catches isinstance exc) [] groups).map Prod.fst
  | .handling _ _ exc _ errorGroup errorGroups, .continuePropagation =>
      (seek (Handler.catches isinstance exc) errorGroup errorGroups).map Prod.fst
  | .handling _ _ exc _ _ errorGroups, .returns | .handling _ _ exc _ _ errorGroups, .raises _ =>
      (seek (Handler.catches isinstance exc) [] errorGroups).map Prod.fst
  | _, _ => none

/-- The check of the error handler that is reached would not keep it from the exception. -/
def ErrorChecksPass (errorCheck : Handler κ ε → Check) (s : Dispatcher κ ε) (e : Event κ ε) :
    Prop :=
  ∀ outcome, e = .ended outcome → ∀ handler ∈ s.phase.reached isinstance s.groups outcome,
    errorCheck handler = .passes

end Worker

/-! ### What is left of the loops -/

variable {isinstance : ε → ε → Bool} {errorCheck : Handler κ ε → Check} {p : Handler κ ε → Bool}
    {group : List (Handler κ ε)}
  {groups : Groups κ ε} {handler : Handler κ ε} {key : ℤ} {rest : List (ℤ × Handler κ ε)}

/-- What is left for the nested loops in a group, as one list. -/
structure Ahead (p : Handler κ ε → Bool) (key : ℤ) (group : List (Handler κ ε))
    (groups : Groups κ ε)
    (rest : List (ℤ × Handler κ ε)) : Prop where
  sorted : (key :: groups.map Prod.fst).Pairwise (· < ·)
  rest : rest = (group.map (key, ·) ++ flat groups).filter fun r => p r.2

/-- The groups that are left are ahead of any group. -/
theorem Ahead.leave (h : Ahead p key group groups rest) :
    Dispatcher.leave key rest = (flat groups).filter fun r => p r.2 := by
  have hgroup : (group.map (key, ·)).filter (fun r => decide (r.1 ≠ key) && p r.2) = [] := by
    refine List.filter_eq_nil_iff.mpr fun r hr => ?_
    obtain ⟨-, -, rfl⟩ := List.mem_map.mp hr
    simp
  have hgroups : (flat groups).filter (fun r => decide (r.1 ≠ key) && p r.2) =
      (flat groups).filter fun r => p r.2 := by
    refine List.filter_congr fun r hr => ?_
    obtain ⟨g, hg, hr⟩ := List.mem_flatMap.mp hr
    obtain ⟨-, -, rfl⟩ := List.mem_map.mp hr
    have hlt : key < g.1 := List.rel_of_pairwise_cons h.sorted (List.mem_map_of_mem hg)
    simp [hlt.ne']
  rw [Dispatcher.leave, h.rest, List.filter_filter, List.filter_append, hgroup, hgroups,
    List.nil_append]

/-- What is left after a group, as what is left in an empty one. -/
theorem Ahead.leave_nil (h : Ahead p key group groups rest) :
    Ahead p key [] groups (Dispatcher.leave key rest) :=
  ⟨h.sorted, h.leave⟩

/-- A group before all others. -/
theorem exists_lt_all (l : List ℤ) : ∃ k, ∀ a ∈ l, k < a := by
  induction l with
  | nil => exact ⟨0, nofun⟩
  | cons a l ih =>
    obtain ⟨k, hk⟩ := ih
    refine ⟨min k (a - 1), fun b hb => ?_⟩
    rcases List.mem_cons.mp hb with rfl | hb
    · exact lt_of_le_of_lt (min_le_right _ _) (Int.sub_one_lt_of_le le_rfl)
    · exact lt_of_le_of_lt (min_le_left _ _) (hk b hb)

/-- The loops begin with all that is considered. -/
theorem ahead_considered {registered : List (ℤ × Handler κ ε)} (h : Lists groups registered)
    (p : Handler κ ε → Bool) :
    ∃ key, Ahead p key [] groups (considered p registered) := by
  obtain ⟨key, hkey⟩ := exists_lt_all (groups.map Prod.fst)
  exact ⟨key, List.pairwise_cons.mpr ⟨hkey, h.sorted⟩, by rw [considered, ← h.flat]; rfl⟩

/-- Where the loops find the first of what is left. -/
def Found (p : Handler κ ε → Bool) : Option (Handler κ ε × List (Handler κ ε) × Groups κ ε) →
    List (ℤ × Handler κ ε) → Prop
  | none, rest => rest = []
  | some (handler, group, groups), rest =>
      ∃ key rest', rest = (key, handler) :: rest' ∧ Ahead p key group groups rest'

theorem scan_eq (p : Handler κ ε → Bool) (key : ℤ) (group : List (Handler κ ε)) :
    (scan p group = none → (group.map (key, ·)).filter (fun r => p r.2) = []) ∧
    ∀ handler group', scan p group = some (handler, group') →
      (group.map (key, ·)).filter (fun r => p r.2) = (key, handler) :: (group'.map (key, ·)).filter
        fun r => p r.2 := by
  induction group with
  | nil => exact ⟨fun _ => rfl, nofun⟩
  | cons handler group ih =>
    rw [scan]
    split
    · next hp =>
      refine ⟨nofun, fun handler' group' h => ?_⟩
      cases h
      simp only [List.map_cons, List.filter_cons, hp, if_true]
    · next hp =>
      simpa only [List.map_cons, List.filter_cons, hp, Bool.false_eq_true, if_false] using ih

/-- **The loops find the first of what is left.** -/
theorem found_seek (h : Ahead p key group groups rest) : Found p (seek p group groups) rest := by
  induction groups generalizing key group rest with
  | nil =>
    obtain ⟨hnone, hsome⟩ := scan_eq p key group
    have hrest := h.rest
    rw [flat, List.flatMap_nil, List.append_nil] at hrest
    rw [seek]
    cases hscan : scan p group with
    | none => exact hrest.trans (hnone hscan)
    | some found =>
      obtain ⟨handler, group'⟩ := found
      refine ⟨key, _, hrest.trans (hsome handler group' hscan), h.sorted, ?_⟩
      rw [flat, List.flatMap_nil, List.append_nil]
  | cons g groups ih =>
    obtain ⟨key', handlers⟩ := g
    obtain ⟨hnone, hsome⟩ := scan_eq p key group
    have hrest := h.rest
    rw [List.filter_append] at hrest
    rw [seek]
    split
    · next handler group' hscan =>
      refine ⟨key, _, ?_, h.sorted, rfl⟩
      rw [hrest, hsome handler group' hscan, List.filter_append]
      rfl
    · next hscan =>
      rw [hnone hscan, List.nil_append, flat_cons] at hrest
      exact ih ⟨h.sorted.of_cons, hrest⟩

/-! ### The two go on together -/

variable {handlerType : Option κ} {exc : ε} {s : Dispatcher κ ε} {r : Reference κ ε} {e : Event κ ε}

/-- The registrations whose check passes. -/
def passing (errorCheck : Handler κ ε → Check) (errors : List (ℤ × Handler κ ε)) :
    List (ℤ × Handler κ ε) :=
  errors.filter fun r => errorCheck r.2 = .passes

theorem leave_passing (errors : List (ℤ × Handler κ ε)) (key : ℤ) :
    leave key (passing errorCheck errors) = passing errorCheck (leave key errors) := by
  simp only [leave, passing, List.filter_filter, Bool.and_comm]

variable [DecidableEq κ]

/-- They await the same, with the same left to do; the rules leave out the error handlers whose
check does not pass. -/
inductive Together (isinstance : ε → ε → Bool) (errorCheck : Handler κ ε → Check) :
    Phase κ ε → RefPhase κ ε → Prop
  | waiting : Together isinstance errorCheck .waiting .waiting
  | checking {handlerType : Option κ} {handler : Handler κ ε} {key : ℤ} {group : List (Handler κ ε)}
      {groups : Groups κ ε} {rest : List (ℤ × Handler κ ε)}
      (h : Ahead (Handler.handles handlerType) key group groups rest) :
      Together isinstance errorCheck (.checking handlerType handler group groups)
        (.checking (key, handler) rest)
  | running {handlerType : Option κ} {handler : Handler κ ε} {key : ℤ} {group : List (Handler κ ε)}
      {groups : Groups κ ε} {rest : List (ℤ × Handler κ ε)}
      (h : Ahead (Handler.handles handlerType) key group groups rest) :
      Together isinstance errorCheck (.running handlerType handler group groups)
        (.running (key, handler) rest)
  | handling {handlerType : Option κ} {handler : Handler κ ε} {key errorKey : ℤ} {exc : ε}
      {groups errorGroups : Groups κ ε} {errorGroup : List (Handler κ ε)}
      {rest errors : List (ℤ × Handler κ ε)}
      (h : Ahead (Handler.handles handlerType) key [] groups rest)
      (herrors : Ahead (Handler.catches isinstance exc) errorKey errorGroup errorGroups errors) :
      Together isinstance errorCheck (.handling handlerType groups exc handler errorGroup
        errorGroups)
        (.handling rest exc (errorKey, handler) (passing errorCheck errors))

theorem Together.begun {phase : Phase κ ε} {phase' : RefPhase κ ε}
    (h : Together isinstance errorCheck phase phase') :
    phase.begun = phase'.begun := by
  cases h <;> rfl

/-- The two states agree. -/
structure Agrees (isinstance : ε → ε → Bool) (errorCheck : Handler κ ε → Check) (s : Dispatcher κ ε)
    (r : Reference κ ε) : Prop where
  groups : Lists s.groups r.registered
  phase : Together isinstance errorCheck s.phase r.phase
  ran : s.ran = r.ran

theorem agrees_enter {phase : Phase κ ε} {phase' : RefPhase κ ε}
    (h : Agrees isinstance errorCheck s r)
    (hphase : Together isinstance errorCheck phase phase') :
    Agrees isinstance errorCheck (s.enter phase) (r.enter phase') := by
  refine ⟨h.groups, hphase, ?_⟩
  rw [enter, Reference.enter, h.ran, hphase.begun]

theorem together_resume (h : Ahead (Handler.handles handlerType) key group groups rest) :
    Together isinstance errorCheck (resume handlerType group groups) (.resume rest) := by
  have hfound := found_seek h
  unfold resume
  split
  · next handler group' groups' hseek =>
    rw [hseek] at hfound
    obtain ⟨key', rest', rfl, hahead⟩ := hfound
    exact .checking hahead
  · next hseek =>
    rw [hseek] at hfound
    obtain rfl : rest = [] := hfound
    exact .waiting

/-- The error handler that is reached is the next one by the rules too, if its check passes. -/
theorem together_handle {errorGroup : List (Handler κ ε)} {errorGroups : Groups κ ε}
    {errors : List (ℤ × Handler κ ε)} {errorKey : ℤ}
    (h : Ahead (Handler.handles handlerType) key [] groups rest)
    (herrors : Ahead (Handler.catches isinstance exc) errorKey errorGroup errorGroups errors)
    (hcheck : ∀ handler ∈ (seek (Handler.catches isinstance exc) errorGroup errorGroups).map
      Prod.fst, errorCheck handler = .passes) :
    Together isinstance errorCheck (handle isinstance handlerType groups exc errorGroup errorGroups)
      (.handle rest exc (passing errorCheck errors)) := by
  have hfound := found_seek herrors
  unfold handle
  split
  · next handler group' groups' hseek =>
    rw [hseek] at hfound hcheck
    obtain ⟨key', errors', rfl, hahead⟩ := hfound
    have hpassing : passing errorCheck ((key', handler) :: errors') = (key', handler) :: passing
        errorCheck errors' :=
      List.filter_cons_of_pos (decide_eq_true (hcheck handler rfl))
    rw [hpassing]
    exact .handling h hahead
  · next hseek =>
    rw [hseek] at hfound
    obtain rfl : errors = [] := hfound
    exact together_resume h

/-- **What follows an event is the same** for both. -/
theorem together_next {registered : List (ℤ × Handler κ ε)} {phase : Phase κ ε}
    {phase' : RefPhase κ ε}
    (hgroups : Lists groups registered) (h : Together isinstance errorCheck phase phase')
    (e : Event κ ε)
    (hchecks : ∀ next, phase.next isinstance groups e = some next → ∀ outcome, e = .ended outcome →
      ∀ handler ∈ phase.reached isinstance groups outcome, errorCheck handler = .passes) :
    Option.Rel (Together isinstance errorCheck) (phase.next isinstance groups e)
      (phase'.next isinstance errorCheck registered e) := by
  -- in each phase the two take the same handler next
  cases h with
  | waiting =>
    cases e with
    | parsed handlerType =>
      obtain ⟨key, hahead⟩ := ahead_considered hgroups (Handler.handles handlerType)
      exact .some (together_resume hahead)
    | addHandler | removeHandler | checked | ended => exact .none
  | checking h =>
    cases e with
    | checked check =>
      cases check with
      | passes => exact .some (.running h)
      | fails | raises => exact .some (together_resume h)
    | addHandler | removeHandler | parsed | ended => exact .none
  | running h =>
    cases e with
    | ended outcome =>
      cases outcome with
      | returns => exact .some (together_resume h.leave_nil)
      | continuePropagation => exact .some (together_resume h)
      | stopPropagation => exact .some .waiting
      | raises exc =>
        have hpassing : considered (fun handler => handler.catches isinstance exc &&
          errorCheck handler = .passes)
            registered = passing errorCheck
              (considered (Handler.catches isinstance exc) registered) := by
          simp only [considered, passing, List.filter_filter, Bool.and_comm]
        obtain ⟨errorKey, hahead⟩ := ahead_considered hgroups (Handler.catches isinstance exc)
        exact .some (hpassing ▸ together_handle h.leave_nil hahead (hchecks _ rfl _ rfl))
    | addHandler | removeHandler | parsed | checked => exact .none
  | handling h herrors =>
    cases e with
    | ended outcome =>
      cases outcome with
      | returns | raises =>
        have hnext := together_handle h herrors.leave_nil (hchecks _ rfl _ rfl)
        rw [← leave_passing] at hnext
        exact .some hnext
      | continuePropagation => exact .some (together_handle h herrors (hchecks _ rfl _ rfl))
      | stopPropagation => exact .some (together_resume h)
    | addHandler | removeHandler | parsed | checked => exact .none

variable [DecidableEq ε]

/-- **An event keeps the two in agreement.** -/
theorem rel_step (h : Agrees isinstance errorCheck s r)
    (hchecks : ∀ s', step isinstance s e = some s' → ErrorChecksPass isinstance errorCheck s e) :
    Option.Rel (Agrees isinstance errorCheck) (step isinstance s e)
      (r.step isinstance errorCheck e) := by
  have hmap : Option.Rel (Agrees isinstance errorCheck)
    ((s.phase.next isinstance s.groups e).map s.enter)
      ((r.phase.next isinstance errorCheck r.registered e).map r.enter) := by
    refine rel_map (fun _ _ hphase => agrees_enter h hphase) (together_next h.groups h.phase e ?_)
    rintro phase hphase outcome rfl
    refine hchecks (s.enter phase) ?_ outcome rfl
    show (s.phase.next isinstance s.groups _).map s.enter = _
    rw [hphase]
    rfl
  cases e with
  | addHandler handler group =>
      exact .some ⟨lists_addHandler h.groups handler group, h.phase, h.ran⟩
  | removeHandler handler group =>
    obtain ⟨hnone, hsome⟩ := lists_removeHandler h.groups handler group
    have hgroups : Lists ((Dispatcher.removeHandler s.groups handler group).getD s.groups)
        (r.registered.erase (group, handler)) := by
      cases hremove : Dispatcher.removeHandler s.groups handler group with
      | none =>
        rw [List.erase_of_not_mem (hnone.mp hremove)]
        exact h.groups
      | some groups' => exact hsome groups' hremove
    exact .some ⟨hgroups, h.phase, h.ran⟩
  | parsed | checked | ended => exact hmap

/-- **The callbacks that are run are those that should be**, for any handlers added and removed at
any time and any outcomes, where the checks of the error handlers that are reached pass. -/
theorem propagation {events : List (Event κ ε)}
    (hchecks : AllSteps (step isinstance) (fun s e _ => ErrorChecksPass isinstance errorCheck s e)
      {} events) :
    (run (step isinstance) {} events).map Dispatcher.ran =
      (run (Reference.step isinstance errorCheck) {} events).map Reference.ran := by
  refine map_eq_of_rel (R := Agrees isinstance errorCheck) (fun _ _ h => h.ran) ?_
  refine rel_run ?_ (⟨⟨List.Pairwise.nil, rfl⟩, .waiting, rfl⟩ : Agrees isinstance errorCheck {} {})
    hchecks
  exact fun s r e h hchecks => rel_step h hchecks

/-- A raw update handler raises, and an error handler without filters is run. -/
theorem propagation_noFilters :
    (run (step fun (_ _ : Unit) => true) {} [.addHandler ⟨0, .rawUpdate⟩ 0,
      .addHandler ⟨1, .error [()]⟩ 1,
      .parsed (none : Option Unit), .checked .passes, .ended (.raises ())]).map Dispatcher.ran =
    (run (Reference.step (fun _ _ => true) fun _ => .passes) {} [.addHandler ⟨0, .rawUpdate⟩ 0,
      .addHandler ⟨1, .error [()]⟩ 1, .parsed none, .checked .passes, .ended (.raises ())]).map
        Reference.ran := by
  refine propagation ?_
  refine allSteps_of_step ?_ _ _
  exact fun s e s' _ _ _ _ _ => rfl

/-- **An error handler is run though its filters keep the update from it.** -/
theorem propagation_errorCheck :
    (run (step fun (_ _ : Unit) => true) {} [.addHandler ⟨0, .rawUpdate⟩ 0,
      .addHandler ⟨1, .error [()]⟩ 1,
      .parsed (none : Option Unit), .checked .passes, .ended (.raises ())]).map Dispatcher.ran ≠
    (run (Reference.step (fun _ _ => true) fun _ => .fails) {} [.addHandler ⟨0, .rawUpdate⟩ 0,
      .addHandler ⟨1, .error [()]⟩ 1, .parsed none, .checked .passes, .ended (.raises ())]).map
        Reference.ran := by
  decide

end Dispatcher

end Pyrogram
