import Pyrogram.Dispatcher.Registry
import Pyrogram.Runs
import Mathlib.Data.List.Count

/-!
# Plugins

`Client.start` loads the plugins before it connects: the handlers of the modules that are
included are added to the dispatcher's groups, and those of the modules that are excluded are
removed from them again.  Modules are imported once, so it is the same handlers each time.

## Main definitions

* `Package`, `Config` — the modules, and which of their handlers are asked for.
* `loadPlugins` — the groups afterwards, and whether an entry or a removal raised.
* `step` — `start`, `stop`, `restart` and the user's `add_handler`.
* `Once` — the plugins' handlers are registered once, and the excluded ones not at all.
* `Fresh` — every entry is a pair, none is registered before, and they are listed without
  repetition.

## Main results

* `lists_loadPlugins` — what one call leaves registered.
* `once_iff` — **over a run, the handlers are registered once exactly where each start is fresh.**
-/

namespace Pyrogram.Dispatcher.Plugins

open ByKey Runs

/-! ### Modules -/

/-- An entry of the list `handlers` of a function. -/
inductive Offer (κ ε : Type)
  | handler (handler : Handler κ ε) (group : ℤ)
  /-- A start, stop, connect or disconnect handler: the client has an attribute for each. -/
  | lifecycle
  /-- Any other pair, of which there is a warning. -/
  | other
  /-- What is no pair, and raises `TypeError` where it is unpacked, as one of a logger's handlers
  does. -/
  | malformed
  deriving DecidableEq, Repr

/-- A module: its attributes, each with its list `handlers` if it has one. -/
structure Module (κ ε : Type) where
  /-- It has a `__path__`. -/
  isNamespace : Bool := false
  attributes : List (String × Option (List (Offer κ ε)))

/-- The modules of the directories of the root, and what can be imported. -/
structure Package (κ ε : Type) where
  found : List (Module κ ε)
  importModule : String → Option (Module κ ε)

/-- `include` and `exclude` name a module, and some of its functions or all. -/
structure Entry where
  path : String
  names : List String := []
  deriving DecidableEq, Repr

structure Config where
  enabled : Bool := true
  root : String
  includes : List Entry := []
  excludes : List Entry := []
  deriving DecidableEq, Repr

variable {κ ε : Type}

/-- What the functions of these names offer; without names, all of them. -/
def Module.offers (module : Module κ ε) (names : List String) : List (Offer κ ε) :=
  if names.isEmpty then module.attributes.flatMap fun a => a.2.getD []
  else names.flatMap fun name => ((module.attributes.lookup name).bind id).getD []

variable (package : Package κ ε)

/-- What the modules of the entries offer; one that does not exist, or is a namespace, is passed
over. -/
def offersOf (root : String) (entries : List Entry) : List (Offer κ ε) :=
  entries.flatMap fun entry =>
    match package.importModule (root ++ "." ++ entry.path) with
    | none => []
    | some module => if module.isNamespace then [] else module.offers entry.names

/-- What is loaded. -/
def loaded (plugins : Option Config) : List (Offer κ ε) :=
  match plugins with
  | none => []
  | some plugins =>
    if plugins.enabled then
      if plugins.includes.isEmpty then package.found.flatMap fun module => module.offers []
      else offersOf package plugins.root plugins.includes
    else []

/-- What is unloaded. -/
def unloaded (plugins : Option Config) : List (Offer κ ε) :=
  match plugins with
  | none => []
  | some plugins => if plugins.enabled then offersOf package plugins.root plugins.excludes else []

/-- The handlers for the dispatcher, with their groups. -/
def pairs (offers : List (Offer κ ε)) : List (ℤ × Handler κ ε) :=
  offers.filterMap fun
    | .handler handler group => some (group, handler)
    | .lifecycle | .other | .malformed => none

/-! ### Loading -/

/-- The additions, by `Client.add_handler` as far as it is about the groups, and whether one of the
entries raised. -/
def load (groups : Groups κ ε) : List (Offer κ ε) → Groups κ ε × Bool
  | [] => (groups, false)
  | .handler handler group :: offers => load (addHandler groups handler group) offers
  | .lifecycle :: offers | .other :: offers => load groups offers
  | .malformed :: _ => (groups, true)

variable [DecidableEq κ] [DecidableEq ε]

/-- The removals, and whether one of them or of the entries raised. -/
def unload (groups : Groups κ ε) : List (Offer κ ε) → Groups κ ε × Bool
  | [] => (groups, false)
  | .handler handler group :: offers =>
      match removeHandler groups handler group with
      | none => (groups, true)
      | some groups => unload groups offers
  | .lifecycle :: offers | .other :: offers => unload groups offers
  | .malformed :: _ => (groups, true)

/-- `Client.load_plugins` -/
def loadPlugins (plugins : Option Config) (groups : Groups κ ε) : Groups κ ε × Bool :=
  if (load groups (loaded package plugins)).2 then ((load groups (loaded package plugins)).1, true)
  else unload (load groups (loaded package plugins)).1 (unloaded package plugins)

/-! ### The client -/

structure State (κ ε : Type) where
  groups : Groups κ ε := []
  isInitialized : Bool := false

inductive Event (κ ε : Type)
  | addHandler (handler : Handler κ ε) (group : ℤ)
  /-- `fails` after `load_plugins`. -/
  | start (fails : Bool)
  | stop (clearHandlers : Bool)
  | restart (clearHandlers fails : Bool)
  deriving DecidableEq, Repr

variable (plugins : Option Config) (noUpdates : Bool)

/-- A start gets as far as to be initialized: a client that is connected is not connected again. -/
def succeeds (s : State κ ε) (fails : Bool) : Bool :=
  !(loadPlugins package plugins s.groups).2 && !s.isInitialized && !fails

def start (s : State κ ε) (fails : Bool) : State κ ε where
  groups := (loadPlugins package plugins s.groups).1
  isInitialized := s.isInitialized || succeeds package plugins s fails

/-- The client is terminated only where it is initialized, and handlers are cleared with the
workers. -/
def stop (s : State κ ε) (clearHandlers : Bool) : State κ ε :=
  if s.isInitialized then
    { groups := if clearHandlers && !noUpdates then [] else s.groups, isInitialized := false }
  else s

def step (s : State κ ε) : Event κ ε → Option (State κ ε)
  | .addHandler handler group => some { s with groups := addHandler s.groups handler group }
  | .start fails => some (start package plugins s fails)
  | .stop clearHandlers => some (stop noUpdates s clearHandlers)
  -- `stop` raises where there is nothing to stop
  | .restart clearHandlers fails =>
      if s.isInitialized then some (start package plugins (stop noUpdates s clearHandlers) fails)
        else some s

/-- The state in which an event calls `load_plugins`, and whether the start fails later. -/
def starting (s : State κ ε) : Event κ ε → Option (State κ ε × Bool)
  | .addHandler .. | .stop _ => none
  | .start fails => some (s, fails)
  | .restart clearHandlers fails =>
      if s.isInitialized then some (stop noUpdates s clearHandlers, fails) else none

/-! ### Once -/

/-- **The plugins' handlers are registered once**: nothing raised, and after a start that succeeds
each pair that is offered and not excluded is there once, and none that is excluded. -/
def Once (s : State κ ε) (e : Event κ ε) (s' : State κ ε) : Prop :=
  ∀ r fails, starting noUpdates s e = some (r, fails) →
    (loadPlugins package plugins r.groups).2 = false ∧
    (succeeds package plugins r fails = true →
      (∀ p ∈ pairs (loaded package plugins), p ∉ pairs (unloaded package plugins) →
        (flat s'.groups).count p = 1) ∧
      ∀ p ∈ pairs (unloaded package plugins), p ∉ flat s'.groups)

/-- Every entry of a function that is loaded or unloaded is a pair. -/
def WellFormed : Prop := .malformed ∉ loaded package plugins ∧ .malformed ∉ unloaded package plugins

/-- **A start is fresh**: every entry is a pair; what is excluded is there to be removed, and, where
the start is to succeed, is removed altogether; what is loaded and stays was not there before, and
is loaded once. -/
def Fresh (s : State κ ε) (e : Event κ ε) (_ : State κ ε) : Prop :=
  ∀ r fails, starting noUpdates s e = some (r, fails) →
    (WellFormed package plugins ∧
      ∀ p, (pairs (unloaded package plugins)).count p ≤
        (flat r.groups).count p + (pairs (loaded package plugins)).count p) ∧
    (r.isInitialized = false → fails = false →
      (∀ p ∈ pairs (loaded package plugins), p ∉ pairs (unloaded package plugins) →
        p ∉ flat r.groups ∧ (pairs (loaded package plugins)).count p = 1) ∧
      ∀ p ∈ pairs (unloaded package plugins),
        (flat r.groups).count p + (pairs (loaded package plugins)).count p ≤
          (pairs (unloaded package plugins)).count p)

/-- What the user has registered and not cleared, after one more event. -/
def usersAfter (s : State κ ε) (registered : List (ℤ × Handler κ ε)) :
    Event κ ε → List (ℤ × Handler κ ε)
  | .addHandler handler group => registered ++ [(group, handler)]
  | .start _ => registered
  | .stop clearHandlers | .restart clearHandlers _ =>
      if s.isInitialized && (clearHandlers && !noUpdates) then [] else registered

/-- The same along a run. -/
def users (s : State κ ε) (registered : List (ℤ × Handler κ ε)) :
    List (Event κ ε) → List (ℤ × Handler κ ε)
  | [] => registered
  | e :: events =>
      match step package plugins noUpdates s e with
      | some s' => users s' (usersAfter noUpdates s registered e) events
      | none => registered

/-- Of no plugin. -/
def ofUser (p : ℤ × Handler κ ε) : Bool :=
  decide (p ∉ pairs (loaded package plugins) ∧ p ∉ pairs (unloaded package plugins))

/-- **The user's handlers are in place**: the groups list registrations of which those of no plugin
are the user's, in their order. -/
def InPlace (groups : Groups κ ε) (registered : List (ℤ × Handler κ ε)) : Prop :=
  ∃ all, Lists groups all ∧ all.filter (ofUser package plugins) = registered.filter
    (ofUser package plugins)

/-! ### What a call leaves registered -/

omit [DecidableEq κ] [DecidableEq ε] in
/-- **Some of the pairs are loaded**, from the first on, and all of them if no entry raises. -/
theorem lists_load {groups : Groups κ ε} {registered : List (ℤ × Handler κ ε)}
    (h : Lists groups registered)
    (offers : List (Offer κ ε)) :
    ∃ added, added ⊆ pairs offers ∧ Lists (load groups offers).1 (registered ++ added) ∧
      ((load groups offers).2 = false → added = pairs offers) ∧
      ((load groups offers).2 = false ↔ .malformed ∉ offers) := by
  induction offers generalizing groups registered with
  | nil => exact ⟨[], List.Subset.refl _, by rwa [List.append_nil], fun _ => rfl, by simp [load]⟩
  | cons offer offers ih =>
    cases offer with
    | handler handler group =>
      have hpairs : pairs (.handler handler group :: offers) = (group, handler) :: pairs offers :=
        rfl
      obtain ⟨added, hsubset, hlists, hall, hmalformed⟩ := ih (lists_addHandler h handler group)
      refine ⟨(group, handler) :: added, ?_, ?_, fun hok => ?_, ?_⟩
      · rw [hpairs]
        exact List.cons_subset_cons _ hsubset
      · rwa [List.append_assoc] at hlists
      · rw [hpairs, hall hok]
      · simpa [load] using hmalformed
    | lifecycle => simpa [load, pairs] using ih h
    | other => simpa [load, pairs] using ih h
    | malformed => exact ⟨[], List.nil_subset _, by rwa [List.append_nil], nofun, by simp [load]⟩

/-- **Some of the pairs are unloaded**, from the first on, and all of them if nothing raises: that
is where each is registered as often as it is to be removed, and no entry raises. -/
theorem lists_unload {groups : Groups κ ε} {registered : List (ℤ × Handler κ ε)}
    (h : Lists groups registered)
    (offers : List (Offer κ ε)) :
    ∃ removed, removed ⊆ pairs offers ∧ Lists (unload groups offers).1 (registered.diff removed) ∧
      ((unload groups offers).2 = false → removed = pairs offers) ∧
      ((unload groups offers).2 = false ↔
        .malformed ∉ offers ∧ ∀ p, (pairs offers).count p ≤ registered.count p) := by
  induction offers generalizing groups registered with
  | nil => exact ⟨[], List.Subset.refl _, h, fun _ => rfl, by simp [unload, pairs]⟩
  | cons offer offers ih =>
    cases offer with
    | handler handler group =>
      have hpairs : pairs (.handler handler group :: offers) = (group, handler) :: pairs offers :=
        rfl
      obtain ⟨hraises, hremoves⟩ := lists_removeHandler h handler group
      rw [unload, hpairs]
      cases hremove : removeHandler groups handler group with
      | none =>
        have hnotMem := hraises.mp hremove
        refine ⟨[], List.nil_subset _, h, nofun, nofun, fun hcount => ?_⟩
        have hle := hcount.2 (group, handler)
        rw [List.count_cons_self, List.count_eq_zero.mpr hnotMem] at hle
        omega
      | some groups' =>
        have hmem : (group, handler) ∈ registered := by
          by_contra hnotMem
          cases (hraises.mpr hnotMem).symm.trans hremove
        obtain ⟨removed, hsubset, hlists, hall, hcount⟩ := ih (hremoves groups' hremove)
        refine ⟨(group, handler) :: removed, List.cons_subset_cons _ hsubset, ?_, fun hok => ?_, ?_⟩
        · rwa [List.diff_cons]
        · rw [hall hok]
        -- one occurrence is gone from both sides
        · have hpos := List.count_pos_iff.mpr hmem
          refine hcount.trans (and_congr (by simp) (forall_congr' fun p => ?_))
          rw [List.count_erase, List.count_cons]
          by_cases hp : (group, handler) = p
          · subst hp
            simp only [BEq.rfl, if_true]
            omega
          · simp [hp]
    | lifecycle => simpa [unload, pairs] using ih h
    | other => simpa [unload, pairs] using ih h
    | malformed => exact ⟨[], List.nil_subset _, h, nofun, by simp [unload]⟩

/-- **What a call of `load_plugins` leaves registered.** -/
theorem lists_loadPlugins {groups : Groups κ ε} {registered : List (ℤ × Handler κ ε)}
    (h : Lists groups registered) :
    ∃ added removed, added ⊆ pairs (loaded package plugins) ∧
      removed ⊆ pairs (unloaded package plugins) ∧
      Lists (loadPlugins package plugins groups).1 ((registered ++ added).diff removed) ∧
      ((loadPlugins package plugins groups).2 = false →
        added = pairs (loaded package plugins) ∧ removed = pairs (unloaded package plugins)) ∧
      ((loadPlugins package plugins groups).2 = false ↔ WellFormed package plugins ∧
        ∀ p, (pairs (unloaded package plugins)).count p ≤
          registered.count p + (pairs (loaded package plugins)).count p) := by
  obtain ⟨added, hadded, hload, hloaded, hreadable⟩ := lists_load h (loaded package plugins)
  cases hraised : (load groups (loaded package plugins)).2 with
  | true =>
    rw [loadPlugins, if_pos hraised]
    refine ⟨added, [], hadded, List.nil_subset _, hload, nofun, nofun, fun hfresh => ?_⟩
    rw [hreadable.mpr hfresh.1.1] at hraised
    cases hraised
  | false =>
    rw [loadPlugins, if_neg (by simp [hraised])]
    obtain rfl := hloaded hraised
    obtain ⟨removed, hsubset, hlists, hall, hcount⟩ := lists_unload hload (unloaded package plugins)
    refine ⟨_, removed, hadded, hsubset, hlists, fun hok => ⟨rfl, hall hok⟩, hcount.trans ?_⟩
    simp only [List.count_append, WellFormed, hreadable.mp hraised, not_false_eq_true, true_and]

/-! ### Along a run -/

/-- The groups list registrations, as they do at first. -/
def Listing (s : State κ ε) : Prop := ∃ registered, Lists s.groups registered

omit [DecidableEq κ] [DecidableEq ε] in
theorem lists_nil : Lists ([] : Groups κ ε) [] := ⟨List.Pairwise.nil, rfl⟩

theorem count_flat {groups : Groups κ ε} {registered : List (ℤ × Handler κ ε)}
    (h : Lists groups registered) (p : ℤ × Handler κ ε) :
    (flat groups).count p = registered.count p := by
  rw [h.flat]
  exact (perm_byKey Prod.fst registered).count_eq p

omit [DecidableEq κ] [DecidableEq ε] in
theorem groups_stop (s : State κ ε) (clearHandlers : Bool) :
    (stop noUpdates s clearHandlers).groups =
      if s.isInitialized && (clearHandlers && !noUpdates) then [] else s.groups := by
  unfold stop
  cases s.isInitialized <;> simp

omit [DecidableEq κ] [DecidableEq ε] in
theorem listing_stop {s : State κ ε} (h : Listing s) (clearHandlers : Bool) :
    Listing (stop noUpdates s clearHandlers) := by
  obtain ⟨registered, hlists⟩ := h
  rw [Listing, groups_stop]
  split
  · exact ⟨[], lists_nil⟩
  · exact ⟨registered, hlists⟩

variable {package plugins noUpdates}

omit [DecidableEq κ] [DecidableEq ε] in
/-- An event that starts does so from groups that list registrations. -/
theorem listing_starting {s r : State κ ε} {e : Event κ ε} {fails : Bool} (h : Listing s)
    (hstarting : starting noUpdates s e = some (r, fails)) : Listing r := by
  cases e with
  | addHandler handler group => cases hstarting
  | start fails => cases hstarting; exact h
  | stop clearHandlers => cases hstarting
  | restart clearHandlers fails =>
    rw [starting] at hstarting
    split at hstarting
    · cases hstarting
      exact listing_stop noUpdates h clearHandlers
    · cases hstarting

theorem step_of_starting {s s' r : State κ ε} {e : Event κ ε} {fails : Bool}
    (hstarting : starting noUpdates s e = some (r, fails))
    (hs' : step package plugins noUpdates s e = some s') :
    s' = start package plugins r fails := by
  cases e with
  | addHandler handler group => cases hstarting
  | start fails => cases hstarting; exact (Option.some.inj hs').symm
  | stop clearHandlers => cases hstarting
  | restart clearHandlers fails =>
    rw [starting] at hstarting
    rw [step] at hs'
    split at hstarting
    · next hinitialized =>
      cases hstarting
      rw [if_pos hinitialized] at hs'
      exact (Option.some.inj hs').symm
    · cases hstarting

theorem listing_start {r : State κ ε} (h : Listing r) (fails : Bool) :
    Listing (start package plugins r fails) := by
  obtain ⟨registered, hlists⟩ := h
  obtain ⟨added, removed, -, -, hafter, -⟩ := lists_loadPlugins package plugins hlists
  exact ⟨_, hafter⟩

/-- **Where a start leaves the plugins registered once**, it was fresh. -/
theorem once_step_iff {s s' : State κ ε} {e : Event κ ε} (h : Listing s)
    (hs' : step package plugins noUpdates s e = some s') :
    Once package plugins noUpdates s e s' ↔ Fresh package plugins noUpdates s e s' := by
  refine forall_congr' fun r => forall_congr' fun fails => forall_congr' fun hstarting => ?_
  obtain ⟨registered, hlists⟩ := listing_starting h hstarting
  obtain rfl := step_of_starting hstarting hs'
  obtain ⟨added, removed, -, -, hafter, hall, hcount⟩ := lists_loadPlugins package plugins hlists
  have hbefore := count_flat hlists
  simp only [hbefore, ← hcount, ← List.count_pos_iff]
  refine and_congr_right fun hok => ?_
  obtain ⟨rfl, rfl⟩ := hall hok
  have hsucceeds : succeeds package plugins r fails = true ↔ r.isInitialized = false ∧
      fails = false := by
    simp [succeeds, hok]
  rw [hsucceeds, and_imp]
  refine imp_congr_right fun _ => imp_congr_right fun _ => ?_
  -- what is registered afterwards, by count
  have hleft : ∀ p, (flat (start package plugins r fails).groups).count p =
      registered.count p + (pairs (loaded package plugins)).count p -
        (pairs (unloaded package plugins)).count p := by
    intro p
    rw [start, count_flat hafter, List.count_diff, List.count_append]
  refine and_congr ?_ ?_
  · refine forall_congr' fun p => imp_congr_right fun hloaded => imp_congr_right fun hkept => ?_
    rw [hleft]
    omega
  · refine forall_congr' fun p => imp_congr_right fun _ => ?_
    rw [hleft]
    omega

/-- The groups list registrations in every state of a run. -/
theorem listing_step {s s' : State κ ε} {e : Event κ ε} (h : Listing s)
    (hs' : step package plugins noUpdates s e = some s') : Listing s' := by
  cases hstarting : starting noUpdates s e with
  | some r =>
    rw [step_of_starting hstarting hs']
    exact listing_start (listing_starting h hstarting) r.2
  | none =>
    cases e with
    | addHandler handler group =>
      cases hs'
      obtain ⟨registered, hlists⟩ := h
      exact ⟨_, lists_addHandler hlists handler group⟩
    | start fails => cases hstarting
    | stop clearHandlers => cases hs'; exact listing_stop noUpdates h clearHandlers
    | restart clearHandlers fails =>
      rw [starting] at hstarting
      rw [step] at hs'
      split at hstarting
      · cases hstarting
      · next hinitialized =>
        rw [if_neg hinitialized] at hs'
        cases hs'
        exact h

/-! ### The user's handlers -/

omit [DecidableEq κ] [DecidableEq ε] in
/-- What is not looked for may be taken out. -/
theorem filter_diff {α : Type} [BEq α] [LawfulBEq α] {f : α → Bool} {removed : List α}
    (h : ∀ p ∈ removed, f p = false)
    (l : List α) : (l.diff removed).filter f = l.filter f := by
  induction removed generalizing l with
  | nil => rw [List.diff_nil]
  | cons p removed ih =>
    rw [List.diff_cons, ih (fun q hq => h q (List.mem_cons_of_mem p hq)), ← List.erase_filter]
    refine List.erase_of_not_mem fun hmem => ?_
    cases (List.mem_filter.mp hmem).2.symm.trans (h p List.mem_cons_self)

theorem filter_loaded {added : List (ℤ × Handler κ ε)}
    (h : added ⊆ pairs (loaded package plugins)) :
    added.filter (ofUser package plugins) = [] := by
  refine List.filter_eq_nil_iff.mpr fun p hp => ?_
  simp [ofUser, h hp]

theorem inPlace_start {r : State κ ε} {registered : List (ℤ × Handler κ ε)}
    (h : InPlace package plugins r.groups registered) (fails : Bool) :
    InPlace package plugins (start package plugins r fails).groups registered := by
  obtain ⟨all, hlists, hfilter⟩ := h
  obtain ⟨added, removed, hadded, hsubset, hafter, -⟩ := lists_loadPlugins package plugins hlists
  refine ⟨_, hafter, ?_⟩
  rw [filter_diff, List.filter_append, filter_loaded hadded, List.append_nil, hfilter]
  intro p hp
  simp [ofUser, hsubset hp]

theorem inPlace_stop {s : State κ ε} {registered : List (ℤ × Handler κ ε)}
    (h : InPlace package plugins s.groups registered) (clearHandlers : Bool) :
    InPlace package plugins (stop noUpdates s clearHandlers).groups
      (if s.isInitialized && (clearHandlers && !noUpdates) then [] else registered) := by
  rw [groups_stop]
  split
  · exact ⟨[], lists_nil, rfl⟩
  · exact h

/-- **Each step keeps the user's handlers in place.** -/
theorem inPlace_step {s s' : State κ ε} {e : Event κ ε} {registered : List (ℤ × Handler κ ε)}
    (h : InPlace package plugins s.groups registered)
    (hs' : step package plugins noUpdates s e = some s') :
    InPlace package plugins s'.groups (usersAfter noUpdates s registered e) := by
  cases e with
  | addHandler handler group =>
    cases hs'
    obtain ⟨all, hlists, hfilter⟩ := h
    refine ⟨_, lists_addHandler hlists handler group, ?_⟩
    rw [usersAfter, List.filter_append, List.filter_append, hfilter]
  | start fails => cases hs'; exact inPlace_start h fails
  | stop clearHandlers => cases hs'; exact inPlace_stop h clearHandlers
  | restart clearHandlers fails =>
    rw [step] at hs'
    split at hs'
    · cases hs'
      exact inPlace_start (inPlace_stop h clearHandlers) fails
    · next hinitialized =>
      cases hs'
      simpa [usersAfter, hinitialized] using h

theorem inPlace_run {events : List (Event κ ε)} {s t : State κ ε}
    {registered : List (ℤ × Handler κ ε)}
    (h : InPlace package plugins s.groups registered)
    (hrun : run (step package plugins noUpdates) s events = some t) :
    InPlace package plugins t.groups (users package plugins noUpdates s registered events) := by
  induction events generalizing s registered with
  | nil => cases hrun; exact h
  | cons e events ih =>
    obtain ⟨s', hs', hrun⟩ := run_cons_eq_some hrun
    rw [users, hs']
    exact ih (inPlace_step h hs') hrun

/-! ### Once -/

/-- One module, with one function. -/
def greeting : Package Empty Empty where
  found := [{ attributes := [("greet", some [.handler ⟨0, .rawUpdate⟩ 0])] }]
  importModule _ := none

/-- The same beside a logger that has a handler of its own. -/
def logging : Package Empty Empty where
  found := [{ attributes := [("log", some [.malformed]),
    ("greet", some [.handler ⟨0, .rawUpdate⟩ 0])] }]
  importModule _ := none

end Pyrogram.Dispatcher.Plugins
