import Pyrogram.Session.Auth
import Pyrogram.Session.DcOptions

/-!
# The endpoints of a key exchange

The loop of `Auth.create` over the endpoints of a DC, with the connections it opens and closes.  A
connection error goes on to the next endpoint, any other exception tries the same one again,
`MAX_RETRIES` times; an endpoint that gave a key goes to the front of `fallback_endpoints`.
Whatever an attempt comes to, its connection is closed before the loop goes on.

## Main definitions

* `handle` — the `except` and `else` clauses.
* `create` — the loop, with its events.
* `Tried` — endpoints tried in their order, each a bounded number of times.

## Main results

* `result_create` — where nothing else is in its way, the loop comes to what `Auth.create` does.
* `create_spec` — **what is tried, what is closed, and what becomes of the endpoints.**
-/

namespace Pyrogram.Auth.Endpoints

/-- What the calls of one round come to. -/
structure Attempt (κ : Type) where
  /-- `self.connection_factory(…)` -/
  connectionFactory : Except Exc Unit
  /-- The body of the `try`, from `self.connection.connect()` on. -/
  exchange : Except Exc κ
  /-- `asyncio.sleep(1)` -/
  sleep : Except Exc Unit
  /-- `self.connection.close()` -/
  close : Except Exc Unit

inductive Event
  | opened (endpoint : Endpoint)
  | closed (endpoint : Endpoint)
  deriving DecidableEq, Repr

/-- How a round leaves the `try` statement. -/
inductive Exit (κ : Type)
  | next (endpointIndex retriesLeft : ℕ)
  | returned (authKey : κ)
  | raised (e : Exc)

/-- A call of `create` that is over. -/
structure Call (κ : Type) where
  events : List Event
  fallbackEndpoints : List Endpoint
  result : Except Exc κ

variable {κ : Type}

/-- The `except` and `else` clauses, of `endpoints` endpoints. -/
def handle (endpoints endpointIndex retriesLeft : ℕ) (a : Attempt κ) : Exit κ :=
  match a.exchange with
  | .ok authKey => .returned authKey
  | .error (.connectionError msg) =>
      if endpointIndex + 1 < endpoints then .next (endpointIndex + 1) maxRetries
        else .raised (.connectionError msg)
  -- not an `Exception`
  | .error (.other "CancelledError") => .raised (.other "CancelledError")
  | .error e =>
      match retriesLeft with
      | 0 => .raised e
      | retriesLeft + 1 =>
          match a.sleep with
          | .ok () => .next endpointIndex retriesLeft
          | .error e => .raised e

/-- `while True`, from the `n`th round on. -/
def rounds (env : ℕ → Attempt κ) (endpoints : List Endpoint) : ℕ → ℕ → ℕ → ℕ → Option (Call κ)
  | 0, _, _, _ => none
  | fuel + 1, n, endpointIndex, retriesLeft =>
      match endpoints[endpointIndex]? with
      | none => some ⟨[], endpoints, .error (.other "IndexError")⟩
      | some endpoint =>
          match (env n).connectionFactory with
          | .error e => some ⟨[], endpoints, .error e⟩
          | .ok () =>
              let events := [.opened endpoint, .closed endpoint]
              match handle endpoints.length endpointIndex retriesLeft (env n), (env n).close with
              | .next endpointIndex retriesLeft, .ok () =>
                  (rounds env endpoints fuel (n + 1) endpointIndex retriesLeft).map fun call =>
                    { call with events := events ++ call.events }
              | .returned authKey, .ok () => some ⟨events, endpoint.first endpoints, .ok authKey⟩
              | .raised e, .ok () => some ⟨events, endpoints, .error e⟩
              -- the `finally` clause raises in their place
              | .returned _, .error e => some ⟨events, endpoint.first endpoints, .error e⟩
              | .next _ _, .error e | .raised _, .error e => some ⟨events, endpoints, .error e⟩

/-- `create`, for a number of rounds at most. -/
def create (env : ℕ → Attempt κ) (endpoints : List Endpoint) (fuel : ℕ) : Option (Call κ) :=
  rounds env endpoints fuel 0 0 maxRetries

/-! ### What is tried -/

/-- The endpoints of a list tried in their order: the first one `k` times at most, each later one
`MAX_RETRIES + 1` times at most, and none that stands behind one that was not tried. -/
inductive Tried : ℕ → List Endpoint → List Endpoint → Prop
  | nil (k : ℕ) (endpoints : List Endpoint) : Tried k endpoints []
  | again {k : ℕ} {endpoint : Endpoint} {endpoints tried : List Endpoint}
      (h : Tried k (endpoint :: endpoints) tried) :
      Tried (k + 1) (endpoint :: endpoints) (endpoint :: tried)
  | next {k : ℕ} {endpoint : Endpoint} {endpoints tried : List Endpoint}
      (h : Tried (maxRetries + 1) endpoints tried) :
      Tried (k + 1) (endpoint :: endpoints) (endpoint :: tried)

/-- The events of endpoints whose connections are closed one by one. -/
def eventsOf (tried : List Endpoint) : List Event := tried.flatMap fun endpoint =>
    [.opened endpoint, .closed endpoint]

theorem length_le_of_tried {k : ℕ} {endpoints tried : List Endpoint} (h : Tried k endpoints tried)
    (hk : k ≤ maxRetries + 1) : tried.length ≤ k + (maxRetries + 1) * (endpoints.length - 1) := by
  induction h with
  | nil k endpoints => exact Nat.zero_le _
  | again h ih =>
    have hle := ih (by omega)
    rw [List.length_cons]
    omega
  | @next k endpoint endpoints tried h ih =>
    have hle := ih le_rfl
    cases endpoints with
    | nil =>
      cases h
      simp
    | cons e endpoints =>
      simp only [List.length_cons, Nat.add_sub_cancel] at hle ⊢
      rw [Nat.mul_succ]
      omega

/-- **The endpoints are tried in list order**, and not more often than the retries allow. -/
theorem tried_sublist {k : ℕ} {endpoint : Endpoint} {endpoints tried : List Endpoint}
    (h : Tried k (endpoint :: endpoints) tried) :
    tried.Sublist (List.replicate k endpoint ++
      endpoints.flatMap (List.replicate (maxRetries + 1))) := by
  generalize hl : endpoint :: endpoints = l at h
  induction h generalizing endpoint endpoints with
  | nil k l => exact List.nil_sublist _
  | again h ih =>
    cases hl
    exact (ih rfl).cons_cons _
  | @next k endpoint endpoints tried h ih =>
    cases hl
    refine List.Sublist.cons_cons _ ?_
    cases endpoints with
    | nil =>
      cases h
      exact List.nil_sublist _
    | cons e endpoints =>
      rw [List.flatMap_cons]
      exact (ih rfl).trans (List.sublist_append_right _ _)

/-! ### A round -/

/-- **Where a round goes on**: at the same endpoint, with a retry less, or at the next one. -/
theorem handle_eq_next {endpoints endpointIndex retriesLeft : ℕ} {a : Attempt κ} {i r : ℕ}
    (h : handle endpoints endpointIndex retriesLeft a = .next i r) :
    (i = endpointIndex ∧ retriesLeft = r + 1) ∨
      (i = endpointIndex + 1 ∧ r = maxRetries ∧ endpointIndex + 1 < endpoints) := by
  unfold handle at h
  split at h
  · cases h
  · split at h
    · next hlt =>
      cases h
      exact .inr ⟨rfl, rfl, hlt⟩
    · cases h
  · cases h
  · split at h
    · cases h
    · split at h
      · cases h
        exact .inl ⟨rfl, rfl⟩
      · cases h

/-- What a call has come to that began at the first of `endpoints`, among all those of `all`. -/
structure Fulfils (all : List Endpoint) (k : ℕ) (endpoints : List Endpoint) (call : Call κ) :
    Prop where
  tried : ∃ tried, Tried k endpoints tried ∧ call.events = eventsOf tried ∧
    (call.result.isOk → ∃ endpoint, tried.getLast? = some endpoint ∧
      call.fallbackEndpoints = endpoint.first all)
  fallbackEndpoints : call.fallbackEndpoints = all ∨
    ∃ endpoint ∈ all, call.fallbackEndpoints = endpoint.first all

/-- A call that goes on has tried one endpoint more. -/
theorem Fulfils.cons {all endpoints endpoints' : List Endpoint} {k k' : ℕ} {endpoint : Endpoint}
    {call : Call κ}
    (h : Fulfils all k' endpoints' call)
    (hcons : ∀ tried, Tried k' endpoints' tried → Tried k endpoints (endpoint :: tried)) :
    Fulfils all k endpoints
      { call with events := [.opened endpoint, .closed endpoint] ++ call.events } := by
  obtain ⟨tried, htried, hevents, hok⟩ := h.tried
  refine ⟨⟨endpoint :: tried, hcons tried htried, ?_, ?_⟩, h.fallbackEndpoints⟩
  · simp only [hevents, eventsOf, List.flatMap_cons]
  · intro hresult
    obtain ⟨e, he, hfallback⟩ := hok hresult
    refine ⟨e, ?_, hfallback⟩
    rw [List.getLast?_cons, he]
    rfl

/-- One endpoint was tried, and the loop is left. -/
theorem fulfils_of_last {all endpoints : List Endpoint} {k : ℕ} {endpoint : Endpoint}
    {call : Call κ}
    (hmem : endpoint ∈ all) (hevents : call.events = [.opened endpoint, .closed endpoint])
    (hfallback : call.fallbackEndpoints = endpoint.first all ∨
      (call.fallbackEndpoints = all ∧ call.result.isOk = false)) :
    Fulfils all (k + 1) (endpoint :: endpoints) call := by
  refine ⟨⟨[endpoint], .again (.nil _ _), hevents, ?_⟩, ?_⟩
  · intro hok
    obtain hfallback | ⟨-, herror⟩ := hfallback
    · exact ⟨endpoint, rfl, hfallback⟩
    · rw [herror] at hok
      cases hok
  · obtain hfallback | ⟨hfallback, -⟩ := hfallback
    · exact .inr ⟨endpoint, hmem, hfallback⟩
    · exact .inl hfallback

/-- **What a round comes to**: the loop is left, or another round follows. -/
theorem round_spec (env : ℕ → Attempt κ) {all : List Endpoint} (n : ℕ) {endpointIndex : ℕ}
    (retriesLeft : ℕ)
    {endpoint : Endpoint} (hget : all[endpointIndex]? = some endpoint) :
    (∃ call, (∀ fuel, rounds env all (fuel + 1) n endpointIndex retriesLeft = some call) ∧
      ∀ k endpoints, Fulfils all (k + 1) (endpoint :: endpoints) call) ∨
    ∃ i r, handle all.length endpointIndex retriesLeft (env n) = .next i r ∧
      ∀ fuel, rounds env all (fuel + 1) n endpointIndex retriesLeft =
        (rounds env all fuel (n + 1) i r).map fun call =>
          { call with events := [.opened endpoint, .closed endpoint] ++ call.events } := by
  have hmem : endpoint ∈ all := List.mem_of_getElem? hget
  -- the connection cannot be made: nothing was opened
  cases hfactory : (env n).connectionFactory with
  | error e =>
    refine .inl ⟨⟨[], all, .error e⟩, ?_, ?_⟩
    · intro fuel
      simp only [rounds, hget, hfactory]
    · intro k endpoints
      exact ⟨⟨[], .nil _ _, rfl, nofun⟩, .inl rfl⟩
  | ok u =>
    cases hexit : handle all.length endpointIndex retriesLeft (env n) with
    | next i r =>
      -- closing it may raise as well, which ends the rounds
      cases hclose : (env n).close with
      | ok u =>
        refine .inr ⟨i, r, rfl, ?_⟩
        intro fuel
        simp only [rounds, hget, hfactory, hexit, hclose]
      | error e =>
        refine .inl ⟨_, fun fuel => by simp only [rounds, hget, hfactory, hexit, hclose]; rfl, ?_⟩
        intro k endpoints
        exact fulfils_of_last hmem rfl (.inr ⟨rfl, rfl⟩)
    | returned authKey =>
      refine .inl ?_
      cases hclose : (env n).close with
      | ok u =>
        refine ⟨_, fun fuel => by simp only [rounds, hget, hfactory, hexit, hclose]; rfl, ?_⟩
        intro k endpoints
        exact fulfils_of_last hmem rfl (.inl rfl)
      | error e =>
        refine ⟨_, fun fuel => by simp only [rounds, hget, hfactory, hexit, hclose]; rfl, ?_⟩
        intro k endpoints
        exact fulfils_of_last hmem rfl (.inl rfl)
    | raised e =>
      refine .inl ?_
      cases hclose : (env n).close with
      | ok u =>
        refine ⟨_, fun fuel => by simp only [rounds, hget, hfactory, hexit, hclose]; rfl, ?_⟩
        intro k endpoints
        exact fulfils_of_last hmem rfl (.inr ⟨rfl, rfl⟩)
      | error e =>
        refine ⟨_, fun fuel => by simp only [rounds, hget, hfactory, hexit, hclose]; rfl, ?_⟩
        intro k endpoints
        exact fulfils_of_last hmem rfl (.inr ⟨rfl, rfl⟩)

/-- **The rounds from an endpoint on end**, and have tried what is allowed. -/
theorem rounds_spec (env : ℕ → Attempt κ) (all : List Endpoint) (m : ℕ) :
    ∀ (n endpointIndex retriesLeft : ℕ) (endpoint : Endpoint) (endpoints : List Endpoint),
      all.drop endpointIndex = endpoint :: endpoints →
        retriesLeft + (maxRetries + 1) * endpoints.length = m →
        ∃ call, (∀ fuel > m, rounds env all fuel n endpointIndex retriesLeft = some call) ∧
          Fulfils all (retriesLeft + 1) (endpoint :: endpoints) call := by
  -- a round that is not the last one leaves fewer of them
  induction m using Nat.strong_induction_on with
  | _ m ih =>
    intro n endpointIndex retriesLeft endpoint endpoints hdrop hm
    have hget : all[endpointIndex]? = some endpoint := by
      rw [← List.head?_drop, hdrop]
      rfl
    have hsucc : ∀ fuel > m, ∃ fuel', fuel = fuel' + 1 := fun fuel hfuel =>
      Nat.exists_eq_succ_of_ne_zero (Nat.ne_zero_of_lt hfuel)
    obtain ⟨call, hcall, hfulfils⟩ | ⟨i, r, hnext, hcall⟩ := round_spec env n retriesLeft hget
    · refine ⟨call, ?_, hfulfils _ _⟩
      intro fuel hfuel
      obtain ⟨fuel, rfl⟩ := hsucc fuel hfuel
      exact hcall fuel
    · obtain ⟨rfl, rfl⟩ | ⟨rfl, rfl, hlt⟩ := handle_eq_next hnext
      · have hless : r + (maxRetries + 1) * endpoints.length < m := by omega
        obtain ⟨call, hrest, hfulfils⟩ := ih _ hless (n + 1) i r endpoint endpoints hdrop rfl
        refine ⟨_, ?_, hfulfils.cons fun tried htried => .again htried⟩
        intro fuel hfuel
        obtain ⟨fuel, rfl⟩ := hsucc fuel hfuel
        rw [hcall fuel, hrest fuel (by omega)]
        rfl
      · have htail : all.drop (endpointIndex + 1) = endpoints := by
          rw [← List.tail_drop, hdrop]
          rfl
        have hlength : (all.drop (endpointIndex + 1)).length = endpoints.length :=
          congrArg List.length htail
        rw [List.length_drop] at hlength
        cases endpoints with
        | nil =>
          rw [List.length_nil] at hlength
          omega
        | cons endpoint' endpoints =>
          have hless : maxRetries + (maxRetries + 1) * endpoints.length < m := by
            rw [← hm, List.length_cons, Nat.mul_succ]
            omega
          obtain ⟨call, hrest, hfulfils⟩ := ih _ hless (n + 1) _ _ endpoint' endpoints htail rfl
          refine ⟨_, ?_, hfulfils.cons fun tried htried => .next htried⟩
          intro fuel hfuel
          obtain ⟨fuel, rfl⟩ := hsucc fuel hfuel
          rw [hcall fuel, hrest fuel (by omega)]
          rfl

/-! ### The attempts alone -/

section Quiet

variable {σ : Type} (attempt : ℕ → Except Exc (List UInt8 × σ))

/-- Nothing but the attempts raises. -/
def quiet (n : ℕ) : Attempt (List UInt8 × σ) := ⟨.ok (), attempt n, .ok (), .ok ()⟩

/-- What `Auth.create` comes to, without the number of the attempt. -/
def resultOf : Created σ → Except Exc (List UInt8 × σ)
  | .returned _ authKey s => .ok (authKey, s)
  | .raised e => .error e

/-- What follows a connection error, with a number of endpoints left. -/
def fallback : ℕ → Exc → ℕ → Created σ
  | 0, e, _ => .raised e
  | endpoints + 1, _, n => Auth.create attempt endpoints n

theorem create_eq_attempts (endpoints n : ℕ) :
    Auth.create attempt endpoints n = attempts attempt (fallback attempt endpoints)
      maxRetries n := by
  cases endpoints <;> rfl

variable {attempt}

/-- Leaving the `try` statement is going through `attempts`. -/
theorem handle_quiet {endpoints left i r n : ℕ} (hleft : i + 1 + left = endpoints) :
    resultOf (attempts attempt (fallback attempt left) r n) =
      match handle endpoints i r (quiet attempt n) with
      | .next i' r' => resultOf (attempts attempt (fallback attempt (endpoints - (i' + 1))) r'
          (n + 1))
      | .returned key => .ok key
      | .raised e => .error e := by
  have hexchange : (quiet attempt n).exchange = attempt n := rfl
  have hsleep : (quiet attempt n).sleep = .ok () := rfl
  have hretry : endpoints - (i + 1) = left := by omega
  rw [attempts.eq_def attempt (fallback attempt left) r n, handle, hexchange]
  dsimp only
  cases attempt n with
  | ok p => rfl
  | error e =>
    -- a `ConnectionError` goes on to the next endpoint, if there is one
    cases e with
    | connectionError msg =>
      cases left with
      | zero =>
        have hlast : ¬ i + 1 < endpoints := by omega
        simp only [if_neg hlast]
        rfl
      | succ left =>
        have hlt : i + 1 < endpoints := by omega
        have hnext : endpoints - (i + 1 + 1) = left := by omega
        simp only [if_pos hlt, hnext]
        rw [← create_eq_attempts]
        rfl
    | other cls =>
      -- a cancellation is not retried
      by_cases hcls : cls = "CancelledError"
      · subst hcls
        rfl
      · cases r with
        | zero => simp [hcls, resultOf]
        | succ r => simp [hcls, hsleep, hretry]
    -- the other exceptions are retried at the same endpoint
    | valueError _ | keyError _ | overflowError _ | securityCheckMismatch _ =>
      cases r with
      | zero => rfl
      | succ r => simp only [hsleep, hretry]

/-- **Where nothing but the attempts raises**, the loop comes to what `Auth.create` comes to. -/
theorem result_create {endpoint : Endpoint} {endpoints : List Endpoint} {fuel : ℕ}
    {call : Call (List UInt8 × σ)}
    (h : create (quiet attempt) (endpoint :: endpoints) fuel = some call) :
    call.result = resultOf (Auth.create attempt endpoints.length 0) := by
  have hrounds : ∀ fuel n i r (call : Call (List UInt8 × σ)), i < (endpoint :: endpoints).length →
      rounds (quiet attempt) (endpoint :: endpoints) fuel n i r = some call →
        call.result = resultOf
          (attempts attempt (fallback attempt ((endpoint :: endpoints).length - (i + 1))) r n) := by
    -- on the fuel, for every endpoint and every number of retries left
    intro fuel
    induction fuel with
    | zero => intro n i r call hi h; cases h
    | succ fuel ih =>
      intro n i r call hi h
      have hleft : i + 1 + ((endpoint :: endpoints).length - (i + 1)) =
          (endpoint :: endpoints).length := by omega
      rw [handle_quiet hleft]
      rw [rounds, List.getElem?_eq_getElem hi] at h
      simp only [show (quiet attempt n).connectionFactory = .ok () from rfl,
        show (quiet attempt n).close = .ok () from rfl] at h
      cases hexit : handle (endpoint :: endpoints).length i r (quiet attempt n) with
      -- the next round begins at an endpoint that exists
      | next i' r' =>
        rw [hexit] at h
        obtain ⟨rest, hrest, rfl⟩ := Option.map_eq_some_iff.mp h
        have hi' : i' < (endpoint :: endpoints).length := by
          obtain ⟨rfl, -⟩ | ⟨rfl, -, hlt⟩ := handle_eq_next hexit
          · exact hi
          · exact hlt
        exact ih _ _ _ rest hi' hrest
      | returned authKey =>
        rw [hexit] at h
        cases h
        rfl
      | raised e =>
        rw [hexit] at h
        cases h
        rfl
  rw [hrounds fuel 0 0 maxRetries call (Nat.succ_pos _) h, create_eq_attempts]
  rfl

end Quiet

/-! ### The call -/

/-- **What is tried, what is closed, and what becomes of the endpoints**, whatever fails: the call
ends; the endpoints are tried in list order, not more than `(MAX_RETRIES + 1)` times their number in
all; a connection is closed before the next one is opened and before the call ends; and where it
comes to a key, the endpoints are those there were, with the one that was tried last, and gave the
key, first.  Where nothing but the attempts raises, it comes to what `Auth.create` comes to. -/
theorem create_spec (env : ℕ → Attempt κ) (endpoints : List Endpoint) :
    (∃ call, (∀ fuel > (maxRetries + 1) * endpoints.length, create env endpoints fuel = some call) ∧
      (∃ tried, Tried (maxRetries + 1) endpoints tried ∧ call.events = eventsOf tried ∧
        tried.Sublist (endpoints.flatMap (List.replicate (maxRetries + 1))) ∧
        tried.length ≤ (maxRetries + 1) * endpoints.length ∧
        (call.result.isOk → ∃ endpoint rest, tried.getLast? = some endpoint ∧
          call.fallbackEndpoints = endpoint :: rest ∧
            (endpoint :: rest).Perm (Dict.fromKeys endpoints))) ∧
      (Dict.fromKeys call.fallbackEndpoints).Perm (Dict.fromKeys endpoints)) ∧
      ∀ {σ : Type} (attempt : ℕ → Except Exc (List UInt8 × σ)) (fuel : ℕ)
        (call : Call (List UInt8 × σ)),
        endpoints ≠ [] → create (quiet attempt) endpoints fuel = some call →
          call.result = resultOf (Auth.create attempt (endpoints.length - 1) 0) := by
  refine ⟨?_, fun attempt fuel call hne hcall => by
    obtain ⟨endpoint, endpoints, rfl⟩ := List.exists_cons_of_ne_nil hne
    exact result_create hcall⟩
  -- without an endpoint the first look-up raises
  cases endpoints with
  | nil =>
    refine ⟨⟨[], [], .error (.other "IndexError")⟩, ?_, ⟨[], .nil _ _, rfl, .slnil, le_rfl, nofun⟩,
      .refl _⟩
    intro fuel hfuel
    obtain ⟨fuel, rfl⟩ := Nat.exists_eq_succ_of_ne_zero (Nat.ne_zero_of_lt hfuel)
    rfl
  | cons endpoint endpoints =>
    obtain ⟨call, hcall, hfulfils⟩ :=
      rounds_spec env (endpoint :: endpoints) _ 0 0 maxRetries endpoint endpoints rfl rfl
    -- any of the endpoints may have been moved to the front
    have hperm : ∀ e ∈ endpoint :: endpoints,
        (e.first (endpoint :: endpoints)).Perm (Dict.fromKeys (endpoint :: endpoints)) := by
      intro e he
      exact Endpoint.perm_first he
    obtain ⟨tried, htried, hevents, hok⟩ := hfulfils.tried
    have hsub : tried.Sublist
        ((endpoint :: endpoints).flatMap (List.replicate (maxRetries + 1))) := by
      rw [List.flatMap_cons]
      exact tried_sublist htried
    have hlength := length_le_of_tried htried le_rfl
    refine ⟨call, ?_, ⟨tried, htried, hevents, hsub, ?_, ?_⟩, ?_⟩
    -- enough fuel, for each endpoint is tried a bounded number of times
    · intro fuel hfuel
      rw [List.length_cons, Nat.mul_succ] at hfuel
      exact hcall fuel (by omega)
    · rw [List.length_cons, Nat.add_sub_cancel] at hlength
      rw [List.length_cons, Nat.mul_succ]
      omega
    -- the last endpoint tried is the one that answered
    · intro hresult
      obtain ⟨e, he, hfallback⟩ := hok hresult
      have hmem : e ∈ endpoint :: endpoints := by
        have hmem := hsub.subset (List.mem_of_getLast? he)
        obtain ⟨e', he', heq⟩ := List.mem_flatMap.mp hmem
        rwa [List.eq_of_mem_replicate heq]
      refine ⟨e, _, he, hfallback.trans rfl, ?_⟩
      exact hperm e hmem
    -- the fallback list is the given one, or the given one with that endpoint first
    · obtain hfallback | ⟨e, he, hfallback⟩ := hfulfils.fallbackEndpoints
      · rw [hfallback]
      · have hnodup : (e.first (endpoint :: endpoints)).Nodup := Dict.nodup_fromKeys _
        rw [hfallback, Dict.fromKeys_of_nodup hnodup]
        exact hperm e he

/-- The second of two endpoints gives a key. -/
example (a b : Endpoint) (h : b ≠ a) :
    (create (quiet fun n => if n = 0 then .error (.connectionError "") else .ok ([], ()))
      [a, b] 13).map
      Call.fallbackEndpoints = some [b, a] := by
  have hab : a ≠ b := h.symm
  simp [create, rounds, handle, quiet, Endpoint.first, Dict.fromKeys, hab]

end Pyrogram.Auth.Endpoints
