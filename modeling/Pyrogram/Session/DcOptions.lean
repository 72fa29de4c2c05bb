import Pyrogram.ByKey
import Pyrogram.Dict
import Mathlib.Data.Prod.Lex

/-!
# The order of endpoints

`dc_options.order_dc_endpoints`: the endpoint that the cache names comes first; where it names none,
every endpoint is probed, and those that were reached come first, the quickest before the others.
Through a proxy nothing is probed, and the endpoints stay as they are.

The cache is a JSON object, read from a file that may hold anything.  A probe is known by what it
comes to; latencies are of any linear order.

## Main definitions

* `cachedDcEndpoint`, `reorderWithCachedEndpoint` — the endpoint that the cache names.
* `orderDcEndpoints` — the order.
* `ByLatency` — what the order is to be among probed endpoints.

## Main results

* `reorderWithCachedEndpoint_spec` — no endpoint is lost, and the cached one comes first.
* `byLatency_ordered` — the order after the probes.
* `orderDcEndpoints_spec` — **no endpoint is lost**, and in which order they come.
-/

namespace Pyrogram

structure Endpoint where
  serverAddress : String
  port : ℤ
  deriving DecidableEq, Repr

/-- `tuple(dict.fromkeys((endpoint,) + endpoints))` -/
def Endpoint.first (endpoint : Endpoint) (endpoints : List Endpoint) : List Endpoint :=
  Dict.fromKeys (endpoint :: endpoints)

theorem Endpoint.perm_first {endpoint : Endpoint} {endpoints : List Endpoint}
    (h : endpoint ∈ endpoints) :
    (endpoint.first endpoints).Perm (Dict.fromKeys endpoints) :=
  Dict.perm_fromKeys_cons h

namespace DcOptions

/-! ### The cache -/

/-- What `json.load` gives. -/
inductive Json
  | null
  | bool (b : Bool)
  | int (n : ℤ)
  | float (bits : UInt64)
  | string (s : String)
  | list (elements : List Json)
  | dict (items : List (String × Json))

namespace Json

/-- Of an instance of `dict`. -/
def items : Json → Option (List (String × Json))
  | dict items => some items
  | null | bool _ | int _ | float _ | string _ | list _ => none

/-- Of an instance of `str`. -/
def str : Option Json → Option String
  | some (string s) => some s
  | some null | some (bool _) | some (int _) | some (float _) | some (list _) | some (dict
      _) | none => none

/-- Of an instance of `int`, which the truth values are too. -/
def number : Option Json → Option ℤ
  | some (int n) => some n
  | some (bool b) => some (if b then 1 else 0)
  | some null | some (float _) | some (string _) | some (list _) | some (dict _) | none => none

end Json

/-- `cached_dc_endpoint`; `cache` is `load_endpoint_cache()["endpoints"]`, which is a `dict`
always. -/
def cachedDcEndpoint (cacheKey : Option String) (cache : List (String × Json))
    (endpoints : List Endpoint) :
    Option Endpoint := do
  let cacheKey ← cacheKey.filter (· ≠ "")
  let cached ← (← cache.lookup cacheKey).items
  let serverAddress ← Json.str (cached.lookup "server_address")
  let port ← Json.number (cached.lookup "port")
  if ⟨serverAddress, port⟩ ∈ endpoints then some ⟨serverAddress, port⟩ else none

/-- `reorder_with_cached_endpoint` -/
def reorderWithCachedEndpoint (cacheKey : Option String) (cache : List (String × Json))
    (endpoints : List Endpoint) :
    List Endpoint :=
  let endpoints := Dict.fromKeys endpoints
  match cachedDcEndpoint cacheKey cache endpoints with
  | none => endpoints
  | some cachedEndpoint => cachedEndpoint.first endpoints

theorem mem_of_cachedDcEndpoint {cacheKey : Option String} {cache : List (String × Json)}
    {endpoints : List Endpoint}
    {cached : Endpoint} (h : cachedDcEndpoint cacheKey cache endpoints = some cached) :
    cached ∈ endpoints := by
  simp only [cachedDcEndpoint, Option.bind_eq_bind, Option.bind_eq_some_iff] at h
  obtain ⟨key, -, entry, -, items, -, address, -, port, -, h⟩ := h
  split at h
  · next hmem =>
    cases h
    exact hmem
  · cases h

/-- The cache names an endpoint by what it holds, wherever the endpoint stands. -/
theorem cachedDcEndpoint_fromKeys (cacheKey : Option String) (cache : List (String × Json))
    (endpoints : List Endpoint) :
    cachedDcEndpoint cacheKey cache (Dict.fromKeys endpoints) =
      cachedDcEndpoint cacheKey cache endpoints := by
  simp only [cachedDcEndpoint, Dict.mem_fromKeys]

/-- **A cached endpoint comes first**, the others keep their order, and none is lost. -/
theorem reorderWithCachedEndpoint_spec (cacheKey : Option String) (cache : List (String × Json))
    (endpoints : List Endpoint) :
    (reorderWithCachedEndpoint cacheKey cache endpoints).Perm (Dict.fromKeys endpoints) ∧
      reorderWithCachedEndpoint cacheKey cache endpoints =
        match cachedDcEndpoint cacheKey cache endpoints with
        | none => Dict.fromKeys endpoints
        | some cached => cached :: (Dict.fromKeys endpoints).filter (· ≠ cached) := by
  unfold reorderWithCachedEndpoint
  dsimp only
  rw [cachedDcEndpoint_fromKeys]
  cases hcached : cachedDcEndpoint cacheKey cache endpoints with
  | none => exact ⟨.refl _, rfl⟩
  | some cached =>
    have hmem := Dict.mem_fromKeys.mpr (mem_of_cachedDcEndpoint hcached)
    have hnodup := Dict.nodup_fromKeys endpoints
    refine ⟨?_, Dict.fromKeys_cons_of_nodup hnodup⟩
    have hperm := Endpoint.perm_first hmem
    rwa [Dict.fromKeys_of_nodup hnodup] at hperm

/-! ### Probes -/

section Probes

variable {τ : Type}

/-- What `run_probe` comes to. -/
inductive Probe (τ : Type)
  | reached (elapsed : τ)
  /-- Also where the probe raises. -/
  | failed
  deriving DecidableEq, Repr

def Probe.ok : Probe τ → Bool
  | reached _ => true
  | failed => false

/-- An entry of `reachable`. -/
structure Result (τ : Type) where
  elapsed : τ
  rank : ℕ
  index : ℕ
  endpoint : Endpoint

/-- `(result[0], result[1], result[2])` -/
def Result.key (result : Result τ) : τ ×ₗ ℕ ×ₗ ℕ :=
  toLex (result.elapsed, toLex (result.rank, result.index))

/-- `0 if endpoint == preferred_endpoint else 1` -/
def rankOf (preferredEndpoint : Option Endpoint) (endpoint : Endpoint) : ℕ :=
  if preferredEndpoint = some endpoint then 0 else 1

/-- The `reachable` of the endpoints. -/
def reachable (probe : Endpoint → Probe τ) (preferredEndpoint : Option Endpoint)
    (endpoints : List Endpoint) :
    List (Result τ) :=
  endpoints.zipIdx.filterMap fun (endpoint, index) =>
    match probe endpoint with
    | .reached elapsed => some ⟨elapsed, rankOf preferredEndpoint endpoint, index, endpoint⟩
    | .failed => none

variable {probe : Endpoint → Probe τ} {preferredEndpoint : Option Endpoint}
    {endpoints : List Endpoint}

theorem map_endpoint_reachable :
    (reachable probe preferredEndpoint endpoints).map Result.endpoint = endpoints.filter fun x =>
      (probe x).ok := by
  unfold reachable
  -- the numbers begin anywhere
  generalize 0 = n
  induction endpoints generalizing n with
  | nil => rfl
  | cons endpoint endpoints ih =>
    rw [List.zipIdx_cons]
    cases hprobe : probe endpoint with
    | reached elapsed => simp [hprobe, Probe.ok, ih]
    | failed => simp [hprobe, Probe.ok, ih]

/-- What an entry says of its endpoint. -/
theorem of_mem_reachable (hnodup : endpoints.Nodup) {r : Result τ}
    (h : r ∈ reachable probe preferredEndpoint endpoints) :
    probe r.endpoint = .reached r.elapsed ∧ r.rank = rankOf preferredEndpoint r.endpoint ∧
      r.index = endpoints.idxOf r.endpoint := by
  obtain ⟨⟨endpoint, index⟩, hmem, hr⟩ := List.mem_filterMap.mp h
  cases hprobe : probe endpoint with
  | reached elapsed =>
    simp only [hprobe, Option.some.injEq] at hr
    subst hr
    obtain ⟨hlt, hget⟩ := List.getElem?_eq_some_iff.mp (List.mem_zipIdx_iff_getElem?.mp hmem)
    dsimp only at hlt hget
    refine ⟨hprobe, rfl, ?_⟩
    dsimp only
    rw [← hget, hnodup.idxOf_getElem index hlt]
  | failed =>
    simp only [hprobe] at hr
    cases hr

theorem mem_of_mem_reachable {r : Result τ} (h : r ∈ reachable probe preferredEndpoint endpoints) :
    r.endpoint ∈ endpoints := by
  have hmem := List.mem_map_of_mem (f := Result.endpoint) h
  rw [map_endpoint_reachable] at hmem
  exact List.mem_of_mem_filter hmem

variable [LinearOrder τ]

/-- The order after the probes. -/
def ordered (probe : Endpoint → Probe τ) (preferredEndpoint : Option Endpoint)
    (endpoints : List Endpoint) :
    List Endpoint :=
  let failed := endpoints.filter fun endpoint => ¬ (probe endpoint).ok
  match reachable probe preferredEndpoint endpoints with
  | [] => endpoints
  | results => (ByKey.byKey Result.key results).map Result.endpoint ++ failed

/-- `order_dc_endpoints` -/
def orderDcEndpoints (probe : Endpoint → Probe τ) (cache : List (String × Json))
    (endpoints : List Endpoint)
    (proxy : Bool) (preferredEndpoint : Option Endpoint) (cacheKey : Option String) :
    List Endpoint :=
  let endpoints := Dict.fromKeys endpoints
  if proxy ∨ endpoints.length ≤ 1 then endpoints
  else
    match cachedDcEndpoint cacheKey cache endpoints with
    | some cachedEndpoint => cachedEndpoint.first endpoints
    | none => ordered probe preferredEndpoint endpoints

/-- The endpoint was reached no later than the other; of those reached at a time the preferred one
is before the others, and these are as in the list. -/
def Precedes (probe : Endpoint → Probe τ) (preferredEndpoint : Option Endpoint)
    (endpoints : List Endpoint)
    (x y : Endpoint) : Prop :=
  ∃ a b, probe x = .reached a ∧ probe y = .reached b ∧
    (a < b ∨ a = b ∧ (preferredEndpoint = some x ∨
      preferredEndpoint ≠ some y ∧ endpoints.idxOf x < endpoints.idxOf y))

/-- The order that the probes of the endpoints ask for. -/
structure ByLatency (probe : Endpoint → Probe τ) (preferredEndpoint : Option Endpoint)
    (endpoints result : List Endpoint) :
    Prop where
  /-- Nothing that was reached is behind what was not. -/
  reachable_first : result.Pairwise fun x y => (probe y).ok → (probe x).ok
  reachable : (result.filter fun x => (probe x).ok).Pairwise
    (Precedes probe preferredEndpoint endpoints)
  failed : (result.filter fun x => ¬ (probe x).ok) = endpoints.filter fun x => ¬ (probe x).ok
  none_reachable : (∀ x ∈ endpoints, ¬ (probe x).ok) → result = endpoints

/-! ### The order after the probes -/

/-- The keys of two entries say which endpoint goes first. -/
theorem precedes_of_key_le (hnodup : endpoints.Nodup) {r r' : Result τ}
    (hr : r ∈ reachable probe preferredEndpoint endpoints)
    (hr' : r' ∈ reachable probe preferredEndpoint endpoints)
    (hle : r.key ≤ r'.key) (hne : r.endpoint ≠ r'.endpoint) :
    Precedes probe preferredEndpoint endpoints r.endpoint r'.endpoint := by
  obtain ⟨hprobe, hrank, hindex⟩ := of_mem_reachable hnodup hr
  obtain ⟨hprobe', hrank', hindex'⟩ := of_mem_reachable hnodup hr'
  refine ⟨_, _, hprobe, hprobe', ?_⟩
  -- a lower latency decides, then the preferred endpoint, then the given order
  obtain hlt | ⟨heq, hle⟩ := Prod.Lex.toLex_le_toLex.mp hle
  · exact .inl hlt
  · refine .inr ⟨heq, ?_⟩
    by_cases hpreferred : preferredEndpoint = some r.endpoint
    · exact .inl hpreferred
    · right
      rw [rankOf, if_neg hpreferred] at hrank
      by_cases hpreferred' : preferredEndpoint = some r'.endpoint
      · rw [rankOf, if_pos hpreferred'] at hrank'
        obtain hlt | ⟨heq, -⟩ := Prod.Lex.toLex_le_toLex.mp hle
        · dsimp only at hlt
          omega
        · dsimp only at heq
          omega
      · rw [rankOf, if_neg hpreferred'] at hrank'
        refine ⟨hpreferred', ?_⟩
        obtain hlt | ⟨-, hle⟩ := Prod.Lex.toLex_le_toLex.mp hle
        · dsimp only at hlt
          omega
        · have hindexne : r.index ≠ r'.index := by
            intro h
            rw [hindex, hindex'] at h
            exact hne ((List.idxOf_inj (mem_of_mem_reachable hr)).mp h)
          dsimp only at hle
          omega

/-- The reachable endpoints of the order, in the order of their keys. -/
theorem ordered_eq (probe : Endpoint → Probe τ) (preferredEndpoint : Option Endpoint)
    (endpoints : List Endpoint) :
    ordered probe preferredEndpoint endpoints =
      (ByKey.byKey Result.key (reachable probe preferredEndpoint endpoints)).map Result.endpoint ++
        endpoints.filter fun x => ¬ (probe x).ok := by
  unfold ordered
  dsimp only
  split
  · next hnil =>
    have hnone : (endpoints.filter fun x => (probe x).ok) = [] := by
      have hmap : (reachable probe preferredEndpoint endpoints).map Result.endpoint =
          endpoints.filter fun x => (probe x).ok := map_endpoint_reachable
      rw [← hmap, hnil]
      rfl
    rw [hnil]
    refine (List.filter_eq_self.mpr ?_).symm
    intro x hx
    have hx' := List.filter_eq_nil_iff.mp hnone x hx
    simpa using hx'
  · rfl

theorem perm_ordered (probe : Endpoint → Probe τ) (preferredEndpoint : Option Endpoint)
    (endpoints : List Endpoint) :
    (ordered probe preferredEndpoint endpoints).Perm endpoints := by
  have hsorted := (ByKey.perm_byKey Result.key (reachable probe preferredEndpoint endpoints)).map
    Result.endpoint
  rw [map_endpoint_reachable] at hsorted
  have hnot : (endpoints.filter fun x => ¬ (probe x).ok) = endpoints.filter fun x =>
      !(probe x).ok := by simp
  rw [ordered_eq, hnot]
  exact (hsorted.append_right _).trans (List.filter_append_perm _ _)

/-- **The order after the probes** is the one they ask for. -/
theorem byLatency_ordered (hnodup : endpoints.Nodup) :
    ByLatency probe preferredEndpoint endpoints (ordered probe preferredEndpoint endpoints) := by
  have hperm := ByKey.perm_byKey Result.key (reachable probe preferredEndpoint endpoints)
  have hreached := hperm.map Result.endpoint
  rw [map_endpoint_reachable] at hreached
  -- those reached come first, in the order of their keys, and the others behind them
  have hok :
      ∀ x ∈ (ByKey.byKey Result.key (reachable probe preferredEndpoint endpoints)).map
        Result.endpoint, (probe x).ok = true := by
    intro x hx
    exact (List.mem_filter.mp (hreached.mem_iff.mp hx)).2
  have hfailed : ∀ x ∈ endpoints.filter fun x => ¬ (probe x).ok, (probe x).ok = false := by
    intro x hx
    simpa using (List.mem_filter.mp hx).2
  constructor
  -- none that failed stands before one that was reached
  · rw [ordered_eq]
    refine List.pairwise_append.mpr ⟨?_, ?_, ?_⟩
    · exact List.pairwise_of_forall_mem_list fun x hx y _ _ => hok x hx
    · refine List.pairwise_of_forall_mem_list fun x _ y hy h => ?_
      rw [hfailed y hy] at h
      cases h
    · intro x hx y _ _
      exact hok x hx
  · have hfilter : ((ordered probe preferredEndpoint endpoints).filter fun x => (probe x).ok) =
        (ByKey.byKey Result.key (reachable probe preferredEndpoint endpoints)).map
          Result.endpoint := by
      rw [ordered_eq, List.filter_append, List.filter_eq_self.mpr hok, List.filter_eq_nil_iff.mpr,
        List.append_nil]
      intro x hx
      rw [hfailed x hx]
      exact Bool.false_ne_true
    rw [hfilter]
    have hnodupReached := hreached.nodup_iff.mpr (hnodup.filter _)
    have hkeys := ByKey.pairwise_byKey Result.key (reachable probe preferredEndpoint endpoints)
    -- the keys are sorted, and two endpoints never share one
    refine List.pairwise_map.mpr ((hkeys.and (List.pairwise_map.mp hnodupReached)).imp_of_mem ?_)
    rintro r r' hr hr' ⟨hle, hne⟩
    exact precedes_of_key_le hnodup (hperm.mem_iff.mp hr) (hperm.mem_iff.mp hr') hle hne
  · rw [ordered_eq, List.filter_append, List.filter_eq_nil_iff.mpr, List.nil_append,
      List.filter_filter]
    · simp
    · intro x hx
      rw [hok x hx]
      simp
  · intro hnone
    have hnil : reachable probe preferredEndpoint endpoints = [] := by
      refine (List.map_eq_nil_iff (f := Result.endpoint)).mp ?_
      rw [map_endpoint_reachable]
      exact List.filter_eq_nil_iff.mpr hnone
    rw [ordered, hnil]

/-- One endpoint, or none, is in order. -/
theorem byLatency_of_length_le_one (hnodup : endpoints.Nodup) (hlength : endpoints.length ≤ 1) :
    ByLatency probe preferredEndpoint endpoints endpoints := by
  have hself : ordered probe preferredEndpoint endpoints = endpoints := by
    have hperm := perm_ordered probe preferredEndpoint endpoints
    match endpoints, hlength with
    | [], _ => exact List.perm_nil.mp hperm
    | [x], _ => exact List.perm_singleton.mp hperm
  have hordered : ByLatency probe preferredEndpoint endpoints
      (ordered probe preferredEndpoint endpoints) :=
    byLatency_ordered hnodup
  rwa [hself] at hordered

/-! ### The order of endpoints -/

/-- **No endpoint is lost**: the result is the input without its repetitions in another order.
Without a proxy, an endpoint of the input that the cache names comes first and the others keep their
order, and where the cache names none the order is that of the probes; through a proxy the order is
that of the input. -/
theorem orderDcEndpoints_spec (probe : Endpoint → Probe τ) (cache : List (String × Json))
    (endpoints : List Endpoint)
    (proxy : Bool) (preferredEndpoint : Option Endpoint) (cacheKey : Option String) :
    (orderDcEndpoints probe cache endpoints proxy preferredEndpoint cacheKey).Perm
      (Dict.fromKeys endpoints) ∧
      if proxy then
        orderDcEndpoints probe cache endpoints proxy preferredEndpoint cacheKey =
          Dict.fromKeys endpoints
      else
        match cachedDcEndpoint cacheKey cache endpoints with
        | some cached =>
            orderDcEndpoints probe cache endpoints proxy preferredEndpoint cacheKey =
              cached :: (Dict.fromKeys endpoints).filter (· ≠ cached)
        | none =>
            ByLatency probe preferredEndpoint (Dict.fromKeys endpoints)
              (orderDcEndpoints probe cache endpoints proxy preferredEndpoint cacheKey) := by
  have hnodup := Dict.nodup_fromKeys endpoints
  cases proxy with
  | true => exact ⟨.refl _, rfl⟩
  | false =>
    -- with one endpoint nothing is probed
    by_cases hlength : (Dict.fromKeys endpoints).length ≤ 1
    · have hself : orderDcEndpoints probe cache endpoints false preferredEndpoint cacheKey =
          Dict.fromKeys endpoints :=
        if_pos (.inr hlength)
      rw [hself]
      refine ⟨.refl _, ?_⟩
      rw [if_neg Bool.false_ne_true]
      cases hcached : cachedDcEndpoint cacheKey cache endpoints with
      | none => exact byLatency_of_length_le_one hnodup hlength
      | some cached =>
        have hmem := Dict.mem_fromKeys.mpr (mem_of_cachedDcEndpoint hcached)
        have hone : Dict.fromKeys endpoints = [cached] := by
          match Dict.fromKeys endpoints, hlength, hmem with
          | [x], _, hmem => rw [List.mem_singleton.mp hmem]
        simp [hone]
    · have hmany : ¬ (false = true ∨ (Dict.fromKeys endpoints).length ≤ 1) := by simpa using hlength
      -- the cached endpoint goes first; without one the latencies decide
      have horder : orderDcEndpoints probe cache endpoints false preferredEndpoint cacheKey =
          match cachedDcEndpoint cacheKey cache endpoints with
          | some cached => cached.first (Dict.fromKeys endpoints)
          | none => ordered probe preferredEndpoint (Dict.fromKeys endpoints) := by
        rw [orderDcEndpoints, if_neg hmany, cachedDcEndpoint_fromKeys]
      rw [if_neg Bool.false_ne_true, horder]
      cases hcached : cachedDcEndpoint cacheKey cache endpoints with
      | none => exact ⟨perm_ordered _ _ _, byLatency_ordered hnodup⟩
      | some cached =>
        have hmem := Dict.mem_fromKeys.mpr (mem_of_cachedDcEndpoint hcached)
        have hperm := Endpoint.perm_first hmem
        rw [Dict.fromKeys_of_nodup hnodup] at hperm
        exact ⟨hperm, Dict.fromKeys_cons_of_nodup hnodup⟩

/-- The port 443 is not reached. -/
def probeSecond (endpoint : Endpoint) : Probe ℕ :=
  if endpoint.port = 443 then .failed else .reached 1

/-- Through a proxy an endpoint that can be reached stays behind one that cannot. -/
theorem not_byLatency_proxy :
    ¬ ByLatency probeSecond none [⟨"149.154.167.51", 443⟩, ⟨"149.154.167.51", 80⟩]
    (orderDcEndpoints probeSecond [] [⟨"149.154.167.51", 443⟩, ⟨"149.154.167.51", 80⟩] true none
      none) := by
  intro h
  have hfirst := h.reachable_first
  revert hfirst
  decide

end Probes

end DcOptions

end Pyrogram
