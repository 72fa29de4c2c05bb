import Pyrogram.Session.Receipt

/-!
# Publishing once

`_invoke_ordinary_publication` sends a publication up to `max_retries + 1` times and
keeps in its policy whether the outcome of some send is unknown: a caller that finds
`unknown` false takes the publication for not made, and may make it again.

The environment of a run says what every attempt meets: what the client and the query
look like when they are checked, whether the session gets ready, what the hooks raise,
and what becomes of the messages `Session.send` hands to the transport.  The query is
changed, if at all, by the hooks `before_attempt` and `wait_retry`.

## Main definitions

* `ordinaryPublication` — the policy of a scope.
* `send` — `Session.send` of a publication, with its re-sends.
* `invokeOrdinaryPublication` — the loop over the attempts.
* `Safe` — what a run must keep to.
* `LosesOutcome` — the first message handed over ends in an exception nobody expects.

## Main results

* `loop_of_unknown` — an unknown outcome stays known as unknown.
* `safe_iff` — **a run is safe exactly if it does not lose the outcome of its first
  send**.
-/

namespace Pyrogram.Publication

/-! ### The policy -/

/-- The class of an error the server answers. -/
inductive Category
  | internalServerError
  | serviceUnavailable
  | other (code : ℤ)
  deriving DecidableEq, Repr

/-- What `RPCError.raise_it` raises. -/
structure RPCError where
  category : Category
  ID : Option String
  deriving DecidableEq, Repr

/-- The exceptions of a publication, by the classes its handlers tell apart. -/
inductive Exc
  | cancelledError
  /-- An `OSError` or a subclass: `ConnectionError`, `TimeoutError`. -/
  | osError (cls : String)
  | rpcError (error : RPCError)
  | publicationUnconfirmed (msg : String)
  /-- Any other exception, by its class. -/
  | other (cls : String)
  deriving DecidableEq, Repr

structure Actor where
  id : ℤ
  isBot : Bool
  deriving DecidableEq, Repr

/-- What `check` reads of the client and the session; objects are told apart by a
number. -/
structure Reading where
  /-- `client.session`. -/
  session : Option ℕ
  /-- `client.me`. -/
  me : Option Actor
  /-- `(session.session_id, session.auth_key_id)`. -/
  identity : List UInt8 × List UInt8
  deriving DecidableEq, Repr

/-- `OrdinaryPublicationPolicy`. -/
structure Policy where
  session : Option ℕ
  accountId : ℤ
  peerBytes : List UInt8
  method : String
  sourceIds : List ℤ
  maxRetries : ℕ
  /-- There is a hook `on_result`. -/
  onResult : Bool
  attempted : Bool := false
  unknown : Bool := false
  succeeded : Bool := false
  queryBytes : Option (List UInt8) := none
  targetIds : Option (List ℤ) := none
  sessionIdentity : Option (List UInt8 × List UInt8) := none
  nativeCalls : ℕ := 0
  deriving DecidableEq, Repr

def Policy.check (policy : Policy) (session : Option ℕ) (reading : Reading) : Except Exc Unit :=
  if session = none ∨ session ≠ policy.session ∨ reading.session ≠ session ∨
      reading.me.map Actor.id ≠ some policy.accountId ∨ reading.me.all Actor.isBot ∨
      (policy.sessionIdentity ≠ none ∧ some reading.identity ≠ policy.sessionIdentity) then
    .error (.publicationUnconfirmed "ordinary_publication_identity_changed")
  else .ok ()

/-- `ordinary_publication`: the policy it yields.  The version is that of the class of
the client's session. -/
def ordinaryPublication (reading : Reading) (version : Option ℕ) (accountId : ℤ)
    (peerBytes : List UInt8) (method : String) (sourceIds : List ℤ) (maxRetries : ℤ)
    (onResult : Bool) : Except Exc Policy :=
  if method ∉ ["SendMessage", "SendMedia", "SendMultiMedia"] ∨ sourceIds = [] ∨ ¬ sourceIds.Nodup ∨
      (∃ member ∈ sourceIds, member ≤ 0) ∨ ¬ (0 ≤ maxRetries ∧ maxRetries ≤ 3) then
    .error (.publicationUnconfirmed "ordinary_publication_invalid_manifest")
  else if version ≠ some 1 then
    .error (.publicationUnconfirmed "ordinary_publication_native_contract_unavailable")
  else do
    let policy : Policy :=
      { session := reading.session, accountId, peerBytes, method, sourceIds,
        maxRetries := maxRetries.toNat, onResult }
    policy.check reading.session reading
    return { policy with sessionIdentity := some reading.identity }

/-! ### Sending -/

/-- What a run does that others see. -/
inductive Act
  /-- `on_intent` is called. -/
  | intent (queryBytes : List UInt8) (ids : List ℤ)
  /-- `Session.send` is called with a query that writes these bytes. -/
  | send (queryBytes : List UInt8)
  /-- A payload of the query is handed to the transport. -/
  | handed
  /-- The server answers with an error. -/
  | rejected (error : RPCError)
  /-- `on_receipt` returns. -/
  | accepted (targets : List ℤ)
  deriving DecidableEq, Repr

/-- What `Session.send` meets before it hands a payload over. -/
structure Steps where
  /-- What creating or packing the message raises. -/
  prepared : Option Exc
  beforeAttempt : Option Exc
  reading : Reading
  /-- What the query writes after the hook. -/
  written : List UInt8
  deriving DecidableEq, Repr

/-- What becomes of a payload that is handed over. -/
inductive Answer
  /-- `connection.send` or the wait raises. -/
  | raised (exc : Exc)
  /-- The exception recorded in the pending result. -/
  | failure (exc : Exc)
  /-- No answer in time. -/
  | nothing
  | rpcError (error : RPCError)
  | result (result : Result)
  deriving DecidableEq, Repr

/-- The messages one `Session.send` makes: after a `BadServerSalt` the query is sent
again. -/
inductive Sending
  | answered (steps : Steps) (answer : Answer)
  | badServerSalt (steps : Steps) (next : Sending)
  deriving DecidableEq, Repr

/-- A hook, or a part of the client, that may raise. -/
def raising : Option Exc → Except Exc Unit
  | none => .ok ()
  | some exc => .error exc

section Send

variable (session : ℕ) (policy : Policy)

/-- `Session.send` up to the transport. -/
def prepare (steps : Steps) : Except Exc Unit := do
  raising steps.prepared
  raising steps.beforeAttempt
  policy.check (some session) steps.reading
  if some steps.written ≠ policy.queryBytes then
    .error (.publicationUnconfirmed "ordinary_publication_query_mutated")

/-- `Session.send` after the transport. -/
def Answer.receive : Answer → List Act × Except Exc Result
  | .raised exc | .failure exc => ([], .error exc)
  | .nothing => ([], .error (.osError "TimeoutError"))
  | .rpcError error => ([.rejected error], .error (.rpcError error))
  | .result answer => ([], .ok answer)

/-- `Session.send`. -/
def send : Sending → List Act × Except Exc Result
  | .answered steps answer =>
      match prepare session policy steps with
      | .error exc => ([], .error exc)
      | .ok () => (.handed :: answer.receive.1, answer.receive.2)
  | .badServerSalt steps next =>
      match prepare session policy steps with
      | .error exc => ([], .error exc)
      | .ok () => (.handed :: (send next).1, (send next).2)

end Send

/-! ### The attempts -/

/-- The wait for `session.is_started`. -/
inductive Readiness
  | started
  | timeout
  | raised (exc : Exc)
  deriving DecidableEq, Repr

/-- What an attempt meets. -/
structure Attempt where
  reading : Reading
  /-- What the query writes when the attempt begins. -/
  written : List UInt8
  readiness : Readiness
  onIntent : Option Exc
  sending : Sending
  onResult : Option Exc
  onReceipt : Option Exc
  waitRetry : Option Exc
  deriving DecidableEq, Repr

/-- The query, as it is when the run begins. -/
structure Query where
  /-- What `query.write()` gives. -/
  bytes : List UInt8
  peer : InputPeer
  /-- What `inner.peer.write()` gives. -/
  peerBytes : List UInt8
  randomIds : List ℤ
  deriving DecidableEq, Repr

inductive Outcome
  | returned (result : Result)
  | raised (exc : Exc)
  | sessionNotReady (queryName : String)
  deriving DecidableEq, Repr

structure Run where
  policy : Policy
  acts : List Act
  outcome : Outcome
  deriving DecidableEq, Repr

/-- Where the body of the loop leaves to: the end of the run, or one of the waits. -/
inductive Step
  | ended (policy : Policy) (outcome : Outcome)
  | timedOut (policy : Policy)
  | uncertain (policy : Policy)
  deriving DecidableEq, Repr

section Attempts

variable (session : ℕ) (query : Query) (env : ℕ → Attempt)

/-- The handlers of what `Session.send` raises. -/
def refused (policy : Policy) : Exc → Step
  | .cancelledError => .ended { policy with unknown := true } (.raised .cancelledError)
  | .osError _ => .uncertain { policy with unknown := true }
  | .rpcError error =>
      if error.category = .internalServerError ∨ error.category = .serviceUnavailable then
        .uncertain { policy with unknown := true }
      else if error.ID = some "RANDOM_ID_DUPLICATE" then .uncertain { policy with unknown := true }
      else if policy.unknown then
        .ended policy (.raised (.publicationUnconfirmed "ordinary_publication_outcome_unconfirmed"))
      else .ended policy (.raised (.rpcError error))
  | exc => .ended policy (.raised exc)

/-- The receipt of a result, once the hooks agree. -/
def receive (policy : Policy) (attempt : Attempt) (result : Result) : Except Exc (List ℤ) := do
  raising (if policy.onResult then attempt.onResult else none)
  let targets ← (publicationReceipt query.peer policy.accountId query.randomIds result).mapError
    Exc.publicationUnconfirmed
  raising attempt.onReceipt
  return targets

/-- What follows a result. -/
def confirm (policy : Policy) (attempt : Attempt) (result : Result) : List Act × Step :=
  let policy := { policy with succeeded := true, unknown := true }
  match receive query policy attempt result with
  | .ok targets =>
      ([.accepted targets], .ended { policy with targetIds := some targets } (.returned result))
  | .error .cancelledError => ([], .ended policy (.raised .cancelledError))
  | .error _ =>
      ([], .ended policy
        (.raised (.publicationUnconfirmed "ordinary_publication_receipt_unconfirmed")))

/-- The call of `Session.send`, and its handlers. -/
def publish (policy : Policy) (attempt : Attempt) : List Act × Step :=
  let policy := { policy with attempted := true, nativeCalls := policy.nativeCalls + 1 }
  match send session policy attempt.sending with
  | (acts, .error exc) => (.send attempt.written :: acts, refused policy exc)
  | (acts, .ok result) =>
      let (acts', step) := confirm query policy attempt result
      (.send attempt.written :: (acts ++ acts'), step)

/-- The body of the loop. -/
def tryOnce (policy : Policy) (attempt : Attempt) : List Act × Step :=
  match policy.check (some session) attempt.reading with
  | .error exc => ([], .ended policy (.raised exc))
  | .ok () =>
      if some attempt.written ≠ policy.queryBytes then
        ([], .ended policy (.raised (.publicationUnconfirmed "ordinary_publication_query_mutated")))
      else
        match attempt.readiness with
        | .timeout => ([], .timedOut policy)
        | .raised exc => ([], .ended policy (.raised exc))
        | .started =>
            if policy.attempted then publish session query policy attempt
            else
              match attempt.onIntent with
              | some exc => ([.intent query.bytes query.randomIds], .ended policy (.raised exc))
              | none =>
                  let (acts, step) := publish session query policy attempt
                  (.intent query.bytes query.randomIds :: acts, step)

/-- The end of the last attempt. -/
def Step.last : Step → Policy × Outcome
  | .ended policy outcome => (policy, outcome)
  | .timedOut policy =>
      if policy.unknown then
        (policy, .raised (.publicationUnconfirmed "ordinary_publication_outcome_unconfirmed"))
      else (policy, .sessionNotReady ("messages." ++ policy.method))
  | .uncertain policy =>
      (policy, .raised (.publicationUnconfirmed "ordinary_publication_outcome_unconfirmed"))

/-- The loop, `remaining` attempts before the last one. -/
def loop : ℕ → ℕ → Policy → Run
  | 0, attempt, policy =>
      let (acts, step) := tryOnce session query policy (env attempt)
      ⟨step.last.1, acts, step.last.2⟩
  | remaining + 1, attempt, policy =>
      match tryOnce session query policy (env attempt) with
      | (acts, .ended policy outcome) => ⟨policy, acts, outcome⟩
      | (acts, .timedOut policy) | (acts, .uncertain policy) =>
          match (env attempt).waitRetry with
          | some exc => ⟨policy, acts, .raised exc⟩
          | none =>
              let run := loop remaining (attempt + 1) policy
              { run with acts := acts ++ run.acts }

/-- The query is the one the policy is for. -/
def Manifest (policy : Policy) : Prop :=
  query.peerBytes = policy.peerBytes ∧ query.randomIds.length = policy.sourceIds.length ∧
    query.randomIds.Nodup ∧ ∀ randomId ∈ query.randomIds, randomId ≠ 0

instance (policy : Policy) : Decidable (Manifest query policy) :=
  inferInstanceAs (Decidable (_ ∧ _))

/-- `_invoke_ordinary_publication`. -/
def invokeOrdinaryPublication (policy : Policy) : Run :=
  if policy.queryBytes ≠ none then
    ⟨policy, [], .raised (.publicationUnconfirmed "ordinary_publication_fresh_query_forbidden")⟩
  else if ¬ Manifest query policy then
    ⟨policy, [], .raised (.publicationUnconfirmed "ordinary_publication_query_manifest_mismatch")⟩
  else loop session query env policy.maxRetries 0 { policy with queryBytes := some query.bytes }

end Attempts

/-! ### What a run must keep to -/

def Act.IsIntent : Act → Prop
  | .intent _ _ => True
  | _ => False

instance : DecidablePred Act.IsIntent := fun a => by
  cases a <;> unfold Act.IsIntent <;> infer_instance

def Act.IsSend : Act → Prop
  | .send _ => True
  | _ => False

instance : DecidablePred Act.IsSend := fun a => by
  cases a <;> unfold Act.IsSend <;> infer_instance

@[simp] theorem countP_isSend_intent (queryBytes : List UInt8) (ids : List ℤ) (acts : List Act) :
    (Act.intent queryBytes ids :: acts).countP (fun a => a.IsSend) =
      acts.countP (fun a => a.IsSend) :=
  List.countP_cons_of_neg (decide_eq_true_iff.not.mpr (id : ¬ Act.IsSend (.intent queryBytes ids)))

/-- Acts that are no calls of `Session.send` do not count. -/
theorem countP_isSend_eq_zero {acts : List Act} (h : ∀ a ∈ acts, ¬ a.IsSend) :
    acts.countP (fun a => a.IsSend) = 0 := by
  rw [List.countP_eq_zero]
  intro a ha
  exact decide_eq_true_iff.not.mpr (h a ha)

@[simp] theorem countP_isSend_send (queryBytes : List UInt8) (acts : List Act) :
    (Act.send queryBytes :: acts).countP (fun a => a.IsSend) =
      acts.countP (fun a => a.IsSend) + 1 :=
  List.countP_cons_of_pos (decide_eq_true (trivial : Act.IsSend (.send queryBytes)))

/-- `on_receipt` accepted the ids, and they are the receipt of a result. -/
def Validated (query : Query) (accountId : ℤ) (acts : List Act) (targets : List ℤ) : Prop :=
  .accepted targets ∈ acts ∧
    ∃ result, publicationReceipt query.peer accountId query.randomIds result = .ok targets

/-- The run ends with the error the server answered to its first send. -/
def Definite (run : Run) : Prop :=
  ∃ error, (∃ acts, run.acts = acts ++ [.rejected error]) ∧
    run.outcome = .raised (.rpcError error) ∧ run.acts.countP (fun a => a.IsSend) = 1

/-- What a run of the policy must keep to, with so many retries. -/
structure Safe (query : Query) (policy : Policy) (retries : ℕ) (run : Run) : Prop where
  intentOnce : run.acts.countP (fun a => a.IsIntent) ≤ 1
  intentFirst : ∀ before after queryBytes, run.acts = before ++ .send queryBytes :: after →
    .intent query.bytes query.randomIds ∈ before
  sends : run.acts.countP (fun a => a.IsSend) ≤ retries + 1
  sameBytes : ∀ queryBytes, .send queryBytes ∈ run.acts → queryBytes = query.bytes
  targets : ∀ targets, run.policy.targetIds = some targets →
    policy.targetIds = some targets ∨ Validated query policy.accountId run.acts targets
  notReady : ∀ queryName, run.outcome = .sessionNotReady queryName →
    ∀ queryBytes, .send queryBytes ∉ run.acts
  unknown : .handed ∈ run.acts → run.policy.targetIds = none → ¬ Definite run →
    run.policy.unknown = true

/-- What the handlers take for an unknown outcome. -/
def Exc.Expected : Exc → Prop
  | .cancelledError | .osError _ => True
  | .rpcError error =>
      error.category = .internalServerError ∨ error.category = .serviceUnavailable ∨
        error.ID = some "RANDOM_ID_DUPLICATE"
  | .publicationUnconfirmed _ | .other _ => False

instance : DecidablePred Exc.Expected := fun e => by
  cases e <;> unfold Exc.Expected <;> infer_instance

def Answer.Loses : Answer → Prop
  | .raised exc | .failure exc => ¬ exc.Expected
  | .nothing | .rpcError _ | .result _ => False

def Sending.steps : Sending → Steps
  | .answered steps _ | .badServerSalt steps _ => steps

section Loses

variable (session : ℕ) (query : Query) (env : ℕ → Attempt) (policy : Policy)

/-- A payload is handed over, and then an exception comes that the handlers do not
expect and the server did not answer. -/
def Sending.Loses : Sending → Prop
  | .answered steps answer => prepare session policy steps = .ok () ∧ answer.Loses
  | .badServerSalt steps next => prepare session policy steps = .ok () ∧
      ((∃ exc, prepare session policy next.steps = .error exc ∧ ¬ exc.Expected) ∨ next.Loses)

/-- The checks before the wait for the session pass. -/
def Attempt.Enters (attempt : Attempt) : Prop :=
  policy.check (some session) attempt.reading = .ok () ∧ some attempt.written = policy.queryBytes

/-- The attempt is the first to send, and loses its outcome. -/
def Attempt.Loses (attempt : Attempt) : Prop :=
  attempt.Enters session policy ∧ attempt.readiness = .started ∧ attempt.onIntent = none ∧
    attempt.sending.Loses session policy

/-- The attempt is over before anything is sent, and another follows. -/
def Attempt.Waits (attempt : Attempt) : Prop :=
  attempt.Enters session policy ∧ attempt.readiness = .timeout ∧ attempt.waitRetry = none

/-- The first attempt to send loses its outcome. -/
def LosesFirst : ℕ → ℕ → Prop
  | 0, attempt => (env attempt).Loses session policy
  | remaining + 1, attempt => (env attempt).Loses session policy ∨
      ((env attempt).Waits session policy ∧ LosesFirst remaining (attempt + 1))

/-- The run sends, and loses the outcome of its first send. -/
def LosesOutcome : Prop :=
  policy.queryBytes = none ∧ Manifest query policy ∧
    LosesFirst session env { policy with queryBytes := some query.bytes } policy.maxRetries 0

end Loses

/-- The policy a step leaves. -/
def Step.policy : Step → Policy
  | .ended policy _ | .timedOut policy | .uncertain policy => policy

theorem Step.last_fst (step : Step) : step.last.1 = step.policy := by
  cases step with
  | ended policy outcome => rfl
  | uncertain policy => rfl
  | timedOut policy =>
    rw [last]
    split <;> rfl

variable {session : ℕ} {query : Query} {env : ℕ → Attempt} {policy policy' : Policy}
  {attempt : Attempt} {sending : Sending} {exc : Exc} {acts : List Act} {step : Step}
  {outcome : Outcome} {remaining n : ℕ}

/-! ### One send -/

theorem send_of_prepare_eq_error (sending : Sending)
    (h : prepare session policy sending.steps = .error exc) :
    send session policy sending = ([], .error exc) := by
  cases sending with
  | answered steps answer =>
    have h : prepare session policy steps = .error exc := h
    rw [send, h]
  | badServerSalt steps next =>
    have h : prepare session policy steps = .error exc := h
    rw [send, h]

/-- `Session.send` neither calls `on_intent` nor counts as another call. -/
theorem not_isIntent_of_mem_send {a : Act} (ha : a ∈ (send session policy sending).1) :
    ¬ a.IsIntent ∧ ¬ a.IsSend := by
  induction sending with
  | answered steps answer =>
    rw [send] at ha
    cases hprepare : prepare session policy steps with
    | error exc =>
      rw [hprepare] at ha
      cases ha
    | ok _ =>
      rw [hprepare] at ha
      rcases List.mem_cons.mp ha with rfl | ha
      · exact ⟨id, id⟩
      · cases answer <;> simp only [Answer.receive, List.not_mem_nil, List.mem_singleton] at ha
        subst ha
        exact ⟨id, id⟩
  | badServerSalt steps next ih =>
    rw [send] at ha
    cases hprepare : prepare session policy steps with
    | error exc =>
      rw [hprepare] at ha
      cases ha
    | ok _ =>
      rw [hprepare] at ha
      rcases List.mem_cons.mp ha with rfl | ha
      · exact ⟨id, id⟩
      · exact ih ha

/-- A lost outcome is an exception that the handlers do not expect. -/
theorem Sending.Loses.send (h : sending.Loses session policy) :
    ∃ exc, (send session policy sending).2 = .error exc ∧ ¬ exc.Expected := by
  induction sending with
  | answered steps answer =>
    obtain ⟨hprepare, hloses⟩ := h
    rw [Publication.send, hprepare]
    cases answer with
    | raised exc => exact ⟨exc, rfl, hloses⟩
    | failure exc => exact ⟨exc, rfl, hloses⟩
    | nothing => exact hloses.elim
    | rpcError error => exact hloses.elim
    | result result => exact hloses.elim
  | badServerSalt steps next ih =>
    obtain ⟨hprepare, ⟨exc, hnext, hexc⟩ | hloses⟩ := h
    · rw [Publication.send, hprepare, send_of_prepare_eq_error next hnext]
      exact ⟨exc, rfl, hexc⟩
    · rw [Publication.send, hprepare]
      exact ih hloses

/-- **Where an exception the handlers do not expect comes from**: nothing was handed
over, or the server answered it, or the outcome is lost. -/
theorem send_of_not_expected (h : (send session policy sending).2 = .error exc)
    (hexc : ¬ exc.Expected) :
    (prepare session policy sending.steps = .error exc ∧ (send session policy sending).1 = [] ∧
      ¬ sending.Loses session policy) ∨
    (∃ error acts, (send session policy sending).1 = acts ++ [.rejected error] ∧
      exc = .rpcError error ∧ ¬ sending.Loses session policy) ∨
    ((∃ acts, (send session policy sending).1 = acts ++ [.handed]) ∧
      sending.Loses session policy) := by
  induction sending with
  -- the answer to the request decides
  | answered steps answer =>
    cases hprepare : prepare session policy steps with
    | error exc' =>
      have hsend := send_of_prepare_eq_error (.answered steps answer) hprepare
      rw [hsend] at h ⊢
      cases h
      refine Or.inl ⟨hprepare, rfl, ?_⟩
      rintro ⟨hok, -⟩
      rw [hprepare] at hok
      cases hok
    | ok _ =>
      rw [send, hprepare] at h ⊢
      cases answer with
      | raised exc' =>
        cases h
        exact Or.inr (Or.inr ⟨⟨[], rfl⟩, hprepare, hexc⟩)
      | failure exc' =>
        cases h
        exact Or.inr (Or.inr ⟨⟨[], rfl⟩, hprepare, hexc⟩)
      | nothing =>
        cases h
        exact absurd trivial hexc
      | rpcError error =>
        cases h
        exact Or.inr (Or.inl ⟨error, [.handed], rfl, rfl, fun hloses => hloses.2⟩)
      | result result => cases h
  -- the request is sent once more, with the new salt
  | badServerSalt steps next ih =>
    cases hprepare : prepare session policy steps with
    | error exc' =>
      have hsend := send_of_prepare_eq_error (.badServerSalt steps next) hprepare
      rw [hsend] at h ⊢
      cases h
      refine Or.inl ⟨hprepare, rfl, ?_⟩
      rintro ⟨hok, -⟩
      rw [hprepare] at hok
      cases hok
    | ok _ =>
      rw [send, hprepare] at h ⊢
      rcases ih h with ⟨hnext, hacts, -⟩ | ⟨error, acts, hacts, hexc', hnot⟩ | ⟨⟨acts, hacts⟩,
        hloses⟩
      -- what was handed over before is lost with it
      · refine Or.inr (Or.inr ⟨⟨[], ?_⟩, hprepare, Or.inl ⟨exc, hnext, hexc⟩⟩)
        simp only [hacts, List.nil_append]
      · refine Or.inr (Or.inl ⟨error, .handed :: acts, congrArg (List.cons _) hacts, hexc', ?_⟩)
        rintro ⟨-, ⟨exc', hnext, -⟩ | hloses⟩
        · rw [send_of_prepare_eq_error next hnext] at hacts
          exact absurd hacts.symm (List.append_ne_nil_of_right_ne_nil _ (List.cons_ne_nil _ _))
        · exact hnot hloses
      · exact Or.inr (Or.inr ⟨⟨.handed :: acts, congrArg (List.cons _) hacts⟩, hprepare,
          Or.inr hloses⟩)

/-! ### One attempt -/

/-- What a send leaves of the policy as it was. -/
structure Sent (policy policy' : Policy) : Prop where
  attempted : policy'.attempted = true
  queryBytes : policy'.queryBytes = policy.queryBytes
  accountId : policy'.accountId = policy.accountId
  unknown : policy.unknown = true → policy'.unknown = true

/-- What an expected exception does: the outcome is unknown from then on. -/
theorem refused_of_expected (hexc : exc.Expected) :
    refused policy exc = .uncertain { policy with unknown := true } ∨
      refused policy exc = .ended { policy with unknown := true } (.raised exc) := by
  cases exc with
  | cancelledError => exact Or.inr rfl
  | osError cls => exact Or.inl rfl
  | rpcError error =>
    left
    rw [refused]
    by_cases hcategory : error.category = .internalServerError ∨
      error.category = .serviceUnavailable
    · rw [if_pos hcategory]
    · rw [if_neg hcategory, if_pos]
      rcases hexc with hexc | hexc | hexc
      · exact absurd (Or.inl hexc) hcategory
      · exact absurd (Or.inr hexc) hcategory
      · exact hexc
  | publicationUnconfirmed msg => exact hexc.elim
  | other cls => exact hexc.elim

/-- Any other exception ends the run, and leaves the policy. -/
theorem refused_of_not_expected (policy : Policy) (hexc : ¬ exc.Expected) :
    ∃ exc', refused policy exc = .ended policy (.raised exc') ∧
      (policy.unknown = false → exc' = exc) := by
  cases exc with
  | cancelledError => exact absurd trivial hexc
  | osError cls => exact absurd trivial hexc
  | rpcError error =>
    obtain ⟨hinternal, hservice, hid⟩ := not_or.mp hexc |>.imp_right not_or.mp
    rw [refused, if_neg (not_or.mpr ⟨hinternal, hservice⟩), if_neg hid]
    by_cases hunknown : policy.unknown = true
    · rw [if_pos hunknown]
      refine ⟨_, rfl, ?_⟩
      intro hnot
      rw [hnot] at hunknown
      cases hunknown
    · rw [if_neg hunknown]
      exact ⟨_, rfl, fun _ => rfl⟩
  | publicationUnconfirmed msg => exact ⟨_, rfl, fun _ => rfl⟩
  | other cls => exact ⟨_, rfl, fun _ => rfl⟩

/-- The ids that are received are the receipt of the result. -/
theorem receive_eq_ok {result : Result} {targets : List ℤ}
    (h : receive query policy attempt result = .ok targets) :
    publicationReceipt query.peer policy.accountId query.randomIds result = .ok targets := by
  rw [receive] at h
  obtain ⟨_, -, h⟩ := Except.bind_eq_ok.mp h
  obtain ⟨targets', hreceipt, h⟩ := Except.bind_eq_ok.mp h
  obtain ⟨_, -, h⟩ := Except.bind_eq_ok.mp h
  cases h
  exact Except.mapError_eq_ok.mp hreceipt

/-- What a result leads to: the run ends with the outcome fenced, and the ids are set
only to a receipt that was accepted. -/
theorem confirm_spec (query : Query) (policy : Policy) (attempt : Attempt) (result : Result) :
    ∃ acts policy' outcome, confirm query policy attempt result = (acts, .ended policy' outcome) ∧
      (∀ a ∈ acts, ¬ a.IsIntent ∧ ¬ a.IsSend) ∧ policy'.unknown = true ∧
      policy'.attempted = policy.attempted ∧ policy'.queryBytes = policy.queryBytes ∧
      policy'.accountId = policy.accountId ∧ (∀ queryName, outcome ≠ .sessionNotReady queryName) ∧
      ∀ targets, policy'.targetIds = some targets → policy.targetIds = some targets ∨
        Validated query policy.accountId acts targets := by
  cases hreceive : receive query { policy with succeeded := true, unknown := true } attempt
    result with
  | error exc =>
    obtain ⟨exc', hconfirm⟩ : ∃ exc', confirm query policy attempt result =
        ([], .ended { policy with succeeded := true, unknown := true } (.raised exc')) := by
      simp only [confirm, hreceive]
      cases exc <;> exact ⟨_, rfl⟩
    exact ⟨_, _, _, hconfirm, by simp, rfl, rfl, rfl, rfl, by simp, fun _ => Or.inl⟩
  | ok targets =>
    have hconfirm : confirm query policy attempt result = ([.accepted targets],
        .ended { policy with succeeded := true, unknown := true, targetIds := some targets }
          (.returned result)) := by
      simp only [confirm, hreceive]
    refine ⟨_, _, _, hconfirm, ?_, rfl, rfl, rfl, rfl, by simp, ?_⟩
    · intro a ha
      obtain rfl := List.mem_singleton.mp ha
      exact ⟨id, id⟩
    · intro targets' htargets
      obtain rfl : targets = targets' := Option.some.inj htargets
      exact Or.inr ⟨List.mem_cons_self, result, receive_eq_ok hreceive⟩

/-- `Session.send` does not look at what counts the attempts. -/
theorem send_attempted (sending : Sending) (attempted : Bool) (nativeCalls : ℕ) :
    send session { policy with attempted, nativeCalls } sending = send session policy sending := by
  induction sending with
  | answered steps answer => rfl
  | badServerSalt steps next ih =>
    rw [send, send, ih]
    rfl

/-- What one call of `Session.send` does: it leaves an unknown outcome to the next
attempt, or ends the run. -/
theorem publish_spec (session : ℕ) (query : Query) (policy : Policy) (attempt : Attempt) :
    ∃ acts step, publish session query policy attempt = (.send attempt.written :: acts, step) ∧
      (∀ a ∈ acts, ¬ a.IsIntent ∧ ¬ a.IsSend) ∧
      ((∃ policy', step = .uncertain policy' ∧ Sent policy policy' ∧ policy'.unknown = true ∧
          policy'.targetIds = policy.targetIds) ∨
        ∃ policy' outcome, step = .ended policy' outcome ∧ Sent policy policy' ∧
          (∀ queryName, outcome ≠ .sessionNotReady queryName) ∧
          ∀ targets, policy'.targetIds = some targets → policy.targetIds = some targets ∨
            Validated query policy.accountId acts targets) := by
  rcases hsend : send session policy attempt.sending with ⟨acts, exc | result⟩
  · have hacts : ∀ a ∈ acts, ¬ a.IsIntent ∧ ¬ a.IsSend := by
      intro a ha
      exact not_isIntent_of_mem_send (by rw [hsend]; exact ha)
    refine ⟨acts, refused { policy with attempted := true, nativeCalls := policy.nativeCalls + 1 }
      exc, ?_, hacts, ?_⟩
    · simp only [publish, send_attempted, hsend]
    -- the exception is caught where it leaves the outcome open
    by_cases hexc : exc.Expected
    · rcases refused_of_expected hexc with h | h
      · rw [h]
        exact Or.inl ⟨_, rfl, ⟨rfl, rfl, rfl, fun _ => rfl⟩, rfl, rfl⟩
      · rw [h]
        exact Or.inr ⟨_, _, rfl, ⟨rfl, rfl, rfl, fun _ => rfl⟩, by simp, fun _ => Or.inl⟩
    · obtain ⟨exc', h, -⟩ := refused_of_not_expected
        { policy with attempted := true, nativeCalls := policy.nativeCalls + 1 } hexc
      rw [h]
      exact Or.inr ⟨_, _, rfl, ⟨rfl, rfl, rfl, id⟩, by simp, fun _ => Or.inl⟩
  -- the targets come from the answer, which has been validated
  · obtain ⟨acts', policy', outcome, hconfirm, hacts', hunknown, hattempted, hbytes, haccount,
      hready, htargets⟩ := confirm_spec query
        { policy with attempted := true, nativeCalls := policy.nativeCalls + 1 } attempt result
    refine ⟨acts ++ acts', .ended policy' outcome, ?_, ?_, Or.inr ⟨policy', outcome, rfl,
      ⟨hattempted, hbytes, haccount, fun _ => hunknown⟩, hready, ?_⟩⟩
    · simp only [publish, send_attempted, hsend, hconfirm]
    · intro a ha
      rcases List.mem_append.mp ha with ha | ha
      · exact not_isIntent_of_mem_send (by rw [hsend]; exact ha)
      · exact hacts' a ha
    · intro targets h
      refine (htargets targets h).imp_right ?_
      rintro ⟨hmem, hresult⟩
      exact ⟨List.mem_append_right _ hmem, hresult⟩

/-- What the first send of a run ends in: a fenced outcome, or an exception with the
policy left as it was. -/
theorem publish_first (hunknown : policy.unknown = false) {acts : List Act} {step : Step}
    (h : publish session query policy attempt = (.send attempt.written :: acts, step)) :
    ((∃ policy', (step = .uncertain policy' ∨ ∃ outcome, step = .ended policy' outcome) ∧
        policy'.unknown = true) ∧ ¬ attempt.sending.Loses session policy) ∨
      ∃ exc policy', step = .ended policy' (.raised exc) ∧ policy'.unknown = false ∧
        policy'.targetIds = policy.targetIds ∧
        ((acts = [] ∧ ¬ attempt.sending.Loses session policy) ∨
          (∃ error acts', acts = acts' ++ [.rejected error] ∧ exc = .rpcError error ∧
            ¬ attempt.sending.Loses session policy) ∨
          ((∃ acts', acts = acts' ++ [.handed]) ∧ attempt.sending.Loses session policy)) := by
  rcases hsend : send session policy attempt.sending with ⟨acts', exc | result⟩
  · simp only [publish, send_attempted, hsend, Prod.mk.injEq, List.cons.injEq, true_and] at h
    obtain ⟨rfl, rfl⟩ := h
    have hexc : (send session policy attempt.sending).2 = .error exc := by rw [hsend]
    -- an expected exception leaves it open whether the request arrived
    by_cases hexpected : exc.Expected
    · left
      refine ⟨?_, ?_⟩
      · rcases refused_of_expected hexpected with h | h
        · exact ⟨_, Or.inl h, rfl⟩
        · exact ⟨_, Or.inr ⟨_, h⟩, rfl⟩
      -- and it cannot have lost the request
      · intro hloses
        obtain ⟨exc', hexc', hnot⟩ := hloses.send
        rw [hexc] at hexc'
        cases hexc'
        exact hnot hexpected
    -- any other ends the loop, with the exception as it was
    · right
      obtain ⟨exc', h, heq⟩ := refused_of_not_expected
        { policy with attempted := true, nativeCalls := policy.nativeCalls + 1 } hexpected
      obtain rfl := heq hunknown
      refine ⟨_, _, h, hunknown, rfl, ?_⟩
      have hcases := send_of_not_expected hexc hexpected
      rw [hsend] at hcases
      exact hcases.imp_left And.right
  -- an answer settles it, whatever the targets turn out to be
  · left
    obtain ⟨acts'', policy', outcome, hconfirm, -, hunknown', -⟩ := confirm_spec query
        { policy with attempted := true, nativeCalls := policy.nativeCalls + 1 } attempt result
    simp only [publish, send_attempted, hsend, hconfirm, Prod.mk.injEq] at h
    obtain ⟨-, rfl⟩ := h
    refine ⟨⟨policy', Or.inr ⟨outcome, rfl⟩, hunknown'⟩, ?_⟩
    intro hloses
    obtain ⟨exc, hexc, -⟩ := hloses.send
    rw [hsend] at hexc
    cases hexc

/-- The ways through the body of the loop. -/
theorem tryOnce_cases (session : ℕ) (policy : Policy) (attempt : Attempt)
    (hbytes : policy.queryBytes = some query.bytes) :
    (∃ exc, tryOnce session query policy attempt = ([], .ended policy (.raised exc)) ∧
      ¬ attempt.Loses session policy ∧ ¬ attempt.Waits session policy) ∨
    (tryOnce session query policy attempt = ([], .timedOut policy) ∧
      ¬ attempt.Loses session policy ∧
      (attempt.Waits session policy ↔ attempt.waitRetry = none)) ∨
    (policy.attempted = false ∧ (∃ exc, tryOnce session query policy attempt =
        ([.intent query.bytes query.randomIds], .ended policy (.raised exc))) ∧
      ¬ attempt.Loses session policy ∧ ¬ attempt.Waits session policy) ∨
    (policy.attempted = true ∧ attempt.written = query.bytes ∧
      tryOnce session query policy attempt = publish session query policy attempt) ∨
    (policy.attempted = false ∧ attempt.written = query.bytes ∧
      tryOnce session query policy attempt =
        (.intent query.bytes query.randomIds :: (publish session query policy attempt).1,
          (publish session query policy attempt).2) ∧
      (attempt.Loses session policy ↔ attempt.sending.Loses session policy) ∧
      ¬ attempt.Waits session policy) := by
  unfold tryOnce Attempt.Loses Attempt.Waits Attempt.Enters
  cases hcheck : policy.check (some session) attempt.reading with
  | error exc =>
    left
    exact ⟨exc, rfl, by simp, by simp⟩
  | ok _ =>
    by_cases hwritten : some attempt.written = policy.queryBytes
    -- the bytes are not those that the policy has checked
    swap
    · left
      exact ⟨_, by rw [if_pos hwritten], by simp [hwritten], by simp [hwritten]⟩
    have hsame : attempt.written = query.bytes := Option.some.inj (hwritten.trans hbytes)
    simp only [hwritten, not_true_eq_false, ne_eq, if_false, true_and]
    -- the policy is right about the bytes, and it is up to the session
    cases attempt.readiness with
    | timeout =>
      right; left
      exact ⟨rfl, by simp, by simp⟩
    | raised exc =>
      left
      exact ⟨exc, rfl, by simp, by simp⟩
    | started =>
      -- the intent is written down before the first request only
      cases hattempted : policy.attempted with
      | true =>
        right; right; right; left
        exact ⟨rfl, hsame, rfl⟩
      | false =>
        cases attempt.onIntent with
        | some exc =>
          right; right; left
          exact ⟨rfl, ⟨exc, rfl⟩, by simp, by simp⟩
        | none =>
          right; right; right; right
          exact ⟨rfl, hsame, rfl, by simp, by simp⟩

/-! ### The loop -/

theorem loop_of_ended (h : tryOnce session query policy (env n) = (acts, .ended policy' outcome)) :
    loop session query env remaining n policy = ⟨policy', acts, outcome⟩ := by
  cases remaining with
  | zero => simp only [loop, h, Step.last]
  | succ remaining => simp only [loop, h]

/-- After an unknown outcome the run ends there, or goes on. -/
theorem loop_of_uncertain (remaining : ℕ) (hunknown : policy'.unknown = true)
    (h : tryOnce session query policy (env n) = (acts, .timedOut policy') ∨
      tryOnce session query policy (env n) = (acts, .uncertain policy')) :
    (∃ exc, loop session query env remaining n policy = ⟨policy', acts, .raised exc⟩) ∨
    ∃ m, remaining = m + 1 ∧ loop session query env remaining n policy =
      { loop session query env m (n + 1) policy' with
        acts := acts ++ (loop session query env m (n + 1) policy').acts } := by
  cases remaining with
  | zero =>
    left
    rcases h with h | h
    · exact ⟨_, by simp only [loop, h, Step.last, hunknown, if_true]; rfl⟩
    · exact ⟨_, by simp only [loop, h, Step.last]; rfl⟩
  | succ m =>
    cases hwait : (env n).waitRetry with
    | some exc =>
      left
      rcases h with h | h <;> exact ⟨exc, by simp only [loop, h, hwait]⟩
    | none =>
      right
      rcases h with h | h <;> exact ⟨m, rfl, by simp only [loop, h, hwait]⟩

/-- What a run keeps to from the first send on, once the outcome of a send is
unknown. -/
structure Retried (query : Query) (policy : Policy) (retries : ℕ) (run : Run) : Prop where
  unknown : run.policy.unknown = true
  noIntent : ∀ a ∈ run.acts, ¬ a.IsIntent
  sends : run.acts.countP (fun a => a.IsSend) ≤ retries + 1
  sameBytes : ∀ queryBytes, .send queryBytes ∈ run.acts → queryBytes = query.bytes
  targets : ∀ targets, run.policy.targetIds = some targets →
    policy.targetIds = some targets ∨ Validated query policy.accountId run.acts targets
  notReady : ∀ queryName, run.outcome ≠ .sessionNotReady queryName

theorem Retried.mono {run : Run} {retries retries' : ℕ} (h : Retried query policy retries run)
    (hle : retries ≤ retries') : Retried query policy retries' run := by
  obtain ⟨hunknown, hintent, hsends, hbytes, htargets, hready⟩ := h
  exact ⟨hunknown, hintent, by omega, hbytes, htargets, hready⟩

/-- One attempt, and then the others. -/
theorem Retried.append {run : Run} {retries : ℕ} {exc : Exc}
    (h : Retried query policy 0 ⟨policy', acts, .raised exc⟩) (hsent : Sent policy policy')
    (htargets : policy'.targetIds = policy.targetIds) (hrun : Retried query policy' retries run) :
    Retried query policy (retries + 1) { run with acts := acts ++ run.acts } := by
  refine ⟨hrun.unknown, ?_, ?_, ?_, ?_, hrun.notReady⟩
  · intro a ha
    rcases List.mem_append.mp ha with ha | ha
    · exact h.noIntent a ha
    · exact hrun.noIntent a ha
  · have hfirst : acts.countP (fun a => a.IsSend) ≤ 0 + 1 := h.sends
    have hrest := hrun.sends
    simp only [List.countP_append]
    omega
  · intro queryBytes hmem
    rcases List.mem_append.mp hmem with hmem | hmem
    · exact h.sameBytes queryBytes hmem
    · exact hrun.sameBytes queryBytes hmem
  · intro targets ht
    refine (hrun.targets targets ht).imp htargets.symm.trans ?_
    rintro ⟨hmem, hreceipt⟩
    rw [hsent.accountId] at hreceipt
    exact ⟨List.mem_append_right _ hmem, hreceipt⟩

/-- One call of `Session.send`, if its outcome is fenced. -/
theorem retried_send (hwritten : attempt.written = query.bytes) (hunknown : policy'.unknown = true)
    (hacts : ∀ a ∈ acts, ¬ a.IsIntent ∧ ¬ a.IsSend)
    (hready : ∀ queryName, outcome ≠ .sessionNotReady queryName)
    (htargets : ∀ targets, policy'.targetIds = some targets → policy.targetIds = some targets ∨
      Validated query policy.accountId acts targets) :
    Retried query policy 0 ⟨policy', .send attempt.written :: acts, outcome⟩ := by
  refine ⟨hunknown, ?_, ?_, ?_, ?_, hready⟩
  · intro a ha
    rcases List.mem_cons.mp ha with rfl | ha
    · exact id
    · exact (hacts a ha).1
  · exact ((countP_isSend_send _ _).trans
      (congrArg (· + 1) (countP_isSend_eq_zero fun a ha => (hacts a ha).2))).le
  · intro queryBytes hmem
    rcases List.mem_cons.mp hmem with h | hmem
    · exact (Act.send.inj h).trans hwritten
    · exact absurd trivial (hacts _ hmem).2
  · intro targets h
    refine (htargets targets h).imp_right ?_
    rintro ⟨hmem, hreceipt⟩
    exact ⟨List.mem_cons_of_mem _ hmem, hreceipt⟩

/-- **An unknown outcome stays unknown**: from then on the loop keeps to what a run must
keep to, whatever the attempts meet. -/
theorem loop_of_unknown (hattempted : policy.attempted = true) (hunknown : policy.unknown = true)
    (hbytes : policy.queryBytes = some query.bytes) :
    Retried query policy remaining (loop session query env remaining n policy) := by
  induction remaining using Nat.strong_induction_on generalizing n policy with
  | _ remaining ih =>
  -- before anything is sent an exception leaves nothing behind
  have hnothing : ∀ exc, Retried query policy 0 ⟨policy, [], .raised exc⟩ := by
    intro exc
    exact ⟨hunknown, by simp, by simp, by simp, fun _ => Or.inl, by simp⟩
  -- a try that is made again is followed by what the rest does
  have hagain : ∀ {acts policy'},
    (tryOnce session query policy (env n) = (acts, .timedOut policy') ∨
        tryOnce session query policy (env n) = (acts, .uncertain policy')) → Sent policy policy' →
      policy'.targetIds = policy.targetIds →
      (∀ exc, Retried query policy 0 ⟨policy', acts, .raised exc⟩) →
      Retried query policy remaining (loop session query env remaining n policy) := by
    intro acts policy' h hsent htargets hhere
    have hunknown' := hsent.unknown hunknown
    rcases loop_of_uncertain remaining hunknown' h with ⟨exc, hloop⟩ | ⟨m, rfl, hloop⟩
    · rw [hloop]
      exact (hhere exc).mono (Nat.zero_le _)
    · rw [hloop]
      exact (hhere .cancelledError).append hsent htargets
        (ih m (Nat.lt_succ_self m) hsent.attempted hunknown' (hsent.queryBytes.trans hbytes))
  -- the intent was written down by an earlier attempt
  rcases tryOnce_cases session policy (env n) hbytes with
    ⟨exc, h, -⟩ | ⟨h, -⟩ | ⟨hnot, -⟩ | ⟨-, hwritten, h⟩ | ⟨hnot, -⟩
  · rw [loop_of_ended h]
    exact (hnothing exc).mono (Nat.zero_le _)
  · exact hagain (Or.inl h) ⟨hattempted, rfl, rfl, id⟩ rfl hnothing
  · rw [hattempted] at hnot
    cases hnot
  · obtain ⟨acts, step, hpublish, hacts, ⟨policy', rfl, hsent, hunknown', htargets⟩ |
      ⟨policy', outcome, rfl, hsent, hready, htargets⟩⟩ :=
        publish_spec session query policy (env n)
    · rw [hpublish] at h
      refine hagain (Or.inr h) hsent htargets ?_
      intro exc
      exact retried_send hwritten hunknown' hacts (by simp) fun targets ht => Or.inl (htargets ▸ ht)
    · rw [hpublish] at h
      rw [loop_of_ended h]
      exact (retried_send hwritten (hsent.unknown hunknown) hacts hready htargets).mono
        (Nat.zero_le _)
  · rw [hattempted] at hnot
    cases hnot

/-- A run that ends before anything is sent is safe. -/
theorem safe_of_nothing {retries : ℕ}
    (hacts : acts = [] ∨ acts = [.intent query.bytes query.randomIds]) :
    Safe query policy retries ⟨policy, acts, outcome⟩ := by
  have hmem : ∀ a ∈ acts, a = .intent query.bytes query.randomIds := by
    rcases hacts with rfl | rfl <;> simp
  have hsend : ∀ queryBytes, .send queryBytes ∉ acts := by
    intro queryBytes h
    cases hmem _ h
  refine ⟨?_, ?_, ?_, fun _ h => absurd h (hsend _), fun _ => Or.inl, fun _ _ => hsend, ?_⟩
  · refine List.countP_le_length.trans ?_
    rcases hacts with rfl | rfl <;> simp
  · rintro before after queryBytes (rfl : acts = _)
    exact absurd (List.mem_append_right _ List.mem_cons_self) (hsend queryBytes)
  · rw [countP_isSend_eq_zero]
    · exact Nat.zero_le _
    · intro a ha
      rw [hmem a ha]
      exact id
  · intro h
    cases hmem _ h

/-- What follows the intent of a run, if the outcome of the first send is fenced. -/
theorem Retried.safe {run : Run} {retries : ℕ} (h : Retried query policy retries run) :
    Safe query policy retries
      { run with acts := .intent query.bytes query.randomIds :: run.acts } := by
  refine ⟨?_, ?_, ?_, ?_, ?_, fun queryName hready => absurd hready (h.notReady queryName),
    fun _ _ _ => h.unknown⟩
  · rw [List.countP_cons, List.countP_eq_zero.mpr]
    · split <;> omega
    · intro a ha
      exact decide_eq_true_iff.not.mpr (h.noIntent a ha)
  · intro before after queryBytes heq
    cases before with
    | nil => cases heq
    | cons a before =>
      obtain rfl := (List.cons.inj heq).1
      exact List.mem_cons_self
  · show (_ :: _ : List Act).countP _ ≤ _
    rw [countP_isSend_intent]
    exact h.sends
  · intro queryBytes hmem
    exact h.sameBytes queryBytes ((List.mem_cons.mp hmem).resolve_left (by simp))
  · intro targets ht
    refine (h.targets targets ht).imp_right ?_
    rintro ⟨hmem, hreceipt⟩
    exact ⟨List.mem_cons_of_mem _ hmem, hreceipt⟩

/-- The run whose first send ends in an exception that leaves the policy: it is safe
unless the outcome is lost. -/
theorem safe_iff_of_unfenced {retries : ℕ} {loses : Prop} (hwritten : attempt.written = query.bytes)
    (hunknown : policy'.unknown = false) (htargets : policy'.targetIds = none)
    (hacts : ∀ a ∈ acts, ¬ a.IsIntent ∧ ¬ a.IsSend)
    (hcases : (acts = [] ∧ ¬ loses) ∨
      (∃ error acts', acts = acts' ++ [.rejected error] ∧ exc = .rpcError error ∧ ¬ loses) ∨
      ((∃ acts', acts = acts' ++ [.handed]) ∧ loses)) :
    Safe query policy retries ⟨policy', .intent query.bytes query.randomIds :: .send attempt.written
      :: acts,
      .raised exc⟩ ↔ ¬ loses := by
  have hcount : (Act.intent query.bytes query.randomIds :: .send attempt.written :: acts).countP
      (fun a => a.IsSend) = 1 := by
    rw [countP_isSend_intent, countP_isSend_send,
      countP_isSend_eq_zero fun a ha => (hacts a ha).2]
  -- everything but the flag is as it is for a fenced outcome
  have hfenced : Safe query policy retries ⟨{ policy' with unknown := true },
      .intent query.bytes query.randomIds :: .send attempt.written :: acts, .raised exc⟩ := by
    refine ((retried_send hwritten rfl hacts (by simp) ?_).mono (Nat.zero_le retries)).safe
    intro targets ht
    have ht : policy'.targetIds = some targets := ht
    rw [htargets] at ht
    cases ht
  have hsafe : (.handed ∈ acts → Definite ⟨policy', .intent query.bytes query.randomIds ::
      .send attempt.written :: acts, .raised exc⟩) → Safe query policy retries
        ⟨policy', .intent query.bytes query.randomIds :: .send attempt.written :: acts,
          .raised exc⟩ := by
    intro hdefinite
    refine ⟨hfenced.intentOnce, hfenced.intentFirst, hfenced.sends, hfenced.sameBytes,
      hfenced.targets, hfenced.notReady, ?_⟩
    intro hhanded _ hnot
    have hhanded : Act.handed ∈ acts := by simpa using hhanded
    exact absurd (hdefinite hhanded) hnot
  rcases hcases with ⟨rfl, hnot⟩ | ⟨error, acts', rfl, rfl, hnot⟩ | ⟨⟨acts', rfl⟩, hloses⟩
  · exact iff_of_true (hsafe fun h => by cases h) hnot
  · refine iff_of_true (hsafe ?_) hnot
    intro _
    exact ⟨error, ⟨_ :: _ :: acts', rfl⟩, rfl, hcount⟩
  · refine iff_of_false ?_ (not_not_intro hloses)
    intro hsafe
    have hknown := hsafe.unknown (by simp) htargets ?_
    · rw [hunknown] at hknown
      cases hknown
    · rintro ⟨error, ⟨acts'', heq⟩, -⟩
      have hlast := congrArg List.getLast? heq
      rw [← List.cons_append, ← List.cons_append, List.getLast?_concat,
        List.getLast?_concat] at hlast
      cases hlast

/-- The first send of a run, and what follows it. -/
theorem loop_of_sent {retries : ℕ} (hle : remaining ≤ retries) (hunknown : policy.unknown = false)
    (htargets : policy.targetIds = none) (hbytes : policy.queryBytes = some query.bytes)
    (hwritten : (env n).written = query.bytes)
    (h : tryOnce session query policy (env n) =
      (.intent query.bytes query.randomIds :: (publish session query policy (env n)).1,
        (publish session query policy (env n)).2)) :
    Safe query policy retries (loop session query env remaining n policy) ↔
      ¬ (env n).sending.Loses session policy := by
  obtain ⟨acts, step, hpublish, hacts, hstep⟩ := publish_spec session query policy (env n)
  rw [hpublish] at h
  rcases publish_first hunknown hpublish with ⟨⟨policy', hpolicy, hunknown'⟩, hnot⟩ |
    ⟨exc, policy', rfl, hunknown', htargets', hcases⟩
  -- nothing is lost, and from here on the policy knows that it does not know
  · refine iff_of_true ?_ hnot
    rcases hstep with ⟨policy'', rfl, hsent, -, htargets'⟩ |
      ⟨policy'', outcome, rfl, hsent, hready, htargets'⟩
    · obtain rfl : policy'' = policy' := by
        rcases hpolicy with heq | ⟨outcome, heq⟩
        · exact Step.uncertain.inj heq
        · cases heq
      have hhere : ∀ exc, Retried query policy 0
          ⟨policy'', .send (env n).written :: acts, .raised exc⟩ := by
        intro exc
        exact retried_send hwritten hunknown' hacts (by simp) fun targets ht =>
          Or.inl (htargets' ▸ ht)
      rcases loop_of_uncertain remaining hunknown' (Or.inr h) with ⟨exc, hloop⟩ | ⟨m, rfl, hloop⟩
      · rw [hloop]
        exact ((hhere exc).mono (Nat.zero_le retries)).safe
      -- the intent is written down now, so that the rest only tries again
      · rw [hloop]
        have hrest : Retried query policy'' m (loop session query env m (n + 1) policy'') :=
          loop_of_unknown hsent.attempted hunknown' (hsent.queryBytes.trans hbytes)
        exact (((hhere .cancelledError).append hsent htargets' hrest).mono hle).safe
    · obtain rfl : policy'' = policy' := by
        rcases hpolicy with heq | ⟨outcome, heq⟩
        · cases heq
        · exact (Step.ended.inj heq).1
      rw [loop_of_ended h]
      exact ((retried_send hwritten hunknown' hacts hready htargets').mono
        (Nat.zero_le retries)).safe
  -- the loop ends here, with the request rejected or lost
  · rw [loop_of_ended h]
    exact safe_iff_of_unfenced hwritten hunknown' (htargets'.trans htargets) hacts hcases

/-- **The loop before anything was sent** is safe exactly if it does not lose the
outcome of its first send. -/
theorem loop_of_first {retries : ℕ} (hle : remaining ≤ retries)
    (hattempted : policy.attempted = false)
    (hunknown : policy.unknown = false) (htargets : policy.targetIds = none)
    (hbytes : policy.queryBytes = some query.bytes) :
    Safe query policy retries (loop session query env remaining n policy) ↔
      ¬ LosesFirst session env policy remaining n := by
  induction remaining using Nat.strong_induction_on generalizing n with
  | _ remaining ih =>
  -- an attempt that ends before the request is written is safe
  have hnothing : ∀ {acts outcome}, (acts = [] ∨ acts = [.intent query.bytes query.randomIds]) →
      loop session query env remaining n policy = ⟨policy, acts, outcome⟩ →
      ¬ LosesFirst session env policy remaining n →
      (Safe query policy retries (loop session query env remaining n policy) ↔
        ¬ LosesFirst session env policy remaining n) := by
    intro acts outcome hacts hloop hnot
    rw [hloop]
    exact iff_of_true (safe_of_nothing hacts) hnot
  -- the clause on the next attempt only counts where this one waits
  have hfirst : ¬ (env n).Waits session policy →
      (LosesFirst session env policy remaining n ↔ (env n).Loses session policy) := by
    intro hwaits
    cases remaining with
    | zero => exact Iff.rfl
    | succ m => exact or_iff_left fun h => hwaits h.1
  rcases tryOnce_cases session policy (env n) hbytes with
    ⟨exc, h, hloses, hwaits⟩ | ⟨h, hloses, hwaits⟩ | ⟨-, ⟨exc, h⟩, hloses, hwaits⟩ | ⟨hnot, -⟩ |
      ⟨-, hwritten, h, hloses, hwaits⟩
  · exact hnothing (Or.inl rfl) (loop_of_ended h) ((hfirst hwaits).not.mpr hloses)
  -- the session was not ready in time: the loop waits and goes on
  · cases remaining with
    | zero =>
      have hloop : loop session query env 0 n policy =
          ⟨policy, [], .sessionNotReady ("messages." ++ policy.method)⟩ := by
        simp only [loop, h, Step.last, hunknown]
        rfl
      exact hnothing (Or.inl rfl) hloop hloses
    | succ m =>
      cases hwait : (env n).waitRetry with
      | some exc =>
        have hloop : loop session query env (m + 1) n policy = ⟨policy, [], .raised exc⟩ := by
          simp only [loop, h, hwait]
        refine hnothing (Or.inl rfl) hloop ?_
        rintro (hlost | ⟨hwaits', -⟩)
        · exact hloses hlost
        · rw [hwaits, hwait] at hwaits'
          cases hwaits'
      | none =>
        have hloop : loop session query env (m + 1) n policy =
            loop session query env m (n + 1) policy := by
          simp only [loop, h, hwait, List.nil_append]
        rw [hloop, ih m (Nat.lt_succ_self m) (by omega), LosesFirst, or_iff_right hloses,
          and_iff_right (hwaits.mpr hwait)]
  · exact hnothing (Or.inr rfl) (loop_of_ended h) ((hfirst hwaits).not.mpr hloses)
  -- the policy has not attempted anything yet
  · rw [hattempted] at hnot
    cases hnot
  · rw [hfirst hwaits, hloses]
    exact loop_of_sent hle hunknown htargets hbytes hwritten h

/-! ### A whole run -/

/-- The policies of a scope: the one it yields, and those that runs leave. -/
inductive Scoped : Policy → Prop
  | new {reading : Reading} {version : Option ℕ} {accountId : ℤ} {peerBytes : List UInt8}
      {method : String} {sourceIds : List ℤ} {maxRetries : ℤ} {onResult : Bool} {policy : Policy}
      (h : ordinaryPublication reading version accountId peerBytes method sourceIds maxRetries
        onResult = .ok policy) : Scoped policy
  | invoked {policy : Policy} (session : ℕ) (query : Query) (env : ℕ → Attempt)
      (h : Scoped policy) :
      Scoped (invokeOrdinaryPublication session query env policy).policy

/-- What every attempt leaves true of the policy is true of the policy of a run. -/
theorem loop_policy {I : Policy → Prop}
    (hstep : ∀ policy attempt, I policy → I (tryOnce session query policy attempt).2.policy)
    (hpolicy : I policy) : I (loop session query env remaining n policy).policy := by
  induction remaining generalizing n policy with
  | zero =>
    have hstep := hstep policy (env n) hpolicy
    rw [← Step.last_fst] at hstep
    exact hstep
  | succ m ih =>
    have hstep := hstep policy (env n) hpolicy
    rcases h : tryOnce session query policy (env n) with ⟨acts, step⟩
    rw [h] at hstep
    cases step with
    | ended policy' outcome =>
      rw [loop_of_ended h]
      exact hstep
    | timedOut policy' =>
      simp only [loop, h]
      cases (env n).waitRetry with
      | some exc => exact hstep
      | none => exact ih hstep
    | uncertain policy' =>
      simp only [loop, h]
      cases (env n).waitRetry with
      | some exc => exact hstep
      | none => exact ih hstep

/-- The query of a run stays bound to the policy. -/
theorem loop_queryBytes (hbytes : policy.queryBytes = some query.bytes) :
    (loop session query env remaining n policy).policy.queryBytes = some query.bytes := by
  refine loop_policy (I := fun policy => policy.queryBytes = some query.bytes) ?_ hbytes
  intro policy attempt hbytes
  have hpublish : (publish session query policy attempt).2.policy.queryBytes =
      some query.bytes := by
    obtain ⟨acts, step, hpublish, -, ⟨policy', rfl, hsent, -⟩ | ⟨policy', outcome, rfl, hsent, -⟩⟩
        :=
      publish_spec session query policy attempt
    · rw [hpublish]
      exact hsent.queryBytes.trans hbytes
    · rw [hpublish]
      exact hsent.queryBytes.trans hbytes
  rcases tryOnce_cases session policy attempt hbytes with
    ⟨exc, h, -⟩ | ⟨h, -⟩ | ⟨-, ⟨exc, h⟩, -⟩ | ⟨-, -, h⟩ | ⟨-, -, h, -⟩ <;> rw [h]
  · exact hbytes
  · exact hbytes
  · exact hbytes
  · exact hpublish
  · exact hpublish

/-- A run is refused, or is the loop over a query the policy is for. -/
theorem invokeOrdinaryPublication_cases (session : ℕ) (query : Query) (env : ℕ → Attempt)
    (policy : Policy) :
    ((∃ exc, invokeOrdinaryPublication session query env policy = ⟨policy, [], .raised exc⟩) ∧
      ¬ LosesOutcome session query env policy) ∨
    (policy.queryBytes = none ∧
      invokeOrdinaryPublication session query env policy =
        loop session query env policy.maxRetries 0
        { policy with queryBytes := some query.bytes } ∧
      (LosesOutcome session query env policy ↔ LosesFirst session env
        { policy with queryBytes := some query.bytes } policy.maxRetries 0)) := by
  by_cases hbytes : policy.queryBytes = none
  · by_cases hmanifest : Manifest query policy
    · right
      refine ⟨hbytes, ?_, ?_⟩
      · rw [invokeOrdinaryPublication, if_neg (not_not_intro hbytes),
          if_neg (not_not_intro hmanifest)]
      · rw [LosesOutcome, and_iff_right hbytes, and_iff_right hmanifest]
    · left
      refine ⟨⟨.publicationUnconfirmed "ordinary_publication_query_manifest_mismatch", ?_⟩,
        fun h => hmanifest h.2.1⟩
      rw [invokeOrdinaryPublication, if_neg (not_not_intro hbytes), if_pos hmanifest]
  · left
    refine ⟨⟨.publicationUnconfirmed "ordinary_publication_fresh_query_forbidden", ?_⟩,
      fun h => hbytes h.1⟩
    rw [invokeOrdinaryPublication, if_pos hbytes]

/-- A policy of a scope that no query is bound to is as the scope yields it. -/
theorem Scoped.fresh (h : Scoped policy) (hbytes : policy.queryBytes = none) :
    policy.attempted = false ∧ policy.unknown = false ∧ policy.targetIds = none := by
  induction h with
  | new h =>
    rw [ordinaryPublication] at h
    split at h
    · cases h
    split at h
    · cases h
    obtain ⟨_, -, h⟩ := Except.bind_eq_ok.mp h
    cases h
    exact ⟨rfl, rfl, rfl⟩
  | @invoked policy session query env h ih =>
    rcases invokeOrdinaryPublication_cases session query env policy with
      ⟨⟨exc, hrun⟩, -⟩ | ⟨-, hrun, -⟩
    · rw [hrun] at hbytes ⊢
      exact ih hbytes
    · rw [hrun, loop_queryBytes rfl] at hbytes
      cases hbytes

/-- Binding a query to the policy does not change what a run must keep to. -/
theorem safe_queryBytes_iff {retries : ℕ} {run : Run} (queryBytes : Option (List UInt8)) :
    Safe query { policy with queryBytes } retries run ↔ Safe query policy retries run := by
  constructor
  · rintro ⟨honce, hfirst, hsends, hbytes, htargets, hready, hunknown⟩
    exact ⟨honce, hfirst, hsends, hbytes, htargets, hready, hunknown⟩
  · rintro ⟨honce, hfirst, hsends, hbytes, htargets, hready, hunknown⟩
    exact ⟨honce, hfirst, hsends, hbytes, htargets, hready, hunknown⟩

/-- **A run is safe exactly if it does not lose the outcome of its first send**: the
payload was handed over, and then an exception came that is neither an answer of the
server nor one the handlers expect, like the `AuthKeyNotFound` the receiver records. -/
theorem safe_iff (session : ℕ) (query : Query) (env : ℕ → Attempt) (policy : Policy)
    (hscoped : Scoped policy) :
    Safe query policy policy.maxRetries (invokeOrdinaryPublication session query env policy) ↔
      ¬ LosesOutcome session query env policy := by
  rcases invokeOrdinaryPublication_cases session query env policy with
    ⟨⟨exc, hrun⟩, hnot⟩ | ⟨hbytes, hrun, hloses⟩
  · rw [hrun]
    exact iff_of_true (safe_of_nothing (Or.inl rfl)) hnot
  · obtain ⟨hattempted, hunknown, htargets⟩ := hscoped.fresh hbytes
    rw [hrun, hloses, ← safe_queryBytes_iff (some query.bytes)]
    exact loop_of_first le_rfl hattempted hunknown htargets rfl

/-! ### Two runs -/

/-- The session and its account, as long as nothing changes. -/
def unchanged : Reading := ⟨some 1, some ⟨5, false⟩, ([1], [2])⟩

/-- The policy of a scope around one `SendMessage`. -/
def messagePolicy : Policy where
  session := some 1
  accountId := 5
  peerBytes := [7]
  method := "SendMessage"
  sourceIds := [101]
  maxRetries := 3
  onResult := false
  sessionIdentity := some ([1], [2])

theorem scoped_messagePolicy : Scoped messagePolicy := by
  have h : ordinaryPublication unchanged (some 1) 5 [7] "SendMessage" [101] 3 false =
      .ok messagePolicy := by decide
  exact .new h

def messageQuery : Query := ⟨[9], .channel 7, [7], [71]⟩

/-- An attempt that meets nothing but this answer. -/
def answeredWith (answer : Answer) : Attempt where
  reading := unchanged
  written := [9]
  readiness := .started
  onIntent := none
  sending := .answered ⟨none, none, unchanged, [9]⟩ answer
  onResult := none
  onReceipt := none
  waitRetry := none

/-- No answer comes in time; the next attempt finds the message there. -/
def answeredLate : ℕ → Attempt
  | 0 => answeredWith .nothing
  | _ => answeredWith (.result (.updates
      [.messageId 71 901, .newMessage ⟨901, some (.channel 7), true⟩]))

theorem safe_answeredLate : Scoped messagePolicy ∧
    Safe messageQuery messagePolicy 3
      (invokeOrdinaryPublication 1 messageQuery answeredLate messagePolicy) := by
  refine ⟨scoped_messagePolicy,
    (safe_iff 1 messageQuery answeredLate messagePolicy scoped_messagePolicy).mpr ?_⟩
  rintro ⟨-, -, ⟨-, -, -, -, hloses⟩ | ⟨⟨-, htimeout, -⟩, -⟩⟩
  · exact hloses
  · cases htimeout

/-- The server drops the key after it got the payload: the receiver records
`AuthKeyNotFound`, the policy calls the outcome known, and the message may be there. -/
theorem authKeyNotFound_forgotten : Scoped messagePolicy ∧
    invokeOrdinaryPublication 1 messageQuery
        (fun _ => answeredWith (.failure (.other "AuthKeyNotFound"))) messagePolicy =
      ⟨{ messagePolicy with attempted := true, nativeCalls := 1, queryBytes := some [9] },
        [.intent [9] [71], .send [9], .handed], .raised (.other "AuthKeyNotFound")⟩ ∧
    ¬ Safe messageQuery messagePolicy 3 (invokeOrdinaryPublication 1 messageQuery
      (fun _ => answeredWith (.failure (.other "AuthKeyNotFound"))) messagePolicy) := by
  have hrun : invokeOrdinaryPublication 1 messageQuery
        (fun _ => answeredWith (.failure (.other "AuthKeyNotFound"))) messagePolicy =
      ⟨{ messagePolicy with attempted := true, nativeCalls := 1, queryBytes := some [9] },
        [.intent [9] [71], .send [9], .handed], .raised (.other "AuthKeyNotFound")⟩ := by
    decide
  refine ⟨scoped_messagePolicy, hrun, ?_⟩
  rw [hrun]
  intro hsafe
  have hunknown := hsafe.unknown (by simp) rfl ?_
  · cases hunknown
  · rintro ⟨error, -, houtcome, -⟩
    cases houtcome

end Pyrogram.Publication
