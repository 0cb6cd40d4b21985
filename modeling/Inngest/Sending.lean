import Inngest.Observation
import Inngest.Retry

/-!
# `client.send` and `client.send_sync`

Both send a list of events with up to five requests, between the hooks
`before_send_events` and `after_send_events`. The loop over the attempts ends
without a look at the status of the response that it kept, so a response that
carries no error counts as a success.
-/

set_option autoImplicit false

namespace Inngest
open ServerLib Errors StepLib Effect Engine

/-! ## The model -/

namespace SendEventsResult

/-- A list of strings, without conversion. -/
def strings : List Json → Option (List String)
  | [] => some []
  | .str s :: items => (strings items).map (s :: ·)
  | _ :: _ => none

/-- `SendEventsResult.model_validate`: both keys are optional, others are ignored. -/
def validate : Json → Option SendEventsResult
  | .obj fields => do
    let error ← match (Json.field fields "error").getD .null with
      | .null => some none
      | .str message => some (some message)
      | _ => none
    let ids ← match (Json.field fields "ids").getD (.arr []) with
      | .arr items => strings items
      | _ => none
    some ⟨error, ids⟩
  | _ => none

/-- `SendEventsResult.from_raw`: a string is taken for JSON text. -/
def fromRaw (loads : String → Option Json) : Json → Option SendEventsResult
  | .str s => (loads s).bind validate
  | v => validate v

def sentIds (result : SendEventsResult) : Except SendEventsError (List String) :=
  match result.error with
  | some message => .error ⟨message, result.ids⟩
  | none => .ok result.ids

end SendEventsResult

namespace Client
variable {σ : Type} (env : ClientEnv σ)

def read (resp : HttpxResponse) : Except PyError SendEventsResult := do
  env.http.fromRaw (← env.http.json resp)

/-- From the events to the result that is in the body. -/
def exchange (events : List ServerLib.Event) :
    Exec σ (Except SendEventsError SendEventsResult) := do
  let built ← act (env.http.buildSendRequest events)
  let req ← Comp.ofExcept built
  let resp ← attempts env req maxSendAttempts none
  match resp with
  | none => pure (.error ⟨"never received response while sending events", []⟩)
  | some resp => do
    let result ← Comp.ofExcept (read env resp)
    pure (.ok result)

/-- The hooks of the manager; with `skip_middleware` there is no manager. -/
def managed (skipMiddleware : Bool) : List (Middleware σ) :=
  if skipMiddleware then [] else env.middleware

def sendWith (flavor : Flavor) (skipMiddleware : Bool) (events : EventList) :
    Exec σ (Except SendEventsError (List String)) := do
  match ← MiddlewareManager.beforeSendEvents flavor (managed env skipMiddleware) events with
  | .error e => Comp.raise e
  | .ok events =>
    match ← exchange env events.events with
    | .error e => pure (.error e)
    | .ok result =>
      match ← MiddlewareManager.afterSendEvents flavor (managed env skipMiddleware) result with
      | .error e => Comp.raise e
      | .ok result => pure result.sentIds

/-- `send` is a coroutine, `send_sync` a function. -/
def sendEvents (flavor : Flavor) (skipMiddleware : Bool) (events : SentEvents) :
    Exec σ (Except SendEventsError (List String)) :=
  match flavor with
  | .async => Async.coroutine (sendWith env .async skipMiddleware events.list)
  | .sync => sendWith env .sync skipMiddleware events.list

theorem ofExcept_read (resp : HttpxResponse) :
    (Comp.ofExcept (read env resp) : Exec σ SendEventsResult) =
      Comp.ofExcept (env.http.json resp) >>= fun raw => Comp.ofExcept (env.http.fromRaw raw) := by
  rw [read]
  cases env.http.json resp <;> rfl

theorem sendRequest_eq (events : List ServerLib.Event) :
    sendRequest env events = (do
      match ← exchange env events with
      | .error e => pure (.error e)
      | .ok result => pure result.sentIds) := by
  rw [exchange, sendRequest]
  simp only [Comp.bind_assoc, ofExcept_read]
  congr 1
  funext built
  congr 1
  funext req
  congr 1
  funext resp
  cases resp with
  | none => rfl
  | some resp =>
    simp only [Comp.bind_assoc]
    refine congrArg _ (funext fun raw => congrArg _ (funext fun result => ?_))
    funext r s
    cases h : result.error <;> simp [SendEventsResult.sentIds, h]

end Client

/-! ## The run under observation -/

namespace Client
variable {σ : Type} (env : ClientEnv σ) (outcomes : ℕ → Option HttpxResponse)

/-- How many requests the loop makes, and the response that it keeps. -/
def tries : ℕ :=
  Retry.tries settled outcomes 0 maxSendAttempts

def kept : Option HttpxResponse :=
  Retry.kept settled outcomes id 0 maxSendAttempts

theorem act_bind {α β : Type} (f : σ → σ × α) (k : α → Exec σ β) (r : Scope) (s : State σ) :
    (act f >>= k) r s = k (f s.store).2 r { s with store := (f s.store).1 } := rfl

theorem attempts_succ (req : Json) (n : ℕ) {last : Option HttpxResponse}
    (hlast : settled last = false) (r : Scope) (s : State σ) (before : List ObservedCall)
    (outcome : Option HttpxResponse)
    (houtcome : outcomes (before.filterMap ObservedCall.posted).length = outcome) :
    attempts (env.observed outcomes) req (n + 1) last r (s.observed before) =
      if settled outcome then ⟨.ok outcome, s.observed (before ++ [.post req]), []⟩
      else attempts (env.observed outcomes) req n (outcome.or last) r
        (s.observed (before ++ [.post req])) := by
  rw [attempts, act_bind]
  cases outcome with
  | none =>
    simp only [ClientEnv.observed, Http.observed, State.observed, Observed.posts, houtcome, hlast]
    rfl
  | some resp =>
    simp only [ClientEnv.observed, Http.observed, State.observed, Observed.posts, houtcome]
    split <;> rfl

theorem attempts_observed (req : Json) (n : ℕ) {last : Option HttpxResponse}
    (hlast : settled last = false) (r : Scope) (s : State σ) (before : List ObservedCall) :
    attempts (env.observed outcomes) req n last r (s.observed before) =
      let k := (before.filterMap ObservedCall.posted).length
      let posts := List.replicate (Retry.tries settled outcomes k n) (.post req)
      ⟨.ok ((Retry.kept settled outcomes id k n).or last), s.observed (before ++ posts), []⟩ := by
  induction n generalizing last before with
  | zero => simp [attempts, Retry.kept, Retry.tries]
  | succ n ih =>
    have hlength : ((before ++ [ObservedCall.post req]).filterMap ObservedCall.posted).length =
        (before.filterMap ObservedCall.posted).length + 1 := by
      simp [ObservedCall.posted]
    rw [attempts_succ env outcomes req n hlast r s before _ rfl]
    generalize houtcome : outcomes (before.filterMap ObservedCall.posted).length = outcome
    by_cases hk : settled outcome = true
    · obtain ⟨resp, rfl, -⟩ := (Option.any_eq_true _ _).mp hk
      have hkept : Retry.kept settled outcomes id _ (n + 1) = some resp :=
        Retry.kept_stop (by rw [houtcome]; exact hk) houtcome
      simp [hk, hkept, Retry.tries, houtcome]
    · have hk : settled outcome = false := by simpa using hk
      have hor : settled (outcome.or last) = false := by
        cases outcome with
        | none => exact hlast
        | some resp => exact hk
      have hrest := ih hor (before ++ [.post req])
      have hnext : settled (outcomes (before.filterMap ObservedCall.posted).length) = false := by
        rw [houtcome, hk]
      have hkept : (Retry.kept settled outcomes id _ (n + 1)).or last = _ :=
        Retry.kept_next hnext last
      simp only [hlength] at hrest
      simp only [hk, Bool.false_eq_true, if_false, hrest, hkept, houtcome, Retry.tries,
        List.replicate_succ, List.append_assoc, id, List.singleton_append]

section Exchange
variable (events : List ServerLib.Event) (store : σ)

def answer : Except PyError (Except SendEventsError SendEventsResult) :=
  match (env.http.buildSendRequest events store).2 with
  | .error e => .error e
  | .ok _ =>
    match kept outcomes with
    | none => .ok (.error ⟨"never received response while sending events", []⟩)
    | some resp => (read env resp).map .ok

theorem answer_cases :
    (∃ e, answer env outcomes events store = .error e) ∨
      (∃ e, answer env outcomes events store = .ok (.error e)) ∨
      ∃ req resp given, (env.http.buildSendRequest events store).2 = .ok req ∧
        kept outcomes = some resp ∧ read env resp = .ok given ∧
          answer env outcomes events store = .ok (.ok given) := by
  rw [answer]
  cases (env.http.buildSendRequest events store).2 with
  | error e => exact .inl ⟨e, rfl⟩
  | ok req =>
    cases hkept : kept outcomes with
    | none => exact .inr (.inl ⟨_, rfl⟩)
    | some resp =>
      cases hread : read env resp with
      | error e => exact .inl ⟨e, by simp [hread, Except.map]⟩
      | ok given =>
        exact .inr (.inr ⟨req, resp, given, rfl, rfl, hread, by simp [hread, Except.map]⟩)

def exchangeCalls : List ObservedCall :=
  .buildSendRequest events ::
    match (env.http.buildSendRequest events store).2 with
    | .error _ => []
    | .ok req => List.replicate (tries outcomes) (.post req)

theorem posted_exchangeCalls :
    (exchangeCalls env outcomes events store).filterMap ObservedCall.posted =
      match (env.http.buildSendRequest events store).2 with
      | .error _ => []
      | .ok req => List.replicate (tries outcomes) req := by
  rw [exchangeCalls]
  cases (env.http.buildSendRequest events store).2 with
  | error e => rfl
  | ok req =>
    have hposted : ObservedCall.posted (.post req) = some req := rfl
    exact List.filterMap_replicate_of_some hposted

theorem exchange_observed (r : Scope) (s : State σ) {before : List ObservedCall}
    (hbefore : before.filterMap ObservedCall.posted = []) :
    exchange (env.observed outcomes) events r (s.observed before) =
      ⟨.ofExcept (answer env outcomes events s.store),
        { s with store := (env.http.buildSendRequest events s.store).1 }.observed
          (before ++ exchangeCalls env outcomes events s.store), []⟩ := by
  rw [exchange, act_bind, answer, exchangeCalls]
  generalize hbuild : env.http.buildSendRequest events s.store = build
  obtain ⟨store, built⟩ := build
  have hstore : (env.observed outcomes).http.buildSendRequest events (s.observed before).store =
      (⟨store, before ++ [.buildSendRequest events]⟩, built) := by
    simp [ClientEnv.observed, Http.observed, State.observed, hbuild]
  rw [hstore]
  cases built with
  | error e => rfl
  | ok req =>
    have hposted : ((before ++ [ObservedCall.buildSendRequest events]).filterMap
        ObservedCall.posted).length = 0 := by
      simp [hbefore, ObservedCall.posted]
    have hnone : settled none = false := rfl
    have hattempts := attempts_observed env outcomes req maxSendAttempts hnone r
      { s with store := store } (before ++ [.buildSendRequest events])
    simp only [hposted, Option.or_none, List.append_assoc, List.singleton_append] at hattempts
    change (attempts (env.observed outcomes) req maxSendAttempts none >>= _) r
      (({ s with store := store } : State σ).observed (before ++ [.buildSendRequest events])) = _
    rw [Comp.bind_ok (by rw [hattempts]), hattempts, kept, tries]
    cases Retry.kept settled outcomes id 0 maxSendAttempts with
    | none => rfl
    | some resp =>
      have hread : read (env.observed outcomes) resp = read env resp := rfl
      simp only [hread]
      cases read env resp <;> rfl

end Exchange

variable (flavor : Flavor) (skipMiddleware : Bool)

theorem posted_beforeSendCalls (ms : List (Middleware σ)) (events : EventList) (store : σ) :
    (MiddlewareManager.beforeSendCalls flavor ms events store).filterMap ObservedCall.posted = [] :=
  MiddlewareManager.filterMap_loopCalls _ _ _ (fun _ _ _ => rfl) _ _ _

theorem posted_afterSendCalls (ms : List (Middleware σ)) (result : SendEventsResult) (store : σ) :
    (MiddlewareManager.afterSendCalls flavor ms result store).filterMap ObservedCall.posted = [] :=
  MiddlewareManager.filterMap_loopCalls _ _ _ (fun m _ _ => by split <;> rfl) _ _ _

theorem managed_observed :
    managed (env.observed outcomes) skipMiddleware =
      MiddlewareManager.observed (managed env skipMiddleware) := by
  cases skipMiddleware <;> rfl

theorem sendWith_refused {events : EventList} {r : Scope} {s : State σ} {e : PyError}
    (hbefore : (MiddlewareManager.beforeSendEvents flavor (managed env skipMiddleware) events
      r s).outcome = .ok (.error e)) :
    sendWith (env.observed outcomes) flavor skipMiddleware events r (s.observed []) =
      ⟨.exc e, (MiddlewareManager.beforeSendEvents flavor (managed env skipMiddleware) events
        r s).state.observed (MiddlewareManager.beforeSendCalls flavor
          (managed env skipMiddleware) events s.store), []⟩ := by
  have hobserved := MiddlewareManager.beforeSendEvents_observed flavor
    (managed env skipMiddleware) r s [] events
  rw [sendWith, managed_observed, Comp.bind_ok (by rw [hobserved, hbefore]), hobserved]
  rfl

theorem sendWith_observed {events changed : EventList} {r : Scope} {s : State σ}
    (hbefore : (MiddlewareManager.beforeSendEvents flavor (managed env skipMiddleware) events
      r s).outcome = .ok (.ok changed)) :
    sendWith (env.observed outcomes) flavor skipMiddleware events r (s.observed []) =
      let ms := managed env skipMiddleware
      let t := (MiddlewareManager.beforeSendEvents flavor ms events r s).state
      let calls := MiddlewareManager.beforeSendCalls flavor ms events s.store ++
        exchangeCalls env outcomes changed.events t.store
      let u := { t with store := (env.http.buildSendRequest changed.events t.store).1 }
      match answer env outcomes changed.events t.store with
      | .ok (.ok given) =>
        let d := MiddlewareManager.afterSendEvents flavor ms given r u
        ⟨match d.outcome with
          | .ok (.ok left) => .ok left.sentIds
          | .ok (.error e) => .exc e
          | .exc e => .exc e
          | .intr i => .intr i,
          d.state.observed (calls ++ MiddlewareManager.afterSendCalls flavor ms given u.store), []⟩
      | .ok (.error e) => ⟨.ok (.error e), u.observed calls, []⟩
      | .error e => ⟨.exc e, u.observed calls, []⟩ := by
  have hobserved := MiddlewareManager.beforeSendEvents_observed flavor
    (managed env skipMiddleware) r s [] events
  rw [sendWith, managed_observed, Comp.bind_ok (by rw [hobserved, hbefore]), hobserved]
  simp only [List.nil_append, Done.after_nil]
  generalize MiddlewareManager.beforeSendEvents flavor (managed env skipMiddleware) events r s =
    before at hbefore ⊢
  have hexchange := exchange_observed env outcomes changed.events r before.state
    (posted_beforeSendCalls flavor (managed env skipMiddleware) events s.store)
  generalize answer env outcomes changed.events before.state.store = x at hexchange ⊢
  cases x with
  | error e => rw [Comp.bind_exc (by rw [hexchange]; rfl), hexchange]
  | ok result =>
    rw [Comp.bind_ok (by rw [hexchange]; rfl), hexchange]
    cases result with
    | error e => rfl
    | ok given =>
      simp only [Done.after_nil]
      have hafter := MiddlewareManager.afterSendEvents_observed flavor
        (managed env skipMiddleware) r
        { before.state with
          store := (env.http.buildSendRequest changed.events before.state.store).1 }
        (MiddlewareManager.beforeSendCalls flavor (managed env skipMiddleware) events s.store ++
          exchangeCalls env outcomes changed.events before.state.store) given
      simp only at hafter
      generalize MiddlewareManager.afterSendEvents flavor (managed env skipMiddleware) given r
        { before.state with
          store := (env.http.buildSendRequest changed.events before.state.store).1 } =
        after at hafter ⊢
      obtain ⟨o, t, l⟩ := after
      cases o with
      | exc e => rw [Comp.bind_exc (by rw [hafter]), hafter]
      | intr i => rw [Comp.bind_intr (by rw [hafter]), hafter]
      | ok x =>
        rw [Comp.bind_ok (by rw [hafter]), hafter]
        cases x <;> rfl

theorem calls_sendWith {events changed : EventList} {r : Scope} {s : State σ}
    (hbefore : (MiddlewareManager.beforeSendEvents flavor (managed env skipMiddleware) events
      r s).outcome = .ok (.ok changed)) :
    let ms := managed env skipMiddleware
    let store := (MiddlewareManager.beforeSendEvents flavor ms events r s).state.store
    (sendWith (env.observed outcomes) flavor skipMiddleware events r
        (s.observed [])).state.store.calls =
      MiddlewareManager.beforeSendCalls flavor ms events s.store ++
        exchangeCalls env outcomes changed.events store ++
          match answer env outcomes changed.events store with
          | .ok (.ok given) => MiddlewareManager.afterSendCalls flavor ms given
              (env.http.buildSendRequest changed.events store).1
          | _ => [] := by
  rw [sendWith_observed env outcomes flavor skipMiddleware hbefore]
  simp only
  generalize answer env outcomes changed.events _ = x
  cases x with
  | error e => simp [State.observed]
  | ok result => cases result <;> simp [State.observed]

end Client

/-! ## What a success says -/

namespace Client
variable {σ : Type} (env : ClientEnv σ) (outcomes : ℕ → Option HttpxResponse) (flavor : Flavor)
  (skipMiddleware : Bool) (events : SentEvents) (r : Scope) (s : State σ)

/-- An exception leaves the call; a `SendEventsError` is handed out as a value. -/
def Raised {α : Type} (o : Outcome PyError Interrupt (Except SendEventsError α)) : Prop :=
  (∃ e, o = .exc e) ∨ ∃ e, o = .ok (.error e)

/-- A call makes few requests, fails when they all fail, and gives the ids of
a response that accepted the events. -/
structure Truthful (d : Run (Observed σ) (Except SendEventsError (List String))) : Prop where
  limit : d.state.store.posts.length ≤ maxSendAttempts
  stops : ∀ i, i + 1 < d.state.store.posts.length → settled (outcomes i) = false
  raises : (∀ i < maxSendAttempts, settled (outcomes i) = false) → Raised d.outcome
  returns : ∀ ids, d.outcome = .ok (.ok ids) → ∃ i resp result,
    d.state.store.posts.length = i + 1 ∧ outcomes i = some resp ∧ resp.statusCode < 400 ∧
      read env resp = .ok result ∧ result.error = none ∧ ids = result.ids

/-- The hooks go through, a request is built, and the body of the response
that the loop keeps holds the result `given`, which the hooks change to `left`. -/
structure Accepted (resp : HttpxResponse) (given left : SendEventsResult) : Prop where
  kept : kept outcomes = some resp
  body : read env resp = .ok given
  hooks : ∃ changed req,
    let before := MiddlewareManager.beforeSendEvents flavor (managed env skipMiddleware)
      events.list r s
    let built := env.http.buildSendRequest changed.events before.state.store
    before.outcome = .ok (.ok changed) ∧ built.2 = .ok req ∧
      (MiddlewareManager.afterSendEvents flavor (managed env skipMiddleware) given r
        { before.state with store := built.1 }).outcome = .ok (.ok left)

/-- A failure that passes for a success: the response has an error status, its
body had an error that a hook took away, or the hooks put other ids there. -/
def Misleading : Prop :=
  ∃ resp given left, Accepted env outcomes flavor skipMiddleware events r s resp given left ∧
    left.error = none ∧
      (400 ≤ resp.statusCode ∨ given.error ≠ none ∨ left.ids ≠ given.ids)

theorem posts_sendWith {changed : EventList}
    (hbefore : (MiddlewareManager.beforeSendEvents flavor (managed env skipMiddleware) events.list
      r s).outcome = .ok (.ok changed)) :
    (sendWith (env.observed outcomes) flavor skipMiddleware events.list r
        (s.observed [])).state.store.posts =
      match (env.http.buildSendRequest changed.events (MiddlewareManager.beforeSendEvents flavor
        (managed env skipMiddleware) events.list r s).state.store).2 with
      | .error _ => []
      | .ok req => List.replicate (tries outcomes) req := by
  rw [Observed.posts, calls_sendWith env outcomes flavor skipMiddleware hbefore,
    List.filterMap_append, List.filterMap_append, posted_beforeSendCalls, posted_exchangeCalls]
  have hafter : ∀ calls : List ObservedCall, calls.filterMap ObservedCall.posted = [] →
      ∀ posts : List Json, [] ++ posts ++ calls.filterMap ObservedCall.posted = posts := by
    intro calls h posts
    rw [h, List.nil_append, List.append_nil]
  apply hafter
  split
  · exact posted_afterSendCalls _ _ _ _
  · rfl

theorem sendWith_accepted {resp : HttpxResponse} {given left : SendEventsResult}
    (h : Accepted env outcomes flavor skipMiddleware events r s resp given left) :
    let d := sendWith (env.observed outcomes) flavor skipMiddleware events.list r (s.observed [])
    d.outcome = .ok left.sentIds ∧ d.state.store.posts.length = tries outcomes := by
  obtain ⟨changed, req, hbefore, hbuilt, hafter⟩ := h.hooks
  simp only at hbuilt hafter ⊢
  constructor
  · rw [sendWith_observed env outcomes flavor skipMiddleware hbefore]
    simp only [answer, hbuilt, h.kept, h.body, Except.map, hafter]
  · rw [posts_sendWith env outcomes flavor skipMiddleware events r s hbefore, hbuilt]
    exact List.length_replicate

theorem sendWith_cases :
    let d := sendWith (env.observed outcomes) flavor skipMiddleware events.list r (s.observed [])
    d.state.store.posts.length ≤ tries outcomes ∧
      (Raised d.outcome ∨ ∃ resp given left,
        Accepted env outcomes flavor skipMiddleware events r s resp given left ∧
          left.error = none ∧ d.outcome = .ok (.ok left.ids)) := by
  intro d
  obtain ⟨⟨x, hbefore⟩, -, -⟩ := MiddlewareManager.hookLoop_spec
    (MiddlewareManager.refuseCoroutine flavor Hooks.beforeSendEvents) Hooks.beforeSendEvents
    (managed env skipMiddleware) events.list r s
  rw [← MiddlewareManager.beforeSendEvents] at hbefore
  cases x with
  | error e =>
    have hd : d = _ := sendWith_refused env outcomes flavor skipMiddleware hbefore
    rw [hd, State.observed, Observed.posts, posted_beforeSendCalls]
    exact ⟨Nat.zero_le _, .inl (.inl ⟨e, rfl⟩)⟩
  | ok changed =>
    have hd : d = _ := sendWith_observed env outcomes flavor skipMiddleware hbefore
    have hposts : d.state.store.posts = _ :=
      posts_sendWith env outcomes flavor skipMiddleware events r s hbefore
    refine ⟨?_, ?_⟩
    · rw [hposts]
      split
      · exact Nat.zero_le _
      · exact List.length_replicate.le
    · obtain ⟨e, hanswer⟩ | ⟨e, hanswer⟩ | ⟨req, resp, given, hbuilt, hkept, hread, hanswer⟩ :=
        answer_cases env outcomes changed.events (MiddlewareManager.beforeSendEvents flavor
          (managed env skipMiddleware) events.list r s).state.store
      · exact .inl (.inl ⟨e, by rw [hd]; simp only [hanswer]⟩)
      · exact .inl (.inr ⟨e, by rw [hd]; simp only [hanswer]⟩)
      · simp only [hanswer] at hd
        obtain ⟨⟨x, hafter⟩, -, -⟩ := MiddlewareManager.hookLoop_spec
          (MiddlewareManager.refuseCoroutine flavor Hooks.afterExecution)
          (fun m => m.afterSendEvents.called flavor) (managed env skipMiddleware).reverse given r
          { (MiddlewareManager.beforeSendEvents flavor (managed env skipMiddleware) events.list r
            s).state with store := (env.http.buildSendRequest changed.events _).1 }
        rw [← MiddlewareManager.afterSendEvents] at hafter
        cases x with
        | error e => exact .inl (.inl ⟨e, by rw [hd, hafter]⟩)
        | ok left =>
          have houtcome : d.outcome = .ok left.sentIds := by rw [hd, hafter]
          rw [SendEventsResult.sentIds] at houtcome
          cases herror : left.error with
          | some message =>
            rw [herror] at houtcome
            exact .inl (.inr ⟨_, houtcome⟩)
          | none =>
            rw [herror] at houtcome
            exact .inr ⟨resp, given, left, ⟨hkept, hread, changed, req, hbefore, hbuilt, hafter⟩,
              herror, houtcome⟩

theorem sendEvents_run :
    let d := sendEvents (env.observed outcomes) flavor skipMiddleware events r (s.observed [])
    let d' := sendWith (env.observed outcomes) flavor skipMiddleware events.list r (s.observed [])
    d.state = d'.state ∧ (Raised d'.outcome → Raised d.outcome) ∧
      ∀ x, d'.outcome = .ok x → d.outcome = .ok x := by
  cases flavor with
  | sync => exact ⟨rfl, id, fun x h => h⟩
  | async =>
    simp only [sendEvents, Async.coroutine, Comp.mapExc, true_and]
    refine ⟨?_, fun x h => by rw [h, Outcome.mapExc]⟩
    rintro (⟨e, h⟩ | ⟨e, h⟩)
    · exact .inl ⟨_, by rw [h, Outcome.mapExc]⟩
    · exact .inr ⟨e, by rw [h, Outcome.mapExc]⟩

theorem not_raised {α : Type} {o : Outcome PyError Interrupt (Except SendEventsError α)} {a : α}
    (h : o = .ok (.ok a)) : ¬ Raised o := by
  rintro (⟨e, he⟩ | ⟨e, he⟩) <;> simp [h] at he

theorem settled_some {resp : HttpxResponse} (h : resp.statusCode < 500) :
    settled (some resp) = true := by
  simpa [settled] using h

theorem kept_settled {resp : HttpxResponse} (hkept : kept outcomes = some resp)
    (h : resp.statusCode < 500) :
    ∃ i, tries outcomes = i + 1 ∧ outcomes i = some resp := by
  obtain ⟨i, htries, hi⟩ := Retry.kept_settled hkept fun a ha => by
    rw [show a = some resp from ha]
    exact settled_some h
  exact ⟨i, htries, by simpa using hi⟩

/-- Sending tells the truth exactly when no failure passes for a success. -/
theorem send_truthful_iff :
    Truthful env outcomes
        (sendEvents (env.observed outcomes) flavor skipMiddleware events r (s.observed [])) ↔
      ¬ Misleading env outcomes flavor skipMiddleware events r s := by
  obtain ⟨hstate, hraised, hok⟩ := sendEvents_run env outcomes flavor skipMiddleware events r s
  obtain ⟨hposts, hcases⟩ := sendWith_cases env outcomes flavor skipMiddleware events r s
  constructor
  · rintro h ⟨resp, given, left, haccepted, herror, hbad⟩
    obtain ⟨houtcome, htries⟩ :=
      sendWith_accepted env outcomes flavor skipMiddleware events r s haccepted
    rw [SendEventsResult.sentIds, herror] at houtcome
    obtain ⟨i, resp', given', hi, hresp, hstatus, hread, hgiven, hids⟩ :=
      h.returns _ (hok _ houtcome)
    rw [hstate] at hi
    have hkept : kept outcomes = some resp' :=
      Retry.kept_of_last (i := i) (by rw [← tries, ← htries, hi]) (by simpa using hresp)
    obtain rfl : resp = resp' := Option.some.inj (haccepted.kept.symm.trans hkept)
    obtain rfl : given = given' := Except.ok.inj (haccepted.body.symm.trans hread)
    obtain hbad | hbad | hbad := hbad
    · omega
    · exact hbad hgiven
    · exact hbad hids
  · intro h
    have hle : tries outcomes ≤ maxSendAttempts := Retry.tries_le
    -- a success of the call is a response that was accepted and is not misleading
    have hreturns : ∀ resp given left,
        Accepted env outcomes flavor skipMiddleware events r s resp given left →
        left.error = none → ∃ i, tries outcomes = i + 1 ∧ outcomes i = some resp ∧
          resp.statusCode < 400 ∧ given.error = none ∧ left.ids = given.ids := by
      intro resp given left haccepted herror
      have hbad : ¬ (400 ≤ resp.statusCode ∨ given.error ≠ none ∨ left.ids ≠ given.ids) :=
        fun hbad => h ⟨resp, given, left, haccepted, herror, hbad⟩
      simp only [not_or, not_le, not_not] at hbad
      obtain ⟨hstatus, hgiven, hleft⟩ := hbad
      obtain ⟨i, htries, hresp⟩ := kept_settled outcomes haccepted.kept (by omega)
      exact ⟨i, htries, hresp, hstatus, hgiven, hleft⟩
    constructor
    · rw [hstate]
      omega
    · intro i hi
      rw [hstate] at hi
      have hi : i + 1 < tries outcomes := by omega
      simpa using Retry.tries_before hi
    · intro hfailed
      obtain hraised' | ⟨resp, given, left, haccepted, herror, -⟩ := hcases
      · exact hraised hraised'
      · obtain ⟨i, htries, hresp, hstatus, -, -⟩ := hreturns resp given left haccepted herror
        have hsettled := settled_some (show resp.statusCode < 500 by omega)
        have hunsettled := hfailed i (by omega)
        rw [hresp, hsettled] at hunsettled
        cases hunsettled
    · intro ids hids
      obtain hraised' | ⟨resp, given, left, haccepted, herror, houtcome⟩ := hcases
      · exact absurd (hraised hraised') (not_raised hids)
      · obtain ⟨i, htries, hresp, hstatus, hgiven, hleft⟩ :=
          hreturns resp given left haccepted herror
        have hposted :=
          (sendWith_accepted env outcomes flavor skipMiddleware events r s haccepted).2
        have hsame : ids = left.ids := by
          simpa using hids.symm.trans (hok _ houtcome)
        exact ⟨i, resp, given, by rw [hstate, hposted, htries], hresp, hstatus, haccepted.body,
          hgiven, hsame.trans hleft⟩

/-- Without middleware a failure passes for a success when the response that
the loop keeps has an error status and a body without an error. -/
theorem misleading_skip :
    Misleading env outcomes flavor true events r s ↔
      (∃ req, (env.http.buildSendRequest events.list.events s.store).2 = .ok req) ∧
        ∃ resp given, kept outcomes = some resp ∧ read env resp = .ok given ∧
          given.error = none ∧ 400 ≤ resp.statusCode := by
  constructor
  · rintro ⟨resp, given, left, ⟨hkept, hread, changed, req, hbefore, hbuilt, hafter⟩, herror, hbad⟩
    obtain rfl : events.list = changed := by
      simpa [managed, MiddlewareManager.beforeSendEvents, MiddlewareManager.hookLoop] using hbefore
    obtain rfl : given = left := by
      simpa [managed, MiddlewareManager.afterSendEvents, MiddlewareManager.hookLoop] using hafter
    refine ⟨⟨req, hbuilt⟩, resp, given, hkept, hread, herror, ?_⟩
    simpa [herror] using hbad
  · rintro ⟨⟨req, hbuilt⟩, resp, given, hkept, hread, herror, hstatus⟩
    exact ⟨resp, given, given, ⟨hkept, hread, events.list, req, rfl, hbuilt, rfl⟩, herror,
      .inl hstatus⟩

end Client

/-! A network whose every response is a 503 with an empty object. -/

namespace Sample

def eventApi : ClientEnv Unit where
  flavor := .async
  hash := id
  serializer := none
  middleware := []
  request := ⟨0, false, none, "run"⟩
  targetHashedId := none
  http := {
    buildSendRequest events s := (s, .ok (.arr (events.map fun e => .str e.name)))
    fetch _ s := (s, .requestError)
    json resp :=
      if resp.content = "\x7b\x7d" then .ok (.obj [])
      else .error (exception "JSONDecodeError" "Expecting value")
    fromRaw raw :=
      match SendEventsResult.fromRaw (fun _ => none) raw with
      | some result => .ok result
      | none => .error (exception "ValidationError" "1 validation error for SendEventsResult") }

def outage (_ : ℕ) : Option HttpxResponse := some ⟨503, "\x7b\x7d"⟩

def sentEvent : SentEvents := .one ⟨[], "", "sent", 0⟩

def idle : State Unit := ⟨∅, fun _ => 0, false, false, fun _ => none, ()⟩

end Sample

namespace Client
open Sample

theorem send_outage :
    (∀ i, settled (outage i) = false) ∧
      (sendEvents (eventApi.observed outage) .async false sentEvent .top
        (idle.observed [])).outcome = .ok (.ok []) ∧
      ¬ Truthful eventApi outage
        (sendEvents (eventApi.observed outage) .async false sentEvent .top (idle.observed [])) := by
  have hsent : (sendEvents (eventApi.observed outage) .async false sentEvent .top
      (idle.observed [])).outcome = .ok (.ok []) := by decide
  refine ⟨fun i => rfl, hsent, fun h => ?_⟩
  exact not_raised hsent (h.raises fun i _ => rfl)

end Client
end Inngest
