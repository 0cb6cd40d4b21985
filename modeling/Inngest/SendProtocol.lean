import Inngest.Sending

/-!
# Four ways to send

`step.send_event`, `StepSync.send_event`, `client.send` and `client.send_sync`
run the same middleware around the same request. They differ in the list that
they post, in the failures after which the hooks still run, and in the test
that the synchronous manager makes before it calls one.
-/

set_option autoImplicit false

namespace Inngest
open ServerLib Errors StepLib Effect Engine

/-! ## The functions -/

inductive Sender where
  | stepSendEvent
  | stepSyncSendEvent
  | send
  | sendSync
  deriving DecidableEq, Repr

namespace Sender
variable {σ : Type}

def flavor : Sender → Flavor
  | .stepSendEvent | .send => .async
  | .stepSyncSendEvent | .sendSync => .sync

def isStep : Sender → Bool
  | .stepSendEvent | .stepSyncSendEvent => true
  | .send | .sendSync => false

def run (env : ClientEnv σ) (events : SentEvents) (r : Scope) (s : State σ) : Sender → State σ
  | .stepSendEvent =>
    (Async.coroutine (Step.postEvents env .async (Async.Client.send env) events) r s).state
  | .stepSyncSendEvent => (Step.postEvents env .sync (Client.sendSync env) events r s).state
  | .send => (Client.sendEvents env .async false events r s).state
  | .sendSync => (Client.sendEvents env .sync false events r s).state

end Sender

/-! ## The protocol -/

namespace MiddlewareManager
variable {σ : Type}

def numbered (xs : List (Middleware σ × ℕ)) : List (Hooks σ × ℕ) :=
  xs.filterMap fun
    | (.logger, _) => none
    | (.user m, i) => some (m, i)

end MiddlewareManager

namespace Client
variable {σ : Type} (env : ClientEnv σ) (outcomes : ℕ → Option HttpxResponse)

def leaving (flavor : Flavor) (e : PyError) : PyError :=
  match flavor with
  | .async => Async.leaving e
  | .sync => e

def sentResult (flavor : Flavor) (events : List ServerLib.Event) (store : σ) : SendEventsResult :=
  match answer env outcomes events store with
  | .ok (.ok result) => result
  | .ok (.error e) => ⟨some e.message, e.ids⟩
  | .error e => ⟨some (leaving flavor e).message, []⟩

end Client

namespace Sender
variable {σ : Type} (env : ClientEnv σ) (outcomes : ℕ → Option HttpxResponse)
  (events : SentEvents) (r : Scope) (s : State σ)

/-- Once the hooks before it have left the events `changed`, the sender builds
its request of just that list and posts that request and no other, and it tells
each middleware, the last one first, the ids and the error of the outcome. -/
structure Follows (sender : Sender) (changed : EventList) (store : σ) : Prop where
  builds : (sender.run (env.observed outcomes) events r (s.observed [])).store.builds =
    [changed.events]
  posts : ∀ req, req ∈ (sender.run (env.observed outcomes) events r (s.observed [])).store.posts ↔
    (env.http.buildSendRequest changed.events store).2 = .ok req
  sends : (sender.run (env.observed outcomes) events r (s.observed [])).store.sends =
    (MiddlewareManager.numbered env.middleware.zipIdx).reverse.map fun x =>
      (x.2, Client.sentResult env outcomes sender.flavor changed.events store)

/-- The state that the hooks before the send leave to it. -/
def hooked (sender : Sender) : σ :=
  (MiddlewareManager.beforeSendEvents sender.flavor env.middleware events.list r s).state.store

/-- The protocol binds a sender whose hooks before the send all succeeded. -/
def Protocol (sender : Sender) : Prop :=
  ∀ changed,
    (MiddlewareManager.beforeSendEvents sender.flavor env.middleware events.list r s).outcome =
        .ok (.ok changed) →
      Follows env outcomes events r s sender changed (hooked env events r s sender)

/-! ## When it holds -/

/-- Each hook is called and gets the result as the send left it: the
synchronous manager finds no coroutine function where it looks and none where
it calls, and only the last hook may raise or change the result. -/
def EachCalled (flavor : Flavor) (result : SendEventsResult) : List (Hooks σ × ℕ) → σ → Prop
  | [], _ => True
  | (m, _) :: ms, store =>
    (flavor = .sync →
        m.afterExecution.isCoroutine = false ∧ m.afterSendEvents.isCoroutine = false) ∧
      (ms = [] ∨ (m.afterSendEvents.call store result).2 = none ∧
        (m.afterSendEvents.call store result).1.2 = result ∧
          EachCalled flavor result ms (m.afterSendEvents.call store result).1.1)

/-- A step posts its argument: the list that the hooks changed, or the single
event that the hooks saw in a list. The client tells the hooks the result that
was in a body, and of no other outcome. -/
structure Conforms (sender : Sender) (changed : EventList) (store : σ) : Prop where
  argument : sender.isStep = true → events.after changed = changed.events
  received : sender.isStep = false → MiddlewareManager.numbered env.middleware.zipIdx ≠ [] →
    ∃ result, Client.answer env outcomes changed.events store = .ok (.ok result)
  called : EachCalled sender.flavor
    (Client.sentResult env outcomes sender.flavor changed.events store)
    (MiddlewareManager.numbered env.middleware.zipIdx).reverse
    (env.http.buildSendRequest changed.events store).1

end Sender

/-! ## The calls of the hooks -/

namespace MiddlewareManager
variable {σ : Type} (flavor : Flavor)

theorem numbered_reverse (xs : List (Middleware σ × ℕ)) :
    numbered xs.reverse = (numbered xs).reverse := List.filterMap_reverse

/-- The calls that the loop over `xs` makes, with their arguments. -/
def sendsOf (xs : List (Middleware σ × ℕ)) (result : SendEventsResult) (store : σ) :
    List (ℕ × SendEventsResult) :=
  (loopCalls (refuseCoroutine flavor Hooks.afterExecution)
    (fun m => m.afterSendEvents.called flavor)
    (fun m i result => if m.afterSendEvents.runs flavor then [.afterSendEvents i result] else [])
    xs result store).filterMap ObservedCall.sent

theorem sendsOf_refused {m : Hooks σ} (h : refuseCoroutine flavor Hooks.afterExecution m = true)
    (i : ℕ) (xs : List (Middleware σ × ℕ)) (result : SendEventsResult) (store : σ) :
    sendsOf flavor ((.user m, i) :: xs) result store = [] := by
  simp [sendsOf, loopCalls, h]

theorem sendsOf_runs {m : Hooks σ} (h : refuseCoroutine flavor Hooks.afterExecution m = false)
    (hruns : m.afterSendEvents.runs flavor) (i : ℕ) (xs : List (Middleware σ × ℕ))
    (result : SendEventsResult) (store : σ) :
    sendsOf flavor ((.user m, i) :: xs) result store = (i, result) ::
      match (m.afterSendEvents.call store result).2 with
      | some _ => []
      | none => sendsOf flavor xs (m.afterSendEvents.call store result).1.2
          (m.afterSendEvents.call store result).1.1 := by
  have hcalled : m.afterSendEvents.called flavor = m.afterSendEvents := by
    rw [Hook.called, if_neg]
    rintro ⟨hsync, hcoroutine⟩
    rw [hruns hsync] at hcoroutine
    cases hcoroutine
  simp only [sendsOf, loopCalls, h, hcalled, hruns, Bool.false_eq_true, if_false, if_true,
    List.filterMap_append]
  cases (m.afterSendEvents.call store result).2 <;> rfl

theorem sendsOf_skipped {m : Hooks σ} (h : refuseCoroutine flavor Hooks.afterExecution m = false)
    (hruns : ¬ m.afterSendEvents.runs flavor) (i : ℕ) (xs : List (Middleware σ × ℕ))
    (result : SendEventsResult) (store : σ) :
    sendsOf flavor ((.user m, i) :: xs) result store = sendsOf flavor xs result store := by
  have hskipped : flavor = .sync ∧ m.afterSendEvents.isCoroutine = true := by
    simpa [Hook.runs] using hruns
  have hcalled : m.afterSendEvents.called flavor = _ := if_pos hskipped
  simp only [sendsOf, loopCalls, h, hcalled, hruns, Bool.false_eq_true, if_false, List.nil_append]

theorem length_sendsOf (xs : List (Middleware σ × ℕ)) (result : SendEventsResult) (store : σ) :
    (sendsOf flavor xs result store).length ≤ (numbered xs).length := by
  induction xs generalizing result store with
  | nil => exact Nat.le_refl _
  | cons x xs ih =>
    obtain ⟨m, i⟩ := x
    cases m with
    | logger => exact ih result store
    | user m =>
      have hlength : (numbered ((.user m, i) :: xs)).length = (numbered xs).length + 1 := rfl
      rw [hlength]
      by_cases hrefuse : refuseCoroutine flavor Hooks.afterExecution m = true
      · rw [sendsOf_refused flavor hrefuse]
        exact Nat.zero_le _
      · have hrefuse : refuseCoroutine flavor Hooks.afterExecution m = false := by
          simpa using hrefuse
        by_cases hruns : m.afterSendEvents.runs flavor
        · rw [sendsOf_runs flavor hrefuse hruns]
          cases (m.afterSendEvents.call store result).2 with
          | some e => simp
          | none => simpa using ih _ _
        · rw [sendsOf_skipped flavor hrefuse hruns]
          exact Nat.le_succ_of_le (ih _ _)

theorem sendsOf_changed {xs : List (Middleware σ × ℕ)} (hxs : numbered xs ≠ [])
    {result changed : SendEventsResult} (hne : changed ≠ result) (store : σ) :
    sendsOf flavor xs changed store ≠ (numbered xs).map fun x => (x.2, result) := by
  induction xs with
  | nil => exact absurd rfl hxs
  | cons x xs ih =>
    obtain ⟨m, i⟩ := x
    cases m with
    | logger => exact ih hxs
    | user m =>
      intro h
      have hexpected : (numbered ((.user m, i) :: xs)).map (fun x => (x.2, result)) =
          (i, result) :: (numbered xs).map fun x => (x.2, result) := rfl
      rw [hexpected] at h
      by_cases hrefuse : refuseCoroutine flavor Hooks.afterExecution m = true
      · rw [sendsOf_refused flavor hrefuse] at h
        cases h
      · have hrefuse : refuseCoroutine flavor Hooks.afterExecution m = false := by
          simpa using hrefuse
        by_cases hruns : m.afterSendEvents.runs flavor
        · rw [sendsOf_runs flavor hrefuse hruns] at h
          simp only [List.cons.injEq, Prod.mk.injEq, true_and] at h
          exact hne h.1
        · rw [sendsOf_skipped flavor hrefuse hruns] at h
          have hlength := length_sendsOf flavor xs changed store
          rw [h, List.length_cons, List.length_map] at hlength
          omega

theorem sendsOf_iff (xs : List (Middleware σ × ℕ)) (result : SendEventsResult) (store : σ) :
    sendsOf flavor xs result store = ((numbered xs).map fun x => (x.2, result)) ↔
      Sender.EachCalled flavor result (numbered xs) store := by
  induction xs generalizing store with
  | nil => simp [sendsOf, loopCalls, numbered, Sender.EachCalled]
  | cons x xs ih =>
    obtain ⟨m, i⟩ := x
    cases m with
    | logger => exact ih store
    | user m =>
      have hnumbered : numbered ((.user m, i) :: xs) = (m, i) :: numbered xs := rfl
      rw [hnumbered, List.map_cons, Sender.EachCalled]
      by_cases hrefuse : refuseCoroutine flavor Hooks.afterExecution m = true
      · have hcoroutine : flavor = .sync ∧ m.afterExecution.isCoroutine = true := by
          simpa [refuseCoroutine] using hrefuse
        rw [sendsOf_refused flavor hrefuse]
        simp [hcoroutine]
      · have hrefuse : refuseCoroutine flavor Hooks.afterExecution m = false := by
          simpa using hrefuse
        have hplain : flavor = .sync → m.afterExecution.isCoroutine = false := by
          simpa [refuseCoroutine] using hrefuse
        by_cases hruns : m.afterSendEvents.runs flavor
        · rw [sendsOf_runs flavor hrefuse hruns, List.cons.injEq, eq_self_iff_true, true_and]
          have hboth : flavor = .sync →
              m.afterExecution.isCoroutine = false ∧ m.afterSendEvents.isCoroutine = false :=
            fun hsync => ⟨hplain hsync, hruns hsync⟩
          rw [and_iff_right hboth]
          cases (m.afterSendEvents.call store result).2 with
          | some e =>
            simp only [reduceCtorEq, false_and, or_false]
            rw [eq_comm, List.map_eq_nil_iff]
          | none =>
            simp only [true_and]
            by_cases hxs : numbered xs = []
            · have hlength := length_sendsOf flavor xs
                (m.afterSendEvents.call store result).1.2 (m.afterSendEvents.call store result).1.1
              simpa [hxs] using hlength
            · rw [or_iff_right hxs]
              by_cases hkept : (m.afterSendEvents.call store result).1.2 = result
              · rw [hkept, and_iff_right rfl]
                exact ih _
              · exact iff_of_false (sendsOf_changed flavor hxs hkept _) fun h => hkept h.1
        · rw [sendsOf_skipped flavor hrefuse hruns]
          have hlength := length_sendsOf flavor xs result store
          constructor
          · intro h
            rw [h, List.length_cons, List.length_map] at hlength
            omega
          · intro h
            exact absurd (fun hsync => (h.1 hsync).2) hruns

end MiddlewareManager

/-! ## The calls of a sender -/

namespace Client
variable {σ : Type} (env : ClientEnv σ) (outcomes : ℕ → Option HttpxResponse)

def sendInStep (flavor : Flavor) (events : List ServerLib.Event) :
    Exec σ (Except SendEventsError (List String)) :=
  match flavor with
  | .async => Async.Client.send env events
  | .sync => sendSync env events

theorem sendInStep_observed (flavor : Flavor) (events : List ServerLib.Event) (r : Scope)
    (s : State σ) {before : List ObservedCall}
    (hbefore : before.filterMap ObservedCall.posted = []) :
    sendInStep (env.observed outcomes) flavor events r (s.observed before) =
      ⟨match answer env outcomes events s.store with
        | .ok (.ok result) => .ok result.sentIds
        | .ok (.error e) => .ok (.error e)
        | .error e => .exc (leaving flavor e),
        { s with store := (env.http.buildSendRequest events s.store).1 }.observed
          (before ++ exchangeCalls env outcomes events s.store), []⟩ := by
  have hexchange := exchange_observed env outcomes events r s hbefore
  have hrequest : sendRequest (env.observed outcomes) events r (s.observed before) =
      ⟨match answer env outcomes events s.store with
        | .ok (.ok result) => .ok result.sentIds
        | .ok (.error e) => .ok (.error e)
        | .error e => .exc e,
        { s with store := (env.http.buildSendRequest events s.store).1 }.observed
          (before ++ exchangeCalls env outcomes events s.store), []⟩ := by
    rw [sendRequest_eq]
    generalize answer env outcomes events s.store = x at hexchange ⊢
    cases x with
    | error e => rw [Comp.bind_exc (by rw [hexchange]; rfl), hexchange]
    | ok x =>
      rw [Comp.bind_ok (by rw [hexchange]; rfl), hexchange]
      cases x <;> rfl
  cases flavor with
  | sync => exact hrequest
  | async =>
    rw [sendInStep, Async.Client.send, Async.coroutine, Comp.mapExc, hrequest]
    generalize answer env outcomes events s.store = x
    cases x with
    | error e => rfl
    | ok x => cases x <;> rfl

end Client

namespace Step
variable {σ : Type} (env : ClientEnv σ) (outcomes : ℕ → Option HttpxResponse)

theorem afterSend_observed (flavor : Flavor) (result : SendEventsResult) (err : Option PyError)
    (r : Scope) (s : State σ) (before : List ObservedCall) :
    (afterSend (env.observed outcomes) flavor result err r
        (s.observed before)).state.store.calls =
      before ++ MiddlewareManager.afterSendCalls flavor env.middleware result s.store := by
  have hobserved : MiddlewareManager.afterSendEvents flavor (env.observed outcomes).middleware
      result r (s.observed before) = _ :=
    MiddlewareManager.afterSendEvents_observed flavor env.middleware r s before result
  obtain ⟨⟨x, hx⟩, -, -⟩ := MiddlewareManager.hookLoop_spec
    (MiddlewareManager.refuseCoroutine flavor Hooks.afterExecution)
    (fun m => m.afterSendEvents.called flavor) env.middleware.reverse result r s
  rw [← MiddlewareManager.afterSendEvents] at hx
  rw [afterSend, Comp.bind_ok (by rw [hobserved, hx]), hobserved]
  cases x with
  | error e => rfl
  | ok left => cases err <;> rfl

theorem calls_postEvents (flavor : Flavor) {events : SentEvents} {changed : EventList} {r : Scope}
    {s : State σ}
    (hbefore : (MiddlewareManager.beforeSendEvents flavor env.middleware events.list r s).outcome =
      .ok (.ok changed)) :
    let store :=
      (MiddlewareManager.beforeSendEvents flavor env.middleware events.list r s).state.store
    let posted := events.after changed
    (postEvents (env.observed outcomes) flavor
        (Client.sendInStep (env.observed outcomes) flavor) events r
        (s.observed [])).state.store.calls =
      MiddlewareManager.beforeSendCalls flavor env.middleware events.list s.store ++
        Client.exchangeCalls env outcomes posted store ++
          MiddlewareManager.afterSendCalls flavor env.middleware
            (Client.sentResult env outcomes flavor posted store)
            (env.http.buildSendRequest posted store).1 := by
  have hobserved : MiddlewareManager.beforeSendEvents flavor (env.observed outcomes).middleware
      events.list r (s.observed []) = _ :=
    MiddlewareManager.beforeSendEvents_observed flavor env.middleware r s [] events.list
  rw [postEvents, Comp.bind_ok (by rw [hobserved, hbefore]), hobserved]
  simp only [List.nil_append, Done.after_nil]
  generalize MiddlewareManager.beforeSendEvents flavor env.middleware events.list r s =
    before at hbefore ⊢
  have hsend := Client.sendInStep_observed env outcomes flavor (events.after changed) r before.state
    (Client.posted_beforeSendCalls flavor env.middleware events.list s.store)
  rw [Client.sentResult]
  generalize Client.answer env outcomes (events.after changed) before.state.store = x at hsend ⊢
  cases x with
  | error e =>
    rw [Comp.andThen_exc (by rw [hsend]), hsend]
    exact afterSend_observed env outcomes flavor _ _ r _ _
  | ok x =>
    cases x with
    | error e =>
      rw [Comp.andThen_ok (by rw [hsend]), hsend]
      exact afterSend_observed env outcomes flavor _ _ r _ _
    | ok result =>
      rw [Comp.andThen_ok (by rw [hsend]), hsend]
      obtain ⟨error, ids⟩ := result
      cases error with
      | none => exact afterSend_observed env outcomes flavor _ _ r _ _
      | some message => exact afterSend_observed env outcomes flavor _ _ r _ _

end Step

namespace Client
variable {σ : Type} (env : ClientEnv σ) (outcomes : ℕ → Option HttpxResponse)
  (events : List ServerLib.Event) (store : σ)

theorem built_exchangeCalls :
    (exchangeCalls env outcomes events store).filterMap ObservedCall.built = [events] := by
  rw [exchangeCalls]
  cases (env.http.buildSendRequest events store).2 with
  | error e => rfl
  | ok req =>
    have hbuilt : ObservedCall.built (.post req) = none := rfl
    exact congrArg (events :: ·) (List.filterMap_replicate_of_none hbuilt)

theorem sent_exchangeCalls :
    (exchangeCalls env outcomes events store).filterMap ObservedCall.sent = [] := by
  rw [exchangeCalls]
  cases (env.http.buildSendRequest events store).2 with
  | error e => rfl
  | ok req =>
    have hsent : ObservedCall.sent (.post req) = none := rfl
    exact List.filterMap_replicate_of_none hsent

end Client

namespace Sender
variable {σ : Type} (env : ClientEnv σ) (outcomes : ℕ → Option HttpxResponse)
  (events : SentEvents) (r : Scope) (s : State σ)

/-- The protocol, of a sender with the calls that all of them make. -/
theorem follows_iff {sender : Sender} {changed : EventList} {store : σ} {flavor : Flavor}
    {posted : List ServerLib.Event} {after : List ObservedCall}
    (hcalls : (sender.run (env.observed outcomes) events r (s.observed [])).store.calls =
      MiddlewareManager.beforeSendCalls flavor env.middleware events.list s.store ++
        Client.exchangeCalls env outcomes posted store ++ after)
    (hbuilt : after.filterMap ObservedCall.built = [])
    (hposted : after.filterMap ObservedCall.posted = []) :
    Follows env outcomes events r s sender changed store ↔
      posted = changed.events ∧ after.filterMap ObservedCall.sent =
        (MiddlewareManager.numbered env.middleware.zipIdx).reverse.map fun x =>
          (x.2, Client.sentResult env outcomes sender.flavor changed.events store) := by
  have hbefore : ∀ {β : Type} {f : ObservedCall → Option β},
      (∀ i, f (.hook .beforeSendEvents i) = none) →
      (MiddlewareManager.beforeSendCalls flavor env.middleware events.list s.store).filterMap f =
        [] := fun hf => MiddlewareManager.filterMap_loopCalls _ _ _
      (fun _ i _ => List.filterMap_cons_none (hf i)) _ _ _
  have hbuilds : (sender.run (env.observed outcomes) events r (s.observed [])).store.builds =
      [posted] := by
    rw [Observed.builds, hcalls, List.filterMap_append, List.filterMap_append,
      hbefore fun _ => rfl, Client.built_exchangeCalls, hbuilt]
    rfl
  have hposts : (sender.run (env.observed outcomes) events r (s.observed [])).store.posts =
      (Client.exchangeCalls env outcomes posted store).filterMap ObservedCall.posted := by
    rw [Observed.posts, hcalls, List.filterMap_append, List.filterMap_append,
      hbefore fun _ => rfl, hposted, List.nil_append, List.append_nil]
  have hsends : (sender.run (env.observed outcomes) events r (s.observed [])).store.sends =
      after.filterMap ObservedCall.sent := by
    rw [Observed.sends, hcalls, List.filterMap_append, List.filterMap_append,
      hbefore fun _ => rfl, Client.sent_exchangeCalls]
    rfl
  constructor
  · intro h
    exact ⟨by simpa [hbuilds] using h.builds, hsends ▸ h.sends⟩
  · rintro ⟨rfl, hafter⟩
    refine ⟨hbuilds, fun req => ?_, hsends.trans hafter⟩
    rw [hposts, Client.posted_exchangeCalls]
    split
    · next e hbuilt => simp [hbuilt]
    · next req' hbuilt =>
      have htries : Client.tries outcomes ≠ 0 := Retry.tries_pos.ne'
      simp [hbuilt, List.mem_replicate, htries, eq_comm]

theorem filterMap_afterSendCalls {β : Type} {f : ObservedCall → Option β}
    (hf : ∀ i result, f (.afterSendEvents i result) = none) (flavor : Flavor)
    (ms : List (Middleware σ)) (result : SendEventsResult) (store : σ) :
    (MiddlewareManager.afterSendCalls flavor ms result store).filterMap f = [] := by
  refine MiddlewareManager.filterMap_loopCalls _ _ _ (fun m i result => ?_) _ _ _
  split
  · exact List.filterMap_cons_none (hf i result)
  · rfl

/-- The hooks after the send, over the whole list of the manager. -/
theorem sent_afterSendCalls_iff (flavor : Flavor) (ms : List (Middleware σ))
    (result : SendEventsResult) (store : σ) :
    (MiddlewareManager.afterSendCalls flavor ms result store).filterMap ObservedCall.sent =
        ((MiddlewareManager.numbered ms.zipIdx).reverse.map fun x => (x.2, result)) ↔
      EachCalled flavor result (MiddlewareManager.numbered ms.zipIdx).reverse store := by
  rw [← MiddlewareManager.numbered_reverse]
  exact MiddlewareManager.sendsOf_iff flavor ms.zipIdx.reverse result store

variable {sender : Sender} {changed : EventList}

theorem calls_step (hstep : sender.isStep = true)
    (hbefore : (MiddlewareManager.beforeSendEvents sender.flavor env.middleware events.list r
      s).outcome = .ok (.ok changed)) :
    (sender.run (env.observed outcomes) events r (s.observed [])).store.calls =
      MiddlewareManager.beforeSendCalls sender.flavor env.middleware events.list s.store ++
        Client.exchangeCalls env outcomes (events.after changed) (hooked env events r s sender) ++
          MiddlewareManager.afterSendCalls sender.flavor env.middleware
            (Client.sentResult env outcomes sender.flavor (events.after changed)
              (hooked env events r s sender))
            (env.http.buildSendRequest (events.after changed)
              (hooked env events r s sender)).1 := by
  cases sender with
  | stepSendEvent => exact Step.calls_postEvents env outcomes .async hbefore
  | stepSyncSendEvent => exact Step.calls_postEvents env outcomes .sync hbefore
  | send => cases hstep
  | sendSync => cases hstep

theorem calls_client (hstep : sender.isStep = false)
    (hbefore : (MiddlewareManager.beforeSendEvents sender.flavor env.middleware events.list r
      s).outcome = .ok (.ok changed)) :
    (sender.run (env.observed outcomes) events r (s.observed [])).store.calls =
      MiddlewareManager.beforeSendCalls sender.flavor env.middleware events.list s.store ++
        Client.exchangeCalls env outcomes changed.events (hooked env events r s sender) ++
          match Client.answer env outcomes changed.events (hooked env events r s sender) with
          | .ok (.ok given) => MiddlewareManager.afterSendCalls sender.flavor env.middleware given
              (env.http.buildSendRequest changed.events (hooked env events r s sender)).1
          | _ => [] := by
  cases sender with
  | stepSendEvent => cases hstep
  | stepSyncSendEvent => cases hstep
  | send => exact Client.calls_sendWith env outcomes .async false hbefore
  | sendSync => exact Client.calls_sendWith env outcomes .sync false hbefore

theorem follows_step (hstep : sender.isStep = true)
    (hbefore : (MiddlewareManager.beforeSendEvents sender.flavor env.middleware events.list r
      s).outcome = .ok (.ok changed)) :
    Follows env outcomes events r s sender changed (hooked env events r s sender) ↔
      Conforms env outcomes events sender changed (hooked env events r s sender) := by
  rw [follows_iff env outcomes events r s (calls_step env outcomes events r s hstep hbefore)
    (filterMap_afterSendCalls (fun _ _ => rfl) _ _ _ _)
    (filterMap_afterSendCalls (fun _ _ => rfl) _ _ _ _)]
  constructor
  · rintro ⟨hargument, hsent⟩
    rw [hargument, sent_afterSendCalls_iff] at hsent
    exact ⟨fun _ => hargument, fun h => by simp [hstep] at h, hsent⟩
  · rintro ⟨hargument, -, hcalled⟩
    rw [hargument hstep, sent_afterSendCalls_iff]
    exact ⟨rfl, hcalled⟩

theorem follows_client (hstep : sender.isStep = false)
    (hbefore : (MiddlewareManager.beforeSendEvents sender.flavor env.middleware events.list r
      s).outcome = .ok (.ok changed)) :
    Follows env outcomes events r s sender changed (hooked env events r s sender) ↔
      Conforms env outcomes events sender changed (hooked env events r s sender) := by
  have hcalls := calls_client env outcomes events r s hstep hbefore
  by_cases hreceived : ∃ result, Client.answer env outcomes changed.events
      (hooked env events r s sender) = .ok (.ok result)
  · obtain ⟨result, hanswer⟩ := hreceived
    have hresult : Client.sentResult env outcomes sender.flavor changed.events
        (hooked env events r s sender) = result := by rw [Client.sentResult, hanswer]
    rw [hanswer] at hcalls
    rw [follows_iff env outcomes events r s hcalls
      (filterMap_afterSendCalls (fun _ _ => rfl) _ _ _ _)
      (filterMap_afterSendCalls (fun _ _ => rfl) _ _ _ _), hresult, sent_afterSendCalls_iff]
    constructor
    · rintro ⟨-, hcalled⟩
      exact ⟨fun h => by simp [hstep] at h, fun _ _ => ⟨result, hanswer⟩, hresult.symm ▸ hcalled⟩
    · rintro ⟨-, -, hcalled⟩
      exact ⟨rfl, hresult ▸ hcalled⟩
  · have hnone : (match Client.answer env outcomes changed.events
        (hooked env events r s sender) with
        | .ok (.ok given) => MiddlewareManager.afterSendCalls sender.flavor env.middleware given
            (env.http.buildSendRequest changed.events (hooked env events r s sender)).1
        | _ => []) = [] := by
      split
      · next given hanswer => exact absurd ⟨given, hanswer⟩ hreceived
      · rfl
    rw [hnone] at hcalls
    rw [follows_iff env outcomes events r s hcalls rfl rfl]
    simp only [List.filterMap_nil, true_and]
    rw [eq_comm, List.map_eq_nil_iff, List.reverse_eq_nil_iff]
    constructor
    · intro hempty
      refine ⟨fun h => by simp [hstep] at h, fun _ h => absurd hempty h, ?_⟩
      rw [hempty]
      trivial
    · rintro ⟨-, hreceive, -⟩
      by_contra hempty
      exact hreceived (hreceive hstep hempty)

/-- A sender keeps to the protocol exactly when it conforms. -/
theorem protocol_iff (sender : Sender) :
    Protocol env outcomes events r s sender ↔ ∀ changed,
      (MiddlewareManager.beforeSendEvents sender.flavor env.middleware events.list r s).outcome =
          .ok (.ok changed) →
        Conforms env outcomes events sender changed (hooked env events r s sender) := by
  refine forall_congr' fun changed => forall_congr' fun hbefore => ?_
  cases hstep : sender.isStep with
  | true => exact follows_step env outcomes events r s hstep hbefore
  | false => exact follows_client env outcomes events r s hstep hbefore

end Sender

/-! An event that a hook replaces in the list, on a network without a response. -/

namespace Sample

def replacement : ServerLib.Event := ⟨[], "", "replacement", 0⟩

def replacing : Hooks Unit where
  beforeSendEvents :=
    ⟨false, fun s l => ((s, ⟨fun i => if i = 1 then replacement else l.heap i, [1]⟩), none)⟩

def replacingApi : ClientEnv Unit := { eventApi with middleware := [.logger, .user replacing] }

def unreachable (_ : ℕ) : Option HttpxResponse := none

end Sample

namespace Sender
open Sample

theorem replaced_not_protocol :
    ¬ ∃ sender, Protocol replacingApi unreachable sentEvent .top idle sender := by
  rintro ⟨sender, h⟩
  have hfollows := h ⟨fun i => if i = 1 then replacement else ⟨[], "", "sent", 0⟩, [1]⟩
    (by cases sender <;> rfl)
  cases sender with
  | stepSendEvent => exact absurd hfollows.builds (by decide)
  | stepSyncSendEvent => exact absurd hfollows.builds (by decide)
  | send => exact absurd hfollows.sends (by decide)
  | sendSync => exact absurd hfollows.sends (by decide)

end Sender
end Inngest
