import Inngest.Observation
import Inngest.Response

/-!
# The two flavors of each hook method

Each method of the manager stands there twice. The synchronous one refuses a
middleware by a test of its own, and what it then calls is not awaited; the
question is whether the test is about the hook that is called.
-/

set_option autoImplicit false

namespace Inngest
open ServerLib Errors StepLib Effect Engine

namespace MiddlewareManager
variable {σ α β γ : Type}

/-! ## The methods -/

inductive Method where
  | afterExecution
  | afterSendEvents (result : SendEventsResult)
  | beforeExecution
  | beforeResponse
  | beforeSendEvents (events : EventList)
  | transformInput (ctx : Context) (steps : StepMemos)
  | transformOutput (result : CallResult)

namespace Method

def Result : Method → Type
  | .afterSendEvents _ => SendEventsResult
  | .beforeSendEvents _ => EventList
  | .transformInput _ _ => Context × StepMemos
  | .transformOutput _ => CallResult
  | .afterExecution | .beforeExecution | .beforeResponse => Unit

end Method

def returned (m : Exec σ (Option PyError)) : Exec σ (Except PyError Unit) := do
  match ← m with
  | some e => pure (.error e)
  | none => pure (.ok ())

namespace Method
variable (flavor : Flavor) (ms : List (Middleware σ))

def call : (method : Method) → Exec σ (Except PyError method.Result)
  | .afterExecution => MiddlewareManager.afterExecution flavor ms
  | .afterSendEvents result => MiddlewareManager.afterSendEvents flavor ms result
  | .beforeExecution => returned (MiddlewareManager.beforeExecution flavor ms)
  | .beforeResponse => MiddlewareManager.beforeResponse flavor ms
  | .beforeSendEvents events => MiddlewareManager.beforeSendEvents flavor ms events
  | .transformInput ctx steps => MiddlewareManager.transformInput flavor ms ctx steps
  | .transformOutput result => MiddlewareManager.transformOutput flavor ms result

def isCoroutine : Method → Hooks σ → Bool
  | .afterExecution, m => m.afterExecution.isCoroutine
  | .afterSendEvents _, m => m.afterSendEvents.isCoroutine
  | .beforeExecution, m => m.beforeExecution.isCoroutine
  | .beforeResponse, m => m.beforeResponse.isCoroutine
  | .beforeSendEvents _, m => m.beforeSendEvents.isCoroutine
  | .transformInput _ _, m => m.transformInput.isCoroutine
  | .transformOutput _, m => m.transformOutput.isCoroutine

def isRefused : Method → Hooks σ → Bool
  | .afterSendEvents _, m => m.afterExecution.isCoroutine
  | .transformOutput _, m => m.isMiddleware
  | method, m => method.isCoroutine m

end Method

/-! ## The calls of a method -/

/-- The hooks that are called, with the places of the middleware. A coroutine
function that is called and not awaited counts. -/
def hookCalls (refuse : Hooks σ → Bool) (hook : Hooks σ → Hook σ α)
    (xs : List (Middleware σ × ℕ)) (a : α) (store : σ) : List (Hooks σ × ℕ) :=
  loopCalls refuse hook (fun m i _ => [(m, i)]) xs a store

theorem calls_hookLoop_observed {refuse : Hooks σ → Bool} {hook : Hooks σ → Hook σ α}
    {refuse' : Hooks (Observed σ) → Bool} {hook' : Hooks (Observed σ) → Hook (Observed σ) α}
    {calls : Hooks σ → ℕ → List ObservedCall}
    (hrefuse : ∀ m i, refuse' (Hooks.observed i m) = refuse m)
    (hhook : ∀ m i, hook' (Hooks.observed i m) = (hook m).observed fun _ => calls m i)
    (xs : List (Middleware σ × ℕ)) (a : α) (r : Scope) (s : State σ) :
    (hookLoop refuse' hook' (xs.map Middleware.observed) a r (s.observed [])).state.store.calls =
      (hookCalls refuse hook xs a s.store).flatMap fun x => calls x.1 x.2 := by
  have hflat : ∀ (a : α) (store : σ), loopCalls refuse hook (fun m i _ => calls m i) xs a store =
      (hookCalls refuse hook xs a store).flatMap fun x => calls x.1 x.2 := by
    induction xs with
    | nil => exact fun _ _ => rfl
    | cons x xs ih =>
      obtain ⟨m, i⟩ := x
      cases m with
      | logger => exact ih
      | user m =>
        intro a store
        simp only [hookCalls, loopCalls]
        split
        · rfl
        · rw [List.flatMap_append, List.flatMap_singleton]
          split
          · rfl
          · exact congrArg _ (ih _ _)
  rw [hookLoop_observed refuse hook (fun m i _ => calls m i) refuse' hook' hrefuse hhook xs a
    r s []]
  exact hflat a s.store

namespace Method
variable (flavor : Flavor) (ms : List (Middleware σ)) (s : State σ)

def refuse (method : Method) (m : Hooks σ) : Bool := flavor = .sync ∧ method.isRefused m

def shown (result : CallResult) : Option CallItem :=
  match result.multi with
  | some [item] => if item.isEmpty then none else some item
  | some _ => none
  | none => if result.toCallItem.isEmpty then none else some result.toCallItem

def calls (method : Method) : List (Hooks σ × ℕ) :=
  match method with
  | .afterExecution =>
    hookCalls (method.refuse flavor) Hooks.afterExecution ms.zipIdx.reverse () s.store
  | .afterSendEvents result =>
    hookCalls (method.refuse flavor) (fun m => m.afterSendEvents.called flavor) ms.zipIdx.reverse
      result s.store
  | .beforeExecution =>
    if s.beforeExecutionCalled then []
    else hookCalls (method.refuse flavor) Hooks.beforeExecution ms.zipIdx () s.store
  | .beforeResponse =>
    hookCalls (method.refuse flavor) Hooks.beforeResponse ms.zipIdx () s.store
  | .beforeSendEvents events =>
    hookCalls (method.refuse flavor) Hooks.beforeSendEvents ms.zipIdx events s.store
  | .transformInput ctx steps =>
    hookCalls (method.refuse flavor) Hooks.transformInput ms.zipIdx (ctx, steps) s.store
  | .transformOutput result =>
    match shown result with
    | none => []
    | some item =>
      hookCalls (method.refuse flavor) (fun m => m.transformOutput.called flavor)
        ms.zipIdx.reverse item.toTransform s.store

end Method

/-! ## The claim on a pair -/

/-- The synchronous twin calls what the asynchronous one calls and does the
same, when none of these hooks is a coroutine function. When one is, it is not
called, and the twin returns the error for it. -/
structure Method.Faithful (method : Method) (ms : List (Middleware σ)) (r : Scope) (s : State σ) :
    Prop where
  same : (∀ x ∈ method.calls .async ms s, method.isCoroutine x.1 = false) →
    method.calls .sync ms s = method.calls .async ms s ∧
      method.call .sync ms r s = method.call .async ms r s
  refuses : ∀ x ∈ method.calls .async ms s, method.isCoroutine x.1 = true →
    x ∉ method.calls .sync ms s ∧ (method.call .sync ms r s).outcome = .ok (.error mismatchedSync)

/-- The first of the hooks to call whose middleware is refused or that is a
coroutine function belongs to one that is refused, and there is a reason. -/
def Method.TestsRight (method : Method) (ms : List (Middleware σ)) (s : State σ) : Prop :=
  ∀ x, (method.calls .async ms s).find? (fun x => method.isRefused x.1 || method.isCoroutine x.1) =
      some x →
    method.isRefused x.1 = true ∧ ∃ y ∈ method.calls .async ms s, method.isCoroutine y.1 = true

/-! ## Pairs of loops -/

section Paired
variable {tested coroutine : Hooks σ → Bool}

/-- What two runs have to do with each other by the first hook, among those the
second one calls, that is refused or a coroutine function. -/
structure Paired (tested coroutine : Hooks σ → Bool) (sync async : Run σ (Except PyError α))
    (called toCall : List (Hooks σ × ℕ)) : Prop where
  same : toCall.find? (fun x => tested x.1 || coroutine x.1) = none →
    called = toCall ∧ sync = async
  refuses : ∀ x, toCall.find? (fun x => tested x.1 || coroutine x.1) = some x →
    tested x.1 = true → sync.outcome = .ok (.error mismatchedSync) ∧
      ∀ y ∈ called, tested y.1 = false ∧ coroutine y.1 = false
  skips : ∀ x, toCall.find? (fun x => tested x.1 || coroutine x.1) = some x →
    tested x.1 = false → x ∈ called

namespace Paired
variable {sync async : Run σ (Except PyError α)} {called toCall : List (Hooks σ × ℕ)} {m : Hooks σ}
  {i : ℕ}

theorem nil (d : Run σ (Except PyError α)) : Paired tested coroutine d d [] [] :=
  ⟨fun _ => ⟨rfl, rfl⟩, fun x h => by simp at h, fun x h => by simp at h⟩

theorem refused (hm : tested m = true) (hsync : sync.outcome = .ok (.error mismatchedSync)) :
    Paired tested coroutine sync async [] ((m, i) :: toCall) := by
  have hfirst : ((m, i) :: toCall).find? (fun x => tested x.1 || coroutine x.1) = some (m, i) := by
    simp [hm]
  refine ⟨fun h => ?_, fun x h hx => ⟨hsync, by simp⟩, fun x h hx => ?_⟩
  · simp [hfirst] at h
  · obtain rfl := Option.some.inj (hfirst.symm.trans h)
    simp [hm] at hx

theorem skipped (hm : tested m = false) (hcoroutine : coroutine m = true) :
    Paired tested coroutine sync async ((m, i) :: called) ((m, i) :: toCall) := by
  have hfirst : ((m, i) :: toCall).find? (fun x => tested x.1 || coroutine x.1) = some (m, i) := by
    simp [hcoroutine]
  refine ⟨fun h => ?_, fun x h hx => ?_, fun x h _ => ?_⟩
  · simp [hfirst] at h
  · obtain rfl := Option.some.inj (hfirst.symm.trans h)
    simp [hm] at hx
  · obtain rfl := Option.some.inj (hfirst.symm.trans h)
    exact List.mem_cons_self

theorem both (hm : tested m = false) (hplain : coroutine m = false)
    (h : Paired tested coroutine sync async called toCall) :
    Paired tested coroutine sync async ((m, i) :: called) ((m, i) :: toCall) := by
  have hrest : ((m, i) :: toCall).find? (fun x => tested x.1 || coroutine x.1) =
      toCall.find? (fun x => tested x.1 || coroutine x.1) := by
    simp [hm, hplain]
  refine ⟨fun hnone => ?_, fun x hx htested => ?_, fun x hx htested => ?_⟩
  · obtain ⟨hcalls, hruns⟩ := h.same (hrest ▸ hnone)
    exact ⟨by rw [hcalls], hruns⟩
  · obtain ⟨houtcome, hcalls⟩ := h.refuses x (hrest ▸ hx) htested
    refine ⟨houtcome, fun y hy => ?_⟩
    obtain rfl | hy := List.mem_cons.mp hy
    · exact ⟨hm, hplain⟩
    · exact hcalls y hy
  · exact List.mem_cons_of_mem _ (h.skips x (hrest ▸ hx) htested)

theorem map (f : Run σ (Except PyError α) → Run σ (Except PyError β))
    (hf : ∀ d, d.outcome = .ok (.error mismatchedSync) →
      (f d).outcome = .ok (.error mismatchedSync))
    (h : Paired tested coroutine sync async called toCall) :
    Paired tested coroutine (f sync) (f async) called toCall :=
  ⟨fun hnone => ⟨(h.same hnone).1, by rw [(h.same hnone).2]⟩,
    fun x hx htested => ⟨hf _ (h.refuses x hx htested).1, (h.refuses x hx htested).2⟩, h.skips⟩

theorem bind {m m' : Exec σ (Except PyError α)} {k : Except PyError α → Exec σ (Except PyError β)}
    {r : Scope} {s : State σ}
    (hk : ∀ t, (k (.error mismatchedSync) r t).outcome = .ok (.error mismatchedSync))
    (h : Paired tested coroutine (m r s) (m' r s) called toCall) :
    Paired tested coroutine ((m >>= k) r s) ((m' >>= k) r s) called toCall := by
  have hrefused : ∀ m : Exec σ (Except PyError α),
      (m r s).outcome = .ok (.error mismatchedSync) →
        ((m >>= k) r s).outcome = .ok (.error mismatchedSync) := by
    intro m hm
    rw [Comp.bind_ok hm]
    exact hk _
  exact h.map (fun d => ((fun _ _ => d : Exec σ (Except PyError α)) >>= k) r s)
    fun d hd => hrefused (fun _ _ => d) hd

end Paired

theorem hookCalls_refused {refuse : Hooks σ → Bool} {hook : Hooks σ → Hook σ α} {m : Hooks σ}
    (h : refuse m = true) (i : ℕ) (xs : List (Middleware σ × ℕ)) (a : α) (store : σ) :
    hookCalls refuse hook ((.user m, i) :: xs) a store = [] := by
  simp [hookCalls, loopCalls, h]

theorem hookCalls_user (refuse : Hooks σ → Bool) {hook : Hooks σ → Hook σ α} {m : Hooks σ}
    (h : refuse m = false) (i : ℕ) (xs : List (Middleware σ × ℕ)) (a : α) (store : σ) :
    hookCalls refuse hook ((.user m, i) :: xs) a store = (m, i) ::
      match ((hook m).call store a).2 with
      | some _ => []
      | none => hookCalls refuse hook xs ((hook m).call store a).1.2
          ((hook m).call store a).1.1 :=
  if_neg (by simp [h])

theorem paired_hookLoop {refuse refuse' : Hooks σ → Bool} {hook hook' : Hooks σ → Hook σ α}
    (hsync : ∀ m, refuse m = tested m)
    (hcalled : ∀ m, tested m = false → coroutine m = false → hook m = hook' m)
    (hasync : ∀ m, refuse' m = false) (xs : List (Middleware σ × ℕ)) (a : α) (r : Scope)
    (s : State σ) :
    Paired tested coroutine (hookLoop refuse hook (xs.map Prod.fst) a r s)
      (hookLoop refuse' hook' (xs.map Prod.fst) a r s) (hookCalls refuse hook xs a s.store)
      (hookCalls refuse' hook' xs a s.store) := by
  induction xs generalizing a s with
  | nil => exact Paired.nil _
  | cons x xs ih =>
    obtain ⟨m, i⟩ := x
    cases m with
    | logger => exact ih a s
    | user m =>
      rw [List.map_cons, hookCalls_user refuse' (hasync m)]
      cases htested : tested m with
      | true =>
        have hrefuse : refuse m = true := (hsync m).trans htested
        rw [hookCalls_refused hrefuse]
        exact Paired.refused htested (by simp [hookLoop, hrefuse])
      | false =>
        have hrefuse : refuse m = false := (hsync m).trans htested
        rw [hookCalls_user refuse hrefuse]
        cases hcoroutine : coroutine m with
        | true => exact Paired.skipped htested hcoroutine
        | false =>
          rw [hookLoop_user hrefuse, hookLoop_user (hasync m), hcalled m htested hcoroutine]
          cases ((hook' m).call s.store a).2 with
          | some e => exact Paired.both htested hcoroutine (Paired.nil _)
          | none => exact Paired.both htested hcoroutine (ih _ _)

end Paired

theorem returned_ok {m : Exec σ (Option PyError)} {r : Scope} {s : State σ} {err : Option PyError}
    (h : (m r s).outcome = .ok err) :
    returned m r s =
      ⟨.ok (err.elim (.ok ()) .error), (m r s).state, (m r s).log⟩ := by
  rw [returned, Comp.bind_ok h]
  cases err <;> simp [Done.after]

theorem returned_next (flavor : Flavor) {m : Middleware σ} {i : ℕ} {ms : List (Middleware σ)}
    {r : Scope} {s : State σ} (h : (beforeExecutionOf flavor i m r s).outcome = .ok none) :
    returned (beforeExecutionFrom flavor i (m :: ms)) r s =
      (returned (beforeExecutionFrom flavor (i + 1) ms) r
        (beforeExecutionOf flavor i m r s).state).after (beforeExecutionOf flavor i m r s).log := by
  obtain ⟨-, -, err, hrest, -⟩ :=
    beforeExecutionFrom_done flavor (i + 1) ms r (beforeExecutionOf flavor i m r s).state
  have hbind : beforeExecutionFrom flavor i (m :: ms) r s =
      (beforeExecutionFrom flavor (i + 1) ms r (beforeExecutionOf flavor i m r s).state).after
        (beforeExecutionOf flavor i m r s).log := by
    rw [beforeExecutionFrom, Comp.bind_ok h]
  rw [returned_ok hrest, returned_ok (by rw [hbind]; exact hrest), hbind]
  rfl

theorem returned_failed (flavor : Flavor) {m : Middleware σ} {i : ℕ} {ms : List (Middleware σ)}
    {r : Scope} {s : State σ} {e : PyError}
    (h : (beforeExecutionOf flavor i m r s).outcome = .ok (some e)) :
    returned (beforeExecutionFrom flavor i (m :: ms)) r s =
      ⟨.ok (.error e), (beforeExecutionOf flavor i m r s).state,
        (beforeExecutionOf flavor i m r s).log⟩ := by
  have hbind : beforeExecutionFrom flavor i (m :: ms) r s =
      ⟨.ok (some e), (beforeExecutionOf flavor i m r s).state,
        (beforeExecutionOf flavor i m r s).log⟩ := by
    rw [beforeExecutionFrom, Comp.bind_ok h]
    simp [Done.after]
  rw [returned_ok (by rw [hbind]), hbind]
  rfl

theorem beforeExecutionOf_plain {m : Hooks σ} (h : m.beforeExecution.isCoroutine = false) (i : ℕ) :
    beforeExecutionOf .sync i (.user m) = beforeExecutionOf .async i (.user m) := by
  funext r s
  simp [beforeExecutionOf, h]

theorem paired_beforeExecutionFrom {coroutine : Hooks σ → Bool}
    (hcoroutine : ∀ m, coroutine m = m.beforeExecution.isCoroutine) (ms : List (Middleware σ))
    (i : ℕ) (r : Scope) (s : State σ) :
    Paired coroutine coroutine (returned (beforeExecutionFrom .sync i ms) r s)
      (returned (beforeExecutionFrom .async i ms) r s)
      (hookCalls coroutine Hooks.beforeExecution (ms.zipIdx i) () s.store)
      (hookCalls (fun _ => false) Hooks.beforeExecution (ms.zipIdx i) () s.store) := by
  induction ms generalizing i s with
  | nil => exact Paired.nil _
  | cons m ms ih =>
    rw [List.zipIdx_cons]
    cases m with
    | logger =>
      rw [returned_next .sync rfl, returned_next .async rfl]
      exact (ih (i + 1) _).map (Done.after _) fun d hd => hd
    | user m =>
      rw [hookCalls_user (fun _ => false) rfl]
      cases hm : coroutine m with
      | true =>
        have hflag : m.beforeExecution.isCoroutine = true := hcoroutine m ▸ hm
        rw [hookCalls_refused hm]
        refine Paired.refused hm ?_
        rw [returned_failed .sync (by simp [beforeExecutionOf, hflag]; rfl)]
      | false =>
        have hplain : m.beforeExecution.isCoroutine = false := hcoroutine m ▸ hm
        rw [hookCalls_user coroutine hm]
        refine Paired.both hm hm ?_
        have houtcome : (beforeExecutionOf .async i (.user m) r s).outcome =
            .ok (m.beforeExecution.call s.store ()).2 := rfl
        cases herr : (m.beforeExecution.call s.store ()).2 with
        | some e =>
          rw [herr] at houtcome
          rw [returned_failed .async houtcome, returned_failed .sync (by
            rw [beforeExecutionOf_plain hplain, houtcome]), beforeExecutionOf_plain hplain]
          exact Paired.nil _
        | none =>
          rw [herr] at houtcome
          rw [returned_next .async houtcome, returned_next .sync (by
            rw [beforeExecutionOf_plain hplain, houtcome]), beforeExecutionOf_plain hplain]
          exact (ih (i + 1) _).map (Done.after _) fun d hd => hd

/-! ## The pairs -/

namespace Method
variable (ms : List (Middleware σ)) (r : Scope) (s : State σ)

theorem refuse_sync (method : Method) :
    (method.refuse .sync : Hooks σ → Bool) = method.isRefused := by
  funext m
  simp [refuse]

theorem refuse_async (method : Method) :
    (method.refuse .async : Hooks σ → Bool) = fun _ => false := by
  funext m
  simp [refuse]

theorem paired_own (method : Method) (hook : Hooks σ → Hook σ α)
    (hown : ∀ m, (hook m).isCoroutine = method.isCoroutine m)
    (hrefused : (method.isRefused : Hooks σ → Bool) = method.isCoroutine)
    (xs : List (Middleware σ × ℕ)) (a : α) :
    Paired method.isRefused method.isCoroutine
      (hookLoop (refuseCoroutine .sync hook) hook (xs.map Prod.fst) a r s)
      (hookLoop (refuseCoroutine .async hook) hook (xs.map Prod.fst) a r s)
      (hookCalls (method.refuse .sync) hook xs a s.store)
      (hookCalls (method.refuse .async) hook xs a s.store) := by
  have hsync : refuseCoroutine .sync hook = method.refuse .sync := by
    funext m
    simp [refuseCoroutine, refuse, hown, hrefused]
  have hasync : refuseCoroutine .async hook = method.refuse .async := by
    funext m
    simp [refuseCoroutine, refuse]
  rw [hsync, hasync]
  exact paired_hookLoop (fun m => congrFun (refuse_sync method) m) (fun _ _ _ => rfl)
    (fun m => congrFun (refuse_async method) m) xs a r s

theorem paired_other (method : Method) (hook : Hooks σ → Hook σ α)
    (test : Flavor → Hooks σ → Bool)
    (hown : ∀ m, (hook m).isCoroutine = method.isCoroutine m)
    (htest : ∀ flavor, test flavor = method.refuse flavor)
    (xs : List (Middleware σ × ℕ)) (a : α) :
    Paired method.isRefused method.isCoroutine
      (hookLoop (test .sync) (fun m => (hook m).called .sync) (xs.map Prod.fst) a r s)
      (hookLoop (test .async) (fun m => (hook m).called .async) (xs.map Prod.fst) a r s)
      (hookCalls (method.refuse .sync) (fun m => (hook m).called .sync) xs a s.store)
      (hookCalls (method.refuse .async) (fun m => (hook m).called .async) xs a s.store) := by
  rw [htest, htest]
  refine paired_hookLoop (fun m => congrFun (refuse_sync method) m) (fun m _ hm => ?_)
    (fun m => congrFun (refuse_async method) m) xs a r s
  have hplain : (hook m).isCoroutine = false := (hown m).trans hm
  rw [Hook.called_plain hplain, Hook.called_plain hplain]

theorem paired_transformItem {result : CallResult} {item : CallItem}
    (hitem : item.isEmpty = false) :
    Paired (transformOutput result).isRefused (transformOutput result).isCoroutine
      (transformItem .sync ms item r s) (transformItem .async ms item r s)
      (hookCalls ((transformOutput result).refuse .sync) (fun m => m.transformOutput.called .sync)
        ms.zipIdx.reverse item.toTransform s.store)
      (hookCalls ((transformOutput result).refuse .async)
        (fun m => m.transformOutput.called .async) ms.zipIdx.reverse item.toTransform s.store) := by
  have h := paired_other r s (transformOutput result) Hooks.transformOutput
    (fun flavor m => flavor = .sync ∧ m.isMiddleware) (fun _ => rfl) (fun _ => rfl)
    ms.zipIdx.reverse item.toTransform
  rw [List.map_reverse, List.zipIdx_map_fst] at h
  rw [transformItem, transformItem, if_neg (by simp [hitem]), if_neg (by simp [hitem])]
  exact h.bind fun t => rfl

theorem paired_transformOutput (result : CallResult) :
    Paired (transformOutput result).isRefused (transformOutput result).isCoroutine
      (MiddlewareManager.transformOutput .sync ms result r s)
      (MiddlewareManager.transformOutput .async ms result r s)
      ((transformOutput result).calls .sync ms s) ((transformOutput result).calls .async ms s) := by
  obtain ⟨item, multi⟩ := result
  simp only [calls, shown, MiddlewareManager.transformOutput]
  rcases multi with - | (- | ⟨item', - | ⟨item'', rest⟩⟩)
  · cases hempty : item.isEmpty with
    | true =>
      simp only [transformItem, hempty, if_true]
      exact Paired.nil _
    | false =>
      simp only [Bool.false_eq_true, if_false]
      exact (paired_transformItem ms r s hempty).bind fun t => rfl
  · exact Paired.nil _
  · cases hempty : item'.isEmpty with
    | true =>
      simp only [transformItem, hempty, if_true]
      exact Paired.nil _
    | false =>
      simp only [hempty, Bool.false_eq_true, if_false]
      exact (paired_transformItem ms r s hempty).bind fun t => rfl
  · exact Paired.nil _

theorem paired (method : Method) :
    Paired method.isRefused method.isCoroutine (method.call .sync ms r s)
      (method.call .async ms r s) (method.calls .sync ms s) (method.calls .async ms s) := by
  have hfst : ms.zipIdx.map Prod.fst = ms := List.zipIdx_map_fst 0 ms
  have hreverse : ms.zipIdx.reverse.map Prod.fst = ms.reverse := by
    rw [List.map_reverse, hfst]
  cases method with
  | afterExecution =>
    have h := paired_own r s .afterExecution Hooks.afterExecution (fun _ => rfl) rfl
      ms.zipIdx.reverse ()
    rwa [hreverse] at h
  | afterSendEvents result =>
    have h := paired_other r s (.afterSendEvents result) Hooks.afterSendEvents
      (fun flavor => refuseCoroutine flavor Hooks.afterExecution) (fun _ => rfl) (fun _ => rfl)
      ms.zipIdx.reverse result
    rwa [hreverse] at h
  | beforeExecution =>
    simp only [call, calls, refuse_sync, refuse_async]
    cases hcalled : s.beforeExecutionCalled with
    | true =>
      have hrun : ∀ flavor, returned (MiddlewareManager.beforeExecution flavor ms) r s =
          ⟨.ok (.ok ()), s, []⟩ := by
        intro flavor
        rw [returned_ok (by rw [beforeExecution_again hcalled]), beforeExecution_again hcalled]
        rfl
      rw [hrun, hrun]
      exact Paired.nil _
    | false =>
      have hrun : ∀ flavor, returned (MiddlewareManager.beforeExecution flavor ms) r s =
          returned (beforeExecutionFrom flavor 0 ms) r
            { s with beforeExecutionCalled := true } := by
        intro flavor
        obtain ⟨-, -, err, hfrom, -⟩ :=
          beforeExecutionFrom_done flavor 0 ms r { s with beforeExecutionCalled := true }
        rw [returned_ok hfrom, returned_ok (by rw [beforeExecution_first hcalled]; exact hfrom),
          beforeExecution_first hcalled]
      rw [hrun, hrun]
      exact paired_beforeExecutionFrom (fun _ => rfl) ms 0 r
        { s with beforeExecutionCalled := true }
  | beforeResponse =>
    have h := paired_own r s .beforeResponse Hooks.beforeResponse (fun _ => rfl) rfl ms.zipIdx ()
    rwa [hfst] at h
  | beforeSendEvents events =>
    have h := paired_own r s (.beforeSendEvents events) Hooks.beforeSendEvents (fun _ => rfl) rfl
      ms.zipIdx events
    rwa [hfst] at h
  | transformInput ctx steps =>
    have h := paired_own r s (.transformInput ctx steps) Hooks.transformInput (fun _ => rfl) rfl
      ms.zipIdx (ctx, steps)
    rwa [hfst] at h
  | transformOutput result => exact paired_transformOutput ms r s result

/-- A synchronous method keeps faith exactly when its test is right for the
hooks that it has to call. -/
theorem faithful_iff (method : Method) :
    Faithful method ms r s ↔ method.TestsRight ms s := by
  have hpaired := paired ms r s method
  constructor
  · intro h x hx
    have hmem := List.mem_of_find?_eq_some hx
    have hflagged := List.find?_some hx
    have htested : method.isRefused x.1 = true := by
      by_contra hne
      have htested : method.isRefused x.1 = false := by simpa using hne
      have hcoroutine : method.isCoroutine x.1 = true := by simpa [htested] using hflagged
      exact (h.refuses x hmem hcoroutine).1 (hpaired.skips x hx htested)
    refine ⟨htested, ?_⟩
    by_contra hnone
    have hplain : ∀ y ∈ method.calls .async ms s, method.isCoroutine y.1 = false := by
      intro y hy
      by_contra hy'
      exact hnone ⟨y, hy, by simpa using hy'⟩
    have hcalled := ((hpaired.refuses x hx htested).2 x ((h.same hplain).1 ▸ hmem)).1
    rw [htested] at hcalled
    cases hcalled
  · intro h
    constructor
    · intro hplain
      refine hpaired.same ?_
      cases hfirst : (method.calls .async ms s).find?
          (fun x => method.isRefused x.1 || method.isCoroutine x.1) with
      | none => rfl
      | some x =>
        obtain ⟨-, y, hy, hcoroutine⟩ := h x hfirst
        rw [hplain y hy] at hcoroutine
        cases hcoroutine
    · intro x hx hcoroutine
      obtain ⟨z, hz⟩ : ∃ z, (method.calls .async ms s).find?
          (fun x => method.isRefused x.1 || method.isCoroutine x.1) = some z := by
        rw [← Option.isSome_iff_exists, List.find?_isSome]
        exact ⟨x, hx, by simp [hcoroutine]⟩
      obtain ⟨houtcome, hcalled⟩ := hpaired.refuses z hz (h z hz).1
      refine ⟨fun hmem => ?_, houtcome⟩
      have hplain := (hcalled x hmem).2
      rw [hcoroutine] at hplain
      cases hplain

theorem testsRight_own {method : Method}
    (h : (method.isRefused : Hooks σ → Bool) = method.isCoroutine) : method.TestsRight ms s := by
  intro x hx
  have hflagged : method.isCoroutine x.1 = true := by
    simpa [h] using List.find?_some hx
  exact ⟨by rw [h, hflagged], x, List.mem_of_find?_eq_some hx, hflagged⟩

end Method

end MiddlewareManager

/-! Hooks that are coroutine functions where the tests do not look. -/

namespace Sample
open MiddlewareManager

/-- A `MiddlewareSync` with two coroutine functions. -/
def unawaited : Hooks Unit where
  transformOutput :=
    ⟨true, fun s result => ((s, { result with output := some (.str "sealed") }), none)⟩
  afterSendEvents := ⟨true, fun s result => ((s, result), none)⟩

/-- A `Middleware` with one, which no loop of a send or an output calls. -/
def mixed : Hooks Unit where
  isMiddleware := true
  afterExecution := ⟨true, fun s a => ((s, a), none)⟩

def fresh : State Unit := ⟨∅, fun _ => 0, false, false, fun _ => none, ()⟩

def sent : Method := .afterSendEvents ⟨none, ["01"]⟩

def output : Method := .transformOutput ⟨⟨none, some (.str "plain"), none⟩, none⟩

end Sample

namespace MiddlewareManager
open Sample

/-- Two methods never await a hook, and refuse a middleware whose hooks for
them are plain. -/
theorem tests_not_faithful :
    ¬ sent.Faithful [.logger, .user unawaited] .top fresh ∧
      ¬ output.Faithful [.logger, .user unawaited] .top fresh ∧
      ¬ sent.Faithful [.logger, .user mixed] .top fresh ∧
      ¬ output.Faithful [.logger, .user mixed] .top fresh := by
  have hsent : sent.calls .async [.logger, .user unawaited] fresh = [(unawaited, 1)] := rfl
  have houtput : output.calls .async [.logger, .user unawaited] fresh = [(unawaited, 1)] := rfl
  have hplain : ∀ x ∈ [(mixed, 1)],
      sent.isCoroutine x.1 = false ∧ output.isCoroutine x.1 = false := by
    intro x hx
    obtain rfl := List.mem_singleton.mp hx
    exact ⟨rfl, rfl⟩
  refine ⟨fun h => ?_, fun h => ?_, fun h => ?_, fun h => ?_⟩
  · cases (h.refuses (unawaited, 1) (hsent ▸ List.mem_cons_self) rfl).2
  · cases (h.refuses (unawaited, 1) (houtput ▸ List.mem_cons_self) rfl).2
  · cases (h.same fun x hx => (hplain x hx).1).1
  · cases (h.same fun x hx => (hplain x hx).2).1

end MiddlewareManager
end Inngest
