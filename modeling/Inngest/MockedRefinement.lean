import Inngest.FlowFrontier
import Inngest.Mocked

/-!
# Mocked runs and direct execution

For a flow whose step IDs are distinct, a call of the function is a walk. The
memos of a mocked run are a set of finished steps of the direct run, and what is
planned lies on its frontier, so each turn makes progress on the direct run.
-/

set_option autoImplicit false

namespace Inngest
open ServerLib Errors StepLib Effect Engine

/-! ## Calls without middleware -/

section Logger
variable {σ : Type} {env : Env σ} {r : Scope} {s : State σ}

structure Untouched (s t : State σ) (l : List Mark) : Prop where
  memos : t.memos = s.memos
  counts : t.counts = s.counts
  store : t.store = s.store
  calls : returned l = []

theorem beforeExecution_logger (flavor : Flavor) :
    ∃ t l, MiddlewareManager.beforeExecution flavor [.logger] r s = ⟨.ok none, t, l⟩ ∧
      Untouched s t l := by
  cases hcalled : s.beforeExecutionCalled with
  | true =>
    rw [MiddlewareManager.beforeExecution_again hcalled]
    exact ⟨s, [], rfl, rfl, rfl, rfl, rfl⟩
  | false =>
    rw [MiddlewareManager.beforeExecution_first hcalled]
    exact ⟨_, _, rfl, rfl, rfl, rfl, rfl⟩

theorem prepare_logger (h : env.middleware = [.logger]) (ctx : Context) :
    ∃ t l, Execution.prepare env ctx r s = ⟨.ok (.ok ctx), t, l⟩ ∧ Untouched s t l := by
  have hinput : MiddlewareManager.transformInput env.flavor env.middleware ctx s.memos r s =
      ⟨.ok (.ok (ctx, s.memos)), s, []⟩ := by
    rw [h]
    rfl
  rw [Execution.prepare, Comp.get_bind, Comp.bind_ok (by rw [hinput]), hinput]
  simp only [Done.after_nil, Comp.modify_bind]
  by_cases hsize : Dict.size s.memos = 0
  · obtain ⟨t, l, hbefore, hframe⟩ := beforeExecution_logger (r := r) (s := s) env.flavor
    refine ⟨t, l, ?_, hframe⟩
    rw [if_pos hsize, h, Comp.bind_ok (by rw [hbefore]), hbefore]
    simp [Done.after]
  · rw [if_neg hsize]
    exact ⟨s, [], rfl, rfl, rfl, rfl, rfl⟩

theorem finish_logger (h : env.middleware = [.logger]) {o : Outcome PyError Interrupt Json}
    {result : CallResult} (hresult : Execution.resultOf none o = some result) :
    Execution.finish env o r s = ⟨.ok result, s, []⟩ := by
  have hafter : ∀ result, Execution.afterExecutionThen env result r s = ⟨.ok result, s, []⟩ := by
    intro result
    rw [Execution.afterExecutionThen, h]
    rfl
  rcases o with output | e | responses | stepId | _ <;> cases hresult
  · exact hafter _
  · rfl
  · exact hafter _
  · rfl

theorem transformItem_logger (flavor : Flavor) (item : CallItem) :
    MiddlewareManager.transformItem flavor [.logger] item r s = ⟨.ok (.ok item), s, []⟩ := by
  rw [MiddlewareManager.transformItem]
  split
  · rfl
  · have hhooks : MiddlewareManager.transformOutputHooks flavor [.logger] item.toTransform r s =
        ⟨.ok (.ok item.toTransform), s, []⟩ := rfl
    rw [Comp.bind_ok (by rw [hhooks]), hhooks]
    simp [item.update_toTransform]

theorem afterRun_logger (h : env.middleware = [.logger]) {result : CallResult}
    (hresult : result.multi ≠ some []) :
    Function.afterRun env result r s = ⟨.ok result, s, []⟩ := by
  have houtput : MiddlewareManager.transformOutput env.flavor [.logger] result r s =
      ⟨.ok (.ok result), s, []⟩ := by
    obtain ⟨item, _ | _ | ⟨first, _ | ⟨second, rest⟩⟩⟩ := result
    · exact MiddlewareManager.transformOutput_none rfl (transformItem_logger _ _)
    · exact absurd rfl hresult
    · exact MiddlewareManager.transformOutput_one rfl (transformItem_logger _ _)
    · exact MiddlewareManager.transformOutput_several rfl
  rw [Function.afterRun, h, Comp.bind_ok (by rw [houtput]), houtput]
  rfl

theorem call_logger (h : env.middleware = [.logger]) (hserializer : env.serializer = none)
    (fn : Function σ) (ctx : Context) :
    ∃ t l, Untouched s t l ∧ ∀ result,
      Execution.resultOf none ((fn.handler ctx).interp env r t).outcome = some result →
      result.multi ≠ some [] →
      fn.call env fn.id ctx r s = ⟨.ok result, ((fn.handler ctx).interp env r t).state,
        l ++ ((fn.handler ctx).interp env r t).log⟩ := by
  obtain ⟨t, l, hprepare, hframe⟩ := prepare_logger (r := r) (s := s) h ctx
  refine ⟨t, l, hframe, fun result hresult hmulti => ?_⟩
  have hserialized : Step.serialized env fn.outputType ((fn.handler ctx).interp env r t).outcome =
      ((fn.handler ctx).interp env r t).outcome := by
    cases ((fn.handler ctx).interp env r t).outcome <;>
      simp [Step.serialized, Env.serialize, hserializer]
  have hhandler : Execution.callHandler env ((fn.handler ctx).interp env) fn.outputType r t =
      ⟨.ok result, ((fn.handler ctx).interp env r t).state,
        ((fn.handler ctx).interp env r t).log⟩ := by
    rw [Execution.callHandler_eq, hserialized, finish_logger h hresult]
    simp [Done.after]
  have hrun : Execution.run env ctx (fun ctx => (fn.handler ctx).interp env) fn.outputType r s =
      ⟨.ok result, ((fn.handler ctx).interp env r t).state,
        l ++ ((fn.handler ctx).interp env r t).log⟩ := by
    rw [Execution.run_eq, Comp.bind_ok (by rw [hprepare]), hprepare]
    simp only [hhandler, Done.after]
  have hselect : fn.select fn.id = .ok (fn.handler, fn.outputType) := if_pos rfl
  rw [Function.call, hselect]
  simp only
  rw [Comp.bind_ok (by rw [hrun]), hrun]
  simp only [afterRun_logger h hmulti, Done.after, List.append_nil]

end Logger

namespace Mocked

structure Bare (mock : Mock (List Seen)) (p : Context → Flow) : Prop where
  handler : mock.fn.opts.handler = fun ctx => (p ctx).body
  client : mock.middleware = []
  fn : mock.fn.opts.middleware = []
  serializer : mock.serializer = none
  stubs : mock.stubs = ∅

namespace Triggered
variable {mock : Triggered (List Seen)} {p : Context → Flow} {V : View}
  {vars : Vars (List Seen)} {stepId : Option String}

theorem of_env (h : Bare mock.toMock p) (hhash : V.hash = mock.hash) (htarget : V.target = stepId)
    (attempt : ℕ) : V.Of (mock.env attempt stepId) :=
  ⟨hhash.symm, htarget.symm, by simp [env, h.client, h.fn, MiddlewareManager.fromClient],
    h.serializer, rfl⟩

theorem resultOf_walk (q : Flow) (seen : List Seen) :
    ∃ result, Execution.resultOf none (q.walk V () seen).outcome = some result ∧
      result.multi ≠ some [] := by
  have hkeeps := View.keeps_walk (V := V) q () seen
  cases ho : (q.walk V () seen).outcome with
  | ok v => exact ⟨_, rfl, by simp [Execution.unlessError, CallResult.ofOutput]⟩
  | exc e => exact ⟨_, rfl, by simp [CallResult.ofError]⟩
  | intr i =>
    cases i with
    | response responses =>
      have hne := (hkeeps.backed responses (by rw [ho]; rfl)).1
      exact ⟨_, rfl, by simpa [Execution.unlessError, CallResult.fromResponses] using hne⟩
    | skip id => exact ⟨_, rfl, by simp [CallResult.ofError]⟩
    | nested => exact absurd (by rw [ho]; rfl) hkeeps.nested

theorem call_walk (vars : Vars (List Seen)) (stepId : Option String) (h : Bare mock.toMock p)
    (hp : (p (mock.context vars.attempt)).Distinct)
    (hhash : V.hash = mock.hash) (htarget : V.target = stepId)
    (hshows : V.Shows (p (mock.context vars.attempt)).Uses (mock.initial vars) vars.store) :
    ∃ result, Execution.resultOf none
        ((p (mock.context vars.attempt)).walk V () vars.store).outcome = some result ∧
      (mock.call vars stepId).outcome = .ok result ∧
      (mock.call vars stepId).state.store =
        ((p (mock.context vars.attempt)).walk V () vars.store).state ∧
      returned (mock.call vars stepId).log =
        ((p (mock.context vars.attempt)).walk V () vars.store).log := by
  have henv := of_env h hhash htarget vars.attempt
  obtain ⟨t, l, hframe, hcall⟩ := call_logger (r := Scope.top) (s := mock.initial vars)
    henv.middleware henv.serializer mock.fn.fn (mock.context vars.attempt)
  have hcode : (mock.fn.fn.handler (mock.context vars.attempt)) =
      (p (mock.context vars.attempt)).body := congrFun h.handler _
  rw [hcode] at hcall
  have hbody := View.simulates_flow henv hp Scope.top t vars.store (fun _ => False) rfl
    (fun _ _ => id) ⟨hframe.store,
      fun id hid => hframe.counts ▸ hshows.fresh id (by simpa using hid),
      fun id hid => hframe.memos ▸ hshows.memos id (by simpa using hid),
      fun id id' hid hid' => hshows.injective id id' (by simpa using hid) (by simpa using hid')⟩
  obtain ⟨result, hresult, hmulti⟩ := resultOf_walk (V := V) (p (mock.context vars.attempt))
    vars.store
  refine ⟨result, hresult, ?_⟩
  have hdone : mock.call vars stepId = _ := hcall result (hbody.outcome ▸ hresult) hmulti
  rw [hdone]
  exact ⟨rfl, hbody.remaining.store, by simp [hframe.calls, hbody.calls]⟩

/-! ## What a turn takes in -/

structure Discovered (hash : String → String) (qs : List FlowStep) (vars vars' : Vars (List Seen)) :
    Prop where
  attempt : vars'.attempt = vars.attempt
  store : vars'.store = vars.store
  log : vars'.log = vars.log
  nodup : vars.planned.Nodup → vars'.planned.Nodup
  planned : ∀ k, k ∈ vars'.planned ↔
    k ∈ vars.planned ∨ ∃ id v, FlowStep.run id v ∈ qs ∧ hash id = k
  lookup : ∀ k, vars'.steps.lookup k = vars.steps.lookup k ∨
    vars'.steps.lookup k = some .null ∧ ∃ id t, FlowStep.sleep id t ∈ qs ∧ hash id = k
  sleeps : ∀ id t, FlowStep.sleep id t ∈ qs → vars'.steps.lookup (hash id) = some .null

theorem Discovered.append {hash : String → String} {qs qs' : List FlowStep}
    {vars vars' vars'' : Vars (List Seen)} (h : Discovered hash qs vars vars')
    (h' : Discovered hash qs' vars' vars'') : Discovered hash (qs ++ qs') vars vars'' where
  attempt := h'.attempt.trans h.attempt
  store := h'.store.trans h.store
  log := h'.log.trans h.log
  nodup hnodup := h'.nodup (h.nodup hnodup)
  planned k := by
    rw [h'.planned, h.planned, or_assoc]
    simp only [List.mem_append, or_and_right, exists_or]
  lookup k := by
    rcases h'.lookup k with hk | ⟨hk, id, t, hq, hid⟩
    · rw [hk]
      refine (h.lookup k).imp_right ?_
      rintro ⟨hnull, id, t, hq, hid⟩
      exact ⟨hnull, id, t, List.mem_append_left _ hq, hid⟩
    · exact .inr ⟨hk, id, t, List.mem_append_right _ hq, hid⟩
  sleeps id t hq := by
    rcases List.mem_append.mp hq with hq | hq
    · rcases h'.lookup (hash id) with hk | ⟨hk, -⟩
      · rw [hk]
        exact h.sleeps id t hq
      · exact hk
    · exact h'.sleeps id t hq

theorem absorbItem_discovered (hstubs : mock.stubs = ∅) (mode : ParallelMode) (q : FlowStep)
    (vars : Vars (List Seen)) :
    ∃ vars', mock.absorbItem (CallResult.itemOf ((V.discovered q).setParallelMode mode)) vars =
      .goesOn vars' ∧ Discovered V.hash [q] vars vars' := by
  cases q with
  | run id v =>
    refine ⟨{ vars with planned := vars.planned.insert (V.hash id) }, ?_, rfl, rfl, rfl,
      List.Nodup.insert, fun k => ?_, fun _ => .inl rfl, by simp⟩
    · cases mode <;> simp [absorbItem, CallResult.itemOf, StepResponse.setParallelMode,
        StepInfo.setParallelMode, View.discovered, StepResponse.ofStep, FlowStep.info, hstubs]
    · simp [or_comm, eq_comm]
  | sleep id t =>
    refine ⟨vars.remember (V.hash id) .null, ?_, rfl, rfl, rfl, fun h => h, by simp [Vars.remember],
      fun k => ?_, by simp [Vars.remember]⟩
    · cases mode <;> simp [absorbItem, CallResult.itemOf, StepResponse.setParallelMode,
        StepInfo.setParallelMode, View.discovered, StepResponse.ofStep, FlowStep.info, hstubs]
    · by_cases hk : k = V.hash id
      · subst hk
        exact .inr ⟨by simp [Vars.remember], id, t, by simp, rfl⟩
      · exact .inl (by simp [Vars.remember, hk])

theorem absorb_discovered (hstubs : mock.stubs = ∅) (mode : ParallelMode) (qs : List FlowStep)
    (vars : Vars (List Seen)) :
    ∃ vars', mock.absorb ((qs.map fun q => (V.discovered q).setParallelMode mode).map
      CallResult.itemOf) vars = .goesOn vars' ∧ Discovered V.hash qs vars vars' := by
  induction qs generalizing vars with
  | nil => exact ⟨vars, rfl, rfl, rfl, rfl, fun h => h, by simp, by simp, by simp⟩
  | cons q qs ih =>
    obtain ⟨vars₁, hitem, hd⟩ := absorbItem_discovered (V := V) hstubs mode q vars
    obtain ⟨vars₂, habsorb, hds⟩ := ih vars₁
    refine ⟨vars₂, ?_, hd.append hds⟩
    rw [List.map_cons, List.map_cons, absorb, hitem]
    exact habsorb

theorem absorb_targeted (hstubs : mock.stubs = ∅) (mode : ParallelMode) (id : String) (v : Json)
    (vars : Vars (List Seen)) :
    mock.absorb [CallResult.itemOf ((V.targeted (.run id v)).setParallelMode mode)] vars =
      .goesOn (vars.remember (V.hash id) v) := by
  cases mode <;> simp [absorb, absorbItem, CallResult.itemOf, StepResponse.setParallelMode,
    StepInfo.setParallelMode, View.targeted, FlowStep.info, hstubs]

end Triggered

/-! ## Mocked runs along a direct run -/

def handlerCall (hash : String → String) : FlowStep → Option (String × Json)
  | .run id value => some (hash id, value)
  | .sleep _ _ => none

/-- A mocked run that came to the end of a direct one: its result, what the code
saw in all the calls and then in the last one, and the handlers' calls. -/
structure Refined (hash : String → String) (out : Json) (steps : List FlowStep)
    (ended : Outcome PyError Interrupt Result × Vars (List Seen)) : Prop where
  result : ended.1 = .ok (Result.completed (some out))
  seen : ∀ e ∈ ended.2.store, ∃ s ∈ steps, s.sees = e
  inOrder : steps.map FlowStep.sees <:+ ended.2.store
  handlers : (returned ended.2.log).Perm (steps.filterMap (handlerCall hash))

def finished (hash : String → String) (steps : Dict Json) (id : String) : Bool :=
  (steps.lookup (hash id)).isSome

/-- A direct run whose values survive as memos, and hashes that tell the step
IDs apart. -/
structure Direct (mock : Mock (List Seen)) (q : Flow) (out : Json) (stages : List Stage) :
    Prop where
  distinct : q.Distinct
  follows : q.Follows out stages
  nodup : (stages.flatten.flatten.map FlowStep.id).Nodup
  uses : ∀ s ∈ stages.flatten.flatten, q.Uses s.id
  injective : ∀ id id', q.Uses id → q.Uses id' → mock.hash id = mock.hash id' → id = id'
  memos : ∀ s ∈ stages.flatten.flatten, StepMemos.memo mock.loads s.value = ⟨s.value, none⟩

/-- Every memo is a value of the direct run, what is planned lies on the
frontier, and the handlers were called of the finished steps, once each. -/
structure Along (mock : Mock (List Seen)) (stages : List Stage) (vars : Vars (List Seen)) :
    Prop where
  attempt : vars.attempt = 0
  recorded : ∀ k raw, vars.steps.lookup k = some raw →
    ∃ s ∈ stages.flatten.flatten, mock.hash s.id = k ∧ s.value = raw
  planned : ∀ k ∈ vars.planned, ∃ id v, mock.hash id = k ∧
    FlowStep.run id v ∈ frontier (finished mock.hash vars.steps) stages
  nodup : vars.planned.Nodup
  callsNodup : (returned vars.log).Nodup
  calls : ∀ x, x ∈ returned vars.log ↔ ∃ s ∈ stages.flatten.flatten,
    handlerCall mock.hash s = some x ∧ finished mock.hash vars.steps s.id = true
  seen : ∀ e ∈ vars.store, ∃ s ∈ stages.flatten.flatten, s.sees = e

def viewAlong (mock : Mock (List Seen)) (stages : List Stage) (vars : Vars (List Seen))
    (stepId : Option String) : View where
  memo id := (stages.flatten.flatten.find? fun s =>
    s.id = id ∧ finished mock.hash vars.steps s.id).map fun s => ⟨s.value, none⟩
  hash := mock.hash
  target := stepId

section Along
variable {mock : Triggered (List Seen)} {p : Context → Flow} {q : Flow} {out : Json}
  {stages : List Stage} {vars : Vars (List Seen)} {stepId : Option String}

theorem Direct.eq_of_id (hd : Direct mock.toMock q out stages) {s s' : FlowStep}
    (hs : s ∈ stages.flatten.flatten) (hs' : s' ∈ stages.flatten.flatten) (h : s.id = s'.id) :
    s = s' :=
  List.inj_on_of_nodup_map hd.nodup hs hs' h

theorem Direct.eq_of_hash (hd : Direct mock.toMock q out stages) {s s' : FlowStep}
    (hs : s ∈ stages.flatten.flatten) (hs' : s' ∈ stages.flatten.flatten)
    (h : mock.hash s.id = mock.hash s'.id) : s = s' :=
  hd.eq_of_id hs hs' (hd.injective _ _ (hd.uses s hs) (hd.uses s' hs') h)

theorem viewAlong_memo {id : String} {memo : Output}
    (h : (viewAlong mock.toMock stages vars stepId).memo id = some memo) :
    ∃ s ∈ stages.flatten.flatten, s.id = id ∧ finished mock.hash vars.steps s.id = true ∧
      memo = ⟨s.value, none⟩ := by
  obtain ⟨s, hfind, rfl⟩ := Option.map_eq_some_iff.mp h
  obtain ⟨hid, hfinished⟩ := by simpa using List.find?_some hfind
  exact ⟨s, List.mem_of_find?_eq_some hfind, hid, hfinished, rfl⟩

theorem recalls_viewAlong (hd : Direct mock.toMock q out stages) :
    (viewAlong mock.toMock stages vars stepId).Recalls (finished mock.hash vars.steps)
      stages.flatten.flatten := by
  intro s hs
  by_cases hfinished : finished mock.hash vars.steps s.id = true
  · rw [if_pos hfinished]
    cases hm : (viewAlong mock.toMock stages vars stepId).memo s.id with
    | some memo =>
      obtain ⟨s', hs', hid, -, rfl⟩ := viewAlong_memo hm
      rw [hd.eq_of_id hs' hs hid]
    | none =>
      have hnone := List.find?_eq_none.mp (Option.map_eq_none_iff.mp hm) s hs
      simp [hfinished] at hnone
  · rw [if_neg hfinished]
    cases hm : (viewAlong mock.toMock stages vars stepId).memo s.id with
    | some memo =>
      obtain ⟨s', hs', hid, hfinished', -⟩ := viewAlong_memo hm
      exact absurd (hid ▸ hfinished') hfinished
    | none => rfl

theorem shows_viewAlong (hd : Direct mock.toMock q out stages)
    (h : Along mock.toMock stages vars) :
    (viewAlong mock.toMock stages vars stepId).Shows q.Uses (mock.initial vars) vars.store := by
  refine ⟨rfl, fun _ _ => rfl, fun id hid => ?_, hd.injective⟩
  have hlookup : (mock.initial vars).memos.lookup (mock.hash id) =
      (vars.steps.lookup (mock.hash id)).map (StepMemos.memo mock.loads) :=
    StepMemos.lookup_fromRaw _ _ _
  refine hlookup.trans ?_
  cases hraw : vars.steps.lookup (mock.hash id) with
  | some raw =>
    obtain ⟨s, hs, hk, rfl⟩ := h.recorded _ _ hraw
    obtain rfl := hd.injective _ _ (hd.uses s hs) hid hk
    have hfinished : finished mock.hash vars.steps s.id = true := by simp [finished, hraw]
    rw [recalls_viewAlong hd s hs, if_pos hfinished, Option.map_some, hd.memos s hs]
  | none =>
    cases hm : (viewAlong mock.toMock stages vars stepId).memo id with
    | none => rfl
    | some memo =>
      obtain ⟨s, -, rfl, hfinished, -⟩ := viewAlong_memo hm
      simp [finished, hraw] at hfinished

theorem seen_walk {V : View} (hV : V = viewAlong mock.toMock stages vars stepId)
    {seen : List Seen} (hseen : ∀ e ∈ seen, ∃ s ∈ stages.flatten.flatten, s.sees = e) :
    ∀ e ∈ (q.walk V () seen).state, ∃ s ∈ stages.flatten.flatten, s.sees = e := by
  obtain ⟨new, hstate, hnew⟩ := (View.keeps_walk (V := V) q () seen).recalled
  intro e he
  rw [hstate] at he
  rcases List.mem_append.mp he with he | he
  · exact hseen e he
  · obtain ⟨memo, hm, hvalue⟩ := hnew e he
    obtain ⟨s, hs, hid, -, rfl⟩ := viewAlong_memo (hV ▸ hm)
    refine ⟨s, hs, ?_⟩
    rw [FlowStep.sees, hid, show (.ok s.value : Except PyError Json) = e.2 from hvalue.symm]

/-! ### One turn -/

theorem turn_eq (mock : Triggered (List Seen)) (vars : Vars (List Seen)) :
    mock.turn vars = match (mock.call (mock.popped vars).2 (mock.popped vars).1).outcome with
      | .ok res => mock.conclude res
          (mock.after (mock.popped vars).2 (mock.call (mock.popped vars).2 (mock.popped vars).1))
      | .exc e => .ends (.exc e)
          (mock.after (mock.popped vars).2 (mock.call (mock.popped vars).2 (mock.popped vars).1))
      | .intr i => .ends (.intr i)
          (mock.after (mock.popped vars).2 (mock.call (mock.popped vars).2 (mock.popped vars).1)) :=
  rfl

/-- What the variables are after a call with the walk `w`. -/
structure Called (vars vars' : Vars (List Seen)) (planned : List String)
    (w : Done (List Seen) (String × Json) PyError Interrupt Json) : Prop where
  attempt : vars'.attempt = vars.attempt
  steps : vars'.steps = vars.steps
  planned : vars'.planned = planned
  store : vars'.store = w.state
  calls : returned vars'.log = returned vars.log ++ w.log

theorem turn_walk (hbare : Bare mock.toMock p) (hq : q = p (mock.context 0))
    (hd : Direct mock.toMock q out stages) (h : Along mock.toMock stages vars) :
    ∃ result vars', mock.turn vars = mock.conclude result vars' ∧
      Execution.resultOf none (q.walk (viewAlong mock.toMock stages vars (mock.popped vars).1) ()
        vars.store).outcome = some result ∧
      Called vars vars' (mock.popped vars).2.planned
        (q.walk (viewAlong mock.toMock stages vars (mock.popped vars).1) () vars.store) := by
  have hctx : mock.context (mock.popped vars).2.attempt = mock.context 0 :=
    congrArg mock.context h.attempt
  obtain ⟨result, hresult, hcall, hstore, hlog⟩ := Triggered.call_walk (mock.popped vars).2
    (mock.popped vars).1 (V := viewAlong mock.toMock stages vars (mock.popped vars).1) hbare
    (by rw [hctx, ← hq]; exact hd.distinct) rfl rfl
    (by rw [hctx, ← hq]; exact shows_viewAlong hd h)
  rw [hctx, ← hq] at hresult hstore hlog
  have hturn := turn_eq mock vars
  rw [hcall] at hturn
  exact ⟨result, _, hturn, hresult, rfl, rfl, rfl, hstore,
    (returned_append _ _).trans (congrArg _ hlog)⟩

/-- The steps that are left count twice, and a turn that finds nothing planned
is one more. -/
def remaining (mock : Mock (List Seen)) (stages : List Stage) (vars : Vars (List Seen)) : ℕ :=
  2 * (stages.flatten.flatten.countP fun s => ! finished mock.hash vars.steps s.id) +
    if vars.planned = [] then 1 else 0

theorem nodup_handlers (hd : Direct mock.toMock q out stages) :
    (stages.flatten.flatten.filterMap (handlerCall mock.hash)).Nodup := by
  have hhashes : (stages.flatten.flatten.map fun s => mock.hash s.id).Nodup :=
    List.Nodup.map_on (fun s hs s' hs' => hd.eq_of_hash hs hs') (List.Nodup.of_map _ hd.nodup)
  refine List.Nodup.of_map Prod.fst (List.Nodup.sublist ?_ hhashes)
  induction stages.flatten.flatten with
  | nil => simp
  | cons s steps ih =>
    cases s with
    | run id value => simpa [handlerCall, FlowStep.id] using ih
    | sleep id until_ =>
      rw [List.filterMap_cons_none rfl]
      exact ih.cons _

theorem turn_completes (hbare : Bare mock.toMock p) (hq : q = p (mock.context 0))
    (hd : Direct mock.toMock q out stages) (h : Along mock.toMock stages vars)
    (hdone : frontier (finished mock.hash vars.steps) stages = []) :
    ∃ vars', mock.turn vars = .ends (.ok (Result.completed (some out))) vars' ∧
      Refined mock.hash out stages.flatten.flatten
        (.ok (Result.completed (some out)), vars') := by
  obtain ⟨result, vars', hturn, hresult, hcalled⟩ := turn_walk hbare hq hd h
  have hseen := seen_walk (q := q) (V := viewAlong mock.toMock stages vars (mock.popped vars).1)
    rfl h.seen
  have hstore := hcalled.store
  have hcalls := hcalled.calls
  rw [View.walk_complete hd.follows (recalls_viewAlong hd) hdone] at hresult hseen hstore hcalls
  obtain rfl : CallResult.ofOutput out = result := by
    simpa [Execution.resultOf, Execution.unlessError] using hresult
  refine ⟨vars', hturn, rfl, hstore ▸ hseen, hstore ▸ List.suffix_append _ _, ?_⟩
  have hfinished := frontier_eq_nil.mp hdone
  rw [hcalls, List.append_nil, List.perm_ext_iff_of_nodup h.callsNodup (nodup_handlers hd)]
  intro x
  rw [h.calls, List.mem_filterMap]
  refine exists_congr fun s => ?_
  constructor
  · exact fun hs => ⟨hs.1, hs.2.1⟩
  · exact fun hs => ⟨hs.1, hs.2, hfinished s hs.1⟩

theorem finished_iff {hash : String → String} {steps : Dict Json} {id : String} :
    finished hash steps id = true ↔ ∃ raw, steps.lookup (hash id) = some raw :=
  Option.isSome_iff_exists

theorem countP_lt {α : Type} {f g : α → Bool} {l : List α} (hsub : ∀ x ∈ l, f x → g x)
    {a : α} (ha : a ∈ l) (hf : f a = false) (hg : g a = true) : l.countP f < l.countP g := by
  obtain ⟨before, after, rfl⟩ := List.append_of_mem ha
  have hbefore : before.countP f ≤ before.countP g :=
    List.countP_mono_left fun x hx => hsub x (by simp [hx])
  have hafter : after.countP f ≤ after.countP g :=
    List.countP_mono_left fun x hx => hsub x (by simp [hx])
  simp only [List.countP_append, List.countP_cons, hf, hg]
  simp only [Bool.false_eq_true, if_false, if_true]
  omega

section Discover
variable {vars₁ vars' : Vars (List Seen)} (hd : Direct mock.toMock q out stages)
  (h : Along mock.toMock stages vars) (hsteps : vars₁.steps = vars.steps)
  (hdisc : Triggered.Discovered mock.hash (frontier (finished mock.hash vars.steps) stages) vars₁
    vars')
include hsteps hdisc

theorem finished_discovered {id : String} (hid : finished mock.hash vars.steps id = true) :
    finished mock.hash vars'.steps id = true := by
  obtain ⟨raw, hraw⟩ := finished_iff.mp hid
  rw [finished_iff]
  rcases hdisc.lookup (mock.hash id) with hk | ⟨hk, -⟩
  · exact ⟨raw, by rw [hk, hsteps, hraw]⟩
  · exact ⟨_, hk⟩

theorem finished_of_discovered {id : String} (hid : finished mock.hash vars'.steps id = true) :
    finished mock.hash vars.steps id = true ∨ ∃ id' until_,
      FlowStep.sleep id' until_ ∈ frontier (finished mock.hash vars.steps) stages ∧
        mock.hash id' = mock.hash id := by
  obtain ⟨raw, hraw⟩ := finished_iff.mp hid
  rcases hdisc.lookup (mock.hash id) with hk | ⟨-, hsleep⟩
  · exact .inl (finished_iff.mpr ⟨raw, by rw [← hsteps, ← hk, hraw]⟩)
  · exact .inr hsleep

include hd

theorem finished_run {id : String} {value : Json}
    (hmem : FlowStep.run id value ∈ stages.flatten.flatten) :
    finished mock.hash vars'.steps id = true ↔ finished mock.hash vars.steps id = true := by
  refine ⟨fun hid => ?_, finished_discovered hsteps hdisc⟩
  rcases finished_of_discovered hsteps hdisc hid with hid | ⟨id', until_, hsleep, hhash⟩
  · exact hid
  · have hsame : FlowStep.sleep id' until_ = .run id value :=
      hd.eq_of_hash (mem_of_frontier hsleep).1 hmem hhash
    cases hsame

include h

theorem Along.discovered (hempty : vars₁.planned = []) (hattempt : vars₁.attempt = vars.attempt)
    (hcalls : returned vars₁.log = returned vars.log)
    (hseen : ∀ e ∈ vars₁.store, ∃ s ∈ stages.flatten.flatten, s.sees = e) :
    Along mock.toMock stages vars' where
  attempt := (hdisc.attempt.trans hattempt).trans h.attempt
  recorded k raw hraw := by
    rcases hdisc.lookup k with hk | ⟨hk, id, until_, hsleep, hid⟩
    · exact h.recorded k raw (by rw [← hsteps, ← hk, hraw])
    · exact ⟨_, (mem_of_frontier hsleep).1, hid, Option.some.inj (hk.symm.trans hraw)⟩
  planned k hk := by
    rcases (hdisc.planned k).mp hk with hk | ⟨id, value, hrun, hid⟩
    · simp [hempty] at hk
    · obtain ⟨hmem, hopen⟩ := mem_of_frontier hrun
      have hopen' : finished mock.hash vars'.steps id = false := by
        rw [Bool.eq_false_iff, Ne, finished_run hd hsteps hdisc hmem]
        simpa [FlowStep.id] using hopen
      exact ⟨id, value, hid, frontier_mono (fun _ => finished_discovered hsteps hdisc) hrun hopen'⟩
  nodup := hdisc.nodup (hempty ▸ List.nodup_nil)
  callsNodup := by
    rw [hdisc.log, hcalls]
    exact h.callsNodup
  calls x := by
    rw [hdisc.log, hcalls, h.calls]
    refine exists_congr fun s => and_congr_right fun hs => and_congr_right fun hx => ?_
    cases s with
    | run id value => exact (finished_run hd hsteps hdisc hs).symm
    | sleep id until_ => cases hx
  seen := hdisc.store ▸ hseen

omit hd h in
theorem remaining_discovered (hplanned : vars.planned = [])
    (hopen : frontier (finished mock.hash vars.steps) stages ≠ []) :
    remaining mock.toMock stages vars' < remaining mock.toMock stages vars := by
  have hsub : ∀ s ∈ stages.flatten.flatten, (! finished mock.hash vars'.steps s.id) = true →
      (! finished mock.hash vars.steps s.id) = true := by
    intro s _ hs
    rw [Bool.not_eq_true', Bool.eq_false_iff] at hs ⊢
    exact fun hdone => hs (finished_discovered hsteps hdisc hdone)
  obtain ⟨s, hs⟩ := List.exists_mem_of_ne_nil _ hopen
  obtain ⟨hmem, hnot⟩ := mem_of_frontier hs
  rw [remaining, remaining, if_pos hplanned]
  cases s with
  | run id value =>
    have hleft : vars'.planned ≠ [] :=
      List.ne_nil_of_mem ((hdisc.planned _).mpr (.inr ⟨id, value, hs, rfl⟩))
    have hle := List.countP_mono_left hsub
    rw [if_neg hleft]
    omega
  | sleep id until_ =>
    have hdone : finished mock.hash vars'.steps id = true :=
      finished_iff.mpr ⟨_, hdisc.sleeps id until_ hs⟩
    have hnot' : finished mock.hash vars.steps id = false := hnot
    have hlt := countP_lt hsub hmem (by simp [FlowStep.id, hdone]) (by simp [FlowStep.id, hnot'])
    split <;> omega

end Discover

theorem conclude_responses {responses : List StepResponse} (h : responses ≠ [])
    (vars : Vars (List Seen)) : mock.conclude (CallResult.fromResponses responses) vars =
      mock.absorb (responses.map CallResult.itemOf) vars := by
  cases responses with
  | nil => exact absurd rfl h
  | cons response responses => rfl

theorem turn_discovers (hbare : Bare mock.toMock p) (hq : q = p (mock.context 0))
    (hd : Direct mock.toMock q out stages) (h : Along mock.toMock stages vars)
    (hplanned : vars.planned = [])
    (hopen : frontier (finished mock.hash vars.steps) stages ≠ []) :
    ∃ vars', mock.turn vars = .goesOn vars' ∧ Along mock.toMock stages vars' ∧
      remaining mock.toMock stages vars' < remaining mock.toMock stages vars := by
  obtain ⟨result, vars₁, hturn, hresult, hcalled⟩ := turn_walk hbare hq hd h
  have hpopped : (mock.popped vars).1 = none := by simp [Triggered.popped, hplanned]
  have hleft : (mock.popped vars).2.planned = [] := by simp [Triggered.popped, hplanned]
  rw [hpopped] at hresult hcalled
  have hseen := seen_walk (q := q) (V := viewAlong mock.toMock stages vars none) rfl h.seen
  have hanswer : ∀ s, (viewAlong mock.toMock stages vars none).answer s =
      some ((viewAlong mock.toMock stages vars none).discovered s) := fun _ => rfl
  have hanswers : (frontier (finished mock.hash vars.steps) stages).filterMap
      (viewAlong mock.toMock stages vars none).answer =
      (frontier (finished mock.hash vars.steps) stages).map
        (viewAlong mock.toMock stages vars none).discovered := by
    rw [List.filterMap_congr fun s _ => hanswer s]
    simp
  obtain ⟨mode, seen', hwalk⟩ := View.walk_asks hd.follows (recalls_viewAlong hd)
    (V := viewAlong mock.toMock stages vars none) (by simpa [hanswers] using hopen) vars.store
  have hhandlers : (frontier (finished mock.hash vars.steps) stages).flatMap
      (viewAlong mock.toMock stages vars none).handlerCalls = [] := by
    rw [List.flatMap_eq_nil_iff]
    rintro (⟨id, value⟩ | ⟨id, until_⟩) - <;> simp [View.handlerCalls, viewAlong]
  rw [hanswers, hhandlers, List.map_map] at hwalk
  have hstore := hcalled.store
  have hcalls := hcalled.calls
  rw [hwalk] at hresult hseen hstore hcalls
  obtain ⟨vars', habsorb, hdisc⟩ := Triggered.absorb_discovered hbare.stubs mode
    (V := viewAlong mock.toMock stages vars none)
    (frontier (finished mock.hash vars.steps) stages) vars₁
  have hempty : vars₁.planned = [] := hcalled.planned.trans hleft
  refine ⟨vars', ?_, h.discovered hd hcalled.steps hdisc hempty hcalled.attempt
    (by simpa using hcalls) (hstore ▸ hseen), remaining_discovered hcalled.steps hdisc hplanned
      hopen⟩
  obtain rfl := Option.some.inj hresult
  rw [hturn, Execution.unlessError, conclude_responses (by simpa using hopen), ← habsorb]
  simp [Function.comp_def]


theorem flatMap_of_single {α β : Type} {f : α → List β} {l : List α} (hl : l.Nodup) {a : α}
    (ha : a ∈ l) (hother : ∀ x ∈ l, x ≠ a → f x = []) : l.flatMap f = f a := by
  obtain ⟨before, after, rfl⟩ := List.append_of_mem ha
  have hne := List.nodup_append.mp hl
  have hbefore : before.flatMap f = [] := List.flatMap_eq_nil_iff.mpr fun x hx =>
    hother x (by simp [hx]) (hne.2.2 x hx a (by simp))
  have hafter : after.flatMap f = [] := List.flatMap_eq_nil_iff.mpr fun x hx =>
    hother x (by simp [hx]) fun hx' => (List.nodup_cons.mp hne.2.1).1 (hx' ▸ hx)
  rw [List.flatMap_append, List.flatMap_cons, hbefore, hafter]
  simp

theorem popped_cons (h : Along mock.toMock stages vars) (hplanned : vars.planned ≠ []) :
    ∃ id value, (mock.popped vars).1 = some (mock.hash id) ∧
      FlowStep.run id value ∈ frontier (finished mock.hash vars.steps) stages ∧
      (mock.popped vars).2.planned.Nodup ∧
      ∀ k ∈ (mock.popped vars).2.planned, k ∈ vars.planned ∧ k ≠ mock.hash id := by
  have hlt : mock.pop vars.turns % vars.planned.length < vars.planned.length :=
    Nat.mod_lt _ (List.length_pos_iff.mpr hplanned)
  obtain ⟨id, value, hid, hrun⟩ := h.planned _ (List.getElem_mem hlt)
  refine ⟨id, value, ?_, hrun, h.nodup.eraseIdx _, fun k hk => ?_⟩
  · rw [hid]
    exact List.getElem?_eq_getElem hlt
  · have hk' : k ∈ vars.planned.erase (mock.hash id) := by
      rw [hid, h.nodup.erase_getElem]
      exact hk
    obtain ⟨hne, hmem⟩ := h.nodup.mem_erase_iff.mp hk'
    exact ⟨hmem, hne⟩

section Target
variable {vars₁ : Vars (List Seen)} {id : String} {value : Json}

theorem finished_remember {hash : String → String} {k : String} {memo : Json} {id' : String} :
    finished hash (vars₁.remember k memo).steps id' = true ↔
      hash id' = k ∨ finished hash vars₁.steps id' = true := by
  by_cases hk : hash id' = k
  · subst hk
    simp [finished, Vars.remember]
  · simp [finished, Vars.remember, hk]

theorem Along.targeted (hd : Direct mock.toMock q out stages) (h : Along mock.toMock stages vars)
    (hrun : FlowStep.run id value ∈ frontier (finished mock.hash vars.steps) stages)
    (hsteps : vars₁.steps = vars.steps) (hattempt : vars₁.attempt = vars.attempt)
    (hnodup : vars₁.planned.Nodup)
    (hplanned : ∀ k ∈ vars₁.planned, k ∈ vars.planned ∧ k ≠ mock.hash id)
    (hcalls : returned vars₁.log = returned vars.log ++ [(mock.hash id, value)])
    (hseen : ∀ e ∈ vars₁.store, ∃ s ∈ stages.flatten.flatten, s.sees = e) :
    Along mock.toMock stages (vars₁.remember (mock.hash id) value) := by
  obtain ⟨hmem, hopen⟩ := mem_of_frontier hrun
  have hsame : ∀ s ∈ stages.flatten.flatten, mock.hash s.id = mock.hash id →
      s = .run id value := fun s hs hhash => hd.eq_of_hash hs hmem hhash
  refine ⟨hattempt.trans h.attempt, fun k raw hraw => ?_, fun k hk => ?_, hnodup, ?_, fun x => ?_,
    hseen⟩
  · by_cases hk : k = mock.hash id
    · subst hk
      have hvalue : value = raw := by simpa [Vars.remember] using hraw
      exact ⟨_, hmem, rfl, hvalue⟩
    · exact h.recorded k raw (by simpa [Vars.remember, hk, hsteps] using hraw)
  · obtain ⟨hk, hne⟩ := hplanned k hk
    obtain ⟨id', value', rfl, hrun'⟩ := h.planned k hk
    refine ⟨id', value', rfl, frontier_mono (fun id'' hid => ?_) hrun' ?_⟩
    · exact finished_remember.mpr (.inr (hsteps ▸ hid))
    · have hopen' := (mem_of_frontier hrun').2
      rw [Bool.eq_false_iff, Ne, finished_remember, hsteps]
      exact not_or.mpr ⟨hne, by simpa using hopen'⟩
  · show (returned vars₁.log).Nodup
    rw [hcalls, List.nodup_append]
    refine ⟨h.callsNodup, List.nodup_singleton _, ?_⟩
    rintro x hx y hy rfl
    obtain rfl := List.mem_singleton.mp hy
    obtain ⟨s, hs, hcall, hdone⟩ := (h.calls _).mp hx
    cases s with
    | run id' value' =>
      have hhash : mock.hash id' = mock.hash id := congrArg Prod.fst (Option.some.inj hcall)
      rw [hsame _ hs hhash, hopen] at hdone
      cases hdone
    | sleep id' until_ => cases hcall
  · show x ∈ returned vars₁.log ↔ _
    rw [hcalls, List.mem_append, List.mem_singleton, h.calls]
    constructor
    · rintro (⟨s, hs, hcall, hdone⟩ | rfl)
      · exact ⟨s, hs, hcall, finished_remember.mpr (.inr (hsteps ▸ hdone))⟩
      · exact ⟨_, hmem, rfl, finished_remember.mpr (.inl rfl)⟩
    · rintro ⟨s, hs, hcall, hdone⟩
      rcases finished_remember.mp hdone with hhash | hdone
      · rw [hsame s hs hhash] at hcall
        exact .inr (Option.some.inj hcall).symm
      · exact .inl ⟨s, hs, hcall, hsteps ▸ hdone⟩

theorem remaining_targeted
    (hrun : FlowStep.run id value ∈ frontier (finished mock.hash vars.steps) stages)
    (hsteps : vars₁.steps = vars.steps) (hplanned : vars.planned ≠ []) :
    remaining mock.toMock stages (vars₁.remember (mock.hash id) value) <
      remaining mock.toMock stages vars := by
  obtain ⟨hmem, hopen⟩ := mem_of_frontier hrun
  have hdone : finished mock.hash (vars₁.remember (mock.hash id) value).steps id = true :=
    finished_remember.mpr (.inl rfl)
  have hopen' : finished mock.hash vars.steps id = false := hopen
  have hlt : stages.flatten.flatten.countP
        (fun s => ! finished mock.hash (vars₁.remember (mock.hash id) value).steps s.id) <
      stages.flatten.flatten.countP fun s => ! finished mock.hash vars.steps s.id := by
    refine countP_lt (fun s _ hs => ?_) hmem (by simp [FlowStep.id, hdone])
      (by simp [FlowStep.id, hopen'])
    rw [Bool.not_eq_true', Bool.eq_false_iff, Ne, finished_remember, hsteps, not_or] at hs
    simpa using hs.2
  rw [remaining, remaining, if_neg hplanned]
  split <;> omega

end Target

theorem turn_targets (hbare : Bare mock.toMock p) (hq : q = p (mock.context 0))
    (hd : Direct mock.toMock q out stages) (h : Along mock.toMock stages vars)
    (hplanned : vars.planned ≠ []) :
    ∃ vars', mock.turn vars = .goesOn vars' ∧ Along mock.toMock stages vars' ∧
      remaining mock.toMock stages vars' < remaining mock.toMock stages vars := by
  obtain ⟨id, value, hpopped, hrun, hnodup, hleft⟩ := popped_cons h hplanned
  obtain ⟨result, vars₁, hturn, hresult, hcalled⟩ := turn_walk hbare hq hd h
  have hfrontier : (frontier (finished mock.hash vars.steps) stages).Nodup :=
    (List.Nodup.of_map _ hd.nodup).sublist (frontier_sublist _)
  have hother : ∀ s ∈ frontier (finished mock.hash vars.steps) stages, s ≠ .run id value →
      mock.hash id ≠ mock.hash s.id := fun s hs hne hhash =>
    hne (hd.eq_of_hash (mem_of_frontier hrun).1 (mem_of_frontier hs).1 hhash).symm
  generalize hV : viewAlong mock.toMock stages vars (mock.popped vars).1 = V at hresult hcalled
  have htarget : V.target = some (mock.hash id) := by rw [← hV, ← hpopped]; rfl
  have hhash : V.hash = mock.hash := by rw [← hV]; rfl
  have hanswers : (frontier (finished mock.hash vars.steps) stages).filterMap V.answer =
      [V.targeted (.run id value)] := by
    rw [List.filterMap_eq_flatMap_toList, flatMap_of_single hfrontier hrun]
    · simp [View.answer, htarget, hhash, FlowStep.id]
    · intro s hs hne
      simp [View.answer, htarget, hhash, hother s hs hne]
  have hhandlers : (frontier (finished mock.hash vars.steps) stages).flatMap V.handlerCalls =
      [(mock.hash id, value)] := by
    rw [flatMap_of_single hfrontier hrun]
    · simp [View.handlerCalls, htarget, hhash]
    · intro s hs hne
      have hs' := hother s hs hne
      cases s <;> simp_all [View.handlerCalls, FlowStep.id]
  obtain ⟨mode, seen', hwalk⟩ := View.walk_asks hd.follows (hV ▸ recalls_viewAlong hd)
    (by simp [hanswers]) vars.store
  have hseen := seen_walk (q := q) hV.symm h.seen
  rw [hanswers, hhandlers] at hwalk
  have hstore := hcalled.store
  have hcalls := hcalled.calls
  rw [hwalk] at hresult hseen hstore hcalls
  refine ⟨vars₁.remember (mock.hash id) value, ?_, h.targeted hd hrun hcalled.steps hcalled.attempt
    (hcalled.planned ▸ hnodup) (hcalled.planned ▸ hleft) hcalls (hstore ▸ hseen),
    remaining_targeted hrun hcalled.steps hplanned⟩
  obtain rfl := Option.some.inj hresult
  rw [hturn, Execution.unlessError, conclude_responses (by simp)]
  exact hhash ▸ Triggered.absorb_targeted hbare.stubs mode id value vars₁

/-! ### Whole runs -/

theorem turn_along (hbare : Bare mock.toMock p) (hq : q = p (mock.context 0))
    (hd : Direct mock.toMock q out stages) (h : Along mock.toMock stages vars) :
    (∃ vars', mock.turn vars = .ends (.ok (Result.completed (some out))) vars' ∧
      Refined mock.hash out stages.flatten.flatten
        (.ok (Result.completed (some out)), vars')) ∨
    ∃ vars', mock.turn vars = .goesOn vars' ∧ Along mock.toMock stages vars' ∧
      remaining mock.toMock stages vars' < remaining mock.toMock stages vars := by
  by_cases hplanned : vars.planned = []
  · by_cases hopen : frontier (finished mock.hash vars.steps) stages = []
    · exact .inl (turn_completes hbare hq hd h hopen)
    · exact .inr (turn_discovers hbare hq hd h hplanned hopen)
  · exact .inr (turn_targets hbare hq hd h hplanned)

theorem loop_along (hbare : Bare mock.toMock p) (hq : q = p (mock.context 0))
    (hd : Direct mock.toMock q out stages) (fuel : ℕ) (vars : Vars (List Seen))
    (h : Along mock.toMock stages vars) (hfuel : remaining mock.toMock stages vars < fuel) :
    ∃ ended, mock.loop fuel vars = some ended ∧
      Refined mock.hash out stages.flatten.flatten ended := by
  induction fuel generalizing vars with
  | zero => omega
  | succ fuel ih =>
    rcases turn_along hbare hq hd h with ⟨vars', hturn, hrefined⟩ | ⟨vars', hturn, h', hlt⟩
    · exact ⟨_, by rw [Triggered.loop, hturn], hrefined⟩
    · rw [Triggered.loop, hturn]
      exact ih vars' h' (by omega)

theorem along_start (loggingEnabled : Bool) :
    Along mock.toMock stages (Vars.start loggingEnabled []) :=
  ⟨rfl, by simp [Vars.start], by simp [Vars.start], by simp [Vars.start],
    by simp [Vars.start, returned], by simp [Vars.start, returned, finished], by simp [Vars.start]⟩

end Along

/-! ## Where the values come from -/

/-- A memo is `None` or was returned by a handler, and what the code sees is read
off a memo. -/
structure Sourced (mock : Mock (List Seen)) (vars : Vars (List Seen)) : Prop where
  recorded : ∀ k raw, vars.steps.lookup k = some raw →
    raw = .null ∨ (k, raw) ∈ returned vars.log
  seen : ∀ e ∈ vars.store, ∃ raw, Step.remembered .ok (StepMemos.memo mock.loads raw) = e.2 ∧
    (raw = .null ∨ (mock.hash e.1, raw) ∈ returned vars.log)

def Progress.vars {σ : Type} : Progress σ → Vars σ
  | .goesOn vars => vars
  | .ends _ vars => vars

section Sourced
variable {mock : Triggered (List Seen)} {p : Context → Flow} {vars : Vars (List Seen)}

theorem Sourced.retry (h : Sourced mock.toMock vars) (e : PyError) :
    Sourced mock.toMock (mock.retry e vars).vars := by
  rw [Triggered.retry]
  split
  · exact h
  · exact ⟨h.recorded, h.seen⟩

theorem Sourced.remember (h : Sourced mock.toMock vars) {k : String} {memo : Json}
    (hmemo : memo = .null ∨ (k, memo) ∈ returned vars.log) :
    Sourced mock.toMock (vars.remember k memo) := by
  refine ⟨fun k' raw hraw => ?_, h.seen⟩
  by_cases hk : k' = k
  · subst hk
    obtain rfl : memo = raw := by simpa [Vars.remember] using hraw
    exact hmemo
  · exact h.recorded k' raw (by simpa [Vars.remember, hk] using hraw)

theorem Sourced.absorbItem (hstubs : mock.stubs = ∅) (h : Sourced mock.toMock vars)
    {x : StepResponse} (hx : x.step.op = .stepRun → (x.step.id, x.output) ∈ returned vars.log) :
    Sourced mock.toMock (mock.absorbItem (CallResult.itemOf x) vars).vars := by
  rw [Triggered.absorbItem, CallResult.itemOf]
  simp only [hstubs, AList.lookup_empty]
  cases x.originalError with
  | some e => exact h.retry e
  | none =>
    cases hop : x.step.op with
    | planned => exact ⟨h.recorded, h.seen⟩
    | sleep => exact h.remember (.inl rfl)
    | stepRun => exact h.remember (.inr (hx hop))
    | _ => exact h

theorem absorbItem_log (mock : Triggered (List Seen)) (vars : Vars (List Seen)) (item : CallItem) :
    (mock.absorbItem item vars).vars.log = vars.log := by
  have hretry : ∀ e, (mock.retry e vars).vars.log = vars.log := by
    intro e
    rw [Triggered.retry]
    split <;> rfl
  rw [Triggered.absorbItem]
  split
  · rfl
  · split
    · exact hretry _
    · split
      · rfl
      · split <;> rfl

theorem Sourced.absorb (hstubs : mock.stubs = ∅) {responses : List StepResponse}
    (h : Sourced mock.toMock vars)
    (hbacked : ∀ x ∈ responses, x.step.op = .stepRun →
      (x.step.id, x.output) ∈ returned vars.log) :
    Sourced mock.toMock (mock.absorb (responses.map CallResult.itemOf) vars).vars := by
  induction responses generalizing vars with
  | nil => exact h
  | cons x responses ih =>
    have hx := h.absorbItem hstubs (hbacked x (by simp))
    have hlog := absorbItem_log mock vars (CallResult.itemOf x)
    rw [List.map_cons, Triggered.absorb]
    cases hitem : mock.absorbItem (CallResult.itemOf x) vars with
    | goesOn vars' =>
      rw [hitem] at hx hlog
      have hlog' : vars'.log = vars.log := hlog
      exact ih hx fun y hy hop => hlog' ▸ hbacked y (List.mem_cons_of_mem _ hy) hop
    | ends outcome vars' =>
      rw [hitem] at hx
      exact hx

def viewOf (mock : Mock (List Seen)) (vars : Vars (List Seen)) (stepId : Option String) :
    View where
  memo id := (vars.steps.lookup (mock.hash id)).map (StepMemos.memo mock.loads)
  hash := mock.hash
  target := stepId

theorem Sourced.called {vars' : Vars (List Seen)} {q : Flow} {stepId : Option String}
    (h : Sourced mock.toMock vars) (hsteps : vars'.steps = vars.steps)
    (hstore : vars'.store = (q.walk (viewOf mock.toMock vars stepId) () vars.store).state)
    (hcalls : returned vars'.log =
      returned vars.log ++ (q.walk (viewOf mock.toMock vars stepId) () vars.store).log) :
    Sourced mock.toMock vars' := by
  have hsub : ∀ x ∈ returned vars.log, x ∈ returned vars'.log := fun x hx => by
    rw [hcalls]
    exact List.mem_append_left _ hx
  obtain ⟨new, hstate, hnew⟩ :=
    (View.keeps_walk (V := viewOf mock.toMock vars stepId) q () vars.store).recalled
  refine ⟨fun k raw hraw => (h.recorded k raw (hsteps ▸ hraw)).imp_right (hsub _), fun e he => ?_⟩
  rw [hstore, hstate] at he
  rcases List.mem_append.mp he with he | he
  · obtain ⟨raw, hvalue, hraw⟩ := h.seen e he
    exact ⟨raw, hvalue, hraw.imp_right (hsub _)⟩
  · obtain ⟨memo, hmemo, hvalue⟩ := hnew e he
    obtain ⟨raw, hraw, rfl⟩ := Option.map_eq_some_iff.mp hmemo
    exact ⟨raw, hvalue.symm, (h.recorded _ _ hraw).imp_right (hsub _)⟩

theorem Sourced.conclude (hstubs : mock.stubs = ∅) (h : Sourced mock.toMock vars)
    {o : Outcome PyError Interrupt Json} {result : CallResult}
    (hresult : Execution.resultOf none o = some result)
    (hbacked : ∀ responses, o = .intr (.response responses) →
      responses ≠ [] ∧ View.Backed (returned vars.log) responses) :
    Sourced mock.toMock (mock.conclude result vars).vars := by
  rcases o with v | e | responses | id | _
  · obtain rfl := Option.some.inj hresult
    exact h
  · obtain rfl := Option.some.inj hresult
    exact h.retry e
  · obtain rfl := Option.some.inj hresult
    obtain ⟨hne, hresponses⟩ := hbacked responses rfl
    rw [Execution.unlessError, conclude_responses hne]
    exact h.absorb hstubs fun x hx => (hresponses x hx).2
  · obtain rfl := Option.some.inj hresult
    exact h.retry _
  · cases hresult

theorem Sourced.turn (hbare : Bare mock.toMock p) (hdistinct : ∀ ctx, (p ctx).Distinct)
    (hhash : ∀ ctx id id', (p ctx).Uses id → (p ctx).Uses id' →
      mock.hash id = mock.hash id' → id = id')
    (h : Sourced mock.toMock vars) : Sourced mock.toMock (mock.turn vars).vars := by
  obtain ⟨result, hresult, hcall, hstore, hlog⟩ := Triggered.call_walk (mock.popped vars).2
    (mock.popped vars).1 (V := viewOf mock.toMock vars (mock.popped vars).1) hbare (hdistinct _)
    rfl rfl ⟨rfl, fun _ _ => rfl, fun _ _ => StepMemos.lookup_fromRaw _ _ _, hhash _⟩
  have hturn := turn_eq mock vars
  rw [hcall] at hturn
  have hcalls : returned (mock.after (mock.popped vars).2
      (mock.call (mock.popped vars).2 (mock.popped vars).1)).log = _ :=
    (returned_append vars.log _).trans (congrArg _ hlog)
  have hcalled : Sourced mock.toMock (mock.after (mock.popped vars).2
      (mock.call (mock.popped vars).2 (mock.popped vars).1)) := h.called rfl hstore hcalls
  rw [hturn]
  refine hcalled.conclude hbare.stubs hresult fun responses ho => ?_
  have hkeeps := View.keeps_walk (V := viewOf mock.toMock vars (mock.popped vars).1)
    (p (mock.context (mock.popped vars).2.attempt)) () vars.store
  obtain ⟨hne, hbacked⟩ := hkeeps.backed responses (congrArg Outcome.escape ho)
  exact ⟨hne, hcalls ▸ hbacked.append_right⟩

theorem Sourced.loop (hbare : Bare mock.toMock p) (hdistinct : ∀ ctx, (p ctx).Distinct)
    (hhash : ∀ ctx id id', (p ctx).Uses id → (p ctx).Uses id' →
      mock.hash id = mock.hash id' → id = id') (fuel : ℕ)
    {ended : Outcome PyError Interrupt Result × Vars (List Seen)}
    (hended : mock.loop fuel vars = some ended) (h : Sourced mock.toMock vars) :
    Sourced mock.toMock ended.2 := by
  induction fuel generalizing vars with
  | zero => simp [Triggered.loop] at hended
  | succ fuel ih =>
    have hnext := h.turn hbare hdistinct hhash
    rw [Triggered.loop] at hended
    cases hturn : mock.turn vars with
    | goesOn vars' =>
      rw [hturn] at hended hnext
      exact ih hended hnext
    | ends outcome vars' =>
      rw [hturn] at hended hnext
      obtain rfl := Option.some.inj hended
      exact hnext

end Sourced

/-! ## The refinement -/

theorem memo_null (loads : String → Option Json) : StepMemos.memo loads .null = ⟨.null, none⟩ :=
  rfl

theorem memo_of_remembered {memo : Output} {v : Json}
    (h : Step.remembered .ok memo = .ok v) : memo = ⟨v, none⟩ := by
  obtain ⟨data, _ | e⟩ := memo
  · obtain rfl := Except.ok.inj h
    rfl
  · cases h

theorem sourced_start {mock : Mock (List Seen)} (loggingEnabled : Bool) :
    Sourced mock (Vars.start loggingEnabled []) :=
  ⟨by simp [Vars.start], by simp [Vars.start]⟩

/-- `trigger` terminates, and its run is the direct one. -/
def Refines (mock : Mock (List Seen)) (events : List Event) (loggingEnabled : Bool) (out : Json)
    (steps : List FlowStep) : Prop :=
  ∃ n, ∀ fuel ≥ n, ∃ ended, trigger mock events loggingEnabled [] fuel = some ended ∧
    Refined mock.hash out steps ended

section Refines
variable {mock : Mock (List Seen)} {p : Context → Flow} (hbare : Bare mock p)
  (hdistinct : ∀ ctx, (p ctx).Distinct)
  (hhash : ∀ ctx id id', (p ctx).Uses id → (p ctx).Uses id' →
    mock.hash id = mock.hash id' → id = id')
  {event : Event} {more : List Event} {loggingEnabled : Bool} {out : Json}
  {steps : List FlowStep}
  (hdirect : (p ⟨0, event, event :: more, "test"⟩).direct = some (out, steps))
include hbare hdistinct hhash hdirect

/-- What the code saw of a handler's value was a memo that the handler gave. -/
theorem memos_of_refines (h : Refines mock (event :: more) loggingEnabled out steps)
    (id : String) (v : Json) (hrun : FlowStep.run id v ∈ steps) :
    StepMemos.memo mock.loads v = ⟨v, none⟩ := by
  obtain ⟨n, hn⟩ := h
  obtain ⟨ended, hended, hrefined⟩ := hn n le_rfl
  have hsourced : Sourced mock ended.2 :=
    @Sourced.loop ⟨mock, event, more⟩ p _ hbare hdistinct hhash n _ hended (sourced_start _)
  have hseen : (id, .ok v) ∈ ended.2.store :=
    hrefined.inOrder.subset (List.mem_map.mpr ⟨_, hrun, rfl⟩)
  obtain ⟨raw, hvalue, hraw⟩ := hsourced.seen _ hseen
  have hmemo := memo_of_remembered hvalue
  rcases hraw with rfl | hraw
  · rw [memo_null] at hmemo
    obtain rfl := congrArg Output.data hmemo
    exact memo_null _
  · obtain ⟨s, hs, hcall⟩ := List.mem_filterMap.mp (hrefined.handlers.mem_iff.mp hraw)
    cases s with
    | run id' v' =>
      obtain ⟨hid, rfl⟩ := Prod.mk.inj (Option.some.inj hcall)
      have huses := Flow.uses_direct hdirect
      have hsame : FlowStep.run id' v' = .run id v :=
        List.inj_on_of_nodup_map (Flow.nodup_direct (hdistinct _) hdirect) hs hrun
          (hhash _ _ _ (huses _ hs) (huses _ hrun) hid)
      obtain ⟨-, rfl⟩ := FlowStep.run.inj hsame
      exact hmemo
    | sleep id' until_ => cases hcall

theorem refines_of_memos
    (hmemos : ∀ id v, FlowStep.run id v ∈ steps → StepMemos.memo mock.loads v = ⟨v, none⟩) :
    Refines mock (event :: more) loggingEnabled out steps := by
  obtain ⟨stages, hfollows, rfl⟩ := Flow.follows_of_direct hdirect
  have hd : Direct mock (p ⟨0, event, event :: more, "test"⟩) out stages := by
    refine ⟨hdistinct _, hfollows, Flow.nodup_direct (hdistinct _) hdirect,
      Flow.uses_direct hdirect, hhash _, fun s hs => ?_⟩
    cases s with
    | run id v => exact hmemos id v hs
    | sleep id until_ => exact memo_null _
  refine ⟨remaining mock stages (Vars.start loggingEnabled []) + 1, fun fuel hfuel => ?_⟩
  exact @loop_along ⟨mock, event, more⟩ p _ out stages hbare rfl hd fuel _ (along_start _) hfuel

end Refines

/-! A group with a sleep before a last step, and a handler whose value is taken
for the wrapper of another one. -/

namespace Sample

def event : Event := ⟨[], "id", "event", 0⟩

def mock (flow : Flow) : Mock (List Seen) where
  fn := ⟨"app", ⟨"fn", "fn", none, .onFailure, [], fun _ => flow.body, none, none, false, []⟩⟩
  middleware := []
  serializer := none
  stubs := ∅
  loads _ := none
  hash := Inngest.Sample.hashStepId
  pop turns := turns

def grouped : Flow :=
  .parallel [.step (.run "a" (.int 1)) fun _ => .ret (.int 1),
    .step (.sleep "b" "2026-01-01T00:00:00.000Z") fun _ => .ret .null] .wait fun _ =>
  .step (.run "c" (.obj [("total", .int 1)])) fun x => .ret (x.toOption.getD .null)

def wrapped : Flow :=
  .step (.run "a" (.obj [("data", .int 1)])) fun x => .ret (x.toOption.getD .null)

end Sample

end Mocked

end Inngest
