import Inngest.Response
import Inngest.StepResults

/-!
# The middleware stack on step data

The output of a step goes through the hooks of one request, the last middleware
first, and comes back as a memo through those of a later one, the first
middleware first. When every middleware takes back what it did itself, the stack
takes back what the stack did, unless the sync manager drops a coroutine of
`transform_output`: then there is nothing to take back.
-/

set_option autoImplicit false

namespace Inngest.DataPipeline
open ServerLib Errors StepLib Effect Engine MiddlewareManager

variable {σ : Type}

/-! ## Lists of middleware -/

/-- On data `transform_input` inverts `transform_output`, whatever the state of
the store is by then; a result without an error does not get one. -/
def Retracts (h : Hooks σ) : Prop :=
  ∀ s s' result result' v, h.transformOutput.call s result = ((s', result'), none) →
    result.error = none → result.output = some v →
    result'.error = none ∧ ∃ w, result'.output = some w ∧
      ∀ t t' ctx ctx' memos memos' id,
        h.transformInput.call t (ctx, memos) = ((t', ctx', memos'), none) →
        memos.lookup id = some ⟨w, none⟩ → memos'.lookup id = some ⟨v, none⟩

/-- `transform_input` leaves data as it is. -/
def LeavesData (h : Hooks σ) : Prop :=
  ∀ t t' ctx ctx' memos memos' id v,
    h.transformInput.call t (ctx, memos) = ((t', ctx', memos'), none) →
    memos.lookup id = some ⟨v, none⟩ → memos'.lookup id = some ⟨v, none⟩

/-- The sync manager makes a coroutine of `transform_output` and drops it, and
calls `transform_input`. -/
def Dropped (flavor : Flavor) (h : Hooks σ) : Prop :=
  flavor = .sync ∧ h.isMiddleware = false ∧ h.transformOutput.isCoroutine = true ∧
    h.transformInput.isCoroutine = false

def Safe (flavor : Flavor) (h : Hooks σ) : Prop :=
  Retracts h ∧ (Dropped flavor h → LeavesData h)

def Safely (flavor : Flavor) : Middleware σ → Prop
  | .logger => True
  | .user h => Safe flavor h

def Restores (flavor : Flavor) (ms : List (Middleware σ)) (v w : Json) : Prop :=
  ∀ ctx memos id r s ctx' memos', memos.lookup id = some ⟨w, none⟩ →
    (transformInput flavor ms ctx memos r s).outcome = .ok (.ok (ctx', memos')) →
    memos'.lookup id = some ⟨v, none⟩

section Lists
variable {flavor : Flavor} {ms : List (Middleware σ)} {h : Hooks σ} {v u w : Json}

theorem restores_nil (v : Json) : Restores flavor ([] : List (Middleware σ)) v v := by
  intro ctx memos id r s ctx' memos' hmemo hrun
  have hsame : memos = memos' := congrArg Prod.snd (Except.ok.inj (Outcome.ok.inj hrun))
  rw [← hsame, hmemo]

theorem restores_logger (h : Restores flavor ms v w) : Restores flavor (.logger :: ms) v w :=
  fun ctx memos id r s ctx' memos' => h ctx memos id r s ctx' memos'

def TakesBack (flavor : Flavor) (h : Hooks σ) (u w : Json) : Prop :=
  refuseCoroutine flavor Hooks.transformInput h = false →
  ∀ t t' ctx ctx' memos memos' id,
    h.transformInput.call t (ctx, memos) = ((t', ctx', memos'), none) →
    memos.lookup id = some ⟨w, none⟩ → memos'.lookup id = some ⟨u, none⟩

theorem restores_user (hrest : Restores flavor ms v u) (hinput : TakesBack flavor h u w) :
    Restores flavor (.user h :: ms) v w := by
  intro ctx memos id r s ctx' memos' hmemo hrun
  rw [transformInput] at hrun
  cases hrefuse : refuseCoroutine flavor Hooks.transformInput h with
  | true => simp [hookLoop, hrefuse] at hrun
  | false =>
    rw [hookLoop_user hrefuse] at hrun
    cases herr : (h.transformInput.call s.store (ctx, memos)).2 with
    | some e => simp [herr] at hrun
    | none =>
      simp only [herr] at hrun
      have hread := hinput hrefuse _ _ ctx _ memos _ id (Prod.ext rfl herr) hmemo
      exact hrest _ _ id r _ ctx' memos' hread hrun

theorem output_user (hsafe : Safe flavor h) (hclass : ¬ (flavor = .sync ∧ h.isMiddleware = true))
    {s s' : σ} {result result' : TransformOutputResult}
    (hcall : (h.transformOutput.called flavor).call s result = ((s', result'), none))
    (herror : result.error = none) (hv : result.output = some v) :
    result'.error = none ∧ ∃ w, result'.output = some w ∧ TakesBack flavor h v w := by
  by_cases hdropped : flavor = .sync ∧ h.transformOutput.isCoroutine = true
  · obtain ⟨rfl, houtput⟩ := hdropped
    rw [Hook.called, if_pos ⟨rfl, houtput⟩] at hcall
    obtain rfl : result = result' := congrArg (fun x => x.1.2) hcall
    refine ⟨herror, v, hv, fun hrefuse t t' ctx ctx' memos memos' id => ?_⟩
    have hinput : h.transformInput.isCoroutine = false := by simpa [refuseCoroutine] using hrefuse
    have hsync : h.isMiddleware = false := by simpa using hclass
    exact hsafe.2 ⟨rfl, hsync, houtput, hinput⟩ t t' ctx ctx' memos memos' id v
  · rw [Hook.called, if_neg hdropped] at hcall
    obtain ⟨herror', w, hw, hinput⟩ := hsafe.1 s s' result result' v hcall herror hv
    exact ⟨herror', w, hw, fun _ => hinput⟩

/-- The whole list. The output hooks run from its end, so that the first
middleware sees what the rest of the list made of the value. -/
theorem restores_outputs (hsafe : ∀ x ∈ ms, Safely flavor x)
    {result result' : TransformOutputResult} {r : Scope} {s : State σ}
    (hrun : (transformOutputHooks flavor ms result r s).outcome = .ok (.ok result'))
    (herror : result.error = none) (hv : result.output = some v) :
    result'.error = none ∧ ∃ w, result'.output = some w ∧ Restores flavor ms v w := by
  rw [transformOutputHooks] at hrun
  induction ms generalizing result' with
  | nil =>
    obtain rfl := Except.ok.inj (Outcome.ok.inj hrun)
    exact ⟨herror, v, hv, restores_nil v⟩
  | cons m ms ih =>
    rw [List.reverse_cons] at hrun
    obtain ⟨between, t, hrest, hlast⟩ := hookLoop_append hrun
    obtain ⟨herror', u, hu, hrestores⟩ := ih (fun x hx => hsafe x (by simp [hx])) hrest
    cases m with
    | logger =>
      obtain rfl := Except.ok.inj (Outcome.ok.inj hlast)
      exact ⟨herror', u, hu, restores_logger hrestores⟩
    | user h =>
      by_cases hclass : flavor = .sync ∧ h.isMiddleware = true
      · simp [hookLoop, hclass] at hlast
      · rw [hookLoop_user (by simpa using hclass)] at hlast
        cases herr : ((h.transformOutput.called flavor).call t.store between).2 with
        | some e => simp [herr] at hlast
        | none =>
          simp only [herr, hookLoop, Comp.done_run, Outcome.ok.injEq, Except.ok.injEq] at hlast
          subst hlast
          obtain ⟨herror'', w, hw, hinput⟩ := output_user (hsafe _ List.mem_cons_self) hclass
            (Prod.ext rfl herr) herror' hu
          exact ⟨herror'', w, hw, restores_user hrestores hinput⟩

end Lists

/-! ## What is reported with the output of a step -/

/-- The responses of one request. A step that ran succeeded, and it is reported
alone or under the ID that the request targets. -/
structure Reported (env : Env σ) (inParallel : Bool) (rs : List StepResponse) : Prop where
  targeted : ∀ t, env.targetHashedId = some t → ∀ response ∈ rs, response.step.id = t
  succeeded : ∀ response ∈ rs, response.step.op = .stepRun → response.originalError = none
  alone : ∀ response ∈ rs, response.step.op = .stepRun →
    env.targetHashedId = some response.step.id ∨ inParallel = false ∧ rs = [response]

def Told (env : Env σ) (r : Scope) (_ : State σ) (_ : List Mark) (_ : State σ)
    (o : Option Interrupt) : Prop :=
  ∀ rs, o = some (.response rs) → Reported env r.inParallel rs

section Rules
variable {env : Env σ} {r : Scope} {s s' : State σ} {l : List Mark}

theorem told_quiet {o : Option Interrupt} (h : ∀ rs, o ≠ some (.response rs)) :
    Told env r s l s' o := fun rs ho => absurd ho (h rs)

theorem told_chain : Chain (Told env) where
  nil _ _ := told_quiet (by simp)
  append _ h := h

theorem waitingOp_ne_stepRun (op : Opcode) : Step.waitingOp op ≠ .stepRun := by
  rw [Step.waitingOp]
  split
  · simp
  · assumption

theorem failedOp_ne_stepRun (env : Env σ) : Step.failedOp env ≠ .stepRun := by
  rw [Step.failedOp]
  split
  · split <;> simp
  · simp

theorem reported_other {response : StepResponse} (hop : response.step.op ≠ .stepRun)
    (htarget : ∀ t, env.targetHashedId = some t → t = response.step.id) :
    Reported env r.inParallel [response] where
  targeted t ht x hx := by
    rw [List.mem_singleton.mp hx, htarget t ht]
  succeeded x hx hrun := absurd (List.mem_singleton.mp hx ▸ hrun) hop
  alone x hx hrun := absurd (List.mem_singleton.mp hx ▸ hrun) hop

theorem told_step {info : StepInfo} {decode : Json → Except PyError Json}
    {outputType : Option OutputType} {handler : Exec σ Json} {d : Run σ Json}
    (hh : Guar (Told env) handler)
    (hd : Step.StepDone env info decode outputType handler r s d) :
    Told env r s' l d.state d.outcome.escape := by
  intro rs ho
  cases hd with
  | answered hp hm hr => simp at ho
  | nested hp hr hgo => simp at ho
  | skipped hp hm ht hne => simp at ho
  | responded hp hm htarget hmay =>
    obtain rfl := Interrupt.response.inj (Option.some.inj ho)
    exact reported_other (waitingOp_ne_stepRun _) htarget
  | executed hp hm hr hop hmay hh' =>
    subst hh'
    have htarget : ∀ t, env.targetHashedId = some t → t = info.id := by
      intro t ht
      rcases hmay with hid | ⟨hnone, -⟩
      · exact Option.some.inj (ht.symm.trans hid)
      · simp [hnone] at ht
    have hinner := hh (r.inHandler info.id) ‹Run σ (Option Output)›.state
    cases hend : Step.serialized env outputType
        (handler (r.inHandler info.id) ‹Run σ (Option Output)›.state).outcome with
    | ok v =>
      rw [hend] at ho
      obtain rfl := Interrupt.response.inj (Option.some.inj ho)
      refine ⟨fun t ht x hx => ?_, fun x hx _ => by rw [List.mem_singleton.mp hx],
        fun x hx _ => ?_⟩
      · rw [List.mem_singleton.mp hx, htarget t ht]
      · rw [List.mem_singleton.mp hx]
        exact hmay.imp id fun h => ⟨h.2.1, rfl⟩
    | exc e =>
      rw [hend] at ho
      cases hb : Step.bubbles e with
      | true => simp [Step.endOf, hb] at ho
      | false =>
        simp only [Step.endOf, hb, Bool.false_eq_true, if_false, Outcome.escape_intr,
          Option.some.injEq, Interrupt.response.injEq] at ho
        subst ho
        exact reported_other (failedOp_ne_stepRun env) htarget
    | intr i =>
      rw [hend] at ho
      cases i with
      | nested =>
        obtain rfl := Interrupt.response.inj (Option.some.inj ho)
        exact reported_other (by simp) htarget
      | skip id => simp [Step.endOf] at ho
      | response rs' =>
        have hesc := History.serialized_escape env outputType
          (handler (r.inHandler info.id) ‹Run σ (Option Output)›.state).outcome
        rw [hend] at hesc
        exact hinner rs (hesc.symm.trans ho)

theorem reported_append {b : Bool} {rs rs' : List StepResponse} (h : Reported env true rs)
    (h' : Reported env true rs') : Reported env b (rs ++ rs') := by
  have hboth : ∀ {p : StepResponse → Prop}, (∀ x ∈ rs, p x) → (∀ x ∈ rs', p x) →
      ∀ x ∈ rs ++ rs', p x := fun h₁ h₂ x hx => (List.mem_append.mp hx).elim (h₁ x) (h₂ x)
  refine ⟨fun t ht => hboth (h.targeted t ht) (h'.targeted t ht), hboth h.succeeded h'.succeeded,
    hboth (fun x hx hrun => ?_) fun x hx hrun => ?_⟩
  · exact .inl ((h.alone x hx hrun).resolve_right (by simp))
  · exact .inl ((h'.alone x hx hrun).resolve_right (by simp))

theorem reported_nil (b : Bool) : Reported env b [] := ⟨by simp, by simp, by simp⟩

theorem reported_setParallelMode {b : Bool} {rs : List StepResponse} (h : Reported env true rs)
    (mode : ParallelMode) : Reported env b (rs.map fun x => x.setParallelMode mode) := by
  refine ⟨fun t ht => ?_, ?_, ?_⟩ <;> rw [List.forall_mem_map]
  · exact fun x hx => (setParallelMode_id x.step mode).trans (h.targeted t ht x hx)
  · exact fun x hx hrun => h.succeeded x hx ((setParallelMode_op x.step mode).symm.trans hrun)
  · intro x hx hrun
    have htarget := h.alone x hx ((setParallelMode_op x.step mode).symm.trans hrun)
    refine .inl ((htarget.resolve_right (by simp)).trans ?_)
    exact congrArg some (setParallelMode_id x.step mode).symm

theorem told_group {callables : List (Exec σ Json)} {mode : ParallelMode}
    (hcs : ∀ c ∈ callables, Guar (Told env) c) :
    Guar (Told env) (Group.parallel callables mode) := by
  refine Group.guar_parallel (G := fun _ _ _ _ ds => Reported env true ds) ?_ ?_ ?_ mode hcs
  · intro r
    refine ⟨fun s => reported_nil true, fun h _ => h, fun {s l₁ s₁ ds l₂ s₂ i new} h h' ha => ?_,
      fun _ _ => told_quiet (by simp), fun {s l₁ s₁ ds l₂ s₂ i} h h' ha => ?_⟩
    · cases i with
      | response rs =>
        obtain rfl : rs = new := Option.some.inj ha
        exact reported_append h (h' rs rfl)
      | skip id =>
        obtain rfl : [] = new := Option.some.inj ha
        exact reported_append h (reported_nil true)
      | nested => simp [Group.caught] at ha
    · refine told_quiet fun rs ho => ?_
      rw [Option.some.inj ho] at ha
      simp [Group.caught] at ha
  · intro r s l s' o hi h rs ho
    have hcaught := hi _ ho
    simp [Group.caught] at hcaught
  · intro r s l s' ds mode h rs ho
    split at ho
    · simp at ho
    · obtain rfl := Interrupt.response.inj (Option.some.inj ho)
      exact reported_setParallelMode h mode

theorem told_interp (env : Env σ) (b : Body σ) : Guar (Told env) (b.interp env) := by
  refine Body.guar_interp told_chain ?_ ?_ ?_ ?_ ?_ ?_ ?_ ?_ b
  · exact fun r p s l s' o h => h
  · exact fun r s x => told_quiet (by simp)
  · exact fun r s name method => told_quiet (by simp)
  · exact fun r s name message found _ => told_quiet (by simp)
  · exact fun stepId r s => told_quiet (by simp)
  · exact fun stepId info decode outputType handler r s d _ hh hd => told_step hh hd
  · exact fun callables mode hcs => told_group hcs
  · exact fun r s complete => told_quiet (by simp)

end Rules

/-! ## From the call result to the memo -/

section Request
variable {env : Env σ} {inv : Invocation σ}

theorem request_responses {fn : Context → Body σ} {outputType : Option OutputType}
    {result : CallResult} {items : List CallItem}
    (h : (request env fn outputType inv).outcome = .ok result)
    (hitems : result.multi = some items) :
    ∃ ctx rs, (prepared env inv).outcome = .ok (.ok ctx) ∧
      (codeRun env fn inv ctx).outcome = .intr (.response rs) ∧
      items = rs.map CallResult.itemOf := by
  obtain ⟨x, hx⟩ := prepared_outcome env inv
  cases x with
  | error e =>
    rw [request_stopped fn outputType hx] at h
    rw [← Outcome.ok.inj h] at hitems
    simp [CallResult.ofError] at hitems
  | ok ctx =>
    refine ⟨ctx, ?_⟩
    rw [StepResults.request_outcome_iff hx] at h
    generalize Execution.afterError env Scope.top (codeRun env fn inv ctx).state = err at h
    have hunless : ∀ {r : CallResult}, some (Execution.unlessError err r) = some result →
        r.multi = some items := by
      intro r hr
      cases err with
      | none => rwa [← show r = result from Option.some.inj hr] at hitems
      | some e =>
        rw [← Option.some.inj hr] at hitems
        simp [Execution.unlessError, CallResult.ofError] at hitems
    have herror : ∀ {e : PyError}, some (CallResult.ofError e) ≠ some result := by
      intro e he
      rw [← Option.some.inj he] at hitems
      simp [CallResult.ofError] at hitems
    have hesc := History.serialized_escape env outputType (codeRun env fn inv ctx).outcome
    cases ho : Step.serialized env outputType (codeRun env fn inv ctx).outcome with
    | ok output =>
      rw [ho] at h
      have hmulti := hunless h
      simp [CallResult.ofOutput] at hmulti
    | exc e =>
      rw [ho] at h
      exact absurd h herror
    | intr i =>
      rw [ho] at h hesc
      cases i with
      | response rs =>
        have hcode : (codeRun env fn inv ctx).outcome = .intr (.response rs) := by
          cases hc : (codeRun env fn inv ctx).outcome <;> simp_all
        exact ⟨rs, hx, hcode, (Option.some.inj (hunless h)).symm⟩
      | skip id => exact absurd h herror
      | nested => simp [Execution.resultOf] at h

theorem gathered_le {fn : Context → Body σ} (outputType : Option OutputType) {ctx : Context}
    {rs : List StepResponse} (hx : (prepared env inv).outcome = .ok (.ok ctx))
    (hcode : (codeRun env fn inv ctx).outcome = .intr (.response rs)) :
    StepResults.gathered rs ≤ StepResults.settledIn (request env fn outputType inv).log := by
  have hconserved := StepResults.conserved_interp env (fn ctx) Scope.top (prepared env inv).state
  rw [← codeRun, hcode] at hconserved
  rw [request_log fn outputType hx, StepResults.settledIn_append, hconserved.balance]
  exact (Multiset.le_add_right _ _).trans (Multiset.le_add_left _ _)

theorem responses_returned {fn : Context → Body σ} (outputType : Option OutputType)
    {ctx : Context} {rs : List StepResponse} (hx : (prepared env inv).outcome = .ok (.ok ctx))
    (hcode : (codeRun env fn inv ctx).outcome = .intr (.response rs)) {x : StepResponse}
    (hmem : x ∈ rs) (hop : x.step.op = .stepRun) :
    x.originalError = none ∧
      .leave x.step.id (.returned x.output) ∈ (request env fn outputType inv).log := by
  have htold := told_interp env (fn ctx) Scope.top (prepared env inv).state rs
    (by rw [← codeRun, hcode]; rfl)
  have herror := htold.succeeded x hmem hop
  refine ⟨herror, StepResults.mem_settledIn.mp ?_⟩
  refine Multiset.mem_of_le (gathered_le outputType hx hcode) (List.mem_filterMap.mpr ⟨x, hmem, ?_⟩)
  exact StepResults.resultOf_returned.mpr ⟨hop, herror, rfl, rfl⟩

theorem call_responses {fn : Function σ} {fnId : String} {result : CallResult}
    {items : List CallItem}
    (h : (fn.call env fnId inv.ctx Scope.top inv.initial).outcome = .ok result)
    (hitems : result.multi = some items) :
    ∃ handler outputType between,
      (request env handler outputType inv).outcome = .ok between ∧
      (Function.afterRun env between Scope.top (request env handler outputType inv).state).outcome =
        .ok result ∧
      ∀ m ∈ (request env handler outputType inv).log,
        m ∈ (fn.call env fnId inv.ctx Scope.top inv.initial).log := by
  cases hselect : fn.select fnId with
  | error e =>
    rw [Function.call, hselect] at h
    rw [← Outcome.ok.inj h] at hitems
    simp [CallResult.ofError] at hitems
  | ok x =>
    obtain ⟨handler, outputType⟩ := x
    have hcall : fn.call env fnId inv.ctx Scope.top inv.initial =
        (Execution.run env inv.ctx (fun ctx => (handler ctx).interp env) outputType >>=
          Function.afterRun env) Scope.top inv.initial := by
      rw [Function.call, hselect]
    rw [hcall] at h ⊢
    refine ⟨handler, outputType, ?_⟩
    cases ho : (request env handler outputType inv).outcome with
    | ok between =>
      rw [Comp.bind_ok ho] at h ⊢
      exact ⟨between, rfl, h, fun m hm => List.mem_append_left _ hm⟩
    | exc e =>
      rw [Comp.bind_exc ho] at h
      simp at h
    | intr i =>
      rw [Comp.bind_intr ho] at h
      simp at h

theorem afterRun_items {between result : CallResult} {items : List CallItem} {s : State σ}
    (h : (Function.afterRun env between Scope.top s).outcome = .ok result)
    (hitems : result.multi = some items) :
    (transformOutput env.flavor env.middleware between Scope.top s).outcome = .ok (.ok result) := by
  rcases hrun : transformOutput env.flavor env.middleware between Scope.top s with ⟨o, t, l⟩
  cases o with
  | ok x =>
    cases x with
    | error e =>
      rw [afterRun_error hrun] at h
      rw [← Outcome.ok.inj h] at hitems
      simp [CallResult.ofError] at hitems
    | ok result' =>
      rw [afterRun_outcome hrun] at h
      cases herr : beforeResponseError env t with
      | none =>
        rw [herr] at h
        rw [← Outcome.ok.inj h]
        rfl
      | some e =>
        rw [herr] at h
        rw [← Outcome.ok.inj h] at hitems
        simp [CallResult.ofError] at hitems
  | exc e =>
    rw [Function.afterRun, Comp.bind_exc (by rw [hrun])] at h
    simp at h
  | intr i =>
    rw [Function.afterRun, Comp.bind_intr (by rw [hrun])] at h
    simp at h

theorem transformOutput_none_multi {flavor : Flavor} {ms : List (Middleware σ)}
    {between result : CallResult} {r : Scope} {s : State σ} (hnone : between.multi = none)
    (h : (transformOutput flavor ms between r s).outcome = .ok (.ok result)) :
    result.multi = none := by
  rw [transformOutput, hnone] at h
  simp only at h
  cases ho : (transformItem flavor ms between.toCallItem r s).outcome with
  | ok x =>
    rw [Comp.bind_ok ho] at h
    cases x with
    | error e => simp at h
    | ok item =>
      simp only [Done.after_outcome, Comp.pure_run, Outcome.ok.injEq, Except.ok.injEq] at h
      rw [← h]
  | exc e =>
    rw [Comp.bind_exc ho] at h
    simp at h
  | intr i =>
    rw [Comp.bind_intr ho] at h
    simp at h

theorem transformOutput_items {between result : CallResult} {rs : List StepResponse}
    {items : List CallItem} {s : State σ} (hrs : between.multi = some (rs.map CallResult.itemOf))
    (h : (transformOutput env.flavor env.middleware between Scope.top s).outcome =
      .ok (.ok result)) (hitems : result.multi = some items) :
    (∃ x result', rs = [x] ∧ items = [(CallResult.itemOf x).update result'] ∧
      (transformOutputHooks env.flavor env.middleware (CallResult.itemOf x).toTransform Scope.top
        s).outcome = .ok (.ok result')) ∨
    2 ≤ rs.length ∧ items = rs.map CallResult.itemOf := by
  rcases rs with - | ⟨x, - | ⟨y, rest⟩⟩
  · rw [transformOutput, hrs] at h
    simp at h
  · refine .inl ⟨x, ?_⟩
    obtain ⟨⟨o, ho⟩, -, -⟩ := hookLoop_spec (fun m => env.flavor = .sync ∧ m.isMiddleware)
      (fun m => m.transformOutput.called env.flavor) env.middleware.reverse
      (CallResult.itemOf x).toTransform Scope.top s
    rw [← transformOutputHooks] at ho
    have hitem : (transformItem env.flavor env.middleware (CallResult.itemOf x) Scope.top
        s).outcome = .ok (o.map (CallResult.itemOf x).update) := by
      rw [transformItem, if_neg (by simp [CallItem.isEmpty, CallResult.itemOf]), Comp.bind_ok ho]
      cases o <;> rfl
    rw [transformOutput, hrs] at h
    simp only [List.map_cons, List.map_nil] at h
    rw [Comp.bind_ok hitem] at h
    cases o with
    | error e => simp [Except.map] at h
    | ok result' =>
      simp only [Except.map, Done.after_outcome, Comp.pure_run, Outcome.ok.injEq,
        Except.ok.injEq] at h
      rw [← h] at hitems
      exact ⟨result', rfl, (Option.some.inj hitems).symm, ho⟩
  · refine .inr ⟨by simp, ?_⟩
    rw [transformOutput_several hrs] at h
    rw [← Except.ok.inj (Outcome.ok.inj h), hrs] at hitems
    exact (Option.some.inj hitems).symm

end Request

/-! ## There and back -/

/-- In every later request with these middleware: when the executor stored `w`
and the input hooks do not fail, the memo is `v`, and the step call gives what
`v` deserializes to. -/
def Returned (flavor : Flavor) (ms : List (Middleware σ)) (id : String) (v w : Json) : Prop :=
  ∀ (env : Env σ) loads (raw : Dict Json) ctx ctx' memos' r₀ s₀, env.flavor = flavor →
    env.middleware = ms → raw.lookup id = some (.obj [("data", w)]) →
    (transformInput env.flavor env.middleware ctx (StepMemos.fromRaw loads raw) r₀ s₀).outcome =
      .ok (.ok (ctx', memos')) →
    (memos'.pop id).1 = some ⟨v, none⟩ ∧
    ∀ stepId outputType handler (r : Scope) (s : State σ) u,
      (Step.parsedAt env stepId s).hashed = id → s.memos.lookup id = memos'.lookup id →
      r.inStep = false → env.deserialize v outputType = .ok u →
      (Step.run env stepId outputType handler r s).outcome = .ok u

theorem returned_of_restores {flavor : Flavor} {ms : List (Middleware σ)} {v w : Json}
    (h : Restores flavor ms v w) (id : String) : Returned flavor ms id v w := by
  intro env loads raw ctx ctx' memos' r₀ s₀ hflavor hms hraw hrun
  have hmemo := StepMemos.lookup_fromRaw loads raw id
  rw [hraw, Option.map_some, StepMemos.memo_data] at hmemo
  rw [hflavor, hms] at hrun
  have hread := h ctx _ id r₀ s₀ ctx' memos' hmemo hrun
  refine ⟨hread, fun stepId outputType handler r s u hid hs hr hu => ?_⟩
  rw [Step.run_memoized env outputType handler (by rw [hid, hs, hread]) hr]
  simp [Step.remembered, hu, Outcome.ofExcept]

/-- Any stack of the middleware `H` is transparent to the output of a step:
where it goes through the hooks, and where a request reports it. -/
structure Transparent (flavor : Flavor) (H : Set (Hooks σ)) : Prop where
  piped : ∀ (client fnMiddleware : List (Hooks σ)), (∀ h ∈ client ++ fnMiddleware, h ∈ H) →
    ∀ (result result' : CallResult) item info v r s, result.multi = some [item] →
    item.error = none → item.output = some v → item.step = some info →
    (transformOutput flavor (fromClient client fnMiddleware) result r s).outcome =
      .ok (.ok result') →
    ∃ item' w, result'.multi = some [item'] ∧ item'.output = some w ∧
      Returned flavor (fromClient client fnMiddleware) info.id v w
  called : ∀ (client fnMiddleware : List (Hooks σ)), (∀ h ∈ client ++ fnMiddleware, h ∈ H) →
    ∀ (env : Env σ) (fn : Function σ) fnId (inv : Invocation σ) result items item info w,
    env.flavor = flavor → env.middleware = fromClient client fnMiddleware →
    (fn.call env fnId inv.ctx Scope.top inv.initial).outcome = .ok result →
    result.multi = some items → (items.map fun x => x.step.map StepInfo.id).Nodup →
    item ∈ items → item.step = some info → info.op = .stepRun → item.output = some w →
    ∃ v, .leave info.id (.returned v) ∈ (fn.call env fnId inv.ctx Scope.top inv.initial).log ∧
      items = [item] ∧ Returned flavor (fromClient client fnMiddleware) info.id v w

section Stack
variable {flavor : Flavor} {client fnMiddleware : List (Hooks σ)} {result result' : CallResult}
  {item : CallItem}

theorem transformOutput_item {ms : List (Middleware σ)} {info : StepInfo} {r : Scope} {s : State σ}
    (hmulti : result.multi = some [item]) (hinfo : item.step = some info)
    (h : (transformOutput flavor ms result r s).outcome = .ok (.ok result')) :
    ∃ out, result'.multi = some [item.update out] ∧
      (transformOutputHooks flavor ms item.toTransform r s).outcome = .ok (.ok out) := by
  obtain ⟨⟨o, ho⟩, -, -⟩ := hookLoop_spec (fun m => flavor = .sync ∧ m.isMiddleware)
    (fun m => m.transformOutput.called flavor) ms.reverse item.toTransform r s
  rw [← transformOutputHooks] at ho
  have hitem : (transformItem flavor ms item r s).outcome = .ok (o.map item.update) := by
    rw [transformItem, if_neg (by simp [CallItem.isEmpty, hinfo]), Comp.bind_ok ho]
    cases o <;> rfl
  rw [transformOutput, hmulti] at h
  simp only at h
  rw [Comp.bind_ok hitem] at h
  cases o with
  | error e => simp [Except.map] at h
  | ok out =>
    simp only [Except.map, Done.after_outcome, Comp.pure_run, Outcome.ok.injEq,
      Except.ok.injEq] at h
    exact ⟨out, by rw [← h], ho⟩

theorem safely_fromClient (h : ∀ h ∈ client ++ fnMiddleware, Safe flavor h) :
    ∀ m ∈ fromClient client fnMiddleware, Safely flavor m := by
  rw [fromClient, List.forall_mem_cons]
  exact ⟨trivial, List.forall_mem_map.mpr h⟩

theorem piped_of_safe (hsafe : ∀ h ∈ client ++ fnMiddleware, Safe flavor h) {info : StepInfo}
    {v : Json} {r : Scope} {s : State σ} (hmulti : result.multi = some [item])
    (herror : item.error = none) (hv : item.output = some v) (hinfo : item.step = some info)
    (h : (transformOutput flavor (fromClient client fnMiddleware) result r s).outcome =
      .ok (.ok result')) :
    ∃ item' w, result'.multi = some [item'] ∧ item'.output = some w ∧
      Returned flavor (fromClient client fnMiddleware) info.id v w := by
  obtain ⟨out, hout, hhooks⟩ := transformOutput_item hmulti hinfo h
  obtain ⟨-, w, hw, hrestores⟩ :=
    restores_outputs (safely_fromClient hsafe) hhooks herror hv
  exact ⟨_, w, hout, hw, returned_of_restores hrestores _⟩

/-- An output that a request reports was returned by the handler of its step,
and is alone unless all that is reported has its ID. -/
theorem called_alone {env : Env σ} {fn : Function σ} {fnId : String} {inv : Invocation σ}
    {items : List CallItem} {info : StepInfo} {w : Json}
    (hcall : (fn.call env fnId inv.ctx Scope.top inv.initial).outcome = .ok result)
    (hitems : result.multi = some items)
    (hdistinct : (items.map fun x => x.step.map StepInfo.id).Nodup) (hitem : item ∈ items)
    (hinfo : item.step = some info) (hop : info.op = .stepRun) (hw : item.output = some w) :
    ∃ (between : CallResult) (x : StepResponse) (s : State σ),
      .leave info.id (.returned x.output) ∈
        (fn.call env fnId inv.ctx Scope.top inv.initial).log ∧
      items = [item] ∧ between.multi = some [CallResult.itemOf x] ∧ x.originalError = none ∧
      x.step.id = info.id ∧ (transformOutput env.flavor env.middleware between Scope.top
        s).outcome = .ok (.ok result) := by
  obtain ⟨handler, outputType, between, hrequest, hafter, hlog⟩ := call_responses hcall hitems
  have hpiped := afterRun_items hafter hitems
  obtain ⟨items', hbetween⟩ : ∃ items', between.multi = some items' := by
    refine Option.ne_none_iff_exists'.mp fun hnone => ?_
    rw [transformOutput_none_multi hnone hpiped] at hitems
    simp at hitems
  obtain ⟨ctx, rs, hx, hcode, rfl⟩ := request_responses hrequest hbetween
  have htold := told_interp env (handler ctx) Scope.top (prepared env inv).state rs
    (by rw [← codeRun, hcode]; rfl)
  rcases transformOutput_items hbetween hpiped hitems with ⟨x, out, rfl, rfl, -⟩ | ⟨hlen, rfl⟩
  · obtain rfl := List.mem_singleton.mp hitem
    simp only [CallItem.update, CallResult.itemOf, Option.map_some, Option.some.injEq] at hinfo
    subst hinfo
    obtain ⟨herror, hleave⟩ := responses_returned outputType hx hcode List.mem_cons_self hop
    exact ⟨between, x, _, hlog _ hleave, rfl, hbetween, herror, rfl, hpiped⟩
  · -- several outputs are only reported under the ID that the request targets
    obtain ⟨x, hxrs, rfl⟩ := List.mem_map.mp hitem
    obtain rfl := Option.some.inj hinfo
    have htarget := (htold.alone x hxrs hop).resolve_right fun h => by simp [h.2] at hlen
    have hids : (rs.map CallResult.itemOf).map (fun y => y.step.map StepInfo.id) =
        List.replicate rs.length (some x.step.id) := by
      rw [List.eq_replicate_iff, List.length_map, List.length_map]
      refine ⟨rfl, ?_⟩
      rw [List.map_map, List.forall_mem_map]
      exact fun y hy => congrArg some (htold.targeted _ htarget y hy)
    rw [hids, List.nodup_replicate] at hdistinct
    omega

end Stack

/-! ## A middleware that is dropped -/

def wrapped : Output → Json
  | ⟨data, none⟩ => .obj [("data", data)]
  | ⟨data, some ⟨message, name, none⟩⟩ =>
    .obj [("data", data), ("error", .obj [("message", .str message), ("name", .str name)])]
  | ⟨data, some ⟨message, name, some stack⟩⟩ =>
    .obj [("data", data), ("error",
      .obj [("message", .str message), ("name", .str name), ("stack", .str stack)])]

theorem memo_wrapped (loads : String → Option Json) (o : Output) :
    StepMemos.memo loads (wrapped o) = o := by
  obtain ⟨data, - | ⟨message, name, - | stack⟩⟩ := o <;>
    simp [wrapped, StepMemos.memo, Output.fromRaw, Output.validate, MemoizedError.validate,
      Json.field]

theorem fromRaw_wrapped (loads : String → Option Json) (memos : StepMemos) :
    StepMemos.fromRaw loads (memos.mapValues wrapped) = memos := by
  refine AList.ext ?_
  simp [StepMemos.fromRaw, Dict.mapValues, memo_wrapped, Function.comp_def]

section Dropped
variable {flavor : Flavor} {h : Hooks σ} (hdropped : Dropped flavor h)
include hdropped

theorem transformOutput_dropped {result : CallResult} {item : CallItem} {info : StepInfo}
    (hmulti : result.multi = some [item]) (hinfo : item.step = some info) (r : Scope)
    (s : State σ) :
    (transformOutput flavor (fromClient [h] []) result r s).outcome = .ok (.ok result) := by
  obtain ⟨rfl, hclass, houtput, -⟩ := hdropped
  have hcalled : h.transformOutput.called .sync =
      { h.transformOutput with call := fun s a => ((s, a), none) } := if_pos ⟨rfl, houtput⟩
  have hhooks : transformOutputHooks .sync (fromClient [h] []) item.toTransform r s =
      ⟨.ok (.ok item.toTransform), s, []⟩ := by
    simp [transformOutputHooks, fromClient, hookLoop, hclass, hcalled, Comp.done]
  have hitem : transformItem .sync (fromClient [h] []) item r s = ⟨.ok (.ok item), s, []⟩ := by
    rw [transformItem, if_neg (by simp [CallItem.isEmpty, hinfo]), Comp.bind_ok (by rw [hhooks]),
      hhooks]
    simp [CallItem.update_toTransform, Comp.pure_run]
  rw [transformOutput_one hmulti hitem]
  obtain ⟨first, multi⟩ := result
  obtain rfl : multi = some [item] := hmulti
  rfl

theorem transformInput_dropped {t t' : σ} {ctx ctx' : Context} {memos memos' : StepMemos}
    (hcall : h.transformInput.call t (ctx, memos) = ((t', ctx', memos'), none)) (r : Scope)
    {s : State σ} (hs : s.store = t) :
    (transformInput flavor (fromClient [h] []) ctx memos r s).outcome =
      .ok (.ok (ctx', memos')) := by
  subst hs
  have hrefuse : refuseCoroutine flavor Hooks.transformInput h = false := by
    simp [refuseCoroutine, hdropped.2.2.2]
  have hlogger : transformInput flavor (fromClient [h] []) ctx memos r s =
      hookLoop (refuseCoroutine flavor Hooks.transformInput) Hooks.transformInput [.user h]
        (ctx, memos) r s := rfl
  rw [hlogger, hookLoop_user hrefuse, hcall]
  rfl

theorem leavesData_of_transparent {H : Set (Hooks σ)} (ht : Transparent flavor H) (hmem : h ∈ H) :
    LeavesData h := by
  intro t t' ctx ctx' memos memos' id v hcall hmemo
  let info : StepInfo := ⟨id, id, none, .stepRun, none, none⟩
  let item : CallItem := ⟨none, some v, some info⟩
  let s : State σ := ⟨memos, fun _ => 0, false, false, fun _ => none, t⟩
  obtain ⟨item', w, hitem', hw, hreturned⟩ := ht.piped [h] [] (by simpa using hmem)
    ⟨⟨none, none, none⟩, some [item]⟩ _ item info v Scope.top s rfl rfl rfl rfl
    (transformOutput_dropped hdropped rfl rfl Scope.top s)
  obtain rfl : item = item' := (List.cons.inj (Option.some.inj hitem')).1
  obtain rfl : v = w := Option.some.inj hw
  -- what the executor has stored is read as the memos
  have hraw : (memos.mapValues wrapped).lookup id = some (.obj [("data", v)]) := by
    rw [Dict.lookup_mapValues, hmemo]
    rfl
  have hread := transformInput_dropped hdropped hcall Scope.top (s := s) rfl
  rw [← fromRaw_wrapped (fun _ => none) memos] at hread
  exact (hreturned ⟨flavor, fun _ => id, none, fromClient [h] [], ⟨0, false, none, "run"⟩, none⟩
    (fun _ => none) _ ctx ctx' memos' Scope.top s rfl rfl hraw hread).1

end Dropped

/-- The stacks of middleware that retract are transparent exactly when no
middleware is dropped, or those that are leave data as it is. -/
theorem stack_retracts_iff {flavor : Flavor} {H : Set (Hooks σ)} (hretracts : ∀ h ∈ H, Retracts h) :
    Transparent flavor H ↔ ∀ h ∈ H, Dropped flavor h → LeavesData h := by
  constructor
  · exact fun ht h hmem hdropped => leavesData_of_transparent hdropped ht hmem
  · intro hleaves
    have hsafe : ∀ {l : List (Hooks σ)}, (∀ h ∈ l, h ∈ H) → ∀ h ∈ l, Safe flavor h :=
      fun hl h hm => ⟨hretracts h (hl h hm), hleaves h (hl h hm)⟩
    constructor
    · intro client fnMiddleware hmem result result' item info v r s hmulti herror hv hinfo hrun
      exact piped_of_safe (hsafe hmem) hmulti herror hv hinfo hrun
    · intro client fnMiddleware hmem env fn fnId inv result items item info w hflavor hmiddleware
        hcall hitems hdistinct hitem hinfo hop hw
      obtain ⟨between, x, s, hleave, rfl, hbetween, herror, hid, hrun⟩ :=
        called_alone hcall hitems hdistinct hitem hinfo hop hw
      rw [hflavor, hmiddleware] at hrun
      obtain ⟨item', w', hitem', hw', hreturned⟩ := piped_of_safe (v := x.output) (hsafe hmem)
        hbetween herror rfl rfl hrun
      rw [hitems] at hitem'
      obtain rfl : item = item' := (List.cons.inj (Option.some.inj hitem')).1
      obtain rfl := Option.some.inj (hw.symm.trans hw')
      exact ⟨x.output, hleave, rfl, hid ▸ hreturned⟩

/-! ## A tag -/

def tagged (tag : String) (v : Json) : Json := .arr [.str tag, v]

def untagged (tag : String) : Json → Json
  | .arr [.str t, v] => if t = tag then v else .arr [.str t, v]
  | v => v

def tagging (tag : String) : Hooks Unit where
  transformInput := ⟨false, fun s x =>
    ((s, x.1, Dict.mapValues (fun memo => { memo with data := untagged tag memo.data }) x.2), none)⟩
  transformOutput := ⟨false, fun s result =>
    ((s, { result with output := result.output.map (tagged tag) }), none)⟩

/-- The same with an `async def transform_output`. -/
def taggingLater (tag : String) : Hooks Unit :=
  { tagging tag with transformOutput := { (tagging tag).transformOutput with isCoroutine := true } }

theorem tagging_retracts (tag : String) : Retracts (tagging tag) := by
  intro s s' result result' v h herror hv
  simp only [tagging, Prod.mk.injEq, and_true] at h
  rw [← h.2]
  refine ⟨herror, tagged tag v, by simp [hv], fun t t' ctx ctx' memos memos' id hcall hmemo => ?_⟩
  simp only [tagging, Prod.mk.injEq, and_true] at hcall
  rw [← hcall.2.2]
  simp [hmemo, tagged, untagged]

theorem stack_retracts_iff_tagging : (∀ h ∈ ({tagging "a"} : Set (Hooks Unit)), Retracts h) ∧
    (Transparent .sync {tagging "a"} ↔
      ∀ h ∈ ({tagging "a"} : Set (Hooks Unit)), Dropped .sync h → LeavesData h) := by
  have hretracts : ∀ h ∈ ({tagging "a"} : Set (Hooks Unit)), Retracts h := by
    rintro h rfl
    exact tagging_retracts "a"
  exact ⟨hretracts, stack_retracts_iff hretracts⟩

/-! The handler returns data that has the tag already. The sync manager drops the
coroutine that would put another one on, and the later request takes off the
first. -/

def laterEnv : Env Unit :=
  { Sample.env none with flavor := .sync, middleware := fromClient [taggingLater "a"] [] }

def returnsTagged : Function Unit where
  id := "app-fn"
  handler _ := GroupResults.runThenReturn "a" (tagged "a" (.int 1))
  outputType := none
  onFailure := none

def callWith (raw : List (String × Output)) : Run Unit CallResult :=
  returnsTagged.call laterEnv "app-fn" (Sample.invocation raw).ctx Scope.top
    (Sample.invocation raw).initial

theorem dropped_not_retracted :
    Retracts (taggingLater "a") ∧ ¬ Transparent .sync {taggingLater "a"} ∧
      (callWith []).outcome = .ok ⟨⟨none, none, none⟩, some [⟨none, some (tagged "a" (.int 1)),
        some ⟨"a", Sample.hashStepId "a", some "a", .stepRun, none, some ⟨"a", none⟩⟩⟩]⟩ ∧
      (callWith [("a", StepMemos.memo (fun _ => none)
        (.obj [("data", tagged "a" (.int 1))]))]).outcome = .ok (CallResult.ofOutput (.int 1)) := by
  refine ⟨tagging_retracts "a", fun ht => ?_, by decide +kernel, by decide +kernel⟩
  have hleaves : LeavesData (taggingLater "a") :=
    leavesData_of_transparent ⟨rfl, rfl, rfl, rfl⟩ ht rfl
  let memos : StepMemos := AList.singleton "a" ⟨tagged "a" .null, none⟩
  have hread := hleaves () () (Sample.invocation []).ctx _ memos _ "a" (tagged "a" .null) rfl rfl
  exact absurd hread (by decide +kernel)

end Inngest.DataPipeline
