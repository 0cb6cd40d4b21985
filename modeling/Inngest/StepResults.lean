import Mathlib.Data.Multiset.OrderedMonoid
import Inngest.GroupResults
import Inngest.HandlerEntry

/-!
# Where the results of executed steps go

What a handler gave travels as an interrupt through the groups around it. It
is never duplicated: each result is in the interrupt that leaves, or in the
responses that some group gave up when an exception ended it. Only in the
second case does the executor not hear of it.
-/

set_option autoImplicit false

namespace Inngest.StepResults
open ServerLib Errors StepLib Effect Engine History

abbrev Results := Multiset (String × HandlerExit)

/-- What an executed step has to report. A handler that called a step reports
the nested-step error. -/
def settled : Mark → Option (String × HandlerExit)
  | .leave id (.returned output) => some (id, .returned output)
  | .leave id (.failed e) => some (id, .failed e)
  | .leave id .nested => some (id, .failed Step.nestedError)
  | _ => none

def resultOf (response : StepResponse) : Option (String × HandlerExit) :=
  match response.step.op, response.originalError with
  | .stepRun, none => some (response.step.id, .returned response.output)
  | .stepError, some e => some (response.step.id, .failed e)
  | .stepFailed, some e => some (response.step.id, .failed e)
  | _, _ => none

def gathered (responses : List StepResponse) : Results := responses.filterMap resultOf

def settledIn (l : List Mark) : Results := l.filterMap settled

def abandonedBy : Mark → List (String × HandlerExit)
  | .abandoned responses => responses.filterMap resultOf
  | _ => []

def abandonedIn (l : List Mark) : Results := l.flatMap abandonedBy

def carried : Option Interrupt → Results
  | some (.response responses) => gathered responses
  | _ => 0

section Append
variable (m : Mark) (l l' : List Mark)

@[simp] theorem settledIn_nil : settledIn [] = 0 := rfl

@[simp] theorem abandonedIn_nil : abandonedIn [] = 0 := rfl

@[simp] theorem settledIn_append : settledIn (l ++ l') = settledIn l + settledIn l' := by
  simp [settledIn]

@[simp] theorem abandonedIn_append : abandonedIn (l ++ l') = abandonedIn l + abandonedIn l' := by
  simp [abandonedIn]

@[simp] theorem settledIn_cons : settledIn (m :: l) = ((settled m).toList : Results) +
    settledIn l := by
  cases h : settled m <;> simp [settledIn, h]

@[simp] theorem abandonedIn_cons : abandonedIn (m :: l) = (abandonedBy m : Results) +
    abandonedIn l := by
  simp [abandonedIn]

@[simp] theorem gathered_append (ds ds' : List StepResponse) :
    gathered (ds ++ ds') = gathered ds + gathered ds' := by
  simp [gathered]

@[simp] theorem carried_none : carried none = 0 := rfl

end Append

theorem resultOf_setParallelMode (response : StepResponse) (mode : ParallelMode) :
    resultOf (response.setParallelMode mode) = resultOf response := by
  simp [resultOf, StepResponse.setParallelMode]

theorem gathered_setParallelMode (ds : List StepResponse) (mode : ParallelMode) :
    gathered (ds.map fun d => d.setParallelMode mode) = gathered ds := by
  simp [gathered, List.filterMap_map, resultOf_setParallelMode]

structure Conserved {σ : Type} (r : Scope) (_s : State σ) (l : List Mark) (_s' : State σ)
    (o : Option Interrupt) : Prop where
  balance : settledIn l = carried o + abandonedIn l
  inner : r.inStep = true → settledIn l = 0
  sub : (settledIn l).map Prod.fst ≤ (entered l : Multiset String)

section Rules
variable {σ : Type} {env : Env σ} {r : Scope} {s s' : State σ} {l : List Mark}
  {o : Option Interrupt}

theorem conserved_chain : Chain (Conserved (σ := σ)) where
  nil := fun _ _ => ⟨rfl, fun _ => rfl, by simp⟩
  append := fun h₁ h₂ => by
    refine ⟨?_, fun hr => by simp [h₁.inner hr, h₂.inner hr], ?_⟩
    · simp only [settledIn_append, abandonedIn_append, h₁.balance, h₂.balance, carried_none,
        zero_add, add_left_comm]
    · rw [settledIn_append, Multiset.map_add, entered_append, ← Multiset.coe_add]
      exact add_le_add h₁.sub h₂.sub

theorem conserved_silent (hs : settledIn l = 0) (ha : abandonedIn l = 0)
    (ho : carried o = 0) : Conserved r s l s' o :=
  ⟨by rw [hs, ha, ho, add_zero], fun _ => hs, by rw [hs]; exact Multiset.zero_le _⟩

theorem settled_pop {info : StepInfo} {d : Run σ (Option Output)}
    (hp : Execution.PopDone env info r s d) : settledIn d.log = 0 := by
  rw [settledIn, filterMap_pop hp fun _ _ => rfl]
  rfl

theorem abandoned_pop {info : StepInfo} {d : Run σ (Option Output)}
    (hp : Execution.PopDone env info r s d) : abandonedIn d.log = 0 := by
  obtain ⟨hooks, hl, hh⟩ := pop_log hp
  rw [hl, abandonedIn, List.flatMap_cons]
  have : hooks.flatMap abandonedBy = [] := by
    rw [List.flatMap_eq_nil_iff]
    intro m hm
    obtain ⟨i, e, rfl⟩ := hh m hm
    rfl
  simp [this, abandonedBy]

theorem carried_waiting (info : StepInfo) :
    carried (some (.response [.ofStep { info with op := Step.waitingOp info.op }])) = 0 := by
  cases info.op <;> simp [carried, gathered, resultOf, StepResponse.ofStep, Step.waitingOp]

theorem carried_endOf (env : Env σ) {info : StepInfo} {x : Outcome PyError Interrupt Json}
    (hop : info.op = .stepRun) (hx : carried x.escape = 0) :
    carried (Step.endOf env info x).escape =
      ((settled (.leave info.id (Step.exitOf x))).toList : Results) := by
  cases x with
  | ok v => simp [Step.endOf, Step.exitOf, carried, gathered, resultOf, settled, hop]
  | exc e =>
    cases hb : Step.bubbles e with
    | true => simp [Step.endOf, Step.exitOf, hb, settled]
    | false =>
      have hf : Step.failedOp env = .stepError ∨ Step.failedOp env = .stepFailed := by
        simp only [Step.failedOp]
        split
        · split <;> simp
        · simp
      rcases hf with hf | hf <;>
        simp [Step.endOf, Step.exitOf, hb, carried, gathered, resultOf, settled, hf]
  | intr i =>
    cases i with
    | nested => simp [Step.endOf, Step.exitOf, carried, gathered, resultOf, settled]
    | response rs => simpa [Step.endOf, Step.exitOf, settled] using hx
    | skip id => simp [Step.endOf, Step.exitOf, settled, carried]

theorem conserved_step {info : StepInfo} {decode : Json → Except PyError Json}
    {outputType : Option OutputType} {handler : Exec σ Json} {d : Run σ Json} (path : List ℕ)
    (b : Option String) (hh : Guar Conserved handler)
    (hd : Step.StepDone env info decode outputType handler r s d) :
    Conserved r s (.parsed path info.id b :: d.log) d.state d.outcome.escape := by
  cases hd with
  | answered hp =>
    exact conserved_silent (by simp [settled, settled_pop hp])
      (by simp [abandonedBy, abandoned_pop hp]) (by simp)
  | nested hp =>
    exact conserved_silent (by simp [settled, settled_pop hp])
      (by simp [abandonedBy, abandoned_pop hp]) rfl
  | skipped hp =>
    exact conserved_silent (by simp [settled, settled_pop hp])
      (by simp [abandonedBy, abandoned_pop hp]) rfl
  | responded hp =>
    exact conserved_silent (by simp [settled, settled_pop hp])
      (by simp [abandonedBy, abandoned_pop hp]) (carried_waiting info)
  | @executed d _ hp hm hr hop hmay hrun =>
    subst hrun
    have h := hh (r.inHandler info.id) d.state
    have hin : settledIn (handler (r.inHandler info.id) d.state).log = 0 := h.inner rfl
    have hbal := h.balance
    rw [hin] at hbal
    obtain ⟨hcar, hab⟩ := add_eq_zero.mp hbal.symm
    have hend := carried_endOf env hop
      (x := Step.serialized env outputType (handler (r.inHandler info.id) d.state).outcome)
      (by rw [serialized_escape]; exact hcar)
    refine ⟨?_, fun hs => by simp [hr] at hs, ?_⟩
    · rw [hend]
      simp [settled, abandonedBy, settled_pop hp, abandoned_pop hp, hin, hab]
    · have hs : settledIn (.parsed path info.id b :: (d.log ++ .enter info.id r.inParallel
          (Dict.size d.state.memos) :: ((handler (r.inHandler info.id) d.state).log ++
            [.leave info.id (Step.exitOf (Step.serialized env outputType
              (handler (r.inHandler info.id) d.state).outcome))]))) =
          ((settled (.leave info.id (Step.exitOf (Step.serialized env outputType
            (handler (r.inHandler info.id) d.state).outcome)))).toList : Results) := by
        simp [settled, settled_pop hp, hin]
      have he : entered (.parsed path info.id b :: (d.log ++ .enter info.id r.inParallel
          (Dict.size d.state.memos) :: ((handler (r.inHandler info.id) d.state).log ++
            [.leave info.id (Step.exitOf (Step.serialized env outputType
              (handler (r.inHandler info.id) d.state).outcome))]))) =
          info.id :: entered (handler (r.inHandler info.id) d.state).log := by
        simp [enteredId, entered_pop hp]
      rw [hs, he]
      cases Step.exitOf
          (Step.serialized env outputType (handler (r.inHandler info.id) d.state).outcome) <;>
        simp [settled, ← Multiset.cons_coe, ← Multiset.singleton_add]

structure LoopConserved (r : Scope) (l : List Mark) (ds : List StepResponse) : Prop where
  balance : settledIn l = gathered ds + abandonedIn l
  inner : r.inStep = true → settledIn l = 0
  sub : (settledIn l).map Prod.fst ≤ (entered l : Multiset String)

theorem loopConserved_append {ds : List StepResponse} {l₁ l₂ : List Mark} {t t' : State σ}
    (h₁ : LoopConserved r l₁ ds) (h₂ : Conserved r t l₂ t' o) :
    settledIn (l₁ ++ l₂) = (gathered ds + carried o) + abandonedIn (l₁ ++ l₂) ∧
      (r.inStep = true → settledIn (l₁ ++ l₂) = 0) ∧
      (settledIn (l₁ ++ l₂)).map Prod.fst ≤ (entered (l₁ ++ l₂) : Multiset String) := by
  refine ⟨?_, fun hr => by simp [h₁.inner hr, h₂.inner hr], ?_⟩
  · simp only [settledIn_append, abandonedIn_append, h₁.balance, h₂.balance, add_assoc,
      add_left_comm]
  · rw [settledIn_append, Multiset.map_add, entered_append, ← Multiset.coe_add]
    exact add_le_add h₁.sub h₂.sub

theorem conserved_abandoned {ds : List StepResponse}
    (hb : settledIn l = (gathered ds + carried o) + abandonedIn l)
    (hin : r.inStep = true → settledIn l = 0)
    (hsub : (settledIn l).map Prod.fst ≤ (entered l : Multiset String)) :
    Conserved r s (l ++ [.abandoned ds]) s' o := by
  refine ⟨?_, by simpa [settled] using hin, by simpa [settled, enteredId] using hsub⟩
  have hs : settledIn (l ++ [.abandoned ds]) = settledIn l := by simp [settled]
  have ha : abandonedIn (l ++ [.abandoned ds]) = abandonedIn l + gathered ds := by
    simp [abandonedBy, gathered]
  rw [hs, ha, hb, add_comm (gathered ds), add_assoc, add_comm (gathered ds)]

theorem conserved_group {callables : List (Exec σ Json)} {mode : ParallelMode}
    (hcs : ∀ c ∈ callables, Guar Conserved c) :
    Guar Conserved (Group.parallel callables mode) := by
  refine Group.guar_parallel (G := fun r _ l _ ds => LoopConserved r l ds) ?_ ?_ ?_ mode hcs
  · intro r
    refine ⟨fun s => ⟨rfl, fun _ => rfl, by simp⟩, ?_, ?_, ?_, ?_⟩
    · intro s l₁ s₁ ds l₂ s₂ h₁ h₂
      obtain ⟨hb, hin, hsub⟩ := loopConserved_append h₁ h₂
      exact ⟨by simpa using hb, hin, hsub⟩
    · intro s l₁ s₁ ds l₂ s₂ i new h₁ h₂ ha
      obtain ⟨hb, hin, hsub⟩ := loopConserved_append h₁ h₂
      refine ⟨?_, hin, hsub⟩
      rw [hb, gathered_append]
      cases i with
      | response rs => rw [show rs = new from Option.some.inj ha]; rfl
      | skip id => rw [← show [] = new from Option.some.inj ha]; rfl
      | nested => simp [Group.caught] at ha
    · intro s l₁ s₁ ds l₂ s₂ h₁ h₂
      obtain ⟨hb, hin, hsub⟩ := loopConserved_append h₁ h₂
      exact conserved_abandoned hb hin hsub
    · intro s l₁ s₁ ds l₂ s₂ i h₁ h₂ _
      obtain ⟨hb, hin, hsub⟩ := loopConserved_append h₁ h₂
      exact conserved_abandoned hb hin hsub
  · exact fun r s l s' o _ h => ⟨h.balance, h.inner, h.sub⟩
  · intro r s l s' ds mode h
    refine ⟨?_, h.inner, h.sub⟩
    rw [h.balance]
    split
    · rename_i hds
      rw [hds]
      rfl
    · rw [carried, gathered_setParallelMode]

theorem conserved_interp (env : Env σ) (b : Body σ) : Guar Conserved (b.interp env) := by
  refine Body.guar_interp conserved_chain ?_ ?_ ?_ ?_ ?_ ?_ ?_ ?_ b
  · exact fun r p s l s' o h => ⟨h.balance, h.inner, h.sub⟩
  · exact fun r s x => conserved_silent rfl rfl rfl
  · exact fun r s name method => conserved_silent rfl rfl rfl
  · exact fun r s name message found _ => conserved_silent rfl rfl rfl
  · exact fun stepId r s => conserved_silent rfl rfl rfl
  · intro stepId info decode outputType handler r s d _ hh hd
    have h := conserved_step r.path r.running hh hd
    exact ⟨h.balance, h.inner, h.sub⟩
  · exact fun callables mode hcs => conserved_group hcs
  · exact fun r s complete => conserved_silent rfl rfl rfl

end Rules

section
variable {σ : Type} {env : Env σ} {fn : Context → Body σ} {outputType : Option OutputType}
  {inv : Invocation σ}

/-- A multi result holds a `StepRun` response for the step with this value. -/
def Reports (result : CallResult) (id : String) (v : Json) : Prop :=
  ∃ items, result.multi = some items ∧ ∃ item ∈ items, item.error = none ∧
    item.output = some v ∧ ∃ info, item.step = some info ∧ info.id = id ∧ info.op = .stepRun

/-- A group gave up a `StepRun` response when an exception ended it. -/
def LosesResult (l : List Mark) : Prop :=
  ∃ responses, Mark.abandoned responses ∈ l ∧
    ∃ response ∈ responses, response.step.op = .stepRun ∧ response.originalError = none

theorem code_not_nested (env : Env σ) (inv : Invocation σ) (fn : Context → Body σ)
    (ctx : Context) :
    (codeRun env fn inv ctx).outcome.escape ≠ some .nested := by
  intro h
  exact absurd
    ((GroupResults.waiting_interp env (fn ctx) Scope.top (prepared env inv).state).nested h)
    (by decide)

theorem exists_resultOf (env : Env σ) (fn : Context → Body σ) (outputType : Option OutputType)
    (inv : Invocation σ) (ctx : Context) (err : Option PyError) :
    ∃ result, Execution.resultOf err
      (Step.serialized env outputType (codeRun env fn inv ctx).outcome) = some result := by
  have hesc := serialized_escape env outputType (codeRun env fn inv ctx).outcome
  cases ho : Step.serialized env outputType (codeRun env fn inv ctx).outcome with
  | ok output => exact ⟨_, rfl⟩
  | exc e => exact ⟨_, rfl⟩
  | intr i =>
    cases i with
    | response responses => exact ⟨_, rfl⟩
    | skip id => exact ⟨_, rfl⟩
    | nested =>
      rw [ho] at hesc
      exact absurd hesc.symm (code_not_nested env inv fn ctx)

theorem request_outcome_iff {ctx : Context} (h : (prepared env inv).outcome = .ok (.ok ctx))
    {result : CallResult} :
    (request env fn outputType inv).outcome = .ok result ↔
      Execution.resultOf (Execution.afterError env Scope.top (codeRun env fn inv ctx).state)
        (Step.serialized env outputType (codeRun env fn inv ctx).outcome) = some result := by
  obtain ⟨result', hr⟩ := exists_resultOf env fn outputType inv ctx
    (Execution.afterError env Scope.top (codeRun env fn inv ctx).state)
  rw [request_outcome fn outputType h hr, hr]
  simp

theorem request_result (env : Env σ) (fn : Context → Body σ) (outputType : Option OutputType)
    (inv : Invocation σ) :
    ∃ result, (request env fn outputType inv).outcome = .ok result ∧ result.step = none := by
  obtain ⟨x, hx⟩ := prepared_outcome env inv
  cases x with
  | error e => exact ⟨_, by rw [request_stopped fn outputType hx], rfl⟩
  | ok ctx =>
    obtain ⟨result, hresult⟩ := exists_resultOf env fn outputType inv ctx
      (Execution.afterError env Scope.top (codeRun env fn inv ctx).state)
    refine ⟨result, request_outcome fn outputType hx hresult, ?_⟩
    have hunless : ∀ err r, r.step = none → (Execution.unlessError err r).step = none := by
      intro err r hr
      cases err with
      | none => exact hr
      | some e => rfl
    cases ho : Step.serialized env outputType (codeRun env fn inv ctx).outcome with
    | ok v =>
      rw [ho] at hresult
      rw [← Option.some.inj hresult]
      exact hunless _ _ rfl
    | exc e =>
      rw [ho] at hresult
      rw [← Option.some.inj hresult]
      rfl
    | intr i =>
      rw [ho] at hresult
      cases i with
      | response rs =>
        rw [← Option.some.inj hresult]
        exact hunless _ _ rfl
      | skip id =>
        rw [← Option.some.inj hresult]
        rfl
      | nested => simp [Execution.resultOf] at hresult

/-- `after_execution` does not fail in this request. -/
def AfterSilent (env : Env σ) (fn : Context → Body σ) (inv : Invocation σ) : Prop :=
  ∀ ctx, (prepared env inv).outcome = .ok (.ok ctx) →
    Execution.afterError env Scope.top (codeRun env fn inv ctx).state = none

theorem code_result (outputType : Option OutputType) (hooks : AfterSilent env fn inv)
    {ctx : Context} (h : (prepared env inv).outcome = .ok (.ok ctx)) :
    (∃ responses, (codeRun env fn inv ctx).outcome = .intr (.response responses) ∧
      (request env fn outputType inv).outcome = .ok (CallResult.fromResponses responses)) ∨
    (∀ responses, (codeRun env fn inv ctx).outcome ≠ .intr (.response responses)) ∧
      ∃ result, (request env fn outputType inv).outcome = .ok result ∧ result.multi = none := by
  have hnested := code_not_nested env inv fn ctx
  have hr := @request_outcome σ env fn outputType inv ctx h
  rw [hooks ctx h] at hr
  cases ho : (codeRun env fn inv ctx).outcome with
  | ok v =>
    rw [ho] at hr
    refine .inr ⟨by simp, ?_⟩
    cases hs : env.serialize v outputType with
    | ok output => exact ⟨_, hr (by simp only [Step.serialized, hs]; rfl), rfl⟩
    | error e => exact ⟨_, hr (by simp only [Step.serialized, hs]; rfl), rfl⟩
  | exc e =>
    rw [ho] at hr
    exact .inr ⟨by simp, _, hr rfl, rfl⟩
  | intr i =>
    rw [ho] at hr hnested
    cases i with
    | response rs => exact .inl ⟨rs, rfl, hr rfl⟩
    | skip id => exact .inr ⟨by simp, _, hr rfl, rfl⟩
    | nested => exact absurd rfl hnested

theorem resultOf_returned {response : StepResponse} {id : String} {v : Json} :
    resultOf response = some (id, .returned v) ↔ response.step.op = .stepRun ∧
      response.originalError = none ∧ response.step.id = id ∧ response.output = v := by
  cases hop : response.step.op <;> cases he : response.originalError <;>
    simp [resultOf, hop, he]

theorem mem_settledIn {l : List Mark} {id : String} {v : Json} :
    (id, HandlerExit.returned v) ∈ settledIn l ↔ .leave id (.returned v) ∈ l := by
  rw [settledIn, Multiset.mem_coe, List.mem_filterMap]
  constructor
  · rintro ⟨m, hm, hs⟩
    cases m with
    | leave id' how => cases how <;> simp_all [settled]
    | _ => simp [settled] at hs
  · exact fun h => ⟨_, h, rfl⟩

theorem losesResult_iff {l : List Mark} :
    LosesResult l ↔ ∃ id v, (id, HandlerExit.returned v) ∈ abandonedIn l := by
  simp only [abandonedIn, Multiset.mem_coe, List.mem_flatMap]
  constructor
  · rintro ⟨rs, hrs, response, hr, hop, he⟩
    exact ⟨_, _, _, hrs, List.mem_filterMap.mpr
      ⟨response, hr, resultOf_returned.mpr ⟨hop, he, rfl, rfl⟩⟩⟩
  · rintro ⟨id, v, m, hm, hv⟩
    cases m with
    | abandoned rs =>
      obtain ⟨response, hr, hv⟩ := List.mem_filterMap.mp hv
      obtain ⟨hop, he, -⟩ := resultOf_returned.mp hv
      exact ⟨rs, hm, response, hr, hop, he⟩
    | _ => simp [abandonedBy] at hv

theorem reports_fromResponses {rs : List StepResponse} {id : String} {v : Json} :
    Reports (CallResult.fromResponses rs) id v ↔
      (id, HandlerExit.returned v) ∈ carried (some (.response rs)) := by
  simp only [carried, gathered, Multiset.mem_coe, List.mem_filterMap, resultOf_returned]
  constructor
  · rintro ⟨items, hi, item, hm, he, ho, info, hinfo, hid, hop⟩
    obtain rfl := Option.some.inj hi
    obtain ⟨response, hr, rfl⟩ := List.mem_map.mp hm
    simp only [CallResult.itemOf, Option.some.injEq] at he ho hinfo
    subst hinfo
    exact ⟨response, hr, hop, he, hid, ho⟩
  · rintro ⟨response, hr, hop, he, hid, hv⟩
    exact ⟨_, rfl, _, List.mem_map.mpr ⟨response, hr, rfl⟩, he, congrArg some hv, _, rfl, hid,
      hop⟩

theorem settled_once {d : Run σ Json} {s : State σ}
    (hc : Conserved Scope.top s d.log d.state d.outcome.escape)
    (he : HandlerEntry.Entries env Scope.top s d.log d.state d.outcome.escape)
    (hn : (parsed d.log).Nodup) {x : String × HandlerExit}
    (h₁ : x ∈ carried d.outcome.escape) (h₂ : x ∈ abandonedIn d.log) : False := by
  have hcount := Multiset.le_iff_count.mp hc.sub x.1
  rw [hc.balance, Multiset.map_add, Multiset.count_add, Multiset.coe_count] at hcount
  have hc₁ := Multiset.count_pos.mpr (Multiset.mem_map_of_mem Prod.fst h₁)
  have hc₂ := Multiset.count_pos.mpr (Multiset.mem_map_of_mem Prod.fst h₂)
  have := (he.count x.1).trans (List.nodup_iff_count_le_one.mp hn x.1)
  omega

theorem mem_request_log {ctx : Context} (h : (prepared env inv).outcome = .ok (.ok ctx))
    {m : Mark} (hm : ∀ i e, m ≠ .beforeExecution i e) :
    m ∈ (request env fn outputType inv).log ↔ m ∈ (codeRun env fn inv ctx).log := by
  rw [request_log fn outputType h, List.mem_append, or_iff_right]
  intro hp
  obtain ⟨i, e, rfl⟩ := prepared_log env inv m hp
  exact hm i e rfl

theorem carried_eq_zero {o : Outcome PyError Interrupt Json}
    (h : ∀ responses, o ≠ .intr (.response responses)) : carried o.escape = 0 := by
  cases o with
  | intr i =>
    cases i with
    | response rs => exact absurd rfl (h rs)
    | _ => rfl
  | _ => rfl

theorem reports_iff_carried (hooks : AfterSilent env fn inv)
    {ctx : Context} (h : (prepared env inv).outcome = .ok (.ok ctx)) {id : String} {v : Json} :
    (∃ result, (request env fn outputType inv).outcome = .ok result ∧ Reports result id v) ↔
      (id, HandlerExit.returned v) ∈ carried (codeRun env fn inv ctx).outcome.escape := by
  rcases code_result outputType hooks h with
    ⟨rs, ho, hr⟩ | ⟨ho, result, hr, hmulti⟩ <;> rw [hr]
  · rw [ho, Outcome.escape_intr, ← reports_fromResponses]
    simp
  · simp [carried_eq_zero ho, Reports, hmulti]

/-- When `after_execution` is silent and the step IDs are distinct: every value that a
handler returned is reported to the executor, exactly when no group gives up
the response of a step that ran. -/
theorem results_reported_iff (hooks : AfterSilent env fn inv)
    (hn : (parsed (request env fn outputType inv).log).Nodup) :
    (∀ id v, .leave id (.returned v) ∈ (request env fn outputType inv).log →
      ∃ result, (request env fn outputType inv).outcome = .ok result ∧ Reports result id v) ↔
    ¬ LosesResult (request env fn outputType inv).log := by
  obtain ⟨x, hx⟩ := prepared_outcome env inv
  cases x with
  | error e =>
    have honly : HooksOnly (request env fn outputType inv).log := by
      rw [request_stopped fn outputType hx]
      exact prepared_log env inv
    refine iff_of_true (fun id v hm => ?_) ?_
    · obtain ⟨i, e', he⟩ := honly _ hm
      simp at he
    · rintro ⟨rs, hm, -⟩
      obtain ⟨i, e', he⟩ := honly _ hm
      simp at he
  | ok ctx =>
    have hc := conserved_interp env (fn ctx) Scope.top (prepared env inv).state
    have he := HandlerEntry.entries_interp env (fn ctx) Scope.top
      (prepared env inv).state
    rw [← codeRun] at hc he
    have hp : parsed (request env fn outputType inv).log = parsed (codeRun env fn inv ctx).log :=
      filterMap_request hx fun _ _ => rfl
    rw [hp] at hn
    have hleave : ∀ id how, .leave id how ∈ (request env fn outputType inv).log ↔
        .leave id how ∈ (codeRun env fn inv ctx).log := fun _ _ => mem_request_log hx (by simp)
    have hleft : ∀ rs, .abandoned rs ∈ (request env fn outputType inv).log ↔
        .abandoned rs ∈ (codeRun env fn inv ctx).log := fun _ => mem_request_log hx (by simp)
    have hlose : LosesResult (request env fn outputType inv).log ↔
        LosesResult (codeRun env fn inv ctx).log := by
      simp only [LosesResult, hleft]
    rw [hlose, losesResult_iff]
    simp only [hleave, reports_iff_carried hooks hx, ← mem_settledIn, hc.balance,
      Multiset.mem_add]
    constructor
    · rintro h ⟨id, v, hv⟩
      exact settled_once hc he hn (h id v (.inr hv)) hv
    · rintro h id v (hv | hv)
      · exact hv
      · exact absurd ⟨id, v, hv⟩ h

end

/-! Two planned steps: `b` has failed for good, and then `a` is requested. -/

def twoSteps (_ : Context) : Body Unit :=
  .parallel 2
    (fun i => match i with
      | 0 => GroupResults.runThenReturn "a" (.int 1)
      | 1 => GroupResults.runThenReturn "b" (.int 2))
    .wait (fun
      | .ok outputs => .ret (.arr outputs)
      | .error e => .raise e)

def failedMemo : Output := ⟨.null, some ⟨"no", "ValueError", none⟩⟩

/-- `a` runs and returns 1, and the call result is the error of `b`. -/
theorem twoSteps_loses_result :
    (parsed (request (Sample.env (Sample.hashStepId "a")) twoSteps none
      (Sample.invocation [("b", failedMemo)])).log).Nodup ∧
    .leave (Sample.hashStepId "a") (.returned (.int 1)) ∈
      (request (Sample.env (Sample.hashStepId "a")) twoSteps none
        (Sample.invocation [("b", failedMemo)])).log ∧
    (request (Sample.env (Sample.hashStepId "a")) twoSteps none
      (Sample.invocation [("b", failedMemo)])).outcome =
        .ok (CallResult.ofError (stepError "no" "ValueError" none)) := by
  decide

theorem results_reported_iff_twoSteps :
    AfterSilent (Sample.env (Sample.hashStepId "a")) twoSteps (Sample.invocation []) ∧
    ((∀ id v, .leave id (.returned v) ∈ (request (Sample.env (Sample.hashStepId "a")) twoSteps
        none (Sample.invocation [])).log →
      ∃ result, (request (Sample.env (Sample.hashStepId "a")) twoSteps none
        (Sample.invocation [])).outcome = .ok result ∧ Reports result id v) ↔
    ¬ LosesResult (request (Sample.env (Sample.hashStepId "a")) twoSteps none
      (Sample.invocation [])).log) :=
  ⟨fun _ _ => rfl, results_reported_iff (fun _ _ => rfl) (by decide)⟩

end Inngest.StepResults
