import Inngest.MissingTarget

/-!
# Steps called in a handler

A step called in another step's handler is caught when its `async with` block
is entered, and only then. A step that is answered before that point, by a
response or a skip, goes to the executor or ends the request instead of the
nested-step error.
-/

set_option autoImplicit false

namespace Inngest.NestedSteps
open ServerLib Errors StepLib Effect Engine History StepResults

/-- How the history of a part of a body shows the nesting of steps: first for a
part of a handler, then for a part of the function itself. -/
structure Nesting {σ : Type} (r : Scope) (_s : State σ) (l : List Mark) (_s' : State σ)
    (o : Option Interrupt) : Prop where
  quiet : r.inStep = true → ∀ id, (∀ how, .leave id how ∉ l) ∧ ∀ p n, .enter id p n ∉ l
  parsed : r.inStep = true → ∀ path id q, .parsed path id q ∈ l → q = r.running
  running : r.inStep = true → ∀ id q, .nestedEnter id q ∈ l → q = r.running
  nested : r.inStep = true → ((∃ id q, .nestedEnter id q ∈ l) ↔ o = some .nested)
  outside : r.inStep = false → r.running = none → ∀ outer,
    (∃ id, .nestedEnter id (some outer) ∈ l) ↔ .leave outer .nested ∈ l
  entered : r.inStep = false → r.running = none → ∀ id p n, .enter id p n ∈ l →
    ∃ path, .parsed path id none ∈ l

theorem exitOf_nested {o : Outcome PyError Interrupt Json} :
    Step.exitOf o = .nested ↔ o.escape = some .nested := by
  cases o with
  | ok v => simp [Step.exitOf]
  | exc e => cases h : Step.bubbles e <;> simp [Step.exitOf, h]
  | intr i => cases i <;> simp [Step.exitOf]

section Rules
variable {σ : Type} {env : Env σ} {r : Scope} {s s' : State σ} {l : List Mark}
  {o : Option Interrupt}

def Speaks : Mark → Prop
  | .leave _ _ => True
  | .parsed _ _ _ => True
  | .nestedEnter _ _ => True
  | .enter _ _ _ => True
  | _ => False

theorem nesting_silent (h : ∀ m ∈ l, ¬ Speaks m) (ho : o ≠ some .nested) :
    Nesting r s l s' o where
  quiet := fun _ _ => ⟨fun _ hm => h _ hm trivial, fun _ _ hm => h _ hm trivial⟩
  parsed := fun _ _ _ _ hm => absurd trivial (h _ hm)
  running := fun _ _ _ hm => absurd trivial (h _ hm)
  nested := fun _ => iff_of_false (fun ⟨_, _, hm⟩ => h _ hm trivial) ho
  outside := fun _ _ _ =>
    iff_of_false (fun ⟨_, hm⟩ => h _ hm trivial) (fun hm => h _ hm trivial)
  entered := fun _ _ _ _ _ hm => absurd trivial (h _ hm)

theorem nesting_append {l₁ l₂ : List Mark} {s₁ : State σ} (h₁ : Nesting r s l₁ s₁ none)
    (h₂ : Nesting r s₁ l₂ s' o) : Nesting r s (l₁ ++ l₂) s' o where
  quiet := fun hr id =>
    ⟨fun how hm => (List.mem_append.mp hm).elim ((h₁.quiet hr id).1 how) ((h₂.quiet hr id).1 how),
      fun p n hm =>
        (List.mem_append.mp hm).elim ((h₁.quiet hr id).2 p n) ((h₂.quiet hr id).2 p n)⟩
  parsed := fun hr path id q hm =>
    (List.mem_append.mp hm).elim (h₁.parsed hr path id q) (h₂.parsed hr path id q)
  running := fun hr id q hm =>
    (List.mem_append.mp hm).elim (h₁.running hr id q) (h₂.running hr id q)
  nested := fun hr => by
    have hno : ∀ id q, .nestedEnter id q ∉ l₁ := by simpa using h₁.nested hr
    rw [← h₂.nested hr]
    simp [hno]
  outside := fun hr hq outer => by
    simp only [List.mem_append, exists_or, h₁.outside hr hq outer, h₂.outside hr hq outer]
  entered := fun hr hq id p n hm => by
    rcases List.mem_append.mp hm with hm | hm
    · obtain ⟨path, hp⟩ := h₁.entered hr hq id p n hm
      exact ⟨path, List.mem_append_left _ hp⟩
    · obtain ⟨path, hp⟩ := h₂.entered hr hq id p n hm
      exact ⟨path, List.mem_append_right _ hp⟩

theorem nesting_chain : Chain (Nesting (σ := σ)) where
  nil := fun _ _ => nesting_silent (by simp) (by simp)
  append := nesting_append

theorem not_speaks_pop {info : StepInfo} {d : Run σ (Option Output)}
    (hp : Execution.PopDone env info r s d) : ∀ m ∈ d.log, ¬ Speaks m := by
  obtain ⟨hooks, hl, hh⟩ := pop_log hp
  intro m hm
  rcases List.mem_cons.mp (hl ▸ hm) with rfl | hm
  · exact id
  · obtain ⟨i, e, rfl⟩ := hh m hm
    exact id

theorem nesting_parsed (path : List ℕ) (id : String) :
    Nesting r s [.parsed path id r.running] s' none where
  quiet := fun _ => by simp
  parsed := fun _ => by simp
  running := fun _ => by simp
  nested := fun _ => by simp
  outside := fun _ _ => by simp
  entered := fun _ _ => by simp

theorem nesting_step {info : StepInfo} {decode : Json → Except PyError Json}
    {outputType : Option OutputType} {handler : Exec σ Json} {d : Run σ Json} (path : List ℕ)
    (hh : Guar Nesting handler)
    (hd : Step.StepDone env info decode outputType handler r s d) :
    Nesting r s (.parsed path info.id r.running :: d.log) d.state d.outcome.escape := by
  have happ : ∀ {l s' o}, Nesting r s l s' o →
      Nesting r s (.parsed path info.id r.running :: l) s' o :=
    fun h => nesting_append (nesting_parsed path info.id) h
  cases hd with
  | answered hp => exact happ (nesting_silent (not_speaks_pop hp) (by simp))
  | @nested d hp hr _ =>
    have hpop : Nesting r s d.log d.state none := nesting_silent (not_speaks_pop hp) (by simp)
    refine happ (nesting_append hpop ?_)
    exact ⟨fun _ => by simp, fun _ => by simp, fun _ => by simp, fun _ => by simp,
      fun hs => by simp [hr] at hs, fun hs => by simp [hr] at hs⟩
  | skipped hp => exact happ (nesting_silent (not_speaks_pop hp) (by simp))
  | responded hp => exact happ (nesting_silent (not_speaks_pop hp) (by simp))
  | @executed d _ hp hm hr hop hmay hrun =>
    subst hrun
    have h := hh (r.inHandler info.id) d.state
    have hpop := not_speaks_pop hp
    have hquiet := h.quiet rfl
    refine ⟨fun hs => by simp [hr] at hs, fun hs => by simp [hr] at hs,
      fun hs => by simp [hr] at hs, fun hs => by simp [hr] at hs, fun _ hq outer => ?_, ?_⟩
    · have hd₁ : ∀ id q, .nestedEnter id q ∉ d.log := fun id q hm => hpop _ hm trivial
      have hd₂ : ∀ id how, .leave id how ∉ d.log := fun id how hm => hpop _ hm trivial
      simp only [List.mem_cons, List.mem_append, reduceCtorEq, hd₁, hd₂, (hquiet outer).1,
        List.not_mem_nil, Mark.leave.injEq, false_or, or_false]
      constructor
      · rintro ⟨id, hm⟩
        have hrun : some outer = some info.id := h.running rfl id _ hm
        refine ⟨Option.some.inj hrun, ?_⟩
        rw [eq_comm, exitOf_nested, serialized_escape]
        exact (h.nested rfl).mp ⟨id, _, hm⟩
      · rintro ⟨rfl, hex⟩
        rw [eq_comm, exitOf_nested, serialized_escape] at hex
        obtain ⟨id, q, hm⟩ := (h.nested rfl).mpr hex
        have hrun : q = some info.id := h.running rfl id q hm
        exact ⟨id, hrun ▸ hm⟩
    · intro _ hq id p n hmem
      have hd₁ : .enter id p n ∉ d.log := fun hm => hpop _ hm trivial
      simp only [List.mem_cons, List.mem_append, reduceCtorEq, hd₁, (hquiet id).2,
        List.not_mem_nil, Mark.enter.injEq, false_or, or_false] at hmem
      exact ⟨path, by simp [hmem.1, hq]⟩

theorem nesting_group {callables : List (Exec σ Json)} {mode : ParallelMode}
    (hcs : ∀ c ∈ callables, Guar Nesting c) :
    Guar Nesting (Group.parallel callables mode) := by
  have hleft : ∀ {r : Scope} {s s' : State σ} {l o} {rs : List StepResponse},
      Nesting r s l s' o → Nesting r s (l ++ [.abandoned rs]) s' o := by
    intro r s s' l o rs h
    exact ⟨by simpa using h.quiet, by simpa using h.parsed, by simpa using h.running,
      by simpa using h.nested, by simpa using h.outside, by simpa using h.entered⟩
  have hcaught : ∀ {r : Scope} {s s' : State σ} {l i}, i ≠ .nested →
      Nesting r s l s' (some i) → Nesting r s l s' none := by
    intro r s s' l i hi h
    exact { h with nested := fun hr => (h.nested hr).trans (by simp [hi]) }
  refine Group.guar_parallel (G := fun r s l s' _ => Nesting r s l s' none) ?_ ?_ ?_ mode hcs
  · intro r
    refine ⟨fun s => nesting_chain.nil _ s, nesting_append, ?_, ?_, ?_⟩
    · intro s l₁ s₁ ds l₂ s₂ i new h₁ h₂ ha
      refine nesting_append h₁ (hcaught ?_ h₂)
      rintro rfl
      simp [Group.caught] at ha
    · exact fun h₁ h₂ => hleft (nesting_append h₁ h₂)
    · exact fun h₁ h₂ _ => hleft (nesting_append h₁ h₂)
  · exact fun r s l s' o _ h => { h with }
  · intro r s l s' ds mode h
    refine { h with nested := fun hr => (h.nested hr).trans ?_ }
    split <;> simp

theorem nesting_interp (env : Env σ) (b : Body σ) : Guar Nesting (b.interp env) := by
  refine Body.guar_interp nesting_chain ?_ ?_ ?_ ?_ ?_ ?_ ?_ ?_ b
  · exact fun r p s l s' o h => { h with }
  · exact fun r s x => nesting_silent (by simp) (by simp)
  · exact fun r s name method => nesting_silent (by simp [Speaks]) (by simp)
  · exact fun r s name message found _ => nesting_silent (by simp [Speaks]) (by simp)
  · exact fun stepId r s => nesting_parsed r.path _
  · intro stepId info decode outputType handler r s d _ hh hd
    exact { nesting_step r.path hh hd with }
  · exact fun callables mode hcs => nesting_group hcs
  · exact fun r s complete => nesting_silent (by simp [Speaks]) (by simp)

structure Single {σ : Type} (env : Env σ) (r : Scope) (_s : State σ) (l : List Mark)
    (_s' : State σ) (o : Option Interrupt) : Prop where
  targeted : ∀ t, env.targetHashedId = some t → ∀ rs, o = some (.response rs) →
    rs.length ≤ (History.parsed l).count t
  alone : env.targetHashedId = none → carried o ≠ 0 → ∃ d, o = some (.response [d])
  grouped : env.targetHashedId = none → r.inParallel = true → carried o = 0
  inner : r.inStep = true → carried o = 0

theorem single_none : Single env r s l s' none :=
  ⟨by simp, fun _ h => absurd rfl h, fun _ _ => rfl, fun _ => rfl⟩

theorem single_chain : Chain (Single env) where
  nil := fun _ _ => single_none
  append := fun _ h₂ => by
    refine ⟨fun t ht rs ho => ?_, h₂.alone, h₂.grouped, h₂.inner⟩
    have := h₂.targeted t ht rs ho
    rw [parsed_append, List.count_append]
    omega

theorem single_step {info : StepInfo} {decode : Json → Except PyError Json}
    {outputType : Option OutputType} {handler : Exec σ Json} {d : Run σ Json} (path : List ℕ)
    (q : Option String) (hh : Guar (Single env) handler)
    (hd : Step.StepDone env info decode outputType handler r s d) :
    Single env r s (.parsed path info.id q :: d.log) d.state d.outcome.escape := by
  cases hd with
  | answered => simpa using single_none
  | nested => exact ⟨by simp, fun _ h => absurd rfl h, fun _ _ => rfl, fun _ => rfl⟩
  | skipped => exact ⟨by simp, fun _ h => absurd rfl h, fun _ _ => rfl, fun _ => rfl⟩
  | responded hp hm ht =>
    refine ⟨fun t htarget rs ho => ?_, fun _ _ => ⟨_, rfl⟩, fun _ _ => carried_waiting info,
      fun _ => carried_waiting info⟩
    simp only [Outcome.escape_intr, Option.some.injEq, Interrupt.response.injEq] at ho
    simp [← ho, ht t htarget, parsedId]
  | @executed d _ hp hm hr hop hmay hrun =>
    subst hrun
    have h := hh (r.inHandler info.id) d.state
    have hcases := @endOf_escape_some σ env info
      (Step.serialized env outputType (handler (r.inHandler info.id) d.state).outcome)
    refine ⟨fun t ht rs ho => ?_, fun ht hne => ?_, fun ht hpar => ?_, fun hs => by simp [hr] at hs⟩
    · have htid : info.id = t := by
        rcases hmay with h | ⟨h, -⟩ <;> simp_all
      rcases hcases ho with ⟨response, he, -⟩ | ⟨he, -⟩
      · simp only [Interrupt.response.injEq] at he
        simp [he, htid, parsedId]
      · have := h.targeted t ht rs ((serialized_escape _ _ _).symm.trans he)
        simp only [parsed_cons, parsed_append, List.count_append]
        omega
    · cases he : (Step.endOf env info (Step.serialized env outputType
          (handler (r.inHandler info.id) d.state).outcome)).escape with
      | none => exact absurd (by rw [he]; rfl) hne
      | some i =>
        rcases hcases he with ⟨response, rfl, -⟩ | ⟨hi, -⟩
        · exact ⟨response, rfl⟩
        · refine absurd ?_ hne
          rw [he, ← h.inner rfl, ← hi, serialized_escape]
    · rcases hmay with h' | ⟨-, h', -⟩
      · simp [ht] at h'
      · simp [hpar] at h'

theorem single_group {callables : List (Exec σ Json)} {mode : ParallelMode}
    (hcs : ∀ c ∈ callables, Guar (Single env) c) :
    Guar (Single env) (Group.parallel callables mode) := by
  refine Group.guar_parallel (G := fun r _ l _ ds =>
    (∀ t, env.targetHashedId = some t → ds.length ≤ (History.parsed l).count t) ∧
    (env.targetHashedId = none → r.inParallel = true → gathered ds = 0) ∧
    (r.inStep = true → gathered ds = 0)) ?_ ?_ ?_ mode hcs
  · intro r
    refine ⟨fun s => ⟨by simp, fun _ _ => rfl, fun _ => rfl⟩, ?_, ?_, ?_, ?_⟩
    · intro s l₁ s₁ ds l₂ s₂ h₁ h₂
      refine ⟨fun t ht => ?_, h₁.2⟩
      have := h₁.1 t ht
      rw [parsed_append, List.count_append]
      omega
    · intro s l₁ s₁ ds l₂ s₂ i new h₁ h₂ ha
      cases i with
      | response rs =>
        obtain rfl : rs = new := Option.some.inj ha
        refine ⟨fun t ht => ?_, fun ht hp => ?_, fun hr => ?_⟩
        · have := h₁.1 t ht
          have := h₂.targeted t ht rs rfl
          rw [parsed_append, List.count_append, List.length_append]
          omega
        · rw [gathered_append, h₁.2.1 ht hp, zero_add]
          exact h₂.grouped ht hp
        · rw [gathered_append, h₁.2.2 hr, zero_add]
          exact h₂.inner hr
      | skip id =>
        obtain rfl : [] = new := Option.some.inj ha
        refine ⟨fun t ht => ?_, by simpa using h₁.2⟩
        have := h₁.1 t ht
        rw [parsed_append, List.count_append, List.append_nil]
        omega
      | nested => simp [Group.caught] at ha
    · exact fun _ _ => single_none
    · intro s l₁ s₁ ds l₂ s₂ i _ h₂ ha
      cases i with
      | nested => exact ⟨by simp, fun _ h => absurd rfl h, fun _ _ => rfl, fun _ => rfl⟩
      | _ => simp [Group.caught] at ha
  · intro r s l s' o _ h
    exact ⟨h.targeted, h.alone, fun ht _ => h.grouped ht rfl, h.inner⟩
  · intro r s l s' ds mode h
    split
    · exact single_none
    · refine ⟨fun t ht rs ho => ?_, fun ht hne => ?_, fun ht _ => ?_, fun hr => ?_⟩
      · simp only [Option.some.injEq, Interrupt.response.injEq] at ho
        simpa [← ho] using h.1 t ht
      · exact absurd ((gathered_setParallelMode ds mode).trans (h.2.1 ht rfl)) hne
      · exact (gathered_setParallelMode ds mode).trans (h.2.1 ht rfl)
      · exact (gathered_setParallelMode ds mode).trans (h.2.2 hr)

theorem single_interp (env : Env σ) (b : Body σ) : Guar (Single env) (b.interp env) := by
  refine Body.guar_interp single_chain ?_ ?_ ?_ ?_ ?_ ?_ ?_ ?_ b
  · exact fun r p s l s' o h => ⟨h.targeted, h.alone, h.grouped, h.inner⟩
  · exact fun r s x => single_none
  · exact fun r s name method => single_none
  · exact fun r s name message found _ => single_none
  · exact fun stepId r s => single_none
  · intro stepId info decode outputType handler r s d _ hh hd
    have h := single_step r.path r.running hh hd
    exact ⟨h.targeted, h.alone, h.grouped, h.inner⟩
  · exact fun callables mode hcs => single_group hcs
  · exact fun r s complete => single_none

end Rules

variable {σ : Type} {env : Env σ} {fn : Context → Body σ} {outputType : Option OutputType}
  {inv : Invocation σ}

/-- One response, for the outer step, with the nested-step error: its code is
`STEP_NESTED` and it is not retriable. -/
def Rejects (result : CallResult) (outer : String) : Prop :=
  ∃ item info, result = ⟨⟨none, none, none⟩, some [item]⟩ ∧
    item.error = some Step.nestedError ∧ item.step = some info ∧ info.id = outer ∧
    (info.op = .stepError ∨ info.op = .stepFailed)

/-- A group gave up that response when an exception ended it. -/
def LosesRejection (l : List Mark) (outer : String) : Prop :=
  ∃ responses, Mark.abandoned responses ∈ l ∧ ∃ response ∈ responses,
    response.step.id = outer ∧ response.originalError = some Step.nestedError ∧
    (response.step.op = .stepError ∨ response.step.op = .stepFailed)

theorem resultOf_failed {response : StepResponse} {id : String} {e : PyError} :
    resultOf response = some (id, .failed e) ↔ response.step.id = id ∧
      response.originalError = some e ∧
      (response.step.op = .stepError ∨ response.step.op = .stepFailed) := by
  cases hop : response.step.op <;> cases he : response.originalError <;>
    simp [resultOf, hop, he]

theorem losesRejection_iff {l : List Mark} {outer : String} :
    LosesRejection l outer ↔ (outer, HandlerExit.failed Step.nestedError) ∈ abandonedIn l := by
  simp only [abandonedIn, Multiset.mem_coe, List.mem_flatMap]
  constructor
  · rintro ⟨rs, hrs, response, hr, h⟩
    exact ⟨_, hrs, List.mem_filterMap.mpr ⟨response, hr, resultOf_failed.mpr h⟩⟩
  · rintro ⟨m, hm, hv⟩
    cases m with
    | abandoned rs =>
      obtain ⟨response, hr, hv⟩ := List.mem_filterMap.mp hv
      exact ⟨rs, hm, response, hr, resultOf_failed.mp hv⟩
    | _ => simp [abandonedBy] at hv

theorem mem_settledIn_nested {l : List Mark} {id : String} :
    (id, HandlerExit.failed Step.nestedError) ∈ settledIn l ↔
      .leave id .nested ∈ l ∨ .leave id (.failed Step.nestedError) ∈ l := by
  rw [settledIn, Multiset.mem_coe, List.mem_filterMap]
  constructor
  · rintro ⟨m, hm, hs⟩
    cases m with
    | leave id' how => cases how <;> simp_all [settled]
    | _ => simp [settled] at hs
  · rintro (h | h) <;> exact ⟨_, h, rfl⟩

theorem parsed_unique {l : List Mark} (hn : (History.parsed l).Nodup) {id : String}
    {path path' : List ℕ} {q q' : Option String} (h : .parsed path id q ∈ l)
    (h' : .parsed path' id q' ∈ l) : q = q' := by
  have := mark_unique hn h h' rfl rfl
  simp_all

theorem rejects_iff_carried (hooks : AfterSilent env fn inv)
    {ctx : Context} (h : (prepared env inv).outcome = .ok (.ok ctx))
    (hn : (History.parsed (codeRun env fn inv ctx).log).Nodup) {outer : String} :
    (∃ result, (request env fn outputType inv).outcome = .ok result ∧ Rejects result outer) ↔
      (outer, HandlerExit.failed Step.nestedError) ∈
        carried (codeRun env fn inv ctx).outcome.escape := by
  have hsingle := single_interp env (fn ctx) Scope.top (prepared env inv).state
  rw [← codeRun] at hsingle
  rcases code_result outputType hooks h with
    ⟨rs, ho, hr⟩ | ⟨ho, result, hr, hmulti⟩ <;> rw [hr]
  · rw [ho] at hsingle ⊢
    constructor
    · rintro ⟨result, hres, item, info, he, herr, hstep, hid, hop⟩
      obtain rfl := Outcome.ok.inj hres
      simp only [CallResult.fromResponses, CallResult.mk.injEq, Option.some.injEq] at he
      obtain ⟨response, rfl, hi⟩ := List.map_eq_singleton_iff.mp he.2
      subst hi
      simp only [CallResult.itemOf, Option.some.injEq] at herr hstep
      subst hstep
      simp [carried, gathered, resultOf_failed, hid, herr, hop]
    · intro hmem
      have hlen : ∃ d, rs = [d] := by
        cases ht : env.targetHashedId with
        | none =>
          obtain ⟨d, hd⟩ := hsingle.alone ht fun h0 => by rw [h0] at hmem; simp at hmem
          exact ⟨d, by simpa using hd⟩
        | some t =>
          have hle := hsingle.targeted t ht rs rfl
          have hone := List.nodup_iff_count_le_one.mp hn t
          refine List.length_eq_one_iff.mp (le_antisymm (hle.trans hone) ?_)
          cases rs with
          | nil => simp [carried, gathered] at hmem
          | cons => simp
      obtain ⟨d, rfl⟩ := hlen
      simp only [carried, gathered, Outcome.escape_intr, Multiset.mem_coe, List.mem_filterMap,
        List.mem_singleton, exists_eq_left, resultOf_failed] at hmem
      exact ⟨_, rfl, CallResult.itemOf d, d.step, rfl, hmem.2.1, rfl, hmem.1, hmem.2.2⟩
  · rw [carried_eq_zero ho]
    simp only [Multiset.notMem_zero, iff_false]
    rintro ⟨result', hres, item, info, he, -⟩
    obtain rfl := Outcome.ok.inj hres
    simp [he] at hmulti

theorem not_rejects_of_afterError {ctx : Context} {e : PyError}
    (h : (prepared env inv).outcome = .ok (.ok ctx))
    (he : Execution.afterError env Scope.top (codeRun env fn inv ctx).state = some e)
    {outer : String} :
    ¬ ∃ result, (request env fn outputType inv).outcome = .ok result ∧ Rejects result outer := by
  have hnested := StepResults.code_not_nested env inv fn ctx
  have hr := @request_outcome σ env fn outputType inv ctx h
  rw [he] at hr
  have herr : ∃ e', (request env fn outputType inv).outcome = .ok (CallResult.ofError e') := by
    cases ho : (codeRun env fn inv ctx).outcome with
    | ok v =>
      rw [ho] at hr
      cases hs : env.serialize v outputType with
      | ok output => exact ⟨e, hr (by simp only [Step.serialized, hs]; rfl)⟩
      | error e' => exact ⟨e', hr (by simp only [Step.serialized, hs]; rfl)⟩
    | exc e' =>
      rw [ho] at hr
      exact ⟨e', hr rfl⟩
    | intr i =>
      rw [ho] at hr hnested
      cases i with
      | response rs => exact ⟨e, hr rfl⟩
      | skip id => exact ⟨_, hr rfl⟩
      | nested => exact absurd rfl hnested
  obtain ⟨e', herr⟩ := herr
  rintro ⟨result, hres, item, info, hitem, -⟩
  rw [herr] at hres
  obtain rfl := Outcome.ok.inj hres
  simp [CallResult.ofError] at hitem

/-- When the step IDs are distinct: every handler that calls a step method gets
its step rejected, and the inner step does not run, exactly when each such
handler enters an inner step's block, or raises the nested-step error itself,
no group gives up that error's response, and `after_execution` is silent. -/
theorem nested_rejected_iff
    (hn : (History.parsed (request env fn outputType inv).log).Nodup) :
    (∀ outer path inner, .parsed path inner (some outer) ∈ (request env fn outputType inv).log →
      (∃ result, (request env fn outputType inv).outcome = .ok result ∧ Rejects result outer) ∧
        inner ∉ History.entered (request env fn outputType inv).log) ↔
    (∀ outer path inner, .parsed path inner (some outer) ∈ (request env fn outputType inv).log →
      ((∃ id, .nestedEnter id (some outer) ∈ (request env fn outputType inv).log) ∨
        .leave outer (.failed Step.nestedError) ∈ (request env fn outputType inv).log) ∧
        ¬ LosesRejection (request env fn outputType inv).log outer ∧
        AfterSilent env fn inv) := by
  obtain ⟨x, hx⟩ := prepared_outcome env inv
  cases x with
  | error e =>
    have hno : ∀ path inner q, .parsed path inner q ∉ (request env fn outputType inv).log := by
      intro path inner q hm
      rw [request_stopped fn outputType hx] at hm
      obtain ⟨i, e', he⟩ := prepared_log env inv _ hm
      simp at he
    simp [hno]
  | ok ctx =>
    have hc := conserved_interp env (fn ctx) Scope.top (prepared env inv).state
    have he := HandlerEntry.entries_interp env (fn ctx) Scope.top
      (prepared env inv).state
    have hnest := nesting_interp env (fn ctx) Scope.top (prepared env inv).state
    rw [← codeRun] at hc he hnest
    have hp : History.parsed (request env fn outputType inv).log =
        History.parsed (codeRun env fn inv ctx).log := filterMap_request hx fun _ _ => rfl
    rw [hp] at hn
    have hlog : ∀ m, (∀ i e, m ≠ .beforeExecution i e) →
        (m ∈ (request env fn outputType inv).log ↔ m ∈ (codeRun env fn inv ctx).log) :=
      fun m hm => mem_request_log hx hm
    have hinner : ∀ outer path inner, .parsed path inner (some outer) ∈
        (codeRun env fn inv ctx).log →
        inner ∉ History.entered (request env fn outputType inv).log := by
      intro outer path inner hm hent
      obtain ⟨p, n, hent⟩ := mem_entered.mp hent
      obtain ⟨path', hpar⟩ :=
        hnest.entered rfl rfl inner p n ((hlog _ (by simp)).mp hent)
      simpa using parsed_unique hn hm hpar
    have hresult : ∀ outer, (∃ result, (request env fn outputType inv).outcome = .ok result ∧
        Rejects result outer) ↔ (outer, HandlerExit.failed Step.nestedError) ∈
          carried (codeRun env fn inv ctx).outcome.escape ∧ AfterSilent env fn inv := by
      intro outer
      cases hafter : Execution.afterError env Scope.top (codeRun env fn inv ctx).state with
      | none =>
        have hooks : AfterSilent env fn inv := fun ctx' h => by
          obtain rfl : ctx = ctx' := by simpa using hx.symm.trans h
          exact hafter
        rw [rejects_iff_carried hooks hx hn]
        exact (and_iff_left hooks).symm
      | some e =>
        refine iff_of_false (not_rejects_of_afterError hx hafter) ?_
        rintro ⟨-, hooks⟩
        simp [hooks ctx hx] at hafter
    have hkey : ∀ outer, (outer, HandlerExit.failed Step.nestedError) ∈
          carried (codeRun env fn inv ctx).outcome.escape ↔
        ((∃ id, .nestedEnter id (some outer) ∈ (codeRun env fn inv ctx).log) ∨
          .leave outer (.failed Step.nestedError) ∈ (codeRun env fn inv ctx).log) ∧
        ¬ LosesRejection (codeRun env fn inv ctx).log outer := by
      intro outer
      rw [hnest.outside rfl rfl, ← mem_settledIn_nested, hc.balance, losesRejection_iff,
        Multiset.mem_add]
      constructor
      · exact fun h => ⟨.inl h, settled_once hc he hn h⟩
      · exact fun h => h.1.resolve_right h.2
    have hlost : ∀ outer, LosesRejection (request env fn outputType inv).log outer ↔
        LosesRejection (codeRun env fn inv ctx).log outer := by
      intro outer
      simp only [LosesRejection, hlog (.abandoned _) (by simp)]
    have hboth : ∀ outer, (∃ result, (request env fn outputType inv).outcome = .ok result ∧
        Rejects result outer) ↔
        ((∃ id, .nestedEnter id (some outer) ∈ (codeRun env fn inv ctx).log) ∨
          .leave outer (.failed Step.nestedError) ∈ (codeRun env fn inv ctx).log) ∧
        ¬ LosesRejection (codeRun env fn inv ctx).log outer ∧ AfterSilent env fn inv := by
      intro outer
      rw [hresult, hkey, and_assoc]
    simp only [hlog (.parsed _ _ _) (by simp), hlog (.nestedEnter _ _) (by simp),
      hlog (.leave _ _) (by simp), hlost]
    exact ⟨fun h outer path inner hm => (hboth outer).mp (h outer path inner hm).1,
      fun h outer path inner hm => ⟨(hboth outer).mpr (h outer path inner hm),
        hinner outer path inner hm⟩⟩

/-! A handler that sleeps. -/

def sleepInRun (_ : Context) : Body Unit :=
  .run "a" none
    (.call (Step.sleepUntil "b" "2030-01-01T00:00:00Z") fun
      | .ok v => .ret v
      | .error e => .raise e)
    fun
      | .ok v => .ret v
      | .error e => .raise e

/-- The inner sleep is reported, and nothing is said about `a`. -/
theorem sleepInRun_reported :
    (History.parsed (request (Sample.env none) sleepInRun none (Sample.invocation [])).log).Nodup ∧
    .parsed [0, 0] (Sample.hashStepId "b") (some (Sample.hashStepId "a")) ∈
      (request (Sample.env none) sleepInRun none (Sample.invocation [])).log ∧
    (request (Sample.env none) sleepInRun none (Sample.invocation [])).outcome =
      .ok (CallResult.fromResponses [.ofStep (Step.callInfo
        (Step.sleepUntil "b" "2030-01-01T00:00:00Z")
        ⟨Sample.hashStepId "b", "b", none⟩ none)]) := by
  decide

def runInRun (_ : Context) : Body Unit :=
  .run "a" none (GroupResults.runThenReturn "b" (.int 1)) fun
    | .ok v => .ret v
    | .error e => .raise e

theorem nested_rejected_iff_runInRun :
    (∃ path inner outer, .parsed path inner (some outer) ∈
      (request (Sample.env none) runInRun none (Sample.invocation [])).log) ∧
    ((∀ outer path inner, .parsed path inner (some outer) ∈
        (request (Sample.env none) runInRun none (Sample.invocation [])).log →
      (∃ result, (request (Sample.env none) runInRun none (Sample.invocation [])).outcome =
        .ok result ∧ Rejects result outer) ∧
        inner ∉ History.entered
          (request (Sample.env none) runInRun none (Sample.invocation [])).log) ↔
    (∀ outer path inner, .parsed path inner (some outer) ∈
        (request (Sample.env none) runInRun none (Sample.invocation [])).log →
      ((∃ id, .nestedEnter id (some outer) ∈
          (request (Sample.env none) runInRun none (Sample.invocation [])).log) ∨
        .leave outer (.failed Step.nestedError) ∈
          (request (Sample.env none) runInRun none (Sample.invocation [])).log) ∧
        ¬ LosesRejection
          (request (Sample.env none) runInRun none (Sample.invocation [])).log outer ∧
        AfterSilent (Sample.env none) runInRun (Sample.invocation []))) :=
  ⟨⟨[0, 0], Sample.hashStepId "b", Sample.hashStepId "a", by decide⟩,
    nested_rejected_iff (by decide)⟩

end Inngest.NestedSteps
