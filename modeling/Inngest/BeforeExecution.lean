import Inngest.NestedSteps

/-!
# When `before_execution` runs

The hooks run once, when the memo map becomes empty. That is before new code
only if no memo is left over when the code starts, and a hook's error stops
the request only if the map was empty from the start.
-/

set_option autoImplicit false

namespace Inngest.BeforeExecution
open ServerLib Errors StepLib Effect Engine History

def isHook : Mark → Bool
  | .beforeExecution _ _ => true
  | _ => false

def hooksOf (l : List Mark) : List Mark := l.filter isHook

@[simp] theorem hooksOf_nil : hooksOf [] = [] := rfl

@[simp] theorem hooksOf_append (l l' : List Mark) :
    hooksOf (l ++ l') = hooksOf l ++ hooksOf l' := List.filter_append ..

theorem hooksOf_hooksOnly {l : List Mark} (h : HooksOnly l) : hooksOf l = l := by
  rw [hooksOf, List.filter_eq_self]
  intro m hm
  obtain ⟨i, e, rfl⟩ := h m hm
  rfl

theorem mem_hooksOf {l : List Mark} {i : ℕ} {e : Option PyError} :
    .beforeExecution i e ∈ hooksOf l ↔ .beforeExecution i e ∈ l := by
  simp [hooksOf, isHook]

variable {σ : Type}

def Emptied (s : State σ) : Prop := s.beforeExecutionCalled = true ↔ Dict.size s.memos = 0

/-- The marks of the hooks between two states, given whether they had been
called in the one and in the other. -/
def HooksBetween (n : ℕ) (c c' : Bool) (h : List Mark) : Prop :=
  c = c' ∧ h = [] ∨ c = false ∧ c' = true ∧ ∃ err, MiddlewareManager.HooksRan 0 n h err

theorem hooksBetween_trans {n : ℕ} {c c' c'' : Bool} {h h' : List Mark}
    (h₁ : HooksBetween n c c' h) (h₂ : HooksBetween n c' c'' h') :
    HooksBetween n c c'' (h ++ h') := by
  rcases h₁ with ⟨rfl, rfl⟩ | ⟨rfl, rfl, hr⟩
  · exact h₂
  · rcases h₂ with ⟨rfl, rfl⟩ | ⟨h', -⟩
    · exact .inr ⟨rfl, rfl, by simpa using hr⟩
    · simp at h'

structure Bracketed (env : Env σ) (s : State σ) (l : List Mark) (s' : State σ) : Prop where
  emptied : Emptied s'
  hooks : HooksBetween env.middleware.length s.beforeExecutionCalled s'.beforeExecutionCalled
    (hooksOf l)
  enters : ∀ before id p k after, l = before ++ .enter id p k :: after →
    HooksBetween env.middleware.length s.beforeExecutionCalled (decide (k = 0)) (hooksOf before)

def Brackets (env : Env σ) (_ : Scope) (s : State σ) (l : List Mark) (s' : State σ)
    (_ : Option Interrupt) : Prop :=
  Emptied s → Bracketed env s l s'

section Rules
variable {env : Env σ} {r : Scope} {s s' : State σ} {l : List Mark} {o : Option Interrupt}

theorem bracketed_append {s₁ : State σ} {l₁ l₂ : List Mark} (h₁ : Bracketed env s l₁ s₁)
    (h₂ : Bracketed env s₁ l₂ s') : Bracketed env s (l₁ ++ l₂) s' where
  emptied := h₂.emptied
  hooks := by
    rw [hooksOf_append]
    exact hooksBetween_trans h₁.hooks h₂.hooks
  enters := by
    intro before id p k after h
    rcases split_append h with ⟨after', hl⟩ | ⟨before', rfl, hl⟩
    · exact h₁.enters before id p k after' hl
    · rw [hooksOf_append]
      exact hooksBetween_trans h₁.hooks (h₂.enters before' id p k after hl)

theorem bracketed_silent (hs : Emptied s') (hc : s.beforeExecutionCalled = s'.beforeExecutionCalled)
    (hl : hooksOf l = []) (he : ∀ id p k, .enter id p k ∉ l) : Bracketed env s l s' where
  emptied := hs
  hooks := .inl ⟨hc, hl⟩
  enters := fun before id p k after h => absurd (by simp [h]) (he id p k)

theorem brackets_chain : Chain (Brackets env) where
  nil := fun _ _ hs => bracketed_silent hs rfl rfl (by simp)
  append := fun h₁ h₂ hs => bracketed_append (h₁ hs) (h₂ (h₁ hs).emptied)

theorem bracketed_pop {info : StepInfo} {d : Run σ (Option Output)} (path : List ℕ)
    (q : Option String) (hs : Emptied s) (hp : Execution.PopDone env info r s d) :
    Bracketed env s (.parsed path info.id q :: d.log) d.state := by
  have hle := Dict.size_erase_le s.memos info.id
  have hno : ∀ id p k, .enter id p k ∉ (.parsed path info.id q :: d.log : List Mark) := by
    intro id p k hm
    have := mem_entered.mpr ⟨p, k, hm⟩
    simp [enteredId, entered_pop hp] at this
  obtain ⟨l, hl, ⟨hor, rfl, hst⟩ | ⟨h0, hc, hc', ⟨err, hr⟩, -⟩⟩ := hp.hooks
  · refine bracketed_silent ?_ (by rw [hst]) (by simp [hl, hooksOf, isHook]) hno
    rw [Emptied] at hs ⊢
    simp only [hst]
    rcases hor with hor | hor
    · refine iff_of_false (fun hc => ?_) hor
      have := hs.mp hc
      omega
    · refine iff_of_true hor ?_
      have := hs.mp hor
      omega
  · have hlog : hooksOf (.parsed path info.id q :: d.log) = l := by
      rw [hl]
      simpa [hooksOf, isHook] using hooksOf_hooksOnly (hooksOnly_of_ran hr)
    refine ⟨?_, .inr ⟨hc, hc', err, by rwa [hlog]⟩, ?_⟩
    · exact iff_of_true hc' (by rw [hp.memos]; exact h0)
    · exact fun before id p k after h => absurd (by simp [h]) (hno id p k)

theorem brackets_step {info : StepInfo} {decode : Json → Except PyError Json}
    {outputType : Option OutputType} {handler : Exec σ Json} {d : Run σ Json} (path : List ℕ)
    (q : Option String) (o : Option Interrupt) (hh : Guar (Brackets env) handler)
    (hd : Step.StepDone env info decode outputType handler r s d) :
    Brackets env r s (.parsed path info.id q :: d.log) d.state o := by
  intro hs
  cases hd with
  | answered hp => exact bracketed_pop path q hs hp
  | nested hp =>
    have h := bracketed_pop path q hs hp
    exact bracketed_append h (bracketed_silent h.emptied rfl rfl (by simp))
  | skipped hp => exact bracketed_pop path q hs hp
  | responded hp => exact bracketed_pop path q hs hp
  | @executed d _ hp hm hr hop hmay hrun =>
    subst hrun
    have h := bracketed_pop path q hs hp
    have hbody := hh (r.inHandler info.id) d.state h.emptied
    have henter : Bracketed env d.state
        [.enter info.id r.inParallel (Dict.size d.state.memos)] d.state := by
      refine ⟨h.emptied, .inl ⟨rfl, rfl⟩, fun before id p k after he => ?_⟩
      cases before with
      | cons m before => simp at he
      | nil =>
        simp only [List.nil_append, List.cons.injEq, Mark.enter.injEq] at he
        obtain ⟨⟨-, -, rfl⟩, -⟩ := he
        refine .inl ⟨?_, rfl⟩
        rw [eq_comm, ← Bool.coe_iff_coe, decide_eq_true_iff]
        exact h.emptied.symm
    have hleave : Bracketed env (handler (r.inHandler info.id) d.state).state
        [.leave info.id (Step.exitOf (Step.serialized env outputType
          (handler (r.inHandler info.id) d.state).outcome))]
        (handler (r.inHandler info.id) d.state).state :=
      bracketed_silent hbody.emptied rfl rfl (by simp)
    have hall := bracketed_append h (bracketed_append henter (bracketed_append hbody hleave))
    simpa using hall

theorem brackets_group {callables : List (Exec σ Json)} {mode : ParallelMode}
    (hcs : ∀ c ∈ callables, Guar (Brackets env) c) :
    Guar (Brackets env) (Group.parallel callables mode) := by
  have habandoned : ∀ {s s' : State σ} {l : List Mark} {rs : List StepResponse},
      Bracketed env s l s' → Bracketed env s (l ++ [.abandoned rs]) s' :=
    fun h => bracketed_append h (bracketed_silent h.emptied rfl rfl (by simp))
  refine Group.guar_parallel (G := fun r s l s' _ => Brackets env r s l s' none) ?_ ?_ ?_ mode hcs
  · intro r
    exact ⟨brackets_chain.nil _, fun h₁ h₂ => brackets_chain.append h₁ h₂,
      fun h₁ h₂ _ hs => bracketed_append (h₁ hs) (h₂ (h₁ hs).emptied),
      fun h₁ h₂ hs => habandoned (bracketed_append (h₁ hs) (h₂ (h₁ hs).emptied)),
      fun h₁ h₂ _ hs => habandoned (bracketed_append (h₁ hs) (h₂ (h₁ hs).emptied))⟩
  · exact fun r s l s' o _ h => h
  · exact fun r s l s' ds mode h => h

theorem brackets_interp (env : Env σ) (b : Body σ) : Guar (Brackets env) (b.interp env) := by
  refine Body.guar_interp brackets_chain ?_ ?_ ?_ ?_ ?_ ?_ ?_ ?_ b
  · exact fun r p s l s' o h => h
  · exact fun r s x hs => bracketed_silent hs rfl rfl (by simp)
  · exact fun r s name method hs => bracketed_silent hs rfl rfl (by simp)
  · exact fun r s name message found _ hs => bracketed_silent hs rfl rfl (by simp)
  · exact fun stepId r s hs => bracketed_silent hs rfl rfl (by simp)
  · intro stepId info decode outputType handler r s d _ hh hd hs
    have h := brackets_step r.path r.running none hh hd hs
    exact ⟨h.emptied, h.hooks, h.enters⟩
  · exact fun callables mode hcs => brackets_group hcs
  · exact fun r s complete hs => bracketed_silent hs rfl rfl (by simp)

end Rules

def HooksFirst (n : ℕ) (c : Bool) (h : List Mark) : Prop :=
  c = false ∧ h = [] ∨ c = true ∧ h = MiddlewareManager.hookMarks 0 n

theorem hooks_complete {n : ℕ} {c : Bool} {first h : List Mark} (hf : HooksFirst n c first)
    (hb : HooksBetween n c true h) (hr : ∀ i e, .beforeExecution i (some e) ∉ h) :
    first ++ h = MiddlewareManager.hookMarks 0 n := by
  rcases hb with ⟨rfl, rfl⟩ | ⟨rfl, -, err, hran⟩
  · rcases hf with ⟨hc, -⟩ | ⟨-, rfl⟩
    · simp at hc
    · simp
  · rcases hf with ⟨-, rfl⟩ | ⟨hc, -⟩
    · cases err with
      | none => exact hran
      | some e =>
        obtain ⟨k, -, rfl⟩ := hran
        exact absurd (by simp) (hr (0 + k) e)
    · simp at hc

theorem hooks_incomplete {n : ℕ} (hn : 0 < n) {c c' : Bool} {first h : List Mark}
    (hf : HooksFirst n c first) (hb : HooksBetween n c c' h)
    (he : first ++ h = MiddlewareManager.hookMarks 0 n) : c' = true := by
  rcases hb with ⟨rfl, rfl⟩ | ⟨-, hc, -⟩
  · rcases hf with ⟨-, rfl⟩ | ⟨hc, -⟩
    · simp [MiddlewareManager.hookMarks] at he
      omega
    · exact hc
  · exact hc

theorem hooks_called {n : ℕ} (hn : 0 < n) {c c' : Bool} {first h h' : List Mark}
    (hf : HooksFirst n c first) (hb : HooksBetween n c c' (h ++ h'))
    (he : first ++ h = MiddlewareManager.hookMarks 0 n) : c' = true := by
  rcases hb with ⟨rfl, hnil⟩ | ⟨-, hc, -⟩
  · rw [(List.append_eq_nil_iff.mp hnil).1] at he
    exact hooks_incomplete hn hf (.inl ⟨rfl, rfl⟩) he
  · exact hc

theorem hooksFirst_silent {n : ℕ} {c : Bool} {first : List Mark} (hf : HooksFirst n c first)
    (i : ℕ) (e : PyError) : .beforeExecution i (some e) ∉ first := by
  rcases hf with ⟨-, rfl⟩ | ⟨-, rfl⟩ <;> simp [MiddlewareManager.hookMarks]

variable {env : Env σ} {fn : Context → Body σ} {outputType : Option OutputType}
  {inv : Invocation σ}

theorem prepared_hooks {ctx : Context} (h : (prepared env inv).outcome = .ok (.ok ctx)) :
    Emptied (prepared env inv).state ∧
      HooksFirst env.middleware.length (prepared env inv).state.beforeExecutionCalled
        (hooksOf (prepared env inv).log) := by
  have hp := prepared_done env inv
  generalize prepared env inv = d at h hp ⊢
  cases hp with
  | refused => simp at h
  | hookFailed => simp at h
  | replaying hne hc => exact ⟨iff_of_false (by simp [hc, Invocation.initial]) hne, .inl ⟨hc, rfl⟩⟩
  | fresh h0 hc _ _ hr =>
    exact ⟨iff_of_true hc h0, .inr ⟨hc, (hooksOf_hooksOnly (hooksOnly_of_ran hr)).trans hr⟩⟩

/-- Every hook was called once, in list order and without an error, before any
handler was entered and before an output was returned; and the error of a hook
is the result of the request, in which no handler was entered. -/
structure BeforeCode (env : Env σ) (d : Run σ CallResult) : Prop where
  entered : ∀ before id p k after, d.log = before ++ .enter id p k :: after →
    hooksOf before = MiddlewareManager.hookMarks 0 env.middleware.length ∧
      hooksOf d.log = MiddlewareManager.hookMarks 0 env.middleware.length
  output : ∀ result, d.outcome = .ok result → result.output ≠ none →
    hooksOf d.log = MiddlewareManager.hookMarks 0 env.middleware.length
  raised : ∀ i e, .beforeExecution i (some e) ∈ d.log →
    History.entered d.log = [] ∧ ∃ result, d.outcome = .ok result ∧ result.error = some e

theorem beforeCode_stopped {e : PyError} (h : (prepared env inv).outcome = .ok (.error e)) :
    BeforeCode env (request env fn outputType inv) := by
  have honly : HooksOnly (request env fn outputType inv).log := by
    rw [request_stopped fn outputType h]
    exact prepared_log env inv
  refine ⟨fun before id p k after he => ?_, fun result hr ho => ?_, fun i e' hm => ⟨?_, ?_⟩⟩
  · obtain ⟨i, e', hi⟩ := honly (.enter id p k) (by simp [he])
    simp at hi
  · rw [request_stopped fn outputType h] at hr
    obtain rfl := Outcome.ok.inj hr
    exact absurd rfl ho
  · exact filterMap_stopped h fun _ _ => rfl
  · rw [request_stopped fn outputType h] at hm ⊢
    refine ⟨_, rfl, ?_⟩
    have hp := prepared_done env inv
    generalize prepared env inv = d at h hp hm
    cases hp with
    | refused => simp at hm
    | hookFailed _ hr =>
      obtain ⟨k, -, hl⟩ := hr
      simp only [hl, MiddlewareManager.hookMarks, List.mem_append, List.mem_map,
        List.mem_singleton, Mark.beforeExecution.injEq] at hm
      simp only [Outcome.ok.injEq, Except.error.injEq] at h
      rcases hm with ⟨j, -, hj⟩ | ⟨-, hj⟩
      · simp at hj
      · rw [← h, hj]
        rfl
    | replaying => simp at hm
    | fresh => simp at h

/-- What the function's code must do for the hooks to bracket it: no memo is
left when a handler is entered or an output is returned, and a hook that fails
while steps are replayed leaves no handler entered and a function that ends
with that error by itself. -/
structure ReplaysFirst (env : Env σ) (outputType : Option OutputType) (d : Run σ Json) :
    Prop where
  entered : ∀ id p k, .enter id p k ∈ d.log → k = 0
  output : ∀ output, Step.serialized env outputType d.outcome = .ok output →
    Execution.afterError env Scope.top d.state = none → Dict.size d.state.memos = 0
  raised : ∀ i e, .beforeExecution i (some e) ∈ d.log → History.entered d.log = [] ∧
    ∃ result, Execution.resultOf (Execution.afterError env Scope.top d.state)
      (Step.serialized env outputType d.outcome) = some result ∧ result.error = some e

theorem output_iff {err : Option PyError} {o : Outcome PyError Interrupt Json} :
    (∃ result, Execution.resultOf err o = some result ∧ result.output ≠ none) ↔
      (∃ output, o = .ok output) ∧ err = none := by
  rcases o with output | e | responses | stepId | _ <;> cases err <;>
    simp [Execution.resultOf, Execution.unlessError, CallResult.ofOutput, CallResult.ofError,
      CallResult.fromResponses]

/-- The hooks bracket new code exactly when the replay comes first. -/
theorem before_execution_brackets_iff {client own : List (Hooks σ)}
    (hm : env.middleware = MiddlewareManager.fromClient client own) :
    BeforeCode env (request env fn outputType inv) ↔
      ∀ ctx, (prepared env inv).outcome = .ok (.ok ctx) →
        ReplaysFirst env outputType (codeRun env fn inv ctx) := by
  have hn : 0 < env.middleware.length := by
    rw [hm, MiddlewareManager.fromClient]
    simp
  obtain ⟨x, hx⟩ := prepared_outcome env inv
  cases x with
  | error e =>
    refine iff_of_true (beforeCode_stopped hx) fun ctx h => ?_
    simp [hx] at h
  | ok ctx =>
    rw [MissingTarget.forall_called hx]
    obtain ⟨hemptied, hfirst⟩ := prepared_hooks hx
    have hbody := brackets_interp env (fn ctx) Scope.top (prepared env inv).state hemptied
    rw [← codeRun] at hbody
    have hout := @StepResults.request_outcome_iff σ env fn outputType inv ctx hx
    have hlog : (request env fn outputType inv).log =
        (prepared env inv).log ++ (codeRun env fn inv ctx).log := request_log fn outputType hx
    have hent : History.entered (request env fn outputType inv).log =
        History.entered (codeRun env fn inv ctx).log := filterMap_request hx fun _ _ => rfl
    have hsplit : ∀ before id p k after, (request env fn outputType inv).log =
        before ++ .enter id p k :: after → ∃ before',
          before = (prepared env inv).log ++ before' ∧
          (codeRun env fn inv ctx).log = before' ++ .enter id p k :: after := by
      intro before id p k after h
      rcases split_append (hlog.symm.trans h) with ⟨after', hl⟩ | h'
      · obtain ⟨i, e, he⟩ := prepared_log env inv (.enter id p k) (by simp [hl])
        simp at he
      · exact h'
    constructor
    · intro h
      refine ⟨fun id p k hmem => ?_, fun output ho ha => ?_, fun i e hmem => ?_⟩
      · obtain ⟨before, after, hl⟩ := List.append_of_mem hmem
        have hcalled := (h.entered ((prepared env inv).log ++ before) id p k after
          (by rw [hlog, hl, List.append_assoc])).1
        rw [hooksOf_append] at hcalled
        simpa using hooks_incomplete hn hfirst (hbody.enters before id p k after hl) hcalled
      · have hcalled := h.output _ (hout.mpr (by rw [ho, ha]; rfl)) (by simp [
          Execution.unlessError, CallResult.ofOutput])
        rw [hlog, hooksOf_append] at hcalled
        exact hbody.emptied.mp (hooks_incomplete hn hfirst hbody.hooks hcalled)
      · obtain ⟨hnone, result, hr, he⟩ := h.raised i e (by rw [hlog]; simp [hmem])
        exact ⟨hent ▸ hnone, result, hout.mp hr, he⟩
    · intro h
      have hno : ∀ {l}, (∀ m ∈ l, m ∈ (codeRun env fn inv ctx).log) →
          History.entered (codeRun env fn inv ctx).log ≠ [] →
          ∀ i e, .beforeExecution i (some e) ∉ hooksOf l :=
        fun hl hne i e hm => hne (h.raised i e (hl _ (mem_hooksOf.mp hm))).1
      refine ⟨fun before id p k after hl => ?_, fun result hr ho => ?_, fun i e hmem => ?_⟩
      · obtain ⟨before, rfl, hcode⟩ := hsplit before id p k after hl
        have hmem : .enter id p k ∈ (codeRun env fn inv ctx).log := by simp [hcode]
        have hne : History.entered (codeRun env fn inv ctx).log ≠ [] :=
          List.ne_nil_of_mem (mem_entered.mpr ⟨p, k, hmem⟩)
        have hk := hbody.enters before id p k after hcode
        rw [h.entered id p k hmem] at hk
        have hbefore := hooks_complete hfirst hk (hno (by simp +contextual [hcode]) hne)
        have hall := hbody.hooks
        have hcalled := hooks_called hn hfirst (by rwa [hcode, hooksOf_append] at hall) hbefore
        rw [hcalled] at hall
        rw [hlog, hooksOf_append, hooksOf_append]
        exact ⟨hbefore, hooks_complete hfirst hall (hno (fun _ hm => hm) hne)⟩
      · have hr' := hout.mp hr
        obtain ⟨⟨output, hok⟩, hafter⟩ := output_iff.mp ⟨result, hr', ho⟩
        have hall := hbody.hooks
        rw [hbody.emptied.mpr (h.output output hok hafter)] at hall
        rw [hlog, hooksOf_append]
        refine hooks_complete hfirst hall fun i e hmem => ?_
        obtain ⟨-, result', hr'', he⟩ := h.raised i e (mem_hooksOf.mp hmem)
        rw [hok, hafter] at hr''
        rw [← Option.some.inj hr''] at he
        simp [Execution.unlessError, CallResult.ofOutput] at he
      · rw [hlog, List.mem_append] at hmem
        obtain ⟨hnone, result, hr, he⟩ := h.raised i e (hmem.resolve_left fun hp =>
          hooksFirst_silent hfirst i e (mem_hooksOf.mpr hp))
        exact ⟨hent.trans hnone, result, hout.mpr hr, he⟩

/-! Two planned steps of a group: the second one is memoized, the first one is
requested. -/

/-- The handler of `a` is entered while the memo of `b` is still there, and the
hook runs after it. -/
theorem handler_before_hooks :
    (request (Sample.env (Sample.hashStepId "a")) StepResults.twoSteps none
      (Sample.invocation [("b", ⟨.int 2, none⟩)])).log =
        [.parsed [0, 0, 0] (Sample.hashStepId "a") none,
          .reported (Sample.hashStepId "a") false true,
          .enter (Sample.hashStepId "a") true 1,
          .leave (Sample.hashStepId "a") (.returned (.int 1)),
          .parsed [0, 1, 0] (Sample.hashStepId "b") none,
          .reported (Sample.hashStepId "b") true true,
          .beforeExecution 0 none] ∧
    ¬ BeforeCode (Sample.env (Sample.hashStepId "a"))
      (request (Sample.env (Sample.hashStepId "a")) StepResults.twoSteps none
        (Sample.invocation [("b", ⟨.int 2, none⟩)])) := by
  refine ⟨by decide, fun h => ?_⟩
  have hcalled := (h.entered [.parsed [0, 0, 0] (Sample.hashStepId "a") none,
    .reported (Sample.hashStepId "a") false true] (Sample.hashStepId "a") true 1
    [.leave (Sample.hashStepId "a") (.returned (.int 1)),
      .parsed [0, 1, 0] (Sample.hashStepId "b") none,
      .reported (Sample.hashStepId "b") true true, .beforeExecution 0 none] (by decide)).1
  revert hcalled
  decide

theorem before_execution_brackets_iff_twoSteps :
    BeforeCode (Sample.env (Sample.hashStepId "b"))
      (request (Sample.env (Sample.hashStepId "b")) StepResults.twoSteps none
        (Sample.invocation [("a", ⟨.int 1, none⟩)])) ↔
      ∀ ctx, (prepared (Sample.env (Sample.hashStepId "b"))
          (Sample.invocation [("a", ⟨.int 1, none⟩)])).outcome = .ok (.ok ctx) →
        ReplaysFirst (Sample.env (Sample.hashStepId "b")) none
          (codeRun (Sample.env (Sample.hashStepId "b")) StepResults.twoSteps
            (Sample.invocation [("a", ⟨.int 1, none⟩)]) ctx) :=
  @before_execution_brackets_iff _ _ _ _ _ [] [] rfl

end Inngest.BeforeExecution
