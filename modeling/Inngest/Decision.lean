import Inngest.Engine

/-!
# What one step call can do

`report_step` first takes the memo and then decides. The decision depends
only on the scope, the request and the memo, so it is a function of its own;
the equations below replace the engine's code in everything that follows.
-/

set_option autoImplicit false

namespace Inngest
open ServerLib Errors StepLib Effect Engine

inductive Decision where
  | answer (memo : Output)
  | skip
  | respond (op : Opcode)
  | go
  deriving DecidableEq, Repr

namespace Execution
variable {σ : Type} (env : Env σ)

def MayRun (r : Scope) (id : String) : Prop :=
  env.targetHashedId = some id ∨
    env.targetHashedId = none ∧ r.inParallel = false ∧
      env.request.disableImmediateExecution = false

instance (r : Scope) (id : String) : Decidable (MayRun env r id) :=
  inferInstanceAs (Decidable (_ ∨ _))

def verdict (r : Scope) (info : StepInfo) : Option Output → Decision
  | some memo => .answer memo
  | none =>
    if env.targetHashedId.isSome ∧ env.targetHashedId ≠ some info.id then .skip
    else if info.op ≠ .stepRun then .respond info.op
    else if MayRun env r info.id then .go
    else .respond .planned

def answered (info : StepInfo) (memo : Output) : ReportedStep :=
  match memo.error with
  | some e => { ReportedStep.ofInfo info with error := some (stepError e.message e.name e.stack) }
  | none => { ReportedStep.ofInfo info with output := some memo.data }

theorem dispatch_eq (info : StepInfo) (memo : Option Output) (r : Scope) (s : State σ) :
    dispatch env info memo r s = match verdict env r info memo with
      | .answer memo => ⟨.ok (answered info memo), s, []⟩
      | .skip => ⟨.intr (.skip info.displayName), s, []⟩
      | .respond op => ⟨.intr (.response [.ofStep { info with op := op }]), s, []⟩
      | .go => ⟨.ok (ReportedStep.ofInfo info), s, []⟩ := by
  cases memo with
  | some memo =>
    cases h : memo.error <;> simp [dispatch, verdict, answered, h]
  | none =>
    cases ht : env.targetHashedId with
    | none =>
      by_cases hop : info.op = .stepRun <;> cases hp : r.inParallel <;>
        cases hd : env.request.disableImmediateExecution <;>
          simp [dispatch, verdict, handleSkip, MayRun, ht, hop, hp, hd]
    | some t =>
      by_cases hid : t = info.id <;> by_cases hop : info.op = .stepRun <;>
        simp [dispatch, verdict, handleSkip, MayRun, ht, hid, hop]

structure PopDone (info : StepInfo) (r : Scope) (s : State σ) (d : Run σ (Option Output)) :
    Prop where
  outcome : d.outcome = .ok (s.memos.lookup info.id)
  memos : d.state.memos = s.memos.erase info.id
  counts : d.state.counts = s.counts
  logging : s.loggingEnabled → d.state.loggingEnabled
  held : d.state.held = s.held
  hooks : ∃ l, d.log = .reported info.id (s.memos.lookup info.id).isSome r.inParallel :: l ∧
    ((Dict.size (s.memos.erase info.id) ≠ 0 ∨ s.beforeExecutionCalled = true) ∧ l = [] ∧
        d.state = { s with memos := s.memos.erase info.id } ∨
      Dict.size (s.memos.erase info.id) = 0 ∧ s.beforeExecutionCalled = false ∧
        d.state.beforeExecutionCalled = true ∧
        (∃ err, MiddlewareManager.HooksRan 0 env.middleware.length l err) ∧
        (MiddlewareManager.LoggerFirst env.middleware → d.state.loggingEnabled = true))

theorem popMemo_done (info : StepInfo) (r : Scope) (s : State σ) :
    PopDone env info r s (popMemo env info r s) := by
  by_cases h0 : Dict.size (s.memos.erase info.id) = 0
  · obtain ⟨hf, hc, err, ho, hr⟩ := MiddlewareManager.beforeExecution_done env.flavor
      env.middleware r { s with memos := s.memos.erase info.id }
    have hrun : popMemo env info r s = (⟨.ok (s.memos.lookup info.id),
        (MiddlewareManager.beforeExecution env.flavor env.middleware r
          { s with memos := s.memos.erase info.id }).state,
        (MiddlewareManager.beforeExecution env.flavor env.middleware r
          { s with memos := s.memos.erase info.id }).log⟩ : Run σ (Option Output)).after
          [.reported info.id (s.memos.lookup info.id).isSome r.inParallel] := by
      simp only [popMemo, StepMemos.pop, Comp.get_bind, Comp.modify_bind, Comp.ask_bind,
        Comp.mark_bind, h0, if_true]
      rw [Comp.bind_ok ho]
      simp [Done.after]
    rw [hrun]
    refine ⟨rfl, hf.memos, hf.counts, hf.logging, hf.held, _, rfl, ?_⟩
    rcases hr with ⟨hs, -, hst, hl⟩ | ⟨hs, hr, hlogger⟩
    · exact .inl ⟨.inr hs, hl, hst⟩
    · exact .inr ⟨h0, hs, hc, ⟨err, hr⟩, hlogger⟩
  · have hrun : popMemo env info r s = ⟨.ok (s.memos.lookup info.id),
        { s with memos := s.memos.erase info.id },
        [.reported info.id (s.memos.lookup info.id).isSome r.inParallel]⟩ := by
      simp [popMemo, StepMemos.pop, h0, Done.after]
    rw [hrun]
    exact ⟨rfl, rfl, rfl, id, rfl, [], rfl, .inl ⟨.inl h0, rfl, rfl⟩⟩

end Execution

theorem ReportedStep.guard_run {σ α : Type} (step : ReportedStep) (code : Exec σ α) (r : Scope)
    (s : State σ) :
    step.guard code r s = if r.inStep then ⟨.intr .nested, s, [.nestedEnter step.info.id r.running]⟩
      else code (r.inHandler step.info.id) s := by
  cases h : r.inStep <;> simp [ReportedStep.guard, h, Done.after]

namespace Step
open Execution
variable {σ : Type} (env : Env σ)

def remembered (decode : Json → Except PyError Json) (memo : Output) : Except PyError Json :=
  match memo.error with
  | some e => .error (stepError e.message e.name e.stack)
  | none => decode memo.data

def settle (info : StepInfo) (decode : Json → Except PyError Json) (otherwise : Exec σ Json)
    (r : Scope) (s : State σ) : Decision → Run σ Json
  | .answer memo =>
    if r.inStep then ⟨.intr .nested, s, [.nestedEnter info.id r.running]⟩
    else Comp.ofExcept (remembered decode memo) r s
  | .skip => ⟨.intr (.skip info.displayName), s, []⟩
  | .respond op => ⟨.intr (.response [.ofStep { info with op := op }]), s, []⟩
  | .go =>
    if r.inStep then ⟨.intr .nested, s, [.nestedEnter info.id r.running]⟩
    else otherwise (r.inHandler info.id) s

theorem reported_eq (info : StepInfo) (decode : Json → Except PyError Json)
    (otherwise : Exec σ Json) (r : Scope) (s : State σ) :
    reported env info decode otherwise r s =
      (settle info decode otherwise r (popMemo env info r s).state
        (verdict env r info (s.memos.lookup info.id))).after (popMemo env info r s).log := by
  have hp := (popMemo_done env info r s).outcome
  have hd : reportStep env info r s =
      (dispatch env info (s.memos.lookup info.id) r (popMemo env info r s).state).after
        (popMemo env info r s).log := by
    rw [reportStep, Comp.bind_ok hp]
  rw [dispatch_eq] at hd
  generalize hv : verdict env r info (s.memos.lookup info.id) = v at hd ⊢
  cases v with
  | answer memo =>
    rw [reported, Comp.bind_ok (by rw [hd]; rfl), hd, ReportedStep.guard_run]
    cases he : memo.error <;> cases hr : r.inStep <;>
      simp [settle, hr, answered, he, ReportedStep.ofInfo, remembered, Comp.ofExcept]
    cases decode memo.data <;> rfl
  | skip => rw [reported, Comp.bind_intr (by rw [hd]; rfl), hd]; rfl
  | respond op => rw [reported, Comp.bind_intr (by rw [hd]; rfl), hd]; rfl
  | go =>
    rw [reported, Comp.bind_ok (by rw [hd]; rfl), hd, ReportedStep.guard_run]
    cases hr : r.inStep <;> simp [settle, hr, ReportedStep.ofInfo]

def parsedAt (stepId : String) (s : State σ) : ParsedStepID :=
  (parseStepId env.hash stepId s.counts).1

def countedAt (stepId : String) (s : State σ) : State σ :=
  { s with counts := (parseStepId env.hash stepId s.counts).2 }

theorem parse_run (stepId : String) (r : Scope) (s : State σ) :
    parse env stepId r s = ⟨.ok (parsedAt env stepId s), countedAt env stepId s,
      [.parsed r.path (parsedAt env stepId s).hashed r.running]⟩ := rfl

theorem run_eq (stepId : String) (outputType : Option OutputType) (handler : Exec σ Json)
    (r : Scope) (s : State σ) :
    run env stepId outputType handler r s =
      (reported env (runInfo (parsedAt env stepId s))
        (fun output => env.deserialize output outputType)
        (execute env (runInfo (parsedAt env stepId s)) outputType handler)
        r (countedAt env stepId s)).after
          [.parsed r.path (parsedAt env stepId s).hashed r.running] := by
  rw [run, Comp.bind_ok (by rw [parse_run]), parse_run]

theorem call_error {c : StepCall} {e : PyError} (h : c.opts = .error e) (r : Scope)
    (s : State σ) :
    call env c r s = ⟨.exc e, countedAt env c.stepId s,
      [.parsed r.path (parsedAt env c.stepId s).hashed r.running]⟩ := by
  rw [call, Comp.bind_ok (by rw [parse_run]), parse_run, h]
  simp [Comp.ofExcept, Done.after]

theorem call_eq {c : StepCall} {opts : Option (List (String × Json))} (h : c.opts = .ok opts)
    (r : Scope) (s : State σ) :
    call env c r s =
      (reported env (callInfo c (parsedAt env c.stepId s) opts) c.decode
        (Comp.raise (exception "Exception" "unreachable")) r (countedAt env c.stepId s)).after
          [.parsed r.path (parsedAt env c.stepId s).hashed r.running] := by
  rw [call, Comp.bind_ok (by rw [parse_run]), parse_run, h]
  simp [Comp.ofExcept]

theorem reported_memoized {info : StepInfo} (decode : Json → Except PyError Json)
    (otherwise : Exec σ Json) {memo : Output} {r : Scope} {s : State σ}
    (hmemo : s.memos.lookup info.id = some memo) (hr : r.inStep = false) :
    (reported env info decode otherwise r s).outcome =
      Outcome.ofExcept (remembered decode memo) := by
  rw [reported_eq, hmemo]
  simp [verdict, settle, hr]

theorem run_memoized {stepId : String} (outputType : Option OutputType) (handler : Exec σ Json)
    {memo : Output} {r : Scope} {s : State σ}
    (hmemo : s.memos.lookup (parsedAt env stepId s).hashed = some memo) (hr : r.inStep = false) :
    (run env stepId outputType handler r s).outcome =
      Outcome.ofExcept (remembered (env.deserialize · outputType) memo) := by
  rw [run_eq]
  exact reported_memoized env _ _ hmemo hr

theorem call_memoized {c : StepCall} {opts : Option (List (String × Json))}
    (hopts : c.opts = .ok opts) {memo : Output} {r : Scope} {s : State σ}
    (hmemo : s.memos.lookup (parsedAt env c.stepId s).hashed = some memo) (hr : r.inStep = false) :
    (call env c r s).outcome = Outcome.ofExcept (remembered c.decode memo) := by
  rw [call_eq env hopts]
  exact reported_memoized env _ _ hmemo hr

def exitOf : Outcome PyError Interrupt Json → HandlerExit
  | .ok output => .returned output
  | .exc e => if bubbles e then .bubbled e else .failed e
  | .intr .nested => .nested
  | .intr _ => .interrupted

def endOf (info : StepInfo) : Outcome PyError Interrupt Json → Outcome PyError Interrupt Json
  | .ok output => .intr (.response [⟨output, none, info⟩])
  | .exc e =>
    if bubbles e then .exc e
    else .intr (.response [⟨.null, some e, { info with op := failedOp env }⟩])
  | .intr .nested => .intr (.response [⟨.null, some nestedError, { info with op := .stepError }⟩])
  | .intr i => .intr i

theorem conclude_eq (info : StepInfo) (o : Outcome PyError Interrupt Json) (r : Scope)
    (s : State σ) :
    conclude env info o r s = ⟨endOf env info o, s, [.leave info.id (exitOf o)]⟩ := by
  cases o with
  | ok output => rfl
  | exc e => cases h : bubbles e <;> simp [conclude, endOf, exitOf, h, Done.after]
  | intr i => cases i <;> rfl

/-- The handler's outcome after its result went through the serializer. -/
def serialized (outputType : Option OutputType) (o : Outcome PyError Interrupt Json) :
    Outcome PyError Interrupt Json :=
  match o with
  | .ok v => match env.serialize v outputType with
    | .ok output => .ok output
    | .error e => .exc e
  | o => o

theorem serialized_run (outputType : Option OutputType) (handler : Exec σ Json) (r : Scope)
    (s : State σ) :
    (handler >>= fun output => Comp.ofExcept (env.serialize output outputType)) r s =
      ⟨serialized env outputType (handler r s).outcome, (handler r s).state,
        (handler r s).log⟩ := by
  cases ho : (handler r s).outcome with
  | ok v =>
    rw [Comp.bind_ok ho]
    cases he : env.serialize v outputType <;>
      simp [serialized, he, Comp.ofExcept, Done.after]
  | exc e => rw [Comp.bind_exc ho]; rfl
  | intr i => rw [Comp.bind_intr ho]; rfl

theorem execute_eq (info : StepInfo) (outputType : Option OutputType) (handler : Exec σ Json)
    (r : Scope) (s : State σ) :
    execute env info outputType handler r s =
      ⟨endOf env info (serialized env outputType (handler r s).outcome), (handler r s).state,
        .enter info.id r.inParallel (Dict.size s.memos) :: ((handler r s).log ++
          [.leave info.id (exitOf (serialized env outputType (handler r s).outcome))])⟩ := by
  simp only [execute, Comp.ask_bind, Comp.get_bind, Comp.mark_bind, Comp.afterwards_run,
    serialized_run, conclude_eq, Done.after_after]
  rfl

theorem verdict_go {r : Scope} {info : StepInfo} {memo : Option Output}
    (h : verdict env r info memo = .go) :
    memo = none ∧ info.op = .stepRun ∧ MayRun env r info.id := by
  cases memo with
  | some memo => simp [verdict] at h
  | none =>
    simp only [verdict] at h
    split at h
    · simp at h
    · split at h
      · simp at h
      · split at h
        · rename_i hop hm
          exact ⟨rfl, by simpa using hop, hm⟩
        · simp at h

theorem verdict_skip {r : Scope} {info : StepInfo} {memo : Option Output} :
    verdict env r info memo = .skip ↔
      memo = none ∧ ∃ t, env.targetHashedId = some t ∧ t ≠ info.id := by
  cases memo with
  | some memo => simp [verdict]
  | none =>
    cases ht : env.targetHashedId with
    | none => simp only [verdict, ht]; split_ifs <;> simp_all
    | some t => by_cases h : t = info.id <;> simp [verdict, ht, h]; split_ifs <;> simp

theorem verdict_answer {r : Scope} {info : StepInfo} {memo : Option Output} {m : Output} :
    verdict env r info memo = .answer m ↔ memo = some m := by
  cases memo with
  | some memo => simp [verdict]
  | none => simp only [verdict]; split_ifs <;> simp

def waitingOp (op : Opcode) : Opcode := if op = .stepRun then .planned else op

theorem verdict_respond {r : Scope} {info : StepInfo} {memo : Option Output} {op : Opcode}
    (h : verdict env r info memo = .respond op) :
    memo = none ∧ (∀ t, env.targetHashedId = some t → t = info.id) ∧ op = waitingOp info.op ∧
      (info.op = .stepRun → ¬ MayRun env r info.id) := by
  cases memo with
  | some memo => simp [verdict] at h
  | none =>
    simp only [verdict] at h
    split at h
    · simp at h
    · rename_i ht
      have ht' : ∀ t, env.targetHashedId = some t → t = info.id := by
        intro t he
        simpa [he] using ht
      split at h
      · rename_i hop
        exact ⟨rfl, ht', by simp_all [waitingOp], fun hr => absurd hr hop⟩
      · rename_i hop
        split at h
        · simp at h
        · rename_i hm
          exact ⟨rfl, ht', by simp_all [waitingOp], fun _ => hm⟩

/-- Everything that can become of a step call once its ID is parsed: the run
is the last argument, and `d` is what taking the memo did. -/
inductive StepDone (info : StepInfo) (decode : Json → Except PyError Json)
    (outputType : Option OutputType) (handler : Exec σ Json) (r : Scope) (s : State σ) :
    Run σ Json → Prop where
  | answered {d memo} : PopDone env info r s d → s.memos.lookup info.id = some memo →
      r.inStep = false →
      StepDone info decode outputType handler r s
        ⟨Outcome.ofExcept (remembered decode memo), d.state, d.log⟩
  | nested {d} : PopDone env info r s d → r.inStep = true →
      (s.memos.lookup info.id = none → info.op = .stepRun ∧ MayRun env r info.id) →
      StepDone info decode outputType handler r s
        ⟨.intr .nested, d.state, d.log ++ [.nestedEnter info.id r.running]⟩
  | skipped {d t} : PopDone env info r s d → s.memos.lookup info.id = none →
      env.targetHashedId = some t → t ≠ info.id →
      StepDone info decode outputType handler r s
        ⟨.intr (.skip info.displayName), d.state, d.log⟩
  | responded {d} : PopDone env info r s d → s.memos.lookup info.id = none →
      (∀ t, env.targetHashedId = some t → t = info.id) →
      (info.op = .stepRun → ¬ MayRun env r info.id) →
      StepDone info decode outputType handler r s
        ⟨.intr (.response [.ofStep { info with op := waitingOp info.op }]), d.state, d.log⟩
  | executed {d h} : PopDone env info r s d → s.memos.lookup info.id = none →
      r.inStep = false → info.op = .stepRun → MayRun env r info.id →
      handler (r.inHandler info.id) d.state = h →
      StepDone info decode outputType handler r s
        ⟨endOf env info (serialized env outputType h.outcome), h.state,
          d.log ++ .enter info.id r.inParallel (Dict.size d.state.memos) ::
            (h.log ++ [.leave info.id (exitOf (serialized env outputType h.outcome))])⟩

theorem reported_done {info : StepInfo} {decode : Json → Except PyError Json}
    {outputType : Option OutputType} {handler otherwise : Exec σ Json} (r : Scope) (s : State σ)
    (hgo : info.op = .stepRun → otherwise = execute env info outputType handler) :
    StepDone env info decode outputType handler r s (reported env info decode otherwise r s) := by
  have hp := popMemo_done env info r s
  rw [reported_eq]
  generalize popMemo env info r s = d at hp ⊢
  generalize hv : verdict env r info (s.memos.lookup info.id) = v
  cases v with
  | answer memo =>
    have hm := verdict_answer env |>.mp hv
    cases hr : r.inStep with
    | true =>
      simpa [settle, hr, Done.after] using StepDone.nested hp hr (fun h => by simp [hm] at h)
    | false =>
      simpa [settle, hr, Done.after] using StepDone.answered hp hm hr
  | skip =>
    obtain ⟨hm, t, ht, hne⟩ := verdict_skip env |>.mp hv
    simpa [settle, Done.after] using StepDone.skipped hp hm ht hne
  | respond op =>
    obtain ⟨hm, ht, rfl, hrun⟩ := verdict_respond env hv
    simpa [settle, Done.after] using StepDone.responded hp hm ht hrun
  | go =>
    obtain ⟨hm, hop, hmay⟩ := verdict_go env hv
    cases hr : r.inStep with
    | true => simpa [settle, hr, Done.after] using StepDone.nested hp hr (fun _ => ⟨hop, hmay⟩)
    | false =>
      have h := @StepDone.executed σ env info decode outputType handler r s d _ hp hm hr hop
        hmay rfl
      simpa [settle, hr, hgo hop, execute_eq, Done.after] using h

/-- `step.run` parses its ID and then is one of the cases above. -/
theorem run_done (stepId : String) (outputType : Option OutputType) (handler : Exec σ Json)
    (r : Scope) (s : State σ) :
    ∃ d, StepDone env (runInfo (parsedAt env stepId s))
        (fun output => env.deserialize output outputType) outputType handler r
        (countedAt env stepId s) d ∧
      run env stepId outputType handler r s =
        d.after [.parsed r.path (parsedAt env stepId s).hashed r.running] :=
  ⟨_, reported_done env r _ fun _ => rfl, run_eq env stepId outputType handler r s⟩

theorem call_done (c : StepCall) (r : Scope) (s : State σ) :
    (∃ e, c.opts = .error e ∧
      call env c r s = ⟨.exc e, countedAt env c.stepId s,
        [.parsed r.path (parsedAt env c.stepId s).hashed r.running]⟩) ∨
    ∃ opts d, c.opts = .ok opts ∧
      StepDone env (callInfo c (parsedAt env c.stepId s) opts) c.decode none
        (Comp.raise (exception "Exception" "unreachable")) r (countedAt env c.stepId s) d ∧
      call env c r s = d.after [.parsed r.path (parsedAt env c.stepId s).hashed r.running] := by
  cases h : c.opts with
  | error e => exact .inl ⟨e, rfl, call_error env h r s⟩
  | ok opts =>
    exact .inr ⟨opts, _, rfl, reported_done env r _ (fun hop => absurd hop c.not_stepRun),
      call_eq env h r s⟩

end Step

end Inngest
