import Inngest.History
import Inngest.Replay

/-!
# Durable code

Function bodies whose step calls are the questions of replayed code. What a
`step.run` handler returns belongs to the call; the answer to every other call
comes from outside. A request replays the body with its memos.
-/

set_option autoImplicit false

namespace Inngest.Durable
open ServerLib Errors StepLib Effect Engine Replay History

inductive Question where
  | run (stepId : String) (value : Json)
  | call (c : StepCall)

abbrev Line := Replay.Line Question (Except PyError Json) Json

abbrev Code := Replay.Code Question (Except PyError Json) Json (Except PyError Json) ParallelMode

abbrev Pause := Replay.Pause Question ParallelMode

abbrev Answers := Question → Option (Except PyError Json)

namespace Question

def id : Question → String
  | .run stepId _ => stepId
  | .call c => c.stepId

def isRun : Question → Bool
  | .run _ _ => true
  | .call _ => false

def opts : Question → Option (List (String × Json))
  | .run _ _ => none
  | .call c => c.opts.toOption.join

def decode : Question → Json → Except PyError Json
  | .run _ _ => .ok
  | .call c => c.decode

def info (hash : String → String) (q : Question) : StepInfo :=
  match q with
  | .run _ _ => Step.runInfo ⟨hash q.id, q.id, none⟩
  | .call c => Step.callInfo c ⟨hash q.id, q.id, none⟩ q.opts

/-- The step method gets as far as reporting its step. -/
def Callable : Question → Prop
  | .run _ _ => True
  | .call c => ∃ opts, c.opts = .ok opts

def answer (hash : String → String) (memos : StepMemos) (q : Question) :
    Option (Except PyError Json) :=
  (memos.lookup (hash q.id)).map (Step.remembered q.decode)

def body {σ : Type} (q : Question) (k : Except PyError Json → Body σ) : Body σ :=
  match q with
  | .run stepId value => .run stepId none (.ret value) k
  | .call c => .call c k

def perform {σ : Type} (env : Env σ) : Question → Exec σ Json
  | .run stepId value => Step.run env stepId none (Comp.within Scope.handler (Comp.done value))
  | .call c => Step.call env c

@[simp] theorem info_id (hash : String → String) (q : Question) : (q.info hash).id = hash q.id := by
  cases q <;> rfl

@[simp] theorem info_displayName (hash : String → String) (q : Question) :
    (q.info hash).displayName = q.id := by
  cases q <;> rfl

theorem info_op (hash : String → String) (q : Question) :
    (q.info hash).op = .stepRun ↔ q.isRun = true := by
  cases q with
  | run stepId value => exact ⟨fun _ => rfl, fun _ => rfl⟩
  | call c => exact ⟨fun h => absurd h c.not_stepRun, fun h => by cases h⟩

end Question

variable {σ : Type}

def lineBody : Line → Body σ
  | .ret v => .ret v
  | .ask q next => q.body fun x => lineBody (next x)

def codeBody : Code → Body σ
  | .ret (.ok v) => .ret v
  | .ret (.error e) => .raise e
  | .ask q next => q.body fun x => codeBody (next x)
  | .group mode lines next =>
    .parallel lines.length (fun i => lineBody (lines.get i)) mode fun
      | .ok outputs => codeBody (next outputs)
      | .error e => .raise e

/-! ## What a request does at an open question -/

section Reaction
variable (env : Env σ) (inParallel : Bool) (q : Question)

def Enters : Prop :=
  q.isRun = true ∧ (env.targetHashedId = some (env.hash q.id) ∨
    env.targetHashedId = none ∧ inParallel = false ∧
      env.request.disableImmediateExecution = false)

instance : Decidable (Enters env inParallel q) := inferInstanceAs (Decidable (_ ∧ _))

def entersAt : List String := if Enters env inParallel q then [env.hash q.id] else []

def response : StepResponse :=
  match q with
  | .run _ value =>
    if Enters env inParallel q then ⟨value, none, q.info env.hash⟩
    else .ofStep { q.info env.hash with op := .planned }
  | .call _ => .ofStep (q.info env.hash)

def PassedOver : Prop := env.targetHashedId.isSome ∧ env.targetHashedId ≠ some (env.hash q.id)

instance : Decidable (PassedOver env q) := inferInstanceAs (Decidable (_ ∧ _))

def respond : Option StepResponse :=
  if PassedOver env q then none else some (response env inParallel q)

def react : Interrupt :=
  match respond env inParallel q with
  | some response => .response [response]
  | none => .skip q.id

end Reaction

section Ends
variable (env : Env σ)

def responses : Pause → List StepResponse
  | .one q => (respond env false q).toList
  | .group mode qs => (qs.filterMap (respond env true)).map fun r => r.setParallelMode mode

def handlers : Pause → List String
  | .one q => entersAt env false q
  | .group _ qs => qs.flatMap (entersAt env true)

def lineEnd : Except Question Json → Outcome PyError Interrupt Json
  | .ok v => .ok v
  | .error q => .intr (react env true q)

def lineHandlers : Except Question Json → List String
  | .ok _ => []
  | .error q => entersAt env true q

def codeEnd : Except Pause (Except PyError Json) → Outcome PyError Interrupt Json
  | .ok x => .ofExcept x
  | .error pause => .intr (.response (responses env pause))

def codeHandlers : Except Pause (Except PyError Json) → List String
  | .ok _ => []
  | .error pause => handlers env pause

def resultFor : Except Pause (Except PyError Json) → CallResult
  | .ok (.ok v) => CallResult.ofOutput v
  | .ok (.error e) => CallResult.ofError e
  | .error pause => CallResult.fromResponses (responses env pause)

end Ends

/-! ## The engine at one question -/

section Engine
variable {env : Env σ} {f : Answers} {q : Question} {qs rest : List Question} {r : Scope}
  {s : State σ}

def Apart (hash : String → String) (qs : List Question) : Prop :=
  (qs.map fun q => hash q.id).Nodup

/-- The questions are still to come, and `f` has the answers. -/
structure Fresh (hash : String → String) (f : Answers) (qs : List Question) (s : State σ) :
    Prop where
  counts : ∀ q ∈ qs, s.counts q.id = 0
  memos : ∀ q ∈ qs, q.answer hash s.memos = f q

theorem Fresh.mono {hash : String → String} {qs' : List Question} (h : Fresh hash f qs s)
    (hsub : qs' ⊆ qs) : Fresh hash f qs' s :=
  ⟨fun q hq => h.counts q (hsub hq), fun q hq => h.memos q (hsub hq)⟩

theorem parsedAt_fresh {stepId : String} (h : s.counts stepId = 0) :
    Step.parsedAt env stepId s = ⟨env.hash stepId, stepId, none⟩ := by
  simp [Step.parsedAt, parseStepId, StepIDCounter.increment, preHashed, h]

theorem remembered_answer {memo : Output} {memos : StepMemos}
    (h : memos.lookup (env.hash q.id) = some memo) :
    q.answer env.hash memos = some (Step.remembered q.decode memo) := by
  rw [Question.answer, h]
  rfl

theorem answer_none {memos : StepMemos} :
    q.answer env.hash memos = none ↔ memos.lookup (env.hash q.id) = none := by
  rw [Question.answer, Option.map_eq_none_iff]

theorem mayRun_iff (hrun : q.isRun = true) :
    Execution.MayRun env r (q.info env.hash).id ↔ Enters env r.inParallel q := by
  rw [Execution.MayRun, Enters, Question.info_id, and_iff_right hrun]

/-- What the call of a step comes to: the answer, or the reaction to an open
question. -/
structure Asked (env : Env σ) (inParallel : Bool) (q : Question)
    (answer : Option (Except PyError Json)) (s : State σ) (d : Run σ Json) : Prop where
  answered : ∀ x, answer = some x → d.outcome = .ofExcept x ∧ entered d.log = []
  opened : answer = none →
    d.outcome = .intr (react env inParallel q) ∧ entered d.log = entersAt env inParallel q
  memos : d.state.memos = s.memos.erase (env.hash q.id)
  counts : d.state.counts = s.counts

theorem Asked.after {d : Run σ Json} {b : Bool} {x : Option (Except PyError Json)} {l : List Mark}
    (h : Asked env b q x s d) (hl : entered l = []) : Asked env b q x s (d.after l) :=
  ⟨fun y hy => ⟨(h.answered y hy).1, by simp [hl, (h.answered y hy).2]⟩,
    fun hn => ⟨(h.opened hn).1, by simp [hl, (h.opened hn).2]⟩, h.memos, h.counts⟩

theorem asked_of_done {handler : Exec σ Json} {d : Run σ Json}
    (h : Step.StepDone env (q.info env.hash) q.decode none handler r s d) (hr : r.inStep = false)
    (hser : env.serializer = none)
    (hhandler : ∀ stepId value, q = .run stepId value → ∀ r s,
      handler r s = ⟨.ok value, s, []⟩) :
    Asked env r.inParallel q (q.answer env.hash s.memos) s d := by
  cases h with
  | @answered p memo hp hmemo =>
    have hanswer := remembered_answer (q := q) (Question.info_id env.hash q ▸ hmemo)
    refine ⟨fun x hx => ?_, fun hn => ?_, ?_, hp.counts⟩
    · obtain rfl := Option.some.inj (hanswer.symm.trans hx)
      exact ⟨rfl, entered_pop hp⟩
    · rw [hanswer] at hn
      cases hn
    · rw [hp.memos, Question.info_id]
  | nested _ hstep => exact absurd (hr.symm.trans hstep) (by decide)
  | @skipped p t hp hmemo ht hne =>
    rw [Question.info_id] at hmemo hne
    have hanswer := (answer_none (q := q)).mpr hmemo
    have hskip : respond env r.inParallel q = none := by
      rw [respond, if_pos]
      exact ⟨by simp [ht], by simpa [ht] using hne⟩
    refine ⟨fun x hx => ?_, fun _ => ⟨?_, ?_⟩, ?_, hp.counts⟩
    · rw [hanswer] at hx
      cases hx
    · rw [react, hskip, Question.info_displayName]
    · rw [entered_pop hp, entersAt, if_neg]
      rintro ⟨-, hmay | ⟨hmay, -⟩⟩
      · exact hne (Option.some.inj (ht.symm.trans hmay))
      · rw [ht] at hmay
        cases hmay
    · rw [hp.memos, Question.info_id]
  | @responded p hp hmemo ht hnot =>
    rw [Question.info_id] at hmemo
    have hanswer := (answer_none (q := q)).mpr hmemo
    have hnotSkipped : ¬ PassedOver env q := by
      rintro ⟨hsome, hne⟩
      obtain ⟨t, htarget⟩ := Option.isSome_iff_exists.mp hsome
      exact hne (by rw [htarget, ht t htarget, Question.info_id])
    have hEnters : ¬ Enters env r.inParallel q := fun henters =>
      hnot ((Question.info_op env.hash q).mpr henters.1) ((mayRun_iff henters.1).mpr henters)
    refine ⟨fun x hx => ?_, fun _ => ⟨?_, ?_⟩, ?_, hp.counts⟩
    · rw [hanswer] at hx
      cases hx
    · rw [react, respond, if_neg hnotSkipped]
      cases q with
      | run stepId value =>
        rw [response, if_neg hEnters]
        rfl
      | call c =>
        have hop : Step.waitingOp c.op = c.op := by rw [Step.waitingOp, if_neg c.not_stepRun]
        change Outcome.intr (Interrupt.response [StepResponse.ofStep
          { (Question.call c).info env.hash with op := Step.waitingOp c.op }]) = _
        rw [hop]
        rfl
    · rw [entered_pop hp, entersAt, if_neg hEnters]
    · rw [hp.memos, Question.info_id]
  | @executed p h hp hmemo _ hop hmay hrun =>
    rw [Question.info_id] at hmemo
    have hanswer := (answer_none (q := q)).mpr hmemo
    have hisRun := (Question.info_op env.hash q).mp hop
    have hEnters := (mayRun_iff hisRun).mp hmay
    have hnotSkipped : ¬ PassedOver env q := by
      rintro ⟨hsome, hne⟩
      rcases hEnters.2 with ht | ⟨ht, -⟩
      · exact hne ht
      · rw [ht] at hsome
        cases hsome
    cases q with
    | call c => cases hisRun
    | run stepId value =>
      obtain rfl := (hhandler stepId value rfl _ _).symm.trans hrun
      have hvalue : Step.serialized env none (.ok value) = .ok value := by
        simp [Step.serialized, Env.serialize, hser]
      refine ⟨fun x hx => ?_, fun _ => ⟨?_, ?_⟩, ?_, hp.counts⟩
      · rw [hanswer] at hx
        cases hx
      · rw [react, respond, if_neg hnotSkipped, response, if_pos hEnters]
        change Step.endOf env _ (Step.serialized env none (.ok value)) = _
        rw [hvalue]
        rfl
      · have hlog : entered p.log = [] := entered_pop hp
        simp [hlog, entersAt, if_pos hEnters, enteredId]
      · exact hp.memos

theorem asked_perform (hser : env.serializer = none) (hq : q.Callable) (hr : r.inStep = false)
    (hcount : s.counts q.id = 0) :
    ∃ s', s'.memos = s.memos ∧ (∀ id, id ≠ q.id → s'.counts id = s.counts id) ∧
      Asked env r.inParallel q (q.answer env.hash s.memos) s' (q.perform env r s) := by
  refine ⟨Step.countedAt env q.id s, rfl, fun id hid => ?_, ?_⟩
  · exact Function.update_of_ne hid _ _
  cases q with
  | run stepId value =>
    obtain ⟨d, hd, he⟩ := Step.run_done env stepId none
      (Comp.within Scope.handler (Comp.done value)) r s
    have hparsed : Step.parsedAt env stepId s = ⟨env.hash stepId, stepId, none⟩ :=
      parsedAt_fresh hcount
    rw [hparsed] at hd
    have hdecode : (fun output => env.deserialize output none) = .ok := by
      funext output
      simp [Env.deserialize, hser]
    rw [hdecode] at hd
    rw [Question.perform, he]
    refine (asked_of_done (q := .run stepId value) hd hr hser ?_).after rfl
    rintro _ _ ⟨rfl, rfl⟩ r s
    rfl
  | call c =>
    obtain ⟨opts, hopts⟩ := hq
    rcases Step.call_done env c r s with ⟨e, he, -⟩ | ⟨opts', d, hopts', hd, he⟩
    · rw [hopts] at he
      cases he
    · have hinfo : Step.callInfo c (Step.parsedAt env c.stepId s) opts' =
          (Question.call c).info env.hash := by
        have hparsed : Step.parsedAt env c.stepId s = ⟨env.hash c.stepId, c.stepId, none⟩ :=
          parsedAt_fresh hcount
        rw [hparsed]
        simp [Question.info, Question.opts, hopts', Question.id, Except.toOption]
      rw [hinfo] at hd
      rw [Question.perform, he]
      refine (asked_of_done (q := .call c) hd hr hser ?_).after rfl
      rintro _ _ ⟨⟩

theorem Asked.fresh {d : Run σ Json} {s' : State σ} {b : Bool} {x : Option (Except PyError Json)}
    (h : Asked env b q x s' d) (hmemos : s'.memos = s.memos)
    (hcounts : ∀ id, id ≠ q.id → s'.counts id = s.counts id) (ha : Apart env.hash (q :: rest))
    (hs : Fresh env.hash f (q :: rest) s) : Fresh env.hash f rest d.state := by
  have hne : ∀ p ∈ rest, env.hash p.id ≠ env.hash q.id := by
    intro p hp he
    exact (List.nodup_cons.mp ha).1 (List.mem_map.mpr ⟨p, hp, he⟩)
  refine ⟨fun p hp => ?_, fun p hp => ?_⟩
  · rw [h.counts, hcounts p.id fun he => hne p hp (by rw [he])]
    exact hs.counts p (List.mem_cons_of_mem _ hp)
  · rw [← hs.memos p (List.mem_cons_of_mem _ hp), Question.answer, Question.answer, h.memos,
      hmemos, AList.lookup_erase_ne (hne p hp)]

end Engine

end Inngest.Durable
