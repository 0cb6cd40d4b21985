import Inngest.DataPipeline
import Inngest.DurableMiddleware

/-!
# Durable code behind a stack of middleware

Each middleware of the stack writes outputs in a way of its own and reads them
back, compressing, sealing or moving them elsewhere. The last one writes first
and reads last. When none of them raises, a run behind the stack does what a run
without it would do, however often the hooks are called and whatever they keep
in the store.
-/

set_option autoImplicit false

namespace Inngest.Durable
open ServerLib Errors StepLib Effect Engine Replay MiddlewareManager
open ReplayIdentity (Sent)
open Transition (Machine)

variable {σ : Type}

/-! ## Codecs -/

/-- What a middleware makes of a memo, if it can read it, and what it can make
of an output. -/
structure Codec where
  read : Output → Option Output
  writes : Json → Json → Prop
  inverse : ∀ {v w}, writes v w → read ⟨w, none⟩ = some ⟨v, none⟩

namespace Codec

def readAll : List Codec → Output → Option Output
  | [], memo => some memo
  | c :: cs, memo => (c.read memo).bind (readAll cs)

def writeAll : List Codec → Json → Json → Prop
  | [], v, w => w = v
  | c :: cs, v, w => ∃ u, writeAll cs v u ∧ c.writes u w

/-- Whatever the later ones make of the value, each can write. -/
def Accepts : List Codec → Json → Prop
  | [], _ => True
  | c :: cs, v => Accepts cs v ∧ ∀ u, writeAll cs v u → ∃ w, c.writes u w

variable {cs : List Codec} {v w : Json}

theorem readAll_of_writeAll (h : writeAll cs v w) : readAll cs ⟨w, none⟩ = some ⟨v, none⟩ := by
  induction cs generalizing w with
  | nil =>
    obtain rfl : w = v := h
    rfl
  | cons c cs ih =>
    obtain ⟨u, hu, hw⟩ := h
    rw [readAll, c.inverse hw, Option.bind_some, ih hu]

end Codec

/-! ## Hooks that do as they should -/

/-- The hook is called, and does not raise. -/
structure Hook.Succeeds {α : Type} (flavor : Flavor) (hook : Hook σ α) : Prop where
  called : ¬ (flavor = .sync ∧ hook.isCoroutine = true)
  call : ∀ s a, (hook.call s a).2 = none

def Counts (result : TransformOutputResult) : Prop := ∀ info ∈ result.step, info.op = .stepRun

structure Wrote (rel : Json → Json → Prop) (result' result : TransformOutputResult) : Prop where
  error : result'.error = result.error
  ops : result'.step.map TransformOutputStepInfo.op = result.step.map TransformOutputStepInfo.op
  output : Counts result → Option.Rel (fun w v => rel v w) result'.output result.output

structure Implements (flavor : Flavor) (h : Hooks σ) (c : Codec) : Prop where
  beforeExecution : Hook.Succeeds flavor h.beforeExecution
  afterExecution : Hook.Succeeds flavor h.afterExecution
  beforeResponse : Hook.Succeeds flavor h.beforeResponse
  inputCalled : ¬ (flavor = .sync ∧ h.transformInput.isCoroutine = true)
  input : ∀ s ctx memos, (∀ id memo, memos.lookup id = some memo → (c.read memo).isSome = true) →
    ∃ s' ctx' memos', h.transformInput.call s (ctx, memos) = ((s', ctx', memos'), none) ∧
      ∀ id, memos'.lookup id = (memos.lookup id).bind c.read
  outputCalled : ¬ (flavor = .sync ∧ h.isMiddleware = true)
  output : ∀ s result, (Counts result → ∀ v, result.output = some v → ∃ w, c.writes v w) →
    ∃ s' result', (h.transformOutput.called flavor).call s result = ((s', result'), none) ∧
      Wrote c.writes result' result

/-! ## The loops of the manager -/

section Loops
variable {α : Type} {refuse : Hooks σ → Bool} {hook : Hooks σ → Hook σ α} {ms : List (Middleware σ)}
  {a b : α} {r : Scope} {s t : State σ}

theorem hookLoop_after {rest : List (Middleware σ)}
    (h : hookLoop refuse hook ms a r s = ⟨.ok (.ok b), t, []⟩) :
    hookLoop refuse hook (ms ++ rest) a r s = hookLoop refuse hook rest b r t := by
  induction ms generalizing a s with
  | nil =>
    obtain ⟨hb, ht⟩ : a = b ∧ s = t := by
      rw [hookLoop, Comp.done_run] at h
      simpa using h
    rw [hb, ht, List.nil_append]
  | cons m ms ih =>
    cases m with
    | logger => exact ih h
    | user m =>
      cases hrefuse : refuse m with
      | true => simp [hookLoop, hrefuse] at h
      | false =>
        rw [hookLoop_user hrefuse] at h
        rw [List.cons_append, hookLoop_user hrefuse]
        cases herr : ((hook m).call s.store a).2 with
        | some e => simp [herr] at h
        | none =>
          simp only [herr] at h ⊢
          exact ih h

theorem hookLoop_one {m : Hooks σ} {u : σ} (hrefuse : refuse m = false)
    (h : (hook m).call s.store a = ((u, b), none)) :
    hookLoop refuse hook [.user m] a r s = ⟨.ok (.ok b), { s with store := u }, []⟩ := by
  rw [hookLoop_user hrefuse, h]
  rfl

theorem hookLoop_succeeds (a : α) (r : Scope) (s : State σ)
    (hcalled : ∀ h, .user h ∈ ms → refuse h = false)
    (hcall : ∀ h, .user h ∈ ms → ∀ s a, ((hook h).call s a).2 = none) :
    ∃ b t, hookLoop refuse hook ms a r s = ⟨.ok (.ok b), t, []⟩ := by
  induction ms generalizing a s with
  | nil => exact ⟨a, s, rfl⟩
  | cons m ms ih =>
    have hrest := fun a s => ih a s (fun h hm => hcalled h (List.mem_cons_of_mem _ hm))
      fun h hm => hcall h (List.mem_cons_of_mem _ hm)
    cases m with
    | logger => exact hrest a s
    | user h =>
      rw [hookLoop_user (hcalled h List.mem_cons_self), hcall h List.mem_cons_self]
      exact hrest _ _

end Loops

/-! ## Stacks -/

section Stacks
variable {flavor : Flavor} {hs : List (Hooks σ)} {cs : List Codec}

theorem stack_reads (h : List.Forall₂ (Implements flavor) hs cs) (ctx : Context) (r : Scope)
    (s : State σ) {memos : StepMemos}
    (hmemos : ∀ id memo, memos.lookup id = some memo → (Codec.readAll cs memo).isSome = true) :
    ∃ t ctx' memos', MiddlewareManager.transformInput flavor (hs.map .user) ctx memos r s =
        ⟨.ok (.ok (ctx', memos')), { s with store := t }, []⟩ ∧
      ∀ id, memos'.lookup id = (memos.lookup id).bind (Codec.readAll cs) := by
  induction h generalizing ctx memos s with
  | nil => exact ⟨s.store, ctx, memos, rfl, fun id => by cases memos.lookup id <;> rfl⟩
  | @cons m c hs cs hm _ ih =>
    have hfirst : ∀ id memo, memos.lookup id = some memo → (c.read memo).isSome = true := by
      intro id memo hmemo
      have hread := hmemos id memo hmemo
      rw [Codec.readAll] at hread
      exact Option.isSome_of_isSome_bind hread
    obtain ⟨u, ctx₁, memos₁, hcall, hread⟩ := hm.input s.store ctx memos hfirst
    have hrest : ∀ id memo, memos₁.lookup id = some memo →
        (Codec.readAll cs memo).isSome = true := by
      intro id memo hmemo
      rw [hread] at hmemo
      obtain ⟨before, hbefore, hmemo⟩ := Option.bind_eq_some_iff.mp hmemo
      have hall := hmemos id before hbefore
      rwa [Codec.readAll, hmemo, Option.bind_some] at hall
    obtain ⟨t, ctx', memos', hloop, hlookup⟩ := ih ctx₁ { s with store := u } hrest
    refine ⟨t, ctx', memos', ?_, fun id => ?_⟩
    · have hrefuse : refuseCoroutine flavor Hooks.transformInput m = false := by
        simpa [refuseCoroutine] using hm.inputCalled
      rw [MiddlewareManager.transformInput, List.map_cons, hookLoop_user hrefuse, hcall]
      exact hloop
    · rw [hlookup, hread, Option.bind_assoc]
      rfl

theorem Wrote.counts {rel : Json → Json → Prop} {result' result : TransformOutputResult}
    (h : Wrote rel result' result) : Counts result' ↔ Counts result := by
  have hcounts : ∀ result : TransformOutputResult, Counts result ↔
      ∀ op ∈ result.step.map TransformOutputStepInfo.op, op = .stepRun := by
    intro result
    simp [Counts]
  rw [hcounts, hcounts, h.ops]

theorem stack_writes (h : List.Forall₂ (Implements flavor) hs cs) (r : Scope) (s : State σ)
    {result : TransformOutputResult}
    (hresult : Counts result → ∀ v, result.output = some v → Codec.Accepts cs v) :
    ∃ t result', transformOutputHooks flavor (hs.map .user) result r s =
        ⟨.ok (.ok result'), { s with store := t }, []⟩ ∧
      Wrote (Codec.writeAll cs) result' result := by
  induction h with
  | nil =>
    refine ⟨s.store, result, rfl, rfl, rfl, fun _ => ?_⟩
    cases result.output with
    | none => exact .none
    | some v => exact .some rfl
  | @cons m c hs cs hm _ ih =>
    obtain ⟨t, result₁, hloop, hwrote⟩ := ih fun hcounts v hv => (hresult hcounts v hv).1
    have hfirst : Counts result₁ → ∀ u, result₁.output = some u → ∃ w, c.writes u w := by
      intro hcounts u hu
      have hcounts := hwrote.counts.mp hcounts
      have hout := hwrote.output hcounts
      rw [hu] at hout
      generalize ho : result.output = o at hout
      cases hout with
      | @some _ v hwrite => exact (hresult hcounts v ho).2 u hwrite
    obtain ⟨u, result', hcall, hwrote'⟩ := hm.output t result₁ hfirst
    refine ⟨u, result', ?_, hwrote'.error.trans hwrote.error, hwrote'.ops.trans hwrote.ops,
      fun hcounts => ?_⟩
    · have hrefuse : decide (flavor = .sync ∧ m.isMiddleware = true) = false := by
        simpa using hm.outputCalled
      rw [transformOutputHooks, List.map_cons, List.reverse_cons, hookLoop_after hloop]
      exact hookLoop_one hrefuse hcall
    · have hout := hwrote.output hcounts
      have hout' := hwrote'.output (hwrote.counts.mpr hcounts)
      generalize result.output = o at hout
      generalize result₁.output = o₁ at hout hout'
      generalize result'.output = o' at hout'
      cases hout' with
      | none =>
        cases hout
        exact .none
      | some hw =>
        cases hout with
        | some hwrite => exact .some ⟨_, hwrite, hw⟩

theorem mem_stack (h : List.Forall₂ (Implements flavor) hs cs) {m : Hooks σ}
    (hm : .user m ∈ hs.map Middleware.user) : ∃ c, Implements flavor m c := by
  obtain ⟨m', hm', he⟩ := List.mem_map.mp hm
  obtain rfl := Middleware.user.inj he
  obtain ⟨c, -, hc⟩ := exists_right h hm'
  exact ⟨c, hc⟩

end Stacks

/-! ## A request through the stack -/

/-- The middleware of the client and of the function, which do as the codecs. -/
def Equipped (env : Env σ) (cs : List Codec) : Prop :=
  ∃ client fn : List (Hooks σ), env.middleware = fromClient client fn ∧
    List.Forall₂ (Implements env.flavor) (client ++ fn) cs

section Requests
variable {env : Env σ} {inv : Invocation σ} {cs : List Codec} {r : Scope} {s : State σ}

theorem Equipped.mem (h : Equipped env cs) {m : Hooks σ} (hm : .user m ∈ env.middleware) :
    ∃ c, Implements env.flavor m c := by
  obtain ⟨client, fn, hmiddleware, himplements⟩ := h
  rw [hmiddleware, fromClient] at hm
  rcases List.mem_cons.mp hm with he | hm
  · cases he
  · exact mem_stack himplements hm

theorem beforeExecutionFrom_succeeds {flavor : Flavor} {ms : List (Middleware σ)}
    (h : ∀ m, .user m ∈ ms → Hook.Succeeds flavor m.beforeExecution) (i : ℕ) :
    (beforeExecutionFrom flavor i ms r s).outcome = .ok none := by
  induction ms generalizing i s with
  | nil => rfl
  | cons m ms ih =>
    have hone : (beforeExecutionOf flavor i m r s).outcome = .ok none := by
      cases m with
      | logger => rfl
      | user m =>
        have hm := h m List.mem_cons_self
        rw [beforeExecutionOf]
        simp only [if_neg hm.called, hm.call]
    rw [beforeExecutionFrom, Comp.bind_ok hone]
    exact ih (fun m hm => h m (List.mem_cons_of_mem _ hm)) (i + 1)

theorem beforeExecution_succeeds {flavor : Flavor} {ms : List (Middleware σ)}
    (h : ∀ m, .user m ∈ ms → Hook.Succeeds flavor m.beforeExecution) :
    (beforeExecution flavor ms r s).outcome = .ok none ∧
      (beforeExecution flavor ms r s).state.memos = s.memos := by
  rw [beforeExecution, Comp.get_bind]
  split
  · exact ⟨rfl, rfl⟩
  · rw [Comp.modify_bind]
    exact ⟨beforeExecutionFrom_succeeds h 0, (beforeExecutionFrom_done flavor 0 ms r _).frame.memos⟩

theorem prepared_stack (h : Equipped env cs)
    (hmemos : ∀ id memo, inv.memos.lookup id = some memo →
      (Codec.readAll cs memo).isSome = true) :
    (∃ ctx, (prepared env inv).outcome = .ok (.ok ctx)) ∧
      ∀ id, (prepared env inv).state.memos.lookup id =
        (inv.memos.lookup id).bind (Codec.readAll cs) := by
  obtain ⟨client, fn, hmiddleware, himplements⟩ := id h
  obtain ⟨t, ctx', memos', hloop, hlookup⟩ :=
    stack_reads himplements inv.ctx Scope.top inv.initial hmemos
  have hinput : MiddlewareManager.transformInput env.flavor env.middleware inv.ctx
      inv.initial.memos Scope.top inv.initial =
        ⟨.ok (.ok (ctx', memos')), { inv.initial with store := t }, []⟩ := by
    rw [hmiddleware]
    exact hloop
  have hbefore := beforeExecution_succeeds (r := Scope.top)
    (s := { inv.initial with store := t, memos := memos' })
    fun m hm => (h.mem hm).choose_spec.beforeExecution
  rw [prepared, Execution.prepare, Comp.get_bind, Comp.bind_ok (by rw [hinput]), hinput]
  simp only [Comp.modify_bind, Done.after_nil]
  by_cases hsize : Dict.size memos' = 0
  · rw [if_pos hsize, Comp.bind_ok hbefore.1]
    refine ⟨⟨ctx', rfl⟩, fun id => ?_⟩
    rw [← hlookup id]
    exact congrArg (AList.lookup id) hbefore.2
  · rw [if_neg hsize]
    exact ⟨⟨ctx', rfl⟩, hlookup⟩

theorem afterError_stack (h : Equipped env cs) : Execution.afterError env r s = none := by
  have hcalled : ∀ m, .user m ∈ env.middleware.reverse →
      refuseCoroutine env.flavor Hooks.afterExecution m = false := by
    intro m hm
    obtain ⟨c, hc⟩ := h.mem (List.mem_reverse.mp hm)
    simpa [refuseCoroutine] using hc.afterExecution.called
  obtain ⟨b, t, hloop⟩ := hookLoop_succeeds () r s hcalled fun m hm =>
    (h.mem (List.mem_reverse.mp hm)).choose_spec.afterExecution.call
  rw [Execution.afterError, afterExecution, hloop]

theorem beforeResponseError_stack (h : Equipped env cs) : beforeResponseError env s = none := by
  have hcalled : ∀ m, .user m ∈ env.middleware →
      refuseCoroutine env.flavor Hooks.beforeResponse m = false := by
    intro m hm
    obtain ⟨c, hc⟩ := h.mem hm
    simpa [refuseCoroutine] using hc.beforeResponse.called
  obtain ⟨b, t, hloop⟩ := hookLoop_succeeds () Scope.top s hcalled fun m hm =>
    (h.mem hm).choose_spec.beforeResponse.call
  rw [beforeResponseError, beforeResponse, hloop]

theorem transformItem_stack (h : Equipped env cs) {x : CallItem} (hx : x.isEmpty = false)
    (hvalue : Counts x.toTransform → ∀ v, x.output = some v → Codec.Accepts cs v) :
    ∃ t result', transformItem env.flavor env.middleware x Scope.top s =
        ⟨.ok (.ok (x.update result')), t, []⟩ ∧
      Wrote (Codec.writeAll cs) result' x.toTransform := by
  obtain ⟨client, fn, hmiddleware, himplements⟩ := h
  obtain ⟨t, result', hloop, hwrote⟩ := stack_writes himplements Scope.top s hvalue
  have hhooks : transformOutputHooks env.flavor env.middleware x.toTransform Scope.top s =
      ⟨.ok (.ok result'), { s with store := t }, []⟩ := by
    rw [hmiddleware, fromClient, transformOutputHooks, List.reverse_cons]
    exact hookLoop_after hloop
  refine ⟨{ s with store := t }, result', ?_, hwrote⟩
  rw [transformItem, if_neg (by simp [hx]), Comp.bind_ok (by rw [hhooks]), hhooks]
  rfl

end Requests

/-! ## Runs behind the stack -/

/-- Outputs are written by the stack, and it reads what stands for a memo. -/
def stackCoding (cs : List Codec) (app : App σ) : Coding where
  reported w v := Codec.writeAll cs v w
  stands w v :=
    Codec.readAll cs (StepMemos.memo app.loads w) = some (StepMemos.memo app.loads v)
  stored {w v} h := by
    rw [dataOf, dataOf, StepMemos.memo_data, StepMemos.memo_data]
    exact Codec.readAll_of_writeAll h

structure Stacked (cs : List Codec) (app : App σ) (s : Sent σ) (stored : Dict Json) : Prop where
  hash : s.env.hash = app.hash
  serializer : s.env.serializer = none
  memos : s.inv.memos = StepMemos.fromRaw app.loads stored
  equipped : Equipped s.env cs

/-- The stack can write the outputs of the direct run. -/
structure Writable (cs : List Codec) (app : App σ) : Prop where
  values : ∀ stepId value, .run stepId value ∈ app.asked → Codec.Accepts cs value
  result : ∀ v, app.code.direct app.value = .ok v → Codec.Accepts cs v

/-- An executor that talks to servers with the stack. -/
def stacking (cs : List Codec) (app : App σ) : Machine Record (StoreMove σ) :=
  app.storing (stackCoding cs app) (Stacked cs app)

section Runs
variable {cs : List Codec} {app : App σ} {s : Sent σ} {stored known : Dict Json} {R : Record}

theorem conveys_made (hw : Writable cs app) (h : Equipped s.env cs) {x : CallItem}
    (hx : app.Made s.env x) (t : State σ) : ∃ t' x',
      transformItem s.env.flavor s.env.middleware x Scope.top t = ⟨.ok (.ok x'), t', []⟩ ∧
        Conveys (stackCoding cs app) x' x := by
  have hempty : x.isEmpty = false := by
    cases hx with
    | result =>
      rw [App.result]
      cases app.code.direct app.value <;> rfl
    | response b mode hq => simp [CallItem.isEmpty, CallResult.itemOf]
  have hvalue : Counts x.toTransform → ∀ v, x.output = some v → Codec.Accepts cs v := by
    intro hcounts v hv
    cases hx with
    | result =>
      cases hdirect : app.code.direct app.value with
      | ok u =>
        rw [App.result, hdirect] at hv
        obtain rfl : u = v := Option.some.inj hv
        exact hw.result u hdirect
      | error e =>
        rw [App.result, hdirect] at hv
        cases hv
    | @response q b mode hq =>
      have hop : (response s.env b q).step.op = .stepRun :=
        (setParallelMode_op _ mode).symm.trans (hcounts _ rfl)
      have henters : Enters s.env b q := by
        by_contra hnot
        exact (response_op.2 hnot).1 hop
      obtain ⟨-, stepId, value, rfl, hvalue⟩ := response_op.1 henters
      obtain rfl : value = v := hvalue.symm.trans (Option.some.inj hv)
      exact hw.values stepId value hq
  obtain ⟨t', result', hitem, hwrote⟩ := transformItem_stack (s := t) h hempty hvalue
  refine ⟨t', x.update result', hitem, hwrote.error, ?_, fun hop => ?_⟩
  · cases hstep : x.step <;> simp [CallItem.update, hstep]
  · refine hwrote.output fun info hinfo => ?_
    obtain ⟨info', hinfo', rfl⟩ := Option.map_eq_some_iff.mp hinfo
    exact hop info' hinfo'

theorem Stacked.carries (hw : Writable cs app) (h : Stacked cs app s stored)
    (hstored : Shadows (stackCoding cs app) stored known) :
    app.Carries (stackCoding cs app) s stored := by
  have hlookup : ∀ id, s.inv.memos.lookup id = (stored.lookup id).map (StepMemos.memo app.loads) :=
    fun id => by rw [h.memos, StepMemos.lookup_fromRaw]
  have hmemos : ∀ id memo, s.inv.memos.lookup id = some memo →
      (Codec.readAll cs memo).isSome = true := by
    intro id memo hmemo
    rw [hlookup] at hmemo
    obtain ⟨w, hw, rfl⟩ := Option.map_eq_some_iff.mp hmemo
    have hid := hstored id
    rw [hw] at hid
    generalize known.lookup id = v at hid
    cases hid with
    | some hreads =>
      rw [show Codec.readAll cs (StepMemos.memo app.loads w) = some _ from hreads]
      rfl
  obtain ⟨hpassed, hprepared⟩ := prepared_stack h.equipped hmemos
  refine ⟨h.hash, h.serializer, h.memos, hpassed, fun known' hstored' id => ?_,
    fun t => afterError_stack h.equipped, fun x hx t => conveys_made hw h.equipped hx t,
    fun t => beforeResponseError_stack h.equipped⟩
  rw [hprepared, hlookup, StepMemos.lookup_fromRaw]
  have hid := hstored' id
  generalize stored.lookup id = w at hid
  generalize known'.lookup id = v at hid
  cases hid with
  | none => rfl
  | some hreads => exact hreads

end Runs

/-! ## Two tags

The middleware of the client tags what the function's middleware has tagged. -/

namespace TwoTags
open DataPipeline (tagged untagged tagging)

def codec (tag : String) : Codec where
  read memo := some { memo with data := untagged tag memo.data }
  writes v w := w = tagged tag v
  inverse := by
    rintro v w rfl
    simp [tagged, untagged]

theorem implements (tag : String) : Implements .async (tagging tag) (codec tag) where
  beforeExecution := ⟨by simp, fun _ _ => rfl⟩
  afterExecution := ⟨by simp, fun _ _ => rfl⟩
  beforeResponse := ⟨by simp, fun _ _ => rfl⟩
  inputCalled := by simp
  input s ctx memos _ := ⟨s, ctx, _, rfl, fun id => by
    rw [Dict.lookup_mapValues]
    cases memos.lookup id <;> rfl⟩
  outputCalled := by simp
  output s result _ := by
    refine ⟨s, { result with output := result.output.map (tagged tag) }, rfl, rfl, rfl, fun _ => ?_⟩
    cases result.output with
    | none => exact .none
    | some v => exact .some rfl

def codecs : List Codec := [codec "client", codec "function"]

theorem accepts (v : Json) : Codec.Accepts codecs v :=
  ⟨⟨trivial, fun _ _ => ⟨_, rfl⟩⟩, fun _ _ => ⟨_, rfl⟩⟩

def sent (stored : Dict Json) (target : Option String) : Sent Unit :=
  ⟨{ Inngest.Sample.env target with
      middleware := fromClient [tagging "client"] [tagging "function"] },
    { Inngest.Sample.invocation [] with memos := StepMemos.fromRaw Sample.app.loads stored }⟩

theorem stacked (stored : Dict Json) (target : Option String) :
    Stacked codecs Sample.app (sent stored target) stored :=
  ⟨rfl, rfl, rfl, [tagging "client"], [tagging "function"], rfl,
    .cons (implements "client") (.cons (implements "function") .nil)⟩

def stepped : Record :=
  (stacking codecs Sample.app).effect (.send ∅ (sent ∅ none)) (stacking codecs Sample.app).init

def planned : Record :=
  (stacking codecs Sample.app).effect (.send stepped.raw (sent stepped.raw none)) stepped

theorem reachable_planned : (stacking codecs Sample.app).Reachable Machine.Any planned := by
  have hstepped : (stacking codecs Sample.app).Reachable Machine.Any stepped :=
    .step (M := stacking codecs Sample.app) (.send ∅ (sent ∅ none)) .init ⟨stacked ∅ none, rfl⟩
      trivial
  exact hstepped.step _ ⟨stacked stepped.raw none, rfl⟩ trivial

example : planned.raw.lookup (Sample.app.hash "a") =
    some (dataOf (tagged "client" (tagged "function" (.int 1)))) := by decide +kernel

end TwoTags

end Inngest.Durable
