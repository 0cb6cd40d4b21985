import Inngest.Flow
import Inngest.History

/-!
# What a request sees of a flow

When the step IDs of a flow are distinct, its memos can be looked up by the
user's IDs and nothing is consumed. A walk is a request in these terms, and the
engine's run of the flow's body simulates it.
-/

set_option autoImplicit false

namespace Inngest
open ServerLib Errors StepLib Effect Engine

/-- A computation that appends to what the code has seen and leaves a history
of handler calls: the hashed ID and what the handler returned. -/
abbrev Walk (α : Type) := Comp Unit (List Seen) (String × Json) PyError Interrupt α

structure View where
  memo : String → Option Output
  hash : String → String
  target : Option String

namespace FlowStep

def info (hash : String → String) : FlowStep → StepInfo
  | .run id _ => ⟨id, hash id, some id, .stepRun, none, some ⟨id, none⟩⟩
  | .sleep id until_ => ⟨id, hash id, some until_, .sleep, none, some ⟨id, none⟩⟩

end FlowStep

namespace View
variable (V : View) (q : FlowStep)

def targeted : StepResponse :=
  match q with
  | .run _ value => ⟨value, none, q.info V.hash⟩
  | .sleep _ _ => .ofStep (q.info V.hash)

def discovered : StepResponse :=
  .ofStep { q.info V.hash with op := match q with
    | .run _ _ => .planned
    | .sleep _ _ => .sleep }

def react : Interrupt :=
  match V.target with
  | none => .response [V.discovered q]
  | some t => if t = V.hash q.id then .response [V.targeted q] else .skip q.id

def handlerCalls : List (String × Json) :=
  match q with
  | .run id value => if V.target = some (V.hash id) then [(V.hash id, value)] else []
  | .sleep _ _ => []

def step : Walk Json :=
  match V.memo q.id with
  | some memo => Comp.ofExcept (Step.remembered .ok memo)
  | none => fun _ seen => ⟨.intr (V.react q), seen, V.handlerCalls q⟩

end View

def Group.walk (walks : List (Walk Json)) (mode : ParallelMode) : Walk (List Json) := do
  let (outputs, responses) ← collect Group.caught (fun _ => []) walks [] []
  if responses.length > 0 then
    Comp.interrupt (.response (responses.map fun r => r.setParallelMode mode))
  else
    pure outputs

def noted {α : Type} (q : FlowStep) (x : Except PyError Json) (w : Walk α) : Walk α :=
  fun r seen => w r (seen ++ [(q.id, x)])

def Line.walk (V : View) : Line → Walk Json
  | .ret v => Comp.done v
  | .raise e => Comp.raise e
  | .step q k => (V.step q).andThen fun x => noted q x (walk V (k x))

def Flow.walk (V : View) : Flow → Walk Json
  | .ret v => Comp.done v
  | .raise e => Comp.raise e
  | .step q k => (V.step q).andThen fun x => noted q x (walk V (k x))
  | .parallel lines mode k =>
    (Group.walk (lines.map fun l => l.walk V) mode).andThen fun x => walk V (k x)

/-! ## Simulation -/

def returnedOf : Mark → Option (String × Json)
  | .leave id (.returned v) => some (id, v)
  | _ => none

def returned (l : List Mark) : List (String × Json) := l.filterMap returnedOf

@[simp] theorem returned_append (l l' : List Mark) :
    returned (l ++ l') = returned l ++ returned l' := List.filterMap_append

namespace View
variable {V : View} {α β : Type}

structure Shows (V : View) (used : String → Prop) (s : State (List Seen)) (seen : List Seen) :
    Prop where
  store : s.store = seen
  fresh : ∀ id, used id → s.counts id = 0
  memos : ∀ id, used id → s.memos.lookup (V.hash id) = V.memo id
  injective : ∀ id id', used id → used id' → V.hash id = V.hash id' → id = id'

theorem Shows.mono {used used' : String → Prop} {s : State (List Seen)} {seen : List Seen}
    (h : V.Shows used s seen) (hsub : ∀ id, used' id → used id) : V.Shows used' s seen :=
  ⟨h.store, fun id hid => h.fresh id (hsub id hid), fun id hid => h.memos id (hsub id hid),
    fun id id' hid hid' => h.injective id id' (hsub id hid) (hsub id' hid')⟩

/-- The two runs end alike, and the steps of `rest` are still to come. -/
structure Ends (V : View) (rest : String → Prop) (d : Run (List Seen) α)
    (w : Done (List Seen) (String × Json) PyError Interrupt α) : Prop where
  outcome : d.outcome = w.outcome
  calls : returned d.log = w.log
  remaining : V.Shows rest d.state w.state

theorem Ends.after {rest : String → Prop} {d : Run (List Seen) α}
    {w : Done (List Seen) (String × Json) PyError Interrupt α} {l : List Mark}
    {l' : List (String × Json)} (h : V.Ends rest d w) (hl : returned l = l') :
    V.Ends rest (d.after l) (w.after l') :=
  ⟨h.outcome, by simp [hl, h.calls], h.remaining⟩

theorem Ends.after_nil {rest : String → Prop} {d : Run (List Seen) α}
    {w : Done (List Seen) (String × Json) PyError Interrupt α} {l : List Mark}
    (h : V.Ends rest d w) (hl : returned l = []) : V.Ends rest (d.after l) w :=
  ⟨h.outcome, by simp [hl, h.calls], h.remaining⟩

/-- The engine's code `m`, which reports steps of `used` only, is the walk `w`. -/
def Simulates (V : View) (used : String → Prop) (m : Exec (List Seen) α) (w : Walk α) : Prop :=
  ∀ (r : Scope) (s : State (List Seen)) (seen : List Seen) (rest : String → Prop),
    r.inStep = false → (∀ id, used id → ¬ rest id) →
    V.Shows (fun id => used id ∨ rest id) s seen → V.Ends rest (m r s) (w () seen)

section Rules
variable {used used' : String → Prop} {m : Exec (List Seen) α} {w : Walk α}

theorem Simulates.mono (h : V.Simulates used m w) (hsub : ∀ id, used id → used' id) :
    V.Simulates used' m w := by
  intro r s seen rest hr hrest hs
  refine h r s seen rest hr (fun id hid => hrest id (hsub id hid)) (hs.mono fun id hid => ?_)
  exact hid.imp_left (hsub id)

theorem simulates_done (a : α) : V.Simulates used (Comp.done a) (Comp.done a) :=
  fun _ _ _ _ _ _ hs => ⟨rfl, rfl, hs.mono fun _ => .inr⟩

theorem simulates_raise (e : PyError) :
    V.Simulates used (Comp.raise e : Exec (List Seen) α) (Comp.raise e) :=
  fun _ _ _ _ _ _ hs => ⟨rfl, rfl, hs.mono fun _ => .inr⟩

theorem Simulates.within {f : Scope → Scope} (hf : ∀ r, (f r).inStep = r.inStep)
    (h : V.Simulates used m w) : V.Simulates used (Comp.within f m) w :=
  fun r s seen rest hr => h (f r) s seen rest ((hf r).trans hr)

theorem Simulates.andThen {k : Except PyError α → Exec (List Seen) β}
    {k' : Except PyError α → Walk β} (hm : V.Simulates used m w)
    (hk : ∀ x, V.Simulates used' (k x) (k' x)) (hdisjoint : ∀ id, used id → ¬ used' id) :
    V.Simulates (fun id => used id ∨ used' id) (m.andThen k) (w.andThen k') := by
  intro r s seen rest hr hrest hs
  have hd := hm r s seen (fun id => used' id ∨ rest id) hr
    (fun id hid => not_or.mpr ⟨hdisjoint id hid, hrest id (.inl hid)⟩)
    (hs.mono fun id hid => or_assoc.mpr hid)
  have hnext := fun x => hk x r (m r s).state (w () seen).state rest hr
    (fun id hid => hrest id (.inr hid)) hd.remaining
  cases ho : (w () seen).outcome with
  | ok a =>
    rw [Comp.andThen_ok (hd.outcome.trans ho), Comp.andThen_ok ho]
    exact (hnext _).after hd.calls
  | exc e =>
    rw [Comp.andThen_exc (hd.outcome.trans ho), Comp.andThen_exc ho]
    exact (hnext _).after hd.calls
  | intr i =>
    rw [Comp.andThen_intr (hd.outcome.trans ho), Comp.andThen_intr ho]
    exact ⟨rfl, hd.calls, hd.remaining.mono fun _ => .inr⟩

end Rules

/-! ### One step -/

structure Of (V : View) (env : Env (List Seen)) : Prop where
  hash : env.hash = V.hash
  target : env.targetHashedId = V.target
  middleware : env.middleware = [.logger]
  serializer : env.serializer = none
  disabled : env.request.disableImmediateExecution = true

section Step
variable {env : Env (List Seen)} {r : Scope} {s : State (List Seen)} {seen : List Seen}
  {rest : String → Prop}

theorem info_id (q : FlowStep) : (q.info V.hash).id = V.hash q.id := by
  cases q <;> rfl

theorem info_displayName (q : FlowStep) : (q.info V.hash).displayName = q.id := by
  cases q <;> rfl

theorem parsedAt_fresh (h : V.Of env) {id : String} (hfresh : s.counts id = 0) :
    Step.parsedAt env id s = ⟨V.hash id, id, none⟩ := by
  simp [Step.parsedAt, parseStepId, StepIDCounter.increment, preHashed, hfresh, h.hash]

theorem verdict_new (h : V.Of env) (q : FlowStep) :
    Execution.verdict env r (q.info V.hash) none = match V.target with
      | none => .respond (V.discovered q).step.op
      | some t =>
        if t = V.hash q.id then match q with
          | .run _ _ => .go
          | .sleep _ _ => .respond .sleep
        else .skip := by
  cases ht : V.target with
  | none =>
    cases q <;> simp [Execution.verdict, h.target, ht, FlowStep.info, Execution.MayRun, h.disabled,
      discovered, StepResponse.ofStep]
  | some t =>
    by_cases hid : t = V.hash q.id <;> cases q <;>
      simp_all [Execution.verdict, h.target, FlowStep.info, Execution.MayRun, FlowStep.id]

theorem beforeExecution_store (flavor : Flavor) :
    (MiddlewareManager.beforeExecution flavor [.logger] r s).state.store = s.store := by
  cases hcalled : s.beforeExecutionCalled with
  | true => rw [MiddlewareManager.beforeExecution_again hcalled]
  | false =>
    rw [MiddlewareManager.beforeExecution_first hcalled]
    rfl

theorem popMemo_store (h : V.Of env) (info : StepInfo) :
    (Execution.popMemo env info r s).state.store = s.store := by
  by_cases hsize : Dict.size (s.memos.erase info.id) = 0
  · obtain ⟨err, herr, -⟩ := (MiddlewareManager.beforeExecution_done env.flavor env.middleware r
      { s with memos := s.memos.erase info.id }).ran
    simp only [Execution.popMemo, StepMemos.pop, Comp.get_bind, Comp.modify_bind, Comp.ask_bind,
      Comp.mark_bind, hsize, if_true]
    rw [Comp.bind_ok herr, h.middleware]
    exact beforeExecution_store env.flavor
  · simp [Execution.popMemo, StepMemos.pop, hsize]

theorem shows_popMemo (h : V.Of env) {q : FlowStep} (hrest : ¬ rest q.id)
    (hs : V.Shows (fun id => id = q.id ∨ rest id) s seen) :
    V.Shows rest (Execution.popMemo env (q.info V.hash) r (Step.countedAt env q.id s)).state
      seen := by
  have hpop := Execution.popMemo_done env (q.info V.hash) r (Step.countedAt env q.id s)
  refine ⟨?_, fun id hid => ?_, fun id hid => ?_, fun id id' hid hid' => ?_⟩
  · rw [popMemo_store h]
    exact hs.store
  · have hne : id ≠ q.id := fun he => hrest (he ▸ hid)
    rw [hpop.counts, Step.countedAt, parseStepId]
    simpa [StepIDCounter.increment, hne] using hs.fresh id (.inr hid)
  · have hne : V.hash id ≠ V.hash q.id := fun he =>
      hrest (hs.injective id q.id (.inr hid) (.inl rfl) he ▸ hid)
    rw [hpop.memos, info_id, AList.lookup_erase_ne hne]
    exact hs.memos id (.inr hid)
  · exact hs.injective id id' (.inr hid) (.inr hid')

/-- The handler that a step runs when it is told to go on. -/
def Runs (V : View) (q : FlowStep) (r : Scope) (otherwise : Exec (List Seen) Json) : Prop :=
  ∀ id value, q = .run id value → ∀ s,
    (otherwise (r.inHandler (q.info V.hash).id) s).outcome = .intr (.response [V.targeted q]) ∧
      (otherwise (r.inHandler (q.info V.hash).id) s).state = s ∧
      returned (otherwise (r.inHandler (q.info V.hash).id) s).log = [(V.hash id, value)]

theorem reported_ends (h : V.Of env) {q : FlowStep} {otherwise : Exec (List Seen) Json}
    (hr : r.inStep = false) (hrest : ¬ rest q.id)
    (hs : V.Shows (fun id => id = q.id ∨ rest id) s seen) (hother : V.Runs q r otherwise) :
    V.Ends rest (Step.reported env (q.info V.hash) .ok otherwise r (Step.countedAt env q.id s))
      (V.step q () seen) := by
  have hnext := shows_popMemo (r := r) h hrest hs
  have hlog : returned (Execution.popMemo env (q.info V.hash) r
      (Step.countedAt env q.id s)).log = [] :=
    History.filterMap_pop (Execution.popMemo_done _ _ _ _) fun _ _ => rfl
  have hmemo : (Step.countedAt env q.id s).memos.lookup (q.info V.hash).id = V.memo q.id := by
    rw [info_id]
    exact hs.memos q.id (.inl rfl)
  rw [Step.reported_eq, hmemo, View.step]
  cases hm : V.memo q.id with
  | some memo =>
    simp only [Execution.verdict, Step.settle, hr, Bool.false_eq_true, if_false, Comp.ofExcept_run]
    exact ⟨rfl, by simp [hlog], hnext⟩
  | none =>
    rw [verdict_new h]
    cases ht : V.target with
    | none =>
      refine ⟨?_, ?_, hnext⟩
      · cases q <;> simp [Step.settle, react, ht, discovered, StepResponse.ofStep]
      · cases q <;> simp [Step.settle, hlog, handlerCalls, ht]
    | some t =>
      by_cases hid : t = V.hash q.id
      · subst hid
        cases q with
        | run id value =>
          obtain ⟨ho, hst, hl⟩ := hother id value rfl
            (Execution.popMemo env ((FlowStep.run id value).info V.hash) r
              (Step.countedAt env (FlowStep.run id value).id s)).state
          simp only [if_true, Step.settle, hr, Bool.false_eq_true, if_false]
          refine ⟨?_, ?_, ?_⟩
          · simpa [react, ht] using ho
          · rw [Done.after_log, returned_append, hlog, hl]
            simp [handlerCalls, ht, FlowStep.id]
          · rw [Done.after_state, hst]
            exact hnext
        | sleep id until_ =>
          simp only [if_true, Step.settle]
          exact ⟨by simp [react, ht, targeted, FlowStep.info], by simp [hlog, handlerCalls], hnext⟩
      · simp only [hid, if_false, Step.settle]
        refine ⟨by simp [react, ht, hid, info_displayName], ?_, hnext⟩
        cases q with
        | run id value =>
          have hne : t ≠ V.hash id := hid
          simp [hlog, handlerCalls, ht, hne]
        | sleep id until_ => simp [hlog, handlerCalls]

theorem simulates_run (h : V.Of env) (id : String) (value : Json) :
    V.Simulates (fun id' => id' = id)
      (Step.run env id none (Comp.within Scope.handler (Comp.done value)))
      (V.step (.run id value)) := by
  intro r s seen rest hr hrest hs
  have hinfo : Step.runInfo ⟨V.hash id, id, none⟩ = (FlowStep.run id value).info V.hash := rfl
  have hdecode : (fun output => env.deserialize output none) = .ok := by
    funext output
    cases hser : env.serializer <;> simp [Env.deserialize, hser]
  rw [Step.run_eq, parsedAt_fresh h (hs.fresh id (.inl rfl)), hinfo, hdecode]
  refine Ends.after_nil (reported_ends h hr (hrest id rfl) hs ?_) rfl
  intro id' value' hq s'
  obtain ⟨rfl, rfl⟩ := FlowStep.run.inj hq
  have hserialize : env.serialize value none = .ok value := by
    cases hser : env.serializer <;> simp [Env.serialize, hser]
  have hrun : ∀ r, (Comp.within Scope.handler (Comp.done value) : Exec (List Seen) Json) r s' =
      ⟨.ok value, s', []⟩ := fun _ => rfl
  have hended : Step.serialized env none (.ok value) = .ok value := by
    simp [Step.serialized, hserialize]
  rw [Step.execute_eq, hrun, hended]
  exact ⟨rfl, rfl, rfl⟩

theorem simulates_sleep (h : V.Of env) (id until_ : String) :
    V.Simulates (fun id' => id' = id) (Step.call env (Step.sleepUntil id until_))
      (V.step (.sleep id until_)) := by
  intro r s seen rest hr hrest hs
  have hparsed : Step.parsedAt env (Step.sleepUntil id until_).stepId s = ⟨V.hash id, id, none⟩ :=
    parsedAt_fresh h (hs.fresh id (.inl rfl))
  have hother : V.Runs (.sleep id until_) r (Comp.raise (exception "Exception" "unreachable")) := by
    intro id' value' hq
    cases hq
  have hreported : ∀ otherwise, Step.reported env
      (Step.callInfo (Step.sleepUntil id until_) ⟨V.hash id, id, none⟩ none)
      (Step.sleepUntil id until_).decode otherwise r
      (Step.countedAt env (Step.sleepUntil id until_).stepId s) =
      Step.reported env ((FlowStep.sleep id until_).info V.hash) .ok otherwise r
        (Step.countedAt env (FlowStep.sleep id until_).id s) := fun _ => rfl
  rw [Step.call_eq env (c := Step.sleepUntil id until_) rfl, hparsed, hreported]
  exact Ends.after_nil (reported_ends h hr (hrest id rfl) hs hother) rfl

theorem Simulates.noted {q : FlowStep} {x : Except PyError Json} {used : String → Prop}
    {b : Body (List Seen)} {w : Walk Json} (hb : V.Simulates used (b.interp env) w) :
    V.Simulates used ((Body.code (fun seen => seen ++ [(q.id, x)]) fun _ => b).interp env)
      (Inngest.noted q x w) := by
  intro r s seen rest hr hrest hs
  refine hb r _ _ rest hr hrest ⟨?_, hs.fresh, hs.memos, hs.injective⟩
  rw [hs.store]

theorem simulates_step (h : V.Of env) {q : FlowStep} {used : String → Prop}
    {k : Except PyError Json → Body (List Seen)} {k' : Except PyError Json → Walk Json}
    (hk : ∀ x, V.Simulates used ((k x).interp env) (k' x)) (hq : ¬ used q.id) :
    V.Simulates (fun id => id = q.id ∨ used id) ((q.body k).interp env)
      ((V.step q).andThen fun x => Inngest.noted q x (k' x)) := by
  have hnext := fun x => ((hk x).noted (q := q) (x := x)).within (f := Scope.next) fun _ => rfl
  have hdisjoint : ∀ id, id = q.id → ¬ used id := by
    rintro id rfl
    exact hq
  cases q with
  | run id value => exact (simulates_run h id value).andThen hnext hdisjoint
  | sleep id until_ => exact (simulates_sleep h id until_).andThen hnext hdisjoint

end Step

/-! ### Groups and flows -/

section Group
variable {env : Env (List Seen)} {left : List StepResponse → List Mark}

theorem simulates_line (h : V.Of env) {l : Line} (hl : l.Distinct) :
    V.Simulates l.Uses (l.body.interp env) (l.walk V) := by
  induction l with
  | ret v => exact simulates_done v
  | raise e => exact simulates_raise e
  | step q k ih =>
    have hk : ∀ x, V.Simulates (fun id => ∃ x, (k x).Uses id) ((k x).body.interp env)
        ((k x).walk V) := fun x => (ih x (hl x).2).mono fun id hid => ⟨x, hid⟩
    refine (simulates_step h hk fun hq => ?_).mono fun id hid => hid.imp_left Eq.symm
    obtain ⟨x, hx⟩ := hq
    exact (hl x).1 hx

theorem simulates_collect {ms : List (Exec (List Seen) Json)} {lines : List Line}
    (hms : List.Forall₂ (fun m l => V.Simulates l.Uses m (l.walk V)) ms lines)
    (hapart : lines.Pairwise fun l l' => ∀ id, l.Uses id → ¬ l'.Uses id)
    (hleft : ∀ responses, returned (left responses) = [])
    (outputs : List Json) (responses : List StepResponse) :
    V.Simulates (fun id => ∃ l ∈ lines, l.Uses id)
      (collect Group.caught left ms outputs responses)
      (collect Group.caught (fun _ => []) (lines.map fun l => l.walk V) outputs responses) := by
  induction hms generalizing outputs responses with
  | nil => exact fun _ _ _ _ _ _ hs => ⟨rfl, rfl, hs.mono fun _ => .inr⟩
  | @cons m l ms lines hm hms ih =>
    obtain ⟨hl, hlines⟩ := List.pairwise_cons.mp hapart
    intro r s seen rest hr hrest hs
    have hd := hm r s seen (fun id => (∃ l ∈ lines, l.Uses id) ∨ rest id) hr
      (fun id hid => not_or.mpr ⟨fun hex => ?_, hrest id ⟨l, by simp, hid⟩⟩)
      (hs.mono fun id hid => ?_)
    · have hnext := fun outputs responses => ih hlines outputs responses r (m r s).state
        (l.walk V () seen).state rest hr
        (fun id hex => hrest id (by
          obtain ⟨l', hl', hid⟩ := hex
          exact ⟨l', List.mem_cons_of_mem _ hl', hid⟩)) hd.remaining
      rw [List.map_cons]
      cases ho : (l.walk V () seen).outcome with
      | ok v =>
        rw [collect_ok (hd.outcome.trans ho), collect_ok ho]
        exact (hnext _ _).after hd.calls
      | exc e =>
        rw [collect_exc (hd.outcome.trans ho), collect_exc ho]
        exact ⟨rfl, by simp [hd.calls, hleft], hd.remaining.mono fun _ => .inr⟩
      | intr i =>
        cases hc : Group.caught i with
        | some new =>
          rw [collect_absorbed (hd.outcome.trans ho) hc, collect_absorbed ho hc]
          exact (hnext _ _).after hd.calls
        | none =>
          rw [collect_escaped (hd.outcome.trans ho) hc, collect_escaped ho hc]
          exact ⟨rfl, by simp [hd.calls, hleft], hd.remaining.mono fun _ => .inr⟩
    · obtain ⟨l', hl', hid'⟩ := hex
      exact hl l' hl' id hid hid'
    · rcases hid with hid | ⟨l', hl', hid⟩ | hid
      · exact .inl ⟨l, by simp, hid⟩
      · exact .inl ⟨l', List.mem_cons_of_mem _ hl', hid⟩
      · exact .inr hid

theorem simulates_group {ms : List (Exec (List Seen) Json)} {lines : List Line}
    (hms : List.Forall₂ (fun m l => V.Simulates l.Uses m (l.walk V)) ms lines)
    (hapart : lines.Pairwise fun l l' => ∀ id, l.Uses id → ¬ l'.Uses id) (mode : ParallelMode) :
    V.Simulates (fun id => ∃ l ∈ lines, l.Uses id) (Group.parallel ms mode)
      (Group.walk (lines.map fun l => l.walk V) mode) := by
  intro r s seen rest hr hrest hs
  have hd : V.Ends rest (Group.discover ms r.inGroup s)
      (collect Group.caught (fun _ => []) (lines.map fun l => l.walk V) [] [] () seen) :=
    simulates_collect hms hapart (fun _ => rfl) [] [] r.inGroup s seen rest hr hrest hs
  cases ho : (collect Group.caught (fun _ => []) (lines.map fun l => l.walk V) [] [] ()
      seen).outcome with
  | ok x =>
    have hcalls := hd.calls
    obtain ⟨outputs, responses⟩ := x
    rw [Group.parallel_ok mode (hd.outcome.trans ho), Group.walk, Comp.bind_ok ho]
    cases responses with
    | nil => exact ⟨rfl, by simpa using hcalls, hd.remaining⟩
    | cons response responses => exact ⟨rfl, by simpa using hcalls, hd.remaining⟩
  | exc e =>
    rw [Group.parallel_exc mode (hd.outcome.trans ho), Group.walk, Comp.bind_exc ho]
    exact ⟨rfl, hd.calls, hd.remaining⟩
  | intr i =>
    rw [Group.parallel_intr mode (hd.outcome.trans ho), Group.walk, Comp.bind_intr ho]
    exact ⟨rfl, hd.calls, hd.remaining⟩

theorem simulates_flow (h : V.Of env) {p : Flow} (hp : p.Distinct) :
    V.Simulates p.Uses (p.body.interp env) (p.walk V) := by
  induction p with
  | ret v => exact simulates_done v
  | raise e => exact simulates_raise e
  | step q k ih =>
    have hk : ∀ x, V.Simulates (fun id => ∃ x, (k x).Uses id) ((k x).body.interp env)
        ((k x).walk V) := fun x => (ih x (hp x).2).mono fun id hid => ⟨x, hid⟩
    refine (simulates_step h hk fun hq => ?_).mono fun id hid => hid.imp_left Eq.symm
    obtain ⟨x, hx⟩ := hq
    exact (hp x).1 hx
  | parallel lines mode k ih =>
    obtain ⟨hlines, hapart, hk⟩ := hp
    have hms : List.Forall₂ (fun m l => V.Simulates l.Uses m (l.walk V))
        (List.ofFn fun i : Fin lines.length =>
          Comp.within (Scope.callable i) ((lines.get i).body.interp env)) lines := by
      rw [List.forall₂_iff_get]
      refine ⟨by simp, fun i hi hi' => ?_⟩
      simp only [List.get_eq_getElem, List.getElem_ofFn]
      exact (simulates_line h (hlines _ (List.get_mem _ _))).within fun _ => rfl
    have hcode : ∀ x, V.Simulates (fun id => ∃ x, (k x).Uses id) ((k x).body.interp env)
        ((k x).walk V) := fun x => (ih x (hk x).2).mono fun id hid => ⟨x, hid⟩
    refine (simulates_group hms hapart mode).andThen (fun x => ?_) ?_
    · have hnext := (hcode x).within (f := Scope.next) fun _ => rfl
      intro r s seen rest hr hrest hs
      rw [Comp.mark_bind]
      exact (hnext r s seen rest hr hrest hs).after_nil rfl
    · rintro id ⟨l, hl, hid⟩ ⟨x, hx⟩
      exact (hk x).1 l hl id hid hx

end Group

/-! ## What every walk keeps -/

def Backed (calls : List (String × Json)) (responses : List StepResponse) : Prop :=
  ∀ x ∈ responses, x.originalError = none ∧
    (x.step.op = .stepRun → (x.step.id, x.output) ∈ calls)

def Recalled (V : View) (seen seen' : List Seen) : Prop :=
  ∃ new, seen' = seen ++ new ∧
    ∀ e ∈ new, ∃ memo, V.memo e.1 = some memo ∧ e.2 = Step.remembered .ok memo

structure Keeps (V : View) (_r : Unit) (seen : List Seen) (calls : List (String × Json))
    (seen' : List Seen) (o : Option Interrupt) : Prop where
  recalled : V.Recalled seen seen'
  backed : ∀ responses, o = some (.response responses) → responses ≠ [] ∧ Backed calls responses
  nested : o ≠ some .nested

section Keeps
variable {calls calls' : List (String × Json)} {seen seen' seen'' : List Seen}

theorem Backed.append_left {responses : List StepResponse} (h : Backed calls responses) :
    Backed (calls ++ calls') responses :=
  fun x hx => ⟨(h x hx).1, fun hop => List.mem_append_left _ ((h x hx).2 hop)⟩

theorem Backed.append_right {responses : List StepResponse} (h : Backed calls responses) :
    Backed (calls' ++ calls) responses :=
  fun x hx => ⟨(h x hx).1, fun hop => List.mem_append_right _ ((h x hx).2 hop)⟩

theorem Recalled.refl : V.Recalled seen seen := ⟨[], by simp⟩

theorem Recalled.trans (h : V.Recalled seen seen') (h' : V.Recalled seen' seen'') :
    V.Recalled seen seen'' := by
  obtain ⟨new, rfl, hnew⟩ := h
  obtain ⟨new', rfl, hnew'⟩ := h'
  exact ⟨new ++ new', by simp, fun e he => (List.mem_append.mp he).elim (hnew e) (hnew' e)⟩

theorem keeps_chain : Chain V.Keeps where
  nil := fun _ _ => ⟨.refl, by simp, by simp⟩
  append := fun h h' => ⟨h.recalled.trans h'.recalled,
    fun responses ho => ⟨(h'.backed responses ho).1, (h'.backed responses ho).2.append_right⟩,
    h'.nested⟩

theorem keeps_react (q : FlowStep) (seen : List Seen) :
    V.Keeps () seen (V.handlerCalls q) seen (some (V.react q)) := by
  refine ⟨.refl, fun responses ho => ?_, fun ho => ?_⟩
  · cases ht : V.target with
    | none =>
      obtain rfl : [V.discovered q] = responses := by simpa [react, ht] using ho
      refine ⟨by simp, fun x hx => ?_⟩
      obtain rfl := List.mem_singleton.mp hx
      cases q <;> simp [discovered, StepResponse.ofStep]
    | some t =>
      by_cases hid : t = V.hash q.id
      · obtain rfl : [V.targeted q] = responses := by simpa [react, ht, hid] using ho
        refine ⟨by simp, fun x hx => ?_⟩
        obtain rfl := List.mem_singleton.mp hx
        subst hid
        cases q with
        | run id value =>
          exact ⟨rfl, fun _ => by simp [targeted, FlowStep.info, handlerCalls, ht, FlowStep.id]⟩
        | sleep id until_ =>
          exact ⟨rfl, fun hop => by simp [targeted, StepResponse.ofStep, FlowStep.info] at hop⟩
      · simp [react, ht, hid] at ho
  · cases ht : V.target with
    | none => simp [react, ht] at ho
    | some t => by_cases hid : t = V.hash q.id <;> simp [react, ht, hid] at ho

theorem keeps_step {q : FlowStep} {k : Except PyError Json → Walk Json}
    (hk : ∀ x, Guar V.Keeps (k x)) :
    Guar V.Keeps ((V.step q).andThen fun x => noted q x (k x)) := by
  intro r seen
  cases hm : V.memo q.id with
  | none =>
    have hstep : V.step q r seen = ⟨.intr (V.react q), seen, V.handlerCalls q⟩ := by rw [step, hm]
    rw [Comp.andThen_intr (by rw [hstep]), hstep]
    exact keeps_react q seen
  | some memo =>
    have hstep : V.step q r seen = ⟨Outcome.ofExcept (Step.remembered .ok memo), seen, []⟩ := by
      rw [step, hm]
      exact Comp.ofExcept_run _ _ _
    have hnoted : V.Recalled seen (seen ++ [(q.id, Step.remembered .ok memo)]) :=
      ⟨_, rfl, fun e he => by
        obtain rfl := List.mem_singleton.mp he
        exact ⟨memo, hm, rfl⟩⟩
    have hnext := hk (Step.remembered .ok memo) r (seen ++ [(q.id, Step.remembered .ok memo)])
    have hrun : ((V.step q).andThen fun x => noted q x (k x)) r seen =
        k (Step.remembered .ok memo) r (seen ++ [(q.id, Step.remembered .ok memo)]) := by
      cases hx : Step.remembered .ok memo with
      | ok v => rw [Comp.andThen_ok (a := v) (by rw [hstep, hx]; rfl), hstep]; rfl
      | error e => rw [Comp.andThen_exc (e := e) (by rw [hstep, hx]; rfl), hstep]; rfl
    rw [hrun]
    exact ⟨hnoted.trans hnext.recalled, hnext.backed, hnext.nested⟩

theorem keeps_line (l : Line) : Guar V.Keeps (l.walk V) := by
  induction l with
  | ret v => exact guar_done keeps_chain v
  | raise e => exact guar_raise keeps_chain e
  | step q k ih => exact keeps_step ih

theorem keeps_group {walks : List (Walk Json)} (mode : ParallelMode)
    (h : ∀ w ∈ walks, Guar V.Keeps w) : Guar V.Keeps (Group.walk walks mode) := by
  intro r seen
  have hloop : Loop V.Keeps (fun _ seen calls seen' responses =>
      V.Recalled seen seen' ∧ Backed calls responses) Group.caught (fun _ => []) r := by
    refine ⟨fun s => ⟨.refl, by simp [Backed]⟩, ?_, ?_, ?_, ?_⟩
    · exact fun hG hR => ⟨hG.1.trans hR.recalled, hG.2.append_left⟩
    · intro s l₁ s₁ ds l₂ s₂ i new hG hR hcaught
      refine ⟨hG.1.trans hR.recalled, fun x hx => ?_⟩
      rcases List.mem_append.mp hx with hx | hx
      · exact hG.2.append_left x hx
      · cases i with
        | response responses =>
          obtain rfl : responses = new := by simpa [Group.caught] using hcaught
          exact (hR.backed _ rfl).2.append_right x hx
        | skip id =>
          obtain rfl : [] = new := by simpa [Group.caught] using hcaught
          simp at hx
        | nested => simp [Group.caught] at hcaught
    · exact fun hG hR => ⟨hG.1.trans hR.recalled, by simp, by simp⟩
    · intro s l₁ s₁ ds l₂ s₂ i hG hR hcaught
      cases i with
      | response responses => simp [Group.caught] at hcaught
      | skip id => simp [Group.caught] at hcaught
      | nested => exact absurd rfl hR.nested
  have hd : LoopDone V.Keeps (fun _ seen calls seen' responses =>
      V.Recalled seen seen' ∧ Backed calls responses) r seen []
      (collect Group.caught (fun _ => []) walks [] [] r seen) :=
    guar_collect hloop fun w hw s => h w hw r s
  rw [Group.walk]
  cases ho : (collect Group.caught (fun _ => []) walks [] [] r seen).outcome with
  | ok x =>
    obtain ⟨outputs, responses⟩ := x
    obtain ⟨hrecalled, hbacked⟩ : V.Recalled seen _ ∧ Backed _ responses := by
      simpa [LoopDone, ho] using hd
    rw [Comp.bind_ok ho]
    cases responses with
    | nil => exact ⟨hrecalled, by simp, by simp⟩
    | cons response responses =>
      refine ⟨hrecalled, fun responses' hr => ?_, by simp⟩
      obtain rfl : (response :: responses).map (fun x => x.setParallelMode mode) = responses' := by
        simpa using hr
      refine ⟨by simp, fun x hx => ?_⟩
      obtain ⟨y, hy, rfl⟩ := List.mem_map.mp hx
      simpa [StepResponse.setParallelMode] using hbacked y hy
  | exc e =>
    rw [Comp.bind_exc ho]
    simpa [LoopDone, ho] using hd
  | intr i =>
    rw [Comp.bind_intr ho]
    simpa [LoopDone, ho] using hd

theorem keeps_walk (p : Flow) : Guar V.Keeps (p.walk V) := by
  induction p with
  | ret v => exact guar_done keeps_chain v
  | raise e => exact guar_raise keeps_chain e
  | step q k ih => exact keeps_step ih
  | parallel lines mode k ih =>
    refine guar_andThen keeps_chain (keeps_group mode fun w hw => ?_) ih
    obtain ⟨l, -, rfl⟩ := List.mem_map.mp hw
    exact keeps_line l

end Keeps

end View

end Inngest
