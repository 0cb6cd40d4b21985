import Mathlib.Data.List.Induction
import Inngest.BeforeExecution

/-!
# Logging across requests

The logging flag is a context variable. `LoggerMiddleware` clears it in the
context of `CommHandler.post` and sets it in the context in which the function
runs. For a synchronous handler on a thread pool these are two contexts, and
the one of the thread outlives the request. `FilteredLogger` reads the flag
when a method is looked up, and the code may call the method later.
-/

set_option autoImplicit false

namespace Inngest.ReplayLogs
open ServerLib Errors StepLib Effect Engine History BeforeExecution

variable {σ : Type}

/-! ## One request -/

def heldAfter (held : String → Option LogMethod) : List Mark → String → Option LogMethod
  | [] => held
  | .looked name method fwd :: l => heldAfter (Function.update held name (some ⟨method, fwd⟩)) l
  | _ :: l => heldAfter held l

def isLog : Mark → Bool
  | .looked _ _ _ => true
  | .logged _ _ _ _ => true
  | _ => false

theorem heldAfter_cons {held : String → Option LogMethod} {m : Mark} (l : List Mark)
    (hm : isLog m = false) : heldAfter held (m :: l) = heldAfter held l := by
  cases m <;> first | rfl | simp [isLog] at hm

theorem heldAfter_silent (held : String → Option LogMethod) {l : List Mark}
    (hl : ∀ m ∈ l, isLog m = false) : heldAfter held l = held := by
  induction l with
  | nil => rfl
  | cons m l ih =>
    rw [heldAfter_cons l (hl m (by simp))]
    exact ih fun m' hm' => hl m' (by simp [hm'])

theorem heldAfter_append (held : String → Option LogMethod) (l l' : List Mark) :
    heldAfter held (l ++ l') = heldAfter (heldAfter held l) l' := by
  induction l generalizing held with
  | nil => rfl
  | cons m l ih => cases m <;> exact ih _

/-- In a request that starts with the flag `flag`, a method is forwarded when the
flag was set or `before_execution` has been called as it is looked up, and a
call is one of the method that its name holds. -/
structure Logs (flag : Bool) (held : String → Option LogMethod) (l : List Mark) (flag' : Bool)
    (held' : String → Option LogMethod) : Prop where
  after : flag' = true ↔ flag = true ∨ hooksOf l ≠ []
  holds : held' = heldAfter held l
  looked : ∀ before name method fwd after, l = before ++ .looked name method fwd :: after →
    method ∈ FilteredLogger.proxiedMethods → (fwd = true ↔ flag = true ∨ hooksOf before ≠ [])
  logged : ∀ before name method message fwd after,
    l = before ++ .logged name method message fwd :: after →
    heldAfter held before name = some ⟨method, fwd⟩

def Logging (env : Env σ) (_ : Scope) (s : State σ) (l : List Mark) (s' : State σ)
    (_ : Option Interrupt) : Prop :=
  MiddlewareManager.LoggerFirst env.middleware →
    Logs s.loggingEnabled s.held l s'.loggingEnabled s'.held

theorem hooksOf_append_ne_nil (l l' : List Mark) :
    hooksOf (l ++ l') ≠ [] ↔ hooksOf l ≠ [] ∨ hooksOf l' ≠ [] := by
  rw [hooksOf_append]
  cases hooksOf l <;> simp

section Parts
variable {flag flag' flag'' : Bool} {held held' held'' : String → Option LogMethod}
  {l l' : List Mark}

theorem logs_append (h : Logs flag held l flag' held') (h' : Logs flag' held' l' flag'' held'') :
    Logs flag held (l ++ l') flag'' held'' where
  after := by
    rw [h'.after, h.after, hooksOf_append_ne_nil, or_assoc]
  holds := by
    rw [h'.holds, h.holds, heldAfter_append]
  looked := by
    intro before name method fwd after he hm
    rcases split_append he with ⟨after', hl⟩ | ⟨before', rfl, hl⟩
    · exact h.looked before name method fwd after' hl hm
    · rw [h'.looked before' name method fwd after hl hm, h.after, hooksOf_append_ne_nil, or_assoc]
  logged := by
    intro before name method message fwd after he
    rcases split_append he with ⟨after', hl⟩ | ⟨before', rfl, hl⟩
    · exact h.logged before name method message fwd after' hl
    · rw [heldAfter_append, ← h.holds]
      exact h'.logged before' name method message fwd after hl

theorem logs_unlogged (hno : ∀ m ∈ l, isLog m = false)
    (ha : flag' = true ↔ flag = true ∨ hooksOf l ≠ []) : Logs flag held l flag' held where
  after := ha
  holds := (heldAfter_silent held hno).symm
  looked := fun before name method fwd after he _ => by
    simpa [isLog] using hno (.looked name method fwd) (by simp [he])
  logged := fun before name method message fwd after he => by
    simpa [isLog] using hno (.logged name method message fwd) (by simp [he])

theorem logs_silent (hl : hooksOf l = []) (hno : ∀ m ∈ l, isLog m = false) :
    Logs flag held l flag held := logs_unlogged hno (by simp [hl])

theorem logs_hooks (hl : HooksOnly l) (hne : l ≠ []) : Logs flag held l true held := by
  refine logs_unlogged (fun m hm => ?_) (by simp [hooksOf_hooksOnly hl, hne])
  obtain ⟨i, e, rfl⟩ := hl m hm
  rfl

end Parts

section Rules
variable {env : Env σ} {r : Scope} {s s' : State σ} {l : List Mark} {o : Option Interrupt}

theorem logging_chain : Chain (Logging env) where
  nil := fun _ _ _ => logs_silent rfl (by simp)
  append := fun h₁ h₂ hm => logs_append (h₁ hm) (h₂ hm)

theorem hooksRan_ne_nil {n : ℕ} {l : List Mark} {err : Option PyError} (hn : 0 < n)
    (h : MiddlewareManager.HooksRan 0 n l err) : l ≠ [] := by
  cases err with
  | none =>
    rw [show l = _ from h, MiddlewareManager.hookMarks]
    simp
    omega
  | some e =>
    obtain ⟨k, -, rfl⟩ := h
    simp

theorem loggerFirst_length (h : MiddlewareManager.LoggerFirst env.middleware) :
    0 < env.middleware.length := by
  obtain ⟨rest, hr⟩ := h
  simp [hr]

theorem logs_pop {info : StepInfo} {d : Run σ (Option Output)} (path : List ℕ)
    (q : Option String) (hm : MiddlewareManager.LoggerFirst env.middleware)
    (hp : Execution.PopDone env info r s d) :
    Logs s.loggingEnabled s.held (.parsed path info.id q :: d.log) d.state.loggingEnabled
      d.state.held := by
  have hheld := hp.held
  obtain ⟨l, hl, ⟨-, rfl, hst⟩ | ⟨-, -, -, ⟨err, hr⟩, hlog⟩⟩ := hp.hooks
  · rw [hl, hst]
    exact logs_silent rfl (by simp [isLog])
  · rw [hl, hlog hm, hheld]
    exact logs_append (logs_silent (l := [_, _]) rfl (by simp [isLog]))
      (logs_hooks (hooksOnly_of_ran hr) (hooksRan_ne_nil (loggerFirst_length hm) hr))

theorem logging_step {info : StepInfo} {decode : Json → Except PyError Json}
    {outputType : Option OutputType} {handler : Exec σ Json} {d : Run σ Json} (path : List ℕ)
    (q : Option String) (o : Option Interrupt) (hh : Guar (Logging env) handler)
    (hd : Step.StepDone env info decode outputType handler r s d) :
    Logging env r s (.parsed path info.id q :: d.log) d.state o := by
  intro hm
  cases hd with
  | answered hp => exact logs_pop path q hm hp
  | nested hp => exact logs_append (logs_pop path q hm hp) (logs_silent rfl (by simp [isLog]))
  | skipped hp => exact logs_pop path q hm hp
  | responded hp => exact logs_pop path q hm hp
  | @executed d _ hp hmemo hr hop hmay hrun =>
    subst hrun
    have hbody := hh (r.inHandler info.id) d.state hm
    have henter : Logs d.state.loggingEnabled d.state.held
        [.enter info.id r.inParallel (Dict.size d.state.memos)] d.state.loggingEnabled
        d.state.held :=
      logs_silent rfl (by simp [isLog])
    have hleave := logs_append hbody (logs_silent (l := [.leave info.id (Step.exitOf
      (Step.serialized env outputType (handler (r.inHandler info.id) d.state).outcome))]) rfl
      (by simp [isLog]))
    simpa using logs_append (logs_pop path q hm hp) (logs_append henter hleave)

theorem logging_group {callables : List (Exec σ Json)} {mode : ParallelMode}
    (hcs : ∀ c ∈ callables, Guar (Logging env) c) :
    Guar (Logging env) (Group.parallel callables mode) := by
  have hleft : ∀ {flag flag' : Bool} {held held' : String → Option LogMethod} {l : List Mark}
      {rs : List StepResponse}, Logs flag held l flag' held' →
      Logs flag held (l ++ [.abandoned rs]) flag' held' :=
    fun h => logs_append h (logs_silent rfl (by simp [isLog]))
  refine Group.guar_parallel (G := fun r s l s' _ => Logging env r s l s' none) ?_ ?_ ?_ mode hcs
  · intro r
    exact ⟨logging_chain.nil _, fun h₁ h₂ => logging_chain.append h₁ h₂,
      fun h₁ h₂ _ hm => logs_append (h₁ hm) (h₂ hm),
      fun h₁ h₂ hm => hleft (logs_append (h₁ hm) (h₂ hm)),
      fun h₁ h₂ _ hm => hleft (logs_append (h₁ hm) (h₂ hm))⟩
  · exact fun r s l s' o _ h => h
  · exact fun r s l s' ds mode h => h

theorem split_singleton {m m' : Mark} {before after : List Mark}
    (h : [m] = before ++ m' :: after) : before = [] ∧ m = m' := by
  rcases List.singleton_eq_append_iff.mp h with ⟨hb, he⟩ | ⟨-, he⟩
  · exact ⟨hb, (List.cons.inj he).1.symm⟩
  · simp at he

theorem logs_look (s : State σ) (name method : String) :
    Logs s.loggingEnabled s.held
      [.looked name method (FilteredLogger.forwards s.loggingEnabled method)] s.loggingEnabled
      (FilteredLogger.holding name method s).held where
  after := by simp [hooksOf, isHook]
  holds := rfl
  looked := by
    intro before name' method' fwd after he hm
    obtain ⟨rfl, hmark⟩ := split_singleton he
    obtain ⟨-, rfl, rfl⟩ := Mark.looked.inj hmark
    simp [FilteredLogger.forwards, hm]
  logged := by
    intro before name' method' message fwd after he
    have := (split_singleton he).2
    simp at this

theorem logs_call {name : String} {found : LogMethod} (hheld : s.held name = some found)
    (message : String) :
    Logs s.loggingEnabled s.held [.logged name found.method message found.forwards]
      s.loggingEnabled s.held where
  after := by simp [hooksOf, isHook]
  holds := rfl
  looked := by
    intro before name' method' fwd after he hm
    have := (split_singleton he).2
    simp at this
  logged := by
    intro before name' method' message' fwd after he
    obtain ⟨rfl, hmark⟩ := split_singleton he
    obtain ⟨rfl, rfl, -, rfl⟩ := Mark.logged.inj hmark
    exact hheld

theorem logging_interp (env : Env σ) (b : Body σ) : Guar (Logging env) (b.interp env) := by
  refine Body.guar_interp logging_chain ?_ ?_ ?_ ?_ ?_ ?_ ?_ ?_ b
  · exact fun r p s l s' o h => h
  · exact fun r s x _ => logs_silent rfl (by simp)
  · exact fun r s name method _ => logs_look s name method
  · exact fun r s name message found hheld _ => logs_call hheld message
  · exact fun stepId r s _ => logs_silent rfl (by simp [isLog])
  · intro stepId info decode outputType handler r s d _ hh hd hm
    obtain ⟨hafter, hholds, hlooked, hlogged⟩ := logging_step r.path r.running none hh hd hm
    exact ⟨hafter, hholds, hlooked, hlogged⟩
  · exact fun callables mode hcs => logging_group hcs
  · exact fun r s complete _ => logs_silent rfl (by simp [isLog])

end Rules

theorem prepared_logs {env : Env σ} (inv : Invocation σ)
    (hm : MiddlewareManager.LoggerFirst env.middleware) :
    Logs inv.loggingEnabled (fun _ => none) (prepared env inv).log
      (prepared env inv).state.loggingEnabled (prepared env inv).state.held := by
  have hp := prepared_done env inv
  generalize prepared env inv = d at hp ⊢
  have hn := loggerFirst_length hm
  cases hp with
  | refused hlog hheld => rw [hlog, hheld]; exact logs_silent rfl (by simp)
  | hookFailed hlog hr hheld =>
    rw [hlog hm, hheld]
    exact logs_hooks (hooksOnly_of_ran hr) (hooksRan_ne_nil hn hr)
  | replaying _ _ _ hlog hheld => rw [hlog, hheld]; exact logs_silent rfl (by simp)
  | fresh _ _ _ hlog hr hheld =>
    rw [hlog hm, hheld]
    exact logs_hooks (hooksOnly_of_ran hr) (hooksRan_ne_nil hn hr)

theorem request_logs {env : Env σ} (fn : Context → Body σ) (outputType : Option OutputType)
    (inv : Invocation σ) (hm : MiddlewareManager.LoggerFirst env.middleware) :
    Logs inv.loggingEnabled (fun _ => none) (request env fn outputType inv).log
      (request env fn outputType inv).state.loggingEnabled
      (request env fn outputType inv).state.held := by
  have hprep := prepared_logs inv hm
  obtain ⟨x, hx⟩ := prepared_outcome env inv
  cases x with
  | error e =>
    rw [request_stopped fn outputType hx]
    exact hprep
  | ok ctx =>
    have hcode := logging_interp env (fn ctx) Scope.top (prepared env inv).state hm
    have hlast := Execution.finish_state env (Step.serialized env outputType
      (codeRun env fn inv ctx).outcome) Scope.top (codeRun env fn inv ctx).state
    have hlogger : (request env fn outputType inv).state.loggingEnabled =
        (codeRun env fn inv ctx).state.loggingEnabled ∧
        (request env fn outputType inv).state.held = (codeRun env fn inv ctx).state.held := by
      rw [request_called fn outputType hx, Execution.callHandler_eq, Done.after_state,
        Done.after_state, ← codeRun, hlast]
      exact ⟨rfl, rfl⟩
    rw [hlogger.1, hlogger.2, request_log fn outputType hx]
    exact logs_append hprep hcode

/-! ## A server's requests -/

/-- The flag in the context that calls `CommHandler.post`, and the one that each
thread of the pool keeps. -/
structure Server where
  caller : Bool
  threads : ℕ → Bool

/-- The default of the context variable, everywhere. -/
def Server.initial : Server := ⟨false, fun _ => false⟩

structure Job (σ : Type) where
  env : Env σ
  fn : Context → Body σ
  outputType : Option OutputType
  ctx : Context
  memos : StepMemos
  store : σ
  thread : ℕ
  middleware : MiddlewareManager.LoggerFirst env.middleware

def Job.run (job : Job σ) (loggingEnabled : Bool) : Run σ CallResult :=
  request job.env job.fn job.outputType ⟨job.ctx, job.memos, loggingEnabled, job.store⟩

theorem Job.logs (job : Job σ) (flag : Bool) :
    Logs flag (fun _ => none) (job.run flag).log (job.run flag).state.loggingEnabled
      (job.run flag).state.held :=
  request_logs job.fn job.outputType ⟨job.ctx, job.memos, flag, job.store⟩ job.middleware

namespace CommHandler

/-- `CommHandler.post`: building the middleware clears the flag of the calling
context. An async handler runs in a task with a copy of that context; a sync
one runs on a thread of the pool, or in place when there is none. -/
def post (threadPool : Bool) (server : Server) (job : Job σ) : Run σ CallResult × Server :=
  let server := { server with caller := false }
  match job.env.flavor, threadPool with
  | .async, _ => (job.run server.caller, server)
  | .sync, true =>
    let d := job.run (server.threads job.thread)
    (d, { server with
      threads := Function.update server.threads job.thread d.state.loggingEnabled })
  | .sync, false =>
    let d := job.run server.caller
    (d, { server with caller := d.state.loggingEnabled })

/-- The requests that a server handles, in order, with what became of each. -/
def posts (threadPool : Bool) : Server → List (Job σ) → List (Job σ × Run σ CallResult)
  | _, [] => []
  | server, job :: jobs =>
    (job, (post threadPool server job).1) :: posts threadPool (post threadPool server job).2 jobs

end CommHandler

/-- A logging call is forwarded exactly when `before_execution` was called before
it in the same request. -/
def Suppressed (d : Run σ CallResult) : Prop :=
  ∀ before name method message fwd after,
    d.log = before ++ .logged name method message fwd :: after →
    method ∈ FilteredLogger.proxiedMethods → (fwd = true ↔ hooksOf before ≠ [])

/-- The request makes a logging call before `before_execution` is called. -/
def LogsEarly (d : Run σ CallResult) : Prop :=
  ∃ before name method message fwd after,
    d.log = before ++ .logged name method message fwd :: after ∧
    method ∈ FilteredLogger.proxiedMethods ∧ hooksOf before = []

/-- In the history `before`, what `name` holds was looked up after `b`. -/
def LookedUp (name : String) (before b : List Mark) : Prop :=
  ∃ method fwd rest, before = b ++ .looked name method fwd :: rest ∧
    ∀ method' fwd', .looked name method' fwd' ∉ rest

/-- The request calls a method once `before_execution` has been called, but looked
it up before. -/
def LogsStale (d : Run σ CallResult) : Prop :=
  ∃ before name method message fwd after b,
    d.log = before ++ .logged name method message fwd :: after ∧
    method ∈ FilteredLogger.proxiedMethods ∧ hooksOf before ≠ [] ∧ LookedUp name before b ∧
    hooksOf b = []

/-! ### The method of a call -/

theorem heldAfter_unlooked {name : String} {held : String → Option LogMethod} {l : List Mark}
    (hl : ∀ method fwd, .looked name method fwd ∉ l) : heldAfter held l name = held name := by
  induction l generalizing held with
  | nil => rfl
  | cons m l ih =>
    have hrest : ∀ held', heldAfter held' l name = held' name :=
      fun held' => ih fun method fwd hm => hl method fwd (by simp [hm])
    cases m with
    | looked name' method fwd =>
      have hne : name ≠ name' := by
        rintro rfl
        exact hl method fwd (by simp)
      rw [heldAfter, hrest, Function.update_of_ne hne]
    | _ => exact hrest held

theorem heldAfter_looked {name method : String} {fwd : Bool} {held : String → Option LogMethod}
    {b rest : List Mark} (hrest : ∀ method' fwd', .looked name method' fwd' ∉ rest) :
    heldAfter held (b ++ .looked name method fwd :: rest) name = some ⟨method, fwd⟩ := by
  rw [heldAfter_append, heldAfter, heldAfter_unlooked hrest, Function.update_self]

theorem lookup_of_held {name : String} {found : LogMethod} {held : String → Option LogMethod}
    {l : List Mark} (h : heldAfter held l name = some found) (hnone : held name = none) :
    ∃ b rest, l = b ++ .looked name found.method found.forwards :: rest ∧
      ∀ method' fwd', .looked name method' fwd' ∉ rest := by
  induction l using List.reverseRecOn with
  | nil => simp [heldAfter, hnone] at h
  | append_singleton l m ih =>
    rw [heldAfter_append] at h
    by_cases hm : ∃ method fwd, m = .looked name method fwd
    · obtain ⟨method, fwd, rfl⟩ := hm
      rw [heldAfter, heldAfter, Function.update_self, Option.some.injEq] at h
      subst h
      exact ⟨l, [], rfl, by simp⟩
    · have hno : ∀ method fwd, .looked name method fwd ∉ [m] := fun method fwd hmem =>
        hm ⟨method, fwd, (List.mem_singleton.mp hmem).symm⟩
      rw [heldAfter_unlooked hno] at h
      obtain ⟨b, rest, rfl, hrest⟩ := ih h
      refine ⟨b, rest ++ [m], by simp, fun method fwd hmem => ?_⟩
      rcases List.mem_append.mp hmem with hmem | hmem
      · exact hrest method fwd hmem
      · exact hno method fwd hmem

section Request
variable {flag flag' : Bool} {held' : String → Option LogMethod} {l : List Mark}

/-- A call is forwarded when the flag was set or `before_execution` had been called
as its method was looked up. -/
theorem logs_forwarded (h : Logs flag (fun _ => none) l flag' held')
    {before b after : List Mark} {name method message : String} {fwd : Bool}
    (hl : l = before ++ .logged name method message fwd :: after)
    (hm : method ∈ FilteredLogger.proxiedMethods) (hb : LookedUp name before b) :
    fwd = true ↔ flag = true ∨ hooksOf b ≠ [] := by
  obtain ⟨method', fwd', rest, rfl, hrest⟩ := hb
  have hheld := (heldAfter_looked hrest).symm.trans
    (h.logged _ name method message fwd after hl)
  obtain ⟨rfl, rfl⟩ := LogMethod.mk.inj (Option.some.inj hheld)
  exact h.looked b name method' fwd' (rest ++ .logged name method' message fwd' :: after)
    (by simp [hl]) hm

theorem logs_lookedUp (h : Logs flag (fun _ => none) l flag' held') {before after : List Mark}
    {name method message : String} {fwd : Bool}
    (hl : l = before ++ .logged name method message fwd :: after) :
    ∃ b, LookedUp name before b := by
  obtain ⟨b, rest, he, hrest⟩ :=
    lookup_of_held (h.logged before name method message fwd after hl) rfl
  exact ⟨b, method, fwd, rest, he, hrest⟩

theorem hooksOf_lookedUp {name : String} {before b : List Mark} (h : LookedUp name before b)
    (hb : hooksOf b ≠ []) : hooksOf before ≠ [] := by
  obtain ⟨method, fwd, rest, rfl, -⟩ := h
  exact (hooksOf_append_ne_nil _ _).mpr (.inl hb)

variable {d : Run σ CallResult}

theorem suppressed_enabled (h : Logs true (fun _ => none) d.log flag' held') :
    Suppressed d ↔ ¬ LogsEarly d := by
  constructor
  · rintro hs ⟨before, name, method, message, fwd, after, hl, hm, hnil⟩
    obtain ⟨b, hb⟩ := logs_lookedUp h hl
    have hfwd := (logs_forwarded h hl hm hb).mpr (.inl rfl)
    exact (hs before name method message fwd after hl hm).mp hfwd hnil
  · intro hs before name method message fwd after hl hm
    obtain ⟨b, hb⟩ := logs_lookedUp h hl
    refine iff_of_true ((logs_forwarded h hl hm hb).mpr (.inl rfl)) fun hnil => hs ?_
    exact ⟨before, name, method, message, fwd, after, hl, hm, hnil⟩

theorem suppressed_disabled (h : Logs false (fun _ => none) d.log flag' held') :
    Suppressed d ↔ ¬ LogsStale d := by
  have hfwd : ∀ {before b after name method message fwd},
      d.log = before ++ .logged name method message fwd :: after →
      method ∈ FilteredLogger.proxiedMethods → LookedUp name before b →
      (fwd = true ↔ hooksOf b ≠ []) := fun hl hm hb => by
    simpa using logs_forwarded h hl hm hb
  constructor
  · rintro hs ⟨before, name, method, message, fwd, after, b, hl, hm, hcalled, hb, hnil⟩
    exact (hfwd hl hm hb).mp ((hs before name method message fwd after hl hm).mpr hcalled) hnil
  · intro hs before name method message fwd after hl hm
    obtain ⟨b, hb⟩ := logs_lookedUp h hl
    rw [hfwd hl hm hb]
    refine ⟨hooksOf_lookedUp hb, fun hcalled hnil => hs ?_⟩
    exact ⟨before, name, method, message, fwd, after, b, hl, hm, hcalled, hb, hnil⟩

end Request

/-! ### The flag at the start -/

/-- An earlier request ran on this thread of the pool and reached
`before_execution` there. -/
def ThreadUsed (earlier : List (Job σ × Run σ CallResult)) (thread : ℕ) : Prop :=
  ∃ p ∈ earlier, p.1.env.flavor = .sync ∧ p.1.thread = thread ∧ hooksOf p.2.log ≠ []

theorem post_done (threadPool : Bool) (server : Server) (job : Job σ) :
    ∃ flag, (flag = true ↔ threadPool = true ∧ job.env.flavor = .sync ∧
        server.threads job.thread = true) ∧
      (CommHandler.post threadPool server job).1 = job.run flag ∧
      ∀ t, (CommHandler.post threadPool server job).2.threads t = true ↔
        server.threads t = true ∨ threadPool = true ∧ job.env.flavor = .sync ∧
          job.thread = t ∧ hooksOf (CommHandler.post threadPool server job).1.log ≠ [] := by
  cases hf : job.env.flavor with
  | async => exact ⟨false, by simp, by simp [CommHandler.post, hf], by simp [CommHandler.post, hf]⟩
  | sync =>
    cases threadPool with
    | false =>
      exact ⟨false, by simp, by simp [CommHandler.post, hf], by simp [CommHandler.post, hf]⟩
    | true =>
      refine ⟨server.threads job.thread, by simp, by simp [CommHandler.post, hf], fun t => ?_⟩
      have hlogs := job.logs (server.threads job.thread)
      simp only [CommHandler.post, hf, true_and]
      by_cases ht : job.thread = t
      · subst ht
        simpa using hlogs.after
      · simp [ht, Function.update_of_ne (Ne.symm ht)]

theorem posts_split {threadPool : Bool} {server : Server} {jobs : List (Job σ)}
    {earlier later : List (Job σ × Run σ CallResult)} {job : Job σ} {d : Run σ CallResult}
    (h : CommHandler.posts threadPool server jobs = earlier ++ (job, d) :: later) :
    ∃ server', d = (CommHandler.post threadPool server' job).1 ∧
      ∀ t, server'.threads t = true ↔ server.threads t = true ∨
        threadPool = true ∧ ThreadUsed earlier t := by
  induction jobs generalizing server earlier with
  | nil => simp [CommHandler.posts] at h
  | cons first jobs ih =>
    cases earlier with
    | nil =>
      simp only [CommHandler.posts, List.nil_append, List.cons.injEq, Prod.mk.injEq] at h
      obtain ⟨⟨rfl, rfl⟩, -⟩ := h
      exact ⟨server, rfl, fun t => by simp [ThreadUsed]⟩
    | cons p earlier =>
      simp only [CommHandler.posts, List.cons_append, List.cons.injEq] at h
      obtain ⟨rfl, h⟩ := h
      obtain ⟨server', hd, ht⟩ := ih h
      obtain ⟨flag, -, -, hpost⟩ := post_done threadPool server first
      refine ⟨server', hd, fun t => ?_⟩
      rw [ht, hpost]
      simp only [ThreadUsed, List.mem_cons, exists_eq_or_imp]
      tauto

/-- The request runs in the context of a thread that has enabled logging. -/
def Enabled (threadPool : Bool) (earlier : List (Job σ × Run σ CallResult)) (job : Job σ) : Prop :=
  threadPool = true ∧ job.env.flavor = .sync ∧ ThreadUsed earlier job.thread

def logThenRun (_ : Context) : Body Unit :=
  .look "info" "info" (.log "info" "start" (GroupResults.runThenReturn "a" (.int 1)))

def job (flavor : Flavor) (fn : Context → Body Unit) (memos : List (String × Output)) :
    Job Unit where
  env := { Sample.env none with flavor := flavor }
  fn := fn
  outputType := none
  ctx := (Sample.invocation memos).ctx
  memos := (Sample.invocation memos).memos
  store := ()
  thread := 0
  middleware := MiddlewareManager.loggerFirst_fromClient [] []

def poolJob (memos : List (String × Output)) : Job Unit := job .sync logThenRun memos

def logResult (_ : Context) : Body Unit :=
  .look "info" "info" (.run "a" none (.ret (.int 1)) fun _ => .log "info" "1" (.ret .null))

/-- Without any thread the replay drops a line that `before_execution` came before. -/
example : (CommHandler.posts false Server.initial
    [job .async logResult [("a", ⟨.int 1, none⟩)]]).map (·.2.log) =
      [[.looked "info" "info" false, .parsed [0] (Sample.hashStepId "a") none,
        .reported (Sample.hashStepId "a") true false, .beforeExecution 0 none,
        .logged "info" "info" "1" false]] := by
  decide

end Inngest.ReplayLogs
