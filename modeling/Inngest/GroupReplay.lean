import Mathlib.Data.List.FinRange
import Inngest.GroupResults

/-!
# Which groups return

What a group does in a request follows from the bodies of its callables, the
memos and the target, without the interrupts, the responses and the hooks'
results of the engine. This replay of the bodies tells when a group returns
although one of its steps has no memo.
-/

set_option autoImplicit false

namespace Inngest.GroupReplay
open ServerLib Errors StepLib Effect Engine History GroupResults

/-! ## Replaying bodies -/

/-- How a part of a body ends: it comes back, it is passed over because it met a
step that is neither memoized nor the target, it has a response to report, or it
called a step inside a step. -/
inductive Ending (β : Type) where
  | back (x : Except PyError β)
  | passed
  | reported
  | nested

structure Replayed (σ β : Type) where
  ending : Ending β
  state : State σ
  /-- a step without a memo was met -/
  new : Bool

def Ending.of {β : Type} : Outcome PyError Interrupt β → Ending β
  | .ok v => .back (.ok v)
  | .exc e => .back (.error e)
  | .intr (.response _) => .reported
  | .intr (.skip _) => .passed
  | .intr .nested => .nested

section Replay
variable {σ : Type}

def Replayed.since {β : Type} (d : Replayed σ β) (new : Bool) : Replayed σ β :=
  { d with new := new || d.new }

def Replayed.andThen {β γ : Type} (d : Replayed σ β)
    (k : Except PyError β → State σ → Replayed σ γ) : Replayed σ γ :=
  match d.ending with
  | .back x => (k x d.state).since d.new
  | .passed => ⟨.passed, d.state, d.new⟩
  | .reported => ⟨.reported, d.state, d.new⟩
  | .nested => ⟨.nested, d.state, d.new⟩

def gather : List (State σ → Replayed σ Json) → List Json → Bool → State σ →
    Replayed σ (List Json)
  | [], outputs, reported, s => ⟨if reported then .reported else .back (.ok outputs), s, false⟩
  | m :: ms, outputs, reported, s =>
    let d := m s
    match d.ending with
    | .back (.ok v) => (gather ms (outputs ++ [v]) reported d.state).since d.new
    | .back (.error e) => ⟨.back (.error e), d.state, d.new⟩
    | .passed => (gather ms outputs reported d.state).since d.new
    | .reported => (gather ms outputs true d.state).since d.new
    | .nested => ⟨.nested, d.state, d.new⟩

variable (env : Env σ)

/-- A step call inside a group. Its handler can only run when it is the target. -/
def replayStep (info : StepInfo) (decode : Json → Except PyError Json)
    (outputType : Option OutputType) (handler : Exec σ Json) (r : Scope) (s : State σ) :
    Replayed σ Json :=
  let t := (Execution.popMemo env info r s).state
  match s.memos.lookup info.id with
  | some memo => ⟨if r.inStep then .nested else .back (Step.remembered decode memo), t, false⟩
  | none =>
    if env.targetHashedId = none then ⟨.reported, t, true⟩
    else if env.targetHashedId ≠ some info.id then ⟨.passed, t, true⟩
    else if info.op ≠ .stepRun then ⟨.reported, t, true⟩
    else if r.inStep then ⟨.nested, t, true⟩
    else
      let h := handler (r.inHandler info.id) t
      ⟨.of (Step.endOf env info (Step.serialized env outputType h.outcome)), h.state, true⟩

def replay : Body σ → Scope → State σ → Replayed σ Json
  | .ret v, _, s => ⟨.back (.ok v), s, false⟩
  | .raise e, _, s => ⟨.back (.error e), s, false⟩
  | .code f k, r, s => replay (k (f s.store)) r { s with store := f s.store }
  | .look name method b, r, s => replay b r (FilteredLogger.holding name method s)
  | .log _ _ b, r, s => replay b r s
  | .site n b, r, s => replay b (r.site n) s
  | .run stepId outputType handler k, r, s =>
    (replayStep env (Step.runInfo (Step.parsedAt env stepId s))
      (fun output => env.deserialize output outputType) outputType
      (Comp.within Scope.handler (handler.interp env)) r (Step.countedAt env stepId s)).andThen
      fun x t => replay (k x) r.next t
  | .call c k, r, s =>
    (match c.opts with
      | .error e => Replayed.mk (.back (.error e)) (Step.countedAt env c.stepId s) false
      | .ok opts => replayStep env (Step.callInfo c (Step.parsedAt env c.stepId s) opts) c.decode
          none (Comp.raise (exception "Exception" "unreachable")) r
          (Step.countedAt env c.stepId s)).andThen
      fun x t => replay (k x) r.next t
  | .parallel _ callables _ k, r, s =>
    (gather (List.ofFn fun i => replay (callables i) (r.inGroup.callable i)) [] false s).andThen
      fun x t => replay (k x) r.next t

/-- The group as a whole. -/
def replayGroup {n : ℕ} (callables : Fin n → Body σ) (r : Scope) (s : State σ) :
    Replayed σ (List Json) :=
  gather (List.ofFn fun i => replay env (callables i) (r.inGroup.callable i)) [] false s

end Replay

/-! ## The engine agrees -/

section Agreement
variable {σ β : Type} {env : Env σ} {r : Scope} {s : State σ}

structure Replays (c : Run σ β) (d : Replayed σ β) : Prop where
  ending : d.ending = .of c.outcome
  state : d.state = c.state
  new : d.new = true ↔ ReachesNew c.log

theorem reachesNew_append {l l' : List Mark} :
    ReachesNew (l ++ l') ↔ ReachesNew l ∨ ReachesNew l' := by
  simp [ReachesNew, exists_or]

theorem Replays.since {c : Run σ β} {d : Replayed σ β} (h : Replays c d) {l : List Mark}
    {new : Bool} (hl : new = true ↔ ReachesNew l) : Replays (c.after l) (d.since new) where
  ending := h.ending
  state := h.state
  new := by
    rw [Replayed.since, Done.after_log, reachesNew_append, Bool.or_eq_true, hl, h.new]

theorem Replays.after {c : Run σ β} {d : Replayed σ β} (h : Replays c d) {l : List Mark}
    (hl : ¬ ReachesNew l) : Replays (c.after l) d where
  ending := h.ending
  state := h.state
  new := by
    rw [Done.after_log, reachesNew_append, h.new, or_iff_right hl]

theorem replays_andThen {γ : Type} {m : Exec σ β} {d : Replayed σ β}
    {f : Except PyError β → Exec σ γ} {k : Except PyError β → State σ → Replayed σ γ}
    (h : Replays (m r s) d) (hk : ∀ x t, Replays (f x r t) (k x t)) :
    Replays (m.andThen f r s) (d.andThen k) := by
  obtain ⟨hending, hstate, hnew⟩ := h
  rw [Comp.andThen, Replayed.andThen, hending, hstate]
  cases ho : (m r s).outcome with
  | ok v => exact (hk (.ok v) _).since hnew
  | exc e => exact (hk (.error e) _).since hnew
  | intr i => cases i <;> exact ⟨rfl, rfl, hnew⟩

theorem reachesNew_pop_iff {info : StepInfo} {d : Run σ (Option Output)}
    (hp : Execution.PopDone env info r s d) :
    ReachesNew d.log ↔ s.memos.lookup info.id = none := by
  obtain ⟨hooks, hl, honly⟩ := pop_log hp
  rw [hl]
  constructor
  · rintro ⟨id, p, hm⟩
    rcases List.mem_cons.mp hm with hm | hm
    · simpa using (Mark.reported.inj hm).2.1.symm
    · obtain ⟨i, e, hi⟩ := honly _ hm
      simp at hi
  · intro hm
    exact ⟨info.id, r.inParallel, by simp [hm]⟩

theorem verdict_inGroup (hpar : r.inParallel = true) (info : StepInfo) :
    Execution.verdict env r info none =
      if env.targetHashedId = none then .respond (Step.waitingOp info.op)
      else if env.targetHashedId ≠ some info.id then .skip
      else if info.op ≠ .stepRun then .respond info.op
      else .go := by
  by_cases ht : env.targetHashedId = none
  · by_cases hop : info.op = .stepRun <;>
      simp [Execution.verdict, ht, Execution.MayRun, hpar, Step.waitingOp, hop]
  · have hsome := Option.isSome_iff_ne_none.mpr ht
    by_cases hid : env.targetHashedId = some info.id
    · by_cases hop : info.op = .stepRun <;> simp [Execution.verdict, hid, Execution.MayRun, hop]
    · simp [Execution.verdict, ht, hid, hsome]

variable {info : StepInfo} {decode : Json → Except PyError Json}
  {outputType : Option OutputType} {handler otherwise : Exec σ Json} {t : State σ}

theorem replays_answer (memo : Output) :
    Replays (Step.settle info decode otherwise r t (.answer memo))
      ⟨if r.inStep then .nested else .back (Step.remembered decode memo), t, false⟩ := by
  rw [Step.settle.eq_def]
  dsimp only
  split
  · exact ⟨rfl, rfl, by simp [ReachesNew]⟩
  · cases Step.remembered decode memo <;> exact ⟨rfl, rfl, by simp [ReachesNew, Comp.ofExcept]⟩

theorem replays_go (hgo : otherwise = Step.execute env info outputType handler) {l : List Mark}
    (hl : ReachesNew l) :
    Replays ((Step.settle info decode otherwise r t .go).after l)
      (if r.inStep then ⟨.nested, t, true⟩
      else ⟨.of (Step.endOf env info (Step.serialized env outputType
          (handler (r.inHandler info.id) t).outcome)),
        (handler (r.inHandler info.id) t).state, true⟩) := by
  rw [Step.settle.eq_def]
  dsimp only
  have hnew : ∀ l', (true = true ↔ ReachesNew (l ++ l')) :=
    fun _ => iff_of_true rfl hl.append_left
  split
  · exact ⟨rfl, rfl, hnew _⟩
  · rw [hgo, Step.execute_eq]
    exact ⟨rfl, rfl, hnew _⟩

theorem replays_step (hpar : r.inParallel = true)
    (hgo : info.op = .stepRun → otherwise = Step.execute env info outputType handler) :
    Replays (Step.reported env info decode otherwise r s)
      (replayStep env info decode outputType handler r s) := by
  have hnew := reachesNew_pop_iff (Execution.popMemo_done env info r s)
  rw [Step.reported_eq, replayStep]
  generalize Execution.popMemo env info r s = d at hnew
  cases hm : s.memos.lookup info.id with
  | some memo =>
    refine (replays_answer memo).after fun h => ?_
    simpa [hm] using hnew.mp h
  | none =>
    have hlog : ReachesNew d.log := hnew.mpr hm
    have htrue : ∀ l, (true = true ↔ ReachesNew (d.log ++ l)) :=
      fun _ => iff_of_true rfl hlog.append_left
    rw [verdict_inGroup hpar]
    dsimp only
    split_ifs with h₁ h₂ h₃ h₄
    · exact ⟨rfl, rfl, htrue _⟩
    · exact ⟨rfl, rfl, htrue _⟩
    · exact ⟨rfl, rfl, htrue _⟩
    all_goals
      refine (?_ : Replays (Step.settle info decode otherwise r d.state .go |>.after d.log) _)
      simpa [h₄] using replays_go (r := r) (t := d.state) (hgo (by simpa using h₃)) hlog

def loopEnd : Outcome PyError Interrupt (List Json × List StepResponse) → Ending (List Json)
  | .ok (outputs, []) => .back (.ok outputs)
  | .ok (_, _ :: _) => .reported
  | .exc e => .back (.error e)
  | .intr i => .of (.intr i)

structure LoopReplays (c : Run σ (List Json × List StepResponse)) (d : Replayed σ (List Json)) :
    Prop where
  ending : d.ending = loopEnd c.outcome
  state : d.state = c.state
  new : d.new = true ↔ ReachesNew c.log

theorem LoopReplays.since {c : Run σ (List Json × List StepResponse)}
    {d : Replayed σ (List Json)} (h : LoopReplays c d) {l : List Mark} {new : Bool}
    (hl : new = true ↔ ReachesNew l) : LoopReplays (c.after l) (d.since new) where
  ending := h.ending
  state := h.state
  new := by
    rw [Replayed.since, Done.after_log, reachesNew_append, Bool.or_eq_true, hl, h.new]

theorem replays_collect {ι : Type} {m : ι → Exec σ Json} {g : ι → State σ → Replayed σ Json}
    (hm : ∀ i t rs, (m i r t).outcome = .intr (.response rs) → rs ≠ [])
    (hg : ∀ i t, Replays (m i r t) (g i t)) (is : List ι) (as : List Json)
    (ds : List StepResponse) (s : State σ) :
    LoopReplays (collect Group.caught (fun responses => [.abandoned responses]) (is.map m) as ds
      r s) (gather (is.map g) as (!ds.isEmpty) s) := by
  induction is generalizing as ds s with
  | nil =>
    refine ⟨?_, rfl, by simp [gather, collect, Comp.done, ReachesNew]⟩
    cases ds <;> rfl
  | cons i is ih =>
    obtain ⟨hending, hstate, hnew⟩ := hg i s
    have hgo : ∀ as ds, LoopReplays ((collect Group.caught (fun responses => [.abandoned responses])
          (is.map m) as ds r (m i r s).state).after (m i r s).log)
        ((gather (is.map g) as (!ds.isEmpty) (g i s).state).since (g i s).new) := by
      intro as ds
      rw [hstate]
      exact (ih as ds _).since hnew
    have hstop : (g i s).new = true ↔ ReachesNew ((m i r s).log ++ [.abandoned ds]) := by
      rw [hnew, reachesNew_append, or_iff_left]
      simp [ReachesNew]
    rw [List.map_cons, List.map_cons, gather]
    simp only [hending]
    cases ho : (m i r s).outcome with
    | ok a =>
      rw [collect_ok ho]
      exact hgo _ _
    | exc e =>
      rw [collect_exc ho]
      exact ⟨rfl, hstate, hstop⟩
    | intr j =>
      cases j with
      | response rs =>
        rw [collect_absorbed ho rfl]
        have hne : (ds ++ rs).isEmpty = false := by simp [hm i s rs ho]
        have h := hgo as (ds ++ rs)
        rwa [hne] at h
      | skip id =>
        rw [collect_absorbed ho rfl]
        have h := hgo as (ds ++ [])
        rwa [List.append_nil] at h ⊢
      | nested =>
        rw [collect_escaped ho rfl]
        exact ⟨rfl, hstate, hstop⟩

section Groups
variable {n : ℕ} {callables : Fin n → Body σ} (mode : ParallelMode)

theorem replays_parallel (hcs : ∀ i t, Replays
      ((callables i).interp env (r.inGroup.callable i) t)
      (replay env (callables i) (r.inGroup.callable i) t)) :
    Replays (Group.parallel (tuple env callables) mode r s) (replayGroup env callables r s) := by
  have hloop : LoopReplays (Group.discover (tuple env callables) r.inGroup s)
      (replayGroup env callables r s) := by
    rw [Group.discover, tuple, replayGroup, List.ofFn_eq_map, List.ofFn_eq_map]
    refine replays_collect (fun i t rs ho => ?_) hcs (List.finRange n) [] [] s
    exact (waiting_interp env (callables i) (r.inGroup.callable i) t).response rs (by
      rw [show (callables i).interp env (r.inGroup.callable i) t = _ from rfl] at *
      simpa using congrArg Outcome.escape ho)
  obtain ⟨hending, hstate, hnew⟩ := hloop
  cases ho : (Group.discover (tuple env callables) r.inGroup s).outcome with
  | ok x =>
    obtain ⟨outputs, responses⟩ := x
    rw [Group.parallel_ok mode ho]
    rw [ho] at hending
    cases responses <;> exact ⟨hending, hstate, hnew⟩
  | exc e =>
    rw [Group.parallel_exc mode ho]
    rw [ho] at hending
    exact ⟨hending, hstate, hnew⟩
  | intr i =>
    rw [Group.parallel_intr mode ho]
    rw [ho] at hending
    exact ⟨hending, hstate, hnew⟩

end Groups

theorem callMarks_silent (s : State σ) (name message : String) :
    ¬ ReachesNew (FilteredLogger.callMarks s name message) := by
  rw [FilteredLogger.callMarks]
  cases s.held name <;> simp [ReachesNew]

/-- The replay of a body inside a group, by induction on the body. -/
theorem replays_interp (b : Body σ) (hpar : r.inParallel = true) (s : State σ) :
    Replays (b.interp env r s) (replay env b r s) := by
  induction b generalizing r s with
  | ret v => exact ⟨rfl, rfl, by simp [replay, Body.interp, Comp.done, ReachesNew]⟩
  | raise e => exact ⟨rfl, rfl, by simp [replay, Body.interp, ReachesNew]⟩
  | code f k ih => exact ih _ hpar _
  | look name method b ih =>
    rw [Body.look_interp]
    exact (ih hpar _).after (by simp [ReachesNew])
  | log name message b ih =>
    rw [Body.log_interp]
    exact (ih hpar s).after (callMarks_silent s name message)
  | site n b ih => exact ih (r := r.site n) hpar s
  | run stepId outputType handler k _ ihk =>
    refine replays_andThen ?_ fun x t => ihk x (r := r.next) hpar t
    rw [Step.run_eq]
    exact (replays_step hpar fun _ => rfl).after (by simp [ReachesNew])
  | call c k ih =>
    refine replays_andThen ?_ fun x t => ih x (r := r.next) hpar t
    cases ho : c.opts with
    | error e =>
      rw [Step.call_error env ho]
      exact ⟨rfl, rfl, by simp [ReachesNew]⟩
    | ok opts =>
      rw [Step.call_eq env ho]
      exact (replays_step hpar fun hop => absurd hop c.not_stepRun).after (by simp [ReachesNew])
  | parallel n callables mode k ihc ihk =>
    refine replays_andThen (replays_parallel mode fun i t => ihc i rfl t) fun x t => ?_
    exact (ihk x (r := r.next) hpar t).after (by simp [Comp.mark, ReachesNew])

end Agreement

/-! ## Complete groups -/

section Complete
variable {σ : Type} (env : Env σ) {n : ℕ} (callables : Fin n → Body σ) (mode : ParallelMode)
  (r : Scope) (s : State σ)

/-- On these memos, and with this target, the group gives back outputs although a
step of it has no memo: each callable comes back with a value or is passed over. -/
def PassesOver : Prop :=
  (∃ outputs, (replayGroup env callables r s).ending = .back (.ok outputs)) ∧
    (replayGroup env callables r s).new = true

theorem replays_group :
    Replays (Group.parallel (tuple env callables) mode r s) (replayGroup env callables r s) :=
  replays_parallel mode fun i t => replays_interp (callables i) rfl t

theorem returns_iff : (∃ outputs, (replayGroup env callables r s).ending = .back (.ok outputs)) ↔
    ∃ outputs, (Group.parallel (tuple env callables) mode r s).outcome = .ok outputs := by
  rw [(replays_group env callables mode r s).ending]
  cases (Group.parallel (tuple env callables) mode r s).outcome with
  | ok outputs => simp [Ending.of]
  | exc e => simp [Ending.of]
  | intr i => cases i <;> simp [Ending.of]

end Complete

/-! A request that targets `b`, which is next to a group around `a`. -/

def groupInGroup (_ : Context) : Body Unit :=
  .parallel 2
    (fun i => match i with
      | 0 => .parallel 1 innerCallables .wait fun _ =>
          .look "info" "info" (.log "info" "a is done" (.ret .null))
      | 1 => runThenReturn "b" (.int 2))
    .wait (fun _ => .ret .null)

end Inngest.GroupReplay
