import Inngest.Response

/-!
# Functions built from steps and groups

A flow is a deterministic function body made of `step.run`, `step.sleep` and
groups that are not nested. Run directly, every step is evaluated once in the
order of the program. As a body it notes each value that it sees of a step.
-/

set_option autoImplicit false

namespace Inngest
open ServerLib Errors StepLib Effect Engine

inductive FlowStep where
  | run (id : String) (value : Json)
  | sleep (id until_ : String)
  deriving DecidableEq, Repr

namespace FlowStep

def id : FlowStep → String
  | .run id _ => id
  | .sleep id _ => id

/-- What the step evaluates to; a sleep gives `None`. -/
def value : FlowStep → Json
  | .run _ value => value
  | .sleep _ _ => .null

end FlowStep

inductive Line where
  | ret (v : Json)
  | raise (e : PyError)
  | step (q : FlowStep) (k : Except PyError Json → Line)

inductive Flow where
  | ret (v : Json)
  | raise (e : PyError)
  | step (q : FlowStep) (k : Except PyError Json → Flow)
  | parallel (lines : List Line) (mode : ParallelMode) (k : Except PyError (List Json) → Flow)

/-! ## Direct execution

The result and the steps in the order of their evaluation; there is none when
the code raises an exception. -/

def Line.direct : Line → Option (Json × List FlowStep)
  | .ret v => some (v, [])
  | .raise _ => none
  | .step q k => (direct (k (.ok q.value))).map fun d => (d.1, q :: d.2)

def Flow.direct : Flow → Option (Json × List FlowStep)
  | .ret v => some (v, [])
  | .raise _ => none
  | .step q k => (direct (k (.ok q.value))).map fun d => (d.1, q :: d.2)
  | .parallel lines _ k => (lines.mapM Line.direct).bind fun ds =>
    (direct (k (.ok (ds.map Prod.fst)))).map fun d => (d.1, ds.flatMap Prod.snd ++ d.2)

/-! ## Step IDs -/

/-- A call of a step with this ID stands somewhere in the code. -/
def Line.Uses : Line → String → Prop
  | .ret _, _ => False
  | .raise _, _ => False
  | .step q k, id => q.id = id ∨ ∃ x, (k x).Uses id

def Flow.Uses : Flow → String → Prop
  | .ret _, _ => False
  | .raise _, _ => False
  | .step q k, id => q.id = id ∨ ∃ x, (k x).Uses id
  | .parallel lines _ k, id => (∃ l ∈ lines, l.Uses id) ∨ ∃ x, (k x).Uses id

def Line.Distinct : Line → Prop
  | .ret _ => True
  | .raise _ => True
  | .step q k => ∀ x, ¬ (k x).Uses q.id ∧ (k x).Distinct

def Flow.Distinct : Flow → Prop
  | .ret _ => True
  | .raise _ => True
  | .step q k => ∀ x, ¬ (k x).Uses q.id ∧ (k x).Distinct
  | .parallel lines _ k =>
    (∀ l ∈ lines, l.Distinct) ∧
      lines.Pairwise (fun l l' => ∀ id, l.Uses id → ¬ l'.Uses id) ∧
      ∀ x, (∀ l ∈ lines, ∀ id, l.Uses id → ¬ (k x).Uses id) ∧ (k x).Distinct

/-! ## Flows as bodies -/

abbrev Seen := String × Except PyError Json

namespace FlowStep

def body (q : FlowStep) (k : Except PyError Json → Body (List Seen)) : Body (List Seen) :=
  let noted := fun x => .code (fun seen => seen ++ [(q.id, x)]) fun _ => k x
  match q with
  | .run id value => .run id none (.ret value) noted
  | .sleep id until_ => .call (Step.sleepUntil id until_) noted

end FlowStep

def Line.body : Line → Body (List Seen)
  | .ret v => .ret v
  | .raise e => .raise e
  | .step q k => q.body fun x => (k x).body

def Flow.body : Flow → Body (List Seen)
  | .ret v => .ret v
  | .raise e => .raise e
  | .step q k => q.body fun x => (k x).body
  | .parallel lines mode k =>
    .parallel lines.length (fun i => (lines.get i).body) mode fun x => (k x).body

/-! ## What direct execution evaluates -/

theorem forall₂_of_mapM_some {α β : Type} {f : α → Option β} {as : List α} {bs : List β}
    (h : as.mapM f = some bs) : List.Forall₂ (fun a b => f a = some b) as bs := by
  induction as generalizing bs with
  | nil =>
    obtain rfl : [] = bs := by simpa using h
    exact .nil
  | cons a as ih =>
    obtain ⟨b, hb, bs', hbs, rfl⟩ : ∃ b, f a = some b ∧ ∃ bs', as.mapM f = some bs' ∧
        b :: bs' = bs := by
      simpa [List.mapM_cons, Option.bind_eq_some_iff] using h
    exact .cons hb (ih hbs)

namespace Line

theorem direct_step {q : FlowStep} {k : Except PyError Json → Line} {v : Json}
    {steps : List FlowStep} (h : (Line.step q k).direct = some (v, steps)) :
    ∃ rest, (k (.ok q.value)).direct = some (v, rest) ∧ steps = q :: rest := by
  obtain ⟨v', rest, hd, rfl, rfl⟩ : ∃ v' rest, (k (.ok q.value)).direct = some (v', rest) ∧
      v' = v ∧ q :: rest = steps := by
    simpa [direct] using h
  exact ⟨rest, hd, rfl⟩

theorem uses_direct {l : Line} {v : Json} {steps : List FlowStep}
    (h : l.direct = some (v, steps)) : ∀ q ∈ steps, l.Uses q.id := by
  induction l generalizing steps with
  | ret v' =>
    obtain ⟨-, rfl⟩ : v' = v ∧ [] = steps := by simpa [direct] using h
    simp
  | raise e => simp [direct] at h
  | step q k ih =>
    obtain ⟨rest, hd, rfl⟩ := direct_step h
    intro q' hq'
    rcases List.mem_cons.mp hq' with rfl | hq'
    · exact .inl rfl
    · exact .inr ⟨_, ih _ hd q' hq'⟩

theorem nodup_direct {l : Line} (hl : l.Distinct) {v : Json} {steps : List FlowStep}
    (h : l.direct = some (v, steps)) : (steps.map FlowStep.id).Nodup := by
  induction l generalizing steps with
  | ret v' =>
    obtain ⟨-, rfl⟩ : v' = v ∧ [] = steps := by simpa [direct] using h
    simp
  | raise e => simp [direct] at h
  | step q k ih =>
    obtain ⟨rest, hd, rfl⟩ := direct_step h
    rw [List.map_cons, List.nodup_cons]
    refine ⟨fun hq => ?_, ih _ (hl _).2 hd⟩
    obtain ⟨q', hq', hid⟩ := List.mem_map.mp hq
    exact (hl _).1 (hid ▸ uses_direct hd q' hq')

end Line

namespace Flow

theorem direct_step {q : FlowStep} {k : Except PyError Json → Flow} {v : Json}
    {steps : List FlowStep} (h : (Flow.step q k).direct = some (v, steps)) :
    ∃ rest, (k (.ok q.value)).direct = some (v, rest) ∧ steps = q :: rest := by
  obtain ⟨v', rest, hd, rfl, rfl⟩ : ∃ v' rest, (k (.ok q.value)).direct = some (v', rest) ∧
      v' = v ∧ q :: rest = steps := by
    simpa [direct] using h
  exact ⟨rest, hd, rfl⟩

theorem direct_parallel {lines : List Line} {mode : ParallelMode}
    {k : Except PyError (List Json) → Flow} {v : Json} {steps : List FlowStep}
    (h : (Flow.parallel lines mode k).direct = some (v, steps)) :
    ∃ ds rest, List.Forall₂ (fun l d => l.direct = some d) lines ds ∧
      (k (.ok (ds.map Prod.fst))).direct = some (v, rest) ∧
      steps = ds.flatMap Prod.snd ++ rest := by
  obtain ⟨ds, hds, v', rest, hd, rfl, rfl⟩ : ∃ ds, lines.mapM Line.direct = some ds ∧
      ∃ v' rest, (k (.ok (ds.map Prod.fst))).direct = some (v', rest) ∧ v' = v ∧
        ds.flatMap Prod.snd ++ rest = steps := by
    simpa [direct, Option.bind_eq_some_iff] using h
  exact ⟨ds, rest, forall₂_of_mapM_some hds, hd, rfl⟩

end Flow

end Inngest
