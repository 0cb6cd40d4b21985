import Inngest.Request

/-!
# Reading the history of a request

Projections of the history: the steps that were parsed, the handlers that
were entered, and the handlers whose exception was passed on to the function.
-/

set_option autoImplicit false

namespace Inngest.History
open ServerLib Errors StepLib Effect Engine

def parsedId : Mark → Option String
  | .parsed _ id _ => some id
  | _ => none

def enteredId : Mark → Option String
  | .enter id _ _ => some id
  | _ => none

def bubbledId : Mark → Option String
  | .leave id (.bubbled _) => some id
  | _ => none

def parsed (l : List Mark) : List String := l.filterMap parsedId

def entered (l : List Mark) : List String := l.filterMap enteredId

/-- The handlers that raised `NonRetriableError` or `RetryAfterError`. -/
def bubbled (l : List Mark) : List String := l.filterMap bubbledId

section Append
variable (m : Mark) (l l' : List Mark)

@[simp] theorem parsed_nil : parsed [] = [] := rfl
@[simp] theorem entered_nil : entered [] = [] := rfl
@[simp] theorem bubbled_nil : bubbled [] = [] := rfl

@[simp] theorem parsed_cons : parsed (m :: l) = (parsedId m).toList ++ parsed l := by
  cases h : parsedId m <;> simp [parsed, h]

@[simp] theorem entered_cons : entered (m :: l) = (enteredId m).toList ++ entered l := by
  cases h : enteredId m <;> simp [entered, h]

@[simp] theorem bubbled_cons : bubbled (m :: l) = (bubbledId m).toList ++ bubbled l := by
  cases h : bubbledId m <;> simp [bubbled, h]

@[simp] theorem parsed_append : parsed (l ++ l') = parsed l ++ parsed l' :=
  List.filterMap_append

@[simp] theorem entered_append : entered (l ++ l') = entered l ++ entered l' :=
  List.filterMap_append

@[simp] theorem bubbled_append : bubbled (l ++ l') = bubbled l ++ bubbled l' :=
  List.filterMap_append

end Append

/-- Two marks of a history that stand for one and the same ID are one mark, when
the IDs are distinct. -/
theorem mark_unique {f : Mark → Option String} {l : List Mark} (hn : (l.filterMap f).Nodup)
    {m m' : Mark} {id : String} (h : m ∈ l) (h' : m' ∈ l) (hm : f m = some id)
    (hm' : f m' = some id) : m = m' := by
  induction l with
  | nil => simp at h
  | cons x l ih =>
    have htail : ∀ {y}, y ∈ l → f y = some id → id ∈ l.filterMap f :=
      fun hy hf => List.mem_filterMap.mpr ⟨_, hy, hf⟩
    rcases List.mem_cons.mp h with hx | hl <;> rcases List.mem_cons.mp h' with hx' | hl'
    · rw [hx, hx']
    · rw [List.filterMap_cons_some (hx ▸ hm), List.nodup_cons] at hn
      exact absurd (htail hl' hm') hn.1
    · rw [List.filterMap_cons_some (hx' ▸ hm'), List.nodup_cons] at hn
      exact absurd (htail hl hm) hn.1
    · refine ih (hn.sublist ?_) hl hl'
      exact (List.sublist_cons_self x l).filterMap f

theorem split_append {l₁ l₂ before after : List Mark} {m : Mark}
    (h : l₁ ++ l₂ = before ++ m :: after) :
    (∃ after', l₁ = before ++ m :: after') ∨
      ∃ before', before = l₁ ++ before' ∧ l₂ = before' ++ m :: after := by
  rcases List.append_eq_append_iff.mp h with ⟨before', hb, hl⟩ | ⟨rest, hl, hr⟩
  · exact .inr ⟨before', hb, hl⟩
  · cases rest with
    | nil => exact .inr ⟨[], by simpa using hl.symm, by simpa using hr.symm⟩
    | cons x rest =>
      simp only [List.cons_append, List.cons.injEq] at hr
      exact .inl ⟨rest, by rw [hl, hr.1]⟩

theorem mem_entered {id : String} {l : List Mark} :
    id ∈ entered l ↔ ∃ p n, Mark.enter id p n ∈ l := by
  constructor
  · intro h
    obtain ⟨m, hm, he⟩ := List.mem_filterMap.mp h
    cases m <;> simp [enteredId] at he
    subst he
    exact ⟨_, _, hm⟩
  · rintro ⟨p, n, h⟩
    exact List.mem_filterMap.mpr ⟨_, h, rfl⟩

def HooksOnly (l : List Mark) : Prop := ∀ m ∈ l, ∃ i e, m = Mark.beforeExecution i e

theorem hooksOnly_nil : HooksOnly [] := by simp [HooksOnly]

theorem hooksOnly_of_ran {i n : ℕ} {l : List Mark} {err : Option PyError}
    (h : MiddlewareManager.HooksRan i n l err) : HooksOnly l := by
  have hmarks : ∀ k, HooksOnly (MiddlewareManager.hookMarks i k) := by
    intro k m hm
    obtain ⟨j, -, rfl⟩ := List.mem_map.mp hm
    exact ⟨j, none, rfl⟩
  cases err with
  | none => rw [show l = _ from h]; exact hmarks n
  | some e =>
    obtain ⟨k, -, rfl⟩ := h
    intro m hm
    rcases List.mem_append.mp hm with hm | hm
    · exact hmarks k m hm
    · exact ⟨_, _, List.mem_singleton.mp hm⟩

theorem filterMap_hooks {α : Type} {f : Mark → Option α} {l : List Mark} (h : HooksOnly l)
    (hf : ∀ i e, f (.beforeExecution i e) = none) : l.filterMap f = [] := by
  rw [List.filterMap_eq_nil_iff]
  intro m hm
  obtain ⟨i, e, rfl⟩ := h m hm
  exact hf i e

section Pop
variable {σ : Type} {env : Env σ} {info : StepInfo} {r : Scope} {s : State σ}
  {d : Run σ (Option Output)}

theorem pop_log (h : Execution.PopDone env info r s d) :
    ∃ hooks, d.log = .reported info.id (s.memos.lookup info.id).isSome r.inParallel :: hooks ∧
      HooksOnly hooks := by
  obtain ⟨l, hl, ⟨-, rfl, -⟩ | ⟨-, -, -, ⟨err, hr⟩, -⟩⟩ := h.hooks
  · exact ⟨[], hl, hooksOnly_nil⟩
  · exact ⟨l, hl, hooksOnly_of_ran hr⟩

theorem filterMap_pop {α : Type} {f : Mark → Option α} (h : Execution.PopDone env info r s d)
    (hf : ∀ i e, f (.beforeExecution i e) = none) :
    d.log.filterMap f =
      (f (.reported info.id (s.memos.lookup info.id).isSome r.inParallel)).toList := by
  obtain ⟨hooks, hl, hh⟩ := pop_log h
  rw [hl, List.filterMap_cons, filterMap_hooks hh hf]
  cases f (.reported info.id (s.memos.lookup info.id).isSome r.inParallel) <;> rfl

theorem reported_pop (h : Execution.PopDone env info r s d) {id : String} {m p : Bool} :
    .reported id m p ∈ d.log ↔
      id = info.id ∧ m = (s.memos.lookup info.id).isSome ∧ p = r.inParallel := by
  obtain ⟨hooks, hl, hh⟩ := pop_log h
  have hno : .reported id m p ∉ hooks := fun hm => by
    obtain ⟨i, e, he⟩ := hh _ hm
    simp at he
  rw [hl, List.mem_cons, or_iff_left hno, Mark.reported.injEq]

theorem parsed_pop (h : Execution.PopDone env info r s d) : parsed d.log = [] :=
  filterMap_pop h fun _ _ => rfl

theorem entered_pop (h : Execution.PopDone env info r s d) : entered d.log = [] :=
  filterMap_pop h fun _ _ => rfl

theorem bubbled_pop (h : Execution.PopDone env info r s d) : bubbled d.log = [] :=
  filterMap_pop h fun _ _ => rfl

end Pop

theorem prepared_log {σ : Type} (env : Env σ) (inv : Invocation σ) :
    HooksOnly (prepared env inv).log := by
  have h := prepared_done env inv
  generalize prepared env inv = d at h ⊢
  cases h with
  | refused => exact hooksOnly_nil
  | hookFailed _ h => exact hooksOnly_of_ran h
  | replaying => exact hooksOnly_nil
  | fresh _ _ _ _ h => exact hooksOnly_of_ran h

theorem filterMap_request {σ α : Type} {f : Mark → Option α} {env : Env σ}
    {fn : Context → Body σ} {outputType : Option OutputType} {inv : Invocation σ} {ctx : Context}
    (h : (prepared env inv).outcome = .ok (.ok ctx))
    (hf : ∀ i e, f (.beforeExecution i e) = none) :
    (request env fn outputType inv).log.filterMap f =
      (codeRun env fn inv ctx).log.filterMap f := by
  rw [request_log fn outputType h, List.filterMap_append,
    filterMap_hooks (prepared_log env inv) hf, List.nil_append]

theorem filterMap_stopped {σ α : Type} {f : Mark → Option α} {env : Env σ}
    {fn : Context → Body σ} {outputType : Option OutputType} {inv : Invocation σ} {e : PyError}
    (h : (prepared env inv).outcome = .ok (.error e))
    (hf : ∀ i e, f (.beforeExecution i e) = none) :
    (request env fn outputType inv).log.filterMap f = [] := by
  rw [request_stopped fn outputType h]
  exact filterMap_hooks (prepared_log env inv) hf

theorem endOf_escape_none {σ : Type} {env : Env σ} {info : StepInfo}
    {o : Outcome PyError Interrupt Json} :
    (Step.endOf env info o).escape = none ↔ ∃ e, Step.exitOf o = .bubbled e := by
  cases o with
  | ok v => simp [Step.endOf, Step.exitOf]
  | exc e => cases h : Step.bubbles e <;> simp [Step.endOf, Step.exitOf, h]
  | intr i => cases i <;> simp [Step.endOf, Step.exitOf]

theorem serialized_escape {σ : Type} (env : Env σ) (outputType : Option OutputType)
    (o : Outcome PyError Interrupt Json) :
    (Step.serialized env outputType o).escape = o.escape := by
  cases o with
  | ok v => cases h : env.serialize v outputType <;> simp [Step.serialized, h]
  | exc e => rfl
  | intr i => rfl

/-- An interrupt that leaves an executed step is its own response, or comes
from a step in its handler. -/
theorem endOf_escape_some {σ : Type} {env : Env σ} {info : StepInfo}
    {o : Outcome PyError Interrupt Json} {i : Interrupt}
    (h : (Step.endOf env info o).escape = some i) :
    (∃ response, i = .response [response] ∧ response.step.id = info.id) ∨
      o.escape = some i ∧ i ≠ .nested := by
  cases o with
  | ok v => exact .inl ⟨_, (Option.some.inj h).symm, rfl⟩
  | exc e =>
    cases hb : Step.bubbles e with
    | true => simp [Step.endOf, hb] at h
    | false =>
      simp only [Step.endOf, hb, Bool.false_eq_true, if_false, Outcome.escape_intr] at h
      exact .inl ⟨_, (Option.some.inj h).symm, rfl⟩
  | intr j =>
    cases j with
    | nested => exact .inl ⟨_, (Option.some.inj h).symm, rfl⟩
    | response rs => exact .inr ⟨h, by rw [← Option.some.inj h]; simp⟩
    | skip id => exact .inr ⟨h, by rw [← Option.some.inj h]; simp⟩

end Inngest.History
