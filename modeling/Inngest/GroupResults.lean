import Inngest.History

/-!
# What a group returns

`Group.parallel` passes over a callable that a skip cut short. It then hands
out fewer results than it was given callables, and in the wrong places. The
condition under which a normal return is complete is exact.
-/

set_option autoImplicit false

namespace Inngest.GroupResults
open ServerLib Errors StepLib Effect Engine History

def ReachesNew (l : List Mark) : Prop := ∃ id p, Mark.reported id false p ∈ l

theorem ReachesNew.append_left {l l' : List Mark} (h : ReachesNew l) : ReachesNew (l ++ l') := by
  obtain ⟨id, p, h⟩ := h
  exact ⟨id, p, List.mem_append_left _ h⟩

theorem ReachesNew.append_right {l l' : List Mark} (h : ReachesNew l') :
    ReachesNew (l ++ l') := by
  obtain ⟨id, p, h⟩ := h
  exact ⟨id, p, List.mem_append_right _ h⟩

structure Waiting {σ : Type} (env : Env σ) (r : Scope) (_s : State σ) (l : List Mark)
    (_s' : State σ) (o : Option Interrupt) : Prop where
  reachesNew : ∀ i, o = some i → i ≠ .nested → ReachesNew l
  response : ∀ rs, o = some (.response rs) → rs ≠ []
  skip : ∀ id, o = some (.skip id) → env.targetHashedId ≠ none
  nested : o = some .nested → r.inStep = true

section Rules
variable {σ : Type} {env : Env σ} {r : Scope} {s s' : State σ} {l : List Mark}
  {o : Option Interrupt}

theorem waiting_none : Waiting env r s l s' none :=
  ⟨by simp, by simp, by simp, by simp⟩

theorem waiting_chain : Chain (Waiting env) where
  nil := fun _ _ => waiting_none
  append := fun _ h₂ =>
    ⟨fun i hi hn => (h₂.reachesNew i hi hn).append_right, h₂.response, h₂.skip, h₂.nested⟩

theorem reachesNew_pop {info : StepInfo} {d : Run σ (Option Output)}
    (hp : Execution.PopDone env info r s d) (hm : s.memos.lookup info.id = none)
    (l : List Mark) : ReachesNew (d.log ++ l) := by
  obtain ⟨hooks, hl, -⟩ := pop_log hp
  exact ⟨info.id, r.inParallel, by simp [hl, hm]⟩

theorem waiting_step {info : StepInfo} {decode : Json → Except PyError Json}
    {outputType : Option OutputType} {handler : Exec σ Json} {d : Run σ Json}
    (hh : Guar (Waiting env) handler)
    (hd : Step.StepDone env info decode outputType handler r s d) (m : Mark) :
    Waiting env r s (m :: d.log) d.state d.outcome.escape := by
  cases hd with
  | answered => simpa using waiting_none
  | nested _ hr => exact ⟨by simp, by simp, by simp, fun _ => hr⟩
  | skipped hp hm ht =>
    exact ⟨fun _ _ _ => by simpa using (reachesNew_pop hp hm []).append_right (l := [m]),
      by simp, by simp [ht], by simp⟩
  | responded hp hm =>
    exact ⟨fun _ _ _ => by simpa using (reachesNew_pop hp hm []).append_right (l := [m]),
      by simp, by simp, by simp⟩
  | executed hp hm hr hop hmay hrun =>
    subst hrun
    refine ⟨fun _ _ _ => (reachesNew_pop hp hm _).append_right (l := [m]), ?_, ?_, ?_⟩
    · intro rs hrs
      rcases endOf_escape_some hrs with ⟨response, he, -⟩ | ⟨he, -⟩
      · simp only [Interrupt.response.injEq] at he
        simp [he]
      · exact (hh _ _).response rs ((serialized_escape _ _ _).symm.trans he)
    · intro id hid
      rcases endOf_escape_some hid with ⟨response, he, -⟩ | ⟨he, -⟩
      · simp at he
      · exact (hh _ _).skip id ((serialized_escape _ _ _).symm.trans he)
    · intro hn
      rcases endOf_escape_some hn with ⟨response, he, -⟩ | ⟨-, he⟩
      · simp at he
      · exact absurd rfl he

theorem waiting_group {callables : List (Exec σ Json)} {mode : ParallelMode}
    (hcs : ∀ c ∈ callables, Guar (Waiting env) c) :
    Guar (Waiting env) (Group.parallel callables mode) := by
  refine Group.guar_parallel (G := fun _ _ l _ ds => ds ≠ [] → ReachesNew l) ?_ ?_ ?_ mode hcs
  · intro r
    refine ⟨fun s h => absurd rfl h, fun h₁ _ hd => (h₁ hd).append_left, ?_, ?_, ?_⟩
    · intro s l₁ s₁ ds l₂ s₂ i new _ h₂ ha _
      refine (h₂.reachesNew i rfl ?_).append_right
      rintro rfl
      simp [Group.caught] at ha
    · exact fun _ _ => waiting_none
    · intro s l₁ s₁ ds l₂ s₂ i _ h₂ _
      exact ⟨fun j hj hn => (h₂.reachesNew j hj hn).append_right.append_left, h₂.response,
        h₂.skip, h₂.nested⟩
  · exact fun r s l s' o _ h => ⟨h.reachesNew, h.response, h.skip, h.nested⟩
  · intro r s l s' ds mode h
    split
    · exact waiting_none
    · rename_i hds
      exact ⟨fun _ _ _ => h hds, by simpa using hds, by simp, by simp⟩

theorem waiting_interp (env : Env σ) (b : Body σ) : Guar (Waiting env) (b.interp env) := by
  refine Body.guar_interp waiting_chain ?_ ?_ ?_ ?_ ?_ ?_ ?_ ?_ b
  · exact fun r p s l s' o h => ⟨h.reachesNew, h.response, h.skip, h.nested⟩
  · exact fun r s x => waiting_none
  · exact fun r s name method => waiting_none
  · exact fun r s name message found _ => waiting_none
  · exact fun stepId r s => waiting_none
  · intro stepId info decode outputType handler r s d _ hh hd
    have h := waiting_step hh hd (.parsed r.path info.id r.running)
    exact ⟨h.reachesNew, h.response, h.skip, h.nested⟩
  · exact fun callables mode hcs => waiting_group hcs
  · exact fun r s complete => waiting_none

end Rules

section
variable {σ : Type} (env : Env σ) {n : ℕ} (callables : Fin n → Body σ) (mode : ParallelMode)
  (r : Scope) (s : State σ)

/-- The callables of a group, as `Body.interp` hands them over. -/
def tuple : List (Exec σ Json) :=
  List.ofFn fun i => Comp.within (Scope.callable i) ((callables i).interp env)

/-- The runs of the callables that a group makes, in order. -/
def groupRuns : List (Run σ Json) := runs Group.caught (tuple env callables) r.inGroup s

/-- The callable raised, reported responses, or met a nested step. A callable
that only met a skip did none of these. -/
def Speaks (o : Outcome PyError Interrupt Json) : Prop :=
  (∃ e, o = .exc e) ∨ (∃ rs, o = .intr (.response rs)) ∨ o = .intr .nested

variable {env callables mode r s}

theorem waiting_groupRuns {d : Run σ Json} (hd : d ∈ groupRuns env callables r s) :
    ∃ s', Waiting env r.inGroup s' d.log d.state d.outcome.escape := by
  obtain ⟨m, hm, t, rfl⟩ := mem_runs hd
  obtain ⟨i, rfl⟩ := List.mem_ofFn.mp hm
  have h := waiting_interp env (callables i) (r.inGroup.callable i) t
  exact ⟨t, h.reachesNew, h.response, h.skip, h.nested⟩

theorem stops_speaks {o : Outcome PyError Interrupt Json} (h : o.stops Group.caught) :
    Speaks o := by
  cases o with
  | ok v => exact h.elim
  | exc e => exact .inl ⟨e, rfl⟩
  | intr i =>
    cases i with
    | response rs => simp [Outcome.stops, Group.caught] at h
    | skip id => simp [Outcome.stops, Group.caught] at h
    | nested => exact .inr (.inr rfl)

theorem not_speaks {o : Outcome PyError Interrupt Json} (h : ¬ Speaks o) :
    (∃ v, o = .ok v) ∨ ∃ id, o = .intr (.skip id) := by
  cases o with
  | ok v => exact .inl ⟨v, rfl⟩
  | exc e => exact absurd (.inl ⟨e, rfl⟩) h
  | intr i =>
    cases i with
    | response rs => exact absurd (.inr (.inl ⟨rs, rfl⟩)) h
    | skip id => exact .inr ⟨id, rfl⟩
    | nested => exact absurd (.inr (.inr rfl)) h

theorem parallel_silent (h : ∀ d ∈ groupRuns env callables r s, ¬ Speaks d.outcome) :
    (Group.parallel (tuple env callables) mode r s).outcome =
      .ok ((groupRuns env callables r s).filterMap (·.outcome.value?)) := by
  have hd : (Group.discover (tuple env callables) r.inGroup s).outcome = _ :=
    collect_returns fun d hd hs => h d hd (stops_speaks hs)
  have hg : (groupRuns env callables r s).flatMap (·.outcome.gathered Group.caught) = [] := by
    rw [List.flatMap_eq_nil_iff]
    intro d hd
    rcases not_speaks (h d hd) with ⟨v, hv⟩ | ⟨id, hid⟩
    · rw [hv]; rfl
    · rw [hid]; rfl
  rw [Group.parallel_ok mode hd, if_pos (by simpa [groupRuns] using hg)]
  rfl

theorem parallel_speaks {d : Run σ Json} (hd : d ∈ groupRuns env callables r s)
    (h : Speaks d.outcome) (outputs : List Json) :
    (Group.parallel (tuple env callables) mode r s).outcome ≠ .ok outputs := by
  cases ho : (Group.discover (tuple env callables) r.inGroup s).outcome with
  | exc e => simp [Group.parallel_exc mode ho]
  | intr i => simp [Group.parallel_intr mode ho]
  | ok x =>
    have hns : ∀ d ∈ groupRuns env callables r s, ¬ d.outcome.stops Group.caught :=
      fun d hd hs => collect_stopped hd hs x ho
    have hx : (Group.discover (tuple env callables) r.inGroup s).outcome = _ :=
      collect_returns hns
    have hx' := hx.symm.trans ho
    simp only [Outcome.ok.injEq] at hx'
    rcases h with ⟨e, he⟩ | ⟨rs, hrs⟩ | hn
    · exact absurd (by rw [he]; trivial) (hns d hd)
    · obtain ⟨s', hw⟩ := waiting_groupRuns hd
      have hne : rs ≠ [] := hw.response rs (by rw [hrs]; rfl)
      have hmem : ∀ q ∈ rs, q ∈ x.2 := by
        intro q hq
        rw [← hx']
        simp only [List.nil_append, List.mem_flatMap]
        exact ⟨d, hd, by simpa [hrs, Outcome.gathered, Group.caught] using hq⟩
      obtain ⟨q, hq⟩ := List.exists_mem_of_ne_nil rs hne
      rw [Group.parallel_ok mode ho, if_neg (List.ne_nil_of_mem (hmem q hq))]
      simp
    · exact absurd (by rw [hn]; rfl) (hns d hd)

theorem groupRuns_length (h : ∀ d ∈ groupRuns env callables r s, ¬ Speaks d.outcome) :
    (groupRuns env callables r s).length = n := by
  rw [groupRuns, runs_length fun d hd hs => h d hd (stops_speaks hs)]
  simp [tuple]

theorem mem_parallel_log {d : Run σ Json} (hd : d ∈ groupRuns env callables r s) {m : Mark}
    (hm : m ∈ d.log) : m ∈ (Group.parallel (tuple env callables) mode r s).log := by
  have h : m ∈ (Group.discover (tuple env callables) r.inGroup s).log := mem_collect_log hd hm
  cases ho : (Group.discover (tuple env callables) r.inGroup s).outcome with
  | ok x => rwa [Group.parallel_ok mode ho]
  | exc e => rwa [Group.parallel_exc mode ho]
  | intr i => rwa [Group.parallel_intr mode ho]

theorem parallel_complete
    (hok : ∀ d ∈ groupRuns env callables r s, ¬ Speaks d.outcome → ∃ v, d.outcome = .ok v)
    {outputs : List Json}
    (h : (Group.parallel (tuple env callables) mode r s).outcome = .ok outputs) :
    outputs.length = n ∧ (groupRuns env callables r s).map (·.outcome) = outputs.map .ok := by
  have hns : ∀ d ∈ groupRuns env callables r s, ¬ Speaks d.outcome :=
    fun d hd hs => parallel_speaks hd hs outputs h
  have hmap := map_outcome_of_ok fun d hd => hok d hd (hns d hd)
  have hout := h.symm.trans (parallel_silent hns)
  simp only [Outcome.ok.injEq] at hout
  rw [← hout] at hmap
  have hlen := congrArg List.length hmap
  simp only [List.length_map] at hlen
  exact ⟨hlen.symm.trans (groupRuns_length hns), hmap⟩

theorem memoized_returns
    (hno : ¬ ReachesNew (Group.parallel (tuple env callables) mode r s).log) :
    ∀ d ∈ groupRuns env callables r s, ¬ Speaks d.outcome → ∃ v, d.outcome = .ok v := by
  refine fun d hd hs => (not_speaks hs).resolve_right ?_
  rintro ⟨id, hid⟩
  obtain ⟨s', hw⟩ := waiting_groupRuns hd
  obtain ⟨i, p, hi⟩ := hw.reachesNew (.skip id) (by rw [hid]; rfl) (by simp)
  exact hno ⟨i, p, mem_parallel_log hd hi⟩

end

def runThenReturn (stepId : String) (v : Json) : Body Unit :=
  .run stepId none (.ret v) fun
    | .ok v => .ret v
    | .error e => .raise e

def innerCallables : Fin 1 → Body Unit := fun _ => runThenReturn "a" (.int 1)

end Inngest.GroupResults
