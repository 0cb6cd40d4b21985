import Inngest.History

/-!
# Which handlers a request enters

A step that runs interrupts the function, so the engine seems to enter at
most one handler in a request. There is one way past that: `step.run` passes
on `NonRetriableError` and `RetryAfterError`, the function may catch them, and
then a second step can run. Apart from this the restriction is proved.
-/

set_option autoImplicit false

namespace Inngest.HandlerEntry
open ServerLib Errors StepLib Effect Engine History

structure Entries {σ : Type} (env : Env σ) (r : Scope) (s : State σ) (l : List Mark)
    (s' : State σ) (o : Option Interrupt) : Prop where
  frame : ∀ id, id ∉ parsed l → s'.memos.lookup id = s.memos.lookup id
  count : ∀ id, (entered l).count id ≤ (parsed l).count id
  fresh : ∀ id ∈ entered l, s.memos.lookup id = none ∨ 2 ≤ (parsed l).count id
  permitted : ∀ id p n, .enter id p n ∈ l → env.targetHashedId = some id ∨
    env.targetHashedId = none ∧ p = false ∧ env.request.disableImmediateExecution = false
  inner : r.inStep = true → entered l = []
  grouped : env.targetHashedId = none → r.inParallel = true → entered l = []
  sub : (bubbled l).Sublist (entered l)
  through : env.targetHashedId = none → o = none → entered l = bubbled l
  last : env.targetHashedId = none → ∃ t, t.length ≤ 1 ∧ entered l = bubbled l ++ t

section Rules
variable {σ : Type} {env : Env σ} {r : Scope} {s s' : State σ} {l : List Mark}
  {o : Option Interrupt}

theorem entries_silent (hm : s'.memos = s.memos) (he : entered l = []) (hb : bubbled l = []) :
    Entries env r s l s' o where
  frame := fun id _ => by rw [hm]
  count := by simp [he]
  fresh := by simp [he]
  permitted := fun id p n h => by simpa [he] using mem_entered.mpr ⟨p, n, h⟩
  inner := fun _ => he
  grouped := fun _ _ => he
  sub := by simp [hb]
  through := fun _ _ => by rw [he, hb]
  last := fun _ => ⟨[], by simp, by simp [he, hb]⟩

theorem entries_chain : Chain (Entries env) where
  nil := fun r s => entries_silent rfl rfl rfl
  append := by
    intro r s l₁ s₁ l₂ s₂ o h₁ h₂
    have hmem : ∀ id ∈ entered l₂, id ∈ parsed l₂ := fun id h =>
      List.count_pos_iff.mp (lt_of_lt_of_le (List.count_pos_iff.mpr h) (h₂.count id))
    refine ⟨?_, ?_, ?_, ?_, ?_, ?_, ?_, ?_, ?_⟩
    · intro id hid
      simp only [parsed_append, List.mem_append, not_or] at hid
      rw [h₂.frame id hid.2, h₁.frame id hid.1]
    · intro id
      simp only [entered_append, parsed_append, List.count_append]
      exact Nat.add_le_add (h₁.count id) (h₂.count id)
    · intro id hid
      simp only [entered_append, List.mem_append] at hid
      simp only [parsed_append, List.count_append]
      rcases hid with hid | hid
      · exact (h₁.fresh id hid).imp_right fun h => by omega
      · by_cases hp : id ∈ parsed l₁
        · have h1 := List.count_pos_iff.mpr hp
          have h2 := List.count_pos_iff.mpr (hmem id hid)
          exact .inr (by omega)
        · rw [← h₁.frame id hp]
          exact (h₂.fresh id hid).imp_right fun h => by omega
    · intro id p n h
      exact (List.mem_append.mp h).elim (h₁.permitted id p n) (h₂.permitted id p n)
    · intro hr
      simp [h₁.inner hr, h₂.inner hr]
    · intro ht hr
      simp [h₁.grouped ht hr, h₂.grouped ht hr]
    · simpa using h₁.sub.append h₂.sub
    · intro ht ho
      simp [h₁.through ht rfl, h₂.through ht ho]
    · intro ht
      obtain ⟨t, hlen, he⟩ := h₂.last ht
      exact ⟨t, hlen, by simp [h₁.through ht rfl, he]⟩

theorem entries_passed {info : StepInfo} {d : Run σ (Option Output)} {path : List ℕ}
    {b : Option String} {l : List Mark} (hp : Execution.PopDone env info r s d)
    (hl : entered l = [] ∧ bubbled l = [] ∧ parsed l = []) :
    Entries env r s (.parsed path info.id b :: (d.log ++ l)) d.state o where
  frame := by
    intro id hid
    simp only [parsed_cons, parsedId, List.mem_append, not_or] at hid
    rw [hp.memos, AList.lookup_erase_ne (by simpa using hid.1)]
  count := by simp [enteredId, entered_pop hp, hl.1]
  fresh := by simp [enteredId, entered_pop hp, hl.1]
  permitted := fun id p n h => by
    simpa [enteredId, entered_pop hp, hl.1] using mem_entered.mpr ⟨p, n, h⟩
  inner := by simp [enteredId, entered_pop hp, hl.1]
  grouped := by simp [enteredId, entered_pop hp, hl.1]
  sub := by simp [bubbledId, bubbled_pop hp, hl.2.1]
  through := by simp [enteredId, bubbledId, entered_pop hp, bubbled_pop hp, hl.1, hl.2.1]
  last := fun _ => ⟨[], by simp, by
    simp [enteredId, bubbledId, entered_pop hp, bubbled_pop hp, hl.1, hl.2.1]⟩

theorem bubbled_leave (env : Env σ) (info : StepInfo) (x : Outcome PyError Interrupt Json)
    (id : String) :
    (Step.endOf env info x).escape = none ∧ bubbled [.leave id (Step.exitOf x)] = [id] ∨
      (Step.endOf env info x).escape ≠ none ∧ bubbled [.leave id (Step.exitOf x)] = [] := by
  by_cases h : (Step.endOf env info x).escape = none
  · obtain ⟨e, he⟩ := endOf_escape_none.mp h
    exact .inl ⟨h, by simp [he, bubbledId]⟩
  · refine .inr ⟨h, ?_⟩
    cases hx : Step.exitOf x with
    | bubbled e => exact absurd (endOf_escape_none.mpr ⟨e, hx⟩) h
    | _ => rfl

/-- A step that runs. Its handler runs inside the step, so nothing that the
handler does enters another one. -/
theorem entries_executed {info : StepInfo} {d : Run σ (Option Output)} {h : Run σ Json}
    {path : List ℕ} {b : Option String} {n : ℕ} {x : Outcome PyError Interrupt Json}
    (hp : Execution.PopDone env info r s d)
    (hm : s.memos.lookup info.id = none) (hr : r.inStep = false)
    (hmay : Execution.MayRun env r info.id)
    (hh : Entries env (r.inHandler info.id) d.state h.log h.state h.outcome.escape) :
    Entries env r s (.parsed path info.id b :: (d.log ++ .enter info.id r.inParallel n ::
      (h.log ++ [.leave info.id (Step.exitOf x)]))) h.state
      (Step.endOf env info x).escape := by
  have hin : entered h.log = [] := hh.inner rfl
  have hbub : bubbled h.log = [] := by simpa [hin] using hh.sub
  have he : entered (.parsed path info.id b :: (d.log ++ .enter info.id r.inParallel n ::
      (h.log ++ [.leave info.id (Step.exitOf x)]))) = [info.id] := by
    simp [enteredId, entered_pop hp, hin]
  have hb : bubbled (.parsed path info.id b :: (d.log ++ .enter info.id r.inParallel n ::
      (h.log ++ [.leave info.id (Step.exitOf x)]))) =
      bubbled [.leave info.id (Step.exitOf x)] := by
    simp [bubbledId, bubbled_pop hp, hbub]
  have hpar : parsed (.parsed path info.id b :: (d.log ++ .enter info.id r.inParallel n ::
      (h.log ++ [.leave info.id (Step.exitOf x)]))) = info.id :: parsed h.log := by
    simp [parsedId, parsed_pop hp]
  refine ⟨?_, ?_, ?_, ?_, ?_, ?_, ?_, ?_, ?_⟩
  · intro id hid
    rw [hpar, List.mem_cons, not_or] at hid
    rw [hh.frame id hid.2, hp.memos, AList.lookup_erase_ne hid.1]
  · intro id
    rw [he, hpar]
    by_cases hid : info.id = id <;> simp [hid]
  · intro id hid
    rw [he, List.mem_singleton] at hid
    exact .inl (hid ▸ hm)
  · intro id p k hk
    have hmem := mem_entered.mpr ⟨p, k, hk⟩
    rw [he, List.mem_singleton] at hmem
    subst hmem
    rcases hmay with ht | ⟨ht, hpar, hdis⟩
    · exact .inl ht
    · refine .inr ⟨ht, ?_, hdis⟩
      have hnot : ∀ p k, .enter info.id p k ∉ h.log := fun p k hk => by
        simpa [hin] using mem_entered.mpr ⟨p, k, hk⟩
      have hnot' : ∀ p k, .enter info.id p k ∉ d.log := fun p k hk => by
        simpa [entered_pop hp] using mem_entered.mpr ⟨p, k, hk⟩
      simp only [List.mem_cons, List.mem_append, reduceCtorEq, false_or, hnot, hnot',
        Mark.enter.injEq, true_and, List.not_mem_nil, or_false] at hk
      rw [hk.1, hpar]
  · intro hs
    simp [hr] at hs
  · intro ht hs
    rcases hmay with h' | ⟨-, h', -⟩
    · simp [ht] at h'
    · simp [hs] at h'
  · rw [he, hb]
    rcases bubbled_leave env info x info.id with
      ⟨-, hl⟩ | ⟨-, hl⟩ <;> simp [hl]
  · intro _ ho
    rw [he, hb]
    rcases bubbled_leave env info x info.id with
      ⟨-, hl⟩ | ⟨hne, -⟩
    · exact hl.symm
    · exact absurd ho hne
  · intro _
    rw [he, hb]
    rcases bubbled_leave env info x info.id with
      ⟨-, hl⟩ | ⟨-, hl⟩
    · exact ⟨[], by simp, by simp [hl]⟩
    · exact ⟨[info.id], by simp, by simp [hl]⟩

theorem entries_step {info : StepInfo} {decode : Json → Except PyError Json}
    {outputType : Option OutputType} {handler : Exec σ Json} {d : Run σ Json} (path : List ℕ)
    (b : Option String) (hh : Guar (Entries env) handler)
    (hd : Step.StepDone env info decode outputType handler r s d) :
    Entries env r s (.parsed path info.id b :: d.log) d.state d.outcome.escape := by
  cases hd with
  | answered hp => simpa using entries_passed hp (l := []) ⟨rfl, rfl, rfl⟩
  | nested hp => exact entries_passed hp ⟨rfl, rfl, rfl⟩
  | skipped hp => simpa using entries_passed hp (l := []) ⟨rfl, rfl, rfl⟩
  | responded hp => simpa using entries_passed hp (l := []) ⟨rfl, rfl, rfl⟩
  | executed hp hm hr hop hmay hrun =>
    subst hrun
    exact entries_executed hp hm hr hmay (hh _ _)

theorem entries_abandoned {rs : List StepResponse} (h : Entries env r s l s' o) :
    Entries env r s (l ++ [.abandoned rs]) s' o := by
  refine ⟨?_, ?_, ?_, ?_, ?_, ?_, ?_, ?_, ?_⟩
  · simpa [parsedId] using h.frame
  · simpa [parsedId, enteredId] using h.count
  · simpa [parsedId, enteredId] using h.fresh
  · simpa using h.permitted
  · simpa [enteredId] using h.inner
  · simpa [enteredId] using h.grouped
  · simpa [enteredId, bubbledId] using h.sub
  · simpa [enteredId, bubbledId] using h.through
  · simpa [enteredId, bubbledId] using h.last

theorem entries_group {callables : List (Exec σ Json)} {mode : ParallelMode}
    (hcs : ∀ c ∈ callables, Guar (Entries env) c) :
    Guar (Entries env) (Group.parallel callables mode) := by
  refine Group.guar_parallel (G := fun r s l s' _ => Entries env r s l s' none) ?_ ?_ ?_ mode hcs
  · intro r
    refine ⟨fun s => entries_chain.nil _ s, entries_chain.append, ?_, ?_, ?_⟩
    · intro s l₁ s₁ ds l₂ s₂ i new h₁ h₂ _
      -- nothing was entered here, or the request is targeted
      exact entries_chain.append h₁
        { h₂ with through := fun ht _ => by simpa [h₂.grouped ht rfl] using h₂.sub }
    · intro s l₁ s₁ ds l₂ s₂ h₁ h₂
      exact entries_abandoned (entries_chain.append h₁ h₂)
    · intro s l₁ s₁ ds l₂ s₂ i h₁ h₂ _
      exact entries_abandoned (entries_chain.append h₁ h₂)
  · intro r s l s' o _ h
    exact { h with inner := h.inner, grouped := fun ht _ => h.grouped ht rfl }
  · intro r s l s' ds mode h
    exact { h with inner := h.inner, grouped := fun ht _ => h.grouped ht rfl,
                   through := fun ht _ => h.through ht rfl }

theorem entries_interp (env : Env σ) (b : Body σ) : Guar (Entries env) (b.interp env) := by
  refine Body.guar_interp entries_chain ?_ ?_ ?_ ?_ ?_ ?_ ?_ ?_ b
  · intro r p s l s' o h
    exact { h with inner := h.inner, grouped := h.grouped }
  · exact fun r s x => entries_silent rfl rfl rfl
  · exact fun r s name method => entries_silent rfl rfl rfl
  · exact fun r s name message found _ => entries_silent rfl rfl rfl
  · exact fun stepId r s => entries_silent rfl rfl rfl
  · intro stepId info decode outputType handler r s d _ hh hd
    have h := entries_step r.path r.running hh hd
    exact { h with frame := h.frame, fresh := h.fresh }
  · exact fun callables mode hcs => entries_group hcs
  · exact fun r s complete => entries_silent rfl rfl rfl

end Rules

variable {σ : Type} (env : Env σ) (fn : Context → Body σ) (outputType : Option OutputType)
  (inv : Invocation σ)

theorem entries_nodup {d : Run σ Json} {s : State σ}
    (hbody : Entries env Scope.top s d.log d.state d.outcome.escape) (h : (parsed d.log).Nodup) :
    (∃ last, last.length ≤ 1 ∧ entered d.log = bubbled d.log ++ last) ∧
    (∀ id ∈ entered d.log, s.memos.lookup id = none) ∧
    (∀ t, env.targetHashedId = some t → entered d.log = [] ∨ entered d.log = [t]) := by
  have hcount : ∀ id, (entered d.log).count id ≤ 1 := fun id =>
    (hbody.count id).trans (List.nodup_iff_count_le_one.mp h id)
  have honly : ∀ t, env.targetHashedId = some t → ∀ id ∈ entered d.log, id = t := by
    intro t ht id hid
    obtain ⟨p, n, hm⟩ := mem_entered.mp hid
    rcases hbody.permitted id p n hm with h' | ⟨h', -⟩ <;> simp_all
  have hone : ∀ t, env.targetHashedId = some t → entered d.log = [] ∨ entered d.log = [t] := by
    intro t ht
    have hrep := List.eq_replicate_iff.mpr ⟨rfl, honly t ht⟩
    have hlen := hcount t
    rw [hrep, List.count_replicate_self] at hlen
    rw [hrep]
    cases Nat.le_one_iff_eq_zero_or_eq_one.mp hlen with
    | inl h0 => simp [h0]
    | inr h1 => simp [h1]
  refine ⟨?_, ?_, hone⟩
  · cases ht : env.targetHashedId with
    | none => exact hbody.last ht
    | some t =>
      have hsub := hbody.sub
      rcases hone t ht with h' | h' <;> rw [h'] at hsub ⊢
      · exact ⟨[], by simp, by simp [List.sublist_nil.mp hsub]⟩
      · rcases List.sublist_singleton.mp hsub with h'' | h''
        · exact ⟨[t], by simp, by simp [h'']⟩
        · exact ⟨[], by simp, by simp [h'']⟩
  · intro id hid
    refine (hbody.fresh id hid).resolve_right fun h2 => ?_
    have := List.nodup_iff_count_le_one.mp h id
    omega

/-- With distinct step IDs: every handler but the last one entered raised
`NonRetriableError` or `RetryAfterError`, no memoized step's handler is
entered, a targeted request enters its target at most once and nothing else,
and an untargeted one enters nothing in a group or when immediate execution
is disabled. -/
theorem handlers_entered (h : (parsed (request env fn outputType inv).log).Nodup) :
    (∃ last, last.length ≤ 1 ∧ entered (request env fn outputType inv).log =
      bubbled (request env fn outputType inv).log ++ last) ∧
    (∀ id ∈ entered (request env fn outputType inv).log,
      (prepared env inv).state.memos.lookup id = none) ∧
    (∀ t, env.targetHashedId = some t → entered (request env fn outputType inv).log = [] ∨
      entered (request env fn outputType inv).log = [t]) ∧
    (env.targetHashedId = none →
      ∀ id p n, .enter id p n ∈ (request env fn outputType inv).log →
        p = false ∧ env.request.disableImmediateExecution = false) := by
  obtain ⟨x, hx⟩ := prepared_outcome env inv
  cases x with
  | error e =>
    have he : entered (request env fn outputType inv).log = [] :=
      filterMap_stopped hx fun _ _ => rfl
    have hb : bubbled (request env fn outputType inv).log = [] :=
      filterMap_stopped hx fun _ _ => rfl
    refine ⟨⟨[], by simp, by simp [he, hb]⟩, by simp [he], fun t _ => .inl he, ?_⟩
    exact fun _ id p n hm => absurd (mem_entered.mpr ⟨p, n, hm⟩) (by simp [he])
  | ok ctx =>
    have hbody := entries_interp env (fn ctx) Scope.top (prepared env inv).state
    rw [← codeRun] at hbody
    have hp : parsed (request env fn outputType inv).log = parsed (codeRun env fn inv ctx).log :=
      filterMap_request hx fun _ _ => rfl
    have he : entered (request env fn outputType inv).log =
        entered (codeRun env fn inv ctx).log := filterMap_request hx fun _ _ => rfl
    have hb : bubbled (request env fn outputType inv).log =
        bubbled (codeRun env fn inv ctx).log := filterMap_request hx fun _ _ => rfl
    rw [hp] at h
    obtain ⟨h₁, h₂, h₃⟩ := entries_nodup env hbody h
    rw [he, hb]
    refine ⟨h₁, h₂, h₃, fun ht id p n hm => ?_⟩
    rw [request_log fn outputType hx] at hm
    rcases List.mem_append.mp hm with hm | hm
    · obtain ⟨i, e, hi⟩ := prepared_log env inv _ hm
      simp at hi
    · exact (hbody.permitted id p n hm).resolve_left (by simp [ht]) |>.2

/-! A function that catches what its first step raised and goes on. -/

def fallback (_ : Context) : Body Unit :=
  .run "a" none (.raise (nonRetriableError "no" false)) fun
    | .ok v => .ret v
    | .error _ => .run "b" none (.ret (.int 1)) fun
      | .ok v => .ret v
      | .error e => .raise e

theorem fallback_enters_two :
    (parsed (request (Sample.env none) fallback none (Sample.invocation [])).log).Nodup ∧
      entered (request (Sample.env none) fallback none (Sample.invocation [])).log =
        [Sample.hashStepId "a", Sample.hashStepId "b"] := by
  decide

theorem handlers_entered_fallback :
    (parsed (request (Sample.env none) fallback none (Sample.invocation [])).log).Nodup ∧
    ∃ last, last.length ≤ 1 ∧
      entered (request (Sample.env none) fallback none (Sample.invocation [])).log =
      bubbled (request (Sample.env none) fallback none (Sample.invocation [])).log ++ last :=
  ⟨by decide,
    (handlers_entered (Sample.env none) fallback none (Sample.invocation []) (by decide)).1⟩

end Inngest.HandlerEntry
