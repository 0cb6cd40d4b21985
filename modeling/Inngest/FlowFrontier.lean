import Inngest.FlowReplay

/-!
# The frontier of a flow

The steps of a direct run come in stages: a single step, or the lines of a
group. When the memos hold direct values, a walk comes to the first stage that
is not done and asks for the first open step of each of its lines.
-/

set_option autoImplicit false

namespace Inngest
open ServerLib Errors StepLib Effect Engine

abbrev Stage := List (List FlowStep)

theorem exists_of_forall₂ {α β : Type} {R : α → β → Prop} {as : List α} {bs : List β}
    (h : List.Forall₂ R as bs) {b : β} (hb : b ∈ bs) : ∃ a ∈ as, R a b := by
  induction h with
  | nil => simp at hb
  | cons hr _ ih =>
    rcases List.mem_cons.mp hb with rfl | hb
    · exact ⟨_, by simp, hr⟩
    · obtain ⟨a, ha, hab⟩ := ih hb
      exact ⟨a, List.mem_cons_of_mem _ ha, hab⟩

namespace Flow

inductive Follows : Flow → Json → List Stage → Prop
  | ret (v : Json) : Follows (.ret v) v []
  | step {q : FlowStep} {k : Except PyError Json → Flow} {v : Json} {stages : List Stage} :
      Follows (k (.ok q.value)) v stages → Follows (.step q k) v ([[q]] :: stages)
  | parallel {lines : List Line} {mode : ParallelMode} {k : Except PyError (List Json) → Flow}
      {ds : List (Json × List FlowStep)} {v : Json} {stages : List Stage} :
      List.Forall₂ (fun l d => l.direct = some d) lines ds →
      Follows (k (.ok (ds.map Prod.fst))) v stages →
      Follows (.parallel lines mode k) v (ds.map Prod.snd :: stages)

theorem follows_of_direct {p : Flow} {v : Json} {steps : List FlowStep}
    (h : p.direct = some (v, steps)) :
    ∃ stages : List Stage, p.Follows v stages ∧ steps = stages.flatten.flatten := by
  induction p generalizing steps with
  | ret v' =>
    obtain ⟨rfl, rfl⟩ : v' = v ∧ [] = steps := by simpa [direct] using h
    exact ⟨[], .ret v', rfl⟩
  | raise e => simp [direct] at h
  | step q k ih =>
    obtain ⟨rest, hd, rfl⟩ := direct_step h
    obtain ⟨stages, hstages, rfl⟩ := ih _ hd
    exact ⟨_, .step hstages, by simp⟩
  | parallel lines mode k ih =>
    obtain ⟨ds, rest, hds, hd, rfl⟩ := direct_parallel h
    obtain ⟨stages, hstages, rfl⟩ := ih _ hd
    exact ⟨_, .parallel hds hstages, by simp [List.flatMap]⟩

theorem uses_direct {p : Flow} {v : Json} {steps : List FlowStep}
    (h : p.direct = some (v, steps)) : ∀ q ∈ steps, p.Uses q.id := by
  induction p generalizing steps with
  | ret v' =>
    obtain ⟨-, rfl⟩ : v' = v ∧ [] = steps := by simpa [direct] using h
    simp
  | raise e => simp [direct] at h
  | step q k ih =>
    obtain ⟨rest, hd, rfl⟩ := direct_step h
    intro q' hq'
    rcases List.mem_cons.mp hq' with rfl | hq'
    · exact .inl rfl
    · exact .inr ⟨_, ih _ hd q' hq'⟩
  | parallel lines mode k ih =>
    obtain ⟨ds, rest, hds, hd, rfl⟩ := direct_parallel h
    intro q' hq'
    rcases List.mem_append.mp hq' with hq' | hq'
    · obtain ⟨d, hdmem, hq'⟩ := List.mem_flatMap.mp hq'
      obtain ⟨l, hl, hld⟩ := exists_of_forall₂ hds hdmem
      exact .inl ⟨l, hl, Line.uses_direct hld q' hq'⟩
    · exact .inr ⟨_, ih _ hd q' hq'⟩

theorem nodup_lines {lines : List Line} {ds : List (Json × List FlowStep)}
    (hds : List.Forall₂ (fun l d => l.direct = some d) lines ds)
    (hlines : ∀ l ∈ lines, l.Distinct)
    (hapart : lines.Pairwise fun l l' => ∀ id, l.Uses id → ¬ l'.Uses id) :
    ((ds.flatMap Prod.snd).map FlowStep.id).Nodup := by
  induction hds with
  | nil => simp
  | @cons l d lines ds hd hds ih =>
    obtain ⟨hl, hapart⟩ := List.pairwise_cons.mp hapart
    rw [List.flatMap_cons, List.map_append, List.nodup_append]
    refine ⟨Line.nodup_direct (hlines l (by simp)) (v := d.1) hd,
      ih (fun l' hl' => hlines l' (List.mem_cons_of_mem _ hl')) hapart, ?_⟩
    rintro id hid id' hid' rfl
    obtain ⟨q, hq, rfl⟩ := List.mem_map.mp hid
    obtain ⟨q', hq', hsame⟩ := List.mem_map.mp hid'
    obtain ⟨d', hd', hq'⟩ := List.mem_flatMap.mp hq'
    obtain ⟨l', hl', hld'⟩ := exists_of_forall₂ hds hd'
    exact hl l' hl' q.id (Line.uses_direct (v := d.1) hd q hq)
      (hsame ▸ Line.uses_direct (v := d'.1) hld' q' hq')

theorem nodup_direct {p : Flow} (hp : p.Distinct) {v : Json} {steps : List FlowStep}
    (h : p.direct = some (v, steps)) : (steps.map FlowStep.id).Nodup := by
  induction p generalizing steps with
  | ret v' =>
    obtain ⟨-, rfl⟩ : v' = v ∧ [] = steps := by simpa [direct] using h
    simp
  | raise e => simp [direct] at h
  | step q k ih =>
    obtain ⟨rest, hd, rfl⟩ := direct_step h
    rw [List.map_cons, List.nodup_cons]
    refine ⟨fun hq => ?_, ih _ (hp _).2 hd⟩
    obtain ⟨q', hq', hid⟩ := List.mem_map.mp hq
    exact (hp _).1 (hid ▸ uses_direct hd q' hq')
  | parallel lines mode k ih =>
    obtain ⟨ds, rest, hds, hd, rfl⟩ := direct_parallel h
    obtain ⟨hlines, hapart, hk⟩ := hp
    rw [List.map_append, List.nodup_append]
    refine ⟨nodup_lines hds hlines hapart, ih _ (hk _).2 hd, ?_⟩
    rintro id hid id' hid' rfl
    obtain ⟨q, hq, rfl⟩ := List.mem_map.mp hid
    obtain ⟨q', hq', hsame⟩ := List.mem_map.mp hid'
    obtain ⟨d, hdmem, hq⟩ := List.mem_flatMap.mp hq
    obtain ⟨l, hl, hld⟩ := exists_of_forall₂ hds hdmem
    exact (hk _).1 l hl q.id (Line.uses_direct (v := d.1) hld q hq)
      (hsame ▸ uses_direct hd q' hq')

end Flow

/-! ## The frontier -/

section Frontier
variable (done : String → Bool)

def openStep (line : List FlowStep) : Option FlowStep := line.find? fun q => ¬ done q.id

def frontier : List Stage → List FlowStep
  | [] => []
  | stage :: stages =>
    match stage.filterMap (openStep done) with
    | [] => frontier stages
    | q :: qs => q :: qs

variable {done} {done' : String → Bool}

theorem mem_of_openStep {line : List FlowStep} {q : FlowStep} (h : openStep done line = some q) :
    q ∈ line ∧ done q.id = false :=
  ⟨List.mem_of_find?_eq_some h, by simpa using List.find?_some h⟩

theorem openStep_none {line : List FlowStep} :
    openStep done line = none ↔ ∀ q ∈ line, done q.id = true := by
  simp [openStep]

theorem openStep_mono (hsub : ∀ id, done id = true → done' id = true) {line : List FlowStep}
    {q : FlowStep} (h : openStep done line = some q) (hq : done' q.id = false) :
    openStep done' line = some q := by
  obtain ⟨hopen, pre, post, rfl, hpre⟩ := List.find?_eq_some_iff_append.mp h
  rw [openStep, List.find?_eq_some_iff_append]
  refine ⟨by simp [hq], pre, post, rfl, fun a ha => ?_⟩
  have := hpre a ha
  simp only [Bool.not_eq_true, Bool.decide_eq_false, Bool.not_not] at this ⊢
  exact hsub _ this

theorem mem_of_frontier {stages : List Stage} {q : FlowStep} (h : q ∈ frontier done stages) :
    q ∈ stages.flatten.flatten ∧ done q.id = false := by
  induction stages with
  | nil => simp [frontier] at h
  | cons stage stages ih =>
    rw [frontier] at h
    split at h
    · obtain ⟨hmem, hq⟩ := ih h
      exact ⟨by simpa using .inr (by simpa using hmem), hq⟩
    · rename_i hstage
      rw [← hstage] at h
      obtain ⟨line, hline, hq⟩ := List.mem_filterMap.mp h
      obtain ⟨hmem, hopen⟩ := mem_of_openStep hq
      exact ⟨by simpa using .inl ⟨line, hline, hmem⟩, hopen⟩

theorem frontier_eq_nil {stages : List Stage} :
    frontier done stages = [] ↔ ∀ q ∈ stages.flatten.flatten, done q.id = true := by
  induction stages with
  | nil => simp [frontier]
  | cons stage stages ih =>
    rw [frontier]
    split
    · rename_i hstage
      rw [ih]
      have hdone : ∀ line ∈ stage, ∀ q ∈ line, done q.id = true := fun line hline =>
        openStep_none.mp (List.filterMap_eq_nil_iff.mp hstage line hline)
      constructor
      · intro h q hq
        rw [List.flatten_cons, List.flatten_append, List.mem_append] at hq
        rcases hq with hq | hq
        · obtain ⟨line, hline, hq⟩ := List.mem_flatten.mp hq
          exact hdone line hline q hq
        · exact h q hq
      · intro h q hq
        exact h q (by rw [List.flatten_cons, List.flatten_append]; exact List.mem_append_right _ hq)
    · rename_i q qs hstage
      refine ⟨fun h => by simp at h, fun h => ?_⟩
      have hq : q ∈ stage.filterMap (openStep done) := by simp [hstage]
      obtain ⟨line, hline, hopen⟩ := List.mem_filterMap.mp hq
      obtain ⟨hmem, hnot⟩ := mem_of_openStep hopen
      have hdone := h q (by simpa using .inl ⟨line, hline, hmem⟩)
      rw [hnot] at hdone
      cases hdone

theorem frontier_mono (hsub : ∀ id, done id = true → done' id = true) {stages : List Stage}
    {q : FlowStep} (h : q ∈ frontier done stages) (hq : done' q.id = false) :
    q ∈ frontier done' stages := by
  induction stages with
  | nil => simp [frontier] at h
  | cons stage stages ih =>
    rw [frontier] at h
    split at h
    · rename_i hstage
      have hstage' : stage.filterMap (openStep done') = [] := by
        rw [List.filterMap_eq_nil_iff] at hstage ⊢
        intro line hline
        rw [openStep_none]
        exact fun q' hq' => hsub _ (openStep_none.mp (hstage line hline) q' hq')
      rw [frontier, hstage']
      exact ih h
    · rename_i hstage
      rw [← hstage] at h
      obtain ⟨line, hline, hopen⟩ := List.mem_filterMap.mp h
      have hmem : q ∈ stage.filterMap (openStep done') :=
        List.mem_filterMap.mpr ⟨line, hline, openStep_mono hsub hopen hq⟩
      rw [frontier]
      split
      · rename_i hnil
        simp [hnil] at hmem
      · rename_i hcons
        exact hcons ▸ hmem

theorem frontier_sublist (stages : List Stage) :
    (frontier done stages).Sublist stages.flatten.flatten := by
  have hstage : ∀ stage : Stage, (stage.filterMap (openStep done)).Sublist stage.flatten := by
    intro stage
    induction stage with
    | nil => simp
    | cons line stage ih =>
      cases hopen : openStep done line with
      | none =>
        rw [List.filterMap_cons_none hopen, List.flatten_cons]
        exact ih.trans (List.sublist_append_right _ _)
      | some q =>
        rw [List.filterMap_cons_some hopen, List.flatten_cons]
        exact (List.singleton_sublist.mpr (mem_of_openStep hopen).1).append ih
  induction stages with
  | nil => simp [frontier]
  | cons stage stages ih =>
    rw [List.flatten_cons, List.flatten_append, frontier]
    split
    · exact ih.trans (List.sublist_append_right _ _)
    · rename_i hcons
      exact hcons ▸ (hstage stage).trans (List.sublist_append_left _ _)

end Frontier

/-! ## Walks with direct values -/

def FlowStep.sees (q : FlowStep) : Seen := (q.id, .ok q.value)

namespace View
variable {V : View} {done : String → Bool}

def answer (V : View) (q : FlowStep) : Option StepResponse :=
  match V.target with
  | none => some (V.discovered q)
  | some t => if t = V.hash q.id then some (V.targeted q) else none

theorem caught_react (q : FlowStep) : Group.caught (V.react q) = some (V.answer q).toList := by
  cases ht : V.target with
  | none => simp [react, answer, ht, Group.caught]
  | some t => by_cases hid : t = V.hash q.id <;> simp [react, answer, ht, hid, Group.caught]

/-- The memos are the values of the steps that are done. -/
def Recalls (V : View) (done : String → Bool) (steps : List FlowStep) : Prop :=
  ∀ q ∈ steps, V.memo q.id = if done q.id then some ⟨q.value, none⟩ else none

theorem Recalls.mono {steps steps' : List FlowStep} (h : V.Recalls done steps)
    (hsub : ∀ q ∈ steps', q ∈ steps) : V.Recalls done steps' :=
  fun q hq => h q (hsub q hq)

theorem step_done {q : FlowStep} (h : V.memo q.id = some ⟨q.value, none⟩) (r : Unit)
    (seen : List Seen) : V.step q r seen = ⟨.ok q.value, seen, []⟩ := by
  rw [step, h]
  rfl

theorem step_open {q : FlowStep} (h : V.memo q.id = none) (r : Unit) (seen : List Seen) :
    V.step q r seen = ⟨.intr (V.react q), seen, V.handlerCalls q⟩ := by
  rw [step, h]

theorem walk_line_done {l : Line} {v : Json} {steps : List FlowStep}
    (hd : l.direct = some (v, steps)) (hV : V.Recalls done steps)
    (hdone : openStep done steps = none) (seen : List Seen) :
    l.walk V () seen = ⟨.ok v, seen ++ steps.map FlowStep.sees, []⟩ := by
  induction l generalizing steps seen with
  | ret v' =>
    obtain ⟨rfl, rfl⟩ : v' = v ∧ [] = steps := by simpa [Line.direct] using hd
    simp [Line.walk]
  | raise e => simp [Line.direct] at hd
  | step q k ih =>
    obtain ⟨rest, hk, rfl⟩ := Line.direct_step hd
    have hall := openStep_none.mp hdone
    have hmemo : V.memo q.id = some ⟨q.value, none⟩ := by simp [hV q (by simp), hall q (by simp)]
    have hrest := ih _ hk (hV.mono fun q' hq' => List.mem_cons_of_mem _ hq')
      (openStep_none.mpr fun q' hq' => hall q' (List.mem_cons_of_mem _ hq'))
      (seen ++ [(q.id, .ok q.value)])
    have hstep : (V.step q () seen).outcome = .ok q.value := by rw [step_done hmemo]
    rw [Line.walk, Comp.andThen_ok hstep, step_done hmemo, noted, hrest]
    simp [FlowStep.sees, Done.after]

theorem walk_line_open {l : Line} {v : Json} {steps : List FlowStep}
    (hd : l.direct = some (v, steps)) (hV : V.Recalls done steps) {q : FlowStep}
    (hopen : openStep done steps = some q) (seen : List Seen) :
    ∃ seen', l.walk V () seen = ⟨.intr (V.react q), seen', V.handlerCalls q⟩ := by
  induction l generalizing steps seen with
  | ret v' =>
    obtain ⟨rfl, rfl⟩ : v' = v ∧ [] = steps := by simpa [Line.direct] using hd
    simp [openStep] at hopen
  | raise e => simp [Line.direct] at hd
  | step q' k ih =>
    obtain ⟨rest, hk, rfl⟩ := Line.direct_step hd
    have hmemo := hV q' (by simp)
    cases hdone : done q'.id with
    | false =>
      obtain rfl : q' = q := by simpa [openStep, hdone] using hopen
      rw [hdone] at hmemo
      have hstep : (V.step q' () seen).outcome = .intr (V.react q') := by rw [step_open hmemo]
      rw [Line.walk, Comp.andThen_intr hstep, step_open hmemo]
      exact ⟨_, rfl⟩
    | true =>
      rw [hdone] at hmemo
      have hrest : openStep done rest = some q := by simpa [openStep, hdone] using hopen
      obtain ⟨seen', hwalk⟩ := ih _ hk (hV.mono fun q hq => List.mem_cons_of_mem _ hq) hrest
        (seen ++ [(q'.id, .ok q'.value)])
      have hstep : (V.step q' () seen).outcome = .ok q'.value := by rw [step_done hmemo]
      rw [Line.walk, Comp.andThen_ok hstep, step_done hmemo, noted, hwalk]
      exact ⟨_, rfl⟩

theorem walk_lines {lines : List Line} {ds : List (Json × List FlowStep)}
    (hds : List.Forall₂ (fun l d => l.direct = some d) lines ds)
    (hV : V.Recalls done (ds.flatMap Prod.snd)) (outputs : List Json)
    (responses : List StepResponse) (seen : List Seen) :
    ∃ outputs' seen', collect Group.caught (fun _ => []) (lines.map fun l => l.walk V) outputs
        responses () seen =
      ⟨.ok (outputs', responses ++
          ((ds.map Prod.snd).filterMap (openStep done)).filterMap V.answer),
        seen', ((ds.map Prod.snd).filterMap (openStep done)).flatMap V.handlerCalls⟩ ∧
      ((ds.map Prod.snd).filterMap (openStep done) = [] →
        outputs' = outputs ++ ds.map Prod.fst ∧
          seen' = seen ++ (ds.flatMap Prod.snd).map FlowStep.sees) := by
  induction hds generalizing outputs responses seen with
  | nil => exact ⟨outputs, seen, by simp [collect], by simp⟩
  | @cons l d lines ds hd hds ih =>
    obtain ⟨v, steps⟩ := d
    have hline : V.Recalls done steps := hV.mono fun q hq => by simp [hq]
    have hlines : V.Recalls done (ds.flatMap Prod.snd) := hV.mono fun q hq => by
      rw [List.flatMap_cons]
      exact List.mem_append_right _ hq
    cases hopen : openStep done steps with
    | none =>
      have hwalk := walk_line_done hd hline hopen seen
      obtain ⟨outputs', seen', hrun, hdone⟩ := ih hlines (outputs ++ [v]) responses
        (seen ++ steps.map FlowStep.sees)
      refine ⟨outputs', seen', ?_, fun hnil => ?_⟩
      · rw [List.map_cons, collect_ok (by rw [hwalk]), hwalk, hrun]
        simp [Done.after, hopen]
      · obtain ⟨rfl, rfl⟩ := hdone (by simpa [hopen] using hnil)
        simp
    | some q =>
      obtain ⟨seen₁, hwalk⟩ := walk_line_open hd hline hopen seen
      obtain ⟨outputs', seen', hrun, -⟩ :=
        ih hlines outputs (responses ++ (V.answer q).toList) seen₁
      refine ⟨outputs', seen', ?_, fun hnil => ?_⟩
      · rw [List.map_cons, collect_absorbed (by rw [hwalk]) (caught_react q), hwalk, hrun]
        cases ha : V.answer q <;> simp [Done.after, hopen, ha]
      · simp [hopen] at hnil

theorem group_walk {walks : List (Walk Json)} (mode : ParallelMode) {outputs : List Json}
    {responses : List StepResponse} {seen seen' : List Seen} {calls : List (String × Json)}
    (h : collect Group.caught (fun _ => []) walks [] [] () seen =
      ⟨.ok (outputs, responses), seen', calls⟩) :
    Group.walk walks mode () seen = ⟨if responses = [] then .ok outputs
      else .intr (.response (responses.map fun r => r.setParallelMode mode)), seen', calls⟩ := by
  rw [Group.walk, Comp.bind_ok (by rw [h]), h]
  cases responses <;> simp [Done.after]

theorem react_of_answer {q : FlowStep} {a : StepResponse} (h : V.answer q = some a) :
    V.react q = .response [a] := by
  cases ht : V.target with
  | none =>
    obtain rfl : V.discovered q = a := by simpa [answer, ht] using h
    simp [react, ht]
  | some t =>
    by_cases hid : t = V.hash q.id
    · obtain rfl : V.targeted q = a := by simpa [answer, ht, hid] using h
      simp [react, ht, hid]
    · simp [answer, ht, hid] at h

theorem frontier_stage {stage : Stage} {stages : List Stage}
    (h : stage.filterMap (openStep done) = []) :
    frontier done (stage :: stages) = frontier done stages := by
  rw [frontier, h]

theorem frontier_open {stage : Stage} {stages : List Stage}
    (h : stage.filterMap (openStep done) ≠ []) :
    frontier done (stage :: stages) = stage.filterMap (openStep done) := by
  rw [frontier]
  split
  · exact absurd ‹_› h
  · exact Eq.symm ‹_›

theorem mem_flatten_cons {stage : Stage} {stages : List Stage} {q : FlowStep} :
    q ∈ (stage :: stages).flatten.flatten ↔ q ∈ stage.flatten ∨ q ∈ stages.flatten.flatten := by
  rw [List.flatten_cons, List.flatten_append, List.mem_append]

theorem walk_complete {p : Flow} {v : Json} {stages : List Stage} (hp : p.Follows v stages)
    (hV : V.Recalls done stages.flatten.flatten) (hdone : frontier done stages = [])
    (seen : List Seen) :
    p.walk V () seen = ⟨.ok v, seen ++ stages.flatten.flatten.map FlowStep.sees, []⟩ := by
  induction hp generalizing seen with
  | ret v => simp [Flow.walk]
  | @step q k v stages hk ih =>
    have hall := frontier_eq_nil.mp hdone
    have hmemo : V.memo q.id = some ⟨q.value, none⟩ := by simp [hV q (by simp), hall q (by simp)]
    have hrest := ih (hV.mono fun q' hq' => by simpa using .inr (by simpa using hq'))
      (frontier_eq_nil.mpr fun q' hq' => hall q' (by simpa using .inr (by simpa using hq')))
      (seen ++ [(q.id, .ok q.value)])
    have hstep : (V.step q () seen).outcome = .ok q.value := by rw [step_done hmemo]
    rw [Flow.walk, Comp.andThen_ok hstep, step_done hmemo, noted, hrest]
    simp [FlowStep.sees, Done.after]
  | @parallel lines mode k ds v stages hds hk ih =>
    have hstage : (ds.map Prod.snd).filterMap (openStep done) = [] := by
      by_contra hopen
      exact hopen (frontier_open hopen ▸ hdone)
    have hsteps : (ds.map Prod.snd).flatten = ds.flatMap Prod.snd := rfl
    obtain ⟨outputs, seen', hrun, hcomplete⟩ := walk_lines hds
      (hV.mono fun q hq => mem_flatten_cons.mpr (.inl hq)) [] [] seen
    obtain ⟨rfl, rfl⟩ := hcomplete hstage
    have hgroup := group_walk mode hrun
    simp only [hstage, List.filterMap_nil, List.append_nil, if_true, List.flatMap_nil,
      List.nil_append] at hgroup
    have hrest := ih (hV.mono fun q hq => mem_flatten_cons.mpr (.inr hq))
      (frontier_stage hstage ▸ hdone) (seen ++ (ds.flatMap Prod.snd).map FlowStep.sees)
    rw [Flow.walk, Comp.andThen_ok (by rw [hgroup]), hgroup, hrest]
    simp [Done.after, ← hsteps]

theorem walk_asks {p : Flow} {v : Json} {stages : List Stage} (hp : p.Follows v stages)
    (hV : V.Recalls done stages.flatten.flatten)
    (hanswers : (frontier done stages).filterMap V.answer ≠ []) (seen : List Seen) :
    ∃ mode seen', p.walk V () seen =
      ⟨.intr (.response (((frontier done stages).filterMap V.answer).map
        fun r => r.setParallelMode mode)), seen',
          (frontier done stages).flatMap V.handlerCalls⟩ := by
  induction hp generalizing seen with
  | ret v => simp [frontier] at hanswers
  | @step q k v stages hk ih =>
    have hmemo := hV q (by simp)
    cases hdone : done q.id with
    | true =>
      rw [hdone] at hmemo
      have hstage : ([[q]] : Stage).filterMap (openStep done) = [] := by simp [openStep, hdone]
      rw [frontier_stage hstage] at hanswers ⊢
      obtain ⟨mode, seen', hwalk⟩ := ih
        (hV.mono fun q' hq' => mem_flatten_cons.mpr (.inr hq')) hanswers
        (seen ++ [(q.id, .ok q.value)])
      have hstep : (V.step q () seen).outcome = .ok q.value := by rw [step_done hmemo]
      rw [Flow.walk, Comp.andThen_ok hstep, step_done hmemo, noted, hwalk]
      exact ⟨mode, seen', rfl⟩
    | false =>
      rw [hdone] at hmemo
      have hstage : ([[q]] : Stage).filterMap (openStep done) = [q] := by simp [openStep, hdone]
      rw [frontier_open (by simp [hstage]), hstage] at hanswers ⊢
      cases ha : V.answer q with
      | none => simp [ha] at hanswers
      | some a =>
        have hstep : (V.step q () seen).outcome = .intr (V.react q) := by rw [step_open hmemo]
        rw [Flow.walk, Comp.andThen_intr hstep, step_open hmemo, react_of_answer ha]
        exact ⟨.wait, seen, by simp [ha, StepResponse.setParallelMode, StepInfo.setParallelMode]⟩
  | @parallel lines mode k ds v stages hds hk ih =>
    obtain ⟨outputs, seen', hrun, hcomplete⟩ := walk_lines hds
      (hV.mono fun q hq => mem_flatten_cons.mpr (.inl hq)) [] [] seen
    have hgroup := group_walk mode hrun
    by_cases hstage : (ds.map Prod.snd).filterMap (openStep done) = []
    · rw [frontier_stage hstage] at hanswers ⊢
      obtain ⟨mode', seen'', hwalk⟩ := ih
        (hV.mono fun q hq => mem_flatten_cons.mpr (.inr hq)) hanswers seen'
      obtain ⟨rfl, -⟩ := hcomplete hstage
      simp only [hstage, List.filterMap_nil, List.append_nil, if_true, List.flatMap_nil,
        List.nil_append] at hgroup
      rw [Flow.walk, Comp.andThen_ok (by rw [hgroup]), hgroup, hwalk]
      exact ⟨mode', seen'', rfl⟩
    · rw [frontier_open hstage] at hanswers ⊢
      rw [List.nil_append, if_neg hanswers] at hgroup
      rw [Flow.walk, Comp.andThen_intr (by rw [hgroup]), hgroup]
      exact ⟨mode, seen', rfl⟩

end View

end Inngest
