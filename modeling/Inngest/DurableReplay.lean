import Inngest.Durable

/-!
# The engine replays durable code

A request of durable code comes as far as the replay with the answers in its
memos. It ends with the result of the code, or with the responses of the open
questions at which the replay pauses.
-/

set_option autoImplicit false

namespace Inngest.Durable
open ServerLib Errors StepLib Effect Engine Replay History

variable {σ α β : Type} {env : Env σ} {f : Answers} {ω : Question → Except PyError Json}

/-! ## Computations that ask questions -/

structure Performed (env : Env σ) (f : Answers) (rest : List Question)
    (o : Outcome PyError Interrupt α) (ids : List String) (d : Run σ α) : Prop where
  outcome : d.outcome = o
  entered : entered d.log = ids
  fresh : Fresh env.hash f rest d.state

def Performs (env : Env σ) (f : Answers) (qs : List Question) (inParallel : Bool)
    (o : Outcome PyError Interrupt α) (ids : List String) (m : Exec σ α) : Prop :=
  ∀ (r : Scope) (s : State σ) (rest : List Question), r.inStep = false →
    r.inParallel = inParallel → Apart env.hash (qs ++ rest) →
    Fresh env.hash f (qs ++ rest) s → Performed env f rest o ids (m r s)

section Rules
variable {qs qs' rest : List Question} {b : Bool} {o : Outcome PyError Interrupt α}
  {ids ids' : List String} {m : Exec σ α}

theorem Performed.after {d : Run σ α} {l : List Mark} (h : Performed env f rest o ids d)
    (hl : History.entered l = ids') : Performed env f rest o (ids' ++ ids) (d.after l) :=
  ⟨h.outcome, by rw [Done.after_log, entered_append, hl, h.entered], h.fresh⟩

theorem performs_done (a : α) : Performs env f [] b (.ok a) [] (Comp.done a) :=
  fun _ _ _ _ _ _ hs => ⟨rfl, rfl, hs⟩

theorem performs_raise (e : PyError) :
    Performs env f [] b (.exc e) [] (Comp.raise e : Exec σ α) :=
  fun _ _ _ _ _ _ hs => ⟨rfl, rfl, hs⟩

theorem Performs.within {g : Scope → Scope} (h : Performs env f qs b o ids m)
    (hstep : ∀ r, (g r).inStep = r.inStep) (hparallel : ∀ r, (g r).inParallel = r.inParallel) :
    Performs env f qs b o ids (Comp.within g m) :=
  fun r s rest hr hb => h (g r) s rest ((hstep r).trans hr) ((hparallel r).trans hb)

theorem Performs.andThen {k : Except PyError α → Exec σ β} {x : Except PyError α}
    {o' : Outcome PyError Interrupt β} (hm : Performs env f qs b (.ofExcept x) ids m)
    (hk : Performs env f qs' b o' ids' (k x)) :
    Performs env f (qs ++ qs') b o' (ids ++ ids') (m.andThen k) := by
  intro r s rest hr hb ha hs
  rw [List.append_assoc] at ha hs
  have hd := hm r s (qs' ++ rest) hr hb ha hs
  have hrest : Apart env.hash (qs' ++ rest) := by
    rw [Apart, List.map_append] at ha
    exact (List.nodup_append.mp ha).2.1
  have hnext := (hk r (m r s).state rest hr hb hrest hd.fresh).after hd.entered
  cases x with
  | ok a => rwa [Comp.andThen_ok hd.outcome]
  | error e => rwa [Comp.andThen_exc hd.outcome]

theorem Performs.andThen_intr {k : Except PyError α → Exec σ β} {i : Interrupt}
    (hm : Performs env f qs b (.intr i) ids m) (qs' : List Question) :
    Performs env f (qs ++ qs') b (.intr i : Outcome PyError Interrupt β) ids (m.andThen k) := by
  intro r s rest hr hb ha hs
  rw [List.append_assoc] at ha hs
  have hd := hm r s (qs' ++ rest) hr hb ha hs
  rw [Comp.andThen_intr hd.outcome]
  exact ⟨rfl, hd.entered, hd.fresh.mono (List.subset_append_right _ _)⟩

end Rules

/-! ## Questions and lines -/

section Ask
variable {q : Question} {b : Bool} (hser : env.serializer = none)
include hser

theorem performs_answered (hq : q.Callable) {x : Except PyError Json} (hx : f q = some x) :
    Performs env f [q] b (.ofExcept x) [] (q.perform env) := by
  intro r s rest hr _ ha hs
  obtain ⟨s', hmemos, hcounts, h⟩ := asked_perform hser hq hr (hs.counts q (by simp))
  rw [hs.memos q (by simp), hx] at h
  obtain ⟨ho, hl⟩ := h.answered x rfl
  exact ⟨ho, hl, h.fresh hmemos hcounts ha hs⟩

theorem performs_open (hq : q.Callable) (hx : f q = none) :
    Performs env f [q] b (.intr (react env b q)) (entersAt env b q) (q.perform env) := by
  rintro r s rest hr rfl ha hs
  obtain ⟨s', hmemos, hcounts, h⟩ := asked_perform hser hq hr (hs.counts q (by simp))
  rw [hs.memos q (by simp), hx] at h
  obtain ⟨ho, hl⟩ := h.opened rfl
  exact ⟨ho, hl, h.fresh hmemos hcounts ha hs⟩

omit hser in
theorem body_interp (q : Question) (k : Except PyError Json → Body σ) :
    (q.body k).interp env =
      (q.perform env).andThen fun x => Comp.within Scope.next ((k x).interp env) := by
  cases q <;> rfl

theorem performs_line {l : Line} (hknown : Known ω f (l.asked ω))
    (hcall : ∀ q ∈ l.asked ω, q.Callable) :
    Performs env f (l.asked ω) true (lineEnd env (l.replay f)) (lineHandlers env (l.replay f))
      ((lineBody l).interp env) := by
  induction l with
  | ret v => exact performs_done v
  | ask q next ih =>
    have hq : q.Callable := hcall q (by simp [Line.asked])
    have hrest : (next (ω q)).asked ω ⊆ (Line.ask q next).asked ω := by
      rw [Line.asked]
      exact List.subset_cons_self _ _
    rw [lineBody, body_interp]
    cases hx : f q with
    | none =>
      rw [Line.replay, hx]
      exact (performs_open hser hq hx).andThen_intr _
    | some x =>
      obtain rfl := hknown.eq (by simp [Line.asked]) hx
      rw [Line.replay, hx]
      have hnext := ih (ω q) (hknown.mono hrest) fun p hp => hcall p (hrest hp)
      exact (performs_answered hser hq hx).andThen (hnext.within (fun _ => rfl) fun _ => rfl)

end Ask

/-! ## Groups -/

theorem caught_react (q : Question) :
    Group.caught (react env true q) = some (respond env true q).toList := by
  rw [react]
  cases respond env true q <;> rfl

theorem performs_collect {left : List StepResponse → List Mark} {ms : List (Exec σ Json)}
    {lines : List Line}
    (hms : List.Forall₂ (fun m l => Performs env f (l.asked ω) true (lineEnd env (l.replay f))
      (lineHandlers env (l.replay f)) m) ms lines)
    (outputs : List Json) (responses : List StepResponse) :
    Performs env f (lines.flatMap (Line.asked ω)) true
      (.ok (outputs ++ lines.filterMap (Line.value? f),
        responses ++ (lines.filterMap (Line.open? f)).filterMap (respond env true)))
      ((lines.filterMap (Line.open? f)).flatMap (entersAt env true))
      (collect Group.caught left ms outputs responses) := by
  induction hms generalizing outputs responses with
  | nil =>
    simp only [List.filterMap_nil, List.append_nil, List.flatMap_nil]
    exact performs_done _
  | @cons m l ms lines hm hms ih =>
    intro r s rest hr hb ha hs
    rw [List.flatMap_cons, List.append_assoc] at ha hs
    have hd := hm r s (lines.flatMap (Line.asked ω) ++ rest) hr hb ha hs
    have hrest : Apart env.hash (lines.flatMap (Line.asked ω) ++ rest) := by
      rw [Apart, List.map_append] at ha
      exact (List.nodup_append.mp ha).2.1
    cases hl : l.replay f with
    | ok v =>
      rw [hl] at hd
      have hvalue : l.value? f = some v := by rw [Line.value?, hl]; rfl
      have hopen : l.open? f = none := Line.open?_eq_none.mpr ⟨v, hl⟩
      rw [collect_ok hd.outcome, List.filterMap_cons_some hvalue, List.filterMap_cons_none hopen]
      have hnext := ih (outputs ++ [v]) responses r _ rest hr hb hrest hd.fresh
      rw [List.append_assoc] at hnext
      exact hnext.after hd.entered
    | error q =>
      rw [hl] at hd
      have hvalue : l.value? f = none := by rw [Line.value?, hl]; rfl
      have hopen : l.open? f = some q := Line.open?_eq_some.mpr hl
      rw [collect_absorbed hd.outcome (caught_react q), List.filterMap_cons_none hvalue,
        List.filterMap_cons_some hopen, List.flatMap_cons]
      have hnext := ih outputs (responses ++ (respond env true q).toList) r _ rest hr hb hrest
        hd.fresh
      have hresponses : responses ++ (respond env true q).toList ++
          (lines.filterMap (Line.open? f)).filterMap (respond env true) = responses ++
            (q :: lines.filterMap (Line.open? f)).filterMap (respond env true) := by
        cases ha : respond env true q <;> simp [ha]
      rw [hresponses] at hnext
      exact hnext.after hd.entered

theorem performs_group (hser : env.serializer = none) {lines : List Line} (mode : ParallelMode)
    (hknown : Known ω f (lines.flatMap (Line.asked ω)))
    (hcall : ∀ q ∈ lines.flatMap (Line.asked ω), q.Callable) {b : Bool} :
    Performs env f (lines.flatMap (Line.asked ω)) b
      (if (lines.filterMap (Line.open? f)).filterMap (respond env true) = [] then
        .ok (lines.filterMap (Line.value? f))
      else .intr (.response (responses env (.group mode (lines.filterMap (Line.open? f))))))
      ((lines.filterMap (Line.open? f)).flatMap (entersAt env true))
      (Group.parallel (List.ofFn fun i : Fin lines.length =>
        Comp.within (Scope.callable i) ((lineBody (lines.get i)).interp env)) mode) := by
  have hms : List.Forall₂ (fun m l => Performs env f (l.asked ω) true
      (lineEnd env (l.replay f)) (lineHandlers env (l.replay f)) m)
      (List.ofFn fun i : Fin lines.length =>
        Comp.within (Scope.callable i) ((lineBody (lines.get i)).interp env)) lines := by
    rw [List.forall₂_iff_get]
    refine ⟨by simp, fun i hi hi' => ?_⟩
    simp only [List.get_eq_getElem, List.getElem_ofFn]
    have hsub : (lines[i].asked ω) ⊆ lines.flatMap (Line.asked ω) := fun q hq =>
      List.mem_flatMap.mpr ⟨_, List.getElem_mem hi', hq⟩
    exact (performs_line hser (hknown.mono hsub) fun q hq => hcall q (hsub hq)).within
      (fun _ => rfl) fun _ => rfl
  intro r s rest hr _ ha hs
  have hd : Performed env f rest _ _ (Group.discover _ r.inGroup s) :=
    performs_collect hms [] [] r.inGroup s rest hr rfl ha hs
  rw [List.nil_append, List.nil_append] at hd
  rw [Group.parallel_ok mode hd.outcome]
  exact ⟨rfl, hd.entered, hd.fresh⟩

/-! ## Code -/

/-- At a pause something is responded: nothing is targeted, or an open question. -/
def Answerable (env : Env σ) (x : Except Pause (Except PyError Json)) : Prop :=
  ∀ pause, x = .error pause →
    env.targetHashedId = none ∨ ∃ q ∈ pause.questions, env.targetHashedId = some (env.hash q.id)

theorem respond_untargeted (h : env.targetHashedId = none) (b : Bool) (q : Question) :
    respond env b q = some (response env b q) := by
  rw [respond, if_neg]
  simp [PassedOver, h]

theorem respond_targeted {q : Question} (h : env.targetHashedId = some (env.hash q.id))
    (b : Bool) : respond env b q = some (response env b q) := by
  rw [respond, if_neg]
  simp [PassedOver, h]

theorem respond_ne_nil {pause : Pause} {x : Except Pause (Except PyError Json)} {b : Bool}
    (h : Answerable env x) (hx : x = .error pause) (hne : pause.questions ≠ []) :
    pause.questions.filterMap (respond env b) ≠ [] := by
  have hsome : ∃ q ∈ pause.questions, respond env b q = some (response env b q) := by
    rcases h pause hx with ht | ⟨q, hq, ht⟩
    · obtain ⟨q, hq⟩ := List.exists_mem_of_ne_nil _ hne
      exact ⟨q, hq, respond_untargeted ht b q⟩
    · exact ⟨q, hq, respond_targeted ht b⟩
  obtain ⟨q, hq, hr⟩ := hsome
  exact List.ne_nil_of_mem (List.mem_filterMap.mpr ⟨q, hq, hr⟩)

theorem performs_code (hser : env.serializer = none) {code : Code}
    (hknown : Known ω f (code.asked ω)) (hcall : ∀ q ∈ code.asked ω, q.Callable)
    (hanswerable : Answerable env (code.replay f)) :
    Performs env f (code.asked ω) false (codeEnd env (code.replay f))
      (codeHandlers env (code.replay f)) ((codeBody code).interp env) := by
  induction code with
  | ret x =>
    cases x with
    | ok v => exact performs_done v
    | error e => exact performs_raise e
  | ask q next ih =>
    have hq : q.Callable := hcall q (by simp [Code.asked])
    have hrest : (next (ω q)).asked ω ⊆ (Code.ask q next).asked ω := by
      rw [Code.asked]
      exact List.subset_cons_self _ _
    rw [codeBody, body_interp]
    cases hx : f q with
    | none =>
      have hreplay : (Code.ask q next).replay f = .error (.one q) := by rw [Code.replay, hx]
      have hrespond := respond_ne_nil (b := false) hanswerable hreplay (by simp [Pause.questions])
      obtain ⟨a, ha⟩ : ∃ a, respond env false q = some a := by
        rw [← Option.ne_none_iff_exists']
        intro hn
        simp [Pause.questions, hn] at hrespond
      have hend : Interrupt.response (responses env (.one q)) = react env false q := by
        rw [react, ha, responses, ha]
        rfl
      rw [hreplay, codeEnd, hend]
      exact (performs_open hser hq hx).andThen_intr _
    | some x =>
      obtain rfl := hknown.eq (by simp [Code.asked]) hx
      have hreplay : (Code.ask q next).replay f = (next (ω q)).replay f := by
        rw [Code.replay, hx]
      rw [hreplay] at hanswerable ⊢
      have hnext := ih (ω q) (hknown.mono hrest) (fun p hp => hcall p (hrest hp)) hanswerable
      exact (performs_answered hser hq hx).andThen (hnext.within (fun _ => rfl) fun _ => rfl)
  | group mode lines next ih =>
    rw [Code.asked_group] at hknown hcall ⊢
    have hlines := hknown.mono (List.subset_append_left _ _)
    have hgroup := performs_group (b := false) hser mode hlines fun q hq =>
      hcall q (List.mem_append_left _ hq)
    rw [codeBody, Body.interp]
    by_cases ho : lines.filterMap (Line.open? f) = []
    · rw [Code.replay_closed hlines ho] at hanswerable ⊢
      rw [ho, List.filterMap_nil, if_pos rfl, (Line.values_of_not_open hlines ho).1] at hgroup
      have hnext := ih (lines.map (Line.direct ω)) (hknown.mono (List.subset_append_right _ _))
        (fun p hp => hcall p (List.mem_append_right _ hp)) hanswerable
      have hafter := hnext.within (g := Scope.next) (fun _ => rfl) fun _ => rfl
      have hclosed : Performs env f (lines.flatMap (Line.asked ω)) false
          (.ofExcept (.ok (lines.map (Line.direct ω)))) [] (Group.parallel _ mode) := hgroup
      have hended : entered [Mark.groupEnded
          (Body.completes lines.length (.ok (lines.map (Line.direct ω))))] = [] := rfl
      rw [← List.nil_append (codeHandlers _ _)]
      refine hclosed.andThen (fun r s rest hr hb ha hs => ?_)
      exact (hafter r s rest hr hb ha hs).after hended
    · have hreplay := Code.replay_open mode next ho
      have hresponds := respond_ne_nil (b := true) hanswerable hreplay ho
      rw [Pause.questions] at hresponds
      rw [if_neg hresponds] at hgroup
      rw [hreplay]
      exact hgroup.andThen_intr _

/-! ## Requests -/

section Request
variable {fn : Context → Body σ} {code : Code} {inv : Invocation σ} {ctx : Context}

theorem prepared_fresh (hp : (prepared env inv).outcome = .ok (.ok ctx))
    (hmemos : ∀ q ∈ code.asked ω, q.answer env.hash (prepared env inv).state.memos = f q) :
    Fresh env.hash f (code.asked ω) (prepared env inv).state := by
  have hcounts : (prepared env inv).state.counts = fun _ => 0 := by
    have hd := prepared_done env inv
    generalize prepared env inv = d at hp hd
    cases hd with
    | refused => simp at hp
    | hookFailed => simp at hp
    | replaying _ _ hc => exact hc
    | fresh _ _ hc => exact hc
  exact ⟨fun q _ => by rw [hcounts], hmemos⟩

theorem request_replays (outputType : Option OutputType) (hser : env.serializer = none)
    (hfn : ∀ ctx, fn ctx = codeBody code) (hp : (prepared env inv).outcome = .ok (.ok ctx))
    (hsilent : ∀ s, Execution.afterError env Scope.top s = none)
    (hmemos : ∀ q ∈ code.asked ω, q.answer env.hash (prepared env inv).state.memos = f q)
    (hknown : Known ω f (code.asked ω)) (hcall : ∀ q ∈ code.asked ω, q.Callable)
    (hapart : Apart env.hash (code.asked ω)) (hanswerable : Answerable env (code.replay f)) :
    (request env fn outputType inv).outcome = .ok (resultFor env (code.replay f)) ∧
      entered (request env fn outputType inv).log = codeHandlers env (code.replay f) := by
  have hfresh := prepared_fresh hp hmemos
  have hd := performs_code hser hknown hcall hanswerable Scope.top (prepared env inv).state []
    rfl rfl (by rwa [List.append_nil]) (by rwa [List.append_nil])
  have hcode : codeRun env fn inv ctx =
      (codeBody code).interp env Scope.top (prepared env inv).state := by
    rw [codeRun, hfn]
  rw [← hcode] at hd
  constructor
  · refine request_outcome fn outputType hp ?_
    rw [hsilent, hd.outcome]
    cases code.replay f with
    | ok x =>
      cases x with
      | ok v => simp [codeEnd, Outcome.ofExcept, Step.serialized, Env.serialize, hser,
          Execution.resultOf, Execution.unlessError, resultFor]
      | error e => rfl
    | error pause => rfl
  · have hlog : entered (request env fn outputType inv).log =
        entered (codeRun env fn inv ctx).log := filterMap_request hp fun _ _ => rfl
    exact hlog.trans hd.entered

end Request

end Inngest.Durable
