import Inngest.DurableReplay
import Inngest.ReplayIdentity

/-!
# An executor of durable code

It sends one request at a time and keeps what is reported. Planned steps are
targeted in any order, with memos from anywhere between the plan and now, and
steps that wait for something outside are resolved at any time. Each request
leaves the record right when it was right before.
-/

set_option autoImplicit false

namespace Inngest.Durable
open ServerLib Errors StepLib Effect Engine Replay History
open ReplayIdentity (Sent)
open Transition (Machine)

variable {σ : Type}

/-- A function whose body is durable code. What a waiting step is resolved with
is a matter of its ID: it happens once. -/
structure App (σ : Type) where
  id : String
  hash : String → String
  loads : String → Option Json
  fn : Context → Body σ
  outputType : Option OutputType
  code : Code
  resolve : String → Json
  fn_eq : ∀ ctx, fn ctx = codeBody code

namespace App
variable (app : App σ)

def raw : Question → Json
  | .run _ value => .obj [("data", value)]
  | .call c => app.resolve (app.hash c.stepId)

def value : Question → Except PyError Json
  | .run _ value => .ok value
  | .call c => Step.remembered c.decode (StepMemos.memo app.loads (app.raw (.call c)))

/-- The steps of the direct run. -/
def asked : List Question := app.code.asked app.value

def result : CallResult :=
  match app.code.direct app.value with
  | .ok v => CallResult.ofOutput v
  | .error e => CallResult.ofError e

def answers (known : Dict Json) : Answers := fun q =>
  q.answer app.hash (StepMemos.fromRaw app.loads known)

/-- The direct run calls no two steps with one ID, and no step method fails
before it reports. -/
structure Proper : Prop where
  apart : Apart app.hash app.asked
  callable : ∀ q ∈ app.asked, q.Callable

end App

/-! ## The executor -/

/-- `planned` has the memos with which each ID was planned, `handlers` the IDs
whose handlers were called, and `answered` the replies with the memos of their
requests. -/
structure Record where
  raw : Dict Json
  planned : List (String × Dict Json)
  waiting : List String
  handlers : List String
  answered : List (Dict Json × Outcome PyError Interrupt CallResult)

def Record.replies (r : Record) : List (Outcome PyError Interrupt CallResult) :=
  r.answered.map Prod.snd

inductive Move (σ : Type) where
  | send (known : Dict Json) (q : Sent σ)
  | resolve (id : String)

def absorbItem (known : Dict Json) (r : Record) (item : CallItem) : Record :=
  match item.step with
  | none => r
  | some info =>
    match info.op with
    | .stepRun =>
      { r with raw := r.raw.insert info.id (.obj [("data", item.output.getD .null)]) }
    | .planned => { r with planned := r.planned ++ [(info.id, known)] }
    | _ => { r with waiting := r.waiting ++ [info.id] }

def absorb (known : Dict Json) (o : Outcome PyError Interrupt CallResult) (r : Record) : Record :=
  match o with
  | .ok result => (result.multi.getD []).foldl (absorbItem known) r
  | _ => r

/-- Which memos go with which target: all of them without one, and with one
those from any time since it was planned. -/
def Record.Admits (r : Record) (known : Dict Json) : Option String → Prop
  | none => known = r.raw
  | some t => r.raw.lookup t = none ∧
    ∃ first, (t, first) ∈ r.planned ∧ Dict.Below first known ∧ Dict.Below known r.raw

namespace App
variable (app : App σ)

/-- The request brings `known`, and its middleware does not interfere. -/
structure Sends (q : Sent σ) (known : Dict Json) : Prop where
  hash : q.env.hash = app.hash
  serializer : q.env.serializer = none
  passed : ∃ ctx, (prepared q.env q.inv).outcome = .ok (.ok ctx)
  memos : ∀ id, (prepared q.env q.inv).state.memos.lookup id =
    (StepMemos.fromRaw app.loads known).lookup id
  silent : ∀ s, Execution.afterError q.env Scope.top s = none

def reply (q : Sent σ) : Run σ CallResult := request q.env app.fn app.outputType q.inv

def executor : Machine Record (Move σ) where
  init := ⟨∅, [], [], [], []⟩
  enabled
    | .send known q, r => app.Sends q known ∧ r.Admits known q.env.targetHashedId
    | .resolve id, r => id ∈ r.waiting ∧ r.raw.lookup id = none
  effect
    | .send known q, r =>
      { absorb known (app.reply q).outcome r with
        handlers := r.handlers ++ entered (app.reply q).log
        answered := r.answered ++ [(known, (app.reply q).outcome)] }
    | .resolve id, r => { r with raw := r.raw.insert id (app.resolve id) }

end App

/-! ## What is known is right -/

namespace App
variable {app : App σ} {known known' : Dict Json} {q q' : Question}

theorem remembered_raw (app : App σ) (q : Question) :
    Step.remembered q.decode (StepMemos.memo app.loads (app.raw q)) = app.value q := by
  cases q with
  | run stepId value =>
    rw [App.raw, StepMemos.memo_data]
    rfl
  | call c => rfl

theorem asked_unique (h : app.Proper) (hq : q ∈ app.asked) (hq' : q' ∈ app.asked)
    (hid : app.hash q.id = app.hash q'.id) : q = q' :=
  List.inj_on_of_nodup_map h.apart hq hq' hid

/-- Every memo is the one of a step of the direct run. -/
def Sound (app : App σ) (known : Dict Json) : Prop :=
  ∀ id v, known.lookup id = some v → ∃ q ∈ app.asked, app.hash q.id = id ∧ v = app.raw q

theorem Sound.below (h : app.Sound known') (hb : Dict.Below known known') : app.Sound known :=
  fun id v hv => h id v (hb id v hv)

theorem answers_eq (app : App σ) (known : Dict Json) (q : Question) :
    app.answers known q = ((known.lookup (app.hash q.id)).map fun v =>
      Step.remembered q.decode (StepMemos.memo app.loads v)) := by
  rw [answers, Question.answer, StepMemos.lookup_fromRaw, Option.map_map]
  rfl

theorem answers_none : app.answers known q = none ↔ known.lookup (app.hash q.id) = none := by
  rw [answers_eq, Option.map_eq_none_iff]

theorem Sound.lookup (h : app.Sound known) (hp : app.Proper) (hq : q ∈ app.asked) {v : Json}
    (hv : known.lookup (app.hash q.id) = some v) : v = app.raw q := by
  obtain ⟨q', hq', hid, rfl⟩ := h _ _ hv
  rw [asked_unique hp hq' hq hid]

theorem Sound.knows (h : app.Sound known) (hp : app.Proper) :
    Known app.value (app.answers known) app.asked := by
  intro q hq
  cases hv : known.lookup (app.hash q.id) with
  | none => exact .inl (answers_none.mpr hv)
  | some v =>
    right
    rw [answers_eq, hv, h.lookup hp hq hv, Option.map_some, remembered_raw]

def At (app : App σ) (known : Dict Json) (q : Question) : Prop :=
  ∃ pause, app.code.replay (app.answers known) = .error pause ∧ q ∈ pause.questions

theorem At.open (h : app.At known q) (hs : app.Sound known) (hp : app.Proper) :
    q ∈ app.asked ∧ known.lookup (app.hash q.id) = none := by
  obtain ⟨pause, hpause, hq⟩ := h
  rcases Code.replay_cases (hs.knows hp) with ⟨hok, -⟩ | ⟨pause', hpause', -, hsub, hnone⟩
  · rw [hpause] at hok
    cases hok
  · obtain rfl := Except.error.inj (hpause.symm.trans hpause')
    exact ⟨hsub.subset hq, answers_none.mp (hnone q hq)⟩

theorem At.later (h : app.At known q) (hs : app.Sound known') (hp : app.Proper)
    (hb : Dict.Below known known') (hn : known'.lookup (app.hash q.id) = none) :
    app.At known' q := by
  obtain ⟨pause, hpause, hq⟩ := h
  refine Code.replay_mono ((hs.below hb).knows hp) (hs.knows hp) (fun p _ hp' => ?_) hpause hq
    (answers_none.mpr hn)
  rw [Ne, answers_none] at hp' ⊢
  obtain ⟨v, hv⟩ := Option.ne_none_iff_exists'.mp hp'
  rw [hb _ _ hv]
  exact Option.some_ne_none v

end App

/-! ## Responses -/

section Responses
variable {env : Env σ} {b : Bool} {q : Question} {mode : ParallelMode}

def ranIn (r : StepResponse) : List String := if r.step.op = .stepRun then [r.step.id] else []

theorem respond_eq {response : StepResponse} (h : respond env b q = some response) :
    response = Durable.response env b q := by
  rw [respond] at h
  split at h
  · cases h
  · exact (Option.some.inj h).symm

theorem response_id : (response env b q).step.id = env.hash q.id := by
  cases q with
  | run stepId value =>
    rw [response]
    split <;> rfl
  | call c => rfl

theorem response_error : (response env b q).originalError = none := by
  cases q with
  | run stepId value =>
    rw [response]
    split <;> rfl
  | call c => rfl

theorem response_op :
    (Enters env b q → (response env b q).step.op = .stepRun ∧
      ∃ stepId value, q = .run stepId value ∧ (response env b q).output = value) ∧
    (¬ Enters env b q → (response env b q).step.op ≠ .stepRun ∧
      ((response env b q).step.op = .planned ↔ q.isRun = true)) := by
  cases q with
  | run stepId value =>
    rw [response]
    constructor
    · intro h
      rw [if_pos h]
      exact ⟨rfl, stepId, value, rfl, rfl⟩
    · intro h
      rw [if_neg h]
      exact ⟨by simp [StepResponse.ofStep], by simp [StepResponse.ofStep, Question.isRun]⟩
  | call c =>
    refine ⟨fun h => absurd h.1 (by simp [Question.isRun]), fun _ => ⟨c.not_stepRun, ?_⟩⟩
    have hop : (response env b (.call c)).step.op = c.op := rfl
    rw [hop]
    rcases c.awaits with h | h | h | h <;> simp [h, Question.isRun]

theorem passedOver_not_enters (h : PassedOver env q) : ¬ Enters env b q := by
  rintro ⟨-, ht | ⟨ht, -⟩⟩
  · exact h.2 ht
  · simp [ht, PassedOver] at h

theorem entersAt_eq : entersAt env b q = (respond env b q).toList.flatMap ranIn := by
  by_cases hp : PassedOver env q
  · rw [entersAt, if_neg (passedOver_not_enters hp), respond, if_pos hp]
    rfl
  · rw [respond, if_neg hp, entersAt]
    by_cases he : Enters env b q
    · simp [he, ranIn, (response_op.1 he).1, response_id]
    · simp [he, ranIn, (response_op.2 he).1]

@[simp] theorem ranIn_setParallelMode (r : StepResponse) :
    ranIn (r.setParallelMode mode) = ranIn r := by
  simp [ranIn, StepResponse.setParallelMode]

theorem handlers_eq (pause : Pause) :
    handlers env pause = (responses env pause).flatMap ranIn := by
  cases pause with
  | one q => exact entersAt_eq
  | group mode qs =>
    rw [handlers, responses, List.flatMap_map]
    simp only [ranIn_setParallelMode]
    induction qs with
    | nil => rfl
    | cons q qs ih =>
      rw [List.flatMap_cons, ih, entersAt_eq]
      cases hr : respond env true q <;> simp [hr]

theorem of_mem_responses {pause : Pause} {x : StepResponse} (h : x ∈ responses env pause) :
    ∃ q ∈ pause.questions, ∃ b mode, respond env b q = some (response env b q) ∧
      x = (response env b q).setParallelMode mode := by
  cases pause with
  | one q =>
    have hq : respond env false q = some x := by simpa [responses] using h
    obtain rfl := respond_eq hq
    refine ⟨q, by simp [Pause.questions], false, .wait, hq, ?_⟩
    simp [StepResponse.setParallelMode, StepInfo.setParallelMode]
  | group mode qs =>
    obtain ⟨y, hy, rfl⟩ := List.mem_map.mp h
    obtain ⟨q, hq, hr⟩ := List.mem_filterMap.mp hy
    obtain rfl := respond_eq hr
    exact ⟨q, hq, true, mode, hr, rfl⟩

theorem responses_ids (pause : Pause) :
    ((responses env pause).map fun x => x.step.id).Sublist
      (pause.questions.map fun q => env.hash q.id) := by
  have hids : ∀ (b : Bool) (qs : List Question),
      ((qs.filterMap (respond env b)).map fun x => x.step.id).Sublist
        (qs.map fun q => env.hash q.id) := by
    intro b qs
    induction qs with
    | nil => exact List.Sublist.refl _
    | cons q qs ih =>
      cases hr : respond env b q with
      | none =>
        rw [List.filterMap_cons_none hr]
        exact ih.cons _
      | some x =>
        obtain rfl := respond_eq hr
        rw [List.filterMap_cons_some hr, List.map_cons, List.map_cons, response_id]
        exact ih.cons_cons _
  cases pause with
  | one q =>
    have := hids false [q]
    cases hr : respond env false q with
    | none => simp [responses, hr]
    | some x => simpa [responses, Pause.questions, hr] using this
  | group mode qs =>
    have := hids true qs
    simpa [responses, Pause.questions, List.map_map, Function.comp_def,
      StepResponse.setParallelMode] using this

end Responses

/-! ## What the executor keeps -/

namespace App
variable {app : App σ} {known : Dict Json} {r : Record} {q : Question} {item : CallItem}
  {handlers : List String}

/-- An item tells of a step at which the replay with `known` pauses. -/
inductive Reported (app : App σ) (known : Dict Json) : Question → CallItem → Prop
  | ran {stepId : String} {value : Json} {info : StepInfo} :
      app.At known (.run stepId value) → info.id = app.hash stepId → info.op = .stepRun →
      Reported app known (.run stepId value) ⟨none, some value, some info⟩
  | planned {q : Question} {info : StepInfo} {output : Option Json} :
      app.At known q → info.id = app.hash q.id → info.op = .planned → q.isRun = true →
      Reported app known q ⟨none, output, some info⟩
  | waiting {q : Question} {info : StepInfo} {output : Option Json} :
      app.At known q → info.id = app.hash q.id → info.op ≠ .stepRun → info.op ≠ .planned →
      q.isRun = false → Reported app known q ⟨none, output, some info⟩

def ranOf (item : CallItem) : List String :=
  item.step.toList.flatMap fun info => if info.op = .stepRun then [info.id] else []

theorem ranOf_itemOf (x : StepResponse) : ranOf (CallResult.itemOf x) = ranIn x := by
  simp [ranOf, CallResult.itemOf, ranIn]

/-- The record is right, and the handlers that were called are those of the
`step.run`s that are memoized. -/
structure Kept (app : App σ) (r : Record) (handlers : List String) : Prop where
  sound : app.Sound r.raw
  planned : ∀ id first, (id, first) ∈ r.planned → Dict.Below first r.raw ∧
    ∃ q, q.isRun = true ∧ app.hash q.id = id ∧ app.At first q
  waiting : ∀ id ∈ r.waiting, ∃ q ∈ app.asked, q.isRun = false ∧ app.hash q.id = id
  nodup : handlers.Nodup
  handlers : ∀ id, id ∈ handlers ↔
    ∃ q ∈ app.asked, q.isRun = true ∧ app.hash q.id = id ∧ r.raw.lookup id ≠ none

theorem absorbItem_ran {info : StepInfo} (known : Dict Json) (r : Record) (value : Json)
    (hop : info.op = .stepRun) : absorbItem known r ⟨none, some value, some info⟩ =
      { r with raw := r.raw.insert info.id (.obj [("data", value)]) } := by
  simp [absorbItem, hop]

theorem absorbItem_planned {info : StepInfo} {output : Option Json} (known : Dict Json)
    (r : Record) (hop : info.op = .planned) : absorbItem known r ⟨none, output, some info⟩ =
      { r with planned := r.planned ++ [(info.id, known)] } := by
  simp [absorbItem, hop]

theorem absorbItem_waiting {info : StepInfo} {output : Option Json} (known : Dict Json)
    (r : Record) (hrun : info.op ≠ .stepRun) (hplanned : info.op ≠ .planned) :
    absorbItem known r ⟨none, output, some info⟩ =
      { r with waiting := r.waiting ++ [info.id] } := by
  cases hop : info.op <;> simp_all [absorbItem]

theorem Kept.insert (hk : app.Kept r handlers) (hp : app.Proper) (hq : q ∈ app.asked)
    (hnone : r.raw.lookup (app.hash q.id) = none) :
    app.Kept { r with raw := r.raw.insert (app.hash q.id) (app.raw q) }
      (handlers ++ if q.isRun then [app.hash q.id] else []) := by
  have hbelow := Dict.below_insert (v := app.raw q) hnone
  have hlookup : ∀ id, (r.raw.insert (app.hash q.id) (app.raw q)).lookup id ≠ none ↔
      id = app.hash q.id ∨ r.raw.lookup id ≠ none := by
    intro id
    by_cases hid : id = app.hash q.id
    · simp [hid]
    · simp [AList.lookup_insert_ne hid, hid]
  refine ⟨fun id v hv => ?_, fun id first hm => ?_, hk.waiting, ?_, fun id => ?_⟩
  · by_cases hid : id = app.hash q.id
    · subst hid
      obtain rfl := Option.some.inj ((AList.lookup_insert _).symm.trans hv)
      exact ⟨q, hq, rfl, rfl⟩
    · rw [AList.lookup_insert_ne hid] at hv
      exact hk.sound id v hv
  · obtain ⟨hfirst, hplan⟩ := hk.planned id first hm
    exact ⟨hfirst.trans hbelow, hplan⟩
  · rw [List.nodup_append]
    refine ⟨hk.nodup, by split <;> simp, ?_⟩
    rintro id hid id' hid' rfl
    obtain ⟨-, -, -, -, hmemo⟩ := (hk.handlers id).mp hid
    split at hid'
    · exact hmemo (List.mem_singleton.mp hid' ▸ hnone)
    · cases hid'
  · rw [List.mem_append, hk.handlers]
    constructor
    · rintro (⟨p, hp, hrun, hid, hmemo⟩ | hid)
      · exact ⟨p, hp, hrun, hid, (hlookup id).mpr (.inr hmemo)⟩
      · split at hid
        · obtain rfl := List.mem_singleton.mp hid
          exact ⟨q, hq, by assumption, rfl, (hlookup _).mpr (.inl rfl)⟩
        · cases hid
    · rintro ⟨p, hp', hrun, hid, hmemo⟩
      rcases (hlookup id).mp hmemo with heq | hmemo
      · obtain rfl := asked_unique hp hp' hq (hid.trans heq)
        right
        rw [if_pos hrun, heq]
        exact List.mem_singleton_self _
      · exact .inl ⟨p, hp', hrun, hid, hmemo⟩

theorem below_absorbItem (known : Dict Json) (hrep : app.Reported known q item)
    (hran : ranOf item ≠ [] → r.raw.lookup (app.hash q.id) = none) :
    Dict.Below r.raw (absorbItem known r item).raw := by
  cases hrep with
  | ran _ hid hop =>
    rw [absorbItem_ran known r _ hop, hid]
    exact Dict.below_insert (hran (by simp [ranOf, hop]))
  | planned _ _ hop => rw [absorbItem_planned known r hop]; exact Dict.Below.refl _
  | waiting _ _ hrun hplan =>
    rw [absorbItem_waiting known r hrun hplan]
    exact Dict.Below.refl _

theorem lookup_absorbItem (known : Dict Json) (hrep : app.Reported known q item) {id : String}
    (hne : id ≠ app.hash q.id) :
    (absorbItem known r item).raw.lookup id = r.raw.lookup id := by
  cases hrep with
  | ran _ hid hop =>
    rw [absorbItem_ran known r _ hop, hid]
    exact AList.lookup_insert_ne hne
  | planned _ _ hop => rw [absorbItem_planned known r hop]
  | waiting _ _ hrun hplan => rw [absorbItem_waiting known r hrun hplan]

theorem Kept.absorbItem (hk : app.Kept r handlers) (hp : app.Proper) (hs : app.Sound known)
    (hb : Dict.Below known r.raw) (hrep : app.Reported known q item)
    (hran : ranOf item ≠ [] → r.raw.lookup (app.hash q.id) = none) :
    app.Kept (Durable.absorbItem known r item) (handlers ++ ranOf item) := by
  cases hrep with
  | @ran stepId value info hat hid hop =>
    rw [absorbItem_ran known r value hop, hid]
    have hrun : ranOf ⟨none, some value, some info⟩ = [app.hash stepId] := by
      simp [ranOf, hop, hid]
    rw [hrun]
    exact hk.insert hp (hat.open hs hp).1 (hran (by simp [hrun]))
  | @planned q info output hat hid hop hrun =>
    have hnone : ranOf ⟨none, output, some info⟩ = [] := by simp [ranOf, hop]
    rw [absorbItem_planned known r hop, hnone, List.append_nil]
    refine ⟨hk.sound, fun id first hm => ?_, hk.waiting, hk.nodup, hk.handlers⟩
    rcases List.mem_append.mp hm with hm | hm
    · exact hk.planned id first hm
    · obtain ⟨rfl, rfl⟩ : id = info.id ∧ first = known := by simpa using hm
      exact ⟨hb, q, hrun, hid.symm, hat⟩
  | @waiting q info output hat hid hrun hplan hcall =>
    have hnone : ranOf ⟨none, output, some info⟩ = [] := by simp [ranOf, hrun]
    rw [absorbItem_waiting known r hrun hplan, hnone, List.append_nil]
    refine ⟨hk.sound, hk.planned, fun id hm => ?_, hk.nodup, hk.handlers⟩
    rcases List.mem_append.mp hm with hm | hm
    · exact hk.waiting id hm
    · obtain rfl := List.mem_singleton.mp hm
      exact ⟨q, (hat.open hs hp).1, hcall, hid.symm⟩

/-- The items of a response, one after the other. Of the steps that ran none
was memoized before, and no two items have the same ID. -/
theorem Kept.absorb (hk : app.Kept r handlers) (hp : app.Proper) (hs : app.Sound known)
    (hb : Dict.Below known r.raw) {qs : List Question} {items : List CallItem}
    (hrep : List.Forall₂ (app.Reported known) qs items) (hapart : Apart app.hash qs)
    (hran : ∀ q ∈ qs, ∀ item ∈ items, app.Reported known q item → ranOf item ≠ [] →
      r.raw.lookup (app.hash q.id) = none) :
    app.Kept (items.foldl (Durable.absorbItem known) r) (handlers ++ items.flatMap ranOf) ∧
      Dict.Below r.raw (items.foldl (Durable.absorbItem known) r).raw := by
  induction hrep generalizing r handlers with
  | nil => exact ⟨by simpa using hk, Dict.Below.refl _⟩
  | @cons q item qs items hq hrep ih =>
    obtain ⟨hnot, hapart⟩ := List.nodup_cons.mp hapart
    have hfirst := hran q List.mem_cons_self item List.mem_cons_self hq
    have hstep := hk.absorbItem hp hs hb hq hfirst
    have hbelow := below_absorbItem known hq hfirst
    have hlookup : ∀ p ∈ qs, (Durable.absorbItem known r item).raw.lookup (app.hash p.id) =
        r.raw.lookup (app.hash p.id) := fun p hp' =>
      lookup_absorbItem known hq fun he => hnot (List.mem_map.mpr ⟨p, hp', he⟩)
    obtain ⟨hrest, hrestBelow⟩ := ih hstep (hb.trans hbelow) hapart
      fun p hp' x hx hrep hne => by
        rw [hlookup p hp']
        exact hran p (List.mem_cons_of_mem _ hp') x (List.mem_cons_of_mem _ hx) hrep hne
    rw [List.flatMap_cons, ← List.append_assoc]
    exact ⟨hrest, hbelow.trans hrestBelow⟩

/-! ## A request of the executor -/

def Handled (app : App σ) (r : Record) (q : Question) : Prop :=
  r.raw.lookup (app.hash q.id) ≠ none ∨ (∃ first, (app.hash q.id, first) ∈ r.planned) ∨
    app.hash q.id ∈ r.waiting

theorem handled_absorbItem (h : app.Reported known q item) :
    app.Handled (absorbItem known r item) q := by
  cases h with
  | ran _ hid hop =>
    rw [absorbItem_ran known r _ hop, hid]
    exact .inl (by simp [Question.id])
  | planned _ hid hop =>
    rw [absorbItem_planned known r hop]
    exact .inr (.inl ⟨known, by simp [hid]⟩)
  | waiting _ hid hrun hplan =>
    rw [absorbItem_waiting known r hrun hplan]
    exact .inr (.inr (by simp [hid]))

theorem Handled.absorbItem {p : Question} (h : app.Handled r p) (hrep : app.Reported known q item) :
    app.Handled (Durable.absorbItem known r item) p := by
  cases hrep with
  | @ran stepId value info _ hid hop =>
    rw [absorbItem_ran known r _ hop]
    refine h.imp_left fun hmemo => ?_
    by_cases hne : app.hash p.id = info.id
    · simp [hne]
    · rwa [AList.lookup_insert_ne hne]
  | planned _ _ hop =>
    rw [absorbItem_planned known r hop]
    exact h.imp_right (Or.imp_left fun ⟨first, hm⟩ => ⟨first, List.mem_append_left _ hm⟩)
  | waiting _ _ hrun hplan =>
    rw [absorbItem_waiting known r hrun hplan]
    exact h.imp_right (Or.imp_right fun hm => List.mem_append_left _ hm)

theorem handled_absorb {qs : List Question} {items : List CallItem}
    (hrep : List.Forall₂ (app.Reported known) qs items) {p : Question}
    (h : p ∈ qs ∨ app.Handled r p) : app.Handled (items.foldl (absorbItem known) r) p := by
  induction hrep generalizing r with
  | nil => exact h.resolve_left List.not_mem_nil
  | cons hq hrep ih =>
    apply ih
    rcases h with h | h
    · rcases List.mem_cons.mp h with rfl | h
      · exact .inr (handled_absorbItem hq)
      · exact .inl h
    · exact .inr (h.absorbItem hq)

theorem reported_response {env : Env σ} {b : Bool} {mode : ParallelMode}
    (hhash : env.hash = app.hash) (hat : app.At known q) : app.Reported known q
      (CallResult.itemOf ((response env b q).setParallelMode mode)) := by
  have hid : ((response env b q).setParallelMode mode).step.id = app.hash q.id := by
    rw [← hhash, ← response_id (b := b)]
    exact setParallelMode_id _ _
  have hop : ((response env b q).setParallelMode mode).step.op = (response env b q).step.op :=
    setParallelMode_op _ _
  have herror : ((response env b q).setParallelMode mode).originalError = none := response_error
  rw [CallResult.itemOf, herror]
  by_cases he : Enters env b q
  · obtain ⟨hrun, stepId, value, rfl, hvalue⟩ := response_op.1 he
    have hout : ((response env b (.run stepId value)).setParallelMode mode).output = value := hvalue
    rw [hout]
    exact .ran hat hid (hop.trans hrun)
  · obtain ⟨hrun, hplan⟩ := (response_op (b := b)).2 he
    rw [← hop] at hrun hplan
    by_cases hq : q.isRun = true
    · exact .planned hat hid (hplan.mpr hq) hq
    · exact .waiting hat hid hrun (fun h => hq (hplan.mp h)) (by simpa using hq)

theorem reported_pause {env : Env σ} (hhash : env.hash = app.hash) {pause : Pause}
    (hpause : app.code.replay (app.answers known) = .error pause) :
    ∃ qs, qs.Sublist pause.questions ∧
      List.Forall₂ (app.Reported known) qs ((responses env pause).map CallResult.itemOf) ∧
      ∀ q, q ∈ qs ↔ q ∈ pause.questions ∧ ¬ PassedOver env q := by
  have hsome : ∀ b q, ¬ PassedOver env q ↔ respond env b q = some (response env b q) := by
    intro b q
    rw [respond]
    split <;> simp_all
  have hlist : ∀ (b : Bool) (mode : ParallelMode) (all : List Question),
      (∀ q ∈ all, app.At known q) → ∃ qs, qs.Sublist all ∧
        List.Forall₂ (app.Reported known) qs
          (((all.filterMap (respond env b)).map fun x => x.setParallelMode mode).map
            CallResult.itemOf) ∧ ∀ q, q ∈ qs ↔ q ∈ all ∧ ¬ PassedOver env q := by
    intro b mode all hat
    induction all with
    | nil => exact ⟨[], List.Sublist.refl _, .nil, by simp⟩
    | cons q all ih =>
      obtain ⟨qs, hsub, hrep, hmem⟩ := ih fun p hp => hat p (List.mem_cons_of_mem _ hp)
      by_cases hpass : PassedOver env q
      · rw [List.filterMap_cons_none (by rw [respond, if_pos hpass])]
        refine ⟨qs, hsub.cons _, hrep, fun p => ?_⟩
        rw [hmem, List.mem_cons, or_and_right, or_iff_right]
        rintro ⟨rfl, hnot⟩
        exact hnot hpass
      · rw [List.filterMap_cons_some ((hsome b q).mp hpass)]
        refine ⟨q :: qs, hsub.cons_cons _,
          .cons (reported_response hhash (hat q List.mem_cons_self)) hrep, fun p => ?_⟩
        rw [List.mem_cons, hmem, List.mem_cons, or_and_right]
        refine or_congr_left ⟨fun h => ⟨h, ?_⟩, fun h => h.1⟩
        rwa [h]
  have hat : ∀ q ∈ pause.questions, app.At known q := fun q hq => ⟨pause, hpause, hq⟩
  cases pause with
  | one q =>
    obtain ⟨qs, hsub, hrep, hmem⟩ := hlist false .wait [q] hat
    refine ⟨qs, hsub, ?_, hmem⟩
    cases hr : respond env false q with
    | none => simpa [responses, hr] using hrep
    | some x =>
      simpa [responses, hr, StepResponse.setParallelMode, StepInfo.setParallelMode] using hrep
  | group mode all => exact hlist true mode all hat

theorem ran_unmemoized {s : Sent σ} (hadmits : r.Admits known s.env.targetHashedId)
    (hhash : s.env.hash = app.hash) (hs : app.Sound known) (hp : app.Proper)
    (hat : app.At known q) (hpass : ¬ PassedOver s.env q) :
    r.raw.lookup (app.hash q.id) = none := by
  cases ht : s.env.targetHashedId with
  | none =>
    rw [ht] at hadmits
    obtain rfl : known = r.raw := hadmits
    exact (hat.open hs hp).2
  | some t =>
    rw [ht] at hadmits
    have htarget : s.env.targetHashedId = some (s.env.hash q.id) := by
      by_contra hne
      exact hpass ⟨by simp [ht], hne⟩
    rw [ht, hhash] at htarget
    exact Option.some.inj htarget ▸ hadmits.1

theorem admits_below {t : Option String} (h : r.Admits known t) : Dict.Below known r.raw := by
  cases t with
  | none =>
    obtain rfl : known = r.raw := h
    exact Dict.Below.refl _
  | some t =>
    obtain ⟨-, first, -, -, hb⟩ := h
    exact hb

theorem answerable (hk : app.Kept r handlers) (hp : app.Proper) {s : Sent σ}
    (hhash : s.env.hash = app.hash) (hadmits : r.Admits known s.env.targetHashedId) :
    Answerable s.env (app.code.replay (app.answers known)) := by
  intro pause hpause
  cases ht : s.env.targetHashedId with
  | none => exact .inl rfl
  | some t =>
    rw [ht] at hadmits
    obtain ⟨hnone, first, hm, hfirst, hbelow⟩ := hadmits
    obtain ⟨-, q, -, rfl, hat⟩ := hk.planned t first hm
    have hknown : known.lookup (app.hash q.id) = none := by
      cases hv : known.lookup (app.hash q.id) with
      | none => rfl
      | some v =>
        rw [hbelow _ _ hv] at hnone
        cases hnone
    obtain ⟨pause', hpause', hq⟩ := hat.later (hk.sound.below hbelow) hp hfirst hknown
    obtain rfl := Except.error.inj (hpause.symm.trans hpause')
    exact .inr ⟨q, hq, by rw [hhash]⟩

theorem reply_eq (hk : app.Kept r handlers) (hp : app.Proper) {s : Sent σ}
    (hsends : app.Sends s known) (hadmits : r.Admits known s.env.targetHashedId) :
    (app.reply s).outcome = .ok (resultFor s.env (app.code.replay (app.answers known))) ∧
      entered (app.reply s).log = codeHandlers s.env (app.code.replay (app.answers known)) := by
  obtain ⟨ctx, hpassed⟩ := hsends.passed
  have hsound := hk.sound.below (admits_below hadmits)
  refine request_replays app.outputType hsends.serializer app.fn_eq hpassed hsends.silent
    (fun q _ => ?_) (hsound.knows hp) hp.callable ?_ (answerable hk hp hsends.hash hadmits)
  · rw [Question.answer, hsends.memos, hsends.hash]
    rfl
  · rw [hsends.hash]
    exact hp.apart

/-- What the reply to a request with the memos `known` says: the result of the
direct run, whose steps then all have memos, or some of the steps at which the
replay with `known` pauses. -/
inductive Replied (app : App σ) (r : Record) (known : Dict Json) :
    Outcome PyError Interrupt CallResult → Prop
  | result : app.code.replay (app.answers known) = .ok (app.code.direct app.value) →
      (∀ q ∈ app.asked, r.raw.lookup (app.hash q.id) ≠ none) → Replied app r known (.ok app.result)
  | reports {pause : Pause} {qs : List Question} {items : List CallItem} :
      app.code.replay (app.answers known) = .error pause → qs ≠ [] →
      qs.Sublist pause.questions → pause.questions.Sublist app.asked →
      List.Forall₂ (app.Reported known) qs items →
      Replied app r known (.ok ⟨⟨none, none, none⟩, some items⟩)

theorem Replied.mono {r' : Record} {o : Outcome PyError Interrupt CallResult}
    (h : app.Replied r known o) (hb : Dict.Below r.raw r'.raw) : app.Replied r' known o := by
  cases h with
  | result hreplay hall =>
    refine .result hreplay fun q hq => ?_
    obtain ⟨v, hv⟩ := Option.ne_none_iff_exists'.mp (hall q hq)
    rw [hb _ _ hv]
    exact Option.some_ne_none v
  | reports hreplay hne hsub hasked hrep => exact .reports hreplay hne hsub hasked hrep

structure Sending (app : App σ) (known : Dict Json) (s : Sent σ) (r r' : Record) : Prop where
  kept : app.Kept r' r'.handlers
  below : Dict.Below r.raw r'.raw
  replied : app.Replied r' known (app.reply s).outcome
  /-- a step without a memo is dealt with, if there is one -/
  progress : (app.reply s).outcome = .ok app.result ∨
    ∃ q ∈ app.asked, r.raw.lookup (app.hash q.id) = none ∧ app.Handled r' q ∧
      (s.env.targetHashedId = none ∨ s.env.targetHashedId = some (app.hash q.id) ∧
        r'.raw.lookup (app.hash q.id) ≠ none)

theorem result_multi (app : App σ) : app.result.multi = none := by
  rw [App.result]
  cases app.code.direct app.value <;> rfl

theorem effect_result {s : Sent σ} (hreply : (app.reply s).outcome = .ok app.result)
    (hentered : entered (app.reply s).log = []) :
    app.executor.effect (.send known s) r =
      { r with answered := r.answered ++ [(known, .ok app.result)] } := by
  change ({ Durable.absorb known (app.reply s).outcome r with
    handlers := r.handlers ++ entered (app.reply s).log
    answered := r.answered ++ [(known, (app.reply s).outcome)] } : Record) = _
  rw [hentered, hreply, Durable.absorb, app.result_multi, List.append_nil]
  rfl

theorem effect_pause {s : Sent σ} {pause : Pause}
    (hreply : (app.reply s).outcome = .ok (CallResult.fromResponses (responses s.env pause)))
    (hentered : entered (app.reply s).log = Durable.handlers s.env pause) :
    app.executor.effect (.send known s) r =
      { ((responses s.env pause).map CallResult.itemOf).foldl (Durable.absorbItem known) r with
        handlers := r.handlers ++ ((responses s.env pause).map CallResult.itemOf).flatMap ranOf
        answered := r.answered ++
          [(known, .ok (CallResult.fromResponses (responses s.env pause)))] } := by
  have hran : ((responses s.env pause).map CallResult.itemOf).flatMap ranOf =
      Durable.handlers s.env pause := by
    rw [handlers_eq, List.flatMap_map]
    exact congrArg (fun f => List.flatMap f _) (funext ranOf_itemOf)
  change ({ Durable.absorb known (app.reply s).outcome r with
    handlers := r.handlers ++ entered (app.reply s).log
    answered := r.answered ++ [(known, (app.reply s).outcome)] } : Record) = _
  rw [hentered, hran, hreply]
  rfl

theorem mem_handlers {env : Env σ} {pause : Pause} (hq : q ∈ pause.questions)
    (hrun : q.isRun = true) (ht : env.targetHashedId = some (env.hash q.id)) :
    env.hash q.id ∈ Durable.handlers env pause := by
  have henters : ∀ b, entersAt env b q = [env.hash q.id] := fun b =>
    if_pos ⟨hrun, .inl ht⟩
  cases pause with
  | one p =>
    obtain rfl := List.mem_singleton.mp hq
    rw [Durable.handlers, henters]
    exact List.mem_singleton_self _
  | group mode qs =>
    refine List.mem_flatMap.mpr ⟨q, hq, ?_⟩
    rw [henters]
    exact List.mem_singleton_self _

theorem reported_some {s : Sent σ} (hhash : s.env.hash = app.hash) {pause : Pause}
    (hpause : app.code.replay (app.answers known) = .error pause) (hne : pause.questions ≠ [])
    (hanswerable : Answerable s.env (app.code.replay (app.answers known))) :
    ∃ q qs, (q :: qs).Sublist pause.questions ∧ List.Forall₂ (app.Reported known) (q :: qs)
      ((responses s.env pause).map CallResult.itemOf) ∧
      ∀ p ∈ q :: qs, ¬ PassedOver s.env p := by
  obtain ⟨qs, hsub, hrep, hmem⟩ := reported_pause hhash hpause
  have hsome : ∃ q, q ∈ qs := by
    rcases hanswerable pause hpause with ht | ⟨q, hq, ht⟩
    · obtain ⟨q, hq⟩ := List.exists_mem_of_ne_nil _ hne
      exact ⟨q, (hmem q).mpr ⟨hq, by simp [PassedOver, ht]⟩⟩
    · exact ⟨q, (hmem q).mpr ⟨hq, by simp [PassedOver, ht]⟩⟩
  obtain ⟨q, hq⟩ := hsome
  cases qs with
  | nil => cases hq
  | cons q qs => exact ⟨q, qs, hsub, hrep, fun p hp => ((hmem p).mp hp).2⟩

theorem target_of_not_passed {env : Env σ} (hpass : ¬ PassedOver env q) :
    env.targetHashedId = none ∨ env.targetHashedId = some (env.hash q.id) := by
  cases ht : env.targetHashedId with
  | none => exact .inl rfl
  | some t =>
    right
    by_contra hne
    exact hpass ⟨by simp [ht], ht ▸ hne⟩

/-- The steps that a paused request responds to have no memos, and different
IDs; there is at least one. -/
structure Opened (app : App σ) (known : Dict Json) (s : Sent σ) (r : Record) (pause : Pause)
    (qs : List Question) : Prop where
  ne_nil : qs ≠ []
  sublist : qs.Sublist pause.questions
  reported : List.Forall₂ (app.Reported known) qs ((responses s.env pause).map CallResult.itemOf)
  notPassed : ∀ q ∈ qs, ¬ PassedOver s.env q
  unmemoized : ∀ q ∈ qs, r.raw.lookup (app.hash q.id) = none
  apart : Apart app.hash qs

theorem opened_pause (hk : app.Kept r handlers) (hp : app.Proper) {s : Sent σ}
    (hsends : app.Sends s known) (hadmits : r.Admits known s.env.targetHashedId) {pause : Pause}
    (hpause : app.code.replay (app.answers known) = .error pause) (hne : pause.questions ≠ [])
    (hsub : pause.questions.Sublist app.asked) : ∃ qs, app.Opened known s r pause qs := by
  have hsound := hk.sound.below (admits_below hadmits)
  obtain ⟨q, qs, hqs, hrep, hpass⟩ :=
    reported_some hsends.hash hpause hne (answerable hk hp hsends.hash hadmits)
  refine ⟨q :: qs, List.cons_ne_nil _ _, hqs, hrep, hpass, fun p hp' => ?_,
    hp.apart.sublist ((hqs.trans hsub).map fun q => app.hash q.id)⟩
  exact ran_unmemoized hadmits hsends.hash hsound hp ⟨pause, hpause, hqs.subset hp'⟩ (hpass p hp')

theorem sending_pause (hk : app.Kept r r.handlers) (hp : app.Proper) {s : Sent σ}
    (hsends : app.Sends s known) (hadmits : r.Admits known s.env.targetHashedId) {pause : Pause}
    (hpause : app.code.replay (app.answers known) = .error pause) (hne : pause.questions ≠ [])
    (hsub : pause.questions.Sublist app.asked) :
    app.Sending known s r (app.executor.effect (.send known s) r) := by
  have hbelow := admits_below hadmits
  obtain ⟨hreply, hentered⟩ := reply_eq hk hp hsends hadmits
  rw [hpause] at hreply hentered
  obtain ⟨qs, hopened⟩ := opened_pause hk hp hsends hadmits hpause hne hsub
  obtain ⟨q, hq⟩ := List.exists_mem_of_ne_nil _ hopened.ne_nil
  have hrep := hopened.reported
  obtain ⟨hkept, hgrows⟩ := hk.absorb hp (hk.sound.below hbelow) hbelow hrep hopened.apart
    fun p hp' _ _ _ _ => hopened.unmemoized p hp'
  rw [effect_pause hreply hentered]
  have hasked : ∀ p ∈ qs, p ∈ app.asked := (hopened.sublist.trans hsub).subset
  refine ⟨⟨hkept.sound, hkept.planned, hkept.waiting, hkept.nodup, hkept.handlers⟩, hgrows, ?_,
    .inr ⟨q, hasked q hq, hopened.unmemoized q hq, handled_absorb hrep (.inl hq), ?_⟩⟩
  · rw [hreply]
    exact .reports hpause hopened.ne_nil hopened.sublist hsub hrep
  · refine (target_of_not_passed (hopened.notPassed q hq)).imp_right fun ht => ?_
    rw [← hsends.hash]
    refine ⟨ht, ?_⟩
    -- what is targeted was planned, so its handler is called
    rw [ht] at hadmits
    obtain ⟨-, first, hm, hfirst, -⟩ := hadmits
    obtain ⟨hfirst, p, hrun, hpid, hat⟩ := hk.planned _ first hm
    obtain rfl := asked_unique hp (hat.open (hk.sound.below hfirst) hp).1 (hasked q hq)
      (hpid.trans (by rw [hsends.hash]))
    have hcalled := mem_handlers (hopened.sublist.subset hq) hrun ht
    rw [handlers_eq, ← List.flatMap_congr fun x _ => ranOf_itemOf x, ← List.flatMap_map] at hcalled
    exact ((hkept.handlers _).mp (List.mem_append_right _ hcalled)).choose_spec.2.2.2

theorem sending (hk : app.Kept r r.handlers) (hp : app.Proper) {s : Sent σ}
    (hsends : app.Sends s known) (hadmits : r.Admits known s.env.targetHashedId) :
    app.Sending known s r (app.executor.effect (.send known s) r) := by
  have hbelow := admits_below hadmits
  rcases Code.replay_cases ((hk.sound.below hbelow).knows hp) with
    ⟨hok, hall⟩ | ⟨pause, hpause, hne, hsub, -⟩
  · obtain ⟨hreply, hentered⟩ := reply_eq hk hp hsends hadmits
    have hresult : resultFor s.env (app.code.replay (app.answers known)) = app.result := by
      rw [hok, App.result]
      cases app.code.direct app.value <;> rfl
    rw [hresult] at hreply
    rw [hok] at hentered
    rw [effect_result hreply hentered]
    refine ⟨⟨hk.sound, hk.planned, hk.waiting, hk.nodup, hk.handlers⟩, Dict.Below.refl _, ?_,
      .inl hreply⟩
    rw [hreply]
    refine .result hok fun q hq hnone => ?_
    have hknown : app.answers known q ≠ none := by
      rw [hall q hq]
      exact Option.some_ne_none _
    obtain ⟨v, hv⟩ := Option.ne_none_iff_exists'.mp (answers_none.not.mp hknown)
    rw [hbelow _ _ hv] at hnone
    cases hnone
  · exact sending_pause hk hp hsends hadmits hpause hne hsub

end App

end Inngest.Durable
