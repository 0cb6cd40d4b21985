import Inngest.DurableRuns

/-!
# Durable code behind middleware

What the executor stores is what the `transform_output` hooks made of a result,
and the function sees what the `transform_input` hooks of a later request make
of that. When what is stored can always be read, a run with middleware does
what a run without would do.
-/

set_option autoImplicit false

namespace Inngest.Durable
open ServerLib Errors StepLib Effect Engine Replay History MiddlewareManager
open ReplayIdentity (Sent)
open Transition (Machine)

variable {σ : Type}

/-! ## What is stored -/

def dataOf (output : Json) : Json := .obj [("data", output)]

/-- What outputs are reported as, and what is stored in the place of memos. A
step whose output was reported has what the executor makes of it. -/
structure Coding where
  reported : Json → Json → Prop
  stands : Json → Json → Prop
  stored : ∀ {w v}, reported w v → stands (dataOf w) (dataOf v)

variable {coding : Coding}

/-- The same IDs, and what is stored for each stands for its memo. -/
def Shadows (coding : Coding) (stored known : Dict Json) : Prop :=
  ∀ id, Option.Rel coding.stands (stored.lookup id) (known.lookup id)

/-- A result after the hooks, and before. Of the output only that of a step
that ran, or of the function, is read again. -/
structure Conveys (coding : Coding) (x' x : CallItem) : Prop where
  error : x'.error = x.error
  step : x'.step.map (fun info => (info.id, info.op)) = x.step.map fun info => (info.id, info.op)
  output : (∀ info, x.step = some info → info.op = .stepRun) →
    Option.Rel coding.reported x'.output x.output

structure Conveyed (coding : Coding) (c' c : CallResult) : Prop where
  result : c.multi = none → Conveys coding c'.toCallItem c.toCallItem
  items : Option.Rel (List.Forall₂ (Conveys coding)) c'.multi c.multi

section Stored
variable {stored known : Dict Json} {id : String}

theorem Shadows.none_iff (h : Shadows coding stored known) :
    stored.lookup id = none ↔ known.lookup id = none := by
  have hid := h id
  generalize stored.lookup id = w at hid ⊢
  generalize known.lookup id = v at hid ⊢
  cases hid <;> simp

theorem Shadows.insert (h : Shadows coding stored known) {w v : Json} (hw : coding.stands w v)
    (id : String) : Shadows coding (stored.insert id w) (known.insert id v) := by
  intro id'
  by_cases hid : id' = id
  · rw [hid, AList.lookup_insert, AList.lookup_insert]
    exact .some hw
  · rw [AList.lookup_insert_ne hid, AList.lookup_insert_ne hid]
    exact h id'

theorem Shadows.restrict (h : Shadows coding stored known) {part : Dict Json}
    (hb : Dict.Below part stored) :
    Shadows coding part (known.restrict fun id => (part.lookup id).isSome) := by
  intro id
  rw [Dict.lookup_restrict]
  cases hp : part.lookup id with
  | none => exact .none
  | some w =>
    have hid := h id
    rw [hb id w hp] at hid
    simpa using hid

theorem below_restrict (known : Dict Json) (p : String → Bool) :
    Dict.Below (known.restrict p) known := by
  intro id v hv
  rw [Dict.lookup_restrict] at hv
  split at hv
  · exact hv
  · cases hv

theorem Shadows.below_restrict {first first' part : Dict Json} (h : Shadows coding first first')
    (hb : Dict.Below first part) (hb' : Dict.Below first' known) :
    Dict.Below first' (known.restrict fun id => (part.lookup id).isSome) := by
  intro id v hv
  have hfirst : first.lookup id ≠ none := by
    rw [Ne, h.none_iff, hv]
    exact Option.some_ne_none v
  obtain ⟨w, hw⟩ := Option.ne_none_iff_exists'.mp hfirst
  rw [Dict.lookup_restrict, hb id w hw]
  exact hb' id v hv

end Stored

/-! ## Hooks that can be read -/

namespace App
variable (app : App σ)

inductive Made (app : App σ) (env : Env σ) : CallItem → Prop
  | result : Made app env app.result.toCallItem
  | response {q : Question} (b : Bool) (mode : ParallelMode) : q ∈ app.asked →
      Made app env (CallResult.itemOf ((Durable.response env b q).setParallelMode mode))

/-- The request brings what is stored. Its hooks do not raise; they read what
stands for a memo, and what they make of a result stands for it. -/
structure Carries (coding : Coding) (s : Sent σ) (stored : Dict Json) : Prop where
  hash : s.env.hash = app.hash
  serializer : s.env.serializer = none
  memos : s.inv.memos = StepMemos.fromRaw app.loads stored
  passed : ∃ ctx, (prepared s.env s.inv).outcome = .ok (.ok ctx)
  reads : ∀ known, Shadows coding stored known → ∀ id,
    (prepared s.env s.inv).state.memos.lookup id = (StepMemos.fromRaw app.loads known).lookup id
  silent : ∀ t, Execution.afterError s.env Scope.top t = none
  writes : ∀ x, app.Made s.env x → ∀ t, ∃ t' x',
    transformItem s.env.flavor s.env.middleware x Scope.top t = ⟨.ok (.ok x'), t', []⟩ ∧
      Conveys coding x' x
  responds : ∀ t, beforeResponseError s.env t = none

def function : Function σ := ⟨app.id, app.fn, app.outputType, none⟩

def call (s : Sent σ) : Run σ CallResult :=
  app.function.call s.env app.id s.inv.ctx Scope.top s.inv.initial

end App

/-! ## The end of a request -/

section Ends
variable {env : Env σ} {c c' : CallResult} {s t : State σ}

theorem afterRun_done
    (h : transformOutput env.flavor env.middleware c Scope.top s = ⟨.ok (.ok c'), t, []⟩)
    (hresponds : beforeResponseError env t = none) :
    ∃ u, Function.afterRun env c Scope.top s = ⟨.ok c', u, []⟩ := by
  have hresponse := beforeResponse_outcome env t
  rw [hresponds] at hresponse
  obtain ⟨-, -, hlog⟩ := hookLoop_spec (refuseCoroutine env.flavor Hooks.beforeResponse)
    Hooks.beforeResponse env.middleware () Scope.top t
  rw [← beforeResponse] at hlog
  rw [Function.afterRun, Comp.bind_ok (by rw [h]), h]
  simp only [Done.after_nil]
  rw [Comp.bind_ok hresponse, hlog]
  exact ⟨_, rfl⟩

theorem responses_alone {pause : Pause} (hapart : Apart env.hash pause.questions)
    {x : StepResponse} (hx : x ∈ responses env pause) (hop : x.step.op = .stepRun) :
    responses env pause = [x] := by
  cases pause with
  | one q =>
    obtain ⟨y, hy⟩ : ∃ y, respond env false q = some y := by
      cases hr : respond env false q with
      | none =>
        rw [responses, hr] at hx
        cases hx
      | some y => exact ⟨y, rfl⟩
    rw [responses, hy] at hx ⊢
    rw [List.mem_singleton.mp hx]
    rfl
  | group mode qs =>
    obtain ⟨y, hy, rfl⟩ := List.mem_map.mp hx
    obtain ⟨q, hq, hr⟩ := List.mem_filterMap.mp hy
    obtain rfl := respond_eq hr
    have henters : Enters env true q := by
      by_contra hnot
      exact (response_op.2 hnot).1 ((setParallelMode_op _ _).symm.trans hop)
    have htarget : env.targetHashedId = some (env.hash q.id) :=
      henters.2.resolve_right (by simp)
    have hids : ∀ id ∈ (responses env (.group mode qs)).map fun z => z.step.id,
        id = env.hash q.id := by
      intro id hid
      obtain ⟨z, hz, rfl⟩ := List.mem_map.mp hid
      obtain ⟨p, -, b, mode', hp, rfl⟩ := of_mem_responses hz
      rw [show ((response env b p).setParallelMode mode').step.id = env.hash p.id from
        (setParallelMode_id _ _).trans response_id]
      by_contra hne
      have hpass : PassedOver env p :=
        ⟨by rw [htarget]; rfl, fun h => hne (Option.some.inj (htarget.symm.trans h)).symm⟩
      rw [respond, if_pos hpass] at hp
      cases hp
    have hlen : ((responses env (.group mode qs)).map fun z => z.step.id).length ≤ 1 := by
      have hnodup : ((responses env (.group mode qs)).map fun z => z.step.id).Nodup :=
        hapart.sublist (responses_ids _)
      rw [List.eq_replicate_of_mem hids] at hnodup
      exact List.nodup_replicate.mp hnodup
    rw [List.length_map] at hlen
    obtain ⟨z, hz⟩ := List.length_eq_one_iff.mp
      (le_antisymm hlen (List.length_pos_of_mem hx))
    rw [hz] at hx ⊢
    rw [List.mem_singleton.mp hx]

end Ends

/-! ## A request with and without its hooks -/

namespace App
variable {app : App σ} {stored known : Dict Json} {s : Sent σ} {c : CallResult}

theorem conveys_self {x : CallItem} {info : StepInfo} (hstep : x.step = some info)
    (hop : info.op ≠ .stepRun) : Conveys coding x x where
  error := rfl
  step := rfl
  output h := absurd (h info hstep) hop

theorem transforms_responses (hc : app.Carries coding s stored) {pause : Pause}
    (hapart : Apart app.hash pause.questions) (hsub : pause.questions ⊆ app.asked)
    (hne : responses s.env pause ≠ []) (t : State σ) :
    ∃ u c', transformOutput s.env.flavor s.env.middleware
        (CallResult.fromResponses (responses s.env pause)) Scope.top t = ⟨.ok (.ok c'), u, []⟩ ∧
      Conveyed coding c' (CallResult.fromResponses (responses s.env pause)) := by
  have hmade : ∀ x ∈ responses s.env pause, app.Made s.env (CallResult.itemOf x) := by
    intro x hx
    obtain ⟨q, hq, b, mode, -, rfl⟩ := of_mem_responses hx
    exact .response b mode (hsub hq)
  rw [← hc.hash] at hapart
  generalize hrs : responses s.env pause = rs at hmade hne
  cases rs with
  | nil => exact absurd rfl hne
  | cons x rest =>
    cases rest with
    | nil =>
      obtain ⟨u, x', hx', hconveys⟩ := hc.writes _ (hmade x List.mem_cons_self) t
      refine ⟨u, ⟨⟨none, none, none⟩, some [x']⟩, transformOutput_one rfl hx', ?_, ?_⟩
      · exact fun h => by cases h
      · exact .some (.cons hconveys .nil)
    | cons y rest =>
      refine ⟨t, CallResult.fromResponses (x :: y :: rest), transformOutput_several rfl, ?_,
        .some ?_⟩
      · exact fun h => by cases h
      rw [List.forall₂_same, List.forall_mem_map]
      intro z hz
      refine conveys_self rfl fun hop => ?_
      have halone := responses_alone hapart (hrs ▸ hz) hop
      rw [hrs] at halone
      cases halone

theorem transforms_result (hc : app.Carries coding s stored) (t : State σ) :
    ∃ u c', transformOutput s.env.flavor s.env.middleware app.result Scope.top t =
      ⟨.ok (.ok c'), u, []⟩ ∧ Conveyed coding c' app.result := by
  obtain ⟨u, x', hx', hconveys⟩ := hc.writes _ .result t
  refine ⟨u, ⟨x', none⟩, transformOutput_none app.result_multi hx', fun _ => hconveys, ?_⟩
  rw [app.result_multi]
  exact .none

theorem call_conveys (hc : app.Carries coding s stored) (hreply : (app.reply s).outcome = .ok c)
    (h : ∀ t, ∃ u c', transformOutput s.env.flavor s.env.middleware c Scope.top t =
      ⟨.ok (.ok c'), u, []⟩ ∧ Conveyed coding c' c) :
    ∃ c', (app.call s).outcome = .ok c' ∧ (app.call s).log = (app.reply s).log ∧
      Conveyed coding c' c := by
  have hselect : app.function.select app.id = .ok (app.fn, app.outputType) := if_pos rfl
  have hcall : app.call s = (Execution.run s.env s.inv.ctx (fun ctx => (app.fn ctx).interp s.env)
      app.outputType >>= Function.afterRun s.env) Scope.top s.inv.initial := by
    rw [call, Function.call, hselect]
  have hrun : (Execution.run s.env s.inv.ctx (fun ctx => (app.fn ctx).interp s.env)
      app.outputType Scope.top s.inv.initial).outcome = .ok c := hreply
  obtain ⟨u, c', htransform, hconveyed⟩ := h (app.reply s).state
  obtain ⟨v, hafter⟩ := afterRun_done htransform (hc.responds u)
  have hafter : Function.afterRun s.env c Scope.top
      (Execution.run s.env s.inv.ctx (fun ctx => (app.fn ctx).interp s.env) app.outputType Scope.top
        s.inv.initial).state = ⟨.ok c', v, []⟩ := hafter
  refine ⟨c', ?_, ?_, hconveyed⟩
  · rw [hcall, Comp.bind_ok hrun, hafter]
    rfl
  · rw [hcall, Comp.bind_ok hrun, hafter, Done.after_log, List.append_nil]
    rfl

theorem Carries.sends (hc : app.Carries coding s stored) (h : Shadows coding stored known) :
    app.Sends s known :=
  ⟨hc.hash, hc.serializer, hc.passed, hc.reads known h, hc.silent⟩

end App

/-! ## Two records -/

section Lists
variable {α β : Type} {rel : α → β → Prop} {l : List α} {l' : List β}

theorem exists_right (h : List.Forall₂ rel l l') {a : α} (ha : a ∈ l) : ∃ b ∈ l', rel a b := by
  induction h with
  | nil => cases ha
  | cons hab _ ih =>
    rcases List.mem_cons.mp ha with rfl | ha
    · exact ⟨_, List.mem_cons_self, hab⟩
    · obtain ⟨b, hb, hrel⟩ := ih ha
      exact ⟨b, List.mem_cons_of_mem _ hb, hrel⟩

theorem exists_left (h : List.Forall₂ rel l l') {b : β} (hb : b ∈ l') : ∃ a ∈ l, rel a b :=
  exists_right h.flip hb

end Lists

/-- The first record is what an executor has that talks to the app through its
hooks, the second what it would have without. -/
structure Shadowed (coding : Coding) (R r : Record) : Prop where
  raw : Shadows coding R.raw r.raw
  planned : List.Forall₂ (fun p' p => p'.1 = p.1 ∧ Shadows coding p'.2 p.2) R.planned r.planned
  grows : ∀ p ∈ R.planned, Dict.Below p.2 R.raw
  waiting : R.waiting = r.waiting
  handlers : R.handlers = r.handlers
  answered : List.Forall₂ (fun a' a => Shadows coding a'.1 a.1 ∧
    ∃ c' c, a'.2 = .ok c' ∧ a.2 = .ok c ∧ Conveyed coding c' c) R.answered r.answered

namespace App
variable {app : App σ} {stored known : Dict Json} {s : Sent σ} {R r : Record} {q : Question}

theorem Shadowed.insert (h : Shadowed coding R r) {w v : Json} (hw : coding.stands w v)
    {id : String} (hnone : r.raw.lookup id = none) :
    Shadowed coding { R with raw := R.raw.insert id w } { r with raw := r.raw.insert id v } ∧
      Dict.Below R.raw (R.raw.insert id w) := by
  have hb : Dict.Below R.raw (R.raw.insert id w) := Dict.below_insert (h.raw.none_iff.mpr hnone)
  exact ⟨⟨h.raw.insert hw id, h.planned, fun p hp => (h.grows p hp).trans hb, h.waiting,
    h.handlers, h.answered⟩, hb⟩

theorem shadowed_absorbItem (h : Shadowed coding R r) (hstored : Shadows coding stored known)
    (hb : Dict.Below stored R.raw) {x' x : CallItem} (hrep : app.Reported known q x)
    (hx : Conveys coding x' x) (hnone : r.raw.lookup (app.hash q.id) = none) :
    Shadowed coding (absorbItem stored R x') (absorbItem known r x) ∧
      Dict.Below R.raw (absorbItem stored R x').raw := by
  obtain ⟨error', output', step'⟩ := x'
  cases hrep with
  | @ran stepId value info hat hid hop =>
    obtain rfl : error' = none := hx.error
    obtain ⟨info', rfl, hinfo⟩ := Option.map_eq_some_iff.mp hx.step
    obtain ⟨hid', hop'⟩ := Prod.mk.inj hinfo
    have hout := hx.output fun i hi => Option.some.inj hi ▸ hop
    obtain ⟨w, rfl, hw⟩ : ∃ w, output' = some w ∧ coding.reported w value := by
      cases hout with
      | some hw => exact ⟨_, rfl, hw⟩
    rw [absorbItem_ran stored R w (hop'.trans hop), absorbItem_ran known r value hop, hid', hid]
    exact Shadowed.insert h (coding.stored hw) hnone
  | @planned q info output hat hid hop hrun =>
    obtain rfl : error' = none := hx.error
    obtain ⟨info', rfl, hinfo⟩ := Option.map_eq_some_iff.mp hx.step
    obtain ⟨hid', hop'⟩ := Prod.mk.inj hinfo
    rw [absorbItem_planned stored R (hop'.trans hop), absorbItem_planned known r hop]
    refine ⟨⟨h.raw, List.rel_append h.planned (.cons ⟨hid', hstored⟩ .nil), fun p hp => ?_,
      h.waiting, h.handlers, h.answered⟩, Dict.Below.refl _⟩
    rcases List.mem_append.mp hp with hp | hp
    · exact h.grows p hp
    · rw [List.mem_singleton.mp hp]
      exact hb
  | @waiting q info output hat hid hrun hplan hcall =>
    obtain rfl : error' = none := hx.error
    obtain ⟨info', rfl, hinfo⟩ := Option.map_eq_some_iff.mp hx.step
    obtain ⟨hid', hop'⟩ := Prod.mk.inj hinfo
    rw [absorbItem_waiting stored R (hop' ▸ hrun) (hop' ▸ hplan),
      absorbItem_waiting known r hrun hplan]
    refine ⟨⟨h.raw, h.planned, h.grows, ?_, h.handlers, h.answered⟩, Dict.Below.refl _⟩
    change R.waiting ++ [info'.id] = r.waiting ++ [info.id]
    rw [h.waiting, hid']

theorem shadowed_absorb {qs : List Question} {items' items : List CallItem}
    (h : Shadowed coding R r) (hstored : Shadows coding stored known)
    (hb : Dict.Below stored R.raw) (hrep : List.Forall₂ (app.Reported known) qs items)
    (hitems : List.Forall₂ (Conveys coding) items' items) (hapart : Apart app.hash qs)
    (hnone : ∀ q ∈ qs, r.raw.lookup (app.hash q.id) = none) :
    Shadowed coding (items'.foldl (absorbItem stored) R) (items.foldl (absorbItem known) r) := by
  induction hrep generalizing items' R r with
  | nil =>
    cases hitems
    exact h
  | @cons q x qs items hq hrep ih =>
    cases hitems with
    | cons hx hitems =>
      obtain ⟨hnot, hapart⟩ := List.nodup_cons.mp hapart
      obtain ⟨hstep, hbelow⟩ :=
        shadowed_absorbItem h hstored hb hq hx (hnone q List.mem_cons_self)
      rw [List.foldl_cons, List.foldl_cons]
      refine ih hstep (hb.trans hbelow) hitems hapart fun p hp => ?_
      rw [lookup_absorbItem known hq fun he => hnot (List.mem_map.mpr ⟨p, hp, he⟩)]
      exact hnone p (List.mem_cons_of_mem _ hp)

end App

/-! ## The executor of an app with hooks -/

inductive StoreMove (σ : Type) where
  | send (stored : Dict Json) (s : Sent σ)
  | resolve (id : String) (stored : Json)

namespace App
variable {app : App σ} {stored known : Dict Json} {s : Sent σ} {R r : Record} {q : Question}
  {requests : Sent σ → Dict Json → Prop}

def Serves (app : App σ) (coding : Coding) (requests : Sent σ → Dict Json → Prop) : Prop :=
  ∀ s stored known, requests s stored → Shadows coding stored known → app.Carries coding s stored

def storing (app : App σ) (coding : Coding) (requests : Sent σ → Dict Json → Prop) :
    Machine Record (StoreMove σ) where
  init := ⟨∅, [], [], [], []⟩
  enabled
    | .send stored s, R => requests s stored ∧ R.Admits stored s.env.targetHashedId
    | .resolve id w, R => id ∈ R.waiting ∧ R.raw.lookup id = none ∧ coding.stands w (app.resolve id)
  effect
    | .send stored s, R =>
      { absorb stored (app.call s).outcome R with
        handlers := R.handlers ++ entered (app.call s).log
        answered := R.answered ++ [(stored, (app.call s).outcome)] }
    | .resolve id w, R => { R with raw := R.raw.insert id w }

theorem shadowed_init (app : App σ) (coding : Coding) (requests : Sent σ → Dict Json → Prop) :
    Shadowed coding (app.storing coding requests).init app.executor.init := by
  refine ⟨fun id => ?_, .nil, fun p hp => absurd hp List.not_mem_nil, rfl, rfl, .nil⟩
  rw [show (app.storing coding requests).init.raw.lookup id = none from AList.lookup_empty id,
    show app.executor.init.raw.lookup id = none from AList.lookup_empty id]
  exact .none

theorem multi_of_result {c' : CallResult} (h : Conveyed coding c' app.result) :
    c'.multi = none := by
  have hitems := h.items
  rw [app.result_multi] at hitems
  generalize c'.multi = m at hitems
  cases hitems
  rfl

theorem Shadowed.admits (h : Shadowed coding R r) (hi : app.Inv r) {target : Option String}
    (hadmits : R.Admits stored target) :
    ∃ known, Shadows coding stored known ∧ Dict.Below stored R.raw ∧ r.Admits known target := by
  cases target with
  | none =>
    obtain rfl : stored = R.raw := hadmits
    exact ⟨r.raw, h.raw, Dict.Below.refl _, rfl⟩
  | some t =>
    obtain ⟨hnone, first, hm, hfirst, hb⟩ := hadmits
    obtain ⟨⟨t', first'⟩, hm', hid, hshadows⟩ := exists_right h.planned hm
    obtain rfl : t = t' := hid
    refine ⟨r.raw.restrict fun id => (stored.lookup id).isSome, h.raw.restrict hb, hb,
      h.raw.none_iff.mp hnone, first', hm', ?_, below_restrict _ _⟩
    exact hshadows.below_restrict hfirst (hi.kept.planned _ _ hm').1

/-- What a request has for an answer is its result, or the responses of a
pause; either is conveyed by the hooks and taken in by both executors. -/
theorem shadowed_reply (hp : app.Proper) (hi : app.Inv r) (h : Shadowed coding R r)
    (hc : app.Carries coding s stored) (hstored : Shadows coding stored known)
    (hb : Dict.Below stored R.raw) (hadmits : r.Admits known s.env.targetHashedId) :
    ∃ c c', (app.reply s).outcome = .ok c ∧ (app.call s).outcome = .ok c' ∧
      (app.call s).log = (app.reply s).log ∧ Conveyed coding c' c ∧
      Shadowed coding (absorb stored (.ok c') R) (absorb known (.ok c) r) := by
  have hsends := hc.sends hstored
  obtain ⟨hreply, -⟩ := reply_eq hi.kept hp hsends hadmits
  have hknown := (hi.kept.sound.below (admits_below hadmits)).knows hp
  rcases Code.replay_cases hknown with ⟨hok, -⟩ | ⟨pause, hpause, hne, hsub, -⟩
  · have hresult : resultFor s.env (app.code.replay (app.answers known)) = app.result := by
      rw [hok, App.result]
      cases app.code.direct app.value <;> rfl
    rw [hresult] at hreply
    obtain ⟨c', hcall, hlog, hconveyed⟩ := call_conveys hc hreply (transforms_result hc)
    refine ⟨_, c', hreply, hcall, hlog, hconveyed, ?_⟩
    rw [absorb, absorb, app.result_multi, multi_of_result hconveyed]
    exact h
  · rw [hpause] at hreply
    obtain ⟨qs, hopened⟩ := opened_pause hi.kept hp hsends hadmits hpause hne hsub
    have hresponses : responses s.env pause ≠ [] := by
      intro hnil
      have hlen := hopened.reported.length_eq
      rw [hnil] at hlen
      exact hopened.ne_nil (List.eq_nil_of_length_eq_zero hlen)
    obtain ⟨c', hcall, hlog, hconveyed⟩ := call_conveys hc hreply
      (transforms_responses hc (hp.apart.sublist (hsub.map _)) hsub.subset hresponses)
    have hitems : Option.Rel (List.Forall₂ (Conveys coding)) c'.multi
      (some ((responses s.env pause).map CallResult.itemOf)) := hconveyed.items
    obtain ⟨items', hitems', hconveys⟩ : ∃ items', c'.multi = some items' ∧
        List.Forall₂ (Conveys coding) items' ((responses s.env pause).map CallResult.itemOf) := by
      generalize c'.multi = m at hitems
      cases hitems with
      | some hitems => exact ⟨_, rfl, hitems⟩
    refine ⟨_, c', hreply, hcall, hlog, hconveyed, ?_⟩
    rw [absorb, hitems']
    exact shadowed_absorb h hstored hb hopened.reported hconveys hopened.apart hopened.unmemoized

theorem shadowed_send (hp : app.Proper) (hi : app.Inv r) (h : Shadowed coding R r)
    (hc : app.Carries coding s stored) (hstored : Shadows coding stored known)
    (hb : Dict.Below stored R.raw) (hadmits : r.Admits known s.env.targetHashedId) :
    Shadowed coding ((app.storing coding requests).effect (.send stored s) R)
      (app.executor.effect (.send known s) r) := by
  obtain ⟨c, c', hreply, hcall, hlog, hconveyed, hshadowed⟩ :=
    shadowed_reply hp hi h hc hstored hb hadmits
  change Shadowed coding
    { absorb stored (app.call s).outcome R with
      handlers := R.handlers ++ entered (app.call s).log
      answered := R.answered ++ [(stored, (app.call s).outcome)] }
    { absorb known (app.reply s).outcome r with
      handlers := r.handlers ++ entered (app.reply s).log
      answered := r.answered ++ [(known, (app.reply s).outcome)] }
  rw [hcall, hlog, hreply, h.handlers]
  exact ⟨hshadowed.raw, hshadowed.planned, hshadowed.grows, hshadowed.waiting, rfl,
    List.rel_append h.answered (.cons ⟨hstored, c', c, rfl, rfl, hconveyed⟩ .nil)⟩

theorem shadowed_resolve (h : Shadowed coding R r) {id : String} {w : Json}
    (hnone : R.raw.lookup id = none) (hw : coding.stands w (app.resolve id)) :
    Shadowed coding ((app.storing coding requests).effect (.resolve id w) R)
      (app.executor.effect (.resolve id) r) :=
  (Shadowed.insert h hw (h.raw.none_iff.mp hnone)).1

/-- A run of the app with its hooks is a run of the app without. -/
theorem storing_refines (hp : app.Proper) (hserves : app.Serves coding requests)
    (h : (app.storing coding requests).Reachable Machine.Any R) :
    ∃ r, app.executor.Reachable Machine.Any r ∧ Shadowed coding R r := by
  refine h.simulated (shadowed_init app coding requests) fun m R r hr hshadowed he _ => ?_
  have hi := inv_reachable hp hr
  cases m with
  | send stored s =>
    obtain ⟨known, hstored, hb, hadmits⟩ := Shadowed.admits hshadowed hi he.2
    have hc := hserves s stored known he.1 hstored
    exact ⟨.send known s, ⟨hc.sends hstored, hadmits⟩, trivial,
      shadowed_send hp hi hshadowed hc hstored hb hadmits⟩
  | resolve id w =>
    refine ⟨.resolve id, ⟨hshadowed.waiting ▸ he.1, hshadowed.raw.none_iff.mp he.2.1⟩, trivial, ?_⟩
    exact shadowed_resolve hshadowed he.2.1 he.2.2

/-! ## Runs with hooks -/

/-- What the answer to a request with `stored` tells of the direct run: its
result, or some of the steps at which the replay pauses with the memos that
`stored` stands for. -/
inductive Conveyance (app : App σ) (coding : Coding) (R : Record) (stored : Dict Json) :
    Outcome PyError Interrupt CallResult → Prop
  | result {c' : CallResult} : c'.multi = none →
      Conveys coding c'.toCallItem app.result.toCallItem → R.handlers.Perm app.runIds →
      Conveyance app coding R stored (.ok c')
  | reports {c' : CallResult} {known : Dict Json} {pause : Pause} {qs : List Question}
      {items items' : List CallItem} : c'.multi = some items' →
      Shadows coding stored known → app.Sound known →
      app.code.replay (app.answers known) = .error pause → qs ≠ [] →
      qs.Sublist pause.questions → pause.questions.Sublist app.asked →
      List.Forall₂ (app.Reported known) qs items → List.Forall₂ (Conveys coding) items' items →
      Conveyance app coding R stored (.ok c')

theorem Replied.conveyance {c' c : CallResult} (h : app.Replied r known (.ok c))
    (hstored : Shadows coding stored known) (hsound : app.Sound known)
    (hconveyed : Conveyed coding c' c) (hresult : c = app.result → R.handlers.Perm app.runIds) :
    app.Conveyance coding R stored (.ok c') := by
  generalize ho : (.ok c : Outcome PyError Interrupt CallResult) = o at h
  cases h with
  | result =>
    obtain rfl : c = app.result := Outcome.ok.inj ho
    exact .result (multi_of_result hconveyed) (hconveyed.result app.result_multi) (hresult rfl)
  | @reports pause qs items hreplay hne hsub hasked hrep =>
    obtain rfl : c = ⟨⟨none, none, none⟩, some items⟩ := Outcome.ok.inj ho
    have hitems := hconveyed.items
    generalize hm : c'.multi = m at hitems
    cases hitems with
    | some hconveys => exact .reports hm hstored hsound hreplay hne hsub hasked hrep hconveys

/-- In every run of an app with hooks that can be read, what is stored stands
for the memos of the direct run, no handler is called twice, and an answer is
what stands for the direct run's result or tells of its steps. -/
theorem stored_runs_faithful (hp : app.Proper) (hserves : app.Serves coding requests)
    (h : (app.storing coding requests).Reachable Machine.Any R) :
    (∀ id w, R.raw.lookup id = some w →
      ∃ q ∈ app.asked, app.hash q.id = id ∧ coding.stands w (app.raw q)) ∧
    R.handlers.Nodup ∧ R.handlers ⊆ app.runIds ∧
    ∀ a ∈ R.answered, app.Conveyance coding R a.1 a.2 := by
  obtain ⟨r, hr, hshadowed⟩ := storing_refines hp hserves h
  have hi := inv_reachable hp hr
  refine ⟨fun id w hw => ?_, hshadowed.handlers ▸ hi.kept.nodup,
    hshadowed.handlers ▸ hi.handlers_subset, ?_⟩
  · have hid := hshadowed.raw id
    rw [hw] at hid
    generalize hv : r.raw.lookup id = v at hid
    cases hid with
    | some hw =>
      obtain ⟨q, hq, hqid, rfl⟩ := hi.kept.sound id _ hv
      exact ⟨q, hq, hqid, hw⟩
  · rintro ⟨stored, o'⟩ ha
    obtain ⟨⟨known, o⟩, ha', hstored, c', c, rfl, rfl, hconveyed⟩ :=
      exists_right hshadowed.answered ha
    obtain ⟨hbelow, hreplied⟩ := hi.answered _ ha'
    refine hreplied.conveyance hstored (hi.kept.sound.below hbelow) hconveyed fun hc => ?_
    rw [hshadowed.handlers]
    exact hi.handlers_perm hp (mem_replies.mpr ⟨known, hc ▸ ha'⟩)

theorem side_by_side (hp : app.Proper) (hserves : app.Serves coding requests)
    (hrequests : ∀ stored target, (∃ known, app.Sound known ∧ Shadows coding stored known) →
      ∃ s, requests s stored ∧ s.env.targetHashedId = target)
    (hstands : ∀ id, ∃ w, coding.stands w (app.resolve id)) :
    app.Strategy fun r => app.executor.Reachable Machine.Any r ∧
      ∃ R', (app.storing coding requests).Run Machine.Any R R' ∧ Shadowed coding R' r where
  inv r h := inv_reachable hp h.1
  send := by
    rintro r target ⟨hr, R', hrun, hshadowed⟩ hadmits
    have hi := inv_reachable hp hr
    obtain ⟨s, hs, rfl⟩ := hrequests R'.raw target ⟨r.raw, hi.kept.sound, hshadowed.raw⟩
    have hc := hserves s _ _ hs hshadowed.raw
    have hsends := hc.sends hshadowed.raw
    have hadmits' : R'.Admits R'.raw s.env.targetHashedId := by
      cases htarget : s.env.targetHashedId with
      | none => rfl
      | some id =>
        rw [htarget] at hadmits
        obtain ⟨hnone, first, hm, -, -⟩ := hadmits
        obtain ⟨⟨id', first'⟩, hm', hid, -⟩ := exists_left hshadowed.planned hm
        obtain rfl : id' = id := hid
        exact ⟨hshadowed.raw.none_iff.mpr hnone, first', hm', hshadowed.grows _ hm',
          Dict.Below.refl _⟩
    have henabled : app.executor.enabled (.send r.raw s) r := ⟨hsends, hadmits⟩
    have henabled' : (app.storing coding requests).enabled (.send R'.raw s) R' := ⟨hs, hadmits'⟩
    exact ⟨s, hsends, rfl, hr.step _ henabled trivial, _, hrun.step _ henabled' trivial,
      shadowed_send hp hi hshadowed hc hshadowed.raw (Dict.Below.refl _) hadmits⟩
  resolve := by
    rintro r id ⟨hr, R', hrun, hshadowed⟩ hw hnone
    obtain ⟨w, hstandsw⟩ := hstands id
    have hnone' := hshadowed.raw.none_iff.mpr hnone
    have henabled : app.executor.enabled (.resolve id) r := ⟨hw, hnone⟩
    have henabled' : (app.storing coding requests).enabled (.resolve id w) R' :=
      ⟨hshadowed.waiting ▸ hw, hnone', hstandsw⟩
    exact ⟨hr.step _ henabled trivial, _, hrun.step _ henabled' trivial,
      shadowed_resolve hshadowed hnone' hstandsw⟩

/-- From wherever such a run has come there is a way to the result, as long as
there are requests for what can be read. -/
theorem stored_runs_complete (hp : app.Proper) (hserves : app.Serves coding requests)
    (hrequests : ∀ stored target, (∃ known, app.Sound known ∧ Shadows coding stored known) →
      ∃ s, requests s stored ∧ s.env.targetHashedId = target)
    (hstands : ∀ id, ∃ w, coding.stands w (app.resolve id))
    (h : (app.storing coding requests).Reachable Machine.Any R) :
    ∃ R', (app.storing coding requests).Run Machine.Any R R' ∧ ∃ c', .ok c' ∈ R'.replies ∧
      c'.multi = none ∧ Conveys coding c'.toCallItem app.result.toCallItem := by
  obtain ⟨r, hr, hshadowed⟩ := storing_refines hp hserves h
  obtain ⟨t, ⟨-, R', hrun, hshadowed'⟩, hresult⟩ :=
    (side_by_side hp hserves hrequests hstands).completes hp ⟨hr, R, .refl, hshadowed⟩
  obtain ⟨known, ha⟩ := mem_replies.mp hresult
  obtain ⟨⟨stored, o⟩, ha', -, c', c, rfl, hc, hconveyed⟩ := exists_left hshadowed'.answered ha
  obtain rfl : app.result = c := Outcome.ok.inj hc
  exact ⟨R', hrun, c', mem_replies.mpr ⟨stored, ha'⟩, multi_of_result hconveyed,
    hconveyed.result app.result_multi⟩

end App

end Inngest.Durable
