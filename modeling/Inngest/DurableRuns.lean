import Inngest.DurableExecutor
import Inngest.MockedRefinement

/-!
# Runs of durable code

Whatever the order in which an executor targets and resolves steps, the code
gets the answers of the direct run, no handler is called twice, and the run can
always be brought to its result.
-/

set_option autoImplicit false

namespace Inngest.Durable
open ServerLib Errors StepLib Effect Engine Replay History
open ReplayIdentity (Sent)
open Transition (Machine)

namespace App
variable {σ : Type} {app : App σ} {r r' : Record}

structure Inv (app : App σ) (r : Record) : Prop where
  kept : app.Kept r r.handlers
  answered : ∀ a ∈ r.answered, Dict.Below a.1 r.raw ∧ app.Replied r a.1 a.2

theorem kept_init (app : App σ) : app.Inv app.executor.init := by
  change app.Inv ⟨∅, [], [], [], []⟩
  refine ⟨⟨fun id v hv => ?_, fun id first hm => absurd hm List.not_mem_nil,
    fun id hm => absurd hm List.not_mem_nil, List.nodup_nil, fun id => ?_⟩,
    fun a ha => absurd ha List.not_mem_nil⟩
  · cases (AList.lookup_empty id).symm.trans hv
  · refine ⟨fun hm => absurd hm List.not_mem_nil, ?_⟩
    rintro ⟨q, -, -, -, hmemo⟩
    exact absurd (AList.lookup_empty id) hmemo

theorem kept_resolve (hk : app.Kept r r.handlers) (hp : app.Proper) {id : String}
    (hid : id ∈ r.waiting) (hnone : r.raw.lookup id = none) :
    app.Kept { r with raw := r.raw.insert id (app.resolve id) } r.handlers := by
  obtain ⟨q, hq, hcall, rfl⟩ := hk.waiting id hid
  have hraw : app.raw q = app.resolve (app.hash q.id) := by
    cases q with
    | run stepId value => cases hcall
    | call c => rfl
  have hinsert := hk.insert hp hq hnone
  rw [hcall, hraw] at hinsert
  simpa using hinsert

theorem inv_step (hp : app.Proper) (m : Move σ) (hi : app.Inv r) (he : app.executor.enabled m r) :
    app.Inv (app.executor.effect m r) ∧ Dict.Below r.raw (app.executor.effect m r).raw := by
  cases m with
  | send known s =>
    have h := sending hi.kept hp he.1 he.2
    refine ⟨⟨h.kept, fun a ha => ?_⟩, h.below⟩
    rcases List.mem_append.mp ha with ha | ha
    · obtain ⟨hb, hreplied⟩ := hi.answered a ha
      exact ⟨hb.trans h.below, hreplied.mono h.below⟩
    · obtain rfl := List.mem_singleton.mp ha
      exact ⟨(admits_below he.2).trans h.below, h.replied⟩
  | resolve id =>
    have hb : Dict.Below r.raw (r.raw.insert id (app.resolve id)) := Dict.below_insert he.2
    refine ⟨⟨kept_resolve hi.kept hp he.1 he.2, fun a ha => ?_⟩, hb⟩
    obtain ⟨hbelow, hreplied⟩ := hi.answered a ha
    exact ⟨hbelow.trans hb, hreplied.mono hb⟩

theorem inv_reachable (hp : app.Proper) (h : app.executor.Reachable Machine.Any r) : app.Inv r :=
  h.invariant (kept_init app) fun m _ _ hi he _ => (inv_step hp m hi he).1

theorem mem_replies {o : Outcome PyError Interrupt CallResult} :
    o ∈ r.replies ↔ ∃ known, (known, o) ∈ r.answered := by
  rw [Record.replies, List.mem_map]
  constructor
  · rintro ⟨⟨known, o⟩, ha, rfl⟩
    exact ⟨known, ha⟩
  · rintro ⟨known, ha⟩
    exact ⟨_, ha, rfl⟩

theorem reply_mem (app : App σ) (known : Dict Json) (s : Sent σ) (r : Record) :
    (app.reply s).outcome ∈ (app.executor.effect (.send known s) r).replies :=
  mem_replies.mpr ⟨known, List.mem_append_right _ (List.mem_singleton_self _)⟩

theorem replied_result {known : Dict Json} (h : app.Replied r known (.ok app.result)) :
    ∀ q ∈ app.asked, r.raw.lookup (app.hash q.id) ≠ none := by
  have hmulti := app.result_multi
  generalize hx : app.result = x at h hmulti
  cases h with
  | result _ hall => exact hall
  | reports => cases hmulti

def runIds (app : App σ) : List String :=
  (app.asked.filter Question.isRun).map fun q => app.hash q.id

theorem mem_runIds {id : String} :
    id ∈ app.runIds ↔ ∃ q ∈ app.asked, q.isRun = true ∧ app.hash q.id = id := by
  simp only [runIds, List.mem_map, List.mem_filter, and_assoc]

theorem nodup_runIds (hp : app.Proper) : app.runIds.Nodup :=
  hp.apart.sublist (List.filter_sublist.map _)

theorem Inv.memoized (hi : app.Inv r) (hresult : .ok app.result ∈ r.replies) :
    ∀ q ∈ app.asked, r.raw.lookup (app.hash q.id) ≠ none := by
  obtain ⟨known, ha⟩ := mem_replies.mp hresult
  exact replied_result (hi.answered _ ha).2

theorem Inv.handlers_subset (hi : app.Inv r) : r.handlers ⊆ app.runIds := by
  intro id hid
  obtain ⟨q, hq, hrun, hqid, -⟩ := (hi.kept.handlers id).mp hid
  exact mem_runIds.mpr ⟨q, hq, hrun, hqid⟩

theorem Inv.handlers_perm (hi : app.Inv r) (hp : app.Proper)
    (hresult : .ok app.result ∈ r.replies) : r.handlers.Perm app.runIds := by
  have hall := hi.memoized hresult
  rw [List.perm_ext_iff_of_nodup hi.kept.nodup (nodup_runIds hp)]
  intro id
  rw [hi.kept.handlers, mem_runIds]
  constructor
  · rintro ⟨q, hq, hrun, hid, -⟩
    exact ⟨q, hq, hrun, hid⟩
  · rintro ⟨q, hq, hrun, rfl⟩
    exact ⟨q, hq, hrun, rfl, hall q hq⟩

theorem raw_of_result (hp : app.Proper) (hi : app.Inv r) (hresult : .ok app.result ∈ r.replies)
    (id : String) (v : Json) :
    r.raw.lookup id = some v ↔ ∃ q ∈ app.asked, app.hash q.id = id ∧ v = app.raw q := by
  refine ⟨hi.kept.sound id v, ?_⟩
  rintro ⟨q, hq, rfl, rfl⟩
  have hmemo := hi.memoized hresult q hq
  obtain ⟨v, hv⟩ := Option.ne_none_iff_exists'.mp hmemo
  rw [hv, hi.kept.sound.lookup hp hq hv]

def missing (app : App σ) (r : Record) : ℕ :=
  app.asked.countP fun q => r.raw.lookup (app.hash q.id) = none

theorem missing_lt (hb : Dict.Below r.raw r'.raw) {q : Question} (hq : q ∈ app.asked)
    (hnone : r.raw.lookup (app.hash q.id) = none)
    (hsome : r'.raw.lookup (app.hash q.id) ≠ none) : app.missing r' < app.missing r := by
  have hmono : ∀ p, r'.raw.lookup (app.hash p) = none → r.raw.lookup (app.hash p) = none := by
    intro p hp
    cases hv : r.raw.lookup (app.hash p) with
    | none => rfl
    | some v =>
      rw [hb _ _ hv] at hp
      cases hp
  obtain ⟨before, after, heq⟩ := List.append_of_mem hq
  rw [missing, missing, heq, List.countP_append, List.countP_append, List.countP_cons_of_neg
    (by simpa using hsome), List.countP_cons_of_pos (by simpa using hnone)]
  have hle : ∀ qs : List Question,
      qs.countP (fun q => r'.raw.lookup (app.hash q.id) = none) ≤
        qs.countP fun q => r.raw.lookup (app.hash q.id) = none :=
    fun qs => List.countP_mono_left fun p _ hp => by simpa using hmono p.id (by simpa using hp)
  have := hle before
  have := hle after
  omega

/-- Wherever it stands there is a request for every target, and what waits is
resolved. -/
structure Strategy (app : App σ) (holds : Record → Prop) : Prop where
  inv : ∀ r, holds r → app.Inv r
  send : ∀ r target, holds r → r.Admits r.raw target → ∃ s, app.Sends s r.raw ∧
    s.env.targetHashedId = target ∧ holds (app.executor.effect (.send r.raw s) r)
  resolve : ∀ r id, holds r → id ∈ r.waiting → r.raw.lookup id = none →
    holds (app.executor.effect (.resolve id) r)

variable {holds : Record → Prop}

theorem Strategy.exists_memo (hst : app.Strategy holds) (hp : app.Proper) (h : holds r)
    {q : Question} (hhandled : app.Handled r q) :
    ∃ r', holds r' ∧ Dict.Below r.raw r'.raw ∧
      (.ok app.result ∈ r'.replies ∨ r'.raw.lookup (app.hash q.id) ≠ none) := by
  have hi := hst.inv r h
  by_cases hnone : r.raw.lookup (app.hash q.id) = none
  · rcases hhandled with hmemo | ⟨first, hm⟩ | hw
    · exact absurd hnone hmemo
    · have hadmits : r.Admits r.raw (some (app.hash q.id)) :=
        ⟨hnone, first, hm, (hi.kept.planned _ _ hm).1, Dict.Below.refl _⟩
      obtain ⟨s, hs, ht, hnext⟩ := hst.send r _ h hadmits
      have hsending := sending hi.kept hp hs (ht ▸ hadmits)
      refine ⟨_, hnext, hsending.below, ?_⟩
      rcases hsending.progress with hresult | ⟨p, hp', -, -, htarget⟩
      · exact .inl (hresult ▸ reply_mem app r.raw s r)
      · rw [ht] at htarget
        rcases htarget with htarget | ⟨htarget, hmemo⟩
        · cases htarget
        · rw [Option.some.inj htarget]
          exact .inr hmemo
    · refine ⟨_, hst.resolve r _ h hw hnone, Dict.below_insert hnone, .inr ?_⟩
      change (r.raw.insert (app.hash q.id) (app.resolve (app.hash q.id))).lookup _ ≠ none
      simp
  · exact ⟨r, h, Dict.Below.refl _, .inr hnone⟩

theorem Strategy.completes (hst : app.Strategy holds) (hp : app.Proper) (h : holds r) :
    ∃ r', holds r' ∧ .ok app.result ∈ r'.replies := by
  induction hn : app.missing r using Nat.strong_induction_on generalizing r with
  | h n ih =>
    obtain ⟨s, hs, ht, hnext⟩ := hst.send r none h rfl
    have hadmits : r.Admits r.raw s.env.targetHashedId := by
      rw [ht]
      exact rfl
    have hsending := sending (hst.inv r h).kept hp hs hadmits
    rcases hsending.progress with hresult | ⟨q, hq, hnone, hhandled, -⟩
    · exact ⟨_, hnext, hresult ▸ reply_mem app r.raw s r⟩
    · obtain ⟨r', h', hb, hend⟩ := hst.exists_memo hp hnext hhandled
      rcases hend with hend | hmemo
      · exact ⟨r', h', hend⟩
      · exact ih _ (hn ▸ missing_lt (hsending.below.trans hb) hq hnone hmemo) h' rfl

theorem sends_logger {known : Dict Json} {s : Sent σ} (hhash : s.env.hash = app.hash)
    (hser : s.env.serializer = none) (hm : s.env.middleware = [.logger])
    (hmemos : s.inv.memos = StepMemos.fromRaw app.loads known) : app.Sends s known := by
  obtain ⟨t, l, hprepare, hframe⟩ := prepare_logger (r := Scope.top)
    (s := s.inv.initial) hm s.inv.ctx
  have hprepared : prepared s.env s.inv = ⟨.ok (.ok s.inv.ctx), t, l⟩ := hprepare
  refine ⟨hhash, hser, ⟨s.inv.ctx, by rw [hprepared]⟩, ?_, fun u => ?_⟩
  · rw [hprepared]
    exact fun id => congrArg (AList.lookup id) (hframe.memos.trans hmemos)
  · rw [Execution.afterError, hm]
    rfl

end App

/-! ## A step, and a group of a step and a sleep -/

namespace Sample

def code : Code :=
  .ask (.run "a" (.int 1)) fun x =>
    .group .wait
      [.ask (.run "b" (.int 2)) fun y => .ret (y.toOption.getD .null),
        .ask (.call (Step.sleepUntil "c" "2030-01-01T00:00:00Z")) fun _ => .ret .null]
      fun outputs => .ret (x.map fun v => .arr (v :: outputs))

def app : App Unit where
  id := "app-fn"
  hash := Inngest.Sample.hashStepId
  loads _ := none
  fn _ := codeBody code
  outputType := none
  code := code
  resolve _ := .obj [("data", .null)]
  fn_eq _ := rfl

def sent (known : Dict Json) (target : Option String) : Sent Unit :=
  ⟨Inngest.Sample.env target,
    { Inngest.Sample.invocation [] with memos := StepMemos.fromRaw app.loads known }⟩

theorem sends (known : Dict Json) (target : Option String) : app.Sends (sent known target) known :=
  App.sends_logger rfl rfl rfl rfl

theorem asked_app : app.asked = [.run "a" (.int 1), .run "b" (.int 2),
    .call (Step.sleepUntil "c" "2030-01-01T00:00:00Z")] := rfl

theorem proper : app.Proper := by
  constructor
  · rw [Apart, asked_app]
    decide
  · intro q hq
    rw [asked_app] at hq
    rcases List.mem_cons.mp hq with rfl | hq
    · trivial
    · rcases List.mem_cons.mp hq with rfl | hq
      · trivial
      · obtain rfl := List.mem_singleton.mp hq
        exact ⟨none, rfl⟩

example : app.result = CallResult.ofOutput (.arr [.int 1, .int 2, .null]) := rfl

/-! The first request runs the first step, the second one plans the group. The
planned step and the sleep are dealt with in both orders, the step with the
memos it was planned with. -/

def afterStep : Dict Json := (∅ : Dict Json).insert (app.hash "a") (.obj [("data", .int 1)])

def targeting : Move Unit := .send afterStep (sent afterStep (some (app.hash "b")))

def waking : Move Unit := .resolve (app.hash "c")

def finish (r : Record) : Record := app.executor.effect (.send r.raw (sent r.raw none)) r

def stepped : Record := app.executor.effect (.send ∅ (sent ∅ none)) app.executor.init

def planned : Record := app.executor.effect (.send afterStep (sent afterStep none)) stepped

def slept : Record := app.executor.effect waking (app.executor.effect targeting planned)

def targeted : Record := app.executor.effect targeting (app.executor.effect waking planned)

theorem reachable_finish {r : Record} (h : app.executor.Reachable Machine.Any r) :
    app.executor.Reachable Machine.Any (finish r) :=
  h.step _ ⟨sends r.raw none, rfl⟩ trivial

theorem reachable_planned : app.executor.Reachable Machine.Any planned := by
  have hstepped : app.executor.Reachable Machine.Any stepped :=
    .step (M := app.executor) (.send ∅ (sent ∅ none)) .init ⟨sends ∅ none, rfl⟩ trivial
  exact hstepped.step _ ⟨sends afterStep none, rfl⟩ trivial

/-- What was planned stays planned, and what it was planned with stays known. -/
theorem reachable_targeting {r : Record} (h : app.executor.Reachable Machine.Any r)
    (hids : app.hash "b" ∈ r.planned.map Prod.fst) (hnone : r.raw.lookup (app.hash "b") = none)
    (hfirst : ∀ p ∈ r.planned, p.2.entries = afterStep.entries) :
    app.executor.Reachable Machine.Any (app.executor.effect targeting r) := by
  obtain ⟨⟨id, first⟩, hm, hid⟩ := List.mem_map.mp hids
  obtain rfl : id = app.hash "b" := hid
  obtain rfl : first = afterStep := AList.ext (hfirst _ hm)
  have hbelow := ((App.inv_reachable proper h).kept.planned _ _ hm).1
  exact h.step targeting
    ⟨sends afterStep (some (app.hash "b")), hnone, afterStep, hm, Dict.Below.refl _, hbelow⟩ trivial

theorem reachable_slept : app.executor.Reachable Machine.Any slept := by
  have h := reachable_targeting reachable_planned (by decide +kernel) (by decide +kernel)
    (by decide +kernel)
  exact h.step waking ⟨by decide +kernel, by decide +kernel⟩ trivial

theorem reachable_targeted : app.executor.Reachable Machine.Any targeted := by
  have h : app.executor.Reachable Machine.Any (app.executor.effect waking planned) :=
    reachable_planned.step waking ⟨by decide +kernel, by decide +kernel⟩ trivial
  exact reachable_targeting h (by decide +kernel) (by decide +kernel) (by decide +kernel)

end Sample

end Inngest.Durable
