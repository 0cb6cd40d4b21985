import Inngest.GroupIdentity
import Inngest.Transition

/-!
# Step identity in a run

A run is every request that an executor sends while it memoizes outputs. Two
of them give a step call the same hashed ID, unless a reused ID is called off the
common path or shared by callables of different progress.
-/

set_option autoImplicit false

namespace Inngest.ReplayIdentity
open ServerLib Errors StepLib Effect Engine History StepCalls StepIdentity GroupIdentity

variable {σ : Type}

/-! ## Runs

The executor of a run: it memoizes an output once for each ID, and sends any
requests whose memos, as the function gets them, are among those it knows. -/

structure Sent (σ : Type) where
  env : Env σ
  inv : Invocation σ

structure Progress (σ : Type) where
  record : StepMemos
  sent : List (Sent σ)

inductive Move (σ : Type) where
  | memoize (id : String) (output : Output)
  | send (q : Sent σ)

structure App (σ : Type) where
  hash : String → String
  serializer : Option Serializer
  fn : Context → Body σ
  outputType : Option OutputType
  b : Body σ

namespace App

def log (app : App σ) (q : Sent σ) : List Mark := (request q.env app.fn app.outputType q.inv).log

def Sends (app : App σ) (q : Sent σ) (record : StepMemos) : Prop :=
  q.env.hash = app.hash ∧ q.env.serializer = app.serializer ∧
    Dict.Below (prepared q.env q.inv).state.memos record ∧
    ∀ ctx, (prepared q.env q.inv).outcome = .ok (.ok ctx) → app.fn ctx = app.b

def executor (app : App σ) : Transition.Machine (Progress σ) (Move σ) where
  init := ⟨∅, []⟩
  enabled
    | .memoize id _, p => p.record.lookup id = none
    | .send q, p => app.Sends q p.record
  effect
    | .memoize id output, p => { p with record := p.record.insert id output }
    | .send q, p => { p with sent := p.sent ++ [q] }

/-- The step calls of the function's code. -/
def calls (app : App σ) : List ℕ → String → Prop := CallsAt app.b [0]

/-- No request of the run calls a reused ID off the common path. -/
def KeepsStraight (app : App σ) : Move σ → Progress σ → Prop
  | .memoize _ _, _ => True
  | .send q, _ => Straight app.calls (app.log q)

end App

/-- The call at the place `p` was answered from the memo of `id`. -/
def Answered (l : List Mark) (p : List ℕ) (id : String) : Prop :=
  ∃ before after running inParallel,
    l = before ++ .parsed p id running :: .reported id true inParallel :: after

def Ran (l : List Mark) (p : List ℕ) (id : String) : Prop :=
  ∃ before between after running inParallel memosLeft,
    l = before ++ .parsed p id running :: (between ++ .enter id inParallel memosLeft :: after) ∧
      calls between = []

/-- The two histories identify their step calls alike. -/
structure Stable (l l' : List Mark) : Prop where
  same : ∀ p id id', (p, id) ∈ calls l → (p, id') ∈ calls l' → id = id'
  apart : ∀ p p' id, (p, id) ∈ calls l → (p', id) ∈ calls l' → p = p'
  /-- a memo goes to the call whose handler gave the output -/
  memo : ∀ p p' id, Ran l p id → Answered l' p' id → p = p'

theorem mem_calls_answered {l : List Mark} {p : List ℕ} {id : String} (h : Answered l p id) :
    (p, id) ∈ calls l := by
  obtain ⟨before, after, running, inParallel, rfl⟩ := h
  simp [callOf]

theorem mem_calls_ran {l : List Mark} {p : List ℕ} {id : String} (h : Ran l p id) :
    (p, id) ∈ calls l := by
  obtain ⟨before, between, after, running, inParallel, memosLeft, rfl, -⟩ := h
  simp [callOf]

theorem stable_of_apart {l l' : List Mark}
    (hs : ∀ p id id', (p, id) ∈ calls l → (p, id') ∈ calls l' → id = id')
    (ha : ∀ p p' id, (p, id) ∈ calls l → (p', id) ∈ calls l' → p = p') : Stable l l' :=
  ⟨hs, ha, fun _ _ _ hr hm => ha _ _ _ (mem_calls_ran hr) (mem_calls_answered hm)⟩

/-! ## Two requests -/

section Whole
variable {hash : String → String} {C : List ℕ → String → Prop} {s s' : State σ} {d d' : Run σ Json}

theorem first_of_sole (ht : Tally hash C s d.state d.log) (h0 : ∀ u, s.counts u = 0)
    {p : List ℕ} {id : String} (hp : Sole C p) (h : (p, id) ∈ calls d.log) :
    ∃ u, C p u ∧ id = hash (preHashed u 1) := by
  obtain ⟨u, c, hu, hlt, hle, he⟩ := ht.numbered p id h
  have honce := ht.once u fun q q' hq hq' =>
    ((hp u q u hu hq).mpr rfl).trans ((hp u q' u hu hq').mpr rfl).symm
  have h0u := h0 u
  obtain rfl : c = 1 := by omega
  exact ⟨u, hu, he⟩

theorem stable_of_pair (htells : Tells hash fun u => ∃ q, C q u) {later : String → Prop}
    (h : Pair C C later s s' d d') (ht : Tally hash C s d.state d.log)
    (ht' : Tally hash C s' d'.state d'.log) (h0 : ∀ u, s.counts u = 0)
    (h0' : ∀ u, s'.counts u = 0) : Stable d.log d'.log := by
  refine stable_of_apart (fun p id id' hm hm' => ?_) fun p p' id hm hm' => ?_
  · by_cases hp : Sole C p
    · obtain ⟨u, hu, rfl⟩ := first_of_sole ht h0 hp hm
      obtain ⟨u', hu', rfl⟩ := first_of_sole ht' h0' hp hm'
      rw [(hp u p u' hu hu').mp rfl]
    · exact h.same p id id' hp hm hm'
  · obtain ⟨u, c, hu, hlt, -, he⟩ := ht.numbered p id hm
    obtain ⟨u', c', hu', hlt', -, he'⟩ := ht'.numbered p' id hm'
    obtain rfl : u = u' := (htells u u' c c' ⟨p, hu⟩ ⟨p', hu'⟩ (Nat.zero_lt_of_lt hlt)
      (Nat.zero_lt_of_lt hlt') (he.symm.trans he')).1
    by_cases hp : Sole C p
    · exact ((hp u p' u hu hu').mpr rfl).symm
    · by_cases hp' : Sole C p'
      · exact (hp' u p u hu' hu).mpr rfl
      · exact h.apart p p' id hp hp' hm hm'

end Whole

section Runs
variable {app : App σ}

theorem calls_hooks {l : List Mark} (h : HooksOnly l) : calls l = [] :=
  filterMap_hooks h fun _ _ => rfl

theorem calls_log (app : App σ) {q : Sent σ} {ctx : Context}
    (h : (prepared q.env q.inv).outcome = .ok (.ok ctx)) :
    calls (app.log q) = calls (codeRun q.env app.fn q.inv ctx).log := by
  rw [App.log, request_log app.fn app.outputType h, calls_append,
    calls_hooks (prepared_log q.env q.inv), List.nil_append]

theorem calls_stopped (app : App σ) {q : Sent σ} {e : PyError}
    (h : (prepared q.env q.inv).outcome = .ok (.error e)) : calls (app.log q) = [] := by
  rw [App.log, request_stopped app.fn app.outputType h]
  exact calls_hooks (prepared_log q.env q.inv)

theorem prepared_counts {q : Sent σ} {ctx : Context}
    (h : (prepared q.env q.inv).outcome = .ok (.ok ctx)) :
    (prepared q.env q.inv).state.counts = fun _ => 0 := by
  have hd := prepared_done q.env q.inv
  generalize prepared q.env q.inv = d at h hd
  cases hd with
  | refused => simp at h
  | hookFailed => simp at h
  | replaying _ _ hc => exact hc
  | fresh _ _ hc => exact hc

theorem stable_requests (hdet : Deterministic app.b) (hsep : Separated app.b)
    (htells : Tells app.hash (Uses app.b)) {record : StepMemos} {q q' : Sent σ}
    (hq : app.Sends q record) (hq' : app.Sends q' record) (hs : Straight app.calls (app.log q))
    (hs' : Straight app.calls (app.log q')) : Stable (app.log q) (app.log q') := by
  obtain ⟨x, hx⟩ := prepared_outcome q.env q.inv
  obtain ⟨x', hx'⟩ := prepared_outcome q'.env q'.inv
  cases x with
  | error e =>
    have hc := calls_stopped app hx
    exact stable_of_apart (fun p _ _ h => by simp [hc] at h) fun _ _ _ h => by simp [hc] at h
  | ok ctx =>
    cases x' with
    | error e =>
      have hc := calls_stopped app hx'
      exact stable_of_apart (fun p _ _ _ h => by simp [hc] at h) fun _ _ _ _ h => by simp [hc] at h
    | ok ctx' =>
      have hp : Peers app.hash q.env q'.env := ⟨hq.1, hq'.1, hq.2.1.trans hq'.2.1.symm⟩
      have htells' : Tells app.hash fun u => ∃ p, app.calls p u := by
        rintro u u' c c' ⟨p, hu⟩ ⟨p', hu'⟩
        exact htells u u' c c' (uses_of_callsAt hu) (uses_of_callsAt hu')
      have hzero := prepared_counts hx
      have hzero' := prepared_counts hx'
      rw [App.log, request_log app.fn app.outputType hx] at hs
      rw [App.log, request_log app.fn app.outputType hx'] at hs'
      have hs := (straight_append hs).2.1
      have hs' := (straight_append hs').2.1
      rw [codeRun, hq.2.2.2 ctx hx] at hs
      rw [codeRun, hq'.2.2.2 ctx' hx'] at hs'
      have hpair := twin_interp htells' hdet hsep hp (r := Scope.top) rfl rfl (fun p u hu => hu)
        hq.2.2.1 hq'.2.2.1 (fun p u _ => by rw [hzero, hzero']) hs hs'
      have h := stable_of_pair htells' hpair (hq.1 ▸ tally_interp app.b Scope.top _ rfl)
        (hq'.1 ▸ tally_interp app.b Scope.top _ rfl) (fun u => by rw [hzero])
        fun u => by rw [hzero']
      have hl := calls_log app hx
      have hl' := calls_log app hx'
      rw [codeRun, hq.2.2.2 ctx hx] at hl
      rw [codeRun, hq'.2.2.2 ctx' hx'] at hl'
      exact stable_of_apart (fun p id₁ id₂ h₁ h₂ => h.same p id₁ id₂ (hl ▸ h₁) (hl' ▸ h₂))
        fun p₁ p₂ id h₁ h₂ => h.apart p₁ p₂ id (hl ▸ h₁) (hl' ▸ h₂)

def Known (app : App σ) (p : Progress σ) : Prop :=
  ∀ q ∈ p.sent, app.Sends q p.record ∧ Straight app.calls (app.log q)

theorem known_reachable {p : Progress σ} (hp : app.executor.Reachable app.KeepsStraight p) :
    Known app p := by
  refine hp.invariant (by simp [Known, App.executor]) fun e p _ hk he ho => ?_
  cases e with
  | memoize id output =>
    intro q hq
    obtain ⟨⟨hh, hser, hm, hb⟩, hs⟩ := hk q hq
    exact ⟨⟨hh, hser, hm.trans (Dict.below_insert he), hb⟩, hs⟩
  | send q =>
    intro q' hq'
    rcases List.mem_append.mp hq' with hq' | hq'
    · exact hk q' hq'
    · obtain rfl := List.mem_singleton.mp hq'
      exact ⟨he, ho⟩

end Runs

theorem straight_of_sole {C : List ℕ → String → Prop} (h : ∀ p, Sole C p) (l : List Mark) :
    Straight C l := by
  induction l with
  | nil => trivial
  | cons m l ih => exact ⟨fun _ ⟨c, _, hc⟩ => hc (h c.1), ih⟩

/-! A group whose exception is caught: the code goes on with `c`, and then both
ways meet at `d`. -/

def caughtGroup : Body Unit :=
  .parallel 2
    (fun i => match i with
      | 0 => GroupResults.runThenReturn "a" (.int 1)
      | 1 => GroupResults.runThenReturn "b" (.int 2))
    .wait fun
      | .ok _ => .site 2 (.run "d" none (.ret .null) fun _ => .ret .null)
      | .error _ => .run "c" none (.ret .null) fun _ =>
        .site 2 (.run "d" none (.ret .null) fun _ => .ret .null)

theorem callsAt_caughtGroup {p : List ℕ} {u : String} (h : CallsAt caughtGroup [0] p u) :
    (p = [0, 0, 0] ∧ u = "a") ∨ (p = [0, 1, 0] ∧ u = "b") ∨ (p = [1] ∧ u = "c") ∨
      (p = [2] ∧ u = "d") := by
  rcases h with ⟨i, h⟩ | ⟨x, h⟩
  · match i with
    | 0 =>
      rcases h with h | h | ⟨x, h⟩
      · exact .inl h
      · exact h.elim
      · cases x <;> exact h.elim
    | 1 =>
      rcases h with h | h | ⟨x, h⟩
      · exact .inr (.inl h)
      · exact h.elim
      · cases x <;> exact h.elim
  · cases x with
    | ok v =>
      rcases h with h | h | ⟨x, h⟩
      · exact .inr (.inr (.inr h))
      · exact h.elim
      · exact h.elim
    | error e =>
      rcases h with h | h | ⟨x, h⟩
      · exact .inr (.inr (.inl h))
      · exact h.elim
      · rcases h with h | h | ⟨x, h⟩
        · exact .inr (.inr (.inr h))
        · exact h.elim
        · exact h.elim

example (l : List Mark) : Straight (CallsAt caughtGroup [0]) l := by
  refine straight_of_sole (fun p u p' u' h h' => ?_) l
  rcases callsAt_caughtGroup h with ⟨rfl, rfl⟩ | ⟨rfl, rfl⟩ | ⟨rfl, rfl⟩ | ⟨rfl, rfl⟩ <;>
    rcases callsAt_caughtGroup h' with ⟨rfl, rfl⟩ | ⟨rfl, rfl⟩ | ⟨rfl, rfl⟩ | ⟨rfl, rfl⟩ <;> simp

/-! Two callables use the step ID `a`, the first one only after `b`. -/

def sharedId : Body Unit :=
  .parallel 2
    (fun i => match i with
      | 0 => .run "b" none (.ret .null) fun _ =>
        .run "a" none (.ret (.int 10)) fun _ => .ret .null
      | 1 => .run "a" none (.ret (.int 20)) fun _ => .ret .null)
    .wait (fun _ => .ret .null)

def sharedApp : App Unit := ⟨Sample.hashStepId, none, fun _ => sharedId, none, sharedId⟩

def targeted : Sent Unit := ⟨Sample.env (Sample.hashStepId "a"), Sample.invocation []⟩

def replayed : Sent Unit :=
  ⟨Sample.env none, Sample.invocation [("b", ⟨.null, none⟩), ("a", ⟨.int 20, none⟩)]⟩

def sharedRun : Progress Unit :=
  ⟨((∅ : StepMemos).insert (Sample.hashStepId "b") ⟨.null, none⟩).insert
    (Sample.hashStepId "a") ⟨.int 20, none⟩, [targeted, replayed]⟩

theorem targeted_sends (record : StepMemos) : sharedApp.Sends targeted record :=
  ⟨rfl, rfl, fun k v hk => by
    have hm : (prepared targeted.env targeted.inv).state.memos = ∅ := rfl
    simp [hm] at hk, fun _ _ => rfl⟩

theorem replayed_sends : sharedApp.Sends replayed sharedRun.record := by
  refine ⟨rfl, rfl, fun k v hk => ?_, fun _ _ => rfl⟩
  have hm : (prepared replayed.env replayed.inv).state.memos =
      ((∅ : StepMemos).insert (Sample.hashStepId "a") ⟨.int 20, none⟩).insert
        (Sample.hashStepId "b") ⟨.null, none⟩ := rfl
  rw [hm] at hk
  rw [sharedRun]
  by_cases ha : k = Sample.hashStepId "a"
  · subst ha
    exact hk
  · rw [AList.lookup_insert_ne ha]
    by_cases hb : k = Sample.hashStepId "b"
    · subst hb
      exact hk
    · rw [AList.lookup_insert_ne hb, AList.lookup_insert_ne ha] at hk
      simp at hk

theorem sharedRun_reachable : sharedApp.executor.Reachable Transition.Machine.Any sharedRun := by
  have h₀ : sharedApp.executor.Reachable Transition.Machine.Any sharedApp.executor.init := .init
  have h₁ := h₀.step (Move.send targeted) (targeted_sends _) trivial
  have h₂ := h₁.step (Move.memoize (Sample.hashStepId "b") ⟨.null, none⟩) (by rfl) trivial
  have h₃ := h₂.step (Move.memoize (Sample.hashStepId "a") ⟨.int 20, none⟩) (by rfl) trivial
  exact h₃.step (Move.send replayed) replayed_sends trivial

def reusedId : Body Unit :=
  .parallel 2
    (fun i => match i with
      | 0 => .run "a" none (.ret (.int 10)) fun _ => .ret .null
      | 1 => .run "a" none (.ret (.int 20)) fun _ => .ret .null)
    .wait (fun _ => .ret .null)

def reusedApp : App Unit := ⟨Sample.hashStepId, none, fun _ => reusedId, none, reusedId⟩

theorem uses_reusedId {u : String} (h : Uses reusedId u) : u = "a" := by
  rcases h with ⟨i, h⟩ | ⟨x, h⟩
  · match i with
    | 0 => exact h.elim id fun h => h.elim False.elim fun ⟨_, h⟩ => h.elim
    | 1 => exact h.elim id fun h => h.elim False.elim fun ⟨_, h⟩ => h.elim
  · exact h.elim

theorem hashStepId_later {c : ℕ} (hc : 2 < c) :
    Sample.hashStepId (preHashed "a" c) = "a:" ++ toString (c - 1) := by
  have htext : preHashed "a" c = "a:" ++ toString (c - 1) := by
    rw [preHashed, if_pos (by omega)]
    rfl
  have hne : ∀ {d}, 0 < d → d ≤ 2 → preHashed "a" c ≠ preHashed "a" d := fun hd hle he => by
    have := preHashed_injective (by omega) hd he
    omega
  have hhead : (preHashed "a" c).toList.head? = some 'a' := by
    rw [htext, String.toList_append]
    rfl
  rw [← htext, Sample.hashStepId]
  · exact hne (d := 1) (by omega) (by omega)
  · intro he
    simp [he] at hhead
  · intro he
    simp [he] at hhead
  · intro he
    simp [he] at hhead
  · exact hne (d := 2) (by omega) (by omega)

theorem tells_reusedId : Tells Sample.hashStepId (Uses reusedId) := by
  have hhead : ∀ {c}, 0 < c → (Sample.hashStepId (preHashed "a" c)).toList.head? =
      some (if c = 1 then '8' else if c = 2 then 'd' else 'a') := by
    intro c hc
    by_cases h1 : c = 1
    · subst h1
      rfl
    · by_cases h2 : c = 2
      · subst h2
        rfl
      · rw [hashStepId_later (by omega), if_neg h1, if_neg h2, String.toList_append]
        rfl
  intro u u' c c' hu hu' hc hc' h
  obtain rfl := uses_reusedId hu
  obtain rfl := uses_reusedId hu'
  have hc1 := (hhead hc).symm.trans ((congrArg _ (congrArg _ h)).trans (hhead hc'))
  refine ⟨rfl, ?_⟩
  by_cases hle : 2 < c ∧ 2 < c'
  · rw [hashStepId_later hle.1, hashStepId_later hle.2, ← String.toList_inj] at h
    simp only [String.toList_append, List.append_cancel_left_eq, String.toList_inj] at h
    have := toString_injective h
    omega
  · split_ifs at hc1 <;> first | omega | simp at hc1

def discovery : Sent Unit := ⟨Sample.env none, Sample.invocation []⟩

end Inngest.ReplayIdentity
