import Mathlib.Data.List.Sort
import Inngest.StepIdentity

/-!
# Groups under replay

The loop of `Group.parallel` in two replays of a run: while no callable has
used an ID that a later one uses, the counter stands alike for each of them.
-/

set_option autoImplicit false

namespace Inngest.GroupIdentity
open ServerLib Errors StepLib Effect Engine History StepCalls StepIdentity

variable {σ : Type}

/-! ## The callables of a group -/

section Loop
variable {hash : String → String} {record : StepMemos} {C : List ℕ → String → Prop}
  {env env₁ env₂ : Env σ} {n : ℕ} {callables : Fin n → Body σ} {r : Scope} {q : List ℕ}
  {s s₁ s₂ : State σ}

def loopRun (env : Env σ) (callables : Fin n → Body σ) (is : List (Fin n)) (as : List Json)
    (ds : List StepResponse) (r : Scope) (s : State σ) : Run σ (List Json × List StepResponse) :=
  collect Group.caught (fun responses => [.abandoned responses])
    (is.map (callableRun env callables)) as ds r s

def Whole (m : ℕ) (d : Run σ (List Json × List StepResponse)) : Prop :=
  ∃ x, d.outcome = .ok x ∧ x.1.length = m

inductive Turn (env : Env σ) (callables : Fin n → Body σ) (is : List (Fin n)) (as : List Json)
    (ds : List StepResponse) (r : Scope) (c : Run σ Json) :
    Run σ (List Json × List StepResponse) → Prop where
  | stopped {o} : (∀ x, o ≠ .ok x) →
      Turn env callables is as ds r c ⟨o, c.state, c.log ++ [.abandoned ds]⟩
  | ok {a} : c.outcome = .ok a →
      Turn env callables is as ds r c
        ((loopRun env callables is (as ++ [a]) ds r c.state).after c.log)
  | caught {i new} : c.outcome = .intr i → Group.caught i = some new →
      Turn env callables is as ds r c
        ((loopRun env callables is as (ds ++ new) r c.state).after c.log)

theorem turn_done (env : Env σ) (callables : Fin n → Body σ) (i : Fin n) (is : List (Fin n))
    (as : List Json) (ds : List StepResponse) (r : Scope) (s : State σ) :
    Turn env callables is as ds r (callableRun env callables i r s)
      (loopRun env callables (i :: is) as ds r s) := by
  rw [loopRun, List.map_cons]
  cases ho : (callableRun env callables i r s).outcome with
  | ok a =>
    rw [collect_ok ho]
    exact .ok ho
  | exc e =>
    rw [collect_exc ho]
    exact .stopped (by simp)
  | intr j =>
    cases ha : Group.caught j with
    | some new =>
      rw [collect_absorbed ho ha]
      exact .caught ho ha
    | none =>
      rw [collect_escaped ho ha]
      exact .stopped (by simp)

def Left (callables : Fin n → Body σ) (is : List (Fin n)) (q p : List ℕ) (u : String) : Prop :=
  ∃ j ∈ is, CallsAt (callables j) (0 :: j.val :: q) p u

structure LoopRest (hash : String → String) (callables : Fin n → Body σ) (is : List (Fin n))
    (q : List ℕ) (c : Run σ Json) (d : Run σ (List Json × List StepResponse)) (l : List Mark) :
    Prop where
  log : d.log = c.log ++ l
  tally : Tally hash (Left callables is q) c.state d.state l

theorem tally_left (hh : env.hash = hash) (hr : r.path = q) {is : List (Fin n)} (his : is.Nodup)
    (as : List Json) (ds : List StepResponse) (s : State σ) :
    Tally hash (Left callables is q) s (loopRun env callables is as ds r s).state
      (loopRun env callables is as ds r s).log := by
  subst hh
  exact tally_loop hr (fun i r s hr => tally_interp (callables i) r s hr) his as ds s

theorem rest_of_turn (hh : env.hash = hash) (hr : r.path = q) {is : List (Fin n)}
    (his : is.Nodup) {as : List Json} {ds : List StepResponse} {c : Run σ Json}
    {d : Run σ (List Json × List StepResponse)} (h : Turn env callables is as ds r c d) :
    ∃ l, LoopRest hash callables is q c d l := by
  cases h with
  | stopped => exact ⟨_, rfl, tally_silent rfl (Dict.Below.refl _) rfl⟩
  | ok => exact ⟨_, rfl, tally_left hh hr his _ _ _⟩
  | caught => exact ⟨_, rfl, tally_left hh hr his _ _ _⟩

/-- What two runs of the loop have to do with each other, started with the
outputs `as₁` and `as₂`. -/
structure LoopPair (C : List ℕ → String → Prop) (callables : Fin n → Body σ) (q : List ℕ)
    (is : List (Fin n)) (as₁ as₂ : List Json) (s₁ s₂ : State σ)
    (d₁ d₂ : Run σ (List Json × List StepResponse)) : Prop where
  same : Same C d₁.log d₂.log
  apart : Apart C d₁.log d₂.log
  bound : ¬ Derailed d₂.log → (∃ x, d₂.outcome = .ok x) → ∀ u, Reused C u →
    (∀ i ∈ is, (∃ p, CallsAt (callables i) (0 :: i.val :: q) p u) →
      ¬ UsesLater (callables i) u ∨ Whole (as₂.length + is.length) d₂) →
    s₁.counts u ≤ s₂.counts u → d₁.state.counts u ≤ d₂.state.counts u
  outputs : ¬ Derailed d₁.log → ¬ Derailed d₂.log → Whole (as₁.length + is.length) d₁ →
    Whole (as₂.length + is.length) d₂ → ∃ vs rs₁ rs₂, d₁.outcome = .ok (as₁ ++ vs, rs₁) ∧
      d₂.outcome = .ok (as₂ ++ vs, rs₂)

theorem loopPair_nil {as₁ as₂ : List Json} {ds₁ ds₂ : List StepResponse} :
    LoopPair C callables q [] as₁ as₂ s₁ s₂ (loopRun env₁ callables [] as₁ ds₁ r s₁)
      (loopRun env₂ callables [] as₂ ds₂ r s₂) where
  same := fun p id₁ id₂ _ h => by simp [loopRun, collect] at h
  apart := fun p₁ p₂ id _ _ h => by simp [loopRun, collect] at h
  bound := fun _ _ _ _ _ hle => hle
  outputs := fun _ _ _ _ => ⟨[], ds₁, ds₂, by simp [loopRun, collect], by simp [loopRun, collect]⟩

inductive GoesOn (env : Env σ) (callables : Fin n → Body σ) (is : List (Fin n)) (as : List Json)
    (r : Scope) (c : Run σ Json) (d : Run σ (List Json × List StepResponse)) (l : List Mark) :
    List Json → Prop where
  | intro {as' ds'} : d = (loopRun env callables is as' ds' r c.state).after c.log →
      l = (loopRun env callables is as' ds' r c.state).log →
      ((∃ a, c.outcome = .ok a ∧ as' = as ++ [a]) ∨ as' = as) →
      GoesOn env callables is as r c d l as'

theorem goesOn_of_turn {is : List (Fin n)} {as : List Json} {ds : List StepResponse}
    {c : Run σ Json} {d : Run σ (List Json × List StepResponse)} {l : List Mark}
    (h : Turn env callables is as ds r c d) (hl : d.log = c.log ++ l)
    (hgo : calls l ≠ [] ∨ ∃ x, d.outcome = .ok x) :
    ∃ as', GoesOn env callables is as r c d l as' := by
  cases h with
  | stopped ho =>
    rcases hgo with hc | ⟨x, hx⟩
    · have := List.append_cancel_left hl
      rw [← this] at hc
      exact absurd rfl hc
    · exact absurd hx (ho x)
  | ok ho => exact ⟨_, rfl, (List.append_cancel_left hl).symm, .inl ⟨_, ho, rfl⟩⟩
  | caught ho ha => exact ⟨_, rfl, (List.append_cancel_left hl).symm, .inr rfl⟩

theorem whole_turn {is : List (Fin n)} {as as' : List Json} {c : Run σ Json}
    {d : Run σ (List Json × List StepResponse)} {l : List Mark}
    (h : GoesOn env callables is as r c d l as') (hw : Whole (as.length + (is.length + 1)) d) :
    ∃ a, c.outcome = .ok a ∧ as' = as ++ [a] := by
  obtain ⟨rfl, -, ha | rfl⟩ := h
  · exact ha
  · obtain ⟨x, hx, hlen⟩ := hw
    have := collect_length hx
    simp only [List.length_map] at this
    omega

/-- A turn in each of two runs of the loop: what is known of the callable, and of
the turns that are left. -/
structure Turns (hash : String → String) (C : List ℕ → String → Prop) (env₁ env₂ : Env σ)
    (callables : Fin n → Body σ) (r : Scope) (q : List ℕ) (i : Fin n) (is : List (Fin n))
    (as₁ as₂ : List Json) (s₁ s₂ : State σ) (c₁ c₂ : Run σ Json)
    (D₁ D₂ : Run σ (List Json × List StepResponse)) (l₁ l₂ : List Mark) : Prop where
  goes₁ : calls l₁ ≠ [] ∨ (∃ x, D₁.outcome = .ok x) →
    ∃ as', GoesOn env₁ callables is as₁ r c₁ D₁ l₁ as'
  goes₂ : calls l₂ ≠ [] ∨ (∃ x, D₂.outcome = .ok x) →
    ∃ as', GoesOn env₂ callables is as₂ r c₂ D₂ l₂ as'
  tally₁ : Tally hash (CallsAt (callables i) (0 :: i.val :: q)) s₁ c₁.state c₁.log
  tally₂ : Tally hash (CallsAt (callables i) (0 :: i.val :: q)) s₂ c₂.state c₂.log
  rest₁ : LoopRest hash callables is q c₁ D₁ l₁
  rest₂ : LoopRest hash callables is q c₂ D₂ l₂
  pair₁₂ : Pair C (CallsAt (callables i) (0 :: i.val :: q)) (UsesLater (callables i)) s₁ s₂ c₁ c₂
  pair₂₁ : Pair C (CallsAt (callables i) (0 :: i.val :: q)) (UsesLater (callables i)) s₂ s₁ c₂ c₁
  straight₁ : Derailed c₁.log → ¬ Reuses C l₁
  straight₂ : Derailed c₂.log → ¬ Reuses C l₂
  uses : ∀ p u, CallsAt (callables i) (0 :: i.val :: q) p u → C p u
  left : ∀ p u, Left callables is q p u → C p u
  disjoint : ∀ p u u', CallsAt (callables i) (0 :: i.val :: q) p u → ¬ Left callables is q p u'
  /-- what a later callable uses, this one can only use in its first call -/
  first : ∀ j ∈ is, ∀ u, Uses (callables j) u → ¬ UsesLater (callables i) u
  sync : ∀ p u, (CallsAt (callables i) (0 :: i.val :: q) p u ∨ Left callables is q p u) →
    s₁.counts u = s₂.counts u
  next : ∀ as₁' as₂' ds₁' ds₂',
    (∀ p u, Left callables is q p u → c₁.state.counts u = c₂.state.counts u) →
    l₁ = (loopRun env₁ callables is as₁' ds₁' r c₁.state).log →
    l₂ = (loopRun env₂ callables is as₂' ds₂' r c₂.state).log →
    LoopPair C callables q is as₁' as₂' c₁.state c₂.state
      (loopRun env₁ callables is as₁' ds₁' r c₁.state)
      (loopRun env₂ callables is as₂' ds₂' r c₂.state)

namespace Turns
variable {i : Fin n} {is : List (Fin n)} {as₁ as₂ : List Json} {c₁ c₂ : Run σ Json}
  {D₁ D₂ : Run σ (List Json × List StepResponse)} {l₁ l₂ : List Mark}
  (h : Turns hash C env₁ env₂ callables r q i is as₁ as₂ s₁ s₂ c₁ c₂ D₁ D₂ l₁ l₂)
include h

theorem left_first {p : List ℕ} {u : String} (hu : Left callables is q p u) :
    ¬ UsesLater (callables i) u := by
  obtain ⟨j, hj, hju⟩ := hu
  exact h.first j hj u (uses_of_callsAt hju)

theorem le₁₂ (hn : ¬ Derailed c₂.log) {p : List ℕ} {u : String} (hr : Reused C u)
    (hu : Left callables is q p u) (hs : s₁.counts u ≤ s₂.counts u) :
    c₁.state.counts u ≤ c₂.state.counts u :=
  h.pair₁₂.bound hn u hr (fun _ => .inl (h.left_first hu)) hs

theorem le₂₁ (hn : ¬ Derailed c₁.log) {p : List ℕ} {u : String} (hr : Reused C u)
    (hu : Left callables is q p u) (hs : s₂.counts u ≤ s₁.counts u) :
    c₂.state.counts u ≤ c₁.state.counts u :=
  h.pair₂₁.bound hn u hr (fun _ => .inl (h.left_first hu)) hs

theorem go_on (hg₁ : calls l₁ ≠ [] ∨ ∃ x, D₁.outcome = .ok x)
    (hg₂ : calls l₂ ≠ [] ∨ ∃ x, D₂.outcome = .ok x) (hn₁ : ¬ Derailed c₁.log)
    (hn₂ : ¬ Derailed c₂.log) :
    ∃ as₁' as₂' e₁ e₂, D₁ = e₁.after c₁.log ∧ D₂ = e₂.after c₂.log ∧ l₁ = e₁.log ∧
      l₂ = e₂.log ∧ GoesOn env₁ callables is as₁ r c₁ D₁ l₁ as₁' ∧
      GoesOn env₂ callables is as₂ r c₂ D₂ l₂ as₂' ∧
      LoopPair C callables q is as₁' as₂' c₁.state c₂.state e₁ e₂ := by
  obtain ⟨as₁', hgo₁⟩ := h.goes₁ hg₁
  obtain ⟨as₂', hgo₂⟩ := h.goes₂ hg₂
  obtain ⟨hD₁, hl₁, -⟩ := id hgo₁
  obtain ⟨hD₂, hl₂, -⟩ := id hgo₂
  refine ⟨as₁', as₂', _, _, hD₁, hD₂, hl₁, hl₂, hgo₁, hgo₂,
    h.next as₁' as₂' _ _ (fun p u hu => ?_) hl₁ hl₂⟩
  have hs := h.sync p u (.inr hu)
  exact sync_part h.uses h.tally₁ h.tally₂ (h.left p u hu) (fun hp => h.disjoint p u u hp hu) hs
    (fun hr => h.le₁₂ hn₂ hr hu hs.le) fun hr => h.le₂₁ hn₁ hr hu hs.ge

theorem not_derailed₁ (hc : Reuses C l₁) : ¬ Derailed c₁.log := fun hd => h.straight₁ hd hc

theorem not_derailed₂ (hc : Reuses C l₂) : ¬ Derailed c₂.log := fun hd => h.straight₂ hd hc

theorem reuse (hc₁ : Reuses C l₁) (hc₂ : Reuses C l₂) : Same C l₁ l₂ ∧ Apart C l₁ l₂ := by
  obtain ⟨_, _, e₁, e₂, -, -, rfl, rfl, -, -, hloop⟩ :=
    h.go_on (.inl (reuses_ne_nil hc₁)) (.inl (reuses_ne_nil hc₂)) (h.not_derailed₁ hc₁)
      (h.not_derailed₂ hc₂)
  exact ⟨hloop.same, hloop.apart⟩

theorem same : Same C D₁.log D₂.log := by
  rw [h.rest₁.log, h.rest₂.log]
  exact same_join h.tally₁ h.tally₂ h.rest₁.tally h.rest₂.tally h.disjoint h.pair₁₂.same
    fun hc₁ hc₂ => (h.reuse hc₁ hc₂).1

theorem apart (htells : Tells hash fun u => ∃ q, C q u) : Apart C D₁.log D₂.log := by
  rw [h.rest₁.log, h.rest₂.log]
  refine apart_join htells h.uses h.left h.tally₁ h.tally₂ h.rest₁.tally h.rest₂.tally ?_ ?_
    h.pair₁₂.apart fun hc₁ hc₂ => (h.reuse hc₁ hc₂).2
  · rintro hc u hr ⟨p, hu⟩ ⟨_, hl⟩
    exact h.le₁₂ (h.not_derailed₂ hc) hr hl (h.sync p u (.inl hu)).le
  · rintro hc u hr ⟨p, hu⟩ ⟨_, hl⟩
    exact h.le₂₁ (h.not_derailed₁ hc) hr hl (h.sync p u (.inl hu)).ge

theorem bound (hnd : ¬ Derailed D₂.log) (hok : ∃ x, D₂.outcome = .ok x) {u : String}
    (hr : Reused C u) (hu : ∀ j ∈ i :: is, (∃ p, CallsAt (callables j) (0 :: j.val :: q) p u) →
      ¬ UsesLater (callables j) u ∨ Whole (as₂.length + (i :: is).length) D₂)
    (hle : s₁.counts u ≤ s₂.counts u) : D₁.state.counts u ≤ D₂.state.counts u := by
  rw [h.rest₂.log, derailed_append, not_or] at hnd
  obtain ⟨as₂', hgo₂⟩ := h.goes₂ (.inr hok)
  have hc : c₁.state.counts u ≤ c₂.state.counts u := by
    refine h.pair₁₂.bound hnd.1 u hr (fun hp => (hu i (by simp) hp).imp_right fun hw => ?_) hle
    obtain ⟨a, ha, -⟩ := whole_turn hgo₂ hw
    simp [ha]
  by_cases hl : Reuses C l₁
  · obtain ⟨_, as₂', e₁, e₂, rfl, rfl, rfl, rfl, -, hgo₂, hloop⟩ :=
      h.go_on (.inl (reuses_ne_nil hl)) (.inr hok) (h.not_derailed₁ hl) hnd.1
    refine hloop.bound hnd.2 hok u hr (fun j hj hju => ?_) hc
    refine (hu j (by simp [hj]) hju).imp_right fun hw => ?_
    obtain ⟨a, -, rfl⟩ := whole_turn hgo₂ hw
    obtain ⟨x, hx, hlen⟩ := hw
    refine ⟨x, hx, ?_⟩
    simp only [List.length_append, List.length_cons, List.length_nil] at hlen ⊢
    omega
  · rw [counts_unreused h.left h.rest₁.tally hl hr]
    exact hc.trans (h.rest₂.tally.mono u)

theorem outputs (hn₁ : ¬ Derailed D₁.log) (hn₂ : ¬ Derailed D₂.log)
    (hw₁ : Whole (as₁.length + (i :: is).length) D₁)
    (hw₂ : Whole (as₂.length + (i :: is).length) D₂) :
    ∃ vs rs₁ rs₂, D₁.outcome = .ok (as₁ ++ vs, rs₁) ∧ D₂.outcome = .ok (as₂ ++ vs, rs₂) := by
  rw [h.rest₁.log, derailed_append, not_or] at hn₁
  rw [h.rest₂.log, derailed_append, not_or] at hn₂
  obtain ⟨as₁', as₂', e₁, e₂, rfl, rfl, rfl, rfl, hgo₁, hgo₂, hloop⟩ :=
    h.go_on (.inr ⟨_, hw₁.choose_spec.1⟩) (.inr ⟨_, hw₂.choose_spec.1⟩) hn₁.1 hn₂.1
  obtain ⟨a₁, ha₁, rfl⟩ := whole_turn hgo₁ hw₁
  obtain ⟨a₂, ha₂, rfl⟩ := whole_turn hgo₂ hw₂
  have ha : a₁ = a₂ := by
    have := h.pair₁₂.outcome hn₁.1 hn₂.1 (by simp [ha₁]) (by simp [ha₂])
    rw [ha₁, ha₂] at this
    exact Outcome.ok.inj this
  subst ha
  have hlen : ∀ (as : List Json) (e : Run σ (List Json × List StepResponse)) (l : List Mark),
      Whole (as.length + (i :: is).length) (e.after l) →
        Whole ((as ++ [a₁]).length + is.length) e := by
    rintro as e l ⟨x, hx, hlen⟩
    refine ⟨x, hx, ?_⟩
    simp only [List.length_append, List.length_cons, List.length_nil] at hlen ⊢
    omega
  obtain ⟨vs, rs₁, rs₂, h₁, h₂⟩ :=
    hloop.outputs hn₁.2 hn₂.2 (hlen _ _ _ hw₁) (hlen _ _ _ hw₂)
  exact ⟨a₁ :: vs, rs₁, rs₂, by simpa using h₁, by simpa using h₂⟩

end Turns

structure Setting (hash : String → String) (record : StepMemos) (C : List ℕ → String → Prop)
    (env₁ env₂ : Env σ) (callables : Fin n → Body σ) (r : Scope) (q : List ℕ) : Prop where
  peers : Peers hash env₁ env₂
  path : r.path = q
  outside : r.inStep = false
  tells : Tells hash fun u => ∃ q, C q u
  uses : ∀ i p u, CallsAt (callables i) (0 :: i.val :: q) p u → C p u
  twin : ∀ i, Twin hash record C (callables i)
  separated : ∀ i j, i < j → ∀ u, UsesLater (callables i) u → ¬ Uses (callables j) u

theorem Setting.symm (h : Setting hash record C env₁ env₂ callables r q) :
    Setting hash record C env₂ env₁ callables r q :=
  ⟨h.peers.symm, h.path, h.outside, h.tells, h.uses, h.twin, h.separated⟩

theorem callable_twin (h : Setting hash record C env₁ env₂ callables r q) {i : Fin n}
    (hm₁ : Dict.Below s₁.memos record) (hm₂ : Dict.Below s₂.memos record)
    (hsync : ∀ p u, CallsAt (callables i) (0 :: i.val :: q) p u → s₁.counts u = s₂.counts u)
    (hs₁ : Straight C (callableRun env₁ callables i r s₁).log)
    (hs₂ : Straight C (callableRun env₂ callables i r s₂).log) :
    Pair C (CallsAt (callables i) (0 :: i.val :: q)) (UsesLater (callables i)) s₁ s₂
      (callableRun env₁ callables i r s₁) (callableRun env₂ callables i r s₂) :=
  (h.twin i) h.peers (n := 0) (t := i.val :: q) (by simp [Scope.callable, h.path])
    (by simpa using h.outside) (h.uses i) hm₁ hm₂ hsync hs₁ hs₂

theorem tally_callable (hh : env.hash = hash) (hr : r.path = q) (i : Fin n) (s : State σ) :
    Tally hash (CallsAt (callables i) (0 :: i.val :: q)) s (callableRun env callables i r s).state
      (callableRun env callables i r s).log := by
  subst hh
  exact tally_interp (callables i) (r.callable i) s (by simp [Scope.callable, hr])

theorem pair_loop (h : Setting hash record C env₁ env₂ callables r q) {is : List (Fin n)}
    (hlt : is.Pairwise (· < ·)) (as₁ as₂ : List Json) (ds₁ ds₂ : List StepResponse)
    (hm₁ : Dict.Below s₁.memos record) (hm₂ : Dict.Below s₂.memos record)
    (hsync : ∀ p u, Left callables is q p u → s₁.counts u = s₂.counts u)
    (hs₁ : Straight C (loopRun env₁ callables is as₁ ds₁ r s₁).log)
    (hs₂ : Straight C (loopRun env₂ callables is as₂ ds₂ r s₂).log) :
    LoopPair C callables q is as₁ as₂ s₁ s₂ (loopRun env₁ callables is as₁ ds₁ r s₁)
      (loopRun env₂ callables is as₂ ds₂ r s₂) := by
  induction is generalizing as₁ as₂ ds₁ ds₂ s₁ s₂ with
  | nil => exact loopPair_nil
  | cons i is ih =>
    obtain ⟨hi, hlt⟩ := List.pairwise_cons.mp hlt
    have his : is.Nodup := hlt.imp ne_of_lt
    have hT₁ := turn_done env₁ callables i is as₁ ds₁ r s₁
    have hT₂ := turn_done env₂ callables i is as₂ ds₂ r s₂
    have htc₁ := @tally_callable σ hash env₁ n callables r q h.peers.hash₁ h.path i s₁
    have htc₂ := @tally_callable σ hash env₂ n callables r q h.peers.hash₂ h.path i s₂
    have hsync' : ∀ p u, (CallsAt (callables i) (0 :: i.val :: q) p u ∨
        Left callables is q p u) → s₁.counts u = s₂.counts u := by
      rintro p u (hp | ⟨j, hj, hp⟩)
      · exact hsync p u ⟨i, by simp, hp⟩
      · exact hsync p u ⟨j, by simp [hj], hp⟩
    have hpair := @callable_twin σ hash record C env₁ env₂ n callables r q s₁ s₂ h i hm₁ hm₂
      fun p u hp => hsync' p u (.inl hp)
    have hpair' := @callable_twin σ hash record C env₂ env₁ n callables r q s₂ s₁ h.symm i hm₂ hm₁
      fun p u hp => (hsync' p u (.inl hp)).symm
    generalize loopRun env₁ callables (i :: is) as₁ ds₁ r s₁ = D₁ at *
    generalize loopRun env₂ callables (i :: is) as₂ ds₂ r s₂ = D₂ at *
    generalize callableRun env₁ callables i r s₁ = c₁ at *
    generalize callableRun env₂ callables i r s₂ = c₂ at *
    obtain ⟨l₁, hR₁⟩ := rest_of_turn h.peers.hash₁ h.path his hT₁
    obtain ⟨l₂, hR₂⟩ := rest_of_turn h.peers.hash₂ h.path his hT₂
    rw [hR₁.log] at hs₁
    rw [hR₂.log] at hs₂
    obtain ⟨hsc₁, hsl₁, hd₁⟩ := straight_append hs₁
    obtain ⟨hsc₂, hsl₂, hd₂⟩ := straight_append hs₂
    have hturns : Turns hash C env₁ env₂ callables r q i is as₁ as₂ s₁ s₂ c₁ c₂ D₁ D₂ l₁ l₂ := {
      goes₁ := goesOn_of_turn hT₁ hR₁.log
      goes₂ := goesOn_of_turn hT₂ hR₂.log
      tally₁ := htc₁
      tally₂ := htc₂
      rest₁ := hR₁
      rest₂ := hR₂
      pair₁₂ := hpair hsc₁ hsc₂
      pair₂₁ := hpair' hsc₂ hsc₁
      straight₁ := hd₁
      straight₂ := hd₂
      uses := h.uses i
      left := fun p u ⟨j, _, hp⟩ => h.uses j p u hp
      disjoint := fun p u u' hp ⟨j, hj, hp'⟩ => callables_apart (ne_of_lt (hi j hj)) hp hp'
      first := fun j hj u hu hl => h.separated i j (hi j hj) u hl hu
      sync := hsync'
      next := fun as₁' as₂' ds₁' ds₂' hs he₁ he₂ =>
        ih hlt as₁' as₂' ds₁' ds₂' (htc₁.memos.trans hm₁) (htc₂.memos.trans hm₂) hs
          (he₁ ▸ hsl₁) (he₂ ▸ hsl₂) }
    exact ⟨hturns.same, hturns.apart h.tells,
      fun hnd hok u hr hu hle => hturns.bound hnd hok hr hu hle, hturns.outputs⟩

inductive GroupDone (n : ℕ) (d : Run σ (List Json × List StepResponse)) :
    Run σ (List Json) → Prop where
  | back {outputs} : d.outcome = .ok (outputs, []) →
      GroupDone n d ⟨.ok outputs, d.state, d.log ++ [.groupEnded (outputs.length = n)]⟩
  | reported {x rs} : d.outcome = .ok x → GroupDone n d ⟨.intr (.response rs), d.state, d.log⟩
  | raised {e} : d.outcome = .exc e → GroupDone n d ⟨.exc e, d.state, d.log ++ [.groupEnded false]⟩

theorem groupRun_done (env : Env σ) (callables : Fin n → Body σ) (mode : ParallelMode)
    (hin : r.inStep = false) (s : State σ) :
    GroupDone n (loopRun env callables (List.finRange n) [] [] r.inGroup s)
      (groupRun env callables mode r s) := by
  have hloop : loopRun env callables (List.finRange n) [] [] r.inGroup s =
      Group.discover (GroupResults.tuple env callables) r.inGroup s := by
    rw [loopRun, ← tuple_eq, Group.discover]
  rw [hloop, groupRun]
  cases ho : (Group.discover (GroupResults.tuple env callables) r.inGroup s).outcome with
  | ok x =>
    rw [Group.parallel_ok mode ho]
    split_ifs with hx
    · exact .back (ho.trans (by rw [← hx]))
    · exact .reported ho
  | exc e =>
    rw [Group.parallel_exc mode ho]
    exact .raised ho
  | intr i =>
    have hw := @GroupResults.waiting_group σ env _ mode (fun c hc => by
      obtain ⟨j, rfl⟩ := List.mem_ofFn.mp hc
      intro r s
      have h := GroupResults.waiting_interp env (callables j) (r.callable j) s
      exact ⟨h.reachesNew, h.response, h.skip, h.nested⟩ :
        ∀ c ∈ GroupResults.tuple env callables, Guar (GroupResults.Waiting env) c) r s
    have hcaught := collect_intr ho
    cases i with
    | response rs => simp [Group.caught] at hcaught
    | skip id => simp [Group.caught] at hcaught
    | nested =>
      rw [Group.parallel_intr mode ho] at hw
      have := hw.nested rfl
      simp [hin] at this

theorem GroupDone.calls {d : Run σ (List Json × List StepResponse)} {g : Run σ (List Json)}
    (h : GroupDone n d g) (C : List ℕ → String → Prop) : calls g.log = calls d.log ∧
      g.state = d.state ∧ (Straight C g.log → Straight C d.log) ∧
      (¬ Derailed g.log → ¬ Derailed d.log) := by
  cases h with
  | back =>
    exact ⟨by simp [callOf], rfl, fun h => (straight_append h).1, fun h hd => h (by simp [hd])⟩
  | reported => exact ⟨rfl, rfl, id, id⟩
  | raised =>
    exact ⟨by simp [callOf], rfl, fun h => (straight_append h).1, fun h hd => h (by simp [hd])⟩

theorem GroupDone.whole {d : Run σ (List Json × List StepResponse)} {g : Run σ (List Json)}
    (h : GroupDone n d g) (hn : ¬ Derailed g.log) (he : g.outcome.escape = none) :
    Whole n d ∧ ∃ outputs, g.outcome = .ok outputs ∧ d.outcome = .ok (outputs, []) := by
  have hmark : ∀ (l : List Mark) complete, ¬ Derailed (l ++ [.groupEnded complete]) →
      complete = true := by
    intro l complete hn
    cases complete with
    | true => rfl
    | false => exact absurd ⟨.groupEnded false, by simp, rfl⟩ hn
  cases h with
  | @back outputs ho =>
    exact ⟨⟨_, ho, by simpa using hmark _ _ hn⟩, outputs, rfl, ho⟩
  | reported => simp at he
  | raised => simpa using hmark _ _ hn

theorem GroupDone.ok {d : Run σ (List Json × List StepResponse)} {g : Run σ (List Json)}
    (h : GroupDone n d g) (hn : ¬ Derailed g.log) : ∃ x, d.outcome = .ok x := by
  cases h with
  | back ho => exact ⟨_, ho⟩
  | reported ho => exact ⟨_, ho⟩
  | raised => exact absurd ⟨.groupEnded false, by simp, rfl⟩ hn

theorem pair_group (h : Setting hash record C env₁ env₂ callables r q) (mode : ParallelMode)
    (hm₁ : Dict.Below s₁.memos record) (hm₂ : Dict.Below s₂.memos record)
    (hsync : ∀ p u, (∃ i, CallsAt (callables i) (0 :: i.val :: q) p u) →
      s₁.counts u = s₂.counts u)
    (hs₁ : Straight C (groupRun env₁ callables mode r s₁).log)
    (hs₂ : Straight C (groupRun env₂ callables mode r s₂).log) :
    Pair C (fun p u => ∃ i, CallsAt (callables i) (0 :: i.val :: q) p u)
      (fun u => ∃ i, UsesLater (callables i) u) s₁ s₂
      (groupRun env₁ callables mode r s₁) (groupRun env₂ callables mode r s₂) := by
  have hg₁ := groupRun_done env₁ callables mode h.outside s₁
  have hg₂ := groupRun_done env₂ callables mode h.outside s₂
  generalize groupRun env₁ callables mode r s₁ = g₁ at *
  generalize groupRun env₂ callables mode r s₂ = g₂ at *
  obtain ⟨hc₁, hst₁, hstr₁, hder₁⟩ := hg₁.calls C
  obtain ⟨hc₂, hst₂, hstr₂, hder₂⟩ := hg₂.calls C
  have hinner : Setting hash record C env₁ env₂ callables r.inGroup q :=
    ⟨h.peers, h.path, h.outside, h.tells, h.uses, h.twin, h.separated⟩
  have hloop := pair_loop hinner (List.sortedLT_finRange n).pairwise [] [] [] [] hm₁ hm₂
    (fun p u ⟨i, _, hu⟩ => hsync p u ⟨i, hu⟩) (hstr₁ hs₁) (hstr₂ hs₂)
  have hlen : ([] : List Json).length + (List.finRange n).length = n := by simp
  obtain ⟨hsame, hapart, hbound, houtputs⟩ := hloop
  rw [hlen] at hbound
  rw [hlen] at houtputs
  refine ⟨fun p id₁ id₂ hp h₁ h₂ => hsame p id₁ id₂ hp (hc₁ ▸ h₁) (hc₂ ▸ h₂),
    fun p₁ p₂ id hp₁ hp₂ h₁ h₂ => hapart p₁ p₂ id hp₁ hp₂ (hc₁ ▸ h₁) (hc₂ ▸ h₂),
    fun hn u hr hu hle => ?_, fun hn₁ hn₂ he₁ he₂ => ?_⟩
  · rw [hst₁, hst₂]
    refine hbound (hder₂ hn) (hg₂.ok hn) u hr (fun i _ ⟨p, hp⟩ => ?_) hle
    exact (hu ⟨p, i, hp⟩).imp (fun hnot hl => hnot ⟨i, hl⟩) fun he => (hg₂.whole hn he).1
  · obtain ⟨hw₁, outs₁, ho₁, hd₁⟩ := hg₁.whole hn₁ he₁
    obtain ⟨hw₂, outs₂, ho₂, hd₂⟩ := hg₂.whole hn₂ he₂
    obtain ⟨vs, rs₁, rs₂, h₁, h₂⟩ := houtputs (hder₁ hn₁) (hder₂ hn₂) hw₁ hw₂
    have hv₁ : outs₁ = vs := by simpa using congrArg Prod.fst (Outcome.ok.inj (hd₁.symm.trans h₁))
    have hv₂ : outs₂ = vs := by simpa using congrArg Prod.fst (Outcome.ok.inj (hd₂.symm.trans h₂))
    rw [ho₁, ho₂, hv₁, hv₂]

end Loop

/-! ## Whole bodies -/

/-- The code between the steps does not depend on what it stored, and no
handler calls a step. -/
def Deterministic : Body σ → Prop
  | .ret _ => True
  | .raise _ => True
  | .code _ k => (∀ s s', k s = k s') ∧ ∀ s, Deterministic (k s)
  | .look _ _ b => Deterministic b
  | .log _ _ b => Deterministic b
  | .site _ b => Deterministic b
  | .run _ _ handler k => (∀ u, ¬ Uses handler u) ∧ ∀ x, Deterministic (k x)
  | .call _ k => ∀ x, Deterministic (k x)
  | .parallel _ callables _ k => (∀ i, Deterministic (callables i)) ∧ ∀ x, Deterministic (k x)

/-- In every group, an ID that a callable uses after its first call is not used
by a later callable. -/
def Separated : Body σ → Prop
  | .ret _ => True
  | .raise _ => True
  | .code _ k => ∀ s, Separated (k s)
  | .look _ _ b => Separated b
  | .log _ _ b => Separated b
  | .site _ b => Separated b
  | .run _ _ _ k => ∀ x, Separated (k x)
  | .call _ k => ∀ x, Separated (k x)
  | .parallel _ callables _ k =>
    (∀ i j, i < j → ∀ u, UsesLater (callables i) u → ¬ Uses (callables j) u) ∧
      (∀ i, Separated (callables i)) ∧ ∀ x, Separated (k x)

section Whole
variable {hash : String → String} {record : StepMemos} {C : List ℕ → String → Prop}
  {env env₁ env₂ : Env σ} {r : Scope} {n : ℕ} {t : List ℕ}

theorem deserialize_peers (hp : Peers hash env₁ env₂) : env₁.deserialize = env₂.deserialize := by
  funext output outputType
  simp only [Env.deserialize, hp.serializer]

theorem straight_proceed {β : Type} {k : Except PyError β → Body σ} {d : Run σ β}
    (h : Straight C (proceed env k r d).log) : Straight C d.log := by
  have hP := proceed_done env k r d
  generalize proceed env k r d = D at *
  cases hP with
  | cut => exact h
  | on => exact (straight_append h).1

theorem tally_run (hh : env.hash = hash) {stepId : String} {outputType : Option OutputType}
    {handler : Body σ} (hleaf : ∀ u, ¬ Uses handler u) (hr : r.path = n :: t) (s : State σ) :
    Tally hash (fun p u => p = n :: t ∧ u = stepId) s
      (Step.run env stepId outputType (Comp.within Scope.handler (handler.interp env)) r s).state
      (Step.run env stepId outputType (Comp.within Scope.handler (handler.interp env)) r
        s).log := by
  subst hh
  exact (tally_stepRun stepId outputType hr (fun r s hr => tally_interp handler r s hr) s).weaken
    fun p u hu => hu.elim id fun hu => (hleaf u (uses_of_callsAt hu)).elim

theorem twin_done (o : Outcome PyError Interrupt Json) {b : Body σ}
    (hb : ∀ env r s, b.interp env r s = ⟨o, s, []⟩) : Twin hash record C b := by
  intro env₁ env₂ hp r n t hr hin hC s₁ s₂ hm₁ hm₂ hsync hs₁ hs₂
  rw [hb, hb]
  exact ⟨fun p id₁ id₂ _ h => by simp at h, fun p₁ p₂ id _ _ h => by simp at h,
    fun _ u _ _ hle => hle, fun _ _ _ _ => rfl⟩

theorem twin_code {f : σ → σ} {k : σ → Body σ} (hk : ∀ s s', k s = k s')
    (ih : ∀ s, Twin hash record C (k s)) : Twin hash record C (.code f k) := by
  intro env₁ env₂ hp r n t hr hin hC s₁ s₂ hm₁ hm₂ hsync hs₁ hs₂
  have hrun : (Body.code f k).interp env₂ r s₂ =
      (k (f s₁.store)).interp env₂ r { s₂ with store := f s₂.store } := by
    rw [hk (f s₁.store) (f s₂.store)]
    rfl
  rw [hrun] at hs₂ ⊢
  have h : Pair C (CallsAt (k (f s₁.store)) (n :: t)) (UsesLater (k (f s₁.store)))
      { s₁ with store := f s₁.store } { s₂ with store := f s₂.store }
      ((k (f s₁.store)).interp env₁ r { s₁ with store := f s₁.store })
      ((k (f s₁.store)).interp env₂ r { s₂ with store := f s₂.store }) :=
    ih (f s₁.store) hp hr hin (fun p u hu => hC p u ⟨_, hu⟩) hm₁ hm₂
      (fun p u hu => hsync p u ⟨_, hu⟩) hs₁ hs₂
  obtain ⟨hsame, hapart, hbound, houtcome⟩ := h.weaken
    (fun p u hu => (⟨_, hu⟩ : CallsAt (.code f k) (n :: t) p u))
    fun u hu => (⟨_, hu⟩ : UsesLater (.code f k) u)
  exact ⟨hsame, hapart, hbound, houtcome⟩

theorem pair_after {U : List ℕ → String → Prop} {later : String → Prop} {s₁ s₂ t₁ t₂ : State σ}
    {d₁ d₂ : Run σ Json} {l₁ l₂ : List Mark} (h : Pair C U later t₁ t₂ d₁ d₂)
    (hc₁ : calls l₁ = []) (hc₂ : calls l₂ = []) (ht₁ : t₁.counts = s₁.counts)
    (ht₂ : t₂.counts = s₂.counts) : Pair C U later s₁ s₂ (d₁.after l₁) (d₂.after l₂) := by
  obtain ⟨hsame, hapart, hbound, hout⟩ := h
  have hder : ∀ {l : List Mark} {d : Run σ Json}, Derailed d.log → Derailed (d.after l).log :=
    fun hd => derailed_append.mpr (.inr hd)
  refine ⟨?_, ?_, fun hn u hr hu hle => ?_, fun hn₁ hn₂ =>
    hout (fun hd => hn₁ (hder hd)) fun hd => hn₂ (hder hd)⟩
  · intro p id₁ id₂ hp h₁ h₂
    rw [Done.after_log, calls_append, hc₁] at h₁
    rw [Done.after_log, calls_append, hc₂] at h₂
    exact hsame p id₁ id₂ hp h₁ h₂
  · intro p₁ p₂ id hp₁ hp₂ h₁ h₂
    rw [Done.after_log, calls_append, hc₁] at h₁
    rw [Done.after_log, calls_append, hc₂] at h₂
    exact hapart p₁ p₂ id hp₁ hp₂ h₁ h₂
  · rw [← ht₁, ← ht₂] at hle
    exact hbound (fun hd => hn (hder hd)) u hr hu hle

theorem twin_look {name method : String} {b : Body σ} (ih : Twin hash record C b) :
    Twin hash record C (.look name method b) := by
  intro env₁ env₂ hp r n t hr hin hC s₁ s₂ hm₁ hm₂ hsync hs₁ hs₂
  rw [Body.look_interp] at hs₁ hs₂ ⊢
  rw [Body.look_interp]
  exact pair_after (@ih env₁ env₂ hp r n t hr hin hC (FilteredLogger.holding name method s₁)
    (FilteredLogger.holding name method s₂) hm₁ hm₂ hsync (straight_append hs₁).2.1
    (straight_append hs₂).2.1) rfl rfl rfl rfl

theorem twin_log {name message : String} {b : Body σ} (ih : Twin hash record C b) :
    Twin hash record C (.log name message b) := by
  intro env₁ env₂ hp r n t hr hin hC s₁ s₂ hm₁ hm₂ hsync hs₁ hs₂
  rw [Body.log_interp] at hs₁ hs₂ ⊢
  rw [Body.log_interp]
  exact pair_after (ih hp hr hin hC hm₁ hm₂ hsync (straight_append hs₁).2.1
    (straight_append hs₂).2.1) (calls_callMarks s₁ name message) (calls_callMarks s₂ name message)
    rfl rfl

theorem twin_site {m : ℕ} {b : Body σ} (ih : Twin hash record C b) :
    Twin hash record C (.site m b) := by
  intro env₁ env₂ hp r n t hr hin hC s₁ s₂ hm₁ hm₂ hsync hs₁ hs₂
  exact ih hp (r := r.site m) (n := max n m) (t := t)
    (by simp [Scope.site, Scope.sitePlace, hr]) hin hC hm₁ hm₂ hsync hs₁ hs₂

section Steps
variable (htells : Tells hash fun u => ∃ q, C q u)
include htells

theorem twin_run {stepId : String} {outputType : Option OutputType} {handler : Body σ}
    {k : Except PyError Json → Body σ} (hleaf : ∀ u, ¬ Uses handler u)
    (ih : ∀ x, Twin hash record C (k x)) :
    Twin hash record C (.run stepId outputType handler k) := by
  intro env₁ env₂ hp r n t hr hin hC s₁ s₂ hm₁ hm₂ hsync hs₁ hs₂
  rw [run_interp] at hs₁ hs₂ ⊢
  rw [run_interp]
  have hd₁ := run_callDone hp.hash₁ stepId outputType hleaf hr hin hm₁
  have hd₂ := run_callDone hp.hash₂ stepId outputType hleaf hr hin hm₂
  rw [← deserialize_peers hp] at hd₂
  have hid := hsync (n :: t) stepId (.inl ⟨rfl, rfl⟩)
  have h := pair_proceed hp hr hin htells (fun p u hu => hC p u (.inl hu))
    (fun p u hu => hC p u (.inr (.inr hu))) (fun p u hu => hu.1 ▸ List.suffix_rfl)
    (pair_call (q := n :: t) hd₁ hd₂ hid) (pair_call hd₂ hd₁ hid.symm)
    (tally_run hp.hash₁ hleaf hr s₁) (tally_run hp.hash₂ hleaf hr s₂) hm₁ hm₂
    (fun p u hu => hsync p u (hu.imp_right .inr)) ih hs₁ hs₂
  exact h.weaken (fun p u hu => hu.imp_right .inr) fun u hu => hu.elim False.elim .inr

theorem twin_call {c : StepCall} {k : Except PyError Json → Body σ}
    (ih : ∀ x, Twin hash record C (k x)) : Twin hash record C (.call c k) := by
  intro env₁ env₂ hp r n t hr hin hC s₁ s₂ hm₁ hm₂ hsync hs₁ hs₂
  rw [call_interp] at hs₁ hs₂ ⊢
  rw [call_interp]
  have hd₁ := call_callDone hp.hash₁ c (r := r) hin hm₁
  have hd₂ := call_callDone hp.hash₂ c (r := r) hin hm₂
  have hid := hsync (n :: t) c.stepId (.inl ⟨rfl, rfl⟩)
  have h := pair_proceed hp hr hin htells (fun p u hu => hC p u (.inl hu))
    (fun p u hu => hC p u (.inr hu)) (fun p u hu => hu.1 ▸ List.suffix_rfl)
    (pair_call (q := n :: t) hd₁ hd₂ hid) (pair_call hd₂ hd₁ hid.symm)
    (hp.hash₁ ▸ tally_stepCall c hr s₁) (hp.hash₂ ▸ tally_stepCall c hr s₂) hm₁ hm₂ hsync ih hs₁
    hs₂
  exact h.weaken (fun p u hu => hu) fun u hu => hu.elim False.elim id

theorem twin_parallel {m : ℕ} {callables : Fin m → Body σ} {mode : ParallelMode}
    {k : Except PyError (List Json) → Body σ}
    (hsep : ∀ i j, i < j → ∀ u, UsesLater (callables i) u → ¬ Uses (callables j) u)
    (ihc : ∀ i, Twin hash record C (callables i)) (ihk : ∀ x, Twin hash record C (k x)) :
    Twin hash record C (.parallel m callables mode k) := by
  intro env₁ env₂ hp r n t hr hin hC s₁ s₂ hm₁ hm₂ hsync hs₁ hs₂
  rw [parallel_interp] at hs₁ hs₂ ⊢
  rw [parallel_interp]
  have hsetting : Setting hash record C env₁ env₂ callables r (n :: t) :=
    ⟨hp, hr, hin, htells, fun i p u hu => hC p u (.inl ⟨i, hu⟩), ihc, hsep⟩
  refine pair_proceed hp hr hin htells (fun p u hu => hC p u (.inl hu))
    (fun p u hu => hC p u (.inr hu)) ?_
    (pair_group hsetting mode hm₁ hm₂ (fun p u hu => hsync p u (.inl hu)) (straight_proceed hs₁)
      (straight_proceed hs₂))
    (pair_group hsetting.symm mode hm₂ hm₁ (fun p u hu => (hsync p u (.inl hu)).symm)
      (straight_proceed hs₂) (straight_proceed hs₁))
    (hp.hash₁ ▸ tally_groupRun mode hr (fun i r s hr => tally_interp (callables i) r s hr) s₁)
    (hp.hash₂ ▸ tally_groupRun mode hr (fun i r s hr => tally_interp (callables i) r s hr) s₂)
    hm₁ hm₂ hsync ihk hs₁ hs₂
  rintro p u ⟨i, hu⟩
  exact (List.suffix_cons i.val _).trans (callsAt_callable hu)

/-- Two replays of a body agree, wherever they reach it alike. -/
theorem twin_interp {b : Body σ} (hdet : Deterministic b) (hsep : Separated b) :
    Twin hash record C b := by
  induction b with
  | ret v => exact twin_done (.ok v) fun _ _ _ => rfl
  | raise e => exact twin_done (.exc e) fun _ _ _ => rfl
  | code f k ih => exact twin_code hdet.1 fun s => ih s (hdet.2 s) (hsep s)
  | look name method b ih => exact twin_look (ih hdet hsep)
  | log name message b ih => exact twin_log (ih hdet hsep)
  | site m b ih => exact twin_site (ih hdet hsep)
  | run stepId outputType handler k _ ihk =>
    exact twin_run htells hdet.1 fun x => ihk x (hdet.2 x) (hsep x)
  | call c k ih => exact twin_call htells fun x => ih x (hdet x) (hsep x)
  | parallel m callables mode k ihc ihk =>
    exact twin_parallel htells hsep.1 (fun i => ihc i (hdet.1 i) (hsep.2.1 i))
      fun x => ihk x (hdet.2 x) (hsep.2.2 x)

end Steps

end Whole

end Inngest.GroupIdentity
