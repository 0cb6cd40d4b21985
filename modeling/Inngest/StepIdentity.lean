import Inngest.StepCalls

/-!
# Step identity across replays

The number that distinguishes the uses of a step ID counts the calls that one
request has reached. Two replays of a run agree on it when no callable of a
group depends on how far the callables before it came: then a call has one
hashed ID in the whole run, and a hashed ID belongs to one call.
-/

set_option autoImplicit false

namespace Inngest.StepIdentity
open ServerLib Errors StepLib Effect Engine History StepCalls

variable {σ : Type}

/-! ## Reused IDs

`C q u` says that the function's code can call a step `u` at the place `q`. -/

section Reuse
variable {C : List ℕ → String → Prop} {p q : List ℕ} {u : String}

/-- One ID is used at this place, and it is used nowhere else. -/
def Sole (C : List ℕ → String → Prop) (q : List ℕ) : Prop :=
  ∀ u q' u', C q u → C q' u' → (q' = q ↔ u' = u)

def Reused (C : List ℕ → String → Prop) (u : String) : Prop := ∀ q, C q u → ¬ Sole C q

theorem reused_of_not_sole (hp : ¬ Sole C p) (hu : C p u) : Reused C u := fun _ hq hs =>
  hp (((hs u p u hq hu).mpr rfl).symm ▸ hs)

theorem place_of_not_reused (h : ¬ Reused C u) : ∃ q, ∀ p, C p u → p = q := by
  simp only [Reused, not_forall, not_not] at h
  obtain ⟨q, hq, hs⟩ := h
  exact ⟨q, fun p hp => (hs u p u hq hp).mpr rfl⟩

end Reuse

/-! ## Requests that leave the common path -/

/-- The code goes on with something that another replay need not see: the
exception of a handler that ran, or a group without all of its outputs. -/
def derails : Mark → Bool
  | .leave _ (.bubbled _) => true
  | .groupEnded complete => !complete
  | _ => false

def Derailed (l : List Mark) : Prop := ∃ m ∈ l, derails m = true

instance (l : List Mark) : Decidable (Derailed l) :=
  inferInstanceAs (Decidable (∃ m ∈ l, derails m = true))

def Reuses (C : List ℕ → String → Prop) (l : List Mark) : Prop := ∃ c ∈ calls l, ¬ Sole C c.1

/-- No reused ID is called once the request was derailed. -/
def Straight (C : List ℕ → String → Prop) : List Mark → Prop
  | [] => True
  | m :: l => (derails m = true → ¬ Reuses C l) ∧ Straight C l

@[simp] theorem derailed_append {l l' : List Mark} :
    Derailed (l ++ l') ↔ Derailed l ∨ Derailed l' := by
  simp [Derailed, or_and_right, exists_or]

@[simp] theorem reuses_append {C : List ℕ → String → Prop} {l l' : List Mark} :
    Reuses C (l ++ l') ↔ Reuses C l ∨ Reuses C l' := by
  simp [Reuses, or_and_right, exists_or]

theorem straight_append {C : List ℕ → String → Prop} {l l' : List Mark}
    (h : Straight C (l ++ l')) : Straight C l ∧ Straight C l' ∧ (Derailed l → ¬ Reuses C l') := by
  induction l with
  | nil => exact ⟨trivial, h, by simp [Derailed]⟩
  | cons m l ih =>
    obtain ⟨hm, h⟩ := h
    obtain ⟨hl, hl', hd⟩ := ih h
    change derails m = true → ¬ Reuses C (l ++ l') at hm
    rw [reuses_append, not_or] at hm
    refine ⟨⟨fun h => (hm h).1, hl⟩, hl', fun hder => ?_⟩
    obtain ⟨m', hm', hd'⟩ := hder
    rcases List.mem_cons.mp hm' with rfl | hm'
    · exact (hm hd').2
    · exact hd ⟨m', hm', hd'⟩

theorem straight_of_not_derailed {C : List ℕ → String → Prop} {l : List Mark}
    (h : ¬ Derailed l) : Straight C l := by
  induction l with
  | nil => trivial
  | cons m l ih =>
    exact ⟨fun hm => absurd ⟨m, by simp, hm⟩ h,
      ih fun ⟨m', hm', hd⟩ => h ⟨m', by simp [hm'], hd⟩⟩

/-! ## Two replays of one part -/

/-- A call of a reused ID has the same hashed ID in both histories. -/
def Same (C : List ℕ → String → Prop) (l₁ l₂ : List Mark) : Prop :=
  ∀ p id₁ id₂, ¬ Sole C p → (p, id₁) ∈ calls l₁ → (p, id₂) ∈ calls l₂ → id₁ = id₂

/-- A hashed ID belongs to the same call in both histories. -/
def Apart (C : List ℕ → String → Prop) (l₁ l₂ : List Mark) : Prop :=
  ∀ p₁ p₂ id, ¬ Sole C p₁ → ¬ Sole C p₂ → (p₁, id) ∈ calls l₁ → (p₂, id) ∈ calls l₂ → p₁ = p₂

/-- The texts that are hashed for the IDs `V` tell the ID and the number. -/
def Tells (hash : String → String) (V : String → Prop) : Prop :=
  ∀ u u' c c', V u → V u' → 0 < c → 0 < c' →
    hash (preHashed u c) = hash (preHashed u' c') → u = u' ∧ c = c'

theorem reuses_of_mem {C : List ℕ → String → Prop} {l : List Mark} {p : List ℕ} {id : String}
    (hp : ¬ Sole C p) (h : (p, id) ∈ calls l) : Reuses C l := ⟨(p, id), h, hp⟩

section Join
variable {hash : String → String} {C U W : List ℕ → String → Prop}
  {s₁ s₂ m₁ m₂ f₁ f₂ : State σ} {a₁ a₂ b₁ b₂ : List Mark}

theorem same_join (ha₁ : Tally hash U s₁ m₁ a₁) (ha₂ : Tally hash U s₂ m₂ a₂)
    (hb₁ : Tally hash W m₁ f₁ b₁) (hb₂ : Tally hash W m₂ f₂ b₂)
    (hd : ∀ p u u', U p u → ¬ W p u') (haa : Same C a₁ a₂)
    (hbb : Reuses C b₁ → Reuses C b₂ → Same C b₁ b₂) : Same C (a₁ ++ b₁) (a₂ ++ b₂) := by
  intro p id₁ id₂ hp h₁ h₂
  rw [calls_append, List.mem_append] at h₁ h₂
  rcases h₁ with h₁ | h₁ <;> rcases h₂ with h₂ | h₂
  · exact haa p id₁ id₂ hp h₁ h₂
  · obtain ⟨u, hu⟩ := ha₁.placed h₁
    obtain ⟨u', hu'⟩ := hb₂.placed h₂
    exact absurd hu' (hd p u u' hu)
  · obtain ⟨u, hu⟩ := ha₂.placed h₂
    obtain ⟨u', hu'⟩ := hb₁.placed h₁
    exact absurd hu' (hd p u u' hu)
  · exact hbb (reuses_of_mem hp h₁) (reuses_of_mem hp h₂) p id₁ id₂ hp h₁ h₂

/-- The second part of one run shares no number with the first part of the
other, when the other did not count further there. -/
theorem not_shared (htells : Tells hash fun u => ∃ q, C q u) (hU : ∀ p u, U p u → C p u)
    (hW : ∀ p u, W p u → C p u) (ha : Tally hash U s₁ m₁ a₁) (hb : Tally hash W m₂ f₂ b₂)
    (hle : ∀ u, Reused C u → (∃ p, U p u) → (∃ p, W p u) → m₁.counts u ≤ m₂.counts u)
    {p₁ p₂ : List ℕ} {id : String}
    (hp : ¬ Sole C p₁) (h₁ : (p₁, id) ∈ calls a₁) (h₂ : (p₂, id) ∈ calls b₂) : False := by
  obtain ⟨u, c, hu, hlt, hc, he⟩ := ha.numbered p₁ id h₁
  obtain ⟨u', c', hu', hlt', hc', he'⟩ := hb.numbered p₂ id h₂
  obtain ⟨rfl, rfl⟩ := htells u u' c c' ⟨p₁, hU p₁ u hu⟩ ⟨p₂, hW p₂ u' hu'⟩ (by omega) (by omega)
    (he.symm.trans he')
  have := hle u (reused_of_not_sole hp (hU p₁ u hu)) ⟨p₁, hu⟩ ⟨p₂, hu'⟩
  omega

theorem apart_join (htells : Tells hash fun u => ∃ q, C q u) (hU : ∀ p u, U p u → C p u)
    (hW : ∀ p u, W p u → C p u) (ha₁ : Tally hash U s₁ m₁ a₁) (ha₂ : Tally hash U s₂ m₂ a₂)
    (hb₁ : Tally hash W m₁ f₁ b₁) (hb₂ : Tally hash W m₂ f₂ b₂)
    (h₁₂ : Reuses C b₂ → ∀ u, Reused C u → (∃ p, U p u) → (∃ p, W p u) →
      m₁.counts u ≤ m₂.counts u)
    (h₂₁ : Reuses C b₁ → ∀ u, Reused C u → (∃ p, U p u) → (∃ p, W p u) →
      m₂.counts u ≤ m₁.counts u)
    (haa : Apart C a₁ a₂) (hbb : Reuses C b₁ → Reuses C b₂ → Apart C b₁ b₂) :
    Apart C (a₁ ++ b₁) (a₂ ++ b₂) := by
  intro p₁ p₂ id hp₁ hp₂ h₁ h₂
  rw [calls_append, List.mem_append] at h₁ h₂
  rcases h₁ with h₁ | h₁ <;> rcases h₂ with h₂ | h₂
  · exact haa p₁ p₂ id hp₁ hp₂ h₁ h₂
  · exact (not_shared htells hU hW ha₁ hb₂ (h₁₂ (reuses_of_mem hp₂ h₂)) hp₁ h₁ h₂).elim
  · exact (not_shared htells hU hW ha₂ hb₁ (h₂₁ (reuses_of_mem hp₁ h₁)) hp₂ h₂ h₁).elim
  · exact hbb (reuses_of_mem hp₁ h₁) (reuses_of_mem hp₂ h₂) p₁ p₂ id hp₁ hp₂ h₁ h₂

theorem sync_part (hU : ∀ p u, U p u → C p u) (ha₁ : Tally hash U s₁ m₁ a₁)
    (ha₂ : Tally hash U s₂ m₂ a₂) {q : List ℕ} {u : String} (hq : C q u) (hno : ¬ U q u)
    (hs : s₁.counts u = s₂.counts u) (h₁₂ : Reused C u → m₁.counts u ≤ m₂.counts u)
    (h₂₁ : Reused C u → m₂.counts u ≤ m₁.counts u) : m₁.counts u = m₂.counts u := by
  by_cases hr : Reused C u
  · exact le_antisymm (h₁₂ hr) (h₂₁ hr)
  · obtain ⟨q₀, hq₀⟩ := place_of_not_reused hr
    have hnone : ∀ p, ¬ U p u := fun p hp =>
      hno (((hq₀ p (hU p u hp)).trans (hq₀ q hq).symm) ▸ hp)
    rw [ha₁.frame hnone, ha₂.frame hnone, hs]

theorem counts_unreused (hU : ∀ p u, U p u → C p u) (ha : Tally hash U s₁ m₁ a₁)
    (hno : ¬ Reuses C a₁) {u : String} (hr : Reused C u) : m₁.counts u = s₁.counts u := by
  by_contra hne
  obtain ⟨p, id, hp, hu⟩ := ha.took u hne
  exact hno (reuses_of_mem (hr p (hU p u hu)) hp)

end Join

/-- What two runs of the same part have to do with each other. The part uses
the IDs `U`, and those of `later` after its first call. -/
structure Pair {β : Type} (C U : List ℕ → String → Prop) (later : String → Prop)
    (s₁ s₂ : State σ) (d₁ d₂ : Run σ β) : Prop where
  same : Same C d₁.log d₂.log
  apart : Apart C d₁.log d₂.log
  /-- the second run counts at least as far, unless it was cut short -/
  bound : ¬ Derailed d₂.log → ∀ u, Reused C u →
    ((∃ p, U p u) → ¬ later u ∨ d₂.outcome.escape = none) →
    s₁.counts u ≤ s₂.counts u → d₁.state.counts u ≤ d₂.state.counts u
  outcome : ¬ Derailed d₁.log → ¬ Derailed d₂.log → d₁.outcome.escape = none →
    d₂.outcome.escape = none → d₁.outcome = d₂.outcome

theorem Pair.weaken {β : Type} {C U V : List ℕ → String → Prop} {later later' : String → Prop}
    {s₁ s₂ : State σ} {d₁ d₂ : Run σ β} (h : Pair C U later s₁ s₂ d₁ d₂)
    (hU : ∀ p u, U p u → V p u) (hl : ∀ u, later u → later' u) : Pair C V later' s₁ s₂ d₁ d₂ where
  same := h.same
  apart := h.apart
  bound := fun hd u hr hu => h.bound hd u hr fun ⟨p, hp⟩ =>
    (hu ⟨p, hU p u hp⟩).imp_left fun hn hlu => hn (hl u hlu)
  outcome := h.outcome

structure Peers (hash : String → String) (env₁ env₂ : Env σ) : Prop where
  hash₁ : env₁.hash = hash
  hash₂ : env₂.hash = hash
  serializer : env₁.serializer = env₂.serializer

theorem Peers.symm {hash : String → String} {env₁ env₂ : Env σ} (h : Peers hash env₁ env₂) :
    Peers hash env₂ env₁ := ⟨h.hash₂, h.hash₁, h.serializer.symm⟩

/-- Two requests agree on a body, wherever they reach it with the same counts
of its IDs, and with memos from one record. -/
def Twin (hash : String → String) (record : StepMemos) (C : List ℕ → String → Prop)
    (b : Body σ) : Prop :=
  ∀ {env₁ env₂ : Env σ}, Peers hash env₁ env₂ → ∀ {r : Scope} {n : ℕ} {t : List ℕ},
    r.path = n :: t → r.inStep = false → (∀ p u, CallsAt b (n :: t) p u → C p u) →
    ∀ {s₁ s₂ : State σ}, Dict.Below s₁.memos record → Dict.Below s₂.memos record →
    (∀ p u, CallsAt b (n :: t) p u → s₁.counts u = s₂.counts u) →
    Straight C (b.interp env₁ r s₁).log → Straight C (b.interp env₂ r s₂).log →
    Pair C (CallsAt b (n :: t)) (UsesLater b) s₁ s₂ (b.interp env₁ r s₁) (b.interp env₂ r s₂)

/-! ### One part after another -/

section Proceed
variable {β : Type} {hash : String → String} {record : StepMemos}
  {env env₁ env₂ : Env σ} {k : Except PyError β → Body σ} {r : Scope} {n : ℕ} {t : List ℕ}
  {C U : List ℕ → String → Prop} {later : String → Prop} {s s₁ s₂ : State σ} {d d₁ d₂ : Run σ β}

inductive Proceeds (env : Env σ) (k : Except PyError β → Body σ) (r : Scope) (d : Run σ β) :
    Run σ Json → Prop where
  | cut {i} : d.outcome = .intr i → Proceeds env k r d ⟨.intr i, d.state, d.log⟩
  | on (x) : d.outcome = Outcome.ofExcept x →
      Proceeds env k r d (((k x).interp env r.next d.state).after d.log)

theorem proceed_done (env : Env σ) (k : Except PyError β → Body σ) (r : Scope) (d : Run σ β) :
    Proceeds env k r d (proceed env k r d) := by
  rw [proceed]
  cases ho : d.outcome with
  | ok v => exact .on (.ok v) ho
  | exc e => exact .on (.error e) ho
  | intr i => exact .cut ho

def Next (k : Except PyError β → Body σ) (n : ℕ) (t : List ℕ) (p : List ℕ) (u : String) : Prop :=
  ∃ x, CallsAt (k x) ((n + 1) :: t) p u

structure Rest (hash : String → String) (k : Except PyError β → Body σ) (n : ℕ) (t : List ℕ)
    (d : Run σ β) (d' : Run σ Json) (l : List Mark) : Prop where
  log : d'.log = d.log ++ l
  tally : Tally hash (Next k n t) d.state d'.state l
  goes : calls l ≠ [] → d.outcome.escape = none

theorem rest_of_proceeds (hh : env.hash = hash) (hr : r.path = n :: t) {d' : Run σ Json}
    (h : Proceeds env k r d d') : ∃ l, Rest hash k n t d d' l := by
  cases h with
  | cut ho => exact ⟨[], by simp, tally_silent rfl (Dict.Below.refl _) rfl, by simp⟩
  | on x ho =>
    refine ⟨_, rfl, ?_, by simp [ho]⟩
    rw [← hh]
    exact (tally_interp (k x) r.next d.state (path_next hr)).weaken fun p u hu => ⟨x, hu⟩

theorem goes_of_proceeds {d' : Run σ Json} (h : Proceeds env k r d d')
    (he : d'.outcome.escape = none) : d.outcome.escape = none := by
  cases h with
  | cut ho => simp at he
  | on x ho => simp [ho]

theorem ofExcept_injective {α : Type} {x y : Except PyError α}
    (h : (Outcome.ofExcept x : Outcome PyError Interrupt α) = Outcome.ofExcept y) : x = y := by
  cases x <;> cases y <;> simp_all [Outcome.ofExcept]

theorem reuses_ne_nil {l : List Mark} (h : Reuses C l) : calls l ≠ [] := by
  obtain ⟨c, hc, -⟩ := h
  exact List.ne_nil_of_mem hc

theorem rests_twin (hp : Peers hash env₁ env₂) (hr : r.path = n :: t) (hin : r.inStep = false)
    (ht₁ : Tally hash U s₁ d₁.state d₁.log) (ht₂ : Tally hash U s₂ d₂.state d₂.log)
    (hm₁ : Dict.Below s₁.memos record) (hm₂ : Dict.Below s₂.memos record)
    (hC : ∀ p u, Next k n t p u → C p u)
    (hsync : ∀ p u, Next k n t p u → d₁.state.counts u = d₂.state.counts u)
    (hk : ∀ x, Twin hash record C (k x)) {D₁ D₂ : Run σ Json} {l₁ l₂ : List Mark}
    (hP₁ : Proceeds env₁ k r d₁ D₁) (hP₂ : Proceeds env₂ k r d₂ D₂)
    (hl₁ : D₁.log = d₁.log ++ l₁) (hl₂ : D₂.log = d₂.log ++ l₂)
    (hs₁ : Straight C l₁) (hs₂ : Straight C l₂) (ho : d₁.outcome = d₂.outcome)
    (he : d₁.outcome.escape = none) :
    ∃ x e₁ e₂, D₁ = e₁.after d₁.log ∧ D₂ = e₂.after d₂.log ∧ l₁ = e₁.log ∧ l₂ = e₂.log ∧
      Pair C (CallsAt (k x) ((n + 1) :: t)) (UsesLater (k x)) d₁.state d₂.state e₁ e₂ := by
  cases hP₁ with
  | cut ho₁ => simp [ho₁] at he
  | on x₁ ho₁ =>
    cases hP₂ with
    | cut ho₂ => simp [ho, ho₂] at he
    | on x₂ ho₂ =>
      obtain rfl := ofExcept_injective (ho₁.symm.trans (ho.trans ho₂))
      have he₁ : l₁ = ((k x₁).interp env₁ r.next d₁.state).log :=
        (List.append_cancel_left hl₁).symm
      have he₂ : l₂ = ((k x₁).interp env₂ r.next d₂.state).log :=
        (List.append_cancel_left hl₂).symm
      subst he₁ he₂
      exact ⟨x₁, _, _, rfl, rfl, rfl, rfl, hk x₁ hp (path_next hr) hin
        (fun p u hu => hC p u ⟨x₁, hu⟩) (ht₁.memos.trans hm₁) (ht₂.memos.trans hm₂)
        (fun p u hu => hsync p u ⟨x₁, hu⟩) hs₁ hs₂⟩

theorem pair_proceed (hp : Peers hash env₁ env₂) (hr : r.path = n :: t) (hin : r.inStep = false)
    (htells : Tells hash fun u => ∃ q, C q u) (hU : ∀ p u, U p u → C p u)
    (hC : ∀ p u, Next k n t p u → C p u) (hplace : ∀ p u, U p u → Within (n :: t) p)
    (h₁₂ : Pair C U later s₁ s₂ d₁ d₂) (h₂₁ : Pair C U later s₂ s₁ d₂ d₁)
    (ht₁ : Tally hash U s₁ d₁.state d₁.log) (ht₂ : Tally hash U s₂ d₂.state d₂.log)
    (hm₁ : Dict.Below s₁.memos record) (hm₂ : Dict.Below s₂.memos record)
    (hsync : ∀ p u, (U p u ∨ Next k n t p u) → s₁.counts u = s₂.counts u)
    (hk : ∀ x, Twin hash record C (k x)) (hs₁ : Straight C (proceed env₁ k r d₁).log)
    (hs₂ : Straight C (proceed env₂ k r d₂).log) :
    Pair C (fun p u => U p u ∨ Next k n t p u) (fun u => later u ∨ ∃ x, Uses (k x) u) s₁ s₂
      (proceed env₁ k r d₁) (proceed env₂ k r d₂) := by
  have hP₁ := proceed_done env₁ k r d₁
  have hP₂ := proceed_done env₂ k r d₂
  generalize proceed env₁ k r d₁ = D₁ at *
  generalize proceed env₂ k r d₂ = D₂ at *
  obtain ⟨l₁, hR₁⟩ := rest_of_proceeds hp.hash₁ hr hP₁
  obtain ⟨l₂, hR₂⟩ := rest_of_proceeds hp.hash₂ hr hP₂
  rw [hR₁.log] at hs₁
  rw [hR₂.log] at hs₂
  obtain ⟨-, hsl₁, hd₁⟩ := straight_append hs₁
  obtain ⟨-, hsl₂, hd₂⟩ := straight_append hs₂
  have hdis : ∀ p u u', U p u → ¬ Next k n t p u' := fun p u u' hu ⟨x, hx⟩ =>
    within_not_from (hplace p u hu) (callsAt_from hx)
  have hle₁₂ : ¬ Derailed d₂.log → d₂.outcome.escape = none → ∀ u, Reused C u →
      s₁.counts u ≤ s₂.counts u → d₁.state.counts u ≤ d₂.state.counts u :=
    fun hd he u hu => h₁₂.bound hd u hu fun _ => .inr he
  have hle₂₁ : ¬ Derailed d₁.log → d₁.outcome.escape = none → ∀ u, Reused C u →
      s₂.counts u ≤ s₁.counts u → d₂.state.counts u ≤ d₁.state.counts u :=
    fun hd he u hu => h₂₁.bound hd u hu fun _ => .inr he
  have hrest : ¬ Derailed d₁.log → ¬ Derailed d₂.log → d₁.outcome.escape = none →
      d₂.outcome.escape = none → ∃ x e₁ e₂, D₁ = e₁.after d₁.log ∧ D₂ = e₂.after d₂.log ∧
        l₁ = e₁.log ∧ l₂ = e₂.log ∧
        Pair C (CallsAt (k x) ((n + 1) :: t)) (UsesLater (k x)) d₁.state d₂.state e₁ e₂ := by
    intro hn₁ hn₂ he₁ he₂
    refine rests_twin hp hr hin ht₁ ht₂ hm₁ hm₂ hC (fun p u hu => ?_) hk hP₁ hP₂ hR₁.log hR₂.log
      hsl₁ hsl₂ (h₁₂.outcome hn₁ hn₂ he₁ he₂) he₁
    have hs := hsync p u (.inr hu)
    exact sync_part hU ht₁ ht₂ (hC p u hu) (fun hp => hdis p u u hp hu) hs
      (fun hr => hle₁₂ hn₂ he₂ u hr hs.le) fun hr => hle₂₁ hn₁ he₁ u hr hs.ge
  have hnot₁ : Reuses C l₁ → ¬ Derailed d₁.log := fun hc hd => hd₁ hd hc
  have hnot₂ : Reuses C l₂ → ¬ Derailed d₂.log := fun hc hd => hd₂ hd hc
  have hgo₁ : Reuses C l₁ → d₁.outcome.escape = none := fun hc => hR₁.goes (reuses_ne_nil hc)
  have hgo₂ : Reuses C l₂ → d₂.outcome.escape = none := fun hc => hR₂.goes (reuses_ne_nil hc)
  refine ⟨?_, ?_, ?_, ?_⟩
  · rw [hR₁.log, hR₂.log]
    refine same_join ht₁ ht₂ hR₁.tally hR₂.tally hdis h₁₂.same fun hc₁ hc₂ => ?_
    obtain ⟨x, e₁, e₂, -, -, rfl, rfl, hpair⟩ :=
      hrest (hnot₁ hc₁) (hnot₂ hc₂) (hgo₁ hc₁) (hgo₂ hc₂)
    exact hpair.same
  · rw [hR₁.log, hR₂.log]
    refine apart_join htells hU hC ht₁ ht₂ hR₁.tally hR₂.tally
      (fun hc u hr ⟨p, hu⟩ _ => hle₁₂ (hnot₂ hc) (hgo₂ hc) u hr (hsync p u (.inl hu)).le)
      (fun hc u hr ⟨p, hu⟩ _ => hle₂₁ (hnot₁ hc) (hgo₁ hc) u hr (hsync p u (.inl hu)).ge)
      h₁₂.apart fun hc₁ hc₂ => ?_
    obtain ⟨x, e₁, e₂, -, -, rfl, rfl, hpair⟩ :=
      hrest (hnot₁ hc₁) (hnot₂ hc₂) (hgo₁ hc₁) (hgo₂ hc₂)
    exact hpair.apart
  · intro hnd u hr hu hle
    rw [hR₂.log, derailed_append, not_or] at hnd
    by_cases hgo : d₂.outcome.escape = none
    · have hA := hle₁₂ hnd.1 hgo u hr hle
      by_cases hc : Reuses C l₁
      · obtain ⟨x, e₁, e₂, rfl, rfl, rfl, rfl, hpair⟩ := hrest (hnot₁ hc) hnd.1 (hgo₁ hc) hgo
        refine hpair.bound hnd.2 u hr (fun ⟨p, hx⟩ => ?_) hA
        exact (hu ⟨p, .inr ⟨x, hx⟩⟩).imp_left
          fun hn _ => hn (.inr ⟨x, uses_of_callsAt hx⟩)
      · rw [counts_unreused hC hR₁.tally hc hr]
        exact hA.trans (hR₂.tally.mono u)
    · have hcut : D₂.outcome.escape ≠ none := fun h => hgo (goes_of_proceeds hP₂ h)
      have hnot : ∀ p, ¬ Next k n t p u := fun p ⟨x, hx⟩ =>
        ((hu ⟨p, .inr ⟨x, hx⟩⟩).resolve_right hcut) (.inr ⟨x, uses_of_callsAt hx⟩)
      rw [hR₁.tally.frame hnot]
      refine (h₁₂.bound hnd.1 u hr (fun ⟨p, hp⟩ => .inl fun hlu => ?_) hle).trans
        (hR₂.tally.mono u)
      exact ((hu ⟨p, .inl hp⟩).resolve_right hcut) (.inl hlu)
  · intro hn₁ hn₂ he₁ he₂
    rw [hR₁.log, derailed_append, not_or] at hn₁
    rw [hR₂.log, derailed_append, not_or] at hn₂
    obtain ⟨x, e₁, e₂, rfl, rfl, rfl, rfl, hpair⟩ :=
      hrest hn₁.1 hn₂.1 (goes_of_proceeds hP₁ he₁) (goes_of_proceeds hP₂ he₂)
    exact hpair.outcome hn₁.2 hn₂.2 he₁ he₂

end Proceed

/-! ### One step call -/

section Call
variable {hash : String → String} {record : StepMemos} {C : List ℕ → String → Prop}
  {env env₁ env₂ : Env σ} {r : Scope} {s s₁ s₂ : State σ} {d d₁ d₂ : Run σ Json}
  {stepId : String} {q : List ℕ}

def answer (decode : Json → Except PyError Json) (memo : Option Output) :
    Outcome PyError Interrupt Json :=
  memo.elim (.ok .null) fun memo => Outcome.ofExcept (Step.remembered decode memo)

/-- A step call whose handler calls no steps. Unless the request is derailed, its
result comes from the record. -/
structure CallDone (hash : String → String) (record : StepMemos) (stepId : String)
    (result : Option Output → Outcome PyError Interrupt Json) (r : Scope) (s : State σ)
    (d : Run σ Json) : Prop where
  calls : calls d.log = [(r.path, hash (preHashed stepId (s.counts stepId + 1)))]
  counts : d.state.counts = Function.update s.counts stepId (s.counts stepId + 1)
  result : ¬ Derailed d.log → d.outcome.escape = none →
    d.outcome = result (record.lookup (hash (preHashed stepId (s.counts stepId + 1))))

theorem pair_call {result : Option Output → Outcome PyError Interrupt Json}
    (h₁ : CallDone hash record stepId result r s₁ d₁)
    (h₂ : CallDone hash record stepId result r s₂ d₂)
    (hsync : s₁.counts stepId = s₂.counts stepId) :
    Pair C (fun p u => p = q ∧ u = stepId) (fun _ => False) s₁ s₂ d₁ d₂ := by
  refine ⟨fun p id₁ id₂ _ hc₁ hc₂ => ?_, fun p₁ p₂ id _ _ hc₁ hc₂ => ?_, fun _ u _ _ hle => ?_,
    fun hn₁ hn₂ he₁ he₂ => ?_⟩
  · rw [h₁.calls, List.mem_singleton, Prod.mk.injEq] at hc₁
    rw [h₂.calls, List.mem_singleton, Prod.mk.injEq] at hc₂
    rw [hc₁.2, hc₂.2, hsync]
  · rw [h₁.calls, List.mem_singleton, Prod.mk.injEq] at hc₁
    rw [h₂.calls, List.mem_singleton, Prod.mk.injEq] at hc₂
    rw [hc₁.1, hc₂.1]
  · rw [h₁.counts, h₂.counts]
    by_cases hu : u = stepId
    · subst hu
      simp [hsync]
    · simpa [hu] using hle
  · rw [h₁.result hn₁ he₁, h₂.result hn₂ he₂, hsync]

theorem stepDone_result {info : StepInfo} {decode : Json → Except PyError Json}
    {outputType : Option OutputType} {handler : Exec σ Json}
    (hd : Step.StepDone env info decode outputType handler r s d) (hin : r.inStep = false)
    (hm : Dict.Below s.memos record) (hn : ¬ Derailed d.log) (he : d.outcome.escape = none) :
    d.outcome = answer decode (record.lookup info.id) := by
  cases hd with
  | answered hp hmemo => rw [hm _ _ hmemo]; rfl
  | nested hp hin' => simp [hin] at hin'
  | skipped => simp at he
  | responded => simp at he
  | @executed d h hp hmemo hr hop hmay hrun =>
    refine absurd ?_ hn
    generalize Step.serialized env outputType h.outcome = o at he
    cases o with
    | ok v => simp [Step.endOf] at he
    | exc e =>
      cases hb : Step.bubbles e with
      | true =>
        refine ⟨.leave info.id (.bubbled e), ?_, rfl⟩
        simp [Step.exitOf, hb]
      | false => simp [Step.endOf, hb] at he
    | intr i => cases i <;> simp [Step.endOf] at he

theorem run_callDone (hh : env.hash = hash) (stepId : String) (outputType : Option OutputType)
    {handler : Body σ} (hleaf : ∀ u, ¬ Uses handler u) {n : ℕ} {t : List ℕ} (hr : r.path = n :: t)
    (hin : r.inStep = false) (hm : Dict.Below s.memos record) :
    CallDone hash record stepId (answer fun output => env.deserialize output outputType) r s
      (Step.run env stepId outputType (Comp.within Scope.handler (handler.interp env)) r s) := by
  obtain ⟨d, hd, he⟩ := Step.run_done env stepId outputType
    (Comp.within Scope.handler (handler.interp env)) r s
  have htally : Tally env.hash (fun _ _ => False) (Step.countedAt env stepId s) d.state d.log := by
    refine tally_step (fun t' => ?_) hd
    exact (tally_interp handler (n := 0) (t := n :: t) _ t'
      (by simp [Scope.handler, Scope.inHandler, hr])).weaken
      fun p u hu => hleaf u (uses_of_callsAt hu)
  have hcalls := tally_unused htally
  rw [he]
  subst hh
  refine ⟨by simp [callOf, hcalls, Step.parsedAt, parseStepId, StepIDCounter.increment], ?_,
    fun hn hesc => ?_⟩
  · rw [Done.after_state, htally.quiet hcalls]
    rfl
  · exact stepDone_result hd hin hm (fun hd => hn (derailed_append.mpr (.inr hd))) hesc

theorem call_callDone (hh : env.hash = hash) (c : StepCall) (hin : r.inStep = false)
    (hm : Dict.Below s.memos record) :
    CallDone hash record c.stepId (match c.opts with
      | .ok _ => answer c.decode
      | .error e => fun _ => .exc e) r s (Step.call env c r s) := by
  subst hh
  rcases Step.call_done env c r s with ⟨e, ho, he⟩ | ⟨opts, d, ho, hd, he⟩
  · rw [he, ho]
    exact ⟨by simp [callOf, Step.parsedAt, parseStepId, StepIDCounter.increment], rfl,
      fun _ _ => rfl⟩
  · have htally : Tally env.hash (fun _ _ => False) (Step.countedAt env c.stepId s) d.state
        d.log :=
      tally_step (fun t' => tally_silent rfl (Dict.Below.refl _) rfl) hd
    have hcalls := tally_unused htally
    rw [he, ho]
    refine ⟨by simp [callOf, hcalls, Step.parsedAt, parseStepId, StepIDCounter.increment], ?_,
      fun hn hesc => ?_⟩
    · rw [Done.after_state, htally.quiet hcalls]
      rfl
    · exact stepDone_result hd hin hm (fun hd => hn (derailed_append.mpr (.inr hd))) hesc

end Call

end Inngest.StepIdentity
