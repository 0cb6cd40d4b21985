import Mathlib.Logic.Basic

/-!
# Machines

A machine is a set of events: when each is enabled, and what it does to the
state. Runs are judged by a condition that every step of them has to meet, so
that one induction serves the unconditional results and the conditional ones.
-/

set_option autoImplicit false

namespace Inngest.Transition

structure Machine (S E : Type*) where
  init : S
  enabled : E → S → Prop
  effect : E → S → S

namespace Machine
variable {S E : Type*} (M : Machine S E)

/-- The states of the runs whose steps all meet the condition. -/
inductive Reachable (ok : E → S → Prop) : S → Prop where
  | init : Reachable ok M.init
  | step {s : S} (e : E) : Reachable ok s → M.enabled e s → ok e s → Reachable ok (M.effect e s)

def Any (_ : E) (_ : S) : Prop := True

instance (e : E) (s : S) : Decidable (Any e s) := .isTrue trivial

variable {M} {ok ok' : E → S → Prop} {s : S}

theorem Reachable.invariant {P : S → Prop} (h : M.Reachable ok s) (hinit : P M.init)
    (hstep : ∀ e s, M.Reachable ok s → P s → M.enabled e s → ok e s → P (M.effect e s)) : P s := by
  induction h with
  | init => exact hinit
  | step e hs he ho ih => exact hstep e _ hs ih he ho

inductive Run (M : Machine S E) (ok : E → S → Prop) (s : S) : S → Prop where
  | refl : Run M ok s s
  | step {t : S} (e : E) : Run M ok s t → M.enabled e t → ok e t → Run M ok s (M.effect e t)

variable {t : S}

theorem Reachable.run (h : M.Reachable ok s) (hr : M.Run ok s t) : M.Reachable ok t := by
  induction hr with
  | refl => exact h
  | step e _ he ho ih => exact ih.step e he ho

theorem Run.keeps {P : S → Prop} (hr : M.Run ok s t) (h : M.Reachable ok s) (hs : P s)
    (hstep : ∀ e s, M.Reachable ok s → P s → M.enabled e s → ok e s → P (M.effect e s)) : P t := by
  induction hr with
  | refl => exact hs
  | step e hr he ho ih => exact hstep e _ (h.run hr) ih he ho

theorem Run.trans {u : S} (h : M.Run ok s t) (h' : M.Run ok t u) : M.Run ok s u := by
  induction h' with
  | refl => exact h
  | step e _ he ho ih => exact ih.step e he ho

/-- Related states of two machines: what the first can do from there, the
second can, and they stay related. -/
theorem Reachable.simulated {T F : Type*} {N : Machine T F} {good : F → T → Prop}
    {related : S → T → Prop} (h : M.Reachable ok s) (hinit : related M.init N.init)
    (hstep : ∀ e s t, N.Reachable good t → related s t → M.enabled e s → ok e s →
      ∃ f, N.enabled f t ∧ good f t ∧ related (M.effect e s) (N.effect f t)) :
    ∃ t, N.Reachable good t ∧ related s t := by
  induction h with
  | init => exact ⟨N.init, .init, hinit⟩
  | step e _ he ho ih =>
    obtain ⟨t, ht, hrelated⟩ := ih
    obtain ⟨f, hf, hgood, hnext⟩ := hstep e _ t ht hrelated he ho
    exact ⟨N.effect f t, ht.step f hf hgood, hnext⟩

section Replay
variable (M) (ok) [∀ e s, Decidable (M.enabled e s)] [∀ e s, Decidable (ok e s)]

/-- The events one after another, as long as each is enabled and meets the
condition. -/
def replay : List E → S → Option S
  | [], s => some s
  | e :: es, s => if M.enabled e s ∧ ok e s then replay es (M.effect e s) else none

variable {M} {ok}

theorem replay_cons {e : E} {es : List E} {s' : S} (h : M.replay ok (e :: es) s = some s') :
    (M.enabled e s ∧ ok e s) ∧ M.replay ok es (M.effect e s) = some s' := by
  rw [replay] at h
  split at h
  · exact ⟨by assumption, h⟩
  · simp at h

theorem replay_reachable {es : List E} {s' : S} (hs : M.Reachable ok s)
    (h : M.replay ok es s = some s') : M.Reachable ok s' := by
  induction es generalizing s with
  | nil =>
    obtain rfl := Option.some.inj h
    exact hs
  | cons e es ih =>
    obtain ⟨⟨he, ho⟩, h⟩ := replay_cons h
    exact ih (hs.step e he ho) h

/-- What can be seen at the end of a list of events that can be replayed. -/
theorem exists_reachable (es : List E) {P : S → Prop} [DecidablePred P]
    (h : (M.replay ok es M.init).any (fun s => P s) = true) : ∃ s, M.Reachable ok s ∧ P s := by
  obtain ⟨s, hs, hp⟩ := Option.any_eq_true _ _ |>.mp h
  exact ⟨s, replay_reachable .init hs, of_decide_eq_true hp⟩

end Replay

/-! ## Observers -/

section Observers
variable {O : Type*}

/-- A machine with an observer, who notes before each step what it will be. -/
def observed (M : Machine S E) (start : O) (note : E → S → O → O) : Machine (S × O) E where
  init := (M.init, start)
  enabled e s := M.enabled e s.1
  effect e s := (M.effect e s.1, note e s.1 s.2)

variable {start : O} {note : E → S → O → O}

theorem Reachable.observed (h : M.Reachable ok s) :
    ∃ o, (M.observed start note).Reachable (fun e s => ok e s.1) (s, o) := by
  induction h with
  | init => exact ⟨start, .init⟩
  | step e _ he ho ih =>
    obtain ⟨o, hs⟩ := ih
    exact ⟨_, hs.step (M := M.observed start note) e he ho⟩

end Observers

end Machine

/-! ## Histories -/

section Histories
variable {α : Type*} {P : List α → α → Prop} {l l' past : List α} {x : α}

/-- In a history, the newest entry first, every entry is as it should be after
what came before it. -/
def Each (P : List α → α → Prop) : List α → Prop
  | [] => True
  | x :: past => P past x ∧ Each P past

theorem Each.split (h : Each P l) (hl : l = l' ++ x :: past) : P past x := by
  subst hl
  induction l' with
  | nil => exact h.1
  | cons y l' ih => exact ih h.2

theorem Each.append (h : Each P l) (hl : ∀ x ∈ l', ∀ past, P past x) : Each P (l' ++ l) := by
  induction l' with
  | nil => exact h
  | cons x l' ih => exact ⟨hl x (.head _) _, ih fun y hy => hl y (.tail _ hy)⟩

variable {Q : α → Prop} {y : α}

def Since (Q : α → Prop) (x : α) : List α → Prop
  | [] => False
  | y :: past => y = x ∨ ¬ Q y ∧ Since Q x past

@[simp] theorem since_nil : ¬ Since Q x [] := id

@[simp] theorem since_cons : Since Q x (y :: past) ↔ y = x ∨ ¬ Q y ∧ Since Q x past := .rfl

theorem since_append : Since Q x (l' ++ l) ↔ Since Q x l' ∨ (∀ y ∈ l', ¬ Q y) ∧ Since Q x l := by
  induction l' with
  | nil => simp
  | cons y l' ih =>
    simp only [List.cons_append, since_cons, ih, List.forall_mem_cons, and_or_left, or_assoc,
      and_assoc]

theorem Since.mem (h : Since Q x l) : x ∈ l := by
  induction l with
  | nil => exact h.elim
  | cons y l ih =>
    rcases h with rfl | ⟨-, h⟩
    · exact .head _
    · exact .tail _ (ih h)

theorem since_split (hl : l = l' ++ x :: past) : (∃ y ∈ l', Q y) ∨ Since Q x l := by
  subst hl
  by_cases h : ∃ y ∈ l', Q y
  · exact .inl h
  · right
    rw [since_append]
    exact .inr ⟨fun y hy hq => h ⟨y, hy, hq⟩, .inl rfl⟩

end Histories

end Inngest.Transition
