import Mathlib.Data.List.Nodup
import Inngest.Transition
import Inngest.ValueWatcher

/-!
# Waiters and setters on several threads

`ValueWatcher` with its lock-protected sections as steps. A setter changes the
value and takes a snapshot of the registered queues in one section; afterwards
it schedules one callback for each of them on the loop of its waiter, and the
loop delivers later. A waiter reads the value, registers and reads again. No
step waits for another: between any two of one party the others may take theirs.
The callbacks of `on_change` act on the watcher as setters of their own.
-/

set_option autoImplicit false

namespace Inngest.Watching
open Transition

variable {τ ω ℓ α : Type}

/-! ## Waits -/

inductive Wait (α : Type) where
  | condition (holds : α → Bool) (immediate : Bool)
  | change

namespace Wait

def waitFor [BEq α] (value : α) : Wait α := .condition (fun v => v == value) true

def waitForNot [BEq α] (value : α) : Wait α := .condition (fun v => v != value) true

def waitForNotNone : Wait (Option α) := .condition Option.isSome true

def immediate : Wait α → Bool
  | .condition _ immediate => immediate
  | .change => false

def accepts : Wait α → α → Bool
  | .condition holds _, new => holds new
  | .change, _ => true

end Wait

/-! ## States -/

structure Change (α : Type) where
  number : ℕ
  old : α
  new : α

structure Record (τ ω α : Type) where
  thread : τ
  old : α
  new : α
  registered : List ω

inductive Phase (α : Type) where
  | absent
  | passed
  | watching
  | waiting
  /-- the `with` block is left, with a value or by a cancellation -/
  | leaving (result : Option α)
  | done (result : Option α)

namespace Phase

def Fresh : Phase α → Prop
  | .absent | .passed => True
  | _ => False

def Listening : Phase α → Prop
  | .watching | .waiting => True
  | _ => False

def Registered : Phase α → Prop
  | .watching | .waiting | .leaving _ => True
  | _ => False

theorem Listening.registered {p : Phase α} (h : p.Listening) : p.Registered := by
  cases p <;> trivial

theorem Fresh.not_registered {p : Phase α} (h : p.Fresh) : ¬ p.Registered := by
  cases p <;> simp_all [Fresh, Registered]

end Phase

structure State (τ ω ℓ α : Type) where
  value : α
  watchQueues : List ω
  /-- what a setter has still to schedule: nothing once it has returned -/
  notifying : τ → List (ω × Change α)
  ready : ℓ → List (ω × Change α)
  queue : ω → List (Change α)
  phase : ω → Phase α
  history : List (Record τ ω α)
  delivered : List (ω × Change α)

structure Config (ω ℓ α : Type) where
  initial : α
  wait : ω → Wait α
  loop : ω → ℓ

inductive Event (τ ω ℓ α : Type) where
  | set (thread : τ) (newValue : α)
  | setIf (thread : τ) (newValue : α) (condition : α → Bool)
  | schedule (thread : τ)
  | deliver (loop : ℓ)
  | check (waiter : ω)
  | watch (waiter : ω)
  | recheck (waiter : ω)
  | get (waiter : ω)
  | cancel (waiter : ω)
  | removeQueue (waiter : ω)

namespace State
variable (cfg : Config ω ℓ α) (s : State τ ω ℓ α)

def new (initial : α) : State τ ω ℓ α where
  value := initial
  watchQueues := []
  notifying _ := []
  ready _ := []
  queue _ := []
  phase _ := .absent
  history := []
  delivered := []

variable [DecidableEq τ] [DecidableEq ω] [DecidableEq ℓ] [BEq α]

def set (thread : τ) (newValue : α) : State τ ω ℓ α :=
  if newValue == s.value then s
  else
    let change : Change α := ⟨s.history.length, s.value, newValue⟩
    { s with
      value := newValue
      notifying := Function.update s.notifying thread (s.watchQueues.map fun w => (w, change))
      history := s.history ++ [⟨thread, s.value, newValue, s.watchQueues⟩] }

def setIf (thread : τ) (newValue : α) (condition : α → Bool) : State τ ω ℓ α :=
  if condition s.value then s.set thread newValue else s

def schedule (thread : τ) : State τ ω ℓ α :=
  match s.notifying thread with
  | [] => s
  | (w, change) :: rest =>
    { s with
      notifying := Function.update s.notifying thread rest
      ready := Function.update s.ready (cfg.loop w) (s.ready (cfg.loop w) ++ [(w, change)]) }

def deliver (loop : ℓ) : State τ ω ℓ α :=
  match s.ready loop with
  | [] => s
  | (w, change) :: rest =>
    { s with
      ready := Function.update s.ready loop rest
      queue := Function.update s.queue w (s.queue w ++ [change])
      delivered := s.delivered ++ [(w, change)] }

def setPhase (w : ω) (phase : Phase α) : State τ ω ℓ α :=
  { s with phase := Function.update s.phase w phase }

def check (w : ω) : State τ ω ℓ α :=
  s.setPhase w (if (cfg.wait w).accepts s.value then .done (some s.value) else .passed)

def watch (w : ω) : State τ ω ℓ α :=
  { s with
    watchQueues := s.watchQueues ++ [w]
    queue := Function.update s.queue w []
    phase := Function.update s.phase w
      (if (cfg.wait w).immediate then .watching else .waiting) }

def recheck (w : ω) : State τ ω ℓ α :=
  s.setPhase w (if (cfg.wait w).accepts s.value then .leaving (some s.value) else .waiting)

def get (w : ω) : State τ ω ℓ α :=
  match s.queue w with
  | [] => s
  | change :: rest =>
    { s with queue := Function.update s.queue w rest }.setPhase w
      (if (cfg.wait w).accepts change.new then .leaving (some change.new) else .waiting)

def cancel (w : ω) : State τ ω ℓ α :=
  s.setPhase w (match s.phase w with
    | .waiting => .leaving none
    | _ => .done none)

def removeQueue (w : ω) : State τ ω ℓ α :=
  { s with
    watchQueues := s.watchQueues.filter (fun v => v ≠ w)
    phase := Function.update s.phase w (match s.phase w with
      | .leaving result => .done result
      | phase => phase) }

end State

section Machine
variable [DecidableEq τ] [DecidableEq ω] [DecidableEq ℓ] [BEq α] (cfg : Config ω ℓ α)

def enabled (s : State τ ω ℓ α) : Event τ ω ℓ α → Prop
  | .set thread _ | .setIf thread _ _ => s.notifying thread = []
  | .schedule thread => s.notifying thread ≠ []
  | .deliver loop => s.ready loop ≠ []
  | .check w => s.phase w = .absent ∧ (cfg.wait w).immediate = true
  | .watch w => s.phase w = .passed ∨ s.phase w = .absent ∧ (cfg.wait w).immediate = false
  | .recheck w => s.phase w = .watching
  | .get w => s.phase w = .waiting ∧ s.queue w ≠ []
  | .cancel w => (s.phase w).Fresh ∨ s.phase w = .waiting
  | .removeQueue w => ∃ result, s.phase w = .leaving result

def effect (s : State τ ω ℓ α) : Event τ ω ℓ α → State τ ω ℓ α
  | .set thread newValue => s.set thread newValue
  | .setIf thread newValue condition => s.setIf thread newValue condition
  | .schedule thread => s.schedule cfg thread
  | .deliver loop => s.deliver loop
  | .check w => s.check cfg w
  | .watch w => s.watch cfg w
  | .recheck w => s.recheck cfg w
  | .get w => s.get cfg w
  | .cancel w => s.cancel w
  | .removeQueue w => s.removeQueue w

def machine : Machine (State τ ω ℓ α) (Event τ ω ℓ α) where
  init := .new cfg.initial
  enabled e s := enabled cfg s e
  effect e s := effect cfg s e

end Machine

/-! ## Where a change is -/

section Copies
variable [DecidableEq ω] (w : ω) (k : ℕ)

/-- How often a list has the `k`-th transition for the waiter. -/
def copies (l : List (ω × Change α)) : ℕ := l.countP fun x => x.1 = w ∧ x.2.number = k

@[simp] theorem copies_nil : copies w k ([] : List (ω × Change α)) = 0 := rfl

theorem copies_cons (x : ω × Change α) (l : List (ω × Change α)) :
    copies w k (x :: l) = copies w k l + if x.1 = w ∧ x.2.number = k then 1 else 0 := by
  simp [copies, List.countP_cons]

theorem copies_append (l l' : List (ω × Change α)) :
    copies w k (l ++ l') = copies w k l + copies w k l' := List.countP_append

theorem copies_map (change : Change α) (l : List ω) :
    copies w k (l.map fun v => (v, change)) = if change.number = k then l.count w else 0 := by
  induction l with
  | nil => simp
  | cons v l ih =>
    rw [List.map_cons, copies_cons, ih]
    by_cases hk : change.number = k
    · by_cases hv : v = w <;> simp [hk, hv]
    · simp [hk]

variable {w k}

theorem copies_eq_zero {l : List (ω × Change α)} (h : ∀ x ∈ l, x.2.number ≠ k) :
    copies w k l = 0 := by
  rw [copies, List.countP_eq_zero]
  intro x hx
  simp [h x hx]

theorem copies_pos {l : List (ω × Change α)} {x : ω × Change α} (hx : x ∈ l) :
    0 < copies x.1 x.2.number l := by
  rw [copies, List.countP_pos_iff]
  exact ⟨x, hx, by simp⟩

theorem exists_of_copies {l : List (ω × Change α)} (h : 0 < copies w k l) :
    ∃ change, (w, change) ∈ l ∧ change.number = k := by
  rw [copies, List.countP_pos_iff] at h
  obtain ⟨⟨v, change⟩, hx, hp⟩ := h
  obtain ⟨rfl, hk⟩ : v = w ∧ change.number = k := by simpa using hp
  exact ⟨change, hx, hk⟩

end Copies

/-! ## Every transition is somewhere -/

section Accounts
variable {cfg : Config ω ℓ α} {s s' : State τ ω ℓ α}

def Recorded (s : State τ ω ℓ α) (change : Change α) (r : Record τ ω α) : Prop :=
  s.history[change.number]? = some r ∧ r.old = change.old ∧ r.new = change.new

theorem Recorded.number_lt {change : Change α} {r : Record τ ω α} (h : Recorded s change r) :
    change.number < s.history.length := (List.getElem?_eq_some_iff.mp h.1).1

theorem Recorded.append {change : Change α} {r r' : Record τ ω α} (h : Recorded s change r)
    (hhistory : s'.history = s.history ++ [r']) : Recorded s' change r := by
  refine ⟨?_, h.2⟩
  rw [hhistory, List.getElem?_append_left h.number_lt]
  exact h.1

variable [DecidableEq ω]

/-- Each transition is once with its setter, on its way or delivered, for each
queue that was registered when it took effect. -/
structure Accounted (cfg : Config ω ℓ α) (s : State τ ω ℓ α) : Prop where
  queues : s.watchQueues.Nodup
  registered : ∀ r ∈ s.history, r.registered.Nodup
  notifying : ∀ thread, ∀ x ∈ s.notifying thread, ∃ r, Recorded s x.2 r ∧ r.thread = thread
  ready : ∀ loop, ∀ x ∈ s.ready loop, (∃ r, Recorded s x.2 r) ∧ cfg.loop x.1 = loop
  delivered : ∀ x ∈ s.delivered, ∃ r, Recorded s x.2 r
  balance : ∀ w k r, s.history[k]? = some r →
    copies w k s.delivered + copies w k (s.ready (cfg.loop w)) +
      copies w k (s.notifying r.thread) = r.registered.count w

theorem accounted_new (initial : α) : Accounted cfg (.new initial : State τ ω ℓ α) where
  queues := List.nodup_nil
  registered r hr := absurd hr List.not_mem_nil
  notifying thread x hx := absurd hx List.not_mem_nil
  ready loop x hx := absurd hx List.not_mem_nil
  delivered x hx := absurd hx List.not_mem_nil
  balance w k r hr := by simp [State.new] at hr

theorem Accounted.waiter (h : Accounted cfg s) (hqueues : s'.watchQueues.Nodup)
    (hnotifying : s'.notifying = s.notifying) (hready : s'.ready = s.ready)
    (hhistory : s'.history = s.history) (hdelivered : s'.delivered = s.delivered) :
    Accounted cfg s' := by
  constructor
  · exact hqueues
  · rw [hhistory]; exact h.registered
  · simp only [hnotifying, Recorded, hhistory]; exact h.notifying
  · simp only [hready, Recorded, hhistory]; exact h.ready
  · simp only [hdelivered, Recorded, hhistory]; exact h.delivered
  · rw [hdelivered, hready, hnotifying, hhistory]; exact h.balance

section Steps
variable [DecidableEq τ] [DecidableEq ℓ] [BEq α]

omit [DecidableEq ℓ] in
theorem accounted_set (h : Accounted cfg s) {thread : τ} (hidle : s.notifying thread = [])
    (newValue : α) : Accounted cfg (s.set thread newValue) := by
  rw [State.set]
  split
  · exact h
  rename_i hne
  constructor
  · exact h.queues
  · intro r hr
    rcases List.mem_append.mp hr with hr | hr
    · exact h.registered r hr
    · rw [List.mem_singleton.mp hr]
      exact h.queues
  · intro thread' x hx
    simp only [Function.update_apply] at hx
    by_cases hthread : thread' = thread
    · rw [if_pos hthread] at hx
      obtain ⟨w, -, rfl⟩ := List.mem_map.mp hx
      exact ⟨_, ⟨List.getElem?_concat_length, rfl, rfl⟩, hthread.symm⟩
    · rw [if_neg hthread] at hx
      obtain ⟨r, hr, hr'⟩ := h.notifying thread' x hx
      exact ⟨r, hr.append rfl, hr'⟩
  · intro loop x hx
    obtain ⟨⟨r, hr⟩, hloop⟩ := h.ready loop x hx
    exact ⟨⟨r, hr.append rfl⟩, hloop⟩
  · intro x hx
    obtain ⟨r, hr⟩ := h.delivered x hx
    exact ⟨r, hr.append rfl⟩
  · intro w k r hr
    simp only [Function.update_apply]
    by_cases hk : k < s.history.length
    · -- an older transition: the setter had none left
      rw [List.getElem?_append_left hk] at hr
      have hold := h.balance w k r hr
      by_cases hthread : r.thread = thread
      · have hnew : s.history.length ≠ k := by omega
        rw [hthread, hidle] at hold
        simpa [hthread, copies_map, hnew] using hold
      · rw [if_neg hthread]
        exact hold
    · have hlast : k = s.history.length := by
        have hlt := (List.getElem?_eq_some_iff.mp hr).1
        rw [List.length_append, List.length_singleton] at hlt
        omega
      subst hlast
      rw [List.getElem?_concat_length] at hr
      obtain rfl := Option.some.inj hr
      have hdelivered : copies w s.history.length s.delivered = 0 := copies_eq_zero fun x hx => by
        obtain ⟨r, hr⟩ := h.delivered x hx
        have hlt := hr.number_lt
        omega
      have hready : copies w s.history.length (s.ready (cfg.loop w)) = 0 :=
        copies_eq_zero fun x hx => by
          obtain ⟨⟨r, hr⟩, -⟩ := h.ready _ x hx
          have hlt := hr.number_lt
          omega
      simp [hdelivered, hready, copies_map]

omit [BEq α] in
theorem accounted_schedule (h : Accounted cfg s) (thread : τ) :
    Accounted cfg (s.schedule cfg thread) := by
  rw [State.schedule]
  cases hlist : s.notifying thread with
  | nil => exact h
  | cons x rest =>
    obtain ⟨w, change⟩ := x
    obtain ⟨r₀, hr₀, hthread₀⟩ := h.notifying thread (w, change) (by rw [hlist]; simp)
    constructor
    · exact h.queues
    · exact h.registered
    · intro thread' x hx
      simp only [Function.update_apply] at hx
      split at hx
      · rename_i hthread
        subst hthread
        exact h.notifying thread' x (by rw [hlist]; exact List.mem_cons_of_mem _ hx)
      · exact h.notifying thread' x hx
    · intro loop x hx
      simp only [Function.update_apply] at hx
      split at hx
      · rename_i hloop
        subst hloop
        rcases List.mem_append.mp hx with hx | hx
        · exact h.ready _ x hx
        · rw [List.mem_singleton.mp hx]
          exact ⟨⟨r₀, hr₀⟩, rfl⟩
      · exact h.ready loop x hx
    · exact h.delivered
    · intro v k r hr
      have hold := h.balance v k r hr
      by_cases hmoved : w = v ∧ change.number = k
      · obtain ⟨rfl, rfl⟩ := hmoved
        obtain rfl := Option.some.inj (hr₀.1.symm.trans hr)
        rw [hthread₀, hlist, copies_cons, if_pos ⟨rfl, rfl⟩] at hold
        rw [hthread₀]
        simp only [Function.update_self, copies_append, copies_cons, copies_nil, and_self, if_true]
        omega
      · have hready : copies v k (Function.update s.ready (cfg.loop w)
            (s.ready (cfg.loop w) ++ [(w, change)]) (cfg.loop v)) =
            copies v k (s.ready (cfg.loop v)) := by
          rw [Function.update_apply]
          split
          · rename_i hloop
            rw [hloop, copies_append, copies_cons, if_neg hmoved, copies_nil]
            rfl
          · rfl
        have hnotifying : copies v k (Function.update s.notifying thread rest r.thread) =
            copies v k (s.notifying r.thread) := by
          rw [Function.update_apply]
          split
          · rename_i hthread
            rw [hthread, hlist, copies_cons, if_neg hmoved]
            rfl
          · rfl
        rw [hready, hnotifying]
        exact hold

omit [DecidableEq τ] [BEq α] in
theorem accounted_deliver (h : Accounted cfg s) (loop : ℓ) : Accounted cfg (s.deliver loop) := by
  rw [State.deliver]
  cases hlist : s.ready loop with
  | nil => exact h
  | cons x rest =>
    obtain ⟨w, change⟩ := x
    obtain ⟨⟨r₀, hr₀⟩, hloop₀⟩ := h.ready loop (w, change) (by rw [hlist]; simp)
    constructor
    · exact h.queues
    · exact h.registered
    · exact h.notifying
    · intro loop' x hx
      simp only [Function.update_apply] at hx
      split at hx
      · rename_i hloop
        subst hloop
        exact h.ready loop' x (by rw [hlist]; exact List.mem_cons_of_mem _ hx)
      · exact h.ready loop' x hx
    · intro x hx
      rcases List.mem_append.mp hx with hx | hx
      · exact h.delivered x hx
      · rw [List.mem_singleton.mp hx]
        exact ⟨r₀, hr₀⟩
    · intro v k r hr
      have hold := h.balance v k r hr
      by_cases hmoved : w = v ∧ change.number = k
      · obtain ⟨rfl, rfl⟩ := hmoved
        rw [hloop₀, hlist, copies_cons, if_pos ⟨rfl, rfl⟩] at hold
        rw [hloop₀]
        simp only [Function.update_self, copies_append, copies_cons, copies_nil, and_self, if_true]
        omega
      · have hready : copies v k (Function.update s.ready loop rest (cfg.loop v)) =
            copies v k (s.ready (cfg.loop v)) := by
          rw [Function.update_apply]
          split
          · rename_i hloop
            rw [hloop, hlist, copies_cons, if_neg hmoved]
            rfl
          · rfl
        rw [hready, copies_append, copies_cons, if_neg hmoved, copies_nil]
        exact hold

end Steps

/-! ## Every waiter sees what it was sent -/

structure Attentive (cfg : Config ω ℓ α) (s : State τ ω ℓ α) : Prop where
  live : ∀ w, w ∈ s.watchQueues ↔ (s.phase w).Registered
  fresh : ∀ w, (s.phase w).Fresh → ∀ r ∈ s.history, w ∉ r.registered
  consumed : ∀ w, (s.phase w).Listening → ∀ change, (w, change) ∈ s.delivered →
    change ∈ s.queue w ∨ (cfg.wait w).accepts change.new = false
  queued : ∀ w, ∀ change ∈ s.queue w, (w, change) ∈ s.delivered
  current : ∀ w, (cfg.wait w).immediate = true → s.phase w = .waiting →
    (cfg.wait w).accepts s.value = false ∨ ∃ r ∈ s.history, w ∈ r.registered ∧ r.new = s.value

omit [DecidableEq ω] in
theorem attentive_new (initial : α) : Attentive cfg (.new initial : State τ ω ℓ α) where
  live w := by simp [State.new, Phase.Registered]
  fresh w _ r hr := absurd hr List.not_mem_nil
  consumed w _ change hx := absurd hx List.not_mem_nil
  queued w change hx := absurd hx List.not_mem_nil
  current w _ hw := by simp [State.new] at hw

theorem Attentive.setPhase (h : Attentive cfg s) {w : ω} {phase : Phase α}
    (hregistered : phase.Registered ↔ (s.phase w).Registered)
    (hfresh : phase.Fresh → (s.phase w).Fresh)
    (hlistening : phase.Listening → (s.phase w).Listening)
    (hcurrent : phase = .waiting → s.phase w = .waiting ∨ (cfg.wait w).accepts s.value = false) :
    Attentive cfg (s.setPhase w phase) := by
  constructor <;> intro v <;> simp only [State.setPhase, Function.update_apply]
  · split
    · rename_i hv
      rw [hv, hregistered]
      exact h.live w
    · exact h.live v
  · split
    · rename_i hv
      intro hp
      rw [hv]
      exact h.fresh w (hfresh hp)
    · exact h.fresh v
  · split
    · rename_i hv
      intro hp
      rw [hv]
      exact h.consumed w (hlistening hp)
    · exact h.consumed v
  · exact h.queued v
  · intro himmediate
    split
    · rename_i hv
      intro hp
      subst hv
      rcases hcurrent hp with hp | hrejects
      · exact h.current v himmediate hp
      · exact .inl hrejects
    · exact h.current v himmediate

section Steps
variable [DecidableEq τ] [DecidableEq ℓ] [BEq α]

omit [DecidableEq ω] [DecidableEq ℓ] in
theorem attentive_set (h : Attentive cfg s) (thread : τ) (newValue : α) :
    Attentive cfg (s.set thread newValue) := by
  rw [State.set]
  split
  · exact h
  constructor
  · exact h.live
  · intro w hw r hr
    rcases List.mem_append.mp hr with hr | hr
    · exact h.fresh w hw r hr
    · rw [List.mem_singleton.mp hr]
      exact fun hmem => hw.not_registered ((h.live w).mp hmem)
  · exact h.consumed
  · exact h.queued
  · intro w _ hw
    have hwaiting : (s.phase w).Registered := by
      rw [show s.phase w = .waiting from hw]
      trivial
    exact .inr ⟨_, List.mem_append_right _ (List.mem_singleton.mpr rfl),
      (h.live w).mpr hwaiting, rfl⟩

omit [DecidableEq ω] [BEq α] in
theorem attentive_schedule (h : Attentive cfg s) (thread : τ) :
    Attentive cfg (s.schedule cfg thread) := by
  rw [State.schedule]
  cases s.notifying thread with
  | nil => exact h
  | cons x rest => exact ⟨h.live, h.fresh, h.consumed, h.queued, h.current⟩

omit [DecidableEq τ] [BEq α] in
theorem attentive_deliver (h : Attentive cfg s) (loop : ℓ) : Attentive cfg (s.deliver loop) := by
  rw [State.deliver]
  cases s.ready loop with
  | nil => exact h
  | cons x rest =>
    obtain ⟨w, change⟩ := x
    refine ⟨h.live, h.fresh, fun v hv change' hx => ?_, fun v change' hx => ?_, h.current⟩ <;>
      simp only [Function.update_apply] at hx ⊢
    · rcases List.mem_append.mp hx with hx | hx
      · have hold := h.consumed v hv change' hx
        split
        · rename_i hvw
          subst hvw
          exact hold.imp_left fun hmem => List.mem_append_left _ hmem
        · exact hold
      · obtain ⟨rfl, rfl⟩ := Prod.mk.inj (List.mem_singleton.mp hx)
        simp
    · apply List.mem_append.mpr
      by_cases hv : v = w
      · subst hv
        rw [if_pos rfl] at hx
        rcases List.mem_append.mp hx with hx | hx
        · exact .inl (h.queued v change' hx)
        · exact .inr (by rw [List.mem_singleton.mp hx]; exact List.mem_singleton.mpr rfl)
      · rw [if_neg hv] at hx
        exact .inl (h.queued v change' hx)

omit [DecidableEq τ] [DecidableEq ℓ] [BEq α] in
theorem attentive_check (h : Attentive cfg s) {w : ω} (hw : s.phase w = .absent) :
    Attentive cfg (s.check cfg w) := by
  apply h.setPhase <;> split <;> simp [hw, Phase.Registered, Phase.Fresh, Phase.Listening]

omit [DecidableEq τ] [DecidableEq ℓ] [BEq α] in
theorem attentive_watch (h : Attentive cfg s) (ha : Accounted cfg s) {w : ω}
    (hw : (s.phase w).Fresh) : Attentive cfg (s.watch cfg w) := by
  have hnone : ∀ change, (w, change) ∉ s.delivered := by
    intro change hx
    obtain ⟨r, hr⟩ := ha.delivered _ hx
    have hbalance := ha.balance w change.number r hr.1
    have hcopies : 0 < copies w change.number s.delivered := copies_pos hx
    have hcount : 0 < r.registered.count w := by omega
    exact h.fresh w hw r (List.mem_of_getElem? hr.1) (List.count_pos_iff.mp hcount)
  constructor <;> intro v <;> simp only [State.watch, Function.update_apply]
  · by_cases hv : v = w
    · simp only [hv, List.mem_append, List.mem_singleton, or_true, if_true, true_iff]
      split <;> trivial
    · simpa [hv] using h.live v
  · split
    · rename_i hv
      intro hp
      split at hp <;> exact hp.elim
    · exact h.fresh v
  · split
    · rename_i hv
      subst hv
      exact fun _ change hx => absurd hx (hnone change)
    · exact h.consumed v
  · split
    · exact fun change hx => absurd hx List.not_mem_nil
    · exact h.queued v
  · intro himmediate
    split
    · rename_i hv
      subst hv
      simp [himmediate]
    · exact h.current v himmediate

omit [DecidableEq τ] [DecidableEq ℓ] [BEq α] in
theorem attentive_recheck (h : Attentive cfg s) {w : ω} (hw : s.phase w = .watching) :
    Attentive cfg (s.recheck cfg w) := by
  apply h.setPhase <;> split <;> simp_all [Phase.Registered, Phase.Fresh, Phase.Listening]

omit [DecidableEq τ] [DecidableEq ℓ] [BEq α] in
theorem attentive_get (h : Attentive cfg s) {w : ω} (hw : s.phase w = .waiting) :
    Attentive cfg (s.get cfg w) := by
  rw [State.get]
  cases hqueue : s.queue w with
  | nil => exact h
  | cons change rest =>
    constructor <;> intro v <;> simp only [State.setPhase, Function.update_apply]
    · by_cases hv : v = w
      · rw [hv, if_pos rfl, h.live w, hw]
        split <;> simp [Phase.Registered]
      · simpa [hv] using h.live v
    · split
      · intro hp
        split at hp <;> exact hp.elim
      · exact h.fresh v
    · by_cases hv : v = w
      · -- what was taken off the queue is either rejected or ends the wait
        subst hv
        simp only [if_true]
        intro hp change' hx
        have hold := h.consumed v (by rw [hw]; trivial) change' hx
        rw [hqueue, List.mem_cons] at hold
        rcases hold with (rfl | hmem) | hrejects
        · cases haccepts : (cfg.wait v).accepts change'.new with
          | true =>
            rw [haccepts] at hp
            exact hp.elim
          | false => exact .inr rfl
        · exact .inl hmem
        · exact .inr hrejects
      · simpa [hv] using h.consumed v
    · split
      · rename_i hv
        subst hv
        exact fun change' hx => h.queued v change' (by rw [hqueue]; exact List.mem_cons_of_mem _ hx)
      · exact h.queued v
    · intro himmediate
      split
      · rename_i hv
        subst hv
        exact fun _ => h.current v himmediate hw
      · exact h.current v himmediate

omit [DecidableEq τ] [DecidableEq ℓ] [BEq α] in
theorem attentive_cancel (h : Attentive cfg s) {w : ω}
    (hw : (s.phase w).Fresh ∨ s.phase w = .waiting) : Attentive cfg (s.cancel w) := by
  rw [State.cancel]
  cases hphase : s.phase w <;> simp [hphase, Phase.Fresh] at hw <;> apply h.setPhase <;>
    simp [hphase, Phase.Registered, Phase.Fresh, Phase.Listening]

omit [DecidableEq τ] [DecidableEq ℓ] [BEq α] in
theorem attentive_removeQueue (h : Attentive cfg s) {w : ω} {result : Option α}
    (hw : s.phase w = .leaving result) : Attentive cfg (s.removeQueue w) := by
  constructor <;> intro v <;> simp only [State.removeQueue, Function.update_apply, hw]
  · by_cases hv : v = w
    · simp [hv, Phase.Registered]
    · simpa [hv] using h.live v
  · split
    · exact fun hp => hp.elim
    · exact h.fresh v
  · split
    · exact fun hp => hp.elim
    · exact h.consumed v
  · exact h.queued v
  · intro himmediate
    split
    · simp
    · exact h.current v himmediate

/-! ## Runs -/

theorem watching_step (h : Accounted cfg s) (ha : Attentive cfg s) {e : Event τ ω ℓ α}
    (he : enabled cfg s e) : Accounted cfg (effect cfg s e) ∧ Attentive cfg (effect cfg s e) := by
  have hsame : ∀ {s' : State τ ω ℓ α}, s'.watchQueues = s.watchQueues →
      s'.notifying = s.notifying → s'.ready = s.ready → s'.history = s.history →
      s'.delivered = s.delivered → Accounted cfg s' := fun hq => h.waiter (hq ▸ h.queues)
  cases e with
  | set thread newValue =>
    exact ⟨accounted_set h he newValue, attentive_set ha thread newValue⟩
  | setIf thread newValue condition =>
    show Accounted cfg (s.setIf thread newValue condition) ∧
      Attentive cfg (s.setIf thread newValue condition)
    rw [State.setIf]
    split
    · exact ⟨accounted_set h he newValue, attentive_set ha thread newValue⟩
    · exact ⟨h, ha⟩
  | schedule thread => exact ⟨accounted_schedule h thread, attentive_schedule ha thread⟩
  | deliver loop => exact ⟨accounted_deliver h loop, attentive_deliver ha loop⟩
  | check w => exact ⟨hsame rfl rfl rfl rfl rfl, attentive_check ha he.1⟩
  | watch w =>
    have hfresh : (s.phase w).Fresh := by
      rcases he with hw | ⟨hw, -⟩ <;> rw [hw] <;> trivial
    refine ⟨h.waiter ?_ rfl rfl rfl rfl, attentive_watch ha h hfresh⟩
    show (s.watchQueues ++ [w]).Nodup
    rw [← List.concat_eq_append]
    exact h.queues.concat fun hmem => hfresh.not_registered ((ha.live w).mp hmem)
  | recheck w => exact ⟨hsame rfl rfl rfl rfl rfl, attentive_recheck ha he⟩
  | get w =>
    refine ⟨?_, attentive_get ha he.1⟩
    show Accounted cfg (s.get cfg w)
    rw [State.get]
    split
    · exact h
    · exact hsame rfl rfl rfl rfl rfl
  | cancel w => exact ⟨hsame rfl rfl rfl rfl rfl, attentive_cancel ha he⟩
  | removeQueue w =>
    obtain ⟨result, hw⟩ := he
    exact ⟨h.waiter (h.queues.filter _) rfl rfl rfl rfl, attentive_removeQueue ha hw⟩

theorem watching_reachable (h : (machine cfg).Reachable Machine.Any s) :
    Accounted cfg s ∧ Attentive cfg s :=
  h.invariant (P := fun s => Accounted cfg s ∧ Attentive cfg s)
    ⟨accounted_new _, attentive_new _⟩ fun _ _ _ hs he _ => watching_step hs.1 hs.2 he

end Steps

end Accounts

/-! ## No wakeup is lost -/

section Wakeups
variable [DecidableEq ω]

/-- Every setter has returned, and every callback has run. -/
def Quiet (s : State τ ω ℓ α) : Prop :=
  (∀ thread, s.notifying thread = []) ∧ ∀ loop, s.ready loop = []

/-- It awaits `queue.get()`, and there is nothing to get. -/
def Suspended (s : State τ ω ℓ α) (w : ω) : Prop := s.phase w = .waiting ∧ s.queue w = []

structure NoneLost [BEq α] (cfg : Config ω ℓ α) (s : State τ ω ℓ α) : Prop where
  once : ∀ k r w, s.history[k]? = some r → w ∈ r.registered →
    copies w k s.delivered + copies w k (s.ready (cfg.loop w)) +
      copies w k (s.notifying r.thread) = 1
  arrived : Quiet s → ∀ k r w, s.history[k]? = some r → w ∈ r.registered →
    copies w k s.delivered = 1
  content : ∀ w change, (w, change) ∈ s.delivered → ∃ r, s.history[change.number]? = some r ∧
    w ∈ r.registered ∧ r.old = change.old ∧ r.new = change.new
  condition : Quiet s → ∀ w, Suspended s w → (cfg.wait w).immediate = true →
    (cfg.wait w).accepts s.value = false
  waitFor : Quiet s → ∀ w v, Suspended s w → cfg.wait w = .waitFor v → (s.value == v) = false
  waitForNot : Quiet s → ∀ w v, Suspended s w → cfg.wait w = .waitForNot v →
    (s.value == v) = true
  change : Quiet s → ∀ w, Suspended s w → cfg.wait w = .change → ∀ r ∈ s.history, w ∉ r.registered

variable {cfg : Config ω ℓ α} {s : State τ ω ℓ α}

theorem Accounted.once (h : Accounted cfg s) {k : ℕ} {r : Record τ ω α} {w : ω}
    (hr : s.history[k]? = some r) (hw : w ∈ r.registered) :
    copies w k s.delivered + copies w k (s.ready (cfg.loop w)) +
      copies w k (s.notifying r.thread) = 1 := by
  rw [h.balance w k r hr]
  exact List.count_eq_one_of_mem (h.registered r (List.mem_of_getElem? hr)) hw

theorem Accounted.arrived (h : Accounted cfg s) (hquiet : Quiet s) {k : ℕ} {r : Record τ ω α}
    {w : ω} (hr : s.history[k]? = some r) (hw : w ∈ r.registered) : copies w k s.delivered = 1 := by
  have honce := h.once hr hw
  rwa [hquiet.1, hquiet.2, copies_nil] at honce

theorem Attentive.rejects (ha : Attentive cfg s) (h : Accounted cfg s) (hquiet : Quiet s) {w : ω}
    (hw : Suspended s w) {r : Record τ ω α} (hr : r ∈ s.history) (hmem : w ∈ r.registered) :
    (cfg.wait w).accepts r.new = false := by
  obtain ⟨k, hk⟩ := List.mem_iff_getElem?.mp hr
  have harrived := h.arrived hquiet hk hmem
  obtain ⟨change, hx, rfl⟩ := exists_of_copies (by rw [harrived]; exact Nat.one_pos)
  obtain ⟨r', hr', -, hnew⟩ := h.delivered _ hx
  obtain rfl := Option.some.inj (hr'.symm.trans hk)
  rw [hnew]
  refine (ha.consumed w (by rw [hw.1]; trivial) change hx).resolve_left fun hqueue => ?_
  rw [hw.2] at hqueue
  exact List.not_mem_nil hqueue

theorem Attentive.condition (ha : Attentive cfg s) (h : Accounted cfg s) (hquiet : Quiet s) {w : ω}
    (hw : Suspended s w) (himmediate : (cfg.wait w).immediate = true) :
    (cfg.wait w).accepts s.value = false := by
  rcases ha.current w himmediate hw.1 with hrejects | ⟨r, hr, hmem, hvalue⟩
  · exact hrejects
  · rw [← hvalue]
    exact ha.rejects h hquiet hw hr hmem

/-- In every interleaving of any number of setters, loops and waiters. -/
theorem no_wakeup_lost [DecidableEq τ] [DecidableEq ℓ] [BEq α]
    (hs : (machine cfg).Reachable Machine.Any s) : NoneLost cfg s := by
  obtain ⟨h, ha⟩ := watching_reachable hs
  refine ⟨fun k r w hr => h.once hr, fun hquiet k r w hr => h.arrived hquiet hr, ?_,
    fun hquiet w hw => ha.condition h hquiet hw, ?_, ?_, ?_⟩
  · intro w change hx
    obtain ⟨r, hr, hold, hnew⟩ := h.delivered _ hx
    have hbalance := h.balance w change.number r hr
    have hcopies : 0 < copies w change.number s.delivered := copies_pos hx
    exact ⟨r, hr, List.count_pos_iff.mp (by omega), hold, hnew⟩
  · intro hquiet w v hw hwait
    have hrejects := ha.condition h hquiet hw (by rw [hwait]; rfl)
    rwa [hwait] at hrejects
  · intro hquiet w v hw hwait
    have hrejects := ha.condition h hquiet hw (by rw [hwait]; rfl)
    rw [hwait] at hrejects
    simpa [Wait.waitForNot, Wait.accepts, bne] using hrejects
  · intro hquiet w hw hwait r hr hmem
    have hrejects := ha.rejects h hquiet hw hr hmem
    rw [hwait] at hrejects
    exact Bool.noConfusion hrejects

end Wakeups

/-! Two setters, whose changes arrive in the opposite order at a waiter for 5. -/

def crossing : Config Unit Unit ℕ := ⟨0, fun _ => .waitFor 5, fun _ => ()⟩

def crossed : List (Event Bool Unit Unit ℕ) :=
  [.check (), .watch (), .recheck (), .set true 1, .set false 2, .schedule false, .schedule true,
    .deliver (), .deliver (), .get (), .get ()]

def crossedState : State Bool Unit Unit ℕ := crossed.foldl (effect crossing) (.new 0)

theorem crossed_reachable : (machine crossing).Reachable Machine.Any crossedState := by
  have hstep : ∀ {s : State Bool Unit Unit ℕ} (e : Event Bool Unit Unit ℕ),
      (machine crossing).Reachable Machine.Any s → enabled crossing s e →
      (machine crossing).Reachable Machine.Any (effect crossing s e) :=
    fun e hs he => hs.step e he trivial
  have hcheck := hstep (.check ()) .init ⟨rfl, rfl⟩
  have hwatch := hstep (.watch ()) hcheck (.inl rfl)
  have hrecheck := hstep (.recheck ()) hwatch rfl
  have hfirst := hstep (.set true 1) hrecheck rfl
  have hsecond := hstep (.set false 2) hfirst rfl
  have hcrossing := hstep (.schedule false) hsecond (List.cons_ne_nil _ _)
  have hcrossed := hstep (.schedule true) hcrossing (List.cons_ne_nil _ _)
  have hdeliver := hstep (.deliver ()) hcrossed (List.cons_ne_nil _ _)
  have hdelivered := hstep (.deliver ()) hdeliver (List.cons_ne_nil _ _)
  have hget := hstep (.get ()) hdelivered ⟨rfl, List.cons_ne_nil _ _⟩
  exact hstep (.get ()) hget ⟨rfl, List.cons_ne_nil _ _⟩

theorem no_wakeup_lost_crossed :
    Quiet crossedState ∧ Suspended crossedState () ∧ crossedState.value = 2 ∧
      NoneLost crossing crossedState :=
  ⟨⟨fun thread => by cases thread <;> rfl, fun _ => rfl⟩, ⟨rfl, rfl⟩, rfl,
    no_wakeup_lost crossed_reachable⟩

/-! ## The watcher of one loop

`ValueWatcher` sends a change to all queues at once. It is what is seen here of
the value and of the transitions that the registered queues are owed. -/

section View
variable [DecidableEq ω]

def view (s : State τ ω ℓ α) : ValueWatcher ω α where
  value := s.value
  queues w :=
    if w ∈ s.watchQueues then some ((s.history.filter fun r => w ∈ r.registered).map Record.new)
    else none

theorem view_queues (s : State τ ω ℓ α) (w : ω) : (view s).queues w =
    if w ∈ s.watchQueues then some ((s.history.filter fun r => w ∈ r.registered).map Record.new)
    else none := rfl

variable [DecidableEq τ] [DecidableEq ℓ] [DecidableEq α] {cfg : Config ω ℓ α}
  {s : State τ ω ℓ α}

omit [DecidableEq ℓ] in
theorem view_set (thread : τ) (newValue : α) :
    view (s.set thread newValue) = (view s).set newValue := by
  by_cases hvalue : newValue = s.value
  · have hview : newValue = (view s).value := hvalue
    rw [State.set, if_pos (beq_iff_eq.mpr hvalue), ValueWatcher.set, if_pos hview]
  · have hview : ¬ newValue = (view s).value := hvalue
    rw [ValueWatcher.set, if_neg hview]
    have hset : (s.set thread newValue).value = newValue := by simp [State.set, hvalue]
    have hqueues : ∀ w, (view (s.set thread newValue)).queues w =
        ((view s).queues w).map fun q => q ++ [newValue] := by
      intro w
      by_cases hw : w ∈ s.watchQueues <;> simp [view_queues, State.set, hvalue, hw]
    exact congr (congrArg ValueWatcher.mk hset) (funext hqueues)

theorem view_step (ha : Attentive cfg s) {e : Event τ ω ℓ α} (he : enabled cfg s e) :
    view (effect cfg s e) = match e with
      | .set _ newValue => (view s).set newValue
      | .setIf _ newValue condition => ((view s).setIf newValue condition).2
      | .watch w => (view s).watch w
      | .removeQueue w => (view s).removeQueue w
      | _ => view s := by
  cases e with
  | set thread newValue => exact view_set thread newValue
  | setIf thread newValue condition =>
    show view (if condition s.value then s.set thread newValue else s) =
      (if condition s.value then (true, (view s).set newValue) else (false, view s)).2
    by_cases hcondition : condition s.value = true
    · rw [if_pos hcondition, if_pos hcondition]
      exact view_set thread newValue
    · rw [if_neg hcondition, if_neg hcondition]
  | schedule thread =>
    show view (s.schedule cfg thread) = view s
    rw [State.schedule]
    split <;> rfl
  | deliver loop =>
    show view (s.deliver loop) = view s
    rw [State.deliver]
    split <;> rfl
  | get w =>
    show view (s.get cfg w) = view s
    rw [State.get]
    split <;> rfl
  | watch w =>
    have hfresh : (s.phase w).Fresh := by
      rcases he with hw | ⟨hw, -⟩ <;> rw [hw] <;> trivial
    have howed : s.history.filter (fun r => w ∈ r.registered) = [] := by
      apply List.filter_eq_nil_iff.mpr
      intro r hr
      simpa using ha.fresh w hfresh r hr
    apply congrArg (ValueWatcher.mk s.value)
    funext v
    by_cases hv : v = w
    · simp [hv, State.watch, effect, howed]
    · simp [hv, State.watch, effect, view, Function.update_of_ne]
  | removeQueue w =>
    apply congrArg (ValueWatcher.mk s.value)
    funext v
    by_cases hv : v = w
    · simp [hv, State.removeQueue, effect]
    · simp [hv, State.removeQueue, effect, view, Function.update_of_ne]
  | check w => rfl
  | recheck w => rfl
  | cancel w => rfl

omit [DecidableEq τ] [DecidableEq ℓ] [DecidableEq α] in
theorem view_queued (h : Accounted cfg s) (ha : Attentive cfg s) {w : ω}
    (hw : s.phase w = .waiting) {change : Change α} (hchange : change ∈ s.queue w) :
    change.new ∈ (view s).queued w := by
  have hlive : w ∈ s.watchQueues := (ha.live w).mpr (by rw [hw]; trivial)
  obtain ⟨r, hr, -, hnew⟩ := h.delivered _ (ha.queued w change hchange)
  have hbalance := h.balance w change.number r hr
  have hcopies : 0 < copies w change.number s.delivered := copies_pos (ha.queued w change hchange)
  have hmem : w ∈ r.registered := List.count_pos_iff.mp (by omega)
  have hfilter : r ∈ s.history.filter fun r => w ∈ r.registered :=
    List.mem_filter.mpr ⟨List.mem_of_getElem? hr, by simpa using hmem⟩
  rw [ValueWatcher.queued, view_queues, if_pos hlive, Option.getD_some]
  exact List.mem_map.mpr ⟨r, hfilter, hnew⟩

end View

end Inngest.Watching
