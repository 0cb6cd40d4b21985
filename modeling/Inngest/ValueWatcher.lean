import Mathlib.Logic.Function.Basic

/-!
# `ValueWatcher`

A value whose changes go to the queues of the watchers registered at that
moment. Delivery is the resumption of the watcher, which takes the first
change that it waits for at any later time; so a watcher may act on a value
that is no longer there.
-/

set_option autoImplicit false

namespace Inngest

/-- `queues` holds, for every registered watcher, the changes it has not taken. -/
structure ValueWatcher (ω α : Type) where
  value : α
  queues : ω → Option (List α)

namespace ValueWatcher
variable {ω α : Type}

def new (value : α) : ValueWatcher ω α := ⟨value, fun _ => none⟩

def set [DecidableEq α] (w : ValueWatcher ω α) (newValue : α) : ValueWatcher ω α :=
  if newValue = w.value then w
  else ⟨newValue, fun t => (w.queues t).map fun q => q ++ [newValue]⟩

def setIf [DecidableEq α] (w : ValueWatcher ω α) (newValue : α) (condition : α → Bool) :
    Bool × ValueWatcher ω α :=
  if condition w.value then (true, w.set newValue) else (false, w)

def watch [DecidableEq ω] (w : ValueWatcher ω α) (t : ω) : ValueWatcher ω α :=
  { w with queues := Function.update w.queues t (some []) }

def removeQueue [DecidableEq ω] (w : ValueWatcher ω α) (t : ω) : ValueWatcher ω α :=
  { w with queues := Function.update w.queues t none }

/-- What a watcher that waits for `condition` will be woken with. -/
def woken (w : ValueWatcher ω α) (t : ω) (condition : α → Bool) : Option α :=
  ((w.queues t).getD []).find? condition

section Lemmas
variable [DecidableEq α] [DecidableEq ω] {w : ValueWatcher ω α} {t u : ω} {v x : α}
  {condition : α → Bool}

omit [DecidableEq ω] in
@[simp] theorem set_value : (w.set v).value = v := by
  rw [set]
  split
  · exact Eq.symm ‹_›
  · rfl

omit [DecidableEq α] in
@[simp] theorem watch_value : (w.watch t).value = w.value := rfl

omit [DecidableEq α] in
@[simp] theorem removeQueue_value : (w.removeQueue t).value = w.value := rfl

omit [DecidableEq α] in
@[simp] theorem watch_queues :
    (w.watch t).queues u = if u = t then some [] else w.queues u := by
  simp [watch, Function.update_apply]

omit [DecidableEq α] in
@[simp] theorem removeQueue_queues :
    (w.removeQueue t).queues u = if u = t then none else w.queues u := by
  simp [removeQueue, Function.update_apply]

def queued (w : ValueWatcher ω α) (t : ω) : List α := (w.queues t).getD []

omit [DecidableEq α] [DecidableEq ω] in
theorem woken_mem (h : w.woken t condition = some x) : x ∈ w.queued t ∧ condition x = true :=
  ⟨List.mem_of_find?_eq_some h, List.find?_some h⟩

omit [DecidableEq α] in
@[simp] theorem queued_watch : (w.watch t).queued u = if u = t then [] else w.queued u := by
  rw [queued, watch_queues]
  split <;> rfl

omit [DecidableEq α] in
@[simp] theorem queued_removeQueue :
    (w.removeQueue t).queued u = if u = t then [] else w.queued u := by
  rw [queued, removeQueue_queues]
  split <;> rfl

omit [DecidableEq ω] in
theorem mem_queued_set (h : x ∈ (w.set v).queued t) : x ∈ w.queued t ∨ x = v ∧ v ≠ w.value := by
  rw [set] at h
  split at h
  · exact .inl h
  · rename_i hne
    rw [queued] at h ⊢
    cases hq : w.queues t with
    | none => simp [hq] at h
    | some q =>
      simp only [hq, Option.map_some, Option.getD_some, List.mem_append, List.mem_singleton] at h
      exact h.imp id fun h => ⟨h, hne⟩

omit [DecidableEq ω] in
@[simp] theorem set_queues_isSome : ((w.set v).queues t).isSome = (w.queues t).isSome := by
  rw [set]
  split <;> simp

omit [DecidableEq ω] in
theorem mem_queued_of_change (h : v ≠ w.value) (ht : (w.queues t).isSome) :
    v ∈ (w.set v).queued t := by
  obtain ⟨q, hq⟩ := Option.isSome_iff_exists.mp ht
  rw [set, if_neg h, queued]
  simp [hq]

end Lemmas

end ValueWatcher

end Inngest
