import Mathlib.Data.List.Nodup
import Mathlib.Data.List.Perm.Basic

/-!
# Dictionaries that remember their order

A list of entries whose keys are distinct, oldest first. Assigning to a key
that is there keeps its place, as in Python.
-/

set_option autoImplicit false

namespace Inngest

structure OrderedDict (κ α : Type) where
  items : List (κ × α)
  nodup : (items.map Prod.fst).Nodup

namespace OrderedDict
variable {κ α : Type} [DecidableEq κ] (d : OrderedDict κ α) (k k' : κ) (v : α)

def empty : OrderedDict κ α := ⟨[], by simp⟩

def lookup : Option α := (d.items.find? fun e => e.1 = k).map Prod.snd

def size : ℕ := d.items.length

def values : List α := d.items.map Prod.snd

theorem keys_replace (l : List (κ × α)) :
    (l.map fun e => if e.1 = k then (k, v) else e).map Prod.fst = l.map Prod.fst := by
  rw [List.map_map]
  apply List.map_congr_left
  intro e _
  by_cases h : e.1 = k <;> simp [h]

def put : OrderedDict κ α :=
  if h : k ∈ d.items.map Prod.fst then
    ⟨d.items.map fun e => if e.1 = k then (k, v) else e, by
      rw [keys_replace]
      exact d.nodup⟩
  else
    ⟨d.items ++ [(k, v)], by
      rw [List.map_append, List.nodup_append']
      simpa using ⟨d.nodup, by simpa using h⟩⟩

def erase : OrderedDict κ α :=
  ⟨d.items.filter fun e => e.1 ≠ k, d.nodup.sublist (List.filter_sublist.map _)⟩

def tail : OrderedDict κ α := ⟨d.items.tail, d.nodup.sublist ((List.tail_sublist _).map _)⟩

variable {d k k' v}

theorem lookup_eq_some : d.lookup k = some v ↔ (k, v) ∈ d.items := by
  constructor
  · intro h
    obtain ⟨e, he, rfl⟩ := Option.map_eq_some_iff.mp h
    have hk := List.find?_some he
    have hm := List.mem_of_find?_eq_some he
    simp only [decide_eq_true_eq] at hk
    subst hk
    exact hm
  · intro h
    cases hf : d.items.find? fun e => e.1 = k with
    | none =>
      have := List.find?_eq_none.mp hf _ h
      simp at this
    | some e =>
      have hk := List.find?_some hf
      have hm := List.mem_of_find?_eq_some hf
      simp only [decide_eq_true_eq] at hk
      have he : e = (k, v) := List.inj_on_of_nodup_map d.nodup hm h (by simpa using hk)
      rw [lookup, hf, he]
      rfl

theorem lookup_eq_none : d.lookup k = none ↔ k ∉ d.items.map Prod.fst := by
  rw [lookup, Option.map_eq_none_iff, List.find?_eq_none]
  constructor
  · intro h hm
    obtain ⟨e, he, rfl⟩ := List.mem_map.mp hm
    simpa using h e he
  · intro h e he hk
    exact h (List.mem_map.mpr ⟨e, he, by simpa using hk⟩)

theorem items_put_new (h : d.lookup k = none) : (d.put k v).items = d.items ++ [(k, v)] := by
  rw [put, dif_neg (lookup_eq_none.mp h)]

theorem mem_put {e : κ × α} (h : d.lookup k = none) :
    e ∈ (d.put k v).items ↔ e ∈ d.items ∨ e = (k, v) := by
  rw [items_put_new h]
  simp

theorem mem_put_replaced {e : κ × α} (h : d.lookup k ≠ none) :
    e ∈ (d.put k v).items ↔ e ∈ d.items ∧ e.1 ≠ k ∨ e = (k, v) := by
  have hk : k ∈ d.items.map Prod.fst := by
    by_contra hk
    exact h (lookup_eq_none.mpr hk)
  rw [put, dif_pos hk]
  simp only [List.mem_map]
  constructor
  · rintro ⟨e', he', rfl⟩
    by_cases hk' : e'.1 = k
    · exact .inr (by simp [hk'])
    · exact .inl (by simp [hk', he'])
  · rintro (⟨he, hne⟩ | rfl)
    · exact ⟨e, he, by simp [hne]⟩
    · obtain ⟨e', he', hk'⟩ := List.mem_map.mp hk
      exact ⟨e', he', by simp [hk']⟩

@[simp] theorem mem_erase {e : κ × α} : e ∈ (d.erase k).items ↔ e ∈ d.items ∧ e.1 ≠ k := by
  simp [erase]

@[simp] theorem lookup_empty : (empty : OrderedDict κ α).lookup k = none := rfl

@[simp] theorem lookup_put : (d.put k v).lookup k' = if k' = k then some v else d.lookup k' := by
  by_cases h : d.lookup k = none
  · apply Option.ext
    intro u
    rw [lookup_eq_some, mem_put h]
    by_cases hk : k' = k
    · subst hk
      have hnone : (k', u) ∉ d.items := fun hm => by simp [lookup_eq_some.mpr hm] at h
      simp [hnone, eq_comm]
    · simp [hk, lookup_eq_some]
  · apply Option.ext
    intro u
    rw [lookup_eq_some, mem_put_replaced h]
    by_cases hk : k' = k
    · simp [hk, eq_comm]
    · simp [hk, lookup_eq_some]

@[simp] theorem lookup_erase : (d.erase k).lookup k' = if k' = k then none else d.lookup k' := by
  apply Option.ext
  intro u
  rw [lookup_eq_some, mem_erase]
  by_cases hk : k' = k
  · simp [hk]
  · simp [hk, lookup_eq_some]

omit [DecidableEq κ] in
@[simp] theorem size_empty : (empty : OrderedDict κ α).size = 0 := rfl

theorem size_put_new (h : d.lookup k = none) : (d.put k v).size = d.size + 1 := by
  rw [size, items_put_new h, List.length_append]
  rfl

theorem filter_key (h : d.lookup k = some v) : (d.items.filter fun e => e.1 = k) = [(k, v)] := by
  have hm := lookup_eq_some.mp h
  apply List.perm_singleton.mp
  rw [List.perm_ext_iff_of_nodup ((List.Nodup.of_map _ d.nodup).filter _) (by simp)]
  intro e
  simp only [List.mem_filter, decide_eq_true_eq, List.mem_singleton]
  constructor
  · rintro ⟨he, hk⟩
    exact List.inj_on_of_nodup_map d.nodup he hm (by simpa using hk)
  · rintro rfl
    exact ⟨hm, rfl⟩

theorem erase_perm (h : d.lookup k = some v) : ((k, v) :: (d.erase k).items).Perm d.items := by
  have hperm := List.filter_append_perm (fun e => decide (e.1 = k)) d.items
  rw [filter_key h] at hperm
  simpa [erase] using hperm

theorem size_erase_some (h : d.lookup k = some v) : (d.erase k).size + 1 = d.size :=
  (erase_perm h).length_eq

omit [DecidableEq κ] in
theorem size_eq_zero : d.size = 0 ↔ d.items = [] := List.length_eq_zero_iff

end OrderedDict

end Inngest
