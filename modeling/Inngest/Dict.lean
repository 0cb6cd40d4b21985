import Mathlib.Data.List.AList

/-!
# Dictionaries with string keys

An association list carries the proof that its keys are distinct. Values
can be mapped without touching the keys, and one dictionary lies below
another when the other agrees with it wherever it is defined.
-/

set_option autoImplicit false

namespace Inngest

abbrev Dict (α : Type) := AList (fun _ : String => α)

namespace Dict
variable {α β : Type}

def size (d : Dict α) : ℕ := d.entries.length

def values (d : Dict α) : List α := d.entries.map Sigma.snd

def mapValues (f : α → β) (d : Dict α) : Dict β where
  entries := d.entries.map (fun e => ⟨e.1, f e.2⟩)
  nodupKeys := by
    have h : (d.entries.map (fun e => (⟨e.1, f e.2⟩ : (_ : String) × β))).keys =
        d.entries.keys := by
      simp [List.keys, Function.comp_def]
    simpa [List.NodupKeys, h] using d.nodupKeys

@[simp] theorem lookup_mapValues (f : α → β) (d : Dict α) (k : String) :
    (d.mapValues f).lookup k = (d.lookup k).map f := by
  exact List.dlookup_map₂ (γ := fun _ => α) (δ := fun _ => β) (l := d.entries) (f := fun _ => f) k

def restrict (d : Dict α) (p : String → Bool) : Dict α where
  entries := d.entries.filter fun e => p e.1
  nodupKeys := d.nodupKeys.sublist List.filter_sublist

theorem lookup_restrict (d : Dict α) (p : String → Bool) (k : String) :
    (d.restrict p).lookup k = if p k then d.lookup k else none := by
  have hmem : ∀ v, v ∈ (d.restrict p).lookup k ↔ v ∈ d.lookup k ∧ p k = true := by
    intro v
    rw [AList.mem_lookup_iff, AList.mem_lookup_iff]
    exact List.mem_filter
  refine Option.ext fun v => (hmem v).trans ?_
  cases p k <;> simp

theorem size_erase_le (d : Dict α) (k : String) : size (d.erase k) ≤ d.size := by
  have h := congrArg List.length (AList.keys_erase k d)
  simp only [AList.keys, List.keys, List.length_map] at h
  simp only [size, h]
  exact le_trans List.length_erase_le (by simp)

/-- `a` lies below `b` when `b` holds every entry of `a`. -/
def Below (a b : Dict α) : Prop := ∀ k v, a.lookup k = some v → b.lookup k = some v

theorem Below.refl (a : Dict α) : Below a a := fun _ _ h => h

theorem Below.trans {a b c : Dict α} (hab : Below a b) (hbc : Below b c) : Below a c :=
  fun k v h => hbc k v (hab k v h)

theorem below_insert {a : Dict α} {k : String} {v : α} (h : a.lookup k = none) :
    Below a (a.insert k v) := by
  intro k' v' hk
  have hne : k' ≠ k := by
    rintro rfl
    simp [h] at hk
  rwa [AList.lookup_insert_ne hne]

end Dict

end Inngest
