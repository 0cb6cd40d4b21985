import Mathlib.Data.Rat.Defs

/-!
# JSON values

What `json.loads` produces and what a user's function may return. The last
constructor stands for a Python object that `json.dumps` refuses.
-/

set_option autoImplicit false

namespace Inngest

inductive Json where
  | null
  | bool (b : Bool)
  | int (n : ℤ)
  | float (q : ℚ)
  | str (s : String)
  | arr (items : List Json)
  | obj (fields : List (String × Json))
  | other (repr : String)
  deriving Repr

namespace Json

mutual
def decEq : (a b : Json) → Decidable (a = b)
  | .null, .null => isTrue rfl
  | .bool a, .bool b => decidable_of_iff (a = b) (by simp)
  | .int a, .int b => decidable_of_iff (a = b) (by simp)
  | .float a, .float b => decidable_of_iff (a = b) (by simp)
  | .str a, .str b => decidable_of_iff (a = b) (by simp)
  | .arr a, .arr b =>
    match decEqItems a b with
    | isTrue h => isTrue (by rw [h])
    | isFalse h => isFalse (by simpa using h)
  | .obj a, .obj b =>
    match decEqFields a b with
    | isTrue h => isTrue (by rw [h])
    | isFalse h => isFalse (by simpa using h)
  | .other a, .other b => decidable_of_iff (a = b) (by simp)
  | .null, .bool _ | .null, .int _ | .null, .float _ | .null, .str _ | .null, .arr _
  | .null, .obj _ | .null, .other _ => isFalse nofun
  | .bool _, .null | .bool _, .int _ | .bool _, .float _ | .bool _, .str _ | .bool _, .arr _
  | .bool _, .obj _ | .bool _, .other _ => isFalse nofun
  | .int _, .null | .int _, .bool _ | .int _, .float _ | .int _, .str _ | .int _, .arr _
  | .int _, .obj _ | .int _, .other _ => isFalse nofun
  | .float _, .null | .float _, .bool _ | .float _, .int _ | .float _, .str _ | .float _, .arr _
  | .float _, .obj _ | .float _, .other _ => isFalse nofun
  | .str _, .null | .str _, .bool _ | .str _, .int _ | .str _, .float _ | .str _, .arr _
  | .str _, .obj _ | .str _, .other _ => isFalse nofun
  | .arr _, .null | .arr _, .bool _ | .arr _, .int _ | .arr _, .float _ | .arr _, .str _
  | .arr _, .obj _ | .arr _, .other _ => isFalse nofun
  | .obj _, .null | .obj _, .bool _ | .obj _, .int _ | .obj _, .float _ | .obj _, .str _
  | .obj _, .arr _ | .obj _, .other _ => isFalse nofun
  | .other _, .null | .other _, .bool _ | .other _, .int _ | .other _, .float _
  | .other _, .str _ | .other _, .arr _ | .other _, .obj _ => isFalse nofun

def decEqItems : (a b : List Json) → Decidable (a = b)
  | [], [] => isTrue rfl
  | x :: xs, y :: ys =>
    match decEq x y, decEqItems xs ys with
    | isTrue h, isTrue h' => isTrue (by rw [h, h'])
    | isFalse h, _ => isFalse (by simp [h])
    | _, isFalse h => isFalse (by simp [h])
  | [], _ :: _ | _ :: _, [] => isFalse nofun

def decEqFields : (a b : List (String × Json)) → Decidable (a = b)
  | [], [] => isTrue rfl
  | (k, x) :: xs, (l, y) :: ys =>
    match instDecidableEqString k l, decEq x y, decEqFields xs ys with
    | isTrue h, isTrue h', isTrue h'' => isTrue (by rw [h, h', h''])
    | isFalse h, _, _ => isFalse (by simp [h])
    | _, isFalse h, _ => isFalse (by simp [h])
    | _, _, isFalse h => isFalse (by simp [h])
  | [], _ :: _ | _ :: _, [] => isFalse nofun
end

instance : DecidableEq Json := decEq

mutual
def serializable : Json → Bool
  | .arr items => serializableItems items
  | .obj fields => serializableFields fields
  | .other _ => false
  | _ => true

def serializableItems : List Json → Bool
  | [] => true
  | x :: xs => x.serializable && serializableItems xs

def serializableFields : List (String × Json) → Bool
  | [] => true
  | (_, x) :: fs => x.serializable && serializableFields fs
end

theorem serializableFields_append (fs gs : List (String × Json)) :
    serializableFields (fs ++ gs) = (serializableFields fs && serializableFields gs) := by
  induction fs with
  | nil => rfl
  | cons f fs ih => simp [serializableFields, ih, Bool.and_assoc]

theorem serializableItems_map {α : Type} {f : α → Json} {xs : List α}
    (h : ∀ x ∈ xs, (f x).serializable = true) : serializableItems (xs.map f) = true := by
  induction xs with
  | nil => rfl
  | cons x xs ih =>
    have hx := h x (by simp)
    simpa [serializableItems, hx] using ih fun y hy => h y (by simp [hy])

def field : List (String × Json) → String → Option Json
  | [], _ => none
  | (k, v) :: fs, name => if k = name then some v else field fs name

def withField (fields : List (String × Json)) (name : String) (value : Json) :
    List (String × Json) :=
  if (field fields name).isSome then
    fields.map (fun (k, v) => if k = name then (k, value) else (k, v))
  else fields ++ [(name, value)]

theorem field_append (fs gs : List (String × Json)) (name : String) :
    field (fs ++ gs) name = (field fs name).or (field gs name) := by
  induction fs with
  | nil => rfl
  | cons f fs ih =>
    obtain ⟨k, v⟩ := f
    simp only [List.cons_append, field, ih]
    split <;> rfl

theorem field_map_replace (fs : List (String × Json)) (name other : String) (value : Json) :
    field (fs.map (fun (k, v) => if k = name then (k, value) else (k, v))) other =
      if other = name then (field fs name).map (fun _ => value) else field fs other := by
  induction fs with
  | nil => simp [field]
  | cons f fs ih =>
    obtain ⟨k, v⟩ := f
    by_cases hk : k = name <;> by_cases ho : other = name
    · simp [field, hk, ho]
    · simp [field, hk, ho, ih, show ¬ name = other from fun h => ho h.symm]
    · subst ho
      simpa [field, hk] using ih
    · simp [field, hk, ho, ih]

theorem field_withField (fs : List (String × Json)) (name other : String) (value : Json) :
    field (withField fs name value) other =
      if other = name then some value else field fs other := by
  unfold withField
  split
  · rename_i h
    rw [field_map_replace]
    obtain ⟨v, hv⟩ := Option.isSome_iff_exists.mp h
    simp [hv]
  · rename_i h
    have hn : field fs name = none := by simpa using h
    rw [field_append]
    by_cases ho : other = name
    · simp [ho, hn, field]
    · simp [ho, field, show ¬ name = other from fun h => ho h.symm]

end Json

end Inngest
