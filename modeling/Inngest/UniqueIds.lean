import Inngest.StepLib

/-!
# Unique step identifiers

An execution hashes the user's ID for its first use, and the ID with a colon and
a number for the uses after it. Two uses of one ID are told apart, and so are
two numbered uses, but a user may write an ID that looks like a numbered one.
-/

set_option autoImplicit false

namespace Inngest.StepLib

/-- `_parse_step_id` on a sequence of step IDs, with one counter. -/
def parseStepIds (hash : String → String) : StepIDCounter → List String → List ParsedStepID
  | _, [] => []
  | counts, id :: ids =>
    let (parsed, counts) := parseStepId hash id counts
    parsed :: parseStepIds hash counts ids

def StepIDCounter.new : StepIDCounter := fun _ => 0

/-- An ID is not another one with a number below its number of uses. -/
def NoSuffixClash (ids : List String) : Prop :=
  ∀ a ∈ ids, ∀ b, ∀ k, 0 < k → k < ids.count b → a ≠ b ++ ":" ++ toString k

/-! ## The texts that are hashed -/

theorem append_colon_inj {xs ys ds es : List Char} (hd : ':' ∉ ds) (he : ':' ∉ es)
    (h : xs ++ ':' :: ds = ys ++ ':' :: es) : xs = ys ∧ ds = es := by
  rcases List.append_eq_append_iff.mp h with ⟨mid, rfl, hmid⟩ | ⟨mid, rfl, hmid⟩
  · cases mid with
    | nil => exact ⟨by simp, by simpa using hmid⟩
    | cons c mid =>
      obtain ⟨-, rfl⟩ := List.cons.inj hmid
      simp at hd
  · cases mid with
    | nil => exact ⟨by simp, by simpa [eq_comm] using hmid⟩
    | cons c mid =>
      obtain ⟨-, rfl⟩ := List.cons.inj hmid
      simp at he

theorem colon_notMem_toString (n : ℕ) : ':' ∉ (toString n).toList := by
  intro hc
  rw [show (toString n).toList = Nat.toDigits 10 n from Nat.toList_repr] at hc
  exact absurd (Nat.isDigit_of_mem_toDigits (by decide) (by decide) hc) (by decide)

theorem append_number_inj {a b : String} {m n : ℕ}
    (h : a ++ ":" ++ toString m = b ++ ":" ++ toString n) : a = b ∧ m = n := by
  have hlist := congrArg String.toList h
  simp only [String.toList_append, List.append_assoc] at hlist
  obtain ⟨hab, hmn⟩ := append_colon_inj (colon_notMem_toString m) (colon_notMem_toString n) hlist
  exact ⟨String.toList_inj.mp hab, toString_injective (String.toList_inj.mp hmn)⟩

theorem preHashed_eq {a b : String} {c d : ℕ} (hc : 0 < c) (hd : 0 < d)
    (h : preHashed a c = preHashed b d) :
    a = b ∧ c = d ∨ (c = 1 ∧ 1 < d ∧ a = b ++ ":" ++ toString (d - 1)) ∨
      (d = 1 ∧ 1 < c ∧ b = a ++ ":" ++ toString (c - 1)) := by
  by_cases hab : a = b
  · subst hab
    exact .inl ⟨rfl, preHashed_injective hc hd h⟩
  · rw [preHashed, preHashed] at h
    split at h <;> split at h
    · exact absurd (append_number_inj h).1 hab
    · exact .inr (.inr ⟨by omega, by assumption, h.symm⟩)
    · exact .inr (.inl ⟨by omega, by assumption, h⟩)
    · exact absurd h hab

/-! ## The uses of a sequence -/

def uses : StepIDCounter → List String → List (String × ℕ)
  | _, [] => []
  | counts, id :: ids => (id, counts id + 1) :: uses (counts.increment id).2 ids

theorem hashed_parseStepIds (hash : String → String) (counts : StepIDCounter) (ids : List String) :
    (parseStepIds hash counts ids).map ParsedStepID.hashed =
      (uses counts ids).map fun u => hash (preHashed u.1 u.2) := by
  induction ids generalizing counts with
  | nil => rfl
  | cons id ids ih => exact congrArg (_ :: ·) (ih _)

theorem mem_uses {counts : StepIDCounter} {ids : List String} {id : String} {c : ℕ} :
    (id, c) ∈ uses counts ids ↔ counts id < c ∧ c ≤ counts id + ids.count id := by
  induction ids generalizing counts with
  | nil => simp [uses]
  | cons id' ids ih =>
    rw [uses, List.mem_cons, ih, List.count_cons]
    by_cases h : id' = id
    · subst h
      simp [StepIDCounter.increment]
      omega
    · have hne : id ≠ id' := fun he => h he.symm
      simp [StepIDCounter.increment, h, hne]

theorem uses_nodup (counts : StepIDCounter) (ids : List String) : (uses counts ids).Nodup := by
  induction ids generalizing counts with
  | nil => exact List.nodup_nil
  | cons id ids ih =>
    refine List.nodup_cons.mpr ⟨fun h => ?_, ih _⟩
    have hlt := (mem_uses.mp h).1
    simp [StepIDCounter.increment] at hlt

/-- The hashed IDs of an execution are distinct exactly when no ID is written
like a numbered use of another one. -/
theorem hashed_nodup_iff {hash : String → String} (hhash : Function.Injective hash)
    (ids : List String) :
    ((parseStepIds hash .new ids).map ParsedStepID.hashed).Nodup ↔ NoSuffixClash ids := by
  have hmem : ∀ {id c}, (id, c) ∈ uses .new ids ↔ 0 < c ∧ c ≤ ids.count id := by
    intro id c
    simp [mem_uses, StepIDCounter.new]
  rw [hashed_parseStepIds, List.nodup_map_iff_inj_on (uses_nodup _ _)]
  constructor
  · rintro hinj a ha b k hk hlt rfl
    have hfirst : (b ++ ":" ++ toString k, 1) ∈ uses .new ids :=
      hmem.mpr ⟨by omega, List.count_pos_iff.mpr ha⟩
    have hsame := hinj _ hfirst (b, k + 1) (hmem.mpr ⟨by omega, by omega⟩)
      (congrArg hash (by simp [preHashed, hk]))
    have hnumber : 1 = k + 1 := congrArg Prod.snd hsame
    omega
  · rintro hclash ⟨a, c⟩ ha ⟨b, d⟩ hb h
    obtain ⟨hc, hca⟩ := hmem.mp ha
    obtain ⟨hd, hdb⟩ := hmem.mp hb
    have hmema : a ∈ ids := List.count_pos_iff.mp (by omega)
    have hmemb : b ∈ ids := List.count_pos_iff.mp (by omega)
    rcases preHashed_eq hc hd (hhash h) with ⟨rfl, rfl⟩ | ⟨-, hlt, he⟩ | ⟨-, hlt, he⟩
    · rfl
    · exact absurd he (hclash a hmema b (d - 1) (by omega) (by omega))
    · exact absurd he (hclash b hmemb a (c - 1) (by omega) (by omega))

/-! A reused ID beside an unrelated one, and beside one that looks like its
second use. -/

theorem hashed_nodup_reused :
    ((parseStepIds id .new ["a", "a", "b:1"]).map ParsedStepID.hashed).Nodup := by
  refine (hashed_nodup_iff Function.injective_id _).mpr ?_
  rintro a ha b k hk hlt rfl
  have hb : b = "a" ∨ b = "b:1" := by
    have hmem : b ∈ ["a", "a", "b:1"] := List.count_pos_iff.mp (by omega)
    simpa using hmem
  rcases hb with rfl | rfl
  · have hcount : ["a", "a", "b:1"].count "a" = 2 := by decide
    obtain rfl : k = 1 := by omega
    exact absurd ha (by decide)
  · have hcount : ["a", "a", "b:1"].count "b:1" = 1 := by decide
    omega

theorem hashed_not_nodup : Function.Injective (id : String → String) ∧
    (parseStepIds id .new ["a", "a", "a:1"]).map ParsedStepID.hashed = ["a", "a:1", "a:1"] ∧
    ¬ ((parseStepIds id .new ["a", "a", "a:1"]).map ParsedStepID.hashed).Nodup := by
  have hhashed : (parseStepIds id .new ["a", "a", "a:1"]).map ParsedStepID.hashed =
      ["a", "a:1", "a:1"] := by decide
  exact ⟨Function.injective_id, hhashed, by rw [hhashed]; decide⟩

end Inngest.StepLib
