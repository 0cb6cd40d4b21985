import Mathlib.Algebra.Order.BigOperators.Group.List
import Mathlib.Data.List.Find
import Inngest.Connect.Buffer
import Inngest.Transition

/-!
# Runs of the buffer

The calls of the buffer one after another, at times that never go back. A size
is kept beside the items, and it stays theirs; what an addition evicts is the
shortest run of the oldest items. The difference of two doubles can round up to
the time of an item, which is then taken for older than it is.
-/

set_option autoImplicit false

namespace Inngest.Connect.SizeConstrainedBuffer
open Transition
variable {δ : Type} (len : δ → ℕ)

/-! ## Calls -/

inductive Request (δ : Type) where
  | add (id : String) (data : δ)
  | delete (id : String)
  | get (id : String)
  | getOlderThan (seconds : ℚ)

inductive Result (δ : Type) where
  | added (accepted : Bool) (evicted rejected : List String)
  | deleted (found : Bool)
  | got (data : Option δ)
  | older (items : List (String × δ))

def after (b : SizeConstrainedBuffer δ) (now : ℚ) : Request δ → SizeConstrainedBuffer δ
  | .add id data => (b.add len id data now).buffer
  | .delete id => b.delete len id
  | .get _ | .getOlderThan _ => b

def result (b : SizeConstrainedBuffer δ) (now : ℚ) : Request δ → Result δ
  | .add id data =>
    let added := b.add len id data now
    .added added.accepted (added.evicted.map BufferItem.id) (if added.accepted then [] else [id])
  | .delete id => .deleted (b.items.lookup id).isSome
  | .get id => .got (b.get id)
  | .getOlderThan seconds =>
    .older ((b.getOlderThan seconds now).map fun item => (item.id, item.data))

/-- The buffer, the time of the last call, and what was last accepted under
each id. -/
structure Stored (δ : Type) where
  buffer : SizeConstrainedBuffer δ
  clock : ℚ
  latest : String → Option (BufferItem δ)

def machine (b : SizeConstrainedBuffer δ) (start : ℚ) : Machine (Stored δ) (ℚ × Request δ) where
  init := ⟨b, start, fun _ => none⟩
  enabled e s := s.clock ≤ e.1 ∧ Binary64.round e.1 = e.1
  effect e s :=
    { buffer := s.buffer.after len e.1 e.2
      clock := e.1
      latest := match e.2 with
        | .add id data =>
          if len data ≤ b.maxSizeBytes then Function.update s.latest id (some ⟨data, id, e.1⟩)
          else s.latest
        | _ => s.latest }

instance (b : SizeConstrainedBuffer δ) (start : ℚ) (e : ℚ × Request δ) (s : Stored δ) :
    Decidable ((machine len b start).enabled e s) :=
  inferInstanceAs (Decidable (s.clock ≤ e.1 ∧ Binary64.round e.1 = e.1))

/-! ## What the buffer is for -/

def total (items : List (BufferItem δ)) : ℕ := (items.map fun item => len item.data).sum

/-- The shortest run of the oldest items makes room for one more. -/
structure Evicts (maxSizeBytes itemSize : ℕ) (items evicted kept : List (BufferItem δ)) : Prop where
  split : items = evicted ++ kept
  fits : total len kept + itemSize ≤ maxSizeBytes
  least : ∀ n < evicted.length, maxSizeBytes < total len (items.drop n) + itemSize

/-- What a call does to the items, oldest first, and what it answers. -/
def Answers (maxSizeBytes : ℕ) (b : SizeConstrainedBuffer δ) (now : ℚ) : Request δ → Prop
  | .add id data =>
    if len data ≤ maxSizeBytes then
      ∃ evicted kept,
        Evicts len maxSizeBytes (len data) (b.items.values.filter (·.id ≠ id)) evicted kept ∧
        (b.after len now (.add id data)).items.values = kept ++ [⟨data, id, now⟩] ∧
        b.result len now (.add id data) = .added true (evicted.map BufferItem.id) []
    else
      b.after len now (.add id data) = b ∧
        b.result len now (.add id data) = .added false [] [id]
  | .delete id =>
    (b.after len now (.delete id)).items.values = b.items.values.filter (·.id ≠ id) ∧
      b.result len now (.delete id) = .deleted (b.items.values.any (·.id = id))
  | .get id =>
    b.after len now (.get id) = b ∧
      b.result len now (.get id) =
        .got ((b.items.values.find? (·.id = id)).map BufferItem.data)
  | .getOlderThan seconds =>
    b.after len now (.getOlderThan seconds) = b ∧
      b.result len now (.getOlderThan seconds) =
        .older ((b.items.values.filter (·.timestamp + seconds ≤ now)).map
          fun item => (item.id, item.data))

/-- `now - seconds` does not round up to the time of an item. -/
def Sharp (b : SizeConstrainedBuffer δ) (now : ℚ) : Request δ → Prop
  | .getOlderThan seconds => Binary64.round (now - seconds) ≤ now - seconds ∨
    ∀ item ∈ b.items.values, item.timestamp ≠ Binary64.round (now - seconds)
  | _ => True

/-- The size is that of the items, which are apart, in the order of their
insertion and each the latest under its id. -/
structure Kept (maxSizeBytes : ℕ) (s : Stored δ) : Prop where
  keyed : s.buffer.Keyed
  maxSize : s.buffer.maxSizeBytes = maxSizeBytes
  size : s.buffer.currentSize = total len s.buffer.items.values
  bound : total len s.buffer.items.values ≤ maxSizeBytes
  unique : (s.buffer.items.values.map BufferItem.id).Nodup
  ordered : s.buffer.items.values.Pairwise fun a b => a.timestamp ≤ b.timestamp
  latest : ∀ item ∈ s.buffer.items.values, s.latest item.id = some item
  past : ∀ item ∈ s.buffer.items.values, item.timestamp ≤ s.clock
  doubles : ∀ item ∈ s.buffer.items.values, Binary64.round item.timestamp = item.timestamp

/-! ## Items without one id -/

section Delete
variable {len} {b : SizeConstrainedBuffer δ} (hkeyed : b.Keyed) {id : String}
include hkeyed

theorem ids_eq : b.items.values.map BufferItem.id = b.items.items.map Prod.fst := by
  rw [OrderedDict.values, List.map_map]
  exact List.map_congr_left fun e he => (hkeyed e he).symm

theorem ids_nodup : (b.items.values.map BufferItem.id).Nodup := by
  rw [ids_eq hkeyed]
  exact b.items.nodup

theorem find_id : b.items.values.find? (·.id = id) = b.items.lookup id := by
  rw [OrderedDict.values, List.find?_map, OrderedDict.lookup]
  congr 1
  exact List.find?_congr fun e he => by simp [hkeyed e he]

theorem isSome_lookup :
    (b.items.lookup id).isSome = b.items.values.any (·.id = id) := by
  rw [← find_id hkeyed, List.isSome_find?]

theorem values_delete :
    (b.delete len id).items.values = b.items.values.filter (·.id ≠ id) := by
  have hfilter : b.items.values.filter (·.id ≠ id) =
      (b.items.items.filter fun e => e.1 ≠ id).map Prod.snd := by
    rw [OrderedDict.values, List.filter_map]
    congr 1
    exact List.filter_congr fun e he => by simp [hkeyed e he]
  rw [hfilter, delete]
  cases h : b.items.lookup id with
  | some item => rfl
  | none =>
    have hall : ∀ e ∈ b.items.items, decide (e.1 ≠ id) = true := fun e he => by
      simpa using fun heq : e.1 = id =>
        OrderedDict.lookup_eq_none.mp h (heq ▸ List.mem_map_of_mem he)
    rw [List.filter_eq_self.mpr hall]
    rfl

omit hkeyed in
theorem size_delete (hsize : b.currentSize = total len b.items.values) :
    (b.delete len id).currentSize = total len (b.delete len id).items.values := by
  rw [delete]
  cases h : b.items.lookup id with
  | none => exact hsize
  | some item =>
    have hperm := ((OrderedDict.erase_perm h).map fun e => len e.2.data).sum_nat
    simp only [OrderedDict.values, total, List.map_map, List.map_cons, List.sum_cons,
      Function.comp_def] at hsize hperm ⊢
    omega

end Delete

/-! ## Making room -/

theorem evict_spec {maxSizeBytes itemSize : ℕ} (hfits : itemSize ≤ maxSizeBytes) {size : ℤ}
    {es : List (String × BufferItem δ)} (hsize : size = total len (es.map Prod.snd)) :
    (evict len maxSizeBytes itemSize size es).1 =
      total len ((evict len maxSizeBytes itemSize size es).2.2.map Prod.snd) ∧
    Evicts len maxSizeBytes itemSize (es.map Prod.snd)
      ((evict len maxSizeBytes itemSize size es).2.1.map Prod.snd)
      ((evict len maxSizeBytes itemSize size es).2.2.map Prod.snd) := by
  induction es generalizing size with
  | nil => exact ⟨hsize, rfl, by simpa [evict, total] using hfits, by simp [evict]⟩
  | cons e es ih =>
    have hcons : total len ((e :: es).map Prod.snd) =
        len e.2.data + total len (es.map Prod.snd) := by
      simp [total]
    rw [evict]
    split
    · rename_i hfull
      obtain ⟨hrest, hevicts⟩ := ih (show size - len e.2.data = _ by omega)
      refine ⟨hrest, ?_, hevicts.fits, ?_⟩
      · simp only [List.map_cons, List.cons_append, ← hevicts.split]
      · intro n hn
        cases n with
        | zero =>
          rw [List.drop_zero]
          omega
        | succ n => exact hevicts.least n (by simpa using hn)
    · rename_i hroom
      refine ⟨hsize, rfl, ?_, by simp⟩
      change total len ((e :: es).map Prod.snd) + itemSize ≤ maxSizeBytes
      omega

/-! ## Additions -/

section Add
variable {len} {b : SizeConstrainedBuffer δ} {id : String} {data : δ} {now : ℚ}

theorem add_large (h : ¬ len data ≤ b.maxSizeBytes) : b.add len id data now = ⟨b, false, []⟩ :=
  if_pos (by omega)

theorem maxSizeBytes_delete : (b.delete len id).maxSizeBytes = b.maxSizeBytes := by
  rw [delete]
  cases b.items.lookup id <;> rfl

theorem add_spec (id : String) (now : ℚ) (hkeyed : b.Keyed)
    (hsize : b.currentSize = total len b.items.values)
    (h : len data ≤ b.maxSizeBytes) :
    ∃ kept, Evicts len b.maxSizeBytes (len data) (b.items.values.filter (·.id ≠ id))
        (b.add len id data now).evicted kept ∧
      (b.add len id data now).accepted = true ∧
      (b.add len id data now).buffer.items.values = kept ++ [⟨data, id, now⟩] ∧
      (b.add len id data now).buffer.maxSizeBytes = b.maxSizeBytes ∧
      (b.add len id data now).buffer.currentSize = total len kept + len data := by
  have hmax : (b.delete len id).maxSizeBytes = b.maxSizeBytes := maxSizeBytes_delete
  have hvalues : (b.delete len id).items.values = b.items.values.filter (·.id ≠ id) :=
    values_delete hkeyed
  have hdeleted : (b.delete len id).currentSize = total len (b.delete len id).items.values :=
    size_delete hsize
  obtain ⟨hroom, hevicts⟩ := evict_spec len (hmax ▸ h) hdeleted
  rw [← hvalues, ← hmax]
  have hadd : b.add len id data now = _ := if_neg (by omega)
  rw [hadd]
  refine ⟨_, hevicts, rfl, ?_, rfl, congrArg (· + (len data : ℤ)) hroom⟩
  have hnone : ((b.delete len id).makeRoom len (len data)).1.items.lookup id = none :=
    lookup_makeRoom lookup_delete
  have hput := OrderedDict.items_put_new (v := (⟨data, id, now⟩ : BufferItem δ)) hnone
  exact (congrArg (List.map Prod.snd) hput).trans List.map_append

end Add

/-! ## Runs -/

section Runs
variable {len} {maxSizeBytes : ℕ} {start : ℚ} {s : Stored δ}

theorem kept_init : Kept len maxSizeBytes (machine len (empty maxSizeBytes) start).init where
  keyed := keyed_empty maxSizeBytes
  maxSize := rfl
  size := rfl
  bound := Nat.zero_le _
  unique := List.nodup_nil
  ordered := .nil
  latest := fun _ h => absurd h List.not_mem_nil
  past := fun _ h => absurd h List.not_mem_nil
  doubles := fun _ h => absurd h List.not_mem_nil

theorem Kept.fewer (h : Kept len maxSizeBytes s) {b : SizeConstrainedBuffer δ}
    (hkeyed : b.Keyed) (hmax : b.maxSizeBytes = maxSizeBytes)
    (hsize : b.currentSize = total len b.items.values)
    (hsub : b.items.values.Sublist s.buffer.items.values) {now : ℚ} (hnow : s.clock ≤ now) :
    Kept len maxSizeBytes ⟨b, now, s.latest⟩ where
  keyed := hkeyed
  maxSize := hmax
  size := hsize
  bound := ((hsub.map fun item => len item.data).sum_le_sum (by simp)).trans h.bound
  unique := ids_nodup hkeyed
  ordered := h.ordered.sublist hsub
  latest := fun item hitem => h.latest item (hsub.subset hitem)
  past := fun item hitem => (h.past item (hsub.subset hitem)).trans hnow
  doubles := fun item hitem => h.doubles item (hsub.subset hitem)

theorem kept_add (h : Kept len maxSizeBytes s) {id : String} {data : δ} {now : ℚ}
    (hnow : s.clock ≤ now) (hdouble : Binary64.round now = now)
    (hfits : len data ≤ maxSizeBytes) :
    Kept len maxSizeBytes ⟨(s.buffer.add len id data now).buffer, now,
      Function.update s.latest id (some ⟨data, id, now⟩)⟩ := by
  obtain ⟨kept, hevicts, -, hvalues, hmax, hsize⟩ :=
    add_spec id now h.keyed h.size (h.maxSize ▸ hfits)
  have hkept : ∀ item ∈ kept, item ∈ s.buffer.items.values ∧ item.id ≠ id := by
    intro item hitem
    have hmem : item ∈ s.buffer.items.values.filter (·.id ≠ id) := by
      rw [hevicts.split]
      exact List.mem_append_right _ hitem
    simpa using hmem
  have hsub : kept.Sublist (s.buffer.items.values.filter (·.id ≠ id)) := by
    rw [hevicts.split]
    exact List.sublist_append_right _ _
  have htotal : total len (kept ++ [⟨data, id, now⟩]) = total len kept + len data := by
    simp [total]
  constructor
  · exact keyed_add h.keyed
  · exact hmax.trans h.maxSize
  · rw [hvalues, htotal]
    exact_mod_cast hsize
  · rw [hvalues, htotal, ← h.maxSize]
    exact hevicts.fits
  · exact ids_nodup (keyed_add h.keyed)
  · rw [hvalues, List.pairwise_append]
    refine ⟨(h.ordered.filter _).sublist hsub, List.pairwise_singleton _ _,
      fun item hitem new hnew => ?_⟩
    obtain rfl := List.mem_singleton.mp hnew
    exact (h.past item (hkept item hitem).1).trans hnow
  · intro item hitem
    rw [hvalues, List.mem_append, List.mem_singleton] at hitem
    rcases hitem with hitem | rfl
    · exact (Function.update_of_ne (hkept item hitem).2 _ _).trans
        (h.latest item (hkept item hitem).1)
    · exact Function.update_self ..
  · intro item hitem
    rw [hvalues, List.mem_append, List.mem_singleton] at hitem
    rcases hitem with hitem | rfl
    · exact (h.past item (hkept item hitem).1).trans hnow
    · exact le_refl now
  · intro item hitem
    rw [hvalues, List.mem_append, List.mem_singleton] at hitem
    rcases hitem with hitem | rfl
    · exact h.doubles item (hkept item hitem).1
    · exact hdouble

theorem kept_step (h : Kept len maxSizeBytes s) {now : ℚ} (hnow : s.clock ≤ now)
    (hdouble : Binary64.round now = now) (request : Request δ) :
    Kept len maxSizeBytes ((machine len (empty maxSizeBytes) start).effect (now, request) s) := by
  cases request with
  | add id data =>
    change Kept len maxSizeBytes ⟨(s.buffer.add len id data now).buffer, now,
      if len data ≤ maxSizeBytes then Function.update s.latest id (some ⟨data, id, now⟩)
      else s.latest⟩
    by_cases hfits : len data ≤ maxSizeBytes
    · rw [if_pos hfits]
      exact kept_add h hnow hdouble hfits
    · have hlarge : s.buffer.add len id data now = ⟨s.buffer, false, []⟩ :=
        add_large (h.maxSize ▸ hfits)
      rw [if_neg hfits, hlarge]
      exact h.fewer h.keyed h.maxSize h.size (List.Sublist.refl _) hnow
  | delete id =>
    refine h.fewer (keyed_delete h.keyed) (maxSizeBytes_delete.trans h.maxSize)
      (size_delete h.size) ?_ hnow
    have hvalues : (s.buffer.delete len id).items.values = _ := values_delete h.keyed
    rw [hvalues]
    exact List.filter_sublist
  | get id => exact h.fewer h.keyed h.maxSize h.size (List.Sublist.refl _) hnow
  | getOlderThan seconds => exact h.fewer h.keyed h.maxSize h.size (List.Sublist.refl _) hnow

/-- An item is taken for older than it is where the difference rounds up to its
time. -/
theorem older_iff (h : Kept len maxSizeBytes s) {now seconds : ℚ} {item : BufferItem δ}
    (hitem : item ∈ s.buffer.items.values) :
    item.timestamp ≤ Binary64.round (now - seconds) ↔ item.timestamp + seconds ≤ now ∨
      item.timestamp = Binary64.round (now - seconds) := by
  rw [Binary64.le_round_iff (h.doubles item hitem), le_sub_iff_add_le]

/-- Two filters of a list, one within the other, give the same when they give
the same of some function. -/
theorem map_filter_eq_iff {α β : Type} {f : α → β} {p q : α → Bool} {l : List α}
    (hsub : ∀ a ∈ l, q a → p a) :
    (l.filter p).map f = (l.filter q).map f ↔ ∀ a ∈ l, p a = q a := by
  constructor
  · intro heq
    have hfilter : l.filter q = (l.filter p).filter q := by
      rw [List.filter_filter]
      refine List.filter_congr fun a ha => ?_
      cases hq : q a with
      | false => simp
      | true => simp [hsub a ha hq]
    have hlength := congrArg List.length heq
    rw [List.length_map, List.length_map, hfilter, eq_comm,
      List.length_filter_eq_length_iff] at hlength
    intro a ha
    cases hp : p a with
    | true => exact (hlength a (List.mem_filter.mpr ⟨ha, hp⟩)).symm
    | false =>
      cases hq : q a with
      | false => rfl
      | true => exact hp.symm.trans (hsub a ha hq)
  · intro hall
    rw [List.filter_congr hall]

theorem answers_getOlderThan (h : Kept len maxSizeBytes s) (now seconds : ℚ) :
    Answers len maxSizeBytes s.buffer now (.getOlderThan seconds) ↔
      Sharp s.buffer now (.getOlderThan seconds) := by
  have hanswer : Answers len maxSizeBytes s.buffer now (.getOlderThan seconds) ↔
      ∀ item ∈ s.buffer.items.values,
        decide (item.timestamp ≤ Binary64.round (now - seconds)) =
          decide (item.timestamp + seconds ≤ now) := by
    rw [Answers, ← map_filter_eq_iff (f := fun item : BufferItem δ => (item.id, item.data))]
    · exact ⟨fun hd => Result.older.inj hd.2, fun heq => ⟨rfl, congrArg Result.older heq⟩⟩
    · intro item hitem hold
      exact decide_eq_true ((older_iff h hitem).mpr (.inl (of_decide_eq_true hold)))
  rw [hanswer, Sharp]
  constructor
  · intro hall
    by_cases hup : Binary64.round (now - seconds) ≤ now - seconds
    · exact .inl hup
    · refine .inr fun item hitem heq => hup ?_
      have hold := hall item hitem
      rw [decide_eq_decide] at hold
      rw [← heq, le_sub_iff_add_le]
      exact hold.mp heq.le
  · intro hsharp item hitem
    rw [decide_eq_decide, older_iff h hitem, or_iff_left_iff_imp]
    intro heq
    rcases hsharp with hdown | hne
    · rw [← heq, le_sub_iff_add_le] at hdown
      exact hdown
    · exact absurd heq (hne item hitem)

theorem answers_exactly_iff (h : Kept len maxSizeBytes s) (now : ℚ) (request : Request δ) :
    Answers len maxSizeBytes s.buffer now request ↔ Sharp s.buffer now request := by
  cases request with
  | add id data =>
    refine iff_of_true ?_ trivial
    rw [Answers]
    split
    · rename_i hfits
      obtain ⟨kept, hevicts, haccepted, hvalues, -, -⟩ :=
        add_spec id now h.keyed h.size (h.maxSize ▸ hfits)
      refine ⟨_, kept, h.maxSize ▸ hevicts, hvalues, ?_⟩
      rw [result, haccepted]
      rfl
    · rename_i hlarge
      have hlarge : s.buffer.add len id data now = ⟨s.buffer, false, []⟩ :=
        add_large (h.maxSize ▸ hlarge)
      rw [after, result, hlarge]
      exact ⟨rfl, rfl⟩
  | delete id =>
    exact iff_of_true
      ⟨values_delete h.keyed, congrArg Result.deleted (isSome_lookup h.keyed)⟩ trivial
  | get id =>
    refine iff_of_true ⟨rfl, ?_⟩ trivial
    rw [result, get, find_id h.keyed]
  | getOlderThan seconds => exact answers_getOlderThan h now seconds

theorem kept_reachable
    (h : (machine len (empty maxSizeBytes) start).Reachable Machine.Any s) :
    Kept len maxSizeBytes s :=
  h.invariant kept_init fun e _ _ hs henabled _ => kept_step hs henabled.1 henabled.2 e.2

/-- In every run the buffer is as it should be, and does next what it should do
unless a difference rounds up to the time of an item. -/
theorem buffer_correct_iff {b : SizeConstrainedBuffer δ} (hnew : new (maxSizeBytes : ℤ) = .ok b)
    (h : (machine len b start).Reachable Machine.Any s) :
    Kept len maxSizeBytes s ∧ ∀ now request,
      Answers len maxSizeBytes s.buffer now request ↔ Sharp s.buffer now request := by
  obtain rfl := eq_empty_of_new hnew
  exact ⟨kept_reachable h, answers_exactly_iff (kept_reachable h)⟩

def evicting : List (ℚ × Request (List UInt8)) :=
  [(0, .add "a" [1, 2]), (1, .add "b" [3]), (1, .get "a"), (2, .add "c" [4])]

theorem buffer_correct_iff_evicting : ∃ s : Stored (List UInt8),
    s.buffer.items.values.map BufferItem.id = ["b", "c"] ∧ Kept List.length 3 s ∧
      ∀ now request, Answers List.length 3 s.buffer now request ↔ Sharp s.buffer now request := by
  obtain ⟨s, hs, hids⟩ : ∃ s, (machine List.length (empty 3) 0).Reachable Machine.Any s ∧
      s.buffer.items.values.map BufferItem.id = ["b", "c"] :=
    Machine.exists_reachable evicting (by decide +kernel)
  exact ⟨s, hids, buffer_correct_iff rfl hs⟩

/-- One tenth of a second before `1700033550.1052103`, as doubles, is just before
`1700033550.0052104`, to which the difference rounds. -/
theorem younger_than_asked : ∃ s : Stored (List UInt8),
    (machine List.length (empty 3) 0).Reachable Machine.Any s ∧
      ¬ Answers List.length 3 s.buffer (1782614379835121 / 1048576)
        (.getOlderThan (3602879701896397 / 36028797018963968)) := by
  obtain ⟨s, hs, item, hitem, htime⟩ : ∃ s : Stored (List UInt8),
      (machine List.length (empty 3) 0).Reachable Machine.Any s ∧
        ∃ item ∈ s.buffer.items.values, item.timestamp = 3565228759460527 / 2097152 :=
    Machine.exists_reachable [(3565228759460527 / 2097152, .add "a" [1])] (by decide +kernel)
  have hround : Binary64.round (1782614379835121 / 1048576 - 3602879701896397 / 36028797018963968) =
      3565228759460527 / 2097152 := by decide +kernel
  refine ⟨s, hs, fun hanswers => ?_⟩
  rcases (answers_exactly_iff (kept_reachable hs) _ _).mp hanswers with hdown | hne
  · rw [hround] at hdown
    norm_num at hdown
  · exact hne item hitem (htime.trans hround.symm)

end Runs

end Inngest.Connect.SizeConstrainedBuffer
