import Inngest.Binary64
import Inngest.OrderedDict
import Inngest.ServerLib

/-!
# `SizeConstrainedBuffer`

The buffer of replies, for any type of data that has a size. The callbacks
of the constructor only log; who is evicted and who is rejected is returned.
Times are those of `time.time()`, doubles.
-/

set_option autoImplicit false

namespace Inngest.Connect
open Errors

structure BufferItem (δ : Type) where
  data : δ
  id : String
  timestamp : ℚ
  deriving DecidableEq

structure SizeConstrainedBuffer (δ : Type) where
  maxSizeBytes : ℕ
  currentSize : ℤ
  items : OrderedDict String (BufferItem δ)

structure Added (δ : Type) where
  buffer : SizeConstrainedBuffer δ
  accepted : Bool
  evicted : List (BufferItem δ)

namespace SizeConstrainedBuffer
variable {δ : Type} (len : δ → ℕ) (b : SizeConstrainedBuffer δ)

def empty (maxSizeBytes : ℕ) : SizeConstrainedBuffer δ := ⟨maxSizeBytes, 0, .empty⟩

def new (maxSizeBytes : ℤ) : Except PyError (SizeConstrainedBuffer δ) :=
  if maxSizeBytes ≤ 0 then
    .error (exception "ValueError" "max_size_bytes must be greater than 0")
  else .ok (empty maxSizeBytes.toNat)

/-- The loop of `add`: the size left, the entries popped and those kept. -/
def evict (maxSizeBytes itemSize : ℕ) :
    ℤ → List (String × BufferItem δ) →
      ℤ × List (String × BufferItem δ) × List (String × BufferItem δ)
  | currentSize, [] => (currentSize, [], [])
  | currentSize, e :: es =>
    if currentSize + itemSize > maxSizeBytes then
      let r := evict maxSizeBytes itemSize (currentSize - len e.2.data) es
      (r.1, e :: r.2.1, r.2.2)
    else (currentSize, [], e :: es)

theorem evict_append (maxSizeBytes itemSize : ℕ) (currentSize : ℤ)
    (es : List (String × BufferItem δ)) :
    (evict len maxSizeBytes itemSize currentSize es).2.1 ++
      (evict len maxSizeBytes itemSize currentSize es).2.2 = es := by
  induction es generalizing currentSize with
  | nil => rfl
  | cons e es ih =>
    rw [evict]
    split
    · simp [ih]
    · rfl

def get (id : String) : Option δ := (b.items.lookup id).map BufferItem.data

def delete (id : String) : SizeConstrainedBuffer δ :=
  match b.items.lookup id with
  | none => b
  | some item => { b with
      currentSize := b.currentSize - len item.data
      items := b.items.erase id }

def makeRoom (itemSize : ℕ) : SizeConstrainedBuffer δ × List (BufferItem δ) :=
  let r := evict len b.maxSizeBytes itemSize b.currentSize b.items.items
  ({ b with
      currentSize := r.1
      items := ⟨r.2.2, b.items.nodup.sublist (by
        conv => rhs; rw [← evict_append len b.maxSizeBytes itemSize b.currentSize b.items.items]
        exact (List.sublist_append_right _ _).map _)⟩ },
    r.2.1.map Prod.snd)

def add (id : String) (data : δ) (now : ℚ) : Added δ :=
  if len data > b.maxSizeBytes then ⟨b, false, []⟩
  else
    let (room, evicted) := (b.delete len id).makeRoom len (len data)
    ⟨{ room with
        items := room.items.put id ⟨data, id, now⟩
        currentSize := room.currentSize + len data }, true, evicted⟩

def getOlderThan (seconds now : ℚ) : List (BufferItem δ) :=
  let cutoffTime := Binary64.round (now - seconds)
  b.items.values.filter fun item => item.timestamp ≤ cutoffTime

/-! ## What is in the buffer -/

variable {len b}

def Holds (b : SizeConstrainedBuffer δ) (item : BufferItem δ) : Prop :=
  (item.id, item) ∈ b.items.items

def Keyed (b : SizeConstrainedBuffer δ) : Prop := ∀ e ∈ b.items.items, e.1 = e.2.id

variable {id : String} {data : δ} {now : ℚ} {item : BufferItem δ}

theorem keyed_empty (maxSizeBytes : ℕ) :
    (empty maxSizeBytes : SizeConstrainedBuffer δ).Keyed := by
  intro e he
  simp [empty, OrderedDict.empty] at he

theorem eq_empty_of_new {maxSizeBytes : ℕ} (h : new (maxSizeBytes : ℤ) = .ok b) :
    b = empty maxSizeBytes := by
  rw [new] at h
  split at h
  · cases h
  · exact (Except.ok.inj h).symm

theorem mem_delete {e : String × BufferItem δ} :
    e ∈ (b.delete len id).items.items ↔ e ∈ b.items.items ∧ e.1 ≠ id := by
  rw [delete]
  cases h : b.items.lookup id with
  | none =>
    have hkey := OrderedDict.lookup_eq_none.mp h
    constructor
    · intro he
      exact ⟨he, fun heq => hkey (heq ▸ List.mem_map_of_mem he)⟩
    · exact And.left
  | some item => simp

theorem keyed_delete (h : b.Keyed) : (b.delete len id).Keyed :=
  fun e he => h e (mem_delete.mp he).1

theorem holds_delete : (b.delete len id).Holds item ↔ b.Holds item ∧ item.id ≠ id := mem_delete

theorem mem_makeRoom {itemSize : ℕ} {e : String × BufferItem δ} (he : e ∈ b.items.items) :
    e ∈ (b.makeRoom len itemSize).1.items.items ∨ e.2 ∈ (b.makeRoom len itemSize).2 := by
  rw [← evict_append len b.maxSizeBytes itemSize b.currentSize b.items.items,
    List.mem_append] at he
  exact he.symm.imp id fun h => List.mem_map_of_mem h

theorem makeRoom_subset {itemSize : ℕ} {e : String × BufferItem δ}
    (he : e ∈ (b.makeRoom len itemSize).1.items.items) : e ∈ b.items.items := by
  rw [← evict_append len b.maxSizeBytes itemSize b.currentSize b.items.items]
  exact List.mem_append_right _ he

theorem lookup_makeRoom {itemSize : ℕ} (h : b.items.lookup id = none) :
    (b.makeRoom len itemSize).1.items.lookup id = none := by
  rw [OrderedDict.lookup_eq_none] at h ⊢
  intro hm
  obtain ⟨e, he, rfl⟩ := List.mem_map.mp hm
  exact h (List.mem_map_of_mem (makeRoom_subset he))

theorem lookup_delete : (b.delete len id).items.lookup id = none := by
  rw [delete]
  cases h : b.items.lookup id with
  | none => exact h
  | some item => simp

/-- The items after a reply has been added: itself, and the others but for
those that it replaced or evicted. -/
theorem mem_add (h : (b.add len id data now).accepted = true) {e : String × BufferItem δ} :
    e ∈ (b.add len id data now).buffer.items.items ↔
      e ∈ ((b.delete len id).makeRoom len (len data)).1.items.items ∨
        e = (id, ⟨data, id, now⟩) := by
  rw [add] at h ⊢
  split at h
  · simp at h
  · rw [if_neg (by assumption)]
    exact OrderedDict.mem_put (lookup_makeRoom lookup_delete)

theorem add_rejected (h : (b.add len id data now).accepted = false) :
    (b.add len id data now).buffer = b ∧ (b.add len id data now).evicted = [] := by
  rw [add] at h ⊢
  split
  · exact ⟨rfl, rfl⟩
  · rw [if_neg (by assumption)] at h
    simp at h

theorem add_accepted (h : (b.add len id data now).accepted = true) :
    len data ≤ b.maxSizeBytes := by
  rw [add] at h
  split at h
  · simp at h
  · omega

theorem keyed_add (h : b.Keyed) : (b.add len id data now).buffer.Keyed := by
  cases ha : (b.add len id data now).accepted with
  | false => rwa [(add_rejected ha).1]
  | true =>
    intro e he
    rcases (mem_add ha).mp he with he | rfl
    · exact keyed_delete h e (makeRoom_subset he)
    · rfl

theorem holds_added (h : (b.add len id data now).accepted = true) :
    (b.add len id data now).buffer.Holds ⟨data, id, now⟩ := (mem_add h).mpr (.inr rfl)

theorem holds_add (h : b.Holds item) (hid : item.id ≠ id) :
    (b.add len id data now).buffer.Holds item ∨ item ∈ (b.add len id data now).evicted := by
  cases ha : (b.add len id data now).accepted with
  | false => exact .inl (by rwa [(add_rejected ha).1])
  | true =>
    have hroom : (item.id, item) ∈ ((b.delete len id).makeRoom len (len data)).1.items.items ∨
        item ∈ ((b.delete len id).makeRoom len (len data)).2 :=
      mem_makeRoom (mem_delete.mpr ⟨h, hid⟩)
    rcases hroom with hm | hm
    · exact .inl ((mem_add ha).mpr (.inl hm))
    · refine .inr ?_
      rw [add] at ha ⊢
      split at ha
      · simp at ha
      · rw [if_neg (by assumption)]
        exact hm

theorem mem_getOlderThan {seconds : ℚ} (h : b.Keyed) (hm : item ∈ b.getOlderThan seconds now) :
    b.Holds item := by
  obtain ⟨e, he, rfl⟩ := List.mem_map.mp (List.mem_filter.mp hm).1
  rw [Holds, ← h e he]
  exact he

end SizeConstrainedBuffer

end Inngest.Connect
