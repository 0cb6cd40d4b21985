import Inngest.Connect.Draining
import Inngest.Connect.ExecutionSteps

/-!
# Replies stay in the buffer until they are settled

The buffer knows a reply by the id of its request. A reply that was stored is
there until it is acknowledged, handed to a flush, evicted or replaced, if no
flush takes the entry of another reply with it. An internal error is never
stored.
-/

set_option autoImplicit false

namespace Inngest.Connect
open Errors Transition

/-- What the reply of the task `i` waits for, once it is stored under `id`. -/
def settles (i : ℕ) (id : String) : ReplyMark → Prop
  | .acked id' => id' = id
  | .flushStart j => j = i
  | .evicted j => j = i
  | .stored _ id' => id' = id
  | _ => False

namespace Worker
variable {cfg : Config} {w w' : Worker} {e : Event}

/-- The end of a flush finds the reply that was flushed, or nothing, under the
id that it deletes. -/
def endsOwn (e : Event) (w : Worker) : Bool :=
  match e with
  | .flushPoller | .flushed =>
    w.flushPoller.item?.all fun item => (w.buffer.items.lookup item.id).all fun held => held = item
  | _ => true

/-- The step makes no internal error of an execution, and no flush ends on
another reply. -/
def keepsReplies (cfg : Config) (e : Event) (w : Worker) : Bool :=
  !unbuffered cfg (w.answer e) && w.endsOwn e

def Unsettled (w : Worker) (i : ℕ) (id : String) : Prop :=
  Since (settles i id) (.stored i id) w.replies

/-- The reply of the task is in the buffer, under the id of its request. -/
def InBuffer (w : Worker) (i : ℕ) (id : String) : Prop :=
  ∃ item, w.buffer.Holds item ∧ item.id = id ∧ item.data.task = i

def Buffered (past : List ReplyMark) : ReplyMark → Prop
  | .replying i => (∃ id, .stored i id ∈ past) ∨ .rejected i ∈ past
  | _ => True

structure RepliesKept (w : Worker) : Prop where
  keyed : w.buffer.Keyed
  built : ∀ i id, .stored i id ∈ w.replies → ∃ x, w.executions.tasks[i]? = some x ∧
    x.req.requestId = id ∧ x.stage.early = false
  stored : ∀ item, w.buffer.Holds item → .stored item.data.task item.id ∈ w.replies
  held : ∀ i id, w.Unsettled i id → w.InBuffer i id
  snapshot : ∀ item ∈ w.flushPoller.items, .stored item.data.task item.id ∈ w.replies
  flushing : ∀ item, w.flushPoller.item? = some item → ¬ w.Unsettled item.data.task item.id
  each : Each Buffered w.replies

theorem repliesKept_initial : RepliesKept initial where
  keyed := SizeConstrainedBuffer.keyed_empty _
  built i id h := by simp [initial] at h
  stored item h := by
    simp [initial, SizeConstrainedBuffer.Holds, SizeConstrainedBuffer.empty,
      OrderedDict.empty] at h
  held i id h := h.elim
  snapshot item h := by simp [initial, FlushPc.items] at h
  flushing item h := by simp [initial, FlushPc.item?] at h
  each := trivial

structure Leaves (w w' : Worker) : Prop where
  tasks : ∀ (i : ℕ) (x : Execution), w.executions.tasks[i]? = some x →
    ∃ x' : Execution, w'.executions.tasks[i]? = some x' ∧
      x'.req.requestId = x.req.requestId ∧ (x'.stage.early = true → x.stage.early = true)
  buffer : w'.buffer = w.buffer
  replies : w'.replies = w.replies
  flushing : ∀ item, w'.flushPoller.item? = some item → w.flushPoller.item? = some item
  items : ∀ item ∈ w'.flushPoller.items, item ∈ w.flushPoller.items

theorem RepliesKept.still_built (h : RepliesKept w) (ht : ∀ (i : ℕ) (x : Execution),
      w.executions.tasks[i]? = some x → ∃ x' : Execution, w'.executions.tasks[i]? = some x' ∧
        x'.req.requestId = x.req.requestId ∧ (x'.stage.early = true → x.stage.early = true))
    {i : ℕ} {id : String} (hm : .stored i id ∈ w.replies) :
    ∃ x, w'.executions.tasks[i]? = some x ∧ x.req.requestId = id ∧ x.stage.early = false := by
  obtain ⟨x, hx, hid, hs⟩ := h.built i id hm
  obtain ⟨x', hx', hid', hs'⟩ := ht i x hx
  refine ⟨x', hx', hid'.trans hid, ?_⟩
  rw [Bool.eq_false_iff]
  intro hearly
  rw [hs' hearly] at hs
  simp at hs

theorem RepliesKept.leaves (h : RepliesKept w) (hw : Leaves w w') : RepliesKept w' where
  keyed := by rw [hw.buffer]; exact h.keyed
  built i id hm := by
    rw [hw.replies] at hm
    exact h.still_built hw.tasks hm
  stored := by rw [hw.buffer, hw.replies]; exact h.stored
  held := by
    intro i id hu
    rw [Unsettled, hw.replies] at hu
    rw [InBuffer, hw.buffer]
    exact h.held i id hu
  snapshot item hi := by rw [hw.replies]; exact h.snapshot item (hw.items item hi)
  flushing item hi := by rw [Unsettled, hw.replies]; exact h.flushing item (hw.flushing item hi)
  each := by rw [hw.replies]; exact h.each

theorem tasks_same (ht : w'.executions.tasks = w.executions.tasks) (i : ℕ) (x : Execution)
    (hx : w.executions.tasks[i]? = some x) : ∃ x' : Execution,
      w'.executions.tasks[i]? = some x' ∧ x'.req.requestId = x.req.requestId ∧
        (x'.stage.early = true → x.stage.early = true) :=
  ⟨x, by rw [ht, hx], rfl, id⟩

theorem tasks_modify {f : Execution → Execution} {k : ℕ}
    (hf : ∀ x, w.executions.tasks[k]? = some x → (f x).req.requestId = x.req.requestId ∧
      ((f x).stage.early = true → x.stage.early = true))
    (ht : w'.executions.tasks = w.executions.tasks.modify k f) (i : ℕ) (x : Execution)
    (hx : w.executions.tasks[i]? = some x) : ∃ x' : Execution,
      w'.executions.tasks[i]? = some x' ∧ x'.req.requestId = x.req.requestId ∧
        (x'.stage.early = true → x.stage.early = true) := by
  refine ⟨_, ht ▸ get_modify f hx, ?_⟩
  split
  · subst k
    exact hf x hx
  · exact ⟨rfl, id⟩

/-! ## The messages -/

theorem unsettled_cons {m : ReplyMark} {i : ℕ} {id : String} (hne : ∀ i id, m ≠ .stored i id)
    (hw : w'.replies = m :: w.replies) (h : w'.Unsettled i id) :
    ¬ settles i id m ∧ w.Unsettled i id := by
  rw [Unsettled, hw, since_cons] at h
  exact h.resolve_left (hne _ _)

theorem RepliesKept.acked (h : RepliesKept w) {id : String}
    (ht : w'.executions.tasks = w.executions.tasks)
    (hb : w'.buffer = w.buffer.delete Reply.len id)
    (hr : w'.replies = .acked id :: w.replies) (hf : w'.flushPoller = w.flushPoller) :
    RepliesKept w' where
  keyed := by rw [hb]; exact SizeConstrainedBuffer.keyed_delete h.keyed
  built i id' hm := by
    rw [hr, List.mem_cons] at hm
    exact h.still_built (tasks_same ht) (hm.resolve_left (by simp))
  stored item hi := by
    rw [hb] at hi
    rw [hr]
    exact .tail _ (h.stored item (SizeConstrainedBuffer.holds_delete.mp hi).1)
  held i id' hu := by
    obtain ⟨hne, hu⟩ := unsettled_cons (by simp) hr hu
    obtain ⟨item, hi, rfl, hj⟩ := h.held i id' hu
    refine ⟨item, ?_, rfl, hj⟩
    rw [hb]
    exact SizeConstrainedBuffer.holds_delete.mpr ⟨hi, fun heq => hne heq.symm⟩
  snapshot item hi := by
    rw [hf] at hi
    rw [hr]
    exact .tail _ (h.snapshot item hi)
  flushing item hi hu := by
    rw [hf] at hi
    exact h.flushing item hi (unsettled_cons (by simp) hr hu).2
  each := by rw [hr]; exact ⟨trivial, h.each⟩

theorem RepliesKept.message (h : RepliesKept w) {msg : GatewayMessage} {s : State}
    {x : ExecutionState}
    (hx : ExecutionState.Handles cfg ⟨s, w.executions, w.buffer, w.leases, w.replies⟩ msg x)
    (hw : Shows w w' x) : RepliesKept w' := by
  have hitem : ∀ item, w'.flushPoller.item? = some item → w.flushPoller.item? = some item := by
    rw [hw.flushPoller]
    exact fun _ => id
  have hitems : ∀ item ∈ w'.flushPoller.items, item ∈ w.flushPoller.items := by
    rw [hw.flushPoller]
    exact fun _ => id
  have htasks := congrArg Executions.tasks hw.executions
  cases hx with
  | nothing => exact h.leaves ⟨tasks_same htasks, hw.buffer, hw.replies, hitem, hitems⟩
  | accepted ha =>
    refine h.leaves ⟨fun i x hx => ⟨x, ?_, rfl, id⟩, hw.buffer, hw.replies, hitem, hitems⟩
    have hlt := (List.getElem?_eq_some_iff.mp hx).1
    rw [htasks]
    exact (List.getElem?_append_left hlt).trans hx
  | @renewed data i lease hi hl hne =>
    have hkeep := tasks_modify (f := Executions.renew lease) (k := i) (fun x _ => ⟨rfl, id⟩) htasks
    exact h.leaves ⟨hkeep, hw.buffer, hw.replies, hitem, hitems⟩
  | @nacked data i hi hl =>
    refine h.leaves ⟨tasks_modify (f := Executions.cancel) (k := i) (fun x _ => ⟨rfl, ?_⟩) htasks,
      hw.buffer, hw.replies, hitem, hitems⟩
    intro hearly
    simp only [Executions.cancel] at hearly
    split at hearly
    · exact hearly
    · simp [Stage.early] at hearly
  | acked => exact h.acked htasks hw.buffer hw.replies hw.flushPoller

/-! ## The executions -/

structure Stores (w w' : Worker) (i : ℕ) (x : Execution) (payload : Bytes) : Prop where
  get : w.executions.tasks[i]? = some x
  early : x.stage.early = true
  tasks : ∃ stage : Stage, stage.early = false ∧
    w'.executions.tasks = (w.executions.setStage i stage).tasks
  buffer : w'.buffer = (w.buffer.add Reply.len x.req.requestId ⟨i, payload⟩ w.now).buffer
  replies : w'.replies = .replying i :: (ExecuteRequest.storeMarks i x.req
    (w.buffer.add Reply.len x.req.requestId ⟨i, payload⟩ w.now) ++ w.replies)
  flushPoller : w'.flushPoller = w.flushPoller

theorem Stores.tasks_kept {i : ℕ} {x : Execution} {payload : Bytes}
    (hw : Stores w w' i x payload) (j : ℕ) (y : Execution)
    (hy : w.executions.tasks[j]? = some y) : ∃ y' : Execution,
      w'.executions.tasks[j]? = some y' ∧ y'.req.requestId = y.req.requestId ∧
        (y'.stage.early = true → y.stage.early = true) := by
  obtain ⟨stage, hstage, ht⟩ := hw.tasks
  exact tasks_modify (f := fun x => { x with stage := stage }) (k := i)
    (fun x _ => ⟨rfl, by simp [hstage]⟩) ht j y hy

theorem RepliesKept.rejected (h : RepliesKept w) {i : ℕ} {x : Execution} {payload : Bytes}
    (hw : Stores w w' i x payload)
    (ha : (w.buffer.add Reply.len x.req.requestId ⟨i, payload⟩ w.now).accepted = false) :
    RepliesKept w' := by
  have hb : w'.buffer = w.buffer := hw.buffer.trans (SizeConstrainedBuffer.add_rejected ha).1
  have hr : w'.replies = .replying i :: .rejected i :: w.replies := by
    rw [hw.replies, ExecuteRequest.storeMarks, ha]
    rfl
  have hback : ∀ j id, w'.Unsettled j id → w.Unsettled j id := by
    intro j id hu
    rw [Unsettled, hr, since_cons, since_cons] at hu
    exact ((hu.resolve_left (by simp)).2.resolve_left (by simp)).2
  have hmem : ∀ m ∈ w.replies, m ∈ w'.replies := by
    rw [hr]
    exact fun m hm => .tail _ (.tail _ hm)
  constructor
  · rw [hb]
    exact h.keyed
  · intro j id hm
    rw [hr] at hm
    exact h.still_built hw.tasks_kept (by simpa using hm)
  · rw [hb]
    exact fun item hi => hmem _ (h.stored item hi)
  · intro j id hu
    rw [InBuffer, hb]
    exact h.held j id (hback j id hu)
  · rw [hw.flushPoller]
    exact fun item hi => hmem _ (h.snapshot item hi)
  · rw [hw.flushPoller]
    exact fun item hi hu => h.flushing item hi (hback _ _ hu)
  · rw [hr]
    exact ⟨.inr (.head _), trivial, h.each⟩

theorem RepliesKept.added (h : RepliesKept w) {i : ℕ} {x : Execution} {payload : Bytes}
    (hw : Stores w w' i x payload)
    (ha : (w.buffer.add Reply.len x.req.requestId ⟨i, payload⟩ w.now).accepted = true) :
    RepliesKept w' := by
  set id := x.req.requestId with hid
  set added := w.buffer.add Reply.len id ⟨i, payload⟩ w.now with hadded
  have hr : w'.replies = .replying i :: .stored i id ::
      (added.evicted.map (fun item => .evicted item.data.task) ++ w.replies) := by
    rw [hw.replies, ExecuteRequest.storeMarks_accepted ha]
    rfl
  have hmem : ∀ m ∈ w.replies, m ∈ w'.replies := by
    rw [hr]
    exact fun m hm => .tail _ (.tail _ (List.mem_append_right _ hm))
  have hnew : .stored i id ∈ w'.replies := by
    rw [hr]
    exact .tail _ (.head _)
  -- the present reply, or one that was not settled and is neither replaced nor evicted
  have hback : ∀ j id', w'.Unsettled j id' → j = i ∧ id' = id ∨ id' ≠ id ∧
      (∀ item ∈ added.evicted, item.data.task ≠ j) ∧ w.Unsettled j id' := by
    intro j id' hu
    rw [Unsettled, hr] at hu
    rcases ExecuteRequest.since_stored hu with heq | ⟨hne, hev, hu⟩
    · exact .inl heq
    · exact .inr ⟨fun heq => hne heq.symm, fun item hi heq => hev item hi heq, hu⟩
  constructor
  · rw [hw.buffer]
    exact SizeConstrainedBuffer.keyed_add h.keyed
  · intro j id' hm
    by_cases hold : .stored j id' ∈ w.replies
    · exact h.still_built hw.tasks_kept hold
    · rw [hr] at hm
      have heq : j = i ∧ id' = id := by simpa [hold] using hm
      obtain ⟨rfl, rfl⟩ := heq
      obtain ⟨stage, hstage, ht⟩ := hw.tasks
      refine ⟨{ x with stage := stage }, ?_, rfl, hstage⟩
      rw [ht, Executions.setStage, List.getElem?_modify, hw.get]
      simp
  · intro item hi
    rw [hw.buffer, SizeConstrainedBuffer.Holds, SizeConstrainedBuffer.mem_add ha] at hi
    rcases hi with hi | heq
    · apply hmem
      apply h.stored
      exact (SizeConstrainedBuffer.mem_delete.mp (SizeConstrainedBuffer.makeRoom_subset hi)).1
    · have hitem := congrArg Prod.snd heq
      simp only at hitem
      rw [hitem]
      exact hnew
  · intro j id' hu
    rw [InBuffer, hw.buffer]
    rcases hback j id' hu with ⟨rfl, rfl⟩ | ⟨hne, hev, hu⟩
    · exact ⟨_, SizeConstrainedBuffer.holds_added ha, rfl, rfl⟩
    · obtain ⟨item, hi, rfl, rfl⟩ := h.held j id' hu
      rcases SizeConstrainedBuffer.holds_add hi hne with hi | hi
      · exact ⟨item, hi, rfl, rfl⟩
      · exact absurd rfl (hev item hi)
  · rw [hw.flushPoller]
    exact fun item hi => hmem _ (h.snapshot item hi)
  · rw [hw.flushPoller]
    intro item hi hu
    rcases hback _ _ hu with ⟨hj, -⟩ | ⟨-, -, hu⟩
    · -- a reply that is being flushed was built before
      obtain ⟨y, hy, -, hbuilt⟩ := h.built _ _ (h.snapshot item (FlushPc.mem_items hi))
      rw [hj, hw.get] at hy
      obtain rfl := Option.some.inj hy
      simp [hw.early] at hbuilt
    · exact h.flushing item hi hu
  · rw [hr]
    refine ⟨.inl ⟨id, .head _⟩, trivial, h.each.append ?_⟩
    simp [Buffered]

theorem RepliesKept.files (h : RepliesKept w) {i : ℕ} {x : Execution} {b : ExecutionBlock}
    (hc : unbuffered cfg (w.answer e) = false) (hx : w.executions.tasks[i]? = some x)
    (hb : Files cfg i x w.now w.buffer (answer e w) b) : RepliesKept (w.runExecution i b) := by
  cases hb with
  | nothing hb hm hs =>
    refine h.leaves ⟨?_, hb, ?_, fun _ => id, fun _ => id⟩
    · refine tasks_modify (f := fun x => { x with stage := b.stage }) (k := i) (fun y hy => ?_) rfl
      obtain rfl := Option.some.inj (hx.symm.trans hy)
      exact ⟨rfl, hs⟩
    · simp [runExecution, hm]
  | @stored payload hearly hp hb hm hs =>
    have hw : Stores w (w.runExecution i b) i x payload :=
      ⟨hx, hearly, ⟨b.stage, hs, rfl⟩, hb, by simp [runExecution, hm], rfl⟩
    cases ha : (w.buffer.add Reply.len x.req.requestId ⟨i, payload⟩ w.now).accepted with
    | true => exact h.added hw ha
    | false => exact h.rejected hw ha
  | failed ha hb hm hs => simp [ha] at hc

/-! ## The flush poller -/

theorem RepliesKept.held_delete (h : RepliesKept w) {item : BufferItem Reply}
    (hi : w.flushPoller.item? = some item)
    (hown : (w.buffer.items.lookup item.id).all (fun held => held = item) = true) {i : ℕ}
    {id : String} (hu : w.Unsettled i id) :
    ∃ held, (w.buffer.delete Reply.len item.id).Holds held ∧ held.id = id ∧
      held.data.task = i := by
  obtain ⟨held, hh, rfl, rfl⟩ := h.held i id hu
  refine ⟨held, SizeConstrainedBuffer.holds_delete.mpr ⟨hh, fun heq => ?_⟩, rfl, rfl⟩
  have hlookup := OrderedDict.lookup_eq_some.mpr hh
  rw [heq] at hlookup
  have hsame : held = item := by simpa [hlookup] using hown
  exact h.flushing item hi (hsame ▸ hu)

structure Polls (w : Worker) (b : FlushBlock) : Prop where
  keyed : b.buffer.Keyed
  subset : ∀ item, b.buffer.Holds item → w.buffer.Holds item
  held : ∀ i id, w.Unsettled i id →
    ∃ held, b.buffer.Holds held ∧ held.id = id ∧ held.data.task = i
  marks : ∀ m ∈ b.replies, ∃ i, m = .flushStart i ∨ m = .flushEnd i
  items : ∀ item ∈ b.pc.items, .stored item.data.task item.id ∈ w.replies
  begun : ∀ item, b.pc.item? = some item → .flushStart item.data.task ∈ b.replies

theorem RepliesKept.polls (h : RepliesKept w) {b : FlushBlock} (hb : Polls w b) :
    RepliesKept (w.runFlush b) := by
  have hback : ∀ i id, (w.runFlush b).Unsettled i id →
      (∀ m ∈ b.replies, ¬ settles i id m) ∧ w.Unsettled i id := by
    intro i id hu
    rw [Unsettled, runFlush, since_append] at hu
    refine hu.resolve_left fun hs => ?_
    obtain ⟨j, hj⟩ := hb.marks _ hs.mem
    simp at hj
  have hmem : ∀ m ∈ w.replies, m ∈ (w.runFlush b).replies :=
    fun m hm => List.mem_append_right _ hm
  constructor
  · exact hb.keyed
  · intro i id hm
    rcases List.mem_append.mp hm with hm | hm
    · obtain ⟨j, hj⟩ := hb.marks _ hm
      simp at hj
    · exact h.built i id hm
  · exact fun item hi => hmem _ (h.stored item (hb.subset item hi))
  · exact fun i id hu => hb.held i id (hback i id hu).2
  · exact fun item hi => hmem _ (hb.items item hi)
  · exact fun item hi hu => (hback _ _ hu).1 _ (hb.begun item hi) rfl
  · apply h.each.append
    intro m hm past
    obtain ⟨j, rfl | rfl⟩ := hb.marks m hm <;> trivial

theorem RepliesKept.flush (h : RepliesKept w) (he : e = .flushPoller ∨ e = .flushed)
    (ho : w.endsOwn e = true) {b : FlushBlock} (hb : Flushes w b) : RepliesKept (w.runFlush b) := by
  have hown : ∀ item, w.flushPoller.item? = some item →
      (w.buffer.items.lookup item.id).all (fun held => held = item) = true := by
    intro item hi
    rcases he with rfl | rfl <;> simpa [endsOwn, hi] using ho
  have hnone : b.pc.items = [] → ∀ item, b.pc.item? ≠ some item := by
    intro hnil item hi
    have := FlushPc.mem_items hi
    simp [hnil] at this
  have hdelete : ∀ item : BufferItem Reply, b.buffer = w.buffer.delete Reply.len item.id →
      b.buffer.Keyed ∧ ∀ held, b.buffer.Holds held → w.buffer.Holds held := by
    intro item hb
    rw [hb]
    exact ⟨SizeConstrainedBuffer.keyed_delete h.keyed,
      fun held hh => (SizeConstrainedBuffer.holds_delete.mp hh).1⟩
  apply h.polls
  cases hb with
  | idle hb hm hp =>
    refine ⟨?_, ?_, ?_, by simp [hm], by simp [hp], fun item hi => absurd hi (hnone hp item)⟩
    all_goals rw [hb]
    · exact h.keyed
    · exact fun _ => id
    · exact h.held
  | @begun item seconds hb hm hp hi =>
    refine ⟨?_, ?_, ?_, by simp [hm], ?_, ?_⟩
    · rw [hb]
      exact h.keyed
    · rw [hb]
      exact fun _ => id
    · rw [hb]
      exact h.held
    · intro item hitem
      exact h.stored item (SizeConstrainedBuffer.mem_getOlderThan h.keyed (hi item hitem))
    · intro item' hitem
      obtain rfl := Option.some.inj (hp.symm.trans hitem)
      simp [hm]
  | @ended item hw hb hm hp =>
    obtain ⟨hkeyed, hsubset⟩ := hdelete item hb
    refine ⟨hkeyed, hsubset, ?_, by simp [hm], by simp [hp],
      fun item hi => absurd hi (hnone hp item)⟩
    rw [hb]
    exact fun i id hu => h.held_delete hw (hown item hw) hu
  | @next item item' hw hb hm hp hi =>
    obtain ⟨hkeyed, hsubset⟩ := hdelete item hb
    refine ⟨hkeyed, hsubset, ?_, by simp [hm], fun k hk => h.snapshot k (hi k hk), ?_⟩
    · rw [hb]
      exact fun i id hu => h.held_delete hw (hown item hw) hu
    · intro k hk
      obtain rfl := Option.some.inj (hp.symm.trans hk)
      simp [hm]
  | @dropped item hw hb hm hp =>
    obtain ⟨hkeyed, hsubset⟩ := hdelete item hb
    have hitem : w.flushPoller.item? = some item := by rw [hw]; rfl
    refine ⟨hkeyed, hsubset, ?_, by simp [hm], by simp [hp],
      fun item hi => absurd hi (hnone hp item)⟩
    rw [hb]
    exact fun i id hu => h.held_delete hitem (hown item hitem) hu

theorem repliesKept_step (h : RepliesKept w) (hs : ExecutionStep cfg w e w')
    (hc : keepsReplies cfg e w = true) : RepliesKept w' := by
  simp only [keepsReplies, Bool.and_eq_true, Bool.not_eq_true'] at hc
  cases hs with
  | elsewhere hw =>
    refine h.leaves ⟨tasks_same hw.tasks, hw.buffer, hw.replies, ?_, ?_⟩
    all_goals
      rw [hw.flushPoller]
      exact fun _ => id
  | message hr hx hw => exact h.message hx hw
  | execution he hx hb => exact h.files hc.1 hx hb
  | @removed i x hx hf =>
    have hdone := executionDone_tasks hx
    refine h.leaves ⟨?_, ?_, ?_, ?_, ?_⟩
    · exact tasks_modify (f := fun x => { x with stage := .removed }) (k := i)
        (fun x _ => ⟨rfl, by simp [Stage.early]⟩) hdone.1
    all_goals
      unfold executionDone
    · rfl
    · rfl
    · exact fun _ => id
    · exact fun _ => id
  | leases hb => exact h.leaves ⟨tasks_same rfl, rfl, rfl, fun _ => id, fun _ => id⟩
  | flush he hb => exact h.flush he hc.2 hb
  | sequence hw =>
    refine h.leaves ⟨tasks_same hw.tasks, hw.buffer, hw.replies, ?_, ?_⟩
    · rcases hw.flushPoller with heq | heq
      · rw [heq]
        exact fun _ => id
      · rw [heq]
        exact fun _ => FlushPc.item?_cancel
    · rcases hw.flushPoller with heq | heq
      · rw [heq]
        exact fun _ => id
      · rw [heq]
        exact fun _ => FlushPc.items_cancel

end Worker

open Worker

/-- In a run without internal errors, in which no flush ends on the reply of
another execution, a reply is in the buffer or was too large for it before it
is sent, and what was stored is in the buffer until it is acknowledged, handed
to a flush, evicted, or replaced by a newer reply of the request. -/
theorem reply_buffered_until_settled {cfg : Config} {w : Worker}
    (h : (machine cfg).Reachable (fun e w => keepsReplies cfg e w = true) w) :
    (∀ later past i, w.replies = later ++ .replying i :: past →
      (∃ id, .stored i id ∈ past) ∨ .rejected i ∈ past) ∧
      ∀ later past i id, w.replies = later ++ .stored i id :: past →
        w.InBuffer i id ∨ ∃ m ∈ later, settles i id m := by
  have hk : RepliesKept w := h.invariant repliesKept_initial
    fun e w _ hk he hc => repliesKept_step hk (executionStep cfg he) hc
  refine ⟨fun later past i hw => hk.each.split hw, fun later past i id hw => ?_⟩
  rcases since_split (Q := settles i id) hw with hm | hu
  · exact .inr hm
  · exact .inl (hk.held i id hu)

theorem reply_buffered_until_settled_executed :
    ∃ w : Worker, w.replies = [.replying 0, .stored 0 "a"] ∧ w.InBuffer 0 "a" := by
  have hrun : ∃ w, (machine Sample.config).Reachable
      (fun e w => keepsReplies Sample.config e w = true) w ∧
      w.replies = [.replying 0, .stored 0 "a"] :=
    Machine.exists_reachable (Sample.active ++ [Sample.requested "a" "1"] ++ Sample.executed 0)
      (by decide)
  obtain ⟨w, hw, hr⟩ := hrun
  refine ⟨w, hr, ?_⟩
  rcases (reply_buffered_until_settled hw).2 [.replying 0] [] 0 "a" hr with hb | ⟨m, hm, hs⟩
  · exact hb
  · simp only [List.mem_singleton] at hm
    subst hm
    exact hs.elim

/-- A request is executed again while its first reply is being flushed: the end
of the flush deletes the second reply, which nobody has acknowledged or
flushed. And an internal error is sent without having been stored. -/
theorem reply_lost :
    (∃ w, (machine Sample.config).Reachable Machine.Any w ∧
      w.replies.take 3 = [.flushEnd 0, .replying 1, .stored 1 "a"] ∧
      w.buffer.items.items = []) ∧
    ∃ w, (machine Sample.config).Reachable Machine.Any w ∧ w.replies = [.replying 0] :=
  ⟨Machine.exists_reachable
    (Sample.active ++ [.flushPoller, Sample.requested "a" "1"] ++ Sample.done 0 ++
      [.clock 10, .flushPoller, Sample.requested "a" "2"] ++ Sample.executed 1 ++ [.flushed])
    (by decide +kernel),
  Machine.exists_reachable
    (Sample.active ++ [Sample.requested "a" "1", .execution 0, .executionSent 0 .ok,
      .executionPosted 0 (.error (exception "Exception" "cannot post"))]) (by decide)⟩

end Inngest.Connect
