import Inngest.Connect.Draining
import Inngest.Connect.ExecutionSteps

/-!
# What is left of the replies when the execution handler is closed

Closing the handler cancels the flush poller and leaves the buffer as it is.
Every reply has been acknowledged or flushed if the buffer is empty then and
has lost none of its replies before: to a newer one of the same request, to
the end of another's flush, or to a flush that was cut short.
-/

set_option autoImplicit false

namespace Inngest.Connect
open Errors Transition

/-- The reply of the task `i`, stored under `id`, is acknowledged, flushed, or
evicted. -/
def delivers (i : ℕ) (id : String) : ReplyMark → Prop
  | .acked id' => id' = id
  | .flushEnd j => j = i
  | .evicted j => j = i
  | _ => False

namespace Worker
variable {cfg : Config} {w w' : Worker} {e : Event}

def holdsId (w : Worker) (id : String) : Bool := (w.buffer.items.lookup id).isSome

def replaces (cfg : Config) (e : Event) (w : Worker) : Bool :=
  (e.execution?.bind fun i => w.executions.tasks[i]?).any fun x =>
    (payload? cfg x.req (w.answer e)).any fun payload =>
      payload.length ≤ w.buffer.maxSizeBytes && w.holdsId x.req.requestId

/-- A flush ends on another reply than its own, or is cut short before its
reply has left the buffer. -/
def drops (e : Event) (w : Worker) : Bool :=
  match e, w.flushPoller with
  | .flushPoller, .interrupted item | .flushed, .interrupted item => w.holdsId item.id
  | .flushPoller, .flushing _ item _ | .flushed, .flushing _ item _ =>
    (w.buffer.items.lookup item.id).any fun held => held ≠ item
  | _, _ => false

def abandons (e : Event) (w : Worker) : Bool :=
  match e, w.closeSequence .execution with
  | .closeSequence .execution, .draining _ [] => w.buffer.items.size ≠ 0
  | _, _ => false

def flushesAll (cfg : Config) (e : Event) (w : Worker) : Bool :=
  !w.replaces cfg e && !w.drops e && !w.abandons e

structure FlushKept (w : Worker) : Prop where
  keyed : w.buffer.Keyed
  held : ∀ i id, Since (delivers i id) (.stored i id) w.replies →
    ∃ item, w.buffer.Holds item ∧ item.id = id ∧ item.data.task = i
  closed : w.closed .execution = true → w.buffer.items.items = []

theorem flushKept_initial : FlushKept initial where
  keyed := SizeConstrainedBuffer.keyed_empty _
  held i id h := h.elim
  closed h := by simp [closed, initial] at h

theorem FlushKept.same (h : FlushKept w) (hb : w'.buffer = w.buffer)
    (hr : w'.replies = w.replies)
    (hc : w'.closed .execution = true → w.closed .execution = true) : FlushKept w' where
  keyed := by rw [hb]; exact h.keyed
  held := by rw [hb, hr]; exact h.held
  closed hcl := by rw [hb]; exact h.closed (hc hcl)

theorem FlushKept.delete (h : FlushKept w) {id : String} (marks : List ReplyMark)
    (hb : w'.buffer = w.buffer.delete Reply.len id) (hr : w'.replies = marks ++ w.replies)
    (hmarks : ∀ i id, .stored i id ∉ marks)
    (hown : ∀ item, w.buffer.Holds item → item.id = id →
      ∃ m ∈ marks, delivers item.data.task id m)
    (hc : w'.closed .execution = true → w.closed .execution = true) : FlushKept w' where
  keyed := by rw [hb]; exact SizeConstrainedBuffer.keyed_delete h.keyed
  held i id' hs := by
    rw [hr, since_append] at hs
    obtain ⟨hnot, hs⟩ := hs.resolve_left fun hs => hmarks _ _ hs.mem
    obtain ⟨item, hi, rfl, rfl⟩ := h.held i id' hs
    refine ⟨item, ?_, rfl, rfl⟩
    rw [hb]
    refine SizeConstrainedBuffer.holds_delete.mpr ⟨hi, ?_⟩
    rintro rfl
    obtain ⟨m, hm, hd⟩ := hown item hi rfl
    exact hnot m hm hd
  closed hcl := by
    rw [hb, List.eq_nil_iff_forall_not_mem]
    intro x hx
    have hold := (SizeConstrainedBuffer.mem_delete.mp hx).1
    rw [h.closed (hc hcl)] at hold
    simp at hold

theorem FlushKept.marks (h : FlushKept w) (marks : List ReplyMark) (hb : w'.buffer = w.buffer)
    (hr : w'.replies = marks ++ w.replies) (hmarks : ∀ i id, .stored i id ∉ marks)
    (hc : w'.closed .execution = true → w.closed .execution = true) : FlushKept w' where
  keyed := by rw [hb]; exact h.keyed
  held i id hs := by
    rw [hr, since_append] at hs
    rw [hb]
    exact h.held i id (hs.resolve_left fun hs => hmarks _ _ hs.mem).2
  closed hcl := by rw [hb]; exact h.closed (hc hcl)

theorem FlushKept.files (h : FlushKept w) {i : ℕ} {x : Execution} {b : ExecutionBlock}
    (hopen : x.stage.early = true → w.closed .execution = false) (he : e.execution? = some i)
    (hc : w.replaces cfg e = false) (hx : w.executions.tasks[i]? = some x)
    (hb : Files cfg i x w.now w.buffer (answer e w) b) : FlushKept (w.runExecution i b) := by
  have hstill : (w.runExecution i b).closed .execution = true → w.closed .execution = true := id
  cases hb with
  | nothing hb hm hs => exact h.same hb (by simp [runExecution, hm]) hstill
  | failed ha hb hm hs =>
    exact h.marks [.replying i] hb (by simp [runExecution, hm]) (by simp) hstill
  | @stored payload hearly hp hb hm hs =>
    set added := w.buffer.add Reply.len x.req.requestId ⟨i, payload⟩ w.now with hadded
    have hr : (w.runExecution i b).replies =
        .replying i :: (ExecuteRequest.storeMarks i x.req added ++ w.replies) := by
      simp [runExecution, hm]
    cases ha : added.accepted with
    | false =>
      refine h.marks [.replying i, .rejected i] ?_ ?_ (by simp) hstill
      · exact hb.trans (SizeConstrainedBuffer.add_rejected ha).1
      · rw [hr, ExecuteRequest.storeMarks, ha]
        rfl
    | true =>
      have hfits := SizeConstrainedBuffer.add_accepted ha
      have hnew : ∀ item, w.buffer.Holds item → item.id ≠ x.req.requestId := by
        intro item hi heq
        have hholds : w.holdsId x.req.requestId = true := by
          rw [holdsId, ← heq, OrderedDict.lookup_eq_some.mpr hi]
          rfl
        have hfits : payload.length ≤ w.buffer.maxSizeBytes := hfits
        simp [replaces, he, hx, hp, hholds, hfits] at hc
      rw [ExecuteRequest.storeMarks_accepted ha] at hr
      constructor
      · change b.buffer.Keyed
        rw [hb]
        exact SizeConstrainedBuffer.keyed_add h.keyed
      · intro j id hs
        change ∃ item, b.buffer.Holds item ∧ _
        rw [hb]
        rw [hr] at hs
        rcases ExecuteRequest.since_stored hs with ⟨rfl, rfl⟩ | ⟨-, hev, hs⟩
        · exact ⟨_, SizeConstrainedBuffer.holds_added ha, rfl, rfl⟩
        · obtain ⟨item, hi, rfl, rfl⟩ := h.held j id hs
          rcases SizeConstrainedBuffer.holds_add hi (hnew item hi) with hi | hi
          · exact ⟨item, hi, rfl, rfl⟩
          · exact absurd rfl (hev item hi)
      · intro hcl
        have hfalse := hopen hearly
        rw [hstill hcl] at hfalse
        simp at hfalse

theorem held_of_drops (he : e = .flushPoller ∨ e = .flushed) (hd : w.drops e = false)
    {item held : BufferItem Reply} (hi : w.flushPoller.item? = some item)
    (hh : w.buffer.Holds held) (hid : held.id = item.id) :
    held = item ∧ w.flushPoller ≠ .interrupted item := by
  have hlookup := OrderedDict.lookup_eq_some.mpr hh
  rw [hid] at hlookup
  cases hpc : w.flushPoller with
  | flushing ttl k rest =>
    obtain rfl : k = item := by simpa [hpc, FlushPc.item?] using hi
    refine ⟨?_, by simp⟩
    rcases he with rfl | rfl <;> simpa [drops, hpc, hlookup] using hd
  | interrupted k =>
    obtain rfl : k = item := by simpa [hpc, FlushPc.item?] using hi
    rcases he with rfl | rfl <;> simp [drops, hpc, holdsId, hlookup] at hd
  | created | waitingInterval | sleeping ttl | stopped => simp [hpc, FlushPc.item?] at hi

theorem FlushKept.flush (h : FlushKept w) (he : e = .flushPoller ∨ e = .flushed)
    (hd : w.drops e = false) {b : FlushBlock} (hb : Flushes w b) : FlushKept (w.runFlush b) := by
  have hstill : (w.runFlush b).closed .execution = true → w.closed .execution = true := id
  have hr : (w.runFlush b).replies = b.replies ++ w.replies := rfl
  cases hb with
  | idle hb hm hp => exact h.same hb (by rw [hr, hm]; rfl) hstill
  | begun hb hm hp hi => exact h.marks _ hb hr (by simp [hm]) hstill
  | ended hw hb hm hp =>
    refine h.delete _ hb hr (by simp [hm]) (fun held hh hid => ?_) hstill
    obtain ⟨rfl, -⟩ := held_of_drops he hd hw hh hid
    exact ⟨.flushEnd held.data.task, by rw [hm]; exact .head _, rfl⟩
  | next hw hb hm hp hi =>
    refine h.delete _ hb hr (by simp [hm]) (fun held hh hid => ?_) hstill
    obtain ⟨rfl, -⟩ := held_of_drops he hd hw hh hid
    exact ⟨.flushEnd held.data.task, by rw [hm]; exact .tail _ (.head _), rfl⟩
  | dropped hw hb hm hp =>
    refine h.delete _ hb hr (by simp [hm]) (fun held hh hid => ?_) hstill
    exact absurd hw (held_of_drops he hd (by rw [hw]; rfl) hh hid).2

theorem FlushKept.message (h : FlushKept w) {msg : GatewayMessage} {s : State}
    {x : ExecutionState}
    (hx : ExecutionState.Handles cfg ⟨s, w.executions, w.buffer, w.leases, w.replies⟩ msg x)
    (hw : Shows w w' x) : FlushKept w' := by
  have hstill : w'.closed .execution = true → w.closed .execution = true := by
    rw [Worker.closed, Worker.closed, hw.sequences]
    exact id
  cases hx with
  | nothing | accepted ha | renewed hi hl hne | nacked hi hl =>
    exact h.same hw.buffer hw.replies hstill
  | @acked data =>
    refine h.delete [.acked data.requestId] hw.buffer hw.replies (by simp) ?_ hstill
    exact fun item _ _ => ⟨_, .head _, rfl⟩

theorem open_of_early {i : ℕ} {x : Execution} (hg : Guarded w)
    (hx : w.executions.tasks[i]? = some x) (hearly : x.stage.early = true) :
    w.closed .execution = false := by
  rw [Bool.eq_false_iff]
  intro hc
  have hdrained : (w.closeSequence .execution).Drained := by
    rw [of_decide_eq_true hc]
    trivial
  have hzero := List.countP_eq_zero.mp (hg.drained .execution hdrained) x
    (List.mem_of_getElem? hx)
  simp only [ne_eq, decide_not, Bool.not_eq_eq_eq_not, Bool.not_true, decide_eq_false_iff_not,
    not_not] at hzero
  simp [hzero, Stage.early] at hearly

theorem flushKept_step (h : FlushKept w) (hg : Guarded w) (hs : ExecutionStep cfg w e w')
    (hc : flushesAll cfg e w = true) : FlushKept w' := by
  simp only [flushesAll, Bool.and_eq_true, Bool.not_eq_true'] at hc
  obtain ⟨⟨hreplaces, hdrops⟩, habandons⟩ := hc
  cases hs with
  | elsewhere hw => exact h.same hw.buffer hw.replies hw.closed
  | message hr hx hw => exact h.message hx hw
  | execution he hx hb => exact h.files (open_of_early hg hx) he hreplaces hx hb
  | @removed i x hx hf =>
    have hb : (w.executionDone i).buffer = w.buffer := rfl
    have hr : (w.executionDone i).replies = w.replies := rfl
    apply h.same hb hr
    rw [closed, (executionDone_tasks hx).2.2]
    exact id
  | leases hb => exact h.same rfl rfl id
  | flush he hb => exact h.flush he hdrops hb
  | @sequence k _ hw =>
    constructor
    · rw [hw.buffer]
      exact h.keyed
    · rw [hw.buffer, hw.replies]
      exact h.held
    · intro hclosed
      rw [hw.buffer]
      rcases hw.closed hclosed with hold | ⟨rfl, b, hseq⟩
      · exact h.closed hold
      · apply OrderedDict.size_eq_zero.mp
        simpa [abandons, hseq] using habandons

end Worker

open Worker

/-- In a run in which no reply leaves the buffer unsettled and the buffer is
empty when the execution handler is closed, every reply that was stored has
then been acknowledged, flushed or evicted. -/
theorem replies_flushed_at_close {cfg : Config} {w : Worker}
    (h : (machine cfg).Reachable (fun e w => flushesAll cfg e w = true) w)
    (hc : w.closed .execution = true) {later past : List ReplyMark} {i : ℕ} {id : String}
    (hw : w.replies = later ++ .stored i id :: past) : ∃ m ∈ later, delivers i id m := by
  have hk : FlushKept w ∧ Guarded w := by
    apply h.invariant (P := fun w => FlushKept w ∧ Guarded w)
    · exact ⟨flushKept_initial, guarded_initial⟩
    · rintro e w - ⟨hk, hg⟩ he ho
      exact ⟨flushKept_step hk hg (executionStep cfg he) ho, guarded_step hg he⟩
  rcases since_split (Q := delivers i id) hw with hm | hs
  · exact hm
  · obtain ⟨item, hi, -⟩ := hk.1.held i id hs
    rw [SizeConstrainedBuffer.Holds, hk.1.closed hc] at hi
    simp at hi

namespace Sample

def replied : List Event := active ++ [requested "a" "1"] ++ done 0

def closed : List Event := closing ++ drained ++ [.closeFinished 0]

end Sample

theorem replies_flushed_at_close_acked :
    ∃ w : Worker, w.closed .execution = true ∧
      w.replies = [.acked "a", .replying 0, .stored 0 "a"] ∧
      ∃ m ∈ [.acked "a", .replying 0], delivers 0 "a" m := by
  have hrun : ∃ w, (machine Sample.config).Reachable
      (fun e w => flushesAll Sample.config e w = true) w ∧ w.closed .execution = true ∧
      w.replies = [.acked "a", .replying 0, .stored 0 "a"] :=
    Machine.exists_reachable (Sample.replied ++
      [Sample.message (.replyAck (.ok ⟨"a"⟩))] ++ Sample.closed) (by decide)
  obtain ⟨w, hw, hc, hr⟩ := hrun
  have hsplit : w.replies = [.acked "a", .replying 0] ++ .stored 0 "a" :: [] := hr
  exact ⟨w, hc, hr, replies_flushed_at_close hw hc hsplit⟩

/-- A reply that is sent and not acknowledged: the shutdown cancels the flush
poller, and the reply stays in the buffer of a closed handler. -/
theorem reply_abandoned :
    ∃ w, (machine Sample.config).Reachable Machine.Any w ∧ w.closed .execution = true ∧
      w.replies = [.replying 0, .stored 0 "a"] ∧ w.buffer.items.size = 1 :=
  Machine.exists_reachable (Sample.replied ++ Sample.closed) (by decide)

end Inngest.Connect
