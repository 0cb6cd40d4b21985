import Inngest.Connect.Pending

/-!
# The pending-request counter

Runs in which no request is accepted while its id is pending keep the counter,
the pending map and the execution tasks in step. A repeated id breaks them
apart for good.
-/

set_option autoImplicit false

namespace Inngest.Connect
open Errors Transition

namespace Worker
variable {cfg : Config} {w w' : Worker} {e : Event} {i : ℕ}

/-- A request that the step would accept has an id that is not pending. -/
def distinct (cfg : Config) (e : Event) (w : Worker) : Bool :=
  ((read e w).bind (w.executions.accepts cfg)).all fun req =>
    (w.executions.pending.lookup req.requestId).isNone

def pendingCount (w : Worker) : ℤ := w.state.pendingRequestCount.value

structure Tracked (w : Worker) : Prop where
  count : w.pendingCount = w.executions.pending.size
  entry : ∀ id i, w.executions.pending.lookup id = some i →
    ∃ x, w.executions.tasks[i]? = some x ∧ x.req.requestId = id ∧ x.stage ≠ .removed
  task : ∀ i x, w.executions.tasks[i]? = some x → x.stage ≠ .removed →
    w.executions.pending.lookup x.req.requestId = some i

theorem Tracked.congr (h : Tracked w) (ht : w'.executions.tasks = w.executions.tasks)
    (hp : w'.executions.pending = w.executions.pending) (hc : w'.pendingCount = w.pendingCount) :
    Tracked w' where
  count := by rw [hc, hp, h.count]
  entry := by rw [hp, ht]; exact h.entry
  task := by rw [hp, ht]; exact h.task

theorem tracked_initial : Tracked initial where
  count := rfl
  entry := by simp [initial, Executions.initial]
  task := by simp [initial, Executions.initial]

theorem Tracked.mayClose (h : Tracked w) (hw : MayClose w w') : Tracked w' := by
  rcases hw with hw | hw
  · exact h.congr (by rw [hw.executions]) (by rw [hw.executions]) hw.count.value
  · exact h.congr (by rw [hw.executions]; rfl) (by rw [hw.executions]; rfl) hw.count.value

theorem Tracked.accepted (h : Tracked w) {req : GatewayExecutorRequestData}
    (hw : Accepted cfg w w' req) (hnew : w.executions.pending.lookup req.requestId = none) :
    Tracked w' where
  count := by
    obtain ⟨s, hs, hc⟩ := hw.count
    rw [pendingCount, hc, ValueWatcher.set_value, hs.value, hw.executions, Executions.add,
      OrderedDict.size_put_new hnew]
    push_cast
    rw [← h.count, pendingCount]
  entry id j hj := by
    rw [hw.executions, Executions.add] at hj ⊢
    simp only [OrderedDict.lookup_put] at hj
    split at hj
    · obtain rfl := Option.some.inj hj
      exact ⟨⟨req, .created, false⟩, by simp, Eq.symm ‹_›, by simp⟩
    · obtain ⟨x, hx, hid, hr⟩ := h.entry id j hj
      have hlt := (List.getElem?_eq_some_iff.mp hx).1
      exact ⟨x, by rw [List.getElem?_append_left hlt, hx], hid, hr⟩
  task j x hx hr := by
    rw [hw.executions, Executions.add] at hx ⊢
    simp only [OrderedDict.lookup_put]
    by_cases hj : j < w.executions.tasks.length
    · rw [List.getElem?_append_left hj] at hx
      have hl := h.task j x hx hr
      have hne : x.req.requestId ≠ req.requestId := by
        intro heq
        simp [heq, hnew] at hl
      rw [if_neg hne, hl]
    · rw [List.getElem?_append_right (by omega), List.getElem?_singleton] at hx
      split at hx
      · obtain rfl := Option.some.inj hx
        have : j = w.executions.tasks.length := by omega
        rw [if_pos rfl, this]
      · simp at hx

theorem Tracked.changed (h : Tracked w) {f : Execution → Execution} (hw : Changed w w' i f) :
    Tracked w' where
  count := by
    rw [pendingCount, hw.count.value, hw.executions]
    exact h.count
  entry id j hj := by
    rw [hw.executions] at hj ⊢
    obtain ⟨x, hx, hid, hr⟩ := h.entry id j hj
    refine ⟨_, get_modify f hx, ?_⟩
    split
    · subst j
      obtain ⟨hreq, hst⟩ := hw.keeps x hx
      exact ⟨hreq.trans hid, fun hf => hr (hst.mp hf)⟩
    · exact ⟨hid, hr⟩
  task j x hx hr := by
    rw [hw.executions] at hx ⊢
    by_cases hij : i = j
    · subst hij
      rw [List.getElem?_modify_eq] at hx
      obtain ⟨y, hy, rfl⟩ := Option.map_eq_some_iff.mp hx
      obtain ⟨hreq, hst⟩ := hw.keeps y hy
      rw [hreq]
      exact h.task i y hy fun hf => hr (hst.mpr hf)
    · rw [List.getElem?_modify_ne _ _ hij] at hx
      exact h.task j x hx hr

theorem Tracked.removed (h : Tracked w) {x : Execution} (hi : w.executions.tasks[i]? = some x)
    (hx : x.stage = .finished) : Tracked (w.executionDone i) := by
  have hl := h.task i x hi (by simp [hx])
  have hexec : (w.executionDone i).executions =
      { w.executions.setStage i .removed with
        pending := w.executions.pending.erase x.req.requestId } := by
    simp [executionDone, ExecutionState.callback, hi, hl, Executions.setStage]
  have hcount : (w.executionDone i).pendingCount = w.pendingCount - 1 := by
    simp [pendingCount, executionDone, ExecutionState.callback, hi, hl]
  refine ⟨?_, ?_, ?_⟩
  · have := OrderedDict.size_erase_some hl
    rw [hcount, hexec, h.count]
    simp only
    omega
  · intro id j hj
    rw [hexec] at hj ⊢
    simp only [OrderedDict.lookup_erase] at hj
    split at hj
    · simp at hj
    · rename_i hid
      obtain ⟨y, hy, rfl, hr⟩ := h.entry id j hj
      have hij : i ≠ j := by
        rintro rfl
        obtain rfl := Option.some.inj (hi.symm.trans hy)
        exact hid rfl
      exact ⟨y, by rw [Executions.setStage, List.getElem?_modify_ne _ _ hij, hy], rfl, hr⟩
  · intro j y hy hr
    rw [hexec] at hy ⊢
    simp only [Executions.setStage] at hy
    by_cases hij : i = j
    · subst hij
      rw [List.getElem?_modify_eq] at hy
      obtain ⟨z, -, rfl⟩ := Option.map_eq_some_iff.mp hy
      simp at hr
    · rw [List.getElem?_modify_ne _ _ hij] at hy
      have hlj := h.task j y hy hr
      have hne : y.req.requestId ≠ x.req.requestId := by
        intro heq
        rw [heq, hl] at hlj
        exact hij (Option.some.inj hlj)
      rw [OrderedDict.lookup_erase, if_neg hne, hlj]

theorem cancel_executions (b : Background) :
    (w.cancel b).executions = w.executions ∧ (w.cancel b).pendingCount = w.pendingCount := by
  cases b <;> exact ⟨rfl, rfl⟩

theorem drain_executions (h : Handler) (rest : List Background) :
    (w.drain h rest).executions = w.executions ∧
      (w.drain h rest).pendingCount = w.pendingCount := by
  cases rest with
  | nil => exact ⟨rfl, rfl⟩
  | cons b rest => exact cancel_executions b

theorem resumeSequence_executions (h : Handler) :
    (w.resumeSequence h).executions = w.executions ∧
      (w.resumeSequence h).pendingCount = w.pendingCount := by
  unfold resumeSequence
  split
  · split
    · exact drain_executions _ _
    · exact ⟨rfl, rfl⟩
  · exact drain_executions _ _
  · exact drain_executions _ _
  · exact ⟨rfl, rfl⟩

theorem tracked_step (h : Tracked w) (he : enabled e w = true) (hd : distinct cfg e w = true) :
    Tracked (effect cfg e w) := by
  cases pendingStep cfg he with
  | quiet hq => exact h.mayClose hq
  | accepted hr ha =>
    apply h.accepted ha
    simpa [distinct, hr, ha.accepts] using hd
  | changed hc => exact h.changed hc
  | removed hi hx => exact h.removed hi hx
  | sequence k =>
    obtain ⟨hx, hc⟩ := resumeSequence_executions (w := w) k
    exact h.congr (congrArg Executions.tasks hx) (congrArg Executions.pending hx) hc

end Worker

open Worker

theorem tracked_reachable {cfg : Config} {w : Worker}
    (h : (machine cfg).Reachable (fun e w => distinct cfg e w = true) w) : Tracked w :=
  h.invariant tracked_initial fun _ _ _ ht he hd => tracked_step ht he hd

/-- In a run without repeated ids the counter is the size of the pending map,
which has every unfinished execution under its id; when all executions are over
and their callbacks have run, the counter is zero. -/
theorem pending_count_tracks {cfg : Config} {w : Worker}
    (h : (machine cfg).Reachable (fun e w => distinct cfg e w = true) w) :
    w.pendingCount = w.executions.pending.size ∧
      (∀ i x, w.executions.tasks[i]? = some x → x.stage.done = false →
        w.executions.pending.lookup x.req.requestId = some i) ∧
      ((∀ x ∈ w.executions.tasks, x.stage = .removed) → w.pendingCount = 0) := by
  have ht := tracked_reachable h
  refine ⟨ht.count, ?_, ?_⟩
  · intro i x hx hdone
    exact ht.task i x hx fun hr => by simp [hr, Stage.done] at hdone
  · intro hall
    rw [ht.count, Nat.cast_eq_zero, OrderedDict.size_eq_zero, List.eq_nil_iff_forall_not_mem]
    intro e he
    obtain ⟨x, hx, -, hr⟩ := ht.entry e.1 e.2 (OrderedDict.lookup_eq_some.mpr he)
    exact hr (hall x (List.mem_of_getElem? hx))

theorem pending_count_tracks_active :
    ∃ w : Worker, w.pendingCount = 1 ∧ w.pendingCount = w.executions.pending.size ∧
      (∀ i x, w.executions.tasks[i]? = some x → x.stage.done = false →
        w.executions.pending.lookup x.req.requestId = some i) ∧
      ((∀ x ∈ w.executions.tasks, x.stage = .removed) → w.pendingCount = 0) := by
  have hrun : ∃ w, (machine Sample.config).Reachable
      (fun e w => distinct Sample.config e w = true) w ∧ w.pendingCount = 1 :=
    Machine.exists_reachable (Sample.active ++
      [Sample.requested "a" "1", Sample.requested "b" "2"] ++ Sample.done 0) (by decide)
  obtain ⟨w, hw, hc⟩ := hrun
  exact ⟨w, hc, pending_count_tracks hw⟩

/-- The same request twice while it runs: in the end nothing is pending and the
counter is one. -/
theorem pending_count_drifts :
    ∃ w, (machine Sample.config).Reachable Machine.Any w ∧
      (∀ x ∈ w.executions.tasks, x.stage = .removed) ∧ w.executions.pending.size = 0 ∧
      w.pendingCount = 1 :=
  Machine.exists_reachable (Sample.active ++
    [Sample.requested "a" "1", Sample.requested "a" "2"] ++ Sample.done 0 ++ Sample.done 1)
    (by decide)

end Inngest.Connect
