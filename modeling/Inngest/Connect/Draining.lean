import Inngest.Connect.Counter

/-!
# Shutdown waits for the executions

A close sequence goes on when the counter is zero or has been zero since the
sequence began to wait. It does not wait before the handlers are told to close,
and then no execution is added: a zero that has passed is as good as a present
one.
-/

set_option autoImplicit false

namespace Inngest.Connect
open Errors Transition

def CloseSequence.Drained : CloseSequence → Prop
  | .draining _ _ | .closed => True
  | _ => False

namespace Worker
variable {cfg : Config} {w w' : Worker} {e : Event} {i : ℕ}

def live (w : Worker) : ℕ := w.executions.tasks.countP fun x => x.stage ≠ .removed

def told (w : Worker) (h : Handler) : List ℤ :=
  w.state.pendingRequestCount.queued (.closeSequence h)

structure Guarded (w : Worker) : Prop where
  live : (w.live : ℤ) ≤ w.pendingCount
  closing : ∀ h, w.closeSequence h ≠ .idle → w.executions.closing = true
  queue : ∀ h, (w.state.pendingRequestCount.queues (.closeSequence h)).isSome →
    w.closeSequence h ≠ .idle
  zero : ∀ h, 0 ∈ w.told h → w.live = 0
  drained : ∀ h, (w.closeSequence h).Drained → w.live = 0

theorem guarded_initial : Guarded initial where
  live := by decide
  closing := by simp [initial]
  queue := by simp [initial, State.initial, ValueWatcher.new]
  zero := by simp [told, initial, State.initial, ValueWatcher.new, ValueWatcher.queued]
  drained := by simp [initial, CloseSequence.Drained]

theorem live_congr (h : w'.executions.tasks = w.executions.tasks) : w'.live = w.live := by
  rw [live, h, live]

theorem told_congr (h : State.CountKept w.state w'.state) (k : Handler) : w'.told k = w.told k := by
  rw [told, told, ValueWatcher.queued, ValueWatcher.queued, h.queues]

theorem Guarded.keep (h : Guarded w) (hlive : w'.live = w.live)
    (hclosing : w'.executions.closing = w.executions.closing)
    (hseq : w'.closeSequence = w.closeSequence) (hcount : State.CountKept w.state w'.state) :
    Guarded w' := by
  constructor
  · rw [hlive, pendingCount, hcount.value]
    exact h.live
  · rw [hseq, hclosing]
    exact h.closing
  · intro k hk
    rw [hcount.queues] at hk
    rw [hseq]
    exact h.queue k hk
  · intro k hk
    rw [told_congr hcount] at hk
    rw [hlive, h.zero k hk]
  · intro k hk
    rw [hseq] at hk
    rw [hlive, h.drained k hk]

theorem Guarded.same (h : Guarded w) (hw : SamePending w w') : Guarded w' :=
  h.keep (live_congr (by rw [hw.executions])) (by rw [hw.executions]) hw.sequences hw.count

theorem Guarded.closeHandlers (h : Guarded w) : Guarded w.closeHandlers where
  live := h.live
  closing _ _ := rfl
  queue k hk := by
    have := h.queue k hk
    simp only [Worker.closeHandlers]
    cases hs : w.closeSequence k <;> simp_all
  zero := h.zero
  drained k hk := by
    apply h.drained k
    simp only [Worker.closeHandlers] at hk
    cases hs : w.closeSequence k <;> simp_all [CloseSequence.Drained]

theorem Guarded.mayClose (h : Guarded w) (hw : MayClose w w') : Guarded w' := by
  rcases hw with hw | hw
  · exact h.same hw
  · exact h.closeHandlers.same hw

theorem Guarded.accepted (h : Guarded w) {req : GatewayExecutorRequestData}
    (hw : Accepted cfg w w' req) : Guarded w' := by
  have hclosing := (accepts_eq_some hw.accepts).2
  have hidle : ∀ k, w.closeSequence k = .idle := by
    intro k
    by_contra hk
    simp [h.closing k hk] at hclosing
  obtain ⟨s, hs, hc⟩ := hw.count
  have hqueue : ∀ k,
      (w'.state.pendingRequestCount.queues (.closeSequence k)).isSome = false := by
    intro k
    rw [hc, ValueWatcher.set_queues_isSome, hs.queues, Bool.eq_false_iff]
    intro hk
    exact h.queue k hk (hidle k)
  have hlive : w'.live = w.live + 1 := by
    rw [Worker.live, hw.executions, Executions.add, List.countP_append]
    rfl
  constructor
  · rw [hlive, pendingCount, hc, ValueWatcher.set_value, hs.value]
    have := h.live
    rw [pendingCount] at this
    push_cast
    omega
  · intro k hk
    rw [hw.sequences] at hk
    exact absurd (hidle k) hk
  · intro k hk
    simp [hqueue k] at hk
  · intro k hk
    have := hqueue k
    rw [told, ValueWatcher.queued,
      Option.isSome_eq_false_iff.mp this |> Option.isNone_iff_eq_none.mp] at hk
    simp at hk
  · intro k hk
    rw [hw.sequences, hidle k] at hk
    exact absurd hk id

theorem countP_modify {α : Type} (p : α → Bool) (l : List α) (f : α → α) {x : α}
    (hx : l[i]? = some x) :
    (l.modify i f).countP p + (if p x then 1 else 0) = l.countP p + if p (f x) then 1 else 0 := by
  induction l generalizing i with
  | nil => simp at hx
  | cons y l ih =>
    cases i with
    | zero =>
      obtain rfl := Option.some.inj hx
      simp only [List.modify_zero_cons, List.countP_cons]
      omega
    | succ i =>
      have := ih (i := i) (by simpa using hx)
      simp only [List.modify_succ_cons, List.countP_cons]
      omega

theorem Guarded.changed (h : Guarded w) {f : Execution → Execution} (hw : Changed w w' i f) :
    Guarded w' := by
  apply h.keep _ (by rw [hw.executions]) hw.sequences hw.count
  rw [Worker.live, hw.executions, Worker.live]
  cases hx : w.executions.tasks[i]? with
  | none =>
    congr 1
    apply List.modify_eq_self
    simpa using hx
  | some x =>
    have hst := (hw.keeps x hx).2
    have hcount := countP_modify (fun x : Execution => decide (x.stage ≠ .removed))
      w.executions.tasks f hx
    by_cases hr : x.stage = .removed
    · simpa [hr, hst.mpr hr] using hcount
    · have hr' : (f x).stage ≠ .removed := fun hf => hr (hst.mp hf)
      simpa [hr, hr'] using hcount

theorem executionDone_tasks {x : Execution} (hi : w.executions.tasks[i]? = some x) :
    (w.executionDone i).executions.tasks = (w.executions.setStage i .removed).tasks ∧
      (w.executionDone i).executions.closing = w.executions.closing ∧
      (w.executionDone i).closeSequence = w.closeSequence := by
  unfold executionDone ExecutionState.callback
  rw [hi]
  dsimp only
  split <;> exact ⟨rfl, rfl, rfl⟩

theorem Guarded.removed (h : Guarded w) {x : Execution} (hi : w.executions.tasks[i]? = some x)
    (hx : x.stage = .finished) : Guarded (w.executionDone i) := by
  have htasks := executionDone_tasks hi
  have hlive : (w.executionDone i).live + 1 = w.live := by
    have hcount := countP_modify (fun x : Execution => decide (x.stage ≠ .removed))
      w.executions.tasks (fun e => { e with stage := .removed }) hi
    rw [Worker.live, htasks.1, Worker.live]
    simp only [hx] at hcount
    simpa [Executions.setStage] using hcount
  have hcell : (w.executionDone i).state.pendingRequestCount = w.state.pendingRequestCount ∨
      (w.executionDone i).state.pendingRequestCount =
        w.state.pendingRequestCount.set (w.pendingCount - 1) := by
    unfold executionDone ExecutionState.callback
    rw [hi]
    dsimp only
    split
    · exact .inl rfl
    · exact .inr rfl
  have hnot : ∀ k, 0 ∉ w.told k := fun k hk => by
    have := h.zero k hk
    omega
  have hbefore := h.live
  refine ⟨?_, ?_, ?_, ?_, ?_⟩
  · rcases hcell with hcell | hcell
    · rw [pendingCount, hcell, ← pendingCount]
      omega
    · rw [pendingCount, hcell, ValueWatcher.set_value]
      omega
  · rw [htasks.2.1, htasks.2.2]
    exact h.closing
  · intro k hk
    rw [htasks.2.2]
    apply h.queue k
    rcases hcell with hcell | hcell
    · rwa [hcell] at hk
    · rwa [hcell, ValueWatcher.set_queues_isSome] at hk
  · intro k hk
    rcases hcell with hcell | hcell
    · rw [told, hcell] at hk
      exact absurd hk (hnot k)
    · rw [told, hcell] at hk
      rcases ValueWatcher.mem_queued_set hk with hk | ⟨hzero, -⟩
      · exact absurd hk (hnot k)
      · omega
  · intro k hk
    rw [htasks.2.2] at hk
    have := h.drained k hk
    omega

/-! ## The close sequences -/

theorem cancel_sequences (b : Background) :
    (w.cancel b).closeSequence = w.closeSequence ∧ State.CountKept w.state (w.cancel b).state := by
  refine ⟨by cases b <;> rfl, .of_calm (cancel_calm b) fun k hk => ?_⟩
  cases b <;> simp [Background.task] at hk

theorem drain_sequences (k : Handler) (rest : List Background) :
    (∃ seq, seq.Drained ∧ (w.drain k rest).closeSequence = Function.update w.closeSequence k seq) ∧
      State.CountKept w.state (w.drain k rest).state := by
  cases rest with
  | nil => exact ⟨⟨.closed, trivial, rfl⟩, .refl _⟩
  | cons b rest =>
    obtain ⟨hs, hc⟩ := cancel_sequences (w := w) b
    exact ⟨⟨.draining b rest, trivial, by simp [drain, setSequence, hs]⟩, hc⟩

theorem Guarded.drain (h : Guarded w) {k : Handler} (hk : w.closeSequence k ≠ .idle)
    (hlive : w.live = 0) (rest : List Background) : Guarded (w.drain k rest) := by
  obtain ⟨⟨seq, hseq, hs⟩, hc⟩ := drain_sequences (w := w) k rest
  obtain ⟨hx, hp⟩ := drain_executions (w := w) k rest
  have hlive' : (w.drain k rest).live = 0 := by
    rw [live_congr (congrArg Executions.tasks hx), hlive]
  have hidle : ∀ j, (w.drain k rest).closeSequence j ≠ .idle → w.closeSequence j ≠ .idle := by
    intro j hj
    rw [hs, Function.update_apply] at hj
    split at hj
    · subst j
      exact hk
    · exact hj
  refine ⟨?_, ?_, ?_, ?_, ?_⟩
  · rw [hlive', hp]
    have := h.live
    omega
  · intro j hj
    rw [hx]
    exact h.closing j (hidle j hj)
  · intro j hj
    rw [hc.queues] at hj
    rw [hs, Function.update_apply]
    split
    · rintro rfl
      exact hseq
    · exact h.queue j hj
  · exact fun _ _ => hlive'
  · exact fun _ _ => hlive'

theorem Guarded.release (h : Guarded w) (k : Handler) :
    Guarded { w with state := w.state.release (.closeSequence k) } where
  live := h.live
  closing := h.closing
  queue j hj := by
    apply h.queue j
    simp only [State.release, ValueWatcher.removeQueue_queues] at hj
    split at hj
    · simp at hj
    · exact hj
  zero j hj := by
    apply h.zero j
    simp only [told, State.release, ValueWatcher.queued_removeQueue] at hj
    split at hj
    · simp at hj
    · exact hj
  drained := h.drained

theorem Guarded.wait (h : Guarded w) {k : Handler} (hk : w.closeSequence k = .created) :
    Guarded { w.setSequence k .waiting with
      state := w.state.waitPendingRequestCount (.closeSequence k) } where
  live := h.live
  closing j hj := by
    simp only [setSequence, Function.update_apply] at hj
    split at hj
    · subst j
      exact h.closing k (by simp [hk])
    · exact h.closing j hj
  queue j hj := by
    simp only [setSequence, Function.update_apply]
    split
    · simp
    · rename_i hne
      apply h.queue j
      simpa [State.waitPendingRequestCount, hne] using hj
  zero j hj := by
    apply h.zero j
    simp only [told, State.waitPendingRequestCount, ValueWatcher.queued_watch] at hj
    split at hj
    · simp at hj
    · exact hj
  drained j hj := by
    simp only [setSequence, Function.update_apply] at hj
    split at hj
    · exact absurd hj id
    · exact h.drained j hj

theorem Guarded.resume (h : Guarded w) {k : Handler} (hready : w.sequenceResumable k = true) :
    Guarded (w.resumeSequence k) := by
  unfold resumeSequence
  cases hs : w.closeSequence k with
  | idle | closed => exact h
  | created =>
    dsimp only
    split
    · rename_i hzero
      refine h.drain (by simp [hs]) ?_ _
      have := h.live
      rw [pendingCount, hzero] at this
      omega
    · exact h.wait hs
  | waiting =>
    rw [sequenceResumable, hs] at hready
    obtain ⟨v, hv⟩ := Option.isSome_iff_exists.mp hready
    obtain ⟨hmem, hzero⟩ := ValueWatcher.woken_mem hv
    obtain rfl := of_decide_eq_true hzero
    exact (h.release k).drain (by simp [hs]) (h.zero k hmem) _
  | draining b rest =>
    exact h.drain (by simp [hs]) (h.drained k (by simp [hs, CloseSequence.Drained])) _

theorem guarded_step (h : Guarded w) (he : enabled e w = true) : Guarded (effect cfg e w) := by
  cases hs : pendingStep cfg he with
  | quiet hq => exact h.mayClose hq
  | accepted hr ha => exact h.accepted ha
  | changed hc => exact h.changed hc
  | removed hi hx => exact h.removed hi hx
  | sequence k =>
    apply h.resume
    simp only [enabled, Bool.and_eq_true] at he
    exact he.1

variable (cfg) in
theorem closing_step (h : w.executions.closing = true) (he : enabled e w = true) :
    (effect cfg e w).executions.closing = true ∧
      (effect cfg e w).executions.tasks.length = w.executions.tasks.length := by
  cases pendingStep cfg he with
  | quiet hq =>
    rcases hq with hq | hq
    · rw [hq.executions]
      exact ⟨h, rfl⟩
    · rw [hq.executions]
      exact ⟨rfl, rfl⟩
  | accepted hr ha =>
    rw [(accepts_eq_some ha.accepts).2] at h
    simp at h
  | changed hc =>
    rw [hc.executions]
    exact ⟨h, by simp⟩
  | @removed i x hi hx =>
    obtain ⟨ht, hc, -⟩ := executionDone_tasks hi
    change (w.executionDone i).executions.closing = _ ∧
      (w.executionDone i).executions.tasks.length = _
    rw [ht, hc]
    exact ⟨h, by simp [Executions.setStage]⟩
  | sequence k =>
    have hx := (resumeSequence_executions (w := w) k).1
    change (w.resumeSequence k).executions.closing = _ ∧
      (w.resumeSequence k).executions.tasks.length = _
    rw [hx]
    exact ⟨h, rfl⟩

end Worker

open Worker

theorem guarded_reachable {cfg : Config} {w : Worker}
    (h : (machine cfg).Reachable Machine.Any w) : Guarded w :=
  h.invariant guarded_initial fun _ _ _ hg he _ => guarded_step hg he

/-- When a handler has begun `after_close_drained`, every accepted execution is
over and its callback has run, and no request is accepted afterwards. -/
theorem drained_after_executions {cfg : Config} {w : Worker}
    (h : (machine cfg).Reachable Machine.Any w) {k : Handler}
    (hk : (w.closeSequence k).Drained) :
    (∀ x ∈ w.executions.tasks, x.stage = .removed) ∧
      ∀ w', (machine cfg).Run Machine.Any w w' →
        w'.executions.tasks.length = w.executions.tasks.length := by
  have hg := guarded_reachable h
  have hidle : w.closeSequence k ≠ .idle := by
    intro hi
    rw [hi] at hk
    exact hk
  refine ⟨?_, fun w' hrun => ?_⟩
  · intro x hx
    have hzero := List.countP_eq_zero.mp (hg.drained k hk) x hx
    simpa using hzero
  · refine (hrun.keeps (P := fun v => v.executions.closing = true ∧
      v.executions.tasks.length = w.executions.tasks.length) h ⟨hg.closing k hidle, rfl⟩ ?_).2
    rintro e v - ⟨hc, hl⟩ he -
    obtain ⟨hc', hl'⟩ := closing_step cfg hc he
    exact ⟨hc', hl'.trans hl⟩

theorem drained_after_executions_closed :
    ∃ w : Worker, w.executions.tasks.length = 1 ∧
      w.closeSequence .heartbeat = .draining .heartbeatSender [] ∧
      (∀ x ∈ w.executions.tasks, x.stage = .removed) ∧
      ∀ w', (machine Sample.config).Run Machine.Any w w' →
        w'.executions.tasks.length = w.executions.tasks.length := by
  have hrun : ∃ w, (machine Sample.config).Reachable Machine.Any w ∧
      w.executions.tasks.length = 1 ∧
      w.closeSequence .heartbeat = .draining .heartbeatSender [] :=
    Machine.exists_reachable (Sample.active ++ [Sample.requested "a" "1"] ++ Sample.closing ++
      Sample.done 0 ++ [.closeSequence .heartbeat]) (by decide)
  obtain ⟨w, hw, hl, hc⟩ := hrun
  exact ⟨w, hl, hc, drained_after_executions hw (k := .heartbeat) (by rw [hc]; trivial)⟩

end Inngest.Connect
