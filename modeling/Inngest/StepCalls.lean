import Mathlib.Data.List.FinRange
import Inngest.GroupResults

/-!
# The step calls of a body

Which step IDs a body can use, at which places, and what any run of it does to
the counter: each call takes the next number of its ID, in a place of its own,
and nothing else touches the counter.
-/

set_option autoImplicit false

namespace Inngest.StepCalls
open ServerLib Errors StepLib Effect Engine History

def callOf : Mark → Option (List ℕ × String)
  | .parsed at_ id _ => some (at_, id)
  | _ => none

def calls (l : List Mark) : List (List ℕ × String) := l.filterMap callOf

section Append
variable (m : Mark) (l l' : List Mark)

@[simp] theorem calls_nil : calls [] = [] := rfl

@[simp] theorem calls_cons : calls (m :: l) = (callOf m).toList ++ calls l := by
  cases h : callOf m <;> simp [calls, h]

@[simp] theorem calls_append : calls (l ++ l') = calls l ++ calls l' := List.filterMap_append

end Append

variable {σ : Type}

/-! ## The IDs of a body -/

/-- The body can call a step with this ID. -/
def Uses : Body σ → String → Prop
  | .ret _, _ => False
  | .raise _, _ => False
  | .code _ k, u => ∃ s, Uses (k s) u
  | .look _ _ b, u => Uses b u
  | .log _ _ b, u => Uses b u
  | .site _ b, u => Uses b u
  | .run stepId _ handler k, u => u = stepId ∨ Uses handler u ∨ ∃ x, Uses (k x) u
  | .call c k, u => u = c.stepId ∨ ∃ x, Uses (k x) u
  | .parallel _ callables _ k, u => (∃ i, Uses (callables i) u) ∨ ∃ x, Uses (k x) u

/-- The body can call a step with this ID after its first call. -/
def UsesLater : Body σ → String → Prop
  | .ret _, _ => False
  | .raise _, _ => False
  | .code _ k, u => ∃ s, UsesLater (k s) u
  | .look _ _ b, u => UsesLater b u
  | .log _ _ b, u => UsesLater b u
  | .site _ b, u => UsesLater b u
  | .run _ _ handler k, u => Uses handler u ∨ ∃ x, Uses (k x) u
  | .call _ k, u => ∃ x, Uses (k x) u
  | .parallel _ callables _ k, u => (∃ i, UsesLater (callables i) u) ∨ ∃ x, Uses (k x) u

open Scope (nextPlace sitePlace)

/-- The body, come to the place `p`, can call a step with the ID `u` at the
place `q`. -/
def CallsAt : Body σ → List ℕ → List ℕ → String → Prop
  | .ret _, _, _, _ => False
  | .raise _, _, _, _ => False
  | .code _ k, p, q, u => ∃ s, CallsAt (k s) p q u
  | .look _ _ b, p, q, u => CallsAt b p q u
  | .log _ _ b, p, q, u => CallsAt b p q u
  | .site n b, p, q, u => CallsAt b (sitePlace n p) q u
  | .run stepId _ handler k, p, q, u =>
    (q = p ∧ u = stepId) ∨ CallsAt handler (0 :: p) q u ∨ ∃ x, CallsAt (k x) (nextPlace p) q u
  | .call c k, p, q, u => (q = p ∧ u = c.stepId) ∨ ∃ x, CallsAt (k x) (nextPlace p) q u
  | .parallel _ callables _ k, p, q, u =>
    (∃ i, CallsAt (callables i) (0 :: i.val :: p) q u) ∨ ∃ x, CallsAt (k x) (nextPlace p) q u

theorem uses_of_callsAt {b : Body σ} {p q : List ℕ} {u : String} (h : CallsAt b p q u) :
    Uses b u := by
  induction b generalizing p with
  | ret v => exact h
  | raise e => exact h
  | code f k ih =>
    obtain ⟨s, h⟩ := h
    exact ⟨s, ih s h⟩
  | look name method b ih => exact ih h
  | log name message b ih => exact ih h
  | site n b ih => exact ih h
  | run stepId outputType handler k ihh ihk =>
    rcases h with ⟨-, hu⟩ | h | ⟨x, h⟩
    · exact .inl hu
    · exact .inr (.inl (ihh h))
    · exact .inr (.inr ⟨x, ihk x h⟩)
  | call c k ih =>
    rcases h with ⟨-, hu⟩ | ⟨x, h⟩
    · exact .inl hu
    · exact .inr ⟨x, ih x h⟩
  | parallel n callables mode k ihc ihk =>
    rcases h with ⟨i, h⟩ | ⟨x, h⟩
    · exact .inl ⟨i, ihc i h⟩
    · exact .inr ⟨x, ihk x h⟩

/-! ### Places -/

def From (n : ℕ) (t : List ℕ) (p : List ℕ) : Prop := ∃ m, n ≤ m ∧ m :: t <:+ p

def Within (q p : List ℕ) : Prop := q <:+ p

theorem within_from {n m : ℕ} {t p : List ℕ} (h : Within (m :: t) p) (hle : n ≤ m) :
    From n t p := ⟨m, hle, h⟩

theorem From.mono {n m : ℕ} {t p : List ℕ} (h : From m t p) (hle : n ≤ m) : From n t p := by
  obtain ⟨k, hk, hp⟩ := h
  exact ⟨k, hle.trans hk, hp⟩

theorem within_of_from {n : ℕ} {t q p : List ℕ} (h : From n t p) (hq : Within q t) :
    Within q p := by
  obtain ⟨m, -, hm⟩ := h
  exact (hq.trans (List.suffix_cons m t)).trans hm

theorem within_unique {n m : ℕ} {t p : List ℕ} (h : Within (n :: t) p) (h' : Within (m :: t) p) :
    n = m := by
  have heq : n :: t = m :: t :=
    (List.suffix_of_suffix_length_le h h' (by simp)).eq_of_length (by simp)
  exact (List.cons.inj heq).1

theorem within_not_from {n : ℕ} {t p : List ℕ} (h : Within (n :: t) p) : ¬ From (n + 1) t p := by
  rintro ⟨m, hle, hm⟩
  have := within_unique h hm
  omega

theorem callsAt_from {b : Body σ} {n : ℕ} {t q : List ℕ} {u : String}
    (h : CallsAt b (n :: t) q u) : From n t q := by
  induction b generalizing n t with
  | ret v => exact h.elim
  | raise e => exact h.elim
  | code f k ih =>
    obtain ⟨s, h⟩ := h
    exact ih s h
  | look name method b ih => exact ih h
  | log name message b ih => exact ih h
  | site m b ih => exact (ih h).mono (le_max_left n m)
  | run stepId outputType handler k ihh ihk =>
    rcases h with ⟨rfl, -⟩ | h | ⟨x, h⟩
    · exact within_from List.suffix_rfl le_rfl
    · exact within_from (within_of_from (ihh h) List.suffix_rfl) le_rfl
    · exact (ihk x h).mono (Nat.le_succ n)
  | call c k ih =>
    rcases h with ⟨rfl, -⟩ | ⟨x, h⟩
    · exact within_from List.suffix_rfl le_rfl
    · exact (ih x h).mono (Nat.le_succ n)
  | parallel m callables mode k ihc ihk =>
    rcases h with ⟨i, h⟩ | ⟨x, h⟩
    · exact within_from (within_of_from (ihc i h) (List.suffix_cons i.val _)) le_rfl
    · exact (ihk x h).mono (Nat.le_succ n)

theorem callsAt_callable {b : Body σ} {i : ℕ} {p q : List ℕ} {u : String}
    (h : CallsAt b (0 :: i :: p) q u) : Within (i :: p) q :=
  within_of_from (callsAt_from h) List.suffix_rfl

theorem callsAt_handler {b : Body σ} {p q : List ℕ} {u : String} (h : CallsAt b (0 :: p) q u) :
    Within p q ∧ q ≠ p := by
  obtain ⟨m, -, hm⟩ := callsAt_from h
  refine ⟨(List.suffix_cons m p).trans hm, ?_⟩
  rintro rfl
  exact absurd hm.length_le (by simp)

/-! ## Bodies as one part after another -/

section Parts
variable {β : Type} (env : Env σ)

def proceed (k : Except PyError β → Body σ) (r : Scope) (d : Run σ β) : Run σ Json :=
  match d.outcome with
  | .ok v => ((k (.ok v)).interp env r.next d.state).after d.log
  | .exc e => ((k (.error e)).interp env r.next d.state).after d.log
  | .intr i => ⟨.intr i, d.state, d.log⟩

def groupRun {n : ℕ} (callables : Fin n → Body σ) (mode : ParallelMode) (r : Scope) (s : State σ) :
    Run σ (List Json) :=
  let d := Group.parallel (GroupResults.tuple env callables) mode r s
  match d.outcome with
  | .ok outputs => ⟨d.outcome, d.state, d.log ++ [.groupEnded (outputs.length = n)]⟩
  | .exc _ => ⟨d.outcome, d.state, d.log ++ [.groupEnded false]⟩
  | .intr _ => d

theorem run_interp (stepId : String) (outputType : Option OutputType) (handler : Body σ)
    (k : Except PyError Json → Body σ) (r : Scope) (s : State σ) :
    (Body.run stepId outputType handler k).interp env r s = proceed env k r
      (Step.run env stepId outputType (Comp.within Scope.handler (handler.interp env)) r s) := by
  rw [Body.interp, Comp.andThen, proceed]
  cases (Step.run env stepId outputType
    (Comp.within Scope.handler (handler.interp env)) r s).outcome <;> rfl

theorem call_interp (c : StepCall) (k : Except PyError Json → Body σ) (r : Scope) (s : State σ) :
    (Body.call c k).interp env r s = proceed env k r (Step.call env c r s) := by
  rw [Body.interp, Comp.andThen, proceed]
  cases (Step.call env c r s).outcome <;> rfl

theorem parallel_interp {n : ℕ} (callables : Fin n → Body σ) (mode : ParallelMode)
    (k : Except PyError (List Json) → Body σ) (r : Scope) (s : State σ) :
    (Body.parallel n callables mode k).interp env r s =
      proceed env k r (groupRun env callables mode r s) := by
  rw [Body.interp, Comp.andThen, proceed, groupRun, GroupResults.tuple]
  cases ho : (Group.parallel (List.ofFn fun i =>
    Comp.within (Scope.callable i) ((callables i).interp env)) mode r s).outcome with
  | ok outputs => simp [Body.completes]
  | exc e => simp [Body.completes]
  | intr i => simp [ho]

end Parts

/-! ## The counter -/

/-- What a part of a request does to the counter. It can call the step `u` at the
place `p` when `U p u`. -/
structure Tally (hash : String → String) (U : List ℕ → String → Prop) (s s' : State σ)
    (l : List Mark) : Prop where
  mono : ∀ u, s.counts u ≤ s'.counts u
  took : ∀ u, s'.counts u ≠ s.counts u → ∃ p id, (p, id) ∈ calls l ∧ U p u
  once : ∀ u, (∀ p q, U p u → U q u → p = q) → s'.counts u ≤ s.counts u + 1
  numbered : ∀ p id, (p, id) ∈ calls l →
    ∃ u c, U p u ∧ s.counts u < c ∧ c ≤ s'.counts u ∧ id = hash (preHashed u c)
  memos : Dict.Below s'.memos s.memos

section Rules
variable {hash : String → String} {U W : List ℕ → String → Prop} {s s₁ s' : State σ}
  {l l' : List Mark}

theorem Tally.frame (h : Tally hash U s s' l) {u : String} (hu : ∀ p, ¬ U p u) :
    s'.counts u = s.counts u := by
  by_contra hne
  obtain ⟨p, id, -, hp⟩ := h.took u hne
  exact hu p hp

theorem Tally.quiet (h : Tally hash U s s' l) (hl : calls l = []) : s'.counts = s.counts := by
  funext u
  by_contra hne
  obtain ⟨p, id, hp, -⟩ := h.took u hne
  simp [hl] at hp

theorem Tally.placed (h : Tally hash U s s' l) {p : List ℕ} {id : String}
    (hp : (p, id) ∈ calls l) : ∃ u, U p u := by
  obtain ⟨u, c, hu, -⟩ := h.numbered p id hp
  exact ⟨u, hu⟩

theorem tally_silent (hc : s'.counts = s.counts) (hm : Dict.Below s'.memos s.memos)
    (hl : calls l = []) : Tally hash U s s' l where
  mono := fun u => by rw [hc]
  took := fun u hne => absurd (by rw [hc]) hne
  once := fun u _ => by rw [hc]; omega
  numbered := fun p id h => by simp [hl] at h
  memos := hm

theorem calls_callMarks (s : State σ) (name message : String) :
    calls (FilteredLogger.callMarks s name message) = [] := by
  rw [FilteredLogger.callMarks]
  cases s.held name <;> rfl

theorem tally_append (h : Tally hash U s s₁ l) (h' : Tally hash W s₁ s' l')
    (hd : ∀ p u u', U p u → ¬ W p u') :
    Tally hash (fun p u => U p u ∨ W p u) s s' (l ++ l') where
  mono := fun u => (h.mono u).trans (h'.mono u)
  took := fun u hne => by
    rw [calls_append]
    by_cases hs : s₁.counts u = s.counts u
    · rw [← hs] at hne
      obtain ⟨p, id, hp, hu⟩ := h'.took u hne
      exact ⟨p, id, List.mem_append_right _ hp, .inr hu⟩
    · obtain ⟨p, id, hp, hu⟩ := h.took u hs
      exact ⟨p, id, List.mem_append_left _ hp, .inl hu⟩
  once := fun u hu => by
    by_cases hW : ∃ p, W p u
    · -- its one place is in the second part
      obtain ⟨p, hp⟩ := hW
      have hs : s₁.counts u = s.counts u := h.frame fun q hq =>
        hd q u u hq (hu q p (.inl hq) (.inr hp) ▸ hp)
      rw [← hs]
      exact h'.once u fun p q hp hq => hu p q (.inr hp) (.inr hq)
    · rw [h'.frame fun p hp => hW ⟨p, hp⟩]
      exact h.once u fun p q hp hq => hu p q (.inl hp) (.inl hq)
  numbered := fun p id hm => by
    rw [calls_append, List.mem_append] at hm
    rcases hm with hm | hm
    · obtain ⟨u, c, hu, hlt, hle, he⟩ := h.numbered p id hm
      exact ⟨u, c, .inl hu, hlt, hle.trans (h'.mono u), he⟩
    · obtain ⟨u, c, hu, hlt, hle, he⟩ := h'.numbered p id hm
      exact ⟨u, c, .inr hu, lt_of_le_of_lt (h.mono u) hlt, hle, he⟩
  memos := h'.memos.trans h.memos

theorem Tally.weaken (h : Tally hash U s s' l) (hU : ∀ p u, U p u → W p u) :
    Tally hash W s s' l where
  mono := h.mono
  took := fun u hne => by
    obtain ⟨p, id, hp, hu⟩ := h.took u hne
    exact ⟨p, id, hp, hU p u hu⟩
  once := fun u hu => h.once u fun p q hp hq => hu p q (hU p u hp) (hU q u hq)
  numbered := fun p id hm => by
    obtain ⟨u, c, hu, hrest⟩ := h.numbered p id hm
    exact ⟨u, c, hU p u hu, hrest⟩
  memos := h.memos

theorem tally_before (h : Tally hash (fun _ _ => False) s s₁ l) (h' : Tally hash U s₁ s' l') :
    Tally hash U s s' (l ++ l') :=
  (tally_append h h' fun _ _ _ h => h.elim).weaken fun _ _ hu => hu.elim False.elim id

theorem tally_after (h : Tally hash U s s₁ l) (h' : Tally hash (fun _ _ => False) s₁ s' l') :
    Tally hash U s s' (l ++ l') :=
  (tally_append h h' fun _ _ _ _ h => h).weaken fun _ _ hu => hu.elim id False.elim

theorem tally_unused (h : Tally hash (fun _ _ => False) s s' l) : calls l = [] := by
  by_contra hne
  obtain ⟨⟨p, id⟩, hp⟩ := List.exists_mem_of_ne_nil _ hne
  obtain ⟨u, hu⟩ := h.placed hp
  exact hu

theorem below_erase (d : StepMemos) (id : String) : Dict.Below (d.erase id) d := by
  intro k v hk
  by_cases hne : k = id
  · subst hne
    simp at hk
  · rwa [AList.lookup_erase_ne hne] at hk

section Step
variable {env : Env σ} {r : Scope}

theorem calls_pop {info : StepInfo} {d : Run σ (Option Output)}
    (hp : Execution.PopDone env info r s d) : calls d.log = [] := by
  rw [calls, filterMap_pop hp fun _ _ => rfl]
  rfl

theorem tally_pop {info : StepInfo} {d : Run σ (Option Output)}
    (hp : Execution.PopDone env info r s d) : Tally hash U s d.state d.log :=
  tally_silent hp.counts (by rw [hp.memos]; exact below_erase _ _) (calls_pop hp)

theorem tally_step {info : StepInfo} {decode : Json → Except PyError Json}
    {outputType : Option OutputType} {handler : Exec σ Json} {d : Run σ Json}
    (hh : ∀ t, Tally hash U t (handler (r.inHandler info.id) t).state
      (handler (r.inHandler info.id) t).log)
    (hd : Step.StepDone env info decode outputType handler r s d) :
    Tally hash U s d.state d.log := by
  have hquiet : ∀ {t : State σ} {m : Mark}, callOf m = none →
      Tally hash (fun _ _ => False) t t [m] :=
    fun hm => tally_silent rfl (Dict.Below.refl _) (by simp [hm])
  cases hd with
  | answered hp => exact tally_pop hp
  | nested hp => exact tally_after (tally_pop hp) (hquiet rfl)
  | skipped hp => exact tally_pop hp
  | responded hp => exact tally_pop hp
  | executed hp hm hr hop hmay hrun =>
    subst hrun
    refine tally_before (tally_pop hp) ?_
    rw [← List.singleton_append]
    exact tally_before (hquiet rfl) (tally_after (hh _) (hquiet rfl))

theorem tally_parsed (stepId : String) (q : Option String) :
    Tally env.hash (fun p u => p = r.path ∧ u = stepId) s (Step.countedAt env stepId s)
      [.parsed r.path (Step.parsedAt env stepId s).hashed q] := by
  have hcount : ∀ u, (Step.countedAt env stepId s).counts u =
      if u = stepId then s.counts stepId + 1 else s.counts u := by
    intro u
    simp only [Step.countedAt, parseStepId, StepIDCounter.increment]
    by_cases h : u = stepId <;> simp [h, Function.update]
  refine ⟨fun u => ?_, fun u hne => ?_, fun u _ => ?_, fun p id hm => ?_, Dict.Below.refl _⟩
  · rw [hcount]
    split <;> simp_all
  · have hu : u = stepId := by
      by_contra h
      rw [hcount, if_neg h] at hne
      exact hne rfl
    exact ⟨r.path, (Step.parsedAt env stepId s).hashed, by simp [callOf], rfl, hu⟩
  · rw [hcount]
    split <;> simp_all
  · simp only [calls_cons, callOf, Option.toList_some, calls_nil, List.append_nil,
      List.mem_singleton, Prod.mk.injEq] at hm
    exact ⟨stepId, s.counts stepId + 1, ⟨hm.1, rfl⟩, by omega, by simp [hcount], hm.2⟩

theorem tally_collect {ι : Type} {m : ι → Exec σ Json} {V : ι → List ℕ → String → Prop}
    {left : List StepResponse → List Mark} (hleft : ∀ ds, calls (left ds) = [])
    (hm : ∀ i t, Tally hash (V i) t (m i r t).state (m i r t).log)
    (hd : ∀ i j, i ≠ j → ∀ p u u', V i p u → ¬ V j p u') {is : List ι} (his : is.Nodup)
    (as : List Json) (ds : List StepResponse) (s : State σ) :
    Tally hash (fun p u => ∃ i ∈ is, V i p u) s
      (collect Group.caught left (is.map m) as ds r s).state
      (collect Group.caught left (is.map m) as ds r s).log := by
  induction is generalizing as ds s with
  | nil => exact tally_silent rfl (Dict.Below.refl _) rfl
  | cons i is ih =>
    obtain ⟨hi, his⟩ := List.nodup_cons.mp his
    have hrest : ∀ as ds, Tally hash (fun p u => ∃ j ∈ i :: is, V j p u) s
        (collect Group.caught left (is.map m) as ds r (m i r s).state).state
        ((m i r s).log ++ (collect Group.caught left (is.map m) as ds r (m i r s).state).log) := by
      intro as ds
      refine (tally_append (hm i s) (ih his as ds _) ?_).weaken ?_
      · rintro p u u' hp ⟨j, hj, hp'⟩
        exact hd i j (fun he => hi (he ▸ hj)) p u u' hp hp'
      · rintro p u (hp | ⟨j, hj, hp⟩)
        · exact ⟨i, by simp, hp⟩
        · exact ⟨j, by simp [hj], hp⟩
    have hstop : Tally hash (fun p u => ∃ j ∈ i :: is, V j p u) s (m i r s).state
        ((m i r s).log ++ left ds) :=
      (tally_after (hm i s) (tally_silent rfl (Dict.Below.refl _) (hleft ds))).weaken
        fun p u hp => ⟨i, by simp, hp⟩
    rw [List.map_cons]
    cases ho : (m i r s).outcome with
    | ok a =>
      rw [collect_ok ho]
      exact hrest _ _
    | exc e =>
      rw [collect_exc ho]
      exact hstop
    | intr j =>
      cases ha : Group.caught j with
      | some new =>
        rw [collect_absorbed ho ha]
        exact hrest _ _
      | none =>
        rw [collect_escaped ho ha]
        exact hstop

end Step

end Rules

section Interp
variable {env : Env σ}

theorem path_next {r : Scope} {n : ℕ} {t : List ℕ} (hr : r.path = n :: t) :
    r.next.path = (n + 1) :: t := by
  simp [Scope.next, nextPlace, hr]

theorem tally_proceed {β : Type} {k : Except PyError β → Body σ} {r : Scope} {s : State σ}
    {U : List ℕ → String → Prop} {n : ℕ} {t : List ℕ} {d : Run σ β}
    (hU : ∀ p u, U p u → Within (n :: t) p)
    (hk : ∀ x s, Tally env.hash (CallsAt (k x) ((n + 1) :: t)) s
      ((k x).interp env r.next s).state ((k x).interp env r.next s).log)
    (hd : Tally env.hash U s d.state d.log) :
    Tally env.hash (fun p u => U p u ∨ ∃ x, CallsAt (k x) ((n + 1) :: t) p u) s
      (proceed env k r d).state (proceed env k r d).log := by
  have hgo : ∀ x, Tally env.hash (fun p u => U p u ∨ ∃ x, CallsAt (k x) ((n + 1) :: t) p u) s
      ((k x).interp env r.next d.state).state
      (d.log ++ ((k x).interp env r.next d.state).log) := fun x =>
    (tally_append hd (hk x d.state) fun p u u' hp hp' =>
      within_not_from (hU p u hp) (callsAt_from hp')).weaken
      fun p u hp => hp.imp_right fun hp => ⟨x, hp⟩
  rw [proceed]
  cases d.outcome with
  | ok v => exact hgo _
  | exc e => exact hgo _
  | intr i => exact hd.weaken fun p u hp => .inl hp

def callableRun (env : Env σ) {n : ℕ} (callables : Fin n → Body σ) (i : Fin n) : Exec σ Json :=
  Comp.within (Scope.callable i) ((callables i).interp env)

theorem tuple_eq {n : ℕ} (callables : Fin n → Body σ) :
    GroupResults.tuple env callables = (List.finRange n).map (callableRun env callables) :=
  List.ofFn_eq_map

section Callables
variable {n : ℕ} {callables : Fin n → Body σ} {r : Scope} {q : List ℕ}

theorem callables_apart {i j : Fin n} (hij : i ≠ j) {p : List ℕ} {u u' : String}
    (h : CallsAt (callables i) (0 :: i.val :: q) p u) :
    ¬ CallsAt (callables j) (0 :: j.val :: q) p u' := fun h' =>
  hij (Fin.ext (within_unique (callsAt_callable h) (callsAt_callable h')))

theorem tally_loop (hr : r.path = q) (hcs : ∀ i r s, r.path = 0 :: i.val :: q →
      Tally env.hash (CallsAt (callables i) (0 :: i.val :: q)) s
        ((callables i).interp env r s).state ((callables i).interp env r s).log)
    {is : List (Fin n)} (his : is.Nodup) (as : List Json) (ds : List StepResponse) (s : State σ) :
    Tally env.hash (fun p u => ∃ i ∈ is, CallsAt (callables i) (0 :: i.val :: q) p u) s
      (collect Group.caught (fun responses => [.abandoned responses])
        (is.map (callableRun env callables)) as ds r s).state
      (collect Group.caught (fun responses => [.abandoned responses])
        (is.map (callableRun env callables)) as ds r s).log :=
  tally_collect (V := fun i => CallsAt (callables i) (0 :: i.val :: q)) (fun _ => rfl)
    (fun i t => hcs i (r.callable i) t (by simp [Scope.callable, hr]))
    (fun _ _ hij _ _ _ h => callables_apart hij h) his as ds s

theorem tally_groupRun (mode : ParallelMode) (hr : r.path = q)
    (hcs : ∀ i r s, r.path = 0 :: i.val :: q →
      Tally env.hash (CallsAt (callables i) (0 :: i.val :: q)) s
        ((callables i).interp env r s).state ((callables i).interp env r s).log) (s : State σ) :
    Tally env.hash (fun p u => ∃ i, CallsAt (callables i) (0 :: i.val :: q) p u) s
      (groupRun env callables mode r s).state (groupRun env callables mode r s).log := by
  have hd : Tally env.hash (fun p u => ∃ i, CallsAt (callables i) (0 :: i.val :: q) p u) s
      (Group.discover (GroupResults.tuple env callables) r.inGroup s).state
      (Group.discover (GroupResults.tuple env callables) r.inGroup s).log := by
    rw [tuple_eq, Group.discover]
    refine (tally_loop (r := r.inGroup) hr hcs (List.nodup_finRange n) [] [] s).weaken ?_
    rintro p u ⟨i, -, hp⟩
    exact ⟨i, hp⟩
  have hmark : ∀ complete (t : State σ),
      Tally env.hash (fun _ _ => False) t t [.groupEnded complete] :=
    fun _ t => tally_silent rfl (Dict.Below.refl _) rfl
  rw [groupRun]
  cases ho : (Group.discover (GroupResults.tuple env callables) r.inGroup s).outcome with
  | ok x =>
    rw [Group.parallel_ok mode ho]
    split_ifs
    · exact tally_after hd (hmark _ _)
    · exact hd
  | exc e =>
    rw [Group.parallel_exc mode ho]
    exact tally_after hd (hmark _ _)
  | intr i =>
    rw [Group.parallel_intr mode ho]
    exact hd

end Callables

theorem tally_stepRun {handler : Body σ} (stepId : String) (outputType : Option OutputType)
    {r : Scope} {q : List ℕ} (hr : r.path = q)
    (hh : ∀ r s, r.path = 0 :: q → Tally env.hash (CallsAt handler (0 :: q)) s
      (handler.interp env r s).state (handler.interp env r s).log) (s : State σ) :
    Tally env.hash (fun p u => (p = q ∧ u = stepId) ∨ CallsAt handler (0 :: q) p u) s
      (Step.run env stepId outputType (Comp.within Scope.handler (handler.interp env)) r s).state
      (Step.run env stepId outputType (Comp.within Scope.handler (handler.interp env)) r
        s).log := by
  obtain ⟨d, hd, he⟩ := Step.run_done env stepId outputType
    (Comp.within Scope.handler (handler.interp env)) r s
  have hinner : Tally env.hash (CallsAt handler (0 :: q)) (Step.countedAt env stepId s) d.state
      d.log :=
    tally_step (fun t' => hh (r.inHandler _).handler t' (by
      simp [Scope.handler, Scope.inHandler, hr])) hd
  subst hr
  rw [he]
  exact tally_append (tally_parsed stepId r.running) hinner
    fun p u u' hp hp' => (callsAt_handler hp').2 hp.1

theorem tally_stepCall (c : StepCall) {r : Scope} {q : List ℕ} (hr : r.path = q) (s : State σ) :
    Tally env.hash (fun p u => p = q ∧ u = c.stepId) s (Step.call env c r s).state
      (Step.call env c r s).log := by
  subst hr
  have hparsed : Tally env.hash (fun p u => p = r.path ∧ u = c.stepId) s
      (Step.countedAt env c.stepId s)
      [.parsed r.path (Step.parsedAt env c.stepId s).hashed r.running] := tally_parsed _ _
  rcases Step.call_done env c r s with ⟨e, -, he⟩ | ⟨opts, d, -, hd, he⟩
  · rw [he]
    exact hparsed
  · rw [he]
    exact tally_after hparsed
      (tally_step (fun t' => tally_silent rfl (Dict.Below.refl _) rfl) hd)

theorem tally_interp (b : Body σ) {n : ℕ} {t : List ℕ} (r : Scope) (s : State σ)
    (hr : r.path = n :: t) :
    Tally env.hash (CallsAt b (n :: t)) s (b.interp env r s).state (b.interp env r s).log := by
  induction b generalizing n t r s with
  | ret v => exact tally_silent rfl (Dict.Below.refl _) rfl
  | raise e => exact tally_silent rfl (Dict.Below.refl _) rfl
  | code f k ih =>
    obtain ⟨hmono, htook, honce, hnumbered, hmemos⟩ :=
      (ih (f s.store) r { s with store := f s.store } hr).weaken (W := CallsAt (.code f k) (n :: t))
        fun p u hp => ⟨_, hp⟩
    exact ⟨hmono, htook, honce, hnumbered, hmemos⟩
  | look name method b ih =>
    rw [Body.look_interp]
    have hlook : Tally env.hash (fun _ _ => False) s (FilteredLogger.holding name method s)
        [.looked name method (FilteredLogger.forwards s.loggingEnabled method)] :=
      tally_silent rfl (Dict.Below.refl _) rfl
    exact tally_before hlook (ih r _ hr)
  | log name message b ih =>
    rw [Body.log_interp]
    have hlog : Tally env.hash (fun _ _ => False) s s
        (FilteredLogger.callMarks s name message) :=
      tally_silent rfl (Dict.Below.refl _) (calls_callMarks s name message)
    exact tally_before hlog (ih r s hr)
  | site m b ih => exact ih (r.site m) s (by simp [Scope.site, sitePlace, hr])
  | run stepId outputType handler k ihh ihk =>
    rw [run_interp]
    have hpart := tally_stepRun stepId outputType hr (fun r s hr => ihh r s hr) s
    refine (tally_proceed ?_ (fun x s => ihk x r.next s (path_next hr)) hpart).weaken ?_
    · rintro p u (⟨rfl, -⟩ | hp)
      · exact List.suffix_rfl
      · exact (callsAt_handler hp).1
    · exact fun p u hp => or_assoc.mp hp
  | call c k ih =>
    rw [call_interp]
    refine tally_proceed ?_ (fun x s => ih x r.next s (path_next hr)) (tally_stepCall c hr s)
    rintro p u ⟨rfl, -⟩
    exact List.suffix_rfl
  | parallel n' callables mode k ihc ihk =>
    rw [parallel_interp]
    refine tally_proceed ?_ (fun x s => ihk x r.next s (path_next hr))
      (tally_groupRun mode hr (fun i r s hr => ihc i r s hr) s)
    rintro p u ⟨i, hp⟩
    exact (List.suffix_cons i.val _).trans (callsAt_callable hp)

end Interp

end Inngest.StepCalls
