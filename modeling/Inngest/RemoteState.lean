import Mathlib.Data.List.Infix
import Inngest.DataPipeline

/-!
# Remote state

`RemoteStateMiddleware` keeps what steps returned in an object store, and the
executor only gets to see where. `S3Driver` writes under keys that it makes
up. The requests of all runs share the store, and each may find it changed
whenever it comes back to it.
-/

set_option autoImplicit false

namespace Inngest.RemoteState
open ServerLib Errors StepLib Effect Engine

/-! ## The object store -/

structure Put where
  bucket : String
  key : String
  body : String
  deriving DecidableEq, Repr

def stored (puts : List Put) (bucket key : String) : Option String :=
  (puts.reverse.find? fun p => p.bucket = bucket ∧ p.key = key).map Put.body

/-- The client of one request: all that was put so far, and what others put
before each of the client's next calls. -/
structure S3Client where
  puts : List Put
  others : List (List Put)
  deriving DecidableEq, Repr

namespace S3Client
variable (client : S3Client) (bucket key : String)

def wait : S3Client :=
  match client.others with
  | [] => client
  | new :: others => ⟨client.puts ++ new, others⟩

def noSuchKey : PyError := exception "NoSuchKey" "The specified key does not exist."

def getObject : S3Client × Except PyError String :=
  (client.wait, match stored client.wait.puts bucket key with
    | some body => .ok body
    | none => .error noSuchKey)

def putObject (body : String) : S3Client :=
  { client.wait with puts := client.wait.puts ++ [⟨bucket, key, body⟩] }

theorem prefix_wait : client.puts <+: client.wait.puts := by
  rw [wait]
  split
  · exact List.prefix_rfl
  · exact List.prefix_append _ _

theorem prefix_putObject (body : String) :
    client.puts <+: (client.putObject bucket key body).puts :=
  client.prefix_wait.trans (List.prefix_append _ _)

theorem mem_putObject (body : String) :
    ⟨bucket, key, body⟩ ∈ (client.putObject bucket key body).puts := by
  simp [putObject]

end S3Client

theorem stored_of_mem {puts : List Put} (hkeys : (puts.map Put.key).Nodup) {p : Put}
    (hp : p ∈ puts) : stored puts p.bucket p.key = some p.body := by
  cases hfind : puts.reverse.find? fun q => q.bucket = p.bucket ∧ q.key = p.key with
  | none =>
    have := List.find?_eq_none.mp hfind p (List.mem_reverse.mpr hp)
    simp at this
  | some q =>
    have hq := List.mem_reverse.mp (List.mem_of_find?_eq_some hfind)
    have hkey : q.bucket = p.bucket ∧ q.key = p.key := by
      simpa using List.find?_some hfind
    rw [stored, hfind, List.inj_on_of_nodup_map hkeys hq hp hkey.2]
    rfl

/-! ## `S3Driver` -/

/-- `json.dumps` and `json.loads`: what the one wrote is what the other reads. -/
structure JsonText where
  dumps : Json → Except PyError String
  loads : String → Option Json
  loads_dumps : ∀ {v text}, dumps v = .ok text → loads text = some v

@[ext]
structure CreatedKey where
  text : String
  length : text.length = 32
  chars : text.toList.all Char.isAlphanum = true

structure S3Driver where
  bucket : String
  createKey : ℕ → CreatedKey

structure StateSurrogate where
  bucket : String
  key : String

def StateSurrogate.validate : Json → Except PyError StateSurrogate
  | .obj fields =>
    match Json.field fields "bucket", Json.field fields "key" with
    | some (.str bucket), some (.str key) => .ok ⟨bucket, key⟩
    | _, _ => .error (exception "ValidationError" "validation errors for _StateSurrogate")
  | _ => .error (exception "ValidationError" "validation error for _StateSurrogate")

namespace S3Driver

def marker : String := "__REMOTE_STATE__"
def strategyMarker : String := "__STRATEGY__"
def strategyIdentifier : String := "inngest/s3"

def isRemote : Json → Bool
  | .obj fields => (Json.field fields marker).isSome ∧
      Json.field fields strategyMarker = some (.str strategyIdentifier)
  | _ => false

def objectKey (runId : String) (key : CreatedKey) : String :=
  "inngest/remote_state/" ++ runId ++ "/" ++ key.text

def surrogate (bucket key : String) : Json :=
  .obj [(marker, .bool true), (strategyMarker, .str strategyIdentifier), ("bucket", .str bucket),
    ("key", .str key)]

theorem text_injective {front front' : String} {k k' : CreatedKey}
    (h : front ++ k.text = front' ++ k'.text) : k = k' := by
  have hlist := congrArg String.toList h
  rw [String.toList_append, String.toList_append] at hlist
  have hlength : k.text.toList.length = k'.text.toList.length := by
    rw [String.length_toList, String.length_toList, k.length, k'.length]
  exact CreatedKey.ext (String.toList_inj.mp (List.append_inj_right' hlist hlength))

theorem objectKey_injective {runId runId' : String} {k k' : CreatedKey}
    (h : objectKey runId k = objectKey runId' k') : k = k' := text_injective h

theorem keys_nodup {puts : List Put} {created : List CreatedKey} (hcreated : created.Nodup)
    (h : List.Forall₂ (fun p k => ∃ runId, p.key = objectKey runId k) puts created) :
    (puts.map Put.key).Nodup := by
  induction h with
  | nil => exact List.nodup_nil
  | @cons p k puts created hhead htail ih =>
    rw [List.nodup_cons] at hcreated
    rw [List.map_cons, List.nodup_cons]
    refine ⟨fun hmem => hcreated.1 ?_, ih hcreated.2⟩
    obtain ⟨q, hq, hkey⟩ := List.mem_map.mp hmem
    obtain ⟨i, hi, rfl⟩ := List.getElem_of_mem hq
    obtain ⟨runId, hp⟩ := hhead
    obtain ⟨runId', hq'⟩ := htail.get hi (htail.length_eq ▸ hi)
    rw [List.get_eq_getElem, hkey, hp] at hq'
    rw [objectKey_injective hq']
    exact List.get_mem _ _

variable (json : JsonText)

def hydrate (step : Output) (body : String) : Except PyError Output :=
  match json.loads body with
  | some data => .ok { step with data := data }
  | none => .error (exception "JSONDecodeError" "Expecting value")

def loadStep (client : S3Client) (step : Output) : S3Client × Except PyError Output :=
  if isRemote step.data then
    match StateSurrogate.validate step.data with
    | .error e => (client, .error e)
    | .ok surrogate =>
      let (client, body) := client.getObject surrogate.bucket surrogate.key
      (client, body.bind (hydrate json step))
  else (client, .ok step)

abbrev Entry := Sigma fun _ : String => Output

def loadFrom : S3Client → List Entry → S3Client × Except PyError (List Entry)
  | client, [] => (client, .ok [])
  | client, entry :: entries =>
    let (client, step) := loadStep json client entry.2
    match step with
    | .error e => (client, .error e)
    | .ok step =>
      let (client, rest) := loadFrom client entries
      (client, rest.map (⟨entry.1, step⟩ :: ·))

def loadSteps (client : S3Client) (steps : StepMemos) : S3Client × Except PyError StepMemos :=
  let (client, loaded) := loadFrom json client steps.entries
  (client, loaded.map List.toAList)

end S3Driver

/-! ## `RemoteStateMiddleware` -/

/-- What a request and its driver keep: `_run_id` and how many keys were made. -/
structure Remote where
  client : S3Client
  runId : Option String
  created : ℕ
  deriving DecidableEq, Repr

/-- The store of a request: the middleware's part, and that of the function. -/
structure Session (τ : Type) where
  remote : Remote
  user : τ

variable {τ : Type} (json : JsonText)

def S3Driver.saveStep (driver : S3Driver) (remote : Remote) (runId : String) (value : Json) :
    Remote × Except PyError Json :=
  let key := S3Driver.objectKey runId (driver.createKey remote.created)
  let remote := { remote with created := remote.created + 1 }
  match json.dumps value with
  | .error e => (remote, .error e)
  | .ok body =>
    ({ remote with client := remote.client.putObject driver.bucket key body },
      .ok (S3Driver.surrogate driver.bucket key))

namespace RemoteStateMiddleware
variable (driver : S3Driver)

def transformInput : Hook (Session τ) (Context × StepMemos) where
  isCoroutine := false
  call s x :=
    match S3Driver.loadSteps json s.remote.client x.2 with
    | (client, .error e) => (({ s with remote := { s.remote with client := client } }, x), some e)
    | (client, .ok steps) =>
      (({ s with remote := { s.remote with client := client, runId := some x.1.runId } },
        (x.1, steps)), none)

def missingRunId : PyError := exception "Exception" "missing run ID"

def transformOutput : Hook (Session τ) TransformOutputResult where
  isCoroutine := false
  call s result :=
    match result.step with
    | none => ((s, result), none)
    | some info =>
      if info.op ≠ .stepRun then ((s, result), none)
      else match result.output with
        | none => ((s, result), none)
        | some value =>
          match s.remote.runId with
          | none => ((s, result), some missingRunId)
          | some runId =>
            match driver.saveStep json s.remote runId value with
            | (remote, .error e) => (({ s with remote := remote }, result), some e)
            | (remote, .ok surrogate) =>
              (({ s with remote := remote }, { result with output := some surrogate }), none)

/-- The middleware as the manager sees it: a `MiddlewareSync`. -/
def hooks : Hooks (Session τ) where
  transformInput := transformInput json
  transformOutput := transformOutput json driver

end RemoteStateMiddleware

/-! ## What `load_steps` makes of the memos -/

namespace S3Driver
variable {json : JsonText} {client : S3Client} {first puts : List Put}

theorem isRemote_surrogate (bucket key : String) : isRemote (surrogate bucket key) = true := by
  simp [isRemote, surrogate, Json.field, marker, strategyMarker, strategyIdentifier]

theorem validate_surrogate (bucket key : String) :
    StateSurrogate.validate (surrogate bucket key) = .ok ⟨bucket, key⟩ := by
  simp [StateSurrogate.validate, surrogate, Json.field, marker, strategyMarker]

theorem loadStep_foreign {step : Output} (h : isRemote step.data = false) :
    loadStep json client step = (client, .ok step) := by
  simp [loadStep, h]

theorem loadStep_remote {step : Output} {surrogate : StateSurrogate}
    (h : isRemote step.data = true) (hvalid : StateSurrogate.validate step.data = .ok surrogate) :
    loadStep json client step = (client.wait,
      (client.getObject surrogate.bucket surrogate.key).2.bind (hydrate json step)) := by
  rw [loadStep, if_pos h, hvalid]
  rfl

theorem prefix_loadStep (json : JsonText) (client : S3Client) (step : Output) :
    client.puts <+: (loadStep json client step).1.puts := by
  cases h : isRemote step.data with
  | false =>
    rw [loadStep_foreign h]
  | true =>
    cases hvalid : StateSurrogate.validate step.data with
    | error e =>
      rw [loadStep, if_pos h, hvalid]
    | ok surrogate =>
      rw [loadStep_remote h hvalid]
      exact client.prefix_wait

theorem loadFrom_error {entry : Entry} {e : PyError}
    (h : (loadStep json client entry.2).2 = .error e) (entries : List Entry) :
    loadFrom json client (entry :: entries) = ((loadStep json client entry.2).1, .error e) := by
  simp only [loadFrom, h]

theorem loadFrom_ok {entry : Entry} {step : Output}
    (h : (loadStep json client entry.2).2 = .ok step) (entries : List Entry) :
    loadFrom json client (entry :: entries) =
      ((loadFrom json (loadStep json client entry.2).1 entries).1,
        (loadFrom json (loadStep json client entry.2).1 entries).2.map (⟨entry.1, step⟩ :: ·)) := by
  simp only [loadFrom, h]

theorem prefix_loadFrom (json : JsonText) (client : S3Client) (entries : List Entry) :
    client.puts <+: (loadFrom json client entries).1.puts := by
  induction entries generalizing client with
  | nil => exact List.prefix_rfl
  | cons entry entries ih =>
    have hstep := prefix_loadStep json client entry.2
    cases h : (loadStep json client entry.2).2 with
    | error e =>
      rw [loadFrom_error h]
      exact hstep
    | ok step =>
      rw [loadFrom_ok h]
      exact hstep.trans (ih _)

theorem puts_loadStep (json : JsonText) (client : S3Client) (entry : Entry)
    (entries : List Entry) : (loadStep json client entry.2).1.puts <+:
      (loadFrom json client (entry :: entries)).1.puts := by
  cases h : (loadStep json client entry.2).2 with
  | error e =>
    rw [loadFrom_error h]
  | ok step =>
    rw [loadFrom_ok h]
    exact prefix_loadFrom json _ entries

/-- The memo is read as `step'` by every client that has seen `first` and
sees only what is among `puts`. -/
def Loads (json : JsonText) (first puts : List Put) (step step' : Output) : Prop :=
  ∀ client : S3Client, first <+: client.puts → (loadStep json client step).1.puts <+: puts →
    (loadStep json client step).2 = .ok step'

theorem Loads.unique (h : first <+: puts) {step a b : Output} (ha : Loads json first puts step a)
    (hb : Loads json first puts step b) : a = b := by
  have hsame : (loadStep json ⟨first, []⟩ step).1.puts = first := by
    rw [loadStep]
    split
    · split <;> rfl
    · rfl
  have hputs : (loadStep json ⟨first, []⟩ step).1.puts <+: puts := by rwa [hsame]
  have hok := ha ⟨first, []⟩ List.prefix_rfl hputs
  rw [hb ⟨first, []⟩ List.prefix_rfl hputs] at hok
  exact (Except.ok.inj hok).symm

theorem loads_foreign {step : Output} (h : isRemote step.data = false) :
    Loads json first puts step step := by
  intro client _ _
  rw [loadStep_foreign h]

theorem loads_surrogate (hkeys : (puts.map Put.key).Nodup) {p : Put} (hp : p ∈ first) {v : Json}
    (hv : json.dumps v = .ok p.body) :
    Loads json first puts ⟨surrogate p.bucket p.key, none⟩ ⟨v, none⟩ := by
  intro client hfirst hputs
  rw [loadStep_remote (isRemote_surrogate _ _) (validate_surrogate _ _)] at hputs ⊢
  have hmem : p ∈ client.wait.puts := client.prefix_wait.subset (hfirst.subset hp)
  have hnodup : (client.wait.puts.map Put.key).Nodup := hkeys.sublist (hputs.sublist.map _)
  have hget : (client.getObject p.bucket p.key).2 = .ok p.body := by
    simp only [S3Client.getObject, stored_of_mem hnodup hmem]
  have hydrated : hydrate json ⟨surrogate p.bucket p.key, none⟩ p.body = .ok ⟨v, none⟩ := by
    simp only [hydrate, json.loads_dumps hv]
  simp only [hget, Except.bind, hydrated]

theorem loadFrom_loads {entries : List Entry} (hfirst : first <+: client.puts)
    (hputs : (loadFrom json client entries).1.puts <+: puts)
    (h : ∀ entry ∈ entries, ∃ step, Loads json first puts entry.2 step) :
    ∃ loaded, (loadFrom json client entries).2 = .ok loaded ∧
      List.Forall₂ (fun entry entry' => entry'.1 = entry.1 ∧
        Loads json first puts entry.2 entry'.2) entries loaded := by
  induction entries generalizing client with
  | nil => exact ⟨[], rfl, .nil⟩
  | cons entry entries ih =>
    obtain ⟨step, hloads⟩ := h entry List.mem_cons_self
    have hstep := prefix_loadStep json client entry.2
    have hok := hloads client hfirst ((puts_loadStep json client entry entries).trans hputs)
    rw [loadFrom_ok hok] at hputs ⊢
    obtain ⟨loaded, hloaded, hrest⟩ := ih (hfirst.trans hstep) hputs
      fun entry' hentry' => h entry' (List.mem_cons_of_mem _ hentry')
    exact ⟨⟨entry.1, step⟩ :: loaded, by rw [hloaded]; rfl, .cons ⟨rfl, hloads⟩ hrest⟩

theorem lookup_toAList {entries loaded : List Entry} {step : Entry → Entry → Prop}
    (h : List.Forall₂ (fun entry entry' => entry'.1 = entry.1 ∧ step entry entry') entries loaded)
    (id : String) :
    entries.dlookup id = none ∧ loaded.dlookup id = none ∨
      ∃ x y, entries.dlookup id = some x ∧ loaded.dlookup id = some y ∧ step ⟨id, x⟩ ⟨id, y⟩ := by
  induction h with
  | nil => exact .inl ⟨rfl, rfl⟩
  | @cons entry entry' entries loaded hhead htail ih =>
    obtain ⟨key, x⟩ := entry
    obtain ⟨key', y⟩ := entry'
    obtain ⟨rfl, hstep⟩ := hhead
    by_cases hid : key' = id
    · subst hid
      exact .inr ⟨x, y, List.dlookup_cons_eq _ _ _, List.dlookup_cons_eq _ _ _, hstep⟩
    · rw [List.dlookup_cons_ne _ _ (Ne.symm hid), List.dlookup_cons_ne _ _ (Ne.symm hid)]
      exact ih

theorem loadSteps_loads {steps : StepMemos} (hfirst : first <+: client.puts)
    (hputs : (loadSteps json client steps).1.puts <+: puts)
    (h : ∀ id step, steps.lookup id = some step → ∃ step', Loads json first puts step step') :
    ∃ steps', (loadSteps json client steps).2 = .ok steps' ∧
      ∀ id, steps.lookup id = none ∧ steps'.lookup id = none ∨
        ∃ step step', steps.lookup id = some step ∧ steps'.lookup id = some step' ∧
          Loads json first puts step step' := by
  have hentries : ∀ entry ∈ steps.entries, ∃ step, Loads json first puts entry.2 step := by
    rintro ⟨id, step⟩ hentry
    exact h id step (AList.mem_lookup_iff.mpr hentry)
  obtain ⟨loaded, hloaded, hall⟩ := loadFrom_loads hfirst hputs hentries
  refine ⟨loaded.toAList, by rw [loadSteps]; simp [hloaded, Except.map], fun id => ?_⟩
  rw [AList.lookup_to_alist]
  exact lookup_toAList hall id

end S3Driver

end Inngest.RemoteState
