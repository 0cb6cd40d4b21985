import Inngest.Dict
import Inngest.ServerLib

/-!
# Memos, step identifiers and step responses

The data of `step_lib/base.py`. A memo map only ever shrinks during a
request, and the counter of used step identifiers only ever grows.
-/

set_option autoImplicit false

namespace Inngest.StepLib
open ServerLib Errors

structure MemoizedError where
  message : String
  name : String
  stack : Option String
  deriving DecidableEq, Repr

structure Output where
  data : Json
  error : Option MemoizedError
  deriving DecidableEq, Repr

def MemoizedError.validate : Json → Option MemoizedError
  | .obj fields =>
    match Json.field fields "message", Json.field fields "name", Json.field fields "stack" with
    | some (.str m), some (.str n), none => some ⟨m, n, none⟩
    | some (.str m), some (.str n), some .null => some ⟨m, n, none⟩
    | some (.str m), some (.str n), some (.str t) => some ⟨m, n, some t⟩
    | _, _, _ => none
  | _ => none

/-- `Output.model_validate`: extra keys are forbidden, both keys are optional. -/
def Output.validate : Json → Option Output
  | .obj fields =>
    if fields.all (fun f => f.1 = "data" ∨ f.1 = "error") then
      let data := (Json.field fields "data").getD .null
      match (Json.field fields "error").getD .null with
      | .null => some ⟨data, none⟩
      | e => (MemoizedError.validate e).map (fun err => ⟨data, some err⟩)
    else none
  | _ => none

/-- `Output.from_raw`: a string is taken for JSON text. -/
def Output.fromRaw (loads : String → Option Json) : Json → Option Output
  | .str s => (loads s).bind Output.validate
  | v => Output.validate v

abbrev StepMemos := Dict Output

namespace StepMemos

def pop (memos : StepMemos) (hashedId : String) : Option Output × StepMemos :=
  (memos.lookup hashedId, memos.erase hashedId)

def memo (loads : String → Option Json) (v : Json) : Output :=
  (Output.fromRaw loads v).getD ⟨v, none⟩

def fromRaw (loads : String → Option Json) (raw : Dict Json) : StepMemos :=
  raw.mapValues (memo loads)

theorem lookup_fromRaw (loads : String → Option Json) (raw : Dict Json) (k : String) :
    (fromRaw loads raw).lookup k = (raw.lookup k).map (memo loads) := by
  simp [fromRaw]

theorem memo_data (loads : String → Option Json) (v : Json) :
    memo loads (.obj [("data", v)]) = ⟨v, none⟩ := by
  simp [memo, Output.fromRaw, Output.validate, Json.field]

end StepMemos

abbrev StepIDCounter := String → ℕ

def StepIDCounter.increment (counts : StepIDCounter) (stepId : String) : ℕ × StepIDCounter :=
  (counts stepId + 1, Function.update counts stepId (counts stepId + 1))

structure ParsedStepID where
  hashed : String
  userFacing : String
  index : Option ℕ
  deriving DecidableEq, Repr

/-- The text that is hashed for the `count`-th use of a step ID. -/
def preHashed (stepId : String) (count : ℕ) : String :=
  if count > 1 then stepId ++ ":" ++ toString (count - 1) else stepId

theorem toString_injective {n m : ℕ} (h : toString n = toString m) : n = m := by
  have hd : Nat.toDigits 10 n = Nat.toDigits 10 m := by
    rw [← Nat.toList_repr, ← Nat.toList_repr]
    exact congrArg String.toList h
  rw [← Nat.ofDigitChars_ten_toDigits (n := n), hd, Nat.ofDigitChars_ten_toDigits]

theorem preHashed_injective {stepId : String} {c c' : ℕ} (hc : 0 < c) (hc' : 0 < c')
    (h : preHashed stepId c = preHashed stepId c') : c = c' := by
  have hlen : ∀ {n : ℕ}, stepId ++ ":" ++ toString n ≠ stepId := fun {n} he => by
    have hcolon : ":".length = 1 := rfl
    have := congrArg String.length he
    simp only [String.length_append] at this
    omega
  rw [preHashed, preHashed] at h
  split at h <;> split at h
  · rw [← String.toList_inj] at h
    simp only [String.toList_append, List.append_cancel_left_eq, String.toList_inj] at h
    have := toString_injective h
    omega
  · exact absurd h hlen
  · exact absurd h.symm hlen
  · omega

def parseStepId (hash : String → String) (stepId : String) (counts : StepIDCounter) :
    ParsedStepID × StepIDCounter :=
  let (idCount, counts) := counts.increment stepId
  ({ hashed := hash (preHashed stepId idCount)
     userFacing := stepId
     index := if idCount > 1 then some (idCount - 1) else none }, counts)

structure StepUserlandInfo where
  id : String
  index : Option ℕ
  deriving DecidableEq, Repr

def ParsedStepID.userlandInfo (p : ParsedStepID) : StepUserlandInfo := ⟨p.userFacing, p.index⟩

structure StepInfo where
  displayName : String
  id : String
  name : Option String
  op : Opcode
  opts : Option (List (String × Json))
  userland : Option StepUserlandInfo
  deriving DecidableEq, Repr

def StepInfo.setParallelMode (info : StepInfo) : ParallelMode → StepInfo
  | .wait => info
  | .race =>
    { info with
      opts := some (Json.withField (info.opts.getD []) optKeyParallelMode
        (.str ParallelMode.race.value)) }

@[simp] theorem setParallelMode_id (info : StepInfo) (mode : ParallelMode) :
    (info.setParallelMode mode).id = info.id := by cases mode <;> rfl

@[simp] theorem setParallelMode_op (info : StepInfo) (mode : ParallelMode) :
    (info.setParallelMode mode).op = info.op := by cases mode <;> rfl

structure StepResponse where
  output : Json
  originalError : Option PyError
  step : StepInfo
  deriving DecidableEq, Repr

def StepResponse.ofStep (step : StepInfo) : StepResponse := ⟨.null, none, step⟩

def StepResponse.setParallelMode (r : StepResponse) (mode : ParallelMode) : StepResponse :=
  { r with step := r.step.setParallelMode mode }

inductive Interrupt where
  | response (responses : List StepResponse)
  | skip (stepId : String)
  | nested
  deriving DecidableEq, Repr

end Inngest.StepLib
