import SchedulingUtil.Lib.JsonRender
import SchedulingUtil.ScheduleController

/-! # The messages of the control socket

The JSON of the requests and of the responses. What the socket needs of it is a
`JsonModel`; pydantic's compact text of either is one. -/
namespace SchedulingUtil
open Lib.Json Lib.Utf8

/-- A pydantic model, by its JSON: one object on one line, which the parser reads back.
`validateJson` gives the text of the `ValidationError` it raises. -/
structure JsonModel (M : Type) where
  modelDumpJson : M → Text
  validateJson : Bytes → Except String M
  validate_dump : ∀ m, validateJson (encode (modelDumpJson m)) = .ok m
  starts : ∀ m, ∃ t, modelDumpJson m = '{' :: t
  ends : ∀ m, ∃ t, modelDumpJson m = t ++ ['}']
  newline_notMem : ∀ m, '\n' ∉ modelDumpJson m

/-- The parser reads JSON: of a message it takes the whole and no smaller part. -/
def JsonModel.TakesWhole {M : Type} (model : JsonModel M) : Prop :=
  ∀ m m' line, line <+: encode (model.modelDumpJson m) → model.validateJson line = .ok m' → m' = m

/-- A model whose fields are written compactly, without escapes that JSON does not need. -/
def JsonModel.ofFields {M : Type} (errorText : Bytes → String)
    (fields : M → List (Text × Value Nat)) (validate : Value Nat → Option M)
    (h : ∀ m, validate (.obj (fields m)) = some m) : JsonModel M where
  modelDumpJson m := render compact 0 (.obj (fields m))
  validateJson content :=
    match ((decode content).bind loads).bind validate with
    | some m => .ok m
    | none => .error (errorText content)
  validate_dump m := by
    rw [decode_encode, Option.bind_some, loads_render, Option.bind_some, h]
  starts m := by
    obtain ⟨t, ht⟩ := render_obj_braces compact 0 (fields m)
    exact ⟨_, ht⟩
  ends m := by
    obtain ⟨t, ht⟩ := render_obj_braces compact 0 (fields m)
    exact ⟨'{' :: t, ht⟩
  newline_notMem m := oneLine_compact.render (.obj (fields m)) 0

/-! ## Fields -/

/-- `extra="forbid"`. -/
def onlyFields (keys : List String) : Value Nat → Bool
  | .obj fields => fields.all fun f => keys.any fun key => key.toList == f.1
  | _ => false

def boolField (data : Value Nat) (key : String) : Option Bool :=
  match data.get? key.toList with
  | some (.bool b) => some b
  | _ => none

def natField (data : Value Nat) (key : String) : Option Nat :=
  match data.get? key.toList with
  | some (.num n) => some n
  | _ => none

def strField (data : Value Nat) (key : String) : Option String :=
  match data.get? key.toList with
  | some (.str s) => some (String.ofList s)
  | _ => none

/-- A field of the type `Literal[…]`. -/
def literalField {α : Type} (data : Value Nat) (key : String) (values : List α)
    (name : α → String) : Option α :=
  match data.get? key.toList with
  | some (.str s) => values.find? fun a => (name a).toList == s
  | _ => none

theorem literalField_of_get? {α : Type} {data : Value Nat} {key : String} {values : List α}
    {name : α → String} {s : Text} (h : data.get? key.toList = some (.str s)) :
    literalField data key values name = values.find? fun a => (name a).toList == s := by
  rw [literalField, h]

/-- `version: Literal[1]`, which takes what is equal to 1. -/
def versionField (data : Value Nat) : Option Nat :=
  match data.get? "version".toList with
  | some (.bool true) => some protocolVersion
  | some (.num n) => if n = protocolVersion then some n else none
  | _ => none

/-! ## Requests -/

namespace ControllerRequest

def command : ControllerRequest → String
  | .status => "status"
  | .wake => "wake"
  | .runNow => "run-now"
  | .quit => "quit"

def fields (r : ControllerRequest) : List (Text × Value Nat) :=
  [("version".toList, .num protocolVersion), ("command".toList, .str r.command.toList)]

/-- The model is chosen by `command`. -/
def validate (data : Value Nat) : Option ControllerRequest := do
  let request ← literalField data "command" [.status, .wake, .runNow, .quit] command
  let _ ← versionField data
  if onlyFields ["version", "command"] data then return request else none

theorem validate_fields (r : ControllerRequest) : validate (.obj r.fields) = some r := by
  cases r <;> rfl

end ControllerRequest

/-! ## Responses -/

def SchedulerState.name : SchedulerState → String
  | .starting => "starting"
  | .sleeping => "sleeping"
  | .running => "running"
  | .stopping => "stopping"
  | .stopped => "stopped"

namespace SchedulerStatus

def fields (s : SchedulerStatus) : List (Text × Value Nat) :=
  [("state".toList, .str s.state.name.toList), ("pending_wake".toList, .bool s.pendingWake),
    ("pending_run_now".toList, .bool s.pendingRunNow),
    ("quit_requested".toList, .bool s.quitRequested), ("run_count".toList, .num s.runCount)]

def validate (data : Value Nat) : Option SchedulerStatus := do
  let state ← literalField data "state" [.starting, .sleeping, .running, .stopping, .stopped]
    SchedulerState.name
  let pendingWake ← boolField data "pending_wake"
  let pendingRunNow ← boolField data "pending_run_now"
  let quitRequested ← boolField data "quit_requested"
  let runCount ← natField data "run_count"
  if onlyFields ["state", "pending_wake", "pending_run_now", "quit_requested", "run_count"] data
  then return ⟨state, pendingWake, pendingRunNow, quitRequested, runCount⟩
  else none

theorem validate_fields (s : SchedulerStatus) : validate (.obj s.fields) = some s := by
  have hstate : literalField (.obj s.fields) "state"
      [.starting, .sleeping, .running, .stopping, .stopped] SchedulerState.name =
        some s.state := by
    rw [literalField_of_get? (s := s.state.name.toList) rfl]
    cases s.state <;> decide
  have hwake : boolField (.obj s.fields) "pending_wake" = some s.pendingWake := rfl
  have hrun : boolField (.obj s.fields) "pending_run_now" = some s.pendingRunNow := rfl
  have hquit : boolField (.obj s.fields) "quit_requested" = some s.quitRequested := rfl
  have hcount : natField (.obj s.fields) "run_count" = some s.runCount := rfl
  have honly : onlyFields
      ["state", "pending_wake", "pending_run_now", "quit_requested", "run_count"]
      (.obj s.fields) = true := rfl
  simp only [validate, hstate, hwake, hrun, hquit, hcount, honly]
  rfl

end SchedulerStatus

def ResponseStatus.name : ResponseStatus → String
  | .ok => "ok"
  | .accepted => "accepted"
  | .busy => "busy"
  | .error => "error"

/-- A response as pydantic validates it, with the one version there is. -/
abbrev ValidResponse := { r : ControllerResponse // r.version = protocolVersion }

namespace ValidResponse

/-- `scheduler: SchedulerStatus | None`. -/
def schedulerJson : Option SchedulerStatus → Value Nat
  | none => .null
  | some s => .obj s.fields

/-- `scheduler: SchedulerStatus | None = None`. -/
def schedulerField (data : Value Nat) : Option (Option SchedulerStatus) :=
  match data.get? "scheduler".toList with
  | none | some .null => some none
  | some value => (SchedulerStatus.validate value).map some

def fields (r : ValidResponse) : List (Text × Value Nat) :=
  [("version".toList, .num r.val.version), ("ok".toList, .bool r.val.ok),
    ("status".toList, .str r.val.status.name.toList),
    ("message".toList, .str r.val.message.toList),
    ("scheduler".toList, schedulerJson r.val.scheduler)]

def validate (data : Value Nat) : Option ValidResponse := do
  let _ ← versionField data
  let ok ← boolField data "ok"
  let status ← literalField data "status" [.ok, .accepted, .busy, .error] ResponseStatus.name
  let message ← strField data "message"
  let scheduler ← schedulerField data
  if onlyFields ["version", "ok", "status", "message", "scheduler"] data
  then return ⟨⟨protocolVersion, ok, status, message, scheduler⟩, rfl⟩
  else none

theorem schedulerField_fields (r : ValidResponse) :
    schedulerField (.obj r.fields) = some r.val.scheduler := by
  obtain ⟨⟨version, ok, status, message, scheduler⟩, hversion⟩ := r
  cases scheduler with
  | none => rfl
  | some s =>
    show (SchedulerStatus.validate (.obj s.fields)).map some = some (some s)
    rw [SchedulerStatus.validate_fields]
    rfl

theorem of_fields (r : ValidResponse) :
    (⟨⟨protocolVersion, r.val.ok, r.val.status, r.val.message, r.val.scheduler⟩, rfl⟩ :
      ValidResponse) = r := by
  obtain ⟨⟨version, ok, status, message, scheduler⟩, hversion⟩ := r
  have hv : version = protocolVersion := hversion
  subst hv
  rfl

/-- Every response is read back, whatever its message. -/
theorem validate_fields (r : ValidResponse) : validate (.obj r.fields) = some r := by
  have hscheduler := schedulerField_fields r
  have hmessage : strField (.obj r.fields) "message" = some r.val.message :=
    congrArg some String.ofList_toList
  have hok : boolField (.obj r.fields) "ok" = some r.val.ok := rfl
  have hstatus : literalField (.obj r.fields) "status" [.ok, .accepted, .busy, .error]
      ResponseStatus.name = some r.val.status := by
    rw [literalField_of_get? (s := r.val.status.name.toList) rfl]
    cases r.val.status <;> decide
  have hversion : versionField (.obj r.fields) = some protocolVersion := by
    have hget : Value.get? (.obj r.fields) "version".toList = some (.num r.val.version) := rfl
    rw [versionField, hget]
    simp only [r.property, if_true]
  have honly : onlyFields ["version", "ok", "status", "message", "scheduler"]
      (.obj r.fields) = true := rfl
  simp only [validate, hversion, hok, hstatus, hmessage, hscheduler, honly]
  exact congrArg some (of_fields r)

end ValidResponse

/-! ## The two models -/

/-- `_request_adapter`. -/
def requestModel (errorText : Bytes → String) : JsonModel ControllerRequest :=
  .ofFields errorText ControllerRequest.fields ControllerRequest.validate
    ControllerRequest.validate_fields

/-- `_response_adapter`. -/
def responseModel (errorText : Bytes → String) : JsonModel ValidResponse :=
  .ofFields errorText ValidResponse.fields ValidResponse.validate ValidResponse.validate_fields

end SchedulingUtil
