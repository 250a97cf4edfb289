import SchedulingUtil.ControllerSocketFraming

/-! # The size of a response

The readers of the two sides share a limit that no writer looks at. A response repeats what
a request is rejected for, and it counts the runs. -/
namespace SchedulingUtil
open Lib.Framing Lib.Json Lib.Utf8

/-! ## What texts take in a message -/

/-- The bytes of a text within a JSON string. -/
def escapedLength (s : Text) : Nat := (encode (s.flatMap compact.escape)).length

@[simp] theorem escapedLength_nil : escapedLength [] = 0 := rfl

@[simp] theorem escapedLength_append (s t : Text) :
    escapedLength (s ++ t) = escapedLength s + escapedLength t := by
  rw [escapedLength, List.flatMap_append, encode_append, List.length_append]
  rfl

/-- The bytes of `true` or of `false`. -/
def boolLength (b : Bool) : Nat := if b then 4 else 5

/-- The bytes of a scheduler's status but the digits of `run_count`. -/
def SchedulerStatus.frameLength (s : SchedulerStatus) : Nat :=
  78 + escapedLength s.state.name.toList + boolLength s.pendingWake + boolLength s.pendingRunNow +
    boolLength s.quitRequested

/-- A response with another message. -/
def ValidResponse.withMessage (r : ValidResponse) (message : String) : ValidResponse :=
  ⟨{ r.val with message }, r.property⟩

theorem lt_of_isDigit {c : Char} (h : c.isDigit = true) : c.toNat < 128 := by
  simp only [Char.isDigit, Bool.and_eq_true, decide_eq_true_eq] at h
  have hle : c.toNat ≤ 57 := h.2
  omega

section Response
variable (errorText : Bytes → String) (r : ValidResponse)

/-- The message counts with its escapes. -/
theorem length_serialize_message :
    (serializeSocketMessage (responseModel errorText) r).length =
      (serializeSocketMessage (responseModel errorText) (r.withMessage "")).length +
        escapedLength r.val.message.toList := by
  have hdump (q : ValidResponse) :
      (responseModel errorText).modelDumpJson q = render compact 0 (.obj q.fields) := rfl
  rw [length_serializeSocketMessage, length_serializeSocketMessage, hdump, hdump]
  simp only [ValidResponse.fields, ValidResponse.withMessage, render, renderMembers, renderString,
    escapedLength, encode_append, encode_cons, List.length_append, String.toList_empty,
    List.flatMap_nil, encode_nil, List.length_nil]
  omega

/-- The fields of a response with a status add up. -/
theorem length_serialize_status {s : SchedulerStatus} (hs : r.val.scheduler = some s) :
    (serializeSocketMessage (responseModel errorText) r).length =
      58 + boolLength r.val.ok + escapedLength r.val.status.name.toList +
        escapedLength r.val.message.toList + s.frameLength +
        (Nat.toDigits 10 s.runCount).length := by
  have hdump :
      (responseModel errorText).modelDumpJson r = render compact 0 (.obj r.fields) := rfl
  have hdigits (n : Nat) : (encode (NumberSyntax.render n)).length = (Nat.toDigits 10 n).length :=
    length_encode_of_lt fun c hc => lt_of_isDigit (isDigit_toDigits n c hc)
  have hbool (depth : Nat) (b : Bool) :
      (encode (render compact depth (.bool b : Value Nat))).length = boolLength b := by
    cases b <;> rfl
  have hspace (depth : Nat) : compact.line depth = [] ∧ compact.sep depth = [] := ⟨rfl, rfl⟩
  have hcolon : compact.colon = [] := rfl
  have hmark : ∀ c ∈ ['{', '}', '"', ':', ','], (String.utf8EncodeChar c).length = 1 := by
    simp only [List.forall_mem_cons]
    exact ⟨rfl, rfl, rfl, rfl, rfl, nofun⟩
  have hversion : (Nat.toDigits 10 r.val.version).length = 1 := by rw [r.property]; rfl
  have hname : ∀ name ∈ [("version", 7), ("ok", 2), ("status", 6), ("message", 7),
      ("scheduler", 9), ("state", 5), ("pending_wake", 12), ("pending_run_now", 15),
      ("quit_requested", 14), ("run_count", 9)],
      (encode (name.1.toList.flatMap compact.escape)).length = name.2 := by decide
  simp only [List.forall_mem_cons, List.not_mem_nil, false_implies, implies_true, and_true]
    at hmark hname
  rw [length_serializeSocketMessage, hdump]
  simp only [ValidResponse.fields, ValidResponse.schedulerJson, hs, SchedulerStatus.fields, render,
    renderMembers, renderString, encode_append, encode_cons, List.length_append, encode_nil,
    List.length_nil, hdigits, hversion, hbool, hspace, hcolon, hmark, hname,
    SchedulerStatus.frameLength, escapedLength]
  omega

end Response

/-! ## What a rejected request is quoted for -/

/-- One error of a `ValidationError`: what it quotes of the request, if anything, between
fixed texts. -/
structure QuotingError where
  before : Text
  quoted : Option Text
  after : Text

structure ValidationError where
  head : Text
  errors : List QuotingError

namespace ValidationError

/-- `str(e)`. -/
def text (e : ValidationError) : Text :=
  e.head ++ e.errors.flatMap fun x => x.before ++ x.quoted.getD [] ++ x.after

def quoted (e : ValidationError) : List Text := e.errors.filterMap QuotingError.quoted

/-- What the fixed texts take. -/
def fixedLength (e : ValidationError) : Nat :=
  escapedLength (e.head ++ e.errors.flatMap fun x => x.before ++ x.after)

theorem escapedLength_text (e : ValidationError) :
    escapedLength e.text = e.fixedLength + escapedLength e.quoted.flatten := by
  obtain ⟨head, errors⟩ := e
  simp only [text, fixedLength, quoted, escapedLength_append]
  induction errors with
  | nil => simp
  | cons x errors ih =>
    obtain ⟨before, quoted, after⟩ := x
    cases quoted with
    | none =>
      simp only [List.flatMap_cons, escapedLength_append, Option.getD_none, escapedLength_nil,
        List.filterMap_cons] at ih ⊢
      omega
    | some name =>
      simp only [List.flatMap_cons, escapedLength_append, Option.getD_some, List.filterMap_cons,
        List.flatten_cons] at ih ⊢
      omega

end ValidationError

/-- The tags of the union. -/
def commandTags : List Text :=
  [ControllerRequest.status, .wake, .runNow, .quit].map fun r => r.command.toList

/-- What of a request `str(ValidationError)` quotes: a tag that is none of the commands, or
the names of the extra fields. `tagText` is how a tag is shown that is no text. -/
def offendingNames {N : Type} (tagText : Value N → Text) (data : Value N) : List Text :=
  match data, data.get? "command".toList with
  | .obj fields, some (.str tag) =>
    if tag ∈ commandTags then
      ((fields.map Prod.fst).filter (· ∉ ["version".toList, "command".toList])).eraseDups
    else [tag]
  | .obj _, some tag => [tagText tag]
  | _, _ => []

/-- The same of a line; one that is no JSON is not quoted. -/
def lineNames {N : Type} [NumberSyntax N] (tagText : Value N → Text) (line : Bytes) : List Text :=
  (((decode line).bind loads : Option (Value N)).map (offendingNames tagText)).getD []

/-- How pydantic parses a request. -/
abbrev RequestValidator := Bytes → Except ValidationError ControllerRequest

/-- The errors quote of a line its offending names, and nothing else. -/
def Quotes {N : Type} [NumberSyntax N] (tagText : Value N → Text) (validator : RequestValidator) :
    Prop :=
  ∀ line e, validator line = .error e → e.quoted = lineNames tagText line

def RequestValidator.parse (validator : RequestValidator) : ParseRequest := fun line =>
  (validator line).mapError fun e => String.ofList e.text

/-! ## Which responses fit -/

/-- The error response before what the `ValidationError` says. -/
def errorFrame : ValidResponse := ⟨errorResponse "Invalid controller request: ", rfl⟩

theorem length_errorFrame (errorText : Bytes → String) :
    (serializeSocketMessage (responseModel errorText) errorFrame).length = 100 := by
  show (serializeSocketMessage (responseModel noErrorText) errorFrame).length = 100
  decide

/-- The bytes of an answer but the digits of `run_count`: the fixed ones, `ok`, `status` and
`message`, and the status of the scheduler after the request. -/
def ScheduleController.frameLength (c : ScheduleController) : ControllerRequest → Nat
  | .status => 58 + (4 + 2 + 17) + c.status.frameLength
  | .wake =>
    if c.quitRequested then 58 + (5 + 5 + 22) + c.status.frameLength
    else 58 + (4 + 8 + 15) + { c.status with pendingWake := true }.frameLength
  | .runNow =>
    if c.state = .running then 58 + (5 + 4 + 37) + c.status.frameLength
    else if c.quitRequested then 58 + (5 + 5 + 22) + c.status.frameLength
    else 58 + (4 + 8 + 14) + { c.status with pendingRunNow := true }.frameLength
  | .quit =>
    if c.state = .running then
      58 + (4 + 8 + 15) + { c.status with quitRequested := true }.frameLength
    else
      58 + (4 + 8 + 15) +
        { c.status with state := .stopping, quitRequested := true }.frameLength

theorem length_respond (errorText : Bytes → String) (c : ScheduleController) (ok : Bool)
    (status : ResponseStatus) (message : String)
    (h : (c.respond ok status message).version = protocolVersion) :
    (serializeSocketMessage (responseModel errorText) ⟨c.respond ok status message, h⟩).length =
      58 + boolLength ok + escapedLength status.name.toList + escapedLength message.toList +
        c.status.frameLength + (Nat.toDigits 10 c.runCount).length :=
  length_serialize_status errorText ⟨c.respond ok status message, h⟩ rfl

theorem length_answer (errorText : Bytes → String) (c : ScheduleController)
    (request : ControllerRequest) :
    (serializeSocketMessage (responseModel errorText) (answer c request)).length =
      c.frameLength request + (Nat.toDigits 10 c.runCount).length := by
  have hstatus : escapedLength ResponseStatus.ok.name.toList = 2 ∧
      escapedLength ResponseStatus.accepted.name.toList = 8 ∧
      escapedLength ResponseStatus.busy.name.toList = 4 ∧
      escapedLength ResponseStatus.error.name.toList = 5 := by decide
  have hmessage : ∀ message ∈ [("Scheduler status.", 17), ("Scheduler is quitting.", 22),
      ("Wake requested.", 15), ("Scheduler is already running the job.", 37),
      ("Run requested.", 14), ("Quit requested.", 15)],
      escapedLength message.1.toList = message.2 := by decide
  simp only [List.forall_mem_cons, List.not_mem_nil, false_implies, implies_true, and_true]
    at hmessage
  have hbool : boolLength true = 4 ∧ boolLength false = 5 := by decide
  cases request with
  | status =>
    simp only [answer, ScheduleController.handleRequest, length_respond,
      ScheduleController.frameLength, hstatus, hmessage, hbool]
  | wake =>
    by_cases hquit : c.quitRequested
    · simp only [answer, ScheduleController.handleRequest, ScheduleController.requestWake,
        if_pos hquit, length_respond, ScheduleController.frameLength, hstatus, hmessage, hbool]
    · simp only [answer, ScheduleController.handleRequest, ScheduleController.requestWake,
        if_neg hquit, length_respond, ScheduleController.frameLength, hstatus, hmessage, hbool]
      rfl
  | runNow =>
    by_cases hrunning : c.state = .running
    · simp only [answer, ScheduleController.handleRequest, ScheduleController.requestRunNow,
        if_pos hrunning, length_respond, ScheduleController.frameLength, hstatus, hmessage, hbool]
    · by_cases hquit : c.quitRequested
      · simp only [answer, ScheduleController.handleRequest, ScheduleController.requestRunNow,
          if_neg hrunning, if_pos hquit, length_respond, ScheduleController.frameLength, hstatus,
          hmessage, hbool]
      · simp only [answer, ScheduleController.handleRequest, ScheduleController.requestRunNow,
          if_neg hrunning, if_neg hquit, length_respond, ScheduleController.frameLength, hstatus,
          hmessage, hbool]
        rfl
  | quit =>
    by_cases hrunning : c.state = .running
    · simp only [answer, ScheduleController.handleRequest, ScheduleController.requestQuit,
        if_neg (not_not_intro hrunning), length_respond, ScheduleController.frameLength,
        if_pos hrunning, hstatus, hmessage, hbool]
      rfl
    · simp only [answer, ScheduleController.handleRequest, ScheduleController.requestQuit,
        if_pos (Ne.intro hrunning), length_respond, ScheduleController.frameLength,
        if_neg hrunning, hstatus, hmessage, hbool]
      rfl

theorem frameLength_le (c : ScheduleController) (request : ControllerRequest) :
    c.frameLength request ≤ 206 := by
  have hbool (b : Bool) : boolLength b ≤ 5 := by cases b <;> decide
  have hstate (s : SchedulerState) : escapedLength s.name.toList ≤ 8 := by cases s <;> decide
  have hroom (texts : Nat) (htexts : texts ≤ 105) (s : SchedulerStatus) :
      texts + s.frameLength ≤ 206 := by
    have hname := hstate s.state
    have hwake := hbool s.pendingWake
    have hrun := hbool s.pendingRunNow
    have hquit := hbool s.quitRequested
    rw [SchedulerStatus.frameLength]
    omega
  cases request with
  | status => exact hroom _ (by decide) _
  | wake =>
    simp only [ScheduleController.frameLength]
    split <;> exact hroom _ (by decide) _
  | runNow =>
    simp only [ScheduleController.frameLength]
    split
    · exact hroom _ (by decide) _
    · split <;> exact hroom _ (by decide) _
  | quit =>
    simp only [ScheduleController.frameLength]
    split <;> exact hroom _ (by decide) _

/-- There is room for the digits of the number of runs, or for the error with the names. -/
def RequestValidator.Fits {N : Type} [NumberSyntax N] (tagText : Value N → Text)
    (validator : RequestValidator) (c : ScheduleController) (line : Bytes) : Prop :=
  match validator line with
  | .ok request =>
    c.frameLength request + (Nat.toDigits 10 c.runCount).length ≤ maxMessageBytes
  | .error e =>
    100 + e.fixedLength + escapedLength (lineNames tagText line).flatten ≤ maxMessageBytes

/-- The client's receive loop gets a line out of the response, and parses it. -/
def ReadByClient (errorText : Bytes → String) (response : ValidResponse) : Prop :=
  ∀ recv, Delivers recv (serializeSocketMessage (responseModel errorText) response) →
    ∃ line, receiveResponse recv = .ok line ∧
      (responseModel errorText).validateJson line = .ok response

section Fits
variable {N : Type} [NumberSyntax N] {tagText : Value N → Text} {validator : RequestValidator}
  {c : ScheduleController} {client : Client} {line : Bytes} (errorText : Bytes → String)

theorem readByClient_of_fits {response : ValidResponse}
    (h : (serializeSocketMessage (responseModel errorText) response).length ≤ maxMessageBytes) :
    ReadByClient errorText response := by
  intro recv hrecv
  obtain ⟨-, hline, hvalid⟩ :=
    (message_survives (responseModel errorText) response).1 h recv (.inl hrecv)
  exact ⟨_, hline, hvalid⟩

/-- An accepted request is answered within the limit however often the job has run, up to a
number of 65000 digits. -/
theorem fits_of_ok {request : ControllerRequest} (h : validator line = .ok request)
    (hcount : (Nat.toDigits 10 c.runCount).length ≤ 65000) : validator.Fits tagText c line := by
  have hframe := frameLength_le c request
  have hmax : maxMessageBytes = 65536 := rfl
  rw [RequestValidator.Fits, h]
  dsimp only
  omega

theorem length_error_response (e : ValidationError) :
    (serializeSocketMessage (responseModel errorText) ⟨errorResponse
      ("Invalid controller request: " ++ String.ofList e.text), rfl⟩).length =
      100 + escapedLength e.text := by
  have hwhole := length_serialize_message errorText
    ⟨errorResponse ("Invalid controller request: " ++ String.ofList e.text), rfl⟩
  have hframe := length_serialize_message errorText errorFrame
  have hmessage : (errorResponse
      ("Invalid controller request: " ++ String.ofList e.text)).message.toList =
      errorFrame.val.message.toList ++ e.text := by
    have htext : (String.ofList e.text).toList = e.text := String.toList_ofList
    exact String.toList_append.trans (congrArg _ htext)
  have hsame : ValidResponse.withMessage ⟨errorResponse
      ("Invalid controller request: " ++ String.ofList e.text), rfl⟩ "" =
      errorFrame.withMessage "" := rfl
  rw [hsame, hmessage, escapedLength_append] at hwhole
  rw [length_errorFrame] at hframe
  omega

/-- **A response can be read exactly where the names and the fixed texts of the errors fit
the limit**, or the digits of the number of runs. -/
theorem response_readable_iff (hquotes : Quotes tagText validator)
    (hline : readRequest client.recv = .ok line) :
    ∃ response : ValidResponse,
      (handleConnection validator.parse c client).2 = some response.val ∧
        ((serializeSocketMessage (responseModel errorText) response).length ≤ maxMessageBytes ∧
          ReadByClient errorText response ↔ validator.Fits tagText c line) := by
  have hread (response : ValidResponse) : (serializeSocketMessage (responseModel errorText)
      response).length ≤ maxMessageBytes ∧ ReadByClient errorText response ↔
        (serializeSocketMessage (responseModel errorText) response).length ≤ maxMessageBytes :=
    and_iff_left_of_imp (readByClient_of_fits errorText)
  simp only [handleConnection, hline, hread, RequestValidator.parse, RequestValidator.Fits]
  cases hv : validator line with
  | ok request =>
    have hlength := length_answer errorText c request
    refine ⟨answer c request, rfl, ?_⟩
    omega
  | error e =>
    have hlength := length_error_response errorText e
    rw [e.escapedLength_text, hquotes line e hv] at hlength
    refine ⟨⟨errorResponse ("Invalid controller request: " ++ String.ofList e.text), rfl⟩, rfl, ?_⟩
    omega

end Fits

/-! ### A command that there is none of -/

/-- How the errors quote a name of the request. -/
def quoting (data : Value Nat) (name : Text) : QuotingError :=
  match data.get? "command".toList with
  | some (.str tag) =>
    if tag ∈ commandTags then ⟨[], some name, "\n  Extra inputs are not permitted".toList⟩
    else ⟨"\n  Input tag '".toList, some name,
      "' found using 'command' does not match any of the expected tags".toList⟩
  | _ => ⟨[], some name, []⟩

/-- A tag that is no text, as JSON has it. -/
def plainTagText : Value Nat → Text := render compact 0

/-- Requests of two fields and their errors. -/
def plainValidator : RequestValidator := fun line =>
  match ((decode line).bind loads : Option (Value Nat)) with
  | none => .error ⟨"1 validation error\n  Invalid JSON".toList, []⟩
  | some data =>
    match ControllerRequest.validate data with
    | some request => .ok request
    | none => .error ⟨"1 validation error".toList,
        (offendingNames plainTagText data).map (quoting data)⟩

theorem quotes_plainValidator : Quotes plainTagText plainValidator := by
  intro line e he
  unfold plainValidator at he
  unfold lineNames
  cases hdata : ((decode line).bind loads : Option (Value Nat)) with
  | none =>
    rw [hdata] at he
    cases he
    rfl
  | some data =>
    rw [hdata] at he
    dsimp only at he
    cases hrequest : ControllerRequest.validate data with
    | some request =>
      rw [hrequest] at he
      cases he
    | none =>
      rw [hrequest] at he
      cases he
      have hquoted : QuotingError.quoted ∘ quoting data = some := by
        funext name
        simp only [Function.comp_apply, quoting]
        split
        · split <;> rfl
        · rfl
      show ((offendingNames plainTagText data).map (quoting data)).filterMap QuotingError.quoted = _
      rw [List.filterMap_map, hquoted, List.filterMap_some]
      rfl

/-- What they say of a command that there is none of. -/
def tagError (tag : Text) : ValidationError :=
  ⟨"1 validation error".toList, [⟨"\n  Input tag '".toList, some tag,
    "' found using 'command' does not match any of the expected tags".toList⟩]⟩

/-- A request with this command and no other field. -/
def taggedRequest (tag : Text) : JsonModel Unit :=
  .ofFields noErrorText (fun _ => [("command".toList, .str tag)]) (fun _ => some ()) fun _ => rfl

/-- A client that sends it byte by byte, and takes the response. -/
def taggedClient (tag : Text) : Client where
  recv := streamOf ((serializeSocketMessage (taggedRequest tag) ()).map fun b => [b])
  send := none

section Tagged
variable {tag : Text}

theorem length_taggedRequest (tag : Text) :
    (serializeSocketMessage (taggedRequest tag) ()).length = 15 + escapedLength tag := by
  have hdump : (taggedRequest tag).modelDumpJson () =
      "\x7b\"command\":\"".toList ++ tag.flatMap compact.escape ++ "\"\x7d".toList := by
    show render compact 0 (.obj [("command".toList, (.str tag : Value Nat))]) = _
    simp only [render, renderMembers, renderString]
    simp [compact, escapeControl]
  rw [length_serializeSocketMessage, hdump, encode_append, encode_append, List.length_append,
    List.length_append, escapedLength]
  have hfront : (encode "\x7b\"command\":\"".toList).length = 12 := by decide
  have hback : (encode "\"\x7d".toList).length = 2 := by decide
  omega

theorem readRequest_taggedClient (h : 15 + escapedLength tag ≤ maxMessageBytes) :
    readRequest (taggedClient tag).recv = .ok (encode ((taggedRequest tag).modelDumpJson ())) := by
  rw [← length_taggedRequest tag] at h
  refine ((message_survives (taggedRequest tag) ()).1 h _ (.inl ⟨_, arrives_streamOf ?_, ?_⟩)).1
  · intro chunk hchunk
    obtain ⟨b, -, rfl⟩ := List.mem_map.mp hchunk
    exact List.cons_ne_nil b []
  · rw [← List.flatMap_def, List.flatMap_singleton']

theorem validate_tagged (h : tag ∉ commandTags) :
    ControllerRequest.validate (.obj [("command".toList, .str tag)]) = none := by
  have hliteral : literalField (.obj [("command".toList, .str tag)]) "command"
      [ControllerRequest.status, .wake, .runNow, .quit] ControllerRequest.command = none := by
    rw [literalField_of_get? (s := tag) rfl, List.find?_eq_none]
    intro r hr hrtag
    exact h (List.mem_map.mpr ⟨r, hr, beq_iff_eq.mp hrtag⟩)
  simp only [ControllerRequest.validate, hliteral]
  rfl

theorem plainValidator_tagged (h : tag ∉ commandTags) :
    plainValidator (encode ((taggedRequest tag).modelDumpJson ())) = .error (tagError tag) := by
  have hdata : ((decode (encode ((taggedRequest tag).modelDumpJson ()))).bind loads :
      Option (Value Nat)) = some (.obj [("command".toList, .str tag)]) := by
    rw [decode_encode, Option.bind_some]
    exact loads_render compact _
  have hget : Value.get? (.obj [("command".toList, (.str tag : Value Nat))]) "command".toList =
      some (.str tag) := rfl
  have hnames : offendingNames plainTagText (.obj [("command".toList, .str tag)]) = [tag] := by
    simp only [offendingNames, hget, if_neg h]
  have hquoting : quoting (.obj [("command".toList, (.str tag : Value Nat))]) tag =
      ⟨"\n  Input tag '".toList, some tag,
        "' found using 'command' does not match any of the expected tags".toList⟩ := by
    simp only [quoting, hget, if_neg h]
  simp only [plainValidator, hdata, validate_tagged h, hnames, List.map_cons, List.map_nil,
    hquoting]
  rfl

/-- The server reads the request, and the client cannot read the response. -/
def Unreadable (tag : Text) : Prop :=
  ∃ line message, readRequest (taggedClient tag).recv = .ok line ∧
    (handleConnection plainValidator.parse {} (taggedClient tag)).2 =
      some (errorResponse message) ∧
    maxMessageBytes <
      (serializeSocketMessage (responseModel noErrorText) ⟨errorResponse message, rfl⟩).length ∧
    ∀ recv, Delivers recv
        (serializeSocketMessage (responseModel noErrorText) ⟨errorResponse message, rfl⟩) →
      receiveResponse recv = .error (.valueError "Controller response is too large.")

theorem unreadable_of_tag (h : tag ∉ commandTags) (hread : 15 + escapedLength tag ≤ maxMessageBytes)
    (hlong : maxMessageBytes < 100 + escapedLength tag) : Unreadable tag := by
  have hline := readRequest_taggedClient hread
  have herror := plainValidator_tagged h
  have hlength := length_error_response noErrorText (tagError tag)
  have hquoted : (tagError tag).quoted.flatten = tag := List.append_nil tag
  rw [ValidationError.escapedLength_text, hquoted] at hlength
  refine ⟨_, "Invalid controller request: " ++ String.ofList (tagError tag).text, hline, ?_,
    by omega, ?_⟩
  · simp only [handleConnection, hline, RequestValidator.parse, herror]
    rfl
  · intro recv hrecv
    exact ((message_survives (responseModel noErrorText) ⟨errorResponse _, rfl⟩).2 (by omega) recv
      hrecv).2

end Tagged

theorem escapedLength_replicate (n : Nat) : escapedLength (List.replicate n 'a') = n := by
  induction n with
  | zero => rfl
  | succ n ih =>
    have hone : escapedLength ['a'] = 1 := by decide
    rw [List.replicate_succ', escapedLength_append, ih, hone]

theorem replicate_notMem_commandTags {n : Nat} (hn : 7 < n) :
    List.replicate n 'a' ∉ commandTags := by
  intro hmem
  have hshort : ∀ tag ∈ commandTags, tag.length ≤ 7 := by decide
  have hle := hshort _ hmem
  rw [List.length_replicate] at hle
  omega

/-- A tag that leaves room for the request around it, and for no response. -/
theorem long_tag_unreadable : Unreadable (List.replicate 65500 'a') :=
  unreadable_of_tag (replicate_notMem_commandTags (by decide))
    (by rw [escapedLength_replicate]; decide) (by rw [escapedLength_replicate]; decide)

/-- A short tag that is none is reported, and the report can be read. -/
theorem short_tag_readable :
    ∃ response : ValidResponse,
      (handleConnection plainValidator.parse {} (taggedClient ['x'])).2 = some response.val ∧
        ReadByClient noErrorText response := by
  have hread : readRequest (taggedClient ['x']).recv = _ := readRequest_taggedClient (by decide)
  have herror : plainValidator _ = .error (tagError ['x']) := plainValidator_tagged (by decide)
  obtain ⟨response, hresponse, hiff⟩ :=
    response_readable_iff (c := {}) noErrorText quotes_plainValidator hread
  refine ⟨response, hresponse, (hiff.mpr ?_).2⟩
  rw [RequestValidator.Fits, herror]
  dsimp only
  rw [← quotes_plainValidator _ _ herror]
  decide

end SchedulingUtil
