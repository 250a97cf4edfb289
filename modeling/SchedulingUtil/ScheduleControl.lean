import SchedulingUtil.ControllerResponseSize
import SchedulingUtil.ScheduleClients
import SchedulingUtil.ScheduleProgress

/-! # `schedule control`

What the exit code of a command says about the schedule it was sent to, over a connection
that may break anywhere: what arrives at either end is what the other end sends, as far as it
gets. -/
namespace SchedulingUtil
open Lib Lib.Framing Lib.Json Lib.Utf8

/-! ## The command -/

/-- What a command leaves: what it prints to either stream, and its exit code or the
exception that it ends with. -/
structure ControlResult where
  stdout : Text
  stderr : String
  exit : Except PyException Nat

/-- `send_control_request`, by what `send_controller_socket_request` has come to. -/
def sendControlRequest : Except PyException ValidResponse → ControlResult
  | .ok response =>
    { stdout := render (indented 2) 0 (.obj response.fields) ++ ['\n']
      stderr := ""
      exit := .ok (if response.val.ok then 0 else 2) }
  | .error e =>
    if e.cls = .exception then
      { stdout := [], stderr := "Error: " ++ e.typeName ++ ": " ++ e.text ++ "\n", exit := .ok 1 }
    else { stdout := [], stderr := "", exit := .error e }

/-- A command of `schedule control` with its request. -/
def scheduleControl (requests : JsonModel ControllerRequest) (responses : JsonModel ValidResponse)
    (unixSockets : Bool) (client : ClientSocket) (command : ControllerRequest) : ControlResult :=
  sendControlRequest (sendControllerSocketRequest requests responses unixSockets client command)

/-! ## A message that is cut off -/

section Cut
variable {M : Type} {model : JsonModel M} {m : M} {line : Bytes}

/-- A part of a compact message parses only if it is the whole message. -/
theorem JsonModel.takesWhole_ofFields (errorText : Bytes → String)
    (fields : M → List (Text × Value Nat)) (validate : Value Nat → Option M)
    (h : ∀ m, validate (.obj (fields m)) = some m) :
    (JsonModel.ofFields errorText fields validate h).TakesWhole := by
  intro m m' line hp hv
  simp only [JsonModel.ofFields] at hp hv
  cases hd : decode line with
  | none => simp [hd] at hv
  | some text =>
    obtain ⟨⟨q, hq⟩, -⟩ := decode_prefix hp hd
    rw [hd, Option.bind_some] at hv
    by_cases hnil : q = []
    · rw [hnil, List.append_nil] at hq
      rw [hq, loads_render, Option.bind_some, h] at hv
      cases hv
      rfl
    · have hobj : (Value.obj (fields m) : Value Nat).Bracketed := trivial
      rw [loads_render_cut compact hobj hq hnil] at hv
      cases hv

theorem strip_prefix {body : Bytes} {text : Text} (hbody : body = encode ('{' :: text))
    (hp : line <+: body) : strip line <+: body := by
  cases line with
  | nil => exact List.nil_prefix
  | cons b line =>
    have hb : b = 123 := by
      rw [hbody, encode_cons] at hp
      exact (List.cons_prefix_cons.mp hp).1
    have hleft : (b :: line).dropWhile isSpace = b :: line :=
      List.dropWhile_cons_of_neg (by rw [hb]; decide)
    rw [strip, hleft]
    exact (List.rdropWhile_prefix isSpace _).trans hp

/-- What either side strips off the data of a message is a part of it. -/
theorem strip_line_part {data : Bytes}
    (hp : data <+: serializeSocketMessage model m) :
    strip (data.takeWhile (· != newline)) <+: encode (model.modelDumpJson m) := by
  obtain ⟨text, htext⟩ := model.starts m
  exact strip_prefix (congrArg encode htext)
    (takeWhile_prefix_body (newline_notMem_payload model m) hp)

end Cut

/-! ## Either side -/

section Sides
variable {recv : Nat → Except OSError Bytes} {line : Bytes}

theorem readRequest_line (h : readRequest recv = .ok line) :
    ∃ data, readUntil newline maxMessageBytes recv 0 [] = .ok data ∧
      strip (data.takeWhile (· != newline)) = line := by
  rw [readRequest, readLoop_eq] at h
  cases hread : readUntil newline maxMessageBytes recv 0 [] with
  | error e =>
    rw [hread] at h
    cases h
  | ok data =>
    rw [hread] at h
    simp only [Except.mapError, bind, Except.bind] at h
    split at h
    · cases h
    · cases h
      exact ⟨data, rfl, rfl⟩

theorem receiveResponse_line (h : receiveResponse recv = .ok line) :
    line ≠ [] ∧ ∃ data, readUntil newline maxMessageBytes recv 0 [] = .ok data ∧
      strip (data.takeWhile (· != newline)) = line := by
  rw [receiveResponse] at h
  cases hread : readUntil newline maxMessageBytes recv 0 [] with
  | error e =>
    rw [hread] at h
    cases h
  | ok data =>
    rw [hread] at h
    simp only [Except.mapError, bind, Except.bind] at h
    split at h
    · cases h
    · rename_i hne
      cases h
      exact ⟨hne, data, rfl, rfl⟩

theorem sendControllerSocketRequest_ok {Q R : Type} {requests : JsonModel Q}
    {responses : JsonModel R} {unixSockets : Bool} {client : ClientSocket} {request : Q}
    {response : R}
    (h : sendControllerSocketRequest requests responses unixSockets client request =
      .ok response) :
    ∃ line, receiveResponse client.recv = .ok line ∧
      responses.validateJson line = .ok response := by
  simp only [sendControllerSocketRequest, bind, Except.bind] at h
  cases unixSockets with
  | false => cases h
  | true =>
    cases hconnect : raiseOSError client.connect with
    | error e => simp [hconnect] at h
    | ok =>
      cases hsend : raiseOSError (client.sendall (serializeSocketMessage requests request)) with
      | error e => simp [hconnect, hsend] at h
      | ok =>
        cases hline : receiveResponse client.recv with
        | error e => simp [hconnect, hsend, hline] at h
        | ok line =>
          cases hv : responses.validateJson line with
          | error e => simp [hconnect, hsend, hline, hv, Except.mapError] at h
          | ok r =>
            simp only [hconnect, hsend, hline, hv, Except.mapError] at h
            cases h
            exact ⟨line, rfl, hv⟩

end Sides

/-- What the server writes to a connection; a response has the one version. -/
def responseBytes (responses : JsonModel ValidResponse) : Option ControllerResponse → Bytes
  | none => []
  | some response =>
    if h : response.version = protocolVersion then
      serializeSocketMessage responses ⟨response, h⟩
    else []

/-- A command's connection, which may break anywhere. -/
structure ControlConnection (requests : JsonModel ControllerRequest)
    (responses : JsonModel ValidResponse) (c : ScheduleController) (command : ControllerRequest)
    (client : ClientSocket) (accepted : Client) : Prop where
  request : Carries accepted.recv (serializeSocketMessage requests command)
  response : Carries client.recv (responseBytes responses
    (handleConnection requests.validateJson c accepted).2)

namespace ControlConnection

variable {requests : JsonModel ControllerRequest} {responses : JsonModel ValidResponse}
  {c : ScheduleController} {command : ControllerRequest} {client : ClientSocket}
  {accepted : Client} {unixSockets : Bool} {response : ValidResponse}

/-- The server gets the command or nothing. -/
theorem request_eq (h : ControlConnection requests responses c command client accepted)
    (hwhole : requests.TakesWhole) {r : ControllerRequest}
    (hr : request? requests.validateJson accepted = some r) : r = command := by
  unfold request? at hr
  cases hread : readRequest accepted.recv with
  | error e => simp [hread] at hr
  | ok line =>
    obtain ⟨data, hdata, rfl⟩ := readRequest_line hread
    rw [hread] at hr
    refine hwhole _ _ _ (strip_line_part (h.request.readUntil hdata)) ?_
    cases hv : requests.validateJson (strip (data.takeWhile (· != newline))) with
    | error e =>
      simp only [hv] at hr
      cases hr
    | ok q =>
      simp only [hv] at hr
      cases hr
      rfl

/-- What the client gets is what the server has answered. -/
theorem responded (h : ControlConnection requests responses c command client accepted)
    (hwhole : responses.TakesWhole)
    (hr : sendControllerSocketRequest requests responses unixSockets client command =
      .ok response) :
    (handleConnection requests.validateJson c accepted).2 = some response.val := by
  obtain ⟨line, hline, hv⟩ := sendControllerSocketRequest_ok hr
  obtain ⟨hne, data, hdata, rfl⟩ := receiveResponse_line hline
  have hpart := h.response.readUntil hdata
  have hnothing (hnil : data <+: []) : False := by
    rw [List.prefix_nil.mp hnil] at hne
    exact hne rfl
  unfold responseBytes at hpart
  split at hpart
  · exact (hnothing hpart).elim
  · rename_i sent hsent
    split at hpart
    · rename_i hversion
      have heq := hwhole _ _ _ (strip_line_part hpart) hv
      rw [hsent, heq]
    · exact (hnothing hpart).elim

end ControlConnection

/-! ## The exit code -/

theorem handleRequest_refused {c : ScheduleController} {r : ControllerRequest}
    (h : (c.handleRequest r).2.ok = false) : (c.handleRequest r).1 = c := by
  cases r with
  | status => rfl
  | wake =>
    simp only [ScheduleController.handleRequest, ScheduleController.requestWake] at h ⊢
    split at h
    · rename_i hquit
      rw [if_pos hquit]
    · cases h
  | runNow =>
    simp only [ScheduleController.handleRequest, ScheduleController.requestRunNow] at h ⊢
    split at h
    · rename_i hrunning
      rw [if_pos hrunning]
    · rename_i hrunning
      rw [if_neg hrunning]
      split at h
      · rename_i hquit
        rw [if_pos hquit]
      · cases h
  | quit => cases h

/-- A connection whose response is an error leaves the controller as it is. -/
theorem serveConnection_refused {parse : ParseRequest} {c : ScheduleController} {client : Client}
    {response : ControllerResponse} (h : (handleConnection parse c client).2 = some response)
    (hok : response.ok = false) : (serveConnection parse c client).1 = c := by
  rw [serveConnection_fst]
  cases hr : request? parse client with
  | none => rfl
  | some r =>
    refine handleRequest_refused ?_
    rw [← (responds parse c client h).requested r hr, hok]

theorem receiveResponse_error {recv : Nat → Except OSError Bytes} {e : PyException}
    (h : receiveResponse recv = .error e) : e.cls = .exception := by
  rw [receiveResponse] at h
  cases hread : readUntil newline maxMessageBytes recv 0 [] with
  | error e' =>
    rw [hread] at h
    cases e' <;> cases h <;> rfl
  | ok data =>
    rw [hread] at h
    simp only [Except.mapError, bind, Except.bind] at h
    split at h
    · cases h
      rfl
    · cases h

/-- Nothing but an `Exception` leaves the client's call. -/
theorem sendControllerSocketRequest_error {Q R : Type} {requests : JsonModel Q}
    {responses : JsonModel R} {unixSockets : Bool} {client : ClientSocket} {request : Q}
    {e : PyException}
    (h : sendControllerSocketRequest requests responses unixSockets client request = .error e) :
    e.cls = .exception := by
  simp only [sendControllerSocketRequest, bind, Except.bind, raiseOSError] at h
  cases unixSockets with
  | false => cases h; rfl
  | true =>
    cases hconnect : client.connect with
    | error e =>
      simp only [hconnect, Except.mapError] at h
      cases h
      rfl
    | ok =>
      cases hsend : client.sendall (serializeSocketMessage requests request) with
      | error e =>
        simp only [hconnect, hsend, Except.mapError] at h
        cases h
        rfl
      | ok =>
        cases hline : receiveResponse client.recv with
        | error e' =>
          simp only [hconnect, hsend, hline, Except.mapError] at h
          cases h
          exact receiveResponse_error hline
        | ok line =>
          cases hv : responses.validateJson line with
          | error text =>
            simp only [hconnect, hsend, hline, hv, Except.mapError] at h
            cases h
            rfl
          | ok response =>
            simp only [hconnect, hsend, hline, hv, Except.mapError] at h
            cases h

section Run
variable {N : Type} [PyFloat N] {fromTimestamp : FromTimestamp N} {cfg : ScheduleConfig}
  {predicate : RunPredicate} {lastRun : LastRun N} {requests : JsonModel ControllerRequest}
  {responses : JsonModel ValidResponse}

end Run

/-! ### A run-now at the start -/

def runNowBytes : Bytes := serializeSocketMessage (requestModel noErrorText) .runNow

def runNowAnswer : ValidResponse := answer scheduleStart.controller .runNow

def runNowAccepted : Client := ⟨streamOf [runNowBytes], none⟩

def runNowClient : ClientSocket :=
  ⟨.ok (), fun _ => .ok (),
    streamOf [serializeSocketMessage (responseModel noErrorText) runNowAnswer]⟩

theorem delivers_streamOf {M : Type} (model : JsonModel M) (m : M) :
    Delivers (streamOf [serializeSocketMessage model m]) (serializeSocketMessage model m) := by
  refine ⟨_, arrives_streamOf ?_, by simp⟩
  intro chunk hchunk
  rw [List.mem_singleton.mp hchunk]
  exact List.append_ne_nil_of_right_ne_nil _ (List.cons_ne_nil _ _)

end SchedulingUtil
