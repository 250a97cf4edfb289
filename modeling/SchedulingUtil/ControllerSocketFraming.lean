import SchedulingUtil.ControllerMessages
import SchedulingUtil.ControllerSocket
import SchedulingUtil.Lib.Framing

/-! # The control socket's messages on the wire

The client's side, `send_controller_socket_request`, and what either side makes of a
message that arrives in chunks. -/
namespace SchedulingUtil
open Lib.Framing Lib.Json Lib.Utf8

/-- `serialize_socket_message`. -/
def serializeSocketMessage {M : Type} (model : JsonModel M) (m : M) : Bytes :=
  encode (model.modelDumpJson m) ++ [newline]

def responseError : ReadError OSError → PyException
  | .failed e => e.toPyException
  | .tooLarge => .valueError "Controller response is too large."

/-- The receive loop of `send_controller_socket_request`, and the line it makes of the
data. -/
def receiveResponse (recv : Nat → Except OSError Bytes) : Except PyException Bytes := do
  let data ← (readUntil newline maxMessageBytes recv 0 []).mapError responseError
  let line := strip (data.takeWhile (· != newline))
  if line = [] then throw (.valueError "Controller response is empty.")
  return line

/-- The client's socket: what `connect` and `sendall` raise, and the result of every
`recv(4096)`. -/
structure ClientSocket where
  connect : Except OSError Unit
  sendall : Bytes → Except OSError Unit
  recv : Nat → Except OSError Bytes

def raiseOSError {α : Type} : Except OSError α → Except PyException α :=
  Except.mapError OSError.toPyException

/-- `send_controller_socket_request`; `unixSockets` is `hasattr(socket, "AF_UNIX")`. -/
def sendControllerSocketRequest {Q R : Type} (requests : JsonModel Q) (responses : JsonModel R)
    (unixSockets : Bool) (client : ClientSocket) (request : Q) : Except PyException R := do
  if !unixSockets then
    throw ⟨.exception, "RuntimeError", "Unix domain sockets are not supported on this platform."⟩
  raiseOSError client.connect
  raiseOSError (client.sendall (serializeSocketMessage requests request))
  let line ← receiveResponse client.recv
  (responses.validateJson line).mapError fun text => ⟨.exception, "ValidationError", text⟩

/-- The bytes arrive in nonempty chunks, of whatever sizes. -/
def Delivers (recv : Nat → Except OSError Bytes) (stream : Bytes) : Prop :=
  ∃ chunks, Arrives recv 0 chunks ∧ chunks.flatten = stream

/-- The bytes arrive in nonempty chunks, and then the stream ends. -/
def DeliversAll (recv : Nat → Except OSError Bytes) (stream : Bytes) : Prop :=
  ∃ chunks, Arrives recv 0 chunks ∧ chunks.flatten = stream ∧ recv chunks.length = .ok []

/-! ## The server's loop is the same -/

def requestError : ReadError OSError → RequestError
  | .failed e => .exception e.toPyException
  | .tooLarge => .exception (.valueError "Controller request is too large.")

theorem readLoop_eq (recv : Nat → Except OSError Bytes) (i : Nat) (data : Bytes) :
    readLoop recv i data =
      (readUntil newline maxMessageBytes recv i data).mapError requestError := by
  induction i, data using readLoop.induct recv with
  | case1 i data hmem =>
    rw [readLoop, if_pos hmem, readUntil_of_mem hmem]
    rfl
  | case2 i data hmem e hrecv =>
    rw [readLoop, if_neg hmem, readUntil, if_neg hmem, hrecv]
    rfl
  | case3 i data hmem hrecv =>
    rw [readLoop, if_neg hmem, hrecv, readUntil_of_end hmem hrecv]
    rfl
  | case4 i data hmem b chunk hrecv hlarge =>
    rw [readLoop, if_neg hmem, hrecv, readUntil_of_tooLarge hmem hrecv hlarge]
    exact if_pos hlarge
  | case5 i data hmem b chunk hrecv hlarge ih =>
    rw [readLoop, if_neg hmem, hrecv, readUntil_of_chunk hmem hrecv (Nat.not_lt.mp hlarge), ← ih]
    exact if_neg hlarge

/-! ## The line of a message -/

section Message
variable {M : Type} (model : JsonModel M) (m : M)

theorem newline_notMem_payload : newline ∉ encode (model.modelDumpJson m) := by
  intro hmem
  obtain ⟨c, hc, hnat⟩ := exists_mem_of_mem_encode (by decide) hmem
  have hnewline : c = '\n' := Char.toNat_inj.mp hnat
  exact model.newline_notMem m (hnewline ▸ hc)

/-- Nothing is stripped off a line between two bytes that are no white space. -/
theorem strip_eq_self {a b : UInt8} {line front back : Bytes} (hfront : line = a :: front)
    (hback : line = back ++ [b]) (ha : isSpace a = false) (hb : isSpace b = false) :
    strip line = line := by
  have hleft : line.dropWhile isSpace = line := by
    rw [hfront, List.dropWhile_cons_of_neg (by simp [ha])]
  have hright : line.reverse.dropWhile isSpace = line.reverse := by
    rw [hback, List.reverse_append, List.reverse_singleton, List.singleton_append,
      List.dropWhile_cons_of_neg (by simp [hb])]
  rw [strip, hleft, hright, List.reverse_reverse]

theorem strip_payload :
    strip (encode (model.modelDumpJson m)) = encode (model.modelDumpJson m) := by
  obtain ⟨t, ht⟩ := model.starts m
  obtain ⟨u, hu⟩ := model.ends m
  have hfront : encode (model.modelDumpJson m) = 123 :: encode t := by
    rw [ht, encode_cons]
    rfl
  have hback : encode (model.modelDumpJson m) = encode u ++ [125] := by
    rw [hu, encode, List.flatMap_append]
    rfl
  exact strip_eq_self hfront hback (by decide) (by decide)

theorem payload_ne_nil : encode (model.modelDumpJson m) ≠ [] := by
  obtain ⟨t, ht⟩ := model.starts m
  rw [ht, encode_cons]
  exact List.append_ne_nil_of_left_ne_nil String.utf8EncodeChar_ne_nil _

theorem length_serializeSocketMessage :
    (serializeSocketMessage model m).length = (encode (model.modelDumpJson m)).length + 1 := by
  rw [serializeSocketMessage, List.length_append, List.length_singleton]

variable {model m} {recv : Nat → Except OSError Bytes}

/-- What the reader has of a message that fits, with or without its newline. -/
theorem readUntil_of_fits (hfits : (serializeSocketMessage model m).length ≤ maxMessageBytes)
    (h : Delivers recv (serializeSocketMessage model m) ∨
      DeliversAll recv (encode (model.modelDumpJson m))) :
    ∃ data, readUntil newline maxMessageBytes recv 0 [] = .ok data ∧
      strip (data.takeWhile (· != newline)) = encode (model.modelDumpJson m) := by
  have hbody := newline_notMem_payload model m
  have hlength := length_serializeSocketMessage model m
  rcases h with ⟨chunks, harrives, hflatten⟩ | ⟨chunks, harrives, hflatten, hend⟩
  · have hread : readUntil newline maxMessageBytes recv 0 [] = _ :=
      readUntil_frame hbody harrives List.not_mem_nil hflatten
    rw [if_pos (by omega)] at hread
    refine ⟨_, hread, ?_⟩
    rw [takeWhile_frame hbody []]
    exact strip_payload model m
  · have hread : readUntil newline maxMessageBytes recv 0 [] = _ :=
      readUntil_end harrives (by rwa [hflatten]) (by rw [hflatten, List.nil_append]; omega)
      (by rwa [Nat.zero_add])
    rw [hflatten, List.nil_append] at hread
    refine ⟨_, hread, ?_⟩
    rw [takeWhile_body hbody]
    exact strip_payload model m

/-- The limit counts the newline. -/
theorem readUntil_of_large (hlarge : maxMessageBytes < (serializeSocketMessage model m).length)
    (h : Delivers recv (serializeSocketMessage model m)) :
    readUntil newline maxMessageBytes recv 0 [] = .error .tooLarge := by
  obtain ⟨chunks, harrives, hflatten⟩ := h
  have hlength := length_serializeSocketMessage model m
  have hread : readUntil newline maxMessageBytes recv 0 [] = _ :=
    readUntil_frame (newline_notMem_payload model m) harrives List.not_mem_nil hflatten
  rw [if_neg (by omega)] at hread
  exact hread

/-! ## Both sides -/

theorem readRequest_of_readUntil {data line : Bytes}
    (hread : readUntil newline maxMessageBytes recv 0 [] = .ok data)
    (hline : strip (data.takeWhile (· != newline)) = line) (hne : line ≠ []) :
    readRequest recv = .ok line := by
  have hloop : readLoop recv 0 [] = .ok data := by
    rw [readLoop_eq, hread]
    rfl
  subst hline
  simp only [readRequest, hloop, bind, Except.bind, hne, if_false]
  rfl

theorem receiveResponse_of_readUntil {data line : Bytes}
    (hread : readUntil newline maxMessageBytes recv 0 [] = .ok data)
    (hline : strip (data.takeWhile (· != newline)) = line) (hne : line ≠ []) :
    receiveResponse recv = .ok line := by
  subst hline
  simp only [receiveResponse, hread, Except.mapError, bind, Except.bind, hne, if_false]
  rfl

variable (model m)

/-- **Messages survive the wire.** A message that fits is extracted as its JSON by the server
and by the client, however its bytes are cut and also where the stream ends in place of the
newline, and the JSON parses back to it; both refuse one that is too large. -/
theorem message_survives :
    ((serializeSocketMessage model m).length ≤ maxMessageBytes →
      ∀ recv, Delivers recv (serializeSocketMessage model m) ∨
          DeliversAll recv (encode (model.modelDumpJson m)) →
        readRequest recv = .ok (encode (model.modelDumpJson m)) ∧
        receiveResponse recv = .ok (encode (model.modelDumpJson m)) ∧
        model.validateJson (encode (model.modelDumpJson m)) = .ok m) ∧
    (maxMessageBytes < (serializeSocketMessage model m).length →
      ∀ recv, Delivers recv (serializeSocketMessage model m) →
        readRequest recv =
          .error (.exception (.valueError "Controller request is too large.")) ∧
        receiveResponse recv = .error (.valueError "Controller response is too large.")) := by
  constructor
  · intro hfits recv h
    obtain ⟨data, hread, hline⟩ := readUntil_of_fits hfits h
    have hne := payload_ne_nil model m
    exact ⟨readRequest_of_readUntil hread hline hne, receiveResponse_of_readUntil hread hline hne,
      model.validate_dump m⟩
  · intro hlarge recv h
    have hread := readUntil_of_large hlarge h
    constructor
    · rw [readRequest, readLoop_eq, hread]
      rfl
    · rw [receiveResponse, hread]
      rfl

end Message

/-! ## A request and its response -/

theorem handleRequest_version (c : ScheduleController) (request : ControllerRequest) :
    (c.handleRequest request).2.version = protocolVersion := by
  cases request with
  | status => rfl
  | wake =>
    simp only [ScheduleController.handleRequest, ScheduleController.requestWake]
    split <;> rfl
  | runNow =>
    simp only [ScheduleController.handleRequest, ScheduleController.requestRunNow]
    split
    · rfl
    · split <;> rfl
  | quit => rfl

/-- The controller's answer, as the server sends it. -/
def answer (c : ScheduleController) (request : ControllerRequest) : ValidResponse :=
  ⟨(c.handleRequest request).2, handleRequest_version c request⟩

/-- Every request fits. -/
theorem length_request_le (errorText : Bytes → String) (request : ControllerRequest) :
    (serializeSocketMessage (requestModel errorText) request).length ≤ maxMessageBytes := by
  show (encode (render compact 0 (.obj request.fields)) ++ [newline]).length ≤ maxMessageBytes
  cases request <;> decide

section Exchange
variable {requests : JsonModel ControllerRequest} {responses : JsonModel ValidResponse}
  {c : ScheduleController} {request : ControllerRequest} {accepted : Client}
  {client : ClientSocket}

/-- A request that arrives is handled, once and as it was sent. -/
theorem handleConnection_of_delivers
    (hfits : (serializeSocketMessage requests request).length ≤ maxMessageBytes)
    (h : Delivers accepted.recv (serializeSocketMessage requests request)) :
    handleConnection requests.validateJson c accepted =
      ((c.handleRequest request).1, some (answer c request).val) := by
  obtain ⟨data, hread, hline⟩ := readUntil_of_fits hfits (.inl h)
  have hrequest := readRequest_of_readUntil hread hline (payload_ne_nil requests request)
  simp only [handleConnection, hrequest, requests.validate_dump]
  rfl

/-- A response that arrives is what the client's call returns. -/
theorem sendControllerSocketRequest_of_delivers {response : ValidResponse}
    (hconnect : client.connect = .ok ())
    (hsend : client.sendall (serializeSocketMessage requests request) = .ok ())
    (hfits : (serializeSocketMessage responses response).length ≤ maxMessageBytes)
    (h : Delivers client.recv (serializeSocketMessage responses response)) :
    sendControllerSocketRequest requests responses true client request = .ok response := by
  obtain ⟨data, hread, hline⟩ := readUntil_of_fits hfits (.inl h)
  have hresponse := receiveResponse_of_readUntil hread hline (payload_ne_nil responses response)
  simp only [sendControllerSocketRequest, hconnect, hsend, hresponse]
  show (responses.validateJson (encode (responses.modelDumpJson response))).mapError _ = _
  rw [responses.validate_dump]
  rfl

/-- **The client gets the controller's answer to its request**, if either message fits and
arrives, in any chunks. -/
theorem exchange (hconnect : client.connect = .ok ())
    (hsend : client.sendall (serializeSocketMessage requests request) = .ok ())
    (hrequest : (serializeSocketMessage requests request).length ≤ maxMessageBytes)
    (hresponse : (serializeSocketMessage responses (answer c request)).length ≤ maxMessageBytes)
    (hto : Delivers accepted.recv (serializeSocketMessage requests request))
    (hback : Delivers client.recv (serializeSocketMessage responses (answer c request))) :
    (handleConnection requests.validateJson c accepted).2 = some (answer c request).val ∧
      sendControllerSocketRequest requests responses true client request =
        .ok (answer c request) := by
  rw [handleConnection_of_delivers hrequest hto]
  exact ⟨rfl, sendControllerSocketRequest_of_delivers hconnect hsend hresponse hback⟩

end Exchange

/-! ### A message in two chunks, and one that is too large -/

/-- What went wrong, in two lines. -/
def failedInTwoLines : ValidResponse :=
  ⟨errorResponse "Zurückgewiesen:\nungültig", rfl⟩

/-- A message that alone has the whole limit. -/
def limitFilling : ValidResponse :=
  ⟨errorResponse (String.ofList (List.replicate maxMessageBytes 'a')), rfl⟩

def noErrorText : Bytes → String := fun _ => ""

/-- A response is longer than its message. -/
theorem length_message_lt (r : ValidResponse) :
    r.val.message.toList.length < ((responseModel noErrorText).modelDumpJson r).length := by
  have hescape := length_le_escape compact r.val.message.toList
  have hdump : (responseModel noErrorText).modelDumpJson r = render compact 0 (.obj r.fields) := rfl
  rw [hdump]
  simp only [ValidResponse.fields, render, renderMembers, renderString, List.length_cons,
    List.length_append]
  omega

theorem limitFilling_large :
    maxMessageBytes < (serializeSocketMessage (responseModel noErrorText) limitFilling).length := by
  have hlonger := length_message_lt limitFilling
  have hmessage : limitFilling.val.message.toList.length = maxMessageBytes := by
    show (String.ofList (List.replicate maxMessageBytes 'a')).toList.length = maxMessageBytes
    rw [String.toList_ofList, List.length_replicate]
  have hencode := length_le_encode ((responseModel noErrorText).modelDumpJson limitFilling)
  rw [length_serializeSocketMessage]
  omega

/-- The JSON and its newline, each in a chunk of its own. -/
def newlineApart (r : ValidResponse) : Nat → Except OSError Bytes :=
  streamOf [encode ((responseModel noErrorText).modelDumpJson r), [newline]]

theorem delivers_newlineApart (r : ValidResponse) :
    Delivers (newlineApart r) (serializeSocketMessage (responseModel noErrorText) r) := by
  refine ⟨_, arrives_streamOf ?_, by simp [serializeSocketMessage]⟩
  intro chunk hchunk
  rcases List.mem_cons.mp hchunk with rfl | hchunk
  · exact payload_ne_nil _ r
  · obtain rfl := List.mem_singleton.mp hchunk
    exact List.cons_ne_nil _ _

theorem message_survives_newline_apart :
    (receiveResponse (newlineApart failedInTwoLines) =
        .ok (encode ((responseModel noErrorText).modelDumpJson failedInTwoLines)) ∧
      (responseModel noErrorText).validateJson
        (encode ((responseModel noErrorText).modelDumpJson failedInTwoLines)) =
          .ok failedInTwoLines) ∧
      receiveResponse (newlineApart limitFilling) =
        .error (.valueError "Controller response is too large.") := by
  have hfits : (serializeSocketMessage (responseModel noErrorText) failedInTwoLines).length ≤
      maxMessageBytes := by
    decide
  constructor
  · exact ((message_survives (responseModel noErrorText) failedInTwoLines).1 hfits _
      (.inl (delivers_newlineApart failedInTwoLines))).2
  · exact ((message_survives (responseModel noErrorText) limitFilling).2 limitFilling_large _
      (delivers_newlineApart limitFilling)).2

end SchedulingUtil
