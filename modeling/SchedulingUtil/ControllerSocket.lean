import SchedulingUtil.Lib.Utf8
import SchedulingUtil.ScheduleController

/-! # The control socket's server

How `ScheduleControllerSocketServer` reads a request, answers it and goes on to
the next connection. A client is what its socket does: the result of every
`recv`, and of `sendall`. How requests are parsed is pydantic's: a parameter. -/
namespace SchedulingUtil
open Lib.Utf8

/-- The class of an `OSError` raised by a socket. -/
inductive OSErrorClass where
  | brokenPipe
  | connectionReset
  | timeout
  | other (name : String)
  deriving DecidableEq

def OSErrorClass.name : OSErrorClass → String
  | .brokenPipe => "BrokenPipeError"
  | .connectionReset => "ConnectionResetError"
  | .timeout => "TimeoutError"
  | .other name => name

structure OSError where
  cls : OSErrorClass
  text : String
  deriving DecidableEq

def OSError.toPyException (e : OSError) : PyException := ⟨.exception, e.cls.name, e.text⟩

/-- `recv i` is the result of the `i`-th `recv(4096)`, empty at the end of the
stream; `send` is what `sendall` raises. -/
structure Client where
  recv : Nat → Except OSError Bytes
  send : Option OSError

def maxMessageBytes : Nat := 64 * 1024

def newline : UInt8 := 10

/-- The whitespace that `bytes.strip` takes off. -/
def isSpace (b : UInt8) : Bool := b == 32 || (9 ≤ b && b ≤ 13)

def strip (line : Bytes) : Bytes := ((line.dropWhile isSpace).reverse.dropWhile isSpace).reverse

/-- What `_serve_connection` tells apart in its first `try`. -/
inductive RequestError where
  | emptySocketRequest
  | validationError (text : String)
  | exception (e : PyException)
  deriving DecidableEq

/-- The loop of `read_request`, before its `i`-th `recv`. -/
def readLoop (recv : Nat → Except OSError Bytes) (i : Nat) (data : Bytes) :
    Except RequestError Bytes :=
  if newline ∈ data then .ok data
  else
    match recv i with
    | .error e => .error (.exception e.toPyException)
    | .ok [] => .ok data
    | .ok (b :: chunk) =>
      if maxMessageBytes < (data ++ b :: chunk).length then
        .error (.exception (.valueError "Controller request is too large."))
      else readLoop recv (i + 1) (data ++ b :: chunk)
termination_by maxMessageBytes - data.length
decreasing_by
  rename_i hle
  rw [List.length_append, List.length_cons] at hle ⊢
  omega

def readRequest (recv : Nat → Except OSError Bytes) : Except RequestError Bytes := do
  let data ← readLoop recv 0 []
  let line := strip (data.takeWhile (· != newline))
  if line = [] then throw .emptySocketRequest
  return line

def errorResponse (message : String) : ControllerResponse :=
  ⟨protocolVersion, false, .error, message, none⟩

/-- `parse_controller_request`, with the text of the `ValidationError` it raises. -/
abbrev ParseRequest := Bytes → Except String ControllerRequest

section Server
variable (parse : ParseRequest)

/-- The first `try` of `_serve_connection`: the response, unless the connection
is dropped without one. -/
def handleConnection (c : ScheduleController) (client : Client) :
    ScheduleController × Option ControllerResponse :=
  match readRequest client.recv with
  | .error .emptySocketRequest => (c, none)
  | .error (.validationError text) =>
    (c, some (errorResponse ("Invalid controller request: " ++ text)))
  | .error (.exception e) => (c, some (errorResponse (e.typeName ++ ": " ++ e.text)))
  | .ok line =>
    match parse line with
    | .error text => (c, some (errorResponse ("Invalid controller request: " ++ text)))
    | .ok request =>
      let (c, response) := c.handleRequest request
      (c, some response)

/-- The second `try`: of what `sendall` raises only `BrokenPipeError` is caught. -/
def sendResponse (client : Client) : Option ControllerResponse → Except OSError Unit
  | none => .ok ()
  | some _ =>
    match client.send with
    | none => .ok ()
    | some e => if e.cls = .brokenPipe then .ok () else .error e

def serveConnection (c : ScheduleController) (client : Client) :
    ScheduleController × Except OSError Unit :=
  let (c, response) := handleConnection parse c client
  (c, sendResponse client response)

/-- What an iteration of `_serve_forever` meets. -/
inductive AcceptEvent where
  | stopSet
  | socketClosed
  | timedOut
  | raised (e : OSError)
  | connection (client : Client)

/-- How far the server's thread has come. -/
inductive ServerEnd where
  | serving
  | stopped
  | acceptFailed (e : OSError)
  | leftBy (e : OSError)

/-- `_serve_forever`: the controller, the number of connections served, and
whether the thread goes on. -/
def serveForever (c : ScheduleController) : List AcceptEvent → ScheduleController × Nat × ServerEnd
  | [] => (c, 0, .serving)
  | .stopSet :: _ => (c, 0, .stopped)
  | .socketClosed :: _ => (c, 0, .stopped)
  | .timedOut :: events => serveForever c events
  | .raised e :: _ => (c, 0, .acceptFailed e)
  | .connection client :: events =>
    match serveConnection parse c client with
    | (c, .error e) => (c, 0, .leftBy e)
    | (c, .ok ()) =>
      let (c, served, serverEnd) := serveForever c events
      (c, served + 1, serverEnd)

end Server

/-! ## Which clients end the server -/

/-- The connections that a server which survives each of them accepts. -/
def accepted : List AcceptEvent → List Client
  | [] => []
  | .timedOut :: events => accepted events
  | .connection client :: events => client :: accepted events
  | _ :: _ => []

/-- The client asks nothing, or takes the response, or has closed its end before. -/
def Client.Harmless (client : Client) : Prop :=
  readRequest client.recv = .error .emptySocketRequest ∨
    ∀ e, client.send = some e → e.cls = .brokenPipe

theorem handleConnection_none_iff (parse : ParseRequest) (c : ScheduleController)
    (client : Client) :
    (handleConnection parse c client).2 = none ↔
      readRequest client.recv = .error .emptySocketRequest := by
  unfold handleConnection
  cases readRequest client.recv with
  | error e => cases e <;> simp
  | ok line =>
    dsimp only
    cases parse line <;> simp

/-- **A connection is survived exactly if its client is harmless.** -/
theorem serveConnection_ok_iff (parse : ParseRequest) (c : ScheduleController) (client : Client) :
    (serveConnection parse c client).2 = .ok () ↔ client.Harmless := by
  have hnone := handleConnection_none_iff parse c client
  unfold serveConnection Client.Harmless
  generalize handleConnection parse c client = handled at hnone ⊢
  obtain ⟨c', response⟩ := handled
  cases response with
  | none => exact iff_of_true rfl (.inl (hnone.mp rfl))
  | some response =>
    have hread : readRequest client.recv ≠ .error .emptySocketRequest :=
      fun h => by cases hnone.mpr h
    simp only [sendResponse, hread, false_or]
    cases client.send with
    | none => simp
    | some e => by_cases he : e.cls = .brokenPipe <;> simp [he]

/-- **The server's loop ends by an exception exactly if it accepts a client that
is not harmless**; otherwise it serves every connection it accepts. -/
theorem server_survives_iff (parse : ParseRequest) (c : ScheduleController)
    (events : List AcceptEvent) :
    ((∀ e, (serveForever parse c events).2.2 ≠ .leftBy e) ∧
        (serveForever parse c events).2.1 = (accepted events).length) ↔
      ∀ client ∈ accepted events, client.Harmless := by
  induction events generalizing c with
  | nil => simp [serveForever, accepted]
  | cons event events ih =>
    cases event with
    | stopSet => simp [serveForever, accepted]
    | socketClosed => simp [serveForever, accepted]
    | timedOut => exact ih c
    | raised e => simp [serveForever, accepted]
    | connection client =>
      have hok := serveConnection_ok_iff parse c client
      unfold serveForever accepted
      generalize serveConnection parse c client = handled at hok ⊢
      obtain ⟨c', result⟩ := handled
      cases result with
      | error e =>
        refine iff_of_false (fun h => h.1 e rfl) ?_
        intro h
        cases hok.mpr (h client (.head _))
      | ok _ =>
        have hharmless := hok.mp rfl
        simp only [List.length_cons, Nat.add_right_cancel_iff, ih c', List.forall_mem_cons,
          hharmless, true_and]

/-- A parser that finds no request valid. -/
def rejectAll : ParseRequest := fun _ => .error "Invalid JSON"

/-- Sends a line that is no request, and does not take the error response in time. -/
def slowClient : Client where
  recv _ := .ok [120, newline]
  send := some ⟨.timeout, "timed out"⟩

theorem readRequest_slowClient : readRequest slowClient.recv = .ok [120] := by
  have hread : readLoop slowClient.recv 0 [] = .ok [120, newline] := by
    rw [readLoop, if_neg (by decide)]
    show readLoop slowClient.recv 1 [120, newline] = _
    rw [readLoop, if_pos (by decide)]
  rw [readRequest, hread]
  rfl

/-- The timeout leaves `_serve_connection`, and ends the server's thread. -/
theorem server_not_survives_timeout :
    (serveForever rejectAll {} [.connection slowClient, .timedOut]).2.2 =
      .leftBy ⟨.timeout, "timed out"⟩ := by
  simp only [serveForever, serveConnection, handleConnection, readRequest_slowClient]
  rfl

end SchedulingUtil
