import SchedulingUtil.ControllerSocketFraming
import SchedulingUtil.ScheduleForcedRuns

/-! # A schedule with its control socket

The server's thread beside the loop's: it serves connections, whatever their clients send,
until it is stopped or a client ends it. Seen from the schedule a connection is one request or
none. On the other side stands `schedule control`, which exits with what it was answered. -/
namespace SchedulingUtil
open Lib Utf8

/-! ## The server beside the loop -/

/-- `serving` says whether the server's thread is in its loop. -/
structure ServedState (N : Type) where
  schedule : ScheduleState N
  serving : Bool

inductive ServedLabel (N : Type) where
  | schedule (l : ScheduleLabel N)
  | connection (client : Client)
  | serverStops

/-- The request that a connection brings to the controller. -/
def request? (parse : ParseRequest) (client : Client) : Option ControllerRequest :=
  match readRequest client.recv with
  | .ok line => (parse line).toOption
  | .error _ => none

section Served
variable {N : Type} [PyFloat N] (parse : ParseRequest) (fromTimestamp : FromTimestamp N)
  (cfg : ScheduleConfig)

/-- Requests come through the server only; while one client is served no other is. -/
inductive ServedStep : ServedState N → ServedLabel N → ServedState N → Prop where
  | schedule {s : ServedState N} {s' : ScheduleState N} {l : ScheduleLabel N}
    (hstep : s.schedule.step fromTimestamp cfg l = some s') (hown : ∀ r, l ≠ .request r) :
    ServedStep s (.schedule l) ⟨s', s.serving⟩
  | connection {s : ServedState N} {client : Client} (hserving : s.serving = true) :
    ServedStep s (.connection client)
      ⟨{ s.schedule with controller := (serveConnection parse s.schedule.controller client).1 },
        (serveConnection parse s.schedule.controller client).2.isOk⟩
  | serverStops {s : ServedState N} : ServedStep s .serverStops ⟨s.schedule, false⟩

abbrev ServedRun : ServedState N → List (ServedState N × ServedLabel N) → ServedState N → Prop :=
  Execution (ServedStep parse fromTimestamp cfg)

/-- The schedule's own view of a step. -/
def asSchedule (x : ServedState N × ServedLabel N) : Option (ScheduleState N × ScheduleLabel N) :=
  match x.2 with
  | .schedule l => some (x.1.schedule, l)
  | .connection client => (request? parse client).map fun r => (x.1.schedule, .request r)
  | .serverStops => none

end Served

/-! ## What a connection is to the schedule -/

/-- The response of a connection: to its request, or why there is none. -/
structure Responds (parse : ParseRequest) (c : ScheduleController) (client : Client)
    (response : ControllerResponse) : Prop where
  requested : ∀ r, request? parse client = some r → response = (c.handleRequest r).2
  refused : request? parse client = none → response.ok = false ∧ response.scheduler = none

theorem serveConnection_fst (parse : ParseRequest) (c : ScheduleController) (client : Client) :
    (serveConnection parse c client).1 =
      match request? parse client with
      | some r => (c.handleRequest r).1
      | none => c := by
  unfold serveConnection handleConnection request?
  cases readRequest client.recv with
  | error e => cases e <;> rfl
  | ok line =>
    dsimp only
    cases parse line <;> rfl

theorem responds (parse : ParseRequest) (c : ScheduleController) (client : Client)
    {response : ControllerResponse} (h : (handleConnection parse c client).2 = some response) :
    Responds parse c client response := by
  unfold handleConnection at h
  cases hread : readRequest client.recv with
  | error e =>
    have hnone : request? parse client = none := by rw [request?, hread]
    rw [hread] at h
    cases e with
    | emptySocketRequest => cases h
    | validationError text =>
      cases h
      exact ⟨by simp [hnone], fun _ => ⟨rfl, rfl⟩⟩
    | exception e =>
      cases h
      exact ⟨by simp [hnone], fun _ => ⟨rfl, rfl⟩⟩
  | ok line =>
    rw [hread] at h
    dsimp only at h
    cases hparse : parse line with
    | error text =>
      have hnone : request? parse client = none := by
        simp [request?, hread, hparse, Except.toOption]
      rw [hparse] at h
      cases h
      exact ⟨by simp [hnone], fun _ => ⟨rfl, rfl⟩⟩
    | ok request =>
      have hsome : request? parse client = some request := by
        simp [request?, hread, hparse, Except.toOption]
      rw [hparse] at h
      cases h
      refine ⟨?_, by simp [hsome]⟩
      intro r hr
      rw [hsome] at hr
      cases hr
      rfl

section Refinement
variable {N : Type} [PyFloat N] {parse : ParseRequest} {fromTimestamp : FromTimestamp N}
  {cfg : ScheduleConfig} {s s' : ServedState N}
  {steps : List (ServedState N × ServedLabel N)}

theorem scheduleRun_of_served (h : ServedRun parse fromTimestamp cfg s steps s') :
    ScheduleRun fromTimestamp cfg s.schedule (steps.filterMap (asSchedule parse))
      s'.schedule := by
  induction h with
  | refl => exact .refl
  | @snoc u _ _ _ _ hl ih =>
    rw [List.filterMap_append]
    cases hl with
    | schedule hstep => exact ih.snoc hstep
    | @connection client hserving =>
      dsimp only
      rw [serveConnection_fst]
      cases hr : request? parse client with
      | none =>
        have hsilent : [(u, ServedLabel.connection client)].filterMap (asSchedule parse) = [] := by
          simp [asSchedule, hr]
        rw [hsilent, List.append_nil]
        exact ih
      | some r =>
        have hrequest : [(u, ServedLabel.connection client)].filterMap (asSchedule parse) =
            [(u.schedule, .request r)] := by
          simp [asSchedule, hr]
        rw [hrequest]
        exact ih.snoc rfl
    | serverStops =>
      have hsilent : [(u, ServedLabel.serverStops)].filterMap (asSchedule parse) = [] := rfl
      rw [hsilent, List.append_nil]
      exact ih

/-- **A schedule with its socket is a schedule with requests**: clients of any kind, whatever
bytes they send and however they end, change it as the requests do that they bring, each at
one point of the loop, and are answered for the state at that point. -/
theorem served_schedule_refines (h : ServedRun parse fromTimestamp cfg s steps s') :
    ScheduleRun fromTimestamp cfg s.schedule (steps.filterMap (asSchedule parse)) s'.schedule ∧
      ∀ u client, (u, .connection client) ∈ steps → ∀ response,
        (handleConnection parse u.schedule.controller client).2 = some response →
          Responds parse u.schedule.controller client response :=
  ⟨scheduleRun_of_served h, fun _ client _ _ hresponse => responds parse _ client hresponse⟩

end Refinement

/-! A client that asks for a wake, and one that ends the server. -/

def wakingClient : Client where
  recv := Framing.streamOf [serializeSocketMessage (requestModel noErrorText) .wake]
  send := none

def parseRequest : ParseRequest := (requestModel noErrorText).validateJson

theorem readRequest_wakingClient : readRequest wakingClient.recv =
    .ok (encode ((requestModel noErrorText).modelDumpJson .wake)) := by
  have hdelivers : Delivers wakingClient.recv
      (serializeSocketMessage (requestModel noErrorText) .wake) := by
    refine ⟨_, Framing.arrives_streamOf ?_, List.flatten_singleton⟩
    intro chunk hchunk
    obtain rfl := List.mem_singleton.mp hchunk
    exact List.append_ne_nil_of_right_ne_nil _ (List.cons_ne_nil _ _)
  obtain ⟨data, hread, hline⟩ :=
    readUntil_of_fits (length_request_le noErrorText .wake) (.inl hdelivers)
  exact readRequest_of_readUntil hread hline (payload_ne_nil (requestModel noErrorText) .wake)

theorem handleConnection_wakingClient (c : ScheduleController) :
    handleConnection parseRequest c wakingClient =
      ((c.handleRequest .wake).1, some (c.handleRequest .wake).2) := by
  simp only [handleConnection, readRequest_wakingClient, parseRequest, JsonModel.validate_dump]

theorem handleConnection_slowClient (c : ScheduleController) :
    handleConnection parseRequest c slowClient =
      (c, some (errorResponse "Invalid controller request: ")) := by
  have hrejected : parseRequest [120] = .error "" := rfl
  simp only [handleConnection, readRequest_slowClient, hrejected]
  rfl

/-- The loop goes on without the server. -/
theorem served_schedule_refines_wake :
    let woken : ScheduleState Int := { scheduleStart with
      controller := (scheduleStart.controller.handleRequest .wake).1 }
    let entered : ScheduleState Int := { woken with pc := .takeNextRunMode }
    ServedRun parseRequest utcClock.fromTimestamp minutelySchedule ⟨scheduleStart, true⟩
        [(⟨scheduleStart, true⟩, .connection wakingClient),
          (⟨woken, true⟩, .connection slowClient),
          (⟨woken, false⟩, .schedule .shouldStopLoop)] ⟨entered, false⟩ ∧
      ScheduleRun utcClock.fromTimestamp minutelySchedule scheduleStart
        [(scheduleStart, .request .wake), (woken, .shouldStopLoop)] entered ∧
      Responds parseRequest scheduleStart.controller wakingClient
        (scheduleStart.controller.handleRequest .wake).2 ∧
      Responds parseRequest woken.controller slowClient
        (errorResponse "Invalid controller request: ") := by
  intro woken entered
  have hserves : ServedStep parseRequest utcClock.fromTimestamp minutelySchedule
      ⟨scheduleStart, true⟩ (.connection wakingClient) ⟨woken, true⟩ := by
    have hstep : ServedStep parseRequest utcClock.fromTimestamp minutelySchedule
        ⟨scheduleStart, true⟩ (.connection wakingClient) _ := .connection rfl
    rwa [serveConnection, handleConnection_wakingClient] at hstep
  have hleaves : ServedStep parseRequest utcClock.fromTimestamp minutelySchedule
      ⟨woken, true⟩ (.connection slowClient) ⟨woken, false⟩ := by
    have hstep : ServedStep parseRequest utcClock.fromTimestamp minutelySchedule
        ⟨woken, true⟩ (.connection slowClient) _ := .connection rfl
    rwa [serveConnection, handleConnection_slowClient] at hstep
  have hrun : ServedRun parseRequest utcClock.fromTimestamp minutelySchedule ⟨scheduleStart, true⟩
      [(⟨scheduleStart, true⟩, .connection wakingClient), (⟨woken, true⟩, .connection slowClient),
        (⟨woken, false⟩, .schedule .shouldStopLoop)] ⟨entered, false⟩ :=
    .cons hserves (.cons hleaves (.single (.schedule rfl (by simp))))
  have hwake : request? parseRequest wakingClient = some .wake := by
    simp only [request?, readRequest_wakingClient, parseRequest, JsonModel.validate_dump]
    rfl
  have hnone : request? parseRequest slowClient = none := by
    rw [request?, readRequest_slowClient]
    rfl
  obtain ⟨hrefines, hresponds⟩ := served_schedule_refines hrun
  simp only [List.filterMap_cons, asSchedule, hwake, hnone, Option.map_some, Option.map_none,
    List.filterMap_nil] at hrefines
  refine ⟨hrun, hrefines, ?_, ?_⟩
  · exact hresponds _ _ (.head _) _ (congrArg Prod.snd (handleConnection_wakingClient _))
  · exact hresponds _ _ (.tail _ (.head _)) _
      (congrArg Prod.snd (handleConnection_slowClient _))

end SchedulingUtil
