import SchedulingUtil.LastRun
import SchedulingUtil.ScheduleController

/-! # The loop of `schedule`

The loop's thread, step by step, with the control requests that the socket
server's thread handles between any two of its steps. Every access to the
controller is one step; so are the test of the predicate, with the `started`
entry it leads to, and the end of the job, with the `finished` entry. What the
job, the clock and the network do is part of a step's label. -/
namespace SchedulingUtil

/-- What the job function returned; `other` is any value that is not a string,
by its `str`. -/
inductive Returned where
  | none
  | str (s : String)
  | other (text : String)
  deriving DecidableEq

structure ScheduleConfig where
  interval : Timedelta
  maxRuns : Option Int
  /-- The name, as it stands in messages. -/
  name : String
  /-- Whether a health check is configured. -/
  check : Bool

inductive Ping where
  | start
  | success
  | failure
  | log (data : String)
  deriving DecidableEq

def Report.ping : Report → Option Ping
  | .error _ => none
  | .pingLog message => some (.log message)
  | .pingFailure => some .failure

/-! ## The attempt -/

section Attempt
variable (cfg : ScheduleConfig)

def assessReturnValue : Returned → Outcome × String
  | .none => (.success, "")
  | .str s =>
    if s = "success" then (.success, "")
    else if s = "failure" then (.failure, "")
    else if s = "neutral" then (.neutral, "")
    else (.failure, "Unexpected result from `" ++ cfg.name ++ "`: `" ++ s ++ "`")
  | .other text => (.failure, "Unexpected result from `" ++ cfg.name ++ "`: `" ++ text ++ "`")

def assessResult : AssessResult Returned
  | _, some raised =>
    .ok (.failure, "Raised `" ++ raised.typeName ++ "`: " ++ raised.text)
  | some returned, none => .ok (assessReturnValue cfg returned)
  | none, none => .ok (assessReturnValue cfg .none)

/-- The pings of `hc_func`: one when the health check is entered, before the job
runs, and those that follow the job. -/
def pingsBefore : List Ping := if cfg.check then [.start] else []

def pingsAfter : JobResult Returned → List Ping
  | .raised _ => if cfg.check then [.failure] else []
  | .returned returned =>
    if cfg.check then
      match (assessReturnValue cfg returned).1 with
      | .success => [.success]
      | .failure => [.failure]
      | .neutral => []
    else []

end Attempt

/-- How `send_errors_to_slack(reraise=False)` is left: an `Exception` ends in it,
unless reporting it raises; anything else passes through. -/
def leaveErrorBoundary (reporting : Option PyException) {α : Type} :
    Except PyException α → Option PyException
  | .ok _ => none
  | .error e => if e.cls = .exception then reporting else some e

/-! ## The loop -/

/-- The next step of the loop's thread. -/
inductive Pc where
  | stopTest
  | takeNextRunMode
  | markRunning
  | force
  | heartbeat
  | shouldRun
  | job
  | updateRunCount
  | stopTestAfter
  | hasPendingWork
  | waitForWork
  | waiting
  | markStopped (leaving : Option PyException)
  | ended (leaving : Option PyException)
  deriving DecidableEq

structure ScheduleState (N : Type) where
  controller : ScheduleController
  predicate : RunPredicate
  lastRun : LastRun N
  nRuns : Nat
  mode : RunMode
  pc : Pc
  pings : List Ping

/-- A step, with what the world adds to it. `unrecorded` is what keeps the job's end out of the
history, if anything does; `reporting` is what reporting an exception raises, if one is
reported; `external` is another process's write to the history file. -/
inductive ScheduleLabel (N : Type) where
  | request (r : ControllerRequest)
  | external (file : File)
  | shouldStopLoop
  | takeNextRunMode
  | markRunning
  | force
  | heartbeat (raised : Option PyException)
  | shouldRun (now : Datetime) (startedAt : N) (reporting : Option PyException)
  | jobEnds (result : JobResult Returned) (finishedAt : N) (unrecorded : Option (Unrecorded N))
    (reporting : Option PyException)
  | updateRunCount
  | hasPendingWork
  | waitForWork
  | wakeUp
  | timeout
  | interrupt (e : PyException)
  | markStopped

/-- Every step but a request and another process's write is one of the loop. -/
def ScheduleLabel.isLoop {N : Type} : ScheduleLabel N → Bool
  | .request _ | .external _ => false
  | _ => true

/-- A job that ends in this step gets its `finished` entry. -/
def ScheduleLabel.isRecorded {N : Type} : ScheduleLabel N → Bool
  | .jobEnds _ _ unrecorded _ => unrecorded.isNone
  | _ => true

namespace ScheduleState

variable {N : Type}

/-- Where an exception takes the loop: a `KeyboardInterrupt` breaks it, any other
leaves `schedule` once the controller is marked as stopped. -/
def leave (s : ScheduleState N) (e : PyException) : ScheduleState N :=
  if e.cls = .keyboardInterrupt then { s with pc := .markStopped none }
  else { s with pc := .markStopped (some e) }

/-- The end of `attempt()`. -/
def endAttempt (s : ScheduleState N) : Option PyException → ScheduleState N
  | none => { s with pc := .updateRunCount }
  | some e => s.leave e

def shouldStopLoop (cfg : ScheduleConfig) (s : ScheduleState N) : Bool :=
  s.controller.quitRequested || cfg.maxRuns.any fun maxRuns => maxRuns ≤ (s.nRuns : Int)

variable [PyFloat N] (fromTimestamp : FromTimestamp N) (cfg : ScheduleConfig)

/-- The wrapped function up to the call of the job. -/
def stepShouldRun (s : ScheduleState N) (now : Datetime) (startedAt : N)
    (reporting : Option PyException) : ScheduleState N :=
  let (predicate, decision) := s.predicate.call fromTimestamp now s.lastRun.snapshot
  let (lastRun, result) := s.lastRun.begin (fun _ _ => decision.map Prod.fst) now startedAt
  let reports := match decision with
    | .ok (_, reports) => reports.filterMap Report.ping
    | .error _ => []
  let s := { s with predicate, lastRun, pings := s.pings ++ reports }
  match result with
  | .ok true => { s with pc := .job, pings := s.pings ++ pingsBefore cfg }
  | .ok false => s.endAttempt none
  | .error e => s.endAttempt (leaveErrorBoundary reporting (.error e : Except PyException Unit))

/-- The wrapped function from the job's end on. -/
def stepJobEnds (s : ScheduleState N) (result : JobResult Returned) (finishedAt : N)
    (unrecorded : Option (Unrecorded N)) (reporting : Option PyException) : ScheduleState N :=
  let (lastRun, left) := s.lastRun.finishUnless (assessResult cfg) finishedAt unrecorded result
  { s with lastRun, pings := s.pings ++ pingsAfter cfg result }.endAttempt
    (leaveErrorBoundary reporting left)

def step (s : ScheduleState N) : ScheduleLabel N → Option (ScheduleState N)
  | .request r => some { s with controller := (s.controller.handleRequest r).1 }
  | .external file => some { s with lastRun := { s.lastRun with file } }
  | .shouldStopLoop =>
    match s.pc with
    | .stopTest =>
      some { s with pc := if s.shouldStopLoop cfg then .markStopped none else .takeNextRunMode }
    | .stopTestAfter =>
      some { s with pc :=
        if s.shouldStopLoop cfg then .markStopped none
        else if 0 < cfg.interval then .hasPendingWork else .stopTest }
    | _ => none
  | .takeNextRunMode =>
    if s.pc = .takeNextRunMode then
      let (controller, mode) := s.controller.takeNextRunMode
      some { s with controller, mode, pc := .markRunning }
    else none
  | .markRunning =>
    if s.pc = .markRunning then
      some { s with controller := s.controller.markRunning, pc := .force }
    else none
  | .force =>
    if s.pc = .force then
      match s.mode with
      | .runNow =>
        some { s with predicate := s.predicate.forceNextReturnValue true, pc := .heartbeat }
      | .normal => some { s with pc := .heartbeat }
    else none
  | .heartbeat raised =>
    if s.pc = .heartbeat then
      match raised with
      | none => some { s with pc := .shouldRun }
      | some e => some (s.leave e)
    else none
  | .shouldRun now startedAt reporting =>
    if s.pc = .shouldRun then some (s.stepShouldRun fromTimestamp cfg now startedAt reporting)
    else none
  | .jobEnds result finishedAt unrecorded reporting =>
    if s.pc = .job then some (s.stepJobEnds cfg result finishedAt unrecorded reporting) else none
  | .updateRunCount =>
    if s.pc = .updateRunCount then
      some { s with
        nRuns := s.nRuns + 1
        controller := s.controller.updateRunCount (s.nRuns + 1)
        pc := .stopTestAfter }
    else none
  | .hasPendingWork =>
    if s.pc = .hasPendingWork then
      some { s with pc := if s.controller.hasPendingWork then .stopTest else .waitForWork }
    else none
  | .waitForWork =>
    if s.pc = .waitForWork then
      let controller := s.controller.waitForWork
      some { s with
        controller
        pc := if controller.condition = .waiting then .waiting else .stopTest }
    else none
  | .wakeUp =>
    if s.pc = .waiting ∧ s.controller.condition = .notified then
      some { s with controller := s.controller.endWait, pc := .stopTest }
    else none
  | .timeout =>
    if s.pc = .waiting then some { s with controller := s.controller.endWait, pc := .stopTest }
    else none
  | .interrupt e =>
    if s.pc = .waiting then
      some { s with controller := s.controller.endWait, pc := .markStopped (some e) }
    else none
  | .markStopped =>
    match s.pc with
    | .markStopped leaving =>
      some { s with controller := s.controller.markStopped, pc := .ended leaving }
    | _ => none

/-- The state in which `schedule` enters the loop. -/
def initial (predicate : RunPredicate) (lastRun : LastRun N) : ScheduleState N :=
  ⟨{}, { predicate with nextReturnValue := none }, lastRun, 0, .normal, .stopTest, []⟩

end ScheduleState

end SchedulingUtil
