import SchedulingUtil.Types

/-! # `ScheduleController`

The state that the schedule loop and the control requests share. Every method is
one `with self._condition` block, so one step of either side. -/
namespace SchedulingUtil

inductive SchedulerState where
  | starting
  | sleeping
  | running
  | stopping
  | stopped
  deriving DecidableEq, Repr

inductive ResponseStatus where
  | ok
  | accepted
  | busy
  | error
  deriving DecidableEq, Repr

/-- A validated request, by its `command`. -/
inductive ControllerRequest where
  | status
  | wake
  | runNow
  | quit
  deriving DecidableEq, Repr

structure SchedulerStatus where
  state : SchedulerState
  pendingWake : Bool
  pendingRunNow : Bool
  quitRequested : Bool
  runCount : Nat
  deriving DecidableEq, Repr

def protocolVersion : Nat := 1

structure ControllerResponse where
  version : Nat
  ok : Bool
  status : ResponseStatus
  message : String
  scheduler : Option SchedulerStatus := none
  deriving DecidableEq, Repr

inductive RunMode where
  | normal
  | runNow
  deriving DecidableEq, Repr

/-- The thread in `Condition.wait`: `notify_all` lets it go on, once it gets the
lock again. -/
inductive Waiter where
  | absent
  | waiting
  | notified
  deriving DecidableEq, Repr

def Waiter.notifyAll : Waiter → Waiter
  | .waiting => .notified
  | w => w

structure ScheduleController where
  condition : Waiter := .absent
  state : SchedulerState := .starting
  pendingWake : Bool := false
  pendingRunNow : Bool := false
  quitRequested : Bool := false
  runCount : Nat := 0
  deriving DecidableEq, Repr

namespace ScheduleController

variable (c : ScheduleController)

def status : SchedulerStatus :=
  ⟨c.state, c.pendingWake, c.pendingRunNow, c.quitRequested, c.runCount⟩

def notifyAll : ScheduleController := { c with condition := c.condition.notifyAll }

/-- A response with the status after the request. -/
def respond (ok : Bool) (status : ResponseStatus) (message : String) : ControllerResponse :=
  ⟨protocolVersion, ok, status, message, some c.status⟩

def requestWake : ScheduleController × ControllerResponse :=
  if c.quitRequested then (c, c.respond false .error "Scheduler is quitting.")
  else
    let c := { c with pendingWake := true }.notifyAll
    (c, c.respond true .accepted "Wake requested.")

def requestRunNow : ScheduleController × ControllerResponse :=
  if c.state = .running then
    (c, c.respond false .busy "Scheduler is already running the job.")
  else if c.quitRequested then (c, c.respond false .error "Scheduler is quitting.")
  else
    let c := { c with pendingRunNow := true }.notifyAll
    (c, c.respond true .accepted "Run requested.")

def requestQuit : ScheduleController × ControllerResponse :=
  let c := { c with quitRequested := true }
  let c := (if c.state ≠ .running then { c with state := .stopping } else c).notifyAll
  (c, c.respond true .accepted "Quit requested.")

def handleRequest : ControllerRequest → ScheduleController × ControllerResponse
  | .status => (c, c.respond true .ok "Scheduler status.")
  | .wake => c.requestWake
  | .runNow => c.requestRunNow
  | .quit => c.requestQuit

def markRunning : ScheduleController := { c with state := .running }.notifyAll

def markStopped : ScheduleController := { c with state := .stopped }.notifyAll

def updateRunCount (runCount : Nat) : ScheduleController :=
  { c with runCount }.notifyAll

def takeNextRunMode : ScheduleController × RunMode :=
  if c.pendingRunNow then ({ c with pendingRunNow := false, pendingWake := false }, .runNow)
  else ({ c with pendingWake := false }, .normal)

def hasPendingWork : Bool := c.pendingWake || c.pendingRunNow || c.quitRequested

/-- `wait_for_work` up to the call of `Condition.wait`, which gives the lock
back and blocks in one step; `absent` afterwards where it returns at once. -/
def waitForWork : ScheduleController :=
  if c.quitRequested then { c with state := .stopping }
  else
    let c := { c with state := .sleeping }.notifyAll
    if !c.pendingWake && !c.pendingRunNow then { c with condition := .waiting } else c

/-- `Condition.wait` has returned. -/
def endWait : ScheduleController := { c with condition := .absent }

/-! ## What a request changes -/

@[simp] theorem notifyAll_state : c.notifyAll.state = c.state := rfl
@[simp] theorem notifyAll_pendingWake : c.notifyAll.pendingWake = c.pendingWake := rfl
@[simp] theorem notifyAll_pendingRunNow : c.notifyAll.pendingRunNow = c.pendingRunNow := rfl
@[simp] theorem notifyAll_quitRequested : c.notifyAll.quitRequested = c.quitRequested := rfl
@[simp] theorem notifyAll_runCount : c.notifyAll.runCount = c.runCount := rfl
@[simp] theorem notifyAll_condition : c.notifyAll.condition = c.condition.notifyAll := rfl

@[simp] theorem notifyAll_ne_waiting (w : Waiter) : w.notifyAll ≠ .waiting := by
  cases w <;> decide

@[simp] theorem notifyAll_eq_absent {w : Waiter} : w.notifyAll = .absent ↔ w = .absent := by
  cases w <;> decide

/-- A request only sets flags, and notifies whenever it sets one. -/
theorem handleRequest_cases (r : ControllerRequest) :
    (c.handleRequest r).1 = c ∨
    (c.handleRequest r).1 = { c with pendingWake := true }.notifyAll ∧
      c.quitRequested = false ∧ r = .wake ∨
    (c.handleRequest r).1 = { c with pendingRunNow := true }.notifyAll ∧
      c.quitRequested = false ∧ c.state ≠ .running ∧ r = .runNow ∨
    (∃ state, (c.handleRequest r).1 = { c with quitRequested := true, state }.notifyAll ∧
      (state = c.state ∧ c.state = .running ∨ state = .stopping ∧ c.state ≠ .running)) ∧
      r = .quit := by
  cases r with
  | status => exact .inl rfl
  | wake =>
    cases hq : c.quitRequested with
    | true => exact .inl (by simp [handleRequest, requestWake, hq])
    | false => exact .inr (.inl ⟨by simp [handleRequest, requestWake, hq], rfl, rfl⟩)
  | runNow =>
    by_cases hs : c.state = .running
    · exact .inl (by simp [handleRequest, requestRunNow, hs])
    · cases hq : c.quitRequested with
      | true => exact .inl (by simp [handleRequest, requestRunNow, hs, hq])
      | false =>
        exact .inr (.inr (.inl ⟨by simp [handleRequest, requestRunNow, hs, hq], rfl, hs, rfl⟩))
  | quit =>
    refine .inr (.inr (.inr ⟨?_, rfl⟩))
    by_cases hs : c.state = .running
    · exact ⟨c.state, by simp [handleRequest, requestQuit, hs], .inl ⟨rfl, hs⟩⟩
    · exact ⟨.stopping, by simp [handleRequest, requestQuit, hs], .inr ⟨rfl, hs⟩⟩

/-- Only a quit changes the reported state. -/
theorem handleRequest_state {r : ControllerRequest} (hr : r ≠ .quit) :
    (c.handleRequest r).1.state = c.state := by
  rcases c.handleRequest_cases r with h | ⟨h, -⟩ | ⟨h, -⟩ | ⟨-, h⟩
  · rw [h]
  · rw [h, notifyAll_state]
  · rw [h, notifyAll_state]
  · exact absurd h hr

/-- No flag is taken back. -/
structure KeepsFlags (c' : ScheduleController) : Prop where
  pendingWake : c.pendingWake = true → c'.pendingWake = true
  pendingRunNow : c.pendingRunNow = true → c'.pendingRunNow = true
  quitRequested : c.quitRequested = true → c'.quitRequested = true

theorem KeepsFlags.rfl : c.KeepsFlags c := ⟨id, id, id⟩

theorem keepsFlags_handleRequest (r : ControllerRequest) : c.KeepsFlags (c.handleRequest r).1 := by
  rcases c.handleRequest_cases r with hc | ⟨hc, -⟩ | ⟨hc, -⟩ | ⟨⟨state, hc, -⟩, -⟩ <;> rw [hc]
  · exact .rfl c
  · exact ⟨fun _ => by simp, id, id⟩
  · exact ⟨id, fun _ => by simp, id⟩
  · exact ⟨id, id, fun _ => by simp⟩

/-! ## What the loop's calls change -/

@[simp] theorem waitForWork_flags :
    c.waitForWork.pendingWake = c.pendingWake ∧ c.waitForWork.pendingRunNow = c.pendingRunNow ∧
      c.waitForWork.quitRequested = c.quitRequested := by
  unfold waitForWork
  split
  · exact ⟨rfl, rfl, rfl⟩
  · dsimp only
    split <;> exact ⟨rfl, rfl, rfl⟩

/-- `wait_for_work` blocks if there is nothing to do, and returns otherwise. -/
theorem waitForWork_condition (h : c.condition = .absent) :
    c.waitForWork.condition = if c.hasPendingWork then .absent else .waiting := by
  unfold waitForWork hasPendingWork
  cases c.quitRequested <;> cases c.pendingWake <;> cases c.pendingRunNow <;> simp [h]

theorem hasPendingWork_eq_false :
    c.hasPendingWork = false ↔
      c.pendingWake = false ∧ c.pendingRunNow = false ∧ c.quitRequested = false := by
  simp [hasPendingWork, and_assoc]

theorem takeNextRunMode_flags :
    c.takeNextRunMode.1.pendingRunNow = false ∧ c.takeNextRunMode.1.pendingWake = false ∧
      c.takeNextRunMode.1.quitRequested = c.quitRequested ∧
      c.takeNextRunMode.1.condition = c.condition ∧
      (c.takeNextRunMode.2 = .runNow ↔ c.pendingRunNow = true) := by
  unfold takeNextRunMode
  cases c.pendingRunNow <;> simp

end ScheduleController

end SchedulingUtil
