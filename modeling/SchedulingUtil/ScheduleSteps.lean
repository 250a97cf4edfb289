import SchedulingUtil.Lib.Execution
import SchedulingUtil.LastRunSpec
import SchedulingUtil.Schedule

/-! # What one step of the schedule does

The step function taken apart once: each transition with its guard and its
result. The invariants of the loop go through these cases. -/
namespace SchedulingUtil
open Lib

variable {N : Type}

namespace ScheduleState

/-- The exits of an attempt: to the count of runs, or out of the loop. -/
def AttemptLeft (s : ScheduleState N) : Prop :=
  s.pc = .updateRunCount ∨ ∃ leaving, s.pc = .markStopped leaving

/-- All but the program counter, the history, the predicate and the pings. -/
structure SameControl (s s' : ScheduleState N) : Prop where
  controller : s'.controller = s.controller
  mode : s'.mode = s.mode
  nRuns : s'.nRuns = s.nRuns

theorem leave_spec (s : ScheduleState N) (e : PyException) :
    s.SameControl (s.leave e) ∧ (s.leave e).predicate = s.predicate ∧
      ∃ leaving, (s.leave e).pc = .markStopped leaving := by
  unfold leave
  split
  · exact ⟨⟨rfl, rfl, rfl⟩, rfl, _, rfl⟩
  · exact ⟨⟨rfl, rfl, rfl⟩, rfl, _, rfl⟩

theorem endAttempt_spec (s : ScheduleState N) (raised : Option PyException) :
    s.SameControl (s.endAttempt raised) ∧ (s.endAttempt raised).predicate = s.predicate ∧
      (s.endAttempt raised).AttemptLeft := by
  cases raised with
  | none => exact ⟨⟨rfl, rfl, rfl⟩, rfl, .inl rfl⟩
  | some e =>
    obtain ⟨hsame, hpred, hpc⟩ := s.leave_spec e
    exact ⟨hsame, hpred, .inr hpc⟩

section Steps
variable [PyFloat N] (fromTimestamp : FromTimestamp N) (cfg : ScheduleConfig)

/-- The decision of the predicate at a step that asks it. -/
def decision (s : ScheduleState N) (now : Datetime) : Except PyException Bool :=
  (s.predicate.call fromTimestamp now s.lastRun.snapshot).2.map Prod.fst

theorem stepShouldRun_spec (s : ScheduleState N) (now : Datetime) (startedAt : N)
    (reporting : Option PyException) :
    let s' := s.stepShouldRun fromTimestamp cfg now startedAt reporting
    s.SameControl s' ∧
    s'.predicate = (s.predicate.call fromTimestamp now s.lastRun.snapshot).1 ∧
    (s'.pc = .job ∧ s.decision fromTimestamp now = .ok true ∨
      s'.AttemptLeft ∧ s.decision fromTimestamp now ≠ .ok true) := by
  unfold stepShouldRun decision LastRun.begin
  generalize s.predicate.call fromTimestamp now s.lastRun.snapshot = called
  obtain ⟨predicate, decision⟩ := called
  cases decision with
  | error e =>
    obtain ⟨⟨hc, hm, hn⟩, hp, hleft⟩ := endAttempt_spec
      { s with predicate, lastRun := s.lastRun.refresh, pings := s.pings ++ [] }
      (leaveErrorBoundary reporting (.error e : Except PyException Unit))
    exact ⟨⟨hc, hm, hn⟩, hp, .inr ⟨hleft, by simp [Except.map]⟩⟩
  | ok r =>
    obtain ⟨b, reports⟩ := r
    cases b with
    | true => exact ⟨⟨rfl, rfl, rfl⟩, rfl, .inl ⟨rfl, rfl⟩⟩
    | false => exact ⟨⟨rfl, rfl, rfl⟩, rfl, .inr ⟨.inl rfl, by simp [Except.map]⟩⟩

theorem stepJobEnds_spec (s : ScheduleState N) (result : JobResult Returned) (finishedAt : N)
    (unrecorded : Option (Unrecorded N)) (reporting : Option PyException) :
    let s' := s.stepJobEnds cfg result finishedAt unrecorded reporting
    s.SameControl s' ∧ s'.predicate = s.predicate ∧ s'.AttemptLeft := by
  unfold stepJobEnds
  generalize s.lastRun.finishUnless (assessResult cfg) finishedAt unrecorded result = finished
  obtain ⟨lastRun, left⟩ := finished
  obtain ⟨⟨hc, hm, hn⟩, hp, hleft⟩ := endAttempt_spec
    { s with lastRun, pings := s.pings ++ pingsAfter cfg result }
    (leaveErrorBoundary reporting left)
  exact ⟨⟨hc, hm, hn⟩, hp, hleft⟩

/-- The predicate after the step that forces its value in mode `run-now`. -/
def forced (s : ScheduleState N) : RunPredicate :=
  match s.mode with
  | .runNow => s.predicate.forceNextReturnValue true
  | .normal => s.predicate

/-- One transition of the schedule, by the label it is taken with. -/
inductive Transition (s : ScheduleState N) : ScheduleLabel N → ScheduleState N → Prop where
  | request (r : ControllerRequest) :
      Transition s (.request r) { s with controller := (s.controller.handleRequest r).1 }
  | external (file : File) :
      Transition s (.external file) { s with lastRun := { s.lastRun with file } }
  | stop (hpc : s.pc = .stopTest ∨ s.pc = .stopTestAfter) (hstop : s.shouldStopLoop cfg = true) :
      Transition s .shouldStopLoop { s with pc := .markStopped none }
  | enter (hpc : s.pc = .stopTest) (hstop : s.shouldStopLoop cfg = false) :
      Transition s .shouldStopLoop { s with pc := .takeNextRunMode }
  | pause (hpc : s.pc = .stopTestAfter) (hstop : s.shouldStopLoop cfg = false)
      (hinterval : 0 < cfg.interval) :
      Transition s .shouldStopLoop { s with pc := .hasPendingWork }
  | again (hpc : s.pc = .stopTestAfter) (hstop : s.shouldStopLoop cfg = false)
      (hinterval : ¬ 0 < cfg.interval) :
      Transition s .shouldStopLoop { s with pc := .stopTest }
  | take (hpc : s.pc = .takeNextRunMode) :
      Transition s .takeNextRunMode
        { s with
          controller := s.controller.takeNextRunMode.1
          mode := s.controller.takeNextRunMode.2
          pc := .markRunning }
  | markRunning (hpc : s.pc = .markRunning) :
      Transition s .markRunning { s with controller := s.controller.markRunning, pc := .force }
  | force (hpc : s.pc = .force) :
      Transition s .force { s with predicate := s.forced, pc := .heartbeat }
  | heartbeat (hpc : s.pc = .heartbeat) :
      Transition s (.heartbeat none) { s with pc := .shouldRun }
  | heartbeatFails (hpc : s.pc = .heartbeat) (e : PyException) :
      Transition s (.heartbeat (some e)) (s.leave e)
  | shouldRun (hpc : s.pc = .shouldRun) (now : Datetime) (startedAt : N)
      (reporting : Option PyException) :
      Transition s (.shouldRun now startedAt reporting)
        (s.stepShouldRun fromTimestamp cfg now startedAt reporting)
  | jobEnds (hpc : s.pc = .job) (result : JobResult Returned) (finishedAt : N)
      (unrecorded : Option (Unrecorded N)) (reporting : Option PyException) :
      Transition s (.jobEnds result finishedAt unrecorded reporting)
        (s.stepJobEnds cfg result finishedAt unrecorded reporting)
  | updateRunCount (hpc : s.pc = .updateRunCount) :
      Transition s .updateRunCount
        { s with
          nRuns := s.nRuns + 1
          controller := s.controller.updateRunCount (s.nRuns + 1)
          pc := .stopTestAfter }
  | workPending (hpc : s.pc = .hasPendingWork) (h : s.controller.hasPendingWork = true) :
      Transition s .hasPendingWork { s with pc := .stopTest }
  | noWorkPending (hpc : s.pc = .hasPendingWork) (h : s.controller.hasPendingWork = false) :
      Transition s .hasPendingWork { s with pc := .waitForWork }
  | wait (hpc : s.pc = .waitForWork) (h : s.controller.waitForWork.condition = .waiting) :
      Transition s .waitForWork
        { s with controller := s.controller.waitForWork, pc := .waiting }
  | waitReturns (hpc : s.pc = .waitForWork) (h : s.controller.waitForWork.condition ≠ .waiting) :
      Transition s .waitForWork
        { s with controller := s.controller.waitForWork, pc := .stopTest }
  | wakeUp (hpc : s.pc = .waiting) (h : s.controller.condition = .notified) :
      Transition s .wakeUp { s with controller := s.controller.endWait, pc := .stopTest }
  | timeout (hpc : s.pc = .waiting) :
      Transition s .timeout { s with controller := s.controller.endWait, pc := .stopTest }
  | interrupt (hpc : s.pc = .waiting) (e : PyException) :
      Transition s (.interrupt e)
        { s with controller := s.controller.endWait, pc := .markStopped (some e) }
  | markStopped {leaving : Option PyException} (hpc : s.pc = .markStopped leaving) :
      Transition s .markStopped
        { s with controller := s.controller.markStopped, pc := .ended leaving }

/-- **A step is one of the transitions.** -/
theorem transition_of_step {s s' : ScheduleState N} {l : ScheduleLabel N}
    (h : s.step fromTimestamp cfg l = some s') : s.Transition fromTimestamp cfg l s' := by
  cases l with
  | request r => cases h; exact .request r
  | external file => cases h; exact .external file
  | shouldStopLoop =>
    simp only [step] at h
    split at h
    · rename_i hpc
      cases h
      cases hstop : s.shouldStopLoop cfg with
      | true => exact .stop (.inl hpc) hstop
      | false => exact .enter hpc hstop
    · rename_i hpc
      cases h
      cases hstop : s.shouldStopLoop cfg with
      | true => exact .stop (.inr hpc) hstop
      | false =>
        by_cases hinterval : 0 < cfg.interval
        · simp only [hinterval, if_true, Bool.false_eq_true, if_false]
          exact .pause hpc hstop hinterval
        · simp only [hinterval, Bool.false_eq_true, if_false]
          exact .again hpc hstop hinterval
    · cases h
  | takeNextRunMode =>
    simp only [step, Option.ite_none_right_eq_some, Option.some.injEq] at h
    obtain ⟨hpc, rfl⟩ := h
    exact .take hpc
  | markRunning =>
    simp only [step, Option.ite_none_right_eq_some, Option.some.injEq] at h
    obtain ⟨hpc, rfl⟩ := h
    exact .markRunning hpc
  | force =>
    simp only [step, Option.ite_none_right_eq_some] at h
    obtain ⟨hpc, h⟩ := h
    have hforce : Transition fromTimestamp cfg s .force _ := .force hpc
    unfold forced at hforce
    cases hm : s.mode <;> simp only [hm] at h hforce <;> cases h <;> exact hforce
  | heartbeat raised =>
    simp only [step, Option.ite_none_right_eq_some] at h
    obtain ⟨hpc, h⟩ := h
    cases raised with
    | none => cases h; exact .heartbeat hpc
    | some e => cases h; exact .heartbeatFails hpc e
  | shouldRun now startedAt reporting =>
    simp only [step, Option.ite_none_right_eq_some, Option.some.injEq] at h
    obtain ⟨hpc, rfl⟩ := h
    exact .shouldRun hpc now startedAt reporting
  | jobEnds result finishedAt unrecorded reporting =>
    simp only [step, Option.ite_none_right_eq_some, Option.some.injEq] at h
    obtain ⟨hpc, rfl⟩ := h
    exact .jobEnds hpc result finishedAt unrecorded reporting
  | updateRunCount =>
    simp only [step, Option.ite_none_right_eq_some, Option.some.injEq] at h
    obtain ⟨hpc, rfl⟩ := h
    exact .updateRunCount hpc
  | hasPendingWork =>
    simp only [step, Option.ite_none_right_eq_some, Option.some.injEq] at h
    obtain ⟨hpc, rfl⟩ := h
    cases hw : s.controller.hasPendingWork with
    | true => exact .workPending hpc hw
    | false => exact .noWorkPending hpc hw
  | waitForWork =>
    simp only [step, Option.ite_none_right_eq_some, Option.some.injEq] at h
    obtain ⟨hpc, rfl⟩ := h
    by_cases hw : s.controller.waitForWork.condition = .waiting
    · simp only [hw, if_true]
      exact .wait hpc hw
    · simp only [hw, if_false]
      exact .waitReturns hpc hw
  | wakeUp =>
    simp only [step, Option.ite_none_right_eq_some, Option.some.injEq] at h
    obtain ⟨⟨hpc, hc⟩, rfl⟩ := h
    exact .wakeUp hpc hc
  | timeout =>
    simp only [step, Option.ite_none_right_eq_some, Option.some.injEq] at h
    obtain ⟨hpc, rfl⟩ := h
    exact .timeout hpc
  | interrupt e =>
    simp only [step, Option.ite_none_right_eq_some, Option.some.injEq] at h
    obtain ⟨hpc, rfl⟩ := h
    exact .interrupt hpc e
  | markStopped =>
    simp only [step] at h
    split at h
    · rename_i hpc
      cases h
      exact .markStopped hpc
    · cases h

end Steps

end ScheduleState

/-- A run of `schedule`: the steps of both threads, in the order they happen. -/
abbrev ScheduleRun [PyFloat N] (fromTimestamp : FromTimestamp N) (cfg : ScheduleConfig) :
    ScheduleState N → List (ScheduleState N × ScheduleLabel N) → ScheduleState N → Prop :=
  Execution fun s l s' => s.step fromTimestamp cfg l = some s'

end SchedulingUtil
