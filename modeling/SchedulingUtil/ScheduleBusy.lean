import SchedulingUtil.ScheduleInterrupts

/-! # When `busy` is the truth

`mark_running` is called before an attempt, and nothing is called behind it: the state
stays `running` until the loop waits or ends. -/
namespace SchedulingUtil
open Lib

variable {N : Type}

/-- From `mark_running` to the end of the attempt. -/
def Pc.inAttempt : Pc → Bool
  | .force | .heartbeat | .shouldRun | .job => true
  | _ => false

/-- The step has the loop wait, or end. -/
def ScheduleLabel.rests : ScheduleLabel N → Bool
  | .waitForWork | .markStopped => true
  | _ => false

/-- Since each `mark_running` the loop has gone to wait, or has ended. -/
def RestedSince (steps : List (ScheduleState N × ScheduleLabel N)) : Prop :=
  ∀ before x after, steps = before ++ x :: after → x.2 = .markRunning →
    ∃ y ∈ after, y.2.rests = true

/-- Where no attempt is in progress, the status does not say `running`, and a run-now is
accepted. -/
def BusyIsTrue (s : ScheduleState N) : Prop :=
  s.pc.inAttempt = false →
    s.controller.status.state ≠ .running ∧
    (s.controller.handleRequest .runNow).2.ok = true ∧
    (s.controller.handleRequest .runNow).2.status = .accepted

theorem restedSince_snoc {steps : List (ScheduleState N × ScheduleLabel N)}
    {x : ScheduleState N × ScheduleLabel N} :
    RestedSince (steps ++ [x]) ↔ x.2.rests = true ∨ x.2 ≠ .markRunning ∧ RestedSince steps := by
  constructor
  · intro h
    cases hx : x.2.rests with
    | true => exact .inl rfl
    | false =>
      refine .inr ⟨?_, ?_⟩
      · intro hmark
        obtain ⟨y, hy, -⟩ := h steps x [] rfl hmark
        cases hy
      · intro before y after hsteps hmark
        obtain ⟨z, hz, hrests⟩ := h before y (after ++ [x]) (by rw [hsteps]; simp) hmark
        rcases List.mem_append.mp hz with hz | hz
        · exact ⟨z, hz, hrests⟩
        · rw [List.mem_singleton.mp hz, hx] at hrests
          cases hrests
  · intro h before y after hsteps hmark
    rcases List.eq_nil_or_concat after with rfl | ⟨after, z, rfl⟩
    · obtain ⟨-, hlast⟩ := List.append_inj' hsteps rfl
      cases hlast
      rcases h with hrests | ⟨hne, -⟩
      · rw [hmark] at hrests
        cases hrests
      · exact absurd hmark hne
    · rw [List.concat_eq_append, ← List.cons_append, ← List.append_assoc] at hsteps
      obtain ⟨hinit, hlast⟩ := List.append_inj' hsteps rfl
      cases hlast
      rcases h with hrests | ⟨-, hrested⟩
      · exact ⟨x, by simp, hrests⟩
      · obtain ⟨w, hw, hrests⟩ := hrested before y after hinit hmark
        exact ⟨w, by simp [hw], hrests⟩

variable [PyFloat N] {fromTimestamp : FromTimestamp N} {cfg : ScheduleConfig}

/-- What a step without a quit does to the reported state. -/
theorem running_step {s s' : ScheduleState N} {l : ScheduleLabel N}
    (hstep : s.step fromTimestamp cfg l = some s')
    (hquit : s'.controller.quitRequested = false) :
    l = .markRunning ∧ s'.controller.state = .running ∨
    l.rests = true ∧ s'.controller.state ≠ .running ∨
    l ≠ .markRunning ∧ l.rests = false ∧ s'.controller.state = s.controller.state := by
  cases s.transition_of_step fromTimestamp cfg hstep with
  | markRunning => exact .inl ⟨rfl, rfl⟩
  | wait hpc h | waitReturns hpc h =>
    refine .inr (.inl ⟨rfl, ?_⟩)
    rw [s.controller.waitForWork_flags.2.2] at hquit
    have hsleeping : s.controller.waitForWork.state = .sleeping := by
      simp only [ScheduleController.waitForWork, hquit, Bool.false_eq_true, if_false]
      split <;> rfl
    simp [hsleeping]
  | markStopped => exact .inr (.inl ⟨rfl, by simp [ScheduleController.markStopped]⟩)
  | request r =>
    refine .inr (.inr ⟨by simp, rfl, s.controller.handleRequest_state ?_⟩)
    intro hr
    subst hr
    simp [ScheduleController.handleRequest, ScheduleController.requestQuit] at hquit
    split at hquit <;> simp at hquit
  | take hpc =>
    refine .inr (.inr ⟨by simp, rfl, ?_⟩)
    unfold ScheduleController.takeNextRunMode
    split <;> rfl
  | heartbeatFails hpc e =>
    exact .inr (.inr ⟨by simp, rfl, by rw [(s.leave_spec e).1.controller]⟩)
  | shouldRun hpc now startedAt reporting =>
    have hsame := (s.stepShouldRun_spec fromTimestamp cfg now startedAt reporting).1
    exact .inr (.inr ⟨by simp, rfl, by rw [hsame.controller]⟩)
  | jobEnds hpc result finishedAt unrecorded reporting =>
    have hsame := (s.stepJobEnds_spec cfg result finishedAt unrecorded reporting).1
    exact .inr (.inr ⟨by simp, rfl, by rw [hsame.controller]⟩)
  | _ => exact .inr (.inr ⟨by simp, rfl, rfl⟩)

/-- **The state is `running` exactly if the loop has not rested** since `mark_running`. -/
theorem running_iff {predicate : RunPredicate} {lastRun : LastRun N}
    {steps : List (ScheduleState N × ScheduleLabel N)} {s : ScheduleState N}
    (h : ScheduleRun fromTimestamp cfg (.initial predicate lastRun) steps s)
    (hquit : s.controller.quitRequested = false) :
    s.controller.state = .running ↔ ¬ RestedSince steps := by
  induction h with
  | refl =>
    refine iff_of_false (by simp [ScheduleState.initial]) (not_not_intro ?_)
    intro before x after hsteps
    simp at hsteps
  | @snoc u v l steps h hl ih =>
    have hquit' : u.controller.quitRequested = false := by
      cases hu : u.controller.quitRequested with
      | false => rfl
      | true =>
        rw [quitRequested_step hl hu] at hquit
        cases hquit
    rw [restedSince_snoc]
    rcases running_step hl hquit with ⟨rfl, hstate⟩ | ⟨hrests, hstate⟩ | ⟨hne, hrests, hstate⟩
    · exact iff_of_true hstate (by simp [ScheduleLabel.rests])
    · exact iff_of_false hstate (by simp [hrests])
    · rw [hstate, ih hquit']
      simp [hrests, hne]

theorem runNow_accepted_iff {c : ScheduleController} (hquit : c.quitRequested = false) :
    (c.handleRequest .runNow).2.ok = true ∧ (c.handleRequest .runNow).2.status = .accepted ↔
      c.state ≠ .running := by
  by_cases hs : c.state = .running
  · simp [ScheduleController.handleRequest, ScheduleController.requestRunNow, hs,
      ScheduleController.respond]
  · simp [ScheduleController.handleRequest, ScheduleController.requestRunNow, hs, hquit,
      ScheduleController.respond]

/-- **`busy` is the truth exactly if the loop has rested** between the last attempt and
the request. -/
theorem busy_iff {predicate : RunPredicate} {lastRun : LastRun N}
    {steps : List (ScheduleState N × ScheduleLabel N)} {s : ScheduleState N}
    (h : ScheduleRun fromTimestamp cfg (.initial predicate lastRun) steps s)
    (hquit : s.controller.quitRequested = false) :
    BusyIsTrue s ↔ (s.pc.inAttempt = false → RestedSince steps) := by
  refine imp_congr_right ?_
  intro _
  rw [runNow_accepted_iff hquit]
  refine and_self_iff.trans ?_
  have hrunning := (running_iff h hquit).not
  rw [not_not] at hrunning
  exact hrunning

/-- Behind the first attempt, in `wait_for_work`. -/
theorem busy_in_wait :
    ∃ steps s, ScheduleRun utcClock.fromTimestamp minutelySchedule scheduleStart steps s ∧
      s.pc = .waiting ∧ BusyIsTrue s := by
  have hrun : ScheduleRun utcClock.fromTimestamp minutelySchedule scheduleStart
      ([(scheduleStart, .shouldStopLoop), (_, .takeNextRunMode), (_, .markRunning), (_, .force),
        (_, .heartbeat none), (_, .shouldRun 0 0 none),
        (_, .jobEnds (.returned .none) 0 none none), (_, .updateRunCount), (_, .shouldStopLoop),
        (_, .hasPendingWork)] ++ [(_, .waitForWork)]) _ :=
    .cons rfl (.cons rfl (.cons rfl (.cons rfl (.cons rfl (.cons rfl (.cons rfl (.cons rfl
      (.cons rfl (.cons rfl (.single rfl))))))))))
  exact ⟨_, _, hrun, rfl, (busy_iff hrun rfl).mpr fun _ => (restedSince_snoc ..).mpr (.inl rfl)⟩

def tightSchedule : ScheduleConfig := { minutelySchedule with interval := 0 }

/-- Behind the first attempt of a loop that does not wait. -/
theorem busy_when_idle :
    ∃ steps s, ScheduleRun utcClock.fromTimestamp tightSchedule scheduleStart steps s ∧
      s.pc.inAttempt = false ∧ s.controller.quitRequested = false ∧
      s.controller.status.state = .running ∧
      (s.controller.handleRequest .runNow).2.status = .busy := by
  have hrun : ScheduleRun utcClock.fromTimestamp tightSchedule scheduleStart
      [(scheduleStart, .shouldStopLoop), (_, .takeNextRunMode), (_, .markRunning), (_, .force),
        (_, .heartbeat none), (_, .shouldRun 0 0 none), (_, .jobEnds (.returned .none) 0 none none),
        (_, .updateRunCount), (_, .shouldStopLoop)] _ :=
    .cons rfl (.cons rfl (.cons rfl (.cons rfl (.cons rfl (.cons rfl (.cons rfl (.cons rfl
      (.single rfl))))))))
  exact ⟨_, _, hrun, rfl, rfl, rfl, rfl⟩

end SchedulingUtil
