import SchedulingUtil.ScheduleRequests

/-! # The end of a schedule

What the controller answers once a quit has been accepted, and once the loop has
marked it as stopped, while its transport still passes requests on to it. -/
namespace SchedulingUtil
open Lib

variable {N : Type}

/-! ## After a quit -/

/-- The quit shows in the status. -/
structure QuitShown (c : ScheduleController) : Prop where
  quitRequested : c.quitRequested = true
  notStarting : c.state ≠ .starting
  notSleeping : c.state ≠ .sleeping

namespace ScheduleController

theorem quitShown_quit (c : ScheduleController) : QuitShown (c.handleRequest .quit).1 := by
  simp only [handleRequest, requestQuit]
  by_cases hs : c.state = .running
  · rw [if_neg (not_not.mpr hs)]
    exact ⟨rfl, by simp [hs], by simp [hs]⟩
  · rw [if_pos hs]
    exact ⟨rfl, by simp, by simp⟩

/-- Once the quit shows, requests are refused, except for a further quit. -/
theorem quitShown_handleRequest {c : ScheduleController} (h : QuitShown c)
    (r : ControllerRequest) :
    QuitShown (c.handleRequest r).1 ∧
      (c.handleRequest r).2.scheduler = some (c.handleRequest r).1.status ∧
      (r = .wake ∨ r = .runNow → (c.handleRequest r).2.ok = false) := by
  cases r with
  | status => exact ⟨h, rfl, by simp⟩
  | wake =>
    simp only [handleRequest, requestWake, h.quitRequested, if_true]
    exact ⟨h, rfl, fun _ => rfl⟩
  | runNow =>
    simp only [handleRequest, requestRunNow, h.quitRequested, if_true]
    split
    · exact ⟨h, rfl, fun _ => rfl⟩
    · exact ⟨h, rfl, fun _ => rfl⟩
  | quit => exact ⟨c.quitShown_quit, rfl, by simp⟩

theorem quitShown_waitForWork {c : ScheduleController} (h : QuitShown c) :
    QuitShown c.waitForWork := by
  rw [waitForWork, if_pos h.quitRequested]
  exact ⟨h.quitRequested, by simp, by simp⟩

end ScheduleController

variable [PyFloat N] {fromTimestamp : FromTimestamp N} {cfg : ScheduleConfig}

/-- Six operations write the state: none of them hides the quit. -/
theorem quitShown_step {s s' : ScheduleState N} {l : ScheduleLabel N} (h : QuitShown s.controller)
    (hstep : s.step fromTimestamp cfg l = some s') : QuitShown s'.controller := by
  cases s.transition_of_step fromTimestamp cfg hstep with
  | request r => exact (ScheduleController.quitShown_handleRequest h r).1
  | take =>
    have hflags := s.controller.takeNextRunMode_flags
    have hstate : s.controller.takeNextRunMode.1.state = s.controller.state := by
      unfold ScheduleController.takeNextRunMode
      split <;> rfl
    exact ⟨hflags.2.2.1.trans h.quitRequested, by rw [hstate]; exact h.notStarting,
      by rw [hstate]; exact h.notSleeping⟩
  | markRunning => exact ⟨h.quitRequested, by simp [ScheduleController.markRunning],
      by simp [ScheduleController.markRunning]⟩
  | heartbeatFails _ e => rw [(s.leave_spec e).1.controller]; exact h
  | shouldRun _ now startedAt reporting =>
    rw [(s.stepShouldRun_spec fromTimestamp cfg now startedAt reporting).1.controller]
    exact h
  | jobEnds _ result finishedAt unrecorded reporting =>
    rw [(s.stepJobEnds_spec cfg result finishedAt unrecorded reporting).1.controller]
    exact h
  | wait | waitReturns => exact ScheduleController.quitShown_waitForWork h
  | markStopped => exact ⟨h.quitRequested, by simp [ScheduleController.markStopped],
      by simp [ScheduleController.markStopped]⟩
  | _ => exact ⟨h.quitRequested, h.notStarting, h.notSleeping⟩

/-- **A quit is irrevocable.** Every request behind an accepted quit is answered
with a status that shows it, and neither a wake nor a run-now is accepted. -/
theorem quit_irrevocable {predicate : RunPredicate} {lastRun : LastRun N}
    {steps : List (ScheduleState N × ScheduleLabel N)} {s : ScheduleState N}
    (h : ScheduleRun fromTimestamp cfg (.initial predicate lastRun) steps s) :
    ∀ before x between y after r, steps = before ++ x :: (between ++ y :: after) →
      Accepts .quit x → y.2 = .request r →
      (∃ status, (y.1.controller.handleRequest r).2.scheduler = some status ∧
        status.quitRequested = true ∧ status.state ≠ .starting ∧ status.state ≠ .sleeping) ∧
      (r = .wake ∨ r = .runNow → (y.1.controller.handleRequest r).2.ok = false) := by
  intro before x between y after r hsteps hacc hr
  subst hsteps
  obtain ⟨hl, -⟩ := hacc
  obtain ⟨-, s₁, hx, hafter⟩ := h.middle
  have hquit : QuitShown s₁.controller := by
    rw [hl] at hx
    cases hx
    exact x.1.controller.quitShown_quit
  have hy : QuitShown y.1.controller :=
    hafter.middle.1.invariant (P := fun u => QuitShown u.controller)
      (fun _ _ _ hu hl => quitShown_step hu hl) hquit
  obtain ⟨hshown, hstatus, hrefused⟩ := ScheduleController.quitShown_handleRequest hy r
  exact ⟨⟨_, hstatus, hshown.quitRequested, hshown.notStarting, hshown.notSleeping⟩, hrefused⟩

/-- A quit at the start of `schedule`, and a wake behind it. -/
theorem quit_irrevocable_at_start :
    ((scheduleStart.controller.handleRequest .quit).1.handleRequest .wake).2.ok = false := by
  have hrun : ScheduleRun utcClock.fromTimestamp minutelySchedule scheduleStart
      [(scheduleStart, .request .quit), (_, .request .wake)] _ := .cons rfl (.single rfl)
  exact (quit_irrevocable hrun [] _ [] _ [] .wake rfl ⟨rfl, rfl⟩ rfl).2 (.inl rfl)

/-! ## After `mark_stopped` -/

/-- What a client can see: the status is `stopped`, in every state that is reached,
and no request for an attempt is accepted. -/
structure StaysStopped (after : List (ScheduleState N × ScheduleLabel N))
    (s : ScheduleState N) : Prop where
  states : ∀ y ∈ after, y.1.controller.status.state = .stopped
  final : s.controller.status.state = .stopped
  refused : ∀ y ∈ after, ¬ Accepts .wake y ∧ ¬ Accepts .runNow y

/-- A request that changes nothing behind `mark_stopped`, given whether a quit has
been accepted before. -/
def HarmlessWhenStopped (quitRequested : Bool) (r : ControllerRequest) : Prop :=
  r = .status ∨ quitRequested = true ∧ r ≠ .quit

namespace ScheduleController

theorem stopped_of_harmless {c : ScheduleController} {r : ControllerRequest}
    (h : HarmlessWhenStopped c.quitRequested r) (hs : c.state = .stopped) :
    (c.handleRequest r).1 = c ∧ (r ≠ .status → (c.handleRequest r).2.ok = false) := by
  rcases h with rfl | ⟨hq, hr⟩
  · exact ⟨rfl, by simp⟩
  · cases r with
    | status => exact ⟨rfl, by simp⟩
    | wake => simp [handleRequest, requestWake, hq, respond]
    | runNow => simp [handleRequest, requestRunNow, hq, hs, respond]
    | quit => exact absurd rfl hr

/-- The others are accepted, and a quit hides that the scheduler is stopped. -/
theorem accepted_of_not_harmless {c : ScheduleController} {r : ControllerRequest}
    (h : ¬ HarmlessWhenStopped c.quitRequested r) (hs : c.state = .stopped) :
    (c.handleRequest r).2.ok = true ∧ (r = .quit → (c.handleRequest r).1.state = .stopping) := by
  rw [HarmlessWhenStopped, not_or, not_and, not_not] at h
  obtain ⟨hr, hquit⟩ := h
  cases hq : c.quitRequested with
  | true =>
    rw [hquit hq]
    simp [handleRequest, requestQuit, hs, respond]
  | false =>
    cases r with
    | status => exact absurd rfl hr
    | wake => simp [handleRequest, requestWake, hq, respond]
    | runNow => simp [handleRequest, requestRunNow, hq, hs, respond]
    | quit => simp [handleRequest, requestQuit, hs, respond]

end ScheduleController

/-- Where the loop has ended, only requests and other processes' writes are left. -/
theorem step_of_ended {s s' : ScheduleState N} {l : ScheduleLabel N}
    {leaving : Option PyException} (hpc : s.pc = .ended leaving)
    (hstep : s.step fromTimestamp cfg l = some s') :
    s'.pc = .ended leaving ∧
      ((∃ r, l = .request r ∧ s'.controller = (s.controller.handleRequest r).1) ∨
        (∀ r, l ≠ .request r) ∧ s'.controller = s.controller) := by
  cases s.transition_of_step fromTimestamp cfg hstep with
  | request r => exact ⟨hpc, .inl ⟨r, rfl, rfl⟩⟩
  | external file => exact ⟨hpc, .inr ⟨by simp, rfl⟩⟩
  | stop h => rcases h with h | h <;> simp [hpc] at h
  | _ h => simp [hpc] at h

omit [PyFloat N] in
theorem not_accepts_of_refused {y : ScheduleState N × ScheduleLabel N}
    {r wanted : ControllerRequest} (hl : y.2 = .request r)
    (hrefused : r = wanted → (y.1.controller.handleRequest r).2.ok = false) :
    ¬ Accepts wanted y := by
  intro hacc
  obtain ⟨hw, hok⟩ := hacc
  cases hl.symm.trans hw
  rw [hrefused rfl] at hok
  cases hok

omit [PyFloat N] in
theorem staysStopped_cons {y : ScheduleState N × ScheduleLabel N}
    {after : List (ScheduleState N × ScheduleLabel N)} {s : ScheduleState N} :
    StaysStopped (y :: after) s ↔
      (y.1.controller.state = .stopped ∧ ¬ Accepts .wake y ∧ ¬ Accepts .runNow y) ∧
        StaysStopped after s := by
  constructor
  · intro h
    exact ⟨⟨h.states y (.head _), h.refused y (.head _)⟩,
      fun z hz => h.states z (.tail _ hz), h.final, fun z hz => h.refused z (.tail _ hz)⟩
  · intro h
    obtain ⟨⟨hs, hr⟩, hrest⟩ := h
    exact ⟨List.forall_mem_cons.mpr ⟨hs, hrest.states⟩, hrest.final,
      List.forall_mem_cons.mpr ⟨hr, hrest.refused⟩⟩

theorem StaysStopped.first {after : List (ScheduleState N × ScheduleLabel N)}
    {u s : ScheduleState N} (h : StaysStopped after s)
    (hrun : ScheduleRun fromTimestamp cfg u after s) : u.controller.state = .stopped := by
  cases after with
  | nil =>
    obtain rfl := hrun.eq_of_nil
    exact h.final
  | cons y after =>
    obtain ⟨rfl, -⟩ := hrun.of_cons
    exact h.states y (.head _)

/-- What follows the end of the loop, by induction on the steps. -/
theorem staysStopped_iff {leaving : Option PyException}
    {after : List (ScheduleState N × ScheduleLabel N)} {u s : ScheduleState N}
    (h : ScheduleRun fromTimestamp cfg u after s) (hpc : u.pc = .ended leaving)
    (hs : u.controller.state = .stopped) :
    StaysStopped after s ↔
      ∀ y ∈ after, ∀ r, y.2 = .request r → HarmlessWhenStopped u.controller.quitRequested r := by
  induction after generalizing u with
  | nil =>
    obtain rfl := h.eq_of_nil
    exact iff_of_true ⟨by simp, hs, by simp⟩ (by simp)
  | cons y after ih =>
    obtain ⟨rfl, v, hstep, hrest⟩ := h.of_cons
    rw [staysStopped_cons, List.forall_mem_cons]
    obtain ⟨hpc', ⟨r, hl, hc⟩ | ⟨hl, hc⟩⟩ := step_of_ended hpc hstep
    · by_cases hr : HarmlessWhenStopped y.1.controller.quitRequested r
      · obtain ⟨hkeep, hrefuse⟩ := ScheduleController.stopped_of_harmless hr hs
        rw [hkeep] at hc
        have hrest' := ih hrest hpc' (by rw [hc]; exact hs)
        rw [hc] at hrest'
        refine and_congr (iff_of_true ⟨hs, ?_, ?_⟩ ?_) hrest'
        · exact not_accepts_of_refused hl fun hw => hrefuse (by simp [hw])
        · exact not_accepts_of_refused hl fun hn => hrefuse (by simp [hn])
        · intro r' hl'
          cases hl.symm.trans hl'
          exact hr
      · refine iff_of_false ?_ fun hall => hr (hall.1 r hl)
        intro hstays
        obtain ⟨⟨-, hwake, hrunNow⟩, hstays⟩ := hstays
        obtain ⟨hok, hquit⟩ := ScheduleController.accepted_of_not_harmless hr hs
        cases r with
        | status => exact hr (.inl rfl)
        | wake => exact hwake ⟨hl, hok⟩
        | runNow => exact hrunNow ⟨hl, hok⟩
        | quit =>
          have hfirst := hstays.first hrest
          rw [hc, hquit rfl] at hfirst
          cases hfirst
    · have hrest' := ih hrest hpc' (by rw [hc]; exact hs)
      rw [hc] at hrest'
      refine and_congr (iff_of_true ⟨hs, ?_, ?_⟩ ?_) hrest'
      · exact fun hacc => hl .wake hacc.1
      · exact fun hacc => hl .runNow hacc.1
      · exact fun r hr => absurd hr (hl r)

/-- **`stopped` is final exactly if only harmless requests are handled behind
`mark_stopped`**: no quit, and a wake or a run-now only where a quit was accepted
before. -/
theorem stopped_final_iff {predicate : RunPredicate} {lastRun : LastRun N}
    {before after : List (ScheduleState N × ScheduleLabel N)} {x s : ScheduleState N}
    (h : ScheduleRun fromTimestamp cfg (.initial predicate lastRun)
      (before ++ (x, .markStopped) :: after) s) :
    StaysStopped after s ↔
      ∀ y ∈ after, ∀ r, y.2 = .request r → HarmlessWhenStopped x.controller.quitRequested r := by
  obtain ⟨-, v, hx, hafter⟩ := h.middle
  cases x.transition_of_step fromTimestamp cfg hx with
  | markStopped hpc =>
    have hiff := staysStopped_iff hafter rfl rfl
    exact hiff

/-- No run at all: the loop ends with its first test. -/
def noRuns : ScheduleConfig := { minutelySchedule with maxRuns := some 0 }

/-- A status request behind the end of the loop. -/
theorem stopped_final_for_status :
    ∃ x y s, ScheduleRun utcClock.fromTimestamp noRuns scheduleStart
        ([(scheduleStart, .shouldStopLoop)] ++ (x, .markStopped) :: [(y, .request .status)]) s ∧
      StaysStopped [(y, .request .status)] s := by
  have hrun : ScheduleRun utcClock.fromTimestamp noRuns scheduleStart
      ([(scheduleStart, .shouldStopLoop)] ++ (_, .markStopped) :: [(_, .request .status)]) _ :=
    .cons rfl (.cons rfl (.single rfl))
  refine ⟨_, _, _, hrun, (stopped_final_iff hrun).mpr ?_⟩
  intro y hy r hr
  rw [List.mem_singleton.mp hy] at hr
  cases hr
  exact .inl rfl

/-- Behind the end of the loop a wake is accepted. -/
theorem stopped_accepts_wake :
    ∃ x y s, ScheduleRun utcClock.fromTimestamp noRuns scheduleStart
        ([(scheduleStart, .shouldStopLoop)] ++ (x, .markStopped) :: [(y, .request .wake)]) s ∧
      y.controller.state = .stopped ∧ Accepts .wake (y, .request .wake) :=
  ⟨_, _, _, .cons rfl (.cons rfl (.single rfl)), rfl, rfl, rfl⟩

end SchedulingUtil
