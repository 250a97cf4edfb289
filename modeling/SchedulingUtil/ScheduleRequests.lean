import SchedulingUtil.LastRunPolicy
import SchedulingUtil.ScheduleSteps

/-! # What becomes of the control requests

Wake-ups are not lost; a quit ends the loop, but not at every point at once; a
run-now leads to one forced attempt. Each is a statement about every run, that
is about every interleaving of requests with the loop's steps. -/
namespace SchedulingUtil
open Lib

variable {N : Type}

/-- The request is answered with `ok = true`. -/
def Accepts (r : ControllerRequest) (x : ScheduleState N × ScheduleLabel N) : Prop :=
  x.2 = .request r ∧ (x.1.controller.handleRequest r).2.ok = true

theorem accepts_wake {x : ScheduleState N × ScheduleLabel N} (h : Accepts .wake x) :
    x.2 = .request .wake ∧ (x.1.controller.handleRequest .wake).1.pendingWake = true := by
  obtain ⟨hl, hok⟩ := h
  refine ⟨hl, ?_⟩
  simp only [ScheduleController.handleRequest, ScheduleController.requestWake] at hok ⊢
  split at hok
  · cases hok
  · rename_i hq
    simp [hq]

theorem accepts_runNow {x : ScheduleState N × ScheduleLabel N} (h : Accepts .runNow x) :
    x.2 = .request .runNow ∧ (x.1.controller.handleRequest .runNow).1.pendingRunNow = true := by
  obtain ⟨hl, hok⟩ := h
  refine ⟨hl, ?_⟩
  simp only [ScheduleController.handleRequest, ScheduleController.requestRunNow] at hok ⊢
  split at hok
  · cases hok
  · rename_i hs
    split at hok
    · cases hok
    · rename_i hq
      simp [hs, hq]

theorem handleRequest_quit (c : ScheduleController) :
    (c.handleRequest .quit).1.quitRequested = true := by
  simp only [ScheduleController.handleRequest, ScheduleController.requestQuit]
  split <;> rfl

/-! ## Wake-ups -/

/-- The waiting thread and the flags: it is in the condition only at `waiting`,
and not notified only while no flag is set. -/
structure WaitSound (s : ScheduleState N) : Prop where
  present : s.pc = .waiting ↔ s.controller.condition ≠ .absent
  unnotified : s.controller.condition = .waiting →
    s.controller.pendingWake = false ∧ s.controller.pendingRunNow = false ∧
      s.controller.quitRequested = false

theorem waitSound_request {s : ScheduleState N} (h : WaitSound s) (r : ControllerRequest) :
    WaitSound { s with controller := (s.controller.handleRequest r).1 } := by
  obtain ⟨hpresent, hun⟩ := h
  rcases s.controller.handleRequest_cases r with hc | ⟨hc, -⟩ | ⟨hc, -⟩ | ⟨⟨state, hc, -⟩, -⟩
  · exact ⟨by simp only [hc]; exact hpresent, by simp only [hc]; exact hun⟩
  all_goals exact ⟨by simp only [hc]; simpa using hpresent, by simp [hc]⟩

theorem waitSound_of_absent {s : ScheduleState N} (hpc : s.pc ≠ .waiting)
    (hc : s.controller.condition = .absent) : WaitSound s :=
  ⟨iff_of_false hpc (by simp [hc]), by simp [hc]⟩

theorem WaitSound.absent {s : ScheduleState N} (h : WaitSound s) (hpc : s.pc ≠ .waiting) :
    s.controller.condition = .absent := by
  by_contra hc
  exact hpc (h.present.mpr hc)

theorem attemptLeft_ne_waiting {s : ScheduleState N} (h : s.AttemptLeft) : s.pc ≠ .waiting := by
  rcases h with h | ⟨leaving, h⟩ <;> simp [h]

variable [PyFloat N] {fromTimestamp : FromTimestamp N} {cfg : ScheduleConfig}

theorem waitSound_step {s s' : ScheduleState N} {l : ScheduleLabel N} (h : WaitSound s)
    (hstep : s.step fromTimestamp cfg l = some s') : WaitSound s' := by
  cases s.transition_of_step fromTimestamp cfg hstep with
  | request r => exact waitSound_request h r
  | external file => exact ⟨h.present, h.unnotified⟩
  | stop hpc =>
    exact waitSound_of_absent (by simp) (h.absent (by rcases hpc with h | h <;> simp [h]))
  | enter hpc => exact waitSound_of_absent (by simp) (h.absent (by simp [hpc]))
  | pause hpc => exact waitSound_of_absent (by simp) (h.absent (by simp [hpc]))
  | again hpc => exact waitSound_of_absent (by simp) (h.absent (by simp [hpc]))
  | take hpc =>
    refine waitSound_of_absent (by simp) ?_
    rw [s.controller.takeNextRunMode_flags.2.2.2.1]
    exact h.absent (by simp [hpc])
  | markRunning hpc =>
    refine waitSound_of_absent (by simp) ?_
    simp [ScheduleController.markRunning, h.absent (by simp [hpc])]
  | force hpc => exact waitSound_of_absent (by simp) (h.absent (by simp [hpc]))
  | heartbeat hpc => exact waitSound_of_absent (by simp) (h.absent (by simp [hpc]))
  | heartbeatFails hpc e =>
    obtain ⟨hsame, -, leaving, hleft⟩ := s.leave_spec e
    exact waitSound_of_absent (by simp [hleft])
      (by rw [hsame.controller]; exact h.absent (by simp [hpc]))
  | shouldRun hpc now startedAt reporting =>
    obtain ⟨hsame, -, hleft⟩ := s.stepShouldRun_spec fromTimestamp cfg now startedAt reporting
    refine waitSound_of_absent ?_ (by rw [hsame.controller]; exact h.absent (by simp [hpc]))
    rcases hleft with ⟨hjob, -⟩ | ⟨hleft, -⟩
    · simp [hjob]
    · exact attemptLeft_ne_waiting hleft
  | jobEnds hpc result finishedAt unrecorded reporting =>
    obtain ⟨hsame, -, hleft⟩ := s.stepJobEnds_spec cfg result finishedAt unrecorded reporting
    exact waitSound_of_absent (attemptLeft_ne_waiting hleft)
      (by rw [hsame.controller]; exact h.absent (by simp [hpc]))
  | updateRunCount hpc =>
    refine waitSound_of_absent (by simp) ?_
    simp [ScheduleController.updateRunCount, h.absent (by simp [hpc])]
  | workPending hpc => exact waitSound_of_absent (by simp) (h.absent (by simp [hpc]))
  | noWorkPending hpc => exact waitSound_of_absent (by simp) (h.absent (by simp [hpc]))
  | wait hpc hw =>
    refine ⟨iff_of_true rfl (by simp [hw]), ?_⟩
    intro _
    rw [s.controller.waitForWork_condition (h.absent (by simp [hpc]))] at hw
    have hidle : s.controller.hasPendingWork = false := by
      by_contra hpending
      simp [hpending] at hw
    simpa using s.controller.hasPendingWork_eq_false.mp hidle
  | waitReturns hpc hw =>
    refine waitSound_of_absent (by simp) ?_
    rw [s.controller.waitForWork_condition (h.absent (by simp [hpc]))] at hw ⊢
    split at hw
    · rename_i hpending
      exact if_pos hpending
    · exact absurd rfl hw
  | wakeUp hpc => exact waitSound_of_absent (by simp) rfl
  | timeout hpc => exact waitSound_of_absent (by simp) rfl
  | interrupt hpc e => exact waitSound_of_absent (by simp) rfl
  | markStopped hpc =>
    refine waitSound_of_absent (by simp) ?_
    simp [ScheduleController.markStopped, h.absent (by simp [hpc])]

omit [PyFloat N] in
theorem waitSound_initial (predicate : RunPredicate) (lastRun : LastRun N) :
    WaitSound (.initial predicate lastRun) :=
  waitSound_of_absent (by simp [ScheduleState.initial]) rfl

/-- Only `take_next_run_mode` takes a flag back. -/
theorem keepsFlags_step {s s' : ScheduleState N} {l : ScheduleLabel N}
    (hstep : s.step fromTimestamp cfg l = some s') (hl : l ≠ .takeNextRunMode) :
    s.controller.KeepsFlags s'.controller := by
  cases s.transition_of_step fromTimestamp cfg hstep with
  | request r => exact s.controller.keepsFlags_handleRequest r
  | take => exact absurd rfl hl
  | heartbeatFails _ e => rw [(s.leave_spec e).1.controller]; exact .rfl _
  | shouldRun _ now startedAt reporting =>
    rw [(s.stepShouldRun_spec fromTimestamp cfg now startedAt reporting).1.controller]
    exact .rfl _
  | jobEnds _ result finishedAt unrecorded reporting =>
    rw [(s.stepJobEnds_spec cfg result finishedAt unrecorded reporting).1.controller]
    exact .rfl _
  | wait => exact ⟨by simp, by simp, by simp⟩
  | waitReturns => exact ⟨by simp, by simp, by simp⟩
  | _ => exact ⟨id, id, id⟩

/-- Nothing takes a quit back. -/
theorem quitRequested_step {s s' : ScheduleState N} {l : ScheduleLabel N}
    (hstep : s.step fromTimestamp cfg l = some s') (hq : s.controller.quitRequested = true) :
    s'.controller.quitRequested = true := by
  by_cases hl : l = .takeNextRunMode
  · subst hl
    cases s.transition_of_step fromTimestamp cfg hstep with
    | take => rwa [s.controller.takeNextRunMode_flags.2.2.1]
  · exact (keepsFlags_step hstep hl).quitRequested hq

/-- **No lost wake-up.** Where the loop is blocked and not notified no flag is
set; and what has been accepted keeps its flag until the loop takes it, a quit
for good. -/
theorem no_lost_wakeup {predicate : RunPredicate} {lastRun : LastRun N}
    {steps : List (ScheduleState N × ScheduleLabel N)} {s : ScheduleState N}
    (h : ScheduleRun fromTimestamp cfg (.initial predicate lastRun) steps s) :
    (s.pc = .waiting → s.controller.condition = .waiting →
      s.controller.pendingWake = false ∧ s.controller.pendingRunNow = false ∧
        s.controller.quitRequested = false) ∧
    (∀ before x after, steps = before ++ x :: after →
      (∀ y ∈ after, y.2 ≠ .takeNextRunMode) →
      (Accepts .wake x → s.controller.pendingWake = true) ∧
      (Accepts .runNow x → s.controller.pendingRunNow = true)) ∧
    (∀ before x after, steps = before ++ x :: after → Accepts .quit x →
      s.controller.quitRequested = true) := by
  have hsound : WaitSound s := h.invariant (fun _ _ _ hu hl => waitSound_step hu hl)
    (waitSound_initial predicate lastRun)
  refine ⟨fun _ hc => hsound.unnotified hc, ?_, ?_⟩
  · intro before x after hsteps hnotake
    subst hsteps
    obtain ⟨-, s₁, hx, hafter⟩ := h.middle
    have hkeep {P : ScheduleController → Prop}
        (hP : ∀ u v, ScheduleController.KeepsFlags u v → P u → P v) (h₁ : P s₁.controller) :
        P s.controller := by
      rcases hafter.holds_until (P := fun u => P u.controller)
        (Q := fun y => y.2 = .takeNextRunMode) (fun u l v hu hl => by
          by_cases ht : l = .takeNextRunMode
          · exact .inl ht
          · exact .inr (hP _ _ (keepsFlags_step hl ht) hu)) h₁ with ⟨y, hy, hq⟩ | hP'
      · exact absurd hq (hnotake y hy)
      · exact hP'
    constructor
    · intro hacc
      obtain ⟨hl, hflag⟩ := accepts_wake hacc
      refine hkeep (P := fun c => c.pendingWake = true) (fun _ _ hk => hk.pendingWake) ?_
      rw [hl] at hx
      cases hx
      exact hflag
    · intro hacc
      obtain ⟨hl, hflag⟩ := accepts_runNow hacc
      refine hkeep (P := fun c => c.pendingRunNow = true) (fun _ _ hk => hk.pendingRunNow) ?_
      rw [hl] at hx
      cases hx
      exact hflag
  · intro before x after hsteps hacc
    subst hsteps
    obtain ⟨hl, -⟩ := hacc
    obtain ⟨-, s₁, hx, hafter⟩ := h.middle
    refine hafter.invariant (P := fun u => u.controller.quitRequested = true)
      (fun _ _ _ hu hl => quitRequested_step hl hu) ?_
    rw [hl] at hx
    cases hx
    exact handleRequest_quit _

def minutelySchedule : ScheduleConfig := ⟨60000000, none, "job", false⟩

def scheduleStart : ScheduleState Int := .initial retryingJob (newLastRun 10)

/-- Behind the first attempt the loop blocks with no flag set, until a wake sets one. -/
theorem no_lost_wakeup_in_wait :
    ∃ steps s s', ScheduleRun utcClock.fromTimestamp minutelySchedule scheduleStart steps s ∧
      s.pc = .waiting ∧ s.controller.pendingWake = false ∧
      s.step utcClock.fromTimestamp minutelySchedule (.request .wake) = some s' ∧
      s'.controller.condition = .notified ∧ s'.controller.pendingWake = true := by
  have hrun : ScheduleRun utcClock.fromTimestamp minutelySchedule scheduleStart
      [(scheduleStart, .shouldStopLoop), (_, .takeNextRunMode), (_, .markRunning), (_, .force),
        (_, .heartbeat none), (_, .shouldRun 0 0 none),
        (_, .jobEnds (.returned .none) 0 none none), (_, .updateRunCount), (_, .shouldStopLoop),
        (_, .hasPendingWork), (_, .waitForWork)] _ :=
    .cons rfl (.cons rfl (.cons rfl (.cons rfl (.cons rfl (.cons rfl (.cons rfl (.cons rfl
      (.cons rfl (.cons rfl (.single rfl))))))))))
  have hwoken := hrun.snoc (l := .request .wake) rfl
  refine ⟨_, _, _, hrun, rfl, ((no_lost_wakeup hrun).1 rfl rfl).1, rfl, rfl, ?_⟩
  exact ((no_lost_wakeup hwoken).2.1 _ _ [] rfl (by simp)).1 ⟨rfl, rfl⟩

/-! ## Quit -/

/-- Quit is requested and the loop is not about to begin an attempt: it tests
for the quit before it takes the next run mode. -/
structure Quitting (s : ScheduleState N) : Prop where
  quitRequested : s.controller.quitRequested = true
  notTaking : s.pc ≠ .takeNextRunMode
  notMarking : s.pc ≠ .markRunning

omit [PyFloat N] in
theorem attemptLeft_quitting {s : ScheduleState N} (h : s.AttemptLeft)
    (hq : s.controller.quitRequested = true) : Quitting s := by
  rcases h with h | ⟨leaving, h⟩ <;> exact ⟨hq, by simp [h], by simp [h]⟩

/-- A loop that is quitting goes on quitting, and marks no attempt as running. -/
theorem quitting_step {s s' : ScheduleState N} {l : ScheduleLabel N} (h : Quitting s)
    (hstep : s.step fromTimestamp cfg l = some s') : l ≠ .markRunning ∧ Quitting s' := by
  have hq := quitRequested_step hstep h.quitRequested
  have hstop : s.shouldStopLoop cfg = true := by
    simp [ScheduleState.shouldStopLoop, h.quitRequested]
  cases s.transition_of_step fromTimestamp cfg hstep with
  | request r => exact ⟨by simp, hq, h.notTaking, h.notMarking⟩
  | external file => exact ⟨by simp, hq, h.notTaking, h.notMarking⟩
  | enter _ hgo => rw [hstop] at hgo; cases hgo
  | pause _ hgo => rw [hstop] at hgo; cases hgo
  | again _ hgo => rw [hstop] at hgo; cases hgo
  | take hpc => exact absurd hpc h.notTaking
  | markRunning hpc => exact absurd hpc h.notMarking
  | heartbeatFails _ e =>
    obtain ⟨-, -, leaving, hleft⟩ := s.leave_spec e
    exact ⟨by simp, attemptLeft_quitting (.inr ⟨leaving, hleft⟩) hq⟩
  | shouldRun _ now startedAt reporting =>
    obtain ⟨-, -, ⟨hjob, -⟩ | ⟨hleft, -⟩⟩ :=
      s.stepShouldRun_spec fromTimestamp cfg now startedAt reporting
    · exact ⟨by simp, hq, by simp [hjob], by simp [hjob]⟩
    · exact ⟨by simp, attemptLeft_quitting hleft hq⟩
  | jobEnds _ result finishedAt unrecorded reporting =>
    exact ⟨by simp,
      attemptLeft_quitting (s.stepJobEnds_spec cfg result finishedAt unrecorded reporting).2.2 hq⟩
  | _ => exact ⟨by simp, hq, by simp, by simp⟩

/-- Between the test for a quit and `mark_running` the loop begins its attempt
whatever is requested. -/
theorem markRunning_reachable {s : ScheduleState N}
    (hpc : s.pc = .takeNextRunMode ∨ s.pc = .markRunning) :
    ∃ steps s', ScheduleRun fromTimestamp cfg s steps s' ∧ ∃ x ∈ steps, x.2 = .markRunning := by
  have hmark {u : ScheduleState N} (hu : u.pc = .markRunning) :
      ∃ v, u.step fromTimestamp cfg .markRunning = some v := ⟨_, if_pos hu⟩
  rcases hpc with hpc | hpc
  · obtain ⟨u, hu, hupc⟩ : ∃ u, s.step fromTimestamp cfg .takeNextRunMode = some u ∧
        u.pc = .markRunning := ⟨_, if_pos hpc, rfl⟩
    obtain ⟨v, hv⟩ := hmark hupc
    exact ⟨_, v, .cons hu (.single hv), (u, .markRunning), by simp, rfl⟩
  · obtain ⟨v, hv⟩ := hmark hpc
    exact ⟨_, v, .single hv, (s, .markRunning), by simp, rfl⟩

/-- **After a quit no attempt begins, exactly unless the quit was accepted
between the test for it and `mark_running`.** -/
theorem quit_begins_no_attempt_iff {predicate : RunPredicate} {lastRun : LastRun N}
    {before : List (ScheduleState N × ScheduleLabel N)} {s : ScheduleState N}
    (h : ScheduleRun fromTimestamp cfg (.initial predicate lastRun) before s) :
    (∀ after s', ScheduleRun fromTimestamp cfg (.initial predicate lastRun)
        (before ++ (s, .request .quit) :: after) s' → ∀ x ∈ after, x.2 ≠ .markRunning) ↔
      s.pc ≠ .takeNextRunMode ∧ s.pc ≠ .markRunning := by
  constructor
  · intro hnone
    by_contra hwindow
    have hpc : s.pc = .takeNextRunMode ∨ s.pc = .markRunning := by
      by_contra hout
      exact hwindow (not_or.mp hout)
    obtain ⟨after, s', hrun, x, hx, hl⟩ : ∃ after s', ScheduleRun fromTimestamp cfg
        { s with controller := (s.controller.handleRequest .quit).1 } after s' ∧
          ∃ x ∈ after, x.2 = .markRunning := markRunning_reachable hpc
    exact hnone after s' (h.trans (.cons rfl hrun)) x hx hl
  · intro hpc after s' hrun x hx
    obtain ⟨htake, hmark⟩ := hpc
    obtain ⟨-, s₁, hquit, hafter⟩ := hrun.middle
    cases hquit
    have hquitting : Quitting { s with controller := (s.controller.handleRequest .quit).1 } :=
      ⟨handleRequest_quit _, htake, hmark⟩
    obtain ⟨a, b, rfl⟩ := List.append_of_mem hx
    obtain ⟨ha, v, hv, -⟩ := hafter.middle
    exact (quitting_step (ha.invariant (fun _ _ _ hu hl => (quitting_step hu hl).2) hquitting) hv).1

/-- A quit at the start of `schedule` is in time: the loop leaves, with no
attempt. -/
theorem quit_at_start_begins_no_attempt :
    (∃ s' s'', ScheduleRun utcClock.fromTimestamp minutelySchedule scheduleStart
      ([] ++ (scheduleStart, .request .quit) :: [(s', .shouldStopLoop)]) s'' ∧
        s''.pc = .markStopped none) ∧
    ∀ after s', ScheduleRun utcClock.fromTimestamp minutelySchedule scheduleStart
      ([] ++ (scheduleStart, .request .quit) :: after) s' → ∀ x ∈ after, x.2 ≠ .markRunning :=
  ⟨⟨_, _, .cons rfl (.single rfl), rfl⟩,
    (quit_begins_no_attempt_iff .refl).mpr ⟨by decide, by decide⟩⟩

/-- A quit right behind the test for it is not: the loop begins an attempt. -/
theorem quit_after_test_begins_attempt :
    ∃ before s after s', ScheduleRun utcClock.fromTimestamp minutelySchedule scheduleStart
        (before ++ (s, .request .quit) :: after) s' ∧
      (s.pc = .takeNextRunMode ∧ Accepts .quit (s, .request .quit)) ∧
      ∃ x ∈ after, x.2 = .markRunning := by
  refine ⟨[(_, .shouldStopLoop)], _, [(_, .takeNextRunMode), (_, .markRunning)], _,
    .cons rfl (.cons rfl (.cons rfl (.single rfl))), ⟨rfl, rfl, rfl⟩, ?_⟩
  exact ⟨_, .tail _ (.head _), rfl⟩

end SchedulingUtil
