import SchedulingUtil.ScheduleForcedRuns

/-! # Accepted requests are served

Whatever else is requested meanwhile: a wake leads to an attempt that asks the predicate, a
run-now to one that calls the job, and a quit to the end of the loop, each within a number of
the loop's own steps. -/
namespace SchedulingUtil
open Lib

variable {N : Type}

/-- The predicate is called. -/
def AsksPredicate (x : ScheduleState N × ScheduleLabel N) : Prop :=
  ∃ now startedAt reporting, x.2 = .shouldRun now startedAt reporting

/-- In these steps a mode is taken, and the predicate is called in that attempt. -/
def PredicateAsked (steps : List (ScheduleState N × ScheduleLabel N)) : Prop :=
  ∃ a v b w c, steps = a ++ v :: (b ++ w :: c) ∧ v.2 = .takeNextRunMode ∧
    (∀ y ∈ b, y.2 ≠ .takeNextRunMode) ∧ AsksPredicate w

/-- The steps that are left of a loop that is to quit. -/
def quitRank : Pc → Nat
  | .takeNextRunMode => 10
  | .markRunning => 9
  | .force => 8
  | .heartbeat => 7
  | .shouldRun => 6
  | .job => 5
  | .updateRunCount => 4
  | .hasPendingWork => 3
  | .waitForWork => 3
  | .waiting => 3
  | .stopTest => 2
  | .stopTestAfter => 2
  | .markStopped _ => 1
  | .ended _ => 0

theorem quitRank_le (pc : Pc) : quitRank pc ≤ 10 := by cases pc <;> simp [quitRank]

theorem attemptLeft_quitRank {s : ScheduleState N} (h : s.AttemptLeft) : quitRank s.pc ≤ 4 := by
  rcases h with h | ⟨leaving, h⟩ <;> simp [h, quitRank]

/-- Some request is pending: the loop does not wait. -/
structure WorkPending (s : ScheduleState N) : Prop where
  waitSound : WaitSound s
  pending : s.controller.hasPendingWork = true

/-- An attempt before its predicate is called, or cut short. -/
structure AttemptBegun (s : ScheduleState N) : Prop where
  pc : s.pc = .markRunning ∨ s.pc = .force ∨ s.pc = .heartbeat ∨ s.pc = .shouldRun ∨
    ∃ leaving, s.pc = .markStopped leaving ∨ s.pc = .ended leaving

variable [PyFloat N] {fromTimestamp : FromTimestamp N} {cfg : ScheduleConfig}

/-- The loop has taken few steps, and can take the next. -/
def Underway (fromTimestamp : FromTimestamp N) (cfg : ScheduleConfig) (k : Nat)
    (steps : List (ScheduleState N × ScheduleLabel N)) (s : ScheduleState N) : Prop :=
  steps.countP (fun x => x.2.isLoop) ≤ k ∧
    ∀ t, ∃ l, ownStep t s.pc = some l ∧ (s.step fromTimestamp cfg l).isSome

/-! ## Wakes -/

theorem WorkPending.enabled {s : ScheduleState N} (h : WorkPending s) (t : N)
    (hended : ∀ leaving, s.pc ≠ .ended leaving) :
    ∃ l, ownStep t s.pc = some l ∧ (s.step fromTimestamp cfg l).isSome := by
  refine ownStep_enabled t ?_ hended
  intro hpc
  cases hc : s.controller.condition with
  | absent => exact absurd hc (h.waitSound.present.mp hpc)
  | waiting =>
    have hnone := s.controller.hasPendingWork_eq_false.mpr (h.waitSound.unnotified hc)
    rw [h.pending] at hnone
    cases hnone
  | notified => rfl

theorem hasPendingWork_step {s s' : ScheduleState N} {l : ScheduleLabel N}
    (hstep : s.step fromTimestamp cfg l = some s') (hl : l ≠ .takeNextRunMode)
    (h : s.controller.hasPendingWork = true) : s'.controller.hasPendingWork = true := by
  have hkeeps := keepsFlags_step hstep hl
  simp only [ScheduleController.hasPendingWork, Bool.or_eq_true] at h ⊢
  exact h.imp (Or.imp hkeeps.pendingWake hkeeps.pendingRunNow) hkeeps.quitRequested

/-- Until the mode is taken the loop comes closer to it. -/
theorem workPending_step (u : ScheduleState N) (l : ScheduleLabel N) (v : ScheduleState N)
    (h : WorkPending u) (hstep : u.step fromTimestamp cfg l = some v) :
    l = .takeNextRunMode ∨
      WorkPending v ∧ takeRank v.pc + (if l.isLoop then 1 else 0) ≤ takeRank u.pc := by
  by_cases ht : l = .takeNextRunMode
  · exact .inl ht
  refine .inr ⟨⟨waitSound_step h.waitSound hstep, hasPendingWork_step hstep ht h.pending⟩, ?_⟩
  cases u.transition_of_step fromTimestamp cfg hstep with
  | request r => simp [ScheduleLabel.isLoop]
  | external file => simp [ScheduleLabel.isLoop]
  | stop hpc => rcases hpc with hpc | hpc <;> simp [hpc, takeRank, ScheduleLabel.isLoop]
  | take => exact absurd rfl ht
  | heartbeatFails hpc e =>
    obtain ⟨-, -, leaving, hleft⟩ := u.leave_spec e
    simp [hpc, hleft, takeRank, ScheduleLabel.isLoop]
  | shouldRun hpc now startedAt reporting =>
    obtain ⟨-, -, ⟨hjob, -⟩ | ⟨hleft, -⟩⟩ :=
      u.stepShouldRun_spec fromTimestamp cfg now startedAt reporting
    · simp [hpc, hjob, takeRank, ScheduleLabel.isLoop]
    · have hle := attemptLeft_takeRank hleft
      have hu : takeRank u.pc = 7 := by rw [hpc]; rfl
      show takeRank _ + 1 ≤ takeRank u.pc
      omega
  | jobEnds hpc result finishedAt unrecorded reporting =>
    have hle := attemptLeft_takeRank
      (u.stepJobEnds_spec cfg result finishedAt unrecorded reporting).2.2
    have hu : takeRank u.pc = 6 := by rw [hpc]; rfl
    show takeRank _ + 1 ≤ takeRank u.pc
    omega
  | noWorkPending hpc hidle => rw [h.pending] at hidle; cases hidle
  | wait hpc hw =>
    rw [u.controller.waitForWork_condition (h.waitSound.absent (by simp [hpc])), h.pending] at hw
    cases hw
  | _ hpc => simp [hpc, takeRank, ScheduleLabel.isLoop]

/-- Until the predicate is called the attempt comes closer to it. -/
theorem attemptBegun_step (u : ScheduleState N) (l : ScheduleLabel N) (v : ScheduleState N)
    (h : AttemptBegun u) (hstep : u.step fromTimestamp cfg l = some v) :
    AsksPredicate (u, l) ∨
      AttemptBegun v ∧ callRank v.pc + (if l.isLoop then 1 else 0) ≤ callRank u.pc := by
  have hpcs := h.pc
  cases u.transition_of_step fromTimestamp cfg hstep with
  | request r => exact .inr ⟨⟨hpcs⟩, by simp [ScheduleLabel.isLoop]⟩
  | external file => exact .inr ⟨⟨hpcs⟩, by simp [ScheduleLabel.isLoop]⟩
  | markRunning hpc => exact .inr ⟨⟨by simp⟩, by simp [hpc, callRank, ScheduleLabel.isLoop]⟩
  | force hpc => exact .inr ⟨⟨by simp⟩, by simp [hpc, callRank, ScheduleLabel.isLoop]⟩
  | heartbeat hpc => exact .inr ⟨⟨by simp⟩, by simp [hpc, callRank, ScheduleLabel.isLoop]⟩
  | heartbeatFails hpc e =>
    obtain ⟨-, -, leaving, hleft⟩ := u.leave_spec e
    exact .inr ⟨⟨by simp [hleft]⟩, by simp [hpc, hleft, callRank, ScheduleLabel.isLoop]⟩
  | shouldRun hpc now startedAt reporting => exact .inl ⟨now, startedAt, reporting, rfl⟩
  | markStopped hpc => exact .inr ⟨⟨by simp⟩, by simp [hpc, callRank, ScheduleLabel.isLoop]⟩
  | stop hpc => rcases hpc with hpc | hpc <;> simp [hpc] at hpcs
  | _ hpc => simp [hpc] at hpcs

theorem AttemptBegun.enabled {s : ScheduleState N} (h : AttemptBegun s) (t : N)
    (hended : ∀ leaving, s.pc ≠ .ended leaving) :
    ∃ l, ownStep t s.pc = some l ∧ (s.step fromTimestamp cfg l).isSome := by
  refine ownStep_enabled t ?_ hended
  intro hpc
  have hpcs := h.pc
  simp [hpc] at hpcs

/-- Once work is pending an attempt asks its predicate within the loop's next steps, unless
the loop ends. -/
theorem workPending_served {s s' : ScheduleState N}
    {steps : List (ScheduleState N × ScheduleLabel N)}
    (h : ScheduleRun fromTimestamp cfg s steps s') (hpending : WorkPending s) :
    PredicateAsked steps ∨ (∃ leaving, s'.pc = .ended leaving) ∨
      Underway fromTimestamp cfg 13 steps s' := by
  have hbound := takeRank_le s.pc
  by_cases hended : ∃ leaving, s'.pc = .ended leaving
  · exact .inr (.inl hended)
  rcases h.progress (Q := fun x => x.2 = .takeNextRunMode) workPending_step hpending with
    ⟨a, v, rest, rfl, htake, -, -, hle⟩ | ⟨-, hp, hle⟩
  · obtain ⟨-, v', hstep, hrest⟩ := h.middle
    rw [htake] at hstep
    cases v.1.transition_of_step fromTimestamp cfg hstep with
    | take hpc =>
      have htakeRank : takeRank v.1.pc = 1 := by rw [hpc]; rfl
      have hcallRank : callRank .markRunning = 4 := rfl
      rcases hrest.progress attemptBegun_step ⟨.inl rfl⟩ with
        ⟨b, w, c, rfl, hasks, hb, -, -⟩ | ⟨-, hp, hle'⟩
      · refine .inl ⟨a, v, b, w, c, rfl, htake, ?_, hasks⟩
        intro y hy hl
        obtain ⟨u, hu⟩ := hrest.step_of_mem (List.mem_append_left _ hy)
        have hpcs := (hb y hy).pc
        rw [hl] at hu
        cases y.1.transition_of_step fromTimestamp cfg hu with
        | take hpc => simp [hpc] at hpcs
      · refine .inr (.inr ⟨?_, fun t => hp.enabled t (by simpa using hended)⟩)
        have hleft : 1 ≤ callRank s'.pc := by
          rcases hp.pc with hpc | hpc | hpc | hpc | ⟨leaving, hpc | hpc⟩
          case inr.inr.inr.inr.inr => exact absurd ⟨leaving, hpc⟩ hended
          all_goals simp [hpc, callRank]
        have hcount : (a ++ v :: rest).countP (fun x => x.2.isLoop) =
            a.countP (fun x => x.2.isLoop) + rest.countP (fun x => x.2.isLoop) + 1 := by
          rw [List.countP_append, List.countP_cons, htake]
          simp only [ScheduleLabel.isLoop, if_true]
          omega
        dsimp only at hle'
        omega
  · exact .inr (.inr ⟨by omega, fun t => hp.enabled t (by simpa using hended)⟩)

/-! ## Quits -/

/-- A quit is requested: every step brings the loop closer to its end. -/
structure QuitPending (s : ScheduleState N) : Prop where
  waitSound : WaitSound s
  quitRequested : s.controller.quitRequested = true

omit [PyFloat N] in
theorem QuitPending.workPending {s : ScheduleState N} (h : QuitPending s) : WorkPending s :=
  ⟨h.waitSound, by simp [ScheduleController.hasPendingWork, h.quitRequested]⟩

theorem quitPending_step (u : ScheduleState N) (l : ScheduleLabel N) (v : ScheduleState N)
    (h : QuitPending u) (hstep : u.step fromTimestamp cfg l = some v) :
    QuitPending v ∧ quitRank v.pc + (if l.isLoop then 1 else 0) ≤ quitRank u.pc := by
  refine ⟨⟨waitSound_step h.waitSound hstep, quitRequested_step hstep h.quitRequested⟩, ?_⟩
  have hstop : u.shouldStopLoop cfg = true := by
    simp [ScheduleState.shouldStopLoop, h.quitRequested]
  have hpending := h.workPending.pending
  cases u.transition_of_step fromTimestamp cfg hstep with
  | request r => simp [ScheduleLabel.isLoop]
  | external file => simp [ScheduleLabel.isLoop]
  | stop hpc => rcases hpc with hpc | hpc <;> simp [hpc, quitRank, ScheduleLabel.isLoop]
  | enter _ hgo => rw [hstop] at hgo; cases hgo
  | pause _ hgo => rw [hstop] at hgo; cases hgo
  | again _ hgo => rw [hstop] at hgo; cases hgo
  | heartbeatFails hpc e =>
    obtain ⟨-, -, leaving, hleft⟩ := u.leave_spec e
    simp [hpc, hleft, quitRank, ScheduleLabel.isLoop]
  | shouldRun hpc now startedAt reporting =>
    obtain ⟨-, -, ⟨hjob, -⟩ | ⟨hleft, -⟩⟩ :=
      u.stepShouldRun_spec fromTimestamp cfg now startedAt reporting
    · simp [hpc, hjob, quitRank, ScheduleLabel.isLoop]
    · have hle := attemptLeft_quitRank hleft
      have hu : quitRank u.pc = 6 := by rw [hpc]; rfl
      show quitRank _ + 1 ≤ quitRank u.pc
      omega
  | jobEnds hpc result finishedAt unrecorded reporting =>
    have hle := attemptLeft_quitRank
      (u.stepJobEnds_spec cfg result finishedAt unrecorded reporting).2.2
    have hu : quitRank u.pc = 5 := by rw [hpc]; rfl
    show quitRank _ + 1 ≤ quitRank u.pc
    omega
  | noWorkPending hpc hidle => rw [hpending] at hidle; cases hidle
  | wait hpc hw =>
    rw [u.controller.waitForWork_condition (h.waitSound.absent (by simp [hpc])), hpending] at hw
    cases hw
  | _ hpc => simp [hpc, quitRank, ScheduleLabel.isLoop]

/-- The loop ends within its next steps, and begins one more attempt at most. -/
theorem quitPending_served {s s' : ScheduleState N}
    {steps : List (ScheduleState N × ScheduleLabel N)}
    (h : ScheduleRun fromTimestamp cfg s steps s') (hquit : QuitPending s) :
    ((∃ leaving, s'.pc = .ended leaving) ∨ Underway fromTimestamp cfg 10 steps s') ∧
      ∀ a x b, steps = a ++ x :: b → x.2 = .markRunning → ∀ y ∈ b, y.2 ≠ .markRunning := by
  constructor
  · rcases h.progress (Q := fun _ => False)
      (fun u l v hu hl => .inr (quitPending_step u l v hu hl)) hquit with
      ⟨-, -, -, -, hfalse, -⟩ | ⟨-, hp, hle⟩
    · exact hfalse.elim
    · by_cases hended : ∃ leaving, s'.pc = .ended leaving
      · exact .inl hended
      · have := quitRank_le s.pc
        exact .inr ⟨by omega, fun t => hp.workPending.enabled t (by simpa using hended)⟩
  · intro a x b hsteps hx y hy
    subst hsteps
    obtain ⟨ha, v, hstep, hb⟩ := h.middle
    have hquit' : QuitPending x.1 :=
      ha.invariant (fun u l w hu hl => (quitPending_step u l w hu hl).1) hquit
    have hq := quitRequested_step hstep hquit'.quitRequested
    rw [hx] at hstep
    cases x.1.transition_of_step fromTimestamp cfg hstep with
    | markRunning hpc =>
      obtain ⟨c, d, rfl⟩ := List.append_of_mem hy
      obtain ⟨hc, w, hw, -⟩ := hb.middle
      exact (quitting_step (hc.invariant (fun _ _ _ hu hl => (quitting_step hu hl).2)
        ⟨hq, by simp, by simp⟩) hw).1

/-! ## Any request -/

/-- What an accepted request is owed by the steps behind it. -/
def Owed (fromTimestamp : FromTimestamp N) (cfg : ScheduleConfig) (r : ControllerRequest)
    (after : List (ScheduleState N × ScheduleLabel N)) (s : ScheduleState N) : Prop :=
  match r with
  | .status => True
  | .wake => PredicateAsked after ∨ (∃ leaving, s.pc = .ended leaving) ∨
      Underway fromTimestamp cfg 13 after s
  | .runNow => RunNowServed fromTimestamp cfg after ∨ (∃ leaving, s.pc = .ended leaving) ∨
      Underway fromTimestamp cfg 13 after s
  | .quit => ((∃ leaving, s.pc = .ended leaving) ∨ Underway fromTimestamp cfg 10 after s) ∧
      ∀ a x b, after = a ++ x :: b → x.2 = .markRunning → ∀ y ∈ b, y.2 ≠ .markRunning

theorem owed_of_accepts {predicate : RunPredicate} {lastRun : LastRun N}
    {before after : List (ScheduleState N × ScheduleLabel N)} {u s : ScheduleState N}
    {r : ControllerRequest}
    (h : ScheduleRun fromTimestamp cfg (.initial predicate lastRun)
      (before ++ (u, .request r) :: after) s)
    (hacc : Accepts r (u, .request r)) : Owed fromTimestamp cfg r after s := by
  obtain ⟨hbefore, s₁, hx, hafter⟩ := h.middle
  have hforce : ForceSound predicate s₁ := forceSound_step
    (hbefore.invariant (fun _ _ _ hu hl => forceSound_step hu hl) (forceSound_initial ..)) hx
  have hsound : WaitSound s₁ := waitSound_step
    (hbefore.invariant (fun _ _ _ hu hl => waitSound_step hu hl) (waitSound_initial ..)) hx
  cases hx
  cases r with
  | status => trivial
  | wake =>
    refine workPending_served hafter ⟨hsound, ?_⟩
    simp [ScheduleController.hasPendingWork, (accepts_wake hacc).2]
  | runNow => exact pending_served hafter hforce ⟨hsound, (accepts_runNow hacc).2⟩
  | quit => exact quitPending_served hafter ⟨hsound, handleRequest_quit _⟩

/-- **Wakes and quits are served**, whatever is requested meanwhile. Behind an accepted wake
an attempt asks its predicate, or the loop has ended, or fewer than 14 steps of the loop have
followed and it can take the next. Behind a quit the loop has ended, or fewer than 11 have
followed and it can take the next; and it begins one more attempt at most. -/
theorem wakes_and_quits_served {predicate : RunPredicate} {lastRun : LastRun N}
    {steps : List (ScheduleState N × ScheduleLabel N)} {s : ScheduleState N}
    (h : ScheduleRun fromTimestamp cfg (.initial predicate lastRun) steps s) :
    (∀ before u after, steps = before ++ (u, .request .wake) :: after →
      (u.controller.handleRequest .wake).2.ok = true →
      PredicateAsked after ∨ (∃ leaving, s.pc = .ended leaving) ∨
        Underway fromTimestamp cfg 13 after s) ∧
    (∀ before u after, steps = before ++ (u, .request .quit) :: after →
      ((∃ leaving, s.pc = .ended leaving) ∨ Underway fromTimestamp cfg 10 after s) ∧
      ∀ a x b, after = a ++ x :: b → x.2 = .markRunning → ∀ y ∈ b, y.2 ≠ .markRunning) := by
  constructor
  · intro before u after hsteps hok
    subst hsteps
    exact owed_of_accepts h ⟨rfl, hok⟩
  · intro before u after hsteps
    subst hsteps
    have hok : (u.controller.handleRequest .quit).2.ok = true := by
      simp [ScheduleController.handleRequest, ScheduleController.requestQuit,
        ScheduleController.respond]
    exact owed_of_accepts h ⟨rfl, hok⟩

/-- A wake at the start of `schedule`, and the loop's first step. -/
theorem wakes_and_quits_served_at_start :
    let s : ScheduleState Int := { scheduleStart with
      controller := (scheduleStart.controller.handleRequest .wake).1, pc := .takeNextRunMode }
    ∃ l, ownStep 0 s.pc = some l ∧
      (s.step utcClock.fromTimestamp minutelySchedule l).isSome := by
  intro s
  have hrun : ScheduleRun utcClock.fromTimestamp minutelySchedule scheduleStart
      [(scheduleStart, .request .wake), (_, .shouldStopLoop)] s := .cons rfl (.single rfl)
  rcases (wakes_and_quits_served hrun).1 [] scheduleStart _ rfl rfl with
    ⟨a, v, b, w, c, h, -⟩ | ⟨leaving, h⟩ | ⟨-, h⟩
  · have hlength := congrArg List.length h
    simp only [List.length_cons, List.length_append, List.length_nil] at hlength
    omega
  · cases h
  · exact h 0

end SchedulingUtil
