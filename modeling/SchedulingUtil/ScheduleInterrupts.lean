import SchedulingUtil.ScheduleEnds

/-! # `KeyboardInterrupt` in the loops

`repeat` and `schedule` break out of their loops when the job raises `KeyboardInterrupt`.
The wait between two attempts stands outside of that `try` in both of them; and what a job of
`schedule` raises has the health check, `assess_result` and the history's append on its way,
each of which can raise something else instead. -/
namespace SchedulingUtil
open Lib

/-! ## `repeat` -/

structure RepeatConfig where
  maxRuns : Option Int
  sleepDuration : Option Timedelta

inductive RepeatPc where
  | shouldRun
  | func
  | shouldSleep
  | sleep
  | ended (leaving : Option PyException)
  deriving DecidableEq

structure RepeatState where
  nRuns : Nat
  pc : RepeatPc

/-- How `func()` or `sleep()` comes back. -/
inductive RepeatLabel where
  | test
  | returns
  | raises (e : PyException)

namespace RepeatState

def shouldRun (cfg : RepeatConfig) (s : RepeatState) : Bool :=
  cfg.maxRuns.all fun maxRuns => (s.nRuns : Int) < maxRuns

/-- An exception of `func()`. -/
def leave (s : RepeatState) (e : PyException) : RepeatState :=
  { s with pc := .ended (if e.cls = .keyboardInterrupt then none else some e) }

def step (cfg : RepeatConfig) (s : RepeatState) : RepeatLabel → Option RepeatState
  | .test =>
    match s.pc with
    | .shouldRun => some { s with pc := if s.shouldRun cfg then .func else .ended none }
    | .shouldSleep =>
      some { s with pc :=
        if s.shouldRun cfg && cfg.sleepDuration.any (0 < ·) then .sleep else .shouldRun }
    | _ => none
  | .returns =>
    match s.pc with
    | .func => some { nRuns := s.nRuns + 1, pc := .shouldSleep }
    | .sleep => some { s with pc := .shouldRun }
    | _ => none
  | .raises e =>
    match s.pc with
    | .func => some (s.leave e)
    | .sleep => some { s with pc := .ended (some e) }
    | _ => none

end RepeatState

abbrev RepeatRun (cfg : RepeatConfig) :
    RepeatState → List (RepeatState × RepeatLabel) → RepeatState → Prop :=
  Execution fun s l s' => s.step cfg l = some s'

/-- No further call of `func`, and `repeat` has returned. -/
structure RepeatStops (post : List (RepeatState × RepeatLabel)) (s : RepeatState) : Prop where
  noCall : ∀ y ∈ post, y.1.pc ≠ .func
  returned : s.pc = .ended none

theorem repeat_run_of_ended {cfg : RepeatConfig} {u s : RepeatState} {leaving : Option PyException}
    {post : List (RepeatState × RepeatLabel)} (h : RepeatRun cfg u post s)
    (hpc : u.pc = .ended leaving) : post = [] ∧ s = u := by
  cases post with
  | nil => exact ⟨rfl, h.eq_of_nil⟩
  | cons y post =>
    obtain ⟨rfl, v, hl, -⟩ := h.of_cons
    cases hy : y.2 <;> simp [RepeatState.step, hy, hpc] at hl

theorem repeat_stops_iff {cfg : RepeatConfig} {s₀ s x : RepeatState} {e : PyException}
    {pre post : List (RepeatState × RepeatLabel)} (he : e.cls = .keyboardInterrupt)
    (h : RepeatRun cfg s₀ (pre ++ (x, .raises e) :: post) s) :
    RepeatStops post s ↔ x.pc = .func := by
  obtain ⟨-, v, hx, hafter⟩ := h.middle
  simp only [RepeatState.step] at hx
  split at hx
  · rename_i hpc
    cases hx
    have hended : (x.leave e).pc = .ended none := by simp [RepeatState.leave, he]
    obtain ⟨rfl, rfl⟩ := repeat_run_of_ended hafter hended
    exact iff_of_true ⟨by simp, hended⟩ hpc
  · rename_i hpc
    cases hx
    obtain ⟨rfl, rfl⟩ := repeat_run_of_ended hafter rfl
    refine iff_of_false ?_ (by simp [hpc])
    intro hstops
    cases hstops.returned
  · cases hx

/-! ## `schedule` -/

variable {N : Type} [PyFloat N] {fromTimestamp : FromTimestamp N} {cfg : ScheduleConfig}

/-- `e` is raised inside the job, or inside the wait between two attempts. With a health check,
`raised` is what the check's `__exit__` makes of it. -/
inductive Interrupts (cfg : ScheduleConfig) (e : PyException) : ScheduleLabel N → Prop where
  | job {raised : PyException} (hcheck : cfg.check = false → raised = e) (finishedAt : N)
      (unrecorded : Option (Unrecorded N)) (reporting : Option PyException) :
      Interrupts cfg e (.jobEnds (.raised raised) finishedAt unrecorded reporting)
  | wait : Interrupts cfg e (.interrupt e)

/-- What leaves the wrapper of a job that has raised. -/
def leavesWrapper (raised : PyException) : Option (Unrecorded N) → PyException
  | none => raised
  | some unrecorded => unrecorded.raised

/-- A `KeyboardInterrupt` gets from the job to the loop: nothing else takes its place, or
reporting what does so raises one again. -/
def ScheduleLabel.keepsInterrupt : ScheduleLabel N → Bool
  | .jobEnds (.raised raised) _ unrecorded reporting =>
    match (leavesWrapper raised unrecorded).cls with
    | .keyboardInterrupt => true
    | .exception => reporting.any (·.cls = .keyboardInterrupt)
    | _ => false
  | _ => false

/-- No further attempt; `schedule` returns normally, if only with the step that is left;
and then the controller is stopped. -/
structure StopsCleanly (fromTimestamp : FromTimestamp N) (cfg : ScheduleConfig)
    (post : List (ScheduleState N × ScheduleLabel N)) (s : ScheduleState N) : Prop where
  noAttempt : ∀ y ∈ post, y.2.beginsAttempt = false
  returns : s.pc = .ended none ∨
    ∃ s', s.step fromTimestamp cfg .markStopped = some s' ∧ s'.pc = .ended none
  stopped : s.pc = .ended none → s.controller.status.state = .stopped

theorem raisedToLoop_interrupted {s : ScheduleState N} {raised : PyException} (finishedAt : N)
    (unrecorded : Option (Unrecorded N)) (reporting : Option PyException) :
    raisedToLoop fromTimestamp cfg (s, .jobEnds (.raised raised) finishedAt unrecorded reporting) =
      if (leavesWrapper raised unrecorded).cls = .exception then reporting
      else some (leavesWrapper raised unrecorded) := by
  cases unrecorded <;> rfl

/-- The step breaks the loop exactly if the interrupt gets to it. -/
theorem breaks_iff {s v : ScheduleState N} {raised : PyException} {finishedAt : N}
    {unrecorded : Option (Unrecorded N)} {reporting : Option PyException}
    (hstep : s.step fromTimestamp cfg
      (.jobEnds (.raised raised) finishedAt unrecorded reporting) = some v) :
    v.pc = .markStopped none ↔
      (ScheduleLabel.jobEnds (.raised raised) finishedAt unrecorded reporting).keepsInterrupt =
        true := by
  have hraised : raisedToLoop fromTimestamp cfg
      (s, .jobEnds (.raised raised) finishedAt unrecorded reporting) = _ :=
    raisedToLoop_interrupted finishedAt unrecorded reporting
  have hv : v = s.stepJobEnds cfg (.raised raised) finishedAt unrecorded reporting := by
    cases s.transition_of_step fromTimestamp cfg hstep with
    | jobEnds hpc => rfl
  rw [hv]
  have hbreaks (e : PyException) : Pc.markStopped
      (if e.cls = .keyboardInterrupt then none else some e) = .markStopped none ↔
        e.cls = .keyboardInterrupt := by
    split <;> simp [*]
  simp only [ScheduleLabel.keepsInterrupt]
  generalize leavesWrapper raised unrecorded = left at hraised ⊢
  cases hcls : left.cls with
  | keyboardInterrupt =>
    rw [hcls, if_neg nofun] at hraised
    rw [stepJobEnds_pc hraised, hbreaks, hcls]
    simp
  | exception =>
    rw [hcls, if_pos rfl] at hraised
    cases reporting with
    | none =>
      have hon := stepJobEnds_goesOn hraised
      refine iff_of_false ?_ (by simp)
      intro hpc
      rw [hpc] at hon
      cases hon
    | some e =>
      rw [stepJobEnds_pc hraised, hbreaks]
      simp
  | systemExit =>
    rw [hcls, if_neg nofun] at hraised
    rw [stepJobEnds_pc hraised, hbreaks, hcls]
    simp
  | generatorExit =>
    rw [hcls, if_neg nofun] at hraised
    rw [stepJobEnds_pc hraised, hbreaks, hcls]
    simp

/-- The loop has been left. -/
def Left (leaving : Option PyException) (s : ScheduleState N) : Prop :=
  s.pc = .markStopped leaving ∨ s.pc = .ended leaving

theorem left_step {s s' : ScheduleState N} {l : ScheduleLabel N} {leaving : Option PyException}
    (h : Left leaving s) (hstep : s.step fromTimestamp cfg l = some s') :
    Left leaving s' ∧ l.beginsAttempt = false := by
  unfold Left at h
  cases s.transition_of_step fromTimestamp cfg hstep with
  | request r => exact ⟨h, rfl⟩
  | external file => exact ⟨h, rfl⟩
  | markStopped hpc =>
    rw [hpc] at h
    rcases h with h | h
    · cases h
      exact ⟨.inr rfl, rfl⟩
    · cases h
  | stop hpc => rcases hpc with hpc | hpc <;> simp [hpc] at h
  | _ hpc => simp [hpc] at h

/-- A loop that has been left makes no further attempt. -/
theorem left_run {u s : ScheduleState N} {leaving : Option PyException}
    {post : List (ScheduleState N × ScheduleLabel N)}
    (h : ScheduleRun fromTimestamp cfg u post s) (hu : Left leaving u) :
    Left leaving s ∧ ∀ y ∈ post, y.2.beginsAttempt = false := by
  have hleft (v : ScheduleState N) (steps : List (ScheduleState N × ScheduleLabel N))
      (hrun : ScheduleRun fromTimestamp cfg u steps v) : Left leaving v :=
    hrun.invariant (P := Left leaving) (fun _ _ _ hv hl => (left_step hv hl).1) hu
  refine ⟨hleft s post h, ?_⟩
  intro y hy
  obtain ⟨a, b, rfl⟩ := List.append_of_mem hy
  obtain ⟨hbefore, v, hl, -⟩ := h.middle
  exact (left_step (hleft _ a hbefore) hl).2

/-- Handled behind the end of the loop, a quit hides that the scheduler is stopped. -/
def LateQuit (y : ScheduleState N × ScheduleLabel N) : Prop :=
  y.2 = .request .quit ∧ y.1.pc = .ended none

/-- Up to a late quit the loop's end leaves the controller stopped. -/
theorem stopped_or_lateQuit {u s : ScheduleState N}
    {post : List (ScheduleState N × ScheduleLabel N)}
    (h : ScheduleRun fromTimestamp cfg u post s) (hu : u.pc = .markStopped none) :
    (∃ y ∈ post, LateQuit y) ∨ (s.pc = .ended none → s.controller.status.state = .stopped) := by
  refine (h.holds_until (P := fun v => Left none v ∧
    (v.pc = .ended none → v.controller.state = .stopped)) (Q := LateQuit) ?_ ?_).imp id And.right
  · intro v l w hv hl
    obtain ⟨hleft, hstopped⟩ := hv
    obtain ⟨hleft', -⟩ := left_step hleft hl
    by_cases hlate : LateQuit (v, l)
    · exact .inl hlate
    refine .inr ⟨hleft', ?_⟩
    intro hpc'
    rcases hleft with hpc | hpc
    · cases v.transition_of_step fromTimestamp cfg hl with
      | request r =>
        dsimp only at hpc'
        rw [hpc] at hpc'
        cases hpc'
      | external file =>
        dsimp only at hpc'
        rw [hpc] at hpc'
        cases hpc'
      | markStopped _ => rfl
      | stop h => rcases h with h | h <;> simp [hpc] at h
      | _ h => simp [hpc] at h
    · obtain ⟨-, ⟨r, rfl, hc⟩ | ⟨-, hc⟩⟩ := step_of_ended hpc hl
      · rw [hc]
        have hquit : r ≠ .quit := fun hr => hlate ⟨by rw [hr], hpc⟩
        exact (v.controller.handleRequest_state hquit).trans (hstopped hpc)
      · rw [hc]
        exact hstopped hpc
  · refine ⟨.inl hu, ?_⟩
    intro hpc
    rw [hu] at hpc
    cases hpc

/-- Behind a late quit the controller stays `stopping`. -/
theorem stopping_of_lateQuit {u s : ScheduleState N} {y : ScheduleState N × ScheduleLabel N}
    {post : List (ScheduleState N × ScheduleLabel N)}
    (h : ScheduleRun fromTimestamp cfg u post s) (hy : y ∈ post) (hlate : LateQuit y) :
    s.pc = .ended none ∧ s.controller.status.state ≠ .stopped := by
  obtain ⟨hl, hpc⟩ := hlate
  obtain ⟨a, b, rfl⟩ := List.append_of_mem hy
  obtain ⟨-, v, hv, hafter⟩ := h.middle
  have hquit (c : ScheduleController) :
      (c.handleRequest .quit).1.state = .running ∨ (c.handleRequest .quit).1.state = .stopping := by
    rcases hs : c.state <;> simp [ScheduleController.handleRequest,
      ScheduleController.requestQuit, hs]
  have hinv := hafter.invariant (P := fun w => w.pc = .ended none ∧ w.controller.state ≠ .stopped)
    (fun w l w' hw hl => ?_) ?_
  · exact hinv
  · obtain ⟨hwpc, hwstate⟩ := hw
    obtain ⟨hpc', ⟨r, -, hc⟩ | ⟨-, hc⟩⟩ := step_of_ended hwpc hl
    · refine ⟨hpc', ?_⟩
      rw [hc]
      by_cases hr : r = .quit
      · subst hr
        rcases hquit w.controller with hq | hq <;> simp [hq]
      · rw [w.controller.handleRequest_state hr]
        exact hwstate
    · exact ⟨hpc', by rw [hc]; exact hwstate⟩
  · rw [hl] at hv
    obtain ⟨hpc', ⟨r, hr, hc⟩ | ⟨hr, -⟩⟩ := step_of_ended hpc hv
    · cases hr
      refine ⟨hpc', ?_⟩
      rw [hc]
      rcases hquit y.1.controller with hq | hq <;> simp [hq]
    · exact absurd rfl (hr .quit)

/-- Behind a step that breaks the loop only a late quit is in the way. -/
theorem stopsCleanly_iff {v s : ScheduleState N}
    {post : List (ScheduleState N × ScheduleLabel N)} (hv : v.pc = .markStopped none)
    (hafter : ScheduleRun fromTimestamp cfg v post s) :
    StopsCleanly fromTimestamp cfg post s ↔ ∀ y ∈ post, ¬ LateQuit y := by
  obtain ⟨hleft, hattempts⟩ := left_run hafter (.inl hv)
  constructor
  · intro hstops y hy hlate
    obtain ⟨hpc, hstate⟩ := stopping_of_lateQuit hafter hy hlate
    exact hstate (hstops.stopped hpc)
  · intro hcond
    refine ⟨hattempts, ?_, ?_⟩
    · rcases hleft with hpc | hpc
      · refine .inr
          ⟨{ s with controller := s.controller.markStopped, pc := .ended none }, ?_, rfl⟩
        simp only [ScheduleState.step, hpc]
      · exact .inl hpc
    · rcases stopped_or_lateQuit hafter hv with ⟨y, hy, hlate⟩ | hstopped
      · exact absurd hlate (hcond y hy)
      · exact hstopped

/-- Right behind a step that does not break the loop, it is not about to return. -/
theorem not_stopsCleanly {v : ScheduleState N} (hv : v.pc ≠ .markStopped none)
    (hended : v.pc ≠ .ended none) : ¬ StopsCleanly fromTimestamp cfg [] v := by
  intro hstops
  rcases hstops.returns with hpc | ⟨s', hs', hpc'⟩
  · exact hended hpc
  · cases v.transition_of_step fromTimestamp cfg hs' with
    | markStopped hpc =>
      cases hpc'
      exact hv hpc

theorem schedule_stops_iff {s₀ v x : ScheduleState N} {l : ScheduleLabel N} {e : PyException}
    {pre : List (ScheduleState N × ScheduleLabel N)} (hl : Interrupts cfg e l)
    (h : ScheduleRun fromTimestamp cfg s₀ (pre ++ [(x, l)]) v) :
    (∀ post s, ScheduleRun fromTimestamp cfg v post s →
      (StopsCleanly fromTimestamp cfg post s ↔ ∀ y ∈ post, ¬ LateQuit y)) ↔
      l.keepsInterrupt = true := by
  obtain ⟨-, hx⟩ := h.of_snoc
  have hnot (hpc : v.pc ≠ .markStopped none) (hended : v.pc ≠ .ended none) :
      ¬ ∀ post s, ScheduleRun fromTimestamp cfg v post s →
        (StopsCleanly fromTimestamp cfg post s ↔ ∀ y ∈ post, ¬ LateQuit y) := by
    intro hall
    exact not_stopsCleanly hpc hended ((hall [] v .refl).mpr (by simp))
  cases hl with
  | @job raised _ finishedAt unrecorded reporting =>
    have hv : v.AttemptLeft := by
      cases x.transition_of_step fromTimestamp cfg hx with
      | jobEnds hpc => exact (x.stepJobEnds_spec cfg _ finishedAt unrecorded reporting).2.2
    rw [← breaks_iff hx]
    constructor
    · intro hall
      by_contra hpc
      refine hnot hpc ?_ hall
      rcases hv with hleft | ⟨leaving, hleft⟩ <;> simp [hleft]
    · intro hpc post s hafter
      exact stopsCleanly_iff hpc hafter
  | wait =>
    have hv : v.pc = .markStopped (some e) := by
      cases x.transition_of_step fromTimestamp cfg hx with
      | interrupt hpc => rfl
    exact iff_of_false (hnot (by simp [hv]) (by simp [hv])) nofun

/-- **`KeyboardInterrupt` stops a loop cleanly exactly if it is raised in the job** and, in
`schedule`, nothing takes its place on the way to the loop; and, for what `schedule` leaves in
the controller, no quit is handled behind the loop's end. In the wait between two attempts it
leaves either function. -/
theorem keyboard_interrupt_stops_iff {e : PyException} (he : e.cls = .keyboardInterrupt) :
    (∀ (cfg : RepeatConfig) (s₀ s x : RepeatState) (pre post : List (RepeatState × RepeatLabel)),
      RepeatRun cfg s₀ (pre ++ (x, .raises e) :: post) s →
        (RepeatStops post s ↔ x.pc = .func)) ∧
    ∀ (cfg : ScheduleConfig) (predicate : RunPredicate) (lastRun : LastRun N)
      (v x : ScheduleState N) (l : ScheduleLabel N)
      (pre : List (ScheduleState N × ScheduleLabel N)),
      ScheduleRun fromTimestamp cfg (.initial predicate lastRun) (pre ++ [(x, l)]) v →
        Interrupts cfg e l →
        ((∀ post s, ScheduleRun fromTimestamp cfg v post s →
          (StopsCleanly fromTimestamp cfg post s ↔ ∀ y ∈ post, ¬ LateQuit y)) ↔
          l.keepsInterrupt = true) := by
  refine ⟨fun cfg s₀ s x pre post h => repeat_stops_iff he h, ?_⟩
  intro cfg predicate lastRun v x l pre h hl
  exact schedule_stops_iff hl h

/-! ### Ctrl-C -/

def ctrlC : PyException := ⟨.keyboardInterrupt, "KeyboardInterrupt", ""⟩

def diskFull : PyException := ⟨.exception, "OSError", "[Errno 28] No space left on device"⟩

/-- The first attempt is interrupted. -/
theorem keyboard_interrupt_stops_attempt :
    ∃ steps x s, ScheduleRun utcClock.fromTimestamp minutelySchedule scheduleStart
        (steps ++ [(x, .jobEnds (.raised ctrlC) 0 none none)]) s ∧
      StopsCleanly utcClock.fromTimestamp minutelySchedule [(s, .markStopped)]
        { s with controller := s.controller.markStopped, pc := .ended none } := by
  have hrun : ScheduleRun utcClock.fromTimestamp minutelySchedule scheduleStart
      ([(scheduleStart, .shouldStopLoop), (_, .takeNextRunMode), (_, .markRunning), (_, .force),
        (_, .heartbeat none), (_, .shouldRun 0 0 none)] ++
        [(_, .jobEnds (.raised ctrlC) 0 none none)]) _ :=
    .cons rfl (.cons rfl (.cons rfl (.cons rfl (.cons rfl (.cons rfl (.single rfl))))))
  have hstops := ((keyboard_interrupt_stops_iff rfl).2 minutelySchedule retryingJob (newLastRun 10)
    _ _ _ _ hrun (.job (fun _ => rfl) 0 none none)).mpr rfl
  refine ⟨_, _, _, hrun, (hstops _ _ (.single rfl)).mpr ?_⟩
  intro y hy hlate
  rw [List.mem_singleton.mp hy] at hlate
  cases hlate.1

/-- Interrupted in `repeat`'s sleep and in `schedule`'s wait behind the first attempt, the loops
raise; and where the `finished` entry of an interrupted job cannot be written, `schedule` goes on
to a second attempt. -/
theorem interrupts_not_stopping :
    (∃ steps x s, RepeatRun ⟨none, some 60⟩ ⟨0, .shouldRun⟩ (steps ++ [(x, .raises ctrlC)]) s ∧
      x.pc = .sleep ∧ s.pc = .ended (some ctrlC)) ∧
    (∃ steps x s, ScheduleRun utcClock.fromTimestamp minutelySchedule scheduleStart
        (steps ++ [(x, .interrupt ctrlC), (s, .markStopped)])
        { s with controller := s.controller.markStopped, pc := .ended (some ctrlC) } ∧
      ¬ StopsCleanly utcClock.fromTimestamp minutelySchedule [(s, .markStopped)]
        { s with controller := s.controller.markStopped, pc := .ended (some ctrlC) }) ∧
    ∃ steps x failed post s, ScheduleRun utcClock.fromTimestamp minutelySchedule scheduleStart
        (steps ++ (x, .jobEnds (.raised ctrlC) 0 (some (.appendFails failed)) none) :: post) s ∧
      failed.raised = diskFull ∧ s.pc = .job ∧
      ¬ StopsCleanly utcClock.fromTimestamp minutelySchedule post s := by
  refine ⟨?_, ?_, ?_⟩
  · exact ⟨[(_, .test), (_, .returns), (_, .test)], _, _,
      .cons rfl (.cons rfl (.cons rfl (.single rfl))), rfl, rfl⟩
  · have hrun : ScheduleRun utcClock.fromTimestamp minutelySchedule scheduleStart
        ([(scheduleStart, .shouldStopLoop), (_, .takeNextRunMode), (_, .markRunning), (_, .force),
          (_, .heartbeat none), (_, .shouldRun 0 0 none),
          (_, .jobEnds (.returned .none) 0 none none), (_, .updateRunCount),
          (_, .shouldStopLoop), (_, .hasPendingWork), (_, .waitForWork)] ++
          [(_, .interrupt ctrlC), (_, .markStopped)]) _ :=
      .cons rfl (.cons rfl (.cons rfl (.cons rfl (.cons rfl (.cons rfl (.cons rfl (.cons rfl
        (.cons rfl (.cons rfl (.cons rfl (.cons rfl (.single rfl))))))))))))
    refine ⟨_, _, _, hrun, ?_⟩
    intro hstops
    rcases hstops.returns with hended | ⟨s', hs', -⟩
    · cases hended
    · cases hs'
  · have hrun : ScheduleRun utcClock.fromTimestamp minutelySchedule scheduleStart
        ([(scheduleStart, .shouldStopLoop), (_, .takeNextRunMode), (_, .markRunning), (_, .force),
          (_, .heartbeat none), (_, .shouldRun 0 0 none)] ++
          (_, .jobEnds (.raised ctrlC) 0
            (some (.appendFails ⟨diskFull, (newLastRun 10).append (.started ⟨0⟩)⟩)) none) ::
          [(_, .updateRunCount), (_, .shouldStopLoop), (_, .hasPendingWork), (_, .waitForWork),
            (_, .timeout), (_, .shouldStopLoop), (_, .takeNextRunMode), (_, .markRunning),
            (_, .force), (_, .heartbeat none), (_, .shouldRun 60 60 none)]) _ :=
      .cons rfl (.cons rfl (.cons rfl (.cons rfl (.cons rfl (.cons rfl (.cons rfl (.cons rfl
        (.cons rfl (.cons rfl (.cons rfl (.cons rfl (.cons rfl (.cons rfl (.cons rfl (.cons rfl
          (.cons rfl (.single rfl)))))))))))))))))
    refine ⟨_, _, _, _, _, hrun, rfl, rfl, ?_⟩
    intro hstops
    have hattempt : true = false := hstops.noAttempt _ (List.mem_of_getElem? (i := 9) rfl)
    cases hattempt

end SchedulingUtil
