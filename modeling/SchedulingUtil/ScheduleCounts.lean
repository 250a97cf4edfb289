import SchedulingUtil.ScheduleShutdown

/-! # How often the loop runs its job

The attempts of a run, counted from its steps, against `max_runs` and against
the count of runs that the status reports. -/
namespace SchedulingUtil
open Lib

variable {N : Type}

/-- The step with which `attempt()` begins. -/
def ScheduleLabel.beginsAttempt : ScheduleLabel N → Bool
  | .heartbeat _ => true
  | _ => false

/-- The attempts made. -/
def attempts (steps : List (ScheduleState N × ScheduleLabel N)) : Nat :=
  steps.countP fun x => x.2.beginsAttempt

section Steps
variable [PyFloat N] (fromTimestamp : FromTimestamp N) (cfg : ScheduleConfig)

/-- `attempt()` returns in this step. -/
def returnsFromAttempt (x : ScheduleState N × ScheduleLabel N) : Bool :=
  x.1.pc != .updateRunCount &&
    (x.1.step fromTimestamp cfg x.2).any fun s => s.pc == .updateRunCount

def completedAttempts (steps : List (ScheduleState N × ScheduleLabel N)) : Nat :=
  steps.countP (returnsFromAttempt fromTimestamp cfg)

/-- What a step raises into the loop: outside of the error boundary, or out of it. -/
def raisedToLoop (x : ScheduleState N × ScheduleLabel N) : Option PyException :=
  match x.2 with
  | .heartbeat raised => raised
  | .interrupt e => some e
  | .shouldRun now _ reporting =>
    match (x.1.predicate.call fromTimestamp now x.1.lastRun.snapshot).2 with
    | .error e => leaveErrorBoundary reporting (.error e : Except PyException Unit)
    | .ok _ => none
  | .jobEnds result finishedAt unrecorded reporting =>
    leaveErrorBoundary reporting
      (x.1.lastRun.finishUnless (assessResult cfg) finishedAt unrecorded result).2
  | _ => none

end Steps

/-! ## The phases of the loop -/

namespace Pc

/-- In an attempt, or behind it with the count not yet taken. -/
def attempting : Pc → Bool
  | .shouldRun | .job | .updateRunCount => true
  | _ => false

/-- The stop test has passed since the last attempt. -/
def tested : Pc → Bool
  | .takeNextRunMode | .markRunning | .force | .heartbeat | .shouldRun | .job | .updateRunCount
  | .hasPendingWork | .waitForWork | .waiting => true
  | _ => false

/-- Between two attempts. -/
def pausing : Pc → Bool
  | .stopTestAfter | .hasPendingWork | .waitForWork | .waiting => true
  | _ => false

def leftLoop : Pc → Bool
  | .markStopped _ | .ended _ => true
  | _ => false

end Pc

/-- **The invariant**, for `a` attempts made. An attempt that an exception cut short
is not counted, and ends the loop. -/
structure Counted (cfg : ScheduleConfig) (a : Nat) (s : ScheduleState N) : Prop where
  runCount : s.controller.runCount = s.nRuns
  made : if s.pc.leftLoop then s.nRuns ≤ a ∧ a ≤ s.nRuns + 1
    else a = s.nRuns + s.pc.attempting.toNat
  bounded : ∀ m, cfg.maxRuns = some m → (a : Int) ≤ max 0 m
  room : ∀ m, cfg.maxRuns = some m → s.pc.tested = true → (s.nRuns : Int) < m
  begun : s.pc.pausing = true → 0 < s.nRuns

theorem counted_initial (cfg : ScheduleConfig) (predicate : RunPredicate) (lastRun : LastRun N) :
    Counted cfg 0 (.initial predicate lastRun) :=
  ⟨rfl, by simp [ScheduleState.initial, Pc.leftLoop, Pc.attempting], fun m _ => by omega,
    fun _ _ ht => by simp [ScheduleState.initial, Pc.tested] at ht,
    fun hp => by simp [ScheduleState.initial, Pc.pausing] at hp⟩

namespace Counted

variable {cfg : ScheduleConfig} {a : Nat} {s s' : ScheduleState N}

/-- Where the loop only moves on. -/
theorem move (h : Counted cfg a s) (hc : s'.controller.runCount = s.controller.runCount)
    (hn : s'.nRuns = s.nRuns) (hover : s.pc.leftLoop = false) (hover' : s'.pc.leftLoop = false)
    (hattempt : s'.pc.attempting = s.pc.attempting)
    (htested : ∀ m, cfg.maxRuns = some m → s'.pc.tested = true → (s.nRuns : Int) < m)
    (hpausing : s'.pc.pausing = true → 0 < s.nRuns) : Counted cfg a s' where
  runCount := by rw [hc, hn, h.runCount]
  made := by
    have hmade := h.made
    rw [hover] at hmade
    rw [hover', hn, hattempt]
    exact hmade
  bounded := h.bounded
  room m hm ht := by rw [hn]; exact htested m hm ht
  begun hp := by rw [hn]; exact hpausing hp

/-- Where the loop is left. -/
theorem leave (h : Counted cfg a s) (hc : s'.controller.runCount = s.controller.runCount)
    (hn : s'.nRuns = s.nRuns) (hover : s'.pc.leftLoop = true) : Counted cfg a s' where
  runCount := by rw [hc, hn, h.runCount]
  made := by
    have hmade := h.made
    rw [if_pos hover, hn]
    split at hmade
    · exact hmade
    · cases hb : s.pc.attempting <;> simp only [hb, Bool.toNat_false, Bool.toNat_true] at hmade <;>
        omega
  bounded := h.bounded
  room m hm ht := by
    cases hpc : s'.pc <;> simp [hpc, Pc.leftLoop, Pc.tested] at hover ht
  begun hp := by
    cases hpc : s'.pc <;> simp [hpc, Pc.leftLoop, Pc.pausing] at hover hp

/-- Where the attempt begins. -/
theorem begin (h : Counted cfg a s) (hc : s'.controller.runCount = s.controller.runCount)
    (hn : s'.nRuns = s.nRuns) (hpc : s.pc = .heartbeat)
    (hpc' : s'.pc = .shouldRun ∨ s'.pc.leftLoop = true) : Counted cfg (a + 1) s' := by
  have hmade : a = s.nRuns := by simpa [hpc, Pc.leftLoop, Pc.attempting] using h.made
  have hroom (m : Int) (hm : cfg.maxRuns = some m) : (s.nRuns : Int) < m :=
    h.room m hm (by rw [hpc]; rfl)
  refine ⟨by rw [hc, hn, h.runCount], ?_, fun m hm => ?_,
    fun m hm _ => by rw [hn]; exact hroom m hm, fun hp => ?_⟩
  · rw [hn]
    rcases hpc' with hpc' | hover
    · simp [hpc', Pc.leftLoop, Pc.attempting, hmade]
    · rw [if_pos hover]
      omega
  · have := hroom m hm
    omega
  · rcases hpc' with hpc' | hover
    · simp [hpc', Pc.pausing] at hp
    · cases hq : s'.pc <;> simp [hq, Pc.leftLoop, Pc.pausing] at hover hp

/-- An attempt goes on, or ends. -/
theorem goOn (h : Counted cfg a s) (hc : s'.controller.runCount = s.controller.runCount)
    (hn : s'.nRuns = s.nRuns) (hpc : s.pc = .shouldRun ∨ s.pc = .job)
    (hpc' : s'.pc = .job ∨ s'.AttemptLeft) : Counted cfg a s' := by
  have hphase : s.pc.leftLoop = false ∧ s.pc.attempting = true ∧ s.pc.tested = true := by
    rcases hpc with hpc | hpc <;> rw [hpc] <;> exact ⟨rfl, rfl, rfl⟩
  obtain ⟨hover, hattempt, htested⟩ := hphase
  have hstay (hpc' : s'.pc = .job ∨ s'.pc = .updateRunCount) : Counted cfg a s' := by
    have hphase' : s'.pc.leftLoop = false ∧ s'.pc.attempting = true ∧ s'.pc.pausing = false := by
      rcases hpc' with hpc' | hpc' <;> rw [hpc'] <;> exact ⟨rfl, rfl, rfl⟩
    obtain ⟨hover', hattempt', hpausing'⟩ := hphase'
    exact h.move hc hn hover hover' (hattempt'.trans hattempt.symm)
      (fun m hm _ => h.room m hm htested) (by simp [hpausing'])
  rcases hpc' with hjob | hleft | ⟨leaving, hleft⟩
  · exact hstay (.inl hjob)
  · exact hstay (.inr hleft)
  · exact h.leave hc hn (by rw [hleft]; rfl)

end Counted

theorem waitForWork_runCount (c : ScheduleController) : c.waitForWork.runCount = c.runCount := by
  unfold ScheduleController.waitForWork
  split
  · rfl
  · dsimp only
    split <;> rfl

variable [PyFloat N] {fromTimestamp : FromTimestamp N} {cfg : ScheduleConfig}

theorem handleRequest_runCount (c : ScheduleController) (r : ControllerRequest) :
    (c.handleRequest r).1.runCount = c.runCount := by
  rcases c.handleRequest_cases r with hc | ⟨hc, -⟩ | ⟨hc, -⟩ | ⟨⟨state, hc, -⟩, -⟩ <;>
    rw [hc] <;> rfl

omit [PyFloat N] in
theorem room_of_not_stop {s : ScheduleState N} (hstop : s.shouldStopLoop cfg = false) (m : Int)
    (hm : cfg.maxRuns = some m) : (s.nRuns : Int) < m := by
  simpa [ScheduleState.shouldStopLoop, hm] using (Bool.or_eq_false_iff.mp hstop).2

theorem counted_step {a : Nat} {s s' : ScheduleState N} {l : ScheduleLabel N}
    (h : Counted cfg a s) (hstep : s.step fromTimestamp cfg l = some s') :
    Counted cfg (a + l.beginsAttempt.toNat) s' := by
  cases s.transition_of_step fromTimestamp cfg hstep with
  | request r =>
    exact ⟨(handleRequest_runCount _ r).trans h.runCount, h.made, h.bounded, h.room, h.begun⟩
  | external file => exact ⟨h.runCount, h.made, h.bounded, h.room, h.begun⟩
  | stop hpc => exact h.leave rfl rfl rfl
  | enter hpc hgo =>
    exact h.move rfl rfl (by rw [hpc]; rfl) rfl (by rw [hpc]; rfl)
      (fun m hm _ => room_of_not_stop hgo m hm) (by simp [Pc.pausing])
  | pause hpc hgo =>
    exact h.move rfl rfl (by rw [hpc]; rfl) rfl (by rw [hpc]; rfl)
      (fun m hm _ => room_of_not_stop hgo m hm) fun _ => h.begun (by rw [hpc]; rfl)
  | again hpc hgo =>
    exact h.move rfl rfl (by rw [hpc]; rfl) rfl (by rw [hpc]; rfl)
      (by simp [Pc.tested]) (by simp [Pc.pausing])
  | take hpc =>
    have hcount : s.controller.takeNextRunMode.1.runCount = s.controller.runCount := by
      unfold ScheduleController.takeNextRunMode
      split <;> rfl
    exact h.move hcount rfl (by rw [hpc]; rfl) rfl (by rw [hpc]; rfl)
      (fun m hm _ => h.room m hm (by rw [hpc]; rfl)) (by simp [Pc.pausing])
  | markRunning hpc | force hpc =>
    exact h.move rfl rfl (by rw [hpc]; rfl) rfl (by rw [hpc]; rfl)
      (fun m hm _ => h.room m hm (by rw [hpc]; rfl)) (by simp [Pc.pausing])
  | heartbeat hpc => exact h.begin rfl rfl hpc (.inl rfl)
  | heartbeatFails hpc e =>
    obtain ⟨hsame, -, leaving, hleft⟩ := s.leave_spec e
    exact h.begin (by rw [hsame.controller]) hsame.nRuns hpc (.inr (by rw [hleft]; rfl))
  | shouldRun hpc now startedAt reporting =>
    obtain ⟨hsame, -, hleft⟩ := s.stepShouldRun_spec fromTimestamp cfg now startedAt reporting
    refine h.goOn (by rw [hsame.controller]) hsame.nRuns (.inl hpc) ?_
    exact hleft.imp And.left And.left
  | jobEnds hpc result finishedAt unrecorded reporting =>
    obtain ⟨hsame, -, hleft⟩ := s.stepJobEnds_spec cfg result finishedAt unrecorded reporting
    exact h.goOn (by rw [hsame.controller]) hsame.nRuns (.inr hpc) (.inr hleft)
  | updateRunCount hpc =>
    have hmade : a = s.nRuns + 1 := by simpa [hpc, Pc.leftLoop, Pc.attempting] using h.made
    exact ⟨rfl, by simpa [Pc.leftLoop, Pc.attempting, ScheduleLabel.beginsAttempt] using hmade,
      h.bounded, by simp [Pc.tested], fun _ => Nat.succ_pos _⟩
  | workPending hpc =>
    exact h.move rfl rfl (by rw [hpc]; rfl) rfl (by rw [hpc]; rfl)
      (by simp [Pc.tested]) (by simp [Pc.pausing])
  | noWorkPending hpc =>
    exact h.move rfl rfl (by rw [hpc]; rfl) rfl (by rw [hpc]; rfl)
      (fun m hm _ => h.room m hm (by rw [hpc]; rfl)) fun _ => h.begun (by rw [hpc]; rfl)
  | wait hpc =>
    exact h.move (waitForWork_runCount _) rfl (by rw [hpc]; rfl) rfl (by rw [hpc]; rfl)
      (fun m hm _ => h.room m hm (by rw [hpc]; rfl)) fun _ => h.begun (by rw [hpc]; rfl)
  | waitReturns hpc =>
    exact h.move (waitForWork_runCount _) rfl (by rw [hpc]; rfl) rfl (by rw [hpc]; rfl)
      (by simp [Pc.tested]) (by simp [Pc.pausing])
  | wakeUp hpc | timeout hpc =>
    exact h.move rfl rfl (by rw [hpc]; rfl) rfl (by rw [hpc]; rfl)
      (by simp [Pc.tested]) (by simp [Pc.pausing])
  | interrupt hpc e => exact h.leave rfl rfl rfl
  | markStopped hpc => exact h.leave rfl rfl rfl

/-- Only `update_run_count` counts a run. -/
theorem nRuns_step {s s' : ScheduleState N} {l : ScheduleLabel N}
    (hstep : s.step fromTimestamp cfg l = some s') :
    s.pc = .updateRunCount ∧ s'.pc = .stopTestAfter ∧ s'.nRuns = s.nRuns + 1 ∨
      s'.nRuns = s.nRuns ∧ (s.pc = .updateRunCount → s'.pc = .updateRunCount) := by
  cases s.transition_of_step fromTimestamp cfg hstep with
  | request r => exact .inr ⟨rfl, id⟩
  | external file => exact .inr ⟨rfl, id⟩
  | updateRunCount hpc => exact .inl ⟨hpc, rfl, rfl⟩
  | stop hpc => rcases hpc with hpc | hpc <;> exact .inr ⟨rfl, by simp [hpc]⟩
  | heartbeatFails hpc e => exact .inr ⟨(s.leave_spec e).1.nRuns, by simp [hpc]⟩
  | shouldRun hpc now startedAt reporting =>
    exact .inr ⟨(s.stepShouldRun_spec fromTimestamp cfg now startedAt reporting).1.nRuns,
      by simp [hpc]⟩
  | jobEnds hpc result finishedAt unrecorded reporting =>
    have hsame := (s.stepJobEnds_spec cfg result finishedAt unrecorded reporting).1
    exact .inr ⟨hsame.nRuns, by simp [hpc]⟩
  | _ hpc => exact .inr ⟨rfl, by simp [hpc]⟩

theorem completed_step {s s' : ScheduleState N} {l : ScheduleLabel N}
    (hstep : s.step fromTimestamp cfg l = some s') :
    (s.nRuns + if s.pc = .updateRunCount then 1 else 0) +
        (if returnsFromAttempt fromTimestamp cfg (s, l) then 1 else 0) =
      s'.nRuns + if s'.pc = .updateRunCount then 1 else 0 := by
  have hreturns : returnsFromAttempt fromTimestamp cfg (s, l) =
      (s.pc != .updateRunCount && s'.pc == .updateRunCount) := by
    simp [returnsFromAttempt, hstep]
  rw [hreturns]
  rcases nRuns_step hstep with ⟨hpc, hpc', hn⟩ | ⟨hn, hkeep⟩
  · simp [hpc, hpc', hn]
  · by_cases hpc : s.pc = .updateRunCount
    · simp [hpc, hkeep hpc, hn]
    · simp [hpc, hn]

/-! ### Loops that nothing cuts short -/

/-- No quit has been accepted, and only the stop test has ended the loop. -/
structure Undisturbed (cfg : ScheduleConfig) (a : Nat) (s : ScheduleState N) : Prop where
  noQuit : s.controller.quitRequested = false
  regular : s.pc.leftLoop = true → a = s.nRuns ∧ ∀ m, cfg.maxRuns = some m → m ≤ (s.nRuns : Int)

theorem stepShouldRun_goesOn {s : ScheduleState N} {now : Datetime} {startedAt : N}
    {reporting : Option PyException}
    (h : raisedToLoop fromTimestamp cfg (s, .shouldRun now startedAt reporting) = none) :
    (s.stepShouldRun fromTimestamp cfg now startedAt reporting).pc.leftLoop = false := by
  simp only [raisedToLoop] at h
  unfold ScheduleState.stepShouldRun LastRun.begin
  generalize s.predicate.call fromTimestamp now s.lastRun.snapshot = called at h ⊢
  obtain ⟨predicate, decision⟩ := called
  cases decision with
  | error e =>
    dsimp only at h
    simp only [Except.map, h]
    rfl
  | ok r =>
    obtain ⟨b, reports⟩ := r
    cases b <;> rfl

theorem stepJobEnds_goesOn {s : ScheduleState N} {result : JobResult Returned} {finishedAt : N}
    {unrecorded : Option (Unrecorded N)} {reporting : Option PyException}
    (h : raisedToLoop fromTimestamp cfg
      (s, .jobEnds result finishedAt unrecorded reporting) = none) :
    (s.stepJobEnds cfg result finishedAt unrecorded reporting).pc.leftLoop = false := by
  simp only [raisedToLoop] at h
  simp only [ScheduleState.stepJobEnds, h]
  rfl

theorem undisturbed_step {a : Nat} {s s' : ScheduleState N} {l : ScheduleLabel N}
    (hcount : Counted cfg a s) (h : Undisturbed cfg a s) (hl : l ≠ .request .quit)
    (hraise : raisedToLoop fromTimestamp cfg (s, l) = none)
    (hstep : s.step fromTimestamp cfg l = some s') :
    Undisturbed cfg (a + l.beginsAttempt.toNat) s' := by
  have hstays (hq : s'.controller.quitRequested = s.controller.quitRequested)
      (hover : s'.pc.leftLoop = false) : Undisturbed cfg (a + l.beginsAttempt.toNat) s' :=
    ⟨hq.trans h.noQuit, fun ho => by rw [hover] at ho; cases ho⟩
  cases s.transition_of_step fromTimestamp cfg hstep with
  | request r =>
    refine ⟨?_, h.regular⟩
    rcases s.controller.handleRequest_cases r with hc | ⟨hc, -⟩ | ⟨hc, -⟩ | ⟨-, rfl⟩
    · simpa only [hc] using h.noQuit
    · simpa [hc] using h.noQuit
    · simpa [hc] using h.noQuit
    · exact absurd rfl hl
  | external file => exact ⟨h.noQuit, h.regular⟩
  | stop hpc hstop =>
    refine ⟨h.noQuit, fun _ => ⟨?_, ?_⟩⟩
    · rcases hpc with hpc | hpc <;>
        simpa [hpc, Pc.leftLoop, Pc.attempting, ScheduleLabel.beginsAttempt] using hcount.made
    · intro m hm
      simpa [ScheduleState.shouldStopLoop, h.noQuit, hm] using hstop
  | take hpc => exact hstays s.controller.takeNextRunMode_flags.2.2.1 rfl
  | heartbeatFails hpc e => cases hraise
  | shouldRun hpc now startedAt reporting =>
    have hsame := (s.stepShouldRun_spec fromTimestamp cfg now startedAt reporting).1
    exact hstays (by rw [hsame.controller]) (stepShouldRun_goesOn hraise)
  | jobEnds hpc result finishedAt unrecorded reporting =>
    have hsame := (s.stepJobEnds_spec cfg result finishedAt unrecorded reporting).1
    exact hstays (by rw [hsame.controller]) (stepJobEnds_goesOn hraise)
  | wait hpc => exact hstays s.controller.waitForWork_flags.2.2 rfl
  | waitReturns hpc => exact hstays s.controller.waitForWork_flags.2.2 rfl
  | interrupt hpc e => cases hraise
  | markStopped hpc => exact ⟨h.noQuit, fun _ => h.regular (by rw [hpc]; rfl)⟩
  | _ => exact hstays rfl rfl

/-! ## Runs -/

section Run
variable {predicate : RunPredicate} {lastRun : LastRun N}
  {steps : List (ScheduleState N × ScheduleLabel N)} {s : ScheduleState N}

theorem counted_run
    (h : ScheduleRun fromTimestamp cfg (.initial predicate lastRun) steps s) :
    Counted cfg (attempts steps) s := by
  induction h with
  | refl => exact counted_initial cfg predicate lastRun
  | @snoc u v l steps h hl ih =>
    have hstep := counted_step ih hl
    rw [attempts, List.countP_append, List.countP_singleton]
    cases hb : l.beginsAttempt <;> simpa [hb, attempts] using hstep

theorem completed_run
    (h : ScheduleRun fromTimestamp cfg (.initial predicate lastRun) steps s) :
    completedAttempts fromTimestamp cfg steps =
      s.nRuns + if s.pc = .updateRunCount then 1 else 0 := by
  induction h with
  | refl => rfl
  | @snoc u v l steps h hl ih =>
    rw [completedAttempts, List.countP_append, List.countP_singleton, ← completed_step hl, ← ih]
    rfl

theorem undisturbed_run
    (h : ScheduleRun fromTimestamp cfg (.initial predicate lastRun) steps s)
    (hsteps : ∀ x ∈ steps, x.2 ≠ .request .quit ∧ raisedToLoop fromTimestamp cfg x = none) :
    Undisturbed cfg (attempts steps) s := by
  induction h with
  | refl => exact ⟨rfl, fun ho => by simp [ScheduleState.initial, Pc.leftLoop] at ho⟩
  | @snoc u v l steps h hl ih =>
    obtain ⟨hquit, hraise⟩ := hsteps (u, l) (by simp)
    have hstep := undisturbed_step (counted_run h)
      (ih fun x hx => hsteps x (List.mem_append_left _ hx)) hquit hraise hl
    rw [attempts, List.countP_append, List.countP_singleton]
    cases hb : l.beginsAttempt <;> simpa [hb, attempts] using hstep

theorem runCount_le_run {u : ScheduleState N}
    (h : ScheduleRun fromTimestamp cfg u steps s) : u.nRuns ≤ s.nRuns := by
  refine h.invariant (P := fun v => u.nRuns ≤ v.nRuns) ?_ le_rfl
  intro v l w hv hl
  rcases nRuns_step hl with ⟨-, -, hn⟩ | ⟨hn, -⟩ <;> omega

/-- **The loop counts its runs.** With an integer `max_runs` there are never more
attempts, and exactly as many when nothing but the stop test ends the loop; the
count that the status reports is behind by at most the run just completed and
never goes back; and the loop only waits between two attempts. -/
theorem runs_counted
    (h : ScheduleRun fromTimestamp cfg (.initial predicate lastRun) steps s) :
    (∀ m, cfg.maxRuns = some m → (attempts steps : Int) ≤ max 0 m) ∧
    (∀ m leaving, cfg.maxRuns = some m → s.pc = .ended leaving →
      (∀ x ∈ steps, x.2 ≠ .request .quit ∧ raisedToLoop fromTimestamp cfg x = none) →
      (attempts steps : Int) = max 0 m) ∧
    (s.controller.status.runCount ≤ completedAttempts fromTimestamp cfg steps ∧
      completedAttempts fromTimestamp cfg steps ≤ s.controller.status.runCount + 1 ∧
      ∀ x ∈ steps, x.1.controller.status.runCount ≤ s.controller.status.runCount) ∧
    (s.pc = .waitForWork ∨ s.pc = .waiting →
      0 < completedAttempts fromTimestamp cfg steps ∧
      ∀ m, cfg.maxRuns = some m → (completedAttempts fromTimestamp cfg steps : Int) < m) := by
  have hcount := counted_run h
  have hcompleted := completed_run h
  have hreported : s.controller.status.runCount = s.nRuns := hcount.runCount
  refine ⟨hcount.bounded, fun m leaving hm hpc hsteps => ?_, ⟨?_, ?_, fun x hx => ?_⟩,
    fun hpc => ?_⟩
  · obtain ⟨hmade, hlimit⟩ := (undisturbed_run h hsteps).regular (by rw [hpc]; rfl)
    have hle := hcount.bounded m hm
    have := hlimit m hm
    omega
  · rw [hreported, hcompleted]
    omega
  · rw [hreported, hcompleted]
    split <;> omega
  · obtain ⟨pre, post, rfl⟩ := List.append_of_mem hx
    obtain ⟨hbefore, v, hl, hafter⟩ := h.middle
    have hmono : x.1.nRuns ≤ s.nRuns := runCount_le_run (.cons hl hafter)
    have hreported' : x.1.controller.status.runCount = x.1.nRuns := (counted_run hbefore).runCount
    rw [hreported, hreported']
    exact hmono
  · have hphase : s.pc.tested = true ∧ s.pc.pausing = true ∧ s.pc ≠ .updateRunCount := by
      rcases hpc with hpc | hpc <;> rw [hpc] <;> exact ⟨rfl, rfl, by simp⟩
    obtain ⟨htested, hpausing, hne⟩ := hphase
    rw [hcompleted, if_neg hne, Nat.add_zero]
    exact ⟨hcount.begun hpausing, fun m hm => hcount.room m hm htested⟩

/-! A loop of three attempts, each of which calls the job. -/

def threeRuns : ScheduleConfig := { minutelySchedule with maxRuns := some 3 }

/-- The loop without a request. -/
def counting (state : SchedulerState) (lastRun : LastRun Int) (nRuns : Nat) (pc : Pc) :
    ScheduleState Int :=
  ⟨⟨.absent, state, false, false, false, nRuns⟩, retryingJob, lastRun, nRuns, .normal, pc, []⟩

/-- Only the stop test ends the loop. -/
def UndisturbedRun (s : ScheduleState Int) (steps : List (ScheduleState Int × ScheduleLabel Int))
    (s' : ScheduleState Int) : Prop :=
  ScheduleRun utcClock.fromTimestamp threeRuns s steps s' ∧
    ∀ x ∈ steps, x.2 ≠ .request .quit ∧ raisedToLoop utcClock.fromTimestamp threeRuns x = none

theorem UndisturbedRun.trans {s u v : ScheduleState Int}
    {steps steps' : List (ScheduleState Int × ScheduleLabel Int)} (h : UndisturbedRun s steps u)
    (h' : UndisturbedRun u steps' v) : UndisturbedRun s (steps ++ steps') v :=
  ⟨Execution.trans h.1 h'.1, fun x hx => (List.mem_append.mp hx).elim (h.2 x) (h'.2 x)⟩

theorem counting_attempt {l : LastRun Int} (hm : l.history.maxEntries = 2)
    (state : SchedulerState) {n : Nat} (hn : n < 3) (now : Int)
    (hcall : retryingJob.call utcClock.fromTimestamp now l.snapshot =
      (retryingJob, .ok (true, []))) :
    ∃ steps l', UndisturbedRun (counting state l n .stopTest) steps
        (counting .running l' (n + 1) .stopTestAfter) ∧
      l'.history.maxEntries = 2 ∧
      l'.snapshot = [.started ⟨now⟩, .finished ⟨now, .success, ""⟩] := by
  have hbegin : (counting .running l n .shouldRun).step utcClock.fromTimestamp threeRuns
      (.shouldRun now now none) =
        some (counting .running (l.refresh.append (.started ⟨now⟩)) n .job) := by
    simp only [ScheduleState.step, counting, ScheduleState.stepShouldRun, hcall]
    rfl
  have hstop : (counting state l n .stopTest).step utcClock.fromTimestamp threeRuns
      .shouldStopLoop = some (counting state l n .takeNextRunMode) := by
    obtain rfl | rfl | rfl : n = 0 ∨ n = 1 ∨ n = 2 := by omega
    all_goals rfl
  refine ⟨[(_, .shouldStopLoop), (_, .takeNextRunMode), (_, .markRunning), (_, .force),
    (_, .heartbeat none), (_, .shouldRun now now none),
    (_, .jobEnds (.returned .none) now none none), (_, .updateRunCount)], _,
    ⟨.cons hstop (.cons rfl (.cons rfl (.cons rfl (.cons rfl (.cons hbegin (.cons rfl
      (.single rfl))))))), ?_⟩, ?_, ?_⟩
  · simp only [List.forall_mem_cons]
    refine ⟨⟨by simp, rfl⟩, ⟨by simp, rfl⟩, ⟨by simp, rfl⟩, ⟨by simp, rfl⟩, ⟨by simp, rfl⟩,
      ⟨by simp, ?_⟩, ⟨by simp, rfl⟩, ⟨by simp, rfl⟩, by simp⟩
    simp only [raisedToLoop, counting, hcall]
  · exact (LastRun.append_maxEntries ..).trans ((LastRun.append_maxEntries ..).trans
      ((LastRun.refresh_maxEntries l).trans hm))
  · change ((l.refresh.append (.started ⟨now⟩)).append
      (.finished ⟨now, .success, ""⟩)).snapshot = _
    rw [LastRun.snapshot_append, LastRun.append_maxEntries, LastRun.snapshot_append,
      rtake_rtake_append, LastRun.refresh_maxEntries, hm, List.rtake, List.append_assoc,
      List.length_append]
    exact List.drop_left

/-- Three attempts, and the end by the stop test. -/
theorem runs_counted_three :
    ∃ steps s, ScheduleRun utcClock.fromTimestamp threeRuns
      (.initial retryingJob (newLastRun 2)) steps s ∧
      s.pc = .ended none ∧ (attempts steps : Int) = max 0 3 := by
  have hpause (l : LastRun Int) (n : Nat) (hn : n < 3) : ∃ steps,
      UndisturbedRun (counting .running l n .stopTestAfter) steps
        (counting .sleeping l n .stopTest) := by
    have hgo : (counting .running l n .stopTestAfter).step utcClock.fromTimestamp threeRuns
        .shouldStopLoop = some (counting .running l n .hasPendingWork) := by
      obtain rfl | rfl | rfl : n = 0 ∨ n = 1 ∨ n = 2 := by omega
      all_goals rfl
    refine ⟨[(_, .shouldStopLoop), (_, .hasPendingWork), (_, .waitForWork), (_, .timeout)],
      .cons hgo (.cons rfl (.cons rfl (.single rfl))), ?_⟩
    simp only [List.forall_mem_cons]
    exact ⟨⟨by simp, rfl⟩, ⟨by simp, rfl⟩, ⟨by simp, rfl⟩, ⟨by simp, rfl⟩, by simp⟩
  obtain ⟨steps₁, l₁, h₁, hm₁, hs₁⟩ := counting_attempt (l := newLastRun 2) rfl .starting
    (n := 0) (by decide) 0 rfl
  obtain ⟨pause₁, hpause₁⟩ := hpause l₁ 1 (by decide)
  obtain ⟨steps₂, l₂, h₂, hm₂, hs₂⟩ := counting_attempt hm₁ .sleeping
    (n := 1) (by decide) 60000000 (by rw [hs₁]; rfl)
  obtain ⟨pause₂, hpause₂⟩ := hpause l₂ 2 (by decide)
  obtain ⟨steps₃, l₃, h₃, -, -⟩ := counting_attempt hm₂ .sleeping
    (n := 2) (by decide) 120000000 (by rw [hs₂]; rfl)
  have hend : UndisturbedRun (counting .running l₃ 3 .stopTestAfter)
      [(_, .shouldStopLoop), (_, .markStopped)] _ := ⟨.cons rfl (.single rfl), by
        simp only [List.forall_mem_cons]
        exact ⟨⟨by simp, rfl⟩, ⟨by simp, rfl⟩, by simp⟩⟩
  have hall := ((((h₁.trans hpause₁).trans h₂).trans hpause₂).trans h₃).trans hend
  have hrun : ScheduleRun utcClock.fromTimestamp threeRuns (.initial retryingJob (newLastRun 2))
    _ _ := hall.1
  exact ⟨_, _, hrun, rfl, (runs_counted hrun).2.1 3 none rfl rfl hall.2⟩

end Run

end SchedulingUtil
