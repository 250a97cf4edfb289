import SchedulingUtil.ScheduleRequests

/-! # Forced runs

A run-now request sets a flag of the controller, the loop takes the flag as a
mode, and the mode sets the one-shot value of the predicate that the attempt
uses up. One invariant ties the three together. -/
namespace SchedulingUtil
open Lib

variable {N : Type}

/-- The step takes the mode `run-now`. -/
def ForcedTake (x : ScheduleState N × ScheduleLabel N) : Prop :=
  x.2 = .takeNextRunMode ∧ x.1.controller.takeNextRunMode.2 = .runNow

/-! ## The one-shot value -/

/-- The value is there in an attempt of mode `run-now`, from `force` until the
predicate is called; an attempt cut short before the call ends the loop. -/
structure ForceSound (predicate : RunPredicate) (s : ScheduleState N) : Prop where
  config : s.predicate = { predicate with nextReturnValue := s.predicate.nextReturnValue }
  value : (∃ leaving, s.pc = .markStopped leaving ∨ s.pc = .ended leaving) ∨
    s.predicate.nextReturnValue =
      if s.mode = .runNow ∧ (s.pc = .heartbeat ∨ s.pc = .shouldRun) then some true else none

theorem forceSound_initial (predicate : RunPredicate) (lastRun : LastRun N) :
    ForceSound predicate (.initial predicate lastRun) :=
  ⟨rfl, .inr rfl⟩

/-- Elsewhere in the loop the value is not set. -/
theorem ForceSound.unset {predicate : RunPredicate} {s : ScheduleState N}
    (h : ForceSound predicate s) (hpc : s.pc ≠ .heartbeat ∧ s.pc ≠ .shouldRun)
    (hns : ∀ leaving, s.pc ≠ .markStopped leaving ∧ s.pc ≠ .ended leaving) :
    s.predicate.nextReturnValue = none := by
  rcases h.value with ⟨leaving, hleft | hleft⟩ | hv
  · exact absurd hleft (hns leaving).1
  · exact absurd hleft (hns leaving).2
  · rw [hv]
    simp [hpc]

theorem forceSound_of_unset {predicate : RunPredicate} {s s' : ScheduleState N}
    (h : ForceSound predicate s) (hp : s'.predicate = s.predicate)
    (hv : s.predicate.nextReturnValue = none) (hpc' : s'.pc ≠ .heartbeat ∧ s'.pc ≠ .shouldRun) :
    ForceSound predicate s' :=
  ⟨by rw [hp]; exact h.config, .inr (by rw [hp, hv]; simp [hpc'])⟩

theorem attemptLeft_ne_attempt {s : ScheduleState N} (h : s.AttemptLeft) :
    s.pc ≠ .heartbeat ∧ s.pc ≠ .shouldRun := by
  rcases h with h | ⟨leaving, h⟩ <;> simp [h]

variable [PyFloat N] {fromTimestamp : FromTimestamp N} {cfg : ScheduleConfig}

theorem forceSound_step {predicate : RunPredicate} {s s' : ScheduleState N} {l : ScheduleLabel N}
    (h : ForceSound predicate s) (hstep : s.step fromTimestamp cfg l = some s') :
    ForceSound predicate s' := by
  cases s.transition_of_step fromTimestamp cfg hstep with
  | request r => exact ⟨h.config, h.value⟩
  | external file => exact ⟨h.config, h.value⟩
  | force hpc =>
    have hunset := h.unset (by simp [hpc]) (by simp [hpc])
    have hconfig := h.config
    cases hm : s.mode with
    | runNow =>
      refine ⟨?_, .inr (by simp [ScheduleState.forced, hm, RunPredicate.forceNextReturnValue])⟩
      simp only [ScheduleState.forced, hm, RunPredicate.forceNextReturnValue]
      rw [hconfig]
    | normal =>
      refine ⟨by simpa only [ScheduleState.forced, hm] using hconfig, .inr ?_⟩
      simp [ScheduleState.forced, hm, hunset]
  | heartbeat hpc =>
    refine ⟨h.config, .inr ?_⟩
    rcases h.value with ⟨leaving, hleft | hleft⟩ | hv
    · rw [hpc] at hleft; cases hleft
    · rw [hpc] at hleft; cases hleft
    · rw [hv, hpc]
      simp
  | heartbeatFails hpc e =>
    obtain ⟨-, hp, leaving, hleft⟩ := s.leave_spec e
    exact ⟨by rw [hp]; exact h.config, .inl ⟨leaving, .inl hleft⟩⟩
  | shouldRun hpc now startedAt reporting =>
    obtain ⟨-, hp, hleft⟩ := s.stepShouldRun_spec fromTimestamp cfg now startedAt reporting
    have hpc' : (s.stepShouldRun fromTimestamp cfg now startedAt reporting).pc ≠ .heartbeat ∧
        (s.stepShouldRun fromTimestamp cfg now startedAt reporting).pc ≠ .shouldRun := by
      rcases hleft with ⟨hjob, -⟩ | ⟨hleft, -⟩
      · simp [hjob]
      · exact attemptLeft_ne_attempt hleft
    have hcall : (s.predicate.call fromTimestamp now s.lastRun.snapshot).1 =
        { s.predicate with nextReturnValue := none } := by
      unfold RunPredicate.call
      cases hv : s.predicate.nextReturnValue with
      | none => dsimp only; rw [← hv]
      | some v => rfl
    refine ⟨?_, .inr ?_⟩
    · rw [hp, hcall, h.config]
    · rw [hp, hcall]
      simp [hpc']
  | jobEnds hpc result finishedAt unrecorded reporting =>
    obtain ⟨-, hp, hleft⟩ := s.stepJobEnds_spec cfg result finishedAt unrecorded reporting
    exact forceSound_of_unset h hp (h.unset (by simp [hpc]) (by simp [hpc]))
      (attemptLeft_ne_attempt hleft)
  | stop hpc => exact ⟨h.config, .inl ⟨none, .inl rfl⟩⟩
  | interrupt hpc e => exact ⟨h.config, .inl ⟨some e, .inl rfl⟩⟩
  | markStopped hpc => exact ⟨h.config, .inl ⟨_, .inr rfl⟩⟩
  | _ hpc =>
    exact forceSound_of_unset h rfl (h.unset (by simp [hpc]) (by simp [hpc])) (by simp)

/-- What an attempt of a run decides by. -/
theorem decision_eq {predicate : RunPredicate} {s : ScheduleState N} (h : ForceSound predicate s)
    (hpc : s.pc = .shouldRun) (now : Datetime) :
    s.decision fromTimestamp now =
      if s.mode = .runNow then .ok true
      else predicate.shouldRun fromTimestamp now s.lastRun.snapshot := by
  have hv : s.predicate.nextReturnValue = if s.mode = .runNow then some true else none := by
    rcases h.value with ⟨leaving, hleft | hleft⟩ | hv
    · rw [hpc] at hleft; cases hleft
    · rw [hpc] at hleft; cases hleft
    · rw [hv, hpc]
      simp
  unfold ScheduleState.decision RunPredicate.call
  cases hm : s.mode with
  | runNow =>
    rw [hv, hm]
    rfl
  | normal =>
    rw [hv, hm, h.config]
    rfl

/-! ## From the request to the take -/

/-- The steps of the loop that are left until it takes the next mode, or ends. -/
def takeRank : Pc → Nat
  | .markRunning => 10
  | .force => 9
  | .heartbeat => 8
  | .shouldRun => 7
  | .job => 6
  | .updateRunCount => 5
  | .stopTestAfter => 4
  | .hasPendingWork => 3
  | .waitForWork => 3
  | .waiting => 3
  | .stopTest => 2
  | .takeNextRunMode => 1
  | .markStopped _ => 1
  | .ended _ => 0

theorem takeRank_le (pc : Pc) : takeRank pc ≤ 10 := by cases pc <;> simp [takeRank]

omit [PyFloat N] in
theorem attemptLeft_takeRank {s : ScheduleState N} (h : s.AttemptLeft) : takeRank s.pc ≤ 5 := by
  rcases h with h | ⟨leaving, h⟩ <;> simp [h, takeRank]

/-- With a run-now pending the loop moves on to the take that serves it. -/
structure RunNowPending (s : ScheduleState N) : Prop where
  waitSound : WaitSound s
  pending : s.controller.pendingRunNow = true

omit [PyFloat N] in
theorem RunNowPending.hasPendingWork {s : ScheduleState N} (h : RunNowPending s) :
    s.controller.hasPendingWork = true := by
  simp [ScheduleController.hasPendingWork, h.pending]

theorem runNowPending_step (u : ScheduleState N) (l : ScheduleLabel N) (v : ScheduleState N)
    (h : RunNowPending u) (hstep : u.step fromTimestamp cfg l = some v) :
    ForcedTake (u, l) ∨
      RunNowPending v ∧ takeRank v.pc + (if l.isLoop then 1 else 0) ≤ takeRank u.pc := by
  by_cases ht : l = .takeNextRunMode
  · exact .inl ⟨ht, u.controller.takeNextRunMode_flags.2.2.2.2.mpr h.pending⟩
  refine .inr
    ⟨⟨waitSound_step h.waitSound hstep, (keepsFlags_step hstep ht).pendingRunNow h.pending⟩,
    ?_⟩
  cases u.transition_of_step fromTimestamp cfg hstep with
  | request r => simp [ScheduleLabel.isLoop]
  | external file => simp [ScheduleLabel.isLoop]
  | stop hpc => rcases hpc with hpc | hpc <;> simp [hpc, takeRank, ScheduleLabel.isLoop]
  | take => exact absurd rfl ht
  | heartbeatFails hpc e =>
    obtain ⟨-, -, leaving, hleft⟩ := u.leave_spec e
    simp [hpc, hleft, takeRank, ScheduleLabel.isLoop]
  | shouldRun hpc now startedAt reporting =>
    obtain ⟨-, -, ⟨hjob, -⟩ | ⟨hleft, -⟩⟩ :=
      u.stepShouldRun_spec fromTimestamp cfg now startedAt reporting
    · simp [hpc, hjob, takeRank, ScheduleLabel.isLoop]
    · have hle := attemptLeft_takeRank hleft
      have hu : takeRank u.pc = 7 := by rw [hpc]; rfl
      show takeRank _ + 1 ≤ takeRank u.pc
      omega
  | jobEnds hpc result finishedAt unrecorded reporting =>
    have hle := attemptLeft_takeRank
      (u.stepJobEnds_spec cfg result finishedAt unrecorded reporting).2.2
    have hu : takeRank u.pc = 6 := by rw [hpc]; rfl
    show takeRank _ + 1 ≤ takeRank u.pc
    omega
  | noWorkPending hpc hidle => rw [h.hasPendingWork] at hidle; cases hidle
  | wait hpc hw =>
    rw [u.controller.waitForWork_condition (h.waitSound.absent (by simp [hpc])),
      h.hasPendingWork] at hw
    cases hw
  | _ hpc => simp [hpc, takeRank, ScheduleLabel.isLoop]

/-! ## From the take to the job -/

/-- The job function is called. -/
def CallsJob (fromTimestamp : FromTimestamp N) (cfg : ScheduleConfig)
    (x : ScheduleState N × ScheduleLabel N) : Prop :=
  ∃ now startedAt reporting, x.2 = .shouldRun now startedAt reporting ∧
    (x.1.stepShouldRun fromTimestamp cfg now startedAt reporting).pc = .job

/-- The steps that are left until the job is called, or the loop has ended. -/
def callRank : Pc → Nat
  | .markRunning => 4
  | .force => 3
  | .heartbeat => 2
  | .shouldRun => 1
  | .markStopped _ => 1
  | _ => 0

/-- An attempt in mode `run-now` before its job is called, or cut short. -/
structure RunNowTaken (predicate : RunPredicate) (s : ScheduleState N) : Prop where
  forceSound : ForceSound predicate s
  mode : s.mode = .runNow
  pc : s.pc = .markRunning ∨ s.pc = .force ∨ s.pc = .heartbeat ∨ s.pc = .shouldRun ∨
    ∃ leaving, s.pc = .markStopped leaving ∨ s.pc = .ended leaving

theorem runNowTaken_step {predicate : RunPredicate} (u : ScheduleState N) (l : ScheduleLabel N)
    (v : ScheduleState N) (h : RunNowTaken predicate u)
    (hstep : u.step fromTimestamp cfg l = some v) :
    CallsJob fromTimestamp cfg (u, l) ∨
      RunNowTaken predicate v ∧ callRank v.pc + (if l.isLoop then 1 else 0) ≤ callRank u.pc := by
  have hsound := forceSound_step h.forceSound hstep
  have hm := h.mode
  have hpcs := h.pc
  cases u.transition_of_step fromTimestamp cfg hstep with
  | request r => exact .inr ⟨⟨hsound, hm, hpcs⟩, by simp [ScheduleLabel.isLoop]⟩
  | external file => exact .inr ⟨⟨hsound, hm, hpcs⟩, by simp [ScheduleLabel.isLoop]⟩
  | markRunning hpc =>
    exact .inr ⟨⟨hsound, hm, by simp⟩, by simp [hpc, callRank, ScheduleLabel.isLoop]⟩
  | force hpc =>
    exact .inr ⟨⟨hsound, hm, by simp⟩, by simp [hpc, callRank, ScheduleLabel.isLoop]⟩
  | heartbeat hpc =>
    exact .inr ⟨⟨hsound, hm, by simp⟩, by simp [hpc, callRank, ScheduleLabel.isLoop]⟩
  | heartbeatFails hpc e =>
    obtain ⟨hsame, -, leaving, hleft⟩ := u.leave_spec e
    exact .inr ⟨⟨hsound, by rw [hsame.mode, hm], by simp [hleft]⟩,
      by simp [hpc, hleft, callRank, ScheduleLabel.isLoop]⟩
  | shouldRun hpc now startedAt reporting =>
    -- the forced value is there, so the job is called
    obtain ⟨-, -, ⟨hjob, -⟩ | ⟨-, hne⟩⟩ :=
      u.stepShouldRun_spec fromTimestamp cfg now startedAt reporting
    · exact .inl ⟨now, startedAt, reporting, rfl, hjob⟩
    · rw [decision_eq h.forceSound hpc, hm] at hne
      exact absurd rfl hne
  | markStopped hpc =>
    exact .inr ⟨⟨hsound, hm, by simp⟩, by simp [hpc, callRank, ScheduleLabel.isLoop]⟩
  | stop hpc => rcases hpc with hpc | hpc <;> simp [hpc] at hpcs
  | _ hpc => simp [hpc] at hpcs

/-! ## Requests and forced attempts -/

/-- In these steps the mode `run-now` is taken, and the job is called in that
attempt. -/
def RunNowServed (fromTimestamp : FromTimestamp N) (cfg : ScheduleConfig)
    (steps : List (ScheduleState N × ScheduleLabel N)) : Prop :=
  ∃ a v b w c, steps = a ++ v :: (b ++ w :: c) ∧ ForcedTake v ∧
    (∀ y ∈ b, y.2 ≠ .takeNextRunMode) ∧ CallsJob fromTimestamp cfg w

/-- A step that the loop takes by itself at this point: no timeout, no interrupt.
`t` stands for what the clock returns. -/
def ownStep (t : N) : Pc → Option (ScheduleLabel N)
  | .stopTest => some .shouldStopLoop
  | .takeNextRunMode => some .takeNextRunMode
  | .markRunning => some .markRunning
  | .force => some .force
  | .heartbeat => some (.heartbeat none)
  | .shouldRun => some (.shouldRun 0 t none)
  | .job => some (.jobEnds (.returned .none) t none none)
  | .updateRunCount => some .updateRunCount
  | .stopTestAfter => some .shouldStopLoop
  | .hasPendingWork => some .hasPendingWork
  | .waitForWork => some .waitForWork
  | .waiting => some .wakeUp
  | .markStopped _ => some .markStopped
  | .ended _ => none

/-- The loop is not stuck, unless it waits unnotified. -/
theorem ownStep_enabled {s : ScheduleState N} (t : N)
    (hw : s.pc = .waiting → s.controller.condition = .notified)
    (hended : ∀ leaving, s.pc ≠ .ended leaving) :
    ∃ l, ownStep t s.pc = some l ∧ (s.step fromTimestamp cfg l).isSome := by
  cases hpc : s.pc with
  | ended leaving => exact absurd hpc (hended leaving)
  | waiting => exact ⟨_, rfl, by simp [ScheduleState.step, hpc, hw hpc]⟩
  | force => exact ⟨_, rfl, by cases hm : s.mode <;> simp [ScheduleState.step, hpc, hm]⟩
  | _ => exact ⟨_, rfl, by simp [ScheduleState.step, hpc]⟩

theorem RunNowPending.enabled {s : ScheduleState N} (h : RunNowPending s) (t : N)
    (hended : ∀ leaving, s.pc ≠ .ended leaving) :
    ∃ l, ownStep t s.pc = some l ∧ (s.step fromTimestamp cfg l).isSome := by
  refine ownStep_enabled t ?_ hended
  intro hpc
  cases hc : s.controller.condition with
  | absent => exact absurd hc (h.waitSound.present.mp hpc)
  | waiting =>
    have hnone := (h.waitSound.unnotified hc).2.1
    rw [h.pending] at hnone
    cases hnone
  | notified => rfl

theorem RunNowTaken.enabled {predicate : RunPredicate} {s : ScheduleState N}
    (h : RunNowTaken predicate s) (t : N) (hended : ∀ leaving, s.pc ≠ .ended leaving) :
    ∃ l, ownStep t s.pc = some l ∧ (s.step fromTimestamp cfg l).isSome := by
  refine ownStep_enabled t ?_ hended
  intro hpc
  have hpcs := h.pc
  simp [hpc] at hpcs

/-- Once a run-now is pending, its attempt calls the job within the loop's next
steps, unless the loop ends. -/
theorem pending_served {predicate : RunPredicate} {s s' : ScheduleState N}
    {steps : List (ScheduleState N × ScheduleLabel N)}
    (h : ScheduleRun fromTimestamp cfg s steps s') (hforce : ForceSound predicate s)
    (hpending : RunNowPending s) :
    RunNowServed fromTimestamp cfg steps ∨ (∃ leaving, s'.pc = .ended leaving) ∨
      steps.countP (fun x => x.2.isLoop) ≤ 13 ∧
      ∀ t, ∃ l, ownStep t s'.pc = some l ∧ (s'.step fromTimestamp cfg l).isSome := by
  rcases h.progress runNowPending_step hpending with
    ⟨a, v, rest, rfl, htake, -, hv, hle⟩ | ⟨-, hp, hle⟩
  · obtain ⟨ha, v', hstep, hrest⟩ := h.middle
    have hforce' : ForceSound predicate v.1 :=
      ha.invariant (fun _ _ _ hu hl => forceSound_step hu hl) hforce
    obtain ⟨hlabel, hmode⟩ := htake
    have htaken : RunNowTaken predicate v' ∧ takeRank v.1.pc = 1 ∧ callRank v'.pc = 4 := by
      have hsound := forceSound_step hforce' hstep
      rw [hlabel] at hstep
      cases v.1.transition_of_step fromTimestamp cfg hstep with
      | take hpc => exact ⟨⟨hsound, hmode, .inl rfl⟩, by rw [hpc]; rfl, rfl⟩
    obtain ⟨htaken, hrank, hrank'⟩ := htaken
    rcases hrest.progress runNowTaken_step htaken with
      ⟨b, w, c, rfl, hcalls, hb, -, -⟩ | ⟨-, hp, hle'⟩
    · refine .inl ⟨a, v, b, w, c, rfl, ⟨hlabel, hmode⟩, ?_, hcalls⟩
      intro y hy hl
      obtain ⟨u, hu⟩ := hrest.step_of_mem (List.mem_append_left _ hy)
      have hpcs := (hb y hy).pc
      rw [hl] at hu
      cases y.1.transition_of_step fromTimestamp cfg hu with
      | take hpc => simp [hpc] at hpcs
    · refine .inr ?_
      by_cases hended : ∃ leaving, s'.pc = .ended leaving
      · exact .inl hended
      · refine .inr ⟨?_, fun t => hp.enabled t (by simpa using hended)⟩
        have hleft : 1 ≤ callRank s'.pc := by
          rcases hp.pc with hpc | hpc | hpc | hpc | ⟨leaving, hpc | hpc⟩
          case inr.inr.inr.inr.inr => exact absurd ⟨leaving, hpc⟩ hended
          all_goals simp [hpc, callRank]
        have hbound := takeRank_le s.pc
        have hcount : (a ++ v :: rest).countP (fun x => x.2.isLoop) =
            a.countP (fun x => x.2.isLoop) + rest.countP (fun x => x.2.isLoop) + 1 := by
          rw [List.countP_append, List.countP_cons, hlabel]
          simp only [ScheduleLabel.isLoop, if_true]
          omega
        omega
  · refine .inr ?_
    by_cases hended : ∃ leaving, s'.pc = .ended leaving
    · exact .inl hended
    · have := takeRank_le s.pc
      exact .inr ⟨by omega, fun t => hp.enabled t (by simpa using hended)⟩

/-- The flag is set by an accepted request only. -/
theorem accepts_of_set {s s' : ScheduleState N} {l : ScheduleLabel N}
    (hstep : s.step fromTimestamp cfg l = some s') (h : s.controller.pendingRunNow = false)
    (h' : s'.controller.pendingRunNow = true) : Accepts .runNow (s, l) := by
  cases s.transition_of_step fromTimestamp cfg hstep with
  | request r =>
    rcases s.controller.handleRequest_cases r with
      hc | ⟨hc, -⟩ | ⟨-, hq, hs, rfl⟩ | ⟨⟨state, hc, -⟩, -⟩
    · rw [hc, h] at h'; cases h'
    · rw [hc] at h'
      simp [h] at h'
    · refine ⟨rfl, ?_⟩
      simp [ScheduleController.handleRequest, ScheduleController.requestRunNow, hs, hq,
        ScheduleController.respond]
    · rw [hc] at h'
      simp [h] at h'
  | take =>
    rw [s.controller.takeNextRunMode_flags.1] at h'
    cases h'
  | heartbeatFails _ e => rw [(s.leave_spec e).1.controller, h] at h'; cases h'
  | shouldRun _ now startedAt reporting =>
    rw [(s.stepShouldRun_spec fromTimestamp cfg now startedAt reporting).1.controller, h] at h'
    cases h'
  | jobEnds _ result finishedAt unrecorded reporting =>
    rw [(s.stepJobEnds_spec cfg result finishedAt unrecorded reporting).1.controller, h] at h'
    cases h'
  | wait => rw [s.controller.waitForWork_flags.2.1, h] at h'; cases h'
  | waitReturns => rw [s.controller.waitForWork_flags.2.1, h] at h'; cases h'
  | _ => exact absurd (h.symm.trans h') (by decide)

/-- A pending run-now was accepted after the last forced take. -/
theorem pendingRunNow_origin {predicate : RunPredicate} {lastRun : LastRun N}
    {steps : List (ScheduleState N × ScheduleLabel N)} {s : ScheduleState N}
    (h : ScheduleRun fromTimestamp cfg (.initial predicate lastRun) steps s)
    (hpending : s.controller.pendingRunNow = true) :
    ∃ a x b, steps = a ++ x :: b ∧ Accepts .runNow x ∧ ∀ y ∈ b, ¬ ForcedTake y := by
  induction h with
  | refl => cases hpending
  | @snoc u v l steps h hl ih =>
    cases hu : u.controller.pendingRunNow with
    | false => exact ⟨steps, (u, l), [], rfl, accepts_of_set hl hu hpending, by simp⟩
    | true =>
      obtain ⟨a, x, b, rfl, hx, hb⟩ := ih hu
      refine ⟨a, x, b ++ [(u, l)], List.append_assoc .., hx, ?_⟩
      intro y hy
      rcases List.mem_append.mp hy with hy | hy
      · exact hb y hy
      · rw [List.mem_singleton.mp hy]
        intro hl
        obtain ⟨hlabel, -⟩ := hl
        obtain rfl : l = .takeNextRunMode := hlabel
        cases u.transition_of_step fromTimestamp cfg hl with
        | take =>
          rw [u.controller.takeNextRunMode_flags.1] at hpending
          cases hpending

/-- **Forced runs are accounted for.** (a) An accepted run-now is served by a
forced attempt that calls the job, or the loop has ended, or fewer than 14 steps
of the loop have followed and it can take the next. (b) A forced mode is taken
only for a run-now accepted since the last one was. (c) An attempt calls the job
if its mode is `run-now`, and otherwise if the predicate says so. -/
theorem forced_runs_accounted {predicate : RunPredicate} {lastRun : LastRun N}
    {steps : List (ScheduleState N × ScheduleLabel N)} {s : ScheduleState N}
    (h : ScheduleRun fromTimestamp cfg (.initial predicate lastRun) steps s) :
    (∀ before x after, steps = before ++ x :: after → Accepts .runNow x →
      RunNowServed fromTimestamp cfg after ∨ (∃ leaving, s.pc = .ended leaving) ∨
        after.countP (fun x => x.2.isLoop) ≤ 13 ∧
        ∀ t, ∃ l, ownStep t s.pc = some l ∧ (s.step fromTimestamp cfg l).isSome) ∧
    (∀ before v after, steps = before ++ v :: after → ForcedTake v →
      ∃ a x b, before = a ++ x :: b ∧ Accepts .runNow x ∧ ∀ y ∈ b, ¬ ForcedTake y) ∧
    (∀ before u after now startedAt reporting,
      steps = before ++ (u, .shouldRun now startedAt reporting) :: after →
      (CallsJob fromTimestamp cfg (u, .shouldRun now startedAt reporting) ↔
        u.mode = .runNow ∨
          predicate.shouldRun fromTimestamp now u.lastRun.snapshot = .ok true)) := by
  refine ⟨?_, ?_, ?_⟩
  · intro before x after hsteps hacc
    subst hsteps
    obtain ⟨hbefore, s₁, hx, hafter⟩ := h.middle
    have hforce : ForceSound predicate x.1 :=
      hbefore.invariant (fun _ _ _ hu hl => forceSound_step hu hl) (forceSound_initial ..)
    have hsound : WaitSound x.1 :=
      hbefore.invariant (fun _ _ _ hu hl => waitSound_step hu hl) (waitSound_initial ..)
    obtain ⟨hl, hflag⟩ := accepts_runNow hacc
    refine pending_served hafter (forceSound_step hforce hx) ⟨waitSound_step hsound hx, ?_⟩
    rw [hl] at hx
    cases hx
    exact hflag
  · intro before v after hsteps htaken
    subst hsteps
    obtain ⟨hl, hmode⟩ := htaken
    exact pendingRunNow_origin h.middle.1 (v.1.controller.takeNextRunMode_flags.2.2.2.2.mp hmode)
  · intro before u after now startedAt reporting hsteps
    subst hsteps
    obtain ⟨hbefore, s₁, hx, -⟩ := h.middle
    have hforce : ForceSound predicate u :=
      hbefore.invariant (fun _ _ _ hu hl => forceSound_step hu hl) (forceSound_initial ..)
    cases u.transition_of_step fromTimestamp cfg hx with
    | shouldRun hpc =>
      have hdecision : u.decision fromTimestamp now = _ := decision_eq hforce hpc now
      have hcalled : CallsJob fromTimestamp cfg (u, .shouldRun now startedAt reporting) ↔
          u.decision fromTimestamp now = .ok true := by
        obtain ⟨-, -, ⟨hjob, htrue⟩ | ⟨hleft, hne⟩⟩ :=
          u.stepShouldRun_spec fromTimestamp cfg now startedAt reporting
        · exact iff_of_true ⟨now, startedAt, reporting, rfl, hjob⟩ htrue
        · refine iff_of_false ?_ hne
          intro h
          obtain ⟨_, _, _, heq, hjob⟩ := h
          cases heq
          rcases hleft with hleft | ⟨leaving, hleft⟩ <;> simp [hjob] at hleft
      rw [hcalled, hdecision]
      by_cases hm : u.mode = .runNow <;> simp [hm]

/-- The loop in its first attempt, which a run-now has forced, or behind it. -/
def forcedFirst (controller : ScheduleController) (nextReturnValue : Option Bool)
    (lastRun : LastRun Int) (nRuns : Nat) (pc : Pc) : ScheduleState Int :=
  ⟨controller, { retryingJob with nextReturnValue }, lastRun, nRuns, .runNow, pc, []⟩

/-- A run-now comes behind a success; the job is called, which the predicate would not have
done. -/
theorem forced_runs_accounted_after_success :
    ∃ (lastRun : LastRun Int) (x : _) (a : _) (u : _) (b : _) (s : _),
      ScheduleRun utcClock.fromTimestamp minutelySchedule (.initial retryingJob lastRun)
        (x :: (a ++ (u, .shouldRun 1 1 none) :: b)) s ∧
      Accepts .runNow x ∧
      RunNowServed utcClock.fromTimestamp minutelySchedule
        (a ++ (u, .shouldRun 1 1 none) :: b) ∧
      CallsJob utcClock.fromTimestamp minutelySchedule (u, .shouldRun 1 1 none) ∧
      retryingJob.shouldRun utcClock.fromTimestamp 1 u.lastRun.snapshot = .ok false := by
  obtain ⟨lastRun, hlast⟩ : ∃ l : LastRun Int,
      retryingJob.shouldRun utcClock.fromTimestamp 1 l.snapshot = .ok false :=
    ⟨(newLastRun 10).append (.finished ⟨0, .success, ""⟩), rfl⟩
  obtain ⟨begun, hbegun⟩ : ∃ begun, (forcedFirst ⟨.absent, .running, false, false, false, 0⟩
      (some true) lastRun 0 .shouldRun).step utcClock.fromTimestamp minutelySchedule
        (.shouldRun 1 1 none) =
      some (forcedFirst ⟨.absent, .running, false, false, false, 0⟩ none begun 0 .job) := ⟨_, rfl⟩
  obtain ⟨ended, hended⟩ : ∃ ended, (forcedFirst ⟨.absent, .running, false, false, false, 0⟩ none
      begun 0 .job).step utcClock.fromTimestamp minutelySchedule
        (.jobEnds (.returned .none) 1 none none) =
      some (forcedFirst ⟨.absent, .running, false, false, false, 0⟩ none ended 0
        .updateRunCount) := ⟨_, rfl⟩
  have hrun : ScheduleRun utcClock.fromTimestamp minutelySchedule (.initial retryingJob lastRun)
      ((.initial retryingJob lastRun, .request .runNow) ::
        ([(_, .shouldStopLoop), (_, .takeNextRunMode), (_, .markRunning), (_, .force),
            (_, .heartbeat none)] ++
          (_, .shouldRun 1 1 none) ::
          [(_, .jobEnds (.returned .none) 1 none none), (_, .updateRunCount), (_, .shouldStopLoop),
            (_, .hasPendingWork), (_, .waitForWork), (_, .timeout), (_, .shouldStopLoop),
            (_, .takeNextRunMode)])) _ :=
    .cons rfl (.cons rfl (.cons rfl (.cons rfl (.cons rfl (.cons rfl (.cons hbegun (.cons hended
      (.cons rfl (.cons rfl (.cons rfl (.cons rfl (.cons rfl (.cons rfl (.single rfl))))))))))))))
  obtain ⟨hserved, -, hcalls⟩ := forced_runs_accounted hrun
  refine ⟨lastRun, _, _, _, _, _, hrun, ⟨rfl, rfl⟩, ?_, ?_, hlast⟩
  · rcases hserved [] _ _ rfl ⟨rfl, rfl⟩ with h | ⟨leaving, h⟩ | ⟨h, -⟩
    · exact h
    · cases h
    · exact absurd (show 14 ≤ 13 from h) (by decide)
  · exact (hcalls (_ :: _) _ _ _ _ _ rfl).mpr (.inl rfl)

end SchedulingUtil
