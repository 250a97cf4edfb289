import SchedulingUtil.ScheduleCounts

/-! # Why the loop of `schedule` ends

An accepted quit, `max_runs`, `KeyboardInterrupt`, or an exception that no error boundary
holds back: each of them ends the loop, and nothing else does. -/
namespace SchedulingUtil
open Lib

variable {N : Type} [PyFloat N] {fromTimestamp : FromTimestamp N} {cfg : ScheduleConfig}

/-! ## What is raised into the loop -/

/-- The exception of the wrapped function in a step, with what reporting it raises. What keeps
the job's end out of the history takes the place of what the job has raised. -/
def wrappedRaises (fromTimestamp : FromTimestamp N) (s : ScheduleState N) :
    ScheduleLabel N → Option (PyException × Option PyException)
  | .shouldRun now _ reporting =>
    match (s.predicate.call fromTimestamp now s.lastRun.snapshot).2 with
    | .error e => some (e, reporting)
    | .ok _ => none
  | .jobEnds _ _ (some unrecorded) reporting => some (unrecorded.raised, reporting)
  | .jobEnds (.raised e) _ none reporting => some (e, reporting)
  | _ => none

/-- A step raises `e` into the loop. An `Exception` of the wrapped function is held back, but
not what reporting it raises. -/
inductive RaisesIntoLoop (fromTimestamp : FromTimestamp N) (s : ScheduleState N)
    (l : ScheduleLabel N) (e : PyException) : Prop where
  | heartbeat (hl : l = .heartbeat (some e))
  | wait (hl : l = .interrupt e)
  | wrapped {reporting : Option PyException}
      (h : wrappedRaises fromTimestamp s l = some (e, reporting)) (he : e.cls ≠ .exception)
  | reporting {cause : PyException} (h : wrappedRaises fromTimestamp s l = some (cause, some e))
      (hcause : cause.cls = .exception)

theorem raisesIntoLoop_of_wrapped {s : ScheduleState N} {l : ScheduleLabel N}
    {e raised : PyException} {reporting : Option PyException} {α : Type}
    (h : wrappedRaises fromTimestamp s l = some (raised, reporting)) :
    leaveErrorBoundary reporting (.error raised : Except PyException α) = some e ↔
      RaisesIntoLoop fromTimestamp s l e := by
  have hleave : leaveErrorBoundary reporting (.error raised : Except PyException α) =
      if raised.cls = .exception then reporting else some raised := rfl
  rw [hleave]
  constructor
  · intro he
    split at he
    · rename_i hcls
      exact .reporting (by rw [h, he]) hcls
    · rename_i hcls
      cases he
      exact .wrapped h hcls
  · intro hraises
    cases hraises with
    | heartbeat hl => subst hl; cases h
    | wait hl => subst hl; cases h
    | wrapped h' hcls =>
      cases h.symm.trans h'
      rw [if_neg hcls]
    | reporting h' hcls =>
      cases h.symm.trans h'
      rw [if_pos hcls]

theorem raisedToLoop_iff {s : ScheduleState N} {l : ScheduleLabel N} {e : PyException} :
    raisedToLoop fromTimestamp cfg (s, l) = some e ↔ RaisesIntoLoop fromTimestamp s l e := by
  -- a step in which nothing is raised
  have hquiet (hnone : raisedToLoop fromTimestamp cfg (s, l) = none)
      (hwrapped : wrappedRaises fromTimestamp s l = none) (hbeat : l ≠ .heartbeat (some e))
      (hwait : l ≠ .interrupt e) :
      raisedToLoop fromTimestamp cfg (s, l) = some e ↔ RaisesIntoLoop fromTimestamp s l e := by
    rw [hnone]
    refine iff_of_false (by simp) ?_
    rintro (hl | hl | ⟨h, -⟩ | ⟨h, -⟩)
    · exact hbeat hl
    · exact hwait hl
    · rw [hwrapped] at h
      cases h
    · rw [hwrapped] at h
      cases h
  cases l with
  | heartbeat raised =>
    constructor
    · rintro rfl
      exact .heartbeat rfl
    · intro h
      cases h with
      | heartbeat hl => cases hl; rfl
      | wait hl => cases hl
      | wrapped h => cases h
      | reporting h => cases h
  | interrupt e' =>
    constructor
    · intro h
      cases h
      exact .wait rfl
    · intro h
      cases h with
      | heartbeat hl => cases hl
      | wait hl => cases hl; rfl
      | wrapped h => cases h
      | reporting h => cases h
  | shouldRun now startedAt reporting =>
    cases hcall : (s.predicate.call fromTimestamp now s.lastRun.snapshot).2 with
    | ok r =>
      exact hquiet (by simp [raisedToLoop, hcall]) (by simp [wrappedRaises, hcall]) (by simp)
        (by simp)
    | error raised =>
      simp only [raisedToLoop, hcall]
      exact raisesIntoLoop_of_wrapped (by simp [wrappedRaises, hcall])
  | jobEnds result finishedAt unrecorded reporting =>
    cases unrecorded with
    | some unrecorded => exact raisesIntoLoop_of_wrapped (α := Option Returned) rfl
    | none =>
      cases result with
      | returned returned => exact hquiet rfl rfl (by simp) (by simp)
      | raised raised => exact raisesIntoLoop_of_wrapped (α := Option Returned) rfl
  | _ => exact hquiet rfl rfl (by simp) (by simp)

/-! ## The step that leaves the loop -/

omit [PyFloat N] in
theorem leave_pc (s : ScheduleState N) (e : PyException) :
    (s.leave e).pc = .markStopped (if e.cls = .keyboardInterrupt then none else some e) := by
  unfold ScheduleState.leave
  split <;> rfl

theorem stepShouldRun_pc {s : ScheduleState N} {now : Datetime} {startedAt : N}
    {reporting : Option PyException} {e : PyException}
    (h : raisedToLoop fromTimestamp cfg (s, .shouldRun now startedAt reporting) = some e) :
    (s.stepShouldRun fromTimestamp cfg now startedAt reporting).pc =
      .markStopped (if e.cls = .keyboardInterrupt then none else some e) := by
  simp only [raisedToLoop] at h
  unfold ScheduleState.stepShouldRun LastRun.begin
  generalize s.predicate.call fromTimestamp now s.lastRun.snapshot = called at h ⊢
  obtain ⟨predicate, decision⟩ := called
  cases decision with
  | error raised =>
    dsimp only at h
    simp only [Except.map, h]
    exact leave_pc _ e
  | ok r => cases h

theorem stepJobEnds_pc {s : ScheduleState N} {result : JobResult Returned} {finishedAt : N}
    {unrecorded : Option (Unrecorded N)} {reporting : Option PyException} {e : PyException}
    (h : raisedToLoop fromTimestamp cfg
      (s, .jobEnds result finishedAt unrecorded reporting) = some e) :
    (s.stepJobEnds cfg result finishedAt unrecorded reporting).pc =
      .markStopped (if e.cls = .keyboardInterrupt then none else some e) := by
  simp only [raisedToLoop] at h
  simp only [ScheduleState.stepJobEnds, h]
  exact leave_pc _ e

/-- With what `e` leaves the loop: raised in an attempt, a `KeyboardInterrupt` is not passed on. -/
def leavingWith (e : PyException) : ScheduleLabel N → Option PyException
  | .interrupt _ => some e
  | _ => if e.cls = .keyboardInterrupt then none else some e

/-- What the loop is left with in a step, if it is left in it. -/
def leavesWith (fromTimestamp : FromTimestamp N) (cfg : ScheduleConfig)
    (x : ScheduleState N × ScheduleLabel N) : Option (Option PyException) :=
  match x.2 with
  | .shouldStopLoop => if x.1.shouldStopLoop cfg then some none else none
  | l => (raisedToLoop fromTimestamp cfg x).map (leavingWith · l)

/-- Where a step leads that ends the loop, and where any other. -/
inductive StepEnds (fromTimestamp : FromTimestamp N) (cfg : ScheduleConfig) (s : ScheduleState N)
    (l : ScheduleLabel N) (s' : ScheduleState N) : Prop where
  | leaves {leaving : Option PyException}
      (h : leavesWith fromTimestamp cfg (s, l) = some leaving) (hpc : s.pc.leftLoop = false)
      (hpc' : s'.pc = .markStopped leaving)
  | stays (h : leavesWith fromTimestamp cfg (s, l) = none) (hpc : s.pc.leftLoop = false)
      (hpc' : s'.pc.leftLoop = false)
  | marks {leaving : Option PyException} (h : leavesWith fromTimestamp cfg (s, l) = none)
      (hl : l = .markStopped) (hpc : s.pc = .markStopped leaving) (hpc' : s'.pc = .ended leaving)
  | beside (h : leavesWith fromTimestamp cfg (s, l) = none) (hl : l.isLoop = false)
      (hpc' : s'.pc = s.pc)

theorem stepEnds {s s' : ScheduleState N} {l : ScheduleLabel N}
    (hstep : s.step fromTimestamp cfg l = some s') : StepEnds fromTimestamp cfg s l s' := by
  have hinside {pc : Pc} (hpc : s.pc = pc) (h : pc.leftLoop = false) : s.pc.leftLoop = false := by
    rw [hpc, h]
  cases s.transition_of_step fromTimestamp cfg hstep with
  | request r => exact .beside rfl rfl rfl
  | external file => exact .beside rfl rfl rfl
  | stop hpc hstop =>
    refine .leaves (by simp [leavesWith, hstop]) ?_ rfl
    rcases hpc with hpc | hpc <;> exact hinside hpc rfl
  | enter hpc hgo => exact .stays (by simp [leavesWith, hgo]) (hinside hpc rfl) rfl
  | pause hpc hgo => exact .stays (by simp [leavesWith, hgo]) (hinside hpc rfl) rfl
  | again hpc hgo => exact .stays (by simp [leavesWith, hgo]) (hinside hpc rfl) rfl
  | heartbeatFails hpc e => exact .leaves rfl (hinside hpc rfl) (leave_pc s e)
  | shouldRun hpc now startedAt reporting =>
    cases hraise : raisedToLoop fromTimestamp cfg (s, .shouldRun now startedAt reporting) with
    | none =>
      exact .stays (by simp [leavesWith, hraise]) (hinside hpc rfl) (stepShouldRun_goesOn hraise)
    | some e =>
      exact .leaves (by simp [leavesWith, hraise, leavingWith]) (hinside hpc rfl)
        (stepShouldRun_pc hraise)
  | jobEnds hpc result finishedAt unrecorded reporting =>
    cases hraise : raisedToLoop fromTimestamp cfg
        (s, .jobEnds result finishedAt unrecorded reporting) with
    | none =>
      exact .stays (by simp [leavesWith, hraise]) (hinside hpc rfl) (stepJobEnds_goesOn hraise)
    | some e =>
      exact .leaves (by simp [leavesWith, hraise, leavingWith]) (hinside hpc rfl)
        (stepJobEnds_pc hraise)
  | interrupt hpc e => exact .leaves rfl (hinside hpc rfl) rfl
  | markStopped hpc => exact .marks rfl rfl hpc rfl
  | _ hpc => exact .stays rfl (hinside hpc rfl) rfl

/-! ## The reasons -/

/-- Why the loop is left in the step `x` behind the steps `before`, and with what. -/
inductive LeavesLoop (fromTimestamp : FromTimestamp N) (cfg : ScheduleConfig)
    (before : List (ScheduleState N × ScheduleLabel N)) (x : ScheduleState N × ScheduleLabel N) :
    Option PyException → Prop where
  | quit (hl : x.2 = .shouldStopLoop) (hquit : ∃ y ∈ before, y.2 = .request .quit) :
      LeavesLoop fromTimestamp cfg before x none
  | runsMade {m : Int} (hl : x.2 = .shouldStopLoop) (hm : cfg.maxRuns = some m)
      (hmade : m ≤ (completedAttempts fromTimestamp cfg before : Int)) :
      LeavesLoop fromTimestamp cfg before x none
  | interrupted {e : PyException} (h : RaisesIntoLoop fromTimestamp x.1 x.2 e)
      (he : e.cls = .keyboardInterrupt) (hwait : x.2 ≠ .interrupt e) :
      LeavesLoop fromTimestamp cfg before x none
  | raised {e : PyException} (h : RaisesIntoLoop fromTimestamp x.1 x.2 e)
      (he : e.cls = .keyboardInterrupt → x.2 = .interrupt e) :
      LeavesLoop fromTimestamp cfg before x (some e)

/-- Only a quit sets its flag. -/
theorem quitRequested_new {s s' : ScheduleState N} {l : ScheduleLabel N}
    (h : s.controller.quitRequested = false) (hstep : s.step fromTimestamp cfg l = some s') :
    l = .request .quit ∨ s'.controller.quitRequested = false := by
  cases s.transition_of_step fromTimestamp cfg hstep with
  | request r =>
    rcases s.controller.handleRequest_cases r with hc | ⟨hc, -⟩ | ⟨hc, -⟩ | ⟨-, rfl⟩
    · exact .inr (by simpa [hc] using h)
    · exact .inr (by simpa [hc] using h)
    · exact .inr (by simpa [hc] using h)
    · exact .inl rfl
  | take => exact .inr (s.controller.takeNextRunMode_flags.2.2.1.trans h)
  | heartbeatFails _ e => exact .inr (by rwa [(s.leave_spec e).1.controller])
  | shouldRun _ now startedAt reporting =>
    have hsame := (s.stepShouldRun_spec fromTimestamp cfg now startedAt reporting).1
    exact .inr (by rwa [hsame.controller])
  | jobEnds _ result finishedAt unrecorded reporting =>
    have hsame := (s.stepJobEnds_spec cfg result finishedAt unrecorded reporting).1
    exact .inr (by rwa [hsame.controller])
  | wait => exact .inr (s.controller.waitForWork_flags.2.2.trans h)
  | waitReturns => exact .inr (s.controller.waitForWork_flags.2.2.trans h)
  | _ => exact .inr h

theorem leavesWith_eq_some {x : ScheduleState N × ScheduleLabel N} {leaving : Option PyException}
    (hl : x.2 ≠ .shouldStopLoop) :
    leavesWith fromTimestamp cfg x = some leaving ↔
      ∃ e, RaisesIntoLoop fromTimestamp x.1 x.2 e ∧ leavingWith e x.2 = leaving := by
  obtain ⟨s, l⟩ := x
  have hmap : leavesWith fromTimestamp cfg (s, l) =
      (raisedToLoop fromTimestamp cfg (s, l)).map (leavingWith · l) := by
    cases l <;> first | rfl | exact absurd rfl hl
  rw [hmap, Option.map_eq_some_iff]
  simp only [raisedToLoop_iff]

theorem leavingWith_cases {s : ScheduleState N} {l : ScheduleLabel N} {e : PyException}
    (h : RaisesIntoLoop fromTimestamp s l e) :
    leavingWith e l = none ∧ e.cls = .keyboardInterrupt ∧ l ≠ .interrupt e ∨
      leavingWith e l = some e ∧ (e.cls = .keyboardInterrupt → l = .interrupt e) := by
  by_cases hwait : ∃ e', l = .interrupt e'
  · obtain ⟨e', rfl⟩ := hwait
    have hraised : raisedToLoop fromTimestamp minutelySchedule (s, .interrupt e') = some e :=
      raisedToLoop_iff.mpr h
    have he : e' = e := Option.some.inj hraised
    exact .inr ⟨rfl, fun _ => by rw [he]⟩
  · rw [not_exists] at hwait
    have hleaving : leavingWith e l = if e.cls = .keyboardInterrupt then none else some e := by
      cases l <;> first | rfl | exact absurd rfl (hwait _)
    rw [hleaving]
    split
    · rename_i he
      exact .inl ⟨rfl, he, hwait e⟩
    · rename_i he
      exact .inr ⟨rfl, fun he' => absurd he' he⟩

section Run
variable {predicate : RunPredicate} {lastRun : LastRun N}
  {steps : List (ScheduleState N × ScheduleLabel N)} {s : ScheduleState N}

theorem quitRequested_iff
    (h : ScheduleRun fromTimestamp cfg (.initial predicate lastRun) steps s) :
    s.controller.quitRequested = true ↔ ∃ y ∈ steps, y.2 = .request .quit := by
  constructor
  · intro hq
    rcases h.holds_until (P := fun u => u.controller.quitRequested = false)
      (Q := fun y => y.2 = .request .quit) (fun _ _ _ hu hl => quitRequested_new hu hl) rfl with
      hy | hnone
    · exact hy
    · rw [hq] at hnone
      cases hnone
  · rintro ⟨y, hy, hquit⟩
    obtain ⟨a, b, rfl⟩ := List.append_of_mem hy
    obtain ⟨-, v, hl, hafter⟩ := h.middle
    refine hafter.invariant (P := fun u => u.controller.quitRequested = true)
      (fun _ _ _ hu hl => quitRequested_step hl hu) ?_
    rw [hquit] at hl
    cases hl
    exact handleRequest_quit y.1.controller

/-- The stop test, in terms of the steps behind it. -/
theorem shouldStopLoop_iff {s' : ScheduleState N}
    (h : ScheduleRun fromTimestamp cfg (.initial predicate lastRun) steps s)
    (hstep : s.step fromTimestamp cfg .shouldStopLoop = some s') :
    s.shouldStopLoop cfg = true ↔
      (∃ y ∈ steps, y.2 = .request .quit) ∨
        ∃ m, cfg.maxRuns = some m ∧ m ≤ (completedAttempts fromTimestamp cfg steps : Int) := by
  have hpc : s.pc ≠ .updateRunCount := by
    intro hpc
    simp [ScheduleState.step, hpc] at hstep
  rw [completed_run h, if_neg hpc, Nat.add_zero, ← quitRequested_iff h]
  simp [ScheduleState.shouldStopLoop, Option.any_eq_true]

/-- The reasons, as the code tests for them. -/
theorem leavesLoop_iff {x : ScheduleState N × ScheduleLabel N} {s' : ScheduleState N}
    {leaving : Option PyException}
    (h : ScheduleRun fromTimestamp cfg (.initial predicate lastRun) steps x.1)
    (hstep : x.1.step fromTimestamp cfg x.2 = some s') :
    leavesWith fromTimestamp cfg x = some leaving ↔
      LeavesLoop fromTimestamp cfg steps x leaving := by
  obtain ⟨s, l⟩ := x
  dsimp only at h hstep
  by_cases hstop : l = .shouldStopLoop
  · subst hstop
    have hquiet {e : PyException} : ¬ RaisesIntoLoop fromTimestamp s .shouldStopLoop e := by
      intro hraises
      have hraised : raisedToLoop fromTimestamp cfg (s, .shouldStopLoop) = some e :=
        raisedToLoop_iff.mpr hraises
      cases hraised
    have htest : leavesWith fromTimestamp cfg (s, .shouldStopLoop) = some leaving ↔
        s.shouldStopLoop cfg = true ∧ leaving = none := by
      simp only [leavesWith, Option.ite_none_right_eq_some, Option.some.injEq]
      exact and_congr_right fun _ => eq_comm
    rw [htest, shouldStopLoop_iff h hstep]
    constructor
    · rintro ⟨hquit | ⟨m, hm, hmade⟩, rfl⟩
      · exact .quit rfl hquit
      · exact .runsMade rfl hm hmade
    · intro hleaves
      cases hleaves with
      | quit _ hquit => exact ⟨.inl hquit, rfl⟩
      | runsMade _ hm hmade => exact ⟨.inr ⟨_, hm, hmade⟩, rfl⟩
      | interrupted hraises => exact absurd hraises hquiet
      | raised hraises => exact absurd hraises hquiet
  · rw [leavesWith_eq_some hstop]
    constructor
    · rintro ⟨e, hraises, rfl⟩
      rcases leavingWith_cases hraises with ⟨hnone, he, hwait⟩ | ⟨hsome, he⟩
      · rw [hnone]
        exact .interrupted hraises he hwait
      · rw [hsome]
        exact .raised hraises he
    · intro hleaves
      cases hleaves with
      | quit hl => exact absurd hl hstop
      | runsMade hl => exact absurd hl hstop
      | interrupted hraises he hwait =>
        rcases leavingWith_cases hraises with ⟨hnone, -⟩ | ⟨-, honly⟩
        · exact ⟨_, hraises, hnone⟩
        · exact absurd (honly he) hwait
      | raised hraises honly =>
        rcases leavingWith_cases hraises with ⟨-, he, hwait⟩ | ⟨hsome, -⟩
        · exact absurd (honly he) hwait
        · exact ⟨_, hraises, hsome⟩

end Run

/-! ## Behind the loop -/

/-- The loop's own steps among `steps`. -/
def ownSteps (steps : List (ScheduleState N × ScheduleLabel N)) : List (ScheduleLabel N) :=
  (steps.map Prod.snd).filter ScheduleLabel.isLoop

/-- Behind the step that left the loop with `leaving`, the controller is marked as stopped. -/
def Leaving (leaving : Option PyException) (after : List (ScheduleState N × ScheduleLabel N))
    (s : ScheduleState N) : Prop :=
  s.pc = .markStopped leaving ∧ ownSteps after = [] ∨
    s.pc = .ended leaving ∧ ownSteps after = [.markStopped]

omit [PyFloat N] in
theorem ownSteps_snoc (steps : List (ScheduleState N × ScheduleLabel N)) (s : ScheduleState N)
    (l : ScheduleLabel N) :
    ownSteps (steps ++ [(s, l)]) = ownSteps steps ++ if l.isLoop then [l] else [] := by
  cases hl : l.isLoop <;> simp [ownSteps, hl]

theorem leaving_run {u s : ScheduleState N} {leaving : Option PyException}
    {after : List (ScheduleState N × ScheduleLabel N)}
    (h : ScheduleRun fromTimestamp cfg u after s) (hu : u.pc = .markStopped leaving) :
    Leaving leaving after s := by
  induction h with
  | refl => exact .inl ⟨hu, rfl⟩
  | @snoc v w l after _ hl ih =>
    unfold Leaving
    rw [ownSteps_snoc]
    cases stepEnds hl with
    | leaves _ hpc => rcases ih with ⟨ih, -⟩ | ⟨ih, -⟩ <;> rw [ih] at hpc <;> cases hpc
    | stays _ hpc => rcases ih with ⟨ih, -⟩ | ⟨ih, -⟩ <;> rw [ih] at hpc <;> cases hpc
    | marks _ hmark hpc hpc' =>
      rcases ih with ⟨ih, hsteps⟩ | ⟨ih, -⟩
      · rw [ih] at hpc
        cases hpc
        exact .inr ⟨hpc', by rw [hsteps, hmark]; rfl⟩
      · rw [ih] at hpc
        cases hpc
    | beside _ hbeside hpc' =>
      rw [hpc', hbeside]
      simpa [Leaving] using ih

/-- Unless some step leaves the loop, it goes on. -/
theorem leaves_or_stays {u s : ScheduleState N}
    {steps : List (ScheduleState N × ScheduleLabel N)}
    (h : ScheduleRun fromTimestamp cfg u steps s) (hu : u.pc.leftLoop = false) :
    (∃ x ∈ steps, ∃ leaving, leavesWith fromTimestamp cfg x = some leaving) ∨
      s.pc.leftLoop = false := by
  refine h.holds_until (P := fun v => v.pc.leftLoop = false) ?_ hu
  intro v l w hv hl
  cases stepEnds hl with
  | leaves hleaves => exact .inl ⟨_, hleaves⟩
  | stays _ _ hpc' => exact .inr hpc'
  | marks _ _ hpc =>
    rw [hpc] at hv
    cases hv
  | beside _ _ hpc' => exact .inr (by rwa [hpc'])

/-- **The loop ends for a reason.** `schedule` has left its loop with `leaving` exactly if some
step left it for one of the reasons, and since then the loop's thread has only marked the
controller as stopped. -/
theorem ends_for_a_reason {predicate : RunPredicate} {lastRun : LastRun N}
    {steps : List (ScheduleState N × ScheduleLabel N)} {s : ScheduleState N}
    (h : ScheduleRun fromTimestamp cfg (.initial predicate lastRun) steps s)
    (leaving : Option PyException) :
    s.pc = .ended leaving ↔
      ∃ before x after, steps = before ++ x :: after ∧
        LeavesLoop fromTimestamp cfg before x leaving ∧ ownSteps after = [.markStopped] := by
  have hbehind {before after : List (ScheduleState N × ScheduleLabel N)}
      {x : ScheduleState N × ScheduleLabel N} {leaving : Option PyException}
      (hsteps : steps = before ++ x :: after)
      (hleaves : leavesWith fromTimestamp cfg x = some leaving) : Leaving leaving after s := by
    subst hsteps
    obtain ⟨-, v, hl, hafter⟩ := h.middle
    cases stepEnds hl with
    | leaves hleaves' _ hpc' =>
      cases hleaves.symm.trans hleaves'
      exact leaving_run hafter hpc'
    | stays hnone => cases hnone.symm.trans hleaves
    | marks hnone => cases hnone.symm.trans hleaves
    | beside hnone => cases hnone.symm.trans hleaves
  constructor
  · intro hended
    rcases leaves_or_stays h rfl with ⟨x, hx, leaving', hleaves⟩ | hinside
    · obtain ⟨before, after, hsteps⟩ := List.append_of_mem hx
      rcases hbehind hsteps hleaves with ⟨hpc, -⟩ | ⟨hpc, hown⟩
      · cases hpc.symm.trans hended
      · cases hpc.symm.trans hended
        subst hsteps
        obtain ⟨hbefore, v, hl, -⟩ := h.middle
        exact ⟨before, x, after, rfl, (leavesLoop_iff hbefore hl).mp hleaves, hown⟩
    · rw [hended] at hinside
      cases hinside
  · rintro ⟨before, x, after, rfl, hleaves, hown⟩
    obtain ⟨hbefore, v, hl, -⟩ := h.middle
    rcases hbehind rfl ((leavesLoop_iff hbefore hl).mpr hleaves) with ⟨-, hnone⟩ | ⟨hpc, -⟩
    · cases hnone.symm.trans hown
    · exact hpc

/-- A quit at the start of `schedule` ends the loop before its first attempt. -/
theorem ends_for_a_reason_quit :
    ∃ steps s, ScheduleRun utcClock.fromTimestamp minutelySchedule scheduleStart steps s ∧
      attempts steps = 0 ∧ s.pc = .ended none := by
  have hrun : ScheduleRun utcClock.fromTimestamp minutelySchedule scheduleStart
      [(scheduleStart, .request .quit), (_, .shouldStopLoop), (_, .markStopped)] _ :=
    .cons rfl (.cons rfl (.single rfl))
  refine ⟨_, _, hrun, rfl, (ends_for_a_reason hrun none).mpr ⟨[_], _, [_], rfl, ?_, rfl⟩⟩
  exact .quit rfl ⟨_, .head _, rfl⟩

end SchedulingUtil
