import SchedulingUtil.ScheduleHistory
import SchedulingUtil.ScheduleReports

/-! # What the health check of a schedule shows

The pings of a whole run beside the entries that are due in it. The check shows how the last
attempt went, skipped attempts, forced runs and interrupts included, and also where its end
gets no entry; only an attempt that is skipped as stalled makes it show a failure without an
attempt. -/
namespace SchedulingUtil
open Lib

variable {N : Type}

/-- A ping that changes what the check shows; a log does not. -/
def Ping.signals : Ping → Bool
  | .log _ => false
  | _ => true

/-- What the check shows, once it has got a signal. -/
def shown (pings : List Ping) : Option Ping := (pings.filter Ping.signals).getLast?

/-- What the check shows behind an entry; a neutral end is not signalled. -/
def LastRunHistoryEntry.shows : LastRunHistoryEntry N → Ping
  | .started _ => .start
  | .finished e =>
    match e.outcome with
    | .success => .success
    | .neutral => .start
    | .failure => .failure

/-! ## The predicate's reports -/

theorem failed_of_closed {p : RunPredicate} {fs : List (LastRunAttemptFinished N)}
    (h : p.gate fs = .closed) : ∃ e, fs.getLast? = some e ∧ e.outcome = .failure := by
  unfold RunPredicate.gate at h
  cases hlast : fs.getLast? with
  | none => simp [hlast] at h
  | some e =>
    refine ⟨e, rfl, ?_⟩
    cases ho : e.outcome with
    | failure => rfl
    | success => simp [hlast, ho] at h
    | neutral => simp [hlast, ho] at h

variable [PyFloat N] {fromTimestamp : FromTimestamp N} {cfg : ScheduleConfig}

/-- An attempt is skipped because the job has failed too often. -/
structure SkippedAsStalled (p : RunPredicate) (x : ScheduleState N × ScheduleLabel N) : Prop where
  asks : ∃ now startedAt reporting, x.2 = .shouldRun now startedAt reporting
  normal : x.1.mode = .normal
  closed : p.gate (finishedAttempts x.1.lastRun.snapshot) = .closed

/-- The predicate decides by its gate, and reports exactly where the gate is closed. -/
theorem RunPredicate.predicate_eq (p : RunPredicate) (now : Datetime)
    (entries : List (LastRunHistoryEntry N)) :
    p.predicate fromTimestamp now entries =
      match (finishedAttempts entries).getLast?, p.gate (finishedAttempts entries) with
      | some e, .closed => .ok (false, p.reportError (p.stalledMessage e))
      | _, gate => (gate.allows fromTimestamp now).map fun b => (b, []) := by
  have hafter (e : LastRunAttemptFinished N) (period : Timedelta) :
      ((fun finish => (decide (period < now - finish), ([] : List Report))) <$>
        fromTimestamp e.time) =
      ((Gate.after e period).allows fromTimestamp now).map fun b => (b, []) := by
    cases hf : fromTimestamp e.time <;> simp [Gate.allows, hf, Except.map]
  simp only [predicate, gate, lastFinished_eq, lastSuccess, lastWithOutcome_eq,
    nFailuresSinceLastSuccess_eq, ok_bind]
  cases (finishedAttempts entries).getLast? with
  | none => rfl
  | some e =>
    cases ho : e.outcome with
    | success => simpa [ho] using hafter e p.successPeriod
    | neutral => simpa [ho] using hafter e p.neutralPeriod
    | failure =>
      by_cases hc : failuresSince (finishedAttempts entries) < p.maxFailures ∨
          p.onMaxFailures = .ignore
      · simpa [ho, hc] using hafter e p.failurePeriod
      · simp only [ho, hc, decide_eq_true_eq, Bool.or_eq_true, reduceCtorEq, if_false]
        cases hs : lastWith .success (finishedAttempts entries) with
        | none => cases p.onMaxFailures <;> rfl
        | some s =>
          cases hm : p.onMaxFailures with
          | ignore => exact absurd (.inr hm) hc
          | stall => rfl
          | successSchedule => simpa using hafter s p.successPeriod

/-- What the predicate of an attempt is asked for: nothing, in mode `run-now`. -/
theorem called_eq {predicate : RunPredicate} {s : ScheduleState N} (h : ForceSound predicate s)
    (hpc : s.pc = .shouldRun) (now : Datetime) :
    (s.predicate.call fromTimestamp now s.lastRun.snapshot).2 =
      if s.mode = .runNow then .ok (true, [])
      else predicate.predicate fromTimestamp now s.lastRun.snapshot := by
  have hvalue : s.predicate.nextReturnValue = if s.mode = .runNow then some true else none := by
    rcases h.value with ⟨leaving, hleft | hleft⟩ | hvalue
    · cases hpc.symm.trans hleft
    · cases hpc.symm.trans hleft
    · simpa [hpc] using hvalue
  unfold RunPredicate.call
  rw [hvalue, h.config]
  cases s.mode <;> rfl

/-! ## One step -/

omit [PyFloat N] in
theorem shown_append (earlier pings : List Ping) :
    shown (earlier ++ pings) = (shown pings).or (shown earlier) := by
  rw [shown, List.filter_append, List.getLast?_append]
  rfl

theorem stepShouldRun_pings (s : ScheduleState N) (now : Datetime) (startedAt : N)
    (reporting : Option PyException) :
    (s.stepShouldRun fromTimestamp cfg now startedAt reporting).pings =
      s.pings ++ match (s.predicate.call fromTimestamp now s.lastRun.snapshot).2 with
        | .ok (true, reports) => reports.filterMap Report.ping ++ pingsBefore cfg
        | .ok (false, reports) => reports.filterMap Report.ping
        | .error _ => [] := by
  unfold ScheduleState.stepShouldRun LastRun.begin
  generalize s.predicate.call fromTimestamp now s.lastRun.snapshot = called
  obtain ⟨predicate, decision⟩ := called
  cases decision with
  | error e => exact (endAttempt_keeps _ _).2.2.1
  | ok r =>
    obtain ⟨b, reports⟩ := r
    cases b with
    | false => rfl
    | true => exact List.append_assoc ..

theorem stepJobEnds_pings (s : ScheduleState N) (result : JobResult Returned) (finishedAt : N)
    (unrecorded : Option (Unrecorded N)) (reporting : Option PyException) :
    (s.stepJobEnds cfg result finishedAt unrecorded reporting).pings =
      s.pings ++ pingsAfter cfg result :=
  (endAttempt_keeps _ _).2.2.1

/-- The entry that is due in a step, and what the step adds to the check. -/
inductive StepShows (fromTimestamp : FromTimestamp N) (cfg : ScheduleConfig) (p : RunPredicate)
    (x : ScheduleState N × ScheduleLabel N) (s' : ScheduleState N) : Prop where
  | starts {e : LastRunAttemptStarted N}
      (h : due? fromTimestamp cfg x = some (.started e))
      (hshown : shown s'.pings = some .start)
  | finishes {e : LastRunAttemptFinished N}
      (h : due? fromTimestamp cfg x = some (.finished e)) (hpc : x.1.pc = .job)
      (hpc' : s'.pc ≠ .job)
      (hshown : shown s'.pings =
        if e.outcome = .neutral then shown x.1.pings
        else some (LastRunHistoryEntry.finished e).shows)
  | skips (h : due? fromTimestamp cfg x = none) (hpc' : s'.pc ≠ .job)
      (hstalled : SkippedAsStalled p x) (hshown : shown s'.pings = some .failure)
  | stays (h : due? fromTimestamp cfg x = none) (hpc' : s'.pc = .job → x.1.pc = .job)
      (hshown : shown s'.pings = shown x.1.pings)

theorem shown_reportError {p : RunPredicate} (hreports : p.check = true) (message : String) :
    shown ((p.reportError message).filterMap Report.ping) = some .failure := by
  rw [RunPredicate.reportError, hreports]
  rfl

omit [PyFloat N] in
theorem shown_pingsAfter (hcheck : cfg.check = true) (result : JobResult Returned)
    (finishedAt : N) :
    shown (pingsAfter cfg result) =
      if (assessment cfg result).1 = .neutral then none
      else some (LastRunHistoryEntry.finished
        ⟨finishedAt, (assessment cfg result).1, (assessment cfg result).2⟩).shows := by
  cases result with
  | raised e =>
    simp [pingsAfter, hcheck, assessment, shown, LastRunHistoryEntry.shows, Ping.signals]
  | returned returned =>
    rw [show assessment cfg (.returned returned) = assessReturnValue cfg returned from rfl]
    simp only [pingsAfter, hcheck, if_true]
    generalize assessReturnValue cfg returned = assessed
    obtain ⟨outcome, details⟩ := assessed
    cases outcome <;> rfl

theorem stepShows_jobEnds {p : RunPredicate} (hcheck : cfg.check = true) {s : ScheduleState N}
    (hpc : s.pc = .job) (result : JobResult Returned) (finishedAt : N)
    (unrecorded : Option (Unrecorded N)) (reporting : Option PyException) :
    StepShows fromTimestamp cfg p (s, .jobEnds result finishedAt unrecorded reporting)
      (s.stepJobEnds cfg result finishedAt unrecorded reporting) := by
  refine .finishes rfl hpc (endAttempt_keeps _ _).2.2.2 ?_
  rw [stepJobEnds_pings, shown_append, shown_pingsAfter hcheck result finishedAt]
  dsimp only
  split <;> rfl

/-- In an attempt that is skipped nothing is due. -/
theorem stepShouldRun_skipped (cfg : ScheduleConfig) {s : ScheduleState N} {now : Datetime}
    (h : s.decision fromTimestamp now ≠ .ok true) (startedAt : N)
    (reporting : Option PyException) :
    due? fromTimestamp cfg (s, .shouldRun now startedAt reporting) = none ∧
      (s.stepShouldRun fromTimestamp cfg now startedAt reporting).pc ≠ .job := by
  obtain ⟨-, -, ⟨-, htrue⟩ | ⟨hleft, -⟩⟩ :=
    s.stepShouldRun_spec fromTimestamp cfg now startedAt reporting
  · exact absurd htrue h
  · refine ⟨due?_of_skipped h, ?_⟩
    rcases hleft with hleft | ⟨leaving, hleft⟩ <;> simp [hleft]

theorem stepShows_shouldRun {p : RunPredicate} (hcheck : cfg.check = true)
    (hreports : p.check = true) {s : ScheduleState N} (h : ForceSound p s)
    (hpc : s.pc = .shouldRun) (now : Datetime) (startedAt : N) (reporting : Option PyException) :
    StepShows fromTimestamp cfg p (s, .shouldRun now startedAt reporting)
      (s.stepShouldRun fromTimestamp cfg now startedAt reporting) := by
  have hpings : (s.stepShouldRun fromTimestamp cfg now startedAt reporting).pings = _ :=
    stepShouldRun_pings s now startedAt reporting
  have hstarts {reports : List Report}
      (hcall : (s.predicate.call fromTimestamp now s.lastRun.snapshot).2 = .ok (true, reports)) :
      StepShows fromTimestamp cfg p (s, .shouldRun now startedAt reporting)
        (s.stepShouldRun fromTimestamp cfg now startedAt reporting) := by
    refine .starts (e := ⟨startedAt⟩) (due?_of_called ?_) ?_
    · simp [ScheduleState.decision, hcall, Except.map]
    · rw [hpings, hcall, shown_append, shown_append]
      simp [pingsBefore, hcheck, shown, Ping.signals]
  have hstays (hdecision : s.decision fromTimestamp now ≠ .ok true)
      (hsame : (s.stepShouldRun fromTimestamp cfg now startedAt reporting).pings = s.pings ++ []) :
      StepShows fromTimestamp cfg p (s, .shouldRun now startedAt reporting)
        (s.stepShouldRun fromTimestamp cfg now startedAt reporting) := by
    obtain ⟨hnone, hpc'⟩ := stepShouldRun_skipped cfg hdecision startedAt reporting
    exact .stays hnone (fun hjob => absurd hjob hpc') (by rw [hsame, List.append_nil])
  have hcall : (s.predicate.call fromTimestamp now s.lastRun.snapshot).2 = _ := called_eq h hpc now
  by_cases hmode : s.mode = .runNow
  · rw [if_pos hmode] at hcall
    exact hstarts hcall
  rw [if_neg hmode, RunPredicate.predicate_eq] at hcall
  split at hcall
  · rename_i e hlast hclosed
    have hdecision : s.decision fromTimestamp now ≠ .ok true := by
      simp [ScheduleState.decision, hcall, Except.map]
    obtain ⟨hnone, hpc'⟩ := stepShouldRun_skipped cfg hdecision startedAt reporting
    have hnormal : s.mode = .normal := by
      cases hm : s.mode with
      | normal => rfl
      | runNow => exact absurd hm hmode
    refine .skips hnone hpc' ⟨⟨_, _, _, rfl⟩, hnormal, hclosed⟩ ?_
    rw [hpings, hcall, shown_append]
    dsimp only
    rw [shown_reportError hreports]
    rfl
  · cases hallows : (p.gate (finishedAttempts s.lastRun.snapshot)).allows fromTimestamp now with
    | error e =>
      rw [hallows] at hcall
      exact hstays (by simp [ScheduleState.decision, hcall, Except.map])
        (by rw [hpings, hcall]; rfl)
    | ok b =>
      rw [hallows] at hcall
      cases b with
      | true => exact hstarts hcall
      | false =>
        exact hstays (by simp [ScheduleState.decision, hcall, Except.map])
          (by rw [hpings, hcall]; rfl)

theorem stepShows {p : RunPredicate} (hcheck : cfg.check = true) (hreports : p.check = true)
    {s s' : ScheduleState N} {l : ScheduleLabel N} (h : ForceSound p s)
    (hstep : s.step fromTimestamp cfg l = some s') :
    StepShows fromTimestamp cfg p (s, l) s' := by
  cases s.transition_of_step fromTimestamp cfg hstep with
  | request r => exact .stays rfl id rfl
  | external file => exact .stays rfl id rfl
  | shouldRun hpc now startedAt reporting =>
    exact stepShows_shouldRun hcheck hreports h hpc now startedAt reporting
  | jobEnds hpc result finishedAt unrecorded reporting =>
    exact stepShows_jobEnds hcheck hpc result finishedAt unrecorded reporting
  | heartbeatFails hpc e =>
    obtain ⟨-, -, hpings, hpc'⟩ := endAttempt_keeps s (some e)
    exact .stays rfl (fun hjob => absurd hjob hpc') (congrArg shown hpings)
  | _ => exact .stays rfl nofun rfl

/-! ## Runs -/

/-- The entries that are due in a run. -/
def dueOfRun (fromTimestamp : FromTimestamp N) (cfg : ScheduleConfig)
    (steps : List (ScheduleState N × ScheduleLabel N)) : List (LastRunHistoryEntry N) :=
  steps.filterMap (due? fromTimestamp cfg)

theorem dueOfRun_snoc (steps : List (ScheduleState N × ScheduleLabel N))
    (x : ScheduleState N × ScheduleLabel N) :
    dueOfRun fromTimestamp cfg (steps ++ [x]) =
      dueOfRun fromTimestamp cfg steps ++ (due? fromTimestamp cfg x).toList := by
  unfold dueOfRun
  rw [List.filterMap_append]
  cases h : due? fromTimestamp cfg x <;> simp [h]

/-- Where every end is recorded, what is due is what is appended. -/
theorem dueOfRun_eq_entries {steps : List (ScheduleState N × ScheduleLabel N)}
    (hrecorded : ∀ x ∈ steps, x.2.isRecorded = true) :
    dueOfRun fromTimestamp cfg steps = entriesOfRun fromTimestamp cfg steps := by
  unfold dueOfRun entriesOfRun turnsOfRun List.reduceOption
  rw [List.filterMap_filterMap]
  refine List.filterMap_congr ?_
  intro x hx
  have hentry : appended? fromTimestamp cfg x = due? fromTimestamp cfg x :=
    appended?_of_recorded (hrecorded x hx)
  rw [← hentry, appended?]
  cases turn? fromTimestamp cfg x <;> rfl

/-- Since the last call or end of the job an attempt has been skipped as stalled. -/
def StalledSince (fromTimestamp : FromTimestamp N) (cfg : ScheduleConfig) (p : RunPredicate)
    (steps : List (ScheduleState N × ScheduleLabel N)) : Prop :=
  ∃ before x after, steps = before ++ x :: after ∧ SkippedAsStalled p x ∧
    dueOfRun fromTimestamp cfg after = []

/-- **The invariant.** -/
structure Shows (fromTimestamp : FromTimestamp N) (cfg : ScheduleConfig) (p : RunPredicate)
    (steps : List (ScheduleState N × ScheduleLabel N)) (s : ScheduleState N) : Prop where
  running : s.pc = .job → shown s.pings = some .start
  last : shown s.pings = (dueOfRun fromTimestamp cfg steps).getLast?.map
      LastRunHistoryEntry.shows ∨
    shown s.pings = some .failure ∧ StalledSince fromTimestamp cfg p steps

theorem shows_run {p : RunPredicate} (hcheck : cfg.check = true) (hreports : p.check = true)
    {lastRun : LastRun N} {steps : List (ScheduleState N × ScheduleLabel N)} {s : ScheduleState N}
    (h : ScheduleRun fromTimestamp cfg (.initial p lastRun) steps s) :
    Shows fromTimestamp cfg p steps s := by
  induction h with
  | refl => exact ⟨nofun, .inl rfl⟩
  | @snoc u v l steps hbefore hl ih =>
    have hforce : ForceSound p u :=
      hbefore.invariant (fun _ _ _ hu hl => forceSound_step hu hl) (forceSound_initial ..)
    have hdue : dueOfRun fromTimestamp cfg (steps ++ [(u, l)]) = _ := dueOfRun_snoc steps (u, l)
    cases stepShows hcheck hreports hforce hl with
    | starts hentry hshown =>
      rw [hentry] at hdue
      refine ⟨fun _ => hshown, .inl ?_⟩
      rw [hdue, hshown]
      simp [LastRunHistoryEntry.shows]
    | @finishes e hentry hpc hpc' hshown =>
      rw [hentry] at hdue
      refine ⟨fun hjob => absurd hjob hpc', .inl ?_⟩
      rw [hdue, hshown]
      have hstarted := ih.running hpc
      cases ho : e.outcome <;> simp [LastRunHistoryEntry.shows, ho, hstarted]
    | skips hentry hpc' hstalled hshown =>
      exact ⟨fun hjob => absurd hjob hpc', .inr ⟨hshown, steps, (u, l), [], rfl, hstalled, rfl⟩⟩
    | stays hentry hpc' hshown =>
      rw [hentry, Option.toList_none, List.append_nil] at hdue
      refine ⟨fun hjob => hshown.trans (ih.running (hpc' hjob)), ?_⟩
      rw [hdue, hshown]
      refine ih.last.imp id ?_
      rintro ⟨hfailure, before, x, after, rfl, hstalled, hnone⟩
      refine ⟨hfailure, before, x, after ++ [(u, l)], by simp, hstalled, ?_⟩
      rw [dueOfRun_snoc, hnone, hentry]
      rfl

/-- In an attempt that is skipped as stalled nothing is due, and the last one of the record has
failed. -/
theorem skipped_run {p : RunPredicate} {lastRun : LastRun N}
    {steps : List (ScheduleState N × ScheduleLabel N)} {x : ScheduleState N × ScheduleLabel N}
    {s' : ScheduleState N}
    (h : ScheduleRun fromTimestamp cfg (.initial p lastRun) steps x.1)
    (hstep : x.1.step fromTimestamp cfg x.2 = some s') (hskip : SkippedAsStalled p x) :
    due? fromTimestamp cfg x = none ∧
      ((∀ y ∈ steps, y.2.isOwn = true) → (∀ y ∈ steps, y.2.isRecorded = true) →
        entriesOfRun fromTimestamp cfg steps ≠ [] →
        (entriesOfRun fromTimestamp cfg steps).getLast?.map LastRunHistoryEntry.shows =
          some .failure) := by
  obtain ⟨s, l⟩ := x
  obtain ⟨⟨now, startedAt, reporting, rfl⟩, hmode, hclosed⟩ := hskip
  dsimp only at h hstep hmode hclosed
  have hpc : s.pc = .shouldRun := by
    cases s.transition_of_step fromTimestamp cfg hstep with
    | shouldRun hpc => exact hpc
  have hforce : ForceSound p s :=
    h.invariant (fun _ _ _ hu hl => forceSound_step hu hl) (forceSound_initial ..)
  constructor
  · have hdecision : s.decision fromTimestamp now = .ok false := by
      rw [decision_eq hforce hpc, if_neg (by simp [hmode]), RunPredicate.shouldRun_eq, hclosed]
      rfl
    exact due?_of_skipped (by simp [hdecision])
  · intro hown hrecorded hne
    obtain ⟨e, hlast, hfailed⟩ := failed_of_closed hclosed
    rcases finishedLast_run h (by simp [ScheduleState.initial]) (by simp [hpc]) hrecorded with
      hnil | ⟨es, f, hes⟩
    · exact absurd hnil hne
    have hmax : 1 ≤ lastRun.history.maxEntries := by
      by_contra hzero
      have hsnapshot := (snapshot_run h hown).1
      have hm : lastRun.history.maxEntries = 0 := by omega
      rw [show (ScheduleState.initial p lastRun).lastRun = lastRun from rfl, hm,
        List.rtake_zero] at hsnapshot
      rw [hsnapshot] at hlast
      cases hlast
    rw [lastFinished_schedule h hown hrecorded (by simp [hpc]) hmax, hes, ← List.append_assoc,
      finishedAttempts_append] at hlast
    have hf : f = e := by simpa using hlast
    rw [hes, hf]
    simp [LastRunHistoryEntry.shows, hfailed]

end SchedulingUtil
