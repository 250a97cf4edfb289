import Mathlib.Data.List.ReduceOption
import SchedulingUtil.LastRunWrapper
import SchedulingUtil.ScheduleForcedRuns
import SchedulingUtil.ScheduleStartup

/-! # The history that a schedule writes

A run of the loop appends entries to its job's history: a `started` one where the job is
called and a `finished` one where it ends, unless its end cannot be assessed, whatever requests
come in between. What the loop decides afterwards is read off these entries. Other processes
and writes that fail are left out: nobody else writes to the file. -/
namespace SchedulingUtil
open Lib

variable {N : Type}

/-- The outcome and the details that `assess_result` gives a job. -/
def assessment (cfg : ScheduleConfig) : JobResult Returned → Outcome × String
  | .returned returned => assessReturnValue cfg returned
  | .raised e => (.failure, "Raised `" ++ e.typeName ++ "`: " ++ e.text)

theorem assessed_eq (cfg : ScheduleConfig) (result : JobResult Returned) :
    result.assessed (assessResult cfg) = .ok (assessment cfg result) := by
  cases result <;> rfl

/-- No other process writes to the history file, and what the loop writes gets there. -/
def ScheduleLabel.isOwn : ScheduleLabel N → Bool
  | .external _ => false
  | .jobEnds _ _ (some (.appendFails _)) _ => false
  | _ => true

section Entries
variable [PyFloat N] (fromTimestamp : FromTimestamp N) (cfg : ScheduleConfig)

/-- The entry that is due in a step: where it calls the job, and where it ends it. -/
def due? (x : ScheduleState N × ScheduleLabel N) : Option (LastRunHistoryEntry N) :=
  match x.2 with
  | .shouldRun now startedAt _ =>
    match x.1.decision fromTimestamp now with
    | .ok true => some (.started ⟨startedAt⟩)
    | _ => none
  | .jobEnds result finishedAt _ _ =>
    some (.finished ⟨finishedAt, (assessment cfg result).1, (assessment cfg result).2⟩)
  | _ => none

/-- The turn of such a step: its entry, but none for an end that is not recorded. -/
def turn? (x : ScheduleState N × ScheduleLabel N) : Option (Option (LastRunHistoryEntry N)) :=
  (due? fromTimestamp cfg x).map fun entry => if x.2.isRecorded then some entry else none

/-- The turns of the steps. -/
def turnsOfRun (steps : List (ScheduleState N × ScheduleLabel N)) :
    List (Option (LastRunHistoryEntry N)) :=
  steps.filterMap (turn? fromTimestamp cfg)

/-- The entry that a step appends. -/
def appended? (x : ScheduleState N × ScheduleLabel N) : Option (LastRunHistoryEntry N) :=
  (turn? fromTimestamp cfg x).join

/-- The entries that the steps append, dropped later or not. -/
def entriesOfRun (steps : List (ScheduleState N × ScheduleLabel N)) :
    List (LastRunHistoryEntry N) :=
  (turnsOfRun fromTimestamp cfg steps).reduceOption

end Entries

/-- A job is started and ends in turns; the flag says whether one is under way. -/
inductive InTurns : Bool → List (Option (LastRunHistoryEntry N)) → Prop where
  | nil : InTurns false []
  | started {ts : List (Option (LastRunHistoryEntry N))} (s : LastRunAttemptStarted N)
      (h : InTurns false ts) : InTurns true (ts ++ [some (.started s)])
  | finished {ts : List (Option (LastRunHistoryEntry N))} (f : LastRunAttemptFinished N)
      (h : InTurns true ts) : InTurns false (ts ++ [some (.finished f)])
  | unrecorded {ts : List (Option (LastRunHistoryEntry N))} (h : InTurns true ts) :
      InTurns false (ts ++ [none])

theorem InTurns.finished_last {ts : List (Option (LastRunHistoryEntry N))} (h : InTurns false ts)
    (hrecorded : none ∉ ts) : ts = [] ∨ ∃ ts' f, ts = ts' ++ [some (.finished f)] := by
  cases h with
  | nil => exact .inl rfl
  | finished f => exact .inr ⟨_, f, rfl⟩
  | unrecorded => exact absurd (List.mem_append_right _ (.head _)) hrecorded

/-! ## One step -/

section Steps
variable [PyFloat N] {fromTimestamp : FromTimestamp N} {cfg : ScheduleConfig}

omit [PyFloat N] in
theorem leave_lastRun (s : ScheduleState N) (e : PyException) :
    (s.leave e).lastRun = s.lastRun := by
  unfold ScheduleState.leave
  split <;> rfl

omit [PyFloat N] in
theorem endAttempt_lastRun (s : ScheduleState N) (raised : Option PyException) :
    (s.endAttempt raised).lastRun = s.lastRun := by
  cases raised with
  | none => rfl
  | some e => exact leave_lastRun s e

/-- The history that the end of a job leaves. -/
theorem stepJobEnds_lastRun (s : ScheduleState N) (result : JobResult Returned) (finishedAt : N)
    (unrecorded : Option (Unrecorded N)) (reporting : Option PyException) :
    (s.stepJobEnds cfg result finishedAt unrecorded reporting).lastRun =
      match unrecorded with
      | none => s.lastRun.append
          (.finished ⟨finishedAt, (assessment cfg result).1, (assessment cfg result).2⟩)
      | some unrecorded => unrecorded.lastRun s.lastRun := by
  unfold ScheduleState.stepJobEnds
  rw [endAttempt_lastRun]
  cases unrecorded with
  | some unrecorded => rfl
  | none => cases result <;> rfl

/-- The file holds what the instance reads. -/
def Saved (l : LastRun N) : Prop := loadHistoryEntriesFromFile l.file = l.snapshot

theorem saved_append (l : LastRun N) (e : LastRunHistoryEntry N) : Saved (l.append e) := by
  have hfile : (l.append e).file =
      some (dumpEntries ((l.snapshot ++ [e]).rtake l.history.maxEntries)) :=
    LastRunHistory.append_file l.history l.file e l.hasPath
  rw [Saved, hfile, load_dumpEntries, LastRun.snapshot_append]

theorem saved_refresh {l : LastRun N} (h : Saved l) : Saved l.refresh := by
  rw [Saved, LastRun.refresh_snapshot]
  exact h

/-- What a step makes of the history. -/
structure Appends (fromTimestamp : FromTimestamp N) (cfg : ScheduleConfig)
    (x : ScheduleState N × ScheduleLabel N) (s' : ScheduleState N) : Prop where
  snapshot : s'.lastRun.snapshot =
    (x.1.lastRun.snapshot ++ (appended? fromTimestamp cfg x).toList).rtake
      x.1.lastRun.history.maxEntries
  maxEntries : s'.lastRun.history.maxEntries = x.1.lastRun.history.maxEntries
  saved : appended? fromTimestamp cfg x ≠ none ∨ Saved x.1.lastRun → Saved s'.lastRun

theorem appends_of_same {x : ScheduleState N × ScheduleLabel N} {s' : ScheduleState N}
    (hnone : appended? fromTimestamp cfg x = none) (h : s'.lastRun = x.1.lastRun) :
    Appends fromTimestamp cfg x s' := by
  refine ⟨?_, by rw [h], ?_⟩
  · rw [h, hnone, Option.toList_none, List.append_nil,
      rtake_of_length_le x.1.lastRun.length_snapshot]
  · rintro (hsome | hsaved)
    · exact absurd hnone hsome
    · rw [h]
      exact hsaved

theorem stepShouldRun_lastRun (s : ScheduleState N) (now : Datetime) (startedAt : N)
    (reporting : Option PyException) :
    (s.stepShouldRun fromTimestamp cfg now startedAt reporting).lastRun =
      match s.decision fromTimestamp now with
      | .ok true => s.lastRun.refresh.append (.started ⟨startedAt⟩)
      | _ => s.lastRun.refresh := by
  unfold ScheduleState.stepShouldRun ScheduleState.decision LastRun.begin
  generalize s.predicate.call fromTimestamp now s.lastRun.snapshot = called
  obtain ⟨predicate, decision⟩ := called
  cases decision with
  | error e => exact endAttempt_lastRun _ _
  | ok r =>
    obtain ⟨b, reports⟩ := r
    cases b with
    | false => rfl
    | true => rfl

theorem due?_of_called {s : ScheduleState N} {now : Datetime} {startedAt : N}
    {reporting : Option PyException} (h : s.decision fromTimestamp now = .ok true) :
    due? fromTimestamp cfg (s, .shouldRun now startedAt reporting) =
      some (.started ⟨startedAt⟩) := by
  simp only [due?, h]

theorem due?_of_skipped {s : ScheduleState N} {now : Datetime} {startedAt : N}
    {reporting : Option PyException} (h : s.decision fromTimestamp now ≠ .ok true) :
    due? fromTimestamp cfg (s, .shouldRun now startedAt reporting) = none := by
  unfold due?
  dsimp only
  split
  · rename_i htrue
    exact absurd htrue h
  · rfl

theorem appended?_of_recorded {x : ScheduleState N × ScheduleLabel N}
    (h : x.2.isRecorded = true) : appended? fromTimestamp cfg x = due? fromTimestamp cfg x := by
  unfold appended? turn?
  simp only [h, if_true]
  cases due? fromTimestamp cfg x <;> rfl

theorem appended?_of_not_due {x : ScheduleState N × ScheduleLabel N}
    (h : due? fromTimestamp cfg x = none) : appended? fromTimestamp cfg x = none := by
  rw [appended?, turn?, h]
  rfl

theorem appends_shouldRun (s : ScheduleState N) (now : Datetime) (startedAt : N)
    (reporting : Option PyException) :
    Appends fromTimestamp cfg (s, .shouldRun now startedAt reporting)
      (s.stepShouldRun fromTimestamp cfg now startedAt reporting) := by
  have hlastRun : (s.stepShouldRun fromTimestamp cfg now startedAt reporting).lastRun = _ :=
    stepShouldRun_lastRun s now startedAt reporting
  by_cases hd : s.decision fromTimestamp now = .ok true
  · have hentry : appended? fromTimestamp cfg (s, .shouldRun now startedAt reporting) =
        some (.started ⟨startedAt⟩) := (appended?_of_recorded rfl).trans (due?_of_called hd)
    simp only [hd] at hlastRun
    constructor
    · rw [hlastRun, hentry, LastRun.snapshot_append, LastRun.refresh_snapshot,
        LastRun.refresh_maxEntries]
      rfl
    · rw [hlastRun, LastRun.append_maxEntries, LastRun.refresh_maxEntries]
    · rw [hlastRun]
      exact fun _ => saved_append _ _
  · have hentry : appended? fromTimestamp cfg (s, .shouldRun now startedAt reporting) = none :=
      appended?_of_not_due (due?_of_skipped hd)
    have hrefresh : (s.stepShouldRun fromTimestamp cfg now startedAt reporting).lastRun =
        s.lastRun.refresh := by
      rw [hlastRun]
      split
      · rename_i htrue
        exact absurd htrue hd
      · rfl
    constructor
    · rw [hrefresh, hentry, LastRun.refresh_snapshot, Option.toList_none, List.append_nil,
        rtake_of_length_le s.lastRun.length_snapshot]
    · rw [hrefresh, LastRun.refresh_maxEntries]
    · rw [hrefresh]
      rintro (hsome | hsaved)
      · exact absurd hentry hsome
      · exact saved_refresh hsaved

theorem appends_jobEnds (s : ScheduleState N) (result : JobResult Returned) (finishedAt : N)
    {unrecorded : Option (Unrecorded N)} (reporting : Option PyException)
    (hown : (ScheduleLabel.jobEnds result finishedAt unrecorded reporting).isOwn = true) :
    Appends fromTimestamp cfg (s, .jobEnds result finishedAt unrecorded reporting)
      (s.stepJobEnds cfg result finishedAt unrecorded reporting) := by
  have hlastRun : (s.stepJobEnds cfg result finishedAt unrecorded reporting).lastRun = _ :=
    stepJobEnds_lastRun s result finishedAt unrecorded reporting
  match unrecorded with
  | some .unassigned => exact appends_of_same rfl hlastRun
  | some (.appendFails _) => cases hown
  | none =>
    constructor
    · rw [hlastRun, LastRun.snapshot_append]
      rfl
    · rw [hlastRun, LastRun.append_maxEntries]
    · rw [hlastRun]
      exact fun _ => saved_append _ _

theorem appends_step {s s' : ScheduleState N} {l : ScheduleLabel N} (hown : l.isOwn = true)
    (hstep : s.step fromTimestamp cfg l = some s') : Appends fromTimestamp cfg (s, l) s' := by
  cases s.transition_of_step fromTimestamp cfg hstep with
  | external file => cases hown
  | shouldRun hpc now startedAt reporting => exact appends_shouldRun s now startedAt reporting
  | jobEnds hpc result finishedAt unrecorded reporting =>
    exact appends_jobEnds s result finishedAt reporting hown
  | heartbeatFails hpc e => exact appends_of_same rfl (leave_lastRun s e)
  | _ => exact appends_of_same rfl rfl

/-- The turn of the history and the loop's own agree. -/
theorem inTurns_step {s s' : ScheduleState N} {l : ScheduleLabel N}
    {ts : List (Option (LastRunHistoryEntry N))} (h : InTurns (decide (s.pc = .job)) ts)
    (hstep : s.step fromTimestamp cfg l = some s') :
    InTurns (decide (s'.pc = .job)) (ts ++ (turn? fromTimestamp cfg (s, l)).toList) := by
  have hsame (hnone : turn? fromTimestamp cfg (s, l) = none)
      (hpc : s'.pc = .job ↔ s.pc = .job) :
      InTurns (decide (s'.pc = .job)) (ts ++ (turn? fromTimestamp cfg (s, l)).toList) := by
    rw [hnone, Option.toList_none, List.append_nil, decide_eq_decide.mpr hpc]
    exact h
  cases s.transition_of_step fromTimestamp cfg hstep with
  | request r => exact hsame rfl Iff.rfl
  | external file => exact hsame rfl Iff.rfl
  | shouldRun hpc now startedAt reporting =>
    have hout : InTurns false ts := by simpa [hpc] using h
    obtain ⟨-, -, ⟨hjob, hd⟩ | ⟨hleft, hd⟩⟩ :=
      s.stepShouldRun_spec fromTimestamp cfg now startedAt reporting
    · rw [hjob, turn?, due?_of_called hd]
      exact .started _ hout
    · refine hsame (by rw [turn?, due?_of_skipped hd]; rfl) ?_
      rw [hpc]
      rcases hleft with hleft | ⟨leaving, hleft⟩ <;> simp [hleft]
  | jobEnds hpc result finishedAt unrecorded reporting =>
    obtain ⟨-, -, hleft⟩ := s.stepJobEnds_spec cfg result finishedAt unrecorded reporting
    have hin : InTurns true ts := by simpa [hpc] using h
    have hout :
        decide ((s.stepJobEnds cfg result finishedAt unrecorded reporting).pc = .job) = false := by
      rcases hleft with hleft | ⟨leaving, hleft⟩ <;> simp [hleft]
    rw [hout]
    cases unrecorded with
    | none => exact .finished _ hin
    | some unrecorded => exact .unrecorded hin
  | heartbeatFails hpc e =>
    obtain ⟨-, -, leaving, hleft⟩ := s.leave_spec e
    exact hsame rfl (by simp [hpc, hleft])
  | stop hpc => exact hsame rfl (by rcases hpc with hpc | hpc <;> simp [hpc])
  | _ hpc => exact hsame rfl (by simp [hpc])

/-! ## Runs -/

theorem turnsOfRun_snoc (steps : List (ScheduleState N × ScheduleLabel N))
    (x : ScheduleState N × ScheduleLabel N) :
    turnsOfRun fromTimestamp cfg (steps ++ [x]) =
      turnsOfRun fromTimestamp cfg steps ++ (turn? fromTimestamp cfg x).toList := by
  unfold turnsOfRun
  rw [List.filterMap_append]
  cases h : turn? fromTimestamp cfg x <;> simp [h]

theorem entriesOfRun_append (steps steps' : List (ScheduleState N × ScheduleLabel N)) :
    entriesOfRun fromTimestamp cfg (steps ++ steps') =
      entriesOfRun fromTimestamp cfg steps ++ entriesOfRun fromTimestamp cfg steps' := by
  unfold entriesOfRun turnsOfRun
  rw [List.filterMap_append, List.reduceOption_append]

theorem entriesOfRun_snoc (steps : List (ScheduleState N × ScheduleLabel N))
    (x : ScheduleState N × ScheduleLabel N) :
    entriesOfRun fromTimestamp cfg (steps ++ [x]) =
      entriesOfRun fromTimestamp cfg steps ++ (appended? fromTimestamp cfg x).toList := by
  unfold entriesOfRun appended?
  rw [turnsOfRun_snoc, List.reduceOption_append]
  cases turn? fromTimestamp cfg x with
  | none => rfl
  | some entry => cases entry <;> rfl

/-- Unless a job's end is not recorded, every turn is an entry. -/
theorem none_notMem_turns {steps : List (ScheduleState N × ScheduleLabel N)}
    (hrecorded : ∀ x ∈ steps, x.2.isRecorded = true) :
    none ∉ turnsOfRun fromTimestamp cfg steps := by
  intro hmem
  obtain ⟨⟨s, l⟩, hx, hturn⟩ := List.mem_filterMap.mp hmem
  obtain ⟨entry, -, hentry⟩ := Option.map_eq_some_iff.mp hturn
  rw [if_pos (hrecorded (s, l) hx)] at hentry
  cases hentry

theorem snapshot_run {s s' : ScheduleState N} {steps : List (ScheduleState N × ScheduleLabel N)}
    (hrun : ScheduleRun fromTimestamp cfg s steps s') (hown : ∀ x ∈ steps, x.2.isOwn = true) :
    s'.lastRun.snapshot = (s.lastRun.snapshot ++ entriesOfRun fromTimestamp cfg steps).rtake
      s.lastRun.history.maxEntries ∧
    s'.lastRun.history.maxEntries = s.lastRun.history.maxEntries := by
  induction hrun with
  | refl =>
    refine ⟨?_, rfl⟩
    rw [show entriesOfRun fromTimestamp cfg [] = [] from rfl, List.append_nil,
      rtake_of_length_le s.lastRun.length_snapshot]
  | snoc _ hl ih =>
    obtain ⟨hsnapshot, hmax⟩ := ih fun x hx => hown x (List.mem_append_left _ hx)
    have hstep := appends_step (hown _ (List.mem_append_right _ (.head _))) hl
    refine ⟨?_, hstep.maxEntries.trans hmax⟩
    rw [hstep.snapshot, hsnapshot, hmax, rtake_append, entriesOfRun_snoc, List.append_assoc]

theorem inTurns_run {s s' : ScheduleState N} {steps : List (ScheduleState N × ScheduleLabel N)}
    (hrun : ScheduleRun fromTimestamp cfg s steps s') (hpc : s.pc ≠ .job) :
    InTurns (decide (s'.pc = .job)) (turnsOfRun fromTimestamp cfg steps) := by
  induction hrun with
  | refl =>
    rw [decide_eq_false hpc]
    exact .nil
  | snoc _ hl ih =>
    rw [turnsOfRun_snoc]
    exact inTurns_step ih hl

/-- With no job under way and every end recorded, the last entry is a `finished` one. -/
theorem finishedLast_run {s s' : ScheduleState N}
    {steps : List (ScheduleState N × ScheduleLabel N)}
    (hrun : ScheduleRun fromTimestamp cfg s steps s') (hpc : s.pc ≠ .job) (hpc' : s'.pc ≠ .job)
    (hrecorded : ∀ x ∈ steps, x.2.isRecorded = true) :
    entriesOfRun fromTimestamp cfg steps = [] ∨
      ∃ es f, entriesOfRun fromTimestamp cfg steps = es ++ [.finished f] := by
  have hturns := inTurns_run hrun hpc
  rw [decide_eq_false hpc'] at hturns
  unfold entriesOfRun
  rcases hturns.finished_last (none_notMem_turns hrecorded) with hnil | ⟨ts, f, hts⟩
  · rw [hnil]
    exact .inl rfl
  · rw [hts, List.reduceOption_append]
    exact .inr ⟨_, f, rfl⟩

theorem saved_run {s s' : ScheduleState N} {steps : List (ScheduleState N × ScheduleLabel N)}
    (hrun : ScheduleRun fromTimestamp cfg s steps s') (hown : ∀ x ∈ steps, x.2.isOwn = true)
    (hne : entriesOfRun fromTimestamp cfg steps ≠ []) : Saved s'.lastRun := by
  induction hrun with
  | refl => exact absurd rfl hne
  | @snoc u v l steps _ hl ih =>
    have hstep := appends_step (hown _ (List.mem_append_right _ (.head _))) hl
    apply hstep.saved
    cases hx : appended? fromTimestamp cfg (u, l) with
    | some e => exact .inl (by simp)
    | none =>
      rw [entriesOfRun_snoc, hx, Option.toList_none, List.append_nil] at hne
      exact .inr (ih (fun x hx => hown x (List.mem_append_left _ hx)) hne)

/-- **The history of a schedule**: the last of the entries that it began with and that the
run has appended. The job is started and ends in turns, and only an end that is not recorded
leaves no entry. That is what the file holds, once anything was appended. -/
theorem history_in_turns {predicate : RunPredicate} {lastRun : LastRun N}
    {steps : List (ScheduleState N × ScheduleLabel N)} {s : ScheduleState N}
    (hrun : ScheduleRun fromTimestamp cfg (.initial predicate lastRun) steps s)
    (hown : ∀ x ∈ steps, x.2.isOwn = true) :
    s.lastRun.snapshot = (lastRun.snapshot ++ entriesOfRun fromTimestamp cfg steps).rtake
      lastRun.history.maxEntries ∧
    InTurns (decide (s.pc = .job)) (turnsOfRun fromTimestamp cfg steps) ∧
    ((∀ x ∈ steps, x.2.isRecorded = true) → none ∉ turnsOfRun fromTimestamp cfg steps) ∧
    (entriesOfRun fromTimestamp cfg steps ≠ [] →
      loadHistoryEntriesFromFile s.lastRun.file = s.lastRun.snapshot) :=
  ⟨(snapshot_run hrun hown).1, inTurns_run hrun nofun, none_notMem_turns, saved_run hrun hown⟩

/-- An attempt at time 0 whose end cannot be assessed, and a forced one behind it. -/
theorem history_in_turns_twice :
    ∃ steps s, ScheduleRun utcClock.fromTimestamp minutelySchedule scheduleStart steps s ∧
      turnsOfRun utcClock.fromTimestamp minutelySchedule steps =
        [some (.started ⟨0⟩), none, some (.started ⟨1⟩), some (.finished ⟨2, .success, ""⟩)] ∧
      loadHistoryEntriesFromFile s.lastRun.file = s.lastRun.snapshot := by
  have hrun : ScheduleRun utcClock.fromTimestamp minutelySchedule scheduleStart
      [(scheduleStart, .shouldStopLoop), (_, .takeNextRunMode), (_, .markRunning), (_, .force),
        (_, .heartbeat none), (_, .shouldRun 0 0 none),
        (_, .jobEnds (.raised (.valueError "boom")) 0 (some .unassigned) none),
        (_, .updateRunCount), (_, .shouldStopLoop), (_, .hasPendingWork), (_, .waitForWork),
        (_, .request .runNow), (_, .wakeUp), (_, .shouldStopLoop), (_, .takeNextRunMode),
        (_, .markRunning), (_, .force), (_, .heartbeat none), (_, .shouldRun 1 1 none),
        (_, .jobEnds (.returned .none) 2 none none)] _ :=
    .cons rfl (.cons rfl (.cons rfl (.cons rfl (.cons rfl (.cons rfl (.cons rfl (.cons rfl
      (.cons rfl (.cons rfl (.cons rfl (.cons rfl (.cons rfl (.cons rfl (.cons rfl (.cons rfl
        (.cons rfl (.cons rfl (.cons rfl (.single rfl)))))))))))))))))))
  have hhistory := history_in_turns hrun (by simp [ScheduleLabel.isOwn])
  exact ⟨_, _, hrun, rfl, hhistory.2.2.2 (List.cons_ne_nil _ _)⟩

/-! ## When an attempt calls the job -/

/-- What the reads see of the finished attempts ends as the whole record does, while no job is
under way and every end is recorded. -/
theorem lastFinished_schedule {predicate : RunPredicate} {lastRun : LastRun N}
    {steps : List (ScheduleState N × ScheduleLabel N)} {s : ScheduleState N}
    (hrun : ScheduleRun fromTimestamp cfg (.initial predicate lastRun) steps s)
    (hown : ∀ x ∈ steps, x.2.isOwn = true) (hrecorded : ∀ x ∈ steps, x.2.isRecorded = true)
    (hpc : s.pc ≠ .job) (hm : 1 ≤ lastRun.history.maxEntries) :
    (finishedAttempts s.lastRun.snapshot).getLast? = (finishedAttempts
      (lastRun.snapshot ++ entriesOfRun fromTimestamp cfg steps)).getLast? := by
  have hsnapshot : s.lastRun.snapshot = (lastRun.snapshot ++
      entriesOfRun fromTimestamp cfg steps).rtake lastRun.history.maxEntries :=
    (snapshot_run hrun hown).1
  rw [hsnapshot]
  rcases finishedLast_run hrun nofun hpc hrecorded with hnil | ⟨es, f, hes⟩
  · rw [hnil, List.append_nil, rtake_of_length_le lastRun.length_snapshot]
  · obtain ⟨m, hm⟩ : ∃ m, lastRun.history.maxEntries = m + 1 := ⟨_, (Nat.succ_pred (by omega)).symm⟩
    rw [hes, hm, ← List.append_assoc, List.rtake_concat_succ]
    simp

/-- What decides an attempt in mode `normal`, `last` being the last finished attempt of the
whole record, forced ones and those dropped from the file included. -/
structure DecidesBy (fromTimestamp : FromTimestamp N) (p : RunPredicate)
    (last : Option (LastRunAttemptFinished N)) (now : Datetime)
    (entries : List (LastRunHistoryEntry N)) (decision : Except PyException Bool) : Prop where
  first : last = none → decision = .ok true
  due : ∀ e, last = some e → e.outcome ≠ .failure ∨ p.onMaxFailures = .ignore →
    decision = (Gate.after e (p.period e.outcome)).allows fromTimestamp now
  spaced : ∀ e, last = some e → decision = .ok true →
    (∃ finish, fromTimestamp e.time = .ok finish ∧ p.period e.outcome < now - finish) ∨
      (e.outcome = .failure ∧ p.onSuccessSchedule entries) ∧
        ∃ s finish, lastWith .success (finishedAttempts entries) = some s ∧
          fromTimestamp s.time = .ok finish ∧ p.successPeriod < now - finish

omit [PyFloat N] in
/-- The gate is the one of the last outcome, where the number of failures does not count. -/
theorem gate_of_last {p : RunPredicate} {fs : List (LastRunAttemptFinished N)}
    {e : LastRunAttemptFinished N} (hlast : fs.getLast? = some e)
    (h : e.outcome ≠ .failure ∨ p.onMaxFailures = .ignore) :
    p.gate fs = .after e (p.period e.outcome) := by
  simp only [RunPredicate.gate, hlast]
  cases ho : e.outcome with
  | success => rfl
  | neutral => rfl
  | failure =>
    rcases h with h | h
    · exact absurd ho h
    · exact if_pos (.inr h)

/-- So many failures have followed each other that the job stalls. -/
structure Stalled (p : RunPredicate) (fs : List (LastRunAttemptFinished N)) : Prop where
  failed : ∃ e, fs.getLast? = some e ∧ e.outcome = .failure
  limit : p.maxFailures ≤ failuresSince fs

omit [PyFloat N] in
theorem Stalled.closed {p : RunPredicate} {fs : List (LastRunAttemptFinished N)}
    (h : Stalled p fs) (hmode : p.onMaxFailures = .stall) : p.gate fs = .closed := by
  obtain ⟨e, hlast, hfailed⟩ := h.failed
  have hlimit := h.limit
  have hc : ¬ ((failuresSince fs : Int) < p.maxFailures ∨ p.onMaxFailures = .ignore) := by
    rw [hmode]
    rintro (hlt | hignore)
    · omega
    · cases hignore
  simp only [RunPredicate.gate, hlast, hfailed, if_neg hc]
  rw [hmode]

omit [PyFloat N] in
/-- Failures do not end a stall. -/
theorem Stalled.append {p : RunPredicate} {fs gs : List (LastRunAttemptFinished N)}
    (h : Stalled p fs) (hgs : ∀ g ∈ gs, g.outcome = .failure) : Stalled p (fs ++ gs) := by
  induction gs using List.reverseRecOn with
  | nil => rwa [List.append_nil]
  | append_singleton gs g ih =>
    have hrest := ih fun x hx => hgs x (List.mem_append_left _ hx)
    have hg := hgs g (List.mem_append_right _ (.head _))
    rw [← List.append_assoc]
    refine ⟨⟨g, List.getLast?_concat, hg⟩, ?_⟩
    have hlimit := hrest.limit
    have hmore : failuresSince (fs ++ gs ++ [g]) = failuresSince (fs ++ gs) + 1 := by
      rw [failuresSince_concat, hg]
    rw [hmore]
    omega

/-- **A stalled job is run by force only**, until one of its forced runs ends otherwise than
in failure: no waiting, no wake-up and no end of an attempt gets it past the predicate. No
entry is dropped from the file. -/
theorem stalled_until_forced {predicate : RunPredicate} (hstall : predicate.onMaxFailures = .stall)
    {lastRun : LastRun N} {before after : List (ScheduleState N × ScheduleLabel N)}
    {s : ScheduleState N}
    (hrun : ScheduleRun fromTimestamp cfg (.initial predicate lastRun) (before ++ after) s)
    (hown : ∀ x ∈ before ++ after, x.2.isOwn = true)
    (hkeep : (lastRun.snapshot ++ entriesOfRun fromTimestamp cfg (before ++ after)).length ≤
      lastRun.history.maxEntries)
    (hstalled : Stalled predicate (finishedAttempts
      (lastRun.snapshot ++ entriesOfRun fromTimestamp cfg before)))
    (hfailures : ∀ e ∈ finishedAttempts (entriesOfRun fromTimestamp cfg after),
      e.outcome = .failure) :
    ∀ x ∈ after, CallsJob fromTimestamp cfg x → x.1.mode = .runNow := by
  intro x hx hcalls
  obtain ⟨between, rest, rfl⟩ := List.append_of_mem hx
  rw [← List.append_assoc] at hrun hown hkeep
  obtain ⟨hbefore, s₁, hstep, -⟩ := hrun.middle
  rw [entriesOfRun_append, ← List.append_assoc] at hkeep
  have hkeep' : (lastRun.snapshot ++ entriesOfRun fromTimestamp cfg (before ++ between)).length ≤
      lastRun.history.maxEntries := by
    rw [List.length_append] at hkeep
    exact (Nat.le_add_right _ _).trans hkeep
  have hsnapshot := (snapshot_run hbefore
    fun y hy => hown y (List.mem_append_left _ hy)).1
  rw [show (ScheduleState.initial predicate lastRun).lastRun = lastRun from rfl,
    rtake_of_length_le hkeep', entriesOfRun_append, ← List.append_assoc] at hsnapshot
  have hclosed : predicate.gate (finishedAttempts x.1.lastRun.snapshot) = .closed := by
    refine Stalled.closed ?_ hstall
    rw [hsnapshot, finishedAttempts_append]
    refine hstalled.append ?_
    intro e he
    refine hfailures e ?_
    rw [entriesOfRun_append, finishedAttempts_append]
    exact List.mem_append_left _ he
  obtain ⟨now, startedAt, reporting, hlabel, hjob⟩ := hcalls
  rw [hlabel] at hstep
  have hforce : ForceSound predicate x.1 :=
    hbefore.invariant (fun _ _ _ hu hl => forceSound_step hu hl) (forceSound_initial ..)
  cases x.1.transition_of_step fromTimestamp cfg hstep with
  | shouldRun hpc =>
    obtain ⟨-, -, ⟨-, htrue⟩ | ⟨hleft, -⟩⟩ :=
      x.1.stepShouldRun_spec fromTimestamp cfg now startedAt reporting
    · by_contra hmode
      rw [decision_eq hforce hpc, if_neg hmode, RunPredicate.shouldRun_eq, hclosed] at htrue
      cases htrue
    · rcases hleft with hleft | ⟨leaving, hleft⟩ <;> simp [hjob] at hleft

/-- The one failure that `stallingJob` allows, and a forced run behind it. -/
theorem stalled_until_forced_once :
    ∃ before after s, ScheduleRun utcClock.fromTimestamp minutelySchedule
        (.initial stallingJob (newLastRun 10)) (before ++ after) s ∧
      (∃ x ∈ after, CallsJob utcClock.fromTimestamp minutelySchedule x) ∧
      ∀ x ∈ after, CallsJob utcClock.fromTimestamp minutelySchedule x → x.1.mode = .runNow := by
  have hrun : ScheduleRun utcClock.fromTimestamp minutelySchedule
      (.initial stallingJob (newLastRun 10))
      ([(_, .shouldStopLoop), (_, .takeNextRunMode), (_, .markRunning), (_, .force),
        (_, .heartbeat none), (_, .shouldRun 0 0 none),
        (_, .jobEnds (.raised (.valueError "boom")) 0 none none)] ++
      [(_, .updateRunCount), (_, .shouldStopLoop), (_, .hasPendingWork), (_, .waitForWork),
        (_, .request .runNow), (_, .wakeUp), (_, .shouldStopLoop), (_, .takeNextRunMode),
        (_, .markRunning), (_, .force), (_, .heartbeat none), (_, .shouldRun 1 1 none)]) _ :=
    .cons rfl (.cons rfl (.cons rfl (.cons rfl (.cons rfl (.cons rfl (.cons rfl (.cons rfl
      (.cons rfl (.cons rfl (.cons rfl (.cons rfl (.cons rfl (.cons rfl (.cons rfl (.cons rfl
        (.cons rfl (.cons rfl (.single rfl))))))))))))))))))
  refine ⟨_, _, _, hrun, ⟨_, List.mem_of_getLast? rfl, 1, 1, none, rfl, rfl⟩, ?_⟩
  exact stalled_until_forced rfl hrun (by simp [ScheduleLabel.isOwn]) (by decide)
    ⟨⟨_, rfl, rfl⟩, by decide⟩ (fun e he => nomatch he)

/-! ## The first attempt after a reset -/

omit [PyFloat N] in
theorem InTurns.mem_started {b : Bool} {ts : List (Option (LastRunHistoryEntry N))}
    (h : InTurns b ts) : ts = [] ∨ ∃ e, some (.started e) ∈ ts := by
  have hbefore {ts' : List (Option (LastRunHistoryEntry N))} (h : InTurns true ts') :
      ∃ e, some (.started e) ∈ ts' := by
    cases h with
    | started e => exact ⟨e, List.mem_append_right _ (.head _)⟩
  cases h with
  | nil => exact .inl rfl
  | started e => exact .inr ⟨e, List.mem_append_right _ (.head _)⟩
  | finished f h =>
    obtain ⟨e, he⟩ := hbefore h
    exact .inr ⟨e, List.mem_append_left _ he⟩
  | unrecorded h =>
    obtain ⟨e, he⟩ := hbefore h
    exact .inr ⟨e, List.mem_append_left _ he⟩

/-- **After a reset the first attempt calls the job at once**, whatever was in the file, and
whatever requests come before it. -/
theorem reset_runs_first {C : Type} {client : HealthChecksClient C} {o : ScheduleOptions}
    {file : File} {s₀ s : ScheduleState N}
    (h : (o.enter (N := N) client file).result = .ok (cfg, s₀))
    (hreset : o.lastRunReset = true) {steps : List (ScheduleState N × ScheduleLabel N)}
    (hrun : ScheduleRun fromTimestamp cfg s₀ steps s) (hown : ∀ x ∈ steps, x.2.isOwn = true)
    (hfirst : ∀ x ∈ steps, ∀ now startedAt reporting, x.2 ≠ .shouldRun now startedAt reporting)
    (hpc : s.pc = .shouldRun) (now : Datetime) : s.decision fromTimestamp now = .ok true := by
  obtain ⟨check, lastRun, -, hinit, -, rfl⟩ := ScheduleOptions.enter_of_ok h
  rw [if_pos hreset] at hinit
  have hsnapshot : s.lastRun.snapshot = (lastRun.snapshot ++
      entriesOfRun fromTimestamp cfg steps).rtake lastRun.history.maxEntries :=
    (snapshot_run hrun hown).1
  have hnothing : entriesOfRun fromTimestamp cfg steps = [] := by
    rcases (inTurns_run hrun nofun).mem_started with hnil | ⟨e, he⟩
    · rw [entriesOfRun, hnil, List.reduceOption_nil]
    obtain ⟨x, hx, hturn⟩ := List.mem_filterMap.mp he
    obtain ⟨entry, hdue, hentry⟩ := Option.map_eq_some_iff.mp hturn
    unfold due? at hdue
    split at hdue
    · rename_i now startedAt reporting hlabel
      exact absurd hlabel (hfirst x hx _ _ _)
    · split at hentry
      · rw [← hdue] at hentry
        cases hentry
      · cases hentry
    · cases hdue
  rw [hnothing, snapshot_init hinit, List.append_nil, List.rtake_nil] at hsnapshot
  have hforce : ForceSound (o.shouldRun check) s :=
    hrun.invariant (fun _ _ _ hu hl => forceSound_step hu hl) (forceSound_initial ..)
  rw [decision_eq hforce hpc]
  split
  · rfl
  · rw [RunPredicate.shouldRun_eq, hsnapshot]
    rfl

/-- A reset of a file that is no history. -/
theorem reset_runs_first_of_tagged :
    ∃ cfg s₀ steps s,
      (ScheduleOptions.taggedBackup.enter (N := Int) ScheduleOptions.answeringClient
        (some [0])).result = .ok (cfg, s₀) ∧
      ScheduleRun utcClock.fromTimestamp cfg s₀ steps s ∧
      s.decision utcClock.fromTimestamp 0 = .ok true := by
  have hrun : ScheduleRun utcClock.fromTimestamp
      (ScheduleOptions.taggedBackup.config (some "created-check"))
      (.initial (ScheduleOptions.taggedBackup.shouldRun (some "created-check")) (newLastRun 1000))
      [(_, .shouldStopLoop), (_, .takeNextRunMode), (_, .markRunning), (_, .force),
        (_, .heartbeat none)] _ :=
    .cons rfl (.cons rfl (.cons rfl (.cons rfl (.single rfl))))
  have henter : (ScheduleOptions.taggedBackup.enter (N := Int) ScheduleOptions.answeringClient
      (some [0])).result = .ok (_, _) := rfl
  exact ⟨_, _, _, _, henter, hrun,
    reset_runs_first henter rfl hrun (by simp [ScheduleLabel.isOwn]) (by simp) rfl 0⟩

end Steps

end SchedulingUtil
