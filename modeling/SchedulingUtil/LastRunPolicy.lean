import SchedulingUtil.LastRunSpec

/-! # What the policy guarantees over runs

Runs of one process that calls a wrapped function again and again: the time
between attempts, the bound on failures under `stall`, and what the bound on the
history's length changes. -/
namespace SchedulingUtil

variable {N : Type}

/-! ## Calls under a clock -/

/-- A process's clock at a constant offset from UTC, in microseconds: what
`time.time()` returns at an instant, and that `datetime.fromtimestamp` turns it
into the local time `datetime.now()` shows at that instant. -/
structure LocalClock (N : Type) where
  offset : Timedelta
  time : Int → N
  fromTimestamp : FromTimestamp N
  representable : Int → Prop
  fromTimestamp_time : ∀ t, representable t → fromTimestamp (time t) = .ok (t + offset)

/-- A call whose reads of the clock do not go back. -/
structure TimedCall (clock : LocalClock N) (R : Type) where
  nowAt : Int
  startAt : Int
  finishAt : Int
  job : JobResult R
  ordered : nowAt ≤ startAt ∧ startAt ≤ finishAt
  representable : clock.representable finishAt

def TimedCall.call {clock : LocalClock N} {R : Type} (c : TimedCall clock R) : Call N R :=
  ⟨c.nowAt + clock.offset, clock.time c.startAt, clock.time c.finishAt, c.job⟩

/-- The assessment of every job gives an outcome. -/
def Assesses {R : Type} (assessResult : AssessResult R) (cs : List (Call N R)) : Prop :=
  ∀ c ∈ cs, ∃ result, c.job.assessed assessResult = .ok result

/-- Local time is UTC, and every instant has a timestamp. -/
def utcClock : LocalClock Int := ⟨0, id, .ok, fun _ => True, fun t _ => by simp⟩

theorem allows_after_iff {fromTimestamp : FromTimestamp N} {now : Datetime}
    {e : LastRunAttemptFinished N} {period : Timedelta} :
    (Gate.after e period).allows fromTimestamp now = .ok true ↔
      ∃ finish, fromTimestamp e.time = .ok finish ∧ period < now - finish := by
  cases hf : fromTimestamp e.time <;> simp [Gate.allows, hf, Except.map]

variable {R : Type}

/-! ## The last finished attempt is never dropped -/

variable [PyFloat N]

theorem log_eq_nil_or_concat {shouldRun : ShouldRun N} {assessResult : AssessResult R}
    {cs : List (Call N R)} (ha : Assesses assessResult cs) (l : LastRun N) :
    l.log shouldRun assessResult cs = [] ∨
      ∃ es e, l.log shouldRun assessResult cs = es ++ [.finished e] := by
  induction cs generalizing l with
  | nil => exact .inl rfl
  | cons c cs ih =>
    rw [LastRun.log]
    rcases ih (fun c' hc' => ha c' (.tail _ hc')) (l.wrapper shouldRun assessResult c).1
      with hnil | ⟨es, e, hes⟩
    · obtain ⟨⟨outcome, details⟩, hr⟩ := ha c (.head _)
      rw [hnil, List.append_nil]
      unfold LastRun.appended
      split
      · exact .inr ⟨[.started ⟨c.startedAt⟩], ⟨c.finishedAt, outcome, details⟩, by
          rw [Call.entries, hr]; rfl⟩
      · exact .inl rfl
    · exact .inr ⟨_, e, by rw [hes, ← List.append_assoc]⟩

theorem lastFinished_run {shouldRun : ShouldRun N} {assessResult : AssessResult R}
    {cs : List (Call N R)} (ha : Assesses assessResult cs) (l : LastRun N)
    (hm : 2 ≤ l.history.maxEntries) :
    (finishedAttempts (l.run shouldRun assessResult cs).snapshot).getLast? =
      (finishedAttempts (l.snapshot ++ l.log shouldRun assessResult cs)).getLast? := by
  rw [LastRun.run_snapshot]
  rcases log_eq_nil_or_concat ha l with hnil | ⟨es, e, hes⟩
  · rw [hnil, List.append_nil, rtake_of_length_le l.length_snapshot]
  · obtain ⟨m, hm⟩ : ∃ m, l.history.maxEntries = m + 1 := ⟨_, (Nat.succ_pred (by omega)).symm⟩
    rw [hes, hm, ← List.append_assoc, List.rtake_concat_succ]
    simp

/-! ## Spacing -/

/-- The failures have reached `max_failures` and only `success_period` counts. -/
def RunPredicate.onSuccessSchedule (p : RunPredicate) (entries : List (LastRunHistoryEntry N)) :
    Prop :=
  p.onMaxFailures = .successSchedule ∧ p.maxFailures ≤ nFailuresSinceLastSuccess entries

omit [PyFloat N] in
/-- Past an open gate, with `e` the last finished attempt. -/
theorem gate_allows {p : RunPredicate} {fromTimestamp : FromTimestamp N} {now : Datetime}
    {entries : List (LastRunHistoryEntry N)} {e : LastRunAttemptFinished N}
    (hlast : (finishedAttempts entries).getLast? = some e)
    (h : (p.gate (finishedAttempts entries)).allows fromTimestamp now = .ok true) :
    (∃ finish, fromTimestamp e.time = .ok finish ∧ p.period e.outcome < now - finish) ∧
        ¬ (e.outcome = .failure ∧ p.onSuccessSchedule entries) ∨
      (e.outcome = .failure ∧ p.onSuccessSchedule entries) ∧
        ∃ s finish, lastWith .success (finishedAttempts entries) = some s ∧
          fromTimestamp s.time = .ok finish ∧ p.successPeriod < now - finish := by
  simp only [RunPredicate.gate, hlast] at h
  unfold RunPredicate.onSuccessSchedule
  rw [nFailuresSinceLastSuccess_eq]
  cases ho : e.outcome with
  | success =>
    simp only [ho] at h
    exact .inl ⟨allows_after_iff.mp h, by simp⟩
  | neutral =>
    simp only [ho] at h
    exact .inl ⟨allows_after_iff.mp h, by simp⟩
  | failure =>
    simp only [ho] at h
    split at h
    · rename_i hc
      refine .inl ⟨allows_after_iff.mp h, ?_⟩
      intro hclosed
      obtain ⟨-, hmode, hn⟩ := hclosed
      rcases hc with hc | hc
      · omega
      · rw [hc] at hmode; cases hmode
    · rename_i hc
      split at h
      · rename_i s hmode hs
        obtain ⟨finish, hf, hlt⟩ := allows_after_iff.mp h
        exact .inr ⟨⟨rfl, hmode, by omega⟩, s, finish, hs, hf, hlt⟩
      · simp [Gate.allows] at h

/-- **An attempt starts only after the period of the previous one**, which is
the period of its outcome, or `success_period` from the last success on where
the failures have used up `max_failures` on the success schedule. -/
theorem attempt_spacing (clock : LocalClock N) (p : RunPredicate) (assessResult : AssessResult R)
    (l : LastRun N) (hm : 2 ≤ l.history.maxEntries) (cs : List (TimedCall clock R))
    (ha : Assesses assessResult (cs.map TimedCall.call)) (c : TimedCall clock R)
    (hstarts : (l.run (p.shouldRun clock.fromTimestamp) assessResult
      (cs.map TimedCall.call)).Starts (p.shouldRun clock.fromTimestamp) c.call)
    (e : LastRunAttemptFinished N)
    (hlast : (finishedAttempts (l.snapshot ++ l.log (p.shouldRun clock.fromTimestamp)
      assessResult (cs.map TimedCall.call))).getLast? = some e) :
    let es := (l.run (p.shouldRun clock.fromTimestamp) assessResult
      (cs.map TimedCall.call)).snapshot
    (¬ (e.outcome = .failure ∧ p.onSuccessSchedule es) →
      ∃ finish, clock.fromTimestamp e.time = .ok (finish + clock.offset) ∧
        p.period e.outcome < c.startAt - finish) ∧
    (e.outcome = .failure ∧ p.onSuccessSchedule es →
      ∃ s finish, lastSuccess clock.fromTimestamp es = .ok (some s) ∧
        clock.fromTimestamp s.time = .ok (finish + clock.offset) ∧
        p.successPeriod < c.startAt - finish) := by
  intro es
  rw [← lastFinished_run ha l hm] at hlast
  rw [LastRun.Starts, RunPredicate.shouldRun_eq] at hstarts
  -- the predicate compares local times, at the moment it is asked
  have hinstant (finish period : Int) (h : period < c.nowAt + clock.offset - finish) :
      finish = (finish - clock.offset) + clock.offset ∧
        period < c.startAt - (finish - clock.offset) := by
    have hle := c.ordered.1
    constructor <;> omega
  rcases gate_allows hlast hstarts with ⟨⟨finish, hf, hlt⟩, hreg⟩ | ⟨hlate, s, finish, hs, hf, hlt⟩
  · obtain ⟨hsub, hlt⟩ := hinstant finish _ hlt
    exact ⟨fun _ => ⟨finish - clock.offset, by rw [← hsub]; exact hf, hlt⟩,
      fun hlate => absurd hlate hreg⟩
  · obtain ⟨hsub, hlt⟩ := hinstant finish _ hlt
    refine ⟨fun hreg => absurd hlate hreg, fun _ => ⟨s, finish - clock.offset, ?_, ?_, hlt⟩⟩
    · rw [lastSuccess, lastWithOutcome_eq, hs]
    · rw [← hsub]; exact hf

/-- A job of which nothing has run yet. -/
def newLastRun (maxEntries : Nat) : LastRun N where
  history := ⟨[], maxEntries, true⟩
  file := none
  hasPath := rfl
  bounded := Nat.zero_le _

/-- A job that returns its outcome. -/
def reported : AssessResult Outcome := fun returned _ => .ok (returned.getD .failure, "")

def instantCall (at' : Int) (outcome : Outcome) : TimedCall utcClock Outcome :=
  ⟨at', at', at', .returned outcome, ⟨Int.le_refl at', Int.le_refl at'⟩, trivial⟩

theorem instantCall_call (at' : Int) (outcome : Outcome) :
    (instantCall at' outcome).call = ⟨at', at', at', .returned outcome⟩ := by
  simp [instantCall, TimedCall.call, utcClock]

def retryingJob : RunPredicate := ⟨10, 10, 5, 1, .successSchedule, false, none⟩

/-- The first call of `retryingJob`, at time 0, succeeds. -/
theorem first_success :
    (newLastRun 10).appended (retryingJob.shouldRun utcClock.fromTimestamp) reported
      (instantCall 0 .success).call = [.started ⟨0⟩, .finished ⟨0, .success, ""⟩] := rfl

theorem snapshot_first_success :
    ((newLastRun 10).wrapper (retryingJob.shouldRun utcClock.fromTimestamp) reported
      (instantCall 0 .success).call).1.snapshot =
        [.started ⟨0⟩, .finished ⟨0, .success, ""⟩] := by
  rw [LastRun.wrapper_snapshot, first_success]
  rfl

/-- The next one, at time 11, fails. -/
theorem then_failure {l : LastRun Int}
    (hl : l.snapshot = [.started ⟨0⟩, .finished ⟨0, .success, ""⟩]) :
    l.appended (retryingJob.shouldRun utcClock.fromTimestamp) reported
      (instantCall 11 .failure).call = [.started ⟨11⟩, .finished ⟨11, .failure, ""⟩] := by
  rw [LastRun.appended, RunPredicate.shouldRun_eq, hl]
  rfl

theorem snapshot_then_failure {l : LastRun Int} (hm : l.history.maxEntries = 10)
    (hl : l.snapshot = [.started ⟨0⟩, .finished ⟨0, .success, ""⟩]) :
    (l.wrapper (retryingJob.shouldRun utcClock.fromTimestamp) reported
      (instantCall 11 .failure).call).1.snapshot =
        [.started ⟨0⟩, .finished ⟨0, .success, ""⟩,
          .started ⟨11⟩, .finished ⟨11, .failure, ""⟩] := by
  rw [LastRun.wrapper_snapshot, then_failure hl, hl, hm]
  rfl

theorem attempt_spacing_after_success :
    ∃ finish, utcClock.fromTimestamp 0 = .ok (finish + utcClock.offset) ∧
      retryingJob.period .success < (instantCall 11 .success).startAt - finish := by
  have hstarts : ((newLastRun 10).run (retryingJob.shouldRun utcClock.fromTimestamp)
      reported ([instantCall 0 .success].map TimedCall.call)).Starts
      (retryingJob.shouldRun utcClock.fromTimestamp) (instantCall 11 .success).call := by
    rw [List.map_singleton, LastRun.run, LastRun.run, LastRun.Starts, snapshot_first_success]
    rfl
  refine (attempt_spacing utcClock retryingJob reported (newLastRun 10) (by decide)
    [instantCall 0 .success] (by simp [Assesses, instantCall_call, JobResult.assessed, reported])
    (instantCall 11 .success) hstarts ⟨0, .success, ""⟩ ?_).1 (by simp)
  rw [List.map_singleton, LastRun.log, LastRun.log, first_success]
  rfl

/-- On the success schedule a failed attempt is retried at once when the last
success is old enough. -/
theorem attempt_spacing_not_after_failure :
    let shouldRun := retryingJob.shouldRun utcClock.fromTimestamp
    let l := newLastRun 10
    let cs := [instantCall 0 .success, instantCall 11 .failure]
    let c := instantCall 11 .success
    (l.run shouldRun reported (cs.map TimedCall.call)).Starts shouldRun c.call ∧
    ∃ e, (finishedAttempts (l.snapshot ++ l.log shouldRun reported
        (cs.map TimedCall.call))).getLast? = some e ∧
      ¬ ∃ finish, utcClock.fromTimestamp e.time = .ok (finish + utcClock.offset) ∧
        retryingJob.period e.outcome < c.startAt - finish := by
  refine ⟨?_, ⟨11, .failure, ""⟩, ?_, ?_⟩
  · rw [List.map_cons, List.map_singleton, LastRun.run, LastRun.run, LastRun.run, LastRun.Starts,
      RunPredicate.shouldRun_eq,
      snapshot_then_failure (LastRun.wrapper_maxEntries ..) snapshot_first_success]
    rfl
  · rw [List.map_cons, List.map_singleton, LastRun.log, LastRun.log, LastRun.log, first_success,
      then_failure snapshot_first_success]
    rfl
  · intro hafter
    obtain ⟨finish, hf, hlt⟩ := hafter
    obtain rfl : (11 : Int) = finish := by simpa [utcClock] using hf
    exact absurd hlt (by decide)

/-! ## The stall bound -/

/-- At the limit the last finished attempt is a failure: a neutral one, whose
gate does not look at the count, cannot follow. -/
structure StallBounded (maxFailures : Int) (fs : List (LastRunAttemptFinished N)) : Prop where
  le : (failuresSince fs : Int) ≤ max 1 maxFailures
  atLimit : (failuresSince fs : Int) = max 1 maxFailures →
    ∃ e, fs.getLast? = some e ∧ e.outcome = .failure

omit [PyFloat N] in
theorem stallBounded_nil (maxFailures : Int) :
    StallBounded maxFailures ([] : List (LastRunAttemptFinished N)) :=
  ⟨by simp only [failuresSince_nil]; omega, by simp only [failuresSince_nil]; omega⟩

omit [PyFloat N] in
/-- At the limit the gate is closed. -/
theorem gate_closed_at_limit {p : RunPredicate} (hmode : p.onMaxFailures = .stall)
    {fs : List (LastRunAttemptFinished N)} (hb : StallBounded p.maxFailures fs)
    (hlimit : (failuresSince fs : Int) = max 1 p.maxFailures) : p.gate fs = .closed := by
  obtain ⟨e, he, ho⟩ := hb.atLimit hlimit
  have hc : ¬ ((failuresSince fs : Int) < p.maxFailures ∨ p.onMaxFailures = .ignore) := by
    rw [hmode]
    intro h
    rcases h with hlt | hmode
    · omega
    · cases hmode
  simp only [RunPredicate.gate, he, ho, if_neg hc]
  rw [hmode]

omit [PyFloat N] in
/-- Below the limit every outcome keeps the bound. -/
theorem stallBounded_concat {maxFailures : Int} {fs : List (LastRunAttemptFinished N)}
    (hb : StallBounded maxFailures fs) (hlt : (failuresSince fs : Int) ≠ max 1 maxFailures)
    (e : LastRunAttemptFinished N) : StallBounded maxFailures (fs ++ [e]) := by
  have hle := hb.le
  have hlast : (fs ++ [e]).getLast? = some e := List.getLast?_concat
  cases ho : e.outcome with
  | success =>
    have hn : failuresSince (fs ++ [e]) = 0 := by rw [failuresSince_concat, ho]
    exact ⟨by rw [hn]; omega, by rw [hn]; omega⟩
  | failure =>
    have hn : failuresSince (fs ++ [e]) = failuresSince fs + 1 := by rw [failuresSince_concat, ho]
    exact ⟨by rw [hn]; omega, fun _ => ⟨e, hlast, ho⟩⟩
  | neutral =>
    have hn : failuresSince (fs ++ [e]) = failuresSince fs := by rw [failuresSince_concat, ho]
    exact ⟨by rw [hn]; omega, by rw [hn]; omega⟩

omit [PyFloat N] in
theorem finishedAttempts_entries (assessResult : AssessResult R) (c : Call N R) :
    finishedAttempts (c.entries assessResult) = [] ∨
      ∃ e, finishedAttempts (c.entries assessResult) = [e] ∧ e.time = c.finishedAt := by
  unfold Call.entries
  split
  · exact .inr ⟨_, rfl, rfl⟩
  · exact .inl rfl

section Stall
variable {p : RunPredicate} (hmode : p.onMaxFailures = .stall)
  (fromTimestamp : FromTimestamp N) (assessResult : AssessResult R)
include hmode

/-- One call keeps the bound: it starts no attempt at the limit. -/
theorem appended_stallBounded {l : LastRun N}
    (hb : StallBounded p.maxFailures (finishedAttempts l.snapshot)) (c : Call N R) :
    StallBounded p.maxFailures (finishedAttempts
      (l.snapshot ++ l.appended (p.shouldRun fromTimestamp) assessResult c)) := by
  unfold LastRun.appended
  split
  · rename_i hallowed
    rw [finishedAttempts_append]
    rcases finishedAttempts_entries assessResult c with hnil | ⟨e, he, -⟩
    · rwa [hnil, List.append_nil]
    · rw [he]
      refine stallBounded_concat hb ?_ e
      intro hlimit
      rw [RunPredicate.shouldRun_eq, gate_closed_at_limit hmode hb hlimit] at hallowed
      cases hallowed
  · rwa [List.append_nil]

/-- While nothing is discarded, the list the reads see is the log. -/
theorem run_stallBounded {l : LastRun N}
    (hb : StallBounded p.maxFailures (finishedAttempts l.snapshot)) (cs : List (Call N R))
    (hkeep : (l.snapshot ++ l.log (p.shouldRun fromTimestamp) assessResult cs).length ≤
      l.history.maxEntries) :
    StallBounded p.maxFailures (finishedAttempts
      (l.snapshot ++ l.log (p.shouldRun fromTimestamp) assessResult cs)) := by
  induction cs generalizing l with
  | nil => simpa [LastRun.log] using hb
  | cons c cs ih =>
    rw [LastRun.log, ← List.append_assoc] at hkeep ⊢
    have hsnap := LastRun.wrapper_snapshot (p.shouldRun fromTimestamp) assessResult l c
    rw [rtake_of_length_le (by rw [List.length_append] at hkeep; omega)] at hsnap
    rw [← hsnap] at hkeep ⊢
    refine ih ?_ (by rwa [LastRun.wrapper_maxEntries])
    rw [hsnap]
    exact appended_stallBounded hmode fromTimestamp assessResult hb c

end Stall

/-- A closed gate stays closed. -/
theorem run_of_closed {p : RunPredicate} {fromTimestamp : FromTimestamp N}
    {assessResult : AssessResult R} {l : LastRun N}
    (hclosed : p.gate (finishedAttempts l.snapshot) = .closed) (cs : List (Call N R)) :
    (l.run (p.shouldRun fromTimestamp) assessResult cs).snapshot = l.snapshot := by
  induction cs generalizing l with
  | nil => rfl
  | cons c cs ih =>
    have hsnap : (l.wrapper (p.shouldRun fromTimestamp) assessResult c).1.snapshot =
        l.snapshot := by
      rw [LastRun.wrapper_snapshot, LastRun.appended, RunPredicate.shouldRun_eq, hclosed]
      show (l.snapshot ++ []).rtake _ = _
      rw [List.append_nil, rtake_of_length_le l.length_snapshot]
    rw [LastRun.run, ih (by rwa [hsnap]), hsnap]

/-- **Under `stall` the failures since the last success stay within
`max(1, max_failures)`**, and at that number no call starts an attempt again. -/
theorem stall_bound {p : RunPredicate} (hmode : p.onMaxFailures = .stall)
    (fromTimestamp : FromTimestamp N) (assessResult : AssessResult R) {l : LastRun N}
    (hempty : l.snapshot = []) (cs : List (Call N R))
    (hkeep : (l.log (p.shouldRun fromTimestamp) assessResult cs).length ≤ l.history.maxEntries) :
    let n : Int := nFailuresSinceLastSuccess (l.log (p.shouldRun fromTimestamp) assessResult cs)
    n ≤ max 1 p.maxFailures ∧
    (n = max 1 p.maxFailures → ∀ (cs' : List (Call N R)) (c : Call N R),
      ¬ (l.run (p.shouldRun fromTimestamp) assessResult (cs ++ cs')).Starts
        (p.shouldRun fromTimestamp) c) := by
  intro n
  have hb := run_stallBounded hmode fromTimestamp assessResult (l := l)
    (by rw [hempty]; exact stallBounded_nil _) cs (by rwa [hempty])
  have hsnap := LastRun.run_snapshot (p.shouldRun fromTimestamp) assessResult l cs
  rw [hempty, List.nil_append, rtake_of_length_le hkeep] at hsnap
  rw [hempty, List.nil_append] at hb
  have hn : n = failuresSince (finishedAttempts
      (l.log (p.shouldRun fromTimestamp) assessResult cs)) := by
    simp only [n, nFailuresSinceLastSuccess_eq]
  refine ⟨hn ▸ hb.le, ?_⟩
  intro hlimit cs' c
  have hgate := gate_closed_at_limit hmode hb (hn ▸ hlimit)
  rw [LastRun.Starts, RunPredicate.shouldRun_eq, LastRun.run_append,
    run_of_closed (by rwa [hsnap]), hsnap, hgate]
  simp [Gate.allows]

def stallingJob : RunPredicate := ⟨10, 10, 5, 1, .stall, false, none⟩

/-- One failure is the limit of `stallingJob`: no later call starts. -/
theorem stall_bound_one_failure :
    let failed := (instantCall 0 .failure).call
    ∀ (cs : List (Call Int Outcome)) (c : Call Int Outcome),
      ¬ ((newLastRun 10).run (stallingJob.shouldRun utcClock.fromTimestamp) reported
        ([failed] ++ cs)).Starts (stallingJob.shouldRun utcClock.fromTimestamp) c := by
  intro failed
  have hlog : (newLastRun 10).log (stallingJob.shouldRun utcClock.fromTimestamp)
      reported [failed] =
        [.started ⟨0⟩, .finished ⟨0, .failure, ""⟩] := rfl
  exact (stall_bound rfl utcClock.fromTimestamp reported (l := newLastRun 10) rfl
    [failed] (by rw [hlog]; decide)).2 (by rw [hlog]; rfl)

end SchedulingUtil
