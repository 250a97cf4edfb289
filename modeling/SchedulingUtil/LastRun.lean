import SchedulingUtil.LastRunHistory

/-! # `RunPredicate` and `LastRun.wrap`

The policy that decides from the history whether a job may run, and the wrapper
that asks it, calls the job and records the attempt. -/
namespace SchedulingUtil

inductive OnMaxFailures where
  | ignore
  | stall
  | successSchedule
  deriving DecidableEq, Repr

/-! ## `RunPredicate` -/

/-- What `_report_error` does with its message. -/
inductive Report where
  | error (message : String)
  | pingLog (message : String)
  | pingFailure
  deriving DecidableEq

/-- `check` says whether a health check is configured. -/
structure RunPredicate where
  successPeriod : Timedelta
  neutralPeriod : Timedelta
  failurePeriod : Timedelta
  maxFailures : Int
  onMaxFailures : OnMaxFailures
  check : Bool := false
  nextReturnValue : Option Bool := none
  deriving DecidableEq

namespace RunPredicate

def reportError (p : RunPredicate) (message : String) : List Report :=
  .error message :: if p.check then [.pingLog message, .pingFailure] else []

variable {N : Type} [PyNumber N]

def stalledMessage (p : RunPredicate) (lastFinished : LastRunAttemptFinished N) : String :=
  "Job stalled after " ++ toString p.maxFailures ++ " tries. The last failure was:\n" ++
    dumpEntry (.finished lastFinished)

/-- `_predicate`, on the entries its reads see: the decision and what it reports. -/
def predicate (p : RunPredicate) (fromTimestamp : FromTimestamp N) (now : Datetime)
    (entries : List (LastRunHistoryEntry N)) : Except PyException (Bool × List Report) := do
  match ← lastFinished fromTimestamp entries with
  | none => return (true, [])
  | some lastFinished =>
    if lastFinished.outcome = .success then
      return (decide (now - (← fromTimestamp lastFinished.time) > p.successPeriod), [])
    if lastFinished.outcome = .neutral then
      return (decide (now - (← fromTimestamp lastFinished.time) > p.neutralPeriod), [])
    if nFailuresSinceLastSuccess entries < p.maxFailures || p.onMaxFailures = .ignore then
      return (decide (now - (← fromTimestamp lastFinished.time) > p.failurePeriod), [])
    match p.onMaxFailures, ← lastSuccess fromTimestamp entries with
    | .stall, _ | _, none => return (false, p.reportError (p.stalledMessage lastFinished))
    | .successSchedule, some lastSuccess =>
      return (decide (now - (← fromTimestamp lastSuccess.time) > p.successPeriod), [])
    | .ignore, some _ => return (false, p.reportError "Unexpected state.")

/-- `__call__`: a forced value is returned once. -/
def call (p : RunPredicate) (fromTimestamp : FromTimestamp N) (now : Datetime)
    (entries : List (LastRunHistoryEntry N)) :
    RunPredicate × Except PyException (Bool × List Report) :=
  match p.nextReturnValue with
  | some result => ({ p with nextReturnValue := none }, .ok (result, []))
  | none => (p, p.predicate fromTimestamp now entries)

def forceNextReturnValue (p : RunPredicate) (value : Bool) : RunPredicate :=
  { p with nextReturnValue := some value }

def unsetNextReturnValue (p : RunPredicate) : RunPredicate :=
  { p with nextReturnValue := none }

end RunPredicate

/-! ## `LastRun` -/

variable {N : Type} [PyNumber N]

/-- The job's history and the file at its path. -/
structure LastRun (N : Type) where
  history : LastRunHistory N
  file : File
  hasPath : history.path = true
  bounded : history.entries.length ≤ history.maxEntries

/-- How `history.append` fails: what it raises, with the history and the file it leaves. -/
structure FailedAppend (N : Type) where
  raised : PyException
  lastRun : LastRun N

/-- How the job ended. -/
inductive JobResult (R : Type) where
  | returned (value : R)
  | raised (e : PyException)

/-- The callbacks: `should_run(now, history)` reads the history's entries,
`assess_result(returned, raised)` gets the one or the other. -/
abbrev ShouldRun (N : Type) := Datetime → List (LastRunHistoryEntry N) → Except PyException Bool
abbrev AssessResult (R : Type) :=
  Option R → Option PyException → Except PyException (Outcome × String)

def defaultAssessResult {R : Type} : AssessResult R
  | _, some raised =>
    .ok (.failure, "Raised `" ++ raised.typeName ++ "`: " ++ raised.text)
  | _, none => .ok (.success, "")

/-- What one call of the wrapper reads from the clock, and what its job does. -/
structure Call (N R : Type) where
  now : Datetime
  startedAt : N
  finishedAt : N
  job : JobResult R

/-- Why a job's end is not recorded: `assess_result` raises, or `str` of what the job returned,
so that the `finally` block finds `outcome` unassigned; or the append raises. -/
inductive Unrecorded (N : Type) where
  | unassigned
  | appendFails (failed : FailedAppend N)

namespace Unrecorded

/-- What leaves the wrapper then. -/
def raised : Unrecorded N → PyException
  | .unassigned => .unboundLocalError "outcome"
  | .appendFails failed => failed.raised

/-- The history then, and its file. -/
def lastRun (l : LastRun N) : Unrecorded N → LastRun N
  | .unassigned => l
  | .appendFails failed => failed.lastRun

end Unrecorded

namespace LastRun

theorem refresh_bounded {h : LastRunHistory N} (hb : h.entries.length ≤ h.maxEntries)
    (file : File) :
    (h.refreshFromFileWithoutLock file).entries.length ≤
      (h.refreshFromFileWithoutLock file).maxEntries := by
  unfold LastRunHistory.refreshFromFileWithoutLock LastRunHistory.loadFromFileWithoutLock
  split
  · split
    · exact length_discardOldEntries _ _
    · exact hb
  · exact hb

def init (maxHistoryEntries : Int) (file : File) : Except PyException (LastRun N) :=
  match h : LastRunHistory.init maxHistoryEntries true none file with
  | .error e => .error e
  | .ok history => .ok
    { history, file
      hasPath := by
        unfold LastRunHistory.init at h
        split at h
        · cases h
        · cases h; rfl
      bounded := by
        unfold LastRunHistory.init at h
        split at h
        · cases h
        · cases h; exact length_discardOldEntries _ _ }

def refresh (l : LastRun N) : LastRun N where
  history := l.history.refreshFromFileWithoutLock l.file
  file := l.file
  hasPath := by
    unfold LastRunHistory.refreshFromFileWithoutLock LastRunHistory.loadFromFileWithoutLock
    split <;> (try split) <;> exact l.hasPath
  bounded := refresh_bounded l.bounded l.file

def append (l : LastRun N) (entry : LastRunHistoryEntry N) : LastRun N where
  history := (l.history.append l.file entry).1
  file := (l.history.append l.file entry).2
  hasPath := l.refresh.hasPath
  bounded := length_discardOldEntries _ _

def snapshot (l : LastRun N) : List (LastRunHistoryEntry N) := l.history.snapshot l.file

variable {R : Type}

/-- The wrapper up to the call of the job: whether it is called. The reads of
`should_run` leave the cache refreshed. -/
def begin (l : LastRun N) (shouldRun : ShouldRun N) (now : Datetime) (startedAt : N) :
    LastRun N × Except PyException Bool :=
  match shouldRun now l.snapshot with
  | .error e => (l.refresh, .error e)
  | .ok false => (l.refresh, .ok false)
  | .ok true => (l.refresh.append (.started ⟨startedAt⟩), .ok true)

/-- The wrapper from the job's end on. The `finally` block reads `outcome`,
which nothing has assigned when `assess_result` raises. -/
def finish (l : LastRun N) (assessResult : AssessResult R) (finishedAt : N) :
    JobResult R → LastRun N × Except PyException (Option R)
  | .returned value =>
    match assessResult (some value) none with
    | .error _ => (l, .error (.unboundLocalError "outcome"))
    | .ok (outcome, details) =>
      (l.append (.finished ⟨finishedAt, outcome, details⟩), .ok (some value))
  | .raised e =>
    match assessResult none (some e) with
    | .error _ => (l, .error (.unboundLocalError "outcome"))
    | .ok (outcome, details) =>
      (l.append (.finished ⟨finishedAt, outcome, details⟩),
        if outcome = .failure then .error e else .ok none)

/-- The same, with what may keep the job's end out of the history. -/
def finishUnless (l : LastRun N) (assessResult : AssessResult R) (finishedAt : N)
    (unrecorded : Option (Unrecorded N)) (job : JobResult R) :
    LastRun N × Except PyException (Option R) :=
  match unrecorded with
  | none => l.finish assessResult finishedAt job
  | some unrecorded => (unrecorded.lastRun l, .error unrecorded.raised)

/-- `wrapper`: a call that is skipped returns `None`. -/
def wrapper (l : LastRun N) (shouldRun : ShouldRun N) (assessResult : AssessResult R)
    (c : Call N R) : LastRun N × Except PyException (Option R) :=
  match l.begin shouldRun c.now c.startedAt with
  | (l, .error e) => (l, .error e)
  | (l, .ok false) => (l, .ok none)
  | (l, .ok true) => l.finish assessResult c.finishedAt c.job

end LastRun

end SchedulingUtil
