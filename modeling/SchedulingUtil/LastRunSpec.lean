import SchedulingUtil.LastRunHistorySpec
import SchedulingUtil.LastRun

/-! # The policy as a gate, and runs of the wrapper

The predicate looks at the finished attempts only. Before it looks at the clock
it has chosen one of three gates: open, closed, or open from a period after some
finished attempt on. A run of wrapped calls appends to the list that the reads
see, and drops what exceeds the bound. -/
namespace SchedulingUtil

variable {N : Type}

/-! ## The gate -/

inductive Gate (N : Type) where
  | opened
  | closed
  | after (e : LastRunAttemptFinished N) (period : Timedelta)

def Gate.allows (fromTimestamp : FromTimestamp N) (now : Datetime) :
    Gate N → Except PyException Bool
  | .opened => .ok true
  | .closed => .ok false
  | .after e period => (fromTimestamp e.time).map fun finish => decide (now - finish > period)

/-- The gate for a list of finished attempts. -/
def RunPredicate.gate (p : RunPredicate) (fs : List (LastRunAttemptFinished N)) : Gate N :=
  match fs.getLast? with
  | none => .opened
  | some e =>
    match e.outcome with
    | .success => .after e p.successPeriod
    | .neutral => .after e p.neutralPeriod
    | .failure =>
      if failuresSince fs < p.maxFailures ∨ p.onMaxFailures = .ignore then
        .after e p.failurePeriod
      else
        match p.onMaxFailures, lastWith .success fs with
        | .successSchedule, some s => .after s p.successPeriod
        | _, _ => .closed

/-- The period that the outcome of the previous attempt asks for. -/
def RunPredicate.period (p : RunPredicate) : Outcome → Timedelta
  | .success => p.successPeriod
  | .neutral => p.neutralPeriod
  | .failure => p.failurePeriod

/-- The predicate as a `should_run` callback. -/
def RunPredicate.shouldRun [PyNumber N] (p : RunPredicate) (fromTimestamp : FromTimestamp N) :
    ShouldRun N :=
  fun now entries => (p.predicate fromTimestamp now entries).map Prod.fst

theorem ok_bind {α β : Type} (a : α) (f : α → Except PyException β) :
    (Except.ok a >>= f) = f a := rfl

/-- The test that the branches end with. -/
theorem allows_after (fromTimestamp : FromTimestamp N) (now : Datetime)
    (e : LastRunAttemptFinished N) (period : Timedelta) :
    Except.map Prod.fst ((fun finish => (decide (period < now - finish), ([] : List Report))) <$>
      fromTimestamp e.time) = (Gate.after e period).allows fromTimestamp now := by
  cases hf : fromTimestamp e.time <;> simp [Gate.allows, hf, Except.map]

/-- **The predicate decides by its gate.** -/
theorem RunPredicate.shouldRun_eq [PyNumber N] (p : RunPredicate) (fromTimestamp : FromTimestamp N)
    (now : Datetime) (entries : List (LastRunHistoryEntry N)) :
    p.shouldRun fromTimestamp now entries =
      (p.gate (finishedAttempts entries)).allows fromTimestamp now := by
  have hafter := allows_after fromTimestamp now
  simp only [shouldRun, predicate, gate, lastFinished_eq, lastSuccess, lastWithOutcome_eq,
    nFailuresSinceLastSuccess_eq, ok_bind]
  cases (finishedAttempts entries).getLast? with
  | none => rfl
  | some e =>
    cases ho : e.outcome with
    | success => simpa [ho] using hafter e p.successPeriod
    | neutral => simpa [ho] using hafter e p.neutralPeriod
    | failure =>
      by_cases hc : failuresSince (finishedAttempts entries) < p.maxFailures ∨
          p.onMaxFailures = .ignore
      · simpa [ho, hc] using hafter e p.failurePeriod
      · simp only [ho, hc, decide_eq_true_eq, Bool.or_eq_true, reduceCtorEq, if_false]
        cases hs : lastWith .success (finishedAttempts entries) with
        | none => cases p.onMaxFailures <;> rfl
        | some s =>
          cases hm : p.onMaxFailures with
          | ignore => exact absurd (.inr hm) hc
          | stall => rfl
          | successSchedule => simpa using hafter s p.successPeriod

theorem RunPredicate.call_unforced [PyNumber N] (p : RunPredicate)
    (hunforced : p.nextReturnValue = none) (fromTimestamp : FromTimestamp N) (now : Datetime)
    (entries : List (LastRunHistoryEntry N)) :
    (p.call fromTimestamp now entries).2.map Prod.fst =
      (p.gate (finishedAttempts entries)).allows fromTimestamp now := by
  rw [← shouldRun_eq, call, hunforced]
  rfl

/-! ## Runs of the wrapper -/

variable [PyFloat N] {R : Type}

def JobResult.assessed (assessResult : AssessResult R) :
    JobResult R → Except PyException (Outcome × String)
  | .returned value => assessResult (some value) none
  | .raised e => assessResult none (some e)

/-- The entries an attempt appends. -/
def Call.entries (assessResult : AssessResult R) (c : Call N R) : List (LastRunHistoryEntry N) :=
  .started ⟨c.startedAt⟩ ::
    match c.job.assessed assessResult with
    | .ok (outcome, details) => [.finished ⟨c.finishedAt, outcome, details⟩]
    | .error _ => []

namespace LastRun

@[simp] theorem refresh_snapshot (l : LastRun N) : l.refresh.snapshot = l.snapshot :=
  LastRunHistory.snapshot_refresh l.history l.file

theorem snapshot_append (l : LastRun N) (e : LastRunHistoryEntry N) :
    (l.append e).snapshot = (l.snapshot ++ [e]).rtake l.history.maxEntries :=
  LastRunHistory.snapshot_append l.history l.file e

theorem length_snapshot (l : LastRun N) : l.snapshot.length ≤ l.history.maxEntries := by
  have h := l.refresh.bounded
  rw [refresh, LastRunHistory.refresh_maxEntries] at h
  exact h

@[simp] theorem append_maxEntries (l : LastRun N) (e : LastRunHistoryEntry N) :
    (l.append e).history.maxEntries = l.history.maxEntries :=
  LastRunHistory.append_maxEntries l.history l.file e

@[simp] theorem refresh_maxEntries (l : LastRun N) :
    l.refresh.history.maxEntries = l.history.maxEntries :=
  LastRunHistory.refresh_maxEntries l.history l.file

section Run
variable (shouldRun : ShouldRun N) (assessResult : AssessResult R)

/-- The call gets past `should_run`. -/
def Starts (l : LastRun N) (c : Call N R) : Prop := shouldRun c.now l.snapshot = .ok true

/-- The entries a call appends. -/
def appended (l : LastRun N) (c : Call N R) : List (LastRunHistoryEntry N) :=
  match shouldRun c.now l.snapshot with
  | .ok true => c.entries assessResult
  | _ => []

/-- A sequence of calls, one after the other. -/
def run (l : LastRun N) : List (Call N R) → LastRun N
  | [] => l
  | c :: cs => (l.wrapper shouldRun assessResult c).1.run cs

/-- All the entries that a sequence of calls appends, dropped or not. -/
def log (l : LastRun N) : List (Call N R) → List (LastRunHistoryEntry N)
  | [] => []
  | c :: cs => l.appended shouldRun assessResult c ++ (l.wrapper shouldRun assessResult c).1.log cs

variable (l : LastRun N)

theorem wrapper_maxEntries (c : Call N R) :
    (l.wrapper shouldRun assessResult c).1.history.maxEntries = l.history.maxEntries := by
  unfold wrapper begin
  cases shouldRun c.now l.snapshot with
  | error e => simp
  | ok b =>
    cases b with
    | false => simp
    | true =>
      unfold finish
      cases c.job <;> dsimp only <;> split <;> simp

/-- **One call appends its entries** behind the list the reads see. -/
theorem wrapper_snapshot (c : Call N R) :
    (l.wrapper shouldRun assessResult c).1.snapshot =
      (l.snapshot ++ l.appended shouldRun assessResult c).rtake l.history.maxEntries := by
  have hskip : l.snapshot.rtake l.history.maxEntries = l.snapshot :=
    rtake_of_length_le l.length_snapshot
  unfold wrapper begin appended
  cases shouldRun c.now l.snapshot with
  | error e => simp [hskip]
  | ok b =>
    cases b with
    | false => simp [hskip]
    | true =>
      have hend (e : LastRunHistoryEntry N) :
          (l.snapshot ++ [.started ⟨c.startedAt⟩, e]).rtake l.history.maxEntries =
          ((l.refresh.append (.started ⟨c.startedAt⟩)).append e).snapshot := by
        rw [snapshot_append, snapshot_append, refresh_snapshot, append_maxEntries,
          refresh_maxEntries, rtake_append, List.append_assoc]
        rfl
      unfold finish Call.entries JobResult.assessed
      cases c.job <;> dsimp only <;> split <;> simp_all [snapshot_append]

/-- **A run appends its log** and keeps the last entries. -/
theorem run_snapshot (cs : List (Call N R)) :
    (l.run shouldRun assessResult cs).snapshot =
      (l.snapshot ++ l.log shouldRun assessResult cs).rtake l.history.maxEntries := by
  induction cs generalizing l with
  | nil => rw [run, log, List.append_nil, rtake_of_length_le l.length_snapshot]
  | cons c cs ih =>
    rw [run, log, ih, wrapper_snapshot, wrapper_maxEntries, rtake_append, List.append_assoc]

theorem run_append (cs cs' : List (Call N R)) :
    l.run shouldRun assessResult (cs ++ cs') =
      (l.run shouldRun assessResult cs).run shouldRun assessResult cs' := by
  induction cs generalizing l with
  | nil => rfl
  | cons c cs ih => rw [List.cons_append, run, ih, run]

end Run
end LastRun

end SchedulingUtil
