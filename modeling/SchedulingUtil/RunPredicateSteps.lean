import SchedulingUtil.LastRunPolicy
import SchedulingUtil.SharedHistory

/-! # `RunPredicate` beside other threads

`_predicate` takes the lock of the history and makes up to three reads, each of which enters
the lock again and reloads the file. The threads of any processes share the file; those of
one process also its `LastRunHistory` instances. -/
namespace SchedulingUtil
open Lib

variable {N : Type}

/-! ## `_predicate`, read by read -/

/-- The next read and what follows from its answer. -/
inductive Decision (N : Type) where
  | lastFinished (k : Option (LastRunAttemptFinished N) → Decision N)
  | nFailuresSinceLastSuccess (k : Nat → Decision N)
  | lastSuccess (k : Option (LastRunAttemptFinished N) → Decision N)
  | done (r : Except PyException (Bool × List Report))

namespace Decision

/-- `now - e.datetime > period`. -/
def elapsed (fromTimestamp : FromTimestamp N) (now : Datetime) (e : LastRunAttemptFinished N)
    (period : Timedelta) : Decision N :=
  .done ((fromTimestamp e.time).map fun finish => (decide (now - finish > period), []))

def query : Decision N → Option HistoryQuery
  | .lastFinished _ => some .lastFinished
  | .nFailuresSinceLastSuccess _ => some .nFailuresSinceLastSuccess
  | .lastSuccess _ => some .lastSuccess
  | .done _ => none

/-- How it goes on with the answer of the read. -/
def resume : Decision N → HistoryAnswer N → Decision N
  | .lastFinished k, .finished (.ok e) => k e
  | .lastFinished _, .finished (.error e) => .done (.error e)
  | .nFailuresSinceLastSuccess k, .count n => k n
  | .lastSuccess k, .finished (.ok e) => k e
  | .lastSuccess _, .finished (.error e) => .done (.error e)
  | d, _ => d

/-- All the reads on the same entries. -/
def eval (fromTimestamp : FromTimestamp N) (entries : List (LastRunHistoryEntry N)) :
    Decision N → Except PyException (Bool × List Report)
  | .lastFinished k =>
    SchedulingUtil.lastFinished fromTimestamp entries >>= fun e => (k e).eval fromTimestamp entries
  | .nFailuresSinceLastSuccess k =>
    (k (SchedulingUtil.nFailuresSinceLastSuccess entries)).eval fromTimestamp entries
  | .lastSuccess k =>
    SchedulingUtil.lastSuccess fromTimestamp entries >>= fun e => (k e).eval fromTimestamp entries
  | .done r => r

/-- A read that answers from the entries does not change what it comes to on them. -/
theorem eval_resume {fromTimestamp : FromTimestamp N} {entries : List (LastRunHistoryEntry N)}
    {d : Decision N} {q : HistoryQuery} (hq : d.query = some q) :
    (d.resume (q.answer fromTimestamp entries)).eval fromTimestamp entries =
      d.eval fromTimestamp entries := by
  cases d with
  | lastFinished k =>
    cases hq
    cases h : SchedulingUtil.lastFinished fromTimestamp entries with
    | error e => simp only [HistoryQuery.answer, resume, eval, h]; rfl
    | ok e => simp only [HistoryQuery.answer, resume, eval, h, ok_bind]
  | nFailuresSinceLastSuccess k =>
    cases hq
    rfl
  | lastSuccess k =>
    cases hq
    cases h : SchedulingUtil.lastSuccess fromTimestamp entries with
    | error e => simp only [HistoryQuery.answer, resume, eval, h]; rfl
    | ok e => simp only [HistoryQuery.answer, resume, eval, h, ok_bind]
  | done r => cases hq

theorem eval_elapsed (fromTimestamp : FromTimestamp N) (now : Datetime)
    (e : LastRunAttemptFinished N) (period : Timedelta) (entries : List (LastRunHistoryEntry N)) :
    (elapsed fromTimestamp now e period).eval fromTimestamp entries = (do
      return (decide (now - (← fromTimestamp e.time) > period), [])) := by
  cases h : fromTimestamp e.time <;> simp only [elapsed, eval, h] <;> rfl

end Decision

/-- `_predicate`. -/
def RunPredicate.decision [PyNumber N] (p : RunPredicate) (fromTimestamp : FromTimestamp N)
    (now : Datetime) : Decision N :=
  .lastFinished fun
    | none => .done (.ok (true, []))
    | some lastFinished =>
      if lastFinished.outcome = .success then
        .elapsed fromTimestamp now lastFinished p.successPeriod
      else if lastFinished.outcome = .neutral then
        .elapsed fromTimestamp now lastFinished p.neutralPeriod
      else
        .nFailuresSinceLastSuccess fun nFailures =>
          if nFailures < p.maxFailures || p.onMaxFailures = .ignore then
            .elapsed fromTimestamp now lastFinished p.failurePeriod
          else
            .lastSuccess fun lastSuccess =>
              match p.onMaxFailures, lastSuccess with
              | .stall, _ | _, none =>
                .done (.ok (false, p.reportError (p.stalledMessage lastFinished)))
              | .successSchedule, some lastSuccess =>
                .elapsed fromTimestamp now lastSuccess p.successPeriod
              | .ignore, some _ => .done (.ok (false, p.reportError "Unexpected state."))

/-- With all its reads on the same entries it is the policy on these. -/
theorem RunPredicate.eval_decision [PyNumber N] (p : RunPredicate)
    (fromTimestamp : FromTimestamp N) (now : Datetime) (entries : List (LastRunHistoryEntry N)) :
    (p.decision fromTimestamp now).eval fromTimestamp entries =
      p.predicate fromTimestamp now entries := by
  simp only [decision, predicate, Decision.eval]
  cases lastFinished fromTimestamp entries with
  | error e => rfl
  | ok e? =>
    cases e? with
    | none => rfl
    | some e =>
      simp only [ok_bind]
      split
      · rw [Decision.eval_elapsed]
      split
      · rw [Decision.eval_elapsed]
      simp only [Decision.eval]
      split
      · rw [Decision.eval_elapsed]
      simp only [Decision.eval]
      cases lastSuccess fromTimestamp entries with
      | error e' => rfl
      | ok s? =>
        simp only [ok_bind]
        cases p.onMaxFailures <;> cases s? <;> simp only [Decision.eval_elapsed] <;> rfl

/-! ## The threads -/

/-- Before, in and behind the body of a `with history.lock()`. -/
inductive CallStage (A B : Type) where
  | entering
  | inside (a : A)
  | leaving (b : B)

/-- An operation on the instance `index` of the process. The constructor's is
`load_from_file`. -/
structure OperationCall (J N : Type) where
  index : J
  op : HistoryOp N
  stage : CallStage HistoryPc (HistoryAnswer N)

/-- A call of a predicate that no value is forced on. -/
structure PredicateCall (J : Type) where
  index : J
  predicate : RunPredicate
  now : Datetime
  unforced : predicate.nextReturnValue = none

/-- How far it has come, with the reads it has made. -/
structure PredicateRun (J N : Type) where
  call : PredicateCall J
  stage : CallStage (Decision N) (Except PyException (Bool × List Report))
  reads : List (HistoryQuery × HistoryAnswer N)

/-- `operation` is one of its own or, with a predicate, a read of that. -/
structure HistoryThread (J N : Type) where
  predicate : Option (PredicateRun J N) := none
  operation : Option (OperationCall J N) := none

/-- The lock, the file and the instances of each process. -/
structure HistoryWorld (P T K J N : Type) where
  locks : ReentrantLocks P T K
  file : File
  instances : P → J → Option (LastRunHistory N)
  thread : T → HistoryThread J N

def HistoryOp.firstPc : HistoryOp N → HistoryPc
  | .construct => .load
  | .read _ | .append _ => .exists

inductive HistoryEvent (P T J N : Type) where
  | create (p : P) (i : J)
  | lock (t : T)
  | call (t : T) (i : J) (op : HistoryOp N)
  | read (t : T)
  | begin (t : T)
  | body (t : T)
  | leave (t : T)
  | finish (t : T)
  | resume (t : T)
  | ask (t : T) (c : PredicateCall J)
  | consider (t : T)
  | decided (t : T) (c : PredicateCall J) (reads : List (HistoryQuery × HistoryAnswer N))
      (r : Except PyException (Bool × List Report))
  | respond (t : T) (c : PredicateCall J) (reads : List (HistoryQuery × HistoryAnswer N))
      (r : Except PyException (Bool × List Report))

/-- The thread that takes the step. -/
def HistoryEvent.thread {P T J N : Type} : HistoryEvent P T J N → Option T
  | .create _ _ => none
  | .lock t | .call t _ _ | .read t | .begin t | .body t | .leave t | .finish t | .resume t
  | .ask t _ | .consider t | .decided t _ _ _ | .respond t _ _ _ => some t

/-- The body of the innermost `with` runs. -/
def ReentrantLocks.BodyRuns {P T K : Type} (s : ReentrantLocks P T K) (t : T) : Prop :=
  ∃ f rest, s.frames t = f :: rest ∧ f.stage.inside = true

namespace HistoryWorld

variable {P T K J : Type} [DecidableEq T]

def setThread (w : HistoryWorld P T K J N) (t : T) (th : HistoryThread J N) :
    HistoryWorld P T K J N := { w with thread := Function.update w.thread t th }

@[simp] theorem setThread_same (w : HistoryWorld P T K J N) (t : T) (th : HistoryThread J N) :
    (w.setThread t th).thread t = th := Function.update_self ..
theorem setThread_other (w : HistoryWorld P T K J N) {t u : T} (th : HistoryThread J N)
    (h : u ≠ t) : (w.setThread t th).thread u = w.thread u := Function.update_of_ne h ..

variable [DecidableEq P] [DecidableEq K]

/-- A call enters the lock. -/
def enterLock (w : HistoryWorld P T K J N) (proc : T → P) (k : K) (t : T)
    (th : HistoryThread J N) : HistoryWorld P T K J N :=
  { w with locks := w.locks.enter proc t k }.setThread t th

@[simp] theorem enterLock_same (w : HistoryWorld P T K J N) (proc : T → P) (k : K) (t : T)
    (th : HistoryThread J N) : (w.enterLock proc k t th).thread t = th := setThread_same ..

theorem enterLock_frames (w : HistoryWorld P T K J N) (proc : T → P) (k : K) (t : T)
    (th : HistoryThread J N) : (w.enterLock proc k t th).locks.frames t =
      ⟨k, (w.locks.getState (proc t) k).1, .acquire⟩ :: w.locks.frames t :=
  (congrFun ReentrantLocks.enter_frames t).trans (Function.update_self ..)

variable [DecidableEq J] [PyNumber N] (proc : T → P) (k : K) (fromTimestamp : FromTimestamp N)

/-- One step of one thread; `k` is the path of the lock. -/
inductive Step : HistoryWorld P T K J N → HistoryEvent P T J N → HistoryWorld P T K J N → Prop where
  -- `LastRunHistory(path=…, entries=…)`, and the constructor without entries before it loads.
  | create {w : HistoryWorld P T K J N} {p : P} {i : J} {h : LastRunHistory N}
      (hnew : w.instances p i = none) (hp : h.path = true) :
      Step w (.create p i) { w with
        instances := Function.update w.instances p (Function.update (w.instances p) i (some h)) }
  | lock {w : HistoryWorld P T K J N} {t : T} {locks : ReentrantLocks P T K}
      (h : ReentrantLocks.Advance proc t w.locks locks) : Step w (.lock t) { w with locks }
  | call {w : HistoryWorld P T K J N} {t : T} {i : J} {op : HistoryOp N}
      (ht : w.thread t = ⟨none, none⟩) :
      Step w (.call t i op) (w.enterLock proc k t ⟨none, some ⟨i, op, .entering⟩⟩)
  | read {w : HistoryWorld P T K J N} {t : T} {c : PredicateRun J N} {d : Decision N}
      {q : HistoryQuery} (ht : w.thread t = ⟨some c, none⟩) (hc : c.stage = .inside d)
      (hq : d.query = some q) :
      Step w (.read t) (w.enterLock proc k t ⟨some c, some ⟨c.call.index, .read q, .entering⟩⟩)
  | begin {w : HistoryWorld P T K J N} {t : T} {c : Option (PredicateRun J N)}
      {o : OperationCall J N} (ht : w.thread t = ⟨c, some o⟩) (ho : o.stage = .entering)
      (hin : w.locks.BodyRuns t) :
      Step w (.begin t) (w.setThread t ⟨c, some { o with stage := .inside o.op.firstPc }⟩)
  | body {w : HistoryWorld P T K J N} {t : T} {c : Option (PredicateRun J N)}
      {o : OperationCall J N} {pc : HistoryPc} {h : LastRunHistory N} {call : HistoryCall N}
      {file : File} (ht : w.thread t = ⟨c, some o⟩) (ho : o.stage = .inside pc)
      (hh : w.instances (proc t) o.index = some h)
      (hb : HistoryStep (⟨h, o.op.appended.head?, pc⟩, w.file) (call, file)) :
      Step w (.body t) ({ w with
        file
        instances := Function.update w.instances (proc t)
          (Function.update (w.instances (proc t)) o.index (some call.history)) }.setThread t
        ⟨c, some { o with stage := .inside call.pc }⟩)
  | leave {w : HistoryWorld P T K J N} {t : T} {c : Option (PredicateRun J N)}
      {o : OperationCall J N} {h : LastRunHistory N} {locks : ReentrantLocks P T K}
      (ht : w.thread t = ⟨c, some o⟩) (ho : o.stage = .inside .done)
      (hh : w.instances (proc t) o.index = some h) (hl : ReentrantLocks.Leave t k w.locks locks) :
      Step w (.leave t) ({ w with locks }.setThread t
        ⟨c, some { o with stage := .leaving (o.op.answer fromTimestamp h.entries) }⟩)
  | finish {w : HistoryWorld P T K J N} {t : T} {o : OperationCall J N} {a : HistoryAnswer N}
      (ht : w.thread t = ⟨none, some o⟩) (ho : o.stage = .leaving a)
      (hout : w.locks.frames t = []) : Step w (.finish t) (w.setThread t ⟨none, none⟩)
  | resume {w : HistoryWorld P T K J N} {t : T} {c : PredicateRun J N} {d : Decision N}
      {o : OperationCall J N} {q : HistoryQuery} {a : HistoryAnswer N}
      (ht : w.thread t = ⟨some c, some o⟩) (hc : c.stage = .inside d) (hq : o.op = .read q)
      (ho : o.stage = .leaving a) (hout : w.locks.BodyRuns t) :
      Step w (.resume t) (w.setThread t
        ⟨some { c with stage := .inside (d.resume a), reads := c.reads ++ [(q, a)] }, none⟩)
  | ask {w : HistoryWorld P T K J N} {t : T} {c : PredicateCall J}
      (ht : w.thread t = ⟨none, none⟩) (hi : (w.instances (proc t) c.index).isSome = true) :
      Step w (.ask t c) (w.enterLock proc k t ⟨some ⟨c, .entering, []⟩, none⟩)
  | consider {w : HistoryWorld P T K J N} {t : T} {c : PredicateRun J N}
      (ht : w.thread t = ⟨some c, none⟩) (hc : c.stage = .entering) (hin : w.locks.BodyRuns t) :
      Step w (.consider t) (w.setThread t ⟨some { c with
        stage := .inside (c.call.predicate.decision fromTimestamp c.call.now) }, none⟩)
  | decided {w : HistoryWorld P T K J N} {t : T} {c : PredicateRun J N}
      {r : Except PyException (Bool × List Report)} {locks : ReentrantLocks P T K}
      (ht : w.thread t = ⟨some c, none⟩) (hc : c.stage = .inside (.done r))
      (hl : ReentrantLocks.Leave t k w.locks locks) :
      Step w (.decided t c.call c.reads r)
        ({ w with locks }.setThread t ⟨some { c with stage := .leaving r }, none⟩)
  | respond {w : HistoryWorld P T K J N} {t : T} {c : PredicateRun J N}
      {r : Except PyException (Bool × List Report)}
      (ht : w.thread t = ⟨some c, none⟩) (hc : c.stage = .leaving r)
      (hout : w.locks.frames t = []) :
      Step w (.respond t c.call c.reads r) (w.setThread t ⟨none, none⟩)

variable {proc k fromTimestamp} in
theorem thread_other {w w' : HistoryWorld P T K J N} {e : HistoryEvent P T J N} {t : T}
    (hs : Step proc k fromTimestamp w e w') (ht : e.thread ≠ some t) :
    w'.thread t = w.thread t := by
  cases hs with
  | create | lock => rfl
  | _ => exact setThread_other _ _ fun htu => ht (congrArg some htu.symm)

omit [DecidableEq P] [DecidableEq T] [DecidableEq K] [DecidableEq J] [PyNumber N] in
/-- No thread has called anything. The instances are on the path of the file. -/
def start (mtime : K → Option Int) (file : File) (instances : P → J → Option (LastRunHistory N)) :
    HistoryWorld P T K J N :=
  ⟨.unlocked mtime, file, instances, fun _ => ⟨none, none⟩⟩

end HistoryWorld

end SchedulingUtil
