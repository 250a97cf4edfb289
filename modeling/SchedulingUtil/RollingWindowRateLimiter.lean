import SchedulingUtil.ExclusivePathLock
import SchedulingUtil.Types

/-! # `RollingWindowRateLimiter`

The limiter with its JSON file, and the steps its operations take inside the
lock. Only the renaming of the finished temporary file changes what is at the path, so
a write is one step. -/
namespace SchedulingUtil
open Lib Lib.Json Lib.Utf8

/-- `str.isspace` of one character. -/
def isUnicodeSpace (c : Char) : Bool :=
  ('\x09' ≤ c && c ≤ '\x0d') || ('\x1c' ≤ c && c ≤ ' ') || c == '\x85' || c == '\xa0' ||
    c == '\u1680' || ('\u2000' ≤ c && c ≤ '\u200a') || c == '\u2028' || c == '\u2029' ||
    c == '\u202f' || c == '\u205f' || c == '\u3000'

/-- The conversions between local times and timestamps, and the exception for a
file that is not UTF-8. -/
structure Platform (N : Type) where
  timestamp : Datetime → N
  fromTimestamp : FromTimestamp N
  decodeError : Bytes → PyException

def Platform.RoundTrips {N : Type} (P : Platform N) (d : Datetime) : Prop :=
  P.fromTimestamp (P.timestamp d) = .ok d

structure RollingWindowRateLimiter where
  maxEvents : Int
  window : Timedelta
  path : Option String
  timestamps : List Datetime
  one_le_maxEvents : 1 ≤ maxEvents
  window_nonneg : 0 ≤ window

namespace RollingWindowRateLimiter

/-- `__post_init__`, up to the lock. -/
def new (maxEvents : Int) (window : Timedelta) (path : Option String) :
    Except PyException RollingWindowRateLimiter :=
  if h : maxEvents < 1 then .error (.valueError "max_events must be at least 1")
  else if h' : window < 0 then .error (.valueError "window must not be negative")
  else .ok ⟨maxEvents, window, path, [], Int.not_lt.mp h, Int.not_lt.mp h'⟩

variable {N : Type} [PyFloat N] (P : Platform N)

def invalidState (path : String) : PyException :=
  .valueError ("Invalid rolling rate limiter state in " ++ path)

/-- `datetime.fromtimestamp(float(item))`; every exception of either is caught. -/
def readItem (item : Value N) : Option Datetime :=
  (PyNumber.float item).bind fun x => (P.fromTimestamp x).toOption

def readState (path : String) (content : Bytes) : Except PyException (List Datetime) :=
  match decode content with
  | none => .error (P.decodeError content)
  | some rawState =>
    if rawState.all isUnicodeSpace then .ok []
    else
      match loads rawState with
      | some (.arr state) =>
        match state.mapM (readItem P) with
        | some timestamps => .ok timestamps
        | none => .error (invalidState path)
      | _ => .error (invalidState path)

def refreshTimestampsFromDisk (l : RollingWindowRateLimiter) (file : File) :
    Except PyException RollingWindowRateLimiter :=
  match l.path, file with
  | none, _ => .ok l
  | some _, none => .ok { l with timestamps := [] }
  | some path, some content => (readState P path content).map fun ts => { l with timestamps := ts }

/-- `json.dumps(state) + "\n"`. -/
def dumpState (timestamps : List Datetime) : Bytes :=
  encode (render spaced 0 (.arr (timestamps.map fun d => .num (P.timestamp d))) ++ ['\n'])

def writeTimestampsToDisk (l : RollingWindowRateLimiter) (file : File) : File :=
  if l.path.isSome then some (dumpState P l.timestamps) else file

def pruneTimestamps (l : RollingWindowRateLimiter) (now : Datetime) : RollingWindowRateLimiter :=
  { l with timestamps := l.timestamps.filter (now - l.window < ·) }

/-- `_is_ready_at`: the answer, on the pruned timestamps. -/
def isReadyAt (l : RollingWindowRateLimiter) (now : Datetime) : Bool × RollingWindowRateLimiter :=
  let l := l.pruneTimestamps now
  (l.timestamps.length < l.maxEvents, l)

end RollingWindowRateLimiter

/-! ## The operations -/

inductive LimiterOp where
  | construct
  | ping
  | pingIfReady
  | isReady
  deriving DecidableEq

/-- How a call ends. With it stands the time the call has read from the clock. -/
inductive LimiterAnswer where
  | constructed
  | pinged (now : Datetime)
  | decided (now : Datetime) (ready : Bool)
  | raised (e : PyException)

/-- The next step of a call. -/
inductive LimiterPc where
  | new
  | now
  | refresh
  | prune
  | check
  | append
  | write
  | done (a : LimiterAnswer)

/-- A call under way on the limiter `index`; `now` is set once the clock is read. -/
structure LimiterCall (I : Type) where
  index : I
  op : LimiterOp
  pc : LimiterPc
  now : Datetime

/-- What the calls share: the file, the limiters in the memory of their
processes, and what the clock has been read to last. -/
structure LimiterWorld (I : Type) where
  file : File
  clock : Datetime
  limiters : I → RollingWindowRateLimiter

def LimiterOp.first : LimiterOp → LimiterPc
  | .construct => .new
  | .ping | .pingIfReady => .now
  | .isReady => .refresh

def LimiterOp.afterNow : LimiterOp → LimiterPc
  | .construct | .ping | .pingIfReady => .refresh
  | .isReady => .check

def LimiterOp.afterRefresh : LimiterOp → LimiterPc
  | .construct => .done .constructed
  | .ping => .prune
  | .pingIfReady => .check
  | .isReady => .now

def LimiterCall.afterCheck {I : Type} (c : LimiterCall I) (ready : Bool) : LimiterPc :=
  if ready && c.op == .pingIfReady then .append else .done (.decided c.now ready)

def LimiterCall.afterWrite {I : Type} (c : LimiterCall I) : LimiterPc :=
  .done (if c.op = .pingIfReady then .decided c.now true else .pinged c.now)

section Steps
variable {I : Type} [DecidableEq I]

def LimiterWorld.setLimiter (w : LimiterWorld I) (i : I) (l : RollingWindowRateLimiter) :
    LimiterWorld I := { w with limiters := Function.update w.limiters i l }

variable {N : Type} [PyFloat N] (P : Platform N)

/-- One step of a call. The clock does not go back, and shows times that survive
the file. -/
inductive LimiterStep : LimiterCall I × LimiterWorld I → LimiterCall I × LimiterWorld I → Prop where
  | new {c : LimiterCall I} {w : LimiterWorld I} (h : c.pc = .new) :
      LimiterStep (c, w) ({ c with pc := .refresh },
        w.setLimiter c.index { w.limiters c.index with timestamps := [] })
  | now {c : LimiterCall I} {w : LimiterWorld I} {now : Datetime} (h : c.pc = .now)
      (hclock : w.clock ≤ now) (hr : P.RoundTrips now) :
      LimiterStep (c, w) ({ c with now, pc := c.op.afterNow }, { w with clock := now })
  | refresh {c : LimiterCall I} {w : LimiterWorld I} {l : RollingWindowRateLimiter}
      (h : c.pc = .refresh)
      (hl : (w.limiters c.index).refreshTimestampsFromDisk P w.file = .ok l) :
      LimiterStep (c, w) ({ c with pc := c.op.afterRefresh }, w.setLimiter c.index l)
  | invalid {c : LimiterCall I} {w : LimiterWorld I} {e : PyException} (h : c.pc = .refresh)
      (he : (w.limiters c.index).refreshTimestampsFromDisk P w.file = .error e) :
      LimiterStep (c, w) ({ c with pc := .done (.raised e) }, w)
  | prune {c : LimiterCall I} {w : LimiterWorld I} (h : c.pc = .prune) :
      LimiterStep (c, w) ({ c with pc := .append },
        w.setLimiter c.index ((w.limiters c.index).pruneTimestamps c.now))
  | check {c : LimiterCall I} {w : LimiterWorld I} (h : c.pc = .check) :
      LimiterStep (c, w)
        ({ c with pc := c.afterCheck ((w.limiters c.index).isReadyAt c.now).1 },
          w.setLimiter c.index ((w.limiters c.index).isReadyAt c.now).2)
  | append {c : LimiterCall I} {w : LimiterWorld I} (h : c.pc = .append) :
      LimiterStep (c, w) ({ c with pc := .write },
        w.setLimiter c.index
          { w.limiters c.index with timestamps := (w.limiters c.index).timestamps ++ [c.now] })
  | write {c : LimiterCall I} {w : LimiterWorld I} (h : c.pc = .write) :
      LimiterStep (c, w) ({ c with pc := c.afterWrite },
        { w with file := (w.limiters c.index).writeTimestampsToDisk P w.file })

/-- The operations of the limiters, each of them under the lock. -/
def limiterSections :
    Sections (LimiterOp × I) LimiterAnswer Unit (LimiterCall I) (LimiterWorld I) where
  start op _ := some ⟨op.2, op.1, op.1.first, 0⟩
  body := LimiterStep P
  finish c :=
    match c.pc with
    | .done a => some (a, ())
    | _ => none

end Steps

end SchedulingUtil
