import SchedulingUtil.ScheduleCounts

/-! # `send_errors_to_slack`

The context manager around an attempt. Of the calls its handler makes, only those
that post to Slack are guarded; what the others raise leaves it in place of the
exception it was to handle. -/
namespace SchedulingUtil
open Lib.Json

/-! ## The context manager -/

/-- An exception that `except Exception` catches. -/
abbrev OrdinaryException := { e : PyException // e.cls = .exception }

structure SlackSettings where
  slackWebhook : Option String
  reraise : Bool
  logError : Bool

/-- What the calls of the handler do: `str(e)`, `traceback.format_tb`, the limiter's
`ping_if_ready()` and `timestamp.isoformat()`, and `post`. -/
structure SlackWorld where
  str : PyException → Except OrdinaryException String
  formatTb : PyException → Option String
  pingIfReady : Except OrdinaryException Bool
  timestamp : Except OrdinaryException String
  post : String → Value Empty → Except PyException Unit

inductive SlackEffect where
  | debug (message : String)
  | warning (message : String)
  | error (message : String)
  | post (url : String) (data : Value Empty)

/-- What leaves the context manager. -/
inductive SlackExit where
  | normal
  | original
  | other (x : PyException)
  deriving DecidableEq

/-- What a part of the handler does, and what it raises. -/
abbrev SlackPart := List SlackEffect × Option PyException

/-- One part after the other, unless the first raises. -/
def SlackPart.andThen (part next : SlackPart) : SlackPart :=
  match part with
  | (effects, none) => (effects ++ next.1, next.2)
  | (effects, some x) => (effects, some x)

/-- The handler's last statement, unless an earlier one has raised. -/
def SlackSettings.exit (s : SlackSettings) : Option PyException → SlackExit
  | some x => .other x
  | none => if s.reraise then .original else .normal

def slackField (key : String) (value : Value Empty) : Text × Value Empty := (key.toList, value)
def slackText (s : String) : Value Empty := .str s.toList

namespace SlackWorld
variable (w : SlackWorld)

/-- `logger.error(f"{type(e).__name__}: {e}")`. -/
def logException (e : PyException) : SlackPart :=
  match w.str e with
  | .ok text => ([.error (e.typeName ++ ": " ++ text)], none)
  | .error x => ([], some x)

def errorToSlack (e : PyException) : Except OrdinaryException (Value Empty) := do
  let text ← w.str e
  let textBlock := .obj [
    slackField "type" (slackText "section"),
    slackField "block_id" (slackText "text_block"),
    slackField "text" (.obj [
      slackField "type" (slackText "mrkdwn"),
      slackField "text" (slackText ("`" ++ e.typeName ++ "`:\n```\n" ++ text ++ "\n```"))])]
  let tracebackText := (w.formatTb e).getD "No traceback available."
  let tracebackBlock := .obj [
    slackField "type" (slackText "section"),
    slackField "block_id" (slackText "traceback_block"),
    slackField "text" (.obj [
      slackField "type" (slackText "mrkdwn"),
      slackField "text" (slackText ("```\n" ++ tracebackText ++ "\n```"))])]
  return .obj [slackField "blocks" (.arr [textBlock, tracebackBlock])]

/-- The guarded block. -/
def tryPost (url : String) (e : PyException) : SlackPart :=
  match w.errorToSlack e with
  | .error x => ([.debug "Posting error to Slack."], some x)
  | .ok data =>
    ([.debug "Posting error to Slack.", .post url data],
      match w.post url data with
      | .ok () => none
      | .error x => some x)

/-- The guarded block and its handler. -/
def postError (url : String) (e : PyException) : SlackPart :=
  match w.tryPost url e with
  | (effects, none) => (effects, none)
  | (effects, some x) =>
    if x.cls = .exception then SlackPart.andThen (effects, none) (w.logException x)
    else (effects, some x)

def report (slackWebhook : Option String) (e : PyException) : SlackPart :=
  match slackWebhook with
  | none => ([], none)
  | some url =>
    match w.pingIfReady with
    | .error x => ([], some x)
    | .ok true => w.postError url e
    | .ok false =>
      match w.timestamp with
      | .error x => ([], some x)
      | .ok timestamp => ([.warning ("Not posting to Slack to avoid hitting rate limits. " ++
          "Last post was at " ++ timestamp ++ ".")], none)

/-- The handler up to its last statement. -/
def handle (s : SlackSettings) (e : PyException) : SlackPart :=
  SlackPart.andThen (if s.logError then w.logException e else ([], none))
    (w.report s.slackWebhook e)

/-- `send_errors_to_slack`, around a body with the given result. -/
def sendErrorsToSlack {α : Type} (s : SlackSettings) :
    Except PyException α → List SlackEffect × SlackExit
  | .ok _ => ([], .normal)
  | .error e =>
    if e.cls = .exception then ((w.handle s e).1, s.exit (w.handle s e).2) else ([], .original)

end SlackWorld

/-! ## What leaves it -/

/-- The exception that leaves, `e` being that of the body. -/
def SlackExit.raised (e : PyException) : SlackExit → Option PyException
  | .normal => none
  | .original => some e
  | .other x => some x

/-- The exit promised for an exception of the body. -/
def SlackSettings.Promises (s : SlackSettings) (e : PyException) (exit : SlackExit) : Prop :=
  if s.reraise then exit = .original
  else ∀ x, exit.raised e = some x → x.cls ≠ .exception

/-- No unguarded call of the handler raises. What the guarded block raises is caught
and can be logged; an exception that is not caught is none to be kept in. -/
structure SlackSettings.ReportsSafely (s : SlackSettings) (w : SlackWorld) (e : PyException) :
    Prop where
  logged : s.logError = true → ∃ text, w.str e = .ok text
  asked : s.slackWebhook.isSome → ∃ ready, w.pingIfReady = .ok ready
  refused : s.slackWebhook.isSome → w.pingIfReady = .ok false →
    ∃ timestamp, w.timestamp = .ok timestamp
  posted : ∀ url, s.slackWebhook = some url → w.pingIfReady = .ok true →
    ∀ x, (w.tryPost url e).2 = some x →
      if x.cls = .exception then ∃ text, w.str x = .ok text else s.reraise = false

namespace SlackWorld
variable {w : SlackWorld} {e x : PyException}

theorem logException_raises : (w.logException e).2 = none ↔ ∃ text, w.str e = .ok text := by
  unfold logException
  cases w.str e <;> simp

theorem logException_ordinary (h : (w.logException e).2 = some x) : x.cls = .exception := by
  unfold logException at h
  cases hs : w.str e with
  | ok text => simp [hs] at h
  | error y =>
    simp only [hs, Option.some.injEq] at h
    rw [← h]
    exact y.property

/-- What a raising part says about `reraise`: an ordinary exception breaks either
promise, any other one the promise to raise the original. -/
def Breaks (s : SlackSettings) (raised : Option PyException) : Prop :=
  ∃ x, raised = some x ∧ (x.cls = .exception ∨ s.reraise = true)

theorem postError_breaks_iff {s : SlackSettings} {url : String} :
    ¬ Breaks s (w.postError url e).2 ↔ ∀ x, (w.tryPost url e).2 = some x →
      if x.cls = .exception then ∃ text, w.str x = .ok text else s.reraise = false := by
  unfold postError Breaks
  obtain ⟨effects, raised⟩ := w.tryPost url e
  cases raised with
  | none => simp
  | some x =>
    by_cases hx : x.cls = .exception
    · simp only [hx, if_true, SlackPart.andThen, Option.some.injEq, forall_eq']
      rw [← logException_raises]
      constructor
      · intro h
        by_contra hne
        obtain ⟨y, hy⟩ := Option.ne_none_iff_exists'.mp hne
        exact h ⟨y, hy, .inl (logException_ordinary hy)⟩
      · intro h hb
        obtain ⟨y, hy, -⟩ := hb
        rw [h] at hy
        cases hy
    · simp [hx]

/-- The exit keeps the promise when nothing that breaks it has been raised. -/
theorem promises_exit_iff {s : SlackSettings} {raised : Option PyException} :
    s.Promises e (s.exit raised) ↔ ¬ Breaks s raised := by
  unfold SlackSettings.Promises Breaks SlackSettings.exit
  cases hr : s.reraise <;> cases raised <;> simp [SlackExit.raised]

theorem report_breaks_iff {s : SlackSettings} :
    ¬ Breaks s (w.report s.slackWebhook e).2 ↔
      (s.slackWebhook.isSome → ∃ ready, w.pingIfReady = .ok ready) ∧
      (s.slackWebhook.isSome → w.pingIfReady = .ok false →
        ∃ timestamp, w.timestamp = .ok timestamp) ∧
      ∀ url, s.slackWebhook = some url → w.pingIfReady = .ok true →
        ∀ x, (w.tryPost url e).2 = some x →
          if x.cls = .exception then ∃ text, w.str x = .ok text else s.reraise = false := by
  unfold report
  cases s.slackWebhook with
  | none => simp [Breaks]
  | some url =>
    cases hp : w.pingIfReady with
    | error x => simp [Breaks, x.property]
    | ok ready =>
      cases ready with
      | true => simpa using postError_breaks_iff
      | false =>
        cases ht : w.timestamp with
        | error x => simp [Breaks, x.property]
        | ok timestamp => simp [Breaks]

theorem handle_breaks_iff {s : SlackSettings} :
    ¬ Breaks s (w.handle s e).2 ↔ s.ReportsSafely w e := by
  have hreport := report_breaks_iff (w := w) (e := e) (s := s)
  unfold handle
  constructor
  · intro h
    cases hl : s.logError with
    | false =>
      simp only [hl, SlackPart.andThen] at h
      obtain ⟨hasked, hrefused, hposted⟩ := hreport.mp h
      exact ⟨fun hlog => absurd (hl.symm.trans hlog) (by simp), hasked, hrefused, hposted⟩
    | true =>
      simp only [hl, if_true] at h
      cases hs : w.str e with
      | error x =>
        simp only [logException, hs, SlackPart.andThen] at h
        exact absurd ⟨x, rfl, .inl x.property⟩ h
      | ok text =>
        simp only [logException, hs, SlackPart.andThen] at h
        obtain ⟨hasked, hrefused, hposted⟩ := hreport.mp h
        exact ⟨fun _ => ⟨text, hs⟩, hasked, hrefused, hposted⟩
  · intro h
    have hrest := hreport.mpr ⟨h.asked, h.refused, h.posted⟩
    cases hl : s.logError with
    | false => simpa [SlackPart.andThen] using hrest
    | true =>
      obtain ⟨text, hs⟩ := h.logged hl
      simpa [SlackPart.andThen, logException, hs] using hrest

theorem sendErrorsToSlack_promises_iff {α : Type} {s : SlackSettings}
    (he : e.cls = .exception) :
    s.Promises e (w.sendErrorsToSlack s (.error e : Except PyException α)).2 ↔
      s.ReportsSafely w e := by
  rw [← handle_breaks_iff, ← promises_exit_iff (e := e), sendErrorsToSlack, if_pos he]

theorem mem_andThen {part next : SlackPart} {effect : SlackEffect}
    (h : effect ∈ (part.andThen next).1) : effect ∈ part.1 ∨ effect ∈ next.1 := by
  obtain ⟨effects, raised⟩ := part
  cases raised with
  | none => exact List.mem_append.mp h
  | some x => exact .inl h

theorem not_post_of_mem_logException {url : String} {data : Value Empty}
    (h : .post url data ∈ (w.logException e).1) : False := by
  unfold logException at h
  cases hs : w.str e <;> simp [hs] at h

theorem mem_postError {url url' : String} {data : Value Empty}
    (h : .post url' data ∈ (w.postError url e).1) : url' = url := by
  have htry (hmem : .post url' data ∈ (w.tryPost url e).1) : url' = url := by
    unfold tryPost at hmem
    cases hd : w.errorToSlack e with
    | error x => simp [hd] at hmem
    | ok data => simp_all
  unfold postError at h
  split at h
  · simp_all
  · split at h
    · rcases mem_andThen h with h | h
      · simp_all
      · exact (not_post_of_mem_logException h).elim
    · simp_all

/-- Slack hears of the exception only where a webhook is set, and with the limiter's
consent. -/
theorem posts_when_ready {s : SlackSettings} {url : String} {data : Value Empty}
    (h : .post url data ∈ (w.handle s e).1) :
    s.slackWebhook = some url ∧ w.pingIfReady = .ok true := by
  rcases mem_andThen h with h | h
  · split at h
    · exact (not_post_of_mem_logException h).elim
    · cases h
  · unfold report at h
    split at h
    · cases h
    · rename_i url' hurl
      split at h
      · cases h
      · rename_i hready
        exact ⟨by rw [hurl, mem_postError h], hready⟩
      · split at h <;> simp at h

end SlackWorld

/-! ## The attempt's boundary -/

/-- The settings with which `attempt()` enters the context manager. -/
def attemptSettings (slackWebhook : Option String) : SlackSettings := ⟨slackWebhook, false, true⟩

/-- What reporting an exception of the job raises into the loop. -/
def SlackWorld.reporting (w : SlackWorld) (slackWebhook : Option String) (e : PyException) :
    Option PyException :=
  (w.handle (attemptSettings slackWebhook) e).2

/-- **The loop's error boundary is the context manager**, entered with `reraise=False`. -/
theorem leaveErrorBoundary_eq {α : Type} (w : SlackWorld) (slackWebhook : Option String)
    (e : PyException) :
    leaveErrorBoundary (w.reporting slackWebhook e) (.error e : Except PyException α) =
      ((w.sendErrorsToSlack (attemptSettings slackWebhook)
        (.error e : Except PyException α)).2).raised e := by
  unfold leaveErrorBoundary SlackWorld.sendErrorsToSlack SlackWorld.reporting
  by_cases he : e.cls = .exception
  · simp only [he, if_true]
    cases (w.handle (attemptSettings slackWebhook) e).2 <;> rfl
  · simp only [he, if_false]
    rfl

variable {N : Type} [PyFloat N] {fromTimestamp : FromTimestamp N} {cfg : ScheduleConfig}

/-- The wrapped function raises in this step, and reporting it raises what `w` has
it raise. -/
inductive RaisesInAttempt (fromTimestamp : FromTimestamp N) (cfg : ScheduleConfig)
    (w : SlackWorld) (slackWebhook : Option String) (e : PyException) :
    ScheduleState N × ScheduleLabel N → Prop where
  | shouldRun {s : ScheduleState N} {now : Datetime} {startedAt : N}
      (h : (s.predicate.call fromTimestamp now s.lastRun.snapshot).2 = .error e) :
      RaisesInAttempt fromTimestamp cfg w slackWebhook e
        (s, .shouldRun now startedAt (w.reporting slackWebhook e))
  | job {s : ScheduleState N} {result : JobResult Returned} {finishedAt : N}
      {unrecorded : Option (Unrecorded N)}
      (h : (s.lastRun.finishUnless (assessResult cfg) finishedAt unrecorded result).2 =
        .error e) :
      RaisesInAttempt fromTimestamp cfg w slackWebhook e
        (s, .jobEnds result finishedAt unrecorded (w.reporting slackWebhook e))

theorem raisedToLoop_of_raises {w : SlackWorld} {slackWebhook : Option String} {e : PyException}
    {x : ScheduleState N × ScheduleLabel N}
    (h : RaisesInAttempt fromTimestamp cfg w slackWebhook e x) :
    raisedToLoop fromTimestamp cfg x =
      leaveErrorBoundary (w.reporting slackWebhook e) (.error e : Except PyException Unit) := by
  cases h with
  | shouldRun h => simp only [raisedToLoop, h]
  | job h =>
    simp only [raisedToLoop, h]
    rfl

/-- **The context manager keeps its promise exactly if no unguarded call of its
handler raises**, and then no exception of the job, nor one of reporting it, gets
to the loop. -/
theorem error_boundary_iff (w : SlackWorld) (e : PyException) (he : e.cls = .exception) :
    (∀ (s : SlackSettings) {α : Type},
      s.Promises e (w.sendErrorsToSlack s (.error e : Except PyException α)).2 ↔
        s.ReportsSafely w e) ∧
    ∀ (fromTimestamp : FromTimestamp N) (cfg : ScheduleConfig) (slackWebhook : Option String)
      (x : ScheduleState N × ScheduleLabel N),
      RaisesInAttempt fromTimestamp cfg w slackWebhook e x →
        ((∀ y, raisedToLoop fromTimestamp cfg x = some y → y.cls ≠ .exception) ↔
          (attemptSettings slackWebhook).ReportsSafely w e) := by
  refine ⟨fun s α => SlackWorld.sendErrorsToSlack_promises_iff he,
    fun fromTimestamp cfg slackWebhook x hx => ?_⟩
  rw [raisedToLoop_of_raises hx, leaveErrorBoundary_eq,
    ← SlackWorld.sendErrorsToSlack_promises_iff (α := Unit) he]
  rfl

/-! ### A limiter whose lock file cannot be opened -/

def boom : PyException := ⟨.exception, "ValueError", "boom"⟩
def permissionError : PyException := ⟨.exception, "PermissionError", "[Errno 13] Permission denied"⟩

/-- Slack answers, and the limiter is ready. -/
def slackUp : SlackWorld where
  str e := .ok e.text
  formatTb _ := none
  pingIfReady := .ok true
  timestamp := .ok "2026-01-02T03:04:05"
  post _ _ := .ok ()

def limiterLockedOut : SlackWorld := { slackUp with pingIfReady := .error ⟨permissionError, rfl⟩ }

def exampleHook : Option String := some "https://example.test/hook"

theorem error_boundary_reraises :
    (slackUp.sendErrorsToSlack ⟨exampleHook, true, true⟩
      (.error boom : Except PyException Unit)).2 = .original := by
  refine ((error_boundary_iff (N := Int) slackUp boom rfl).1 ⟨exampleHook, true, true⟩).mpr
    ⟨fun _ => ⟨_, rfl⟩, fun _ => ⟨_, rfl⟩, fun _ hno => ?_, fun url hurl _ x hx => ?_⟩
  · cases hno
  · cases hx

/-- With `reraise=False` the limiter's exception leaves, and the loop ends with it. -/
theorem error_boundary_leaks :
    (limiterLockedOut.sendErrorsToSlack ⟨exampleHook, false, true⟩
      (.error boom : Except PyException Unit)).2 = .other permissionError ∧
    ∃ s', ScheduleState.step utcClock.fromTimestamp minutelySchedule
        { scheduleStart with pc := .job }
        (.jobEnds (.raised boom) 0 none (limiterLockedOut.reporting exampleHook boom)) =
          some s' ∧
      s'.pc = .markStopped (some permissionError) :=
  ⟨rfl, _, rfl, rfl⟩

end SchedulingUtil
