import SchedulingUtil.Lib.Traced
import SchedulingUtil.RateLimiterLocalTime
import SchedulingUtil.SendErrorsToSlack

/-! # The rate limit of the reports to Slack

A schedule reports the exceptions of its attempts through one limiter. Over a whole run the
posts keep the limiter's period, and only errors that come too soon behind a post, or find the
limiter unusable, are kept from Slack. -/
namespace SchedulingUtil
open Lib

/-! ## A run with its reports -/

/-- An exception that is reported, what the handler's calls do, and when the limiter reads
its clock. `limiterRaises` is what its `ping_if_ready` raises where its lock or its file cannot
be used; the file keeps its time then. -/
structure SlackReport where
  error : PyException
  world : SlackWorld
  times : PingTimes
  limiterRaises : Option OrdinaryException

/-- The handler has its line for the log, so it goes on to the limiter. -/
def SlackReport.Logged (r : SlackReport) : Prop := ∃ text, r.world.str r.error = .ok text

/-- The limiter answers the handler. -/
structure SlackReport.AsksLimiter (r : SlackReport) : Prop where
  logged : r.Logged
  answers : r.limiterRaises = none

/-- The limiter, and what the handler has done for each exception so far. -/
structure SlackUse where
  limiter : RateLimiterUse
  handled : List (SlackReport × List SlackEffect)

section Reports
variable (offset : UtcOffset) (isoformat : Datetime → String) (webhook : Option String)

/-- The calls of the handler, those to the limiter included. -/
def SlackWorld.limitedBy (w : SlackWorld) (u : RateLimiterUse)
    (limiterRaises : Option OrdinaryException) (c : PingTimes) : SlackWorld :=
  { w with
    pingIfReady :=
      match limiterRaises with
      | none => .ok (u.limiter.pingIfReady offset u.mtime c).1
      | some x => .error x
    timestamp := .ok (isoformat (u.limiter.pingIfReady offset u.mtime c).2.1.timestamp) }

/-- What the handler of an attempt works with. -/
def SlackUse.worldOf (u : SlackUse) (r : SlackReport) : SlackWorld :=
  r.world.limitedBy offset isoformat u.limiter r.limiterRaises r.times

/-- The limiter is called where there is a webhook, unless the line for the log has raised. -/
def SlackUse.reported (u : SlackUse) (r : SlackReport) : SlackUse where
  limiter :=
    match webhook, r.world.str r.error, r.limiterRaises with
    | some _, .ok _, none => u.limiter.pinged offset r.times
    | _, _, _ => u.limiter
  handled := u.handled ++
    [(r, ((u.worldOf offset isoformat r).handle (attemptSettings webhook) r.error).1)]

variable {N : Type} [PyFloat N] (fromTimestamp : FromTimestamp N) (cfg : ScheduleConfig)

/-- What the wrapped function of an attempt raises in a step. -/
def attemptRaises (x : ScheduleState N × ScheduleLabel N) : Option PyException :=
  match x.2 with
  | .shouldRun now _ _ => raised? (x.1.predicate.call fromTimestamp now x.1.lastRun.snapshot).2
  | .jobEnds result finishedAt unrecorded _ =>
    raised? (x.1.lastRun.finishUnless (assessResult cfg) finishedAt unrecorded result).2
  | _ => none

/-- A step of the schedule, with its report if the attempt raises an `Exception`. A limiter
without a file does not raise. -/
inductive SlackStep : ScheduleState N × SlackUse → ScheduleLabel N × Option SlackReport →
    ScheduleState N × SlackUse → Prop where
  | silent {s s' : ScheduleState N} {u : SlackUse} {l : ScheduleLabel N}
    (hstep : s.step fromTimestamp cfg l = some s')
    (hnone : ∀ e, attemptRaises fromTimestamp cfg (s, l) = some e → e.cls ≠ .exception) :
    SlackStep (s, u) (l, none) (s', u)
  | reported {s s' : ScheduleState N} {u : SlackUse} {l : ScheduleLabel N} {r : SlackReport}
    (hstep : s.step fromTimestamp cfg l = some s') (hclass : r.error.cls = .exception)
    (hraises : RaisesInAttempt fromTimestamp cfg (u.worldOf offset isoformat r) webhook r.error
      (s, l)) (hclock : u.limiter.clock ≤ r.times.now)
    (hpath : r.limiterRaises ≠ none → u.limiter.limiter.path = true) :
    SlackStep (s, u) (l, some r) (s', u.reported offset isoformat webhook r)

abbrev SlackRun : ScheduleState N × SlackUse →
    List ((ScheduleState N × SlackUse) × (ScheduleLabel N × Option SlackReport)) →
    ScheduleState N × SlackUse → Prop :=
  Execution (SlackStep offset isoformat webhook fromTimestamp cfg)

end Reports

/-! ## What a report does -/

def SlackEffect.isPost : SlackEffect → Bool
  | .post _ _ => true
  | _ => false

/-- The warning that stands for a post. -/
def notPosting (timestamp : String) : SlackEffect :=
  .warning ("Not posting to Slack to avoid hitting rate limits. " ++ "Last post was at " ++
    timestamp ++ ".")

/-- The line for the log. -/
def logLine (e : PyException) (text : String) : SlackEffect :=
  .error (e.typeName ++ ": " ++ text)

/-- The times of the reports that went to Slack. -/
def postTimes (handled : List (SlackReport × List SlackEffect)) : List PingTimes :=
  (handled.filter fun h => h.2.any SlackEffect.isPost).map fun h => h.1.times

section OneReport
variable {offset : UtcOffset} {isoformat : Datetime → String} {url : String} {u : SlackUse}
  {r : SlackReport}

/-- Once the line for the log is written, the message for Slack can be made too. -/
theorem exists_errorToSlack {w : SlackWorld} {e : PyException} {text : String}
    (h : w.str e = .ok text) : ∃ data, w.errorToSlack e = .ok data := by
  unfold SlackWorld.errorToSlack
  rw [h]
  exact ⟨_, rfl⟩

theorem post_mem_postError {w : SlackWorld} {e : PyException} {text : String}
    (h : w.str e = .ok text) : ∃ data, .post url data ∈ (w.postError url e).1 := by
  obtain ⟨data, hdata⟩ := exists_errorToSlack h
  have htry : .post url data ∈ (w.tryPost url e).1 := by
    simp [SlackWorld.tryPost, hdata]
  refine ⟨data, ?_⟩
  unfold SlackWorld.postError
  generalize w.tryPost url e = part at htry ⊢
  obtain ⟨effects, raised⟩ := part
  cases raised with
  | none => exact htry
  | some x =>
    dsimp only
    split
    · exact List.mem_append_left _ htry
    · exact htry

/-- The handler, its line for the log being written. -/
theorem handle_of_logged {w : SlackWorld} {e : PyException} {text : String}
    (h : w.str e = .ok text) (webhook : Option String) :
    (w.handle (attemptSettings webhook) e).1 =
      logLine e text :: (w.report webhook e).1 := by
  unfold SlackWorld.handle SlackWorld.logException
  rw [h]
  rfl

/-- A call that is refused leaves the limiter with the time it counts from. -/
theorem timestamp_of_refused {l : RateLimiter} {mtime : Option Int} {c : PingTimes}
    (h : (l.pingIfReady offset mtime c).1 = false) :
    (l.pingIfReady offset mtime c).2.1.timestamp = l.recorded offset mtime := by
  unfold RateLimiter.pingIfReady at h ⊢
  dsimp only at h ⊢
  split at h
  · cases h
  · rename_i hrefused
    rw [if_neg hrefused]
    rfl

/-- **What a report does**: it posts with the limiter's consent and warns without. -/
theorem handled_spec (offset : UtcOffset) (isoformat : Datetime → String) (url : String)
    (u : SlackUse) (h : r.AsksLimiter) :
    (((u.worldOf offset isoformat r).handle (attemptSettings (some url)) r.error).1.any
        SlackEffect.isPost = (u.limiter.limiter.pingIfReady offset u.limiter.mtime r.times).1) ∧
    ((u.limiter.limiter.pingIfReady offset u.limiter.mtime r.times).1 = false →
      notPosting (isoformat (u.limiter.limiter.recorded offset u.limiter.mtime)) ∈
        ((u.worldOf offset isoformat r).handle (attemptSettings (some url)) r.error).1) := by
  obtain ⟨⟨text, htext⟩, hanswers⟩ := h
  have hstr : (u.worldOf offset isoformat r).str r.error = .ok text := htext
  have hworld : (u.worldOf offset isoformat r).pingIfReady =
      .ok (u.limiter.limiter.pingIfReady offset u.limiter.mtime r.times).1 := by
    simp only [SlackUse.worldOf, SlackWorld.limitedBy, hanswers]
  rw [handle_of_logged hstr]
  cases hready : (u.limiter.limiter.pingIfReady offset u.limiter.mtime r.times).1 with
  | true =>
    have hping : (u.worldOf offset isoformat r).pingIfReady = .ok true := by
      rw [hworld, hready]
    have hreport : ((u.worldOf offset isoformat r).report (some url) r.error).1 =
        ((u.worldOf offset isoformat r).postError url r.error).1 := by
      simp only [SlackWorld.report, hping]
    obtain ⟨data, hdata⟩ : ∃ data, .post url data ∈
        ((u.worldOf offset isoformat r).postError url r.error).1 := post_mem_postError hstr
    refine ⟨?_, nofun⟩
    rw [hreport, List.any_eq_true]
    exact ⟨_, .tail _ hdata, rfl⟩
  | false =>
    have hping : (u.worldOf offset isoformat r).pingIfReady = .ok false := by
      rw [hworld, hready]
    have htimestamp : (u.worldOf offset isoformat r).timestamp =
        .ok (isoformat (u.limiter.limiter.recorded offset u.limiter.mtime)) :=
      congrArg (fun t => Except.ok (isoformat t)) (timestamp_of_refused hready)
    have hreport : ((u.worldOf offset isoformat r).report (some url) r.error).1 =
        [notPosting (isoformat (u.limiter.limiter.recorded offset u.limiter.mtime))] := by
      simp only [SlackWorld.report, hping, htimestamp]
      rfl
    rw [hreport]
    exact ⟨rfl, fun _ => .tail _ (.head _)⟩

/-- A report whose line for the log cannot be made does nothing. -/
theorem handled_of_not_logged {w : SlackWorld} {e : PyException} {webhook : Option String}
    (h : ¬ ∃ text, w.str e = .ok text) : (w.handle (attemptSettings webhook) e).1 = [] := by
  unfold SlackWorld.handle SlackWorld.logException
  cases hs : w.str e with
  | ok text => exact absurd ⟨text, hs⟩ h
  | error x => rfl

/-- A report whose limiter raises leaves its line in the log. -/
theorem handled_of_raises {offset : UtcOffset} {isoformat : Datetime → String} {u : SlackUse}
    {x : OrdinaryException} {text : String} (h : r.world.str r.error = .ok text)
    (hraises : r.limiterRaises = some x) (url : String) :
    ((u.worldOf offset isoformat r).handle (attemptSettings (some url)) r.error).1 =
      [logLine r.error text] := by
  have hstr : (u.worldOf offset isoformat r).str r.error = .ok text := h
  have hping : (u.worldOf offset isoformat r).pingIfReady = .error x := by
    simp only [SlackUse.worldOf, SlackWorld.limitedBy, hraises]
  rw [handle_of_logged hstr, SlackWorld.report, hping]

end OneReport

/-! ## Runs -/

theorem postTimes_concat (handled : List (SlackReport × List SlackEffect)) (r : SlackReport)
    (effects : List SlackEffect) :
    postTimes (handled ++ [(r, effects)]) =
      postTimes handled ++ if effects.any SlackEffect.isPost then [r.times] else [] := by
  unfold postTimes
  rw [List.filter_append, List.map_append]
  cases hp : effects.any SlackEffect.isPost <;> simp [hp]

/-- The local time from which the limiter counts: that of the last post, or the one it had at
the start. -/
def countsFrom (offset : UtcOffset) (start : Datetime) (posts : List PingTimes) : Datetime :=
  match posts.getLast? with
  | some last => offset.localTime last.touched
  | none => start

/-- Why a report is not posted: its line for the log cannot be made; or the limiter raises behind
it; or the report is too early by the local times, and has warned. -/
inductive NotPosted (offset : UtcOffset) (isoformat : Datetime → String) (period : Timedelta)
    (start : Datetime) (before : List (SlackReport × List SlackEffect)) (r : SlackReport)
    (effects : List SlackEffect) : Prop where
  | silent (h : ¬ r.Logged) (heffects : effects = [])
  | limiterRaises (h : r.limiterRaises ≠ none) {text : String}
      (htext : r.world.str r.error = .ok text) (heffects : effects = [logLine r.error text])
  | keptBack
      (h : offset.localTime r.times.now - countsFrom offset start (postTimes before) < period)
      (hwarns : notPosting (isoformat (countsFrom offset start (postTimes before))) ∈ effects)

section Runs
variable {offset : UtcOffset} {isoformat : Datetime → String} {url : String}
  {period : Timedelta} {start : Datetime} {u : SlackUse} {r : SlackReport}

/-- **The invariant**: the limiter has answered `True` for the posts and for nothing else. -/
structure SlackUse.Limited (offset : UtcOffset) (isoformat : Datetime → String)
    (period : Timedelta) (start : Datetime) (u : SlackUse) : Prop where
  counts : u.limiter.Counts offset period
  recorded : u.limiter.limiter.recorded offset u.limiter.mtime =
    countsFrom offset start u.limiter.answers
  answers : u.limiter.answers = postTimes u.handled
  notPosted : ∀ before r effects after, u.handled = before ++ (r, effects) :: after →
    effects.any SlackEffect.isPost = false →
      NotPosted offset isoformat period start before r effects

/-- One more report: those before it stand as they are. -/
theorem notPosted_concat (h : u.Limited offset isoformat period start)
    {effects' : List SlackEffect} {r' : SlackReport}
    (hlast : effects'.any SlackEffect.isPost = false →
      NotPosted offset isoformat period start u.handled r' effects') :
    ∀ before r effects after, u.handled ++ [(r', effects')] = before ++ (r, effects) :: after →
      effects.any SlackEffect.isPost = false →
        NotPosted offset isoformat period start before r effects := by
  intro before r effects after heq hnone
  rcases List.eq_nil_or_concat after with rfl | ⟨after, x, rfl⟩
  · obtain ⟨rfl, hx⟩ := List.append_inj' heq rfl
    cases hx
    exact hlast hnone
  · rw [List.concat_eq_append, ← List.cons_append, ← List.append_assoc] at heq
    exact h.notPosted before r effects after (List.append_inj' heq rfl).1 hnone

theorem limited_of_asks (url : String) (h : u.Limited offset isoformat period start)
    (hasks : r.AsksLimiter) :
    (u.reported offset isoformat (some url) r).Limited offset isoformat period start ∧
      (PeriodApart period (postTimes (u.reported offset isoformat (some url) r).handled) ↔
        PeriodApart period (postTimes u.handled) ∧ ¬ u.limiter.Hastened offset r.times) := by
  obtain ⟨hposted, hkept⟩ := handled_spec offset isoformat url u hasks
  obtain ⟨hcounts, hapart⟩ := periodApart_pinged (c := r.times) h.counts
  obtain ⟨hready, hperiod, hrecorded⟩ :=
    u.limiter.limiter.pingIfReady_spec offset u.limiter.mtime r.times
  obtain ⟨⟨text, htext⟩, hnone⟩ := hasks
  have hlimiter : (u.reported offset isoformat (some url) r).limiter =
      u.limiter.pinged offset r.times := by
    simp only [SlackUse.reported, htext, hnone]
  have hhandled : (u.reported offset isoformat (some url) r).handled = u.handled ++ [(r,
      ((u.worldOf offset isoformat r).handle (attemptSettings (some url)) r.error).1)] := rfl
  generalize ((u.worldOf offset isoformat r).handle (attemptSettings (some url)) r.error).1 =
    effects at hposted hkept hhandled
  have hanswers : (u.limiter.pinged offset r.times).answers =
      postTimes (u.handled ++ [(r, effects)]) := by
    rw [postTimes_concat, hposted, ← h.answers]
    cases hr : (u.limiter.limiter.pingIfReady offset u.limiter.mtime r.times).1 <;>
      simp [RateLimiterUse.pinged, hr]
  refine ⟨⟨?_, ?_, ?_, ?_⟩, ?_⟩
  · rw [hlimiter]
    exact hcounts
  · rw [hlimiter, hanswers, postTimes_concat, hposted, ← h.answers]
    refine hrecorded.trans ?_
    cases (u.limiter.limiter.pingIfReady offset u.limiter.mtime r.times).1 with
    | true => simp [countsFrom]
    | false => simp [h.recorded]
  · rw [hlimiter, hhandled, hanswers]
  · rw [hhandled]
    refine notPosted_concat h ?_
    intro hunposted
    have hrefused := hposted.symm.trans hunposted
    have hfrom : u.limiter.limiter.recorded offset u.limiter.mtime =
        countsFrom offset start (postTimes u.handled) := by
      rw [h.recorded, h.answers]
    refine .keptBack ?_ (hfrom ▸ hkept hrefused)
    rw [← hfrom]
    by_contra hlate
    rw [hready.mpr] at hrefused
    · cases hrefused
    · rw [h.counts.minimumPeriod]
      exact Int.not_lt.mp hlate
  · rw [hhandled, ← hanswers, hapart, h.answers]

/-- A report that gets no answer from the limiter leaves it as it is, and posts nothing. -/
theorem limited_of_not_asks (url : String) (h : u.Limited offset isoformat period start)
    (hasks : ¬ r.AsksLimiter) :
    (u.reported offset isoformat (some url) r).Limited offset isoformat period start ∧
      postTimes (u.reported offset isoformat (some url) r).handled = postTimes u.handled := by
  have hlimiter : (u.reported offset isoformat (some url) r).limiter = u.limiter := by
    unfold SlackUse.reported
    dsimp only
    split
    · rename_i text htext hnone
      exact absurd ⟨⟨_, htext⟩, hnone⟩ hasks
    · rfl
  have hhandled : (u.reported offset isoformat (some url) r).handled = u.handled ++ [(r,
      ((u.worldOf offset isoformat r).handle (attemptSettings (some url)) r.error).1)] := rfl
  have hunposted : ((u.worldOf offset isoformat r).handle (attemptSettings (some url))
        r.error).1.any SlackEffect.isPost = false ∧
      NotPosted offset isoformat period start u.handled r
        ((u.worldOf offset isoformat r).handle (attemptSettings (some url)) r.error).1 := by
    by_cases hlogged : r.Logged
    · obtain ⟨text, htext⟩ := hlogged
      obtain ⟨x, hx⟩ : ∃ x, r.limiterRaises = some x :=
        Option.ne_none_iff_exists'.mp fun hnone => hasks ⟨⟨text, htext⟩, hnone⟩
      rw [handled_of_raises htext hx]
      exact ⟨rfl, .limiterRaises (by simp [hx]) htext rfl⟩
    · have hsilent : ¬ ∃ text, (u.worldOf offset isoformat r).str r.error = .ok text := hlogged
      rw [handled_of_not_logged hsilent]
      exact ⟨rfl, .silent hlogged rfl⟩
  generalize ((u.worldOf offset isoformat r).handle (attemptSettings (some url)) r.error).1 =
    effects at hhandled hunposted
  obtain ⟨hnone, hwhy⟩ := hunposted
  have hposts : postTimes (u.handled ++ [(r, effects)]) = postTimes u.handled := by
    rw [postTimes_concat, hnone]
    exact List.append_nil _
  refine ⟨⟨?_, ?_, ?_, ?_⟩, ?_⟩
  · rw [hlimiter]
    exact h.counts
  · rw [hlimiter]
    exact h.recorded
  · rw [hlimiter, hhandled, hposts]
    exact h.answers
  · rw [hhandled]
    exact notPosted_concat h fun _ => hwhy
  · rw [hhandled, hposts]

variable {N : Type} [PyFloat N] {fromTimestamp : FromTimestamp N} {cfg : ScheduleConfig}

/-- Before the first report. -/
def SlackUse.initial (limiter : RateLimiter) (mtime : Option Int) (clock : Int) : SlackUse :=
  ⟨⟨limiter, mtime, clock, []⟩, []⟩

end Runs

/-- The steps, without a report. -/
def unreported {N : Type} (u : SlackUse) (steps : List (ScheduleState N × ScheduleLabel N)) :
    List ((ScheduleState N × SlackUse) × (ScheduleLabel N × Option SlackReport)) :=
  steps.map fun x => ((x.1, u), (x.2, none))

/-- Steps whose attempts raise nothing need no report. -/
theorem SlackRun.silent {N : Type} [PyFloat N] {offset : UtcOffset}
    {isoformat : Datetime → String} {webhook : Option String} {fromTimestamp : FromTimestamp N}
    {cfg : ScheduleConfig} {s s' : ScheduleState N} {u : SlackUse}
    {steps : List (ScheduleState N × ScheduleLabel N)}
    (h : ScheduleRun fromTimestamp cfg s steps s')
    (hquiet : (steps.all fun x => (attemptRaises fromTimestamp cfg x).isNone) = true) :
    SlackRun offset isoformat webhook fromTimestamp cfg (s, u)
      (unreported u steps) (s', u) := by
  induction h with
  | refl => exact .refl
  | snoc _ hl ih =>
    rw [List.all_append, Bool.and_eq_true] at hquiet
    rw [unreported, List.map_append]
    refine .snoc (ih hquiet.1) (.silent hl ?_)
    intro e he
    have hnone := Option.isNone_iff_eq_none.mp (by simpa using hquiet.2)
    rw [hnone] at he
    cases he

end SchedulingUtil
