import SchedulingUtil.LastRunWrapper
import SchedulingUtil.SendErrorsToSlack

/-! # What an attempt reports

An attempt of `schedule` reports to the health check, to the history and, through
`send_errors_to_slack`, to Slack. What the code asks of the object that the job returned,
or of the exception it raised, may itself raise. The loop is left out: attempts follow
each other in any way, with writes of other processes in between. -/
namespace SchedulingUtil
open Lib

/-- `assess_return_value` is called twice: by `hc_func` for the pings, and by
`assess_result` for the history. -/
inductive Asking where
  | pings
  | record
  deriving DecidableEq

/-- What is asked of a returned object: whether it is `None`, each time whether it equals a
string, and its text in an f-string, and once its `str`. Nothing makes the answers of the
two times the same. -/
structure ReturnedObject where
  isNone : Bool
  eq : Asking → String → Except OrdinaryException Bool
  format : Asking → Except OrdinaryException String
  str : Except OrdinaryException String

/-- The text of an exception in an f-string. -/
abbrev FormatException := PyException → Except OrdinaryException String

/-- What is raised, as an exception like any other. -/
def ordinary {α : Type} : Except OrdinaryException α → Except PyException α :=
  Except.mapError Subtype.val

/-- `assess_return_value`. -/
def ReturnedObject.assess (cfg : ScheduleConfig) (asking : Asking) (returned : ReturnedObject) :
    Except OrdinaryException (Outcome × String) := do
  if returned.isNone then return (.success, "")
  if ← returned.eq asking "success" then return (.success, "")
  if ← returned.eq asking "failure" then return (.failure, "")
  if ← returned.eq asking "neutral" then return (.neutral, "")
  return (.failure,
    "Unexpected result from `" ++ cfg.name ++ "`: `" ++ (← returned.format asking) ++ "`")

/-- `assess_result`. -/
def assessObject (cfg : ScheduleConfig) (format : FormatException) : AssessResult ReturnedObject
  | _, some raised => (ordinary (format raised)).map fun text =>
    (.failure, "Raised `" ++ raised.typeName ++ "`: " ++ text)
  | some returned, none => ordinary (returned.assess cfg .record)
  | none, none => .ok (.success, "")

/-- The ping for an outcome, with a check. -/
def Outcome.pings : Outcome → List Ping
  | .success => [.success]
  | .failure => [.failure]
  | .neutral => []

/-- `hc_func` from the job's end on: the pings behind it, and how it ends. The check's
context sends a failure ping for every exception. -/
def hcFunc (cfg : ScheduleConfig) :
    JobResult ReturnedObject → List Ping × JobResult ReturnedObject
  | .raised e => (if cfg.check then [.failure] else [], .raised e)
  | .returned returned =>
    match returned.assess cfg .pings with
    | .error x => (if cfg.check then [.failure] else [], .raised x)
    | .ok (outcome, _) => (if cfg.check then outcome.pings else [], .returned returned)

inductive AttemptReport (N : Type) where
  | appended (e : LastRunHistoryEntry N)
  | ping (p : Ping)
  | called
  | handled (e : PyException)

/-- `reports` are those of the attempt under way, or of the last one. -/
structure AttemptState (N : Type) where
  predicate : RunPredicate
  lastRun : LastRun N
  inJob : Bool
  reports : List (AttemptReport N)

inductive AttemptLabel (N : Type) where
  | external (file : File)
  | force
  | attempt (now : Datetime) (startedAt : N)
  | jobEnds (job : JobResult ReturnedObject) (finishedAt : N)

/-- The error handler of `send_errors_to_slack` is entered for an `Exception`. -/
def handledBy {N α : Type} : Except PyException α → List (AttemptReport N)
  | .ok _ => []
  | .error e => if e.cls = .exception then [.handled e] else []

namespace AttemptState

variable {N : Type} [PyNumber N] (fromTimestamp : FromTimestamp N) (cfg : ScheduleConfig)
  (format : FormatException)

/-- `attempt()` up to the call of the job. -/
def beginAttempt (s : AttemptState N) (now : Datetime) (startedAt : N) : AttemptState N :=
  let (predicate, decision) := s.predicate.call fromTimestamp now s.lastRun.snapshot
  let (lastRun, result) := s.lastRun.begin (fun _ _ => decision.map Prod.fst) now startedAt
  let reported := match decision with
    | .ok (_, reports) => (reports.filterMap Report.ping).map .ping
    | .error _ => []
  match result with
  | .ok true => ⟨predicate, lastRun, true, reported ++ .appended (.started ⟨startedAt⟩) ::
      (pingsBefore cfg).map .ping ++ [.called]⟩
  | .ok false => ⟨predicate, lastRun, false, reported⟩
  | .error e => ⟨predicate, lastRun, false, reported ++ handledBy (.error e : Except _ Unit)⟩

/-- `attempt()` from the job's end on. -/
def endAttempt (s : AttemptState N) (job : JobResult ReturnedObject) (finishedAt : N) :
    AttemptState N :=
  let (pings, result) := hcFunc cfg job
  let concluded := s.lastRun.conclude (fun returned => ordinary returned.str)
    (assessObject cfg format) finishedAt result
  { s with
    lastRun := concluded.lastRun
    inJob := false
    reports := s.reports ++ pings.map .ping ++
      (concluded.recorded.map fun finished => .appended (.finished finished)).toList ++
      handledBy concluded.result }

def step (s : AttemptState N) : AttemptLabel N → Option (AttemptState N)
  | .external file => some { s with lastRun := { s.lastRun with file } }
  | .force => some { s with predicate := s.predicate.forceNextReturnValue true }
  | .attempt now startedAt =>
    if s.inJob then none else some (s.beginAttempt fromTimestamp cfg now startedAt)
  | .jobEnds job finishedAt =>
    if s.inJob then some (s.endAttempt cfg format job finishedAt) else none

/-- Before the first attempt. -/
def initial (predicate : RunPredicate) (lastRun : LastRun N) : AttemptState N :=
  ⟨{ predicate with nextReturnValue := none }, lastRun, false, []⟩

end AttemptState

/-- A run of attempts, in the order in which they happen. -/
abbrev AttemptRun {N : Type} [PyNumber N] (fromTimestamp : FromTimestamp N) (cfg : ScheduleConfig)
    (format : FormatException) :
    AttemptState N → List (AttemptState N × AttemptLabel N) → AttemptState N → Prop :=
  Execution fun s l s' => s.step fromTimestamp cfg format l = some s'

/-! ## The channels -/

def AttemptReport.ping? {N : Type} : AttemptReport N → Option Ping
  | .ping p => some p
  | _ => none

def AttemptReport.entry? {N : Type} : AttemptReport N → Option (LastRunHistoryEntry N)
  | .appended e => some e
  | _ => none

def pingsOf {N : Type} (reports : List (AttemptReport N)) : List Ping :=
  reports.filterMap AttemptReport.ping?

def recordOf {N : Type} (reports : List (AttemptReport N)) : List (LastRunHistoryEntry N) :=
  reports.filterMap AttemptReport.entry?

/-- The README's table of outcomes and the notes below it, for the history. -/
inductive ReadmeOutcome : JobResult ReturnedObject → Outcome → Prop where
  | isNone {returned : ReturnedObject} (h : returned.isNone = true) :
      ReadmeOutcome (.returned returned) .success
  | success {returned : ReturnedObject} (h : returned.eq .record "success" = .ok true) :
      ReadmeOutcome (.returned returned) .success
  | neutral {returned : ReturnedObject} (h : returned.eq .record "neutral" = .ok true) :
      ReadmeOutcome (.returned returned) .neutral
  | failure {returned : ReturnedObject} (h : returned.eq .record "failure" = .ok true) :
      ReadmeOutcome (.returned returned) .failure
  | other {returned : ReturnedObject} (hnone : returned.isNone = false)
      (h : ∀ literal ∈ ["success", "neutral", "failure"], returned.eq .record literal ≠ .ok true) :
      ReadmeOutcome (.returned returned) .failure
  | raised (e : PyException) : ReadmeOutcome (.raised e) .failure

/-- Behind an attempt that has called the job, `before` being the state in which the
job ended: one `started` and one `finished` entry with the outcome of the README, the
pings of this outcome, and the error handler entered for an exception of the job only. -/
structure ChannelsAgree {N : Type} [PyNumber N] (cfg : ScheduleConfig)
    (job : JobResult ReturnedObject) (before after : AttemptState N) : Prop where
  record : ∃ started finished,
    recordOf after.reports = [.started started, .finished finished] ∧
    after.lastRun.snapshot =
      (before.lastRun.snapshot ++ [LastRunHistoryEntry.finished finished]).rtake
        before.lastRun.history.maxEntries ∧
    ReadmeOutcome job finished.outcome ∧
    (cfg.check = true →
      (pingsOf after.reports).count .success = (if finished.outcome = .success then 1 else 0) ∧
      (pingsOf after.reports).count .failure = if finished.outcome = .failure then 1 else 0)
  handled : (∃ e, .handled e ∈ after.reports) ↔ ∃ e, job = .raised e ∧ e.cls = .exception

/-- What the reports ask of the job's result it answers and, where there is a check, both
times with the same outcome. -/
def Reportable (cfg : ScheduleConfig) (format : FormatException) :
    JobResult ReturnedObject → Prop
  | .returned returned =>
    (∃ pinged recorded, returned.assess cfg .pings = .ok pinged ∧
      returned.assess cfg .record = .ok recorded ∧
      (cfg.check = true → pinged.1 = recorded.1)) ∧
    ∃ text, returned.str = .ok text
  | .raised e => ∃ text, format e = .ok text

/-! ### What the reports say of each channel -/

section Channels
variable {N : Type}

@[simp] theorem pingsOf_nil : pingsOf ([] : List (AttemptReport N)) = [] := rfl

@[simp] theorem recordOf_append (rs rs' : List (AttemptReport N)) :
    recordOf (rs ++ rs') = recordOf rs ++ recordOf rs' := List.filterMap_append

@[simp] theorem pingsOf_append (rs rs' : List (AttemptReport N)) :
    pingsOf (rs ++ rs') = pingsOf rs ++ pingsOf rs' := List.filterMap_append

@[simp] theorem recordOf_pings (ps : List Ping) :
    recordOf (ps.map AttemptReport.ping : List (AttemptReport N)) = [] := by
  rw [recordOf, List.filterMap_map]
  exact List.filterMap_eq_nil_iff.mpr fun _ _ => rfl

@[simp] theorem pingsOf_pings (ps : List Ping) :
    pingsOf (ps.map AttemptReport.ping : List (AttemptReport N)) = ps := by
  rw [pingsOf, List.filterMap_map]
  exact List.filterMap_some

@[simp] theorem recordOf_handledBy {α : Type} (r : Except PyException α) :
    recordOf (handledBy r : List (AttemptReport N)) = [] := by
  unfold handledBy
  split
  · rfl
  · split <;> rfl

@[simp] theorem pingsOf_handledBy {α : Type} (r : Except PyException α) :
    pingsOf (handledBy r : List (AttemptReport N)) = [] := by
  unfold handledBy
  split
  · rfl
  · split <;> rfl

/-- The handler is entered for what the job raised. -/
def handledOf : JobResult ReturnedObject → List (AttemptReport N)
  | .returned _ => []
  | .raised e => handledBy (.error e : Except PyException Unit)

theorem mem_handledOf {job : JobResult ReturnedObject} {e : PyException} :
    .handled e ∈ (handledOf job : List (AttemptReport N)) ↔
      job = .raised e ∧ e.cls = .exception := by
  cases job with
  | returned returned => simp [handledOf]
  | raised x =>
    by_cases hx : x.cls = .exception
    · simp only [handledOf, handledBy, hx, if_true, List.mem_singleton, AttemptReport.handled.injEq,
        JobResult.raised.injEq]
      constructor
      · rintro rfl
        exact ⟨rfl, hx⟩
      · intro h
        exact h.1.symm
    · simp only [handledOf, handledBy, hx, if_false, List.not_mem_nil, JobResult.raised.injEq,
        false_iff]
      rintro ⟨rfl, he⟩
      exact hx he

@[simp] theorem recordOf_handledOf (job : JobResult ReturnedObject) :
    recordOf (handledOf job : List (AttemptReport N)) = [] := by
  cases job with
  | returned returned => rfl
  | raised e => exact recordOf_handledBy (.error e : Except PyException Unit)

@[simp] theorem pingsOf_handledOf (job : JobResult ReturnedObject) :
    pingsOf (handledOf job : List (AttemptReport N)) = [] := by
  cases job with
  | returned returned => rfl
  | raised e => exact pingsOf_handledBy (.error e : Except PyException Unit)

/-- What is reported before the job is called. -/
def calledReports (cfg : ScheduleConfig) (started : LastRunAttemptStarted N) :
    List (AttemptReport N) :=
  .appended (.started started) :: (pingsBefore cfg).map .ping ++ [.called]

@[simp] theorem recordOf_calledReports (cfg : ScheduleConfig) (s : LastRunAttemptStarted N) :
    recordOf (calledReports cfg s) = [.started s] := by
  unfold calledReports pingsBefore
  split <;> rfl

@[simp] theorem pingsOf_calledReports (cfg : ScheduleConfig) (s : LastRunAttemptStarted N) :
    pingsOf (calledReports cfg s) = pingsBefore cfg := by
  unfold calledReports pingsBefore
  split <;> rfl

@[simp] theorem not_mem_calledReports (cfg : ScheduleConfig) (s : LastRunAttemptStarted N)
    (e : PyException) : .handled e ∉ calledReports cfg s := by simp [calledReports]

@[simp] theorem recordOf_appended (e : LastRunHistoryEntry N) (rs : List (AttemptReport N)) :
    recordOf (.appended e :: rs) = e :: recordOf rs := rfl

@[simp] theorem pingsOf_appended (e : LastRunHistoryEntry N) (rs : List (AttemptReport N)) :
    pingsOf (.appended e :: rs) = pingsOf rs := rfl

@[simp] theorem pingsOf_ping (p : Ping) (rs : List (AttemptReport N)) :
    pingsOf (.ping p :: rs) = p :: pingsOf rs := rfl

end Channels

/-! ## The parts of an attempt -/

section Parts
variable {cfg : ScheduleConfig} {format : FormatException}

/-- The code follows the README, where it gets to an outcome. -/
theorem readmeOutcome_of_assess {returned : ReturnedObject} {outcome : Outcome} {details : String}
    (h : returned.assess cfg .record = .ok (outcome, details)) :
    ReadmeOutcome (.returned returned) outcome := by
  unfold ReturnedObject.assess at h
  cases hn : returned.isNone with
  | true =>
    simp only [hn, if_true] at h
    cases h
    exact .isNone hn
  | false =>
    simp only [hn] at h
    cases hs : returned.eq .record "success" with
    | error x => rw [hs] at h; cases h
    | ok b =>
      cases b with
      | true => rw [hs] at h; cases h; exact .success hs
      | false =>
        rw [hs] at h
        cases hf : returned.eq .record "failure" with
        | error x => rw [hf] at h; cases h
        | ok b =>
          cases b with
          | true => rw [hf] at h; cases h; exact .failure hf
          | false =>
            rw [hf] at h
            cases hu : returned.eq .record "neutral" with
            | error x => rw [hu] at h; cases h
            | ok b =>
              cases b with
              | true => rw [hu] at h; cases h; exact .neutral hu
              | false =>
                rw [hu] at h
                cases ht : returned.format .record with
                | error x => rw [ht] at h; cases h
                | ok text =>
                  rw [ht] at h
                  cases h
                  refine .other hn ?_
                  intro literal hl
                  simp only [List.mem_cons, List.not_mem_nil, or_false] at hl
                  rcases hl with rfl | rfl | rfl
                  · simp [hs]
                  · simp [hu]
                  · simp [hf]

theorem RunPredicate.reports_of_true {N : Type} [PyNumber N] {p : RunPredicate}
    {fromTimestamp : FromTimestamp N} {now : Datetime} {entries : List (LastRunHistoryEntry N)}
    {reports : List Report} (h : p.predicate fromTimestamp now entries = .ok (true, reports)) :
    reports = [] := by
  have helapsed (e : LastRunAttemptFinished N) (period : Timedelta)
      (h : (do return (decide (now - (← fromTimestamp e.time) > period), ([] : List Report))) =
        Except.ok (true, reports)) : reports = [] := by
    cases hf : fromTimestamp e.time with
    | error x => rw [hf] at h; cases h
    | ok finish =>
      rw [hf] at h
      exact (Prod.mk.inj (Except.ok.inj h)).2.symm
  simp only [predicate, lastFinished_eq, lastSuccess, lastWithOutcome_eq, ok_bind] at h
  split at h
  · cases h
    rfl
  · split at h
    · exact helapsed _ _ h
    split at h
    · exact helapsed _ _ h
    split at h
    · exact helapsed _ _ h
    split at h
    · cases h
    · cases h
    · exact helapsed _ _ h
    · cases h

/-- A decision to run is reported nowhere. -/
theorem RunPredicate.call_reports_of_true {N : Type} [PyNumber N] {p : RunPredicate}
    {fromTimestamp : FromTimestamp N} {now : Datetime} {entries : List (LastRunHistoryEntry N)}
    {reports : List Report} (h : (p.call fromTimestamp now entries).2 = .ok (true, reports)) :
    reports = [] := by
  unfold call at h
  split at h
  · exact (Prod.mk.inj (Except.ok.inj h)).2.symm
  · exact reports_of_true h

variable {N : Type} [PyNumber N] {s : AttemptState N}

/-- The end of an attempt whose result is assessed both times and has a `str`: the pings
are those of the first outcome, the entry has the second. -/
theorem endAttempt_of_assessed {returned : ReturnedObject} (finishedAt : N)
    {pinged recorded : Outcome × String} (hpinged : returned.assess cfg .pings = .ok pinged)
    (hrecorded : returned.assess cfg .record = .ok recorded) {text : String}
    (hstr : returned.str = .ok text) :
    s.endAttempt cfg format (.returned returned) finishedAt =
      { s with
        lastRun := s.lastRun.append (.finished ⟨finishedAt, recorded.1, recorded.2⟩)
        inJob := false
        reports := s.reports ++ (if cfg.check then pinged.1.pings else []).map .ping ++
          [.appended (.finished ⟨finishedAt, recorded.1, recorded.2⟩)] } := by
  have he : (JobResult.returned returned).evaluated (fun r => ordinary r.str)
      (assessObject cfg format) = .ok (recorded.1, recorded.2) := by
    simp only [JobResult.evaluated, hstr, assessObject, hrecorded]
    rfl
  simp only [AttemptState.endAttempt, hcFunc, hpinged, LastRun.conclude_of_ok he]
  simp [handledBy, JobResult.answer]

/-- The end of an attempt whose result can be reported. -/
theorem endAttempt_of_reportable {job : JobResult ReturnedObject} (finishedAt : N)
    (h : Reportable cfg format job) :
    ∃ outcome details, ReadmeOutcome job outcome ∧
      s.endAttempt cfg format job finishedAt =
        { s with
          lastRun := s.lastRun.append (.finished ⟨finishedAt, outcome, details⟩)
          inJob := false
          reports := s.reports ++ (if cfg.check then outcome.pings else []).map .ping ++
            [.appended (.finished ⟨finishedAt, outcome, details⟩)] ++ handledOf job } := by
  cases job with
  | returned returned =>
    obtain ⟨⟨pinged, recorded, hpinged, hrecorded, hagree⟩, text, hstr⟩ := h
    refine ⟨recorded.1, recorded.2, readmeOutcome_of_assess hrecorded, ?_⟩
    rw [endAttempt_of_assessed finishedAt hpinged hrecorded hstr]
    cases hcheck : cfg.check with
    | false => simp [handledOf]
    | true => simp [handledOf, hagree hcheck]
  | raised e =>
    obtain ⟨text, ht⟩ := h
    refine ⟨.failure, "Raised `" ++ e.typeName ++ "`: " ++ text, .raised e, ?_⟩
    have he : (JobResult.raised e).evaluated (fun r => ordinary r.str)
        (assessObject cfg format) =
          .ok (Outcome.failure, "Raised `" ++ e.typeName ++ "`: " ++ text) := by
      simp only [JobResult.evaluated, assessObject, ht]
      rfl
    simp only [AttemptState.endAttempt, hcFunc, LastRun.conclude_of_ok he]
    rfl

/-- Nothing that is asked of the returned object raises. -/
def ReturnedObject.Answers (cfg : ScheduleConfig) (returned : ReturnedObject) : Prop :=
  (∀ asking, ∃ assessed, returned.assess cfg asking = .ok assessed) ∧
    ∃ text, returned.str = .ok text

/-- What raises behind the job is an `Exception`, and gets to the handler. -/
theorem endAttempt_handled {returned : ReturnedObject} (finishedAt : N)
    (h : ¬ returned.Answers cfg) :
    ∃ e, .handled e ∈ (s.endAttempt cfg format (.returned returned) finishedAt).reports := by
  have hunbound : (PyException.unboundLocalError "outcome").cls = .exception := rfl
  cases ha : returned.assess cfg .pings with
  | error x =>
    cases he : (JobResult.raised x.val).evaluated (fun r => ordinary r.str)
        (assessObject cfg format) with
    | error y =>
      simp [AttemptState.endAttempt, hcFunc, ha, LastRun.conclude_of_error he, handledBy, hunbound]
    | ok assessed =>
      obtain ⟨outcome, details⟩ := assessed
      have ho : outcome = .failure := by
        simp only [JobResult.evaluated, assessObject] at he
        cases hf : format x.val <;> rw [hf] at he <;> cases he
        rfl
      simp [AttemptState.endAttempt, hcFunc, ha, LastRun.conclude_of_ok he, ho, handledBy,
        JobResult.answer, x.property]
  | ok pinged =>
    cases he : (JobResult.returned returned).evaluated (fun r => ordinary r.str)
        (assessObject cfg format) with
    | error x =>
      simp [AttemptState.endAttempt, hcFunc, ha, LastRun.conclude_of_error he, handledBy, hunbound]
    | ok recorded =>
      refine absurd ⟨?_, ?_⟩ h
      · intro asking
        cases asking with
        | pings => exact ⟨pinged, ha⟩
        | record =>
          cases hr : returned.assess cfg .record with
          | ok assessed => exact ⟨assessed, rfl⟩
          | error x =>
            cases hs : returned.str <;>
              simp only [JobResult.evaluated, assessObject, hr, hs] at he <;> cases he
      · cases hs : returned.str with
        | ok text => exact ⟨text, rfl⟩
        | error x =>
          simp only [JobResult.evaluated, hs] at he
          cases he

/-- An exception without a text: no `finished` entry. -/
theorem endAttempt_unfinished {e : PyException} (finishedAt : N)
    (h : ¬ Reportable cfg format (.raised e)) :
    recordOf (s.endAttempt cfg format (.raised e) finishedAt).reports = recordOf s.reports := by
  cases hf : format e with
  | ok text => exact absurd ⟨text, hf⟩ h
  | error x =>
    have he : (JobResult.raised e).evaluated (fun r => ordinary r.str)
        (assessObject cfg format) = .error x.val := by
      simp only [JobResult.evaluated, assessObject, hf]
      rfl
    have hping (ps : List Ping) : (ps.map AttemptReport.ping).filterMap
        (AttemptReport.entry? (N := N)) = [] := by
      rw [List.filterMap_map]
      exact List.filterMap_eq_nil_iff.mpr fun _ _ => rfl
    have hunbound : (PyException.unboundLocalError "outcome").cls = .exception := rfl
    simp [AttemptState.endAttempt, hcFunc, LastRun.conclude_of_error he, recordOf, hping,
      handledBy, hunbound, AttemptReport.entry?]

/-! ## Runs of attempts -/

variable {fromTimestamp : FromTimestamp N}

/-- What has been reported when the job is called. -/
def Called (cfg : ScheduleConfig) (s : AttemptState N) : Prop :=
  s.inJob = true → ∃ started, s.reports = calledReports cfg started

theorem called_beginAttempt (s : AttemptState N) (now : Datetime) (startedAt : N) :
    Called cfg (s.beginAttempt fromTimestamp cfg now startedAt) := by
  unfold Called AttemptState.beginAttempt LastRun.begin
  cases hd : s.predicate.call fromTimestamp now s.lastRun.snapshot with
  | mk predicate decision =>
    cases decision with
    | error e => simp [Except.map]
    | ok r =>
      obtain ⟨b, reports⟩ := r
      cases b with
      | false => simp [Except.map]
      | true =>
        intro _
        have hnil := RunPredicate.call_reports_of_true (congrArg Prod.snd hd)
        subst hnil
        exact ⟨⟨startedAt⟩, rfl⟩

theorem called_step {s s' : AttemptState N} {l : AttemptLabel N} (h : Called cfg s)
    (hstep : s.step fromTimestamp cfg format l = some s') : Called cfg s' := by
  cases l with
  | external file =>
    cases hstep
    exact h
  | force =>
    cases hstep
    exact h
  | attempt now startedAt =>
    simp only [AttemptState.step] at hstep
    split at hstep
    · cases hstep
    · cases hstep
      exact called_beginAttempt s now startedAt
  | jobEnds job finishedAt =>
    simp only [AttemptState.step] at hstep
    split at hstep
    · cases hstep
      intro hin
      cases hin
    · cases hstep

theorem called_run {predicate : RunPredicate} {lastRun : LastRun N}
    {steps : List (AttemptState N × AttemptLabel N)}
    (h : AttemptRun fromTimestamp cfg format (.initial predicate lastRun) steps s) :
    Called cfg s :=
  h.invariant (P := Called cfg) (fun _ _ _ hu hl => called_step hu hl) fun hin => by cases hin

end Parts

section Runs
variable {cfg : ScheduleConfig} {format : FormatException} {N : Type} [PyFloat N]
  {fromTimestamp : FromTimestamp N} {s : AttemptState N}

theorem channelsAgree_of_reportable (hcalled : Called cfg s) (hin : s.inJob = true)
    {job : JobResult ReturnedObject} (finishedAt : N) (h : Reportable cfg format job) :
    ChannelsAgree cfg job s (s.endAttempt cfg format job finishedAt) := by
  obtain ⟨started, hreports⟩ := hcalled hin
  obtain ⟨outcome, details, hreadme, hend⟩ := endAttempt_of_reportable (s := s) finishedAt h
  rw [hend, hreports]
  refine ⟨⟨started, ⟨finishedAt, outcome, details⟩, ?_, s.lastRun.snapshot_append _, hreadme,
    fun hcheck => ?_⟩, ?_⟩
  · simp
  · cases outcome <;> simp [hcheck, pingsBefore, Outcome.pings]
  · simp only [List.mem_append, List.mem_map, List.mem_singleton, not_mem_calledReports,
      mem_handledOf, reduceCtorEq, and_false, exists_false, false_or, or_false]

/-- Pings that are those of the recorded outcome have been sent for it. -/
theorem pinged_eq_recorded {started : LastRunAttemptStarted N}
    (hreports : s.reports = calledReports cfg started) {returned : ReturnedObject}
    (finishedAt : N) {pinged recorded : Outcome × String}
    (hpinged : returned.assess cfg .pings = .ok pinged)
    (hrecorded : returned.assess cfg .record = .ok recorded) {text : String}
    (hstr : returned.str = .ok text)
    (hagree : ChannelsAgree cfg (.returned returned) s
      (s.endAttempt cfg format (.returned returned) finishedAt))
    (hcheck : cfg.check = true) : pinged.1 = recorded.1 := by
  obtain ⟨started', finished, hrecord, -, -, hpings⟩ := hagree.record
  have hpings := hpings hcheck
  rw [endAttempt_of_assessed finishedAt hpinged hrecorded hstr] at hrecord hpings
  simp only [hreports, recordOf_append, recordOf_calledReports, recordOf_pings,
    List.append_nil] at hrecord
  obtain ⟨-, hfinished⟩ := List.cons.inj hrecord
  cases hfinished
  cases ho : pinged.1 <;> cases hr : recorded.1 <;>
    simp [hreports, hcheck, ho, hr, pingsBefore, Outcome.pings] at hpings ⊢

/-- **The channels agree exactly if the result of the job answers what is asked of it,** and
both times alike. -/
theorem channelsAgree_iff (hcalled : Called cfg s) (hin : s.inJob = true)
    (job : JobResult ReturnedObject) (finishedAt : N) :
    ChannelsAgree cfg job s (s.endAttempt cfg format job finishedAt) ↔
      Reportable cfg format job := by
  constructor
  · intro hagree
    by_contra hunreportable
    obtain ⟨started, hreports⟩ := hcalled hin
    cases job with
    | returned returned =>
      by_cases hanswers : returned.Answers cfg
      · obtain ⟨hassess, text, hstr⟩ := hanswers
        obtain ⟨pinged, hpinged⟩ := hassess .pings
        obtain ⟨recorded, hrecorded⟩ := hassess .record
        exact hunreportable ⟨⟨pinged, recorded, hpinged, hrecorded,
          pinged_eq_recorded hreports finishedAt hpinged hrecorded hstr hagree⟩, text, hstr⟩
      · obtain ⟨e, hraised, -⟩ := hagree.handled.mp (endAttempt_handled finishedAt hanswers)
        cases hraised
    | raised e =>
      obtain ⟨started', finished, hrecord, -⟩ := hagree.record
      rw [endAttempt_unfinished finishedAt hunreportable, hreports,
        recordOf_calledReports] at hrecord
      cases hrecord
  · exact channelsAgree_of_reportable hcalled hin finishedAt

/-- An attempt up to the job: a `started` entry if it calls the job, and otherwise no
entry, no start ping and no success ping. -/
structure BeginsAttempt (before after : AttemptState N) (startedAt : N) : Prop where
  called : after.inJob = true →
    recordOf after.reports = [.started ⟨startedAt⟩] ∧
    after.lastRun.snapshot = (before.lastRun.snapshot ++
      [LastRunHistoryEntry.started ⟨startedAt⟩]).rtake before.lastRun.history.maxEntries
  skipped : after.inJob = false →
    recordOf after.reports = [] ∧ .start ∉ pingsOf after.reports ∧
    .success ∉ pingsOf after.reports

omit [PyFloat N] in
theorem report_ping_ne {reports : List Report} {p : Ping}
    (h : p ∈ reports.filterMap Report.ping) : p ≠ .start ∧ p ≠ .success := by
  obtain ⟨r, -, hr⟩ := List.mem_filterMap.mp h
  cases r <;> cases hr <;> simp

theorem beginsAttempt (s : AttemptState N) (now : Datetime) (startedAt : N) :
    BeginsAttempt s (s.beginAttempt fromTimestamp cfg now startedAt) startedAt := by
  unfold AttemptState.beginAttempt LastRun.begin
  cases hd : s.predicate.call fromTimestamp now s.lastRun.snapshot with
  | mk predicate decision =>
    cases decision with
    | error e =>
      refine ⟨fun hin => by simp [Except.map] at hin, ?_⟩
      intro _
      simp [Except.map]
    | ok r =>
      obtain ⟨b, reports⟩ := r
      cases b with
      | false =>
        refine ⟨fun hin => by simp [Except.map] at hin, ?_⟩
        intro _
        simp only [Except.map, recordOf_pings, pingsOf_pings, true_and]
        exact ⟨fun h => (report_ping_ne h).1 rfl, fun h => (report_ping_ne h).2 rfl⟩
      | true =>
        refine ⟨fun _ => ⟨?_, ?_⟩, fun hin => by simp [Except.map] at hin⟩
        · have hnil := RunPredicate.call_reports_of_true (congrArg Prod.snd hd)
          subst hnil
          exact recordOf_calledReports cfg ⟨startedAt⟩
        · have happend := s.lastRun.refresh.snapshot_append (.started ⟨startedAt⟩)
          rw [s.lastRun.refresh_snapshot, s.lastRun.refresh_maxEntries] at happend
          exact happend

/-- **The three channels.** In every run of attempts, an attempt that calls the job
reports the outcome of the README to the history, the check and Slack exactly if the
job's result answers what the reports ask of it; one that does not sends neither a start
nor a success ping. -/
theorem reports_agree_iff {predicate : RunPredicate} {lastRun : LastRun N}
    {steps : List (AttemptState N × AttemptLabel N)}
    (h : AttemptRun fromTimestamp cfg format (.initial predicate lastRun) steps s) :
    (∀ now startedAt s', s.step fromTimestamp cfg format (.attempt now startedAt) = some s' →
      BeginsAttempt s s' startedAt) ∧
    ∀ job finishedAt s', s.step fromTimestamp cfg format (.jobEnds job finishedAt) = some s' →
      (ChannelsAgree cfg job s s' ↔ Reportable cfg format job) := by
  constructor
  · intro now startedAt s' hstep
    simp only [AttemptState.step] at hstep
    split at hstep
    · cases hstep
    · cases hstep
      exact beginsAttempt s now startedAt
  · intro job finishedAt s' hstep
    simp only [AttemptState.step] at hstep
    split at hstep
    · rename_i hin
      cases hstep
      exact channelsAgree_iff (called_run h) hin job finishedAt
    · cases hstep

end Runs

/-! ## The loop's attempts -/

/-- The object, for what the loop's model knows of it. -/
def Returned.object : Returned → ReturnedObject
  | .none => ⟨true, fun _ _ => .ok false, fun _ => .ok "None", .ok "None"⟩
  | .str s => ⟨false, fun _ literal => .ok (decide (s = literal)), fun _ => .ok s, .ok s⟩
  | .other text => ⟨false, fun _ _ => .ok false, fun _ => .ok text, .ok text⟩

def JobResult.object : JobResult Returned → JobResult ReturnedObject
  | .returned value => .returned value.object
  | .raised e => .raised e

/-- Every exception has a text. -/
def formatText : FormatException := fun e => .ok e.text

theorem assess_object (cfg : ScheduleConfig) (asking : Asking) (returned : Returned) :
    returned.object.assess cfg asking = .ok (assessReturnValue cfg returned) := by
  cases returned with
  | none => rfl
  | str s =>
    unfold ReturnedObject.assess assessReturnValue Returned.object
    by_cases hs : s = "success"
    · subst hs
      rfl
    by_cases hf : s = "failure"
    · subst hf
      rfl
    by_cases hn : s = "neutral"
    · subst hn
      rfl
    simp only [hs, hf, hn, if_false, decide_false]
    rfl
  | other text => rfl

theorem hcFunc_object (cfg : ScheduleConfig) (result : JobResult Returned) :
    hcFunc cfg result.object = (pingsAfter cfg result, result.object) := by
  cases result with
  | raised e => rfl
  | returned returned =>
    simp only [JobResult.object, hcFunc, assess_object, pingsAfter]
    cases (assessReturnValue cfg returned).1 <;> rfl

variable {N : Type} [PyFloat N] {fromTimestamp : FromTimestamp N} {cfg : ScheduleConfig}

theorem conclude_object (l : LastRun N) (finishedAt : N) (result : JobResult Returned) :
    (l.conclude (fun returned => ordinary returned.str) (assessObject cfg formatText) finishedAt
      result.object).lastRun = (l.finish (assessResult cfg) finishedAt result).1 := by
  cases result with
  | raised e => rfl
  | returned returned =>
    have he : (JobResult.returned returned).object.evaluated (fun r => ordinary r.str)
        (assessObject cfg formatText) = .ok (assessReturnValue cfg returned) := by
      have hstr : ∃ text, returned.object.str = .ok text := by cases returned <;> exact ⟨_, rfl⟩
      obtain ⟨text, ht⟩ := hstr
      simp only [JobResult.object, JobResult.evaluated, ht, assessObject, assess_object]
      rfl
    rw [LastRun.conclude_of_ok he]
    rfl

/-- An attempt's state, seen in the state of the loop. -/
structure Projects (s : ScheduleState N) (t : AttemptState N) : Prop where
  predicate : t.predicate = s.predicate
  lastRun : t.lastRun = s.lastRun
  inJob : t.inJob = true ↔ s.pc = .job
  pings : ∃ earlier, s.pings = earlier ++ pingsOf t.reports

omit [PyFloat N] in
/-- An attempt is left with the predicate, the history and the pings as they are. -/
theorem endAttempt_keeps (s : ScheduleState N) (raised : Option PyException) :
    (s.endAttempt raised).predicate = s.predicate ∧ (s.endAttempt raised).lastRun = s.lastRun ∧
      (s.endAttempt raised).pings = s.pings ∧ (s.endAttempt raised).pc ≠ .job := by
  cases raised with
  | none => exact ⟨rfl, rfl, rfl, by simp [ScheduleState.endAttempt]⟩
  | some e =>
    unfold ScheduleState.endAttempt ScheduleState.leave
    dsimp only
    split <;> exact ⟨rfl, rfl, rfl, by simp⟩

theorem projects_shouldRun {s : ScheduleState N} {t : AttemptState N} (h : Projects s t)
    (now : Datetime) (startedAt : N) (reporting : Option PyException) :
    Projects (s.stepShouldRun fromTimestamp cfg now startedAt reporting)
      (t.beginAttempt fromTimestamp cfg now startedAt) := by
  obtain ⟨hpredicate, hlastRun, -, -⟩ := h
  unfold ScheduleState.stepShouldRun AttemptState.beginAttempt LastRun.begin
  rw [hpredicate, hlastRun]
  generalize s.predicate.call fromTimestamp now s.lastRun.snapshot = called
  obtain ⟨predicate, decision⟩ := called
  cases decision with
  | error e =>
    obtain ⟨hpred, hlast, hpings, hpc⟩ := endAttempt_keeps
      { s with predicate, lastRun := s.lastRun.refresh, pings := s.pings ++ [] }
      (leaveErrorBoundary reporting (.error e : Except PyException Unit))
    have hhandled := pingsOf_handledBy (N := N) (.error e : Except PyException Unit)
    refine ⟨hpred.symm, hlast.symm, iff_of_false (by simp [Except.map]) hpc, s.pings, ?_⟩
    exact hpings.trans (congrArg (s.pings ++ ·) hhandled.symm)
  | ok r =>
    obtain ⟨b, reports⟩ := r
    cases b with
    | false =>
      refine ⟨rfl, rfl, iff_of_false (by simp [Except.map]) ?_, s.pings, ?_⟩
      · exact (endAttempt_keeps _ none).2.2.2
      · simp [Except.map, ScheduleState.endAttempt]
    | true =>
      refine ⟨rfl, rfl, by simp [Except.map], s.pings, ?_⟩
      have hcalled := pingsOf_calledReports cfg (⟨startedAt⟩ : LastRunAttemptStarted N)
      simp only [calledReports] at hcalled
      simp only [Except.map, pingsOf_append, pingsOf_pings, List.append_assoc, hcalled]

theorem projects_jobEnds {s : ScheduleState N} {t : AttemptState N} (h : Projects s t)
    (result : JobResult Returned) (finishedAt : N) (reporting : Option PyException) :
    Projects (s.stepJobEnds cfg result finishedAt none reporting)
      (t.endAttempt cfg formatText result.object finishedAt) := by
  obtain ⟨hpredicate, hlastRun, -, earlier, hpings⟩ := h
  have hconclude : (s.lastRun.conclude (fun returned => ordinary returned.str)
      (assessObject cfg formatText) finishedAt result.object).lastRun = _ :=
    conclude_object s.lastRun finishedAt result
  unfold ScheduleState.stepJobEnds AttemptState.endAttempt
  simp only [hcFunc_object, hlastRun, LastRun.finishUnless]
  obtain ⟨hpred, hlast, hpings', hpc⟩ := endAttempt_keeps
    { s with
      lastRun := (s.lastRun.finish (assessResult cfg) finishedAt result).1
      pings := s.pings ++ pingsAfter cfg result }
    (leaveErrorBoundary reporting (s.lastRun.finish (assessResult cfg) finishedAt result).2)
  refine ⟨hpredicate.trans hpred.symm, hconclude.trans hlast.symm,
    iff_of_false (by simp) hpc, earlier, ?_⟩
  have hrecorded (o : Option (LastRunAttemptFinished N)) : pingsOf
      (o.map fun finished => AttemptReport.appended (.finished finished)).toList = [] := by
    cases o <;> rfl
  rw [hpings', hpings]
  simp [hrecorded]

/-- **Every step of the loop is one of the attempts, or none of theirs**, but for an end that
is not recorded. -/
theorem projects_step {s s' : ScheduleState N} {l : ScheduleLabel N} {t : AttemptState N}
    (h : Projects s t) (hrecorded : l.isRecorded = true)
    (hstep : s.step fromTimestamp cfg l = some s') :
    ∃ t', (t' = t ∨ ∃ l', t.step fromTimestamp cfg formatText l' = some t') ∧ Projects s' t' := by
  have hstay (hpredicate : s'.predicate = s.predicate) (hlastRun : s'.lastRun = s.lastRun)
      (hpings : s'.pings = s.pings) (hpc : s.pc ≠ .job) (hpc' : s'.pc ≠ .job) :
      ∃ t', (t' = t ∨ ∃ l', t.step fromTimestamp cfg formatText l' = some t') ∧
        Projects s' t' := by
    refine ⟨t, .inl rfl, h.predicate.trans hpredicate.symm, h.lastRun.trans hlastRun.symm,
      iff_of_false (fun hin => hpc (h.inJob.mp hin)) hpc', ?_⟩
    rw [hpings]
    exact h.pings
  cases s.transition_of_step fromTimestamp cfg hstep with
  | request r => exact ⟨t, .inl rfl, h.predicate, h.lastRun, h.inJob, h.pings⟩
  | external file =>
    refine ⟨_, .inr ⟨.external file, rfl⟩, h.predicate, ?_, h.inJob, h.pings⟩
    rw [h.lastRun]
  | force hpc =>
    have hnot : t.inJob ≠ true := fun hin => absurd (h.inJob.mp hin) (by simp [hpc])
    obtain hm | hm : s.mode = .runNow ∨ s.mode = .normal := by cases s.mode <;> simp
    · refine ⟨_, .inr ⟨.force, rfl⟩, ?_, h.lastRun, iff_of_false hnot (by simp), h.pings⟩
      simp only [ScheduleState.forced, hm, h.predicate]
    · exact hstay (by simp only [ScheduleState.forced, hm]) rfl rfl (by simp [hpc]) (by simp)
  | shouldRun hpc now startedAt reporting =>
    have hin : t.inJob = false := by
      cases hin : t.inJob with
      | false => rfl
      | true => exact absurd (h.inJob.mp hin) (by simp [hpc])
    exact ⟨_, .inr ⟨.attempt now startedAt, by simp only [AttemptState.step, hin]; rfl⟩,
      projects_shouldRun h now startedAt reporting⟩
  | jobEnds hpc result finishedAt unrecorded reporting =>
    have hin : t.inJob = true := h.inJob.mpr hpc
    obtain rfl := Option.isNone_iff_eq_none.mp hrecorded
    exact ⟨_, .inr ⟨.jobEnds result.object finishedAt, by
      simp only [AttemptState.step, hin, if_true]⟩,
      projects_jobEnds h result finishedAt reporting⟩
  | heartbeatFails hpc e =>
    obtain ⟨hpred, hlast, hpings, hpc'⟩ := endAttempt_keeps s (some e)
    exact hstay hpred hlast hpings (by simp [hpc]) hpc'
  | stop hpc => exact hstay rfl rfl rfl (by rcases hpc with hpc | hpc <;> simp [hpc]) (by simp)
  | _ hpc => exact hstay rfl rfl rfl (by simp [hpc]) (by simp)

/-- **Every run of the loop is a run of attempts**, as long as every end is recorded. -/
theorem projects_run {predicate : RunPredicate} {lastRun : LastRun N}
    {steps : List (ScheduleState N × ScheduleLabel N)} {s : ScheduleState N}
    (h : ScheduleRun fromTimestamp cfg (.initial predicate lastRun) steps s)
    (hrecorded : ∀ x ∈ steps, x.2.isRecorded = true) :
    ∃ steps' t, AttemptRun fromTimestamp cfg formatText (.initial predicate lastRun) steps' t ∧
      Projects s t := by
  induction h with
  | refl => exact ⟨[], _, .refl, rfl, rfl, by simp [AttemptState.initial, ScheduleState.initial],
      [], rfl⟩
  | snoc _ hl ih =>
    obtain ⟨steps', t, hrun, hproj⟩ := ih fun x hx => hrecorded x (List.mem_append_left _ hx)
    obtain ⟨t', hmove, hproj'⟩ :=
      projects_step hproj (hrecorded _ (List.mem_append_right _ (.head _))) hl
    rcases hmove with rfl | ⟨l', hl'⟩
    · exact ⟨steps', t', hrun, hproj'⟩
    · exact ⟨_, t', .snoc hrun hl', hproj'⟩

/-! ### The first attempt of a job with a check -/

def checkedSchedule : ScheduleConfig := { minutelySchedule with check := true }

theorem reports_agree_on_success :
    ∃ s s', AttemptRun utcClock.fromTimestamp checkedSchedule formatText
        (.initial retryingJob (newLastRun 10))
        [(.initial retryingJob (newLastRun 10), .attempt 0 0),
          (s, .jobEnds (.returned (Returned.str "success").object) 1)] s' ∧
      ChannelsAgree checkedSchedule (.returned (Returned.str "success").object) s s' := by
  have hrun : AttemptRun utcClock.fromTimestamp checkedSchedule formatText
      (.initial retryingJob (newLastRun 10))
      [(.initial retryingJob (newLastRun 10), .attempt 0 0)] _ := .single rfl
  refine ⟨_, _, hrun.snoc rfl, ((reports_agree_iff hrun).2 _ _ _ rfl).mpr ?_⟩
  exact ⟨⟨_, _, assess_object _ _ _, assess_object _ _ _, fun _ => rfl⟩, _, rfl⟩

/-- An exception that raises for its text: the attempt stays unfinished. -/
theorem textless_exception_unrecorded :
    ∃ s s', AttemptRun utcClock.fromTimestamp checkedSchedule (fun _ => .error ⟨noText, rfl⟩)
        (.initial retryingJob (newLastRun 10))
        [(.initial retryingJob (newLastRun 10), .attempt 0 0),
          (s, .jobEnds (.raised boom) 1)] s' ∧
      ¬ ChannelsAgree checkedSchedule (.raised boom) s s' := by
  refine ⟨_, _, .cons rfl (.single rfl), ?_⟩
  intro h
  obtain ⟨started, finished, hrecord, -⟩ := h.record
  cases hrecord

end SchedulingUtil
