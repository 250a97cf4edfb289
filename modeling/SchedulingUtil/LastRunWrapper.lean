import SchedulingUtil.LastRunPolicy

/-! # `LastRun.wrap` with callbacks that raise

The wrapper with everything it calls that may raise: `should_run`, the job,
`assess_result`, `str` of a returned value, which the `else` branch takes for a
debug message, and the append of the `finished` entry. What raises between the job and the
`finally` block leaves `outcome` unassigned, and the block reads it. -/
namespace SchedulingUtil

variable {N R : Type}

/-- One call of a wrapped function, with the callbacks it was wrapped with. -/
structure WrappedCall (N R : Type) extends Call N R where
  shouldRun : ShouldRun N
  assessResult : AssessResult R
  str : R → Except PyException String

inductive WrapperEvent (N : Type) where
  | appended (e : LastRunHistoryEntry N)
  | called

/-- What the wrapper does from the job's end on: the `finished` entry it appends,
if it does, and how it is left. -/
structure Concluded (N R : Type) where
  lastRun : LastRun N
  recorded : Option (LastRunAttemptFinished N)
  result : Except PyException (Option R)

/-- A whole call, with what it does in order. -/
structure CallTrace (N R : Type) where
  lastRun : LastRun N
  events : List (WrapperEvent N)
  result : Except PyException (Option R)

/-- The values of `outcome` and `details`, unless something raises before they are
assigned. -/
def JobResult.evaluated (str : R → Except PyException String) (assessResult : AssessResult R) :
    JobResult R → Except PyException (Outcome × String)
  | .returned value => str value >>= fun _ => assessResult (some value) none
  | .raised e => assessResult none (some e)

/-- How the `try` statement is left where the `finally` block raises nothing. -/
def JobResult.answer (outcome : Outcome) : JobResult R → Except PyException (Option R)
  | .returned value => .ok (some value)
  | .raised e => if outcome = .failure then .error e else .ok none

namespace LastRun
variable [PyNumber N]

/-- The `finally` block; `leaving` is how the `try` statement is left otherwise, `failed` how
the append fails, if it does. -/
def finallyBlock (l : LastRun N) (failed : Option (FailedAppend N)) (finishedAt : N)
    (assigned : Except PyException (Outcome × String))
    (leaving : Outcome → Except PyException (Option R)) : Concluded N R :=
  match assigned, failed with
  | .error _, _ => ⟨l, none, .error (.unboundLocalError "outcome")⟩
  | .ok _, some failed => ⟨failed.lastRun, none, .error failed.raised⟩
  | .ok (outcome, details), none =>
    let finished := ⟨finishedAt, outcome, details⟩
    ⟨l.append (.finished finished), some finished, leaving outcome⟩

def concludeFailing (l : LastRun N) (failed : Option (FailedAppend N))
    (str : R → Except PyException String) (assessResult : AssessResult R) (finishedAt : N)
    (job : JobResult R) : Concluded N R :=
  l.finallyBlock failed finishedAt (job.evaluated str assessResult) fun outcome =>
    job.answer outcome

/-- Where the append does not fail. -/
def conclude (l : LastRun N) (str : R → Except PyException String)
    (assessResult : AssessResult R) (finishedAt : N) (job : JobResult R) : Concluded N R :=
  l.concludeFailing none str assessResult finishedAt job

def callWrappedFailing (l : LastRun N) (failed : Option (FailedAppend N))
    (c : WrappedCall N R) : CallTrace N R :=
  match l.begin c.shouldRun c.now c.startedAt with
  | (l, .error e) => ⟨l, [], .error e⟩
  | (l, .ok false) => ⟨l, [], .ok none⟩
  | (l, .ok true) =>
    let concluded := l.concludeFailing failed c.str c.assessResult c.finishedAt c.job
    ⟨concluded.lastRun,
      [.appended (.started ⟨c.startedAt⟩), .called] ++
        (concluded.recorded.map fun finished => .appended (.finished finished)).toList,
      concluded.result⟩

def callWrapped (l : LastRun N) (c : WrappedCall N R) : CallTrace N R :=
  l.callWrappedFailing none c

/-- A sequence of calls of functions wrapped by one `LastRun`. -/
def runCalls (l : LastRun N) : List (WrappedCall N R) → LastRun N × List (WrapperEvent N)
  | [] => (l, [])
  | c :: cs =>
    let trace := l.callWrapped c
    let rest := trace.lastRun.runCalls cs
    (rest.1, trace.events ++ rest.2)

/-! ## Where nothing raises in between, it is the wrapper -/

theorem conclude_eq (l : LastRun N) {str : R → Except PyException String}
    (assessResult : AssessResult R) (finishedAt : N) {job : JobResult R}
    (hstr : ∀ value, job = .returned value → ∃ text, str value = .ok text) :
    ((l.conclude str assessResult finishedAt job).lastRun,
      (l.conclude str assessResult finishedAt job).result) =
        l.finish assessResult finishedAt job := by
  cases job with
  | returned value =>
    obtain ⟨text, ht⟩ := hstr value rfl
    cases ha : assessResult (some value) none with
    | error e =>
      simp only [conclude, concludeFailing, finallyBlock, JobResult.evaluated, ht, ok_bind, finish,
        ha]
    | ok x =>
      simp only [conclude, concludeFailing, finallyBlock, JobResult.evaluated, JobResult.answer,
        ht, ok_bind, finish, ha]
  | raised e =>
    cases ha : assessResult none (some e) with
    | error x =>
      simp only [conclude, concludeFailing, finallyBlock, JobResult.evaluated, finish, ha]
    | ok x =>
      simp only [conclude, concludeFailing, finallyBlock, JobResult.evaluated, JobResult.answer,
        finish, ha]

/-- **The traced call is `wrapper`**, if what the job returned has a `str`. -/
theorem callWrapped_eq (l : LastRun N) {c : WrappedCall N R}
    (hstr : ∀ value, c.job = .returned value → ∃ text, c.str value = .ok text) :
    ((l.callWrapped c).lastRun, (l.callWrapped c).result) =
      l.wrapper c.shouldRun c.assessResult c.toCall := by
  unfold callWrapped callWrappedFailing wrapper
  obtain ⟨l', decision⟩ := l.begin c.shouldRun c.now c.startedAt
  cases decision with
  | error e => rfl
  | ok b =>
    cases b with
    | false => rfl
    | true => exact l'.conclude_eq c.assessResult c.finishedAt hstr

end LastRun

/-! ## What a call does -/

namespace LastRun
variable [PyNumber N] {l : LastRun N}

variable {failed : Option (FailedAppend N)}

theorem concludeFailing_of_error {str : R → Except PyException String}
    {assessResult : AssessResult R} {finishedAt : N} {job : JobResult R} {e : PyException}
    (h : job.evaluated str assessResult = .error e) :
    l.concludeFailing failed str assessResult finishedAt job =
      ⟨l, none, .error (.unboundLocalError "outcome")⟩ := by
  simp only [concludeFailing, finallyBlock, h]

theorem conclude_of_error {str : R → Except PyException String} {assessResult : AssessResult R}
    {finishedAt : N} {job : JobResult R} {e : PyException}
    (h : job.evaluated str assessResult = .error e) :
    l.conclude str assessResult finishedAt job =
      ⟨l, none, .error (.unboundLocalError "outcome")⟩ := concludeFailing_of_error h

theorem conclude_of_ok {str : R → Except PyException String} {assessResult : AssessResult R}
    {finishedAt : N} {job : JobResult R} {outcome : Outcome} {details : String}
    (h : job.evaluated str assessResult = .ok (outcome, details)) :
    l.conclude str assessResult finishedAt job =
      ⟨l.append (.finished ⟨finishedAt, outcome, details⟩), some ⟨finishedAt, outcome, details⟩,
        job.answer outcome⟩ := by
  simp only [conclude, concludeFailing, finallyBlock, h]

variable {c : WrappedCall N R}

theorem callWrappedFailing_of_error {e : PyException}
    (h : c.shouldRun c.now l.snapshot = .error e) :
    l.callWrappedFailing failed c = ⟨l.refresh, [], .error e⟩ := by
  simp only [callWrappedFailing, begin, h]

theorem callWrappedFailing_of_skipped (h : c.shouldRun c.now l.snapshot = .ok false) :
    l.callWrappedFailing failed c = ⟨l.refresh, [], .ok none⟩ := by
  simp only [callWrappedFailing, begin, h]

theorem callWrappedFailing_of_unassigned {e : PyException}
    (h : c.shouldRun c.now l.snapshot = .ok true)
    (he : c.job.evaluated c.str c.assessResult = .error e) :
    l.callWrappedFailing failed c = ⟨l.refresh.append (.started ⟨c.startedAt⟩),
      [.appended (.started ⟨c.startedAt⟩), .called], .error (.unboundLocalError "outcome")⟩ := by
  simp only [callWrappedFailing, begin, h, concludeFailing_of_error he]
  rfl

/-- The append that fails leaves the attempt without its `finished` entry, and raises what
takes the place of the job's exception. -/
theorem callWrappedFailing_of_failed {assigned : Outcome × String} {failure : FailedAppend N}
    (h : c.shouldRun c.now l.snapshot = .ok true)
    (he : c.job.evaluated c.str c.assessResult = .ok assigned) :
    l.callWrappedFailing (some failure) c = ⟨failure.lastRun,
      [.appended (.started ⟨c.startedAt⟩), .called], .error failure.raised⟩ := by
  simp only [callWrappedFailing, concludeFailing, finallyBlock, begin, h, he]
  rfl

theorem callWrapped_of_error {e : PyException} (h : c.shouldRun c.now l.snapshot = .error e) :
    l.callWrapped c = ⟨l.refresh, [], .error e⟩ := callWrappedFailing_of_error h

theorem callWrapped_of_skipped (h : c.shouldRun c.now l.snapshot = .ok false) :
    l.callWrapped c = ⟨l.refresh, [], .ok none⟩ := callWrappedFailing_of_skipped h

theorem callWrapped_of_unassigned {e : PyException} (h : c.shouldRun c.now l.snapshot = .ok true)
    (he : c.job.evaluated c.str c.assessResult = .error e) :
    l.callWrapped c = ⟨l.refresh.append (.started ⟨c.startedAt⟩),
      [.appended (.started ⟨c.startedAt⟩), .called], .error (.unboundLocalError "outcome")⟩ :=
  callWrappedFailing_of_unassigned h he

theorem callWrapped_of_assigned {outcome : Outcome} {details : String}
    (h : c.shouldRun c.now l.snapshot = .ok true)
    (he : c.job.evaluated c.str c.assessResult = .ok (outcome, details)) :
    l.callWrapped c =
      ⟨(l.refresh.append (.started ⟨c.startedAt⟩)).append
          (.finished ⟨c.finishedAt, outcome, details⟩),
        [.appended (.started ⟨c.startedAt⟩), .called,
          .appended (.finished ⟨c.finishedAt, outcome, details⟩)],
        c.job.answer outcome⟩ := by
  have hconclude : (l.refresh.append (.started ⟨c.startedAt⟩)).conclude c.str c.assessResult
      c.finishedAt c.job = _ := LastRun.conclude_of_ok he
  rw [conclude] at hconclude
  simp only [callWrapped, callWrappedFailing, begin, h, hconclude]
  rfl

end LastRun

/-- If the job is called, `outcome` and `details` get their values, and the append of the
`finished` entry does not fail. -/
def RecordsAttempt [PyNumber N] (l : LastRun N) (failed : Option (FailedAppend N))
    (c : WrappedCall N R) : Prop :=
  c.shouldRun c.now l.snapshot = .ok true →
    failed = none ∧ ∃ assigned, c.job.evaluated c.str c.assessResult = .ok assigned

/-! ## The record of one attempt -/

/-- Behind a `started` entry the call appends a `finished` one before it is left, and
only the job's exception or that of `assess_result` leaves it. -/
structure RecordKept [PyNumber N] (l : LastRun N) (failed : Option (FailedAppend N))
    (c : WrappedCall N R) : Prop where
  finished : ∀ e, .appended (.started e) ∈ (l.callWrappedFailing failed c).events →
    ∃ f before after, (l.callWrappedFailing failed c).events =
      before ++ .appended (.finished f) :: after ∧ .appended (.started e) ∈ before
  leaves : ∀ e x, .appended (.started e) ∈ (l.callWrappedFailing failed c).events →
    (l.callWrappedFailing failed c).result = .error x →
      c.job = .raised x ∨ c.job.assessed c.assessResult = .error x

/-- A call that is left without a `finished` entry behind its `started` one. -/
theorem not_recordKept_of_unfinished [PyNumber N] {l : LastRun N}
    {failed : Option (FailedAppend N)} {c : WrappedCall N R}
    (h : (l.callWrappedFailing failed c).events =
      [.appended (.started ⟨c.startedAt⟩), .called]) : ¬ RecordKept l failed c := by
  intro hkept
  obtain ⟨f, before, after, hevents, -⟩ := hkept.finished ⟨c.startedAt⟩ (by rw [h]; simp)
  have hmem : .appended (.finished f) ∈ (l.callWrappedFailing failed c).events := by
    rw [hevents]
    exact List.mem_append_right _ (.head _)
  rw [h] at hmem
  simp at hmem

/-- `started` and `finished` in turns, every attempt complete. -/
inductive Alternates : List (LastRunHistoryEntry N) → Prop where
  | nil : Alternates []
  | attempt {es : List (LastRunHistoryEntry N)} (s : LastRunAttemptStarted N)
      (f : LastRunAttemptFinished N) (h : Alternates es) :
      Alternates (.started s :: .finished f :: es)

theorem Alternates.append {es es' : List (LastRunHistoryEntry N)} (h : Alternates es)
    (h' : Alternates es') : Alternates (es ++ es') := by
  induction h with
  | nil => exact h'
  | attempt s f _ ih => exact .attempt s f ih

def WrapperEvent.entry? : WrapperEvent N → Option (LastRunHistoryEntry N)
  | .appended e => some e
  | .called => none

def WrapperEvent.isCall : WrapperEvent N → Bool
  | .appended _ => false
  | .called => true

/-- The entries appended, dropped or not. -/
def entriesOf (events : List (WrapperEvent N)) : List (LastRunHistoryEntry N) :=
  events.filterMap WrapperEvent.entry?

/-- The history and its file are as they were. -/
structure Unchanged [PyNumber N] (l : LastRun N) (trace : CallTrace N R) : Prop where
  events : trace.events = []
  file : trace.lastRun.file = l.file
  snapshot : trace.lastRun.snapshot = l.snapshot

/-- What a call does: nothing if it is skipped, or if `should_run` raises; otherwise
one attempt with its two entries. -/
structure Paired [PyNumber N] (l : LastRun N) (c : WrappedCall N R) : Prop where
  raising : ∀ e, c.shouldRun c.now l.snapshot = .error e →
    Unchanged l (l.callWrapped c) ∧ (l.callWrapped c).result = .error e
  skipped : c.shouldRun c.now l.snapshot = .ok false →
    Unchanged l (l.callWrapped c) ∧ (l.callWrapped c).result = .ok none
  executed : c.shouldRun c.now l.snapshot = .ok true →
    ∃ outcome details, c.job.assessed c.assessResult = .ok (outcome, details) ∧
      (l.callWrapped c).events = [.appended (.started ⟨c.startedAt⟩), .called,
        .appended (.finished ⟨c.finishedAt, outcome, details⟩)] ∧
      (∀ e, (l.callWrapped c).result = .error e ↔ c.job = .raised e ∧ outcome = .failure) ∧
      (∀ e, c.job = .raised e → outcome ≠ .failure → (l.callWrapped c).result = .ok none) ∧
      ∀ value, c.job = .returned value → (l.callWrapped c).result = .ok (some value)

/-- What a call returned has a `str`, if it called the job. -/
def Printable [PyNumber N] (l : LastRun N) (c : WrappedCall N R) : Prop :=
  c.shouldRun c.now l.snapshot = .ok true →
    ∀ value, c.job = .returned value → ∃ text, c.str value = .ok text

def AssessResult.Total (assessResult : AssessResult R) : Prop :=
  ∀ returned raised, ∃ assessed, assessResult returned raised = .ok assessed

theorem AssessResult.Total.assessed {assessResult : AssessResult R} (h : assessResult.Total)
    (job : JobResult R) :
    ∃ outcome details, job.assessed assessResult = .ok (outcome, details) := by
  cases job with
  | returned value =>
    obtain ⟨⟨outcome, details⟩, ha⟩ := h (some value) none
    exact ⟨outcome, details, ha⟩
  | raised e =>
    obtain ⟨⟨outcome, details⟩, ha⟩ := h none (some e)
    exact ⟨outcome, details, ha⟩

theorem JobResult.evaluated_eq_assessed {str : R → Except PyException String}
    {assessResult : AssessResult R} {job : JobResult R}
    (h : ∀ value, job = .returned value → ∃ text, str value = .ok text) :
    job.evaluated str assessResult = job.assessed assessResult := by
  cases job with
  | returned value =>
    obtain ⟨text, ht⟩ := h value rfl
    simp only [evaluated, assessed, ht, ok_bind]
  | raised e => rfl

theorem JobResult.str_of_evaluated {str : R → Except PyException String}
    {assessResult : AssessResult R} {job : JobResult R} {x : Outcome × String}
    (h : job.evaluated str assessResult = .ok x) {value : R} (hj : job = .returned value) :
    ∃ text, str value = .ok text := by
  subst hj
  cases hs : str value with
  | ok text => exact ⟨text, rfl⟩
  | error e =>
    simp only [evaluated, hs] at h
    cases h

section Paired
variable [PyNumber N] {l : LastRun N} {c : WrappedCall N R}

theorem unchanged_refresh (l : LastRun N) (result : Except PyException (Option R)) :
    Unchanged l ⟨l.refresh, [], result⟩ :=
  ⟨rfl, rfl, LastRunHistory.snapshot_refresh l.history l.file⟩

/-- A call that calls the job and records it. -/
theorem paired_of_assigned {outcome : Outcome} {details : String}
    (hrun : c.shouldRun c.now l.snapshot = .ok true)
    (ha : c.job.assessed c.assessResult = .ok (outcome, details))
    (he : c.job.evaluated c.str c.assessResult = .ok (outcome, details)) : Paired l c := by
  have htrace := LastRun.callWrapped_of_assigned hrun he
  refine ⟨fun e h => ?_, fun h => ?_, fun _ => ?_⟩
  · rw [hrun] at h
    cases h
  · rw [hrun] at h
    cases h
  refine ⟨outcome, details, ha, by rw [htrace], fun e => ?_, fun e hj hne => ?_,
    fun value hj => ?_⟩
  · rw [htrace]
    cases hj : c.job with
    | returned value => simp [JobResult.answer]
    | raised x =>
      by_cases ho : outcome = .failure
      · simp [ho, JobResult.answer]
      · simp [ho, JobResult.answer]
  · rw [htrace]
    simp only [hj, JobResult.answer, if_neg hne]
  · rw [htrace]
    simp only [hj, JobResult.answer]

/-- **A call pairs its entries exactly if what it returned has a `str`.** -/
theorem paired_iff (hassess : c.assessResult.Total) : Paired l c ↔ Printable l c := by
  constructor
  · intro h hrun value hj
    obtain ⟨outcome, details, -, hevents, -⟩ := h.executed hrun
    cases he : c.job.evaluated c.str c.assessResult with
    | ok x => exact JobResult.str_of_evaluated he hj
    | error e =>
      rw [LastRun.callWrapped_of_unassigned hrun he] at hevents
      simp at hevents
  · intro h
    cases hrun : c.shouldRun c.now l.snapshot with
    | error e =>
      have htrace := LastRun.callWrapped_of_error hrun
      refine ⟨?_, ?_, ?_⟩
      · intro e' he
        rw [hrun] at he
        cases he
        exact ⟨by rw [htrace]; exact unchanged_refresh l _, by rw [htrace]⟩
      · intro he
        rw [hrun] at he
        cases he
      · intro he
        rw [hrun] at he
        cases he
    | ok b =>
      cases b with
      | false =>
        have htrace := LastRun.callWrapped_of_skipped hrun
        refine ⟨?_, ?_, ?_⟩
        · intro e he
          rw [hrun] at he
          cases he
        · intro _
          exact ⟨by rw [htrace]; exact unchanged_refresh l _, by rw [htrace]⟩
        · intro he
          rw [hrun] at he
          cases he
      | true =>
        obtain ⟨outcome, details, ha⟩ := hassess.assessed c.job
        exact paired_of_assigned hrun ha ((JobResult.evaluated_eq_assessed (h hrun)).trans ha)

end Paired

/-! ### Sequences of calls -/

/-- What holds of each call, in the state that those before it leave. -/
def EachCall [PyNumber N] (P : LastRun N → WrappedCall N R → Prop) (l : LastRun N) :
    List (WrappedCall N R) → Prop
  | [] => True
  | c :: cs => P l c ∧ EachCall P (l.callWrapped c).lastRun cs

theorem eachCall_iff [PyNumber N] {P Q : LastRun N → WrappedCall N R → Prop}
    {cs : List (WrappedCall N R)} (h : ∀ c ∈ cs, ∀ l, P l c ↔ Q l c) (l : LastRun N) :
    EachCall P l cs ↔ EachCall Q l cs := by
  induction cs generalizing l with
  | nil => exact Iff.rfl
  | cons c cs ih =>
    exact and_congr (h c (.head _) l) (ih (fun d hd => h d (.tail _ hd)) _)

/-- The history behind a sequence of calls: the last of the entries appended, which
are `started` and `finished` in turns, one pair for each call of the job. -/
structure PairedHistory [PyNumber N] (l : LastRun N) (cs : List (WrappedCall N R)) : Prop where
  alternates : Alternates (entriesOf (l.runCalls cs).2)
  kept : (l.runCalls cs).1.snapshot = (entriesOf (l.runCalls cs).2).rtake l.history.maxEntries
  suffix : (l.runCalls cs).1.snapshot <:+ entriesOf (l.runCalls cs).2
  counted : (finishedAttempts (entriesOf (l.runCalls cs).2)).length =
    (l.runCalls cs).2.countP WrapperEvent.isCall

section Run
variable [PyFloat N]

/-- What one call adds. -/
structure Adds (l : LastRun N) (trace : CallTrace N R) : Prop where
  alternates : Alternates (entriesOf trace.events)
  snapshot : trace.lastRun.snapshot =
    (l.snapshot ++ entriesOf trace.events).rtake l.history.maxEntries
  maxEntries : trace.lastRun.history.maxEntries = l.history.maxEntries
  counted : (finishedAttempts (entriesOf trace.events)).length =
    trace.events.countP WrapperEvent.isCall

theorem adds_refresh (l : LastRun N) (result : Except PyException (Option R)) :
    Adds l ⟨l.refresh, [], result⟩ := by
  refine ⟨.nil, ?_, l.refresh_maxEntries, rfl⟩
  rw [entriesOf, List.filterMap_nil, List.append_nil, rtake_of_length_le l.length_snapshot]
  exact l.refresh_snapshot

theorem adds_of_printable {l : LastRun N} {c : WrappedCall N R} (hassess : c.assessResult.Total)
    (h : Printable l c) : Adds l (l.callWrapped c) := by
  cases hrun : c.shouldRun c.now l.snapshot with
  | error e =>
    rw [LastRun.callWrapped_of_error hrun]
    exact adds_refresh l _
  | ok b =>
    cases b with
    | false =>
      rw [LastRun.callWrapped_of_skipped hrun]
      exact adds_refresh l _
    | true =>
      obtain ⟨outcome, details, ha⟩ := hassess.assessed c.job
      have he := (JobResult.evaluated_eq_assessed (h hrun)).trans ha
      rw [LastRun.callWrapped_of_assigned hrun he]
      refine ⟨.attempt _ _ .nil, ?_, by simp, rfl⟩
      rw [LastRun.snapshot_append, LastRun.snapshot_append, LastRun.refresh_snapshot,
        LastRun.append_maxEntries, LastRun.refresh_maxEntries, rtake_append, List.append_assoc]
      rfl

omit [PyFloat N] in
theorem entriesOf_append (events events' : List (WrapperEvent N)) :
    entriesOf (events ++ events') = entriesOf events ++ entriesOf events' :=
  List.filterMap_append

/-- **A run of calls**, by induction on them. -/
theorem runCalls_adds {cs : List (WrappedCall N R)} (hassess : ∀ c ∈ cs, c.assessResult.Total)
    {l : LastRun N} (h : EachCall Printable l cs) :
    Adds l ⟨(l.runCalls cs).1, (l.runCalls cs).2, (.ok none : Except PyException (Option R))⟩ := by
  induction cs generalizing l with
  | nil =>
    refine ⟨.nil, ?_, rfl, rfl⟩
    rw [LastRun.runCalls, entriesOf, List.filterMap_nil, List.append_nil,
      rtake_of_length_le l.length_snapshot]
  | cons c cs ih =>
    obtain ⟨hc, hcs⟩ := h
    have hone := adds_of_printable (hassess c (.head _)) hc
    have hrest := ih (fun d hd => hassess d (.tail _ hd)) hcs
    refine ⟨?_, ?_, hrest.maxEntries.trans hone.maxEntries, ?_⟩
    · rw [LastRun.runCalls, entriesOf_append]
      exact hone.alternates.append hrest.alternates
    · have hsnapshot := hrest.snapshot
      rw [hone.snapshot, hone.maxEntries, rtake_append, List.append_assoc] at hsnapshot
      rw [LastRun.runCalls, entriesOf_append]
      exact hsnapshot
    · rw [LastRun.runCalls, entriesOf_append, finishedAttempts_append, List.length_append,
        List.countP_append]
      exact congrArg₂ _ hone.counted hrest.counted

theorem snapshot_init {m : Int} {l : LastRun N} (h : LastRun.init m none = .ok l) :
    l.snapshot = [] := by
  unfold LastRun.init at h
  split at h
  · cases h
  · rename_i history hinit
    cases h
    unfold LastRunHistory.init at hinit
    split at hinit
    · cases hinit
    · cases hinit
      rfl

end Run

/-! ### Jobs that return their outcome -/

/-- A call at time 0 of a job that always may run and succeeds. -/
def succeedingCall (assessResult : AssessResult Outcome)
    (str : Outcome → Except PyException String) : WrappedCall Int Outcome :=
  ⟨⟨0, 0, 0, .returned .success⟩, fun _ _ => .ok true, assessResult, str⟩

def noText : PyException := ⟨.exception, "RuntimeError", "no text"⟩

end SchedulingUtil
