import Mathlib.Data.Finset.Basic
import SchedulingUtil.ScheduleReports

/-! # The jobs of the command line

`schedule py-exec`, `schedule click-invoke` and `schedule subprocess` turn how a job ends
into what `schedule` is told, through the sets of exit codes given as successful and as
neutral. The three do it on paths of their own. -/
namespace SchedulingUtil
open Lib

def PyException.usageError (text : String) : PyException := ⟨.exception, "UsageError", text⟩

/-- The exit codes given as successful and as neutral, once validated. -/
structure ExitCodeSets where
  success : Finset Int
  neutral : Finset Int
  disjoint : ∀ code ∈ success, code ∉ neutral

/-- `validate_exit_code_sets`, on the codes of the two `OrderedSet`s in their order. -/
def validateExitCodeSets (success neutral : List Int) : Except PyException ExitCodeSets :=
  let overlap := success.filter (· ∈ neutral)
  if h : overlap = [] then
    .ok ⟨success.toFinset, neutral.toFinset, fun code hs hn =>
      List.filter_eq_nil_iff.mp h code (List.mem_toFinset.mp hs)
        (decide_eq_true (List.mem_toFinset.mp hn))⟩
  else
    .error (.usageError ("Exit codes cannot be both successful and neutral: " ++
      ", ".intercalate (overlap.map toString) ++ "."))

/-- The validation accepts disjoint sets and no others. -/
theorem validateExitCodeSets_iff (success neutral : List Int) :
    (∃ sets, validateExitCodeSets success neutral = .ok sets) ↔
      ∀ code ∈ success, code ∉ neutral := by
  have hfilter : success.filter (· ∈ neutral) = [] ↔ ∀ code ∈ success, code ∉ neutral := by
    rw [List.filter_eq_nil_iff]
    simp only [decide_eq_true_eq]
  rw [← hfilter]
  constructor
  · rintro ⟨sets, h⟩
    unfold validateExitCodeSets at h
    dsimp only at h
    split at h
    · assumption
    · cases h
  · intro h
    exact ⟨_, dif_pos h⟩

/-- Every pair of disjoint finite sets can be given. -/
theorem exists_validateExitCodeSets (sets : ExitCodeSets) :
    ∃ success neutral, validateExitCodeSets success neutral = .ok sets := by
  obtain ⟨success, neutral, disjoint⟩ := sets
  have hfilter : success.toList.filter (· ∈ neutral.toList) = [] := by
    rw [List.filter_eq_nil_iff]
    intro code hs hn
    exact disjoint code (Finset.mem_toList.mp hs)
      (Finset.mem_toList.mp (of_decide_eq_true hn))
  refine ⟨success.toList, neutral.toList, (dif_pos hfilter).trans ?_⟩
  simp only [Finset.toList_toFinset]

/-- The `code` of a `SystemExit`. -/
inductive ExitCode where
  | none
  | int (code : Int)
  | other (text : String)

/-- What a handler of `SystemExit` lets through. -/
abbrev NotSystemExit := { e : PyException // e.cls ≠ .systemExit }

/-- How code that runs in this process ends. -/
inductive CodeEnd where
  | returned
  | systemExit (code : ExitCode)
  | raised (e : NotSystemExit)

/-- The outcome as the string that a job returns. -/
def Outcome.returned : Outcome → Returned
  | .success => .str "success"
  | .failure => .str "failure"
  | .neutral => .str "neutral"

namespace ExitCodeSets
variable (sets : ExitCodeSets)

/-- What an exit code is, by the two sets. -/
def outcomeOf (code : Int) : Outcome :=
  if code ∈ sets.neutral then .neutral
  else if code ∈ sets.success then .success
  else .failure

/-- `map_exit_code_to_outcome`. -/
def mapExitCodeToOutcome : ExitCode → Outcome
  -- `sys.exit()` is equivalent to `sys.exit(0)`.
  | .none => sets.outcomeOf 0
  | .int code => sets.outcomeOf code
  | .other _ => .failure

/-- `py_exec.func`, by how `exec` ends. -/
def pyExecFunc : CodeEnd → JobResult Returned
  | .returned => .returned (.str "success")
  | .systemExit code => .returned (sets.mapExitCodeToOutcome code).returned
  | .raised e => .raised e

/-- `click_invoke.func`, by what making or closing the context raises, outside the `try`
statement, or how the command ends. -/
def clickInvokeFunc : Except PyException CodeEnd → JobResult Returned
  | .error e => .raised e
  | .ok .returned => .returned (.str "success")
  | .ok (.systemExit code) => .returned (sets.mapExitCodeToOutcome code).returned
  | .ok (.raised e) => .raised e

/-- `--check`, with its default, or why the options do not go together. -/
def checkOption (check : Option Bool) : Except PyException Bool :=
  let check := check.getD (decide (sets.success = {0}) && decide (sets.neutral = ∅))
  if check then
    if sets.success ≠ {0} then
      .error (.usageError "Do not use `--check` and `--exit-codes-success` together.")
    else if sets.neutral ≠ ∅ then
      .error (.usageError "Do not use `--check` and `--exit-codes-neutral` together.")
    else .ok true
  else .ok false

/-- `subprocess.func`, by what `run_with_logger` does for `check`: it returns with the
child's return code, or raises. -/
def subprocessFunc (runWithLogger : Bool → Except PyException Int) (check : Bool) :
    JobResult Returned :=
  match runWithLogger check with
  | .error e => .raised e
  | .ok returncode =>
    if returncode ∈ sets.neutral then .returned (.str "neutral")
    else if returncode ∈ sets.success then .returned (.str "success")
    else .returned (.str "failure")

end ExitCodeSets

/-- A job of the command line, with how it ends. -/
inductive CliJob where
  | pyExec (code : CodeEnd)
  | clickInvoke (command : Except PyException CodeEnd)
  | subprocess (check : Option Bool) (runWithLogger : Bool → Except PyException Int)

namespace CliJob

/-- How the job's `func` ends, unless its options are refused. -/
def func (sets : ExitCodeSets) : CliJob → Except PyException (JobResult Returned)
  | .pyExec code => .ok (sets.pyExecFunc code)
  | .clickInvoke command => .ok (sets.clickInvokeFunc command)
  | .subprocess check runWithLogger =>
    (sets.checkOption check).map (sets.subprocessFunc runWithLogger)

variable {N : Type} [PyNumber N]

/-- The outcome in the entry that the attempt appends, if it appends one: `schedule` calls
`hc_func`, wrapped by the `LastRun`. -/
def recorded (job : CliJob) (sets : ExitCodeSets) (cfg : ScheduleConfig) (l : LastRun N)
    (finishedAt : N) : Option Outcome :=
  match job.func sets with
  | .error _ => none
  | .ok result =>
    (l.conclude (fun returned => ordinary returned.str) (assessObject cfg formatText) finishedAt
      (hcFunc cfg result.object).2).recorded.map (·.outcome)

end CliJob

/-! ## The ends of a job and its exit status -/

/-- The exit status that the `code` of a `SystemExit` stands for. -/
def ExitCode.status? : ExitCode → Option Int
  | .none => some 0
  | .int code => some code
  | .other _ => Option.none

/-- The exit status that an end of code stands for. -/
def CodeEnd.status? : CodeEnd → Option Int
  | .returned => some 0
  | .systemExit code => code.status?
  | .raised _ => none

/-- The `SystemExit` that `sys.exit` raises for a code. -/
def ExitCode.systemExit : ExitCode → PyException
  | .none => ⟨.systemExit, "SystemExit", ""⟩
  | .int code => ⟨.systemExit, "SystemExit", toString code⟩
  | .other text => ⟨.systemExit, "SystemExit", text⟩

/-- What `Context.exit` raises: `click.exceptions.Exit` is a `RuntimeError`. -/
def contextExit (code : Int) : NotSystemExit :=
  ⟨⟨.exception, "Exit", toString code⟩, fun h => nomatch h⟩

/-- A child that exits with a code: with `check`, a code other than zero is raised. -/
structure ChildExits (runWithLogger : Bool → Except PyException Int) (code : Int) : Prop where
  unchecked : runWithLogger false = .ok code
  checked_zero : code = 0 → runWithLogger true = .ok 0
  checked_nonzero : code ≠ 0 → ∃ e, runWithLogger true = .error e

/-- The ways for a job to end with an exit status. -/
inductive EndsWith : CliJob → Int → Prop where
  | pyExec {code : CodeEnd} {c : Int} (h : code.status? = some c) : EndsWith (.pyExec code) c
  | clickInvoke {code : CodeEnd} {c : Int} (h : code.status? = some c) :
    EndsWith (.clickInvoke (.ok code)) c
  | contextExit (c : Int) : EndsWith (.clickInvoke (.ok (.raised (contextExit c)))) c
  -- a parameter's callback exits while the context is made, as the one of `--help` does, or
  -- a callback of the context while it is closed
  | contextExitOutside (c : Int) : EndsWith (.clickInvoke (.error (contextExit c).val)) c
  | systemExitOutside {code : ExitCode} {c : Int} (h : code.status? = some c) :
    EndsWith (.clickInvoke (.error code.systemExit)) c
  | subprocess {runWithLogger : Bool → Except PyException Int} {c : Int}
    (h : ChildExits runWithLogger c) : EndsWith (.subprocess none runWithLogger) c

/-- The end takes its outcome from the sets, or has the one they give by another way. -/
def ExitCodeSets.Cover (sets : ExitCodeSets) (c : Int) : CliJob → Prop
  | .pyExec .returned | .clickInvoke (.ok .returned) => 0 ∈ sets.success
  | .clickInvoke (.error _) | .clickInvoke (.ok (.raised _)) =>
    c ∉ sets.success ∧ c ∉ sets.neutral
  | _ => True

/-! ## What is recorded -/

section Recorded
variable {N : Type} [PyNumber N] {cfg : ScheduleConfig} {l : LastRun N} {finishedAt : N}
  {sets : ExitCodeSets} {job : CliJob}

/-- An outcome that the job returns is recorded. -/
theorem recorded_of_returned {outcome : Outcome}
    (h : job.func sets = .ok (.returned outcome.returned)) :
    job.recorded sets cfg l finishedAt = some outcome := by
  have he : (JobResult.returned outcome.returned).object.evaluated (fun r => ordinary r.str)
      (assessObject cfg formatText) = .ok (outcome, "") := by
    cases outcome <;> rfl
  simp only [CliJob.recorded, h, hcFunc_object, LastRun.conclude_of_ok he, Option.map_some]

/-- A raised exception is recorded as a failure. -/
theorem recorded_of_raised {e : PyException} (h : job.func sets = .ok (.raised e)) :
    job.recorded sets cfg l finishedAt = some .failure := by
  have he : (JobResult.raised e : JobResult Returned).object.evaluated
      (fun r => ordinary r.str) (assessObject cfg formatText) =
        .ok (.failure, "Raised `" ++ e.typeName ++ "`: " ++ e.text) := rfl
  simp only [CliJob.recorded, h, hcFunc_object, LastRun.conclude_of_ok he, Option.map_some]

/-! ### Code that runs in this process -/

theorem outcomeOf_eq_success_iff (sets : ExitCodeSets) (c : Int) :
    sets.outcomeOf c = .success ↔ c ∈ sets.success := by
  unfold ExitCodeSets.outcomeOf
  constructor
  · intro h
    split at h
    · cases h
    · split at h
      · assumption
      · cases h
  · intro h
    rw [if_neg (sets.disjoint c h), if_pos h]

theorem outcomeOf_eq_failure_iff (sets : ExitCodeSets) (c : Int) :
    sets.outcomeOf c = .failure ↔ c ∉ sets.success ∧ c ∉ sets.neutral := by
  unfold ExitCodeSets.outcomeOf
  by_cases hn : c ∈ sets.neutral
  · simp [hn]
  · by_cases hs : c ∈ sets.success
    · simp [hn, hs]
    · simp [hn, hs]

/-- Where the recorded outcome is fixed, it is the sets' one under a condition on them. -/
theorem some_eq_outcomeOf_iff {outcome : Outcome} {recorded : Option Outcome} {c : Int}
    (h : recorded = some outcome) :
    recorded = some (sets.outcomeOf c) ↔ sets.outcomeOf c = outcome := by
  rw [h, Option.some_inj]
  exact eq_comm

/-! ### A child process -/

/-- The codes are returned as they are unless `check` is on, which the options allow for the
default sets alone. -/
theorem checkOption_true {check : Option Bool} (h : sets.checkOption check = .ok true) :
    sets.success = {0} ∧ sets.neutral = ∅ := by
  unfold ExitCodeSets.checkOption at h
  dsimp only at h
  split at h
  · split at h
    · cases h
    · split at h
      · cases h
      · rename_i hs hn
        exact ⟨not_not.mp hs, not_not.mp hn⟩
  · cases h

/-- Left to its default, `--check` goes with every pair of sets. -/
theorem checkOption_none (sets : ExitCodeSets) : ∃ check, sets.checkOption none = .ok check := by
  by_cases h : sets.success = {0} ∧ sets.neutral = ∅
  · refine ⟨true, ?_⟩
    simp [ExitCodeSets.checkOption, h.1, h.2]
  · refine ⟨false, ?_⟩
    have hd : (decide (sets.success = {0}) && decide (sets.neutral = ∅)) = false := by
      rw [← Bool.decide_and]
      exact decide_eq_false h
    simp [ExitCodeSets.checkOption, hd]

/-- A child's code is returned as the sets say. -/
theorem subprocessFunc_of_ok {runWithLogger : Bool → Except PyException Int} {check : Bool}
    {c : Int} (h : runWithLogger check = .ok c) :
    sets.subprocessFunc runWithLogger check = .returned (sets.outcomeOf c).returned := by
  simp only [ExitCodeSets.subprocessFunc, h, ExitCodeSets.outcomeOf]
  split
  · rfl
  · split <;> rfl

/-- **A child's exit code decides what is recorded**, with every `--check` that the options
allow. -/
theorem subprocess_recorded {runWithLogger : Bool → Except PyException Int} {check : Option Bool}
    {accepted : Bool} {c : Int} (hcheck : sets.checkOption check = .ok accepted)
    (h : ChildExits runWithLogger c) :
    (CliJob.subprocess check runWithLogger).recorded sets cfg l finishedAt =
      some (sets.outcomeOf c) := by
  have hfunc : (CliJob.subprocess check runWithLogger).func sets =
      .ok (sets.subprocessFunc runWithLogger accepted) := by
    simp only [CliJob.func, hcheck]
    rfl
  cases accepted with
  | false =>
    rw [subprocessFunc_of_ok h.unchecked] at hfunc
    exact recorded_of_returned hfunc
  | true =>
    by_cases hc : c = 0
    · subst hc
      rw [subprocessFunc_of_ok (h.checked_zero rfl)] at hfunc
      exact recorded_of_returned hfunc
    · -- `check` raises the code, and no other code is in the sets
      obtain ⟨e, he⟩ := h.checked_nonzero hc
      obtain ⟨hs, hn⟩ := checkOption_true hcheck
      have hraised : sets.subprocessFunc runWithLogger true = .raised e := by
        simp only [ExitCodeSets.subprocessFunc, he]
      have hfailure : sets.outcomeOf c = .failure := by
        rw [outcomeOf_eq_failure_iff, hs, hn]
        exact ⟨fun hmem => hc (Finset.mem_singleton.mp hmem), Finset.notMem_empty c⟩
      rw [hraised] at hfunc
      rw [hfailure]
      exact recorded_of_raised hfunc

/-! ### Every end -/

/-- Where code in this process ends with a status, the two runners that catch `SystemExit`
tell a normal end from one with the code zero. -/
theorem codeEnd_recorded_iff {code : CodeEnd} {c : Int} (h : code.status? = some c)
    (hfunc : job.func sets = .ok (sets.pyExecFunc code)) :
    job.recorded sets cfg l finishedAt = some (sets.outcomeOf c) ↔
      (code = .returned → 0 ∈ sets.success) := by
  cases code with
  | returned =>
    cases h
    have hr : job.recorded sets cfg l finishedAt = some .success := recorded_of_returned hfunc
    rw [some_eq_outcomeOf_iff hr, outcomeOf_eq_success_iff]
    exact ⟨fun h0 _ => h0, fun h0 => h0 rfl⟩
  | systemExit exitCode =>
    cases exitCode with
    | none =>
      cases h
      exact iff_of_true (recorded_of_returned hfunc) fun hr => nomatch hr
    | int code =>
      cases h
      exact iff_of_true (recorded_of_returned hfunc) fun hr => nomatch hr
    | other text => cases h
  | raised e => cases h

/-- `click_invoke.func` and `py_exec.func` treat the end of the code alike. -/
theorem clickInvokeFunc_ok (code : CodeEnd) :
    sets.clickInvokeFunc (.ok code) = sets.pyExecFunc code := by
  cases code <;> rfl

/-- **When the exit status decides**: for every pair of disjoint sets and every way a job can
end with a status, the recorded outcome is the one the sets give it if and only if a job
that falls off its end has zero among the successful codes, and a job that ends by
`Context.exit`, or exits outside the `try` statement, has its code in neither set. -/
theorem recorded_by_status_iff (sets : ExitCodeSets) (cfg : ScheduleConfig) (l : LastRun N)
    (finishedAt : N) {job : CliJob} {c : Int} (h : EndsWith job c) :
    job.recorded sets cfg l finishedAt = some (sets.outcomeOf c) ↔ sets.Cover c job := by
  cases h with
  | pyExec hc =>
    rename_i code
    rw [codeEnd_recorded_iff hc rfl]
    cases code <;> simp [ExitCodeSets.Cover]
  | clickInvoke hc =>
    rename_i code
    have hfunc : (CliJob.clickInvoke (.ok code)).func sets = .ok (sets.pyExecFunc code) :=
      congrArg Except.ok (clickInvokeFunc_ok code)
    rw [codeEnd_recorded_iff hc hfunc]
    cases code with
    | returned => simp [ExitCodeSets.Cover]
    | systemExit exitCode => simp [ExitCodeSets.Cover]
    | raised e => cases hc
  | contextExit =>
    have hr : (CliJob.clickInvoke (.ok (.raised (contextExit c)))).recorded sets cfg l finishedAt =
        some .failure := recorded_of_raised rfl
    rw [some_eq_outcomeOf_iff hr, outcomeOf_eq_failure_iff]
    rfl
  | contextExitOutside =>
    have hr : (CliJob.clickInvoke (.error (contextExit c).val)).recorded sets cfg l finishedAt =
        some .failure := recorded_of_raised rfl
    rw [some_eq_outcomeOf_iff hr, outcomeOf_eq_failure_iff]
    rfl
  | systemExitOutside hc =>
    rename_i code
    have hr : (CliJob.clickInvoke (.error code.systemExit)).recorded sets cfg l finishedAt =
        some .failure := recorded_of_raised rfl
    rw [some_eq_outcomeOf_iff hr, outcomeOf_eq_failure_iff]
    rfl
  | subprocess hc =>
    obtain ⟨check, hcheck⟩ := checkOption_none sets
    exact iff_of_true (subprocess_recorded hcheck hc) trivial

end Recorded

/-! ### A child that asks for a later attempt -/

/-- The codes of the example in the README: 75 asks to be tried again later. -/
def tryAgainLater : ExitCodeSets := ⟨{0}, {75}, by decide⟩

/-- `subprocess.run`, with a child that exits with a code. -/
def runChild (code : Int) (check : Bool) : Except PyException Int :=
  if check && code ≠ 0 then
    .error ⟨.exception, "CalledProcessError",
      "Command 'backup' returned non-zero exit status " ++ toString code ++ "."⟩
  else .ok code

theorem childExits_runChild (code : Int) : ChildExits (runChild code) code where
  unchecked := rfl
  checked_zero := by
    rintro rfl
    rfl
  checked_nonzero := by
    intro h
    simp [runChild, h]

def firstAttempt : LastRun Int := newLastRun 10

theorem recorded_by_status_neutral :
    (CliJob.subprocess none (runChild 75)).recorded tryAgainLater minutelySchedule
      firstAttempt 1 = some .neutral :=
  (recorded_by_status_iff tryAgainLater minutelySchedule firstAttempt 1
    (.subprocess (childExits_runChild 75))).mpr trivial

/-- With the default sets `Context.exit(0)` is recorded as a failure, and so is the
`sys.exit(0)` of an eager parameter; a job that falls off its end is recorded as a success
with zero among the neutral codes. -/
theorem status_zero_misrecorded :
    (∃ (sets : ExitCodeSets) (job : CliJob), EndsWith job 0 ∧ sets.outcomeOf 0 = .success ∧
      job.recorded sets minutelySchedule firstAttempt 1 = some .failure) ∧
    (CliJob.clickInvoke (.error (ExitCode.int 0).systemExit)).recorded ⟨{0}, ∅, by decide⟩
      minutelySchedule firstAttempt 1 = some .failure ∧
    (∃ (sets : ExitCodeSets) (job : CliJob), EndsWith job 0 ∧ sets.outcomeOf 0 = .neutral ∧
      job.recorded sets minutelySchedule firstAttempt 1 = some .success) := by
  refine ⟨?_, recorded_of_raised rfl, ?_⟩
  · exact ⟨⟨{0}, ∅, by decide⟩, .clickInvoke (.ok (.raised (contextExit 0))), .contextExit 0,
      by decide, recorded_of_raised rfl⟩
  · exact ⟨⟨{1}, {0}, by decide⟩, .pyExec .returned, .pyExec rfl, by decide,
      recorded_of_returned rfl⟩

end SchedulingUtil
