import SchedulingUtil.LastRunPolicy
import SchedulingUtil.SharedHistory

/-! # Processes that attempt the same job

Processes that call functions wrapped over one history path. The decision, the
`started` entry, the job and the `finished` entry are separate steps, each under the lock or
outside of it. The policy looks at finished attempts: those of all the processes count,
one that is under way does not. -/
namespace SchedulingUtil
open Lib

variable {T N R : Type}

/-- Where a process is in `wrapper`. -/
inductive AttemptStage (R : Type) where
  | idle
  | decided
  | running
  | ended (job : JobResult R)

structure AttemptProcess (N R : Type) where
  predicate : RunPredicate
  assessResult : AssessResult R
  history : LastRunHistory N
  stage : AttemptStage R

/-- Between the `started` entry of its attempt and the `finished` one. -/
def AttemptProcess.attempting (p : AttemptProcess N R) : Bool :=
  match p.stage with
  | .running | .ended _ => true
  | .idle | .decided => false

structure AttemptWorld (T N R : Type) where
  file : File
  process : T → AttemptProcess N R

inductive AttemptEvent (T N R : Type) where
  | evaluate (t : T) (now : Datetime)
  | start (t : T) (e : LastRunAttemptStarted N)
  | jobEnds (t : T) (job : JobResult R)
  | finish (t : T) (e : Option (LastRunAttemptFinished N))

namespace AttemptEvent

def process : AttemptEvent T N R → T
  | .evaluate t _ | .start t _ | .jobEnds t _ | .finish t _ => t

/-- The entry that the step appends. -/
def appended : AttemptEvent T N R → List (LastRunHistoryEntry N)
  | .evaluate _ _ | .jobEnds _ _ => []
  | .start _ e => [.started e]
  | .finish _ e => (e.map .finished).toList

end AttemptEvent

section Steps
variable [DecidableEq T]

namespace AttemptWorld

def set (w : AttemptWorld T N R) (t : T) (file : File) (p : AttemptProcess N R) :
    AttemptWorld T N R := ⟨file, Function.update w.process t p⟩

@[simp] theorem set_file (w : AttemptWorld T N R) (t : T) (file : File) (p : AttemptProcess N R) :
    (w.set t file p).file = file := rfl
@[simp] theorem set_same (w : AttemptWorld T N R) (t : T) (file : File) (p : AttemptProcess N R) :
    (w.set t file p).process t = p := Function.update_self ..
theorem set_other (w : AttemptWorld T N R) {t u : T} (file : File) (p : AttemptProcess N R)
    (hu : u ≠ t) : (w.set t file p).process u = w.process u := Function.update_of_ne hu ..

/-- `history.append(entry)` of a process. -/
def append [PyNumber N] (w : AttemptWorld T N R) (t : T) (entry : LastRunHistoryEntry N)
    (stage : AttemptStage R) : AttemptWorld T N R :=
  let appended := (w.process t).history.append w.file entry
  w.set t appended.2 { w.process t with history := appended.1, stage }

end AttemptWorld

variable [PyNumber N]

/-- One step of one process. Where `assess_result` raises, the attempt gets no
`finished` entry. -/
inductive AttemptStep (fromTimestamp : FromTimestamp N) :
    AttemptWorld T N R → AttemptEvent T N R → AttemptWorld T N R → Prop where
  | run {w : AttemptWorld T N R} {t : T} {now : Datetime} {predicate : RunPredicate}
      {reports : List Report} (ht : (w.process t).stage = .idle)
      (hcall : (w.process t).predicate.call fromTimestamp now
        ((w.process t).history.snapshot w.file) = (predicate, .ok (true, reports))) :
      AttemptStep fromTimestamp w (.evaluate t now) (w.set t w.file { w.process t with
        predicate
        history := (w.process t).history.refreshFromFileWithoutLock w.file
        stage := .decided })
  | skip {w : AttemptWorld T N R} {t : T} {now : Datetime} {predicate : RunPredicate}
      {decision : Except PyException (Bool × List Report)} (ht : (w.process t).stage = .idle)
      (hcall : (w.process t).predicate.call fromTimestamp now
        ((w.process t).history.snapshot w.file) = (predicate, decision))
      (hskip : ∀ reports, decision ≠ .ok (true, reports)) :
      AttemptStep fromTimestamp w (.evaluate t now) (w.set t w.file { w.process t with
        predicate
        history := (w.process t).history.refreshFromFileWithoutLock w.file })
  | start {w : AttemptWorld T N R} {t : T} (ht : (w.process t).stage = .decided)
      (e : LastRunAttemptStarted N) :
      AttemptStep fromTimestamp w (.start t e) (w.append t (.started e) .running)
  | jobEnds {w : AttemptWorld T N R} {t : T} (ht : (w.process t).stage = .running)
      (job : JobResult R) :
      AttemptStep fromTimestamp w (.jobEnds t job)
        (w.set t w.file { w.process t with stage := .ended job })
  | finish {w : AttemptWorld T N R} {t : T} {job : JobResult R} {outcome : Outcome}
      {details : String} (ht : (w.process t).stage = .ended job)
      (hassess : job.assessed (w.process t).assessResult = .ok (outcome, details))
      (finishedAt : N) :
      AttemptStep fromTimestamp w (.finish t (some ⟨finishedAt, outcome, details⟩))
        (w.append t (.finished ⟨finishedAt, outcome, details⟩) .idle)
  | unrecorded {w : AttemptWorld T N R} {t : T} {job : JobResult R} {e : PyException}
      (ht : (w.process t).stage = .ended job)
      (hassess : job.assessed (w.process t).assessResult = .error e) :
      AttemptStep fromTimestamp w (.finish t none)
        (w.set t w.file { w.process t with stage := .idle })

end Steps

/-! ## What is recorded, and what is decided from it -/

/-- The entries that the processes have appended. -/
def recordedBy (steps : List (AttemptWorld T N R × AttemptEvent T N R)) :
    List (LastRunHistoryEntry N) := steps.flatMap fun x => x.2.appended

theorem recordedBy_snoc (steps : List (AttemptWorld T N R × AttemptEvent T N R))
    (x : AttemptWorld T N R × AttemptEvent T N R) :
    recordedBy (steps ++ [x]) = recordedBy steps ++ x.2.appended := by
  simp [recordedBy]

/-- No process starts the job while another is at it. -/
def NoOverlap (steps : List (AttemptWorld T N R × AttemptEvent T N R)) : Prop :=
  ∀ w t e, (w, .start t e) ∈ steps → ∀ u, u ≠ t → (w.process u).attempting = false

/-- The policy lets the job run at `now`, on these entries: for the last attempt that has
finished, its period is over. -/
structure RunPredicate.LetsRun [PyNumber N] (p : RunPredicate) (fromTimestamp : FromTimestamp N)
    (now : Datetime) (entries : List (LastRunHistoryEntry N)) : Prop where
  allowed : (p.gate (finishedAttempts entries)).allows fromTimestamp now = .ok true
  spaced : ∀ e, (finishedAttempts entries).getLast? = some e →
    (∃ finish, fromTimestamp e.time = .ok finish ∧ p.period e.outcome < now - finish) ∨
      e.outcome = .failure ∧ p.onSuccessSchedule entries ∧
        ∃ s finish, lastWith .success (finishedAttempts entries) = some s ∧
          fromTimestamp s.time = .ok finish ∧ p.successPeriod < now - finish

theorem RunPredicate.letsRun_of_call [PyNumber N] {p p' : RunPredicate}
    (hunforced : p.nextReturnValue = none) {fromTimestamp : FromTimestamp N} {now : Datetime}
    {entries : List (LastRunHistoryEntry N)} {reports : List Report}
    (h : p.call fromTimestamp now entries = (p', .ok (true, reports))) :
    p.LetsRun fromTimestamp now entries := by
  have hallowed := p.call_unforced hunforced fromTimestamp now entries
  rw [h] at hallowed
  refine ⟨hallowed.symm, ?_⟩
  intro e hlast
  rcases gate_allows hlast hallowed.symm with ⟨hperiod, -⟩ | ⟨⟨hfailure, hlate⟩, hsuccess⟩
  · exact .inl hperiod
  · exact .inr ⟨hfailure, hlate, hsuccess⟩

/-- An unforced predicate stays as it is. -/
theorem RunPredicate.call_fst [PyNumber N] {p : RunPredicate} (hunforced : p.nextReturnValue = none)
    (fromTimestamp : FromTimestamp N) (now : Datetime) (entries : List (LastRunHistoryEntry N)) :
    (p.call fromTimestamp now entries).1 = p := by
  simp only [call, hunforced]

/-- `es` is the last part of what has been recorded, and no shorter than every process keeps
its history. -/
def Remembers (maxEntries : T → Nat) (recorded es : List (LastRunHistoryEntry N)) : Prop :=
  es <:+ recorded ∧ ∀ m, (∀ t, m ≤ maxEntries t) → recorded.rtake m <:+ es

/-- Since the process `t` evaluated its predicate it has done nothing else, and what had
been recorded by then lets the job run. -/
def Decided [PyNumber N] (fromTimestamp : FromTimestamp N) (p : RunPredicate)
    (maxEntries : T → Nat) (initial : List (LastRunHistoryEntry N)) (t : T)
    (steps : List (AttemptWorld T N R × AttemptEvent T N R)) : Prop :=
  ∃ before w now after es, steps = before ++ (w, .evaluate t now) :: after ∧
    (∀ x ∈ after, x.2.process ≠ t) ∧ Remembers maxEntries (initial ++ recordedBy before) es ∧
    p.LetsRun fromTimestamp now es

theorem suffix_rtake {α : Type} {xs ys : List α} {m : Nat} (h : xs <:+ ys)
    (hlen : xs.length ≤ m) : xs <:+ ys.rtake m := by
  refine List.suffix_of_suffix_length_le h (List.drop_suffix _ _) ?_
  have hle := h.length_le
  simp only [List.rtake, List.length_drop]
  omega

theorem Remembers.rtake {maxEntries : T → Nat} {recorded es : List (LastRunHistoryEntry N)}
    (h : Remembers maxEntries recorded es) (t : T) :
    Remembers maxEntries recorded (es.rtake (maxEntries t)) := by
  refine ⟨(List.drop_suffix _ _).trans h.1, fun m hm => suffix_rtake (h.2 m hm) ?_⟩
  exact (length_rtake_le m recorded).trans (hm t)

/-- One more entry, appended by a process that remembers. -/
theorem Remembers.append {maxEntries : T → Nat} {recorded es : List (LastRunHistoryEntry N)}
    (h : Remembers maxEntries recorded es) (t : T) (e : LastRunHistoryEntry N) :
    Remembers maxEntries (recorded ++ [e]) ((es ++ [e]).rtake (maxEntries t)) := by
  obtain ⟨⟨dropped, hdropped⟩, hkept⟩ := h
  refine ⟨(List.drop_suffix _ _).trans ⟨dropped, ?_⟩, fun m hm => suffix_rtake ?_ ?_⟩
  · rw [← List.append_assoc, hdropped]
  · cases m with
    | zero => simp [List.rtake_zero]
    | succ m =>
      rw [List.rtake_concat_succ]
      obtain ⟨older, holder⟩ := hkept m fun u => (Nat.le_succ m).trans (hm u)
      exact ⟨older, by rw [← List.append_assoc, holder]⟩
  · exact (length_rtake_le m _).trans (hm t)

/-! ## The invariant -/

section Runs
variable [DecidableEq T] [PyFloat N] {fromTimestamp : FromTimestamp N} {maxEntries : T → Nat}
  {w₀ w w' : AttemptWorld T N R} {recorded : List (LastRunHistoryEntry N)}

/-- The histories are on the file, and the file remembers what has been recorded. -/
structure RecordsAll (maxEntries : T → Nat) (recorded : List (LastRunHistoryEntry N))
    (w : AttemptWorld T N R) : Prop where
  on : ∀ t, (w.process t).history.On (maxEntries t) w.file
  remembers : Remembers maxEntries recorded (loadHistoryEntriesFromFile w.file)

/-- One process changes, and the file does not vanish. -/
theorem RecordsAll.on_set (h : RecordsAll maxEntries recorded w) {t : T} {file : File}
    {p : AttemptProcess N R} (hfile : file = none → w.file = none)
    (hp : p.history.On (maxEntries t) file) (u : T) :
    ((w.set t file p).process u).history.On (maxEntries u) file := by
  by_cases hu : u = t
  · subst hu
    rw [AttemptWorld.set_same]
    exact hp
  · rw [AttemptWorld.set_other _ _ _ hu]
    exact ⟨(h.on u).path, (h.on u).maxEntries, fun hnone => (h.on u).cached (hfile hnone)⟩

theorem RecordsAll.set (h : RecordsAll maxEntries recorded w) {t : T} {p : AttemptProcess N R}
    (hp : p.history.On (maxEntries t) w.file) :
    RecordsAll maxEntries recorded (w.set t w.file p) :=
  ⟨h.on_set id hp, h.remembers⟩

theorem RecordsAll.append (h : RecordsAll maxEntries recorded w) (t : T)
    (e : LastRunHistoryEntry N) (stage : AttemptStage R) :
    RecordsAll maxEntries (recorded ++ [e]) (w.append t e stage) := by
  have hon := h.on t
  have hfile : ((w.process t).history.append w.file e).2 =
      some (dumpEntries ((w.process t).history.append w.file e).1.entries) := by
    rw [LastRunHistory.append_file _ _ _ hon.path, LastRunHistory.append_entries]
  refine ⟨h.on_set ?_ ?_, ?_⟩
  · intro hnone
    rw [hfile] at hnone
    cases hnone
  · rw [hfile]
    exact (append_done hon e).on
  · rw [AttemptWorld.append, AttemptWorld.set_file, hfile, load_dumpEntries,
      LastRunHistory.append_entries, hon.snapshot_eq, hon.maxEntries]
    exact (h.remembers.rtake t).append t e

theorem recordsAll_step {e : AttemptEvent T N R} (h : RecordsAll maxEntries recorded w)
    (hstep : AttemptStep fromTimestamp w e w') :
    RecordsAll maxEntries (recorded ++ e.appended) w' := by
  cases hstep with
  | @run t | @skip t =>
    rw [AttemptEvent.appended, List.append_nil]
    exact h.set (refresh_on (h.on t))
  | @start t ht e => exact h.append t _ _
  | @jobEnds t ht job =>
    rw [AttemptEvent.appended, List.append_nil]
    exact h.set (h.on t)
  | @finish t job outcome details ht hassess finishedAt => exact h.append t _ _
  | @unrecorded t =>
    rw [AttemptEvent.appended, Option.map_none, Option.toList_none, List.append_nil]
    exact h.set (h.on t)

/-- A step is one of its process. -/
theorem process_other {e : AttemptEvent T N R} {u : T}
    (hstep : AttemptStep fromTimestamp w e w') (hu : e.process ≠ u) :
    w'.process u = w.process u := by
  cases hstep with
  | _ => exact AttemptWorld.set_other _ _ _ hu.symm

theorem predicate_step {e : AttemptEvent T N R} (hstep : AttemptStep fromTimestamp w e w')
    (hunforced : (w.process e.process).predicate.nextReturnValue = none) :
    (w'.process e.process).predicate = (w.process e.process).predicate := by
  cases hstep with
  | @run t now _ _ _ hcall | @skip t now _ _ _ hcall =>
    have hkept := RunPredicate.call_fst hunforced fromTimestamp now
      ((w.process t).history.snapshot w.file)
    rw [AttemptEvent.process, hcall] at hkept
    rw [AttemptEvent.process, AttemptWorld.set_same]
    exact hkept
  | _ => simp [AttemptEvent.process, AttemptWorld.append]

/-- It is by its predicate that a process comes to start the job. -/
theorem decided_step {e : AttemptEvent T N R} (hstep : AttemptStep fromTimestamp w e w')
    (hunforced : (w.process e.process).predicate.nextReturnValue = none)
    (hstage : (w'.process e.process).stage = .decided) : ∃ t now, e = .evaluate t now ∧
      (w.process t).predicate.LetsRun fromTimestamp now
        ((w.process t).history.snapshot w.file) := by
  cases hstep with
  | @run t now _ _ _ hcall => exact ⟨t, now, rfl, RunPredicate.letsRun_of_call hunforced hcall⟩
  | skip ht =>
    simp only [AttemptEvent.process, AttemptWorld.set_same] at hstage
    rw [ht] at hstage
    cases hstage
  | _ => simp [AttemptEvent.process, AttemptWorld.append] at hstage

/-- **The invariant** of a run from `w₀`. -/
structure AttemptsRun (fromTimestamp : FromTimestamp N) (maxEntries : T → Nat)
    (w₀ : AttemptWorld T N R) (steps : List (AttemptWorld T N R × AttemptEvent T N R))
    (w : AttemptWorld T N R) : Prop where
  records : RecordsAll maxEntries (loadHistoryEntriesFromFile w₀.file ++ recordedBy steps) w
  predicate : ∀ t, (w.process t).predicate = (w₀.process t).predicate
  decided : ∀ t, (w.process t).stage = .decided → Decided fromTimestamp (w₀.process t).predicate
    maxEntries (loadHistoryEntriesFromFile w₀.file) t steps

theorem attemptsRun_step {steps : List (AttemptWorld T N R × AttemptEvent T N R)}
    {e : AttemptEvent T N R} (h : AttemptsRun fromTimestamp maxEntries w₀ steps w)
    (hunforced : ∀ t, (w₀.process t).predicate.nextReturnValue = none)
    (hstep : AttemptStep fromTimestamp w e w') :
    AttemptsRun fromTimestamp maxEntries w₀ (steps ++ [(w, e)]) w' := by
  have hunforced' : (w.process e.process).predicate.nextReturnValue = none := by
    rw [h.predicate]
    exact hunforced _
  refine ⟨?_, ?_, ?_⟩
  · rw [recordedBy_snoc, ← List.append_assoc]
    exact recordsAll_step h.records hstep
  · intro u
    by_cases hprocess : e.process = u
    · subst hprocess
      rw [predicate_step hstep hunforced', h.predicate]
    · rw [process_other hstep hprocess, h.predicate]
  · intro u hu
    by_cases hprocess : e.process = u
    · subst hprocess
      obtain ⟨t, now, rfl, hruns⟩ := decided_step hstep hunforced' hu
      have hon := h.records.on t
      refine ⟨steps, w, now, [], _, rfl, by simp, h.records.remembers.rtake t, ?_⟩
      rw [hon.snapshot_eq, h.predicate] at hruns
      exact hruns
    · rw [process_other hstep hprocess] at hu
      obtain ⟨before, y, now, after, es, rfl, hafter, hes, hruns⟩ := h.decided u hu
      refine ⟨before, y, now, after ++ [(w, e)], es, by simp, ?_, hes, hruns⟩
      intro x hx
      rcases List.mem_append.mp hx with hx | hx
      · exact hafter x hx
      · rw [List.mem_singleton.mp hx]
        exact hprocess

theorem attemptsRun_of_execution {steps : List (AttemptWorld T N R × AttemptEvent T N R)}
    (h : Execution (AttemptStep fromTimestamp) w₀ steps w)
    (hon : ∀ t, (w₀.process t).history.On (maxEntries t) w₀.file)
    (hunforced : ∀ t, (w₀.process t).predicate.nextReturnValue = none)
    (hidle : ∀ t, (w₀.process t).stage = .idle) :
    AttemptsRun fromTimestamp maxEntries w₀ steps w := by
  induction h with
  | refl =>
    refine ⟨⟨hon, ?_⟩, fun _ => rfl, ?_⟩
    · exact ⟨by simp [recordedBy], fun m _ => by
        simpa [recordedBy, List.rtake] using List.drop_suffix _ _⟩
    · intro u hu
      rw [hidle] at hu
      cases hu
  | snoc _ hl ih => exact attemptsRun_step ih hunforced hl

/-- **A process starts the job on a decision it has taken on the finished attempts of all
the processes**, as they were recorded by then. -/
theorem starts_on_decision {steps : List (AttemptWorld T N R × AttemptEvent T N R)}
    (h : Execution (AttemptStep fromTimestamp) w₀ steps w)
    (hon : ∀ t, (w₀.process t).history.On (maxEntries t) w₀.file)
    (hunforced : ∀ t, (w₀.process t).predicate.nextReturnValue = none)
    (hidle : ∀ t, (w₀.process t).stage = .idle) :
    ∀ pre x t e post, steps = pre ++ (x, .start t e) :: post →
      Decided fromTimestamp (w₀.process t).predicate maxEntries
        (loadHistoryEntriesFromFile w₀.file) t pre := by
  intro pre x t e post hsteps
  subst hsteps
  obtain ⟨hpre, w', hstart, -⟩ := h.middle
  have hrun := attemptsRun_of_execution hpre hon hunforced hidle
  cases hstart with
  | start ht => exact hrun.decided t ht

end Runs

/-! ## Two processes -/

/-- On a history that does not exist yet. -/
def twoProcesses : AttemptWorld Bool Int Outcome :=
  ⟨none, fun _ => ⟨retryingJob, reported, ⟨[], 10, true⟩, .idle⟩⟩

/-- The second one starts when the period of the first one's success is over. -/
theorem starts_on_decision_after_success : ∃ pre x, ∃ w : AttemptWorld Bool Int Outcome,
    Execution (AttemptStep Except.ok) twoProcesses (pre ++ [(x, .start false ⟨11⟩)]) w ∧
      recordedBy pre = [firstEntry, .finished ⟨0, .success, ""⟩] ∧
      Decided Except.ok retryingJob (fun _ => 10) [] false pre := by
  have hfinish : LastRunHistory.append ⟨[firstEntry], 10, true⟩ (some (dumpEntries [firstEntry]))
      (.finished ⟨0, .success, ""⟩) =
        (⟨[firstEntry, .finished ⟨0, .success, ""⟩], 10, true⟩,
          some (dumpEntries [firstEntry, .finished ⟨0, .success, ""⟩])) := by
    simp only [LastRunHistory.append, LastRunHistory.refreshFromFileWithoutLock, Option.isSome_some,
      Bool.and_self, if_true, LastRunHistory.loadFromFileWithoutLock, load_dumpEntries]
    rfl
  have hcall : retryingJob.call Except.ok 11 ((⟨[], 10, true⟩ : LastRunHistory Int).snapshot
      (LastRunHistory.append ⟨[firstEntry], 10, true⟩ (some (dumpEntries [firstEntry]))
        (.finished ⟨0, .success, ""⟩)).2) = (retryingJob, .ok (true, [])) := by
    rw [hfinish, LastRunHistory.snapshot_file _ rfl, load_dumpEntries]
    rfl
  have hevaluate : AttemptStep Except.ok twoProcesses (.evaluate true 0) _ := .run rfl rfl
  have hrun : Execution (AttemptStep Except.ok) twoProcesses
      ([(twoProcesses, .evaluate true 0), (_, .start true ⟨0⟩),
        (_, .jobEnds true (.returned .success)), (_, .finish true (some ⟨0, .success, ""⟩)),
        (_, .evaluate false 11)] ++ [(_, .start false ⟨11⟩)]) _ :=
    .cons hevaluate (.cons (.start rfl ⟨0⟩) (.cons (.jobEnds rfl _) (.cons (.finish rfl rfl 0)
      (.cons (.run rfl hcall) (.single (.start rfl ⟨11⟩))))))
  exact ⟨_, _, _, hrun, rfl, starts_on_decision hrun (fun _ => ⟨rfl, rfl, fun _ => rfl⟩)
    (fun _ => rfl) (fun _ => rfl) _ _ _ _ [] rfl⟩

/-- The second one decides while the job of the first is running. -/
theorem attempts_overlap : ∃ steps w,
    Execution (AttemptStep Except.ok) twoProcesses steps w ∧ ¬ NoOverlap steps := by
  have hsnapshot : (⟨[], 10, true⟩ : LastRunHistory Int).snapshot
      (some (dumpEntries [firstEntry])) = [firstEntry] := by
    rw [LastRunHistory.snapshot_file _ rfl, load_dumpEntries]
    rfl
  have hcall : retryingJob.call Except.ok 1 ((⟨[], 10, true⟩ : LastRunHistory Int).snapshot
      (some (dumpEntries [firstEntry]))) = (retryingJob, .ok (true, [])) := by
    rw [hsnapshot]
    rfl
  have hevaluate : AttemptStep Except.ok twoProcesses (.evaluate true 0) _ := .run rfl rfl
  have hrun : Execution (AttemptStep Except.ok) twoProcesses
      [(twoProcesses, .evaluate true 0), (_, .start true ⟨0⟩), (_, .evaluate false 1),
        (_, .start false ⟨1⟩)] _ :=
    .cons hevaluate (.cons (.start rfl ⟨0⟩) (.cons (.run rfl hcall) (.single (.start rfl ⟨1⟩))))
  refine ⟨_, _, hrun, ?_⟩
  intro hexclusive
  have hfree := hexclusive _ false ⟨1⟩ (List.mem_of_getLast? rfl) true (by decide)
  cases hfree

end SchedulingUtil
