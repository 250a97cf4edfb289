import SchedulingUtil.LastRunPolicy

/-! # Waiting periods and the local offset from UTC

The predicate subtracts two naive local times, each at the offset of its own
instant. What it compares with the period is the elapsed time plus the change of
the offset since the attempt. -/
namespace SchedulingUtil

variable {N : Type}

/-! ## Local times -/

/-- The local offset from UTC at each instant. -/
abbrev UtcOffset := Int → Int

/-- `datetime.now()` at an instant. -/
def UtcOffset.localTime (offset : UtcOffset) (t : Int) : Datetime := t + offset t

/-- `datetime.fromtimestamp`, where `instant` says which instant a timestamp
stands for. -/
def UtcOffset.fromTimestamp (offset : UtcOffset) (instant : N → Except PyException Int) :
    FromTimestamp N :=
  fun x => (instant x).map offset.localTime

/-- Local time is UTC. -/
def utcOffset : UtcOffset := fun _ => 0

/-- The change of the offset since `finish`. -/
def UtcOffset.change (offset : UtcOffset) (finish t : Int) : Int := offset t - offset finish

@[simp] theorem utcOffset_change (finish t : Int) : utcOffset.change finish t = 0 := rfl

section Naive
variable {instant : N → Except PyException Int} {e : LastRunAttemptFinished N} {finish : Int}

/-- **The naive difference is the elapsed time plus the change of the offset.** -/
theorem allows_after_localTime (hf : instant e.time = .ok finish) (offset : UtcOffset)
    (period : Timedelta) (t : Int) :
    (Gate.after e period).allows (offset.fromTimestamp instant) (offset.localTime t) =
      .ok (decide (period < t - finish + offset.change finish t)) := by
  have hnaive : offset.localTime t - offset.localTime finish =
      t - finish + offset.change finish t := by
    show (t + offset t : Int) - (finish + offset finish) =
      t - finish + (offset t - offset finish)
    omega
  simp only [Gate.allows, UtcOffset.fromTimestamp, hf, Except.map, gt_iff_lt, hnaive]

theorem allows_after_of_error {x : PyException} (hf : instant e.time = .error x)
    (offset : UtcOffset) (period : Timedelta) (t : Int) :
    (Gate.after e period).allows (offset.fromTimestamp instant) (offset.localTime t) =
      .error x := by
  simp only [Gate.allows, UtcOffset.fromTimestamp, hf, Except.map]

end Naive

/-! ## What a change of the offset can do -/

/-- The change of the offset takes the elapsed time across the period, forwards
or backwards. -/
def UtcOffset.Carries (offset : UtcOffset) (finish t period : Int) : Prop :=
  (t - finish ≤ period ∧ period < t - finish + offset.change finish t) ∨
    (t - finish + offset.change finish t ≤ period ∧ period < t - finish)

theorem UtcOffset.not_carries_iff (offset : UtcOffset) (finish t period : Int) :
    ¬ offset.Carries finish t period ↔
      (period < t - finish + offset.change finish t ↔ period < t - finish) := by
  unfold UtcOffset.Carries
  omega

/-- The attempt that the decision at `t` counts from is one over which the
change of the offset does not take the elapsed time across the period. -/
def RunPredicate.UnmovedBy (p : RunPredicate) (offset : UtcOffset)
    (instant : N → Except PyException Int) (t : Int) (fs : List (LastRunAttemptFinished N)) :
    Prop :=
  ∀ e period finish, p.gate fs = .after e period → instant e.time = .ok finish →
    ¬ offset.Carries finish t period

/-- An offset that never changes moves no decision. -/
theorem unmovedBy_of_constant {offset : UtcOffset} (hconst : ∀ s t, offset s = offset t)
    (p : RunPredicate) (instant : N → Except PyException Int) (t : Int)
    (fs : List (LastRunAttemptFinished N)) : p.UnmovedBy offset instant t fs := by
  intro e period finish _ _
  have hzero : offset.change finish t = 0 := by
    unfold UtcOffset.change
    rw [hconst t finish, Int.sub_self]
  rw [offset.not_carries_iff, hzero, Int.add_zero]

/-- The gate allows the same at both offsets when the change shows at neither. -/
theorem allows_localTime_iff (p : RunPredicate) (offset : UtcOffset)
    (instant : N → Except PyException Int) (t : Int) (fs : List (LastRunAttemptFinished N)) :
    (p.gate fs).allows (offset.fromTimestamp instant) (offset.localTime t) =
        (p.gate fs).allows (utcOffset.fromTimestamp instant) (utcOffset.localTime t) ↔
      p.UnmovedBy offset instant t fs := by
  unfold RunPredicate.UnmovedBy
  cases hg : p.gate fs with
  | opened => simp [Gate.allows]
  | closed => simp [Gate.allows]
  | after e period =>
    cases hf : instant e.time with
    | error x =>
      rw [allows_after_of_error hf, allows_after_of_error hf]
      refine iff_of_true rfl ?_
      intro e' period' finish he hok
      cases he
      rw [hf] at hok
      cases hok
    | ok finish =>
      rw [allows_after_localTime hf, allows_after_localTime hf, utcOffset_change, Int.add_zero,
        Except.ok.injEq, decide_eq_decide, ← offset.not_carries_iff]
      constructor
      · intro h e' period' finish' he hok
        cases he
        rw [hf] at hok
        cases hok
        exact h
      · intro h
        exact h e period finish rfl hf

variable [PyNumber N]

/-- **A decision depends on the elapsed time alone exactly when the offset's
change since the attempt it counts from does not take that time across the
period.** -/
theorem decision_by_elapsed_time_iff (offset : UtcOffset) (instant : N → Except PyException Int)
    (p : RunPredicate) (hunforced : p.nextReturnValue = none) (es : List (LastRunHistoryEntry N))
    (t : Int) :
    ((p.call (offset.fromTimestamp instant) (offset.localTime t) es).2.map Prod.fst =
        (p.call (utcOffset.fromTimestamp instant) (utcOffset.localTime t) es).2.map Prod.fst) ↔
      p.UnmovedBy offset instant t (finishedAttempts es) := by
  rw [p.call_unforced hunforced, p.call_unforced hunforced]
  exact allows_localTime_iff p offset instant t (finishedAttempts es)

/-! ## The hour that is skipped and the hour that is repeated -/

def minutes (n : Int) : Timedelta := n * 60000000

/-- The next attempt is more than half an hour after a success. -/
def halfHourly : RunPredicate :=
  ⟨minutes 30, minutes 30, minutes 5, 1, .successSchedule, false, none⟩

/-- At instant 0 the clocks go forward by an hour. -/
def springForward : UtcOffset := fun t => if t < 0 then 0 else minutes 60

/-- At instant 0 they go back. -/
def fallBack : UtcOffset := fun t => if t < 0 then minutes 60 else 0

def succeededAt (t : Int) : List (LastRunHistoryEntry Int) := [.finished ⟨t, .success, ""⟩]

theorem gate_succeededAt (t : Int) :
    halfHourly.gate (finishedAttempts (succeededAt t)) = .after ⟨t, .success, ""⟩ (minutes 30) :=
  rfl

/-- A success ten minutes before the clocks change and a call forty minutes
after it decide by the elapsed fifty minutes when the clocks go forward. -/
theorem decision_by_elapsed_time_in_spring :
    (halfHourly.call (springForward.fromTimestamp .ok) (springForward.localTime (minutes 40))
        (succeededAt (minutes (-10)))).2.map Prod.fst =
      (halfHourly.call (utcOffset.fromTimestamp .ok) (utcOffset.localTime (minutes 40))
        (succeededAt (minutes (-10)))).2.map Prod.fst := by
  refine (decision_by_elapsed_time_iff springForward .ok halfHourly rfl
    (succeededAt (minutes (-10))) (minutes 40)).mpr ?_
  intro e period finish hgate hok
  rw [gate_succeededAt] at hgate
  cases hgate
  cases hok
  rw [UtcOffset.not_carries_iff]
  simp [UtcOffset.change, springForward, minutes]

/-- Ten minutes before the clocks change the job succeeds. Going forward, they
let it run again after eleven minutes; going back, they hold it up after fifty. -/
theorem offset_change_moves_decision :
    ((halfHourly.call (springForward.fromTimestamp .ok) (springForward.localTime (minutes 1))
        (succeededAt (minutes (-10)))).2.map Prod.fst = .ok true ∧
      (halfHourly.call (utcOffset.fromTimestamp .ok) (utcOffset.localTime (minutes 1))
        (succeededAt (minutes (-10)))).2.map Prod.fst = .ok false) ∧
    ((halfHourly.call (fallBack.fromTimestamp .ok) (fallBack.localTime (minutes 40))
        (succeededAt (minutes (-10)))).2.map Prod.fst = .ok false ∧
      (halfHourly.call (utcOffset.fromTimestamp .ok) (utcOffset.localTime (minutes 40))
        (succeededAt (minutes (-10)))).2.map Prod.fst = .ok true) := by
  refine ⟨⟨?_, ?_⟩, ?_, ?_⟩ <;> rfl

end SchedulingUtil
