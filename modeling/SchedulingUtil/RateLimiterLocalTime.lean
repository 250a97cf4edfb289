import Mathlib.Data.List.Chain
import SchedulingUtil.LastRunLocalTime
import SchedulingUtil.RollingWindowExact

/-! # Rate limits and the local offset from UTC

Both limiters record naive local times and compare them with the naive local time of a
later call. When the clocks go forward in between, an event looks older than it is. -/
namespace SchedulingUtil
open Lib

/-- By the naive local times the period since `s` is over, though it is not. -/
def UtcOffset.Hastens (offset : UtcOffset) (period s t : Int) : Prop :=
  t - s < period ∧ period ≤ t - s + offset.change s t

theorem UtcOffset.localTime_sub (offset : UtcOffset) (s t : Int) :
    offset.localTime t - offset.localTime s = t - s + offset.change s t := by
  show (t + offset t : Int) - (s + offset s) = t - s + (offset t - offset s)
  omega

/-- Where the offset has not grown, no period is over early. -/
theorem UtcOffset.not_hastens_of_le {offset : UtcOffset} {s t : Int} (h : offset t ≤ offset s)
    (period : Int) : ¬ offset.Hastens period s t := by
  unfold UtcOffset.Hastens UtcOffset.change
  omega

/-! ## `RateLimiter` -/

/-- `path` says whether there is one; the modification time of the file there, an instant,
is passed along. -/
structure RateLimiter where
  minimumPeriod : Timedelta
  path : Bool
  timestamp : Datetime

/-- When a call checks the limiter, and when it records that it was let through. -/
structure PingTimes where
  now : Int
  touched : Int
  now_le_touched : now ≤ touched

namespace RateLimiter
variable (offset : UtcOffset)

/-- Without a file the time is the epoch. -/
def refreshTimestampFromDisk (l : RateLimiter) (mtime : Option Int) : RateLimiter :=
  if l.path then { l with timestamp := offset.localTime (mtime.getD 0) } else l

def isReadyAt (l : RateLimiter) (now : Datetime) : Bool := now - l.timestamp ≥ l.minimumPeriod

def touchPersistentTimestamp (l : RateLimiter) (mtime : Option Int) (now : Int) :
    RateLimiter × Option Int :=
  if l.path then (l.refreshTimestampFromDisk offset (some now), some now)
  else ({ l with timestamp := offset.localTime now }, mtime)

def pingIfReady (l : RateLimiter) (mtime : Option Int) (c : PingTimes) :
    Bool × RateLimiter × Option Int :=
  let l := l.refreshTimestampFromDisk offset mtime
  if l.isReadyAt (offset.localTime c.now) then
    (true, l.touchPersistentTimestamp offset mtime c.touched)
  else (false, l, mtime)

/-- The local time that the next call counts from. -/
def recorded (l : RateLimiter) (mtime : Option Int) : Datetime :=
  (l.refreshTimestampFromDisk offset mtime).timestamp

section Facts
variable (l : RateLimiter) (mtime : Option Int)

@[simp] theorem refresh_minimumPeriod :
    (l.refreshTimestampFromDisk offset mtime).minimumPeriod = l.minimumPeriod := by
  unfold refreshTimestampFromDisk
  split <;> rfl

@[simp] theorem refresh_path : (l.refreshTimestampFromDisk offset mtime).path = l.path := by
  unfold refreshTimestampFromDisk
  split <;> rfl

theorem recorded_refresh :
    (l.refreshTimestampFromDisk offset mtime).recorded offset mtime = l.recorded offset mtime := by
  unfold recorded refreshTimestampFromDisk
  cases hp : l.path <;> simp [hp]

theorem touch_minimumPeriod (now : Int) :
    (l.touchPersistentTimestamp offset mtime now).1.minimumPeriod = l.minimumPeriod := by
  unfold touchPersistentTimestamp
  split <;> simp

theorem recorded_touch (now : Int) :
    (l.touchPersistentTimestamp offset mtime now).1.recorded offset
      (l.touchPersistentTimestamp offset mtime now).2 = offset.localTime now := by
  unfold touchPersistentTimestamp recorded refreshTimestampFromDisk
  cases l.path <;> simp

end Facts

/-- **What a call does**: it answers `True` when the recorded local time is the period back,
and then it records its own. -/
theorem pingIfReady_spec (l : RateLimiter) (mtime : Option Int) (c : PingTimes) :
    ((l.pingIfReady offset mtime c).1 = true ↔
      l.minimumPeriod ≤ offset.localTime c.now - l.recorded offset mtime) ∧
    (l.pingIfReady offset mtime c).2.1.minimumPeriod = l.minimumPeriod ∧
    (l.pingIfReady offset mtime c).2.1.recorded offset (l.pingIfReady offset mtime c).2.2 =
      if (l.pingIfReady offset mtime c).1 then offset.localTime c.touched
      else l.recorded offset mtime := by
  have hready : (l.refreshTimestampFromDisk offset mtime).isReadyAt (offset.localTime c.now) =
      true ↔ l.minimumPeriod ≤ offset.localTime c.now - l.recorded offset mtime := by
    rw [isReadyAt, decide_eq_true_eq, refresh_minimumPeriod]
    rfl
  rw [pingIfReady]
  by_cases hr : (l.refreshTimestampFromDisk offset mtime).isReadyAt (offset.localTime c.now) = true
  · rw [if_pos hr]
    refine ⟨iff_of_true rfl (hready.mp hr), ?_, ?_⟩
    · exact (touch_minimumPeriod offset _ mtime c.touched).trans (refresh_minimumPeriod ..)
    · exact recorded_touch offset _ mtime c.touched
  · rw [if_neg hr]
    refine ⟨iff_of_false Bool.false_ne_true (mt hready.mpr hr), ?_, ?_⟩
    · exact refresh_minimumPeriod ..
    · exact recorded_refresh offset l mtime

end RateLimiter

/-- One limiter with its file and the clock; `answers` are the calls that returned `True`. -/
structure RateLimiterUse where
  limiter : RateLimiter
  mtime : Option Int
  clock : Int
  answers : List PingTimes

/-- A call of `ping_if_ready`, not before the last one. -/
def RateLimiterUse.pinged (offset : UtcOffset) (s : RateLimiterUse) (c : PingTimes) :
    RateLimiterUse :=
  let (ready, limiter, mtime) := s.limiter.pingIfReady offset s.mtime c
  { limiter, mtime, clock := c.touched, answers := if ready then s.answers ++ [c] else s.answers }

abbrev RateLimiterRun (offset : UtcOffset) :
    RateLimiterUse → List (RateLimiterUse × PingTimes) → RateLimiterUse → Prop :=
  Execution fun s c s' => s.clock ≤ c.now ∧ s' = s.pinged offset c

/-- Successive `True` answers are the period apart. -/
def PeriodApart (period : Timedelta) (answers : List PingTimes) : Prop :=
  answers.IsChain fun c d => c.touched + period ≤ d.now

/-- At the call, the period since the last `True` is over too early. -/
def RateLimiterUse.Hastened (offset : UtcOffset) (s : RateLimiterUse) (c : PingTimes) : Prop :=
  ∃ last, s.answers.getLast? = some last ∧
    offset.Hastens s.limiter.minimumPeriod last.touched c.now

section RateLimiterRuns
variable {offset : UtcOffset} {period : Int} {s₀ s s' : RateLimiterUse} {c : PingTimes}

/-- **The invariant**: a call counts from the last `True` answer. -/
structure RateLimiterUse.Counts (offset : UtcOffset) (period : Int) (s : RateLimiterUse) :
    Prop where
  minimumPeriod : s.limiter.minimumPeriod = period
  recorded : ∀ last, s.answers.getLast? = some last →
    s.limiter.recorded offset s.mtime = offset.localTime last.touched

theorem hastens_iff (h : s.Counts offset period) {last : PingTimes}
    (hlast : s.answers.getLast? = some last)
    (hready : (s.limiter.pingIfReady offset s.mtime c).1 = true) :
    offset.Hastens period last.touched c.now ↔ ¬ last.touched + period ≤ c.now := by
  have hle := (s.limiter.pingIfReady_spec offset s.mtime c).1.mp hready
  rw [h.recorded last hlast, h.minimumPeriod, offset.localTime_sub] at hle
  have hle' : period ≤ c.now - last.touched + offset.change last.touched c.now := hle
  unfold UtcOffset.Hastens
  omega

theorem periodApart_pinged (h : s.Counts offset period) :
    (s.pinged offset c).Counts offset period ∧
      (PeriodApart period (s.pinged offset c).answers ↔
        PeriodApart period s.answers ∧ ¬ s.Hastened offset c) := by
  obtain ⟨hready, hperiod, hrecorded⟩ := s.limiter.pingIfReady_spec offset s.mtime c
  have hminimum : (s.pinged offset c).limiter.minimumPeriod = period :=
    hperiod.trans h.minimumPeriod
  cases hr : (s.limiter.pingIfReady offset s.mtime c).1 with
  | true =>
    have hanswers : (s.pinged offset c).answers = s.answers ++ [c] := by
      simp [RateLimiterUse.pinged, hr]
    rw [hr, if_pos rfl] at hrecorded
    refine ⟨⟨hminimum, ?_⟩, ?_⟩
    · intro last hlast
      rw [hanswers, List.getLast?_concat] at hlast
      cases hlast
      exact hrecorded
    · rw [hanswers, PeriodApart, List.isChain_append]
      refine and_congr_right fun _ => ?_
      constructor
      · rintro ⟨-, hapart⟩ ⟨last, hlast, hhastens⟩
        rw [h.minimumPeriod, hastens_iff h hlast hr] at hhastens
        exact hhastens (hapart last hlast c rfl)
      · intro hnot
        refine ⟨List.isChain_singleton c, ?_⟩
        rintro last hlast d hd
        obtain rfl : c = d := Option.some.inj hd
        by_contra hlt
        refine hnot ⟨last, hlast, ?_⟩
        rwa [h.minimumPeriod, hastens_iff h hlast hr]
  | false =>
    have hanswers : (s.pinged offset c).answers = s.answers := by
      simp [RateLimiterUse.pinged, hr]
    rw [hr, if_neg Bool.false_ne_true] at hrecorded
    refine ⟨⟨hminimum, ?_⟩, ?_⟩
    · intro last hlast
      rw [hanswers] at hlast
      exact hrecorded.trans (h.recorded last hlast)
    · rw [hanswers, iff_self_and]
      rintro - ⟨last, hlast, hhastens⟩
      rw [hready.mpr] at hr
      · cases hr
      · rw [h.recorded last hlast, offset.localTime_sub]
        exact hhastens.2

/-- Two successive `True` answers are too close exactly where a call in between, or the
second of them, finds the period over too early. -/
theorem periodApart_iff {steps : List (RateLimiterUse × PingTimes)}
    (h : RateLimiterRun offset s₀ steps s) (hstart : s₀.answers = []) :
    PeriodApart s₀.limiter.minimumPeriod s.answers ↔ ∀ x ∈ steps, ¬ x.1.Hastened offset x.2 := by
  suffices s.Counts offset s₀.limiter.minimumPeriod ∧
      (PeriodApart s₀.limiter.minimumPeriod s.answers ↔
        ∀ x ∈ steps, ¬ x.1.Hastened offset x.2) from this.2
  induction h with
  | refl =>
    refine ⟨⟨rfl, ?_⟩, ?_⟩
    · intro last hlast
      rw [hstart] at hlast
      cases hlast
    · rw [hstart]
      exact iff_of_true .nil (by simp)
  | snoc _ hl ih =>
    obtain ⟨-, rfl⟩ := hl
    obtain ⟨hcounts, hiff⟩ := periodApart_pinged ih.1
    refine ⟨hcounts, ?_⟩
    rw [hiff, ih.2]
    simp [or_imp, forall_and]

end RateLimiterRuns

/-! ## `RollingWindowRateLimiter` -/

namespace RollingWindowRateLimiter

variable {N : Type} [PyFloat N] (P : Platform N)

/-- A call at the local time `now`, as the lock lets it run. -/
def pingIfReady (l : RollingWindowRateLimiter) (file : File) (now : Datetime) :
    Except PyException (Bool × RollingWindowRateLimiter × File) :=
  (l.refreshTimestampsFromDisk P file).map fun l =>
    let (ready, l) := l.isReadyAt now
    if ready then
      let l := { l with timestamps := l.timestamps ++ [now] }
      (true, l, l.writeTimestampsToDisk P file)
    else (false, l, file)

variable {P} {l : RollingWindowRateLimiter} {file : File} {now : Datetime}

/-- The steps under the lock, taken one after the other. -/
theorem pingIfReady_steps {I : Type} [DecidableEq I] {w : LimiterWorld I} {i : I}
    (hclock : w.clock ≤ now) (hr : P.RoundTrips now) {ready : Bool}
    (h : (w.limiters i).pingIfReady P w.file now = .ok (ready, l, file)) :
    Relation.ReflTransGen (LimiterStep P) (⟨i, .pingIfReady, .now, 0⟩, w)
      (⟨i, .pingIfReady, .done (.decided now ready), now⟩,
        { file, clock := now, limiters := Function.update w.limiters i l }) := by
  unfold pingIfReady at h
  cases hl : (w.limiters i).refreshTimestampsFromDisk P w.file with
  | error e =>
    rw [hl] at h
    cases h
  | ok l₁ =>
    rw [hl, Except.map, Except.ok.injEq] at h
    have hnow : LimiterStep P (⟨i, .pingIfReady, .now, 0⟩, w)
        (⟨i, .pingIfReady, .refresh, now⟩, { w with clock := now }) := .now rfl hclock hr
    have hrefresh : LimiterStep P (⟨i, .pingIfReady, .refresh, now⟩, { w with clock := now })
        (⟨i, .pingIfReady, .check, now⟩, { w with clock := now }.setLimiter i l₁) := .refresh rfl hl
    have hcheck := LimiterStep.check (P := P) (c := ⟨i, .pingIfReady, .check, now⟩)
      (w := { w with clock := now }.setLimiter i l₁) rfl
    have hself (m : RollingWindowRateLimiter) (v : LimiterWorld I) :
        (v.setLimiter i m).limiters i = m := Function.update_self ..
    have htwice (m m' : RollingWindowRateLimiter) (v : LimiterWorld I) :
        (v.setLimiter i m).setLimiter i m' = v.setLimiter i m' := by simp [LimiterWorld.setLimiter]
    rw [hself, htwice] at hcheck
    have hloaded := (Relation.ReflTransGen.single hnow).tail hrefresh |>.tail hcheck
    cases hready : (l₁.isReadyAt now).1 with
    | false =>
      simp only [hready, Bool.false_eq_true, if_false, Prod.mk.injEq] at h
      obtain ⟨rfl, rfl, rfl⟩ := h
      rwa [hready] at hloaded
    | true =>
      simp only [hready, if_true, Prod.mk.injEq] at h
      obtain ⟨rfl, rfl, rfl⟩ := h
      rw [hready] at hloaded
      have happend := LimiterStep.append (P := P) (c := ⟨i, .pingIfReady, .append, now⟩)
        (w := { w with clock := now }.setLimiter i (l₁.isReadyAt now).2) rfl
      rw [hself, htwice] at happend
      have hwrite := LimiterStep.write (P := P) (c := ⟨i, .pingIfReady, .write, now⟩)
        (w := { w with clock := now }.setLimiter i
          { (l₁.isReadyAt now).2 with timestamps := (l₁.isReadyAt now).2.timestamps ++ [now] }) rfl
      rw [hself] at hwrite
      exact (hloaded.tail happend).tail hwrite

theorem pingIfReady_of_error {e : PyException} (h : l.stored P file = .error e) :
    l.pingIfReady P file now = .error e := by
  unfold stored at h
  unfold pingIfReady
  cases hr : l.refreshTimestampsFromDisk P file with
  | error e' =>
    rw [hr] at h
    cases h
    rfl
  | ok l' =>
    rw [hr] at h
    cases h

/-- **What a call does** with the timestamps that it starts from. -/
theorem pingIfReady_of_ok {ts : List Datetime} (h : l.stored P file = .ok ts)
    (hts : ∀ d ∈ ts, P.RoundTrips d) (hnow : P.RoundTrips now) :
    ∃ ready l' file', l.pingIfReady P file now = .ok (ready, l', file') ∧
      (l'.maxEvents = l.maxEvents ∧ l'.window = l.window) ∧
      (ready = true ↔ (ts.filter (now - l.window < ·)).length < l.maxEvents) ∧
      ∃ ts', l'.stored P file' = .ok ts' ∧ (∀ d ∈ ts', P.RoundTrips d) ∧
        (ts.filter (now - l.window < ·) ++ if ready then [now] else []).Sublist ts' := by
  rw [pingIfReady, refresh_eq h]
  by_cases hready : (ts.filter (now - l.window < ·)).length < l.maxEvents
  · have hall : ∀ d ∈ ts.filter (now - l.window < ·) ++ [now], P.RoundTrips d := by
      intro d hd
      rcases List.mem_append.mp hd with hd | hd
      · exact hts d (List.mem_of_mem_filter hd)
      · rwa [List.mem_singleton.mp hd]
    refine ⟨true, { l with timestamps := ts.filter (now - l.window < ·) ++ [now] }, _, ?_,
      ⟨rfl, rfl⟩, iff_of_true rfl hready, _, stored_writeTimestampsToDisk hall file, hall, .refl _⟩
    simp [Except.map, isReadyAt, pruneTimestamps, hready]
  · refine ⟨false, { l with timestamps := ts.filter (now - l.window < ·) }, file, ?_, ⟨rfl, rfl⟩,
      iff_of_false Bool.false_ne_true hready, ?_⟩
    · simp [Except.map, isReadyAt, pruneTimestamps, hready]
    · by_cases hp : l.path = none
      · have hstored :=
          stored_inMemory (P := P) (l := { l with timestamps := ts.filter (now - l.window < ·) }) hp
            file
        exact ⟨_, hstored, fun d hd => hts d (List.mem_of_mem_filter hd), by simp⟩
      · have hpath : l.path.isSome := Option.isSome_iff_ne_none.mpr hp
        refine ⟨ts, stored_shared hpath hpath h, hts, ?_⟩
        simp

end RollingWindowRateLimiter

/-- One limiter with its file and the clock; `answers` are the times of the calls that
returned `True`. -/
structure RollingWindowUse where
  limiter : RollingWindowRateLimiter
  file : File
  clock : Int
  answers : List Int

section RollingWindowRuns
variable {N : Type} [PyFloat N] (P : Platform N) (offset : UtcOffset)

/-- A call at an instant; one that raises has not answered. -/
def RollingWindowUse.pinged (s : RollingWindowUse) (now : Int) : RollingWindowUse :=
  match s.limiter.pingIfReady P s.file (offset.localTime now) with
  | .ok (ready, limiter, file) =>
    { limiter, file, clock := now, answers := if ready then s.answers ++ [now] else s.answers }
  | .error _ => { s with clock := now }

/-- No call is before the last one, and the local times survive the file. -/
abbrev RollingWindowRun :
    RollingWindowUse → List (RollingWindowUse × Int) → RollingWindowUse → Prop :=
  Execution fun s now s' =>
    s.clock ≤ now ∧ P.RoundTrips (offset.localTime now) ∧ s' = s.pinged P offset now

/-- At the call, a `True` answer of the last window looks older than the window. -/
def RollingWindowUse.Hastened (s : RollingWindowUse) (now : Int) : Prop :=
  ∃ t ∈ s.answers, offset.Hastens s.limiter.window t now

/-- No half-open interval of the window's length holds more answers than the limit. -/
def WithinLimit (window maxEvents : Int) (answers : List Int) : Prop :=
  ∀ a : Int,
    ((answers.countP fun t => a ≤ t ∧ t < a + window : Nat) : Int) ≤ maxEvents ∧
      ((answers.countP fun t => a < t ∧ t ≤ a + window : Nat) : Int) ≤ maxEvents

/-- The limiter starts from timestamps, whosever they are, that survive the file. -/
def RollingWindowUse.Fresh (s : RollingWindowUse) : Prop :=
  s.answers = [] ∧ ∀ ts, s.limiter.stored P s.file = .ok ts → ∀ d ∈ ts, P.RoundTrips d

/-- **The invariant**: each `True` answer had room in its real window, and those that can
still count are among the timestamps the next call starts from. -/
structure RollingWindowUse.Admits (w : Int) (k : Int) (s : RollingWindowUse) : Prop where
  maxEvents : s.limiter.maxEvents = k
  window : s.limiter.window = w
  past : ∀ t ∈ s.answers, t ≤ s.clock
  sorted : s.answers.Pairwise (· ≤ ·)
  admitted : Window.Admitted w k.toNat s.answers
  kept : ∀ ts, s.limiter.stored P s.file = .ok ts → (∀ d ∈ ts, P.RoundTrips d) ∧
    ((Window.prune w s.clock s.answers).map offset.localTime).Sublist ts

variable {P offset} {w k : Int} {s₀ s : RollingWindowUse} {now : Int}

/-- A weaker filter keeps more. -/
theorem filter_sublist_filter {α : Type} {p q : α → Bool} {xs : List α}
    (h : ∀ x ∈ xs, p x = true → q x = true) : (xs.filter p).Sublist (xs.filter q) := by
  have hand : xs.filter p = (xs.filter q).filter p := by
    rw [List.filter_filter]
    refine List.filter_congr fun x hx => ?_
    cases hp : p x with
    | true => simp [h x hx hp]
    | false => rfl
  rw [hand]
  exact List.filter_sublist

/-- Where no answer looks too old, the timestamps in the local window are at least those in
the real one. -/
theorem prune_sublist (h : s.Admits P offset w k) (hnow : s.clock ≤ now)
    (hcond : ¬ s.Hastened offset now) {ts : List Datetime}
    (hts : s.limiter.stored P s.file = .ok ts) :
    ((Window.prune w now s.answers).map offset.localTime).Sublist
      (ts.filter (offset.localTime now - w < ·)) := by
  have hmono : ∀ t ∈ s.answers, now - w < t → offset.localTime now - w < offset.localTime t := by
    intro t ht hlt
    have hle : ¬ offset.Hastens w t now := fun hh => hcond ⟨t, ht, by rwa [h.window]⟩
    unfold UtcOffset.Hastens UtcOffset.change at hle
    show (now + offset now : Int) - w < t + offset t
    omega
  refine .trans ?_ ((h.kept ts hts).2.filter (offset.localTime now - w < ·))
  rw [List.filter_map, ← Window.prune_prune hnow]
  refine (filter_sublist_filter ?_).map _
  intro t ht hlt
  simp only [Function.comp_apply, decide_eq_true_eq] at hlt ⊢
  exact hmono t (List.mem_of_mem_filter ht) hlt

theorem admits_pinged (h : s.Admits P offset w k) (hnow : s.clock ≤ now)
    (hr : P.RoundTrips (offset.localTime now)) (hcond : ¬ s.Hastened offset now) :
    (s.pinged P offset now).Admits P offset w k := by
  have hpast : ∀ t ∈ s.answers, t ≤ now := fun t ht => (h.past t ht).trans hnow
  cases hstored : s.limiter.stored P s.file with
  | error e =>
    have hpinged : s.pinged P offset now = { s with clock := now } := by
      rw [RollingWindowUse.pinged, RollingWindowRateLimiter.pingIfReady_of_error hstored]
    rw [hpinged]
    refine ⟨h.maxEvents, h.window, hpast, h.sorted, h.admitted, ?_⟩
    intro ts hts
    rw [hstored] at hts
    cases hts
  | ok ts =>
    obtain ⟨ready, l', file', hping, ⟨hmax, hwindow⟩, hready, ts', hts', hrt, hsub'⟩ :=
      RollingWindowRateLimiter.pingIfReady_of_ok hstored (h.kept ts hstored).1 hr
    have hpinged : s.pinged P offset now =
        ⟨l', file', now, if ready then s.answers ++ [now] else s.answers⟩ := by
      rw [RollingWindowUse.pinged, hping]
    have hsub := prune_sublist h hnow hcond hstored
    rw [h.window] at hready hsub'
    rw [hpinged]
    cases ready with
    | true =>
      have hroom : Window.count w now s.answers < k.toNat := by
        have hlt := hready.mp rfl
        have hle := hsub.length_le
        rw [List.length_map, Window.length_prune hpast] at hle
        rw [h.maxEvents] at hlt
        omega
      have hnew : ((Window.prune w now [now]).map offset.localTime).Sublist
          [offset.localTime now] := List.filter_sublist.map offset.localTime
      refine ⟨hmax.trans h.maxEvents, hwindow.trans h.window, ?_, ?_, h.admitted.snoc hroom, ?_⟩
      · intro t ht
        rcases List.mem_append.mp ht with ht | ht
        · exact hpast t ht
        · exact (List.mem_singleton.mp ht).le
      · refine List.pairwise_append.mpr ⟨h.sorted, List.pairwise_singleton .., ?_⟩
        intro t ht u hu
        rw [List.mem_singleton.mp hu]
        exact hpast t ht
      · intro ts'' hts''
        obtain rfl := Except.ok.inj (hts'.symm.trans hts'')
        refine ⟨hrt, ?_⟩
        dsimp only
        rw [if_pos rfl, Window.prune_append, List.map_append]
        exact (hsub.append hnew).trans hsub'
    | false =>
      refine ⟨hmax.trans h.maxEvents, hwindow.trans h.window, hpast, h.sorted, h.admitted, ?_⟩
      intro ts'' hts''
      obtain rfl := Except.ok.inj (hts'.symm.trans hts'')
      rw [if_neg Bool.false_ne_true, List.append_nil] at hsub'
      exact ⟨hrt, hsub.trans hsub'⟩

theorem admits_run {steps : List (RollingWindowUse × Int)}
    (h : RollingWindowRun P offset s₀ steps s) (hs : s₀.Fresh P)
    (hcond : ∀ x ∈ steps, ¬ x.1.Hastened offset x.2) :
    s.Admits P offset s₀.limiter.window s₀.limiter.maxEvents := by
  obtain ⟨hstart, hts⟩ := hs
  induction h with
  | refl =>
    refine ⟨rfl, rfl, ?_, ?_, ?_, ?_⟩
    · simp [hstart]
    · simp [hstart]
    · rw [hstart]
      exact Window.admitted_nil _ _
    · intro ts hstored
      refine ⟨hts ts hstored, ?_⟩
      rw [hstart]
      exact List.nil_sublist ts
  | snoc _ hl ih =>
    obtain ⟨hnow, hr, rfl⟩ := hl
    refine admits_pinged (ih fun x hx => hcond x (List.mem_append_left _ hx)) hnow hr ?_
    exact hcond _ (List.mem_append_right _ (List.mem_singleton_self _))

end RollingWindowRuns

/-- **The limits hold in real time where no event is aged by a change of the offset.** For
the plain limiter the condition on the calls of a run is exact. -/
theorem rate_limits_hold {N : Type} [PyFloat N] (P : Platform N) (offset : UtcOffset) :
    (∀ (s₀ s : RateLimiterUse) (steps : List (RateLimiterUse × PingTimes)),
      s₀.answers = [] → RateLimiterRun offset s₀ steps s →
        (PeriodApart s₀.limiter.minimumPeriod s.answers ↔
          ∀ x ∈ steps, ¬ x.1.Hastened offset x.2)) ∧
    ∀ (s₀ s : RollingWindowUse) (steps : List (RollingWindowUse × Int)),
      s₀.Fresh P → RollingWindowRun P offset s₀ steps s →
        (∀ x ∈ steps, ¬ x.1.Hastened offset x.2) →
          WithinLimit s₀.limiter.window s₀.limiter.maxEvents s.answers := by
  refine ⟨fun s₀ s steps hstart h => periodApart_iff h hstart, ?_⟩
  intro s₀ s steps hs h hcond a
  have hadmits := admits_run h hs hcond
  have hmax := s₀.limiter.one_le_maxEvents
  have hIco := hadmits.admitted.countP_Ico_le hadmits.sorted a
  have hIoc := hadmits.admitted.countP_Ioc_le hadmits.sorted a
  omega

/-! ### The skipped hour -/

/-- A platform whose timestamps are the local times in microseconds. -/
def plainPlatform : Platform Int := ⟨id, .ok, fun _ => .valueError "not UTF-8"⟩

/-- Twelve hours after the epoch the clocks go forward by an hour. -/
def forwardAtNoon : UtcOffset := fun t => if t < minutes 720 then 0 else minutes 60

def halfHourlyLimiter : RateLimiterUse := ⟨⟨minutes 30, false, 0⟩, none, 0, []⟩

theorem oneEvent_pos : (1 : Int) ≤ 1 := Int.le_refl 1

def oneAnHalfHour : RollingWindowUse :=
  ⟨⟨1, minutes 30, none, [], oneEvent_pos, Int.natCast_nonneg 1800000000⟩, none, 0, []⟩

def pingAt (t : Int) : PingTimes := ⟨t, t, le_rfl⟩

/-- With forty minutes between two calls, the skipped hour does not matter. -/
theorem rate_limits_hold_across_noon :
    (∃ steps s, RateLimiterRun forwardAtNoon halfHourlyLimiter steps s ∧
      PeriodApart (minutes 30) s.answers) ∧
    ∃ steps s, RollingWindowRun plainPlatform forwardAtNoon oneAnHalfHour steps s ∧
      WithinLimit (minutes 30) 1 s.answers := by
  obtain ⟨hperiod, hwindow⟩ := rate_limits_hold plainPlatform forwardAtNoon
  constructor
  · have hfirst : RateLimiterRun forwardAtNoon halfHourlyLimiter [(_, pingAt (minutes 710))]
        ⟨⟨minutes 30, false, minutes 710⟩, none, minutes 710, [pingAt (minutes 710)]⟩ :=
      .single ⟨by decide, rfl⟩
    have hrun := hfirst.snoc (l := pingAt (minutes 750)) ⟨by decide, rfl⟩
    refine ⟨_, _, hrun, (hperiod _ _ _ rfl hrun).mpr ?_⟩
    rintro x hx ⟨last, hlast, hhastens⟩
    rcases List.mem_append.mp hx with hx | hx
    · rw [List.mem_singleton.mp hx] at hlast
      cases hlast
    · rw [List.mem_singleton.mp hx] at hlast hhastens
      cases hlast
      exact absurd hhastens.1 (by decide)
  · have hfirst : RollingWindowRun plainPlatform forwardAtNoon oneAnHalfHour [(_, minutes 710)]
        ⟨⟨1, minutes 30, none, [minutes 710], le_rfl, by decide⟩, none, minutes 710,
          [minutes 710]⟩ := .single ⟨by decide, rfl, rfl⟩
    have hrun := hfirst.snoc (l := minutes 750) ⟨by decide, rfl, rfl⟩
    refine ⟨_, _, hrun, hwindow _ _ _ ⟨rfl, ?_⟩ hrun ?_⟩
    · rintro ts hts d hd
      cases hts
      cases hd
    · rintro x hx ⟨t, ht, hhastens⟩
      rcases List.mem_append.mp hx with hx | hx
      · rw [List.mem_singleton.mp hx] at ht
        cases ht
      · rw [List.mem_singleton.mp hx] at ht hhastens
        rw [List.mem_singleton.mp ht] at hhastens
        exact absurd hhastens.1 (by decide)

/-- Ten minutes before the clocks go forward either limiter answers `True`, and eleven
minutes later again. -/
theorem skipped_hour_lets_through :
    (∃ steps s, RateLimiterRun forwardAtNoon halfHourlyLimiter steps s ∧
      ¬ PeriodApart (minutes 30) s.answers) ∧
    ∃ steps s, RollingWindowRun plainPlatform forwardAtNoon oneAnHalfHour steps s ∧
      ¬ WithinLimit (minutes 30) 1 s.answers := by
  constructor
  · have hfirst : RateLimiterRun forwardAtNoon halfHourlyLimiter [(_, pingAt (minutes 710))]
        ⟨⟨minutes 30, false, minutes 710⟩, none, minutes 710, [pingAt (minutes 710)]⟩ :=
      .single ⟨by decide, rfl⟩
    have hrun := hfirst.snoc (l := pingAt (minutes 721)) ⟨by decide, rfl⟩
    refine ⟨_, _, hrun, ?_⟩
    intro hapart
    have hlast := (periodApart_iff hrun rfl).mp hapart _ (List.mem_append_right _ (.head _))
    exact hlast ⟨pingAt (minutes 710), rfl, by decide, by decide⟩
  · have hfirst : RollingWindowRun plainPlatform forwardAtNoon oneAnHalfHour [(_, minutes 710)]
        ⟨⟨1, minutes 30, none, [minutes 710], le_rfl, by decide⟩, none, minutes 710,
          [minutes 710]⟩ := .single ⟨by decide, rfl, rfl⟩
    have hrun := hfirst.snoc (l := minutes 721) ⟨by decide, rfl, rfl⟩
    refine ⟨_, _, hrun, ?_⟩
    intro hlimit
    have hcount := (hlimit (minutes 710)).1
    exact absurd hcount (by decide)

end SchedulingUtil
