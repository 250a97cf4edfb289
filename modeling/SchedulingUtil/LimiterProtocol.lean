import SchedulingUtil.Lib.Machine
import SchedulingUtil.RateLimiterLocalTime

/-! # `RateLimiterProtocol`

What a rate limiter is for, as a log of the recorded events: an action is allowed when the
window that ends now holds too few of them. Either limiter, with a file or without, answers as
this log does, though neither keeps it. -/
namespace SchedulingUtil
open Lib

/-- An operation and the instant at which the clock is read. -/
abbrev LimiterInput := LimiterOp × Int

/-- The abstract limiter. A new one without a file does not know of earlier events. -/
def windowLog (offset : UtcOffset) (maxEvents : Int) (window : Timedelta) (persistent : Bool) :
    Machine (List Datetime) LimiterInput LimiterAnswer := fun events (op, instant) =>
  let now := offset.localTime instant
  let ready : Bool := Window.count window now events < maxEvents
  match op with
  | .construct => (.constructed, if persistent then events else [])
  | .ping => (.pinged now, events ++ [now])
  | .pingIfReady => (.decided now ready, if ready then events ++ [now] else events)
  | .isReady => (.decided now ready, events)

/-- The local time does not go back, and shows times that survive a file. -/
def ClockShows {N : Type} (P : Platform N) (offset : UtcOffset) (clock : Datetime)
    (input : LimiterInput) (now : Datetime) : Prop :=
  now = offset.localTime input.2 ∧ clock ≤ now ∧ P.RoundTrips now

/-! ## `RateLimiter` -/

namespace RateLimiter
variable (offset : UtcOffset)

/-- `__post_init__`, on the default timestamp. -/
def construct (l : RateLimiter) (mtime : Option Int) : RateLimiter :=
  { l with timestamp := offset.localTime 0 }.refreshTimestampFromDisk offset mtime

def ping (l : RateLimiter) (mtime : Option Int) (now : Int) : RateLimiter × Option Int :=
  l.touchPersistentTimestamp offset mtime now

def isReady (l : RateLimiter) (mtime : Option Int) (now : Int) : Bool × RateLimiter :=
  let l := l.refreshTimestampFromDisk offset mtime
  (l.isReadyAt (offset.localTime now), l)

/-- The operations, in the time of one clock reading. -/
def machine : Machine (RateLimiter × Option Int) LimiterInput LimiterAnswer :=
  fun (l, mtime) (op, now) =>
    match op with
    | .construct => (.constructed, l.construct offset mtime, mtime)
    | .ping => (.pinged (offset.localTime now), l.ping offset mtime now)
    | .pingIfReady =>
      let (ready, s) := l.pingIfReady offset mtime ⟨now, now, Int.le_refl now⟩
      (.decided (offset.localTime now) ready, s)
    | .isReady =>
      let (ready, l) := l.isReady offset mtime now
      (.decided (offset.localTime now) ready, l, mtime)

/-- **The invariant**: the one recorded time tells whether the window is empty, now and
later. -/
structure Logs (window : Timedelta) (persistent : Bool) (clock : Datetime)
    (s : RateLimiter × Option Int) (events : List Datetime) : Prop where
  minimumPeriod : s.1.minimumPeriod = window
  path : s.1.path = persistent
  epoch : offset.localTime 0 + window ≤ clock
  past : ∀ d ∈ events, d ≤ clock
  empty : ∀ t, clock ≤ t →
    (window ≤ t - s.1.recorded offset s.2 ↔ Window.count window t events < 1)

variable {offset} {window : Timedelta} {persistent : Bool} {clock now : Datetime}
  {s s' : RateLimiter × Option Int} {events : List Datetime}

theorem Logs.same (h : Logs offset window persistent clock s events) (ht : clock ≤ now)
    (hminimum : s'.1.minimumPeriod = s.1.minimumPeriod) (hpath : s'.1.path = s.1.path)
    (hrecorded : s'.1.recorded offset s'.2 = s.1.recorded offset s.2) :
    Logs offset window persistent now s' events where
  minimumPeriod := hminimum.trans h.minimumPeriod
  path := hpath.trans h.path
  epoch := h.epoch.trans ht
  past d hd := (h.past d hd).trans ht
  empty t hu := by rw [hrecorded, h.empty t (ht.trans hu)]

/-- A recorded event is the last one, whatever was recorded before. -/
theorem Logs.record (h : Logs offset window persistent clock s events) (ht : clock ≤ now)
    (hminimum : s'.1.minimumPeriod = s.1.minimumPeriod) (hpath : s'.1.path = s.1.path)
    (hrecorded : s'.1.recorded offset s'.2 = now) :
    Logs offset window persistent now s' (events ++ [now]) where
  minimumPeriod := hminimum.trans h.minimumPeriod
  path := hpath.trans h.path
  epoch := h.epoch.trans ht
  past d hd := by
    rcases List.mem_append.mp hd with hd | hd
    · exact (h.past d hd).trans ht
    · exact (List.mem_singleton.mp hd).le
  empty t hu := by
    rw [hrecorded, Nat.lt_one_iff, Window.count, List.countP_eq_zero]
    constructor
    · intro hle d hd
      have hdn : d ≤ now := by
        rcases List.mem_append.mp hd with hd | hd
        · exact (h.past d hd).trans ht
        · exact (List.mem_singleton.mp hd).le
      simp only [decide_eq_true_eq, not_and_or, not_lt]
      exact .inl (hdn.trans (le_sub_comm.mp hle))
    · intro hnone
      have hlast := hnone now (List.mem_append_right _ (.head _))
      simp only [decide_eq_true_eq, not_and_or, not_lt] at hlast
      exact le_sub_comm.mp (hlast.resolve_right (not_not.mpr hu))

theorem touch_path (l : RateLimiter) (mtime : Option Int) (t : Int) :
    (l.touchPersistentTimestamp offset mtime t).1.path = l.path := by
  unfold touchPersistentTimestamp
  split
  · exact refresh_path ..
  · rfl

theorem pingIfReady_path (l : RateLimiter) (mtime : Option Int) (c : PingTimes) :
    (l.pingIfReady offset mtime c).2.1.path = l.path := by
  unfold pingIfReady
  dsimp only
  split
  · exact (touch_path ..).trans (refresh_path ..)
  · exact refresh_path ..

/-- A new limiter counts from the file, or from the epoch. -/
theorem recorded_construct (offset : UtcOffset) (l : RateLimiter) (mtime : Option Int) :
    (l.construct offset mtime).recorded offset mtime =
      if l.path then l.recorded offset mtime else offset.localTime 0 := by
  rw [construct, recorded_refresh]
  unfold recorded refreshTimestampFromDisk
  cases l.path <;> simp

/-- **The plain limiter is a log with room for one event.** -/
theorem machine_simulates {N : Type} (P : Platform N) (window : Timedelta) (persistent : Bool) :
    Simulates (ClockShows P offset) (Logs offset window persistent) (machine offset)
      (windowLog offset 1 window persistent) := by
  rintro clock now ⟨l, mtime⟩ events ⟨op, instant⟩ h ⟨rfl, ht, -⟩
  change clock ≤ offset.localTime instant at ht
  have hempty : window ≤ offset.localTime instant - l.recorded offset mtime ↔
      Window.count window (offset.localTime instant) events < 1 := h.empty _ ht
  have hready : decide (l.minimumPeriod ≤ offset.localTime instant - l.recorded offset mtime) =
      decide ((Window.count window (offset.localTime instant) events : Int) < 1) := by
    rw [decide_eq_decide, h.minimumPeriod, hempty]
    exact Int.ofNat_lt.symm
  cases op with
  | construct =>
    refine ⟨rfl, ?_⟩
    have hrecorded := recorded_construct offset l mtime
    cases persistent with
    | true =>
      rw [h.path, if_pos rfl] at hrecorded
      exact h.same ht (refresh_minimumPeriod ..) (refresh_path ..) hrecorded
    | false =>
      rw [h.path, if_neg Bool.false_ne_true] at hrecorded
      refine ⟨(refresh_minimumPeriod ..).trans h.minimumPeriod, (refresh_path ..).trans h.path,
        h.epoch.trans ht, nofun, ?_⟩
      intro t hu
      refine iff_of_true ?_ Nat.zero_lt_one
      show window ≤ t - (l.construct offset mtime).recorded offset mtime
      rw [hrecorded]
      exact le_sub_iff_add_le'.mpr (h.epoch.trans (ht.trans hu))
  | ping => exact ⟨rfl, h.record ht (touch_minimumPeriod ..) (touch_path ..) (recorded_touch ..)⟩
  | pingIfReady =>
    obtain ⟨hanswer, hminimum, hrecorded⟩ :=
      l.pingIfReady_spec offset mtime ⟨instant, instant, Int.le_refl instant⟩
    have hanswer' : (l.pingIfReady offset mtime ⟨instant, instant, Int.le_refl instant⟩).1 =
        decide ((Window.count window (offset.localTime instant) events : Int) < 1) := by
      rw [← hready]
      exact Bool.eq_iff_iff.mpr (hanswer.trans decide_eq_true_iff.symm)
    refine ⟨congrArg (LimiterAnswer.decided _) hanswer', ?_⟩
    rw [hanswer'] at hrecorded
    show Logs offset window persistent _ _ (if decide _ = true then _ else _)
    split at hrecorded
    · rename_i hroom
      rw [if_pos hroom]
      exact h.record ht hminimum (pingIfReady_path ..) hrecorded
    · rename_i hroom
      rw [if_neg hroom]
      exact h.same ht hminimum (pingIfReady_path ..) hrecorded
  | isReady =>
    refine ⟨congrArg (LimiterAnswer.decided _) ?_, ?_⟩
    · rw [← hready, ← l.refresh_minimumPeriod offset mtime]
      rfl
    · exact h.same ht (refresh_minimumPeriod ..) (refresh_path ..) (recorded_refresh ..)

end RateLimiter

/-! ## `RollingWindowRateLimiter` -/

namespace RollingWindowRateLimiter
variable {N : Type} [PyFloat N] (P : Platform N) (offset : UtcOffset)

/-- An operation at the local time `now`, as the lock lets it run. -/
def call (l : RollingWindowRateLimiter) (file : File) (now : Datetime) :
    LimiterOp → Except PyException (LimiterAnswer × RollingWindowRateLimiter × File)
  | .construct =>
    ({ l with timestamps := [] }.refreshTimestampsFromDisk P file).map fun l =>
      (.constructed, l, file)
  | .ping =>
    (l.refreshTimestampsFromDisk P file).map fun l =>
      let l := l.pruneTimestamps now
      let l := { l with timestamps := l.timestamps ++ [now] }
      (.pinged now, l, l.writeTimestampsToDisk P file)
  | .pingIfReady => (l.pingIfReady P file now).map fun (ready, s) => (.decided now ready, s)
  | .isReady =>
    (l.refreshTimestampsFromDisk P file).map fun l =>
      let (ready, l) := l.isReadyAt now
      (.decided now ready, l, file)

def machine : Machine (RollingWindowRateLimiter × File) LimiterInput LimiterAnswer :=
  fun (l, file) (op, now) =>
    match l.call P file (offset.localTime now) op with
    | .ok (answer, s) => (answer, s)
    | .error e => (.raised e, l, file)

/-- **The invariant**: the timestamps that the next operation starts from stand for all events. -/
structure Logs (maxEvents : Int) (window : Timedelta) (persistent : Bool) (clock : Datetime)
    (s : RollingWindowRateLimiter × File) (events : List Datetime) : Prop where
  maxEvents_eq : s.1.maxEvents = maxEvents
  window_eq : s.1.window = window
  path_eq : s.1.path.isSome = persistent
  stored : ∃ ts, s.1.stored P s.2 = .ok ts ∧ StandsFor P window clock ts events

variable {P offset} {maxEvents : Int} {window : Timedelta} {persistent : Bool}
  {clock now : Datetime} {l : RollingWindowRateLimiter} {file : File} {events : List Datetime}

/-- Other timestamps in memory, where the file has not changed. -/
theorem Logs.setTimestamps {ts : List Datetime} (h : Logs P maxEvents window persistent clock
      (l, file) events) (hts : StandsFor P window clock ts events) :
    Logs P maxEvents window persistent clock ({ l with timestamps := ts }, file) events := by
  obtain ⟨kept, hkept, hstands⟩ := h.stored
  refine ⟨h.maxEvents_eq, h.window_eq, h.path_eq, ?_⟩
  by_cases hp : l.path = none
  · exact ⟨ts, stored_inMemory (l := { l with timestamps := ts }) hp file, hts⟩
  · have hpath : l.path.isSome := Option.isSome_iff_ne_none.mpr hp
    exact ⟨kept, stored_shared (m := { l with timestamps := ts }) hpath hpath hkept, hstands⟩

theorem Logs.write {ts : List Datetime} (h : Logs P maxEvents window persistent clock
      (l, file) events) {events' : List Datetime} (hts : StandsFor P window now ts events') :
    Logs P maxEvents window persistent now ({ l with timestamps := ts },
      { l with timestamps := ts }.writeTimestampsToDisk P file) events' :=
  ⟨h.maxEvents_eq, h.window_eq, h.path_eq, ts,
    stored_writeTimestampsToDisk hts.roundTrips file, hts⟩

theorem Logs.later (h : Logs P maxEvents window persistent clock (l, file) events)
    (ht : clock ≤ now) : Logs P maxEvents window persistent now (l, file) events := by
  obtain ⟨ts, hts, hstands⟩ := h.stored
  exact ⟨h.maxEvents_eq, h.window_eq, h.path_eq, ts, hts, hstands.later ht⟩

theorem call_pingIfReady {m : RollingWindowRateLimiter} (now : Datetime)
    (h : l.refreshTimestampsFromDisk P file = .ok m) :
    l.call P file now .pingIfReady = .ok (if (m.isReadyAt now).1 then
      (.decided now true, { m with timestamps := (m.pruneTimestamps now).timestamps ++ [now] },
        { m with timestamps := (m.pruneTimestamps now).timestamps ++ [now] }.writeTimestampsToDisk
          P file)
      else (.decided now false, m.pruneTimestamps now, file)) := by
  rw [call, pingIfReady, h]
  cases hr : (m.isReadyAt now).1 with
  | true => simp only [Except.map, hr, if_true]; rfl
  | false => simp only [Except.map, hr, Bool.false_eq_true, if_false]; rfl

theorem machine_of_ok {op : LimiterOp} {instant : Int} {answer : LimiterAnswer}
    {s : RollingWindowRateLimiter × File}
    (h : l.call P file (offset.localTime instant) op = .ok (answer, s)) :
    machine P offset (l, file) (op, instant) = (answer, s) := by
  simp only [machine, h]

/-- **The limiter is a log**: what it drops does not count again. -/
theorem machine_simulates (maxEvents : Int) (window : Timedelta) (persistent : Bool) :
    Simulates (ClockShows P offset) (Logs P maxEvents window persistent) (machine P offset)
      (windowLog offset maxEvents window persistent) := by
  rintro clock now ⟨l, file⟩ events ⟨op, instant⟩ h ⟨rfl, ht, hr⟩
  change clock ≤ offset.localTime instant at ht
  change P.RoundTrips (offset.localTime instant) at hr
  replace h := h.later ht
  obtain ⟨ts, hts, hstands⟩ := h.stored
  have hrefresh := refresh_eq hts
  have hpruned : StandsFor P window (offset.localTime instant)
      (ts.filter (offset.localTime instant - l.window < ·)) events := by
    rw [h.window_eq]
    exact hstands.prune
  have hready : (({ l with timestamps := ts }).isReadyAt (offset.localTime instant)).1 =
      decide (Window.count window (offset.localTime instant) events < maxEvents) := by
    have hcount := hstands.keeps.length_eq_count le_rfl
    rw [← h.window_eq] at hcount ⊢
    rw [← h.maxEvents_eq, ← hcount]
    rfl
  cases op with
  | construct =>
    by_cases hp : l.path = none
    · have hpersistent : persistent = false := by rw [← h.path_eq, hp]; rfl
      have hload : { l with timestamps := [] }.refreshTimestampsFromDisk P file =
          .ok { l with timestamps := [] } :=
        refresh_eq (stored_inMemory (l := { l with timestamps := [] }) hp file)
      have hcall : l.call P file (offset.localTime instant) .construct = .ok (_, _) :=
        congrArg (Except.map _) hload
      rw [machine_of_ok hcall, hpersistent]
      rw [hpersistent] at h
      have hempty := stored_inMemory (P := P) (l := { l with timestamps := [] }) hp file
      exact ⟨rfl, h.maxEvents_eq, h.window_eq, h.path_eq, [], hempty, .all nofun, nofun⟩
    · have hpath : l.path.isSome := Option.isSome_iff_ne_none.mpr hp
      have hpersistent : persistent = true := by rw [← h.path_eq, hpath]
      have hload : { l with timestamps := [] }.refreshTimestampsFromDisk P file =
          .ok { l with timestamps := ts } :=
        refresh_eq (stored_shared (m := { l with timestamps := [] }) hpath hpath hts)
      have hcall : l.call P file (offset.localTime instant) .construct = .ok (_, _) :=
        congrArg (Except.map _) hload
      rw [machine_of_ok hcall, hpersistent]
      rw [hpersistent] at h
      exact ⟨rfl, h.setTimestamps hstands⟩
  | ping =>
    have hcall : l.call P file (offset.localTime instant) .ping = .ok (_, _) :=
      congrArg (Except.map _) hrefresh
    rw [machine_of_ok hcall]
    exact ⟨rfl, h.write (hpruned.record hr)⟩
  | pingIfReady =>
    have hcall := call_pingIfReady (offset.localTime instant) hrefresh
    rw [machine_of_ok hcall]
    unfold windowLog
    dsimp only
    rw [← hready]
    split
    · rename_i hroom
      rw [hroom]
      exact ⟨rfl, h.write (hpruned.record hr)⟩
    · rename_i hfull
      rw [Bool.eq_false_iff.mpr hfull]
      exact ⟨rfl, h.setTimestamps hpruned⟩
  | isReady =>
    have hcall : l.call P file (offset.localTime instant) .isReady = .ok (_, _) :=
      congrArg (Except.map _) hrefresh
    rw [machine_of_ok hcall]
    exact ⟨congrArg (LimiterAnswer.decided _) hready, h.setTimestamps hpruned⟩

theorem map_eq_ok {α β ε : Type} {x : Except ε α} {f : α → β} {b : β} :
    x.map f = .ok b ↔ ∃ a, x = .ok a ∧ f a = b := by
  cases x <;> simp [Except.map]

/-- The steps of a whole operation under the lock, with nobody between them. -/
theorem call_steps {I : Type} [DecidableEq I] {w : LimiterWorld I} {i : I}
    (hclock : w.clock ≤ now) (hr : P.RoundTrips now) {op : LimiterOp} {answer : LimiterAnswer}
    {m : RollingWindowRateLimiter} {file' : File}
    (h : (w.limiters i).call P w.file now op = .ok (answer, m, file')) :
    ∃ t clock, Relation.ReflTransGen (LimiterStep P) (⟨i, op, op.first, 0⟩, w)
      (⟨i, op, .done answer, t⟩,
        { file := file', clock, limiters := Function.update w.limiters i m }) := by
  have hself (m : RollingWindowRateLimiter) (v : LimiterWorld I) :
      (v.setLimiter i m).limiters i = m := Function.update_self ..
  have htwice (m m' : RollingWindowRateLimiter) (v : LimiterWorld I) :
      (v.setLimiter i m).setLimiter i m' = v.setLimiter i m' := by simp [LimiterWorld.setLimiter]
  have hnow (op : LimiterOp) : LimiterStep P (⟨i, op, .now, 0⟩, w)
      (⟨i, op, op.afterNow, now⟩, { w with clock := now }) := .now rfl hclock hr
  cases op with
  | construct =>
    have hnew : LimiterStep P (⟨i, .construct, .new, 0⟩, w) (⟨i, .construct, .refresh, 0⟩,
        w.setLimiter i { w.limiters i with timestamps := [] }) := .new rfl
    obtain ⟨l₁, hl, heq⟩ := map_eq_ok.mp h
    cases heq
    rw [← hself { w.limiters i with timestamps := [] } w] at hl
    have hrefresh := LimiterStep.refresh (P := P) (c := ⟨i, .construct, .refresh, 0⟩)
      (w := w.setLimiter i { w.limiters i with timestamps := [] }) rfl hl
    rw [htwice] at hrefresh
    exact ⟨_, _, (Relation.ReflTransGen.single hnew).tail hrefresh⟩
  | ping =>
    obtain ⟨l₁, hl, heq⟩ := map_eq_ok.mp h
    cases heq
    have hrefresh : LimiterStep P (⟨i, .ping, .refresh, now⟩, { w with clock := now })
        (⟨i, .ping, .prune, now⟩, { w with clock := now }.setLimiter i l₁) := .refresh rfl hl
    have hprune := LimiterStep.prune (P := P) (c := ⟨i, .ping, .prune, now⟩)
      (w := { w with clock := now }.setLimiter i l₁) rfl
    rw [hself, htwice] at hprune
    have happend := LimiterStep.append (P := P) (c := ⟨i, .ping, .append, now⟩)
      (w := { w with clock := now }.setLimiter i (l₁.pruneTimestamps now)) rfl
    rw [hself, htwice] at happend
    have hwrite := LimiterStep.write (P := P) (c := ⟨i, .ping, .write, now⟩)
      (w := { w with clock := now }.setLimiter i
        { l₁ with timestamps := (l₁.pruneTimestamps now).timestamps ++ [now] }) rfl
    rw [hself] at hwrite
    exact ⟨_, _, ((((Relation.ReflTransGen.single (hnow .ping)).tail hrefresh).tail hprune).tail
      happend).tail hwrite⟩
  | pingIfReady =>
    obtain ⟨⟨ready, l₁, file₁⟩, hl, heq⟩ := map_eq_ok.mp h
    cases heq
    exact ⟨_, _, pingIfReady_steps hclock hr hl⟩
  | isReady =>
    obtain ⟨l₁, hl, heq⟩ := map_eq_ok.mp h
    cases heq
    have hrefresh : LimiterStep P (⟨i, .isReady, .refresh, 0⟩, w)
        (⟨i, .isReady, .now, 0⟩, w.setLimiter i l₁) := .refresh rfl hl
    have hread : LimiterStep P (⟨i, .isReady, .now, 0⟩, w.setLimiter i l₁)
        (⟨i, .isReady, .check, now⟩, { w with clock := now }.setLimiter i l₁) :=
      .now rfl hclock hr
    have hcheck := LimiterStep.check (P := P) (c := ⟨i, .isReady, .check, now⟩)
      (w := { w with clock := now }.setLimiter i l₁) rfl
    have hanswer (ready : Bool) : LimiterCall.afterCheck (I := I) ⟨i, .isReady, .check, now⟩ ready =
        .done (.decided now ready) := by
      simp [LimiterCall.afterCheck]
    rw [hself, htwice, hanswer] at hcheck
    exact ⟨_, _, ((Relation.ReflTransGen.single hrefresh).tail hread).tail hcheck⟩

end RollingWindowRateLimiter

/-- **Either limiter is the log of its protocol**: it answers every sequence of operations as
the log does, in memory or on a file of its own. So a plain limiter and a rolling window for
one event answer alike. -/
theorem limiters_are_logs {N : Type} [PyFloat N] (P : Platform N) (offset : UtcOffset)
    (window : Timedelta) {clock clock' : Datetime} {inputs : List LimiterInput}
    (hfed : Fed (ClockShows P offset) clock inputs clock') :
    (offset.localTime 0 + window ≤ clock → ∀ path : Bool,
      (RateLimiter.machine offset).answers (⟨window, path, offset.localTime 0⟩, none) inputs =
        (windowLog offset 1 window path).answers [] inputs) ∧
    ∀ (maxEvents : Int) (path : Option String) (l : RollingWindowRateLimiter),
      RollingWindowRateLimiter.new maxEvents window path = .ok l →
        (RollingWindowRateLimiter.machine P offset).answers (l, none) inputs =
          (windowLog offset maxEvents window path.isSome).answers [] inputs := by
  constructor
  · intro hepoch path
    have hlogs : RateLimiter.Logs offset window path clock
        (⟨window, path, offset.localTime 0⟩, none) [] := by
      refine ⟨rfl, rfl, hepoch, fun _ hd => absurd hd List.not_mem_nil, ?_⟩
      intro t ht
      have hrecorded : (⟨window, path, offset.localTime 0⟩ : RateLimiter).recorded offset none =
          offset.localTime 0 := by
        cases path <;> rfl
      rw [hrecorded]
      exact iff_of_true (le_sub_iff_add_le'.mpr (hepoch.trans ht)) Nat.zero_lt_one
    exact ((RateLimiter.machine_simulates P window path).run hfed hlogs).1
  · intro maxEvents path l hnew
    have hlogs :
        RollingWindowRateLimiter.Logs P maxEvents window path.isSome clock (l, none) [] := by
      unfold RollingWindowRateLimiter.new at hnew
      split at hnew
      · cases hnew
      · split at hnew
        · cases hnew
        · cases hnew
          refine ⟨rfl, rfl, rfl, [], ?_, .all fun _ hd => absurd hd List.not_mem_nil,
            fun _ hd => absurd hd List.not_mem_nil⟩
          cases path <;> rfl
    exact ((RollingWindowRateLimiter.machine_simulates maxEvents window path.isSome).run hfed
      hlogs).1

/-- One event in ten microseconds, on files: the second call comes too early. -/
theorem limiters_are_logs_of_three :
    ∃ l, RollingWindowRateLimiter.new 1 10 (some "limiter.json") = .ok l ∧
      (RollingWindowRateLimiter.machine plainPlatform fun _ => 0).answers (l, none)
          [(.pingIfReady, 20), (.pingIfReady, 25), (.isReady, 30)] =
        [.decided 20 true, .decided 25 false, .decided 30 true] ∧
      (RateLimiter.machine fun _ => 0).answers (⟨10, true, 0⟩, none)
          [(.pingIfReady, 20), (.pingIfReady, 25), (.isReady, 30)] =
        [.decided 20 true, .decided 25 false, .decided 30 true] := by
  have hfed : Fed (ClockShows plainPlatform fun _ => 0) 10
      [(.pingIfReady, 20), (.pingIfReady, 25), (.isReady, 30)] 30 :=
    .cons ⟨rfl, by decide, rfl⟩ (.cons ⟨rfl, by decide, rfl⟩ (.cons ⟨rfl, by decide, rfl⟩ .nil))
  obtain ⟨hplain, hrolling⟩ := limiters_are_logs plainPlatform (fun _ => 0) 10 hfed
  exact ⟨_, rfl, hrolling 1 (some "limiter.json") _ rfl, hplain (by decide) true⟩

end SchedulingUtil
