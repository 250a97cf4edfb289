import Mathlib.Algebra.Order.Group.Int
import SchedulingUtil.Lib.SlidingWindow
import SchedulingUtil.RollingWindowRateLimiter

/-! # The rolling window is exact

Old timestamps are dropped in every operation and the file is only written in
some. What an operation reads stands, all the same, for all events so far: none that
is missing can count again. -/
namespace SchedulingUtil
open Lib Lib.Json Lib.Utf8

variable {N : Type} {P : Platform N}

/-! ## The file -/

namespace RollingWindowRateLimiter

variable [PyFloat N]

theorem readItem_num {d : Datetime} (h : P.RoundTrips d) :
    readItem P (.num (P.timestamp d)) = some d := by
  rw [readItem, PyFloat.float_num, Option.bind_some, h]
  rfl

theorem mapM_readItem {ts : List Datetime} (h : ∀ d ∈ ts, P.RoundTrips d) :
    (ts.map fun d => Value.num (P.timestamp d)).mapM (readItem P) = some ts := by
  induction ts with
  | nil => rfl
  | cons d ts ih =>
    rw [List.map_cons, List.mapM_cons, readItem_num (h d (.head _)),
      ih fun d hd => h d (.tail _ hd)]
    rfl

theorem readState_dumpState (path : String) {ts : List Datetime} (h : ∀ d ∈ ts, P.RoundTrips d) :
    readState P path (dumpState P ts) = .ok ts := by
  have hload := loads_render_ws spaced (.arr (ts.map fun d => Value.num (P.timestamp d)))
    (w := ['\n']) (by simp [isWs])
  have hspace : (render spaced 0 (.arr (ts.map fun d => Value.num (P.timestamp d))) ++
      ['\n']).all isUnicodeSpace = false := by
    cases ts with
    | nil => rw [List.map_nil, render]; decide
    | cons d ts => rw [List.map_cons, render]; simp [show isUnicodeSpace '[' = false by decide]
  rw [readState, dumpState, decode_encode]
  simp only [hspace, Bool.false_eq_true, if_false, hload, mapM_readItem h]

/-- The timestamps the next operation starts from. -/
def stored (P : Platform N) (l : RollingWindowRateLimiter) (file : File) :
    Except PyException (List Datetime) :=
  (l.refreshTimestampsFromDisk P file).map timestamps

theorem stored_inMemory {l : RollingWindowRateLimiter} (h : l.path = none) (file : File) :
    l.stored P file = .ok l.timestamps := by
  simp [stored, refreshTimestampsFromDisk, h, Except.map]

/-- Whoever has a path reads the same from it. -/
theorem stored_shared {l m : RollingWindowRateLimiter} {file : File} {ts : List Datetime}
    (hl : l.path.isSome) (hm : m.path.isSome) (h : l.stored P file = .ok ts) :
    m.stored P file = .ok ts := by
  obtain ⟨p, hp⟩ := Option.isSome_iff_exists.mp hl
  obtain ⟨q, hq⟩ := Option.isSome_iff_exists.mp hm
  cases file with
  | none =>
    simp only [stored, refreshTimestampsFromDisk, hp, hq] at h ⊢
    exact h
  | some content =>
    simp only [stored, refreshTimestampsFromDisk, hp, hq, readState] at h ⊢
    cases hd : decode content with
    | none => simp [hd, Except.map] at h
    | some raw =>
      simp only [hd] at h ⊢
      split at h
      · rename_i hs
        rw [if_pos hs]
        exact h
      · rename_i hs
        rw [if_neg hs]
        cases hload : loads (N := N) raw with
        | none => simp [hload, Except.map] at h
        | some v =>
          cases v with
          | arr items =>
            simp only [hload] at h ⊢
            cases hitems : items.mapM (readItem P) with
            | none => simp [hitems, Except.map] at h
            | some ts' => simpa [hitems, Except.map] using h
          | _ => simp [hload, Except.map] at h

theorem refresh_eq {l : RollingWindowRateLimiter} {file : File} {ts : List Datetime}
    (h : l.stored P file = .ok ts) :
    l.refreshTimestampsFromDisk P file = .ok { l with timestamps := ts } := by
  unfold stored at h
  unfold refreshTimestampsFromDisk at h ⊢
  split at h
  · cases h
    rfl
  · cases h
    rfl
  · rename_i path content _
    cases hr : readState P path content with
    | error e => simp [hr, Except.map] at h
    | ok ts' =>
      simp only [hr, Except.map, Except.ok.injEq] at h ⊢
      rw [h]

/-- What a limiter has written it starts from. -/
theorem stored_writeTimestampsToDisk {l : RollingWindowRateLimiter}
    (h : ∀ d ∈ l.timestamps, P.RoundTrips d) (file : File) :
    l.stored P (l.writeTimestampsToDisk P file) = .ok l.timestamps := by
  cases hp : l.path with
  | none => exact stored_inMemory hp _
  | some path =>
    simp [stored, writeTimestampsToDisk, hp, refreshTimestampsFromDisk,
      readState_dumpState path h, Except.map]

end RollingWindowRateLimiter

/-! ## What the calls keep -/

/-- The events that a call has recorded. -/
def LimiterAnswer.recorded (op : LimiterOp) : LimiterAnswer → List Datetime
  | .pinged now => [now]
  | .decided now true => if op = .pingIfReady then [now] else []
  | _ => []

/-- What limiters that are used together have in common. -/
structure LimiterSettings where
  maxEvents : Int
  window : Timedelta
  shared : Bool
  one_le_maxEvents : 1 ≤ maxEvents

variable {I : Type} {cfg : LimiterSettings} {events : List Datetime}

/-- What a call answers at the time `now` after these events. -/
def LimiterAnswer.Correct (cfg : LimiterSettings) (events : List Datetime) (now : Datetime)
    (op : LimiterOp) (a : LimiterAnswer) : Prop :=
  match op with
  | .construct => a = .constructed
  | .ping => a = .pinged now
  | .pingIfReady | .isReady =>
    ∃ ready, a = .decided now ready ∧
      (ready = true ↔ Window.count cfg.window now events < cfg.maxEvents)

/-- Limiters that share one file, or a single one without. -/
structure LimiterWorld.Alike (cfg : LimiterSettings) (w : LimiterWorld I) : Prop where
  maxEvents : ∀ i, (w.limiters i).maxEvents = cfg.maxEvents
  window : ∀ i, (w.limiters i).window = cfg.window
  path : ∀ i, (w.limiters i).path.isSome = cfg.shared
  single : cfg.shared = false → Subsingleton I

/-- Timestamps that stand for all events up to the clock. -/
structure StandsFor (P : Platform N) (window : Timedelta) (clock : Datetime)
    (ts events : List Datetime) : Prop where
  keeps : Window.Keeps window clock ts events
  roundTrips : ∀ d ∈ ts, P.RoundTrips d

/-- **The invariant.** What the next operation of any limiter starts from stands
for all events. -/
structure LimiterWorld.Exact [PyFloat N] (P : Platform N) (cfg : LimiterSettings)
    (w : LimiterWorld I)
    (events : List Datetime) : Prop where
  alike : w.Alike cfg
  kept : ∃ ts, (∀ i, (w.limiters i).stored P w.file = .ok ts) ∧
    StandsFor P cfg.window w.clock ts events

namespace StandsFor

variable {window : Timedelta} {c t : Datetime} {ts : List Datetime}

theorem later (h : StandsFor P window c ts events) (ht : c ≤ t) : StandsFor P window t ts events :=
  ⟨h.keeps.later ht, h.roundTrips⟩

theorem prune (h : StandsFor P window c ts events) :
    StandsFor P window c (ts.filter (c - window < ·)) events :=
  ⟨h.keeps.prune le_rfl, fun d hd => h.roundTrips d (List.mem_of_mem_filter hd)⟩

theorem record (h : StandsFor P window c ts events) (hc : P.RoundTrips c) :
    StandsFor P window c (ts ++ [c]) (events ++ [c]) where
  keeps := h.keeps.record le_rfl
  roundTrips d hd := by
    rcases List.mem_append.mp hd with hd | hd
    · exact h.roundTrips d hd
    · rw [List.mem_singleton.mp hd]
      exact hc

end StandsFor

namespace LimiterWorld

variable [PyFloat N] [DecidableEq I] {w : LimiterWorld I} {i : I} {ts : List Datetime}

theorem Alike.setTimestamps (h : w.Alike cfg) (i : I) (ts : List Datetime) :
    (w.setLimiter i { w.limiters i with timestamps := ts }).Alike cfg := by
  have hsame {α : Type} (f : RollingWindowRateLimiter → α) (j : I)
      (hf : f { w.limiters i with timestamps := ts } = f (w.limiters i)) :
      f ((w.setLimiter i { w.limiters i with timestamps := ts }).limiters j) =
        f (w.limiters j) := by
    by_cases hj : j = i
    · rw [hj, setLimiter]
      simpa using hf
    · simp [setLimiter, hj]
  refine ⟨?_, ?_, ?_, h.single⟩
  · intro j
    rw [hsame RollingWindowRateLimiter.maxEvents j rfl, h.maxEvents]
  · intro j
    rw [hsame RollingWindowRateLimiter.window j rfl, h.window]
  · intro j
    rw [hsame RollingWindowRateLimiter.path j rfl, h.path]

/-- The cache of a limiter that shares the file does not count; that of the one
limiter without a file is all there is. -/
theorem Exact.setTimestamps (h : w.Exact P cfg events)
    (hts : cfg.shared = true ∨ StandsFor P cfg.window w.clock ts events) :
    (w.setLimiter i { w.limiters i with timestamps := ts }).Exact P cfg events := by
  refine ⟨h.alike.setTimestamps i ts, ?_⟩
  obtain ⟨kept, hkept, hstands⟩ := h.kept
  cases hc : cfg.shared with
  | true =>
    have hpath : (w.limiters i).path.isSome := (h.alike.path i).trans hc
    refine ⟨kept, ?_, hstands⟩
    intro j
    by_cases hj : j = i
    · rw [hj]
      refine RollingWindowRateLimiter.stored_shared hpath ?_ (hkept i)
      simpa [setLimiter] using hpath
    · simpa [setLimiter, hj] using hkept j
  | false =>
    have hone : Subsingleton I := h.alike.single hc
    have hpath : (w.limiters i).path = none := by
      simpa using (h.alike.path i).trans hc
    refine ⟨ts, ?_, hts.resolve_left (by simp [hc])⟩
    intro j
    rw [Subsingleton.elim j i]
    refine (RollingWindowRateLimiter.stored_inMemory ?_ _).trans ?_ <;> simp [setLimiter, hpath]

omit [DecidableEq I] in
theorem Exact.tick (h : w.Exact P cfg events) {now : Datetime} (ht : w.clock ≤ now) :
    ({ w with clock := now } : LimiterWorld I).Exact P cfg events := by
  obtain ⟨ts, hts, hstands⟩ := h.kept
  exact ⟨⟨h.alike.maxEvents, h.alike.window, h.alike.path, h.alike.single⟩, ts, hts,
    hstands.later ht⟩

omit [DecidableEq I] in
/-- Writing a limiter's timestamps makes them everybody's. -/
theorem Alike.write (h : w.Alike cfg)
    (hts : StandsFor P cfg.window w.clock (w.limiters i).timestamps events) :
    ({ w with file := (w.limiters i).writeTimestampsToDisk P w.file } : LimiterWorld I).Exact
      P cfg events := by
  refine ⟨⟨h.maxEvents, h.window, h.path, h.single⟩, (w.limiters i).timestamps, ?_, hts⟩
  intro j
  cases hp : (w.limiters i).path with
  | some path =>
    have hshared : cfg.shared = true := by rw [← h.path i, hp]; rfl
    have hread := RollingWindowRateLimiter.stored_writeTimestampsToDisk hts.roundTrips w.file
    exact RollingWindowRateLimiter.stored_shared (by simp [hp]) ((h.path j).trans hshared) hread
  | none =>
    have hone : Subsingleton I := h.single (by rw [← h.path i, hp]; rfl)
    rw [Subsingleton.elim j i]
    exact RollingWindowRateLimiter.stored_inMemory hp _

end LimiterWorld

/-! ## Inside the lock -/

/-- The clock has been read, and the time it showed survives the file. -/
def ClockRead (P : Platform N) (w : LimiterWorld I) (now : Datetime) : Prop :=
  now = w.clock ∧ P.RoundTrips now

/-- What is left to do is to add the time, whatever the events or because there is room. -/
def Records (cfg : LimiterSettings) (events : List Datetime) (op : LimiterOp) (now : Datetime) :
    Prop :=
  op = .ping ∨ op = .pingIfReady ∧ Window.count cfg.window now events < cfg.maxEvents

variable [PyFloat N]

/-- How far a call has come, after the events of the calls before it. -/
inductive LimiterReaches (P : Platform N) (cfg : LimiterSettings)
    (events : List Datetime) : LimiterCall I × LimiterWorld I → Prop where
  | new {i : I} {now : Datetime} {w : LimiterWorld I} (h : w.Exact P cfg events)
      (hp : cfg.shared = true) :
      LimiterReaches P cfg events (⟨i, .construct, .new, now⟩, w)
  | start {i : I} {op : LimiterOp} {now : Datetime} {w : LimiterWorld I}
      (hop : op = .ping ∨ op = .pingIfReady) (h : w.Exact P cfg events) :
      LimiterReaches P cfg events (⟨i, op, .now, now⟩, w)
  | load {i : I} {op : LimiterOp} {now : Datetime} {w : LimiterWorld I}
      (hop : op = .construct ∨ op = .isReady ∨ ClockRead P w now)
      (h : w.Exact P cfg events) :
      LimiterReaches P cfg events (⟨i, op, .refresh, now⟩, w)
  | loaded {i : I} {now : Datetime} {w : LimiterWorld I} (h : w.Exact P cfg events)
      (hl : StandsFor P cfg.window w.clock (w.limiters i).timestamps events) :
      LimiterReaches P cfg events (⟨i, .isReady, .now, now⟩, w)
  | count {i : I} {op : LimiterOp} {pc : LimiterPc} {now : Datetime} {w : LimiterWorld I}
      (hop : op = .ping ∧ pc = .prune ∨ (op = .pingIfReady ∨ op = .isReady) ∧ pc = .check)
      (hnow : ClockRead P w now) (h : w.Exact P cfg events)
      (hl : StandsFor P cfg.window w.clock (w.limiters i).timestamps events) :
      LimiterReaches P cfg events (⟨i, op, pc, now⟩, w)
  | append {i : I} {op : LimiterOp} {now : Datetime} {w : LimiterWorld I}
      (hop : Records cfg events op now) (hnow : ClockRead P w now)
      (ha : w.Alike cfg)
      (hl : StandsFor P cfg.window w.clock (w.limiters i).timestamps events) :
      LimiterReaches P cfg events (⟨i, op, .append, now⟩, w)
  | write {i : I} {op : LimiterOp} {now : Datetime} {w : LimiterWorld I}
      (hop : Records cfg events op now) (hnow : ClockRead P w now)
      (ha : w.Alike cfg)
      (hl : StandsFor P cfg.window w.clock (w.limiters i).timestamps (events ++ [now])) :
      LimiterReaches P cfg events (⟨i, op, .write, now⟩, w)
  | done {i : I} {op : LimiterOp} {now : Datetime} {a : LimiterAnswer} {w : LimiterWorld I}
      (h : w.Exact P cfg (events ++ a.recorded op))
      (ha : a.Correct cfg events w.clock op) :
      LimiterReaches P cfg events (⟨i, op, .done a, now⟩, w)

/-- A call that has recorded nothing. -/
theorem LimiterReaches.idle {w : LimiterWorld I} (h : w.Exact P cfg events) {i : I}
    {op : LimiterOp} {now : Datetime} {a : LimiterAnswer} (hrec : a.recorded op = [])
    (ha : a.Correct cfg events w.clock op) :
    LimiterReaches P cfg events (⟨i, op, .done a, now⟩, w) :=
  .done (by rw [hrec, List.append_nil]; exact h) ha

omit [PyFloat N] in
/-- The pruned timestamps say whether there is room. -/
theorem isReadyAt_iff {w : LimiterWorld I} {i : I} (ha : w.Alike cfg)
    (hl : StandsFor P cfg.window w.clock (w.limiters i).timestamps events) :
    ((w.limiters i).isReadyAt w.clock).1 = true ↔
      Window.count cfg.window w.clock events < cfg.maxEvents := by
  have hlen := hl.keeps.length_eq_count le_rfl
  rw [Window.prune] at hlen
  simp [RollingWindowRateLimiter.isReadyAt, RollingWindowRateLimiter.pruneTimestamps,
    ha.maxEvents i, ha.window i, hlen]

variable [DecidableEq I]

/-- The refresh, from what the calls before have left. -/
theorem limiterReaches_load {i : I} {op : LimiterOp} {now : Datetime} {w : LimiterWorld I}
    {s' : LimiterCall I × LimiterWorld I}
    (hop : op = .construct ∨ op = .isReady ∨ ClockRead P w now) (h : w.Exact P cfg events)
    (hstep : LimiterStep P (⟨i, op, .refresh, now⟩, w) s') :
    LimiterReaches P cfg events s' := by
  obtain ⟨ts, hts, hstands⟩ := h.kept
  have hload := RollingWindowRateLimiter.refresh_eq (hts i)
  cases hstep with
  | refresh _ hl =>
    cases hload.symm.trans hl
    have h' := h.setTimestamps (i := i) (.inr hstands)
    have hl' : StandsFor P cfg.window w.clock
        ((w.setLimiter i { w.limiters i with timestamps := ts }).limiters i).timestamps
        events := by
      simpa [LimiterWorld.setLimiter] using hstands
    rcases hop with rfl | rfl | hnow
    · exact .idle h' rfl rfl
    · exact .loaded h' hl'
    · cases op with
      | construct => exact .idle h' rfl rfl
      | ping => exact .count (.inl ⟨rfl, rfl⟩) hnow h' hl'
      | pingIfReady => exact .count (.inr ⟨.inl rfl, rfl⟩) hnow h' hl'
      | isReady => exact .loaded h' hl'
  | invalid _ he => cases hload.symm.trans he
  | _ hpc => cases hpc

/-- The pruning, with or without the count of what is left. -/
theorem limiterReaches_count {i : I} {op : LimiterOp} {pc : LimiterPc} {now : Datetime}
    {w : LimiterWorld I} {s' : LimiterCall I × LimiterWorld I}
    (hop : op = .ping ∧ pc = .prune ∨ (op = .pingIfReady ∨ op = .isReady) ∧ pc = .check)
    (hnow : ClockRead P w now) (h : w.Exact P cfg events)
    (hl : StandsFor P cfg.window w.clock (w.limiters i).timestamps events)
    (hstep : LimiterStep P (⟨i, op, pc, now⟩, w) s') : LimiterReaches P cfg events s' := by
  obtain ⟨rfl, hr⟩ := hnow
  have hpruned : StandsFor P cfg.window w.clock
      ((w.limiters i).timestamps.filter (w.clock - (w.limiters i).window < ·)) events := by
    rw [h.alike.window i]
    exact hl.prune
  have h' := h.setTimestamps (i := i) (.inr hpruned)
  have hl' : StandsFor P cfg.window w.clock ((w.setLimiter i
      ((w.limiters i).pruneTimestamps w.clock)).limiters i).timestamps events := by
    simpa [LimiterWorld.setLimiter, RollingWindowRateLimiter.pruneTimestamps] using hpruned
  rcases hop with ⟨rfl, rfl⟩ | ⟨hop, rfl⟩
  · cases hstep with
    | prune => exact .append (.inl rfl) ⟨rfl, hr⟩ h'.alike hl'
    | _ hpc => cases hpc
  · cases hstep with
    | check =>
      have hready := isReadyAt_iff h.alike hl
      cases hb : ((w.limiters i).isReadyAt w.clock).1 with
      | false =>
        rw [hb] at hready
        rcases hop with rfl | rfl <;> exact .idle h' rfl ⟨false, rfl, hready⟩
      | true =>
        rw [hb] at hready
        rcases hop with rfl | rfl
        · exact .append (.inr ⟨rfl, hready.mp rfl⟩) ⟨rfl, hr⟩ h'.alike hl'
        · exact .idle h' rfl ⟨true, rfl, hready⟩
    | _ hpc => cases hpc

/-- **One step of a call.** -/
theorem limiterReaches_step {s s' : LimiterCall I × LimiterWorld I}
    (h : LimiterReaches P cfg events s) (hstep : LimiterStep P s s') :
    LimiterReaches P cfg events s' := by
  cases h with
  | new h hp =>
    cases hstep with
    | new => exact .load (.inl rfl) (h.setTimestamps (.inl hp))
    | _ hpc => cases hpc
  | start hop h =>
    cases hstep with
    | now _ hclock hr =>
      rcases hop with rfl | rfl <;> exact .load (.inr (.inr ⟨rfl, hr⟩)) (h.tick hclock)
    | _ hpc => cases hpc
  | load hop h => exact limiterReaches_load hop h hstep
  | loaded h hl =>
    cases hstep with
    | now _ hclock hr =>
      exact .count (.inr ⟨.inr rfl, rfl⟩) ⟨rfl, hr⟩ (h.tick hclock) (hl.later hclock)
    | _ hpc => cases hpc
  | count hop hnow h hl => exact limiterReaches_count hop hnow h hl hstep
  | @append i op now w hop hnow ha hl =>
    obtain ⟨rfl, hr⟩ := hnow
    cases hstep with
    | append =>
      refine .write hop ⟨rfl, hr⟩ (ha.setTimestamps i _) ?_
      simpa [LimiterWorld.setLimiter] using hl.record hr
    | _ hpc => cases hpc
  | @write i op now w hop hnow ha hl =>
    obtain ⟨rfl, hr⟩ := hnow
    cases hstep with
    | write =>
      have h' := ha.write hl
      rcases hop with rfl | ⟨rfl, hroom⟩
      · exact .done h' rfl
      · exact .done (by simpa [LimiterAnswer.recorded] using h') ⟨true, rfl, by simpa using hroom⟩
    | _ hpc => cases hpc
  | done =>
    cases hstep with
    | _ hpc => cases hpc

/-! ## Runs -/

theorem LimiterStep.op {s s' : LimiterCall I × LimiterWorld I} (h : LimiterStep P s s') :
    s'.1.op = s.1.op := by cases h <;> rfl

/-- **One call**: what it records and what it answers. -/
theorem runs_spec {w w' : LimiterWorld I} {op : LimiterOp × I} {a : LimiterAnswer} {m m' : Unit}
    (h : Guarded.Runs (limiterSections P) op m w a m' w') (hw : w.Exact P cfg events)
    (hop : op.1 = .construct → cfg.shared = true) :
    w'.Exact P cfg (events ++ a.recorded op.1) ∧ a.Correct cfg events w'.clock op.1 := by
  obtain ⟨op, j⟩ := op
  obtain ⟨⟨i, o, pc, now⟩, ⟨hreach, rfl⟩, hfinish⟩ := h.invariant
    (I := fun s => LimiterReaches P cfg events s ∧ s.1.op = op)
    (by
      intro c hstart
      cases hstart
      refine ⟨?_, rfl⟩
      cases op with
      | construct => exact .new hw (hop rfl)
      | ping => exact .start (.inl rfl) hw
      | pingIfReady => exact .start (.inr rfl) hw
      | isReady => exact .load (.inr (.inl rfl)) hw)
    (fun s s' hs hstep => ⟨limiterReaches_step hs.1 hstep, hstep.op.trans hs.2⟩)
  cases pc with
  | done b =>
    cases hfinish
    cases hreach with
    | done h ha => exact ⟨h, ha⟩
    | count hop => simp at hop
  | _ => cases hfinish

variable {T : Type} [DecidableEq T]

/-- The events that the calls have recorded, in their order. -/
def recordedEvents (log : List (T × (LimiterOp × I) × LimiterAnswer)) : List Datetime :=
  log.flatMap fun x => x.2.2.recorded x.2.1.1

omit [DecidableEq I] [DecidableEq T] in
theorem recordedEvents_snoc (log : List (T × (LimiterOp × I) × LimiterAnswer)) (t : T)
    (op : LimiterOp × I) (a : LimiterAnswer) :
    recordedEvents (log ++ [(t, op, a)]) = recordedEvents log ++ a.recorded op.1 := by
  simp [recordedEvents]

/-- **Calls one after the other** keep the limiters exact. -/
theorem LimiterWorld.Exact.serial {w w' : LimiterWorld I}
    {log : List (T × (LimiterOp × I) × LimiterAnswer)} {m m' : T → Unit}
    (hw : w.Exact P cfg events) (h : Guarded.Serial (limiterSections P) w m log w' m')
    (hop : ∀ x ∈ log, x.2.1.1 = .construct → cfg.shared = true) :
    w'.Exact P cfg (events ++ recordedEvents log) := by
  induction h with
  | nil => simpa [recordedEvents] using hw
  | @snoc log w₁ w₂ m₁ t op a m' hserial hrun ih =>
    have hw₁ := ih fun x hx => hop x (List.mem_append_left _ hx)
    rw [recordedEvents_snoc, ← List.append_assoc]
    exact (runs_spec hrun hw₁ (hop (t, op, a) (by simp))).1

/-! ## Exactness -/

/-- The time of a `ping_if_ready` that returned True. -/
def success? (op : LimiterOp) : LimiterAnswer → Option Datetime
  | .decided now true => if op = .pingIfReady then some now else none
  | _ => none

def successes (log : List (T × (LimiterOp × I) × LimiterAnswer)) : List Datetime :=
  log.filterMap fun x => success? x.2.1.1 x.2.2

omit [DecidableEq I] [DecidableEq T] in
theorem successes_snoc (log : List (T × (LimiterOp × I) × LimiterAnswer)) (t : T)
    (op : LimiterOp × I) (a : LimiterAnswer) :
    successes (log ++ [(t, op, a)]) = successes log ++ (success? op.1 a).toList := by
  rw [successes, List.filterMap_append]
  cases h : success? op.1 a <;> simp [successes, h]

/-- A success is recorded, at the time of the call and below the limit. -/
theorem success_spec {op : LimiterOp} {a : LimiterAnswer} {now t : Datetime}
    (ha : a.Correct cfg events now op) (h : success? op a = some t) :
    t = now ∧ a.recorded op = [t] ∧ Window.count cfg.window now events < cfg.maxEvents := by
  unfold success? at h
  split at h
  · simp only [Option.ite_none_right_eq_some, Option.some.injEq] at h
    obtain ⟨rfl, rfl⟩ := h
    obtain ⟨ready, hready, hroom⟩ := ha
    cases hready
    exact ⟨rfl, rfl, hroom.mp rfl⟩
  · cases h

/-- The successes among what is recorded, each let through below the limit. -/
structure SuccessesBounded (cfg : LimiterSettings) (recorded xs : List Datetime) : Prop where
  recorded : xs.Sublist recorded
  sorted : xs.Pairwise (· ≤ ·)
  admitted : Window.Admitted cfg.window cfg.maxEvents.toNat xs

theorem serial_successes {w w' : LimiterWorld I} {log : List (T × (LimiterOp × I) × LimiterAnswer)}
    {m m' : T → Unit} (h : Guarded.Serial (limiterSections P) w m log w' m')
    (hw : w.Exact P cfg events) (hop : ∀ x ∈ log, x.2.1.1 = .construct → cfg.shared = true) :
    SuccessesBounded cfg (events ++ recordedEvents log) (successes log) := by
  induction h with
  | nil => exact ⟨List.nil_sublist _, List.Pairwise.nil, Window.admitted_nil _ _⟩
  | @snoc log w₁ w₂ m₁ t op a m' hserial hrun ih =>
    have hop' : ∀ x ∈ log, x.2.1.1 = .construct → cfg.shared = true :=
      fun x hx => hop x (List.mem_append_left _ hx)
    obtain ⟨hsub, hsorted, hadm⟩ := ih hop'
    obtain ⟨hw₂, ha⟩ := runs_spec hrun (hw.serial hserial hop') (hop (t, op, a) (by simp))
    rw [successes_snoc, recordedEvents_snoc, ← List.append_assoc]
    cases hs : success? op.1 a with
    | none => exact ⟨by simpa using hsub.trans (List.sublist_append_left ..), by simpa, by simpa⟩
    | some now =>
      obtain ⟨rfl, hrec, hroom⟩ := success_spec ha hs
      rw [hrec] at hw₂ ⊢
      obtain ⟨ts, -, hstands⟩ := hw₂.kept
      refine ⟨hsub.append (List.Sublist.refl _), ?_, hadm.snoc ?_⟩
      · refine List.pairwise_append.mpr ⟨hsorted, List.pairwise_singleton .., ?_⟩
        intro x hx y hy
        rw [List.mem_singleton.mp hy]
        exact hstands.keeps.past x (List.mem_append_left _ (hsub.subset hx))
      · have hle := Window.count_le (w := cfg.window) (t := w₂.clock) hsub
        omega

/-- What the answers must be for the limiter to be exact. -/
structure ExactLog (cfg : LimiterSettings) (events : List Datetime)
    (log : List (T × (LimiterOp × I) × LimiterAnswer)) : Prop where
  /-- True exactly if fewer than `max_events` events are in the window so far. -/
  decides : ∀ pre t i a post, log = pre ++ (t, (.pingIfReady, i), a) :: post →
    ∃ now ready, a = .decided now ready ∧
      (ready = true ↔ Window.count cfg.window now (events ++ recordedEvents pre) < cfg.maxEvents)
  /-- The half-open intervals that contain their start and those that contain their end. -/
  bounded : ∀ a, (successes log).countP (fun t => a ≤ t ∧ t < a + cfg.window) ≤ cfg.maxEvents ∧
    (successes log).countP (fun t => a < t ∧ t ≤ a + cfg.window) ≤ cfg.maxEvents

theorem exactLog_of_serial {w w' : LimiterWorld I}
    {log : List (T × (LimiterOp × I) × LimiterAnswer)} {m m' : T → Unit}
    (h : Guarded.Serial (limiterSections P) w m log w' m') (hw : w.Exact P cfg events)
    (hop : ∀ x ∈ log, x.2.1.1 = .construct → cfg.shared = true) : ExactLog cfg events log where
  decides pre t i a post hlog := by
    subst hlog
    obtain ⟨w₁, m₁, m₂, w₂, hpre, hrun⟩ := h.before
    have hw₁ := hw.serial hpre fun x hx => hop x (List.mem_append_left _ hx)
    obtain ⟨ready, ha⟩ := (runs_spec hrun hw₁ (hop (t, (.pingIfReady, i), a) (by simp))).2
    exact ⟨w₂.clock, ready, ha⟩
  bounded a := by
    obtain ⟨-, hsorted, hadm⟩ := serial_successes h hw hop
    have hco := hadm.countP_Ico_le hsorted a
    have hoc := hadm.countP_Ioc_le hsorted a
    have hmax := cfg.one_le_maxEvents
    constructor <;> omega

/-- Limiters that start from the same events, none of them in the future. -/
structure LimiterWorld.Start (P : Platform N) (cfg : LimiterSettings) (w : LimiterWorld I)
    (events : List Datetime) : Prop where
  alike : w.Alike cfg
  stored : ∀ i, (w.limiters i).stored P w.file = .ok events
  past : ∀ d ∈ events, d ≤ w.clock ∧ P.RoundTrips d

omit [DecidableEq I] in
theorem LimiterWorld.Start.exact {w : LimiterWorld I} (h : w.Start P cfg events) :
    w.Exact P cfg events :=
  ⟨h.alike, events, h.stored, .all fun d hd => (h.past d hd).1, fun d hd => (h.past d hd).2⟩

/-- **`ping_if_ready` is exact**: for any processes that share one path, in every
interleaving, and for the calls on one limiter in memory. -/
theorem rolling_window_exact {w : LimiterWorld I} (hw : w.Start P cfg events) :
    (cfg.shared = true →
      ∀ (c c' : Guarded.Config (exclusivePathLock T) (LimiterOp × I) LimiterAnswer Unit
          (LimiterCall I) (LimiterWorld I)) steps,
        c.shared = w → Guarded.Quiet c →
        Execution (Guarded.Step (limiterSections P)) c steps c' →
          (∀ t, Guarded.Calls t (steps.map Prod.snd) (Guarded.phase (c'.thread t))) ∧
          ExactLog cfg events (Guarded.commits steps)) ∧
    (cfg.shared = false →
      ∀ (log : List (T × (LimiterOp × I) × LimiterAnswer)) w' m m',
        Guarded.Serial (limiterSections P) w m log w' m' → (∀ x ∈ log, x.2.1.1 ≠ .construct) →
          ExactLog cfg events log) := by
  constructor
  · intro hshared c c' steps hc hquiet h
    subst hc
    obtain ⟨s', ms', hserial, -⟩ := Guarded.serializable h (hquiet.agrees _)
    exact ⟨fun t => Guarded.calls_of_execution h (hquiet.phase_eq t),
      exactLog_of_serial hserial hw.exact fun _ _ _ => hshared⟩
  · intro _ log w' m m' hserial hop
    exact exactLog_of_serial hserial hw.exact fun x hx hc => absurd hc (hop x hx)

/-! One process asks once: the whole way through the lock and back. -/

def utcPlatform : Platform Int := ⟨id, .ok, fun _ => .valueError "invalid start byte"⟩

def oncePerTen : LimiterSettings := ⟨1, 10, true, le_rfl⟩

def freshLimiters : LimiterWorld Unit :=
  ⟨none, 0, fun _ => ⟨1, 10, some "state.json", [], le_rfl, by decide⟩⟩

theorem freshLimiters_start : freshLimiters.Start utcPlatform oncePerTen [] :=
  ⟨⟨fun _ => rfl, fun _ => rfl, fun _ => rfl, fun h => by cases h⟩, fun _ => rfl, by simp⟩

def freshConfig : Guarded.Config (exclusivePathLock Unit) (LimiterOp × Unit) LimiterAnswer Unit
    (LimiterCall Unit) (LimiterWorld Unit) :=
  ⟨⟨⟨none, none⟩, fun _ => none⟩, freshLimiters, fun _ => .idle ()⟩

theorem freshConfig_quiet : Guarded.Quiet freshConfig :=
  ⟨fun _ => by simp [freshConfig, PathLock.Locked], fun _ => rfl, fun _ => ⟨(), rfl⟩⟩

theorem freshConfig_asks : ∃ steps c', Execution (Guarded.Step (limiterSections utcPlatform))
    freshConfig steps c' ∧
      Guarded.commits steps = [((), (.pingIfReady, ()), .decided 5 true)] := by
  refine ⟨_, _, .cons (l := .invoke () (.pingIfReady, ())) (.invoke rfl rfl rfl) <|
    .cons (l := .enter ()) (.enter (PathLock.Advance.step rfl (.created 0))) <|
    .cons (l := .enter ()) (.enter (PathLock.Advance.step rfl .flock)) <|
    .cons (l := .enter ()) (.enter (PathLock.Advance.step rfl .utime)) <|
    .cons (l := .begin ()) (.begin rfl rfl rfl) <|
    .cons (l := .body ()) (.body rfl (LimiterStep.now rfl (show (0 : Int) ≤ 5 by decide)
      (show utcPlatform.RoundTrips 5 from rfl))) <|
    .cons (l := .body ()) (.body rfl (LimiterStep.refresh rfl rfl)) <|
    .cons (l := .body ()) (.body rfl (LimiterStep.check rfl)) <|
    .cons (l := .body ()) (.body rfl (LimiterStep.append rfl)) <|
    .cons (l := .body ()) (.body rfl (LimiterStep.write rfl)) <|
    .cons (l := .commit () _ _) (.commit rfl rfl (PathLock.Release.unlock rfl)) <|
    .cons (l := .enter ()) (.enter (PathLock.Advance.close rfl)) <| .refl, ?_⟩
  rfl

theorem rolling_window_exact_once : ∃ steps c',
    Execution (Guarded.Step (limiterSections utcPlatform)) freshConfig steps c' ∧
      Guarded.commits steps = [((), (.pingIfReady, ()), .decided 5 true)] ∧
      ExactLog oncePerTen [] (Guarded.commits steps) := by
  obtain ⟨steps, c', h, hlog⟩ := freshConfig_asks
  exact ⟨steps, c', h, hlog,
    ((rolling_window_exact freshLimiters_start).1 rfl _ _ _ rfl freshConfig_quiet h).2⟩

end SchedulingUtil
