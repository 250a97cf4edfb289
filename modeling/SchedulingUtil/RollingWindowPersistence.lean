import SchedulingUtil.Lib.Execution
import SchedulingUtil.RollingWindowExact
import SchedulingUtil.RollingWindowWrite

/-! # Calls whose write fails

The limiter's calls with the write step by step. Whatever a call before has left in the
memory of its limiter, the next one starts from the content of the path. -/
namespace SchedulingUtil
open Lib Lib.Utf8

/-! ## A call, with its write -/

/-- A call under way, or in its `_write_timestamps_to_disk`. -/
inductive DurableCall (I : Type) where
  | calling (c : LimiterCall I)
  | writing (c : LimiterCall I) (s : WriteProgress)

structure DurableWorld (I : Type) where
  directory : Directory
  clock : Datetime
  limiters : I → RollingWindowRateLimiter

/-- The world of the limiters whose path has this name. -/
def DurableWorld.at {I : Type} (w : DurableWorld I) (name : String) : LimiterWorld I :=
  ⟨w.directory name, w.clock, w.limiters⟩

section Calls
variable {I N : Type} [DecidableEq I] [PyFloat N] (P : Platform N) (name : String) (posix : Bool)

/-- One step of a call on a limiter with a path, in which the write may raise. The clock may
show any time. -/
inductive DurableStep : DurableCall I × DurableWorld I → WriteEvent →
    DurableCall I × DurableWorld I → Prop where
  | call {c c' : LimiterCall I} {w : DurableWorld I} {w' : LimiterWorld I} (h : c.pc ≠ .write)
      (hstep : LimiterStep P (c, w.at name) (c', w')) :
      DurableStep (.calling c, w) .step (.calling c', { w with
        clock := w'.clock, limiters := w'.limiters })
  | now {c : LimiterCall I} {w : DurableWorld I} (h : c.pc = .now) (now : Datetime) :
      DurableStep (.calling c, w) .step
        (.calling { c with now, pc := c.op.afterNow }, { w with clock := now })
  | enter {c : LimiterCall I} {w : DurableWorld I} (h : c.pc = .write) :
      DurableStep (.calling c, w) .step (.writing c ⟨none, [], .mkdir⟩, w)
  | write {c : LimiterCall I} {w : DurableWorld I} {s s' : WriteProgress} {d : Directory}
      {e : WriteEvent}
      (h : WriteStep name (RollingWindowRateLimiter.dumpState P (w.limiters c.index).timestamps)
        posix (s, w.directory) e (s', d)) :
      DurableStep (.writing c s, w) e (.writing c s', { w with directory := d })
  | returns {c : LimiterCall I} {w : DurableWorld I} {s : WriteProgress} (h : s.pc = .left none) :
      DurableStep (.writing c s, w) .step (.calling { c with pc := c.afterWrite }, w)
  | raises {c : LimiterCall I} {w : DurableWorld I} {s : WriteProgress} {e : PyException}
      (h : s.pc = .left (some e)) :
      DurableStep (.writing c s, w) .step (.calling { c with pc := .done (.raised e) }, w)

end Calls

/-! ## What a call answers by the content of its path -/

namespace RollingWindowRateLimiter
variable {N : Type} [PyFloat N] (P : Platform N)

/-- The timestamps at the path. -/
def readPath (path : String) : File → Except PyException (List Datetime)
  | none => .ok []
  | some content => readState P path content

/-- What a call at the time `now` answers and what it writes, if nothing goes wrong. -/
def answerFrom (maxEvents : Int) (window : Timedelta) (path : String) (file : File)
    (now : Datetime) (op : LimiterOp) : LimiterAnswer × File :=
  match readPath P path file with
  | .error e => (.raised e, file)
  | .ok timestamps =>
    let kept := timestamps.filter (now - window < ·)
    match op with
    | .construct => (.constructed, file)
    | .ping => (.pinged now, some (dumpState P (kept ++ [now])))
    | .isReady => (.decided now (kept.length < maxEvents), file)
    | .pingIfReady =>
      if kept.length < maxEvents then (.decided now true, some (dumpState P (kept ++ [now])))
      else (.decided now false, file)

theorem refresh_path {l : RollingWindowRateLimiter} {path : String} (h : l.path = some path)
    (file : File) : l.refreshTimestampsFromDisk P file =
      (readPath P path file).map fun timestamps => { l with timestamps } := by
  cases file with
  | none => simp [refreshTimestampsFromDisk, readPath, h, Except.map]
  | some content => simp [refreshTimestampsFromDisk, readPath, h]

end RollingWindowRateLimiter

/-! ## How far a call has come -/

section Reaches
variable {I N : Type} [PyFloat N] {P : Platform N} {name path : String}
  {op : LimiterOp} {i : I} {w₀ : DurableWorld I}

/-- The call `op` on the limiter `i` adds its time to what it has kept of the timestamps at
the path. -/
structure Adding (P : Platform N) (name path : String) (op : LimiterOp) (i : I)
    (w₀ : DurableWorld I) (now : Datetime) (kept : List Datetime) : Prop where
  read : ∃ timestamps,
    RollingWindowRateLimiter.readPath P path (w₀.directory name) = .ok timestamps ∧
    kept = timestamps.filter (now - (w₀.limiters i).window < ·)
  op : op = .ping ∨ op = .pingIfReady ∧ kept.length < (w₀.limiters i).maxEvents

/-- The call has changed nothing but the timestamps of its limiter. -/
structure Beside (op : LimiterOp) (i : I) (w₀ : DurableWorld I) (c : LimiterCall I)
    (w : DurableWorld I) (timestamps : List Datetime) : Prop where
  index : c.index = i
  op : c.op = op
  limiter : w.limiters i = { w₀.limiters i with timestamps }

/-- Up to the refresh nothing is known of the timestamps. -/
def LimiterCall.Starting (c : LimiterCall I) : Prop :=
  match c.pc with
  | .new => c.op = .construct
  | .now => c.op = .ping ∨ c.op = .pingIfReady
  | .refresh => True
  | _ => False

/-- Behind the refresh they are those of the path. -/
def LimiterCall.Loaded (c : LimiterCall I) : Prop :=
  match c.pc with
  | .now => c.op = .isReady
  | .prune => c.op = .ping
  | .check => c.op = .pingIfReady ∨ c.op = .isReady
  | _ => False

/-- What the call returns is decided by the content of the path alone, and so is what the
path holds then. -/
def AnswersFrom (P : Platform N) (name path : String) (op : LimiterOp) (i : I)
    (w₀ : DurableWorld I) (now : Datetime) (a : LimiterAnswer) (file : File) : Prop :=
  (a, file) = RollingWindowRateLimiter.answerFrom P (w₀.limiters i).maxEvents
    (w₀.limiters i).window path (w₀.directory name) now op

/-- The flag says whether the temporary file has been renamed. -/
inductive CallReaches (P : Platform N) (name path : String) (op : LimiterOp) (i : I)
    (w₀ : DurableWorld I) : Bool → DurableCall I × DurableWorld I → Prop where
  | starting {c : LimiterCall I} {w : DurableWorld I} {timestamps : List Datetime}
      (hc : Beside op i w₀ c w timestamps) (hd : w.directory = w₀.directory)
      (hpc : c.Starting) : CallReaches P name path op i w₀ false (.calling c, w)
  | loaded {c : LimiterCall I} {w : DurableWorld I} {timestamps : List Datetime}
      (hc : Beside op i w₀ c w timestamps) (hd : w.directory = w₀.directory)
      (hpc : c.Loaded)
      (hread : RollingWindowRateLimiter.readPath P path (w₀.directory name) = .ok timestamps) :
      CallReaches P name path op i w₀ false (.calling c, w)
  | adding {c : LimiterCall I} {w : DurableWorld I} {kept : List Datetime}
      (hc : Beside op i w₀ c w kept) (hd : w.directory = w₀.directory) (hpc : c.pc = .append)
      (hadd : Adding P name path op i w₀ c.now kept) :
      CallReaches P name path op i w₀ false (.calling c, w)
  | added {c : LimiterCall I} {w : DurableWorld I} {kept : List Datetime}
      (hc : Beside op i w₀ c w (kept ++ [c.now])) (hd : w.directory = w₀.directory)
      (hpc : c.pc = .write) (hadd : Adding P name path op i w₀ c.now kept) :
      CallReaches P name path op i w₀ false (.calling c, w)
  | writing {c : LimiterCall I} {w : DurableWorld I} {kept : List Datetime} {b : Bool}
      {s : WriteProgress} (hc : Beside op i w₀ c w (kept ++ [c.now]))
      (hadd : Adding P name path op i w₀ c.now kept)
      (hw : WriteReaches name (RollingWindowRateLimiter.dumpState P (kept ++ [c.now]))
        w₀.directory b (s, w.directory)) :
      CallReaches P name path op i w₀ b (.writing c s, w)
  | answered {c : LimiterCall I} {w : DurableWorld I} {a : LimiterAnswer}
      (hd : w.directory = w₀.directory) (hpc : c.pc = .done a)
      (ha : AnswersFrom P name path op i w₀ c.now a (w₀.directory name)) :
      CallReaches P name path op i w₀ false (.calling c, w)
  | wrote {c : LimiterCall I} {w : DurableWorld I} {a : LimiterAnswer} {b : Bool}
      {s : WriteProgress} {raised : Option PyException} {kept : List Datetime}
      (hpc : c.pc = .done a) (hleft : s.pc = .left raised)
      (hadd : Adding P name path op i w₀ c.now kept)
      (hw : WriteReaches name (RollingWindowRateLimiter.dumpState P (kept ++ [c.now]))
        w₀.directory b (s, w.directory))
      (ha : match raised with
        | none => AnswersFrom P name path op i w₀ c.now a (w.directory name)
        | some e => a = .raised e) :
      CallReaches P name path op i w₀ b (.calling c, w)

/-- What the write is for. -/
theorem Adding.answer {now : Datetime} {kept : List Datetime}
    (h : Adding P name path op i w₀ now kept) :
    RollingWindowRateLimiter.answerFrom P (w₀.limiters i).maxEvents (w₀.limiters i).window path
        (w₀.directory name) now op =
      (if op = .pingIfReady then .decided now true else .pinged now,
        some (RollingWindowRateLimiter.dumpState P (kept ++ [now]))) := by
  obtain ⟨⟨timestamps, hread, rfl⟩, hop⟩ := h
  rw [RollingWindowRateLimiter.answerFrom, hread]
  rcases hop with rfl | ⟨rfl, hroom⟩
  · rfl
  · simp only [if_true]
    rw [if_pos hroom]

variable [DecidableEq I] {posix : Bool}

/-- A step on the limiter. -/
theorem Beside.update {c c' : LimiterCall I} {w : DurableWorld I} {timestamps : List Datetime}
    (h : Beside op i w₀ c w timestamps) {clock : Datetime} {l : RollingWindowRateLimiter}
    {timestamps' : List Datetime} (hc : c'.index = c.index ∧ c'.op = c.op)
    (hl : l = { w₀.limiters i with timestamps := timestamps' }) :
    Beside op i w₀ c' { w with clock, limiters := Function.update w.limiters c.index l }
      timestamps' := by
  refine ⟨hc.1.trans h.index, hc.2.trans h.op, ?_⟩
  rw [h.index, hl]
  exact Function.update_self ..

omit [DecidableEq I] in
theorem Beside.limiter_eq {c : LimiterCall I} {w : DurableWorld I} {timestamps : List Datetime}
    (h : Beside op i w₀ c w timestamps) :
    (w.at name).limiters c.index = { w₀.limiters i with timestamps } := by
  rw [h.index]
  exact h.limiter

omit [DecidableEq I] in
/-- The refresh of the limiter's timestamps from the path. -/
theorem Beside.refresh {c : LimiterCall I} {w : DurableWorld I} {timestamps : List Datetime}
    (h : Beside op i w₀ c w timestamps) (hpath : (w₀.limiters i).path = some path)
    (hd : w.directory = w₀.directory) :
    ((w.at name).limiters c.index).refreshTimestampsFromDisk P (w.at name).file =
      (RollingWindowRateLimiter.readPath P path (w₀.directory name)).map
        fun timestamps => { w₀.limiters i with timestamps } := by
  have hf : (w.at name).file = w₀.directory name := by rw [DurableWorld.at, hd]
  rw [h.limiter_eq, hf]
  exact RollingWindowRateLimiter.refresh_path (l := { w₀.limiters i with timestamps }) P hpath _

omit [DecidableEq I] in
/-- The clock is read. -/
theorem callReaches_now {b : Bool} {c : LimiterCall I} {w : DurableWorld I}
    (h : CallReaches P name path op i w₀ b (.calling c, w)) (hpc : c.pc = .now) (now : Datetime) :
    CallReaches P name path op i w₀ b
      (.calling { c with now, pc := c.op.afterNow }, { w with clock := now }) := by
  obtain ⟨index, cop, pc, earlier⟩ := c
  cases hpc
  cases h with
  | starting hc hd hstart =>
    obtain rfl | rfl : cop = .ping ∨ cop = .pingIfReady := hstart
    · exact .starting ⟨hc.index, hc.op, hc.limiter⟩ hd trivial
    · exact .starting ⟨hc.index, hc.op, hc.limiter⟩ hd trivial
  | loaded hc hd hloaded hread =>
    obtain rfl : cop = .isReady := hloaded
    exact .loaded ⟨hc.index, hc.op, hc.limiter⟩ hd (.inr rfl) hread
  | adding _ _ hpc | added _ _ hpc | answered _ hpc | wrote hpc => cases hpc

/-- A step up to the refresh. -/
theorem callReaches_starting {c c' : LimiterCall I} {w : DurableWorld I} {w' : LimiterWorld I}
    {timestamps : List Datetime} (hpath : (w₀.limiters i).path = some path)
    (hc : Beside op i w₀ c w timestamps) (hd : w.directory = w₀.directory) (hpc : c.Starting)
    (hstep : LimiterStep P (c, w.at name) (c', w')) :
    CallReaches P name path op i w₀ false (.calling c', { w with
      clock := w'.clock, limiters := w'.limiters }) := by
  obtain ⟨index, cop, pc, now⟩ := c
  have hl : (w.at name).limiters index = _ := hc.limiter_eq
  have hrefresh : ((w.at name).limiters index).refreshTimestampsFromDisk P (w.at name).file = _ :=
    hc.refresh hpath hd
  cases hstep with
  | new h =>
    cases h
    have hempty : ({ (w.at name).limiters index with timestamps := [] } :
        RollingWindowRateLimiter) = { w₀.limiters i with timestamps := [] } := by rw [hl]
    exact .starting (hc.update ⟨rfl, rfl⟩ hempty) hd trivial
  | now h =>
    cases h
    exact callReaches_now (.starting hc hd hpc) rfl _
  | refresh h hnew =>
    cases h
    rw [hrefresh] at hnew
    cases hread : RollingWindowRateLimiter.readPath P path (w₀.directory name) with
    | error e =>
      rw [hread] at hnew
      cases hnew
    | ok stored =>
      rw [hread] at hnew
      cases hnew
      have hop := hc.op
      cases cop with
      | construct =>
        refine .answered hd rfl ?_
        rw [AnswersFrom, RollingWindowRateLimiter.answerFrom, hread, ← hop]
      | ping => exact .loaded (hc.update ⟨rfl, rfl⟩ rfl) hd rfl hread
      | pingIfReady => exact .loaded (hc.update ⟨rfl, rfl⟩ rfl) hd (.inl rfl) hread
      | isReady => exact .loaded (hc.update ⟨rfl, rfl⟩ rfl) hd rfl hread
  | invalid h he =>
    cases h
    rw [hrefresh] at he
    cases hread : RollingWindowRateLimiter.readPath P path (w₀.directory name) with
    | ok stored =>
      rw [hread] at he
      cases he
    | error e =>
      rw [hread] at he
      cases he
      refine .answered hd rfl ?_
      rw [AnswersFrom, RollingWindowRateLimiter.answerFrom, hread]
  | _ h =>
    cases h
    exact hpc.elim

/-- The check, on the timestamps of the path. -/
theorem callReaches_check {c : LimiterCall I} {w : DurableWorld I} {timestamps : List Datetime}
    (hc : Beside op i w₀ c w timestamps) (hd : w.directory = w₀.directory)
    (hop : c.op = .pingIfReady ∨ c.op = .isReady)
    (hread : RollingWindowRateLimiter.readPath P path (w₀.directory name) = .ok timestamps) :
    let checked := ((w.at name).limiters c.index).isReadyAt c.now
    CallReaches P name path op i w₀ false (.calling { c with pc := c.afterCheck checked.1 },
      { w with limiters := Function.update w.limiters c.index checked.2 }) := by
  intro checked
  let kept := timestamps.filter (c.now - (w₀.limiters i).window < ·)
  have hl : (w.at name).limiters c.index = _ := hc.limiter_eq
  have hchecked : checked = (decide (kept.length < (w₀.limiters i).maxEvents),
      { w₀.limiters i with timestamps := kept }) := by
    simp only [checked, hl]
    rfl
  have hdecided (hop' : op = .pingIfReady → ¬ kept.length < (w₀.limiters i).maxEvents) :
      AnswersFrom P name path op i w₀ c.now (.decided c.now checked.1) (w₀.directory name) := by
    rw [AnswersFrom, RollingWindowRateLimiter.answerFrom, hread, hchecked, ← hc.op]
    rcases hop with hop | hop
    · have hfull := hop' (hc.op.symm.trans hop)
      simp only [hop, kept] at hfull ⊢
      simp only [hfull, decide_false, if_false]
    · simp only [hop, kept]
  by_cases hping : c.op = .pingIfReady ∧ kept.length < (w₀.limiters i).maxEvents
  · obtain ⟨hping, hroom⟩ := hping
    refine .adding (hc.update ⟨rfl, rfl⟩ (by rw [hchecked])) hd ?_
      ⟨⟨timestamps, hread, rfl⟩, .inr ⟨hc.op.symm.trans hping, hroom⟩⟩
    simp [LimiterCall.afterCheck, hchecked, hroom, hping]
  · have hfull (hop' : op = .pingIfReady) : ¬ kept.length < (w₀.limiters i).maxEvents :=
      fun hroom => hping ⟨hc.op.trans hop', hroom⟩
    refine .answered hd ?_ (hdecided hfull)
    show c.afterCheck checked.1 = _
    rw [LimiterCall.afterCheck, if_neg]
    simp only [hchecked, Bool.and_eq_true, decide_eq_true_eq, beq_iff_eq]
    exact fun h => hping ⟨h.2, h.1⟩

/-- A step behind the refresh. -/
theorem callReaches_loaded {c c' : LimiterCall I} {w : DurableWorld I} {w' : LimiterWorld I}
    {timestamps : List Datetime} (hc : Beside op i w₀ c w timestamps)
    (hd : w.directory = w₀.directory) (hpc : c.Loaded)
    (hread : RollingWindowRateLimiter.readPath P path (w₀.directory name) = .ok timestamps)
    (hstep : LimiterStep P (c, w.at name) (c', w')) :
    CallReaches P name path op i w₀ false (.calling c', { w with
      clock := w'.clock, limiters := w'.limiters }) := by
  obtain ⟨index, cop, pc, now⟩ := c
  have hl : (w.at name).limiters index = _ := hc.limiter_eq
  cases hstep with
  | now h =>
    cases h
    exact callReaches_now (.loaded hc hd hpc hread) rfl _
  | prune h =>
    cases h
    obtain rfl : cop = .ping := hpc
    refine .adding (hc.update ⟨rfl, rfl⟩ ?_) hd rfl
      ⟨⟨timestamps, hread, rfl⟩, .inl hc.op.symm⟩
    rw [RollingWindowRateLimiter.pruneTimestamps, hl]
  | check h =>
    cases h
    exact callReaches_check hc hd hpc hread
  | _ h =>
    cases h
    exact hpc.elim

/-- A step of a call that is not in its write. -/
theorem callReaches_call {b : Bool} {c c' : LimiterCall I} {w : DurableWorld I}
    {w' : LimiterWorld I} (hpath : (w₀.limiters i).path = some path)
    (h : CallReaches P name path op i w₀ b (.calling c, w)) (hne : c.pc ≠ .write)
    (hstep : LimiterStep P (c, w.at name) (c', w')) :
    CallReaches P name path op i w₀ b (.calling c', { w with
      clock := w'.clock, limiters := w'.limiters }) := by
  cases h with
  | starting hc hd hpc => exact callReaches_starting hpath hc hd hpc hstep
  | loaded hc hd hpc hread => exact callReaches_loaded hc hd hpc hread hstep
  | adding hc hd hpc hadd =>
    obtain ⟨index, cop, pc, now⟩ := c
    cases hpc
    cases hstep with
    | append h =>
      refine .added (hc.update ⟨rfl, rfl⟩ ?_) hd rfl hadd
      rw [hc.limiter_eq]
    | write h => exact absurd h hne
    | _ h => cases h
  | added hc hd hpc => exact absurd hpc hne
  | answered hd hpc | wrote hpc =>
    cases hstep with
    | _ h =>
      rw [h] at hpc
      cases hpc

theorem callReaches_step {b : Bool} {x y : DurableCall I × DurableWorld I} {e : WriteEvent}
    (hpath : (w₀.limiters i).path = some path) (h : CallReaches P name path op i w₀ b x)
    (hstep : DurableStep P name posix x e y) :
    CallReaches P name path op i w₀ (b || e.isReplaced) y := by
  cases hstep with
  | call hne hstep =>
    rw [WriteEvent.or_step]
    exact callReaches_call hpath h hne hstep
  | now hpc now =>
    rw [WriteEvent.or_step]
    exact callReaches_now h hpc now
  | enter hpc =>
    rw [WriteEvent.or_step]
    cases h with
    | added hc hd _ hadd =>
      refine .writing hc hadd ?_
      rw [hd]
      exact .before rfl trivial
    | starting hc hd hstart =>
      rw [LimiterCall.Starting, hpc] at hstart
      exact hstart.elim
    | loaded hc hd hloaded =>
      rw [LimiterCall.Loaded, hpc] at hloaded
      exact hloaded.elim
    | adding _ _ hpc' | answered _ hpc' | wrote hpc' =>
      rw [hpc] at hpc'
      cases hpc'
  | write hstep =>
    cases h with
    | writing hc hadd hw =>
      rw [hc.index, hc.limiter] at hstep
      exact .writing ⟨hc.index, hc.op, hc.limiter⟩ hadd (writeReaches_step hw hstep)
  | @returns c w s hleft =>
    rw [WriteEvent.or_step]
    cases h with
    | writing hc hadd hw =>
      have hfile : w.directory name = _ := hw.cut.returns hleft
      refine .wrote rfl hleft hadd hw ?_
      rw [AnswersFrom, hadd.answer, hfile, hc.op]
  | raises hleft =>
    rw [WriteEvent.or_step]
    cases h with
    | writing hc hadd hw => exact .wrote rfl hleft hadd hw rfl

/-- The exception that is being raised, or that the call has raised, is one of the file's
content or one that a step of the write has raised. -/
def RaisedBy (P : Platform N) (path : String) (file : File) (events : List WriteEvent) :
    DurableCall I → Prop
  | .writing _ s => ∀ e, s.pc.raising = some e → .raised e ∈ events
  | .calling c => ∀ e, c.pc = .done (.raised e) →
    RollingWindowRateLimiter.readPath P path file = .error e ∨ .raised e ∈ events

/-- Outside of the write a call raises only for what it reads. -/
theorem LimiterStep.raised {c c' : LimiterCall I} {w w' : LimiterWorld I} {e : PyException}
    (hstep : LimiterStep P (c, w) (c', w')) (hne : c.pc ≠ .write)
    (he : c'.pc = .done (.raised e)) : c.pc = .refresh ∧
      (w.limiters c.index).refreshTimestampsFromDisk P w.file = .error e := by
  cases hstep with
  | invalid h herror =>
    cases he
    exact ⟨h, herror⟩
  | now | refresh =>
    cases hop : c.op <;> simp [hop, LimiterOp.afterNow, LimiterOp.afterRefresh] at he
  | check =>
    simp only [LimiterCall.afterCheck] at he
    split at he <;> cases he
  | write h => exact absurd h hne
  | _ => cases he

omit [DecidableEq I] in
theorem CallReaches.readPath {b : Bool} {c : LimiterCall I} {w : DurableWorld I} {e : PyException}
    (h : CallReaches P name path op i w₀ b (.calling c, w)) (hpc : c.pc = .refresh)
    (hpath : (w₀.limiters i).path = some path)
    (he : ((w.at name).limiters c.index).refreshTimestampsFromDisk P (w.at name).file = .error e) :
    RollingWindowRateLimiter.readPath P path (w₀.directory name) = .error e := by
  cases h with
  | starting hc hd =>
    rw [hc.refresh hpath hd] at he
    cases hread : RollingWindowRateLimiter.readPath P path (w₀.directory name) with
    | ok stored =>
      rw [hread] at he
      cases he
    | error e' =>
      rw [hread] at he
      cases he
      rfl
  | loaded _ _ hloaded =>
    rw [LimiterCall.Loaded, hpc] at hloaded
    exact hloaded.elim
  | adding _ _ hpc' | added _ _ hpc' | answered _ hpc' | wrote hpc' =>
    rw [hpc] at hpc'
    cases hpc'

theorem raisedBy_step {b : Bool} {x y : DurableCall I × DurableWorld I} {e : WriteEvent}
    {events : List WriteEvent} (hpath : (w₀.limiters i).path = some path)
    (hx : CallReaches P name path op i w₀ b x)
    (h : RaisedBy P path (w₀.directory name) events x.1)
    (hstep : DurableStep P name posix x e y) :
    RaisedBy P path (w₀.directory name) (events ++ [e]) y.1 := by
  cases hstep with
  | call hne hstep =>
    intro e he
    obtain ⟨hpc, herror⟩ := hstep.raised hne he
    exact .inl (hx.readPath hpc hpath herror)
  | @now c =>
    intro e he
    cases hop : c.op <;> simp [hop, LimiterOp.afterNow] at he
  | enter =>
    intro e he
    cases he
  | write hstep =>
    intro e he
    rcases raising_step hstep he with hbefore | rfl
    · exact List.mem_append_left _ (h e hbefore)
    · simp
  | returns =>
    intro e he
    simp only [LimiterCall.afterWrite] at he
    split at he <;> cases he
  | raises hleft =>
    intro e he
    cases he
    exact .inr (List.mem_append_left _ (h _ (by rw [hleft]; rfl)))

/-- Before its first step. -/
def DurableCall.initial (op : LimiterOp) (i : I) : DurableCall I := .calling ⟨i, op, op.first, 0⟩

theorem callReaches_run {steps : List ((DurableCall I × DurableWorld I) × WriteEvent)}
    {x : DurableCall I × DurableWorld I} (hpath : (w₀.limiters i).path = some path)
    (h : Execution (DurableStep P name posix) (.initial op i, w₀) steps x) :
    CallReaches P name path op i w₀ (steps.any fun y => y.2.isReplaced) x ∧
      RaisedBy P path (w₀.directory name) (steps.map Prod.snd) x.1 := by
  have hstart : CallReaches P name path op i w₀ false (.initial op i, w₀) := by
    have hbeside : Beside op i w₀ ⟨i, op, op.first, 0⟩ w₀ (w₀.limiters i).timestamps :=
      ⟨rfl, rfl, rfl⟩
    refine .starting hbeside rfl ?_
    cases op
    · exact rfl
    · exact .inl rfl
    · exact .inr rfl
    · trivial
  have hstep (b : Bool) (u : DurableCall I × DurableWorld I) (l : WriteEvent)
      (v : DurableCall I × DurableWorld I) (hu : CallReaches P name path op i w₀ b u)
      (hl : DurableStep P name posix u l v) :
      CallReaches P name path op i w₀ (b || l.isReplaced) v := callReaches_step hpath hu hl
  refine ⟨h.flag hstep hstart, ?_⟩
  induction h with
  | refl =>
    intro e he
    cases op <;> cases he
  | snoc h hl ih =>
    rw [List.map_append]
    exact raisedBy_step hpath (h.flag hstep hstart) ih hl

end Reaches

/-! ## Atomic persistence -/

section Atomic
variable {I N : Type} [DecidableEq I] [PyFloat N]

/-- The call `op` on the limiter `i` has come from the world `w` to `x`. -/
structure CallCut (P : Platform N) (name path : String) (op : LimiterOp) (i : I)
    (w : DurableWorld I) (events : List WriteEvent) (x : DurableCall I × DurableWorld I) :
    Prop where
  file : x.2.directory name = w.directory name ∨ .replaced ∈ events ∧ ∃ now kept,
    Adding P name path op i w now kept ∧
      x.2.directory name = some (RollingWindowRateLimiter.dumpState P (kept ++ [now]))
  temporary : ∀ c a, x.1 = .calling c → c.pc = .done a →
    ∀ other, other ≠ name → x.2.directory other = w.directory other
  answer : ∀ c a, x.1 = .calling c → c.pc = .done a →
    AnswersFrom P name path op i w c.now a (x.2.directory name) ∨
      ∃ e, a = .raised e ∧ .raised e ∈ events

theorem replaced_of_any {S : Type} {steps : List (S × WriteEvent)}
    (h : (steps.any fun y => y.2.isReplaced) = true) : .replaced ∈ steps.map Prod.snd := by
  obtain ⟨y, hy, hreplaced⟩ := List.any_eq_true.mp h
  refine List.mem_map.mpr ⟨y, hy, ?_⟩
  cases he : y.2 with
  | replaced => rfl
  | _ =>
    rw [he] at hreplaced
    cases hreplaced

omit [DecidableEq I] in
theorem CallReaches.cut {P : Platform N} {name path : String} {op : LimiterOp} {i : I}
    {w : DurableWorld I} {b : Bool} {x : DurableCall I × DurableWorld I}
    {events : List WriteEvent} (h : CallReaches P name path op i w b x)
    (hb : b = true → .replaced ∈ events)
    (hraised : RaisedBy P path (w.directory name) events x.1) :
    CallCut P name path op i w events x := by
  have hunchanged {c : LimiterCall I} {w' : DurableWorld I} (hd : w'.directory = w.directory)
      (ha : ∀ a, c.pc = .done a → AnswersFrom P name path op i w c.now a (w.directory name)) :
      CallCut P name path op i w events (.calling c, w') := by
    refine ⟨.inl (congrFun hd name), fun _ _ _ _ other _ => congrFun hd other,
      fun c' a hc hdone => .inl ?_⟩
    cases hc
    rw [hd]
    exact ha a hdone
  cases h with
  | starting hc hd hpc =>
    refine hunchanged hd ?_
    intro a hdone
    rw [LimiterCall.Starting, hdone] at hpc
    exact hpc.elim
  | loaded hc hd hpc =>
    refine hunchanged hd ?_
    intro a hdone
    rw [LimiterCall.Loaded, hdone] at hpc
    exact hpc.elim
  | adding hc hd hpc | added hc hd hpc =>
    refine hunchanged hd ?_
    intro a hdone
    rw [hpc] at hdone
    cases hdone
  | answered hd hpc ha =>
    refine hunchanged hd ?_
    intro a hdone
    rw [hpc] at hdone
    cases hdone
    exact ha
  | writing hc hadd hw =>
    refine ⟨hw.cut.file.imp_right fun hnew => ⟨hb hnew.2, _, _, hadd, hnew.1⟩, fun c' a hx => ?_,
      fun c' a hx => ?_⟩
    · cases hx
    · cases hx
  | @wrote c w' a b s raised kept hpc hleft hadd hw ha =>
    refine ⟨hw.cut.file.imp_right fun hnew => ⟨hb hnew.2, _, _, hadd, hnew.1⟩,
      fun _ _ _ _ => hw.cut.temporary raised hleft, fun c' a' hx hdone => ?_⟩
    cases hx
    rw [hpc] at hdone
    cases hdone
    cases raised with
    | none => exact .inl ha
    | some e =>
      obtain rfl : a = .raised e := ha
      obtain ⟨timestamps, hread, -⟩ := hadd.read
      refine .inr ⟨e, rfl, (hraised e hpc).resolve_left ?_⟩
      intro herror
      rw [hread] at herror
      cases herror

/-- **The file is the old one or the new one**, wherever the write is cut off, and a call that
comes to its end has decided from the content of the path alone; the new one reads back to the
timestamps it was written with. -/
theorem rolling_window_atomic (P : Platform N) (name : String) (posix : Bool) :
    (∀ (timestamps : List Datetime) (d : Directory)
        (steps : List ((WriteProgress × Directory) × WriteEvent)) (x : WriteProgress × Directory),
      Execution (WriteStep name (RollingWindowRateLimiter.dumpState P timestamps) posix)
        (⟨none, [], .mkdir⟩, d) steps x →
      WriteCut name (RollingWindowRateLimiter.dumpState P timestamps) d
        (.replaced ∈ steps.map Prod.snd) x) ∧
    (∀ (w : DurableWorld I) (i : I) (path : String) (op : LimiterOp)
        (steps : List ((DurableCall I × DurableWorld I) × WriteEvent))
        (x : DurableCall I × DurableWorld I),
      (w.limiters i).path = some path →
      Execution (DurableStep P name posix) (.initial op i, w) steps x →
      CallCut P name path op i w (steps.map Prod.snd) x) ∧
    ∀ (path : String) (timestamps : List Datetime), (∀ d ∈ timestamps, P.RoundTrips d) →
      RollingWindowRateLimiter.readState P path
        (RollingWindowRateLimiter.dumpState P timestamps) = .ok timestamps := by
  refine ⟨?_, ?_, fun path _ => RollingWindowRateLimiter.readState_dumpState path⟩
  · intro timestamps d steps x h
    have hreach := h.flag (fun b u l v (hu : WriteReaches name _ d b u) hl =>
      writeReaches_step hu hl) (.before rfl trivial)
    have hcut := hreach.cut
    exact ⟨hcut.file.imp_right fun hnew => ⟨hnew.1, replaced_of_any hnew.2⟩, hcut.temporary,
      hcut.returns⟩
  · intro w i path op steps x hpath h
    obtain ⟨hreach, hraised⟩ := callReaches_run hpath h
    exact hreach.cut replaced_of_any hraised

end Atomic

/-! ## A renaming that fails -/

/-- The write of a call, by the steps of the write alone. -/
theorem durable_write {I N : Type} [DecidableEq I] [PyFloat N] {P : Platform N} {name : String}
    {posix : Bool} {c : LimiterCall I} {w : DurableWorld I} {s : WriteProgress}
    {steps : List ((WriteProgress × Directory) × WriteEvent)} {x : WriteProgress × Directory}
    (h : Execution (WriteStep name
      (RollingWindowRateLimiter.dumpState P (w.limiters c.index).timestamps) posix)
        (s, w.directory) steps x) :
    ∃ steps', Execution (DurableStep P name posix) (.writing c s, w) steps'
        (.writing c x.1, { w with directory := x.2 }) ∧
      steps'.map Prod.snd = steps.map Prod.snd := by
  induction h with
  | refl => exact ⟨[], .refl, rfl⟩
  | snoc _ hl ih =>
    obtain ⟨steps', hrun, hevents⟩ := ih
    exact ⟨_, .snoc hrun (.write hl), by simp [hevents]⟩

/-- A limiter whose path does not exist yet, with these timestamps. -/
def unusedLimiter (timestamps : List Datetime) : DurableWorld Unit :=
  ⟨fun _ => none, 0, fun _ =>
    ⟨1, 10, some "limiter", timestamps, Int.le_refl 1, Int.natCast_nonneg 10⟩⟩

def replaceError : PyException := .valueError "[Errno 18] Invalid cross-device link"

theorem unusedLimiter_write (data : Bytes) : ∃ steps d,
    Execution (WriteStep "limiter" data true) (⟨none, [], .mkdir⟩, fun _ => none) steps
        (⟨some (tempName "limiter" "x"), [], .left (some replaceError)⟩, d) ∧
      .replaced ∉ steps.map Prod.snd := by
  refine ⟨[(_, .step), (_, .step), (_, .step), (_, .step), (_, .step), (_, .step), (_, .step),
      (_, .raised replaceError), (_, .step)], _, .cons (.mkdir rfl) <|
    .cons (.create rfl "x" rfl) <|
    .cons (.piece rfl rfl (Function.update_self ..) (List.append_nil _).symm) <|
    .cons (.write rfl) <| .cons (.flush rfl rfl) <| .cons (.fsync rfl) <| .cons (.close rfl) <|
    .cons (.raises rfl) <| .single (.unlink rfl rfl), ?_⟩
  simp

theorem unusedLimiter_ping : ∃ steps,
    Execution (DurableStep utcPlatform "limiter" true) (.initial .ping (), unusedLimiter []) steps
        (.writing ⟨(), .ping, .write, 0⟩ ⟨none, [], .mkdir⟩, unusedLimiter [0]) ∧
      .replaced ∉ steps.map Prod.snd := by
  refine ⟨[(_, .step), (_, .step), (_, .step), (_, .step), (_, .step)],
    .cons (.now rfl 0) <|
    .cons (.call (by simp [LimiterOp.afterNow]) (.refresh rfl rfl)) <|
    .cons (.call (by simp [LimiterOp.afterRefresh]) (.prune rfl)) <|
    .cons (.call (by simp) (.append rfl)) <|
    .single (.enter rfl), ?_⟩
  simp

/-- `ping` raises, with nothing in the directory. -/
theorem rolling_window_atomic_unreplaced : ∃ steps w,
    Execution (DurableStep utcPlatform "limiter" true) (.initial .ping (), unusedLimiter []) steps
        (.calling ⟨(), .ping, .done (.raised replaceError), 0⟩, w) ∧
      w.directory "limiter" = none := by
  obtain ⟨steps, hcall, hnot⟩ := unusedLimiter_ping
  obtain ⟨written, d, hwrite, hnot'⟩ :=
    unusedLimiter_write (RollingWindowRateLimiter.dumpState utcPlatform [0])
  obtain ⟨steps', hwrite, hevents⟩ := durable_write (c := ⟨(), .ping, .write, 0⟩)
    (w := unusedLimiter [0]) hwrite
  have hrun := hcall.trans (hwrite.snoc (.raises rfl))
  have hcut := (rolling_window_atomic utcPlatform "limiter" true).2.1 (unusedLimiter []) ()
    "limiter" .ping _ _ rfl hrun
  refine ⟨_, _, hrun, hcut.file.resolve_right ?_⟩
  intro hnew
  simp [hnot, hevents, hnot'] at hnew

end SchedulingUtil
