import SchedulingUtil.HistorySteps
import SchedulingUtil.ReentrantPathLockSound

/-! # Histories that share a file

Threads of any processes, each with its own `LastRunHistory` instances on one
path. Every operation runs under the re-entrant lock; the entries an instance has
cached are older than the file, and never get into it. -/
namespace SchedulingUtil
open Lib

inductive HistoryQuery where
  | entries
  | nFailuresSinceLastSuccess
  | findLastEntry (f : EntryFilter)
  | lastSuccess
  | lastNeutral
  | lastFailure
  | lastStarted
  | lastFinished

inductive HistoryOp (N : Type) where
  | construct
  | read (q : HistoryQuery)
  | append (e : LastRunHistoryEntry N)

inductive HistoryAnswer (N : Type) where
  | none
  | entries (es : List (LastRunHistoryEntry N))
  | count (n : Nat)
  | entry (e : Except PyException (Option (LastRunHistoryEntry N)))
  | finished (e : Except PyException (Option (LastRunAttemptFinished N)))
  | started (e : Except PyException (Option (LastRunAttemptStarted N)))

variable {N : Type}

/-- What a query returns on these entries. -/
def HistoryQuery.answer (fromTimestamp : FromTimestamp N) (es : List (LastRunHistoryEntry N)) :
    HistoryQuery → HistoryAnswer N
  | .entries => .entries es
  | .nFailuresSinceLastSuccess => .count (SchedulingUtil.nFailuresSinceLastSuccess es)
  | .findLastEntry f => .entry (SchedulingUtil.findLastEntry fromTimestamp f es)
  | .lastSuccess => .finished (SchedulingUtil.lastSuccess fromTimestamp es)
  | .lastNeutral => .finished (SchedulingUtil.lastNeutral fromTimestamp es)
  | .lastFailure => .finished (SchedulingUtil.lastFailure fromTimestamp es)
  | .lastStarted => .started (SchedulingUtil.lastStarted fromTimestamp es)
  | .lastFinished => .finished (SchedulingUtil.lastFinished fromTimestamp es)

namespace HistoryOp

def answer (fromTimestamp : FromTimestamp N) (es : List (LastRunHistoryEntry N)) :
    HistoryOp N → HistoryAnswer N
  | .read q => q.answer fromTimestamp es
  | .construct | .append _ => .none

/-- The entry that the operation is to add. -/
def appended : HistoryOp N → List (LastRunHistoryEntry N)
  | .append e => [e]
  | .construct | .read _ => []

/-- The call on an instance, which all but the constructor need. -/
def call (maxEntries : Nat) (instance? : Option (LastRunHistory N)) :
    HistoryOp N → Option (HistoryCall N)
  | .construct => some (.loadFromFile ⟨[], maxEntries, true⟩)
  | .read _ => instance?.map .read
  | .append e => instance?.map fun h => .append h e

end HistoryOp

/-- The instances of a thread. -/
abbrev HistoryMemory (I N : Type) := I → Option (LastRunHistory N)

/-- An operation inside the lock, on the instance `index`. -/
structure HistoryOperation (I N : Type) where
  index : I
  op : HistoryOp N
  memory : HistoryMemory I N
  call : HistoryCall N

/-- The operations of the histories on one path with the same `max_entries`. -/
def historySections {I : Type} [DecidableEq I] [PyFloat N] (maxEntries : Nat)
    (fromTimestamp : FromTimestamp N) :
    Sections (HistoryOp N × I) (HistoryAnswer N) (HistoryMemory I N) (HistoryOperation I N)
      File where
  start op m := (op.1.call maxEntries (m op.2)).map fun call => ⟨op.2, op.1, m, call⟩
  body s s' := ∃ call, HistoryStep (s.1.call, s.2) (call, s'.2) ∧ s'.1 = { s.1 with call }
  finish o :=
    match o.call.pc with
    | .done => some (o.op.answer fromTimestamp o.call.history.entries,
        Function.update o.memory o.index (some o.call.history))
    | _ => none

/-! ## One operation -/

/-- An instance on the file. What it has cached does not matter once the file is there. -/
structure LastRunHistory.On (h : LastRunHistory N) (maxEntries : Nat) (file : File) : Prop where
  path : h.path = true
  maxEntries : h.maxEntries = maxEntries
  cached : file = none → h.entries = []

variable [PyFloat N]

theorem LastRunHistory.On.snapshot_eq {h : LastRunHistory N} {m : Nat} {file : File}
    (hon : h.On m file) : h.snapshot file = (loadHistoryEntriesFromFile file).rtake m := by
  cases file with
  | none =>
    rw [h.snapshot_cached none (by simp), hon.cached rfl, loadHistoryEntriesFromFile,
      List.rtake_nil]
  | some content => rw [h.snapshot_file hon.path, hon.maxEntries]

/-- What the operation `op` on the instance `h` leaves behind. -/
structure HistoryOp.Done (op : HistoryOp N) (m : Nat) (file : File) (h' : LastRunHistory N)
    (file' : File) : Prop where
  on : h'.On m file'
  sees : op.appended = [] → file' = file ∧ h'.entries = (loadHistoryEntriesFromFile file).rtake m
  writes : ∀ e, op = .append e →
    file' = some (dumpEntries (((loadHistoryEntriesFromFile file).rtake m ++ [e]).rtake m))

theorem refresh_on {h : LastRunHistory N} {m : Nat} {file : File} (hon : h.On m file) :
    (h.refreshFromFileWithoutLock file).On m file where
  path := by simpa using hon.path
  maxEntries := by simpa using hon.maxEntries
  cached hnone := by
    subst hnone
    simpa [LastRunHistory.refreshFromFileWithoutLock] using hon.cached rfl

theorem refresh_done {h : LastRunHistory N} {m : Nat} {file : File} (hon : h.On m file)
    {op : HistoryOp N} (hop : op.appended = []) :
    op.Done m file (h.refreshFromFileWithoutLock file) file :=
  ⟨refresh_on hon, fun _ => ⟨rfl, hon.snapshot_eq⟩, fun e he => by rw [he] at hop; cases hop⟩

theorem append_done {h : LastRunHistory N} {m : Nat} {file : File} (hon : h.On m file)
    (e : LastRunHistoryEntry N) :
    (HistoryOp.append e).Done m file (h.append file e).1
      (some (dumpEntries (h.append file e).1.entries)) where
  on := ⟨by simpa using hon.path, by simpa using hon.maxEntries, fun h => by cases h⟩
  sees h := by cases h
  writes e' he := by
    cases he
    rw [h.append_entries, hon.snapshot_eq, hon.maxEntries]

/-- How far an operation on the instance `h` has come. -/
def HistoryOp.Reaches (op : HistoryOp N) (h : LastRunHistory N) (file : File)
    (s : HistoryCall N × File) : Prop :=
  match op with
  | .append e => AppendReaches h e file s
  | .construct | .read _ => ReadReaches h file s

theorem HistoryOp.reaches_step {op : HistoryOp N} {h : LastRunHistory N} (hp : h.path = true)
    {file : File} {s s' : HistoryCall N × File} (hs : op.Reaches h file s)
    (hstep : HistoryStep s s') : op.Reaches h file s' := by
  cases op with
  | append e => exact appendReaches_step hp hs hstep
  | construct => exact readReaches_step hs hstep
  | read q => exact readReaches_step hs hstep

theorem HistoryOp.done_of_reaches {op : HistoryOp N} {h : LastRunHistory N} {m : Nat}
    {file : File} (hon : h.On m file) {s : HistoryCall N × File} (hs : op.Reaches h file s)
    (hpc : s.1.pc = .done) : op.Done m file s.1.history s.2 := by
  cases op with
  | append e =>
    cases hs with
    | done => exact append_done hon e
    | start pc hstart => rcases hstart with rfl | ⟨rfl, -⟩ <;> cases hpc
    | _ => cases hpc
  | construct | read =>
    cases hs with
    | done => exact refresh_done hon rfl
    | start pc hstart => rcases hstart with rfl | ⟨rfl, -⟩ <;> cases hpc

variable {I : Type} [DecidableEq I] {m : Nat} {fromTimestamp : FromTimestamp N}

/-- The operation starts on an instance that is there, or on a new one. -/
theorem historySections_start {op : HistoryOp N × I} {ms : HistoryMemory I N} {file : File}
    (hms : ∀ h, ms op.2 = some h → h.On m file) {o : HistoryOperation I N}
    (hstart : (historySections m fromTimestamp).start op ms = some o) :
    o.index = op.2 ∧ o.op = op.1 ∧ o.memory = ms ∧
      ∃ h, h.On m file ∧ op.1.Reaches h file (o.call, file) := by
  obtain ⟨op, i⟩ := op
  simp only [historySections, Option.map_eq_some_iff] at hstart
  obtain ⟨call, hcall, rfl⟩ := hstart
  refine ⟨rfl, rfl, rfl, ?_⟩
  cases op with
  | construct =>
    cases hcall
    exact ⟨_, ⟨rfl, rfl, fun _ => rfl⟩, .start .load (.inr ⟨rfl, .inr rfl⟩)⟩
  | read q =>
    obtain ⟨h, hh, rfl⟩ := Option.map_eq_some_iff.mp hcall
    exact ⟨h, hms h hh, .start .exists (.inl rfl)⟩
  | append e =>
    obtain ⟨h, hh, rfl⟩ := Option.map_eq_some_iff.mp hcall
    exact ⟨h, hms h hh, .start .exists (.inl rfl)⟩

/-- **One operation**: what it does to the file and to its instance, and what it returns. -/
theorem HistoryOp.runs_spec {op : HistoryOp N} {i : I} {ms ms' : HistoryMemory I N}
    {file file' : File} {r : HistoryAnswer N}
    (h : Guarded.Runs (historySections m fromTimestamp) (op, i) ms file r ms' file')
    (hms : ∀ h, ms i = some h → h.On m file) :
    ∃ h', op.Done m file h' file' ∧ ms' = Function.update ms i (some h') ∧
      r = op.answer fromTimestamp ((loadHistoryEntriesFromFile file).rtake m) := by
  obtain ⟨o, ⟨hindex, hop, hmemory, h₀, hon, hreach⟩, hfinish⟩ := h.invariant
    (I := fun s => s.1.index = i ∧ s.1.op = op ∧ s.1.memory = ms ∧
      ∃ h, h.On m file ∧ op.Reaches h file (s.1.call, s.2))
    (fun o ho => historySections_start hms ho)
    (by
      intro x x' hreached hbody
      obtain ⟨o, f⟩ := x
      obtain ⟨o', f'⟩ := x'
      obtain ⟨hindex, hop, hmemory, h, hon, hreach⟩ := hreached
      obtain ⟨call, hstep, ho'⟩ := hbody
      cases ho'
      exact ⟨hindex, hop, hmemory, h, hon, HistoryOp.reaches_step hon.path hreach hstep⟩)
  subst hindex hop hmemory
  simp only [historySections] at hfinish
  split at hfinish
  · rename_i hpc
    cases hfinish
    have hdone := HistoryOp.done_of_reaches hon hreach hpc
    refine ⟨_, hdone, rfl, ?_⟩
    cases hq : o.op with
    | read q => rw [(hdone.sees (by rw [hq]; rfl)).2]
    | _ => rfl
  · cases hfinish

/-! ## Runs -/

variable {T : Type}

/-- The entries appended by the operations, in the order in which these left the lock. -/
def appendedEntries (log : List (T × (HistoryOp N × I) × HistoryAnswer N)) :
    List (LastRunHistoryEntry N) := log.flatMap fun x => x.2.1.1.appended

omit [PyFloat N] [DecidableEq I] in
theorem appendedEntries_snoc (log : List (T × (HistoryOp N × I) × HistoryAnswer N)) (t : T)
    (op : HistoryOp N × I) (r : HistoryAnswer N) :
    appendedEntries (log ++ [(t, op, r)]) = appendedEntries log ++ op.1.appended := by
  simp [appendedEntries]

/-- **The invariant.** The file holds the last of the initial entries `es` and those
appended since; once there is one of these, it holds them as `append` wrote them. -/
structure SharedFile (m : Nat) (es added : List (LastRunHistoryEntry N)) (file : File)
    (ms : T → HistoryMemory I N) : Prop where
  instances : ∀ t i h, ms t i = some h → h.On m file
  stored : (loadHistoryEntriesFromFile file).rtake m = (es ++ added).rtake m
  written : added ≠ [] → file = some (dumpEntries ((es ++ added).rtake m))

variable [DecidableEq T] {es added : List (LastRunHistoryEntry N)} {file file' : File}
  {ms : T → HistoryMemory I N}

omit [DecidableEq I] [DecidableEq T] in
theorem SharedFile.done (h : SharedFile m es added file ms) {op : HistoryOp N}
    {h' : LastRunHistory N} (hdone : op.Done m file h' file') {ms' : T → HistoryMemory I N}
    (hms : ∀ t i x, ms' t i = some x → x = h' ∨ ms t i = some x) :
    SharedFile m es (added ++ op.appended) file' ms' := by
  have hkeep (x : LastRunHistory N) (hx : x.On m file)
      (hfile : file' = none → file = none) : x.On m file' :=
    ⟨hx.path, hx.maxEntries, fun hnone => hx.cached (hfile hnone)⟩
  cases op with
  | append e =>
    have hfile := hdone.writes e rfl
    rw [h.stored, rtake_rtake_append, List.append_assoc] at hfile
    refine ⟨?_, ?_, fun _ => hfile⟩
    · intro t i x hx
      rcases hms t i x hx with rfl | hold
      · exact hdone.on
      · exact hkeep x (h.instances t i x hold) (by rw [hfile]; exact fun hnone => by cases hnone)
    · rw [hfile, load_dumpEntries, rtake_idem]
      rfl
  | construct | read =>
    obtain ⟨rfl, -⟩ := hdone.sees rfl
    refine ⟨fun t i x hx => ?_, by simpa [HistoryOp.appended] using h.stored,
      by simpa [HistoryOp.appended] using h.written⟩
    rcases hms t i x hx with rfl | hold
    · exact hdone.on
    · exact h.instances t i x hold

/-- One operation of the thread `t`. -/
theorem SharedFile.runs (h : SharedFile m es added file ms) {t : T} {op : HistoryOp N} {i : I}
    {ms' : HistoryMemory I N} {r : HistoryAnswer N}
    (hrun : Guarded.Runs (historySections m fromTimestamp) (op, i) (ms t) file r ms' file') :
    SharedFile m es (added ++ op.appended) file' (Function.update ms t ms') ∧
      r = op.answer fromTimestamp ((es ++ added).rtake m) := by
  obtain ⟨h', hdone, rfl, hr⟩ := HistoryOp.runs_spec hrun fun x hx => h.instances t i x hx
  refine ⟨h.done hdone ?_, by rw [hr, h.stored]⟩
  intro u j x hx
  by_cases hu : u = t
  · subst hu
    rw [Function.update_self] at hx
    by_cases hj : j = i
    · subst hj
      rw [Function.update_self] at hx
      exact .inl (Option.some.inj hx).symm
    · rw [Function.update_of_ne hj] at hx
      exact .inr hx
  · rw [Function.update_of_ne hu] at hx
    exact .inr hx

theorem SharedFile.serial (h : SharedFile m es added file ms)
    {log : List (T × (HistoryOp N × I) × HistoryAnswer N)} {ms' : T → HistoryMemory I N}
    (hserial : Guarded.Serial (historySections m fromTimestamp) file ms log file' ms') :
    SharedFile m es (added ++ appendedEntries log) file' ms' := by
  induction hserial with
  | nil => simpa [appendedEntries] using h
  | snoc _ hrun ih =>
    rw [appendedEntries_snoc, ← List.append_assoc]
    exact (ih.runs hrun).1

/-! ## Linearizability -/

/-- **Every interleaving is a sequence of operations on one list**, in which each
thread's operations have their order. A read returns the answer for the list as it is when the
read leaves the lock, and after an append the file holds the end of the list. -/
theorem shared_history_linear {P K : Type} [DecidableEq P] [DecidableEq K] [Fintype T]
    {proc : T → P} {k : K}
    {c c' : Guarded.Config (reentrantPathLock proc k) (HistoryOp N × I) (HistoryAnswer N)
      (HistoryMemory I N) (HistoryOperation I N) File}
    {steps : List (Guarded.Config (reentrantPathLock proc k) (HistoryOp N × I) (HistoryAnswer N)
      (HistoryMemory I N) (HistoryOperation I N) File ×
        GuardedEvent T (HistoryOp N × I) (HistoryAnswer N))}
    (h : Execution (Guarded.Step (historySections m fromTimestamp)) c steps c')
    (hquiet : Guarded.Quiet c) (hnew : ∀ t, (c.thread t).mem = fun _ => none) :
    (∀ t, Guarded.Calls t (steps.map Prod.snd) (Guarded.phase (c'.thread t))) ∧
    (∀ pre x t op i r post, steps = pre ++ (x, .commit t (op, i) r) :: post →
      r = op.answer fromTimestamp
        ((loadHistoryEntriesFromFile c.shared ++ appendedEntries (Guarded.commits pre)).rtake m) ∧
      ∃ x', Guarded.Step (historySections m fromTimestamp) x (.commit t (op, i) r) x' ∧
        Execution (Guarded.Step (historySections m fromTimestamp)) x' post c' ∧
        ∀ e, op = .append e → x'.shared = some (dumpEntries ((loadHistoryEntriesFromFile c.shared ++
          appendedEntries (Guarded.commits pre) ++ [e]).rtake m))) ∧
    (Guarded.AtRest c' → appendedEntries (Guarded.commits steps) ≠ [] →
      c'.shared = some (dumpEntries ((loadHistoryEntriesFromFile c.shared ++
        appendedEntries (Guarded.commits steps)).rtake m))) := by
  have hstart : SharedFile m (loadHistoryEntriesFromFile (N := N) c.shared) [] c.shared
      fun t => (c.thread t).mem := by
    refine ⟨?_, by rw [List.append_nil], fun h => absurd rfl h⟩
    intro t i x hx
    rw [hnew] at hx
    cases hx
  refine ⟨fun t => Guarded.calls_of_execution h (hquiet.phase_eq t), ?_, ?_⟩
  · intro pre x t op i r post hsteps
    subst hsteps
    obtain ⟨hpre, x', hx, hpost⟩ := h.middle
    obtain ⟨s, ms, hserial, hagrees⟩ := Guarded.serializable hpre (hquiet.agrees _)
    have hshared := hstart.serial hserial
    obtain ⟨m', hrun, -⟩ := Guarded.agrees_commit hagrees hx
    obtain ⟨hafter, hr⟩ := hshared.runs hrun
    refine ⟨hr, x', hx, hpost, ?_⟩
    intro e hop
    subst hop
    have hwritten := hafter.written (by simp [HistoryOp.appended])
    rwa [HistoryOp.appended, List.nil_append, ← List.append_assoc] at hwritten
  · intro hrest hadded
    obtain ⟨s, ms, hserial, hagrees⟩ := Guarded.serializable h (hquiet.agrees _)
    have hwritten := (hstart.serial hserial).written (by simpa using hadded)
    rw [hagrees.shared_atRest hrest, hwritten, List.nil_append]

/-! Two processes on a path that nobody has written to. Both create their history; the second
one waits for `flock` while the first one is inside, in its constructor and again in its append. -/

def firstEntry : LastRunHistoryEntry Int := .started ⟨0⟩
def secondEntry : LastRunHistoryEntry Int := .started ⟨1⟩

def emptyDirectory : Guarded.Config (reentrantPathLock (P := Bool) (fun t : Bool => t) ())
    (HistoryOp Int × Unit) (HistoryAnswer Int) (HistoryMemory Unit Int) (HistoryOperation Unit Int)
    File :=
  ⟨⟨fun _ _ => none, fun _ => {}, 0, fun _ => ⟨none, none⟩, fun _ => []⟩, none,
    fun _ => .idle fun _ => none⟩

theorem emptyDirectory_quiet : Guarded.Quiet emptyDirectory :=
  ⟨ReentrantLocks.Sound.unlocked _ fun _ => none, fun _ => rfl, fun _ => ⟨_, rfl⟩⟩

open ReentrantLocks in
/-- `false` is the first process and `true` the second. -/
theorem emptyDirectory_appends : ∃ steps c',
    Execution (Guarded.Step (historySections 10 Except.ok)) emptyDirectory steps c' ∧
      Guarded.AtRest c' ∧ Guarded.commits steps =
        [(false, (.construct, ()), .none), (true, (.construct, ()), .none),
          (false, (.append firstEntry, ()), .none), (true, (.append secondEntry, ()), .none)] := by
  have body {o : HistoryOperation Unit Int} {f f' : File} {call : HistoryCall Int}
      (h : HistoryStep (o.call, f) (call, f')) : (historySections 10 Except.ok).body (o, f)
        ({ o with call }, f') := ⟨call, h, rfl⟩
  have inside {t : Bool} {s : ReentrantLocks Bool Bool Unit} {f : LockFrame Unit}
      {rest : List (LockFrame Unit)}
      (h : s.frames t = f :: rest) (hs : f.stage.inside = true) : s.InsideOf () t :=
    ⟨f, by rw [h]; exact .head _, rfl, hs⟩
  refine ⟨_, _,
    -- the first process enters; the second one finds the lock file and waits
    .cons (l := .invoke false (.construct, ())) (.invoke rfl rfl rfl) <|
    .cons (l := .enter false) (.enter (Advance.acquire (f := ⟨(), 0, .acquire⟩) rfl rfl rfl)) <|
    .cons (l := .enter false)
      (.enter (Advance.outermost (f := ⟨(), 0, .test⟩) rfl rfl (by decide +kernel))) <|
    .cons (l := .enter false)
      (.enter (Advance.file (f := ⟨(), 0, .file .createExclusive⟩) rfl rfl (.created 0))) <|
    .cons (l := .enter false)
      (.enter (Advance.file (f := ⟨(), 0, .file (.flock true)⟩) rfl rfl .flock)) <|
    .cons (l := .enter false) (.enter (Advance.file (f := ⟨(), 0, .file .utime⟩) rfl rfl .utime)) <|
    .cons (l := .begin false) (.begin rfl (inside (f := ⟨(), 0, .file .inside⟩) rfl rfl) rfl) <|
    .cons (l := .invoke true (.construct, ())) (.invoke rfl rfl rfl) <|
    .cons (l := .enter true) (.enter (Advance.acquire (f := ⟨(), 1, .acquire⟩) rfl rfl rfl)) <|
    .cons (l := .enter true)
      (.enter (Advance.outermost (f := ⟨(), 1, .test⟩) rfl rfl (by decide +kernel))) <|
    .cons (l := .enter true)
      (.enter (Advance.file (f := ⟨(), 1, .file .createExclusive⟩) rfl rfl .fileExists)) <|
    .cons (l := .enter true)
      (.enter (Advance.file (f := ⟨(), 1, .file .openExisting⟩) rfl rfl .opened)) <|
    .cons (l := .body false) (.body rfl (body (.load rfl))) <|
    .cons (l := .commit false _ _)
      (.commit rfl rfl (Leave.outermost (f := ⟨(), 0, .file .inside⟩) rfl rfl rfl)) <|
    .cons (l := .enter true)
      (.enter (Advance.file (f := ⟨(), 1, .file (.flock false)⟩) rfl rfl .flock)) <|
    .cons (l := .enter false) (.enter (Advance.closed (f := ⟨(), 0, .file .close⟩) rfl rfl)) <|
    .cons (l := .enter false) (.enter (Advance.reset (f := ⟨(), 0, .reset⟩) rfl rfl)) <|
    .cons (l := .enter false) (.enter (Advance.release (f := ⟨(), 0, .release⟩) rfl rfl rfl)) <|
    .cons (l := .enter false) (.enter (Advance.drop (f := ⟨(), 0, .drop⟩) rfl rfl)) <|
    .cons (l := .respond false _ _) (.respond rfl rfl) <|
    -- the second process leaves; the first one appends meanwhile
    .cons (l := .begin true) (.begin rfl (inside (f := ⟨(), 1, .file .inside⟩) rfl rfl) rfl) <|
    .cons (l := .body true) (.body rfl (body (.load rfl))) <|
    .cons (l := .commit true _ _)
      (.commit rfl rfl (Leave.outermost (f := ⟨(), 1, .file .inside⟩) rfl rfl rfl)) <|
    .cons (l := .invoke false (.append firstEntry, ())) (.invoke rfl rfl rfl) <|
    .cons (l := .enter false) (.enter (Advance.acquire (f := ⟨(), 2, .acquire⟩) rfl rfl rfl)) <|
    .cons (l := .enter false)
      (.enter (Advance.outermost (f := ⟨(), 2, .test⟩) rfl rfl (by decide +kernel))) <|
    .cons (l := .enter false)
      (.enter (Advance.file (f := ⟨(), 2, .file .createExclusive⟩) rfl rfl .fileExists)) <|
    .cons (l := .enter false)
      (.enter (Advance.file (f := ⟨(), 2, .file .openExisting⟩) rfl rfl .opened)) <|
    .cons (l := .enter false)
      (.enter (Advance.file (f := ⟨(), 2, .file (.flock false)⟩) rfl rfl .flock)) <|
    .cons (l := .begin false) (.begin rfl (inside (f := ⟨(), 2, .file .inside⟩) rfl rfl) rfl) <|
    .cons (l := .body false) (.body rfl (body (.missing rfl))) <|
    .cons (l := .body false) (.body rfl (body (.add rfl rfl))) <|
    .cons (l := .body false) (.body rfl (body (.truncate rfl))) <|
    .cons (l := .enter true) (.enter (Advance.closed (f := ⟨(), 1, .file .close⟩) rfl rfl)) <|
    .cons (l := .enter true) (.enter (Advance.reset (f := ⟨(), 1, .reset⟩) rfl rfl)) <|
    .cons (l := .enter true) (.enter (Advance.release (f := ⟨(), 1, .release⟩) rfl rfl rfl)) <|
    .cons (l := .enter true) (.enter (Advance.drop (f := ⟨(), 1, .drop⟩) rfl rfl)) <|
    .cons (l := .respond true _ _) (.respond rfl rfl) <|
    .cons (l := .invoke true (.append secondEntry, ())) (.invoke rfl rfl rfl) <|
    .cons (l := .enter true) (.enter (Advance.acquire (f := ⟨(), 3, .acquire⟩) rfl rfl rfl)) <|
    .cons (l := .enter true)
      (.enter (Advance.outermost (f := ⟨(), 3, .test⟩) rfl rfl (by decide +kernel))) <|
    .cons (l := .enter true)
      (.enter (Advance.file (f := ⟨(), 3, .file .createExclusive⟩) rfl rfl .fileExists)) <|
    .cons (l := .enter true)
      (.enter (Advance.file (f := ⟨(), 3, .file .openExisting⟩) rfl rfl .opened)) <|
    .cons (l := .body false)
      (.body rfl (body (.write (congrArg HistoryPc.writing (List.append_nil _).symm)))) <|
    .cons (l := .body false) (.body rfl (body (.written rfl))) <|
    .cons (l := .commit false _ _)
      (.commit rfl rfl (Leave.outermost (f := ⟨(), 2, .file .inside⟩) rfl rfl rfl)) <|
    -- the second process appends to what the first one has written
    .cons (l := .enter true)
      (.enter (Advance.file (f := ⟨(), 3, .file (.flock false)⟩) rfl rfl .flock)) <|
    .cons (l := .begin true) (.begin rfl (inside (f := ⟨(), 3, .file .inside⟩) rfl rfl) rfl) <|
    .cons (l := .body true) (.body rfl (body (.found rfl))) <|
    .cons (l := .body true) (.body rfl (body (.load rfl))) <|
    .cons (l := .body true) (.body rfl (body (.add rfl rfl))) <|
    .cons (l := .body true) (.body rfl (body (.truncate rfl))) <|
    .cons (l := .body true)
      (.body rfl (body (.write (congrArg HistoryPc.writing (List.append_nil _).symm)))) <|
    .cons (l := .body true) (.body rfl (body (.written rfl))) <|
    .cons (l := .commit true _ _)
      (.commit rfl rfl (Leave.outermost (f := ⟨(), 3, .file .inside⟩) rfl rfl rfl)) <|
    .refl, ?_, ?_⟩
  · intro t
    cases t <;> exact id
  · rfl

theorem shared_history_linear_two_processes : ∃ steps c',
    Execution (Guarded.Step (historySections 10 Except.ok)) emptyDirectory steps c' ∧
      (∀ t, Guarded.Calls t (steps.map Prod.snd) (Guarded.phase (c'.thread t))) ∧
      c'.shared = some (dumpEntries [firstEntry, secondEntry]) := by
  obtain ⟨steps, c', h, hrest, hcommits⟩ := emptyDirectory_appends
  have hadded : appendedEntries (Guarded.commits steps) = [firstEntry, secondEntry] := by
    rw [hcommits]
    rfl
  obtain ⟨hcalls, -, hfile⟩ := shared_history_linear h emptyDirectory_quiet fun _ => rfl
  refine ⟨steps, c', h, hcalls, (hfile hrest (by rw [hadded]; simp)).trans ?_⟩
  rw [hadded, emptyDirectory]
  rfl

end SchedulingUtil
