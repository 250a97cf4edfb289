import SchedulingUtil.InterruptedAppend
import SchedulingUtil.SharedHistory

/-! # A reset of the history

`schedule(last_run_reset=True)` unlinks the file, without taking the lock, while
other processes may have instances on the path. The loader takes a missing file
for an empty one; the refresh before a read or an append keeps what is cached. -/
namespace SchedulingUtil
open Lib Lib.Utf8

variable {N : Type}

/-! ## The steps -/

/-- One step, where the file may have been unlinked while it is open: what is written
then goes with it. -/
inductive UnlinkableStep [PyNumber N] : HistoryCall N × File → HistoryCall N × File → Prop where
  | step {s s' : HistoryCall N × File} (h : HistoryStep s s') : UnlinkableStep s s'
  | writeUnlinked {c : HistoryCall N} {piece rest : Bytes} (h : c.pc = .writing (piece ++ rest)) :
      UnlinkableStep (c, none) ({ c with pc := .writing rest }, none)
  | writtenUnlinked {c : HistoryCall N} (h : c.pc = .writing []) :
      UnlinkableStep (c, none) ({ c with pc := .done }, none)

/-- The operations of the histories on one path, each with its own `max_entries`. -/
def resettableSections {I : Type} [DecidableEq I] [PyFloat N] (maxEntries : I → Nat)
    (fromTimestamp : FromTimestamp N) :
    Sections (HistoryOp N × I) (HistoryAnswer N) (HistoryMemory I N) (HistoryOperation I N)
      File where
  start op m := (op.1.call (maxEntries op.2) (m op.2)).map fun call => ⟨op.2, op.1, m, call⟩
  body s s' := ∃ call, UnlinkableStep (s.1.call, s.2) (call, s'.2) ∧ s'.1 = { s.1 with call }
  finish o :=
    match o.call.pc with
    | .done => some (o.op.answer fromTimestamp o.call.history.entries,
        Function.update o.memory o.index (some o.call.history))
    | _ => none

inductive ResetEvent (T I N : Type) where
  | history (e : GuardedEvent T (HistoryOp N × I) (HistoryAnswer N))
  | reset

/-- The entry of an append that leaves the lock. -/
def ResetEvent.appended {T I : Type} : ResetEvent T I N → List (LastRunHistoryEntry N)
  | .history (.commit _ op _) => op.1.appended
  | _ => []

abbrev ResetConfig {T : Type} (M : Mutex T) (I N : Type) :=
  Guarded.Config M (HistoryOp N × I) (HistoryAnswer N) (HistoryMemory I N)
    (HistoryOperation I N) File

section World
variable {T I : Type} [DecidableEq T] [DecidableEq I] [PyFloat N] {M : Mutex T}

/-- A step of a thread, or the unlink, at any time. -/
inductive ResetStep (maxEntries : I → Nat) (fromTimestamp : FromTimestamp N) :
    ResetConfig M I N → ResetEvent T I N → ResetConfig M I N → Prop where
  | history {c c' : ResetConfig M I N} {e : GuardedEvent T (HistoryOp N × I) (HistoryAnswer N)}
      (h : Guarded.Step (resettableSections maxEntries fromTimestamp) c e c') :
      ResetStep maxEntries fromTimestamp c (.history e) c'
  | reset {c : ResetConfig M I N} :
      ResetStep maxEntries fromTimestamp c .reset { c with shared := none }

end World

/-! ## What it is to last -/

section Lasts
variable {T I : Type} {M : Mutex T}

/-- The entries of the appends that left the lock in these steps. -/
def appendedBy (steps : List (ResetConfig M I N × ResetEvent T I N)) :
    List (LastRunHistoryEntry N) := steps.flatMap fun x => x.2.appended

theorem appendedBy_snoc (steps : List (ResetConfig M I N × ResetEvent T I N))
    (x : ResetConfig M I N × ResetEvent T I N) :
    appendedBy (steps ++ [x]) = appendedBy steps ++ x.2.appended := by
  simp [appendedBy]

/-- `c` is reached by the steps `after` from a reset. A read answers as an instance built on
the path at that time would, and the file has no other entries than those appended
since and the one of the append under way. -/
structure ResetLasts [PyFloat N] (maxEntries : I → Nat) (fromTimestamp : FromTimestamp N)
    (after : List (ResetConfig M I N × ResetEvent T I N)) (c : ResetConfig M I N) : Prop where
  returned : ∀ pre y t q i r post,
    after = pre ++ (y, .history (.commit t (.read q, i) r)) :: post →
      reopened (maxEntries i) y.shared <:+ appendedBy pre ∧
        r = q.answer fromTimestamp (reopened (maxEntries i) y.shared)
  written : ∀ content, c.shared = some content → ∃ es, content <+: dumpEntries es ∧
    (es <:+ appendedBy after ∨ ∃ t op m o, c.thread t = .running op m o ∧
      es <:+ appendedBy after ++ op.1.appended)

end Lasts

/-! ## What an operation carries across a reset -/

/-- What a call writes, or answers from, without another look at the file. -/
def HistoryCall.carried (c : HistoryCall N) : List (LastRunHistoryEntry N) :=
  match c.pc, c.entry with
  | .add, some e => discardOldEntries c.history.maxEntries (c.history.entries ++ [e])
  | .persist, some _ => c.history.entries
  | .done, none => c.history.entries
  | _, _ => []

/-- It carries nothing but the entry it is to add. -/
def HistoryCall.OwnEntryOnly (c : HistoryCall N) : Prop := c.carried <:+ c.entry.toList

/-- The call behind the test of the refresh, the file being missing. -/
def HistoryCall.unrefreshed (c : HistoryCall N) : HistoryCall N := { c with pc := c.afterRefresh }

/-- A reset at which no operation is behind its refresh with entries to write or to answer
from; a refresh that does not find the file missing and leave such entries. -/
def CarriesNothing {T I : Type} {M : Mutex T} (x : ResetConfig M I N × ResetEvent T I N) : Prop :=
  match x.2 with
  | .reset => ∀ t op m o, x.1.thread t = .running op m o → o.call.OwnEntryOnly
  | .history (.body t) => x.1.shared = none → ∀ op m o, x.1.thread t = .running op m o →
      o.call.pc = .exists → o.call.unrefreshed.OwnEntryOnly
  | _ => True

/-- From each reset on. -/
def NothingCarried {T I : Type} {M : Mutex T}
    (steps : List (ResetConfig M I N × ResetEvent T I N)) : Prop :=
  ∀ before x after, steps = before ++ (x, .reset) :: after →
    CarriesNothing (x, .reset) ∧ ∀ y ∈ after, CarriesNothing y

/-- The file is missing or holds entries of `added`. -/
def FileSince [PyNumber N] (added : List (LastRunHistoryEntry N)) (file : File) : Prop :=
  ∀ content, file = some content → ∃ es, es <:+ added ∧ content = dumpEntries es

/-- How far an operation has come, `added` being what was appended since the reset. -/
inductive CallSince [PyNumber N] (added : List (LastRunHistoryEntry N)) :
    HistoryCall N × File → Prop where
  | refreshing {c : HistoryCall N} {file : File} (hpc : c.pc = .exists ∨ c.pc = .load)
      (hfile : FileSince added file) : CallSince added (c, file)
  | refreshed {h : LastRunHistory N} {e : LastRunHistoryEntry N} {file : File}
      (hcarried : discardOldEntries h.maxEntries (h.entries ++ [e]) <:+ added ++ [e])
      (hfile : FileSince added file) : CallSince added (⟨h, some e, .add⟩, file)
  | added {h : LastRunHistory N} {e : LastRunHistoryEntry N} {file : File}
      (hcarried : h.entries <:+ added ++ [e]) (hfile : FileSince added file) :
      CallSince added (⟨h, some e, .persist⟩, file)
  | unlinked {h : LastRunHistory N} {e : LastRunHistoryEntry N} {rest : Bytes} :
      CallSince added (⟨h, some e, .writing rest⟩, none)
  | writing {h : LastRunHistory N} {e : LastRunHistoryEntry N} {content rest : Bytes}
      (hcarried : h.entries <:+ added ++ [e]) (hdata : content ++ rest = dumpEntries h.entries) :
      CallSince added (⟨h, some e, .writing rest⟩, some content)
  | appended {h : LastRunHistory N} {e : LastRunHistoryEntry N} {file : File}
      (hfile : FileSince (added ++ [e]) file) : CallSince added (⟨h, some e, .done⟩, file)
  | answered {h : LastRunHistory N} {file : File} (hfile : FileSince added file)
      (hentries : h.entries = (loadHistoryEntriesFromFile file).rtake h.maxEntries) :
      CallSince added (⟨h, none, .done⟩, file)

section Calls
variable [PyFloat N] {added : List (LastRunHistoryEntry N)}

omit [PyFloat N] in
theorem fileSince_none [PyNumber N] : FileSince added none := by
  intro content hnone
  cases hnone

/-- What is loaded from it is of `added` too. -/
theorem FileSince.load {file : File} (h : FileSince added file) (m : Nat) :
    (loadHistoryEntriesFromFile file).rtake m <:+ added := by
  cases file with
  | none => simp [loadHistoryEntriesFromFile]
  | some content =>
    obtain ⟨es, hes, rfl⟩ := h content rfl
    rw [load_dumpEntries]
    exact (List.drop_suffix _ _).trans hes

/-- The refresh of an operation. -/
theorem callSince_refreshed {c : HistoryCall N} {file : File} (hfile : FileSince added file)
    (hcarried : ∀ e, c.entry = some e →
      discardOldEntries c.history.maxEntries (c.history.entries ++ [e]) <:+ added ++ [e])
    (hentries : c.entry = none →
      c.history.entries = (loadHistoryEntriesFromFile file).rtake c.history.maxEntries) :
    CallSince added (c.unrefreshed, file) := by
  obtain ⟨h, entry, pc⟩ := c
  cases entry with
  | none => exact .answered hfile (hentries rfl)
  | some e => exact .refreshed (hcarried e rfl) hfile

/-- Where there is no file, a call that carries nothing but its own entry. -/
theorem callSince_missing {c : HistoryCall N} (hfile : FileSince added none)
    (hown : c.unrefreshed.OwnEntryOnly) : CallSince added (c.unrefreshed, none) := by
  refine callSince_refreshed hfile ?_ ?_
  · intro e he
    simp only [HistoryCall.OwnEntryOnly, HistoryCall.carried, HistoryCall.unrefreshed,
      HistoryCall.afterRefresh, he, Option.isSome_some, if_true, Option.toList_some] at hown
    exact hown.trans (List.suffix_append _ _)
  · intro hnone
    simp only [HistoryCall.OwnEntryOnly, HistoryCall.carried, HistoryCall.unrefreshed,
      HistoryCall.afterRefresh, hnone, Option.isSome_none, Bool.false_eq_true, if_false,
      Option.toList_none, List.suffix_nil] at hown
    simp [hown, loadHistoryEntriesFromFile]

/-- The refresh from a file of `added`. -/
theorem callSince_load {c : HistoryCall N} {file : File} (hfile : FileSince added file)
    (hp : c.history.path = true) :
    CallSince added
      (({ c with history := c.history.loadFromFileWithoutLock file } : HistoryCall N).unrefreshed,
        file) := by
  have hentries : (c.history.loadFromFileWithoutLock file).entries =
      (loadHistoryEntriesFromFile file).rtake c.history.maxEntries := by
    simp [LastRunHistory.loadFromFileWithoutLock, hp, discardOldEntries_eq]
  have hmax : (c.history.loadFromFileWithoutLock file).maxEntries = c.history.maxEntries := by
    simp [LastRunHistory.loadFromFileWithoutLock, hp]
  refine callSince_refreshed hfile ?_ ?_
  · intro e he
    simp only [hentries, hmax, discardOldEntries_eq]
    obtain ⟨dropped, hdropped⟩ := hfile.load c.history.maxEntries
    refine (List.drop_suffix _ _).trans ⟨dropped, ?_⟩
    rw [← List.append_assoc, hdropped]
  · intro hnone
    simp only [hentries, hmax]

theorem callSince_step {c c' : HistoryCall N} {file file' : File} (h : CallSince added (c, file))
    (hp : c.history.path = true)
    (hown : file = none → c.pc = .exists → c.unrefreshed.OwnEntryOnly)
    (hstep : UnlinkableStep (c, file) (c', file')) : CallSince added (c', file') := by
  cases h with
  | refreshing hpc hfile =>
    cases hstep with
    | step hstep =>
      cases hstep with
      | found => exact .refreshing (.inr rfl) hfile
      | missing hexists => exact callSince_missing hfile (hown rfl hexists)
      | load hload => exact callSince_load hfile hp
      | _ h => rcases hpc with hpc | hpc <;> (rw [hpc] at h; cases h)
    | _ h => rcases hpc with hpc | hpc <;> (rw [hpc] at h; cases h)
  | refreshed hcarried hfile =>
    cases hstep with
    | step hstep =>
      cases hstep with
      | add hpc he => cases he; exact .added hcarried hfile
      | _ h => cases h
    | _ h => cases h
  | added hcarried hfile =>
    cases hstep with
    | step hstep =>
      cases hstep with
      | truncate => exact .writing hcarried rfl
      | _ h => cases h
    | _ h => cases h
  | unlinked =>
    cases hstep with
    | step hstep =>
      cases hstep with
      | _ h => cases h
    | writeUnlinked => exact .unlinked
    | writtenUnlinked => exact .appended fileSince_none
  | writing hcarried hdata =>
    cases hstep with
    | step hstep =>
      cases hstep with
      | write hpc =>
        cases hpc
        exact .writing hcarried (by rw [List.append_assoc]; exact hdata)
      | written hpc =>
        cases hpc
        rw [List.append_nil] at hdata
        refine .appended ?_
        intro content hcontent
        cases hcontent
        exact ⟨_, hcarried, hdata⟩
      | _ h => cases h
  | appended =>
    cases hstep with
    | step hstep =>
      cases hstep with
      | _ h => cases h
    | _ h => cases h
  | answered =>
    cases hstep with
    | step hstep =>
      cases hstep with
      | _ h => cases h
    | _ h => cases h

/-- A reset does not matter to a call that carries nothing. -/
theorem CallSince.unlink {c : HistoryCall N} {file : File} (h : CallSince added (c, file))
    (hown : c.OwnEntryOnly) : CallSince added (c, none) := by
  cases h with
  | refreshing hpc => exact .refreshing hpc fileSince_none
  | refreshed hcarried => exact .refreshed hcarried fileSince_none
  | added hcarried => exact .added hcarried fileSince_none
  | unlinked | writing => exact .unlinked
  | appended => exact .appended fileSince_none
  | answered =>
    refine .answered fileSince_none ?_
    have hnil := List.suffix_nil.mp hown
    simpa [HistoryCall.carried, loadHistoryEntriesFromFile] using hnil

/-- What the file holds while the call is under way. -/
theorem CallSince.content {c : HistoryCall N} {content : Bytes}
    (h : CallSince added (c, some content)) : ∃ es, content <+: dumpEntries es ∧
      (es <:+ added ∨ es <:+ added ++ c.entry.toList) := by
  have hbefore (hfile : FileSince added (some content)) : ∃ es, content <+: dumpEntries es ∧
      (es <:+ added ∨ es <:+ added ++ c.entry.toList) := by
    obtain ⟨es, hes, rfl⟩ := hfile content rfl
    exact ⟨es, List.prefix_rfl, .inl hes⟩
  cases h with
  | refreshing _ hfile | refreshed _ hfile | added _ hfile | answered hfile => exact hbefore hfile
  | writing hcarried hdata => exact ⟨_, ⟨_, hdata⟩, .inr hcarried⟩
  | appended hfile =>
    obtain ⟨es, hes, rfl⟩ := hfile content rfl
    exact ⟨es, List.prefix_rfl, .inr hes⟩

end Calls

/-! ## The operations of the threads -/

section Operations
variable {I : Type} {maxEntries : I → Nat}

/-- The instances of a thread are on the path, each with its bound. -/
def InstancesOn (maxEntries : I → Nat) (ms : HistoryMemory I N) : Prop :=
  ∀ i h, ms i = some h → h.path = true ∧ h.maxEntries = maxEntries i

/-- An operation inside the lock, as the call of `op` with the memory `ms` has made it. -/
structure OperationOf (maxEntries : I → Nat) (op : HistoryOp N × I) (ms : HistoryMemory I N)
    (o : HistoryOperation I N) : Prop where
  index : o.index = op.2
  operation : o.op = op.1
  memory : o.memory = ms
  entry : o.call.entry.toList = op.1.appended
  path : o.call.history.path = true
  maxEntries : o.call.history.maxEntries = maxEntries op.2
  reads : o.call.entry = none →
    o.call.pc = .exists ∨ o.call.pc = .load ∨ o.call.pc = .done

variable [DecidableEq I] [PyFloat N] {fromTimestamp : FromTimestamp N}
  {op : HistoryOp N × I} {ms ms' : HistoryMemory I N} {o o' : HistoryOperation I N}
  {file file' : File}

theorem operationOf_start (hms : InstancesOn maxEntries ms)
    (h : (resettableSections maxEntries fromTimestamp).start op ms = some o) :
    OperationOf maxEntries op ms o ∧ (o.call.pc = .exists ∨ o.call.pc = .load) := by
  obtain ⟨op, i⟩ := op
  simp only [resettableSections, Option.map_eq_some_iff] at h
  obtain ⟨call, hcall, rfl⟩ := h
  cases op with
  | construct =>
    cases hcall
    exact ⟨⟨rfl, rfl, rfl, rfl, rfl, rfl, fun _ => .inr (.inl rfl)⟩, .inr rfl⟩
  | read q =>
    obtain ⟨h, hh, rfl⟩ := Option.map_eq_some_iff.mp hcall
    obtain ⟨hp, hm⟩ := hms i h hh
    exact ⟨⟨rfl, rfl, rfl, rfl, hp, hm, fun _ => .inl rfl⟩, .inl rfl⟩
  | append e =>
    obtain ⟨h, hh, rfl⟩ := Option.map_eq_some_iff.mp hcall
    obtain ⟨hp, hm⟩ := hms i h hh
    exact ⟨⟨rfl, rfl, rfl, rfl, hp, hm, fun hnone => by cases hnone⟩, .inl rfl⟩

/-- A step of a call keeps its entry, and the path and bound of its instance. -/
theorem unlinkableStep_keeps {c c' : HistoryCall N} (h : UnlinkableStep (c, file) (c', file')) :
    c'.entry = c.entry ∧ c'.history.path = c.history.path ∧
      c'.history.maxEntries = c.history.maxEntries := by
  cases h with
  | step h =>
    cases h with
    | load =>
      refine ⟨rfl, ?_, ?_⟩ <;> simp only [LastRunHistory.loadFromFileWithoutLock] <;>
        split <;> rfl
    | _ => exact ⟨rfl, rfl, rfl⟩
  | _ => exact ⟨rfl, rfl, rfl⟩

/-- A read goes from the test to the load and to its end. -/
theorem unlinkableStep_reads {c c' : HistoryCall N} (h : UnlinkableStep (c, file) (c', file'))
    (hnone : c.entry = none) (hpc : c.pc = .exists ∨ c.pc = .load ∨ c.pc = .done) :
    c'.pc = .load ∨ c'.pc = .done := by
  cases h with
  | step h =>
    cases h with
    | found => exact .inl rfl
    | missing | load => exact .inr (by simp [HistoryCall.afterRefresh, hnone])
    | _ h => simp [h] at hpc
  | _ h => simp [h] at hpc

theorem OperationOf.step (h : OperationOf maxEntries op ms o)
    (hstep : (resettableSections maxEntries fromTimestamp).body (o, file) (o', file')) :
    OperationOf maxEntries op ms o' := by
  obtain ⟨call, hcall, ho'⟩ := hstep
  obtain ⟨hentry, hpath, hmax⟩ := unlinkableStep_keeps hcall
  cases ho'
  refine ⟨h.index, h.operation, h.memory, by rw [hentry]; exact h.entry, hpath.trans h.path,
    hmax.trans h.maxEntries, fun hnone => .inr ?_⟩
  have hnone' : o.call.entry = none := by rw [← hentry]; exact hnone
  exact unlinkableStep_reads hcall hnone' (h.reads hnone')

/-- What a finished operation returns, and the instance it leaves. -/
theorem OperationOf.finish (h : OperationOf maxEntries op ms o) (hms : InstancesOn maxEntries ms)
    {r : HistoryAnswer N}
    (hfinish : (resettableSections maxEntries fromTimestamp).finish o = some (r, ms')) :
    o.call.pc = .done ∧ InstancesOn maxEntries ms' ∧
      r = op.1.answer fromTimestamp o.call.history.entries := by
  simp only [resettableSections] at hfinish
  split at hfinish
  · rename_i hpc
    cases hfinish
    refine ⟨hpc, ?_, by rw [h.operation]⟩
    intro i x hx
    by_cases hi : i = o.index
    · subst hi
      rw [Function.update_self] at hx
      cases hx
      exact ⟨h.path, by rw [h.maxEntries, h.index]⟩
    · rw [Function.update_of_ne hi, h.memory] at hx
      exact hms i x hx
  · cases hfinish

omit [DecidableEq I] in
/-- An operation that carries nothing, when the file is unlinked. -/
theorem OperationOf.callSince (h : OperationOf maxEntries op ms o) (hown : o.call.OwnEntryOnly) :
    CallSince [] (o.call, none) := by
  have hreads := h.reads
  obtain ⟨index, op', memory, history, entry, pc⟩ := o
  cases entry with
  | none =>
    rcases hreads rfl with rfl | rfl | rfl
    · exact .refreshing (.inl rfl) fileSince_none
    · exact .refreshing (.inr rfl) fileSince_none
    · refine .answered fileSince_none ?_
      simpa [HistoryCall.carried, loadHistoryEntriesFromFile] using List.suffix_nil.mp hown
  | some e =>
    cases pc with
    | «exists» => exact .refreshing (.inl rfl) fileSince_none
    | load => exact .refreshing (.inr rfl) fileSince_none
    | add => exact .refreshed hown fileSince_none
    | persist => exact .added hown fileSince_none
    | writing rest => exact .unlinked
    | done => exact .appended fileSince_none

omit [DecidableEq I] in
/-- What a finished operation leaves in the file and what it has answered from. -/
theorem OperationOf.done {added : List (LastRunHistoryEntry N)}
    (h : OperationOf maxEntries op ms o) (hpc : o.call.pc = .done)
    (hcall : CallSince added (o.call, file)) :
    FileSince (added ++ op.1.appended) file ∧ (op.1.appended = [] →
      reopened (maxEntries op.2) file <:+ added ∧
        o.call.history.entries = reopened (maxEntries op.2) file) := by
  obtain ⟨-, -, -, hentry, -, hmax, -⟩ := h
  obtain ⟨index, op', memory, call⟩ := o
  rw [← hentry, ← hmax, reopened_eq]
  cases hcall with
  | refreshing hstart => rcases hstart with hstart | hstart <;> (rw [hstart] at hpc; cases hpc)
  | appended hfile => exact ⟨hfile, fun hnil => by cases hnil⟩
  | answered hfile hentries =>
    exact ⟨by simpa using hfile, fun _ => ⟨hfile.load _, hentries⟩⟩
  | _ => cases hpc

end Operations

/-! ## Runs -/

section Runs
variable {T I : Type} [DecidableEq T] [DecidableEq I] [PyFloat N] {M : Mutex T}
  {maxEntries : I → Nat} {fromTimestamp : FromTimestamp N} {c c' : ResetConfig M I N}
  {e : ResetEvent T I N} {added : List (LastRunHistoryEntry N)}

/-- The lock works and the instances are on the path. -/
def OnPath (maxEntries : I → Nat) : ResetConfig M I N → Prop :=
  Guarded.Protects (fun _ => InstancesOn maxEntries) (fun _ => True)
    fun _ op ms o _ => OperationOf maxEntries op ms o

/-- **The invariant**: `added` is what has been appended since the reset. -/
def SinceReset (maxEntries : I → Nat) (added : List (LastRunHistoryEntry N)) :
    ResetConfig M I N → Prop :=
  Guarded.Protects (fun _ => InstancesOn maxEntries) (FileSince added)
    fun _ op ms o file => OperationOf maxEntries op ms o ∧ CallSince added (o.call, file)

theorem onPath_step (h : OnPath maxEntries c) (hstep : ResetStep maxEntries fromTimestamp c e c') :
    OnPath maxEntries c' := by
  cases hstep with
  | reset => exact ⟨h.sound, h.mem, h.holds, fun _ => trivial, h.inside⟩
  | @history _ e hstep =>
    cases he : Guarded.committed? e with
    | none =>
      exact h.step hstep he (fun t op ms o hms _ hstart => (operationOf_start hms hstart).1)
        fun t op ms o o' _ _ hinside hbody => hinside.step hbody
    | some x =>
      obtain ⟨t, op, r⟩ := x
      obtain rfl := Guarded.eq_commit_of_committed? he
      refine h.commit hstep (fun u m _ hm => hm) ?_
      intro ms o ms' ht hinside hfinish
      have hms := h.mem t
      rw [ht] at hms
      exact ⟨(hinside.finish hms hfinish).2.1, trivial⟩

omit [DecidableEq T] [DecidableEq I] in
/-- The unlink. -/
theorem sinceReset_unlink (h : OnPath maxEntries c)
    (hcarries : CarriesNothing (c, (.reset : ResetEvent T I N))) :
    SinceReset maxEntries [] { c with shared := none } :=
  ⟨h.sound, h.mem, h.holds, fun _ => fileSince_none, fun t op ms o ht =>
    ⟨h.inside t op ms o ht, (h.inside t op ms o ht).callSince (hcarries t op ms o ht)⟩⟩

/-- A later step, also another unlink. -/
theorem sinceReset_step (h : SinceReset maxEntries added c)
    (hstep : ResetStep maxEntries fromTimestamp c e c')
    (hcarries : CarriesNothing (c, e)) : SinceReset maxEntries (added ++ e.appended) c' := by
  cases hstep with
  | reset =>
    have hnone : (ResetEvent.reset : ResetEvent T I N).appended = [] := rfl
    rw [hnone, List.append_nil]
    refine ⟨h.sound, h.mem, h.holds, fun _ => fileSince_none, ?_⟩
    intro t op ms o ht
    obtain ⟨hop, hcall⟩ := h.inside t op ms o ht
    exact ⟨hop, hcall.unlink (hcarries t op ms o ht)⟩
  | @history _ e hstep =>
    cases he : Guarded.committed? e with
    | none =>
      have hnone : (ResetEvent.history (N := N) e).appended = [] := by
        cases e with
        | commit => cases he
        | _ => rfl
      rw [hnone, List.append_nil]
      refine h.step hstep he (fun t op ms o hms hfile hstart => ?_)
        fun t op ms o o' hbody ht hinside hb => ?_
      · obtain ⟨hop, hpc⟩ := operationOf_start hms hstart
        exact ⟨hop, .refreshing hpc hfile⟩
      · obtain ⟨hop, hcall⟩ := hinside
        refine ⟨hop.step hb, ?_⟩
        obtain ⟨call, hb, ho'⟩ := hb
        cases ho'
        subst hbody
        exact callSince_step hcall hop.path
          (fun hfile => hcarries hfile op ms o ht) hb
    | some x =>
      obtain ⟨t, op, r⟩ := x
      obtain rfl := Guarded.eq_commit_of_committed? he
      refine h.commit hstep (fun u m _ hm => hm) ?_
      intro ms o ms' ht hinside hfinish
      obtain ⟨hop, hcall⟩ := hinside
      have hms := h.mem t
      rw [ht] at hms
      obtain ⟨hpc, hms', -⟩ := hop.finish hms hfinish
      exact ⟨hms', (hop.done hpc hcall).1⟩

theorem sinceReset_run {after : List (ResetConfig M I N × ResetEvent T I N)}
    (h : Execution (ResetStep maxEntries fromTimestamp) c after c')
    (hstart : SinceReset maxEntries [] c)
    (hcarries : ∀ y ∈ after, CarriesNothing y) :
    SinceReset maxEntries (appendedBy after) c' := by
  induction h with
  | refl => exact hstart
  | @snoc u v e steps h hl ih =>
    rw [appendedBy_snoc]
    exact sinceReset_step (ih fun y hy => hcarries y (List.mem_append_left _ hy)) hl
      (hcarries _ (List.mem_append_right _ (.head _)))

/-- A read that leaves the lock, and what the file holds. -/
theorem resetLasts_of_run {after : List (ResetConfig M I N × ResetEvent T I N)}
    (h : Execution (ResetStep maxEntries fromTimestamp) c after c')
    (hstart : SinceReset maxEntries [] c)
    (hcarries : ∀ y ∈ after, CarriesNothing y) :
    ResetLasts maxEntries fromTimestamp after c' where
  returned pre y t q i r post hafter := by
    subst hafter
    obtain ⟨hpre, y', hy, -⟩ := h.middle
    have hsince := sinceReset_run hpre hstart fun x hx => hcarries x (List.mem_append_left _ hx)
    cases hy with
    | history hy =>
      cases hy with
      | @commit _ _ ms ms' o _ lock ht hf hl =>
        obtain ⟨hop, hcall⟩ := hsince.inside _ _ _ _ ht
        have hms := hsince.mem t
        rw [ht] at hms
        obtain ⟨hpc, -, rfl⟩ := hop.finish hms hf
        obtain ⟨hsuffix, hentries⟩ := (hop.done hpc hcall).2 rfl
        exact ⟨hsuffix, by rw [hentries]; rfl⟩
  written content hcontent := by
    have hsince := sinceReset_run h hstart hcarries
    by_cases hrest : Guarded.AtRest c'
    · obtain ⟨es, hes, rfl⟩ := hsince.rest hrest content hcontent
      exact ⟨es, List.prefix_rfl, .inl hes⟩
    · obtain ⟨t, ht⟩ := not_forall_not.mp hrest
      cases hc : c'.thread t with
      | running op m o =>
        obtain ⟨hop, hcall⟩ := hsince.inside t op m o hc
        rw [hcontent] at hcall
        obtain ⟨es, hpre, hes⟩ := hcall.content
        rw [hop.entry] at hes
        exact ⟨es, hpre, hes.imp_right fun hes => ⟨t, op, m, o, hc, hes⟩⟩
      | _ =>
        rw [hc] at ht
        exact ht.elim

/-- **A reset lasts** in every run in which nothing is carried across one. -/
theorem reset_lasts {P K : Type} [DecidableEq P] [DecidableEq K] [Fintype T] {proc : T → P} {k : K}
    {c c' : ResetConfig (reentrantPathLock proc k) I N}
    {steps : List (ResetConfig (reentrantPathLock proc k) I N × ResetEvent T I N)}
    (h : Execution (ResetStep maxEntries fromTimestamp) c steps c') (hquiet : Guarded.Quiet c)
    (hinstances : ∀ t, InstancesOn maxEntries (c.thread t).mem) (hcarried : NothingCarried steps) :
    ∀ before x after, steps = before ++ (x, .reset) :: after →
      ResetLasts maxEntries fromTimestamp after c' := by
  intro before x after hsteps
  obtain ⟨hreset, hafter⟩ := hcarried before x after hsteps
  subst hsteps
  obtain ⟨hbefore, x', hx, hrun⟩ := h.middle
  have hstart : OnPath maxEntries c :=
    ⟨hquiet.sound, hinstances, fun t ht => absurd ht (hquiet.not_running t), fun _ => trivial,
      fun t op m o ht => absurd (by rw [ht]; trivial) (hquiet.not_running t)⟩
  have honPath := hbefore.invariant (P := OnPath maxEntries) (fun _ _ _ => onPath_step) hstart
  cases hx with
  | reset => exact resetLasts_of_run hrun (sinceReset_unlink honPath hreset) hafter

end Runs

/-! ## An instance that was built before the reset -/

/-- A process whose instance has these entries, on a file with one entry. -/
def longLived (cached : List (LastRunHistoryEntry Int)) :
    ResetConfig (reentrantPathLock (P := Unit) (fun _ : Unit => ()) ()) Unit Int :=
  ⟨⟨fun _ _ => none, fun _ => {}, 0, fun _ => ⟨none, none⟩, fun _ => []⟩,
    some (dumpEntries [firstEntry]), fun _ => .idle fun _ => some ⟨cached, 10, true⟩⟩

theorem longLived_quiet (cached : List (LastRunHistoryEntry Int)) :
    Guarded.Quiet (longLived cached) :=
  ⟨ReentrantLocks.Sound.unlocked _ fun _ => none, fun _ => rfl, fun _ => ⟨_, rfl⟩⟩

/-- It reads its history behind a reset, and gets what it has cached. -/
theorem longLived_reads (cached : List (LastRunHistoryEntry Int)) : ∃ pre y c',
    Execution (ResetStep (fun _ => 10) Except.ok) (longLived cached)
        ((longLived cached, .reset) ::
          (pre ++ [(y, .history (.commit () (.read .entries, ()) (.entries cached)))])) c' ∧
      appendedBy pre = [] ∧
      (cached = [] → NothingCarried ((longLived cached, .reset) ::
        (pre ++ [(y, .history (.commit () (.read .entries, ()) (.entries cached)))]))) := by
  have inside {s : ReentrantLocks Unit Unit Unit} {f : LockFrame Unit}
      {rest : List (LockFrame Unit)}
      (h : s.frames () = f :: rest) (hs : f.stage.inside = true) : s.InsideOf () () :=
    ⟨f, by rw [h]; exact .head _, rfl, hs⟩
  refine ⟨[(_, .history (.invoke () (.read .entries, ()))), (_, .history (.enter ())),
      (_, .history (.enter ())), (_, .history (.enter ())), (_, .history (.enter ())),
      (_, .history (.enter ())), (_, .history (.begin ())), (_, .history (.body ()))], _, _,
    .cons .reset <|
    .cons (.history (.invoke rfl rfl rfl)) <|
    .cons (.history (.enter (ReentrantLocks.Advance.acquire rfl rfl rfl))) <|
    .cons (.history (.enter (ReentrantLocks.Advance.outermost rfl rfl (Nat.lt_irrefl 0)))) <|
    .cons (.history (.enter (ReentrantLocks.Advance.file rfl rfl (.created 0)))) <|
    .cons (.history (.enter (ReentrantLocks.Advance.file rfl rfl .flock))) <|
    .cons (.history (.enter (ReentrantLocks.Advance.file rfl rfl .utime))) <|
    .cons (.history (.begin rfl (inside rfl rfl) rfl)) <|
    .cons (.history (.body rfl ⟨_, .step (.missing rfl), rfl⟩)) <|
    .cons (.history (.commit rfl rfl (ReentrantLocks.Leave.outermost rfl rfl rfl))) .refl,
    rfl, ?_⟩
  rintro rfl before x after hsteps
  have hall : ∀ y ∈ before ++ (x, .reset) :: after, CarriesNothing y := by
    rw [← hsteps]
    simp only [List.cons_append, List.nil_append, List.forall_mem_cons]
    refine ⟨fun t op m o ht => ?_, trivial, trivial, trivial, trivial, trivial, trivial, trivial,
      fun _ op m o ht _ => ?_, trivial, by simp⟩
    · cases ht
    · cases ht
      exact List.nil_suffix
  exact ⟨hall _ (by simp), fun y hy => hall y (by simp [hy])⟩

theorem longLived_instances (cached : List (LastRunHistoryEntry Int)) (t : Unit) :
    InstancesOn (fun _ => 10) ((longLived cached).thread t).mem := by
  intro i h hh
  cases hh
  exact ⟨rfl, rfl⟩

/-- Built before the first append, and not used until the reset. -/
theorem reset_lasts_uncached : ∃ pre y c',
    Execution (ResetStep (fun _ => 10) Except.ok) (longLived [])
        ((longLived [], .reset) ::
          (pre ++ [(y, .history (.commit () (.read .entries, ()) (.entries [])))])) c' ∧
      ResetLasts (fun _ => 10) Except.ok
        (pre ++ [(y, .history (.commit () (.read .entries, ()) (.entries [])))]) c' := by
  obtain ⟨pre, y, c', h, -, hcarried⟩ := longLived_reads []
  exact ⟨pre, y, c', h, reset_lasts h (longLived_quiet []) (longLived_instances [])
    (hcarried rfl) [] _ _ rfl⟩

/-- Built on the file as it was: the entry that the reset removed is returned. -/
theorem reset_undone : ∃ after c',
    Execution (ResetStep (fun _ => 10) Except.ok) (longLived [firstEntry])
        ((longLived [firstEntry], .reset) :: after) c' ∧
      ¬ ResetLasts (fun _ => 10) Except.ok after c' := by
  obtain ⟨pre, y, c', h, hnone, -⟩ := longLived_reads [firstEntry]
  refine ⟨_, c', h, ?_⟩
  intro hlasts
  obtain ⟨hsuffix, hr⟩ := hlasts.returned pre y () .entries () _ [] rfl
  rw [hnone] at hsuffix
  rw [List.suffix_nil.mp hsuffix] at hr
  cases hr

end SchedulingUtil
