import Mathlib.Logic.Relation
import SchedulingUtil.LastRunHistorySpec

/-! # The history's operations, step by step

What a constructor, a read and an append do between taking the lock and giving
it back, in the steps at which they can be cut off: the test whether the file
exists, the load, the change of the list, and `write_bytes`, which opens and
truncates the file and then writes it in pieces. -/
namespace SchedulingUtil
open Lib.Utf8

variable {N : Type}

/-- The next step of an operation; `writing` holds the bytes still to be written. -/
inductive HistoryPc where
  | exists
  | load
  | add
  | persist
  | writing (rest : Bytes)
  | done

/-- An operation under way on an instance: `entry` is what an append adds. -/
structure HistoryCall (N : Type) where
  history : LastRunHistory N
  entry : Option (LastRunHistoryEntry N)
  pc : HistoryPc

namespace HistoryCall

/-- `load_from_file`, as the constructor calls it. -/
def loadFromFile (h : LastRunHistory N) : HistoryCall N := ⟨h, none, .load⟩
/-- A read: the answer is computed from the entries it ends with. -/
def read (h : LastRunHistory N) : HistoryCall N := ⟨h, none, .exists⟩
def append (h : LastRunHistory N) (e : LastRunHistoryEntry N) : HistoryCall N :=
  ⟨h, some e, .exists⟩

/-- What follows the refresh. -/
def afterRefresh (c : HistoryCall N) : HistoryPc := if c.entry.isSome then .add else .done

end HistoryCall

section Steps
variable [PyNumber N]

/-- One step on the file of an instance that has a path. -/
inductive HistoryStep : HistoryCall N × File → HistoryCall N × File → Prop where
  | found {c : HistoryCall N} {content : Bytes} (h : c.pc = .exists) :
      HistoryStep (c, some content) ({ c with pc := .load }, some content)
  | missing {c : HistoryCall N} (h : c.pc = .exists) :
      HistoryStep (c, none) ({ c with pc := c.afterRefresh }, none)
  | load {c : HistoryCall N} {file : File} (h : c.pc = .load) :
      HistoryStep (c, file)
        ({ c with history := c.history.loadFromFileWithoutLock file, pc := c.afterRefresh }, file)
  | add {c : HistoryCall N} {file : File} {e : LastRunHistoryEntry N} (h : c.pc = .add)
      (he : c.entry = some e) :
      HistoryStep (c, file)
        ({ c with
            history.entries := discardOldEntries c.history.maxEntries (c.history.entries ++ [e])
            pc := .persist }, file)
  | truncate {c : HistoryCall N} {file : File} (h : c.pc = .persist) :
      HistoryStep (c, file) ({ c with pc := .writing (dumpEntries c.history.entries) }, some [])
  | write {c : HistoryCall N} {content piece rest : Bytes} (h : c.pc = .writing (piece ++ rest)) :
      HistoryStep (c, some content) ({ c with pc := .writing rest }, some (content ++ piece))
  | written {c : HistoryCall N} {content : Bytes} (h : c.pc = .writing []) :
      HistoryStep (c, some content) ({ c with pc := .done }, some content)

/-- How far an append on `file` has come, in the states it can be cut off in. -/
inductive AppendReaches (h : LastRunHistory N) (e : LastRunHistoryEntry N) (file : File) :
    HistoryCall N × File → Prop where
  | start (pc : HistoryPc) (hpc : pc = .exists ∨ pc = .load ∧ file.isSome) :
      AppendReaches h e file (⟨h, some e, pc⟩, file)
  | refreshed : AppendReaches h e file (⟨h.refreshFromFileWithoutLock file, some e, .add⟩, file)
  | added : AppendReaches h e file (⟨(h.append file e).1, some e, .persist⟩, file)
  | writing (content rest : Bytes)
      (hdata : content ++ rest = dumpEntries (h.append file e).1.entries) :
      AppendReaches h e file (⟨(h.append file e).1, some e, .writing rest⟩, some content)
  | done : AppendReaches h e file
      (⟨(h.append file e).1, some e, .done⟩, some (dumpEntries (h.append file e).1.entries))

/-- How far a read, or the load of a new instance, has come. -/
inductive ReadReaches (h : LastRunHistory N) (file : File) : HistoryCall N × File → Prop where
  | start (pc : HistoryPc) (hpc : pc = .exists ∨ pc = .load ∧ (file.isSome ∨ h.entries = [])) :
      ReadReaches h file (⟨h, none, pc⟩, file)
  | done : ReadReaches h file (⟨h.refreshFromFileWithoutLock file, none, .done⟩, file)

/-- Loading is refreshing, also from a missing file if there was nothing before. -/
theorem loadFromFile_eq_refresh {h : LastRunHistory N} {file : File}
    (hload : file.isSome ∨ h.entries = []) :
    h.loadFromFileWithoutLock file = h.refreshFromFileWithoutLock file := by
  cases hp : h.path with
  | false =>
    simp [LastRunHistory.loadFromFileWithoutLock, LastRunHistory.refreshFromFileWithoutLock, hp]
  | true =>
    cases file with
    | some content => simp [LastRunHistory.refreshFromFileWithoutLock, hp]
    | none =>
      obtain ⟨entries, maxEntries, path⟩ := h
      obtain rfl : entries = [] := by simpa using hload
      simp [LastRunHistory.loadFromFileWithoutLock, LastRunHistory.refreshFromFileWithoutLock,
        loadHistoryEntriesFromFile, discardOldEntries]

theorem readReaches_step {h : LastRunHistory N} {file : File} {s s' : HistoryCall N × File}
    (hs : ReadReaches h file s) (hstep : HistoryStep s s') : ReadReaches h file s' := by
  cases hs with
  | start pc hpc =>
    cases hstep with
    | found hpc' => exact .start .load (.inr ⟨rfl, .inl rfl⟩)
    | missing hpc' =>
      have : ReadReaches h none _ := .done
      simpa [LastRunHistory.refreshFromFileWithoutLock, HistoryCall.afterRefresh] using this
    | load hpc' =>
      cases hpc'
      obtain hpc | ⟨-, hload⟩ := hpc
      · cases hpc
      have : ReadReaches h file _ := .done
      simpa [loadFromFile_eq_refresh hload, HistoryCall.afterRefresh] using this
    | _ h => rcases hpc with hpc | ⟨hpc, -⟩ <;> (cases hpc; cases h)
  | done =>
    cases hstep with
    | _ h => cases h

theorem appendReaches_step {h : LastRunHistory N} (hp : h.path = true)
    {e : LastRunHistoryEntry N} {file : File} {s s' : HistoryCall N × File}
    (hs : AppendReaches h e file s) (hstep : HistoryStep s s') : AppendReaches h e file s' := by
  cases hs with
  | start pc hpc =>
    cases hstep with
    | found hpc' => exact .start .load (.inr ⟨rfl, rfl⟩)
    | missing hpc' =>
      have : AppendReaches h e none _ := .refreshed
      simpa [LastRunHistory.refreshFromFileWithoutLock, HistoryCall.afterRefresh] using this
    | load hpc' =>
      cases hpc'
      obtain hpc | ⟨-, hsome⟩ := hpc
      · cases hpc
      have : AppendReaches h e file _ := .refreshed
      simpa [LastRunHistory.refreshFromFileWithoutLock, HistoryCall.afterRefresh, hp, hsome]
        using this
    | _ h => rcases hpc with hpc | ⟨hpc, -⟩ <;> (cases hpc; cases h)
  | refreshed =>
    cases hstep with
    | add hpc he => cases he; exact .added
    | _ h => cases h
  | added =>
    cases hstep with
    | truncate hpc => exact .writing [] _ rfl
    | _ h => cases h
  | writing content rest hdata =>
    cases hstep with
    | write hpc =>
      cases hpc
      exact .writing _ _ (by rw [List.append_assoc]; exact hdata)
    | written hpc =>
      cases hpc
      rw [List.append_nil] at hdata
      rw [hdata]
      exact .done
    | _ h => cases h
  | done =>
    cases hstep with
    | _ h => cases h

end Steps

end SchedulingUtil
