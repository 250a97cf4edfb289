import SchedulingUtil.HistorySteps

/-! # An append that is cut off

The process is killed, or `write_bytes` raises: the file stays as the append had
left it at that step. What a `LastRunHistory` opened afterwards holds depends on
whether the file had been truncated and not yet written to the end. -/
namespace SchedulingUtil
open Lib.Utf8

variable {N : Type} [PyFloat N]

/-- The entries of a `LastRunHistory` opened on the file. -/
def reopened (maxEntries : Nat) (file : File) : List (LastRunHistoryEntry N) :=
  match LastRunHistory.init maxEntries true none file with
  | .ok h => h.entries
  | .error _ => []

theorem reopened_eq (maxEntries : Nat) (file : File) :
    reopened (N := N) maxEntries file = (loadHistoryEntriesFromFile file).rtake maxEntries := by
  have hpos : ¬ (maxEntries : Int) < 0 := by omega
  simp [reopened, LastRunHistory.init, hpos, LastRunHistory.loadFromFileWithoutLock,
    discardOldEntries_eq]

theorem reopened_dumpEntries (maxEntries : Nat) (es : List (LastRunHistoryEntry N)) :
    reopened maxEntries (some (dumpEntries es)) = es.rtake maxEntries := by
  rw [reopened_eq, load_dumpEntries]

/-- The entries that the append is to write. -/
theorem append_entries_reopened {h : LastRunHistory N} (hp : h.path = true)
    (e : LastRunHistoryEntry N) (content : Bytes) :
    (h.append (some content) e).1.entries =
      (reopened h.maxEntries (some content) ++ [e]).rtake h.maxEntries := by
  rw [LastRunHistory.append_entries, LastRunHistory.snapshot_file _ hp, reopened_eq]

/-- The last entries of a list that has one are none only if none are kept. -/
theorem rtake_concat_eq_nil {α : Type} {m : Nat} {es : List α} {e : α}
    (h : (es ++ [e]).rtake m = []) : m = 0 := by
  cases m with
  | zero => rfl
  | succ m => simp [List.rtake_concat_succ] at h

def startedEntry : LastRunHistoryEntry Int := .started ⟨0⟩
def finishedEntry : LastRunHistoryEntry Int := .finished ⟨1, .success, ""⟩
def startedFile : Bytes := dumpEntries [startedEntry]

end SchedulingUtil
