import SchedulingUtil.LastRunHistory

/-! # What the history operations compute

The file format is read back, and cut short it is no list at all. Seen through
`snapshot`, an instance is a list of at most `maxEntries` entries to which
`append` adds at the end. The queries are functions of the finished entries in
their order. -/
namespace SchedulingUtil
open Lib.Json Lib.Utf8

variable {N : Type}

/-! ## The file format -/

theorem Outcome.ofLiteral_literal (o : Outcome) : Outcome.ofLiteral o.literal = some o := by
  cases o <;> decide

section Format
variable [PyFloat N]

theorem floatJson_eq (n : N) : floatJson n = .num n := if_pos (PyFloat.isFinite_all n)

theorem validateEntry_toJson (e : LastRunHistoryEntry N) : validateEntry e.toJson = some e := by
  cases e with
  | started e =>
    simp [validateEntry, LastRunHistoryEntry.toJson, Value.get?, kindKey, atKey, startedKind,
      floatJson_eq, PyFloat.lax_num]
  | finished e =>
    simp [validateEntry, LastRunHistoryEntry.toJson, Value.get?, kindKey, atKey, startedKind,
      finishedKind, outcomeKey, detailsKey, detailsField, floatJson_eq, PyFloat.lax_num,
      Outcome.ofLiteral_literal]

theorem filterMap_validateEntry (es : List (LastRunHistoryEntry N)) :
    (es.map LastRunHistoryEntry.toJson).filterMap validateEntry = es := by
  induction es with
  | nil => rfl
  | cons e es ih => rw [List.map_cons, List.filterMap_cons_some (validateEntry_toJson e), ih]

theorem jsonLoad_dumpEntries (es : List (LastRunHistoryEntry N)) :
    jsonLoad (dumpEntries es) = some (.arr (es.map LastRunHistoryEntry.toJson)) := by
  rw [jsonLoad, dumpEntries, decode_encode, Option.bind_some, loadsWith_render]

/-- Decoding inverts the encoding of entries. -/
theorem load_dumpEntries (es : List (LastRunHistoryEntry N)) :
    loadHistoryEntriesFromFile (some (dumpEntries es)) = es := by
  simp only [loadHistoryEntriesFromFile, jsonLoad_dumpEntries, filterMap_validateEntry]

/-- A file that holds only the first bytes of a list of entries holds no entry:
either the last character is broken or the closing bracket is missing. -/
theorem load_cut {es : List (LastRunHistoryEntry N)} {bytes : Bytes}
    (hp : bytes <+: dumpEntries es) (hne : bytes ≠ dumpEntries es) :
    loadHistoryEntriesFromFile (N := N) (some bytes) = [] := by
  have hnone : jsonLoad (N := N) bytes = none := by
    unfold jsonLoad
    cases hd : decode bytes with
    | none => rfl
    | some text =>
      obtain ⟨⟨q, hq⟩, hwhole⟩ := decode_prefix hp hd
      refine loadsWith_render_cut (indented 2) (q := q)
        (v := .arr (es.map LastRunHistoryEntry.toJson)) trivial hq fun hnil => hne ?_
      rw [hnil, List.append_nil] at hq
      exact hwhole hq
  simp [loadHistoryEntriesFromFile, hnone]

end Format

/-! ## Discarding -/

theorem discardOldEntries_eq {α : Type} (m : Nat) (es : List α) :
    discardOldEntries m es = es.rtake m := by
  induction es with
  | nil => simp [discardOldEntries]
  | cons e es ih =>
    rw [discardOldEntries]
    split
    · rename_i h
      rw [ih, List.rtake, List.rtake, List.length_cons,
        show es.length + 1 - m = (es.length - m) + 1 by simp at h; omega, List.drop_succ_cons]
    · rename_i h
      rw [List.rtake, show (e :: es).length - m = 0 by omega, List.drop_zero]

theorem length_rtake_le {α : Type} (m : Nat) (es : List α) : (es.rtake m).length ≤ m := by
  simp only [List.rtake, List.length_drop]
  omega

theorem rtake_of_length_le {α : Type} {m : Nat} {es : List α} (h : es.length ≤ m) :
    es.rtake m = es := by
  rw [List.rtake, Nat.sub_eq_zero_of_le h, List.drop_zero]

/-- Discarding before an append does not show after it. -/
theorem rtake_rtake_append {α : Type} (m : Nat) (es : List α) (e : α) :
    (es.rtake m ++ [e]).rtake m = (es ++ [e]).rtake m := by
  cases m with
  | zero => simp [List.rtake_zero]
  | succ m =>
    rw [List.rtake_concat_succ, List.rtake_concat_succ]
    congr 1
    simp only [List.rtake, List.length_drop, List.drop_drop]
    congr 1
    omega

theorem rtake_append {α : Type} (m : Nat) (es es' : List α) :
    (es.rtake m ++ es').rtake m = (es ++ es').rtake m := by
  induction es' using List.reverseRecOn with
  | nil => rw [List.append_nil, List.append_nil, rtake_of_length_le (length_rtake_le m es)]
  | append_singleton es' e ih =>
    rw [← List.append_assoc, ← List.append_assoc, ← rtake_rtake_append, ih, rtake_rtake_append]

theorem rtake_idem {α : Type} (m : Nat) (es : List α) : (es.rtake m).rtake m = es.rtake m :=
  rtake_of_length_le (length_rtake_le m es)

/-! ## The instance and its file -/

namespace LastRunHistory
section Object
variable [PyNumber N] (h : LastRunHistory N) (file : File)

@[simp] theorem refresh_maxEntries :
    (h.refreshFromFileWithoutLock file).maxEntries = h.maxEntries := by
  unfold refreshFromFileWithoutLock loadFromFileWithoutLock
  split <;> (try split) <;> rfl

@[simp] theorem refresh_path : (h.refreshFromFileWithoutLock file).path = h.path := by
  unfold refreshFromFileWithoutLock loadFromFileWithoutLock
  split <;> (try split) <;> rfl

@[simp] theorem append_maxEntries (e : LastRunHistoryEntry N) :
    (h.append file e).1.maxEntries = h.maxEntries := by simp [append]

@[simp] theorem append_path (e : LastRunHistoryEntry N) :
    (h.append file e).1.path = h.path := by simp [append]

theorem append_entries (e : LastRunHistoryEntry N) :
    (h.append file e).1.entries = (h.snapshot file ++ [e]).rtake h.maxEntries := by
  simp [append, snapshot, discardOldEntries_eq]

theorem append_file (e : LastRunHistoryEntry N) (hp : h.path = true) :
    (h.append file e).2 = some (dumpEntries ((h.snapshot file ++ [e]).rtake h.maxEntries)) := by
  simp [append, snapshot, persistToFileWithoutLock, discardOldEntries_eq, hp]

theorem snapshot_file {content : Bytes} (hp : h.path = true) :
    h.snapshot (some content) = (loadHistoryEntriesFromFile (some content)).rtake h.maxEntries := by
  simp [snapshot, refreshFromFileWithoutLock, loadFromFileWithoutLock, hp, discardOldEntries_eq]

theorem snapshot_cached (hp : (h.path && file.isSome) = false) : h.snapshot file = h.entries := by
  simp [snapshot, refreshFromFileWithoutLock, hp]

theorem snapshot_refresh : (h.refreshFromFileWithoutLock file).snapshot file = h.snapshot file := by
  cases hc : h.path && file.isSome with
  | true =>
    obtain ⟨hp, content, rfl⟩ : h.path = true ∧ ∃ content, file = some content := by
      simpa [Option.isSome_iff_exists] using hc
    rw [snapshot_file _ (by simpa using hp), snapshot_file _ hp, refresh_maxEntries]
  | false =>
    rw [snapshot_cached _ _ (by simpa using hc), snapshot]

end Object

/-- **An append adds its entry behind what the reads see**, and drops from the
front what exceeds the bound. -/
theorem snapshot_append [PyFloat N] (h : LastRunHistory N) (file : File)
    (e : LastRunHistoryEntry N) :
    (h.append file e).1.snapshot (h.append file e).2 =
      (h.snapshot file ++ [e]).rtake h.maxEntries := by
  cases hp : h.path with
  | true =>
    rw [append_file h file e hp, snapshot_file _ (by simpa using hp), load_dumpEntries,
      append_maxEntries, rtake_idem]
  | false =>
    rw [snapshot_cached _ _ (by simp [hp]), append_entries]

end LastRunHistory

/-! ## The queries -/

def finishedAttempts (es : List (LastRunHistoryEntry N)) : List (LastRunAttemptFinished N) :=
  es.filterMap LastRunHistoryEntry.finished?

def lastWith (o : Outcome) (fs : List (LastRunAttemptFinished N)) :
    Option (LastRunAttemptFinished N) :=
  fs.reverse.find? fun e => e.outcome == o

/-- The failures behind the last success, or all of them if there is none. -/
def failuresSince (fs : List (LastRunAttemptFinished N)) : Nat :=
  (fs.rtakeWhile fun e => e.outcome != .success).countP fun e => e.outcome == .failure

@[simp] theorem finishedAttempts_append (es es' : List (LastRunHistoryEntry N)) :
    finishedAttempts (es ++ es') = finishedAttempts es ++ finishedAttempts es' :=
  List.filterMap_append

@[simp] theorem finishedAttempts_started (e : LastRunAttemptStarted N) :
    finishedAttempts [.started e] = [] := rfl

@[simp] theorem finishedAttempts_finished (e : LastRunAttemptFinished N) :
    finishedAttempts [.finished e] = [e] := rfl

theorem findFirst_ok {α : Type} {p : α → Except PyException Bool} {q : α → Bool}
    (hpq : ∀ x, p x = .ok (q x)) (xs : List α) : findFirst p xs = .ok (xs.find? q) := by
  induction xs with
  | nil => rfl
  | cons x xs ih =>
    cases hq : q x <;>
      simp [findFirst, hpq, hq, ih, pure, Except.pure, bind, Except.bind]

/-- Looking for finished entries with a further property `q` comes down to the
finished attempts. -/
theorem assertFinished_findLastEntry {fromTimestamp : FromTimestamp N} {f : EntryFilter}
    {q : LastRunAttemptFinished N → Bool}
    (hf : ∀ e, f.accepts fromTimestamp e = .ok (e.finished?.any q))
    (es : List (LastRunHistoryEntry N)) :
    (findLastEntry fromTimestamp f es >>= assertFinished) =
      .ok ((finishedAttempts es).reverse.find? q) := by
  rw [findLastEntry, findFirst_ok hf, finishedAttempts, ← List.filterMap_reverse]
  induction es.reverse with
  | nil => rfl
  | cons e rest ih =>
    cases e with
    | started e => exact ih
    | finished e =>
      cases hq : q e with
      | true =>
        simp [LastRunHistoryEntry.finished?, hq, assertFinished, bind, Except.bind, pure,
          Except.pure]
      | false => simpa [LastRunHistoryEntry.finished?, hq] using ih

theorem lastFinished_eq (fromTimestamp : FromTimestamp N) (es : List (LastRunHistoryEntry N)) :
    lastFinished fromTimestamp es = .ok (finishedAttempts es).getLast? := by
  have hf (e : LastRunHistoryEntry N) :
      EntryFilter.accepts fromTimestamp { finished := true } e =
        .ok (e.finished?.any fun _ => true) := by
    cases e <;> rfl
  rw [lastFinished, assertFinished_findLastEntry hf, ← List.head?_reverse]
  cases (finishedAttempts es).reverse <;> rfl

theorem lastWithOutcome_eq (fromTimestamp : FromTimestamp N) (es : List (LastRunHistoryEntry N))
    (o : Outcome) :
    lastWithOutcome fromTimestamp es o = .ok (lastWith o (finishedAttempts es)) := by
  have hf (e : LastRunHistoryEntry N) :
      EntryFilter.accepts fromTimestamp { outcome := some o } e =
        .ok (e.finished?.any fun e => e.outcome == o) := by
    cases e <;> rfl
  rw [lastWithOutcome, assertFinished_findLastEntry hf, lastWith]

/-! ### The count of failures -/

@[simp] theorem failuresSince_nil : failuresSince ([] : List (LastRunAttemptFinished N)) = 0 := rfl

theorem failuresSince_concat (fs : List (LastRunAttemptFinished N)) (e : LastRunAttemptFinished N) :
    failuresSince (fs ++ [e]) =
      match e.outcome with
      | .success => 0
      | .failure => failuresSince fs + 1
      | .neutral => failuresSince fs := by
  unfold failuresSince
  cases ho : e.outcome <;> simp [ho]

theorem countFailures_eq (rev : List (LastRunHistoryEntry N)) (n : Nat) :
    countFailures rev n = failuresSince (finishedAttempts rev.reverse) + n := by
  induction rev generalizing n with
  | nil => simp [countFailures, finishedAttempts]
  | cons e rest ih =>
    cases e with
    | started e => simp [countFailures, ih]
    | finished e =>
      rw [List.reverse_cons, finishedAttempts_append, finishedAttempts_finished,
        failuresSince_concat, countFailures]
      cases e.outcome with
      | success => simp
      | failure => simp only [ih]; omega
      | neutral => simp only [ih]

theorem nFailuresSinceLastSuccess_eq (es : List (LastRunHistoryEntry N)) :
    nFailuresSinceLastSuccess es = failuresSince (finishedAttempts es) := by
  rw [nFailuresSinceLastSuccess, countFailures_eq, List.reverse_reverse, Nat.add_zero]

/-! ### A list and its end -/

theorem lastWith_append (o : Outcome) (ds ks : List (LastRunAttemptFinished N)) :
    lastWith o (ds ++ ks) = (lastWith o ks).or (lastWith o ds) := by
  simp [lastWith, List.find?_append]

theorem failuresSince_append_of_success {ks : List (LastRunAttemptFinished N)}
    (hs : (lastWith .success ks).isSome) (ds : List (LastRunAttemptFinished N)) :
    failuresSince (ds ++ ks) = failuresSince ks := by
  induction ks using List.reverseRecOn with
  | nil => simp [lastWith] at hs
  | append_singleton ks e ih =>
    rw [← List.append_assoc, failuresSince_concat, failuresSince_concat]
    cases ho : e.outcome with
    | success => rfl
    | failure => rw [ih (by simpa [lastWith, ho] using hs)]
    | neutral => rw [ih (by simpa [lastWith, ho] using hs)]

theorem failuresSince_le_append (ds ks : List (LastRunAttemptFinished N)) :
    failuresSince ks ≤ failuresSince (ds ++ ks) := by
  induction ks using List.reverseRecOn with
  | nil => simp
  | append_singleton ks e ih =>
    rw [← List.append_assoc, failuresSince_concat, failuresSince_concat]
    cases e.outcome <;> simp [ih]

end SchedulingUtil
