import SchedulingUtil.LastRunPolicy

/-! # Whatever the history file holds

An item of the file is validated when the file is loaded, its timestamp is
converted only when a decision counts from it. Loading tolerates every value;
a decision does not tolerate every timestamp that was let in. -/
namespace SchedulingUtil
open Lib.Json Lib.Utf8

variable {N : Type}

/-! ## What is kept -/

/-- The items of a list, and none of any other value. -/
def historyItems : Value N → List (Value N)
  | .arr items => items
  | _ => []

section Keep
variable {α β : Type} {f : α → Option β}

theorem map_filter_isSome (xs : List α) :
    (xs.filter fun x => (f x).isSome).map f = (xs.filterMap f).map some := by
  rw [List.map_filterMap_some_eq_filter_map_isSome, List.filter_map]
  rfl

/-- A part of what `filterMap` keeps comes from a part of the list, item by item. -/
theorem exists_sublist_of_sublist_filterMap {xs : List α} {ys : List β}
    (h : ys.Sublist (xs.filterMap f)) :
    ∃ kept : List α, kept.Sublist xs ∧ kept.map f = ys.map some := by
  obtain ⟨zs, hsub, rfl⟩ := List.sublist_filterMap_iff.mp h
  exact ⟨_, List.filter_sublist.trans hsub, map_filter_isSome zs⟩

end Keep

variable [PyNumber N]

/-- The entries are the validated items of a part of the list, in its order. -/
def KeptFrom (entries : List (LastRunHistoryEntry N)) (items : List (Value N)) : Prop :=
  ∃ kept : List (Value N), kept.Sublist items ∧ kept.map validateEntry = entries.map some

theorem load_of_jsonLoad {content : Bytes} {data : Value N} (h : jsonLoad content = some data) :
    loadHistoryEntriesFromFile (some content) = (historyItems data).filterMap validateEntry := by
  simp only [loadHistoryEntriesFromFile, h, historyItems]
  cases data <;> rfl

/-- An unpaired surrogate in one item leaves the others. -/
example : loadHistoryEntriesFromFile (N := Int) (some (encode
    "[\x7b\"kind\":\"started\",\"at\":1\x7d,\x7b\"note\":\"\\ud800\"\x7d]".toList)) =
      [.started ⟨1000000⟩] := by decide +kernel

theorem keptFrom_rtake (items : List (Value N)) (m : Nat) :
    KeptFrom ((items.filterMap validateEntry).rtake m) items :=
  exists_sublist_of_sublist_filterMap (List.drop_sublist _ _)

/-- The instance built on a file: no content stops it. -/
theorem init_on_file {maxEntries : Int} (hm : 0 ≤ maxEntries) (file : File) :
    LastRunHistory.init (N := N) maxEntries true none file =
      .ok ⟨(loadHistoryEntriesFromFile file).rtake maxEntries.toNat, maxEntries.toNat, true⟩ := by
  simp only [LastRunHistory.init, if_neg (Int.not_lt.mpr hm),
    LastRunHistory.loadFromFileWithoutLock, if_true, discardOldEntries_eq]

/-! ## What a decision needs -/

/-- The attempt that the decision counts from finished at a time that
`datetime.fromtimestamp` converts. -/
def RunPredicate.CountsFromDate (p : RunPredicate) (fromTimestamp : FromTimestamp N)
    (fs : List (LastRunAttemptFinished N)) : Prop :=
  ∀ e period, p.gate fs = .after e period → ∃ finish, fromTimestamp e.time = .ok finish

omit [PyNumber N] in
theorem allows_ok_iff {p : RunPredicate} {fromTimestamp : FromTimestamp N}
    {fs : List (LastRunAttemptFinished N)} (now : Datetime) :
    (∃ b, (p.gate fs).allows fromTimestamp now = .ok b) ↔ p.CountsFromDate fromTimestamp fs := by
  unfold RunPredicate.CountsFromDate
  cases hg : p.gate fs with
  | opened => exact iff_of_true ⟨true, rfl⟩ fun e period h => by cases h
  | closed => exact iff_of_true ⟨false, rfl⟩ fun e period h => by cases h
  | after e period =>
    cases hf : fromTimestamp e.time with
    | ok finish =>
      refine iff_of_true ⟨decide (now - finish > period), ?_⟩ ?_
      · rw [Gate.allows, hf]
        rfl
      · intro e' period' h
        cases h
        exact ⟨finish, hf⟩
    | error x =>
      refine iff_of_false ?_ ?_
      · intro h
        obtain ⟨b, hb⟩ := h
        rw [Gate.allows, hf] at hb
        cases hb
      · intro h
        obtain ⟨finish, hok⟩ := h e period rfl
        rw [hf] at hok
        cases hok

/-- 0001-01-02, since `fromtimestamp` also looks at the time a day before, and the day after
9999-12-31, UTC. -/
def minDate : Int := -62135510400000000
def endOfDates : Int := 253402300800000000

/-- The conversion of timestamps in microseconds, in UTC. -/
def dateOf : FromTimestamp Int := fun t =>
  if minDate ≤ t ∧ t < endOfDates then .ok t
  else .error (.valueError "year is out of range")

def succeededOnly (t : Int) : List (LastRunHistoryEntry Int) := [.finished ⟨t, .success, ""⟩]

end SchedulingUtil
