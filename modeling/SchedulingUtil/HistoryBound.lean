import SchedulingUtil.LastRunHistorySpec

/-! # The bound on the history

An instance keeps the last `max_entries` of what it began with and what is appended, with
two exceptions. A list given to the constructor is kept whole until the first append. A
time that JSON has no number for is written as `null`, so that its entry is lost with the
next reload. -/
namespace SchedulingUtil
open Lib.Json Lib.Utf8

variable {N : Type}

/-- What an instance is built from: nothing, a list, or a path with what is there. -/
inductive HistoryOrigin (N : Type) where
  | empty
  | list (entries : List (LastRunHistoryEntry N))
  | path (file : File)

inductive HistoryUse (N : Type) where
  | read
  | append (entry : LastRunHistoryEntry N)

def HistoryUse.appended? : HistoryUse N → Option (LastRunHistoryEntry N)
  | .read => none
  | .append e => some e

/-- The entries appended by the uses. -/
def appendedIn (uses : List (HistoryUse N)) : List (LastRunHistoryEntry N) :=
  uses.filterMap HistoryUse.appended?

namespace HistoryOrigin
variable [PyNumber N]

def file : HistoryOrigin N → File
  | .path file => file
  | _ => none

def hasPath : HistoryOrigin N → Bool
  | .path _ => true
  | _ => false

/-- The initial entries, all of them. -/
def initial : HistoryOrigin N → List (LastRunHistoryEntry N)
  | .empty => []
  | .list entries => entries
  | .path file => loadHistoryEntriesFromFile file

def init (maxEntries : Int) : HistoryOrigin N → Except PyException (LastRunHistory N)
  | .empty => LastRunHistory.init maxEntries false none none
  | .list entries => LastRunHistory.init maxEntries false (some entries) none
  | .path file => LastRunHistory.init maxEntries true none file

end HistoryOrigin

section Uses
variable [PyNumber N]

/-- A use of the instance on its file. -/
def HistoryUse.apply (s : LastRunHistory N × File) : HistoryUse N → LastRunHistory N × File
  | .read => (s.1.refreshFromFileWithoutLock s.2, s.2)
  | .append e => s.1.append s.2 e

/-- **The claim on a state**: the last entries, at most `maxEntries` of them, in memory and,
behind an append, in the file. -/
structure BoundedSuffix (o : HistoryOrigin N) (maxEntries : Nat) (uses : List (HistoryUse N))
    (s : LastRunHistory N × File) : Prop where
  bounded : s.1.entries.length ≤ maxEntries
  suffix : s.1.entries = (o.initial ++ appendedIn uses).rtake maxEntries
  read : s.1.snapshot s.2 = s.1.entries
  persisted : o.hasPath = true → appendedIn uses ≠ [] →
    loadHistoryEntriesFromFile s.2 = s.1.entries

/-- `math.isfinite(entry.at)`. -/
def LastRunHistoryEntry.hasFiniteTime (e : LastRunHistoryEntry N) : Bool :=
  PyNumber.isFinite e.time

/-- Nothing has to be discarded from what the constructor leaves. -/
def HistoryOrigin.Fits (o : HistoryOrigin N) (m : Nat) : Prop :=
  ∀ entries, o = .list entries → entries.length ≤ m

/-- Where there is a file, the entries to keep have times that JSON has numbers for. -/
def HistoryOrigin.Rereads (o : HistoryOrigin N) (m : Nat) (added : List (LastRunHistoryEntry N)) :
    Prop :=
  o.hasPath = true → ∀ e ∈ (o.initial ++ added).rtake m, e.hasFiniteTime = true

end Uses

variable [PyDouble N]

/-! ## What is read back -/

theorem allNums_floatJson (n : N) : (floatJson n).AllNums Written := by
  unfold floatJson
  split
  · rename_i h
    exact .num (PyDouble.written n h)
  · exact .null

theorem allNums_toJson (e : LastRunHistoryEntry N) : e.toJson.AllNums Written := by
  cases e with
  | started e =>
    refine .obj ?_
    simp [Value.AllNums.str, allNums_floatJson]
  | finished e =>
    refine .obj ?_
    simp [Value.AllNums.str, allNums_floatJson]

/-- An entry is written so that it is validated again, if its time is. -/
theorem validateEntry_toJson_of_double (e : LastRunHistoryEntry N) :
    validateEntry e.toJson = if e.hasFiniteTime then some e else none := by
  have htime : PyNumber.lax (floatJson e.time) = if e.hasFiniteTime then some e.time else none := by
    unfold floatJson LastRunHistoryEntry.hasFiniteTime
    split
    · rename_i h
      exact PyDouble.lax_num _ h
    · exact PyDouble.lax_null
  cases e with
  | started e =>
    simp only [LastRunHistoryEntry.time] at htime
    cases hfinite : (LastRunHistoryEntry.started e).hasFiniteTime <;>
      simp [validateEntry, LastRunHistoryEntry.toJson, Value.get?, kindKey, atKey, startedKind,
        htime, hfinite]
  | finished e =>
    simp only [LastRunHistoryEntry.time] at htime
    cases hfinite : (LastRunHistoryEntry.finished e).hasFiniteTime <;>
      simp [validateEntry, LastRunHistoryEntry.toJson, Value.get?, kindKey, atKey, startedKind,
        finishedKind, outcomeKey, detailsKey, detailsField, htime, hfinite,
        Outcome.ofLiteral_literal]

/-- **The file gives back the entries with finite times.** -/
theorem load_dumpEntries_of_double (es : List (LastRunHistoryEntry N)) :
    loadHistoryEntriesFromFile (some (dumpEntries es)) =
      es.filter LastRunHistoryEntry.hasFiniteTime := by
  have hall : (Value.arr (es.map LastRunHistoryEntry.toJson)).AllNums Written := by
    refine .arr ?_
    intro v hv
    obtain ⟨e, -, rfl⟩ := List.mem_map.mp hv
    exact allNums_toJson e
  have hjson : jsonLoad (dumpEntries es) = some (.arr (es.map LastRunHistoryEntry.toJson)) := by
    rw [jsonLoad, dumpEntries, decode_encode, Option.bind_some, loadsWith_written _ hall]
  simp only [loadHistoryEntriesFromFile, hjson, List.filterMap_map]
  rw [← List.filterMap_eq_filter]
  refine List.filterMap_congr ?_
  intro e _
  simp [validateEntry_toJson_of_double, Option.guard]

/-! ## What an instance keeps -/

/-- What the constructor leaves in memory. -/
def HistoryOrigin.start (o : HistoryOrigin N) (maxEntries : Nat) : List (LastRunHistoryEntry N) :=
  match o with
  | .list entries => entries
  | _ => o.initial.rtake maxEntries

/-- The file behind an append: it lacks the entries of the memory that are not read back, so
that older entries may stay in their place. -/
structure FileKeeps (all : List (LastRunHistoryEntry N)) (m : Nat) (s : LastRunHistory N × File) :
    Prop where
  file : ∃ content, s.2 = some content ∧ loadHistoryEntriesFromFile (some content) =
    s.1.entries.filter LastRunHistoryEntry.hasFiniteTime
  length : s.1.entries.length ≤ m
  sublist : s.1.entries.Sublist all
  suffix : (all.rtake m).filter LastRunHistoryEntry.hasFiniteTime <:+
    s.1.entries.filter LastRunHistoryEntry.hasFiniteTime

/-- **The invariant**, for the entries appended so far. -/
structure HistoryKeeps (o : HistoryOrigin N) (m : Nat)
    (added : List (LastRunHistoryEntry N)) (s : LastRunHistory N × File) : Prop where
  maxEntries : s.1.maxEntries = m
  path : s.1.path = o.hasPath
  start : added = [] → s.1.entries = o.start m
  read : o.hasPath = false ∨ added = [] → s.1.snapshot s.2 = s.1.entries
  suffix : o.hasPath = false → added ≠ [] → s.1.entries = (o.initial ++ added).rtake m
  filed : o.hasPath = true → added ≠ [] → FileKeeps (o.initial ++ added) m s

theorem FileKeeps.length_filter_le {all : List (LastRunHistoryEntry N)} {m : Nat}
    {s : LastRunHistory N × File} (h : FileKeeps all m s) :
    (s.1.entries.filter LastRunHistoryEntry.hasFiniteTime).length ≤ m :=
  (List.length_filter_le _ _).trans h.length

theorem FileKeeps.snapshot {all : List (LastRunHistoryEntry N)} {m : Nat}
    {s : LastRunHistory N × File} (h : FileKeeps all m s) (hpath : s.1.path = true)
    (hm : s.1.maxEntries = m) :
    s.1.snapshot s.2 = s.1.entries.filter LastRunHistoryEntry.hasFiniteTime := by
  obtain ⟨content, hcontent, hload⟩ := h.file
  rw [hcontent, LastRunHistory.snapshot_file _ hpath, hload, hm,
    rtake_of_length_le (h.length_filter_le)]

/-- What a read leaves is what it has read back. -/
theorem FileKeeps.read {all : List (LastRunHistoryEntry N)} {m : Nat}
    {s : LastRunHistory N × File} (h : FileKeeps all m s) (hpath : s.1.path = true)
    (hm : s.1.maxEntries = m) : FileKeeps all m (HistoryUse.read.apply s) := by
  have hentries : (HistoryUse.read.apply s).1.entries =
      s.1.entries.filter LastRunHistoryEntry.hasFiniteTime := h.snapshot hpath hm
  obtain ⟨content, hcontent, hload⟩ := h.file
  refine ⟨⟨content, hcontent, ?_⟩, ?_, ?_, ?_⟩
  · rw [hload, hentries, List.filter_filter]
    simp
  · rw [hentries]
    exact h.length_filter_le
  · rw [hentries]
    exact List.filter_sublist.trans h.sublist
  · rw [hentries, List.filter_filter]
    simpa using h.suffix

/-- The last entry takes the place of the first one of what is read back, too. -/
theorem filter_rtake_concat_suffix {α : Type} {p : α → Bool} {m : Nat} {es fs : List α}
    (h : es.filter p <:+ fs) (hp : ∀ x ∈ fs, p x = true) (x : α) :
    ((es ++ [x]).rtake m).filter p <:+ ((fs ++ [x]).rtake m).filter p := by
  cases m with
  | zero => simp [List.rtake_zero]
  | succ m =>
    have hrest : (es.rtake m).filter p <:+ fs.rtake m := by
      have hes : (es.rtake m).filter p <:+ es.filter p := (List.drop_suffix _ _).filter p
      have hlen : ((es.rtake m).filter p).length ≤ (fs.rtake m).length := by
        have hle := (List.length_filter_le p (es.rtake m)).trans (length_rtake_le m es)
        have hfs := (hes.trans h).length_le
        simp only [List.rtake, List.length_drop]
        simp only [List.rtake] at hle hfs
        omega
      exact List.suffix_of_suffix_length_le (hes.trans h) (List.drop_suffix _ _) hlen
    have hall : (fs.rtake m).filter p = fs.rtake m :=
      List.filter_eq_self.mpr fun y hy => hp y ((List.drop_suffix _ _).mem hy)
    rw [List.rtake_concat_succ, List.rtake_concat_succ, List.filter_append, List.filter_append,
      hall]
    obtain ⟨t, ht⟩ := hrest
    exact ⟨t, by rw [← ht, List.append_assoc]⟩

/-- An append to a path writes what it keeps in memory. -/
theorem fileKeeps_of_append {all : List (LastRunHistoryEntry N)} {h : LastRunHistory N}
    {file : File} (hpath : h.path = true) (e : LastRunHistoryEntry N)
    (hsublist : (h.snapshot file ++ [e]).Sublist (all ++ [e]))
    (hsuffix : ((all ++ [e]).rtake h.maxEntries).filter LastRunHistoryEntry.hasFiniteTime <:+
      ((h.snapshot file ++ [e]).rtake h.maxEntries).filter LastRunHistoryEntry.hasFiniteTime) :
    FileKeeps (all ++ [e]) h.maxEntries (h.append file e) := by
  refine ⟨⟨_, h.append_file file e hpath, ?_⟩, ?_, ?_, ?_⟩
  · rw [load_dumpEntries_of_double, h.append_entries]
  · rw [h.append_entries]
    exact length_rtake_le _ _
  · rw [h.append_entries]
    exact (List.drop_sublist _ _).trans hsublist
  · rw [h.append_entries]
    exact hsuffix

theorem FileKeeps.append {all : List (LastRunHistoryEntry N)} {h : LastRunHistory N}
    {file : File} (hk : FileKeeps all h.maxEntries (h, file)) (hpath : h.path = true)
    (e : LastRunHistoryEntry N) : FileKeeps (all ++ [e]) h.maxEntries (h.append file e) := by
  have hsnap := hk.snapshot hpath rfl
  refine fileKeeps_of_append hpath e ?_ ?_
  · rw [hsnap]
    exact (List.filter_sublist.trans hk.sublist).append_right [e]
  · rw [hsnap, ← rtake_rtake_append]
    exact filter_rtake_concat_suffix hk.suffix (fun x hx => (List.mem_filter.mp hx).2) e

/-- Discarding shows in neither: the next append starts from the same suffix. -/
theorem HistoryOrigin.rtake_start (o : HistoryOrigin N) (m : Nat) :
    (o.start m).rtake m = o.initial.rtake m := by
  cases o with
  | list entries => rfl
  | empty => exact rtake_idem m _
  | path file => exact rtake_idem m _

theorem HistoryOrigin.start_of_hasPath {o : HistoryOrigin N} (h : o.hasPath = true) (m : Nat) :
    o.start m = o.initial.rtake m := by
  cases o with
  | list entries => cases h
  | empty => rfl
  | path file => rfl

theorem historyKeeps_init (o : HistoryOrigin N) (m : Nat) :
    ∃ h, o.init m = .ok h ∧ HistoryKeeps o m [] (h, o.file) := by
  have hpos : ¬ ((m : Int) < 0) := by omega
  cases o with
  | empty =>
    refine ⟨⟨[], m, false⟩, by simp [HistoryOrigin.init, LastRunHistory.init, hpos], ?_⟩
    exact ⟨rfl, rfl, fun _ => by simp [HistoryOrigin.start, HistoryOrigin.initial, List.rtake],
      fun _ => rfl, fun _ h => absurd rfl h, fun _ h => absurd rfl h⟩
  | list entries =>
    refine ⟨⟨entries, m, false⟩, by simp [HistoryOrigin.init, LastRunHistory.init, hpos], ?_⟩
    exact ⟨rfl, rfl, fun _ => rfl, fun _ => rfl, fun _ h => absurd rfl h, fun _ h => absurd rfl h⟩
  | path file =>
    refine ⟨⟨(loadHistoryEntriesFromFile file).rtake m, m, true⟩, ?_, ?_⟩
    · simp [HistoryOrigin.init, LastRunHistory.init, hpos, LastRunHistory.loadFromFileWithoutLock,
        discardOldEntries_eq]
    · refine ⟨rfl, rfl, fun _ => rfl, fun _ => ?_, fun _ h => absurd rfl h, fun _ h => absurd rfl h⟩
      cases file with
      | none => rfl
      | some content => exact LastRunHistory.snapshot_file _ rfl

theorem historyKeeps_read {o : HistoryOrigin N} {m : Nat} {added : List (LastRunHistoryEntry N)}
    {s : LastRunHistory N × File} (h : HistoryKeeps o m added s) :
    HistoryKeeps o m added (HistoryUse.read.apply s) := by
  have hentries (hc : o.hasPath = false ∨ added = []) :
      (HistoryUse.read.apply s).1.entries = s.1.entries := h.read hc
  refine ⟨(s.1.refresh_maxEntries s.2).trans h.maxEntries, (s.1.refresh_path s.2).trans h.path,
    ?_, ?_, ?_, ?_⟩
  · intro hadded
    rw [hentries (.inr hadded)]
    exact h.start hadded
  · intro hc
    exact s.1.snapshot_refresh s.2
  · intro hpath hadded
    rw [hentries (.inl hpath)]
    exact h.suffix hpath hadded
  · intro hpath hadded
    exact (h.filed hpath hadded).read (h.path.trans hpath) h.maxEntries

/-- What an append without a file, or the first one, starts from. -/
theorem HistoryKeeps.rtake_entries {o : HistoryOrigin N} {m : Nat}
    {added : List (LastRunHistoryEntry N)} {s : LastRunHistory N × File}
    (h : HistoryKeeps o m added s) (hc : o.hasPath = false ∨ added = []) :
    s.1.entries.rtake m = (o.initial ++ added).rtake m := by
  by_cases hadded : added = []
  · rw [h.start hadded, hadded, List.append_nil, o.rtake_start]
  · rw [h.suffix (hc.resolve_right hadded) hadded, rtake_idem]

theorem historyKeeps_append {o : HistoryOrigin N} {m : Nat}
    {added : List (LastRunHistoryEntry N)} {s : LastRunHistory N × File}
    (h : HistoryKeeps o m added s) (e : LastRunHistoryEntry N) :
    HistoryKeeps o m (added ++ [e]) ((HistoryUse.append e).apply s) := by
  obtain ⟨history, file⟩ := s
  have hm : history.maxEntries = m := h.maxEntries
  subst hm
  have hentries (hc : o.hasPath = false ∨ added = []) : (history.append file e).1.entries =
      (o.initial ++ (added ++ [e])).rtake history.maxEntries := by
    rw [history.append_entries file e, h.read hc, ← rtake_append, h.rtake_entries hc,
      rtake_append, List.append_assoc]
  refine ⟨history.append_maxEntries file e, (history.append_path file e).trans h.path, by simp,
    ?_, fun hpath _ => hentries (.inl hpath), ?_⟩
  · intro hc
    have hpath : history.path = false := h.path.trans (hc.resolve_right (by simp))
    exact LastRunHistory.snapshot_cached _ _ (by simp [HistoryUse.apply, hpath])
  · intro hpath _
    have hp : history.path = true := h.path.trans hpath
    rw [← List.append_assoc]
    by_cases hadded : added = []
    · have hsnap : history.snapshot file = o.initial.rtake history.maxEntries := by
        rw [h.read (.inr hadded), h.start hadded, HistoryOrigin.start_of_hasPath hpath]
      refine fileKeeps_of_append hp e ?_ ?_
      · rw [hsnap, hadded, List.append_nil]
        exact (List.drop_sublist _ _).append_right [e]
      · rw [hsnap, hadded, List.append_nil, rtake_rtake_append]
    · exact (h.filed hpath hadded).append hp e

theorem historyKeeps_run {o : HistoryOrigin N} {m : Nat} {added : List (LastRunHistoryEntry N)}
    {s : LastRunHistory N × File} (h : HistoryKeeps o m added s) (uses : List (HistoryUse N)) :
    HistoryKeeps o m (added ++ appendedIn uses) (uses.foldl HistoryUse.apply s) := by
  induction uses generalizing s added with
  | nil => rwa [appendedIn, List.filterMap_nil, List.append_nil]
  | cons use uses ih =>
    cases use with
    | read => exact ih (historyKeeps_read h)
    | append e =>
      have hrest := ih (historyKeeps_append h e)
      rwa [List.append_assoc] at hrest

/-! ## The bound -/

theorem HistoryOrigin.fits_iff (o : HistoryOrigin N) (m : Nat) :
    o.Fits m ↔ (o.start m).length ≤ m := by
  cases o with
  | list entries => exact ⟨fun h => h entries rfl, fun h _ he => by cases he; exact h⟩
  | empty => exact iff_of_true nofun (length_rtake_le m _)
  | path file => exact iff_of_true nofun (length_rtake_le m _)

theorem HistoryOrigin.start_of_fits {o : HistoryOrigin N} {m : Nat} (h : o.Fits m) :
    o.start m = o.initial.rtake m := by
  cases o with
  | list entries => exact (rtake_of_length_le (h entries rfl)).symm
  | empty => rfl
  | path file => rfl

/-- Where the last entries have finite times, the memory and the file hold just these. -/
theorem FileKeeps.entries_eq {all : List (LastRunHistoryEntry N)} {m : Nat}
    {s : LastRunHistory N × File} (h : FileKeeps all m s)
    (hall : ∀ e ∈ all.rtake m, e.hasFiniteTime = true) :
    s.1.entries = all.rtake m ∧
      s.1.entries.filter LastRunHistoryEntry.hasFiniteTime = s.1.entries := by
  have hsuffix := h.suffix
  rw [List.filter_eq_self.mpr hall] at hsuffix
  have hlower := hsuffix.length_le
  have hfilter := List.length_filter_le LastRunHistoryEntry.hasFiniteTime s.1.entries
  have hupper : s.1.entries.length ≤ (all.rtake m).length := by
    have hlength := h.length
    have hsublist := h.sublist.length_le
    simp only [List.rtake, List.length_drop]
    omega
  have hkept : s.1.entries.filter LastRunHistoryEntry.hasFiniteTime = s.1.entries :=
    List.filter_sublist.eq_of_length (by omega)
  rw [hkept] at hsuffix
  exact ⟨(hsuffix.eq_of_length (by omega)).symm, hkept⟩

theorem boundedSuffix_iff_of_filed {o : HistoryOrigin N} {m : Nat} {uses : List (HistoryUse N)}
    {s : LastRunHistory N × File} (h : HistoryKeeps o m (appendedIn uses) s)
    (hpath : o.hasPath = true) (hadded : appendedIn uses ≠ []) :
    BoundedSuffix o m uses s ↔ o.Rereads m (appendedIn uses) := by
  have hfiled := h.filed hpath hadded
  have hsnap := hfiled.snapshot (h.path.trans hpath) h.maxEntries
  obtain ⟨content, hcontent, hload⟩ := hfiled.file
  constructor
  · intro hs _ e he
    rw [← hs.suffix, ← hs.read, hsnap] at he
    exact (List.mem_filter.mp he).2
  · intro hall
    obtain ⟨hentries, hkept⟩ := hfiled.entries_eq (hall hpath)
    refine ⟨hfiled.length, hentries, hsnap.trans hkept, ?_⟩
    intro _ _
    rw [hcontent, hload, hkept]

theorem boundedSuffix_iff_of_keeps {o : HistoryOrigin N} {m : Nat} {uses : List (HistoryUse N)}
    {s : LastRunHistory N × File} (h : HistoryKeeps o m (appendedIn uses) s) :
    BoundedSuffix o m uses s ↔ if appendedIn uses = [] then o.Fits m
      else o.Rereads m (appendedIn uses) := by
  split
  · rename_i hadded
    constructor
    · intro hs
      rw [o.fits_iff, ← h.start hadded]
      exact hs.bounded
    · intro hfits
      have hentries := (h.start hadded).trans (HistoryOrigin.start_of_fits hfits)
      refine ⟨by rw [hentries]; exact length_rtake_le m _, ?_, h.read (.inr hadded),
        fun _ hne => absurd hadded hne⟩
      rw [hentries, hadded, List.append_nil]
  · rename_i hadded
    cases hpath : o.hasPath with
    | true => exact boundedSuffix_iff_of_filed h hpath hadded
    | false =>
      have hentries := h.suffix hpath hadded
      refine iff_of_true ?_ fun hp => by rw [hpath] at hp; cases hp
      refine ⟨by rw [hentries]; exact length_rtake_le m _, hentries, h.read (.inl hpath), ?_⟩
      intro hp
      rw [hpath] at hp
      cases hp

/-- Timestamps in microseconds, and NaN. -/
inductive FloatTime where
  | micros (n : Int)
  | nan
  deriving DecidableEq

namespace FloatTime

instance : NumberSyntax FloatTime where
  render
    | micros n => renderMillionths n
    | nan => Lib.Json.nan
  read cs := (readMillionths cs).map micros
  constant w := if w = Lib.Json.nan then some nan else none

/-- Either conversion, of a number, a boolean or the text of a number. -/
def convert : Value FloatTime → Option FloatTime
  | .num n => some n
  | .bool b => some (micros (if b then 1000000 else 0))
  | .str s => if s = Lib.Json.nan then some nan else (readMillionths s).map micros
  | _ => none

instance : PyNumber FloatTime where
  lax := convert
  float := convert
  isFinite
    | micros _ => true
    | nan => false

instance : PyDouble FloatTime where
  lax_num _ _ := rfl
  lax_null := rfl
  written
    | micros n, _ =>
      have h : Written n := written n
      ⟨h.ne_nil, h.ne_minus, h.numChar, congrArg (Option.map micros) h.read⟩
    | nan, h => by cases h

end FloatTime

/-- The file with one attempt that started at NaN. -/
def nanFile : File :=
  some (encode (render spaced 0 (.arr [.obj [(kindKey, .str startedKind), (atKey, .num .nan)]] :
    Value FloatTime)))

/-- The entry is read, and lost behind the next append. -/
theorem nan_entry_lost :
    ∃ h : LastRunHistory FloatTime, (HistoryOrigin.path nanFile).init 10 = .ok h ∧
      h.entries = [.started ⟨.nan⟩] ∧
      ¬ BoundedSuffix (.path nanFile) 10 [.append (.started ⟨.micros 0⟩)]
        (h.append nanFile (.started ⟨.micros 0⟩)) := by
  refine ⟨⟨[.started ⟨.nan⟩], 10, true⟩, rfl, rfl, ?_⟩
  intro hs
  have hread : [LastRunHistoryEntry.started ⟨FloatTime.micros 0⟩] =
      [.started ⟨.nan⟩, .started ⟨.micros 0⟩] := hs.read
  cases hread

end SchedulingUtil
